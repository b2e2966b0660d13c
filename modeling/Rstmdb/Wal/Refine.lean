import Rstmdb.Lib.Runs
import Rstmdb.Wal.Contents
import Rstmdb.Wal.Payload

/-! The log as its callers see it: an append-only list with a floor that
compaction raises. Every run of the log's operations keeps the open log, the
files and that list in agreement. -/
namespace Rstmdb

/-- The abstract log: every append that returned an offset, and the largest
compaction target so far. -/
structure AppendLog where
  appended : List ReadEntry
  target : SegmentId

/-- What is still to be read: the entries of the segments from the target on. -/
def AppendLog.contents (a : AppendLog) : List ReadEntry :=
  a.appended.filter fun p => decide (a.target ≤ p.2.1.segmentId)

/-- The operations of one process after another on one log directory. -/
inductive WalOp
  | append (entry : WalEntry)
  | sync
  | readFrom (start : WalOffset) (limit : Option Nat)
  | close
  | reopen (config : WalConfig)
  | compactBefore (before : WalOffset)

namespace Wal

/-- One operation on the log, and what its result adds to the abstract log. -/
def step (X : Externals) : Wal × AppendLog → WalOp → Option (Wal × AppendLog)
  | (w, a), .append e =>
    match w.append X e with
    | none => none
    | some (w, .error _) => some (w, a)
    | some (w, .ok (seq, off)) => some (w, { a with appended := a.appended ++ [(seq, off, e)] })
  | (w, a), .sync => some (w.sync, a)
  | (w, a), .readFrom start limit =>
    match w.readFrom X start limit with
    | none => none
    | some (w, _) => some (w, a)
  | (w, a), .close => some (w.close, a)
  | (w, a), .reopen config =>
    match openDir X config w.dir with
    | .error _ => none
    | .ok w => some (w, a)
  | (w, a), .compactBefore before =>
    some ((w.compactBefore before).1, { a with target := max a.target before.segmentId })

/-- Compaction goes no further than the current segment. -/
def Within (s : Wal × AppendLog) : WalOp → Prop
  | .compactBefore before => ∀ seg ∈ s.1.current, before.segmentId ≤ seg.id
  | _ => True

instance decidableWithin (s : Wal × AppendLog) : ∀ op, Decidable (Within s op)
  | .compactBefore before =>
    inferInstanceAs (Decidable (∀ seg ∈ s.1.current, before.segmentId ≤ seg.id))
  | .append _ | .sync | .readFrom _ _ | .close | .reopen _ => inferInstanceAs (Decidable True)

/-- The open log and its files against the abstract log. The chunks of `old`
are those that compaction has dropped. -/
structure Agree {X : Externals} (w : Wal) (a : AppendLog) (old pre : List (Chunk X))
    (c : Chunk X) : Prop where
  repr : w.Repr pre c
  clean : ∀ d ∈ pre ++ [c], d.tail = []
  appended : a.appended = entries (old ++ (pre ++ [c]))
  dropped : ∀ d ∈ old, d.id < a.target
  kept : ∀ d ∈ pre ++ [c], a.target ≤ d.id

/-- Sequence numbers grow along the entries and stay below the next one to be drawn. -/
structure Sequenced (next : UInt64) (es : List ReadEntry) : Prop where
  increasing : es.Pairwise fun p q => p.1 < q.1
  below : ∀ p ∈ es, p.1.toNat < next.toNat
  positive : 0 < next.toNat

section
variable {X : Externals} {w w' : Wal} {a : AppendLog} {old pre : List (Chunk X)} {c : Chunk X}

/-! ## The abstract list -/

theorem Agree.of_repr (h : Agree w a old pre c) (hr : w'.Repr pre c) : Agree w' a old pre c :=
  ⟨hr, h.clean, h.appended, h.dropped, h.kept⟩

variable {e : WalEntry} {next : UInt64} {es : List ReadEntry} {n : Nat} {s t : Wal × AppendLog}

/-- What an append returned is what it added. -/
theorem Agree.append (h : Agree w a old pre c) {r : Except WalError (UInt64 × WalOffset)}
    (ha : w.append X e = some (w', r)) :
    ∃ pre' c', Grown e r w w' pre c pre' c' ∧
      ∀ appended, Appended e a.appended appended r →
        Agree w' { a with appended } old pre' c' := by
  obtain ⟨pre', c', hg⟩ := h.repr.append (.inl (h.clean c (by simp))) ha
  have happ := hg.entries
  refine ⟨pre', c', hg, fun appended hadd => ⟨hg.repr, ?_, ?_, h.dropped, ?_⟩⟩
  · intro d hd
    rcases List.mem_append.mp hd with hd | hd
    · exact h.clean d (hg.before d hd)
    · rw [List.mem_singleton.mp hd]
      exact hg.clean (h.clean c (by simp))
  · rw [h.appended, entries_append] at hadd
    rw [entries_append old]
    cases r with
    | error err =>
      simp only [Appended] at happ hadd
      rw [hadd, happ]
    | ok q =>
      simp only [Appended] at happ hadd
      rw [hadd, happ, List.append_assoc]
  · intro d hd
    rcases List.mem_append.mp hd with hd | hd
    · exact h.kept d (hg.before d hd)
    · rw [List.mem_singleton.mp hd]
      exact (h.kept c (by simp)).trans hg.ahead

theorem filter_lt_append_filter_le {α : Type} (f : α → Nat) (t : Nat) {l : List α}
    (asc : l.Pairwise fun x y => f x < f y) :
    l.filter (fun x => decide (f x < t)) ++ l.filter (fun x => decide (t ≤ f x)) = l := by
  have hsplit : l = _ := filter_split (p := fun x => decide (t ≤ f x))
    (asc.imp fun hlt hle => decide_eq_true ((of_decide_eq_true hle).trans hlt.le))
  simpa only [← decide_not, Nat.not_le] using hsplit.symm

/-- Compaction moves chunks from the kept ones to the dropped ones. -/
theorem Agree.compactBefore (h : Agree w a old pre c) {before : WalOffset}
    (hb : before.segmentId ≤ c.id) :
    Agree (w.compactBefore before).1 { a with target := max a.target before.segmentId }
      (old ++ pre.filter (·.id < before.segmentId)) (pre.filter (before.segmentId ≤ ·.id)) c := by
  have hpre : pre.Pairwise fun c d => c.id < d.id :=
    (List.pairwise_append.mp h.repr.holds.ascending).1
  refine ⟨h.repr.compactBefore hb, ?_, ?_, ?_, ?_⟩
  · intro d hd
    apply h.clean d
    simp only [List.mem_append, List.mem_filter] at hd ⊢
    tauto
  · rw [h.appended]
    congr 1
    rw [List.append_assoc, ← List.append_assoc (pre.filter _),
      filter_lt_append_filter_le Chunk.id before.segmentId hpre]
  · intro d hd
    rcases List.mem_append.mp hd with hd | hd
    · exact lt_max_of_lt_left (h.dropped d hd)
    · simp only [List.mem_filter, decide_eq_true_eq] at hd
      exact lt_max_of_lt_right hd.2
  · intro d hd
    rcases List.mem_append.mp hd with hd | hd
    · simp only [List.mem_filter, decide_eq_true_eq] at hd
      exact max_le (h.kept d (List.mem_append_left _ hd.1)) hd.2
    · rw [List.mem_singleton.mp hd]
      exact max_le (h.kept c (by simp)) hb

/-- What the abstract log still holds is what the chunks hold. -/
theorem Agree.contents (h : Agree w a old pre c) (hid : c.id < 2 ^ 24) :
    a.contents = entries (pre ++ [c]) := by
  have hall : ∀ d ∈ pre ++ [c], d.id < 2 ^ 24 :=
    fun d hd => (h.repr.holds.le_last hd).trans_lt hid
  have hold : ∀ d ∈ old, d.id < 2 ^ 24 :=
    fun d hd => ((h.dropped d hd).trans_le (h.kept c (by simp))).trans hid
  rw [AppendLog.contents, h.appended, entries_append, List.filter_append]
  have hnone : (entries old).filter (fun p => decide (a.target ≤ p.2.1.segmentId)) = [] := by
    rw [List.filter_eq_nil_iff]
    intro p hp
    obtain ⟨d, hd, hp⟩ := mem_entries.mp hp
    rw [Chunk.segmentId_of_mem (hold d hd) hp]
    simpa using h.dropped d hd
  have hfull : (entries (pre ++ [c])).filter (fun p => decide (a.target ≤ p.2.1.segmentId)) =
      entries (pre ++ [c]) := by
    rw [List.filter_eq_self]
    intro p hp
    obtain ⟨d, hd, hp⟩ := mem_entries.mp hp
    rw [Chunk.segmentId_of_mem (hall d hd) hp]
    simpa using h.kept d hd
  rw [hnone, hfull, List.nil_append]

/-! ## Sequence numbers -/

theorem toNat_succ {n : UInt64} (h : n.toNat + 1 < 2 ^ 64) : (n + 1).toNat = n.toNat + 1 := by
  rw [UInt64.toNat_add]
  exact Nat.mod_eq_of_lt h

section
variable (h : Sequenced next es)
include h

theorem Sequenced.draw (room : next.toNat + 1 < 2 ^ 64) : Sequenced (next + 1) es := by
  refine ⟨h.increasing, fun p hp => ?_, ?_⟩ <;> rw [toNat_succ room]
  · exact (h.below p hp).trans (Nat.lt_succ_self _)
  · exact Nat.succ_pos _

theorem Sequenced.append (room : next.toNat + 1 < 2 ^ 64) (off : WalOffset)
    (e : WalEntry) : Sequenced (next + 1) (es ++ [(next, off, e)]) := by
  refine ⟨List.pairwise_append.mpr ⟨h.increasing, by simp, ?_⟩, ?_, (h.draw room).positive⟩
  · intro p hp q hq
    rw [List.mem_singleton.mp hq]
    exact UInt64.lt_iff_toNat_lt.mpr (h.below p hp)
  · intro p hp
    rcases List.mem_append.mp hp with hp | hp
    · exact (h.draw room).below p hp
    · rw [List.mem_singleton.mp hp, toNat_succ room]
      exact Nat.lt_succ_self _

theorem Sequenced.sublist {es' : List ReadEntry} (hs : es'.Sublist es) :
    Sequenced next es' :=
  ⟨h.increasing.sublist hs, fun p hp => h.below p (hs.subset hp), h.positive⟩

theorem Sequenced.recount :
    Sequenced (maxSequence es 0 + 1) es ∧ (maxSequence es 0 + 1).toNat ≤ next.toNat := by
  have hlt : (maxSequence es 0).toNat < next.toNat := maxSequence_lt h.positive h.below
  have hsucc := toNat_succ (n := maxSequence es 0) (by have := next.toNat_lt; omega)
  rw [hsucc]
  refine ⟨⟨h.increasing, fun p hp => ?_, ?_⟩, hlt⟩ <;> rw [hsucc]
  · exact Nat.lt_succ_of_le ((le_maxSequence es 0).2 p hp)
  · exact Nat.succ_pos _

end

/-! ## Runs -/

/-- The state after `n` operations. A counter that has not wrapped has drawn at
most one number for each. -/
def Refines (X : Externals) (n : Nat) (s : Wal × AppendLog) : Prop :=
  ∃ (old pre : List (Chunk X)) (c : Chunk X), Agree s.1 s.2 old pre c ∧
    (n + 1 < 2 ^ 64 →
      Sequenced s.1.nextSequence (entries (pre ++ [c])) ∧ s.1.nextSequence.toNat ≤ n + 1)

theorem refines_append (h : Refines X n s) (hs : step X s (.append e) = some t) :
    Refines X (n + 1) t := by
  obtain ⟨w, a⟩ := s
  obtain ⟨old, pre, c, hagree, hseq⟩ := h
  simp only at hagree hseq
  simp only [step] at hs
  cases ha : w.append X e with
  | none => simp [ha] at hs
  | some q =>
    obtain ⟨w', r⟩ := q
    obtain ⟨pre', c', hg, hadd⟩ := hagree.append ha
    have happ := hg.entries
    have hnext := hg.next
    cases r with
    | error err =>
      simp only [ha, Option.some.injEq] at hs
      subst hs
      refine ⟨old, pre', c', hadd a.appended rfl, fun hn => ?_⟩
      obtain ⟨hseq, hle⟩ := hseq (by omega)
      simp only [Appended] at happ
      rw [happ, hnext]
      split
      · exact ⟨hseq, by omega⟩
      · exact ⟨hseq.draw (by omega), by rw [toNat_succ (by omega)]; omega⟩
    | ok q =>
      obtain ⟨seq, off⟩ := q
      simp only [ha, Option.some.injEq] at hs
      subst hs
      refine ⟨old, pre', c', hadd _ rfl, fun hn => ?_⟩
      obtain ⟨hseq, hle⟩ := hseq (by omega)
      obtain ⟨rfl, hopen⟩ := hg.drawn _ _ rfl
      simp only [Appended] at happ
      rw [hopen, if_neg Bool.false_ne_true] at hnext
      rw [happ, hnext, toNat_succ (by omega)]
      exact ⟨hseq.append (by omega) off e, by omega⟩

/-- The other operations keep the entries, drop a prefix of them, or count again. -/
theorem refines_step {op : WalOp} (h : Refines X n s) (hw : Within s op)
    (hs : step X s op = some t) : Refines X (n + 1) t := by
  have later {v : Wal} {b : AppendLog} {old' pre' : List (Chunk X)} {c' : Chunk X}
      (hagree : Agree v b old' pre' c') {m : UInt64} (hv : v.nextSequence = m)
      (hseq : n + 1 < 2 ^ 64 → Sequenced m (entries (pre' ++ [c'])) ∧ m.toNat ≤ n + 1) :
      Refines X (n + 1) (v, b) := by
    refine ⟨old', pre', c', hagree, fun hn => ?_⟩
    obtain ⟨hm, hle⟩ := hseq (by omega)
    rw [hv]
    exact ⟨hm, by omega⟩
  cases op with
  | append e => exact refines_append h hs
  | sync =>
    obtain ⟨old, pre, c, hagree, hseq⟩ := h
    cases hs
    exact later (hagree.of_repr hagree.repr.sync) (by simp [Wal.sync]; split <;> rfl) hseq
  | readFrom start limit =>
    obtain ⟨old, pre, c, hagree, hseq⟩ := h
    simp only [step] at hs
    split at hs
    · cases hs
    rename_i w' r hread
    obtain ⟨stats, rfl⟩ := readFrom_frame hread
    cases hs
    have hr := hagree.repr
    exact later (hagree.of_repr ⟨hr.holds, hr.keys, hr.current⟩) rfl hseq
  | close =>
    obtain ⟨old, pre, c, hagree, hseq⟩ := h
    cases hs
    exact later (hagree.of_repr hagree.repr.close)
      (by simp [Wal.close, Wal.sync]; split <;> rfl) hseq
  | reopen config =>
    obtain ⟨old, pre, c, hagree, hseq⟩ := h
    obtain ⟨w', hopen, hr, -, -, -, hnext⟩ := openDir_of_holds hagree.repr.holds config
    simp only [step, hopen, Option.some.injEq] at hs
    subst hs
    refine later (hagree.of_repr hr) hnext fun hn => ?_
    obtain ⟨hq, hle⟩ := hseq hn
    exact ⟨hq.recount.1, hq.recount.2.trans hle⟩
  | compactBefore before =>
    obtain ⟨old, pre, c, hagree, hseq⟩ := h
    obtain ⟨seg, hcur, hid, -⟩ := hagree.repr.current
    have hb : before.segmentId ≤ c.id := by
      rw [← hid]
      exact hw seg hcur
    cases hs
    obtain ⟨deleted, he⟩ := compactBefore_eq s.1 before
    refine later (hagree.compactBefore hb) (by rw [he]) fun hn => ?_
    obtain ⟨hq, hle⟩ := hseq hn
    refine ⟨hq.sublist ?_, hle⟩
    rw [entries_append, entries_append]
    exact (List.Sublist.flatMap List.filter_sublist _).append (List.Sublist.refl _)

end

/-- Every run from an empty directory refines the abstract log. -/
theorem refines_run {X : Externals} {config : WalConfig} {w₀ w : Wal} {a : AppendLog}
    {ops : List WalOp} (hopen : openDir X config ∅ = .ok w₀)
    (within : Meets (step X) Within (w₀, ⟨[], 0⟩) ops)
    (hrun : run (step X) (w₀, ⟨[], 0⟩) ops = some (w, a)) : Refines X ops.length (w, a) := by
  have start : Refines X 0 (w₀, ⟨[], 0⟩) := by
    rw [openDir_empty] at hopen
    cases hopen
    refine ⟨[], [], Chunk.empty X 1, ⟨repr_fresh X config, by simp, rfl, by simp, by simp⟩,
      fun _ => ⟨⟨by simp [entries], by simp [entries], ?_⟩, ?_⟩⟩ <;> simp [fresh]
  have := run_counts_of_meets (P := Refines X) (fun n s op t => refines_step) start within hrun
  rwa [Nat.zero_add] at this

/-- The segmented log refines an append-only list. After any run of operations
from an empty directory, a read from the start returns exactly the appended
entries that no compaction covers, each with the sequence number and the offset
its append returned, both strictly increasing; and the directory opens again. -/
theorem readFrom_eq_contents (X : Externals) (config : WalConfig) {w₀ w : Wal} {a : AppendLog}
    {ops : List WalOp} (hopen : openDir X config ∅ = .ok w₀)
    (within : Meets (step X) Within (w₀, ⟨[], 0⟩) ops)
    (hrun : run (step X) (w₀, ⟨[], 0⟩) ops = some (w, a))
    (ids : ∀ id ∈ w.segments.keys, id < 2 ^ 24) (calls : ops.length + 1 < 2 ^ 64) :
    (∃ w', w.readFrom X ⟨0⟩ none = some (w', .ok a.contents)) ∧
      (a.contents.Pairwise fun p q => p.1 < q.1 ∧ p.2.1.asU64 < q.2.1.asU64) ∧
      ∀ config', ∃ w', openDir X config' w.dir = .ok w' := by
  obtain ⟨old, pre, c, hagree, hseq⟩ := refines_run hopen within hrun
  have hid : ∀ d ∈ pre ++ [c], d.id < 2 ^ 24 := by
    intro d hd
    apply ids
    rw [hagree.repr.keys]
    exact List.mem_map_of_mem hd
  rw [hagree.contents (hid c (by simp))]
  obtain ⟨hq, -⟩ := hseq calls
  refine ⟨?_, ?_, ?_⟩
  · obtain ⟨stats, hread⟩ := hagree.repr.readFrom
    exact ⟨_, hread⟩
  · exact hq.increasing.and (entries_increasing hagree.repr.holds.ascending hid)
  · intro config'
    obtain ⟨w', hopen', -⟩ := openDir_of_holds hagree.repr.holds config'
    exact ⟨w', hopen'⟩

/-- A run with a rotation for every record, a restart and a compaction. -/
theorem readFrom_eq_contents_of_compacted :
    ∃ s, run (step serde) (fresh ⟨0, .everyWrite⟩, ⟨[], 0⟩)
        [.append (.checkpoint 1), .append (.checkpoint 2), .reopen ⟨0, .never⟩,
          .append (.checkpoint 3), .compactBefore ⟨3 * 2 ^ 40⟩] = some s ∧
      s.2.appended.length = 3 ∧ s.2.contents.length = 2 ∧
      ∃ w', s.1.readFrom serde ⟨0⟩ none = some (w', .ok s.2.contents) := by
  refine run_exists (p := fun s => (s.2.appended.length = 3 ∧ s.2.contents.length = 2) ∧
    ∀ id ∈ s.1.segments.keys, id < 2 ^ 24) (by decide +kernel) ?_
  rintro ⟨w, a⟩ hrun ⟨⟨hall, hkept⟩, hids⟩
  exact ⟨hall, hkept, (readFrom_eq_contents serde ⟨0, .everyWrite⟩
    (openDir_empty serde _) (by decide +kernel) hrun hids (by decide)).1⟩

end Wal

end Rstmdb

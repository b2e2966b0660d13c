import Rstmdb.Core.Optimistic
import Rstmdb.Lib.Paging
import Rstmdb.Server.Handler
import Rstmdb.Wal.Refine

/-! Reading the log through WAL_READ page by page. The cursor is the packed offset of
the last record plus one, and a packed offset holds only the low 24 bits of a segment
id. The pages are the log as long as the packed offsets of its records increase. -/
namespace Rstmdb

open Json (Value)
open Paging (walk onward page)

/-- What a client sends for one page. -/
def pageParams (start : Value) (limit : UInt64) : Value :=
  .obj [("from_offset", start), ("limit", .number (.posInt limit))]

/-- WAL_READ from a start and then from each `next_offset`, until no records come back:
all records of the answers, if the fuel suffices. -/
def readPages (X : ServerExternals) (limit : UInt64) : Nat → Shared → Value → Option (List Value)
  | 0, _, _ => none
  | fuel + 1, s, start =>
    match handleWalRead X s (pageParams start limit) with
    | some (s', .ok answer) =>
      match answer.index "records" with
      | .array [] => some []
      | .array records =>
        (readPages X limit fuel s' (answer.index "next_offset")).map (records ++ ·)
      | _ => none
    | _ => none

/-- Where a record lies, as the client sees it. -/
def ReadEntry.position (p : ReadEntry) : Nat := p.2.1.asU64

namespace Wal

/-! ## The log -/

/-- The operations that write to a log, and those that leave it alone. -/
def Keeps : WalOp → Prop
  | .compactBefore _ => False
  | .append _ | .sync | .readFrom _ _ | .close | .reopen _ => True

theorem target_step {X : Externals} {s t : Wal × AppendLog} {op : WalOp} (hk : Keeps op)
    (hs : step X s op = some t) : t.2.target = s.2.target := by
  obtain ⟨w, a⟩ := s
  cases op with
  | compactBefore before => exact hk.elim
  | append e =>
    simp only [step] at hs
    split at hs <;> cases hs <;> rfl
  | sync | close =>
    cases hs
    rfl
  | readFrom start limit | reopen config =>
    simp only [step] at hs
    split at hs <;> cases hs
    rfl

/-- A log that no compaction has cut holds all that was ever appended to it. -/
theorem repr_of_kept {X : Externals} {config : WalConfig} {w₀ w : Wal} {a : AppendLog}
    {ops : List WalOp} (hopen : openDir X config ∅ = .ok w₀) (kept : ∀ op ∈ ops, Keeps op)
    (hrun : run (step X) (w₀, ⟨[], 0⟩) ops = some (w, a)) :
    ∃ (pre : List (Chunk X)) (c : Chunk X), w.Repr pre c ∧ a.appended = entries (pre ++ [c]) := by
  have hmeets : Meets (step X) (fun _ op => Keeps op) (w₀, ⟨[], 0⟩) ops :=
    meets_of_forall (step X) Keeps _ kept
  have hwithin : Meets (step X) Within (w₀, ⟨[], 0⟩) ops :=
    Meets.mono (P := fun _ => True) (fun _ _ _ _ _ _ => trivial)
      (fun s op _ hk => by cases op <;> trivial) trivial hmeets
  have htarget : a.target = 0 :=
    run_keeps_of_meets (P := fun s => s.2.target = 0)
      (fun s op t h hk hs => (target_step hk hs).trans h) rfl hmeets hrun
  obtain ⟨old, pre, c, hagree, -⟩ := refines_run hopen hwithin hrun
  have hold : old = [] := by
    rw [List.eq_nil_iff_forall_not_mem]
    intro d hd
    have := hagree.dropped d hd
    rw [htarget] at this
    exact Nat.not_lt_zero _ this
  exact ⟨pre, c, hagree.repr, by rw [hagree.appended, hold, List.nil_append]⟩

theorem position_lt {X : Externals} {cs : List (Chunk X)} {p : ReadEntry} (hp : p ∈ entries cs) :
    p.position < 2 ^ 64 := by
  obtain ⟨d, -, hd⟩ := mem_entries.mp hp
  obtain ⟨o, ho, he⟩ := Chunk.mem_entries hd
  rw [ReadEntry.position, he, WalOffset.pack_asU64 d.id ho]
  simp only [WalOffset.offsetMask] at ho
  omega

theorem positions_of_ids {X : Externals} {w : Wal} {pre : List (Chunk X)} {c : Chunk X}
    (h : w.Repr pre c) (ids : ∀ id ∈ w.segments.keys, id < 2 ^ 24 - 1) :
    ((entries (pre ++ [c])).Pairwise fun p q => p.position < q.position) ∧
      ∀ p ∈ entries (pre ++ [c]), p.position + 1 < 2 ^ 64 := by
  have hids : ∀ d ∈ pre ++ [c], d.id < 2 ^ 24 - 1 := by
    intro d hd
    apply ids
    rw [h.keys]
    exact List.mem_map_of_mem hd
  refine ⟨entries_increasing h.holds.ascending fun d hd => (hids d hd).trans (by decide), ?_⟩
  intro p hp
  obtain ⟨d, hd, hp⟩ := mem_entries.mp hp
  obtain ⟨o, ho, he⟩ := Chunk.mem_entries hp
  have hd : Nat.succ d.id ≤ 2 ^ 24 - 1 := hids d hd
  have hmod : d.id % 2 ^ 24 ≤ d.id := Nat.mod_le _ _
  rw [ReadEntry.position, he, WalOffset.pack_asU64 d.id ho]
  simp only [WalOffset.offsetMask] at ho
  omega

end Wal

/-! ## One page -/

theorem index_obj {fs : List (String × Value)} (h : (fs.map Prod.fst).Nodup) (k : String) :
    (Value.obj fs).index k = (Json.Fields.get? fs k).getD .null := by
  simp only [Value.obj, Value.index, Json.Fields.ofList]
  rw [Json.Fields.get?_foldl_insert h]
  cases Json.Fields.get? fs k <;> rfl

/-- The number that WAL_READ gives a client to go on from. -/
def nextOffset (entries : List ReadEntry) : Value :=
  match entries.getLast? with
  | some p => .nat (p.position + 1)
  | none => .null

section
variable {X : ServerExternals} {s : Shared} {cs : List (Chunk X.toExternals)}

/-- One answer: a page of the log, and a state that differs only in counters. -/
theorem handleWalRead_page (h : Holds s.engine.wal.dir cs)
    (hkeys : s.engine.wal.segments.keys = cs.map Chunk.id) (start limit : UInt64) :
    let records := page ReadEntry.position (entries cs) limit.toNat start.toNat
    ∃ stats, handleWalRead X s (pageParams (.number (.posInt start)) limit) =
      some ({ s with engine := { s.engine with wal := { s.engine.wal with stats } } },
        .ok (.obj [("records", .array (records.map walRecord)),
          ("next_offset", nextOffset records)])) := by
  intro records
  obtain ⟨stats, hread⟩ := Wal.readFrom_of_holds h hkeys ⟨start.toNat⟩ (some limit.toNat)
  refine ⟨stats, ?_⟩
  have hstart : ((pageParams (.number (.posInt start)) limit).index "from_offset").asU64 =
      some start := by
    rw [pageParams, index_obj (by simp)]
    rfl
  have hlimit : ((pageParams (.number (.posInt start)) limit).index "limit").asU64 =
      some limit := by
    rw [pageParams, index_obj (by simp)]
    rfl
  simp only [handleWalRead, hstart, hlimit, Option.map_some, hread]
  rfl

/-- The pages that a client reads are those of the log's records by their positions. -/
theorem readPages_eq_walk (limit : UInt64) (fuel : Nat) (h : Holds s.engine.wal.dir cs)
    (hkeys : s.engine.wal.segments.keys = cs.map Chunk.id) (start : UInt64) :
    readPages X limit fuel s (.number (.posInt start)) =
      (walk ReadEntry.position (2 ^ 64) (entries cs) limit.toNat fuel start.toNat).map
        (List.map walRecord) := by
  induction fuel generalizing s start with
  | zero => rfl
  | succ fuel ih =>
    obtain ⟨stats, hpage⟩ := handleWalRead_page h hkeys start limit
    have hrecords (r n : Value) :
        (Value.obj [("records", r), ("next_offset", n)]).index "records" = r := by
      rw [index_obj (by simp)]
      rfl
    have hnext (r n : Value) :
        (Value.obj [("records", r), ("next_offset", n)]).index "next_offset" = n := by
      rw [index_obj (by simp)]
      rfl
    simp only [readPages, hpage, hrecords, hnext]
    cases hlast : (page ReadEntry.position (entries cs) limit.toNat start.toNat).getLast? with
    | none =>
      have hempty := List.getLast?_eq_none_iff.mp hlast
      rw [Paging.walk_of_empty hempty, hempty]
      rfl
    | some last =>
      rw [Paging.walk_of_last hlast]
      have hnonempty : page ReadEntry.position (entries cs) limit.toNat start.toNat ≠ [] := by
        intro hempty
        rw [hempty] at hlast
        cases hlast
      obtain ⟨p, ps, hcons⟩ := List.exists_cons_of_ne_nil hnonempty
      have hfrom : nextOffset (page ReadEntry.position (entries cs) limit.toNat start.toNat) =
          .number (.posInt (UInt64.ofNat (last.position + 1))) := by
        rw [nextOffset, hlast]
        rfl
      have hrest :=
        ih (s := { s with engine := { s.engine with wal := { s.engine.wal with stats } } })
        h hkeys (UInt64.ofNat (last.position + 1))
      rw [UInt64.toNat_ofNat'] at hrest
      rw [hfrom, hrest, hcons]
      simp only [List.map_cons, Option.map_map]
      congr 1
      funext r
      simp

end

/-! ## The whole log -/

/-- The field that a client reads a record's position from. -/
def recordPosition (record : Value) : Option Nat := (record.index "offset").asU64.map UInt64.toNat

theorem recordPosition_walRecord {p : ReadEntry} (h : p.position < 2 ^ 64) :
    recordPosition (walRecord p) = some p.position := by
  rw [recordPosition, walRecord, index_obj (by simp)]
  change some (UInt64.ofNat p.position).toNat = _
  rw [UInt64.toNat_ofNat', Nat.mod_eq_of_lt h]

theorem positions_of_records {ps : List ReadEntry} (h : ∀ p ∈ ps, p.position < 2 ^ 64) :
    (ps.map walRecord).filterMap recordPosition = ps.map ReadEntry.position := by
  rw [List.filterMap_map, ← List.filterMap_eq_map]
  apply List.filterMap_congr
  intro p hp
  exact recordPosition_walRecord (h p hp)

/-- Records that are read one by one from the start on, and are those of the log, lie at
increasing positions. -/
theorem positions_of_readPages_one {X : ServerExternals} {s : Shared}
    {pre : List (Chunk X.toExternals)} {c : Chunk X.toExternals} (hr : s.engine.wal.Repr pre c)
    {fuel : Nat} (h : readPages X 1 fuel s (.number (.posInt 0)) =
      some ((entries (pre ++ [c])).map walRecord)) :
    ((entries (pre ++ [c])).Pairwise fun p q => p.position < q.position) ∧
      ∀ p ∈ entries (pre ++ [c]), p.position + 1 < 2 ^ 64 := by
  rw [readPages_eq_walk 1 fuel hr.holds hr.keys] at h
  obtain ⟨r, hwalk, hrecords⟩ := Option.map_eq_some_iff.mp h
  have hbounded : ∀ p ∈ entries (pre ++ [c]), p.position < 2 ^ 64 := fun p hp => Wal.position_lt hp
  refine Paging.increasing_of_walk_one hbounded (by decide) hwalk ?_
  rw [← positions_of_records hbounded, ← hrecords,
    positions_of_records fun p hp => hbounded p (Paging.mem_of_walk hwalk hp)]

/-- A client that pages through WAL_READ. For every log written by appends, between
syncs, reads and restarts, paging from every start with every limit ends and returns the
records from that start on, in order, if and only if the packed offsets increase along
the log and none is the last that a word holds. They do while segment ids fit into an
offset. -/
theorem readPages_exact_iff (X : ServerExternals) (config : WalConfig) {w₀ : Wal} {s : Shared}
    {a : AppendLog} {ops : List WalOp} (hopen : Wal.openDir X.toExternals config ∅ = .ok w₀)
    (kept : ∀ op ∈ ops, Wal.Keeps op)
    (hrun : run (Wal.step X.toExternals) (w₀, ⟨[], 0⟩) ops = some (s.engine.wal, a)) :
    ((∀ start limit : UInt64, 0 < limit.toNat →
        ∃ fuel, readPages X limit fuel s (.number (.posInt start)) =
          some ((a.appended.filter (start.toNat ≤ ·.position)).map walRecord)) ↔
      (a.appended.Pairwise fun p q => p.position < q.position) ∧
        ∀ p ∈ a.appended, p.position + 1 < 2 ^ 64) ∧
    ((∀ id ∈ s.engine.wal.segments.keys, id < 2 ^ 24 - 1) →
      (a.appended.Pairwise fun p q => p.position < q.position) ∧
        ∀ p ∈ a.appended, p.position + 1 < 2 ^ 64) := by
  obtain ⟨pre, c, hr, happ⟩ := Wal.repr_of_kept hopen kept hrun
  rw [happ]
  refine ⟨⟨fun h => ?_, ?_⟩, Wal.positions_of_ids hr⟩
  · obtain ⟨fuel, hpages⟩ := h 0 1 (by decide)
    rw [List.filter_eq_self.mpr fun p _ => by simp] at hpages
    exact positions_of_readPages_one hr hpages
  · rintro ⟨increasing, room⟩ start limit hlimit
    obtain ⟨fuel, hwalk⟩ := Paging.walk_of_increasing increasing room hlimit start.toNat
    refine ⟨fuel, ?_⟩
    rw [readPages_eq_walk limit fuel hr.holds hr.keys, hwalk]
    rfl

/-- Three records in segments of their own, and a restart between them. -/
theorem readPages_exact_of_restarted :
    ∃ t, run (Wal.step serdeServer.toExternals) (Wal.fresh ⟨0, .everyWrite⟩, ⟨[], 0⟩)
        [.append (.checkpoint 1), .append (.checkpoint 2), .reopen ⟨0, .never⟩,
          .append (.checkpoint 3)] = some t ∧
      t.2.appended.length = 3 ∧ ∀ s : Shared, s.engine.wal = t.1 →
        ∀ start limit : UInt64, 0 < limit.toNat →
          ∃ fuel, readPages serdeServer limit fuel s (.number (.posInt start)) =
            some ((t.2.appended.filter (start.toNat ≤ ·.position)).map walRecord) := by
  refine run_exists (p := fun t => t.2.appended.length = 3 ∧
    ∀ id ∈ t.1.segments.keys, id < 2 ^ 24 - 1) (by decide +kernel) ?_
  rintro ⟨w, a⟩ hrun ⟨hlen, hids⟩
  refine ⟨hlen, ?_⟩
  rintro s rfl
  obtain ⟨hiff, hcond⟩ := readPages_exact_iff serdeServer ⟨0, .everyWrite⟩
    (Wal.openDir_empty _ _) (by simp [Wal.Keeps]) hrun
  exact hiff.mpr (hcond hids)

/-! ## A log of many segments -/

theorem Wal.Rotating.appends {X : Externals} {w : Wal} {last : SegmentId}
    (h : w.Rotating (X := X) last) {e : WalEntry} (hfit : (X.toVec e).length ≤ maxRecordSize)
    (a : AppendLog) (n : Nat) :
    ∃ w' a', run (Wal.step X) (w, a) (List.replicate n (.append e)) = some (w', a') ∧
      a'.appended.map ReadEntry.position = a.appended.map ReadEntry.position ++
        (List.range' (last + 1) n).map fun id => (WalOffset.pack id 0).asU64 := by
  induction n generalizing w last a with
  | zero => exact ⟨w, a, rfl, by simp⟩
  | succ n ih =>
    obtain ⟨w₁, happend, hrot⟩ := h.append hfit
    obtain ⟨w', a', hrest, hpos⟩ := ih hrot
      { a with appended := a.appended ++ [(w.nextSequence, WalOffset.pack (last + 1) 0, e)] }
    refine ⟨w', a', ?_, ?_⟩
    · rw [List.replicate_succ, run_cons]
      exact ⟨_, by simp [Wal.step, happend], hrest⟩
    · have hfirst : ReadEntry.position (w.nextSequence, WalOffset.pack (last + 1) 0, e) =
          (WalOffset.pack (last + 1) 0).asU64 := by rw [ReadEntry.position]
      rw [hpos, List.range'_succ, List.map_append, List.map_cons, List.map_cons, List.map_nil,
        List.append_assoc, List.singleton_append, hfirst]

/-- After 2^24 - 1 records in segments of their own the last one has the packed offset 0.
Paging from 0 in steps of one record never returns the log. -/
theorem readPages_loses_records :
    ∃ w a, run (Wal.step serdeServer.toExternals) (Wal.fresh ⟨0, .never⟩, ⟨[], 0⟩)
        (List.replicate (2 ^ 24 - 1) (.append (.checkpoint 1))) = some (w, a) ∧
      ∀ s : Shared, s.engine.wal = w → ∀ fuel,
        readPages serdeServer 1 fuel s (.number (.posInt 0)) ≠ some (a.appended.map walRecord) := by
  generalize hn : 2 ^ 24 - 1 = n
  have hrot : (Wal.fresh ⟨0, .never⟩).Rotating (X := serdeServer.toExternals) 1 :=
    ⟨⟨[], Chunk.empty _ 1, Wal.repr_fresh _ _, rfl, rfl⟩, by
      intro seg hseg
      cases hseg
      rfl, rfl, rfl⟩
  obtain ⟨w, a, hrun, hpos⟩ := hrot.appends (e := .checkpoint 1) (by decide +kernel) ⟨[], 0⟩ n
  refine ⟨w, a, hrun, ?_⟩
  rintro s rfl fuel hpages
  obtain ⟨pre, c, hr, happ⟩ := Wal.repr_of_kept (Wal.openDir_empty _ _)
    (fun op hop => by rw [List.eq_of_mem_replicate hop]; trivial) hrun
  rw [happ] at hpages hpos
  have hsorted := List.pairwise_map.mpr (positions_of_readPages_one hr hpages).1
  rw [hpos, List.map_nil, List.nil_append] at hsorted
  -- the first record lies in segment 2, the last one in segment 2^24
  have hlt := List.pairwise_iff_getElem.mp (List.pairwise_map.mp hsorted) 0 (n - 1)
    (by rw [List.length_range']; omega) (by rw [List.length_range']; omega) (by omega)
  rw [List.getElem_range', List.getElem_range', WalOffset.pack_asU64 _ (Nat.zero_le _),
    WalOffset.pack_asU64 _ (Nat.zero_le _)] at hlt
  omega

end Rstmdb

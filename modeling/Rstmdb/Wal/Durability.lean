import Rstmdb.Lib.Runs
import Rstmdb.Wal.Contents
import Rstmdb.Wal.Payload

/-! What a power failure can take. `sync` reaches the current segment only, and
a rotation leaves the segment before it as it is. When no rotation leaves
unsynced bytes behind, each fsync policy keeps what it promises. -/
namespace Rstmdb

/-- A record by its segment and the position after its last byte. -/
abbrev RecordEnd := SegmentId × Nat

/-- The file has been synced since the record was written. -/
def durable (dir : Dir) (r : RecordEnd) : Bool :=
  match dir[r.1]? with
  | some f => decide (r.2 ≤ f.synced)
  | none => false

def unsynced (dir : Dir) (ends : List RecordEnd) : List RecordEnd :=
  ends.filter fun r => !durable dir r

theorem unsynced_eq_nil {dir : Dir} {ends : List RecordEnd}
    (h : ∀ r ∈ ends, durable dir r = true) : unsynced dir ends = [] := by
  simpa [unsynced] using h

inductive SyncOp
  | append (entry : WalEntry)
  | sync
  | close

namespace Wal

/-- One call, with the records that appends have written so far. -/
def syncStep (X : Externals) : Wal × List RecordEnd → SyncOp → Option (Wal × List RecordEnd)
  | (w, ends), .append e =>
    match w.append X e with
    | none => none
    | some (w, .error _) => some (w, ends)
    | some (w, .ok _) =>
      some (w, ends ++ (w.current.map fun segment => (segment.id, segment.size)).toList)
  | (w, ends), .sync => some (w.sync, ends)
  | (w, ends), .close => some (w.close, ends)

/-- An append that rotates leaves a segment with nothing to sync. -/
def RotatesSynced (X : Externals) (s : Wal × List RecordEnd) : SyncOp → Prop
  | .append e =>
    s.1.closed = false → s.1.needsRotation (s.1.nextRecord X e).diskSize = true →
      ∀ segment ∈ s.1.current, segment.syncPending = false
  | _ => True

instance decidableRotatesSynced (X : Externals) (s : Wal × List RecordEnd) :
    ∀ op, Decidable (RotatesSynced X s op)
  | .append _ => inferInstanceAs (Decidable (_ → _ → ∀ segment ∈ s.1.current, _))
  | .sync | .close => inferInstanceAs (Decidable True)

/-- What is known of the records: all but those of the current segment are
durable, those too when nothing is pending, and the counter counts the rest. -/
structure Covered (w : Wal) (ends : List RecordEnd) (seg : Segment) : Prop where
  current : w.current = some seg
  length : ∃ f, w.dir[seg.id]? = some f ∧ f.bytes.length = seg.size
  known : ∀ r ∈ ends, ∃ f, w.dir[r.1]? = some f ∧ r.2 ≤ f.bytes.length
  behind : ∀ r ∈ ends, r.1 ≠ seg.id → durable w.dir r = true
  flushed : seg.syncPending = false → ∀ r ∈ ends, durable w.dir r = true
  count : (unsynced w.dir ends).length ≤ w.writesSinceSync

section
variable {w : Wal} {ends : List RecordEnd} {seg : Segment}

section
variable (h : Covered w ends seg)
include h

/-- A sync makes every record durable that is not behind. -/
theorem Covered.durable_sync : ∀ r ∈ ends, durable (w.syncSegment seg).dir r = true := by
  obtain ⟨f, hf, -⟩ := h.length
  intro r hr
  by_cases hp : seg.syncPending = true
  · simp only [syncSegment, Segment.sync, hp, if_true, hf]
    by_cases hid : r.1 = seg.id
    · obtain ⟨g, hg, hle⟩ := h.known r hr
      rw [hid, hf] at hg
      cases hg
      simp [durable, hid, hle]
    · rw [durable, Table.getElem?_insert_ne hid]
      exact h.behind r hr hid
  · simp only [syncSegment, Segment.sync, hp]
    exact h.flushed (Bool.eq_false_iff.mpr hp) r hr

theorem Covered.syncSegment : Covered (w.syncSegment seg) ends (seg.sync w.dir).1 := by
  have hall := h.durable_sync
  obtain ⟨f, hf, hlen⟩ := h.length
  have hdir : ∀ (id : SegmentId) (g : SegFile), w.dir[id]? = some g →
      ∃ g', (w.syncSegment seg).dir[id]? = some g' ∧ g'.bytes = g.bytes := by
    intro id g hg
    simp only [Wal.syncSegment, Segment.sync, hf]
    split
    · by_cases hid : id = seg.id
      · rw [hid, hf] at hg
        cases hg
        exact ⟨{ f with synced := f.bytes.length },
          by rw [hid, Std.ExtTreeMap.getElem?_insert_self], rfl⟩
      · exact ⟨g, by rw [Table.getElem?_insert_ne hid, hg], rfl⟩
    · exact ⟨g, hg, rfl⟩
  refine ⟨rfl, ?_, ?_, fun r hr _ => hall r hr, fun _ => hall, ?_⟩
  · obtain ⟨g, hg, hb⟩ := hdir seg.id f hf
    exact ⟨g, by simpa using hg, by rw [hb, hlen, Segment.sync_size]⟩
  · intro r hr
    obtain ⟨g, hg, hle⟩ := h.known r hr
    obtain ⟨g', hg', hb⟩ := hdir r.1 g hg
    exact ⟨g', hg', by rw [hb]; exact hle⟩
  · rw [unsynced_eq_nil hall]
    exact Nat.zero_le _

theorem Covered.rotated (hp : seg.syncPending = false) (hnew : w.dir.contains w.nextId = false) :
    Covered w.rotated ends ⟨w.nextId, 0, w.config.segmentSize, false⟩ := by
  have hother : ∀ r ∈ ends, w.rotated.dir[r.1]? = w.dir[r.1]? := by
    intro r hr
    obtain ⟨g, hg, -⟩ := h.known r hr
    refine Table.getElem?_insert_ne fun hid => ?_
    rw [Std.ExtTreeMap.contains_eq_isSome_getElem?, ← hid, hg] at hnew
    simp at hnew
  have hall : ∀ r ∈ ends, durable w.rotated.dir r = true := by
    intro r hr
    rw [durable, hother r hr]
    exact h.flushed hp r hr
  refine ⟨rfl, ⟨_, Std.ExtTreeMap.getElem?_insert_self, rfl⟩, ?_, fun r hr _ => hall r hr,
    fun _ => hall, ?_⟩
  · intro r hr
    rw [hother r hr]
    exact h.known r hr
  · rw [unsynced_eq_nil hall]
    exact Nat.zero_le _

theorem Covered.written (r : WalRecord) :
    Covered (w.written seg r) (ends ++ [(seg.id, seg.size + r.diskSize)]) (grownSegment seg r) := by
  obtain ⟨f, hf, hlen⟩ := h.length
  have hfile : (w.written seg r).dir[seg.id]? =
      some { f with bytes := f.bytes ++ r.bytes } := by
    simp [Wal.written, noteWrite, Segment.writeEnd, hf]
  have hother {id : SegmentId} (hid : id ≠ seg.id) :
      (w.written seg r).dir[id]? = w.dir[id]? := by
    simp only [Wal.written, noteWrite, Segment.writeEnd, hf]
    exact Table.getElem?_insert_ne hid
  have hsame (q : RecordEnd) : durable (w.written seg r).dir q = durable w.dir q := by
    by_cases hid : q.1 = seg.id
    · simp [durable, hid, hfile, hf]
    · simp [durable, hother hid]
  refine ⟨rfl, ⟨_, hfile, by simp [grownSegment, hlen]⟩, ?_, ?_, by simp [grownSegment], ?_⟩
  · intro q hq
    rcases List.mem_append.mp hq with hq | hq
    · obtain ⟨g, hg, hle⟩ := h.known q hq
      by_cases hid : q.1 = seg.id
      · rw [hid, hf] at hg
        cases hg
        exact ⟨_, by rw [hid]; exact hfile, by simp only [List.length_append]; omega⟩
      · exact ⟨g, by rw [hother hid, hg], hle⟩
    · rw [List.mem_singleton.mp hq]
      exact ⟨_, hfile, by simp [hlen]⟩
  · intro q hq hid
    rw [hsame]
    rcases List.mem_append.mp hq with hq | hq
    · exact h.behind q hq hid
    · rw [List.mem_singleton.mp hq] at hid
      exact absurd rfl hid
  · have hcount := h.count
    simp only [unsynced, hsame, List.filter_append, List.length_append] at hcount ⊢
    have hone := List.length_filter_le (fun q => !durable w.dir q) [(seg.id, seg.size + r.diskSize)]
    simp only [List.length_singleton] at hone
    simp only [Wal.written, noteWrite]
    omega

theorem Covered.applyPolicy :
    ∃ seg', Covered (w.applyPolicy seg) ends seg' ∧ seg'.id = seg.id ∧ seg'.size = seg.size ∧
      (w.config.fsyncPolicy = .everyWrite → seg'.syncPending = false) ∧
      ∀ n, w.config.fsyncPolicy = .everyN n → 1 ≤ n.toNat →
        (w.applyPolicy seg).writesSinceSync < n.toNat := by
  have synced : ∃ seg', Covered (w.syncSegment seg) ends seg' ∧ seg'.id = seg.id ∧
      seg'.size = seg.size ∧ seg'.syncPending = false :=
    ⟨_, h.syncSegment, by simp, by simp, by simp⟩
  obtain ⟨seg', hs, hid, hsize, hp⟩ := synced
  unfold Wal.applyPolicy
  split
  · rename_i hpol
    exact ⟨seg', hs, hid, hsize, fun _ => hp, by simp [hpol]⟩
  · rename_i m hpol
    split
    · exact ⟨seg', hs, hid, hsize, fun _ => hp, fun n _ hpos => hpos⟩
    rename_i hfew
    refine ⟨seg, h, rfl, rfl, by simp [hpol], ?_⟩
    intro n hn _
    rw [hpol] at hn
    cases hn
    exact Nat.not_le.mp hfew
  · rename_i hpol
    exact ⟨seg, h, rfl, rfl, by simp [hpol], by simp [hpol]⟩
  · rename_i hpol
    exact ⟨seg, h, rfl, rfl, by simp [hpol], by simp [hpol]⟩

end

/-- The records are covered and the policy's own counter is in its bounds. -/
def Kept (config : WalConfig) (s : Wal × List RecordEnd) : Prop :=
  ∃ seg, Covered s.1 s.2 seg ∧ s.1.config = config ∧
    (config.fsyncPolicy = .everyWrite → seg.syncPending = false) ∧
    ∀ n, config.fsyncPolicy = .everyN n → 1 ≤ n.toNat → s.1.writesSinceSync < n.toNat

theorem kept_locked {config : WalConfig} (h : Kept config (w, ends)) {r : WalRecord} {w' : Wal}
    {res : Except WalError (UInt64 × WalOffset)} (ha : w.appendLocked r = some (w', res)) :
    (∀ err, res = .error err → Kept config (w', ends)) ∧
      ∀ q, res = .ok q →
        Kept config (w', ends ++ (w'.current.map fun seg => (seg.id, seg.size)).toList) := by
  obtain ⟨seg, hc, hconf, hpend, hcount⟩ := h
  simp only at hc hconf hcount
  rcases appendLocked_cases hc.current ha with ⟨-, rfl, rfl⟩ | ⟨-, -, rfl, rfl⟩
  · exact ⟨fun _ _ => ⟨seg, hc, hconf, hpend, hcount⟩, by simp⟩
  · refine ⟨by simp, fun _ _ => ?_⟩
    obtain ⟨seg', hc', hid, hsize, hp', hn'⟩ := (hc.written r).applyPolicy
    have hw : (w.written seg r).config = config := hconf
    rw [hw] at hp' hn'
    refine ⟨seg', ?_, by simp [hw], hp', hn'⟩
    rw [hc'.current, Option.map_some, Option.toList_some, hid, hsize]
    exact hc'

/-- Every call whose rotation leaves nothing pending keeps the records covered. -/
theorem kept_step {X : Externals} {config : WalConfig} {s t : Wal × List RecordEnd} {op : SyncOp}
    (h : Kept config s) (hrot : RotatesSynced X s op) (hs : syncStep X s op = some t) :
    Kept config t := by
  obtain ⟨w, ends⟩ := s
  have hk := h
  obtain ⟨seg, hc, hconf, hpend, hcount⟩ := h
  simp only at hc hconf hcount
  have hdrawn : Kept config (w.drawSequence.2, ends) :=
    ⟨seg, ⟨hc.current, hc.length, hc.known, hc.behind, hc.flushed, hc.count⟩, hconf, hpend,
      hcount⟩
  have synced : Kept config (w.syncSegment seg, ends) :=
    ⟨_, hc.syncSegment, hconf, by simp, fun n _ hpos => hpos⟩
  cases op with
  | append e =>
    -- What the append makes of the log, whether it returned an offset or an error.
    have outcome {w' : Wal} {res : Except WalError (UInt64 × WalOffset)}
        (ha : w.append X e = some (w', res)) :
        (∀ err, res = .error err → Kept config (w', ends)) ∧
          ∀ q, res = .ok q →
            Kept config (w', ends ++ (w'.current.map fun seg => (seg.id, seg.size)).toList) := by
      rcases append_cases ha with
        ⟨-, rfl, rfl⟩ | ⟨-, -, -, rfl, rfl⟩ | ⟨hopen, hneeds, hnew, ha⟩ | ⟨-, -, ha⟩
      · exact ⟨fun _ _ => hk, by simp⟩
      · exact ⟨fun _ _ => hdrawn, by simp⟩
      · have hp := hrot hopen hneeds seg hc.current
        have hv : Covered w.drawSequence.2 ends seg :=
          ⟨hc.current, hc.length, hc.known, hc.behind, hc.flushed, hc.count⟩
        exact kept_locked ⟨_, hv.rotated hp hnew, hconf, fun _ => rfl, hcount⟩ ha
      · exact kept_locked hdrawn ha
    simp only [syncStep] at hs
    split at hs
    · cases hs
    · rename_i w' err ha
      cases hs
      exact (outcome ha).1 err rfl
    · rename_i w' q ha
      cases hs
      exact (outcome ha).2 q rfl
  | sync =>
    cases hs
    rw [Wal.sync, hc.current]
    exact synced
  | close =>
    cases hs
    obtain ⟨seg', hc', hrest⟩ := synced
    refine ⟨seg', ?_, ?_⟩
    · simp only [Wal.close, Wal.sync, hc.current]
      exact ⟨hc'.current, hc'.length, hc'.known, hc'.behind, hc'.flushed, hc'.count⟩
    · simp only [Wal.close, Wal.sync, hc.current]
      exact hrest

end

/-! ## Fresh logs and runs -/

theorem kept_openDir {X : Externals} {config : WalConfig} {dir : Dir} {w : Wal}
    (h : openDir X config dir = .ok w) : Kept config (w, []) := by
  obtain ⟨seg, f, hcur, hf, hlen, hp, hconf, hcount⟩ := openDir_current h
  refine ⟨seg, ⟨hcur, ⟨f, hf, hlen⟩, by simp, by simp, by simp, by simp [unsynced]⟩, hconf,
    fun _ => hp, fun n _ hpos => ?_⟩
  simp only [hcount]
  exact hpos

/-- From any log just opened, the policies keep what they name: every write
durable under `EveryWrite`; and, when no rotation leaves unsynced bytes behind,
fewer than `n` records open under `EveryN(n)` and none after `sync` or `close`. -/
theorem fsync_policies (X : Externals) {config : WalConfig} {dir : Dir} {w₀ : Wal}
    {ops : List SyncOp} {s : Wal × List RecordEnd} (hopen : openDir X config dir = .ok w₀)
    (hrun : run (syncStep X) (w₀, []) ops = some s) :
    (config.fsyncPolicy = .everyWrite → ∀ r ∈ s.2, durable s.1.dir r = true) ∧
      (Meets (syncStep X) (RotatesSynced X) (w₀, []) ops →
        (∀ n, config.fsyncPolicy = .everyN n → 1 ≤ n.toNat →
          (unsynced s.1.dir s.2).length < n.toNat) ∧
        (∀ r ∈ s.2, durable s.1.sync.dir r = true) ∧
        ∀ r ∈ s.2, durable s.1.close.dir r = true) := by
  have start : Kept config (w₀, []) := kept_openDir hopen
  constructor
  · intro hpol
    -- Under this policy nothing is ever pending, so no rotation leaves anything.
    have keeps : ∀ s op t, Kept config s → syncStep X s op = some t → Kept config t := by
      intro s op t h hs
      refine kept_step h ?_ hs
      obtain ⟨seg, hc, -, hpend, -⟩ := h
      cases op with
      | append e =>
        intro _ _ seg' hseg'
        obtain rfl : seg = seg' := by simpa [hc.current] using hseg'
        exact hpend hpol
      | sync | close => trivial
    obtain ⟨seg, hc, -, hpend, -⟩ := run_keeps keeps start hrun
    exact hc.flushed (hpend hpol)
  · intro hmeets
    obtain ⟨seg, hc, -, -, hcount⟩ :=
      run_keeps_of_meets (P := Kept config) (fun s op t => kept_step) start hmeets hrun
    have hsync := hc.durable_sync
    refine ⟨fun n hpol hpos => hc.count.trans_lt (hcount n hpol hpos), ?_, ?_⟩
    · rw [Wal.sync, hc.current]
      exact hsync
    · rw [Wal.close, Wal.sync, show ({ s.1 with closed := true } : Wal).current = some seg from
        hc.current]
      exact hsync

/-- Two records in one segment under `EveryN(2)`, and then a rotation. -/
theorem fsync_policies_of_synced_rotation :
    ∃ s, run (syncStep serde) (fresh ⟨120, .everyN 2⟩, [])
        [.append (.checkpoint 1), .append (.checkpoint 2), .append (.checkpoint 3)] = some s ∧
      s.2.length = 3 ∧ (unsynced s.1.dir s.2).length < 2 ∧
      ∀ r ∈ s.2, durable s.1.sync.dir r = true := by
  refine run_exists (p := fun s => s.2.length = 3) (by decide +kernel) ?_
  intro s hrun hlen
  obtain ⟨hn, hsync, -⟩ :=
    (fsync_policies serde (openDir_empty serde ⟨120, .everyN 2⟩) hrun).2 (by decide +kernel)
  exact ⟨hlen, hn 2 rfl (by decide), hsync⟩

/-- One record in each segment under `EveryN(2)`: the fsync that the second write
asks for does not reach the first, the third waits for its own, and an explicit
sync reaches only the last. -/
theorem rotation_leaves_unsynced :
    ∃ s, run (syncStep serde) (fresh ⟨0, .everyN 2⟩, [])
        [.append (.checkpoint 1), .append (.checkpoint 2), .append (.checkpoint 3)] = some s ∧
      unsynced s.1.dir s.2 = [(2, 59), (4, 59)] ∧ unsynced s.1.sync.dir s.2 = [(2, 59)] ∧
      unsynced s.1.close.dir s.2 = [(2, 59)] := by
  refine run_exists (p := fun s => unsynced s.1.dir s.2 = [(2, 59), (4, 59)] ∧
    unsynced s.1.sync.dir s.2 = [(2, 59)] ∧ unsynced s.1.close.dir s.2 = [(2, 59)])
    (by decide +kernel) ?_
  exact fun _ _ h => h

end Wal

end Rstmdb

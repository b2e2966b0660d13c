import Rstmdb.Server.Loss
import Rstmdb.Storage.Store

/-! What the three ways to compact may delete of an instance: nothing that its
snapshot does not cover, or nothing at all. The command and the storage layer
without force keep to it. Where a snapshot that fails is passed over, the instance
has neither a snapshot nor a say in what is deleted. -/
namespace Rstmdb
open Json (Value)

/-- The records of an instance that the log can read, by segment and place. -/
def Wal.recordsOf (X : Externals) (w : Wal) (instanceId : String) : List (SegmentId × Nat) :=
  w.segmentIds.flatMap fun id =>
    match w.readSegment X id with
    | .ok records =>
      (records.filter fun p =>
        (X.fromSlice p.2.payload).bind WalEntry.instanceId = some instanceId).map fun p => (id, p.1)
    | .error _ => []

/-- Of the instance's records that the log had before, those after its snapshot in
the index are there, or all of them are. -/
def Covered (X : Externals) (before after : Wal) (store : SnapshotStore) (instanceId : String) :
    Prop :=
  (∃ entry, store.index[instanceId]? = some entry ∧
      ∀ p ∈ before.recordsOf X instanceId, ∀ o ∈ WalOffset.new p.1 p.2,
        entry.walOffset < o.asU64 → p ∈ after.recordsOf X instanceId) ∨
    ∀ p ∈ before.recordsOf X instanceId, p ∈ after.recordsOf X instanceId

/-! ## What is left of the records -/

/-- Deletes the segments before the smallest offset, if there is one. -/
def Wal.compactTo (w : Wal) : Option Nat → Wal
  | some minOffset => (w.compactBefore ⟨minOffset⟩).1
  | none => w

section
variable {X : Externals} {w : Wal} {store : SnapshotStore} {id : String} {p : SegmentId × Nat}

theorem Wal.mem_recordsOf :
    p ∈ w.recordsOf X id ↔ p.1 ∈ w.segments.keys ∧ ∃ records, w.readSegment X p.1 = .ok records ∧
      ∃ r, (p.2, r) ∈ records ∧ (X.fromSlice r.payload).bind WalEntry.instanceId = some id := by
  obtain ⟨seg, pos⟩ := p
  simp only [recordsOf, segmentIds, List.mem_flatMap]
  constructor
  · rintro ⟨k, hk, hp⟩
    split at hp
    · rename_i records hread
      obtain ⟨⟨o, r⟩, hr, he⟩ := List.mem_map.mp hp
      obtain ⟨rfl, rfl⟩ := Prod.mk.inj he
      obtain ⟨hmem, hid⟩ := List.mem_filter.mp hr
      exact ⟨hk, records, hread, r, hmem, by simpa using hid⟩
    · cases hp
  · rintro ⟨hk, records, hread, r, hmem, hid⟩
    refine ⟨seg, hk, ?_⟩
    rw [hread]
    exact List.mem_map.mpr ⟨(pos, r), List.mem_filter.mpr ⟨hmem, by simpa using hid⟩, rfl⟩

/-- A compaction takes away the records of the segments it deletes, and no others. -/
theorem Wal.mem_recordsOf_compactBefore {before : WalOffset} :
    p ∈ (w.compactBefore before).1.recordsOf X id ↔
      p ∈ w.recordsOf X id ∧ before.segmentId ≤ p.1 := by
  obtain ⟨deleted, he⟩ := compactBefore_eq w before
  have hkeys : p.1 ∈ (w.compactBefore before).1.segments.keys ↔
      p.1 ∈ w.segments.keys ∧ before.segmentId ≤ p.1 := by
    have hsel : ∀ k, k ∈ w.segments → (k ∈ w.segments.keys.filter (· < before.segmentId) ↔
        (fun k => decide (k < before.segmentId)) k = true) := by
      intro k hk
      simp [hk]
    rw [he]
    simp only [Table.keys_foldl_erase hsel, List.mem_filter, Bool.not_eq_true',
      decide_eq_false_iff_not, Nat.not_lt]
  have hread (hle : before.segmentId ≤ p.1) :
      (w.compactBefore before).1.readSegment X p.1 = w.readSegment X p.1 := by
    have hkept : p.1 ∉ w.segments.keys.filter (· < before.segmentId) := by
      simp [Nat.not_lt.mpr hle]
    rw [he]
    simp only [readSegment, Table.getElem?_foldl_erase, if_neg hkept]
  rw [mem_recordsOf, mem_recordsOf, hkeys]
  constructor
  · rintro ⟨⟨hk, hle⟩, hr⟩
    rw [hread hle] at hr
    exact ⟨⟨hk, hr⟩, hle⟩
  · rintro ⟨⟨hk, hr⟩, hle⟩
    rw [hread hle]
    exact ⟨⟨hk, hle⟩, hr⟩

theorem Wal.mem_recordsOf_compactTo :
    p ∈ (w.compactTo store.minWalOffset).recordsOf X id ↔
      p ∈ w.recordsOf X id ∧ segmentKept store.offsets p.1 = true := by
  unfold compactTo
  cases hmin : store.minWalOffset with
  | none =>
    have hnone : store.offsets = [] := List.min?_eq_none_iff.mp hmin
    simp [segmentKept, hnone]
  | some o =>
    obtain ⟨hmem, hleast⟩ := List.min?_eq_some_iff.mp hmin
    have hkept : segmentKept store.offsets p.1 = decide ((⟨o⟩ : WalOffset).segmentId ≤ p.1) :=
      segmentKept_least hmem hleast p.1
    rw [mem_recordsOf_compactBefore, hkept, decide_eq_true_eq]

theorem segmentKept_of_after {entry : SnapshotMeta} (he : store.index[id]? = some entry)
    {o : WalOffset} (ho : WalOffset.new p.1 p.2 = some o) (hlt : entry.walOffset < o.asU64) :
    segmentKept store.offsets p.1 = true := by
  obtain ⟨hlow, rfl⟩ : p.2 ≤ WalOffset.offsetMask ∧ WalOffset.pack p.1 p.2 = o := by
    simpa [WalOffset.new] using ho
  have hmem : entry.walOffset ∈ store.offsets := SnapshotStore.mem_offsets.mpr ⟨id, entry, he, rfl⟩
  have hseg : (⟨entry.walOffset⟩ : WalOffset).segmentId ≤ p.1 := by
    calc (⟨entry.walOffset⟩ : WalOffset).segmentId
        ≤ (WalOffset.pack p.1 p.2).segmentId := segmentId_mono (Nat.le_of_lt hlt)
      _ = p.1 % 2 ^ 24 := WalOffset.pack_segmentId p.1 hlow
      _ ≤ p.1 := Nat.mod_le _ _
  simp only [segmentKept, Bool.or_eq_true, List.any_eq_true, decide_eq_true_eq]
  exact .inr ⟨entry.walOffset, hmem, hseg⟩

/-- An instance in the index is covered. One that is not needs all of its segments. -/
theorem covered_iff :
    Covered X w (w.compactTo store.minWalOffset) store id ↔
      store.index[id]? ≠ none ∨ ∀ p ∈ w.recordsOf X id, segmentKept store.offsets p.1 = true := by
  simp only [Covered, Wal.mem_recordsOf_compactTo]
  constructor
  · rintro (⟨entry, he, -⟩ | hall)
    · exact .inl (by simp [he])
    · exact .inr fun p hp => (hall p hp).2
  · rintro (hsome | hall)
    · obtain ⟨entry, he⟩ := Option.ne_none_iff_exists'.mp hsome
      exact .inl ⟨entry, he, fun p hp o ho hlt => ⟨hp, segmentKept_of_after he ho hlt⟩⟩
    · exact .inr fun p hp => ⟨hp, hall p hp⟩

theorem covered_of_kept : Covered X w w store id :=
  .inr fun _ hp => hp

end

/-! ## Snapshots that fail -/

/-- The instances of a plan whose snapshots get into the index. -/
def enteredOf (plan : List (Instance × SnapshotWrite)) : List Instance :=
  (plan.filter (·.2 ≠ .noFile)).map Prod.fst

/-- The instances of a plan that have no snapshot and get none. -/
def bareOf (store : SnapshotStore) (plan : List (Instance × SnapshotWrite)) : List Instance :=
  (plan.filter fun p => p.2 = .noFile && (store.getSnapshotMeta p.1.id).isNone).map Prod.fst

/-- No record of an instance that is left without a snapshot lies in a segment before
all the offsets of the index, with the snapshots of the plan that can be written. -/
def sparesBare (X : Externals) (w : Wal) (store : SnapshotStore)
    (plan : List (Instance × SnapshotWrite)) : Bool :=
  (bareOf store plan).all fun i => i.isDeleted ||
    (w.recordsOf X i.id).all fun p => segmentKept (floorOf store (enteredOf plan)) p.1

section
variable {X : Externals} {w : Wal} {store store' : SnapshotStore}
  {plan : List (Instance × SnapshotWrite)}

theorem enteredOf_sublist : (enteredOf plan).Sublist (plan.map Prod.fst) :=
  List.filter_sublist.map _

/-- Whoever was to get a snapshot and has none failed to. -/
theorem Entered.absent_iff (h : Entered store (enteredOf plan) store')
    (distinct : (plan.map fun p => p.1.id).Nodup) {i : Instance} {write : SnapshotWrite}
    (hp : (i, write) ∈ plan) : store'.index[i.id]? = none ↔ i ∈ bareOf store plan := by
  have only {j : Instance} {write' : SnapshotWrite} (hj : (j, write') ∈ plan) (hid : j.id = i.id) :
      j = i ∧ write' = write := by
    have := List.inj_on_of_nodup_map distinct hj hp hid
    exact Prod.mk.inj this
  have hbare : i ∈ bareOf store plan ↔ write = .noFile ∧ store.index[i.id]? = none := by
    simp only [bareOf, List.mem_map, List.mem_filter, Bool.and_eq_true, decide_eq_true_eq,
      SnapshotStore.getSnapshotMeta, Option.isNone_iff_eq_none, Prod.exists]
    constructor
    · rintro ⟨j, write', ⟨hj, hw, hnone⟩, rfl⟩
      obtain ⟨-, rfl⟩ := only hj rfl
      exact ⟨hw, hnone⟩
    · rintro ⟨hw, hnone⟩
      exact ⟨i, write, ⟨hp, hw, hnone⟩, rfl⟩
  have hget := h i.id
  rw [hbare]
  by_cases hw : write = .noFile
  · -- the snapshot failed: the index is as it was here
    have hnone : (enteredOf plan).find? (·.id = i.id) = none := by
      simp only [List.find?_eq_none, enteredOf, List.mem_map, List.mem_filter, decide_eq_true_eq]
      rintro j ⟨⟨j', write'⟩, ⟨hj, hne⟩, rfl⟩ hid
      exact hne ((only hj hid).2.trans hw)
    rw [hnone] at hget
    have hsame : store'.index[i.id]? = none ↔ store.index[i.id]? = none := by
      rw [← Option.map_eq_none_iff (f := SnapshotMeta.walOffset), hget, Option.map_eq_none_iff]
    simp [hw, hsame]
  · have hmem : i ∈ enteredOf plan :=
      List.mem_map.mpr ⟨(i, write), List.mem_filter.mpr ⟨hp, by simpa using hw⟩, rfl⟩
    cases hf : (enteredOf plan).find? (·.id = i.id) with
    | none => simpa using List.find?_eq_none.mp hf i hmem
    | some j =>
      rw [hf] at hget
      simp only [hw, false_and, iff_false]
      intro habs
      simp [habs] at hget

/-- A compaction by an index into which the snapshots of a plan have been entered.
The plan has every instance without a snapshot. -/
theorem Entered.covers_iff (h : Entered store (enteredOf plan) store')
    (distinct : (plan.map fun p => p.1.id).Nodup) {is : List Instance}
    (lives : ∀ p ∈ plan, p.1.isDeleted = false ↔ p.1 ∈ is)
    (complete : ∀ i ∈ is, store.index[i.id]? = none → ∃ write, (i, write) ∈ plan) :
    (∀ i ∈ is, Covered X w (w.compactTo store'.minWalOffset) store' i.id) ↔
      sparesBare X w store plan = true := by
  have hfloor : ∀ id, segmentKept store'.offsets id =
      segmentKept (floorOf store (enteredOf plan)) id := by
    have hnodup : ((enteredOf plan).map Instance.id).Nodup := by
      have : (plan.map fun p => p.1.id) = (plan.map Prod.fst).map Instance.id := by simp
      exact (this ▸ distinct).sublist (enteredOf_sublist.map _)
    exact segmentKept_congr fun o => (mem_floorOf h hnodup o).symm
  simp only [covered_iff, sparesBare, List.all_eq_true, Bool.or_eq_true, hfloor]
  constructor
  · intro hall i hi
    obtain ⟨⟨j, write⟩, hj, rfl⟩ := List.mem_map.mp hi
    have hp := List.mem_of_mem_filter hj
    cases hd : j.isDeleted with
    | true => exact .inl rfl
    | false =>
      obtain hsome | hkept := hall j ((lives _ hp).mp hd)
      · exact absurd ((h.absent_iff distinct hp).mpr hi) hsome
      · exact .inr hkept
  · intro hall i hi
    by_cases hnone : store'.index[i.id]? = none
    · have hbefore : store.index[i.id]? = none := by
        have hget := h i.id
        rw [hnone] at hget
        split at hget
        · cases hget
        · exact Option.map_eq_none_iff.mp hget.symm
      obtain ⟨write, hp⟩ := complete i hi hbefore
      have hlive := (lives _ hp).mpr hi
      obtain hdel | hkept := hall i ((h.absent_iff distinct hp).mp hnone)
      · rw [hlive] at hdel
        cases hdel
      · exact .inr hkept
    · exact .inl hnone

end

/-! ## The server -/

/-- The snapshots that a compaction will try to make, and what the system will say. -/
def compactionPlan (X : ServerExternals) (needs : Instance → Bool) (s : Shared) :
    List (Instance × SnapshotWrite) :=
  (plannedSnapshots needs s.engine.getAllInstances s.uuids).map fun p =>
    (p.1, snapshotOutcome X p.2)

section
variable {X : ServerExternals} {s s' : Shared} {store store' : SnapshotStore}

theorem enteredOf_compactionPlan (needs : Instance → Bool) :
    enteredOf (compactionPlan X needs s) =
      enteredSnapshots X (plannedSnapshots needs s.engine.getAllInstances s.uuids) := by
  simp [enteredOf, enteredSnapshots, compactionPlan, List.filter_map, Function.comp_def]

theorem mem_compactionPlan {needs : Instance → Bool} {i : Instance} :
    (∃ write, (i, write) ∈ compactionPlan X needs s) ↔
      i ∈ s.engine.getAllInstances ∧ needs i = true := by
  rw [← List.mem_filter, ← plannedSnapshots_fst needs _ s.uuids]
  simp [compactionPlan]

theorem compactionPlan_distinct (hnamed : s.engine.toMemory.Named) (needs : Instance → Bool) :
    ((compactionPlan X needs s).map fun p => p.1.id).Nodup := by
  have hids : ((compactionPlan X needs s).map fun p => p.1.id) =
      (s.engine.getAllInstances.filter needs).map Instance.id := by
    rw [← plannedSnapshots_fst needs _ s.uuids]
    simp [compactionPlan, Function.comp_def]
  rw [hids]
  exact (nodup_getAllInstances hnamed).sublist (List.filter_sublist.map _)

/-- What a compaction covers whose snapshots have been entered as planned. -/
theorem Entered.plan_covers_iff {needs : Instance → Bool} {w : Wal}
    (h : Entered store (enteredOf (compactionPlan X needs s)) store')
    (hnamed : s.engine.toMemory.Named)
    (hneeds : ∀ i, store.index[i.id]? = none → needs i = true) :
    (∀ i ∈ s.engine.getAllInstances,
        Covered X.toExternals w (w.compactTo store'.minWalOffset) store' i.id) ↔
      sparesBare X.toExternals w store (compactionPlan X needs s) = true := by
  apply h.covers_iff (compactionPlan_distinct hnamed needs)
  · rintro ⟨i, write⟩ hp
    obtain ⟨hi, -⟩ := mem_compactionPlan.mp ⟨write, hp⟩
    have hlive := (mem_getAllInstances hi).choose_spec.2
    simp [hi, hlive]
  · exact fun i hi hnone => mem_compactionPlan.mpr ⟨hi, hneeds i hnone⟩

theorem compactTo_wal (s : Shared) (minOffset : Option Nat) :
    (s.compactTo minOffset).1.engine.wal = s.engine.wal.compactTo minOffset := by
  cases minOffset <;> rfl

theorem compactTo_snapshotStore (s : Shared) (minOffset : Option Nat) :
    (s.compactTo minOffset).1.snapshotStore = s.snapshotStore := by
  cases minOffset <;> rfl

/-- `handle_compact` deletes nothing that is not covered: it ends when a snapshot fails. -/
theorem handleCompact_covers (hnamed : s.engine.toMemory.Named) (params : Value) :
    ∀ i ∈ s.engine.getAllInstances,
      Covered X.toExternals s.engine.wal (handleCompact X s params).1.engine.wal
        ((handleCompact X s params).1.snapshotStore.getD ⟨∅⟩) i.id := by
  intro i hi
  cases hstore : s.snapshotStore with
  | none =>
    simp only [handleCompact, hstore]
    exact covered_of_kept
  | some store =>
    obtain ⟨dir, n, store₁, res, hs⟩ := snapshotInstances_eq X (forceSnapshot params)
      s.engine.getAllInstances s store 0
    have hloop := snapshotInstances_entered hs (nodup_getAllInstances hnamed)
    cases res with
    | error e =>
      simp only [handleCompact, hstore, hs]
      exact covered_of_kept
    | ok created =>
      split at hloop
      · rename_i hdone
        rw [← enteredOf_compactionPlan] at hloop
        have hbare : bareOf store
            (compactionPlan X (needsSnapshot (forceSnapshot params) store) s) = [] := by
          simp only [bareOf, compactionPlan, List.map_eq_nil_iff, List.filter_eq_nil_iff,
            List.mem_map]
          rintro _ ⟨p, hp, rfl⟩
          have := List.all_eq_true.mp hdone p hp
          simp_all
        have hcover := (hloop.2.plan_covers_iff (w := s.engine.wal) hnamed fun i hnone => by
          simp [needsSnapshot, changedSinceSnapshot, SnapshotStore.getSnapshotMeta, hnone]).mpr
            (by simp [sparesBare, hbare]) i hi
        simp only [handleCompact, hstore, hs, compactTo_wal, compactTo_snapshotStore,
          Option.getD_some]
        exact hcover
      · obtain ⟨e, he⟩ := hloop
        cases he

/-- `run_compaction` passes over snapshots that fail. -/
theorem runCompaction_covers_iff (hnamed : s.engine.toMemory.Named) (store : SnapshotStore) :
    (∀ i ∈ s.engine.getAllInstances,
        Covered X.toExternals s.engine.wal (runCompaction X s store).1.engine.wal
          (runCompaction X s store).2.1 i.id) ↔
      sparesBare X.toExternals s.engine.wal store
        (compactionPlan X (changedSinceSnapshot store) s) = true := by
  obtain ⟨dir, n, store₁, created, hs⟩ := snapshotChanged_eq X s.engine.getAllInstances s store 0
  have hentered := snapshotChanged_entered hs (nodup_getAllInstances hnamed)
  rw [← enteredOf_compactionPlan] at hentered
  have hcover := hentered.plan_covers_iff (w := s.engine.wal) hnamed fun i hnone => by
    simp [changedSinceSnapshot, SnapshotStore.getSnapshotMeta, hnone]
  simp only [runCompaction, hs, compactTo_wal]
  exact hcover

end

/-! ## The storage layer -/

namespace Storage

/-- The snapshots that `compact` will try to make by force, and what the system will say. -/
def missingPlan (X : StoreExternals) (is : Instances) :
    List String → Nat → List (Instance × SnapshotWrite)
  | [], _ => []
  | id :: ids, n =>
    match is.table[id]? with
    | some i =>
      (i, X.snapshotWrite ("compact-" ++ id ++ "-" ++ X.uuid n)) :: missingPlan X is ids (n + 1)
    | none => missingPlan X is ids (n + 1)

/-- The instances without a snapshot, as `compact` finds them. -/
def missing (s : Storage) : List String :=
  s.snapshots.instancesWithoutSnapshots s.instances.table.keys

def live (s : Storage) : List Instance := s.instances.table.values.filter (!·.isDeleted)

section
variable {X : StoreExternals} {s s' : Storage} {ids : List String} {is : Instances} {n : Nat}

theorem missingPlan_ids (hids : ∀ id ∈ ids, ∃ i, is.table[id]? = some i) :
    (missingPlan X is ids n).map (fun p => p.1.id) = ids := by
  induction ids generalizing n with
  | nil => rfl
  | cons id ids ih =>
    obtain ⟨i, hi⟩ := hids id List.mem_cons_self
    have hrest := ih (n := n + 1) fun k hk => hids k (List.mem_cons_of_mem _ hk)
    simp only [missingPlan, hi, List.map_cons, hrest, is.named id i hi]

theorem mem_missingPlan {i : Instance} (h : ∃ write, (i, write) ∈ missingPlan X is ids n) :
    is.table[i.id]? = some i := by
  induction ids generalizing n with
  | nil => obtain ⟨_, h⟩ := h; cases h
  | cons id ids ih =>
    obtain ⟨write, h⟩ := h
    unfold missingPlan at h
    split at h
    · rename_i j hj
      obtain he | hrest := List.mem_cons.mp h
      · cases he
        rw [is.named id i hj]
        exact hj
      · exact ih ⟨write, hrest⟩
    · exact ih ⟨write, h⟩

/-- The loop enters what its plan says, and changes nothing else. -/
theorem snapshotMissing_entered {created created' : Nat} (distinct : ids.Nodup)
    (hids : ∀ id ∈ ids, ∃ i, s.instances.table[id]? = some i)
    (h : snapshotMissing X ids s created = (s', created')) :
    Entered s.snapshots (enteredOf (missingPlan X s.instances ids s.uuids)) s'.snapshots ∧
      s'.wal = s.wal := by
  induction ids generalizing s created with
  | nil =>
    cases h
    exact ⟨fun id => rfl, rfl⟩
  | cons id ids ih =>
    obtain ⟨hnew, hrest⟩ := List.nodup_cons.mp distinct
    obtain ⟨i, hi⟩ := hids id List.mem_cons_self
    have hname := s.instances.named id i hi
    obtain ⟨snapshots, snapshotDir, res, hcreate⟩ : ∃ snapshots snapshotDir res,
        s.snapshots.createSnapshot X.toStorageExternals s.snapshotDir
          (.fromInstance i ("compact-" ++ id ++ "-" ++ X.uuid s.uuids)) =
            (snapshots, snapshotDir, res) := ⟨_, _, _, rfl⟩
    obtain ⟨created₁, hloop⟩ : ∃ created₁, snapshotMissing X ids
        { s with snapshots, snapshotDir, uuids := s.uuids + 1 } created₁ = (s', created') := by
      simp only [snapshotMissing, createSnapshot, hi, hcreate] at h
      cases res <;> exact ⟨_, h⟩
    obtain ⟨hentered, hwal⟩ := ih (s := { s with snapshots, snapshotDir, uuids := s.uuids + 1 })
      hrest (fun k hk => hids k (List.mem_cons_of_mem _ hk)) hloop
    refine ⟨?_, hwal⟩
    have hplan : missingPlan X s.instances (id :: ids) s.uuids =
        (i, X.snapshotWrite ("compact-" ++ id ++ "-" ++ X.uuid s.uuids)) ::
          missingPlan X s.instances ids (s.uuids + 1) := by
      simp only [missingPlan, hi]
    rw [hplan]
    obtain ⟨hfile, rfl⟩ | ⟨hfile, entry, he, hindex⟩ := SnapshotStore.createSnapshot_index hcreate
    · have hnone : enteredOf ((i, X.snapshotWrite ("compact-" ++ id ++ "-" ++ X.uuid s.uuids)) ::
          missingPlan X s.instances ids (s.uuids + 1)) =
            enteredOf (missingPlan X s.instances ids (s.uuids + 1)) := by
        have : X.snapshotWrite ("compact-" ++ id ++ "-" ++ X.uuid s.uuids) = .noFile := hfile
        simp [enteredOf, this]
      rw [hnone]
      exact hentered
    · have hcons : enteredOf ((i, X.snapshotWrite ("compact-" ++ id ++ "-" ++ X.uuid s.uuids)) ::
          missingPlan X s.instances ids (s.uuids + 1)) =
            i :: enteredOf (missingPlan X s.instances ids (s.uuids + 1)) := by
        have : X.snapshotWrite ("compact-" ++ id ++ "-" ++ X.uuid s.uuids) ≠ .noFile := hfile
        simp [enteredOf, this]
      rw [hcons]
      refine Entered.cons he hindex ?_ hentered
      intro j hj hid
      apply hnew
      have hmem : j.id ∈ (missingPlan X s.instances ids (s.uuids + 1)).map fun p => p.1.id := by
        obtain ⟨p, hp, rfl⟩ := List.mem_map.mp hj
        exact List.mem_map.mpr ⟨p, List.mem_of_mem_filter hp, rfl⟩
      rw [missingPlan_ids fun k hk => hids k (List.mem_cons_of_mem _ hk), hid, hname] at hmem
      exact hmem

theorem compactLog_eq (s : Storage) (created : Nat) :
    (s.compactLog created).1.wal = s.wal.compactTo s.snapshots.minWalOffset ∧
      (s.compactLog created).1.snapshots = s.snapshots := by
  unfold compactLog Wal.compactTo
  cases s.snapshots.minWalOffset <;> exact ⟨rfl, rfl⟩

theorem mem_live {i : Instance} :
    i ∈ s.live ↔ s.instances.table[i.id]? = some i ∧ i.isDeleted = false := by
  simp only [live, List.mem_filter, Table.mem_values, Bool.not_eq_true']
  constructor
  · rintro ⟨⟨id, hi⟩, hd⟩
    rw [s.instances.named id i hi]
    exact ⟨hi, hd⟩
  · rintro ⟨hi, hd⟩
    exact ⟨⟨i.id, hi⟩, hd⟩

theorem mem_missing {id : String} :
    id ∈ s.missing ↔ s.instances.table[id]? ≠ none ∧ s.snapshots.index[id]? = none := by
  simp [missing, SnapshotStore.instancesWithoutSnapshots, ← Bool.not_eq_true]

theorem nodup_missing (s : Storage) : s.missing.Nodup :=
  Std.ExtTreeMap.nodup_keys.filter _

/-- `Storage::compact` by force passes over snapshots that fail. Without force it
deletes nothing while an instance has none. -/
theorem compact_covers_iff (s : Storage) (forceSnapshot : Bool) :
    (∀ i ∈ s.live, Covered X.toExternals s.wal (s.compact X forceSnapshot).1.wal
        (s.compact X forceSnapshot).1.snapshots i.id) ↔
      (forceSnapshot = true → sparesBare X.toExternals s.wal s.snapshots
        (missingPlan X s.instances s.missing s.uuids) = true) := by
  have hpresent : ∀ id ∈ s.missing, ∃ i, s.instances.table[id]? = some i := fun id hid =>
    Option.ne_none_iff_exists'.mp (mem_missing.mp hid).1
  by_cases hmissing : s.missing = []
  · have hspares : sparesBare X.toExternals s.wal s.snapshots
        (missingPlan X s.instances s.missing s.uuids) = true := by
      simp [hmissing, missingPlan, sparesBare, bareOf]
    refine iff_of_true (fun i hi => ?_) fun _ => hspares
    have hnone : s.snapshots.instancesWithoutSnapshots s.instances.table.keys = [] := hmissing
    by_cases hkeys : s.instances.table.keys.isEmpty = true
    · simp only [compact, hkeys, if_true]
      exact covered_of_kept
    · have hcompact : s.compact X forceSnapshot = s.compactLog 0 := by
        simp only [compact, hkeys, hnone, List.isEmpty_nil, if_true, if_false, Bool.false_eq_true]
      rw [hcompact]
      obtain ⟨hwal, hstore⟩ := compactLog_eq s 0
      rw [hwal, hstore, covered_iff]
      refine .inl fun hnone => ?_
      have : i.id ∈ s.missing := mem_missing.mpr ⟨by simp [(mem_live.mp hi).1], hnone⟩
      rw [hmissing] at this
      cases this
  · have hkeys : s.instances.table.keys.isEmpty = false := by
      cases hk : s.instances.table.keys with
      | nil =>
        exact absurd (by simp [missing, hk, SnapshotStore.instancesWithoutSnapshots]) hmissing
      | cons => rfl
    have hmissing' : (s.snapshots.instancesWithoutSnapshots s.instances.table.keys).isEmpty =
        false := by
      simpa [missing] using hmissing
    cases forceSnapshot with
    | false =>
      refine iff_of_true (fun i _ => ?_) fun hf => Bool.noConfusion hf
      simp only [compact, hkeys, hmissing', Bool.false_eq_true, if_false]
      exact covered_of_kept
    | true =>
      obtain ⟨s₁, created, hloop⟩ : ∃ s₁ created, snapshotMissing X s.missing s 0 = (s₁, created) :=
        ⟨_, _, rfl⟩
      obtain ⟨hentered, hwal⟩ := snapshotMissing_entered (nodup_missing s) hpresent hloop
      have hcover := @Entered.covers_iff X.toExternals s.wal _ _ _ hentered
        (by rw [missingPlan_ids hpresent]; exact nodup_missing s) s.live ?_ ?_
      · obtain ⟨hwal₁, hstore₁⟩ := compactLog_eq s₁ created
        have hcompact : s.compact X true = s₁.compactLog created := by
          simp only [compact, hkeys, hmissing', Bool.false_eq_true, if_false, if_true]
          rw [show s.snapshots.instancesWithoutSnapshots s.instances.table.keys =
            s.missing from rfl, hloop]
        rw [hcompact, hwal₁, hstore₁, hwal, hcover]
        simp
      · rintro ⟨i, write⟩ hp
        simp [mem_live, mem_missingPlan ⟨write, hp⟩]
      · intro i hi hnone
        have hmem : i.id ∈ s.missing := mem_missing.mpr ⟨by simp [(mem_live.mp hi).1], hnone⟩
        rw [← missingPlan_ids (X := X) (n := s.uuids) hpresent] at hmem
        obtain ⟨⟨j, write⟩, hp, hid⟩ := List.mem_map.mp hmem
        have hj := mem_missingPlan ⟨write, hp⟩
        have hid' : j.id = i.id := hid
        rw [hid', (mem_live.mp hi).1] at hj
        cases hj
        exact ⟨write, hp⟩

end

end Storage

/-! ## The three ways to compact -/

/-- Compaction deletes no record that is not covered: `handle_compact` and
`Storage::compact` without force never do, and `run_compaction` and `Storage::compact`
by force do not exactly if no record of a live instance that is left without any
snapshot lies before all the offsets they will go by. -/
theorem compaction_covers_iff (X : ServerExternals) (Y : StoreExternals) :
    (∀ s : Shared, s.engine.toMemory.Named →
      (∀ params, ∀ i ∈ s.engine.getAllInstances,
        Covered X.toExternals s.engine.wal (handleCompact X s params).1.engine.wal
          ((handleCompact X s params).1.snapshotStore.getD ⟨∅⟩) i.id) ∧
      ∀ store, (∀ i ∈ s.engine.getAllInstances,
          Covered X.toExternals s.engine.wal (runCompaction X s store).1.engine.wal
            (runCompaction X s store).2.1 i.id) ↔
        sparesBare X.toExternals s.engine.wal store
          (compactionPlan X (changedSinceSnapshot store) s) = true) ∧
    ∀ (s : Storage) (forceSnapshot : Bool),
      (∀ i ∈ s.live, Covered Y.toExternals s.wal (s.compact Y forceSnapshot).1.wal
          (s.compact Y forceSnapshot).1.snapshots i.id) ↔
        (forceSnapshot = true → sparesBare Y.toExternals s.wal s.snapshots
          (Storage.missingPlan Y s.instances s.missing s.uuids) = true) := by
  refine ⟨fun s hnamed => ⟨handleCompact_covers hnamed, runCompaction_covers_iff hnamed⟩, ?_⟩
  exact Storage.compact_covers_iff

set_option maxRecDepth 4000 in
/-- Two instances, a segment for each record: the automatic compaction deletes two
segments, and what it deletes is covered. -/
theorem compaction_covers_snapshotted :
    ∃ shared, run (serve serdeServer (Server.fresh (openConfig 0)).handler)
        (Server.fresh (openConfig 0)).shared
        (anonymous [putLoop, createLoop "i" [], createLoop "j" []]) = some shared ∧
      (runCompaction serdeServer shared ⟨∅⟩).2.2.segmentsDeleted = 2 ∧
      ∀ i ∈ shared.engine.getAllInstances,
        Covered serdeServer.toExternals shared.engine.wal
          (runCompaction serdeServer shared ⟨∅⟩).1.engine.wal
          (runCompaction serdeServer shared ⟨∅⟩).2.1 i.id := by
  refine run_exists (p := fun shared =>
    (runCompaction serdeServer shared ⟨∅⟩).2.2.segmentsDeleted = 2 ∧
      bareOf ⟨∅⟩ (compactionPlan serdeServer (changedSinceSnapshot ⟨∅⟩) shared) = [])
    (by decide +kernel) ?_
  rintro shared hrun ⟨hdeleted, hbare⟩
  obtain ⟨pre, ch, -, hist⟩ := @data_history _ _ _ _ ⟨∅⟩ _ (by decide +kernel) hrun
    ⟨[], _, Server.shared_sound_fresh serdeServer (openConfig 0), .nil⟩
  exact ⟨hdeleted, (((compaction_covers_iff serdeServer serdeStore).1 shared hist.named).2 ⟨∅⟩).mpr
    (by simp [sparesBare, hbare])⟩

theorem not_covered {X : Externals} {before after : Wal} {store : SnapshotStore} {id : String}
    (hindex : store.index.contains id = false) (hbefore : before.recordsOf X id ≠ [])
    (hafter : after.recordsOf X id = []) : ¬ Covered X before after store id := by
  rintro (⟨entry, he, -⟩ | hall)
  · rw [Std.ExtTreeMap.contains_eq_isSome_getElem?, he] at hindex
    cases hindex
  · obtain ⟨p, hp⟩ := List.exists_mem_of_ne_nil _ hbefore
    have := hall p hp
    rw [hafter] at this
    cases this

/-- The server's outside functions, with a disk that is full for the first snapshot. -/
noncomputable def fullOnce (core : CoreExternals) : ServerExternals :=
  { serdeServer with
    toStorageExternals := { serdeStorage with
      toCoreExternals := core
      snapshotWrite := fun id =>
        if id = "snap-00000000-0000-4000-8000-100000000000" then .noFile else .done } }

/-- A user of the storage layer that logs the creation of an instance and stores it. -/
def Storage.create (X : StoreExternals) (s : Storage) (id : String) : Option Storage :=
  match s.wal.append X.toExternals (.createInstance id "m" 1 "a" .null none) with
  | some (wal, .ok (_, offset)) =>
    some ({ s with wal }.putInstance (.new id "m" 1 "a" .null offset.asU64))
  | _ => none

/-- The storage layer on empty directories, with a segment for each record. -/
def Storage.fresh : Storage := ⟨Wal.fresh ⟨0, .everyWrite⟩, ⟨∅⟩, .empty, .empty, 0⟩

def createdLoops : List WalEntry :=
  [.putMachine "m" 1 "6c3fccfb" Engine.loopMachine, .createInstance "i" "m" 1 "a" .null none,
    .createInstance "j" "m" 1 "a" .null none, .createInstance "a/b" "m" 1 "a" .null none]

noncomputable def serdeStoreOf (core : CoreExternals) : StoreExternals :=
  { serdeStore with
    toStorageExternals := { serdeStore.toStorageExternals with toCoreExternals := core } }

set_option maxRecDepth 4000 in
/-- The snapshot of `i` fails, and the compaction goes by the snapshot of `j`: the
creation of `i` is deleted. In the storage layer a slash in an id is enough. -/
theorem failed_snapshot_not_covered :
    (∃ shared, run (serve (fullOnce serdeCore) (Server.fresh (openConfig 0)).handler)
        (Server.fresh (openConfig 0)).shared
        (anonymous [putLoop, createLoop "i" [], createLoop "j" []]) = some shared ∧
      shared.engine.getAllInstances.map Instance.id = ["i", "j"] ∧
      ¬ Covered serdeCore.toExternals shared.engine.wal
          (runCompaction (fullOnce serdeCore) shared ⟨∅⟩).1.engine.wal
          (runCompaction (fullOnce serdeCore) shared ⟨∅⟩).2.1 "i") ∧
    ∃ s, run (Storage.create (serdeStoreOf serdeCore)) .fresh ["a/b", "j"] = some s ∧
      s.live.map Instance.id = ["a/b", "j"] ∧
      ¬ Covered serdeCore.toExternals s.wal (s.compact (serdeStoreOf serdeCore) true).1.wal
          (s.compact (serdeStoreOf serdeCore) true).1.snapshots "a/b" := by
  rw [← serdeCoreReading_eq createdLoops]
  let core := serdeCoreReading createdLoops
  constructor
  · refine run_exists (p := fun shared =>
      shared.engine.getAllInstances.map Instance.id = ["i", "j"] ∧
      (runCompaction (fullOnce core) shared ⟨∅⟩).2.1.index.contains "i" = false ∧
      shared.engine.wal.recordsOf core.toExternals "i" ≠ [] ∧
      (runCompaction (fullOnce core) shared ⟨∅⟩).1.engine.wal.recordsOf core.toExternals "i" = [])
      (by decide +kernel) ?_
    rintro shared - ⟨hlive, hindex, hbefore, hafter⟩
    exact ⟨hlive, not_covered hindex hbefore hafter⟩
  · refine run_exists (p := fun s => s.live.map Instance.id = ["a/b", "j"] ∧
      (s.compact (serdeStoreOf core) true).1.snapshots.index.contains "a/b" = false ∧
      s.wal.recordsOf core.toExternals "a/b" ≠ [] ∧
      (s.compact (serdeStoreOf core) true).1.wal.recordsOf core.toExternals "a/b" = [])
      (by decide +kernel) ?_
    rintro s - ⟨hlive, hindex, hbefore, hafter⟩
    exact ⟨hlive, not_covered hindex hbefore hafter⟩

end Rstmdb

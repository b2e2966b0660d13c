import Rstmdb.Storage.Restore

/-! Where recovery says that an instance was last changed. Entries of the log are
applied with zero for their offset, so the place of an instance is right only if
nothing after its snapshot changes it. -/
namespace Rstmdb

/-- An entry that changes an instance. -/
def WalEntry.changes : WalEntry → Option String
  | .createInstance id .. => some id
  | .applyEvent id .. => some id
  | .deleteInstance id _ => some id
  | _ => none

/-- An event or a deletion. -/
def WalEntry.moves (e : WalEntry) : Bool := e.sets.isSome || e.isDelete

/-- The offset of the latest entry of an instance in a log. -/
def latestOffset (id : String) (es : List ReadEntry) : Option Nat :=
  ((es.filter (·.2.2.changes = some id)).map (·.2.1.asU64)).getLast?

/-- Where an instance was last changed: at its latest entry in the log, or where its
snapshot was taken when there is no later one. -/
def lastChange : Option Nat → Option Nat → Nat
  | some latest, some snapshot => if snapshot < latest then latest else snapshot
  | some latest, none => latest
  | none, some snapshot => snapshot
  | none, none => 0

/-! ## What recovery gives -/

/-- An instance keeps its place until an event or a deletion. -/
theorem Instance.foldl_offset {i j : Instance} {es : List WalEntry}
    (h : es.foldl changed (some i) = some j) :
    j.lastWalOffset = if es.any WalEntry.moves then 0 else i.lastWalOffset := by
  induction es generalizing i with
  | nil =>
    cases h
    rfl
  | cons e es ih =>
    rw [List.foldl_cons] at h
    cases e with
    | applyEvent | deleteInstance =>
      rw [ih h]
      simp [WalEntry.moves, WalEntry.sets, WalEntry.isDelete, applyTransition, softDelete]
    | putMachine | createInstance | snapshot | checkpoint =>
      rw [ih h]
      simp [WalEntry.moves, WalEntry.sets, WalEntry.isDelete]

theorem Instance.foldl_offset_none {j : Instance} {es : List WalEntry}
    (h : es.foldl changed none = some j) : j.lastWalOffset = 0 := by
  induction es with
  | nil => cases h
  | cons e es ih =>
    rw [List.foldl_cons] at h
    cases e with
    | createInstance =>
      rw [foldl_offset h]
      exact ite_self 0
    | putMachine | applyEvent | deleteInstance | snapshot | checkpoint => exact ih h

theorem Instances.get_foldl_put_last (id : String) (l : List Instance) (is : Instances) :
    (l.foldl put is).table[id]? = ((l.filter (·.id = id)).getLast?).or is.table[id]? := by
  induction l generalizing is with
  | nil => rfl
  | cons j l ih =>
    rw [List.foldl_cons, ih]
    by_cases hid : j.id = id
    · subst hid
      rw [is.put_self, List.filter_cons_of_pos (by simp), List.getLast?_cons]
      cases (l.filter (·.id = j.id)).getLast? <;> rfl
    · rw [is.put_of_ne (Ne.symm hid), List.filter_cons_of_neg (by simpa using hid)]

/-- The snapshot that recovery loads for an instance: the last listed of those that can
be read. -/
def SnapshotStore.snapshotOf (X : StoreExternals) (store : SnapshotStore) (dir : SnapshotDir)
    (id : String) : Option InstanceSnapshot :=
  ((store.listSnapshots.filterMap fun entry =>
    (store.loadSnapshot X dir entry.snapshotId).toOption).filter (·.instanceId = id)).getLast?

namespace Storage

variable {X : StoreExternals} {s : Storage}

theorem loadSnapshots_last (blank : s.instances = .empty) (id : String) :
    (s.loadSnapshots X).table[id]? =
      (s.snapshots.snapshotOf X s.snapshotDir id).map InstanceSnapshot.toInstance := by
  rw [loadSnapshots_eq, Instances.get_foldl_put_last, blank]
  have hmap : (s.snapshots.listSnapshots.filterMap fun entry =>
        (s.snapshots.loadSnapshot X s.snapshotDir entry.snapshotId).toOption.map
          InstanceSnapshot.toInstance) =
      (s.snapshots.listSnapshots.filterMap fun entry =>
        (s.snapshots.loadSnapshot X s.snapshotDir entry.snapshotId).toOption).map
          InstanceSnapshot.toInstance := by
    rw [List.map_filterMap]
  have hnone : Instances.empty.table[id]? = none := by simp [Instances.empty]
  rw [hmap, List.filter_map, List.getLast?_map, hnone, Option.or_none]
  rfl

/-- Of held snapshots, recovery loads the one that is the instance's. -/
theorem snapshotOf_holding {snapshots : List InstanceSnapshot} (blank : s.instances = .empty)
    (h : s.snapshots.Holding X s.snapshotDir snapshots) {snapshot : InstanceSnapshot}
    (hs : snapshot ∈ snapshots) :
    (s.snapshots.snapshotOf X s.snapshotDir snapshot.instanceId).map InstanceSnapshot.walOffset =
      some snapshot.walOffset := by
  have hloaded := loadSnapshots_get h hs
  rw [loadSnapshots_last blank] at hloaded
  obtain ⟨loaded, hl, hsame⟩ := Option.map_eq_some_iff.mp hloaded
  rw [hl]
  exact congrArg (some ∘ Instance.lastWalOffset) hsame

/-- What is recovered under an id is at the place of its snapshot if there is one and no
event or deletion of it has been read. Otherwise it is at zero. -/
theorem recovered_offset (blank : s.instances = .empty) {es : List WalEntry} {id : String}
    {i : Instance} (h : ((s.loadSnapshots X).applyWalEntries es).table[id]? = some i) :
    i.lastWalOffset =
      match s.snapshots.snapshotOf X s.snapshotDir id with
      | some snapshot => if (ownEntries id es).any WalEntry.moves then 0 else snapshot.walOffset
      | none => 0 := by
  rw [Instances.applyWalEntries_get, loadSnapshots_last blank] at h
  cases hs : s.snapshots.snapshotOf X s.snapshotDir id with
  | none =>
    rw [hs] at h
    exact Instance.foldl_offset_none h
  | some snapshot =>
    rw [hs] at h
    exact Instance.foldl_offset h

end Storage

/-! ## When the place is right -/

/-- The place of an instance can be told: it has a snapshot, no event or deletion of it
is read and its latest entry is not later than the snapshot; or all are at zero. -/
def Placed (latest snapshot : Option Nat) (moved : Bool) : Prop :=
  (∃ o ∈ snapshot, moved = false ∧ ∀ l ∈ latest, l ≤ o) ∨
    (∀ l ∈ latest, l = 0) ∧ ∀ o ∈ snapshot, o = 0

theorem lastChange_iff {latest : Option Nat} {o : Nat} {moved : Bool} :
    (if moved then 0 else o) = lastChange latest (some o) ↔ Placed latest (some o) moved := by
  cases latest with
  | none => cases moved <;> simp [lastChange, Placed, eq_comm]
  | some l =>
    by_cases hlt : o < l
    · cases moved <;> simp [lastChange, Placed, hlt] <;> omega
    · cases moved <;> simp [lastChange, Placed, hlt] <;> omega

theorem lastChange_none_iff {latest : Option Nat} {moved : Bool} :
    0 = lastChange latest none ↔ Placed latest none moved := by
  cases latest <;> simp [lastChange, Placed, eq_comm]

namespace Storage

section
variable {X : StoreExternals} {config : WalConfig} {dir : Dir} {w : Wal}
  {pre : List (Chunk X.toExternals)} {c : Chunk X.toExternals} {snapshotDir : SnapshotDir}
  {store : SnapshotStore}

theorem openDir_eq (hwal : Wal.openDir X.toExternals config dir = .ok w) (hr : w.Repr pre c)
    (hstore : SnapshotStore.openDir X.toStorageExternals snapshotDir = .ok store) (uuids : Nat) :
    ∃ wal, openDir X config dir snapshotDir uuids = some (.ok ⟨wal, store, snapshotDir,
      (loadSnapshots X ⟨w, store, snapshotDir, .empty, uuids⟩).applyWalEntries
        (returned (pre ++ [c])), uuids⟩) := by
  obtain ⟨wal, hrecover⟩ := recover_eq (X := X) (s := ⟨w, store, snapshotDir, .empty, uuids⟩) hr
  exact ⟨wal, by simp only [openDir, hwal, hstore, hrecover]⟩

/-- On every log and every set of snapshots the storage layer opens. The offset that an
instance is recovered with is that of its latest entry, or of its snapshot when no
entry is later, exactly if its place can be told. -/
theorem recovered_position_iff (hwal : Wal.openDir X.toExternals config dir = .ok w)
    (hr : w.Repr pre c)
    (hstore : SnapshotStore.openDir X.toStorageExternals snapshotDir = .ok store) (uuids : Nat) :
    ∃ s, openDir X config dir snapshotDir uuids = some (.ok s) ∧ ∀ id i,
      s.getInstance id = some i →
        let latest := latestOffset id (entries (pre ++ [c]))
        let snapshot := (store.snapshotOf X snapshotDir id).map InstanceSnapshot.walOffset
        (i.lastWalOffset = lastChange latest snapshot ↔
          Placed latest snapshot ((ownEntries id (returned (pre ++ [c]))).any WalEntry.moves)) := by
  obtain ⟨wal, hopen⟩ := openDir_eq hwal hr hstore uuids
  refine ⟨_, hopen, ?_⟩
  intro id i hi latest snapshot
  rw [recovered_offset rfl hi]
  dsimp only [snapshot]
  cases store.snapshotOf X snapshotDir id with
  | none => exact lastChange_none_iff
  | some taken => exact lastChange_iff

end

theorem chunkOf_id (id : SegmentId) (e : WalEntry)
    (fit : (serdeStore.toVec e).length ≤ maxRecordSize) : (chunkOf id e fit).id = id :=
  rfl

theorem entries_one (id : SegmentId) :
    entries [createdChunk id] = [(1, WalOffset.pack id 0, created)] := by
  simp [entries, createdChunk, chunkOf_entries]

/-- A creation and a snapshot right after it. -/
theorem recovered_position_of_snapshot :
    ∃ (dir : Dir) (snapshotDir : SnapshotDir) (s : Storage) (i : Instance),
      openDir serdeStore ⟨1000, .everyWrite⟩ dir snapshotDir 0 = some (.ok s) ∧
        s.getInstance "i" = some i ∧ i.lastWalOffset = 2 ^ 40 := by
  obtain ⟨dir, hdir⟩ := @Holds.exists_dir _ ([] ++ [createdChunk 1]) (List.pairwise_singleton _ _)
  obtain ⟨w, hwal, hw, -⟩ := Wal.openDir_of_holds hdir ⟨1000, .everyWrite⟩
  obtain ⟨o, ho⟩ : ∃ o, (WalOffset.pack 1 0).asU64 = o := ⟨_, rfl⟩
  have hplain : o = 2 ^ 40 := ho.symm.trans (by decide)
  let snapshot := snapshotAt "a" o
  obtain ⟨store, snapshotDir, hheld, hstore⟩ :=
    exists_held snapshot rfl (show o < 2 ^ 64 by omega)
  obtain ⟨wal, hopen⟩ := openDir_eq hwal hw hstore 0
  obtain ⟨s, hs, hiff⟩ := recovered_position_iff hwal hw hstore 0
  rw [hopen] at hs
  cases hs
  have hread : returned ([] ++ [createdChunk 1]) = [created] := by
    rw [returned_of_ids hdir.ascending (by simp [createdChunk, chunkOf_id]), List.nil_append,
      entries_one]
    rfl
  let s : Storage := ⟨w, store, snapshotDir, .empty, 0⟩
  have hloaded : (s.loadSnapshots serdeStore).table["i"]? = some snapshot.toInstance :=
    @loadSnapshots_get serdeStore s [snapshot] hheld snapshot (List.mem_singleton_self _)
  have hget : ((s.loadSnapshots serdeStore).applyWalEntries
      (returned ([] ++ [createdChunk 1]))).table["i"]? = some snapshot.toInstance := by
    rw [Instances.applyWalEntries_get, hread, hloaded]
    rfl
  have hsnapshot : (store.snapshotOf serdeStore snapshotDir "i").map InstanceSnapshot.walOffset =
      some o :=
    @snapshotOf_holding serdeStore s [snapshot] rfl hheld snapshot (List.mem_singleton_self _)
  have hlatest : latestOffset "i" (entries ([] ++ [createdChunk 1])) = some o := by
    rw [List.nil_append, entries_one, ← ho]
    rfl
  have hplace := hiff "i" _ hget
  rw [hsnapshot, hlatest, hread] at hplace
  refine ⟨dir, _, _, _, hopen, hget, (hplace.mpr (.inl ⟨o, rfl, rfl, ?_⟩)).trans ?_⟩
  · rintro _ ⟨⟩
    exact Nat.le_refl _
  · rw [lastChange, if_neg (Nat.lt_irrefl o), hplain]

/-- A creation and an event, and no snapshot: the instance is recovered with zero for the
offset of its last change, and so is its next snapshot. -/
theorem recovered_position_lost :
    ∃ (dir : Dir) (w : Wal) (pre : List (Chunk serdeStore.toExternals))
      (c : Chunk serdeStore.toExternals) (s : Storage) (i : Instance),
      Wal.openDir serdeStore.toExternals ⟨1000, .everyWrite⟩ dir = .ok w ∧ w.Repr pre c ∧
        openDir serdeStore ⟨1000, .everyWrite⟩ dir .empty 0 = some (.ok s) ∧
        s.getInstance "i" = some i ∧ i.lastWalOffset = 0 ∧
        latestOffset "i" (entries (pre ++ [c])) = some (2 ^ 41) ∧
        ∃ entry, (s.createSnapshot serdeStore "i" "s").2 = .ok entry ∧ entry.walOffset = 0 := by
  obtain ⟨dir, hdir⟩ := @Holds.exists_dir _ ([createdChunk 1] ++ [movedChunk 2])
    (List.pairwise_pair.mpr (show 1 < 2 by decide))
  obtain ⟨w, hwal, hw, -⟩ := Wal.openDir_of_holds hdir ⟨1000, .everyWrite⟩
  have hstore : SnapshotStore.openDir serdeStore.toStorageExternals .empty = .ok ⟨∅⟩ := rfl
  obtain ⟨wal, hopen⟩ := openDir_eq hwal hw hstore 0
  have hes : entries ([createdChunk 1] ++ [movedChunk 2]) = _ := entries_two 1 2
  have hread : returned ([createdChunk 1] ++ [movedChunk 2]) = [created, moved] := by
    rw [returned_of_ids hdir.ascending (by simp [createdChunk, movedChunk, chunkOf_id]), hes]
    rfl
  have hget : ((loadSnapshots serdeStore ⟨w, ⟨∅⟩, .empty, .empty, 0⟩).applyWalEntries
      (returned ([createdChunk 1] ++ [movedChunk 2]))).table["i"]? =
        some ((Instance.new "i" "m" 1 "a" .null 0).applyTransition "b" .null none 0) := by
    rw [hread]
    exact replayed_two
  refine ⟨dir, w, _, _, _, _, hwal, hw, hopen, hget, rfl, ?_, ?_⟩
  · rw [hes]
    rfl
  · simp only [createSnapshot, hget]
    exact ⟨_, rfl, rfl⟩

end Storage

end Rstmdb

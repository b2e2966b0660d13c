import Rstmdb.Json.Cut
import Rstmdb.Storage.Restore

/-! Crashes while a snapshot is made or deleted. The snapshot's file is written or
removed first, and then `index.json` is emptied and written anew, both in place. -/
namespace Rstmdb

/-! ## How far a call has come -/

inductive SnapshotChange
  | create (snapshot : InstanceSnapshot)
  | delete (snapshotId : String)

/-- Where the process may end. -/
inductive CrashPoint
  | before
  /-- So many bytes of the snapshot's file are written. -/
  | inFile (n : Nat)
  /-- The snapshot's file is written or removed. -/
  | afterFile
  /-- So many bytes of the index are written. -/
  | inIndex (n : Nat)
  | done

/-- `delete_snapshot`, as far as the system lets it come. -/
def SnapshotStore.deleteSnapshot (X : StorageExternals) (store : SnapshotStore) (dir : SnapshotDir)
    (snapshotId : String) (system : SnapshotWrite) :
    SnapshotStore × SnapshotDir × Except StorageError Unit :=
  if dir.files.contains snapshotId ∧ system = .noFile then (store, dir, .error .io)
  else
    let dir := { dir with files := dir.files.erase snapshotId }
    let store := { store with
      index := store.index.filter fun _ entry => entry.snapshotId ≠ snapshotId }
    if system = .noIndex then (store, dir, .error .io)
    else (store, { dir with index := some (X.indexToVec store.index) }, .ok ())

namespace SnapshotChange

def snapshotId : SnapshotChange → String
  | .create snapshot => snapshot.snapshotId
  | .delete snapshotId => snapshotId

/-- The index after the call. -/
def index (X : StorageExternals) (index : Table String SnapshotMeta) :
    SnapshotChange → Table String SnapshotMeta
  | .create snapshot => index.insert snapshot.instanceId (SnapshotStore.entryOf X snapshot)
  | .delete snapshotId => index.filter fun _ entry => entry.snapshotId ≠ snapshotId

/-- The snapshot files after the call. -/
def files (X : StorageExternals) (files : Table String Bytes) : SnapshotChange → Table String Bytes
  | .create snapshot => files.insert snapshot.snapshotId (X.snapshotToVec snapshot)
  | .delete snapshotId => files.erase snapshotId

section
variable (X : StorageExternals) (change : SnapshotChange) (store : SnapshotStore)

/-- The call passes the point. -/
def Passes : CrashPoint → Prop
  | .inFile n =>
    match change with
    | .create snapshot => n < (X.snapshotToVec snapshot).length
    | .delete _ => False
  | .inIndex n => n < (X.indexToVec (change.index X store.index)).length
  | _ => True

/-- The directory at a point of the call. -/
def crashed (dir : SnapshotDir) : CrashPoint → SnapshotDir
  | .before => dir
  | .inFile n =>
    match change with
    | .create snapshot =>
      { dir with
        files := dir.files.insert snapshot.snapshotId ((X.snapshotToVec snapshot).take n) }
    | .delete _ => dir
  | .afterFile => { dir with files := change.files X dir.files }
  | .inIndex n =>
    ⟨some ((X.indexToVec (change.index X store.index)).take n), change.files X dir.files⟩
  | .done => ⟨some (X.indexToVec (change.index X store.index)), change.files X dir.files⟩

end

section
variable {X : StorageExternals} {store store' : SnapshotStore} {dir dir' : SnapshotDir}

/-- What `create_snapshot` leaves is one of the points, the last if it succeeds. -/
theorem createSnapshot_crashed {snapshot : InstanceSnapshot}
    {res : Except StorageError SnapshotMeta}
    (h : store.createSnapshot X dir snapshot = (store', dir', res)) :
    ∃ p, dir' = crashed X (.create snapshot) store dir p ∧ ∀ entry, res = .ok entry →
      p = .done ∧ store'.index = index X store.index (.create snapshot) := by
  simp only [SnapshotStore.createSnapshot] at h
  split at h
  · cases h
    exact ⟨.before, rfl, by simp⟩
  split at h
  · cases h
    exact ⟨.afterFile, rfl, by simp⟩
  · cases h
    exact ⟨.done, rfl, fun entry _ => ⟨rfl, rfl⟩⟩

theorem deleteSnapshot_crashed {snapshotId : String} {system : SnapshotWrite}
    {res : Except StorageError Unit}
    (h : store.deleteSnapshot X dir snapshotId system = (store', dir', res)) :
    ∃ p, dir' = crashed X (.delete snapshotId) store dir p ∧ (res = .ok () →
      p = .done ∧ store'.index = index X store.index (.delete snapshotId)) := by
  simp only [SnapshotStore.deleteSnapshot] at h
  split at h
  · cases h
    exact ⟨.before, rfl, by simp⟩
  split at h
  · cases h
    exact ⟨.afterFile, rfl, by simp⟩
  · cases h
    exact ⟨.done, rfl, fun _ => ⟨rfl, rfl⟩⟩

end

end SnapshotChange

/-! ## What a start finds -/

/-- `serde_json` does not read an object that has been cut off. -/
structure CutExternals extends StoreExternals where
  indexFromReader_cut : ∀ index n, n < (indexToVec index).length →
    indexFromReader ((indexToVec index).take n) = none
  snapshotFromSlice_cut : ∀ snapshot n, n < (snapshotToVec snapshot).length →
    snapshotFromSlice ((snapshotToVec snapshot).take n) = none

/-- The file of an entry is there as it was written. -/
def SnapshotMeta.Matches (X : StoreExternals) (files : Table String Bytes) (entry : SnapshotMeta) :
    Prop :=
  ∃ data, files[entry.snapshotId]? = some data ∧ hex8 (X.crc32c data) = entry.checksum ∧
    (X.snapshotFromSlice data).isSome

namespace SnapshotStore

/-- The snapshot of an entry loads, and its file has the checksum of the entry. -/
def Loads (X : StoreExternals) (store : SnapshotStore) (dir : SnapshotDir) (entry : SnapshotMeta) :
    Prop :=
  (∃ snapshot, store.loadSnapshot X dir entry.snapshotId = .ok snapshot) ∧
    ∃ data, dir.files[entry.snapshotId]? = some data ∧ hex8 (X.crc32c data) = entry.checksum

/-- A store opens on the directory, with the index from before a call or the one from
after it, and every snapshot that it lists loads. -/
def Recovers (X : StoreExternals) (dir : SnapshotDir) (before after : Table String SnapshotMeta) :
    Prop :=
  ∃ store, openDir X.toStorageExternals dir = .ok store ∧
    (store.index = before ∨ store.index = after) ∧
    ∀ entry ∈ store.listSnapshots, store.Loads X dir entry

section
variable {X : StoreExternals} {store : SnapshotStore} {dir : SnapshotDir}

/-- The check of a snapshot looks at the first entry of its id only, so all load exactly
if each matches. -/
theorem loads_iff : (∀ entry ∈ store.listSnapshots, store.Loads X dir entry) ↔
    ∀ entry ∈ store.listSnapshots, entry.Matches X dir.files := by
  constructor
  · intro h entry hentry
    obtain ⟨⟨snapshot, hload⟩, data, hdata, hsum⟩ := h entry hentry
    refine ⟨data, hdata, hsum, ?_⟩
    simp only [loadSnapshot, hdata] at hload
    split at hload
    · cases hload
    split at hload
    · rename_i hread
      rw [hread]
      rfl
    · cases hload
  · intro h entry hentry
    obtain ⟨data, hdata, hsum, hread⟩ := h entry hentry
    obtain ⟨snapshot, hsnapshot⟩ := Option.isSome_iff_exists.mp hread
    refine ⟨⟨snapshot, loadSnapshot_ok hdata ?_ hsnapshot⟩, data, hdata, hsum⟩
    intro other hother hsame
    obtain ⟨data', hdata', hsum', -⟩ := h other hother
    rw [hsame, hdata] at hdata'
    cases hdata'
    exact hsum'

theorem recovers_iff {before after : Table String SnapshotMeta}
    (hopen : openDir X.toStorageExternals dir = .ok store)
    (hindex : store.index = before ∨ store.index = after) :
    Recovers X dir before after ↔ ∀ entry ∈ store.listSnapshots, entry.Matches X dir.files := by
  rw [← loads_iff]
  constructor
  · rintro ⟨store', hopen', -, hloads⟩
    rw [hopen] at hopen'
    cases hopen'
    exact hloads
  · intro hloads
    exact ⟨store, hopen, hindex, hloads⟩

end

end SnapshotStore

/-! ## When a crash does no harm -/

namespace SnapshotChange

section
variable (X : StoreExternals) (change : SnapshotChange)

/-- The entry's snapshot is intact once the file of the call is written or removed. -/
def Spares (files : Table String Bytes) (entry : SnapshotMeta) : Prop :=
  match change with
  | .create snapshot =>
    if entry.snapshotId = snapshot.snapshotId then
      entry.checksum = hex8 (X.crc32c (X.snapshotToVec snapshot))
    else entry.Matches X files
  | .delete snapshotId => entry.snapshotId ≠ snapshotId ∧ entry.Matches X files

/-- The call takes the entry out of the index. -/
def Drops (instanceId : String) (entry : SnapshotMeta) : Prop :=
  match change with
  | .create snapshot => instanceId = snapshot.instanceId
  | .delete snapshotId => entry.snapshotId = snapshotId

/-- What the point asks of the snapshots listed on disk, or in memory at the last one.
Nothing is enough while the index is being written. -/
def Survives (disk store : SnapshotStore) (files : Table String Bytes) : CrashPoint → Prop
  | .before => ∀ entry ∈ disk.listSnapshots, entry.Matches X files
  | .inFile _ => ∀ entry ∈ disk.listSnapshots,
    entry.snapshotId ≠ change.snapshotId ∧ entry.Matches X files
  | .afterFile => ∀ entry ∈ disk.listSnapshots, change.Spares X files entry
  | .inIndex _ => False
  | .done => ∀ instanceId entry, store.index[instanceId]? = some entry →
    change.Drops instanceId entry ∨ change.Spares X files entry

end

section
variable {X : CutExternals} {change : SnapshotChange} {files : Table String Bytes}
  {entry : SnapshotMeta}

theorem matches_files (hword : ∀ s, change = .create s → s.walOffset < 2 ^ 64) :
    entry.Matches X.toStoreExternals (change.files X.toStorageExternals files) ↔
      change.Spares X.toStoreExternals files entry := by
  cases change with
  | create snapshot =>
    simp only [Spares, SnapshotMeta.Matches, SnapshotChange.files]
    by_cases hid : entry.snapshotId = snapshot.snapshotId
    · rw [if_pos hid, hid, Std.ExtTreeMap.getElem?_insert_self]
      constructor
      · rintro ⟨_, ⟨⟩, hsum, -⟩
        exact hsum.symm
      · intro hsum
        refine ⟨_, rfl, hsum.symm, ?_⟩
        rw [X.snapshotFromSlice_toVec snapshot (hword snapshot rfl)]
        rfl
    · rw [if_neg hid, Table.getElem?_insert_ne hid]
  | delete snapshotId =>
    simp only [Spares, SnapshotMeta.Matches, SnapshotChange.files]
    by_cases hid : entry.snapshotId = snapshotId
    · simp [hid]
    · simp [hid, Std.ExtTreeMap.getElem?_erase, Ne.symm hid]

/-- A file that has been cut off matches no entry. -/
theorem matches_cut {snapshot : InstanceSnapshot} {n : Nat}
    (hn : n < (X.snapshotToVec snapshot).length) :
    entry.Matches X.toStoreExternals
        (files.insert snapshot.snapshotId ((X.snapshotToVec snapshot).take n)) ↔
      entry.snapshotId ≠ snapshot.snapshotId ∧ entry.Matches X.toStoreExternals files := by
  simp only [SnapshotMeta.Matches]
  by_cases hid : entry.snapshotId = snapshot.snapshotId
  · rw [hid, Std.ExtTreeMap.getElem?_insert_self]
    simp [X.snapshotFromSlice_cut snapshot n hn]
  · rw [Table.getElem?_insert_ne hid]
    simp [hid]

theorem index_get {index : Table String SnapshotMeta} {instanceId : String} :
    (change.index X.toStorageExternals index)[instanceId]? = some entry ↔
      (index[instanceId]? = some entry ∧ ¬change.Drops instanceId entry) ∨
        ∃ snapshot, change = .create snapshot ∧ instanceId = snapshot.instanceId ∧
          entry = SnapshotStore.entryOf X.toStorageExternals snapshot := by
  cases change with
  | create snapshot =>
    simp only [SnapshotChange.index, Drops, SnapshotChange.create.injEq, exists_eq_left']
    by_cases hid : instanceId = snapshot.instanceId
    · simp [hid, eq_comm]
    · simp [hid, Table.getElem?_insert_ne hid]
  | delete snapshotId =>
    simp [SnapshotChange.index, Drops, Option.filter_eq_some_iff]

/-- On every directory that a store opens on, and for every index that it has in memory:
a store opens on what a crash leaves, with the index from before the call or the one
from after it, and all that it lists loads, exactly if the crash does not come while the
index is being written and every listed snapshot is spared. -/
theorem crash_atomic_iff (X : CutExternals) {disk : SnapshotStore} {dir : SnapshotDir}
    (hopen : SnapshotStore.openDir X.toStorageExternals dir = .ok disk) (store : SnapshotStore)
    (change : SnapshotChange) (hword : ∀ s, change = .create s → s.walOffset < 2 ^ 64)
    {p : CrashPoint} (hp : change.Passes X.toStorageExternals store p) :
    SnapshotStore.Recovers X.toStoreExternals (change.crashed X.toStorageExternals store dir p)
        disk.index (change.index X.toStorageExternals store.index) ↔
      change.Survives X.toStoreExternals disk store dir.files p := by
  -- until it is written again, the index is the one on disk
  have hdisk (files : Table String Bytes) :
      SnapshotStore.openDir X.toStorageExternals { dir with files } = .ok disk := hopen
  cases p with
  | before => exact SnapshotStore.recovers_iff hopen (.inl rfl)
  | inFile n =>
    cases change with
    | create snapshot =>
      refine (SnapshotStore.recovers_iff (hdisk _) (.inl rfl)).trans ?_
      exact forall₂_congr fun entry _ => matches_cut hp
    | delete snapshotId => exact hp.elim
  | afterFile =>
    refine (SnapshotStore.recovers_iff (hdisk _) (.inl rfl)).trans ?_
    exact forall₂_congr fun entry _ => matches_files hword
  | inIndex n =>
    refine iff_of_false ?_ id
    rintro ⟨store', hopen', -⟩
    simp only [SnapshotStore.openDir, crashed, X.indexFromReader_cut _ _ hp, reduceCtorEq] at hopen'
  | done =>
    have hopen' : SnapshotStore.openDir X.toStorageExternals
        (change.crashed X.toStorageExternals store dir .done) =
          .ok ⟨change.index X.toStorageExternals store.index⟩ := by
      simp only [SnapshotStore.openDir, crashed, X.indexFromReader_toVec]
    refine (SnapshotStore.recovers_iff hopen' (.inr rfl)).trans ?_
    simp only [SnapshotStore.listSnapshots, Table.mem_values]
    constructor
    · intro h instanceId entry hentry
      by_cases hdrop : change.Drops instanceId entry
      · exact .inl hdrop
      · exact .inr ((matches_files hword).mp
          (h entry ⟨instanceId, index_get.mpr (.inl ⟨hentry, hdrop⟩)⟩))
    · rintro h entry ⟨instanceId, hentry⟩
      apply (matches_files hword).mpr
      obtain ⟨hold, hkept⟩ | ⟨snapshot, rfl, -, rfl⟩ := index_get.mp hentry
      · exact (h instanceId entry hold).resolve_left hkept
      · simp [Spares, SnapshotStore.entryOf]

end

end SnapshotChange

/-! ## `serde_json` on what has been cut off -/

theorem partialInv_eq_none {α β : Type} {f : α → β} {b : β} (h : ∀ a, b ≠ f a) :
    Function.partialInv f b = none := by
  unfold Function.partialInv
  rw [dif_neg]
  rintro ⟨a, rfl⟩
  exact h a rfl

noncomputable def serdeCut : CutExternals where
  toStoreExternals := serdeStore
  indexFromReader_cut _ _ hn := partialInv_eq_none fun _ => Json.toVecPretty_take_ne hn _
  snapshotFromSlice_cut _ _ hn :=
    congrArg (Option.map _) (partialInv_eq_none fun _ => Json.toVecPretty_take_ne hn _)

namespace SnapshotChange

/-- Another snapshot of an instance, with the process ended before the index is written. -/
theorem crash_atomic_of_new_id :
    ∃ (store : SnapshotStore) (dir : SnapshotDir),
      store.getSnapshotMeta "i" ≠ none ∧
      let snapshot : InstanceSnapshot := ⟨"t", "i", "m", 1, "b", .null, 1⟩
      SnapshotStore.Recovers serdeStore
        (crashed serdeStore.toStorageExternals (.create snapshot) store dir .afterFile)
        store.index (index serdeStore.toStorageExternals store.index (.create snapshot)) := by
  obtain ⟨store, dir, hheld, hopen⟩ :=
    Storage.exists_held (Storage.snapshotAt "a" 0) rfl (by decide)
  have hlisted := (hheld.index "i" _).mpr ⟨_, List.mem_singleton_self _, rfl, rfl⟩
  refine ⟨store, dir, Option.ne_none_iff_exists'.mpr ⟨_, hlisted⟩, ?_⟩
  refine (crash_atomic_iff serdeCut hopen store _ ?_ (p := .afterFile) trivial).mpr ?_
  · rintro _ ⟨⟩
    decide
  · intro entry hentry
    obtain ⟨id, hid⟩ := Table.mem_values.mp hentry
    obtain ⟨held, hmem, -, rfl⟩ := (hheld.index id entry).mp hid
    have hother : held.snapshotId ≠ "t" := by
      rw [List.mem_singleton.mp hmem]
      decide
    have hread := serdeStore.snapshotFromSlice_toVec held (hheld.word held hmem)
    exact (if_neg hother).mpr ⟨_, hheld.files held hmem, rfl, congrArg Option.isSome hread⟩

/-- The first snapshot in an empty directory, with the process ended when the index has
been created and nothing of it written: the store does not open any more. -/
theorem crash_in_index_not_opened :
    let snapshot := Storage.snapshotAt "a" 0
    let dir := crashed serdeStore.toStorageExternals (.create snapshot) ⟨∅⟩ .empty (.inIndex 0)
    Passes serdeStore.toStorageExternals (.create snapshot) ⟨∅⟩ (.inIndex 0) ∧
      SnapshotStore.openDir serdeStore.toStorageExternals .empty = .ok ⟨∅⟩ ∧
      SnapshotStore.openDir serdeStore.toStorageExternals dir = .error .json := by
  intro snapshot dir
  have hpasses : Passes serdeStore.toStorageExternals (.create snapshot) ⟨∅⟩ (.inIndex 0) :=
    Json.toVecPretty_object_pos _
  have hcut : serdeStore.indexFromReader ((serdeStore.indexToVec
      (index serdeStore.toStorageExternals ∅ (.create snapshot))).take 0) = none :=
    serdeCut.indexFromReader_cut _ _ hpasses
  refine ⟨hpasses, rfl, ?_⟩
  simp only [SnapshotStore.openDir, dir, crashed, hcut]

end SnapshotChange

end Rstmdb

import Rstmdb.Core.Engine
import Rstmdb.Json.Pretty

/-! The snapshot store: one file for each snapshot, and an index of the latest
snapshot of each instance. The index is kept in memory and written out whole
whenever it changes. -/
namespace Rstmdb
open Json (Value)

/-- A snapshot of an instance, the time of its making left out. -/
structure InstanceSnapshot where
  snapshotId : String
  instanceId : String
  machine : String
  version : UInt32
  state : String
  ctx : Value
  walOffset : Nat
  deriving Repr

def InstanceSnapshot.fromInstance (i : Instance) (snapshotId : String) : InstanceSnapshot :=
  ⟨snapshotId, i.id, i.machine, i.version, i.state, i.ctx, i.lastWalOffset⟩

structure SnapshotMeta where
  snapshotId : String
  instanceId : String
  walOffset : Nat
  sizeBytes : Nat
  checksum : String
  deriving DecidableEq, Repr

/-- How far the operating system lets the making of a snapshot come. -/
inductive SnapshotWrite
  | done
  | noFile
  | noIndex
  deriving DecidableEq, Repr

/-- What the store uses from outside the repository: `serde_json` on snapshots and
on the index, which reads back as it was written, and the system's answer to the
two writes of each snapshot. -/
structure StorageExternals extends CoreExternals where
  snapshotToVec : InstanceSnapshot → Bytes
  indexToVec : Table String SnapshotMeta → Bytes
  indexFromReader : Bytes → Option (Table String SnapshotMeta)
  indexFromReader_toVec : ∀ index, indexFromReader (indexToVec index) = some index
  snapshotWrite : String → SnapshotWrite

/-- The snapshot directory: `index.json`, and the `.snap` files by snapshot id. -/
structure SnapshotDir where
  index : Option Bytes
  files : Table String Bytes

def SnapshotDir.empty : SnapshotDir := ⟨none, ∅⟩

inductive StorageError
  | io
  | json
  | snapshotNotFound (snapshotId : String)
  | instanceNotFound (instanceId : String)
  | corruption (reason : String)
  | wal (e : WalError)
  deriving DecidableEq, Repr

/-- The index in memory: the latest snapshot by instance id. -/
structure SnapshotStore where
  index : Table String SnapshotMeta

namespace SnapshotStore

/-- `open` with its `load_index`. -/
def openDir (X : StorageExternals) (dir : SnapshotDir) : Except StorageError SnapshotStore :=
  match dir.index with
  | none => .ok ⟨∅⟩
  | some data =>
    match X.indexFromReader data with
    | some index => .ok ⟨index⟩
    | none => .error .json

/-- What the index gets to know of a snapshot. -/
def entryOf (X : StorageExternals) (snapshot : InstanceSnapshot) : SnapshotMeta :=
  let data := X.snapshotToVec snapshot
  ⟨snapshot.snapshotId, snapshot.instanceId, snapshot.walOffset, data.length,
    hex8 (X.crc32c data)⟩

/-- Writes the file, enters it in the index and saves the index. An index that
cannot be saved keeps the entry in memory. -/
def createSnapshot (X : StorageExternals) (store : SnapshotStore) (dir : SnapshotDir)
    (snapshot : InstanceSnapshot) :
    SnapshotStore × SnapshotDir × Except StorageError SnapshotMeta :=
  let data := X.snapshotToVec snapshot
  let checksum := hex8 (X.crc32c data)
  if X.snapshotWrite snapshot.snapshotId = .noFile then (store, dir, .error .io)
  else
    let dir := { dir with files := dir.files.insert snapshot.snapshotId data }
    let entry : SnapshotMeta :=
      ⟨snapshot.snapshotId, snapshot.instanceId, snapshot.walOffset, data.length, checksum⟩
    let store := { store with index := store.index.insert snapshot.instanceId entry }
    if X.snapshotWrite snapshot.snapshotId = .noIndex then (store, dir, .error .io)
    else (store, { dir with index := some (X.indexToVec store.index) }, .ok entry)

def getSnapshotMeta (store : SnapshotStore) (instanceId : String) : Option SnapshotMeta :=
  store.index[instanceId]?

/-- The smallest offset in the index. -/
def minWalOffset (store : SnapshotStore) : Option Nat :=
  (store.index.values.map SnapshotMeta.walOffset).min?

def snapshotCount (store : SnapshotStore) : Nat := store.index.size

/-- The offsets in the index. -/
def offsets (store : SnapshotStore) : List Nat := store.index.values.map SnapshotMeta.walOffset

theorem mem_offsets {store : SnapshotStore} {o : Nat} :
    o ∈ store.offsets ↔
      ∃ (id : String) (entry : SnapshotMeta), store.index[id]? = some entry ∧
        entry.walOffset = o := by
  simp only [offsets, List.mem_map, Table.mem_values]
  constructor
  · rintro ⟨entry, ⟨id, hid⟩, rfl⟩
    exact ⟨id, entry, hid, rfl⟩
  · rintro ⟨id, entry, hid, rfl⟩
    exact ⟨entry, ⟨id, hid⟩, rfl⟩

/-! ## What the making of a snapshot does -/

section
variable {X : StorageExternals} {store store' : SnapshotStore} {dir dir' : SnapshotDir}
  {snapshot : InstanceSnapshot} {res : Except StorageError SnapshotMeta}

/-- The index has the snapshot's offset for its instance, unless its file could
not be written; every other entry is as it was. -/
theorem createSnapshot_index (h : store.createSnapshot X dir snapshot = (store', dir', res)) :
    (X.snapshotWrite snapshot.snapshotId = .noFile ∧ store' = store) ∨
      (X.snapshotWrite snapshot.snapshotId ≠ .noFile ∧
        ∃ entry, entry.walOffset = snapshot.walOffset ∧
          store'.index = store.index.insert snapshot.instanceId entry) := by
  simp only [createSnapshot] at h
  split at h
  · rename_i hfile
    cases h
    exact .inl ⟨hfile, rfl⟩
  · rename_i hfile
    refine .inr ⟨hfile, ?_⟩
    split at h <;> cases h <;> exact ⟨_, rfl, rfl⟩

theorem createSnapshot_ok_iff (h : store.createSnapshot X dir snapshot = (store', dir', res)) :
    (∃ entry, res = .ok entry) ↔ X.snapshotWrite snapshot.snapshotId = .done := by
  simp only [createSnapshot] at h
  cases hw : X.snapshotWrite snapshot.snapshotId <;> simp [hw] at h <;>
    obtain ⟨-, -, rfl⟩ := h <;> simp

end

end SnapshotStore

/-- A directory that a store opens on. -/
def SnapshotDir.Readable (X : StorageExternals) (dir : SnapshotDir) : Prop :=
  ∀ data ∈ dir.index, ∃ index, X.indexFromReader data = some index

namespace SnapshotDir

variable {X : StorageExternals} {dir dir' : SnapshotDir}

theorem Readable.openDir (h : Readable X dir) :
    ∃ store, SnapshotStore.openDir X dir = .ok store := by
  unfold SnapshotStore.openDir
  cases hd : dir.index with
  | none => exact ⟨_, rfl⟩
  | some data =>
    obtain ⟨index, hi⟩ := h data hd
    exact ⟨⟨index⟩, by simp [hi]⟩

end SnapshotDir

/-! ## `serde_json` on snapshots -/

/-- A number that `u64` has. Beyond, any text that is no such number. -/
def natValue (n : Nat) : Value :=
  if n < 2 ^ 64 then .nat n else .string (toString n)

theorem natValue_injective : Function.Injective natValue := by
  intro n m h
  unfold natValue at h
  split at h <;> split at h
  · rename_i hn hm
    have := congrArg UInt64.toNat (Json.Number.posInt.inj (Value.number.inj h))
    rwa [UInt64.toNat_ofNat_of_lt' hn, UInt64.toNat_ofNat_of_lt' hm] at this
  · cases h
  · cases h
  · exact Nat.repr_injective (Value.string.inj h)

/-- A snapshot, with zero for the time of its making. -/
def InstanceSnapshot.toValue (s : InstanceSnapshot) : Value :=
  .object [("snapshot_id", .string s.snapshotId), ("instance_id", .string s.instanceId),
    ("machine", .string s.machine), ("version", .nat s.version.toNat), ("state", .string s.state),
    ("ctx", s.ctx), ("wal_offset", .nat s.walOffset), ("created_at", .nat 0)]

def SnapshotMeta.toValue (m : SnapshotMeta) : Value :=
  .object [("snapshot_id", .string m.snapshotId), ("instance_id", .string m.instanceId),
    ("wal_offset", natValue m.walOffset), ("created_at", .nat 0),
    ("size_bytes", natValue m.sizeBytes), ("checksum", .string m.checksum)]

theorem SnapshotMeta.toValue_injective : Function.Injective SnapshotMeta.toValue := by
  rintro ⟨a, b, n, l, c⟩ ⟨a', b', n', l', c'⟩ h
  simp only [toValue, Value.object.injEq, List.cons.injEq, Prod.mk.injEq, Value.string.injEq,
    true_and, and_true] at h
  obtain ⟨rfl, rfl, hn, hl, rfl⟩ := h
  rw [natValue_injective hn, natValue_injective hl]

def indexValue (index : Table String SnapshotMeta) : Value :=
  .object (index.toList.map fun p => (p.1, p.2.toValue))

theorem indexValue_injective : Function.Injective indexValue := by
  intro a b h
  have hmap : Function.Injective fun p : String × SnapshotMeta => (p.1, p.2.toValue) := by
    rintro ⟨k, m⟩ ⟨k', m'⟩ hp
    obtain ⟨hk, hm⟩ := Prod.mk.inj hp
    exact Prod.ext hk (SnapshotMeta.toValue_injective hm)
  have hlist : a.toList = b.toList := List.map_injective_iff.mpr hmap (Value.object.inj h)
  exact Std.ExtTreeMap.toList_inj.mp hlist

/-- `serde_json` for snapshots and the index, with every write done. -/
noncomputable def serdeStorage : StorageExternals where
  toCoreExternals := serdeCore
  snapshotToVec s := Json.toVecPretty s.toValue
  indexToVec index := Json.toVecPretty (indexValue index)
  indexFromReader := Function.partialInv fun index => Json.toVecPretty (indexValue index)
  indexFromReader_toVec :=
    Function.partialInv_left (Json.toVecPretty_injective.comp indexValue_injective)
  snapshotWrite _ := .done

end Rstmdb

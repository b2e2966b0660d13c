import Rstmdb.Storage.Snapshot

/-! The storage layer: instances in memory over a log and a snapshot store. Opening
it loads the snapshots and replays what is left of the log on top of them. Stored
machine definitions and the index of idempotency keys are left out. -/
namespace Rstmdb
open Json (Value)

/-- The storage layer names its own snapshots and reads them back, as far as
`serde_json` does: an offset fits the word, and the floats are those of `Json.Number`. -/
structure StoreExternals extends StorageExternals where
  uuid : Nat → String
  snapshotFromSlice : Bytes → Option InstanceSnapshot
  snapshotFromSlice_toVec : ∀ s : InstanceSnapshot, s.walOffset < 2 ^ 64 →
    snapshotFromSlice (snapshotToVec s) = some s

/-- A snapshot does not know of a deletion. -/
def InstanceSnapshot.toInstance (s : InstanceSnapshot) : Instance :=
  ⟨s.instanceId, s.machine, s.version, s.state, s.ctx, .active, none, s.walOffset⟩

/-- Instances by their ids. -/
structure Instances where
  table : Table String Instance
  named : ∀ (id : String) (i : Instance), table[id]? = some i → i.id = id

namespace Instances

def empty : Instances := ⟨∅, by simp⟩

def put (is : Instances) (i : Instance) : Instances where
  table := is.table.insert i.id i
  named := Table.forall_insert is.named rfl

/-- What is found under an id, and what is put there. -/
@[simp] theorem put_self (is : Instances) (i : Instance) : (is.put i).table[i.id]? = some i := by
  simp [put]

theorem put_of_ne (is : Instances) {i : Instance} {id : String} (h : id ≠ i.id) :
    (is.put i).table[id]? = is.table[id]? :=
  Table.getElem?_insert_ne h

/-- `get_mut`: a change of the instance, if it is there. -/
def update (is : Instances) (id : String) (f : Instance → Instance) : Instances :=
  match is.table[id]? with
  | some i => is.put (f i)
  | none => is

/-- `apply_wal_entry`. Offsets of entries are not kept. -/
def applyWalEntry (is : Instances) : WalEntry → Instances
  | .putMachine .. => is
  | .createInstance instanceId machine version initialState initialCtx _ =>
    if is.table.contains instanceId then is
    else is.put (.new instanceId machine version initialState initialCtx 0)
  | .applyEvent instanceId _ _ toState _ ctx eventId _ =>
    is.update instanceId (·.applyTransition toState ctx eventId 0)
  | .deleteInstance instanceId _ => is.update instanceId (·.softDelete 0)
  | .snapshot .. => is
  | .checkpoint _ => is

def applyWalEntries (is : Instances) (entries : List WalEntry) : Instances :=
  entries.foldl applyWalEntry is

end Instances

namespace SnapshotStore

/-- The file is checked against the first entry of the index that has its id. -/
def loadSnapshot (X : StoreExternals) (store : SnapshotStore) (dir : SnapshotDir)
    (snapshotId : String) : Except StorageError InstanceSnapshot :=
  match dir.files[snapshotId]? with
  | none => .error (.snapshotNotFound snapshotId)
  | some data =>
    if (store.index.values.find? (·.snapshotId = snapshotId)).any
        (hex8 (X.crc32c data) ≠ ·.checksum) then
      .error (.corruption ("snapshot " ++ snapshotId ++ " checksum mismatch"))
    else
      match X.snapshotFromSlice data with
      | some snapshot => .ok snapshot
      | none => .error .json

def listSnapshots (store : SnapshotStore) : List SnapshotMeta := store.index.values

def instancesWithoutSnapshots (store : SnapshotStore) (ids : List String) : List String :=
  ids.filter fun id => !store.index.contains id

end SnapshotStore

/-- The storage layer with its directories, after so many identifiers have been drawn. -/
structure Storage where
  wal : Wal
  snapshots : SnapshotStore
  snapshotDir : SnapshotDir
  instances : Instances
  uuids : Nat

namespace Storage

/-- Loads every snapshot of the index that can be read. -/
def loadSnapshots (X : StoreExternals) (s : Storage) : Instances :=
  s.snapshots.listSnapshots.foldl
    (fun is entry =>
      match s.snapshots.loadSnapshot X s.snapshotDir entry.snapshotId with
      | .ok snapshot => is.put snapshot.toInstance
      | .error _ => is)
    s.instances

def recover (X : StoreExternals) (s : Storage) : Option (Except StorageError Storage) :=
  let instances := s.loadSnapshots X
  let earliest := s.wal.earliestOffset.getD ⟨0⟩
  match s.wal.readFrom X.toExternals earliest none with
  | none => none
  | some (_, .error e) => some (.error (.wal e))
  | some (wal, .ok entries) =>
    some (.ok { s with wal, instances := instances.applyWalEntries (entries.map (·.2.2)) })

/-- `open`, after so many identifiers have been drawn. -/
def openDir (X : StoreExternals) (config : WalConfig) (dir : Dir) (snapshotDir : SnapshotDir)
    (uuids : Nat) : Option (Except StorageError Storage) :=
  match Wal.openDir X.toExternals config dir with
  | .error e => some (.error (.wal e))
  | .ok wal =>
    match SnapshotStore.openDir X.toStorageExternals snapshotDir with
    | .error e => some (.error e)
    | .ok snapshots => recover X ⟨wal, snapshots, snapshotDir, .empty, uuids⟩

def putInstance (s : Storage) (i : Instance) : Storage :=
  { s with instances := s.instances.put i }

def getInstance (s : Storage) (instanceId : String) : Option Instance :=
  s.instances.table[instanceId]?

def createSnapshot (X : StoreExternals) (s : Storage) (instanceId snapshotId : String) :
    Storage × Except StorageError SnapshotMeta :=
  match s.instances.table[instanceId]? with
  | none => (s, .error (.instanceNotFound instanceId))
  | some i =>
    let (snapshots, snapshotDir, res) := s.snapshots.createSnapshot X.toStorageExternals
      s.snapshotDir (.fromInstance i snapshotId)
    ({ s with snapshots, snapshotDir }, res)

structure CompactionResult where
  snapshotsCreated : Nat
  segmentsDeleted : Nat
  bytesReclaimed : Nat
  deriving DecidableEq, Repr

/-- The snapshots that `compact` makes by force. It goes on when one fails. -/
def snapshotMissing (X : StoreExternals) : List String → Storage → Nat → Storage × Nat
  | [], s, created => (s, created)
  | id :: ids, s, created =>
    let snapshotId := "compact-" ++ id ++ "-" ++ X.uuid s.uuids
    match createSnapshot X { s with uuids := s.uuids + 1 } id snapshotId with
    | (s, .ok _) => snapshotMissing X ids s (created + 1)
    | (s, .error _) => snapshotMissing X ids s created

/-- Deletes the segments before the smallest offset in the index. -/
def compactLog (s : Storage) (created : Nat) : Storage × CompactionResult :=
  match s.snapshots.minWalOffset with
  | none => (s, ⟨created, 0, 0⟩)
  | some minOffset =>
    let sizeBefore := s.wal.totalSize
    let (wal, deleted) := s.wal.compactBefore ⟨minOffset⟩
    ({ s with wal }, ⟨created, deleted, sizeBefore - wal.totalSize⟩)

def compact (X : StoreExternals) (s : Storage) (forceSnapshot : Bool) :
    Storage × CompactionResult :=
  let ids := s.instances.table.keys
  if ids.isEmpty then (s, ⟨0, 0, 0⟩)
  else
    let missing := s.snapshots.instancesWithoutSnapshots ids
    if missing.isEmpty then s.compactLog 0
    else if forceSnapshot then
      let (s, created) := snapshotMissing X missing s 0
      s.compactLog created
    else (s, ⟨0, 0, 0⟩)

end Storage

/-! ## `serde_json` and the system -/

theorem InstanceSnapshot.toValue_injective :
    Function.Injective fun s : { s : InstanceSnapshot // s.walOffset < 2 ^ 64 } => s.1.toValue := by
  rintro ⟨⟨a, b, m, v, st, ctx, o⟩, ho⟩ ⟨⟨a', b', m', v', st', ctx', o'⟩, ho'⟩ h
  simp only [toValue, Value.object.injEq, List.cons.injEq, Prod.mk.injEq, Value.string.injEq,
    true_and, and_true] at h
  obtain ⟨rfl, rfl, rfl, hv, rfl, rfl, hn⟩ := h
  have word {n m : Nat} (hn : n < 2 ^ 64) (hm : m < 2 ^ 64) (h : Value.nat n = Value.nat m) :
      n = m := by
    have := congrArg UInt64.toNat (Json.Number.posInt.inj (Value.number.inj h))
    rwa [UInt64.toNat_ofNat_of_lt' hn, UInt64.toNat_ofNat_of_lt' hm] at this
  have small (v : UInt32) : v.toNat < 2 ^ 64 := v.toNat_lt.trans (by decide)
  obtain rfl : v = v' := UInt32.toNat.inj (word (small v) (small v') hv)
  obtain rfl : o = o' := word ho ho' hn
  rfl

/-- The storage layer's outside functions. The system refuses file names with a
slash in them, for there is no such directory. -/
noncomputable def serdeStore : StoreExternals where
  toStorageExternals := { serdeStorage with
    snapshotWrite := fun id => if '/' ∈ id.toList then .noFile else .done }
  uuid n := "00000000-0000-4000-8000-" ++ String.ofList (Nat.toDigits 10 (100000000000 + n))
  snapshotFromSlice data :=
    (Function.partialInv (fun s : { s : InstanceSnapshot // s.walOffset < 2 ^ 64 } =>
      Json.toVecPretty s.1.toValue) data).map (·.1)
  snapshotFromSlice_toVec s hs := by
    have h := Function.partialInv_left
      (Json.toVecPretty_injective.comp InstanceSnapshot.toValue_injective) ⟨s, hs⟩
    exact congrArg (Option.map (·.1)) h

end Rstmdb

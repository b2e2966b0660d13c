import Rstmdb.Json.Value

/-! What the log records, and what it takes from other crates to do so. -/
namespace Rstmdb
open Json (Value)

/-- The type byte of a record. -/
inductive WalEntryType
  | putMachine
  | createInstance
  | applyEvent
  | deleteInstance
  | snapshot
  | checkpoint
  | noop
  deriving DecidableEq, Repr

def WalEntryType.toU8 : WalEntryType → UInt8
  | .putMachine => 1
  | .createInstance => 2
  | .applyEvent => 3
  | .deleteInstance => 4
  | .snapshot => 5
  | .checkpoint => 6
  | .noop => 255

def WalEntryType.tryFrom (b : UInt8) : Option WalEntryType :=
  if b = 1 then some .putMachine
  else if b = 2 then some .createInstance
  else if b = 3 then some .applyEvent
  else if b = 4 then some .deleteInstance
  else if b = 5 then some .snapshot
  else if b = 6 then some .checkpoint
  else if b = 255 then some .noop
  else none

theorem WalEntryType.tryFrom_toU8 (t : WalEntryType) : tryFrom t.toU8 = some t := by
  cases t <;> decide

/-- A typed entry: the payload of a record before serialization. -/
inductive WalEntry
  | putMachine (machine : String) (version : UInt32) (definitionHash : String)
      (definition : Value)
  | createInstance (instanceId machine : String) (version : UInt32) (initialState : String)
      (initialCtx : Value) (idempotencyKey : Option String)
  | applyEvent (instanceId event fromState toState : String) (payload ctx : Value)
      (eventId idempotencyKey : Option String)
  | deleteInstance (instanceId : String) (idempotencyKey : Option String)
  | snapshot (instanceId snapshotId state : String) (ctx : Value)
  | checkpoint (timestamp : Int64)
  deriving Repr

def WalEntry.entryType : WalEntry → WalEntryType
  | .putMachine .. => .putMachine
  | .createInstance .. => .createInstance
  | .applyEvent .. => .applyEvent
  | .deleteInstance .. => .deleteInstance
  | .snapshot .. => .snapshot
  | .checkpoint .. => .checkpoint

def WalEntry.instanceId : WalEntry → Option String
  | .createInstance id .. => some id
  | .applyEvent id .. => some id
  | .deleteInstance id _ => some id
  | .snapshot id .. => some id
  | .putMachine .. => none
  | .checkpoint _ => none

/-- What the log uses from outside the repository: the checksum of the
`crc32c` crate, `serde_json` on entries, and the pieces in which the operating
system hands over a file. Reading back a serialized entry gives that entry, the floats of
`Json.Number` being those that `serde_json` reads back, and a file is read in non-empty
pieces until its end. -/
@[ext] structure Externals where
  crc32c : Bytes → UInt32
  toVec : WalEntry → Bytes
  fromSlice : Bytes → Option WalEntry
  fromSlice_toVec : ∀ e, fromSlice (toVec e) = some e
  reads : Bytes → List Bytes
  reads_flatten : ∀ b, (reads b).flatten = b
  reads_ne_nil : ∀ b, ∀ c ∈ reads b, c ≠ []

theorem Externals.reads_nil (X : Externals) : X.reads [] = [] := by
  cases h : X.reads [] with
  | nil => rfl
  | cons b bs =>
    have hflat := X.reads_flatten []
    rw [h, List.flatten_cons, List.append_eq_nil_iff] at hflat
    exact absurd hflat.1 (X.reads_ne_nil [] b (by simp [h]))

/-- The errors of the log. Where the source renders a message, the message is here. -/
inductive WalError
  | io
  | corruptedRecord (offset : Nat) (expected actual : UInt32)
  | invalidHeader (offset : Nat) (reason : String)
  | recordTooLarge (size max : Nat)
  | closed
  | json
  deriving DecidableEq, Repr

end Rstmdb

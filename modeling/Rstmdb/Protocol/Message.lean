import Rstmdb.Core.Definition

/-! The messages of the protocol: operations, requests, responses and the
parameters of each operation as the derived deserializers read them. -/
namespace Rstmdb
open Json (Value Fields)

inductive Operation
  | hello
  | auth
  | ping
  | bye
  | info
  | putMachine
  | getMachine
  | listMachines
  | createInstance
  | getInstance
  | listInstances
  | deleteInstance
  | applyEvent
  | batch
  | snapshotInstance
  | walRead
  | walStats
  | compact
  | watchInstance
  | watchAll
  | unwatch
  deriving DecidableEq, Repr

namespace Operation

def all : List Operation :=
  [hello, auth, ping, bye, info, putMachine, getMachine, listMachines, createInstance,
    getInstance, listInstances, deleteInstance, applyEvent, batch, snapshotInstance, walRead,
    walStats, compact, watchInstance, watchAll, unwatch]

def name : Operation → String
  | hello => "HELLO"
  | auth => "AUTH"
  | ping => "PING"
  | bye => "BYE"
  | info => "INFO"
  | putMachine => "PUT_MACHINE"
  | getMachine => "GET_MACHINE"
  | listMachines => "LIST_MACHINES"
  | createInstance => "CREATE_INSTANCE"
  | getInstance => "GET_INSTANCE"
  | listInstances => "LIST_INSTANCES"
  | deleteInstance => "DELETE_INSTANCE"
  | applyEvent => "APPLY_EVENT"
  | batch => "BATCH"
  | snapshotInstance => "SNAPSHOT_INSTANCE"
  | walRead => "WAL_READ"
  | walStats => "WAL_STATS"
  | compact => "COMPACT"
  | watchInstance => "WATCH_INSTANCE"
  | watchAll => "WATCH_ALL"
  | unwatch => "UNWATCH"

/-- The derived deserializer on a string. -/
def ofName (s : String) : Option Operation := all.find? (·.name = s)

end Operation

structure Request where
  id : String
  op : Operation
  params : Value
  deriving Repr

inductive ErrorCode
  | unsupportedProtocol
  | badRequest
  | unauthorized
  | authFailed
  | notFound
  | machineNotFound
  | machineVersionExists
  | machineVersionLimitExceeded
  | instanceNotFound
  | instanceExists
  | invalidTransition
  | guardFailed
  | conflict
  | walIoError
  | internalError
  | rateLimited
  deriving DecidableEq, Repr

namespace ErrorCode

def name : ErrorCode → String
  | unsupportedProtocol => "UNSUPPORTED_PROTOCOL"
  | badRequest => "BAD_REQUEST"
  | unauthorized => "UNAUTHORIZED"
  | authFailed => "AUTH_FAILED"
  | notFound => "NOT_FOUND"
  | machineNotFound => "MACHINE_NOT_FOUND"
  | machineVersionExists => "MACHINE_VERSION_EXISTS"
  | machineVersionLimitExceeded => "MACHINE_VERSION_LIMIT_EXCEEDED"
  | instanceNotFound => "INSTANCE_NOT_FOUND"
  | instanceExists => "INSTANCE_EXISTS"
  | invalidTransition => "INVALID_TRANSITION"
  | guardFailed => "GUARD_FAILED"
  | conflict => "CONFLICT"
  | walIoError => "WAL_IO_ERROR"
  | internalError => "INTERNAL_ERROR"
  | rateLimited => "RATE_LIMITED"

def isRetryable : ErrorCode → Bool
  | walIoError | rateLimited | internalError => true
  | _ => false

end ErrorCode

/-- Error details; the server never adds any beyond these. -/
structure ResponseError where
  code : ErrorCode
  message : String
  retryable : Bool
  deriving DecidableEq, Repr

def ResponseError.new (code : ErrorCode) (message : String) : ResponseError :=
  ⟨code, message, code.isRetryable⟩

def ResponseError.toValue (e : ResponseError) : Value :=
  .obj [("code", .string e.code.name), ("message", .string e.message),
    ("retryable", .bool e.retryable)]

inductive ResponseStatus
  | ok
  | error
  deriving DecidableEq, Repr

structure Response where
  id : String
  status : ResponseStatus
  result : Option Value
  error : Option ResponseError
  deriving Repr

namespace Response

def succeeded (id : String) (result : Value) : Response := ⟨id, .ok, some result, none⟩

def failed (id : String) (e : ResponseError) : Response := ⟨id, .error, none, some e⟩

def isOk (r : Response) : Bool := r.status == .ok

def isError (r : Response) : Bool := r.status == .error

end Response

/-- A stream event as a watcher receives it. -/
structure StreamEvent where
  subscriptionId : String
  instanceId : String
  machine : String
  version : UInt32
  walOffset : Nat
  fromState : String
  toState : String
  event : String
  payload : Option Value
  ctx : Option Value
  deriving Repr

/-! ## Parameters -/

/-- What a derived deserializer does about a field that is not there. An option
without the `default` attribute may be missing in an object, but not in an array. -/
inductive Missing
  | fails
  | absent
  | default (v : Value)

def readField (map : Fields) (field : String × Missing) : Option Value :=
  match Fields.get? map field.1, field.2 with
  | some v, _ => some v
  | none, .fails => none
  | none, .absent => some .null
  | none, .default v => some v

def readElements : List (String × Missing) → List Value → Option (List Value)
  | [], [] => some []
  | [], _ :: _ => none
  | _ :: fields, v :: vs => (readElements fields vs).map (v :: ·)
  | (_, .default d) :: fields, [] => (readElements fields []).map (d :: ·)
  | _ :: _, [] => none

/-- The fields of a structure, in their order. -/
def readStruct (fields : List (String × Missing)) : Value → Option (List Value)
  | .object map => fields.mapM (readField map)
  | .array xs => readElements fields xs
  | _ => none

def readU16 (v : Value) : Option UInt16 :=
  v.asU64.bind fun n => if n.toNat < 2 ^ 16 then some n.toUInt16 else none

def readU32 (v : Value) : Option UInt32 :=
  v.asU64.bind fun n => if n.toNat < 2 ^ 32 then some n.toUInt32 else none

def readU64 (v : Value) : Option Nat := v.asU64.map UInt64.toNat

/-- An `Option`: null is none. -/
def readOption {α : Type} (read : Value → Option α) : Value → Option (Option α)
  | .null => some none
  | v => (read v).map some

structure HelloParams where
  protocolVersion : UInt16
  clientName : Option String
  wireModes : List String
  features : List String

def HelloParams.fromValue (v : Value) : Option HelloParams :=
  match readStruct [("protocol_version", .fails), ("client_name", .default .null),
      ("wire_modes", .default (.array [])), ("features", .default (.array []))] v with
  | some [version, name, modes, features] => do
    return ⟨← readU16 version, ← readOption Value.asStr name, ← readStrings modes,
      ← readStrings features⟩
  | _ => none

structure AuthParams where
  method : String
  token : String

def AuthParams.fromValue (v : Value) : Option AuthParams :=
  match readStruct [("method", .fails), ("token", .fails)] v with
  | some [method, token] => do return ⟨← method.asStr, ← token.asStr⟩
  | _ => none

structure PutMachineParams where
  machine : String
  version : UInt32
  definition : Value
  checksum : Option String

def PutMachineParams.fromValue (v : Value) : Option PutMachineParams :=
  match readStruct [("machine", .fails), ("version", .fails), ("definition", .fails),
      ("checksum", .absent)] v with
  | some [machine, version, definition, checksum] => do
    return ⟨← machine.asStr, ← readU32 version, definition, ← readOption Value.asStr checksum⟩
  | _ => none

structure GetMachineParams where
  machine : String
  version : UInt32

def GetMachineParams.fromValue (v : Value) : Option GetMachineParams :=
  match readStruct [("machine", .fails), ("version", .fails)] v with
  | some [machine, version] => do return ⟨← machine.asStr, ← readU32 version⟩
  | _ => none

structure CreateInstanceParams where
  instanceId : Option String
  machine : String
  version : UInt32
  initialCtx : Value
  idempotencyKey : Option String

/-- A context that is left out is null. -/
def CreateInstanceParams.fromValue (v : Value) : Option CreateInstanceParams :=
  match readStruct [("instance_id", .absent), ("machine", .fails), ("version", .fails),
      ("initial_ctx", .default .null), ("idempotency_key", .absent)] v with
  | some [id, machine, version, ctx, key] => do
    return ⟨← readOption Value.asStr id, ← machine.asStr, ← readU32 version, ctx,
      ← readOption Value.asStr key⟩
  | _ => none

structure GetInstanceParams where
  instanceId : String

def GetInstanceParams.fromValue (v : Value) : Option GetInstanceParams :=
  match readStruct [("instance_id", .fails)] v with
  | some [id] => do return ⟨← id.asStr⟩
  | _ => none

structure ListInstancesParams where
  machine : Option String
  state : Option String
  limit : Option UInt32
  offset : Option UInt32

def ListInstancesParams.fromValue (v : Value) : Option ListInstancesParams :=
  match readStruct [("machine", .absent), ("state", .absent), ("limit", .absent),
      ("offset", .absent)] v with
  | some [machine, state, limit, offset] => do
    return ⟨← readOption Value.asStr machine, ← readOption Value.asStr state,
      ← readOption readU32 limit, ← readOption readU32 offset⟩
  | _ => none

structure ApplyEventParams where
  instanceId : String
  event : String
  payload : Value
  expectedState : Option String
  expectedWalOffset : Option Nat
  eventId : Option String
  idempotencyKey : Option String

def ApplyEventParams.fromValue (v : Value) : Option ApplyEventParams :=
  match readStruct [("instance_id", .fails), ("event", .fails), ("payload", .default .null),
      ("expected_state", .absent), ("expected_wal_offset", .absent), ("event_id", .absent),
      ("idempotency_key", .absent)] v with
  | some [id, event, payload, state, offset, eventId, key] => do
    return ⟨← id.asStr, ← event.asStr, payload, ← readOption Value.asStr state,
      ← readOption readU64 offset, ← readOption Value.asStr eventId,
      ← readOption Value.asStr key⟩
  | _ => none

structure WatchInstanceParams where
  instanceId : String
  includeCtx : Bool
  fromOffset : Option Nat

def WatchInstanceParams.fromValue (v : Value) : Option WatchInstanceParams :=
  match readStruct [("instance_id", .fails), ("include_ctx", .default (.bool true)),
      ("from_offset", .absent)] v with
  | some [id, includeCtx, start] => do
    return ⟨← id.asStr, ← includeCtx.asBool, ← readOption readU64 start⟩
  | _ => none

structure WatchAllParams where
  includeCtx : Bool
  fromOffset : Option Nat
  machines : List String
  fromStates : List String
  toStates : List String
  events : List String

def WatchAllParams.fromValue (v : Value) : Option WatchAllParams :=
  match readStruct [("include_ctx", .default (.bool true)), ("from_offset", .absent),
      ("machines", .default (.array [])), ("from_states", .default (.array [])),
      ("to_states", .default (.array [])), ("events", .default (.array []))] v with
  | some [includeCtx, start, machines, fromStates, toStates, events] => do
    return ⟨← includeCtx.asBool, ← readOption readU64 start, ← readStrings machines,
      ← readStrings fromStates, ← readStrings toStates, ← readStrings events⟩
  | _ => none

structure UnwatchParams where
  subscriptionId : String

def UnwatchParams.fromValue (v : Value) : Option UnwatchParams :=
  match readStruct [("subscription_id", .fails)] v with
  | some [id] => do return ⟨← id.asStr⟩
  | _ => none

end Rstmdb

import Rstmdb.Protocol.Frame
import Rstmdb.Server.Session
import Rstmdb.Storage.Snapshot

/-! The command handlers. What they share, the engine, the snapshot store and the
broadcaster, is passed from request to request; `none` is a panic. Metrics, logging
and the times of a session are left out. -/
namespace Rstmdb
open Json (Value)

/-- What the server uses from outside the repository: random identifiers, the times that
an instance was given by the clock, the SHA-256 of a token in hexadecimal, and the texts
that other crates give to errors. -/
structure ServerExternals extends StorageExternals where
  uuid : Nat → String
  createdAt : Instance → Int64
  updatedAt : Instance → Int64
  hashToken : String → String
  paramsText : Operation → Value → String
  operationText : String → String
  debugError : Option ResponseError → String
  ioText : String
  jsonText : String

inductive ServerError
  | core (e : CoreError)
  | storage (e : StorageError)
  | wal (e : WalError)
  | authFailed (reason : String)
  | invalidRequest (reason : String)
  | machineVersionLimitExceeded (reason : String)
  deriving DecidableEq, Repr

/-! ## Codes and texts of errors -/

def CoreError.errorCode : CoreError → String
  | .machineNotFound _ => "MACHINE_NOT_FOUND"
  | .machineVersionNotFound .. => "MACHINE_NOT_FOUND"
  | .machineVersionExists .. => "MACHINE_VERSION_EXISTS"
  | .instanceNotFound _ => "INSTANCE_NOT_FOUND"
  | .instanceExists _ => "INSTANCE_EXISTS"
  | .invalidTransition .. => "INVALID_TRANSITION"
  | .guardFailed _ => "GUARD_FAILED"
  | .stateConflict .. => "CONFLICT"
  | .walOffsetConflict .. => "CONFLICT"
  | .invalidDefinition _ => "BAD_REQUEST"
  | .invalidGuard _ => "BAD_REQUEST"
  | .wal _ => "WAL_IO_ERROR"
  | .json => "BAD_REQUEST"

/-- The codes of the engine's errors; `BAD_REQUEST` is not among those it knows. -/
def ServerError.errorCode : ServerError → ErrorCode
  | .core e =>
    let code := e.errorCode
    if code = "MACHINE_NOT_FOUND" then .machineNotFound
    else if code = "MACHINE_VERSION_EXISTS" then .machineVersionExists
    else if code = "INSTANCE_NOT_FOUND" then .instanceNotFound
    else if code = "INSTANCE_EXISTS" then .instanceExists
    else if code = "INVALID_TRANSITION" then .invalidTransition
    else if code = "GUARD_FAILED" then .guardFailed
    else if code = "CONFLICT" then .conflict
    else if code = "WAL_IO_ERROR" then .walIoError
    else .internalError
  | .storage _ => .internalError
  | .wal _ => .walIoError
  | .authFailed _ => .authFailed
  | .invalidRequest _ => .badRequest
  | .machineVersionLimitExceeded _ => .machineVersionLimitExceeded

section
variable (X : ServerExternals)

/-- `{:#x}`. -/
def hexText (n : UInt32) : String := "0x" ++ String.ofList (Nat.toDigits 16 n.toNat)

def WalError.text : WalError → String
  | .io => "I/O error: " ++ X.ioText
  | .corruptedRecord offset expected actual =>
    "record corrupted at offset " ++ toString offset ++ ": CRC mismatch (expected " ++
      hexText expected ++ ", got " ++ hexText actual ++ ")"
  | .invalidHeader offset reason =>
    "invalid record header at offset " ++ toString offset ++ ": " ++ reason
  | .recordTooLarge size max =>
    "record too large: " ++ toString size ++ " bytes (max " ++ toString max ++ ")"
  | .closed => "WAL is closed"
  | .json => "JSON serialization error: " ++ X.jsonText

def CoreError.text : CoreError → String
  | .machineNotFound machine => "machine not found: " ++ machine
  | .machineVersionNotFound machine version =>
    "machine version not found: " ++ machine ++ " v" ++ toString version.toNat
  | .machineVersionExists machine version =>
    "machine version already exists: " ++ machine ++ " v" ++ toString version.toNat
  | .instanceNotFound instanceId => "instance not found: " ++ instanceId
  | .instanceExists instanceId => "instance already exists: " ++ instanceId
  | .invalidTransition state event =>
    "invalid transition: cannot apply '" ++ event ++ "' in state '" ++ state ++ "'"
  | .guardFailed reason => "guard failed: " ++ reason
  | .stateConflict expected actual =>
    "state conflict: expected '" ++ expected ++ "', actual '" ++ actual ++ "'"
  | .walOffsetConflict expected actual =>
    "WAL offset conflict: expected " ++ toString expected ++ ", actual " ++ toString actual
  | .invalidDefinition reason => "invalid machine definition: " ++ reason
  | .invalidGuard reason => "invalid guard expression: " ++ reason
  | .wal e => "WAL error: " ++ e.text X
  | .json => "JSON error: " ++ X.jsonText

def StorageError.text : StorageError → String
  | .io => "I/O error: " ++ X.ioText
  | .json => "JSON error: " ++ X.jsonText
  | .snapshotNotFound snapshotId => "snapshot not found: " ++ snapshotId
  | .instanceNotFound instanceId => "instance not found: " ++ instanceId
  | .corruption reason => "data corruption: " ++ reason
  | .wal e => "WAL error: " ++ e.text X

def ServerError.text : ServerError → String
  | .core e => "core error: " ++ e.text X
  | .storage e => "storage error: " ++ e.text X
  | .wal e => "WAL error: " ++ e.text X
  | .authFailed reason => "authentication failed: " ++ reason
  | .invalidRequest reason => "invalid request: " ++ reason
  | .machineVersionLimitExceeded reason => "machine version limit exceeded: " ++ reason

end

/-! ## Configuration and shared state -/

structure ServerInfo where
  name : String := "rstmdb"
  version : String := "0.1.1"
  features : List String := ["idempotency", "batch", "wal_read"]
  maxFrameBytes : UInt32 := 16 * 1024 * 1024
  maxBatchOps : UInt32 := 100

structure AuthConfig where
  required : Bool
  tokenHashes : List String

structure TokenValidator where
  validHashes : List String

def TokenValidator.validate (X : ServerExternals) (v : TokenValidator) (token : String) : Bool :=
  !v.validHashes.isEmpty && v.validHashes.contains (X.hashToken token)

/-- The part of the command handler that no request changes. -/
structure CommandHandler where
  info : ServerInfo
  tokenValidator : Option TokenValidator
  authRequired : Bool
  maxMachineVersions : UInt32

/-- What all connections and the compaction manager share, with the number of
identifiers drawn so far. -/
structure Shared where
  engine : Engine
  snapshotStore : Option SnapshotStore
  snapshotDir : SnapshotDir
  broadcaster : Option EventBroadcaster
  uuids : Nat

/-- The answer to an operation. -/
abbrev Answered := Except ServerError Value

namespace CommandHandler

def withAuth (auth : AuthConfig) (maxMachineVersions : UInt32) : CommandHandler where
  info := {}
  tokenValidator :=
    if auth.required && !auth.tokenHashes.isEmpty then some ⟨auth.tokenHashes⟩ else none
  authRequired := auth.required
  maxMachineVersions

/-- All but the handshake, the authentication, the health check and the farewell. -/
def requiresAuth (c : CommandHandler) (op : Operation) : Bool :=
  if !c.authRequired then false
  else
    match op with
    | .hello | .auth | .ping | .bye => false
    | _ => true

end CommandHandler

/-- The error for parameters that cannot be read. -/
def badParams (X : ServerExternals) (op : Operation) (params : Value) : ServerError :=
  .invalidRequest (X.paramsText op params)

/-! ## Session -/

def negotiateWireMode (modes : List String) : WireMode :=
  if modes.contains "binary_json" then .binaryJson
  else if modes.contains "jsonl" then .jsonl
  else .binaryJson

def handleHello (X : ServerExternals) (c : CommandHandler) (ses : Session) (params : Value) :
    Session × Answered :=
  match HelloParams.fromValue params with
  | none => (ses, .error (badParams X .hello params))
  | some hello =>
    if hello.protocolVersion ≠ protocolVersion then
      (ses, .error (.invalidRequest
        ("unsupported protocol version: " ++ toString hello.protocolVersion.toNat)))
    else
      let wireMode := negotiateWireMode hello.wireModes
      let negotiated := c.info.features.filter hello.features.contains
      (ses.completeHandshake hello.protocolVersion wireMode hello.clientName negotiated,
        .ok (.obj [("protocol_version", .nat protocolVersion.toNat),
          ("wire_mode", .string wireMode.name), ("server_name", .string c.info.name),
          ("server_version", .string c.info.version),
          ("features", .array (negotiated.map Value.string))]))

def handleAuth (X : ServerExternals) (c : CommandHandler) (ses : Session) (params : Value) :
    Session × Answered :=
  match AuthParams.fromValue params with
  | none => (ses, .error (badParams X .auth params))
  | some auth =>
    let accepted := ({ ses with authenticated := true, state := .authenticated },
      .ok (.obj [("authenticated", .bool true)]))
    if auth.method ≠ "bearer" then
      (ses, .error (.authFailed ("unsupported auth method: " ++ auth.method)))
    else
      match c.tokenValidator with
      | none =>
        if auth.token ≠ "" then accepted else (ses, .error (.authFailed "empty token"))
      | some validator =>
        if validator.validate X auth.token then accepted
        else (ses, .error (.authFailed "invalid token"))

def handlePing : Answered := .ok (.obj [("pong", .bool true)])

def handleBye (ses : Session) : Session × Answered :=
  ({ ses with state := .closing }, .ok (.obj [("goodbye", .bool true)]))

def handleInfo (c : CommandHandler) : Answered :=
  .ok (.obj [("server_name", .string c.info.name), ("server_version", .string c.info.version),
    ("protocol_version", .nat protocolVersion.toNat),
    ("features", .array (c.info.features.map Value.string)),
    ("max_frame_bytes", .nat c.info.maxFrameBytes.toNat),
    ("max_batch_ops", .nat c.info.maxBatchOps.toNat)])

/-! ## Machines -/

/-- The versions of a machine, in order. -/
def Engine.getMachineVersions (s : Engine) (name : String) : List UInt32 :=
  s.definitions.keys.filterMap fun key => if key.1 = name then some key.2 else none

/-- The machines by name, each with its versions. -/
def Engine.listMachines (s : Engine) : List (String × List UInt32) :=
  (s.definitions.keys.map Prod.fst).dedup.map fun name => (name, s.getMachineVersions name)

/-- A new version of a machine that has its full number of versions. -/
def versionLimitReached (c : CommandHandler) (s : Engine) (machine : String) (version : UInt32) :
    Bool :=
  let versions := s.getMachineVersions machine
  0 < c.maxMachineVersions && !versions.contains version &&
    c.maxMachineVersions.toNat ≤ versions.length

def handlePutMachine (X : ServerExternals) (c : CommandHandler) (s : Shared) (params : Value) :
    Option (Shared × Answered) :=
  match PutMachineParams.fromValue params with
  | none => some (s, .error (badParams X .putMachine params))
  | some p =>
    if versionLimitReached c s.engine p.machine p.version then
      some (s, .error (.machineVersionLimitExceeded ("machine '" ++ p.machine ++
        "' already has " ++ toString (s.engine.getMachineVersions p.machine).length ++
        " versions (limit: " ++ toString c.maxMachineVersions.toNat ++ ")")))
    else
      match s.engine.putMachine X.toCoreExternals p.machine p.version p.definition with
      | none => none
      | some (engine, .error e) => some ({ s with engine }, .error (.core e))
      | some (engine, .ok (checksum, created)) =>
        some ({ s with engine }, .ok (.obj [("machine", .string p.machine),
          ("version", .nat p.version.toNat), ("stored_checksum", .string checksum),
          ("created", .bool created)]))

def handleGetMachine (X : ServerExternals) (s : Shared) (params : Value) : Answered :=
  match GetMachineParams.fromValue params with
  | none => .error (badParams X .getMachine params)
  | some p =>
    match s.engine.getMachine p.machine p.version with
    | .error e => .error (.core e)
    | .ok d => .ok (.obj [("definition", d.toJson), ("checksum", .string d.checksum)])

def handleListMachines (s : Shared) : Answered :=
  .ok (.obj [("items", .array (s.engine.listMachines.map fun m =>
    .obj [("machine", .string m.1), ("versions", .array (m.2.map fun v => .nat v.toNat))]))])

/-! ## Instances -/

def handleCreateInstance (X : ServerExternals) (s : Shared) (params : Value) :
    Option (Shared × Answered) :=
  match CreateInstanceParams.fromValue params with
  | none => some (s, .error (badParams X .createInstance params))
  | some p =>
    let (instanceId, s) := match p.instanceId with
      | some id => (id, s)
      | none => (X.uuid s.uuids, { s with uuids := s.uuids + 1 })
    match s.engine.createInstance X.toCoreExternals instanceId p.machine p.version p.initialCtx
        p.idempotencyKey with
    | none => none
    | some (engine, .error e) => some ({ s with engine }, .error (.core e))
    | some (engine, .ok (i, _)) =>
      some ({ s with engine }, .ok (.obj [("instance_id", .string i.id),
        ("state", .string i.state), ("wal_offset", .nat i.lastWalOffset)]))

def handleGetInstance (X : ServerExternals) (s : Shared) (params : Value) : Answered :=
  match GetInstanceParams.fromValue params with
  | none => .error (badParams X .getInstance params)
  | some p =>
    match s.engine.getInstance p.instanceId with
    | .error e => .error (.core e)
    | .ok i =>
      .ok (.obj ([("machine", .string i.machine), ("version", .nat i.version.toNat),
        ("state", .string i.state), ("ctx", i.ctx),
        ("last_wal_offset", .nat i.lastWalOffset)] ++
        optionalField "last_event_id" i.lastEventId))

def instanceSummary (X : ServerExternals) (i : Instance) : Value :=
  .obj [("id", .string i.id), ("machine", .string i.machine), ("version", .nat i.version.toNat),
    ("state", .string i.state), ("created_at", .number (.ofI64 (X.createdAt i))),
    ("updated_at", .number (.ofI64 (X.updatedAt i))), ("last_wal_offset", .nat i.lastWalOffset)]

def handleListInstances (X : ServerExternals) (s : Shared) (params : Value) : Answered :=
  match ListInstancesParams.fromValue params with
  | none => .error (badParams X .listInstances params)
  | some p =>
    let filtered := s.engine.getAllInstances.filter fun i =>
      (p.machine.all fun machine => i.machine = machine) &&
        p.state.all fun state => i.state = state
    let total := filtered.length
    let offset := (p.offset.getD 0).toNat
    let limit := (p.limit.getD 100).toNat
    let paginated := (filtered.drop offset).take limit
    .ok (.obj [("instances", .array (paginated.map (instanceSummary X))), ("total", .nat total),
      ("has_more", .bool (offset + paginated.length < total))])

def handleDeleteInstance (X : ServerExternals) (s : Shared) (params : Value) :
    Option (Shared × Answered) :=
  match (params.index "instance_id").asStr with
  | none => some (s, .error (.invalidRequest "missing instance_id"))
  | some instanceId =>
    match s.engine.deleteInstance X.toCoreExternals instanceId
        (params.index "idempotency_key").asStr with
    | none => none
    | some (engine, .error e) => some ({ s with engine }, .error (.core e))
    | some (engine, .ok walOffset) =>
      some ({ s with engine }, .ok (.obj [("instance_id", .string instanceId),
        ("deleted", .bool true), ("wal_offset", .nat walOffset)]))

def ApplyEventParams.request (p : ApplyEventParams) : EventRequest :=
  ⟨p.instanceId, p.event, p.payload, p.expectedState, p.expectedWalOffset, p.eventId,
    p.idempotencyKey⟩

/-- The event sent to the watchers for a result, with the machine that the
instance had before the call. -/
def notification (i : Instance) (p : ApplyEventParams) (a : ApplyResult) : InstanceEvent :=
  ⟨p.instanceId, i.machine, i.version, a.walOffset, a.fromState, a.toState, p.event, p.payload,
    a.ctx⟩

def handleApplyEvent (X : ServerExternals) (s : Shared) (params : Value) :
    Option (Shared × Answered) :=
  match ApplyEventParams.fromValue params with
  | none => some (s, .error (badParams X .applyEvent params))
  | some p =>
    match s.engine.getInstance p.instanceId with
    | .error e => some (s, .error (.core e))
    | .ok i =>
      match s.engine.applyEvent X.toCoreExternals p.request with
      | none => none
      | some (engine, .error e) => some ({ s with engine }, .error (.core e))
      | some (engine, .ok a) =>
        let broadcaster :=
          if a.applied then s.broadcaster.map (·.notify (notification i p a)) else s.broadcaster
        some ({ s with engine, broadcaster },
          .ok (.obj ([("from_state", .string a.fromState), ("to_state", .string a.toState),
            ("ctx", a.ctx), ("wal_offset", .nat a.walOffset), ("applied", .bool a.applied)] ++
            optionalField "event_id" p.eventId)))

/-! ## Snapshots and compaction -/

/-- A snapshot under a new id, made by the given store. -/
def Shared.takeSnapshot (X : ServerExternals) (s : Shared) (store : SnapshotStore)
    (i : Instance) : Shared × SnapshotStore × Except StorageError SnapshotMeta :=
  let snapshotId := "snap-" ++ X.uuid s.uuids
  let (store, dir, res) := store.createSnapshot X.toStorageExternals s.snapshotDir
    (.fromInstance i snapshotId)
  ({ s with snapshotDir := dir, uuids := s.uuids + 1 }, store, res)

def handleSnapshotInstance (X : ServerExternals) (s : Shared) (params : Value) :
    Shared × Answered :=
  match (params.index "instance_id").asStr with
  | none => (s, .error (.invalidRequest "missing instance_id"))
  | some instanceId =>
    match s.engine.getInstance instanceId with
    | .error e => (s, .error (.core e))
    | .ok i =>
      match s.snapshotStore with
      | some store =>
        match s.takeSnapshot X store i with
        | (s, store, .error e) => ({ s with snapshotStore := some store }, .error (.storage e))
        | (s, store, .ok entry) =>
          ({ s with snapshotStore := some store },
            .ok (.obj [("instance_id", .string instanceId),
              ("snapshot_id", .string entry.snapshotId), ("wal_offset", .nat entry.walOffset),
              ("size_bytes", .nat entry.sizeBytes), ("checksum", .string entry.checksum)]))
      | none =>
        ({ s with uuids := s.uuids + 1 },
          .ok (.obj [("instance_id", .string instanceId),
            ("snapshot_id", .string ("snap-" ++ X.uuid s.uuids)),
            ("wal_offset", .nat i.lastWalOffset)]))

/-- The instance has no snapshot, or it has changed since the one it has. -/
def changedSinceSnapshot (store : SnapshotStore) (i : Instance) : Bool :=
  match store.getSnapshotMeta i.id with
  | some entry => entry.walOffset < i.lastWalOffset
  | none => true

/-- `needs_snapshot`: without force only an instance that has none. -/
def needsSnapshot (forceSnapshot : Bool) (store : SnapshotStore) (i : Instance) : Bool :=
  if forceSnapshot then changedSinceSnapshot store i
  else (store.getSnapshotMeta i.id).isNone

/-- The loop of `handle_compact`, which ends at the first snapshot that fails. -/
def snapshotInstances (X : ServerExternals) (forceSnapshot : Bool) :
    List Instance → Shared → SnapshotStore → Nat →
      Shared × SnapshotStore × Except StorageError Nat
  | [], s, store, created => (s, store, .ok created)
  | i :: is, s, store, created =>
    if needsSnapshot forceSnapshot store i then
      match s.takeSnapshot X store i with
      | (s, store, .error e) => (s, store, .error e)
      | (s, store, .ok _) => snapshotInstances X forceSnapshot is s store (created + 1)
    else snapshotInstances X forceSnapshot is s store created

/-- Deletes the segments before the smallest offset in the index. -/
def Shared.compactTo (s : Shared) (minOffset : Option Nat) : Shared × Nat :=
  match minOffset with
  | some minOffset =>
    let (wal, deleted) := s.engine.wal.compactBefore ⟨minOffset⟩
    ({ s with engine := { s.engine with wal } }, deleted)
  | none => (s, 0)

def forceSnapshot (params : Value) : Bool := ((params.index "force_snapshot").asBool).getD false

def handleCompact (X : ServerExternals) (s : Shared) (params : Value) : Shared × Answered :=
  match s.snapshotStore with
  | none => (s, .error (.invalidRequest "snapshot store not configured"))
  | some store =>
    match snapshotInstances X (forceSnapshot params) s.engine.getAllInstances s store 0 with
    | (s, store, .error e) => ({ s with snapshotStore := some store }, .error (.storage e))
    | (s, store, .ok created) =>
      let (s, deleted) := ({ s with snapshotStore := some store }).compactTo store.minWalOffset
      (s, .ok (.obj [("snapshots_created", .nat created), ("segments_deleted", .nat deleted),
        ("bytes_reclaimed", .nat (deleted * 64 * 1024 * 1024)),
        ("total_snapshots", .nat store.snapshotCount),
        ("wal_segments", .nat s.engine.wal.segmentIds.length)]))

/-! ## The log -/

/-- An entry as a value: its fields in the order of a map. -/
def WalEntry.toValue (e : WalEntry) : Value :=
  match e.toJson with
  | .object fields => .obj fields
  | v => v

def walRecord (p : ReadEntry) : Value :=
  .obj [("sequence", .number (.posInt p.1)), ("offset", .nat p.2.1.asU64),
    ("entry", p.2.2.toValue)]

def handleWalRead (X : ServerExternals) (s : Shared) (params : Value) :
    Option (Shared × Answered) :=
  match (params.index "from_offset").asU64 with
  | none => some (s, .error (.invalidRequest "missing from_offset"))
  | some fromOffset =>
    let limit := (params.index "limit").asU64.map UInt64.toNat
    match s.engine.wal.readFrom X.toExternals ⟨fromOffset.toNat⟩ limit with
    | none => none
    | some (wal, .error e) =>
      some ({ s with engine := { s.engine with wal } }, .error (.wal e))
    | some (wal, .ok entries) =>
      let nextOffset := match entries.getLast? with
        | some p => .nat (p.2.1.asU64 + 1)
        | none => .null
      some ({ s with engine := { s.engine with wal } },
        .ok (.obj [("records", .array (entries.map walRecord)), ("next_offset", nextOffset)]))

def offsetValue : Option WalOffset → Value
  | some o => .nat o.asU64
  | none => .null

def handleWalStats (s : Shared) : Option Answered :=
  let wal := s.engine.wal
  wal.latestOffset.map fun latest =>
    .ok (.obj [("entry_count", .nat (wal.nextSequence.toNat - 1)),
      ("segment_count", .nat wal.segmentIds.length), ("total_size_bytes", .nat wal.totalSize),
      ("latest_offset", offsetValue latest),
      ("io_stats", .obj [("bytes_written", .nat wal.stats.bytesWritten),
        ("bytes_read", .nat wal.stats.bytesRead), ("writes", .nat wal.stats.writes),
        ("reads", .nat wal.stats.reads), ("fsyncs", .nat wal.stats.fsyncs)])])

/-! ## Subscriptions -/

def streamingDisabled : ServerError := .invalidRequest "streaming not enabled on this server"

/-- The id of the next subscription. -/
def subscriptionId (X : ServerExternals) (s : Shared) : String := "sub-" ++ X.uuid s.uuids

/-- `handle_watch_instance`, which hands out the receiver too. -/
def handleWatchInstance (X : ServerExternals) (s : Shared) (ses : Session) (params : Value) :
    Shared × Session × Except ServerError (Value × String × Receiver) :=
  match WatchInstanceParams.fromValue params with
  | none => (s, ses, .error (badParams X .watchInstance params))
  | some p =>
    match s.engine.getInstance p.instanceId with
    | .error e => (s, ses, .error (.core e))
    | .ok i =>
      match s.broadcaster with
      | none => (s, ses, .error streamingDisabled)
      | some b =>
        let id := subscriptionId X s
        let (b, receiver) := b.subscribeInstance id p.instanceId p.includeCtx
        ({ s with broadcaster := some b, uuids := s.uuids + 1 },
          ses.addInstanceSubscription id p.instanceId,
          .ok (.obj [("subscription_id", .string id), ("instance_id", .string p.instanceId),
            ("current_state", .string i.state), ("current_wal_offset", .nat i.lastWalOffset)],
            id, receiver))

/-- `handle_watch_all`, which hands out the receiver and the filter too. -/
def handleWatchAll (X : ServerExternals) (s : Shared) (ses : Session) (params : Value) :
    Option (Shared × Session × Except ServerError (Value × String × Receiver × EventFilter)) :=
  match WatchAllParams.fromValue params with
  | none => some (s, ses, .error (badParams X .watchAll params))
  | some p =>
    match s.broadcaster with
    | none => some (s, ses, .error streamingDisabled)
    | some b =>
      let id := subscriptionId X s
      let filter : EventFilter := ⟨p.machines, p.fromStates, p.toStates, p.events⟩
      let (b, receiver) := b.subscribeAll id filter p.includeCtx
      s.engine.wal.latestOffset.map fun latest =>
        ({ s with broadcaster := some b, uuids := s.uuids + 1 }, ses.addAllSubscription id,
          .ok (.obj [("subscription_id", .string id),
            ("wal_offset", .nat ((latest.map WalOffset.asU64).getD 0))], id, receiver, filter))

def handleUnwatch (X : ServerExternals) (s : Shared) (ses : Session) (params : Value) :
    Shared × Session × Answered :=
  match UnwatchParams.fromValue params with
  | none => (s, ses, .error (badParams X .unwatch params))
  | some p =>
    let (ses, removed) := ses.removeSubscription p.subscriptionId
    ({ s with broadcaster := s.broadcaster.map (·.unsubscribe p.subscriptionId) }, ses,
      .ok (.obj [("subscription_id", .string p.subscriptionId),
        ("removed", .bool removed.isSome)]))

/-! ## Dispatch -/

/-- What handling a request leaves: the shared state, the session and the outcome. -/
abbrev Handled (α : Type) := Option (Shared × Session × α)

/-- Every operation but `BATCH`. Watching inside a batch drops the receiver. -/
def execute (X : ServerExternals) (c : CommandHandler) (s : Shared) (ses : Session)
    (op : Operation) (params : Value) : Handled Answered :=
  let keep (r : Shared × Answered) : Shared × Session × Answered := (r.1, ses, r.2)
  let change (r : Session × Answered) : Handled Answered := some (s, r.1, r.2)
  match op with
  | .hello => change (handleHello X c ses params)
  | .auth => change (handleAuth X c ses params)
  | .ping => some (s, ses, handlePing)
  | .bye => change (handleBye ses)
  | .info => some (s, ses, handleInfo c)
  | .putMachine => (handlePutMachine X c s params).map keep
  | .getMachine => some (s, ses, handleGetMachine X s params)
  | .listMachines => some (s, ses, handleListMachines s)
  | .createInstance => (handleCreateInstance X s params).map keep
  | .getInstance => some (s, ses, handleGetInstance X s params)
  | .listInstances => some (s, ses, handleListInstances X s params)
  | .deleteInstance => (handleDeleteInstance X s params).map keep
  | .applyEvent => (handleApplyEvent X s params).map keep
  | .batch => none
  | .snapshotInstance => some (keep (handleSnapshotInstance X s params))
  | .walRead => (handleWalRead X s params).map keep
  | .walStats => (handleWalStats s).map fun a => (s, ses, a)
  | .compact => some (keep (handleCompact X s params))
  | .watchInstance =>
    let (s, ses, r) := handleWatchInstance X s ses params
    some (s, ses, r.map Prod.fst)
  | .watchAll => (handleWatchAll X s ses params).map fun (s, ses, r) => (s, ses, r.map Prod.fst)
  | .unwatch => some (handleUnwatch X s ses params)

def responseOf (X : ServerExternals) (id : String) : Answered → Response
  | .ok v => .succeeded id v
  | .error e => .failed id (.new e.errorCode (e.text X))

def batchResult (r : Response) : Value :=
  .obj [("status", .string (if r.isOk then "ok" else "error")), ("result", r.result.getD .null),
    ("error", (r.error.map ResponseError.toValue).getD .null)]

/-- The loop of `handle_batch`, with the handler for its operations. -/
def batchOps (X : ServerExternals) (handle : Shared → Session → Request → Handled Response)
    (mode : String) :
    List Value → Shared → Session → Handled (Except ServerError (List Value))
  | [], s, ses => some (s, ses, .ok [])
  | op :: ops, s, ses =>
    match (op.index "op").asStr with
    | none => some (s, ses, .error (.invalidRequest "missing op type"))
    | some opType =>
      match Operation.ofName opType with
      | none => some (s, ses, .error (.invalidRequest (X.operationText opType)))
      | some operation =>
        match handle s ses ⟨"batch", operation, op.index "params"⟩ with
        | none => none
        | some (s, ses, response) =>
          if mode = "atomic" && response.isError then
            some (s, ses, .error (.invalidRequest
              ("atomic batch failed: " ++ X.debugError response.error)))
          else
            match batchOps X handle mode ops s ses with
            | none => none
            | some (s, ses, .error e) => some (s, ses, .error e)
            | some (s, ses, .ok results) =>
              some (s, ses, .ok (batchResult response :: results))

def handleBatch (X : ServerExternals) (c : CommandHandler)
    (handle : Shared → Session → Request → Handled Response) (s : Shared) (ses : Session)
    (params : Value) : Handled Answered :=
  let mode := ((params.index "mode").asStr).getD "best_effort"
  match (params.index "ops").asArray with
  | none => some (s, ses, .error (.invalidRequest "missing ops array"))
  | some ops =>
    if c.info.maxBatchOps.toNat < ops.length then
      some (s, ses, .error (.invalidRequest ("batch size " ++ toString ops.length ++
        " exceeds limit " ++ toString c.info.maxBatchOps.toNat)))
    else
      match batchOps X handle mode ops s ses with
      | none => none
      | some (s, ses, .error e) => some (s, ses, .error e)
      | some (s, ses, .ok results) => some (s, ses, .ok (.obj [("results", .array results)]))

/-- The refusal of a request that needs authentication. -/
def unauthorizedResponse (id : String) : Response :=
  .failed id (.new .unauthorized "authentication required")

/-- `handle`, for requests whose batches are nested less than `depth` deep. -/
def handleWithin (X : ServerExternals) (c : CommandHandler) :
    Nat → Shared → Session → Request → Handled Response
  | 0, _, _, _ => none
  | depth + 1, s, ses, request =>
    let ses := ses.recordRequest
    if c.requiresAuth request.op && !ses.authenticated then
      some (s, ses, unauthorizedResponse request.id)
    else
      let outcome :=
        if request.op = .batch then
          handleBatch X c (handleWithin X c depth) s ses request.params
        else execute X c s ses request.op request.params
      outcome.map fun (s, ses, answer) => (s, ses, responseOf X request.id answer)

mutual

/-- How deep arrays and objects are nested in a value. -/
def Json.Value.depth : Value → Nat
  | .array xs => elementsDepth xs + 1
  | .object fs => fieldsDepth fs + 1
  | _ => 0

def elementsDepth : List Value → Nat
  | [] => 0
  | v :: vs => max v.depth (elementsDepth vs)

def fieldsDepth : List (String × Value) → Nat
  | [] => 0
  | (_, v) :: fs => max v.depth (fieldsDepth fs)

end

/-- A batch nested in another lies deeper in its parameters, so their depth is
enough. -/
def handle (X : ServerExternals) (c : CommandHandler) (s : Shared) (ses : Session)
    (request : Request) : Handled Response :=
  handleWithin X c (request.params.depth + 1) s ses request

/-- The outside functions on inputs that give no error text: an identifier for each
number, and one token with its SHA-256. -/
noncomputable def serdeServer : ServerExternals where
  toStorageExternals := serdeStorage
  uuid n := "00000000-0000-4000-8000-" ++ String.ofList (Nat.toDigits 10 (100000000000 + n))
  createdAt _ := 1767225600000
  updatedAt _ := 1767225600000
  hashToken token :=
    if token = "secret" then "2bb80d537b1da3e38bd30361aa855686bde0eacd7162fef6a25fe97bf527a25b"
    else ""
  paramsText _ _ := ""
  operationText _ := ""
  debugError _ := ""
  ioText := ""
  jsonText := ""

/-! ## The depth is enough -/

theorem depth_le_fieldsDepth {fs : List (String × Value)} {k : String} {v : Value}
    (h : Json.Fields.get? fs k = some v) : v.depth ≤ fieldsDepth fs := by
  induction fs with
  | nil => cases h
  | cons f fs ih =>
    obtain ⟨k', v'⟩ := f
    simp only [Json.Fields.get?, List.find?_cons] at h
    split at h
    · cases h
      exact le_max_left _ _
    · exact (ih h).trans (le_max_right _ _)

theorem depth_le_elementsDepth {vs : List Value} {v : Value} (h : v ∈ vs) :
    v.depth ≤ elementsDepth vs := by
  induction vs with
  | nil => cases h
  | cons w ws ih =>
    rcases List.mem_cons.mp h with rfl | h
    · exact le_max_left _ _
    · exact (ih h).trans (le_max_right _ _)

theorem depth_index_le (v : Value) (k : String) : (v.index k).depth ≤ v.depth - 1 := by
  unfold Value.index
  split
  · rename_i fs
    cases h : Json.Fields.get? fs k with
    | none => exact Nat.zero_le _
    | some w => exact depth_le_fieldsDepth h
  · exact Nat.zero_le _

/-- The operations of a batch have shallower parameters than the batch. -/
theorem depth_params_lt {params op : Value} {ops : List Value} {opType : String}
    (hops : (params.index "ops").asArray = some ops) (hop : op ∈ ops)
    (htype : (op.index "op").asStr = some opType) : (op.index "params").depth < params.depth := by
  have harray : (params.index "ops").depth = elementsDepth ops + 1 := by
    cases h : params.index "ops" <;> rw [h] at hops <;> cases hops
    rfl
  have hobject : 0 < op.depth := by
    cases op <;> simp [Value.index, Value.asStr] at htype
    exact Nat.succ_pos _
  have h₁ := depth_index_le params "ops"
  have h₂ := depth_index_le op "params"
  have h₃ := depth_le_elementsDepth hop
  omega

section
variable {X : ServerExternals} {c : CommandHandler}

variable {f g : Shared → Session → Request → Handled Response}

theorem batchOps_congr {mode : String} {ops : List Value}
    (h : ∀ op ∈ ops, ∀ opType, (op.index "op").asStr = some opType → ∀ s ses operation,
      f s ses ⟨"batch", operation, op.index "params"⟩ =
        g s ses ⟨"batch", operation, op.index "params"⟩) (s : Shared) (ses : Session) :
    batchOps X f mode ops s ses = batchOps X g mode ops s ses := by
  induction ops generalizing s ses with
  | nil => rfl
  | cons op ops ih =>
    have rest := ih fun op' hop => h op' (List.mem_cons_of_mem _ hop)
    simp only [batchOps]
    cases htype : (op.index "op").asStr with
    | none => rfl
    | some opType => simp only [h op List.mem_cons_self opType htype, rest]

theorem handleBatch_congr (params : Value)
    (h : ∀ request, request.params.depth < params.depth →
      ∀ s ses, f s ses request = g s ses request)
    (s : Shared) (ses : Session) :
    handleBatch X c f s ses params = handleBatch X c g s ses params := by
  unfold handleBatch
  cases hops : (params.index "ops").asArray with
  | none => rfl
  | some ops =>
    have same := @batchOps_congr X _ _ (((params.index "mode").asStr).getD "best_effort") _
      fun op hop opType htype s ses operation =>
        h ⟨"batch", operation, op.index "params"⟩ (depth_params_lt hops hop htype) s ses
    simp only [same]

theorem handleWithin_stable {d d' : Nat} {request : Request} (h : request.params.depth < d)
    (h' : request.params.depth < d') (s : Shared) (ses : Session) :
    handleWithin X c d s ses request = handleWithin X c d' s ses request := by
  induction d generalizing d' request s ses with
  | zero => omega
  | succ d ih =>
    cases d' with
    | zero => omega
    | succ d' =>
      have same := handleBatch_congr (X := X) (c := c)
        (f := handleWithin X c d) (g := handleWithin X c d') request.params
        fun inner hin s ses => ih (by omega) (by omega) s ses
      simp only [handleWithin, same]

/-- `handle` as the source has it, calling itself on the operations of a batch. -/
theorem handle_eq (s : Shared) (ses : Session) (request : Request) :
    handle X c s ses request =
      if c.requiresAuth request.op && !ses.authenticated then
        some (s, ses.recordRequest, unauthorizedResponse request.id)
      else
        (if request.op = .batch then
          handleBatch X c (handle X c) s ses.recordRequest request.params
        else execute X c s ses.recordRequest request.op request.params).map
          fun (s, ses, answer) => (s, ses, responseOf X request.id answer) := by
  have same := handleBatch_congr (X := X) (c := c) (f := handleWithin X c request.params.depth)
    (g := handle X c) request.params
    fun inner hin s ses => handleWithin_stable hin (Nat.lt_succ_self _) s ses
  rw [handle, handleWithin]
  simp only [same]
  rfl

end

end Rstmdb

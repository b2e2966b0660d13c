import Rstmdb.Core.Definition
import Rstmdb.Wal.Contents

/-! The state machine engine: definitions and instances in memory, each change
logged before it is made, and the replay that rebuilds them from the log. -/
namespace Rstmdb
open Json (Value Fields)

inductive InstanceState
  | active
  | deleted
  deriving DecidableEq, Repr

/-- An instance of a machine, its timestamps left out. -/
structure Instance where
  id : String
  machine : String
  version : UInt32
  state : String
  ctx : Value
  instanceState : InstanceState
  lastEventId : Option String
  lastWalOffset : Nat
  deriving Repr

namespace Instance

def new (id machine : String) (version : UInt32) (initialState : String) (initialCtx : Value)
    (walOffset : Nat) : Instance :=
  ⟨id, machine, version, initialState, initialCtx, .active, none, walOffset⟩

def applyTransition (i : Instance) (newState : String) (newCtx : Value) (eventId : Option String)
    (walOffset : Nat) : Instance :=
  { i with state := newState, ctx := newCtx, lastEventId := eventId, lastWalOffset := walOffset }

def softDelete (i : Instance) (walOffset : Nat) : Instance :=
  { i with instanceState := .deleted, lastWalOffset := walOffset }

def isDeleted (i : Instance) : Bool := i.instanceState == .deleted

end Instance

structure ApplyResult where
  fromState : String
  toState : String
  ctx : Value
  walOffset : Nat
  sequence : UInt64
  applied : Bool
  deriving Repr

/-- The part of the engine that a replay rebuilds. -/
structure Memory where
  definitions : Table (String × UInt32) MachineDefinition
  instances : Table String Instance

namespace Memory

def empty : Memory := ⟨∅, ∅⟩

def setDefinition (m : Memory) (key : String × UInt32) (d : MachineDefinition) : Memory :=
  { m with definitions := m.definitions.insert key d }

def setInstance (m : Memory) (id : String) (i : Instance) : Memory :=
  { m with instances := m.instances.insert id i }

end Memory

structure Engine extends Memory where
  idempotencyCache : Table (String × String) ApplyResult
  wal : Wal

/-! ## Replay -/

/-- What one entry does to the memory. `none` is a panic of the guard parser. -/
def replayEntry (X : CoreExternals) (m : Memory) (offset : Nat) : WalEntry → Option Memory
  | .putMachine machine version _ definition =>
    if definition.isNull then some m
    else if m.definitions.contains (machine, version) then some m
    else
      match MachineDefinition.fromJson X machine version definition with
      | none => none
      | some (.error _) => some m
      | some (.ok d) => some (m.setDefinition (machine, version) d)
  | .createInstance instanceId machine version initialState initialCtx _ =>
    if m.instances.contains instanceId then some m
    else
      some (m.setInstance instanceId
        (.new instanceId machine version initialState initialCtx offset))
  | .applyEvent instanceId _ _ toState _ ctx eventId _ =>
    match m.instances[instanceId]? with
    | none => some m
    | some i =>
      let i := { i with state := toState, ctx, lastWalOffset := offset }
      -- An entry without an event id leaves the last one in place.
      let i := match eventId with
        | some id => { i with lastEventId := some id }
        | none => i
      some (m.setInstance instanceId i)
  | .deleteInstance instanceId _ =>
    match m.instances[instanceId]? with
    | none => some m
    | some i =>
      let i := { i with instanceState := .deleted, lastWalOffset := offset }
      some (m.setInstance instanceId i)
  | .snapshot .. => some m
  | .checkpoint _ => some m

/-- The loop of `replay_wal`. -/
def replayEntries (X : CoreExternals) : Memory → List ReadEntry → Option Memory
  | m, [] => some m
  | m, (_, offset, entry) :: es =>
    match replayEntry X m offset.asU64 entry with
    | none => none
    | some m => replayEntries X m es

namespace Engine

/-- `with_wal`: an empty engine over the log, and then the replay. -/
def withWal (X : CoreExternals) (wal : Wal) : Option (Except CoreError Engine) :=
  match wal.readFrom X.toExternals ⟨0⟩ none with
  | none => none
  | some (_, .error e) => some (.error (.wal e))
  | some (wal, .ok entries) =>
    match replayEntries X .empty entries with
    | none => none
    | some m => some (.ok { m with idempotencyCache := ∅, wal })

def new (X : CoreExternals) (config : WalConfig) (dir : Dir) : Option (Except CoreError Engine) :=
  match Wal.openDir X.toExternals config dir with
  | .error e => some (.error (.wal e))
  | .ok wal => withWal X wal

/-! ## Definitions -/

/-- `self.wal.append(&entry)?` -/
def append (X : CoreExternals) (s : Engine) (entry : WalEntry) :
    Option (Engine × Except CoreError (UInt64 × WalOffset)) :=
  match s.wal.append X.toExternals entry with
  | none => none
  | some (wal, .error e) => some ({ s with wal }, .error (.wal e))
  | some (wal, .ok r) => some ({ s with wal }, .ok r)

def getMachine (s : Engine) (name : String) (version : UInt32) :
    Except CoreError MachineDefinition :=
  match s.definitions[(name, version)]? with
  | some d => .ok d
  | none => .error (.machineVersionNotFound name version)

/-- Registers a definition: its checksum, and whether it is new. -/
def putMachine (X : CoreExternals) (s : Engine) (name : String) (version : UInt32)
    (definitionJson : Value) : Option (Engine × Except CoreError (String × Bool)) :=
  match s.definitions[(name, version)]? with
  | some existing =>
    match MachineDefinition.fromJson X name version definitionJson with
    | none => none
    | some (.error e) => some (s, .error e)
    | some (.ok newDef) =>
      if existing.checksum = newDef.checksum then some (s, .ok (existing.checksum, false))
      else some (s, .error (.machineVersionExists name version))
  | none =>
    match MachineDefinition.fromJson X name version definitionJson with
    | none => none
    | some (.error e) => some (s, .error e)
    | some (.ok definition) =>
      match s.append X (.putMachine name version definition.checksum definitionJson) with
      | none => none
      | some (s, .error e) => some (s, .error e)
      | some (s, .ok _) =>
        some ({ s with definitions := s.definitions.insert (name, version) definition },
          .ok (definition.checksum, true))

/-! ## Instances -/

/-- The instance that a creation under a key already seen returns. -/
def createdBefore (s : Engine) (instanceId : String) (idempotencyKey : Option String) :
    Option Instance :=
  match idempotencyKey with
  | none => none
  | some key =>
    if s.idempotencyCache.contains (instanceId, key) then s.instances[instanceId]? else none

/-- Creates an instance. The number is the sequence of its record, or the last
offset of an instance that is there already. -/
def createInstance (X : CoreExternals) (s : Engine) (instanceId machine : String)
    (version : UInt32) (initialCtx : Value) (idempotencyKey : Option String) :
    Option (Engine × Except CoreError (Instance × Nat)) :=
  match s.createdBefore instanceId idempotencyKey with
  | some i => some (s, .ok (i, i.lastWalOffset))
  | none =>
    if s.instances.contains instanceId then some (s, .error (.instanceExists instanceId))
    else
      match s.getMachine machine version with
      | .error e => some (s, .error e)
      | .ok definition =>
        match s.append X (.createInstance instanceId machine version definition.initial
            initialCtx idempotencyKey) with
        | none => none
        | some (s, .error e) => some (s, .error e)
        | some (s, .ok (sequence, offset)) =>
          let i := Instance.new instanceId machine version definition.initial initialCtx
            offset.asU64
          some ({ s with instances := s.instances.insert instanceId i },
            .ok (i, sequence.toNat))

def getInstance (s : Engine) (instanceId : String) : Except CoreError Instance :=
  match s.instances[instanceId]? with
  | some i => .ok i
  | none => .error (.instanceNotFound instanceId)

end Engine

/-- Merges an object payload into an object context, key by key. -/
def mergeCtx : Value → Value → Value
  | .object ctx, .object payload =>
    .object (payload.foldl (fun result p => Fields.insert p.1 p.2 result) ctx)
  | ctx, _ => ctx

/-- The arguments of `apply_event`. -/
structure EventRequest where
  instanceId : String
  event : String
  payload : Value
  expectedState : Option String
  expectedWalOffset : Option Nat
  eventId : Option String
  idempotencyKey : Option String

/-- The pair under which the request's result is cached. -/
def EventRequest.eventKey (r : EventRequest) : Option (String × String) :=
  r.idempotencyKey.map fun key => (r.instanceId, key)

namespace Engine

/-- The idempotency lookup. -/
def cachedResult (s : Engine) (instanceId : String) (idempotencyKey : Option String) :
    Option ApplyResult :=
  match idempotencyKey with
  | none => none
  | some key => s.idempotencyCache[(instanceId, key)]?

def checkExpectedState (i : Instance) : Option String → Except CoreError Unit
  | none => .ok ()
  | some expected =>
    if i.state ≠ expected then .error (.stateConflict expected i.state) else .ok ()

def checkExpectedWalOffset (i : Instance) : Option Nat → Except CoreError Unit
  | none => .ok ()
  | some expected =>
    if i.lastWalOffset ≠ expected then .error (.walOffsetConflict expected i.lastWalOffset)
    else .ok ()

/-- The checks made on an instance before anything is logged: the state the
event leads to. -/
def targetOf (s : Engine) (r : EventRequest) (i : Instance) : Except CoreError String := do
  checkExpectedState i r.expectedState
  checkExpectedWalOffset i r.expectedWalOffset
  let definition ← s.getMachine i.machine i.version
  match definition.getTransition i.state r.event with
  | none => throw (.invalidTransition i.state r.event)
  | some (toState, guard) =>
    if evaluateOpt guard i.ctx then return toState
    else
      throw (.guardFailed ("guard failed for transition '" ++ i.state ++ "' -> '" ++ toState ++
        "' on event '" ++ r.event ++ "'"))

/-- The section of `apply_event` under the instance's write lock: the checks,
the record and the update. -/
def applyLocked (X : CoreExternals) (s : Engine) (r : EventRequest) :
    Option (Engine × Except CoreError ApplyResult) :=
  match s.getInstance r.instanceId with
  | .error e => some (s, .error e)
  | .ok i =>
    match s.targetOf r i with
    | .error e => some (s, .error e)
    | .ok toState =>
      let newCtx := mergeCtx i.ctx r.payload
      match s.append X (.applyEvent r.instanceId r.event i.state toState r.payload newCtx
          r.eventId r.idempotencyKey) with
      | none => none
      | some (s, .error e) => some (s, .error e)
      | some (s, .ok (sequence, offset)) =>
        let i' := i.applyTransition toState newCtx r.eventId offset.asU64
        some ({ s with instances := s.instances.insert r.instanceId i' },
          .ok ⟨i.state, toState, newCtx, offset.asU64, sequence, true⟩)

/-- The insert into the idempotency cache. -/
def cacheResult (s : Engine) (instanceId : String) (idempotencyKey : Option String)
    (result : ApplyResult) : Engine :=
  match idempotencyKey with
  | none => s
  | some key =>
    { s with idempotencyCache := s.idempotencyCache.insert (instanceId, key) result }

def applyEvent (X : CoreExternals) (s : Engine) (r : EventRequest) :
    Option (Engine × Except CoreError ApplyResult) :=
  match s.cachedResult r.instanceId r.idempotencyKey with
  | some result => some (s, .ok result)
  | none =>
    match s.applyLocked X r with
    | none => none
    | some (s, .error e) => some (s, .error e)
    | some (s, .ok result) =>
      some (s.cacheResult r.instanceId r.idempotencyKey result, .ok result)

/-- Soft deletion; deleting a deleted instance succeeds again. -/
def deleteInstance (X : CoreExternals) (s : Engine) (instanceId : String)
    (idempotencyKey : Option String) : Option (Engine × Except CoreError Nat) :=
  match s.getInstance instanceId with
  | .error e => some (s, .error e)
  | .ok i =>
    if i.isDeleted then some (s, .ok i.lastWalOffset)
    else
      match s.append X (.deleteInstance instanceId idempotencyKey) with
      | none => none
      | some (s, .error e) => some (s, .error e)
      | some (s, .ok (_, offset)) =>
        let i' := i.softDelete offset.asU64
        some ({ s with instances := s.instances.insert instanceId i' }, .ok offset.asU64)

/-- The instances that are not deleted. -/
def getAllInstances (s : Engine) : List Instance :=
  s.instances.values.filter fun i => !i.isDeleted

end Engine

/-! ## What a call can do -/

/-- How an entry that a call logs at an offset changes the memory. -/
inductive Changes (X : CoreExternals) (m : Memory) (offset : Nat) : WalEntry → Memory → Prop
  | putMachine {name : String} {version : UInt32} {json : Value} {d : MachineDefinition}
      (absent : m.definitions[(name, version)]? = none)
      (valid : MachineDefinition.fromJson X name version json = some (.ok d)) :
      Changes X m offset (.putMachine name version d.checksum json)
        (m.setDefinition (name, version) d)
  | createInstance {id machine : String} {version : UInt32} {ctx : Value} {key : Option String}
      {d : MachineDefinition} (absent : m.instances[id]? = none)
      (defined : m.definitions[(machine, version)]? = some d) :
      Changes X m offset (.createInstance id machine version d.initial ctx key)
        (m.setInstance id (.new id machine version d.initial ctx offset))
  | applyEvent {id event toState : String} {payload : Value} {eventId key : Option String}
      {i : Instance} {d : MachineDefinition} {guard : Option GuardExpr}
      (present : m.instances[id]? = some i)
      (defined : m.definitions[(i.machine, i.version)]? = some d)
      (transition : d.getTransition i.state event = some (toState, guard))
      (opened : evaluateOpt guard i.ctx = true) :
      Changes X m offset
        (.applyEvent id event i.state toState payload (mergeCtx i.ctx payload) eventId key)
        (m.setInstance id (i.applyTransition toState (mergeCtx i.ctx payload) eventId offset))
  | deleteInstance {id : String} {key : Option String} {i : Instance}
      (present : m.instances[id]? = some i) (alive : i.isDeleted = false) :
      Changes X m offset (.deleteInstance id key)
        (m.setInstance id (i.softDelete offset))

/-- An entry that is no event on an instance leaves it, or deletes it. -/
theorem Changes.instance_kept {X : CoreExternals} {m m' : Memory} {offset : Nat}
    {entry : WalEntry} (h : Changes X m offset entry m') {id : String} {i : Instance}
    (hi : m.instances[id]? = some i)
    (other : entry.entryType ≠ .applyEvent ∨ entry.instanceId ≠ some id) :
    m'.instances[id]? = some i ∨
      entry.entryType = .deleteInstance ∧ i.isDeleted = false ∧
        m'.instances[id]? = some (i.softDelete offset) := by
  cases h with
  | putMachine => exact .inl hi
  | @createInstance id' _ _ _ _ _ absent =>
    have hne : id ≠ id' := by
      rintro rfl
      simp [absent] at hi
    exact .inl ((Table.getElem?_insert_ne hne).trans hi)
  | @applyEvent id' =>
    have hne : id ≠ id' := by
      rintro rfl
      simp [WalEntry.entryType, WalEntry.instanceId] at other
    exact .inl ((Table.getElem?_insert_ne hne).trans hi)
  | @deleteInstance id' _ i' present alive =>
    by_cases hid : id = id'
    · subst hid
      rw [hi] at present
      cases present
      exact .inr ⟨rfl, alive, by simp [Memory.setInstance]⟩
    · exact .inl ((Table.getElem?_insert_ne hid).trans hi)

/-- The result that `apply_event` returns for its entry. -/
def WalEntry.resultAt (seq : UInt64) (off : WalOffset) : WalEntry → Option ApplyResult
  | .applyEvent _ _ fromState toState _ ctx _ _ =>
    some ⟨fromState, toState, ctx, off.asU64, seq, true⟩
  | _ => none

/-- The pair under which an event's result is cached. -/
def WalEntry.eventKey : WalEntry → Option (String × String)
  | .applyEvent id _ _ _ _ _ _ (some key) => some (id, key)
  | _ => none

/-- The cache after an entry. Only events enter it. -/
def cacheAfter (cache : Table (String × String) ApplyResult) (seq : UInt64) (off : WalOffset)
    (entry : WalEntry) : Table (String × String) ApplyResult :=
  match entry.eventKey, entry.resultAt seq off with
  | some pair, some result => cache.insert pair result
  | _, _ => cache

namespace Engine

/-- All that a call of the engine can do: nothing, a failed append, or one entry that
meets `p`, with its change. -/
inductive Logs (X : CoreExternals) (p : WalEntry → Prop) (s : Engine) : Engine → Prop
  | kept : Logs X p s s
  | refused {entry : WalEntry} {wal : Wal} {e : WalError}
      (failed : s.wal.append X.toExternals entry = some (wal, .error e)) :
      Logs X p s { s with wal }
  | logged {entry : WalEntry} {wal : Wal} {seq : UInt64} {off : WalOffset} {m : Memory}
      (appended : s.wal.append X.toExternals entry = some (wal, .ok (seq, off)))
      (changes : Changes X s.toMemory off.asU64 entry m) (meets : p entry) :
      Logs X p s ⟨m, cacheAfter s.idempotencyCache seq off entry, wal⟩

section
variable {X : CoreExternals} {s s' : Engine}

variable {p : WalEntry → Prop} {e : CoreError} {name : String} {u : Unit} {seq : UInt64}
  {off : WalOffset}

theorem Logs.imp {q : WalEntry → Prop} (hp : ∀ entry, p entry → q entry) (h : Logs X p s s') :
    Logs X q s s' := by
  cases h with
  | kept => exact .kept
  | refused failed => exact .refused failed
  | logged appended changes meets => exact .logged appended changes (hp _ meets)

variable {entry : WalEntry} {version : UInt32} {id : String} {i : Instance} {key : Option String}
  {r : EventRequest} {a : ApplyResult} {res : Except CoreError ApplyResult}

theorem append_error (h : s.append X entry = some (s', .error e)) :
    ∃ wal e', s.wal.append X.toExternals entry = some (wal, .error e') ∧ s' = { s with wal } := by
  unfold append at h
  split at h <;> cases h
  rename_i wal e' ha
  exact ⟨wal, e', ha, rfl⟩

theorem append_ok {r : UInt64 × WalOffset} (h : s.append X entry = some (s', .ok r)) :
    ∃ wal, s.wal.append X.toExternals entry = some (wal, .ok r) ∧ s' = { s with wal } := by
  unfold append at h
  split at h <;> cases h
  rename_i wal ha
  exact ⟨wal, ha, rfl⟩

theorem getMachine_ok {d : MachineDefinition} (h : s.getMachine name version = .ok d) :
    s.definitions[(name, version)]? = some d := by
  unfold getMachine at h
  split at h <;> cases h
  assumption

theorem getInstance_ok (h : s.getInstance id = .ok i) : s.instances[id]? = some i := by
  unfold getInstance at h
  split at h <;> cases h
  assumption

theorem logs_putMachine {json : Value} {res : Except CoreError (String × Bool)}
    (h : s.putMachine X name version json = some (s', res)) :
    Logs X (·.entryType = .putMachine) s s' := by
  unfold putMachine at h
  split at h
  · -- A version that exists is compared and never changed.
    split at h
    · cases h
    · cases h
      exact .kept
    · split at h <;> cases h <;> exact .kept
  · rename_i habsent
    split at h
    · cases h
    · cases h
      exact .kept
    · rename_i d hvalid
      split at h
      · cases h
      · rename_i s₁ e ha
        cases h
        obtain ⟨wal, e, hw, rfl⟩ := append_error ha
        exact .refused hw
      · rename_i s₁ r ha
        cases h
        obtain ⟨wal, hw, rfl⟩ := append_ok ha
        exact .logged hw (.putMachine habsent hvalid) rfl

theorem logs_createInstance {machine : String} {ctx : Value}
    {res : Except CoreError (Instance × Nat)}
    (h : s.createInstance X id machine version ctx key = some (s', res)) :
    Logs X (fun entry => entry.entryType = .createInstance ∧ entry.instanceId = some id) s s' := by
  unfold createInstance at h
  split at h
  · cases h
    exact .kept
  split at h
  · cases h
    exact .kept
  rename_i hnew
  have habsent : s.instances[id]? = none := by simpa using hnew
  split at h
  · cases h
    exact .kept
  rename_i d hd
  split at h
  · cases h
  · rename_i s₁ e ha
    cases h
    obtain ⟨wal, e, hw, rfl⟩ := append_error ha
    exact .refused hw
  · rename_i s₁ seq off ha
    cases h
    obtain ⟨wal, hw, rfl⟩ := append_ok ha
    exact .logged hw (.createInstance habsent (getMachine_ok hd)) ⟨rfl, rfl⟩

theorem logs_deleteInstance {res : Except CoreError Nat}
    (h : s.deleteInstance X id key = some (s', res)) :
    Logs X (fun entry => entry.entryType = .deleteInstance ∧ entry.instanceId = some id) s s' := by
  unfold deleteInstance at h
  split at h
  · cases h
    exact .kept
  rename_i i hi
  split at h
  · cases h
    exact .kept
  rename_i halive
  split at h
  · cases h
  · rename_i s₁ e ha
    cases h
    obtain ⟨wal, e, hw, rfl⟩ := append_error ha
    exact .refused hw
  · rename_i s₁ seq off ha
    cases h
    obtain ⟨wal, hw, rfl⟩ := append_ok ha
    exact .logged hw (.deleteInstance (getInstance_ok hi) (Bool.eq_false_iff.mpr halive))
      ⟨rfl, rfl⟩

/-- Only events are cached. -/
theorem eventKey_of_entryType (h : entry.entryType ≠ .applyEvent) : entry.eventKey = none := by
  cases entry <;> first | rfl | exact absurd rfl h

theorem checkExpectedState_ok {o : Option String} (h : checkExpectedState i o = .ok u) :
    ∀ expected ∈ o, i.state = expected := by
  rintro expected rfl
  unfold checkExpectedState at h
  by_contra hne
  simp [hne] at h

theorem checkExpectedWalOffset_ok {o : Option Nat} (h : checkExpectedWalOffset i o = .ok u) :
    ∀ expected ∈ o, i.lastWalOffset = expected := by
  rintro expected rfl
  unfold checkExpectedWalOffset at h
  by_contra hne
  simp [hne] at h

theorem targetOf_ok {toState : String} (h : s.targetOf r i = .ok toState) :
    (∀ expected ∈ r.expectedState, i.state = expected) ∧
      (∀ expected ∈ r.expectedWalOffset, i.lastWalOffset = expected) ∧
      ∃ d guard, s.definitions[(i.machine, i.version)]? = some d ∧
        d.getTransition i.state r.event = some (toState, guard) ∧
        evaluateOpt guard i.ctx = true := by
  unfold targetOf at h
  cases hs : checkExpectedState i r.expectedState with
  | error e => simp [hs, bind, Except.bind] at h
  | ok _ =>
    cases ho : checkExpectedWalOffset i r.expectedWalOffset with
    | error e => simp [hs, ho, bind, Except.bind] at h
    | ok _ =>
      cases hd : s.getMachine i.machine i.version with
      | error e => simp [hs, ho, hd, bind, Except.bind] at h
      | ok d =>
        simp only [hs, ho, hd, bind, Except.bind] at h
        split at h
        · cases h
        rename_i target guard ht
        split at h
        · rename_i hopen
          cases h
          exact ⟨checkExpectedState_ok hs, checkExpectedWalOffset_ok ho, d, guard,
            getMachine_ok hd, ht, hopen⟩
        · cases h

/-- The section under the instance lock when it succeeds: what it logs and how the
instance moves. -/
theorem applyLocked_ok (h : s.applyLocked X r = some (s', .ok a)) :
    ∃ i toState wal seq off, s.instances[r.instanceId]? = some i ∧
      s.targetOf r i = .ok toState ∧
      s.wal.append X.toExternals (.applyEvent r.instanceId r.event i.state toState r.payload
        (mergeCtx i.ctx r.payload) r.eventId r.idempotencyKey) = some (wal, .ok (seq, off)) ∧
      s' = { s with
        wal, instances := s.instances.insert r.instanceId
          (i.applyTransition toState (mergeCtx i.ctx r.payload) r.eventId off.asU64) } ∧
      a = ⟨i.state, toState, mergeCtx i.ctx r.payload, off.asU64, seq, true⟩ := by
  unfold applyLocked at h
  split at h
  · cases h
  rename_i i hi
  split at h
  · cases h
  rename_i toState ht
  dsimp only at h
  split at h
  · cases h
  · cases h
  · rename_i s₁ seq off ha
    cases h
    obtain ⟨wal, hw, rfl⟩ := append_ok ha
    exact ⟨i, toState, wal, seq, off, getInstance_ok hi, ht, hw, rfl, rfl⟩

theorem applyEvent_rejected (hc : s.cachedResult r.instanceId r.idempotencyKey = none)
    (hi : s.instances[r.instanceId]? = some i) (ht : s.targetOf r i = .error e) :
    s.applyEvent X r = some (s, .error e) := by
  have hget : s.getInstance r.instanceId = .ok i := by simp [getInstance, hi]
  simp only [applyEvent, hc, applyLocked, hget, ht]

theorem deleteInstance_ok {offset : Nat} (h : s.deleteInstance X id key = some (s', .ok offset)) :
    ∃ i, s'.instances[id]? = some i ∧ i.isDeleted = true := by
  unfold deleteInstance at h
  split at h
  · cases h
  rename_i i hi
  split at h
  · rename_i hd
    cases h
    exact ⟨i, getInstance_ok hi, hd⟩
  split at h
  · cases h
  · cases h
  · rename_i s₁ seq off ha
    cases h
    exact ⟨i.softDelete off.asU64, by simp, rfl⟩

/-- What the section under the instance lock can do. -/
inductive Applied (X : CoreExternals) (s : Engine) (r : EventRequest) :
    Engine → Except CoreError ApplyResult → Prop
  | rejected {e : CoreError} : Applied X s r s (.error e)
  | refused {entry : WalEntry} {wal : Wal} {e : WalError} {e' : CoreError}
      (failed : s.wal.append X.toExternals entry = some (wal, .error e)) :
      Applied X s r { s with wal } (.error e')
  | logged {entry : WalEntry} {wal : Wal} {seq : UInt64} {off : WalOffset} {m : Memory}
      {a : ApplyResult}
      (appended : s.wal.append X.toExternals entry = some (wal, .ok (seq, off)))
      (changes : Changes X s.toMemory off.asU64 entry m)
      (key : entry.eventKey = r.eventKey) (id : entry.instanceId = some r.instanceId)
      (result : entry.resultAt seq off = some a) :
      Applied X s r ⟨m, s.idempotencyCache, wal⟩ (.ok a)

theorem applied_of_applyLocked (h : s.applyLocked X r = some (s', res)) : Applied X s r s' res := by
  unfold applyLocked at h
  split at h
  · cases h
    exact .rejected
  rename_i i hi
  split at h
  · cases h
    exact .rejected
  rename_i toState ht
  dsimp only at h
  split at h
  · cases h
  · rename_i s₁ e ha
    cases h
    obtain ⟨wal, e, hw, rfl⟩ := append_error ha
    exact .refused hw
  · rename_i s₁ seq off ha
    cases h
    obtain ⟨wal, hw, rfl⟩ := append_ok ha
    obtain ⟨-, -, d, guard, hd, hg, hopen⟩ := targetOf_ok ht
    refine .logged hw (.applyEvent (getInstance_ok hi) hd hg hopen) ?_ rfl rfl
    unfold EventRequest.eventKey
    cases r.idempotencyKey <;> rfl

/-- A call answers from the cache, or works under the lock and caches its result. -/
theorem applyEvent_cases (h : s.applyEvent X r = some (s', res)) :
    (∃ a, s.cachedResult r.instanceId r.idempotencyKey = some a ∧ s' = s ∧ res = .ok a) ∨
      s.cachedResult r.instanceId r.idempotencyKey = none ∧
        ∃ s₁, Applied X s r s₁ res ∧
          ((∃ e, res = .error e ∧ s' = s₁) ∨
            ∃ a, res = .ok a ∧ s' = s₁.cacheResult r.instanceId r.idempotencyKey a) := by
  unfold applyEvent at h
  split at h
  · rename_i a hc
    cases h
    exact .inl ⟨a, hc, rfl, rfl⟩
  rename_i hc
  refine .inr ⟨hc, ?_⟩
  split at h
  · cases h
  · rename_i s₁ e ha
    cases h
    exact ⟨s', applied_of_applyLocked ha, .inl ⟨e, rfl, rfl⟩⟩
  · rename_i s₁ a ha
    cases h
    exact ⟨s₁, applied_of_applyLocked ha, .inr ⟨a, rfl, rfl⟩⟩

theorem cacheResult_eq {m : Memory} {wal : Wal} {cache : Table (String × String) ApplyResult}
    (key : entry.eventKey = r.eventKey) (result : entry.resultAt seq off = some a) :
    (⟨m, cache, wal⟩ : Engine).cacheResult r.instanceId r.idempotencyKey a =
      ⟨m, cacheAfter cache seq off entry, wal⟩ := by
  unfold cacheAfter
  rw [key, result]
  unfold cacheResult EventRequest.eventKey
  cases r.idempotencyKey <;> rfl

theorem entryType_of_resultAt (h : entry.resultAt seq off = some a) :
    entry.entryType = .applyEvent := by
  cases entry <;> first | rfl | cases h

theorem logs_applyEvent (h : s.applyEvent X r = some (s', res)) :
    Logs X (fun entry => entry.entryType = .applyEvent ∧ entry.instanceId = some r.instanceId ∧
      entry.eventKey = r.eventKey) s s' := by
  obtain ⟨-, -, rfl, -⟩ | ⟨-, s₁, ha, hend⟩ := applyEvent_cases h
  · exact .kept
  · cases ha with
    | rejected =>
      obtain ⟨-, -, rfl⟩ | ⟨_, hok, -⟩ := hend
      · exact .kept
      · cases hok
    | refused failed =>
      obtain ⟨-, -, rfl⟩ | ⟨_, hok, -⟩ := hend
      · exact .refused failed
      · cases hok
    | logged appended changes key id result =>
      obtain ⟨_, herr, -⟩ | ⟨a, hok, rfl⟩ := hend
      · cases herr
      · cases hok
        rw [cacheResult_eq key result]
        exact .logged appended changes ⟨entryType_of_resultAt result, id, key⟩

end

end Engine

end Rstmdb

import Rstmdb.Core.Replay
import Rstmdb.Lib.Interleave
import Rstmdb.Wal.Concurrent

/-! Calls of the engine from many threads. A call looks, logs and stores in separate
steps. Events and deletions do this under the write lock of their instance, which also
keeps a creation from storing under its id; creations and machines have no such lock. -/
namespace Rstmdb
open Json (Value)

/-! ## The log between two steps of a call -/

/-- How an append goes: a call of it as it stands between two atomic steps. -/
structure LogSteps where
  State : Type
  start : Wal → WalEntry → State
  next : Wal → State → Option (Wal × (State ⊕ Except WalError (UInt64 × WalOffset)))

/-- The append as one step. -/
def wholeAppend (X : Externals) : LogSteps where
  State := WalEntry
  start _ entry := entry
  next wal entry := (wal.append X entry).map fun (wal, r) => (wal, .inr r)

/-- The append step by step, with those of other threads in between. -/
def steppedAppend (X : Externals) : LogSteps where
  State := AppendCall
  start wal entry := AppendCall.start ⟨wal, []⟩ entry
  next wal call :=
    match call.pc with
    | .done r => some (wal, .inr r)
    | _ => (call.next X ⟨wal, []⟩).map fun (s, call) => (s.wal, .inl call)

/-! ## Calls -/

inductive EngineCall
  | putMachine (name : String) (version : UInt32) (definitionJson : Value)
  | createInstance (instanceId machine : String) (version : UInt32) (initialCtx : Value)
      (idempotencyKey : Option String)
  | applyEvent (request : EventRequest)
  | deleteInstance (instanceId : String) (idempotencyKey : Option String)

inductive CallResult
  | machine (checksum : String) (created : Bool)
  | instance (i : Instance) (number : Nat)
  | applied (a : ApplyResult)
  | deleted (offset : Nat)

/-- What a call has found and is about to log and to store. -/
inductive Pending
  | putMachine (name : String) (version : UInt32) (definitionJson : Value)
      (definition : MachineDefinition)
  | createInstance (instanceId machine : String) (version : UInt32) (initialCtx : Value)
      (idempotencyKey : Option String) (definition : MachineDefinition)
  | applyEvent (request : EventRequest) (i : Instance) (toState : String)
  | deleteInstance (instanceId : String) (idempotencyKey : Option String) (i : Instance)

namespace Pending

def entry : Pending → WalEntry
  | .putMachine name version json d => .putMachine name version d.checksum json
  | .createInstance id machine version ctx key d =>
    .createInstance id machine version d.initial ctx key
  | .applyEvent r i toState =>
    .applyEvent r.instanceId r.event i.state toState r.payload (mergeCtx i.ctx r.payload) r.eventId
      r.idempotencyKey
  | .deleteInstance id key _ => .deleteInstance id key

/-- The instance to be stored, under its id. -/
def instanceAt (offset : WalOffset) : Pending → Option (String × Instance)
  | .putMachine .. => none
  | .createInstance id machine version ctx _ d =>
    some (id, .new id machine version d.initial ctx offset.asU64)
  | .applyEvent r i toState =>
    some (r.instanceId,
      i.applyTransition toState (mergeCtx i.ctx r.payload) r.eventId offset.asU64)
  | .deleteInstance id _ i => some (id, i.softDelete offset.asU64)

def store (s : Engine) (offset : WalOffset) (p : Pending) : Engine :=
  match p, p.instanceAt offset with
  | .putMachine name version _ d, _ =>
    { s with definitions := s.definitions.insert (name, version) d }
  | _, some (id, i) => { s with instances := s.instances.insert id i }
  | _, none => s

def result (sequence : UInt64) (offset : WalOffset) : Pending → CallResult
  | .putMachine _ _ _ d => .machine d.checksum true
  | .createInstance id machine version ctx _ d =>
    .instance (.new id machine version d.initial ctx offset.asU64) sequence.toNat
  | .applyEvent r i toState =>
    .applied ⟨i.state, toState, mergeCtx i.ctx r.payload, offset.asU64, sequence, true⟩
  | .deleteInstance .. => .deleted offset.asU64

end Pending

/-- The sequential call. -/
def Engine.perform (X : CoreExternals) (s : Engine) :
    EngineCall → Option (Engine × Except CoreError CallResult)
  | .putMachine name version json =>
    (s.putMachine X name version json).map fun (s, r) => (s, r.map fun p => .machine p.1 p.2)
  | .createInstance id machine version ctx key =>
    (s.createInstance X id machine version ctx key).map fun (s, r) =>
      (s, r.map fun p => .instance p.1 p.2)
  | .applyEvent request => (s.applyEvent X request).map fun (s, r) => (s, r.map .applied)
  | .deleteInstance id key => (s.deleteInstance X id key).map fun (s, r) => (s, r.map .deleted)

/-! ## Threads -/

/-- Where a call stands between two atomic steps. -/
inductive CallPc (σ : Type)
  | started
  /-- The idempotency cache had nothing. -/
  | missed
  /-- No instance has the id of the one to be created; next is its definition. -/
  | absent
  /-- The write lock of the instance is held; next are the checks. -/
  | locked
  | logging (p : Pending) (l : σ)
  /-- The entry is in the log; next is the store. -/
  | logged (p : Pending) (sequence : UInt64) (offset : WalOffset)
  /-- The event is applied and the lock still held; next is the cache. -/
  | caching (a : ApplyResult)
  | done (r : Except CoreError CallResult)

def CallPc.isDone {σ : Type} : CallPc σ → Bool
  | .done _ => true
  | _ => false

structure EngineThread (L : LogSteps) where
  call : EngineCall
  pc : CallPc L.State

/-- The engine, the ids whose write lock is held, and what has been appended. -/
structure ThreadedEngine where
  engine : Engine
  locks : List String
  appended : List ReadEntry

namespace ThreadedEngine

def lock (s : ThreadedEngine) (id : String) : ThreadedEngine := { s with locks := id :: s.locks }

def unlock (s : ThreadedEngine) (id : String) : ThreadedEngine :=
  { s with locks := s.locks.filter (· ≠ id) }

def setWal (s : ThreadedEngine) (wal : Wal) : ThreadedEngine :=
  { s with engine := { s.engine with wal } }

def setEngine (s : ThreadedEngine) (engine : Engine) : ThreadedEngine := { s with engine }

end ThreadedEngine

/-- The instance whose write lock the call takes. -/
def EngineCall.lockOn : EngineCall → Option String
  | .applyEvent r => some r.instanceId
  | .deleteInstance id _ => some id
  | _ => none

/-- The write lock is given up when the call ends. -/
def ThreadedEngine.release (s : ThreadedEngine) (call : EngineCall) : ThreadedEngine :=
  match call.lockOn with
  | some id => s.unlock id
  | none => s

@[simp] theorem ThreadedEngine.release_engine (s : ThreadedEngine) (call : EngineCall) :
    (s.release call).engine = s.engine := by
  unfold release
  split <;> rfl

section
variable (X : CoreExternals) (L : LogSteps) (s : ThreadedEngine)

/-- The next is the append of the entry. -/
def CallPc.log (p : Pending) : CallPc L.State := .logging p (L.start s.engine.wal p.entry)

/-- The write lock, if the instance is there; the call waits for it. -/
def acquire (id : String) : Option (ThreadedEngine × CallPc L.State) :=
  match s.engine.getInstance id with
  | .error e => some (s, .done (.error e))
  | .ok _ => if id ∈ s.locks then none else some (s.lock id, .locked)

/-- The first look: for a machine the definition under its key, for a deletion the
instance, for the others the idempotency cache. -/
def EngineCall.begin : EngineCall → Option (ThreadedEngine × CallPc L.State)
  | .putMachine name version json =>
    match s.engine.definitions[(name, version)]?,
      MachineDefinition.fromJson X name version json with
    | _, none => none
    | _, some (.error e) => some (s, .done (.error e))
    | some existing, some (.ok newDef) =>
      if existing.checksum = newDef.checksum then
        some (s, .done (.ok (.machine existing.checksum false)))
      else some (s, .done (.error (.machineVersionExists name version)))
    | none, some (.ok d) => some (s, .log L s (.putMachine name version json d))
  | .createInstance id _ _ _ key =>
    match s.engine.createdBefore id key with
    | some i => if id ∈ s.locks then none else some (s, .done (.ok (.instance i i.lastWalOffset)))
    | none => some (s, .missed)
  | .applyEvent r =>
    match s.engine.cachedResult r.instanceId r.idempotencyKey with
    | some a => some (s, .done (.ok (.applied a)))
    | none => some (s, .missed)
  | .deleteInstance id _ => acquire L s id

/-- After the cache: the existence check of a creation, the lock of an event. -/
def EngineCall.enter : EngineCall → Option (ThreadedEngine × CallPc L.State)
  | .createInstance id _ _ _ _ =>
    if s.engine.instances.contains id then some (s, .done (.error (.instanceExists id)))
    else some (s, .absent)
  | .applyEvent r => acquire L s r.instanceId
  | _ => none

def EngineCall.define : EngineCall → Option (ThreadedEngine × CallPc L.State)
  | .createInstance id machine version ctx key =>
    match s.engine.getMachine machine version with
    | .error e => some (s, .done (.error e))
    | .ok d => some (s, .log L s (.createInstance id machine version ctx key d))
  | _ => none

/-- The checks under the lock. -/
def EngineCall.check : EngineCall → Option (ThreadedEngine × CallPc L.State)
  | .applyEvent r =>
    match s.engine.getInstance r.instanceId with
    | .error e => some (s.unlock r.instanceId, .done (.error e))
    | .ok i =>
      match s.engine.targetOf r i with
      | .error e => some (s.unlock r.instanceId, .done (.error e))
      | .ok toState => some (s, .log L s (.applyEvent r i toState))
  | .deleteInstance id key =>
    match s.engine.getInstance id with
    | .error e => some (s.unlock id, .done (.error e))
    | .ok i =>
      if i.isDeleted then some (s.unlock id, .done (.ok (.deleted i.lastWalOffset)))
      else some (s, .log L s (.deleteInstance id key i))
  | _ => none

/-- A step of the append. -/
def EngineCall.append (call : EngineCall) (p : Pending) (l : L.State) :
    Option (ThreadedEngine × CallPc L.State) :=
  match L.next s.engine.wal l with
  | none => none
  | some (wal, .inl l) => some (s.setWal wal, .logging p l)
  | some (wal, .inr (.error e)) => some ((s.setWal wal).release call, .done (.error (.wal e)))
  | some (wal, .inr (.ok (seq, off))) =>
    some ({ s.setWal wal with appended := s.appended ++ [(seq, off, p.entry)] }, .logged p seq off)

/-- The store. A creation waits while the entry of its id is in use. -/
def EngineCall.store (call : EngineCall) (p : Pending) (seq : UInt64) (off : WalOffset) :
    Option (ThreadedEngine × CallPc L.State) :=
  let s' := s.setEngine (p.store s.engine off)
  match p, p.result seq off with
  | .createInstance id _ _ _ _ _, r => if id ∈ s.locks then none else some (s', .done (.ok r))
  | .applyEvent .., .applied a => some (s', .caching a)
  | _, r => some (s'.release call, .done (.ok r))

def EngineCall.cache (call : EngineCall) (a : ApplyResult) :
    Option (ThreadedEngine × CallPc L.State) :=
  match call with
  | .applyEvent r =>
    some ((s.setEngine (s.engine.cacheResult r.instanceId r.idempotencyKey a)).unlock r.instanceId,
      .done (.ok (.applied a)))
  | _ => none

/-- The next atomic step of a call; `none` if it has to wait. -/
def EngineCall.next (call : EngineCall) : CallPc L.State → Option (ThreadedEngine × CallPc L.State)
  | .started => call.begin X L s
  | .missed => call.enter L s
  | .absent => call.define L s
  | .locked => call.check L s
  | .logging p l => call.append L s p l
  | .logged p seq off => call.store L s p seq off
  | .caching a => call.cache L s a
  | .done _ => none

end

def EngineThread.next (X : CoreExternals) (L : LogSteps) (s : ThreadedEngine) (t : EngineThread L) :
    Option (ThreadedEngine × EngineThread L) :=
  (t.call.next X L s t.pc).map fun (s, pc) => (s, { t with pc })

/-- The atomic steps of concurrent calls, in any order. -/
def engineSched (X : CoreExternals) (L : LogSteps) :
    ThreadedEngine × List (EngineThread L) → Sched EngineCall →
      Option (ThreadedEngine × List (EngineThread L)) :=
  interleave (fun _ call => ⟨call, .started⟩) (EngineThread.next X L)

/-! ## A call alone -/

/-- The append runs to its end with no other step in between. -/
inductive LogSteps.Ends (L : LogSteps) (w' : Wal) (r : Except WalError (UInt64 × WalOffset)) :
    Wal → L.State → Prop
  | last {w : Wal} {l : L.State} (h : L.next w l = some (w', .inr r)) : Ends L w' r w l
  | more {w w₁ : Wal} {l xs : L.State} (h : L.next w l = some (w₁, .inl xs))
      (rest : Ends L w' r w₁ xs) : Ends L w' r w l

/-- An append that nothing comes between does what the sequential `append` does. -/
def LogSteps.Whole (L : LogSteps) (X : Externals) : Prop :=
  ∀ w entry w' r, w.append X entry = some (w', r) → L.Ends w' r w (L.start w entry)

theorem wholeAppend_whole (X : Externals) : (wholeAppend X).Whole X :=
  fun _ _ _ _ h => .last (by simp [wholeAppend, h])

/-- A step of an append does not depend on what others have returned. -/
theorem AppendCall.next_acked {X : Externals} {s s' : SharedLog} {call call' : AppendCall}
    (h : call.next X s = some (s', call')) :
    ∃ acked, call.next X ⟨s.wal, []⟩ = some (⟨s'.wal, acked⟩, call') := by
  have finish {record : WalRecord} (hf : AppendCall.finish s call record = some (s', call')) :
      ∃ acked, AppendCall.finish ⟨s.wal, []⟩ call record = some (⟨s'.wal, acked⟩, call') := by
    unfold AppendCall.finish at hf ⊢
    split at hf <;> cases hf <;> rename_i ha <;> simp [ha]
  unfold AppendCall.next at h ⊢
  split at h
  · cases h
    exact ⟨[], rfl⟩
  · dsimp only
    split at h
    · rename_i hrot
      cases h
      rw [if_pos hrot]
      exact ⟨[], rfl⟩
    · rename_i hfit
      rw [if_neg hfit]
      exact finish h
  · cases h
    exact ⟨[], rfl⟩
  · dsimp only
    split at h <;> cases h <;> exact ⟨[], rfl⟩
  · dsimp only
    split at h <;> cases h <;> exact ⟨[], rfl⟩
  · cases h
    exact ⟨[], rfl⟩
  · exact finish h
  · cases h

theorem steppedAppend_ends {X : Externals} {n : Nat} {s s' : SharedLog} {call call' : AppendCall}
    {r : Except WalError (UInt64 × WalOffset)}
    (h : run (appendSched X) (s, [call]) (List.replicate n (.step 0)) = some (s', [call']))
    (hdone : call'.pc = .done r) : (steppedAppend X).Ends s'.wal r s.wal call := by
  induction n generalizing s call with
  | zero =>
    cases h
    exact .last (by simp only [steppedAppend, hdone])
  | succ n ih =>
    rw [List.replicate_succ, run_cons] at h
    obtain ⟨⟨s₁, ts⟩, hs, hrest⟩ := h
    cases hn : call.next X s with
    | none => simp [appendSched, interleave, hn] at hs
    | some out =>
      obtain ⟨s₂, call₁⟩ := out
      obtain ⟨rfl, rfl⟩ : s₂ = s₁ ∧ [call₁] = ts := by
        simpa [appendSched, interleave, hn] using hs
      obtain ⟨acked, hn'⟩ := AppendCall.next_acked hn
      refine .more ?_ (ih hrest)
      unfold steppedAppend
      dsimp only
      split
      · rename_i hpc
        simp [AppendCall.next, hpc] at hn
      · rw [hn']
        rfl

theorem steppedAppend_whole (X : Externals) : (steppedAppend X).Whole X := by
  intro w entry w' r h
  obtain ⟨n, s', call', hrun, rfl, hdone⟩ := alone_of_append (s := ⟨w, []⟩) h
  exact steppedAppend_ends hrun hdone

section
variable {X : CoreExternals} {L : LogSteps} {s s₁ : ThreadedEngine} {call : EngineCall}
  {pc pc₁ : CallPc L.State} {e e' : Engine} {r : Except CoreError CallResult}

/-- The call runs to its end with no step of another call in between. -/
def EngineCall.Ends (X : CoreExternals) (L : LogSteps) (call : EngineCall) (s : ThreadedEngine)
    (pc : CallPc L.State) (e : Engine) (r : Except CoreError CallResult) : Prop :=
  ∃ n s', run (engineSched X L) (s, [⟨call, pc⟩]) (List.replicate n (.step 0)) =
    some (s', [⟨call, .done r⟩]) ∧ s'.engine = e ∧ s'.locks = []

namespace EngineCall

theorem Ends.step (hn : call.next X L s pc = some (s₁, pc₁)) (h : call.Ends X L s₁ pc₁ e r) :
    call.Ends X L s pc e r := by
  obtain ⟨n, s', hrun, hend⟩ := h
  refine ⟨n + 1, s', ?_, hend⟩
  rw [List.replicate_succ, run_cons]
  simpa [engineSched, interleave, EngineThread.next, hn] using hrun

theorem ends_done (he : s.engine = e) (hl : s.locks = []) : call.Ends X L s (.done r) e r :=
  ⟨0, _, rfl, he, hl⟩

/-- The lock that the call holds, if it takes one, is the only one. -/
theorem release_locks (hl : s.locks = call.lockOn.toList) : (s.release call).locks = [] := by
  unfold ThreadedEngine.release
  split
  · rename_i id hid
    simp [ThreadedEngine.unlock, hl, hid]
  · rename_i hid
    simpa [hid] using hl

theorem ends_logging {p : Pending} {w' : Wal} {res : Except WalError (UInt64 × WalOffset)}
    {w : Wal} {l : L.State} (hl : L.Ends w' res w l) {s : ThreadedEngine} (hw : s.engine.wal = w)
    (hlocks : s.locks = call.lockOn.toList)
    (failed : ∀ err, res = .error err →
      e = { s.engine with wal := w' } ∧ r = .error (.wal err))
    (logged : ∀ seq off, res = .ok (seq, off) → ∀ appended,
      call.Ends X L ⟨{ s.engine with wal := w' }, s.locks, appended⟩ (.logged p seq off) e r) :
    call.Ends X L s (.logging p l) e r := by
  induction hl generalizing s with
  | @last w l h =>
    subst hw
    cases res with
    | error err =>
      obtain ⟨rfl, rfl⟩ := failed err rfl
      have hfree : ((s.setWal w').release call).locks = [] := release_locks hlocks
      exact .step (by simp only [next, append, h])
        (ends_done (ThreadedEngine.release_engine _ _) hfree)
    | ok q =>
      exact .step (by simp only [next, append, h]; rfl) (logged q.1 q.2 rfl _)
  | @more w w₁ l xs h _ ih =>
    subst hw
    exact .step (by simp only [next, append, h]) (ih (s := s.setWal w₁) rfl hlocks failed logged)

variable {p : Pending}

theorem ends_log_error (hL : L.Whole X.toExternals) (hlocks : s.locks = call.lockOn.toList)
    {err : CoreError} (ha : s.engine.append X p.entry = some (e, .error err)) :
    call.Ends X L s (.log L s p) e (.error err) := by
  unfold Engine.append at ha
  split at ha <;> cases ha
  rename_i wal err ha
  refine ends_logging (hL _ _ _ _ ha) rfl hlocks ?_ (by simp)
  rintro _ ⟨⟩
  exact ⟨rfl, rfl⟩

theorem ends_log_ok (hL : L.Whole X.toExternals) (hlocks : s.locks = call.lockOn.toList)
    {seq : UInt64} {off : WalOffset} (ha : s.engine.append X p.entry = some (e', .ok (seq, off)))
    (logged : ∀ appended, call.Ends X L ⟨e', s.locks, appended⟩ (.logged p seq off) e r) :
    call.Ends X L s (.log L s p) e r := by
  unfold Engine.append at ha
  split at ha <;> cases ha
  rename_i wal ha
  refine ends_logging (hL _ _ _ _ ha) rfl hlocks (by simp) ?_
  rintro _ _ ⟨⟩
  exact logged

variable (appended : List ReadEntry)

theorem alone_putMachine (hL : L.Whole X.toExternals) {name : String} {version : UInt32}
    {json : Value} {res : Except CoreError (String × Bool)}
    (h : e.putMachine X name version json = some (e', res)) :
    (putMachine name version json).Ends X L ⟨e, [], appended⟩ .started e'
      (res.map fun p => .machine p.1 p.2) := by
  unfold Engine.putMachine at h
  split at h
  · rename_i existing hd
    split at h
    · cases h
    · rename_i err hj
      cases h
      exact .step (by simp only [next, begin, hd, hj]; rfl) (ends_done rfl rfl)
    · rename_i newDef hj
      split at h <;> cases h <;> rename_i hsum
      · exact .step (by simp only [next, begin, hd, hj, if_pos hsum]; rfl) (ends_done rfl rfl)
      · exact .step (by simp only [next, begin, hd, hj, if_neg hsum]; rfl) (ends_done rfl rfl)
  · rename_i hd
    split at h
    · cases h
    · rename_i err hj
      cases h
      exact .step (by simp only [next, begin, hd, hj]; rfl) (ends_done rfl rfl)
    · rename_i d hj
      refine .step (by simp only [next, begin, hd, hj]; rfl) ?_
      split at h <;> cases h
      · rename_i err ha
        exact ends_log_error hL rfl ha
      · rename_i s₁ q ha
        exact ends_log_ok hL rfl ha fun _ => .step rfl (ends_done rfl rfl)

theorem alone_createInstance (hL : L.Whole X.toExternals) {id machine : String} {version : UInt32}
    {ctx : Value} {key : Option String} {res : Except CoreError (Instance × Nat)}
    (h : e.createInstance X id machine version ctx key = some (e', res)) :
    (createInstance id machine version ctx key).Ends X L ⟨e, [], appended⟩ .started e'
      (res.map fun p => .instance p.1 p.2) := by
  unfold Engine.createInstance at h
  split at h
  · rename_i i hb
    cases h
    exact .step (by simp only [next, begin, hb]; rfl) (ends_done rfl rfl)
  rename_i hb
  refine .step (by simp only [next, begin, hb]; rfl) ?_
  split at h
  · rename_i hin
    cases h
    exact .step (by simp only [next, enter, if_pos hin]; rfl) (ends_done rfl rfl)
  rename_i hin
  refine .step (by simp only [next, enter, if_neg hin]; rfl) ?_
  split at h
  · rename_i err hd
    cases h
    exact .step (by simp only [next, define, hd]; rfl) (ends_done rfl rfl)
  rename_i d hd
  refine .step (by simp only [next, define, hd]; rfl) ?_
  split at h <;> cases h
  · rename_i err ha
    exact ends_log_error hL rfl ha
  · rename_i s₁ seq off ha
    exact ends_log_ok hL rfl ha fun _ => .step rfl (ends_done rfl rfl)

theorem alone_applyEvent (hL : L.Whole X.toExternals) {req : EventRequest}
    {res : Except CoreError ApplyResult} (h : e.applyEvent X req = some (e', res)) :
    (applyEvent req).Ends X L ⟨e, [], appended⟩ .started e' (res.map .applied) := by
  have unlocked {e : Engine} {app : List ReadEntry} :
      (ThreadedEngine.unlock ⟨e, [req.instanceId], app⟩ req.instanceId).locks = [] := by
    simp [ThreadedEngine.unlock]
  unfold Engine.applyEvent at h
  split at h
  · rename_i a hc
    cases h
    exact .step (by simp only [next, begin, hc]; rfl) (ends_done rfl rfl)
  rename_i hc
  refine .step (by simp only [next, begin, hc]; rfl) ?_
  unfold Engine.applyLocked at h
  cases hi : e.getInstance req.instanceId with
  | error err =>
    simp only [hi] at h
    cases h
    exact .step (by simp only [next, enter, acquire, hi]; rfl) (ends_done rfl rfl)
  | ok i =>
    simp only [hi] at h
    have hlock : (applyEvent req).next X L ⟨e, [], appended⟩ .missed =
        some (⟨e, [req.instanceId], appended⟩, .locked) := by
      simp only [next, enter, acquire, hi]
      rfl
    refine .step hlock ?_
    cases ht : e.targetOf req i with
    | error err =>
      simp only [ht] at h
      cases h
      exact .step (by simp only [next, check, hi, ht]; rfl) (ends_done rfl unlocked)
    | ok toState =>
      simp only [ht] at h
      refine .step (by simp only [next, check, hi, ht]; rfl) ?_
      split at h
      · cases h
      · rename_i s₁ err ha
        cases h
        split at ha <;> cases ha
        rename_i ha
        exact ends_log_error hL rfl ha
      · rename_i s₁ a ha
        cases h
        split at ha <;> cases ha
        rename_i s₂ seq off ha
        exact ends_log_ok hL rfl ha fun _ => .step rfl (.step rfl (ends_done rfl unlocked))

theorem alone_deleteInstance (hL : L.Whole X.toExternals) {id : String} {key : Option String}
    {res : Except CoreError Nat} (h : e.deleteInstance X id key = some (e', res)) :
    (deleteInstance id key).Ends X L ⟨e, [], appended⟩ .started e' (res.map .deleted) := by
  have unlocked {e : Engine} {app : List ReadEntry} :
      (ThreadedEngine.unlock ⟨e, [id], app⟩ id).locks = [] := by
    simp [ThreadedEngine.unlock]
  unfold Engine.deleteInstance at h
  cases hi : e.getInstance id with
  | error err =>
    simp only [hi] at h
    cases h
    exact .step (by simp only [next, begin, acquire, hi]; rfl) (ends_done rfl rfl)
  | ok i =>
    simp only [hi] at h
    have hlock : (deleteInstance id key).next X L ⟨e, [], appended⟩ .started =
        some (⟨e, [id], appended⟩, .locked) := by
      simp only [next, begin, acquire, hi]
      rfl
    refine .step hlock ?_
    split at h
    · rename_i hdel
      cases h
      exact .step (by simp only [next, check, hi, if_pos hdel]; rfl) (ends_done rfl unlocked)
    rename_i hdel
    refine .step (by simp only [next, check, hi, if_neg hdel]; rfl) ?_
    split at h <;> cases h
    · rename_i err ha
      exact ends_log_error hL rfl ha
    · rename_i s₁ seq off ha
      exact ends_log_ok hL rfl ha fun _ => .step rfl (ends_done rfl unlocked)

/-- A call that nothing comes between does what the sequential call does. -/
theorem alone (hL : L.Whole X.toExternals) (h : e.perform X call = some (e', r)) :
    call.Ends X L ⟨e, [], appended⟩ .started e' r := by
  cases call with
  | putMachine | createInstance | applyEvent | deleteInstance =>
    obtain ⟨⟨_, res⟩, hcall, hout⟩ := Option.map_eq_some_iff.mp h
    cases hout
    first
    | exact alone_putMachine appended hL hcall
    | exact alone_createInstance appended hL hcall
    | exact alone_applyEvent appended hL hcall
    | exact alone_deleteInstance appended hL hcall

end EngineCall

end

/-! ## What a step can do -/

/-- An answer before anything is locked or logged. -/
inductive EngineCall.Answer (e : Engine) : EngineCall → Except CoreError CallResult → Prop
  | failed {call : EngineCall} (err : CoreError) : Answer e call (.error err)
  | known {name : String} {version : UInt32} {json : Value} (checksum : String) :
      Answer e (.putMachine name version json) (.ok (.machine checksum false))
  | created {id machine : String} {version : UInt32} {ctx : Value} {key : Option String}
      {i : Instance} (h : e.createdBefore id key = some i) :
      Answer e (.createInstance id machine version ctx key) (.ok (.instance i i.lastWalOffset))
  | cached {r : EventRequest} {a : ApplyResult}
      (h : e.cachedResult r.instanceId r.idempotencyKey = some a) :
      Answer e (.applyEvent r) (.ok (.applied a))

/-- What a call has found before it logs. -/
inductive EngineCall.Ready {σ : Type} (X : CoreExternals) (e : Engine) :
    EngineCall → CallPc σ → Pending → Prop
  | putMachine {name : String} {version : UInt32} {json : Value} {d : MachineDefinition}
      (absent : e.definitions[(name, version)]? = none)
      (valid : MachineDefinition.fromJson X name version json = some (.ok d)) :
      Ready X e (.putMachine name version json) .started (.putMachine name version json d)
  | createInstance {id machine : String} {version : UInt32} {ctx : Value} {key : Option String}
      {d : MachineDefinition} (defined : e.definitions[(machine, version)]? = some d) :
      Ready X e (.createInstance id machine version ctx key) .absent
        (.createInstance id machine version ctx key d)
  | applyEvent {r : EventRequest} {i : Instance} {toState : String}
      (present : e.instances[r.instanceId]? = some i) (target : e.targetOf r i = .ok toState) :
      Ready X e (.applyEvent r) .locked (.applyEvent r i toState)
  | deleteInstance {id : String} {key : Option String} {i : Instance}
      (present : e.instances[id]? = some i) (alive : i.isDeleted = false) :
      Ready X e (.deleteInstance id key) .locked (.deleteInstance id key i)

/-- All that a step of a call can do. -/
inductive Stepped (X : CoreExternals) (L : LogSteps) (s : ThreadedEngine) (call : EngineCall) :
    CallPc L.State → ThreadedEngine → CallPc L.State → Prop
  | answered {pc : CallPc L.State} {r : Except CoreError CallResult}
      (early : pc = .started ∨ pc = .missed ∨ pc = .absent) (answer : call.Answer s.engine r) :
      Stepped X L s call pc s (.done r)
  | missed : Stepped X L s call .started s .missed
  | checked {id machine : String} {version : UInt32} {ctx : Value} {key : Option String}
      (hcall : call = .createInstance id machine version ctx key)
      (absent : s.engine.instances[id]? = none) : Stepped X L s call .missed s .absent
  | acquired {pc : CallPc L.State} {id : String} {i : Instance}
      (early : pc = .started ∨ pc = .missed) (hid : call.lockOn = some id)
      (present : s.engine.instances[id]? = some i) (free : id ∉ s.locks) :
      Stepped X L s call pc (s.lock id) .locked
  | rejected {id : String} {r : Except CoreError CallResult} (hid : call.lockOn = some id)
      (outcome : (∃ err, r = .error err) ∨ ∃ offset, r = .ok (.deleted offset)) :
      Stepped X L s call .locked (s.unlock id) (.done r)
  | planned {pc : CallPc L.State} {p : Pending} (ready : call.Ready X s.engine pc p) :
      Stepped X L s call pc s (.log L s p)
  | appending {p : Pending} {l l' : L.State} {wal : Wal}
      (h : L.next s.engine.wal l = some (wal, .inl l')) :
      Stepped X L s call (.logging p l) (s.setWal wal) (.logging p l')
  | refused {p : Pending} {l : L.State} {wal : Wal} {err : WalError}
      (h : L.next s.engine.wal l = some (wal, .inr (.error err))) :
      Stepped X L s call (.logging p l) ((s.setWal wal).release call) (.done (.error (.wal err)))
  | appended {p : Pending} {l : L.State} {wal : Wal} {seq : UInt64} {off : WalOffset}
      (h : L.next s.engine.wal l = some (wal, .inr (.ok (seq, off)))) :
      Stepped X L s call (.logging p l)
        { s.setWal wal with appended := s.appended ++ [(seq, off, p.entry)] } (.logged p seq off)
  | created {id machine : String} {version : UInt32} {ctx : Value} {key : Option String}
      {d : MachineDefinition} {seq : UInt64} {off : WalOffset} (free : id ∉ s.locks) :
      Stepped X L s call (.logged (.createInstance id machine version ctx key d) seq off)
        (s.setEngine ((Pending.createInstance id machine version ctx key d).store s.engine off))
        (.done (.ok ((Pending.createInstance id machine version ctx key d).result seq off)))
  | applied {r : EventRequest} {i : Instance} {toState : String} {seq : UInt64} {off : WalOffset}
      {a : ApplyResult} (ha : (Pending.applyEvent r i toState).result seq off = .applied a) :
      Stepped X L s call (.logged (.applyEvent r i toState) seq off)
        (s.setEngine ((Pending.applyEvent r i toState).store s.engine off)) (.caching a)
  | finished {p : Pending} {seq : UInt64} {off : WalOffset}
      (other : (∃ name version json d, p = .putMachine name version json d) ∨
        ∃ id key i, p = .deleteInstance id key i) :
      Stepped X L s call (.logged p seq off) ((s.setEngine (p.store s.engine off)).release call)
        (.done (.ok (p.result seq off)))
  | cached {r : EventRequest} {a : ApplyResult} (hcall : call = .applyEvent r) :
      Stepped X L s call (.caching a)
        ((s.setEngine (s.engine.cacheResult r.instanceId r.idempotencyKey a)).unlock r.instanceId)
        (.done (.ok (.applied a)))

section
variable {X : CoreExternals} {L : LogSteps} {s s' : ThreadedEngine} {call : EngineCall}
  {pc pc' : CallPc L.State}

theorem stepped_acquire {id : String} (early : pc = .started ∨ pc = .missed)
    (hid : call.lockOn = some id) (h : acquire L s id = some (s', pc')) :
    Stepped X L s call pc s' pc' := by
  unfold acquire at h
  split at h
  · cases h
    exact .answered (early.imp_right .inl) (.failed _)
  rename_i i hi
  split at h
  · cases h
  · rename_i hfree
    cases h
    exact .acquired early hid (Engine.getInstance_ok hi) hfree

theorem stepped_begin (h : call.begin X L s = some (s', pc')) :
    Stepped X L s call .started s' pc' := by
  unfold EngineCall.begin at h
  split at h
  · split at h
    · cases h
    · cases h
      exact .answered (.inl rfl) (.failed _)
    · split at h <;> cases h
      · exact .answered (.inl rfl) (.known _)
      · exact .answered (.inl rfl) (.failed _)
    · rename_i hd hj
      cases h
      exact .planned (.putMachine hd hj)
  · split at h
    · rename_i i hb
      split at h <;> cases h
      exact .answered (.inl rfl) (.created hb)
    · cases h
      exact .missed
  · split at h
    · rename_i a hc
      cases h
      exact .answered (.inl rfl) (.cached hc)
    · cases h
      exact .missed
  · exact stepped_acquire (.inl rfl) rfl h

theorem stepped_check (h : call.check L s = some (s', pc')) :
    Stepped X L s call .locked s' pc' := by
  unfold EngineCall.check at h
  split at h
  · rename_i r
    split at h
    · cases h
      exact .rejected rfl (.inl ⟨_, rfl⟩)
    rename_i i hi
    split at h
    · cases h
      exact .rejected rfl (.inl ⟨_, rfl⟩)
    · rename_i toState ht
      cases h
      exact .planned (.applyEvent (Engine.getInstance_ok hi) ht)
  · rename_i id key
    split at h
    · cases h
      exact .rejected rfl (.inl ⟨_, rfl⟩)
    rename_i i hi
    split at h
    · cases h
      exact .rejected rfl (.inr ⟨_, rfl⟩)
    · rename_i halive
      cases h
      exact .planned (.deleteInstance (Engine.getInstance_ok hi) (Bool.eq_false_iff.mpr halive))
  · cases h

theorem stepped_store {p : Pending} {seq : UInt64} {off : WalOffset}
    (h : call.store L s p seq off = some (s', pc')) :
    Stepped X L s call (.logged p seq off) s' pc' := by
  unfold EngineCall.store at h
  cases p with
  | putMachine =>
    cases h
    exact .finished (.inl ⟨_, _, _, _, rfl⟩)
  | createInstance =>
    dsimp only at h
    split at h <;> cases h
    rename_i hfree
    exact .created hfree
  | applyEvent =>
    cases h
    exact .applied rfl
  | deleteInstance =>
    cases h
    exact .finished (.inr ⟨_, _, _, rfl⟩)

theorem stepped_of_next (h : call.next X L s pc = some (s', pc')) :
    Stepped X L s call pc s' pc' := by
  cases pc with
  | started => exact stepped_begin h
  | missed =>
    simp only [EngineCall.next, EngineCall.enter] at h
    split at h
    · split at h <;> cases h <;> rename_i hin
      · exact .answered (.inr (.inl rfl)) (.failed _)
      · exact .checked rfl (by simpa using hin)
    · exact stepped_acquire (.inr rfl) rfl h
    · cases h
  | absent =>
    simp only [EngineCall.next, EngineCall.define] at h
    split at h
    · split at h <;> cases h
      · exact .answered (.inr (.inr rfl)) (.failed _)
      · rename_i hd
        exact .planned (.createInstance (Engine.getMachine_ok hd))
    · cases h
  | locked => exact stepped_check h
  | logging p l =>
    simp only [EngineCall.next, EngineCall.append] at h
    split at h <;> cases h <;> rename_i hn
    · exact .appending hn
    · exact .refused hn
    · exact .appended hn
  | logged p seq off => exact stepped_store h
  | caching a =>
    simp only [EngineCall.next, EngineCall.cache] at h
    split at h <;> cases h
    exact .cached rfl
  | done => cases h

/-- A step of a schedule is a new call, or a step of one call. -/
theorem engineSched_cases {ts ts' : List (EngineThread L)} {op : Sched EngineCall}
    (h : engineSched X L (s, ts) op = some (s', ts')) :
    (∃ call, op = .spawn call ∧ s' = s ∧ ts' = ts ++ [⟨call, .started⟩]) ∨
      ∃ k xs call pc pc' ys, op = .step k ∧ ts[k]? = some ⟨call, pc⟩ ∧
        ts = xs ++ ⟨call, pc⟩ :: ys ∧ Stepped X L s call pc s' pc' ∧
        ts' = xs ++ ⟨call, pc'⟩ :: ys := by
  obtain ⟨call, rfl, rfl, rfl⟩ | ⟨k, xs, t, t', ys, rfl, hk, rfl, hn, rfl⟩ := interleave_cases h
  · exact .inl ⟨call, rfl, rfl, rfl⟩
  · obtain ⟨⟨_, pc'⟩, hpc, hout⟩ := Option.map_eq_some_iff.mp hn
    cases hout
    exact .inr ⟨k, xs, t.call, t.pc, pc', ys, rfl, hk, rfl, stepped_of_next hpc, rfl⟩

end

/-! ## The locks -/

/-- The call that has found this. -/
def Pending.call : Pending → EngineCall
  | .putMachine name version json _ => .putMachine name version json
  | .createInstance id machine version ctx key _ => .createInstance id machine version ctx key
  | .applyEvent r _ _ => .applyEvent r
  | .deleteInstance id key _ => .deleteInstance id key

/-- The instance that was found under the lock. -/
def Pending.found : Pending → Option (String × Instance)
  | .applyEvent r i _ => some (r.instanceId, i)
  | .deleteInstance id _ i => some (id, i)
  | _ => none

namespace EngineThread

variable {L : LogSteps}

/-- The instance whose write lock the thread holds. -/
def holds (t : EngineThread L) : Option String :=
  match t.pc with
  | .locked | .logging .. | .logged .. | .caching _ => t.call.lockOn
  | _ => none

def pending (t : EngineThread L) : Option Pending :=
  match t.pc with
  | .logging p _ | .logged p _ _ => some p
  | _ => none

end EngineThread

/-- No lock is held twice, and an instance whose lock is held is as its holder found it. -/
structure Locked {L : LogSteps} (s : ThreadedEngine) (ts : List (EngineThread L)) : Prop where
  distinct : (ts.filterMap EngineThread.holds).Nodup
  held : ∀ t ∈ ts, ∀ id ∈ t.holds, id ∈ s.locks ∧ (s.engine.instances[id]?).isSome = true
  own : ∀ t ∈ ts, ∀ p ∈ t.pending, p.call = t.call ∧
    ∀ q ∈ p.found, s.engine.instances[q.1]? = some q.2

section
variable {X : CoreExternals} {L : LogSteps} {s s' : ThreadedEngine} {call : EngineCall}
  {pc pc' : CallPc L.State} {ts xs ys : List (EngineThread L)} {t t' : EngineThread L}

theorem Pending.lockOn_of_found {p : Pending} {q : String × Instance} (h : p.found = some q) :
    p.call.lockOn = some q.1 := by
  cases p with
  | putMachine | createInstance => cases h
  | applyEvent | deleteInstance =>
    cases h
    rfl

theorem EngineThread.holds_of_pending {p : Pending} (h : t.pending = some p) :
    t.holds = t.call.lockOn := by
  unfold pending at h
  unfold holds
  split at h <;> rename_i hpc <;> simp [hpc] at h ⊢

theorem Locked.others (h : Locked s (xs ++ t :: ys)) {id : String} (hid : t.holds = some id) :
    ∀ u ∈ xs ++ ys, u.holds ≠ some id :=
  others_of_nodup h.distinct hid

theorem Locked.spawned (h : Locked s ts) (call : EngineCall) :
    Locked s (ts ++ [(⟨call, .started⟩ : EngineThread L)]) := by
  refine ⟨?_, ?_, ?_⟩
  · rw [filterMap_spawned rfl]
    exact h.distinct
  · exact forall_spawned h.held (by rintro _ ⟨⟩)
  · exact forall_spawned h.own (by rintro _ ⟨⟩)

/-- A step of one thread that leaves to the others their locks and the instances
under them. -/
theorem Locked.moved (h : Locked s (xs ++ t :: ys)) (kept : ∀ u ∈ xs ++ ys, ∀ id ∈ u.holds,
      id ∈ s'.locks ∧ s'.engine.instances[id]? = s.engine.instances[id]?)
    (mine : ∀ id ∈ t'.holds, id ∈ s'.locks ∧ (s'.engine.instances[id]?).isSome = true ∧
      (t.holds = some id ∨ ∀ u ∈ xs ++ ys, u.holds ≠ some id))
    (own : ∀ p ∈ t'.pending, p.call = t'.call ∧
      ∀ q ∈ p.found, s'.engine.instances[q.1]? = some q.2) :
    Locked s' (xs ++ t' :: ys) := by
  refine ⟨nodup_replace h.distinct fun id hid => (mine id hid).2.2, ?_, ?_⟩
  · intro u hu id hid
    obtain rfl | hu := mem_replace hu
    · exact ⟨(mine id hid).1, (mine id hid).2.1⟩
    · obtain ⟨hl, hi⟩ := kept u hu id hid
      exact ⟨hl, hi ▸ (h.held u (mem_of_others t hu) id hid).2⟩
  · intro u hu p hp
    obtain rfl | hu := mem_replace hu
    · exact own p hp
    · obtain ⟨hcall, hfound⟩ := h.own u (mem_of_others t hu) p hp
      refine ⟨hcall, fun q hq => ?_⟩
      have hheld : u.holds = some q.1 := by
        rw [EngineThread.holds_of_pending hp, ← hcall]
        exact Pending.lockOn_of_found hq
      rw [(kept u hu q.1 hheld).2]
      exact hfound q hq

theorem Locked.kept_release (h : Locked s (xs ++ t :: ys)) (ht : t.holds = t.call.lockOn)
    (s₁ : ThreadedEngine) (hs : s₁.locks = s.locks) :
    ∀ u ∈ xs ++ ys, ∀ id ∈ u.holds, id ∈ (s₁.release t.call).locks := by
  intro u hu id hid
  have hlocked : id ∈ s.locks := (h.held u (mem_of_others t hu) id hid).1
  unfold ThreadedEngine.release
  split
  · rename_i id' hid'
    have hne : id ≠ id' := by
      rintro rfl
      exact h.others (ht.trans hid') u hu hid
    simp [ThreadedEngine.unlock, hs, hlocked, hne]
  · rwa [hs]

theorem Locked.kept_insert {id : String} (hfree : ∀ u ∈ xs ++ ys, u.holds ≠ some id)
    (i : Instance) : ∀ u ∈ xs ++ ys, ∀ id' ∈ u.holds,
      (s.engine.instances.insert id i)[id']? = s.engine.instances[id']? := by
  intro u hu id' hid'
  have hne : id' ≠ id := by
    rintro rfl
    exact hfree u hu hid'
  exact Table.getElem?_insert_ne hne

theorem Engine.cacheResult_memory (e : Engine) (id : String) (key : Option String)
    (a : ApplyResult) : (e.cacheResult id key a).toMemory = e.toMemory := by
  unfold Engine.cacheResult
  split <;> rfl

theorem Locked.stepped (h : Locked s (xs ++ ⟨call, pc⟩ :: ys))
    (hs : Stepped X L s call pc s' pc') : Locked s' (xs ++ ⟨call, pc'⟩ :: ys) := by
  have hlocks : ∀ u ∈ xs ++ ys, ∀ id ∈ u.holds, id ∈ s.locks :=
    fun u hu id hid => (h.held u (mem_of_others _ hu) id hid).1
  have hmine : ∀ id ∈ (⟨call, pc⟩ : EngineThread L).holds, id ∈ s.locks ∧
      (s.engine.instances[id]?).isSome = true := h.held _ (by simp)
  have hown : ∀ p ∈ (⟨call, pc⟩ : EngineThread L).pending, p.call = call ∧
      ∀ q ∈ p.found, s.engine.instances[q.1]? = some q.2 := h.own _ (by simp)
  cases hs with
  | answered | missed | checked =>
    exact h.moved (fun u hu id hid => ⟨hlocks u hu id hid, rfl⟩) (by rintro _ ⟨⟩) (by rintro _ ⟨⟩)
  | @acquired _ id i early hid present free =>
    refine h.moved (fun u hu id hid => ⟨List.mem_cons_of_mem _ (hlocks u hu id hid), rfl⟩) ?_
      (by rintro _ ⟨⟩)
    intro id' hid'
    obtain rfl : id = id' := Option.some.inj (hid.symm.trans hid')
    refine ⟨List.mem_cons_self, ?_, .inr fun u hu hheld => free (hlocks u hu id hheld)⟩
    exact Option.isSome_iff_exists.mpr ⟨i, present⟩
  | @rejected id r hid outcome =>
    refine h.moved (fun u hu id' hid' => ⟨?_, rfl⟩) (by rintro _ ⟨⟩) (by rintro _ ⟨⟩)
    have := h.kept_release rfl s rfl u hu id' hid'
    rwa [ThreadedEngine.release, hid] at this
  | planned ready =>
    refine h.moved (fun u hu id hid => ⟨hlocks u hu id hid, rfl⟩) ?_ ?_
    · intro id hid
      cases ready with
      | putMachine | createInstance => cases hid
      | applyEvent | deleteInstance => exact ⟨(hmine id hid).1, (hmine id hid).2, .inl hid⟩
    · rintro _ ⟨⟩
      cases ready with
      | putMachine | createInstance => exact ⟨rfl, by rintro _ ⟨⟩⟩
      | applyEvent present | deleteInstance present =>
        refine ⟨rfl, ?_⟩
        rintro _ ⟨⟩
        exact present
  | appending | appended =>
    refine h.moved (fun u hu id hid => ⟨hlocks u hu id hid, rfl⟩) (fun id hid => ?_) hown
    exact ⟨(hmine id hid).1, (hmine id hid).2, .inl hid⟩
  | @refused p l wal err hn =>
    refine h.moved (fun u hu id hid => ⟨?_, ?_⟩) (by rintro _ ⟨⟩) (by rintro _ ⟨⟩)
    · exact h.kept_release rfl (s.setWal wal) rfl u hu id hid
    · rw [ThreadedEngine.release_engine]
      rfl
  | @created id machine version ctx key d seq off free =>
    refine h.moved (fun u hu id' hid' => ⟨hlocks u hu id' hid', ?_⟩) (by rintro _ ⟨⟩)
      (by rintro _ ⟨⟩)
    exact Locked.kept_insert (fun u hu hheld => free (hlocks u hu id hheld)) _ u hu id' hid'
  | @applied r i toState seq off a ha =>
    obtain ⟨hcall, -⟩ := hown _ rfl
    subst hcall
    have hothers : ∀ u ∈ xs ++ ys, u.holds ≠ some r.instanceId := h.others rfl
    refine h.moved (fun u hu id' hid' => ⟨hlocks u hu id' hid', ?_⟩) ?_ (by rintro _ ⟨⟩)
    · exact Locked.kept_insert hothers _ u hu id' hid'
    · rintro _ ⟨⟩
      refine ⟨(hmine r.instanceId rfl).1, ?_, .inl rfl⟩
      exact Option.isSome_iff_exists.mpr ⟨_, Std.ExtTreeMap.getElem?_insert_self⟩
  | @finished p seq off other =>
    refine h.moved (fun u hu id' hid' => ⟨?_, ?_⟩) (by rintro _ ⟨⟩) (by rintro _ ⟨⟩)
    · exact h.kept_release rfl (s.setEngine (p.store s.engine off)) rfl u hu id' hid'
    · rw [ThreadedEngine.release_engine]
      obtain ⟨name, version, json, d, rfl⟩ | ⟨id, key, i, rfl⟩ := other
      · rfl
      · obtain ⟨hcall, -⟩ := hown _ rfl
        subst hcall
        exact Locked.kept_insert (h.others rfl) _ u hu id' hid'
  | @cached r a hcall =>
    subst hcall
    refine h.moved (fun u hu id' hid' => ⟨?_, ?_⟩) (by rintro _ ⟨⟩) (by rintro _ ⟨⟩)
    · exact h.kept_release rfl (s.setEngine _) rfl u hu id' hid'
    · rw [← Engine.cacheResult_memory s.engine r.instanceId r.idempotencyKey a]
      rfl

theorem Locked.start : Locked (L := L) s [] := ⟨List.nodup_nil, by simp, by simp⟩

end

end Rstmdb

import Rstmdb.Core.Replay

/-! Calls of the engine when the file system fails. Every call logs its entry before
it changes the memory, and returns the error of the append. An fsync that fails comes
after the write: the caller gets an error, but the record is in the file and the next
start replays it. -/
namespace Rstmdb
open Json (Value)

/-- What fails in an append: the new segment file, a write that writes nothing, or
the fsync after it. -/
inductive IoFault
  | create
  | write
  | sync
  deriving DecidableEq, Repr

/-! ## The log -/

namespace Wal

/-- The policy asks for an fsync when this many writes are not synced. -/
def syncDue (w : Wal) (writes : Nat) : Bool :=
  match w.config.fsyncPolicy with
  | .everyWrite => true
  | .everyN n => n.toNat ≤ writes
  | .everyMs _ => false
  | .never => false

/-- `appendLocked` when a write or an fsync can fail. After a failed fsync the record
stays where it is, and still counts as not synced. -/
def appendLockedUnder (fault : Option IoFault) (w : Wal) (record : WalRecord) :
    Option (Wal × Except WalError (UInt64 × WalOffset)) :=
  match w.current with
  | none => none
  | some segment =>
    match segment.append w.dir record with
    | .error e => some (w, .error e)
    | .ok (offset, segment, dir) =>
      if fault = some .write then some (w, .error .io)
      else if fault = some .sync ∧ w.syncDue (w.writesSinceSync + 1) then
        some (w.noteWrite segment dir record.diskSize, .error .io)
      else
        let w := (w.noteWrite segment dir record.diskSize).applyPolicy segment
        match WalOffset.new segment.id offset with
        | none => none
        | some walOffset => some (w, .ok (record.header.sequence, walOffset))

/-- `append` when the file system can fail. -/
def appendUnder (X : Externals) (fault : Option IoFault) (w : Wal) (entry : WalEntry) :
    Option (Wal × Except WalError (UInt64 × WalOffset)) :=
  if w.closed then some (w, .error .closed)
  else
    let payload := X.toVec entry
    let (sequence, w) := w.drawSequence
    let record := WalRecord.new X entry.entryType sequence payload
    if w.needsRotation record.diskSize then
      if fault = some .create then some (w, .error .io)
      else
        match w.rotateSegment with
        | (w, .error e) => some (w, .error e)
        | (w, .ok ()) => w.appendLockedUnder fault record
    else w.appendLockedUnder fault record

theorem appendLockedUnder_none (w : Wal) (record : WalRecord) :
    w.appendLockedUnder none record = w.appendLocked record := by
  simp only [appendLockedUnder, reduceCtorEq, false_and, if_false]
  rfl

/-- Without a fault this is the append that the log was modelled with. -/
theorem appendUnder_none (X : Externals) (w : Wal) (entry : WalEntry) :
    w.appendUnder X none entry = w.append X entry := by
  simp only [appendUnder, appendLockedUnder_none, reduceCtorEq, if_false]
  rfl

/-- The fsync after the write of this entry is asked for, and fails. -/
def SyncFails (X : Externals) (fault : Option IoFault) (w : Wal) (entry : WalEntry) : Prop :=
  fault = some .sync ∧ w.closed = false ∧ (X.toVec entry).length ≤ maxRecordSize ∧
    w.syncDue (w.writesSinceSync + 1) = true

instance (X : Externals) (fault : Option IoFault) (w : Wal) (entry : WalEntry) :
    Decidable (SyncFails X fault w entry) := inferInstanceAs (Decidable (_ ∧ _))

section
variable {X : Externals} {fault : Option IoFault} {w w' : Wal} {pre : List (Chunk X)} {c : Chunk X}
  {r : Except WalError (UInt64 × WalOffset)}

/-- Unless its fsync fails, a write fails without a trace or works as ever. -/
theorem appendLockedUnder_cases {record : WalRecord}
    (hs : ¬ (fault = some .sync ∧ record.payload.length ≤ maxRecordSize ∧
      w.syncDue (w.writesSinceSync + 1) = true))
    (h : w.appendLockedUnder fault record = some (w', r)) :
    w.appendLocked record = some (w', r) ∨ w' = w ∧ r = .error .io := by
  unfold appendLockedUnder at h
  split at h
  · cases h
  rename_i segment hcur
  by_cases hfit : record.payload.length ≤ maxRecordSize
  · simp only [Segment.append, WalRecord.encode_ok hfit] at h
    split at h
    · cases h
      exact .inr ⟨rfl, rfl⟩
    split at h
    · rename_i hf
      exact absurd ⟨hf.1, hfit, hf.2⟩ hs
    · left
      simp only [appendLocked, hcur, Segment.append, WalRecord.encode_ok hfit]
      exact h
  · refine .inl (Eq.trans ?_ h)
    simp [appendLocked, hcur, Segment.append, WalRecord.encode, Nat.not_le.mp hfit]

/-- Unless its fsync fails, an append that the file system fails leaves at most an
empty segment behind. -/
theorem appendUnder_cases {e : WalEntry} (hs : ¬ w.SyncFails X fault e)
    (h : w.appendUnder X fault e = some (w', r)) :
    w.append X e = some (w', r) ∨
      (∃ err, r = .error err) ∧
        (w' = w.drawSequence.2 ∨ w' = w.drawSequence.2.rotateSegment.1) := by
  cases hclosed : w.closed with
  | true =>
    simp only [appendUnder, hclosed, if_true] at h
    simp only [append, hclosed, if_true]
    exact .inl h
  | false =>
    have hdue : ¬ (fault = some .sync ∧ (w.nextRecord X e).payload.length ≤ maxRecordSize ∧
        w.syncDue (w.writesSinceSync + 1) = true) :=
      fun hf => hs ⟨hf.1, hclosed, hf.2⟩
    simp only [appendUnder, hclosed, Bool.false_eq_true, if_false] at h
    simp only [append, hclosed, Bool.false_eq_true, if_false]
    change (if w.needsRotation (w.nextRecord X e).diskSize = true then _ else
      w.drawSequence.2.appendLockedUnder fault (w.nextRecord X e)) = some (w', r) at h
    change (if w.needsRotation (w.nextRecord X e).diskSize = true then _ else
      w.drawSequence.2.appendLocked (w.nextRecord X e)) = some (w', r) ∨ _
    split at h
    · rename_i hrot
      rw [if_pos hrot]
      split at h
      · cases h
        exact .inr ⟨⟨_, rfl⟩, .inl rfl⟩
      rcases rotateSegment_cases w.drawSequence.2 with ⟨-, hr⟩ | ⟨-, hr⟩
      · rw [hr] at h ⊢
        exact .inl h
      · rw [hr] at h ⊢
        exact (appendLockedUnder_cases (w := w.drawSequence.2.rotated) hdue h).imp_right
          fun he => ⟨⟨_, he.2⟩, .inr he.1⟩
    · rename_i hrot
      rw [if_neg hrot]
      exact (appendLockedUnder_cases (w := w.drawSequence.2) hdue h).imp_right
        fun he => ⟨⟨_, he.2⟩, .inl he.1⟩

/-- An append to a clean log leaves a clean log, with the entry at its end if it
succeeds. -/
theorem Repr.appendUnder (h : w.Repr pre c) (hc : c.tail = []) {e : WalEntry}
    (hs : ¬ w.SyncFails X fault e) (ha : w.appendUnder X fault e = some (w', r)) :
    ∃ (pre' : List (Chunk X)) (c' : Chunk X), w'.Repr pre' c' ∧ c'.tail = [] ∧
      Appended e (entries (pre ++ [c])) (entries (pre' ++ [c'])) r := by
  have hv : w.drawSequence.2.Repr pre c := ⟨h.holds, h.keys, h.current⟩
  obtain ha | ⟨⟨err, rfl⟩, rfl | rfl⟩ := appendUnder_cases hs ha
  · exact h.append_clean hc ha
  · exact ⟨pre, c, hv, hc, rfl⟩
  · obtain ⟨-, hrot, hr⟩ := hv.rotateSegment
    rw [hrot]
    exact ⟨pre ++ [c], _, hr, rfl, by simp [Appended, entries]⟩

end

end Wal

/-! ## The calls -/

/-- What a call does before it logs: it answers, it panics, or it has an entry to log
and a change to make once that is done. -/
inductive Plan (α : Type)
  | answer (r : Except CoreError α)
  | panics
  | log (entry : WalEntry) (finish : Engine → UInt64 → WalOffset → Engine × α)

/-- The call, with what it logged. -/
def Plan.run {α : Type}
    (append : Engine → WalEntry → Option (Engine × Except CoreError (UInt64 × WalOffset)))
    (s : Engine) : Plan α → Option (Engine × Except CoreError (α × Option ReadEntry))
  | .answer r => some (s, r.map (·, none))
  | .panics => none
  | .log entry finish =>
    match append s entry with
    | none => none
    | some (s, .error e) => some (s, .error e)
    | some (s, .ok (seq, off)) =>
      some ((finish s seq off).1, .ok ((finish s seq off).2, some (seq, off, entry)))

/-- The entry that a call goes on to log. -/
def Plan.entry {α : Type} : Plan α → Option WalEntry
  | .log entry _ => some entry
  | _ => none

namespace Engine

section
variable (X : CoreExternals) (s : Engine)

def planPutMachine (name : String) (version : UInt32) (definitionJson : Value) :
    Plan (String × Bool) :=
  match s.definitions[(name, version)]?,
    MachineDefinition.fromJson X name version definitionJson with
  | _, none => .panics
  | _, some (.error e) => .answer (.error e)
  | some existing, some (.ok newDef) =>
    if existing.checksum = newDef.checksum then .answer (.ok (existing.checksum, false))
    else .answer (.error (.machineVersionExists name version))
  | none, some (.ok definition) =>
    .log (.putMachine name version definition.checksum definitionJson) fun s _ _ =>
      ({ s with definitions := s.definitions.insert (name, version) definition },
        (definition.checksum, true))

def planCreateInstance (instanceId machine : String) (version : UInt32) (initialCtx : Value)
    (idempotencyKey : Option String) : Plan (Instance × Nat) :=
  match s.createdBefore instanceId idempotencyKey with
  | some i => .answer (.ok (i, i.lastWalOffset))
  | none =>
    if s.instances.contains instanceId then .answer (.error (.instanceExists instanceId))
    else
      match s.getMachine machine version with
      | .error e => .answer (.error e)
      | .ok definition =>
        .log (.createInstance instanceId machine version definition.initial initialCtx
            idempotencyKey) fun s sequence offset =>
          let i := Instance.new instanceId machine version definition.initial initialCtx
            offset.asU64
          ({ s with instances := s.instances.insert instanceId i }, (i, sequence.toNat))

def planApplyEvent (r : EventRequest) : Plan ApplyResult :=
  match s.cachedResult r.instanceId r.idempotencyKey with
  | some result => .answer (.ok result)
  | none =>
    match s.getInstance r.instanceId with
    | .error e => .answer (.error e)
    | .ok i =>
      match s.targetOf r i with
      | .error e => .answer (.error e)
      | .ok toState =>
        .log (.applyEvent r.instanceId r.event i.state toState r.payload
            (mergeCtx i.ctx r.payload) r.eventId r.idempotencyKey) fun s sequence offset =>
          let newCtx := mergeCtx i.ctx r.payload
          let i' := i.applyTransition toState newCtx r.eventId offset.asU64
          let result : ApplyResult := ⟨i.state, toState, newCtx, offset.asU64, sequence, true⟩
          (({ s with instances := s.instances.insert r.instanceId i' } : Engine).cacheResult
            r.instanceId r.idempotencyKey result, result)

def planDeleteInstance (instanceId : String) (idempotencyKey : Option String) : Plan Nat :=
  match s.getInstance instanceId with
  | .error e => .answer (.error e)
  | .ok i =>
    if i.isDeleted then .answer (.ok i.lastWalOffset)
    else
      .log (.deleteInstance instanceId idempotencyKey) fun s _ offset =>
        ({ s with instances := s.instances.insert instanceId (i.softDelete offset.asU64) },
          offset.asU64)

end

/-- The value that a call returns. -/
def returned {α : Type} (o : Option (Engine × Except CoreError (α × Option ReadEntry))) :
    Option (Engine × Except CoreError α) :=
  o.map fun p => (p.1, p.2.map Prod.fst)

section
variable (X : CoreExternals) (s : Engine)

theorem putMachine_eq_plan (name : String) (version : UInt32) (json : Value) :
    s.putMachine X name version json =
      returned ((s.planPutMachine X name version json).run (append X) s) := by
  unfold putMachine planPutMachine
  cases s.definitions[(name, version)]? with
  | some existing =>
    rcases MachineDefinition.fromJson X name version json with _ | e | d
    · rfl
    · rfl
    · simp only
      split <;> rfl
  | none =>
    rcases MachineDefinition.fromJson X name version json with _ | e | d
    · rfl
    · rfl
    · simp only [Plan.run]
      rcases s.append X (.putMachine name version d.checksum json) with _ | ⟨s', e | r⟩ <;> rfl

theorem createInstance_eq_plan (id machine : String) (version : UInt32) (ctx : Value)
    (key : Option String) :
    s.createInstance X id machine version ctx key =
      returned ((s.planCreateInstance id machine version ctx key).run (append X) s) := by
  unfold createInstance planCreateInstance
  cases s.createdBefore id key with
  | some i => rfl
  | none =>
    simp only
    split
    · rfl
    cases s.getMachine machine version with
    | error e => rfl
    | ok d =>
      simp only [Plan.run]
      rcases s.append X (.createInstance id machine version d.initial ctx key) with
        _ | ⟨s', e | r⟩ <;> rfl

theorem applyEvent_eq_plan (r : EventRequest) :
    s.applyEvent X r = returned ((s.planApplyEvent r).run (append X) s) := by
  unfold applyEvent planApplyEvent
  cases s.cachedResult r.instanceId r.idempotencyKey with
  | some a => rfl
  | none =>
    simp only [applyLocked]
    cases s.getInstance r.instanceId with
    | error e => rfl
    | ok i =>
      dsimp only
      cases s.targetOf r i with
      | error e => rfl
      | ok toState =>
        simp only [Plan.run]
        rcases s.append X (.applyEvent r.instanceId r.event i.state toState r.payload
          (mergeCtx i.ctx r.payload) r.eventId r.idempotencyKey) with _ | ⟨s', e | a⟩ <;> rfl

theorem deleteInstance_eq_plan (id : String) (key : Option String) :
    s.deleteInstance X id key = returned ((s.planDeleteInstance id key).run (append X) s) := by
  unfold deleteInstance planDeleteInstance
  cases s.getInstance id with
  | error e => rfl
  | ok i =>
    simp only
    split
    · rfl
    · simp only [Plan.run]
      rcases s.append X (.deleteInstance id key) with _ | ⟨s', e | r⟩ <;> rfl

end

/-! ## Calls under faults -/

/-- `self.wal.append(&entry)?` when the file system can fail. -/
def appendUnder (X : CoreExternals) (fault : Option IoFault) (s : Engine) (entry : WalEntry) :
    Option (Engine × Except CoreError (UInt64 × WalOffset)) :=
  match s.wal.appendUnder X.toExternals fault entry with
  | none => none
  | some (wal, .error e) => some ({ s with wal }, .error (.wal e))
  | some (wal, .ok r) => some ({ s with wal }, .ok r)

theorem appendUnder_none (X : CoreExternals) : appendUnder X none = append X := by
  funext s entry
  simp only [appendUnder, Wal.appendUnder_none]
  rfl

/-- A call in which the file system can fail: its error, or the record it logged. A
restart reads only. -/
def callUnder (X : CoreExternals) (fault : Option IoFault) (s : Engine) :
    EngineOp → Option (Engine × Except CoreError (Option ReadEntry))
  | .putMachine name version json =>
    logged ((s.planPutMachine X name version json).run (appendUnder X fault) s)
  | .createInstance id machine version ctx key =>
    logged ((s.planCreateInstance id machine version ctx key).run (appendUnder X fault) s)
  | .applyEvent request => logged ((s.planApplyEvent request).run (appendUnder X fault) s)
  | .deleteInstance id key => logged ((s.planDeleteInstance id key).run (appendUnder X fault) s)
  | .restart config =>
    match Engine.new X config s.wal.dir with
    | some (.ok s) => some (s, .ok none)
    | _ => none
where
  logged {α : Type} (o : Option (Engine × Except CoreError (α × Option ReadEntry))) :
      Option (Engine × Except CoreError (Option ReadEntry)) :=
    o.map fun p => (p.1, p.2.map Prod.snd)

/-- Without a fault these are the calls of the engine. -/
theorem callUnder_none (X : CoreExternals) (s : Engine) (op : EngineOp) :
    (s.callUnder X none op).map Prod.fst = s.step X op := by
  have forget {α : Type} (o : Option (Engine × Except CoreError (α × Option ReadEntry))) :
      (callUnder.logged o).map Prod.fst = (returned o).map Prod.fst := by
    cases o <;> rfl
  cases op with
  | putMachine name version json =>
    rw [step, putMachine_eq_plan, callUnder, forget, appendUnder_none]
  | createInstance id machine version ctx key =>
    rw [step, createInstance_eq_plan, callUnder, forget, appendUnder_none]
  | applyEvent request => rw [step, applyEvent_eq_plan, callUnder, forget, appendUnder_none]
  | deleteInstance id key =>
    rw [step, deleteInstance_eq_plan, callUnder, forget, appendUnder_none]
  | restart config =>
    rw [step, callUnder]
    rcases new X config s.wal.dir with _ | e | s' <;> rfl

/-- The entry that an operation goes on to log. -/
def planned (X : CoreExternals) (s : Engine) : EngineOp → Option WalEntry
  | .putMachine name version json => (s.planPutMachine X name version json).entry
  | .createInstance id machine version ctx key =>
    (s.planCreateInstance id machine version ctx key).entry
  | .applyEvent request => (s.planApplyEvent request).entry
  | .deleteInstance id key => (s.planDeleteInstance id key).entry
  | .restart _ => none

/-- The operation writes a record, and the fsync after it fails. -/
def SyncFails (X : CoreExternals) (fault : Option IoFault) (s : Engine) (op : EngineOp) : Prop :=
  ∃ entry ∈ s.planned X op, s.wal.SyncFails X.toExternals fault entry

/-- The engine, and the records of the calls that did not return an error. -/
def faultyStep (X : CoreExternals) (s : Engine × List ReadEntry) (op : EngineOp × Option IoFault) :
    Option (Engine × List ReadEntry) :=
  match s.1.callUnder X op.2 op.1 with
  | none => none
  | some (e, .error _) => some (e, s.2)
  | some (e, .ok r) => some (e, s.2 ++ r.toList)

instance (X : CoreExternals) (fault : Option IoFault) (s : Engine) (op : EngineOp) :
    Decidable (s.SyncFails X fault op) :=
  inferInstanceAs (Decidable (∃ entry ∈ s.planned X op, _))

def SyncWorks (X : CoreExternals) (s : Engine × List ReadEntry) (op : EngineOp × Option IoFault) :
    Prop :=
  ¬ s.1.SyncFails X op.2 op.1

instance (X : CoreExternals) (s : Engine × List ReadEntry) (op : EngineOp × Option IoFault) :
    Decidable (SyncWorks X s op) := inferInstanceAs (Decidable (¬ _))

/-- A start on the directory finds and replays these records. -/
def Replays (X : CoreExternals) (dir : Dir) (es : List ReadEntry) : Prop :=
  ∀ config, ∃ w w', Wal.openDir X.toExternals config dir = .ok w ∧
    w.readFrom X.toExternals ⟨0⟩ none = some (w', .ok es)

section
variable {X : CoreExternals} {fault : Option IoFault} {s s' : Engine}

/-- The change that a plan makes leaves the log alone. -/
def KeepsWal {α : Type} : Plan α → Prop
  | .log _ finish => ∀ s seq off, (finish s seq off).1.wal = s.wal
  | _ => True

theorem keepsWal_planPutMachine (name : String) (version : UInt32) (json : Value) :
    KeepsWal (s.planPutMachine X name version json) := by
  unfold planPutMachine
  split
  · trivial
  · trivial
  · split <;> trivial
  · exact fun _ _ _ => rfl

theorem keepsWal_planCreateInstance (id machine : String) (version : UInt32) (ctx : Value)
    (key : Option String) : KeepsWal (s.planCreateInstance id machine version ctx key) := by
  unfold planCreateInstance
  split
  · trivial
  split
  · trivial
  · split
    · trivial
    · exact fun _ _ _ => rfl

theorem keepsWal_planApplyEvent (r : EventRequest) : KeepsWal (s.planApplyEvent r) := by
  unfold planApplyEvent
  split
  · trivial
  split
  · trivial
  split
  · trivial
  · intro _ _ _
    simp only [cacheResult]
    split <;> rfl

theorem keepsWal_planDeleteInstance (id : String) (key : Option String) :
    KeepsWal (s.planDeleteInstance id key) := by
  unfold planDeleteInstance
  split
  · trivial
  · split
    · trivial
    · exact fun _ _ _ => rfl

/-- What a call under a fault can do. -/
inductive CalledUnder (X : CoreExternals) (fault : Option IoFault) (entry : Option WalEntry)
    (s : Engine) : Engine → Except CoreError (Option ReadEntry) → Prop
  | answered : CalledUnder X fault entry s s (.ok none)
  | rejected {e : CoreError} : CalledUnder X fault entry s s (.error e)
  | refused {e : WalEntry} {wal : Wal} {err : WalError} (planned : entry = some e)
      (failed : s.wal.appendUnder X.toExternals fault e = some (wal, .error err)) :
      CalledUnder X fault entry s { s with wal } (.error (.wal err))
  | logged {e : WalEntry} {s' : Engine} {seq : UInt64} {off : WalOffset} (planned : entry = some e)
      (appended : s.wal.appendUnder X.toExternals fault e = some (s'.wal, .ok (seq, off))) :
      CalledUnder X fault entry s s' (.ok (some (seq, off, e)))

variable {r : Except CoreError (Option ReadEntry)} {op : EngineOp}

theorem calledUnder_run {α : Type} {plan : Plan α} (hk : KeepsWal plan)
    (h : callUnder.logged (plan.run (appendUnder X fault) s) = some (s', r)) :
    CalledUnder X fault plan.entry s s' r := by
  cases plan with
  | panics => cases h
  | answer a =>
    cases a with
    | error e =>
      cases h
      exact .rejected
    | ok a =>
      cases h
      exact .answered
  | log e finish =>
    simp only [Plan.run, appendUnder] at h
    rcases ha : s.wal.appendUnder X.toExternals fault e with _ | ⟨wal, err | ⟨seq, off⟩⟩
    · simp [ha, callUnder.logged] at h
    · simp only [ha] at h
      cases h
      exact .refused rfl ha
    · simp only [ha] at h
      cases h
      refine .logged rfl ?_
      rw [hk]
      exact ha

theorem callUnder_cases (h : s.callUnder X fault op = some (s', r)) :
    CalledUnder X fault (s.planned X op) s s' r ∨
      ∃ config, op = .restart config ∧ Engine.new X config s.wal.dir = some (.ok s') ∧
        r = .ok none := by
  cases op with
  | putMachine name version json =>
    exact .inl (calledUnder_run (keepsWal_planPutMachine name version json) h)
  | createInstance id machine version ctx key =>
    exact .inl (calledUnder_run (keepsWal_planCreateInstance id machine version ctx key) h)
  | applyEvent request => exact .inl (calledUnder_run (keepsWal_planApplyEvent request) h)
  | deleteInstance id key => exact .inl (calledUnder_run (keepsWal_planDeleteInstance id key) h)
  | restart config =>
    simp only [callUnder] at h
    split at h
    · rename_i hnew
      cases h
      exact .inr ⟨config, rfl, hnew, rfl⟩
    · cases h

/-- A restart has the chunks of the log it starts on. -/
theorem repr_new {pre : List (Chunk X.toExternals)} {c : Chunk X.toExternals} {config : WalConfig}
    (h : s.wal.Repr pre c) (hnew : new X config s.wal.dir = some (.ok s')) :
    s'.wal.Repr pre c := by
  obtain ⟨w, hopen, hr, -⟩ := Wal.openDir_of_holds h.holds config
  obtain ⟨stats, hread⟩ := hr.readFrom
  simp only [new, hopen, withWal, hread] at hnew
  split at hnew
  · cases hnew
  · cases hnew
    exact ⟨hr.holds, hr.keys, hr.current⟩

/-- The log holds the records of the calls that did not fail, and ends with a whole one. -/
def Traceless (X : CoreExternals) (s : Engine × List ReadEntry) : Prop :=
  ∃ pre c, s.1.wal.Repr (X := X.toExternals) pre c ∧ c.tail = [] ∧ s.2 = entries (pre ++ [c])

theorem traceless_step {s t : Engine × List ReadEntry} {op : EngineOp × Option IoFault}
    (h : Traceless X s) (hs : SyncWorks X s op) (hstep : faultyStep X s op = some t) :
    Traceless X t := by
  obtain ⟨pre, c, hr, hc, hacked⟩ := h
  obtain ⟨s, acked⟩ := s
  unfold faultyStep at hstep
  have hcall {e : Engine} {r : Except CoreError (Option ReadEntry)}
      (h : s.callUnder X op.2 op.1 = some (e, r)) :
      Traceless X (e, acked ++ (r.toOption.join.toList)) := by
    obtain hcalled | ⟨config, -, hnew, rfl⟩ := callUnder_cases h
    · cases hcalled with
      | answered | rejected => exact ⟨pre, c, hr, hc, by simpa [Except.toOption] using hacked⟩
      | @refused entry wal err planned failed =>
        have hns : ¬ s.wal.SyncFails X.toExternals op.2 entry := fun hf => hs ⟨entry, planned, hf⟩
        obtain ⟨pre', c', hr', hc', he⟩ := hr.appendUnder hc hns failed
        refine ⟨pre', c', hr', hc', ?_⟩
        simpa [Except.toOption, show entries (pre' ++ [c']) = _ from he] using hacked
      | @logged entry s' seq off planned appended =>
        have hns : ¬ s.wal.SyncFails X.toExternals op.2 entry := fun hf => hs ⟨entry, planned, hf⟩
        obtain ⟨pre', c', hr', hc', he⟩ := hr.appendUnder hc hns appended
        refine ⟨pre', c', hr', hc', ?_⟩
        simp only at hacked
        simp [Except.toOption, hacked, show entries (pre' ++ [c']) = _ from he]
    · exact ⟨pre, c, repr_new hr hnew, hc, by simpa [Except.toOption] using hacked⟩
  split at hstep
  · cases hstep
  · rename_i e err h
    cases hstep
    simpa [Except.toOption] using hcall h
  · rename_i e r h
    cases hstep
    simpa [Except.toOption] using hcall h

/-- A call that returns an error leaves the memory and the cache as they were. -/
theorem callUnder_error {e : CoreError} (h : s.callUnder X fault op = some (s', .error e)) :
    s'.toMemory = s.toMemory ∧ s'.idempotencyCache = s.idempotencyCache := by
  obtain hcalled | ⟨config, -, -, hr⟩ := callUnder_cases h
  · cases hcalled <;> exact ⟨rfl, rfl⟩
  · cases hr

end

/-- In every run in which no fsync fails, whatever else does: a start on the log
replays the records of the calls that returned without an error, and no other. Any call
that returns an error leaves definitions, instances and cache as they were. -/
theorem failed_calls_leave_nothing (X : CoreExternals) {config : WalConfig} {s₀ s : Engine}
    {ops : List (EngineOp × Option IoFault)} {acked : List ReadEntry}
    (hopen : new X config ∅ = some (.ok s₀))
    (synced : Meets (faultyStep X) (SyncWorks X) (s₀, []) ops)
    (hrun : run (faultyStep X) (s₀, []) ops = some (s, acked)) :
    Replays X s.wal.dir acked ∧
      ∀ fault op s' e, s.callUnder X fault op = some (s', .error e) →
        s'.definitions = s.definitions ∧ s'.instances = s.instances ∧
          s'.idempotencyCache = s.idempotencyCache := by
  have start : Traceless X (s₀, []) := by
    obtain rfl := eq_fresh_of_new hopen
    exact ⟨[], _, repr_fresh X config, rfl, rfl⟩
  obtain ⟨pre, c, hr, -, hacked⟩ :=
    run_keeps_of_meets (P := Traceless X) (fun _ _ _ => traceless_step) start synced hrun
  constructor
  · intro config'
    obtain ⟨w, hopen', hr', -⟩ := Wal.openDir_of_holds hr.holds config'
    obtain ⟨stats, hread⟩ := hr'.readFrom
    simp only at hacked
    exact ⟨w, _, hopen', by rw [hread, hacked]⟩
  · intro fault op s' e hcall
    obtain ⟨hm, hc⟩ := callUnder_error hcall
    exact ⟨congrArg Memory.definitions hm, congrArg Memory.instances hm, hc⟩

set_option maxRecDepth 4000 in
/-- A write that fails, an fsync that no policy asks for, and a rejected call. -/
theorem failed_calls_leave_nothing_unsynced :
    ∃ t, run (faultyStep serdeCore) (fresh ⟨1000, .never⟩, [])
        [(.putMachine "m" 1 loopMachine, none), (.createInstance "i" "m" 1 .null none, some .write),
          (.createInstance "i" "m" 1 .null none, some .sync),
          (.createInstance "i" "m" 1 .null none, none)] = some t ∧
      t.2.length = 2 ∧ Replays serdeCore t.1.wal.dir t.2 := by
  refine run_exists (p := fun t => t.2.length = 2) (by decide +kernel) ?_
  intro t hrun hlen
  exact ⟨hlen, (failed_calls_leave_nothing serdeCore (new_empty serdeCore _) (by decide +kernel)
    hrun).1⟩

/-- The records of a machine and of an instance. -/
def machineEntries : List WalEntry :=
  [.putMachine "m" 1 "6c3fccfb" loopMachine, .createInstance "i" "m" 1 "a" .null none]

/-- Whether a start on the directory has the instance. -/
def startsWith (X : CoreExternals) (dir : Dir) (id : String) : Bool :=
  match new X ⟨1000, .everyWrite⟩ dir with
  | some (.ok s) => s.instances.contains id
  | _ => false

set_option maxRecDepth 4000 in
/-- The fsync after the record of a new instance fails: the caller gets the error and
the instance is not there, but after a restart it is. -/
theorem failed_fsync_replayed :
    ∃ t, run (faultyStep serdeCore) (fresh ⟨1000, .everyWrite⟩, [])
        [(.putMachine "m" 1 loopMachine, none)] = some t ∧
      ∃ s' e, t.1.callUnder serdeCore (some .sync) (.createInstance "i" "m" 1 .null none) =
          some (s', .error e) ∧
        s'.instances.contains "i" = false ∧ startsWith serdeCore s'.wal.dir "i" = true := by
  rw [← serdeCoreReading_eq machineEntries]
  let X := serdeCoreReading machineEntries
  refine run_exists (p := fun t =>
    (t.1.callUnder X (some .sync) (.createInstance "i" "m" 1 .null none)).any (fun q =>
      q.2.toOption.isNone && !q.1.instances.contains "i" && startsWith X q.1.wal.dir "i") = true)
    (by decide +kernel) ?_
  intro t _ hcall
  obtain ⟨⟨s', r⟩, hc, hq⟩ := (Option.any_eq_true _ _).mp hcall
  simp only [Bool.and_eq_true, Bool.not_eq_true'] at hq
  cases r with
  | ok r => cases hq.1.1
  | error e => exact ⟨s', e, hc, hq.1.2, hq.2⟩

end Engine

end Rstmdb

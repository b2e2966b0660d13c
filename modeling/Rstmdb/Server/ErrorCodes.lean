import Rstmdb.Core.Validation
import Rstmdb.Server.CallStates
import Rstmdb.Server.Loss
import Rstmdb.Server.Panic

/-! The codes of errors. While files can be written, a request is told to try again for two
reasons only, and neither goes away: a definition that is rejected comes back as an
internal error, and an entry that is too large for the log as a failure of the log. -/
namespace Rstmdb
open Json (Value)

/-- The error has a code that is retryable or is `INTERNAL_ERROR`. -/
def ServerError.blamesSystem (e : ServerError) : Bool :=
  e.errorCode.isRetryable || e.errorCode = .internalError

/-- The errors of the engine that are reported so. -/
def CoreError.blamesSystem : CoreError → Bool
  | .invalidDefinition _ | .invalidGuard _ | .json | .wal _ => true
  | _ => false

theorem ServerError.blamesSystem_core (e : CoreError) :
    (ServerError.core e).blamesSystem = e.blamesSystem := by
  cases e <;> rfl

/-! ## Requests that are turned down -/

/-- The definition in a request that comes to it is rejected. -/
def rejectsDefinition (X : ServerExternals) (c : CommandHandler) (s : Shared) (params : Value) :
    Operation → Bool
  | .putMachine =>
    (PutMachineParams.fromValue params).any fun p =>
      !versionLimitReached c s.engine p.machine p.version &&
        match MachineDefinition.fromJson X.toCoreExternals p.machine p.version p.definition with
        | some (.error _) => true
        | _ => false
  | _ => false

variable {X : ServerExternals} {k : Call}

variable {c : CommandHandler} {w w' : Wal} {entry : WalEntry}
  {res : Except WalError (UInt64 × WalOffset)}

theorem rejectsDefinition_of_ne {s : Shared} {params : Value} {op : Operation}
    (h : op ≠ .putMachine) : rejectsDefinition X c s params op = false := by
  cases op
  case putMachine => exact absurd rfl h
  all_goals rfl

/-- The entry would not fit in a record. -/
def tooLarge (X : Externals) (entry : WalEntry) : Bool := maxRecordSize < (X.toVec entry).length

/-! ## The log -/

theorem appendLocked_refused_iff {X : Externals} {v : Wal} {seg : Segment}
    (hcur : v.current = some seg) (h : v.appendLocked (w.nextRecord X entry) = some (w', res)) :
    (∃ e, res = .error e) ↔ tooLarge X entry = true := by
  rw [tooLarge, decide_eq_true_iff]
  obtain ⟨hlarge, -, rfl⟩ | ⟨hfits, -, -, rfl⟩ := Wal.appendLocked_cases hcur h
  · exact ⟨fun _ => hlarge, fun _ => ⟨_, rfl⟩⟩
  · constructor
    · rintro ⟨e, ⟨⟩⟩
    · exact fun hlarge => absurd hlarge (Nat.not_lt.mpr hfits)

/-- An open log refuses an entry only for its size. -/
theorem append_refused_iff {X : Externals} {pre : List (Chunk X)} {c : Chunk X} (h : w.Repr pre c)
    (opened : w.closed = false) (ha : w.append X entry = some (w', res)) :
    (∃ e, res = .error e) ↔ tooLarge X entry = true := by
  obtain ⟨hclosed, -⟩ | ⟨-, -, hid, -⟩ | ⟨-, -, -, ha⟩ | ⟨-, -, ha⟩ := Wal.append_cases ha
  · rw [opened] at hclosed
    cases hclosed
  · rw [h.rotateSegment.1] at hid
    cases hid
  · exact appendLocked_refused_iff rfl ha
  · obtain ⟨seg, hcur, -⟩ := h.current
    exact appendLocked_refused_iff (v := w.drawSequence.2) hcur ha

/-! ## The engine -/

/-- The log of the engine is open and in order: it refuses only what is too large. -/
def Engine.Ready (X : CoreExternals) (s : Engine) : Prop :=
  ∀ entry wal res, s.wal.append X.toExternals entry = some (wal, res) →
    ((∃ e, res = .error e) ↔ tooLarge X.toExternals entry = true)

namespace Engine

variable {X : CoreExternals} {s s' : Engine} {e : CoreError}

variable {name id : String} {version : UInt32}

theorem getMachine_error (h : s.getMachine name version = .error e) : e.blamesSystem = false := by
  unfold getMachine at h
  split at h <;> cases h
  rfl

theorem getInstance_error (h : s.getInstance id = .error e) : e.blamesSystem = false := by
  unfold getInstance at h
  split at h <;> cases h
  rfl

theorem Ready.append (h : s.Ready X) {entry : WalEntry}
    (ha : s.append X entry = some (s', .error e)) :
    e.blamesSystem = true ∧ tooLarge X.toExternals entry = true := by
  unfold Engine.append at ha
  split at ha
  · cases ha
  · rename_i hw
    cases ha
    exact ⟨rfl, (h _ _ _ hw).mp ⟨_, rfl⟩⟩
  · cases ha

variable {α : Type} {plan : Plan α} {json : Value} {key : Option String} {r : EventRequest}

/-- Unless its answer is the error, a call fails because its entry is too large. -/
theorem Ready.run_iff (h : s.Ready X)
    (hp : returned (plan.run (Engine.append X) s) = some (s', .error e))
    (answered : plan = .answer (.error e) → e.blamesSystem = false) :
    e.blamesSystem = true ↔ plan.entry.any (tooLarge X.toExternals) = true := by
  cases plan with
  | answer res =>
    cases res <;> cases hp
    simp [answered rfl, Plan.entry]
  | panics => cases hp
  | log entry finish =>
    simp only [Plan.run] at hp
    split at hp <;> cases hp
    rename_i ha
    exact iff_of_true (h.append ha).1 (h.append ha).2

theorem Ready.putMachine (h : s.Ready X)
    (hp : s.putMachine X name version json = some (s', .error e)) :
    e.blamesSystem = true ↔
      (∃ e', MachineDefinition.fromJson X name version json = some (.error e')) ∨
        (s.planned X (.putMachine name version json)).any (tooLarge X.toExternals) = true := by
  rw [putMachine_eq_plan] at hp
  by_cases hj : ∃ e', MachineDefinition.fromJson X name version json = some (.error e')
  · obtain ⟨e', hj⟩ := hj
    have hplan : s.planPutMachine X name version json = .answer (.error e') := by
      simp only [planPutMachine, hj]
    rw [hplan] at hp
    cases hp
    refine iff_of_true ?_ (.inl ⟨e, hj⟩)
    obtain rfl | ⟨_, rfl⟩ | ⟨_, rfl⟩ := MachineDefinition.fromJson_error hj <;> rfl
  · refine (h.run_iff hp fun hplan => ?_).trans (or_iff_right hj).symm
    unfold planPutMachine at hplan
    split at hplan
    · cases hplan
    · rename_i e' he
      exact absurd ⟨e', he⟩ hj
    · split at hplan <;> cases hplan
      rfl
    · cases hplan

theorem putMachine_rejected
    (hj : MachineDefinition.fromJson X name version json = some (.error e)) :
    s.putMachine X name version json = some (s, .error e) := by
  unfold Engine.putMachine
  split <;> rw [hj]

theorem Ready.createInstance (h : s.Ready X) {machine : String} {ctx : Value}
    (hc : s.createInstance X id machine version ctx key = some (s', .error e)) :
    e.blamesSystem = true ↔ (s.planned X (.createInstance id machine version ctx key)).any
      (tooLarge X.toExternals) = true := by
  rw [createInstance_eq_plan] at hc
  refine h.run_iff hc fun hplan => ?_
  unfold planCreateInstance at hplan
  split at hplan
  · cases hplan
  split at hplan
  · cases hplan
    rfl
  split at hplan <;> cases hplan
  rename_i hm
  exact getMachine_error hm

theorem targetOf_error {i : Instance} (h : s.targetOf r i = .error e) : e.blamesSystem = false := by
  have hstate : ∀ e', checkExpectedState i r.expectedState = .error e' →
      e'.blamesSystem = false := by
    intro e' he
    unfold checkExpectedState at he
    split at he
    · cases he
    · split at he <;> cases he
      rfl
  have hoffset : ∀ e', checkExpectedWalOffset i r.expectedWalOffset = .error e' →
      e'.blamesSystem = false := by
    intro e' he
    unfold checkExpectedWalOffset at he
    split at he
    · cases he
    · split at he <;> cases he
      rfl
  unfold targetOf at h
  simp only [bind, Except.bind] at h
  split at h
  · rename_i he
    cases h
    exact hstate e he
  split at h
  · rename_i he
    cases h
    exact hoffset e he
  split at h
  · rename_i he
    cases h
    exact getMachine_error he
  split at h
  · cases h
    rfl
  · split at h <;> cases h
    rfl

theorem Ready.applyEvent (h : s.Ready X) (ha : s.applyEvent X r = some (s', .error e)) :
    e.blamesSystem = true ↔
      (s.planned X (.applyEvent r)).any (tooLarge X.toExternals) = true := by
  rw [applyEvent_eq_plan] at ha
  refine h.run_iff ha fun hplan => ?_
  unfold planApplyEvent at hplan
  split at hplan
  · cases hplan
  split at hplan
  · rename_i hi
    cases hplan
    exact getInstance_error hi
  split at hplan <;> cases hplan
  rename_i ht
  exact targetOf_error ht

theorem Ready.deleteInstance (h : s.Ready X)
    (hd : s.deleteInstance X id key = some (s', .error e)) : e.blamesSystem = true ↔
      (s.planned X (.deleteInstance id key)).any (tooLarge X.toExternals) = true := by
  rw [deleteInstance_eq_plan] at hd
  refine h.run_iff hd fun hplan => ?_
  unfold planDeleteInstance at hplan
  split at hplan
  · rename_i hi
    cases hplan
    exact getInstance_error hi
  · split at hplan <;> cases hplan

end Engine

/-! ## The handler -/

section
variable {X : ServerExternals} {c : CommandHandler} {s s' : Shared} {params : Value}
  {e : ServerError}

@[simp] theorem blamesSystem_invalidRequest (reason : String) :
    (ServerError.invalidRequest reason).blamesSystem = false := rfl

@[simp] theorem blamesSystem_authFailed (reason : String) :
    (ServerError.authFailed reason).blamesSystem = false := rfl

@[simp] theorem blamesSystem_versionLimit (reason : String) :
    (ServerError.machineVersionLimitExceeded reason).blamesSystem = false := rfl

@[simp] theorem blamesSystem_badParams (op : Operation) (params : Value) :
    (badParams X op params).blamesSystem = false := rfl

theorem blamesSystem_core_of {e : CoreError} (h : e.blamesSystem = false) :
    (ServerError.core e).blamesSystem = false := by
  rw [ServerError.blamesSystem_core, h]

theorem handlePutMachine_blames (ready : s.engine.Ready X.toCoreExternals)
    (h : handlePutMachine X c s params = some (s', .error e)) :
    e.blamesSystem = true ↔ rejectsDefinition X c s params .putMachine = true ∨
      (wantedEntry X c s params .putMachine).any (tooLarge X.toExternals) = true := by
  unfold handlePutMachine at h
  split at h
  · rename_i hp
    cases h
    simp [rejectsDefinition, wantedEntry, hp]
  rename_i p hp
  split at h
  · rename_i hlimit
    cases h
    simp [rejectsDefinition, wantedEntry, hp, hlimit]
  rename_i hlimit
  split at h
  · cases h
  · rename_i hput
    cases h
    rw [ServerError.blamesSystem_core, ready.putMachine hput]
    simp only [rejectsDefinition, wantedEntry, hp, hlimit, Option.any_some, Option.bind_some,
      Bool.not_false, Bool.true_and, Bool.false_eq_true, if_false]
    refine or_congr ?_ Iff.rfl
    cases MachineDefinition.fromJson X.toCoreExternals p.machine p.version p.definition with
    | none => simp
    | some out => cases out <;> simp
  · cases h

theorem handlePutMachine_rejected (hr : rejectsDefinition X c s params .putMachine = true) :
    ∃ e, handlePutMachine X c s params = some (s, .error e) ∧ e.errorCode = .internalError := by
  obtain ⟨p, hp, hr⟩ := (Option.any_eq_true _ _).mp hr
  simp only [Bool.and_eq_true, Bool.not_eq_true'] at hr
  obtain ⟨hlimit, hr⟩ := hr
  split at hr
  · rename_i e hj
    have hput := Engine.putMachine_rejected (s := s.engine) hj
    refine ⟨.core e, ?_, ?_⟩
    · simp only [handlePutMachine, hp, hlimit, hput, Bool.false_eq_true, if_false]
    · obtain rfl | ⟨_, rfl⟩ | ⟨_, rfl⟩ := MachineDefinition.fromJson_error hj <;> rfl
  · cases hr

section
variable (ready : s.engine.Ready X.toCoreExternals)
include ready

theorem handleCreateInstance_blames (h : handleCreateInstance X s params = some (s', .error e)) :
    e.blamesSystem = true ↔
      (wantedEntry X c s params .createInstance).any (tooLarge X.toExternals) = true := by
  unfold handleCreateInstance at h
  split at h
  · rename_i hp
    cases h
    simp [wantedEntry, hp]
  rename_i p hp
  simp only at h
  cases hid : p.instanceId <;> simp only [hid] at h <;>
  · split at h
    · cases h
    · rename_i hcreate
      cases h
      rw [ServerError.blamesSystem_core, ready.createInstance hcreate]
      simp only [wantedEntry, hp, hid, Option.bind_some, Option.getD_some, Option.getD_none]
    · cases h

theorem handleApplyEvent_blames (h : handleApplyEvent X s params = some (s', .error e)) :
    e.blamesSystem = true ↔
      (wantedEntry X c s params .applyEvent).any (tooLarge X.toExternals) = true := by
  unfold handleApplyEvent at h
  split at h
  · rename_i hp
    cases h
    simp [wantedEntry, hp]
  rename_i p hp
  split at h
  · rename_i hi
    cases h
    have hnone : s.engine.planned X.toCoreExternals (.applyEvent p.request) = none := by
      have hi' : s.engine.getInstance p.request.instanceId = .error _ := hi
      simp only [Engine.planned, Engine.planApplyEvent, hi']
      cases s.engine.cachedResult p.request.instanceId p.request.idempotencyKey <;> rfl
    simp [wantedEntry, hp, hnone, blamesSystem_core_of (Engine.getInstance_error hi)]
  · split at h
    · cases h
    · rename_i happly
      cases h
      rw [ServerError.blamesSystem_core, ready.applyEvent happly]
      simp only [wantedEntry, hp, Option.bind_some]
    · cases h

theorem handleDeleteInstance_blames (h : handleDeleteInstance X s params = some (s', .error e)) :
    e.blamesSystem = true ↔
      (wantedEntry X c s params .deleteInstance).any (tooLarge X.toExternals) = true := by
  unfold handleDeleteInstance at h
  split at h
  · rename_i hid
    cases h
    simp [wantedEntry, hid]
  rename_i id hid
  split at h
  · cases h
  · rename_i hdelete
    cases h
    rw [ServerError.blamesSystem_core, ready.deleteInstance hdelete]
    simp only [wantedEntry, hid, Option.bind_some]
  · cases h

end

/-! ## Snapshots -/

/-- All snapshots from this number on can be written. -/
def writableFrom (X : ServerExternals) (n : Nat) : Prop :=
  ∀ m, n ≤ m → snapshotOutcome X m = .done

variable {store store' : SnapshotStore} {handle : Shared → Session → Request → Handled Response}

section
variable (writable : writableFrom X s.uuids)
include writable

theorem takeSnapshot_writable {i : Instance}
    {res : Except StorageError SnapshotMeta} (h : s.takeSnapshot X store i = (s', store', res)) :
    (∃ entry, res = .ok entry) ∧ writableFrom X s'.uuids := by
  obtain ⟨hn, hok, -⟩ := takeSnapshot_index h
  refine ⟨hok.mpr (writable _ (Nat.le_refl _)), fun m hm => writable m ?_⟩
  omega

theorem snapshotInstances_writable {force : Bool} {is : List Instance} {created : Nat}
    {res : Except StorageError Nat}
    (h : snapshotInstances X force is s store created = (s', store', res)) : ∃ n, res = .ok n := by
  induction is generalizing s store created with
  | nil =>
    cases h
    exact ⟨_, rfl⟩
  | cons i is ih =>
    unfold snapshotInstances at h
    split at h
    · split at h
      · rename_i ht
        obtain ⟨⟨_, ⟨⟩⟩, -⟩ := takeSnapshot_writable writable ht
      · rename_i ht
        exact ih (takeSnapshot_writable writable ht).2 h
    · exact ih writable h

theorem handleSnapshotInstance_blames
    (h : handleSnapshotInstance X s params = (s', .error e)) : e.blamesSystem = false := by
  unfold handleSnapshotInstance at h
  split at h
  · cases h
    rfl
  split at h
  · rename_i hi
    cases h
    exact blamesSystem_core_of (Engine.getInstance_error hi)
  split at h
  · split at h
    · rename_i ht
      obtain ⟨⟨_, ⟨⟩⟩, -⟩ := takeSnapshot_writable writable ht
    · cases h
  · cases h

theorem handleCompact_blames
    (h : handleCompact X s params = (s', .error e)) : e.blamesSystem = false := by
  unfold handleCompact at h
  simp only at h
  split at h
  · cases h
    rfl
  split at h
  · rename_i hs
    obtain ⟨_, ⟨⟩⟩ := snapshotInstances_writable writable hs
  · cases h

end

theorem handleWalRead_blames (readable : ∀ start limit, ∃ wal es,
      s.engine.wal.readFrom X.toExternals start limit = some (wal, .ok es))
    (h : handleWalRead X s params = some (s', .error e)) : e.blamesSystem = false := by
  unfold handleWalRead at h
  split at h
  · cases h
    rfl
  rename_i start hstart
  simp only at h
  obtain ⟨wal, es, hread⟩ := readable ⟨start.toNat⟩
    ((params.index "limit").asU64.map UInt64.toNat)
  rw [hread] at h
  cases h

/-! ## Every operation -/

variable {ses ses' : Session}

theorem handleHello_blames (h : (handleHello X c ses params).2 = .error e) :
    e.blamesSystem = false := by
  unfold handleHello at h
  split at h
  · cases h
    rfl
  · split at h <;> cases h
    rfl

theorem handleAuth_blames (h : (handleAuth X c ses params).2 = .error e) :
    e.blamesSystem = false := by
  unfold handleAuth at h
  split at h
  · cases h
    rfl
  simp only at h
  split at h
  · cases h
    rfl
  · split at h <;> split at h <;> cases h <;> rfl

theorem handleGetMachine_blames (h : handleGetMachine X s params = .error e) :
    e.blamesSystem = false := by
  unfold handleGetMachine at h
  split at h
  · cases h
    rfl
  split at h
  · rename_i hm
    cases h
    exact blamesSystem_core_of (Engine.getMachine_error hm)
  · cases h

theorem handleGetInstance_blames (h : handleGetInstance X s params = .error e) :
    e.blamesSystem = false := by
  unfold handleGetInstance at h
  split at h
  · cases h
    rfl
  split at h
  · rename_i hi
    cases h
    exact blamesSystem_core_of (Engine.getInstance_error hi)
  · cases h

theorem handleListInstances_blames (h : handleListInstances X s params = .error e) :
    e.blamesSystem = false := by
  unfold handleListInstances at h
  split at h <;> cases h
  rfl

theorem handleWatchInstance_blames (h : (handleWatchInstance X s ses params).2.2 = .error e) :
    e.blamesSystem = false := by
  unfold handleWatchInstance at h
  split at h
  · cases h
    rfl
  split at h
  · rename_i hi
    cases h
    exact blamesSystem_core_of (Engine.getInstance_error hi)
  · split at h <;> cases h
    rfl

theorem handleWatchAll_blames (h : handleWatchAll X s ses params = some (s', ses', .error e)) :
    e.blamesSystem = false := by
  unfold handleWatchAll at h
  split at h
  · cases h
    rfl
  split at h
  · cases h
    rfl
  · obtain ⟨_, -, hout⟩ := Option.map_eq_some_iff.mp h
    cases hout

theorem handleUnwatch_blames (h : (handleUnwatch X s ses params).2.2 = .error e) :
    e.blamesSystem = false := by
  unfold handleUnwatch at h
  split at h <;> cases h
  rfl

theorem error_of_map {α β : Type} {f : α → β} {r : Except ServerError α}
    (h : r.map f = .error e) : r = .error e := by
  cases r with
  | error =>
    cases h
    rfl
  | ok => cases h

/-- An operation is answered with an error that blames the system if its definition is
rejected or its entry is too large, and for no other reason. -/
theorem execute_blames {op : Operation} (ready : s.engine.Ready X.toCoreExternals)
    (writable : writableFrom X s.uuids)
    (readable : ∀ start limit, ∃ wal es,
      s.engine.wal.readFrom X.toExternals start limit = some (wal, .ok es))
    (h : execute X c s ses op params = some (s', ses', .error e)) :
    e.blamesSystem = true ↔ rejectsDefinition X c s params op = true ∨
      (wantedEntry X c s params op).any (tooLarge X.toExternals) = true := by
  have other (hop : ∀ params, rejectsDefinition X c s params op = false ∧
      wantedEntry X c s params op = none) (he : e.blamesSystem = false) :
      e.blamesSystem = true ↔ rejectsDefinition X c s params op = true ∨
        (wantedEntry X c s params op).any (tooLarge X.toExternals) = true := by
    simp [he, hop params]
  unfold execute at h
  cases op <;> dsimp only at h
  case putMachine =>
    obtain ⟨⟨_, _⟩, hp, hout⟩ := Option.map_eq_some_iff.mp h
    cases hout
    exact handlePutMachine_blames ready hp
  case createInstance =>
    obtain ⟨⟨_, _⟩, hp, hout⟩ := Option.map_eq_some_iff.mp h
    cases hout
    rw [handleCreateInstance_blames (c := c) ready hp]
    simp [rejectsDefinition]
  case applyEvent =>
    obtain ⟨⟨_, _⟩, hp, hout⟩ := Option.map_eq_some_iff.mp h
    cases hout
    rw [handleApplyEvent_blames (c := c) ready hp]
    simp [rejectsDefinition]
  case deleteInstance =>
    obtain ⟨⟨_, _⟩, hp, hout⟩ := Option.map_eq_some_iff.mp h
    cases hout
    rw [handleDeleteInstance_blames (c := c) ready hp]
    simp [rejectsDefinition]
  all_goals refine other (fun _ => ⟨rfl, rfl⟩) ?_
  case ping | bye | info | listMachines | batch => cases h
  case hello => exact handleHello_blames (congrArg (·.2.2) (Option.some.inj h))
  case auth => exact handleAuth_blames (congrArg (·.2.2) (Option.some.inj h))
  case getMachine => exact handleGetMachine_blames (congrArg (·.2.2) (Option.some.inj h))
  case getInstance => exact handleGetInstance_blames (congrArg (·.2.2) (Option.some.inj h))
  case listInstances => exact handleListInstances_blames (congrArg (·.2.2) (Option.some.inj h))
  case snapshotInstance =>
    have hout := Option.some.inj h
    exact handleSnapshotInstance_blames writable (Prod.ext rfl (congrArg (·.2.2) hout))
  case walRead =>
    obtain ⟨⟨_, _⟩, hr, hout⟩ := Option.map_eq_some_iff.mp h
    cases hout
    exact handleWalRead_blames readable hr
  case walStats =>
    obtain ⟨_, hr, hout⟩ := Option.map_eq_some_iff.mp h
    obtain ⟨_, -, rfl⟩ := Option.map_eq_some_iff.mp hr
    cases hout
  case compact =>
    have hout := Option.some.inj h
    exact handleCompact_blames writable (Prod.ext rfl (congrArg (·.2.2) hout))
  case watchInstance =>
    exact handleWatchInstance_blames (error_of_map (congrArg (·.2.2) (Option.some.inj h)))
  case watchAll =>
    obtain ⟨⟨_, _, _⟩, hr, hout⟩ := Option.map_eq_some_iff.mp h
    simp only [Prod.mk.injEq] at hout
    rw [error_of_map hout.2.2] at hr
    exact handleWatchAll_blames hr
  case unwatch => exact handleUnwatch_blames (congrArg (·.2.2) (Option.some.inj h))

theorem batchOps_error {mode : String} {ops : List Value}
    (h : batchOps X handle mode ops s ses = some (s', ses', .error e)) :
    ∃ reason, e = .invalidRequest reason := by
  induction ops generalizing s ses with
  | nil => cases h
  | cons op ops ih =>
    unfold batchOps at h
    split at h
    · cases h
      exact ⟨_, rfl⟩
    split at h
    · cases h
      exact ⟨_, rfl⟩
    split at h
    · cases h
    split at h
    · cases h
      exact ⟨_, rfl⟩
    split at h
    · cases h
    · rename_i hrest
      cases h
      exact ih hrest
    · cases h

theorem handleBatch_error (h : handleBatch X c handle s ses params = some (s', ses', .error e)) :
    ∃ reason, e = .invalidRequest reason := by
  unfold handleBatch at h
  simp only at h
  split at h
  · cases h
    exact ⟨_, rfl⟩
  split at h
  · cases h
    exact ⟨_, rfl⟩
  split at h
  · cases h
  · rename_i hops
    cases h
    exact batchOps_error hops
  · cases h

end

/-! ## Calls -/

/-- The call is let in, and its definition is rejected. -/
def Call.definitionRejected (X : ServerExternals) (c : CommandHandler) (k : Call) : Bool :=
  !(c.requiresAuth k.request.op && !k.session.authenticated) &&
    rejectsDefinition X c k.shared k.request.params k.request.op

/-- The call is let in, and the entry it wants to log is too large for a record. -/
def Call.oversized (X : ServerExternals) (c : CommandHandler) (k : Call) : Bool :=
  !(c.requiresAuth k.request.op && !k.session.authenticated) &&
    (wantedEntry X c k.shared k.request.params k.request.op).any (tooLarge X.toExternals)

theorem responseOf_error {id : String} {answer : Answered} {e : ResponseError}
    (h : (responseOf X id answer).error = some e) :
    ∃ err, answer = .error err ∧ e.code = err.errorCode ∧
      e.retryable = err.errorCode.isRetryable := by
  cases answer with
  | ok => cases h
  | error err =>
    cases h
    exact ⟨err, rfl, rfl, rfl⟩

theorem blamesSystem_false_iff {err : ServerError} :
    err.errorCode.isRetryable = false ∧ err.errorCode ≠ .internalError ↔
      ¬ err.blamesSystem = true := by
  simp [ServerError.blamesSystem]

theorem Call.Sound.ready (h : k.Sound X) : k.shared.engine.Ready X.toCoreExternals := by
  obtain ⟨compaction, pre, ch, hsound⟩ := h.sound
  intro entry wal res ha
  exact append_refused_iff hsound.engine.repr h.opened ha

theorem Call.Sound.readable (h : k.Sound X) (start : WalOffset) (limit : Option Nat) :
    ∃ wal es, k.shared.engine.wal.readFrom X.toExternals start limit = some (wal, .ok es) := by
  obtain ⟨compaction, pre, ch, hsound⟩ := h.sound
  obtain ⟨stats, hread⟩ := hsound.engine.repr.readFrom_start start limit
  exact ⟨_, _, hread⟩

/-- The codes of errors. For every call of `handle` in every run, at top level or in a
batch, while snapshots can be written: an error that it returns is not retryable and not
`INTERNAL_ERROR` if and only if the call has no definition that is rejected and no entry
that is too large. A definition that is rejected always comes back as a retryable
`INTERNAL_ERROR`. -/
theorem error_not_blamed_iff (X : ServerExternals) {config : ServerConfig}
    {server₀ server : Server} (started : Server.start X config ∅ .empty 0 = some (.ok server₀))
    {ops : List ServerOp} (hrun : run (Server.step X) server₀ ops = some server)
    {c : CommandHandler} {k : Call} (hk : .called c k ∈ server₀.trace X ops)
    (writable : writableFrom X k.shared.uuids) {s' : Shared} {ses' : Session} {r : Response}
    (hh : handle X c k.shared k.session k.request = some (s', ses', r)) :
    (∀ e, r.error = some e → ((e.retryable = false ∧ e.code ≠ .internalError) ↔
        k.definitionRejected X c = false ∧ k.oversized X c = false)) ∧
      (k.definitionRejected X c = true →
        ∃ e, r.error = some e ∧ e.code = .internalError ∧ e.retryable = true) := by
  obtain rfl := Server.eq_fresh_of_start started
  have hsound := calls_sound hrun hk
  obtain ⟨hauth, -, -, rfl⟩ | ⟨hauth, answer, rfl, ⟨hbatch, hh⟩ | ⟨-, hh⟩⟩ := handle_cases hh
  · simp only [Call.definitionRejected, Call.oversized, hauth]
    refine ⟨?_, nofun⟩
    rintro e ⟨⟩
    exact iff_of_true (by decide) ⟨rfl, rfl⟩
  · have hnone : k.definitionRejected X c = false ∧ k.oversized X c = false := by
      simp [Call.definitionRejected, Call.oversized, hbatch, rejectsDefinition, wantedEntry]
    refine ⟨fun e he => ?_, fun hr => ?_⟩
    · obtain ⟨err, rfl, hcode, hretry⟩ := responseOf_error he
      obtain ⟨reason, rfl⟩ := handleBatch_error hh
      exact iff_of_true ⟨hretry, hcode ▸ nofun⟩ hnone
    · rw [hnone.1] at hr
      cases hr
  · simp only [Call.definitionRejected, Call.oversized, hauth, Bool.not_false, Bool.true_and]
    refine ⟨fun e he => ?_, fun hr => ?_⟩
    · obtain ⟨err, rfl, hcode, hretry⟩ := responseOf_error he
      rw [hcode, hretry, blamesSystem_false_iff,
        execute_blames hsound.ready writable hsound.readable hh]
      simp
    · obtain hop | hop : k.request.op = .putMachine ∨ k.request.op ≠ .putMachine := em _
      · rw [hop] at hr hh
        obtain ⟨err, herr, hcode⟩ := handlePutMachine_rejected hr
        unfold execute at hh
        rw [herr] at hh
        cases hh
        exact ⟨_, rfl, hcode, by rw [ResponseError.new, hcode]; rfl⟩
      · rw [rejectsDefinition_of_ne hop] at hr
        cases hr

def getInstanceNamed (id : String) : Request :=
  ⟨"9", .getInstance, .object [("instance_id", .string id)]⟩

/-- A request to put a definition that has no fields. -/
def putNothing : Request :=
  ⟨"10", .putMachine, .object [("definition", .object []), ("machine", .string "m"),
    ("version", .nat 1)]⟩

/-- The request is answered with an error for which this holds. -/
def Call.failsWith (X : ServerExternals) (c : CommandHandler) (k : Call)
    (p : ResponseError → Bool) : Bool :=
  (handle X c k.shared k.session k.request).any fun out => out.2.2.error.any p

theorem Call.failsWith_iff {p : ResponseError → Bool} (h : k.failsWith X c p = true) :
    ∃ s' ses' r e, handle X c k.shared k.session k.request = some (s', ses', r) ∧
      r.error = some e ∧ p e = true := by
  obtain ⟨⟨s', ses', r⟩, hh, he⟩ := (Option.any_eq_true _ _).mp h
  obtain ⟨e, he, hp⟩ := (Option.any_eq_true _ _).mp he
  exact ⟨s', ses', r, e, hh, he, hp⟩

theorem serdeServer_writable (n : Nat) : writableFrom serdeServer n := fun _ _ => rfl

/-- An instance that is not there. -/
theorem error_not_blamed_of_missing :
    ∃ server', run (Server.step serdeServer) (.fresh (openConfig 0))
        [.request (Session.new false) (getInstanceNamed "i")] = some server' ∧
      ∃ c k s' ses' r e, .called c k ∈ (Server.fresh (openConfig 0)).trace serdeServer
          [.request (Session.new false) (getInstanceNamed "i")] ∧
        handle serdeServer c k.shared k.session k.request = some (s', ses', r) ∧
        r.error = some e ∧ e.retryable = false ∧ e.code ≠ .internalError := by
  have htrace : (Server.lastCall ((Server.fresh (openConfig 0)).trace serdeServer
      [.request (Session.new false) (getInstanceNamed "i")])).any (fun p =>
        p.2.failsWith serdeServer p.1 (fun _ => true) && !p.2.definitionRejected serdeServer p.1 &&
          !p.2.oversized serdeServer p.1) = true := by decide +kernel
  refine run_exists (p := fun _ => True) (by decide +kernel) fun server' hrun _ => ?_
  obtain ⟨⟨c, k⟩, hlast, htrace⟩ := (Option.any_eq_true _ _).mp htrace
  simp only [Bool.and_eq_true, Bool.not_eq_true'] at htrace
  obtain ⟨⟨hfails, hdef⟩, hsize⟩ := htrace
  obtain ⟨s', ses', r, e, hh, he, -⟩ := Call.failsWith_iff hfails
  have hk := Server.lastCall_mem hlast
  have hiff := error_not_blamed_iff serdeServer (Server.start_empty rfl) hrun hk
    (serdeServer_writable _) hh
  exact ⟨c, k, s', ses', r, e, hk, hh, he, (hiff.1 e he).mpr ⟨hdef, hsize⟩⟩

/-- A definition that does not deserialise is an internal error, to be tried again. -/
theorem rejected_definition_blamed :
    ∃ server', run (Server.step serdeServer) (.fresh (openConfig 0))
        [.request (Session.new false) putNothing] = some server' ∧
      ∃ c k s' ses' r e, .called c k ∈ (Server.fresh (openConfig 0)).trace serdeServer
          [.request (Session.new false) putNothing] ∧
        writableFrom serdeServer k.shared.uuids ∧ k.request.op = .putMachine ∧
        k.definitionRejected serdeServer c = true ∧
        handle serdeServer c k.shared k.session k.request = some (s', ses', r) ∧
        r.error = some e ∧ e.code = .internalError ∧ e.retryable = true := by
  have htrace : (Server.lastCall ((Server.fresh (openConfig 0)).trace serdeServer
      [.request (Session.new false) putNothing])).any (fun p =>
        (p.2.request.op = .putMachine) && p.2.definitionRejected serdeServer p.1 &&
          p.2.failsWith serdeServer p.1 (fun e => (e.code = .internalError) && e.retryable)) =
      true := by decide +kernel
  refine run_exists (p := fun _ => True) (by decide +kernel) fun server' hrun _ => ?_
  obtain ⟨⟨c, k⟩, hlast, htrace⟩ := (Option.any_eq_true _ _).mp htrace
  simp only [Bool.and_eq_true, decide_eq_true_eq] at htrace
  obtain ⟨⟨hop, hdef⟩, hfails⟩ := htrace
  obtain ⟨s', ses', r, e, hh, he, hcode⟩ := Call.failsWith_iff hfails
  simp only [Bool.and_eq_true, decide_eq_true_eq] at hcode
  exact ⟨c, k, s', ses', r, e, Server.lastCall_mem hlast, serdeServer_writable _, hop, hdef, hh, he,
    hcode⟩

end Rstmdb

import Rstmdb.Server.Notify
import Rstmdb.Server.Context

/-! The compaction manager beside the handler. The manager's task takes its steps between
requests. Its counter of events is raised by `record_event`, which nothing calls, so the
number of events never makes it compact. -/
namespace Rstmdb

structure CompactionConfig where
  enabled : Bool
  eventsThreshold : UInt64
  sizeThresholdMb : UInt64
  minIntervalSecs : UInt64

namespace CompactionConfig

/-- In bytes; a release build wraps. -/
def sizeThreshold (config : CompactionConfig) : UInt64 := config.sizeThresholdMb * 1024 * 1024

/-- In nanoseconds. -/
def minInterval (config : CompactionConfig) : Nat := config.minIntervalSecs.toNat * 10 ^ 9

def isDisabled (config : CompactionConfig) : Bool :=
  !config.enabled || (config.eventsThreshold = 0 && config.sizeThresholdMb = 0)

theorem runs {config : CompactionConfig} (enabled : config.enabled = true)
    (threshold : 0 < config.eventsThreshold) : config.isDisabled = false := by
  have hne : config.eventsThreshold ≠ 0 := (UInt64.ne_of_lt threshold).symm
  simp [isDisabled, enabled, hne]

end CompactionConfig

/-- Where the task of the manager stands in its loop and in `run_compaction`. -/
inductive ManagerTask
  | waiting
  | snapshotting (rest : List Instance) (created : Nat)
  | compacting (created : Nat)
  | resetting (result : CompactionResult)
  | stamping (result : CompactionResult)
  | stopped

/-- The manager without its store, which is part of the server. -/
structure CompactionManager where
  config : CompactionConfig
  eventsSinceCompact : UInt64
  lastCompact : Nat
  shutdown : Bool
  task : ManagerTask

namespace CompactionManager

/-- A manager whose task has begun to run. -/
def new (config : CompactionConfig) (now : Nat) : CompactionManager where
  config := config
  eventsSinceCompact := 0
  lastCompact := now
  shutdown := false
  task := if config.isDisabled then .stopped else .waiting

/-- The notification that goes with it is left out: the task wakes at any time. -/
def recordEvent (m : CompactionManager) : CompactionManager :=
  if m.config.isDisabled then m else { m with eventsSinceCompact := m.eventsSinceCompact + 1 }

def shouldCompact (m : CompactionManager) (now walSize : Nat) : Bool :=
  if m.config.isDisabled then false
  else if now - m.lastCompact < m.config.minInterval then false
  else if 0 < m.config.eventsThreshold && m.config.eventsThreshold ≤ m.eventsSinceCompact then true
  else 0 < m.config.sizeThreshold && m.config.sizeThreshold.toNat ≤ walSize

end CompactionManager

/-- The call applies an event: it is answered with ok, and not from the cache. -/
def Call.applies (X : ServerExternals) (c : CommandHandler) (k : Call) : Bool :=
  k.request.op = .applyEvent && k.succeeds X c && !k.answeredFromCache c

/-- A server with its manager and the time. Beside them stands how many events have been
applied since the last `run_compaction` that has come to its end. -/
structure Managed where
  server : Server
  manager : CompactionManager
  now : Nat
  applied : Nat

/-- A request, time that passes, the manager's task waking up or taking its next step,
or the signal to stop. -/
inductive ManagedOp
  | request (session : Session) (request : Request)
  | pass (nanoseconds : Nat)
  | wake
  | advance
  | shutdown

namespace Managed

def start (config : CompactionConfig) (server : Server) (now : Nat) : Managed :=
  ⟨server, .new config now, now, 0⟩

def shouldCompact (m : Managed) : Bool :=
  m.manager.shouldCompact m.now m.server.shared.engine.wal.totalSize

/-- The task stands here now. -/
def moveTo (m : Managed) (task : ManagerTask) : Managed :=
  { m with manager := { m.manager with task } }

/-- The next step of `run_compaction`. -/
def advance (X : ServerExternals) (m : Managed) : Option Managed :=
  match m.manager.task with
  | .waiting | .stopped => none
  | .snapshotting [] created => some (m.moveTo (.compacting created))
  | .snapshotting (i :: rest) created =>
    if changedSinceSnapshot m.server.compaction i then
      match m.server.shared.takeSnapshot X m.server.compaction i with
      | (shared, compaction, .ok _) =>
        some ({ m with server := { m.server with shared, compaction } }.moveTo
          (.snapshotting rest (created + 1)))
      | (shared, compaction, .error _) =>
        some ({ m with server := { m.server with shared, compaction } }.moveTo
          (.snapshotting rest created))
    else some (m.moveTo (.snapshotting rest created))
  | .compacting created =>
    let (shared, deleted) := m.server.shared.compactTo m.server.compaction.minWalOffset
    some ({ m with server := { m.server with shared } }.moveTo (.resetting ⟨created, deleted⟩))
  | .resetting result =>
    some { m with manager := { m.manager with eventsSinceCompact := 0, task := .stamping result } }
  | .stamping _ =>
    some { m with
      manager := { m.manager with lastCompact := m.now, task := .waiting }
      applied := 0 }

def step (X : ServerExternals) (m : Managed) : ManagedOp → Option Managed
  | .request session request =>
    (m.server.step X (.request session request)).map fun server =>
      { m with
        server
        applied := m.applied + (calls X m.server.handler m.server.shared session request).countP
          (Call.applies X m.server.handler) }
  | .pass nanoseconds => some { m with now := m.now + nanoseconds }
  | .wake =>
    match m.manager.task with
    | .waiting =>
      if m.manager.shutdown then some (m.moveTo .stopped)
      else if m.shouldCompact then
        some (m.moveTo (.snapshotting m.server.shared.engine.getAllInstances 0))
      else some m
    | _ => none
  | .advance => m.advance X
  | .shutdown => some { m with manager := { m.manager with shutdown := true } }

/-! ## A compaction that nothing interrupts -/

section
variable {X : ServerExternals} {m : Managed}

/-- The steps over the instances, taken without a pause, are the loop of `run_compaction`. -/
theorem run_snapshotting (is : List Instance) (created : Nat) :
    ∀ shared compaction created', snapshotChanged X is m.server.shared m.server.compaction created =
        (shared, compaction, created') →
      run (step X) (m.moveTo (.snapshotting is created)) (List.replicate is.length .advance) =
        some ({ m with server := { m.server with shared, compaction } }.moveTo
          (.snapshotting [] created')) := by
  induction is generalizing m created with
  | nil =>
    intro shared compaction created' h
    cases h
    rfl
  | cons i is ih =>
    intro shared compaction created' h
    rw [List.length_cons, List.replicate_succ, run_cons]
    unfold snapshotChanged at h
    split at h
    · rename_i hchanged
      obtain ⟨shared₁, compaction₁, res, ht⟩ : ∃ shared₁ compaction₁ res,
          m.server.shared.takeSnapshot X m.server.compaction i = (shared₁, compaction₁, res) :=
        ⟨_, _, _, rfl⟩
      rw [ht] at h
      let m₁ : Managed := { m with server := { m.server with
        shared := shared₁, compaction := compaction₁ } }
      cases res with
      | ok entry =>
        refine ⟨m₁.moveTo (.snapshotting is (created + 1)), ?_, @ih m₁ _ _ _ _ h⟩
        simp [step, advance, moveTo, hchanged, ht, m₁]
      | error e =>
        refine ⟨m₁.moveTo (.snapshotting is created), ?_, @ih m₁ _ _ _ _ h⟩
        simp [step, advance, moveTo, hchanged, ht, m₁]
    · rename_i hchanged
      refine ⟨m.moveTo (.snapshotting is created), ?_, ih _ _ _ _ h⟩
      simp [step, advance, moveTo, hchanged]

/-- The manager's task, when no request comes between its steps, does what
`run_compaction` does at once. -/
theorem run_compaction_alone (waiting : m.manager.task = .waiting)
    (running : m.manager.shutdown = false) (due : m.shouldCompact = true) :
    run (step X) m (.wake ::
        List.replicate (m.server.shared.engine.getAllInstances.length + 4) .advance) =
      (m.server.step X .compact).map fun server =>
        { m with
          server
          manager := { m.manager with
            eventsSinceCompact := 0, lastCompact := m.now, task := .waiting }
          applied := 0 } := by
  obtain ⟨shared, compaction, created, hloop⟩ : ∃ shared compaction created,
      snapshotChanged X m.server.shared.engine.getAllInstances m.server.shared
        m.server.compaction 0 = (shared, compaction, created) := ⟨_, _, _, rfl⟩
  have hcompact : m.server.step X .compact = some { m.server with
      shared := (shared.compactTo compaction.minWalOffset).1, compaction } := by
    simp [Server.step, runCompaction, hloop]
  have hwake : m.step X .wake =
      some (m.moveTo (.snapshotting m.server.shared.engine.getAllInstances 0)) := by
    simp [step, waiting, running, due]
  rw [hcompact, Option.map_some, run_cons]
  refine ⟨_, hwake, ?_⟩
  rw [List.replicate_add, run_append]
  exact ⟨_, run_snapshotting _ 0 shared compaction created hloop, rfl⟩

/-! ## The counter -/

theorem advance_manager {m' : Managed} (h : m.advance X = some m')
    (hcount : m.manager.eventsSinceCompact = 0) :
    m'.manager.eventsSinceCompact = 0 ∧ m'.manager.config = m.manager.config := by
  unfold advance at h
  split at h
  · cases h
  · cases h
  · cases h
    exact ⟨hcount, rfl⟩
  · split at h
    · split at h <;> cases h <;> exact ⟨hcount, rfl⟩
    · cases h
      exact ⟨hcount, rfl⟩
  · cases h
    exact ⟨hcount, rfl⟩
  · cases h
    exact ⟨rfl, rfl⟩
  · cases h
    exact ⟨hcount, rfl⟩

theorem step_manager {m' : Managed} {op : ManagedOp} (h : m.step X op = some m')
    (hcount : m.manager.eventsSinceCompact = 0) :
    m'.manager.eventsSinceCompact = 0 ∧ m'.manager.config = m.manager.config := by
  cases op with
  | request session request =>
    obtain ⟨server, -, rfl⟩ := Option.map_eq_some_iff.mp h
    exact ⟨hcount, rfl⟩
  | pass | shutdown =>
    cases h
    exact ⟨hcount, rfl⟩
  | wake =>
    simp only [step] at h
    split at h
    · split at h
      · cases h
        exact ⟨hcount, rfl⟩
      · split at h <;> cases h <;> exact ⟨hcount, rfl⟩
    · cases h
  | advance => exact advance_manager h hcount

theorem run_manager {config : CompactionConfig} {server : Server} {now : Nat} {ops : List ManagedOp}
    (h : run (step X) (start config server now) ops = some m) :
    m.manager.eventsSinceCompact = 0 ∧ m.manager.config = config :=
  run_keeps (P := fun m => m.manager.eventsSinceCompact = 0 ∧ m.manager.config = config)
    (fun _ _ _ hm hs => by
      obtain ⟨hcount, hconfig⟩ := step_manager hs hm.1
      exact ⟨hcount, hconfig.trans hm.2⟩) ⟨rfl, rfl⟩ h

end

end Managed

namespace CompactionManager

variable {m : CompactionManager}

theorem recordEvent_iterate (enabled : m.config.isDisabled = false) (n : Nat) :
    recordEvent^[n] m = { m with eventsSinceCompact := m.eventsSinceCompact + UInt64.ofNat n } := by
  induction n with
  | zero => simp
  | succ n ih =>
    rw [Function.iterate_succ_apply', ih, recordEvent, if_neg (by simpa using enabled)]
    congr 1
    rw [UInt64.ofNat_add, ← UInt64.add_assoc]
    rfl

/-- What the counter is for: enough events and enough time make the manager compact. -/
theorem shouldCompact_of_events {now walSize : Nat} (enabled : m.config.enabled = true)
    (threshold : 0 < m.config.eventsThreshold)
    (events : m.config.eventsThreshold ≤ m.eventsSinceCompact)
    (interval : m.config.minInterval ≤ now - m.lastCompact) :
    m.shouldCompact now walSize = true := by
  have hon := CompactionConfig.runs enabled threshold
  simp [shouldCompact, hon, Nat.not_lt.mpr interval, threshold, events]

end CompactionManager

/-- The count of events that automatic compaction goes by. For every run of requests and
steps of the manager in any order, with compaction enabled and an event threshold: the
counter is the number of events applied since the last compaction, and enough of them
lead to a compaction, if and only if no event has been applied since then. Had
`record_event` been called for each of them, enough events would lead to one. -/
theorem events_counted_iff (X : ServerExternals) {config : CompactionConfig}
    (enabled : config.enabled = true) (threshold : 0 < config.eventsThreshold) (server : Server)
    (now : Nat) {ops : List ManagedOp} {m : Managed}
    (hrun : run (Managed.step X) (.start config server now) ops = some m) :
    (m.manager.eventsSinceCompact.toNat = m.applied ∧
        (config.eventsThreshold.toNat ≤ m.applied →
          config.minInterval ≤ m.now - m.manager.lastCompact → m.shouldCompact = true) ↔
      m.applied = 0) ∧
    (config.eventsThreshold.toNat ≤ m.applied → m.applied < 2 ^ 64 →
      config.minInterval ≤ m.now - m.manager.lastCompact →
        Managed.shouldCompact
          { m with manager := CompactionManager.recordEvent^[m.applied] m.manager } = true) := by
  obtain ⟨hcount, rfl⟩ := Managed.run_manager hrun
  rw [hcount, UInt64.toNat_zero]
  have hpos : 0 < m.manager.config.eventsThreshold.toNat := UInt64.lt_iff_toNat_lt.mp threshold
  refine ⟨⟨fun h => h.1.symm, fun h => ⟨h.symm, fun hle => ?_⟩⟩, fun hle hsmall interval => ?_⟩
  · omega
  · rw [CompactionManager.recordEvent_iterate (CompactionConfig.runs enabled threshold)]
    refine CompactionManager.shouldCompact_of_events enabled threshold ?_ interval
    have hrecorded : (0 + UInt64.ofNat m.applied).toNat = m.applied := by
      rw [UInt64.zero_add, UInt64.toNat_ofNat', Nat.mod_eq_of_lt hsmall]
    rw [UInt64.le_iff_toNat_le, hcount, hrecorded]
    exact hle

/-- A log with a segment of a megabyte from before the start. -/
def megabyteLog : Server :=
  let server := Server.fresh (openConfig 1000)
  let segment : Segment := ⟨1, 2 ^ 20, 1000, false⟩
  { server with shared.engine.wal := { server.shared.engine.wal with
      dir := (∅ : Dir).insert 1 ⟨List.replicate (2 ^ 20) 0, 2 ^ 20⟩
      current := some segment
      segments := (∅ : Table SegmentId Segment).insert 1 segment } }

set_option maxRecDepth 4000 in
/-- An event is applied and the size makes the manager compact: after the compaction the
counter is right, with the instance saved and the old segment gone. -/
theorem events_counted_after_compaction :
    ∃ m, run (Managed.step serdeServer) (.start ⟨true, 1, 1, 60⟩ megabyteLog 0)
        ([.request (Session.new false) putLoop, .request (Session.new false) (createLoop "i" []),
          .request (Session.new false) (applyLoop "i" .null), .pass (61 * 10 ^ 9), .wake] ++
          List.replicate 5 .advance) = some m ∧
      m.server.compaction.index.keys = ["i"] ∧ m.server.shared.engine.wal.segments.keys = [2] ∧
      m.manager.lastCompact = m.now ∧ m.manager.eventsSinceCompact.toNat = m.applied := by
  refine run_exists (p := fun m => m.applied = 0 ∧ m.server.compaction.index.keys = ["i"] ∧
    m.server.shared.engine.wal.segments.keys = [2] ∧ m.manager.lastCompact = m.now)
    (by decide +kernel) fun m hrun h => ?_
  obtain ⟨hnone, hsaved, htrimmed, hstamp⟩ := h
  exact ⟨hsaved, htrimmed, hstamp,
    ((events_counted_iff serdeServer rfl (by decide) _ _ hrun).1.mpr hnone).1⟩

/-- A threshold of one event, and no threshold on the size. -/
def everyEvent : CompactionConfig := ⟨true, 1, 0, 60⟩

set_option maxRecDepth 4000 in
/-- One event is enough for the threshold and the interval has passed: the counter is
zero, and the manager does not compact. -/
theorem applied_event_not_counted :
    ∃ m, run (Managed.step serdeServer) (.start everyEvent (.fresh (openConfig 1000)) 0)
        [.request (Session.new false) putLoop, .request (Session.new false) (createLoop "i" []),
          .request (Session.new false) (applyLoop "i" .null), .pass (61 * 10 ^ 9)] = some m ∧
      m.applied = 1 ∧ everyEvent.minInterval ≤ m.now - m.manager.lastCompact ∧
      m.manager.eventsSinceCompact = 0 ∧ m.shouldCompact = false :=
  run_exists (p := fun m => m.applied = 1 ∧ everyEvent.minInterval ≤ m.now - m.manager.lastCompact ∧
    m.manager.eventsSinceCompact = 0 ∧ m.shouldCompact = false) (by decide +kernel) fun _ _ h => h

end Rstmdb

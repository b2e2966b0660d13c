import Rstmdb.Core.Engine
import Rstmdb.Lib.Runs

/-! A restart rebuilds the memory that the calls before it had made. Live calls
and replay are two implementations of the same changes; they differ only in the
last event id, which a call without an id clears and a replay keeps. -/
namespace Rstmdb
open Json (Value)

/-- A call of the engine, or a restart on the directory it leaves. -/
inductive EngineOp
  | putMachine (name : String) (version : UInt32) (definitionJson : Value)
  | createInstance (instanceId machine : String) (version : UInt32) (initialCtx : Value)
      (idempotencyKey : Option String)
  | applyEvent (request : EventRequest)
  | deleteInstance (instanceId : String) (idempotencyKey : Option String)
  | restart (config : WalConfig)

/-- One operation. Failing calls go on with the state they leave. -/
def Engine.step (X : CoreExternals) (s : Engine) : EngineOp → Option Engine
  | .putMachine name version json => (s.putMachine X name version json).map Prod.fst
  | .createInstance id machine version ctx key =>
    (s.createInstance X id machine version ctx key).map Prod.fst
  | .applyEvent request => (s.applyEvent X request).map Prod.fst
  | .deleteInstance id key => (s.deleteInstance X id key).map Prod.fst
  | .restart config =>
    match Engine.new X config s.wal.dir with
    | some (.ok s) => some s
    | _ => none

/-- The pair under which an operation's result is cached. -/
def EngineOp.eventKey : EngineOp → Option (String × String)
  | .applyEvent request => request.eventKey
  | _ => none

variable {X : CoreExternals} {s s' : Engine} {op : EngineOp}

theorem Engine.step_restart {config : WalConfig} (h : s.step X (.restart config) = some s') :
    Engine.new X config s.wal.dir = some (.ok s') := by
  simp only [step] at h
  split at h
  · rename_i hnew
    cases h
    exact hnew
  · cases h

/-- The entries that an operation may log. -/
def EngineOp.Writes : EngineOp → WalEntry → Prop
  | .putMachine .., entry => entry.entryType = .putMachine
  | .createInstance id .., entry =>
    entry.entryType = .createInstance ∧ entry.instanceId = some id
  | .applyEvent r, entry =>
    entry.entryType = .applyEvent ∧ entry.instanceId = some r.instanceId ∧
      entry.eventKey = r.eventKey
  | .deleteInstance id _, entry =>
    entry.entryType = .deleteInstance ∧ entry.instanceId = some id
  | .restart _, _ => False

/-- A step logs an entry of its operation, or it is a restart. -/
theorem Engine.step_logs (h : s.step X op = some s') :
    Logs X op.Writes s s' ∨
      ∃ config, op = .restart config ∧ Engine.new X config s.wal.dir = some (.ok s') := by
  cases op with
  | putMachine name version json =>
    obtain ⟨⟨_, res⟩, hc, rfl⟩ := Option.map_eq_some_iff.mp h
    exact .inl (logs_putMachine hc)
  | createInstance id machine version ctx key =>
    obtain ⟨⟨_, res⟩, hc, rfl⟩ := Option.map_eq_some_iff.mp h
    exact .inl (logs_createInstance hc)
  | applyEvent request =>
    obtain ⟨⟨_, res⟩, hc, rfl⟩ := Option.map_eq_some_iff.mp h
    exact .inl (logs_applyEvent hc)
  | deleteInstance id key =>
    obtain ⟨⟨_, res⟩, hc, rfl⟩ := Option.map_eq_some_iff.mp h
    exact .inl (logs_deleteInstance hc)
  | restart config => exact .inr ⟨config, rfl, step_restart h⟩

theorem EngineOp.Writes.eventKey {entry : WalEntry} (h : op.Writes entry) :
    entry.eventKey = op.eventKey := by
  cases op with
  | putMachine => exact Engine.eventKey_of_entryType (by simp [show entry.entryType = _ from h])
  | createInstance | deleteInstance => exact Engine.eventKey_of_entryType (by simp [h.1])
  | applyEvent => exact h.2.2
  | restart => exact h.elim

theorem Engine.step_cases (h : s.step X op = some s') :
    Logs X (·.eventKey = op.eventKey) s s' ∨
      ∃ config, op = .restart config ∧ Engine.new X config s.wal.dir = some (.ok s') :=
  (step_logs h).imp_left (Logs.imp fun _ => EngineOp.Writes.eventKey)

/-! ## What a replay restores -/

/-- An instance without its last event id. -/
def Instance.persisted (i : Instance) : Instance := { i with lastEventId := none }

/-- The same definitions, and the same instances but for their last event ids. -/
structure Memory.Agrees (m n : Memory) : Prop where
  definitions : m.definitions = n.definitions
  instances : ∀ id : String,
    (m.instances[id]?).map Instance.persisted = (n.instances[id]?).map Instance.persisted

namespace Memory.Agrees

variable {m n : Memory}

theorem refl (m : Memory) : m.Agrees m := ⟨rfl, fun _ => rfl⟩

theorem absent (h : m.Agrees n) {id : String} (hn : n.instances[id]? = none) :
    m.instances[id]? = none := by
  have := h.instances id
  rw [hn] at this
  simpa using this

theorem present (h : m.Agrees n) {id : String} {i : Instance} (hn : n.instances[id]? = some i) :
    ∃ j, m.instances[id]? = some j ∧ j.persisted = i.persisted := by
  have := h.instances id
  rw [hn] at this
  exact Option.map_eq_some_iff.mp this

theorem setDefinition (h : m.Agrees n) (key : String × UInt32) (d : MachineDefinition) :
    (m.setDefinition key d).Agrees (n.setDefinition key d) :=
  ⟨congrArg (·.insert key d) h.definitions, h.instances⟩

theorem setInstance (h : m.Agrees n) (id : String) {j i : Instance}
    (hji : j.persisted = i.persisted) : (m.setInstance id j).Agrees (n.setInstance id i) := by
  refine ⟨h.definitions, fun k => ?_⟩
  by_cases hk : k = id
  · subst hk
    simp [Memory.setInstance, hji]
  · simp only [Memory.setInstance, Table.getElem?_insert_ne hk]
    exact h.instances k

end Memory.Agrees

theorem fromJson_null (X : CoreExternals) (name : String) (version : UInt32) :
    MachineDefinition.fromJson X name version .null = some (.error .json) := rfl

theorem not_null_of_valid {name : String} {version : UInt32} {json : Value} {d : MachineDefinition}
    (h : MachineDefinition.fromJson X name version json = some (.ok d)) : json.isNull = false := by
  cases json with
  | null => simp [fromJson_null] at h
  | _ => rfl

/-- Replaying an entry on a memory that agrees makes the change that the call made. -/
theorem replayEntry_of_changes {m n n' : Memory} {offset : Nat} {entry : WalEntry} (h : m.Agrees n)
    (hc : Changes X n offset entry n') :
    ∃ m', replayEntry X m offset entry = some m' ∧ m'.Agrees n' := by
  cases hc with
  | @putMachine name version _ _ absent valid =>
    refine ⟨_, ?_, h.setDefinition _ _⟩
    have hnew : m.definitions.contains (name, version) = false :=
      Table.contains_eq_false (h.definitions ▸ absent)
    simp only [replayEntry, not_null_of_valid valid, hnew, valid, Bool.false_eq_true, if_false]
  | @createInstance id _ _ _ _ _ absent =>
    refine ⟨_, ?_, h.setInstance _ rfl⟩
    have hnew : m.instances.contains id = false := Table.contains_eq_false (h.absent absent)
    simp only [replayEntry, hnew, Bool.false_eq_true, if_false]
  | @applyEvent _ _ _ _ eventId _ i _ _ present =>
    obtain ⟨j, hj, hji⟩ := h.present present
    refine ⟨_, by simp only [replayEntry, hj]; rfl, h.setInstance _ ?_⟩
    cases i
    cases j
    cases eventId <;> simp_all [Instance.persisted, Instance.applyTransition]
  | @deleteInstance _ _ i present =>
    obtain ⟨j, hj, hji⟩ := h.present present
    refine ⟨_, by simp only [replayEntry, hj]; rfl, h.setInstance _ ?_⟩
    cases i
    cases j
    simp_all [Instance.persisted, Instance.softDelete]

theorem replayEntries_append {m : Memory} (es fs : List ReadEntry) :
    replayEntries X m (es ++ fs) =
      (replayEntries X m es).bind fun m' => replayEntries X m' fs := by
  induction es generalizing m with
  | nil => rfl
  | cons e es ih =>
    obtain ⟨seq, off, entry⟩ := e
    simp only [List.cons_append, replayEntries]
    cases replayEntry X m off.asU64 entry with
    | none => rfl
    | some m' => exact ih

/-! ## Live calls and replay -/

/-- Replaying the log gives back the memory. -/
structure Engine.Restorable {X : CoreExternals} (s : Engine) (pre : List (Chunk X.toExternals))
    (c : Chunk X.toExternals) : Prop where
  repr : s.wal.Repr pre c
  clean : c.tail = []
  replayed : ∃ m, replayEntries X .empty (entries (pre ++ [c])) = some m ∧ m.Agrees s.toMemory

namespace Engine

section
variable {X : CoreExternals} {s s' : Engine} {pre : List (Chunk X.toExternals)}
  {c : Chunk X.toExternals}

theorem restorable_logs {p : WalEntry → Prop} (h : s.Restorable pre c) (hc : Logs X p s s') :
    ∃ pre' c', s'.Restorable (X := X) pre' c' := by
  cases hc with
  | kept => exact ⟨pre, c, h⟩
  | refused failed =>
    obtain ⟨pre', c', hr, ht, he⟩ := h.repr.append_clean h.clean failed
    refine ⟨pre', c', hr, ht, ?_⟩
    rw [he]
    exact h.replayed
  | logged appended changes =>
    obtain ⟨pre', c', hr, ht, he⟩ := h.repr.append_clean h.clean appended
    obtain ⟨m, hm, hagree⟩ := h.replayed
    obtain ⟨m', hm', hagree'⟩ := replayEntry_of_changes hagree changes
    refine ⟨pre', c', hr, ht, m', ?_, hagree'⟩
    rw [he, replayEntries_append, hm]
    simp [replayEntries, hm']

/-- A start on a directory whose log replays. -/
theorem new_of_replayed {w : Wal} (hr : w.Repr pre c) {m : Memory}
    (hm : replayEntries X .empty (entries (pre ++ [c])) = some m) (config : WalConfig) :
    ∃ w', new X config w.dir = some (.ok ⟨m, ∅, w'⟩) ∧ w'.Repr pre c ∧ w'.dir = w.dir := by
  obtain ⟨w', hopen, hr', hdir, -⟩ := Wal.openDir_of_holds hr.holds config
  obtain ⟨stats, hread⟩ := hr'.readFrom
  refine ⟨{ w' with stats }, ?_, ⟨hr'.holds, hr'.keys, hr'.current⟩, hdir⟩
  simp only [new, hopen, withWal, hread, hm]

/-- A restart succeeds, under any configuration, and agrees with what was there. -/
theorem new_of_restorable (h : s.Restorable pre c) (config : WalConfig) :
    ∃ s', new X config s.wal.dir = some (.ok s') ∧ s'.Restorable pre c ∧
      s'.toMemory.Agrees s.toMemory ∧ s'.idempotencyCache = ∅ ∧ s'.wal.dir = s.wal.dir := by
  obtain ⟨m, hm, hagree⟩ := h.replayed
  obtain ⟨w, hnew, hr, hdir⟩ := new_of_replayed h.repr hm config
  exact ⟨⟨m, ∅, w⟩, hnew, ⟨hr, h.clean, m, hm, .refl m⟩, hagree, rfl, hdir⟩

theorem restorable_step {op : EngineOp} (h : s.Restorable pre c) (hs : s.step X op = some s') :
    ∃ pre' c', s'.Restorable (X := X) pre' c' := by
  obtain hc | ⟨config, rfl, hnew⟩ := step_cases hs
  · exact restorable_logs h hc
  · obtain ⟨s₁, hs₁, hr, -⟩ := new_of_restorable h config
    rw [hs₁] at hnew
    cases hnew
    exact ⟨pre, c, hr⟩

/-- The engine on a directory that was empty. -/
def fresh (config : WalConfig) : Engine :=
  ⟨.empty, ∅, { Wal.fresh config with stats := { reads := 1 } }⟩

theorem new_empty (X : CoreExternals) (config : WalConfig) :
    new X config ∅ = some (.ok (fresh config)) := by
  have hkeys : (Wal.fresh config).segments.keys = [1] :=
    (Wal.repr_fresh X.toExternals config).keys
  have hfile : Wal.readSegment X.toExternals (Wal.fresh config) 1 = .ok [] := by
    simp [Wal.readSegment, Wal.fresh, Externals.reads_nil]
    rfl
  have hread : (Wal.fresh config).readFrom X.toExternals ⟨0⟩ none =
      some ((fresh config).wal, .ok []) := by
    simp [Wal.readFrom, hkeys, Wal.readSegments, hfile, WalOffset.segmentId, Wal.takeRecords]
    rfl
  simp only [new, Wal.openDir_empty, withWal, hread]
  rfl

variable {config : WalConfig} {s₀ : Engine} {ops : List EngineOp}

theorem eq_fresh_of_new (h : new X config ∅ = some (.ok s)) : s = fresh config := by
  rw [new_empty] at h
  cases h
  rfl

theorem repr_fresh (X : CoreExternals) (config : WalConfig) :
    (fresh config).wal.Repr [] (Chunk.empty X.toExternals 1) :=
  have hr := Wal.repr_fresh X.toExternals config
  ⟨hr.holds, hr.keys, hr.current⟩

theorem restorable_new (h : new X config ∅ = some (.ok s)) :
    ∃ pre c, s.Restorable (X := X) pre c := by
  obtain rfl := eq_fresh_of_new h
  exact ⟨[], _, repr_fresh X config, rfl, .empty, rfl, .refl _⟩

theorem restorable_run (hopen : new X config ∅ = some (.ok s₀))
    (hrun : run (step X) s₀ ops = some s) :
    ∃ pre c, s.Restorable (X := X) pre c :=
  run_keeps (P := fun s => ∃ pre c, s.Restorable (X := X) pre c)
    (fun _ _ _ ⟨_, _, h⟩ hs => restorable_step h hs) (restorable_new hopen) hrun

/-- What the changes of the memory keep, and what memories that agree share, holds after
every run. -/
theorem memory_run {P : Memory → Prop} (start : P .empty)
    (changes : ∀ m m' offset entry, P m → Changes X m offset entry m' → P m')
    (agrees : ∀ m n, P n → m.Agrees n → P m) (hopen : new X config ∅ = some (.ok s₀))
    (hrun : run (step X) s₀ ops = some s) : P s.toMemory := by
  have hstart : P s₀.toMemory := by
    obtain rfl := eq_fresh_of_new hopen
    exact start
  refine (run_keeps (P := fun s => (∃ pre c, s.Restorable (X := X) pre c) ∧ P s.toMemory)
    ?_ ⟨restorable_new hopen, hstart⟩ hrun).2
  rintro s op s' ⟨⟨pre, c, hr⟩, hp⟩ hs
  refine ⟨restorable_step hr hs, ?_⟩
  obtain hc | ⟨config, rfl, hnew⟩ := step_cases hs
  · cases hc with
    | kept | refused => exact hp
    | logged _ hchange => exact changes _ _ _ _ hp hchange
  · obtain ⟨s₁, hs₁, -, hagree, -⟩ := new_of_restorable hr config
    rw [hs₁] at hnew
    cases hnew
    exact agrees _ _ hp hagree

/-- After every run of calls and restarts from an empty directory, a fresh start
on the directory has the same definitions, and the same instances in all but
their last event ids. -/
theorem new_restores (X : CoreExternals) {config : WalConfig} {s₀ s : Engine}
    {ops : List EngineOp} (hopen : new X config ∅ = some (.ok s₀))
    (hrun : run (step X) s₀ ops = some s) (config' : WalConfig) :
    ∃ s', new X config' s.wal.dir = some (.ok s') ∧ s'.definitions = s.definitions ∧
      ∀ id : String, (s'.instances[id]?).map Instance.persisted =
        (s.instances[id]?).map Instance.persisted := by
  obtain ⟨pre, c, h⟩ := restorable_run hopen hrun
  obtain ⟨s', hnew, -, hagree, -⟩ := new_of_restorable h config'
  exact ⟨s', hnew, hagree.definitions, hagree.instances⟩

end

/-- One state, and an event that stays in it. -/
def loopMachine : Value :=
  .object [("initial", .string "a"), ("states", .array [.string "a"]),
    ("transitions", .array [.array [.string "a", .string "e", .string "a"]])]

def loopEvent (idempotencyKey : Option String) : EventRequest :=
  ⟨"i", "e", .null, none, none, none, idempotencyKey⟩

set_option maxRecDepth 2000 in
/-- Two events, the second on a deleted instance, over five segments. -/
theorem new_restores_of_deleted :
    ∃ s, run (step serdeCore) (fresh ⟨100, .everyWrite⟩)
        [.putMachine "m" 1 loopMachine, .createInstance "i" "m" 1 .null none,
          .applyEvent (loopEvent none), .deleteInstance "i" none,
          .applyEvent (loopEvent (some "k"))] = some s ∧
      s.instances.contains "i" = true ∧
      ∃ s', new serdeCore ⟨100, .everyWrite⟩ s.wal.dir = some (.ok s') ∧
        s'.definitions = s.definitions ∧
        ∀ id : String, (s'.instances[id]?).map Instance.persisted =
          (s.instances[id]?).map Instance.persisted := by
  refine run_exists (p := fun s => s.instances.contains "i" = true) (by decide +kernel) ?_
  intro s hrun hi
  exact ⟨hi, new_restores serdeCore (new_empty serdeCore _) hrun ⟨100, .everyWrite⟩⟩

end Engine

end Rstmdb

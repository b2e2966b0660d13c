import Rstmdb.Core.Threads

/-! Many clients at once: the records of one instance are a path of its definition,
and the instance in memory is where the path ends. -/
namespace Rstmdb
open Json (Value)

/-! ## Paths of an instance -/

/-- How a record on an instance moves it. -/
inductive InstanceChange (definitions : Table (String × UInt32) MachineDefinition) (id : String) :
    Option Instance → ReadEntry → Option Instance → Prop
  | created {machine : String} {version : UInt32} {ctx : Value} {key : Option String}
      {d : MachineDefinition} {seq : UInt64} {off : WalOffset}
      (defined : definitions[(machine, version)]? = some d) :
      InstanceChange definitions id none
        (seq, off, .createInstance id machine version d.initial ctx key)
        (some (.new id machine version d.initial ctx off.asU64))
  | event {i : Instance} {event toState : String} {payload : Value} {eventId key : Option String}
      {d : MachineDefinition} {guard : Option GuardExpr} {seq : UInt64} {off : WalOffset}
      (defined : definitions[(i.machine, i.version)]? = some d)
      (transition : d.getTransition i.state event = some (toState, guard))
      (opened : evaluateOpt guard i.ctx = true) :
      InstanceChange definitions id (some i)
        (seq, off,
          .applyEvent id event i.state toState payload (mergeCtx i.ctx payload) eventId key)
        (some (i.applyTransition toState (mergeCtx i.ctx payload) eventId off.asU64))
  | deleted {i : Instance} {key : Option String} {seq : UInt64} {off : WalOffset} :
      InstanceChange definitions id (some i) (seq, off, .deleteInstance id key)
        (some (i.softDelete off.asU64))

/-- The records on an instance. -/
def recordsOn (id : String) (es : List ReadEntry) : List ReadEntry :=
  es.filter fun e => e.2.2.instanceId = some id

theorem recordsOn_snoc (id : String) (es : List ReadEntry) (e : ReadEntry) :
    recordsOn id (es ++ [e]) =
      recordsOn id es ++ if e.2.2.instanceId = some id then [e] else [] := by
  unfold recordsOn
  rw [List.filter_append, List.filter_singleton]
  simp

/-- An instance that is there is there at the end. -/
theorem Path.isSome {definitions : Table (String × UInt32) MachineDefinition} {id : String}
    {i : Instance} {o : Option Instance} {es : List ReadEntry}
    (h : Path (InstanceChange definitions id) (some i) es o) : o.isSome = true := by
  cases h with
  | nil => rfl
  | snoc _ last => cases last <;> rfl

/-! ## What a call is about to write -/

namespace Pending

/-- The instance that the record is to move, and where it is. -/
def before : Pending → Option (String × Option Instance)
  | .putMachine .. => none
  | .createInstance id _ _ _ _ _ => some (id, none)
  | .applyEvent r i _ => some (r.instanceId, some i)
  | .deleteInstance id _ i => some (id, some i)

/-- What the checks have found. -/
def Valid (X : CoreExternals) (definitions : Table (String × UInt32) MachineDefinition) :
    Pending → Prop
  | .putMachine name version json d => MachineDefinition.fromJson X name version json = some (.ok d)
  | .createInstance _ machine version _ _ d => definitions[(machine, version)]? = some d
  | .applyEvent r i toState =>
    ∃ d guard, definitions[(i.machine, i.version)]? = some d ∧
      d.getTransition i.state r.event = some (toState, guard) ∧ evaluateOpt guard i.ctx = true
  | .deleteInstance .. => True

theorem instanceId_entry (p : Pending) : p.entry.instanceId = p.before.map Prod.fst := by
  cases p <;> rfl

theorem instanceId_of_instanceAt (p : Pending) (off : WalOffset) :
    p.entry.instanceId = (p.instanceAt off).map Prod.fst := by
  cases p <;> rfl

theorem instanceAt_id {p : Pending} {off : WalOffset} {q : String × Instance}
    (h : p.instanceAt off = some q) : p.entry.instanceId = some q.1 := by
  rw [instanceId_of_instanceAt p off, h]
  rfl

/-- The record moves the instance that was found to the one that will be stored. -/
theorem Valid.change {X : CoreExternals} {definitions : Table (String × UInt32) MachineDefinition}
    {p : Pending} (h : p.Valid X definitions) {id : String} {o : Option Instance}
    (hb : p.before = some (id, o)) (seq : UInt64) (off : WalOffset) :
    ∃ i, p.instanceAt off = some (id, i) ∧
      InstanceChange definitions id o (seq, off, p.entry) (some i) := by
  cases p with
  | putMachine => cases hb
  | createInstance =>
    cases hb
    exact ⟨_, rfl, .created h⟩
  | applyEvent =>
    cases hb
    obtain ⟨d, guard, hd, ht, ho⟩ := h
    exact ⟨_, rfl, .event hd ht ho⟩
  | deleteInstance =>
    cases hb
    exact ⟨_, rfl, .deleted⟩

end Pending

theorem EngineCall.Ready.valid {σ : Type} {X : CoreExternals} {e : Engine} {call : EngineCall}
    {pc : CallPc σ} {p : Pending} (h : call.Ready X e pc p) : p.Valid X e.definitions := by
  cases h with
  | putMachine _ valid => exact valid
  | createInstance defined => exact defined
  | applyEvent _ target =>
    obtain ⟨-, -, htarget⟩ := Engine.targetOf_ok target
    exact htarget
  | deleteInstance => trivial

/-! ## What a step does to the log and the memory -/

/-- Nothing, or one record, or the change of a record that is in the log already. -/
inductive Effect {σ : Type} (s s' : ThreadedEngine) : CallPc σ → CallPc σ → Prop
  | quiet {pc pc' : CallPc σ} (appended : s'.appended = s.appended)
      (memory : s'.engine.toMemory = s.engine.toMemory)
      (before : ∀ p seq off, pc ≠ .logged p seq off)
      (after : ∀ p seq off, pc' ≠ .logged p seq off) : Effect s s' pc pc'
  | logged {p : Pending} {l : σ} {seq : UInt64} {off : WalOffset}
      (appended : s'.appended = s.appended ++ [(seq, off, p.entry)])
      (memory : s'.engine.toMemory = s.engine.toMemory) :
      Effect s s' (.logging p l) (.logged p seq off)
  | stored {p : Pending} {seq : UInt64} {off : WalOffset} {pc' : CallPc σ}
      (appended : s'.appended = s.appended)
      (memory : s'.engine.toMemory = (p.store s.engine off).toMemory)
      (after : ∀ p seq off, pc' ≠ .logged p seq off) : Effect s s' (.logged p seq off) pc'

section
variable {X : CoreExternals} {L : LogSteps} {s s' : ThreadedEngine} {call : EngineCall}
  {pc pc' : CallPc L.State} {ts xs ys : List (EngineThread L)} {t t' : EngineThread L}

@[simp] theorem ThreadedEngine.release_appended (s : ThreadedEngine) (call : EngineCall) :
    (s.release call).appended = s.appended := by
  unfold release
  split <;> rfl

theorem Stepped.effect (h : Stepped X L s call pc s' pc') : Effect s s' pc pc' := by
  cases h with
  | answered early | acquired early =>
    refine .quiet rfl rfl ?_ (by simp)
    rintro p seq off rfl
    simp at early
  | missed | checked | rejected | appending =>
    exact .quiet rfl rfl (by simp) (by simp)
  | planned ready =>
    refine .quiet rfl rfl ?_ (by simp [CallPc.log])
    rintro p seq off rfl
    cases ready
  | refused => exact .quiet (by simp [ThreadedEngine.setWal]) (by simp; rfl) (by simp) (by simp)
  | appended => exact .logged rfl rfl
  | created | applied => exact .stored rfl rfl (by simp)
  | finished => exact .stored (by simp; rfl) (by simp; rfl) (by simp)
  | cached => exact .quiet rfl (Engine.cacheResult_memory _ _ _ _) (by simp) (by simp)

/-- What a call is about to write stays, or is what it has just found. -/
theorem Stepped.pending {p : Pending} (h : Stepped X L s call pc s' pc')
    (hp : (⟨call, pc'⟩ : EngineThread L).pending = some p) :
    (⟨call, pc⟩ : EngineThread L).pending = some p ∨ call.Ready X s.engine pc p := by
  cases h with
  | answered | missed | checked | acquired | rejected | refused | created | applied | finished
  | cached => cases hp
  | planned ready =>
    cases hp
    exact .inr ready
  | appending | appended => exact .inl hp

theorem Stepped.wal (h : Stepped X L s call pc s' pc') :
    (s'.engine.wal = s.engine.wal ∧ s'.appended = s.appended) ∨
      (∃ p l l', pc = .logging p l ∧ L.next s.engine.wal l = some (s'.engine.wal, .inl l') ∧
        s'.appended = s.appended) ∨
      ∃ p l r, pc = .logging p l ∧ L.next s.engine.wal l = some (s'.engine.wal, .inr r) ∧
        Wal.Appended p.entry s.appended s'.appended r := by
  cases h with
  | answered | missed | checked | acquired | rejected | planned | created | applied =>
    exact .inl ⟨rfl, rfl⟩
  | appending hn => exact .inr (.inl ⟨_, _, _, rfl, hn, rfl⟩)
  | @refused p l wal err hn =>
    refine .inr (.inr ⟨p, l, .error err, rfl, ?_, by simp [Wal.Appended]; rfl⟩)
    rw [ThreadedEngine.release_engine]
    exact hn
  | appended hn => exact .inr (.inr ⟨_, _, _, rfl, hn, rfl⟩)
  | @finished p seq off other =>
    refine .inl ⟨?_, by simp; rfl⟩
    rw [ThreadedEngine.release_engine]
    obtain ⟨name, version, json, d, rfl⟩ | ⟨id, key, i, rfl⟩ := other <;> rfl
  | cached =>
    refine .inl ⟨?_, rfl⟩
    simp only [ThreadedEngine.unlock, ThreadedEngine.setEngine, Engine.cacheResult]
    split <;> rfl

/-! ## Where an instance stands -/

/-- The instance that the thread has logged and is about to store. -/
def EngineThread.unstored (t : EngineThread L) : Option (String × Instance) :=
  match t.pc with
  | .logged p _ off => p.instanceAt off
  | _ => none

theorem EngineThread.pending_of_unstored {q : String × Instance} (h : t.unstored = some q) :
    ∃ p ∈ t.pending, p.entry.instanceId = some q.1 := by
  unfold unstored at h
  split at h
  · rename_i p seq off hpc
    exact ⟨p, by simp [pending, hpc], Pending.instanceAt_id h⟩
  · cases h

theorem EngineThread.unstored_eq_none (h : ∀ p seq off, t.pc ≠ .logged p seq off) :
    t.unstored = none := by
  unfold unstored
  split
  · rename_i hpc
    exact absurd hpc (h _ _ _)
  · rfl

/-- The records whose change is in memory lead to the instance there. At most one
more is in the log, and the thread that wrote it is about to store its change. -/
structure Traced (R : Option Instance → ReadEntry → Option Instance → Prop) (id : String)
    (start : Option Instance) (s : ThreadedEngine) (ts : List (EngineThread L))
    (rs : List ReadEntry) : Prop where
  path : Path R start rs (s.engine.instances[id]?)
  logged : ∀ t ∈ ts, ∀ i, t.unstored = some (id, i) →
    ∃ e, recordsOn id s.appended = rs ++ [e] ∧ R (s.engine.instances[id]?) e (some i)
  stored : (∀ t ∈ ts, ∀ i, t.unstored ≠ some (id, i)) → recordsOn id s.appended = rs

section
variable {R : Option Instance → ReadEntry → Option Instance → Prop} {id : String}
  {start : Option Instance} {rs : List ReadEntry}

theorem Traced.initial (R : Option Instance → ReadEntry → Option Instance → Prop) (id : String)
    (e : Engine) : Traced (L := L) R id (e.instances[id]?) ⟨e, [], []⟩ [] [] :=
  ⟨.nil, by simp, fun _ => rfl⟩

theorem Traced.spawned (h : Traced R id start s ts rs) (call : EngineCall) :
    Traced R id start s (ts ++ [(⟨call, .started⟩ : EngineThread L)]) rs := by
  refine ⟨h.path, ?_, ?_⟩
  · exact forall_spawned h.logged (by rintro _ ⟨⟩)
  · intro hnone
    exact h.stored fun t ht => hnone t (by simp [ht])

section
variable (h : Traced R id start s (xs ++ t :: ys) rs)
include h

/-- A step that neither writes a record on the instance nor stores it. -/
theorem Traced.kept (records : recordsOn id s'.appended = recordsOn id s.appended)
    (memory : s'.engine.instances[id]? = s.engine.instances[id]?)
    (before : ∀ i, t.unstored ≠ some (id, i)) (after : ∀ i, t'.unstored ≠ some (id, i)) :
    Traced R id start s' (xs ++ t' :: ys) rs := by
  refine ⟨memory ▸ h.path, ?_, ?_⟩
  · intro u hu i hi
    obtain rfl | hu := mem_replace hu
    · exact absurd hi (after i)
    · rw [records, memory]
      exact h.logged u (mem_of_others t hu) i hi
  · intro hnone
    rw [records]
    exact h.stored (forall_replace hnone before)

theorem Traced.appended
    (sole : ∀ u ∈ xs ++ ys, ∀ i, u.unstored ≠ some (id, i)) (before : t.unstored = none)
    (memory : s'.engine.instances[id]? = s.engine.instances[id]?) {e : ReadEntry}
    (records : s'.appended = s.appended ++ [e]) (on : e.2.2.instanceId = some id) {i : Instance}
    (after : t'.unstored = some (id, i)) (moves : R (s.engine.instances[id]?) e (some i)) :
    Traced R id start s' (xs ++ t' :: ys) rs := by
  have hrs : recordsOn id s.appended = rs := by
    apply h.stored
    intro u hu j hj
    obtain rfl | hu := mem_replace hu
    · simp [before] at hj
    · exact sole u hu j hj
  refine ⟨memory ▸ h.path, ?_, ?_⟩
  · intro u hu j hj
    obtain rfl | hu := mem_replace hu
    · rw [after] at hj
      cases hj
      refine ⟨e, ?_, memory ▸ moves⟩
      rw [records, recordsOn_snoc, if_pos on, hrs]
    · exact absurd hj (sole u hu j)
  · intro hnone
    exact absurd after (hnone t' (by simp) i)

theorem Traced.store (sole : ∀ u ∈ xs ++ ys, ∀ i, u.unstored ≠ some (id, i)) {i : Instance}
    (before : t.unstored = some (id, i)) (records : s'.appended = s.appended)
    (memory : s'.engine.instances[id]? = some i) (after : t'.unstored = none) :
    Traced R id start s' (xs ++ t' :: ys) (recordsOn id s.appended) := by
  obtain ⟨e, hrecords, hmoves⟩ := h.logged t (by simp) i before
  refine ⟨?_, ?_, fun _ => by rw [records]⟩
  · rw [memory, hrecords]
    exact h.path.snoc hmoves
  · intro u hu j hj
    obtain rfl | hu := mem_replace hu
    · simp [after] at hj
    · exact absurd hj (sole u hu j)

end

theorem Pending.store_instances (e : Engine) (off : WalOffset) (p : Pending) :
    (p.store e off).instances =
      match p.instanceAt off with
      | some (id, i) => e.instances.insert id i
      | none => e.instances := by
  cases p <;> rfl

/-- A step moves the records whose change is in memory, if the thread has to itself
the instance that it writes to and moves it as `R` says. -/
theorem Traced.step (h : Traced R id start s (xs ++ ⟨call, pc⟩ :: ys) rs) (he : Effect s s' pc pc')
    (sole : ∀ p ∈ (⟨call, pc⟩ : EngineThread L).pending, p.entry.instanceId = some id →
      ∀ u ∈ xs ++ ys, ∀ i, u.unstored ≠ some (id, i))
    (found : ∀ p ∈ (⟨call, pc⟩ : EngineThread L).pending, ∀ o, p.before = some (id, o) →
      s.engine.instances[id]? = o ∧
        ∀ seq off, ∃ i, p.instanceAt off = some (id, i) ∧ R o (seq, off, p.entry) (some i)) :
    Traced R id start s' (xs ++ ⟨call, pc'⟩ :: ys) (recordsOn id s.appended) ∨
      (∀ p seq off, pc = .logged p seq off → p.entry.instanceId ≠ some id) ∧
        Traced R id start s' (xs ++ ⟨call, pc'⟩ :: ys) rs := by
  cases he with
  | quiet appended memory before after =>
    have hb : (⟨call, pc⟩ : EngineThread L).unstored = none := EngineThread.unstored_eq_none before
    have ha : (⟨call, pc'⟩ : EngineThread L).unstored = none := EngineThread.unstored_eq_none after
    refine .inr ⟨fun p seq off hpc => absurd hpc (before p seq off), ?_⟩
    exact h.kept (by rw [appended]) (by rw [memory]) (by simp [hb]) (by simp [ha])
  | @logged p l seq off appended memory =>
    refine .inr ⟨by simp, ?_⟩
    by_cases hon : p.entry.instanceId = some id
    · obtain ⟨⟨id', o⟩, hb, hid⟩ := Option.map_eq_some_iff.mp (p.instanceId_entry ▸ hon)
      obtain rfl : id' = id := hid
      obtain ⟨rfl, hmoves⟩ := found p rfl o hb
      obtain ⟨i, hi, hr⟩ := hmoves seq off
      exact h.appended (sole p rfl hon) rfl (by rw [memory]) appended hon hi hr
    · refine h.kept ?_ (by rw [memory]) (by simp [EngineThread.unstored]) ?_
      · rw [appended, recordsOn_snoc, if_neg hon, List.append_nil]
      · intro i hi
        exact hon (Pending.instanceAt_id hi)
  | @stored p seq off _ appended memory after =>
    have ha : (⟨call, pc'⟩ : EngineThread L).unstored = none := EngineThread.unstored_eq_none after
    have hstore : s'.engine.instances = (p.store s.engine off).instances := by rw [memory]
    rw [Pending.store_instances] at hstore
    cases hq : p.instanceAt off with
    | none =>
      rw [hq] at hstore
      refine .inr ⟨?_, h.kept (by rw [appended]) (by rw [hstore])
        (by simp [EngineThread.unstored, hq]) (by simp [ha])⟩
      rintro _ _ _ ⟨⟩
      simp [p.instanceId_of_instanceAt off, hq]
    | some q =>
      obtain ⟨id', i⟩ := q
      rw [hq] at hstore
      by_cases hid : id' = id
      · subst hid
        have hon := Pending.instanceAt_id hq
        exact .inl (h.store (sole p rfl hon) hq appended (by simp [hstore]) ha)
      · refine .inr ⟨?_, h.kept (by rw [appended]) ?_ ?_ (by simp [ha])⟩
        · rintro _ _ _ ⟨⟩
          simp [p.instanceId_of_instanceAt off, hq, hid]
        · rw [hstore]
          exact Table.getElem?_insert_ne (Ne.symm hid)
        · simp [EngineThread.unstored, hq, hid]

theorem Traced.within (h : Traced R id start s ts rs) :
    ∃ rest, recordsOn id s.appended = rs ++ rest ∧ rest.length ≤ 1 := by
  by_cases hidle : ∀ t ∈ ts, ∀ i, t.unstored ≠ some (id, i)
  · exact ⟨[], by simpa using h.stored hidle, by simp⟩
  · obtain ⟨t, ht, i, hi⟩ : ∃ t ∈ ts, ∃ i, t.unstored = some (id, i) := by
      simpa using hidle
    obtain ⟨e, hrecords, -⟩ := h.logged t ht i hi
    exact ⟨[e], hrecords, by simp⟩

/-- Where all the records lead, and that the memory is there unless a thread is about
to store. -/
theorem Traced.whole (h : Traced R id start s ts rs) :
    ∃ now, Path R start (recordsOn id s.appended) now ∧
      ((∀ t ∈ ts, ∀ i, t.unstored ≠ some (id, i)) → s.engine.instances[id]? = now) := by
  by_cases hidle : ∀ t ∈ ts, ∀ i, t.unstored ≠ some (id, i)
  · exact ⟨_, h.stored hidle ▸ h.path, fun _ => rfl⟩
  · obtain ⟨t, ht, i, hi⟩ : ∃ t ∈ ts, ∃ i, t.unstored = some (id, i) := by
      simpa using hidle
    obtain ⟨e, hrecords, hmoves⟩ := h.logged t ht i hi
    exact ⟨some i, hrecords ▸ h.path.snoc hmoves, fun hnone => absurd hi (hnone t ht i)⟩

end

/-! ## One call at a time on an instance -/

namespace EngineThread

/-- The instance that the thread has found missing and is creating. -/
def creates (t : EngineThread L) : Option String :=
  match t.call, t.pc with
  | .createInstance id _ _ _ _, .absent => some id
  | .createInstance id _ _ _ _, .logging .. => some id
  | .createInstance id _ _ _ _, .logged .. => some id
  | _, _ => none

end EngineThread

/-- Calls without `put_machine` in which no two creations of one instance overlap:
what they are about to write is `good`, on the definitions of the start. -/
structure Orderly (definitions : Table (String × UInt32) MachineDefinition)
    (good : Pending → Prop) (s : ThreadedEngine) (ts : List (EngineThread L)) : Prop where
  locked : Locked s ts
  distinct : (ts.filterMap EngineThread.creates).Nodup
  absent : ∀ t ∈ ts, ∀ id ∈ t.creates, s.engine.instances[id]? = none
  kept : s.engine.definitions = definitions
  plans : ∀ t ∈ ts, ∀ p ∈ t.pending, good p
  noPuts : ∀ t ∈ ts, ∀ name version json, t.call ≠ .putMachine name version json

section
variable {definitions : Table (String × UInt32) MachineDefinition} {good : Pending → Prop}

theorem Orderly.initial (e : Engine) (good : Pending → Prop) :
    Orderly (L := L) e.definitions good ⟨e, [], []⟩ [] :=
  ⟨.start, List.nodup_nil, by simp, rfl, by simp, by simp⟩

theorem Orderly.spawned (h : Orderly definitions good s ts) {call : EngineCall}
    (hcall : ∀ name version json, call ≠ .putMachine name version json) :
    Orderly definitions good s (ts ++ [(⟨call, .started⟩ : EngineThread L)]) := by
  have hnew : (⟨call, .started⟩ : EngineThread L).creates = none := by cases call <;> rfl
  refine ⟨h.locked.spawned call, ?_, ?_, h.kept, ?_, ?_⟩
  · rw [filterMap_spawned hnew]
    exact h.distinct
  · exact forall_spawned h.absent (by simp [hnew])
  · exact forall_spawned h.plans (by rintro _ ⟨⟩)
  · exact forall_spawned h.noPuts hcall

variable {p : Pending} {id : String}

/-- A call that is about to write to an instance has locked it or is creating it. -/
theorem Locked.owner (h : Locked s ts) (ht : t ∈ ts) (hp : t.pending = some p)
    (hon : p.entry.instanceId = some id) : t.holds = some id ∨ t.creates = some id := by
  obtain ⟨hcall, -⟩ := h.own t ht p hp
  obtain ⟨c, pc⟩ := t
  dsimp only at hcall
  subst hcall
  cases p with
  | putMachine => cases hon
  | createInstance =>
    cases hon
    right
    cases pc <;> cases hp <;> rfl
  | applyEvent | deleteInstance =>
    cases hon
    left
    rw [EngineThread.holds_of_pending hp]
    rfl

theorem Orderly.sole (h : Orderly definitions good s (xs ++ t :: ys)) (hp : t.pending = some p)
    (hon : p.entry.instanceId = some id) : ∀ u ∈ xs ++ ys, ∀ i, u.unstored ≠ some (id, i) := by
  intro u hu i hi
  have hmem : u ∈ xs ++ t :: ys := mem_of_others t hu
  obtain ⟨q, hq, hqon⟩ := EngineThread.pending_of_unstored hi
  have present {v : EngineThread L} (hv : v ∈ xs ++ t :: ys) (hheld : v.holds = some id) :
      s.engine.instances[id]? ≠ none :=
    Option.isSome_iff_ne_none.mp (h.locked.held v hv id hheld).2
  obtain ht | ht := h.locked.owner (by simp) hp hon
  · obtain hu' | hu' := h.locked.owner hmem hq hqon
    · exact h.locked.others ht u hu hu'
    · exact present (by simp) ht (h.absent u hmem id hu')
  · obtain hu' | hu' := h.locked.owner hmem hq hqon
    · exact present hmem hu' (h.absent t (by simp) id ht)
    · exact others_of_nodup h.distinct ht u hu hu'

theorem Orderly.found (h : Orderly definitions good s ts) (ht : t ∈ ts) (hp : t.pending = some p)
    {o : Option Instance} (hb : p.before = some (id, o)) : s.engine.instances[id]? = o := by
  obtain ⟨hcall, hfound⟩ := h.locked.own t ht p hp
  cases p with
  | putMachine => cases hb
  | createInstance =>
    cases hb
    refine h.absent t ht id ?_
    obtain hheld | hcreates := h.locked.owner ht hp rfl
    · rw [EngineThread.holds_of_pending hp, ← hcall] at hheld
      cases hheld
    · exact hcreates
  | applyEvent | deleteInstance =>
    cases hb
    exact hfound _ rfl

theorem Stepped.creates (h : Stepped X L s call pc s' pc')
    (hid : (⟨call, pc'⟩ : EngineThread L).creates = some id) :
    ((⟨call, pc⟩ : EngineThread L).creates = some id ∧ ∀ p seq off, pc ≠ .logged p seq off) ∨
      pc = .missed ∧ s.engine.instances[id]? = none ∧
        ∃ machine version ctx key, call = .createInstance id machine version ctx key := by
  cases call with
  | putMachine | applyEvent | deleteInstance => cases hid
  | createInstance =>
    cases h with
    | answered | missed | rejected | refused | created | applied | finished | cached => cases hid
    | checked hcall absent =>
      cases hcall
      cases hid
      exact .inr ⟨rfl, absent, _, _, _, _, rfl⟩
    | acquired _ hlock => cases hlock
    | planned ready =>
      cases ready
      exact .inl ⟨hid, by simp⟩
    | appending | appended => exact .inl ⟨hid, by simp⟩

theorem Pending.store_definitions (e : Engine) (off : WalOffset)
    (h : ∀ name version json d, p ≠ .putMachine name version json d) :
    (p.store e off).definitions = e.definitions := by
  cases p with
  | putMachine => exact absurd rfl (h _ _ _ _)
  | createInstance | applyEvent | deleteInstance => rfl

theorem Effect.instances (h : Effect s s' pc pc')
    (hne : s'.engine.instances[id]? ≠ s.engine.instances[id]?) :
    ∃ p seq off i, pc = .logged p seq off ∧ p.instanceAt off = some (id, i) ∧
      s'.engine.instances[id]? = some i := by
  cases h with
  | quiet _ memory | logged _ memory => exact absurd (by rw [memory]) hne
  | @stored p seq off _ appended memory after =>
    have hstore : s'.engine.instances = (p.store s.engine off).instances := by rw [memory]
    rw [Pending.store_instances] at hstore
    cases hq : p.instanceAt off with
    | none =>
      rw [hq] at hstore
      exact absurd (by rw [hstore]) hne
    | some q =>
      obtain ⟨id', i⟩ := q
      rw [hq] at hstore
      by_cases hid : id' = id
      · subst hid
        exact ⟨p, seq, off, i, rfl, hq, by simp [hstore]⟩
      · rw [hstore, Table.getElem?_insert_ne (Ne.symm hid)] at hne
        exact absurd rfl hne

theorem Orderly.stepped (h : Orderly definitions good s (xs ++ ⟨call, pc⟩ :: ys))
    (hs : Stepped X L s call pc s' pc')
    (alone : pc = .missed → ∀ id machine version ctx key,
      call = .createInstance id machine version ctx key →
      ∀ u ∈ xs ++ ys, u.creates ≠ some id)
    (planned : ∀ p, call.Ready X s.engine pc p → good p) :
    Orderly definitions good s' (xs ++ ⟨call, pc'⟩ :: ys) := by
  have hput : ∀ p ∈ (⟨call, pc⟩ : EngineThread L).pending,
      ∀ name version json d, p ≠ .putMachine name version json d := by
    rintro p hp name version json d rfl
    exact h.noPuts _ (by simp) _ _ _ (h.locked.own _ (by simp) _ hp).1.symm
  refine ⟨h.locked.stepped hs, ?_, ?_, ?_, ?_, ?_⟩
  · refine nodup_replace h.distinct fun id hid => ?_
    obtain ⟨hsame, -⟩ | ⟨hpc, -, machine, version, ctx, key, hcall⟩ := hs.creates hid
    · exact .inl hsame
    · exact .inr (alone hpc id machine version ctx key hcall)
  · intro u hu id hid
    by_contra hsome
    obtain rfl | hu := mem_replace hu
    · obtain ⟨hsame, hpc⟩ | ⟨rfl, habsent, -⟩ := hs.creates hid
      · obtain ⟨p, seq, off, i, rfl, -⟩ :=
          hs.effect.instances (h.absent _ (by simp) id hsame ▸ hsome)
        exact hpc p seq off rfl
      · obtain ⟨p, seq, off, i, hlogged, -⟩ := hs.effect.instances (habsent ▸ hsome)
        cases hlogged
    · have hbefore := h.absent u (mem_of_others _ hu) id hid
      obtain ⟨p, seq, off, i, rfl, hi, -⟩ := hs.effect.instances (hbefore ▸ hsome)
      obtain ht | ht := h.locked.owner (t := ⟨call, .logged p seq off⟩) (by simp) rfl
        (Pending.instanceAt_id hi)
      · exact Option.isSome_iff_ne_none.mp (h.locked.held _ (by simp) id ht).2 hbefore
      · exact others_of_nodup h.distinct ht u hu hid
  · rw [← h.kept]
    cases hs.effect with
    | quiet _ memory | logged _ memory => rw [memory]
    | stored _ memory => rw [memory, Pending.store_definitions _ _ (hput _ rfl)]
  · refine forall_replace h.plans fun p hp => ?_
    obtain hsame | hready := hs.pending hp
    · exact h.plans _ (by simp) p hsame
    · exact planned p hready
  · exact forall_replace h.noPuts (h.noPuts ⟨call, pc⟩ (by simp))

end

end

/-! ## The log -/

section
variable {X : CoreExternals} {s s' : ThreadedEngine} {call : EngineCall}
  {ts ts' : List (EngineThread (wholeAppend X.toExternals))}

/-- The log holds what it held at the start and then what the calls have appended, and
each call logs the entry that it has planned. -/
structure LogHolds (old : List ReadEntry) (s : ThreadedEngine)
    (ts : List (EngineThread (wholeAppend X.toExternals))) : Prop where
  log : ∃ (pre : List (Chunk X.toExternals)) (c : Chunk X.toExternals),
    s.engine.wal.Repr pre c ∧ c.tail = [] ∧ entries (pre ++ [c]) = old ++ s.appended
  plans : ∀ t ∈ ts, ∀ p l, t.pc = .logging p l → l = p.entry

theorem wholeAppend_next {X : Externals} {w w' : Wal} {l : (wholeAppend X).State}
    {q : (wholeAppend X).State ⊕ Except WalError (UInt64 × WalOffset)}
    (h : (wholeAppend X).next w l = some (w', q)) :
    ∃ r, w.append X l = some (w', r) ∧ q = .inr r := by
  obtain ⟨⟨wal, r⟩, ha, hout⟩ := Option.map_eq_some_iff.mp h
  cases hout
  exact ⟨r, ha, rfl⟩

theorem LogHolds.initial {e : Engine} {pre : List (Chunk X.toExternals)} {c : Chunk X.toExternals}
    (hr : e.wal.Repr pre c) (hc : c.tail = []) :
    LogHolds (X := X) (entries (pre ++ [c])) ⟨e, [], []⟩ [] :=
  ⟨⟨pre, c, hr, hc, by simp⟩, by simp⟩

theorem LogHolds.step {old : List ReadEntry} {op : Sched EngineCall} (h : LogHolds old s ts)
    (hs : engineSched X (wholeAppend X.toExternals) (s, ts) op = some (s', ts')) :
    LogHolds old s' ts' := by
  obtain ⟨call, -, rfl, rfl⟩ | ⟨-, xs, call, pc, pc', ys, -, -, rfl, hstep, rfl⟩ :=
    engineSched_cases hs
  · refine ⟨h.log, ?_⟩
    exact forall_spawned h.plans (by rintro _ _ ⟨⟩)
  · refine ⟨?_, ?_⟩
    · obtain ⟨hwal, happ⟩ | ⟨p, l, l', -, hn, -⟩ | ⟨p, l, r, rfl, hn, happ⟩ := hstep.wal
      · rw [hwal, happ]
        exact h.log
      · obtain ⟨r, -, hout⟩ := wholeAppend_next hn
        cases hout
      · obtain ⟨r', ha, hout⟩ := wholeAppend_next hn
        cases hout
        obtain rfl : l = p.entry := h.plans ⟨call, .logging p l⟩ (by simp) p l rfl
        obtain ⟨pre, c, hr, hc, he⟩ := h.log
        obtain ⟨pre', c', hr', hc', hgrown⟩ := hr.append_clean hc ha
        refine ⟨pre', c', hr', hc', ?_⟩
        rw [he] at hgrown
        cases r with
        | error =>
          rw [hgrown, happ]
        | ok q =>
          rw [hgrown, happ, List.append_assoc]
    · refine forall_replace h.plans fun p l hl => ?_
      cases hstep with
      | planned => cases hl; rfl
      | appending hn =>
        obtain ⟨r, -, hout⟩ := wholeAppend_next hn
        cases hout
      | _ => cases hl

theorem LogHolds.readable {old : List ReadEntry} (h : LogHolds old s ts) :
    s.engine.wal.readable X.toExternals = old ++ s.appended := by
  obtain ⟨pre, c, hr, -, he⟩ := h.log
  rw [hr.readable, he]

end

/-! ## Events and deletions -/

/-- An event or a deletion. -/
def EngineCall.isUpdate : EngineCall → Bool
  | .applyEvent _ | .deleteInstance .. => true
  | _ => false

section
variable {X : CoreExternals} {L : LogSteps} {s s' : ThreadedEngine} {e : Engine}
  {ts ts' : List (EngineThread L)} {op : Sched EngineCall}

/-- What holds along every run of events and deletions. -/
structure Updating (X : CoreExternals) (e : Engine) (id : String) (s : ThreadedEngine)
    (ts : List (EngineThread L)) : Prop where
  orderly : Orderly e.definitions (Pending.Valid X e.definitions) s ts
  updates : ∀ t ∈ ts, t.call.isUpdate = true
  traced : ∃ rs, Traced (InstanceChange e.definitions id) id (e.instances[id]?) s ts rs

theorem Updating.step {id : String} (h : Updating X e id s ts)
    (hop : ∀ call, op = .spawn call → call.isUpdate = true)
    (hs : engineSched X L (s, ts) op = some (s', ts')) : Updating X e id s' ts' := by
  obtain ⟨rs, htraced⟩ := h.traced
  obtain ⟨call, rfl, rfl, rfl⟩ | ⟨-, xs, call, pc, pc', ys, -, -, rfl, hstep, rfl⟩ :=
    engineSched_cases hs
  · have hcall := hop call rfl
    refine ⟨h.orderly.spawned ?_, ?_, rs, htraced.spawned call⟩
    · rintro name version json rfl
      cases hcall
    · exact forall_spawned h.updates hcall
  · have hcall : call.isUpdate = true := h.updates ⟨call, pc⟩ (by simp)
    refine ⟨h.orderly.stepped hstep ?_ ?_, ?_, ?_⟩
    · rintro - id machine version ctx key rfl
      cases hcall
    · intro p hready
      rw [← h.orderly.kept]
      exact hready.valid
    · exact forall_replace h.updates hcall
    · obtain hstored | ⟨-, hkept⟩ := htraced.step hstep.effect
        (fun p hp hon => h.orderly.sole hp hon)
        (fun p hp o hb => ⟨h.orderly.found (by simp) hp hb,
          fun seq off => (h.orderly.plans _ (by simp) p hp).change hb seq off⟩)
      · exact ⟨_, hstored⟩
      · exact ⟨rs, hkept⟩

/-- Nothing is about to be stored in an instance whose lock is free. -/
theorem Updating.idle {id : String} (h : Updating X e id s ts) (hfree : id ∉ s.locks) :
    ∀ t ∈ ts, ∀ i, t.unstored ≠ some (id, i) := by
  intro t ht i hi
  obtain ⟨p, hp, hon⟩ := EngineThread.pending_of_unstored hi
  obtain hheld | hcreates := h.orderly.locked.owner ht hp hon
  · exact hfree (h.orderly.locked.held t ht id hheld).1
  · have hcall := h.updates t ht
    obtain ⟨call, pc⟩ := t
    cases call with
    | createInstance | putMachine => cases hcall
    | applyEvent | deleteInstance => cases hcreates

end

/-- Events and deletions from any number of clients, on any engine: the records that
they append to an instance are a path of its definition from the instance at the
start, and unless a call works on the instance it is in memory where the path ends. A
clean log holds the records behind those it held. -/
theorem updates_follow_definition (X : CoreExternals) (e : Engine) {ops : List (Sched EngineCall)}
    (hops : ∀ call, .spawn call ∈ ops → call.isUpdate = true) {s : ThreadedEngine}
    {ts : List (EngineThread (wholeAppend X.toExternals))}
    (hrun : run (engineSched X (wholeAppend X.toExternals)) (⟨e, [], []⟩, []) ops = some (s, ts)) :
    (∀ id i, e.instances[id]? = some i → ∃ j,
      Path (InstanceChange e.definitions id) (some i) (recordsOn id s.appended) (some j) ∧
      (id ∉ s.locks → s.engine.instances[id]? = some j)) ∧
    (∀ (pre : List (Chunk X.toExternals)) c, e.wal.Repr pre c → c.tail = [] →
      s.engine.wal.readable X.toExternals = e.wal.readable X.toExternals ++ s.appended) := by
  constructor
  · intro id i hi
    have hmeets := meets_of_forall (engineSched X (wholeAppend X.toExternals))
      (fun op => ∀ call, op = .spawn call → call.isUpdate = true) (⟨e, [], []⟩, [])
      (fun op hop call hcall => hops call (hcall ▸ hop))
    have hupdating : Updating X e id s ts := by
      refine run_keeps_of_meets (P := fun p => Updating X e id p.1 p.2)
        (fun p op p' h hop hs => h.step hop hs) ?_ hmeets hrun
      exact ⟨.initial e _, by simp, [], .initial _ id e⟩
    obtain ⟨rs, htraced⟩ := hupdating.traced
    obtain ⟨now, hpath, hnow⟩ := htraced.whole
    rw [hi] at hpath
    obtain ⟨j, rfl⟩ := Option.isSome_iff_exists.mp hpath.isSome
    exact ⟨j, hpath, fun hfree => hnow (hupdating.idle hfree)⟩
  · intro pre c hr hc
    have hlog : LogHolds (entries (pre ++ [c])) s ts :=
      run_keeps (P := fun p => LogHolds (entries (pre ++ [c])) p.1 p.2)
        (fun p op p' h hs => h.step hs) (.initial hr hc) hrun
    rw [hlog.readable, hr.readable]

def firstVersion : String × UInt32 := ("m", 1)

/-- Two clients: the second waits for the lock while the first appends, and then
deletes the instance. -/
def eventThenDelete : List (Sched EngineCall) :=
  [.spawn (.applyEvent (Engine.loopEvent none)), .spawn (.deleteInstance "i" none), .step 0,
    .step 0, .step 0, .step 0, .step 0, .step 0, .step 1, .step 1, .step 1, .step 1]

set_option maxRecDepth 4000 in
theorem updates_follow_definition_event_then_delete :
    ∃ e, run (Engine.step serdeCore) (Engine.fresh ⟨100, .everyWrite⟩)
        [.putMachine "m" 1 Engine.loopMachine, .createInstance "i" "m" 1 .null none] = some e ∧
      ∃ q, run (engineSched serdeCore (wholeAppend serdeCore.toExternals)) (⟨e, [], []⟩, [])
          eventThenDelete = some q ∧
        q.1.appended.length = 2 ∧ q.1.locks = [] ∧
        ∀ id i, e.instances[id]? = some i → ∃ j,
          Path (InstanceChange e.definitions id) (some i) (recordsOn id q.1.appended) (some j) ∧
          (id ∉ q.1.locks → q.1.engine.instances[id]? = some j) := by
  refine run_exists (p := fun e =>
    (run (engineSched serdeCore (wholeAppend serdeCore.toExternals)) (⟨e, [], []⟩, [])
      eventThenDelete).any (fun q => decide (q.1.appended.length = 2 ∧ q.1.locks = [])) = true)
    (by decide +kernel) ?_
  intro e _ he
  refine run_exists he ?_
  intro q hq hfacts
  have hops : ∀ call, .spawn call ∈ eventThenDelete → call.isUpdate = true := by
    intro call hcall
    simp only [eventThenDelete, List.mem_cons, Sched.spawn.injEq, reduceCtorEq, List.not_mem_nil,
      or_false, or_self] at hcall
    obtain rfl | rfl := hcall <;> rfl
  exact ⟨hfacts.1, hfacts.2, (updates_follow_definition serdeCore e hops hq).1⟩

end Rstmdb

import Rstmdb.Core.Paths

/-! Creations of one instance at once. The existence check, the append and the insert
are separate steps, so two creations that overlap both succeed, and the second undoes
the events in between. Without such an overlap there is one creation, and the memory
is what the log restores. -/
namespace Rstmdb
open Json (Value)

/-! ## What the log restores -/

/-- A fresh start on the directory finds the instance as it is in memory. -/
def Engine.Restores (X : CoreExternals) (e : Engine) (id : String) : Prop :=
  ∀ config, ∃ e', new X config e.wal.dir = some (.ok e') ∧ e'.instances[id]? = e.instances[id]?

/-- An event without an id finds an instance without a last event id. -/
def Pending.KeepsEventId : Pending → Prop
  | .applyEvent r i _ => r.eventId = none → i.lastEventId = none
  | _ => True

def WalEntry.KeepsEventId (o : Option Instance) : WalEntry → Prop
  | .applyEvent _ _ _ _ _ _ none _ => ∀ i ∈ o, i.lastEventId = none
  | _ => True

/-- A change of an instance that a replay makes in the same way. -/
def FaithfulChange (definitions : Table (String × UInt32) MachineDefinition) (id : String)
    (o : Option Instance) (e : ReadEntry) (o' : Option Instance) : Prop :=
  InstanceChange definitions id o e o' ∧ e.2.2.KeepsEventId o

section
variable {X : CoreExternals} {definitions : Table (String × UInt32) MachineDefinition} {id : String}

variable {o o' : Option Instance} {m : Memory}

theorem Pending.faithful {p : Pending} (h : p.Valid X definitions) (hk : p.KeepsEventId)
    (hb : p.before = some (id, o)) (seq : UInt64) (off : WalOffset) :
    ∃ i, p.instanceAt off = some (id, i) ∧
      FaithfulChange definitions id o (seq, off, p.entry) (some i) := by
  obtain ⟨i, hi, hchange⟩ := h.change hb seq off
  refine ⟨i, hi, hchange, ?_⟩
  cases p with
  | putMachine | createInstance | deleteInstance => trivial
  | applyEvent r j toState =>
    cases hb
    cases he : r.eventId with
    | none =>
      simp only [Pending.entry, he, WalEntry.KeepsEventId]
      rintro _ ⟨⟩
      exact hk he
    | some => simp only [Pending.entry, he, WalEntry.KeepsEventId]

/-- The replay of a record, on a memory that has the instance but for its last event id. -/
theorem InstanceChange.replayed {e : ReadEntry} (h : InstanceChange definitions id o e o')
    (hm : (m.instances[id]?).map Instance.persisted = o.map Instance.persisted) :
    ∃ m', replayEntry X m e.2.1.asU64 e.2.2 = some m' ∧
      (m'.instances[id]?).map Instance.persisted = o'.map Instance.persisted := by
  cases h with
  | created =>
    have habsent : m.instances[id]? = none := by simpa using hm
    have hnew : m.instances.contains id = false := Table.contains_eq_false habsent
    refine ⟨_, by simp only [replayEntry, hnew, Bool.false_eq_true, if_false]; rfl, ?_⟩
    simp [Memory.setInstance]
  | @event i _ _ _ eventId =>
    obtain ⟨j, hj, hji⟩ := Option.map_eq_some_iff.mp hm
    refine ⟨_, by simp only [replayEntry, hj]; rfl, ?_⟩
    cases i
    cases j
    cases eventId <;> simp_all [Instance.persisted, Instance.applyTransition, Memory.setInstance]
  | @deleted i =>
    obtain ⟨j, hj, hji⟩ := Option.map_eq_some_iff.mp hm
    refine ⟨_, by simp only [replayEntry, hj]; rfl, ?_⟩
    cases i
    cases j
    simp_all [Instance.persisted, Instance.softDelete, Memory.setInstance]

theorem FaithfulChange.replayed {e : ReadEntry} (h : FaithfulChange definitions id o e o')
    (hm : m.instances[id]? = o) :
    ∃ m', replayEntry X m e.2.1.asU64 e.2.2 = some m' ∧ m'.instances[id]? = o' := by
  obtain ⟨hchange, hkeeps⟩ := h
  cases hchange with
  | created =>
    have hnew : m.instances.contains id = false := Table.contains_eq_false hm
    refine ⟨_, by simp only [replayEntry, hnew, Bool.false_eq_true, if_false]; rfl, ?_⟩
    simp [Memory.setInstance]
  | @event i _ _ _ eventId =>
    refine ⟨_, by simp only [replayEntry, hm]; rfl, ?_⟩
    cases eventId with
    | none =>
      have hlast : i.lastEventId = none := hkeeps i rfl
      simp [Memory.setInstance, Instance.applyTransition, hlast]
    | some => simp [Memory.setInstance, Instance.applyTransition]
  | deleted =>
    refine ⟨_, by simp only [replayEntry, hm]; rfl, ?_⟩
    simp [Memory.setInstance, Instance.softDelete]

/-- A replay of the records of a path ends where the path does, in the view in which
each record does. -/
theorem Path.replayed {α : Type} {R : Option Instance → ReadEntry → Option Instance → Prop}
    {view : Option Instance → α}
    (step : ∀ o e o' (m : Memory), R o e o' → view (m.instances[id]?) = view o →
      ∃ m', replayEntry X m e.2.1.asU64 e.2.2 = some m' ∧ view (m'.instances[id]?) = view o')
    {es : List ReadEntry} (h : Path R o es o') (hm : view (m.instances[id]?) = view o) :
    ∃ m', replayEntries X m es = some m' ∧ view (m'.instances[id]?) = view o' := by
  induction h with
  | nil => exact ⟨m, rfl, hm⟩
  | @snoc t u es e _ last ih =>
    obtain ⟨m₁, hm₁, hview⟩ := ih
    obtain ⟨m₂, hm₂, hview'⟩ := step t e u m₁ last hview
    refine ⟨m₂, ?_, hview'⟩
    rw [replayEntries_append, hm₁]
    simp [replayEntries, hm₂]

end

/-! ## One creation -/

/-- A creation of the instance without a key, or an event on it. -/
def EngineCall.Concerns (id : String) : EngineCall → Prop
  | .createInstance id' _ _ _ key => id' = id ∧ key = none
  | .applyEvent r => r.instanceId = id
  | _ => False

section
variable {L : LogSteps}

/-- The instance whose absence the thread checks next. -/
def EngineThread.checks (t : EngineThread L) : Option String :=
  match t.call, t.pc with
  | .createInstance id _ _ _ _, .missed => some id
  | _, _ => none

/-- A creation makes its check while no other creation of the instance is between
its check and its insert. -/
def uncontested (p : ThreadedEngine × List (EngineThread L)) : Sched EngineCall → Prop
  | .step k => ∀ id ∈ (p.2[k]?).bind EngineThread.checks, ∀ u ∈ p.2, u.creates ≠ some id
  | .spawn _ => True

/-- The instance that an event without an id meets next. -/
def EngineThread.unnamed (t : EngineThread L) : Option String :=
  match t.call, t.pc with
  | .applyEvent r, .locked => if r.eventId = none then some r.instanceId else none
  | _, _ => none

/-- An event without an id meets an instance without a last event id. -/
def eventIdsKept (p : ThreadedEngine × List (EngineThread L)) : Sched EngineCall → Prop
  | .step k => ∀ id ∈ (p.2[k]?).bind EngineThread.unnamed,
      ∀ i ∈ p.1.engine.instances[id]?, i.lastEventId = none
  | .spawn _ => True

instance (p : ThreadedEngine × List (EngineThread L)) (op : Sched EngineCall) :
    Decidable (uncontested p op) :=
  match op with
  | .step k => inferInstanceAs
      (Decidable (∀ id ∈ (p.2[k]?).bind EngineThread.checks, ∀ u ∈ p.2, u.creates ≠ some id))
  | .spawn _ => inferInstanceAs (Decidable True)

instance (p : ThreadedEngine × List (EngineThread L)) (op : Sched EngineCall) :
    Decidable (eventIdsKept p op) :=
  match op with
  | .step k => inferInstanceAs (Decidable (∀ id ∈ (p.2[k]?).bind EngineThread.unnamed,
      ∀ i ∈ p.1.engine.instances[id]?, i.lastEventId = none))
  | .spawn _ => inferInstanceAs (Decidable True)

namespace EngineThread

/-- The thread has created the instance. -/
def hasCreated (t : EngineThread L) : Bool :=
  match t.call, t.pc with
  | .createInstance .., .done (.ok _) => true
  | _, _ => false

/-- The result of the event that the thread has applied. -/
def acked (t : EngineThread L) : Option ApplyResult :=
  match t.pc with
  | .caching a | .done (.ok (.applied a)) => some a
  | _ => none

end EngineThread

/-- The result is that of a record, or it was in the cache at the start. -/
def Engine.Known (e : Engine) (rs : List ReadEntry) (a : ApplyResult) : Prop :=
  (∃ key : String × String, e.idempotencyCache[key]? = some a) ∨
    ∃ x ∈ rs, x.2.2.resultAt x.1 x.2.1 = some a

theorem Engine.Known.mono {e : Engine} {rs rs' : List ReadEntry} {a : ApplyResult}
    (h : e.Known rs a) (hsub : ∀ x ∈ rs, x ∈ rs') : e.Known rs' a := by
  obtain hkey | ⟨x, hx, ha⟩ := h
  · exact .inl hkey
  · exact .inr ⟨x, hsub x hx, ha⟩

/-- What holds along every run of creations of the instance and events on it in which
no two creations overlap. -/
structure Creation (e : Engine) (id : String) (good : Pending → Prop)
    (R : Option Instance → ReadEntry → Option Instance → Prop) (s : ThreadedEngine)
    (ts : List (EngineThread L)) (rs : List ReadEntry) : Prop where
  orderly : Orderly e.definitions good s ts
  calls : ∀ t ∈ ts, t.call.Concerns id
  traced : Traced R id (e.instances[id]?) s ts rs
  records : recordsOn id s.appended = s.appended
  logged : ∀ t ∈ ts, ∀ p seq off, t.pc = .logged p seq off → (seq, off, p.entry) ∈ s.appended
  once : ts.countP EngineThread.hasCreated ≤ 1
  created : 0 < ts.countP EngineThread.hasCreated → (s.engine.instances[id]?).isSome = true
  cache : ∀ (key : String × String) a, s.engine.idempotencyCache[key]? = some a → e.Known rs a
  acked : ∀ t ∈ ts, ∀ a, t.acked = some a → e.Known rs a

section
variable {X : CoreExternals} {s s' : ThreadedEngine} {call : EngineCall} {pc pc' : CallPc L.State}
  {ts xs ys : List (EngineThread L)} {e : Engine} {id : String} {good : Pending → Prop}
  {R : Option Instance → ReadEntry → Option Instance → Prop} {rs : List ReadEntry}

/-- A creation without a key succeeds when it stores its instance, and only then. -/
theorem Stepped.hasCreated (h : Stepped X L s call pc s' pc') (hcall : call.Concerns id)
    (hnew : (⟨call, pc'⟩ : EngineThread L).hasCreated = true) :
    ∃ p seq off, pc = .logged p seq off := by
  cases call with
  | putMachine | applyEvent | deleteInstance => cases hnew
  | createInstance id' machine version ctx key =>
    obtain ⟨rfl, rfl⟩ := hcall
    cases h with
    | answered _ answer =>
      cases answer with
      | failed => cases hnew
      | created hb => cases hb
    | rejected hid => cases hid
    | missed | checked | acquired | planned | appending | refused | appended | applied =>
      cases hnew
    | created | finished => exact ⟨_, _, _, rfl⟩
    | cached hcall => cases hcall

theorem Stepped.cache (h : Stepped X L s call pc s' pc') {key : String × String} {a : ApplyResult}
    (ha : s'.engine.idempotencyCache[key]? = some a) :
    s.engine.idempotencyCache[key]? = some a ∨ (⟨call, pc⟩ : EngineThread L).acked = some a := by
  cases h with
  | answered | missed | checked | acquired | rejected | planned | appending | appended | created
  | applied => exact .inl ha
  | refused => exact .inl (by simpa [ThreadedEngine.setWal] using ha)
  | @finished p seq off other =>
    rw [ThreadedEngine.release_engine] at ha
    obtain ⟨name, version, json, d, rfl⟩ | ⟨id, key, i, rfl⟩ := other <;> exact .inl ha
  | @cached r a' =>
    simp only [ThreadedEngine.unlock, ThreadedEngine.setEngine, Engine.cacheResult] at ha
    split at ha
    · exact .inl ha
    rename_i k _
    obtain ⟨-, rfl⟩ | ⟨-, ha⟩ := Table.found_insert ha
    · exact .inr rfl
    · exact .inl ha

/-- A result is one that the call had, or one of the cache, or that of its record. -/
theorem Stepped.acked (h : Stepped X L s call pc s' pc') {a : ApplyResult}
    (ha : (⟨call, pc'⟩ : EngineThread L).acked = some a) :
    (⟨call, pc⟩ : EngineThread L).acked = some a ∨
      (∃ key : String × String, s.engine.idempotencyCache[key]? = some a) ∨
      ∃ p seq off, pc = .logged p seq off ∧ p.entry.resultAt seq off = some a := by
  cases h with
  | missed | checked | acquired | planned | appending | refused | appended | created => cases ha
  | answered _ answer =>
    cases answer with
    | failed | known | created => cases ha
    | @cached r _ hcached =>
      cases ha
      unfold Engine.cachedResult at hcached
      split at hcached
      · cases hcached
      · exact .inr (.inl ⟨_, hcached⟩)
  | rejected _ outcome => obtain ⟨err, rfl⟩ | ⟨offset, rfl⟩ := outcome <;> cases ha
  | applied hresult =>
    cases ha
    cases hresult
    exact .inr (.inr ⟨_, _, _, rfl, rfl⟩)
  | finished other =>
    obtain ⟨name, version, json, d, rfl⟩ | ⟨id, key, i, rfl⟩ := other <;> cases ha
  | cached => exact .inl ha

theorem Creation.initial (e : Engine) (id : String) (good : Pending → Prop)
    (R : Option Instance → ReadEntry → Option Instance → Prop) :
    Creation (L := L) e id good R ⟨e, [], []⟩ [] [] :=
  ⟨.initial e good, by simp, .initial R id e, rfl, by simp, by simp, by simp,
    fun key _ ha => .inl ⟨key, ha⟩, by simp⟩

theorem Creation.spawned (h : Creation e id good R s ts rs) (hcall : call.Concerns id) :
    Creation e id good R s (ts ++ [(⟨call, .started⟩ : EngineThread L)]) rs := by
  have hnew : (⟨call, .started⟩ : EngineThread L).hasCreated = false := by cases call <;> rfl
  have hcount : (ts ++ [(⟨call, .started⟩ : EngineThread L)]).countP EngineThread.hasCreated =
      ts.countP EngineThread.hasCreated := by
    simp [hnew]
  refine ⟨h.orderly.spawned ?_, ?_, h.traced.spawned call, h.records, ?_, ?_, ?_, h.cache, ?_⟩
  · rintro name version json rfl
    exact hcall
  · exact forall_spawned h.calls hcall
  · exact forall_spawned h.logged (by rintro _ _ _ ⟨⟩)
  · rw [hcount]
    exact h.once
  · rw [hcount]
    exact h.created
  · exact forall_spawned h.acked (by rintro _ ⟨⟩)

theorem Creation.on (h : Creation e id good R s ts rs) {t : EngineThread L} (ht : t ∈ ts)
    {p : Pending} (hp : t.pending = some p) : p.entry.instanceId = some id := by
  have hcall := h.calls t ht
  rw [← (h.orderly.locked.own t ht p hp).1] at hcall
  cases p with
  | putMachine | deleteInstance => cases hcall
  | createInstance => exact congrArg some hcall.1
  | applyEvent => exact congrArg some hcall

theorem Creation.stored {p : Pending} {seq : UInt64} {off : WalOffset}
    (h : Creation e id good R s (xs ++ ⟨call, .logged p seq off⟩ :: ys) rs)
    (hs : Stepped X L s call (.logged p seq off) s' pc') :
    (s'.engine.instances[id]?).isSome = true := by
  have hon := h.on (t := ⟨call, .logged p seq off⟩) (by simp) rfl
  rw [p.instanceId_of_instanceAt off] at hon
  obtain ⟨⟨id', i⟩, hi, rfl⟩ := Option.map_eq_some_iff.mp hon
  cases hs.effect with
  | quiet _ _ before => exact absurd rfl (before _ _ _)
  | stored _ memory =>
    have hstore : s'.engine.instances = (p.store s.engine off).instances := by rw [memory]
    simp [hstore, Pending.store_instances, hi]

theorem Stepped.present (hs : Stepped X L s call pc s' pc')
    (hsome : (s.engine.instances[id]?).isSome = true) :
    (s'.engine.instances[id]?).isSome = true := by
  by_cases hsame : s'.engine.instances[id]? = s.engine.instances[id]?
  · rwa [hsame]
  · obtain ⟨p, seq, off, i, -, -, hi⟩ := hs.effect.instances hsame
    rw [hi]
    rfl

/-- The first creation to succeed finds no instance, and no creation succeeds while
there is one. -/
theorem Creation.counted (h : Creation e id good R s (xs ++ ⟨call, pc⟩ :: ys) rs)
    (hs : Stepped X L s call pc s' pc') :
    (xs ++ ⟨call, pc'⟩ :: ys).countP EngineThread.hasCreated ≤ 1 ∧
      (0 < (xs ++ ⟨call, pc'⟩ :: ys).countP EngineThread.hasCreated →
        (s'.engine.instances[id]?).isSome = true) := by
  have hcalls : call.Concerns id := h.calls ⟨call, pc⟩ (by simp)
  have honce := h.once
  have hcreated := h.created
  rw [List.countP_append, List.countP_cons] at honce hcreated ⊢
  cases hnew : (⟨call, pc'⟩ : EngineThread L).hasCreated with
  | false =>
    simp only [Bool.false_eq_true, if_false]
    refine ⟨by omega, fun hpos => hs.present (hcreated (by omega))⟩
  | true =>
    obtain ⟨p, seq, off, rfl⟩ := hs.hasCreated hcalls hnew
    have hnone : s.engine.instances[id]? = none := by
      have hon := h.on (t := ⟨call, .logged p seq off⟩) (by simp) rfl
      obtain hheld | hcreates := h.orderly.locked.owner (t := ⟨call, .logged p seq off⟩) (by simp)
        rfl hon
      · cases call with
        | createInstance => cases hheld
        | putMachine | applyEvent | deleteInstance => cases hnew
      · exact h.orderly.absent _ (by simp) id hcreates
    simp only [hnone, Option.isSome_none, Bool.false_eq_true, imp_false] at hcreated
    simp only [if_true]
    exact ⟨by omega, fun _ => h.stored hs⟩

theorem Creation.stepped (h : Creation e id good R s (xs ++ ⟨call, pc⟩ :: ys) rs)
    (hs : Stepped X L s call pc s' pc')
    (alone : pc = .missed → ∀ id machine version ctx key,
      call = .createInstance id machine version ctx key →
      ∀ u ∈ xs ++ ys, u.creates ≠ some id)
    (planned : ∀ p, call.Ready X s.engine pc p → good p)
    (moves : ∀ p o, good p → p.before = some (id, o) → ∀ seq off,
      ∃ i, p.instanceAt off = some (id, i) ∧ R o (seq, off, p.entry) (some i)) :
    ∃ rs', Creation e id good R s' (xs ++ ⟨call, pc'⟩ :: ys) rs' := by
  have horderly := h.orderly.stepped hs alone planned
  have hcalls : ∀ u ∈ xs ++ ⟨call, pc'⟩ :: ys, u.call.Concerns id :=
    forall_replace h.calls (h.calls ⟨call, pc⟩ (by simp))
  have hrecords : recordsOn id s'.appended = s'.appended := by
    cases hs.effect with
    | quiet appended | stored appended =>
      rw [appended]
      exact h.records
    | @logged p l seq off appended =>
      have hon := h.on (t := ⟨call, .logging p l⟩) (by simp) rfl
      rw [appended, recordsOn_snoc, if_pos hon, h.records]
  have hlogged : ∀ u ∈ xs ++ ⟨call, pc'⟩ :: ys, ∀ p seq off, u.pc = .logged p seq off →
      (seq, off, p.entry) ∈ s'.appended := by
    intro u hu p seq off hpc
    have hgrown : ∀ x ∈ s.appended, x ∈ s'.appended := by
      cases hs.effect with
      | quiet appended | stored appended => simp [appended]
      | logged appended =>
        intro x hx
        simp [appended, hx]
    obtain rfl | hu := mem_replace hu
    · cases hs.effect with
      | quiet _ _ _ after | stored _ _ after => exact absurd hpc (after p seq off)
      | logged appended =>
        cases hpc
        simp [appended]
    · exact hgrown _ (h.logged u (mem_of_others _ hu) p seq off hpc)
  obtain ⟨rs', htraced, hsub, hwritten⟩ : ∃ rs',
      Traced R id (e.instances[id]?) s' (xs ++ ⟨call, pc'⟩ :: ys) rs' ∧ (∀ x ∈ rs, x ∈ rs') ∧
      ∀ p seq off, pc = .logged p seq off → (seq, off, p.entry) ∈ rs' := by
    obtain hstored | ⟨hother, hkept⟩ := h.traced.step hs.effect
      (fun p hp hon => h.orderly.sole hp hon)
      (fun p hp o hb => ⟨h.orderly.found (by simp) hp hb,
        moves p o (h.orderly.plans _ (by simp) p hp) hb⟩)
    · refine ⟨_, hstored, ?_, ?_⟩
      · obtain ⟨rest, hrest, -⟩ := h.traced.within
        rw [hrest]
        intro x hx
        simp [hx]
      · rintro p seq off rfl
        rw [h.records]
        exact h.logged ⟨call, .logged p seq off⟩ (by simp) p seq off rfl
    · refine ⟨rs, hkept, fun _ hx => hx, ?_⟩
      rintro p seq off rfl
      exact absurd (h.on (t := ⟨call, .logged p seq off⟩) (by simp) rfl) (hother p seq off rfl)
  refine ⟨rs', horderly, hcalls, htraced, hrecords, hlogged, (h.counted hs).1, (h.counted hs).2,
    ?_, ?_⟩
  · intro key a ha
    obtain hcache | hacked := hs.cache ha
    · exact (h.cache key a hcache).mono hsub
    · exact (h.acked _ (by simp) a hacked).mono hsub
  · intro u hu a ha
    obtain rfl | hu := mem_replace hu
    · obtain hacked | ⟨key, hcache⟩ | ⟨p, seq, off, hpc, hresult⟩ := hs.acked ha
      · exact (h.acked _ (by simp) a hacked).mono hsub
      · exact (h.cache key a hcache).mono hsub
      · exact .inr ⟨_, hwritten p seq off hpc, hresult⟩
    · exact (h.acked u (mem_of_others _ hu) a ha).mono hsub

theorem Creation.step {op : Sched EngineCall} {ts' : List (EngineThread L)}
    (h : Creation e id good R s ts rs) (hop : ∀ call, op = .spawn call → call.Concerns id)
    (alone : uncontested (s, ts) op)
    (planned : ∀ k call pc p, op = .step k → ts[k]? = some ⟨call, pc⟩ →
      call.Ready X s.engine pc p → good p)
    (moves : ∀ p o, good p → p.before = some (id, o) → ∀ seq off,
      ∃ i, p.instanceAt off = some (id, i) ∧ R o (seq, off, p.entry) (some i))
    (hs : engineSched X L (s, ts) op = some (s', ts')) :
    ∃ rs', Creation e id good R s' ts' rs' := by
  obtain ⟨call, rfl, rfl, rfl⟩ | ⟨k, xs, call, pc, pc', ys, rfl, hk, rfl, hstep, rfl⟩ :=
    engineSched_cases hs
  · exact ⟨rs, h.spawned (hop call rfl)⟩
  · refine h.stepped hstep ?_ (fun p => planned k call pc p rfl hk) moves
    rintro rfl id' machine version ctx key rfl u hu
    simp only [uncontested, hk] at alone
    exact alone id' rfl u (mem_of_others _ hu)

end

end

section
variable {X : CoreExternals} {e : Engine} {id : String} {ops : List (Sched EngineCall)}
  {s : ThreadedEngine} {ts : List (EngineThread (wholeAppend X.toExternals))}

section
variable (hops : ∀ call, .spawn call ∈ ops → call.Concerns id)
  (hgood : Meets (engineSched X (wholeAppend X.toExternals)) uncontested (⟨e, [], []⟩, []) ops)
  (hrun : run (engineSched X (wholeAppend X.toExternals)) (⟨e, [], []⟩, []) ops = some (s, ts))
include hops hgood hrun

theorem Creation.of_run :
    ∃ rs, Creation e id (Pending.Valid X e.definitions)
      (InstanceChange e.definitions id) s ts rs := by
  have hcalls := meets_of_forall (engineSched X (wholeAppend X.toExternals))
    (fun op => ∀ call, op = .spawn call → call.Concerns id) (⟨e, [], []⟩, [])
    (fun op hop call hcall => hops call (hcall ▸ hop))
  refine run_keeps_of_meets (P := fun p => ∃ rs,
    Creation e id (Pending.Valid X e.definitions) (InstanceChange e.definitions id) p.1 p.2 rs)
    ?_ ⟨[], .initial e id _ _⟩ (hcalls.and hgood) hrun
  rintro p op p' ⟨rs, h⟩ ⟨hop, halone⟩ hs
  refine h.step hop halone ?_ (fun q o hq hb seq off => hq.change hb seq off) hs
  intro k call pc q _ _ hready
  rw [← h.orderly.kept]
  exact hready.valid

theorem Creation.faithful_of_run (hids : Meets (engineSched X (wholeAppend X.toExternals))
      eventIdsKept (⟨e, [], []⟩, []) ops) :
    ∃ rs, Creation e id (fun p => p.Valid X e.definitions ∧ p.KeepsEventId)
      (FaithfulChange e.definitions id) s ts rs := by
  have hcalls := meets_of_forall (engineSched X (wholeAppend X.toExternals))
    (fun op => ∀ call, op = .spawn call → call.Concerns id) (⟨e, [], []⟩, [])
    (fun op hop call hcall => hops call (hcall ▸ hop))
  refine run_keeps_of_meets (P := fun p => ∃ rs,
    Creation e id (fun p => p.Valid X e.definitions ∧ p.KeepsEventId)
      (FaithfulChange e.definitions id) p.1 p.2 rs)
    ?_ ⟨[], .initial e id _ _⟩ (hcalls.and (hgood.and hids)) hrun
  rintro p op p' ⟨rs, h⟩ ⟨hop, halone, hkept⟩ hs
  refine h.step hop halone ?_ (fun q o hq hb seq off => Pending.faithful hq.1 hq.2 hb seq off) hs
  rintro k call pc q rfl hk hready
  refine ⟨h.orderly.kept ▸ hready.valid, ?_⟩
  cases hready with
  | putMachine | createInstance | deleteInstance => trivial
  | applyEvent present =>
    simp only [eventIdsKept, hk] at hkept
    intro hnone
    exact hkept _ (by simp [EngineThread.unnamed, hnone]) _ present

end

/-- When nothing is about to be stored, a restart replays the path of the instance. -/
theorem Creation.restart {good : Pending → Prop}
    {R : Option Instance → ReadEntry → Option Instance → Prop} {rs : List ReadEntry}
    (h : Creation e id good R s ts rs) (hidle : ∀ t ∈ ts, t.unstored = none)
    {old : List ReadEntry} (hlog : LogHolds old s ts) {α : Type} (view : Option Instance → α)
    (step : ∀ o x o' (m : Memory), R o x o' → view (m.instances[id]?) = view o →
      ∃ m', replayEntry X m x.2.1.asU64 x.2.2 = some m' ∧ view (m'.instances[id]?) = view o')
    {m : Memory} (hm : replayEntries X .empty old = some m)
    (hview : view (m.instances[id]?) = view (e.instances[id]?)) (config : WalConfig) :
    ∃ e', Engine.new X config s.engine.wal.dir = some (.ok e') ∧
      view (e'.instances[id]?) = view (s.engine.instances[id]?) := by
  obtain ⟨m', hm', hview'⟩ := h.traced.path.replayed step hview
  have hrs : s.appended = rs := by
    rw [← h.records]
    exact h.traced.stored fun t ht i hi => by simp [hidle t ht] at hi
  obtain ⟨pre, c, hr, -, he⟩ := hlog.log
  have hall : replayEntries X .empty (entries (pre ++ [c])) = some m' := by
    rw [he, replayEntries_append, hm, hrs]
    exact hm'
  obtain ⟨w, hnew, -⟩ := Engine.new_of_replayed hr hall config
  exact ⟨_, hnew, hview'⟩

end

/-- Creations of one instance without keys and events on it, from any number of clients,
after any run of the engine: if no creation makes its check while another is between
its check and its insert, at most one succeeds, the memory holds every event that was
acknowledged, and a restart finds the instance as it is in memory but for its last
event id. It finds that too, if it did so at the start and no event without an id
clears one. -/
theorem creation_unique (X : CoreExternals) {config : WalConfig} {e₀ e : Engine}
    {prior : List EngineOp} (hopen : Engine.new X config ∅ = some (.ok e₀))
    (hprior : run (Engine.step X) e₀ prior = some e) {id : String} {ops : List (Sched EngineCall)}
    (hops : ∀ call, .spawn call ∈ ops → call.Concerns id) {s : ThreadedEngine}
    {ts : List (EngineThread (wholeAppend X.toExternals))}
    (hgood : Meets (engineSched X (wholeAppend X.toExternals)) uncontested (⟨e, [], []⟩, []) ops)
    (hrun : run (engineSched X (wholeAppend X.toExternals)) (⟨e, [], []⟩, []) ops =
      some (s, ts)) :
    ts.countP EngineThread.hasCreated ≤ 1 ∧
    (∃ rs, Path (InstanceChange e.definitions id) (e.instances[id]?) rs
        (s.engine.instances[id]?) ∧
      (∃ rest, s.appended = rs ++ rest ∧ rest.length ≤ 1) ∧
      ∀ t ∈ ts, ∀ a, t.pc = .done (.ok (.applied a)) → e.Known rs a) ∧
    ((∀ t ∈ ts, t.unstored = none) →
      (∀ config', ∃ e', Engine.new X config' s.engine.wal.dir = some (.ok e') ∧
        (e'.instances[id]?).map Instance.persisted =
          (s.engine.instances[id]?).map Instance.persisted) ∧
      (Meets (engineSched X (wholeAppend X.toExternals)) eventIdsKept (⟨e, [], []⟩, []) ops →
        e.Restores X id → s.engine.Restores X id)) := by
  obtain ⟨pre, c, hrest⟩ := Engine.restorable_run hopen hprior
  obtain ⟨m, hm, hagree⟩ := hrest.replayed
  obtain ⟨rs, h⟩ := Creation.of_run hops hgood hrun
  have hlog : LogHolds (entries (pre ++ [c])) s ts :=
    run_keeps (P := fun p => LogHolds (entries (pre ++ [c])) p.1 p.2)
      (fun p op p' h hs => h.step hs) (.initial hrest.repr hrest.clean) hrun
  refine ⟨h.once, ⟨rs, h.traced.path, ?_, ?_⟩, fun hidle => ⟨fun config' => ?_, ?_⟩⟩
  · rw [← h.records]
    exact h.traced.within
  · intro t ht a ha
    exact h.acked t ht a (by simp [EngineThread.acked, ha])
  · exact h.restart hidle hlog (Option.map Instance.persisted)
      (fun o x o' m' hx hv => hx.replayed hv) hm (hagree.instances id) config'
  · intro hids hstart config'
    obtain ⟨rs', h'⟩ := Creation.faithful_of_run hops hgood hrun hids
    obtain ⟨e', hnew, hsame⟩ := hstart config'
    obtain ⟨w, hnew', -⟩ := Engine.new_of_replayed hrest.repr hm config'
    rw [hnew'] at hnew
    cases hnew
    exact h'.restart hidle hlog (fun o => o) (fun o x o' m' hx hv => hx.replayed hv) hm
      hsame config'

/-- Two states, and an event from the first to the second. -/
def stepMachine : Value :=
  .object [("initial", .string "a"), ("states", .array [.string "a", .string "b"]),
    ("transitions", .array [.array [.string "a", .string "e", .string "b"]])]

def createI : EngineCall := .createInstance "i" "m" 1 .null none

def applyE : EngineCall := .applyEvent (Engine.loopEvent none)

/-- A creation, a second one that finds the instance, and an event. -/
def createTwiceInTurn : List (Sched EngineCall) :=
  [.spawn createI, .step 0, .step 0, .step 0, .step 0, .step 0, .spawn createI, .step 1, .step 1,
    .spawn applyE, .step 2, .step 2, .step 2, .step 2, .step 2, .step 2]

/-- Both creations make their checks before either stores, and an event is applied
between the two. -/
def createTwiceAtOnce : List (Sched EngineCall) :=
  [.spawn createI, .spawn createI, .spawn applyE, .step 0, .step 0, .step 1, .step 1, .step 0,
    .step 0, .step 0, .step 2, .step 2, .step 2, .step 2, .step 2, .step 2, .step 1, .step 1,
    .step 1]

set_option maxRecDepth 4000 in
theorem creation_unique_in_turn :
    ∃ e, run (Engine.step serdeCore) (Engine.fresh ⟨100, .everyWrite⟩)
        [.putMachine "m" 1 stepMachine] = some e ∧
      ∃ q, run (engineSched serdeCore (wholeAppend serdeCore.toExternals)) (⟨e, [], []⟩, [])
          createTwiceInTurn = some q ∧
        q.2.countP EngineThread.hasCreated = 1 ∧
        (q.1.engine.instances["i"]?).map Instance.state = some "b" ∧
        q.1.engine.Restores serdeCore "i" := by
  refine run_exists (p := fun e => (e.instances["i"]?).isNone = true ∧
    Meets (engineSched serdeCore (wholeAppend serdeCore.toExternals)) uncontested (⟨e, [], []⟩, [])
      createTwiceInTurn ∧
    Meets (engineSched serdeCore (wholeAppend serdeCore.toExternals)) eventIdsKept (⟨e, [], []⟩, [])
      createTwiceInTurn ∧
    (run (engineSched serdeCore (wholeAppend serdeCore.toExternals)) (⟨e, [], []⟩, [])
      createTwiceInTurn).any (fun q => decide (q.2.countP EngineThread.hasCreated = 1 ∧
        (q.1.engine.instances["i"]?).map Instance.state = some "b" ∧
        ∀ t ∈ q.2, t.unstored.isNone = true)) = true)
    (by decide +kernel) ?_
  rintro e hprior ⟨habsent, hgood, hids, he⟩
  refine run_exists he ?_
  rintro ⟨s, ts⟩ hq ⟨hcount, hstate, hidle⟩
  have hopen := Engine.new_empty serdeCore ⟨100, .everyWrite⟩
  have hops : ∀ call, .spawn call ∈ createTwiceInTurn → call.Concerns "i" := by
    intro call hcall
    simp only [createTwiceInTurn, List.mem_cons, Sched.spawn.injEq, reduceCtorEq, List.not_mem_nil,
      or_false, false_or] at hcall
    obtain rfl | rfl | rfl := hcall
    · exact ⟨rfl, rfl⟩
    · exact ⟨rfl, rfl⟩
    · rfl
  have hstart : e.Restores serdeCore "i" := by
    intro config
    obtain ⟨pre, c, hrest⟩ := Engine.restorable_run hopen hprior
    obtain ⟨e', hnew, -, hagree, -⟩ := Engine.new_of_restorable hrest config
    have hnone : e.instances["i"]? = none := Option.isNone_iff_eq_none.mp habsent
    exact ⟨e', hnew, (hagree.absent hnone).trans hnone.symm⟩
  obtain ⟨-, -, hrestart⟩ := creation_unique serdeCore hopen hprior hops hgood hq
  exact ⟨hcount, hstate, (hrestart fun t ht => by simpa using hidle t ht).2 hids hstart⟩

set_option maxRecDepth 4000 in
theorem second_creation_undoes_event :
    ∃ e, run (Engine.step serdeCore) (Engine.fresh ⟨100, .everyWrite⟩)
        [.putMachine "m" 1 stepMachine] = some e ∧
      ∃ q, run (engineSched serdeCore (wholeAppend serdeCore.toExternals)) (⟨e, [], []⟩, [])
          createTwiceAtOnce = some q ∧
        q.2.countP EngineThread.hasCreated = 2 ∧
        (q.2.filterMap EngineThread.acked).map ApplyResult.toState = ["b"] ∧
        (q.1.engine.instances["i"]?).map Instance.state = some "a" := by
  refine run_exists (p := fun e =>
    (run (engineSched serdeCore (wholeAppend serdeCore.toExternals)) (⟨e, [], []⟩, [])
      createTwiceAtOnce).any (fun q => decide (q.2.countP EngineThread.hasCreated = 2 ∧
        (q.2.filterMap EngineThread.acked).map ApplyResult.toState = ["b"] ∧
        (q.1.engine.instances["i"]?).map Instance.state = some "a")) = true)
    (by decide +kernel) ?_
  intro e _ he
  exact run_exists he fun q _ hq => hq

end Rstmdb

import Rstmdb.Core.Paths

/-! Registrations of one machine version at once. The lookup, the append and the insert
are separate steps, so two registrations that overlap both succeed. The later insert
wins in memory and the earlier record on replay, and instances created in between are
left in states that their definition does not have. -/
namespace Rstmdb
open Json (Value)

/-! ## States and definitions -/

/-- Every instance is in a state of its definition. -/
def Memory.Typed (m : Memory) : Prop :=
  ∀ (id : String) i, m.instances[id]? = some i →
    ∃ d, m.definitions[(i.machine, i.version)]? = some d ∧ i.state ∈ d.states

namespace Memory.Typed

variable {m : Memory}

theorem setDefinition (h : m.Typed) {key : String × UInt32} (absent : m.definitions[key]? = none)
    (d : MachineDefinition) : (m.setDefinition key d).Typed := by
  intro id i hi
  obtain ⟨d', hd', hs⟩ := h id i hi
  refine ⟨d', ?_, hs⟩
  have hne : (i.machine, i.version) ≠ key := by
    rintro rfl
    simp [absent] at hd'
  exact (Table.getElem?_insert_ne hne).trans hd'

theorem setInstance (h : m.Typed) (id : String) {i : Instance} {d : MachineDefinition}
    (defined : m.definitions[(i.machine, i.version)]? = some d) (state : i.state ∈ d.states) :
    (m.setInstance id i).Typed :=
  Table.forall_insert h ⟨d, defined, state⟩

theorem agrees {n : Memory} (h : n.Typed) (ha : m.Agrees n) : m.Typed := by
  intro id i hi
  have hsame := ha.instances id
  rw [hi] at hsame
  obtain ⟨j, hj, hji⟩ := Option.map_eq_some_iff.mp hsame.symm
  obtain ⟨d, hd, hs⟩ := h id j hj
  rw [Instance.persisted, Instance.persisted, Instance.mk.injEq] at hji
  obtain ⟨-, hmachine, hversion, hstate, -⟩ := hji
  refine ⟨d, ?_, hstate ▸ hs⟩
  rw [ha.definitions, ← hmachine, ← hversion]
  exact hd

theorem changes {X : CoreExternals} {m' : Memory} {offset : Nat} {entry : WalEntry}
    (h : m.Typed) (hc : Changes X m offset entry m') : m'.Typed := by
  cases hc with
  | putMachine absent => exact h.setDefinition absent _
  | @createInstance _ _ _ _ _ d _ defined => exact h.setInstance _ defined d.initial_mem
  | @applyEvent _ _ _ _ _ _ _ d _ _ defined transition =>
    exact h.setInstance _ defined (d.transitions.listed _ _ _ transition).2
  | @deleteInstance id _ _ present =>
    obtain ⟨d, hd, hs⟩ := h id _ present
    exact h.setInstance _ hd hs

end Memory.Typed

theorem Engine.typed_run {X : CoreExternals} {config : WalConfig} {s₀ s : Engine}
    {ops : List EngineOp} (hopen : new X config ∅ = some (.ok s₀))
    (hrun : run (step X) s₀ ops = some s) : s.toMemory.Typed := by
  apply memory_run _ _ _ hopen hrun
  · intro id i hi
    simp [Memory.empty] at hi
  · exact fun _ _ _ _ ht hc => ht.changes hc
  · exact fun _ _ ht ha => ht.agrees ha

/-! ## One registration at a time -/

section
variable {L : LogSteps}

namespace EngineThread

/-- The version that the thread has found missing and is registering. -/
def registers (t : EngineThread L) : Option (String × UInt32) :=
  match t.call, t.pc with
  | .putMachine name version _, .logging .. => some (name, version)
  | .putMachine name version _, .logged .. => some (name, version)
  | _, _ => none

/-- The version that the thread looks up next. -/
def looksUp (t : EngineThread L) : Option (String × UInt32) :=
  match t.call, t.pc with
  | .putMachine name version _, .started => some (name, version)
  | _, _ => none

/-- The version that the thread has registered, with `created` true. -/
def hasRegistered (key : String × UInt32) (t : EngineThread L) : Bool :=
  match t.call, t.pc with
  | .putMachine name version _, .done (.ok (.machine _ true)) => (name, version) == key
  | _, _ => false

/-- The definition that the thread has logged and is about to store. -/
def undefined (t : EngineThread L) : Option ((String × UInt32) × MachineDefinition) :=
  match t.pc with
  | .logged (.putMachine name version _ d) _ _ => some ((name, version), d)
  | _ => none

end EngineThread

/-- A registration makes its lookup while no other of the same version is between its
lookup and its insert. -/
def unrivalled (p : ThreadedEngine × List (EngineThread L)) : Sched EngineCall → Prop
  | .step k => ∀ key ∈ (p.2[k]?).bind EngineThread.looksUp, ∀ u ∈ p.2, u.registers ≠ some key
  | .spawn _ => True

instance (p : ThreadedEngine × List (EngineThread L)) (op : Sched EngineCall) :
    Decidable (unrivalled p op) :=
  match op with
  | .step k => inferInstanceAs
      (Decidable (∀ key ∈ (p.2[k]?).bind EngineThread.looksUp, ∀ u ∈ p.2, u.registers ≠ some key))
  | .spawn _ => inferInstanceAs (Decidable True)

/-- No two threads register one version, and none that is there; every instance is in a
state of its definition and will be. -/
structure Registering (X : CoreExternals) (s : ThreadedEngine) (ts : List (EngineThread L)) :
    Prop where
  locked : Locked s ts
  distinct : (ts.filterMap EngineThread.registers).Nodup
  absent : ∀ t ∈ ts, ∀ key ∈ t.registers, s.engine.definitions[key]? = none
  typed : s.engine.toMemory.Typed
  plans : ∀ t ∈ ts, ∀ p ∈ t.pending, p.Valid X s.engine.definitions

section
variable {X : CoreExternals} {s s' : ThreadedEngine} {call : EngineCall} {pc pc' : CallPc L.State}
  {ts ts' xs ys : List (EngineThread L)} {key : String × UInt32}

/-- What the checks have found does not change as definitions are added. -/
theorem Pending.Valid.mono {p : Pending} {D D' : Table (String × UInt32) MachineDefinition}
    (h : p.Valid X D) (hsub : ∀ (key : String × UInt32) d, D[key]? = some d → D'[key]? = some d) :
    p.Valid X D' := by
  cases p with
  | putMachine | deleteInstance => exact h
  | createInstance => exact hsub _ _ h
  | applyEvent =>
    obtain ⟨d, guard, hd, ht⟩ := h
    exact ⟨d, guard, hsub _ _ hd, ht⟩

theorem Stepped.registers (h : Stepped X L s call pc s' pc')
    (hkey : (⟨call, pc'⟩ : EngineThread L).registers = some key) :
    ((⟨call, pc⟩ : EngineThread L).registers = some key ∧ ∀ p seq off, pc ≠ .logged p seq off) ∨
      (⟨call, pc⟩ : EngineThread L).looksUp = some key ∧ s.engine.definitions[key]? = none := by
  cases call with
  | createInstance | applyEvent | deleteInstance => cases hkey
  | putMachine =>
    cases h with
    | answered | missed | checked | rejected | refused | created | applied | finished | cached =>
      cases hkey
    | acquired _ hlock => cases hlock
    | planned ready =>
      cases ready with
      | putMachine absent =>
        cases hkey
        exact .inr ⟨rfl, absent⟩
    | appending | appended => exact .inl ⟨hkey, by simp⟩

theorem Effect.definitions (h : Effect s s' pc pc') :
    s'.engine.definitions = s.engine.definitions ∨
      ∃ name version json d seq off, pc = .logged (.putMachine name version json d) seq off ∧
        s'.engine.toMemory = s.engine.toMemory.setDefinition (name, version) d := by
  cases h with
  | quiet _ memory | logged _ memory => exact .inl (by rw [memory])
  | @stored p seq off _ _ memory =>
    cases p with
    | putMachine => exact .inr ⟨_, _, _, _, _, _, rfl, memory⟩
    | createInstance | applyEvent | deleteInstance => exact .inl (by rw [memory]; rfl)

variable {t : EngineThread L} {d : MachineDefinition} {old : List ReadEntry} {m : Memory}

theorem Registering.absent_of_undefined (h : Registering X s ts) (ht : t ∈ ts)
    (hd : t.undefined = some (key, d)) :
    t.registers = some key ∧ s.engine.definitions[key]? = none := by
  obtain ⟨c, pc⟩ := t
  unfold EngineThread.undefined at hd
  split at hd
  · rename_i name version json d' seq off hpc
    cases hd
    dsimp only at hpc
    subst hpc
    have hcall := (h.locked.own _ ht _ rfl).1
    dsimp only at hcall
    subst hcall
    exact ⟨rfl, h.absent _ ht _ rfl⟩
  · cases hd

section
variable (h : Registering X s (xs ++ ⟨call, pc⟩ :: ys))
include h

theorem Registering.extends (hs : Stepped X L s call pc s' pc') :
    ∀ (key : String × UInt32) d, s.engine.definitions[key]? = some d →
      s'.engine.definitions[key]? = some d := by
  intro key d hd
  obtain hsame | ⟨name, version, json, d', seq, off, rfl, hmem⟩ := hs.effect.definitions
  · rwa [hsame]
  · have hnone := (h.absent_of_undefined
      (t := ⟨call, .logged (.putMachine name version json d') seq off⟩) (by simp) rfl).2
    have hne : key ≠ (name, version) := by
      rintro rfl
      simp [hnone] at hd
    rw [hmem]
    exact (Table.getElem?_insert_ne hne).trans hd

/-- Every instance that a call stores is in a state of its definition. -/
theorem Registering.typed_stepped
    (hs : Stepped X L s call pc s' pc') : s'.engine.toMemory.Typed := by
  cases hs.effect with
  | quiet _ memory | logged _ memory => exact memory ▸ h.typed
  | @stored p seq off _ _ memory =>
    have ht : (⟨call, .logged p seq off⟩ : EngineThread L) ∈
        xs ++ ⟨call, .logged p seq off⟩ :: ys := by
      simp
    have hvalid := h.plans _ ht p rfl
    rw [memory]
    cases p with
    | putMachine => exact h.typed.setDefinition (h.absent_of_undefined ht rfl).2 _
    | createInstance _ _ _ _ _ d => exact h.typed.setInstance _ hvalid d.initial_mem
    | applyEvent =>
      obtain ⟨d, guard, hd, htrans, -⟩ := hvalid
      exact h.typed.setInstance _ hd (d.transitions.listed _ _ _ htrans).2
    | deleteInstance id =>
      obtain ⟨d, hd, hstate⟩ := h.typed id _ ((h.locked.own _ ht _ rfl).2 _ rfl)
      exact h.typed.setInstance _ hd hstate

theorem Registering.stepped (hs : Stepped X L s call pc s' pc')
    (alone : ∀ key, (⟨call, pc⟩ : EngineThread L).looksUp = some key →
      ∀ u ∈ xs ++ ys, u.registers ≠ some key) :
    Registering X s' (xs ++ ⟨call, pc'⟩ :: ys) := by
  refine ⟨h.locked.stepped hs, ?_, ?_, h.typed_stepped hs, ?_⟩
  · refine nodup_replace h.distinct fun key hkey => ?_
    obtain ⟨hsame, -⟩ | ⟨hlook, -⟩ := hs.registers hkey
    · exact .inl hsame
    · exact .inr (alone key hlook)
  · intro u hu key hkey
    have hbefore : s.engine.definitions[key]? = none := by
      obtain rfl | hu := mem_replace hu
      · obtain ⟨hsame, -⟩ | ⟨-, habsent⟩ := hs.registers hkey
        · exact h.absent _ (by simp) key hsame
        · exact habsent
      · exact h.absent u (mem_of_others _ hu) key hkey
    obtain hsame | ⟨name, version, json, d, seq, off, rfl, hmem⟩ := hs.effect.definitions
    · rwa [hsame]
    · -- The thread that has stored is done; another that registers is about another version.
      have hown := (h.absent_of_undefined
        (t := ⟨call, .logged (.putMachine name version json d) seq off⟩) (by simp) rfl).1
      have hne : key ≠ (name, version) := by
        rintro rfl
        obtain rfl | hu := mem_replace hu
        · obtain ⟨-, hpc⟩ | ⟨hlook, -⟩ := hs.registers hkey
          · exact hpc _ _ _ rfl
          · cases call <;> cases hlook
        · exact others_of_nodup h.distinct hown u hu hkey
      rw [hmem]
      exact (Table.getElem?_insert_ne hne).trans hbefore
  · intro u hu p hp
    obtain rfl | hu := mem_replace hu
    · obtain hsame | hready := hs.pending hp
      · exact (h.plans _ (by simp) p hsame).mono (h.extends hs)
      · exact hready.valid.mono (h.extends hs)
    · exact (h.plans u (mem_of_others _ hu) p hp).mono (h.extends hs)

end

theorem Registering.spawned (h : Registering X s ts) (call : EngineCall) :
    Registering X s (ts ++ [(⟨call, .started⟩ : EngineThread L)]) := by
  have hnew : (⟨call, .started⟩ : EngineThread L).registers = none := by cases call <;> rfl
  refine ⟨h.locked.spawned call, ?_, ?_, h.typed, ?_⟩
  · rw [filterMap_spawned hnew]
    exact h.distinct
  · exact forall_spawned h.absent (by simp [hnew])
  · exact forall_spawned h.plans (by nofun)

theorem Registering.initial {e : Engine} (h : e.toMemory.Typed) :
    Registering (L := L) X ⟨e, [], []⟩ [] :=
  ⟨.start, List.nodup_nil, by simp, h, by simp⟩

variable {op : Sched EngineCall} {name : String} {version : UInt32} {json : Value} {seq : UInt64}
  {off : WalOffset}

theorem unrivalled_cases (halone : unrivalled (s, ts) op)
    (hs : engineSched X L (s, ts) op = some (s', ts')) :
    (∃ call, s' = s ∧ ts' = ts ++ [⟨call, .started⟩]) ∨
      ∃ xs call pc pc' ys, ts = xs ++ ⟨call, pc⟩ :: ys ∧ ts' = xs ++ ⟨call, pc'⟩ :: ys ∧
        Stepped X L s call pc s' pc' ∧
        ∀ key, (⟨call, pc⟩ : EngineThread L).looksUp = some key →
          ∀ u ∈ xs ++ ys, u.registers ≠ some key := by
  obtain ⟨call, -, rfl, rfl⟩ | ⟨k, xs, call, pc, pc', ys, rfl, hk, rfl, hstep, rfl⟩ :=
    engineSched_cases hs
  · exact .inl ⟨call, rfl, rfl⟩
  · refine .inr ⟨xs, call, pc, pc', ys, rfl, rfl, hstep, ?_⟩
    intro key hkey u hu
    simp only [unrivalled, hk] at halone
    exact halone key hkey u (mem_of_others _ hu)

theorem Registering.step (h : Registering X s ts) (halone : unrivalled (s, ts) op)
    (hs : engineSched X L (s, ts) op = some (s', ts')) :
    Registering X s' ts' ∧ ∀ (key : String × UInt32) d, s.engine.definitions[key]? = some d →
      s'.engine.definitions[key]? = some d := by
  obtain ⟨call, rfl, rfl⟩ | ⟨xs, call, pc, pc', ys, rfl, rfl, hstep, hfree⟩ :=
    unrivalled_cases halone hs
  · exact ⟨h.spawned call, fun _ _ hd => hd⟩
  · exact ⟨h.stepped hstep hfree, h.extends hstep⟩

/-! ## How many succeed -/

/-- At most one registration of the version has succeeded, and then it is there. -/
structure RegisteredOnce (key : String × UInt32) (s : ThreadedEngine)
    (ts : List (EngineThread L)) : Prop where
  once : ts.countP (EngineThread.hasRegistered key) ≤ 1
  present : 0 < ts.countP (EngineThread.hasRegistered key) →
    (s.engine.definitions[key]?).isSome = true

/-- A registration is reported as created when it stores its definition. -/
theorem Stepped.hasRegistered (h : Stepped X L s call pc s' pc')
    (hnew : (⟨call, pc'⟩ : EngineThread L).hasRegistered key = true) :
    ∃ p seq off, pc = .logged p seq off ∧
      (⟨call, pc⟩ : EngineThread L).registers = some key := by
  cases call with
  | createInstance | applyEvent | deleteInstance => cases hnew
  | putMachine name version json =>
    have hkey {r : Except CoreError CallResult}
        (hr : (⟨.putMachine name version json, .done r⟩ :
          EngineThread L).hasRegistered key = true) :
        (name, version) = key := by
      unfold EngineThread.hasRegistered at hr
      split at hr
      · rename_i hcall _
        cases hcall
        simpa using hr
      · cases hr
    cases h with
    | answered _ answer => cases answer <;> cases hnew
    | rejected hid => cases hid
    | missed | checked | acquired | planned | appending | refused | appended | applied =>
      cases hnew
    | created | finished => exact ⟨_, _, _, rfl, congrArg some (hkey hnew)⟩
    | cached hcall => cases hcall

theorem RegisteredOnce.stepped (h : RegisteredOnce key s (xs ++ ⟨call, pc⟩ :: ys))
    (hr : Registering X s (xs ++ ⟨call, pc⟩ :: ys)) (hs : Stepped X L s call pc s' pc') :
    RegisteredOnce key s' (xs ++ ⟨call, pc'⟩ :: ys) := by
  obtain ⟨honce, hpresent⟩ := h
  rw [List.countP_append, List.countP_cons] at honce hpresent
  cases hnew : (⟨call, pc'⟩ : EngineThread L).hasRegistered key with
  | false =>
    refine ⟨?_, fun hpos => ?_⟩
    · rw [List.countP_append, List.countP_cons, hnew]
      simp only [Bool.false_eq_true, if_false]
      omega
    · rw [List.countP_append, List.countP_cons, hnew] at hpos
      simp only [Bool.false_eq_true, if_false] at hpos
      obtain ⟨d, hd⟩ := Option.isSome_iff_exists.mp (hpresent (by omega))
      exact Option.isSome_iff_exists.mpr ⟨d, hr.extends hs key d hd⟩
  | true =>
    obtain ⟨p, seq, off, rfl, hkey⟩ := hs.hasRegistered hnew
    have hnone := hr.absent _ (by simp) key hkey
    simp only [hnone, Option.isSome_none, Bool.false_eq_true, imp_false] at hpresent
    refine ⟨?_, fun _ => ?_⟩
    · rw [List.countP_append, List.countP_cons, hnew, if_pos rfl]
      omega
    · have hcall := (hr.locked.own ⟨call, .logged p seq off⟩ (by simp) p rfl).1
      dsimp only at hcall
      subst hcall
      cases p with
      | createInstance | applyEvent | deleteInstance => cases hkey
      | putMachine =>
        cases hkey
        cases hs.effect with
        | quiet _ _ before => exact absurd rfl (before _ _ _)
        | stored _ memory =>
          rw [memory]
          exact Option.isSome_iff_exists.mpr ⟨_, Std.ExtTreeMap.getElem?_insert_self⟩

theorem RegisteredOnce.spawned (h : RegisteredOnce key s ts) (call : EngineCall) :
    RegisteredOnce key s (ts ++ [(⟨call, .started⟩ : EngineThread L)]) := by
  have hnew : (⟨call, .started⟩ : EngineThread L).hasRegistered key = false := by
    cases call <;> rfl
  have hcount : (ts ++ [(⟨call, .started⟩ : EngineThread L)]).countP
      (EngineThread.hasRegistered key) = ts.countP (EngineThread.hasRegistered key) := by
    simp [hnew]
  exact ⟨hcount ▸ h.once, hcount ▸ h.present⟩

/-! ## What the log restores -/

theorem replayEntry_definitions (X : CoreExternals) (m : Memory) (off : Nat) {entry : WalEntry}
    (h : entry.entryType ≠ .putMachine) :
    ∃ m', replayEntry X m off entry = some m' ∧ m'.definitions = m.definitions := by
  cases entry with
  | putMachine => exact absurd rfl h
  | createInstance | applyEvent | deleteInstance =>
    simp only [replayEntry]
    split
    · exact ⟨m, rfl, rfl⟩
    · exact ⟨_, rfl, rfl⟩
  | snapshot | checkpoint => exact ⟨m, rfl, rfl⟩

/-- The replay of the log has the definitions of the memory, and the one that a thread
is about to store. -/
structure ReplaysDefinitions (X : CoreExternals) (old : List ReadEntry) (s : ThreadedEngine)
    (ts : List (EngineThread L)) (m : Memory) : Prop where
  replayed : replayEntries X .empty (old ++ s.appended) = some m
  logged : ∀ t ∈ ts, ∀ key d, t.undefined = some (key, d) → m.definitions[key]? = some d
  stored : ∀ key : String × UInt32, (∀ t ∈ ts, ∀ d, t.undefined ≠ some (key, d)) →
    m.definitions[key]? = s.engine.definitions[key]?

theorem EngineThread.undefined_eq_none (h : ∀ p seq off, t.pc ≠ .logged p seq off) :
    t.undefined = none := by
  unfold undefined
  split
  · rename_i hpc
    exact absurd hpc (h _ _ _)
  · rfl

/-- A step that neither logs nor stores a definition. -/
theorem ReplaysDefinitions.kept {m' : Memory} {t' : EngineThread L}
    (h : ReplaysDefinitions X old s (xs ++ t :: ys) m)
    (replayed : replayEntries X .empty (old ++ s'.appended) = some m')
    (same : m'.definitions = m.definitions) (memory : s'.engine.definitions = s.engine.definitions)
    (before : t.undefined = none) (after : t'.undefined = none) :
    ReplaysDefinitions X old s' (xs ++ t' :: ys) m' := by
  refine ⟨replayed, ?_, ?_⟩
  · intro u hu key d hd
    obtain rfl | hu := mem_replace hu
    · simp [after] at hd
    · rw [same]
      exact h.logged u (mem_of_others _ hu) key d hd
  · intro key hnone
    rw [same, memory]
    exact h.stored key (forall_replace hnone (by simp [before]))

theorem ReplaysDefinitions.appended {l : L.State} (h : ReplaysDefinitions X old s
      (xs ++ ⟨call, .logging (.putMachine name version json d) l⟩ :: ys) m)
    (hr : Registering X s (xs ++ ⟨call, .logging (.putMachine name version json d) l⟩ :: ys))
    (records : s'.appended = s.appended ++ [(seq, off, .putMachine name version d.checksum json)])
    (memory : s'.engine.definitions = s.engine.definitions) :
    ReplaysDefinitions X old s'
      (xs ++ ⟨call, .logged (.putMachine name version json d) seq off⟩ :: ys)
      (m.setDefinition (name, version) d) := by
  have hmem : (⟨call, .logging (.putMachine name version json d) l⟩ : EngineThread L) ∈
      xs ++ ⟨call, .logging (.putMachine name version json d) l⟩ :: ys := by
    simp
  have hvalid : MachineDefinition.fromJson X name version json = some (.ok d) :=
    hr.plans _ hmem _ rfl
  have hcall := (hr.locked.own _ hmem _ rfl).1
  dsimp only at hcall
  subst hcall
  have hfree : ∀ u ∈ xs ++ ys, ∀ d', u.undefined ≠ some ((name, version), d') := by
    intro u hu d' hd'
    exact others_of_nodup hr.distinct (k := (name, version)) rfl u hu
      (hr.absent_of_undefined (mem_of_others _ hu) hd').1
  have hnone : m.definitions[(name, version)]? = none := by
    rw [h.stored]
    · exact hr.absent _ hmem (name, version) rfl
    · intro u hu d' hd'
      obtain rfl | hu := mem_replace hu
      · cases hd'
      · exact hfree u hu d' hd'
  refine ⟨?_, ?_, ?_⟩
  · rw [records, ← List.append_assoc, replayEntries_append, h.replayed]
    simp only [Option.bind_some, replayEntries, replayEntry, not_null_of_valid hvalid,
      Table.contains_eq_false hnone, Bool.false_eq_true, if_false, hvalid]
  · intro u hu key d' hd'
    obtain rfl | hu := mem_replace hu
    · cases hd'
      exact Std.ExtTreeMap.getElem?_insert_self
    · have hne : key ≠ (name, version) := by
        rintro rfl
        exact hfree u hu d' hd'
      exact (Table.getElem?_insert_ne hne).trans (h.logged u (mem_of_others _ hu) key d' hd')
  · intro key hundef
    have hne : key ≠ (name, version) := by
      rintro rfl
      exact hundef _ (List.mem_append_right _ List.mem_cons_self) d rfl
    rw [memory]
    refine (Table.getElem?_insert_ne hne).trans (h.stored key ?_)
    exact forall_replace hundef (by simp [EngineThread.undefined])

theorem ReplaysDefinitions.store (h : ReplaysDefinitions X old s
      (xs ++ ⟨call, .logged (.putMachine name version json d) seq off⟩ :: ys) m)
    (records : s'.appended = s.appended)
    (memory : s'.engine.definitions = s.engine.definitions.insert (name, version) d)
    (after : (⟨call, pc'⟩ : EngineThread L).undefined = none) :
    ReplaysDefinitions X old s' (xs ++ ⟨call, pc'⟩ :: ys) m := by
  refine ⟨records ▸ h.replayed, ?_, ?_⟩
  · exact forall_replace h.logged (by simp [after])
  · intro key hundef
    rw [memory]
    by_cases hkey : key = (name, version)
    · subst hkey
      rw [Std.ExtTreeMap.getElem?_insert_self]
      exact h.logged ⟨call, .logged (.putMachine name version json d) seq off⟩ (by simp) _ d rfl
    · rw [Table.getElem?_insert_ne hkey]
      refine h.stored key (forall_replace hundef ?_)
      intro d' hd'
      cases hd'
      exact hkey rfl

theorem ReplaysDefinitions.stepped (h : ReplaysDefinitions X old s (xs ++ ⟨call, pc⟩ :: ys) m)
    (hr : Registering X s (xs ++ ⟨call, pc⟩ :: ys)) (hs : Stepped X L s call pc s' pc') :
    ∃ m', ReplaysDefinitions X old s' (xs ++ ⟨call, pc'⟩ :: ys) m' := by
  cases hs.effect with
  | quiet appended memory before after =>
    exact ⟨m, h.kept (appended ▸ h.replayed) rfl (by rw [memory])
      (EngineThread.undefined_eq_none before) (EngineThread.undefined_eq_none after)⟩
  | @logged p l seq off appended memory =>
    by_cases hput : p.entry.entryType = .putMachine
    · cases p with
      | putMachine => exact ⟨_, h.appended hr appended (by rw [memory])⟩
      | createInstance | applyEvent | deleteInstance => cases hput
    · obtain ⟨m', hm', hsame⟩ := replayEntry_definitions X m off.asU64 hput
      have ha : (⟨call, .logged p seq off⟩ : EngineThread L).undefined = none := by
        cases p with
        | putMachine => exact absurd rfl hput
        | createInstance | applyEvent | deleteInstance => rfl
      refine ⟨m', h.kept ?_ hsame (by rw [memory]) rfl ha⟩
      rw [appended, ← List.append_assoc, replayEntries_append, h.replayed]
      simp [replayEntries, hm']
  | @stored p seq off _ appended memory after =>
    have ha := EngineThread.undefined_eq_none (t := ⟨call, pc'⟩) after
    cases p with
    | putMachine => exact ⟨m, h.store appended (by rw [memory]; rfl) ha⟩
    | createInstance | applyEvent | deleteInstance =>
      exact ⟨m, h.kept (appended ▸ h.replayed) rfl (by rw [memory]; rfl) rfl ha⟩

theorem ReplaysDefinitions.spawned (h : ReplaysDefinitions X old s ts m) (call : EngineCall) :
    ReplaysDefinitions X old s (ts ++ [(⟨call, .started⟩ : EngineThread L)]) m := by
  refine ⟨h.replayed, ?_, ?_⟩
  · exact forall_spawned h.logged (by nofun)
  · intro key hnone
    exact h.stored key fun t ht => hnone t (by simp [ht])

end

end

section
variable {X : CoreExternals} {L : LogSteps} {s s' : ThreadedEngine} {e : Engine}
  {ts ts' : List (EngineThread L)} {op : Sched EngineCall}

/-- What holds of a version along every run in which its registrations do not overlap. -/
structure Versioned (X : CoreExternals) (old : List ReadEntry) (key : String × UInt32)
    (s : ThreadedEngine) (ts : List (EngineThread L)) : Prop where
  registering : Registering X s ts
  once : RegisteredOnce key s ts
  replays : ∃ m, ReplaysDefinitions X old s ts m

variable {old : List ReadEntry} {key : String × UInt32}

theorem Versioned.initial {m : Memory} (typed : e.toMemory.Typed)
    (replayed : replayEntries X .empty old = some m) (agrees : m.Agrees e.toMemory) :
    Versioned (L := L) X old key ⟨e, [], []⟩ [] := by
  refine ⟨.initial typed, ⟨by simp, by simp⟩, m, ?_, by simp, ?_⟩
  · rwa [List.append_nil]
  · intro key _
    rw [agrees.definitions]

theorem Versioned.step (h : Versioned X old key s ts) (halone : unrivalled (s, ts) op)
    (hs : engineSched X L (s, ts) op = some (s', ts')) : Versioned X old key s' ts' := by
  obtain ⟨m, hm⟩ := h.replays
  have hreg := (h.registering.step halone hs).1
  obtain ⟨call, rfl, rfl⟩ | ⟨xs, call, pc, pc', ys, rfl, rfl, hstep, -⟩ :=
    unrivalled_cases halone hs
  · exact ⟨hreg, h.once.spawned call, m, hm.spawned call⟩
  · exact ⟨hreg, h.once.stepped h.registering hstep, hm.stepped h.registering hstep⟩

/-- A definition that is there stays there. -/
theorem Registering.run_extends {ops : List (Sched EngineCall)} (h : Registering X s ts)
    (hgood : Meets (engineSched X L) unrivalled (s, ts) ops)
    (hrun : run (engineSched X L) (s, ts) ops = some (s', ts')) {d : MachineDefinition}
    (hd : s.engine.definitions[key]? = some d) : s'.engine.definitions[key]? = some d := by
  refine (run_keeps_of_meets
    (P := fun p => Registering X p.1 p.2 ∧ p.1.engine.definitions[key]? = some d)
    ?_ ⟨h, hd⟩ hgood hrun).2
  rintro p op p' ⟨hp, hkey⟩ halone hs
  obtain ⟨hp', hextends⟩ := hp.step halone hs
  exact ⟨hp', hextends key d hkey⟩

end

/-- Calls of any kind from any number of clients, after any run of the engine: if no
registration makes its lookup while another of the same version is between its lookup
and its insert, then at most one of a version is reported as created, what is
registered stays as it is, every instance is in a state of its definition, and a
restart finds what is registered. -/
theorem version_immutable (X : CoreExternals) {config : WalConfig} {e₀ e : Engine}
    {prior : List EngineOp} (hopen : Engine.new X config ∅ = some (.ok e₀))
    (hprior : run (Engine.step X) e₀ prior = some e) {ops₁ ops₂ : List (Sched EngineCall)}
    {s : ThreadedEngine} {ts : List (EngineThread (wholeAppend X.toExternals))}
    (hgood : Meets (engineSched X (wholeAppend X.toExternals)) unrivalled (⟨e, [], []⟩, [])
      (ops₁ ++ ops₂))
    (hrun : run (engineSched X (wholeAppend X.toExternals)) (⟨e, [], []⟩, []) (ops₁ ++ ops₂) =
      some (s, ts)) (key : String × UInt32) :
    ts.countP (EngineThread.hasRegistered key) ≤ 1 ∧
    (∀ s₁ ts₁ d, run (engineSched X (wholeAppend X.toExternals)) (⟨e, [], []⟩, []) ops₁ =
      some (s₁, ts₁) → s₁.engine.definitions[key]? = some d →
      s.engine.definitions[key]? = some d) ∧
    s.engine.toMemory.Typed ∧
    ∀ config', ∃ e', Engine.new X config' s.engine.wal.dir = some (.ok e') ∧
      (∀ d, s.engine.definitions[key]? = some d → e'.definitions[key]? = some d) ∧
      ((∀ t ∈ ts, t.registers ≠ some key) →
        e'.definitions[key]? = s.engine.definitions[key]?) := by
  obtain ⟨pre, c, hrest⟩ := Engine.restorable_run hopen hprior
  obtain ⟨m₀, hm₀, hagree⟩ := hrest.replayed
  have hversioned : Versioned X (entries (pre ++ [c])) key s ts :=
    run_keeps_of_meets (P := fun p => Versioned X (entries (pre ++ [c])) key p.1 p.2)
      (fun p op p' h halone hs => h.step halone hs)
      (.initial (Engine.typed_run hopen hprior) hm₀ hagree) hgood hrun
  have hlog : LogHolds (entries (pre ++ [c])) s ts :=
    run_keeps (P := fun p => LogHolds (entries (pre ++ [c])) p.1 p.2)
      (fun p op p' h hs => h.step hs) (.initial hrest.repr hrest.clean) hrun
  refine ⟨hversioned.once.once, ?_, hversioned.registering.typed, ?_⟩
  · intro s₁ ts₁ d hrun₁ hd
    obtain ⟨hgood₁, hgood₂⟩ := hgood.append hrun₁
    obtain ⟨p, hp, hrun₂⟩ := run_append.mp hrun
    rw [hrun₁] at hp
    cases hp
    have hreg : Registering X s₁ ts₁ :=
      run_keeps_of_meets (P := fun p => Registering X p.1 p.2)
        (fun p op p' h halone hs => (h.step halone hs).1)
        (.initial (Engine.typed_run hopen hprior)) hgood₁ hrun₁
    exact hreg.run_extends hgood₂ hrun₂ hd
  · intro config'
    obtain ⟨m, hm⟩ := hversioned.replays
    obtain ⟨pre', c', hr, -, he⟩ := hlog.log
    obtain ⟨w, hnew, -⟩ := Engine.new_of_replayed hr (he ▸ hm.replayed) config'
    have hstored (hnone : s.engine.definitions[key]? = none → ∀ t ∈ ts, t.registers ≠ some key) :
        m.definitions[key]? = s.engine.definitions[key]? := by
      apply hm.stored
      intro t ht d hd
      obtain ⟨hreg, habsent⟩ := hversioned.registering.absent_of_undefined ht hd
      exact hnone habsent t ht hreg
    refine ⟨_, hnew, fun d hd => ?_, fun hidle => hstored fun _ => hidle⟩
    exact (hstored fun hnone => by simp [hd] at hnone).trans hd

/-- Another machine, with one state of another name. -/
def otherMachine : Value :=
  .object [("initial", .string "x"), ("states", .array [.string "x"]), ("transitions", .array [])]

/-- The first registration, a second that finds it, and an instance. -/
def registerInTurn : List (Sched EngineCall) :=
  [.spawn (.putMachine "m" 1 Engine.loopMachine), .step 0, .step 0, .step 0,
    .spawn (.putMachine "m" 1 otherMachine), .step 1,
    .spawn (.createInstance "i" "m" 1 .null none), .step 2, .step 2, .step 2, .step 2, .step 2]

/-- Both registrations make their lookups before either stores, and an instance is
created between the two. -/
def registerAtOnce : List (Sched EngineCall) :=
  [.spawn (.putMachine "m" 1 Engine.loopMachine), .spawn (.putMachine "m" 1 otherMachine), .step 0,
    .step 1, .step 0, .step 0, .spawn (.createInstance "i" "m" 1 .null none), .step 2, .step 2,
    .step 2, .step 2, .step 2]

set_option maxRecDepth 4000 in
theorem version_immutable_in_turn :
    ∃ q, run (engineSched serdeCore (wholeAppend serdeCore.toExternals))
        (⟨Engine.fresh ⟨100, .everyWrite⟩, [], []⟩, []) (registerInTurn ++ []) = some q ∧
      q.2.countP (EngineThread.hasRegistered firstVersion) = 1 ∧
      (q.1.engine.instances["i"]?).map Instance.state = some "a" ∧
      q.1.engine.toMemory.Typed := by
  refine run_exists (p := fun q => q.2.countP (EngineThread.hasRegistered firstVersion) = 1 ∧
    (q.1.engine.instances["i"]?).map Instance.state = some "a") (by decide +kernel) ?_
  rintro ⟨s, ts⟩ hq ⟨hcount, hstate⟩
  have hgood : Meets (engineSched serdeCore (wholeAppend serdeCore.toExternals)) unrivalled
      (⟨Engine.fresh ⟨100, .everyWrite⟩, [], []⟩, []) (registerInTurn ++ []) := by
    decide +kernel
  have hopen := Engine.new_empty serdeCore ⟨100, .everyWrite⟩
  exact ⟨hcount, hstate,
    (@version_immutable serdeCore _ _ _ [] hopen rfl _ _ _ _ hgood hq firstVersion).2.2.1⟩

set_option maxRecDepth 4000 in
theorem second_registration_replaces :
    ∃ q, run (engineSched serdeCore (wholeAppend serdeCore.toExternals))
        (⟨Engine.fresh ⟨100, .everyWrite⟩, [], []⟩, []) registerAtOnce = some q ∧
      (q.1.engine.definitions[firstVersion]?).map MachineDefinition.states = some ["a"] ∧
      ∃ q', run (engineSched serdeCore (wholeAppend serdeCore.toExternals)) q [.step 1, .step 1] =
          some q' ∧
        q'.2.countP (EngineThread.hasRegistered firstVersion) = 2 ∧
        (q'.1.engine.definitions[firstVersion]?).map MachineDefinition.states = some ["x"] ∧
        (q'.1.engine.instances["i"]?).map Instance.state = some "a" := by
  refine run_exists (p := fun q =>
    (q.1.engine.definitions[firstVersion]?).map MachineDefinition.states = some ["a"] ∧
    (run (engineSched serdeCore (wholeAppend serdeCore.toExternals)) q [.step 1, .step 1]).any
      (fun q' => decide (q'.2.countP (EngineThread.hasRegistered firstVersion) = 2 ∧
        (q'.1.engine.definitions[firstVersion]?).map MachineDefinition.states = some ["x"] ∧
        (q'.1.engine.instances["i"]?).map Instance.state = some "a")) = true) (by decide +kernel) ?_
  rintro q - ⟨hbefore, hafter⟩
  exact ⟨hbefore, run_exists hafter fun q' _ hq' => hq'⟩

end Rstmdb

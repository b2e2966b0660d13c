import Rstmdb.Lib.Hex
import Rstmdb.Core.Replay
import Rstmdb.Core.Validation

/-! Definitions that are registered again. What the engine hands out of a definition is
read back as the same definition. Whether a definition is the stored one is told by a
checksum of 32 bits, so that another one with the same checksum passes for it. -/
namespace Rstmdb
open Json (Value Fields)

/-! ## A definition written out and read back -/

theorem mapM_map_eq_some {α β : Type} {read : β → Option α} {write : α → β}
    (h : ∀ a, read (write a) = some a) (as : List α) : (as.map write).mapM read = some as := by
  induction as with
  | nil => rfl
  | cons a as ih => simp [h, ih]

theorem readStrings_map (ss : List String) :
    readStrings (.array (ss.map Value.string)) = some ss := by
  rw [readStrings]
  exact mapM_map_eq_some (fun s => by rw [Value.asStr]) ss

variable {fs : List (String × Value)} {raw : MachineDefinitionRaw} {X : CoreExternals}
  {name : String} {version : UInt32} {json : Value} {d : MachineDefinition}

theorem get?_ofList (h : (fs.map Prod.fst).Nodup) (k : String) :
    Fields.get? (Fields.ofList fs) k = Fields.get? fs k := by
  rw [Fields.ofList, Fields.get?_foldl_insert h]
  simp [Fields.get?]

theorem structFields_obj (h : (fs.map Prod.fst).Nodup) (required : List String) (last : String) :
    structFields required last (.obj fs) = structFields required last (.object fs) := by
  simp only [structFields, Value.obj, get?_ofList h]

theorem readTransition_toJson (t : Transition) : readTransition (.obj t.toJson) = some t := by
  obtain ⟨fromStates, event, target, guard⟩ := t
  have hsources : deserializeFromStates (.array (fromStates.map Value.string)) =
      some fromStates := readStrings_map fromStates
  have hnames : ((Transition.toJson ⟨fromStates, event, target, guard⟩).map Prod.fst).Nodup := by
    cases guard <;> simp [Transition.toJson, optionalField]
  cases guard with
  | none =>
    have hfields : structFields ["from", "event", "to"] "guard"
        (.object (Transition.toJson ⟨fromStates, event, target, none⟩)) =
      some ([.array (fromStates.map Value.string), .string event, .string target], .null) := rfl
    rw [readTransition, structFields_obj hnames, hfields]
    simp [hsources, Value.asStr, readOptionalString]
  | some text =>
    have hfields : structFields ["from", "event", "to"] "guard"
        (.object (Transition.toJson ⟨fromStates, event, target, some text⟩)) =
      some ([.array (fromStates.map Value.string), .string event, .string target],
        .string text) := rfl
    rw [readTransition, structFields_obj hnames, hfields]
    simp [hsources, Value.asStr, readOptionalString]

/-- The metadata that a definition is read with is no null. -/
def MachineDefinitionRaw.Read (raw : MachineDefinitionRaw) : Prop :=
  ∀ m ∈ raw.metadata, m.isNull = false

theorem MachineDefinitionRaw.read_of_fromValue {v : Value} (h : fromValue v = some raw) :
    raw.Read := by
  unfold fromValue at h
  split at h
  · rename_i metadata _
    simp only [Option.bind_eq_bind, Option.bind_eq_some_iff, pure, Option.some.injEq] at h
    obtain ⟨_, -, _, -, _, -, _, -, rfl⟩ := h
    intro m hm
    cases hnull : metadata.isNull with
    | true => simp [hnull] at hm
    | false =>
      simp only [hnull, Bool.false_eq_true, if_false, Option.mem_def, Option.some.injEq] at hm
      exact hm ▸ hnull
  · cases h

/-- The fields that a definition is written out with. -/
def MachineDefinitionRaw.jsonFields (raw : MachineDefinitionRaw) : List (String × Value) :=
  [("states", .array (raw.states.map Value.string)), ("initial", .string raw.initial),
    ("transitions", .array (raw.transitions.map fun t => .obj t.toJson))] ++
    raw.metadata.toList.map fun m => ("meta", m)

theorem MachineDefinitionRaw.fromValue_jsonFields (h : raw.Read) :
    fromValue (.obj raw.jsonFields) = some raw := by
  obtain ⟨states, initial, transitions, metadata⟩ := raw
  have hnames : ((jsonFields ⟨states, initial, transitions, metadata⟩).map Prod.fst).Nodup := by
    cases metadata <;> simp [jsonFields]
  have hfields : structFields ["states", "initial", "transitions"] "meta"
      (.object (jsonFields ⟨states, initial, transitions, metadata⟩)) =
      some ([.array (states.map Value.string), .string initial,
        .array (transitions.map fun t => .obj t.toJson)], metadata.getD .null) := by
    cases metadata <;> rfl
  have htransitions : (transitions.map fun t => Value.obj t.toJson).mapM readTransition =
      some transitions := mapM_map_eq_some readTransition_toJson _
  rw [fromValue, structFields_obj hnames, hfields]
  cases metadata with
  | none => simp [Value.asArray, Value.asStr, readStrings_map, htransitions, Value.isNull]
  | some m =>
    have hnull : m.isNull = false := h m rfl
    simp [Value.asArray, Value.asStr, readStrings_map, htransitions, hnull]

/-- What a definition is written out as is accepted, and is that definition. -/
theorem MachineDefinition.fromJson_toJson (h : fromJson X name version json = some (.ok d)) :
    fromJson X name version d.toJson = some (.ok d) := by
  unfold fromJson at h ⊢
  split at h
  · cases h
  rename_i raw hraw
  have hd : d.raw = raw := by
    obtain ⟨-, -, -, rfl⟩ := fromRaw_ok_iff.mp h
    rfl
  have hback : MachineDefinitionRaw.fromValue d.toJson = some raw := by
    rw [← hd]
    exact MachineDefinitionRaw.fromValue_jsonFields
      (hd ▸ MachineDefinitionRaw.read_of_fromValue hraw)
  simp only [hback, h]

/-! ## Registered again -/

theorem MachineDefinition.checksum_of_fromJson (h : fromJson X name version json = some (.ok d)) :
    d.checksum = hex8 (X.crc32c (X.rawToVec d.raw)) := by
  unfold fromJson at h
  split at h
  · cases h
  · obtain ⟨-, -, -, rfl⟩ := fromRaw_ok_iff.mp h
    rfl

namespace Engine

section
variable {X : CoreExternals} {s s' : Engine} {name : String} {version : UInt32} {json : Value}
  {d stored : MachineDefinition}

theorem putMachine_present (hstored : s.definitions[(name, version)]? = some stored)
    (hvalid : MachineDefinition.fromJson X name version json = some (.ok d)) :
    s.putMachine X name version json = some (s,
      if stored.checksum = d.checksum then .ok (stored.checksum, false)
      else .error (.machineVersionExists name version)) := by
  simp only [putMachine, hstored, hvalid]
  split <;> rfl

theorem putMachine_ok {r : String × Bool} (h : s.putMachine X name version json = some (s', .ok r))
    (hvalid : MachineDefinition.fromJson X name version json = some (.ok d)) :
    ∃ stored, s'.definitions[(name, version)]? = some stored ∧ stored.checksum = d.checksum := by
  cases hstored : s.definitions[(name, version)]? with
  | some stored =>
    rw [putMachine_present hstored hvalid] at h
    split at h
    · rename_i hsum
      cases h
      exact ⟨stored, hstored, hsum⟩
    · cases h
  | none =>
    simp only [putMachine, hstored, hvalid] at h
    split at h
    · cases h
    · cases h
    · cases h
      exact ⟨d, by simp, rfl⟩

end

/-- A definition that is accepted is written out so that it reads back as the same
definition. Registering it again in that form succeeds and creates nothing. -/
theorem definition_put_back (X : CoreExternals) {name : String} {version : UInt32} {json : Value}
    {d : MachineDefinition}
    (hvalid : MachineDefinition.fromJson X name version json = some (.ok d)) :
    MachineDefinition.fromJson X name version d.toJson = some (.ok d) ∧
      ∀ (s s' : Engine) (r : String × Bool),
        s.putMachine X name version json = some (s', .ok r) →
          s'.putMachine X name version d.toJson = some (s', .ok (d.checksum, false)) := by
  have hback := MachineDefinition.fromJson_toJson hvalid
  refine ⟨hback, ?_⟩
  intro s s' r hput
  obtain ⟨stored, hstored, hsum⟩ := putMachine_ok hput hvalid
  rw [putMachine_present hstored hback, if_pos hsum, hsum]

set_option maxRecDepth 4000 in
/-- A machine that lists its one transition as an array. -/
theorem definition_put_back_loop :
    ∃ d s r, MachineDefinition.fromJson serdeCore "m" 1 loopMachine = some (.ok d) ∧
      d.toJson.isNull = false ∧
      (fresh ⟨100, .everyWrite⟩).putMachine serdeCore "m" 1 loopMachine = some (s, .ok r) ∧
      s.putMachine serdeCore "m" 1 d.toJson = some (s, .ok (d.checksum, false)) := by
  obtain ⟨d, hvalid⟩ : ∃ d, MachineDefinition.fromJson serdeCore "m" 1 loopMachine =
      some (.ok d) := ⟨_, rfl⟩
  have hput : ((fresh ⟨100, .everyWrite⟩).putMachine serdeCore "m" 1 loopMachine).any
      (fun p => match p.2 with | .ok _ => true | .error _ => false) = true := by decide +kernel
  obtain ⟨⟨s, res⟩, hs, hok⟩ := (Option.any_eq_true _ _).mp hput
  cases res with
  | error e => cases hok
  | ok r =>
    obtain ⟨-, hagain⟩ := definition_put_back serdeCore hvalid
    exact ⟨d, s, r, hvalid, rfl, hs, hagain _ s r hs⟩

end Engine

/-! ## Told apart by the checksum -/

theorem hex8_injective : Function.Injective hex8 := by
  intro n m h
  have htext : Hex.text 8 n.toNat = Hex.text 8 m.toNat := String.ofList_injective h
  have hvalue : some n.toNat = some m.toNat := by
    rw [← Hex.value_text (w := 7) n.toNat_lt, htext, Hex.value_text (w := 7) m.toNat_lt]
  exact UInt32.toNat_inj.mp (Option.some.inj hvalue)

/-- Every definition in the memory was accepted. -/
def Memory.Built (X : CoreExternals) (m : Memory) : Prop :=
  ∀ (name : String) (version : UInt32) d, m.definitions[(name, version)]? = some d →
    ∃ json, MachineDefinition.fromJson X name version json = some (.ok d)

namespace Engine

theorem built_run {X : CoreExternals} {config : WalConfig} {s₀ s : Engine} {ops : List EngineOp}
    (hopen : new X config ∅ = some (.ok s₀)) (hrun : run (step X) s₀ ops = some s) :
    s.toMemory.Built X := by
  apply memory_run _ _ _ hopen hrun
  · intro name version d hd
    simp [Memory.empty] at hd
  · intro m m' offset entry hm hc name version d hd
    cases hc with
    | @putMachine name' version' json d' absent valid =>
      obtain ⟨⟨⟩, rfl⟩ | ⟨-, hd⟩ := Table.found_insert hd
      · exact ⟨json, valid⟩
      · exact hm name version d hd
    | createInstance | applyEvent | deleteInstance => exact hm name version d hd
  · intro m n hn hagree name version d hd
    exact hn name version d (hagree.definitions ▸ hd)

/-- Where a version is registered, another definition is told from it exactly when the
checksums of the two differ: the call then fails, and otherwise it answers that the
stored definition was the same. -/
theorem reregistration_iff (X : CoreExternals) {s : Engine} (hbuilt : s.toMemory.Built X)
    {name : String} {version : UInt32} {stored : MachineDefinition}
    (hstored : s.definitions[(name, version)]? = some stored) {json : Value}
    {d : MachineDefinition}
    (hvalid : MachineDefinition.fromJson X name version json = some (.ok d)) :
    ((∃ sum, s.putMachine X name version json = some (s, .ok (sum, false)) ∧
          d.raw = stored.raw) ∨
        s.putMachine X name version json = some (s, .error (.machineVersionExists name version))) ↔
      (X.crc32c (X.rawToVec d.raw) = X.crc32c (X.rawToVec stored.raw) → d.raw = stored.raw) := by
  obtain ⟨json₀, hvalid₀⟩ := hbuilt name version stored hstored
  have hsums : stored.checksum = d.checksum ↔
      X.crc32c (X.rawToVec d.raw) = X.crc32c (X.rawToVec stored.raw) := by
    rw [MachineDefinition.checksum_of_fromJson hvalid,
      MachineDefinition.checksum_of_fromJson hvalid₀, hex8_injective.eq_iff, eq_comm]
  rw [putMachine_present hstored hvalid, ← hsums]
  by_cases hsum : stored.checksum = d.checksum
  · simp [hsum]
  · simp [hsum]

/-- A machine with a second state of this name. -/
def twoStates (second : String) : Value :=
  .object [("initial", .string "a"), ("states", .array [.string "a", .string second]),
    ("transitions", .array [])]

theorem reregistration_refused :
    ∃ s, run (step serdeCore) (fresh ⟨1000, .everyWrite⟩)
        [.putMachine "m" 1 (twoStates "b")] = some s ∧
      s.putMachine serdeCore "m" 1 (twoStates "c") =
        some (s, .error (.machineVersionExists "m" 1)) := by
  obtain ⟨s, hrun, stored, hstored, hraw, hsum⟩ := @run_finds _ _ (step serdeCore)
    (fresh ⟨1000, .everyWrite⟩) [.putMachine "m" 1 (twoStates "b")]
    _ (fun s => s.definitions[("m", (1 : UInt32))]?)
    (fun _ d => d.raw.states = ["a", "b"] ∧
      serdeCore.crc32c (serdeCore.rawToVec d.raw) ≠
        serdeCore.crc32c (serdeCore.rawToVec ⟨["a", "c"], "a", [], none⟩))
    _ (by decide +kernel)
  obtain ⟨d, hvalid, hd⟩ : ∃ d, MachineDefinition.fromJson serdeCore "m" 1 (twoStates "c") =
      some (.ok d) ∧ d.raw = ⟨["a", "c"], "a", [], none⟩ := ⟨_, rfl, rfl⟩
  refine ⟨s, hrun, ?_⟩
  obtain ⟨sum, -, hsame⟩ | hrefused := (reregistration_iff serdeCore
    (built_run (new_empty serdeCore _) hrun) hstored hvalid).mpr (by simp [hd, hsum.symm])
  · simp [← hsame, hd] at hraw
  · exact hrefused

/-- Two machines whose second states have different names, and the same checksum: the
second is taken for the first. -/
theorem collision_taken_for_stored :
    ∃ s d stored sum, run (step serdeCore) (fresh ⟨1000, .everyWrite⟩)
        [.putMachine "m" 1 (twoStates "wcjifoae")] = some s ∧
      s.definitions[("m", (1 : UInt32))]? = some stored ∧
      MachineDefinition.fromJson serdeCore "m" 1 (twoStates "ccaoacux") = some (.ok d) ∧
      s.putMachine serdeCore "m" 1 (twoStates "ccaoacux") = some (s, .ok (sum, false)) ∧
      d.raw ≠ stored.raw := by
  obtain ⟨s, hrun, stored, hstored, hraw, hsum⟩ := @run_finds _ _ (step serdeCore)
    (fresh ⟨1000, .everyWrite⟩) [.putMachine "m" 1 (twoStates "wcjifoae")]
    _ (fun s => s.definitions[("m", (1 : UInt32))]?)
    (fun _ d => d.raw.states = ["a", "wcjifoae"] ∧ d.checksum = "38170ac4")
    _ (by decide +kernel)
  obtain ⟨d, hvalid, hd⟩ : ∃ d, MachineDefinition.fromJson serdeCore "m" 1
      (twoStates "ccaoacux") = some (.ok d) ∧ d.raw = ⟨["a", "ccaoacux"], "a", [], none⟩ :=
    ⟨_, rfl, rfl⟩
  have hcrc : hex8 (serdeCore.crc32c (serdeCore.rawToVec ⟨["a", "ccaoacux"], "a", [], none⟩)) =
      "38170ac4" := by decide +kernel
  have hsame : stored.checksum = d.checksum := by
    rw [hsum, MachineDefinition.checksum_of_fromJson hvalid, hd, hcrc]
  refine ⟨s, d, stored, stored.checksum, hrun, hstored, hvalid, ?_, ?_⟩
  · rw [putMachine_present hstored hvalid, if_pos hsame]
  · intro heq
    simp [← heq, hd] at hraw

end Engine

end Rstmdb

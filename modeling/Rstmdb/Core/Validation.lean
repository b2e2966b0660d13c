import Rstmdb.Core.Definition

/-! What a definition has to meet to be accepted, and what the index of its
transitions then holds: one entry for each source of each transition, under the source
and the event. -/
namespace Rstmdb
open Json (Value Number F64)

/-- An entry of the index: the source and the event, the target and the guard. -/
abbrev IndexEntry := (String × String) × (String × Option GuardExpr)

/-- The guard of a transition whose text parses. -/
def Transition.parsed (std : StdText) (t : Transition) : Option GuardExpr :=
  match parseGuard std t.guard with
  | some (.ok guard) => guard
  | _ => none

/-- What a transition puts in the index. -/
def Transition.entries (std : StdText) (t : Transition) : List IndexEntry :=
  t.fromStates.map fun src => ((src, t.event), (t.target, t.parsed std))

/-- The pairs of a source and an event, as often as they are written. -/
def MachineDefinitionRaw.pairs (raw : MachineDefinitionRaw) : List (String × String) :=
  raw.transitions.flatMap fun t => t.fromStates.map fun src => (src, t.event)

/-- The guard is absent or its text parses. -/
def Transition.GuardParses (std : StdText) (t : Transition) : Prop :=
  ∀ text ∈ t.guard, ∃ guard, GuardExpr.parse std text = some (.ok guard)

/-- Only listed states are named, every guard parses, and no source has two transitions
for an event. -/
structure MachineDefinitionRaw.WellFormed (std : StdText) (raw : MachineDefinitionRaw) : Prop where
  initial : raw.initial ∈ raw.states
  targets : ∀ t ∈ raw.transitions, t.target ∈ raw.states
  sources : ∀ t ∈ raw.transitions, ∀ src ∈ t.fromStates, src ∈ raw.states
  guards : ∀ t ∈ raw.transitions, t.GuardParses std
  pairs : raw.pairs.Nodup

variable {std : StdText} {t : Transition} {guard : Option GuardExpr} {states : List String}
  {e : CoreError}

theorem Transition.mem_entries {s e target : String} :
    ((s, e), (target, guard)) ∈ t.entries std ↔
      (t.event = e ∧ s ∈ t.fromStates) ∧ t.target = target ∧ t.parsed std = guard := by
  simp only [entries, List.mem_map, Prod.mk.injEq]
  constructor
  · rintro ⟨src, hsrc, ⟨rfl, rfl⟩, rfl, rfl⟩
    exact ⟨⟨rfl, hsrc⟩, rfl, rfl⟩
  · rintro ⟨⟨rfl, hsrc⟩, rfl, rfl⟩
    exact ⟨s, hsrc, ⟨rfl, rfl⟩, rfl, rfl⟩

/-- A guard that parses is the one that the index keeps. -/
theorem Transition.GuardParses.parseGuard (h : t.GuardParses std) :
    parseGuard std t.guard = some (.ok (t.parsed std)) := by
  cases hg : t.guard with
  | none => simp [parsed, Rstmdb.parseGuard, hg]
  | some text =>
    obtain ⟨guard, hguard⟩ := h text hg
    simp [parsed, Rstmdb.parseGuard, hg, hguard]

theorem guardParses_of_parseGuard (h : parseGuard std t.guard = some (.ok guard)) :
    t.GuardParses std := by
  intro text htext
  rw [Option.mem_def.mp htext] at h
  simp only [parseGuard] at h
  split at h
  · cases h
  · cases h
  · rename_i guard hguard
    exact ⟨guard, hguard⟩

/-! ## The index while it is built -/

/-- The index holds these entries, each under a key of its own. -/
structure Transitions.Holds {states : List String} (ts : Transitions states)
    (es : List IndexEntry) : Prop where
  keys : (es.map Prod.fst).Nodup
  mem : ∀ key value, ts.table[key]? = some value ↔ (key, value) ∈ es

namespace Transitions.Holds

variable {states : List String} {ts ts' : Transitions states} {es : List IndexEntry}

theorem empty : (Transitions.empty : Transitions states).Holds [] := by
  constructor
  · exact List.nodup_nil
  · simp [Transitions.empty]

theorem contains_iff (h : ts.Holds es) {key : String × String} :
    ts.table.contains key = true ↔ key ∈ es.map Prod.fst := by
  rw [Std.ExtTreeMap.contains_eq_isSome_getElem?, Option.isSome_iff_exists, List.mem_map]
  constructor
  · rintro ⟨value, hvalue⟩
    exact ⟨(key, value), (h.mem key value).mp hvalue, rfl⟩
  · rintro ⟨⟨k, value⟩, hmem, rfl⟩
    exact ⟨value, (h.mem k value).mpr hmem⟩

theorem insert (h : ts.Holds es) {key : String × String} (hkey : key.1 ∈ states) {target : String}
    (hto : target ∈ states) (guard : Option GuardExpr) (hnew : key ∉ es.map Prod.fst) :
    (ts.insert key hkey target hto guard).Holds (es ++ [(key, (target, guard))]) := by
  constructor
  · rw [List.map_append, List.nodup_append]
    refine ⟨h.keys, List.nodup_singleton _, ?_⟩
    rintro a ha b hb rfl
    rw [List.map_singleton, List.mem_singleton] at hb
    subst hb
    exact hnew ha
  · intro k value
    rw [List.mem_append, List.mem_singleton, Prod.mk.injEq]
    by_cases hk : k = key
    · subst hk
      have habsent : (k, value) ∉ es := fun hmem => hnew (List.mem_map_of_mem hmem)
      simp [Transitions.insert, habsent, eq_comm]
    · simp only [Transitions.insert, Table.getElem?_insert_ne hk, h.mem, hk, false_and, or_false]

variable {t : Transition} {std : StdText}

/-- The sources of a transition are entered exactly when they are listed and none of
the pairs is there already. -/
theorem addSources_iff {hto : t.target ∈ states} {guard : Option GuardExpr} (h : ts.Holds es)
    (srcs : List String) :
    (∃ ts', addSources t hto guard srcs ts = .ok ts') ↔
      (∀ src ∈ srcs, src ∈ states) ∧
        (es.map Prod.fst ++ srcs.map fun src => (src, t.event)).Nodup := by
  induction srcs generalizing ts es with
  | nil => simp [addSources, h.keys]
  | cons src more ih =>
    rw [addSources]
    by_cases hsrc : src ∈ states
    · rw [dif_pos hsrc]
      by_cases hold : (src, t.event) ∈ es.map Prod.fst
      · rw [if_pos (h.contains_iff.mpr hold)]
        simp only [reduceCtorEq, exists_false, false_iff, not_and]
        intro _ hnodup
        exact (List.nodup_append.mp hnodup).2.2 _ hold _ (by simp) rfl
      · rw [if_neg fun hc => hold (h.contains_iff.mp hc), ih (h.insert hsrc hto guard hold)]
        simp [hsrc]
    · rw [dif_neg hsrc]
      simp [hsrc]

theorem addSources {hto : t.target ∈ states} {guard : Option GuardExpr} (h : ts.Holds es)
    {srcs : List String} (hadd : addSources t hto guard srcs ts = .ok ts') :
    ts'.Holds (es ++ srcs.map fun src => ((src, t.event), (t.target, guard))) := by
  induction srcs generalizing ts es with
  | nil =>
    cases hadd
    simpa using h
  | cons src more ih =>
    rw [Rstmdb.addSources] at hadd
    split at hadd
    · rename_i hsrc
      split at hadd
      · cases hadd
      · rename_i hold
        have hnew := h.insert hsrc hto guard fun hk => hold (h.contains_iff.mpr hk)
        simpa using ih hnew hadd
    · cases hadd

theorem addTransitions_cons_iff {more : List Transition} :
    addTransitions std (t :: more) ts = some (.ok ts') ↔
      ∃ hto : t.target ∈ states, t.GuardParses std ∧
        ∃ ts₁, Rstmdb.addSources t hto (t.parsed std) t.fromStates ts = .ok ts₁ ∧
          addTransitions std more ts₁ = some (.ok ts') := by
  rw [addTransitions]
  by_cases hto : t.target ∈ states
  · rw [dif_pos hto]
    by_cases hguard : t.GuardParses std
    · simp only [hguard.parseGuard]
      cases hsrcs : Rstmdb.addSources t hto (t.parsed std) t.fromStates ts with
      | ok | error => simp [hto, hguard, hsrcs]
    · have hnot : ∀ guard, parseGuard std t.guard ≠ some (.ok guard) :=
        fun guard hg => hguard (guardParses_of_parseGuard hg)
      simp only [hguard, false_and, exists_false, iff_false]
      split
      · simp
      · simp
      · rename_i guard hg
        exact absurd hg (hnot guard)
  · simp [hto]

/-- The transitions are entered exactly when each names listed states and has a guard
that parses, and no pair is there twice. -/
theorem addTransitions_iff (h : ts.Holds es) (l : List Transition) :
    (∃ ts', addTransitions std l ts = some (.ok ts')) ↔
      (∀ t ∈ l, t.target ∈ states ∧ (∀ src ∈ t.fromStates, src ∈ states) ∧ t.GuardParses std) ∧
        (es.map Prod.fst ++
          l.flatMap fun t => t.fromStates.map fun src => (src, t.event)).Nodup := by
  induction l generalizing ts es with
  | nil => simp [addTransitions, h.keys]
  | cons t more ih =>
    rw [List.flatMap_cons, ← List.append_assoc, List.forall_mem_cons]
    simp only [addTransitions_cons_iff]
    constructor
    · rintro ⟨ts', hto, hguard, ts₁, hadd, hmore⟩
      obtain ⟨hsrcs, -⟩ := (h.addSources_iff t.fromStates).mp ⟨ts₁, hadd⟩
      obtain ⟨hall, hnodup⟩ := (ih (h.addSources hadd)).mp ⟨ts', hmore⟩
      refine ⟨⟨⟨hto, hsrcs, hguard⟩, hall⟩, ?_⟩
      simpa [Function.comp_def] using hnodup
    · rintro ⟨⟨⟨hto, hsrcs, hguard⟩, hall⟩, hnodup⟩
      obtain ⟨ts₁, hadd⟩ := (h.addSources_iff t.fromStates).mpr
        ⟨hsrcs, (List.nodup_append.mp hnodup).1⟩
      obtain ⟨ts', hmore⟩ := (ih (h.addSources hadd)).mpr
        ⟨hall, by simpa [Function.comp_def] using hnodup⟩
      exact ⟨ts', hto, hguard, ts₁, hadd, hmore⟩

theorem addTransitions (h : ts.Holds es) {l : List Transition}
    (hadd : addTransitions std l ts = some (.ok ts')) :
    ts'.Holds (es ++ l.flatMap (·.entries std)) := by
  induction l generalizing ts es with
  | nil =>
    cases hadd
    simpa using h
  | cons t more ih =>
    obtain ⟨hto, -, ts₁, hsrcs, hmore⟩ := addTransitions_cons_iff.mp hadd
    rw [List.flatMap_cons, ← List.append_assoc]
    exact ih (h.addSources hsrcs) hmore

end Transitions.Holds

/-- Where no guard makes the parser panic, the transitions are accepted or refused. -/
theorem addTransitions_returns (l : List Transition)
    (h : ∀ t ∈ l, ∀ text ∈ t.guard, GuardExpr.parse std text ≠ none) (ts : Transitions states) :
    ∃ r, addTransitions std l ts = some r := by
  induction l generalizing ts with
  | nil => exact ⟨_, rfl⟩
  | cons t more ih =>
    obtain ⟨ht, hmore⟩ := List.forall_mem_cons.mp h
    rw [addTransitions]
    split
    · rename_i hto
      cases hg : parseGuard std t.guard with
      | none =>
        simp only [parseGuard] at hg
        split at hg
        · cases hg
        rename_i text htext
        split at hg
        · exact absurd ‹_› (ht text htext)
        · cases hg
        · cases hg
      | some r =>
        cases r with
        | error e => exact ⟨_, rfl⟩
        | ok guard =>
          simp only
          split
          · exact ⟨_, rfl⟩
          · exact ih hmore _
    · exact ⟨_, rfl⟩

namespace MachineDefinition

variable {X : CoreExternals} {name : String} {version : UInt32} {raw : MachineDefinitionRaw}
  {d : MachineDefinition}

theorem fromRaw_ok_iff :
    fromRaw X name version raw = some (.ok d) ↔
      ∃ (hinit : raw.initial ∈ raw.states) (ts : Transitions raw.states),
        addTransitions X.toStdText raw.transitions .empty = some (.ok ts) ∧
        d = ⟨name, version, raw.states, raw.initial, hinit, ts, raw,
          hex8 (X.crc32c (X.rawToVec raw))⟩ := by
  unfold fromRaw
  by_cases hinit : raw.initial ∈ raw.states
  · rw [dif_pos hinit]
    cases addTransitions X.toStdText raw.transitions (.empty : Transitions raw.states) with
    | none => simp
    | some r => cases r <;> simp [hinit, eq_comm]
  · simp [hinit]

/-- A definition is accepted exactly when it is well formed. -/
theorem fromRaw_accepts_iff :
    (∃ d, fromRaw X name version raw = some (.ok d)) ↔ raw.WellFormed X.toStdText := by
  have hadd := @Transitions.Holds.addTransitions_iff raw.states _ _ X.toStdText .empty
    raw.transitions
  simp only [fromRaw_ok_iff]
  constructor
  · rintro ⟨d, hinit, ts, hts, -⟩
    obtain ⟨hall, hnodup⟩ := hadd.mp ⟨ts, hts⟩
    exact ⟨hinit, fun t ht => (hall t ht).1, fun t ht => (hall t ht).2.1,
      fun t ht => (hall t ht).2.2, hnodup⟩
  · intro h
    obtain ⟨ts, hts⟩ := hadd.mpr
      ⟨fun t ht => ⟨h.targets t ht, h.sources t ht, h.guards t ht⟩, h.pairs⟩
    exact ⟨_, h.initial, ts, hts, rfl⟩

theorem getTransition_eq_some_iff (h : fromRaw X name version raw = some (.ok d))
    {s e target : String} {guard : Option GuardExpr} :
    d.getTransition s e = some (target, guard) ↔
      ∃ t ∈ raw.transitions, (t.event = e ∧ s ∈ t.fromStates) ∧ t.target = target ∧
        t.parsed X.toStdText = guard := by
  obtain ⟨hinit, ts, hts, rfl⟩ := fromRaw_ok_iff.mp h
  have hholds := Transitions.Holds.empty.addTransitions hts
  rw [getTransition, hholds.mem]
  simp [Transition.mem_entries]

end MachineDefinition

theorem eq_of_nodup_flatMap {α β : Type} {f : α → List β} {l : List α}
    (h : (l.flatMap f).Nodup) {a b : α} (ha : a ∈ l) (hb : b ∈ l) {x : β} (hxa : x ∈ f a)
    (hxb : x ∈ f b) : a = b := by
  obtain ⟨-, hdisjoint⟩ := List.nodup_flatMap.mp h
  by_contra hne
  have : Std.Symm (Function.onFun List.Disjoint f) := ⟨fun _ _ hd => hd.symm⟩
  exact hdisjoint.forall ha hb hne hxa hxb

/-- Where no guard makes the parser panic, a definition is accepted exactly when it is
well formed. A source and an event then find the target and the guard of the only
transition that is written for them, and nothing where there is none. -/
theorem from_raw_exact (X : CoreExternals) (name : String) (version : UInt32)
    (raw : MachineDefinitionRaw)
    (hguards : ∀ t ∈ raw.transitions, ∀ text ∈ t.guard,
      GuardExpr.parse X.toStdText text ≠ none) :
    ∃ r, MachineDefinition.fromRaw X name version raw = some r ∧
      ((∃ d, r = .ok d) ↔ raw.WellFormed X.toStdText) ∧
      ∀ d, r = .ok d → ∀ s e : String,
        (∀ target guard, d.getTransition s e = some (target, guard) ↔
          ∃ t ∈ raw.transitions, (t.event = e ∧ s ∈ t.fromStates) ∧
            (∀ t' ∈ raw.transitions, t'.event = e ∧ s ∈ t'.fromStates → t' = t) ∧
            t.target = target ∧ parseGuard X.toStdText t.guard = some (.ok guard)) ∧
        (d.getTransition s e = none ↔
          ∀ t ∈ raw.transitions, ¬(t.event = e ∧ s ∈ t.fromStates)) := by
  obtain ⟨r, hr⟩ : ∃ r, MachineDefinition.fromRaw X name version raw = some r := by
    unfold MachineDefinition.fromRaw
    split
    · obtain ⟨r, hr⟩ := addTransitions_returns raw.transitions hguards
        (Transitions.empty : Transitions raw.states)
      rw [hr]
      cases r <;> exact ⟨_, rfl⟩
    · exact ⟨_, rfl⟩
  have hok := @MachineDefinition.fromRaw_accepts_iff X name version raw
  refine ⟨r, hr, ?_, ?_⟩
  · rw [← hok, hr]
    simp
  · rintro d rfl s e
    have hwell := hok.mp ⟨d, hr⟩
    have only {t t' : Transition} (ht : t ∈ raw.transitions) (ht' : t' ∈ raw.transitions)
        (h : t.event = e ∧ s ∈ t.fromStates) (h' : t'.event = e ∧ s ∈ t'.fromStates) : t = t' :=
      eq_of_nodup_flatMap hwell.pairs ht ht'
        (List.mem_map.mpr ⟨s, h.2, by rw [h.1]⟩) (List.mem_map.mpr ⟨s, h'.2, by rw [h'.1]⟩)
    constructor
    · intro target guard
      rw [MachineDefinition.getTransition_eq_some_iff hr]
      constructor
      · rintro ⟨t, ht, hpair, rfl, rfl⟩
        exact ⟨t, ht, hpair, fun t' ht' hpair' => only ht' ht hpair' hpair, rfl,
          (hwell.guards t ht).parseGuard⟩
      · rintro ⟨t, ht, hpair, -, htarget, hguard⟩
        refine ⟨t, ht, hpair, htarget, ?_⟩
        rw [(hwell.guards t ht).parseGuard] at hguard
        simpa using hguard
    · rw [Option.eq_none_iff_forall_ne_some, Prod.forall]
      simp only [ne_eq, MachineDefinition.getTransition_eq_some_iff hr]
      constructor
      · intro hnone t ht hpair
        exact hnone t.target (t.parsed X.toStdText) ⟨t, ht, hpair, rfl, rfl⟩
      · rintro hnone target guard ⟨t, ht, hpair, -, -⟩
        exact hnone t ht hpair

/-- Two sources of a refund, and a guard. -/
def refundable : MachineDefinitionRaw where
  states := ["paid", "shipped", "refunded"]
  initial := "paid"
  transitions := [⟨["paid"], "SHIP", "shipped", none⟩,
    ⟨["paid", "shipped"], "REFUND", "refunded", some "ctx.ok"⟩]
  metadata := none

theorem from_raw_exact_refundable :
    ∃ d, MachineDefinition.fromRaw serdeCore "order" 1 refundable = some (.ok d) ∧
      d.getTransition "shipped" "REFUND" = some ("refunded", some (.truthy "ok")) ∧
      d.getTransition "refunded" "REFUND" = none := by
  have hparse : GuardExpr.parse serdeCore.toStdText "ctx.ok" = some (.ok (.truthy "ok")) := rfl
  obtain ⟨r, hr, hok, hindex⟩ := from_raw_exact serdeCore "order" 1 refundable
    (by simp [refundable, hparse])
  obtain ⟨d, rfl⟩ := hok.mpr
    ⟨by decide, by decide, by decide, by simp [refundable, Transition.GuardParses, hparse],
      by decide⟩
  obtain ⟨hsome, -⟩ := hindex d rfl "shipped" "REFUND"
  obtain ⟨-, hnone⟩ := hindex d rfl "refunded" "REFUND"
  refine ⟨d, hr, (hsome _ _).mpr ?_, hnone.mpr (by decide)⟩
  exact ⟨_, List.mem_cons_of_mem _ List.mem_cons_self, by decide, by decide, rfl, rfl⟩

/-! ## Why a definition is rejected -/

namespace Parser

/-- The step fails only with an error that names the guard. -/
def BlamesGuard {α : Type} (p : Parse α) : Prop :=
  ∀ pos e, p pos = some (.error e) → ∃ reason, e = .invalidGuard reason

namespace BlamesGuard

variable {α β : Type} {std : StdText} {input : List Char}

theorem bind {p : Parse α} {f : α → Parse β} (hp : BlamesGuard p) (hf : ∀ a, BlamesGuard (f a)) :
    BlamesGuard (p >>= f) := by
  intro pos e h
  change StateT.bind p f pos = some (.error e) at h
  simp only [StateT.bind, Bind.bind, ExceptT.bind, ExceptT.mk, Option.bind] at h
  cases hq : p pos with
  | none => simp [hq] at h
  | some out =>
    cases out with
    | error e' =>
      simp only [hq, ExceptT.bindCont] at h
      cases h
      exact hp pos e hq
    | ok q =>
      simp only [hq, ExceptT.bindCont] at h
      exact hf q.1 q.2 e h

theorem ok (a : α) : BlamesGuard (pure a : Parse α) := by
  rintro pos e ⟨⟩

theorem current : BlamesGuard (get : Parse Nat) := by
  rintro pos e ⟨⟩

theorem advance (n : Nat) : BlamesGuard (advance n) := by
  rintro pos e ⟨⟩

theorem panicked : BlamesGuard (panicked : Parse α) := by
  rintro pos e ⟨⟩

theorem sliced (a : Option α) : BlamesGuard (sliced a) := by
  cases a with
  | none => exact panicked
  | some a => exact ok a

theorem invalidGuard (reason : String) : BlamesGuard (invalidGuard reason : Parse α) := by
  rintro pos e ⟨⟩
  exact ⟨reason, rfl⟩

theorem ite {c : Prop} [Decidable c] {p q : Parse α} (hp : BlamesGuard p) (hq : BlamesGuard q) :
    BlamesGuard (if c then p else q) := by
  split
  · exact hp
  · exact hq

theorem rest : BlamesGuard (rest input) := current.bind fun _ => sliced _

theorem peekChar : BlamesGuard (peekChar input) := rest.bind fun _ => ok _

theorem peekStr (s : String) : BlamesGuard (peekStr input s) := rest.bind fun _ => ok _

theorem sliceFrom (start : Nat) : BlamesGuard (sliceFrom input start) :=
  current.bind fun _ => panicked.ite ((sliced _).bind fun _ => sliced _)

theorem advanceWhile (p : Char → Bool) (fuel : Nat) : BlamesGuard (advanceWhile input p fuel) := by
  induction fuel with
  | zero => exact panicked
  | succ fuel ih =>
    refine peekChar.bind fun c => ?_
    cases c with
    | none => exact ok _
    | some c => exact ((advance 1).bind fun _ => ih).ite (ok _)

theorem skipWhitespace : BlamesGuard (skipWhitespace input) := advanceWhile _ _

theorem parseField : BlamesGuard (parseField std input) := by
  refine current.bind fun start => (peekStr _).bind fun found => (invalidGuard _).ite ?_
  refine (advance 4).bind fun _ => (advanceWhile _ _).bind fun _ =>
    (sliceFrom _).bind fun field => ?_
  exact (invalidGuard _).ite (ok _)

theorem parseNumber : BlamesGuard (parseNumber std input) := by
  have digits : BlamesGuard (Parser.advanceWhile input isAsciiDigit (byteLength input + 1)) :=
    advanceWhile _ _
  refine skipWhitespace.bind fun _ => current.bind fun start => peekChar.bind fun c => ?_
  -- With a sign or without, with a fraction or without, the text is parsed in one way.
  refine ((advance 1).bind fun _ => ?_).ite ?_ <;>
    refine digits.bind fun _ => peekChar.bind fun c =>
      ((advance 1).bind fun _ => digits.bind fun _ => ?_).ite ?_
  all_goals
    refine (sliceFrom start).bind fun cs => ?_
    dsimp only
    split
    · exact ok _
    · exact invalidGuard _

theorem stringLoop (start fuel : Nat) : BlamesGuard (stringLoop input start fuel) := by
  induction fuel with
  | zero => exact panicked
  | succ fuel ih =>
    refine peekChar.bind fun c => ?_
    cases c with
    | none => exact invalidGuard _
    | some c =>
      exact ((sliceFrom _).bind fun _ => (advance 1).bind fun _ => ok _).ite
        ((advance _).bind fun _ => ih)

theorem parseStringValue : BlamesGuard (parseStringValue input) :=
  peekChar.bind fun _ => (invalidGuard _).ite
    ((advance 1).bind fun _ => current.bind fun _ => stringLoop _ _)

theorem parseValue : BlamesGuard (parseValue std input) := by
  have number : BlamesGuard (do
      let num ← Parser.parseNumber std input
      return Value.number (← Parser.sliced (Number.fromF64 num))) :=
    parseNumber.bind fun _ => (sliced _).bind fun _ => ok _
  have word (n : Nat) (v : Value) : BlamesGuard (do Parser.advance n; return v) :=
    (advance n).bind fun _ => ok v
  refine skipWhitespace.bind fun _ => (peekStr _).bind fun _ => (word 4 _).ite ?_
  refine (peekStr _).bind fun _ => (word 5 _).ite ?_
  refine (peekStr _).bind fun _ => (word 4 _).ite ?_
  exact peekChar.bind fun _ => parseStringValue.ite number

theorem parseComparison : BlamesGuard (parseComparison std input) := by
  have value (n : Nat) (build : Value → GuardExpr) : BlamesGuard (do
      Parser.advance n
      Parser.skipWhitespace input
      return build (← Parser.parseValue std input)) :=
    (advance n).bind fun _ => skipWhitespace.bind fun _ => parseValue.bind fun _ => ok _
  have number (n : Nat) (build : F64 → GuardExpr) : BlamesGuard (do
      Parser.advance n
      Parser.skipWhitespace input
      return build (← Parser.parseNumber std input)) :=
    (advance n).bind fun _ => skipWhitespace.bind fun _ => parseNumber.bind fun _ => ok _
  refine skipWhitespace.bind fun _ => parseField.bind fun field => skipWhitespace.bind fun _ => ?_
  refine (peekStr _).bind fun _ => (value 2 (.eq field)).ite ?_
  refine (peekStr _).bind fun _ => (value 2 (.ne field)).ite ?_
  refine (peekStr _).bind fun _ => (number 2 (.ge field)).ite ?_
  refine (peekStr _).bind fun _ => (number 2 (.le field)).ite ?_
  refine peekChar.bind fun _ => (number 1 (.gt field)).ite ?_
  exact peekChar.bind fun _ => (number 1 (.lt field)).ite (ok _)

theorem operands {op : String} {combine : GuardExpr → GuardExpr → GuardExpr}
    {operand : Parse GuardExpr} (h : BlamesGuard operand) (left : GuardExpr) (fuel : Nat) :
    BlamesGuard (operands input op combine operand left fuel) := by
  induction fuel generalizing left with
  | zero => exact panicked
  | succ fuel ih =>
    refine (peekStr op).bind fun _ => ite ?_ (ok _)
    exact (advance 2).bind fun _ => skipWhitespace.bind fun _ => h.bind fun _ =>
      skipWhitespace.bind fun _ => ih _

variable {unary : Parse GuardExpr}

theorem parseAnd (h : BlamesGuard unary) :
    BlamesGuard (parseAnd input unary) :=
  h.bind fun _ => skipWhitespace.bind fun _ => h.operands _ _

theorem parseOr (h : BlamesGuard unary) :
    BlamesGuard (parseOr input unary) :=
  h.parseAnd.bind fun _ => skipWhitespace.bind fun _ => h.parseAnd.operands _ _

theorem parsePrimary (h : BlamesGuard unary) : BlamesGuard (parsePrimary std input unary) := by
  refine skipWhitespace.bind fun _ => peekChar.bind fun _ => ite ?_ parseComparison
  refine (advance 1).bind fun _ => h.parseOr.bind fun _ => skipWhitespace.bind fun _ => ?_
  exact peekChar.bind fun _ => (invalidGuard _).ite ((advance 1).bind fun _ => ok _)

theorem parseUnary (depth : Nat) : BlamesGuard (parseUnary std input depth) := by
  induction depth with
  | zero => exact panicked
  | succ depth ih =>
    refine skipWhitespace.bind fun _ => peekChar.bind fun _ => ite ?_ ih.parsePrimary
    exact (advance 1).bind fun _ => skipWhitespace.bind fun _ => ih.bind fun _ => ok _

end BlamesGuard

end Parser

theorem GuardExpr.parse_error {s : String} (h : GuardExpr.parse std s = some (.error e)) :
    ∃ reason, e = .invalidGuard reason := by
  unfold GuardExpr.parse at h
  simp only at h
  split at h
  · cases h
    exact ⟨_, rfl⟩
  split at h
  · cases h
  · rename_i hp
    cases h
    exact (Parser.BlamesGuard.parseUnary _).parseOr 0 e hp
  · cases h

theorem addSources_error {hto : t.target ∈ states} {srcs : List String} {ts : Transitions states}
    (h : addSources t hto guard srcs ts = .error e) : ∃ reason, e = .invalidDefinition reason := by
  induction srcs generalizing ts with
  | nil => cases h
  | cons src srcs ih =>
    unfold addSources at h
    split at h
    · split at h
      · cases h
        exact ⟨_, rfl⟩
      · exact ih h
    · cases h
      exact ⟨_, rfl⟩

theorem addTransitions_error {transitions : List Transition} {ts : Transitions states}
    (h : addTransitions std transitions ts = some (.error e)) :
    (∃ reason, e = .invalidDefinition reason) ∨ ∃ reason, e = .invalidGuard reason := by
  induction transitions generalizing ts with
  | nil => cases h
  | cons t more ih =>
    unfold addTransitions at h
    split at h
    · split at h
      · cases h
      · rename_i hp
        cases h
        unfold parseGuard at hp
        split at hp
        · cases hp
        split at hp
        · cases hp
        · rename_i hparse
          cases hp
          exact .inr (GuardExpr.parse_error hparse)
        · cases hp
      · split at h
        · rename_i hs
          cases h
          exact .inl (addSources_error hs)
        · exact ih h
    · cases h
      exact .inl ⟨_, rfl⟩

/-- A definition that is not accepted is no definition in JSON, or its states, its
transitions or a guard are at fault. -/
theorem MachineDefinition.fromJson_error {X : CoreExternals} {name : String} {version : UInt32}
    {json : Value} (h : fromJson X name version json = some (.error e)) :
    e = .json ∨ (∃ reason, e = .invalidDefinition reason) ∨
      ∃ reason, e = .invalidGuard reason := by
  unfold fromJson at h
  split at h
  · cases h
    exact .inl rfl
  unfold fromRaw at h
  split at h
  · split at h
    · cases h
    · rename_i ha
      cases h
      exact .inr (addTransitions_error ha)
    · cases h
  · cases h
    exact .inr (.inl ⟨_, rfl⟩)

end Rstmdb

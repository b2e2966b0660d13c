import Rstmdb.Core.Replay

/-! Creations under an idempotency key. A creation looks its key up in the cache that
only events are entered in. So a retry fails with the instance that it made, and a key
that an event was applied under passes for the key of the creation. -/
namespace Rstmdb
open Json (Value)

/-- The key of an entry that creates the instance. -/
def WalEntry.creationKey (id : String) : WalEntry → Option (Option String)
  | .createInstance instanceId _ _ _ _ key => if instanceId = id then some key else none
  | _ => none

/-- The keys that the instance was created under, in the order of the log. -/
def creationKeys (X : Externals) (w : Wal) (id : String) : List (Option String) :=
  match w.readFrom X ⟨0⟩ none with
  | some (_, .ok es) => es.filterMap (·.2.2.creationKey id)
  | _ => []

/-- An operation of the process on another instance, or on none. -/
def EngineOp.elsewhere (id : String) : EngineOp → Prop
  | .putMachine .. => True
  | .createInstance instanceId .. => instanceId ≠ id
  | .applyEvent request => request.instanceId ≠ id
  | .deleteInstance instanceId _ => instanceId ≠ id
  | .restart _ => False

/-- An entry of another instance leaves this one alone. -/
theorem Changes.of_other {X : CoreExternals} {m m' : Memory} {offset : Nat} {entry : WalEntry}
    (h : Changes X m offset entry m') {id : String} (hid : entry.instanceId ≠ some id) :
    m'.instances[id]? = m.instances[id]? := by
  cases h with
  | putMachine => rfl
  | createInstance | applyEvent | deleteInstance =>
    apply Table.getElem?_insert_ne
    rintro rfl
    exact hid rfl

theorem Changes.contains {X : CoreExternals} {m m' : Memory} {offset : Nat} {entry : WalEntry}
    (h : Changes X m offset entry m') {id : String} (hid : m.instances.contains id = true) :
    m'.instances.contains id = true := by
  cases h with
  | putMachine => exact hid
  | createInstance | applyEvent | deleteInstance =>
    simp only [Memory.setInstance, Std.ExtTreeMap.contains_insert, hid, Bool.or_true]

theorem contains_cacheAfter (cache : Table (String × String) ApplyResult) (seq : UInt64)
    (off : WalOffset) (entry : WalEntry) (pair : String × String) :
    (cacheAfter cache seq off entry).contains pair = true ↔
      cache.contains pair = true ∨ entry.eventKey = some pair := by
  unfold cacheAfter
  cases entry with
  | applyEvent id _ _ _ _ _ _ key =>
    cases key with
    | none => simp [WalEntry.eventKey]
    | some key =>
      simp only [WalEntry.eventKey, WalEntry.resultAt, Std.ExtTreeMap.contains_insert,
        Bool.or_eq_true, beq_iff_eq, Std.LawfulEqOrd.compare_eq_iff_eq, Option.some.injEq]
      exact or_comm
  | _ => simp [WalEntry.eventKey]

namespace Engine

variable {X : CoreExternals} {s s' : Engine} {id : String}

theorem logs_elsewhere {op : EngineOp} (hop : op.elsewhere id) (h : s.step X op = some s') :
    Logs X (fun entry => entry.instanceId ≠ some id) s s' := by
  obtain hlogs | ⟨config, rfl, -⟩ := step_logs h
  · refine hlogs.imp fun entry he hid => ?_
    cases op with
    | putMachine => cases entry <;> cases he; cases hid
    | createInstance | deleteInstance => exact hop (Option.some.inj (he.2.symm.trans hid))
    | applyEvent => exact hop (Option.some.inj (he.2.1.symm.trans hid))
    | restart => exact he
  · exact hop.elim

theorem step_elsewhere {op : EngineOp} (hop : op.elsewhere id) (h : s.step X op = some s') :
    s'.instances[id]? = s.instances[id]? ∧
      ∀ pair, s.idempotencyCache.contains pair = true →
        s'.idempotencyCache.contains pair = true := by
  cases logs_elsewhere hop h with
  | kept | refused => exact ⟨rfl, fun _ hp => hp⟩
  | logged _ changes meets =>
    exact ⟨changes.of_other meets, fun pair hp => (contains_cacheAfter ..).mpr (.inl hp)⟩

theorem new_cache {config : WalConfig} {dir : Dir} (h : new X config dir = some (.ok s)) :
    s.idempotencyCache = ∅ := by
  unfold new withWal at h
  split at h
  · cases h
  split at h
  · cases h
  · cases h
  · split at h
    · cases h
    · cases h
      rfl

/-- Every key in the cache is one of an instance that is there. -/
def CacheKnown (s : Engine) : Prop :=
  ∀ pair, s.idempotencyCache.contains pair = true → s.instances.contains pair.1 = true

theorem cacheKnown_step {op : EngineOp} (hk : s.CacheKnown) (h : s.step X op = some s') :
    s'.CacheKnown := by
  obtain hc | ⟨config, rfl, hnew⟩ := step_cases h
  · cases hc with
    | kept | refused => exact hk
    | logged _ changes _ =>
      intro pair hpair
      obtain hp | hp := (contains_cacheAfter ..).mp hpair
      · exact changes.contains (hk pair hp)
      · cases changes with
        | putMachine | createInstance | deleteInstance => cases hp
        | @applyEvent id _ _ _ _ key =>
          cases key with
          | none => cases hp
          | some key =>
            cases hp
            simp [Memory.setInstance]
  · simp [CacheKnown, new_cache hnew]

/-- What a creation under a key does: it finds the key in the cache, or it makes the
instance, without the key. -/
theorem createInstance_ok {machine : String} {version : UInt32} {ctx : Value} {key : String}
    {i : Instance} {n : Nat} (hk : s.CacheKnown)
    (h : s.createInstance X id machine version ctx (some key) = some (s', .ok (i, n))) :
    (s.idempotencyCache.contains (id, key) = true ∧ s' = s ∧ s.instances[id]? = some i) ∨
      (s.idempotencyCache.contains (id, key) = false ∧
        s'.idempotencyCache.contains (id, key) = false ∧ s'.instances.contains id = true) := by
  unfold createInstance createdBefore at h
  cases hc : s.idempotencyCache.contains (id, key) with
  | true =>
    obtain ⟨j, hj⟩ : ∃ j, s.instances[id]? = some j := by
      have := hk (id, key) hc
      rwa [Std.ExtTreeMap.contains_eq_isSome_getElem?, Option.isSome_iff_exists] at this
    simp only [hc, if_true, hj] at h
    cases h
    exact .inl ⟨rfl, rfl, hj⟩
  | false =>
    right
    simp only [hc, Bool.false_eq_true, if_false] at h
    split at h
    · cases h
    split at h
    · cases h
    split at h
    · cases h
    · cases h
    · rename_i s₁ seq off ha
      cases h
      obtain ⟨wal, -, rfl⟩ := append_ok ha
      exact ⟨rfl, hc, by simp⟩

theorem createInstance_known {i : Instance} {key : String} (hi : s.instances[id]? = some i)
    (hc : s.idempotencyCache.contains (id, key) = true) (machine : String) (version : UInt32)
    (ctx : Value) : s.createInstance X id machine version ctx (some key) =
      some (s, .ok (i, i.lastWalOffset)) := by
  simp only [createInstance, createdBefore, hc, if_true, hi]

theorem createInstance_unknown {key : String} (hi : s.instances.contains id = true)
    (hc : s.idempotencyCache.contains (id, key) = false) (machine : String) (version : UInt32)
    (ctx : Value) : s.createInstance X id machine version ctx (some key) =
      some (s, .error (.instanceExists id)) := by
  simp only [createInstance, createdBefore, hc, Bool.false_eq_true, if_false, hi, if_true]

/-- A creation under a key that succeeds can be retried after any operations elsewhere,
and is of an instance that was created under the key, exactly when an event was applied
to the instance under the same key in this process, and the instance was created under
it. -/
theorem creation_retry_iff (X : CoreExternals) {config : WalConfig} {s₀ s s₁ : Engine}
    {ops : List EngineOp} (hopen : new X config ∅ = some (.ok s₀))
    (hrun : run (step X) s₀ ops = some s) {id machine : String} {version : UInt32} {ctx : Value}
    {key : String} {i : Instance} {n : Nat}
    (hok : s.createInstance X id machine version ctx (some key) = some (s₁, .ok (i, n))) :
    ((∀ (later : List EngineOp) (s₂ : Engine), (∀ op ∈ later, op.elsewhere id) →
          run (step X) s₁ later = some s₂ → ∃ n',
            s₂.createInstance X id machine version ctx (some key) = some (s₂, .ok (i, n'))) ∧
        creationKeys X.toExternals s₁.wal id = [some key]) ↔
      s.idempotencyCache.contains (id, key) = true ∧
        creationKeys X.toExternals s.wal id = [some key] := by
  have hknown : s.CacheKnown := by
    apply run_keeps (fun s op s' hk hs => cacheKnown_step hk hs) _ hrun
    obtain rfl := eq_fresh_of_new hopen
    simp [CacheKnown, fresh]
  obtain ⟨hc, rfl, hi⟩ | ⟨hc, hc₁, hi₁⟩ := createInstance_ok hknown hok
  · rw [and_congr_left_iff]
    intro _
    simp only [hc, iff_true]
    intro later s₂ hlater hrun₂
    have hkept : s₂.instances[id]? = some i ∧
        s₂.idempotencyCache.contains (id, key) = true := by
      refine run_keeps_of_meets (P := fun t => t.instances[id]? = some i ∧
        t.idempotencyCache.contains (id, key) = true) ?_ ⟨hi, hc⟩
        (meets_of_forall (step X) _ _ hlater) hrun₂
      rintro t op t' ⟨ht, htc⟩ hop hs
      obtain ⟨hsame, hmore⟩ := step_elsewhere hop hs
      exact ⟨hsame.trans ht, hmore _ htc⟩
    exact ⟨_, createInstance_known hkept.1 hkept.2 machine version ctx⟩
  · simp only [hc, Bool.false_eq_true, false_and, iff_false, not_and]
    intro hretry _
    obtain ⟨n', hagain⟩ := hretry [] s₁ (by simp) rfl
    rw [createInstance_unknown hi₁ hc₁] at hagain
    cases hagain

def createUnder (key : Option String) : EngineOp := .createInstance "i" "m" 1 .null key

/-- A creation under this key, and an event under the key `k`. -/
def createdAndMoved (key : Option String) : List WalEntry :=
  [.putMachine "m" 1 "6c3fccfb" loopMachine, .createInstance "i" "m" 1 "a" .null key,
    .applyEvent "i" "e" "a" "a" .null .null none (some "k")]

set_option maxRecDepth 4000 in
/-- A creation and an event under one key. -/
theorem creation_retry_of_event :
    ∃ s, run (step serdeCore) (fresh ⟨1000, .everyWrite⟩)
        [.putMachine "m" 1 loopMachine, createUnder (some "k"),
          .applyEvent (loopEvent (some "k"))] = some s ∧
      ∃ i n, s.createInstance serdeCore "i" "m" 1 .null (some "k") = some (s, .ok (i, n)) ∧
        (∀ (later : List EngineOp) (s₂ : Engine), (∀ op ∈ later, op.elsewhere "i") →
          run (step serdeCore) s later = some s₂ → ∃ n',
            s₂.createInstance serdeCore "i" "m" 1 .null (some "k") = some (s₂, .ok (i, n'))) ∧
        creationKeys serdeCore.toExternals s.wal "i" = [some "k"] := by
  rw [← serdeCoreReading_eq (createdAndMoved (some "k"))]
  refine run_exists (p := fun s => s.idempotencyCache.contains ("i", "k") = true ∧
    s.instances.contains "i" = true ∧
    creationKeys (serdeCoreReading (createdAndMoved (some "k"))).toExternals s.wal "i" =
      [some "k"]) (by decide +kernel) ?_
  rintro s hrun ⟨hc, hi, hkeys⟩
  rw [Std.ExtTreeMap.contains_eq_isSome_getElem?, Option.isSome_iff_exists] at hi
  obtain ⟨i, hi⟩ := hi
  have hok := @createInstance_known (serdeCoreReading (createdAndMoved (some "k"))) s "i" i "k"
    hi hc "m" 1 .null
  exact ⟨i, _, hok, (creation_retry_iff _ (new_empty _ _) hrun hok).mpr ⟨hc, hkeys⟩⟩

set_option maxRecDepth 4000 in
/-- A creation under a key, and its retry: it fails. And a creation without a key, an
event under one, and a creation under that key: it succeeds. -/
theorem creation_key_ignored :
    (∃ s, run (step serdeCore) (fresh ⟨1000, .everyWrite⟩)
          [.putMachine "m" 1 loopMachine] = some s ∧
        ∃ s₁ i n, s.createInstance serdeCore "i" "m" 1 .null (some "k") = some (s₁, .ok (i, n)) ∧
          s₁.createInstance serdeCore "i" "m" 1 .null (some "k") =
            some (s₁, .error (.instanceExists "i"))) ∧
      ∃ s, run (step serdeCore) (fresh ⟨1000, .everyWrite⟩)
          [.putMachine "m" 1 loopMachine, createUnder none,
            .applyEvent (loopEvent (some "k"))] = some s ∧
        creationKeys serdeCore.toExternals s.wal "i" = [none] ∧
        ∃ i n, s.createInstance serdeCore "i" "m" 1 .null (some "k") = some (s, .ok (i, n)) := by
  constructor
  · refine run_exists (p := fun s => (s.createInstance serdeCore "i" "m" 1 .null (some "k")).any
      (fun p => (match p.2 with | .ok _ => true | .error _ => false) &&
        p.1.instances.contains "i" && !p.1.idempotencyCache.contains ("i", "k")) = true)
      (by decide +kernel) ?_
    intro s _ hs
    obtain ⟨⟨s₁, res⟩, hs₁, hres⟩ := (Option.any_eq_true _ _).mp hs
    simp only [Bool.and_eq_true, Bool.not_eq_true'] at hres
    obtain ⟨⟨hok, hi⟩, hc⟩ := hres
    cases res with
    | error e => cases hok
    | ok p => exact ⟨s₁, p.1, p.2, hs₁, createInstance_unknown hi hc "m" 1 .null⟩
  · rw [← serdeCoreReading_eq (createdAndMoved none)]
    refine run_exists (p := fun s => s.idempotencyCache.contains ("i", "k") = true ∧
      s.instances.contains "i" = true ∧
      creationKeys (serdeCoreReading (createdAndMoved none)).toExternals s.wal "i" = [none])
      (by decide +kernel) ?_
    rintro s - ⟨hc, hi, hkeys⟩
    rw [Std.ExtTreeMap.contains_eq_isSome_getElem?, Option.isSome_iff_exists] at hi
    obtain ⟨i, hi⟩ := hi
    exact ⟨hkeys, i, _, createInstance_known hi hc "m" 1 .null⟩

end Engine

end Rstmdb

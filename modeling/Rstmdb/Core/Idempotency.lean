import Rstmdb.Core.Replay

/-! Idempotency keys. The log records the key of every event, but a restart does
not read the cache back from it. So a retry is recognized in the process that
applied the event, and only there. -/
namespace Rstmdb

/-- A result returned, and the pair of instance and key it was asked for under. -/
abbrev Answer := (String × String) × ApplyResult

/-- The records in the log that carry a pair. -/
def recordsUnder (X : Externals) (w : Wal) (pair : String × String) : List ReadEntry :=
  match w.readFrom X ⟨0⟩ none with
  | some (_, .ok es) => es.filter fun p => p.2.2.eventKey = some pair
  | _ => []

namespace Engine

/-- The answers with one more, if it is good and was asked for under a pair. -/
def noteAnswer (answers : List Answer) :
    Option (String × String) → Except CoreError ApplyResult → List Answer
  | some pair, .ok a => answers ++ [(pair, a)]
  | _, _ => answers

@[simp] theorem noteAnswer_error (answers : List Answer) (pair : Option (String × String))
    (e : CoreError) : noteAnswer answers pair (.error e) = answers := by
  cases pair <;> rfl

/-- An operation, with the answers to keyed events noted. -/
def answering (X : CoreExternals) : Engine × List Answer → EngineOp → Option (Engine × List Answer)
  | (s, answers), .applyEvent r =>
    (s.applyEvent X r).map fun (s, res) => (s, noteAnswer answers r.eventKey res)
  | (s, answers), op => (s.step X op).map fun s => (s, answers)

/-- An event under a pair that the log knows is asked of an engine that
remembers it. -/
def Remembered (X : CoreExternals) (s : Engine × List Answer) : EngineOp → Prop
  | .applyEvent r => ∀ pair ∈ r.eventKey,
      s.1.idempotencyCache.contains pair = true ∨ recordsUnder X.toExternals s.1.wal pair = []
  | _ => True

instance decidableRemembered (X : CoreExternals) (s : Engine × List Answer) :
    ∀ op, Decidable (Remembered X s op)
  | .applyEvent r => inferInstanceAs (Decidable (∀ pair ∈ r.eventKey,
      s.1.idempotencyCache.contains pair = true ∨ recordsUnder X.toExternals s.1.wal pair = []))
  | .putMachine .. | .createInstance .. | .deleteInstance .. | .restart _ =>
    inferInstanceAs (Decidable True)

/-- Each pair has at most one record, and everything cached or answered under it
is the result of that record. -/
structure Once {X : CoreExternals} (s : Engine) (answers : List Answer)
    (pre : List (Chunk X.toExternals)) (c : Chunk X.toExternals) : Prop where
  restorable : s.Restorable pre c
  unique : ∀ pair, ((entries (pre ++ [c])).filter fun p => p.2.2.eventKey = some pair).length ≤ 1
  cached : ∀ pair a, s.idempotencyCache[pair]? = some a →
    ∃ p ∈ entries (pre ++ [c]), p.2.2.eventKey = some pair ∧ p.2.2.resultAt p.1 p.2.1 = some a
  answered : ∀ pair a, (pair, a) ∈ answers →
    ∃ p ∈ entries (pre ++ [c]), p.2.2.eventKey = some pair ∧ p.2.2.resultAt p.1 p.2.1 = some a

section
variable {X : CoreExternals} {s s' : Engine} {answers answers' : List Answer}
  {pre : List (Chunk X.toExternals)} {c : Chunk X.toExternals} {pair : String × String}

theorem recordsUnder_eq {w : Wal} (h : w.Repr pre c) (pair : String × String) :
    recordsUnder X.toExternals w pair =
      (entries (pre ++ [c])).filter fun p => p.2.2.eventKey = some pair := by
  obtain ⟨stats, hread⟩ := h.readFrom
  simp only [recordsUnder, hread]

/-- Two results under one pair are one. -/
theorem eq_of_unique {es : List ReadEntry}
    (h : (es.filter fun p => p.2.2.eventKey = some pair).length ≤ 1) {p q : ReadEntry}
    (hp : p ∈ es) (hq : q ∈ es) (hpk : p.2.2.eventKey = some pair)
    (hqk : q.2.2.eventKey = some pair) : p = q := by
  have hpf : p ∈ es.filter fun p => p.2.2.eventKey = some pair :=
    List.mem_filter.mpr ⟨hp, by simpa using hpk⟩
  have hqf : q ∈ es.filter fun p => p.2.2.eventKey = some pair :=
    List.mem_filter.mpr ⟨hq, by simpa using hqk⟩
  generalize es.filter (fun p => p.2.2.eventKey = some pair) = found at h hpf hqf
  match found, h with
  | [], _ => cases hpf
  | [_], _ => rw [List.mem_singleton.mp hpf, List.mem_singleton.mp hqf]

theorem Once.answer {a : ApplyResult} (h : Once s answers pre c)
    (hc : s.idempotencyCache[pair]? = some a) : Once s (answers ++ [(pair, a)]) pre c := by
  refine ⟨h.restorable, h.unique, h.cached, ?_⟩
  intro pair' a' hm
  obtain hm | hm := List.mem_append.mp hm
  · exact h.answered pair' a' hm
  · cases List.mem_singleton.mp hm
    exact h.cached pair a hc

theorem Once.refused {entry : WalEntry} {wal : Wal} {e : WalError} (h : Once s answers pre c)
    (failed : s.wal.append X.toExternals entry = some (wal, .error e)) :
    ∃ pre' c', Once (X := X) { s with wal } answers pre' c' := by
  obtain ⟨pre', c', hr, ht, he⟩ := h.restorable.repr.append_clean h.restorable.clean failed
  refine ⟨pre', c', ⟨hr, ht, ?_⟩, ?_, ?_, ?_⟩ <;> rw [he]
  · exact h.restorable.replayed
  · exact h.unique
  · exact h.cached
  · exact h.answered

theorem Once.logged {entry : WalEntry} {wal : Wal} {seq : UInt64} {off : WalOffset} {m : Memory}
    (h : Once s answers pre c)
    (appended : s.wal.append X.toExternals entry = some (wal, .ok (seq, off)))
    (changes : Changes X s.toMemory off.asU64 entry m)
    (new : ∀ pair ∈ entry.eventKey, recordsUnder X.toExternals s.wal pair = [])
    {r : Except CoreError ApplyResult}
    (result : ∀ a, r = .ok a → entry.resultAt seq off = some a) :
    ∃ pre' c', Once (X := X) ⟨m, cacheAfter s.idempotencyCache seq off entry, wal⟩
      (noteAnswer answers entry.eventKey r) pre' c' := by
  obtain ⟨pre', c', hr, ht, he⟩ := h.restorable.repr.append_clean h.restorable.clean appended
  obtain ⟨n, hn, hagree⟩ := h.restorable.replayed
  obtain ⟨n', hn', hagree'⟩ := replayEntry_of_changes hagree changes
  have old : ∀ {pair : String × String} {a : ApplyResult},
      (∃ p ∈ entries (pre ++ [c]),
        p.2.2.eventKey = some pair ∧ p.2.2.resultAt p.1 p.2.1 = some a) →
      ∃ p ∈ entries (pre' ++ [c']),
        p.2.2.eventKey = some pair ∧ p.2.2.resultAt p.1 p.2.1 = some a := by
    rintro pair a ⟨p, hp, hk⟩
    exact ⟨p, he ▸ List.mem_append_left _ hp, hk⟩
  have last : (seq, off, entry) ∈ entries (pre' ++ [c']) := he ▸ by simp
  refine ⟨pre', c', ⟨hr, ht, n', ?_, hagree'⟩, ?_, ?_, ?_⟩
  · rw [he, replayEntries_append, hn]
    simp [replayEntries, hn']
  · intro pair
    rw [he, List.filter_append, List.length_append]
    by_cases hk : entry.eventKey = some pair
    · have hnone := new pair hk
      rw [recordsUnder_eq h.restorable.repr] at hnone
      rw [hnone]
      simp only [List.length_nil, zero_add]
      exact List.length_filter_le _ _
    · simpa [hk] using h.unique pair
  · intro pair a hc
    unfold cacheAfter at hc
    split at hc
    · rename_i pair' a' hk ha
      obtain ⟨rfl, rfl⟩ | ⟨-, hc⟩ := Table.found_insert hc
      · exact ⟨_, last, hk, ha⟩
      · exact old (h.cached pair a hc)
    · exact old (h.cached pair a hc)
  · intro pair a hm
    unfold noteAnswer at hm
    split at hm
    · rename_i pair' a' hk
      obtain hm | hm := List.mem_append.mp hm
      · exact old (h.answered pair a hm)
      · cases List.mem_singleton.mp hm
        exact ⟨_, last, hk, result a rfl⟩
    · exact old (h.answered pair a hm)

theorem cachedResult_eq (s : Engine) (r : EventRequest) :
    s.cachedResult r.instanceId r.idempotencyKey =
      r.eventKey.bind fun pair => s.idempotencyCache[pair]? := by
  unfold cachedResult EventRequest.eventKey
  cases r.idempotencyKey <;> rfl

theorem once_applyEvent {r : EventRequest} (h : Once s answers pre c)
    (known : Remembered X (s, answers) (.applyEvent r))
    (hs : answering X (s, answers) (.applyEvent r) = some (s', answers')) :
    ∃ pre' c', Once (X := X) s' answers' pre' c' := by
  obtain ⟨⟨_, res⟩, ha, he⟩ := Option.map_eq_some_iff.mp hs
  cases he
  obtain ⟨a, hc, rfl, rfl⟩ | ⟨hc, s₁, happ, hend⟩ := applyEvent_cases ha
  · rw [cachedResult_eq] at hc
    obtain ⟨pair, hk, hc⟩ := Option.bind_eq_some_iff.mp hc
    rw [hk]
    exact ⟨pre, c, h.answer hc⟩
  · cases happ with
    | rejected =>
      obtain ⟨-, -, rfl⟩ | ⟨_, hok, -⟩ := hend
      · rw [noteAnswer_error]
        exact ⟨pre, c, h⟩
      · cases hok
    | refused failed =>
      obtain ⟨-, -, rfl⟩ | ⟨_, hok, -⟩ := hend
      · rw [noteAnswer_error]
        exact h.refused failed
      · cases hok
    | @logged entry wal seq off m _ appended changes key id result =>
      obtain ⟨_, herr, -⟩ | ⟨a, hok, rfl⟩ := hend
      · cases herr
      cases hok
      rw [cacheResult_eq key result]
      have new : ∀ pair ∈ entry.eventKey, recordsUnder X.toExternals s.wal pair = [] := by
        intro pair hk
        rw [key] at hk
        refine (known pair hk).resolve_left ?_
        rw [cachedResult_eq, hk] at hc
        simpa using hc
      rw [← key]
      exact h.logged appended changes new (by rintro _ ⟨⟩; exact result)

theorem once_step {op : EngineOp} (h : Once s answers pre c) (known : Remembered X (s, answers) op)
    (hs : answering X (s, answers) op = some (s', answers')) :
    ∃ pre' c', Once (X := X) s' answers' pre' c' := by
  -- Only events are answered under a key; the rest is a call without one, or a restart.
  have other (hk : op.eventKey = none) (hstep : s.step X op = some s') :
      ∃ pre' c', Once (X := X) s' answers pre' c' := by
    obtain hc | ⟨config, rfl, hnew⟩ := step_cases hstep
    · rw [hk] at hc
      cases hc with
      | kept => exact ⟨pre, c, h⟩
      | refused failed => exact h.refused failed
      | @logged entry wal seq off m appended changes key =>
        have hlog := h.logged (r := .error .json) appended changes (by simp [key]) (by simp)
        rwa [key] at hlog
    · obtain ⟨s₁, hs₁, hr, -, hcache, -⟩ := new_of_restorable h.restorable config
      rw [hs₁] at hnew
      cases hnew
      exact ⟨pre, c, hr, h.unique, by simp [hcache], h.answered⟩
  cases op with
  | applyEvent r => exact once_applyEvent h known hs
  | putMachine | createInstance | deleteInstance | restart =>
    obtain ⟨s₁, hs₁, he⟩ := Option.map_eq_some_iff.mp hs
    cases he
    exact other rfl hs₁

/-- In every run in which the engine remembers the pairs that it is asked for
again, the log holds at most one record for a pair, and whoever asks again gets
the first answer, from an engine that does not change. -/
theorem applied_once (X : CoreExternals) {config : WalConfig} {s₀ s : Engine}
    {ops : List EngineOp} {answers : List Answer} (hopen : new X config ∅ = some (.ok s₀))
    (known : Meets (answering X) (Remembered X) (s₀, []) ops)
    (hrun : run (answering X) (s₀, []) ops = some (s, answers)) :
    (∃ w' es, s.wal.readFrom X.toExternals ⟨0⟩ none = some (w', .ok es) ∧
        ∀ pair, (es.filter fun p => p.2.2.eventKey = some pair).length ≤ 1) ∧
      ∀ pair a, (pair, a) ∈ answers → ∀ r : EventRequest, r.eventKey = some pair →
        Remembered X (s, answers) (.applyEvent r) →
        ∃ a', s.applyEvent X r = some (s, .ok a') ∧ a'.fromState = a.fromState ∧
          a'.toState = a.toState ∧ a'.ctx = a.ctx ∧ a'.walOffset = a.walOffset := by
  have start : ∃ pre c, Once (X := X) s₀ [] pre c := by
    obtain rfl := eq_fresh_of_new hopen
    exact ⟨[], _, ⟨repr_fresh X config, rfl, .empty, rfl, .refl _⟩, by simp [entries],
      by simp [fresh], by simp⟩
  obtain ⟨pre, c, h⟩ := run_keeps_of_meets
    (P := fun t => ∃ pre c, Once (X := X) t.1 t.2 pre c)
    (by rintro _ _ _ ⟨_, _, h⟩; exact once_step h) start known hrun
  obtain ⟨stats, hread⟩ := h.restorable.repr.readFrom
  refine ⟨⟨_, _, hread, h.unique⟩, ?_⟩
  intro pair a hm r hk hrem
  obtain ⟨p, hp, hpk, hpa⟩ := h.answered pair a hm
  have hlogged : recordsUnder X.toExternals s.wal pair ≠ [] := by
    rw [recordsUnder_eq h.restorable.repr]
    exact List.ne_nil_of_mem (List.mem_filter.mpr ⟨hp, by simpa using hpk⟩)
  have hcont := (hrem pair hk).resolve_right hlogged
  obtain ⟨a', ha'⟩ : ∃ a', s.idempotencyCache[pair]? = some a' := by
    rw [Std.ExtTreeMap.contains_eq_isSome_getElem?] at hcont
    exact Option.isSome_iff_exists.mp hcont
  obtain ⟨q, hq, hqk, hqa⟩ := h.cached pair a' ha'
  -- Both answers are the result of the one record under the pair.
  obtain rfl := eq_of_unique (h.unique pair) hp hq hpk hqk
  obtain rfl : a' = a := by simpa [hpa] using hqa.symm
  refine ⟨a', ?_, rfl, rfl, rfl, rfl⟩
  have hcached : s.cachedResult r.instanceId r.idempotencyKey = some a' := by
    rw [cachedResult_eq, hk]
    exact ha'
  simp only [applyEvent, hcached]

end

/-- The entries that a machine, an instance of it and an event under a key leave. -/
def loopEntries : List WalEntry :=
  [.putMachine "m" 1 "6c3fccfb" loopMachine, .createInstance "i" "m" 1 "a" .null none,
    .applyEvent "i" "e" "a" "a" .null .null none (some "k")]

set_option maxRecDepth 4000 in
/-- A retry in the process that applied the event. -/
theorem applied_once_of_retry :
    ∃ t, run (answering serdeCore) (fresh ⟨1000, .everyWrite⟩, [])
        [.putMachine "m" 1 loopMachine, .createInstance "i" "m" 1 .null none,
          .applyEvent (loopEvent (some "k")), .applyEvent (loopEvent (some "k"))] = some t ∧
      t.2.length = 2 ∧
      ∃ w' es, t.1.wal.readFrom serdeCore.toExternals ⟨0⟩ none = some (w', .ok es) ∧
        ∀ pair, (es.filter fun p => p.2.2.eventKey = some pair).length ≤ 1 := by
  rw [← serdeCoreReading_eq loopEntries]
  refine run_exists (p := fun t => t.2.length = 2) (by decide +kernel) ?_
  intro t hrun hlen
  exact ⟨hlen, (applied_once (serdeCoreReading loopEntries) (new_empty _ _) (by decide +kernel)
    hrun).1⟩

set_option maxRecDepth 4000 in
/-- A retry after a restart: the event is applied and logged again, and the
answer has another offset. -/
theorem retry_after_restart_applied_again :
    ∃ t, run (answering serdeCore) (fresh ⟨1000, .everyWrite⟩, [])
        [.putMachine "m" 1 loopMachine, .createInstance "i" "m" 1 .null none,
          .applyEvent (loopEvent (some "k")), .restart ⟨1000, .everyWrite⟩,
          .applyEvent (loopEvent (some "k"))] = some t ∧
      (recordsUnder serdeCore.toExternals t.1.wal ("i", "k")).length = 2 ∧
      (t.2.map Prod.fst = [("i", "k"), ("i", "k")]) ∧
      (t.2.map fun p => p.2.walOffset).Nodup := by
  rw [← serdeCoreReading_eq loopEntries]
  refine run_exists (p := fun t =>
    (recordsUnder (serdeCoreReading loopEntries).toExternals t.1.wal ("i", "k")).length = 2 ∧
      t.2.map Prod.fst = [("i", "k"), ("i", "k")] ∧ (t.2.map fun p => p.2.walOffset).Nodup)
    (by decide +kernel) ?_
  exact fun _ _ h => h

end Engine

end Rstmdb

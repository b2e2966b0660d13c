import Rstmdb.Core.Idempotency
import Rstmdb.Lib.Interleave

/-! Events with one idempotency key from many threads. The cache is looked up
before the instance lock is taken and not again under it, so a call that missed
the cache does not see what was cached while it waited for the lock. -/
namespace Rstmdb

/-- Where a call of `apply_event` stands between two atomic steps. -/
inductive ApplyPc
  | started
  /-- The cache had nothing; next is the section under the instance lock. -/
  | missed
  /-- The event is applied and the lock still held; next is the cache insert. -/
  | caching (result : ApplyResult)
  | done (result : Except CoreError ApplyResult)

structure ApplyCall where
  request : EventRequest
  pc : ApplyPc

/-- The engine, and whether the write lock of the instance is held. -/
structure SharedEngine where
  engine : Engine
  locked : Bool

namespace ApplyCall

/-- The next atomic step. A call that waits for the lock has none. -/
def next (X : CoreExternals) (s : SharedEngine) (call : ApplyCall) :
    Option (SharedEngine × ApplyCall) :=
  let r := call.request
  match call.pc with
  | .started =>
    match s.engine.cachedResult r.instanceId r.idempotencyKey with
    | some a => some (s, { call with pc := .done (.ok a) })
    | none => some (s, { call with pc := .missed })
  | .missed =>
    if s.locked then none
    else
      match s.engine.applyLocked X r with
      | none => none
      | some (engine, .error e) => some (⟨engine, false⟩, { call with pc := .done (.error e) })
      | some (engine, .ok a) => some (⟨engine, true⟩, { call with pc := .caching a })
  | .caching a =>
    some (⟨s.engine.cacheResult r.instanceId r.idempotencyKey a, false⟩,
      { call with pc := .done (.ok a) })
  | .done _ => none

/-- The next step takes the instance lock. -/
def entering (call : ApplyCall) : Bool :=
  match call.pc with
  | .missed => true
  | _ => false

/-- The result that the call has yet to cache. -/
def writing (call : ApplyCall) : Option ApplyResult :=
  match call.pc with
  | .caching a => some a
  | _ => none

/-- The result that the call has returned. -/
def returned (call : ApplyCall) : Option ApplyResult :=
  match call.pc with
  | .done (.ok a) => some a
  | _ => none

end ApplyCall

/-- The atomic steps of concurrent events on one instance, in any order. -/
def applySched (X : CoreExternals) :
    SharedEngine × List ApplyCall → Sched EventRequest → Option (SharedEngine × List ApplyCall) :=
  interleave (fun _ r => ⟨r, .started⟩) (ApplyCall.next X)

/-- All calls are for one instance and one key. -/
def SamePair (pair : String × String) (_ : SharedEngine × List ApplyCall) :
    Sched EventRequest → Prop
  | .spawn r => r.eventKey = some pair
  | .step _ => True

/-- A call enters its section under the lock only when nothing is cached for it. -/
def EntersUncached (s : SharedEngine × List ApplyCall) : Sched EventRequest → Prop
  | .spawn _ => True
  | .step k => ∀ call ∈ s.2[k]?, call.entering = true →
      (s.1.engine.cachedResult call.request.instanceId call.request.idempotencyKey).isNone = true

instance decidableSamePair (pair : String × String) (s : SharedEngine × List ApplyCall) :
    ∀ op, Decidable (SamePair pair s op)
  | .spawn r => inferInstanceAs (Decidable (r.eventKey = some pair))
  | .step _ => inferInstanceAs (Decidable True)

instance decidableEntersUncached (s : SharedEngine × List ApplyCall) :
    ∀ op, Decidable (EntersUncached s op)
  | .spawn _ => inferInstanceAs (Decidable True)
  | .step k => inferInstanceAs (Decidable (∀ call ∈ s.2[k]?, _ → _))

/-! ## A call alone -/

/-- A call that nothing comes between does what the sequential `apply_event` does. -/
theorem apply_alone (X : CoreExternals) {s s' : Engine} {r : EventRequest}
    {res : Except CoreError ApplyResult} (h : s.applyEvent X r = some (s', res)) :
    ∃ n, run (applySched X) (⟨s, false⟩, []) (.spawn r :: List.replicate n (.step 0)) =
      some (⟨s', false⟩, [⟨r, .done res⟩]) := by
  unfold Engine.applyEvent at h
  split at h
  · rename_i a hc
    cases h
    exact ⟨1, by simp [run, applySched, interleave, ApplyCall.next, hc]⟩
  rename_i hc
  split at h
  · cases h
  · rename_i s₁ e ha
    cases h
    exact ⟨2, by simp [run, applySched, interleave, ApplyCall.next, hc, ha]⟩
  · rename_i s₁ a ha
    cases h
    exact ⟨3, by simp [run, applySched, interleave, ApplyCall.next, hc, ha]⟩

/-! ## Calls together -/

/-- At most one call has logged an event, and whoever has returned has returned
its result: it is in the cache, or the call that logged it is about to put it there. -/
structure Single {X : CoreExternals} (m₀ : Memory) (es : List ReadEntry)
    (pair : String × String) (s : SharedEngine) (calls : List ApplyCall)
    (pre : List (Chunk X.toExternals)) (c : Chunk X.toExternals) : Prop where
  repr : s.engine.wal.Repr pre c
  clean : c.tail = []
  pairs : ∀ call ∈ calls, call.request.eventKey = some pair
  answers : ∀ call ∈ calls, ∀ a ∈ call.returned, s.engine.idempotencyCache[pair]? = some a
  stage : (entries (pre ++ [c]) = es ∧ s.engine.toMemory = m₀ ∧
      calls.filterMap ApplyCall.writing = []) ∨
    ∃ seq off entry a, entries (pre ++ [c]) = es ++ [(seq, off, entry)] ∧
      Changes X m₀ off.asU64 entry s.engine.toMemory ∧
      ((calls.filterMap ApplyCall.writing = [a] ∧ s.engine.idempotencyCache[pair]? = none ∧
          s.locked = true) ∨
        (calls.filterMap ApplyCall.writing = [] ∧ s.engine.idempotencyCache[pair]? = some a))

section
variable {X : CoreExternals} {m₀ : Memory} {es : List ReadEntry} {pair : String × String}
  {s s' : SharedEngine} {calls xs ys : List ApplyCall} {call call' : ApplyCall}
  {pre : List (Chunk X.toExternals)} {c : Chunk X.toExternals}

theorem cachedResult_of_pair {e : Engine} {r : EventRequest} (h : r.eventKey = some pair) :
    e.cachedResult r.instanceId r.idempotencyKey = e.idempotencyCache[pair]? := by
  rw [Engine.cachedResult_eq, h]
  rfl

section
variable (h : Single m₀ es pair s (xs ++ call :: ys) pre c)
include h

/-- A step that only moves its call, which has nothing to cache. -/
theorem Single.moved
    (hr : call'.request = call.request) (hw : call.writing = none) (hw' : call'.writing = none)
    (ha : ∀ a ∈ call'.returned, s.engine.idempotencyCache[pair]? = some a) :
    Single m₀ es pair s (xs ++ call' :: ys) pre c := by
  have hsame : (xs ++ call' :: ys).filterMap ApplyCall.writing =
      (xs ++ call :: ys).filterMap ApplyCall.writing := by
    rw [filterMap_middle, filterMap_middle, hw, hw']
  refine ⟨h.repr, h.clean, forall_replace h.pairs ?_, forall_replace h.answers ha, ?_⟩
  · rw [hr]
    exact h.pairs call (by simp)
  · rw [hsame]
    exact h.stage

theorem single_lookup (hpc : call.pc = .started) (hn : ApplyCall.next X s call = some (s', call')) :
    Single m₀ es pair s' (xs ++ call' :: ys) pre c := by
  have hw : call.writing = none := by simp [ApplyCall.writing, hpc]
  have hk := cachedResult_of_pair (e := s.engine) (h.pairs call (by simp))
  simp only [ApplyCall.next, hpc, hk] at hn
  split at hn
  · rename_i a hc
    cases hn
    refine h.moved rfl hw rfl ?_
    rintro b ⟨⟩
    exact hc
  · cases hn
    exact h.moved rfl hw rfl (by simp [ApplyCall.returned])

/-- The section under the lock, entered when nothing is cached: no other call can
have logged an event. -/
theorem single_section (hpc : call.pc = .missed) (hfresh : s.engine.idempotencyCache[pair]? = none)
    (hn : ApplyCall.next X s call = some (s', call')) :
    ∃ pre' c', Single (X := X) m₀ es pair s' (xs ++ call' :: ys) pre' c' := by
  have hw : call.writing = none := by simp [ApplyCall.writing, hpc]
  simp only [ApplyCall.next, hpc] at hn
  split at hn
  · cases hn
  rename_i hfree
  obtain ⟨he, hm, hnone⟩ | ⟨_, _, _, _, -, -, ⟨-, -, hl⟩ | ⟨-, hc⟩⟩ := h.stage
  · have hothers : xs.filterMap ApplyCall.writing = [] ∧ ys.filterMap ApplyCall.writing = [] := by
      rw [filterMap_middle, hw] at hnone
      simpa using hnone
    split at hn
    · cases hn
    · rename_i engine e ha
      cases hn
      cases Engine.applied_of_applyLocked ha with
      | rejected =>
        refine ⟨pre, c, h.repr, h.clean, forall_replace h.pairs (h.pairs call (by simp)),
          forall_replace h.answers (by simp [ApplyCall.returned]), .inl ⟨he, hm, ?_⟩⟩
        rw [filterMap_middle, hothers.1, hothers.2]
        rfl
      | refused failed =>
        obtain ⟨pre', c', hr, ht, he'⟩ := h.repr.append_clean h.clean failed
        refine ⟨pre', c', hr, ht, forall_replace h.pairs (h.pairs call (by simp)),
          forall_replace h.answers (by simp [ApplyCall.returned]),
          .inl ⟨Eq.trans he' he, hm, ?_⟩⟩
        rw [filterMap_middle, hothers.1, hothers.2]
        rfl
    · rename_i engine a ha
      cases hn
      cases Engine.applied_of_applyLocked ha with
      | @logged entry wal seq off m _ appended changes key id result =>
        obtain ⟨pre', c', hr, ht, he'⟩ := h.repr.append_clean h.clean appended
        refine ⟨pre', c', hr, ht, forall_replace h.pairs (h.pairs call (by simp)),
          forall_replace h.answers (by simp [ApplyCall.returned]),
          .inr ⟨seq, off, entry, a, ?_, hm ▸ changes, .inl ⟨?_, hfresh, rfl⟩⟩⟩
        · rw [he', he]
        · rw [filterMap_middle, hothers.1, hothers.2]
          rfl
  · exact absurd hl hfree
  · rw [hfresh] at hc
    cases hc

theorem single_insert {a : ApplyResult}
    (hpc : call.pc = .caching a) (hn : ApplyCall.next X s call = some (s', call')) :
    Single m₀ es pair s' (xs ++ call' :: ys) pre c := by
  have hw : call.writing = some a := by simp [ApplyCall.writing, hpc]
  have hk : call.request.eventKey = some pair := h.pairs call (by simp)
  obtain ⟨-, -, hnone⟩ | ⟨seq, off, entry, b, he, hch, ⟨hone, hc, -⟩ | ⟨hnone, -⟩⟩ := h.stage
  · simp [hw] at hnone
  · have hothers : xs.filterMap ApplyCall.writing = [] ∧ a = b ∧
        ys.filterMap ApplyCall.writing = [] := by
      rw [filterMap_middle, hw] at hone
      cases hl : xs.filterMap ApplyCall.writing with
      | nil => simpa [hl] using hone
      | cons x xs => simp [hl] at hone
    obtain ⟨hl₁, rfl, hl₂⟩ := hothers
    have hinsert : s.engine.cacheResult call.request.instanceId call.request.idempotencyKey a =
        { s.engine with idempotencyCache := s.engine.idempotencyCache.insert pair a } := by
      unfold EventRequest.eventKey at hk
      unfold Engine.cacheResult
      cases hkey : call.request.idempotencyKey with
      | none => simp [hkey] at hk
      | some key =>
        obtain rfl : (call.request.instanceId, key) = pair := by simpa [hkey] using hk
        rfl
    simp only [ApplyCall.next, hpc, hinsert] at hn
    cases hn
    refine ⟨h.repr, h.clean, forall_replace h.pairs hk, ?_,
      .inr ⟨seq, off, entry, a, he, hch, .inr ⟨?_, by simp⟩⟩⟩
    · -- Nobody has returned before: the cache had nothing to return.
      have hquiet : ∀ u ∈ xs ++ call :: ys, u.returned = none := by
        intro u hu
        cases hu' : u.returned with
        | none => rfl
        | some b =>
          have := h.answers u hu b hu'
          rw [hc] at this
          cases this
      refine forall_replace (t := call) ?_ ?_
      · intro u hu b hb
        rw [hquiet u hu] at hb
        cases hb
      · rintro b ⟨⟩
        simp
    · rw [filterMap_middle, hl₁, hl₂]
      rfl
  · simp [hw] at hnone

end

theorem single_step {op : Sched EventRequest} {calls' : List ApplyCall}
    (h : Single m₀ es pair s calls pre c) (same : SamePair pair (s, calls) op)
    (fresh : EntersUncached (s, calls) op)
    (hs : applySched X (s, calls) op = some (s', calls')) :
    ∃ pre' c', Single (X := X) m₀ es pair s' calls' pre' c' := by
  obtain ⟨r, rfl, rfl, rfl⟩ | ⟨k, xs, call, call', ys, rfl, hk, rfl, hn, rfl⟩ :=
    interleave_cases hs
  · have hsame : (calls ++ [(⟨r, .started⟩ : ApplyCall)]).filterMap ApplyCall.writing =
        calls.filterMap ApplyCall.writing := by
      rw [filterMap_middle]
      exact List.append_nil _
    refine ⟨pre, c, h.repr, h.clean, ?_, ?_, hsame ▸ h.stage⟩
    · simpa [or_imp, forall_and] using ⟨h.pairs, same⟩
    · simpa [or_imp, forall_and, ApplyCall.returned] using h.answers
  · cases hpc : call.pc with
    | started => exact ⟨pre, c, single_lookup h hpc hn⟩
    | missed =>
      have hnone := fresh call hk (by simp [ApplyCall.entering, hpc])
      rw [cachedResult_of_pair (h.pairs call (by simp)), Option.isNone_iff_eq_none] at hnone
      exact single_section h hpc hnone hn
    | caching a => exact ⟨pre, c, single_insert h hpc hn⟩
    | done res => simp [ApplyCall.next, hpc] at hn

/-- From any engine that sequential calls have left, on every schedule of events
for one instance and key in which no call enters the lock once a result is
cached: the log gains at most one entry, the memory changes by that entry only,
and all calls that return a result return the same. -/
theorem applied_by_one (X : CoreExternals) {config : WalConfig} {s₀ e : Engine}
    {ops₀ : List EngineOp} (hopen : Engine.new X config ∅ = some (.ok s₀))
    (hrun₀ : run (Engine.step X) s₀ ops₀ = some e) {pair : String × String}
    {ops : List (Sched EventRequest)} {t : SharedEngine × List ApplyCall}
    (same : Meets (applySched X) (SamePair pair) (⟨e, false⟩, []) ops)
    (fresh : Meets (applySched X) EntersUncached (⟨e, false⟩, []) ops)
    (hrun : run (applySched X) (⟨e, false⟩, []) ops = some t) :
    (∃ w es w' es', e.wal.readFrom X.toExternals ⟨0⟩ none = some (w, .ok es) ∧
      t.1.engine.wal.readFrom X.toExternals ⟨0⟩ none = some (w', .ok es') ∧
      ((es' = es ∧ t.1.engine.toMemory = e.toMemory) ∨
        ∃ seq off entry, es' = es ++ [(seq, off, entry)] ∧
          Changes X e.toMemory off.asU64 entry t.1.engine.toMemory)) ∧
    ∀ call ∈ t.2, ∀ call' ∈ t.2, ∀ a ∈ call.returned, ∀ a' ∈ call'.returned, a = a' := by
  obtain ⟨pre, c, hr⟩ := Engine.restorable_run hopen hrun₀
  have start : Single e.toMemory (entries (pre ++ [c])) pair ⟨e, false⟩ [] pre c :=
    ⟨hr.repr, hr.clean, by simp, by simp, .inl ⟨rfl, rfl, rfl⟩⟩
  obtain ⟨pre', c', h⟩ := run_keeps_of_meets
    (P := fun t => ∃ pre' c',
      Single (X := X) e.toMemory (entries (pre ++ [c])) pair t.1 t.2 pre' c')
    (fun _ _ _ ⟨_, _, h⟩ hg hs => single_step h hg.1 hg.2 hs) ⟨pre, c, start⟩ (same.and fresh) hrun
  constructor
  · obtain ⟨stats, hread⟩ := hr.repr.readFrom
    obtain ⟨stats', hread'⟩ := h.repr.readFrom
    refine ⟨_, _, _, _, hread, hread', ?_⟩
    obtain ⟨he, hm, -⟩ | ⟨seq, off, entry, a, he, hch, -⟩ := h.stage
    · exact .inl ⟨he, hm⟩
    · exact .inr ⟨seq, off, entry, he, hch⟩
  · intro call hcall call' hcall' a ha a' ha'
    have hc := h.answers call hcall a ha
    rw [h.answers call' hcall' a' ha'] at hc
    exact (Option.some.inj hc).symm

end

open Engine (loopMachine loopEvent loopEntries)

/-- An engine with a machine and an instance of it. -/
def loopSetup : List EngineOp :=
  [.putMachine "m" 1 loopMachine, .createInstance "i" "m" 1 .null none]

/-- The second call looks only when the first has cached its result. -/
def inTurn : List (Sched EventRequest) :=
  [.spawn (loopEvent (some "k")), .spawn (loopEvent (some "k")), .step 0, .step 0, .step 0,
    .step 1]

set_option maxRecDepth 4000 in
theorem applied_by_one_in_turn :
    ∃ e, run (Engine.step serdeCore) (Engine.fresh ⟨1000, .everyWrite⟩) loopSetup = some e ∧
      ∃ t, run (applySched serdeCore) (⟨e, false⟩, []) inTurn = some t ∧
        (t.2.filterMap ApplyCall.returned).length = 2 ∧
        ∀ call ∈ t.2, ∀ call' ∈ t.2, ∀ a ∈ call.returned, ∀ a' ∈ call'.returned, a = a' := by
  refine run_exists (p := fun e =>
    (run (applySched serdeCore) (⟨e, false⟩, []) inTurn).any
        (fun t => decide ((t.2.filterMap ApplyCall.returned).length = 2)) = true ∧
      Meets (applySched serdeCore) (SamePair ("i", "k")) (⟨e, false⟩, []) inTurn ∧
      Meets (applySched serdeCore) EntersUncached (⟨e, false⟩, []) inTurn) (by decide +kernel) ?_
  rintro e hrun₀ ⟨hend, same, fresh⟩
  refine run_exists hend ?_
  intro t hrun hlen
  exact ⟨hlen, (applied_by_one serdeCore (Engine.new_empty _ _) hrun₀ same fresh hrun).2⟩

/-- Both calls look before either has the lock. -/
def overlapping : List (Sched EventRequest) :=
  [.spawn (loopEvent (some "k")), .spawn (loopEvent (some "k")), .step 0, .step 1, .step 0,
    .step 0, .step 1, .step 1]

set_option maxRecDepth 4000 in
/-- Two overlapping calls under one key: both log the event, and their results differ. -/
theorem overlapping_calls_apply_twice :
    ∃ e, run (Engine.step serdeCore) (Engine.fresh ⟨1000, .everyWrite⟩) loopSetup = some e ∧
      recordsUnder serdeCore.toExternals e.wal ("i", "k") = [] ∧
      ∃ t, run (applySched serdeCore) (⟨e, false⟩, []) overlapping = some t ∧
        (recordsUnder serdeCore.toExternals t.1.engine.wal ("i", "k")).length = 2 ∧
        ((t.2.filterMap ApplyCall.returned).map ApplyResult.walOffset).length = 2 ∧
        ((t.2.filterMap ApplyCall.returned).map ApplyResult.walOffset).Nodup := by
  rw [← serdeCoreReading_eq loopEntries]
  let X := serdeCoreReading loopEntries
  refine run_exists (p := fun e => recordsUnder X.toExternals e.wal ("i", "k") = [] ∧
    (run (applySched X) (⟨e, false⟩, []) overlapping).any (fun t => decide (
      (recordsUnder X.toExternals t.1.engine.wal ("i", "k")).length = 2 ∧
      ((t.2.filterMap ApplyCall.returned).map ApplyResult.walOffset).length = 2 ∧
      ((t.2.filterMap ApplyCall.returned).map ApplyResult.walOffset).Nodup)) = true)
    (by decide +kernel) ?_
  rintro e - ⟨hbefore, hend⟩
  exact ⟨hbefore, run_exists hend fun _ _ h => h⟩

end Rstmdb

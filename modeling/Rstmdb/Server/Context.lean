import Rstmdb.Server.Calls
import Rstmdb.Server.Startup

/-! The context of an instance is the shallow merge of its initial context with
the payloads of its events, if it was created with an object. -/
namespace Rstmdb
open Json (Value Fields)

/-- The event request that a call makes on an instance. -/
def Call.eventOn (k : Call) (id : String) : Option ApplyEventParams :=
  if k.request.op = .applyEvent then
    (ApplyEventParams.fromValue k.request.params).filter (·.instanceId = id)
  else none

/-- The call is answered with ok. -/
def Call.succeeds (X : ServerExternals) (c : CommandHandler) (k : Call) : Bool :=
  (handle X c k.shared k.session k.request).any fun out => out.2.2.isOk

/-- The payload of a successful event on an instance. -/
def Call.payloadOn (X : ServerExternals) (c : CommandHandler) (id : String) (k : Call) :
    Option Value :=
  if k.succeeds X c then (k.eventOn id).map ApplyEventParams.payload else none

/-- The idempotency cache has an answer for the event. -/
def Call.eventCached (id : String) (k : Call) : Bool :=
  (k.eventOn id).any fun p =>
    (k.shared.engine.cachedResult p.instanceId p.idempotencyKey).isSome

/-- The context that a request for a new instance gives. -/
def givenCtx : Value → Option Value
  | .object params => Fields.get? params "initial_ctx"
  | .array params => params[3]?
  | _ => none

/-- The fields of the initial context as the interface defines it: those of the
object that is given, and none if the context is left out. -/
def initialFields (params : Value) : Option Fields :=
  match givenCtx params with
  | some (.object fields) => some fields
  | none => some []
  | some _ => none

/-- The value a key has after the payloads: that of the last payload with the key,
or else its initial value. -/
def lastValue (init : Fields) (payloads : List Fields) (k : String) : Option Value :=
  (payloads.reverse.findSome? (Fields.get? · k)).or (Fields.get? init k)

/-- An object with exactly these values. -/
def IsShallowMerge (init : Fields) (payloads : List Fields) (ctx : Value) : Prop :=
  ∃ fields, ctx = .object fields ∧ ∀ k, Fields.get? fields k = lastValue init payloads k

/-! ## Merging -/

theorem foldl_mergeCtx_object (payloads : List Fields)
    (h : ∀ p ∈ payloads, (p.map Prod.fst).Nodup) (init : Fields) :
    IsShallowMerge init payloads ((payloads.map Value.object).foldl mergeCtx (.object init)) := by
  induction payloads using List.reverseRecOn with
  | nil => exact ⟨init, rfl, fun k => rfl⟩
  | append_singleton payloads p ih =>
    obtain ⟨fields, hf, hget⟩ := ih fun q hq => h q (List.mem_append_left _ hq)
    refine ⟨p.foldl (fun result f => Fields.insert f.1 f.2 result) fields, ?_, fun k => ?_⟩
    · rw [List.map_append, List.foldl_append, hf]
      rfl
    · rw [Fields.get?_foldl_insert (h p (by simp)), hget]
      simp only [lastValue, List.reverse_append, List.reverse_singleton, List.singleton_append,
        List.findSome?_cons]
      cases Fields.get? p k <;> rfl

/-- Nothing is ever merged into null. -/
theorem foldl_mergeCtx_null (payloads : List Value) : payloads.foldl mergeCtx .null = .null := by
  induction payloads with
  | nil => rfl
  | cons p payloads ih => exact ih

/-! ## Calls -/

section
variable {X : ServerExternals} {c : CommandHandler} {s s' : Shared} {params : Value}
  {answer : Answered}

theorem handleApplyEvent_of_execute {ses ses' : Session}
    (h : execute X c s ses .applyEvent params = some (s', ses', answer)) :
    handleApplyEvent X s params = some (s', answer) := by
  obtain ⟨⟨s₁, answer₁⟩, ha, hout⟩ := Option.map_eq_some_iff.mp h
  obtain ⟨rfl, -, rfl⟩ : s₁ = s' ∧ ses = ses' ∧ answer₁ = answer := by simpa using hout
  exact ha

theorem handleApplyEvent_cases (h : handleApplyEvent X s params = some (s', answer)) :
    (s' = s ∧ ∃ e, answer = .error e) ∨
      ∃ p i res, ApplyEventParams.fromValue params = some p ∧
        s.engine.instances[p.instanceId]? = some i ∧
        s.engine.applyEvent X.toCoreExternals p.request = some (s'.engine, res) ∧
        ((∃ e e', res = .error e ∧ answer = .error e') ∨ ∃ a v, res = .ok a ∧ answer = .ok v) := by
  unfold handleApplyEvent at h
  split at h
  · cases h
    exact .inl ⟨rfl, _, rfl⟩
  rename_i p hp
  split at h
  · cases h
    exact .inl ⟨rfl, _, rfl⟩
  rename_i i hi
  right
  split at h
  · cases h
  · rename_i ha
    cases h
    exact ⟨p, i, _, hp, Engine.getInstance_ok hi, ha, .inl ⟨_, _, rfl, rfl⟩⟩
  · rename_i ha
    cases h
    exact ⟨p, i, _, hp, Engine.getInstance_ok hi, ha, .inr ⟨_, _, rfl, rfl⟩⟩

end

namespace Engine

theorem applyEvent_ctx {X : CoreExternals} {s s' : Engine} {r : EventRequest}
    {res : Except CoreError ApplyResult} (h : s.applyEvent X r = some (s', res)) {id : String}
    {i : Instance} (hi : s.instances[id]? = some i)
    (hc : r.instanceId = id → s.cachedResult r.instanceId r.idempotencyKey = none) :
    ∃ i', s'.instances[id]? = some i' ∧
      i'.ctx = if r.instanceId = id ∧ res.isOk = true then mergeCtx i.ctx r.payload else i.ctx := by
  by_cases hid : r.instanceId = id
  · subst hid
    unfold applyEvent at h
    rw [hc rfl] at h
    dsimp only at h
    split at h
    · cases h
    · rename_i ha
      cases h
      refine ⟨i, ?_, by simp [Except.isOk, Except.toBool]⟩
      cases applied_of_applyLocked ha with
      | rejected | refused => exact hi
    · rename_i s₁ a ha
      cases h
      obtain ⟨j, toState, wal, seq, off, hj, -, -, rfl, -⟩ := applyLocked_ok ha
      rw [hi] at hj
      cases hj
      refine ⟨i.applyTransition toState (mergeCtx i.ctx r.payload) r.eventId off.asU64, ?_, ?_⟩
      · cases r.idempotencyKey <;> simp [cacheResult]
      · simp [Except.isOk, Except.toBool, Instance.applyTransition]
  · refine ⟨i, ?_, by simp [hid]⟩
    cases logs_applyEvent h with
    | kept | refused => exact hi
    | logged appended changes meets =>
      obtain hk | ⟨hdelete, -⟩ := changes.instance_kept hi (.inr (by simp [meets.2.1, hid]))
      · exact hk
      · simp [meets.1] at hdelete

end Engine

theorem EngineTouched.ctx {X : CoreExternals} {e e' : Engine} {op : Operation}
    (h : EngineTouched X e op e') (hop : op ≠ .applyEvent) {id : String} {i : Instance}
    (hi : e.instances[id]? = some i) : ∃ i', e'.instances[id]? = some i' ∧ i'.ctx = i.ctx := by
  cases h with
  | called h =>
    cases h with
    | kept | refused => exact ⟨i, hi, rfl⟩
    | @logged entry _ _ _ _ _ changes meets =>
      have hentry : entry.entryType ≠ .applyEvent :=
        fun he => hop (Operation.eq_applyEvent (he ▸ meets))
      obtain hk | ⟨-, -, hk⟩ := changes.instance_kept hi (.inl hentry)
      · exact ⟨i, hk, rfl⟩
      · exact ⟨_, hk, rfl⟩
  | readLog | compacted => exact ⟨i, hi, rfl⟩

/-! ## Sequences of requests -/

/-- The context of an instance is what merging the payloads of the calls has made
of the context it started with. -/
def Merged (X : ServerExternals) (c : CommandHandler) (id : String) (ctx : Value) (l : List Call)
    (s : Shared) : Prop :=
  (∀ k ∈ l, k.eventCached id = false) →
    ∃ i, s.engine.instances[id]? = some i ∧
      i.ctx = (l.filterMap (Call.payloadOn X c id)).foldl mergeCtx ctx

section
variable {X : ServerExternals} {c : CommandHandler} {id : String} {ctx : Value}

variable {l : List Call} {s s' : Shared} {ses ses' : Session} {request : Request}
  {p : CreateInstanceParams}

theorem merged_entered (h : Merged X c id ctx l s)
    (hr : (c.requiresAuth request.op && !ses.authenticated) = true ∨ request.op = .batch) :
    Merged X c id ctx (l ++ [⟨s, ses, request⟩]) s := by
  intro hfresh
  obtain ⟨i, hi, hctx⟩ := h fun k hk => hfresh k (List.mem_append_left _ hk)
  have hnone : Call.payloadOn X c id ⟨s, ses, request⟩ = none := by
    unfold Call.payloadOn
    split
    · rename_i hok
      obtain hr | hb := hr
      · simp [Call.succeeds, handle_eq, hr, unauthorizedResponse, Response.failed,
          Response.isOk] at hok
      · simp [Call.eventOn, hb]
    · rfl
  exact ⟨i, hi, by simp [hnone, hctx]⟩

theorem merged_executed {answer : Answered} (h : Merged X c id ctx l s)
    (hr : (c.requiresAuth request.op && !ses.authenticated) = false)
    (he : execute X c s ses.recordRequest request.op request.params = some (s', ses', answer)) :
    Merged X c id ctx (l ++ [⟨s, ses, request⟩]) s' := by
  intro hfresh
  obtain ⟨i, hi, hctx⟩ := h fun k hk => hfresh k (List.mem_append_left _ hk)
  have hcall := hfresh ⟨s, ses, request⟩ (by simp)
  by_cases hop : request.op = .applyEvent
  · have hok : Call.succeeds X c ⟨s, ses, request⟩ = answer.isOk := by
      rw [Call.succeeds, handle_of_execute hr he]
      cases answer <;> rfl
    rw [hop] at he
    obtain ⟨rfl, e, rfl⟩ | ⟨p, j, res, hp, -, happly, hres⟩ :=
      handleApplyEvent_cases (handleApplyEvent_of_execute he)
    · refine ⟨i, hi, ?_⟩
      simp [Call.payloadOn, hok, Except.isOk, Except.toBool, hctx]
    · have hsame : answer.isOk = res.isOk := by
        obtain ⟨_, _, rfl, rfl⟩ | ⟨_, _, rfl, rfl⟩ := hres <;> rfl
      have hon : Call.eventOn ⟨s, ses, request⟩ id =
          if p.instanceId = id then some p else none := by
        simp [Call.eventOn, hop, hp, Option.filter]
      obtain ⟨i', hi', hctx'⟩ := Engine.applyEvent_ctx happly hi (by
        intro hid
        have hid' : p.instanceId = id := hid
        simpa [Call.eventCached, hon, hid', ApplyEventParams.request] using hcall)
      refine ⟨i', hi', ?_⟩
      rw [List.filterMap_append, List.foldl_append, ← hctx, hctx']
      simp only [Call.payloadOn, hok, hsame, hon, List.filterMap_cons, List.filterMap_nil,
        ApplyEventParams.request]
      by_cases hid : p.instanceId = id <;> cases res.isOk <;> simp [hid]
  · obtain ⟨i', hi', hctx'⟩ := (execute_engine he).ctx hop hi
    refine ⟨i', hi', ?_⟩
    simp [Call.payloadOn, Call.eventOn, hop, hctx', hctx]

/-! ## Creation -/

/-- The context that is read is the one given, and null if none is. -/
theorem initialCtx_eq {params : Value} (h : CreateInstanceParams.fromValue params = some p) :
    p.initialCtx = (givenCtx params).getD .null := by
  unfold CreateInstanceParams.fromValue at h
  split at h
  · rename_i vid machine version ctx key hread
    simp only [bind, Option.bind_eq_some_iff] at h
    obtain ⟨_, -, _, -, _, -, _, -, hp⟩ := h
    cases hp
    cases params with
    | object map =>
      simp only [readStruct, List.mapM_cons, List.mapM_nil, bind, pure,
        Option.bind_eq_some_iff] at hread
      obtain ⟨_, -, _, ⟨_, -, _, ⟨_, -, _, ⟨v, hctx, _, -, h₄⟩, h₃⟩, h₂⟩, h₁⟩ := hread
      cases h₄
      cases h₃
      cases h₂
      cases h₁
      simp only [readField] at hctx
      cases hget : Fields.get? map "initial_ctx" <;> rw [hget] at hctx <;> cases hctx <;>
        simp [givenCtx, hget]
    | array xs =>
      -- A positional context can only be left out together with the key, which cannot.
      rcases xs with _ | ⟨_, _ | ⟨_, _ | ⟨_, _ | ⟨d, _ | ⟨_, _ | ⟨_, xs⟩⟩⟩⟩⟩⟩ <;>
        simp [readStruct, readElements] at hread
      simp [givenCtx, hread]
    | _ => cases hread
  · cases h

/-- The id of the instance that a request creates. -/
def CreateInstanceParams.createdId (X : ServerExternals) (s : Shared) (p : CreateInstanceParams) :
    String :=
  p.instanceId.getD (X.uuid s.uuids)

theorem Engine.createInstance_ctx {X : CoreExternals} {s s' : Engine} {id machine : String}
    {version : UInt32} {ctx : Value} {key : Option String} {i : Instance} {n : Nat}
    (h : s.createInstance X id machine version ctx key = some (s', .ok (i, n)))
    (hnew : s.instances[id]? = none) : s'.instances[id]? = some i ∧ i.ctx = ctx := by
  have hbefore : s.createdBefore id key = none := by
    unfold createdBefore
    split
    · rfl
    · split
      · exact hnew
      · rfl
  unfold createInstance at h
  simp only [hbefore] at h
  split at h
  · cases h
  split at h
  · cases h
  split at h
  · cases h
  · cases h
  · cases h
    exact ⟨by simp, rfl⟩

/-- A successful creation leaves an instance with the context that was read. -/
theorem created_ctx {X : ServerExternals} {c : CommandHandler} {create : Request} {r : Response}
    (hop : create.op = .createInstance) (h : handle X c s ses create = some (s', ses', r))
    (hok : r.isOk = true) (hp : CreateInstanceParams.fromValue create.params = some p)
    (hnew : s.engine.instances[p.createdId X s]? = none) :
    ∃ i, s'.engine.instances[p.createdId X s]? = some i ∧ i.ctx = p.initialCtx := by
  obtain ⟨-, -, -, rfl⟩ | ⟨-, answer, rfl, ⟨hb, -⟩ | ⟨-, he⟩⟩ := handle_cases h
  · cases hok
  · rw [hop] at hb
    cases hb
  · rw [hop] at he
    obtain ⟨⟨s₁, answer₁⟩, hc, hout⟩ := Option.map_eq_some_iff.mp he
    obtain ⟨rfl, -, rfl⟩ : s₁ = s' ∧ _ ∧ answer₁ = answer := by simpa using hout
    unfold handleCreateInstance at hc
    simp only [hp] at hc
    unfold CreateInstanceParams.createdId at hnew ⊢
    cases hid : p.instanceId <;>
      simp only [hid, Option.getD_some, Option.getD_none] at hc hnew ⊢ <;>
    · split at hc
      · cases hc
      · cases hc
        cases hok
      · rename_i hcreate
        cases hc
        exact ⟨_, Engine.createInstance_ctx hcreate hnew⟩

/-- After a creation and a sequence of requests in which no event on the instance is
answered from the cache, the context is the shallow merge of the initial fields
with the payloads of the successful events, exactly if a context was given. -/
theorem ctx_merges_iff_given (X : ServerExternals) (c : CommandHandler) {s₀ s₁ s : Shared}
    {ses ses' : Session} {create : Request} {r : Response} {p : CreateInstanceParams}
    (hop : create.op = .createInstance)
    (hcreate : handle X c s₀ ses create = some (s₁, ses', r)) (hok : r.isOk = true)
    (hp : CreateInstanceParams.fromValue create.params = some p)
    (hnew : s₀.engine.instances[p.createdId X s₀]? = none)
    {init : Fields} (hinit : initialFields create.params = some init)
    {requests : List (Session × Request)} (hrun : run (serve X c) s₁ requests = some s)
    {payloads : List Fields}
    (hpayloads : (servedCalls X c s₁ requests).filterMap (Call.payloadOn X c (p.createdId X s₀)) =
      payloads.map Value.object)
    (hdistinct : ∀ q ∈ payloads, (q.map Prod.fst).Nodup)
    (huncached : ∀ k ∈ servedCalls X c s₁ requests, k.eventCached (p.createdId X s₀) = false) :
    ∃ i, s.engine.instances[p.createdId X s₀]? = some i ∧
      (IsShallowMerge init payloads i.ctx ↔ (givenCtx create.params).isSome = true) := by
  obtain ⟨i₁, hi₁, hctx₁⟩ := created_ctx hop hcreate hok hp hnew
  have hstart : Merged X c (p.createdId X s₀) p.initialCtx [] s₁ := fun _ => ⟨i₁, hi₁, hctx₁⟩
  have hend := served_keep (fun _ _ _ _ => merged_entered)
    (fun _ _ _ _ _ _ _ => merged_executed) hstart hrun
  rw [List.nil_append] at hend
  obtain ⟨i, hi, hctx⟩ := hend huncached
  refine ⟨i, hi, ?_⟩
  rw [hctx, hpayloads, initialCtx_eq hp]
  unfold initialFields at hinit
  cases hg : givenCtx create.params with
  | none =>
    rw [Option.getD_none, foldl_mergeCtx_null]
    simp [IsShallowMerge]
  | some v =>
    rw [hg] at hinit
    cases v <;> cases hinit
    simp only [Option.getD_some, Option.isSome_some, iff_true]
    exact foldl_mergeCtx_object payloads hdistinct init

def createWithObject : Request := createLoop "i" [("initial_ctx", .object [("a", .nat 1)])]

def twoEvents : List (Session × Request) :=
  anonymous [applyLoop "i" (.object [("b", .nat 2)]), applyLoop "i" (.object [("a", .nat 3)])]

def twoPayloads : List Fields := [[("b", .nat 2)], [("a", .nat 3)]]

set_option maxRecDepth 4000 in
/-- Two events on an instance that was created with an object. -/
theorem ctx_merges_of_object :
    let server := Server.fresh (openConfig 4096)
    ∃ s₀ s₁ ses r s,
      run (serve serdeServer server.handler) server.shared (anonymous [putLoop]) = some s₀ ∧
      handle serdeServer server.handler s₀ (Session.new false) createWithObject =
        some (s₁, ses, r) ∧
      run (serve serdeServer server.handler) s₁ twoEvents = some s ∧
      ∃ i, s.engine.instances["i"]? = some i ∧
        IsShallowMerge [("a", .nat 1)] twoPayloads i.ctx := by
  intro server
  have eval : (run (serve serdeServer server.handler) server.shared (anonymous [putLoop])).any
      (fun s₀ => s₀.engine.instances["i"]?.isNone &&
        (handle serdeServer server.handler s₀ (Session.new false) createWithObject).any fun out =>
          let calls := servedCalls serdeServer server.handler out.1 twoEvents
          out.2.2.isOk && (run (serve serdeServer server.handler) out.1 twoEvents).isSome &&
            (calls.filterMap (Call.payloadOn serdeServer server.handler "i")).map Json.toVec =
              (twoPayloads.map Value.object).map Json.toVec &&
            calls.all fun k => !k.eventCached "i") = true := by
    decide +kernel
  obtain ⟨s₀, hput, heval⟩ := (Option.any_eq_true _ _).mp eval
  obtain ⟨hnew, heval⟩ := Bool.and_eq_true_iff.mp heval
  obtain ⟨⟨s₁, ses, r⟩, hcreate, heval⟩ := (Option.any_eq_true _ _).mp heval
  simp only [Bool.and_eq_true, decide_eq_true_eq, List.all_eq_true, Bool.not_eq_true'] at heval
  obtain ⟨⟨⟨hok, hrun⟩, hpayloads⟩, huncached⟩ := heval
  obtain ⟨s, hrun⟩ := Option.isSome_iff_exists.mp hrun
  obtain ⟨i, hi, hmerge⟩ := @ctx_merges_iff_given serdeServer server.handler
    _ _ _ _ _ createWithObject _ _ rfl hcreate hok rfl (Option.isNone_iff_eq_none.mp hnew)
    _ rfl _ hrun _
    (List.map_injective_iff.mpr Json.toVec_injective hpayloads) (by decide) huncached
  exact ⟨s₀, s₁, ses, r, s, hput, hcreate, hrun, i, hi, hmerge.mpr rfl⟩

set_option maxRecDepth 4000 in
/-- An event with a payload on an instance that was created without a context: its
context is null. -/
theorem ctx_lost_without_initial :
    let server := Server.fresh (openConfig 4096)
    ∃ s₀ s₁ ses r s,
      run (serve serdeServer server.handler) server.shared (anonymous [putLoop]) = some s₀ ∧
      handle serdeServer server.handler s₀ (Session.new false) (createLoop "i" []) =
        some (s₁, ses, r) ∧ r.isOk = true ∧
      run (serve serdeServer server.handler) s₁
        (anonymous [applyLoop "i" (.object [("b", .nat 2)])]) = some s ∧
      (servedCalls serdeServer server.handler s₁
        (anonymous [applyLoop "i" (.object [("b", .nat 2)])])).all
          (Call.succeeds serdeServer server.handler) = true ∧
      ∃ i, s.engine.instances["i"]? = some i ∧ i.ctx = .null ∧
        ¬ IsShallowMerge [] [[("b", .nat 2)]] i.ctx := by
  intro server
  have eval : (run (serve serdeServer server.handler) server.shared (anonymous [putLoop])).any
      (fun s₀ =>
        (handle serdeServer server.handler s₀ (Session.new false)
          (createLoop "i" [])).any fun out =>
          out.2.2.isOk &&
            (servedCalls serdeServer server.handler out.1
              (anonymous [applyLoop "i" (.object [("b", .nat 2)])])).all
                (Call.succeeds serdeServer server.handler) &&
            (run (serve serdeServer server.handler) out.1
              (anonymous [applyLoop "i" (.object [("b", .nat 2)])])).any fun s =>
                s.engine.instances["i"]?.any fun i => i.ctx.isNull) = true := by
    decide +kernel
  obtain ⟨s₀, hput, heval⟩ := (Option.any_eq_true _ _).mp eval
  obtain ⟨⟨s₁, ses, r⟩, hcreate, heval⟩ := (Option.any_eq_true _ _).mp heval
  obtain ⟨heval, hrest⟩ := Bool.and_eq_true_iff.mp heval
  obtain ⟨hok, hsucceed⟩ := Bool.and_eq_true_iff.mp heval
  obtain ⟨s, hrun, hrest⟩ := (Option.any_eq_true _ _).mp hrest
  obtain ⟨i, hi, hnull⟩ := (Option.any_eq_true _ _).mp hrest
  have hctx : i.ctx = .null := by
    cases h : i.ctx <;> simp [h, Value.isNull] at hnull
    rfl
  exact ⟨s₀, s₁, ses, r, s, hput, hcreate, hok, hrun, hsucceed, i, hi, hctx,
    by simp [hctx, IsShallowMerge]⟩

end

end Rstmdb

import Rstmdb.Server.Subscriptions

/-! The work of one batch. Each batch is held to the limit by the number of its own
operations, and a batch in a batch is one operation of the outer one. So the limit bounds
the operations of one level, and not those of the request. -/
namespace Rstmdb
open Json (Value)

/-- The call executes an operation other than a batch. -/
def Call.executes (c : CommandHandler) (k : Call) : Bool :=
  k.request.op ≠ .batch && !(c.requiresAuth k.request.op && !k.session.authenticated)

/-- The operations of those calls that are let in, in order. -/
def admittedOps (c : CommandHandler) (l : List Call) : List Operation :=
  (l.filter fun k => !(c.requiresAuth k.request.op && !k.session.authenticated)).map (·.request.op)

/-- How many operations other than batches handling a request executes, at all levels. -/
def executedOps (X : ServerExternals) (c : CommandHandler) (s : Shared) (ses : Session)
    (request : Request) : Nat :=
  (calls X c s ses request).countP (Call.executes c)

/-- What the operations of a batch hold, up to the first that names no operation. -/
def leavesOf (leaves : Request → Nat) : List Value → Nat
  | [] => 0
  | op :: ops =>
    match batchRequest op with
    | none => 0
    | some inner => leaves inner + leavesOf leaves ops

def leavesWithin (limit : Nat) : Nat → Request → Nat
  | 0, _ => 0
  | depth + 1, request =>
    if request.op = .batch then
      match (request.params.index "ops").asArray with
      | none => 0
      | some ops => if limit < ops.length then 0 else leavesOf (leavesWithin limit depth) ops
    else 1

/-- The operations other than batches that a request holds, at all levels. A batch over
the limit holds none. -/
def leaves (c : CommandHandler) (request : Request) : Nat :=
  leavesWithin c.info.maxBatchOps.toNat (request.params.depth + 1) request

/-- The operations that those of a batch hold, up to the first that names no operation. -/
def operationsOf (operations : Request → List Operation) : List Value → List Operation
  | [] => []
  | op :: ops =>
    match batchRequest op with
    | none => []
    | some inner => operations inner ++ operationsOf operations ops

def operationsWithin (limit : Nat) : Nat → Request → List Operation
  | 0, _ => []
  | depth + 1, request =>
    request.op ::
      if request.op = .batch then
        match (request.params.index "ops").asArray with
        | none => []
        | some ops =>
          if limit < ops.length then [] else operationsOf (operationsWithin limit depth) ops
      else []

/-- The operation of a request and those in its batches, in order. A batch over the
limit holds none. -/
def operations (c : CommandHandler) (request : Request) : List Operation :=
  operationsWithin c.info.maxBatchOps.toNat (request.params.depth + 1) request

/-- A batch that stops at the first operation that fails. -/
def Request.atomic (request : Request) : Bool :=
  request.op = .batch && (((request.params.index "mode").asStr).getD "best_effort") = "atomic"

section
variable {X : ServerExternals} {c : CommandHandler}

variable {op : Value} {operations : Request → List Operation} {ses : Session} {s : Shared}
  {request : Request}

theorem batchCalls_none (calls : Shared → Session → Request → List Call) (mode : String)
    (h : batchRequest op = none) (ops : List Value) (s : Shared) (ses : Session) :
    batchCalls X c calls mode (op :: ops) s ses = [] := by
  unfold batchRequest at h
  rw [batchCalls]
  split
  · rfl
  rename_i opType htype
  rw [htype] at h
  simp only [Option.map_eq_none_iff] at h
  rw [h]

variable {inner : Request} {params : Value} {ops : List Value} {k : Call}
  {calls : Shared → Session → Request → List Call} {s' : Shared} {ses' : Session}

theorem batchCalls_some (calls : Shared → Session → Request → List Call) (mode : String)
    (h : batchRequest op = some inner) (ops : List Value) (s : Shared) (ses : Session) :
    batchCalls X c calls mode (op :: ops) s ses = calls s ses inner ++
      match handle X c s ses inner with
      | none => []
      | some (s, ses, response) =>
        if mode = "atomic" && response.isError then []
        else batchCalls X c calls mode ops s ses := by
  unfold batchRequest at h
  split at h
  · cases h
  rename_i opType htype
  obtain ⟨operation, hname, rfl⟩ := Option.map_eq_some_iff.mp h
  rw [batchCalls, htype]
  dsimp only
  exact hname ▸ rfl

theorem batchRequest_depth (hops : (params.index "ops").asArray = some ops) (hop : op ∈ ops)
    (h : batchRequest op = some inner) : inner.params.depth < params.depth := by
  unfold batchRequest at h
  split at h
  · cases h
  · rename_i opType htype
    obtain ⟨operation, -, rfl⟩ := Option.map_eq_some_iff.mp h
    exact depth_params_lt hops hop htype

/-! ## The operations in order -/

theorem admittedOps_append (l l' : List Call) :
    admittedOps c (l ++ l') = admittedOps c l ++ admittedOps c l' := by
  simp [admittedOps]

theorem admittedOps_admitted (h : (c.requiresAuth k.request.op && !k.session.authenticated) = false)
    (l : List Call) : admittedOps c (k :: l) = k.request.op :: admittedOps c l := by
  rw [admittedOps, List.filter_cons_of_pos (by simp [h]), List.map_cons]
  rfl

theorem admittedOps_refused (h : (c.requiresAuth k.request.op && !k.session.authenticated) = true)
    (l : List Call) : admittedOps c (k :: l) = admittedOps c l := by
  rw [admittedOps, List.filter_cons_of_neg (by simp [h])]
  rfl

theorem countP_executes (l : List Call) :
    l.countP (Call.executes c) = (admittedOps c l).countP (· ≠ .batch) := by
  rw [admittedOps, List.countP_map, List.countP_filter]
  rfl

theorem leavesOf_eq {leaves : Request → Nat}
    (h : ∀ inner, leaves inner = (operations inner).countP (· ≠ .batch)) (ops : List Value) :
    leavesOf leaves ops = (operationsOf operations ops).countP (· ≠ .batch) := by
  induction ops with
  | nil => rfl
  | cons op ops ih =>
    rw [leavesOf, operationsOf]
    split
    · rfl
    · rw [List.countP_append, h, ih]

theorem leavesWithin_eq (limit depth : Nat) (request : Request) :
    leavesWithin limit depth request =
      (operationsWithin limit depth request).countP (· ≠ .batch) := by
  induction depth generalizing request with
  | zero => rfl
  | succ depth ih =>
    rw [leavesWithin, operationsWithin]
    by_cases hop : request.op = .batch
    · rw [List.countP_cons_of_neg (by simp [hop]), if_pos hop, if_pos hop]
      split
      · rfl
      · split
        · rfl
        · exact leavesOf_eq ih _
    · simp [hop]

/-! ## At most what the request holds -/

theorem admittedOps_batchCalls_sublist
    (h : ∀ s ses inner, (admittedOps c (calls s ses inner)).Sublist (operations inner))
    (mode : String) (ops : List Value) (s : Shared) (ses : Session) :
    (admittedOps c (batchCalls X c calls mode ops s ses)).Sublist
      (operationsOf operations ops) := by
  induction ops generalizing s ses with
  | nil => exact List.Sublist.refl _
  | cons op ops ih =>
    rw [operationsOf]
    cases hrequest : batchRequest op with
    | none =>
      rw [batchCalls_none calls mode hrequest]
      exact List.Sublist.refl _
    | some inner =>
      rw [batchCalls_some calls mode hrequest, admittedOps_append]
      apply (h s ses inner).append
      split
      · exact List.nil_sublist _
      · split
        · exact List.nil_sublist _
        · exact ih _ _

theorem admittedOps_callsWithin_sublist (depth : Nat) (s : Shared) (ses : Session)
    (request : Request) :
    (admittedOps c (callsWithin X c depth s ses request)).Sublist
      (operationsWithin c.info.maxBatchOps.toNat depth request) := by
  induction depth generalizing s ses request with
  | zero => exact List.Sublist.refl _
  | succ depth ih =>
    rw [callsWithin, operationsWithin]
    cases hr : (c.requiresAuth request.op && !ses.authenticated) with
    | true =>
      rw [if_pos rfl, admittedOps_refused hr]
      exact List.nil_sublist _
    | false =>
      rw [if_neg Bool.false_ne_true, admittedOps_admitted hr]
      apply List.Sublist.cons_cons
      by_cases hop : request.op = .batch
      · rw [if_pos hop, if_pos hop]
        cases (request.params.index "ops").asArray with
        | none => exact List.Sublist.refl _
        | some ops =>
          simp only
          split
          · exact List.Sublist.refl _
          · exact admittedOps_batchCalls_sublist ih _ _ _ _
      · rw [if_neg hop, if_neg hop]
        exact List.Sublist.refl _

/-! ## All of it, where nothing stops a batch -/

/-- No operation is refused to the session. -/
def Admits (c : CommandHandler) (ses : Session) : Prop :=
  c.authRequired = true → ses.authenticated = true

theorem Admits.not_refused (h : Admits c ses) (op : Operation) :
    (c.requiresAuth op && !ses.authenticated) = false := by
  unfold CommandHandler.requiresAuth
  by_cases hr : c.authRequired = true
  · simp [h hr]
  · simp [hr]

theorem handleAuth_keeps (params : Value) (h : ses.authenticated = true) :
    (handleAuth X c ses params).1.authenticated = true := by
  unfold handleAuth
  repeat' split
  all_goals first | exact h | rfl

theorem execute_authenticated {op : Operation} {answer : Answered} (ha : ses.authenticated = true)
    (h : execute X c s ses op params = some (s', ses', answer)) : ses'.authenticated = true := by
  cases executed_of_execute h with
  | greeted => exact (handleHello_authenticated ses params).trans ha
  | authorized => exact handleAuth_keeps params ha
  | watched _ h => cases h <;> exact ha
  | worked | notified | saved | left | unwatched => exact ha

theorem Admits.handle {r : Response} (h : Admits c ses)
    (hh : handle X c s ses request = some (s', ses', r)) : Admits c ses' := by
  refine calls_keep (P := fun _ _ ses => Admits c ses) ?_ ?_ (l := []) h hh
  · exact fun _ _ _ _ hP _ => hP
  · intro _ s ses request s' ses' answer hP _ he hr
    have hauth : ses.recordRequest.authenticated = true := hP hr
    exact execute_authenticated hauth he

/-- A best effort batch that returns has let in all that its operations hold. -/
theorem admittedOps_batchCalls {mode : String} (hmode : mode ≠ "atomic")
    (h : ∀ op ∈ ops, ∀ inner, batchRequest op = some inner → ∀ s ses out, Admits c ses →
      handle X c s ses inner = some out → admittedOps c (calls s ses inner) = operations inner)
    (ha : Admits c ses) {out : Shared × Session × Except ServerError (List Value)}
    (hb : batchOps X (handle X c) mode ops s ses = some out) :
    admittedOps c (batchCalls X c calls mode ops s ses) = operationsOf operations ops := by
  induction ops generalizing s ses out with
  | nil => rfl
  | cons op ops ih =>
    rw [operationsOf]
    cases hrequest : batchRequest op with
    | none =>
      rw [batchCalls_none calls mode hrequest]
      rfl
    | some inner =>
      rw [batchOps_some hmode hrequest] at hb
      cases hh : Rstmdb.handle X c s ses inner with
      | none => simp [hh] at hb
      | some out₁ =>
        obtain ⟨s₁, ses₁, r⟩ := out₁
        have hfirst := h op List.mem_cons_self inner hrequest s ses _ ha hh
        have hrest {out : Shared × Session × Except ServerError (List Value)} :=
          @ih ses₁ s₁ (fun op' hop => h op' (List.mem_cons_of_mem op hop)) (ha.handle hh) out
        rw [batchCalls_some calls mode hrequest, hh, admittedOps_append, hfirst]
        simp only [hmode, decide_false, Bool.false_and, Bool.false_eq_true, if_false]
        simp only [hh] at hb
        congr 1
        split at hb
        · cases hb
        · exact hrest ‹_›
        · exact hrest ‹_›

theorem admittedOps_callsWithin (depth : Nat) (hdepth : request.params.depth < depth)
    (ha : Admits c ses) (hmode : ∀ inner ∈ requestsWithin depth request, inner.atomic = false)
    {out : Shared × Session × Response} (hh : handle X c s ses request = some out) :
    admittedOps c (callsWithin X c depth s ses request) =
      operationsWithin c.info.maxBatchOps.toNat depth request := by
  induction depth generalizing s ses request out with
  | zero => omega
  | succ depth ih =>
    obtain ⟨s', ses', r⟩ := out
    rw [callsWithin, operationsWithin, if_neg (by simp [ha.not_refused]),
      admittedOps_admitted (ha.not_refused _)]
    congr 1
    obtain ⟨hr, -⟩ | ⟨-, answer, -, ⟨hop, hb⟩ | ⟨hop, -⟩⟩ := handle_cases hh
    · simp [ha.not_refused] at hr
    · rw [if_pos hop, if_pos hop]
      unfold handleBatch at hb
      rw [requestsWithin, if_pos hop] at hmode
      have hbest : ((request.params.index "mode").asStr).getD "best_effort" ≠ "atomic" := by
        have := hmode request List.mem_cons_self
        simpa [Request.atomic, hop] using this
      cases hops : (request.params.index "ops").asArray with
      | none => rfl
      | some ops =>
        simp only [hops] at hb ⊢
        split at hb
        · rename_i hlong
          rw [if_pos hlong, if_pos hlong]
          rfl
        rename_i hfits
        rw [if_neg hfits, if_neg hfits]
        have hinner : ∀ op ∈ ops, ∀ inner, batchRequest op = some inner →
            ∀ s ses out, Admits c ses → Rstmdb.handle X c s ses inner = some out →
              admittedOps c (callsWithin X c depth s ses inner) =
                operationsWithin c.info.maxBatchOps.toNat depth inner := by
          intro op hop' inner hinner s ses out ha hh
          refine ih ?_ ha ?_ hh
          · have := batchRequest_depth hops hop' hinner
            omega
          · intro k hk
            apply hmode
            refine List.mem_cons_of_mem _
              (List.mem_flatMap.mpr ⟨op, by simpa [hops] using hop', ?_⟩)
            rwa [hinner]
        split at hb
        · cases hb
        · exact admittedOps_batchCalls hbest hinner ha ‹_›
        · exact admittedOps_batchCalls hbest hinner ha ‹_›
    · rw [if_neg hop, if_neg hop]
      rfl

theorem admits_of_batch (hbatch : request.op = .batch)
    (hadmitted : (c.requiresAuth request.op && !ses.authenticated) = false) : Admits c ses := by
  intro hr
  simpa [CommandHandler.requiresAuth, hr, hbatch] using hadmitted

/-- A batch that is let in executes no more than the limit if it holds no more at all
its levels. If none of its batches stops at a failure, it does so only then. -/
theorem batch_work_iff (X : ServerExternals) (c : CommandHandler) (s : Shared) (ses : Session)
    (request : Request) (hbatch : request.op = .batch)
    (hadmitted : (c.requiresAuth request.op && !ses.authenticated) = false) :
    (leaves c request ≤ c.info.maxBatchOps.toNat →
        executedOps X c s ses request ≤ c.info.maxBatchOps.toNat) ∧
      ((∀ inner ∈ nested request, inner.atomic = false) →
        (handle X c s ses request).isSome = true →
          (executedOps X c s ses request ≤ c.info.maxBatchOps.toNat ↔
            leaves c request ≤ c.info.maxBatchOps.toNat)) := by
  constructor
  · intro hleaves
    rw [leaves, leavesWithin_eq] at hleaves
    rw [executedOps, countP_executes]
    exact ((admittedOps_callsWithin_sublist _ s ses request).countP_le).trans hleaves
  · intro hmode hreturns
    obtain ⟨out, hh⟩ := Option.isSome_iff_exists.mp hreturns
    rw [executedOps, countP_executes, leaves, leavesWithin_eq, calls,
      admittedOps_callsWithin _ (Nat.lt_succ_self _) (admits_of_batch hbatch hadmitted) hmode hh]

end

/-- A batch of as many pings. -/
def pings (n : Nat) : Value :=
  .object [("op", .string "BATCH"), ("params", batchOf (List.replicate n pingOp))]

/-- A batch of two batches that stay within the limit together. -/
theorem batch_work_of_pings :
    let server := Server.fresh (openConfig 1000)
    let request : Request := ⟨"r", .batch, batchOf [pings 2, pings 3]⟩
    executedOps serdeServer server.handler server.shared (.new false) request ≤
        server.handler.info.maxBatchOps.toNat ∧
      leaves server.handler request = 5 := by
  intro server request
  have hleaves : leaves server.handler request = 5 := by decide +kernel
  have hlimit : server.handler.info.maxBatchOps.toNat = 100 := rfl
  exact ⟨(batch_work_iff serdeServer server.handler server.shared (.new false) request rfl
    rfl).1 (by omega), hleaves⟩

/-- A batch of two batches of 51 operations, each within the limit of 100. -/
theorem nested_batches_exceed_limit :
    let server := Server.fresh (openConfig 1000)
    let request : Request := ⟨"r", .batch, batchOf [pings 51, pings 51]⟩
    (∃ s ses r, handle serdeServer server.handler server.shared (.new false) request =
        some (s, ses, r) ∧ r.isOk = true) ∧
      server.handler.info.maxBatchOps.toNat = 100 ∧
      executedOps serdeServer server.handler server.shared (.new false) request = 102 := by
  intro server request
  refine ⟨?_, rfl, ?_⟩
  · have h : (handle serdeServer server.handler server.shared (.new false) request).any
        (fun out => out.2.2.isOk) = true := by decide +kernel
    obtain ⟨⟨s, ses, r⟩, hh, hok⟩ := (Option.any_eq_true _ _).mp h
    exact ⟨s, ses, r, hh, hok⟩
  · decide +kernel

end Rstmdb

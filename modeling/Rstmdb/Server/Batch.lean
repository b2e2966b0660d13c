import Rstmdb.Server.Startup

/-! Batches against their operations one by one. An operation that fails is one more
result of the batch, but one that names no operation ends it: what was done before
stays done, and its results are lost. -/
namespace Rstmdb
open Json (Value)

/-- The request that an element of the `ops` stands for, if it names an operation. -/
def batchRequest (op : Value) : Option Request :=
  match (op.index "op").asStr with
  | none => none
  | some opType =>
    (Operation.ofName opType).map fun operation => ⟨"batch", operation, op.index "params"⟩

/-- The operations one after the other, each as a request of its own. One that cannot
be read fails and changes nothing. -/
def oneByOne (X : ServerExternals) (c : CommandHandler) :
    List Value → Shared → Session → Handled (List (Option Response))
  | [], s, ses => some (s, ses, [])
  | op :: ops, s, ses =>
    match batchRequest op with
    | none => (oneByOne X c ops s ses).map fun (s, ses, rs) => (s, ses, none :: rs)
    | some request =>
      match handle X c s ses request with
      | none => none
      | some (s, ses, response) =>
        (oneByOne X c ops s ses).map fun (s, ses, rs) => (s, ses, some response :: rs)

/-- The status that a batch reports for an operation. -/
def batchStatus : Option Response → String
  | some r => if r.isOk then "ok" else "error"
  | none => "error"

theorem status_batchResult (r : Response) :
    ((batchResult r).index "status").asStr = some (batchStatus (some r)) := by
  simp [batchResult, batchStatus, Value.obj, Value.index, Json.Fields.ofList,
    Json.Fields.get?_insert, Value.asStr]

section
variable {X : ServerExternals} {c : CommandHandler} {mode : String} {op : Value}
  {ops : List Value} {s s' : Shared} {ses ses' : Session} {rs : List (Option Response)}

theorem batchOps_none (h : batchRequest op = none) :
    ∃ e, batchOps X (handle X c) mode (op :: ops) s ses = some (s, ses, .error e) := by
  unfold batchRequest at h
  simp only [batchOps]
  cases htype : (op.index "op").asStr with
  | none => exact ⟨_, rfl⟩
  | some opType =>
    simp only [htype, Option.map_eq_none_iff] at h
    simp only [h]
    exact ⟨_, rfl⟩

/-- Outside the atomic mode, an operation is handled and the batch goes on. -/
theorem batchOps_some (hmode : mode ≠ "atomic") {request : Request}
    (h : batchRequest op = some request) :
    batchOps X (handle X c) mode (op :: ops) s ses =
      match handle X c s ses request with
      | none => none
      | some (s, ses, response) =>
        match batchOps X (handle X c) mode ops s ses with
        | none => none
        | some (s, ses, .error e) => some (s, ses, .error e)
        | some (s, ses, .ok results) => some (s, ses, .ok (batchResult response :: results)) := by
  unfold batchRequest at h
  split at h
  · cases h
  rename_i opType htype
  obtain ⟨operation, hname, rfl⟩ := Option.map_eq_some_iff.mp h
  rw [batchOps, htype]
  simp only [hmode, decide_false, Bool.false_and, Bool.false_eq_true, if_false]
  exact hname ▸ rfl

theorem oneByOne_some {request : Request} (h : batchRequest op = some request)
    (hone : oneByOne X c (op :: ops) s ses = some (s', ses', rs)) :
    ∃ s₁ ses₁ response rest, handle X c s ses request = some (s₁, ses₁, response) ∧
      oneByOne X c ops s₁ ses₁ = some (s', ses', rest) ∧ rs = some response :: rest := by
  simp only [oneByOne, h] at hone
  split at hone
  · cases hone
  rename_i s₁ ses₁ response hhandle
  obtain ⟨⟨s₂, ses₂, rest⟩, hrest, heq⟩ := Option.map_eq_some_iff.mp hone
  cases heq
  exact ⟨s₁, ses₁, response, rest, hhandle, hrest, rfl⟩

theorem batchOps_readable (hmode : mode ≠ "atomic")
    (hread : ∀ op ∈ ops, (batchRequest op).isSome = true)
    (hone : oneByOne X c ops s ses = some (s', ses', rs)) :
    ∃ responses : List Response, rs = responses.map some ∧
      batchOps X (handle X c) mode ops s ses =
        some (s', ses', .ok (responses.map batchResult)) := by
  induction ops generalizing s ses rs with
  | nil =>
    cases hone
    exact ⟨[], rfl, rfl⟩
  | cons op ops ih =>
    obtain ⟨request, hrequest⟩ := Option.isSome_iff_exists.mp (hread op List.mem_cons_self)
    obtain ⟨s₁, ses₁, response, rest, hhandle, hrest, rfl⟩ := oneByOne_some hrequest hone
    obtain ⟨responses, rfl, hbatch⟩ :=
      ih (fun op' hop => hread op' (List.mem_cons_of_mem op hop)) hrest
    refine ⟨response :: responses, rfl, ?_⟩
    rw [batchOps_some hmode hrequest, hhandle]
    simp only [hbatch, List.map_cons]

theorem batchOps_unreadable (hmode : mode ≠ "atomic") (hbad : ∃ op ∈ ops, batchRequest op = none)
    (hone : oneByOne X c ops s ses = some (s', ses', rs)) :
    ∃ s₁ ses₁ e, batchOps X (handle X c) mode ops s ses = some (s₁, ses₁, .error e) := by
  induction ops generalizing s ses rs with
  | nil => simp at hbad
  | cons op ops ih =>
    cases hrequest : batchRequest op with
    | none =>
      obtain ⟨e, hbatch⟩ := @batchOps_none X c mode _ ops s ses hrequest
      exact ⟨s, ses, e, hbatch⟩
    | some request =>
      have hlater : ∃ op' ∈ ops, batchRequest op' = none := by
        simpa [hrequest] using hbad
      obtain ⟨s₁, ses₁, response, rest, hhandle, hrest, rfl⟩ := oneByOne_some hrequest hone
      obtain ⟨s₂, ses₂, e, hbatch⟩ := ih hlater hrest
      refine ⟨s₂, ses₂, e, ?_⟩
      rw [batchOps_some hmode hrequest, hhandle]
      simp only [hbatch]

/-- A best effort batch of no more operations than allowed returns a result for each,
with the status it has when the operations are handled one by one, and leaves the state
that they leave, exactly when every element of it names an operation. -/
theorem best_effort_iff {params : Value}
    (hmode : ((params.index "mode").asStr).getD "best_effort" ≠ "atomic")
    (hops : (params.index "ops").asArray = some ops)
    (hlimit : ops.length ≤ c.info.maxBatchOps.toNat)
    (hone : oneByOne X c ops s ses = some (s', ses', rs)) :
    (∃ results, handleBatch X c (handle X c) s ses params =
          some (s', ses', .ok (.obj [("results", .array results)])) ∧
        results.map (fun r => (r.index "status").asStr) = rs.map fun r => some (batchStatus r)) ↔
      ∀ op ∈ ops, (batchRequest op).isSome = true := by
  simp only [handleBatch, hops, Nat.not_lt.mpr hlimit, if_false]
  constructor
  · rintro ⟨results, hbatch, -⟩
    by_contra hbad
    have hbad : ∃ op ∈ ops, batchRequest op = none := by simpa using hbad
    obtain ⟨s₁, ses₁, e, herror⟩ := batchOps_unreadable hmode hbad hone
    rw [herror] at hbatch
    cases hbatch
  · intro hread
    obtain ⟨responses, rfl, hbatch⟩ := batchOps_readable hmode hread hone
    refine ⟨responses.map batchResult, by rw [hbatch], ?_⟩
    rw [List.map_map, List.map_map]
    exact List.map_congr_left fun r _ => status_batchResult r

end

/-- A batch of these operations. -/
def batchOf (ops : List Value) : Value :=
  .object [("mode", .string "best_effort"), ("ops", .array ops)]

def pingOp : Value := .object [("op", .string "PING")]

/-- An instance that is not there, between two that work. -/
theorem best_effort_with_failure :
    let missing : Value := .object [("op", .string "GET_INSTANCE"),
      ("params", .object [("instance_id", .string "i")])]
    let server := Server.fresh (openConfig 1000)
    ∃ s' ses' results,
      handleBatch serdeServer server.handler (handle serdeServer server.handler) server.shared
          (.new false) (batchOf [pingOp, missing, pingOp]) =
        some (s', ses', .ok (.obj [("results", .array results)])) ∧
      results.map (fun r => (r.index "status").asStr) = [some "ok", some "error", some "ok"] := by
  intro missing server
  obtain ⟨s', ses', rs, hone, hstatus⟩ : ∃ s' ses' rs,
      oneByOne serdeServer server.handler [pingOp, missing, pingOp] server.shared (.new false) =
        some (s', ses', rs) ∧ rs.map batchStatus = ["ok", "error", "ok"] := ⟨_, _, _, rfl, rfl⟩
  obtain ⟨results, hbatch, hresults⟩ := (@best_effort_iff _ _ _ _ _ _ _ _
    (batchOf [pingOp, missing, pingOp]) (by decide) rfl (by decide) hone).mpr (by decide)
  refine ⟨s', ses', results, hbatch, hresults.trans ?_⟩
  rw [← Function.comp_def some, ← List.map_map, hstatus]
  rfl

/-- A text that names no operation, between two that work: the batch fails. -/
theorem unknown_operation_fails_batch :
    let unknown : Value := .object [("op", .string "NOPE")]
    let server := Server.fresh (openConfig 1000)
    (∃ s' ses' rs,
      oneByOne serdeServer server.handler [pingOp, unknown, pingOp] server.shared (.new false) =
        some (s', ses', rs) ∧ rs.map batchStatus = ["ok", "error", "ok"]) ∧
    ∃ s' ses' e,
      handleBatch serdeServer server.handler (handle serdeServer server.handler) server.shared
          (.new false) (batchOf [pingOp, unknown, pingOp]) = some (s', ses', .error e) :=
  ⟨⟨_, _, _, rfl, rfl⟩, _, _, _, rfl⟩

end Rstmdb

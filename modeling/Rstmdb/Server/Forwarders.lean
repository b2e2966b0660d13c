import Rstmdb.Server.Subscriptions

/-! The tasks that forward events, against the subscriptions of the session. -/
namespace Rstmdb
open Json (Value)

/-- The session has exactly the subscriptions for which there is a task, and each task
listens to the channel of its subscription. -/
def Connection.Served (conn : Connection) : Prop :=
  ∀ id : String, (conn.session.subscriptions[id]?).map SessionSubscriptionType.channel =
    (conn.subscriptionTasks[id]?).map (·.receiver.channel)

/-- The handler refuses the operation for want of authentication. -/
def CommandHandler.refuses (c : CommandHandler) (ses : Session) (op : Operation) : Bool :=
  c.requiresAuth op && !ses.authenticated

/-- The subscription that a request to unwatch takes out of the session. -/
def removedId (c : CommandHandler) (ses : Session) (request : Request) : Option String :=
  if c.refuses ses request.op then none
  else (UnwatchParams.fromValue request.params).map (·.subscriptionId)

/-- The request takes a subscription of the connection out of the session exactly if it
ends its task, and watches at the top level only. -/
def Connection.inStep (c : CommandHandler) (conn : Connection) (request : Request) : Bool :=
  match request.op with
  | .watchInstance | .watchAll => true
  | .unwatch => conn.session.subscriptions.keys.all fun id =>
    (removedId c conn.session request == some id) == (abortedId request == some id)
  | op => c.refuses conn.session op || (nested request).all fun inner =>
    inner.op ∉ watchOps && (inner.op != .unwatch ||
      (UnwatchParams.fromValue inner.params).all fun p =>
        !conn.session.subscriptions.contains p.subscriptionId)

/-- The step is not a request of the connection that is out of step. -/
def Hub.inStep (k : Nat) (hub : Hub) : HubOp → Bool
  | .connection j (.request request _) =>
    j ≠ k || (hub.connections[k]?).all (·.inStep hub.server.handler request)
  | _ => true

theorem getElem?_without {α : Type} (t : Table String α) (id : Option String) (a : String) :
    (without t id)[a]? = if id = some a then none else t[a]? := by
  cases id with
  | none => simp [without]
  | some id => simp [without, Std.ExtTreeMap.getElem?_erase]

theorem without_absent {α : Type} {t : Table String α} {id : String} (h : id ∉ t) :
    without t (some id) = t := by
  apply Std.ExtTreeMap.ext_getElem?
  intro a
  rw [getElem?_without]
  split
  · rename_i ha
    cases ha
    exact (Std.ExtTreeMap.getElem?_eq_none h).symm
  · rfl

section
variable {X : ServerExternals} {c : CommandHandler} {s s' : Shared} {conn conn' : Connection}
  {request : Request} {r : Response}

/-! ## What a request does to the tasks -/

/-- A request to unwatch erases the id it names from the session, unless it is refused. -/
theorem handle_unwatch {ses ses' : Session} (hop : request.op = .unwatch)
    (h : handle X c s ses request = some (s', ses', r)) :
    ses'.subscriptions = without ses.subscriptions (removedId c ses request) := by
  unfold removedId CommandHandler.refuses
  obtain ⟨hr, -, rfl, -⟩ | ⟨hr, answer, -, ⟨hbatch, -⟩ | ⟨-, he⟩⟩ := handle_cases h
  · rw [if_pos hr]
    rfl
  · rw [hop] at hbatch
    cases hbatch
  · rw [if_neg (Bool.eq_false_iff.mp hr)]
    simp only [hop, execute, handleUnwatch, Option.some.injEq] at he
    split at he <;> cases he <;> rename_i hp <;> rw [hp] <;> rfl

namespace Connection

/-! ## Tasks and subscriptions -/

theorem Served.task (h : conn.Served) {id : String} {task : Forwarder}
    (htask : conn.subscriptionTasks[id]? = some task) (task' : Forwarder)
    (hchannel : task'.receiver.channel = task.receiver.channel)
    (hses : conn'.session = conn.session)
    (htasks : conn'.subscriptionTasks = conn.subscriptionTasks.insert id task') :
    conn'.Served := by
  intro a
  rw [hses, htasks, h a]
  by_cases ha : a = id
  · rw [ha, htask, Std.ExtTreeMap.getElem?_insert_self]
    simp [hchannel]
  · rw [Table.getElem?_insert_ne ha]

theorem handle_subscriptions {ses' : Session} (hwatch : request.op ∉ watchOps)
    (hunwatch : request.op ≠ .unwatch) (hc : conn.inStep c request = true)
    (h : handle X c s conn.session request = some (s', ses', r)) :
    ses'.subscriptions = conn.session.subscriptions := by
  have hc : c.refuses conn.session request.op = true ∨ ∀ inner ∈ nested request,
      inner.op ∉ watchOps ∧ (inner.op = .unwatch → ∀ p,
        UnwatchParams.fromValue inner.params = some p →
          p.subscriptionId ∉ conn.session.subscriptions) := by
    have hc : (c.refuses conn.session request.op || (nested request).all fun inner =>
        inner.op ∉ watchOps && (inner.op != .unwatch ||
          (UnwatchParams.fromValue inner.params).all fun p =>
            !conn.session.subscriptions.contains p.subscriptionId)) = true := by
      unfold inStep at hc
      split at hc <;> simp_all [watchOps]
    simp only [Bool.or_eq_true, List.all_eq_true, Bool.and_eq_true, decide_eq_true_eq,
      bne_iff_ne, Option.all_eq_true, Bool.not_eq_true'] at hc
    refine hc.imp_right fun hquiet inner hinner => ⟨(hquiet inner hinner).1, fun hop p hp hin => ?_⟩
    have hout := (hquiet inner hinner).2.resolve_left (not_not_intro hop) p hp
    rw [Std.ExtTreeMap.mem_iff_contains, hout] at hin
    cases hin
  obtain hrefused | hquiet := hc
  · obtain ⟨-, -, rfl, -⟩ | ⟨hr, -⟩ := handle_cases h
    · rfl
    · rw [CommandHandler.refuses, hr] at hrefused
      cases hrefused
  · refine handle_keeps (P := fun _ ses => ses.subscriptions = conn.session.subscriptions)
      (fun inner => inner.op ∉ watchOps ∧ (inner.op = .unwatch → ∀ p,
        UnwatchParams.fromValue inner.params = some p →
          p.subscriptionId ∉ conn.session.subscriptions))
      (fun _ _ hP => hP) ?_ rfl hquiet h
    intro s ses inner s' ses' answer hP hgood he
    cases execute_resubscribed he with
    | kept _ session _ => exact session.trans hP
    | added hop => exact absurd hop hgood.1
    | removed hop p hp _ session _ =>
      have hnot := hgood.2 hop p hp
      have hses : ses.recordRequest.subscriptions = conn.session.subscriptions := hP
      rw [session, hses]
      exact without_absent hnot

theorem Served.dispatched (h : conn.Served) (hc : conn.inStep c request = true)
    (hd : dispatch X c s conn request = some (s', conn', r)) : conn'.Served := by
  cases dispatched_of_dispatch hd with
  | refused => exact h
  | watched _ hw =>
    cases hw with
    | added _ _ _ channel =>
      intro a
      by_cases ha : a = subscriptionId X s
      · simp [ha, channel]
      · rw [Table.getElem?_insert_ne ha, Table.getElem?_insert_ne ha]
        exact h a
  | unwatched hop hh =>
    simp only [inStep, hop, List.all_eq_true, beq_iff_eq] at hc
    intro a
    rw [handle_unwatch hop hh, getElem?_without, getElem?_without]
    cases ha : conn.session.subscriptions[a]? with
    | none =>
      have hnone := h a
      rw [ha, Option.map_none, eq_comm, Option.map_eq_none_iff] at hnone
      simp [hnone]
    | some kind =>
      have hmem : a ∈ conn.session.subscriptions.keys := by
        rw [Std.ExtTreeMap.mem_keys, Std.ExtTreeMap.mem_iff_isSome_getElem?, ha]
        rfl
      have hsame := hc a hmem
      rw [Bool.eq_iff_iff, beq_iff_eq, beq_iff_eq] at hsame
      simp only [hsame]
      split
      · rfl
      · rw [← ha]
        exact h a
  | handled hwatch hunwatch hh =>
    intro a
    rw [← h a]
    congr 2
    exact handle_subscriptions hwatch hunwatch hc hh

theorem Served.step (h : conn.Served) {op : ConnectionOp}
    (hc : ∀ request written, op = .request request written → conn.inStep c request = true)
    (hs : conn.step X c s op = some (s', conn')) (hopen : conn'.isOpen = true) :
    conn'.Served := by
  cases steps_of_step hs with
  | answered _ hd =>
    have hserved := h.dispatched (hc _ _ rfl) hd
    exact hserved
  | received htask channel => exact h.task htask _ channel rfl rfl
  | @sent _ task htask => exact h.task htask { task with waiting := none } rfl rfl rfl
  | cancelled _ hclosed => exact absurd hopen (by simp [hclosed])
  | delivered => exact h
  | panicked | unanswered | closed | undelivered | hungUp | failed => cases hopen

end Connection

namespace Hub

variable {hub hub' : Hub} {k : Nat}

/-- The connection is served while it is open. -/
def Served (k : Nat) (hub : Hub) : Prop :=
  ∀ conn, hub.connections[k]? = some conn → conn.isOpen = true → conn.Served

theorem Served.step (h : hub.Served k) {op : HubOp} (hc : hub.inStep k op = true)
    (hs : hub.step X op = some hub') : hub'.Served k := by
  intro conn' hk' hopen'
  obtain hk | ⟨-, rfl⟩ | ⟨cop, conn, rfl, hk, hstep⟩ := (step_connection hs).2 conn' hk'
  · exact h conn' hk hopen'
  · intro id
    simp [Connection.new, Session.new]
  · have hopen := Connection.open_of_step hstep hopen'
    refine Connection.Served.step (h conn hk hopen) (fun request written hop => ?_) hstep hopen'
    subst hop
    simpa [inStep, hk] using hc

/-- In every run whose requests on the connection are in step, the session of the
connection has, while it is open, the subscriptions that a task serves. -/
theorem subscriptions_served {server : Server} {k : Nat} {ops : List HubOp}
    (hops : Meets (step X) (fun hub op => hub.inStep k op = true) ⟨server, []⟩ ops)
    (hrun : run (step X) ⟨server, []⟩ ops = some hub) : hub.Served k := by
  refine run_keeps_of_meets (fun _ _ _ h hc hs => h.step hc hs) ?_ hops hrun
  intro conn hk
  simp at hk

end Hub

end

/-! ## Watching in a batch -/

namespace Hub

/-- A batch with one operation. -/
def batchOfOne (op : String) (params : Value) : Request :=
  ⟨"3", .batch, batchOf [.object [("op", .string op), ("params", params)]]⟩

def unwatchParams (id : String) : Value := .object [("subscription_id", .string id)]

/-- A client that watches twice, unwatches once and sends a batch. -/
theorem subscriptions_served_to_client :
    ∃ hub, run (step serdeServer) ⟨.fresh (openConfig 1000), []⟩
        (.accept :: requestsOf 0 [watchAllRequest, watchAllRequest,
          unwatchRequest firstSubscription, batchOfOne "PING" .null]) = some hub ∧
      hub.Served 0 ∧ ∃ conn, hub.connections[0]? = some conn ∧ conn.isOpen = true ∧
        conn.session.subscriptions.size = 1 := by
  have hrun : ∃ hub, run (step serdeServer) ⟨.fresh (openConfig 1000), []⟩
      (.accept :: requestsOf 0 [watchAllRequest, watchAllRequest,
        unwatchRequest firstSubscription, batchOfOne "PING" .null]) = some hub ∧
      ∃ conn, hub.connections[0]? = some conn ∧ conn.isOpen = true ∧
        conn.session.subscriptions.size = 1 := run_finds (by decide +kernel)
  obtain ⟨hub, hrun, hconn⟩ := hrun
  refine ⟨hub, hrun, subscriptions_served ?_ hrun, hconn⟩
  decide +kernel

set_option maxRecDepth 4000 in
/-- Watching in a batch is answered with a subscription that no task serves, and
unwatching in a batch leaves the task, which goes on delivering events. -/
theorem batch_out_of_step :
    (∃ hub, run (step serdeServer) ⟨.fresh (openConfig 1000), []⟩
        (.accept :: requestsOf 0 [batchOfOne "WATCH_ALL" (.object [])]) = some hub ∧
      ∃ conn, hub.connections[0]? = some conn ∧ conn.isOpen = true ∧
        conn.answered.map (·.2.isOk) = [true] ∧
        firstSubscription ∈ conn.session.subscriptions ∧
        firstSubscription ∉ conn.subscriptionTasks) ∧
    ∃ hub, run (step serdeServer) ⟨.fresh (openConfig 1000), []⟩
        (.accept :: (requestsOf 0 [watchAllRequest,
            batchOfOne "UNWATCH" (unwatchParams firstSubscription), putLoop, createLoop "i" [],
            applyLoop "i" .null] ++
          [.connection 0 (.receive firstSubscription), .connection 0 (.send firstSubscription),
            .connection 0 (.deliver true)])) = some hub ∧
      ∃ conn, hub.connections[0]? = some conn ∧ conn.isOpen = true ∧
        conn.streamed.map StreamEvent.subscriptionId = [firstSubscription] ∧
        firstSubscription ∉ conn.session.subscriptions ∧
        firstSubscription ∈ conn.subscriptionTasks := by
  constructor
  · exact run_finds (by decide +kernel)
  · exact run_finds (by decide +kernel)

end Hub

end Rstmdb

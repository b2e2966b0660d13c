import Rstmdb.Server.Forwarders

/-! Events after `UNWATCH`. A task that is aborted while it is being polled runs on
until it next has to wait, and what it or the task before has put into the channel of
the connection is still written. -/
namespace Rstmdb
open Json (Value)

/-- A task of a connection that was aborted while it ran. -/
structure LateTask where
  connection : Nat
  subscriptionId : String
  task : Forwarder

/-- The server with its connections, and the tasks that have yet to notice that they
are aborted. -/
structure Relay where
  hub : Hub
  late : List LateTask

/-- A step of the hub, with the tasks that are being polled while it happens, or one of
a late task. -/
inductive RelayOp
  | hub (op : HubOp) (polled : List String)
  | receive (i : Nat)
  | send (i : Nat)
  | yield (i : Nat)

namespace Relay

/-- The tasks of a connection that a step has aborted in the middle of a poll. -/
def aborted (hub hub' : Hub) (polled : List String) (k : Nat) : List LateTask :=
  match hub.connections[k]?, hub'.connections[k]? with
  | some conn, some conn' =>
    (conn.subscriptionTasks.toList.filter fun p =>
      !conn'.subscriptionTasks.contains p.1 && polled.contains p.1).map fun p => ⟨k, p.1, p.2⟩
  | _, _ => []

/-- Requests and the end of a connection abort tasks. -/
def abortedBy (hub hub' : Hub) (polled : List String) : HubOp → List LateTask
  | .connection k (.request _ _) | .connection k .hangUp => aborted hub hub' polled k
  | _ => []

/-- The connection, if the late task were its only task. -/
def alone (late : LateTask) (conn : Connection) : Connection :=
  { conn with
    subscriptionTasks := (∅ : Table String Forwarder).insert late.subscriptionId late.task }

/-- A late task does what a task of its connection does. -/
def lateStep (X : ServerExternals) (relay : Relay) (i : Nat) (op : String → ConnectionOp) :
    Option Relay :=
  match relay.late[i]? with
  | none => none
  | some late =>
    match relay.hub.connections[late.connection]? with
    | none => none
    | some conn =>
      ((alone late conn).step X relay.hub.server.handler relay.hub.server.shared
        (op late.subscriptionId)).map fun (_, conn') =>
          { hub := { relay.hub with
              connections := relay.hub.connections.set late.connection
                { conn' with subscriptionTasks := conn.subscriptionTasks } }
            late := match conn'.subscriptionTasks[late.subscriptionId]? with
              | some task => relay.late.set i { late with task }
              | none => relay.late.eraseIdx i }

def step (X : ServerExternals) (relay : Relay) : RelayOp → Option Relay
  | .hub op polled =>
    (relay.hub.step X op).map fun hub => ⟨hub, relay.late ++ abortedBy relay.hub hub polled op⟩
  | .receive i => relay.lateStep X i .receive
  | .send i => relay.lateStep X i .send
  | .yield i => some { relay with late := relay.late.eraseIdx i }

end Relay

/-- The subscriptions that a request unwatches, at the top or in a batch. -/
def unwatched (X : ServerExternals) (c : CommandHandler) (s : Shared) (ses : Session)
    (request : Request) : List String :=
  (calls X c s ses request).filterMap fun call =>
    if call.request.op = .unwatch then removedId c call.session call.request else none

/-- The events of a subscription that the connection has written. -/
def Connection.written (conn : Connection) (id : String) : List StreamEvent :=
  conn.streamed.filter (·.subscriptionId = id)

namespace Relay

/-- In this run, once a request of the connection to unwatch a subscription is answered,
no event of the subscription is written to the connection. -/
def NoneAfterUnwatch (X : ServerExternals) (k : Nat) (relay : Relay) (ops : List RelayOp) : Prop :=
  ∀ before request polled after, ops =
      before ++ .hub (.connection k (.request request true)) polled :: after →
    ∀ relay₁ conn₁ relay₂ conn₂, run (step X) relay before = some relay₁ →
      relay₁.hub.connections[k]? = some conn₁ →
      run (step X) relay ops = some relay₂ → relay₂.hub.connections[k]? = some conn₂ →
      ∀ id ∈ unwatched X relay₁.hub.server.handler relay₁.hub.server.shared conn₁.session request,
        relay₁.hub.server.shared.handedOut X id → conn₂.written id = conn₁.written id

/-- No event of the subscription is on its way, and the request ends its task, which is
not being polled, if there is one. -/
def settled (k : Nat) (relay : Relay) (conn : Connection) (request : Request)
    (polled : List String) (id : String) : Bool :=
  conn.eventRx.all (·.subscriptionId != id) &&
    relay.late.all (fun late => late.connection != k || late.subscriptionId != id) &&
    (!conn.subscriptionTasks.contains id ||
      request.op = .unwatch && abortedId request = some id && !polled.contains id)

/-- All that a request of the connection unwatches is settled. -/
def clean (k : Nat) (relay : Relay) : RelayOp → Bool
  | .hub (.connection j (.request request _)) polled =>
    j ≠ k || (relay.hub.connections[k]?).all fun conn =>
      (nested request).all fun inner => inner.op != .unwatch ||
        (UnwatchParams.fromValue inner.params).all fun p =>
          relay.settled k conn request polled p.subscriptionId
  | _ => true

end Relay

section
variable {X : ServerExternals} {c : CommandHandler} {s s' : Shared} {conn conn' : Connection}
  {request : Request} {r : Response} {id : String}

theorem mem_unwatched {ses : Session} (h : id ∈ unwatched X c s ses request) :
    ∃ inner ∈ nested request, inner.op = .unwatch ∧ ∃ p,
      UnwatchParams.fromValue inner.params = some p ∧ p.subscriptionId = id := by
  obtain ⟨call, hcall, h⟩ := List.mem_filterMap.mp h
  refine ⟨call.request, callsWithin_requests _ _ _ _ call hcall, ?_⟩
  split at h
  · rename_i hop
    refine ⟨hop, ?_⟩
    unfold removedId at h
    split at h
    · cases h
    · exact Option.map_eq_some_iff.mp h
  · cases h

/-! ## A connection without the subscription -/

namespace Connection

/-- The connection has no task for the subscription and no event of it. -/
structure Quiet (id : String) (conn : Connection) : Prop where
  noTask : id ∉ conn.subscriptionTasks
  noEvent : ∀ f ∈ conn.eventRx, f.subscriptionId ≠ id

theorem ne_of_task {id' : String} {task : Forwarder} (h : id ∉ conn.subscriptionTasks)
    (htask : conn.subscriptionTasks[id']? = some task) : id ≠ id' := by
  rintro rfl
  rw [Std.ExtTreeMap.getElem?_eq_none h] at htask
  cases htask

/-- A request makes no task for a subscription that was handed out before. -/
theorem dispatch_noTask (huuid : Function.Injective X.uuid) (handed : s.handedOut X id)
    (h : id ∉ conn.subscriptionTasks)
    (hd : dispatch X c s conn request = some (s', conn', r)) : id ∉ conn'.subscriptionTasks := by
  cases dispatched_of_dispatch hd with
  | refused | handled => exact h
  | watched =>
    rw [mem_insert_iff, not_or]
    exact ⟨subscriptionId_new huuid handed, h⟩
  | unwatched =>
    unfold without
    split
    · exact fun hin => h (mem_erase_iff.mp hin).2
    · exact h

theorem Quiet.step (huuid : Function.Injective X.uuid) (handed : s.handedOut X id)
    (h : conn.Quiet id) {op : ConnectionOp} (hs : conn.step X c s op = some (s', conn')) :
    conn'.Quiet id ∧ conn'.written id = conn.written id := by
  cases steps_of_step hs with
  | unanswered _ hd =>
    have hnone := dispatch_noTask huuid handed h.noTask hd
    obtain ⟨ses, tasks, rfl⟩ := dispatch_frame hd
    exact ⟨⟨hnone, by simp [dropped]⟩, rfl⟩
  | closed _ hd =>
    obtain ⟨ses, tasks, rfl⟩ := dispatch_frame hd
    exact ⟨⟨by simp [finished], by simp [finished, dropped]⟩, rfl⟩
  | answered _ hd =>
    have hnone := dispatch_noTask huuid handed h.noTask hd
    obtain ⟨ses, tasks, rfl⟩ := dispatch_frame hd
    exact ⟨⟨hnone, h.noEvent⟩, rfl⟩
  | received htask =>
    refine ⟨⟨?_, h.noEvent⟩, rfl⟩
    rw [mem_insert_iff, not_or]
    exact ⟨ne_of_task h.noTask htask, h.noTask⟩
  | cancelled => exact ⟨⟨fun hin => h.noTask (mem_erase_iff.mp hin).2, h.noEvent⟩, rfl⟩
  | sent htask =>
    have hne := ne_of_task h.noTask htask
    refine ⟨⟨?_, fun f hf => ?_⟩, rfl⟩
    · rw [mem_insert_iff, not_or]
      exact ⟨hne, h.noTask⟩
    · obtain hf | hf := List.mem_append.mp hf
      · exact h.noEvent f hf
      · rw [List.mem_singleton.mp hf]
        exact hne.symm
  | @delivered f eventRx _ hrx =>
    have hf : f.streamEvent.subscriptionId ≠ id := h.noEvent f (by simp [hrx])
    refine ⟨⟨h.noTask, fun f' hf' => h.noEvent f' (by simp [hrx, hf'])⟩, ?_⟩
    simp [Connection.written, List.filter_append, hf]
  | panicked | undelivered | failed => exact ⟨⟨h.noTask, by simp [dropped]⟩, rfl⟩
  | hungUp => exact ⟨⟨by simp [finished], by simp [finished, dropped]⟩, rfl⟩

end Connection

end

/-! ## Identifiers stay handed out -/

section
variable {X : ServerExternals} {hub hub' : Hub} {id : String}

theorem requested_uuids {c : CommandHandler} {s : Shared} {conn : Connection} {request : Request}
    {out : Shared × Session} (h : requested X c s conn request = out) : s.uuids ≤ out.1.uuids := by
  subst h
  refine requested_keeps (P := fun s' _ => s.uuids ≤ s'.uuids) (fun _ _ => True)
    (fun _ _ hP => hP) ?_ le_rfl (fun _ _ => trivial)
  intro s ses op params s' ses' hP _ hr
  cases hr with
  | kept _ _ drawn => exact hP.trans drawn
  | added | removed => exact hP.trans (by omega)

theorem Hub.step_uuids {op : HubOp} (h : hub.step X op = some hub') :
    hub.server.shared.uuids ≤ hub'.server.shared.uuids := by
  cases op with
  | accept =>
    cases h
    exact le_rfl
  | connection k op =>
    obtain ⟨conn, s', conn', hk, hstep, rfl⟩ := connection_of_step h
    cases Connection.steps_of_step hstep with
    | panicked _ _ hd => exact requested_uuids (requested_of_none hd)
    | unanswered _ hd | closed _ hd | answered _ hd =>
      have hle := requested_uuids (requested_of_some hd)
      exact hle
    | _ => exact le_rfl
  | compact =>
    simp only [Hub.step, Option.some.injEq] at h
    subst h
    exact (runCompaction_frame (X := X) hub.server.shared hub.server.compaction).2

theorem Hub.step_at {k : Nat} {conn : Connection} {op : HubOp}
    (hk : hub.connections[k]? = some conn) (h : hub.step X op = some hub') :
    hub'.connections[k]? = some conn ∨
      ∃ cop conn', op = .connection k cop ∧ hub'.connections[k]? = some conn' ∧
        conn.step X hub.server.handler hub.server.shared cop =
          some (hub'.server.shared, conn') := by
  have hlt := (List.getElem?_eq_some_iff.mp hk).1
  cases op with
  | accept =>
    cases h
    exact .inl (by rw [List.getElem?_append_left hlt, hk])
  | connection j cop =>
    obtain ⟨conn₀, s₁, conn₁, hj, hstep, rfl⟩ := connection_of_step h
    by_cases hjk : j = k
    · subst hjk
      cases hk.symm.trans hj
      exact .inr ⟨cop, conn₁, rfl, List.getElem?_set_self hlt, hstep⟩
    · exact .inl (by rw [List.getElem?_set_ne hjk, hk])
  | compact =>
    cases h
    exact .inl hk

theorem Hub.step_handedOut {op : HubOp} (h : hub.step X op = some hub')
    (handed : hub.server.shared.handedOut X id) : hub'.server.shared.handedOut X id :=
  handed.mono (step_uuids h)

end

namespace Relay

section
variable {X : ServerExternals} {relay relay' : Relay} {hub hub' : Hub} {k : Nat} {id : String}
  {events : List StreamEvent}

/-! ## Runs after the answer -/

/-- These are the events of the subscription that the connection has written, and nothing
is left that could write another. -/
structure Silent (X : ServerExternals) (k : Nat) (id : String) (events : List StreamEvent)
    (relay : Relay) : Prop where
  handed : relay.hub.server.shared.handedOut X id
  quiet : ∃ conn, relay.hub.connections[k]? = some conn ∧ conn.Quiet id ∧
    conn.written id = events
  noLate : ∀ late ∈ relay.late, ¬ (late.connection = k ∧ late.subscriptionId = id)

variable {polled : List String} {late : LateTask} {op : HubOp} {i : Nat} {conn : Connection}
  {request : Request}

/-- A task that is aborted late was a task of its connection. -/
theorem mem_aborted (h : late ∈ aborted hub hub' polled k) :
    late.connection = k ∧ late.subscriptionId ∈ polled ∧
      ∃ conn, hub.connections[k]? = some conn ∧ late.subscriptionId ∈ conn.subscriptionTasks := by
  unfold aborted at h
  split at h
  · rename_i conn conn' hk hk'
    obtain ⟨⟨id, task⟩, hp, rfl⟩ := List.mem_map.mp h
    obtain ⟨hmem, htest⟩ := List.mem_filter.mp hp
    refine ⟨rfl, by simpa using (Bool.and_eq_true_iff.mp htest).2, conn, hk, ?_⟩
    rw [Std.ExtTreeMap.mem_iff_isSome_getElem?, Table.mem_toList.mp hmem]
    rfl
  · cases h

theorem mem_abortedBy (h : late ∈ abortedBy hub hub' polled op) :
    late ∈ aborted hub hub' polled late.connection ∧
      ((∃ request written, op = .connection late.connection (.request request written)) ∨
        op = .connection late.connection .hangUp) := by
  unfold abortedBy at h
  split at h
  · obtain ⟨rfl, -⟩ := mem_aborted h
    exact ⟨h, .inl ⟨_, _, rfl⟩⟩
  · obtain ⟨rfl, -⟩ := mem_aborted h
    exact ⟨h, .inr rfl⟩
  · cases h

theorem Silent.hubStep (huuid : Function.Injective X.uuid) (h : relay.Silent X k id events)
    (hs : relay.hub.step X op = some hub') :
    Silent X k id events ⟨hub', relay.late ++ abortedBy relay.hub hub' polled op⟩ := by
  obtain ⟨conn, hk, hquiet, rfl⟩ := h.quiet
  refine ⟨Hub.step_handedOut hs h.handed, ?_, fun late hlate => ?_⟩
  · obtain hk' | ⟨cop, conn', -, hk', hstep⟩ := Hub.step_at hk hs
    · exact ⟨conn, hk', hquiet, rfl⟩
    · exact ⟨conn', hk', hquiet.step huuid h.handed hstep⟩
  · obtain hlate | hlate := List.mem_append.mp hlate
    · exact h.noLate late hlate
    · rintro ⟨rfl, rfl⟩
      obtain ⟨-, -, conn₁, hk₁, hmem⟩ := mem_aborted (mem_abortedBy hlate).1
      cases hk.symm.trans hk₁
      exact hquiet.noTask hmem

/-- What a late task does: it is gone or goes on, and its connection takes the step that
it would take if it had that task alone. -/
theorem lateStep_cases {op : String → ConnectionOp} (h : relay.lateStep X i op = some relay') :
    ∃ late conn conn' s', relay.late[i]? = some late ∧
      relay.hub.connections[late.connection]? = some conn ∧
      (alone late conn).step X relay.hub.server.handler relay.hub.server.shared
        (op late.subscriptionId) = some (s', conn') ∧
      relay'.hub.server = relay.hub.server ∧
      relay'.hub.connections = relay.hub.connections.set late.connection
        { conn' with subscriptionTasks := conn.subscriptionTasks } ∧
      (relay'.late = relay.late.eraseIdx i ∨
        ∃ task, relay'.late = relay.late.set i { late with task }) := by
  unfold lateStep at h
  split at h
  · cases h
  rename_i late hlate
  split at h
  · cases h
  rename_i conn hk
  obtain ⟨⟨s', conn'⟩, hstep, hout⟩ := Option.map_eq_some_iff.mp h
  cases hout
  refine ⟨late, conn, conn', s', hlate, hk, hstep, rfl, rfl, ?_⟩
  dsimp only
  split
  · exact .inr ⟨_, rfl⟩
  · exact .inl rfl

section
variable (huuid : Function.Injective X.uuid)
include huuid

theorem Silent.lateStep (h : relay.Silent X k id events)
    {op : String → ConnectionOp} (hs : relay.lateStep X i op = some relay') :
    relay'.Silent X k id events := by
  obtain ⟨late, conn, conn', s', hlate, hk, hstep, hserver, hconnections, hrest⟩ :=
    lateStep_cases hs
  have hne := h.noLate late (List.mem_of_getElem? hlate)
  obtain ⟨conn₀, hk₀, hquiet, rfl⟩ := h.quiet
  refine ⟨hserver ▸ h.handed, ?_, fun t ht => ?_⟩
  · rw [hconnections]
    by_cases hkk : late.connection = k
    · subst hkk
      cases hk.symm.trans hk₀
      have halone : (alone late conn).Quiet id := by
        refine ⟨?_, hquiet.noEvent⟩
        rw [alone, mem_insert_iff, not_or]
        exact ⟨fun he => hne ⟨rfl, he.symm⟩, by simp⟩
      obtain ⟨hquiet', hwritten⟩ := halone.step huuid h.handed hstep
      exact ⟨_, List.getElem?_set_self (List.getElem?_eq_some_iff.mp hk).1,
        ⟨hquiet.noTask, hquiet'.noEvent⟩, hwritten⟩
    · exact ⟨conn₀, by rw [List.getElem?_set_ne hkk, hk₀], hquiet, rfl⟩
  · obtain hrest | ⟨task, hrest⟩ := hrest <;> rw [hrest] at ht
    · exact h.noLate t (List.mem_of_mem_eraseIdx ht)
    · obtain ht | rfl := List.mem_or_eq_of_mem_set ht
      · exact h.noLate t ht
      · exact hne

theorem Silent.step (h : relay.Silent X k id events)
    {op : RelayOp} (hs : relay.step X op = some relay') : relay'.Silent X k id events := by
  cases op with
  | hub op polled =>
    obtain ⟨hub', hstep, rfl⟩ := Option.map_eq_some_iff.mp hs
    exact h.hubStep huuid hstep
  | receive | send => exact h.lateStep huuid hs
  | yield i =>
    cases hs
    exact ⟨h.handed, h.quiet, fun t ht => h.noLate t (List.mem_of_mem_eraseIdx ht)⟩

theorem dispatch_settled {c : CommandHandler} {s s' : Shared}
    {conn' : Connection} {r : Response} (handed : s.handedOut X id)
    (htask : id ∈ conn.subscriptionTasks → request.op = .unwatch ∧ abortedId request = some id)
    (hd : dispatch X c s conn request = some (s', conn', r)) : id ∉ conn'.subscriptionTasks := by
  by_cases hin : id ∈ conn.subscriptionTasks
  · obtain ⟨hop, haborted⟩ := htask hin
    cases dispatched_of_dispatch hd with
    | refused hwatch | watched hwatch => simp [hop, watchOps] at hwatch
    | unwatched =>
      rw [haborted]
      exact fun hin => (mem_erase_iff.mp hin).1 rfl
    | handled _ hne => exact absurd hop hne
  · exact Connection.dispatch_noTask huuid handed hin hd

end

theorem dispatch_unwatch_returns {c : CommandHandler} {s : Shared} (hop : request.op = .unwatch) :
    dispatch X c s conn request ≠ none := by
  intro h
  have hnone := Connection.handle_panics (by simp [hop, watchOps]) h
  rw [handle_eq, hop] at hnone
  split at hnone <;> cases hnone

/-- After the answer to a request that unwatches a settled subscription, nothing is left
of it. -/
theorem Silent.of_unwatch (huuid : Function.Injective X.uuid)
    (hk : relay.hub.connections[k]? = some conn) (handed : relay.hub.server.shared.handedOut X id)
    (hsettled : relay.settled k conn request polled id = true)
    (hs : relay.step X (.hub (.connection k (.request request true)) polled) = some relay') :
    relay'.Silent X k id (conn.written id) := by
  simp only [settled, Bool.and_eq_true, List.all_eq_true, bne_iff_ne, ne_eq, Bool.or_eq_true,
    decide_eq_true_eq, Bool.not_eq_true'] at hsettled
  obtain ⟨⟨hevents, hlate⟩, htask⟩ := hsettled
  have htask (hin : id ∈ conn.subscriptionTasks) :
      (request.op = .unwatch ∧ abortedId request = some id) ∧ polled.contains id = false := by
    refine htask.resolve_left ?_
    rw [Std.ExtTreeMap.mem_iff_contains.mp hin]
    simp
  obtain ⟨hub', hstep, rfl⟩ := Option.map_eq_some_iff.mp hs
  refine ⟨Hub.step_handedOut hstep handed, ?_, fun late hmem => ?_⟩
  · obtain ⟨conn₀, s', conn', hk₀, hconn, rfl⟩ := Hub.connection_of_step hstep
    cases hk.symm.trans hk₀
    refine ⟨conn', List.getElem?_set_self (List.getElem?_eq_some_iff.mp hk).1, ?_⟩
    cases Connection.steps_of_step hconn with
    | panicked _ _ hd =>
      refine ⟨⟨fun hin => ?_, by simp [Connection.dropped]⟩, rfl⟩
      exact absurd hd (dispatch_unwatch_returns (htask hin).1.1)
    | closed _ hd =>
      obtain ⟨ses, tasks, rfl⟩ := dispatch_frame hd
      exact ⟨⟨by simp [Connection.finished], by simp [Connection.finished, Connection.dropped]⟩,
        rfl⟩
    | answered _ hd =>
      have hnone := dispatch_settled huuid handed (fun hin => (htask hin).1) hd
      obtain ⟨ses, tasks, rfl⟩ := dispatch_frame hd
      exact ⟨⟨hnone, hevents⟩, rfl⟩
  · obtain hmem | hmem := List.mem_append.mp hmem
    · rintro ⟨hconnection, hid⟩
      exact (hlate late hmem).elim (· hconnection) (· hid)
    · rintro ⟨rfl, rfl⟩
      obtain ⟨-, hpolled, conn₁, hk₁, hin⟩ := mem_aborted (mem_abortedBy hmem).1
      cases hk.symm.trans hk₁
      have hnot := (htask hin).2
      rw [List.contains_iff_mem.mpr hpolled] at hnot
      cases hnot

/-- In every run in which all that the connection unwatches is settled, no event of a
subscription is written to it once the request to unwatch it is answered. -/
theorem no_event_after_unwatch (huuid : Function.Injective X.uuid) {ops : List RelayOp}
    (hops : Meets (step X) (fun relay op => relay.clean k op = true) relay ops) :
    relay.NoneAfterUnwatch X k ops := by
  rintro before request polled after rfl relay₁ conn₁ relay₂ conn₂ hbefore hk₁ hrun hk₂ id hid
    handed
  obtain ⟨_, hbefore', hrun⟩ := run_append.mp hrun
  cases hbefore.symm.trans hbefore'
  obtain ⟨relay₃, hstep, hafter⟩ := run_cons.mp hrun
  have hclean : relay₁.clean k (.hub (.connection k (.request request true)) polled) = true :=
    (Meets.append hops hbefore).2.1
  obtain ⟨inner, hinner, hop, p, hp, rfl⟩ := mem_unwatched hid
  have hsettled : relay₁.settled k conn₁ request polled p.subscriptionId = true := by
    simp only [clean, ne_eq, not_true_eq_false, decide_false, Bool.false_or, hk₁, Option.all_some,
      List.all_eq_true] at hclean
    simpa [hop, hp] using hclean inner hinner
  have hsilent := Silent.of_unwatch huuid hk₁ handed hsettled hstep
  have hlast : relay₂.Silent X k p.subscriptionId (conn₁.written p.subscriptionId) :=
    run_keeps (fun _ _ _ h hs => h.step huuid hs) hsilent hafter
  obtain ⟨conn, hk, -, hwritten⟩ := hlast.quiet
  cases hk₂.symm.trans hk
  exact hwritten

end

/-! ## A client that unwatches -/

open Hub (firstSubscription unwatchRequest)

/-- Steps of the hub while no task is being polled. -/
def calm (ops : List HubOp) : List RelayOp := ops.map (.hub · [])

/-- A server on empty directories. -/
def fresh : Relay := ⟨⟨.fresh (openConfig 1000), []⟩, []⟩

/-- The client watches, and an event is applied and put into the channel. -/
def eventQueued : List RelayOp :=
  calm (.accept :: (requestsOf 0 [watchAllRequest, putLoop, createLoop "i" [],
      applyLoop "i" .null] ++
    [.connection 0 (.receive firstSubscription), .connection 0 (.send firstSubscription)]))

def unwatchFirst : List RelayOp := calm (requestsOf 0 [unwatchRequest firstSubscription])

def deliverOne : List RelayOp := calm [.connection 0 (.deliver true)]

set_option maxRecDepth 4000 in
/-- The client unwatches after the event was written; the next event is not written. -/
theorem no_event_after_settled_unwatch :
    (∃ relay, run (step serdeServer) fresh (eventQueued ++ deliverOne ++ unwatchFirst ++
        calm (requestsOf 0 [applyLoop "i" .null])) = some relay ∧
      ∃ conn, relay.hub.connections[0]? = some conn ∧
        (conn.written firstSubscription).length = 1) ∧
    fresh.NoneAfterUnwatch serdeServer 0 (eventQueued ++ deliverOne ++ unwatchFirst ++
      calm (requestsOf 0 [applyLoop "i" .null])) := by
  constructor
  · exact run_finds (by decide +kernel)
  · refine no_event_after_unwatch Hub.serdeServer_uuid_injective ?_
    decide +kernel

set_option maxRecDepth 4000 in
/-- The client unwatches while the event is in the channel, and it is written after the
answer. -/
theorem event_after_unwatch :
    ¬ fresh.NoneAfterUnwatch serdeServer 0 (eventQueued ++ unwatchFirst ++ deliverOne) := by
  have hbefore : ∃ relay, run (step serdeServer) fresh eventQueued = some relay ∧
      ∃ conn, relay.hub.connections[0]? = some conn ∧
        0 < relay.hub.server.shared.uuids ∧
        firstSubscription ∈ unwatched serdeServer relay.hub.server.handler relay.hub.server.shared
          conn.session (unwatchRequest firstSubscription) ∧
        (conn.written firstSubscription).length = 0 := run_finds (by decide +kernel)
  have hafter : ∃ relay, run (step serdeServer) fresh
      (eventQueued ++ unwatchFirst ++ deliverOne) = some relay ∧
      ∃ conn, relay.hub.connections[0]? = some conn ∧
        (conn.written firstSubscription).length = 1 := run_finds (by decide +kernel)
  obtain ⟨relay₁, hrun₁, conn₁, hk₁, hdrawn, hid, hnone⟩ := hbefore
  obtain ⟨relay₂, hrun₂, conn₂, hk₂, hone⟩ := hafter
  have hfirst : firstSubscription = "sub-" ++ serdeServer.uuid 0 := by decide +kernel
  intro h
  have hsame := h eventQueued (unwatchRequest firstSubscription) [] deliverOne (by rfl) relay₁
    conn₁ relay₂ conn₂ hrun₁ hk₁ hrun₂ hk₂ firstSubscription hid ⟨0, hdrawn, hfirst⟩
  rw [hsame, hnone] at hone
  cases hone

end Relay

end Rstmdb

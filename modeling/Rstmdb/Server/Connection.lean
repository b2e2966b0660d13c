import Rstmdb.Server.Compaction
import Rstmdb.Server.Panic

/-! The connections. Each has a session, a task for every subscription and a channel
through which the tasks send it the events for the client. A connection hands
requests to the handler, but for those to watch, which it serves itself. -/
namespace Rstmdb
open Json (Value)

/-- An event on its way from a task to the connection. -/
structure ForwardedEvent where
  subscriptionId : String
  event : InstanceEvent
  includeCtx : Bool

/-- The task of a subscription, with an event that it waits to send. -/
structure Forwarder where
  receiver : Receiver
  filter : Option EventFilter
  includeCtx : Bool
  waiting : Option InstanceEvent

/-- A connection, with the requests it has handled and the events it has written. -/
structure Connection where
  session : Session
  isOpen : Bool
  eventRx : List ForwardedEvent
  subscriptionTasks : Table String Forwarder
  answered : List (Request × Response)
  streamed : List StreamEvent

def eventChannelCapacity : Nat := 256

def ForwardedEvent.streamEvent (f : ForwardedEvent) : StreamEvent where
  subscriptionId := f.subscriptionId
  instanceId := f.event.instanceId
  machine := f.event.machine
  version := f.event.version
  walOffset := f.event.walOffset
  fromState := f.event.fromState
  toState := f.event.toState
  event := f.event.event
  payload := some f.event.payload
  ctx := if f.includeCtx then some f.event.ctx else none

namespace Connection

def new (authRequired : Bool) : Connection := ⟨.new authRequired, true, [], ∅, [], []⟩

/-- `?` on an error: the connection is gone, its subscriptions and tasks stay. -/
def dropped (conn : Connection) : Connection := { conn with isOpen := false, eventRx := [] }

/-- `abort_subscription_tasks`, and then the connection returns. -/
def finished (conn : Connection) : Connection := { conn.dropped with subscriptionTasks := ∅ }

end Connection

/-- `cleanup_subscriptions`. -/
def cleanupSubscriptions (ses : Session) (s : Shared) : Shared :=
  { s with
    broadcaster := s.broadcaster.map fun b => ses.subscriptions.keys.foldl (·.unsubscribe ·) b }

/-- How a connection handles a request: watching goes past `handle`. -/
def dispatch (X : ServerExternals) (c : CommandHandler) (s : Shared) (conn : Connection)
    (request : Request) : Option (Shared × Connection × Response) :=
  let includeCtx := ((request.params.index "include_ctx").asBool).getD true
  match request.op with
  | .watchInstance =>
    match handleWatchInstance X s conn.session request.params with
    | (s, session, .error e) =>
      some (s, { conn with session }, responseOf X request.id (.error e))
    | (s, session, .ok (result, id, receiver)) =>
      some (s, { conn with
        session, subscriptionTasks :=
          conn.subscriptionTasks.insert id ⟨receiver, none, includeCtx, none⟩ },
        responseOf X request.id (.ok result))
  | .watchAll =>
    match handleWatchAll X s conn.session request.params with
    | none => none
    | some (s, session, .error e) =>
      some (s, { conn with session }, responseOf X request.id (.error e))
    | some (s, session, .ok (result, id, receiver, filter)) =>
      some (s, { conn with
        session, subscriptionTasks :=
          conn.subscriptionTasks.insert id ⟨receiver, some filter, includeCtx, none⟩ },
        responseOf X request.id (.ok result))
  | .unwatch =>
    (handle X c s conn.session request).map fun (s, session, response) =>
      let subscriptionTasks := match (request.params.index "subscription_id").asStr with
        | some id => conn.subscriptionTasks.erase id
        | none => conn.subscriptionTasks
      (s, { conn with session, subscriptionTasks }, response)
  | _ =>
    (handle X c s conn.session request).map fun (s, session, response) =>
      (s, { conn with session }, response)

/-- What one connection does next. Writing to the client may fail. -/
inductive ConnectionOp
  | request (request : Request) (written : Bool)
  | receive (subscriptionId : String)
  | send (subscriptionId : String)
  | deliver (written : Bool)
  | hangUp
  | fail

namespace Connection

/-- A step of a connection or of one of its tasks; `none` is a step that has to wait. -/
def step (X : ServerExternals) (c : CommandHandler) (s : Shared) (conn : Connection) :
    ConnectionOp → Option (Shared × Connection)
  | .request request written =>
    if conn.isOpen then
      match dispatch X c s conn request with
      | none =>
        -- The panic ends the task of the connection, which cleans nothing up.
        let (s, session) := unwound X c s conn.session request
        some (s, dropped { conn with session })
      | some (s, conn, response) =>
        let conn := { conn with answered := conn.answered ++ [(request, response)] }
        if !written then some (s, conn.dropped)
        else if conn.session.state = .closing then
          some (cleanupSubscriptions conn.session s, conn.finished)
        else some (s, conn)
    else none
  | .receive id =>
    match conn.subscriptionTasks[id]?, s.broadcaster with
    | some task, some b =>
      if task.waiting.isSome then none
      else
        match b.recv task.receiver with
        | (.empty, _) => none
        | (.lagged _, receiver) =>
          some (s, { conn with
            subscriptionTasks := conn.subscriptionTasks.insert id { task with receiver } })
        | (.event e, receiver) =>
          let waiting := if task.filter.all (·.accepts e) then some e else none
          some (s, { conn with
            subscriptionTasks :=
              conn.subscriptionTasks.insert id { task with receiver, waiting } })
    | _, _ => none
  | .send id =>
    match conn.subscriptionTasks[id]? with
    | none => none
    | some task =>
      match task.waiting with
      | none => none
      | some e =>
        if !conn.isOpen then
          -- The channel is closed, and the task ends.
          some (s, { conn with subscriptionTasks := conn.subscriptionTasks.erase id })
        else if eventChannelCapacity ≤ conn.eventRx.length then none
        else
          some (s, { conn with
            eventRx := conn.eventRx ++ [⟨id, e, task.includeCtx⟩]
            subscriptionTasks :=
              conn.subscriptionTasks.insert id { task with waiting := none } })
  | .deliver written =>
    match conn.eventRx with
    | [] => none
    | f :: eventRx =>
      if conn.isOpen then
        if written then
          some (s, { conn with eventRx, streamed := conn.streamed ++ [f.streamEvent] })
        else some (s, conn.dropped)
      else none
  | .hangUp =>
    if conn.isOpen then some (cleanupSubscriptions conn.session s, conn.finished) else none
  | .fail => if conn.isOpen then some (s, conn.dropped) else none

/-- The step is a request that panics. -/
def panics (X : ServerExternals) (c : CommandHandler) (s : Shared) (conn : Connection) :
    ConnectionOp → Bool
  | .request request _ => conn.isOpen && (dispatch X c s conn request).isNone
  | _ => false

end Connection

/-- The server with its connections. -/
structure Hub where
  server : Server
  connections : List Connection

inductive HubOp
  | accept
  | connection (k : Nat) (op : ConnectionOp)
  | compact

namespace Hub

def step (X : ServerExternals) (hub : Hub) : HubOp → Option Hub
  | .accept =>
    some { hub with
      connections := hub.connections ++ [.new hub.server.handler.authRequired] }
  | .connection k op =>
    match hub.connections[k]? with
    | none => none
    | some conn =>
      (conn.step X hub.server.handler hub.server.shared op).map fun (shared, conn) =>
        ⟨{ hub.server with shared }, hub.connections.set k conn⟩
  | .compact =>
    let (shared, compaction, _) := runCompaction X hub.server.shared hub.server.compaction
    some { hub with server := { hub.server with shared, compaction } }

/-- The step is a request on connection `k` that panics. -/
def panics (X : ServerExternals) (k : Nat) (hub : Hub) : HubOp → Bool
  | .connection j op => j = k &&
    (hub.connections[k]?).any (·.panics X hub.server.handler hub.server.shared op)
  | _ => false

end Hub

/-! ## What requests and steps can do -/

/-- The table without the entry that is named, if one is. -/
def without {α : Type} (t : Table String α) : Option String → Table String α
  | some id => t.erase id
  | none => t

/-- The subscription whose task the connection aborts after such a request. -/
def abortedId (request : Request) : Option String := (request.params.index "subscription_id").asStr

/-- What a request can do: it watches, and adds the same id to the session and to the
tasks or nothing; it unwatches, each on its own; or the handler handles it and the tasks
stay. -/
inductive Dispatched (X : ServerExternals) (c : CommandHandler) (s : Shared) (conn : Connection)
    (request : Request) : Shared → Connection → Response → Prop
  | refused (hop : request.op ∈ watchOps) (e : ServerError) :
      Dispatched X c s conn request s conn (responseOf X request.id (.error e))
  | watched {s' session} {task : Forwarder} (hop : request.op ∈ watchOps)
      (h : Watched X s conn.session s' session (.ok (subscriptionId X s, task.receiver)))
      (result : Value) :
      Dispatched X c s conn request s' { conn with
        session, subscriptionTasks := conn.subscriptionTasks.insert (subscriptionId X s) task }
        (responseOf X request.id (.ok result))
  | unwatched {s' session r} (hop : request.op = .unwatch)
      (hh : handle X c s conn.session request = some (s', session, r)) :
      Dispatched X c s conn request s' { conn with
        session, subscriptionTasks := without conn.subscriptionTasks (abortedId request) } r
  | handled {s' session r} (hop : request.op ∉ watchOps)
      (hne : request.op ≠ .unwatch)
      (hh : handle X c s conn.session request = some (s', session, r)) :
      Dispatched X c s conn request s' { conn with session } r

namespace Connection

/-- What a step can be: a request that panics, or after which the connection goes on or
ends, a step of a task, an event that is written or not, or one of the two other ends. -/
inductive Steps (X : ServerExternals) (c : CommandHandler) (s : Shared) (conn : Connection) :
    ConnectionOp → Shared → Connection → Prop
  | panicked {request} (written : Bool) (hopen : conn.isOpen = true)
      (hd : dispatch X c s conn request = none) :
      Steps X c s conn (.request request written) (unwound X c s conn.session request).1
        (dropped { conn with session := (unwound X c s conn.session request).2 })
  | unanswered {request s₁ conn₁ r} (hopen : conn.isOpen = true)
      (hd : dispatch X c s conn request = some (s₁, conn₁, r)) :
      Steps X c s conn (.request request false) s₁
        (dropped { conn₁ with answered := conn₁.answered ++ [(request, r)] })
  | closed {request s₁ conn₁ r} (hopen : conn.isOpen = true)
      (hd : dispatch X c s conn request = some (s₁, conn₁, r))
      (closing : conn₁.session.state = .closing) :
      Steps X c s conn (.request request true) (cleanupSubscriptions conn₁.session s₁)
        (finished { conn₁ with answered := conn₁.answered ++ [(request, r)] })
  | answered {request s₁ conn₁ r} (hopen : conn.isOpen = true)
      (hd : dispatch X c s conn request = some (s₁, conn₁, r))
      (running : conn₁.session.state ≠ .closing) :
      Steps X c s conn (.request request true) s₁
        { conn₁ with answered := conn₁.answered ++ [(request, r)] }
  | received {id task task'} (htask : conn.subscriptionTasks[id]? = some task)
      (channel : task'.receiver.channel = task.receiver.channel) :
      Steps X c s conn (.receive id) s
        { conn with subscriptionTasks := conn.subscriptionTasks.insert id task' }
  | cancelled {id task} (htask : conn.subscriptionTasks[id]? = some task)
      (hclosed : conn.isOpen = false) :
      Steps X c s conn (.send id) s
        { conn with subscriptionTasks := conn.subscriptionTasks.erase id }
  | sent {id task} (htask : conn.subscriptionTasks[id]? = some task)
      (hopen : conn.isOpen = true) (e : InstanceEvent) :
      Steps X c s conn (.send id) s { conn with
        eventRx := conn.eventRx ++ [⟨id, e, task.includeCtx⟩]
        subscriptionTasks := conn.subscriptionTasks.insert id { task with waiting := none } }
  | delivered {f eventRx} (hopen : conn.isOpen = true) (hrx : conn.eventRx = f :: eventRx) :
      Steps X c s conn (.deliver true) s
        { conn with eventRx, streamed := conn.streamed ++ [f.streamEvent] }
  | undelivered (hopen : conn.isOpen = true) : Steps X c s conn (.deliver false) s conn.dropped
  | hungUp (hopen : conn.isOpen = true) :
      Steps X c s conn .hangUp (cleanupSubscriptions conn.session s) conn.finished
  | failed (hopen : conn.isOpen = true) : Steps X c s conn .fail s conn.dropped

end Connection

section
variable {X : ServerExternals} {c : CommandHandler} {s s' : Shared} {conn conn' : Connection}
  {request : Request} {r : Response}

theorem dispatched_of_dispatch (h : dispatch X c s conn request = some (s', conn', r)) :
    Dispatched X c s conn request s' conn' r := by
  unfold dispatch at h
  dsimp only at h
  split at h
  · rename_i hop
    have hmem : request.op ∈ watchOps := by simp [hop, watchOps]
    split at h <;> rename_i hw <;> cases h
    · have hwatch : Watched X s conn.session _ _ (.error _) := handleWatchInstance_watched hw
      cases hwatch
      exact .refused hmem _
    · have hwatch : Watched X s conn.session _ _ (.ok _) := handleWatchInstance_watched hw
      obtain rfl := hwatch.id_eq
      exact .watched hmem hwatch _
  · rename_i hop
    have hmem : request.op ∈ watchOps := by simp [hop, watchOps]
    split at h <;> rename_i hw <;> cases h
    · have hwatch : Watched X s conn.session _ _ (.error _) := handleWatchAll_watched hw
      cases hwatch
      exact .refused hmem _
    · have hwatch : Watched X s conn.session _ _ (.ok _) := handleWatchAll_watched hw
      obtain rfl := hwatch.id_eq
      exact .watched hmem hwatch _
  · rename_i hop
    obtain ⟨_, hh, hout⟩ := Option.map_eq_some_iff.mp h
    cases hout
    have hunwatched := Dispatched.unwatched hop hh
    unfold abortedId without at hunwatched
    split at hunwatched <;> rename_i hid <;> simpa only [hid] using hunwatched
  · rename_i hinstance hall hunwatch
    obtain ⟨_, hh, hout⟩ := Option.map_eq_some_iff.mp h
    cases hout
    exact .handled (by simpa [watchOps] using ⟨hinstance, hall⟩) hunwatch hh

/-- A request changes the session and the tasks, and nothing else of its connection. -/
theorem dispatch_frame (h : dispatch X c s conn request = some (s', conn', r)) :
    ∃ ses tasks, conn' = { conn with session := ses, subscriptionTasks := tasks } := by
  cases dispatched_of_dispatch h <;> exact ⟨_, _, rfl⟩

theorem recv_channel (b : EventBroadcaster) (receiver : Receiver) :
    (b.recv receiver).2.channel = receiver.channel := by
  unfold EventBroadcaster.recv
  dsimp only
  repeat' split
  all_goals rfl

namespace Connection

variable {op : ConnectionOp}

theorem steps_of_step (h : conn.step X c s op = some (s', conn')) :
    Steps X c s conn op s' conn' := by
  cases op with
  | request request written =>
    simp only [step] at h
    split at h
    · rename_i hopen
      split at h
      · rename_i hd
        cases h
        exact .panicked _ hopen hd
      rename_i hd
      cases written with
      | false =>
        cases h
        exact .unanswered hopen hd
      | true =>
        simp only [Bool.not_true, Bool.false_eq_true, if_false] at h
        split at h <;> rename_i hstate <;> cases h
        · exact .closed hopen hd hstate
        · exact .answered hopen hd hstate
    · cases h
  | receive id =>
    simp only [step] at h
    split at h
    · rename_i task b htask hb
      have channel := recv_channel b task.receiver
      split at h
      · cases h
      · split at h <;> rename_i hr <;> rw [hr] at channel <;> cases h <;>
          exact .received htask channel
    · cases h
  | send id =>
    simp only [step] at h
    split at h
    · cases h
    rename_i task htask
    split at h
    · cases h
    split at h
    · rename_i hclosed
      cases h
      exact .cancelled htask (by simpa using hclosed)
    · rename_i hopen
      split at h <;> cases h
      exact .sent htask (by simpa using hopen) _
  | deliver written =>
    simp only [step] at h
    split at h
    · cases h
    rename_i hrx
    split at h
    · rename_i hopen
      cases written <;> cases h
      · exact .undelivered hopen
      · exact .delivered hopen hrx
    · cases h
  | hangUp =>
    simp only [step] at h
    split at h <;> cases h
    exact .hungUp ‹_›
  | fail =>
    simp only [step] at h
    split at h <;> cases h
    exact .failed ‹_›

theorem open_of_step (h : conn.step X c s op = some (s', conn')) (hopen : conn'.isOpen = true) :
    conn.isOpen = true := by
  cases steps_of_step h with
  | received | cancelled => exact hopen
  | panicked _ ho | unanswered ho | closed ho | answered ho | sent _ ho | delivered ho
  | undelivered ho | hungUp ho | failed ho => exact ho

end Connection

theorem Hub.connection_of_step {hub hub' : Hub} {k : Nat} {op : ConnectionOp}
    (h : hub.step X (.connection k op) = some hub') :
    ∃ conn s' conn', hub.connections[k]? = some conn ∧
      conn.step X hub.server.handler hub.server.shared op = some (s', conn') ∧
      hub' = ⟨{ hub.server with shared := s' }, hub.connections.set k conn'⟩ := by
  simp only [step] at h
  split at h
  · cases h
  rename_i conn hk
  obtain ⟨⟨s', conn'⟩, hstep, hout⟩ := Option.map_eq_some_iff.mp h
  cases hout
  exact ⟨conn, s', conn', hk, hstep, rfl⟩

end

/-! ## Authentication -/

/-- The operations that a client may use before it has authenticated. -/
def exemptOps : List Operation := [.hello, .auth, .ping, .bye]

def Response.isUnauthorized (r : Response) : Bool :=
  r.isError && r.error.any (·.code = .unauthorized)

/-- An authentication with a token that is configured, answered with ok. -/
def authenticates (X : ServerExternals) (c : CommandHandler) (p : Request × Response) : Bool :=
  p.1.op = .auth && p.2.isOk && (AuthParams.fromValue p.1.params).any fun auth =>
    c.tokenValidator.any fun validator => validator.validate X auth.token

def Connection.authSucceeded (X : ServerExternals) (c : CommandHandler) (conn : Connection) :
    Bool :=
  conn.answered.any (authenticates X c)

/-- The step keeps the authentication of a connection: as long as none has succeeded
on it, nothing is streamed to it, and any request that is not exempt is answered with
`UNAUTHORIZED`, with all that the requests share as it was and, in a batch, no
operation handled. -/
def Hub.Enforced (X : ServerExternals) (k : Nat) (hub : Hub) (op : HubOp) : Prop :=
  ∀ conn, hub.connections[k]? = some conn →
    conn.authSucceeded X hub.server.handler = false →
      conn.streamed = [] ∧
      (∀ written, op = .connection k (.deliver written) → hub.step X op = none) ∧
      ∀ request written, op = .connection k (.request request written) → conn.isOpen = true →
        request.op ∉ exemptOps →
          calls X hub.server.handler hub.server.shared conn.session request =
            [⟨hub.server.shared, conn.session, request⟩] ∧
          ∃ hub' conn' r, hub.step X op = some hub' ∧
            hub'.server.shared = hub.server.shared ∧ hub'.connections[k]? = some conn' ∧
            conn'.answered = conn.answered ++ [(request, r)] ∧ r.isUnauthorized = true

/-- The step is no request of the connection to watch before it has authenticated. -/
def Hub.guarded (X : ServerExternals) (k : Nat) (hub : Hub) : HubOp → Bool
  | .connection j (.request request _) =>
    j ≠ k || !watchOps.contains request.op || (hub.connections[k]?).all fun conn =>
      !conn.isOpen || conn.authSucceeded X hub.server.handler
  | _ => true

section
variable {X : ServerExternals} {c : CommandHandler} {v : TokenValidator} {s s' : Shared}

theorem ServerError.errorCode_ne_unauthorized (e : ServerError) : e.errorCode ≠ .unauthorized := by
  cases e with
  | core e =>
    simp only [ServerError.errorCode]
    repeat' split
    all_goals simp
  | _ => simp [ServerError.errorCode]

theorem responseOf_not_unauthorized (id : String) (answer : Answered) :
    (responseOf X id answer).isUnauthorized = false := by
  cases answer with
  | ok => rfl
  | error e =>
    simp [responseOf, Response.isUnauthorized, Response.failed, ResponseError.new,
      e.errorCode_ne_unauthorized]

theorem requiresAuth_iff (hc : c.authRequired = true) (op : Operation) :
    c.requiresAuth op = true ↔ op ∉ exemptOps := by
  cases op <;> simp [CommandHandler.requiresAuth, hc, exemptOps]

/-- Only a token that is configured authenticates a session. -/
theorem handleAuth_authenticated {ses : Session} {params : Value}
    (hv : c.tokenValidator = some v) (hu : ses.authenticated = false)
    (ha : (handleAuth X c ses params).1.authenticated = true) :
    (handleAuth X c ses params).2.isOk = true ∧
      (AuthParams.fromValue params).any fun auth => v.validate X auth.token := by
  generalize h : handleAuth X c ses params = out at ha ⊢
  unfold handleAuth at h
  split at h
  · cases h
    simp [hu] at ha
  rename_i auth hauth
  simp only [hv] at h
  split at h
  · cases h
    simp [hu] at ha
  split at h
  · rename_i hvalid
    cases h
    exact ⟨rfl, by simp [hauth, hvalid]⟩
  · cases h
    simp [hu] at ha

theorem handleHello_authenticated (ses : Session) (params : Value) :
    (handleHello X c ses params).1.authenticated = ses.authenticated := by
  unfold handleHello
  split
  · rfl
  · split <;> rfl

/-- A request of a session that has not authenticated: it is refused, or its operation
is exempt and only an authentication changes that. -/
theorem handle_unauthenticated {ses ses' : Session} {request : Request} {r : Response}
    (hc : c.authRequired = true) (hv : c.tokenValidator = some v)
    (hu : ses.authenticated = false) (h : handle X c s ses request = some (s', ses', r)) :
    s' = s ∧
      (request.op ∉ exemptOps ∧ r = unauthorizedResponse request.id ∧
          ses'.authenticated = false ∨
        request.op ∈ exemptOps ∧
          (ses'.authenticated = true → authenticates X c (request, r) = true)) := by
  obtain ⟨hr, rfl, rfl, rfl⟩ | ⟨hr, answer, rfl, hcase⟩ := handle_cases h
  · refine ⟨rfl, .inl ⟨(requiresAuth_iff hc _).mp ?_, rfl, hu⟩⟩
    exact (Bool.and_eq_true_iff.mp hr).1
  · have hex : request.op ∈ exemptOps := by
      by_contra hne
      simp [(requiresAuth_iff hc _).mpr hne, hu] at hr
    obtain ⟨hbatch, -⟩ | ⟨-, he⟩ := hcase
    · simp [hbatch, exemptOps] at hex
    · have hu' : ses.recordRequest.authenticated = false := hu
      have kept {ses₁ : Session} (h₁ : ses₁.authenticated = ses.recordRequest.authenticated)
          (h₂ : ses₁.authenticated = true) : False := by
        rw [h₁, hu'] at h₂
        cases h₂
      have hex' := hex
      simp only [exemptOps, List.mem_cons, List.not_mem_nil, or_false] at hex'
      obtain hop | hop | hop | hop := hex' <;> rw [hop] at he
      · cases he
        exact ⟨rfl, .inr ⟨hex, fun ha => (kept (handleHello_authenticated _ _) ha).elim⟩⟩
      · cases he
        refine ⟨rfl, .inr ⟨hex, fun ha => ?_⟩⟩
        obtain ⟨hok, hvalid⟩ := handleAuth_authenticated hv hu' ha
        have hresponse (answer : Answered) (hok : answer.isOk = true) :
            (responseOf X request.id answer).isOk = true := by
          cases answer with
          | ok => rfl
          | error => cases hok
        simp [authenticates, hop, hresponse _ hok, hv, hvalid]
      · cases he
        exact ⟨rfl, .inr ⟨hex, fun ha => (kept rfl ha).elim⟩⟩
      · cases he
        exact ⟨rfl, .inr ⟨hex, fun ha => (kept rfl ha).elim⟩⟩

/-- What such a request does cannot panic. -/
theorem handle_unauthenticated_returns {ses : Session} {request : Request}
    (hc : c.authRequired = true) (hu : ses.authenticated = false) :
    handle X c s ses request ≠ none := by
  rw [handle_eq]
  by_cases hex : request.op ∈ exemptOps
  · simp only [exemptOps, List.mem_cons, List.not_mem_nil, or_false] at hex
    obtain hop | hop | hop | hop := hex <;>
      simp [hop, CommandHandler.requiresAuth, execute]
  · simp [(requiresAuth_iff hc _).mpr hex, hu]

/-- Before an authentication has succeeded on it, the session is not authenticated,
and there is nothing to stream and no task that could. -/
structure Connection.Shielded (X : ServerExternals) (c : CommandHandler) (conn : Connection) :
    Prop where
  session : conn.session.authenticated = true → conn.authSucceeded X c = true
  quiet : conn.authSucceeded X c = false →
    conn.subscriptionTasks = ∅ ∧ conn.eventRx = [] ∧ conn.streamed = []

namespace Connection

variable {conn conn' : Connection} {request : Request} {r : Response}

theorem shielded_new (hc : c.authRequired = true) : (new c.authRequired).Shielded X c := by
  refine ⟨fun h => ?_, fun _ => ⟨rfl, rfl, rfl⟩⟩
  simp [new, Session.new, hc] at h

theorem Shielded.of_succeeded (h : conn.authSucceeded X c = true) : conn.Shielded X c :=
  ⟨fun _ => h, fun hn => by simp [h] at hn⟩

theorem Shielded.dropped (h : conn.Shielded X c) : conn.dropped.Shielded X c :=
  ⟨h.session, fun hn => ⟨(h.quiet hn).1, rfl, (h.quiet hn).2.2⟩⟩

theorem Shielded.finished (h : conn.Shielded X c) : conn.finished.Shielded X c :=
  ⟨h.session, fun hn => ⟨rfl, rfl, (h.quiet hn).2.2⟩⟩

/-- A request other than one to watch leads to one call of `handle`, and touches no
task but to end it. -/
theorem dispatch_handle (hop : request.op ∉ watchOps)
    (h : dispatch X c s conn request = some (s', conn', r)) :
    ∃ ses' tasks, handle X c s conn.session request = some (s', ses', r) ∧
      conn' = { conn with session := ses', subscriptionTasks := tasks } ∧
      (conn.subscriptionTasks = ∅ → tasks = ∅) := by
  cases dispatched_of_dispatch h with
  | refused hwatch | watched hwatch => exact absurd hwatch hop
  | unwatched _ hh =>
    refine ⟨_, _, hh, rfl, fun hempty => ?_⟩
    rw [hempty]
    cases abortedId request <;> simp [without]
  | handled _ _ hh => exact ⟨_, _, hh, rfl, id⟩

theorem dispatch_of_handle {ses' : Session} (hop : request.op ∉ watchOps)
    (hh : handle X c s conn.session request = some (s', ses', r)) :
    ∃ tasks, dispatch X c s conn request =
      some (s', { conn with session := ses', subscriptionTasks := tasks }, r) := by
  simp only [watchOps, List.mem_cons, List.not_mem_nil, or_false, not_or] at hop
  unfold dispatch
  dsimp only
  split
  · exact absurd ‹_› hop.1
  · exact absurd ‹_› hop.2
  · exact ⟨_, by rw [hh]; rfl⟩
  · exact ⟨_, by rw [hh]; rfl⟩

theorem handle_panics (hop : request.op ∉ watchOps) (h : dispatch X c s conn request = none) :
    handle X c s conn.session request = none := by
  cases hh : handle X c s conn.session request with
  | none => rfl
  | some out =>
    obtain ⟨tasks, hd⟩ := dispatch_of_handle hop hh
    rw [hd] at h
    cases h

theorem dispatch_watch (hop : request.op ∈ watchOps)
    (h : dispatch X c s conn request = some (s', conn', r)) : r.isUnauthorized = false := by
  cases dispatched_of_dispatch h with
  | refused | watched => exact responseOf_not_unauthorized _ _
  | unwatched hunwatch => simp [hunwatch, watchOps] at hop
  | handled hnot => exact absurd hop hnot

theorem authSucceeded_snoc (conn : Connection) (p : Request × Response) :
    ({ conn with answered := conn.answered ++ [p] } : Connection).authSucceeded X c =
      (conn.authSucceeded X c || authenticates X c p) := by
  simp [authSucceeded]

theorem Shielded.dispatch (hc : c.authRequired = true) (hv : c.tokenValidator = some v)
    (h : conn.Shielded X c)
    (hguard : request.op ∈ watchOps → conn.authSucceeded X c = true)
    (hd : dispatch X c s conn request = some (s', conn', r)) :
    ({ conn' with answered := conn'.answered ++ [(request, r)] } : Connection).Shielded X c := by
  have hsucceeded : conn'.authSucceeded X c = conn.authSucceeded X c := by
    obtain ⟨_, _, rfl⟩ := dispatch_frame hd
    rfl
  cases hs : conn.authSucceeded X c with
  | true =>
    apply Shielded.of_succeeded
    rw [authSucceeded_snoc, hsucceeded, hs, Bool.true_or]
  | false =>
    have hop : request.op ∉ watchOps := fun hop => by simp [hguard hop] at hs
    have hu : conn.session.authenticated = false := by
      by_contra hne
      rw [h.session (by simpa using hne)] at hs
      cases hs
    obtain ⟨ses', tasks, hh, rfl, htasks⟩ := dispatch_handle hop hd
    obtain ⟨-, hcases⟩ := handle_unauthenticated hc hv hu hh
    obtain ⟨hquiet, hrx, hstreamed⟩ := h.quiet hs
    refine ⟨fun ha => ?_, fun _ => ⟨htasks hquiet, hrx, hstreamed⟩⟩
    rw [authSucceeded_snoc]
    obtain ⟨-, -, hu'⟩ | ⟨-, hauth⟩ := hcases
    · rw [hu'] at ha
      cases ha
    · rw [hauth ha, Bool.or_true]

theorem Shielded.step (hc : c.authRequired = true) (hv : c.tokenValidator = some v)
    (h : conn.Shielded X c) {op : ConnectionOp}
    (hguard : ∀ request written, op = .request request written → conn.isOpen = true →
      request.op ∈ watchOps → conn.authSucceeded X c = true)
    (hs : conn.step X c s op = some (s', conn')) : conn'.Shielded X c := by
  -- Tasks and events are there only once an authentication has succeeded.
  have busy (hne : conn.subscriptionTasks ≠ ∅ ∨ conn.eventRx ≠ []) :
      conn.authSucceeded X c = true := by
    by_contra hn
    obtain ⟨htasks, hrx, -⟩ := h.quiet (by simpa using hn)
    obtain hne | hne := hne
    · exact hne htasks
    · exact hne hrx
  have task {id : String} {t : Forwarder} (ht : conn.subscriptionTasks[id]? = some t) :
      conn.authSucceeded X c = true := by
    refine busy (.inl fun hempty => ?_)
    simp [hempty] at ht
  cases steps_of_step hs with
  | panicked written hopen hd =>
    refine .of_succeeded ?_
    by_contra hn
    have hwatch : _ ∉ watchOps := fun hop => hn (hguard _ _ rfl hopen hop)
    have hu : conn.session.authenticated = false := by
      by_contra hne
      exact hn (h.session (by simpa using hne))
    exact handle_unauthenticated_returns hc hu (handle_panics hwatch hd)
  | unanswered hopen hd => exact (h.dispatch hc hv (hguard _ _ rfl hopen) hd).dropped
  | closed hopen hd => exact (h.dispatch hc hv (hguard _ _ rfl hopen) hd).finished
  | answered hopen hd => exact h.dispatch hc hv (hguard _ _ rfl hopen) hd
  | received htask | cancelled htask | sent htask => exact .of_succeeded (task htask)
  | delivered _ hrx => exact .of_succeeded (busy (.inr (by simp [hrx])))
  | undelivered | failed => exact h.dropped
  | hungUp => exact h.finished

theorem step_request {written : Bool}
    (hs : conn.step X c s (.request request written) = some (s', conn')) :
    conn.isOpen = true ∧
      (Rstmdb.dispatch X c s conn request = none ∧ conn'.answered = conn.answered ∨
        ∃ s₁ conn₁ r, Rstmdb.dispatch X c s conn request = some (s₁, conn₁, r) ∧
          conn'.answered = conn.answered ++ [(request, r)]) := by
  cases steps_of_step hs with
  | panicked _ hopen hd => exact ⟨hopen, .inl ⟨hd, rfl⟩⟩
  | unanswered hopen hd | closed hopen hd | answered hopen hd =>
    refine ⟨hopen, .inr ⟨_, _, _, hd, ?_⟩⟩
    obtain ⟨_, _, rfl⟩ := dispatch_frame hd
    rfl

theorem running_step {op : ConnectionOp} (h : conn.isOpen = true → conn.session.state ≠ .closing)
    (hs : conn.step X c s op = some (s', conn')) :
    conn'.isOpen = true → conn'.session.state ≠ .closing := by
  cases steps_of_step hs with
  | answered _ _ running => exact fun _ => running
  | received | cancelled | sent | delivered => exact h
  | panicked | unanswered | closed | undelivered | hungUp | failed => exact nofun

end Connection

namespace Hub

variable {hub hub' : Hub} {k : Nat} {op : HubOp}

theorem step_connection (h : hub.step X op = some hub') :
    hub'.server.handler = hub.server.handler ∧
      ∀ conn', hub'.connections[k]? = some conn' →
        hub.connections[k]? = some conn' ∨
        (op = .accept ∧ conn' = .new hub.server.handler.authRequired) ∨
        ∃ cop conn, op = .connection k cop ∧ hub.connections[k]? = some conn ∧
          conn.step X hub.server.handler hub.server.shared cop =
            some (hub'.server.shared, conn') := by
  cases op with
  | accept =>
    cases h
    refine ⟨rfl, fun conn' hconn => ?_⟩
    rw [List.getElem?_append] at hconn
    split at hconn
    · exact .inl hconn
    right
    left
    rw [List.getElem?_singleton] at hconn
    split at hconn
    · cases hconn
      exact ⟨rfl, rfl⟩
    · cases hconn
  | connection j cop =>
    obtain ⟨conn, s₁, conn₁, hj, hstep, rfl⟩ := connection_of_step h
    refine ⟨rfl, fun conn' hconn => ?_⟩
    by_cases hjk : j = k
    · subst hjk
      have hlt : j < hub.connections.length := (List.getElem?_eq_some_iff.mp hj).1
      rw [List.getElem?_set_self hlt] at hconn
      cases hconn
      exact .inr (.inr ⟨cop, conn, rfl, hj, hstep⟩)
    · rw [List.getElem?_set_ne hjk] at hconn
      exact .inl hconn
  | compact =>
    cases h
    exact ⟨rfl, fun conn' hconn => .inl hconn⟩

/-- The connection is shielded by the handler that authenticates it. -/
structure Shielded (X : ServerExternals) (k : Nat) (hub : Hub) : Prop where
  required : hub.server.handler.authRequired = true
  validator : ∃ v, hub.server.handler.tokenValidator = some v
  connection : ∀ conn, hub.connections[k]? = some conn → conn.Shielded X hub.server.handler
  running : ∀ conn, hub.connections[k]? = some conn → conn.isOpen = true →
    conn.session.state ≠ .closing

theorem guarded_request {conn : Connection} {request : Request} {written : Bool}
    (h : hub.guarded X k (.connection k (.request request written)) = true)
    (hconn : hub.connections[k]? = some conn) (hopen : conn.isOpen = true)
    (hop : request.op ∈ watchOps) : conn.authSucceeded X hub.server.handler = true := by
  simpa [guarded, hop, hconn, hopen] using h

theorem Shielded.step (h : hub.Shielded X k) (hg : hub.guarded X k op = true)
    (hs : hub.step X op = some hub') : hub'.Shielded X k := by
  obtain ⟨hhandler, hconns⟩ := step_connection (k := k) hs
  obtain ⟨v, hv⟩ := h.validator
  refine ⟨hhandler ▸ h.required, hhandler ▸ h.validator, fun conn' hconn' => ?_,
    fun conn' hconn' => ?_⟩
  · rw [hhandler]
    obtain hsame | ⟨-, rfl⟩ | ⟨cop, conn, rfl, hconn, hstep⟩ := hconns conn' hconn'
    · exact h.connection conn' hsame
    · exact Connection.shielded_new h.required
    · refine (h.connection conn hconn).step h.required hv ?_ hstep
      rintro request written rfl hopen hop
      exact guarded_request hg hconn hopen hop
  · obtain hsame | ⟨-, rfl⟩ | ⟨cop, conn, rfl, hconn, hstep⟩ := hconns conn' hconn'
    · exact h.running conn' hsame
    · simp [Connection.new, Session.new]
    · exact Connection.running_step (h.running conn hconn) hstep

/-- A step that is guarded keeps the authentication. -/
theorem Shielded.enforced (h : hub.Shielded X k) (hg : hub.guarded X k op = true) :
    hub.Enforced X k op := by
  intro conn hconn hno
  obtain ⟨-, hrx, hstreamed⟩ := (h.connection conn hconn).quiet hno
  have hu : conn.session.authenticated = false := by
    by_contra hne
    rw [(h.connection conn hconn).session (by simpa using hne)] at hno
    cases hno
  refine ⟨hstreamed, ?_, ?_⟩
  · rintro written rfl
    simp [Hub.step, hconn, Connection.step, hrx]
  · rintro request written rfl hopen hop
    have hwatch : request.op ∉ watchOps := by
      intro hwatch
      rw [guarded_request hg hconn hopen hwatch] at hno
      cases hno
    have hr : (hub.server.handler.requiresAuth request.op && !conn.session.authenticated) =
        true := by simp [(requiresAuth_iff h.required _).mpr hop, hu]
    have hh : handle X hub.server.handler hub.server.shared conn.session request =
        some (hub.server.shared, conn.session.recordRequest, unauthorizedResponse request.id) := by
      rw [handle_eq, if_pos hr]
    obtain ⟨tasks, hd⟩ := Connection.dispatch_of_handle hwatch hh
    refine ⟨by rw [calls, callsWithin, if_pos hr], ?_⟩
    obtain ⟨s', conn', hstep, hshared, hanswered⟩ :
        ∃ s' conn', conn.step X hub.server.handler hub.server.shared (.request request written) =
          some (s', conn') ∧ s' = hub.server.shared ∧ conn'.answered =
            conn.answered ++ [(request, unauthorizedResponse request.id)] := by
      have hrunning : conn.session.recordRequest.state ≠ .closing := h.running conn hconn hopen
      simp only [Connection.step, hopen, if_true, hd]
      cases written with
      | false => exact ⟨_, _, rfl, rfl, rfl⟩
      | true =>
        rw [if_neg (by simp), if_neg hrunning]
        exact ⟨_, _, rfl, rfl, rfl⟩
    have hlt : k < hub.connections.length := (List.getElem?_eq_some_iff.mp hconn).1
    refine ⟨_, conn', _, by simp only [Hub.step, hconn, hstep]; rfl, hshared, ?_, hanswered, rfl⟩
    exact List.getElem?_set_self hlt

/-- A step that keeps the authentication is guarded: a request to watch is never
answered with `UNAUTHORIZED`. -/
theorem guarded_of_enforced (h : hub.Enforced X k op) : hub.guarded X k op = true := by
  by_contra hg
  cases op with
  | accept | compact => simp [guarded] at hg
  | connection j cop =>
    cases cop with
    | request request written =>
      simp only [guarded, Bool.or_eq_true, not_or, decide_eq_true_eq, not_not] at hg
      obtain ⟨⟨rfl, hwatch⟩, hnone⟩ := hg
      cases hconn : hub.connections[j]? with
      | none => simp [hconn] at hnone
      | some conn =>
        simp only [hconn, Option.all_some, Bool.or_eq_true, not_or, Bool.not_eq_true,
          Bool.not_eq_false'] at hnone
        obtain ⟨hopen, hno⟩ := hnone
        have hwatch : request.op ∈ watchOps := by simpa using hwatch
        have hop : request.op ∉ exemptOps := by
          simp only [watchOps, List.mem_cons, List.not_mem_nil, or_false] at hwatch
          obtain hwatch | hwatch := hwatch <;> simp [hwatch, exemptOps]
        obtain ⟨-, -, hrequest⟩ := h conn hconn hno
        obtain ⟨-, hub', conn', r, hs, -, hconn', hanswered, hr⟩ :=
          hrequest request written rfl hopen hop
        obtain ⟨conn, s₁, conn₁, hj, hstep, rfl⟩ := connection_of_step hs
        cases hconn.symm.trans hj
        have hlt : j < hub.connections.length := (List.getElem?_eq_some_iff.mp hconn).1
        rw [List.getElem?_set_self hlt] at hconn'
        cases hconn'
        obtain ⟨-, ⟨-, hanswered'⟩ | ⟨_, _, r', hd, hanswered'⟩⟩ :=
          Connection.step_request hstep <;> rw [hanswered'] at hanswered
        · simp at hanswered
        obtain rfl : r' = r := by simpa using hanswered
        rw [Connection.dispatch_watch hwatch hd] at hr
        cases hr
    | receive | send | deliver | hangUp | fail => simp [guarded] at hg

/-- Along every run, the authentication of a connection is enforced exactly if the
connection makes no request to watch before it has authenticated. -/
theorem auth_enforced_iff {config : ServerConfig} {dir : Dir} {snapshotDir : SnapshotDir}
    {uuids : Nat} {server : Server}
    (started : Server.start X config dir snapshotDir uuids = some (.ok server))
    (required : config.auth.required = true) (tokens : config.auth.tokenHashes ≠ []) (k : Nat)
    (ops : List HubOp) :
    Meets (step X) (Enforced X k) ⟨server, []⟩ ops ↔
      Meets (step X) (fun hub op => hub.guarded X k op = true) ⟨server, []⟩ ops := by
  obtain ⟨-, hhandler⟩ := Server.start_parts started
  have hempty : config.auth.tokenHashes.isEmpty = false := by simpa using tokens
  have hfirst : (⟨server, []⟩ : Hub).Shielded X k := by
    refine ⟨?_, ?_, ?_, ?_⟩
    · simp [hhandler, CommandHandler.withAuth, required]
    · simp [hhandler, CommandHandler.withAuth, required, hempty]
    · simp
    · simp
  constructor
  · exact Meets.mono (P := fun _ => True) (fun _ _ _ _ _ _ => trivial)
      (fun _ _ _ => guarded_of_enforced) trivial
  · exact Meets.mono (P := Shielded X k) (fun _ _ _ h hg hs => h.step hg hs)
      (fun _ _ h hg => h.enforced hg) hfirst

end Hub

end

/-! ## A server with one token -/

/-- Authentication with the token that the outside functions know. -/
def tokenConfig : ServerConfig :=
  ⟨⟨1000, .everyWrite⟩,
    ⟨true, ["2bb80d537b1da3e38bd30361aa855686bde0eacd7162fef6a25fe97bf527a25b"]⟩, 0⟩

def watchAllRequest : Request := ⟨"1", .watchAll, .object []⟩

def authRequest : Request :=
  ⟨"1", .auth, .object [("method", .string "bearer"), ("token", .string "secret")]⟩

/-- Requests of a connection, all answers written. -/
def requestsOf (k : Nat) (requests : List Request) : List HubOp :=
  requests.map fun request => .connection k (.request request true)

namespace Hub

set_option maxRecDepth 4000 in
/-- A client that authenticates after it was refused. -/
theorem auth_enforced_for_client :
    Meets (step serdeServer) (Enforced serdeServer 0) ⟨.fresh tokenConfig, []⟩
      (.accept :: requestsOf 0 [putLoop, authRequest, putLoop, watchAllRequest]) := by
  refine (@auth_enforced_iff _ tokenConfig _ _ _ _ (Server.start_empty rfl) rfl (by decide) 0
    _).mpr ?_
  decide +kernel

set_option maxRecDepth 4000 in
/-- A client that never authenticates watches all events, and gets the event that
another client applies. -/
theorem watch_without_auth :
    ∃ hub, run (step serdeServer) ⟨.fresh tokenConfig, []⟩
        (.accept :: .accept :: (requestsOf 0 [watchAllRequest] ++
          requestsOf 1 [authRequest, putLoop, createLoop "i" [], applyLoop "i" .null] ++
          [.connection 0 (.receive "sub-00000000-0000-4000-8000-100000000000"),
            .connection 0 (.send "sub-00000000-0000-4000-8000-100000000000"),
            .connection 0 (.deliver true)])) = some hub ∧
      ∃ conn, hub.connections[0]? = some conn ∧
        conn.answered.map (fun p => (p.1.op, p.2.isOk)) = [(.watchAll, true)] ∧
        conn.streamed.map StreamEvent.instanceId = ["i"] := by
  refine run_exists (p := fun hub => (hub.connections[0]?).any (fun conn =>
    conn.answered.map (fun p => (p.1.op, p.2.isOk)) = [(.watchAll, true)] &&
      conn.streamed.map StreamEvent.instanceId = ["i"]) = true) (by decide +kernel) ?_
  intro hub _ h
  obtain ⟨conn, hconn, h⟩ := (Option.any_eq_true _ _).mp h
  obtain ⟨hanswered, hstreamed⟩ := Bool.and_eq_true_iff.mp h
  exact ⟨conn, hconn, of_decide_eq_true hanswered, of_decide_eq_true hstreamed⟩

end Hub

end Rstmdb

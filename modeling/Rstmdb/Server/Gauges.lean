import Rstmdb.Lib.Tally
import Rstmdb.Server.Unwatch

/-! The gauges of connections and of subscriptions. They are kept apart from what they
count: the listener counts connections in and out, the watch handlers and `handle_unwatch`
count subscriptions. What each gauge is off by adds up along a run. -/
namespace Rstmdb
open Json (Value)

/-- The labels of the gauge of subscriptions. -/
inductive SubscriptionLabel
  | instance : SubscriptionLabel
  | all
  deriving DecidableEq, Repr

def SessionSubscriptionType.label : SessionSubscriptionType → SubscriptionLabel
  | .instance _ => .instance
  | .all => .all

structure Gauges where
  connectionsActive : Int
  subscriptionsActive : SubscriptionLabel → Int

namespace Gauges

def zero : Gauges := ⟨0, fun _ => 0⟩

def connected (g : Gauges) : Gauges := { g with connectionsActive := g.connectionsActive + 1 }

def disconnected (g : Gauges) : Gauges := { g with connectionsActive := g.connectionsActive - 1 }

def moved (g : Gauges) (n : Int) (l : SubscriptionLabel) : Gauges :=
  { g with
    subscriptionsActive := Function.update g.subscriptionsActive l (g.subscriptionsActive l + n) }

def watched (g : Gauges) (l : SubscriptionLabel) : Gauges := g.moved 1 l

def unwatched (g : Gauges) (l : SubscriptionLabel) : Gauges := g.moved (-1) l

end Gauges

/-- The label of the subscription that a request to watch adds. `WATCH_ALL` adds it before
it can panic. -/
def watchedLabel (X : ServerExternals) (s : Shared) (ses : Session) (request : Request) :
    Option SubscriptionLabel :=
  match request.op with
  | .watchInstance =>
    match handleWatchInstance X s ses request.params with
    | (_, _, .ok _) => some .instance
    | (_, _, .error _) => none
  | .watchAll =>
    match handleWatchAll X s ses request.params with
    | some (_, _, .error _) => none
    | _ => some .all
  | _ => none

/-- The label of the subscription that a request to unwatch takes out of the session. -/
def removedLabel (ses : Session) (request : Request) : Option SubscriptionLabel :=
  if request.op = .unwatch then
    ((UnwatchParams.fromValue request.params).bind fun p =>
      ses.subscriptions[p.subscriptionId]?).map SessionSubscriptionType.label
  else none

/-- What a call of `handle` adds, without telling the gauge. -/
def Call.added (X : ServerExternals) (c : CommandHandler) (k : Call) : Option SubscriptionLabel :=
  if c.requiresAuth k.request.op && !k.session.authenticated then none
  else watchedLabel X k.shared k.session.recordRequest k.request

/-- What a call of `handle` takes out, and tells the gauge. -/
def Call.removed (c : CommandHandler) (k : Call) : Option SubscriptionLabel :=
  if c.requiresAuth k.request.op && !k.session.authenticated then none
  else removedLabel k.session.recordRequest k.request

namespace Connection

/-- What a request to watch adds at the top level. -/
def watches (X : ServerExternals) (s : Shared) (conn : Connection) (request : Request) :
    List SubscriptionLabel :=
  if request.op ∈ watchOps then (watchedLabel X s conn.session request).toList else []

/-- What a request adds in its batches. -/
def batchWatches (X : ServerExternals) (c : CommandHandler) (s : Shared) (conn : Connection)
    (request : Request) : List SubscriptionLabel :=
  if request.op ∈ watchOps then []
  else (calls X c s conn.session request).filterMap (Call.added X c)

/-- What a request takes out, at the top level or in its batches. -/
def unwatches (X : ServerExternals) (c : CommandHandler) (s : Shared) (conn : Connection)
    (request : Request) : List SubscriptionLabel :=
  if request.op ∈ watchOps then []
  else (calls X c s conn.session request).filterMap (Call.removed c)

/-- The subscriptions with the label that a step adds in a batch. -/
def addsInBatch (X : ServerExternals) (c : CommandHandler) (s : Shared) (conn : Connection)
    (l : SubscriptionLabel) : ConnectionOp → Nat
  | .request request _ => (conn.batchWatches X c s request).count l
  | _ => 0

/-- The gauges after a step of the connection. -/
def gauged (X : ServerExternals) (c : CommandHandler) (s : Shared) (conn : Connection)
    (g : Gauges) : ConnectionOp → Gauges
  | .request request _ =>
    (conn.unwatches X c s request).foldl Gauges.unwatched
      ((conn.watches X s request).foldl Gauges.watched g)
  | _ => g

end Connection

/-- The server with its listener: connections that are accepted perform their handshake
first, and `active` is the number by which the listener turns clients away. -/
structure Listener where
  hub : Hub
  maxConnections : Nat
  tlsEnabled : Bool
  handshaking : Nat
  active : Nat
  gauges : Gauges

inductive ListenerOp
  | arrive
  | handshake (succeeds : Bool)
  | connection (k : Nat) (op : ConnectionOp)
  | compact

def Hub.isOpen (hub : Hub) (k : Nat) : Bool := (hub.connections[k]?).any (·.isOpen)

namespace Listener

def new (server : Server) (maxConnections : Nat) (tlsEnabled : Bool) : Listener :=
  ⟨⟨server, []⟩, maxConnections, tlsEnabled, 0, 0, .zero⟩

/-- `handle_connection` has returned. -/
def left (l : Listener) : Listener :=
  { l with active := l.active - 1, gauges := l.gauges.disconnected }

def step (X : ServerExternals) (l : Listener) : ListenerOp → Option Listener
  | .arrive =>
    if l.maxConnections ≤ l.active then some l
    else
      some { l with
        handshaking := l.handshaking + 1, active := l.active + 1, gauges := l.gauges.connected }
  | .handshake true =>
    if l.handshaking = 0 then none
    else
      (l.hub.step X .accept).map fun hub => { l with hub, handshaking := l.handshaking - 1 }
  | .handshake false =>
    -- The gauge is not told.
    if l.handshaking = 0 || !l.tlsEnabled then none
    else some { l with handshaking := l.handshaking - 1, active := l.active - 1 }
  | .connection k op =>
    match l.hub.connections[k]?, l.hub.step X (.connection k op) with
    | some conn, some hub =>
      let l' := { l with
        hub, gauges := conn.gauged X l.hub.server.handler l.hub.server.shared l.gauges op }
      -- A panic takes the task past the decrements.
      some (if l.hub.isOpen k && !hub.isOpen k && !l.hub.panics X k (.connection k op) then l'.left
        else l')
    | _, _ => none
  | .compact => (l.hub.step X .compact).map fun hub => { l with hub }

end Listener

/-! ## What the gauges count -/

/-- The subscriptions of a session with the label. -/
def Session.held (ses : Session) (l : SubscriptionLabel) : Nat :=
  Table.count ses.subscriptions (·.label = l)

/-- What the session of the connection holds while the connection is open. -/
def Connection.holding (conn : Connection) (l : SubscriptionLabel) : Nat :=
  if conn.isOpen then conn.session.held l else 0

/-- The subscriptions with the label that open sessions hold. -/
def Hub.held (hub : Hub) (l : SubscriptionLabel) : Nat :=
  (hub.connections.map (·.holding l)).sum

def Hub.openConnections (hub : Hub) : Nat :=
  (hub.connections.map fun conn => if conn.isOpen then 1 else 0).sum

namespace Listener

/-- The open connections, with those that still perform their handshake. -/
def openConnections (l : Listener) : Nat := l.handshaking + l.hub.openConnections

/-- The ends of a connection that the gauge is not told of: a handshake that fails, and a
request that panics. -/
def untold (X : ServerExternals) (l : Listener) : ListenerOp → Nat
  | .handshake false => 1
  | .connection k op => (l.hub.panics X k (.connection k op)).toNat
  | _ => 0

/-- The subscriptions that a step adds in a batch. -/
def watchedInBatch (X : ServerExternals) (label : SubscriptionLabel) (l : Listener) :
    ListenerOp → Nat
  | .connection k op =>
    (l.hub.connections[k]?).elim 0
      (·.addsInBatch X l.hub.server.handler l.hub.server.shared label op)
  | _ => 0

/-- The subscriptions of the session of a connection that ends with the step. -/
def leftBehind (X : ServerExternals) (label : SubscriptionLabel) (l : Listener) :
    ListenerOp → Nat
  | .connection k op =>
    match l.hub.step X (.connection k op) with
    | some hub =>
      if l.hub.isOpen k && !hub.isOpen k then
        (hub.connections[k]?).elim 0 (·.session.held label)
      else 0
    | none => 0
  | _ => 0

end Listener

/-! ## Subscriptions of a session -/

section
variable {X : ServerExternals} {c : CommandHandler} {s s' : Shared} {ses ses' : Session}

/-- The subscriptions of the session were handed out. -/
def Session.Drawn (X : ServerExternals) (s : Shared) (ses : Session) : Prop :=
  ∀ id ∈ ses.subscriptions, s.handedOut X id

variable {params : Value} {request : Request} {r : Response}

theorem Session.Drawn.resubscribed (h : ses.Drawn X s) {op : Operation}
    (hr : Resubscribed X s ses op params s' ses') : ses'.Drawn X s' := by
  intro id hid
  cases hr with
  | kept registry session drawn =>
    rw [session] at hid
    exact (h id hid).mono drawn
  | added hop kind own registry session drawn =>
    rw [session, mem_insert_iff] at hid
    obtain rfl | hid := hid
    · exact ⟨s.uuids, by omega, rfl⟩
    · exact (h id hid).mono (by omega)
  | removed hop p hp registry session drawn =>
    rw [session, mem_erase_iff] at hid
    exact (h id hid.2).mono (by omega)

theorem Session.Drawn.fresh (huuid : Function.Injective X.uuid) (h : ses.Drawn X s) :
    ses.subscriptions[subscriptionId X s]? = none := by
  apply Std.ExtTreeMap.getElem?_eq_none
  exact fun hin => subscriptionId_new huuid (h _ hin) rfl

theorem held_insert (huuid : Function.Injective X.uuid) (h : ses.Drawn X s)
    (kind : SessionSubscriptionType)
    (hses : ses'.subscriptions = ses.subscriptions.insert (subscriptionId X s) kind)
    (l : SubscriptionLabel) : ses'.held l = ses.held l + (some kind.label).toList.count l := by
  rw [Session.held, hses, Table.count_insert_new (h.fresh huuid), Session.held]
  simp [List.count_singleton, Bool.toNat]

theorem held_erase (ses : Session) (id : String) (l : SubscriptionLabel)
    (hses : ses'.subscriptions = ses.subscriptions.erase id) :
    ses'.held l + ((ses.subscriptions[id]?).map SessionSubscriptionType.label).toList.count l =
      ses.held l := by
  rw [Session.held, hses, Session.held, ← Table.count_erase ses.subscriptions id]
  cases ses.subscriptions[id]? <;> simp [List.count_singleton, Bool.toNat]

theorem handleWatchInstance_held (huuid : Function.Injective X.uuid) (h : ses.Drawn X s)
    {r : Except ServerError (Value × String × Receiver)}
    (hw : handleWatchInstance X s ses params = (s', ses', r)) (id : String)
    (l : SubscriptionLabel) : ses'.held l =
      ses.held l + (watchedLabel X s ses ⟨id, .watchInstance, params⟩).toList.count l := by
  simp only [watchedLabel, hw]
  cases r with
  | error e =>
    have hwatch : Watched X s ses s' ses' (.error e) := handleWatchInstance_watched hw
    cases hwatch
    rfl
  | ok result =>
    unfold handleWatchInstance at hw
    repeat' split at hw
    all_goals cases hw
    exact held_insert huuid h (.instance _) rfl l

theorem handleWatchAll_held (huuid : Function.Injective X.uuid) (h : ses.Drawn X s)
    {r : Except ServerError (Value × String × Receiver × EventFilter)}
    (hw : handleWatchAll X s ses params = some (s', ses', r)) (id : String)
    (l : SubscriptionLabel) :
    ses'.held l = ses.held l + (watchedLabel X s ses ⟨id, .watchAll, params⟩).toList.count l := by
  simp only [watchedLabel, hw]
  cases r with
  | error e =>
    have hwatch : Watched X s ses s' ses' (.error e) := handleWatchAll_watched hw
    cases hwatch
    rfl
  | ok result =>
    unfold handleWatchAll at hw
    repeat' split at hw
    · cases hw
    · cases hw
    · obtain ⟨_, -, hout⟩ := Option.map_eq_some_iff.mp hw
      cases hout
      exact held_insert huuid h .all rfl l

theorem handleUnwatch_held (s : Shared) (ses : Session) (params : Value) (id : String)
    (l : SubscriptionLabel) :
    (handleUnwatch X s ses params).2.1.held l +
      (removedLabel ses ⟨id, .unwatch, params⟩).toList.count l = ses.held l := by
  unfold handleUnwatch removedLabel
  simp only [if_true]
  cases UnwatchParams.fromValue params with
  | none => rfl
  | some p => exact held_erase ses p.subscriptionId l rfl

/-- An operation changes what the session holds by what it adds and takes out. -/
theorem execute_held (huuid : Function.Injective X.uuid) (h : ses.Drawn X s) {answer : Answered}
    (he : execute X c s ses request.op request.params = some (s', ses', answer))
    (l : SubscriptionLabel) :
    ses'.held l + (removedLabel ses request).toList.count l =
      ses.held l + (watchedLabel X s ses request).toList.count l := by
  obtain ⟨id, op, params⟩ := request
  have other (hwatch : op ∉ watchOps) (hunwatch : op ≠ .unwatch)
      (hnone : watchedLabel X s ses ⟨id, op, params⟩ = none) :
      ses'.held l + (removedLabel ses ⟨id, op, params⟩).toList.count l =
        ses.held l + (watchedLabel X s ses ⟨id, op, params⟩).toList.count l := by
    have hses : ses'.subscriptions = ses.subscriptions := by
      cases execute_resubscribed he with
      | kept _ session _ => exact session
      | added hop => exact absurd hop hwatch
      | removed hop => exact absurd hop hunwatch
    rw [hnone, removedLabel, if_neg hunwatch, Session.held, hses]
    rfl
  cases op
  case watchInstance =>
    have hout := Option.some.inj he
    have hw : handleWatchInstance X s ses params = (s', ses', _) :=
      Prod.ext (congrArg (·.1) hout) (Prod.ext (congrArg (·.2.1) hout) rfl)
    exact handleWatchInstance_held huuid h hw id l
  case watchAll =>
    obtain ⟨⟨_, _, _⟩, hw, hout⟩ := Option.map_eq_some_iff.mp he
    cases hout
    exact handleWatchAll_held huuid h hw id l
  case unwatch =>
    have hheld := handleUnwatch_held (X := X) s ses params id l
    simp only [execute, Option.some.injEq] at he
    rw [he] at hheld
    exact hheld
  all_goals exact other (by decide) (by decide) rfl

theorem count_filterMap_snoc {α : Type} (f : α → Option SubscriptionLabel) (ks : List α) (k : α)
    (l : SubscriptionLabel) :
    ((ks ++ [k]).filterMap f).count l = (ks.filterMap f).count l + (f k).toList.count l := by
  rw [List.filterMap_append, List.count_append]
  cases h : f k <;> simp [h]

/-- An operation that panics takes nothing out. -/
theorem abandoned_held (huuid : Function.Injective X.uuid) (h : ses.Drawn X s)
    (hop : request.op ≠ .batch) (he : execute X c s ses request.op request.params = none)
    (l : SubscriptionLabel) :
    (abandoned X c s ses request.params request.op).2.held l +
        (removedLabel ses request).toList.count l =
      ses.held l + (watchedLabel X s ses request).toList.count l := by
  obtain ⟨id, op, params⟩ := request
  cases op
  case batch => exact absurd rfl hop
  case watchAll =>
    have hnone : handleWatchAll X s ses params = none := Option.map_eq_none_iff.mp he
    have hlabel : watchedLabel X s ses ⟨id, .watchAll, params⟩ = some .all := by
      simp only [watchedLabel, hnone]
    rw [hlabel]
    unfold handleWatchAll at hnone
    repeat' split at hnone
    · cases hnone
    · cases hnone
    · rename_i hp _ _ hb
      simp only [abandoned, hp, hb]
      exact held_insert huuid h .all rfl l
  case watchInstance | unwatch => cases he
  all_goals rfl

/-- After these calls of a request its session holds as much more as they added and took
out. -/
def Session.HeldAfter (X : ServerExternals) (c : CommandHandler) (ses : Session)
    (l : SubscriptionLabel) (ks : List Call) (s' : Shared) (ses' : Session) : Prop :=
  ses'.Drawn X s' ∧ ses'.held l + (ks.filterMap (Call.removed c)).count l =
    ses.held l + (ks.filterMap (Call.added X c)).count l

theorem Session.HeldAfter.snoc {ses₀ : Session} {l : SubscriptionLabel} {ks : List Call}
    (h : ses₀.HeldAfter X c l ks s ses)
    (hr : (c.requiresAuth request.op && !ses.authenticated) = false)
    (hdrawn : ses'.Drawn X s')
    (hheld : ses'.held l + (removedLabel ses.recordRequest request).toList.count l =
      ses.recordRequest.held l +
        (watchedLabel X s ses.recordRequest request).toList.count l) :
    ses₀.HeldAfter X c l (ks ++ [⟨s, ses, request⟩]) s' ses' := by
  refine ⟨hdrawn, ?_⟩
  rw [count_filterMap_snoc, count_filterMap_snoc, Call.removed, Call.added]
  simp only [hr, Bool.false_eq_true, if_false]
  have hrecord : ses.recordRequest.held l = ses.held l := rfl
  have hbefore := h.2
  omega

/-- A request changes what the session holds by what its calls add and take out. -/
theorem handle_held (huuid : Function.Injective X.uuid) (h : ses.Drawn X s)
    (l : SubscriptionLabel) (request : Request) :
    After X c (ses.HeldAfter X c l) [] (calls X c s ses request) (handle X c s ses request) := by
  refine calls_after ?_ ?_ ⟨h, rfl⟩ request
  · intro ks s ses request ⟨hdrawn, hheld⟩ hr
    refine ⟨hdrawn, ?_⟩
    have hnone : (⟨s, ses, request⟩ : Call).removed c = none ∧
        (⟨s, ses, request⟩ : Call).added X c = none := by
      unfold Call.removed Call.added
      obtain hr | hop := hr
      · simp only [hr, if_true, and_self]
      · simp only [removedLabel, watchedLabel, hop, reduceCtorEq, if_false, ite_self, and_self]
    rw [count_filterMap_snoc, count_filterMap_snoc, hnone.1, hnone.2]
    exact hheld
  · intro ks s ses request s' ses' answer hbefore hr he
    have hdrawn : ses.recordRequest.Drawn X s := hbefore.1
    exact hbefore.snoc hr (hdrawn.resubscribed (execute_resubscribed he))
      (execute_held huuid hdrawn he l)

section
variable (huuid : Function.Injective X.uuid) {conn : Connection} (h : conn.session.Drawn X s)
  {out : Shared × Session} (hout : requested X c s conn request = out) (l : SubscriptionLabel)
include huuid h hout

theorem watching_held (hop : request.op ∈ watchOps) : out.2.Drawn X out.1 ∧
    out.2.held l =
      conn.session.held l + (watchedLabel X s conn.session request).toList.count l := by
  obtain ⟨id, op, params⟩ := request
  cases hd : dispatch X c s conn ⟨id, op, params⟩ with
  | none =>
    rw [requested_of_none hd, unwound, if_pos hop] at hout
    subst hout
    simp only [watchOps, List.mem_cons, List.not_mem_nil, or_false] at hop
    refine ⟨h.resubscribed (abandoned_resubscribed ..), ?_⟩
    obtain rfl | rfl := hop <;> unfold dispatch at hd <;> dsimp only at hd
    · split at hd <;> cases hd
    · split at hd <;> cases hd
      rename_i hw
      have he : execute X c s conn.session .watchAll params = none :=
        Option.map_eq_none_iff.mpr hw
      exact @abandoned_held _ _ _ _ ⟨id, .watchAll, params⟩ huuid h (by simp) he l
  | some result =>
    obtain ⟨s', conn', r⟩ := result
    rw [requested_of_some hd] at hout
    subst hout
    have hkind := hop
    simp only [watchOps, List.mem_cons, List.not_mem_nil, or_false] at hkind
    obtain rfl | rfl := hkind <;> unfold dispatch at hd <;> dsimp only at hd
    · split at hd <;> rename_i hw <;> cases hd <;>
        exact ⟨h.resubscribed ((handleWatchInstance_watched hw).resubscribed hop params),
          handleWatchInstance_held huuid h hw id l⟩
    · split at hd <;> rename_i hw <;> cases hd <;>
        exact ⟨h.resubscribed ((handleWatchAll_watched hw).resubscribed hop params),
          handleWatchAll_held huuid h hw id l⟩

theorem handled_held (hop : request.op ∉ watchOps) :
    conn.session.HeldAfter X c l (calls X c s conn.session request) out.1 out.2 := by
  have hafter := handle_held (c := c) huuid h l request
  cases hd : dispatch X c s conn request with
  | none =>
    rw [Connection.handle_panics hop hd] at hafter
    obtain ⟨front, k, hcalls, hk, hpanics⟩ := hafter
    rw [requested_of_none hd, unwound_of_calls hop hcalls] at hout
    subst hout
    rw [hcalls]
    have hdrawn : k.session.recordRequest.Drawn X k.shared := hk.1
    exact hk.snoc hpanics.admitted (hdrawn.resubscribed (abandoned_resubscribed ..))
      (abandoned_held huuid hdrawn hpanics.single hpanics.executed l)
  | some result =>
    obtain ⟨s', conn', r⟩ := result
    rw [requested_of_some hd] at hout
    subst hout
    obtain ⟨ses', tasks, hh, rfl, -⟩ := Connection.dispatch_handle hop hd
    rw [hh] at hafter
    exact hafter

/-- A request of a connection changes what its session holds by what it adds at the top
level and in batches, and by what it takes out. -/
theorem requested_held : out.2.Drawn X out.1 ∧
    out.2.held l + (conn.unwatches X c s request).count l =
      conn.session.held l + (conn.watches X s request).count l +
        (conn.batchWatches X c s request).count l := by
  unfold Connection.unwatches Connection.watches Connection.batchWatches
  by_cases hop : request.op ∈ watchOps
  · simp only [hop, if_true, List.count_nil, Nat.add_zero]
    exact watching_held huuid h hout l hop
  · simp only [hop, if_false, List.count_nil, Nat.add_zero]
    exact handled_held huuid h hout l hop

end

end

/-! ## The gauges -/

theorem Gauges.foldl_moved (n : Int) (g : Gauges) (ls : List SubscriptionLabel)
    (l : SubscriptionLabel) :
    (ls.foldl (·.moved n ·) g).connectionsActive = g.connectionsActive ∧
      (ls.foldl (·.moved n ·) g).subscriptionsActive l =
        g.subscriptionsActive l + n * ls.count l := by
  induction ls generalizing g with
  | nil => simp
  | cons a ls ih =>
    obtain ⟨hc, hs⟩ := ih (g.moved n a)
    refine ⟨hc, hs.trans ?_⟩
    rw [List.count_cons, moved]
    by_cases hal : a = l
    · subst hal
      simp only [Function.update_self, beq_self_eq_true, if_true]
      push_cast
      ring
    · simp [hal, Function.update_of_ne (Ne.symm hal)]

namespace Connection

variable {X : ServerExternals} {c : CommandHandler} {s s' : Shared} {conn conn' : Connection}
  {op : ConnectionOp}

theorem gauged_connections (X : ServerExternals) (c : CommandHandler) (s : Shared)
    (conn : Connection) (g : Gauges) (op : ConnectionOp) :
    (conn.gauged X c s g op).connectionsActive = g.connectionsActive := by
  cases op with
  | request request written =>
    exact (Gauges.foldl_moved (-1) _ _ .all).1.trans (Gauges.foldl_moved 1 _ _ .all).1
  | receive | send | deliver | hangUp | fail => rfl

theorem step_session (hs : conn.step X c s op = some (s', conn'))
    (hnot : ∀ request written, op ≠ .request request written) :
    s'.uuids = s.uuids ∧ conn'.session = conn.session := by
  cases steps_of_step hs with
  | panicked | unanswered | closed | answered => exact absurd rfl (hnot _ _)
  | _ => exact ⟨rfl, rfl⟩

/-- A request that panics ends its connection. -/
theorem ends_of_panics (hp : conn.panics X c s op = true)
    (hs : conn.step X c s op = some (s', conn')) : conn.isOpen = true ∧ conn'.isOpen = false := by
  cases steps_of_step hs with
  | panicked _ hopen => exact ⟨hopen, rfl⟩
  | unanswered _ hd | closed _ hd | answered _ hd => simp [panics, hd] at hp
  | _ => cases hp

theorem Drawn.of_same {ses ses' : Session} (h : ses.Drawn X s) (hs : s'.uuids = s.uuids)
    (hses : ses' = ses) : ses'.Drawn X s' := by
  intro id hid
  rw [hses] at hid
  exact (h id hid).mono hs.ge

/-- Over a step the gauge misses what is added in a batch. -/
theorem gauged_held (huuid : Function.Injective X.uuid) (h : conn.session.Drawn X s)
    (hs : conn.step X c s op = some (s', conn')) (g : Gauges) (l : SubscriptionLabel) :
    conn'.session.Drawn X s' ∧
      (conn.gauged X c s g op).subscriptionsActive l + conn.session.held l +
          conn.addsInBatch X c s l op =
        g.subscriptionsActive l + conn'.session.held l := by
  cases op with
  | request request written =>
    obtain ⟨out, hout, huuids, hses⟩ : ∃ out, requested X c s conn request = out ∧
        s'.uuids = out.1.uuids ∧ conn'.session = out.2 := by
      cases steps_of_step hs with
      | panicked _ _ hd => exact ⟨_, requested_of_none hd, rfl, rfl⟩
      | unanswered _ hd | closed _ hd | answered _ hd =>
        exact ⟨_, requested_of_some hd, rfl, rfl⟩
    obtain ⟨hdrawn, hheld⟩ := requested_held huuid h hout l
    refine ⟨Drawn.of_same hdrawn huuids hses, ?_⟩
    have hdown := (Gauges.foldl_moved (-1) ((conn.watches X s request).foldl Gauges.watched g)
      (conn.unwatches X c s request) l).2
    have hup := (Gauges.foldl_moved 1 g (conn.watches X s request) l).2
    have hgauge : (conn.gauged X c s g (.request request written)).subscriptionsActive l =
        g.subscriptionsActive l + (conn.watches X s request).count l -
          (conn.unwatches X c s request).count l := by
      refine hdown.trans ?_
      rw [show (conn.watches X s request).foldl Gauges.watched g =
        (conn.watches X s request).foldl (·.moved 1 ·) g from rfl, hup]
      ring
    rw [hgauge, hses, addsInBatch]
    omega
  | receive | send | deliver | hangUp | fail =>
    obtain ⟨huuids, hses⟩ := step_session hs nofun
    refine ⟨Drawn.of_same h huuids hses, ?_⟩
    rw [hses]
    exact Int.add_zero _

theorem gauged_holding (huuid : Function.Injective X.uuid) (h : conn.session.Drawn X s)
    (hs : conn.step X c s op = some (s', conn')) (g : Gauges) (l : SubscriptionLabel) :
    (conn.gauged X c s g op).subscriptionsActive l + conn.holding l +
        conn.addsInBatch X c s l op =
      g.subscriptionsActive l + conn'.holding l +
        (if conn.isOpen && !conn'.isOpen then conn'.session.held l else 0 : Nat) := by
  obtain ⟨-, hheld⟩ := gauged_held huuid h hs g l
  unfold holding
  cases hopen : conn.isOpen with
  | true => cases hopen' : conn'.isOpen <;> simpa using hheld
  | false =>
    have hclosed : conn'.isOpen = false := by
      by_contra hopen'
      rw [open_of_step hs (by simpa using hopen')] at hopen
      cases hopen
    have hnot : ∀ request written, op ≠ .request request written := by
      rintro request written rfl
      rw [(step_request hs).1] at hopen
      cases hopen
    obtain ⟨-, hses⟩ := step_session hs hnot
    rw [hses] at hheld
    simp only [hclosed, Bool.false_and, Bool.false_eq_true, if_false]
    push_cast
    omega

end Connection

/-! ## The listener -/

namespace Listener

variable {X : ServerExternals} {l l' : Listener} {op : ListenerOp}

/-- Subscriptions were handed out, and the listener counts every open connection. -/
structure Counted (X : ServerExternals) (l : Listener) : Prop where
  drawn : ∀ conn ∈ l.hub.connections, conn.session.Drawn X l.hub.server.shared
  active : l.openConnections ≤ l.active

/-- A step that keeps the count, and the part of each gauge that it leaves out. -/
structure Accounted (X : ServerExternals) (l : Listener) (op : ListenerOp) (l' : Listener) :
    Prop where
  counted : l'.Counted X
  connections : l'.gauges.connectionsActive - l'.openConnections =
    l.gauges.connectionsActive - l.openConnections + l.untold X op
  subscriptions : ∀ label, l'.gauges.subscriptionsActive label - l'.hub.held label +
      l.watchedInBatch X label op =
    l.gauges.subscriptionsActive label - l.hub.held label + l.leftBehind X label op

theorem Counted.arrive (h : l.Counted X) (hs : l.step X .arrive = some l') :
    Accounted X l .arrive l' := by
  simp only [Listener.step] at hs
  split at hs <;> cases hs
  · exact ⟨h, (Int.add_zero _).symm, fun _ => rfl⟩
  refine ⟨⟨h.drawn, ?_⟩, ?_, fun _ => rfl⟩
  · have := h.active
    simp only [openConnections] at this ⊢
    omega
  · simp only [openConnections, Gauges.connected, untold]
    push_cast
    ring

theorem Counted.handshake (h : l.Counted X) {succeeds : Bool}
    (hs : l.step X (.handshake succeeds) = some l') : Accounted X l (.handshake succeeds) l' := by
  have hactive := h.active
  simp only [openConnections] at hactive
  cases succeeds with
  | true =>
    simp only [Listener.step] at hs
    split at hs
    · cases hs
    rename_i hsome
    obtain ⟨hub, hub', rfl⟩ := Option.map_eq_some_iff.mp hs
    cases hub'
    have hopen : openConnections { l with
        hub := ⟨l.hub.server, l.hub.connections ++ [.new l.hub.server.handler.authRequired]⟩
        handshaking := l.handshaking - 1 } = l.openConnections := by
      simp [openConnections, Hub.openConnections, Connection.new]
      omega
    have hheld (label : SubscriptionLabel) : (Connection.new
        l.hub.server.handler.authRequired).holding label = 0 := rfl
    refine ⟨⟨?_, ?_⟩, ?_, fun label => ?_⟩
    · intro conn hconn
      obtain hconn | hconn := List.mem_append.mp hconn
      · exact h.drawn conn hconn
      · rw [List.mem_singleton.mp hconn]
        intro id hid
        simp [Connection.new, Session.new] at hid
    · rw [hopen]
      exact h.active
    · rw [hopen]
      exact (Int.add_zero _).symm
    · simp [Hub.held, hheld, watchedInBatch, leftBehind]
  | false =>
    simp only [Listener.step] at hs
    split at hs
    · cases hs
    rename_i hsome
    have hpos : l.handshaking ≠ 0 := fun hzero => hsome (by simp [hzero])
    cases hs
    refine ⟨⟨h.drawn, ?_⟩, ?_, fun _ => rfl⟩
    · simp only [openConnections]
      omega
    · simp only [openConnections, untold]
      omega

theorem Counted.compact (h : l.Counted X) (hs : l.step X .compact = some l') :
    Accounted X l .compact l' := by
  simp only [Listener.step] at hs
  obtain ⟨hub, hhub, rfl⟩ := Option.map_eq_some_iff.mp hs
  have hsame : hub.connections = l.hub.connections := by
    cases hhub
    rfl
  refine ⟨⟨?_, ?_⟩, ?_, fun label => ?_⟩
  · rw [hsame]
    exact fun conn hconn id hid => Hub.step_handedOut hhub (h.drawn conn hconn id hid)
  · simp only [openConnections, Hub.openConnections, hsame]
    exact h.active
  · simp only [openConnections, Hub.openConnections, hsame]
    exact (Int.add_zero _).symm
  · simp only [Hub.held, hsame]
    rfl

section
variable (huuid : Function.Injective X.uuid)
include huuid

theorem Counted.connection (h : l.Counted X) {k : Nat}
    {op : ConnectionOp} (hs : l.step X (.connection k op) = some l') :
    Accounted X l (.connection k op) l' := by
  simp only [Listener.step] at hs
  split at hs
  · rename_i conn hub hk hhub
    have hlt := (List.getElem?_eq_some_iff.mp hk).1
    have hstep := hhub
    simp only [Hub.step, hk] at hstep
    obtain ⟨⟨s', conn'⟩, hconn, rfl⟩ := Option.map_eq_some_iff.mp hstep
    have hmem : conn ∈ l.hub.connections := List.mem_of_getElem? hk
    have hk' := List.getElem?_set_self (a := conn') hlt
    have hdrawn : ∀ c ∈ l.hub.connections.set k conn', c.session.Drawn X s' := by
      intro c hc
      obtain hc | rfl := List.mem_or_eq_of_mem_set hc
      · exact fun id hid => Hub.step_handedOut hhub (h.drawn c hc id hid)
      · exact (Connection.gauged_held huuid (h.drawn conn hmem) hconn l.gauges .all).1
    have hcount : Hub.openConnections ⟨{ l.hub.server with shared := s' },
          l.hub.connections.set k conn'⟩ + (conn.isOpen && !conn'.isOpen).toNat =
        l.hub.openConnections := by
      have hsum := sum_map_set hk (fun conn => if conn.isOpen then 1 else 0) conn'
      have hopens := Connection.open_of_step hconn
      cases hopen : conn.isOpen <;> cases hopen' : conn'.isOpen <;>
        simp_all [Hub.openConnections]
    have hpanics : l.hub.panics X k (.connection k op) = true →
        (conn.isOpen && !conn'.isOpen) = true := by
      intro hp
      have hends := Connection.ends_of_panics (by simpa [Hub.panics, hk] using hp) hconn
      simp [hends]
    have hsubscriptions (label : SubscriptionLabel) :
        (conn.gauged X l.hub.server.handler l.hub.server.shared l.gauges op).subscriptionsActive
              label - ((l.hub.connections.set k conn').map (·.holding label)).sum +
            l.watchedInBatch X label (.connection k op) =
          l.gauges.subscriptionsActive label - l.hub.held label +
            l.leftBehind X label (.connection k op) := by
      have hheld := sum_map_set hk (·.holding label) conn'
      have hgauge := Connection.gauged_holding huuid (h.drawn conn hmem) hconn l.gauges label
      simp only [watchedInBatch, leftBehind, hhub, hk, hk', Hub.isOpen, Hub.held, Option.any_some,
        Option.elim_some]
      omega
    simp only [Hub.isOpen, hk, hk', Option.any_some, Option.some.injEq] at hs
    have hactive := h.active
    have hconnections := conn.gauged_connections X l.hub.server.handler l.hub.server.shared
      l.gauges op
    simp only [openConnections] at hactive
    -- The connection goes on, its task returns, or it panics.
    generalize (conn.isOpen && !conn'.isOpen) = ended at hs hcount hpanics
    generalize hp : l.hub.panics X k (.connection k op) = panics at hs hpanics
    cases ended <;> cases panics <;> simp only [Bool.not_true, Bool.not_false, Bool.and_true,
      Bool.and_false, Bool.false_eq_true, if_true, if_false, Bool.toNat_true, Bool.toNat_false]
      at hs hcount hpanics
    case false.true => exact hpanics trivial |>.elim
    all_goals
      subst hs
      refine ⟨⟨hdrawn, ?_⟩, ?_, hsubscriptions⟩
      · simp only [left, openConnections]
        omega
      · simp only [left, openConnections, Gauges.disconnected, untold, hp, Bool.toNat_true,
          Bool.toNat_false]
        omega
  · cases hs

/-- A step keeps the count, and takes the gauges away from what they count. -/
theorem Counted.step (h : l.Counted X) (hs : l.step X op = some l') : Accounted X l op l' := by
  cases op with
  | arrive => exact h.arrive hs
  | handshake succeeds => exact h.handshake hs
  | connection k op => exact h.connection huuid hs
  | compact => exact h.compact hs

/-- What each gauge is off by, after any run. -/
theorem gauges_accounted {server : Server}
    {maxConnections : Nat} {tlsEnabled : Bool} {ops : List ListenerOp}
    (hrun : run (step X) (.new server maxConnections tlsEnabled) ops = some l) :
    l.gauges.connectionsActive =
        l.openConnections +
          tally (step X) (untold X) (.new server maxConnections tlsEnabled) ops ∧
      ∀ label, l.gauges.subscriptionsActive label +
          tally (step X) (watchedInBatch X label) (.new server maxConnections tlsEnabled) ops =
        l.hub.held label +
          tally (step X) (leftBehind X label) (.new server maxConnections tlsEnabled) ops := by
  have hfirst : (new server maxConnections tlsEnabled).Counted X := ⟨nofun, le_rfl⟩
  constructor
  · have hconnections := run_tally (step X)
      (fun l => l.gauges.connectionsActive - l.openConnections) (untold X) (fun _ _ => 0)
      (P := Counted X)
      (fun l op l' h hs => ⟨(h.step huuid hs).counted, by
        simpa using (h.step huuid hs).connections⟩) hfirst hrun
    rw [tally_zero] at hconnections
    have hzero : (new server maxConnections tlsEnabled).gauges.connectionsActive -
      (new server maxConnections tlsEnabled).openConnections = 0 := rfl
    push_cast at hconnections
    omega
  · intro label
    have hsubscriptions := run_tally (step X)
      (fun l => l.gauges.subscriptionsActive label - l.hub.held label) (leftBehind X label)
      (watchedInBatch X label) (P := Counted X)
      (fun l op l' h hs => ⟨(h.step huuid hs).counted, (h.step huuid hs).subscriptions label⟩)
      hfirst hrun
    have hzero : (new server maxConnections tlsEnabled).gauges.subscriptionsActive label -
      (new server maxConnections tlsEnabled).hub.held label = 0 := rfl
    omega

end

/-- In the state that any run leaves, the gauge of connections is right if and only if no
handshake has failed and no request panicked, and the gauge of each label if and only if
as many subscriptions were added in batches as connections have left behind. -/
theorem gauges_exact_iff (X : ServerExternals) (huuid : Function.Injective X.uuid)
    (server : Server) (maxConnections : Nat) (tlsEnabled : Bool) {ops : List ListenerOp}
    {l : Listener}
    (hrun : run (step X) (.new server maxConnections tlsEnabled) ops = some l) :
    (l.gauges.connectionsActive = l.openConnections ↔
        tally (step X) (untold X) (.new server maxConnections tlsEnabled) ops = 0) ∧
      ∀ label, (l.gauges.subscriptionsActive label = l.hub.held label ↔
        tally (step X) (watchedInBatch X label) (.new server maxConnections tlsEnabled) ops =
          tally (step X) (leftBehind X label) (.new server maxConnections tlsEnabled) ops) := by
  obtain ⟨hconnections, hsubscriptions⟩ := gauges_accounted huuid hrun
  refine ⟨by omega, fun label => ?_⟩
  have hlabel := hsubscriptions label
  omega

/-- A connection with TLS that sends these requests. -/
def session (k : Nat) (requests : List Request) : List ListenerOp :=
  [.arrive, .handshake true] ++
    requests.map fun request => .connection k (.request request true)

/-- Two clients that watch; one unwatches, and then hangs up. -/
theorem gauges_exact_for_clients :
    ∃ l, run (step serdeServer) (.new (.fresh (openConfig 1000)) 10 true)
        (session 0 [watchAllRequest] ++ session 1 [watchAllRequest] ++
          [.connection 0 (.request (Hub.unwatchRequest Hub.firstSubscription) true),
            .connection 0 .hangUp]) = some l ∧
      l.openConnections = 1 ∧ l.hub.held .all = 1 ∧
      l.gauges.connectionsActive = 1 ∧ l.gauges.subscriptionsActive .all = 1 := by
  refine run_exists (p := fun l => l.openConnections = 1 ∧ l.hub.held .all = 1)
    (by decide +kernel) fun l hrun ⟨hopen, hheld⟩ => ⟨hopen, hheld, ?_⟩
  obtain ⟨hconnections, hsubscriptions⟩ :=
    gauges_exact_iff serdeServer Hub.serdeServer_uuid_injective _ _ _ hrun
  rw [hconnections.mpr (by decide +kernel), (hsubscriptions .all).mpr (by decide +kernel), hopen,
    hheld]
  exact ⟨rfl, rfl⟩

/-- A handshake that fails is counted for ever, and a subscription from a batch is counted
out and never in. -/
theorem gauges_drift :
    ∃ l, run (step serdeServer) (.new (.fresh (openConfig 1000)) 10 true)
        ([.arrive, .handshake false] ++ session 0 [Hub.batchOfOne "WATCH_ALL" (.object []),
          Hub.unwatchRequest Hub.firstSubscription]) = some l ∧
      l.openConnections = 1 ∧ l.gauges.connectionsActive = 2 ∧
      l.hub.held .all = 0 ∧ l.gauges.subscriptionsActive .all = -1 := by
  exact run_exists (p := fun l => l.openConnections = 1 ∧ l.gauges.connectionsActive = 2 ∧
    l.hub.held .all = 0 ∧ l.gauges.subscriptionsActive .all = -1) (by decide +kernel)
    fun _ _ h => h

end Listener

end Rstmdb

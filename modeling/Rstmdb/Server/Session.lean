import Rstmdb.Lib.OrderedMap
import Rstmdb.Protocol.Message

/-! What a connection knows of its client, and the channels through which events
reach the watchers. -/
namespace Rstmdb
open Json (Value)

inductive SessionSubscriptionType
  | instance (instanceId : String)
  | all
  deriving DecidableEq, Repr

inductive WireMode
  | binaryJson
  | jsonl
  deriving DecidableEq, Repr

def WireMode.name : WireMode → String
  | .binaryJson => "binary_json"
  | .jsonl => "jsonl"

inductive SessionState
  | connected
  | ready
  | authenticated
  | closing
  deriving DecidableEq, Repr

/-- A client session, its id, address and times left out. -/
structure Session where
  state : SessionState
  wireMode : WireMode
  protocolVersion : UInt16
  clientName : Option String
  features : List String
  authRequired : Bool
  authenticated : Bool
  requestCount : Nat
  subscriptions : Table String SessionSubscriptionType

namespace Session

def new (authRequired : Bool) : Session :=
  ⟨.connected, .binaryJson, 0, none, [], authRequired, !authRequired, 0, ∅⟩

def completeHandshake (s : Session) (protocolVersion : UInt16) (wireMode : WireMode)
    (clientName : Option String) (features : List String) : Session :=
  { s with
    protocolVersion, wireMode, clientName, features
    state := if s.authRequired && !s.authenticated then .ready else .authenticated }

def recordRequest (s : Session) : Session := { s with requestCount := s.requestCount + 1 }

def addInstanceSubscription (s : Session) (subscriptionId instanceId : String) : Session :=
  { s with subscriptions := s.subscriptions.insert subscriptionId (.instance instanceId) }

def addAllSubscription (s : Session) (subscriptionId : String) : Session :=
  { s with subscriptions := s.subscriptions.insert subscriptionId .all }

/-- Removes a subscription and returns its type, if there was one. -/
def removeSubscription (s : Session) (subscriptionId : String) :
    Session × Option SessionSubscriptionType :=
  ({ s with subscriptions := s.subscriptions.erase subscriptionId },
    s.subscriptions[subscriptionId]?)

end Session

/-! ## Events -/

/-- An applied event, as it is sent to the watchers. -/
structure InstanceEvent where
  instanceId : String
  machine : String
  version : UInt32
  walOffset : Nat
  fromState : String
  toState : String
  event : String
  payload : Value
  ctx : Value
  deriving Repr

/-- A filter on all events; an empty list lets everything through. -/
structure EventFilter where
  machines : List String
  fromStates : List String
  toStates : List String
  events : List String
  deriving DecidableEq, Repr

def EventFilter.accepts (f : EventFilter) (e : InstanceEvent) : Bool :=
  (f.machines.isEmpty || f.machines.contains e.machine) &&
    (f.fromStates.isEmpty || f.fromStates.contains e.fromState) &&
    (f.toStates.isEmpty || f.toStates.contains e.toState) &&
    (f.events.isEmpty || f.events.contains e.event)

inductive SubscriptionType
  | instance (instanceId : String) (includeCtx : Bool)
  | all (filter : EventFilter) (includeCtx : Bool)
  deriving DecidableEq, Repr

/-- Which broadcast channel: an instance's own, or the global one. -/
inductive ChannelId
  | instance (instanceId : String)
  | global
  deriving DecidableEq, Repr

/-- A receiver of a broadcast channel: the position of the next event it takes. -/
structure Receiver where
  channel : ChannelId
  next : Nat
  deriving DecidableEq, Repr

/-- The broadcaster. Of each channel there is everything ever sent on it; a
receiver can still take the last `channelCapacity` events. -/
structure EventBroadcaster where
  channels : Table String (List InstanceEvent)
  globalSender : List InstanceEvent
  subscriptions : Table String SubscriptionType
  channelCapacity : Nat

namespace EventBroadcaster

def new (channelCapacity : Nat) : EventBroadcaster := ⟨∅, [], ∅, channelCapacity⟩

def sent (b : EventBroadcaster) : ChannelId → List InstanceEvent
  | .instance instanceId => (b.channels[instanceId]?).getD []
  | .global => b.globalSender

/-- `sender.subscribe()`: events from now on. -/
def receiver (b : EventBroadcaster) (channel : ChannelId) : Receiver :=
  ⟨channel, (b.sent channel).length⟩

/-- The channel of the instance is made when it is first watched. -/
def subscribeInstance (b : EventBroadcaster) (subscriptionId instanceId : String)
    (includeCtx : Bool) : EventBroadcaster × Receiver :=
  let b := { b with
    channels := b.channels.insert instanceId ((b.channels[instanceId]?).getD [])
    subscriptions := b.subscriptions.insert subscriptionId (.instance instanceId includeCtx) }
  (b, b.receiver (.instance instanceId))

def subscribeAll (b : EventBroadcaster) (subscriptionId : String) (filter : EventFilter)
    (includeCtx : Bool) : EventBroadcaster × Receiver :=
  let b := { b with
    subscriptions := b.subscriptions.insert subscriptionId (.all filter includeCtx) }
  (b, b.receiver .global)

def unsubscribe (b : EventBroadcaster) (subscriptionId : String) : EventBroadcaster :=
  { b with subscriptions := b.subscriptions.erase subscriptionId }

/-- Sends to the instance's channel, if it has one, and to the global one. -/
def notify (b : EventBroadcaster) (e : InstanceEvent) : EventBroadcaster :=
  { b with
    channels :=
      match b.channels[e.instanceId]? with
      | some sent => b.channels.insert e.instanceId (sent ++ [e])
      | none => b.channels
    globalSender := b.globalSender ++ [e] }

/-- What a receiver finds. A receiver that has fallen behind the capacity loses
what is older. -/
inductive Received
  | empty
  | event (e : InstanceEvent)
  | lagged (missed : Nat)

def recv (b : EventBroadcaster) (r : Receiver) : Received × Receiver :=
  let sent := b.sent r.channel
  let oldest := sent.length - b.channelCapacity
  if r.next < oldest then (.lagged (oldest - r.next), { r with next := oldest })
  else
    match sent[r.next]? with
    | some e => (.event e, { r with next := r.next + 1 })
    | none => (.empty, r)

end EventBroadcaster

end Rstmdb

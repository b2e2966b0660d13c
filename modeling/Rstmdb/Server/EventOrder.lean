import Rstmdb.Lib.Interleave
import Rstmdb.Server.Notify

/-! Events from many connections, and the order in which a subscription gets them.
The engine applies an event under the instance lock, and its watchers are notified
when the lock has been released. -/
namespace Rstmdb
open Json (Value)

/-- Where an `APPLY_EVENT` request stands between two atomic steps. -/
inductive EventPc
  | started
  /-- The instance is there; next is the call of the engine. -/
  | found (p : ApplyEventParams) (i : Instance)
  /-- The event is applied; next its watchers are notified. -/
  | notifying (e : InstanceEvent)
  | done

/-- A subscription, with the events that its receiver has taken. -/
structure Subscriber where
  receiver : Receiver
  filter : Option EventFilter
  received : List InstanceEvent
  lagged : Bool

/-- The events that the task of the subscription sends to its connection. -/
def Subscriber.forwarded (sub : Subscriber) : List InstanceEvent :=
  sub.received.filter fun e => sub.filter.all (·.accepts e)

inductive WatchTask
  | event (params : Value) (pc : EventPc)
  | subscribing (kind : SubscriptionType)
  | subscribed (sub : Subscriber)

/-- What a connection can begin: a request, or a subscription. -/
inductive TaskStart
  | applyEvent (params : Value)
  | watch (kind : SubscriptionType)

def TaskStart.task : TaskStart → WatchTask
  | .applyEvent params => .event params .started
  | .watch kind => .subscribing kind

/-- The next atomic step of `handle_apply_event`. -/
def EventPc.next (X : ServerExternals) (s : Shared) (params : Value) :
    EventPc → Option (Shared × EventPc)
  | .started =>
    match ApplyEventParams.fromValue params with
    | none => some (s, .done)
    | some p =>
      match s.engine.getInstance p.instanceId with
      | .error _ => some (s, .done)
      | .ok i => some (s, .found p i)
  | .found p i =>
    match s.engine.applyEvent X.toCoreExternals p.request with
    | none => none
    | some (engine, .error _) => some ({ s with engine }, .done)
    | some (engine, .ok a) =>
      some ({ s with engine }, if a.applied then .notifying (notification i p a) else .done)
  | .notifying e => some ({ s with broadcaster := s.broadcaster.map (·.notify e) }, .done)
  | .done => none

def EventBroadcaster.subscribe (b : EventBroadcaster) (id : String) :
    SubscriptionType → EventBroadcaster × Subscriber
  | .instance instanceId includeCtx =>
    let (b, receiver) := b.subscribeInstance id instanceId includeCtx
    (b, ⟨receiver, none, [], false⟩)
  | .all filter includeCtx =>
    let (b, receiver) := b.subscribeAll id filter includeCtx
    (b, ⟨receiver, some filter, [], false⟩)

/-- One round of the loop in `spawn_subscription_forwarder`; it waits for an event. -/
def Subscriber.recv (b : EventBroadcaster) (sub : Subscriber) : Option Subscriber :=
  match b.recv sub.receiver with
  | (.empty, _) => none
  | (.lagged _, receiver) => some { sub with receiver, lagged := true }
  | (.event e, receiver) => some { sub with receiver, received := sub.received ++ [e] }

def WatchTask.next (X : ServerExternals) (s : Shared) : WatchTask → Option (Shared × WatchTask)
  | .event params pc => (pc.next X s params).map fun (s, pc) => (s, .event params pc)
  | .subscribing kind =>
    match s.broadcaster with
    | none => none
    | some b =>
      let (b, sub) := b.subscribe (subscriptionId X s) kind
      some ({ s with broadcaster := some b, uuids := s.uuids + 1 }, .subscribed sub)
  | .subscribed sub =>
    match s.broadcaster with
    | none => none
    | some b => (sub.recv b).map fun sub => (s, .subscribed sub)

/-- The atomic steps of requests and subscriptions, in any order. -/
def eventSched (X : ServerExternals) :
    Shared × List WatchTask → Sched TaskStart → Option (Shared × List WatchTask) :=
  interleave (fun _ start => start.task) (WatchTask.next X)

/-- The event on the instance that the task has applied and not yet told of. -/
def WatchTask.untold (id : String) : WatchTask → Option InstanceEvent
  | .event _ (.notifying e) => if e.instanceId = id then some e else none
  | _ => none

/-- A call of the engine comes only when all earlier events on its instance have been
told, it is not answered from the cache, and segment ids fit in a packed offset. -/
def unraced (s : Shared × List WatchTask) : Sched TaskStart → Bool
  | .spawn _ => true
  | .step k =>
    match s.2[k]? with
    | some (.event _ (.found p _)) =>
      s.2.all (fun t => (t.untold p.instanceId).isNone) &&
        (s.1.engine.cachedResult p.instanceId p.idempotencyKey).all (fun a => !a.applied) &&
        s.1.engine.wal.nextId < 2 ^ 24
    | _ => true

/-- The offsets grow, and each event begins where the one before it ended. -/
def InOrder (es : List InstanceEvent) : Prop :=
  es.IsChain fun e f => e.walOffset < f.walOffset ∧ f.fromState = e.toState

instance decidableInOrder (es : List InstanceEvent) : Decidable (InOrder es) :=
  inferInstanceAs
    (Decidable (es.IsChain fun e f => e.walOffset < f.walOffset ∧ f.fromState = e.toState))

/-- The events on an instance. -/
def eventsOn (id : String) (es : List InstanceEvent) : List InstanceEvent :=
  es.filter (·.instanceId = id)

/-! ## A request alone -/

/-- A request that nothing comes between does what `handle_apply_event` does. -/
theorem event_alone {X : ServerExternals} {s s' : Shared} {params : Value} {answer : Answered}
    (h : handleApplyEvent X s params = some (s', answer)) :
    ∃ n, run (eventSched X) (s, []) (.spawn (.applyEvent params) :: List.replicate n (.step 0)) =
      some (s', [.event params .done]) := by
  unfold handleApplyEvent at h
  split at h
  · rename_i hp
    cases h
    exact ⟨1,
      by simp [run, eventSched, interleave, TaskStart.task, WatchTask.next, EventPc.next, hp]⟩
  rename_i p hp
  split at h
  · rename_i e hi
    cases h
    exact ⟨1, by
      simp [run, eventSched, interleave, TaskStart.task, WatchTask.next, EventPc.next, hp, hi]⟩
  · rename_i i hi
    split at h
    · cases h
    · rename_i engine e ha
      cases h
      exact ⟨2, by
        simp [run, eventSched, interleave, TaskStart.task, WatchTask.next, EventPc.next, hp, hi,
          ha]⟩
    · rename_i engine a ha
      cases h
      cases hflag : a.applied with
      | false =>
        exact ⟨2, by
          simp [run, eventSched, interleave, TaskStart.task, WatchTask.next, EventPc.next, hp, hi,
            ha, hflag]⟩
      | true =>
        exact ⟨3, by
          simp [run, eventSched, interleave, TaskStart.task, WatchTask.next, EventPc.next, hp, hi,
            ha, hflag]⟩

/-! ## Channels and receivers -/

/-- The events that a channel carries. -/
def ChannelId.carried : ChannelId → List InstanceEvent → List InstanceEvent
  | .global, es => es
  | .instance id, es => eventsOn id es

theorem ChannelId.carried_append (ch : ChannelId) (es fs : List InstanceEvent) :
    ch.carried (es ++ fs) = ch.carried es ++ ch.carried fs := by
  obtain id | _ := ch
  · exact List.filter_append es fs
  · rfl

/-- The channel is there to be sent to. -/
def EventBroadcaster.hasChannel (b : EventBroadcaster) : ChannelId → Bool
  | .global => true
  | .instance id => b.channels.contains id

/-- A subscription that has not lagged is at some place in what its channel has sent
since it began, and that is the end of what the channel carries of `told`. -/
def Subscriber.Follows (sub : Subscriber) (b : EventBroadcaster) (told : List InstanceEvent) :
    Prop :=
  b.hasChannel sub.receiver.channel = true ∧
    ∃ before rest, b.sent sub.receiver.channel = before ++ (sub.received ++ rest) ∧
      sub.receiver.next = before.length + sub.received.length ∧
      (sub.received ++ rest).IsSuffix (sub.receiver.channel.carried told)

def WatchTask.Follows (b : EventBroadcaster) (told : List InstanceEvent) : WatchTask → Prop
  | .subscribed sub => sub.lagged = false → sub.Follows b told
  | _ => True

namespace EventBroadcaster

theorem sent_notify (b : EventBroadcaster) (e : InstanceEvent) {ch : ChannelId}
    (h : b.hasChannel ch = true) : (b.notify e).sent ch = b.sent ch ++ ch.carried [e] := by
  obtain id | _ := ch
  · have hsome : (b.channels[id]?).isSome = true := by
      rw [← Std.ExtTreeMap.contains_eq_isSome_getElem?]
      exact h
    obtain ⟨es, hes⟩ := Option.isSome_iff_exists.mp hsome
    by_cases hid : e.instanceId = id
    · subst hid
      simp [sent, notify, ChannelId.carried, eventsOn, hes]
    · have hne : id ≠ e.instanceId := fun h => hid h.symm
      simp only [sent, notify, ChannelId.carried, eventsOn, hid, decide_false, List.filter_cons,
        Bool.false_eq_true, if_false, List.filter_nil, List.append_nil]
      split
      · rw [Table.getElem?_insert_ne hne]
      · rfl
  · rfl

theorem hasChannel_notify (b : EventBroadcaster) (e : InstanceEvent) {ch : ChannelId}
    (h : b.hasChannel ch = true) : (b.notify e).hasChannel ch = true := by
  obtain id | _ := ch
  · simp only [hasChannel, notify] at h ⊢
    split
    · rw [Std.ExtTreeMap.contains_insert, h, Bool.or_true]
    · exact h
  · rfl

/-- A new subscription changes nothing of what has been sent. -/
theorem sent_subscribe (b : EventBroadcaster) (id : String) (kind : SubscriptionType)
    (ch : ChannelId) : (b.subscribe id kind).1.sent ch = b.sent ch := by
  obtain ⟨instanceId, _⟩ | _ := kind
  · obtain id' | _ := ch
    · by_cases hid : id' = instanceId
      · subst hid
        simp [subscribe, subscribeInstance, sent]
      · simp only [subscribe, subscribeInstance, sent]
        rw [Table.getElem?_insert_ne hid]
    · rfl
  · cases ch <;> rfl

theorem hasChannel_subscribe (b : EventBroadcaster) (id : String) (kind : SubscriptionType)
    {ch : ChannelId} (h : b.hasChannel ch = true) :
    (b.subscribe id kind).1.hasChannel ch = true := by
  obtain ⟨instanceId, _⟩ | _ := kind
  · obtain id' | _ := ch
    · simp only [subscribe, subscribeInstance, hasChannel] at h ⊢
      rw [Std.ExtTreeMap.contains_insert, h, Bool.or_true]
    · rfl
  · cases ch <;> exact h

end EventBroadcaster

section
variable {b : EventBroadcaster} {told : List InstanceEvent} {sub sub' : Subscriber} {t : WatchTask}

theorem follows_subscribe (b : EventBroadcaster) (id : String) (kind : SubscriptionType)
    (told : List InstanceEvent) : (b.subscribe id kind).2.Follows (b.subscribe id kind).1 told := by
  obtain ⟨instanceId, _⟩ | _ := kind
  · refine ⟨?_, (b.channels[instanceId]?).getD [], [], ?_, ?_, List.nil_suffix⟩ <;>
      simp [EventBroadcaster.subscribe, EventBroadcaster.subscribeInstance,
        EventBroadcaster.receiver, EventBroadcaster.hasChannel, EventBroadcaster.sent]
  · refine ⟨rfl, b.globalSender, [], ?_, rfl, List.nil_suffix⟩
    exact (List.append_nil _).symm

theorem WatchTask.Follows.recv (h : (WatchTask.subscribed sub).Follows b told)
    (hr : sub.recv b = some sub') : (WatchTask.subscribed sub').Follows b told := by
  intro hlag
  unfold Subscriber.recv EventBroadcaster.recv at hr
  dsimp only at hr
  by_cases hold : sub.receiver.next < (b.sent sub.receiver.channel).length - b.channelCapacity
  · rw [if_pos hold] at hr
    cases hr
    cases hlag
  · rw [if_neg hold] at hr
    cases hget : (b.sent sub.receiver.channel)[sub.receiver.next]? with
    | none => simp [hget] at hr
    | some e =>
      simp only [hget] at hr
      cases hr
      obtain ⟨hch, before, rest, hsent, hnext, hsuffix⟩ := h hlag
      rw [hsent, hnext, ← List.append_assoc, ← List.length_append,
        List.getElem?_append_right (le_refl _), Nat.sub_self] at hget
      cases rest with
      | nil => cases hget
      | cons e' rest =>
        cases hget
        refine ⟨hch, before, rest, ?_, ?_, ?_⟩
        · rw [hsent, List.append_assoc, List.singleton_append]
        · simp only [hnext, List.length_append, List.length_singleton]
          omega
        · rwa [List.append_assoc, List.singleton_append]

theorem WatchTask.Follows.subscribe (h : t.Follows b told) (id : String)
    (kind : SubscriptionType) : t.Follows (b.subscribe id kind).1 told := by
  cases t with
  | event | subscribing => trivial
  | subscribed sub =>
    intro hlag
    obtain ⟨hch, before, rest, hsent, hrest⟩ := h hlag
    exact ⟨b.hasChannel_subscribe id kind hch, before, rest,
      (b.sent_subscribe id kind _).trans hsent, hrest⟩

theorem WatchTask.Follows.notify (h : t.Follows b told) (e : InstanceEvent) :
    t.Follows (b.notify e) (told ++ [e]) := by
  cases t with
  | event | subscribing => trivial
  | subscribed sub =>
    intro hlag
    obtain ⟨hch, before, rest, hsent, hnext, front, hfront⟩ := h hlag
    refine ⟨b.hasChannel_notify e hch, before, rest ++ sub.receiver.channel.carried [e], ?_, hnext,
      front, ?_⟩
    · rw [b.sent_notify e hch, hsent]
      simp only [List.append_assoc]
    · rw [ChannelId.carried_append, ← hfront]
      simp only [List.append_assoc]

end

/-! ## The events on an instance -/

variable {es : List InstanceEvent} {X : CoreExternals} {e e' : Engine}
  {pre : List (Chunk X.toExternals)} {c : Chunk X.toExternals} {r : EventRequest}

/-- What a channel carries of the events on an instance is all of them or nothing. -/
theorem InOrder.carried {id : String} (h : InOrder (eventsOn id es)) (ch : ChannelId) :
    InOrder (eventsOn id (ch.carried es)) := by
  obtain id' | _ := ch
  · by_cases hid : id' = id
    · subst hid
      simpa only [ChannelId.carried, eventsOn, List.filter_filter, Bool.and_self] using h
    · have hnone : eventsOn id (eventsOn id' es) = [] := by
        simp only [eventsOn, List.filter_filter, List.filter_eq_nil_iff, Bool.and_eq_true,
          decide_eq_true_eq]
        rintro e - ⟨he, he'⟩
        exact hid (he'.symm.trans he)
      rw [ChannelId.carried, hnone]
      exact List.isChain_nil
  · exact h

theorem InOrder.increasing (h : InOrder es) : es.Pairwise fun e f => e.walOffset < f.walOffset := by
  have hoffsets : (es.map InstanceEvent.walOffset).IsChain (· < ·) :=
    (List.isChain_map _).mpr (h.imp fun _ _ hef => hef.1)
  exact List.pairwise_map.mp (List.isChain_iff_pairwise.mp hoffsets)

/-- The events of a run on one instance: they are in order, the instance is where
the last of them led, and each has its entry in the log. -/
structure Line (e : Engine) (es : List ReadEntry) (id : String) (line : List InstanceEvent) :
    Prop where
  ordered : InOrder line
  last : ∀ f ∈ line.getLast?, ∃ i, e.instances[id]? = some i ∧ i.state = f.toState
  logged : ∀ f ∈ line, ∃ p ∈ es, p.2.1.asU64 = f.walOffset

section
variable {e e' : Engine} {es es' : List ReadEntry} {id : String} {line : List InstanceEvent}

theorem Line.kept (h : Line e es id line) (hi : e'.instances[id]? = e.instances[id]?)
    (hes : ∀ p ∈ es, p ∈ es') : Line e' es' id line := by
  refine ⟨h.ordered, fun f hf => hi ▸ h.last f hf, fun f hf => ?_⟩
  obtain ⟨p, hp, ho⟩ := h.logged f hf
  exact ⟨p, hes p hp, ho⟩

/-- One more event, from where the instance is and behind all entries of the log. -/
theorem Line.snoc (h : Line e es id line) {i i' : Instance} {f : InstanceEvent}
    (hi : e.instances[id]? = some i) (hfrom : f.fromState = i.state)
    (hi' : e'.instances[id]? = some i') (hto : i'.state = f.toState)
    (hlater : ∀ p ∈ es, p.2.1.asU64 < f.walOffset) (hes : ∀ p ∈ es, p ∈ es')
    (hlogged : ∃ p ∈ es', p.2.1.asU64 = f.walOffset) : Line e' es' id (line ++ [f]) := by
  refine ⟨?_, ?_, ?_⟩
  · refine List.isChain_append.mpr ⟨h.ordered, List.isChain_singleton f, ?_⟩
    rintro last hlast _ ⟨⟩
    obtain ⟨p, hp, ho⟩ := h.logged last (List.mem_of_getLast? hlast)
    obtain ⟨j, hj, hstate⟩ := h.last last hlast
    rw [hi] at hj
    cases hj
    exact ⟨ho ▸ hlater p hp, hfrom.trans hstate⟩
  · intro g hg
    rw [List.getLast?_concat] at hg
    cases hg
    exact ⟨i', hi', hto⟩
  · intro g hg
    obtain hg | hg := List.mem_append.mp hg
    · obtain ⟨p, hp, ho⟩ := h.logged g hg
      exact ⟨p, hes p hp, ho⟩
    · rw [List.mem_singleton.mp hg]
      exact hlogged

end

/-- An event that is applied: the instance moves, and the log grows by an entry
behind all others. -/
theorem Engine.Sound.applyEvent (h : e.Sound pre c) (low : e.wal.nextId < 2 ^ 24) {a : ApplyResult}
    (he : e.applyEvent X r = some (e', .ok a))
    (hc : e.cachedResult r.instanceId r.idempotencyKey = none) :
    ∃ (i i' : Instance) (pre' : List (Chunk X.toExternals)) (c' : Chunk X.toExternals)
        (p : ReadEntry),
      e.instances[r.instanceId]? = some i ∧ a.fromState = i.state ∧ a.applied = true ∧
      e'.instances = e.instances.insert r.instanceId i' ∧ i'.state = a.toState ∧
      e'.Sound pre' c' ∧ entries (pre' ++ [c']) = entries (pre ++ [c]) ++ [p] ∧
      p.2.1.asU64 = a.walOffset ∧ ∀ q ∈ entries (pre ++ [c]), q.2.1.asU64 < a.walOffset := by
  obtain ⟨hc', -⟩ | ⟨-, s₁, hlocked, hwal, hmem⟩ := Engine.applyEvent_ok he
  · rw [hc] at hc'
    cases hc'
  · obtain ⟨i, toState, wal, seq, off, hi, -, appended, rfl, rfl⟩ := Engine.applyLocked_ok hlocked
    obtain ⟨pre', c', hsound, -, -⟩ := h.logs (Engine.logs_applyEvent he)
    obtain ⟨pre₁, c₁, hr₁, -, hes₁⟩ := h.repr.append_clean h.clean appended
    have hes : entries (pre' ++ [c']) = entries (pre ++ [c]) ++ [(seq, off,
        .applyEvent r.instanceId r.event i.state toState r.payload (mergeCtx i.ctx r.payload)
          r.eventId r.idempotencyKey)] := by
      rw [← hsound.repr.readable, hwal, hr₁.readable]
      exact hes₁
    refine ⟨i, _, pre', c', _, hi, rfl, rfl, congrArg Memory.instances hmem, rfl, hsound, hes, rfl,
      ?_⟩
    intro q hq
    have hids := h.repr.append_low low appended (hwal ▸ hsound.repr)
    have hinc := entries_increasing hsound.repr.holds.ascending hids
    rw [hes, List.pairwise_append] at hinc
    exact hinc.2.2 q hq _ (List.mem_singleton_self _)

theorem Engine.Sound.applyEvent_failed (h : e.Sound pre c) {err : CoreError}
    (he : e.applyEvent X r = some (e', .error err)) :
    ∃ (pre' : List (Chunk X.toExternals)) (c' : Chunk X.toExternals), e'.Sound pre' c' ∧
      e'.toMemory = e.toMemory ∧ entries (pre' ++ [c']) = entries (pre ++ [c]) := by
  obtain ⟨_, -, -, hok⟩ | ⟨-, s₁, happlied, ⟨-, -, rfl⟩ | ⟨_, hok, -⟩⟩ := Engine.applyEvent_cases he
  · cases hok
  · cases happlied with
    | rejected => exact ⟨pre, c, h, rfl, rfl⟩
    | refused failed =>
      obtain ⟨pre', c', hsound, -, -⟩ := h.logs (Engine.logs_applyEvent he)
      obtain ⟨pre₁, c₁, hr₁, -, hes₁⟩ := h.repr.append_clean h.clean failed
      refine ⟨pre', c', hsound, rfl, ?_⟩
      rw [← hsound.repr.readable, hr₁.readable]
      exact hes₁
  · cases hok

/-! ## Requests and subscriptions together -/

/-- What the run has applied on an instance: the events told, and one that may still
have to be told. -/
def lineOf (id : String) (told : List InstanceEvent) (ts : List WatchTask) : List InstanceEvent :=
  eventsOn id told ++ ts.filterMap (WatchTask.untold id)

structure EventsOrdered {X : ServerExternals} (s : Shared) (ts : List WatchTask)
    (told : List InstanceEvent) (b : EventBroadcaster) (pre : List (Chunk X.toExternals))
    (c : Chunk X.toExternals) : Prop where
  sound : s.engine.Sound (X := X.toCoreExternals) pre c
  broadcaster : s.broadcaster = some b
  one : ∀ id, (ts.filterMap (WatchTask.untold id)).length ≤ 1
  lines : ∀ id, Line s.engine (entries (pre ++ [c])) id (lineOf id told ts)
  follows : ∀ t ∈ ts, t.Follows b told

section
variable {X : ServerExternals} {s s' : Shared} {ts xs ys : List WatchTask} {t t' : WatchTask}
  {told : List InstanceEvent} {b b' : EventBroadcaster} {pre pre' : List (Chunk X.toExternals)}
  {c c' : Chunk X.toExternals}

/-- A step that applies nothing and tells nothing. -/
theorem EventsOrdered.moved (h : EventsOrdered s (xs ++ t :: ys) told b pre c)
    (hsound : s'.engine.Sound (X := X.toCoreExternals) pre' c')
    (hmem : s'.engine.toMemory = s.engine.toMemory)
    (hes : entries (pre' ++ [c']) = entries (pre ++ [c])) (hb : s'.broadcaster = some b')
    (hu : ∀ id, t'.untold id = t.untold id)
    (hfollows : ∀ u ∈ xs ++ t' :: ys, u.Follows b' told) :
    EventsOrdered s' (xs ++ t' :: ys) told b' pre' c' := by
  have hsame (id : String) : (xs ++ t' :: ys).filterMap (WatchTask.untold id) =
      (xs ++ t :: ys).filterMap (WatchTask.untold id) := by
    rw [filterMap_middle, filterMap_middle, hu]
  refine ⟨hsound, hb, fun id => hsame id ▸ h.one id, fun id => ?_, hfollows⟩
  rw [lineOf, hsame id, hes]
  exact (h.lines id).kept (by rw [hmem]) fun _ hp => hp

theorem EventsOrdered.spawned (h : EventsOrdered s ts told b pre c) (start : TaskStart) :
    EventsOrdered s (ts ++ [start.task]) told b pre c := by
  have hu (id : String) : start.task.untold id = none := by cases start <;> rfl
  have hsame (id : String) : (ts ++ [start.task]).filterMap (WatchTask.untold id) =
      ts.filterMap (WatchTask.untold id) := by
    rw [filterMap_middle, hu]
    simp
  refine ⟨h.sound, h.broadcaster, fun id => hsame id ▸ h.one id, fun id => ?_, ?_⟩
  · rw [lineOf, hsame id]
    exact h.lines id
  · exact forall_spawned h.follows (by cases start <;> trivial)

/-- The call of the engine, when nothing on its instance is untold. -/
theorem EventsOrdered.called {params : Value} {p : ApplyEventParams} {i : Instance} {pc : EventPc}
    (h : EventsOrdered s (xs ++ .event params (.found p i) :: ys) told b pre c)
    (hnone : ∀ u ∈ xs ++ .event params (.found p i) :: ys, u.untold p.instanceId = none)
    (hcache :
      (s.engine.cachedResult p.instanceId p.idempotencyKey).all (fun a => !a.applied) = true)
    (low : s.engine.wal.nextId < 2 ^ 24)
    (hn : (EventPc.found p i).next X s params = some (s', pc)) :
    ∃ pre' c', EventsOrdered (X := X) s' (xs ++ .event params pc :: ys) told b pre' c' := by
  have hfollows : ∀ u ∈ xs ++ .event params pc :: ys, u.Follows b told :=
    forall_replace h.follows trivial
  simp only [EventPc.next] at hn
  split at hn
  · cases hn
  · rename_i engine err he
    cases hn
    obtain ⟨pre', c', hsound, hmem, hes⟩ := h.sound.applyEvent_failed he
    exact ⟨pre', c', h.moved hsound hmem hes h.broadcaster (fun _ => rfl) hfollows⟩
  · rename_i engine a he
    cases hn
    cases hc : s.engine.cachedResult p.instanceId p.idempotencyKey with
    | some a' =>
      -- A result that was never applied is not told.
      obtain ⟨hc', rfl⟩ | ⟨hc', -⟩ := Engine.applyEvent_ok he
      · have hc' : s.engine.cachedResult p.instanceId p.idempotencyKey = some a := hc'
        rw [hc'] at hcache
        have hflag : a.applied = false := by simpa using hcache
        refine ⟨pre, c, h.moved h.sound rfl rfl h.broadcaster (fun id => ?_) hfollows⟩
        simp only [hflag, Bool.false_eq_true, if_false]
        rfl
      · have hc' : s.engine.cachedResult p.instanceId p.idempotencyKey = none := hc'
        rw [hc] at hc'
        cases hc'
    | none =>
      obtain ⟨j, j', pre', c', q, hj, hfrom, hflag, hinst, hto, hsound, hes, hoff, hlater⟩ :=
        h.sound.applyEvent low he hc
      have hmore : ∀ q ∈ entries (pre ++ [c]), q ∈ entries (pre' ++ [c']) := by
        rw [hes]
        exact fun q hq => List.mem_append_left _ hq
      have hinst : engine.instances = s.engine.instances.insert p.instanceId j' := hinst
      have hold : (xs ++ .event params (.found p i) :: ys).filterMap
          (WatchTask.untold p.instanceId) = [] := List.filterMap_eq_nil_iff.mpr hnone
      simp only [hflag, if_true] at hfollows ⊢
      generalize hev : notification i p a = f at hfollows ⊢
      have hfid : f.instanceId = p.instanceId := by rw [← hev]; rfl
      have hnew : (xs ++ .event params (.notifying f) :: ys).filterMap
          (WatchTask.untold p.instanceId) = [f] := by
        rw [filterMap_middle] at hold ⊢
        simp only [List.append_eq_nil_iff] at hold
        obtain ⟨h₁, -, h₂⟩ := hold
        rw [h₁, h₂]
        simp [WatchTask.untold, hfid]
      have hother (id : String) (hid : id ≠ p.instanceId) :
          (xs ++ .event params (.notifying f) :: ys).filterMap (WatchTask.untold id) =
            (xs ++ .event params (.found p i) :: ys).filterMap (WatchTask.untold id) := by
        have hnot : WatchTask.untold id (.event params (.notifying f)) = none := by
          rw [WatchTask.untold, hfid, if_neg (Ne.symm hid)]
        rw [filterMap_middle, filterMap_middle, hnot]
        rfl
      refine ⟨pre', c', hsound, h.broadcaster, fun id => ?_, fun id => ?_, hfollows⟩
      · by_cases hid : id = p.instanceId
        · rw [hid, hnew]
          exact le_refl 1
        · rw [hother id hid]
          exact h.one id
      · by_cases hid : id = p.instanceId
        · subst hid
          have hline := h.lines p.instanceId
          rw [lineOf, hold, List.append_nil] at hline
          rw [lineOf, hnew]
          refine @Line.snoc _ _ _ _ _ _ hline _ j' _ hj (hev ▸ hfrom) ?_ (hev ▸ hto) (hev ▸ hlater)
            hmore ⟨q, ?_, hev ▸ hoff⟩
          · rw [hinst]
            simp
          · rw [hes]
            simp
        · rw [lineOf, hother id hid]
          refine (h.lines id).kept ?_ hmore
          rw [hinst, Table.getElem?_insert_ne hid]

/-- The event is told: it moves from the end of the line of its instance to the events
told. -/
theorem EventsOrdered.notified {params : Value} {f : InstanceEvent}
    (h : EventsOrdered s (xs ++ .event params (.notifying f) :: ys) told b pre c) :
    EventsOrdered { s with broadcaster := s.broadcaster.map (·.notify f) }
      (xs ++ .event params .done :: ys) (told ++ [f]) (b.notify f) pre c := by
  have hdone (id : String) : WatchTask.untold id (.event params .done) = none := rfl
  have hothers : xs.filterMap (WatchTask.untold f.instanceId) = [] ∧
      ys.filterMap (WatchTask.untold f.instanceId) = [] := by
    have hone := h.one f.instanceId
    rw [filterMap_middle] at hone
    simp only [WatchTask.untold, if_true, Option.toList_some, List.length_append,
      List.length_singleton] at hone
    constructor <;> rw [← List.length_eq_zero_iff] <;> omega
  have hline (id : String) : lineOf id (told ++ [f]) (xs ++ .event params .done :: ys) =
      lineOf id told (xs ++ .event params (.notifying f) :: ys) := by
    rw [lineOf, lineOf, eventsOn, eventsOn, filterMap_middle, filterMap_middle, hdone,
      List.filter_append]
    by_cases hid : f.instanceId = id
    · subst hid
      rw [hothers.1, hothers.2]
      simp [WatchTask.untold]
    · simp [WatchTask.untold, hid]
  refine ⟨h.sound, by rw [h.broadcaster]; rfl, fun id => ?_, fun id => ?_, ?_⟩
  · have hone := h.one id
    rw [filterMap_middle] at hone ⊢
    rw [hdone]
    simp only [List.length_append, Option.toList_none, List.length_nil] at hone ⊢
    omega
  · rw [hline]
    exact h.lines id
  · exact forall_replace (t := .event params (.notifying f))
      (fun u hu => (h.follows u hu).notify f) trivial

theorem events_ordered_step {op : Sched TaskStart} {ts' : List WatchTask}
    (h : EventsOrdered s ts told b pre c) (quiet : unraced (s, ts) op = true)
    (hs : eventSched X (s, ts) op = some (s', ts')) :
    ∃ told' b' pre' c', EventsOrdered (X := X) s' ts' told' b' pre' c' := by
  obtain ⟨start, rfl, rfl, rfl⟩ | ⟨k, xs, t, t', ys, rfl, hk, rfl, hn, rfl⟩ := interleave_cases hs
  · exact ⟨told, b, pre, c, h.spawned start⟩
  · cases t with
    | event params pc =>
      obtain ⟨⟨_, pc'⟩, hpc, hout⟩ := Option.map_eq_some_iff.mp hn
      cases hout
      cases pc with
      | started =>
        have hs' : s' = s ∧ ∀ id, WatchTask.untold id (.event params pc') = none := by
          simp only [EventPc.next] at hpc
          split at hpc
          · cases hpc
            exact ⟨rfl, fun _ => rfl⟩
          · split at hpc <;> cases hpc <;> exact ⟨rfl, fun _ => rfl⟩
        obtain ⟨rfl, hu⟩ := hs'
        exact ⟨told, b, pre, c, h.moved h.sound rfl rfl h.broadcaster hu
          (forall_replace h.follows trivial)⟩
      | found p i =>
        simp only [unraced, hk, Bool.and_eq_true, List.all_eq_true, Option.isNone_iff_eq_none,
          decide_eq_true_eq] at quiet
        obtain ⟨⟨hnone, hcache⟩, low⟩ := quiet
        obtain ⟨pre', c', h'⟩ := h.called hnone hcache low hpc
        exact ⟨told, b, pre', c', h'⟩
      | notifying f =>
        cases hpc
        exact ⟨_, _, pre, c, h.notified⟩
      | done => cases hpc
    | subscribing kind =>
      simp only [WatchTask.next, h.broadcaster] at hn
      cases hn
      refine ⟨told, _, pre, c, h.moved h.sound rfl rfl rfl (fun _ => rfl) ?_⟩
      exact forall_replace (t := .subscribing kind) (fun u hu => (h.follows u hu).subscribe _ kind)
        fun _ => follows_subscribe b _ kind told
    | subscribed sub =>
      simp only [WatchTask.next, h.broadcaster] at hn
      obtain ⟨sub', hr, hout⟩ := Option.map_eq_some_iff.mp hn
      cases hout
      refine ⟨told, b, pre, c, h.moved h.sound rfl rfl h.broadcaster (fun _ => rfl) ?_⟩
      exact forall_replace h.follows ((h.follows (.subscribed sub) (by simp)).recv hr)

/-- From every server that requests, compactions and restarts can lead to, on every
schedule of `APPLY_EVENT` requests and subscriptions in which the engine is called
only when the earlier events on the instance have been told, never for a result that
it has cached, and with segment ids that fit: a subscription that has not lagged has
received the events of each instance in order, and passes them on in this order. -/
theorem events_in_order {config : ServerConfig} {server₀ server : Server} {ops : List ServerOp}
    (hstart : Server.start X config ∅ .empty 0 = some (.ok server₀))
    (hops : run (Server.step X) server₀ ops = some server)
    (hb : server.shared.broadcaster = some b) {sched : List (Sched TaskStart)}
    {t : Shared × List WatchTask}
    (quiet : Meets (eventSched X) (fun s op => unraced s op = true) (server.shared, []) sched)
    (hrun : run (eventSched X) (server.shared, []) sched = some t) {sub : Subscriber}
    (hsub : .subscribed sub ∈ t.2) (hlag : sub.lagged = false) (id : String) :
    InOrder (eventsOn id sub.received) ∧
      (eventsOn id sub.forwarded).Pairwise fun e f => e.walOffset < f.walOffset := by
  obtain ⟨pre, c, hsound⟩ := Server.sound_of_start hstart hops
  have start : EventsOrdered server.shared [] [] b pre c :=
    ⟨hsound.engine, hb, by simp, fun _ => ⟨List.isChain_nil, by simp [lineOf, eventsOn],
      by simp [lineOf, eventsOn]⟩, by simp⟩
  obtain ⟨told, b', pre', c', h⟩ := run_keeps_of_meets
    (P := fun t => ∃ told b pre c, EventsOrdered (X := X) t.1 t.2 told b pre c)
    (fun _ _ _ ⟨_, _, _, _, h⟩ hq hs => events_ordered_step h hq hs)
    ⟨[], b, pre, c, start⟩ quiet hrun
  have hreceived : InOrder (eventsOn id sub.received) := by
    obtain ⟨-, before, rest, -, -, hsuffix⟩ := h.follows _ hsub hlag
    have hpart : sub.received <:+: sub.receiver.channel.carried told :=
      (List.prefix_append _ _).isInfix.trans hsuffix.isInfix
    have hline : InOrder (eventsOn id told) :=
      (List.isChain_append.mp (h.lines id).ordered).1
    exact List.IsChain.infix (hline.carried _) (hpart.filter _)
  refine ⟨hreceived, hreceived.increasing.sublist ?_⟩
  exact List.Sublist.filter _ List.filter_sublist

end

/-- A subscription to everything and two events on `i`, and then these steps. -/
def watchedEvents (steps : List Nat) : List (Sched TaskStart) :=
  [.spawn (.watch (.all ⟨[], [], [], []⟩ true)), .step 0,
    .spawn (.applyEvent (applyLoop "i" .null).params),
    .spawn (.applyEvent (applyLoop "i" .null).params)] ++ steps.map .step

/-- The subscription has not lagged and has taken two events on `i`. -/
def WatchTask.tookTwo (good : List InstanceEvent → Bool) : WatchTask → Bool
  | .subscribed sub =>
    !sub.lagged && (eventsOn "i" sub.received).length = 2 && good (eventsOn "i" sub.received)
  | _ => false

theorem WatchTask.subscribed_of_tookTwo {good : List InstanceEvent → Bool} {ts : List WatchTask}
    (h : ts.any (WatchTask.tookTwo good) = true) :
    ∃ sub, .subscribed sub ∈ ts ∧ sub.lagged = false ∧ (eventsOn "i" sub.received).length = 2 ∧
      good (eventsOn "i" sub.received) = true := by
  obtain ⟨t, ht, htook⟩ := List.any_eq_true.mp h
  cases t with
  | event | subscribing => cases htook
  | subscribed sub =>
    simp only [tookTwo, Bool.and_eq_true, Bool.not_eq_true', decide_eq_true_eq] at htook
    exact ⟨sub, ht, htook.1.1, htook.1.2, htook.2⟩

/-- A server with an instance `i`. -/
def loopServer : List ServerOp :=
  [.request (Session.new false) putLoop, .request (Session.new false) (createLoop "i" [])]

set_option maxRecDepth 4000 in
/-- The second event is applied when the first has been told. -/
theorem events_in_order_in_turn :
    ∃ server, run (Server.step serdeServer) (.fresh (openConfig 1000)) loopServer = some server ∧
      ∃ t, run (eventSched serdeServer) (server.shared, [])
        (watchedEvents [1, 2, 1, 1, 0, 2, 2, 0]) = some t ∧
        ∃ sub, .subscribed sub ∈ t.2 ∧ (eventsOn "i" sub.received).length = 2 ∧
          InOrder (eventsOn "i" sub.received) := by
  refine run_exists (p := fun server => server.shared.broadcaster.isSome = true ∧
    Meets (eventSched serdeServer) (fun s op => unraced s op = true) (server.shared, [])
      (watchedEvents [1, 2, 1, 1, 0, 2, 2, 0]) ∧
    (run (eventSched serdeServer) (server.shared, []) (watchedEvents [1, 2, 1, 1, 0, 2, 2, 0])).any
      (fun t => decide (t.2.any (WatchTask.tookTwo fun _ => true) = true)) = true)
    (by decide +kernel) ?_
  rintro server hops ⟨hb, quiet, hend⟩
  obtain ⟨b, hb⟩ := Option.isSome_iff_exists.mp hb
  refine run_exists hend fun t hrun htook => ?_
  obtain ⟨sub, hsub, hlag, htwo, -⟩ := WatchTask.subscribed_of_tookTwo htook
  exact ⟨sub, hsub, htwo,
    (events_in_order (Server.start_empty rfl) hops hb quiet hrun hsub hlag "i").1⟩

set_option maxRecDepth 4000 in
/-- The second event is applied and told before the first has been told. -/
theorem later_event_told_first :
    ∃ server, run (Server.step serdeServer) (.fresh (openConfig 1000)) loopServer = some server ∧
      ∃ t, run (eventSched serdeServer) (server.shared, [])
        (watchedEvents [1, 2, 1, 2, 2, 1, 0, 0]) = some t ∧
        ∃ sub, .subscribed sub ∈ t.2 ∧ sub.lagged = false ∧
          ¬ InOrder (eventsOn "i" sub.received) := by
  refine run_exists (p := fun server =>
    (run (eventSched serdeServer) (server.shared, []) (watchedEvents [1, 2, 1, 2, 2, 1, 0, 0])).any
      (fun t => decide (t.2.any (WatchTask.tookTwo fun es => !decide (InOrder es)) = true)) = true)
    (by decide +kernel) ?_
  intro server _ hend
  refine run_exists hend fun t _ htook => ?_
  obtain ⟨sub, hsub, hlag, -, hnot⟩ := WatchTask.subscribed_of_tookTwo htook
  exact ⟨sub, hsub, hlag, by simpa using hnot⟩

end Rstmdb

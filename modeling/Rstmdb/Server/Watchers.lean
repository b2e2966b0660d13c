import Rstmdb.Core.Paths
import Rstmdb.Server.Connection
import Rstmdb.Server.EventOrder

/-! Requests to apply and to watch, from many connections and step by step. A request
to watch an instance reads it before it subscribes; a request to watch everything
subscribes and then reads the head of the log. An event is in the log and stored
before its watchers are notified. -/
namespace Rstmdb
open Json (Value)

/-! ## From a channel to the connection -/

/-- A subscription on its way to the client: what the receiver has taken and the filter
lets through has been written, is queued for the connection, or waits for room there. -/
structure Feed where
  sub : Subscriber
  waiting : Option InstanceEvent
  eventRx : List InstanceEvent
  written : List InstanceEvent
  passes : sub.forwarded = written ++ (eventRx ++ waiting.toList)

namespace Feed

def start (sub : Subscriber) (h : sub.received = []) : Feed :=
  ⟨sub, none, [], [], by simp [Subscriber.forwarded, h]⟩

/-- The next step of the loop in `spawn_subscription_forwarder`. -/
def next (b : EventBroadcaster) (feed : Feed) : Option Feed :=
  match hw : feed.waiting with
  | some e =>
    if eventChannelCapacity ≤ feed.eventRx.length then none
    else
      some { feed with
        waiting := none
        eventRx := feed.eventRx ++ [e]
        passes := by simp [feed.passes, hw] }
  | none =>
    match b.recv feed.sub.receiver with
    | (.empty, _) => none
    | (.lagged _, receiver) =>
      some { feed with
        sub := { feed.sub with receiver, lagged := true }
        passes := feed.passes }
    | (.event e, receiver) =>
      some { feed with
        sub := { feed.sub with receiver, received := feed.sub.received ++ [e] }
        waiting := if feed.sub.filter.all (·.accepts e) then some e else none
        passes := by
          have hold : feed.sub.forwarded = feed.written ++ feed.eventRx := by
            simp [feed.passes, hw]
          simp only [Subscriber.forwarded] at hold ⊢
          rw [List.filter_append, hold, List.append_assoc]
          by_cases ha : feed.sub.filter.all (·.accepts e) = true <;> simp [ha] }

/-- The connection writes the event at the head of its queue. -/
def write (feed : Feed) : Option Feed :=
  match hq : feed.eventRx with
  | [] => none
  | e :: eventRx =>
    some { feed with
      eventRx
      written := feed.written ++ [e]
      passes := by simp [feed.passes, hq] }

/-- Nothing is left to be taken, sent or written. -/
def rests (b : EventBroadcaster) (feed : Feed) : Bool :=
  feed.waiting.isNone && feed.eventRx.isEmpty &&
    (b.sent feed.sub.receiver.channel).length ≤ feed.sub.receiver.next

end Feed

/-! ## Requests -/

/-- The server between two steps of its requests. -/
structure ServerThreads where
  shared : Shared
  locks : List String
  appended : List ReadEntry

namespace ServerThreads

def engine (s : ServerThreads) : ThreadedEngine := ⟨s.shared.engine, s.locks, s.appended⟩

def setEngine (s : ServerThreads) (e : ThreadedEngine) : ServerThreads :=
  ⟨{ s.shared with engine := e.engine }, e.locks, e.appended⟩

def notify (s : ServerThreads) (e : InstanceEvent) : ServerThreads :=
  { s with shared := { s.shared with broadcaster := s.shared.broadcaster.map (·.notify e) } }

/-- The broadcaster after a subscription. -/
def subscribed (s : ServerThreads) (b : EventBroadcaster) : ServerThreads :=
  { s with shared := { s.shared with broadcaster := some b, uuids := s.shared.uuids + 1 } }

/-- `get_instance`, which waits while the write lock of the instance is held. -/
def getInstance (s : ServerThreads) (id : String) : Option (Except CoreError Instance) :=
  match s.shared.engine.getInstance id with
  | .error e => some (.error e)
  | .ok i => if id ∈ s.locks then none else some (.ok i)

end ServerThreads

/-- Where a request stands between two atomic steps. -/
inductive RequestTask (L : LogSteps)
  | applyEvent (params : Value)
  /-- The instance has been read, and the engine is called. -/
  | applying (p : ApplyEventParams) (i : Instance) (pc : CallPc L.State)
  | notified (p : ApplyEventParams) (a : ApplyResult)
  | watchInstance (params : Value)
  /-- The instance has been read; next is the subscription. -/
  | sighted (p : WatchInstanceParams) (i : Instance)
  | watchAll (params : Value)
  /-- The subscription to everything is made; next is the head of the log. -/
  | subscribed (feed : Feed)
  /-- The reply has been made, with this offset in it. -/
  | watching (offset : Nat) (feed : Feed)
  | failed

inductive RequestStart
  | applyEvent (params : Value)
  | watchInstance (params : Value)
  | watchAll (params : Value)

def RequestStart.task (L : LogSteps) : RequestStart → RequestTask L
  | .applyEvent params => .applyEvent params
  | .watchInstance params => .watchInstance params
  | .watchAll params => .watchAll params

theorem EventBroadcaster.subscribe_received (b : EventBroadcaster) (id : String)
    (kind : SubscriptionType) : (b.subscribe id kind).2.received = [] := by
  cases kind <;> rfl

def EventBroadcaster.feed (b : EventBroadcaster) (id : String) (kind : SubscriptionType) : Feed :=
  .start (b.subscribe id kind).2 (b.subscribe_received id kind)

def WatchAllParams.filter (p : WatchAllParams) : EventFilter :=
  ⟨p.machines, p.fromStates, p.toStates, p.events⟩

section
variable (X : ServerExternals) (L : LogSteps) (s : ServerThreads)

/-- A step of the engine call, or of the rest of `handle_apply_event` behind it. -/
def applyNext (p : ApplyEventParams) (i : Instance) :
    CallPc L.State → Option (ServerThreads × RequestTask L)
  | .done (.ok (.applied a)) =>
    if a.applied then some (s.notify (notification i p a), .notified p a) else none
  | pc =>
    ((EngineCall.applyEvent p.request).next X.toCoreExternals L s.engine pc).map fun (e, pc) =>
      (s.setEngine e, .applying p i pc)

/-- The next atomic step of a request; `none` if there is none, or if it has to wait. -/
def RequestTask.next : RequestTask L → Option (ServerThreads × RequestTask L)
  | .applyEvent params =>
    match ApplyEventParams.fromValue params with
    | none => some (s, .failed)
    | some p =>
      match s.getInstance p.instanceId with
      | none => none
      | some (.error _) => some (s, .failed)
      | some (.ok i) => some (s, .applying p i .started)
  | .applying p i pc => applyNext X L s p i pc
  | .watchInstance params =>
    match WatchInstanceParams.fromValue params with
    | none => some (s, .failed)
    | some p =>
      match s.getInstance p.instanceId with
      | none => none
      | some (.error _) => some (s, .failed)
      | some (.ok i) => some (s, .sighted p i)
  | .sighted p i =>
    match s.shared.broadcaster with
    | none => some (s, .failed)
    | some b =>
      let id := subscriptionId X s.shared
      let kind := .instance p.instanceId p.includeCtx
      some (s.subscribed (b.subscribe id kind).1, .watching i.lastWalOffset (b.feed id kind))
  | .watchAll params =>
    match WatchAllParams.fromValue params with
    | none => some (s, .failed)
    | some p =>
      match s.shared.broadcaster with
      | none => some (s, .failed)
      | some b =>
        let id := subscriptionId X s.shared
        let kind := .all p.filter p.includeCtx
        some (s.subscribed (b.subscribe id kind).1, .subscribed (b.feed id kind))
  | .subscribed feed =>
    s.shared.engine.wal.latestOffset.map fun latest =>
      (s, .watching ((latest.map WalOffset.asU64).getD 0) feed)
  | .watching offset feed =>
    match s.shared.broadcaster with
    | none => none
    | some b => (feed.next b).map fun feed => (s, .watching offset feed)
  | .notified .. | .failed => none

end

/-- A step of a request, or a write of the connection that a subscription belongs to. -/
inductive WatchOp
  | sched (op : Sched RequestStart)
  | write (k : Nat)

/-- The steps of requests, of the tasks of subscriptions and of their connections, in
any order. -/
def watchStep (X : ServerExternals) (L : LogSteps) :
    ServerThreads × List (RequestTask L) → WatchOp →
      Option (ServerThreads × List (RequestTask L))
  | s, .sched op => interleave (fun _ start => start.task L) (RequestTask.next X L) s op
  | (s, ts), .write k =>
    match ts[k]? with
    | some (.watching offset feed) =>
      feed.write.map fun feed => (s, ts.set k (.watching offset feed))
    | _ => none

/-! ## Requests alone -/

section
variable {X : ServerExternals} {L : LogSteps} {s s' : Shared} {ses ses' : Session} {params : Value}

/-- A request to watch an instance that nothing comes between does what
`handle_watch_instance` does. -/
theorem watch_instance_alone {value : Value} {id : String} {receiver : Receiver}
    (h : handleWatchInstance X s ses params = (s', ses', .ok (value, id, receiver))) :
    ∃ offset feed, run (watchStep X L) (⟨s, [], []⟩, [])
        [.sched (.spawn (.watchInstance params)), .sched (.step 0), .sched (.step 0)] =
      some (⟨s', [], []⟩, [.watching offset feed]) ∧ feed.sub.receiver = receiver ∧
        value.index "current_wal_offset" = .nat offset := by
  unfold handleWatchInstance at h
  split at h
  · cases h
  rename_i p hp
  split at h
  · cases h
  rename_i i hi
  split at h
  · cases h
  rename_i b hb
  cases h
  refine ⟨i.lastWalOffset, b.feed (subscriptionId X s)
    (.instance p.instanceId p.includeCtx), ?_, rfl, ?_⟩
  · simp [run, watchStep, interleave, RequestStart.task, RequestTask.next,
      ServerThreads.getInstance, ServerThreads.subscribed, hp, hi, hb]
    rfl
  · simp [Value.obj, Value.index, Json.Fields.ofList, Json.Fields.get?_insert]

/-- A request to watch everything that nothing comes between does what
`handle_watch_all` does. -/
theorem watch_all_alone {value : Value} {id : String} {receiver : Receiver} {filter : EventFilter}
    (h : handleWatchAll X s ses params = some (s', ses', .ok (value, id, receiver, filter))) :
    ∃ offset feed, run (watchStep X L) (⟨s, [], []⟩, [])
        [.sched (.spawn (.watchAll params)), .sched (.step 0), .sched (.step 0)] =
      some (⟨s', [], []⟩, [.watching offset feed]) ∧ feed.sub.receiver = receiver ∧
        feed.sub.filter = some filter ∧ value.index "wal_offset" = .nat offset := by
  unfold handleWatchAll at h
  split at h
  · cases h
  rename_i p hp
  split at h
  · cases h
  rename_i b hb
  obtain ⟨latest, hl, hout⟩ := Option.map_eq_some_iff.mp h
  cases hout
  refine ⟨(latest.map WalOffset.asU64).getD 0, b.feed (subscriptionId X s)
    (.all p.filter p.includeCtx), ?_, rfl, rfl, ?_⟩
  · simp [run, watchStep, interleave, RequestStart.task, RequestTask.next,
      ServerThreads.subscribed, hp, hb, hl]
    rfl
  · simp [Value.obj, Value.index, Json.Fields.ofList, Json.Fields.get?_insert]

end

/-! ## What a step can do -/

/-- The call of the engine that a request has begun. -/
def RequestTask.thread {L : LogSteps} : RequestTask L → Option (EngineThread L)
  | .applying p _ pc => some ⟨.applyEvent p.request, pc⟩
  | .notified p a => some ⟨.applyEvent p.request, .done (.ok (.applied a))⟩
  | _ => none

/-- All that a step of a request, or a write, can do. -/
inductive RequestTask.Moved (X : ServerExternals) (L : LogSteps) (s : ServerThreads) :
    RequestTask L → ServerThreads → RequestTask L → Prop
  | refused {t : RequestTask L} (early : t.thread = none) : Moved X L s t s .failed
  | found {params : Value} {p : ApplyEventParams} {i : Instance}
      (present : s.shared.engine.instances[p.instanceId]? = some i)
      (free : p.instanceId ∉ s.locks) :
      Moved X L s (.applyEvent params) s (.applying p i .started)
  | stepped {p : ApplyEventParams} {i : Instance} {pc pc' : CallPc L.State} {e : ThreadedEngine}
      (h : (EngineCall.applyEvent p.request).next X.toCoreExternals L s.engine pc = some (e, pc')) :
      Moved X L s (.applying p i pc) (s.setEngine e) (.applying p i pc')
  | told {p : ApplyEventParams} {i : Instance} {a : ApplyResult} (flag : a.applied = true) :
      Moved X L s (.applying p i (.done (.ok (.applied a)))) (s.notify (notification i p a))
        (.notified p a)
  | sighted {params : Value} {p : WatchInstanceParams} {i : Instance}
      (present : s.shared.engine.instances[p.instanceId]? = some i)
      (free : p.instanceId ∉ s.locks) : Moved X L s (.watchInstance params) s (.sighted p i)
  | joined {p : WatchInstanceParams} {i : Instance} {b : EventBroadcaster} {id : String}
      {kind : SubscriptionType} (hb : s.shared.broadcaster = some b)
      (hkind : kind = .instance p.instanceId p.includeCtx) :
      Moved X L s (.sighted p i) (s.subscribed (b.subscribe id kind).1)
        (.watching i.lastWalOffset (b.feed id kind))
  | joinedAll {params : Value} {p : WatchAllParams} {b : EventBroadcaster} {id : String}
      {kind : SubscriptionType} (hb : s.shared.broadcaster = some b)
      (hkind : kind = .all p.filter p.includeCtx) :
      Moved X L s (.watchAll params) (s.subscribed (b.subscribe id kind).1)
        (.subscribed (b.feed id kind))
  | headRead {feed : Feed} {latest : Option WalOffset}
      (hl : s.shared.engine.wal.latestOffset = some latest) :
      Moved X L s (.subscribed feed) s (.watching ((latest.map WalOffset.asU64).getD 0) feed)
  | fed {offset : Nat} {feed feed' : Feed} {b : EventBroadcaster}
      (hb : s.shared.broadcaster = some b) (h : feed.next b = some feed') :
      Moved X L s (.watching offset feed) s (.watching offset feed')
  | wrote {offset : Nat} {feed feed' : Feed} (h : feed.write = some feed') :
      Moved X L s (.watching offset feed) s (.watching offset feed')

section
variable {X : ServerExternals} {L : LogSteps} {s s' : ServerThreads} {t t' : RequestTask L}
  {ts ts' : List (RequestTask L)}

theorem ServerThreads.getInstance_ok {id : String} {i : Instance}
    (h : s.getInstance id = some (.ok i)) :
    s.shared.engine.instances[id]? = some i ∧ id ∉ s.locks := by
  unfold getInstance at h
  split at h
  · cases h
  rename_i j hj
  split at h <;> cases h
  rename_i hfree
  exact ⟨Engine.getInstance_ok hj, hfree⟩

theorem moved_of_applyNext {p : ApplyEventParams} {i : Instance} {pc : CallPc L.State}
    (h : applyNext X L s p i pc = some (s', t')) :
    RequestTask.Moved X L s (.applying p i pc) s' t' := by
  unfold applyNext at h
  split at h
  · split at h <;> cases h
    rename_i hflag
    exact .told hflag
  · obtain ⟨⟨e, pc'⟩, hn, hout⟩ := Option.map_eq_some_iff.mp h
    cases hout
    exact .stepped hn

theorem moved_of_next (h : t.next X L s = some (s', t')) : t.Moved X L s s' t' := by
  cases t with
  | applyEvent params =>
    simp only [RequestTask.next] at h
    split at h
    · cases h
      exact .refused rfl
    split at h
    · cases h
    · cases h
      exact .refused rfl
    · rename_i hi
      cases h
      obtain ⟨present, free⟩ := ServerThreads.getInstance_ok hi
      exact .found present free
  | applying p i pc => exact moved_of_applyNext h
  | watchInstance params =>
    simp only [RequestTask.next] at h
    split at h
    · cases h
      exact .refused rfl
    split at h
    · cases h
    · cases h
      exact .refused rfl
    · rename_i hi
      cases h
      obtain ⟨present, free⟩ := ServerThreads.getInstance_ok hi
      exact .sighted present free
  | sighted p i =>
    simp only [RequestTask.next] at h
    split at h <;> cases h
    · exact .refused rfl
    · rename_i hb
      exact .joined hb rfl
  | watchAll params =>
    simp only [RequestTask.next] at h
    split at h
    · cases h
      exact .refused rfl
    split at h <;> cases h
    · exact .refused rfl
    · rename_i hb
      exact .joinedAll hb rfl
  | subscribed feed =>
    obtain ⟨latest, hl, hout⟩ := Option.map_eq_some_iff.mp h
    cases hout
    exact .headRead hl
  | watching offset feed =>
    simp only [RequestTask.next] at h
    split at h
    · cases h
    rename_i hb
    obtain ⟨feed', hn, hout⟩ := Option.map_eq_some_iff.mp h
    cases hout
    exact .fed hb hn
  | notified | failed => cases h

/-- A step is a new request, or a move of one request between the others. -/
theorem watchStep_cases {op : WatchOp} (h : watchStep X L (s, ts) op = some (s', ts')) :
    (∃ start, op = .sched (.spawn start) ∧ s' = s ∧ ts' = ts ++ [start.task L]) ∨
      ∃ xs t t' ys, ts = xs ++ t :: ys ∧ t.Moved X L s s' t' ∧ ts' = xs ++ t' :: ys ∧
        ((∃ k, op = .sched (.step k) ∧ ts[k]? = some t) ∨
          ∃ offset feed, t = .watching offset feed) := by
  cases op with
  | sched op =>
    obtain ⟨start, rfl, rfl, rfl⟩ | ⟨k, xs, t, t', ys, rfl, hk, rfl, hn, rfl⟩ := interleave_cases h
    · exact .inl ⟨start, rfl, rfl, rfl⟩
    · exact .inr ⟨xs, t, t', ys, rfl, moved_of_next hn, rfl, .inl ⟨k, rfl, hk⟩⟩
  | write k =>
    simp only [watchStep] at h
    split at h
    · rename_i offset feed hk
      obtain ⟨feed', hw, hout⟩ := Option.map_eq_some_iff.mp h
      cases hout
      obtain ⟨xs, ys, rfl, hset⟩ := getElem?_split hk
      exact .inr ⟨xs, _, _, ys, rfl, .wrote hw, hset _, .inr ⟨offset, feed, rfl⟩⟩
    · cases h

end

/-! ## The events on the way -/

/-- The result of the event that the call has logged, or has found in the cache. -/
def CallPc.applied {σ : Type} : CallPc σ → Option ApplyResult
  | .logged p seq off =>
    match p.result seq off with
    | .applied a => some a
    | _ => none
  | .caching a | .done (.ok (.applied a)) => some a
  | _ => none

/-- The event that the request is going to notify the watchers of. -/
def RequestTask.owed {L : LogSteps} : RequestTask L → Option InstanceEvent
  | .applying p i pc => (pc.applied.filter (·.applied)).map (notification i p)
  | _ => none

/-- What a step of the call of an event does to the log and the instances. -/
inductive EventEffect {σ : Type} (r : EventRequest) (s s' : ThreadedEngine) (pc pc' : CallPc σ) :
    Prop
  | quiet (appended : s'.appended = s.appended)
      (instances : s'.engine.instances = s.engine.instances) (result : pc'.applied = pc.applied)
      (before : ∀ p seq off, pc ≠ .logged p seq off)
      (after : ∀ p seq off, pc' ≠ .logged p seq off)
  | replayed {a : ApplyResult} (before : pc = .started) (same : s' = s)
      (after : pc' = .done (.ok (.applied a)))
      (cached : s.engine.cachedResult r.instanceId r.idempotencyKey = some a)
  | logged {i : Instance} {toState : String} {seq : UInt64} {off : WalOffset} {l : σ}
      (before : pc = .logging (.applyEvent r i toState) l)
      (present : s.engine.instances[r.instanceId]? = some i)
      (appended : s'.appended = s.appended ++ [(seq, off, (Pending.applyEvent r i toState).entry)])
      (instances : s'.engine.instances = s.engine.instances)
      (after : pc' = .logged (.applyEvent r i toState) seq off)
  | stored {i : Instance} {toState : String} {seq : UInt64} {off : WalOffset}
      (before : pc = .logged (.applyEvent r i toState) seq off)
      (present : s.engine.instances[r.instanceId]? = some i)
      (appended : s'.appended = s.appended)
      (instances : s'.engine.instances = s.engine.instances.insert r.instanceId
        (i.applyTransition toState (mergeCtx i.ctx r.payload) r.eventId off.asU64))
      (result : pc'.applied = pc.applied) (after : ∀ p seq off, pc' ≠ .logged p seq off)

theorem eventEffect_of_next {X : CoreExternals} {L : LogSteps} {s s' : ThreadedEngine}
    {r : EventRequest} {pc pc' : CallPc L.State}
    (hn : (EngineCall.applyEvent r).next X L s pc = some (s', pc'))
    (own : ∀ p ∈ (⟨.applyEvent r, pc⟩ : EngineThread L).pending, p.call = .applyEvent r ∧
      ∀ q ∈ p.found, s.engine.instances[q.1]? = some q.2) :
    EventEffect r s s' pc pc' := by
  -- A call for an event can only have found an event.
  have mine {p : Pending} (hp : p ∈ (⟨.applyEvent r, pc⟩ : EngineThread L).pending) :
      ∃ i toState, p = .applyEvent r i toState ∧ s.engine.instances[r.instanceId]? = some i := by
    obtain ⟨hcall, hfound⟩ := own p hp
    cases p with
    | putMachine | createInstance | deleteInstance => cases hcall
    | applyEvent r' i toState =>
      cases hcall
      exact ⟨i, toState, rfl, hfound _ rfl⟩
  cases stepped_of_next hn with
  | answered early answer =>
    cases answer with
    | failed =>
      obtain rfl | rfl | rfl := early <;> exact .quiet rfl rfl rfl (by simp) (by simp)
    | cached hc =>
      -- Only the first look is at the cache.
      obtain rfl | rfl | rfl := early
      · exact .replayed rfl rfl rfl hc
      · simp only [EngineCall.next, EngineCall.enter, acquire] at hn
        split at hn
        · cases hn
        · split at hn <;> simp at hn
      · cases hn
  | missed | appending | refused => exact .quiet rfl rfl rfl (by simp) (by simp)
  | checked hcall => cases hcall
  | acquired early =>
    obtain rfl | rfl := early <;> exact .quiet rfl rfl rfl (by simp) (by simp)
  | rejected hid outcome =>
    obtain ⟨err, rfl⟩ | ⟨offset, rfl⟩ := outcome <;> exact .quiet rfl rfl rfl (by simp) (by simp)
  | planned ready =>
    cases ready
    exact .quiet rfl rfl rfl (by simp) (by simp [CallPc.log])
  | appended =>
    obtain ⟨i, toState, rfl, present⟩ := mine rfl
    exact .logged rfl present rfl rfl rfl
  | created =>
    obtain ⟨i, toState, hp, -⟩ := mine rfl
    cases hp
  | applied ha =>
    obtain ⟨i, toState, hp, present⟩ := mine rfl
    cases hp
    refine .stored rfl present rfl rfl ?_ (by simp)
    simp [CallPc.applied, ha]
  | finished other =>
    obtain ⟨i, toState, hp, -⟩ := mine rfl
    obtain ⟨name, version, json, d, rfl⟩ | ⟨id, key, j, rfl⟩ := other <;> cases hp
  | cached hcall =>
    cases hcall
    refine .quiet rfl ?_ rfl (by simp) (by simp)
    exact congrArg Memory.instances (Engine.cacheResult_memory _ _ _ _)

/-! ## Receivers -/

/-- What a subscription has taken and what is there for it to take. -/
def Subscriber.due (b : EventBroadcaster) (sub : Subscriber) : List InstanceEvent :=
  sub.received ++ (b.sent sub.receiver.channel).drop sub.receiver.next

/-- The receiver is at a place in its channel, and has taken or will take these events. -/
def Feed.Follows (feed : Feed) (o : Option EventBroadcaster) (es : List InstanceEvent) : Prop :=
  ∃ b, o = some b ∧ b.hasChannel feed.sub.receiver.channel = true ∧
    feed.sub.receiver.next ≤ (b.sent feed.sub.receiver.channel).length ∧ feed.sub.due b = es

section
variable {o : Option EventBroadcaster} {b : EventBroadcaster} {feed feed' : Feed}
  {es : List InstanceEvent}

theorem Feed.follows_start (b : EventBroadcaster) (id : String) (kind : SubscriptionType) :
    (b.feed id kind).Follows (some (b.subscribe id kind).1) [] := by
  obtain ⟨instanceId, _⟩ | _ := kind
  · refine ⟨_, rfl, ?_, ?_, ?_⟩ <;>
      simp [EventBroadcaster.feed, Feed.start, EventBroadcaster.subscribe, Subscriber.due,
        EventBroadcaster.subscribeInstance, EventBroadcaster.receiver, EventBroadcaster.hasChannel,
        EventBroadcaster.sent]
  · refine ⟨_, rfl, rfl, le_refl _, ?_⟩
    simp [EventBroadcaster.feed, Feed.start, EventBroadcaster.subscribe, Subscriber.due,
      EventBroadcaster.subscribeAll, EventBroadcaster.receiver]

theorem Feed.Follows.subscribe (h : feed.Follows (some b) es) (id : String)
    (kind : SubscriptionType) : feed.Follows (some (b.subscribe id kind).1) es := by
  obtain ⟨_, ⟨⟩, hch, hnext, hdue⟩ := h
  refine ⟨_, rfl, b.hasChannel_subscribe id kind hch, ?_, ?_⟩
  · rwa [b.sent_subscribe]
  · rwa [Subscriber.due, b.sent_subscribe]

theorem Feed.Follows.notify (h : feed.Follows o es) (e : InstanceEvent) :
    feed.Follows (o.map (·.notify e)) (es ++ feed.sub.receiver.channel.carried [e]) := by
  obtain ⟨b, rfl, hch, hnext, hdue⟩ := h
  refine ⟨_, rfl, b.hasChannel_notify e hch, ?_, ?_⟩
  · rw [b.sent_notify e hch, List.length_append]
    omega
  · rw [Subscriber.due, b.sent_notify e hch, List.drop_append_of_le_length hnext,
      ← List.append_assoc]
    exact congrArg (· ++ _) hdue

/-- The receiver takes the next event of its channel, or the task or the connection
passes on one that was taken. -/
theorem Feed.next_cases (h : feed.next b = some feed') :
    feed'.sub = feed.sub ∨ feed.sub.recv b = some feed'.sub := by
  unfold Feed.next at h
  split at h
  · split at h <;> cases h
    exact .inl rfl
  · split at h <;> cases h
    · rename_i hr
      simp [Subscriber.recv, hr]
    · rename_i hr
      simp [Subscriber.recv, hr]

theorem Feed.sub_write (h : feed.write = some feed') : feed'.sub = feed.sub := by
  unfold Feed.write at h
  split at h <;> cases h
  rfl

theorem Subscriber.recv_cases {sub sub' : Subscriber} (h : sub.recv b = some sub') :
    (∃ next, sub' = { sub with receiver := { sub.receiver with next }, lagged := true }) ∨
      ∃ e, (b.sent sub.receiver.channel)[sub.receiver.next]? = some e ∧
        sub' = { sub with
          receiver := { sub.receiver with next := sub.receiver.next + 1 }
          received := sub.received ++ [e] } := by
  unfold recv EventBroadcaster.recv at h
  dsimp only at h
  by_cases hold : sub.receiver.next < (b.sent sub.receiver.channel).length - b.channelCapacity
  · rw [if_pos hold] at h
    cases h
    exact .inl ⟨_, rfl⟩
  · rw [if_neg hold] at h
    cases hget : (b.sent sub.receiver.channel)[sub.receiver.next]? with
    | none => simp [hget] at h
    | some e =>
      simp only [hget] at h
      cases h
      exact .inr ⟨e, rfl, rfl⟩

/-- The same subscription, some steps of its task or of its connection later. -/
structure Feed.Advanced (feed feed' : Feed) : Prop where
  channel : feed'.sub.receiver.channel = feed.sub.receiver.channel
  filter : feed'.sub.filter = feed.sub.filter
  lagged : feed'.sub.lagged = false → feed.sub.lagged = false

theorem Feed.advanced_of_sub (h : feed'.sub = feed.sub) : feed.Advanced feed' :=
  ⟨by rw [h], by rw [h], fun hlag => h ▸ hlag⟩

theorem Feed.advanced_of_next (h : feed.next b = some feed') : feed.Advanced feed' := by
  obtain hsub | hr := Feed.next_cases h
  · exact Feed.advanced_of_sub hsub
  · obtain ⟨next, hsub⟩ | ⟨e, -, hsub⟩ := Subscriber.recv_cases hr <;>
      exact ⟨by rw [hsub], by rw [hsub], by simp [hsub]⟩

theorem Feed.Follows.fed (h : feed.Follows o es) (hb : o = some b) (hn : feed.next b = some feed')
    (hlag : feed'.sub.lagged = false) : feed'.Follows o es := by
  subst hb
  obtain ⟨_, ⟨⟩, hch, hnext, hdue⟩ := h
  obtain hsub | hr := Feed.next_cases hn
  · exact ⟨b, rfl, hsub ▸ hch, hsub ▸ hnext, hsub ▸ hdue⟩
  · obtain ⟨next, hsub⟩ | ⟨e, hget, hsub⟩ := Subscriber.recv_cases hr
    · simp [hsub] at hlag
    · obtain ⟨hlt, he⟩ := List.getElem?_eq_some_iff.mp hget
      refine ⟨b, rfl, ?_, ?_, ?_⟩
      · rw [hsub]
        exact hch
      · rw [hsub]
        exact hlt
      · rw [hsub, ← hdue, Subscriber.due, Subscriber.due, List.append_assoc, List.singleton_append,
          ← he, List.getElem_cons_drop]

theorem Feed.Follows.of_sub (h : feed.Follows o es) (hsub : feed'.sub = feed.sub) :
    feed'.Follows o es := by
  unfold Feed.Follows
  rw [hsub]
  exact h

/-- When nothing is on the way any more, what the filter lets through has been written. -/
theorem Feed.Follows.written (h : feed.Follows (some b) es) (hrest : feed.rests b = true) :
    feed.written = es.filter fun e => feed.sub.filter.all (·.accepts e) := by
  obtain ⟨_, ⟨⟩, -, -, hdue⟩ := h
  simp only [rests, Bool.and_eq_true, Option.isNone_iff_eq_none, List.isEmpty_iff,
    decide_eq_true_eq] at hrest
  obtain ⟨⟨hw, hq⟩, hend⟩ := hrest
  have hpasses := feed.passes
  rw [hw, hq, Subscriber.forwarded] at hpasses
  rw [← hdue, Subscriber.due, List.drop_eq_nil_of_le hend, List.append_nil, hpasses]
  simp

end

/-! ## Requests together -/

def Engine.machineOf (e : Engine) (id : String) : Option (String × UInt32) :=
  (e.instances[id]?).map fun i => (i.machine, i.version)

/-- The event is the one in the entry, with the machine of its instance. -/
def InstanceEvent.Tells (machine : String → Option (String × UInt32)) (e : InstanceEvent)
    (q : ReadEntry) : Prop :=
  appliedIn q = some e.applied ∧ machine e.instanceId = some (e.machine, e.version)

/-- The instance that the request has read has this machine. -/
def RequestTask.Read {L : LogSteps} (machine : String → Option (String × UInt32)) :
    RequestTask L → Prop
  | .applying p i _ => machine p.instanceId = some (i.machine, i.version)
  | _ => True

/-- What holds along every run: the locks are kept and no instance changes its machine. -/
structure Serving {L : LogSteps} (machine : String → Option (String × UInt32)) (s : ServerThreads)
    (ts : List (RequestTask L)) : Prop where
  locked : Locked s.engine (ts.filterMap RequestTask.thread)
  machines : ∀ id, s.shared.engine.machineOf id = machine id
  read : ∀ t ∈ ts, t.Read machine

/-- What a move does to the log, to the events that are owed and to the subscriptions
that are there. -/
inductive RequestTask.Effect {L : LogSteps} (machine : String → Option (String × UInt32))
    (s s' : ServerThreads) (t t' : RequestTask L) : Prop
  | quiet (appended : s'.appended = s.appended) (owed : t'.owed = t.owed)
      (kept : ∀ feed es, Feed.Follows feed s.shared.broadcaster es →
        feed.Follows s'.shared.broadcaster es)
  | replayed {p : ApplyEventParams} {i : Instance} {a : ApplyResult}
      (before : t = .applying p i .started) (same : s' = s)
      (after : t' = .applying p i (.done (.ok (.applied a))))
      (cached : s.shared.engine.cachedResult p.instanceId p.idempotencyKey = some a)
  | logged {e : InstanceEvent} {q : ReadEntry} (before : t.owed = none) (after : t'.owed = some e)
      (appended : s'.appended = s.appended ++ [q]) (tells : e.Tells machine q)
      (same : s'.shared.broadcaster = s.shared.broadcaster)
  | told {p : ApplyEventParams} {i : Instance} {a : ApplyResult} (flag : a.applied = true)
      (before : t = .applying p i (.done (.ok (.applied a)))) (after : t' = .notified p a)
      (same : s' = s.notify (notification i p a))

section
variable {X : ServerExternals} {L : LogSteps} {s s' : ServerThreads} {t t' : RequestTask L}
  {ts xs ys : List (RequestTask L)} {machine : String → Option (String × UInt32)}

theorem Locked.perm {s : ThreadedEngine} {ts ts' : List (EngineThread L)} (h : Locked s ts)
    (hp : ts.Perm ts') : Locked s ts' :=
  ⟨(hp.filterMap _).nodup_iff.mp h.distinct, fun t ht => h.held t (hp.mem_iff.mpr ht),
    fun t ht => h.own t (hp.mem_iff.mpr ht)⟩

variable {u : EngineThread L} {i : Instance} {p : ApplyEventParams}

/-- What a request with a call in the engine has found is there. -/
theorem Serving.own (h : Serving machine s ts) (ht : t ∈ ts) (hu : t.thread = some u) :
    ∀ p ∈ u.pending, p.call = u.call ∧
      ∀ q ∈ p.found, s.shared.engine.instances[q.1]? = some q.2 :=
  h.locked.own u (List.mem_filterMap.mpr ⟨t, ht, hu⟩)

theorem machineOf_insert {e e' : Engine} {id : String} {i' : Instance}
    (present : e.instances[id]? = some i) (hins : e'.instances = e.instances.insert id i')
    (hsame : (i'.machine, i'.version) = (i.machine, i.version)) (id' : String) :
    e'.machineOf id' = e.machineOf id' := by
  unfold Engine.machineOf
  rw [hins]
  by_cases hid : id' = id
  · subst hid
    rw [present, Std.ExtTreeMap.getElem?_insert_self, Option.map_some, Option.map_some, hsame]
  · rw [Table.getElem?_insert_ne hid]

theorem EventEffect.machineOf {σ : Type} {r : EventRequest} {s s' : ThreadedEngine}
    {pc pc' : CallPc σ} (h : EventEffect r s s' pc pc') (id : String) :
    s'.engine.machineOf id = s.engine.machineOf id := by
  cases h with
  | quiet _ instances
  | logged _ _ _ instances => rw [Engine.machineOf, instances, Engine.machineOf]
  | replayed _ same => rw [same]
  | stored _ present _ instances => exact machineOf_insert present instances rfl id

theorem owed_done {a : ApplyResult} (flag : a.applied = true) :
    (RequestTask.applying p i (.done (.ok (.applied a))) : RequestTask L).owed =
      some (notification i p a) := by
  simp [RequestTask.owed, CallPc.applied, flag]

theorem tells_logged {j : Instance} {toState : String} {seq : UInt64} {off : WalOffset}
    (hread : machine p.instanceId = some (i.machine, i.version)) :
    ∃ e, (RequestTask.applying p i (.logged (.applyEvent p.request j toState) seq off) :
        RequestTask L).owed = some e ∧
      e.Tells machine (seq, off, (Pending.applyEvent p.request j toState).entry) :=
  ⟨_, rfl, rfl, hread⟩

theorem Serving.effect_stepped {pc pc' : CallPc L.State} {e : ThreadedEngine}
    (h : Serving machine s ts) (ht : .applying p i pc ∈ ts)
    (hn : (EngineCall.applyEvent p.request).next X.toCoreExternals L s.engine pc = some (e, pc')) :
    RequestTask.Effect machine s (s.setEngine e) (.applying p i pc) (.applying p i pc') := by
  cases eventEffect_of_next hn (h.own ht rfl) with
  | quiet appended _ result
  | stored _ _ appended _ result =>
    exact .quiet appended (by simp [RequestTask.owed, result]) fun _ _ hf => hf
  | replayed before same after cached =>
    subst before same after
    exact .replayed rfl rfl rfl cached
  | logged before present appended _ after =>
    subst before after
    obtain ⟨ev, howed, htells⟩ := tells_logged (L := L) (h.read _ ht)
    exact .logged rfl howed appended htells rfl

theorem Serving.effect (h : Serving machine s ts) (ht : t ∈ ts) (hm : t.Moved X L s s' t') :
    RequestTask.Effect machine s s' t t' := by
  cases hm with
  | refused early =>
    refine .quiet rfl ?_ fun _ _ hf => hf
    cases t with
    | applying | notified => cases early
    | _ => rfl
  | found | sighted | headRead | fed | wrote => exact .quiet rfl rfl fun _ _ hf => hf
  | stepped hn => exact h.effect_stepped ht hn
  | told flag => exact .told flag rfl rfl rfl
  | joined hb | joinedAll hb =>
    refine .quiet rfl rfl fun feed es hf => ?_
    rw [hb] at hf
    exact hf.subscribe _ _

theorem thread_middle (xs ys : List (RequestTask L)) (hu : t.thread = some u) :
    (xs ++ t :: ys).filterMap RequestTask.thread =
      xs.filterMap RequestTask.thread ++ u :: ys.filterMap RequestTask.thread := by
  rw [filterMap_middle, hu]
  rfl

theorem thread_same (xs ys : List (RequestTask L)) (hu : t'.thread = t.thread) :
    (xs ++ t' :: ys).filterMap RequestTask.thread =
      (xs ++ t :: ys).filterMap RequestTask.thread := by
  rw [filterMap_middle, filterMap_middle, hu]

theorem thread_begun (xs ys : List (RequestTask L)) (ht : t.thread = none)
    (hu : t'.thread = some u) : ((xs ++ t :: ys).filterMap RequestTask.thread ++ [u]).Perm
      ((xs ++ t' :: ys).filterMap RequestTask.thread) := by
  rw [filterMap_middle, filterMap_middle, ht, hu]
  simp only [Option.toList_none, List.nil_append, Option.toList_some, List.singleton_append,
    List.append_assoc]
  exact List.Perm.append_left _ List.perm_append_comm

theorem Serving.spawned (h : Serving machine s ts) (start : RequestStart) :
    Serving machine s (ts ++ [start.task L]) := by
  refine ⟨?_, h.machines, ?_⟩
  · have hnone : (start.task L).thread = none := by cases start <;> rfl
    rw [filterMap_spawned hnone]
    exact h.locked
  · exact forall_spawned h.read (by cases start <;> trivial)

theorem Serving.moved (h : Serving machine s (xs ++ t :: ys)) (hm : t.Moved X L s s' t') :
    Serving machine s' (xs ++ t' :: ys) := by
  -- A move that neither begins nor continues a call, nor changes an instance.
  have idle (hthread : t'.thread = t.thread) (hread : t'.Read machine)
      (hlocked : s'.engine = s.engine) : Serving machine s' (xs ++ t' :: ys) := by
    refine ⟨?_, ?_, forall_replace h.read hread⟩
    · rw [thread_same xs ys hthread, hlocked]
      exact h.locked
    · have hengine : s'.shared.engine = s.shared.engine := congrArg ThreadedEngine.engine hlocked
      rw [hengine]
      exact h.machines
  cases hm with
  | refused early => exact idle early.symm trivial rfl
  | @found params p i present free =>
    refine ⟨?_, h.machines, forall_replace h.read ?_⟩
    · exact (h.locked.spawned (.applyEvent p.request)).perm (thread_begun xs ys rfl rfl)
    · rw [RequestTask.Read, ← h.machines, Engine.machineOf, present, Option.map_some]
  | @stepped p i pc pc' e hn =>
    have hlocked := h.locked
    rw [thread_middle xs ys rfl] at hlocked
    refine ⟨?_, fun id => ?_, forall_replace h.read (h.read (.applying p i pc) (by simp))⟩
    · rw [thread_middle xs ys rfl]
      exact hlocked.stepped (stepped_of_next hn)
    · rw [← h.machines id]
      exact (eventEffect_of_next hn (h.own (t := .applying p i pc) (by simp) rfl)).machineOf id
  | told | sighted | joined | joinedAll | headRead | fed | wrote => exact idle rfl trivial rfl

theorem Serving.start (s : Shared) (L : LogSteps) :
    Serving (L := L) s.engine.machineOf ⟨s, [], []⟩ [] :=
  ⟨.start, fun _ => rfl, by simp⟩

end

end Rstmdb

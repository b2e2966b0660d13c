import Rstmdb.Server.Compaction

/-! What the watchers are told. An event that is applied is sent once its record is
in the log; an answer from the idempotency cache is sent again, without a record. -/
namespace Rstmdb
open Json (Value)

/-- An applied event, as its record and its watchers both have it. -/
structure AppliedEvent where
  instanceId : String
  event : String
  fromState : String
  toState : String
  payload : Value
  ctx : Value
  walOffset : Nat

def InstanceEvent.applied (e : InstanceEvent) : AppliedEvent :=
  ⟨e.instanceId, e.event, e.fromState, e.toState, e.payload, e.ctx, e.walOffset⟩

/-- The event in an entry of the log, if it is one. -/
def appliedIn : ReadEntry → Option AppliedEvent
  | (_, offset, .applyEvent id event fromState toState payload ctx _ _) =>
    some ⟨id, event, fromState, toState, payload, ctx, offset.asU64⟩
  | _ => none

/-- The entries that a log has beyond those it had before. -/
def Wal.gained (X : Externals) (before after : Wal) : List ReadEntry :=
  (after.readable X).drop (before.readable X).length

/-- The entries gained from each log to the next. -/
def gainedAlong (X : Externals) : List Wal → List ReadEntry
  | w :: w' :: ws => w.gained X w' ++ gainedAlong X (w' :: ws)
  | _ => []

/-- The events appended by the calls, the last of which left this state. -/
def appendedAlong (X : Externals) (l : List Call) (s : Shared) : List AppliedEvent :=
  (gainedAlong X (l.map (·.shared.engine.wal) ++ [s.engine.wal])).filterMap appliedIn

/-- The call is let in and gets from the idempotency cache the result of an event
that was applied. -/
def Call.answeredFromCache (c : CommandHandler) (k : Call) : Bool :=
  !(c.requiresAuth k.request.op && !k.session.authenticated) && k.request.op = .applyEvent &&
    match ApplyEventParams.fromValue k.request.params with
    | none => false
    | some p => k.shared.engine.instances.contains p.instanceId &&
        (k.shared.engine.cachedResult p.instanceId p.idempotencyKey).any ApplyResult.applied

/-! ## Entries gained -/

section
variable {X : Externals} {w w' : Wal}

theorem gainedAlong_snoc (ws : List Wal) (w w' : Wal) :
    gainedAlong X (ws ++ [w] ++ [w']) = gainedAlong X (ws ++ [w]) ++ w.gained X w' := by
  induction ws with
  | nil => simp [gainedAlong]
  | cons u ws ih =>
    cases ws with
    | nil => simp [gainedAlong]
    | cons v vs =>
      simp only [List.cons_append, gainedAlong, List.append_assoc] at ih ⊢
      rw [ih]

theorem appendedAlong_snoc (l : List Call) (k : Call) (s : Shared) :
    appendedAlong X (l ++ [k]) s =
      appendedAlong X l k.shared ++
        (k.shared.engine.wal.gained X s.engine.wal).filterMap appliedIn := by
  simp only [appendedAlong, List.map_append, List.map_cons, List.map_nil, gainedAlong_snoc,
    List.filterMap_append]

theorem gained_eq_nil (h : (w'.readable X).length ≤ (w.readable X).length) :
    w.gained X w' = [] :=
  List.drop_eq_nil_of_le h

theorem gained_of_append {es : List ReadEntry} (h : w'.readable X = w.readable X ++ es) :
    w.gained X w' = es := by
  rw [Wal.gained, h, List.drop_left]

end

theorem appliedIn_of_entryType {p : ReadEntry} (h : p.2.2.entryType ≠ .applyEvent) :
    appliedIn p = none := by
  obtain ⟨seq, off, entry⟩ := p
  cases entry <;> first | rfl | exact absurd rfl h

namespace Engine.Sound

variable {X : CoreExternals} {s s' : Engine} {pre : List (Chunk X.toExternals)}
  {c : Chunk X.toExternals}

theorem gained_refused (h : s.Sound pre c) {entry : WalEntry} {wal : Wal} {e : WalError}
    (failed : s.wal.append X.toExternals entry = some (wal, .error e)) :
    s.wal.gained X.toExternals wal = [] := by
  obtain ⟨pre', c', hr, -, he⟩ := h.repr.append_clean h.clean failed
  apply gained_of_append
  rw [h.repr.readable, hr.readable, List.append_nil]
  exact he

theorem gained_appended (h : s.Sound pre c) {entry : WalEntry} {wal : Wal} {seq : UInt64}
    {off : WalOffset}
    (appended : s.wal.append X.toExternals entry = some (wal, .ok (seq, off))) :
    s.wal.gained X.toExternals wal = [(seq, off, entry)] := by
  obtain ⟨pre', c', hr, -, he⟩ := h.repr.append_clean h.clean appended
  apply gained_of_append
  rw [h.repr.readable, hr.readable]
  exact he

/-- An operation other than an event adds no event to the log. -/
theorem gained_touched (h : s.Sound pre c) {op : Operation} (ht : EngineTouched X s op s')
    (hop : op ≠ .applyEvent) (hc : op ≠ .compact) :
    (s.wal.gained X.toExternals s'.wal).filterMap appliedIn = [] := by
  cases ht with
  | called hl =>
    cases hl with
    | kept => rw [gained_eq_nil (le_refl _), List.filterMap_nil]
    | refused failed => rw [h.gained_refused failed, List.filterMap_nil]
    | @logged entry wal seq off m appended changes meets =>
      have hne : entry.entryType ≠ .applyEvent := by
        intro he
        exact hop (Operation.eq_applyEvent (meets.trans (congrArg some he)))
      have hnone := appliedIn_of_entryType (p := (seq, off, entry)) hne
      rw [h.gained_appended appended, List.filterMap_cons, hnone, List.filterMap_nil]
  | readLog stats =>
    rw [gained_eq_nil, List.filterMap_nil]
    rw [h.repr.readable]
    exact le_of_eq (congrArg _ (h.readLog stats).repr.readable)
  | compacted _ hcompact => exact absurd hcompact hc

end Engine.Sound

/-! ## One call -/

theorem Engine.applyEvent_ok {X : CoreExternals} {s s' : Engine} {r : EventRequest}
    {a : ApplyResult} (h : s.applyEvent X r = some (s', .ok a)) :
    (s.cachedResult r.instanceId r.idempotencyKey = some a ∧ s' = s) ∨
      s.cachedResult r.instanceId r.idempotencyKey = none ∧
        ∃ s₁, s.applyLocked X r = some (s₁, .ok a) ∧ s'.wal = s₁.wal ∧
          s'.toMemory = s₁.toMemory := by
  unfold Engine.applyEvent at h
  split at h
  · rename_i hc
    cases h
    exact .inl ⟨hc, rfl⟩
  rename_i hc
  split at h
  · cases h
  · cases h
  rename_i s₁ a' ha
  cases h
  refine .inr ⟨hc, s₁, ha, ?_⟩
  unfold Engine.cacheResult
  split <;> exact ⟨rfl, rfl⟩

/-- What a call did to the log and to the global channel: an event was sent without a
record, or the events sent are those appended. -/
inductive Reported (X : Externals) (before after : Shared) (sent : List InstanceEvent) :
    Bool → Prop
  | again (one : sent.length = 1)
      (none : (before.engine.wal.gained X after.engine.wal).filterMap appliedIn = []) :
      Reported X before after sent true
  | same (eq : sent.map InstanceEvent.applied =
      (before.engine.wal.gained X after.engine.wal).filterMap appliedIn) :
      Reported X before after sent false

section
variable {X : ServerExternals} {c : CommandHandler} {s s' : Shared} {b : EventBroadcaster}
  {compaction : SnapshotStore} {pre : List (Chunk X.toExternals)} {ch : Chunk X.toExternals}

/-- Nothing is sent, and the log gains nothing. -/
theorem Reported.quiet (h : s.engine.wal.gained X.toExternals s'.engine.wal = []) :
    Reported X.toExternals s s' [] false :=
  .same (by rw [h]; rfl)

variable {ses : Session} {request : Request} {answer : Answered}

theorem handleApplyEvent_reported (h : s.engine.Sound (X := X.toCoreExternals) pre ch)
    (hb : s.broadcaster = some b) (hr : (c.requiresAuth request.op && !ses.authenticated) = false)
    (hop : request.op = .applyEvent)
    (ha : handleApplyEvent X s request.params = some (s', answer)) :
    ∃ b' sent, s'.broadcaster = some b' ∧ b'.globalSender = b.globalSender ++ sent ∧
      Reported X.toExternals s s' sent ((⟨s, ses, request⟩ : Call).answeredFromCache c) := by
  have hself : s.engine.wal.gained X.toExternals s.engine.wal = [] := gained_eq_nil (le_refl _)
  rw [hop] at hr
  simp only [Call.answeredFromCache, hop, hr, Bool.not_false, decide_true, Bool.true_and]
  unfold handleApplyEvent at ha
  cases hp : ApplyEventParams.fromValue request.params with
  | none =>
    rw [hp] at ha
    cases ha
    exact ⟨b, [], hb, by simp, .quiet hself⟩
  | some p =>
    rw [hp] at ha
    dsimp only at ha ⊢
    split at ha
    · rename_i e hi
      cases ha
      have habsent : s.engine.instances.contains p.instanceId = false := by
        unfold Engine.getInstance at hi
        split at hi <;> cases hi
        rename_i hi
        exact Table.contains_eq_false hi
      rw [habsent]
      exact ⟨b, [], hb, by simp, .quiet hself⟩
    · rename_i i hi
      have hpresent : s.engine.instances.contains p.instanceId = true := by
        rw [Std.ExtTreeMap.contains_eq_isSome_getElem?, Engine.getInstance_ok hi]
        rfl
      rw [hpresent, Bool.true_and]
      split at ha
      · cases ha
      · rename_i engine e he
        cases ha
        obtain ⟨_, -, -, hok⟩ | ⟨hc, s₁, happlied, ⟨-, -, rfl⟩ | ⟨_, hok, -⟩⟩ :=
          Engine.applyEvent_cases he
        · cases hok
        · rw [show s.engine.cachedResult p.instanceId p.idempotencyKey = none from hc]
          refine ⟨b, [], hb, by simp, .quiet ?_⟩
          cases happlied with
          | rejected => exact hself
          | refused failed => exact h.gained_refused failed
        · cases hok
      · rename_i engine a he
        cases ha
        obtain ⟨hc, rfl⟩ | ⟨hc, s₁, hlocked, hwal, -⟩ := Engine.applyEvent_ok he
        · -- The result is an old one: nothing is appended.
          rw [show s.engine.cachedResult p.instanceId p.idempotencyKey = some a from hc,
            Option.any_some]
          cases hflag : a.applied with
          | true =>
            refine ⟨b.notify (notification i p a), [notification i p a], ?_, rfl, .again rfl ?_⟩
            · simp [hb]
            · rw [hself]
              rfl
          | false => exact ⟨b, [], by simp [hb], by simp, .quiet hself⟩
        · rw [show s.engine.cachedResult p.instanceId p.idempotencyKey = none from hc]
          obtain ⟨i', toState, wal, seq, off, -, -, appended, rfl, rfl⟩ :=
            Engine.applyLocked_ok hlocked
          refine ⟨_, [_], by simp only [hb, if_true, Option.map_some]; rfl, rfl, .same ?_⟩
          rw [show engine.wal = wal from hwal, h.gained_appended appended]
          rfl

theorem Shared.Sound.gained_compact (h : s.Sound X compaction pre ch) (params : Value) :
    s.engine.wal.gained X.toExternals (handleCompact X s params).1.engine.wal = [] := by
  apply gained_eq_nil
  rw [h.engine.repr.readable, (h.compactCommand params).engine.repr.readable]
  exact ((List.filter_sublist.append_right _).flatMap _).length_le

theorem Shared.Sound.reported (h : s.Sound X compaction pre ch) (hb : s.broadcaster = some b)
    {ses' : Session} (hr : (c.requiresAuth request.op && !ses.authenticated) = false)
    (he : Rstmdb.execute X c s ses.recordRequest request.op request.params =
      some (s', ses', answer)) :
    ∃ b' sent, s'.broadcaster = some b' ∧ b'.globalSender = b.globalSender ++ sent ∧
      Reported X.toExternals s s' sent ((⟨s, ses, request⟩ : Call).answeredFromCache c) := by
  by_cases hop : request.op = .applyEvent
  · rw [hop] at he
    obtain ⟨⟨_, _⟩, hp, hout⟩ := Option.map_eq_some_iff.mp he
    cases hout
    exact handleApplyEvent_reported h.engine hb hr hop hp
  · have hkept := (execute_frame he).2 hop
    rw [Shared.sentToAll, Shared.sentToAll, hb] at hkept
    obtain ⟨b', hb', hsent⟩ := Option.map_eq_some_iff.mp hkept
    refine ⟨b', [], hb', by rw [hsent, List.append_nil], ?_⟩
    have hfresh : (⟨s, ses, request⟩ : Call).answeredFromCache c = false := by
      simp [Call.answeredFromCache, hop]
    rw [hfresh]
    by_cases hcompact : request.op = .compact
    · rw [hcompact] at he
      cases he
      exact .quiet (h.gained_compact request.params)
    · exact .same (h.engine.gained_touched (execute_engine he) hop hcompact).symm

/-! ## Runs of requests -/

/-- Along the calls so far: each answer from the cache was sent without a record, and
without such answers the events sent are those appended. -/
structure Told (X : Externals) (c : CommandHandler) (b₀ : EventBroadcaster) (l : List Call)
    (s : Shared) (b : EventBroadcaster) (sent : List InstanceEvent) : Prop where
  broadcaster : s.broadcaster = some b
  sender : b.globalSender = b₀.globalSender ++ sent
  count : sent.length = (appendedAlong X l s).length + l.countP (·.answeredFromCache c)
  same : (∀ k ∈ l, k.answeredFromCache c = false) →
    sent.map InstanceEvent.applied = appendedAlong X l s

theorem Told.snoc {b₀ b' : EventBroadcaster} {l : List Call} {sent more : List InstanceEvent}
    (h : Told X.toExternals c b₀ l s b sent) (hb : s'.broadcaster = some b')
    (hs : b'.globalSender = b.globalSender ++ more)
    (hr : Reported X.toExternals s s' more ((⟨s, ses, request⟩ : Call).answeredFromCache c)) :
    Told X.toExternals c b₀ (l ++ [⟨s, ses, request⟩]) s' b' (sent ++ more) := by
  have happ := appendedAlong_snoc (X := X.toExternals) l ⟨s, ses, request⟩ s'
  refine ⟨hb, by rw [hs, h.sender, List.append_assoc], ?_, ?_⟩
  · rw [List.length_append, h.count, happ, List.length_append, List.countP_append,
      List.countP_singleton]
    generalize hflag : (⟨s, ses, request⟩ : Call).answeredFromCache c = flag at hr ⊢
    cases hr with
    | again one none =>
      rw [none, one]
      simp only [List.length_nil, if_true]
      omega
    | same eq =>
      rw [← eq]
      simp only [List.length_map, Bool.false_eq_true, if_false]
      omega
  · intro hall
    have hlast := hall ⟨s, ses, request⟩ (by simp)
    rw [hlast] at hr
    cases hr with
    | same eq =>
      rw [List.map_append, h.same fun k hk => hall k (List.mem_append_left _ hk), happ, eq]

/-- From every server that requests, compactions and restarts can lead to, on every
sequence of requests: the events sent on the global channel are the events appended
to the log, one for one and in order, exactly when no request is answered from the
idempotency cache. -/
theorem told_once_iff {config : ServerConfig} {server₀ server : Server} {ops : List ServerOp}
    (hstart : Server.start X config ∅ .empty 0 = some (.ok server₀))
    (hops : run (Server.step X) server₀ ops = some server)
    (hb : server.shared.broadcaster = some b) {ps : List (Session × Request)}
    (hrun : run (serve X server.handler) server.shared ps = some s') :
    ∃ b' sent, s'.broadcaster = some b' ∧ b'.globalSender = b.globalSender ++ sent ∧
      (sent.map InstanceEvent.applied =
          appendedAlong X.toExternals (servedCalls X server.handler server.shared ps) s' ↔
        ∀ k ∈ servedCalls X server.handler server.shared ps,
          k.answeredFromCache server.handler = false) := by
  have hsound := Server.sound_of_start hstart hops
  have start : Told X.toExternals server.handler b [] server.shared b [] :=
    ⟨hb, by simp, rfl, fun _ => rfl⟩
  obtain ⟨-, b', sent, h⟩ := served_keep
    (P := fun l s => (∃ pre ch, s.Sound X server.compaction pre ch) ∧
      ∃ b' sent, Told X.toExternals server.handler b l s b' sent)
    (fun l s ses request ⟨hs, b', sent, ht⟩ hentered => by
      refine ⟨hs, b', sent ++ [], ht.snoc ht.broadcaster (by simp) ?_⟩
      have hfresh : (⟨s, ses, request⟩ : Call).answeredFromCache server.handler = false := by
        obtain hr | hop := hentered <;> simp [Call.answeredFromCache, *]
      rw [hfresh]
      exact .quiet (gained_eq_nil (le_refl _)))
    (fun l s ses request s' ses' answer ⟨⟨pre, ch, hs⟩, b', sent, ht⟩ hr he => by
      obtain ⟨pre', ch', hs', -⟩ := hs.execute he
      obtain ⟨b'', more, hb'', hmore, hrep⟩ := hs.reported ht.broadcaster hr he
      exact ⟨⟨pre', ch', hs'⟩, b'', sent ++ more, ht.snoc hb'' hmore hrep⟩)
    ⟨hsound, b, [], start⟩ hrun
  rw [List.nil_append] at h
  refine ⟨b', sent, h.broadcaster, h.sender, fun heq => ?_, h.same⟩
  have hlen := congrArg List.length heq
  rw [List.length_map, h.count] at hlen
  have hnone : (servedCalls X server.handler server.shared ps).countP
      (·.answeredFromCache server.handler) = 0 := by omega
  intro k hk
  exact Bool.eq_false_iff.mpr (List.countP_eq_zero.mp hnone k hk)

end

/-- An event on `i` under an idempotency key. -/
def applyKeyed (key : String) : Request :=
  ⟨"4", .applyEvent, .object [("event", .string "e"), ("idempotency_key", .string key),
    ("instance_id", .string "i"), ("payload", .null)]⟩

/-- The server's outside functions over those of the engine. -/
noncomputable def serdeServerOf (core : CoreExternals) : ServerExternals :=
  { serdeServer with toStorageExternals := { serdeStorage with toCoreExternals := core } }

def keyedEntries : List WalEntry :=
  [.putMachine "m" 1 "6c3fccfb" Engine.loopMachine, .createInstance "i" "m" 1 "a" .null none,
    .applyEvent "i" "e" "a" "a" .null .null none (some "k")]

/-- Events under two keys and one without, and one that fails. -/
def keysOnce : List (Session × Request) :=
  anonymous [putLoop, createLoop "i" [], applyKeyed "k", applyLoop "j" .null, applyKeyed "l",
    applyLoop "i" .null]

/-- An event and its retry. -/
def keyTwice : List (Session × Request) :=
  anonymous [putLoop, createLoop "i" [], applyKeyed "k", applyKeyed "k"]

set_option maxRecDepth 4000 in
theorem told_once_keys_once :
    ∃ s, run (serve serdeServer (Server.fresh (openConfig 1000)).handler)
        (Server.fresh (openConfig 1000)).shared keysOnce = some s ∧
      ∃ b, s.broadcaster = some b ∧ b.globalSender.length = 3 ∧
        b.globalSender.map InstanceEvent.applied = appendedAlong serdeServer.toExternals
          (servedCalls serdeServer (Server.fresh (openConfig 1000)).handler
            (Server.fresh (openConfig 1000)).shared keysOnce) s := by
  refine run_exists (p := fun s =>
    (∀ k ∈ servedCalls serdeServer (Server.fresh (openConfig 1000)).handler
        (Server.fresh (openConfig 1000)).shared keysOnce,
      k.answeredFromCache (Server.fresh (openConfig 1000)).handler = false) ∧
      s.sentToAll.any (fun sent => decide (sent.length = 3)) = true) (by decide +kernel) ?_
  rintro s hrun ⟨hfresh, hthree⟩
  obtain ⟨b, sent, hb, hs, hiff⟩ := told_once_iff (Server.start_empty rfl)
    (show run (Server.step serdeServer) _ [] = _ from rfl) rfl hrun
  obtain rfl : b.globalSender = sent := hs
  rw [Shared.sentToAll, hb] at hthree
  exact ⟨b, hb, of_decide_eq_true hthree, hiff.mpr hfresh⟩

set_option maxRecDepth 4000 in
/-- The retry is sent to the watchers once more, and the log has one record of the
event. -/
theorem retry_told_again :
    ∃ s, run (serve (serdeServerOf serdeCore) (Server.fresh (openConfig 1000)).handler)
        (Server.fresh (openConfig 1000)).shared keyTwice = some s ∧
      s.sentToAll.map List.length = some 2 ∧
      (appendedAlong serdeCore.toExternals (servedCalls (serdeServerOf serdeCore)
        (Server.fresh (openConfig 1000)).handler (Server.fresh (openConfig 1000)).shared
        keyTwice) s).length = 1 := by
  rw [← serdeCoreReading_eq keyedEntries]
  exact run_exists (by decide +kernel) fun _ _ h => h

end Rstmdb

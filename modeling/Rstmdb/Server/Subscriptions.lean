import Rstmdb.Server.Batch
import Rstmdb.Server.Connection

/-! The subscriptions of the sessions and the registry that all of them share. An
operation changes both in the same way, but `UNWATCH` takes any id, also one of
another session, and a connection that ends with an error leaves its entries behind. -/
namespace Rstmdb
open Json (Value)

/-- The subscriptions that the broadcaster knows. -/
def Shared.registry (s : Shared) : Table String SubscriptionType :=
  match s.broadcaster with
  | none => ∅
  | some b => b.subscriptions

/-! ## The requests in a request -/

def requestsWithin : Nat → Request → List Request
  | 0, _ => []
  | depth + 1, request =>
    request ::
      if request.op = .batch then
        (((request.params.index "ops").asArray).getD []).flatMap fun op =>
          match batchRequest op with
          | none => []
          | some inner => requestsWithin depth inner
      else []

/-- A request and those in its batches, however deep. -/
def nested (request : Request) : List Request :=
  requestsWithin (request.params.depth + 1) request

section
variable {X : ServerExternals} {c : CommandHandler} {s s' : Shared} {ses ses' : Session}
  {request : Request}

theorem batchCalls_requests {calls : Shared → Session → Request → List Call} {mode : String}
    {ops : List Value} {good : Request → Prop}
    (h : ∀ op ∈ ops, ∀ inner, batchRequest op = some inner →
      ∀ s ses, ∀ k ∈ calls s ses inner, good k.request)
    (s : Shared) (ses : Session) : ∀ k ∈ batchCalls X c calls mode ops s ses, good k.request := by
  induction ops generalizing s ses with
  | nil => simp [batchCalls]
  | cons op ops ih =>
    have hrest := ih fun op' hop => h op' (List.mem_cons_of_mem op hop)
    have hfirst := h op List.mem_cons_self
    simp only [batchCalls]
    cases htype : (op.index "op").asStr with
    | none => simp
    | some opType =>
      cases hname : Operation.ofName opType with
      | none => simp [hname]
      | some operation =>
        have hinner : batchRequest op = some ⟨"batch", operation, op.index "params"⟩ := by
          simp [batchRequest, htype, hname]
        simp only [hname]
        intro k hk
        obtain hk | hk := List.mem_append.mp hk
        · exact hfirst _ hinner s ses k hk
        · split at hk
          · cases hk
          · split at hk
            · cases hk
            · exact hrest _ _ k hk

/-- A request leads to calls for it and for those in its batches only. -/
theorem callsWithin_requests (depth : Nat) (s : Shared) (ses : Session) (request : Request) :
    ∀ k ∈ callsWithin X c depth s ses request, k.request ∈ requestsWithin depth request := by
  induction depth generalizing s ses request with
  | zero => simp [callsWithin]
  | succ depth ih =>
    intro k hk
    rw [callsWithin] at hk
    rw [requestsWithin]
    obtain rfl | hk := List.mem_cons.mp hk
    · exact List.mem_cons_self
    · apply List.mem_cons_of_mem
      split at hk
      · cases hk
      split at hk
      · rename_i hop
        rw [if_pos hop]
        split at hk
        · cases hk
        rename_i ops hops
        split at hk
        · cases hk
        simp only [hops, Option.getD_some]
        refine batchCalls_requests (fun op hop' inner hinner s ses k hk => ?_) _ _ k hk
        refine List.mem_flatMap.mpr ⟨op, hop', ?_⟩
        rw [hinner]
        exact ih s ses inner k hk
      · cases hk

variable {P : Shared → Session → Prop} {r : Response} {op : Operation} {params : Value} {α : Type}
  {t : Table String α} {k a : String}

section
variable (good : Request → Prop) (entered : ∀ s ses, P s ses → P s ses.recordRequest)
  (executed : ∀ s ses request s' ses' answer, P s ses → good request →
    execute X c s ses.recordRequest request.op request.params = some (s', ses', answer) →
      P s' ses') (hP : P s ses)
include entered executed hP

/-- What good requests keep holds after a request, also if it panics. -/
theorem handle_after (request : Request) :
    After X c (fun l s ses => (∀ k ∈ l, good k.request) → P s ses) [] (calls X c s ses request)
      (handle X c s ses request) :=
  calls_after (P := fun l s ses => (∀ k ∈ l, good k.request) → P s ses)
    (fun l s ses request hP _ hl => entered s ses (hP fun k hk => hl k (by simp [hk])))
    (fun l s ses request s' ses' answer hP _ he hl =>
      executed s ses request s' ses' answer (hP fun k hk => hl k (by simp [hk]))
        (hl ⟨s, ses, request⟩ (by simp)) he)
    (l := []) (fun _ => hP) request

theorem handle_keeps (hgood : ∀ inner ∈ nested request, good inner)
    (h : handle X c s ses request = some (s', ses', r)) : P s' ses' := by
  have hafter := handle_after good entered executed hP request
  rw [h] at hafter
  exact hafter fun k hk => hgood _ (callsWithin_requests _ s ses request k hk)

end

/-! ## What an operation does to the subscriptions -/

/-- It leaves them, adds one under the next id, or takes out the one it names, each time
in the registry and in the session. -/
inductive Resubscribed (X : ServerExternals) (s : Shared) (ses : Session) (op : Operation)
    (params : Value) (s' : Shared) (ses' : Session) : Prop
  | kept (registry : s'.registry = s.registry) (session : ses'.subscriptions = ses.subscriptions)
      (drawn : s.uuids ≤ s'.uuids)
  | added (hop : op ∈ watchOps) (kind : SubscriptionType) (own : SessionSubscriptionType)
      (registry : s'.registry = s.registry.insert (subscriptionId X s) kind)
      (session : ses'.subscriptions = ses.subscriptions.insert (subscriptionId X s) own)
      (drawn : s'.uuids = s.uuids + 1)
  | removed (hop : op = .unwatch) (p : UnwatchParams)
      (hp : UnwatchParams.fromValue params = some p)
      (registry : s'.registry = s.registry.erase p.subscriptionId)
      (session : ses'.subscriptions = ses.subscriptions.erase p.subscriptionId)
      (drawn : s'.uuids = s.uuids)

theorem handleHello_subscriptions (ses : Session) (params : Value) :
    (handleHello X c ses params).1.subscriptions = ses.subscriptions := by
  unfold handleHello
  split
  · rfl
  · split <;> rfl

theorem handleAuth_subscriptions (ses : Session) (params : Value) :
    (handleAuth X c ses params).1.subscriptions = ses.subscriptions := by
  unfold handleAuth
  repeat' split
  all_goals rfl

theorem Watched.resubscribed {r : Except ServerError (String × Receiver)}
    (h : Watched X s ses s' ses' r) (hop : op ∈ watchOps) (params : Value) :
    Resubscribed X s ses op params s' ses' := by
  cases h with
  | refused => exact .kept rfl rfl le_rfl
  | @added _ _ kind _ _ hb registry =>
    refine .added hop kind _ ?_ rfl rfl
    rw [Shared.registry, Shared.registry, hb]
    exact registry

theorem execute_resubscribed {answer : Answered}
    (h : execute X c s ses op params = some (s', ses', answer)) :
    Resubscribed X s ses op params s' ses' := by
  cases executed_of_execute h with
  | worked _ drawn => exact .kept rfl rfl drawn
  | notified =>
    refine .kept ?_ rfl le_rfl
    simp only [Shared.registry]
    cases s.broadcaster <;> rfl
  | saved _ _ broadcaster drawn =>
    exact .kept (by rw [Shared.registry, Shared.registry, broadcaster]) rfl drawn
  | greeted => exact .kept rfl (handleHello_subscriptions ses params) le_rfl
  | authorized => exact .kept rfl (handleAuth_subscriptions ses params) le_rfl
  | left => exact .kept rfl rfl le_rfl
  | watched hop h => exact h.resubscribed hop params
  | unwatched hop hp =>
    refine .removed hop _ hp ?_ rfl rfl
    rw [Shared.registry, Shared.registry]
    cases s.broadcaster with
    | none => simp
    | some b => rfl

/-- An operation that panics does no more than that either. -/
theorem abandoned_resubscribed (c : CommandHandler) (s : Shared) (ses : Session) (op : Operation)
    (params : Value) : Resubscribed X s ses op params (abandoned X c s ses params op).1
      (abandoned X c s ses params op).2 := by
  cases op
  case watchAll =>
    simp only [abandoned]
    split
    · rename_i p b _ hb
      refine .added (by decide) (.all ⟨p.machines, p.fromStates, p.toStates, p.events⟩
        p.includeCtx) .all ?_ rfl rfl
      rw [Shared.registry, Shared.registry, hb]
      rfl
    · exact .kept rfl rfl le_rfl
  all_goals exact .kept rfl rfl (Nat.le_add_right _ _)

/-! ## Requests of a connection -/

theorem mem_nested_self (request : Request) : request ∈ nested request := List.mem_cons_self

/-- The shared state and the session after a request, whether it returns or panics. -/
def requested (X : ServerExternals) (c : CommandHandler) (s : Shared) (conn : Connection)
    (request : Request) : Shared × Session :=
  match dispatch X c s conn request with
  | none => unwound X c s conn.session request
  | some (s, conn, _) => (s, conn.session)

theorem requested_of_none {conn : Connection} (h : dispatch X c s conn request = none) :
    requested X c s conn request = unwound X c s conn.session request := by
  rw [requested, h]

theorem requested_of_some {conn conn' : Connection}
    (h : dispatch X c s conn request = some (s', conn', r)) :
    requested X c s conn request = (s', conn'.session) := by
  rw [requested, h]

/-- What the operations of good requests keep, a connection keeps. -/
theorem requested_keeps (good : Operation → Value → Prop) {conn : Connection}
    (entered : ∀ s ses, P s ses → P s ses.recordRequest)
    (resubscribed : ∀ s ses op params s' ses', P s ses → good op params →
      Resubscribed X s ses op params s' ses' → P s' ses') (hP : P s conn.session)
    (hgood : ∀ inner ∈ nested request, good inner.op inner.params) :
    P (requested X c s conn request).1 (requested X c s conn request).2 := by
  have hself := hgood request (mem_nested_self request)
  have hafter := handle_after (c := c)
    (fun inner => good inner.op inner.params) entered
    (fun s ses inner s' ses' answer hP hgood he =>
      resubscribed _ _ _ _ _ _ (entered _ _ hP) hgood (execute_resubscribed he)) hP request
  have hall (k : Call) (hk : k ∈ calls X c s conn.session request) :
      good k.request.op k.request.params :=
    hgood _ (callsWithin_requests _ s conn.session request k hk)
  cases hd : dispatch X c s conn request with
  | none =>
    rw [requested_of_none hd]
    by_cases hop : request.op ∈ watchOps
    · rw [unwound, if_pos hop]
      exact resubscribed _ _ _ _ _ _ hP hself (abandoned_resubscribed ..)
    · rw [Connection.handle_panics hop hd] at hafter
      obtain ⟨front, k, hcalls, hk, -⟩ := hafter
      rw [hcalls] at hall
      rw [unwound_of_calls hop hcalls]
      exact resubscribed _ _ _ _ _ _
        (entered _ _ (hk fun k' hk' => hall k' (List.mem_append_left _ hk')))
        (hall k (by simp)) (abandoned_resubscribed ..)
  | some out =>
    obtain ⟨s', conn', r⟩ := out
    rw [requested_of_some hd]
    cases dispatched_of_dispatch hd with
    | refused => exact hP
    | watched hop hw => exact resubscribed _ _ _ _ _ _ hP hself (hw.resubscribed hop request.params)
    | unwatched _ hh | handled _ _ hh =>
      rw [hh] at hafter
      exact hafter hall

/-! ## The registry and one session -/

theorem mem_insert_iff {v : α} : a ∈ t.insert k v ↔ a = k ∨ a ∈ t := by
  rw [Std.ExtTreeMap.mem_insert, Std.LawfulEqCmp.compare_eq_iff_eq, eq_comm]

theorem mem_erase_iff : a ∈ t.erase k ↔ a ≠ k ∧ a ∈ t := by
  rw [Std.ExtTreeMap.mem_erase, ne_eq, Std.LawfulEqCmp.compare_eq_iff_eq, ne_eq, eq_comm]

/-- The identifiers handed out so far. -/
def Shared.handedOut (X : ServerExternals) (s : Shared) (id : String) : Prop :=
  ∃ n < s.uuids, id = "sub-" ++ X.uuid n

theorem Shared.handedOut.mono {id : String} (h : s.handedOut X id) (hle : s.uuids ≤ s'.uuids) :
    s'.handedOut X id := by
  obtain ⟨n, hn, rfl⟩ := h
  exact ⟨n, by omega, rfl⟩

theorem subscriptionId_new (huuid : Function.Injective X.uuid) {id : String}
    (h : s.handedOut X id) : id ≠ subscriptionId X s := by
  obtain ⟨n, hn, rfl⟩ := h
  intro he
  have htext := congrArg String.toList he
  simp only [subscriptionId, String.toList_append, List.append_cancel_left_eq] at htext
  have := huuid (String.toList_inj.mp htext)
  omega

/-- The registry consists of the entries of others and of those of the session, the two
have none in common, and the ids of ended connections are not in it. -/
structure Apart (X : ServerExternals) (others ended : String → Prop) (s : Shared)
    (ses : Session) : Prop where
  union : ∀ id, id ∈ s.registry ↔ others id ∨ id ∈ ses.subscriptions
  apart : ∀ id, others id → id ∉ ses.subscriptions
  drawn : ∀ id ∈ s.registry, s.handedOut X id
  gone : ∀ id, ended id → id ∉ s.registry ∧ s.handedOut X id

theorem Apart.resubscribed (huuid : Function.Injective X.uuid) {others ended : String → Prop}
    (h : Apart X others ended s ses)
    (hown : op = .unwatch → ∀ p, UnwatchParams.fromValue params = some p →
      ¬ others p.subscriptionId) (hr : Resubscribed X s ses op params s' ses') :
    Apart X others ended s' ses' := by
  cases hr with
  | kept registry session drawn =>
    refine ⟨?_, ?_, ?_, ?_⟩
    · rw [registry, session]
      exact h.union
    · rw [session]
      exact h.apart
    · rw [registry]
      exact fun id hid => (h.drawn id hid).mono drawn
    · rw [registry]
      exact fun id hid => ⟨(h.gone id hid).1, (h.gone id hid).2.mono drawn⟩
  | added hop kind own registry session drawn =>
    refine ⟨fun id => ?_, fun id hid => ?_, fun id hid => ?_, fun id hid => ?_⟩
    · rw [registry, session, mem_insert_iff, mem_insert_iff, h.union]
      tauto
    · rw [session, mem_insert_iff, not_or]
      have hin := (h.union id).mpr (.inl hid)
      exact ⟨subscriptionId_new huuid (h.drawn id hin), h.apart id hid⟩
    · rw [registry, mem_insert_iff] at hid
      obtain rfl | hid := hid
      · exact ⟨s.uuids, by omega, rfl⟩
      · exact (h.drawn id hid).mono (by omega)
    · obtain ⟨hout, hid⟩ := h.gone id hid
      rw [registry, mem_insert_iff, not_or]
      exact ⟨⟨subscriptionId_new huuid hid, hout⟩, hid.mono (by omega)⟩
  | removed hop p hp registry session drawn =>
    have hnot := hown hop p hp
    refine ⟨fun id => ?_, fun id hid => ?_, fun id hid => ?_, fun id hid => ?_⟩
    · rw [registry, session, mem_erase_iff, mem_erase_iff, h.union]
      constructor
      · tauto
      · rintro (hid | hid)
        · exact ⟨fun he => hnot (he ▸ hid), .inl hid⟩
        · exact ⟨hid.1, .inr hid.2⟩
    · rw [session, mem_erase_iff]
      exact fun hin => h.apart id hid hin.2
    · rw [registry, mem_erase_iff] at hid
      exact (h.drawn id hid.2).mono (by omega)
    · rw [registry, mem_erase_iff]
      exact ⟨fun hin => (h.gone id hid).1 hin.2, (h.gone id hid).2.mono (by omega)⟩

theorem registry_cleanup (ses : Session) (s : Shared) (id : String) :
    id ∈ (cleanupSubscriptions ses s).registry ↔ id ∈ s.registry ∧ id ∉ ses.subscriptions := by
  have hfold (ids : List String) (b : EventBroadcaster) :
      id ∈ (ids.foldl (·.unsubscribe ·) b).subscriptions ↔ id ∈ b.subscriptions ∧ id ∉ ids := by
    induction ids generalizing b with
    | nil => simp
    | cons k ids ih =>
      rw [List.foldl_cons, ih, EventBroadcaster.unsubscribe, mem_erase_iff]
      simp only [List.mem_cons, not_or]
      tauto
  simp only [cleanupSubscriptions, Shared.registry]
  cases s.broadcaster with
  | none => simp
  | some b =>
    simp only [Option.map_some]
    rw [hfold, Std.ExtTreeMap.mem_keys]

/-! ## The registry and all sessions -/

/-- The compaction manager leaves the registry alone. -/
theorem runCompaction_frame (s : Shared) (store : SnapshotStore) :
    (runCompaction X s store).1.registry = s.registry ∧
      s.uuids ≤ (runCompaction X s store).1.uuids := by
  obtain ⟨dir, n, before, h⟩ := runCompaction_eq X s store
  rw [h]
  cases before <;> exact ⟨rfl, Nat.le_add_right _ _⟩

end

/-- The id is registered, but not by this session. -/
def foreign (s : Shared) (ses : Session) (id : String) : Bool :=
  s.registry.contains id && !ses.subscriptions.contains id

/-- The step unwatches no subscription of another session, and does not end a connection
that has subscriptions with an error or a panic. -/
def Connection.considerate (X : ServerExternals) (c : CommandHandler) (s : Shared)
    (conn : Connection) : ConnectionOp → Bool
  | .request request written =>
    (nested request).all (fun inner => inner.op != .unwatch ||
      (UnwatchParams.fromValue inner.params).all fun p =>
        !foreign s conn.session p.subscriptionId) &&
    (written && (dispatch X c s conn request).isSome || conn.session.subscriptions.isEmpty &&
      (nested request).all fun inner => inner.op ∉ watchOps)
  | .deliver written => written || conn.session.subscriptions.isEmpty
  | .fail => conn.session.subscriptions.isEmpty
  | .receive _ | .send _ | .hangUp => true

namespace Hub

def considerate (X : ServerExternals) (hub : Hub) : HubOp → Bool
  | .connection k op =>
    (hub.connections[k]?).all (·.considerate X hub.server.handler hub.server.shared op)
  | .accept | .compact => true

/-- The connection is open, or is not, and its session has the subscription. -/
def holds (hub : Hub) (isOpen : Bool) (k : Nat) (id : String) : Prop :=
  ∃ conn, hub.connections[k]? = some conn ∧ conn.isOpen = isOpen ∧
    id ∈ conn.session.subscriptions

/-- The registry is the disjoint union of the subscriptions of the open sessions, and has
none of a connection that has ended. -/
structure Registered (hub : Hub) : Prop where
  union : ∀ id, id ∈ hub.server.shared.registry ↔ ∃ k, hub.holds true k id
  disjoint : ∀ id j k, hub.holds true j id → hub.holds true k id → j = k
  gone : ∀ id k, hub.holds false k id → id ∉ hub.server.shared.registry

/-- The registry is in order, and its ids and those of ended connections have been
handed out. -/
structure Tidy (X : ServerExternals) (hub : Hub) : Prop where
  registered : hub.Registered
  drawn : ∀ id ∈ hub.server.shared.registry, hub.server.shared.handedOut X id
  ended : ∀ id k, hub.holds false k id → hub.server.shared.handedOut X id

/-- Another connection than this one is open and has the subscription. -/
def others (hub : Hub) (k : Nat) (id : String) : Prop := ∃ j, j ≠ k ∧ hub.holds true j id

/-- Another connection than this one has ended and had the subscription. -/
def ended (hub : Hub) (k : Nat) (id : String) : Prop := ∃ j, j ≠ k ∧ hub.holds false j id

section
variable {X : ServerExternals} {hub hub' : Hub} {k : Nat} {conn conn' : Connection} {s' : Shared}

variable {isOpen : Bool} {id : String} {server : Server} {ses : Session}

theorem holds_iff (hk : hub.connections[k]? = some conn) :
    hub.holds isOpen k id ↔ conn.isOpen = isOpen ∧ id ∈ conn.session.subscriptions := by
  constructor
  · rintro ⟨conn', hk', hid⟩
    cases hk.symm.trans hk'
    exact hid
  · exact fun hid => ⟨conn, hk, hid⟩

theorem Tidy.apart (h : hub.Tidy X) (hk : hub.connections[k]? = some conn)
    (hopen : conn.isOpen = true) :
    Apart X (hub.others k) (hub.ended k) hub.server.shared conn.session := by
  have hown {id : String} : hub.holds true k id ↔ id ∈ conn.session.subscriptions := by
    rw [holds_iff hk, hopen]
    simp
  refine ⟨fun id => ?_, fun id hid hin => ?_, h.drawn, fun id hid => ?_⟩
  · rw [h.registered.union, ← hown]
    constructor
    · rintro ⟨j, hj⟩
      by_cases hjk : j = k
      · exact .inr (hjk ▸ hj)
      · exact .inl ⟨j, hjk, hj⟩
    · rintro (⟨j, -, hj⟩ | hid)
      · exact ⟨j, hj⟩
      · exact ⟨k, hid⟩
  · obtain ⟨j, hjk, hj⟩ := hid
    exact hjk (h.registered.disjoint id j k hj (hown.mpr hin))
  · obtain ⟨j, -, hj⟩ := hid
    exact ⟨h.registered.gone id j hj, h.ended id j hj⟩

theorem holds_set (hk : hub.connections[k]? = some conn) {j : Nat} :
    (⟨server, hub.connections.set k conn'⟩ : Hub).holds isOpen j id ↔
      (j = k ∧ conn'.isOpen = isOpen ∧ id ∈ conn'.session.subscriptions) ∨
        (j ≠ k ∧ hub.holds isOpen j id) := by
  have hlt : k < hub.connections.length := (List.getElem?_eq_some_iff.mp hk).1
  unfold holds
  by_cases hjk : j = k
  · subst hjk
    simp [List.getElem?_set_self hlt]
  · simp [List.getElem?_set_ne (Ne.symm hjk), hjk]

/-- A connection that keeps its session. -/
theorem Tidy.same (h : hub.Tidy X) (hk : hub.connections[k]? = some conn)
    (hses : conn'.session = conn.session) (hsame : conn'.isOpen = conn.isOpen) :
    (⟨hub.server, hub.connections.set k conn'⟩ : Hub).Tidy X := by
  have hholds (isOpen : Bool) (j : Nat) (id : String) :
      (⟨hub.server, hub.connections.set k conn'⟩ : Hub).holds isOpen j id ↔
        hub.holds isOpen j id := by
    rw [holds_set hk, hses, hsame, ← holds_iff hk]
    by_cases hjk : j = k <;> simp [hjk]
  obtain ⟨⟨union, disjoint, gone⟩, drawn, ended⟩ := h
  refine ⟨⟨?_, ?_, ?_⟩, drawn, ?_⟩ <;> simpa only [hholds]

theorem Tidy.goesOn (h : hub.Tidy X) (hk : hub.connections[k]? = some conn)
    (hp : Apart X (hub.others k) (hub.ended k) s' conn'.session) (hopen : conn'.isOpen = true) :
    (⟨{ hub.server with shared := s' }, hub.connections.set k conn'⟩ : Hub).Tidy X := by
  have hended {id : String} {j : Nat} (hj : (⟨{ hub.server with shared := s' },
      hub.connections.set k conn'⟩ : Hub).holds false j id) : hub.ended k id := by
    obtain ⟨-, hclosed, -⟩ | ⟨hjk, hj⟩ := (holds_set hk).mp hj
    · rw [hopen] at hclosed
      cases hclosed
    · exact ⟨j, hjk, hj⟩
  refine ⟨⟨fun id => ?_, fun id i j hi hj => ?_, fun id j hj => (hp.gone id (hended hj)).1⟩,
    hp.drawn, fun id j hj => (hp.gone id (hended hj)).2⟩
  · rw [hp.union]
    constructor
    · rintro (⟨j, hjk, hj⟩ | hid)
      · exact ⟨j, (holds_set hk).mpr (.inr ⟨hjk, hj⟩)⟩
      · exact ⟨k, (holds_set hk).mpr (.inl ⟨rfl, hopen, hid⟩)⟩
    · rintro ⟨j, hj⟩
      obtain ⟨-, -, hid⟩ | ⟨hjk, hj⟩ := (holds_set hk).mp hj
      · exact .inr hid
      · exact .inl ⟨j, hjk, hj⟩
  · obtain ⟨hik, -, hid⟩ | ⟨hik, hothers⟩ := (holds_set hk).mp hi <;>
      obtain ⟨hjk, -, hid'⟩ | ⟨hjk, hothers'⟩ := (holds_set hk).mp hj
    · exact hik.trans hjk.symm
    · exact absurd hid (hp.apart id ⟨j, hjk, hothers'⟩)
    · exact absurd hid' (hp.apart id ⟨i, hik, hothers⟩)
    · exact h.registered.disjoint id i j hothers hothers'

theorem Tidy.ends (h : hub.Tidy X) (hk : hub.connections[k]? = some conn)
    (hp : Apart X (hub.others k) (hub.ended k) s' ses) (hses : conn'.session = ses)
    (hclosed : conn'.isOpen = false) :
    (⟨{ hub.server with shared := cleanupSubscriptions ses s' },
      hub.connections.set k conn'⟩ : Hub).Tidy X := by
  subst hses
  have hregistry (id : String) :
      id ∈ (cleanupSubscriptions conn'.session s').registry ↔ hub.others k id := by
    rw [registry_cleanup, hp.union]
    constructor
    · rintro ⟨hid | hid, hnot⟩
      · exact hid
      · exact absurd hid hnot
    · exact fun hid => ⟨.inl hid, hp.apart id hid⟩
  have hended (id : String) (j : Nat) (hj : (⟨{ hub.server with
      shared := cleanupSubscriptions conn'.session s' }, hub.connections.set k conn'⟩ :
        Hub).holds false j id) :
      id ∉ (cleanupSubscriptions conn'.session s').registry ∧ s'.handedOut X id := by
    rw [registry_cleanup]
    obtain ⟨-, -, hid⟩ | ⟨hjk, hj⟩ := (holds_set hk).mp hj
    · exact ⟨fun hin => hin.2 hid, hp.drawn id ((hp.union id).mpr (.inr hid))⟩
    · obtain ⟨hout, hid⟩ := hp.gone id ⟨j, hjk, hj⟩
      exact ⟨fun hin => hout hin.1, hid⟩
  refine ⟨⟨fun id => ?_, fun id i j hi hj => ?_, fun id j hj => (hended id j hj).1⟩,
    fun id hid => hp.drawn id ((registry_cleanup _ _ _).mp hid).1,
    fun id j hj => (hended id j hj).2⟩
  · rw [hregistry]
    constructor
    · rintro ⟨j, hjk, hj⟩
      exact ⟨j, (holds_set hk).mpr (.inr ⟨hjk, hj⟩)⟩
    · rintro ⟨j, hj⟩
      obtain ⟨-, hopen, -⟩ | ⟨hjk, hj⟩ := (holds_set hk).mp hj
      · rw [hclosed] at hopen
        cases hopen
      · exact ⟨j, hjk, hj⟩
  · obtain ⟨-, hopen, -⟩ | ⟨-, hi⟩ := (holds_set hk).mp hi <;>
      obtain ⟨-, hopen', -⟩ | ⟨-, hj⟩ := (holds_set hk).mp hj
    case inr.inr => exact h.registered.disjoint id i j hi hj
    all_goals simp_all

theorem cleanup_empty (hempty : ses.subscriptions.isEmpty = true) (s : Shared) :
    cleanupSubscriptions ses s = s := by
  unfold cleanupSubscriptions
  rw [Std.ExtTreeMap.isEmpty_iff.mp hempty]
  obtain ⟨_, _, _, _ | b, _⟩ := s <;> simp

theorem Tidy.dropped (h : hub.Tidy X) (hk : hub.connections[k]? = some conn)
    (hp : Apart X (hub.others k) (hub.ended k) s' ses) (hses : conn'.session = ses)
    (hclosed : conn'.isOpen = false) (hempty : ses.subscriptions.isEmpty = true) :
    (⟨{ hub.server with shared := s' }, hub.connections.set k conn'⟩ : Hub).Tidy X := by
  have hends := h.ends hk hp hses hclosed
  rwa [cleanup_empty hempty] at hends

/-- A considerate request leaves the entries of the others. -/
theorem Tidy.request (huuid : Function.Injective X.uuid) (h : hub.Tidy X)
    (hk : hub.connections[k]? = some conn) (hopen : conn.isOpen = true) {request : Request}
    {written : Bool} {out : Shared × Session}
    (hc : conn.considerate X hub.server.handler hub.server.shared (.request request written) = true)
    (hout : requested X hub.server.handler hub.server.shared conn request = out) :
    Apart X (hub.others k) (hub.ended k) out.1 out.2 := by
  have hp := h.apart hk hopen
  simp only [Connection.considerate, Bool.and_eq_true, Bool.or_eq_true, List.all_eq_true,
    bne_iff_ne, ne_eq] at hc
  subst hout
  refine requested_keeps
    (fun op params => op = .unwatch → ∀ p, UnwatchParams.fromValue params = some p →
      ¬ hub.others k p.subscriptionId)
    (fun s ses hp => ⟨hp.union, hp.apart, hp.drawn, hp.gone⟩)
    (fun s ses op params s' ses' hp hown hr => hp.resubscribed huuid hown hr) hp ?_
  intro inner hinner hop p hparams hothers
  have hnot := (hc.1 inner hinner).resolve_left (not_not_intro hop)
  simp only [hparams, Option.all_some, Bool.not_eq_true', foreign, Bool.and_eq_false_iff,
    Bool.not_eq_false'] at hnot
  obtain hnot | hnot := hnot
  · have hin := (hp.union p.subscriptionId).mpr (.inl hothers)
    rw [Std.ExtTreeMap.mem_iff_contains, hnot] at hin
    cases hin
  · exact hp.apart _ hothers (Std.ExtTreeMap.mem_iff_contains.mpr hnot)

/-- A considerate request that panics, or whose answer cannot be written, leaves a session
without subscriptions. -/
theorem empty_of_considerate {c : CommandHandler} {s : Shared} {request : Request} {written : Bool}
    {out : Shared × Session}
    (hc : conn.considerate X c s (.request request written) = true)
    (hends : (written && (dispatch X c s conn request).isSome) = false)
    (hout : requested X c s conn request = out) : out.2.subscriptions.isEmpty = true := by
  simp only [Connection.considerate, hends, Bool.false_or, Bool.and_eq_true, List.all_eq_true,
    decide_eq_true_eq] at hc
  subst hout
  refine requested_keeps (P := fun _ ses => ses.subscriptions.isEmpty = true)
    (fun op _ => op ∉ watchOps) (fun _ _ hP => hP) ?_ hc.2.1 hc.2.2
  intro s ses op params s' ses' hP hop hr
  cases hr with
  | kept _ session _ => rwa [session]
  | added hadd => exact absurd hadd hop
  | removed _ p _ _ session _ =>
    rw [session, Std.ExtTreeMap.isEmpty_iff.mp hP]
    simp

theorem Tidy.step (huuid : Function.Injective X.uuid) (h : hub.Tidy X) {op : HubOp}
    (hc : hub.considerate X op = true) (hs : hub.step X op = some hub') : hub'.Tidy X := by
  cases op with
  | accept =>
    cases hs
    have hsame (isOpen : Bool) (j : Nat) (id : String) : (⟨hub.server, hub.connections ++
        [.new hub.server.handler.authRequired]⟩ : Hub).holds isOpen j id ↔
          hub.holds isOpen j id := by
      unfold holds
      rw [List.getElem?_append]
      split
      · rfl
      rename_i hlt
      rw [List.getElem?_eq_none (by omega : hub.connections.length ≤ j)]
      constructor
      · rintro ⟨conn, hconn, -, hid⟩
        rw [List.getElem?_singleton] at hconn
        split at hconn <;> cases hconn
        simp [Connection.new, Session.new] at hid
      · rintro ⟨conn, hconn, -⟩
        cases hconn
    obtain ⟨⟨union, disjoint, gone⟩, drawn, ended⟩ := h
    refine ⟨⟨?_, ?_, ?_⟩, drawn, ?_⟩ <;> simpa only [hsame]
  | connection k op =>
    obtain ⟨conn, s', conn', hk, hstep, rfl⟩ := connection_of_step hs
    have hc : conn.considerate X hub.server.handler hub.server.shared op = true := by
      simpa [considerate, hk] using hc
    cases Connection.steps_of_step hstep with
    | panicked _ hopen hd =>
      have hout := requested_of_none hd
      exact h.dropped hk (h.request huuid hk hopen hc hout) rfl rfl
        (empty_of_considerate hc (by simp [hd]) hout)
    | unanswered hopen hd =>
      have hout := requested_of_some hd
      exact h.dropped hk (h.request huuid hk hopen hc hout) rfl rfl
        (empty_of_considerate hc rfl hout)
    | closed hopen hd =>
      exact h.ends hk (h.request huuid hk hopen hc (requested_of_some hd)) rfl rfl
    | answered hopen hd =>
      have hp := h.request huuid hk hopen hc (requested_of_some hd)
      obtain ⟨ses, tasks, rfl⟩ := dispatch_frame hd
      exact h.goesOn hk hp hopen
    | received | cancelled | sent | delivered => exact h.same hk rfl rfl
    | undelivered hopen | failed hopen =>
      have hempty : conn.session.subscriptions.isEmpty = true := by
        simpa [Connection.considerate] using hc
      exact h.dropped hk (h.apart hk hopen) rfl rfl hempty
    | hungUp hopen => exact h.ends hk (h.apart hk hopen) rfl rfl
  | compact =>
    obtain ⟨hregistry, hdrawn⟩ := runCompaction_frame (X := X) hub.server.shared
      hub.server.compaction
    simp only [Hub.step, Option.some.injEq] at hs
    subst hs
    obtain ⟨⟨union, disjoint, gone⟩, drawn, ended⟩ := h
    refine ⟨⟨fun id => ?_, disjoint, fun id k hk => ?_⟩, fun id hid => ?_, fun id k hk => ?_⟩
    · rw [hregistry]
      exact union id
    · rw [hregistry]
      exact gone id k hk
    · rw [hregistry] at hid
      exact (drawn id hid).mono hdrawn
    · exact (ended id k hk).mono hdrawn

theorem start_registry {config : ServerConfig} {dir : Dir} {snapshotDir : SnapshotDir} {uuids : Nat}
    (started : Server.start X config dir snapshotDir uuids = some (.ok server)) :
    server.shared.registry = ∅ := by
  unfold Server.start at started
  repeat' split at started
  all_goals cases started
  rfl

/-- In every run whose steps are considerate, the registry is the disjoint union of the
subscriptions of the open sessions. -/
theorem registry_matches_sessions (huuid : Function.Injective X.uuid) {config : ServerConfig}
    {dir : Dir} {snapshotDir : SnapshotDir} {uuids : Nat} {server : Server}
    (started : Server.start X config dir snapshotDir uuids = some (.ok server))
    {ops : List HubOp}
    (hops : Meets (step X) (fun hub op => hub.considerate X op = true) ⟨server, []⟩ ops)
    (hrun : run (step X) ⟨server, []⟩ ops = some hub) : hub.Registered := by
  have hempty := start_registry started
  have hnone (isOpen : Bool) (k : Nat) (id : String) :
      ¬ (⟨server, []⟩ : Hub).holds isOpen k id := by
    rintro ⟨conn, hk, -⟩
    simp at hk
  have hfirst : (⟨server, []⟩ : Hub).Tidy X := by
    refine ⟨⟨fun id => ?_, fun id j k hj => ?_, fun id k hk => ?_⟩, fun id hid => ?_,
      fun id k hk => ?_⟩
    · simp [hempty, hnone]
    · exact absurd hj (hnone _ _ _)
    · exact absurd hk (hnone _ _ _)
    · simp [hempty] at hid
    · exact absurd hk (hnone _ _ _)
  have hlast : hub.Tidy X :=
    run_keeps_of_meets (fun _ _ _ h hc hs => h.step huuid hc hs) hfirst hops hrun
  exact hlast.registered

end

/-! ## Two connections -/

theorem serdeServer_uuid_injective : Function.Injective serdeServer.uuid := by
  intro m n h
  have htext := congrArg String.toList h
  simp only [serdeServer, String.toList_append, List.append_cancel_left_eq,
    String.toList_ofList] at htext
  have := congrArg (Nat.ofDigitChars 10 · 0) htext
  simp only [Nat.ofDigitChars_toDigits (by omega : 1 < 10) (by omega : 10 ≤ 10)] at this
  omega

def firstSubscription : String := "sub-00000000-0000-4000-8000-100000000000"

/-- A request to unwatch this subscription. -/
def unwatchRequest (id : String) : Request :=
  ⟨"2", .unwatch, .object [("subscription_id", .string id)]⟩

/-- Two clients that watch; one unwatches and then hangs up. -/
theorem registry_matches_two_sessions :
    ∃ hub, run (step serdeServer) ⟨.fresh (openConfig 1000), []⟩
        (.accept :: .accept :: (requestsOf 0 [watchAllRequest, watchAllRequest] ++
          requestsOf 1 [watchAllRequest] ++ requestsOf 0 [unwatchRequest firstSubscription] ++
          [.connection 1 .hangUp])) = some hub ∧
      hub.Registered ∧ hub.server.shared.registry.size = 1 := by
  refine run_exists (p := fun hub => hub.server.shared.registry.size = 1) (by decide +kernel) ?_
  intro hub hrun h
  refine ⟨registry_matches_sessions serdeServer_uuid_injective (Server.start_empty rfl) ?_ hrun, h⟩
  decide +kernel

/-- A client that unwatches the subscription of another takes it out of the registry,
where the other still has it; and one whose input cannot be decoded leaves its own
there. -/
theorem registry_loses_and_keeps :
    (∃ hub, run (step serdeServer) ⟨.fresh (openConfig 1000), []⟩
        (.accept :: .accept :: (requestsOf 0 [watchAllRequest] ++
          requestsOf 1 [unwatchRequest firstSubscription])) = some hub ∧
      firstSubscription ∉ hub.server.shared.registry ∧ hub.holds true 0 firstSubscription ∧
      ¬ hub.Registered) ∧
    ∃ hub, run (step serdeServer) ⟨.fresh (openConfig 1000), []⟩
        (.accept :: (requestsOf 0 [watchAllRequest] ++ [.connection 0 .fail])) = some hub ∧
      firstSubscription ∈ hub.server.shared.registry ∧ hub.holds false 0 firstSubscription ∧
      ¬ hub.Registered := by
  constructor
  · refine run_exists (p := fun hub => (!hub.server.shared.registry.contains firstSubscription &&
      (hub.connections[0]?).any fun conn =>
        conn.isOpen && conn.session.subscriptions.contains firstSubscription) = true)
      (by decide +kernel) ?_
    intro hub _ h
    simp only [Bool.and_eq_true, Bool.not_eq_true', Option.any_eq_true] at h
    obtain ⟨hout, conn, hconn, hopen, hin⟩ := h
    have hnot : firstSubscription ∉ hub.server.shared.registry := by
      rw [Std.ExtTreeMap.mem_iff_contains, hout]
      simp
    have hholds : hub.holds true 0 firstSubscription :=
      ⟨conn, hconn, hopen, Std.ExtTreeMap.mem_iff_contains.mpr hin⟩
    exact ⟨hnot, hholds, fun h => hnot ((h.union _).mpr ⟨0, hholds⟩)⟩
  · refine run_exists (p := fun hub => (hub.server.shared.registry.contains firstSubscription &&
      (hub.connections[0]?).any fun conn =>
        !conn.isOpen && conn.session.subscriptions.contains firstSubscription) = true)
      (by decide +kernel) ?_
    intro hub _ h
    simp only [Bool.and_eq_true, Bool.not_eq_true', Option.any_eq_true] at h
    obtain ⟨hstill, conn, hconn, hclosed, hin⟩ := h
    have hmem := Std.ExtTreeMap.mem_iff_contains.mpr hstill
    have hholds : hub.holds false 0 firstSubscription :=
      ⟨conn, hconn, hclosed, Std.ExtTreeMap.mem_iff_contains.mpr hin⟩
    exact ⟨hmem, hholds, fun h => h.gone _ 0 hholds hmem⟩

end Hub

end Rstmdb

import Rstmdb.Client.Pairing

/-! What stays in the map of pending requests. A request takes its entry out when the
response comes, and when its time is up if nobody has the lock; the reading task takes none
out when it returns, and marks the connection as down only at the end of the stream. -/
namespace Rstmdb

/-- The number of a call that has returned. -/
def RequestState.left : RequestState → Option Nat
  | returned ticket _ _ => ticket
  | _ => none

theorem RequestState.ticket_of_left {state : RequestState} {ticket : Nat}
    (h : state.left = some ticket) : state.ticket = some ticket := by
  cases state with
  | returned ticket' rx result => exact h
  | _ => cases h

/-- The task has returned. -/
def ReadLoop.ended : ReadLoop → Bool
  | returned _ => true
  | _ => false

/-- No entry is left of a call that has returned, and once the task has returned the
connection is down and nothing is pending. -/
structure Client.Clean (client : Client) : Prop where
  calls : ∀ call ∈ client.requests, ∀ ticket, call.state.left = some ticket →
    requestId ticket ∉ client.conn.pending
  loop : client.readLoop.ended = true →
    client.conn.connected = false ∧ client.conn.pending = ∅

/-- No request registers after the task has returned; and where a write fails or a timeout
finds the lock taken, the entry is already gone. -/
def RequestCall.tidy (conn : ClientConnection) (ended : Bool) (call : RequestCall) :
    RequestOp → Bool
  | .next =>
    match call.state with
    | .inserting _ _ => !ended
    | .registered ticket _ _ => conn.writer || decide (requestId ticket ∉ conn.pending)
    | _ => true
  | .writeFails =>
    match call.state with
    | .registered ticket _ _ => decide (requestId ticket ∉ conn.pending)
    | _ => true
  | .timeout =>
    match call.state with
    | .waiting ticket _ => !conn.pendingLocked || decide (requestId ticket ∉ conn.pending)
    | _ => true

/-- The task returns with nothing pending, at the end of the stream or on a connection
that is down. -/
def ReadLoop.tidy (X : ClientExternals) (conn : ClientConnection) (loop : ReadLoop) (op : ReadOp) :
    Bool :=
  match loop.next X conn op with
  | some (_, .returned _) =>
    conn.pending.isEmpty &&
      match op with
      | .data [] => true
      | _ => !conn.connected
  | _ => true

def Client.tidy (X : ClientExternals) (client : Client) : ClientOp → Bool
  | .requestStep k op => (client.requests[k]?).all (·.tidy client.conn client.readLoop.ended op)
  | .read op => client.readLoop.tidy X client.conn op
  | .request _ _ | .close | .closeStep _ => true

theorem ClientConnection.pending_iff {conn : ClientConnection} {id : String} :
    id ∈ conn.pending ↔ ∃ rx, conn.pending[id]? = some rx := by
  rw [Std.ExtTreeMap.mem_iff_isSome_getElem?, Option.isSome_iff_exists]

/-! ## Numbers -/

/-- Each call draws one number, the next one; and each channel is some call's. -/
structure Client.Numbered (first : Nat) (client : Client) : Prop where
  drawn : client.conn.nextId = first + (client.requests.filterMap (·.state.ticket)).length
  range : ∀ call ∈ client.requests, ∀ ticket, call.state.ticket = some ticket →
    first ≤ ticket ∧ ticket < client.conn.nextId
  distinct : (client.requests.filterMap (·.state.ticket)).Nodup
  owned : ∀ (rx : Nat) ch, client.conn.channels[rx]? = some ch →
    ∃ call ∈ client.requests, call.state.rx = some rx

theorem RequestCall.Steps.draws {X : ClientExternals} {conn conn' : ClientConnection}
    {call : RequestCall} {state : RequestState} {op : RequestOp}
    (hs : call.Steps X conn op conn' state) :
    state.ticket = call.state.ticket ∧ conn'.nextId = conn.nextId ∨
      call.state.ticket = none ∧ state.ticket = some conn.nextId ∧
        conn'.nextId = conn.nextId + 1 := by
  cases hs
  case unencoded hstate _ _ | numbered hstate _ _ => exact .inr ⟨hstate ▸ rfl, rfl, rfl⟩
  case unwritten hstate _ _ | answered hstate _ _ => exact .inl ⟨hstate ▸ rfl, rfl⟩
  case registered hstate | removed hstate => exact .inl ⟨hstate ▸ rfl, rfl⟩
  case refused hstate _ | checked hstate _ | locked hstate _ | written hstate _ |
      closed hstate _ | abandoned hstate _ | timedOut hstate _ =>
    exact .inl ⟨hstate ▸ rfl, rfl⟩

namespace Client

section
variable {X : ClientExternals} {client client' : Client} {first : Nat}

theorem numbered_new (nextId : Nat) (decoder : Decoder) :
    (Client.new nextId decoder).Numbered nextId := by
  refine ⟨?_, ?_, ?_, ?_⟩ <;> simp [Client.new]

variable {k ticket rx : Nat} {call : RequestCall} {conn : ClientConnection} {op : ClientOp}

/-- Channels that were there keep their owners when one call moves. -/
theorem Numbered.requestStep (h : client.Numbered first) {op : RequestOp}
    (hk : client.requests[k]? = some call) {state : RequestState}
    (hs : call.Steps X client.conn op conn state) :
    Numbered first { client with conn, requests := client.requests.set k { call with state } } := by
  obtain ⟨xs, ys, hsplit, hset⟩ := getElem?_split hk
  obtain ⟨hdrawn, hrange, hdistinct, howned⟩ := h
  rw [hsplit] at hdrawn hrange hdistinct howned
  have hnew : { call with state } ∈ xs ++ { call with state } :: ys := by simp
  refine ⟨?_, ?_, ?_, ?_⟩ <;> simp only [hset]
  · rw [filterMap_middle] at hdrawn ⊢
    obtain ⟨ht, hnext⟩ | ⟨hnone, ht, hnext⟩ := hs.draws
    · rw [hnext, hdrawn, ht]
    · rw [hnext, hdrawn, ht, hnone]
      simp only [List.length_append, Option.toList_none, Option.toList_some, List.length_nil,
        List.length_singleton]
      omega
  · have hle : client.conn.nextId ≤ conn.nextId := by
      obtain ⟨-, hnext⟩ | ⟨-, -, hnext⟩ := hs.draws <;> omega
    refine forall_replace (t := call) (fun u hu ticket ht => ?_) fun ticket ht => ?_
    · have := hrange u hu ticket ht
      omega
    · obtain ⟨hsame, hnext⟩ | ⟨-, hsome, hnext⟩ := hs.draws
      · have := hrange call (by simp) ticket (hsame ▸ ht)
        omega
      · obtain rfl := Option.some.inj (hsome.symm.trans ht)
        omega
  · refine nodup_replace hdistinct fun ticket ht => ?_
    obtain ⟨hsame, -⟩ | ⟨-, hsome, -⟩ := hs.draws
    · exact .inl (hsame.symm.trans ht)
    · refine .inr fun u hu hheld => ?_
      obtain rfl := Option.some.inj (hsome.symm.trans ht)
      have := hrange u (mem_of_others call hu) _ hheld
      omega
  · -- A call that has a channel keeps it.
    have hstays : ∀ rx, (∃ u ∈ xs ++ call :: ys, u.state.rx = some rx) →
        (call.state.rx = some rx → state.rx = some rx) →
        ∃ u ∈ xs ++ { call with state } :: ys, u.state.rx = some rx := by
      rintro rx ⟨u, hu, hrx⟩ hsame
      obtain rfl | hu := mem_replace hu
      · exact ⟨_, hnew, hsame hrx⟩
      · exact ⟨u, mem_of_others _ hu, hrx⟩
    intro rx ch hch
    obtain ⟨hkeeps, hrx⟩ | ⟨-, ticket, encoded, hstate, rfl, rfl⟩ := hs.keeps_or_registers
    · rw [hkeeps.channels] at hch
      exact hstays rx (howned rx ch hch) hrx.trans
    · rw [ClientConnection.registered, List.getElem?_append] at hch
      split at hch
      · exact hstays rx (howned rx ch hch) fun h => by simp [hstate, RequestState.rx] at h
      rw [List.getElem?_singleton] at hch
      split at hch
      · refine ⟨_, hnew, ?_⟩
        have : rx = client.conn.channels.length := by omega
        rw [this]
        rfl
      · cases hch

theorem Numbered.step (h : client.Numbered first) (hs : client.step X op = some client') :
    client'.Numbered first := by
  cases moves_of_step hs with
  | request op params =>
    refine ⟨by simpa [RequestState.ticket] using h.drawn, fun call hcall ticket ht => ?_,
      by simpa [RequestState.ticket] using h.distinct, fun rx ch hch => ?_⟩
    · obtain hcall | hcall := List.mem_append.mp hcall
      · exact h.range call hcall ticket ht
      · obtain rfl := List.mem_singleton.mp hcall
        cases ht
    · obtain ⟨call, hcall, hrx⟩ := h.owned rx ch hch
      exact ⟨call, List.mem_append_left _ hcall, hrx⟩
  | requestStep hk hstep => exact h.requestStep hk hstep
  | close => exact ⟨h.drawn, h.range, h.distinct, h.owned⟩
  | closeStep hnext =>
    obtain ⟨connected, writer, reader, pendingLocked, -, rfl⟩ | rfl := Closing.next_cases hnext <;>
      exact ⟨h.drawn, h.range, h.distinct, h.owned⟩
  | read hnext =>
    cases ReadLoop.steps_of_next hnext with
    | delivered =>
      refine ⟨h.drawn, h.range, h.distinct, fun rx' ch hch => ?_⟩
      rw [List.getElem?_modify] at hch
      obtain ⟨ch', hch', -⟩ := Option.map_eq_some_iff.mp hch
      exact h.owned rx' ch' hch'
    | taken | goesOn | failed | ended => exact ⟨h.drawn, h.range, h.distinct, h.owned⟩

/-- As long as the counter has not come round, a sender under the id of a call is the one
of that call's channel. -/
theorem entry_own (hp : client.Paired X) (hn : client.Numbered first)
    (few : client.requests.length ≤ 2 ^ 64) (hcall : call ∈ client.requests)
    (ht : call.state.ticket = some ticket)
    (hrx : client.conn.pending[requestId ticket]? = some rx) :
    call.state.rx = some rx ∧ client.conn.channels[rx]? = some ⟨requestId ticket, none⟩ := by
  have hch := hp.conn.entries _ rx hrx
  obtain ⟨call', hcall', hrx'⟩ := hn.owned rx _ hch
  obtain ⟨ticket', value, ht', hch'⟩ := (hp.requests call' hcall').channel rx hrx'
  have hid : requestId ticket = requestId ticket' := by
    rw [hch] at hch'
    exact (Oneshot.mk.inj (Option.some.inj hch')).1
  have hmod : ticket % 2 ^ 64 = ticket' % 2 ^ 64 := Nat.repr_inj.mp hid
  have hsame : ticket = ticket' := by
    have hr := hn.range call hcall ticket ht
    have hr' := hn.range call' hcall' ticket' ht'
    have hd := hn.drawn
    have hl := List.length_filterMap_le (·.state.ticket) client.requests
    omega
  subst hsame
  obtain ⟨k, hk⟩ := List.getElem?_of_mem hcall
  obtain ⟨k', hk'⟩ := List.getElem?_of_mem hcall'
  obtain rfl := index_of_nodup hn.distinct hk hk' ht ht'
  obtain rfl := Option.some.inj (hk.symm.trans hk')
  exact ⟨hrx', hch⟩

theorem not_pending_of_unregistered (hp : client.Paired X) (hn : client.Numbered first)
    (few : client.requests.length ≤ 2 ^ 64) {call : RequestCall} (hcall : call ∈ client.requests)
    {ticket : Nat} (ht : call.state.ticket = some ticket) (hrx : call.state.rx = none) :
    requestId ticket ∉ client.conn.pending := by
  intro hmem
  obtain ⟨rx, hentry⟩ := ClientConnection.pending_iff.mp hmem
  cases hrx.symm.trans (entry_own hp hn few hcall ht hentry).1

theorem not_pending_of_settled (hp : client.Paired X) (hn : client.Numbered first)
    (few : client.requests.length ≤ 2 ^ 64) {call : RequestCall} (hcall : call ∈ client.requests)
    {ticket rx : Nat} (ht : call.state.ticket = some ticket) (hrx : call.state.rx = some rx)
    (hsettled : (client.conn.channels[rx]?.bind Oneshot.value).isSome = true ∨
      rx ∉ client.conn.pending.values) : requestId ticket ∉ client.conn.pending := by
  intro hmem
  obtain ⟨rx', hentry⟩ := ClientConnection.pending_iff.mp hmem
  obtain ⟨hrx', hch⟩ := entry_own hp hn few hcall ht hentry
  obtain rfl : rx = rx' := Option.some.inj (hrx.symm.trans hrx')
  obtain hfull | hgone := hsettled
  · simp [hch] at hfull
  · exact hgone (Table.mem_values.mpr ⟨_, hentry⟩)

/-! ## One step -/

/-- A step that adds no entry is clean if the call that takes it leaves none. -/
theorem clean_iff_of_keeps (h : client.Clean) {call' : RequestCall}
    (hk : client.requests[k]? = some call) (hkeeps : client.conn.Keeps conn)
    (hdown : conn.connected = client.conn.connected) :
    Clean { client with conn, requests := client.requests.set k call' } ↔
      ∀ ticket, call'.state.left = some ticket → requestId ticket ∉ conn.pending := by
  obtain ⟨xs, ys, hsplit, hset⟩ := getElem?_split hk
  have hfewer : ∀ id, id ∈ conn.pending → id ∈ client.conn.pending := by
    intro id hmem
    obtain ⟨rx, hentry⟩ := ClientConnection.pending_iff.mp hmem
    exact ClientConnection.pending_iff.mpr ⟨rx, hkeeps.pending id rx hentry⟩
  constructor
  · exact fun hclean => hclean.calls call' (hset call' ▸ by simp)
  · refine fun hcall => ⟨?_, fun hended => ?_⟩
    · simp only [hset]
      refine forall_replace (t := call) (fun u hu ticket ht hmem => ?_) hcall
      exact h.calls u (hsplit ▸ hu) ticket ht (hfewer _ hmem)
    · obtain ⟨hconnected, hempty⟩ := h.loop hended
      refine ⟨hdown.trans hconnected, ?_⟩
      refine Std.ExtTreeMap.eq_empty_iff_forall_not_mem.mpr fun id hmem => ?_
      have := hfewer id hmem
      simp [hempty] at this

/-- A request that registers does so under an id that no other call has. -/
theorem clean_iff_of_registers (hp : Paired X client') (hn : client'.Numbered first)
    (few : client'.requests.length ≤ 2 ^ 64) (h : client.Clean) {encoded : Bytes}
    (hk : client.requests[k]? = some call)
    (hclient : client' = { client with
      conn := client.conn.registered ticket
      requests := client.requests.set k
        { call with state := .registered ticket client.conn.channels.length encoded } }) :
    client'.Clean ↔ client.readLoop.ended = false := by
  subst hclient
  obtain ⟨xs, ys, hsplit, hset⟩ := getElem?_split hk
  constructor
  · intro hclean
    rw [← Bool.not_eq_true]
    intro hended
    obtain ⟨-, hempty⟩ := hclean.loop hended
    simp [ClientConnection.registered] at hempty
  · refine fun hgoes => ⟨fun u hu left hleft hmem => ?_, fun hended => ?_⟩
    · obtain ⟨rx, hentry⟩ := ClientConnection.pending_iff.mp hmem
      obtain ⟨hrx, -⟩ := entry_own hp hn few hu (RequestState.ticket_of_left hleft) hentry
      have hapart := hp.apart
      simp only [hset] at hu hapart
      obtain rfl | hu := mem_replace hu
      · cases hleft
      · obtain ⟨-, rfl⟩ | ⟨-, hold⟩ := Table.found_insert hentry
        · exact others_of_nodup hapart rfl u hu hrx
        · exact h.calls u (hsplit ▸ mem_of_others call hu) left hleft
            (ClientConnection.pending_iff.mpr ⟨rx, hold⟩)
    · cases hgoes.symm.trans hended

theorem clean_iff_of_requestStep (hp : Paired X client') (hn : client'.Numbered first)
    (few : client'.requests.length ≤ 2 ^ 64) (h : client.Clean) {op : RequestOp}
    (hk : client.requests[k]? = some call) {state : RequestState}
    (hs : call.Steps X client.conn op conn state)
    (hclient : client' = { client with
      conn, requests := client.requests.set k { call with state } }) :
    client'.Clean ↔ call.tidy client.conn client.readLoop.ended op = true := by
  obtain ⟨hkeeps, -⟩ | ⟨rfl, ticket, encoded, hstate, rfl, rfl⟩ := hs.keeps_or_registers
  · have hdown : conn.connected = client.conn.connected := by cases hs <;> rfl
    rw [hclient, clean_iff_of_keeps h hk hkeeps hdown]
    subst hclient
    have hmem : { call with state } ∈ client.requests.set k { call with state } :=
      List.mem_set (List.getElem?_eq_some_iff.mp hk).1 _
    cases hs
    case refused hstate _ | checked hstate _ | locked hstate _ =>
      exact iff_of_true nofun (by simp [RequestCall.tidy, hstate])
    case unencoded hstate _ _ =>
      refine iff_of_true (fun ticket hleft => ?_) (by simp [RequestCall.tidy, hstate])
      exact not_pending_of_unregistered hp hn few hmem (RequestState.ticket_of_left hleft) rfl
    case numbered hstate _ _ =>
      exact iff_of_true nofun (by simp [RequestCall.tidy, hstate])
    case registered hstate => simpa using hkeeps.channels
    case written hstate up =>
      exact iff_of_true nofun (by simp [RequestCall.tidy, hstate, up])
    case unwritten ticket rx encoded hstate e hop =>
      obtain ⟨rfl, down⟩ | rfl := hop
      · simp [RequestCall.tidy, RequestState.left, hstate, down]
      · simp [RequestCall.tidy, RequestState.left, hstate]
    case answered hstate received hvalue =>
      refine iff_of_true (fun ticket hleft => ?_) (by simp [RequestCall.tidy, hstate])
      exact not_pending_of_settled hp hn few hmem (RequestState.ticket_of_left hleft) rfl
        (.inl (by rw [hvalue]; rfl))
    case closed hstate gone =>
      refine iff_of_true (fun ticket hleft => ?_) (by simp [RequestCall.tidy, hstate])
      exact not_pending_of_settled hp hn few hmem (RequestState.ticket_of_left hleft) rfl
        (.inr gone)
    case abandoned hstate taken =>
      simp [RequestCall.tidy, RequestState.left, hstate, taken]
    case timedOut hstate free =>
      exact iff_of_true nofun (by simp [RequestCall.tidy, hstate, free])
    case removed hstate =>
      refine iff_of_true (fun ticket hleft => ?_) (by simp [RequestCall.tidy, hstate])
      cases hleft
      simp
  · rw [clean_iff_of_registers hp hn few h hk hclient]
    simp [RequestCall.tidy, hstate]

theorem Clean.fewer (h : client.Clean) {readLoop : ReadLoop}
    (hfewer : ∀ id, id ∈ conn.pending → id ∈ client.conn.pending) (hgoes : readLoop.ended = false) :
    Clean { client with conn, readLoop } := by
  refine ⟨fun call hcall ticket hleft hmem => ?_, fun hended => ?_⟩
  · exact h.calls call hcall ticket hleft (hfewer _ hmem)
  · cases hgoes.symm.trans hended

theorem Clean.ends_iff (h : client.Clean) (conn : ClientConnection) (e : ClientError)
    (hfewer : ∀ id, id ∈ conn.pending → id ∈ client.conn.pending) :
    Clean { client with conn, readLoop := .returned e } ↔
      conn.connected = false ∧ conn.pending = ∅ := by
  refine ⟨fun hclean => hclean.loop rfl, fun hdown => ⟨?_, fun _ => hdown⟩⟩
  exact fun call hcall ticket hleft hmem => h.calls call hcall ticket hleft (hfewer _ hmem)

theorem clean_iff_of_read (h : client.Clean) {op : ReadOp} {readLoop : ReadLoop}
    (hnext : client.readLoop.next X client.conn op = some (conn, readLoop)) :
    Clean { client with conn, readLoop } ↔ client.readLoop.tidy X client.conn op = true := by
  unfold ReadLoop.tidy
  rw [hnext]
  cases ReadLoop.steps_of_next hnext with
  | delivered =>
    refine iff_of_true (h.fewer (fun id hmem => ?_) rfl) rfl
    exact Std.ExtTreeMap.mem_of_mem_erase hmem
  | taken _ decoder message =>
    cases message with
    | response | event | unknown => exact iff_of_true (h.fewer (fun _ hmem => hmem) rfl) rfl
  | goesOn decoder pendingLocked hloop =>
    obtain rfl | rfl | rfl | ⟨n, r, -, rfl⟩ := hloop <;>
      exact iff_of_true (h.fewer (fun _ hmem => hmem) rfl) rfl
  | failed hop decoder e =>
    rw [h.ends_iff { client.conn with decoder } e fun _ hmem => hmem]
    cases op with
    | next | fails => simp [and_comm]
    | data bytes =>
      cases bytes with
      | nil => exact absurd rfl hop
      | cons b bs => simp [and_comm]
  | ended =>
    rw [h.ends_iff { client.conn with connected := false } _ fun _ hmem => hmem]
    simp

theorem Clean.closeStep (h : client.Clean) {closing closing' : Closing}
    (hnext : closing.next client.conn client.readLoop = some (conn, closing'))
    (closes : List Closing) : Clean { client with conn, closes } := by
  obtain ⟨connected, writer, reader, pendingLocked, hup, rfl⟩ | rfl := Closing.next_cases hnext
  · refine ⟨h.calls, fun hended => ?_⟩
    obtain ⟨hdown, hempty⟩ := h.loop hended
    refine ⟨?_, hempty⟩
    cases connected with
    | false => rfl
    | true => exact absurd (hup rfl) (by simp [hdown])
  · refine ⟨fun call hcall ticket hleft hmem => ?_, fun hended => ⟨(h.loop hended).1, rfl⟩⟩
    simp at hmem

/-- From a clean state, a step leads to a clean state if and only if it is tidy. -/
theorem clean_iff_tidy (hp : client'.Paired X) (hn : client'.Numbered first)
    (few : client'.requests.length ≤ 2 ^ 64) (h : client.Clean)
    (hs : client.step X op = some client') : client'.Clean ↔ client.tidy X op = true := by
  cases moves_of_step hs with
  | request op params =>
    refine iff_of_true ⟨fun call hcall ticket hleft => ?_, h.loop⟩ rfl
    obtain hcall | hcall := List.mem_append.mp hcall
    · exact h.calls call hcall ticket hleft
    · obtain rfl := List.mem_singleton.mp hcall
      cases hleft
  | requestStep hk hstep =>
    rw [clean_iff_of_requestStep hp hn few h hk hstep rfl, Client.tidy, hk, Option.all_some]
  | close => exact iff_of_true ⟨h.calls, h.loop⟩ rfl
  | closeStep hnext => exact iff_of_true (h.closeStep hnext _) rfl
  | read hnext => exact clean_iff_of_read h hnext

theorem clean_new (nextId : Nat) (decoder : Decoder) : (Client.new nextId decoder).Clean := by
  refine ⟨fun call hcall => ?_, fun hended => ?_⟩
  · cases hcall
  · cases hended

theorem length_requests_of_step (hs : client.step X op = some client') :
    client.requests.length ≤ client'.requests.length := by
  cases moves_of_step hs with
  | request | requestStep => simp
  | close | closeStep | read => exact Nat.le_refl _

/-- A call that waits on a clean connection whose task has returned can return. -/
theorem Clean.returns (h : client.Clean) (hended : client.readLoop.ended = true)
    (hk : client.requests[k]? = some call) (hwaits : call.state = .waiting ticket rx) :
    ∃ client' result, client.step X (.requestStep k .next) = some client' ∧
      client'.requests[k]? =
        some { call with state := .returned (some ticket) (some rx) result } := by
  obtain ⟨-, hempty⟩ := h.loop hended
  have hlt := (List.getElem?_eq_some_iff.mp hk).1
  simp only [Client.step, hk, RequestCall.next, hwaits]
  cases (client.conn.channels[rx]?).bind Oneshot.value with
  | some received => exact ⟨_, .ok received, rfl, List.getElem?_set_self hlt⟩
  | none =>
    rw [if_neg (by simp [hempty, Table.mem_values])]
    exact ⟨_, .error .connectionClosed, rfl, List.getElem?_set_self hlt⟩

/-- A run leaves no entry of a call that has returned, and none at all on a connection that
is marked as down once the task has returned, if and only if all its steps are tidy. After
such a run with the task returned, every call that waits can return. -/
theorem nothing_pending_iff {nextId : Nat} {decoder : Decoder} {ops : List ClientOp}
    (hrun : run (Client.step X) (Client.new nextId decoder) ops = some client)
    (few : client.requests.length ≤ 2 ^ 64) :
    (Meets (Client.step X) (fun client op => ∀ client', client.step X op = some client' →
        client'.Clean) (Client.new nextId decoder) ops ↔
      Meets (Client.step X) (fun client op => client.tidy X op = true)
        (Client.new nextId decoder) ops) ∧
    (client.Clean → client.readLoop.ended = true → ∀ (k : Nat) call ticket rx,
      client.requests[k]? = some call → call.state = .waiting ticket rx →
      ∃ client' result, client.step X (.requestStep k .next) = some client' ∧
        client'.requests[k]? =
          some { call with state := .returned (some ticket) (some rx) result }) := by
  have hfew : Meets (Client.step X) (fun client op => ∃ client', client.step X op = some client' ∧
      client'.requests.length ≤ 2 ^ 64) (Client.new nextId decoder) ops :=
    meets_of_run (fun _ _ _ hs => (length_requests_of_step hs).trans) hrun few
  let P (client : Client) : Prop := client.Paired X ∧ client.Numbered nextId ∧ client.Clean
  have hfirst : P (Client.new nextId decoder) :=
    ⟨paired_new X nextId decoder, numbered_new nextId decoder, clean_new nextId decoder⟩
  refine ⟨⟨fun h => ?_, fun h => ?_⟩, fun h hended k call ticket rx => h.returns hended⟩
  · refine Meets.mono (P := P) ?_ ?_ hfirst (hfew.and h)
    · rintro c op c' ⟨hp, hn, -⟩ ⟨-, hclean⟩ hs
      exact ⟨hp.step hs, hn.step hs, hclean c' hs⟩
    · rintro c op ⟨hp, hn, hc⟩ ⟨⟨c', hs, hlen⟩, hclean⟩
      exact (clean_iff_tidy (hp.step hs) (hn.step hs) hlen hc hs).mp (hclean c' hs)
  · have hkeeps : ∀ c op c', P c → (∃ c', c.step X op = some c' ∧ c'.requests.length ≤ 2 ^ 64) ∧
        c.tidy X op = true → c.step X op = some c' → P c' := by
      rintro c op c' ⟨hp, hn, hc⟩ ⟨⟨c₁, hs₁, hlen⟩, htidy⟩ hs
      obtain rfl : c' = c₁ := Option.some.inj (hs.symm.trans hs₁)
      have hp' := hp.step hs
      have hn' := hn.step hs
      exact ⟨hp', hn', (clean_iff_tidy hp' hn' hlen hc hs).mpr htidy⟩
    refine Meets.mono (P := P) hkeeps ?_ hfirst (hfew.and h)
    rintro c op hP hgood c' hs
    exact (hkeeps c op c' hP hgood hs).2.2

end

/-- One call gets its response, and the server hangs up. -/
def served : List ClientOp :=
  .request .ping .null :: steps 0 5 ++ reads 1 ++
    .read (.data (messageFrame (responseMessage "1"))) :: reads 3 ++
    steps 0 1 ++ reads 2 ++ [.read (.data [])]

theorem nothing_pending_when_served :
    ∃ client, run (Client.step serdeClient) (Client.new 1 .new) served = some client ∧
      client.readLoop.ended = true ∧
      Meets (Client.step serdeClient) (fun client op => ∀ client',
        client.step serdeClient op = some client' → client'.Clean) (Client.new 1 .new)
        served := by
  refine run_exists (p := fun client : Client =>
    client.readLoop.ended = true ∧ client.requests.length = 1) (by decide +kernel)
    fun client hrun hp => ⟨hp.1, ?_⟩
  exact (nothing_pending_iff hrun (by rw [hp.2]; decide)).1.mpr (by decide +kernel)

/-- One call waits; the write of another fails; and bytes come that are no frame. -/
def stranded : List ClientOp :=
  .request .ping .null :: .request .ping .null :: steps 0 5 ++ steps 1 4 ++
    .requestStep 1 .writeFails :: reads 1 ++ .read (.data (List.replicate 18 0)) :: reads 1

/-- The entry of the failed request stays; the task has returned while the connection counts
as up; and the first call waits for a response that nobody will hand over. -/
theorem requests_stranded :
    ∃ client, run (Client.step serdeClient) (Client.new 1 .new) stranded = some client ∧
      (client.requests[1]?.bind (·.state.left) = some 2 ∧
        requestId 2 ∈ client.conn.pending) ∧
      (client.readLoop.ended = true ∧ client.conn.connected = true ∧
        client.conn.pending.isEmpty = false) ∧
      (client.requests[0]?.bind (·.state.left) = none ∧
        (client.step serdeClient (.requestStep 0 .next)).isNone = true) := by
  exact run_exists (p := fun client : Client =>
    (client.requests[1]?.bind (·.state.left) = some 2 ∧ requestId 2 ∈ client.conn.pending) ∧
      (client.readLoop.ended = true ∧ client.conn.connected = true ∧
        client.conn.pending.isEmpty = false) ∧
      (client.requests[0]?.bind (·.state.left) = none ∧
        (client.step serdeClient (.requestStep 0 .next)).isNone = true))
    (by decide +kernel) fun client _ hp => hp

end Client

end Rstmdb

import Rstmdb.Lib.Interleave
import Rstmdb.Client.Connection

/-! Responses and requests. A channel is made for one id and gets one response with that
id; a call waits on a channel of its own. So a call returns a response to its request, and
no response comes to two calls. -/
namespace Rstmdb

namespace RequestState

/-- The request that the call is about to write, with its number. -/
def encoded : RequestState → Option (Nat × Bytes)
  | numbered t encoded | inserting t encoded | registered t _ encoded => some (t, encoded)
  | _ => none

/-- The request has been written. -/
def sent : RequestState → Bool
  | waiting _ _ | removing _ _ => true
  | returned _ _ (.ok _) => true
  | _ => false

/-- The response that the call has returned. -/
def response : RequestState → Option (Nat × Response)
  | returned _ _ (.ok received) => some received
  | _ => none

theorem sent_of_response {state : RequestState} {received : Nat × Response}
    (h : state.response = some received) : state.sent = true := by
  unfold response at h
  split at h
  · rfl
  · cases h

end RequestState

/-- The response that the task is about to hand over. -/
def ReadLoop.response : ReadLoop → Option (Nat × Response)
  | dispatching n r | locked n r => some (n, r)
  | _ => none

namespace ClientConnection

/-! ## What the tasks keep -/

/-- The senders in the map are of empty channels made for their ids; what a channel holds
is a response with its id from among the messages; and no two hold the same. -/
structure Paired (conn : ClientConnection) : Prop where
  entries : ∀ (id : String) rx, conn.pending[id]? = some rx → conn.channels[rx]? = some ⟨id, none⟩
  values : ∀ (rx : Nat) id (n : Nat) r, conn.channels[rx]? = some ⟨id, some (n, r)⟩ →
    r.id = id ∧ conn.incoming[n]? = some (.response r)
  once : ∀ (rx rx' : Nat) id id' n r r', conn.channels[rx]? = some ⟨id, some (n, r)⟩ →
    conn.channels[rx']? = some ⟨id', some (n, r')⟩ → rx = rx'

/-- What is never taken back: channels keep their ids and what they hold, and what was
written stays. -/
structure Grows (conn conn' : ClientConnection) : Prop where
  channels : ∀ (rx : Nat) id value, conn.channels[rx]? = some ⟨id, value⟩ →
    ∃ value', conn'.channels[rx]? = some ⟨id, value'⟩ ∧ (value.isSome → value' = value)
  written : ∀ bytes ∈ conn.written, bytes ∈ conn'.written

/-- Most steps leave the channels as they are, and at most drop senders and add to what
was written and to the messages. -/
structure Keeps (conn conn' : ClientConnection) : Prop where
  channels : conn'.channels = conn.channels
  pending : ∀ (id : String) rx, conn'.pending[id]? = some rx → conn.pending[id]? = some rx
  written : conn.written <+: conn'.written
  incoming : conn.incoming <+: conn'.incoming

section
variable {conn conn' : ClientConnection}

theorem Keeps.same (channels : conn'.channels = conn.channels)
    (pending : conn'.pending = conn.pending) (written : conn'.written = conn.written)
    (incoming : conn'.incoming = conn.incoming) : conn.Keeps conn' :=
  ⟨channels, pending ▸ fun _ _ h => h, written ▸ List.prefix_rfl, incoming ▸ List.prefix_rfl⟩

theorem Keeps.grows (h : conn.Keeps conn') : conn.Grows conn' := by
  refine ⟨fun rx id value hch => ⟨value, ?_, fun _ => rfl⟩, fun _ hb => h.written.subset hb⟩
  rw [h.channels, hch]

theorem Keeps.message (h : conn.Keeps conn') {n : Nat} {message : Incoming}
    (hm : conn.incoming[n]? = some message) : conn'.incoming[n]? = some message := by
  obtain ⟨rest, hrest⟩ := h.incoming
  rw [← hrest, List.getElem?_append_left (List.getElem?_eq_some_iff.mp hm).1, hm]

theorem Paired.keeps (h : conn.Paired) (hk : conn.Keeps conn') : conn'.Paired := by
  refine ⟨?_, ?_, ?_⟩ <;> rw [hk.channels]
  · exact fun id rx hid => h.entries id rx (hk.pending id rx hid)
  · intro rx id n r hch
    obtain ⟨hid, hmessage⟩ := h.values rx id n r hch
    exact ⟨hid, hk.message hmessage⟩
  · exact h.once

theorem pending_of_erase {id id' : String} {rx : Nat}
    (h : (conn.pending.erase id)[id']? = some rx) :
    id' ≠ id ∧ conn.pending[id']? = some rx := by
  rw [Std.ExtTreeMap.getElem?_erase] at h
  split at h
  · cases h
  · rename_i hne
    exact ⟨fun he => hne (by simp [he]), h⟩

end

/-! ## A new channel -/

/-- The connection after a request has registered. -/
def registered (conn : ClientConnection) (ticket : Nat) : ClientConnection :=
  { conn with
    channels := conn.channels ++ [⟨requestId ticket, none⟩]
    pending := conn.pending.insert (requestId ticket) conn.channels.length
    pendingLocked := false }

section
variable {conn : ClientConnection} {ticket rx : Nat}

theorem registered_of_channel {ch : Oneshot} (h : conn.channels[rx]? = some ch) :
    (conn.registered ticket).channels[rx]? = some ch := by
  rw [registered, List.getElem?_append_left (List.getElem?_eq_some_iff.mp h).1, h]

theorem value_of_registered {id : String} {received : Nat × Response}
    (h : (conn.registered ticket).channels[rx]? = some ⟨id, some received⟩) :
    conn.channels[rx]? = some ⟨id, some received⟩ := by
  rw [registered, List.getElem?_append] at h
  split at h
  · exact h
  · rw [List.getElem?_singleton] at h
    split at h <;> cases h

theorem registered_grows (conn : ClientConnection) (ticket : Nat) :
    conn.Grows (conn.registered ticket) :=
  ⟨fun _ _ value h => ⟨value, registered_of_channel h, fun _ => rfl⟩, fun _ h => h⟩

theorem Paired.registered (h : conn.Paired) (ticket : Nat) : (conn.registered ticket).Paired := by
  refine ⟨fun id rx hid => ?_, fun rx id n r hch => ?_, fun rx rx' id id' n r r' hch hch' => ?_⟩
  · obtain ⟨rfl, rfl⟩ | ⟨-, hid⟩ := Table.found_insert hid
    · simp [ClientConnection.registered]
    · exact registered_of_channel (h.entries id rx hid)
  · exact h.values rx id n r (value_of_registered hch)
  · exact h.once rx rx' id id' n r r' (value_of_registered hch) (value_of_registered hch')

end

/-! ## A response -/

/-- The connection after the task has handed over a response. -/
def delivered (conn : ClientConnection) (rx n : Nat) (r : Response) : ClientConnection :=
  { conn with
    pendingLocked := false
    pending := conn.pending.erase r.id
    channels := conn.channels.modify rx fun ch => { ch with value := some (n, r) } }

section
variable {conn : ClientConnection} {rx n : Nat} {r : Response}

theorem delivered_channels (h : conn.Paired) (hrx : conn.pending[r.id]? = some rx) (rx' : Nat) :
    (conn.delivered rx n r).channels[rx']? =
      if rx' = rx then some ⟨r.id, some (n, r)⟩ else conn.channels[rx']? := by
  rw [delivered, List.getElem?_modify]
  by_cases he : rx' = rx
  · subst he
    rw [h.entries r.id rx' hrx]
    simp
  · have he' : rx ≠ rx' := fun h => he h.symm
    simp [he, he']

theorem delivered_grows (h : conn.Paired) (hrx : conn.pending[r.id]? = some rx) :
    conn.Grows (conn.delivered rx n r) := by
  refine ⟨fun rx' id value hch => ?_, fun _ h => h⟩
  rw [delivered_channels h hrx]
  split
  · rename_i he
    subst he
    rw [h.entries r.id rx' hrx] at hch
    cases hch
    exact ⟨_, rfl, nofun⟩
  · exact ⟨value, hch, fun _ => rfl⟩

theorem Paired.delivered (h : conn.Paired) (hrx : conn.pending[r.id]? = some rx)
    (message : conn.incoming[n]? = some (.response r))
    (new : ∀ (rx : Nat) id r', conn.channels[rx]? ≠ some ⟨id, some (n, r')⟩) :
    (conn.delivered rx n r).Paired := by
  refine ⟨fun id rx' hid => ?_, fun rx' id m r' hch => ?_, fun rx₁ rx₂ id₁ id₂ m r₁ r₂ h₁ h₂ => ?_⟩
  · obtain ⟨hne, hid⟩ := pending_of_erase hid
    have hch := h.entries id rx' hid
    rw [delivered_channels h hrx, if_neg ?_, hch]
    rintro rfl
    rw [h.entries r.id rx' hrx] at hch
    cases hch
    exact hne rfl
  · rw [delivered_channels h hrx] at hch
    split at hch
    · cases hch
      exact ⟨rfl, message⟩
    · exact h.values rx' id m r' hch
  · rw [delivered_channels h hrx] at h₁ h₂
    split at h₁ <;> split at h₂
    · rename_i he₁ he₂
      rw [he₁, he₂]
    · cases h₁
      exact absurd h₂ (new rx₂ id₂ r₂)
    · cases h₂
      exact absurd h₁ (new rx₁ id₁ r₁)
    · exact h.once rx₁ rx₂ id₁ id₂ m r₁ r₂ h₁ h₂

end

end ClientConnection

/-! ## Requests -/

/-- A call that waits or has waited has a channel made for its id; if it has returned a
response, that channel holds it; and what it has sent was written. -/
structure RequestCall.Tied (X : ClientExternals) (conn : ClientConnection) (call : RequestCall) :
    Prop where
  channel : ∀ rx, call.state.rx = some rx → ∃ ticket value, call.state.ticket = some ticket ∧
    conn.channels[rx]? = some ⟨requestId ticket, value⟩
  response : ∀ received, call.state.response = some received → ∃ rx id,
    call.state.rx = some rx ∧ conn.channels[rx]? = some ⟨id, some received⟩
  encoded : ∀ ticket encoded, call.state.encoded = some (ticket, encoded) →
    X.encodeRequest ⟨requestId ticket, call.op, call.params⟩ = .ok encoded
  sent : call.state.sent = true → ∃ ticket encoded, call.state.ticket = some ticket ∧
    X.encodeRequest ⟨requestId ticket, call.op, call.params⟩ = .ok encoded ∧
      encoded ∈ conn.written

namespace RequestCall

section
variable {X : ClientExternals} {conn conn' : ClientConnection} {call : RequestCall}
  {state : RequestState} {op : RequestOp}

theorem Tied.grows (h : call.Tied X conn) (hg : conn.Grows conn') : call.Tied X conn' := by
  refine ⟨fun rx hrx => ?_, fun received hr => ?_, h.encoded, fun hs => ?_⟩
  · obtain ⟨ticket, value, ht, hch⟩ := h.channel rx hrx
    obtain ⟨value', hch', -⟩ := hg.channels rx _ _ hch
    exact ⟨ticket, value', ht, hch'⟩
  · obtain ⟨rx, id, hrx, hch⟩ := h.response received hr
    obtain ⟨value', hch', hsame⟩ := hg.channels rx _ _ hch
    rw [hsame rfl] at hch'
    exact ⟨rx, id, hrx, hch'⟩
  · obtain ⟨ticket, encoded, ht, he, hw⟩ := h.sent hs
    exact ⟨ticket, encoded, ht, he, hg.written _ hw⟩

/-- A call without a channel has nothing to account for but what it is about to write. -/
theorem Tied.of_unregistered (hrx : state.rx = none) (hresponse : state.response = none)
    (hsent : state.sent = false)
    (encoded : ∀ ticket encoded, state.encoded = some (ticket, encoded) →
      X.encodeRequest ⟨requestId ticket, call.op, call.params⟩ = .ok encoded) :
    Tied X conn { call with state } := by
  refine ⟨fun rx hr => ?_, fun received hr => ?_, encoded, fun hs => ?_⟩
  · cases hrx.symm.trans hr
  · cases hresponse.symm.trans hr
  · cases hsent.symm.trans hs

theorem Tied.moves (h : call.Tied X conn) (hrx : state.rx = call.state.rx)
    (hticket : state.ticket = call.state.ticket) (hresponse : state.response = none)
    (hencoded : state.encoded = none) (hsent : state.sent = true → call.state.sent = true) :
    Tied X conn { call with state } := by
  refine ⟨fun rx hr => ?_, fun received hr => ?_, fun ticket encoded he => ?_, fun hs => ?_⟩
  · obtain ⟨ticket, value, ht, hch⟩ := h.channel rx (hrx.symm.trans hr)
    exact ⟨ticket, value, hticket.trans ht, hch⟩
  · cases hresponse.symm.trans hr
  · cases hencoded.symm.trans he
  · obtain ⟨ticket, encoded, ht, he, hw⟩ := h.sent (hsent hs)
    exact ⟨ticket, encoded, hticket.trans ht, he, hw⟩

section
variable (hs : call.Steps X conn op conn' state)
include hs

theorem Steps.keeps_or_registers :
    conn.Keeps conn' ∧ state.rx = call.state.rx ∨ op = .next ∧ ∃ ticket encoded,
      call.state = .inserting ticket encoded ∧ conn' = conn.registered ticket ∧
        state = .registered ticket conn.channels.length encoded := by
  cases hs
  case registered ticket encoded hstate =>
    exact .inr ⟨rfl, ticket, encoded, hstate, rfl, rfl⟩
  case written hstate _ =>
    exact .inl ⟨⟨rfl, fun _ _ h => h, List.prefix_append _ _, List.prefix_rfl⟩, hstate ▸ rfl⟩
  case removed hstate =>
    exact .inl ⟨⟨rfl, fun _ _ h => (ClientConnection.pending_of_erase h).2, List.prefix_rfl,
      List.prefix_rfl⟩, hstate ▸ rfl⟩
  case unencoded hstate _ _ | numbered hstate _ _ | unwritten hstate _ _ | answered hstate _ _ =>
    exact .inl ⟨.same rfl rfl rfl rfl, hstate ▸ rfl⟩
  case refused hstate _ | checked hstate _ | locked hstate _ | closed hstate _ |
      abandoned hstate _ | timedOut hstate _ =>
    exact .inl ⟨.same rfl rfl rfl rfl, hstate ▸ rfl⟩

theorem Steps.incoming_eq : conn'.incoming = conn.incoming := by
  cases hs <;> rfl

theorem Steps.grows : conn.Grows conn' := by
  obtain ⟨hk, -⟩ | ⟨-, ticket, -, -, rfl, -⟩ := hs.keeps_or_registers
  · exact hk.grows
  · exact ClientConnection.registered_grows conn ticket

theorem Steps.tied (h : call.Tied X conn) : Tied X conn' { call with state } := by
  have h' := h.grows hs.grows
  cases hs
  case refused hstate _ | checked hstate _ | unencoded hstate _ _ =>
    exact .of_unregistered rfl rfl rfl nofun
  case numbered hstate encoded he =>
    refine .of_unregistered rfl rfl rfl fun ticket encoded h => ?_
    cases h
    exact he
  case locked hstate _ =>
    refine .of_unregistered rfl rfl rfl fun ticket encoded h => ?_
    cases h
    exact h'.encoded _ _ (by rw [hstate]; rfl)
  case registered ticket encoded hstate =>
    refine ⟨fun rx hr => ?_, nofun, fun ticket encoded h => ?_, nofun⟩
    · cases hr
      exact ⟨ticket, none, rfl, by simp⟩
    · cases h
      exact h'.encoded _ _ (by rw [hstate]; rfl)
  case written ticket rx encoded hstate _ =>
    refine ⟨fun rx hr => ?_, nofun, nofun, fun _ => ⟨ticket, encoded, rfl, ?_, by simp⟩⟩
    · obtain ⟨ticket, value, ht, hch⟩ := h'.channel rx (by rw [hstate]; exact hr)
      rw [hstate] at ht
      exact ⟨ticket, value, ht, hch⟩
    · exact h'.encoded _ _ (by rw [hstate]; rfl)
  case answered ticket rx hstate received hvalue =>
    obtain ⟨ticket', value, ht, hch⟩ := h'.channel rx (by rw [hstate]; rfl)
    obtain rfl : ticket = ticket' := by rw [hstate] at ht; cases ht; rfl
    obtain rfl : value = some received := by rw [hch] at hvalue; exact hvalue
    refine ⟨fun rx hr => ?_, fun received hr => ?_, nofun, fun _ => ?_⟩
    · cases hr
      exact ⟨ticket, _, rfl, hch⟩
    · cases hr
      exact ⟨rx, _, rfl, hch⟩
    · obtain ⟨ticket', encoded, ht, he, hw⟩ := h'.sent (by rw [hstate]; rfl)
      rw [hstate] at ht
      exact ⟨ticket', encoded, ht, he, hw⟩
  case timedOut hstate _ =>
    exact h'.moves (hstate ▸ rfl) (hstate ▸ rfl) rfl rfl fun _ => hstate ▸ rfl
  case unwritten hstate _ _ =>
    exact h'.moves (hstate ▸ rfl) (hstate ▸ rfl) rfl rfl nofun
  case closed hstate _ | abandoned hstate _ =>
    exact h'.moves (hstate ▸ rfl) (hstate ▸ rfl) rfl rfl nofun
  case removed hstate =>
    exact h'.moves (hstate ▸ rfl) (hstate ▸ rfl) rfl rfl nofun

end

end

end RequestCall

/-! ## The reading task -/

/-- The response on its way is among the messages, and no channel holds it. -/
structure ReadLoop.Carries (conn : ClientConnection) (loop : ReadLoop) : Prop where
  message : ∀ n r, loop.response = some (n, r) → conn.incoming[n]? = some (.response r)
  new : ∀ n r, loop.response = some (n, r) →
    ∀ (rx : Nat) id r', conn.channels[rx]? ≠ some ⟨id, some (n, r')⟩

namespace ReadLoop

section
variable {X : ClientExternals} {conn conn' : ClientConnection} {loop loop' : ReadLoop}

theorem Carries.of_none (h : loop.response = none) : loop.Carries conn := by
  refine ⟨fun n r hr => ?_, fun n r hr => ?_⟩ <;> cases h.symm.trans hr

theorem Carries.keeps (h : loop.Carries conn) (hk : conn.Keeps conn') : loop.Carries conn' := by
  refine ⟨fun n r hr => hk.message (h.message n r hr), ?_⟩
  rw [hk.channels]
  exact h.new

theorem Carries.registered (h : loop.Carries conn) (ticket : Nat) :
    loop.Carries (conn.registered ticket) :=
  ⟨h.message, fun n r hr rx id r' hch =>
    h.new n r hr rx id r' (ClientConnection.value_of_registered hch)⟩

/-- A message has a place that no response in a channel has. -/
theorem Carries.arrives (hc : conn.Paired) {decoder : Decoder} {r : Response} :
    (dispatching conn.incoming.length r).Carries
      { conn with decoder, incoming := conn.incoming ++ [.response r] } := by
  refine ⟨fun n r hr => ?_, fun n r hr rx id r' hch => ?_⟩
  · cases hr
    simp
  · cases hr
    obtain ⟨-, hold⟩ := hc.values rx id _ r' hch
    simp at hold

/-- One step of the task keeps what the channels hold, but for a response it hands over. -/
theorem next_keeps {op : ReadOp} (h : loop.next X conn op = some (conn', loop'))
    (hc : conn.Paired) (hl : loop.Carries conn) :
    conn'.Paired ∧ loop'.Carries conn' ∧ conn.Grows conn' := by
  cases steps_of_next h with
  | @delivered n rx r _ hloop hrx =>
    subst hloop
    exact ⟨hc.delivered hrx (hl.message n r rfl) (hl.new n r rfl), .of_none rfl,
      ClientConnection.delivered_grows hc hrx⟩
  | taken _ decoder message =>
    have hk : conn.Keeps { conn with decoder, incoming := conn.incoming ++ [message] } :=
      ⟨rfl, fun _ _ h => h, List.prefix_rfl, List.prefix_append _ _⟩
    refine ⟨hc.keeps hk, ?_, hk.grows⟩
    cases message with
    | response r => exact .arrives hc
    | event | unknown => exact .of_none rfl
  | goesOn decoder pendingLocked hloop =>
    have hk : conn.Keeps { conn with decoder, pendingLocked } := .same rfl rfl rfl rfl
    refine ⟨hc.keeps hk, ?_, hk.grows⟩
    obtain rfl | rfl | rfl | ⟨n, r, rfl, rfl⟩ := hloop
    · exact .of_none rfl
    · exact .of_none rfl
    · exact .of_none rfl
    · have hl' := hl.keeps hk
      exact ⟨hl'.message, hl'.new⟩
  | failed | ended =>
    exact ⟨hc.keeps (.same rfl rfl rfl rfl), .of_none rfl,
      ClientConnection.Keeps.grows (.same rfl rfl rfl rfl)⟩

end

end ReadLoop

variable {conn conn' : ClientConnection} {loop : ReadLoop} {closing closing' : Closing}

theorem Closing.next_keeps (h : closing.next conn loop = some (conn', closing')) :
    conn.Keeps conn' := by
  obtain ⟨connected, writer, reader, pendingLocked, -, rfl⟩ | rfl := next_cases h
  · exact .same rfl rfl rfl rfl
  · exact ⟨rfl, fun id rx h => by simp at h, List.prefix_rfl, List.prefix_rfl⟩

theorem Closing.incoming_eq (h : closing.next conn loop = some (conn', closing')) :
    conn'.incoming = conn.incoming := by
  obtain ⟨connected, writer, reader, pendingLocked, -, rfl⟩ | rfl := next_cases h <;> rfl

/-! ## All together -/

namespace Client

/-- Every call is tied to a channel of its own. -/
structure Paired (X : ClientExternals) (client : Client) : Prop where
  conn : client.conn.Paired
  loop : client.readLoop.Carries client.conn
  requests : ∀ call ∈ client.requests, call.Tied X client.conn
  apart : (client.requests.filterMap (·.state.rx)).Nodup

section
variable {X : ClientExternals} {client client' : Client}

theorem paired_new (X : ClientExternals) (nextId : Nat) (decoder : Decoder) :
    (Client.new nextId decoder).Paired X := by
  refine ⟨⟨?_, ?_, ?_⟩, .of_none rfl, ?_, ?_⟩ <;> simp [Client.new]

theorem Paired.requestStep (h : client.Paired X) {k : Nat} {op : RequestOp} {call : RequestCall}
    (hk : client.requests[k]? = some call) {conn : ClientConnection} {state : RequestState}
    (hs : call.Steps X client.conn op conn state) :
    Paired X { client with conn, requests := client.requests.set k { call with state } } := by
  obtain ⟨xs, ys, hsplit, hset⟩ := getElem?_split hk
  have hcall := h.requests call (List.mem_of_getElem? hk)
  have hrequests : ∀ u ∈ xs ++ { call with state } :: ys, u.Tied X conn := by
    refine forall_replace (t := call) (fun u hu => ?_) (hs.tied hcall)
    exact (h.requests u (hsplit ▸ hu)).grows hs.grows
  have hapart := h.apart
  rw [hsplit] at hapart
  obtain ⟨hkeeps, hrx⟩ | ⟨-, ticket, encoded, hstate, rfl, rfl⟩ := hs.keeps_or_registers
  · refine ⟨h.conn.keeps hkeeps, h.loop.keeps hkeeps, hset _ ▸ hrequests, hset _ ▸ ?_⟩
    exact nodup_replace hapart fun rx hr => .inl (hrx.symm.trans hr)
  · refine ⟨h.conn.registered ticket, h.loop.registered ticket, hset _ ▸ hrequests, hset _ ▸ ?_⟩
    refine nodup_replace hapart fun rx hr => .inr fun u hu hheld => ?_
    -- The channel is new, and another call's channel is one of those there.
    cases hr
    obtain ⟨_, _, -, hch⟩ := (h.requests u (hsplit ▸ mem_of_others call hu)).channel _ hheld
    simp at hch

theorem Paired.step (h : client.Paired X) {op : ClientOp} (hs : client.step X op = some client') :
    client'.Paired X := by
  cases moves_of_step hs with
  | request op params =>
    refine ⟨h.conn, h.loop, fun call hcall => ?_, ?_⟩
    · obtain hcall | hcall := List.mem_append.mp hcall
      · exact h.requests call hcall
      · obtain rfl := List.mem_singleton.mp hcall
        let call : RequestCall := ⟨op, params, .begun⟩
        have hbegun : RequestCall.Tied X client.conn { call with state := .begun } :=
          .of_unregistered rfl rfl rfl nofun
        exact hbegun
    · simpa [RequestState.rx] using h.apart
  | requestStep hk hstep => exact h.requestStep hk hstep
  | close => exact ⟨h.conn, h.loop, h.requests, h.apart⟩
  | closeStep hnext =>
    have hk := Closing.next_keeps hnext
    exact ⟨h.conn.keeps hk, h.loop.keeps hk,
      fun call hcall => (h.requests call hcall).grows hk.grows, h.apart⟩
  | read hnext =>
    obtain ⟨hconn, hloop, hg⟩ := ReadLoop.next_keeps hnext h.conn h.loop
    exact ⟨hconn, hloop, fun call hcall => (h.requests call hcall).grows hg, h.apart⟩

theorem paired_of_run {nextId : Nat} {decoder : Decoder} {ops : List ClientOp}
    (hrun : run (Client.step X) (Client.new nextId decoder) ops = some client) : client.Paired X :=
  run_keeps (fun _ _ _ h hs => h.step hs) (paired_new X nextId decoder) hrun

end

/-- What has come for a call, with its place among the messages. -/
def delivered (client : Client) (k : Nat) : Option (Nat × Response) :=
  ((client.requests[k]?.bind (·.state.rx)).bind (client.conn.channels[·]?)).bind Oneshot.value

section
variable {X : ClientExternals} {client client' : Client}

theorem delivered_eq_some {k : Nat} {received : Nat × Response} :
    client.delivered k = some received ↔ ∃ call rx id, client.requests[k]? = some call ∧
      call.state.rx = some rx ∧ client.conn.channels[rx]? = some ⟨id, some received⟩ := by
  simp only [delivered, Option.bind_eq_some_iff]
  constructor
  · rintro ⟨⟨id, value⟩, ⟨rx, ⟨call, hk, hrx⟩, hch⟩, rfl⟩
    exact ⟨call, rx, id, hk, hrx, hch⟩
  · rintro ⟨call, rx, id, hk, hrx, hch⟩
    exact ⟨⟨id, some received⟩, ⟨rx, ⟨call, hk, hrx⟩, hch⟩, rfl⟩

/-- What comes for a call has its id and is a response of the server. -/
theorem Paired.delivered_own (h : client.Paired X) {k n : Nat} {r : Response}
    (hd : client.delivered k = some (n, r)) :
    ∃ call ticket, client.requests[k]? = some call ∧ call.state.ticket = some ticket ∧
      r.id = requestId ticket ∧ client.conn.incoming[n]? = some (.response r) := by
  obtain ⟨call, rx, id, hk, hrx, hch⟩ := delivered_eq_some.mp hd
  obtain ⟨ticket, value, ht, hch'⟩ := (h.requests call (List.mem_of_getElem? hk)).channel rx hrx
  obtain ⟨hid, hmessage⟩ := h.conn.values rx id n r hch
  rw [hch] at hch'
  cases hch'
  exact ⟨call, ticket, hk, ht, hid, hmessage⟩

/-- No message comes for two calls. -/
theorem Paired.delivered_once (h : client.Paired X) {k k' n : Nat} {r r' : Response}
    (hd : client.delivered k = some (n, r)) (hd' : client.delivered k' = some (n, r')) :
    k = k' := by
  obtain ⟨call, rx, id, hk, hrx, hch⟩ := delivered_eq_some.mp hd
  obtain ⟨call', rx', id', hk', hrx', hch'⟩ := delivered_eq_some.mp hd'
  obtain rfl := h.conn.once rx rx' id id' n r r' hch hch'
  exact index_of_nodup h.apart hk hk' hrx hrx'

theorem step_of_event {op : ClientOp} {e : StreamEvent} (hs : client.step X op = some client')
    (hevent : client'.conn.incoming = client.conn.incoming ++ [.event e]) :
    client'.requests = client.requests ∧ client'.conn.channels = client.conn.channels ∧
      client'.conn.pending = client.conn.pending := by
  have hmore : client'.conn.incoming ≠ client.conn.incoming := by simp [hevent]
  cases moves_of_step hs with
  | request | close => exact absurd rfl hmore
  | requestStep hk hstep => exact absurd hstep.incoming_eq hmore
  | closeStep hnext => exact absurd (Closing.incoming_eq hnext) hmore
  | read hnext =>
    cases ReadLoop.steps_of_next hnext with
    | taken => exact ⟨rfl, rfl, rfl⟩
    | delivered | goesOn | failed | ended => exact absurd rfl hmore

/-- Any number of calls, in any order of their steps, of the pieces of the stream and of
the messages in it: a call that returns a response returns one with the id of the request
that it wrote; a response comes for one call only; and an event comes for none. -/
theorem responses_reach_their_requests {nextId : Nat} {decoder : Decoder} {ops : List ClientOp}
    (hrun : run (Client.step X) (Client.new nextId decoder) ops = some client) :
    (∀ (k : Nat) call n r, client.requests[k]? = some call →
      call.state.response = some (n, r) → client.delivered k = some (n, r) ∧
        ∃ ticket encoded, call.state.ticket = some ticket ∧ r.id = requestId ticket ∧
          X.encodeRequest ⟨requestId ticket, call.op, call.params⟩ = .ok encoded ∧
          encoded ∈ client.conn.written) ∧
      (∀ k n r, client.delivered k = some (n, r) →
        client.conn.incoming[n]? = some (.response r) ∧
          ∀ k' r', client.delivered k' = some (n, r') → k' = k) ∧
      ∀ op client' e, client.step X op = some client' →
        client'.conn.incoming = client.conn.incoming ++ [.event e] →
        client'.requests = client.requests ∧ client'.delivered = client.delivered := by
  have h : client.Paired X := paired_of_run hrun
  refine ⟨fun k call n r hk hr => ?_, fun k n r hd => ?_, fun op client' e hs hevent => ?_⟩
  · have hcall := h.requests call (List.mem_of_getElem? hk)
    obtain ⟨rx, id, hrx, hch⟩ := hcall.response (n, r) hr
    have hd : client.delivered k = some (n, r) :=
      delivered_eq_some.mpr ⟨call, rx, id, hk, hrx, hch⟩
    obtain ⟨call', ticket, hk', ht, hid, -⟩ := h.delivered_own hd
    obtain rfl : call = call' := Option.some.inj (hk.symm.trans hk')
    obtain ⟨ticket', encoded, ht', he, hw⟩ := hcall.sent (RequestState.sent_of_response hr)
    obtain rfl : ticket = ticket' := Option.some.inj (ht.symm.trans ht')
    exact ⟨hd, ticket, encoded, ht, hid, he, hw⟩
  · obtain ⟨-, -, -, -, -, hmessage⟩ := h.delivered_own hd
    exact ⟨hmessage, fun k' r' hd' => h.delivered_once hd' hd⟩
  · obtain ⟨hrequests, hchannels, -⟩ := step_of_event hs hevent
    refine ⟨hrequests, funext fun k => ?_⟩
    rw [delivered, delivered, hrequests, hchannels]

end

/-! Two calls, whose responses come the other way round, after an event, in two pieces. -/

def eventMessage : Json.Value :=
  .object [("type", .string "event"), ("subscription_id", .string "s"),
    ("instance_id", .string "i"), ("machine", .string "m"), ("version", .nat 1),
    ("wal_offset", .nat 0), ("from_state", .string "a"), ("to_state", .string "b"),
    ("event", .string "go")]

def responseMessage (id : String) : Json.Value := (Response.succeeded id .null).toJson

/-- The checksum, and `serde_json` where these messages are the only ones that are read. -/
def serdeClient : ClientExternals where
  crc32c := crc32c
  toVec := Json.toVec
  fromStr text :=
    match [eventMessage, responseMessage "1", responseMessage "2"].find? fun msg =>
        strFromUtf8 (Json.toVec msg) = some text with
    | some msg => .ok msg
    | none => .error "expected value at line 1 column 1"
  readResponse msg :=
    match (msg.index "id").asStr with
    | some id => .ok (.succeeded id (msg.index "result"))
    | none => .error "missing field id"
  readEvent _ := .ok ⟨"s", "i", "m", 1, 0, "a", "b", "go", none, none⟩

def messageFrame (msg : Json.Value) : Bytes :=
  match (Frame.new (serdeClient.toVec msg)).encode serdeClient.crc32c with
  | .ok bytes => bytes
  | .error _ => []

def steps (k n : Nat) : List ClientOp := List.replicate n (.requestStep k .next)

def reads (n : Nat) : List ClientOp := List.replicate n (.read .next)

def crossed : List ClientOp :=
  let bytes := messageFrame eventMessage ++ messageFrame (responseMessage "2") ++
    messageFrame (responseMessage "1")
  .request .ping .null :: .request .info .null :: steps 0 5 ++ steps 1 5 ++ reads 1 ++
    .read (.data (bytes.take 200)) :: reads 3 ++ .read (.data (bytes.drop 200)) :: reads 6 ++
    steps 0 1 ++ steps 1 1

set_option maxRecDepth 4000 in
theorem crossed_responses_reach_their_requests :
    ∃ client, run (Client.step serdeClient) (Client.new 1 .new) crossed = some client ∧
      client.requests.map (fun call => call.state.response.map fun (n, r) => (n, r.id)) =
        [some (2, "1"), some (1, "2")] ∧
      ∀ k n r, client.delivered k = some (n, r) →
        client.conn.incoming[n]? = some (.response r) ∧
          ∀ k' r', client.delivered k' = some (n, r') → k' = k := by
  refine run_exists (p := fun client : Client =>
    client.requests.map (fun call => call.state.response.map fun (n, r) => (n, r.id)) =
      [some (2, "1"), some (1, "2")]) (by decide +kernel) fun client hrun hp => ⟨hp, ?_⟩
  exact (responses_reach_their_requests hrun).2.1

end Client

end Rstmdb

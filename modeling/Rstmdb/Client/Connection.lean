import Rstmdb.Lib.OrderedMap
import Rstmdb.Lib.Runs
import Rstmdb.Protocol.Codec

/-! The client's side of a connection. Any number of requests share it with one reading
task: a request leaves the sender of a channel in the map of pending requests, and the
task takes it out when the response comes. Each step here is one access to what they
share. -/
namespace Rstmdb
open Json (Value)

/-- The checksum, `serde_json::to_vec` and `serde_json::from_str`, and the derived
deserializers of the messages that a client gets. -/
structure ClientExternals where
  crc32c : Bytes → UInt32
  toVec : Value → Bytes
  fromStr : String → Except String Value
  readResponse : Value → Except String Response
  readEvent : Value → Except String StreamEvent

inductive ClientError
  | notConnected
  | io
  | timeout
  | connectionClosed
  | protocol (e : ProtocolError)
  | json (message : String)
  deriving DecidableEq, Repr

/-- `Encoder::encode_request`. -/
def ClientExternals.encodeRequest (X : ClientExternals) (request : Request) :
    Except ProtocolError Bytes :=
  (Frame.new (X.toVec request.toJson)).encode X.crc32c

/-- A message of the server. Events go out to those who subscribed to them. -/
inductive Incoming
  | response (r : Response)
  | event (e : StreamEvent)
  | unknown (msgType : String)

/-- The message in a frame. -/
def readIncoming (X : ClientExternals) (frame : Frame) : Except ClientError Incoming :=
  match strFromUtf8 frame.payload with
  | none => .error (.protocol .invalidUtf8)
  | some payload =>
    match X.fromStr payload with
    | .error message => .error (.json message)
    | .ok msg =>
      let msgType := ((msg.index "type").asStr).getD ""
      if msgType = "response" then ((X.readResponse msg).mapError .json).map .response
      else if msgType = "event" then ((X.readEvent msg).mapError .json).map .event
      else .ok (.unknown msgType)

/-- A oneshot channel: the id of the request it was made for, and the response that was
sent through it, with its place among the messages. Its sender is in the map of pending
requests, or is gone. -/
structure Oneshot where
  id : String
  value : Option (Nat × Response)

/-- What the tasks share, with what was written and the messages that came. -/
structure ClientConnection where
  connected : Bool
  nextId : Nat
  writer : Bool
  reader : Bool
  decoder : Decoder
  pending : Table String Nat
  pendingLocked : Bool
  channels : List Oneshot
  written : List Bytes
  incoming : List Incoming

/-- The number that a request has drawn, as its id: the counter is an `AtomicU64`. -/
def requestId (ticket : Nat) : String := toString (ticket % 2 ^ 64)

/-! ## Requests -/

/-- Where a call of `request` is. It returns the response with its place. -/
inductive RequestState
  | begun
  | checked
  | numbered (ticket : Nat) (encoded : Bytes)
  | inserting (ticket : Nat) (encoded : Bytes)
  | registered (ticket rx : Nat) (encoded : Bytes)
  | waiting (ticket rx : Nat)
  | removing (ticket rx : Nat)
  | returned (ticket rx : Option Nat) (result : Except ClientError (Nat × Response))

namespace RequestState

def ticket : RequestState → Option Nat
  | begun | checked => none
  | numbered t _ | inserting t _ | registered t _ _ | waiting t _ | removing t _ => some t
  | returned t _ _ => t

/-- The channel on which the call waits. -/
def rx : RequestState → Option Nat
  | begun | checked | numbered _ _ | inserting _ _ => none
  | registered _ rx _ | waiting _ rx | removing _ rx => some rx
  | returned _ rx _ => rx

end RequestState

/-- A call of `request`. -/
structure RequestCall where
  op : Operation
  params : Value
  state : RequestState

/-- What a request does next, if it has a choice: its write may fail, and its time may be
up. -/
inductive RequestOp
  | next
  | writeFails
  | timeout

/-- The next step of a call of `request`; `none` is a step that has to wait. -/
def RequestCall.next (X : ClientExternals) (conn : ClientConnection) (call : RequestCall) :
    RequestOp → Option (ClientConnection × RequestState)
  | .next =>
    match call.state with
    | .begun =>
      if conn.connected then some (conn, .checked)
      else some (conn, .returned none none (.error .notConnected))
    | .checked =>
      let ticket := conn.nextId
      let conn := { conn with nextId := conn.nextId + 1 }
      match X.encodeRequest ⟨requestId ticket, call.op, call.params⟩ with
      | .error e => some (conn, .returned (some ticket) none (.error (.protocol e)))
      | .ok encoded => some (conn, .numbered ticket encoded)
    | .numbered ticket encoded =>
      if conn.pendingLocked then none
      else some ({ conn with pendingLocked := true }, .inserting ticket encoded)
    | .inserting ticket encoded =>
      let rx := conn.channels.length
      some ({ conn with
        channels := conn.channels ++ [⟨requestId ticket, none⟩]
        pending := conn.pending.insert (requestId ticket) rx
        pendingLocked := false }, .registered ticket rx encoded)
    | .registered ticket rx encoded =>
      if conn.writer then
        some ({ conn with written := conn.written ++ [encoded] }, .waiting ticket rx)
      else some (conn, .returned (some ticket) (some rx) (.error .notConnected))
    | .waiting ticket rx =>
      match (conn.channels[rx]?).bind Oneshot.value with
      | some received => some (conn, .returned (some ticket) (some rx) (.ok received))
      | none =>
        -- The channel is closed when its sender is gone.
        if rx ∈ conn.pending.values then none
        else some (conn, .returned (some ticket) (some rx) (.error .connectionClosed))
    | .removing ticket rx =>
      some ({ conn with
        pending := conn.pending.erase (requestId ticket)
        pendingLocked := false }, .returned (some ticket) (some rx) (.error .timeout))
    | .returned _ _ _ => none
  | .writeFails =>
    match call.state with
    | .registered ticket rx _ =>
      if conn.writer then some (conn, .returned (some ticket) (some rx) (.error .io)) else none
    | _ => none
  | .timeout =>
    match call.state with
    | .waiting ticket rx =>
      -- `try_lock`: the entry stays if another task has the lock.
      if conn.pendingLocked then
        some (conn, .returned (some ticket) (some rx) (.error .timeout))
      else some ({ conn with pendingLocked := true }, .removing ticket rx)
    | _ => none

/-- What a step of a call of `request` can be. -/
inductive RequestCall.Steps (X : ClientExternals) (conn : ClientConnection)
    (call : RequestCall) : RequestOp → ClientConnection → RequestState → Prop
  | refused (hstate : call.state = .begun) (down : conn.connected = false) :
      call.Steps X conn .next conn (.returned none none (.error .notConnected))
  | checked (hstate : call.state = .begun) (up : conn.connected = true) :
      call.Steps X conn .next conn .checked
  | unencoded (hstate : call.state = .checked) (e : ProtocolError)
      (he : X.encodeRequest ⟨requestId conn.nextId, call.op, call.params⟩ = .error e) :
      call.Steps X conn .next { conn with nextId := conn.nextId + 1 }
        (.returned (some conn.nextId) none (.error (.protocol e)))
  | numbered (hstate : call.state = .checked) (encoded : Bytes)
      (he : X.encodeRequest ⟨requestId conn.nextId, call.op, call.params⟩ = .ok encoded) :
      call.Steps X conn .next { conn with nextId := conn.nextId + 1 }
        (.numbered conn.nextId encoded)
  | locked {ticket : Nat} {encoded : Bytes} (hstate : call.state = .numbered ticket encoded)
      (free : conn.pendingLocked = false) :
      call.Steps X conn .next { conn with pendingLocked := true } (.inserting ticket encoded)
  | registered {ticket : Nat} {encoded : Bytes}
      (hstate : call.state = .inserting ticket encoded) :
      call.Steps X conn .next { conn with
        channels := conn.channels ++ [⟨requestId ticket, none⟩]
        pending := conn.pending.insert (requestId ticket) conn.channels.length
        pendingLocked := false } (.registered ticket conn.channels.length encoded)
  | written {ticket rx : Nat} {encoded : Bytes}
      (hstate : call.state = .registered ticket rx encoded) (up : conn.writer = true) :
      call.Steps X conn .next { conn with written := conn.written ++ [encoded] }
        (.waiting ticket rx)
  | unwritten {ticket rx : Nat} {encoded : Bytes}
      (hstate : call.state = .registered ticket rx encoded) {op : RequestOp}
      (hop : op = .next ∧ conn.writer = false ∨ op = .writeFails) (e : ClientError) :
      call.Steps X conn op conn (.returned (some ticket) (some rx) (.error e))
  | answered {ticket rx : Nat} (hstate : call.state = .waiting ticket rx)
      {received : Nat × Response}
      (hvalue : (conn.channels[rx]?).bind Oneshot.value = some received) :
      call.Steps X conn .next conn (.returned (some ticket) (some rx) (.ok received))
  | closed {ticket rx : Nat} (hstate : call.state = .waiting ticket rx)
      (gone : rx ∉ conn.pending.values) :
      call.Steps X conn .next conn
        (.returned (some ticket) (some rx) (.error .connectionClosed))
  | abandoned {ticket rx : Nat} (hstate : call.state = .waiting ticket rx)
      (taken : conn.pendingLocked = true) :
      call.Steps X conn .timeout conn (.returned (some ticket) (some rx) (.error .timeout))
  | timedOut {ticket rx : Nat} (hstate : call.state = .waiting ticket rx)
      (free : conn.pendingLocked = false) :
      call.Steps X conn .timeout { conn with pendingLocked := true } (.removing ticket rx)
  | removed {ticket rx : Nat} (hstate : call.state = .removing ticket rx) :
      call.Steps X conn .next { conn with
        pending := conn.pending.erase (requestId ticket)
        pendingLocked := false } (.returned (some ticket) (some rx) (.error .timeout))

theorem RequestCall.steps_of_next {X : ClientExternals} {conn conn' : ClientConnection}
    {call : RequestCall} {op : RequestOp} {state : RequestState}
    (h : call.next X conn op = some (conn', state)) : call.Steps X conn op conn' state := by
  cases op with
  | next =>
    simp only [RequestCall.next] at h
    split at h
    · rename_i hstate
      split at h <;> cases h
      · exact .checked hstate ‹_›
      · exact .refused hstate (by simpa using ‹¬conn.connected = true›)
    · rename_i hstate
      split at h <;> cases h
      · exact .unencoded hstate _ ‹_›
      · exact .numbered hstate _ ‹_›
    · rename_i hstate
      split at h <;> cases h
      exact .locked hstate (by simpa using ‹¬conn.pendingLocked = true›)
    · rename_i hstate
      cases h
      exact .registered hstate
    · rename_i hstate
      split at h <;> cases h
      · exact .written hstate ‹_›
      · exact .unwritten hstate (.inl ⟨rfl, by simpa using ‹¬conn.writer = true›⟩) _
    · rename_i hstate
      split at h
      · cases h
        exact .answered hstate ‹_›
      · split at h <;> cases h
        exact .closed hstate ‹_›
    · rename_i hstate
      cases h
      exact .removed hstate
    · cases h
  | writeFails =>
    simp only [RequestCall.next] at h
    split at h
    · rename_i hstate
      split at h <;> cases h
      exact .unwritten hstate (.inr rfl) _
    · cases h
  | timeout =>
    simp only [RequestCall.next] at h
    split at h
    · rename_i hstate
      split at h <;> cases h
      · exact .abandoned hstate ‹_›
      · exact .timedOut hstate (by simpa using ‹¬conn.pendingLocked = true›)
    · cases h

/-! ## The reading task -/

/-- Where `read_loop` is; a response on its way has its place among the messages. -/
inductive ReadLoop
  | idle
  | reading
  | decoding
  | dispatching (n : Nat) (r : Response)
  | locked (n : Nat) (r : Response)
  | returned (e : ClientError)

/-- What the task gets: nothing is the end of the stream, and reading may fail. -/
inductive ReadOp
  | next
  | data (bytes : Bytes)
  | fails

/-- What the task does with a frame. -/
def ReadLoop.take (X : ClientExternals) (conn : ClientConnection) (frame : Frame) :
    ClientConnection × ReadLoop :=
  match readIncoming X frame with
  | .error e => (conn, .returned e)
  | .ok message =>
    ({ conn with incoming := conn.incoming ++ [message] },
      match message with
      | .response r => .dispatching conn.incoming.length r
      | .event _ | .unknown _ => .decoding)

/-- The next step of `read_loop`. -/
def ReadLoop.next (X : ClientExternals) (conn : ClientConnection) (loop : ReadLoop) :
    ReadOp → Option (ClientConnection × ReadLoop)
  | .next =>
    match loop with
    | .idle =>
      if conn.reader then some (conn, .reading) else some (conn, .returned .notConnected)
    | .decoding =>
      match conn.decoder.decodeFrame X.crc32c with
      | (decoder, .error e) => some ({ conn with decoder }, .returned (.protocol e))
      | (decoder, .ok none) => some ({ conn with decoder }, .idle)
      | (decoder, .ok (some frame)) => some (ReadLoop.take X { conn with decoder } frame)
    | .dispatching n r =>
      if conn.pendingLocked then none else some ({ conn with pendingLocked := true }, .locked n r)
    | .locked n r =>
      let conn := { conn with pendingLocked := false }
      match conn.pending[r.id]? with
      | none => some (conn, .decoding)
      | some rx =>
        some ({ conn with
          pending := conn.pending.erase r.id
          channels := conn.channels.modify rx fun ch => { ch with value := some (n, r) } },
          .decoding)
    | .reading | .returned _ => none
  | .data bytes =>
    match loop with
    | .reading =>
      if bytes = [] then some ({ conn with connected := false }, .returned .connectionClosed)
      else some ({ conn with decoder := conn.decoder.extend bytes }, .decoding)
    | _ => none
  | .fails =>
    match loop with
    | .reading => some (conn, .returned .io)
    | _ => none

/-- What a step of `read_loop` can be: it hands over a response, it takes in a message, it
goes on, it fails, or it comes to the end of the stream. -/
inductive ReadLoop.Steps (conn : ClientConnection) (loop : ReadLoop) :
    ReadOp → ClientConnection → ReadLoop → Prop
  | delivered {n rx : Nat} {r : Response} {op : ReadOp} (hloop : loop = .locked n r)
      (hrx : conn.pending[r.id]? = some rx) :
      Steps conn loop op { conn with
        pendingLocked := false
        pending := conn.pending.erase r.id
        channels := conn.channels.modify rx fun ch => { ch with value := some (n, r) } } .decoding
  | taken {op : ReadOp} (hloop : loop = .decoding) (decoder : Decoder) (message : Incoming) :
      Steps conn loop op { conn with decoder, incoming := conn.incoming ++ [message] }
        (match message with
          | .response r => .dispatching conn.incoming.length r
          | .event _ | .unknown _ => .decoding)
  | goesOn {loop' : ReadLoop} {op : ReadOp} (decoder : Decoder) (pendingLocked : Bool)
      (hloop : loop' = .idle ∨ loop' = .reading ∨ loop' = .decoding ∨
        ∃ n r, loop = .dispatching n r ∧ loop' = .locked n r) :
      Steps conn loop op { conn with decoder, pendingLocked } loop'
  | failed {op : ReadOp} (hop : op ≠ .data []) (decoder : Decoder) (e : ClientError) :
      Steps conn loop op { conn with decoder } (.returned e)
  | ended : Steps conn loop (.data []) { conn with connected := false }
      (.returned .connectionClosed)

theorem ReadLoop.steps_of_next {X : ClientExternals} {conn conn' : ClientConnection}
    {loop loop' : ReadLoop} {op : ReadOp} (h : loop.next X conn op = some (conn', loop')) :
    loop.Steps conn op conn' loop' := by
  cases op with
  | next =>
    simp only [ReadLoop.next] at h
    split at h
    · split at h <;> cases h
      · exact .goesOn _ _ (.inr (.inl rfl))
      · exact .failed (by nofun) _ _
    · split at h
      · cases h
        exact .failed (by nofun) _ _
      · cases h
        exact .goesOn _ _ (.inl rfl)
      · rename_i decoder frame _
        simp only [ReadLoop.take, Option.some.injEq] at h
        split at h
        · cases h
          exact .failed (by nofun) _ _
        · cases h
          exact .taken rfl _ _
    · split at h <;> cases h
      exact .goesOn _ _ (.inr (.inr (.inr ⟨_, _, rfl, rfl⟩)))
    · split at h <;> cases h
      · exact .goesOn _ _ (.inr (.inr (.inl rfl)))
      · rename_i hrx
        exact .delivered rfl hrx
    · cases h
    · cases h
  | data bytes =>
    simp only [ReadLoop.next] at h
    split at h
    · split at h <;> cases h
      · rename_i hend
        subst hend
        exact .ended
      · exact .goesOn _ _ (.inr (.inr (.inl rfl)))
    · cases h
  | fails =>
    simp only [ReadLoop.next] at h
    split at h <;> cases h
    exact .failed (by nofun) _ _

/-! ## Closing -/

/-- Where a call of `close` is. -/
inductive Closing
  | begun
  | marked
  | writerGone
  | readerGone
  | clearing
  | returned
  deriving DecidableEq

/-- The next step of `close`, which waits for the reader while a read has it. -/
def Closing.next (conn : ClientConnection) (loop : ReadLoop) :
    Closing → Option (ClientConnection × Closing)
  | .begun => some ({ conn with connected := false }, .marked)
  | .marked => some ({ conn with writer := false }, .writerGone)
  | .writerGone =>
    match loop with
    | .reading => none
    | _ => some ({ conn with reader := false }, .readerGone)
  | .readerGone =>
    if conn.pendingLocked then none else some ({ conn with pendingLocked := true }, .clearing)
  | .clearing => some ({ conn with pending := ∅, pendingLocked := false }, .returned)
  | .returned => none

/-- What a step of `close` can be. -/
theorem Closing.next_cases {conn conn' : ClientConnection} {loop : ReadLoop}
    {closing closing' : Closing} (h : closing.next conn loop = some (conn', closing')) :
    (∃ connected writer reader pendingLocked, (connected = true → conn.connected = true) ∧
        conn' = { conn with connected, writer, reader, pendingLocked }) ∨
      conn' = { conn with pending := ∅, pendingLocked := false } := by
  cases closing <;> simp only [Closing.next] at h
  case begun =>
    cases h
    exact .inl ⟨false, _, _, _, nofun, rfl⟩
  case marked =>
    cases h
    exact .inl ⟨_, _, _, _, id, rfl⟩
  case writerGone =>
    split at h <;> cases h
    exact .inl ⟨_, _, _, _, id, rfl⟩
  case readerGone =>
    split at h <;> cases h
    exact .inl ⟨_, _, _, _, id, rfl⟩
  case clearing =>
    cases h
    exact .inr rfl
  case returned => cases h

/-! ## All together -/

structure Client where
  conn : ClientConnection
  requests : List RequestCall
  closes : List Closing
  readLoop : ReadLoop

/-- A call of `request` or of `close` begins, or one of the tasks takes its next step. -/
inductive ClientOp
  | request (op : Operation) (params : Value)
  | requestStep (k : Nat) (op : RequestOp)
  | close
  | closeStep (k : Nat)
  | read (op : ReadOp)

namespace Client

/-- After `connect`: the handshake has drawn its numbers, and may have left bytes. -/
def new (nextId : Nat) (decoder : Decoder) : Client :=
  ⟨⟨true, nextId, true, true, decoder, ∅, false, [], [], []⟩, [], [], .idle⟩

def step (X : ClientExternals) (client : Client) : ClientOp → Option Client
  | .request op params =>
    some { client with requests := client.requests ++ [⟨op, params, .begun⟩] }
  | .requestStep k op =>
    match client.requests[k]? with
    | none => none
    | some call =>
      (call.next X client.conn op).map fun (conn, state) =>
        { client with conn, requests := client.requests.set k { call with state } }
  | .close => some { client with closes := client.closes ++ [.begun] }
  | .closeStep k =>
    match client.closes[k]? with
    | none => none
    | some closing =>
      (closing.next client.conn client.readLoop).map fun (conn, closing) =>
        { client with conn, closes := client.closes.set k closing }
  | .read op =>
    (client.readLoop.next X client.conn op).map fun (conn, readLoop) =>
      { client with conn, readLoop }

/-- What a step of the whole can be. -/
inductive Moves (X : ClientExternals) (client : Client) : ClientOp → Client → Prop
  | request (op : Operation) (params : Value) :
      Moves X client (.request op params)
        { client with requests := client.requests ++ [⟨op, params, .begun⟩] }
  | requestStep {k : Nat} {op : RequestOp} {call : RequestCall} {conn : ClientConnection}
      {state : RequestState} (hk : client.requests[k]? = some call)
      (hs : call.Steps X client.conn op conn state) :
      Moves X client (.requestStep k op)
        { client with conn, requests := client.requests.set k { call with state } }
  | close : Moves X client .close { client with closes := client.closes ++ [.begun] }
  | closeStep {k : Nat} {closing closing' : Closing} {conn : ClientConnection}
      (hnext : closing.next client.conn client.readLoop = some (conn, closing')) :
      Moves X client (.closeStep k)
        { client with conn, closes := client.closes.set k closing' }
  | read {op : ReadOp} {conn : ClientConnection} {readLoop : ReadLoop}
      (hnext : client.readLoop.next X client.conn op = some (conn, readLoop)) :
      Moves X client (.read op) { client with conn, readLoop }

theorem moves_of_step {X : ClientExternals} {client client' : Client} {op : ClientOp}
    (h : client.step X op = some client') : client.Moves X op client' := by
  cases op with
  | request op params =>
    cases h
    exact .request op params
  | requestStep k op =>
    simp only [Client.step] at h
    split at h
    · cases h
    · rename_i call hk
      obtain ⟨⟨conn, state⟩, hnext, rfl⟩ := Option.map_eq_some_iff.mp h
      exact .requestStep hk (RequestCall.steps_of_next hnext)
  | close =>
    cases h
    exact .close
  | closeStep k =>
    simp only [Client.step] at h
    split at h
    · cases h
    · obtain ⟨⟨conn, closing⟩, hnext, rfl⟩ := Option.map_eq_some_iff.mp h
      exact .closeStep hnext
  | read op =>
    obtain ⟨⟨conn, loop⟩, hnext, rfl⟩ := Option.map_eq_some_iff.mp h
    exact .read hnext

end Client

end Rstmdb

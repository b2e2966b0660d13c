import Rstmdb.Json.Text
import Rstmdb.Protocol.Codec
import Rstmdb.Server.Subscriptions

/-! A connection down to its bytes. What it writes is in the wire mode of the session;
what it reads it always takes for binary frames. -/
namespace Rstmdb
open Json (Value)

/-- The checksum, and `serde_json`: `to_vec` on JSON, which begins an object with a brace,
and `from_str` for requests. -/
structure WireExternals where
  crc32c : Bytes → UInt32
  toVec : Value → Bytes
  toVec_object : ∀ fs, (toVec (.object fs)).head? = some 0x7B
  fromStr : String → Except String Request

/-- `Encoder::encode_json`, or `jsonl::encode`. -/
def WireMode.encode (W : WireExternals) (text : Bytes) : WireMode → Except ProtocolError Bytes
  | .binaryJson => (Frame.new text).encode W.crc32c
  | .jsonl => .ok (text ++ [10])

def encodeRequest (W : WireExternals) (mode : WireMode) (r : Request) :
    Except ProtocolError Bytes :=
  mode.encode W (W.toVec r.toJson)

def encodeResponse (W : WireExternals) (mode : WireMode) (r : Response) :
    Except ProtocolError Bytes :=
  mode.encode W (W.toVec r.toJson)

/-- Why a connection ends in the middle: the error it returns, or a panic. -/
inductive ConnectionEnd
  | protocol (e : ProtocolError)
  | panicked
  deriving DecidableEq, Repr

/-- A request is handled and its response written. A session that is closing ends its
connection. -/
def answer (W : WireExternals) (X : ServerExternals) (c : CommandHandler)
    (st : Shared × Connection) (request : Request) :
    Except ConnectionEnd (Bytes × Shared × Connection) :=
  match dispatch X c st.1 st.2 request with
  | none => .error .panicked
  | some (s, conn, response) =>
    let conn := { conn with answered := conn.answered ++ [(request, response)] }
    match encodeResponse W conn.session.wireMode response with
    | .error e => .error (.protocol e)
    | .ok bytes =>
      if conn.session.state = .closing then
        .ok (bytes, cleanupSubscriptions conn.session s, conn.finished)
      else .ok (bytes, s, conn)

/-- One turn of `while let Some(request) = decoder.decode_request()?`, which an ended
connection does not take. -/
def answerNext (W : WireExternals) (X : ServerExternals) (c : CommandHandler) :
    Decode (Shared × Connection) UInt8 ConnectionEnd Bytes :=
  (Decoder.onBuffer (Decoder.decodeRequest W.crc32c W.fromStr)).act (·.2.isOpen) .protocol
    (answer W X c)

/-- What the connection writes when its input arrives in these chunks. -/
def writes (W : WireExternals) (X : ServerExternals) (c : CommandHandler)
    (st : Shared × Connection) (chunks : List Bytes) : List Bytes :=
  ((answerNext W X c).feed chunks st []).1

/-- A request of the connection whose answer is written. -/
def requestStep (X : ServerExternals) (c : CommandHandler) (st : Shared × Connection)
    (request : Request) : Option (Shared × Connection) :=
  st.2.step X c st.1 (.request request true)

def Connection.inMode (conn : Connection) (wireMode : WireMode) : Connection :=
  { conn with session := { conn.session with wireMode } }

/-- On this input, however it is cut, the connection writes these responses and nothing
else, each in the mode. -/
def AnsweredIn (W : WireExternals) (X : ServerExternals) (c : CommandHandler) (mode : WireMode)
    (st : Shared × Connection) (input : Bytes) (responses : List Response) : Prop :=
  ∃ written, responses.mapM (encodeResponse W mode) = .ok written ∧
    ∀ chunks, chunks.flatten = input → writes W X c st chunks = written

/-- What serde_json reads from the text it has written for a request. -/
def WireExternals.readBack (W : WireExternals) (r : Request) : Except ProtocolError Request :=
  Decoder.readRequest W.fromStr (Frame.new (W.toVec r.toJson))

/-- A `HELLO` with these parameters does not ask for `jsonl` alone. -/
def keepsBinary (params : Value) : Bool :=
  (HelloParams.fromValue params).all fun hello => negotiateWireMode hello.wireModes = .binaryJson

/-- The request can be framed and is read back, nothing in it negotiates another mode, and
it does not panic and its response can be framed. -/
structure Framed (W : WireExternals) (X : ServerExternals) (c : CommandHandler)
    (st : Shared × Connection) (request : Request) : Prop where
  read : W.readBack request = .ok request
  length : (W.toVec request.toJson).length < 2 ^ 32
  mode : ∀ inner ∈ nested request, inner.op = .hello → keepsBinary inner.params = true
  response : ∃ s' conn' r, dispatch X c st.1 st.2 request = some (s', conn', r) ∧
    (encodeResponse W .binaryJson r).isOk = true

section
variable {W : WireExternals} {X : ServerExternals} {c : CommandHandler} {s s' : Shared}
  {ses ses' : Session} {conn conn' : Connection} {request : Request} {r : Response}
  {requests : List Request}

/-! ## Wire modes and requests -/

variable {params : Value} {st st' : Shared × Connection}

theorem handleHello_wireMode (h : keepsBinary params = true) (hses : ses.wireMode = .binaryJson) :
    (handleHello X c ses params).1.wireMode = .binaryJson := by
  unfold handleHello
  unfold keepsBinary at h
  split
  · exact hses
  rename_i hello hp
  rw [hp, Option.all_some, decide_eq_true_eq] at h
  split
  · exact hses
  · exact h

theorem Watched.wireMode {out : Except ServerError (String × Receiver)}
    (h : Watched X s ses s' ses' out) : ses'.wireMode = ses.wireMode := by
  cases h <;> rfl

/-- No operation but `HELLO` touches the wire mode. -/
theorem execute_wireMode {op : Operation} {answer : Answered} (hop : op ≠ .hello)
    (h : execute X c s ses op params = some (s', ses', answer)) : ses'.wireMode = ses.wireMode := by
  cases executed_of_execute h with
  | greeted hhello => exact absurd hhello hop
  | authorized =>
    unfold handleAuth
    repeat' split
    all_goals rfl
  | watched _ h => exact h.wireMode
  | worked | notified | saved | left | unwatched => rfl

theorem execute_binary {op : Operation} {answer : Answered}
    (hop : op = .hello → keepsBinary params = true) (hses : ses.wireMode = .binaryJson)
    (h : execute X c s ses op params = some (s', ses', answer)) : ses'.wireMode = .binaryJson := by
  by_cases hhello : op = .hello
  · subst hhello
    cases h
    exact handleHello_wireMode (hop rfl) hses
  · rw [execute_wireMode hhello h, hses]

theorem dispatch_binary (hmode : ∀ inner ∈ nested request, inner.op = .hello →
      keepsBinary inner.params = true)
    (hses : conn.session.wireMode = .binaryJson)
    (hd : dispatch X c s conn request = some (s', conn', r)) :
    conn'.session.wireMode = .binaryJson := by
  have handled {s' : Shared} {ses' : Session} {r : Response}
      (hh : handle X c s conn.session request = some (s', ses', r)) :
      ses'.wireMode = .binaryJson :=
    handle_keeps (P := fun _ ses => ses.wireMode = .binaryJson)
      (fun inner => inner.op = .hello → keepsBinary inner.params = true)
      (fun _ _ hP => hP)
      (fun s ses inner s' ses' answer hP hgood he =>
        @execute_binary _ _ _ _ ses.recordRequest _ _ _ _ hgood hP he) hses hmode hh
  cases dispatched_of_dispatch hd with
  | refused => exact hses
  | watched _ hw => exact hw.wireMode.trans hses
  | unwatched _ hh | handled _ _ hh => exact handled hh

theorem WireMode.name_injective : Function.Injective WireMode.name := by
  intro a b h
  cases a <;> cases b <;> first | rfl | exact absurd h (by decide)

/-- The wire mode in the answer to a `HELLO`. -/
def answeredMode (r : Response) : Option String :=
  r.result.bind fun result => (result.index "wire_mode").asStr

/-- The mode that a `HELLO` is answered with is the mode of the session. -/
theorem hello_wireMode {mode : WireMode} (hop : request.op = .hello)
    (hd : dispatch X c s conn request = some (s', conn', r))
    (hr : answeredMode r = some mode.name) : conn'.session.wireMode = mode := by
  have hwatch : request.op ∉ watchOps := by simp [hop, watchOps]
  obtain ⟨ses', tasks, hh, rfl, -⟩ := Connection.dispatch_handle hwatch hd
  obtain ⟨-, -, -, rfl⟩ | ⟨-, answer, rfl, ⟨hbatch, -⟩ | ⟨-, he⟩⟩ := handle_cases hh
  · cases hr
  · rw [hop] at hbatch
    cases hbatch
  · rw [hop] at he
    simp only [execute, handleHello, Option.some.injEq] at he
    split at he
    · cases he
      cases hr
    split at he <;> cases he
    · cases hr
    · refine WireMode.name_injective (Option.some.inj (Eq.trans ?_ hr))
      simp [answeredMode, responseOf, Response.succeeded, Value.obj, Value.index,
        Json.Fields.ofList, Json.Fields.get?_insert, Value.asStr, Session.completeHandshake]

/-! ## Frames -/

theorem mapM_cons_ok {α β ε : Type} {f : α → Except ε β} {a : α} {as : List α} {bs : List β}
    (h : (a :: as).mapM f = .ok bs) :
    ∃ b bs', f a = .ok b ∧ as.mapM f = .ok bs' ∧ bs = b :: bs' := by
  rw [List.mapM_cons] at h
  cases ha : f a with
  | error e => simp [ha, bind, Except.bind] at h
  | ok b =>
    cases has : as.mapM f with
    | error e => simp [ha, has, bind, Except.bind] at h
    | ok bs' =>
      simp only [ha, has, bind, Except.bind, pure, Except.pure, Except.ok.injEq] at h
      exact ⟨b, bs', rfl, rfl, h.symm⟩

theorem mapM_ok_cons {α β ε : Type} {f : α → Except ε β} {a : α} {as : List α} {b : β}
    {bs : List β} (ha : f a = .ok b) (has : as.mapM f = .ok bs) :
    (a :: as).mapM f = .ok (b :: bs) := by
  simp [List.mapM_cons, ha, has, bind, Except.bind, pure, Except.pure]

theorem answerNext_incremental : (answerNext W X c).Incremental :=
  (Decoder.decodeRequest_incremental W.crc32c W.fromStr).act _ _ _

theorem answerNext_frame {frame bytes : Bytes} (hopen : st.2.isOpen = true)
    (hread : W.readBack request = .ok request)
    (hlength : (W.toVec request.toJson).length < 2 ^ 32)
    (hframe : encodeRequest W .binaryJson request = .ok frame)
    (hanswer : answer W X c st request = .ok (bytes, st')) (rest : Bytes) :
    answerNext W X c st (frame ++ rest) = (rest, .ok (some (bytes, st'))) := by
  have hdecode := Frame.decode_encoded (f := Frame.new (W.toVec request.toJson)) rfl hframe
    (by simp [Frame.new]) hlength rest
  have hrequest : Decoder.decodeRequest W.crc32c W.fromStr ⟨frame ++ rest⟩ =
      (⟨rest⟩, .ok (some request)) := by
    unfold WireExternals.readBack at hread
    simp [Decoder.decodeRequest, Decoder.decodeFrame, hdecode, hread, Except.map]
  simp [answerNext, Decode.act, hopen, Decoder.onBuffer, hrequest, Except.map, hanswer]

/-- What a connection does with a request is a request step of it. -/
theorem answer_of_step {s₁ : Shared} {conn₁ : Connection}
    (hd : dispatch X c st.1 st.2 request = some (s₁, conn₁, r))
    (h : requestStep X c st request = some st') :
    st.2.isOpen = true ∧ st'.2.session = conn₁.session ∧
      st'.2.answered = st.2.answered ++ [(request, r)] ∧
      ∀ bytes, encodeResponse W conn₁.session.wireMode r = .ok bytes →
        answer W X c st request = .ok (bytes, st') := by
  obtain ⟨s', conn'⟩ := st'
  cases Connection.steps_of_step h with
  | panicked _ _ hd' =>
    rw [hd] at hd'
    cases hd'
  | closed hopen hd' hstate | answered hopen hd' hstate =>
    cases hd.symm.trans hd'
    refine ⟨hopen, rfl, ?_, fun bytes hb => by simp [answer, hd, hb, hstate]⟩
    obtain ⟨ses, tasks, rfl⟩ := dispatch_frame hd
    rfl

/-! ## Sequences of requests -/

/-- Framed requests are answered one by one, with the responses of the handler. -/
theorem decodeAll_framed {frames : List Bytes} (hmode : st.2.session.wireMode = .binaryJson)
    (hclient : requests.mapM (encodeRequest W .binaryJson) = .ok frames)
    (hrun : run (requestStep X c) st requests = some st')
    (hframed : Meets (requestStep X c) (Framed W X c) st requests) :
    ∃ pairs written, st'.2.answered = st.2.answered ++ pairs ∧ pairs.map Prod.fst = requests ∧
      (pairs.map Prod.snd).mapM (encodeResponse W .binaryJson) = .ok written ∧
      (answerNext W X c).decodeAll st frames.flatten = (written, .ok (st', [])) := by
  induction requests generalizing st frames with
  | nil =>
    cases hclient
    cases hrun
    exact ⟨[], [], by simp, rfl, rfl, Decode.decodeAll_wait answerNext_incremental
      (answerNext_incremental.empty _)⟩
  | cons request requests ih =>
    obtain ⟨frame, frames', hframe, hrest, rfl⟩ := mapM_cons_ok hclient
    obtain ⟨u, hstep, hrun⟩ := run_cons.mp hrun
    obtain ⟨hfirst, hframed⟩ := hframed
    rw [hstep] at hframed
    obtain ⟨s₁, conn₁, r, hd, hok⟩ := hfirst.response
    obtain ⟨hopen, hses, hanswered, hanswer⟩ := answer_of_step (W := W) hd hstep
    have hmode₁ := dispatch_binary hfirst.mode hmode hd
    obtain ⟨bytes, hbytes⟩ : ∃ bytes, encodeResponse W .binaryJson r = .ok bytes := by
      cases he : encodeResponse W .binaryJson r with
      | ok bytes => exact ⟨bytes, rfl⟩
      | error e => simp [he, Except.isOk, Except.toBool] at hok
    have hanswer := hanswer bytes (by rw [hmode₁, hbytes])
    obtain ⟨pairs, written, hlast, hfsts, hwritten, hdecode⟩ :=
      ih (by rw [hses, hmode₁]) hrest hrun hframed
    refine ⟨(request, r) :: pairs, bytes :: written, by simp [hlast, hanswered],
      by simp [hfsts], mapM_ok_cons hbytes hwritten, ?_⟩
    rw [List.flatten_cons, Decode.decodeAll_some answerNext_incremental
      (answerNext_frame hopen hfirst.read hfirst.length hframe hanswer frames'.flatten)]
    simp [Decode.andThen, hdecode]

theorem decodeAll_line (st : Shared × Connection) {input : Bytes}
    (hinput : input.head? = some 0x7B) : ((answerNext W X c).decodeAll st input).1 = [] := by
  have hmagic : (input.take frameHeaderSize).take 4 ≠ frameMagic := by
    cases input with
    | nil => cases hinput
    | cons b input =>
      cases hinput
      simp [frameMagic, frameHeaderSize]
  by_cases hopen : st.2.isOpen = true
  · by_cases hshort : input.length < frameHeaderSize
    · have hdecode : Frame.decode W.crc32c input = (input, .ok none) := by
        rw [Frame.decode, if_pos hshort]
      have hwait : answerNext W X c st input = (input, .ok none) := by
        simp [answerNext, Decode.act, hopen, Decoder.onBuffer, Decoder.decodeRequest,
          Decoder.decodeFrame, hdecode, Except.map]
      rw [Decode.decodeAll_wait answerNext_incremental hwait]
    · have hdecode : Frame.decode W.crc32c input =
          (input, .error (.invalidMagic ((input.take frameHeaderSize).take 4))) := by
        rw [Frame.decode, if_neg hshort, Frame.peekHeader, if_pos hmagic]
      have herror : answerNext W X c st input = (input, .error (.protocol
          (.invalidMagic ((input.take frameHeaderSize).take 4)))) := by
        simp only [answerNext, Decode.act, hopen, if_true, Decoder.onBuffer,
          Decoder.decodeRequest, Decoder.decodeFrame, hdecode, Except.map]
      rw [Decode.decodeAll_error answerNext_incremental herror]
  · have hwait : answerNext W X c st input = (input, .ok none) := by
      simp [answerNext, Decode.act, hopen]
    rw [Decode.decodeAll_wait answerNext_incremental hwait]

theorem writes_eq (st : Shared × Connection) (chunks : List Bytes) :
    writes W X c st chunks = ((answerNext W X c).decodeAll st chunks.flatten).1 := by
  rw [writes, Decode.feed_eq_decodeAll answerNext_incremental chunks
    (answerNext_incremental.empty st), List.nil_append]

/-- After a `HELLO` that was answered with a wire mode, the connection answers requests
in that mode, with the responses of a binary session, exactly if the mode is
`binary_json` or there are none. -/
theorem answered_in_mode_iff {hello : Request} {s₀ : Shared} {conn₀ : Connection}
    {mode : WireMode} {frames : List Bytes}
    (hop : hello.op = .hello) (hhello : dispatch X c s₀ conn₀ hello = some (s, conn, r))
    (hmode : answeredMode r = some mode.name)
    (hclient : requests.mapM (encodeRequest W mode) = .ok frames)
    (hrun : run (requestStep X c) (s, conn.inMode .binaryJson) requests = some (s', conn'))
    (hframed : Meets (requestStep X c) (Framed W X c) (s, conn.inMode .binaryJson) requests) :
    (∃ pairs, conn'.answered = conn.answered ++ pairs ∧ pairs.map Prod.fst = requests ∧
      AnsweredIn W X c mode (s, conn) frames.flatten (pairs.map Prod.snd)) ↔
    mode = .binaryJson ∨ requests = [] := by
  have hses := hello_wireMode hop hhello hmode
  constructor
  · rintro ⟨pairs, -, hfsts, written, hwritten, hwrites⟩
    cases mode with
    | binaryJson => exact .inl rfl
    | jsonl =>
      right
      cases pairs with
      | nil => exact hfsts.symm
      | cons p pairs =>
        exfalso
        rw [← hfsts] at hclient
        obtain ⟨frame, frames', hframe, -, rfl⟩ := mapM_cons_ok hclient
        obtain ⟨b, bs, -, -, rfl⟩ := mapM_cons_ok hwritten
        have hline : (frame :: frames').flatten.head? = some 0x7B := by
          cases hframe
          simp [Request.toJson, W.toVec_object]
        have hnone := hwrites [(frame :: frames').flatten] (by simp)
        rw [writes_eq, List.flatten_singleton, decodeAll_line _ hline] at hnone
        cases hnone
  · rintro (rfl | rfl)
    · have hsame : conn.inMode .binaryJson = conn := by
        obtain ⟨⟨_, _, _, _, _, _, _, _, _⟩, _, _, _, _, _⟩ := conn
        cases hses
        rfl
      rw [hsame] at hrun hframed
      obtain ⟨pairs, written, hanswered, hfsts, hwritten, hdecode⟩ :=
        decodeAll_framed hses hclient hrun hframed
      refine ⟨pairs, hanswered, hfsts, written, hwritten, fun chunks hchunks => ?_⟩
      rw [writes_eq, hchunks, hdecode]
    · cases hclient
      cases hrun
      refine ⟨[], by simp [Connection.inMode], rfl, [], rfl, fun chunks hchunks => ?_⟩
      rw [writes_eq, hchunks, List.reverse_nil, List.flatten_nil,
        Decode.decodeAll_wait answerNext_incremental
        (answerNext_incremental.empty _)]

end

/-! ## A client of either mode -/

def pingRequest : Request := ⟨"2", .ping, .object []⟩

def pingText : String :=
  "\x7b\"type\":\"request\",\"id\":\"2\",\"op\":\"PING\",\"params\":\x7b\x7d\x7d"

/-- The checksum, and `serde_json` where this request is the only one that is read. -/
def serdeWire : WireExternals where
  crc32c := crc32c
  toVec := Json.toVec
  toVec_object _ := rfl
  fromStr text :=
    if text = pingText then .ok pingRequest else .error "expected value at line 1 column 1"

/-- A `HELLO` that asks for one mode. -/
def helloIn (mode : WireMode) : Request :=
  ⟨"1", .hello, .object [("protocol_version", .nat 1),
    ("wire_modes", .array [.string mode.name])]⟩

/-- What the first `HELLO` to a server does. -/
noncomputable def greeted (mode : WireMode) : Option (Shared × Connection × Response) :=
  let server := Server.fresh (openConfig 1000)
  dispatch serdeServer server.handler server.shared (.new false) (helloIn mode)

theorem ping_framed (st : Shared × Connection)
    (h : (dispatch serdeServer (Server.fresh (openConfig 1000)).handler st.1 st.2
      pingRequest).any (fun out => (encodeResponse serdeWire .binaryJson out.2.2).isOk) = true) :
    Framed serdeWire serdeServer (Server.fresh (openConfig 1000)).handler st pingRequest := by
  refine ⟨?_, by decide +kernel, by decide +kernel, ?_⟩
  · have htext : strFromUtf8 (Frame.new (serdeWire.toVec pingRequest.toJson)).payload =
        some pingText := by decide +kernel
    rw [WireExternals.readBack, Decoder.readRequest, htext]
    simp [serdeWire]
  · obtain ⟨⟨s', conn', r⟩, hd, hok⟩ := (Option.any_eq_true _ _).mp h
    exact ⟨s', conn', r, hd, hok⟩

/-- After a `HELLO` for `binary_json`, a request is answered in a frame. -/
theorem ping_answered_in_binary :
    ∃ s conn r frames, ∃ pairs : List (Request × Response),
      greeted .binaryJson = some (s, conn, r) ∧
      answeredMode r = some WireMode.binaryJson.name ∧
      [pingRequest].mapM (encodeRequest serdeWire .binaryJson) = .ok frames ∧
      pairs.map Prod.fst = [pingRequest] ∧
      AnsweredIn serdeWire serdeServer (Server.fresh (openConfig 1000)).handler .binaryJson
        (s, conn) frames.flatten (pairs.map Prod.snd) := by
  have heval : (greeted .binaryJson).any (fun out =>
      answeredMode out.2.2 = some WireMode.binaryJson.name &&
      (run (requestStep serdeServer (Server.fresh (openConfig 1000)).handler)
        (out.1, out.2.1.inMode .binaryJson) [pingRequest]).isSome &&
      (dispatch serdeServer (Server.fresh (openConfig 1000)).handler out.1
        (out.2.1.inMode .binaryJson) pingRequest).any fun out =>
          (encodeResponse serdeWire .binaryJson out.2.2).isOk) = true := by decide +kernel
  obtain ⟨⟨s, conn, r⟩, hgreeted, heval⟩ := (Option.any_eq_true _ _).mp heval
  simp only [Bool.and_eq_true, decide_eq_true_eq] at heval
  obtain ⟨⟨hmode, hrun⟩, hresponse⟩ := heval
  obtain ⟨⟨s', conn'⟩, hrun⟩ := Option.isSome_iff_exists.mp hrun
  have hclient : ([pingRequest].mapM (encodeRequest serdeWire .binaryJson)).isOk = true := by
    decide +kernel
  cases hframes : [pingRequest].mapM (encodeRequest serdeWire .binaryJson) with
  | error e => simp [hframes, Except.isOk, Except.toBool] at hclient
  | ok frames =>
    have hframed : Meets (requestStep serdeServer (Server.fresh (openConfig 1000)).handler)
        (Framed serdeWire serdeServer (Server.fresh (openConfig 1000)).handler)
        (s, conn.inMode .binaryJson) [pingRequest] := by
      refine ⟨ping_framed _ hresponse, ?_⟩
      split <;> trivial
    have hdispatch : dispatch serdeServer (Server.fresh (openConfig 1000)).handler
      (Server.fresh (openConfig 1000)).shared (.new false) (helloIn .binaryJson) =
        some (s, conn, r) := hgreeted
    obtain ⟨pairs, -, hfsts, hanswered⟩ :=
      (answered_in_mode_iff rfl hdispatch hmode hframes hrun hframed).mpr (.inl rfl)
    exact ⟨s, conn, r, frames, pairs, hgreeted, hmode, rfl, hfsts, hanswered⟩

/-- After a `HELLO` for `jsonl`, a request in a line is not answered. -/
theorem ping_unanswered_in_jsonl :
    ∃ s conn r line, greeted .jsonl = some (s, conn, r) ∧
      answeredMode r = some WireMode.jsonl.name ∧
      encodeRequest serdeWire .jsonl pingRequest = .ok line ∧
      writes serdeWire serdeServer (Server.fresh (openConfig 1000)).handler (s, conn) [line] = [] ∧
      ∀ response, ¬ AnsweredIn serdeWire serdeServer (Server.fresh (openConfig 1000)).handler
        .jsonl (s, conn) line [response] := by
  have heval :
      (greeted .jsonl).any (fun out => answeredMode out.2.2 = some WireMode.jsonl.name) = true := by
    decide +kernel
  obtain ⟨⟨s, conn, r⟩, hgreeted, heval⟩ := (Option.any_eq_true _ _).mp heval
  have hnone : writes serdeWire serdeServer (Server.fresh (openConfig 1000)).handler (s, conn)
      [Json.toVec pingRequest.toJson ++ [10]] = [] := by
    rw [writes_eq, List.flatten_singleton]
    exact decodeAll_line _ rfl
  refine ⟨s, conn, r, _, hgreeted, of_decide_eq_true heval, rfl, hnone, ?_⟩
  rintro response ⟨written, hwritten, hwrites⟩
  have hwrites := hwrites [Json.toVec pingRequest.toJson ++ [10]] (List.append_nil _)
  obtain ⟨b, bs, -, -, rfl⟩ := mapM_cons_ok hwritten
  rw [hnone] at hwrites
  cases hwrites

end Rstmdb

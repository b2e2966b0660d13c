import Rstmdb.Lib.Stream
import Rstmdb.Protocol.Frame
import Rstmdb.Protocol.Message

/-! Requests and responses as JSON, and the decoder of a connection: bytes come in,
and frames or requests go out. What comes out depends on the bytes alone, not on the
chunks in which they came. -/
namespace Rstmdb

/-- The fields in the order in which they are written. -/
def Request.toJson (r : Request) : Json.Value :=
  .object [("type", .string "request"), ("id", .string r.id), ("op", .string r.op.name),
    ("params", r.params)]

/-- `None` and empty metadata are left out. -/
def Response.toJson (r : Response) : Json.Value :=
  .object ([("type", .string "response"), ("id", .string r.id),
      ("status", .string (if r.isOk then "ok" else "error"))] ++
    (r.result.map fun result => ("result", result)).toList ++
    (r.error.map fun e => ("error", e.toValue)).toList)

/-- Decodes frames into requests; the buffer holds what has not been decoded yet. -/
structure Decoder where
  buffer : Bytes
  deriving DecidableEq, Repr

/-- `std::str::from_utf8`. -/
def strFromUtf8 (b : Bytes) : Option String := String.fromUTF8? ⟨b.toArray⟩

namespace Decoder

def new : Decoder := ⟨[]⟩

/-- Appends data to the internal buffer. -/
def extend (d : Decoder) (data : Bytes) : Decoder := ⟨d.buffer ++ data⟩

section
variable (crc32c : Bytes → UInt32) (fromStr : String → Except String Request)

/-- Attempts to decode the next frame from the buffer. -/
def decodeFrame (d : Decoder) : Decoder × Except ProtocolError (Option Frame) :=
  (⟨(Frame.decode crc32c d.buffer).1⟩, (Frame.decode crc32c d.buffer).2)

/-- The request in a frame; `fromStr` is the JSON parser. -/
def readRequest (frame : Frame) : Except ProtocolError Request :=
  match strFromUtf8 frame.payload with
  | none => .error .invalidUtf8
  | some payload =>
    match fromStr payload with
    | .error message => .error (.json message)
    | .ok request => .ok request

/-- Attempts to decode the next request from the buffer. The frame is gone from it
also when its payload is no request. -/
def decodeRequest (d : Decoder) : Decoder × Except ProtocolError (Option Request) :=
  match d.decodeFrame crc32c with
  | (d', .error e) => (d', .error e)
  | (d', .ok none) => (d', .ok none)
  | (d', .ok (some frame)) => (d', (readRequest fromStr frame).map some)

end

section
variable {α : Type} (call : Decoder → Decoder × Except ProtocolError (Option α))

/-- One call after another until one returns `None` or an error. A value takes bytes
off the buffer, so there are at most as many calls as bytes. -/
def callAll : Nat → Decoder → List α × Except ProtocolError Decoder
  | 0, d => ([], .ok d)
  | fuel + 1, d =>
    match call d with
    | (_, .error e) => ([], .error e)
    | (d', .ok none) => ([], .ok d')
    | (d', .ok (some a)) => (a :: (callAll fuel d').1, (callAll fuel d').2)

/-- What comes out of a stream that arrives in chunks: the values, and the error after
which nothing more is read. -/
def receive : List Bytes → Decoder → List α × Option ProtocolError
  | [], _ => ([], none)
  | chunk :: chunks, d =>
    match callAll call (d.extend chunk).buffer.length (d.extend chunk) with
    | (as, .error e) => (as, some e)
    | (as, .ok d') => (as ++ (receive chunks d').1, (receive chunks d').2)

end

end Decoder

/-! ## Frames are decoded incrementally -/

namespace Frame

variable {crc32c : Bytes → UInt32} {buf rest : Bytes} {a : Except ProtocolError (Option Frame)}

/-- What `decode` answers about a frame that has arrived as a whole. -/
def checked (crc32c : Bytes → UInt32) (hd : FrameHeader) (body : Bytes) :
    Except ProtocolError (Option Frame) :=
  let payload := (body.drop hd.headerLen.toNat).take hd.payloadLen.toNat
  if hd.flags.hasCrc && crc32c payload != hd.crc then
    .error (.crcMismatch hd.crc (crc32c payload))
  else .ok (some ⟨protocolVersion, hd.flags, body.take hd.headerLen.toNat, payload⟩)

theorem decode_whole {hd : FrameHeader} (hp : peekHeader (buf.take frameHeaderSize) = .ok hd)
    (hfit : frameHeaderSize + hd.headerLen.toNat + hd.payloadLen.toNat ≤ buf.length) :
    decode crc32c buf =
      (((buf.drop frameHeaderSize).drop hd.headerLen.toNat).drop hd.payloadLen.toNat,
        checked crc32c hd (buf.drop frameHeaderSize)) := by
  have hshort : ¬ buf.length < frameHeaderSize := by omega
  have hwait : ¬ buf.length < frameHeaderSize + hd.headerLen.toNat + hd.payloadLen.toNat := by
    omega
  simp only [decode, hshort, if_false, hp, hwait, checked]
  split <;> rfl

/-- What `decode` did to a buffer: it waited, it refused the header, or it took a
whole frame off the front. -/
theorem decode_cases (h : decode crc32c buf = (rest, a)) :
    (rest = buf ∧ a = .ok none) ∨
    (frameHeaderSize ≤ buf.length ∧
      ∃ e, peekHeader (buf.take frameHeaderSize) = .error e ∧ rest = buf ∧ a = .error e) ∨
    ∃ hd, peekHeader (buf.take frameHeaderSize) = .ok hd ∧
      frameHeaderSize + hd.headerLen.toNat + hd.payloadLen.toNat ≤ buf.length := by
  unfold decode at h
  split at h
  · cases h
    exact .inl ⟨rfl, rfl⟩
  rename_i hs
  cases hp : peekHeader (buf.take frameHeaderSize) with
  | error e =>
    simp only [hp] at h
    cases h
    exact .inr (.inl ⟨Nat.not_lt.mp hs, e, rfl, rfl, rfl⟩)
  | ok hd =>
    simp only [hp] at h
    split at h
    · cases h
      exact .inl ⟨rfl, rfl⟩
    · rename_i hw
      exact .inr (.inr ⟨hd, rfl, Nat.not_lt.mp hw⟩)

theorem decode_append (h : decode crc32c buf = (rest, a)) (ha : a ≠ .ok none) (more : Bytes) :
    decode crc32c (buf ++ more) = (rest ++ more, a) := by
  obtain ⟨-, rfl⟩ | ⟨hlong, e, hp, rfl, rfl⟩ | ⟨hd, hp, hfit⟩ := decode_cases h
  · exact absurd rfl ha
  · have hshort : ¬ (rest ++ more).length < frameHeaderSize := by
      rw [List.length_append]
      omega
    rw [decode, if_neg hshort, List.take_append_of_le_length hlong, hp]
  · have hp' : peekHeader ((buf ++ more).take frameHeaderSize) = .ok hd := by
      rw [List.take_append_of_le_length (by omega), hp]
    rw [decode_whole hp hfit] at h
    obtain ⟨rfl, rfl⟩ := Prod.mk.inj h
    rw [decode_whole hp' (by rw [List.length_append]; omega),
      List.drop_append_of_le_length (by omega)]
    have hlen : hd.headerLen.toNat + hd.payloadLen.toNat ≤ (buf.drop frameHeaderSize).length := by
      rw [List.length_drop]
      omega
    generalize buf.drop frameHeaderSize = body at hlen
    have hlen' : hd.payloadLen.toNat ≤ (body.drop hd.headerLen.toNat).length := by
      rw [List.length_drop]
      omega
    rw [checked, checked, List.drop_append_of_le_length (by omega),
      List.drop_append_of_le_length hlen', List.take_append_of_le_length hlen',
      List.take_append_of_le_length (by omega)]

theorem decode_waits (h : decode crc32c buf = (rest, .ok none)) : rest = buf := by
  obtain ⟨rfl, -⟩ | ⟨-, e, -, -, ha⟩ | ⟨hd, hp, hfit⟩ := decode_cases h
  · rfl
  · cases ha
  · rw [decode_whole hp hfit] at h
    have hc := (Prod.mk.inj h).2
    simp only [checked] at hc
    split at hc <;> cases hc

theorem decode_consumes {f : Frame} (h : decode crc32c buf = (rest, .ok (some f))) :
    rest.length + frameHeaderSize ≤ buf.length := by
  obtain ⟨-, ha⟩ | ⟨-, e, -, -, ha⟩ | ⟨hd, hp, hfit⟩ := decode_cases h
  · cases ha
  · cases ha
  · rw [decode_whole hp hfit] at h
    obtain ⟨rfl, -⟩ := Prod.mk.inj h
    simp only [List.length_drop]
    omega

end Frame

namespace Decoder

section
variable {α : Type} {call : Decoder → Decoder × Except ProtocolError (Option α)}

/-- A call of the decoder, as a function of its buffer. -/
def onBuffer (call : Decoder → Decoder × Except ProtocolError (Option α)) :
    Decode Unit UInt8 ProtocolError α :=
  fun _ buf => ((call ⟨buf⟩).1.buffer, (call ⟨buf⟩).2.map (·.map (·, ())))

theorem callAll_eq (fuel : Nat) (d : Decoder) :
    callAll call fuel d =
      (((onBuffer call).drain fuel () d.buffer).1,
        ((onBuffer call).drain fuel () d.buffer).2.map (⟨·.2⟩)) := by
  induction fuel generalizing d with
  | zero => rfl
  | succ fuel ih =>
    rcases hc : call d with ⟨d', e | _ | a⟩
    · simp [callAll, Decode.drain, onBuffer, hc, Except.map]
    · simp [callAll, Decode.drain, onBuffer, hc, Except.map]
    · simp [callAll, Decode.drain, onBuffer, hc, Except.map, ih]

theorem receive_eq (chunks : List Bytes) (d : Decoder) :
    receive call chunks d =
      (((onBuffer call).feed chunks () d.buffer).1,
        match ((onBuffer call).feed chunks () d.buffer).2 with
        | .error e => some e
        | .ok _ => none) := by
  induction chunks generalizing d with
  | nil => rfl
  | cons chunk chunks ih =>
    simp only [receive, Decode.feed, Decode.decodeAll, extend, callAll_eq]
    rcases (onBuffer call).drain (d.buffer ++ chunk).length () (d.buffer ++ chunk) with
      ⟨as, e | ⟨_, rest⟩⟩
    · rfl
    · simp [Except.map, Decode.andThen, ih]

theorem receive_chunks (hc : (onBuffer call).Incremental) {chunks chunks' : List Bytes}
    (h : chunks.flatten = chunks'.flatten) :
    receive call chunks new = receive call chunks' new := by
  simp only [receive_eq, new, Decode.feed_chunks hc h]

end

variable (crc32c : Bytes → UInt32) (fromStr : String → Except String Request)

theorem decodeFrame_incremental : (onBuffer (decodeFrame crc32c)).Incremental where
  empty s := rfl
  waits {s buf rest} h := by
    rcases hf : Frame.decode crc32c buf with ⟨b, e | _ | f⟩ <;>
      simp only [onBuffer, decodeFrame, hf, Prod.mk.injEq] at h
    · cases h.2
    · rw [← h.1, Frame.decode_waits hf]
    · cases h.2
  stable {s buf rest a} h ha more := by
    rcases hf : Frame.decode crc32c buf with ⟨b, o⟩
    simp only [onBuffer, decodeFrame, hf, Prod.mk.injEq] at h
    obtain ⟨rfl, rfl⟩ := h
    have ho : o ≠ .ok none := by
      rintro rfl
      exact ha rfl
    simp [onBuffer, decodeFrame, Frame.decode_append hf ho more]
  consumes {s buf rest v} h := by
    rcases hf : Frame.decode crc32c buf with ⟨b, e | _ | f⟩ <;>
      simp only [onBuffer, decodeFrame, hf, Prod.mk.injEq] at h
    · cases h.2
    · cases h.2
    · have := Frame.decode_consumes hf
      simp only [frameHeaderSize] at this
      rw [← h.1]
      omega

theorem onBuffer_decodeRequest : onBuffer (decodeRequest crc32c fromStr) =
    (onBuffer (decodeFrame crc32c)).act (fun _ => true) id
      fun s frame => (readRequest fromStr frame).map (·, s) := by
  funext s buf
  rcases hf : Frame.decode crc32c buf with ⟨b, e | _ | f⟩ <;>
    simp [onBuffer, decodeRequest, decodeFrame, Decode.act, hf, Except.map]
  cases readRequest fromStr f <;> rfl

theorem decodeRequest_incremental : (onBuffer (decodeRequest crc32c fromStr)).Incremental := by
  rw [onBuffer_decodeRequest]
  exact (decodeFrame_incremental crc32c).act _ _ _

/-- The frames and the requests that come out of a stream, and the error in which they
end, are the same for any two ways in which it is cut into chunks. -/
theorem decoded_whatever_chunks (crc32c : Bytes → UInt32)
    (fromStr : String → Except String Request) {chunks chunks' : List Bytes}
    (h : chunks.flatten = chunks'.flatten) :
    receive (decodeFrame crc32c) chunks new = receive (decodeFrame crc32c) chunks' new ∧
      receive (decodeRequest crc32c fromStr) chunks new =
        receive (decodeRequest crc32c fromStr) chunks' new := by
  constructor
  · exact receive_chunks (decodeFrame_incremental crc32c) h
  · exact receive_chunks (decodeRequest_incremental crc32c fromStr) h

/-- A frame, then bytes that are no frame: all at once, or cut inside both. -/
theorem decoded_whatever_chunks_broken :
    let good := (Frame.new []).header (fun _ => 0) |>.bytes protocolVersion
    let stream := good ++ List.replicate 18 0
    receive (decodeFrame fun _ => 0) [stream] new =
        ([Frame.new []], some (.invalidMagic [0, 0, 0, 0])) ∧
      receive (decodeFrame fun _ => 0) [stream] new =
        receive (decodeFrame fun _ => 0) [good.take 5, good.drop 5 ++ [0], List.replicate 17 0]
          new := by
  refine ⟨by decide +kernel, ?_⟩
  exact (decoded_whatever_chunks (fun _ => 0) (fun _ => .error "") (by decide +kernel)).1

end Decoder

end Rstmdb

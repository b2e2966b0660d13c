import Rstmdb.Lib.Bytes

/-! The binary frame: an 18 byte header, a header extension and the payload. The
header has 16 bits for the length of the extension and 32 for that of the payload,
and `encode` narrows both lengths to fit. -/
namespace Rstmdb
open Bytes (putBE getBE)

def protocolVersion : UInt16 := 1

def maxPayloadSize : UInt32 := 16 * 1024 * 1024

/-- "RCPX". -/
def frameMagic : Bytes := [0x52, 0x43, 0x50, 0x58]

def frameHeaderSize : Nat := 18

inductive ProtocolError
  | invalidMagic (magic : Bytes)
  | unsupportedVersion (version : UInt16)
  | frameTooLarge (size max : UInt32)
  | crcMismatch (expected actual : UInt32)
  | invalidFlags (bits : UInt16)
  | json (message : String)
  | invalidUtf8
  deriving DecidableEq, Repr

/-! ## Flags -/

def validV1Mask : UInt16 := 0x000F

/-- The flags of version 1; no other bit is ever set. -/
structure FrameFlags where
  bits : UInt16
  valid : bits &&& ~~~validV1Mask = 0
  deriving DecidableEq

namespace FrameFlags

def crcPresent : UInt16 := (1 : UInt16) <<< 0

def stream : UInt16 := (1 : UInt16) <<< 2

theorem valid_or {a b : UInt16} (ha : a &&& ~~~validV1Mask = 0) (hb : b &&& ~~~validV1Mask = 0) :
    (a ||| b) &&& ~~~validV1Mask = 0 := by
  have distrib : (a ||| b) &&& ~~~validV1Mask =
      (a &&& ~~~validV1Mask) ||| (b &&& ~~~validV1Mask) :=
    UInt16.toBitVec_inj.mp BitVec.and_or_distrib_right
  rw [distrib, ha, hb]
  rfl

def new : FrameFlags := ⟨0, by decide⟩

def withCrc (f : FrameFlags) : FrameFlags := ⟨f.bits ||| crcPresent, valid_or f.valid (by decide)⟩

def withStream (f : FrameFlags) : FrameFlags := ⟨f.bits ||| stream, valid_or f.valid (by decide)⟩

def hasCrc (f : FrameFlags) : Bool := f.bits &&& crcPresent != 0

def fromBits (bits : UInt16) : Except ProtocolError FrameFlags :=
  if h : bits &&& ~~~validV1Mask = 0 then .ok ⟨bits, h⟩ else .error (.invalidFlags bits)

theorem fromBits_bits (f : FrameFlags) : fromBits f.bits = .ok f := by
  simp [fromBits, f.valid]

end FrameFlags

/-! ## Frames -/

structure Frame where
  version : UInt16
  flags : FrameFlags
  headerExtension : Bytes
  payload : Bytes
  deriving DecidableEq

/-- The fields of the header after the magic and the version. -/
structure FrameHeader where
  flags : FrameFlags
  headerLen : UInt16
  payloadLen : UInt32
  crc : UInt32

def FrameHeader.bytes (version : UInt16) (h : FrameHeader) : Bytes :=
  frameMagic ++ putBE 2 version.toNat ++ putBE 2 h.flags.bits.toNat ++
    putBE 2 h.headerLen.toNat ++ putBE 4 h.payloadLen.toNat ++ putBE 4 h.crc.toNat

namespace Frame

def new (payload : Bytes) : Frame := ⟨protocolVersion, FrameFlags.new.withCrc, [], payload⟩

section
variable (crc32c : Bytes → UInt32)

/-- The header that `encode` writes, with the lengths as `u16` and `u32`. -/
def header (f : Frame) : FrameHeader where
  flags := f.flags
  headerLen := UInt16.ofNat f.headerExtension.length
  payloadLen := UInt32.ofNat f.payload.length
  crc := if f.flags.hasCrc then crc32c f.payload else 0

def encode (f : Frame) : Except ProtocolError Bytes :=
  let payloadLen := (f.header crc32c).payloadLen
  if payloadLen > maxPayloadSize then .error (.frameTooLarge payloadLen maxPayloadSize)
  else .ok ((f.header crc32c).bytes f.version ++ (f.headerExtension ++ f.payload))

/-- The checks of `decode` on the first 18 bytes of its buffer. -/
def peekHeader (head : Bytes) : Except ProtocolError FrameHeader :=
  let magic := head.take 4
  let version := UInt16.ofNat (getBE ((head.drop 4).take 2))
  if magic ≠ frameMagic then .error (.invalidMagic magic)
  else if version ≠ protocolVersion then .error (.unsupportedVersion version)
  else
    match FrameFlags.fromBits (UInt16.ofNat (getBE ((head.drop 6).take 2))) with
    | .error e => .error e
    | .ok flags =>
      let headerLen := UInt16.ofNat (getBE ((head.drop 8).take 2))
      let payloadLen := UInt32.ofNat (getBE ((head.drop 10).take 4))
      if payloadLen > maxPayloadSize then .error (.frameTooLarge payloadLen maxPayloadSize)
      else .ok ⟨flags, headerLen, payloadLen, UInt32.ofNat (getBE ((head.drop 14).take 4))⟩

/-- Decodes one frame: the buffer afterwards, and the frame, an error, or `none`
when more data is needed. A frame whose checksum is wrong has been consumed. -/
def decode (buf : Bytes) : Bytes × Except ProtocolError (Option Frame) :=
  if buf.length < frameHeaderSize then (buf, .ok none)
  else
    match peekHeader (buf.take frameHeaderSize) with
    | .error e => (buf, .error e)
    | .ok h =>
      let totalLen := frameHeaderSize + h.headerLen.toNat + h.payloadLen.toNat
      if buf.length < totalLen then (buf, .ok none)
      else
        let body := buf.drop frameHeaderSize
        let headerExtension := body.take h.headerLen.toNat
        let body := body.drop h.headerLen.toNat
        let payload := body.take h.payloadLen.toNat
        let rest := body.drop h.payloadLen.toNat
        if h.flags.hasCrc && crc32c payload != h.crc then
          (rest, .error (.crcMismatch h.crc (crc32c payload)))
        else (rest, .ok (some ⟨protocolVersion, h.flags, headerExtension, payload⟩))

end

@[simp] theorem length_bytes (version : UInt16) (h : FrameHeader) :
    (h.bytes version).length = frameHeaderSize := by
  simp [FrameHeader.bytes, frameMagic, frameHeaderSize]

/-- The header survives, whatever lengths it gives. -/
theorem peekHeader_bytes (h : FrameHeader) (hs : h.payloadLen ≤ maxPayloadSize) :
    peekHeader (h.bytes protocolVersion) = .ok h := by
  have hmagic : (h.bytes protocolVersion).take 4 = frameMagic := by
    simp [FrameHeader.bytes, frameMagic]
  have hversion : ((h.bytes protocolVersion).drop 4).take 2 = putBE 2 protocolVersion.toNat := by
    simp [FrameHeader.bytes, frameMagic]
  have hflags : ((h.bytes protocolVersion).drop 6).take 2 = putBE 2 h.flags.bits.toNat := by
    simp [FrameHeader.bytes, frameMagic]
  have hext : ((h.bytes protocolVersion).drop 8).take 2 = putBE 2 h.headerLen.toNat := by
    simp [FrameHeader.bytes, frameMagic, List.drop_append, List.take_append]
  have hpay : ((h.bytes protocolVersion).drop 10).take 4 = putBE 4 h.payloadLen.toNat := by
    have hsplit : h.bytes protocolVersion =
        (frameMagic ++ putBE 2 protocolVersion.toNat ++ putBE 2 h.flags.bits.toNat ++
          putBE 2 h.headerLen.toNat) ++ (putBE 4 h.payloadLen.toNat ++ putBE 4 h.crc.toNat) := by
      simp [FrameHeader.bytes]
    rw [hsplit, List.drop_left' (by simp [frameMagic]), List.take_left' (by simp)]
  have hcrc : ((h.bytes protocolVersion).drop 14).take 4 = putBE 4 h.crc.toNat := by
    rw [FrameHeader.bytes, List.drop_left' (by simp [frameMagic]),
      List.take_of_length_le (by simp)]
  have eversion := Bytes.getBE_putBE_of_lt (k := 2) protocolVersion.toNat_lt
  have eflags := Bytes.getBE_putBE_of_lt (k := 2) h.flags.bits.toNat_lt
  have eext := Bytes.getBE_putBE_of_lt (k := 2) h.headerLen.toNat_lt
  have epay := Bytes.getBE_putBE_of_lt (k := 4) h.payloadLen.toNat_lt
  have ecrc := Bytes.getBE_putBE_of_lt (k := 4) h.crc.toNat_lt
  have hfits : ¬ h.payloadLen > maxPayloadSize := by simpa using hs
  simp only [peekHeader, hmagic, hversion, hflags, hext, hpay, hcrc, eversion, eflags, eext, epay,
    ecrc, ne_eq, not_true_eq_false, if_false, UInt16.ofNat_toNat, UInt32.ofNat_toNat,
    FrameFlags.fromBits_bits, hfits]

section
variable {crc32c : Bytes → UInt32} {f : Frame} {b : Bytes}

theorem encode_ok (h : f.encode crc32c = .ok b) :
    (f.header crc32c).payloadLen ≤ maxPayloadSize ∧
      b = (f.header crc32c).bytes f.version ++ (f.headerExtension ++ f.payload) := by
  simp only [encode] at h
  split at h
  · cases h
  · rename_i hs
    cases h
    exact ⟨by simpa using hs, rfl⟩

theorem decode_header {h : FrameHeader} (hs : h.payloadLen ≤ maxPayloadSize) {ext pay rest : Bytes}
    (hext : ext.length = h.headerLen.toNat) (hpay : pay.length = h.payloadLen.toNat)
    (hcrc : h.flags.hasCrc = true → h.crc = crc32c pay) :
    decode crc32c (h.bytes protocolVersion ++ (ext ++ (pay ++ rest))) =
      (rest, .ok (some ⟨protocolVersion, h.flags, ext, pay⟩)) := by
  have hhead : (h.bytes protocolVersion ++ (ext ++ (pay ++ rest))).take frameHeaderSize =
      h.bytes protocolVersion := List.take_left' (length_bytes _ _)
  have hbody : (h.bytes protocolVersion ++ (ext ++ (pay ++ rest))).drop frameHeaderSize =
      ext ++ (pay ++ rest) := List.drop_left' (length_bytes _ _)
  have hlong : ¬ (h.bytes protocolVersion ++ (ext ++ (pay ++ rest))).length <
      frameHeaderSize + h.headerLen.toNat + h.payloadLen.toNat := by
    simp only [List.length_append, length_bytes]
    omega
  have hshort : ¬ (h.bytes protocolVersion ++ (ext ++ (pay ++ rest))).length <
      frameHeaderSize := by omega
  have hsum : (h.flags.hasCrc && crc32c pay != h.crc) = false := by
    cases hc : h.flags.hasCrc with
    | false => rfl
    | true => simp [hcrc hc]
  simp only [decode, hshort, if_false, hhead, peekHeader_bytes h hs, hlong, hbody,
    List.take_left' hext, List.drop_left' hext, List.take_left' hpay, List.drop_left' hpay, hsum]
  rfl

theorem decode_lengths {buf rest : Bytes} (h : decode crc32c buf = (rest, .ok (some f))) :
    f.headerExtension.length < 2 ^ 16 ∧ f.payload.length < 2 ^ 32 := by
  simp only [decode] at h
  split at h
  · cases h
  split at h
  · cases h
  rename_i hd _
  split at h
  · cases h
  split at h
  · cases h
  cases h
  constructor
  · exact lt_of_le_of_lt (List.length_take_le _ _) hd.headerLen.toNat_lt
  · exact lt_of_le_of_lt (List.length_take_le _ _) hd.payloadLen.toNat_lt

theorem decode_encoded (hversion : f.version = protocolVersion) (h : f.encode crc32c = .ok b)
    (hext : f.headerExtension.length < 2 ^ 16) (hpay : f.payload.length < 2 ^ 32) (r : Bytes) :
    decode crc32c (b ++ r) = (r, .ok (some f)) := by
  obtain ⟨hs, rfl⟩ := encode_ok h
  obtain ⟨version, flags, ext, pay⟩ := f
  subst hversion
  rw [List.append_assoc, List.append_assoc]
  refine decode_header hs ?_ ?_ ?_
  · exact (UInt16.toNat_ofNat_of_lt' hext).symm
  · exact (UInt32.toNat_ofNat_of_lt' hpay).symm
  · intro hcrc
    exact if_pos hcrc

/-- Decoding undoes encoding, whatever follows the frame, exactly for the frames
whose lengths fit their fields. -/
theorem decode_encode_iff (crc32c : Bytes → UInt32) {f : Frame}
    (hversion : f.version = protocolVersion) {b : Bytes} (h : f.encode crc32c = .ok b) :
    (∀ r, decode crc32c (b ++ r) = (r, .ok (some f))) ↔
      f.headerExtension.length < 2 ^ 16 ∧ f.payload.length < 2 ^ 32 := by
  constructor
  · intro hall
    exact decode_lengths (hall [])
  · rintro ⟨hext, hpay⟩ r
    exact decode_encoded hversion h hext hpay r

/-- A frame with an extension and a payload comes back from the front of two frames. -/
theorem decode_encode_of_short :
    ∃ b, encode (fun _ => 7) ⟨protocolVersion, FrameFlags.new.withStream, [1, 2], [3]⟩ = .ok b ∧
      ∀ r, decode (fun _ => 7) (b ++ r) =
        (r, .ok (some ⟨protocolVersion, FrameFlags.new.withStream, [1, 2], [3]⟩)) :=
  ⟨_, rfl, (decode_encode_iff (fun _ => 7) rfl rfl).mpr (by decide)⟩

/-- A frame with this extension and no payload. -/
def extended (ext : Bytes) : Frame := ⟨protocolVersion, FrameFlags.new.withCrc, ext, []⟩

/-- The length of an extension of 65536 bytes is announced as zero. -/
theorem decode_extended (crc32c : Bytes → UInt32) {ext : Bytes} (h : ext.length = 65536) :
    ∃ b, (extended ext).encode crc32c = .ok b ∧ decode crc32c b = (ext, .ok (some (new []))) := by
  have hlen : (extended ext).header crc32c = (new []).header crc32c := by
    simp only [header, extended, h]
    rfl
  refine ⟨((new []).header crc32c).bytes protocolVersion ++ (ext ++ []), ?_, ?_⟩
  · simp only [encode, hlen]
    rfl
  · rw [List.append_nil]
    have hempty : ((new []).header crc32c).payloadLen ≤ maxPayloadSize := UInt32.zero_le
    exact @decode_header _ _ hempty [] [] _ rfl rfl (fun _ => rfl)

/-- Such a frame comes back without its extension, and all of the extension's
bytes are left for the next frame. -/
theorem decode_encode_long_extension :
    ∃ b, (extended (List.replicate 65536 0)).encode (fun _ => 7) = .ok b ∧
      decode (fun _ => 7) b = (List.replicate 65536 0, .ok (some (new []))) ∧
      ¬ ∀ r, decode (fun _ => 7) (b ++ r) =
        (r, .ok (some (extended (List.replicate 65536 0)))) := by
  have hlong : (List.replicate 65536 (0 : UInt8)).length = 65536 := List.length_replicate
  generalize List.replicate 65536 (0 : UInt8) = ext at hlong
  obtain ⟨b, hb, hdecode⟩ := decode_extended (fun _ => 7) hlong
  refine ⟨b, hb, hdecode, fun hall => ?_⟩
  have hnil := hall []
  rw [List.append_nil, hdecode] at hnil
  have : ext = [] := congrArg Prod.fst hnil
  simp [this] at hlong

end

end Frame

end Rstmdb

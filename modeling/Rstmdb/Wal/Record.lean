import Rstmdb.Wal.Entry

/-! The on-disk record: a 24 byte header, then the payload. `decode` undoes
`encode` whatever follows, waits on every strict prefix of a record, and never
changes its answer when more bytes arrive. -/
namespace Rstmdb
open Bytes (putBE getBE)

def walMagic : Bytes := [0x57, 0x4C, 0x4F, 0x47]

def maxRecordSize : Nat := 16 * 1024 * 1024

def recordHeaderSize : Nat := 24

structure WalRecordHeader where
  entryType : WalEntryType
  flags : UInt8
  payloadLen : UInt32
  crc32c : UInt32
  sequence : UInt64
  deriving DecidableEq, Repr

structure WalRecord where
  header : WalRecordHeader
  payload : Bytes
  deriving DecidableEq, Repr

def WalRecord.new (X : Externals) (entryType : WalEntryType) (sequence : UInt64)
    (payload : Bytes) : WalRecord where
  header :=
    { entryType, flags := 0, payloadLen := UInt32.ofNat payload.length,
      crc32c := X.crc32c payload, sequence }
  payload

/-- The total size of a record on disk. -/
def WalRecord.diskSize (r : WalRecord) : Nat := recordHeaderSize + r.payload.length

def WalRecordHeader.bytes (h : WalRecordHeader) : Bytes :=
  walMagic ++ [h.entryType.toU8] ++ [h.flags] ++ putBE 2 0 ++ putBE 4 h.payloadLen.toNat ++
    putBE 4 h.crc32c.toNat ++ putBE 8 h.sequence.toNat

def WalRecord.bytes (r : WalRecord) : Bytes := r.header.bytes ++ r.payload

def WalRecord.encode (r : WalRecord) : Except WalError Bytes :=
  if r.payload.length > maxRecordSize then
    .error (.recordTooLarge r.payload.length maxRecordSize)
  else .ok r.bytes

/-- The header checks of `decode` on the first 24 bytes of its buffer; four
zero bytes in place of the magic are taken for padding. -/
def peekHeader (head : Bytes) (offset : Nat) : Except WalError (Option WalRecordHeader) :=
  let magic := head.take 4
  if magic ≠ walMagic then
    if magic = [0, 0, 0, 0] then .ok none
    else .error (.invalidHeader offset ("invalid magic: " ++ toString (magic.map UInt8.toNat)))
  else
    match WalEntryType.tryFrom (head.getD 4 0) with
    | none =>
      .error (.invalidHeader offset ("unknown entry type: " ++ toString (head.getD 4 0).toNat))
    | some entryType =>
      let payloadLen := getBE ((head.drop 8).take 4)
      if payloadLen > maxRecordSize then .error (.recordTooLarge payloadLen maxRecordSize)
      else
        .ok (some
          { entryType, flags := head.getD 5 0, payloadLen := UInt32.ofNat payloadLen,
            crc32c := UInt32.ofNat (getBE ((head.drop 12).take 4)),
            sequence := UInt64.ofNat (getBE ((head.drop 16).take 8)) })

/-- Decodes one record: the buffer afterwards, and the record, an error, or
`none` when more data is needed. A checksum mismatch is found only after the
header and the payload have been consumed. -/
def WalRecord.decode (X : Externals) (buf : Bytes) (offset : Nat) :
    Bytes × Except WalError (Option WalRecord) :=
  if buf.length < recordHeaderSize then (buf, .ok none)
  else
    match peekHeader (buf.take recordHeaderSize) offset with
    | .error e => (buf, .error e)
    | .ok none => (buf, .ok none)
    | .ok (some h) =>
      let totalLen := recordHeaderSize + h.payloadLen.toNat
      if buf.length < totalLen then (buf, .ok none)
      else
        let payload := (buf.drop recordHeaderSize).take h.payloadLen.toNat
        let rest := buf.drop totalLen
        if X.crc32c payload ≠ h.crc32c then
          (rest, .error (.corruptedRecord offset h.crc32c (X.crc32c payload)))
        else (rest, .ok (some ⟨h, payload⟩))

@[simp] theorem WalRecordHeader.length_bytes (h : WalRecordHeader) :
    h.bytes.length = recordHeaderSize := by
  simp [WalRecordHeader.bytes, walMagic, recordHeaderSize]

@[simp] theorem WalRecord.length_bytes (r : WalRecord) : r.bytes.length = r.diskSize := by
  simp [WalRecord.bytes, diskSize]

theorem WalRecord.encode_ok {r : WalRecord} (h : r.payload.length ≤ maxRecordSize) :
    r.encode = .ok r.bytes := by
  simp [encode, Nat.not_lt.mpr h]

/-- A record that can be encoded has at most this many payload bytes and records
their number and their checksum. -/
structure WalRecord.Sound (X : Externals) (r : WalRecord) : Prop where
  size : r.payload.length ≤ maxRecordSize
  len : r.header.payloadLen.toNat = r.payload.length
  crc : r.header.crc32c = X.crc32c r.payload

theorem WalRecord.new_sound (X : Externals) (t : WalEntryType) (n : UInt64) {payload : Bytes}
    (h : payload.length ≤ maxRecordSize) : (WalRecord.new X t n payload).Sound X where
  size := h
  len := by
    simp only [WalRecord.new]
    exact UInt32.toNat_ofNat_of_lt' (by simp only [maxRecordSize, UInt32.size] at *; omega)
  crc := rfl

theorem peekHeader_bytes (h : WalRecordHeader) (hs : h.payloadLen.toNat ≤ maxRecordSize)
    (offset : Nat) : peekHeader h.bytes offset = .ok (some h) := by
  have hmagic : h.bytes.take 4 = walMagic := by
    simp [WalRecordHeader.bytes, walMagic]
  have htype : h.bytes.getD 4 0 = h.entryType.toU8 := by
    simp [WalRecordHeader.bytes, walMagic]
  have hflags : h.bytes.getD 5 0 = h.flags := by
    simp [WalRecordHeader.bytes, walMagic]
  have hlen : (h.bytes.drop 8).take 4 = putBE 4 h.payloadLen.toNat := by
    simp [WalRecordHeader.bytes, walMagic]
  have hcrc : (h.bytes.drop 12).take 4 = putBE 4 h.crc32c.toNat := by
    simp [WalRecordHeader.bytes, walMagic, List.drop_append, List.take_append]
  have hseq : (h.bytes.drop 16).take 8 = putBE 8 h.sequence.toNat := by
    rw [WalRecordHeader.bytes, List.drop_left' (by simp [walMagic]),
      List.take_of_length_le (by simp)]
  have elen := Bytes.getBE_putBE_of_lt (k := 4) h.payloadLen.toNat_lt
  have ecrc := Bytes.getBE_putBE_of_lt (k := 4) h.crc32c.toNat_lt
  have eseq := Bytes.getBE_putBE_of_lt (k := 8) h.sequence.toNat_lt
  simp only [peekHeader, hmagic, htype, hflags, hlen, hcrc, hseq, elen, ecrc, eseq,
    WalEntryType.tryFrom_toU8, ne_eq, not_true_eq_false, if_false, Nat.not_lt.mpr hs]
  simp

/-- Decoding undoes encoding, whatever follows the record. -/
theorem WalRecord.decode_bytes {X : Externals} {r : WalRecord} (h : r.Sound X) (rest : Bytes)
    (offset : Nat) : decode X (r.bytes ++ rest) offset = (rest, .ok (some r)) := by
  have hhead : (r.bytes ++ rest).take recordHeaderSize = r.header.bytes := by
    rw [bytes, List.append_assoc, List.take_left' r.header.length_bytes]
  have hpay : (r.bytes ++ rest).drop recordHeaderSize = r.payload ++ rest := by
    rw [bytes, List.append_assoc, List.drop_left' r.header.length_bytes]
  have hrest : (r.bytes ++ rest).drop (recordHeaderSize + r.payload.length) = rest := by
    rw [← List.drop_drop, hpay, List.drop_left]
  have hlong : ¬ (r.bytes ++ rest).length < recordHeaderSize + r.payload.length := by
    simp [diskSize]
  have hshort : ¬ (r.bytes ++ rest).length < recordHeaderSize := by omega
  have hpeek := peekHeader_bytes r.header (by rw [h.len]; exact h.size) offset
  simp only [decode, hshort, if_false, hhead, hpeek, h.len, hlong, hpay, List.take_left, hrest,
    h.crc, ne_eq, not_true_eq_false]

/-- A record cut short is waited for, not rejected. -/
theorem WalRecord.decode_strict_prefix {X : Externals} {r : WalRecord} (h : r.Sound X)
    {t : Bytes} (ht : t <+: r.bytes) (hne : t ≠ r.bytes) (offset : Nat) :
    decode X t offset = (t, .ok none) := by
  have hlt : t.length < r.diskSize := by
    rw [← r.length_bytes]
    exact lt_of_le_of_ne ht.length_le fun he => hne (ht.eq_of_length he)
  by_cases hs : t.length < recordHeaderSize
  · simp [decode, hs]
  · have hhead : t.take recordHeaderSize = r.header.bytes := by
      obtain ⟨u, hu⟩ := ht
      have := congrArg (List.take recordHeaderSize) hu
      rw [List.take_append_of_le_length (by omega), bytes,
        List.take_left' r.header.length_bytes] at this
      exact this
    have hpeek := peekHeader_bytes r.header (by rw [h.len]; exact h.size) offset
    have hwait : t.length < recordHeaderSize + r.payload.length := hlt
    simp [decode, hs, hhead, hpeek, h.len, hwait]

/-! ## What `decode` did to its buffer -/

/-- What `decode` answers about a record that is there as a whole. -/
def WalRecord.checked (X : Externals) (hd : WalRecordHeader) (payload : Bytes) (offset : Nat) :
    Except WalError (Option WalRecord) :=
  if X.crc32c payload ≠ hd.crc32c then
    .error (.corruptedRecord offset hd.crc32c (X.crc32c payload))
  else .ok (some ⟨hd, payload⟩)

section
variable {X : Externals} {buf rest : Bytes} {offset : Nat} {a : Except WalError (Option WalRecord)}

theorem WalRecord.decode_whole {hd : WalRecordHeader}
    (hp : peekHeader (buf.take recordHeaderSize) offset = .ok (some hd))
    (hfit : recordHeaderSize + hd.payloadLen.toNat ≤ buf.length) :
    decode X buf offset = (buf.drop (recordHeaderSize + hd.payloadLen.toNat),
      checked X hd ((buf.drop recordHeaderSize).take hd.payloadLen.toNat) offset) := by
  have hshort : ¬ buf.length < recordHeaderSize := by omega
  have hwait : ¬ buf.length < recordHeaderSize + hd.payloadLen.toNat := by omega
  simp only [decode, hshort, if_false, hp, hwait, checked]
  split <;> rfl

/-- It waited, it refused the header, or it took a whole record off the front. -/
theorem WalRecord.decode_cases (h : decode X buf offset = (rest, a)) :
    (rest = buf ∧ a = .ok none) ∨
    (recordHeaderSize ≤ buf.length ∧
      ∃ e, peekHeader (buf.take recordHeaderSize) offset = .error e ∧ rest = buf ∧ a = .error e) ∨
    ∃ hd, peekHeader (buf.take recordHeaderSize) offset = .ok (some hd) ∧
      recordHeaderSize + hd.payloadLen.toNat ≤ buf.length ∧
      rest = buf.drop (recordHeaderSize + hd.payloadLen.toNat) ∧
      a = checked X hd ((buf.drop recordHeaderSize).take hd.payloadLen.toNat) offset := by
  by_cases hs : buf.length < recordHeaderSize
  · simp only [decode, hs, if_true, Prod.mk.injEq] at h
    exact .inl ⟨h.1.symm, h.2.symm⟩
  · rcases hp : peekHeader (buf.take recordHeaderSize) offset with e | _ | hd
    · simp only [decode, hs, if_false, hp, Prod.mk.injEq] at h
      exact .inr (.inl ⟨Nat.not_lt.mp hs, e, rfl, h.1.symm, h.2.symm⟩)
    · simp only [decode, hs, if_false, hp, Prod.mk.injEq] at h
      exact .inl ⟨h.1.symm, h.2.symm⟩
    · by_cases hw : buf.length < recordHeaderSize + hd.payloadLen.toNat
      · simp only [decode, hs, if_false, hp, hw, if_true, Prod.mk.injEq] at h
        exact .inl ⟨h.1.symm, h.2.symm⟩
      · have hfit := Nat.not_lt.mp hw
        rw [decode_whole hp hfit, Prod.mk.injEq] at h
        exact .inr (.inr ⟨hd, rfl, hfit, h.1.symm, h.2.symm⟩)

/-- Once `decode` has answered with a record or an error, later bytes change
neither the answer nor what it consumed. -/
theorem WalRecord.decode_append (h : decode X buf offset = (rest, a)) (ha : a ≠ .ok none)
    (more : Bytes) : decode X (buf ++ more) offset = (rest ++ more, a) := by
  obtain ⟨-, rfl⟩ | ⟨hlong, e, hp, rfl, rfl⟩ | ⟨hd, hp, hfit, rfl, rfl⟩ := decode_cases h
  · exact absurd rfl ha
  · have hshort : ¬ (rest ++ more).length < recordHeaderSize := by
      rw [List.length_append]
      omega
    rw [decode, if_neg hshort, List.take_append_of_le_length hlong, hp]
  · have hp' : peekHeader ((buf ++ more).take recordHeaderSize) offset = .ok (some hd) := by
      rw [List.take_append_of_le_length (by omega), hp]
    have hlen : hd.payloadLen.toNat ≤ (buf.drop recordHeaderSize).length := by
      rw [List.length_drop]
      omega
    rw [decode_whole hp' (by rw [List.length_append]; omega), List.drop_append_of_le_length hfit,
      List.drop_append_of_le_length (by omega), List.take_append_of_le_length hlen]

theorem WalRecord.checked_ne_none (hd : WalRecordHeader) (payload : Bytes) :
    checked X hd payload offset ≠ .ok none := by
  unfold checked
  split <;> simp

theorem WalRecord.decode_waits (h : decode X buf offset = (rest, .ok none)) : rest = buf := by
  obtain ⟨rfl, -⟩ | ⟨-, e, -, -, ha⟩ | ⟨hd, -, -, -, ha⟩ := decode_cases h
  · rfl
  · cases ha
  · exact absurd ha.symm (checked_ne_none hd _)

theorem WalRecord.decode_consumes {r : WalRecord} (h : decode X buf offset = (rest, .ok (some r))) :
    buf.length = r.diskSize + rest.length := by
  obtain ⟨-, ha⟩ | ⟨-, e, -, -, ha⟩ | ⟨hd, -, hfit, rfl, ha⟩ := decode_cases h
  · cases ha
  · cases ha
  unfold checked at ha
  split at ha
  · cases ha
  · cases ha
    simp only [diskSize, List.length_take, List.length_drop]
    omega

end

end Rstmdb

import Rstmdb.Wal.Segment

/-! The recovery scanner, which looks for records in damaged segments and cuts off
what follows the last one. A record whose checksum is wrong has left the buffer when
`decode` reports it, but the scanner moves its offset by one byte only. From there on
it truncates too early. -/
namespace Rstmdb

/-- `set_len`: the file cut off, or filled up with zeros. -/
def SegFile.setLen (f : SegFile) (n : Nat) : SegFile where
  bytes := f.bytes.take n ++ List.replicate (n - f.bytes.length) 0
  synced := min f.synced n

/-- Truncates the segment at the given offset. -/
def Segment.truncateAt (seg : Segment) (dir : Dir) (offset : Nat) : Segment × Dir :=
  { seg with size := offset }.sync
    (match dir[seg.id]? with
    | none => dir
    | some f => dir.insert seg.id (f.setLen offset))

/-- Result of a recovery scan. -/
structure RecoveryResult where
  validRecords : Nat
  invalidRecords : Nat
  bytesTruncated : Nat
  segmentsRecovered : List SegmentId
  segmentsWithErrors : List (SegmentId × WalError)
  maxSequence : UInt64

namespace RecoveryScanner

/-- What the scan of one segment has counted so far. `found` lists the records behind
`validRecords`, each with its place in the file; the source keeps their number only. -/
structure Tally where
  validRecords : Nat
  invalidRecords : Nat
  maxSequence : UInt64
  lastValidOffset : Nat
  found : List (Nat × WalRecord)

section
variable (X : Externals)

/-- The loop over the buffer of a segment. After a bad record or header it goes on one
byte further. -/
def scanRecords (fileSize : Nat) : Nat → Bytes → Nat → Tally → Except WalError Tally
  | 0, _, _, t => .ok t
  | fuel + 1, buf, offset, t =>
    if buf.length < recordHeaderSize then .ok t
    else
      match WalRecord.decode X buf offset with
      | (rest, .ok (some record)) =>
        scanRecords fileSize fuel rest (offset + record.diskSize)
          { t with
            validRecords := t.validRecords + 1
            maxSequence := max t.maxSequence record.header.sequence
            lastValidOffset := offset + record.diskSize
            found := t.found ++ [(fileSize - buf.length, record)] }
      | (_, .ok none) => .ok t
      | (rest, .error (.corruptedRecord ..)) =>
        scanRecords fileSize fuel (rest.drop 1) (if rest.isEmpty then offset else offset + 1)
          { t with invalidRecords := t.invalidRecords + 1 }
      | (rest, .error (.invalidHeader ..)) =>
        if rest.all (· == 0) then .ok t
        else
          scanRecords fileSize fuel (rest.drop 1) (if rest.isEmpty then offset else offset + 1)
            { t with invalidRecords := t.invalidRecords + 1 }
      | (_, .error e) => .error e

/-- The scan of a whole file. -/
def scanFile (f : SegFile) : Except WalError Tally :=
  scanRecords X f.bytes.length f.bytes.length f.bytes 0 ⟨0, 0, 0, 0, []⟩

/-- Scans a single segment: the valid and the invalid records, the bytes truncated and
the greatest sequence number. -/
def scanSegment (dir : Dir) (id : SegmentId) (segmentSize : Nat) (repair : Bool) :
    Except WalError (Nat × Nat × Nat × UInt64) × Dir :=
  match Segment.openFile dir id segmentSize, dir[id]? with
  | .ok segment, some file =>
    match scanFile X file with
    | .error e => (.error e, dir)
    | .ok t =>
      let bytesTruncated := segment.size - t.lastValidOffset
      (.ok (t.validRecords, t.invalidRecords, bytesTruncated, t.maxSequence),
        if repair && bytesTruncated > 0 then (segment.truncateAt dir t.lastValidOffset).2
        else dir)
  | _, _ => (.error .io, dir)

/-- The report with the outcome of one more segment. -/
def RecoveryResult.add (r : RecoveryResult) (id : SegmentId) :
    Except WalError (Nat × Nat × Nat × UInt64) → RecoveryResult
  | .ok (valid, invalid, truncated, maxSeq) =>
    { r with
      validRecords := r.validRecords + valid
      invalidRecords := r.invalidRecords + invalid
      bytesTruncated := r.bytesTruncated + truncated
      maxSequence := max r.maxSequence maxSeq
      segmentsRecovered :=
        if invalid > 0 || truncated > 0 then r.segmentsRecovered ++ [id]
        else r.segmentsRecovered }
  | .error e => { r with segmentsWithErrors := r.segmentsWithErrors ++ [(id, e)] }

/-- Scans and optionally repairs the log. -/
def scan (dir : Dir) (segmentSize : Nat) (repair : Bool) : RecoveryResult × Dir :=
  dir.keys.foldl
    (fun acc id =>
      let (outcome, dir') := scanSegment X acc.2 id segmentSize repair
      (RecoveryResult.add acc.1 id outcome, dir'))
    (⟨0, 0, 0, [], [], 0⟩, dir)

end

end RecoveryScanner

/-! ## What `decode` tells about a damaged buffer -/

/-- The error as it is reported at another offset. -/
def WalError.relocate (offset : Nat) : WalError → WalError
  | .corruptedRecord _ expected actual => .corruptedRecord offset expected actual
  | .invalidHeader _ reason => .invalidHeader offset reason
  | e => e

theorem peekHeader_at (head : Bytes) (offset : Nat) :
    peekHeader head offset = (peekHeader head 0).mapError (WalError.relocate offset) := by
  unfold peekHeader
  simp only
  split
  · split <;> rfl
  cases WalEntryType.tryFrom (head.getD 4 0) with
  | none => rfl
  | some t =>
    simp only
    split <;> rfl

/-- The offset goes into the errors and nowhere else. -/
theorem WalRecord.decode_at (X : Externals) (buf : Bytes) (offset : Nat) :
    decode X buf offset =
      ((decode X buf 0).1, (decode X buf 0).2.mapError (WalError.relocate offset)) := by
  unfold decode
  split
  · rfl
  rw [peekHeader_at]
  rcases peekHeader (buf.take recordHeaderSize) 0 with e | _ | hd
  · rfl
  · rfl
  · simp only [Except.mapError]
    split
    · rfl
    · split <;> rfl

variable {offset o : Nat} {reason : String} {buf : Bytes}

theorem peekHeader_nonzero {head : Bytes}
    (h : peekHeader head offset = .error (.invalidHeader o reason)) :
    head.take 4 ≠ [0, 0, 0, 0] := by
  intro hz
  simp [peekHeader, hz, walMagic] at h

theorem peekHeader_ne_corrupted {head : Bytes} {expected actual : UInt32} :
    peekHeader head offset ≠ .error (.corruptedRecord o expected actual) := by
  unfold peekHeader
  simp only
  split
  · split <;> simp
  cases WalEntryType.tryFrom (head.getD 4 0) with
  | none => simp
  | some t =>
    simp only
    split <;> simp

theorem WalRecord.decode_invalidHeader {X : Externals} {rest : Bytes}
    (h : decode X buf offset = (rest, .error (.invalidHeader o reason))) :
    rest = buf ∧ recordHeaderSize ≤ buf.length ∧
      peekHeader (buf.take recordHeaderSize) offset = .error (.invalidHeader o reason) := by
  obtain ⟨-, ha⟩ | ⟨hlong, e, hp, rfl, ha⟩ | ⟨hd, -, -, -, ha⟩ := decode_cases h
  · cases ha
  · cases ha
    exact ⟨rfl, hlong, hp⟩
  · unfold checked at ha
    split at ha <;> cases ha

theorem all_zero_false (hl : recordHeaderSize ≤ buf.length)
    (h : peekHeader (buf.take recordHeaderSize) offset = .error (.invalidHeader o reason)) :
    buf.all (· == 0) = false := by
  rw [Bool.eq_false_iff]
  intro hz
  have hrep : buf = List.replicate buf.length 0 := by
    rw [List.eq_replicate_iff]
    exact ⟨rfl, by simpa using hz⟩
  apply peekHeader_nonzero h
  simp only [recordHeaderSize] at hl
  rw [hrep, List.take_take, List.take_replicate]
  simp [recordHeaderSize, show min 4 buf.length = 4 by omega]

theorem WalRecord.decode_corrupted {X : Externals} {rest : Bytes} {expected actual : UInt32}
    (h : decode X buf offset = (rest, .error (.corruptedRecord o expected actual))) :
    rest.length + recordHeaderSize ≤ buf.length := by
  obtain ⟨-, ha⟩ | ⟨-, e, hp, -, ha⟩ | ⟨hd, -, hfit, rfl, -⟩ := decode_cases h
  · cases ha
  · cases ha
    exact absurd hp peekHeader_ne_corrupted
  · rw [List.length_drop]
    omega

/-! ## What the scan meets in a file -/

/-- What the scan meets on its way: a record, a byte that starts none, or a record
whose checksum is wrong, gone with the byte after it if there is one. -/
inductive Mark
  | record (r : WalRecord)
  | junk
  | corrupt (size : Nat) (more : Bool)
  deriving DecidableEq

namespace Mark

def isRecord : Mark → Bool
  | record _ => true
  | _ => false

/-- How far the scan moves in the file. -/
def passed : Mark → Nat
  | record r => r.diskSize
  | junk => 1
  | corrupt size more => size + more.toNat

/-- How far it moves its offset. -/
def counted : Mark → Nat
  | record r => r.diskSize
  | junk => 1
  | corrupt _ more => more.toNat

end Mark

/-- The marks of a file, from the front on. -/
def marks (X : Externals) : Nat → Bytes → Except WalError (List Mark)
  | 0, _ => .ok []
  | fuel + 1, buf =>
    if buf.length < recordHeaderSize then .ok []
    else
      match WalRecord.decode X buf 0 with
      | (rest, .ok (some r)) => (marks X fuel rest).map (.record r :: ·)
      | (_, .ok none) => .ok []
      | (rest, .error (.corruptedRecord ..)) =>
        (marks X fuel (rest.drop 1)).map
          (.corrupt (buf.length - rest.length) (!rest.isEmpty) :: ·)
      | (rest, .error (.invalidHeader ..)) => (marks X fuel (rest.drop 1)).map (.junk :: ·)
      | (_, .error e) => .error e

/-- The records among the marks, with their places in the file. -/
def placedMarks : Nat → List Mark → List (Nat × WalRecord)
  | _, [] => []
  | pos, .record r :: ms => (pos, r) :: placedMarks (pos + r.diskSize) ms
  | pos, m :: ms => placedMarks (pos + m.passed) ms

/-- Where the scanner's offset stands behind the last record. -/
def lastValid : Nat → Nat → List Mark → Nat
  | _, last, [] => last
  | offset, _, .record r :: ms => lastValid (offset + r.diskSize) (offset + r.diskSize) ms
  | offset, last, m :: ms => lastValid (offset + m.counted) last ms

/-- No record comes after one whose checksum is wrong. -/
def intactFirst : List Mark → Bool
  | [] => true
  | .corrupt _ _ :: ms => ms.all (!·.isRecord)
  | _ :: ms => intactFirst ms

/-- The marks up to the last record. -/
def upToLast : List Mark → List Mark
  | [] => []
  | m :: ms => if (m :: ms).any Mark.isRecord then m :: upToLast ms else []


namespace RecoveryScanner

variable {X : Externals}

/-- The tally after the marks `ms`. -/
def Tally.after (t : Tally) : Nat → Nat → List Mark → Tally
  | _, _, [] => t
  | pos, offset, .record r :: ms =>
    Tally.after
      { t with
        validRecords := t.validRecords + 1
        maxSequence := max t.maxSequence r.header.sequence
        lastValidOffset := offset + r.diskSize
        found := t.found ++ [(pos, r)] }
      (pos + r.diskSize) (offset + r.diskSize) ms
  | pos, offset, m :: ms =>
    Tally.after { t with invalidRecords := t.invalidRecords + 1 } (pos + m.passed)
      (offset + m.counted) ms

theorem scanRecords_eq {fileSize fuel : Nat} {buf : Bytes} (hb : buf.length ≤ fileSize)
    (offset : Nat) (t : Tally) :
    scanRecords X fileSize fuel buf offset t =
      (marks X fuel buf).map (t.after (fileSize - buf.length) offset) := by
  induction fuel generalizing buf offset t with
  | zero => rfl
  | succ fuel ih =>
    by_cases hs : buf.length < recordHeaderSize
    · simp [scanRecords, marks, hs, Except.map, Tally.after]
    · rcases hd : WalRecord.decode X buf 0 with ⟨rest, e | _ | r⟩
      · cases e with
        | corruptedRecord o expected actual =>
          have hc := WalRecord.decode_corrupted hd
          simp only [scanRecords, marks, hs, WalRecord.decode_at X buf offset, hd,
            Except.mapError, if_false, WalError.relocate]
          rw [ih (by rw [List.length_drop]; omega)]
          cases rest with
          | nil =>
            have hpos : fileSize - 0 = fileSize - buf.length + (buf.length - 0 + 0) := by omega
            simp only [List.drop_nil, List.length_nil, List.isEmpty_nil, if_true, hpos]
            cases marks X fuel [] <;> rfl
          | cons b bs =>
            have hpos : fileSize - bs.length =
                fileSize - buf.length + (buf.length - (bs.length + 1) + 1) := by
              simp only [List.length_cons] at hc
              omega
            simp only [List.drop_one, List.tail_cons, List.length_cons, List.isEmpty_cons, hpos]
            cases marks X fuel bs <;> rfl
        | invalidHeader o reason =>
          obtain ⟨rfl, hl, hp⟩ := WalRecord.decode_invalidHeader hd
          have hne : rest.isEmpty = false := by
            cases rest with
            | nil => simp [recordHeaderSize] at hl
            | cons b bs => rfl
          have hpos : fileSize - (rest.drop 1).length = fileSize - rest.length + 1 := by
            simp only [List.length_drop, recordHeaderSize] at *
            omega
          simp only [scanRecords, marks, hs, WalRecord.decode_at X rest offset, hd,
            Except.mapError, if_false, WalError.relocate, all_zero_false hl hp, hne]
          rw [ih (by rw [List.length_drop]; omega), hpos]
          cases marks X fuel (rest.drop 1) <;> rfl
        | io | recordTooLarge | closed | json => simp [scanRecords, marks, hs,
          WalRecord.decode_at X buf offset, hd, Except.map, Except.mapError, WalError.relocate]
      · simp [scanRecords, marks, hs, WalRecord.decode_at X buf offset, hd, Except.map,
          Except.mapError, Tally.after]
      · have hc := WalRecord.decode_consumes hd
        have hpos : fileSize - rest.length = fileSize - buf.length + r.diskSize := by omega
        simp only [scanRecords, marks, hs, WalRecord.decode_at X buf offset, hd,
          Except.mapError, if_false]
        rw [ih (by omega), hpos]
        cases marks X fuel rest <;> rfl

theorem Tally.after_found (t : Tally) (pos offset : Nat) (ms : List Mark) :
    (t.after pos offset ms).found = t.found ++ placedMarks pos ms := by
  induction ms generalizing t pos offset with
  | nil => simp [after, placedMarks]
  | cons m ms ih => cases m <;> simp [after, placedMarks, ih, Mark.passed]

theorem Tally.after_validRecords (t : Tally) (pos offset : Nat) (ms : List Mark) :
    (t.after pos offset ms).validRecords = t.validRecords + (placedMarks pos ms).length := by
  induction ms generalizing t pos offset with
  | nil => simp [after, placedMarks]
  | cons m ms ih => cases m <;> (simp [after, placedMarks, ih, Mark.passed]; try omega)

theorem Tally.after_lastValidOffset (t : Tally) (pos offset : Nat) (ms : List Mark) :
    (t.after pos offset ms).lastValidOffset = lastValid offset t.lastValidOffset ms := by
  induction ms generalizing t pos offset with
  | nil => simp [after, lastValid]
  | cons m ms ih => cases m <;> simp [after, lastValid, ih, Mark.counted]

/-- The scan of a file, in terms of its marks. -/
theorem scanFile_ok {f : SegFile} {t : Tally} :
    scanFile X f = .ok t ↔ ∃ ms, marks X f.bytes.length f.bytes = .ok ms ∧
      t = Tally.after ⟨0, 0, 0, 0, []⟩ 0 0 ms := by
  rw [scanFile, scanRecords_eq le_rfl, Nat.sub_self]
  cases marks X f.bytes.length f.bytes with
  | error e => simp [Except.map]
  | ok ms => simp [Except.map, eq_comm]

end RecoveryScanner

/-! ## Records behind a bad checksum -/

section
variable {X : Externals}

/-- The bytes that the marks cover. -/
def covered (ms : List Mark) : Nat := (ms.map Mark.passed).sum

theorem covered_cons (m : Mark) (ms : List Mark) : covered (m :: ms) = m.passed + covered ms := by
  simp [covered]

theorem map_eq_ok {ε α β : Type} {x : Except ε α} {f : α → β} {b : β} (h : x.map f = .ok b) :
    ∃ a, x = .ok a ∧ b = f a := by
  cases x with
  | error e => cases h
  | ok a => exact ⟨a, rfl, (Except.ok.inj h).symm⟩

variable {fuel offset : Nat} {buf : Bytes} {ms : List Mark}

/-- The marks of a file are none, or the first one and those of what it leaves. -/
theorem marks_cases (h : marks X (fuel + 1) buf = .ok ms) :
    ms = [] ∨
    (∃ rest r ms', WalRecord.decode X buf 0 = (rest, .ok (some r)) ∧
      marks X fuel rest = .ok ms' ∧ ms = .record r :: ms') ∨
    (∃ o expected actual rest ms',
      WalRecord.decode X buf 0 = (rest, .error (.corruptedRecord o expected actual)) ∧
      marks X fuel (rest.drop 1) = .ok ms' ∧
      ms = .corrupt (buf.length - rest.length) (!rest.isEmpty) :: ms') ∨
    (∃ o reason ms', WalRecord.decode X buf 0 = (buf, .error (.invalidHeader o reason)) ∧
      marks X fuel (buf.drop 1) = .ok ms' ∧ ms = .junk :: ms') := by
  by_cases hs : buf.length < recordHeaderSize
  · simp only [marks, hs, if_true, Except.ok.injEq] at h
    exact .inl h.symm
  · rcases hd : WalRecord.decode X buf 0 with ⟨rest, e | _ | r⟩
    · cases e with
      | corruptedRecord o expected actual =>
        simp only [marks, hs, if_false, hd] at h
        obtain ⟨ms', hm, rfl⟩ := map_eq_ok h
        exact .inr (.inr (.inl ⟨o, expected, actual, rest, ms', rfl, hm, rfl⟩))
      | invalidHeader o reason =>
        obtain ⟨rfl, -, -⟩ := WalRecord.decode_invalidHeader hd
        simp only [marks, hs, if_false, hd] at h
        obtain ⟨ms', hm, rfl⟩ := map_eq_ok h
        exact .inr (.inr (.inr ⟨o, reason, ms', rfl, hm, rfl⟩))
      | io | recordTooLarge | closed | json => simp [marks, hs, hd] at h
    · simp only [marks, hs, if_false, hd, Except.ok.injEq] at h
      exact .inl h.symm
    · simp only [marks, hs, if_false, hd] at h
      obtain ⟨ms', hm, rfl⟩ := map_eq_ok h
      exact .inr (.inl ⟨rest, r, ms', rfl, hm, rfl⟩)

theorem covered_marks (h : marks X fuel buf = .ok ms) : covered ms ≤ buf.length := by
  induction fuel generalizing buf ms with
  | zero =>
    cases h
    exact Nat.zero_le _
  | succ fuel ih =>
    obtain rfl | ⟨rest, r, ms', hd, hm, rfl⟩ | ⟨o, x, a, rest, ms', hd, hm, rfl⟩ |
      ⟨o, reason, ms', hd, hm, rfl⟩ := marks_cases h
    · exact Nat.zero_le _
    · have := WalRecord.decode_consumes hd
      have := ih hm
      rw [covered_cons, Mark.passed]
      omega
    · have := WalRecord.decode_corrupted hd
      have := ih hm
      rw [covered_cons, Mark.passed]
      cases rest <;> simp at * <;> omega
    · have := (WalRecord.decode_invalidHeader hd).2.1
      have := ih hm
      rw [covered_cons, Mark.passed]
      simp only [List.length_drop, recordHeaderSize] at *
      omega

theorem placedMarks_le {pos : Nat} {p : Nat × WalRecord} (h : p ∈ placedMarks pos ms) :
    p.1 + p.2.diskSize ≤ pos + covered ms := by
  induction ms generalizing pos with
  | nil => simp [placedMarks] at h
  | cons m ms ih =>
    rw [covered_cons]
    cases m with
    | record r =>
      obtain rfl | h := List.mem_cons.mp h
      · simp only [Mark.passed]
        omega
      · have := ih h
        simp only [Mark.passed]
        omega
    | junk | corrupt =>
      have := ih h
      omega

theorem placedMarks_eq_nil (h : ms.any Mark.isRecord = false) (pos : Nat) :
    placedMarks pos ms = [] := by
  induction ms generalizing pos with
  | nil => rfl
  | cons m ms ih =>
    rw [List.any_cons, Bool.or_eq_false_iff] at h
    cases m with
    | record r => simp [Mark.isRecord] at h
    | junk | corrupt => exact ih h.2 _

theorem placedMarks_upToLast (pos : Nat) (ms : List Mark) :
    placedMarks pos (upToLast ms) = placedMarks pos ms := by
  induction ms generalizing pos with
  | nil => rfl
  | cons m ms ih =>
    cases hr : (m :: ms).any Mark.isRecord with
    | false => rw [upToLast, hr, placedMarks_eq_nil hr]; rfl
    | true => cases m <;> simp [upToLast, hr, placedMarks, ih]

theorem lastValid_eq_last (h : ms.any Mark.isRecord = false) (offset last : Nat) :
    lastValid offset last ms = last := by
  induction ms generalizing offset with
  | nil => rfl
  | cons m ms ih =>
    rw [List.any_cons, Bool.or_eq_false_iff] at h
    cases m with
    | record r => simp [Mark.isRecord] at h
    | junk | corrupt => exact ih h.2 _

theorem lastValid_upToLast (offset last : Nat) (ms : List Mark) :
    lastValid offset last (upToLast ms) = lastValid offset last ms := by
  induction ms generalizing offset last with
  | nil => rfl
  | cons m ms ih =>
    cases hr : (m :: ms).any Mark.isRecord with
    | false => rw [upToLast, hr, lastValid_eq_last hr]; rfl
    | true => cases m <;> simp [upToLast, hr, lastValid, ih]

theorem upToLast_eq_nil (h : ms.any Mark.isRecord = false) : upToLast ms = [] := by
  cases ms with
  | nil => rfl
  | cons m ms => simp only [upToLast, h]; rfl

/-- Without a record behind a bad checksum, the offset is the place in the file. -/
theorem lastValid_intact (h : intactFirst ms = true) (hr : ms.any Mark.isRecord = true)
    (offset last : Nat) : lastValid offset last ms = offset + covered (upToLast ms) := by
  induction ms generalizing offset last with
  | nil => simp at hr
  | cons m ms ih =>
    rw [upToLast, if_pos hr, covered_cons]
    cases hrest : ms.any Mark.isRecord with
    | false =>
      cases m with
      | record r => simp [lastValid, lastValid_eq_last hrest, upToLast_eq_nil hrest, covered,
          Mark.passed]
      | junk | corrupt => simp [Mark.isRecord, hrest] at hr
    | true =>
      cases m with
      | record r => rw [lastValid, ih h hrest, Mark.passed, Nat.add_assoc]
      | junk =>
        change lastValid (offset + 1) last ms = _
        rw [ih h hrest, Mark.passed, Nat.add_assoc]
      | corrupt size more =>
        obtain ⟨r, hm, hrec⟩ := List.any_eq_true.mp hrest
        simpa [hrec] using List.all_eq_true.mp h r hm

/-- Once the offset has fallen behind, it stays behind at every later record. -/
theorem lastValid_behind {pos : Nat} (hlt : offset < pos) (hr : ms.any Mark.isRecord = true)
    (last : Nat) : ∃ p ∈ placedMarks pos ms, lastValid offset last ms < p.1 + p.2.diskSize := by
  induction ms generalizing pos offset last with
  | nil => simp at hr
  | cons m ms ih =>
    cases m with
    | record r =>
      cases hrest : ms.any Mark.isRecord with
      | false =>
        refine ⟨(pos, r), List.mem_cons_self, ?_⟩
        rw [lastValid, lastValid_eq_last hrest]
        exact Nat.add_lt_add_right hlt r.diskSize
      | true =>
        obtain ⟨p, hp, hl⟩ := ih (Nat.add_lt_add_right hlt r.diskSize) hrest
          (offset + r.diskSize)
        exact ⟨p, List.mem_cons_of_mem _ hp, hl⟩
    | junk => exact ih (Nat.add_lt_add_right hlt 1) hr last
    | corrupt size more =>
      refine ih ?_ hr last
      simp only [Mark.passed, Mark.counted]
      omega

theorem lastValid_lost (hm : marks X fuel buf = .ok ms) (h : intactFirst ms = false)
    (pos last : Nat) : ∃ p ∈ placedMarks pos ms, lastValid pos last ms < p.1 + p.2.diskSize := by
  induction fuel generalizing buf ms pos last with
  | zero =>
    cases hm
    cases h
  | succ fuel ih =>
    obtain rfl | ⟨rest, r, ms', hd, hm', rfl⟩ | ⟨o, x, a, rest, ms', hd, hm', rfl⟩ |
      ⟨o, reason, ms', hd, hm', rfl⟩ := marks_cases hm
    · cases h
    · obtain ⟨p, hp, hl⟩ := ih hm' h (pos + r.diskSize) (pos + r.diskSize)
      exact ⟨p, List.mem_cons_of_mem _ hp, hl⟩
    · have hc := WalRecord.decode_corrupted hd
      have hr : ms'.any Mark.isRecord = true := by
        obtain ⟨m, hmem, hrec⟩ := List.all_eq_false.mp h
        exact List.any_eq_true.mpr ⟨m, hmem, by simpa using hrec⟩
      refine lastValid_behind ?_ hr last
      simp only [Mark.passed, Mark.counted, recordHeaderSize] at *
      omega
    · exact ih hm' h (pos + 1) last

/-! ## The file behind its last record cut off -/

theorem marks_record {rest : Bytes} {r : WalRecord}
    (h : WalRecord.decode X buf 0 = (rest, .ok (some r))) :
    marks X (fuel + 1) buf = (marks X fuel rest).map (.record r :: ·) := by
  have hc := WalRecord.decode_consumes h
  have hs : ¬ buf.length < recordHeaderSize := by
    simp only [WalRecord.diskSize] at hc
    omega
  simp [marks, hs, h]

theorem marks_junk {o : Nat} {reason : String}
    (h : WalRecord.decode X buf 0 = (buf, .error (.invalidHeader o reason))) :
    marks X (fuel + 1) buf = (marks X fuel (buf.drop 1)).map (.junk :: ·) := by
  have hs := Nat.not_lt.mpr (WalRecord.decode_invalidHeader h).2.1
  simp [marks, hs, h]

theorem WalRecord.decode_take {rest : Bytes} {r : WalRecord}
    (h : decode X buf offset = (rest, .ok (some r))) (n : Nat) :
    decode X (buf.take (r.diskSize + n)) offset = (rest.take n, .ok (some r)) := by
  obtain ⟨-, ha⟩ | ⟨-, e, -, -, ha⟩ | ⟨hd, hp, hfit, rfl, ha⟩ := decode_cases h
  · cases ha
  · cases ha
  have hsize : r.diskSize = recordHeaderSize + hd.payloadLen.toNat := by
    have := decode_consumes h
    rw [List.length_drop] at this
    omega
  have hhead : (buf.take (r.diskSize + n)).take recordHeaderSize =
      buf.take recordHeaderSize := by
    rw [List.take_take, Nat.min_eq_left (by omega)]
  have hlong : recordHeaderSize + hd.payloadLen.toNat ≤ (buf.take (r.diskSize + n)).length := by
    rw [List.length_take]
    omega
  have hpay : ((buf.take (r.diskSize + n)).drop recordHeaderSize).take hd.payloadLen.toNat =
      (buf.drop recordHeaderSize).take hd.payloadLen.toNat := by
    rw [List.drop_take, List.take_take, Nat.min_eq_left (by omega)]
  rw [decode_whole (by rw [hhead, hp]) hlong, hpay, ← ha, List.drop_take,
    show r.diskSize + n - (recordHeaderSize + hd.payloadLen.toNat) = n by omega]

theorem WalRecord.decode_junk_take {o : Nat} {reason : String}
    (h : decode X buf offset = (buf, .error (.invalidHeader o reason))) {n : Nat}
    (hn : recordHeaderSize ≤ n) :
    decode X (buf.take n) offset = (buf.take n, .error (.invalidHeader o reason)) := by
  obtain ⟨-, hl, hp⟩ := decode_invalidHeader h
  have hs : ¬ (buf.take n).length < recordHeaderSize := by
    rw [List.length_take]
    omega
  have ht : (buf.take n).take recordHeaderSize = buf.take recordHeaderSize := by
    rw [List.take_take, Nat.min_eq_left hn]
  rw [decode, if_neg hs, ht, hp]

theorem upToLast_long (h : ms.any Mark.isRecord = true) :
    recordHeaderSize ≤ covered (upToLast ms) := by
  induction ms with
  | nil => simp at h
  | cons m ms ih =>
    rw [upToLast, if_pos h, covered_cons]
    cases m with
    | record r =>
      simp only [Mark.passed, WalRecord.diskSize]
      omega
    | junk | corrupt =>
      have := ih h
      omega

theorem marks_nil (n : Nat) : marks X n [] = .ok [] := by
  cases n <;> rfl

/-- The file cut off behind its last record has the same marks up to there. -/
theorem marks_take (h : marks X fuel buf = .ok ms) (hi : intactFirst ms = true) {n : Nat}
    (hn : covered (upToLast ms) ≤ n) :
    marks X n (buf.take (covered (upToLast ms))) = .ok (upToLast ms) := by
  induction fuel generalizing buf ms n with
  | zero =>
    cases h
    exact marks_nil n
  | succ fuel ih =>
    cases hr : ms.any Mark.isRecord with
    | false =>
      rw [upToLast_eq_nil hr]
      exact marks_nil n
    | true =>
      obtain rfl | ⟨rest, r, ms', hd, hm, rfl⟩ | ⟨o, x, a, rest, ms', hd, hm, rfl⟩ |
        ⟨o, reason, ms', hd, hm, rfl⟩ := marks_cases h
      · cases hr
      · rw [upToLast, if_pos hr, covered_cons, Mark.passed] at hn ⊢
        have hpos : 0 < r.diskSize := Nat.lt_of_lt_of_le (by decide) (Nat.le_add_right _ _)
        obtain ⟨n, rfl⟩ : ∃ k, n = k + 1 := ⟨n - 1, by omega⟩
        rw [marks_record (WalRecord.decode_take hd _), ih hm hi (by omega)]
        rfl
      · -- an intact file has no record behind a bad checksum
        obtain ⟨m, hmem, hrec⟩ := List.any_eq_true.mp hr
        obtain rfl | hmem := List.mem_cons.mp hmem
        · cases hrec
        · simpa [hrec] using List.all_eq_true.mp hi m hmem
      · have hlong : recordHeaderSize ≤ covered (upToLast ms') := upToLast_long hr
        rw [upToLast, if_pos hr, covered_cons, Mark.passed] at hn ⊢
        obtain ⟨n, rfl⟩ : ∃ k, n = k + 1 := ⟨n - 1, by omega⟩
        rw [marks_junk (WalRecord.decode_junk_take hd (by omega)), List.drop_take,
          Nat.add_sub_cancel_left, ih hm hi (by omega)]
        rfl

end

/-! ## The scan of a directory -/

namespace RecoveryScanner

variable {X : Externals}

/-- What the scan of a segment reports about its file. -/
def report (X : Externals) (f : SegFile) : Except WalError (Nat × Nat × Nat × UInt64) :=
  (scanFile X f).map fun t =>
    (t.validRecords, t.invalidRecords, f.bytes.length - t.lastValidOffset, t.maxSequence)

/-- What it leaves of the file. -/
def repaired (X : Externals) (repair : Bool) (f : SegFile) : SegFile :=
  match scanFile X f with
  | .error _ => f
  | .ok t =>
    if repair && f.bytes.length - t.lastValidOffset > 0 then f.setLen t.lastValidOffset else f

theorem scanSegment_eq {dir : Dir} {id : SegmentId} {f : SegFile} (h : dir[id]? = some f)
    (segmentSize : Nat) (repair : Bool) :
    (scanSegment X dir id segmentSize repair).1 = report X f ∧
      ∀ k, (scanSegment X dir id segmentSize repair).2[k]? =
        if k = id then some (repaired X repair f) else dir[k]? := by
  have hsame : ∀ k, dir[k]? = if k = id then some f else dir[k]? := by
    intro k
    split
    · rename_i hk
      rw [hk, h]
    · rfl
  simp only [scanSegment, Segment.openFile, h, report, repaired]
  rcases scanFile X f with e | t
  · exact ⟨rfl, hsame⟩
  · refine ⟨rfl, fun k => ?_⟩
    simp only
    split
    · simp only [Segment.truncateAt, Segment.sync, h, Bool.false_eq_true, if_false]
      by_cases hk : k = id
      · simp [hk]
      · rw [Table.getElem?_insert_ne hk, if_neg hk]
    · exact hsame k

/-- Each segment is reported and repaired by itself. -/
theorem scan_fold (segmentSize : Nat) (repair : Bool) {l : List (SegmentId × SegFile)}
    (hnd : (l.map Prod.fst).Nodup) {dir : Dir} (hl : ∀ p ∈ l, dir[p.1]? = some p.2)
    (res : RecoveryResult) :
    ∃ dir', (l.map Prod.fst).foldl
        (fun acc id =>
          let (outcome, dir') := scanSegment X acc.2 id segmentSize repair
          (RecoveryResult.add acc.1 id outcome, dir'))
        (res, dir) =
          (l.foldl (fun r p => RecoveryResult.add r p.1 (report X p.2)) res, dir') ∧
      ∀ k, dir'[k]? =
        if k ∈ l.map Prod.fst then dir[k]?.map (repaired X repair) else dir[k]? := by
  induction l generalizing dir res with
  | nil => exact ⟨dir, rfl, fun k => by simp⟩
  | cons p l ih =>
    obtain ⟨id, f⟩ := p
    obtain ⟨hnew, hnd⟩ := List.nodup_cons.mp hnd
    have hid : dir[id]? = some f := hl (id, f) List.mem_cons_self
    obtain ⟨hrep, hdir⟩ := scanSegment_eq hid segmentSize repair (X := X)
    rcases hseg : scanSegment X dir id segmentSize repair with ⟨outcome, dir₁⟩
    rw [hseg] at hrep hdir
    have hl₁ : ∀ q ∈ l, dir₁[q.1]? = some q.2 := by
      intro q hq
      have hne : q.1 ≠ id := by
        rintro rfl
        exact hnew (List.mem_map.mpr ⟨q, hq, rfl⟩)
      rw [hdir, if_neg hne]
      exact hl q (List.mem_cons_of_mem _ hq)
    obtain ⟨dir', hfold, hget⟩ := ih hnd hl₁ (RecoveryResult.add res id outcome)
    refine ⟨dir', ?_, ?_⟩
    · simp only at hrep
      simp only [List.map_cons, List.foldl_cons, hseg, ← hrep]
      exact hfold
    · intro k
      rw [hget, hdir]
      by_cases hk : k = id
      · subst hk
        simp [hnew, hid]
      · simp only [List.map_cons, List.mem_cons, hk, false_or, if_false]

theorem scan_eq (dir : Dir) (segmentSize : Nat) (repair : Bool) :
    (scan X dir segmentSize repair).1 =
        dir.toList.foldl (fun r p => RecoveryResult.add r p.1 (report X p.2))
          ⟨0, 0, 0, [], [], 0⟩ ∧
      ∀ k : SegmentId,
        (scan X dir segmentSize repair).2[k]? = dir[k]?.map (repaired X repair) := by
  have hnd : (dir.toList.map Prod.fst).Nodup := by
    rw [Std.ExtTreeMap.map_fst_toList_eq_keys]
    exact Std.ExtTreeMap.nodup_keys
  obtain ⟨dir', hfold, hget⟩ := scan_fold (X := X) segmentSize repair hnd
    (fun p hp => Table.mem_toList.mp hp) ⟨0, 0, 0, [], [], 0⟩
  rw [Std.ExtTreeMap.map_fst_toList_eq_keys] at hfold hget
  rw [scan, hfold]
  refine ⟨rfl, fun k => ?_⟩
  rw [hget]
  split
  · rfl
  · rename_i hk
    rw [Std.ExtTreeMap.getElem?_eq_none fun hm => hk (Std.ExtTreeMap.mem_keys.mpr hm)]
    rfl

theorem toList_scan (dir : Dir) (segmentSize : Nat) (repair : Bool) :
    (scan X dir segmentSize repair).2.toList =
      dir.toList.map fun p => (p.1, repaired X repair p.2) := by
  apply Table.toList_eq
  · exact (Table.ascending_toList dir).map _ fun _ _ h => h
  · intro k v
    rw [(scan_eq dir segmentSize repair).2, Option.map_eq_some_iff, List.mem_map]
    constructor
    · rintro ⟨⟨k', f⟩, hf, he⟩
      cases he
      exact ⟨f, Table.mem_toList.mp hf, rfl⟩
    · rintro ⟨f, hf, rfl⟩
      exact ⟨(k, f), Table.mem_toList.mpr hf, rfl⟩

def validOf : Except WalError (Nat × Nat × Nat × UInt64) → Nat
  | .ok (valid, _) => valid
  | .error _ => 0

def truncatedOf : Except WalError (Nat × Nat × Nat × UInt64) → Nat
  | .ok (_, _, truncated, _) => truncated
  | .error _ => 0

theorem add_validRecords (r : RecoveryResult) (id : SegmentId)
    (o : Except WalError (Nat × Nat × Nat × UInt64)) :
    (RecoveryResult.add r id o).validRecords = r.validRecords + validOf o := by
  obtain e | ⟨valid, invalid, truncated, maxSeq⟩ := o <;> rfl

theorem add_bytesTruncated (r : RecoveryResult) (id : SegmentId)
    (o : Except WalError (Nat × Nat × Nat × UInt64)) :
    (RecoveryResult.add r id o).bytesTruncated = r.bytesTruncated + truncatedOf o := by
  obtain e | ⟨valid, invalid, truncated, maxSeq⟩ := o <;> rfl

theorem add_errors {r : RecoveryResult} {id : SegmentId}
    {o : Except WalError (Nat × Nat × Nat × UInt64)}
    (h : (RecoveryResult.add r id o).segmentsWithErrors = []) :
    r.segmentsWithErrors = [] ∧ ∃ v, o = .ok v := by
  obtain e | v := o
  · simp [RecoveryResult.add] at h
  · exact ⟨h, v, rfl⟩

theorem foldl_add (l : List (SegmentId × SegFile)) (res : RecoveryResult) :
    let r := l.foldl (fun r p => RecoveryResult.add r p.1 (report X p.2)) res
    r.validRecords = res.validRecords + (l.map fun p => validOf (report X p.2)).sum ∧
    r.bytesTruncated = res.bytesTruncated + (l.map fun p => truncatedOf (report X p.2)).sum ∧
    (r.segmentsWithErrors = [] →
      res.segmentsWithErrors = [] ∧ ∀ p ∈ l, ∃ v, report X p.2 = .ok v) := by
  induction l generalizing res with
  | nil => simp
  | cons p l ih =>
    obtain ⟨hv, ht, he⟩ := ih (RecoveryResult.add res p.1 (report X p.2))
    simp only [List.foldl_cons, List.map_cons, List.sum_cons, List.forall_mem_cons]
    rw [hv, ht, add_validRecords, add_bytesTruncated]
    refine ⟨Nat.add_assoc _ _ _, Nat.add_assoc _ _ _, fun hr => ?_⟩
    obtain ⟨hadd, hall⟩ := he hr
    obtain ⟨hres, hp⟩ := add_errors hadd
    exact ⟨hres, hp, hall⟩

/-! ## What a repair keeps -/

section
variable {f : SegFile} {ms : List Mark}

theorem lastValid_eq_covered (hi : intactFirst ms = true) :
    lastValid 0 0 ms = covered (upToLast ms) := by
  cases hr : ms.any Mark.isRecord with
  | false => rw [lastValid_eq_last hr, upToLast_eq_nil hr]; rfl
  | true => rw [lastValid_intact hi hr, Nat.zero_add]

section
variable (hm : marks X f.bytes.length f.bytes = .ok ms)
include hm

theorem lastValid_le (hi : intactFirst ms = true) : lastValid 0 0 ms ≤ f.bytes.length := by
  have := covered_marks (marks_take hm hi le_rfl)
  rw [List.length_take] at this
  rw [lastValid_eq_covered hi]
  omega

theorem repaired_bytes : (repaired X true f).bytes = f.bytes.take (lastValid 0 0 ms) := by
  have ht := scanFile_ok.mpr ⟨ms, hm, rfl⟩
  simp only [repaired, ht, Tally.after_lastValidOffset, Bool.true_and, decide_eq_true_eq]
  split
  · rename_i hlt
    rw [SegFile.setLen, Nat.sub_eq_zero_of_le (by omega), List.replicate_zero, List.append_nil]
  · rename_i hge
    rw [List.take_of_length_le (by omega)]

/-- A record behind a bad checksum is lost, or the last record behind it is. -/
theorem repaired_loses (hi : intactFirst ms = false) :
    ∃ p ∈ placedMarks 0 ms, ((repaired X true f).bytes.drop p.1).take p.2.diskSize ≠
      (f.bytes.drop p.1).take p.2.diskSize := by
  obtain ⟨p, hp, hlt⟩ := lastValid_lost hm hi 0 0
  refine ⟨p, hp, fun he => ?_⟩
  have hfit := (placedMarks_le hp).trans (Nat.add_le_add_left (covered_marks hm) 0)
  have hlen := congrArg List.length he
  rw [repaired_bytes hm] at hlen
  have hpos : 0 < p.2.diskSize := Nat.lt_of_lt_of_le (by decide) (Nat.le_add_right _ _)
  simp only [List.length_take, List.length_drop] at hlen
  omega

/-- Without one, every record stays where it is. -/
theorem repaired_keeps
    (hi : intactFirst ms = true) {p : Nat × WalRecord} (hp : p ∈ placedMarks 0 ms) :
    ((repaired X true f).bytes.drop p.1).take p.2.diskSize =
      (f.bytes.drop p.1).take p.2.diskSize := by
  have hfit := placedMarks_le (placedMarks_upToLast 0 ms ▸ hp)
  rw [repaired_bytes hm, lastValid_eq_covered hi, List.drop_take, List.take_take,
    Nat.min_eq_left (by omega)]

/-- And a second scan finds the same records, with nothing behind them. -/
theorem report_repaired (hi : intactFirst ms = true) :
    validOf (report X (repaired X true f)) = validOf (report X f) ∧
      truncatedOf (report X (repaired X true f)) = 0 := by
  have hb := repaired_bytes hm
  have hagain : marks X (repaired X true f).bytes.length (repaired X true f).bytes =
      .ok (upToLast ms) := by
    have hle := lastValid_le hm hi
    rw [hb, List.length_take, Nat.min_eq_left hle, lastValid_eq_covered hi]
    exact marks_take hm hi le_rfl
  have ht := scanFile_ok.mpr ⟨ms, hm, rfl⟩
  have ht' := scanFile_ok.mpr ⟨_, hagain, rfl⟩
  have hle := lastValid_le hm hi
  simp only [report, ht, ht', Except.map, validOf, truncatedOf, Tally.after_validRecords,
    Tally.after_lastValidOffset, placedMarks_upToLast, lastValid_upToLast, hb, List.length_take]
  exact ⟨trivial, by omega⟩

end

end

/-- In a directory that could be scanned, the repair keeps every record it counted in
its place, and a second scan counts as many and finds nothing to cut off, exactly when
no segment has a record after one whose checksum is wrong. -/
theorem scan_repairs_iff (X : Externals) (dir : Dir) (segmentSize : Nat) (again : Bool)
    (h : (scan X dir segmentSize true).1.segmentsWithErrors = []) :
    ((∀ (id : SegmentId) (f : SegFile), dir[id]? = some f →
        ∃ (t : Tally) (f' : SegFile), scanFile X f = .ok t ∧
          (scan X dir segmentSize true).2[id]? = some f' ∧
          ∀ p ∈ t.found, (f'.bytes.drop p.1).take p.2.diskSize =
            (f.bytes.drop p.1).take p.2.diskSize) ∧
      (scan X (scan X dir segmentSize true).2 segmentSize again).1.validRecords =
        (scan X dir segmentSize true).1.validRecords ∧
      (scan X (scan X dir segmentSize true).2 segmentSize again).1.bytesTruncated = 0) ↔
    ∀ (id : SegmentId) (f : SegFile), dir[id]? = some f →
      ∀ ms, marks X f.bytes.length f.bytes = .ok ms → intactFirst ms = true := by
  obtain ⟨hres, hdir⟩ := scan_eq (X := X) dir segmentSize true
  have hmarks : ∀ p ∈ dir.toList, ∃ ms, marks X p.2.bytes.length p.2.bytes = .ok ms := by
    intro p hp
    rw [hres] at h
    obtain ⟨v, hv⟩ := ((foldl_add dir.toList _).2.2 h).2 p hp
    obtain ⟨t, ht, -⟩ := map_eq_ok hv
    obtain ⟨ms, hm, -⟩ := scanFile_ok.mp ht
    exact ⟨ms, hm⟩
  constructor
  · rintro ⟨hkeep, -, -⟩ id f hf ms hm
    by_contra hi
    obtain ⟨p, hp, hne⟩ := repaired_loses hm (Bool.eq_false_iff.mpr hi)
    obtain ⟨t, f', ht, hf', hall⟩ := hkeep id f hf
    obtain ⟨ms', hm', rfl⟩ := scanFile_ok.mp ht
    cases hm.symm.trans hm'
    rw [hdir, hf] at hf'
    cases hf'
    exact hne (hall p (by rwa [Tally.after_found]))
  · intro hi
    have hagain : ∀ p ∈ dir.toList,
        validOf (report X (repaired X true p.2)) = validOf (report X p.2) ∧
          truncatedOf (report X (repaired X true p.2)) = 0 := by
      intro p hp
      obtain ⟨ms, hm⟩ := hmarks p hp
      exact report_repaired hm (hi p.1 p.2 (Table.mem_toList.mp hp) ms hm)
    refine ⟨?_, ?_, ?_⟩
    · intro id f hf
      obtain ⟨ms, hm⟩ := hmarks (id, f) (Table.mem_toList.mpr hf)
      refine ⟨_, repaired X true f, scanFile_ok.mpr ⟨ms, hm, rfl⟩, by rw [hdir, hf]; rfl, ?_⟩
      intro p hp
      rw [Tally.after_found] at hp
      exact repaired_keeps hm (hi id f hf ms hm) hp
    · rw [(scan_eq _ segmentSize again).1, hres, (foldl_add _ _).1, (foldl_add _ _).1,
        toList_scan, List.map_map]
      congr 2
      exact List.map_congr_left fun p hp => (hagain p hp).1
    · rw [(scan_eq _ segmentSize again).1, (foldl_add _ _).2.1, toList_scan, List.map_map]
      simp only [Nat.zero_add, List.sum_eq_zero_iff, List.mem_map, Function.comp_apply]
      rintro _ ⟨p, hp, rfl⟩
      exact (hagain p hp).2

/-- A directory with one segment. -/
def onlySegment (bytes : Bytes) : Dir := (∅ : Dir).insert 1 ⟨bytes, 0⟩

/-- A stray byte, a record and the first bytes of another one. -/
theorem scan_repairs_torn :
    let one := WalRecord.new serde .noop 1 [1]
    let dir := onlySegment (0xFF :: one.bytes ++ one.bytes.take 5)
    (scan serde dir 64 true).1.validRecords = 1 ∧ (scan serde dir 64 true).1.bytesTruncated = 5 ∧
      (scan serde (scan serde dir 64 true).2 64 false).1.validRecords =
        (scan serde dir 64 true).1.validRecords ∧
      (scan serde (scan serde dir 64 true).2 64 false).1.bytesTruncated = 0 := by
  intro one dir
  refine ⟨by decide +kernel, by decide +kernel, ?_⟩
  refine ((scan_repairs_iff serde dir 64 false (by decide +kernel)).mpr ?_).2
  intro id f hf ms hm
  simp only [dir, onlySegment, Std.ExtTreeMap.getElem?_insert] at hf
  split at hf
  · cases hf
    have hms : marks serde 31 (0xFF :: one.bytes ++ one.bytes.take 5) =
        .ok [.junk, .record one] := by decide +kernel
    cases hms.symm.trans hm
    rfl
  · simp at hf

/-- A record, after one whose checksum is wrong and a byte more, is counted and then
cut off. -/
theorem scan_repairs_not :
    let one := WalRecord.new serde .noop 1 [1]
    let bad : WalRecord := { one with payload := [2] }
    let dir := onlySegment (bad.bytes ++ 0 :: one.bytes)
    (scan serde dir 64 true).1.segmentsWithErrors = [] ∧
      (scan serde dir 64 true).1.validRecords = 1 ∧
      (scan serde dir 64 true).2[1]? = some ⟨bad.bytes ++ [0], 0⟩ ∧
      (scan serde (scan serde dir 64 true).2 64 true).1.validRecords = 0 ∧
      (scan serde (scan serde dir 64 true).2 64 true).1.bytesTruncated = 26 := by
  decide +kernel

/-! ## Torn writes -/

theorem marks_encodeAll {rs : List WalRecord} (hr : ∀ r ∈ rs, r.Sound X) {t : Bytes}
    (ht : WalRecord.decode X t 0 = (t, .ok none)) {fuel : Nat}
    (hfuel : (encodeAll rs ++ t).length ≤ fuel) :
    marks X fuel (encodeAll rs ++ t) = .ok (rs.map .record) := by
  induction rs generalizing fuel with
  | nil =>
    cases fuel with
    | zero => rfl
    | succ fuel =>
      by_cases hs : t.length < recordHeaderSize
      · simp [marks, hs]
      · simp [marks, hs, ht]
  | cons r rs ih =>
    have hsplit : encodeAll (r :: rs) ++ t = r.bytes ++ (encodeAll rs ++ t) := by
      simp [encodeAll]
    rw [hsplit] at hfuel ⊢
    have hpos : recordHeaderSize ≤ r.bytes.length := by simp [WalRecord.diskSize]
    cases fuel with
    | zero =>
      simp only [List.length_append, recordHeaderSize] at hfuel hpos
      omega
    | succ fuel =>
      have hd := WalRecord.decode_bytes (hr r List.mem_cons_self) (encodeAll rs ++ t) 0
      have hrest := @ih (fun r' h => hr r' (List.mem_cons_of_mem r h)) fuel (by
        simp only [List.length_append, recordHeaderSize] at hfuel hpos ⊢
        omega)
      rw [marks_record hd, hrest]
      rfl

theorem Tally.after_records (t : Tally) (pos offset : Nat) (rs : List WalRecord) :
    (t.after pos offset (rs.map .record)).invalidRecords = t.invalidRecords ∧
      (t.after pos offset (rs.map .record)).maxSequence =
        (rs.map (·.header.sequence)).foldl max t.maxSequence := by
  induction rs generalizing t pos offset with
  | nil => exact ⟨rfl, rfl⟩
  | cons r rs ih => exact ih _ _ _

theorem lastValid_records (offset last : Nat) (rs : List WalRecord) :
    lastValid offset last (rs.map .record) =
      if rs = [] then last else offset + (encodeAll rs).length := by
  induction rs generalizing offset last with
  | nil => rfl
  | cons r rs ih =>
    rw [List.map_cons, lastValid, ih]
    cases rs with
    | nil => simp [encodeAll]
    | cons r' rs => simp [encodeAll, Nat.add_assoc]

theorem placedMarks_records (pos : Nat) (rs : List WalRecord) :
    placedMarks pos (rs.map .record) = placed pos rs := by
  induction rs generalizing pos with
  | nil => rfl
  | cons r rs ih => simp [placedMarks, placed, ih]

section
variable {rs : List WalRecord} {t : Bytes} {f : SegFile}

theorem report_torn (hrs : ∀ r ∈ rs, r.Sound X) (ht : WalRecord.decode X t 0 = (t, .ok none))
    (hf : f.bytes = encodeAll rs ++ t) :
    report X f = .ok (rs.length, 0, t.length, (rs.map (·.header.sequence)).foldl max 0) ∧
      (repaired X true f).bytes = encodeAll rs := by
  have hm : marks X f.bytes.length f.bytes = .ok (rs.map .record) := by
    rw [hf]
    exact marks_encodeAll hrs ht le_rfl
  have hlast : lastValid 0 0 (rs.map .record) = (encodeAll rs).length := by
    rw [lastValid_records, Nat.zero_add]
    split
    · rename_i hnil
      rw [hnil]
      rfl
    · rfl
  constructor
  · obtain ⟨hinvalid, hmax⟩ := Tally.after_records ⟨0, 0, 0, 0, []⟩ 0 0 rs
    have hcount : (placedMarks 0 (rs.map Mark.record)).length = rs.length := by
      rw [placedMarks_records, placed_eq_zip]
      simp
    rw [report, scanFile_ok.mpr ⟨_, hm, rfl⟩]
    simp only [Except.map, Tally.after_validRecords, Tally.after_lastValidOffset, hinvalid, hmax,
      hcount, hlast, hf, List.length_append, Nat.zero_add, Nat.add_sub_cancel_left]
  · rw [repaired_bytes hm, hlast, hf, List.take_left]

end

/-- A segment that holds encoded records and a strict part of one more: the repair
reports each record, nothing invalid and the bytes of the torn one, which it cuts
off, and leaves exactly the records. -/
theorem repair_of_torn_write (X : Externals) {rs : List WalRecord} {last : WalRecord}
    {encoded : List Bytes} {lastEncoded t : Bytes} (hrs : ∀ r ∈ rs, r.Sound X)
    (hencoded : List.Forall₂ (fun r b => WalRecord.encode r = .ok b) rs encoded)
    (hlast : last.Sound X) (hlastEncoded : last.encode = .ok lastEncoded)
    (ht : t <+: lastEncoded) (hne : t ≠ lastEncoded) (id : SegmentId) (synced segmentSize : Nat) :
    let scanned := scan X ((∅ : Dir).insert id ⟨encoded.flatten ++ t, synced⟩) segmentSize true
    scanned.1 = ⟨rs.length, 0, t.length, if t = [] then [] else [id], [],
        (rs.map (·.header.sequence)).foldl max 0⟩ ∧
      scanned.2.toList.map (fun p => (p.1, p.2.bytes)) = [(id, encoded.flatten)] := by
  intro scanned
  cases Except.ok.inj ((WalRecord.encode_ok hlast.size).symm.trans hlastEncoded)
  have hflat : encoded.flatten = encodeAll rs := by
    rw [(encoded_iff hrs).mp hencoded]
    rfl
  have hzero : ∀ n : UInt64, max 0 n = n := fun n => if_pos UInt64.zero_le
  have hdir : ((∅ : Dir).insert id ⟨encoded.flatten ++ t, synced⟩).toList =
      [(id, ⟨encoded.flatten ++ t, synced⟩)] := by
    rw [Table.toList_insert_past (by simp)]
    simp
  obtain ⟨hreport, hrepaired⟩ := @report_torn X rs t
    ⟨encoded.flatten ++ t, synced⟩ hrs
    (WalRecord.decode_strict_prefix hlast ht hne 0) (by rw [hflat])
  constructor
  · rw [(scan_eq _ segmentSize true).1, hdir]
    simp only [List.foldl_cons, List.foldl_nil, hreport, RecoveryResult.add]
    cases t with
    | nil | cons => simp [hzero]
  · rw [toList_scan, hdir, List.map_cons, List.map_cons, hrepaired, hflat]
    rfl

/-- A record and the first bytes of another one. -/
theorem repair_of_torn_write_after_one :
    let one := WalRecord.new serde .noop 7 [1]
    let scanned := scan serde (onlySegment (one.bytes ++ one.bytes.take 5)) 64 true
    scanned.1 = ⟨1, 0, 5, [1], [], 7⟩ ∧
      scanned.2.toList.map (fun p => (p.1, p.2.bytes)) = [(1, one.bytes)] := by
  intro one
  have hone : one.Sound serde := WalRecord.new_sound serde _ _ (by decide)
  have hencoded := WalRecord.encode_ok hone.size
  have h := @repair_of_torn_write serde [one] _ _ _ (one.bytes.take 5) (by simpa using hone)
    (.cons hencoded .nil) hone hencoded (List.take_prefix 5 _)
    (fun h => absurd (congrArg List.length h) (by decide +kernel)) 1 0 64
  rw [List.flatten_cons, List.flatten_nil, List.append_nil] at h
  exact h

end RecoveryScanner

end Rstmdb

import Rstmdb.Wal.Repair

/-! The loop of the recovery scan, turn by turn: it ends on every file, it never moves past
the end of its buffer, and the last valid offset stays within the file. -/
namespace Rstmdb

namespace RecoveryScanner

/-- `Buf::advance`, which panics past the end of the buffer. -/
def advance (buf : Bytes) (n : Nat) : Option Bytes :=
  if n ≤ buf.length then some (buf.drop n) else none

/-- The variables of the loop in `scan_segment`. -/
structure LoopState where
  buf : Bytes
  offset : Nat
  tally : Tally

/-- What a turn of the loop comes to: another turn, the end of the loop or of the call, or
a panic. -/
inductive Turn
  | goesOn (s : LoopState)
  | ends (outcome : Except WalError Tally)
  | panics

/-- After a bad record or header: one more is counted, and one byte is passed over if there
is one. -/
def skip (s : LoopState) : Turn :=
  let tally := { s.tally with invalidRecords := s.tally.invalidRecords + 1 }
  if s.buf.isEmpty then .goesOn { s with tally }
  else
    match advance s.buf 1 with
    | some buf => .goesOn ⟨buf, s.offset + 1, tally⟩
    | none => .panics

def turn (X : Externals) (fileSize : Nat) (s : LoopState) : Turn :=
  if s.buf.length < recordHeaderSize then .ends (.ok s.tally)
  else
    match WalRecord.decode X s.buf s.offset with
    | (buf, .ok (some record)) =>
      let offset := s.offset + record.diskSize
      .goesOn ⟨buf, offset, { s.tally with
        validRecords := s.tally.validRecords + 1
        maxSequence := max s.tally.maxSequence record.header.sequence
        lastValidOffset := offset
        found := s.tally.found ++ [(fileSize - s.buf.length, record)] }⟩
    | (_, .ok none) => .ends (.ok s.tally)
    | (buf, .error (.corruptedRecord ..)) => skip { s with buf }
    | (buf, .error (.invalidHeader ..)) =>
      if buf.all (· == 0) then .ends (.ok s.tally) else skip { s with buf }
    | (_, .error e) => .ends (.error e)

/-- The loop is in this state after so many turns over the file. -/
inductive Reaches (X : Externals) (f : SegFile) : Nat → LoopState → Prop
  | start : Reaches X f 0 ⟨f.bytes, 0, ⟨0, 0, 0, 0, []⟩⟩
  | next {n : Nat} {s s' : LoopState} (h : Reaches X f n s)
      (hturn : turn X f.bytes.length s = .goesOn s') : Reaches X f (n + 1) s'

section
variable {X : Externals} {fileSize : Nat} {s s' : LoopState}

/-! ## One turn -/

theorem skip_eq (s : LoopState) :
    skip s = .goesOn ⟨s.buf.drop 1, if s.buf.isEmpty then s.offset else s.offset + 1,
      { s.tally with invalidRecords := s.tally.invalidRecords + 1 }⟩ := by
  obtain ⟨buf, offset, tally⟩ := s
  cases buf <;> simp [skip, advance]

theorem turn_not_panics : turn X fileSize s ≠ .panics := by
  unfold turn
  simp only [skip_eq]
  split
  · exact nofun
  split
  · exact nofun
  · exact nofun
  · exact nofun
  · split <;> exact nofun
  · exact nofun

/-- Another turn finds a shorter buffer, an offset that is no further from the end of the
file, and a last valid offset that is as it was or is the offset. -/
structure Moved (s s' : LoopState) : Prop where
  shorter : s'.buf.length < s.buf.length
  within : s'.offset + s'.buf.length ≤ s.offset + s.buf.length
  forward : s.offset ≤ s'.offset
  valid : s'.tally.lastValidOffset = s.tally.lastValidOffset ∨
    s'.tally.lastValidOffset = s'.offset

/-- Skipping moves by what `decode` has taken off the buffer and by one byte more, and the
offset by that byte. -/
theorem moved_of_skip {buf : Bytes} (hskip : skip { s with buf } = .goesOn s')
    (hle : buf.length ≤ s.buf.length) (hlt : buf.length < s.buf.length ∨ buf ≠ []) :
    Moved s s' := by
  rw [skip_eq] at hskip
  cases hskip
  cases buf with
  | nil =>
    have hpos : 0 < s.buf.length := by simpa using hlt
    exact ⟨by simpa using hpos, by simp, by simp, .inl rfl⟩
  | cons b bs =>
    simp only [List.length_cons] at hle
    refine ⟨?_, ?_, ?_, .inl rfl⟩
    · simp only [List.drop_succ_cons, List.drop_zero]
      omega
    · simp only [List.isEmpty_cons, List.drop_succ_cons, List.drop_zero]
      simp only [Bool.false_eq_true, if_false]
      omega
    · simp

theorem moved_of_turn (hturn : turn X fileSize s = .goesOn s') : Moved s s' := by
  unfold turn at hturn
  split at hturn
  · cases hturn
  rename_i hlong
  split at hturn
  · rename_i buf record hd
    cases hturn
    have hsize := WalRecord.decode_consumes hd
    have hpos : 0 < record.diskSize := by simp [WalRecord.diskSize, recordHeaderSize]
    exact ⟨by simp only; omega, by simp only; omega, by simp only; omega, .inr rfl⟩
  · cases hturn
  · rename_i buf _ _ _ hd
    have hsize := WalRecord.decode_corrupted hd
    simp only [recordHeaderSize] at hsize
    exact moved_of_skip hturn (by omega) (.inl (by omega))
  · rename_i buf _ _ hd
    obtain ⟨rfl, hsize, -⟩ := WalRecord.decode_invalidHeader hd
    split at hturn
    · cases hturn
    · refine moved_of_skip hturn le_rfl (.inr fun hnil => ?_)
      simp [hnil, recordHeaderSize] at hsize
  · cases hturn

theorem tally_of_ends {t : Tally} (hturn : turn X fileSize s = .ends (.ok t)) : t = s.tally := by
  unfold turn at hturn
  simp only [skip_eq] at hturn
  split at hturn
  · cases hturn
    rfl
  split at hturn
  · cases hturn
  · cases hturn
    rfl
  · cases hturn
  · split at hturn <;> cases hturn
    rfl
  · cases hturn

/-! ## The loop and the scan -/

theorem scanRecords_turn (fuel : Nat) (s : LoopState) :
    scanRecords X fileSize (fuel + 1) s.buf s.offset s.tally =
      match turn X fileSize s with
      | .goesOn s' => scanRecords X fileSize fuel s'.buf s'.offset s'.tally
      | .ends outcome => outcome
      | .panics => .ok s.tally := by
  by_cases hs : s.buf.length < recordHeaderSize
  · simp [scanRecords, turn, hs]
  · rcases hd : WalRecord.decode X s.buf s.offset with ⟨buf, e | _ | record⟩
    · cases e with
      | invalidHeader o reason =>
        simp only [scanRecords, turn, hs, hd, skip_eq, if_false]
        split <;> rfl
      | _ => simp [scanRecords, turn, hs, hd, skip_eq]
    · simp [scanRecords, turn, hs, hd]
    · simp [scanRecords, turn, hs, hd]

end

section
variable {X : Externals} {f : SegFile}

theorem Reaches.bounds {n : Nat} {s : LoopState} (h : Reaches X f n s) :
    n + s.buf.length ≤ f.bytes.length ∧ s.offset + s.buf.length ≤ f.bytes.length ∧
      s.tally.lastValidOffset ≤ s.offset := by
  induction h with
  | start => simp
  | next h hturn ih =>
    obtain ⟨hn, hoffset, hvalid⟩ := ih
    obtain ⟨hshorter, hwithin, hforward, hlast⟩ := moved_of_turn hturn
    omega

/-- With fuel for the bytes that are left, the loop ends, and as the scan does. -/
theorem Reaches.ends {fuel n : Nat} {s : LoopState} (h : Reaches X f n s)
    (hfuel : s.buf.length ≤ fuel) :
    ∃ n' s' outcome, Reaches X f n' s' ∧ turn X f.bytes.length s' = .ends outcome ∧
      scanRecords X f.bytes.length fuel s.buf s.offset s.tally = outcome := by
  induction fuel generalizing n s with
  | zero =>
    refine ⟨n, s, .ok s.tally, h, ?_, rfl⟩
    rw [turn, if_pos (by simp only [recordHeaderSize]; omega)]
  | succ fuel ih =>
    rw [scanRecords_turn]
    cases hturn : turn X f.bytes.length s with
    | goesOn s' =>
      have hmoved := (moved_of_turn hturn).shorter
      exact ih (h.next hturn) (by omega)
    | ends outcome => exact ⟨n, s, outcome, h, hturn, rfl⟩
    | panics => exact absurd hturn turn_not_panics

/-- On every file, the loop ends within as many turns as the file has bytes, with the
outcome of the scan. It never advances past its buffer; at every turn the offset and the
bytes left are within the file, and the last valid offset is within the offset. So the
subtraction from the file size does not underflow. -/
theorem scan_loop_ends (X : Externals) (f : SegFile) :
    (∀ n s, Reaches X f n s → turn X f.bytes.length s ≠ .panics ∧ n ≤ f.bytes.length ∧
      s.offset + s.buf.length ≤ f.bytes.length ∧ s.tally.lastValidOffset ≤ s.offset) ∧
    ∃ n s outcome, Reaches X f n s ∧ turn X f.bytes.length s = .ends outcome ∧
      scanFile X f = outcome ∧ ∀ t, outcome = .ok t → t.lastValidOffset ≤ f.bytes.length := by
  constructor
  · intro n s h
    obtain ⟨hn, hoffset, hvalid⟩ := h.bounds
    exact ⟨turn_not_panics, by omega, hoffset, hvalid⟩
  · obtain ⟨n, s, outcome, h, hturn, hscan⟩ := Reaches.start.ends (X := X) (f := f) le_rfl
    refine ⟨n, s, outcome, h, hturn, hscan, ?_⟩
    rintro t rfl
    obtain ⟨-, hoffset, hvalid⟩ := h.bounds
    rw [tally_of_ends hturn]
    omega

end

end RecoveryScanner

end Rstmdb

import Rstmdb.Wal.Crash

/-! Writes that fail half way. `Segment::append` seeks to the end of the file, but it
returns and later uses the size it keeps in memory, which a failed write does not
change. The bytes such a write has left stay in the file, and the next record goes
behind them, at an offset where it is not. -/
namespace Rstmdb

namespace Wal

/-- `appendLocked` when the write fails after `written` bytes of the record. A write
that gets to the end of the record does not fail. -/
def appendLockedShort (w : Wal) (record : WalRecord) (written : Nat) :
    Option (Wal × Except WalError (UInt64 × WalOffset)) :=
  match w.current with
  | none => none
  | some segment =>
    match record.encode with
    | .error e => some (w, .error e)
    | .ok encoded =>
      if written < encoded.length then
        some ({ w with dir := Segment.writeEnd w.dir segment.id (encoded.take written) },
          .error .io)
      else none

/-- `append` when the write of the record fails half way. -/
def appendShort (X : Externals) (w : Wal) (entry : WalEntry) (written : Nat) :
    Option (Wal × Except WalError (UInt64 × WalOffset)) :=
  if w.closed then some (w, .error .closed)
  else
    let record := w.nextRecord X entry
    let (_, w) := w.drawSequence
    if w.needsRotation record.diskSize then
      match w.rotateSegment with
      | (w, .error e) => some (w, .error e)
      | (w, .ok ()) => w.appendLockedShort record written
    else w.appendLockedShort record written

/-- How many bytes of the current segment its size does not count. -/
def uncounted (w : Wal) : Nat :=
  match w.current with
  | none => 0
  | some segment =>
    match w.dir[segment.id]? with
    | none => 0
    | some f => f.bytes.length - segment.size

/-- The entry goes to a segment whose size is that of its file. -/
def CountsAll (X : Externals) (w : Wal) (entry : WalEntry) : Prop :=
  w.uncounted = 0 ∨ w.needsRotation (w.nextRecord X entry).diskSize = true

instance (X : Externals) (w : Wal) (entry : WalEntry) : Decidable (w.CountsAll X entry) :=
  inferInstanceAs (Decidable (_ ∨ _))

end Wal

/-- An append, with how many bytes its write writes before it fails, if it does. -/
structure WriteOp where
  entry : WalEntry
  short : Option Nat

/-- The log and the appends that returned an offset. -/
def writeStep (X : Externals) (s : Wal × List ReadEntry) (op : WriteOp) :
    Option (Wal × List ReadEntry) :=
  let outcome := match op.short with
    | none => s.1.append X op.entry
    | some written => s.1.appendShort X op.entry written
  match outcome with
  | none => none
  | some (w, .error _) => some (w, s.2)
  | some (w, .ok (seq, off)) => some (w, s.2 ++ [(seq, off, op.entry)])

/-- No byte goes behind those of a failed write. -/
def CountsAll (X : Externals) (s : Wal × List ReadEntry) (op : WriteOp) : Prop :=
  s.1.CountsAll X op.entry ∨ op.short = some 0

instance (X : Externals) (s : Wal × List ReadEntry) (op : WriteOp) : Decidable (CountsAll X s op) :=
  inferInstanceAs (Decidable (_ ∨ _))

namespace Wal

/-- The open log over its chunks when the last one may have a torn tail, which the
size of the current segment leaves out. -/
structure Uncounting {X : Externals} (w : Wal) (pre : List (Chunk X)) (c : Chunk X) : Prop where
  holds : Holds w.dir (pre ++ [c])
  keys : w.segments.keys = (pre ++ [c]).map Chunk.id
  current : ∃ seg, w.current = some seg ∧ seg.id = c.id ∧ seg.size = c.body.length

section
variable {X : Externals} {w w' : Wal} {pre : List (Chunk X)} {c : Chunk X}
  {r : Except WalError (UInt64 × WalOffset)}

theorem Repr.uncounting (h : w.Repr pre c) (ht : c.tail = []) : w.Uncounting pre c := by
  refine ⟨h.holds, h.keys, ?_⟩
  rw [← Chunk.bytes_eq_body ht]
  exact h.current

theorem Uncounting.repr (h : w.Uncounting pre c) (ht : c.tail = []) : w.Repr pre c := by
  refine ⟨h.holds, h.keys, ?_⟩
  rw [Chunk.bytes_eq_body ht]
  exact h.current

/-- What the size leaves out is the torn tail. -/
theorem Uncounting.uncounted (h : w.Uncounting pre c) : w.uncounted = c.tail.length := by
  obtain ⟨seg, hs, hid, hsize⟩ := h.current
  obtain ⟨-, f, -, hb, hf, -⟩ := h.holds.last
  simp only [Wal.uncounted, hs, hid, hf, hb, hsize, Chunk.bytes, List.length_append,
    Nat.add_sub_cancel_left]

theorem Uncounting.rotated (h : w.Uncounting pre c) :
    w.dir.contains w.nextId = false ∧
      w.rotated.Repr (pre ++ [c]) (Chunk.empty X (c.id + 1)) := by
  have hsized : { w with current := some ⟨c.id, c.bytes.length, 0, false⟩ }.Repr pre c :=
    ⟨h.holds, h.keys, _, rfl, rfl, rfl⟩
  obtain ⟨hfree, -, hr⟩ := hsized.rotateSegment
  exact ⟨hfree, hr⟩

variable {written : Nat} {entry : WalEntry}

/-- A failed write to a segment without a torn tail gives it one, and changes
nothing else. -/
theorem Uncounting.appendLockedShort (h : w.Uncounting pre c) {p : UInt64 × WalEntry}
    (ready : c.tail = [] ∨ written = 0)
    (ha : w.appendLockedShort (recordOf X p) written = some (w', r)) :
    (∃ err, r = .error err) ∧ ∃ c' : Chunk X, w'.Uncounting pre c' ∧ c'.entries = c.entries := by
  obtain ⟨seg, hs, hid, hsize⟩ := h.current
  simp only [Wal.appendLockedShort, hs] at ha
  split at ha
  · cases ha
    exact ⟨⟨_, rfl⟩, c, h, rfl⟩
  rename_i encoded henc
  split at ha
  · rename_i hlt
    cases ha
    obtain ⟨c', hholds, hsame, hrecords⟩ := h.holds.writeTorn ready henc hlt
    rw [hid]
    refine ⟨⟨_, rfl⟩, c', ⟨hholds, ?_, seg, rfl, hid.trans hsame.symm, ?_⟩, ?_⟩
    · simpa [hsame] using h.keys
    · rw [hsize, Chunk.body, Chunk.body, hrecords]
    · rw [Chunk.entries, hsame, hrecords, Chunk.entries]
  · cases ha

theorem appendShort_cases (h : w.appendShort X entry written = some (w', r)) :
    (w' = w ∧ r = .error .closed) ∨
      (w.needsRotation (w.nextRecord X entry).diskSize = true ∧
        w.dir.contains w.nextId = true ∧ w' = w.drawSequence.2 ∧ r = .error .io) ∨
      (w.needsRotation (w.nextRecord X entry).diskSize = true ∧
        w.drawSequence.2.rotated.appendLockedShort (w.nextRecord X entry) written =
          some (w', r)) ∨
      (w.needsRotation (w.nextRecord X entry).diskSize = false ∧
        w.drawSequence.2.appendLockedShort (w.nextRecord X entry) written = some (w', r)) := by
  unfold appendShort at h
  split at h
  · cases h
    exact .inl ⟨rfl, rfl⟩
  change (if w.needsRotation (w.nextRecord X entry).diskSize = true then
    match w.drawSequence.2.rotateSegment with
    | (v, .error e) => some (v, .error e)
    | (v, .ok ()) => v.appendLockedShort (w.nextRecord X entry) written
    else w.drawSequence.2.appendLockedShort (w.nextRecord X entry) written) = some (w', r) at h
  split at h
  · rename_i hrot
    rcases rotateSegment_cases w.drawSequence.2 with ⟨hid, hr⟩ | ⟨-, hr⟩
    · rw [hr] at h
      cases h
      exact .inr (.inl ⟨hrot, hid, rfl, rfl⟩)
    · rw [hr] at h
      exact .inr (.inr (.inl ⟨hrot, h⟩))
  · rename_i hrot
    exact .inr (.inr (.inr ⟨Bool.eq_false_iff.mpr hrot, h⟩))

/-- The log after an append that wrote nothing behind a torn tail. -/
def StillUncounting {X : Externals} (w' : Wal) (es : List ReadEntry) : Prop :=
  ∃ (pre : List (Chunk X)) (c : Chunk X), w'.Uncounting pre c ∧ es = entries (pre ++ [c])

theorem Uncounting.appendShort (h : w.Uncounting pre c) (ready : w.CountsAll X entry ∨ written = 0)
    (ha : w.appendShort X entry written = some (w', r)) :
    (∃ err, r = .error err) ∧ StillUncounting (X := X) w' (entries (pre ++ [c])) := by
  have hdrawn : w.drawSequence.2.Uncounting pre c := ⟨h.holds, h.keys, h.current⟩
  obtain ⟨rfl, rfl⟩ | ⟨-, hid, -, -⟩ | ⟨-, ha⟩ | ⟨hfit, ha⟩ := appendShort_cases ha
  · exact ⟨⟨_, rfl⟩, pre, c, h, rfl⟩
  · exact absurd hid (by simp [h.rotated.1])
  · obtain ⟨herr, c', hu, he⟩ := (hdrawn.rotated.2.uncounting rfl).appendLockedShort
      (p := (w.nextSequence, entry)) (.inl rfl) ha
    refine ⟨herr, _, c', hu, ?_⟩
    rw [entries_append (pre ++ [c]), entries_singleton c', he, Chunk.empty_entries, List.append_nil]
  · have hready : c.tail = [] ∨ written = 0 := by
      obtain (hcount | hrot) | hnone := ready
      · exact .inl (List.length_eq_zero_iff.mp (h.uncounted ▸ hcount))
      · exact absurd hrot (by simp [hfit])
      · exact .inr hnone
    obtain ⟨herr, c', hu, he⟩ := hdrawn.appendLockedShort (p := (w.nextSequence, entry)) hready ha
    refine ⟨herr, pre, c', hu, ?_⟩
    rw [entries_append, entries_append, entries_singleton, entries_singleton, he]

/-- An append to a segment whose size is that of its file, or to a new one. -/
theorem Uncounting.append (h : w.Uncounting pre c) (ready : w.CountsAll X entry)
    (ha : w.append X entry = some (w', r)) :
    ∃ es, Appended entry (entries (pre ++ [c])) es r ∧ StillUncounting (X := X) w' es := by
  obtain hcount | hrot := ready
  · have ht : c.tail = [] := List.length_eq_zero_iff.mp (h.uncounted ▸ hcount)
    obtain ⟨pre', c', hr, ht', he⟩ := (h.repr ht).append_clean ht ha
    exact ⟨_, he, pre', c', hr.uncounting ht', rfl⟩
  · have hdrawn : w.drawSequence.2.Uncounting pre c := ⟨h.holds, h.keys, h.current⟩
    obtain ⟨-, rfl, rfl⟩ | ⟨-, -, hid, -, -⟩ | ⟨-, -, -, ha⟩ | ⟨-, hfit, -⟩ := append_cases ha
    · exact ⟨_, rfl, pre, c, h, rfl⟩
    · exact absurd hid (by simp [h.rotated.1])
    · have hempty := hdrawn.rotated.2
      obtain ⟨err, rfl, rfl⟩ | ⟨fit, low, rfl, hr, -, -, -⟩ :=
        hempty.appendLocked (p := (w.nextSequence, entry)) rfl ha
      · refine ⟨_, rfl, pre ++ [c], _, hempty.uncounting rfl, ?_⟩
        rw [entries_append (pre ++ [c]), entries_singleton (Chunk.empty X _), Chunk.empty_entries,
          List.append_nil]
      · refine ⟨_, rfl, pre ++ [c], _, hr.uncounting rfl, ?_⟩
        rw [entries_append (pre ++ [c]), entries_singleton (Chunk.push _ _ _ _),
          Chunk.push_entries]
        rfl
    · exact absurd hrot (by simp [hfit])

end

end Wal

/-- The log holds exactly the appends that returned an offset, and maybe a torn tail. -/
def HoldsAcked (X : Externals) (s : Wal × List ReadEntry) : Prop :=
  s.1.StillUncounting (X := X) s.2

theorem holdsAcked_step {X : Externals} {s t : Wal × List ReadEntry} {op : WriteOp}
    (h : HoldsAcked X s) (ready : CountsAll X s op) (hs : writeStep X s op = some t) :
    HoldsAcked X t := by
  obtain ⟨w, acked⟩ := s
  obtain ⟨entry, short⟩ := op
  obtain ⟨pre, c, hu, hacked⟩ := h
  simp only at hacked hu
  subst hacked
  cases short with
  | none =>
    simp only [writeStep] at hs
    split at hs
    · cases hs
    · rename_i w' err ha
      cases hs
      obtain ⟨es, he, hstill⟩ := hu.append (ready.resolve_right (by simp)) ha
      cases he
      exact hstill
    · rename_i w' seq off ha
      cases hs
      obtain ⟨es, he, hstill⟩ := hu.append (ready.resolve_right (by simp)) ha
      cases he
      exact hstill
  | some written =>
    simp only [writeStep] at hs
    split at hs
    · cases hs
    · rename_i w' err ha
      cases hs
      exact (hu.appendShort (ready.imp id (by simp)) ha).2
    · rename_i w' seq off ha
      obtain ⟨⟨err, herr⟩, -⟩ := hu.appendShort (ready.imp id (by simp)) ha
      cases herr

/-- In every run of appends, whatever their writes leave behind when they fail, as long
as nothing is written behind that, a read from the start returns exactly the appends
that returned an offset. -/
theorem short_writes_harmless (X : Externals) {config : WalConfig} {w₀ w : Wal}
    {acked : List ReadEntry} {ops : List WriteOp} (hopen : Wal.openDir X config ∅ = .ok w₀)
    (counted : Meets (writeStep X) (CountsAll X) (w₀, []) ops)
    (hrun : run (writeStep X) (w₀, []) ops = some (w, acked)) :
    ∃ w', w.readFrom X ⟨0⟩ none = some (w', .ok acked) := by
  cases (Wal.openDir_empty X config).symm.trans hopen
  have start : HoldsAcked X (Wal.fresh config, []) :=
    ⟨[], _, (Wal.repr_fresh X config).uncounting rfl, rfl⟩
  obtain ⟨pre, c, hu, hacked⟩ :=
    run_keeps_of_meets (P := HoldsAcked X) (fun s op t => holdsAcked_step) start counted hrun
  obtain ⟨stats, hread⟩ := Wal.readFrom_zero hu.holds hu.keys
  exact ⟨_, by rw [hread, ← hacked]⟩

/-- A write that fails after five bytes, at the end of a segment that is left alone. -/
theorem short_writes_harmless_of_rotation :
    ∃ s, run (writeStep serde) (Wal.fresh ⟨0, .everyWrite⟩, [])
        [⟨.checkpoint 1, none⟩, ⟨.checkpoint 2, some 5⟩, ⟨.checkpoint 3, none⟩] = some s ∧
      s.2.length = 2 ∧ ∃ w', s.1.readFrom serde ⟨0⟩ none = some (w', .ok s.2) := by
  refine run_exists (p := fun s => s.2.length = 2) (by decide +kernel) ?_
  rintro ⟨w, acked⟩ hrun hlen
  exact ⟨hlen, short_writes_harmless serde (Wal.openDir_empty serde _) (by decide +kernel) hrun⟩

/-- A write fails after five bytes, and the next append returns an offset: the log
cannot be read any more. -/
theorem append_behind_short_write_unreadable :
    ∃ s, run (writeStep serde) (Wal.fresh ⟨1000, .everyWrite⟩, [])
        [⟨.checkpoint 1, some 5⟩, ⟨.checkpoint 2, none⟩] = some s ∧
      s.2.length = 1 ∧ ∀ w' es, s.1.readFrom serde ⟨0⟩ none ≠ some (w', .ok es) := by
  refine run_exists (p := fun s => s.2.length = 1 ∧
    ((s.1.readFrom serde ⟨0⟩ none).any fun p => p.2.toOption.isSome) = false) ?_ ?_
  · decide +kernel
  · rintro s - ⟨hlen, hread⟩
    refine ⟨hlen, fun w' es h => ?_⟩
    rw [h] at hread
    exact absurd hread (by simp [Except.toOption])

end Rstmdb

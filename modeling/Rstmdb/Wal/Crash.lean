import Rstmdb.Lib.Runs
import Rstmdb.Wal.Contents
import Rstmdb.Wal.Payload

/-! Crashes in the middle of an append. A scan stops at the bytes of a record
that was cut off, but `Segment::open` counts them into the size of the segment,
and the next append goes behind them. As long as no append does, every restart
reads back exactly what was acknowledged. -/
namespace Rstmdb

/-- A process with the log open, or only the files it left. -/
inductive Process
  | up (w : Wal)
  | down (dir : Dir)

def Process.files : Process → Dir
  | .up w => w.dir
  | .down dir => dir

/-- The process, and the appends that returned an offset since the log was created. -/
structure Machine where
  process : Process
  acked : List ReadEntry

inductive CrashOp
  | append (entry : WalEntry)
  /-- A crash while nothing is being written. -/
  | crash
  /-- A crash in an append, after this many bytes of the record have reached the file. -/
  | crashAppend (entry : WalEntry) (written : Nat)
  | reopen (config : WalConfig)

/-- A segment whose last write was cut off. -/
def Chunk.tear {X : Externals} (c : Chunk X) (t : Bytes) (ht : Settled X t) : Chunk X :=
  { c with tail := t, settled := ht }

theorem Chunk.tear_id {X : Externals} {c : Chunk X} {t : Bytes} {ht : Settled X t} :
    (c.tear t ht).id = c.id := rfl

/-- A write that stops before the end of its record adds a torn tail to the last
segment, and no record. -/
theorem Holds.writeTorn {X : Externals} {dir : Dir} {pre : List (Chunk X)} {c : Chunk X}
    (h : Holds dir (pre ++ [c])) {p : UInt64 × WalEntry} {encoded : Bytes} {written : Nat}
    (ready : c.tail = [] ∨ written = 0) (henc : (recordOf X p).encode = .ok encoded)
    (hlt : written < encoded.length) :
    ∃ c' : Chunk X, Holds (Segment.writeEnd dir c.id (encoded.take written)) (pre ++ [c']) ∧
      c'.id = c.id ∧ c'.records = c.records := by
  obtain ⟨-, f, -, hb, hf, -⟩ := h.last
  have hfit : (X.toVec p.2).length ≤ maxRecordSize := by
    by_contra hlong
    simp [WalRecord.encode, recordOf, WalRecord.new, Nat.not_le.mp hlong] at henc
  obtain rfl : encoded = (recordOf X p).bytes :=
    Except.ok.inj (henc.symm.trans (WalRecord.encode_ok (r := recordOf X p) hfit))
  simp only [Segment.writeEnd, hf]
  rcases ready with ht | rfl
  · have hsettled : Settled X ((recordOf X p).bytes.take written) := by
      refine Torn.settled ⟨_, recordOf_sound hfit, List.take_prefix _ _, fun he => ?_⟩
      have := congrArg List.length he
      simp only [List.length_take] at this
      omega
    refine ⟨c.tear _ hsettled, h.insert_last Chunk.tear_id ?_, rfl, rfl⟩
    simp [hb, Chunk.bytes, Chunk.tear, Chunk.body, ht]
  · exact ⟨c, h.insert_last rfl (by simp [hb]), rfl, rfl⟩

namespace Wal

/-- The files when a write to the current segment stops after `written` bytes. A
record that is rejected, or written whole, is not cut off. -/
def tornWrite (w : Wal) (record : WalRecord) (written : Nat) : Option Dir :=
  match w.current, record.encode with
  | some segment, .ok encoded =>
    if written < encoded.length then
      some (Segment.writeEnd w.dir segment.id (encoded.take written))
    else none
  | _, _ => none

/-- The files when an append stops in its write, after it has rotated if it must. -/
def tornAppend (X : Externals) (w : Wal) (entry : WalEntry) (written : Nat) : Option Dir :=
  let record := w.nextRecord X entry
  if w.closed then none
  else if w.needsRotation record.diskSize then w.rotateSegment.1.tornWrite record written
  else w.tornWrite record written

/-- The bytes at the end of the current segment that a scan leaves over. -/
def tornTail (X : Externals) (w : Wal) : Bytes :=
  match w.current with
  | none => []
  | some segment =>
    match w.dir[segment.id]? with
    | none => []
    | some f =>
      match scan X f.bytes 0 with
      | .error _ => []
      | .ok (_, rest, _) => rest

/-- The entry goes to a segment that ends with a whole record. -/
def EndsWhole (X : Externals) (w : Wal) (entry : WalEntry) : Prop :=
  w.tornTail X = [] ∨ w.needsRotation (w.nextRecord X entry).diskSize = true

instance (X : Externals) (w : Wal) (entry : WalEntry) : Decidable (w.EndsWhole X entry) :=
  inferInstanceAs (Decidable (_ ∨ _))

section
variable {X : Externals} {w : Wal} {pre : List (Chunk X)} {c : Chunk X}

/-- The scan of the current segment leaves over what follows its records. -/
theorem Repr.tornTail (h : w.Repr pre c) : w.tornTail X = c.tail := by
  obtain ⟨seg, hs, hid, -⟩ := h.current
  obtain ⟨-, f, -, hb, hf, -⟩ := h.holds.last
  have hsound : ∀ r ∈ c.records.map (recordOf X), r.Sound X := by
    intro r hr
    obtain ⟨p, hp, rfl⟩ := List.mem_map.mp hr
    exact recordOf_sound (c.fits p hp)
  simp only [Wal.tornTail, hs, hid, hf, hb, Chunk.bytes, Chunk.body]
  rw [scan_encodeAll hsound c.settled]

theorem Repr.tornWrite (h : w.Repr pre c) {p : UInt64 × WalEntry} {written : Nat} {dir : Dir}
    (ready : c.tail = [] ∨ written = 0) (hd : w.tornWrite (recordOf X p) written = some dir) :
    ∃ c' : Chunk X, Holds dir (pre ++ [c']) ∧ c'.entries = c.entries := by
  obtain ⟨seg, hs, hid, -⟩ := h.current
  unfold Wal.tornWrite at hd
  split at hd
  · rename_i seg' encoded hs' henc
    obtain rfl : seg' = seg := by simpa [hs] using hs'.symm
    split at hd
    · rename_i hlt
      cases hd
      rw [hid]
      obtain ⟨c', hholds, hsame, hrecords⟩ := h.holds.writeTorn ready henc hlt
      exact ⟨c', hholds, by rw [Chunk.entries, hsame, hrecords]; rfl⟩
    · cases hd
  · cases hd

/-- An append that is cut off adds a torn tail and no entry. -/
theorem Repr.tornAppend (h : w.Repr pre c) {e : WalEntry} {written : Nat} {dir : Dir}
    (ready : w.EndsWhole X e ∨ written = 0) (ha : w.tornAppend X e written = some dir) :
    ∃ cs : List (Chunk X), Holds dir cs ∧ entries cs = entries (pre ++ [c]) := by
  unfold Wal.tornAppend at ha
  simp only at ha
  split at ha
  · cases ha
  split at ha
  · obtain ⟨-, hrot, hr⟩ := h.rotateSegment
    rw [hrot] at ha
    obtain ⟨c', hholds, he⟩ := hr.tornWrite (p := (w.nextSequence, e)) (.inl rfl) ha
    refine ⟨_, hholds, ?_⟩
    rw [entries_append, entries_singleton, he, Chunk.empty_entries, List.append_nil]
  · rename_i hfit
    have ht : c.tail = [] ∨ written = 0 := by
      rcases ready with (ht | hrot) | h0
      · exact .inl (h.tornTail ▸ ht)
      · exact absurd hrot hfit
      · exact .inr h0
    obtain ⟨c', hholds, he⟩ := h.tornWrite (p := (w.nextSequence, e)) ht ha
    refine ⟨_, hholds, ?_⟩
    rw [entries_append, entries_append, entries_singleton, entries_singleton, he]

end

end Wal

namespace Machine

def step (X : Externals) : Machine → CrashOp → Option Machine
  | ⟨.up w, acked⟩, .append e =>
    match w.append X e with
    | none => none
    | some (w, .error _) => some ⟨.up w, acked⟩
    | some (w, .ok (seq, off)) => some ⟨.up w, acked ++ [(seq, off, e)]⟩
  | ⟨.up w, acked⟩, .crashAppend e written =>
    match w.tornAppend X e written with
    | none => none
    | some dir => some ⟨.down dir, acked⟩
  | ⟨p, acked⟩, .crash => some ⟨.down p.files, acked⟩
  | ⟨p, acked⟩, .reopen config =>
    match Wal.openDir X config p.files with
    | .error _ => none
    | .ok w => some ⟨.up w, acked⟩
  | ⟨.down _, _⟩, _ => none

/-- No append puts bytes behind a record that a crash cut off. -/
def EndsWhole (X : Externals) : Machine → CrashOp → Prop
  | ⟨.up w, _⟩, .append e => w.EndsWhole X e
  | ⟨.up w, _⟩, .crashAppend e written => w.EndsWhole X e ∨ written = 0
  | _, _ => True

instance decidableEndsWhole (X : Externals) : ∀ m op, Decidable (EndsWhole X m op)
  | ⟨.up w, _⟩, .append e => inferInstanceAs (Decidable (w.EndsWhole X e))
  | ⟨.up w, _⟩, .crashAppend e written =>
    inferInstanceAs (Decidable (w.EndsWhole X e ∨ written = 0))
  | ⟨.up _, _⟩, .crash | ⟨.up _, _⟩, .reopen _ | ⟨.down _, _⟩, .append _
  | ⟨.down _, _⟩, .crash | ⟨.down _, _⟩, .crashAppend _ _ | ⟨.down _, _⟩, .reopen _ =>
    inferInstanceAs (Decidable True)

/-- The files hold the acknowledged entries, and a running process knows their end. -/
def Sound (X : Externals) (m : Machine) : Prop :=
  ∃ cs : List (Chunk X), Holds m.process.files cs ∧ m.acked = entries cs ∧
    ∀ w, m.process = .up w → ∃ pre c, cs = pre ++ [c] ∧ w.Repr pre c

theorem sound_up {X : Externals} {w : Wal} {pre : List (Chunk X)} {c : Chunk X}
    (h : w.Repr pre c) {acked : List ReadEntry} (ha : acked = entries (pre ++ [c])) :
    Sound X ⟨.up w, acked⟩ := by
  refine ⟨pre ++ [c], h.holds, ha, ?_⟩
  rintro w' ⟨⟩
  exact ⟨pre, c, rfl, h⟩

theorem sound_down {X : Externals} {dir : Dir} {cs : List (Chunk X)} (h : Holds dir cs)
    {acked : List ReadEntry} (ha : acked = entries cs) : Sound X ⟨.down dir, acked⟩ :=
  ⟨cs, h, ha, by simp⟩

/-- Each step that leaves no record behind a torn one keeps the files sound. -/
theorem sound_step {X : Externals} {m m' : Machine} {op : CrashOp} (h : Sound X m)
    (hw : EndsWhole X m op) (hs : step X m op = some m') : Sound X m' := by
  obtain ⟨p, acked⟩ := m
  obtain ⟨cs, hfiles, hacked, hup⟩ := h
  cases op with
  | append e =>
    cases p with
    | down dir => simp [step] at hs
    | up w =>
      obtain ⟨pre, c, rfl, hr⟩ := hup w rfl
      simp only at hacked
      simp only [step] at hs
      have ready : c.tail = [] ∨
          w.needsRotation (recordOf X (w.nextSequence, e)).diskSize = true :=
        hw.imp (fun ht => hr.tornTail ▸ ht) id
      split at hs
      · cases hs
      · rename_i w' err ha
        obtain ⟨pre', c', hg⟩ := hr.append ready ha
        cases hs
        exact sound_up hg.repr (hacked.trans hg.entries.symm)
      · rename_i w' seq off ha
        obtain ⟨pre', c', hg⟩ := hr.append ready ha
        cases hs
        exact sound_up hg.repr (by rw [hacked]; exact hg.entries.symm)
  | crash =>
    cases p <;> cases hs <;> exact sound_down hfiles hacked
  | crashAppend e written =>
    cases p with
    | down dir => simp [step] at hs
    | up w =>
      obtain ⟨pre, c, rfl, hr⟩ := hup w rfl
      simp only [step] at hs
      split at hs
      · cases hs
      rename_i dir ha
      obtain ⟨cs', hholds, he⟩ := hr.tornAppend hw ha
      cases hs
      exact sound_down hholds (hacked.trans he.symm)
  | reopen config =>
    obtain ⟨w, pre, c, hopen, hr, he⟩ := Wal.openDir_entries hfiles config
    have hm : m' = ⟨.up w, acked⟩ := by
      cases p <;> simp only [step, hopen, Option.some.injEq] at hs <;> exact hs.symm
    rw [hm]
    exact sound_up hr (hacked.trans he.symm)

/-- In every run that puts nothing behind a torn record, whatever it crashes and
restarts, the log opens and reads back exactly what was acknowledged. -/
theorem reopen_reads_acked (X : Externals) {ops : List CrashOp} {m : Machine}
    (whole : Meets (step X) (EndsWhole X) ⟨.down ∅, []⟩ ops)
    (hrun : run (step X) ⟨.down ∅, []⟩ ops = some m) (config : WalConfig) :
    ∃ w w', Wal.openDir X config m.process.files = .ok w ∧
      w.readFrom X ⟨0⟩ none = some (w', .ok m.acked) := by
  have none : Holds (X := X) ∅ [] := by simp [Holds]
  have start : Sound X ⟨.down ∅, []⟩ := sound_down none rfl
  obtain ⟨cs, hfiles, hacked, -⟩ :=
    run_keeps_of_meets (P := Sound X) (fun s op t => sound_step) start whole hrun
  obtain ⟨w, pre, c, hopen, hr, he⟩ := Wal.openDir_entries hfiles config
  obtain ⟨stats, hread⟩ := hr.readFrom
  exact ⟨w, _, hopen, by rw [hread, hacked, he]⟩

/-- Two crashes, each torn record at the end of a segment that is left alone. -/
theorem reopen_reads_acked_of_rotated :
    ∃ m, run (step serde) ⟨.down ∅, []⟩
        [.reopen ⟨0, .everyWrite⟩, .append (.checkpoint 1), .crashAppend (.checkpoint 2) 30,
          .reopen ⟨0, .everyWrite⟩, .append (.checkpoint 3), .crashAppend (.checkpoint 4) 5] =
        some m ∧ m.acked.length = 2 ∧
      ∃ w w', Wal.openDir serde ⟨0, .everyWrite⟩ m.process.files = .ok w ∧
        w.readFrom serde ⟨0⟩ none = some (w', .ok m.acked) := by
  refine run_exists (p := fun m => m.acked.length = 2) (by decide +kernel) ?_
  intro m hrun hlen
  exact ⟨hlen, reopen_reads_acked serde (by decide +kernel) hrun ⟨0, .everyWrite⟩⟩

/-- A record behind five bytes of a torn one: the bytes are taken for the head of
a record, its length is read from the middle of the next, and the log with the
acknowledged record does not open again. -/
theorem record_behind_torn_bytes_not_opened :
    ∃ m, run (step serde) ⟨.down ∅, []⟩
        [.reopen ⟨1000, .everyWrite⟩, .crashAppend (.checkpoint 1) 5,
          .reopen ⟨1000, .everyWrite⟩, .append (.checkpoint 2)] = some m ∧
      m.acked.length = 1 ∧
      ∀ w, Wal.openDir serde ⟨1000, .everyWrite⟩ m.process.files ≠ .ok w := by
  refine run_exists (p := fun m => m.acked.length = 1 ∧
    (Wal.openDir serde ⟨1000, .everyWrite⟩ m.process.files).toOption = none) ?_ ?_
  · decide +kernel
  · rintro m - ⟨hlen, hopen⟩
    refine ⟨hlen, fun w hw => ?_⟩
    rw [hw] at hopen
    exact absurd hopen (by simp [Except.toOption])

end Machine

end Rstmdb

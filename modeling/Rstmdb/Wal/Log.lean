import Rstmdb.Wal.Segment

/-! The write-ahead log: recovery, rotation, appends, reads and compaction over
a directory of segments. A call that panics yields `none`; a call that fails
yields the state it leaves behind. -/
namespace Rstmdb

/-- Fsync policy for writes. -/
inductive FsyncPolicy
  | everyWrite
  | everyN (n : UInt32)
  | everyMs (ms : UInt32)
  | never
  deriving DecidableEq, Repr

structure WalConfig where
  segmentSize : Nat
  fsyncPolicy : FsyncPolicy
  deriving DecidableEq, Repr

/-- A global offset: the segment id above bit 40, the offset in the segment below. -/
structure WalOffset where
  asU64 : Nat
  deriving DecidableEq, Repr

namespace WalOffset

def offsetBits : Nat := 40

def offsetMask : Nat := 2 ^ 40 - 1

/-- The packed word. The shift is the one of a `u64`: high bits of the id are lost. -/
def pack (segmentId : SegmentId) (offset : Nat) : WalOffset :=
  ⟨(segmentId <<< offsetBits) % 2 ^ 64 ||| offset⟩

/-- `WalOffset::new`, which asserts that the offset fits. -/
def new (segmentId : SegmentId) (offset : Nat) : Option WalOffset :=
  if offset ≤ offsetMask then some (pack segmentId offset) else none

def segmentId (o : WalOffset) : SegmentId := o.asU64 >>> offsetBits

def offset (o : WalOffset) : Nat := o.asU64 &&& offsetMask

/-- The packed word as a number: only the low 24 bits of the id are in it. -/
theorem pack_asU64 (id : Nat) {off : Nat} (h : off ≤ offsetMask) :
    (pack id off).asU64 = id % 2 ^ 24 * 2 ^ 40 + off := by
  have hlow : off < 2 ^ 40 := by simp only [offsetMask] at h; omega
  have hshift : (id <<< 40) % 2 ^ 64 = (id % 2 ^ 24) <<< 40 := by
    simp only [Nat.shiftLeft_eq]; omega
  simp only [pack, offsetBits, hshift]
  rw [← Nat.shiftLeft_add_eq_or_of_lt hlow, Nat.shiftLeft_eq]

theorem pack_segmentId (id : Nat) {off : Nat} (h : off ≤ offsetMask) :
    (pack id off).segmentId = id % 2 ^ 24 := by
  have hdiv : (id % 2 ^ 24 * 2 ^ 40 + off) / 2 ^ 40 = id % 2 ^ 24 := by
    simp only [offsetMask] at h
    omega
  rw [segmentId, pack_asU64 id h, offsetBits, Nat.shiftRight_eq_div_pow, hdiv]

theorem pack_lt_of_lt {i j : Nat} (hij : i < j) (hj : j < 2 ^ 24) {o o' : Nat}
    (ho : o ≤ offsetMask) (ho' : o' ≤ offsetMask) :
    (pack i o).asU64 < (pack j o').asU64 := by
  rw [pack_asU64 i ho, pack_asU64 j ho', Nat.mod_eq_of_lt (hij.trans hj), Nat.mod_eq_of_lt hj]
  simp only [offsetMask] at ho
  omega

end WalOffset

/-- The totals of the log. What its atomic counters hold is these modulo `2 ^ 64`. -/
structure WalStats where
  bytesWritten : Nat := 0
  bytesRead : Nat := 0
  writes : Nat := 0
  reads : Nat := 0
  fsyncs : Nat := 0
  deriving DecidableEq, Repr

/-- The log in memory, with the directory it works on. `current` is the handle
that writes; `segments` holds a second handle on every file, for reading. -/
structure Wal where
  config : WalConfig
  dir : Dir
  current : Option Segment
  segments : Table SegmentId Segment
  nextSequence : UInt64
  writesSinceSync : Nat
  closed : Bool
  stats : WalStats

/-- An entry as a read returns it: its sequence number, its offset and the entry. -/
abbrev ReadEntry := UInt64 × WalOffset × WalEntry

namespace Wal

/-! ## Rotation -/

/-- The id after the last one in the map. -/
def nextId (w : Wal) : SegmentId :=
  match w.segments.keys.getLast? with
  | some id => id + 1
  | none => 1

/-- Opens a second handle on the new file and puts it in the map. -/
def insertSegment (w : Wal) (id : SegmentId) : Except WalError Wal :=
  match Segment.openFile w.dir id w.config.segmentSize with
  | .error e => .error e
  | .ok reader => .ok { w with segments := w.segments.insert id reader }

def rotateSegment (w : Wal) : Wal × Except WalError Unit :=
  let nextId := w.nextId
  match Segment.create w.dir nextId w.config.segmentSize with
  | .error e => (w, .error e)
  | .ok (segment, dir) =>
    match insertSegment { w with dir } nextId with
    | .error e => ({ w with dir }, .error e)
    | .ok w => ({ w with current := some segment }, .ok ())

/-! ## Appending -/

/-- `fetch_add` on the sequence counter: the number drawn, and the counter after it. -/
def drawSequence (w : Wal) : UInt64 × Wal :=
  (w.nextSequence, { w with nextSequence := w.nextSequence + 1 })

/-- The record that an append of the entry would write now. -/
def nextRecord (X : Externals) (w : Wal) (entry : WalEntry) : WalRecord :=
  WalRecord.new X entry.entryType w.nextSequence (X.toVec entry)

/-- There is no segment to write to, or the record does not fit in it. -/
def needsRotation (w : Wal) (recordSize : Nat) : Bool :=
  match w.current with
  | none => true
  | some segment => !segment.canFit recordSize

/-- `segment.sync()` with its counters. -/
def syncSegment (w : Wal) (segment : Segment) : Wal :=
  let (segment, dir) := segment.sync w.dir
  { w with
    current := some segment, dir, writesSinceSync := 0,
    stats := { w.stats with fsyncs := w.stats.fsyncs + 1 } }

/-- The fsync a policy asks for after a write. -/
def applyPolicy (w : Wal) (segment : Segment) : Wal :=
  match w.config.fsyncPolicy with
  | .everyWrite => w.syncSegment segment
  | .everyN n => if n.toNat ≤ w.writesSinceSync then w.syncSegment segment else w
  | .everyMs _ => w
  | .never => w

/-- The write to the current segment, with its counters. -/
def noteWrite (w : Wal) (segment : Segment) (dir : Dir) (recordSize : Nat) : Wal :=
  { w with
    current := some segment, dir, writesSinceSync := w.writesSinceSync + 1,
    stats := { w.stats with
      bytesWritten := w.stats.bytesWritten + recordSize, writes := w.stats.writes + 1 } }

/-- What `append` does holding the segment lock for the last time: write the
record, sync as the policy says, and build the offset it returns. -/
def appendLocked (w : Wal) (record : WalRecord) :
    Option (Wal × Except WalError (UInt64 × WalOffset)) :=
  match w.current with
  | none => none
  | some segment =>
    match segment.append w.dir record with
    | .error e => some (w, .error e)
    | .ok (offset, segment, dir) =>
      let w := (w.noteWrite segment dir record.diskSize).applyPolicy segment
      match WalOffset.new segment.id offset with
      | none => none
      | some walOffset => some (w, .ok (record.header.sequence, walOffset))

def append (X : Externals) (w : Wal) (entry : WalEntry) :
    Option (Wal × Except WalError (UInt64 × WalOffset)) :=
  if w.closed then some (w, .error .closed)
  else
    let payload := X.toVec entry
    let (sequence, w) := w.drawSequence
    let record := WalRecord.new X entry.entryType sequence payload
    if w.needsRotation record.diskSize then
      match w.rotateSegment with
      | (w, .error e) => some (w, .error e)
      | (w, .ok ()) => w.appendLocked record
    else w.appendLocked record

/-- Forces a sync of the current segment. -/
def sync (w : Wal) : Wal :=
  match w.current with
  | some segment => w.syncSegment segment
  | none => { w with writesSinceSync := 0 }

def close (w : Wal) : Wal := sync { w with closed := true }

/-! ## Opening -/

/-- What a segment's handle reads of its file. -/
def readSegment (X : Externals) (w : Wal) (id : SegmentId) :
    Except WalError (List (Nat × WalRecord)) :=
  match w.dir[id]? with
  | some f => Segment.readAll X (X.reads f.bytes)
  | none => .ok []

/-- Opens every segment and finds the largest sequence number. -/
def openSegments (X : Externals) : List SegmentId → Wal → UInt64 → Except WalError (Wal × UInt64)
  | [], w, maxSequence => .ok (w, maxSequence)
  | id :: ids, w, maxSequence =>
    match Segment.openFile w.dir id w.config.segmentSize with
    | .error e => .error e
    | .ok segment =>
      match readSegment X w id with
      | .error e => .error e
      | .ok records =>
        openSegments X ids { w with segments := w.segments.insert id segment }
          (records.foldl (fun m p => max m p.2.header.sequence) maxSequence)

def recover (X : Externals) (w : Wal) : Except WalError Wal :=
  match w.dir.keys.getLast? with
  | none =>
    match w.rotateSegment with
    | (_, .error e) => .error e
    | (w, .ok ()) => .ok w
  | some latestId =>
    match openSegments X w.dir.keys w 0 with
    | .error e => .error e
    | .ok (w, maxSequence) =>
      match Segment.openFile w.dir latestId w.config.segmentSize with
      | .error e => .error e
      | .ok segment =>
        .ok { w with nextSequence := maxSequence + 1, current := some segment }

/-- Opens the log on a directory, whatever an earlier process left in it. -/
def openDir (X : Externals) (config : WalConfig) (dir : Dir) : Except WalError Wal :=
  recover X
    { config, dir, current := none, segments := ∅, nextSequence := 1, writesSinceSync := 0,
      closed := false, stats := {} }

/-! ## Reading -/

/-- The loop over one segment's records. `remaining` is none without a limit:
a list of `usize::MAX` entries does not fit in memory. -/
def takeRecords (X : Externals) (segmentId : SegmentId) (start : WalOffset) :
    List (Nat × WalRecord) → Option Nat →
      Option (Except WalError (List ReadEntry × Nat × Option Nat))
  | [], remaining => some (.ok ([], 0, remaining))
  | (offset, record) :: records, remaining =>
    match WalOffset.new segmentId offset with
    | none => none
    | some walOffset =>
      if walOffset.asU64 < start.asU64 then takeRecords X segmentId start records remaining
      else
        match X.fromSlice record.payload with
        | none => some (.error .json)
        | some entry =>
          let found := (record.header.sequence, walOffset, entry)
          let left := remaining.map (· - 1)
          if left = some 0 then some (.ok ([found], record.diskSize, left))
          else
            match takeRecords X segmentId start records left with
            | some (.ok (entries, bytes, left)) =>
              some (.ok (found :: entries, record.diskSize + bytes, left))
            | other => other

/-- The loop over the segments from the one that holds the start. -/
def readSegments (X : Externals) (w : Wal) (start : WalOffset) :
    List SegmentId → Option Nat → Option (Except WalError (List ReadEntry × Nat))
  | [], _ => some (.ok ([], 0))
  | id :: ids, remaining =>
    if remaining = some 0 then some (.ok ([], 0))
    else
      match readSegment X w id with
      | .error e => some (.error e)
      | .ok records =>
        match takeRecords X id start records remaining with
        | none => none
        | some (.error e) => some (.error e)
        | some (.ok (entries, bytes, remaining)) =>
          match readSegments X w start ids remaining with
          | some (.ok (more, moreBytes)) => some (.ok (entries ++ more, bytes + moreBytes))
          | other => other

/-- Reads entries from the given offset on. -/
def readFrom (X : Externals) (w : Wal) (start : WalOffset) (limit : Option Nat) :
    Option (Wal × Except WalError (List ReadEntry)) :=
  match readSegments X w start (w.segments.keys.filter (start.segmentId ≤ ·)) limit with
  | none => none
  | some (.error e) => some (w, .error e)
  | some (.ok (entries, bytes)) =>
    some ({ w with
      stats := { w.stats with
        bytesRead := w.stats.bytesRead + bytes, reads := w.stats.reads + 1 } }, .ok entries)

/-! ## Compaction and sizes -/

/-- Deletes the segments before the one that holds the offset. -/
def compactBefore (w : Wal) (before : WalOffset) : Wal × Nat :=
  (w.segments.keys.filter (· < before.segmentId)).foldl
    (fun (w, deleted) id =>
      ({ w with segments := w.segments.erase id, dir := w.dir.erase id },
        if w.dir.contains id then deleted + 1 else deleted))
    (w, 0)

def segmentIds (w : Wal) : List SegmentId := w.segments.keys

/-- The start of the first segment. -/
def earliestOffset (w : Wal) : Option WalOffset :=
  w.segments.keys.head?.map (WalOffset.pack · 0)

/-- The position after the last record of the current segment. -/
def latestOffset (w : Wal) : Option (Option WalOffset) :=
  match w.current with
  | none => some none
  | some segment => (WalOffset.new segment.id segment.size).map some

/-- The sizes the handles know, the writing handle's only without a reading one. -/
def totalSize (w : Wal) : Nat :=
  (w.segments.values.map Segment.size).sum +
    match w.current with
    | some segment => if w.segments.contains segment.id then 0 else segment.size
    | none => 0

/-! ## What the steps of an append can do -/

/-- The log after a rotation: an empty file under the next id, written and read from now on. -/
def rotated (w : Wal) : Wal :=
  { w with
    dir := w.dir.insert w.nextId ⟨[], 0⟩
    segments := w.segments.insert w.nextId ⟨w.nextId, 0, w.config.segmentSize, false⟩
    current := some ⟨w.nextId, 0, w.config.segmentSize, false⟩ }

theorem rotateSegment_cases (w : Wal) :
    (w.dir.contains w.nextId = true ∧ w.rotateSegment = (w, .error .io)) ∨
      (w.dir.contains w.nextId = false ∧ w.rotateSegment = (w.rotated, .ok ())) := by
  cases hc : w.dir.contains w.nextId with
  | true => exact .inl ⟨rfl, by simp [rotateSegment, Segment.create, hc]⟩
  | false =>
    exact .inr ⟨rfl, by
      simp [rotateSegment, Segment.create, hc, insertSegment, Segment.openFile, rotated]⟩

/-- The writing handle after a record. -/
def grownSegment (segment : Segment) (r : WalRecord) : Segment :=
  { segment with size := segment.size + r.diskSize, syncPending := true }

/-- The log after a record has been written to the current segment. -/
def written (w : Wal) (segment : Segment) (r : WalRecord) : Wal :=
  w.noteWrite (grownSegment segment r) (Segment.writeEnd w.dir segment.id r.bytes) r.diskSize

variable {w w' : Wal} {res : Except WalError (UInt64 × WalOffset)} {X : Externals}

theorem appendLocked_cases {segment : Segment} {r : WalRecord} (hs : w.current = some segment)
    (h : w.appendLocked r = some (w', res)) :
    (maxRecordSize < r.payload.length ∧ w' = w ∧
        res = .error (.recordTooLarge r.payload.length maxRecordSize)) ∨
      (r.payload.length ≤ maxRecordSize ∧ segment.size ≤ WalOffset.offsetMask ∧
        w' = (w.written segment r).applyPolicy (grownSegment segment r) ∧
        res = .ok (r.header.sequence, WalOffset.pack segment.id segment.size)) := by
  by_cases hfit : r.payload.length ≤ maxRecordSize
  · right
    simp only [appendLocked, hs, Segment.append, WalRecord.encode_ok hfit,
      WalRecord.length_bytes, WalOffset.new] at h
    split at h
    · cases h
    rename_i off hnew
    split at hnew
    · rename_i hlow
      cases hnew
      cases h
      exact ⟨hfit, hlow, rfl, rfl⟩
    · cases hnew
  · left
    simp only [appendLocked, hs, Segment.append, WalRecord.encode, Nat.not_le.mp hfit,
      if_true, Option.some.injEq, Prod.mk.injEq] at h
    exact ⟨Nat.not_le.mp hfit, h.1.symm, h.2.symm⟩

/-- An append is refused, cannot rotate, or writes after a rotation or without one. -/
theorem append_cases {entry : WalEntry} (h : w.append X entry = some (w', res)) :
    (w.closed = true ∧ w' = w ∧ res = .error .closed) ∨
      (w.closed = false ∧ w.needsRotation (w.nextRecord X entry).diskSize = true ∧
        w.dir.contains w.nextId = true ∧ w' = w.drawSequence.2 ∧ res = .error .io) ∨
      (w.closed = false ∧ w.needsRotation (w.nextRecord X entry).diskSize = true ∧
        w.dir.contains w.nextId = false ∧
        w.drawSequence.2.rotated.appendLocked (w.nextRecord X entry) = some (w', res)) ∨
      (w.closed = false ∧ w.needsRotation (w.nextRecord X entry).diskSize = false ∧
        w.drawSequence.2.appendLocked (w.nextRecord X entry) = some (w', res)) := by
  unfold append at h
  split at h
  · rename_i hc
    cases h
    exact .inl ⟨hc, rfl, rfl⟩
  rename_i hc
  have hopen : w.closed = false := Bool.eq_false_iff.mpr hc
  change (if w.needsRotation (w.nextRecord X entry).diskSize = true then
    match w.drawSequence.2.rotateSegment with
    | (v, .error e) => some (v, .error e)
    | (v, .ok ()) => v.appendLocked (w.nextRecord X entry)
    else w.drawSequence.2.appendLocked (w.nextRecord X entry)) = some (w', res) at h
  split at h
  · rename_i hrot
    rcases rotateSegment_cases w.drawSequence.2 with ⟨hid, hr⟩ | ⟨hid, hr⟩
    · rw [hr] at h
      cases h
      exact .inr (.inl ⟨hopen, hrot, hid, rfl, rfl⟩)
    · rw [hr] at h
      exact .inr (.inr (.inl ⟨hopen, hrot, hid, h⟩))
  · rename_i hrot
    exact .inr (.inr (.inr ⟨hopen, Bool.eq_false_iff.mpr hrot, h⟩))

section
variable {w : Wal} {seg : Segment}

@[simp] theorem syncSegment_nextSequence : (w.syncSegment seg).nextSequence = w.nextSequence :=
  rfl

@[simp] theorem syncSegment_closed : (w.syncSegment seg).closed = w.closed := rfl

@[simp] theorem syncSegment_config : (w.syncSegment seg).config = w.config := rfl

theorem applyPolicy_cases (w : Wal) (seg : Segment) :
    w.applyPolicy seg = w ∨ w.applyPolicy seg = w.syncSegment seg := by
  unfold applyPolicy
  split
  · exact .inr rfl
  · split
    · exact .inr rfl
    · exact .inl rfl
  · exact .inl rfl
  · exact .inl rfl

theorem applyPolicy_current (hs : w.current = some seg) :
    ∃ seg', (w.applyPolicy seg).current = some seg' ∧ seg'.id = seg.id ∧
      seg'.size = seg.size := by
  rcases applyPolicy_cases w seg with h | h
  · exact ⟨seg, by rw [h, hs], rfl, rfl⟩
  · exact ⟨(seg.sync w.dir).1, by rw [h]; rfl, Segment.sync_id _ _, Segment.sync_size _ _⟩

theorem mem_dir_applyPolicy {k : SegmentId} (hk : k ∈ w.dir) : k ∈ (w.applyPolicy seg).dir := by
  rcases applyPolicy_cases w seg with h | h <;> rw [h]
  · exact hk
  · exact Segment.mem_sync hk

@[simp] theorem applyPolicy_nextSequence : (w.applyPolicy seg).nextSequence = w.nextSequence := by
  rcases applyPolicy_cases w seg with h | h <;> simp [h]

@[simp] theorem applyPolicy_closed : (w.applyPolicy seg).closed = w.closed := by
  rcases applyPolicy_cases w seg with h | h <;> simp [h]

@[simp] theorem applyPolicy_config : (w.applyPolicy seg).config = w.config := by
  rcases applyPolicy_cases w seg with h | h <;> simp [h]

end

/-! ## What opening can do -/

theorem openSegments_frame {ids : List SegmentId} {m n : UInt64}
    (h : openSegments X ids w m = .ok (w', n)) : ∃ segments, w' = { w with segments } := by
  induction ids generalizing w m with
  | nil =>
    cases h
    exact ⟨_, rfl⟩
  | cons id ids ih =>
    simp only [openSegments] at h
    split at h
    · cases h
    split at h
    · cases h
    · obtain ⟨segments, hw⟩ := ih h
      exact ⟨segments, hw⟩

theorem openDir_current {config : WalConfig} {dir : Dir} (h : openDir X config dir = .ok w) :
    ∃ seg f, w.current = some seg ∧ w.dir[seg.id]? = some f ∧ f.bytes.length = seg.size ∧
      seg.syncPending = false ∧ w.config = config ∧ w.writesSinceSync = 0 := by
  unfold openDir recover at h
  split at h
  · rcases rotateSegment_cases _ with ⟨-, hr⟩ | ⟨-, hr⟩
    · rw [hr] at h
      cases h
    · rw [hr] at h
      cases h
      exact ⟨_, ⟨[], 0⟩, rfl, Std.ExtTreeMap.getElem?_insert_self, rfl, rfl, rfl, rfl⟩
  · split at h
    · cases h
    rename_i w' m hopen
    obtain ⟨segments, rfl⟩ := openSegments_frame hopen
    split at h
    · cases h
    rename_i seg hseg
    cases h
    unfold Segment.openFile at hseg
    split at hseg
    · cases hseg
    · rename_i f hf
      cases hseg
      exact ⟨_, f, rfl, hf, rfl, rfl, rfl, rfl⟩

end Wal

end Rstmdb

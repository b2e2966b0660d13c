import Rstmdb.Lib.OrderedMap
import Rstmdb.Lib.Stream
import Rstmdb.Wal.Payload
import Rstmdb.Wal.Record

/-! Segment files and the scan that reads them back. The scan's result does not
depend on the pieces in which the file arrives, and a file made of encoded
records and a torn tail gives back exactly those records. -/
namespace Rstmdb

abbrev SegmentId := Nat

/-- A segment file: its bytes, and how many of them the last `sync_data` reached. -/
structure SegFile where
  bytes : Bytes
  synced : Nat
  deriving DecidableEq, Repr

/-- The directory of segment files, which is what outlives the process. -/
abbrev Dir := Table SegmentId SegFile

/-- An open segment. The path is the one its id names. -/
structure Segment where
  id : SegmentId
  size : Nat
  maxSize : Nat
  syncPending : Bool
  deriving DecidableEq, Repr

namespace Segment

/-- Creates a new segment file; `create_new` fails on a file that is there. -/
def create (dir : Dir) (id : SegmentId) (maxSize : Nat) : Except WalError (Segment × Dir) :=
  if dir.contains id then .error .io
  else .ok (⟨id, 0, maxSize, false⟩, dir.insert id ⟨[], 0⟩)

/-- Opens an existing segment file; the size is the file's length. -/
def openFile (dir : Dir) (id : SegmentId) (maxSize : Nat) : Except WalError Segment :=
  match dir[id]? with
  | none => .error .io
  | some f => .ok ⟨id, f.bytes.length, maxSize, false⟩

def canFit (seg : Segment) (recordSize : Nat) : Bool := seg.size + recordSize ≤ seg.maxSize

/-- Bytes written at the end of the file. A file that has been unlinked takes
them without a trace in the directory. -/
def writeEnd (dir : Dir) (id : SegmentId) (data : Bytes) : Dir :=
  match dir[id]? with
  | none => dir
  | some f => dir.insert id { f with bytes := f.bytes ++ data }

/-- Appends a record; the offset is the size the handle believes in. -/
def append (seg : Segment) (dir : Dir) (r : WalRecord) :
    Except WalError (Nat × Segment × Dir) :=
  match r.encode with
  | .error e => .error e
  | .ok encoded =>
    .ok (seg.size, { seg with size := seg.size + encoded.length, syncPending := true },
      writeEnd dir seg.id encoded)

/-- `sync_data` on the segment's file, when a write is pending. -/
def sync (seg : Segment) (dir : Dir) : Segment × Dir :=
  if seg.syncPending then
    ({ seg with syncPending := false },
      match dir[seg.id]? with
      | none => dir
      | some f => dir.insert seg.id { f with synced := f.bytes.length })
  else (seg, dir)

@[simp] theorem sync_id (seg : Segment) (dir : Dir) : (seg.sync dir).1.id = seg.id := by
  unfold sync
  split <;> rfl

@[simp] theorem sync_size (seg : Segment) (dir : Dir) : (seg.sync dir).1.size = seg.size := by
  unfold sync
  split <;> rfl

@[simp] theorem sync_syncPending (seg : Segment) (dir : Dir) :
    (seg.sync dir).1.syncPending = false := by
  unfold sync
  split
  · rfl
  · exact Bool.eq_false_iff.mpr ‹_›

theorem mem_writeEnd {dir : Dir} {id k : SegmentId} {data : Bytes} (h : k ∈ dir) :
    k ∈ writeEnd dir id data := by
  unfold writeEnd
  split
  · exact h
  · exact Std.ExtTreeMap.mem_insert.mpr (.inr h)

theorem mem_sync {seg : Segment} {dir : Dir} {k : SegmentId} (h : k ∈ dir) :
    k ∈ (seg.sync dir).2 := by
  unfold sync
  split
  · simp only
    split
    · exact h
    · exact Std.ExtTreeMap.mem_insert.mpr (.inr h)
  · exact h

/-- The records decoded so far, the bytes not yet decoded, and their offset. -/
abbrev Scanned := List (Nat × WalRecord) × Bytes × Nat

/-- The inner loop of `read_all`: decode while a whole header is buffered. -/
def drain (X : Externals) : Nat → Bytes → Nat → Except WalError Scanned
  | 0, buf, offset => .ok ([], buf, offset)
  | fuel + 1, buf, offset =>
    if buf.length < recordHeaderSize then .ok ([], buf, offset)
    else
      match WalRecord.decode X buf offset with
      | (_, .error e) => .error e
      | (_, .ok none) => .ok ([], buf, offset)
      | (rest, .ok (some r)) => do
        let (rs, buf', offset') ← drain X fuel rest (offset + r.diskSize)
        .ok ((offset, r) :: rs, buf', offset')

/-- The outer loop of `read_all`: one read after another until one is empty. -/
def readLoop (X : Externals) : List Bytes → Bytes → Nat → Except WalError (List (Nat × WalRecord))
  | [], _, _ => .ok []
  | chunk :: chunks, buf, offset =>
    if chunk = [] then .ok []
    else do
      let (rs, buf', offset') ← drain X (buf ++ chunk).length (buf ++ chunk) offset
      let rs' ← readLoop X chunks buf' offset'
      .ok (rs ++ rs')

/-- Reads all records of a file that is handed over in `chunks`. -/
def readAll (X : Externals) (chunks : List Bytes) : Except WalError (List (Nat × WalRecord)) :=
  readLoop X chunks [] 0

/-- The loop of `read_at`: one read after another until a record is there or a read is
empty. -/
def readAtLoop (X : Externals) (offset : Nat) :
    List Bytes → Bytes → Except WalError (Option WalRecord)
  | [], _ => .ok none
  | chunk :: chunks, buf =>
    if chunk = [] then .ok none
    else
      match WalRecord.decode X (buf ++ chunk) offset with
      | (_, .error e) => .error e
      | (_, .ok (some r)) => .ok (some r)
      | (buf', .ok none) => readAtLoop X offset chunks buf'

/-- Reads a single record at the given offset; what the file holds from there on is handed
over in `chunks`. -/
def readAt (X : Externals) (chunks : List Bytes) (offset : Nat) :
    Except WalError (Option WalRecord) :=
  readAtLoop X offset chunks []

end Segment

/-! ## The scan of a whole file -/

/-- The scan of a file read in one piece. -/
def scan (X : Externals) (buf : Bytes) (offset : Nat) : Except WalError Segment.Scanned :=
  Segment.drain X buf.length buf offset

/-- Record after record, each with the offset at which it stands. -/
def WalRecord.next (X : Externals) : Decode Nat UInt8 WalError (Nat × WalRecord) :=
  fun offset buf =>
    match WalRecord.decode X buf offset with
    | (rest, .error e) => (rest, .error e)
    | (rest, .ok none) => (rest, .ok none)
    | (rest, .ok (some r)) => (rest, .ok (some ((offset, r), offset + r.diskSize)))

theorem WalRecord.next_incremental (X : Externals) : (WalRecord.next X).Incremental where
  empty offset := rfl
  waits {offset buf rest} h := by
    rcases hd : WalRecord.decode X buf offset with ⟨b, e | _ | r⟩ <;>
      simp only [next, hd, Prod.mk.injEq] at h
    · cases h.2
    · rw [← h.1, decode_waits hd]
    · cases h.2
  stable {offset buf rest a} h ha more := by
    rcases hd : WalRecord.decode X buf offset with ⟨b, e | _ | r⟩ <;>
      simp only [next, hd, Prod.mk.injEq] at h <;> obtain ⟨rfl, rfl⟩ := h
    · simp [next, decode_append hd (by simp) more]
    · exact absurd rfl ha
    · simp [next, decode_append hd (by simp) more]
  consumes {offset buf rest v} h := by
    rcases hd : WalRecord.decode X buf offset with ⟨b, e | _ | r⟩ <;>
      simp only [next, hd, Prod.mk.injEq] at h
    · cases h.2
    · cases h.2
    · have := decode_consumes hd
      simp only [diskSize, recordHeaderSize] at this
      rw [← h.1]
      omega

/-- An error takes the records before it along. -/
def outcome : List (Nat × WalRecord) × Except WalError (Nat × Bytes) →
    Except WalError Segment.Scanned
  | (_, .error e) => .error e
  | (rs, .ok (offset, rest)) => .ok (rs, rest, offset)

theorem outcome_andThen (p : List (Nat × WalRecord) × Except WalError (Nat × Bytes))
    (go : Nat → Bytes → List (Nat × WalRecord) × Except WalError (Nat × Bytes)) :
    outcome (Decode.andThen p go) = (do
      let (rs, rest, offset) ← outcome p
      let (rs', rest', offset') ← outcome (go offset rest)
      .ok (rs ++ rs', rest', offset')) := by
  obtain ⟨rs, e | ⟨offset, rest⟩⟩ := p
  · rfl
  · rcases hg : go offset rest with ⟨rs', e | ⟨offset', rest'⟩⟩ <;>
      simp [outcome, Decode.andThen, hg, bind, Except.bind]

theorem drain_eq (X : Externals) (fuel : Nat) (buf : Bytes) (offset : Nat) :
    Segment.drain X fuel buf offset = outcome ((WalRecord.next X).drain fuel offset buf) := by
  induction fuel generalizing buf offset with
  | zero => rfl
  | succ fuel ih =>
    by_cases hs : buf.length < recordHeaderSize
    · simp [Segment.drain, Decode.drain, WalRecord.next, WalRecord.decode, hs, outcome]
    · rcases hd : WalRecord.decode X buf offset with ⟨b, e | _ | r⟩
      · simp [Segment.drain, Decode.drain, WalRecord.next, hs, hd, outcome]
      · simp [Segment.drain, Decode.drain, WalRecord.next, hs, hd, outcome,
          WalRecord.decode_waits hd]
      · simp only [Segment.drain, Decode.drain, WalRecord.next, hs, hd, if_false, ih]
        rcases (WalRecord.next X).drain fuel (offset + r.diskSize) b with ⟨rs, e | ⟨o, rest⟩⟩ <;>
          rfl

theorem scan_eq (X : Externals) (buf : Bytes) (offset : Nat) :
    scan X buf offset = outcome ((WalRecord.next X).decodeAll offset buf) :=
  drain_eq X buf.length buf offset

variable {X : Externals} {buf rest t : Bytes} {offset : Nat} {rs : List WalRecord}
  {chunks : List Bytes}

theorem scan_none {b : Bytes} (h : WalRecord.decode X buf offset = (b, .ok none)) :
    scan X buf offset = .ok ([], buf, offset) := by
  have hw : WalRecord.next X offset buf = (b, .ok none) := by simp [WalRecord.next, h]
  rw [scan_eq, Decode.decodeAll_wait (WalRecord.next_incremental X) hw]
  rfl

theorem scan_error {b : Bytes} {e : WalError} (h : WalRecord.decode X buf offset = (b, .error e)) :
    scan X buf offset = .error e := by
  have he : WalRecord.next X offset buf = (b, .error e) := by simp [WalRecord.next, h]
  rw [scan_eq, Decode.decodeAll_error (WalRecord.next_incremental X) he]
  rfl

theorem scan_some {r : WalRecord} (h : WalRecord.decode X buf offset = (rest, .ok (some r))) :
    scan X buf offset = (do
      let (rs, buf', offset') ← scan X rest (offset + r.diskSize)
      .ok ((offset, r) :: rs, buf', offset')) := by
  have hn : WalRecord.next X offset buf =
      (rest, .ok (some ((offset, r), offset + r.diskSize))) := by simp [WalRecord.next, h]
  rw [scan_eq, Decode.decodeAll_some (WalRecord.next_incremental X) hn, outcome_andThen, scan_eq]
  rfl

/-- Bytes that the scan leaves in its buffer, wherever they stand. -/
def Settled (X : Externals) (buf : Bytes) : Prop :=
  ∀ offset, scan X buf offset = .ok ([], buf, offset)

theorem settled_nil (X : Externals) : Settled X [] := fun _ => rfl

/-- What the scan leaves over stays left over. -/
theorem scan_settled {offset' : Nat} {rs : List (Nat × WalRecord)}
    (h : scan X buf offset = .ok (rs, rest, offset')) :
    scan X rest offset' = .ok ([], rest, offset') := by
  have hn := WalRecord.next_incremental X
  rw [scan_eq] at h ⊢
  rcases hd : (WalRecord.next X).decodeAll offset buf with ⟨rs', e | ⟨o, b⟩⟩
  · simp [hd, outcome] at h
  · simp only [hd, outcome, Except.ok.injEq, Prod.mk.injEq] at h
    obtain ⟨-, rfl, rfl⟩ := h
    rw [Decode.decodeAll_wait hn (Decode.decodeAll_settled hn hd)]
    rfl

/-- A scan can stop at any byte and go on when the rest of the file arrives. -/
theorem scan_append (X : Externals) (buf more : Bytes) (offset : Nat) :
    scan X (buf ++ more) offset = (do
      let (rs, rest, offset') ← scan X buf offset
      let (rs', rest', offset'') ← scan X (rest ++ more) offset'
      .ok (rs ++ rs', rest', offset'')) := by
  simp only [scan_eq, Decode.decodeAll_append (WalRecord.next_incremental X) offset buf more,
    outcome_andThen]

/-- Whatever the file holds, records are found at growing offsets. -/
theorem drain_increasing {fuel : Nat} {offset' : Nat} {rs : List (Nat × WalRecord)}
    (h : Segment.drain X fuel buf offset = .ok (rs, rest, offset')) :
    (rs.Pairwise fun p q => p.1 < q.1) ∧ ∀ p ∈ rs, offset ≤ p.1 := by
  induction fuel generalizing buf offset rs rest offset' with
  | zero =>
    cases h
    exact ⟨.nil, by simp⟩
  | succ fuel ih =>
    simp only [Segment.drain] at h
    split at h
    · cases h
      exact ⟨.nil, by simp⟩
    split at h
    · cases h
    · cases h
      exact ⟨.nil, by simp⟩
    · rename_i more r hd
      cases hrest : Segment.drain X fuel more (offset + r.diskSize) with
      | error e => simp [hrest, bind, Except.bind] at h
      | ok q =>
        obtain ⟨rs', rest', o'⟩ := q
        simp only [hrest, bind, Except.bind, Except.ok.injEq, Prod.mk.injEq] at h
        obtain ⟨rfl, -, -⟩ := h
        obtain ⟨hpair, hlow⟩ := ih hrest
        have hpast : ∀ p ∈ rs', offset < p.1 := by
          intro p hp
          have := hlow p hp
          simp only [WalRecord.diskSize, recordHeaderSize] at this
          omega
        refine ⟨List.pairwise_cons.mpr ⟨hpast, hpair⟩, ?_⟩
        intro p hp
        rcases List.mem_cons.mp hp with rfl | hp
        · exact le_refl _
        · exact (hpast p hp).le

theorem readLoop_eq (X : Externals) (hc : ∀ c ∈ chunks, c ≠ [])
    (hb : scan X buf offset = .ok ([], buf, offset)) :
    Segment.readLoop X chunks buf offset =
      (scan X (buf ++ chunks.flatten) offset).map (·.1) := by
  induction chunks generalizing buf offset with
  | nil => simp [Segment.readLoop, hb, Except.map]
  | cons c cs ih =>
    have hne : c ≠ [] := hc c List.mem_cons_self
    have hcs : ∀ c ∈ cs, c ≠ [] := fun c' h => hc c' (List.mem_cons_of_mem c h)
    have hsplit : buf ++ (c :: cs).flatten = (buf ++ c) ++ cs.flatten := by simp
    rw [Segment.readLoop, if_neg hne, hsplit, scan_append]
    change (scan X (buf ++ c) offset).bind _ = _
    cases hs : scan X (buf ++ c) offset with
    | error e => rfl
    | ok q =>
      obtain ⟨rs, rest, o'⟩ := q
      have hr := ih hcs (scan_settled hs)
      simp only [Except.bind, bind, hr]
      cases scan X (rest ++ cs.flatten) o' <;> rfl

/-- The pieces in which a file is read do not matter. -/
theorem readAll_eq_scan (X : Externals) (hc : ∀ c ∈ chunks, c ≠ []) :
    Segment.readAll X chunks = (scan X chunks.flatten 0).map (·.1) := by
  rw [Segment.readAll, readLoop_eq X hc (settled_nil X 0), List.nil_append]

theorem readAll_increasing (hc : ∀ c ∈ chunks, c ≠ []) {rs : List (Nat × WalRecord)}
    (h : Segment.readAll X chunks = .ok rs) : rs.Pairwise fun p q => p.1 < q.1 := by
  rw [readAll_eq_scan X hc, scan] at h
  cases hs : Segment.drain X chunks.flatten.length chunks.flatten 0 with
  | error e =>
    rw [hs] at h
    cases h
  | ok q =>
    rw [hs] at h
    cases h
    exact (drain_increasing hs).1

/-! ## Files made of records and a torn tail -/

/-- Records at consecutive offsets. -/
def placed : Nat → List WalRecord → List (Nat × WalRecord)
  | _, [] => []
  | offset, r :: rs => (offset, r) :: placed (offset + r.diskSize) rs

def encodeAll (rs : List WalRecord) : Bytes := rs.flatMap WalRecord.bytes

@[simp] theorem encodeAll_nil : encodeAll [] = [] := rfl

theorem encodeAll_append (rs rs' : List WalRecord) :
    encodeAll (rs ++ rs') = encodeAll rs ++ encodeAll rs' := by
  simp [encodeAll]

theorem encodeAll_singleton (r : WalRecord) : encodeAll [r] = r.bytes := by
  simp [encodeAll]

theorem placed_append (offset : Nat) (rs rs' : List WalRecord) :
    placed offset (rs ++ rs') =
      placed offset rs ++ placed (offset + (encodeAll rs).length) rs' := by
  induction rs generalizing offset with
  | nil => simp [placed]
  | cons r rs ih =>
    simp only [List.cons_append, placed, ih, encodeAll, List.flatMap_cons, List.length_append,
      WalRecord.length_bytes, Nat.add_assoc]

theorem map_snd_placed (offset : Nat) (rs : List WalRecord) :
    (placed offset rs).map Prod.snd = rs := by
  induction rs generalizing offset with
  | nil => rfl
  | cons r rs ih => rw [placed, List.map_cons, ih]

/-- What a crash in the middle of a write can leave of a record. -/
def Torn (X : Externals) (t : Bytes) : Prop :=
  ∃ r : WalRecord, r.Sound X ∧ t <+: r.bytes ∧ t ≠ r.bytes

theorem Torn.settled (h : Torn X t) : Settled X t := by
  obtain ⟨r, hr, hp, hne⟩ := h
  exact fun o => scan_none (WalRecord.decode_strict_prefix hr hp hne o)

/-- The scan undoes the encoding of any list of records, up to a tail it waits on. -/
theorem scan_encodeAll (hr : ∀ r ∈ rs, r.Sound X) (ht : Settled X t) (offset : Nat) :
    scan X (encodeAll rs ++ t) offset =
      .ok (placed offset rs, t, offset + (encodeAll rs).length) := by
  induction rs generalizing offset with
  | nil => simpa [placed] using ht offset
  | cons r rs ih =>
    have hd := WalRecord.decode_bytes (hr r List.mem_cons_self) (encodeAll rs ++ t) offset
    have hs := ih (fun r' h => hr r' (List.mem_cons_of_mem r h)) (offset + r.diskSize)
    have hsplit : encodeAll (r :: rs) ++ t = r.bytes ++ (encodeAll rs ++ t) := by
      simp [encodeAll]
    rw [hsplit, scan_some hd, hs]
    simp [bind, Except.bind, placed, encodeAll, Nat.add_assoc]

theorem readAll_encodeAll (hr : ∀ r ∈ rs, r.Sound X) (ht : Settled X t) (hc : ∀ c ∈ chunks, c ≠ [])
    (hf : chunks.flatten = encodeAll rs ++ t) : Segment.readAll X chunks = .ok (placed 0 rs) := by
  rw [readAll_eq_scan X hc, hf, scan_encodeAll hr ht]
  rfl

theorem placed_eq_zip (offset : Nat) (rs : List WalRecord) :
    placed offset rs =
      ((List.range rs.length).map fun k => offset + (encodeAll (rs.take k)).length).zip rs := by
  induction rs generalizing offset with
  | nil => rfl
  | cons r rs ih =>
    rw [placed, ih, List.length_cons, List.range_succ_eq_map]
    simp [encodeAll, Nat.add_assoc, Function.comp_def]

/-- Made by `WalRecord::new` from a payload that can be encoded. -/
def WalRecord.Made (X : Externals) (r : WalRecord) : Prop :=
  ∃ entryType sequence payload,
    payload.length ≤ maxRecordSize ∧ r = WalRecord.new X entryType sequence payload

theorem WalRecord.Made.sound {r : WalRecord} (h : r.Made X) : r.Sound X := by
  obtain ⟨t, n, payload, hp, rfl⟩ := h
  exact WalRecord.new_sound X t n hp

/-- Sound records are encoded to their bytes. -/
theorem encoded_iff {encoded : List Bytes} (hrs : ∀ r ∈ rs, r.Sound X) :
    List.Forall₂ (fun r b => WalRecord.encode r = .ok b) rs encoded ↔
      encoded = rs.map WalRecord.bytes := by
  constructor
  · intro h
    induction h with
    | nil => rfl
    | @cons r b rs bs hb _ ih =>
      have hr := WalRecord.encode_ok (hrs r List.mem_cons_self).size
      rw [List.map_cons, ih fun r' h => hrs r' (List.mem_cons_of_mem r h),
        Except.ok.inj (hr.symm.trans hb)]
  · rintro rfl
    rw [List.forall₂_map_right_iff, List.forall₂_same]
    exact fun r hr => WalRecord.encode_ok (hrs r hr).size

theorem two_made :
    ∀ r ∈ [WalRecord.new serde .noop 1 [1, 2], WalRecord.new serde .checkpoint 2 [3]],
    r.Made serde := by
  simp only [List.forall_mem_cons]
  exact ⟨⟨_, _, _, by decide, rfl⟩, ⟨_, _, _, by decide, rfl⟩, nofun⟩

/-- Reading a file undoes the encoding of its records, in whatever pieces the file is
read and wherever the encoding of a last record was cut off. Each record is found at
the sum of the encoded sizes of those before it. -/
theorem readAll_undoes_encode (X : Externals) {rs : List WalRecord} {last : WalRecord}
    (hrs : ∀ r ∈ rs, r.Made X) (hlast : last.Made X) :
    ∃ encoded lastEncoded, List.Forall₂ (fun r b => WalRecord.encode r = .ok b) rs encoded ∧
      last.encode = .ok lastEncoded ∧
      ∀ t, t <+: lastEncoded → t ≠ lastEncoded → ∀ chunks : List Bytes, (∀ c ∈ chunks, c ≠ []) →
        chunks.flatten = encoded.flatten ++ t →
        Segment.readAll X chunks = .ok
          (((List.range rs.length).map fun k =>
            ((encoded.take k).map List.length).sum).zip rs) := by
  refine ⟨rs.map WalRecord.bytes, last.bytes, ?_, WalRecord.encode_ok hlast.sound.size, ?_⟩
  · exact (encoded_iff fun r hr => (hrs r hr).sound).mpr rfl
  · intro t hp hne chunks hc hf
    have hsound : ∀ r ∈ rs, r.Sound X := fun r hr => (hrs r hr).sound
    rw [readAll_encodeAll hsound (Torn.settled ⟨last, hlast.sound, hp, hne⟩) hc hf,
      placed_eq_zip]
    simp [encodeAll, List.flatMap_def, List.length_flatten, ← List.map_take]

/-- Two records and the first bytes of a third, read in two pieces. -/
theorem readAll_undoes_encode_torn :
    let one := WalRecord.new serde .noop 1 [1, 2]
    let two := WalRecord.new serde .checkpoint 2 [3]
    Segment.readAll serde [one.bytes.take 25, one.bytes.drop 25 ++ two.bytes ++ one.bytes.take 7] =
      .ok [(0, one), (26, two)] := by
  intro one two
  obtain ⟨encoded, last, hencoded, hlast, hread⟩ :=
    readAll_undoes_encode serde two_made (two_made one (by simp [one]))
  obtain rfl := (encoded_iff fun r hr => (two_made r hr).sound).mp hencoded
  obtain rfl : one.bytes = last := Except.ok.inj hlast
  refine hread (one.bytes.take 7) (List.take_prefix 7 one.bytes) ?_ _ ?_ ?_
  · exact fun h => absurd (congrArg List.length h) (by decide +kernel)
  · decide +kernel
  · decide +kernel

/-! ## Point reads -/

theorem readAtLoop_eq (X : Externals) (hc : ∀ c ∈ chunks, c ≠ [])
    (hb : WalRecord.decode X buf offset = (buf, .ok none)) :
    Segment.readAtLoop X offset chunks buf =
      (WalRecord.decode X (buf ++ chunks.flatten) offset).2 := by
  induction chunks generalizing buf with
  | nil => simp [Segment.readAtLoop, hb]
  | cons c cs ih =>
    have hne : c ≠ [] := hc c List.mem_cons_self
    have hcs : ∀ c ∈ cs, c ≠ [] := fun c' h => hc c' (List.mem_cons_of_mem c h)
    rw [Segment.readAtLoop, if_neg hne, List.flatten_cons, ← List.append_assoc]
    rcases hd : WalRecord.decode X (buf ++ c) offset with ⟨rest, e | _ | r⟩
    · rw [WalRecord.decode_append hd (by simp)]
    · obtain rfl := WalRecord.decode_waits hd
      exact ih hcs hd
    · rw [WalRecord.decode_append hd (by simp)]

/-- The pieces in which a record is read do not matter either. -/
theorem readAt_eq_decode (X : Externals) (hc : ∀ c ∈ chunks, c ≠ []) (offset : Nat) :
    Segment.readAt X chunks offset =
      (WalRecord.decode X chunks.flatten offset).2 := by
  rw [Segment.readAt, readAtLoop_eq X hc rfl, List.nil_append]

theorem drop_of_mem_placed {p : Nat × WalRecord} (h : p ∈ placed offset rs) (t : Bytes) :
    ∃ more, offset ≤ p.1 ∧ (encodeAll rs ++ t).drop (p.1 - offset) = p.2.bytes ++ more := by
  induction rs generalizing offset with
  | nil => cases h
  | cons r rs ih =>
    have hsplit : encodeAll (r :: rs) ++ t = r.bytes ++ (encodeAll rs ++ t) := by
      simp [encodeAll]
    rw [hsplit]
    obtain rfl | h := List.mem_cons.mp h
    · exact ⟨encodeAll rs ++ t, le_rfl, by simp⟩
    · obtain ⟨more, hle, hdrop⟩ := ih h
      refine ⟨more, by omega, ?_⟩
      rw [← hdrop, List.drop_append, List.drop_of_length_le]
      · simp only [WalRecord.length_bytes, List.nil_append]
        congr 1
        omega
      · rw [WalRecord.length_bytes]
        omega

/-- A read at the offset of a record that the scan finds gives that record, and a read
behind the last one gives nothing, in whatever pieces the two read the file. -/
theorem readAt_agrees_with_readAll (X : Externals) {rs : List WalRecord} {last : WalRecord}
    (hrs : ∀ r ∈ rs, r.Made X) (hlast : last.Made X) :
    ∃ encoded lastEncoded, List.Forall₂ (fun r b => WalRecord.encode r = .ok b) rs encoded ∧
      last.encode = .ok lastEncoded ∧
      ∀ t, t <+: lastEncoded → t ≠ lastEncoded → ∀ chunks : List Bytes, (∀ c ∈ chunks, c ≠ []) →
        chunks.flatten = encoded.flatten ++ t →
        ∃ found, Segment.readAll X chunks = .ok found ∧ found.map Prod.snd = rs ∧
          (∀ p ∈ found, ∀ pieces : List Bytes, (∀ c ∈ pieces, c ≠ []) →
            pieces.flatten = chunks.flatten.drop p.1 →
            Segment.readAt X pieces p.1 = .ok (some p.2)) ∧
          ∀ pieces : List Bytes, (∀ c ∈ pieces, c ≠ []) →
            pieces.flatten = chunks.flatten.drop encoded.flatten.length →
            Segment.readAt X pieces encoded.flatten.length = .ok none := by
  refine ⟨rs.map WalRecord.bytes, last.bytes, ?_, WalRecord.encode_ok hlast.sound.size, ?_⟩
  · exact (encoded_iff fun r hr => (hrs r hr).sound).mpr rfl
  · intro t hp hne chunks hc hf
    have hsound : ∀ r ∈ rs, r.Sound X := fun r hr => (hrs r hr).sound
    have htorn : Torn X t := ⟨last, hlast.sound, hp, hne⟩
    change chunks.flatten = encodeAll rs ++ t at hf
    refine ⟨placed 0 rs, readAll_encodeAll hsound htorn.settled hc hf, map_snd_placed 0 rs,
      fun p hmem pieces hpieces hflat => ?_, fun pieces hpieces hflat => ?_⟩
    · obtain ⟨more, -, hdrop⟩ := drop_of_mem_placed hmem t
      have hr : p.2 ∈ rs := by
        rw [← map_snd_placed 0 rs]
        exact List.mem_map_of_mem hmem
      rw [Nat.sub_zero, ← hf] at hdrop
      rw [readAt_eq_decode X hpieces, hflat, hdrop, WalRecord.decode_bytes (hsound _ hr)]
    · change pieces.flatten = chunks.flatten.drop (encodeAll rs).length at hflat
      rw [readAt_eq_decode X hpieces, hflat, hf, List.drop_left,
        WalRecord.decode_strict_prefix hlast.sound hp hne]

/-- The second of two records is read in two pieces, and behind it stand the first bytes of
a third. -/
theorem readAt_agrees_with_readAll_torn :
    let one := WalRecord.new serde .noop 1 [1, 2]
    let two := WalRecord.new serde .checkpoint 2 [3]
    Segment.readAt serde [two.bytes.take 3, two.bytes.drop 3 ++ one.bytes.take 7] 26 =
        .ok (some two) ∧
      Segment.readAt serde [one.bytes.take 7] 51 = .ok none := by
  intro one two
  obtain ⟨encoded, last, hencoded, hlast, hread⟩ :=
    readAt_agrees_with_readAll serde two_made (two_made one (by simp [one]))
  obtain rfl := (encoded_iff fun r hr => (two_made r hr).sound).mp hencoded
  obtain rfl : one.bytes = last := Except.ok.inj hlast
  obtain ⟨found, hfound, -, hpoint, hend⟩ := hread (one.bytes.take 7)
    (List.take_prefix 7 one.bytes) (fun h => absurd (congrArg List.length h) (by decide +kernel))
    [one.bytes, two.bytes, one.bytes.take 7] (by decide +kernel) (by decide +kernel)
  have hscan : Segment.readAll serde [one.bytes, two.bytes, one.bytes.take 7] =
      .ok [(0, one), (26, two)] := by decide +kernel
  obtain rfl : found = [(0, one), (26, two)] := Except.ok.inj (hfound.symm.trans hscan)
  refine ⟨hpoint (26, two) (by simp) _ (by decide +kernel) (by decide +kernel), ?_⟩
  exact hend [one.bytes.take 7] (by decide +kernel) (by decide +kernel)

end Rstmdb

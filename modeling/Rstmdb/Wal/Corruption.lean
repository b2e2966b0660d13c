import Rstmdb.Wal.Crash

/-! A record whose payload was altered. The scan of its segment reports the wrong
checksum as an error and gives up the records it has found, and `Wal::open` passes the
error on: the whole log is lost with the one record. -/
namespace Rstmdb

section
variable {X : Externals}

/-- Other bytes in place of a payload, with another checksum. -/
structure Altered (X : Externals) (payload altered : Bytes) : Prop where
  length : altered.length = payload.length
  crc : X.crc32c altered ≠ X.crc32c payload

/-- The record as it then stands in the file. -/
def WalRecord.altered (r : WalRecord) (payload : Bytes) : WalRecord := { r with payload }

theorem WalRecord.decode_altered {r : WalRecord} (h : r.Sound X) {payload : Bytes}
    (ha : Altered X r.payload payload) (rest : Bytes) (offset : Nat) :
    decode X ((r.altered payload).bytes ++ rest) offset =
      (rest, .error (.corruptedRecord offset r.header.crc32c (X.crc32c payload))) := by
  have hbytes : (r.altered payload).bytes ++ rest = r.header.bytes ++ (payload ++ rest) :=
    List.append_assoc ..
  have hlen : r.header.payloadLen.toNat = payload.length := by rw [h.len, ha.length]
  have hpeek := peekHeader_bytes r.header (by rw [h.len]; exact h.size) offset
  have hhead : (r.header.bytes ++ (payload ++ rest)).take recordHeaderSize = r.header.bytes :=
    List.take_left' r.header.length_bytes
  have hbody : (r.header.bytes ++ (payload ++ rest)).drop recordHeaderSize = payload ++ rest :=
    List.drop_left' r.header.length_bytes
  rw [hbytes, decode_whole (by rw [hhead, hpeek])
    (by rw [List.length_append, List.length_append, r.header.length_bytes]; omega),
    ← List.drop_drop, hbody, hlen, List.drop_left, List.take_left, checked,
    if_pos (by rw [h.crc]; exact ha.crc)]

/-- One altered record fails the scan, whatever stands before and behind it. -/
theorem readAll_altered {pre post : List WalRecord} {r : WalRecord} (hpre : ∀ q ∈ pre, q.Sound X)
    (h : r.Sound X) {payload tail : Bytes} (ha : Altered X r.payload payload)
    {chunks : List Bytes} (hc : ∀ c ∈ chunks, c ≠ [])
    (hf : chunks.flatten = encodeAll (pre ++ r.altered payload :: post) ++ tail) :
    ∃ e, Segment.readAll X chunks = .error e := by
  have hsplit : encodeAll (pre ++ r.altered payload :: post) ++ tail =
      (encodeAll pre ++ []) ++ ((r.altered payload).bytes ++ (encodeAll post ++ tail)) := by
    simp [encodeAll]
  rw [readAll_eq_scan X hc, hf, hsplit, scan_append, scan_encodeAll hpre (settled_nil X)]
  simp only [bind, Except.bind, List.nil_append]
  rw [scan_error (WalRecord.decode_altered h ha _ _)]
  exact ⟨_, rfl⟩

/-! ## One altered record in a log -/

/-- A record of the log, and what its payload is replaced by. -/
structure Hit (X : Externals) (cs : List (Chunk X)) where
  before : List (Chunk X)
  chunk : Chunk X
  after : List (Chunk X)
  here : cs = before ++ chunk :: after
  pre : List (UInt64 × WalEntry)
  record : UInt64 × WalEntry
  post : List (UInt64 × WalEntry)
  split : chunk.records = pre ++ record :: post
  payload : Bytes
  altered : Altered X (X.toVec record.2) payload

namespace Hit
variable {cs : List (Chunk X)}

theorem mem (hit : Hit X cs) : hit.chunk ∈ cs := by
  obtain ⟨before, chunk, after, rfl⟩ := hit
  simp

/-- The file of the segment with the altered record. -/
def bytes (hit : Hit X cs) : Bytes :=
  encodeAll (hit.pre.map (recordOf X) ++ (recordOf X hit.record).altered hit.payload ::
    hit.post.map (recordOf X)) ++ hit.chunk.tail

/-- The directory after the hit, if there is one. -/
def damage (dir : Dir) : Option (Hit X cs) → Dir
  | none => dir
  | some hit =>
    match dir[hit.chunk.id]? with
    | some f => dir.insert hit.chunk.id { f with bytes := hit.bytes }
    | none => dir

/-- The entries of all the other records. -/
def spared : Option (Hit X cs) → List ReadEntry
  | none => entries cs
  | some hit =>
    entries hit.before ++ hit.chunk.entries.eraseIdx hit.pre.length ++ entries hit.after

end Hit

namespace Wal

/-- A segment that cannot be read fails the opening of the log. -/
theorem openSegments_error {ids : List SegmentId} {id : SegmentId} (hid : id ∈ ids) {w : Wal}
    (h : ∃ e, readSegment X w id = .error e) (m : UInt64) :
    ∃ e, openSegments X ids w m = .error e := by
  induction ids generalizing w m with
  | nil => simp at hid
  | cons k ids ih =>
    rw [openSegments]
    cases Segment.openFile w.dir k w.config.segmentSize with
    | error e => exact ⟨e, rfl⟩
    | ok segment =>
      cases hk : readSegment X w k with
      | error e => exact ⟨e, rfl⟩
      | ok records =>
        obtain rfl | hid := List.mem_cons.mp hid
        · obtain ⟨e, he⟩ := h
          cases he.symm.trans hk
        · exact ih hid (w := { w with segments := w.segments.insert k segment }) h _

theorem openDir_error {dir : Dir} {id : SegmentId} {f : SegFile} (hf : dir[id]? = some f)
    (he : ∃ e, Segment.readAll X (X.reads f.bytes) = .error e) (config : WalConfig) :
    ∃ e, openDir X config dir = .error e := by
  have hid : id ∈ dir.keys := by
    rw [Std.ExtTreeMap.mem_keys, Std.ExtTreeMap.mem_iff_isSome_getElem?, hf]
    rfl
  unfold openDir recover
  cases hl : dir.keys.getLast? with
  | none => simp [List.getLast?_eq_none_iff.mp hl] at hid
  | some latestId =>
    have hopen : ∀ w : Wal, w.dir = dir → ∃ e, openSegments X dir.keys w 0 = .error e := by
      rintro w rfl
      exact openSegments_error hid (by simpa only [readSegment, hf] using he) 0
    simp only
    obtain ⟨e, he⟩ := hopen ⟨config, dir, none, ∅, 1, 0, false, {}⟩ rfl
    rw [he]
    exact ⟨e, rfl⟩

/-- A log of whole records, which torn bytes may follow in each segment, opens and reads
back all but the altered record exactly when no record is altered. -/
theorem read_spared_iff (X : Externals) {dir : Dir} {cs : List (Chunk X)} (h : Holds dir cs)
    (config : WalConfig) (hit : Option (Hit X cs)) :
    (∃ w w', openDir X config (Hit.damage dir hit) = .ok w ∧
      w.readFrom X ⟨0⟩ none = some (w', .ok (Hit.spared hit))) ↔ hit = none := by
  constructor
  · rintro ⟨w, w', hopen, -⟩
    cases hit with
    | none => rfl
    | some hit =>
      obtain ⟨f, hf, -⟩ := h.file hit.mem
      have hfits : ∀ p ∈ hit.pre ++ hit.record :: hit.post, (recordOf X p).Sound X :=
        fun p hp => recordOf_sound (hit.chunk.fits p (hit.split ▸ hp))
      have hread : ∃ e, Segment.readAll X (X.reads hit.bytes) = .error e := by
        refine @readAll_altered _ (hit.pre.map (recordOf X)) _ _ ?_
          (hfits hit.record (by simp)) _ _ hit.altered _ (X.reads_ne_nil _) (X.reads_flatten _)
        intro q hq
        obtain ⟨p, hp, rfl⟩ := List.mem_map.mp hq
        exact hfits p (List.mem_append_left _ hp)
      have hfile : (Hit.damage dir (some hit))[hit.chunk.id]? =
          some { f with bytes := hit.bytes } := by
        rw [Hit.damage, hf]
        simp
      obtain ⟨e, he⟩ := openDir_error hfile hread config
      cases he.symm.trans hopen
  · rintro rfl
    obtain ⟨w, pre, c, hopen, hr, he⟩ := openDir_entries h config
    obtain ⟨stats, hread⟩ := hr.readFrom
    exact ⟨w, _, hopen, by rw [hread, he]; rfl⟩

/-- The directory of a log that was opened, written twice and left. -/
theorem read_spared_whole :
    ∃ m, run (Machine.step serde) ⟨.down ∅, []⟩
        [.reopen ⟨1000, .everyWrite⟩, .append (.checkpoint 1), .append (.checkpoint 2)] = some m ∧
      ∃ w w', openDir serde ⟨1000, .everyWrite⟩ m.process.files = .ok w ∧
        w.readFrom serde ⟨0⟩ none = some (w', .ok m.acked) := by
  refine run_exists (p := fun _ => True) (by decide +kernel) fun m hrun _ => ?_
  have none : Holds (X := serde) ∅ [] := by simp [Holds]
  obtain ⟨cs, hfiles, hacked, -⟩ := run_keeps_of_meets (P := Machine.Sound serde)
    (fun s op t => Machine.sound_step) (Machine.sound_down none rfl) (by decide +kernel) hrun
  rw [hacked]
  exact (read_spared_iff serde hfiles ⟨1000, .everyWrite⟩ Option.none).mpr rfl

/-- A file with another last byte. -/
def alterLast (f : SegFile) : SegFile := { f with bytes := f.bytes.dropLast ++ [0] }

/-- With the last byte of its second record altered, the log does not open. -/
theorem altered_record_not_opened :
    ∃ m, run (Machine.step serde) ⟨.down ∅, []⟩
        [.reopen ⟨1000, .everyWrite⟩, .append (.checkpoint 1), .append (.checkpoint 2)] = some m ∧
      m.acked.length = 2 ∧
      ∃ f, m.process.files[1]? = some f ∧
        ∀ w,
          openDir serde ⟨1000, .everyWrite⟩ (m.process.files.insert 1 (alterLast f)) ≠ .ok w := by
  refine run_exists (p := fun m => m.acked.length = 2 ∧
    (m.process.files[1]?.map fun f => (openDir serde ⟨1000, .everyWrite⟩
      (m.process.files.insert 1 (alterLast f))).toOption.isNone) = some true) (by decide +kernel) ?_
  rintro m - ⟨hlen, hopen⟩
  obtain ⟨f, hf, hnone⟩ := Option.map_eq_some_iff.mp hopen
  refine ⟨hlen, f, hf, fun w hw => ?_⟩
  rw [hw] at hnone
  cases hnone

end Wal

end

end Rstmdb

import Rstmdb.Wal.Log

/-! What the log holds, segment by segment. The directory and the open log are
related to a list of chunks; every operation of the log is an operation on that
list, and a read from the start returns its entries in order. -/
namespace Rstmdb

/-- The record an entry is written as. -/
def recordOf (X : Externals) (p : UInt64 × WalEntry) : WalRecord :=
  WalRecord.new X p.2.entryType p.1 (X.toVec p.2)

variable {X : Externals}

theorem recordOf_sound {p : UInt64 × WalEntry} (h : (X.toVec p.2).length ≤ maxRecordSize) :
    (recordOf X p).Sound X :=
  WalRecord.new_sound X _ _ h

/-- The contents of one segment file: the entries its records carry, and bytes
after them that no scan takes for a record. -/
structure Chunk (X : Externals) where
  id : SegmentId
  records : List (UInt64 × WalEntry)
  tail : Bytes
  fits : ∀ p ∈ records, (X.toVec p.2).length ≤ maxRecordSize
  settled : Settled X tail
  small : ∀ p ∈ placed 0 (records.map (recordOf X)), p.1 ≤ WalOffset.offsetMask

/-- Entries at consecutive offsets of one segment, as a read returns them. -/
def place (X : Externals) (id : SegmentId) : Nat → List (UInt64 × WalEntry) → List ReadEntry
  | _, [] => []
  | offset, p :: ps =>
    (p.1, WalOffset.pack id offset, p.2) :: place X id (offset + (recordOf X p).diskSize) ps

theorem place_append (X : Externals) (id : SegmentId) (offset : Nat)
    (ps qs : List (UInt64 × WalEntry)) :
    place X id offset (ps ++ qs) =
      place X id offset ps ++
        place X id (offset + (encodeAll (ps.map (recordOf X))).length) qs := by
  induction ps generalizing offset with
  | nil => simp [place]
  | cons p ps ih =>
    simp only [List.cons_append, place, ih, encodeAll, List.map_cons, List.flatMap_cons,
      List.length_append, WalRecord.length_bytes, Nat.add_assoc]

variable {offset : Nat} {ps : List (UInt64 × WalEntry)} {p : ReadEntry} {cs : List (Chunk X)}

/-- Where the placed entries stand. -/
theorem mem_place {id : SegmentId}
    (low : ∀ q ∈ placed offset (ps.map (recordOf X)), q.1 ≤ WalOffset.offsetMask)
    (hp : p ∈ place X id offset ps) :
    ∃ o, offset ≤ o ∧ o < offset + (encodeAll (ps.map (recordOf X))).length ∧
      o ≤ WalOffset.offsetMask ∧ p.2.1 = WalOffset.pack id o := by
  induction ps generalizing offset with
  | nil => simp [place] at hp
  | cons q qs ih =>
    simp only [List.map_cons, placed, List.mem_cons, forall_eq_or_imp] at low
    have hlength : (encodeAll ((q :: qs).map (recordOf X))).length =
        (recordOf X q).diskSize + (encodeAll (qs.map (recordOf X))).length := by
      simp [encodeAll, WalRecord.length_bytes]
    have hpos : 0 < (recordOf X q).diskSize := by
      simp only [WalRecord.diskSize, recordHeaderSize]
      omega
    rcases List.mem_cons.mp hp with rfl | hp
    · exact ⟨offset, le_refl _, by omega, low.1, rfl⟩
    · obtain ⟨o, ho, hend, hm, he⟩ := ih low.2 hp
      exact ⟨o, by omega, by omega, hm, he⟩

theorem place_increasing (id : SegmentId)
    (low : ∀ q ∈ placed offset (ps.map (recordOf X)), q.1 ≤ WalOffset.offsetMask) :
    (place X id offset ps).Pairwise fun p q => p.2.1.asU64 < q.2.1.asU64 := by
  induction ps generalizing offset with
  | nil => exact .nil
  | cons q qs ih =>
    simp only [List.map_cons, placed, List.mem_cons, forall_eq_or_imp] at low
    refine List.pairwise_cons.mpr ⟨?_, ih low.2⟩
    intro p hp
    obtain ⟨o, ho, -, hm, he⟩ := mem_place low.2 hp
    simp only [WalRecord.diskSize, recordHeaderSize] at ho
    rw [he, WalOffset.pack_asU64 id hm, WalOffset.pack_asU64 id low.1]
    omega

namespace Chunk
variable {X : Externals}

def body (c : Chunk X) : Bytes := encodeAll (c.records.map (recordOf X))

def bytes (c : Chunk X) : Bytes := c.body ++ c.tail

def entries (c : Chunk X) : List ReadEntry := place X c.id 0 c.records

variable {c : Chunk X} {p : ReadEntry}

theorem mem_entries (hp : p ∈ c.entries) :
    ∃ o, o ≤ WalOffset.offsetMask ∧ p.2.1 = WalOffset.pack c.id o := by
  obtain ⟨o, -, -, hm, he⟩ := mem_place c.small hp
  exact ⟨o, hm, he⟩

theorem mem_entries_lt (hp : p ∈ c.entries) :
    ∃ o, o < c.body.length ∧ o ≤ WalOffset.offsetMask ∧ p.2.1 = WalOffset.pack c.id o := by
  obtain ⟨o, -, hend, hm, he⟩ := mem_place c.small hp
  exact ⟨o, by simpa [body] using hend, hm, he⟩

theorem segmentId_of_mem (hid : c.id < 2 ^ 24) (hp : p ∈ c.entries) : p.2.1.segmentId = c.id := by
  obtain ⟨o, hm, he⟩ := mem_entries hp
  rw [he, WalOffset.pack_segmentId c.id hm, Nat.mod_eq_of_lt hid]

/-- A segment just created. -/
def empty (X : Externals) (id : SegmentId) : Chunk X where
  id
  records := []
  tail := []
  fits := by simp
  settled := settled_nil X
  small := by simp [placed]

@[simp] theorem empty_id (id : SegmentId) : (empty X id).id = id := rfl

@[simp] theorem empty_tail (id : SegmentId) : (empty X id).tail = [] := rfl

@[simp] theorem empty_bytes (id : SegmentId) : (empty X id).bytes = [] := rfl

@[simp] theorem empty_entries (id : SegmentId) : (empty X id).entries = [] := rfl

/-- One more record, in a segment that ends with a whole one. -/
def push (c : Chunk X) (p : UInt64 × WalEntry) (fit : (X.toVec p.2).length ≤ maxRecordSize)
    (low : c.body.length ≤ WalOffset.offsetMask) : Chunk X where
  id := c.id
  records := c.records ++ [p]
  tail := []
  fits := by
    intro q hq
    rcases List.mem_append.mp hq with hq | hq
    · exact c.fits q hq
    · rw [List.mem_singleton.mp hq]
      exact fit
  settled := settled_nil X
  small := by
    rw [List.map_append, placed_append]
    intro q hq
    rcases List.mem_append.mp hq with hq | hq
    · exact c.small q hq
    · simp only [List.map_cons, List.map_nil, placed, Nat.zero_add, List.mem_singleton] at hq
      rw [hq]
      exact low

section
variable {c : Chunk X} {p : UInt64 × WalEntry} {fit : (X.toVec p.2).length ≤ maxRecordSize}
  {low : c.body.length ≤ WalOffset.offsetMask}

@[simp] theorem push_id : (c.push p fit low).id = c.id := rfl

@[simp] theorem push_tail : (c.push p fit low).tail = [] := rfl

theorem push_bytes : (c.push p fit low).bytes = c.body ++ (recordOf X p).bytes := by
  simp [bytes, body, push, encodeAll_append, encodeAll_singleton]

theorem push_entries :
    (c.push p fit low).entries = c.entries ++ [(p.1, WalOffset.pack c.id c.body.length, p.2)] := by
  simp [entries, push, place_append, place, body]

end

theorem bytes_eq_body (h : c.tail = []) : c.bytes = c.body := by
  simp [bytes, h]

/-- Reading the file back gives the records. -/
theorem readAll (c : Chunk X) {chunks : List Bytes} (hc : ∀ b ∈ chunks, b ≠ [])
    (hf : chunks.flatten = c.bytes) :
    Segment.readAll X chunks = .ok (placed 0 (c.records.map (recordOf X))) := by
  refine readAll_encodeAll ?_ c.settled hc hf
  intro r hr
  obtain ⟨p, hp, rfl⟩ := List.mem_map.mp hr
  exact recordOf_sound (c.fits p hp)

end Chunk

/-- All entries, in the order of the segments. -/
def entries {X : Externals} (cs : List (Chunk X)) : List ReadEntry := cs.flatMap Chunk.entries

theorem entries_append (cs ds : List (Chunk X)) :
    entries (cs ++ ds) = entries cs ++ entries ds := by
  simp [entries]

theorem entries_singleton (c : Chunk X) : entries [c] = c.entries := by
  simp [entries]

theorem mem_entries :
    p ∈ entries cs ↔ ∃ c ∈ cs, p ∈ c.entries :=
  List.mem_flatMap

/-- Offsets grow along the entries, as long as the ids fit in a packed offset. -/
theorem entries_increasing (asc : cs.Pairwise fun c d => c.id < d.id)
    (hid : ∀ c ∈ cs, c.id < 2 ^ 24) :
    (entries cs).Pairwise fun p q => p.2.1.asU64 < q.2.1.asU64 := by
  induction cs with
  | nil => exact .nil
  | cons c cs ih =>
    obtain ⟨hlt, asc⟩ := List.pairwise_cons.mp asc
    rw [entries, List.flatMap_cons, List.pairwise_append]
    refine ⟨place_increasing c.id c.small, ih asc fun d hd => hid d (by simp [hd]), ?_⟩
    intro p hp q hq
    obtain ⟨d, hd, hq⟩ := mem_entries.mp hq
    obtain ⟨o, hm, he⟩ := Chunk.mem_entries hp
    obtain ⟨o', hm', he'⟩ := Chunk.mem_entries hq
    rw [he, he']
    exact WalOffset.pack_lt_of_lt (hlt d hd) (hid d (by simp [hd])) hm hm'

/-! ## The directory -/

/-- The files of the directory are the chunks, in order. -/
def Holds {X : Externals} (dir : Dir) (cs : List (Chunk X)) : Prop :=
  dir.toList.map (fun f => (f.1, f.2.bytes)) = cs.map fun c => (c.id, c.bytes)

namespace Holds
variable {X : Externals} {dir : Dir} {cs pre : List (Chunk X)} {c : Chunk X}

theorem keys (h : Holds dir cs) : dir.keys = cs.map Chunk.id := by
  have := congrArg (List.map Prod.fst) h
  simpa [Std.ExtTreeMap.map_fst_toList_eq_keys, Function.comp_def] using this

theorem file (h : Holds dir cs) (hc : c ∈ cs) : ∃ f, dir[c.id]? = some f ∧ f.bytes = c.bytes := by
  have hm : (c.id, c.bytes) ∈ cs.map fun c => (c.id, c.bytes) := List.mem_map.mpr ⟨c, hc, rfl⟩
  rw [← h] at hm
  obtain ⟨⟨id, f⟩, hf, he⟩ := List.mem_map.mp hm
  simp only [Prod.mk.injEq] at he
  obtain ⟨rfl, hb⟩ := he
  exact ⟨f, Table.mem_toList.mp hf, hb⟩

/-- The last chunk is the last file, behind the files of the other chunks. -/
theorem last (h : Holds dir (pre ++ [c])) :
    ∃ l f, dir.toList = l ++ [(c.id, f)] ∧ f.bytes = c.bytes ∧ dir[c.id]? = some f ∧
      l.map (fun f => (f.1, f.2.bytes)) = pre.map fun c => (c.id, c.bytes) := by
  rw [Holds, List.map_append, List.map_eq_append_iff] at h
  obtain ⟨l, m, hlm, hl, hm⟩ := h
  rw [List.map_singleton, List.map_eq_singleton_iff] at hm
  obtain ⟨⟨id, f⟩, rfl, he⟩ := hm
  simp only [Prod.mk.injEq] at he
  obtain ⟨rfl, hb⟩ := he
  refine ⟨l, f, hlm, hb, ?_, hl⟩
  exact Table.mem_toList.mp (by simp [hlm])

theorem insert_last (h : Holds dir (pre ++ [c])) {c' : Chunk X} (hid : c'.id = c.id)
    {f : SegFile} (hf : f.bytes = c'.bytes) : Holds (dir.insert c.id f) (pre ++ [c']) := by
  obtain ⟨l, g, hl, -, -, hpre⟩ := h.last
  rw [Holds, Table.toList_insert_at_last hl, List.map_append, List.map_append, hpre]
  simp [hid, hf]

theorem ascending (h : Holds dir cs) : cs.Pairwise fun c d => c.id < d.id := by
  have ha := Table.ascending_toList dir
  have hk : (dir.toList.map Prod.fst).Pairwise (· < ·) := by
    rw [List.pairwise_map]
    exact ha.imp fun hab => Nat.compare_eq_lt.mp hab
  rw [Std.ExtTreeMap.map_fst_toList_eq_keys, h.keys, List.pairwise_map] at hk
  exact hk

theorem le_last (h : Holds dir (pre ++ [c])) {d : Chunk X} (hd : d ∈ pre ++ [c]) : d.id ≤ c.id := by
  obtain ⟨-, -, hlt⟩ := List.pairwise_append.mp h.ascending
  rcases List.mem_append.mp hd with hd | hd
  · exact (hlt d hd c (by simp)).le
  · rw [List.mem_singleton.mp hd]

theorem insert_past (h : Holds dir cs) {id : SegmentId} (hp : ∀ d ∈ cs, d.id < id) :
    Holds (dir.insert id ⟨[], 0⟩) (cs ++ [Chunk.empty X id]) := by
  have hlt : ∀ p ∈ dir.toList, compare p.1 id = .lt := by
    intro p hm
    have hk : p.1 ∈ cs.map Chunk.id := by
      rw [← h.keys, ← Std.ExtTreeMap.map_fst_toList_eq_keys]
      exact List.mem_map_of_mem hm
    obtain ⟨d, hd, he⟩ := List.mem_map.mp hk
    rw [← he]
    exact Nat.compare_eq_lt.mpr (hp d hd)
  rw [Holds, Table.toList_insert_past hlt, List.map_append, List.map_append, h]
  rfl

/-- Every list of chunks with ascending ids is what some directory holds. -/
theorem exists_dir {cs : List (Chunk X)} (asc : cs.Pairwise fun c d => c.id < d.id) :
    ∃ dir, Holds dir cs := by
  induction cs using List.reverseRecOn with
  | nil => exact ⟨∅, by simp [Holds, ← List.isEmpty_iff]⟩
  | append_singleton cs c ih =>
    obtain ⟨hcs, -, hlt⟩ := List.pairwise_append.mp asc
    obtain ⟨dir, hdir⟩ := ih hcs
    have hpast := hdir.insert_past fun d hd => hlt d hd c (by simp)
    have hsame : c.id = (Chunk.empty X c.id).id := rfl
    exact ⟨_, hpast.insert_last hsame (f := ⟨c.bytes, 0⟩) rfl⟩

theorem not_contains (h : Holds dir cs) {id : SegmentId} (hp : ∀ d ∈ cs, d.id < id) :
    dir.contains id = false := by
  have hn : id ∉ dir.keys := by
    rw [h.keys]
    intro hm
    obtain ⟨d, hd, he⟩ := List.mem_map.mp hm
    exact (hp d hd).ne he
  rw [Std.ExtTreeMap.mem_keys, ← Std.ExtTreeMap.contains_iff_mem] at hn
  exact Bool.eq_false_iff.mpr hn

end Holds

/-! ## The open log -/

/-- The open log over its chunks: a handle on every file, and the writing handle
at the end of the last one. -/
structure Wal.Repr {X : Externals} (w : Wal) (pre : List (Chunk X)) (c : Chunk X) : Prop where
  holds : Holds w.dir (pre ++ [c])
  keys : w.segments.keys = (pre ++ [c]).map Chunk.id
  current : ∃ seg, w.current = some seg ∧ seg.id = c.id ∧ seg.size = c.bytes.length

namespace Wal

variable {X : Externals} {w w' : Wal} {pre : List (Chunk X)} {c : Chunk X}

variable {seg : Segment} {ds : List (Chunk X)} {limit : Option Nat}
  {records : List (Nat × WalRecord)} {bytes : Nat} {dir : Dir}

/-- `sync_data` changes no byte. -/
theorem Repr.syncSegment (h : w.Repr pre c) (hs : w.current = some seg) :
    (w.syncSegment seg).Repr pre c := by
  obtain ⟨seg', hs', hid, hsize⟩ := h.current
  obtain rfl : seg' = seg := by simpa [hs'] using hs
  refine ⟨?_, h.keys, ⟨(seg'.sync w.dir).1, rfl, by simp [hid], by simp [hsize]⟩⟩
  obtain ⟨-, f, -, hb, hf, -⟩ := h.holds.last
  simp only [Wal.syncSegment, Segment.sync, hid, hf]
  split
  · exact h.holds.insert_last rfl hb
  · exact h.holds

theorem Repr.applyPolicy (h : w.Repr pre c) (hs : w.current = some seg) :
    (w.applyPolicy seg).Repr pre c := by
  unfold Wal.applyPolicy
  split
  · exact h.syncSegment hs
  · split
    · exact h.syncSegment hs
    · exact h
  · exact h
  · exact h

theorem Repr.sync (h : w.Repr pre c) : w.sync.Repr pre c := by
  obtain ⟨seg, hs, -, -⟩ := h.current
  rw [Wal.sync, hs]
  exact h.syncSegment hs

theorem Repr.close (h : w.Repr pre c) : w.close.Repr pre c :=
  Repr.sync ⟨h.holds, h.keys, h.current⟩

theorem Repr.rotateSegment (h : w.Repr pre c) :
    w.dir.contains w.nextId = false ∧ w.rotateSegment = (w.rotated, .ok ()) ∧
      w.rotated.Repr (pre ++ [c]) (Chunk.empty X (c.id + 1)) := by
  have hnext : w.nextId = c.id + 1 := by simp [nextId, h.keys]
  have hpast : ∀ d ∈ pre ++ [c], d.id < w.nextId := by
    intro d hd
    rw [hnext]
    exact Nat.lt_succ_of_le (h.holds.le_last hd)
  have hfree := h.holds.not_contains hpast
  have hkeys : ∀ k ∈ w.segments.keys, compare k w.nextId = .lt := by
    intro k hk
    rw [h.keys] at hk
    obtain ⟨d, hd, rfl⟩ := List.mem_map.mp hk
    exact Nat.compare_eq_lt.mpr (hpast d hd)
  refine ⟨hfree, ?_, ?_⟩
  · rcases rotateSegment_cases w with ⟨hc, -⟩ | ⟨-, hr⟩
    · simp [hfree] at hc
    · exact hr
  · rw [← hnext]
    refine ⟨h.holds.insert_past hpast, ?_, ⟨_, rfl, rfl, rfl⟩⟩
    rw [rotated, Table.keys_insert_past hkeys, h.keys]
    simp

/-! ### Appends -/

/-- The log after an append: one entry longer, or as it was when the append failed. -/
def Appended (e : WalEntry) (before after : List ReadEntry) :
    Except WalError (UInt64 × WalOffset) → Prop
  | .error _ => after = before
  | .ok (seq, off) => after = before ++ [(seq, off, e)]

variable {r : Except WalError (UInt64 × WalOffset)} {e : WalEntry} {id : SegmentId}
  {cs : List (Chunk X)} {remaining : Option Nat} {start : WalOffset} {es : List ReadEntry}

/-- Writing at the end of the last chunk, when no torn bytes are there. -/
theorem Repr.appendLocked (h : w.Repr pre c) (ht : c.tail = []) {p : UInt64 × WalEntry}
    (ha : w.appendLocked (recordOf X p) = some (w', r)) :
    (∃ err, r = .error err ∧ w' = w) ∨
      (∃ fit low, r = .ok (p.1, WalOffset.pack c.id c.body.length) ∧
        w'.Repr pre (c.push p fit low) ∧ w'.nextSequence = w.nextSequence ∧
        w'.closed = w.closed ∧ w'.config = w.config) := by
  obtain ⟨seg, hs, hid, hsize⟩ := h.current
  rw [Chunk.bytes_eq_body ht] at hsize
  rcases appendLocked_cases hs ha with ⟨-, rfl, rfl⟩ | ⟨hpayload, low, rfl, rfl⟩
  · exact .inl ⟨_, rfl, rfl⟩
  · right
    have hfit : (X.toVec p.2).length ≤ maxRecordSize := hpayload
    rw [hsize] at low
    have hfile : Holds (Segment.writeEnd w.dir seg.id (recordOf X p).bytes)
        (pre ++ [c.push p hfit low]) := by
      obtain ⟨-, f, -, hb, hf, -⟩ := h.holds.last
      simp only [hid, Segment.writeEnd, hf]
      refine h.holds.insert_last Chunk.push_id ?_
      rw [Chunk.push_bytes, hb, Chunk.bytes_eq_body ht]
    refine ⟨hfit, low, by rw [hid, hsize]; rfl, ?_, by simp [written, noteWrite],
      by simp [written, noteWrite], by simp [written, noteWrite]⟩
    apply Repr.applyPolicy _ rfl
    exact ⟨hfile, by simp [written, noteWrite, h.keys], _, rfl, hid,
      by simp [grownSegment, hsize, Chunk.push_bytes]⟩

/-- What an append did: the chunks before the last are chunks that were there,
and the last is the old one grown, or one behind it. -/
structure Grown (e : WalEntry) (r : Except WalError (UInt64 × WalOffset)) (w w' : Wal)
    (pre : List (Chunk X)) (c : Chunk X) (pre' : List (Chunk X)) (c' : Chunk X) : Prop where
  repr : w'.Repr pre' c'
  entries : Appended e (entries (pre ++ [c])) (entries (pre' ++ [c'])) r
  before : ∀ d ∈ pre', d ∈ pre ++ [c]
  ahead : c.id ≤ c'.id
  whole : c'.tail = [] ∨ c' = c
  next : w'.nextSequence = if w.closed then w.nextSequence else w.nextSequence + 1
  drawn : ∀ seq off, r = .ok (seq, off) → seq = w.nextSequence ∧ w.closed = false

/-- An append writes its record at the end of the last chunk, or in a new one behind it. -/
theorem Repr.append (h : w.Repr pre c)
    (ready : c.tail = [] ∨ w.needsRotation (recordOf X (w.nextSequence, e)).diskSize = true)
    (ha : w.append X e = some (w', r)) : ∃ pre' c', Grown e r w w' pre c pre' c' := by
  have hpre : ∀ d ∈ pre, d ∈ pre ++ [c] := fun _ hd => List.mem_append_left _ hd
  have hv : w.drawSequence.2.Repr pre c := ⟨h.holds, h.keys, h.current⟩
  have hdrawn {off : WalOffset} (hopen : w.closed = false) :
      ∀ seq off', (Except.ok (w.nextSequence, off) : Except WalError (UInt64 × WalOffset)) =
        .ok (seq, off') → seq = w.nextSequence ∧ w.closed = false := by
    rintro _ _ ⟨⟩
    exact ⟨rfl, hopen⟩
  rcases append_cases ha with ⟨hc, rfl, rfl⟩ | ⟨-, -, hid, -⟩ | ⟨hc, -, -, ha⟩ | ⟨hc, hfit, ha⟩
  · exact ⟨pre, c, h, rfl, hpre, le_refl _, .inr rfl, by simp [hc], by simp⟩
  · exact absurd hid (by simp [h.rotateSegment.1])
  · obtain ⟨-, -, hr⟩ := hv.rotateSegment
    rcases hr.appendLocked (p := (w.nextSequence, e)) rfl ha with
      ⟨err, rfl, rfl⟩ | ⟨fit, low, rfl, hp, hn, -⟩
    · exact ⟨pre ++ [c], _, hr, by simp [Appended, Rstmdb.entries], fun _ hd => hd,
        Nat.le_succ _, .inl rfl, by rw [hc]; rfl, by simp⟩
    · refine ⟨pre ++ [c], _, hp, ?_, fun _ hd => hd, Nat.le_succ _, .inl rfl,
        by rw [hn, hc]; rfl, hdrawn hc⟩
      rw [Appended, entries_append, entries_singleton, Chunk.push_entries]
      rfl
  · have ht : c.tail = [] := ready.resolve_right (Bool.eq_false_iff.mp hfit)
    rcases hv.appendLocked (p := (w.nextSequence, e)) ht ha with
      ⟨err, rfl, rfl⟩ | ⟨fit, low, rfl, hp, hn, -⟩
    · exact ⟨pre, c, hv, rfl, hpre, le_refl _, .inr rfl, by rw [hc]; rfl, by simp⟩
    · refine ⟨pre, _, hp, ?_, hpre, le_refl _, .inl rfl, by rw [hn, hc]; rfl, hdrawn hc⟩
      rw [Appended, entries_append, entries_append, entries_singleton, entries_singleton,
        Chunk.push_entries, List.append_assoc]

theorem Grown.clean {pre' : List (Chunk X)} {c' : Chunk X} (h : Grown e r w w' pre c pre' c')
    (hc : c.tail = []) : c'.tail = [] := by
  obtain hw | rfl := h.whole
  · exact hw
  · exact hc

/-- An append to a clean log leaves a clean log, with the entry at its end if it
succeeds. -/
theorem Repr.append_clean (h : w.Repr pre c) (hc : c.tail = []) (ha : w.append X e = some (w', r)) :
    ∃ (pre' : List (Chunk X)) (c' : Chunk X), w'.Repr pre' c' ∧ c'.tail = [] ∧
      Appended e (entries (pre ++ [c])) (entries (pre' ++ [c'])) r := by
  obtain ⟨pre', c', hg⟩ := h.append (.inl hc) ha
  exact ⟨pre', c', hg.repr, hg.clean hc, hg.entries⟩

theorem appendLocked_segments {record : WalRecord} (h : w.appendLocked record = some (w', r)) :
    w'.segments = w.segments := by
  unfold appendLocked at h
  split at h
  · cases h
  split at h
  · cases h
    rfl
  dsimp only at h
  split at h
  · cases h
  cases h
  unfold applyPolicy noteWrite
  repeat' split
  all_goals rfl

theorem append_keys (h : w.append X e = some (w', r)) (hid : id ∈ w'.segments.keys) :
    id ∈ w.segments.keys ∨ id = w.nextId := by
  obtain ⟨-, rfl, -⟩ | ⟨-, -, -, rfl, -⟩ | ⟨-, -, -, ha⟩ | ⟨-, -, ha⟩ := append_cases h
  · exact .inl hid
  · exact .inl hid
  · rw [appendLocked_segments ha] at hid
    simp only [rotated, drawSequence, Std.ExtTreeMap.mem_keys, Std.ExtTreeMap.mem_insert,
      Std.compare_eq_iff_eq] at hid ⊢
    exact hid.symm.imp_right Eq.symm
  · rw [appendLocked_segments ha] at hid
    exact .inl hid

/-- As long as the next segment id fits in a packed offset, all do after an append. -/
theorem Repr.append_low {pre' : List (Chunk X)} {c' : Chunk X} (h : w.Repr pre c)
    (low : w.nextId < 2 ^ 24) (ha : w.append X e = some (w', r)) (h' : w'.Repr pre' c') :
    ∀ d ∈ pre' ++ [c'], d.id < 2 ^ 24 := by
  intro d hd
  have hkey : d.id ∈ w'.segments.keys := by
    rw [h'.keys]
    exact List.mem_map_of_mem hd
  have hnext : w.nextId = c.id + 1 := by simp [nextId, h.keys]
  obtain hold | hnew := append_keys ha hkey
  · rw [h.keys] at hold
    obtain ⟨d', hd', hid⟩ := List.mem_map.mp hold
    have hle : d'.id ≤ c.id := h.holds.le_last hd'
    rw [hnext] at low
    rw [← hid]
    exact lt_of_le_of_lt hle (Nat.lt_of_succ_lt low)
  · rw [hnew]
    exact low

theorem Repr.entries_lt_head (h : w.Repr pre c) (low : w.nextId < 2 ^ 24)
    {latest : Option WalOffset} (hl : w.latestOffset = some latest) {q : ReadEntry}
    (hq : q ∈ entries (pre ++ [c])) : q.2.1.asU64 < (latest.map WalOffset.asU64).getD 0 := by
  have hid : c.id < 2 ^ 24 := by
    have hnext : w.nextId = c.id + 1 := by simp [nextId, h.keys]
    rw [hnext] at low
    exact Nat.lt_of_succ_lt low
  obtain ⟨seg, hcur, hseg, hsize⟩ := h.current
  simp only [latestOffset, hcur, WalOffset.new, hseg, hsize] at hl
  split at hl
  · rename_i hfit
    cases hl
    show _ < (WalOffset.pack c.id c.bytes.length).asU64
    obtain ⟨d, hd, hq⟩ := mem_entries.mp hq
    obtain ⟨o, ho, hmask, hoff⟩ := Chunk.mem_entries_lt hq
    rw [hoff]
    obtain hd | hd := List.mem_append.mp hd
    · obtain ⟨-, -, hlt⟩ := List.pairwise_append.mp h.holds.ascending
      exact WalOffset.pack_lt_of_lt (hlt d hd c (by simp)) hid hmask hfit
    · obtain rfl := List.mem_singleton.mp hd
      rw [WalOffset.pack_asU64 d.id hmask, WalOffset.pack_asU64 d.id hfit, Chunk.bytes,
        List.length_append]
      omega
  · cases hl

/-! ### Reads -/

theorem readSegment_eq (h : Holds w.dir cs) (hc : c ∈ cs) :
    readSegment X w c.id = .ok (placed 0 (c.records.map (recordOf X))) := by
  obtain ⟨f, hf, hb⟩ := h.file hc
  rw [readSegment, hf]
  exact c.readAll (X.reads_ne_nil _) ((X.reads_flatten _).trans hb)

/-- As much of a list as a limit allows, if there is one. -/
def limited {α : Type} : Option Nat → List α → List α
  | none, l => l
  | some n, l => l.take n

theorem limited_append {α : Type} (limit : Option Nat) (l m : List α) :
    limited limit (l ++ m) = limited limit l ++ limited (limit.map (· - l.length)) m := by
  cases limit with
  | none => rfl
  | some n => exact List.take_append

/-- The loop over one segment takes the entries that do not lie before the start. -/
theorem takeRecords_eq (id : SegmentId) (start : WalOffset) {offset : Nat}
    {ps : List (UInt64 × WalEntry)}
    (low : ∀ q ∈ placed offset (ps.map (recordOf X)), q.1 ≤ WalOffset.offsetMask)
    (hr : remaining ≠ some 0) :
    let found := (place X id offset ps).filter (start.asU64 ≤ ·.2.1.asU64)
    ∃ bytes, takeRecords X id start (placed offset (ps.map (recordOf X))) remaining =
      some (.ok (limited remaining found, bytes, remaining.map (· - found.length))) := by
  induction ps generalizing offset remaining with
  | nil => exact ⟨0, by cases remaining <;> simp [placed, takeRecords, place, limited]⟩
  | cons p ps ih =>
    simp only [List.map_cons, placed, List.mem_cons, forall_eq_or_imp] at low
    have hnew : WalOffset.new id offset = some (WalOffset.pack id offset) := if_pos low.1
    have hentry : X.fromSlice (recordOf X p).payload = some p.2 := X.fromSlice_toVec p.2
    by_cases hlt : (WalOffset.pack id offset).asU64 < start.asU64
    · obtain ⟨bytes, hrest⟩ := ih low.2 hr
      refine ⟨bytes, ?_⟩
      simp [placed, takeRecords, hnew, hlt, hrest, place]
    · have hge : start.asU64 ≤ (WalOffset.pack id offset).asU64 := Nat.not_lt.mp hlt
      simp only [List.map_cons, placed, takeRecords, hnew, hlt, if_false, hentry, place,
        List.filter_cons, decide_eq_true hge, if_true, List.length_cons]
      by_cases hlast : remaining.map (· - 1) = some 0
      · refine ⟨(recordOf X p).diskSize, ?_⟩
        obtain ⟨n, rfl, hn⟩ := Option.map_eq_some_iff.mp hlast
        obtain rfl : n = 1 := by
          have : n ≠ 0 := fun h0 => hr (by rw [h0])
          omega
        simp [limited, recordOf, WalRecord.new]
      · obtain ⟨bytes, hrest⟩ := ih low.2 hlast
        refine ⟨(recordOf X p).diskSize + bytes, ?_⟩
        rw [if_neg hlast, hrest]
        cases remaining with
        | none => rfl
        | some n =>
          obtain ⟨m, rfl⟩ : ∃ m, n = m + 1 :=
            Nat.exists_eq_succ_of_ne_zero fun h0 => hr (by rw [h0])
          simp only [limited, Option.map_some, Nat.add_sub_cancel, List.take_succ_cons,
            Nat.add_sub_add_right]
          rfl

theorem readSegments_eq (h : Holds w.dir cs) (hd : ∀ d ∈ ds, d ∈ cs) (start : WalOffset)
    (remaining : Option Nat) :
    ∃ bytes, readSegments X w start (ds.map Chunk.id) remaining =
      some (.ok (limited remaining ((entries ds).filter (start.asU64 ≤ ·.2.1.asU64)), bytes)) := by
  induction ds generalizing remaining with
  | nil => exact ⟨0, by cases remaining <;> simp [readSegments, entries, limited]⟩
  | cons d ds ih =>
    by_cases hr : remaining = some 0
    · exact ⟨0, by simp [hr, readSegments, limited]⟩
    · obtain ⟨bytes, htake⟩ := takeRecords_eq d.id start d.small hr
      obtain ⟨more, hmore⟩ := ih (fun d' hd' => hd d' (List.mem_cons_of_mem d hd'))
        (remaining.map (· - (d.entries.filter (start.asU64 ≤ ·.2.1.asU64)).length))
      refine ⟨bytes + more, ?_⟩
      simp only [List.map_cons, readSegments, hr, if_false,
        readSegment_eq h (hd d List.mem_cons_self), htake]
      rw [show (place X d.id 0 d.records) = d.entries from rfl, hmore,
        show entries (d :: ds) = d.entries ++ entries ds from List.flatMap_cons,
        List.filter_append, limited_append]

theorem filter_entries_of_start (cs : List (Chunk X)) (start : WalOffset) :
    (entries (cs.filter (start.segmentId ≤ ·.id))).filter (start.asU64 ≤ ·.2.1.asU64) =
      (entries cs).filter (start.asU64 ≤ ·.2.1.asU64) := by
  induction cs with
  | nil => rfl
  | cons d cs ih =>
    have hcons : entries (d :: cs) = d.entries ++ entries cs := List.flatMap_cons
    by_cases hd : start.segmentId ≤ d.id
    · rw [List.filter_cons_of_pos (by simpa using hd), hcons, List.filter_append, ← ih,
        entries, List.flatMap_cons, List.filter_append]
      rfl
    · have hnone : d.entries.filter (start.asU64 ≤ ·.2.1.asU64) = [] := by
        rw [List.filter_eq_nil_iff]
        intro p hp
        obtain ⟨o, ho, he⟩ := Chunk.mem_entries hp
        rw [he, WalOffset.pack_asU64 d.id ho]
        have hseg : Nat.succ d.id * 2 ^ 40 ≤ start.asU64 := by
          rw [← Nat.le_div_iff_mul_le (by decide), ← Nat.shiftRight_eq_div_pow]
          exact Nat.not_le.mp hd
        have hmod : d.id % 2 ^ 24 ≤ d.id := Nat.mod_le _ _
        simp only [WalOffset.offsetMask] at ho
        simp only [decide_eq_true_eq, Nat.not_le]
        omega
      rw [List.filter_cons_of_neg (by simpa using hd), ih, hcons, List.filter_append, hnone,
        List.nil_append]

/-- A read returns the entries that do not lie before its start, in order and up to
its limit, and changes only counters. -/
theorem readFrom_of_holds (h : Holds w.dir cs) (hkeys : w.segments.keys = cs.map Chunk.id)
    (start : WalOffset) (limit : Option Nat) :
    ∃ stats, w.readFrom X start limit = some ({ w with stats },
      .ok (limited limit ((entries cs).filter (start.asU64 ≤ ·.2.1.asU64)))) := by
  obtain ⟨bytes, hread⟩ := readSegments_eq h
    (fun d hd => List.mem_of_mem_filter (p := (start.segmentId ≤ ·.id)) hd) start limit
  have hids : w.segments.keys.filter (start.segmentId ≤ ·) =
      (cs.filter (start.segmentId ≤ ·.id)).map Chunk.id := by
    rw [hkeys, List.filter_map]
    rfl
  rw [Wal.readFrom, hids, hread, filter_entries_of_start]
  exact ⟨_, rfl⟩

theorem Repr.readFrom_start (h : w.Repr pre c) (start : WalOffset) (limit : Option Nat) :
    ∃ stats, w.readFrom X start limit = some ({ w with stats },
      .ok (limited limit ((entries (pre ++ [c])).filter (start.asU64 ≤ ·.2.1.asU64)))) :=
  readFrom_of_holds h.holds h.keys start limit

theorem readFrom_zero (h : Holds w.dir cs) (hkeys : w.segments.keys = cs.map Chunk.id) :
    ∃ stats, w.readFrom X ⟨0⟩ none = some ({ w with stats }, .ok (entries cs)) := by
  obtain ⟨stats, hread⟩ := readFrom_of_holds h hkeys ⟨0⟩ none
  simp only [Nat.zero_le, decide_true, List.filter_true, limited] at hread
  exact ⟨stats, hread⟩

theorem Repr.readFrom (h : w.Repr pre c) :
    ∃ stats, w.readFrom X ⟨0⟩ none = some ({ w with stats }, .ok (entries (pre ++ [c]))) :=
  readFrom_zero h.holds h.keys

/-- The entries that a read from the start returns, if it succeeds. -/
def readable (X : Externals) (w : Wal) : List ReadEntry :=
  match w.readFrom X ⟨0⟩ none with
  | some (_, .ok es) => es
  | _ => []

theorem Repr.readable (h : w.Repr pre c) : w.readable X = entries (pre ++ [c]) := by
  obtain ⟨stats, hread⟩ := h.readFrom
  simp only [Wal.readable, hread]

theorem readFrom_frame {r : Except WalError (List ReadEntry)}
    (h : w.readFrom X start limit = some (w', r)) : ∃ stats, w' = { w with stats } := by
  unfold Wal.readFrom at h
  split at h
  · cases h
  · cases h
    exact ⟨w.stats, rfl⟩
  · cases h
    exact ⟨_, rfl⟩

theorem takeRecords_sublist {left : Option Nat}
    (h : takeRecords X id start records remaining = some (.ok (es, bytes, left))) :
    ∃ taken : List (Nat × WalRecord), taken.Sublist records ∧
      (∀ p ∈ taken, p.1 ≤ WalOffset.offsetMask) ∧
      es.map (fun p => p.2.1) = taken.map fun p => WalOffset.pack id p.1 := by
  induction records generalizing remaining es bytes left with
  | nil =>
    cases h
    exact ⟨[], by simp⟩
  | cons p records ih =>
    obtain ⟨offset, record⟩ := p
    simp only [takeRecords] at h
    split at h
    · cases h
    rename_i off hnew
    have hoff : offset ≤ WalOffset.offsetMask ∧ WalOffset.pack id offset = off := by
      unfold WalOffset.new at hnew
      split at hnew
      · cases hnew
        exact ⟨by assumption, rfl⟩
      · cases hnew
    split at h
    · obtain ⟨taken, hsub, hlow, he⟩ := ih h
      exact ⟨taken, hsub.cons _, hlow, he⟩
    split at h
    · cases h
    split at h
    · cases h
      refine ⟨[(offset, record)], by simp, by simpa using hoff.1, by simp [hoff.2]⟩
    split at h
    · rename_i hrest
      cases h
      obtain ⟨taken, hsub, hlow, he⟩ := ih hrest
      refine ⟨(offset, record) :: taken, hsub.cons_cons _, ?_, by simp [hoff.2, he]⟩
      intro q hq
      rcases List.mem_cons.mp hq with rfl | hq
      · exact hoff.1
      · exact hlow q hq
    · rename_i hother
      exact absurd h (hother _ _ _)

theorem readSegment_increasing (h : readSegment X w id = .ok records) :
    records.Pairwise fun p q => p.1 < q.1 := by
  unfold readSegment at h
  split at h
  · exact readAll_increasing (X.reads_ne_nil _) h
  · cases h
    exact .nil

theorem readSegments_increasing {ids : List SegmentId} (asc : ids.Pairwise (· < ·))
    (low : ∀ id ∈ ids, id < 2 ^ 24)
    (h : readSegments X w start ids remaining = some (.ok (es, bytes))) :
    (es.Pairwise fun p q => p.2.1.asU64 < q.2.1.asU64) ∧
      ∀ p ∈ es, ∃ id ∈ ids, ∃ o, o ≤ WalOffset.offsetMask ∧ p.2.1 = WalOffset.pack id o := by
  induction ids generalizing remaining es bytes with
  | nil =>
    cases h
    simp
  | cons id ids ih =>
    obtain ⟨hlt, asc⟩ := List.pairwise_cons.mp asc
    simp only [readSegments] at h
    split at h
    · cases h
      simp
    split at h
    · cases h
    rename_i records hread
    split at h
    · cases h
    · cases h
    rename_i found bytes' left htake
    split at h
    · rename_i more moreBytes hrest
      cases h
      obtain ⟨hpair, hmem⟩ := ih asc (fun k hk => low k (List.mem_cons_of_mem id hk)) hrest
      obtain ⟨taken, hsub, hsmall, he⟩ := takeRecords_sublist htake
      have hoffs : found.Pairwise fun p q => p.2.1.asU64 < q.2.1.asU64 := by
        have hpack : (found.map fun p => p.2.1).Pairwise fun o o' => o.asU64 < o'.asU64 := by
          rw [he, List.pairwise_map]
          refine ((readSegment_increasing hread).sublist hsub).imp_of_mem ?_
          intro p q hp hq hpq
          rw [WalOffset.pack_asU64 id (hsmall p hp), WalOffset.pack_asU64 id (hsmall q hq)]
          omega
        rwa [List.pairwise_map] at hpack
      have hfound : ∀ p ∈ found, ∃ o, o ≤ WalOffset.offsetMask ∧
          p.2.1 = WalOffset.pack id o := by
        intro p hp
        have hm : p.2.1 ∈ found.map fun p => p.2.1 := List.mem_map_of_mem hp
        rw [he] at hm
        obtain ⟨q, hq, hqe⟩ := List.mem_map.mp hm
        exact ⟨q.1, hsmall q hq, hqe.symm⟩
      constructor
      · refine List.pairwise_append.mpr ⟨hoffs, hpair, ?_⟩
        intro p hp q hq
        obtain ⟨o, ho, hpe⟩ := hfound p hp
        obtain ⟨k, hk, o', ho', hqe⟩ := hmem q hq
        rw [hpe, hqe]
        exact WalOffset.pack_lt_of_lt (hlt k hk) (low k (List.mem_cons_of_mem id hk)) ho ho'
      · intro p hp
        rcases List.mem_append.mp hp with hp | hp
        · obtain ⟨o, ho, hpe⟩ := hfound p hp
          exact ⟨id, List.mem_cons_self, o, ho, hpe⟩
        · obtain ⟨k, hk, rest⟩ := hmem p hp
          exact ⟨k, List.mem_cons_of_mem id hk, rest⟩
    · rename_i hother
      exact absurd h (hother _ _)

/-- Whatever the files hold, a read returns entries in the order of their offsets. -/
theorem readFrom_increasing (low : ∀ id ∈ w.segments.keys, id < 2 ^ 24)
    (h : w.readFrom X start limit = some (w', .ok es)) :
    es.Pairwise fun p q => p.2.1.asU64 < q.2.1.asU64 := by
  have asc : w.segments.keys.Pairwise (· < ·) := by
    rw [← Std.ExtTreeMap.map_fst_toList_eq_keys, List.pairwise_map]
    exact (Table.ascending_toList w.segments).imp Nat.compare_eq_lt.mp
  unfold Wal.readFrom at h
  split at h
  · cases h
  · cases h
  · rename_i es' bytes hread
    cases h
    exact (readSegments_increasing (asc.filter _)
      (fun id hid => low id (List.mem_of_mem_filter hid)) hread).1

/-! ### Opening -/

/-- The largest sequence number of the entries. -/
def maxSequence (es : List ReadEntry) (m : UInt64) : UInt64 := es.foldl (fun m p => max m p.1) m

theorem maxSequence_place (id : SegmentId) (offset : Nat) (ps : List (UInt64 × WalEntry))
    (m : UInt64) :
    (placed offset (ps.map (recordOf X))).foldl (fun m p => max m p.2.header.sequence) m =
      maxSequence (place X id offset ps) m := by
  induction ps generalizing offset m with
  | nil => rfl
  | cons p ps ih => exact ih _ _

theorem maxSequence_entries_cons (d : Chunk X) (ds : List (Chunk X)) (m : UInt64) :
    maxSequence (entries (d :: ds)) m = maxSequence (entries ds) (maxSequence d.entries m) := by
  simp [maxSequence, entries, List.foldl_append]

theorem toNat_max (a b : UInt64) : (max a b).toNat = max a.toNat b.toNat := by
  change (if a ≤ b then b else a).toNat = _
  split <;> rename_i h <;> rw [UInt64.le_iff_toNat_le] at h <;> omega

theorem le_maxSequence (es : List ReadEntry) (m : UInt64) :
    m.toNat ≤ (maxSequence es m).toNat ∧ ∀ p ∈ es, p.1.toNat ≤ (maxSequence es m).toNat := by
  induction es generalizing m with
  | nil => simp [maxSequence]
  | cons q es ih =>
    obtain ⟨hm, hes⟩ := ih (max m q.1)
    rw [toNat_max] at hm
    refine ⟨(le_max_left _ _).trans hm, ?_⟩
    intro p hp
    rcases List.mem_cons.mp hp with rfl | hp
    · exact (le_max_right _ _).trans hm
    · exact hes p hp

theorem maxSequence_lt {m : UInt64} {b : Nat} (hm : m.toNat < b) (h : ∀ p ∈ es, p.1.toNat < b) :
    (maxSequence es m).toNat < b := by
  induction es generalizing m with
  | nil => exact hm
  | cons q es ih =>
    refine ih ?_ fun p hp => h p (List.mem_cons_of_mem q hp)
    rw [toNat_max]
    exact max_lt hm (h q List.mem_cons_self)

theorem openSegments_eq (h : Holds w.dir cs) (hd : ∀ d ∈ ds, d ∈ cs)
    (asc : ds.Pairwise fun c d => c.id < d.id) (past : ∀ k ∈ w.segments.keys, ∀ d ∈ ds, k < d.id)
    (m : UInt64) :
    ∃ segments, openSegments X (ds.map Chunk.id) w m =
        .ok ({ w with segments }, maxSequence (entries ds) m) ∧
      segments.keys = w.segments.keys ++ ds.map Chunk.id := by
  induction ds generalizing w m with
  | nil => exact ⟨w.segments, rfl, by simp⟩
  | cons d ds ih =>
    obtain ⟨f, hf, -⟩ := h.file (hd d List.mem_cons_self)
    let seg : Segment := ⟨d.id, f.bytes.length, w.config.segmentSize, false⟩
    have hopen : Segment.openFile w.dir d.id w.config.segmentSize = .ok seg := by
      simp [Segment.openFile, hf, seg]
    have hkeys : (w.segments.insert d.id seg).keys = w.segments.keys ++ [d.id] :=
      Table.keys_insert_past fun k hk =>
        Nat.compare_eq_lt.mpr (past k hk d List.mem_cons_self)
    obtain ⟨hlt, asc⟩ := List.pairwise_cons.mp asc
    obtain ⟨segments, hrec, hks⟩ := ih (w := { w with segments := w.segments.insert d.id seg }) h
      (fun d' hd' => hd d' (List.mem_cons_of_mem d hd')) asc
      (by
        intro k hk d' hd'
        rw [hkeys, List.mem_append, List.mem_singleton] at hk
        rcases hk with hk | rfl
        · exact past k hk d' (List.mem_cons_of_mem d hd')
        · exact hlt d' hd')
      (maxSequence d.entries m)
    refine ⟨segments, ?_, ?_⟩
    · rw [List.map_cons, openSegments, hopen, readSegment_eq h (hd d List.mem_cons_self)]
      simp only [maxSequence_place d.id, maxSequence_entries_cons]
      exact hrec
    · rw [hks, hkeys]
      simp

/-- Opening a directory finds the chunks that are in it. -/
theorem openDir_of_holds (h : Holds dir (pre ++ [c])) (config : WalConfig) :
    ∃ w, openDir X config dir = .ok w ∧ w.Repr pre c ∧ w.dir = dir ∧ w.closed = false ∧
      w.config = config ∧ w.nextSequence = maxSequence (entries (pre ++ [c])) 0 + 1 := by
  obtain ⟨-, f, -, hb, hf, -⟩ := h.last
  let w₀ : Wal :=
    { config, dir, current := none, segments := ∅, nextSequence := 1, writesSinceSync := 0,
      closed := false, stats := {} }
  obtain ⟨segments, hopen, hkeys⟩ :=
    openSegments_eq (w := w₀) h (fun d hd => hd) h.ascending (by simp [w₀]) 0
  let w : Wal :=
    { w₀ with
      segments, nextSequence := maxSequence (entries (pre ++ [c])) 0 + 1,
      current := some ⟨c.id, f.bytes.length, config.segmentSize, false⟩ }
  refine ⟨w, ?_, ⟨h, by simpa [w₀, w] using hkeys, _, rfl, rfl, by simp [hb]⟩, rfl, rfl, rfl, rfl⟩
  have hlast : dir.keys.getLast? = some c.id := by simp [h.keys]
  rw [← h.keys] at hopen
  simp only [openDir, recover, hlast]
  rw [show openSegments X dir.keys _ 0 = _ from hopen]
  simp [w₀, Segment.openFile, hf, w]

/-- The log that an empty directory opens to: one empty segment. -/
def fresh (config : WalConfig) : Wal where
  config
  dir := (∅ : Dir).insert 1 ⟨[], 0⟩
  current := some ⟨1, 0, config.segmentSize, false⟩
  segments := (∅ : Table SegmentId Segment).insert 1 ⟨1, 0, config.segmentSize, false⟩
  nextSequence := 1
  writesSinceSync := 0
  closed := false
  stats := {}

theorem openDir_empty (X : Externals) (config : WalConfig) :
    openDir X config ∅ = .ok (fresh config) := by
  simp [openDir, recover, rotateSegment, nextId, Segment.create, insertSegment,
    Segment.openFile, fresh]

theorem repr_fresh (X : Externals) (config : WalConfig) :
    (fresh config).Repr [] (Chunk.empty X 1) := by
  refine ⟨?_, Table.keys_insert_past (by simp), ⟨_, rfl, rfl, rfl⟩⟩
  have none : Holds (X := X) ∅ [] := by simp [Holds]
  exact none.insert_past (by simp)

/-- Whatever chunks a directory holds, it opens, and the log has their entries. -/
theorem openDir_entries (h : Holds dir cs) (config : WalConfig) :
    ∃ w, ∃ pre : List (Chunk X), ∃ c, openDir X config dir = .ok w ∧ w.Repr pre c ∧
      entries (pre ++ [c]) = entries cs := by
  rcases List.eq_nil_or_concat cs with rfl | ⟨pre, c, rfl⟩
  · have hdir : dir = ∅ := by
      rw [← Std.ExtTreeMap.isEmpty_iff, ← Std.ExtTreeMap.isEmpty_toList]
      simpa [Holds] using h
    rw [hdir]
    exact ⟨fresh config, [], _, openDir_empty X config, repr_fresh X config, rfl⟩
  · rw [List.concat_eq_append] at h ⊢
    obtain ⟨w, hopen, hr, -⟩ := openDir_of_holds h config
    exact ⟨w, pre, c, hopen, hr, rfl⟩

/-! ### Compaction -/

theorem compactBefore_eq (w : Wal) (before : WalOffset) :
    ∃ deleted, w.compactBefore before =
      ({ w with
        segments := (w.segments.keys.filter (· < before.segmentId)).foldl (·.erase ·) w.segments,
        dir := (w.segments.keys.filter (· < before.segmentId)).foldl (·.erase ·) w.dir },
        deleted) := by
  unfold compactBefore
  generalize w.segments.keys.filter (· < before.segmentId) = ids
  generalize 0 = n
  induction ids generalizing w n with
  | nil => exact ⟨n, rfl⟩
  | cons id ids ih =>
    obtain ⟨deleted, h⟩ := ih { w with segments := w.segments.erase id, dir := w.dir.erase id }
      (if w.dir.contains id then n + 1 else n)
    exact ⟨deleted, h⟩

theorem Repr.compactBefore (h : w.Repr pre c) {before : WalOffset} (hb : before.segmentId ≤ c.id) :
    (w.compactBefore before).1.Repr (pre.filter (before.segmentId ≤ ·.id)) c := by
  obtain ⟨deleted, he⟩ := compactBefore_eq w before
  have hall : (pre ++ [c]).filter (fun d => !decide (d.id < before.segmentId)) =
      pre.filter (before.segmentId ≤ ·.id) ++ [c] := by
    simp only [← decide_not, Nat.not_lt]
    simp [hb]
  rw [he]
  refine ⟨?_, ?_, h.current⟩
  · have hsel : ∀ k, k ∈ w.dir →
        (k ∈ w.segments.keys.filter (· < before.segmentId) ↔
          (fun k => decide (k < before.segmentId)) k = true) := by
      intro k hk
      rw [h.keys, ← h.holds.keys]
      simp [hk]
    have hf := congrArg (List.filter fun p => !decide (p.1 < before.segmentId)) h.holds
    rw [List.filter_map, List.filter_map] at hf
    rw [Holds, Table.toList_foldl_erase hsel, ← hall]
    exact hf
  · have hsel : ∀ k, k ∈ w.segments →
        (k ∈ w.segments.keys.filter (· < before.segmentId) ↔
          (fun k => decide (k < before.segmentId)) k = true) := by
      intro k hk
      simp [hk]
    rw [Table.keys_foldl_erase hsel, h.keys, ← hall, List.filter_map]
    rfl

end Wal

end Rstmdb

import Rstmdb.Wal.Refine

/-! The size that the log reports. Every segment has two handles, and each knows
the size of the file when it was opened and what it has written itself. The
reported size is the sum over the handles that only read. -/
namespace Rstmdb

/-- The bytes in all files of the directory. -/
def dirSize (dir : Dir) : Nat := (dir.toList.map fun f => f.2.bytes.length).sum

/-- What the records added to a segment; each is noted with its segment. -/
def grownBy (written : List (SegmentId × Nat)) (id : SegmentId) : Nat :=
  ((written.filter (·.1 = id)).map Prod.snd).sum

theorem grownBy_append (written more : List (SegmentId × Nat)) (id : SegmentId) :
    grownBy (written ++ more) id = grownBy written id + grownBy more id := by
  simp [grownBy]

theorem grownBy_singleton (k : SegmentId) (n : Nat) (id : SegmentId) :
    grownBy [(k, n)] id = if k = id then n else 0 := by
  by_cases h : k = id <;> simp [grownBy, h]

theorem grownBy_eq_zero {written : List (SegmentId × Nat)} (pos : ∀ p ∈ written, 0 < p.2)
    {id : SegmentId} : grownBy written id = 0 ↔ ∀ p ∈ written, p.1 ≠ id := by
  simp only [grownBy, List.sum_eq_zero_iff, List.mem_map, List.mem_filter, decide_eq_true_eq]
  constructor
  · intro h p hp hid
    exact (pos p hp).ne' (h p.2 ⟨p, ⟨hp, hid⟩, rfl⟩)
  · rintro h _ ⟨p, ⟨hp, hid⟩, rfl⟩
    exact absurd hid (h p hp)

namespace Wal

/-- The records written since the log was opened, after an operation. -/
def noteWritten (X : Externals) (w : Wal) (written : List (SegmentId × Nat)) :
    WalOp → List (SegmentId × Nat)
  | .append e =>
    match w.append X e with
    | some (w', .ok _) =>
      written ++ w'.current.toList.map fun seg => (seg.id, (w.nextRecord X e).diskSize)
    | _ => written
  | .reopen _ => []
  | _ => written

/-- The log over its operations, with the records written since it was opened. -/
def sizeStep (X : Externals) (s : (Wal × AppendLog) × List (SegmentId × Nat)) (op : WalOp) :
    Option ((Wal × AppendLog) × List (SegmentId × Nat)) :=
  (step X s.1 op).map fun t => (t, noteWritten X s.1.1 s.2 op)

/-- The reading handles know the files as they were when they were opened: what
was written since is not in their sizes. -/
structure Accounted (w : Wal) (written : List (SegmentId × Nat)) : Prop where
  sizes : ∀ id : SegmentId, (w.dir[id]?).map (fun f => f.bytes.length) =
    (w.segments[id]?).map fun seg => seg.size + grownBy written id
  current : ∃ seg, w.current = some seg ∧ seg.id ∈ w.segments ∧ ∀ p ∈ written, p.1 ≤ seg.id
  positive : ∀ p ∈ written, 0 < p.2

section
variable {X : Externals} {w w' : Wal} {written : List (SegmentId × Nat)}

theorem lt_nextId {k : SegmentId} (h : k ∈ w.segments) : k < w.nextId := by
  have hk : k ∈ w.segments.keys := Std.ExtTreeMap.mem_keys.mpr h
  have asc : w.segments.keys.Pairwise (· < ·) := by
    rw [← Std.ExtTreeMap.map_fst_toList_eq_keys, List.pairwise_map]
    exact (Table.ascending_toList w.segments).imp Nat.compare_eq_lt.mp
  unfold nextId
  obtain hnil | ⟨ks, last, hks⟩ := List.eq_nil_or_concat w.segments.keys
  · simp [hnil] at hk
  · rw [hks, List.concat_eq_append] at hk asc ⊢
    simp only [List.getLast?_concat]
    obtain ⟨-, -, hlt⟩ := List.pairwise_append.mp asc
    obtain hk | hk := List.mem_append.mp hk
    · exact Nat.lt_succ_of_lt (hlt k hk last (by simp))
    · rw [List.mem_singleton.mp hk]
      exact Nat.lt_succ_self last

namespace Accounted

theorem mem_dir (h : w.Accounted written) {id : SegmentId} : id ∈ w.dir ↔ id ∈ w.segments := by
  have := congrArg Option.isSome (h.sizes id)
  rw [Option.isSome_map, Option.isSome_map] at this
  rw [Std.ExtTreeMap.mem_iff_isSome_getElem?, Std.ExtTreeMap.mem_iff_isSome_getElem?, this]

/-- What the reported size lacks: the bytes written to segments that are there. -/
theorem dirSize_eq (h : w.Accounted written) :
    dirSize w.dir = w.totalSize + (w.segments.keys.map (grownBy written)).sum := by
  obtain ⟨seg, hs, hmem, -⟩ := h.current
  have hcur : w.totalSize = (w.segments.toList.map fun p => p.2.size).sum := by
    have hin : w.segments.contains seg.id = true := Std.ExtTreeMap.contains_iff_mem.mpr hmem
    simp [totalSize, hs, hin, Table.values_eq_map_toList, Function.comp_def]
  have hfiles := congrArg (List.map Prod.snd) (Table.map_toList_eq h.sizes)
  simp only [List.map_map, Function.comp_def] at hfiles
  rw [dirSize, hfiles, List.sum_map_add, hcur, ← Std.ExtTreeMap.map_fst_toList_eq_keys,
    List.map_map]
  rfl

theorem totalSize_iff (h : w.Accounted written) :
    w.totalSize = dirSize w.dir ↔ ∀ p ∈ written, p.1 ∉ w.dir := by
  have hzero : w.totalSize = dirSize w.dir ↔ (w.segments.keys.map (grownBy written)).sum = 0 := by
    rw [h.dirSize_eq]
    omega
  rw [hzero]
  simp only [List.sum_eq_zero_iff, List.mem_map, forall_exists_index, and_imp,
    forall_apply_eq_imp_iff₂, Std.ExtTreeMap.mem_keys, grownBy_eq_zero h.positive, h.mem_dir]
  exact ⟨fun hall p hp hmem => hall p.1 hmem p hp rfl,
    fun hall id hid p hp he => hall p hp (he ▸ hid)⟩

/-! ## Operations -/

theorem of_same (h : w.Accounted written)
    (hdir : ∀ id : SegmentId, (w'.dir[id]?).map (fun f => f.bytes.length) =
      (w.dir[id]?).map fun f => f.bytes.length)
    (hsegs : w'.segments = w.segments)
    (hcur : ∃ seg, w'.current = some seg ∧ w.current.map Segment.id = some seg.id) :
    w'.Accounted written := by
  obtain ⟨seg, hs, hmem, hle⟩ := h.current
  obtain ⟨seg', hs', hid⟩ := hcur
  rw [hs, Option.map_some, Option.some.injEq] at hid
  refine ⟨fun id => ?_, ⟨seg', hs', ?_, ?_⟩, h.positive⟩
  · rw [hdir, hsegs, h.sizes]
  · rwa [hsegs, ← hid]
  · rwa [← hid]

variable {seg : Segment} {res : Except WalError (UInt64 × WalOffset)}

theorem syncSegment (h : w.Accounted written) (hs : w.current = some seg) :
    (w.syncSegment seg).Accounted written := by
  refine h.of_same (fun id => ?_) rfl ⟨(seg.sync w.dir).1, rfl, by simp [hs]⟩
  simp only [Wal.syncSegment, Segment.sync]
  split
  · split
    · rfl
    · rename_i f hf
      by_cases hid : id = seg.id
      · simp [hid, hf]
      · simp [Table.getElem?_insert_ne hid]
  · rfl

theorem applyPolicy (h : w.Accounted written) (hs : w.current = some seg) :
    (w.applyPolicy seg).Accounted written := by
  obtain hp | hp := applyPolicy_cases w seg
  · rwa [hp]
  · rw [hp]
    exact h.syncSegment hs

theorem sync (h : w.Accounted written) : w.sync.Accounted written := by
  obtain ⟨seg, hs, -⟩ := h.current
  rw [Wal.sync, hs]
  exact h.syncSegment hs

theorem rotated (h : w.Accounted written) : w.rotated.Accounted written := by
  obtain ⟨seg, hs, hmem, hle⟩ := h.current
  have hnew : ∀ p ∈ written, p.1 ≠ w.nextId :=
    fun p hp => ((hle p hp).trans_lt (lt_nextId hmem)).ne
  refine ⟨fun id => ?_, ⟨_, rfl, Std.ExtTreeMap.mem_insert_self, ?_⟩, h.positive⟩
  · by_cases hid : id = w.nextId
    · subst hid
      simp [Wal.rotated, (grownBy_eq_zero h.positive).mpr hnew]
    · simp only [Wal.rotated, Table.getElem?_insert_ne hid]
      exact h.sizes id
  · exact fun p hp => (hle p hp).trans (lt_nextId hmem).le

theorem write (h : w.Accounted written) (hs : w.current = some seg) (r : WalRecord) :
    (w.written seg r).Accounted (written ++ [(seg.id, r.diskSize)]) := by
  obtain ⟨seg', hs', hmem, hle⟩ := h.current
  obtain rfl : seg' = seg := by simpa [hs'] using hs
  refine ⟨fun id => ?_, ⟨_, rfl, hmem, ?_⟩, ?_⟩
  · obtain ⟨f, hf⟩ := Option.isSome_iff_exists.mp
      (Std.ExtTreeMap.mem_iff_isSome_getElem?.mp (h.mem_dir.mpr hmem))
    have hsize := h.sizes id
    rw [grownBy_append, grownBy_singleton]
    simp only [Wal.written, noteWrite, Segment.writeEnd, hf]
    by_cases hid : id = seg'.id
    · subst hid
      rw [hf] at hsize
      obtain ⟨reader, hreader, hlen⟩ := Option.map_eq_some_iff.mp hsize.symm
      simp [hreader, ← hlen, WalRecord.length_bytes, Nat.add_assoc]
    · rw [Table.getElem?_insert_ne hid, if_neg (Ne.symm hid)]
      exact hsize
  · intro p hp
    obtain hp | hp := List.mem_append.mp hp
    · exact hle p hp
    · rw [List.mem_singleton.mp hp]
      exact le_refl _
  · intro p hp
    obtain hp | hp := List.mem_append.mp hp
    · exact h.positive p hp
    · rw [List.mem_singleton.mp hp]
      simp [WalRecord.diskSize, recordHeaderSize]

theorem appendLocked (h : w.Accounted written) {r : WalRecord}
    (ha : w.appendLocked r = some (w', res)) :
    match res with
    | .ok _ => w'.Accounted (written ++ w'.current.toList.map fun seg => (seg.id, r.diskSize))
    | .error _ => w'.Accounted written := by
  obtain ⟨seg, hs, -⟩ := h.current
  obtain ⟨-, rfl, rfl⟩ | ⟨-, -, rfl, rfl⟩ := appendLocked_cases hs ha
  · exact h
  · obtain ⟨seg', hs', hid, -⟩ := applyPolicy_current
      (show (w.written seg r).current = some (grownSegment seg r) from rfl)
    rw [hs', Option.toList_some, List.map_singleton, hid]
    exact (h.write hs r).applyPolicy rfl

theorem append (h : w.Accounted written) {e : WalEntry} (ha : w.append X e = some (w', res)) :
    w'.Accounted (noteWritten X w written (.append e)) := by
  have hdrawn : w.drawSequence.2.Accounted written := ⟨h.sizes, h.current, h.positive⟩
  simp only [noteWritten, ha]
  obtain ⟨-, rfl, rfl⟩ | ⟨-, -, -, rfl, rfl⟩ | ⟨-, -, -, hw⟩ | ⟨-, -, hw⟩ := append_cases ha
  · exact h
  · exact hdrawn
  · have := hdrawn.rotated.appendLocked hw
    cases res <;> exact this
  · have := hdrawn.appendLocked hw
    cases res <;> exact this

theorem compactBefore (h : w.Accounted written) {before : WalOffset}
    (hb : ∀ seg ∈ w.current, before.segmentId ≤ seg.id) :
    (w.compactBefore before).1.Accounted written := by
  obtain ⟨seg, hs, hmem, hle⟩ := h.current
  obtain ⟨deleted, he⟩ := compactBefore_eq w before
  rw [he]
  refine ⟨fun id => ?_, ⟨seg, hs, ?_, hle⟩, h.positive⟩
  · simp only [Table.getElem?_foldl_erase]
    split
    · rfl
    · exact h.sizes id
  · have hkept : seg.id ∉ w.segments.keys.filter (· < before.segmentId) := by
      simp only [List.mem_filter, decide_eq_true_eq, not_and, Nat.not_lt]
      exact fun _ => hb seg hs
    rw [Std.ExtTreeMap.mem_iff_isSome_getElem?] at hmem ⊢
    rwa [Table.getElem?_foldl_erase, if_neg hkept]

end Accounted

/-! ## Opening -/

theorem openSegments_getElem? {ids : List SegmentId} {m n : UInt64}
    (h : openSegments X ids w m = .ok (w', n)) (id : SegmentId) :
    w'.segments[id]? =
      if id ∈ ids then (w.dir[id]?).map fun f => ⟨id, f.bytes.length, w.config.segmentSize, false⟩
      else w.segments[id]? := by
  induction ids generalizing w m with
  | nil =>
    cases h
    simp
  | cons k ids ih =>
    simp only [openSegments, Segment.openFile] at h
    split at h
    · cases h
    rename_i seg hseg
    split at hseg
    · cases hseg
    rename_i f hf
    cases hseg
    split at h
    · cases h
    rw [ih h]
    by_cases hid : id = k
    · subst hid
      simp [hf]
    · simp [hid, Table.getElem?_insert_ne hid]

theorem accounted_openDir {config : WalConfig} {dir : Dir} (h : openDir X config dir = .ok w) :
    w.Accounted [] := by
  cases hlast : dir.keys.getLast? with
  | none =>
    have hempty : dir = ∅ := by
      rw [← Std.ExtTreeMap.isEmpty_iff, ← Std.ExtTreeMap.isEmpty_keys]
      simpa using hlast
    rw [hempty, openDir_empty] at h
    cases h
    refine ⟨fun id => ?_, ⟨_, rfl, by simp [fresh], by simp⟩, by simp⟩
    by_cases hid : id = 1
    · simp [fresh, hid, grownBy]
    · simp [fresh, Table.getElem?_insert_ne hid]
  | some latest =>
    simp only [openDir, recover, hlast] at h
    split at h
    · cases h
    rename_i w₁ m hopen
    obtain ⟨segments, rfl⟩ := openSegments_frame hopen
    have hsegs := openSegments_getElem? hopen
    simp only at hsegs h
    have hall : ∀ id : SegmentId, segments[id]? =
        (dir[id]?).map fun f => ⟨id, f.bytes.length, config.segmentSize, false⟩ := by
      intro id
      rw [hsegs]
      split
      · rfl
      rename_i hid
      rw [Std.ExtTreeMap.mem_keys, Std.ExtTreeMap.mem_iff_isSome_getElem?,
        Option.not_isSome_iff_eq_none] at hid
      simp [hid]
    split at h
    · cases h
    rename_i seg hseg
    cases h
    unfold Segment.openFile at hseg
    split at hseg
    · cases hseg
    rename_i f hf
    cases hseg
    refine ⟨fun id => ?_, ⟨_, rfl, ?_, by simp⟩, by simp⟩
    · rw [hall, Option.map_map]
      rfl
    · rw [Std.ExtTreeMap.mem_iff_isSome_getElem?, hall, hf]
      rfl

/-! ## Runs -/

theorem accounted_step {s t : (Wal × AppendLog) × List (SegmentId × Nat)} {op : WalOp}
    (h : s.1.1.Accounted s.2) (hw : Within s.1 op) (hs : sizeStep X s op = some t) :
    t.1.1.Accounted t.2 := by
  obtain ⟨t', ht, rfl⟩ := Option.map_eq_some_iff.mp hs
  obtain ⟨⟨w, a⟩, written⟩ := s
  simp only at h ht ⊢
  cases op with
  | append e =>
    simp only [step] at ht
    split at ht <;> cases ht <;> rename_i ha <;> exact h.append ha
  | sync =>
    cases ht
    exact h.sync
  | readFrom start limit =>
    simp only [step] at ht
    split at ht
    · cases ht
    rename_i hread
    obtain ⟨stats, rfl⟩ := readFrom_frame hread
    cases ht
    exact ⟨h.sizes, h.current, h.positive⟩
  | close =>
    cases ht
    have hclosed : Accounted { w with closed := true } written := ⟨h.sizes, h.current, h.positive⟩
    exact hclosed.sync
  | reopen config =>
    simp only [step] at ht
    split at ht
    · cases ht
    · rename_i hopen
      cases ht
      exact accounted_openDir hopen
  | compactBefore before =>
    cases ht
    exact h.compactBefore hw

end

/-- From any directory that opens, after any run of operations, the reported size
is the bytes of the files exactly if every segment that was written to since the
log was last opened is gone. -/
theorem total_size_iff {X : Externals} {config : WalConfig} {dir : Dir} {w₀ w : Wal}
    {a : AppendLog} {written : List (SegmentId × Nat)} {ops : List WalOp}
    (hopen : openDir X config dir = .ok w₀)
    (within : Meets (sizeStep X) (fun s => Within s.1) ((w₀, ⟨[], 0⟩), []) ops)
    (hrun : run (sizeStep X) ((w₀, ⟨[], 0⟩), []) ops = some ((w, a), written)) :
    w.totalSize = dirSize w.dir ↔ ∀ p ∈ written, p.1 ∉ w.dir := by
  have hstart : (w₀, (⟨[], 0⟩ : AppendLog)).1.Accounted [] := accounted_openDir hopen
  have := run_keeps_of_meets (P := fun s => s.1.1.Accounted s.2)
    (fun _ _ _ h hw hs => accounted_step h hw hs) hstart within hrun
  exact this.totalSize_iff

/-- A log that is opened again after its appends reports what is there. -/
theorem total_size_after_reopen :
    ∃ s, run (sizeStep serde) ((fresh ⟨0, .never⟩, ⟨[], 0⟩), [])
        [.append (.checkpoint 1), .append (.checkpoint 2), .reopen ⟨0, .never⟩,
          .compactBefore ⟨3 * 2 ^ 40⟩] = some s ∧
      0 < dirSize s.1.1.dir ∧ s.1.1.totalSize = dirSize s.1.1.dir := by
  refine run_exists (p := fun s => 0 < dirSize s.1.1.dir ∧ ∀ q ∈ s.2, q.1 ∉ s.1.1.dir)
    (by decide +kernel) ?_
  rintro ⟨⟨w, a⟩, written⟩ hrun ⟨hpos, hgone⟩
  exact ⟨hpos, (total_size_iff (openDir_empty serde _) (by decide +kernel) hrun).mpr hgone⟩

/-- A log that is only appended to reports no byte of what it wrote. -/
theorem appended_bytes_not_counted :
    ∃ s, run (sizeStep serde) ((fresh ⟨1000, .everyWrite⟩, ⟨[], 0⟩), [])
        [.append (.checkpoint 1)] = some s ∧
      s.1.1.totalSize = 0 ∧ 0 < dirSize s.1.1.dir :=
  run_exists (p := fun s => s.1.1.totalSize = 0 ∧ 0 < dirSize s.1.1.dir) (by decide +kernel)
    fun _ _ h => h

end Wal

end Rstmdb

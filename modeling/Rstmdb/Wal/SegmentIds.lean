import Rstmdb.Lib.Hex
import Rstmdb.Wal.Log

/-! Segment ids outside the log: in the names of files, and in packed offsets. The parser
of names takes capitals and a sign that are never written, and an offset has room for the
low 24 bits of an id only. -/
namespace Rstmdb

/-! ## File names -/

/-- `format!("{:016x}.wal", id)`. -/
def segmentFilename (id : SegmentId) : String := String.ofList (Hex.text 16 id) ++ ".wal"

/-- `str::strip_suffix`. -/
def stripSuffix (s suffix : String) : Option String :=
  if suffix.toList <:+ s.toList then
    some (String.ofList (s.toList.take (s.toList.length - suffix.toList.length)))
  else none

/-- The digits behind a plus sign, if there is one. -/
def unsigned : List Char → List Char
  | '+' :: digits => digits
  | digits => digits

/-- `u64::from_str_radix(_, 16)`: perhaps a plus sign, then at least one digit. -/
def fromStrRadix16 (s : String) : Option Nat :=
  if unsigned s.toList = [] then none
  else (Hex.value (unsigned s.toList) 0).bind fun n => if n < 2 ^ 64 then some n else none

def parseSegmentFilename (name : String) : Option SegmentId :=
  match stripSuffix name ".wal" with
  | none => none
  | some name => if name.utf8ByteSize ≠ 16 then none else fromStrRadix16 name

/-- The files in the directory of the log, by name. -/
abbrev Folder := Table String SegFile

/-- `SegmentScanner::list_segments`. -/
def listSegments (folder : Folder) : List SegmentId :=
  (folder.keys.filterMap parseSegmentFilename).insertionSort (· ≤ ·)

/-- `Segment::open`, by the name of the file. -/
def Segment.openPath (folder : Folder) (id : SegmentId) (maxSize : Nat) :
    Except WalError Segment :=
  match folder[segmentFilename id]? with
  | none => .error .io
  | some f => .ok ⟨id, f.bytes.length, maxSize, false⟩

/-- No sign and no capitals. -/
def plainName (name : String) : Bool := name.toList.all fun c => c != '+' && !c.isUpper

theorem stripSuffix_eq_some {s suffix t : String} (h : stripSuffix s suffix = some t) :
    s = t ++ suffix := by
  unfold stripSuffix at h
  split at h
  · rename_i hs
    obtain ⟨front, hfront⟩ := hs
    cases h
    apply String.toList_inj.mp
    rw [String.toList_append, String.toList_ofList, ← hfront]
    simp
  · cases h

theorem stripSuffix_append (t suffix : String) : stripSuffix (t ++ suffix) suffix = some t := by
  rw [stripSuffix, if_pos (by simp [String.toList_append])]
  simp [String.toList_append]

theorem unsigned_of_value {cs : List Char} {m n : Nat} (h : Hex.value cs m = some n) :
    unsigned cs = cs := by
  unfold unsigned
  split
  · cases h
  · rfl

theorem fromStrRadix16_eq_some {s : String} {n : Nat} :
    fromStrRadix16 s = some n ↔ unsigned s.toList ≠ [] ∧
      Hex.value (unsigned s.toList) 0 = some n ∧ n < 2 ^ 64 := by
  rw [fromStrRadix16, ite_eq_iff]
  simp only [Option.bind_eq_some_iff, Option.ite_none_right_eq_some, Option.some.injEq,
    reduceCtorEq, and_false, false_or]
  constructor
  · rintro ⟨hne, m, hm, hlt, rfl⟩
    exact ⟨hne, hm, hlt⟩
  · rintro ⟨hne, hn, hlt⟩
    exact ⟨hne, n, hn, hlt, rfl⟩

variable {id : SegmentId}

/-- What the parser accepts: sixteen bytes in front of `.wal`, digits behind a sign or not. -/
theorem parse_eq_some {name : String} :
    parseSegmentFilename name = some id ↔ ∃ t, name = t ++ ".wal" ∧ t.utf8ByteSize = 16 ∧
      unsigned t.toList ≠ [] ∧ Hex.value (unsigned t.toList) 0 = some id ∧ id < 2 ^ 64 := by
  constructor
  · intro h
    unfold parseSegmentFilename at h
    split at h
    · cases h
    rename_i t ht
    split at h
    · cases h
    · rename_i hsize
      exact ⟨t, stripSuffix_eq_some ht, not_not.mp hsize, fromStrRadix16_eq_some.mp h⟩
  · rintro ⟨t, rfl, hsize, hradix⟩
    rw [parseSegmentFilename, stripSuffix_append]
    simp only [hsize, ne_eq, not_true_eq_false, if_false]
    exact fromStrRadix16_eq_some.mpr hradix

theorem parse_of_segmentFilename (h : id < 2 ^ 64) :
    parseSegmentFilename (segmentFilename id) = some id := by
  have hwide : id < 16 ^ (15 + 1) := by omega
  have hvalue := Hex.value_text hwide
  have hlength := Hex.length_text hwide
  refine parse_eq_some.mpr ⟨String.ofList (Hex.text 16 id), rfl, ?_, ?_, ?_, h⟩
  · rw [String.utf8ByteSize_ofList, Hex.utf8Len_of_value hvalue, hlength]
  · rw [String.toList_ofList, unsigned_of_value hvalue]
    exact List.ne_nil_of_length_pos (by omega)
  · rw [String.toList_ofList, unsigned_of_value hvalue, hvalue]

theorem plainName_segmentFilename (h : id < 2 ^ 64) : plainName (segmentFilename id) = true := by
  have hdigits : ∀ d < 16, (Nat.digitChar d != '+' && !(Nat.digitChar d).isUpper) = true := by
    decide
  rw [plainName, segmentFilename, String.toList_append, String.toList_ofList, List.all_append,
    Bool.and_eq_true]
  refine ⟨List.all_eq_true.mpr fun c hc => ?_, by decide⟩
  obtain ⟨d, hd, rfl⟩ := Hex.mem_text (w := 15) (by omega) hc
  exact hdigits d hd

theorem eq_segmentFilename_iff {name : String} (h : parseSegmentFilename name = some id) :
    name = segmentFilename id ↔ plainName name = true := by
  obtain ⟨t, rfl, hsize, hne, hvalue, hlt⟩ := parse_eq_some.mp h
  constructor
  · intro he
    rw [he]
    exact plainName_segmentFilename hlt
  · intro hplain
    have hchars : ∀ c ∈ t.toList, c ≠ '+' ∧ c.isUpper = false := by
      rw [plainName, String.toList_append, List.all_append, Bool.and_eq_true] at hplain
      intro c hc
      simpa using List.all_eq_true.mp hplain.1 c hc
    have hunsigned : unsigned t.toList = t.toList := by
      unfold unsigned
      split
      · rename_i digits htext
        exact absurd rfl (hchars '+' (by rw [htext]; simp)).1
      · rfl
    rw [hunsigned] at hne hvalue
    have hlength : t.toList.length = 16 := by
      rw [← Hex.utf8Len_of_value hvalue, ← String.utf8ByteSize_ofList, String.ofList_toList, hsize]
    have htext := Hex.text_of_value hne (fun c hc => (hchars c hc).2) hvalue
    rw [segmentFilename, ← hlength, htext, String.ofList_toList]

/-! ## Listing and opening -/

theorem mem_listSegments {folder : Folder} :
    id ∈ listSegments folder ↔ ∃ name ∈ folder, parseSegmentFilename name = some id := by
  simp [listSegments, List.mem_insertionSort, List.mem_filterMap, Std.ExtTreeMap.mem_keys]

theorem openPath_ok_iff {folder : Folder} {maxSize : Nat} :
    (∃ segment, Segment.openPath folder id maxSize = .ok segment) ↔
      segmentFilename id ∈ folder := by
  rw [Std.ExtTreeMap.mem_iff_isSome_getElem?]
  unfold Segment.openPath
  cases folder[segmentFilename id]? <;> simp

/-- Ids and the names written for them correspond; a name that is read as an id is the one
written for it exactly if it has no sign and no capitals. So what is listed can be opened,
and each id comes from one file, exactly if no file has a name that is read and not plain. -/
theorem segment_names_iff (name : String) (id : SegmentId) (folder : Folder) (maxSize : Nat) :
    (id < 2 ^ 64 → parseSegmentFilename (segmentFilename id) = some id) ∧
      (parseSegmentFilename name = some id →
        (name = segmentFilename id ↔ plainName name = true)) ∧
      (((∀ id ∈ listSegments folder,
            ∃ segment, Segment.openPath folder id maxSize = .ok segment) ∧
          (∀ id, ∀ a ∈ folder, ∀ b ∈ folder, parseSegmentFilename a = some id →
            parseSegmentFilename b = some id → a = b)) ↔
        ∀ name ∈ folder, (parseSegmentFilename name).isSome = true → plainName name = true) := by
  refine ⟨parse_of_segmentFilename, eq_segmentFilename_iff, ?_, fun h => ⟨fun id hid => ?_, ?_⟩⟩
  · rintro ⟨hopen, honce⟩ name hname hparse
    obtain ⟨id, hid⟩ := Option.isSome_iff_exists.mp hparse
    obtain ⟨-, -, -, -, -, hlt⟩ := parse_eq_some.mp hid
    have hwritten := openPath_ok_iff.mp (hopen id (mem_listSegments.mpr ⟨name, hname, hid⟩))
    have hsame := honce id name hname _ hwritten hid (parse_of_segmentFilename hlt)
    exact (eq_segmentFilename_iff hid).mp hsame
  · obtain ⟨name, hname, hparse⟩ := mem_listSegments.mp hid
    have hsame := (eq_segmentFilename_iff hparse).mpr (h name hname (by rw [hparse]; rfl))
    exact openPath_ok_iff.mpr (hsame ▸ hname)
  · intro id a ha b hb hpa hpb
    rw [(eq_segmentFilename_iff hpa).mpr (h a ha (by rw [hpa]; rfl)),
      (eq_segmentFilename_iff hpb).mpr (h b hb (by rw [hpb]; rfl))]

/-- A file whose name has capitals or a sign is listed under an id whose file is not there;
and next to that file, the id is listed twice. -/
theorem stray_name_listed :
    let stray := "00000000000000FF.wal"
    let signed := "+0000000000000ff.wal"
    let alone : Folder := (∅ : Folder).insert stray ⟨[], 0⟩
    let both : Folder := alone.insert (segmentFilename 255) ⟨[], 0⟩
    parseSegmentFilename stray = some 255 ∧ parseSegmentFilename signed = some 255 ∧
      segmentFilename 255 = "00000000000000ff.wal" ∧
      listSegments alone = [255] ∧ Segment.openPath alone 255 1000 = .error .io ∧
      listSegments both = [255, 255] := by
  decide +kernel

/-! ## Packed offsets -/

namespace WalOffset

/-- A packed offset gives back what went into it. -/
def Faithful (id : SegmentId) : Prop :=
  ∀ off ≤ offsetMask, ∃ w, WalOffset.new id off = some w ∧ w.segmentId = id ∧ w.offset = off

/-- Packed offsets of the two segments compare as the pairs of id and offset do. -/
def Ordered (a b : SegmentId) : Prop :=
  ∀ x ≤ offsetMask, ∀ y ≤ offsetMask, ∃ v w, WalOffset.new a x = some v ∧
    WalOffset.new b y = some w ∧ compare v.asU64 w.asU64 = (compare a b).then (compare x y)

theorem new_eq_pack (id : SegmentId) {off : Nat} (h : off ≤ offsetMask) :
    WalOffset.new id off = some (pack id off) := if_pos h

theorem pack_offset (id : SegmentId) {off : Nat} (h : off ≤ offsetMask) :
    (pack id off).offset = off := by
  rw [offset, pack_asU64 id h, offsetMask, Nat.and_two_pow_sub_one_eq_mod]
  simp only [offsetMask] at h
  omega

theorem faithful_iff (id : SegmentId) : Faithful id ↔ id < 2 ^ 24 := by
  constructor
  · intro h
    obtain ⟨w, hw, hid, -⟩ := h 0 (Nat.zero_le _)
    rw [new_eq_pack id (Nat.zero_le _)] at hw
    cases hw
    rw [pack_segmentId id (Nat.zero_le _)] at hid
    exact hid ▸ Nat.mod_lt id (by decide)
  · intro h off hoff
    refine ⟨pack id off, new_eq_pack id hoff, ?_, pack_offset id hoff⟩
    rw [pack_segmentId id hoff, Nat.mod_eq_of_lt h]

/-- Packed words compare by the low bits of the ids, then by the offsets. -/
theorem compare_pack (a b : SegmentId) {x y : Nat} (hx : x ≤ offsetMask) (hy : y ≤ offsetMask) :
    compare (pack a x).asU64 (pack b y).asU64 =
      (compare (a % 2 ^ 24) (b % 2 ^ 24)).then (compare x y) := by
  rw [pack_asU64 a hx, pack_asU64 b hy]
  simp only [offsetMask] at hx hy
  obtain hlt | heq | hgt := Nat.lt_trichotomy (a % 2 ^ 24) (b % 2 ^ 24)
  · rw [Nat.compare_eq_lt.mpr hlt, Nat.compare_eq_lt.mpr (by omega)]
    rfl
  · rw [heq, Nat.compare_eq_eq.mpr rfl, Ordering.eq_then]
    obtain hlt | rfl | hgt := Nat.lt_trichotomy x y
    · rw [Nat.compare_eq_lt.mpr hlt, Nat.compare_eq_lt.mpr (by omega)]
    · rw [Nat.compare_eq_eq.mpr rfl, Nat.compare_eq_eq.mpr rfl]
    · rw [Nat.compare_eq_gt.mpr hgt, Nat.compare_eq_gt.mpr (by omega)]
  · rw [Nat.compare_eq_gt.mpr hgt, Nat.compare_eq_gt.mpr (by omega)]
    rfl

theorem ordered_iff (a b : SegmentId) :
    Ordered a b ↔ compare (a % 2 ^ 24) (b % 2 ^ 24) = compare a b := by
  constructor
  · intro h
    obtain ⟨v, w, hv, hw, hcompare⟩ := h 0 (Nat.zero_le _) 0 (Nat.zero_le _)
    rw [new_eq_pack a (Nat.zero_le _)] at hv
    rw [new_eq_pack b (Nat.zero_le _)] at hw
    cases hv
    cases hw
    rw [compare_pack a b (Nat.zero_le _) (Nat.zero_le _), Nat.compare_eq_eq.mpr rfl] at hcompare
    simpa using hcompare
  · intro h x hx y hy
    refine ⟨_, _, new_eq_pack a hx, new_eq_pack b hy, ?_⟩
    rw [compare_pack a b hx hy, h]

end WalOffset

/-- Every id can be in the name of a file. An offset gives it back exactly if it is below
2^24, and the offsets of two segments compare as the segments do exactly if the low 24 bits
of their ids do, as they do for ids below 2^24. -/
theorem packed_offsets_iff (a b : SegmentId) :
    (a < 2 ^ 64 → parseSegmentFilename (segmentFilename a) = some a) ∧
      (WalOffset.Faithful a ↔ a < 2 ^ 24) ∧
      (WalOffset.Ordered a b ↔ compare (a % 2 ^ 24) (b % 2 ^ 24) = compare a b) ∧
      (a < 2 ^ 24 → b < 2 ^ 24 → WalOffset.Ordered a b) := by
  refine ⟨parse_of_segmentFilename, WalOffset.faithful_iff a, WalOffset.ordered_iff a b, ?_⟩
  intro ha hb
  rw [WalOffset.ordered_iff, Nat.mod_eq_of_lt ha, Nat.mod_eq_of_lt hb]

/-- After the segment 2^24 - 1 comes one whose offsets are those of segment 0, and less than
the offsets before it. -/
theorem rotation_wraps_offsets :
    let dir : Dir := (∅ : Dir).insert (2 ^ 24 - 1) ⟨[], 0⟩
    parseSegmentFilename "0000000000ffffff.wal" = some (2 ^ 24 - 1) ∧
      (Wal.openDir serde ⟨1000, .never⟩ dir).toOption.map
        (fun w => w.rotateSegment.1.current.map (·.id)) = some (some (2 ^ 24)) ∧
      WalOffset.new (2 ^ 24) 5 = some ⟨5⟩ ∧ WalOffset.new 0 5 = some ⟨5⟩ ∧
      (WalOffset.mk 5).segmentId = 0 ∧
      WalOffset.new (2 ^ 24 - 1) 5 = some ⟨(2 ^ 24 - 1) * 2 ^ 40 + 5⟩ := by
  decide +kernel

end Rstmdb

import Rstmdb.Json.Pretty

/-! The text of an object that has been cut off. An object ends with its closing brace,
so no part of its text before that is the text of an object. -/
namespace Rstmdb.Json

theorem utf8EncodeChar_inj {c d : Char} {x y : Bytes}
    (h : String.utf8EncodeChar c ++ x = String.utf8EncodeChar d ++ y) : c = d ∧ x = y := by
  have hbytes : (String.utf8EncodeChar c).toByteArray ++ x.toByteArray =
      (String.utf8EncodeChar d).toByteArray ++ y.toByteArray := by
    rw [← List.toByteArray_append, ← List.toByteArray_append, h]
  have hchar : some c = some d := by
    rw [← ByteArray.utf8DecodeChar?_utf8EncodeChar_append (b := x.toByteArray), hbytes,
      ByteArray.utf8DecodeChar?_utf8EncodeChar_append]
  obtain rfl := Option.some.inj hchar
  exact ⟨rfl, List.append_cancel_left h⟩

theorem utf8Encode_split {cs ds : List Char} {r : Bytes}
    (h : cs.flatMap String.utf8EncodeChar = ds.flatMap String.utf8EncodeChar ++ r) :
    ∃ es, cs = ds ++ es ∧ r = es.flatMap String.utf8EncodeChar := by
  induction ds generalizing cs with
  | nil => exact ⟨cs, rfl, h.symm⟩
  | cons d ds ih =>
    rw [List.flatMap_cons, List.append_assoc] at h
    cases cs with
    | nil =>
      have hnil := (List.append_eq_nil_iff.mp h.symm).1
      exact absurd hnil String.utf8EncodeChar_ne_nil
    | cons c cs =>
      rw [List.flatMap_cons] at h
      obtain ⟨rfl, hrest⟩ := utf8EncodeChar_inj h
      obtain ⟨es, rfl, hes⟩ := ih hrest
      exact ⟨es, rfl, hes⟩

theorem prettyText_object_inj {fs gs : List (String × Value)} {x : List Char}
    (h : prettyText 0 (.object fs) = prettyText 0 (.object gs) ++ x) : fs = gs ∧ x = [] := by
  have hf := compact_prettyText 0 (.object fs) []
  rw [List.append_nil, h, compact_prettyText 0 (.object gs) x] at hf
  simp only [text, List.cons_append, List.cons.injEq, true_and] at hf
  obtain ⟨rfl, -⟩ := fieldsText_inj gs fs hf
  exact ⟨rfl, List.self_eq_append_right.mp h⟩

theorem toVecPretty_object_pos (fs : List (String × Value)) :
    0 < (toVecPretty (.object fs)).length := by
  rw [toVecPretty, prettyText, List.flatMap_cons, List.length_append]
  have hopen : 0 < (String.utf8EncodeChar (Char.ofNat 123)).length := by decide
  omega

/-- A strict part of the written object from its start is not a written object. -/
theorem toVecPretty_take_ne {fs : List (String × Value)} {n : Nat}
    (hn : n < (toVecPretty (.object fs)).length) (gs : List (String × Value)) :
    (toVecPretty (.object fs)).take n ≠ toVecPretty (.object gs) := by
  intro h
  have hwhole : toVecPretty (.object fs) =
      toVecPretty (.object gs) ++ (toVecPretty (.object fs)).drop n := by
    rw [← h, List.take_append_drop]
  obtain ⟨es, hes, hrest⟩ := utf8Encode_split hwhole
  obtain ⟨rfl, rfl⟩ := prettyText_object_inj hes
  exact absurd (List.drop_eq_nil_iff.mp hrest) (Nat.not_le.mpr hn)

end Rstmdb.Json

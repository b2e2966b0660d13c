import Rstmdb.Json.Text

/-! The indented text that `serde_json::to_vec_pretty` writes. Without the white
space between its tokens it is the compact text, so it determines the value too. -/
namespace Rstmdb.Json

def newline (depth : Nat) : List Char := '\n' :: List.replicate (2 * depth) ' '

mutual

def prettyText (depth : Nat) : Value → List Char
  | .null => ['n', 'u', 'l', 'l']
  | .bool b => if b then ['t', 'r', 'u', 'e'] else ['f', 'a', 'l', 's', 'e']
  | .number n => numberText n
  | .string s => stringText s
  | .array xs => '[' :: prettyElements depth xs
  | .object fs => Char.ofNat 123 :: prettyFields depth fs

def prettyElements (depth : Nat) : List Value → List Char
  | [] => [']']
  | v :: vs =>
    newline (depth + 1) ++ (prettyText (depth + 1) v ++ prettyMoreElements depth vs)

def prettyMoreElements (depth : Nat) : List Value → List Char
  | [] => newline depth ++ [']']
  | v :: vs =>
    ',' :: (newline (depth + 1) ++ (prettyText (depth + 1) v ++ prettyMoreElements depth vs))

def prettyFields (depth : Nat) : List (String × Value) → List Char
  | [] => [Char.ofNat 125]
  | (k, v) :: fs =>
    newline (depth + 1) ++ (stringText k ++
      ':' :: ' ' :: (prettyText (depth + 1) v ++ prettyMoreFields depth fs))

def prettyMoreFields (depth : Nat) : List (String × Value) → List Char
  | [] => newline depth ++ [Char.ofNat 125]
  | (k, v) :: fs =>
    ',' :: (newline (depth + 1) ++ (stringText k ++
      ':' :: ' ' :: (prettyText (depth + 1) v ++ prettyMoreFields depth fs)))

end

/-- Drops blanks and line ends outside strings. The flag says whether a string is
open; behind a backslash the next character is part of the string. -/
def compact : Bool → List Char → List Char
  | _, [] => []
  | false, c :: cs =>
    if c = ' ' ∨ c = '\n' then compact false cs else c :: compact (c = quote) cs
  | true, [c] => [c]
  | true, c :: d :: cs =>
    if c = backslash then c :: d :: compact true cs else c :: compact (c ≠ quote) (d :: cs)

/-- Characters that stand between strings and are kept there. -/
def plain (c : Char) : Bool := c ≠ ' ' && c ≠ '\n' && c ≠ quote

theorem compact_plain {cs : List Char} (h : cs.all plain = true) (x : List Char) :
    compact false (cs ++ x) = cs ++ compact false x := by
  induction cs with
  | nil => rfl
  | cons c cs ih =>
    simp only [List.all_cons, plain, Bool.and_eq_true, decide_eq_true_eq] at h
    obtain ⟨⟨⟨hs, hn⟩, hq⟩, hcs⟩ := h
    simp [compact, hs, hn, hq, ih hcs]

theorem compact_newline (depth : Nat) (x : List Char) :
    compact false (newline depth ++ x) = compact false x := by
  have blanks (k : Nat) : compact false (List.replicate k ' ' ++ x) = compact false x := by
    induction k with
    | zero => rfl
    | succ k ih => simp [List.replicate_succ, compact, ih]
  simp [newline, compact, blanks]

/-! ## Strings -/

theorem compact_open {c : Char} (hq : c ≠ quote) (hb : c ≠ backslash) (x : List Char) :
    compact true (c :: x) = c :: compact true x := by
  cases x with
  | nil => rfl
  | cons d x => simp [compact, hb, hq]

/-- Characters that neither end a string nor change the next one. -/
def unescaped (c : Char) : Bool := c ≠ quote && c ≠ backslash

theorem compact_open_all {cs : List Char} (h : cs.all unescaped = true) (x : List Char) :
    compact true (cs ++ x) = cs ++ compact true x := by
  induction cs with
  | nil => rfl
  | cons c cs ih =>
    simp only [List.all_cons, unescaped, Bool.and_eq_true, decide_eq_true_eq] at h
    rw [List.cons_append, compact_open h.1.1 h.1.2, ih h.2]
    rfl

theorem controlCode_open : ∀ n < 32, (controlCode n).all unescaped = true := by
  decide

theorem compact_charText (c : Char) (x : List Char) :
    compact true (charText c ++ x) = charText c ++ compact true x := by
  obtain ⟨hc, hq, hb⟩ | ⟨code, hc, hcode⟩ := charText_cases c
  · rw [hc]
    exact compact_open hq hb x
  · rw [hc]
    obtain ⟨-, rfl⟩ | ⟨-, rfl⟩ | ⟨hlow, rfl⟩ := hcode
    · simp [compact]
    · simp [compact]
    · -- A code begins behind the backslash and has no quote in it.
      obtain ⟨d, ds, hd, -⟩ := controlCode_head c.toNat
      have hopen := controlCode_open c.toNat hlow
      rw [hd, List.all_cons, Bool.and_eq_true] at hopen
      simp [hd, compact, compact_open_all hopen.2]

theorem compact_stringText (s : String) (x : List Char) :
    compact false (stringText s ++ x) = stringText s ++ compact false x := by
  have chars (cs : List Char) (y : List Char) :
      compact true (cs.flatMap charText ++ y) = cs.flatMap charText ++ compact true y := by
    induction cs with
    | nil => rfl
    | cons c cs ih =>
      rw [List.flatMap_cons, List.append_assoc, compact_charText, ih, List.append_assoc]
  have close : compact true (quote :: x) = quote :: compact false x := by
    cases x with
    | nil => rfl
    | cons d x => simp [compact, show quote ≠ backslash by decide]
  have start : compact false (quote :: (s.toList.flatMap charText ++ quote :: x)) =
      quote :: compact true (s.toList.flatMap charText ++ quote :: x) := by
    simp [compact, show quote ≠ ' ' by decide, show quote ≠ '\n' by decide]
  simp only [stringText, List.cons_append, List.append_assoc, List.nil_append]
  rw [start, chars, close]

/-! ## Values -/

theorem plain_of_isDigit {c : Char} (h : c.isDigit = true) : plain c = true := by
  have hne (d : Char) (hd : d.isDigit = false) : c ≠ d := by
    rintro rfl
    simp [hd] at h
  simp [plain, hne ' ' (by decide), hne '\n' (by decide), hne quote (by decide)]

theorem numberText_plain (n : Number) : (numberText n).all plain = true := by
  have digits (m : Nat) : (Nat.toDigits 10 m).all plain = true :=
    List.all_eq_true.mpr fun c hc =>
      plain_of_isDigit (Nat.isDigit_of_mem_toDigits (by decide) (by decide) hc)
  cases n with
  | posInt n => exact digits _
  | negInt n => simp [numberText, digits, show plain '-' = true by decide]
  | float bits =>
    simp [numberText, digits, show plain '.' = true by decide, show plain '0' = true by decide]

mutual

theorem compact_prettyText (depth : Nat) : ∀ (v : Value) (x : List Char),
    compact false (prettyText depth v ++ x) = text v ++ compact false x
  | .null, x => by
    rw [prettyText, text]
    exact compact_plain (by decide) x
  | .bool b, x => by
    rw [prettyText, text]
    cases b with
    | false | true => exact compact_plain (by decide) x
  | .number n, x => by
    rw [prettyText, text]
    exact compact_plain (numberText_plain n) x
  | .string s, x => by
    rw [prettyText, text]
    exact compact_stringText s x
  | .array xs, x => by
    rw [prettyText, text]
    have hopen := @compact_plain ['['] (by decide) (prettyElements depth xs ++ x)
    have rest := compact_prettyElements depth xs x
    simp_all
  | .object fs, x => by
    rw [prettyText, text]
    have hopen := @compact_plain [Char.ofNat 123] (by decide) (prettyFields depth fs ++ x)
    have rest := compact_prettyFields depth fs x
    simp_all

theorem compact_prettyElements (depth : Nat) : ∀ (vs : List Value) (x : List Char),
    compact false (prettyElements depth vs ++ x) = elementsText vs ++ compact false x
  | [], x => @compact_plain [']'] (by decide) x
  | v :: vs, x => by
    simp only [prettyElements, elementsText, List.append_assoc, compact_newline,
      compact_prettyText (depth + 1) v, compact_prettyMoreElements depth vs]

theorem compact_prettyMoreElements (depth : Nat) : ∀ (vs : List Value) (x : List Char),
    compact false (prettyMoreElements depth vs ++ x) = moreElementsText vs ++ compact false x
  | [], x => by
    simp only [prettyMoreElements, moreElementsText, List.append_assoc, compact_newline]
    exact @compact_plain [']'] (by decide) x
  | v :: vs, x => by
    have comma (y : List Char) := @compact_plain [','] (by decide) y
    simp only [List.cons_append, List.nil_append] at comma
    simp only [prettyMoreElements, moreElementsText, List.append_assoc, List.cons_append, comma,
      compact_newline, compact_prettyText (depth + 1) v, compact_prettyMoreElements depth vs]

theorem compact_prettyFields (depth : Nat) : ∀ (fs : List (String × Value)) (x : List Char),
    compact false (prettyFields depth fs ++ x) = fieldsText fs ++ compact false x
  | [], x => @compact_plain [Char.ofNat 125] (by decide) x
  | (k, v) :: fs, x => by
    have colon (y : List Char) : compact false (':' :: ' ' :: y) = ':' :: compact false y := rfl
    simp only [prettyFields, fieldsText, List.append_assoc, List.cons_append, compact_newline,
      compact_stringText, colon, compact_prettyText (depth + 1) v,
      compact_prettyMoreFields depth fs]

theorem compact_prettyMoreFields (depth : Nat) : ∀ (fs : List (String × Value)) (x : List Char),
    compact false (prettyMoreFields depth fs ++ x) = moreFieldsText fs ++ compact false x
  | [], x => by
    simp only [prettyMoreFields, moreFieldsText, List.append_assoc, compact_newline]
    exact @compact_plain [Char.ofNat 125] (by decide) x
  | (k, v) :: fs, x => by
    have comma (y : List Char) := @compact_plain [','] (by decide) y
    simp only [List.cons_append, List.nil_append] at comma
    have colon (y : List Char) : compact false (':' :: ' ' :: y) = ':' :: compact false y := rfl
    simp only [prettyMoreFields, moreFieldsText, List.append_assoc, List.cons_append, comma,
      compact_newline, compact_stringText, colon, compact_prettyText (depth + 1) v,
      compact_prettyMoreFields depth fs]

end

/-- `serde_json::to_vec_pretty` on a value. -/
def toVecPretty (v : Value) : Bytes := (prettyText 0 v).flatMap String.utf8EncodeChar

theorem toVecPretty_injective : Function.Injective toVecPretty := by
  intro v w h
  have htext : prettyText 0 v = prettyText 0 w := utf8Encode_injective h
  have hv := compact_prettyText 0 v []
  have hw := compact_prettyText 0 w []
  rw [htext, hw] at hv
  simp only [compact, List.append_nil] at hv
  exact (text_inj v w (x := []) (y := []) (by simp [Stops]) (by simp [Stops])
    (by simp [hv])).1

end Rstmdb.Json

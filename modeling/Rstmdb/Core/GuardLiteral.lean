import Rstmdb.Core.GuardRender
import Rstmdb.Json.Text

/-! String literals in guards. The parser finds the end of a literal, and skips the
character behind a backslash on the way, but it takes the text between the quotes as
it stands. A literal means the string it writes only when it writes it without a
backslash. -/
namespace Rstmdb
open Json (Value charText stringText)

/-- A name of letters, digits and underscores. -/
def isName (name : List Char) : Bool :=
  !name.isEmpty && name.all fun c => c.isAlphanum || c == '_'

/-- The characters that a JSON string writes with a backslash. -/
def isEscaped (c : Char) : Bool := c == Json.quote || c == Json.backslash || c.toNat < 32

/-- The guard that compares a field with a string. -/
def literalGuard (field v : String) : String :=
  String.ofList
    ("ctx.".toList ++ field.toList ++ [' '] ++ "==".toList ++ [' '] ++ stringText v)

/-- The text between the quotes of the string's literal. -/
def literalBody (v : String) : List Char := v.toList.flatMap charText

/-! ## The literal is quotable -/

/-- An ASCII character that neither ends a string nor begins an escape. -/
def isBodyChar (c : Char) : Bool := isByte c && c != Json.quote && c != Json.backslash

theorem isQuotable_plain {c : Char} (hquote : c ≠ Char.ofNat 34) (hback : c ≠ Char.ofNat 92)
    (cs : List Char) : isQuotable (c :: cs) = (isByte c && isQuotable cs) := by
  rw [isQuotable.eq_def]
  simp only [if_neg hquote, if_neg hback]

theorem isQuotable_escape (c : Char) (cs : List Char) :
    isQuotable (Json.backslash :: c :: cs) = (isByte c && isQuotable cs) := rfl

theorem isQuotable_bodyChars {l : List Char} (h : l.all isBodyChar = true) (cs : List Char) :
    isQuotable (l ++ cs) = isQuotable cs := by
  induction l with
  | nil => rfl
  | cons c l ih =>
    simp only [List.all_cons, isBodyChar, Bool.and_eq_true, bne_iff_ne, ne_eq] at h
    obtain ⟨⟨⟨hbyte, hquote⟩, hback⟩, hl⟩ := h
    rw [List.cons_append, isQuotable_plain hquote hback, hbyte, Bool.true_and]
    exact ih hl

theorem isBodyChar_controlCode : ∀ n < 32, (Json.controlCode n).all isBodyChar = true := by
  decide

/-- Behind what is written for a character, the literal goes on. -/
theorem isQuotable_charText {c : Char} (hc : isByte c = true) (cs : List Char) :
    isQuotable (charText c ++ cs) = isQuotable cs := by
  obtain ⟨htext, hquote, hback⟩ | ⟨code, htext, hcode⟩ := Json.charText_cases c
  · rw [htext]
    exact isQuotable_bodyChars (by simp [isBodyChar, hc, hquote, hback]) cs
  · obtain ⟨-, rfl⟩ | ⟨-, rfl⟩ | ⟨hcontrol, rfl⟩ := hcode
    · rw [htext]
      exact isQuotable_escape Json.quote cs
    · rw [htext]
      exact isQuotable_escape Json.backslash cs
    · have hall := isBodyChar_controlCode c.toNat hcontrol
      obtain ⟨d, ds, hd, -, -⟩ := Json.controlCode_head c.toNat
      rw [hd, List.all_cons, Bool.and_eq_true] at hall
      have hbyte : isByte d = true := by
        have hbody := hall.1
        simp only [isBodyChar, Bool.and_eq_true] at hbody
        exact hbody.1.1
      rw [htext, hd, List.cons_append, List.cons_append, isQuotable_escape, hbyte, Bool.true_and]
      exact isQuotable_bodyChars hall.2 cs

theorem isQuotable_literalBody {v : String} (hv : ∀ c ∈ v.toList, isByte c = true) :
    isQuotable (literalBody v) = true := by
  unfold literalBody
  generalize v.toList = l at hv
  induction l with
  | nil => rfl
  | cons c cs ih =>
    rw [List.flatMap_cons, isQuotable_charText (hv c List.mem_cons_self)]
    exact ih fun d hd => hv d (List.mem_cons_of_mem c hd)

/-! ## What the literal is taken for -/

theorem isPath_of_isName {name : List Char} (h : isName name = true) : isPath name = true := by
  have hrest : ∀ (l : List Char) (begun : Bool), (l.all fun c => c.isAlphanum || c == '_') = true →
      (begun = true ∨ l ≠ []) → isPathFrom begun l = true := by
    intro l
    induction l with
    | nil =>
      intro begun _ hb
      simpa [isPathFrom] using hb
    | cons c l ih =>
      intro begun hall _
      rw [List.all_cons, Bool.and_eq_true] at hall
      have hpoint : c ≠ '.' := by
        rintro rfl
        exact absurd hall.1 (by decide)
      rw [isPathFrom, if_neg hpoint, hall.1, Bool.true_and]
      exact ih true hall.2 (.inl rfl)
  simp only [isName, Bool.and_eq_true, Bool.not_eq_true', List.isEmpty_eq_false_iff] at h
  exact hrest name false h.2 (.inr h.1)

theorem getField_single {field : String} (h : isName field.toList = true) (w : Value) :
    getField (.object [(field, w)]) field = w := by
  have hsplit : field.toList.splitOn '.' = [field.toList] := by
    apply List.splitOnP_eq_singleton
    intro c hmem
    rw [beq_eq_false_iff_ne]
    rintro rfl
    simp only [isName, Bool.and_eq_true] at h
    exact absurd (List.all_eq_true.mp h.2 '.' hmem) (by decide)
  simp [getField, hsplit, getParts, Json.Fields.get?]

theorem parse_literalGuard {std : StdText} (hstd : std.OnAscii) {field v : String}
    (hfield : isName field.toList = true) (hv : ∀ c ∈ v.toList, isByte c = true) :
    GuardExpr.parse std (literalGuard field v) =
      some (.ok (.eq field (.string (String.ofList (literalBody v))))) := by
  have hblank : Blank [' '] := by
    intro c hc
    cases List.mem_singleton.mp hc
    decide
  have hop : ("==", GuardExpr.eq) ∈ equalities := List.mem_cons_self
  have hcomparison := Comparison.value (isPath_of_isName hfield) hblank hop hblank
    (@Literal.string std _ (isQuotable_literalBody hv))
  have hparse := parse_of_derives hstd (.chain (.unary (.comparison hcomparison)))
    (l := []) (r := []) (by simp [Blank]) (by simp [Blank])
  rw [String.ofList_toList, List.nil_append, List.append_nil] at hparse
  exact hparse

theorem charText_of_not_escaped {c : Char} (h : isEscaped c = false) : charText c = [c] := by
  simp only [isEscaped, Bool.or_eq_false_iff, beq_eq_false_iff_ne, ne_eq, decide_eq_false_iff_not]
    at h
  simp only [charText, h.1.1, h.1.2, h.2, if_false]

theorem length_charText (c : Char) : (charText c).length ≥ 1 + (isEscaped c).toNat := by
  cases h : isEscaped c with
  | false => rw [charText_of_not_escaped h]; rfl
  | true =>
    obtain ⟨-, hquote, hback⟩ | ⟨code, htext, hcode⟩ := Json.charText_cases c
    · have hcontrol : c.toNat < 32 := by simpa [isEscaped, hquote, hback] using h
      simp only [charText, hquote, hback, hcontrol, if_true, if_false, List.length_cons]
      obtain ⟨d, ds, hd, -, -⟩ := Json.controlCode_head c.toNat
      simp [hd]
    · have hne : code ≠ [] := by
        obtain ⟨-, rfl⟩ | ⟨-, rfl⟩ | ⟨-, rfl⟩ := hcode
        · simp
        · simp
        · obtain ⟨d, ds, hd, -, -⟩ := Json.controlCode_head c.toNat
          simp [hd]
      have := List.length_pos_of_ne_nil hne
      simp only [htext, List.length_cons, Bool.toNat_true]
      omega

theorem length_flatMap_charText (l : List Char) :
    l.length + l.countP isEscaped ≤ (l.flatMap charText).length := by
  induction l with
  | nil => exact le_rfl
  | cons c l ih =>
    have hc := length_charText c
    rw [List.flatMap_cons, List.length_append, List.length_cons, List.countP_cons]
    cases h : isEscaped c with
    | false =>
      simp only [h, Bool.toNat_false, Bool.false_eq_true, if_false] at hc ⊢
      omega
    | true =>
      simp only [h, Bool.toNat_true, if_true] at hc ⊢
      omega

/-- The text between the quotes is the string when no character is escaped. -/
theorem literalBody_eq_iff (v : String) :
    literalBody v = v.toList ↔ ∀ c ∈ v.toList, isEscaped c = false := by
  unfold literalBody
  constructor
  · intro hsame
    have hlength := length_flatMap_charText v.toList
    rw [hsame] at hlength
    have hnone : v.toList.countP isEscaped = 0 := by omega
    simpa [List.countP_eq_zero] using hnone
  · intro hnone
    generalize v.toList = l at hnone
    induction l with
    | nil => rfl
    | cons c l ih =>
      rw [List.flatMap_cons, charText_of_not_escaped (hnone c List.mem_cons_self),
        ih fun d hd => hnone d (List.mem_cons_of_mem c hd)]
      rfl

theorem evaluate_eq_string {field : String} (h : isName field.toList = true) (s : String)
    (w : Value) :
    (GuardExpr.eq field (.string s)).evaluate (.object [(field, w)]) = true ↔ w = .string s := by
  rw [GuardExpr.evaluate, getField_single h]
  cases w <;> simp [valuesEqual]

/-- For an ASCII string, the guard that compares a field with its JSON literal is parsed,
and is true of that string only, exactly when the literal escapes no character. -/
theorem literal_means_string_iff {std : StdText} (hstd : std.OnAscii) {field v : String}
    (hfield : isName field.toList = true) (hv : ∀ c ∈ v.toList, isByte c = true) :
    (∃ e, GuardExpr.parse std (literalGuard field v) = some (.ok e) ∧
        ∀ w, e.evaluate (.object [(field, w)]) = true ↔ w = .string v) ↔
      ∀ c ∈ v.toList, isEscaped c = false := by
  rw [← literalBody_eq_iff]
  constructor
  · rintro ⟨e, hparse, hmeans⟩
    cases (parse_literalGuard hstd hfield hv).symm.trans hparse
    have hself := (evaluate_eq_string hfield _ (.string v)).mp ((hmeans _).mpr rfl)
    have htext := congrArg String.toList (Value.string.inj hself)
    rw [String.toList_ofList] at htext
    exact htext.symm
  · intro hbody
    refine ⟨_, parse_literalGuard hstd hfield hv, fun w => ?_⟩
    rw [hbody, String.ofList_toList]
    exact evaluate_eq_string hfield v w

/-- A string without such characters. -/
theorem literal_means_string_plain :
    ∃ e, GuardExpr.parse asciiText (literalGuard "f" "a && b") = some (.ok e) ∧
      ∀ w, e.evaluate (.object [("f", w)]) = true ↔ w = .string "a && b" := by
  have hbytes : "a && b".toList.all isByte = true := by decide +kernel
  have hplain : ("a && b".toList.all fun c => !isEscaped c) = true := by decide +kernel
  refine (literal_means_string_iff asciiText_onAscii (by decide +kernel)
    (List.all_eq_true.mp hbytes)).mpr ?_
  simpa using hplain

/-- The literal of a quotation mark is taken for a backslash and a quotation mark. -/
theorem literal_of_quote :
    literalGuard "f" "\"" = "ctx.f == \"\\\"\"" ∧
      ∃ e, GuardExpr.parse asciiText (literalGuard "f" "\"") = some (.ok e) ∧
        e.evaluate (.object [("f", .string "\"")]) = false ∧
        e.evaluate (.object [("f", .string "\\\"")]) = true := by
  have hbytes : "\"".toList.all isByte = true := by decide +kernel
  refine ⟨by decide +kernel, _, parse_literalGuard asciiText_onAscii (by decide +kernel)
    (List.all_eq_true.mp hbytes), by decide +kernel, by decide +kernel⟩

end Rstmdb

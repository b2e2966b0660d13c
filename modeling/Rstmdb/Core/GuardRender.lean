import Rstmdb.Core.GuardScan

/-! Every text of the grammar is parsed to its tree. The induction goes over the
derivation; a chain of operands leaves the parser inside of its loop, with what it has
read so far on the left. -/
namespace Rstmdb
open Json (Value Number F64)

namespace Parser

section
variable {std : StdText} {input : List Char}

variable {pos depth : Nat} {l rest cs : List Char} {e : GuardExpr}

theorem skipWhitespace_blank (hpos : suffixAt input pos = some (l ++ rest)) (hl : Blank l)
    (hrest : Past isWhitespace rest) :
    ∃ pos', skipWhitespace input pos = some (.ok ((), pos')) ∧
      suffixAt input pos' = some rest := by
  have hshows := simulates_skipWhitespace pos (l ++ rest) hpos
  rw [skipSpace_append hl hrest] at hshows
  exact hshows

/-- What the parser has done once the text of `e` is behind it, and `rest` comes next. -/
def Done (std : StdText) (input : List Char) (depth : Nat) (e : GuardExpr) (rest : List Char)
    (pos : Nat) : Level → Prop
  | .unary => ∃ pos' r, parseUnary std input depth pos = some (.ok (e, pos')) ∧
      suffixAt input pos' = some (r ++ rest) ∧ Blank r
  | .and => ∃ pos' fuel, parseAnd input (parseUnary std input depth) pos =
        operands input "&&" .and (parseUnary std input depth) e fuel pos' ∧
      suffixAt input pos' = some rest ∧ rest.length < fuel
  | .or => ∃ pos' fuel, parseOr input (parseUnary std input depth) pos =
        operands input "||" .or (parseAnd input (parseUnary std input depth)) e fuel pos' ∧
      suffixAt input pos' = some rest ∧ rest.length < fuel

variable {op : String} {combine : GuardExpr → GuardExpr → GuardExpr} {operand : Parse GuardExpr}
  {fuel : Nat}

/-- A loop over operands ends where its operator does not come. -/
theorem operands_end (hpos : suffixAt input pos = some rest) (hfuel : rest.length < fuel)
    (hop : op.toList.isPrefixOf rest = false) :
    operands input op combine operand e fuel pos = some (.ok (e, pos)) := by
  obtain ⟨fuel, rfl⟩ : ∃ f, fuel = f + 1 := ⟨fuel - 1, by omega⟩
  rw [operands, bind_ok (peekStr_eq hpos op), hop, if_neg Bool.false_ne_true]
  rfl

theorem operands_next (hop : op = "&&" ∨ op = "||") {e' : GuardExpr} {r : List Char}
    (hpos : suffixAt input pos = some (op.toList ++ (r ++ cs)))
    (hfuel : (op.toList ++ (r ++ cs)).length < fuel) (hr : Blank r) (hcs : Past isWhitespace cs)
    (hoperand : ∀ pos, suffixAt input pos = some cs → ∃ pos' r',
      operand pos = some (.ok (e', pos')) ∧ suffixAt input pos' = some (r' ++ rest) ∧ Blank r')
    (hrest : Past isWhitespace rest) (hshort : rest.length ≤ cs.length) :
    ∃ pos' fuel', operands input op combine operand e fuel pos =
        operands input op combine operand (combine e e') fuel' pos' ∧
      suffixAt input pos' = some rest ∧ rest.length < fuel' := by
  obtain ⟨fuel, rfl⟩ : ∃ f, fuel = f + 1 := ⟨fuel - 1, by omega⟩
  have hlength : op.toList.length = 2 := by obtain rfl | rfl := hop <;> rfl
  have hbytes : op.toList.all isByte = true := by obtain rfl | rfl := hop <;> decide
  have hpos₁ : suffixAt input (pos + 2) = some (r ++ cs) := by
    rw [← hlength]
    exact suffixAt_bytes hpos hbytes
  obtain ⟨pos₂, hskip, hpos₂⟩ := skipWhitespace_blank hpos₁ hr hcs
  obtain ⟨pos₃, r', hrun, hpos₃, hr'⟩ := hoperand pos₂ hpos₂
  obtain ⟨pos₄, hskip', hpos₄⟩ := skipWhitespace_blank hpos₃ hr' hrest
  refine ⟨pos₄, fuel, ?_, hpos₄, ?_⟩
  · have hprefix : op.toList.isPrefixOf (op.toList ++ (r ++ cs)) = true :=
      List.isPrefixOf_iff_prefix.mpr (List.prefix_append _ _)
    rw [operands, bind_ok (peekStr_eq hpos op), hprefix, if_pos rfl, bind_ok (advance_eq _ _),
      bind_ok hskip, bind_ok hrun, bind_ok hskip']
  · simp [hlength] at hfuel
    omega

theorem parseUnary_comparison (hpos : suffixAt input pos = some (l ++ cs)) (hl : Blank l)
    (hcs : cs.head? = some 'c') (hread : readComparison std cs = .ok e rest) :
    ∃ pos', parseUnary std input (depth + 1) pos = some (.ok (e, pos')) ∧
      suffixAt input pos' = some rest := by
  have hpast : Past isWhitespace cs := by
    intro c hc
    cases hcs.symm.trans hc
    decide
  obtain ⟨pos₁, hskip, hpos₁⟩ := skipWhitespace_blank hpos hl hpast
  have hnot : cs.head? ≠ some '!' := by simp [hcs]
  have hparen : cs.head? ≠ some '(' := by simp [hcs]
  have hshows := simulates_parseComparison std pos₁ cs hpos₁
  rw [hread] at hshows
  rw [parseUnary, bind_ok hskip, bind_ok (peekChar_eq hpos₁), if_neg hnot, parsePrimary,
    bind_ok (skipWhitespace_past hpos₁ hpast), bind_ok (peekChar_eq hpos₁), if_neg hparen]
  exact hshows

theorem parseUnary_not {l' : List Char} (hpos : suffixAt input pos = some (l ++ '!' :: (l' ++ cs)))
    (hl : Blank l) (hl' : Blank l') (hcs : Past isWhitespace cs)
    (hunary : ∀ pos, suffixAt input pos = some cs →
      ∃ pos' r, parseUnary std input depth pos = some (.ok (e, pos')) ∧
        suffixAt input pos' = some (r ++ rest) ∧ Blank r) :
    ∃ pos' r, parseUnary std input (depth + 1) pos = some (.ok (.not e, pos')) ∧
      suffixAt input pos' = some (r ++ rest) ∧ Blank r := by
  obtain ⟨pos₁, hskip, hpos₁⟩ := skipWhitespace_blank hpos hl (.cons (by decide) _)
  have hpos₂ : suffixAt input (pos₁ + 1) = some (l' ++ cs) :=
    suffixAt_bytes (l := ['!']) hpos₁ (by decide)
  obtain ⟨pos₃, hskip', hpos₃⟩ := skipWhitespace_blank hpos₂ hl' hcs
  obtain ⟨pos₄, r, hrun, hpos₄, hr⟩ := hunary pos₃ hpos₃
  refine ⟨pos₄, r, ?_, hpos₄, hr⟩
  rw [parseUnary, bind_ok hskip, bind_ok (peekChar_eq hpos₁), if_pos List.head?_cons,
    bind_ok (advance_eq _ _), bind_ok hskip', bind_ok hrun]
  rfl

theorem parseUnary_paren (hpos : suffixAt input pos = some (l ++ '(' :: cs)) (hl : Blank l)
    (hor : ∀ pos, suffixAt input pos = some cs →
      ∃ pos', parseOr input (parseUnary std input depth) pos = some (.ok (e, pos')) ∧
        suffixAt input pos' = some (')' :: rest)) :
    ∃ pos', parseUnary std input (depth + 1) pos = some (.ok (e, pos')) ∧
      suffixAt input pos' = some rest := by
  have hpast : Past isWhitespace ('(' :: cs) := .cons (by decide) _
  have hclose : Past isWhitespace (')' :: rest) := .cons (by decide) _
  obtain ⟨pos₁, hskip, hpos₁⟩ := skipWhitespace_blank hpos hl hpast
  have hpos₂ : suffixAt input (pos₁ + 1) = some cs :=
    suffixAt_bytes (l := ['(']) hpos₁ (by decide)
  obtain ⟨pos₃, hrun, hpos₃⟩ := hor _ hpos₂
  refine ⟨pos₃ + 1, ?_, suffixAt_bytes (l := [')']) hpos₃ (by decide)⟩
  rw [parseUnary, bind_ok hskip, bind_ok (peekChar_eq hpos₁), if_neg (by simp), parsePrimary,
    bind_ok (skipWhitespace_past hpos₁ hpast), bind_ok (peekChar_eq hpos₁),
    if_pos List.head?_cons, bind_ok (advance_eq _ _), bind_ok hrun,
    bind_ok (skipWhitespace_past hpos₃ hclose),
    bind_ok (peekChar_eq hpos₃), if_neg (by simp), bind_ok (advance_eq _ _)]
  rfl

end

end Parser

section
variable {std : StdText}

variable {t : List Char} {e : GuardExpr}

theorem Comparison.head (h : Comparison std t e) : t.head? = some 'c' := by
  cases h with
  | truthy => rfl
  | value | number => simp

theorem Derives.head {level : Level} (h : Derives std level t e) :
    ∃ c, t.head? = some c ∧ isWhitespace c = false := by
  induction h with
  | comparison h => exact ⟨'c', h.head, by decide⟩
  | paren => exact ⟨'(', rfl, by decide⟩
  | not => exact ⟨'!', rfl, by decide⟩
  | unary _ ih | chain _ ih => exact ih
  | and _ _ _ _ ih | or _ _ _ _ ih =>
    obtain ⟨c, hc, hspace⟩ := ih
    exact ⟨c, by simp [List.head?_append, hc], hspace⟩

theorem Derives.past {level : Level} (h : Derives std level t e) (rest : List Char) :
    Past isWhitespace (t ++ rest) := by
  obtain ⟨c, hc, hspace⟩ := h.head
  intro d hd
  rw [List.head?_append, hc] at hd
  cases hd
  exact hspace

end

namespace Parser

section
variable {std : StdText} {input : List Char}

theorem done_of_derives (hstd : std.OnAscii) {level : Level} {t : List Char} {e : GuardExpr}
    (h : Derives std level t e) {depth pos : Nat} {l r rest : List Char} (hdepth : t.length < depth)
    (hpos : suffixAt input pos = some (l ++ (t ++ (r ++ rest)))) (hl : Blank l) (hr : Blank r)
    (hstop : Stop rest) (hand : level = .or → "&&".toList.isPrefixOf rest = false) :
    Done std input depth e rest pos level := by
  induction h generalizing depth pos l r rest with
  | comparison h =>
    obtain ⟨depth, rfl⟩ : ∃ d, depth = d + 1 := ⟨depth - 1, by omega⟩
    obtain ⟨r', hr', hread⟩ := readComparison_append hstd (l := []) (by simp [Blank]) h hr hstop
    obtain ⟨pos', hrun, hpos'⟩ := parseUnary_comparison hpos hl
      (by rw [List.head?_append, h.head]; rfl) hread
    exact ⟨pos', r', hrun, hpos', hr'⟩
  | paren hl' h hr' ih =>
    obtain ⟨depth, rfl⟩ : ∃ d, depth = d + 1 := ⟨depth - 1, by omega⟩
    rename_i l' t r' e
    have hcs : suffixAt input pos =
        some (l ++ '(' :: (l' ++ (t ++ (r' ++ ')' :: (r ++ rest))))) := by
      simpa using hpos
    -- Up to the closing parenthesis.
    have hinner (pos : Nat)
        (hpos : suffixAt input pos = some (l' ++ (t ++ (r' ++ ')' :: (r ++ rest))))) :
        ∃ pos', parseOr input (parseUnary std input depth) pos = some (.ok (e, pos')) ∧
          suffixAt input pos' = some (')' :: (r ++ rest)) := by
      have hlen : t.length < depth := by simp at hdepth; omega
      obtain ⟨pos', fuel, hrun, hpos', hfuel⟩ := ih hlen hpos hl' hr'
        (by intro c hc; cases hc; decide) (fun _ => rfl)
      exact ⟨pos', hrun.trans (operands_end hpos' hfuel rfl), hpos'⟩
    obtain ⟨pos', hrun, hpos'⟩ := parseUnary_paren hcs hl hinner
    exact ⟨pos', r, hrun, hpos', hr⟩
  | not hl' h ih =>
    obtain ⟨depth, rfl⟩ : ∃ d, depth = d + 1 := ⟨depth - 1, by omega⟩
    rename_i l' t e
    have hcs : suffixAt input pos = some (l ++ '!' :: (l' ++ (t ++ (r ++ rest)))) := by
      simpa using hpos
    have hlen : t.length < depth := by simp at hdepth; omega
    exact parseUnary_not hcs hl hl' (h.past _) fun pos hpos =>
      ih (l := []) hlen hpos (by simp [Blank]) hr hstop (by simp)
  | unary h ih =>
    obtain ⟨pos₁, r', hrun, hpos₁, hr'⟩ := ih hdepth hpos hl hr hstop (by simp)
    obtain ⟨pos₂, hskip, hpos₂⟩ := skipWhitespace_blank hpos₁ hr' (hstop.past (by decide))
    refine ⟨pos₂, byteLength input + 1, ?_, hpos₂, length_lt_fuel hpos₂⟩
    rw [parseAnd, bind_ok hrun, bind_ok hskip]
  | and h hl' hr' h' ih ih' =>
    rename_i t l' r' t' e e'
    have hcs : suffixAt input pos =
        some (l ++ (t ++ (l' ++ ("&&".toList ++ (r' ++ (t' ++ (r ++ rest))))))) := by
      simpa using hpos
    have hlen : t.length < depth ∧ t'.length < depth := by simp at hdepth; omega
    obtain ⟨pos₁, fuel, hrun, hpos₁, hfuel⟩ := ih hlen.1 hcs hl hl'
      (by intro c hc; cases hc; decide) (by simp)
    have hoperand (pos : Nat) (hpos : suffixAt input pos = some (t' ++ (r ++ rest))) :
        Done std input depth e' rest pos .unary :=
      ih' (l := []) hlen.2 hpos (by simp [Blank]) hr hstop (by simp)
    obtain ⟨pos₂, fuel', hnext, hpos₂, hfuel'⟩ := operands_next (.inl rfl) hpos₁ hfuel hr'
      (h'.past _) hoperand (hstop.past (by decide)) (by simp; omega)
    exact ⟨pos₂, fuel', hrun.trans hnext, hpos₂, hfuel'⟩
  | chain h ih =>
    obtain ⟨pos₁, fuel, hrun, hpos₁, hfuel⟩ := ih hdepth hpos hl hr hstop (by simp)
    refine ⟨pos₁, byteLength input + 1, ?_, hpos₁, length_lt_fuel hpos₁⟩
    rw [parseOr, bind_ok (hrun.trans (operands_end hpos₁ hfuel (hand rfl))),
      bind_ok (skipWhitespace_past hpos₁ (hstop.past (by decide)))]
  | or h hl' hr' h' ih ih' =>
    rename_i t l' r' t' e e'
    have hcs : suffixAt input pos =
        some (l ++ (t ++ (l' ++ ("||".toList ++ (r' ++ (t' ++ (r ++ rest))))))) := by
      simpa using hpos
    have hlen : t.length < depth ∧ t'.length < depth := by simp at hdepth; omega
    obtain ⟨pos₁, fuel, hrun, hpos₁, hfuel⟩ := ih hlen.1 hcs hl hl'
      (by intro c hc; cases hc; decide) (fun _ => rfl)
    have hoperand (pos : Nat) (hpos : suffixAt input pos = some (t' ++ (r ++ rest))) :
        ∃ pos' r'', parseAnd input (parseUnary std input depth) pos = some (.ok (e', pos')) ∧
          suffixAt input pos' = some (r'' ++ rest) ∧ Blank r'' := by
      obtain ⟨pos', fuel, hrun, hpos', hfuel⟩ := ih' (l := []) hlen.2 hpos (by simp [Blank]) hr
        hstop (by simp)
      exact ⟨pos', [], hrun.trans (operands_end hpos' hfuel (hand rfl)), hpos', by simp [Blank]⟩
    obtain ⟨pos₂, fuel', hnext, hpos₂, hfuel'⟩ := operands_next (.inr rfl) hpos₁ hfuel hr'
      (h'.past _) hoperand (hstop.past (by decide)) (by simp; omega)
    exact ⟨pos₂, fuel', hrun.trans hnext, hpos₂, hfuel'⟩

end

end Parser

/-! ## Texts with blanks around them -/

theorem Past.reverse_append {p : Char → Bool} {a b : List Char} (hne : b ≠ [])
    (h : Past p b.reverse) : Past p (a ++ b).reverse := by
  intro c hc
  rw [List.reverse_append, List.head?_append_of_ne_nil _ (by simpa using hne)] at hc
  exact h c hc

variable {t : List Char} {std : StdText} {e : GuardExpr}

theorem Past.reverse_of_forall {p : Char → Bool} (h : ∀ c ∈ t, p c = false) : Past p t.reverse := by
  intro c hc
  exact h c (List.mem_reverse.mp (List.mem_of_mem_head? (Option.mem_def.mpr hc)))

theorem trim_append {l r : List Char} (hl : Blank l) (hr : Blank r)
    (ht : Past isWhitespace (t ++ r)) (ht' : Past isWhitespace t.reverse) :
    trim (l ++ (t ++ r)) = t := by
  have hr' : ∀ c ∈ r.reverse, isWhitespace c = true :=
    fun c hc => (hr c (List.mem_reverse.mp hc)).1
  unfold trim
  rw [List.dropWhile_append_of_pos fun c hc => (hl c hc).1, (takeWhile_of_past ht).2,
    List.reverse_append, List.dropWhile_append_of_pos hr', (takeWhile_of_past ht').2,
    List.reverse_reverse]

theorem trim_split (s : List Char) :
    ∃ l r, s = l ++ (trim s ++ r) ∧ (∀ c ∈ l, isWhitespace c = true) ∧
      ∀ c ∈ r, isWhitespace c = true := by
  refine ⟨s.takeWhile isWhitespace,
    ((s.dropWhile isWhitespace).reverse.takeWhile isWhitespace).reverse, ?_,
    fun c hc => List.mem_takeWhile_imp hc, fun c hc => ?_⟩
  · rw [trim, ← List.reverse_append, List.takeWhile_append_dropWhile, List.reverse_reverse,
      List.takeWhile_append_dropWhile]
  · exact List.mem_takeWhile_imp (List.mem_reverse.mp hc)

theorem isWhitespace_of_path {c : Char} (h : c.isAlphanum = true ∨ c = '_' ∨ c = '.') :
    isWhitespace c = false := by
  obtain h | rfl | rfl := h
  · by_contra hspace
    have := isBreak_of_blank (by simpa using hspace) (isByte_of_isAlphanum h)
    simp [isBreak, h] at this
  · decide
  · decide

theorem Numeral.not_space (h : Numeral t) : ∀ c ∈ t, isWhitespace c = false := by
  have hdigit {c : Char} (hc : Parser.isAsciiDigit c = true) : isWhitespace c = false :=
    forall_ascii (P := fun c => Parser.isAsciiDigit c = true → isWhitespace c = false)
      (by decide) (Parser.isByte_of_digit hc) hc
  obtain ⟨hsign, hwhole, hfraction⟩ := h
  rename_i sign whole fraction
  intro c hc
  simp only [List.mem_append] at hc
  obtain (hc | hc) | hc := hc
  · obtain rfl | rfl := hsign
    · cases hc
    · cases List.mem_singleton.mp hc
      decide
  · exact hdigit (hwhole c hc)
  · obtain rfl | ⟨ds, rfl, hds⟩ := hfraction
    · cases hc
    · obtain rfl | hc := List.mem_cons.mp hc
      · decide
      · exact hdigit (hds c hc)

section
variable {std : StdText} (hstd : std.OnAscii)
include hstd

variable {t : List Char} {e : GuardExpr}

theorem Literal.last {v : Value} (h : Literal std t v) : t ≠ [] ∧ Past isWhitespace t.reverse := by
  cases h with
  | true | false | null => exact ⟨by simp, .cons (by decide) _⟩
  | string h => exact ⟨by simp, Past.reverse_append (by simp) (.cons (by decide) [])⟩
  | number h hf hn => exact ⟨ne_nil_of_parseF64 hstd hf, .reverse_of_forall h.not_space⟩

theorem Comparison.last (h : Comparison std t e) : Past isWhitespace t.reverse := by
  cases h with
  | truthy h =>
    refine Past.reverse_append ?_ (.reverse_of_forall fun c hc =>
      isWhitespace_of_path (mem_of_isPathFrom h c hc))
    rintro rfl
    cases h
  | value h hl hop hr ht =>
    obtain ⟨hne, hlast⟩ := ht.last hstd
    exact Past.reverse_append hne hlast
  | number h hl hop hr ht hf =>
    exact Past.reverse_append (ne_nil_of_parseF64 hstd hf) (.reverse_of_forall ht.not_space)

theorem Derives.last {level : Level} (h : Derives std level t e) : Past isWhitespace t.reverse := by
  have hne {level : Level} {t : List Char} {e : GuardExpr} (h : Derives std level t e) :
      t ≠ [] := by
    rintro rfl
    obtain ⟨c, hc, -⟩ := h.head
    cases hc
  induction h with
  | comparison h => exact h.last hstd
  | paren => exact Past.reverse_append (by simp) (.cons (by decide) [])
  | not _ h ih => exact Past.reverse_append (hne h) ih
  | unary _ ih | chain _ ih => exact ih
  | and _ _ _ h' _ ih' | or _ _ _ h' _ ih' => exact Past.reverse_append (hne h') ih'

/-- A text of the grammar is parsed, and it is read to its end. -/
theorem parseExpr_of_derives (h : Derives std .or t e) :
    ∃ pos, Parser.parseExpr std t 0 = some (.ok (e, pos)) ∧ suffixAt t pos = some [] := by
  have hdepth : t.length < byteLength t + 1 := Nat.lt_succ_of_le (length_le_byteLength t)
  obtain ⟨pos, fuel, hrun, hpos, hfuel⟩ := @Parser.done_of_derives _ t hstd _ _ _ h _ 0 [] [] []
    hdepth (by simp [suffixAt]) (by simp [Blank])
    (by simp [Blank]) (by intro c hc; cases hc) (fun _ => rfl)
  exact ⟨pos, hrun.trans (Parser.operands_end hpos hfuel rfl), hpos⟩

theorem parse_of_derives {l r : List Char} (h : Derives std .or t e) (hl : Blank l) (hr : Blank r) :
    GuardExpr.parse std (String.ofList (l ++ (t ++ r))) = some (.ok e) := by
  obtain ⟨pos, hrun, -⟩ := parseExpr_of_derives hstd h
  have hne : t.isEmpty = false := by
    cases t with
    | nil =>
      obtain ⟨c, hc, -⟩ := h.head
      cases hc
    | cons => rfl
  rw [GuardExpr.parse, String.toList_ofList, trim_append hl hr (h.past r) (h.last hstd)]
  simp only [hne, Bool.false_eq_true, if_false, hrun]

/-- The scan comes to the end of a text of the grammar. -/
theorem reaches_of_derives (h : Derives std .or t e) :
    (Scan.start t).Reaches std ⟨.after, 0, true, []⟩ := by
  obtain ⟨pos, hrun, hpos⟩ := parseExpr_of_derives hstd h
  have hfollows := Parser.parseExpr_covers std t (Scan.start t) 0 rfl
    (by simp [Scan.start, suffixAt])
    (Nat.lt_succ_of_le (length_le_byteLength t))
  rw [hrun] at hfollows
  obtain ⟨rest, hrest, hreads, -⟩ := hfollows
  cases hpos.symm.trans hrest
  have hreaches := hreads.reaches
  rw [h.named] at hreaches
  exact hreaches

end

/-! ## Only the grammar -/

/-- The whole text, up to blanks around it, stands for the tree. -/
def Spells (std : StdText) (s : String) (e : GuardExpr) : Prop :=
  ∃ l t r, s.toList = l ++ (t ++ r) ∧ Blank l ∧ Blank r ∧ Derives std .or t e

theorem Spells.reaches (hstd : std.OnAscii) {s : String} (h : Spells std s e) :
    (Scan.start (trim s.toList)).Reaches std ⟨.after, 0, true, []⟩ := by
  obtain ⟨l, t, r, hs, hl, hr, hderives⟩ := h
  rw [hs, trim_append hl hr (hderives.past r) (hderives.last hstd)]
  exact reaches_of_derives hstd hderives

theorem closed_nil : Closed .or [] := ⟨(by intro c hc; cases hc), rfl, rfl⟩

/-- What is parsed is of the grammar exactly when the scan comes to the end of the text,
and has met no field but paths. -/
theorem parse_spells_iff {std : StdText} (hstd : std.OnAscii) {s : String}
    (hs : ∀ c ∈ s.toList, isByte c = true) {e : GuardExpr}
    (h : GuardExpr.parse std s = some (.ok e)) :
    Spells std s e ↔ (Scan.start (trim s.toList)).Reaches std ⟨.after, 0, true, []⟩ := by
  refine ⟨fun hspells => hspells.reaches hstd, fun hend => ?_⟩
  obtain ⟨hparse, -⟩ | ⟨e', hparse, -⟩ | ⟨e', rest, hparse, hreads, hclosed⟩ :=
    GuardExpr.parse_cases std s
  · cases hparse.symm.trans h
  · cases hparse.symm.trans h
  cases hparse.symm.trans h
  -- Both are where the scan ends.
  have hunique := Scan.stopped_unique hreads.reaches hend
    (by rw [Scan.turn_ends rfl rfl hclosed]; nofun)
    (by rw [Scan.turn_ends rfl rfl closed_nil]; nofun)
  simp only [Scan.start, Scan.mk.injEq, Bool.true_and, true_and] at hunique
  obtain ⟨hnamed, rfl⟩ := hunique
  obtain ⟨l, t, r, htext, hl, hr, -, hderives⟩ := hreads.text
  simp only [Scan.start, List.append_nil] at htext
  obtain ⟨l₀, r₀, hsplit, hl₀, hr₀⟩ := trim_split s.toList
  have hblank {b : List Char} (hb : ∀ c ∈ b, isWhitespace c = true) (hmem : ∀ c ∈ b, c ∈ s.toList) :
      Blank b := fun c hc => ⟨hb c hc, hs c (hmem c hc)⟩
  have hl₀ := hblank hl₀ fun c hc => by rw [hsplit]; simp [hc]
  have hr₀ := hblank hr₀ fun c hc => by rw [hsplit]; simp [hc]
  refine ⟨l₀ ++ l, t, r ++ r₀, ?_, hl₀.append hl, hr.append hr₀, hderives hnamed⟩
  rw [hsplit, htext]
  simp

theorem asciiText_onAscii : asciiText.OnAscii where
  alphanumeric _ _ := rfl
  empty := rfl

theorem parse_spells_chain :
    Spells asciiText "!ctx.a && ctx.b.c" (.and (.not (.truthy "a")) (.truthy "b.c")) := by
  have hparse : GuardExpr.parse asciiText "!ctx.a && ctx.b.c" =
      some (.ok (.and (.not (.truthy "a")) (.truthy "b.c"))) := by rfl
  have hbytes : "!ctx.a && ctx.b.c".toList.all isByte = true := by decide +kernel
  have hwalk : (Scan.start (trim "!ctx.a && ctx.b.c".toList)).walk asciiText 20 =
      ⟨.after, 0, true, []⟩ := by decide +kernel
  refine (parse_spells_iff asciiText_onAscii (List.all_eq_true.mp hbytes) hparse).mpr ?_
  rw [← hwalk]
  exact Scan.reaches_walk 20 _

/-- The text behind the first operand is not looked at. -/
theorem parse_spells_not :
    GuardExpr.parse asciiText "ctx.a foo" = some (.ok (.truthy "a")) ∧
      ¬ Spells asciiText "ctx.a foo" (.truthy "a") := by
  refine ⟨by rfl, fun hspells => ?_⟩
  have hwalk : (Scan.start (trim "ctx.a foo".toList)).walk asciiText 20 =
      ⟨.after, 0, true, "foo".toList⟩ := by decide +kernel
  have hend := @Scan.reaches_walk asciiText 20 (Scan.start (trim "ctx.a foo".toList))
  rw [hwalk] at hend
  have hclosed : Closed .or "foo".toList := ⟨.cons (by decide) _, rfl, rfl⟩
  have hunique := Scan.stopped_unique hend (hspells.reaches asciiText_onAscii)
    (by rw [Scan.turn_ends rfl rfl hclosed]; nofun)
    (by rw [Scan.turn_ends rfl rfl closed_nil]; nofun)
  cases hunique

/-! ## Printed expressions -/

/-- The texts of an expression in a place of a level, with parentheses only where the level
asks for them and blanks between any two tokens. -/
inductive Renders (std : StdText) : Level → GuardExpr → List Char → Prop
  | comparison {level : Level} {e : GuardExpr} {t : List Char} (h : Comparison std t e) :
      Renders std level e t
  | not {level : Level} {e : GuardExpr} {l t : List Char} (hl : Blank l)
      (h : Renders std .unary e t) : Renders std level (.not e) ('!' :: l ++ t)
  | and {level : Level} {e e' : GuardExpr} {t l r t' : List Char} (hlevel : level ≠ .unary)
      (h : Renders std .and e t) (hl : Blank l) (hr : Blank r) (h' : Renders std .unary e' t') :
      Renders std level (.and e e') (t ++ l ++ "&&".toList ++ r ++ t')
  | or {e e' : GuardExpr} {t l r t' : List Char} (h : Renders std .or e t) (hl : Blank l)
      (hr : Blank r) (h' : Renders std .and e' t') :
      Renders std .or (.or e e') (t ++ l ++ "||".toList ++ r ++ t')
  | andParen {e e' : GuardExpr} {l t r : List Char} (hl : Blank l)
      (h : Renders std .or (.and e e') t) (hr : Blank r) :
      Renders std .unary (.and e e') ('(' :: l ++ t ++ r ++ [')'])
  | orParen {level : Level} {e e' : GuardExpr} {l t r : List Char} (hlevel : level ≠ .or)
      (hl : Blank l) (h : Renders std .or (.or e e') t) (hr : Blank r) :
      Renders std level (.or e e') ('(' :: l ++ t ++ r ++ [')'])

theorem Derives.of_unary (h : Derives std .unary t e) (level : Level) : Derives std level t e := by
  cases level with
  | unary => exact h
  | and => exact .unary h
  | or => exact .chain (.unary h)

theorem Derives.of_and (h : Derives std .and t e) {level : Level} (hlevel : level ≠ .unary) :
    Derives std level t e := by
  cases level with
  | unary => exact absurd rfl hlevel
  | and => exact h
  | or => exact .chain h

theorem Renders.derives {level : Level} (h : Renders std level e t) : Derives std level t e := by
  induction h with
  | comparison h => exact (Derives.comparison h).of_unary _
  | not hl _ ih => exact (Derives.not hl ih).of_unary _
  | and hlevel _ hl hr _ ih ih' => exact (Derives.and ih hl hr ih').of_and hlevel
  | or _ hl hr _ ih ih' => exact .or ih hl hr ih'
  | andParen hl _ hr ih => exact .paren hl ih hr
  | orParen _ hl _ hr ih => exact (Derives.paren hl ih hr).of_unary _

/-- Every rendering of an expression, with blanks around it, is parsed to it. -/
theorem parse_renders {std : StdText} (hstd : std.OnAscii) {e : GuardExpr} {l t r : List Char}
    (h : Renders std .or e t) (hl : Blank l) (hr : Blank r) :
    GuardExpr.parse std (String.ofList (l ++ (t ++ r))) = some (.ok e) :=
  parse_of_derives hstd h.derives hl hr

/-- The standard library on ASCII, and `str::parse` on one numeral. -/
def tenText : StdText :=
  ⟨Char.isAlphanum, fun s => if s = "10" then some ⟨0x4024000000000000⟩ else none⟩

theorem parse_renders_guard :
    GuardExpr.parse tenText " !(ctx.a||ctx.b)  && ctx.n>=10" =
      some (.ok
        (.and (.not (.or (.truthy "a") (.truthy "b"))) (.ge "n" ⟨0x4024000000000000⟩))) := by
  have hstd : tenText.OnAscii := ⟨fun _ _ => rfl, by decide⟩
  have hblank (n : Nat) : Blank (List.replicate n ' ') := by
    intro c hc
    cases List.eq_of_mem_replicate hc
    decide
  have hfield (path : String) (h : isPath path.toList = true) (level : Level) :
      Renders tenText level (.truthy path) ("ctx.".toList ++ path.toList) := by
    have hrenders : Renders tenText level _ _ := .comparison (.truthy h)
    rwa [String.ofList_toList] at hrenders
  have hor := Renders.or (hfield "a" (by decide) .or) (hblank 0) (hblank 0)
    (hfield "b" (by decide) .and)
  have hnot : Renders tenText .and (.not (.or (.truthy "a") (.truthy "b"))) _ :=
    .not (hblank 0) (.orParen (by simp) (hblank 0) hor (hblank 0))
  have hdigits : ∀ c ∈ ['1', '0'], Parser.isAsciiDigit c = true := by simp [Parser.isAsciiDigit]
  have hnumeral : Numeral ['1', '0'] := @Numeral.mk [] ['1', '0'] [] (.inl rfl) hdigits (.inl rfl)
  have hop : (">=", GuardExpr.ge) ∈ orders := by simp [orders]
  have hparse : tenText.parseF64 (String.ofList ['1', '0']) = some ⟨0x4024000000000000⟩ := by decide
  have hpath : isPath ['n'] = true := by decide
  have hge : Renders tenText .unary _ _ :=
    .comparison (.number hpath (hblank 0) hop (hblank 0) hnumeral hparse)
  have hand : Renders tenText .or _ _ := .and (by simp) hnot (hblank 2) (hblank 1) hge
  refine Eq.trans (congrArg (GuardExpr.parse tenText) ?_)
    (parse_renders hstd hand (hblank 1) (hblank 0))
  simp

end Rstmdb

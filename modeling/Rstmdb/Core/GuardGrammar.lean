import Rstmdb.Core.GuardText

/-! The documented language of guards: texts with the trees they stand for. -/
namespace Rstmdb
open Json (Value Number F64)

/-! ## Tokens -/

/-- ASCII whitespace. -/
def Blank (l : List Char) : Prop := ∀ c ∈ l, isWhitespace c = true ∧ isByte c = true

/-- Names of letters, digits and underscores with a point between two of them. The
flag says that a name has begun. -/
def isPathFrom : Bool → List Char → Bool
  | begun, [] => begun
  | begun, c :: cs =>
    if c = '.' then begun && isPathFrom false cs
    else (c.isAlphanum || c == '_') && isPathFrom true cs

def isPath (path : List Char) : Bool := isPathFrom false path

/-- A sign, digits, a point and digits, each of them optional. What is a number among
these is the standard library's to say. -/
inductive Numeral : List Char → Prop
  | mk {sign whole fraction : List Char} (hsign : sign = [] ∨ sign = ['-'])
      (hwhole : ∀ c ∈ whole, Parser.isAsciiDigit c = true)
      (hfraction : fraction = [] ∨
        ∃ ds, fraction = '.' :: ds ∧ ∀ c ∈ ds, Parser.isAsciiDigit c = true) :
      Numeral (sign ++ whole ++ fraction)

/-- ASCII text between quotes, where a backslash goes with the next character. -/
def isQuotable : List Char → Bool
  | [] => true
  | c :: cs =>
    if c = Char.ofNat 34 then false
    else if c = Char.ofNat 92 then
      match cs with
      | [] => false
      | d :: cs => isByte d && isQuotable cs
    else isByte c && isQuotable cs

/-! ## The grammar -/

section
variable (std : StdText)

inductive Literal : List Char → Value → Prop
  | true : Literal "true".toList (.bool true)
  | false : Literal "false".toList (.bool false)
  | null : Literal "null".toList .null
  | string {s : List Char} (h : isQuotable s = Bool.true) :
      Literal (Char.ofNat 34 :: s ++ [Char.ofNat 34]) (.string (String.ofList s))
  | number {t : List Char} {f : F64} {n : Number} (h : Numeral t)
      (hf : std.parseF64 (String.ofList t) = some f) (hn : Number.fromF64 f = some n) :
      Literal t (.number n)

def equalities : List (String × (String → Value → GuardExpr)) := [("==", .eq), ("!=", .ne)]

def orders : List (String × (String → F64 → GuardExpr)) :=
  [(">=", .ge), ("<=", .le), (">", .gt), ("<", .lt)]

inductive Comparison : List Char → GuardExpr → Prop
  | truthy {path : List Char} (h : isPath path = true) :
      Comparison ("ctx.".toList ++ path) (.truthy (String.ofList path))
  | value {path l r t : List Char} {op : String} {e : String → Value → GuardExpr} {v : Value}
      (h : isPath path = true) (hl : Blank l) (hop : (op, e) ∈ equalities) (hr : Blank r)
      (ht : Literal std t v) :
      Comparison ("ctx.".toList ++ path ++ l ++ op.toList ++ r ++ t) (e (String.ofList path) v)
  | number {path l r t : List Char} {op : String} {e : String → F64 → GuardExpr} {f : F64}
      (h : isPath path = true) (hl : Blank l) (hop : (op, e) ∈ orders) (hr : Blank r)
      (ht : Numeral t) (hf : std.parseF64 (String.ofList t) = some f) :
      Comparison ("ctx.".toList ++ path ++ l ++ op.toList ++ r ++ t) (e (String.ofList path) f)

/-- How tightly an expression binds: a comparison, a negation or a parenthesis, a chain
of `&&`, a chain of `||`. -/
inductive Level
  | unary
  | and
  | or

/-- The texts of a guard at a level of precedence. Both operators associate to the left. -/
inductive Derives : Level → List Char → GuardExpr → Prop
  | comparison {t : List Char} {e : GuardExpr} (h : Comparison std t e) : Derives .unary t e
  | paren {l t r : List Char} {e : GuardExpr} (hl : Blank l) (h : Derives .or t e)
      (hr : Blank r) : Derives .unary ('(' :: l ++ t ++ r ++ [')']) e
  | not {l t : List Char} {e : GuardExpr} (hl : Blank l) (h : Derives .unary t e) :
      Derives .unary ('!' :: l ++ t) (.not e)
  | unary {t : List Char} {e : GuardExpr} (h : Derives .unary t e) : Derives .and t e
  | and {t l r t' : List Char} {e e' : GuardExpr} (h : Derives .and t e) (hl : Blank l)
      (hr : Blank r) (h' : Derives .unary t' e') :
      Derives .and (t ++ l ++ "&&".toList ++ r ++ t') (.and e e')
  | chain {t : List Char} {e : GuardExpr} (h : Derives .and t e) : Derives .or t e
  | or {t l r t' : List Char} {e e' : GuardExpr} (h : Derives .or t e) (hl : Blank l)
      (hr : Blank r) (h' : Derives .and t' e') :
      Derives .or (t ++ l ++ "||".toList ++ r ++ t') (.or e e')

end

/-- Every field in the guard is a path. -/
def GuardExpr.named : GuardExpr → Bool
  | .truthy field | .falsy field | .eq field _ | .ne field _ | .gt field _ | .ge field _
  | .lt field _ | .le field _ => isPath field.toList
  | .and left right | .or left right => left.named && right.named
  | .not inner => inner.named

section
variable {std : StdText}

theorem Comparison.named {t : List Char} {e : GuardExpr} (h : Comparison std t e) :
    e.named = true := by
  cases h with
  | truthy h => simpa [GuardExpr.named] using h
  | value h hl hop hr ht =>
    simp only [equalities, List.mem_cons, Prod.mk.injEq, List.not_mem_nil, or_false] at hop
    obtain ⟨-, rfl⟩ | ⟨-, rfl⟩ := hop <;> simpa [GuardExpr.named] using h
  | number h hl hop hr ht hf =>
    simp only [orders, List.mem_cons, Prod.mk.injEq, List.not_mem_nil, or_false] at hop
    obtain ⟨-, rfl⟩ | ⟨-, rfl⟩ | ⟨-, rfl⟩ | ⟨-, rfl⟩ := hop <;>
      simpa [GuardExpr.named] using h

theorem Derives.named {level : Level} {t : List Char} {e : GuardExpr}
    (h : Derives std level t e) : e.named = true := by
  induction h with
  | comparison h => exact h.named
  | paren _ _ _ ih | not _ _ ih | unary _ ih | chain _ ih => exact ih
  | and _ _ _ _ ih ih' | or _ _ _ _ ih ih' => simp [GuardExpr.named, ih, ih']

end

/-! ## What is read is of the grammar -/

variable {p : Char → Bool} {cs rest l path t fraction : List Char} {α : Type} {std : StdText}
  {c : Char}

theorem readWhile_ok {taken : List Char} (h : readWhile p cs = .ok taken rest) :
    cs = taken ++ rest ∧ (∀ c ∈ taken, p c = true ∧ isByte c = true) ∧
      ∀ c, rest.head? = some c → p c = false := by
  unfold readWhile at h
  split at h
  · rename_i hbytes
    cases h
    refine ⟨List.takeWhile_append_dropWhile.symm, fun c hc => ?_, fun c hc => ?_⟩
    · exact ⟨List.mem_takeWhile_imp hc, List.all_eq_true.mp hbytes c hc⟩
    · have := List.head?_dropWhile_not p cs
      rw [hc] at this
      simpa using this
  · cases h

theorem skipSpace_ok (h : skipSpace cs = .ok () rest) :
    ∃ l, cs = l ++ rest ∧ Blank l ∧ ∀ c, rest.head? = some c → isWhitespace c = false := by
  unfold skipSpace at h
  cases hr : readWhile isWhitespace cs with
  | panic | error => rw [hr] at h; cases h
  | ok taken rest' =>
    rw [hr] at h
    cases h
    obtain ⟨hcs, htaken, hhead⟩ := readWhile_ok hr
    exact ⟨taken, hcs, htaken, hhead⟩

theorem Read.bind_eq_ok {β : Type} {r : Read α} {f : α → List Char → Read β} {b : β}
    (h : r.bind f = .ok b rest) : ∃ a rest', r = .ok a rest' ∧ f a rest' = .ok b rest := by
  cases r with
  | panic | error => cases h
  | ok a rest' => exact ⟨a, rest', rfl, h⟩

theorem readPath_ok {field : String} (h : readPath std cs = .ok field rest) :
    ∃ path, field = String.ofList path ∧ cs = "ctx.".toList ++ path ++ rest := by
  unfold readPath at h
  split at h
  · rename_i hprefix
    obtain ⟨cs, rfl⟩ := List.isPrefixOf_iff_prefix.mp hprefix
    obtain ⟨path, rest', hpath, h⟩ := Read.bind_eq_ok h
    split at h
    · cases h
    cases h
    refine ⟨path, rfl, ?_⟩
    rw [List.append_assoc, ← (readWhile_ok hpath).1]
    rfl
  · cases h

theorem decimals_cases (cs : List Char) : decimals cs = [] ∨
    ∃ ds, decimals cs = '.' :: ds ∧ ∀ c ∈ ds, Parser.isAsciiDigit c = true := by
  unfold decimals
  split
  · exact .inr ⟨_, rfl, fun c hc => List.mem_takeWhile_imp hc⟩
  · exact .inl rfl

theorem numeral_numeral (cs : List Char) : Numeral (numeral cs) := by
  have hdigits (l : List Char) : ∀ c ∈ l.takeWhile Parser.isAsciiDigit,
      Parser.isAsciiDigit c = true := fun c hc => List.mem_takeWhile_imp hc
  unfold numeral digits
  split
  · exact @Numeral.mk ['-'] _ _ (.inr rfl) (hdigits _) (decimals_cases _)
  · exact @Numeral.mk [] _ _ (.inl rfl) (hdigits _) (decimals_cases _)

theorem readNumber_ok {f : F64} (h : readNumber std cs = .ok f rest) :
    ∃ l t, cs = l ++ t ++ rest ∧ Blank l ∧ Numeral t ∧
      std.parseF64 (String.ofList t) = some f := by
  obtain ⟨_, cs', hskip, hread⟩ := Read.bind_eq_ok h
  obtain ⟨l, rfl, hl, -⟩ := skipSpace_ok hskip
  unfold readNumeral at hread
  dsimp only at hread
  split at hread
  · rename_i num hnum
    cases hread
    obtain ⟨rest, hrest⟩ := Parser.numeral_append cs'
    refine ⟨l, numeral cs', ?_, hl, numeral_numeral cs', hnum⟩
    rw [List.append_assoc]
    congr 1
    generalize numeral cs' = n at hrest ⊢
    rw [hrest, List.drop_left]
  · cases hread

theorem readString_ok {s : List Char} (h : readString cs = .ok s rest) :
    cs = s ++ Char.ofNat 34 :: rest ∧ isQuotable s = true := by
  fun_induction readString cs generalizing s rest with
  | case1 | case3 | case5 | case7 => cases h
  | case2 cs =>
    cases h
    exact ⟨rfl, rfl⟩
  | case4 d cs hd hne ih =>
    obtain ⟨s, rest, hs, h⟩ := Read.bind_eq_ok h
    cases h
    obtain ⟨rfl, hq⟩ := ih hs
    exact ⟨rfl, by simp [isQuotable, hd, hq]⟩
  | case6 c cs hquote hslash hc ih =>
    obtain ⟨s, rest, hs, h⟩ := Read.bind_eq_ok h
    cases h
    obtain ⟨rfl, hq⟩ := ih hs
    refine ⟨rfl, ?_⟩
    unfold isQuotable
    rw [if_neg hquote, if_neg hslash, hc, hq]
    rfl

theorem Blank.append {r : List Char} (hl : Blank l) (hr : Blank r) : Blank (l ++ r) :=
  fun c hc => (List.mem_append.mp hc).elim (hl c) (hr c)

theorem readValue_ok {v : Value} (h : readValue std cs = .ok v rest) :
    ∃ l t, cs = l ++ t ++ rest ∧ Blank l ∧ Literal std t v := by
  obtain ⟨_, cs', hskip, hread⟩ := Read.bind_eq_ok h
  obtain ⟨l, rfl, hl, -⟩ := skipSpace_ok hskip
  unfold readLiteral at hread
  split_ifs at hread with htrue hfalse hnull hquote
  · cases hread
    obtain ⟨cs, rfl⟩ := List.isPrefixOf_iff_prefix.mp htrue
    exact ⟨l, _, (List.append_assoc ..).symm, hl, .true⟩
  · cases hread
    obtain ⟨cs, rfl⟩ := List.isPrefixOf_iff_prefix.mp hfalse
    exact ⟨l, _, (List.append_assoc ..).symm, hl, .false⟩
  · cases hread
    obtain ⟨cs, rfl⟩ := List.isPrefixOf_iff_prefix.mp hnull
    exact ⟨l, _, (List.append_assoc ..).symm, hl, .null⟩
  · obtain ⟨s, rest, hs, hread⟩ := Read.bind_eq_ok hread
    cases hread
    obtain ⟨cs, rfl⟩ := List.head?_eq_some_iff.mp hquote
    obtain ⟨hcs, hq⟩ := readString_ok hs
    rw [List.tail_cons] at hcs
    subst hcs
    exact ⟨l, _, by simp, hl, .string hq⟩
  · obtain ⟨f, rest', hf, hread⟩ := Read.bind_eq_ok hread
    split at hread
    · rename_i n hn
      cases hread
      obtain ⟨l', t, rfl, hl', ht, hparse⟩ := readNumber_ok hf
      exact ⟨l ++ l', t, by simp, hl.append hl', .number ht hparse hn⟩
    · cases hread

/-- What is read behind the operator `op` of a comparison. -/
theorem operator_ok {op : List Char} {read : List Char → Read α} {T : List Char → α → Prop}
    {e : α → GuardExpr} {expr : GuardExpr}
    (hread : ∀ {cs a rest}, read cs = .ok a rest → ∃ l t, cs = l ++ t ++ rest ∧ Blank l ∧ T t a)
    (hnamed : ∀ a, (e a).named = isPath path)
    (hcomparison : ∀ {r t a}, isPath path = true → Blank r → T t a →
      Comparison std ("ctx.".toList ++ path ++ l ++ op ++ r ++ t) (e a))
    (h : ((skipSpace cs).bind fun _ cs => (read cs).bind fun a => .ok (e a)) = .ok expr rest) :
    ∃ t r, l ++ (op ++ cs) = t ++ r ++ rest ∧ Blank r ∧
      (expr.named = true → Comparison std ("ctx.".toList ++ path ++ t) expr) := by
  obtain ⟨_, cs', hskip, hbind⟩ := Read.bind_eq_ok h
  obtain ⟨xs, rfl, hl₁, -⟩ := skipSpace_ok hskip
  obtain ⟨a, rest', ha, hok⟩ := Read.bind_eq_ok hbind
  cases hok
  obtain ⟨ys, t, rfl, hl₂, ht⟩ := hread ha
  refine ⟨l ++ op ++ (xs ++ ys) ++ t, [], by simp, by simp [Blank], fun hpath => ?_⟩
  have := hcomparison ((hnamed a).symm.trans hpath) (hl₁.append hl₂) ht
  simpa using this

theorem readOperator_ok {expr : GuardExpr} (hl : Blank l)
    (h : readOperator std (String.ofList path) cs = .ok expr rest) :
    ∃ t r, l ++ cs = t ++ r ++ rest ∧ Blank r ∧
      (expr.named = true → Comparison std ("ctx.".toList ++ path ++ t) expr) := by
  have named : isPath (String.ofList path).toList = isPath path := by simp
  have equality (op : String) {e : String → Value → GuardExpr} {cs : List Char}
      (hop : (op, e) ∈ equalities) (he : ∀ v, (e (String.ofList path) v).named = isPath path)
      (h : ((skipSpace cs).bind fun _ cs => (readValue std cs).bind fun v =>
        .ok (e (String.ofList path) v)) = .ok expr rest) :=
    operator_ok (T := Literal std) readValue_ok he
      (fun hpath hr ht => .value hpath hl hop hr ht) h
  have order (op : String) {e : String → F64 → GuardExpr} {cs : List Char}
      (hop : (op, e) ∈ orders) (he : ∀ f, (e (String.ofList path) f).named = isPath path)
      (h : ((skipSpace cs).bind fun _ cs => (readNumber std cs).bind fun f =>
        .ok (e (String.ofList path) f)) = .ok expr rest) :=
    operator_ok (T := fun t f => Numeral t ∧ std.parseF64 (String.ofList t) = some f)
      readNumber_ok he (fun hpath hr ht => .number hpath hl hop hr ht.1 ht.2) h
  unfold readOperator at h
  dsimp only at h
  split_ifs at h with heq hne hge hle hgt hlt
  · obtain ⟨cs, rfl⟩ := List.isPrefixOf_iff_prefix.mp heq
    exact equality "==" (e := .eq) (by simp [equalities]) (fun _ => named) h
  · obtain ⟨cs, rfl⟩ := List.isPrefixOf_iff_prefix.mp hne
    exact equality "!=" (e := .ne) (by simp [equalities]) (fun _ => named) h
  · obtain ⟨cs, rfl⟩ := List.isPrefixOf_iff_prefix.mp hge
    exact order ">=" (e := .ge) (by simp [orders]) (fun _ => named) h
  · obtain ⟨cs, rfl⟩ := List.isPrefixOf_iff_prefix.mp hle
    exact order "<=" (e := .le) (by simp [orders]) (fun _ => named) h
  · obtain ⟨cs, rfl⟩ := List.head?_eq_some_iff.mp hgt
    exact order ">" (e := .gt) (by simp [orders]) (fun _ => named) h
  · obtain ⟨cs, rfl⟩ := List.head?_eq_some_iff.mp hlt
    exact order "<" (e := .lt) (by simp [orders]) (fun _ => named) h
  · cases h
    refine ⟨[], l, rfl, hl, fun hpath => ?_⟩
    rw [List.append_nil]
    exact .truthy (named.symm.trans hpath)

/-- A comparison that is read is one of the grammar, if its field is a path. -/
theorem readComparison_ok {e : GuardExpr} (h : readComparison std cs = .ok e rest) :
    ∃ l t r, cs = l ++ t ++ r ++ rest ∧ Blank l ∧ Blank r ∧ t ≠ [] ∧
      (e.named = true → Comparison std t e) := by
  obtain ⟨_, cs₁, hskip₁, h₁⟩ := Read.bind_eq_ok h
  obtain ⟨xs, rfl, hl₁, -⟩ := skipSpace_ok hskip₁
  obtain ⟨field, cs₂, hfield, h₂⟩ := Read.bind_eq_ok h₁
  obtain ⟨path, rfl, rfl⟩ := readPath_ok hfield
  obtain ⟨_, cs₃, hskip₂, h₃⟩ := Read.bind_eq_ok h₂
  obtain ⟨ys, rfl, hl₂, -⟩ := skipSpace_ok hskip₂
  obtain ⟨t, r, ht, hr, hcomparison⟩ := readOperator_ok hl₂ h₃
  exact ⟨xs, "ctx.".toList ++ path ++ t, r, by simp [ht], hl₁, hr, by simp, hcomparison⟩

/-! ## What is of the grammar is read -/

/-- What the standard library says of ASCII characters and of the empty text. -/
structure StdText.OnAscii (std : StdText) : Prop where
  alphanumeric : ∀ c, isByte c = true → std.isAlphanumeric c = c.isAlphanum
  empty : std.parseF64 "" = none

/-- A character that ends a field and a numeral. -/
def isBreak (c : Char) : Bool :=
  isByte c && !c.isAlphanum && c != '_' && c != '.' && c != '-'

/-- What is left begins with no character of a class. -/
def Past (p : Char → Bool) (rest : List Char) : Prop := ∀ c, rest.head? = some c → p c = false

theorem Past.cons (h : p c = false) (rest : List Char) : Past p (c :: rest) := by
  intro d hd
  cases hd
  exact h

theorem forall_ascii {P : Char → Prop} (h : ∀ n < 128, P (Char.ofNat n)) (hc : isByte c = true) :
    P c := by
  have hsize : c.utf8Size = 1 := of_decide_eq_true hc
  have hval : c.val ≤ 127 := Char.utf8Size_eq_one_iff.mp hsize
  have hlt : c.toNat < 128 := Nat.lt_succ_of_le hval
  have := h c.toNat hlt
  rwa [Char.ofNat_toNat] at this

theorem isBreak_of_blank (h : isWhitespace c = true) (hc : isByte c = true) :
    isBreak c = true :=
  forall_ascii (P := fun c => isWhitespace c = true → isBreak c = true) (by decide) hc h

theorem isByte_of_isAlphanum (h : c.isAlphanum = true) : isByte c = true := by
  have hval : c.val ≤ 127 := by
    simp only [Char.isAlphanum, Char.isAlpha, Char.isUpper, Char.isLower, Char.isDigit,
      Bool.or_eq_true, decide_eq_true_eq, Bool.and_eq_true] at h
    obtain (⟨-, h⟩ | ⟨-, h⟩) | ⟨-, h⟩ := h
    all_goals exact UInt32.le_trans h (by decide)
  exact decide_eq_true (Char.utf8Size_eq_one_iff.mpr hval)

theorem takeWhile_of_past (h : Past p rest) : rest.takeWhile p = [] ∧ rest.dropWhile p = rest := by
  cases rest with
  | nil => exact ⟨rfl, rfl⟩
  | cons c rest => simp [h c rfl]

theorem readWhile_append (ht : ∀ c ∈ t, p c = true ∧ isByte c = true) (hrest : Past p rest) :
    readWhile p (t ++ rest) = .ok t rest := by
  obtain ⟨htake, hdrop⟩ := takeWhile_of_past hrest
  have hp : ∀ c ∈ t, p c = true := fun c hc => (ht c hc).1
  unfold readWhile
  rw [List.takeWhile_append_of_pos hp, List.dropWhile_append_of_pos hp, htake, hdrop,
    List.append_nil, if_pos (List.all_eq_true.mpr fun c hc => (ht c hc).2)]

theorem skipSpace_append (hl : Blank l) (hrest : Past isWhitespace rest) :
    skipSpace (l ++ rest) = .ok () rest := by
  rw [skipSpace, readWhile_append hl hrest]
  rfl

theorem Past.blank (hl : Blank l) (hp : ∀ c, isWhitespace c = true → isByte c = true → p c = false)
    (hrest : Past p rest) : Past p (l ++ rest) := by
  intro c hc
  cases l with
  | nil => exact hrest c hc
  | cons d l =>
    cases hc
    exact hp c (hl c List.mem_cons_self).1 (hl c List.mem_cons_self).2

theorem mem_of_isPathFrom {begun : Bool} (h : isPathFrom begun path = true) :
    ∀ c ∈ path, c.isAlphanum = true ∨ c = '_' ∨ c = '.' := by
  induction path generalizing begun with
  | nil => simp
  | cons d path ih =>
    unfold isPathFrom at h
    intro c hc
    split at h
    · rename_i hd
      obtain rfl | hc := List.mem_cons.mp hc
      · exact .inr (.inr hd)
      · exact ih (Bool.and_eq_true_iff.mp h).2 c hc
    · obtain ⟨hd, htail⟩ := Bool.and_eq_true_iff.mp h
      obtain rfl | hc := List.mem_cons.mp hc
      · simp only [Bool.or_eq_true, beq_iff_eq] at hd
        exact hd.elim .inl fun hd => .inr (.inl hd)
      · exact ih htail c hc

section
variable {std : StdText} (hstd : std.OnAscii)
include hstd

theorem isFieldChar_of_isPath {path : List Char} (h : isPath path = true) :
    ∀ c ∈ path, Parser.isFieldChar std c = true ∧ isByte c = true := by
  intro c hc
  obtain halnum | rfl | rfl := mem_of_isPathFrom h c hc
  · have hbyte := isByte_of_isAlphanum halnum
    simp [Parser.isFieldChar, hstd.alphanumeric c hbyte, halnum, hbyte]
  · exact ⟨by simp [Parser.isFieldChar], by decide⟩
  · exact ⟨by simp [Parser.isFieldChar], by decide⟩

theorem isFieldChar_of_isBreak {c : Char} (h : isBreak c = true) :
    Parser.isFieldChar std c = false := by
  simp only [isBreak, Bool.and_eq_true, Bool.not_eq_true', bne_iff_ne, ne_eq] at h
  obtain ⟨⟨⟨⟨hbyte, halnum⟩, hunder⟩, hpoint⟩, -⟩ := h
  simp [Parser.isFieldChar, hstd.alphanumeric c hbyte, halnum, hunder, hpoint]

theorem readPath_append {path rest : List Char} (h : isPath path = true)
    (hrest : Past (Parser.isFieldChar std) rest) :
    readPath std ("ctx.".toList ++ (path ++ rest)) = .ok (String.ofList path) rest := by
  have hne : path.isEmpty = false := by
    cases path with
    | nil => cases h
    | cons => rfl
  have hprefix : "ctx.".toList.isPrefixOf ("ctx.".toList ++ (path ++ rest)) = true :=
    List.isPrefixOf_iff_prefix.mpr (List.prefix_append _ _)
  have hdrop : ("ctx.".toList ++ (path ++ rest)).drop 4 = path ++ rest := rfl
  rw [readPath, if_pos hprefix, hdrop, readWhile_append (isFieldChar_of_isPath hstd h) hrest]
  simp only [Read.bind, hne, Bool.false_eq_true, if_false]

end

/-- The end of the text or a character that ends numerals. -/
def Broken (rest : List Char) : Prop := ∀ c, rest.head? = some c → isBreak c = true

theorem Broken.past (h : Broken rest) (hp : ∀ c, isBreak c = true → p c = false) : Past p rest :=
  fun c hc => hp c (h c hc)

theorem isAsciiDigit_of_isBreak (h : isBreak c = true) : Parser.isAsciiDigit c = false := by
  have hc : isByte c = true := by
    simp only [isBreak, Bool.and_eq_true] at h
    exact h.1.1.1.1
  exact forall_ascii (P := fun c => isBreak c = true → Parser.isAsciiDigit c = false)
    (by decide) hc h

theorem decimals_append_eq (hrest : Broken rest) (h : fraction = [] ∨
      ∃ ds, fraction = '.' :: ds ∧ ∀ c ∈ ds, Parser.isAsciiDigit c = true) :
    decimals (fraction ++ rest) = fraction := by
  unfold decimals
  obtain rfl | ⟨ds, rfl, hds⟩ := h
  · rw [List.nil_append, if_neg]
    intro hpoint
    have := hrest '.' hpoint
    revert this
    decide
  · obtain ⟨htake, -⟩ := takeWhile_of_past (hrest.past fun c => isAsciiDigit_of_isBreak)
    simp [List.takeWhile_append_of_pos hds, htake]

theorem digits_append_eq {whole : List Char} (hrest : Broken rest)
    (hwhole : ∀ c ∈ whole, Parser.isAsciiDigit c = true)
    (h : fraction = [] ∨
      ∃ ds, fraction = '.' :: ds ∧ ∀ c ∈ ds, Parser.isAsciiDigit c = true) :
    digits (whole ++ (fraction ++ rest)) = whole ++ fraction := by
  have hpast : Past Parser.isAsciiDigit (fraction ++ rest) := by
    obtain rfl | ⟨ds, rfl, -⟩ := h
    · exact hrest.past fun c => isAsciiDigit_of_isBreak
    · exact .cons (by decide) _
  obtain ⟨htake, hdrop⟩ := takeWhile_of_past hpast
  rw [digits, List.takeWhile_append_of_pos hwhole, List.dropWhile_append_of_pos hwhole, htake,
    hdrop, decimals_append_eq hrest h, List.append_nil]

/-- How a numeral without a sign begins. -/
theorem head_of_digits {whole : List Char} (hwhole : ∀ c ∈ whole, Parser.isAsciiDigit c = true)
    (h : fraction = [] ∨
      ∃ ds, fraction = '.' :: ds ∧ ∀ c ∈ ds, Parser.isAsciiDigit c = true)
    (hc : (whole ++ (fraction ++ rest)).head? = some c) :
    Parser.isAsciiDigit c = true ∨ c = '.' ∨ rest.head? = some c := by
  cases whole with
  | cons d whole =>
    cases hc
    exact .inl (hwhole c List.mem_cons_self)
  | nil =>
    obtain rfl | ⟨ds, rfl, -⟩ := h
    · exact .inr (.inr hc)
    · cases hc
      exact .inr (.inl rfl)

theorem numeral_append_eq (h : Numeral t) (hrest : Broken rest) : numeral (t ++ rest) = t := by
  obtain ⟨hsign, hwhole, hfraction⟩ := h
  rename_i sign whole fraction
  obtain rfl | rfl := hsign
  · rw [numeral, if_neg]
    · simpa using digits_append_eq hrest hwhole hfraction
    · intro hminus
      obtain hdigit | hpoint | hhead := head_of_digits hwhole hfraction (by simpa using hminus)
      · exact absurd hdigit (by decide)
      · exact absurd hpoint (by decide)
      · exact absurd (hrest '-' hhead) (by decide)
  · have hminus : (['-'] ++ whole ++ fraction ++ rest).head? = some '-' := rfl
    rw [numeral, if_pos hminus]
    simpa using digits_append_eq hrest hwhole hfraction

theorem Numeral.head (h : Numeral t) (hc : t.head? = some c) :
    Parser.isAsciiDigit c = true ∨ c = '.' ∨ c = '-' := by
  obtain ⟨hsign, hwhole, hfraction⟩ := h
  rename_i sign whole fraction
  obtain rfl | rfl := hsign
  · obtain hdigit | hpoint | hhead :=
      @head_of_digits [] _ _ _ hwhole hfraction (by simpa using hc)
    · exact .inl hdigit
    · exact .inr (.inl hpoint)
    · cases hhead
  · cases hc
    exact .inr (.inr rfl)

theorem Numeral.head_ne (h : Numeral t)
    (hp : ∀ n < 128, p (Char.ofNat n) = true → Parser.isAsciiDigit (Char.ofNat n) = false ∧
      Char.ofNat n ≠ '.' ∧ Char.ofNat n ≠ '-') : Past p t := by
  intro c hc
  have hbyte : isByte c = true := by
    obtain hdigit | rfl | rfl := h.head hc
    · exact Parser.isByte_of_digit hdigit
    · decide
    · decide
  by_contra hpc
  obtain ⟨hd, hpoint, hminus⟩ := forall_ascii (P := fun c => p c = true →
    Parser.isAsciiDigit c = false ∧ c ≠ '.' ∧ c ≠ '-') hp hbyte (by simpa using hpc)
  obtain hdigit | hpoint' | hminus' := h.head hc
  · rw [hdigit] at hd
    cases hd
  · exact hpoint hpoint'
  · exact hminus hminus'

theorem readString_append {s : List Char} (h : isQuotable s = true) (rest : List Char) :
    readString (s ++ Char.ofNat 34 :: rest) = .ok s rest := by
  fun_induction isQuotable s with
  | case1 =>
    unfold readString
    simp
  | case2 | case3 => cases h
  | case4 d cs hne ih =>
    obtain ⟨hd, hcs⟩ := Bool.and_eq_true_iff.mp h
    simp [readString, hd, ih hcs, Read.bind]
  | case5 c cs hquote hslash ih =>
    obtain ⟨hc, hcs⟩ := Bool.and_eq_true_iff.mp h
    unfold readString
    simp [hquote, hslash, hc, ih hcs, Read.bind]

section
variable {std : StdText} (hstd : std.OnAscii)
include hstd

variable {t rest : List Char} {f : F64}

theorem ne_nil_of_parseF64 (h : std.parseF64 (String.ofList t) = some f) : t ≠ [] := by
  rintro rfl
  cases hstd.empty.symm.trans h

theorem Numeral.past (ht : Numeral t) (hf : std.parseF64 (String.ofList t) = some f)
    {p : Char → Bool}
    (hp : ∀ n < 128, p (Char.ofNat n) = true → Parser.isAsciiDigit (Char.ofNat n) = false ∧
      Char.ofNat n ≠ '.' ∧ Char.ofNat n ≠ '-') : Past p (t ++ rest) := by
  have hne := ne_nil_of_parseF64 hstd hf
  intro c hc
  rw [List.head?_append_of_ne_nil _ hne] at hc
  exact ht.head_ne hp c hc

theorem readNumber_append {l : List Char} (hl : Blank l) (ht : Numeral t)
    (hf : std.parseF64 (String.ofList t) = some f) (hrest : Broken rest) :
    readNumber std (l ++ (t ++ rest)) = .ok f rest := by
  rw [readNumber, skipSpace_append hl (ht.past hstd hf (by decide))]
  simp only [Read.bind, readNumeral, numeral_append_eq ht hrest, hf, List.drop_left]

theorem readValue_append {l : List Char} {v : Value} (hl : Blank l) (ht : Literal std t v)
    (hrest : Broken rest) : readValue std (l ++ (t ++ rest)) = .ok v rest := by
  cases ht with
  | true | false | null =>
    rw [readValue, skipSpace_append hl (by exact .cons (by decide) _)]
    rfl
  | string h =>
    have hs := readString_append h rest
    rw [readValue, skipSpace_append hl (by exact .cons (by decide) _)]
    simp [Read.bind, readLiteral, hs]
  | number h hf hn =>
    rename_i f n
    have hnumber := readNumber_append hstd (l := []) (by simp [Blank]) h hf hrest
    have hpast : Past (fun c => isWhitespace c || c == 't' || c == 'f' || c == 'n' ||
      c == Char.ofNat 34) (t ++ rest) := h.past hstd hf (by decide)
    obtain ⟨c, t', ht⟩ := List.exists_cons_of_ne_nil (ne_nil_of_parseF64 hstd hf)
    rw [ht] at hpast hnumber ⊢
    have hc := hpast c rfl
    simp only [Bool.or_eq_false_iff, beq_eq_false_iff_ne] at hc
    obtain ⟨⟨⟨⟨hspace, htrue⟩, hfalse⟩, hnull⟩, hquote⟩ := hc
    rw [readValue, skipSpace_append hl (by exact .cons hspace _)]
    simp only [List.nil_append, List.cons_append] at hnumber
    simp [Read.bind, readLiteral, hnumber, hn, List.isPrefixOf, htrue.symm, hfalse.symm,
      hnull.symm, hquote]

end

/-- A reader that skips blanks first may as well have them skipped for it. -/
theorem skip_first {β : Type} {f : List Char → Read α} {a : α}
    (h : ((skipSpace cs).bind fun _ cs => f cs) = .ok a rest) (g : α → List Char → Read β) :
    ((skipSpace cs).bind fun _ cs =>
      ((skipSpace cs).bind fun _ cs => f cs).bind g) = g a rest := by
  obtain ⟨_, cs', hskip, hread⟩ := Read.bind_eq_ok h
  obtain ⟨-, -, -, hpast⟩ := skipSpace_ok hskip
  have hnone : skipSpace cs' = .ok () cs' := skipSpace_append (l := []) (by simp [Blank]) hpast
  simp only [hskip, hnone, hread, Read.bind]

/-- The ends of expressions. -/
def Stop (rest : List Char) : Prop :=
  ∀ c, rest.head? = some c → c = '&' ∨ c = '|' ∨ c = ')'

theorem Stop.past (h : Stop rest) (hp : (p '&' || p '|' || p ')') = false) : Past p rest := by
  simp only [Bool.or_eq_false_iff] at hp
  intro c hc
  obtain rfl | rfl | rfl := h c hc
  · exact hp.1.1
  · exact hp.1.2
  · exact hp.2

theorem Stop.broken {r : List Char} (hr : Blank r) (h : Stop rest) : Broken (r ++ rest) := by
  intro c hc
  cases r with
  | nil =>
    have := h.past (p := fun c => !isBreak c) (by decide) c hc
    simpa using this
  | cons d r =>
    cases hc
    exact isBreak_of_blank (hr c List.mem_cons_self).1 (hr c List.mem_cons_self).2

theorem readOperator_stop (h : Stop rest) (field : String) :
    readOperator std field rest = .ok (.truthy field) rest := by
  cases rest with
  | nil => rfl
  | cons c rest =>
    obtain rfl | rfl | rfl := h c rfl <;> rfl

section
variable {std : StdText} (hstd : std.OnAscii)
include hstd

variable {r t rest : List Char}

theorem readOperator_equality {op : String} {e : String → Value → GuardExpr} {v : Value}
    (hop : (op, e) ∈ equalities) (hr : Blank r) (ht : Literal std t v) (hrest : Broken rest)
    (field : String) :
    readOperator std field (op.toList ++ (r ++ (t ++ rest))) = .ok (e field v) rest := by
  have hread := skip_first (readValue_append hstd hr ht hrest) fun v => .ok (e field v)
  simp only [equalities, List.mem_cons, Prod.mk.injEq, List.not_mem_nil, or_false] at hop
  obtain ⟨rfl, rfl⟩ | ⟨rfl, rfl⟩ := hop
  · exact hread
  · exact hread

theorem readOperator_order {op : String} {e : String → F64 → GuardExpr} {f : F64}
    (hop : (op, e) ∈ orders) (hr : Blank r) (ht : Numeral t)
    (hf : std.parseF64 (String.ofList t) = some f) (hrest : Broken rest) (field : String) :
    readOperator std field (op.toList ++ (r ++ (t ++ rest))) = .ok (e field f) rest := by
  have hread := skip_first (readNumber_append hstd hr ht hf hrest) fun f => .ok (e field f)
  -- No `=` comes next, which would make another operator of `>` and `<`.
  have hne : (r ++ (t ++ rest)).head? ≠ some '=' := by
    intro hhead
    have hspace (c : Char) (hc : isWhitespace c = true) (_ : isByte c = true) :
        (c == '=') = false := by
      rw [beq_eq_false_iff_ne]
      rintro rfl
      exact absurd hc (by decide)
    have := Past.blank hr hspace (ht.past hstd hf (by decide)) '=' hhead
    exact absurd this (by decide)
  generalize r ++ (t ++ rest) = cs at hread hne
  have hge : ∀ c : Char, ([c, '=']).isPrefixOf (c :: cs) = false := by
    intro c
    cases cs with
    | nil => simp [List.isPrefixOf]
    | cons d cs =>
      have : '=' ≠ d := fun hd => hne (by rw [hd]; rfl)
      simp [List.isPrefixOf, this]
  simp only [orders, List.mem_cons, Prod.mk.injEq, List.not_mem_nil, or_false] at hop
  obtain ⟨rfl, rfl⟩ | ⟨rfl, rfl⟩ | ⟨rfl, rfl⟩ | ⟨rfl, rfl⟩ := hop
  · exact hread
  · exact hread
  · exact (if_neg (Bool.eq_false_iff.mp (hge '>'))).trans hread
  · exact (if_neg (Bool.eq_false_iff.mp (hge '<'))).trans hread

/-- A comparison is read where an expression may end behind it. -/
theorem readComparison_append {l : List Char} {e : GuardExpr} (hl : Blank l)
    (ht : Comparison std t e) (hr : Blank r) (hrest : Stop rest) :
    ∃ r', Blank r' ∧ readComparison std (l ++ (t ++ (r ++ rest))) = .ok e (r' ++ rest) := by
  have hfield (c : Char) (hspace : isWhitespace c = true) (hbyte : isByte c = true) :
      Parser.isFieldChar std c = false :=
    isFieldChar_of_isBreak hstd (isBreak_of_blank hspace hbyte)
  -- The field, with blanks and the rest of the comparison behind it.
  have comparison {path ys cs : List Char} (hpath : isPath path = true) (hl₂ : Blank ys)
      (hcs : Past (fun c => isWhitespace c || !isBreak c) cs) :
      readComparison std (l ++ ("ctx.".toList ++ (path ++ (ys ++ cs)))) =
        readOperator std (String.ofList path) cs := by
    have hpast : Past (Parser.isFieldChar std) cs := by
      intro c hc
      have := hcs c hc
      simp only [Bool.or_eq_false_iff, Bool.not_eq_false'] at this
      exact isFieldChar_of_isBreak hstd this.2
    have hspace : Past isWhitespace cs := fun c hc => (Bool.or_eq_false_iff.mp (hcs c hc)).1
    rw [readComparison, skipSpace_append hl (by exact .cons (by decide) _)]
    simp only [Read.bind]
    rw [readPath_append hstd hpath (hpast.blank hl₂ hfield)]
    simp only [skipSpace_append hl₂ hspace]
  cases ht with
  | truthy hpath =>
    rename_i path
    refine ⟨[], by simp [Blank], ?_⟩
    rw [List.append_assoc, comparison hpath hr (hrest.past (by decide)), readOperator_stop hrest]
    rfl
  | value hpath hl₂ hop hr₂ hliteral =>
    rename_i path ys r₂ t op e v
    refine ⟨r, hr, ?_⟩
    have := readOperator_equality hstd hop hr₂ hliteral (hrest.broken hr) (String.ofList path)
    simp only [List.append_assoc]
    rw [comparison hpath hl₂, this]
    simp only [equalities, List.mem_cons, Prod.mk.injEq, List.not_mem_nil, or_false] at hop
    obtain ⟨rfl, -⟩ | ⟨rfl, -⟩ := hop
    all_goals exact .cons (by decide) _
  | number hpath hl₂ hop hr₂ hnumeral hf =>
    rename_i path ys r₂ t op e f
    refine ⟨r, hr, ?_⟩
    have := readOperator_order hstd hop hr₂ hnumeral hf (hrest.broken hr) (String.ofList path)
    simp only [List.append_assoc]
    rw [comparison hpath hl₂, this]
    simp only [orders, List.mem_cons, Prod.mk.injEq, List.not_mem_nil, or_false] at hop
    obtain ⟨rfl, -⟩ | ⟨rfl, -⟩ | ⟨rfl, -⟩ | ⟨rfl, -⟩ := hop
    all_goals exact .cons (by decide) _

end

end Rstmdb

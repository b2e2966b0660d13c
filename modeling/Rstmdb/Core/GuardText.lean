import Rstmdb.Core.Guard

/-! Guards as characters. The parser goes through its input by bytes; here its parts
are functions of the characters that are left, and each of them does on the bytes
what its function does on the characters. -/
namespace Rstmdb
open Json (Value Number F64)

/-- The outcome of reading from a text: a panic, an error, or a value with the
characters behind it. -/
inductive Read (α : Type)
  | panic
  | error (e : CoreError)
  | ok (a : α) (rest : List Char)

def Read.bind {α β : Type} : Read α → (α → List Char → Read β) → Read β
  | .panic, _ => .panic
  | .error e, _ => .error e
  | .ok a rest, f => f a rest

/-! ## Positions -/

/-- The character is one byte. -/
def isByte (c : Char) : Bool := c.utf8Size = 1

variable {input cs : List Char} {pos : Nat}

theorem suffixAt_add {a : Nat} (h : suffixAt input a = some cs) (b : Nat) :
    suffixAt input (a + b) = suffixAt cs b := by
  fun_induction suffixAt input a with
  | case1 =>
    cases h
    rw [Nat.zero_add]
  | case2 | case4 => cases h
  | case3 c input a hle ih =>
    have hadd : a + 1 + b = (a + b) + 1 := by omega
    rw [hadd, suffixAt, if_pos (by omega), ← ih h]
    congr 1
    omega

/-- Behind characters of one byte each. -/
theorem suffixAt_bytes {l : List Char} (h : suffixAt input pos = some (l ++ cs))
    (hl : l.all isByte = true) : suffixAt input (pos + l.length) = some cs := by
  rw [suffixAt_add h]
  clear h
  induction l with
  | nil => simp [suffixAt]
  | cons c l ih =>
    obtain ⟨hc, hl⟩ := Bool.and_eq_true_iff.mp hl
    have hsize : c.utf8Size = 1 := of_decide_eq_true hc
    simp only [List.cons_append, List.length_cons, suffixAt, hsize]
    rw [if_pos (by omega), Nat.add_sub_cancel]
    exact ih hl

/-- A byte into a longer character there is no suffix. -/
theorem suffixAt_inside {c : Char} (h : suffixAt input pos = some (c :: cs))
    (hc : isByte c = false) : suffixAt input (pos + 1) = none := by
  have hsize : c.utf8Size ≠ 1 := of_decide_eq_false hc
  have hpos : 0 < c.utf8Size := c.utf8Size_pos
  rw [suffixAt_add h, suffixAt, if_neg (by omega)]

theorem suffixAt_past (h : suffixAt input pos = some []) (n : Nat) :
    suffixAt input (pos + (n + 1)) = none := by
  rw [suffixAt_add h]
  rfl

theorem takeBytes_bytes {l : List Char} (hl : l.all isByte = true) (cs : List Char) :
    takeBytes (l ++ cs) l.length = some l := by
  induction l with
  | nil => simp [takeBytes]
  | cons c l ih =>
    obtain ⟨hc, hl⟩ := Bool.and_eq_true_iff.mp hl
    have hsize : c.utf8Size = 1 := of_decide_eq_true hc
    simp only [List.cons_append, List.length_cons, takeBytes, hsize]
    rw [if_pos (by omega), Nat.add_sub_cancel, ih hl]
    rfl

theorem byteLength_cons (c : Char) (cs : List Char) :
    byteLength (c :: cs) = c.utf8Size + byteLength cs := by
  simp [byteLength]

theorem byteLength_le_of_suffixAt (h : suffixAt input pos = some cs) :
    byteLength cs + pos = byteLength input := by
  fun_induction suffixAt input pos with
  | case1 =>
    cases h
    rfl
  | case2 | case4 => cases h
  | case3 c input pos hle ih =>
    have := ih h
    rw [byteLength_cons]
    omega

theorem length_le_byteLength (cs : List Char) : cs.length ≤ byteLength cs := by
  induction cs with
  | nil => exact Nat.zero_le _
  | cons c cs ih =>
    have : 0 < c.utf8Size := c.utf8Size_pos
    rw [byteLength_cons, List.length_cons]
    omega

theorem length_lt_fuel (h : suffixAt input pos = some cs) : cs.length < byteLength input + 1 := by
  have := length_le_byteLength cs
  have := byteLength_le_of_suffixAt h
  omega

/-! ## Steps of the parser -/

namespace Parser

section
variable {α β : Type} {p : Parse α} {f : α → Parse β} {pos pos' : Nat}

theorem bind_none (h : p pos = none) : (p >>= f) pos = none := by
  show StateT.bind p f pos = none
  simp only [StateT.bind, bind, ExceptT.bind, ExceptT.mk, h]
  rfl

theorem bind_error {e : CoreError} (h : p pos = some (.error e)) :
    (p >>= f) pos = some (.error e) := by
  show StateT.bind p f pos = some (.error e)
  simp only [StateT.bind, bind, ExceptT.bind, ExceptT.mk, h]
  rfl

theorem bind_ok {a : α} (h : p pos = some (.ok (a, pos'))) : (p >>= f) pos = f a pos' := by
  show StateT.bind p f pos = f a pos'
  simp only [StateT.bind, bind, ExceptT.bind, ExceptT.mk, h]
  rfl

end

/-- What a run of the parser on the bytes shows of a reading of the characters. -/
def Shows {α : Type} (input : List Char) (out : Option (Except CoreError (α × Nat))) :
    Read α → Prop
  | .panic => out = none
  | .error e => out = some (.error e)
  | .ok a rest => ∃ pos', out = some (.ok (a, pos')) ∧ suffixAt input pos' = some rest

/-- The parser does on the bytes what the reader does on the characters. -/
def Simulates {α : Type} (input : List Char) (p : Parse α) (r : List Char → Read α) : Prop :=
  ∀ pos cs, suffixAt input pos = some cs → Shows input (p pos) (r cs)

section
variable {α β : Type} {input : List Char}

theorem Simulates.pure (a : α) : Simulates input (pure a) (.ok a) :=
  fun pos _ h => ⟨pos, rfl, h⟩

theorem Simulates.bind {p : Parse α} {r : List Char → Read α} {f : α → Parse β}
    {g : α → List Char → Read β} (hp : Simulates input p r)
    (hf : ∀ a, Simulates input (f a) (g a)) :
    Simulates input (p >>= f) fun cs => (r cs).bind g := by
  intro pos cs hcs
  have h := hp pos cs hcs
  cases hr : r cs with
  | panic =>
    simp only [hr, Read.bind] at h ⊢
    exact bind_none h
  | error e =>
    simp only [hr, Read.bind] at h ⊢
    exact bind_error h
  | ok a rest =>
    simp only [hr, Read.bind] at h ⊢
    obtain ⟨pos', hp', hrest⟩ := h
    rw [bind_ok hp']
    exact hf a pos' rest hrest

variable {pos : Nat} {cs : List Char}

theorem rest_eq (h : suffixAt input pos = some cs) : rest input pos = some (.ok (cs, pos)) := by
  unfold rest
  rw [bind_ok (p := get) (a := pos) rfl, h]
  rfl

theorem peekChar_eq (h : suffixAt input pos = some cs) :
    peekChar input pos = some (.ok (cs.head?, pos)) := by
  unfold peekChar
  rw [bind_ok (rest_eq h)]
  rfl

theorem peekStr_eq (h : suffixAt input pos = some cs) (s : String) :
    peekStr input s pos = some (.ok (s.toList.isPrefixOf cs, pos)) := by
  unfold peekStr
  rw [bind_ok (rest_eq h)]
  rfl

theorem peekChar_none (h : suffixAt input pos = none) : peekChar input pos = none := by
  unfold peekChar rest
  refine bind_none ?_
  rw [bind_ok (p := get) (a := pos) rfl, h]
  rfl

theorem advance_eq (bytes pos : Nat) : advance bytes pos = some (.ok ((), pos + bytes)) := rfl

/-- A branch on the text that comes next, which is stepped over. -/
theorem Simulates.ifStr {s : String} {n : Nat} (hn : n = s.toList.length)
    (hs : s.toList.all isByte = true) {K L : Parse α} {k l : List Char → Read α}
    (hK : Simulates input K k) (hL : Simulates input L l) :
    Simulates input
      (do if ← peekStr input s then
            advance n
            K
          else L)
      fun cs => if s.toList.isPrefixOf cs then k (cs.drop n) else l cs := by
  subst hn
  intro pos cs hcs
  have hpeek := peekStr_eq hcs s
  cases hp : s.toList.isPrefixOf cs with
  | false =>
    simp only [hp, Bool.false_eq_true, if_false]
    rw [bind_ok hpeek, hp, if_neg Bool.false_ne_true]
    exact hL pos cs hcs
  | true =>
    obtain ⟨rest, rfl⟩ := List.isPrefixOf_iff_prefix.mp hp
    simp only [hp, if_true, List.drop_left]
    rw [bind_ok hpeek, hp, if_pos rfl, bind_ok (advance_eq _ _)]
    exact hK _ rest (suffixAt_bytes hcs hs)

theorem Simulates.ifChar {c : Char} (hc : isByte c = true) {K L : Parse α}
    {k l : List Char → Read α} (hK : Simulates input K k) (hL : Simulates input L l) :
    Simulates input
      (do if (← peekChar input) = some c then
            advance 1
            K
          else L)
      fun cs => if cs.head? = some c then k cs.tail else l cs := by
  intro pos cs hcs
  by_cases hh : cs.head? = some c
  · obtain ⟨rest, rfl⟩ := List.head?_eq_some_iff.mp hh
    simp only [hh, if_true, List.tail_cons]
    rw [bind_ok (peekChar_eq hcs), if_pos hh, bind_ok (advance_eq _ _)]
    exact hK _ rest (suffixAt_bytes (l := [c]) hcs (by simp [hc]))
  · simp only [hh, if_false]
    rw [bind_ok (peekChar_eq hcs), if_neg hh]
    exact hL pos cs hcs

/-! ## Runs of characters -/

end

end Parser

/-- The characters of a class, each of which the parser steps over as one byte. -/
def readWhile (p : Char → Bool) (cs : List Char) : Read (List Char) :=
  if (cs.takeWhile p).all isByte then .ok (cs.takeWhile p) (cs.dropWhile p) else .panic

def skipSpace (cs : List Char) : Read Unit :=
  (readWhile isWhitespace cs).bind fun _ rest => .ok () rest

/-- A path in the context. -/
def readPath (std : StdText) (cs : List Char) : Read String :=
  if "ctx.".toList.isPrefixOf cs then
    (readWhile (Parser.isFieldChar std) (cs.drop 4)).bind fun path rest =>
      if path.isEmpty then .error (.invalidGuard "empty field name")
      else .ok (String.ofList path) rest
  else .error (.invalidGuard "field must start with 'ctx.'")

def decimals (cs : List Char) : List Char :=
  if cs.head? = some '.' then '.' :: cs.tail.takeWhile Parser.isAsciiDigit else []

/-- Digits, and a point with digits, all of it optional. -/
def digits (cs : List Char) : List Char :=
  cs.takeWhile Parser.isAsciiDigit ++ decimals (cs.dropWhile Parser.isAsciiDigit)

/-- A numeral with an optional sign. -/
def numeral (cs : List Char) : List Char :=
  if cs.head? = some '-' then '-' :: digits cs.tail else digits cs

def readNumeral (std : StdText) (cs : List Char) : Read F64 :=
  let numStr := String.ofList (numeral cs)
  match std.parseF64 numStr with
  | some num => .ok num (cs.drop (numeral cs).length)
  | none => .error (.invalidGuard ("invalid number: '" ++ numStr ++ "'"))

def readNumber (std : StdText) (cs : List Char) : Read F64 :=
  (skipSpace cs).bind fun _ cs => readNumeral std cs

/-- The characters up to the closing quote. A backslash takes the next byte along,
and there has to be one. -/
def readString : List Char → Read (List Char)
  | [] => .error (.invalidGuard "unterminated string")
  | c :: cs =>
    if c = Char.ofNat 34 then .ok [] cs
    else if c = Char.ofNat 92 then
      match cs with
      | [] => .panic
      | d :: cs =>
        if isByte d then (readString cs).bind fun s rest => .ok (c :: d :: s) rest else .panic
    else if isByte c then (readString cs).bind fun s rest => .ok (c :: s) rest
    else .panic

def readLiteral (std : StdText) (cs : List Char) : Read Value :=
  if "true".toList.isPrefixOf cs then .ok (.bool true) (cs.drop 4)
  else if "false".toList.isPrefixOf cs then .ok (.bool false) (cs.drop 5)
  else if "null".toList.isPrefixOf cs then .ok .null (cs.drop 4)
  else if cs.head? = some (Char.ofNat 34) then
    (readString cs.tail).bind fun s rest => .ok (.string (String.ofList s)) rest
  else
    (readNumber std cs).bind fun num rest =>
      match Number.fromF64 num with
      | some n => .ok (.number n) rest
      | none => .panic

def readValue (std : StdText) (cs : List Char) : Read Value :=
  (skipSpace cs).bind fun _ cs => readLiteral std cs

/-- What a comparison has behind its field. -/
def readOperator (std : StdText) (field : String) (cs : List Char) : Read GuardExpr :=
  let value (e : String → Value → GuardExpr) (cs : List Char) : Read GuardExpr :=
    (skipSpace cs).bind fun _ cs => (readValue std cs).bind fun v => .ok (e field v)
  let number (e : String → F64 → GuardExpr) (cs : List Char) : Read GuardExpr :=
    (skipSpace cs).bind fun _ cs => (readNumber std cs).bind fun n => .ok (e field n)
  if "==".toList.isPrefixOf cs then value .eq (cs.drop 2)
  else if "!=".toList.isPrefixOf cs then value .ne (cs.drop 2)
  else if ">=".toList.isPrefixOf cs then number .ge (cs.drop 2)
  else if "<=".toList.isPrefixOf cs then number .le (cs.drop 2)
  else if cs.head? = some '>' then number .gt cs.tail
  else if cs.head? = some '<' then number .lt cs.tail
  else .ok (.truthy field) cs

def readComparison (std : StdText) (cs : List Char) : Read GuardExpr :=
  (skipSpace cs).bind fun _ cs =>
    (readPath std cs).bind fun field cs =>
      (skipSpace cs).bind fun _ cs => readOperator std field cs

namespace Parser

section
variable {input : List Char} (std : StdText)

variable {fuel pos start : Nat} {cs : List Char}

/-- What a loop over a class of characters does. -/
theorem advanceWhile_eq {p : Char → Bool} (h : suffixAt input pos = some cs)
    (hf : cs.length < fuel) : advanceWhile input p fuel pos =
      if (cs.takeWhile p).all isByte then some (.ok ((), pos + (cs.takeWhile p).length))
      else none := by
  induction cs generalizing fuel pos with
  | nil =>
    obtain ⟨fuel, rfl⟩ : ∃ f, fuel = f + 1 := ⟨fuel - 1, by simp at hf; omega⟩
    rw [advanceWhile, bind_ok (peekChar_eq h)]
    rfl
  | cons c cs ih =>
    obtain ⟨fuel, rfl⟩ : ∃ f, fuel = f + 1 := ⟨fuel - 1, by simp at hf; omega⟩
    rw [advanceWhile, bind_ok (peekChar_eq h)]
    cases hp : p c with
    | false => simp [hp]; rfl
    | true =>
      simp only [List.head?_cons, hp, if_true, List.takeWhile_cons_of_pos, List.all_cons]
      rw [bind_ok (advance_eq _ _)]
      cases hc : isByte c with
      | true =>
        have hnext : suffixAt input (pos + 1) = some cs :=
          suffixAt_bytes (l := [c]) h (by simp [hc])
        rw [ih hnext (by simp at hf ⊢; omega)]
        simp [Nat.add_comm, Nat.add_left_comm]
      | false =>
        -- The next step looks at the text inside the character.
        obtain ⟨fuel, rfl⟩ : ∃ f, fuel = f + 1 := ⟨fuel - 1, by simp at hf; omega⟩
        rw [advanceWhile, bind_none (peekChar_none (suffixAt_inside h hc))]
        rfl

theorem advanceWhile_cases (p : Char → Bool) (h : suffixAt input pos = some cs) :
    (readWhile p cs = .panic ∧ advanceWhile input p (byteLength input + 1) pos = none) ∨
      ∃ taken rest, readWhile p cs = .ok taken rest ∧ cs = taken ++ rest ∧
        taken.all isByte = true ∧
        advanceWhile input p (byteLength input + 1) pos = some (.ok ((), pos + taken.length)) ∧
        suffixAt input (pos + taken.length) = some rest := by
  have hsplit : cs = cs.takeWhile p ++ cs.dropWhile p := (List.takeWhile_append_dropWhile).symm
  unfold readWhile
  rw [advanceWhile_eq (p := p) h (length_lt_fuel h)]
  cases hbytes : (cs.takeWhile p).all isByte with
  | false => exact .inl ⟨rfl, rfl⟩
  | true => exact .inr ⟨_, _, rfl, hsplit, hbytes, rfl, suffixAt_bytes (hsplit ▸ h) hbytes⟩

/-- `&input[start..pos]` over characters of one byte each. -/
theorem sliceFrom_eq {l : List Char} (h : suffixAt input start = some (l ++ cs))
    (hl : l.all isByte = true) :
    sliceFrom input start (start + l.length) = some (.ok (l, start + l.length)) := by
  unfold sliceFrom
  rw [bind_ok (p := get) (a := start + l.length) rfl, if_neg (by omega), h,
    bind_ok (p := sliced _) (a := l ++ cs) rfl, Nat.add_sub_cancel_left, takeBytes_bytes hl]
  rfl

theorem simulates_skipWhitespace : Simulates input (skipWhitespace input) skipSpace := by
  intro pos cs h
  unfold skipSpace skipWhitespace
  obtain ⟨hr, hrun⟩ | ⟨taken, rest, hr, -, -, hrun, hrest⟩ := advanceWhile_cases isWhitespace h
  · simp only [hr, Read.bind]
    exact hrun
  · simp only [hr, Read.bind]
    exact ⟨_, hrun, hrest⟩

theorem simulates_parseField : Simulates input (parseField std input) (readPath std) := by
  intro pos cs h
  unfold parseField readPath
  rw [bind_ok (p := get) (a := pos) rfl, bind_ok (peekStr_eq h "ctx.")]
  cases hp : "ctx.".toList.isPrefixOf cs with
  | false => rfl
  | true =>
    obtain ⟨cs, rfl⟩ := List.isPrefixOf_iff_prefix.mp hp
    have hstart : suffixAt input (pos + 4) = some cs := suffixAt_bytes h (by decide)
    have hdrop : ("ctx.".toList ++ cs).drop 4 = cs := rfl
    simp only [Bool.not_true, Bool.false_eq_true, if_false, if_true, hdrop]
    rw [bind_ok (advance_eq _ _)]
    obtain ⟨hr, hrun⟩ | ⟨path, rest, hr, rfl, hbytes, hrun, hrest⟩ :=
      advanceWhile_cases (isFieldChar std) hstart
    · simp only [hr, Read.bind]
      exact bind_none hrun
    · simp only [hr, Read.bind]
      rw [bind_ok hrun, bind_ok (sliceFrom_eq hstart hbytes)]
      cases path.isEmpty with
      | true => rfl
      | false => exact ⟨_, rfl, hrest⟩

theorem isByte_of_digit {c : Char} (h : isAsciiDigit c = true) : isByte c = true := by
  have hle : c ≤ '9' := by simpa [isAsciiDigit] using (Bool.and_eq_true_iff.mp h).2
  have hval : c.val ≤ 57 := hle
  simp only [isByte, Char.utf8Size, decide_eq_true_eq]
  rw [if_pos (by exact UInt32.le_trans hval (by decide))]

theorem all_isByte_of_digits (cs : List Char) : (cs.takeWhile isAsciiDigit).all isByte = true := by
  rw [List.all_eq_true]
  exact fun c hc => isByte_of_digit (List.mem_takeWhile_imp hc)

/-- Digits are never a danger. -/
theorem advanceDigits_eq (h : suffixAt input pos = some cs) :
    advanceWhile input isAsciiDigit (byteLength input + 1) pos =
        some (.ok ((), pos + (cs.takeWhile isAsciiDigit).length)) ∧
      suffixAt input (pos + (cs.takeWhile isAsciiDigit).length) =
        some (cs.dropWhile isAsciiDigit) := by
  have hok : readWhile isAsciiDigit cs =
      .ok (cs.takeWhile isAsciiDigit) (cs.dropWhile isAsciiDigit) := by
    rw [readWhile, if_pos (all_isByte_of_digits cs)]
  obtain ⟨hr, -⟩ | ⟨taken, rest, hr, -, -, hrun, hrest⟩ := advanceWhile_cases isAsciiDigit h
  · rw [hok] at hr
    cases hr
  · rw [hok] at hr
    cases hr
    exact ⟨hrun, hrest⟩

theorem all_isByte_decimals (cs : List Char) : (decimals cs).all isByte = true := by
  unfold decimals
  split
  · rw [List.all_cons, all_isByte_of_digits]
    rfl
  · rfl

theorem decimals_append (cs : List Char) : ∃ rest, cs = decimals cs ++ rest := by
  unfold decimals
  split
  · rename_i h
    obtain ⟨cs, rfl⟩ := List.head?_eq_some_iff.mp h
    exact ⟨cs.dropWhile isAsciiDigit, by simp⟩
  · exact ⟨cs, rfl⟩

theorem all_isByte_digits (cs : List Char) : (digits cs).all isByte = true := by
  rw [digits, List.all_append, all_isByte_of_digits, all_isByte_decimals]
  rfl

theorem digits_append (cs : List Char) : ∃ rest, cs = digits cs ++ rest := by
  obtain ⟨rest, hrest⟩ := decimals_append (cs.dropWhile isAsciiDigit)
  refine ⟨rest, ?_⟩
  rw [digits, List.append_assoc, ← hrest, List.takeWhile_append_dropWhile]

theorem all_isByte_numeral (cs : List Char) : (numeral cs).all isByte = true := by
  unfold numeral
  split
  · rw [List.all_cons, all_isByte_digits]
    rfl
  · exact all_isByte_digits cs

theorem numeral_append (cs : List Char) : ∃ rest, cs = numeral cs ++ rest := by
  unfold numeral
  split
  · rename_i h
    obtain ⟨cs, rfl⟩ := List.head?_eq_some_iff.mp h
    obtain ⟨rest, hrest⟩ := digits_append cs
    exact ⟨rest, by rw [List.tail_cons, List.cons_append, ← hrest]⟩
  · exact digits_append cs

theorem digits_step {α : Type} (h : suffixAt input pos = some cs) (k : Parse α) :
    (do advanceWhile input isAsciiDigit (byteLength input + 1)
        if (← peekChar input) = some '.' then
          advance 1
          advanceWhile input isAsciiDigit (byteLength input + 1)
        k) pos = k (pos + (digits cs).length) := by
  obtain ⟨hrun, hrest⟩ := advanceDigits_eq h
  rw [bind_ok hrun, bind_ok (peekChar_eq hrest)]
  dsimp only
  unfold digits decimals
  split
  · rename_i hpoint
    obtain ⟨rest, htail⟩ := List.head?_eq_some_iff.mp hpoint
    rw [htail] at hrest ⊢
    have hdec : suffixAt input (pos + (cs.takeWhile isAsciiDigit).length + 1) = some rest :=
      suffixAt_bytes (l := ['.']) hrest (by decide)
    rw [bind_ok (advance_eq _ _), bind_ok (advanceDigits_eq hdec).1]
    simp only [List.tail_cons, List.length_append, List.length_cons]
    congr 1
    omega
  · simp

theorem numeral_step {α : Type} (h : suffixAt input pos = some cs) (k : Nat → Parse α) :
    (do let start ← get
        if (← peekChar input) = some '-' then advance 1
        advanceWhile input isAsciiDigit (byteLength input + 1)
        if (← peekChar input) = some '.' then
          advance 1
          advanceWhile input isAsciiDigit (byteLength input + 1)
        k start) pos = k pos (pos + (numeral cs).length) := by
  rw [bind_ok (p := get) (a := pos) rfl, bind_ok (peekChar_eq h)]
  dsimp only
  unfold numeral
  split
  · rename_i hsign
    obtain ⟨tail, rfl⟩ := List.head?_eq_some_iff.mp hsign
    have hnext : suffixAt input (pos + 1) = some tail :=
      suffixAt_bytes (l := ['-']) h (by decide)
    rw [bind_ok (advance_eq _ _)]
    refine (digits_step hnext (k pos)).trans ?_
    simp only [List.tail_cons, List.length_cons]
    congr 1
    omega
  · exact digits_step h (k pos)

theorem simulates_parseNumber : Simulates input (parseNumber std input) (readNumber std) := by
  unfold parseNumber readNumber
  refine simulates_skipWhitespace.bind fun _ => ?_
  intro pos cs h
  unfold readNumeral
  refine Eq.mpr (congrArg (Shows input · _) (numeral_step h fun start => do
    let numStr := String.ofList (← sliceFrom input start)
    match std.parseF64 numStr with
    | some num => return num
    | none => invalidGuard ("invalid number: '" ++ numStr ++ "'"))) ?_
  obtain ⟨rest, hrest⟩ := numeral_append cs
  have hbytes := all_isByte_numeral cs
  dsimp only
  generalize numeral cs = n at hrest hbytes ⊢
  subst hrest
  rw [bind_ok (sliceFrom_eq h hbytes), List.drop_left]
  cases std.parseF64 (String.ofList n) with
  | none => rfl
  | some num => exact ⟨_, rfl, suffixAt_bytes h hbytes⟩

theorem stringLoop_panics (h : suffixAt input pos = none) :
    stringLoop input start fuel pos = none := by
  cases fuel with
  | zero => rfl
  | succ fuel =>
    rw [stringLoop]
    exact bind_none (peekChar_none h)

theorem stringLoop_shows {taken : List Char} (hstart : suffixAt input start = some (taken ++ cs))
    (htaken : taken.all isByte = true) (hfuel : cs.length < fuel) :
    Shows input (stringLoop input start fuel (start + taken.length))
      ((readString cs).bind fun s rest => .ok (.string (String.ofList (taken ++ s))) rest) := by
  induction fuel generalizing taken cs with
  | zero => omega
  | succ fuel ih =>
  have hpos : suffixAt input (start + taken.length) = some cs := suffixAt_bytes hstart htaken
  rw [stringLoop, bind_ok (peekChar_eq hpos)]
  -- What the loop does with the characters `l` taken in one step.
  have next {l rest : List Char} (hcs : cs = l ++ rest) (hl : l.all isByte = true)
      (hne : l ≠ []) :
      Shows input (stringLoop input start fuel (start + taken.length + l.length))
        (((readString rest).bind fun s rest => .ok (l ++ s) rest).bind
          fun s rest => .ok (.string (String.ofList (taken ++ s))) rest) := by
    subst hcs
    have hlen : 0 < l.length := List.length_pos_iff.mpr hne
    have htaken' : (taken ++ l).all isByte = true := by rw [List.all_append, htaken, hl]; rfl
    have hrest := @ih rest (taken ++ l) (by simpa using hstart) htaken'
      (by simp at hfuel; omega)
    rw [List.length_append, ← Nat.add_assoc] at hrest
    cases hr : readString rest with
    | panic | error => simpa only [hr, Read.bind] using hrest
    | ok s rest => simpa only [hr, Read.bind, List.append_assoc] using hrest
  cases cs with
  | nil => rfl
  | cons c cs =>
    unfold readString
    dsimp only [List.head?_cons]
    by_cases hquote : c = Char.ofNat 34
    · rw [if_pos hquote, if_pos hquote, bind_ok (sliceFrom_eq hstart htaken),
        bind_ok (advance_eq _ _)]
      subst hquote
      exact ⟨_, by rw [List.append_nil]; rfl, suffixAt_bytes (l := [_]) hpos (by decide)⟩
    rw [if_neg hquote, if_neg hquote, bind_ok (advance_eq _ _)]
    by_cases hslash : c = Char.ofNat 92
    · have hc : isByte c = true := by subst hslash; decide
      have hnext : suffixAt input (start + taken.length + 1) = some cs :=
        suffixAt_bytes (l := [c]) hpos (by simp [hc])
      rw [if_pos hslash, if_pos hslash]
      cases cs with
      | nil => exact stringLoop_panics (suffixAt_past hnext 0)
      | cons d cs =>
        dsimp only
        cases hd : isByte d with
        | true =>
          rw [if_pos rfl]
          exact next (l := [c, d]) rfl (by simp [hc, hd]) (by simp)
        | false => exact stringLoop_panics (suffixAt_inside hnext hd)
    · rw [if_neg hslash, if_neg hslash]
      cases hc : isByte c with
      | true =>
        rw [if_pos rfl]
        exact next (l := [c]) rfl (by simp [hc]) (by simp)
      | false => exact stringLoop_panics (suffixAt_inside hpos hc)

theorem parseStringValue_shows (h : suffixAt input pos = some (Char.ofNat 34 :: cs)) :
    Shows input (parseStringValue input pos)
      ((readString cs).bind fun s rest => .ok (.string (String.ofList s)) rest) := by
  have hnext : suffixAt input (pos + 1) = some cs := suffixAt_bytes (l := [_]) h (by decide)
  have hhead : (Char.ofNat 34 :: cs).head? = some (Char.ofNat 34) := rfl
  rw [parseStringValue, bind_ok (peekChar_eq h), if_neg (not_not_intro hhead),
    bind_ok (advance_eq _ _), bind_ok (p := get) (a := pos + 1) rfl]
  exact @stringLoop_shows _ _ _ _ [] hnext rfl (length_lt_fuel hnext)

theorem simulates_parseValue : Simulates input (parseValue std input) (readValue std) := by
  refine simulates_skipWhitespace.bind fun _ => ?_
  refine .ifStr rfl (by decide) (.pure _) ?_
  refine .ifStr rfl (by decide) (.pure _) ?_
  refine .ifStr rfl (by decide) (.pure _) ?_
  intro pos cs h
  rw [bind_ok (peekChar_eq h)]
  dsimp only
  by_cases hquote : cs.head? = some (Char.ofNat 34)
  · rw [if_pos hquote, if_pos hquote]
    obtain ⟨cs, rfl⟩ := List.head?_eq_some_iff.mp hquote
    exact parseStringValue_shows h
  · rw [if_neg hquote, if_neg hquote]
    refine (simulates_parseNumber std).bind (fun num => ?_) pos cs h
    intro pos cs h
    cases hn : Number.fromF64 num with
    | none => exact bind_none rfl
    | some n => exact ⟨pos, rfl, h⟩

theorem simulates_parseComparison :
    Simulates input (parseComparison std input) (readComparison std) := by
  have value (e : Value → GuardExpr) : Simulates input
      (do skipWhitespace input
          return e (← parseValue std input))
      fun cs => (skipSpace cs).bind fun _ cs => (readValue std cs).bind fun v => .ok (e v) :=
    simulates_skipWhitespace.bind fun _ => (simulates_parseValue std).bind fun v => .pure (e v)
  have number (e : F64 → GuardExpr) : Simulates input
      (do skipWhitespace input
          return e (← parseNumber std input))
      fun cs => (skipSpace cs).bind fun _ cs => (readNumber std cs).bind fun n => .ok (e n) :=
    simulates_skipWhitespace.bind fun _ => (simulates_parseNumber std).bind fun n => .pure (e n)
  refine simulates_skipWhitespace.bind fun _ => ?_
  refine (simulates_parseField std).bind fun field => ?_
  refine simulates_skipWhitespace.bind fun _ => ?_
  refine .ifStr rfl (by decide) (value _) ?_
  refine .ifStr rfl (by decide) (value _) ?_
  refine .ifStr rfl (by decide) (number _) ?_
  refine .ifStr rfl (by decide) (number _) ?_
  refine .ifChar (by decide) (number _) ?_
  refine .ifChar (by decide) (number _) ?_
  exact .pure _

end

end Parser

end Rstmdb

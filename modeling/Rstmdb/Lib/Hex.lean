import Mathlib

/-! Numbers in hexadecimal. Text of a fixed width is read back as the number, and text
without capitals is the text of the number that is read from it. -/
namespace Rstmdb.Hex

/-- The value of a hexadecimal digit of either case. -/
def digit (c : Char) : Option Nat :=
  if '0' ≤ c ∧ c ≤ '9' then some (c.toNat - '0'.toNat)
  else if 'a' ≤ c ∧ c ≤ 'f' then some (c.toNat - 'a'.toNat + 10)
  else if 'A' ≤ c ∧ c ≤ 'F' then some (c.toNat - 'A'.toNat + 10)
  else none

/-- The number that the digits continue. -/
def value : List Char → Nat → Option Nat
  | [], n => some n
  | c :: cs, n =>
    match digit c with
    | some d => value cs (n * 16 + d)
    | none => none

/-- The digits of a number in lower case, filled up with zeros on the left. -/
def text (width n : Nat) : List Char := (Nat.toDigits 16 n).leftpad width '0'

/-! ## Digits -/

variable {d n w : Nat} {c : Char} {cs : List Char}

theorem digit_digitChar (h : d < 16) : digit (Nat.digitChar d) = some d := by
  have hall : ∀ d < 16, digit (Nat.digitChar d) = some d := by decide
  exact hall d h

theorem toNat_of_digit (h : digit c = some d) : c.toNat < 103 := by
  unfold digit at h
  simp only [Char.le_def] at h
  split_ifs at h with hc hc hc <;>
    exact Nat.lt_of_le_of_lt (UInt32.le_iff_toNat_le.mp hc.2) (by decide)

/-- A digit takes one byte, is less than sixteen, and is the one that is written for its
value unless it is a capital. -/
theorem of_digit (h : digit c = some d) :
    c.utf8Size = 1 ∧ d < 16 ∧ (c.isUpper = false → Nat.digitChar d = c) := by
  have hall : ∀ n < 103, (digit (Char.ofNat n)).all (fun d =>
      (Char.ofNat n).utf8Size = 1 ∧ d < 16 ∧
        ((Char.ofNat n).isUpper = false → Nat.digitChar d = Char.ofNat n)) = true := by
    decide +kernel
  have hc := hall c.toNat (toNat_of_digit h)
  rw [Char.ofNat_toNat, h, Option.all_some] at hc
  exact of_decide_eq_true hc

/-! ## Text -/

theorem text_succ (w n : Nat) :
    text (w + 2) n = text (w + 1) (n / 16) ++ [Nat.digitChar (n % 16)] := by
  by_cases h : n < 16
  · rw [text, text, Nat.toDigits_of_lt_base h, Nat.div_eq_of_lt h, Nat.mod_eq_of_lt h,
      Nat.toDigits_of_lt_base (by decide)]
    simp [List.leftpad, List.replicate_succ']
  · rw [text, text, Nat.toDigits_of_base_le (by decide) (Nat.not_lt.mp h)]
    simp [List.leftpad, Nat.succ_sub_succ]

theorem text_one (h : n < 16) : text 1 n = [Nat.digitChar n] := by
  rw [text, Nat.toDigits_of_lt_base h]
  rfl

theorem value_append (cs ds : List Char) (n : Nat) :
    value (cs ++ ds) n = (value cs n).bind (value ds) := by
  induction cs generalizing n with
  | nil => rfl
  | cons c cs ih =>
    simp only [List.cons_append, value]
    cases digit c with
    | none => rfl
    | some d => exact ih _

theorem value_singleton (h : d < 16) (n : Nat) : value [Nat.digitChar d] n = some (n * 16 + d) := by
  rw [value, digit_digitChar h]
  rfl

theorem div_lt_of_lt_pow (h : n < 16 ^ (w + 1 + 1)) : n / 16 < 16 ^ (w + 1) := by
  rw [Nat.pow_succ] at h
  exact Nat.div_lt_of_lt_mul (by omega)

theorem value_text (h : n < 16 ^ (w + 1)) : value (text (w + 1) n) 0 = some n := by
  induction w generalizing n with
  | zero =>
    have hn : n < 16 := by simpa using h
    rw [text_one hn, value_singleton hn, Nat.zero_mul, Nat.zero_add]
  | succ w ih =>
    rw [text_succ, value_append, ih (div_lt_of_lt_pow h), Option.bind_some,
      value_singleton (Nat.mod_lt n (by decide))]
    congr 1
    omega

theorem length_text (h : n < 16 ^ (w + 1)) : (text (w + 1) n).length = w + 1 := by
  induction w generalizing n with
  | zero => rw [text_one (by simpa using h), List.length_singleton]
  | succ w ih =>
    rw [text_succ, List.length_append, ih (div_lt_of_lt_pow h), List.length_singleton]

theorem mem_text (h : n < 16 ^ (w + 1)) (hc : c ∈ text (w + 1) n) :
    ∃ d < 16, c = Nat.digitChar d := by
  induction w generalizing n with
  | zero =>
    have hn : n < 16 := by simpa using h
    rw [text_one hn, List.mem_singleton] at hc
    exact ⟨n, hn, hc⟩
  | succ w ih =>
    rw [text_succ, List.mem_append, List.mem_singleton] at hc
    obtain hc | hc := hc
    · exact ih (div_lt_of_lt_pow h) hc
    · exact ⟨n % 16, Nat.mod_lt n (by decide), hc⟩

/-! ## Reading -/

theorem utf8Len_of_value {m : Nat} (h : value cs m = some n) : String.utf8Len cs = cs.length := by
  induction cs generalizing m with
  | nil => rfl
  | cons c cs ih =>
    rw [value] at h
    split at h
    · rename_i d hd
      rw [String.utf8Len_cons, ih h, (of_digit hd).1, List.length_cons]
    · cases h

theorem text_of_value (hne : cs ≠ []) (hlower : ∀ c ∈ cs, c.isUpper = false)
    (h : value cs 0 = some n) : text cs.length n = cs := by
  induction cs using List.reverseRecOn generalizing n with
  | nil => exact absurd rfl hne
  | append_singleton cs c ih =>
    rw [value_append] at h
    obtain ⟨m, hm, hc⟩ := Option.bind_eq_some_iff.mp h
    rw [value] at hc
    split at hc
    · rename_i d hd
      cases hc
      obtain ⟨-, hd16, hchar⟩ := of_digit hd
      have hcd := hchar (hlower c (by simp))
      cases cs with
      | nil =>
        cases hm
        rw [List.nil_append, List.length_singleton, text_one (by omega)]
        simp [hcd]
      | cons a as =>
        have hrest := ih (by simp) (fun c' hc' => hlower c' (List.mem_append_left _ hc')) hm
        rw [List.length_append, List.length_cons, List.length_singleton, text_succ,
          show (m * 16 + d) / 16 = m by omega, show (m * 16 + d) % 16 = d by omega, hcd]
        rw [List.length_cons] at hrest
        rw [hrest]
    · cases hc

end Rstmdb.Hex

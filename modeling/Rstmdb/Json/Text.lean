import Rstmdb.Json.Value

/-! The compact text that `serde_json::to_vec` writes, and that it determines
the value. The text of a float is not modelled: its bits stand for it, in the concrete
externals alone. -/
namespace Rstmdb.Json

def quote : Char := Char.ofNat 34

def backslash : Char := Char.ofNat 92

/-- What stands after the backslash for a control character. -/
def controlCode (n : Nat) : List Char :=
  if n = 8 then ['b']
  else if n = 9 then ['t']
  else if n = 10 then ['n']
  else if n = 12 then ['f']
  else if n = 13 then ['r']
  else ['u', '0', '0', Nat.digitChar (n / 16), Nat.digitChar (n % 16)]

def charText (c : Char) : List Char :=
  if c = quote then [backslash, quote]
  else if c = backslash then [backslash, backslash]
  else if c.toNat < 32 then backslash :: controlCode c.toNat
  else [c]

def stringText (s : String) : List Char := quote :: (s.toList.flatMap charText ++ [quote])

def numberText : Number → List Char
  | .posInt n => Nat.toDigits 10 n.toNat
  | .negInt n => '-' :: Nat.toDigits 10 (n + 1)
  | .float bits => Nat.toDigits 10 bits.toNat ++ ['.', '0']

mutual

def text : Value → List Char
  | .null => ['n', 'u', 'l', 'l']
  | .bool b => if b then ['t', 'r', 'u', 'e'] else ['f', 'a', 'l', 's', 'e']
  | .number n => numberText n
  | .string s => stringText s
  | .array xs => '[' :: elementsText xs
  | .object fs => Char.ofNat 123 :: fieldsText fs

def elementsText : List Value → List Char
  | [] => [']']
  | v :: vs => text v ++ moreElementsText vs

def moreElementsText : List Value → List Char
  | [] => [']']
  | v :: vs => ',' :: (text v ++ moreElementsText vs)

def fieldsText : List (String × Value) → List Char
  | [] => [Char.ofNat 125]
  | (k, v) :: fs => stringText k ++ ':' :: (text v ++ moreFieldsText fs)

def moreFieldsText : List (String × Value) → List Char
  | [] => [Char.ofNat 125]
  | (k, v) :: fs => ',' :: (stringText k ++ ':' :: (text v ++ moreFieldsText fs))

end

/-! ## The text determines the value -/

theorem prefix_or_prefix {α : Type} {u v x y : List α} (h : u ++ x = v ++ y) :
    u <+: v ∨ v <+: u :=
  List.prefix_or_prefix_of_prefix (List.prefix_append u x) (h ▸ List.prefix_append v y)

theorem controlCode_starts : ∀ n < 32, ∀ m < 32, controlCode n <+: controlCode m → n = m := by
  decide

variable {x y : List Char}

theorem controlCode_inj {n m : Nat} (hn : n < 32) (hm : m < 32)
    (h : controlCode n ++ x = controlCode m ++ y) : n = m := by
  rcases prefix_or_prefix h with hp | hp
  · exact controlCode_starts n hn m hm hp
  · exact (controlCode_starts m hm n hn hp).symm

theorem controlCode_head (n : Nat) :
    ∃ c cs, controlCode n = c :: cs ∧ c ≠ quote ∧ c ≠ backslash := by
  unfold controlCode
  split_ifs <;> exact ⟨_, _, rfl, by decide, by decide⟩

/-- A character stands for itself, or behind a backslash under its code. -/
theorem charText_cases (c : Char) :
    (charText c = [c] ∧ c ≠ quote ∧ c ≠ backslash) ∨
      ∃ code, charText c = backslash :: code ∧
        (c = quote ∧ code = [quote] ∨ c = backslash ∧ code = [backslash] ∨
          c.toNat < 32 ∧ code = controlCode c.toNat) := by
  unfold charText
  split_ifs with h1 h2 h3
  · exact .inr ⟨_, rfl, .inl ⟨h1, rfl⟩⟩
  · exact .inr ⟨_, rfl, .inr (.inl ⟨h2, rfl⟩)⟩
  · exact .inr ⟨_, rfl, .inr (.inr ⟨h3, rfl⟩)⟩
  · exact .inl ⟨rfl, h1, h2⟩

theorem charText_head (c : Char) : ∃ b cs, charText c = b :: cs ∧ b ≠ quote := by
  rcases charText_cases c with ⟨h, hq, -⟩ | ⟨code, h, -⟩
  · exact ⟨_, _, h, hq⟩
  · exact ⟨_, _, h, by decide⟩

theorem charText_inj {c d : Char} (h : charText c ++ x = charText d ++ y) : c = d ∧ x = y := by
  have codes {n : Nat} {b : Char} (hb : b = quote ∨ b = backslash) {x y : List Char}
      (h : controlCode n ++ x = [b] ++ y) : False := by
    obtain ⟨a, as, ha, hq, hs⟩ := controlCode_head n
    simp only [ha, List.cons_append, List.nil_append, List.cons.injEq] at h
    rcases hb with rfl | rfl
    · exact hq h.1
    · exact hs h.1
  have hcd : c = d := by
    rcases charText_cases c with ⟨hc, -, hcb⟩ | ⟨code, hc, hcode⟩ <;>
      rcases charText_cases d with ⟨hd, -, hdb⟩ | ⟨code', hd, hcode'⟩ <;>
      simp only [hc, hd, List.cons_append, List.cons.injEq] at h
    · exact h.1
    · exact absurd h.1 hcb
    · exact absurd h.1.symm hdb
    · have h := h.2
      rcases hcode with ⟨rfl, rfl⟩ | ⟨rfl, rfl⟩ | ⟨hn, rfl⟩ <;>
        rcases hcode' with ⟨rfl, rfl⟩ | ⟨rfl, rfl⟩ | ⟨hm, rfl⟩
      · rfl
      · exact absurd (List.cons.inj h).1 (by decide)
      · exact (codes (.inl rfl) h.symm).elim
      · exact absurd (List.cons.inj h).1 (by decide)
      · rfl
      · exact (codes (.inr rfl) h.symm).elim
      · exact (codes (.inl rfl) h).elim
      · exact (codes (.inr rfl) h).elim
      · exact Char.toNat_inj.mp (controlCode_inj hn hm h)
  subst hcd
  exact ⟨rfl, List.append_cancel_left h⟩

theorem stringText_inj {s t : String} (h : stringText s ++ x = stringText t ++ y) :
    s = t ∧ x = y := by
  have chars (cs ds : List Char) (h : cs.flatMap charText ++ quote :: x =
      ds.flatMap charText ++ quote :: y) : cs = ds ∧ x = y := by
    induction cs generalizing ds with
    | nil =>
      cases ds with
      | nil => exact ⟨rfl, (List.cons.inj h).2⟩
      | cons d ds =>
        obtain ⟨b, bs, hb, hq⟩ := charText_head d
        simp only [List.flatMap_nil, List.nil_append, List.flatMap_cons, hb,
          List.cons_append, List.cons.injEq] at h
        exact absurd h.1.symm hq
    | cons c cs ih =>
      cases ds with
      | nil =>
        obtain ⟨b, bs, hb, hq⟩ := charText_head c
        simp only [List.flatMap_nil, List.nil_append, List.flatMap_cons, hb,
          List.cons_append, List.cons.injEq] at h
        exact absurd h.1 hq
      | cons d ds =>
        rw [List.flatMap_cons, List.flatMap_cons, List.append_assoc, List.append_assoc] at h
        obtain ⟨rfl, hrest⟩ := charText_inj h
        obtain ⟨rfl, hxy⟩ := ih ds hrest
        exact ⟨rfl, hxy⟩
  simp only [stringText, List.cons_append, List.append_assoc, List.cons.injEq, true_and,
    List.nil_append] at h
  obtain ⟨hs, hxy⟩ := chars _ _ h
  exact ⟨String.toList_inj.mp hs, hxy⟩

/-- What can follow a value: nothing, or a separator. -/
def Stops (x : List Char) : Prop := ∀ c ∈ x.head?, c = ',' ∨ c = ']' ∨ c = Char.ofNat 125

theorem Stops.not_digit (h : Stops x) : ∀ c ∈ x.head?, c.isDigit = false := by
  intro c hc
  rcases h c hc with rfl | rfl | rfl <;> decide

/-- Two texts with the same beginning of digits and then none. -/
theorem digits_inj {n m : Nat} (hx : ∀ c ∈ x.head?, c.isDigit = false)
    (hy : ∀ c ∈ y.head?, c.isDigit = false) (h : Nat.toDigits 10 n ++ x = Nat.toDigits 10 m ++ y) :
    n = m ∧ x = y := by
  have span {k : Nat} {z : List Char} (hz : ∀ c ∈ z.head?, c.isDigit = false) :
      (Nat.toDigits 10 k ++ z).takeWhile Char.isDigit = Nat.toDigits 10 k := by
    have hall : ∀ c ∈ Nat.toDigits 10 k, c.isDigit = true :=
      fun c hc => Nat.isDigit_of_mem_toDigits (by decide) (by decide) hc
    rw [List.takeWhile_append_of_pos hall]
    cases z with
    | nil => simp
    | cons c cs => simp [hz c rfl]
  have hd : Nat.toDigits 10 n = Nat.toDigits 10 m := by rw [← span hx, h, span hy]
  rw [hd] at h
  refine ⟨?_, List.append_cancel_left h⟩
  apply Nat.repr_inj.mp
  rw [Nat.repr_eq_ofList_toDigits, Nat.repr_eq_ofList_toDigits, hd]

theorem toDigits_head (n : Nat) : ∃ c cs, Nat.toDigits 10 n = c :: cs ∧ c.isDigit = true := by
  obtain ⟨c, cs, h⟩ := List.exists_cons_of_ne_nil (Nat.toDigits_ne_nil (b := 10) (n := n))
  exact ⟨c, cs, h, Nat.isDigit_of_mem_toDigits (b := 10) (n := n) (by decide) (by decide)
    (by simp [h])⟩

theorem numberText_head (n : Number) :
    ∃ c cs, numberText n = c :: cs ∧ (c.isDigit = true ∨ c = '-') := by
  cases n with
  | posInt n =>
    obtain ⟨c, cs, h, hd⟩ := toDigits_head n.toNat
    exact ⟨c, cs, h, .inl hd⟩
  | negInt n => exact ⟨_, _, rfl, .inr rfl⟩
  | float bits =>
    obtain ⟨c, cs, h, hd⟩ := toDigits_head bits.toNat
    exact ⟨c, cs ++ ['.', '0'], by simp [numberText, h], .inl hd⟩

theorem numberText_inj {n m : Number} (hx : Stops x) (hy : Stops y)
    (h : numberText n ++ x = numberText m ++ y) : n = m ∧ x = y := by
  -- A minus sign is no digit, and the point after a float's digits is no separator.
  have minus (k : Nat) (z z' : List Char) : Nat.toDigits 10 k ++ z ≠ '-' :: z' := by
    obtain ⟨c, cs, hc, hd⟩ := toDigits_head k
    rw [hc, List.cons_append]
    intro he
    rw [(List.cons.inj he).1] at hd
    exact absurd hd (by decide)
  have point (z : List Char) : ∀ c ∈ ('.' :: '0' :: z).head?, c.isDigit = false := by
    simp
  have stuck {z : List Char} (hz : Stops z) (z' : List Char) : z ≠ '.' :: '0' :: z' := by
    rintro rfl
    exact absurd (hz '.' rfl) (by decide)
  cases n with
  | posInt n =>
    cases m with
    | posInt m =>
      obtain ⟨hnm, hxy⟩ := digits_inj hx.not_digit hy.not_digit h
      exact ⟨by rw [UInt64.toNat_inj.mp hnm], hxy⟩
    | negInt m => exact (minus _ _ _ h).elim
    | float b =>
      simp only [numberText, List.append_assoc, List.cons_append, List.nil_append] at h
      exact (stuck hx _ (digits_inj hx.not_digit (point y) h).2).elim
  | negInt n =>
    cases m with
    | posInt m => exact (minus _ _ _ h.symm).elim
    | negInt m =>
      simp only [numberText, List.cons_append, List.cons.injEq, true_and] at h
      obtain ⟨hnm, hxy⟩ := digits_inj hx.not_digit hy.not_digit h
      exact ⟨by rw [Fin.ext (Nat.succ.inj hnm)], hxy⟩
    | float b =>
      simp only [numberText, List.append_assoc, List.cons_append, List.nil_append] at h
      exact (minus _ _ _ h.symm).elim
  | float b =>
    simp only [numberText, List.append_assoc, List.cons_append, List.nil_append] at h
    cases m with
    | posInt m => exact (stuck hy _ (digits_inj (point x) hy.not_digit h).2.symm).elim
    | negInt m => exact (minus _ _ _ h).elim
    | float b' =>
      simp only [List.append_assoc, List.cons_append, List.nil_append] at h
      obtain ⟨hb, hxy⟩ := digits_inj (point x) (point y) h
      simp only [List.cons.injEq, true_and] at hxy
      exact ⟨by rw [UInt64.toNat_inj.mp hb], hxy⟩

theorem stops_moreElements (vs : List Value) (x : List Char) :
    Stops (moreElementsText vs ++ x) := by
  cases vs <;> simp [moreElementsText, Stops]

theorem stops_moreFields (fs : List (String × Value)) (x : List Char) :
    Stops (moreFieldsText fs ++ x) := by
  cases fs <;> simp [moreFieldsText, Stops]

/-- The first character of a text says which kind of value it is. -/
def Value.kind : Value → Nat
  | .null => 0
  | .bool true => 1
  | .bool false => 2
  | .number _ => 3
  | .string _ => 4
  | .array _ => 5
  | .object _ => 6

def kindOf (c : Char) : Nat :=
  if c = 'n' then 0
  else if c = 't' then 1
  else if c = 'f' then 2
  else if c = quote then 4
  else if c = '[' then 5
  else if c = Char.ofNat 123 then 6
  else if c.isDigit || c = '-' then 3
  else 7

theorem text_head (v : Value) : ∃ c cs, text v = c :: cs ∧ kindOf c = v.kind := by
  cases v with
  | null => exact ⟨_, _, by rw [text], by decide⟩
  | bool b =>
    cases b with
    | false => exact ⟨'f', ['a', 'l', 's', 'e'], by simp [text], by decide⟩
    | true => exact ⟨'t', ['r', 'u', 'e'], by simp [text], by decide⟩
  | number n =>
    obtain ⟨c, cs, h, hc⟩ := numberText_head n
    refine ⟨c, cs, by rw [text, h], ?_⟩
    have hne {d : Char} (hd : d.isDigit = false) (hm : d ≠ '-') : c ≠ d := by
      rintro rfl
      simp_all
    simp [kindOf, Value.kind, hc, hne (d := 'n') (by decide) (by decide),
      hne (d := 't') (by decide) (by decide), hne (d := 'f') (by decide) (by decide),
      hne (d := quote) (by decide) (by decide), hne (d := '[') (by decide) (by decide),
      hne (d := Char.ofNat 123) (by decide) (by decide)]
  | string s => exact ⟨_, _, by rw [text, stringText], rfl⟩
  | array | object => exact ⟨_, _, by rw [text], rfl⟩

theorem kind_eq {v w : Value} (h : text v ++ x = text w ++ y) : v.kind = w.kind := by
  obtain ⟨c, cs, hc, hk⟩ := text_head v
  obtain ⟨d, ds, hd, hl⟩ := text_head w
  simp only [hc, hd, List.cons_append, List.cons.injEq] at h
  rw [← hk, ← hl, h.1]

/-- No value begins as the end of an array does. -/
theorem text_ne_close (v : Value) (x y : List Char) : text v ++ x ≠ ']' :: y := by
  obtain ⟨c, cs, hc, hk⟩ := text_head v
  intro h
  simp only [hc, List.cons_append, List.cons.injEq] at h
  have hclose : kindOf ']' = 7 := by decide
  rw [h.1, hclose] at hk
  revert hk
  cases v with
  | bool b => cases b <;> simp [Value.kind]
  | _ => simp [Value.kind]

theorem stringText_ne_close (s : String) (x y : List Char) :
    stringText s ++ x ≠ Char.ofNat 125 :: y := by
  intro h
  exact absurd (List.cons.inj h).1 (by decide)

mutual

/-- A value is read off the front of any text that goes on with a separator. -/
theorem text_inj : ∀ (v w : Value) {x y : List Char}, Stops x → Stops y →
    text v ++ x = text w ++ y → v = w ∧ x = y
  | .null, w, x, y, _, _, h => by
    have hk := kind_eq h
    cases w with
    | null => exact ⟨rfl, List.append_cancel_left h⟩
    | bool b => cases b <;> simp [Value.kind] at hk
    | _ => simp [Value.kind] at hk
  | .bool b, w, x, y, _, _, h => by
    have hk := kind_eq h
    cases w with
    | bool b' =>
      have hb : b = b' := by cases b <;> cases b' <;> simp [Value.kind] at hk ⊢
      subst hb
      exact ⟨rfl, List.append_cancel_left h⟩
    | _ => cases b <;> simp [Value.kind] at hk
  | .number n, w, x, y, hx, hy, h => by
    have hk := kind_eq h
    cases w with
    | number m =>
      rw [text, text] at h
      obtain ⟨rfl, hxy⟩ := numberText_inj hx hy h
      exact ⟨rfl, hxy⟩
    | bool b => cases b <;> simp [Value.kind] at hk
    | _ => simp [Value.kind] at hk
  | .string s, w, x, y, _, _, h => by
    have hk := kind_eq h
    cases w with
    | string t =>
      rw [text, text] at h
      obtain ⟨rfl, hxy⟩ := stringText_inj h
      exact ⟨rfl, hxy⟩
    | bool b => cases b <;> simp [Value.kind] at hk
    | _ => simp [Value.kind] at hk
  | .array vs, w, x, y, _, _, h => by
    have hk := kind_eq h
    cases w with
    | array ws =>
      rw [text, text] at h
      obtain ⟨rfl, hxy⟩ := elementsText_inj vs ws (List.cons.inj h).2
      exact ⟨rfl, hxy⟩
    | bool b => cases b <;> simp [Value.kind] at hk
    | _ => simp [Value.kind] at hk
  | .object fs, w, x, y, _, _, h => by
    have hk := kind_eq h
    cases w with
    | object gs =>
      rw [text, text] at h
      obtain ⟨rfl, hxy⟩ := fieldsText_inj fs gs (List.cons.inj h).2
      exact ⟨rfl, hxy⟩
    | bool b => cases b <;> simp [Value.kind] at hk
    | _ => simp [Value.kind] at hk

theorem elementsText_inj : ∀ (vs ws : List Value) {x y : List Char},
    elementsText vs ++ x = elementsText ws ++ y → vs = ws ∧ x = y
  | [], [], x, y, h => ⟨rfl, (List.cons.inj h).2⟩
  | [], w :: ws, x, y, h => by
    rw [elementsText, elementsText, List.append_assoc] at h
    exact (text_ne_close _ _ _ h.symm).elim
  | v :: vs, [], x, y, h => by
    rw [elementsText, elementsText, List.append_assoc] at h
    exact (text_ne_close _ _ _ h).elim
  | v :: vs, w :: ws, x, y, h => by
    rw [elementsText, elementsText, List.append_assoc, List.append_assoc] at h
    obtain ⟨rfl, hrest⟩ := text_inj v w (stops_moreElements vs x) (stops_moreElements ws y) h
    obtain ⟨rfl, hxy⟩ := moreElementsText_inj vs ws hrest
    exact ⟨rfl, hxy⟩

theorem moreElementsText_inj : ∀ (vs ws : List Value) {x y : List Char},
    moreElementsText vs ++ x = moreElementsText ws ++ y → vs = ws ∧ x = y
  | [], [], x, y, h => ⟨rfl, (List.cons.inj h).2⟩
  | [], w :: ws, x, y, h => by
    rw [moreElementsText, moreElementsText] at h
    exact absurd (List.cons.inj h).1 (by decide)
  | v :: vs, [], x, y, h => by
    rw [moreElementsText, moreElementsText] at h
    exact absurd (List.cons.inj h).1 (by decide)
  | v :: vs, w :: ws, x, y, h => by
    simp only [moreElementsText, List.cons_append, List.append_assoc, List.cons.injEq,
      true_and] at h
    obtain ⟨rfl, hrest⟩ := text_inj v w (stops_moreElements vs x) (stops_moreElements ws y) h
    obtain ⟨rfl, hxy⟩ := moreElementsText_inj vs ws hrest
    exact ⟨rfl, hxy⟩

theorem fieldsText_inj : ∀ (fs gs : List (String × Value)) {x y : List Char},
    fieldsText fs ++ x = fieldsText gs ++ y → fs = gs ∧ x = y
  | [], [], x, y, h => ⟨rfl, (List.cons.inj h).2⟩
  | [], (k, v) :: gs, x, y, h => by
    rw [fieldsText, fieldsText, List.append_assoc] at h
    exact (stringText_ne_close _ _ _ h.symm).elim
  | (k, v) :: fs, [], x, y, h => by
    rw [fieldsText, fieldsText, List.append_assoc] at h
    exact (stringText_ne_close _ _ _ h).elim
  | (k, v) :: fs, (l, w) :: gs, x, y, h => by
    simp only [fieldsText, List.cons_append, List.append_assoc] at h
    obtain ⟨rfl, hkey⟩ := stringText_inj h
    obtain ⟨rfl, hrest⟩ := text_inj v w (stops_moreFields fs x) (stops_moreFields gs y)
      (List.cons.inj hkey).2
    obtain ⟨rfl, hxy⟩ := moreFieldsText_inj fs gs hrest
    exact ⟨rfl, hxy⟩

theorem moreFieldsText_inj : ∀ (fs gs : List (String × Value)) {x y : List Char},
    moreFieldsText fs ++ x = moreFieldsText gs ++ y → fs = gs ∧ x = y
  | [], [], x, y, h => ⟨rfl, (List.cons.inj h).2⟩
  | [], (k, v) :: gs, x, y, h => by
    rw [moreFieldsText, moreFieldsText] at h
    exact absurd (List.cons.inj h).1 (by decide)
  | (k, v) :: fs, [], x, y, h => by
    rw [moreFieldsText, moreFieldsText] at h
    exact absurd (List.cons.inj h).1 (by decide)
  | (k, v) :: fs, (l, w) :: gs, x, y, h => by
    simp only [moreFieldsText, List.cons_append, List.append_assoc, List.cons.injEq,
      true_and] at h
    obtain ⟨rfl, hkey⟩ := stringText_inj h
    obtain ⟨rfl, hrest⟩ := text_inj v w (stops_moreFields fs x) (stops_moreFields gs y)
      (List.cons.inj hkey).2
    obtain ⟨rfl, hxy⟩ := moreFieldsText_inj fs gs hrest
    exact ⟨rfl, hxy⟩

end

theorem utf8Encode_injective :
    Function.Injective fun cs : List Char => cs.flatMap String.utf8EncodeChar := by
  intro cs ds h
  have hbytes : cs.utf8Encode = ds.utf8Encode := congrArg List.toByteArray h
  rw [← String.toByteArray_ofList, ← String.toByteArray_ofList] at hbytes
  have htext := congrArg String.toList (String.toByteArray_inj.mp hbytes)
  simpa only [String.toList_ofList] using htext

/-- `serde_json::to_vec` on a value. -/
def toVec (v : Value) : Bytes := (text v).flatMap String.utf8EncodeChar

theorem toVec_injective : Function.Injective toVec := by
  intro v w h
  have htext : text v = text w := utf8Encode_injective h
  exact (text_inj v w (x := []) (y := []) (by simp [Stops]) (by simp [Stops]) (by simp [htext])).1

end Rstmdb.Json

import Rstmdb.Core.GuardGrammar
import Mathlib.Logic.Relation

/-! A guard read from left to right without a tree: where the parser stands in the
text, and how many parentheses are open there. It goes over the same characters as the
parser and stops where the parser stops. -/
namespace Rstmdb
open Json (Value Number F64)

/-- What may come next. -/
inductive Place
  | operand
  /-- Behind a field. -/
  | operator
  /-- Behind `==` or `!=`. -/
  | literal
  /-- Behind one of the other operators. -/
  | numeral
  /-- Behind an operand. -/
  | after
  deriving DecidableEq

structure Scan where
  place : Place
  /-- Open parentheses. -/
  depth : Nat
  /-- Every field so far is a path. -/
  named : Bool
  rest : List Char
  deriving DecidableEq

/-- Before a string ends, there is a character of more than one byte, or a backslash
without a character of one byte behind it. -/
def isTorn : List Char → Bool
  | [] => false
  | c :: cs =>
    if c = Char.ofNat 34 then false
    else if c = Char.ofNat 92 then
      match cs with
      | [] => true
      | d :: cs => !isByte d || isTorn cs
    else !isByte c || isTorn cs

def isKeyword (cs : List Char) : Bool :=
  "true".toList.isPrefixOf cs || "false".toList.isPrefixOf cs || "null".toList.isPrefixOf cs

namespace Scan

/-- How the scan goes on. -/
inductive Turn
  | panics
  | fails
  | ends
  | goes (next : Scan)

section
variable (std : StdText)

/-- Where the parser slices inside of a character or past the end, or unwraps the number
that a literal is not. -/
def hazard (s : Scan) : Bool :=
  if s.rest.head?.any isWhitespace then s.rest.head?.any (!isByte ·)
  else
    match s.place with
    | .operand => "ctx.".toList.isPrefixOf s.rest &&
        ((s.rest.drop 4).takeWhile (Parser.isFieldChar std)).any (!isByte ·)
    | .literal =>
      if isKeyword s.rest then false
      else if s.rest.head? = some (Char.ofNat 34) then isTorn s.rest.tail
      else (std.parseF64 (String.ofList (numeral s.rest))).any (!·.isFinite)
    | _ => false

/-- Over a numeral. -/
def number (s : Scan) : Turn :=
  if (std.parseF64 (String.ofList (numeral s.rest))).isSome then
    .goes { s with place := .after, rest := s.rest.drop (numeral s.rest).length }
  else .fails

/-- Over the next token. -/
def token (s : Scan) : Turn :=
  match s.place with
  | .operand =>
    if s.rest.head? = some '!' then .goes { s with rest := s.rest.tail }
    else if s.rest.head? = some '(' then
      .goes { s with depth := s.depth + 1, rest := s.rest.tail }
    else if "ctx.".toList.isPrefixOf s.rest then
      let path := (s.rest.drop 4).takeWhile (Parser.isFieldChar std)
      if path.isEmpty then .fails
      else .goes { s with
        place := .operator
        named := s.named && isPath path
        rest := (s.rest.drop 4).dropWhile (Parser.isFieldChar std) }
    else .fails
  | .operator =>
    if "==".toList.isPrefixOf s.rest || "!=".toList.isPrefixOf s.rest then
      .goes { s with place := .literal, rest := s.rest.drop 2 }
    else if ">=".toList.isPrefixOf s.rest || "<=".toList.isPrefixOf s.rest then
      .goes { s with place := .numeral, rest := s.rest.drop 2 }
    else if s.rest.head? = some '>' || s.rest.head? = some '<' then
      .goes { s with place := .numeral, rest := s.rest.tail }
    else .goes { s with place := .after }
  | .literal =>
    if "true".toList.isPrefixOf s.rest then
      .goes { s with place := .after, rest := s.rest.drop 4 }
    else if "false".toList.isPrefixOf s.rest then
      .goes { s with place := .after, rest := s.rest.drop 5 }
    else if "null".toList.isPrefixOf s.rest then
      .goes { s with place := .after, rest := s.rest.drop 4 }
    else if s.rest.head? = some (Char.ofNat 34) then
      match readString s.rest.tail with
      | .ok _ rest => .goes { s with place := .after, rest }
      | _ => .fails
    else s.number std
  | .numeral => s.number std
  | .after =>
    if "&&".toList.isPrefixOf s.rest || "||".toList.isPrefixOf s.rest then
      .goes { s with place := .operand, rest := s.rest.drop 2 }
    else if s.depth = 0 then .ends
    else if s.rest.head? = some ')' then
      .goes { s with depth := s.depth - 1, rest := s.rest.tail }
    else .fails

/-- One step: over a character of whitespace, or over a token. -/
def turn (s : Scan) : Turn :=
  if s.hazard std then .panics
  else if s.rest.head?.any isWhitespace then .goes { s with rest := s.rest.tail }
  else s.token std

/-- At most `n` steps. -/
def walk : Nat → Scan → Scan
  | 0, s => s
  | n + 1, s =>
    match s.turn std with
    | .goes next => walk n next
    | _ => s

def Reaches : Scan → Scan → Prop := Relation.ReflTransGen fun s s' => s.turn std = .goes s'

/-- The scan stops, and in this way. -/
def Stops (s : Scan) (t : Turn) : Prop := ∃ s', s.Reaches std s' ∧ s'.turn std = t

end

def start (text : List Char) : Scan := ⟨.operand, 0, true, text⟩

section
variable {std : StdText} {s s' : Scan}

theorem Reaches.of_turn (h : s.turn std = .goes s') : s.Reaches std s' :=
  Relation.ReflTransGen.single h

theorem Reaches.trans {s'' : Scan} (h : s.Reaches std s') (h' : s'.Reaches std s'') :
    s.Reaches std s'' :=
  Relation.ReflTransGen.trans h h'

theorem reaches_walk (n : Nat) (s : Scan) : s.Reaches std (s.walk std n) := by
  induction n generalizing s with
  | zero => exact Relation.ReflTransGen.refl
  | succ n ih =>
    unfold walk
    split
    · rename_i next hturn
      exact (Reaches.of_turn hturn).trans (ih next)
    · exact Relation.ReflTransGen.refl

theorem Stops.of_reaches {t : Turn} (h : s.Reaches std s') (h' : s'.Stops std t) :
    s.Stops std t := by
  obtain ⟨s'', hreaches, ht⟩ := h'
  exact ⟨s'', h.trans hreaches, ht⟩

theorem reaches_eq_of_stopped (h : s.Reaches std s') (hs : ∀ s'', s.turn std ≠ .goes s'') :
    s' = s := by
  obtain rfl | ⟨s'', hgo, -⟩ := Relation.ReflTransGen.cases_head h
  · rfl
  · exact absurd hgo (hs s'')

/-- The scan stops at one place only. -/
theorem stopped_unique {s₁ s₂ : Scan} (h₁ : s.Reaches std s₁) (h₂ : s.Reaches std s₂)
    (hs₁ : ∀ s', s₁.turn std ≠ .goes s') (hs₂ : ∀ s', s₂.turn std ≠ .goes s') : s₁ = s₂ := by
  have unique : Relator.RightUnique fun s s' : Scan => s.turn std = .goes s' := by
    intro a b c hb hc
    cases hb.symm.trans hc
    rfl
  obtain h | h := Relation.ReflTransGen.total_of_right_unique unique h₁ h₂
  · exact (reaches_eq_of_stopped h hs₁).symm
  · exact reaches_eq_of_stopped h hs₂

theorem Stops.unique {t₁ t₂ : Turn} (h₁ : s.Stops std t₁) (h₂ : s.Stops std t₂)
    (ht₁ : ∀ s', t₁ ≠ .goes s') (ht₂ : ∀ s', t₂ ≠ .goes s') : t₁ = t₂ := by
  obtain ⟨s₁, hs₁, rfl⟩ := h₁
  obtain ⟨s₂, hs₂, rfl⟩ := h₂
  rw [stopped_unique hs₁ hs₂ ht₁ ht₂]

theorem turn_space {c : Char} {cs : List Char} (hrest : s.rest = c :: cs)
    (hspace : isWhitespace c = true) :
    s.turn std = if isByte c then .goes { s with rest := cs } else .panics := by
  cases hc : isByte c <;> simp [turn, hazard, hrest, hspace, hc]

theorem turn_of_hazard (h : s.hazard std = true) : s.turn std = .panics := if_pos h

theorem token_ne_panics : s.token std ≠ .panics := by
  unfold token number
  dsimp only
  repeat' split
  all_goals nofun

theorem safe_iff : (∀ s', s.Reaches std s' → s'.hazard std = false) ↔ ¬ s.Stops std .panics := by
  constructor
  · rintro h ⟨s', hreaches, hturn⟩
    have hs' := h s' hreaches
    simp only [turn, hs', Bool.false_eq_true, if_false] at hturn
    split at hturn
    · cases hturn
    · exact token_ne_panics hturn
  · intro h s' hreaches
    by_contra hhazard
    exact h ⟨s', hreaches, turn_of_hazard (by simpa using hhazard)⟩

theorem any_of_past (h : Past isWhitespace s.rest) : s.rest.head?.any isWhitespace = false := by
  cases hhead : s.rest.head? with
  | none => rfl
  | some c => exact h c hhead

theorem turn_of_past (h : Past isWhitespace s.rest) (hs : s.hazard std = false) :
    s.turn std = s.token std := by
  simp only [turn, hs, any_of_past h, Bool.false_eq_true, if_false]

theorem hazard_of_past (h : Past isWhitespace s.rest) :
    s.hazard std = match s.place with
      | .operand => "ctx.".toList.isPrefixOf s.rest &&
          ((s.rest.drop 4).takeWhile (Parser.isFieldChar std)).any (!isByte ·)
      | .literal =>
        if isKeyword s.rest then false
        else if s.rest.head? = some (Char.ofNat 34) then isTorn s.rest.tail
        else (std.parseF64 (String.ofList (numeral s.rest))).any (!·.isFinite)
      | _ => false := by
  simp only [hazard, any_of_past h, Bool.false_eq_true, if_false]

theorem turn_after (hplace : s.place = .after) (h : Past isWhitespace s.rest) :
    s.turn std = s.token std :=
  turn_of_past h (by rw [hazard_of_past h, hplace])

theorem Reaches.blank {l rest : List Char} (hl : Blank l) (hrest : s.rest = l ++ rest) :
    s.Reaches std { s with rest } := by
  induction l generalizing s with
  | nil =>
    rw [List.nil_append] at hrest
    subst hrest
    exact Relation.ReflTransGen.refl
  | cons c l ih =>
    obtain ⟨hspace, hbyte⟩ := hl c List.mem_cons_self
    have hturn : s.turn std = .goes { s with rest := l ++ rest } :=
      (turn_space hrest hspace).trans (if_pos hbyte)
    refine (Reaches.of_turn hturn).trans ?_
    exact ih (s := { s with rest := l ++ rest }) (fun d hd => hl d (List.mem_cons_of_mem c hd)) rfl

theorem Stops.space (h : skipSpace s.rest = .panic) : s.Stops std .panics := by
  induction hrest : s.rest generalizing s with
  | nil =>
    rw [hrest] at h
    cases h
  | cons c cs ih =>
    rw [hrest] at h
    cases hspace : isWhitespace c with
    | false => simp [skipSpace, readWhile, hspace, Read.bind] at h
    | true =>
      have hturn := @turn_space std _ _ _ hrest hspace
      cases hbyte : isByte c with
      | false =>
        rw [hbyte] at hturn
        exact ⟨s, Relation.ReflTransGen.refl, hturn⟩
      | true =>
        rw [hbyte] at hturn
        have hnext : skipSpace cs = .panic := by
          simp only [skipSpace, readWhile, List.takeWhile_cons_of_pos hspace, List.all_cons, hbyte,
            Bool.true_and, List.dropWhile_cons_of_pos hspace] at h ⊢
          split at h
          · cases h
          · rename_i hall
            rw [if_neg hall]
            rfl
        exact Stops.of_reaches (.of_turn hturn) (ih (s := { s with rest := cs }) hnext rfl)

theorem Stops.of_turn {t : Turn} (h : s.turn std = t) : s.Stops std t :=
  ⟨s, Relation.ReflTransGen.refl, h⟩

end

/-! ## The readers in step with the scan -/

/-- The outcome of a reader that begins where the scan `s` stands: it panics or fails as
the scan does, or has read something good. -/
def Sees {α : Type} (std : StdText) (s : Scan) (good : α → List Char → Prop) : Read α → Prop
  | .panic => s.Stops std .panics
  | .error _ => s.Stops std .fails
  | .ok a rest => good a rest

section
variable {std : StdText} {s s' : Scan} {α β : Type}

variable {r : Read α} {good : α → List Char → Prop}

theorem Sees.bind {f : α → List Char → Read β} {good' : β → List Char → Prop}
    (hr : s.Sees std good r) (hf : ∀ a rest, good a rest → s.Sees std good' (f a rest)) :
    s.Sees std good' (r.bind f) := by
  cases r with
  | panic | error => exact hr
  | ok a rest => exact hf a rest hr

theorem Sees.of_reaches (h : s.Reaches std s') (hr : s'.Sees std good r) : s.Sees std good r := by
  cases r with
  | panic | error => exact Stops.of_reaches h hr
  | ok a rest => exact hr

theorem sees_skipSpace :
    s.Sees std (fun _ rest => ∃ l, s.rest = l ++ rest ∧ Blank l ∧ Past isWhitespace rest)
      (skipSpace s.rest) := by
  cases hskip : skipSpace s.rest with
  | panic => exact .space hskip
  | error e =>
    simp only [skipSpace, readWhile] at hskip
    split at hskip <;> cases hskip
  | ok u rest => exact skipSpace_ok hskip

theorem Sees.mono {good' : α → List Char → Prop} (hr : s.Sees std good r)
    (h : ∀ a rest, good a rest → good' a rest) : s.Sees std good' r := by
  cases r with
  | panic | error => exact hr
  | ok a rest => exact h a rest hr

/-- To skip blanks and read on. -/
theorem Sees.skip {f : List Char → Read α} {target : α → List Char → Scan}
    (hf : ∀ rest, Past isWhitespace rest →
      ({ s with rest } : Scan).Sees std
        (fun a rest' => Reaches std { s with rest } (target a rest'))
        (f rest)) :
    s.Sees std (fun a rest => s.Reaches std (target a rest))
      ((skipSpace s.rest).bind fun _ cs => f cs) := by
  refine sees_skipSpace.bind fun _ rest ⟨l, hrest, hl, hpast⟩ => ?_
  have hreach := @Reaches.blank std _ _ _ hl hrest
  exact ((hf rest hpast).of_reaches hreach).mono fun _ _ h => hreach.trans h

end

section
variable {std : StdText} {d : Nat} {b : Bool} {cs : List Char}

theorem sees_readPath (hpast : Past isWhitespace cs) (hnot : cs.head? ≠ some '!')
    (hparen : cs.head? ≠ some '(') :
    Sees std ⟨.operand, d, b, cs⟩ (fun field rest =>
        Reaches std ⟨.operand, d, b, cs⟩ ⟨.operator, d, b && isPath field.toList, rest⟩)
      (readPath std cs) := by
  have hhazard := @hazard_of_past std ⟨.operand, d, b, cs⟩ hpast
  have hturn := @turn_of_past std ⟨.operand, d, b, cs⟩ hpast
  simp only [token, hnot, hparen, if_false] at hturn hhazard
  unfold readPath
  cases hctx : "ctx.".toList.isPrefixOf cs with
  | false =>
    simp only [hctx, Bool.false_and, Bool.false_eq_true, if_false] at hturn hhazard
    exact .of_turn (hturn hhazard)
  | true =>
    simp only [hctx, Bool.true_and, if_true] at hturn hhazard
    simp only [if_true, readWhile]
    generalize (cs.drop 4).takeWhile (Parser.isFieldChar std) = path at hturn hhazard ⊢
    rw [← List.not_all_eq_any_not] at hhazard
    cases hbytes : path.all isByte with
    | false =>
      rw [hbytes] at hhazard
      exact .of_turn (turn_of_hazard hhazard)
    | true =>
      rw [hbytes] at hhazard
      have hturn := hturn hhazard
      simp only [if_true, Read.bind]
      cases hempty : path.isEmpty with
      | true =>
        simp only [hempty, if_true] at hturn ⊢
        exact .of_turn hturn
      | false =>
        simp only [hempty, Bool.false_eq_true, if_false] at hturn ⊢
        refine .of_turn (hturn.trans ?_)
        rw [String.toList_ofList]

theorem sees_readNumeral {s : Scan} (hturn : s.turn std = s.number std) :
    s.Sees std (fun _ rest => s.Reaches std { s with place := .after, rest })
      (readNumeral std s.rest) := by
  unfold number at hturn
  unfold readNumeral
  cases hf : std.parseF64 (String.ofList (numeral s.rest)) with
  | none =>
    rw [hf] at hturn
    simp only [hf]
    exact Stops.of_turn hturn
  | some f =>
    rw [hf] at hturn
    simp only [hf]
    exact Reaches.of_turn hturn

theorem sees_readNumber :
    Sees std ⟨.numeral, d, b, cs⟩
      (fun _ rest => Reaches std ⟨.numeral, d, b, cs⟩ ⟨.after, d, b, rest⟩)
      (readNumber std cs) := by
  refine Sees.skip (s := ⟨.numeral, d, b, cs⟩) fun rest hpast => ?_
  exact sees_readNumeral (turn_of_past hpast (hazard_of_past hpast))

theorem readString_panic_iff {cs : List Char} : readString cs = .panic ↔ isTorn cs = true := by
  fun_induction readString cs with
  | case1 | case3 => simp [isTorn]
  | case2 cs =>
    unfold isTorn
    simp
  | case4 d cs hd hne ih =>
    cases hr : readString cs with
    | panic | error | ok => simpa [isTorn, hd, hr, Read.bind] using ih
  | case5 d cs hd hne => simp [isTorn, hd]
  | case6 c cs hquote hslash hc ih =>
    unfold isTorn
    cases hr : readString cs with
    | panic | error | ok => simpa [hquote, hslash, hc, hr, Read.bind] using ih
  | case7 c cs hquote hslash hc =>
    unfold isTorn
    simp [hquote, hslash, hc]

theorem sees_readValue :
    Sees std ⟨.literal, d, b, cs⟩
      (fun _ rest => Reaches std ⟨.literal, d, b, cs⟩ ⟨.after, d, b, rest⟩)
      (readValue std cs) := by
  refine Sees.skip (s := ⟨.literal, d, b, cs⟩) fun rest hpast => ?_
  have hhazard := @hazard_of_past std ⟨.literal, d, b, rest⟩ hpast
  have hturn := @turn_of_past std ⟨.literal, d, b, rest⟩ hpast
  simp only [isKeyword] at hhazard
  simp only [token] at hturn
  unfold readLiteral
  cases htrue : "true".toList.isPrefixOf rest with
  | true =>
    simp only [htrue, Bool.true_or, if_true] at hhazard hturn
    exact Reaches.of_turn (hturn hhazard)
  | false =>
  cases hfalse : "false".toList.isPrefixOf rest with
  | true =>
    simp only [htrue, hfalse, Bool.or_true, Bool.true_or, Bool.false_eq_true, if_true,
      if_false] at hhazard hturn
    exact Reaches.of_turn (hturn hhazard)
  | false =>
  cases hnull : "null".toList.isPrefixOf rest with
  | true =>
    simp only [htrue, hfalse, hnull, Bool.or_true, Bool.false_eq_true, if_true,
      if_false] at hhazard hturn
    exact Reaches.of_turn (hturn hhazard)
  | false =>
  simp only [htrue, hfalse, hnull, Bool.or_self, Bool.false_eq_true, if_false] at hhazard hturn ⊢
  by_cases hquote : rest.head? = some (Char.ofNat 34)
  · simp only [hquote, if_true] at hhazard hturn ⊢
    have htorn := @readString_panic_iff rest.tail
    cases hs : readString rest.tail with
    | panic => exact Stops.of_turn (turn_of_hazard (hhazard.trans (htorn.mp hs)))
    | error e =>
      have hno : isTorn rest.tail = false := by simpa [hs] using htorn
      rw [hs] at hturn
      exact Stops.of_turn (hturn (hhazard.trans hno))
    | ok s' rest' =>
      have hno : isTorn rest.tail = false := by simpa [hs] using htorn
      rw [hs] at hturn
      exact Reaches.of_turn (hturn (hhazard.trans hno))
  · simp only [hquote, if_false] at hhazard hturn ⊢
    have hskip : skipSpace rest = .ok () rest :=
      skipSpace_append (l := []) (by simp [Blank]) hpast
    have hnumber : readNumber std rest = readNumeral std rest := by rw [readNumber, hskip]; rfl
    rw [hnumber]
    unfold readNumeral
    simp only [number] at hturn
    cases hf : std.parseF64 (String.ofList (numeral rest)) with
    | none =>
      rw [hf] at hhazard hturn
      simp only [hf, Read.bind]
      exact Stops.of_turn (hturn hhazard)
    | some f =>
      rw [hf] at hhazard hturn
      simp only [hf, Read.bind, Number.fromF64]
      cases hfinite : f.isFinite with
      | false => exact Stops.of_turn (turn_of_hazard (hhazard.trans (by simp [hfinite])))
      | true => exact Reaches.of_turn (hturn (hhazard.trans (by simp [hfinite])))

theorem sees_operand {s : Scan} {place : Place} {α : Type} {read : List Char → Read α}
    {e : α → GuardExpr} {named : Bool}
    (hread : ∀ {cs}, Sees std ⟨place, d, b, cs⟩
      (fun _ rest => Reaches std ⟨place, d, b, cs⟩ ⟨.after, d, b, rest⟩) (read cs))
    (he : ∀ a, (e a).named = named) (hs : s.turn std = .goes ⟨place, d, b, cs⟩) :
    s.Sees std (fun e rest => s.Reaches std ⟨.after, d, b, rest⟩ ∧ e.named = named)
      ((skipSpace cs).bind fun _ cs => (read cs).bind fun a => .ok (e a)) := by
  have hgo := Reaches.of_turn hs
  refine (sees_skipSpace.of_reaches hgo).bind fun _ rest ⟨l, hrest, hl, hpast⟩ => ?_
  have hreach := hgo.trans (Reaches.blank hl hrest)
  refine (hread.of_reaches hreach).bind fun a rest' h => ?_
  exact ⟨hreach.trans h, he a⟩

theorem sees_readOperator (hpast : Past isWhitespace cs) (field : String) :
    Sees std ⟨.operator, d, b, cs⟩
      (fun e rest => Reaches std ⟨.operator, d, b, cs⟩ ⟨.after, d, b, rest⟩ ∧
        e.named = isPath field.toList)
      (readOperator std field cs) := by
  have hturn := @turn_of_past std ⟨.operator, d, b, cs⟩ hpast (hazard_of_past hpast)
  simp only [token] at hturn
  unfold readOperator
  dsimp only
  generalize "==".toList.isPrefixOf cs = eq at hturn ⊢
  generalize "!=".toList.isPrefixOf cs = ne at hturn ⊢
  generalize ">=".toList.isPrefixOf cs = ge at hturn ⊢
  generalize "<=".toList.isPrefixOf cs = le at hturn ⊢
  split_ifs with heq hne hge hle hgt hlt
  · exact sees_operand sees_readValue (fun _ => rfl) (hturn.trans (by simp [heq]))
  · exact sees_operand sees_readValue (fun _ => rfl) (hturn.trans (by simp [hne]))
  · exact sees_operand sees_readNumber (fun _ => rfl) (hturn.trans (by simp [heq, hne, hge]))
  · exact sees_operand sees_readNumber (fun _ => rfl) (hturn.trans (by simp [heq, hne, hle]))
  · exact sees_operand sees_readNumber (fun _ => rfl)
      (hturn.trans (by simp [heq, hne, hge, hle, hgt]))
  · exact sees_operand sees_readNumber (fun _ => rfl)
      (hturn.trans (by simp [heq, hne, hge, hle, hlt]))
  · exact ⟨.of_turn (hturn.trans (by simp [heq, hne, hge, hle, hgt, hlt])), rfl⟩

theorem sees_readComparison (hpast : Past isWhitespace cs) (hnot : cs.head? ≠ some '!')
    (hparen : cs.head? ≠ some '(') :
    Sees std ⟨.operand, d, b, cs⟩
      (fun e rest => Reaches std ⟨.operand, d, b, cs⟩ ⟨.after, d, b && e.named, rest⟩)
      (readComparison std cs) := by
  have hskip : skipSpace cs = .ok () cs := skipSpace_append (l := []) (by simp [Blank]) hpast
  rw [readComparison, hskip]
  refine (sees_readPath hpast hnot hparen).bind fun field rest hfield => ?_
  refine (sees_skipSpace.of_reaches hfield).bind fun _ rest' hspace => ?_
  obtain ⟨l, hrest, hl, hpast'⟩ := hspace
  have hreach := hfield.trans (Reaches.blank hl hrest)
  refine ((sees_readOperator hpast' field).of_reaches hreach).mono ?_
  rintro e rest'' ⟨hop, hnamed⟩
  rw [hnamed]
  exact hreach.trans hop

end

end Scan

/-! ## The parser in step with the scan -/

/-- The outcome of a part of the parser that begins where the scan `s` stands: it
panics or fails as the scan does, or has read something good. -/
def Scan.Follows {α : Type} (std : StdText) (input : List Char) (s : Scan)
    (good : α → List Char → Prop) : Option (Except CoreError (α × Nat)) → Prop
  | none => s.Stops std .panics
  | some (.error _) => s.Stops std .fails
  | some (.ok (a, pos)) => ∃ rest, suffixAt input pos = some rest ∧ good a rest

namespace Parser
open Scan

section
variable {std : StdText} {input : List Char} {s : Scan} {α β : Type}

variable {good : α → List Char → Prop} {out : Option (Except CoreError (α × Nat))}

theorem follows_bind {p : Parse α} {f : α → Parse β} {pos : Nat} {good' : β → List Char → Prop}
    (hp : s.Follows std input good (p pos))
    (hf : ∀ a pos' rest, suffixAt input pos' = some rest → good a rest →
      s.Follows std input good' (f a pos')) : s.Follows std input good' ((p >>= f) pos) := by
  cases hout : p pos with
  | none =>
    rw [bind_none hout]
    rw [hout] at hp
    exact hp
  | some out =>
    rw [hout] at hp
    cases out with
    | error e =>
      rw [bind_error hout]
      exact hp
    | ok out =>
      obtain ⟨rest, hrest, hgood⟩ := hp
      rw [bind_ok hout]
      exact hf _ _ rest hrest hgood

theorem follows_of_reaches {s' : Scan} (h : s.Reaches std s')
    (hout : s'.Follows std input good out) : s.Follows std input good out := by
  match out, hout with
  | none, hout | some (.error _), hout => exact hout.of_reaches h
  | some (.ok _), hout => exact hout

theorem follows_mono {good' : α → List Char → Prop} (h : s.Follows std input good out)
    (hgood : ∀ a rest, good a rest → good' a rest) : s.Follows std input good' out := by
  match out, h with
  | none, h | some (.error _), h => exact h
  | some (.ok _), h =>
    obtain ⟨rest, hrest, h⟩ := h
    exact ⟨rest, hrest, hgood _ _ h⟩

theorem follows_of_shows {r : Read α} (h : Shows input out r) (hr : s.Sees std good r) :
    s.Follows std input good out := by
  cases r with
  | panic | error =>
    cases h
    exact hr
  | ok a rest =>
    obtain ⟨pos, rfl, hrest⟩ := h
    exact ⟨rest, hrest, hr⟩

theorem skipWhitespace_follows {pos : Nat} (hpos : suffixAt input pos = some s.rest) :
    s.Follows std input (fun _ rest => ∃ l, s.rest = l ++ rest ∧ Blank l ∧ Past isWhitespace rest)
      (skipWhitespace input pos) :=
  follows_of_shows (simulates_skipWhitespace pos s.rest hpos) sees_skipSpace

end

end Parser

/-- From the operand at `s`, the text of `e` is read, and the scan is behind it. -/
structure Scan.Reads (std : StdText) (level : Level) (s : Scan) (e : GuardExpr)
    (rest : List Char) : Prop where
  reaches : s.Reaches std { s with place := .after, named := s.named && e.named, rest }
  text : ∃ l t r, s.rest = l ++ (t ++ (r ++ rest)) ∧ Blank l ∧ Blank r ∧ t ≠ [] ∧
    (e.named = true → Derives std level t e)

/-- Behind an expression of a level there is none of its operators. -/
def Closed : Level → List Char → Prop
  | .unary, _ => True
  | .and, rest => Past isWhitespace rest ∧ "&&".toList.isPrefixOf rest = false
  | .or, rest => Past isWhitespace rest ∧ "&&".toList.isPrefixOf rest = false ∧
      "||".toList.isPrefixOf rest = false

theorem Closed.skip {level : Level} {l rest : List Char} (h : Closed level (l ++ rest))
    (hl : Blank l) : Closed level rest := by
  have hnil (hpast : Past isWhitespace (l ++ rest)) : l = [] := by
    cases l with
    | nil => rfl
    | cons c l =>
      have := hpast c rfl
      rw [(hl c List.mem_cons_self).1] at this
      cases this
  cases level with
  | unary => trivial
  | and | or =>
    cases hnil h.1
    exact h

namespace Scan.Reads

section
variable {std : StdText} {level : Level} {s : Scan} {e : GuardExpr} {l cs rest : List Char}

theorem shorter (h : s.Reads std level e rest) : rest.length < s.rest.length := by
  obtain ⟨l, t, r, hrest, -, -, hne, -⟩ := h.text
  have := List.length_pos_iff.mpr hne
  simp [hrest]
  omega

theorem lift {level' : Level} (h : s.Reads std level e rest)
    (hlevel : ∀ {t e}, Derives std level t e → Derives std level' t e) :
    s.Reads std level' e rest := by
  obtain ⟨l, t, r, hrest, hl, hr, hne, hderives⟩ := h.text
  exact ⟨h.reaches, l, t, r, hrest, hl, hr, hne, fun hnamed => hlevel (hderives hnamed)⟩

/-- Blanks in front. -/
theorem before (h : ({ s with rest := cs } : Scan).Reads std level e rest) (hl : Blank l)
    (hcs : s.rest = l ++ cs) : s.Reads std level e rest := by
  obtain ⟨l', t, r, hrest, hl', hr, hne, hderives⟩ := h.text
  refine ⟨(Reaches.blank hl hcs).trans h.reaches, l ++ l', t, r, ?_, hl.append hl', hr, hne,
    hderives⟩
  rw [hcs, List.append_assoc]
  exact congrArg (l ++ ·) hrest

theorem behind (h : s.Reads std level e (l ++ rest)) (hl : Blank l) : s.Reads std level e rest := by
  obtain ⟨l', t, r, hrest, hl', hr, hne, hderives⟩ := h.text
  refine ⟨h.reaches.trans (Reaches.blank hl rfl), l', t, r ++ l, ?_, hl', hr.append hl, hne,
    hderives⟩
  rw [hrest, List.append_assoc]

end

end Scan.Reads

namespace Parser
open Scan

/-- The parser reads an expression of a level from wherever an operand may stand. -/
def Covers (std : StdText) (input : List Char) (level : Level) (p : Parse GuardExpr) (n : Nat) :
    Prop :=
  ∀ (s : Scan) (pos : Nat), s.place = .operand → suffixAt input pos = some s.rest →
    s.rest.length < n →
    s.Follows std input (fun e rest => s.Reads std level e rest ∧ Closed level rest) (p pos)

section
variable {std : StdText} {input : List Char} {s : Scan}

theorem parseComparison_follows {pos : Nat} (hplace : s.place = .operand)
    (hpos : suffixAt input pos = some s.rest) (hpast : Past isWhitespace s.rest)
    (hnot : s.rest.head? ≠ some '!') (hparen : s.rest.head? ≠ some '(') :
    s.Follows std input (s.Reads std .unary) (parseComparison std input pos) := by
  obtain ⟨place, d, b, cs⟩ := s
  cases hplace
  refine follows_of_shows (simulates_parseComparison std pos cs hpos) ?_
  have hsees := @sees_readComparison std d b _ hpast hnot hparen
  cases hread : readComparison std cs with
  | panic | error =>
    rw [hread] at hsees
    exact hsees
  | ok e rest =>
    rw [hread] at hsees
    obtain ⟨l, t, r, hrest, hl, hr, hne, hcomparison⟩ := readComparison_ok hread
    refine ⟨hsees, l, t, r, by simpa using hrest, hl, hr, hne, ?_⟩
    exact fun hnamed => .comparison (hcomparison hnamed)

end

/-- A left-associative operator over the operands of a level. -/
structure Chain (std : StdText) (op : String) (combine : GuardExpr → GuardExpr → GuardExpr)
    (inner outer : Level) : Prop where
  op_eq : op = "&&" ∨ op = "||"
  lift : ∀ {t e}, Derives std inner t e → Derives std outer t e
  derives : ∀ {t l r t' e e'}, Derives std outer t e → Blank l → Blank r →
    Derives std inner t' e' → Derives std outer (t ++ l ++ op.toList ++ r ++ t') (combine e e')
  named : ∀ e e', (combine e e').named = (e.named && e'.named)
  closed : ∀ {rest}, Past isWhitespace rest → Closed inner rest →
    op.toList.isPrefixOf rest = false → Closed outer rest

theorem andChain (std : StdText) : Chain std "&&" .and .unary .and where
  op_eq := .inl rfl
  lift := .unary
  derives h hl hr h' := .and h hl hr h'
  named _ _ := rfl
  closed hpast _ hop := ⟨hpast, hop⟩

theorem orChain (std : StdText) : Chain std "||" .or .and .or where
  op_eq := .inr rfl
  lift := .chain
  derives h hl hr h' := .or h hl hr h'
  named _ _ := rfl
  closed hpast hclosed hop := ⟨hpast, hclosed.2, hop⟩

section
variable {std : StdText} {input : List Char} {s : Scan} {op : String}
  {combine : GuardExpr → GuardExpr → GuardExpr} {inner outer : Level} {operand : Parse GuardExpr}
  {n : Nat}

theorem Chain.length (h : Chain std op combine inner outer) : op.toList.length = 2 := by
  obtain rfl | rfl := h.op_eq <;> rfl

theorem Chain.bytes (h : Chain std op combine inner outer) : op.toList.all isByte = true := by
  obtain rfl | rfl := h.op_eq <;> decide

variable {cs rest : List Char} {pos : Nat} {unary : Parse GuardExpr}

theorem Chain.turn (h : Chain std op combine inner outer) (hplace : s.place = .after)
    (hrest : s.rest = op.toList ++ cs) :
    s.turn std = .goes { s with place := .operand, rest := cs } := by
  obtain ⟨place, d, b, text⟩ := s
  cases hplace
  cases hrest
  obtain rfl | rfl := h.op_eq <;> rfl

/-- One more operand. -/
theorem Chain.reads (h : Chain std op combine inner outer) {left right : GuardExpr}
    (hleft : s.Reads std outer left (op.toList ++ cs))
    (hright : ({ s with place := .operand, named := s.named && left.named, rest := cs } :
      Scan).Reads std inner right rest) : s.Reads std outer (combine left right) rest := by
  obtain ⟨l, t, r, hrest, hl, hr, hne, hderives⟩ := hleft.text
  obtain ⟨l', t', r', hrest', hl', hr', -, hderives'⟩ := hright.text
  have hreaches := (hleft.reaches.trans (.of_turn (h.turn rfl rfl))).trans hright.reaches
  refine ⟨?_, l, t ++ r ++ op.toList ++ l' ++ t', r', ?_, hl, hr', by simp [hne], ?_⟩
  · rw [h.named, ← Bool.and_assoc]
    exact hreaches
  · simp only at hrest'
    simp [hrest, hrest']
  · rw [h.named]
    intro hnamed
    obtain ⟨hl, hr⟩ := Bool.and_eq_true_iff.mp hnamed
    exact h.derives (hderives hl) ‹_› hl' (hderives' hr)

theorem operands_follows (h : Chain std op combine inner outer)
    (hoperand : Covers std input inner operand n) (hn : s.rest.length ≤ n) {left : GuardExpr}
    {fuel : Nat} (hpos : suffixAt input pos = some cs) (hleft : s.Reads std outer left cs)
    (hpast : Past isWhitespace cs) (hclosed : Closed inner cs) (hfuel : cs.length < fuel) :
    s.Follows std input (fun e rest => s.Reads std outer e rest ∧ Closed outer rest)
      (operands input op combine operand left fuel pos) := by
  induction fuel generalizing left cs pos with
  | zero => omega
  | succ fuel ih =>
    rw [operands, bind_ok (peekStr_eq hpos op)]
    cases hop : op.toList.isPrefixOf cs with
    | false => exact ⟨cs, hpos, hleft, h.closed hpast hclosed hop⟩
    | true =>
      obtain ⟨cs, rfl⟩ := List.isPrefixOf_iff_prefix.mp hop
      rw [if_pos rfl, bind_ok (advance_eq _ _)]
      have hpos₁ : suffixAt input (pos + 2) = some cs := by
        rw [← h.length]
        exact suffixAt_bytes hpos h.bytes
      have hreach₁ := hleft.reaches.trans (.of_turn (h.turn rfl rfl))
      refine follows_bind (follows_of_reaches hreach₁ (skipWhitespace_follows hpos₁)) ?_
      intro _ pos₂ cs₂ hpos₂ ⟨l, hcs, hl, _⟩
      simp only at hcs
      have hlen : cs₂.length < n := by
        have := hleft.shorter
        simp [hcs] at this
        omega
      have hreach₂ := hreach₁.trans (.blank hl hcs)
      refine follows_bind (follows_of_reaches hreach₂ (hoperand _ _ rfl hpos₂ hlen)) ?_
      intro right pos₃ cs₃ hpos₃ ⟨hright, hclosed₃⟩
      have hreads := h.reads hleft (hright.before hl hcs)
      refine follows_bind (follows_of_reaches hreads.reaches (skipWhitespace_follows hpos₃)) ?_
      intro _ pos₄ cs₄ hpos₄ ⟨l', hcs', hl', hpast'⟩
      simp only at hcs'
      subst hcs'
      have hshort := hright.shorter
      refine ih hpos₄ (hreads.behind hl') hpast' (hclosed₃.skip hl') ?_
      simp [hcs, h.length] at hfuel hshort
      omega

theorem chain_covers (h : Chain std op combine inner outer)
    (hoperand : Covers std input inner operand n) :
    Covers std input outer (do
      let left ← operand
      skipWhitespace input
      operands input op combine operand left (byteLength input + 1)) n := by
  intro s pos hplace hpos hn
  refine follows_bind (hoperand s pos hplace hpos hn) ?_
  intro left pos₁ cs₁ hpos₁ ⟨hleft, hclosed⟩
  refine follows_bind (follows_of_reaches hleft.reaches (skipWhitespace_follows hpos₁)) ?_
  intro _ pos₂ cs₂ hpos₂ ⟨l, hcs, hl, hpast⟩
  simp only at hcs
  subst hcs
  exact operands_follows h hoperand (Nat.le_of_lt hn) hpos₂ ((hleft.lift h.lift).behind hl) hpast
    (hclosed.skip hl) (length_lt_fuel hpos₂)

theorem parseAnd_covers (h : Covers std input .unary unary n) :
    Covers std input .and (parseAnd input unary) n :=
  chain_covers (andChain std) h

theorem parseOr_covers (h : Covers std input .unary unary n) :
    Covers std input .or (parseOr input unary) n :=
  chain_covers (orChain std) (parseAnd_covers h)

theorem skipWhitespace_past (hpos : suffixAt input pos = some cs) (hpast : Past isWhitespace cs) :
    skipWhitespace input pos = some (.ok ((), pos)) := by
  rw [skipWhitespace, advanceWhile, bind_ok (peekChar_eq hpos)]
  cases cs with
  | nil => rfl
  | cons c cs =>
    simp only [List.head?_cons, hpast c rfl, Bool.false_eq_true, if_false]
    rfl

theorem turn_paren (hplace : s.place = .operand) (hrest : s.rest = '(' :: cs) :
    s.turn std = .goes { s with depth := s.depth + 1, rest := cs } := by
  obtain ⟨place, d, b, text⟩ := s
  cases hplace
  cases hrest
  rfl

theorem turn_not (hplace : s.place = .operand) (hrest : s.rest = '!' :: cs) :
    s.turn std = .goes { s with rest := cs } := by
  obtain ⟨place, d, b, text⟩ := s
  cases hplace
  cases hrest
  rfl

/-- Inside a parenthesis, an expression has to have the closing one behind it. -/
theorem turn_unclosed (hplace : s.place = .after) (hdepth : s.depth ≠ 0)
    (hclosed : Closed .or s.rest) (hparen : s.rest.head? ≠ some ')') :
    s.turn std = .fails := by
  obtain ⟨hpast, hand, hor⟩ := hclosed
  rw [turn_after hplace hpast, token, hplace]
  simp only [hand, hor, hdepth, hparen, Bool.or_self, Bool.false_eq_true, if_false]

theorem reads_paren {e : GuardExpr} (hplace : s.place = .operand) (hrest : s.rest = '(' :: cs)
    (h : ({ s with depth := s.depth + 1, rest := cs } : Scan).Reads std .or e (')' :: rest)) :
    s.Reads std .unary e rest := by
  obtain ⟨l, t, r, hcs, hl, hr, hne, hderives⟩ := h.text
  refine ⟨(Reaches.of_turn (turn_paren hplace hrest)).trans (h.reaches.trans (.of_turn rfl)), [],
    '(' :: l ++ t ++ r ++ [')'], [], ?_, by simp [Blank], by simp [Blank], by simp, ?_⟩
  · simp only at hcs
    simp [hrest, hcs]
  · exact fun hnamed => .paren hl (hderives hnamed) hr

theorem reads_not {e : GuardExpr} (hplace : s.place = .operand) (hrest : s.rest = '!' :: cs)
    (h : ({ s with rest := cs } : Scan).Reads std .unary e rest) :
    s.Reads std .unary (.not e) rest := by
  obtain ⟨l, t, r, hcs, hl, hr, hne, hderives⟩ := h.text
  refine ⟨(Reaches.of_turn (turn_not hplace hrest)).trans h.reaches, [], '!' :: l ++ t, r, ?_,
    by simp [Blank], hr, by simp, ?_⟩
  · simp only at hcs
    simp [hrest, hcs]
  · exact fun hnamed => .not hl (hderives hnamed)

theorem parsePrimary_follows (h : Covers std input .unary unary n) (hplace : s.place = .operand)
    (hpos : suffixAt input pos = some s.rest) (hpast : Past isWhitespace s.rest)
    (hnot : s.rest.head? ≠ some '!') (hn : s.rest.length < n + 1) :
    s.Follows std input (s.Reads std .unary) (parsePrimary std input unary pos) := by
  rw [parsePrimary, bind_ok (skipWhitespace_past hpos hpast), bind_ok (peekChar_eq hpos)]
  by_cases hparen : s.rest.head? = some '('
  · obtain ⟨cs, hrest⟩ := List.head?_eq_some_iff.mp hparen
    rw [if_pos hparen, bind_ok (advance_eq _ _)]
    have hpos₁ : suffixAt input (pos + 1) = some cs := by
      rw [hrest] at hpos
      exact suffixAt_bytes (l := ['(']) hpos (by decide)
    have hopen := Reaches.of_turn (@turn_paren std _ _ hplace hrest)
    have hlen : cs.length < n := by
      rw [hrest] at hn
      simpa using hn
    refine follows_bind (follows_of_reaches hopen (parseOr_covers h _ _ hplace hpos₁ hlen)) ?_
    intro e pos₂ cs₂ hpos₂ ⟨hreads, hclosed⟩
    rw [bind_ok (skipWhitespace_past hpos₂ hclosed.1), bind_ok (peekChar_eq hpos₂)]
    by_cases hclose : cs₂.head? = some ')'
    · obtain ⟨rest, rfl⟩ := List.head?_eq_some_iff.mp hclose
      rw [if_neg (not_not_intro hclose), bind_ok (advance_eq _ _)]
      exact ⟨rest, suffixAt_bytes (l := [')']) hpos₂ (by decide), reads_paren hplace hrest hreads⟩
    · rw [if_pos hclose]
      refine ⟨_, hopen.trans hreads.reaches, ?_⟩
      exact turn_unclosed rfl (Nat.succ_ne_zero _) hclosed hclose
  · rw [if_neg hparen]
    exact parseComparison_follows hplace hpos hpast hnot hparen

theorem parseUnary_covers (std : StdText) (input : List Char) (depth : Nat) :
    Covers std input .unary (parseUnary std input depth) depth := by
  induction depth with
  | zero =>
    intro s pos hplace hpos hn
    omega
  | succ depth ih =>
    intro s pos hplace hpos hn
    refine follows_bind (skipWhitespace_follows hpos) ?_
    intro _ pos₁ cs₁ hpos₁ ⟨l, hcs, hl, hpast⟩
    have hreach := @Reaches.blank std _ _ _ hl hcs
    have hlen : cs₁.length < depth + 1 := by
      rw [hcs, List.length_append] at hn
      omega
    refine follows_of_reaches hreach (follows_mono ?_ fun e rest h =>
      ⟨Reads.before h hl hcs, trivial⟩)
    rw [bind_ok (peekChar_eq hpos₁)]
    by_cases hnot : cs₁.head? = some '!'
    · obtain ⟨cs, rfl⟩ := List.head?_eq_some_iff.mp hnot
      rw [if_pos hnot, bind_ok (advance_eq _ _)]
      have hpos₂ : suffixAt input (pos₁ + 1) = some cs :=
        suffixAt_bytes (l := ['!']) hpos₁ (by decide)
      have hturn := Reaches.of_turn (@turn_not std { s with rest := '!' :: cs } _
        hplace rfl)
      refine follows_bind (follows_of_reaches hturn (skipWhitespace_follows hpos₂)) ?_
      intro _ pos₃ cs₃ hpos₃ ⟨l', hcs', hl', _⟩
      simp only at hcs'
      have hlen' : cs₃.length < depth := by
        simp [hcs'] at hlen
        omega
      refine follows_bind (follows_of_reaches (hturn.trans (.blank hl' hcs'))
        (ih _ _ hplace hpos₃ hlen')) ?_
      intro e pos₄ rest hpos₄ ⟨hreads, _⟩
      exact ⟨rest, hpos₄, reads_not hplace rfl (hreads.before hl' hcs')⟩
    · rw [if_neg hnot]
      exact parsePrimary_follows ih hplace hpos₁ hpast hnot hlen

theorem parseExpr_covers (std : StdText) (input : List Char) :
    Covers std input .or (parseExpr std input) (byteLength input + 1) :=
  parseOr_covers (parseUnary_covers std input _)

end

end Parser

/-! ## Panics -/

theorem Scan.turn_ends {std : StdText} {s : Scan} (hplace : s.place = .after)
    (hdepth : s.depth = 0) (hclosed : Closed .or s.rest) : s.turn std = .ends := by
  obtain ⟨hpast, hand, hor⟩ := hclosed
  rw [turn_after hplace hpast, token, hplace]
  simp only [hand, hor, hdepth, Bool.or_self, Bool.false_eq_true, if_false, if_true]

namespace GuardExpr

theorem parse_cases (std : StdText) (s : String) :
    (GuardExpr.parse std s = none ∧ (Scan.start (trim s.toList)).Stops std .panics) ∨
    (∃ e, GuardExpr.parse std s = some (.error e) ∧
      (Scan.start (trim s.toList)).Stops std .fails) ∨
    ∃ e rest, GuardExpr.parse std s = some (.ok e) ∧
      (Scan.start (trim s.toList)).Reads std .or e rest ∧ Closed .or rest := by
  unfold GuardExpr.parse
  generalize trim s.toList = input
  cases hempty : input.isEmpty with
  | true =>
    cases List.isEmpty_iff.mp hempty
    exact .inr (.inl ⟨_, rfl, _, Relation.ReflTransGen.refl, rfl⟩)
  | false =>
    have hfollows := Parser.parseExpr_covers std input (Scan.start input) 0 rfl
      (by simp [Scan.start, suffixAt]) (Nat.lt_succ_of_le (length_le_byteLength input))
    simp only [hempty, Bool.false_eq_true, if_false]
    cases hout : Parser.parseExpr std input 0 with
    | none =>
      rw [hout] at hfollows
      exact .inl ⟨rfl, hfollows⟩
    | some out =>
      rw [hout] at hfollows
      cases out with
      | error e => exact .inr (.inl ⟨e, rfl, hfollows⟩)
      | ok out =>
        obtain ⟨e, pos⟩ := out
        obtain ⟨rest, -, hreads, hclosed⟩ := hfollows
        exact .inr (.inr ⟨e, rest, rfl, hreads, hclosed⟩)

/-- The parser returns exactly when the places it comes to hold no hazard: whitespace, a
field or a string with a character of more than one byte, a backslash in a string without a
character of one byte behind it, or a literal of `==` or `!=` that is too large. -/
theorem parse_returns_iff (std : StdText) (s : String) :
    (∃ result, GuardExpr.parse std s = some result) ↔
      ∀ place, (Scan.start (trim s.toList)).Reaches std place → place.hazard std = false := by
  rw [Scan.safe_iff]
  obtain ⟨hparse, hstops⟩ | ⟨e, hparse, hstops⟩ | ⟨e, rest, hparse, hreads, hclosed⟩ :=
    parse_cases std s
  · simp [hparse, hstops]
  · refine iff_of_true ⟨_, hparse⟩ fun hpanics => ?_
    cases hstops.unique hpanics (by simp) (by simp)
  · refine iff_of_true ⟨_, hparse⟩ fun hpanics => ?_
    have hends : (Scan.start (trim s.toList)).Stops std .ends :=
      ⟨_, hreads.reaches, Scan.turn_ends rfl rfl hclosed⟩
    cases hends.unique hpanics (by simp) (by simp)

end GuardExpr

/-- The standard library on ASCII without numbers. -/
def asciiText : StdText := ⟨Char.isAlphanum, fun _ => none⟩

/-- A string with a letter of two bytes. -/
theorem GuardExpr.parse_panics : GuardExpr.parse asciiText "ctx.name == \"é\"" = none :=
  Option.isNone_iff_eq_none.mp (by decide +kernel)

end Rstmdb

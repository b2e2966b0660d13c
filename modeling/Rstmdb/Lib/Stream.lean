import Mathlib.Data.List.Basic

/-! Decoders that take values off the front of a growing buffer. One that never
takes an answer back gives the same values, and ends in the same way, however its
input is cut into chunks. -/
namespace Rstmdb

/-- A decoder: the buffer afterwards, and a value with the state to go on from, an
error, or `none` when it needs more. -/
abbrev Decode (σ β ε α : Type) := σ → List β → List β × Except ε (Option (α × σ))

namespace Decode

variable {σ β ε α : Type}

/-- A decoder that leaves the buffer alone while it waits, keeps its answer when
more arrives, and takes something for every value. -/
structure Incremental (d : Decode σ β ε α) : Prop where
  empty : ∀ s, d s [] = ([], .ok none)
  waits : ∀ {s buf rest}, d s buf = (rest, .ok none) → rest = buf
  stable : ∀ {s buf rest a}, d s buf = (rest, a) → a ≠ .ok none →
    ∀ more, d s (buf ++ more) = (rest ++ more, a)
  consumes : ∀ {s buf rest v}, d s buf = (rest, .ok (some v)) → rest.length < buf.length

/-- The decoder that acts on each value as long as its state is ready, and fails where
the action does. -/
def act {γ τ ε' : Type} (d : Decode Unit β ε α) (ready : τ → Bool) (fail : ε → ε')
    (go : τ → α → Except ε' (γ × τ)) : Decode τ β ε' γ := fun s buf =>
  if ready s then
    match d () buf with
    | (rest, .error e) => (rest, .error (fail e))
    | (rest, .ok none) => (rest, .ok none)
    | (rest, .ok (some (a, _))) => (rest, (go s a).map some)
  else (buf, .ok none)

theorem Incremental.act {γ τ ε' : Type} {d : Decode Unit β ε α} (hd : Incremental d)
    (ready : τ → Bool) (fail : ε → ε') (go : τ → α → Except ε' (γ × τ)) :
    Incremental (d.act ready fail go) where
  empty s := by simp [Decode.act, hd.empty]
  waits {s buf rest} h := by
    simp only [Decode.act] at h
    split at h
    · rcases hb : d () buf with ⟨b, e | _ | ⟨a, t⟩⟩
      · simp [hb] at h
      · simp only [hb, Prod.mk.injEq, and_true] at h
        rw [← h, hd.waits hb]
      · cases hr : go s a <;> simp [hb, hr, Except.map] at h
    · cases h
      rfl
  stable {s buf rest a} h ha more := by
    simp only [Decode.act] at h ⊢
    split at h
    · rename_i hready
      rw [if_pos hready]
      rcases hb : d () buf with ⟨b, e | _ | ⟨v, t⟩⟩
      · simp only [hb, Prod.mk.injEq] at h
        obtain ⟨rfl, rfl⟩ := h
        simp [hd.stable hb (by simp) more]
      · simp only [hb, Prod.mk.injEq] at h
        exact absurd h.2.symm ha
      · simp only [hb, Prod.mk.injEq] at h
        obtain ⟨rfl, rfl⟩ := h
        simp [hd.stable hb (by simp) more]
    · cases h
      exact absurd rfl ha
  consumes {s buf rest v} h := by
    simp only [Decode.act] at h
    split at h
    · rcases hb : d () buf with ⟨b, e | _ | ⟨a, t⟩⟩
      · simp [hb] at h
      · simp [hb] at h
      · simp only [hb, Prod.mk.injEq] at h
        rw [← h.1]
        exact hd.consumes hb
    · cases h

/-- One call after another until one needs more or fails: the values, and how it ended. -/
def drain (d : Decode σ β ε α) : Nat → σ → List β → List α × Except ε (σ × List β)
  | 0, s, buf => ([], .ok (s, buf))
  | fuel + 1, s, buf =>
    match d s buf with
    | (_, .error e) => ([], .error e)
    | (rest, .ok none) => ([], .ok (s, rest))
    | (rest, .ok (some (a, s'))) => (a :: (drain d fuel s' rest).1, (drain d fuel s' rest).2)

/-- As many calls as there are elements are enough. -/
def decodeAll (d : Decode σ β ε α) (s : σ) (buf : List β) : List α × Except ε (σ × List β) :=
  drain d buf.length s buf

/-- What is decoded after an outcome, put behind what was decoded before it. -/
def andThen (p : List α × Except ε (σ × List β))
    (go : σ → List β → List α × Except ε (σ × List β)) : List α × Except ε (σ × List β) :=
  match p with
  | (as, .error e) => (as, .error e)
  | (as, .ok (s, rest)) => (as ++ (go s rest).1, (go s rest).2)

/-- The input in chunks, decoded as far as it goes after each of them; nothing is
read after an error. -/
def feed (d : Decode σ β ε α) : List (List β) → σ → List β → List α × Except ε (σ × List β)
  | [], s, buf => ([], .ok (s, buf))
  | chunk :: chunks, s, buf => andThen (decodeAll d s (buf ++ chunk)) (feed d chunks)

theorem andThen_assoc (p : List α × Except ε (σ × List β))
    (f g : σ → List β → List α × Except ε (σ × List β)) :
    andThen (andThen p f) g = andThen p fun s rest => andThen (f s rest) g := by
  obtain ⟨as, e | ⟨s, rest⟩⟩ := p
  · rfl
  · rcases hf : f s rest with ⟨bs, e | ⟨s', rest'⟩⟩
    · simp [andThen, hf]
    · simp [andThen, hf]

variable {d : Decode σ β ε α}

variable {buf rest : List β} {s : σ}

section
variable (hd : Incremental d)
include hd

theorem drain_fuel {n m : Nat} (s : σ) (hn : buf.length ≤ n)
    (hm : buf.length ≤ m) : drain d n s buf = drain d m s buf := by
  induction n generalizing m s buf with
  | zero =>
    obtain rfl : buf = [] := List.length_eq_zero_iff.mp (by omega)
    cases m <;> simp [drain, hd.empty]
  | succ n ih =>
    cases m with
    | zero =>
      obtain rfl : buf = [] := List.length_eq_zero_iff.mp (by omega)
      simp [drain, hd.empty]
    | succ m =>
      simp only [drain]
      split
      · rfl
      · rfl
      · rename_i rest a s' h
        have := hd.consumes h
        rw [ih (m := m) s' (by omega) (by omega)]

theorem decodeAll_wait (h : d s buf = (rest, .ok none)) :
    decodeAll d s buf = ([], .ok (s, buf)) := by
  rw [decodeAll, drain_fuel hd s Nat.le.refl (Nat.le_succ _)]
  simp [drain, h, hd.waits h]

theorem decodeAll_error {e : ε} (h : d s buf = (rest, .error e)) :
    decodeAll d s buf = ([], .error e) := by
  rw [decodeAll, drain_fuel hd s Nat.le.refl (Nat.le_succ _)]
  simp [drain, h]

theorem decodeAll_some {s' : σ} {a : α} (h : d s buf = (rest, .ok (some (a, s')))) :
    decodeAll d s buf = andThen ([a], .ok (s', rest)) (decodeAll d) := by
  have hc := hd.consumes h
  have hfuel : drain d buf.length s' rest = decodeAll d s' rest :=
    drain_fuel hd s' (Nat.le_of_lt hc) Nat.le.refl
  rw [decodeAll, drain_fuel hd s Nat.le.refl (Nat.le_succ _)]
  simp [drain, h, andThen, hfuel]

/-- The loop ends at an error or where the decoder waits. -/
theorem decodeAll_settled {s' : σ} {as : List α}
    (h : decodeAll d s buf = (as, .ok (s', rest))) : d s' rest = (rest, .ok none) := by
  induction hn : buf.length using Nat.strongRecOn generalizing s buf as with
  | ind n ih =>
    rcases hb : d s buf with ⟨b, e | _ | ⟨a, t⟩⟩
    · simp [decodeAll_error hd hb] at h
    · rw [decodeAll_wait hd hb] at h
      cases h
      rw [hb, hd.waits hb]
    · rw [decodeAll_some hd hb] at h
      have hc := hd.consumes hb
      rcases hr : decodeAll d t b with ⟨bs, e | ⟨t', rest'⟩⟩
      · simp [andThen, hr] at h
      · simp only [andThen, hr, Prod.mk.injEq, Except.ok.injEq] at h
        obtain ⟨-, rfl, rfl⟩ := h
        exact ih b.length (by omega) hr rfl

/-- Decoding can stop at any point of the input and go on when the rest arrives. -/
theorem decodeAll_append (s : σ) (buf more : List β) :
    decodeAll d s (buf ++ more) =
      andThen (decodeAll d s buf) fun s' rest => decodeAll d s' (rest ++ more) := by
  induction hn : buf.length using Nat.strongRecOn generalizing s buf with
  | ind n ih =>
    rcases hb : d s buf with ⟨b, e | _ | ⟨a, t⟩⟩
    · rw [decodeAll_error hd hb, decodeAll_error hd (hd.stable hb (by simp) more)]
      rfl
    · rw [decodeAll_wait hd hb]
      simp [andThen]
    · have hc := hd.consumes hb
      rw [decodeAll_some hd hb, decodeAll_some hd (hd.stable hb (by simp) more), andThen_assoc]
      simp only [andThen]
      rw [ih b.length (by omega) t b rfl]
      rfl

theorem feed_eq_decodeAll (chunks : List (List β)) (hw : d s buf = (buf, .ok none)) :
    feed d chunks s buf = decodeAll d s (buf ++ chunks.flatten) := by
  induction chunks generalizing s buf with
  | nil => simp [feed, decodeAll_wait hd hw]
  | cons chunk chunks ih =>
    have hsplit : buf ++ (chunk :: chunks).flatten = (buf ++ chunk) ++ chunks.flatten := by simp
    rw [feed, hsplit, decodeAll_append hd s (buf ++ chunk)]
    rcases hc : decodeAll d s (buf ++ chunk) with ⟨as, e | ⟨t, rest⟩⟩
    · rfl
    · simp only [andThen]
      rw [ih (decodeAll_settled hd hc)]

/-- The chunks do not matter. -/
theorem feed_chunks {chunks chunks' : List (List β)}
    (h : chunks.flatten = chunks'.flatten) (s : σ) : feed d chunks s [] = feed d chunks' s [] := by
  rw [feed_eq_decodeAll hd chunks (hd.empty s), feed_eq_decodeAll hd chunks' (hd.empty s), h]

end

end Decode

end Rstmdb

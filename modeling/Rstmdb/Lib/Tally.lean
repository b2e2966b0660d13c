import Rstmdb.Lib.Runs

/-! Quantities along a run: what its steps add up to, and a sum over a list of parts of
which a step changes one. -/
namespace Rstmdb

section
variable {σ ι : Type}

/-- The sum over the steps of a run. -/
def tally (step : σ → ι → Option σ) (f : σ → ι → Nat) : σ → List ι → Nat
  | _, [] => 0
  | s, i :: is =>
    f s i +
      match step s i with
      | some s' => tally step f s' is
      | none => 0

/-- A quantity that every step takes up and down by so much has gone up and down by the
sums over the run. -/
theorem run_tally (step : σ → ι → Option σ) (d : σ → Int) (up down : σ → ι → Nat) {P : σ → Prop}
    (keeps : ∀ s i t, P s → step s i = some t → P t ∧ d t + down s i = d s + up s i) {s t : σ}
    {is : List ι} (hs : P s) (h : run step s is = some t) :
    d t + tally step down s is = d s + tally step up s is := by
  induction is generalizing s with
  | nil =>
    cases h
    rfl
  | cons i is ih =>
    obtain ⟨u, hu, hrest⟩ := run_cons.mp h
    obtain ⟨hP, hstep⟩ := keeps s i u hs hu
    have hmore := ih hP hrest
    rw [tally, tally, hu]
    push_cast
    omega

theorem tally_zero (step : σ → ι → Option σ) (s : σ) (is : List ι) :
    tally step (fun _ _ => 0) s is = 0 := by
  induction is generalizing s with
  | nil => rfl
  | cons i is ih =>
    rw [tally, Nat.zero_add]
    split
    · exact ih _
    · rfl

end

theorem sum_map_set {α : Type} {l : List α} {k : Nat} {x : α} (h : l[k]? = some x) (f : α → Nat)
    (y : α) : ((l.set k y).map f).sum + f x = (l.map f).sum + f y := by
  induction l generalizing k with
  | nil => cases h
  | cons a l ih =>
    cases k with
    | zero =>
      cases h
      simp only [List.set_cons_zero, List.map_cons, List.sum_cons]
      omega
    | succ k =>
      have := ih h
      simp only [List.set_cons_succ, List.map_cons, List.sum_cons]
      omega

end Rstmdb

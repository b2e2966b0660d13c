import Mathlib

/-! Runs of a partial step function over a list of operations, and what a run
keeps when each of its steps keeps it. A step that yields `none` did not return. -/
namespace Rstmdb

section
variable {σ ι : Type}

/-- Perform the operations in order, as long as each one returns. -/
def run (step : σ → ι → Option σ) : σ → List ι → Option σ
  | s, [] => some s
  | s, i :: is =>
    match step s i with
    | some s' => run step s' is
    | none => none

/-- Every step of the run starts in a state that meets `good` for its operation. -/
def Meets (step : σ → ι → Option σ) (good : σ → ι → Prop) : σ → List ι → Prop
  | _, [] => True
  | s, i :: is =>
    good s i ∧
      match step s i with
      | some s' => Meets step good s' is
      | none => True

instance decidableMeets {step : σ → ι → Option σ} {good : σ → ι → Prop}
    [∀ s i, Decidable (good s i)] : ∀ s is, Decidable (Meets step good s is)
  | _, [] => inferInstanceAs (Decidable True)
  | s, i :: is =>
    match h : step s i with
    | some s' =>
      have : Decidable (Meets step good s' is) := decidableMeets s' is
      decidable_of_iff (good s i ∧ Meets step good s' is) (by simp [Meets, h])
    | none => decidable_of_iff (good s i) (by simp [Meets, h])

variable {step : σ → ι → Option σ} {s t : σ} {is : List ι} {good : σ → ι → Prop} {P : σ → Prop}

theorem run_cons {i : ι} :
    run step s (i :: is) = some t ↔ ∃ u, step s i = some u ∧ run step u is = some t := by
  rw [run]
  cases step s i <;> simp

theorem run_append {js : List ι} :
    run step s (is ++ js) = some t ↔ ∃ u, run step s is = some u ∧ run step u js = some t := by
  induction is generalizing s with
  | nil => simp [run]
  | cons i is ih =>
    rw [List.cons_append, run_cons]
    constructor
    · rintro ⟨v, hv, h⟩
      obtain ⟨u, hu, ht⟩ := ih.mp h
      exact ⟨u, run_cons.mpr ⟨v, hv, hu⟩, ht⟩
    · rintro ⟨u, hu, ht⟩
      obtain ⟨v, hv, h⟩ := run_cons.mp hu
      exact ⟨v, hv, ih.mpr ⟨u, h, ht⟩⟩

/-- A run that can be computed ends in a state with the facts computed of it, and
with what follows from them. -/
theorem run_exists {p q : σ → Prop} [DecidablePred p]
    (h : (run step s is).any (fun t => decide (p t)) = true)
    (hq : ∀ t, run step s is = some t → p t → q t) : ∃ t, run step s is = some t ∧ q t := by
  obtain ⟨t, ht, hp⟩ := (Option.any_eq_true _ _).mp h
  exact ⟨t, ht, hq t ht (of_decide_eq_true hp)⟩

/-- A run that ends in a state where such a thing is found. -/
theorem run_finds {α : Type} {view : σ → Option α} {q : σ → α → Prop} [∀ t a, Decidable (q t a)]
    (h : (run step s is).any (fun t => (view t).any fun a => decide (q t a)) = true) :
    ∃ t, run step s is = some t ∧ ∃ a, view t = some a ∧ q t a := by
  obtain ⟨t, ht, h⟩ := (Option.any_eq_true _ _).mp h
  obtain ⟨a, ha, h⟩ := (Option.any_eq_true _ _).mp h
  exact ⟨t, ht, a, ha, of_decide_eq_true h⟩

/-- What every good step carries from one count to the next, a run of good
steps carries over its length. -/
theorem run_counts_of_meets {P : Nat → σ → Prop}
    (keeps : ∀ n s i t, P n s → good s i → step s i = some t → P (n + 1) t) {n : Nat} (hs : P n s)
    (hg : Meets step good s is) (h : run step s is = some t) : P (n + is.length) t := by
  induction is generalizing n s with
  | nil => cases h; exact hs
  | cons i is ih =>
    obtain ⟨u, hu, ht⟩ := run_cons.mp h
    obtain ⟨hgood, hrest⟩ := hg
    rw [hu] at hrest
    have := ih (keeps n s i u hs hgood hu) hrest ht
    rwa [Nat.add_right_comm] at this

/-- What every good step keeps, every run of good steps keeps. -/
theorem run_keeps_of_meets (keeps : ∀ s i t, P s → good s i → step s i = some t → P t) (hs : P s)
    (hg : Meets step good s is) (h : run step s is = some t) : P t :=
  run_counts_of_meets (P := fun _ => P) (n := 0) (fun _ => keeps) hs hg h

theorem Meets.and {good' : σ → ι → Prop} (h : Meets step good s is) (h' : Meets step good' s is) :
    Meets step (fun s i => good s i ∧ good' s i) s is := by
  induction is generalizing s with
  | nil => trivial
  | cons i is ih =>
    obtain ⟨hi, hrest⟩ := h
    obtain ⟨hi', hrest'⟩ := h'
    refine ⟨⟨hi, hi'⟩, ?_⟩
    split
    · rename_i s' hs
      rw [hs] at hrest hrest'
      exact ih hrest hrest'
    · trivial

theorem Meets.mono {good' : σ → ι → Prop}
    (keeps : ∀ s i t, P s → good s i → step s i = some t → P t)
    (imp : ∀ s i, P s → good s i → good' s i) (hs : P s) (h : Meets step good s is) :
    Meets step good' s is := by
  induction is generalizing s with
  | nil => trivial
  | cons i is ih =>
    obtain ⟨hi, hrest⟩ := h
    refine ⟨imp s i hs hi, ?_⟩
    split
    · rename_i t ht
      rw [ht] at hrest
      exact ih (keeps s i t hs hi ht) hrest
    · trivial

theorem Meets.append {u : σ} {js : List ι} (h : Meets step good s (is ++ js))
    (hrun : run step s is = some u) : Meets step good s is ∧ Meets step good u js := by
  induction is generalizing s with
  | nil =>
    cases hrun
    exact ⟨trivial, h⟩
  | cons i is ih =>
    obtain ⟨v, hv, hrest⟩ := run_cons.mp hrun
    obtain ⟨hi, hmore⟩ := h
    rw [hv] at hmore
    obtain ⟨his, hjs⟩ := ih hmore hrest
    refine ⟨⟨hi, ?_⟩, hjs⟩
    rw [hv]
    exact his

theorem meets_of_forall (step : σ → ι → Option σ) (good : ι → Prop) (s : σ) (h : ∀ i ∈ is, good i) :
    Meets step (fun _ i => good i) s is := by
  induction is generalizing s with
  | nil => trivial
  | cons i is ih =>
    refine ⟨h i List.mem_cons_self, ?_⟩
    split
    · exact ih _ fun j hj => h j (List.mem_cons_of_mem i hj)
    · trivial

/-- A run takes all its steps; and what holds at its end, if a step needs it before when
it holds after, holds after each of them. -/
theorem meets_of_run (back : ∀ s i t, step s i = some t → P t → P s) (h : run step s is = some t)
    (ht : P t) : Meets step (fun s i => ∃ u, step s i = some u ∧ P u) s is := by
  have hmeets : Meets step (fun s i => ∃ u, step s i = some u ∧ P u) s is ∧ P s := by
    induction is generalizing s with
    | nil =>
      cases h
      exact ⟨trivial, ht⟩
    | cons i is ih =>
      obtain ⟨u, hu, hrest⟩ := run_cons.mp h
      obtain ⟨hmeets, hP⟩ := ih hrest
      refine ⟨⟨⟨u, hu, hP⟩, ?_⟩, back s i u hu hP⟩
      rw [hu]
      exact hmeets
  exact hmeets.1

theorem meets_true (s : σ) (is : List ι) :
    Meets step (fun _ _ => True) s is :=
  meets_of_forall step _ s fun _ _ => trivial

theorem run_keeps (keeps : ∀ s i t, P s → step s i = some t → P t) (hs : P s)
    (h : run step s is = some t) : P t := by
  have hg : Meets step (fun _ _ => True) s is := meets_true s is
  exact run_keeps_of_meets (fun s i t hs _ => keeps s i t hs) hs hg h

/-- The labels of the steps that lead from one state to another. -/
inductive Path (R : σ → ι → σ → Prop) (s : σ) : List ι → σ → Prop
  | nil : Path R s [] s
  | snoc {t u : σ} {is : List ι} {i : ι} (h : Path R s is t) (last : R t i u) :
      Path R s (is ++ [i]) u

end

end Rstmdb

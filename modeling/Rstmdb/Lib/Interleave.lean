import Rstmdb.Lib.Runs

/-! Interleavings of any number of threads over a shared state. Each thread
takes its atomic steps in its own order; a schedule says which thread is next. -/
namespace Rstmdb

/-- A new thread begins, or the thread with this number takes its next step. -/
inductive Sched (ι : Type)
  | spawn (i : ι)
  | step (k : Nat)

section
variable {σ ι τ : Type}

def interleave (spawn : σ → ι → τ) (next : σ → τ → Option (σ × τ)) :
    σ × List τ → Sched ι → Option (σ × List τ)
  | (s, ts), .spawn i => some (s, ts ++ [spawn s i])
  | (s, ts), .step k =>
    match ts[k]? with
    | none => none
    | some t =>
      match next s t with
      | none => none
      | some (s', t') => some (s', ts.set k t')

variable {ts xs ys : List τ} {t t' u : τ} {κ : Type} {f : τ → Option κ}

theorem getElem?_split {k : Nat} (h : ts[k]? = some t) :
    ∃ xs ys, ts = xs ++ t :: ys ∧ ∀ t', ts.set k t' = xs ++ t' :: ys := by
  obtain ⟨hk, ht⟩ := List.getElem?_eq_some_iff.mp h
  refine ⟨ts.take k, ts.drop (k + 1), ?_, fun t' => List.set_eq_take_append_cons_drop.trans ?_⟩
  · rw [← ht, List.getElem_cons_drop, List.take_append_drop]
  · rw [if_pos hk]

variable {spawn : σ → ι → τ} {next : σ → τ → Option (σ × τ)} {s s' : σ} {P : τ → Prop} {k : κ}

/-- What a step of a schedule can be: a thread at the end of the list, or the
next step of one thread between the others. -/
theorem interleave_cases {ts' : List τ} {op : Sched ι}
    (h : interleave spawn next (s, ts) op = some (s', ts')) :
    (∃ i, op = .spawn i ∧ s' = s ∧ ts' = ts ++ [spawn s i]) ∨
      ∃ k xs t t' ys, op = .step k ∧ ts[k]? = some t ∧ ts = xs ++ t :: ys ∧
        next s t = some (s', t') ∧ ts' = xs ++ t' :: ys := by
  cases op with
  | spawn i =>
    cases h
    exact .inl ⟨i, rfl, rfl, rfl⟩
  | step k =>
    right
    simp only [interleave] at h
    split at h
    · cases h
    rename_i t hk
    split at h
    · cases h
    rename_i s₁ t' hn
    cases h
    obtain ⟨xs, ys, hts, hset⟩ := getElem?_split hk
    exact ⟨k, xs, t, t', ys, rfl, hk, hts, hn, hset t'⟩

/-- A thread that runs alone runs in the same way behind threads that take no step. -/
theorem run_behind (us : List τ) {n : Nat}
    (h : run (interleave spawn next) (s, [t]) (List.replicate n (.step 0)) = some (s', [t'])) :
    run (interleave spawn next) (s, us ++ [t]) (List.replicate n (.step us.length)) =
      some (s', us ++ [t']) := by
  induction n generalizing s t with
  | zero =>
    cases h
    rfl
  | succ n ih =>
    rw [List.replicate_succ, run_cons] at h ⊢
    obtain ⟨⟨s₁, ts⟩, hs, hrest⟩ := h
    cases hn : next s t with
    | none => simp [interleave, hn] at hs
    | some out =>
      obtain ⟨s₂, t₁⟩ := out
      obtain ⟨rfl, rfl⟩ : s₂ = s₁ ∧ [t₁] = ts := by simpa [interleave, hn] using hs
      exact ⟨(s₂, us ++ [t₁]), by simp [interleave, hn], ih hrest⟩

theorem forall_replace (h : ∀ u ∈ xs ++ t :: ys, P u) (h' : P t') : ∀ u ∈ xs ++ t' :: ys, P u := by
  intro u hu
  rcases List.mem_append.mp hu with hu | hu
  · exact h u (by simp [hu])
  · rcases List.mem_cons.mp hu with rfl | hu
    · exact h'
    · exact h u (by simp [hu])

theorem forall_spawned (h : ∀ u ∈ ts, P u) (h' : P t) : ∀ u ∈ ts ++ [t], P u := by
  intro u hu
  obtain hu | hu := List.mem_append.mp hu
  · exact h u hu
  · exact List.mem_singleton.mp hu ▸ h'

theorem mem_replace (h : u ∈ xs ++ t' :: ys) : u = t' ∨ u ∈ xs ++ ys := by
  simp only [List.mem_append, List.mem_cons] at h ⊢
  tauto

theorem mem_of_others (t : τ) (h : u ∈ xs ++ ys) : u ∈ xs ++ t :: ys := by
  simp only [List.mem_append, List.mem_cons] at h ⊢
  tauto

theorem filterMap_middle (f : τ → Option κ) (xs ys : List τ) (t : τ) :
    (xs ++ t :: ys).filterMap f = xs.filterMap f ++ ((f t).toList ++ ys.filterMap f) := by
  rw [List.filterMap_append, List.filterMap_cons]
  cases f t <;> rfl

theorem filterMap_spawned {f : τ → Option κ} (h : f t = none) :
    (ts ++ [t]).filterMap f = ts.filterMap f := by
  rw [List.filterMap_append, List.filterMap_cons_none h, List.filterMap_nil, List.append_nil]

/-- A thread that holds what it held, or nothing, takes nothing from the others. -/
theorem filterMap_replace_sublist (xs ys : List τ) (h : f t' = f t ∨ f t' = none) :
    ((xs ++ t' :: ys).filterMap f).Sublist ((xs ++ t :: ys).filterMap f) := by
  rw [List.filterMap_append, List.filterMap_append, List.filterMap_cons, List.filterMap_cons]
  apply List.Sublist.append (List.Sublist.refl _)
  rcases h with h | h
  · rw [h]
  · rw [h]
    cases f t with
    | none => exact List.Sublist.refl _
    | some id => exact List.sublist_cons_self _ _

theorem others_of_nodup (h : ((xs ++ t :: ys).filterMap f).Nodup) (hk : f t = some k) :
    ∀ u ∈ xs ++ ys, f u ≠ some k := by
  rw [List.filterMap_append, List.filterMap_cons_some hk, List.perm_middle.nodup_iff,
    List.nodup_cons, ← List.filterMap_append] at h
  intro u hu hheld
  exact h.1 (List.mem_filterMap.mpr ⟨u, hu, hheld⟩)

theorem index_of_nodup (h : (ts.filterMap f).Nodup) {i j : Nat} (hi : ts[i]? = some t)
    (hj : ts[j]? = some u) (ht : f t = some k) (hu : f u = some k) : i = j := by
  rw [List.Nodup, List.pairwise_filterMap, List.pairwise_iff_getElem] at h
  obtain ⟨hilt, rfl⟩ := List.getElem?_eq_some_iff.mp hi
  obtain ⟨hjlt, rfl⟩ := List.getElem?_eq_some_iff.mp hj
  obtain hlt | heq | hgt := Nat.lt_trichotomy i j
  · exact absurd rfl (h i j hilt hjlt hlt k ht k hu)
  · exact heq
  · exact absurd rfl (h j i hjlt hilt hgt k hu k ht)

/-- A thread that takes nothing that another holds leaves the held things distinct. -/
theorem nodup_replace (h : ((xs ++ t :: ys).filterMap f).Nodup)
    (h' : ∀ k ∈ f t', f t = some k ∨ ∀ u ∈ xs ++ ys, f u ≠ some k) :
    ((xs ++ t' :: ys).filterMap f).Nodup := by
  have hrest : ((xs ++ ys).filterMap f).Nodup := by
    refine h.sublist ?_
    rw [List.filterMap_append, List.filterMap_append]
    exact List.Sublist.append (List.Sublist.refl _) ((List.sublist_cons_self t ys).filterMap _)
  cases hk : f t' with
  | none => rwa [List.filterMap_append, List.filterMap_cons_none hk, ← List.filterMap_append]
  | some k =>
    rw [List.filterMap_append, List.filterMap_cons_some hk, List.perm_middle.nodup_iff,
      List.nodup_cons, ← List.filterMap_append]
    refine ⟨?_, hrest⟩
    intro hmem
    obtain ⟨u, hu, hheld⟩ := List.mem_filterMap.mp hmem
    obtain hsame | hfree := h' k hk
    · exact others_of_nodup h hsame u hu hheld
    · exact hfree u hu hheld

end

end Rstmdb

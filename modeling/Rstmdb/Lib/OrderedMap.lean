import Mathlib

/-! Finite maps listed in the order of their keys: what an insertion at the
last key, or past it, does to the listing, and what a filter keeps of it. -/
namespace Rstmdb

/-- A finite map, equal to another exactly when every lookup agrees. -/
abbrev Table (κ α : Type) [Ord κ] := Std.ExtTreeMap κ α

-- Pairs are keys too, by their first parts and then their second.
attribute [instance] lexOrd

/-- A list in which a property, once it holds, keeps holding is split by it. -/
theorem filter_split {α : Type} {p : α → Bool} {l : List α}
    (h : l.Pairwise fun a b => p a = true → p b = true) :
    l = l.filter (fun a => !p a) ++ l.filter p := by
  induction l with
  | nil => rfl
  | cons a l ih =>
    obtain ⟨ha, hl⟩ := List.pairwise_cons.mp h
    cases hp : p a with
    | false =>
      simp only [List.filter_cons, hp, Bool.not_false, if_true, Bool.false_eq_true, if_false,
        List.cons_append]
      rw [← ih hl]
    | true =>
      have hall : ∀ b ∈ l, p b = true := fun b hb => ha b hb hp
      have hnone : l.filter (fun a => !p a) = [] := by
        simp only [List.filter_eq_nil_iff]
        intro b hb
        simp [hall b hb]
      simp [hp, hnone, List.filter_eq_self.mpr hall]

namespace Table

def Ascending {κ α : Type} [Ord κ] (l : List (κ × α)) : Prop :=
  l.Pairwise fun a b => compare a.1 b.1 = .lt

theorem ascending_toList {κ α : Type} [Ord κ] [Std.TransOrd κ] (t : Table κ α) :
    Ascending t.toList :=
  Std.ExtTreeMap.ordered_keys_toList

theorem Ascending.nodup {κ α : Type} [Ord κ] [Std.LawfulEqOrd κ] {l : List (κ × α)}
    (h : Ascending l) : l.Nodup := by
  apply List.Pairwise.imp _ h
  rintro a b hab rfl
  simp at hab

@[simp] theorem keys_empty {κ α : Type} [Ord κ] [Std.TransOrd κ] : (∅ : Table κ α).keys = [] := by
  simp [← List.isEmpty_iff]

section
variable {κ α : Type} [Ord κ] [Std.TransOrd κ] [Std.LawfulEqOrd κ]

variable {t : Table κ α} {k : κ} {v : α}

/-- An ascending list with the map's bindings is the map's listing. -/
theorem toList_eq {l : List (κ × α)} (hl : Ascending l) (hm : ∀ k v, (k, v) ∈ l ↔ t[k]? = some v) :
    t.toList = l := by
  have ht := ascending_toList t
  have perm : t.toList.Perm l := by
    rw [List.perm_ext_iff_of_nodup ht.nodup hl.nodup]
    rintro ⟨k, v⟩
    rw [Std.ExtTreeMap.mem_toList_iff_getElem?_eq_some, hm]
  apply List.Perm.eq_of_pairwise _ ht hl perm
  intro a b _ _ hab hba
  have := Std.OrientedCmp.gt_of_lt hba
  simp [hab] at this

theorem mem_toList : (k, v) ∈ t.toList ↔ t[k]? = some v :=
  Std.ExtTreeMap.mem_toList_iff_getElem?_eq_some

/-- Maps that say the same of every key, each in its own way, list the same. -/
theorem map_toList_eq {β γ : Type} {u : Table κ β} {f : κ → α → γ} {g : κ → β → γ}
    (h : ∀ k : κ, (t[k]?).map (f k) = (u[k]?).map (g k)) :
    t.toList.map (fun p => (p.1, f p.1 p.2)) = u.toList.map (fun p => (p.1, g p.1 p.2)) := by
  have same : Std.ExtTreeMap.map f t = Std.ExtTreeMap.map g u := by
    refine Std.ExtTreeMap.ext_getElem? fun k => ?_
    rw [Std.ExtTreeMap.getElem?_map, Std.ExtTreeMap.getElem?_map, h]
  rw [← Std.ExtTreeMap.toList_map, ← Std.ExtTreeMap.toList_map, same]

omit [Std.LawfulEqOrd κ] in
theorem values_eq_map_toList (t : Table κ α) : t.values = t.toList.map Prod.snd := by
  have fold : t.values = t.foldr (fun _ v vs => v :: vs) [] := by
    obtain ⟨d⟩ := t
    induction d using Std.ExtDTreeMap.inductionOn with
    | mk d => rfl
  rw [fold, Std.ExtTreeMap.foldr_eq_foldr_toList]
  induction t.toList with
  | nil => rfl
  | cons p l ih => simp [ih]

theorem mem_values : v ∈ t.values ↔ ∃ k : κ, t[k]? = some v := by
  rw [values_eq_map_toList, List.mem_map]
  constructor
  · rintro ⟨⟨k, w⟩, hm, rfl⟩
    exact ⟨k, mem_toList.mp hm⟩
  · rintro ⟨k, hk⟩
    exact ⟨(k, v), mem_toList.mpr hk, rfl⟩

omit [Std.LawfulEqOrd κ] in
theorem contains_eq_false (h : t[k]? = none) : t.contains k = false := by
  rw [Std.ExtTreeMap.contains_eq_isSome_getElem?, h]
  rfl

theorem getElem?_insert_ne {a : κ} (h : a ≠ k) : (t.insert k v)[a]? = t[a]? := by
  rw [Std.ExtTreeMap.getElem?_insert, if_neg]
  exact fun he => h (Std.LawfulEqCmp.eq_of_compare he).symm

/-- What is found after an insertion was inserted, or is found before it under another key. -/
theorem found_insert {a : κ} {w : α} (h : (t.insert k v)[a]? = some w) :
    a = k ∧ w = v ∨ a ≠ k ∧ t[a]? = some w := by
  by_cases ha : a = k
  · subst ha
    rw [Std.ExtTreeMap.getElem?_insert_self] at h
    exact .inl ⟨rfl, (Option.some.inj h).symm⟩
  · rw [getElem?_insert_ne ha] at h
    exact .inr ⟨ha, h⟩

theorem forall_insert {P : κ → α → Prop} (h : ∀ a w, t[a]? = some w → P a w) (hv : P k v) :
    ∀ a w, (t.insert k v)[a]? = some w → P a w := by
  intro a w hw
  obtain ⟨rfl, rfl⟩ | ⟨-, hw⟩ := found_insert hw
  · exact hv
  · exact h a w hw

theorem toList_insert_past (h : ∀ p ∈ t.toList, compare p.1 k = .lt) :
    (t.insert k v).toList = t.toList ++ [(k, v)] := by
  apply toList_eq
  · refine List.pairwise_append.mpr ⟨ascending_toList t, by simp, ?_⟩
    intro a ha b hb
    rw [List.mem_singleton.mp hb]
    exact h a ha
  · intro k' v'
    rw [Std.ExtTreeMap.getElem?_insert]
    split
    · rename_i he
      have hk := Std.LawfulEqCmp.eq_of_compare he
      subst hk
      have hn : (k, v') ∉ t.toList := fun hm => by simpa using h _ hm
      simp [hn, eq_comm]
    · rename_i he
      have hk : k' ≠ k := fun hk => he (by simp [hk])
      simp [hk]

theorem keys_insert_past (h : ∀ a ∈ t.keys, compare a k = .lt) :
    (t.insert k v).keys = t.keys ++ [k] := by
  have hl : ∀ p ∈ t.toList, compare p.1 k = .lt := by
    intro p hp
    apply h
    rw [← Std.ExtTreeMap.map_fst_toList_eq_keys]
    exact List.mem_map_of_mem hp
  rw [← Std.ExtTreeMap.map_fst_toList_eq_keys, toList_insert_past hl, List.map_append,
    Std.ExtTreeMap.map_fst_toList_eq_keys]
  rfl

theorem toList_insert_at_last {l : List (κ × α)} {v' : α} (h : t.toList = l ++ [(k, v)]) :
    (t.insert k v').toList = l ++ [(k, v')] := by
  have ha := ascending_toList t
  rw [h] at ha
  obtain ⟨hl, _, hlast⟩ := List.pairwise_append.mp ha
  apply toList_eq
  · refine List.pairwise_append.mpr ⟨hl, by simp, ?_⟩
    intro a ha b hb
    rw [List.mem_singleton.mp hb]
    exact hlast a ha (k, v) (by simp)
  · intro k₁ v₁
    rw [Std.ExtTreeMap.getElem?_insert]
    split
    · rename_i he
      have hk := Std.LawfulEqCmp.eq_of_compare he
      subst hk
      have hn : (k, v₁) ∉ l := fun hm => by simpa using hlast _ hm (k, v) (by simp)
      simp [hn, eq_comm]
    · rename_i he
      have hk : k₁ ≠ k := fun hk => he (by simp [hk])
      rw [← mem_toList, h]
      simp [hk]

theorem getElem?_foldl_erase [DecidableEq κ] (ks : List κ) (t : Table κ α) (k : κ) :
    (ks.foldl (fun t k => t.erase k) t)[k]? = if k ∈ ks then none else t[k]? := by
  induction ks generalizing t with
  | nil => simp
  | cons a ks ih =>
    rw [List.foldl_cons, ih, Std.ExtTreeMap.getElem?_erase]
    by_cases hka : k = a
    · simp [hka]
    · have : compare a k ≠ .eq := fun he => hka (Std.LawfulEqCmp.eq_of_compare he).symm
      simp [hka, this]

/-- Erasing exactly the keys that `p` selects leaves the listing's other bindings. -/
theorem toList_foldl_erase [DecidableEq κ] {p : κ → Bool} {ks : List κ}
    (hk : ∀ k, k ∈ t → (k ∈ ks ↔ p k = true)) :
    (ks.foldl (fun t k => t.erase k) t).toList = t.toList.filter (fun b => !p b.1) := by
  apply toList_eq
  · exact (ascending_toList t).filter _
  · intro k v
    rw [getElem?_foldl_erase, List.mem_filter, mem_toList]
    have member (hv : t[k]? = some v) : k ∈ ks ↔ p k = true :=
      hk k (by rw [Std.ExtTreeMap.mem_iff_isSome_getElem?, hv]; rfl)
    constructor
    · rintro ⟨hv, hp⟩
      have hn : k ∉ ks := fun hks => by simp [(member hv).mp hks] at hp
      simp [hn, hv]
    · intro h
      split at h
      · cases h
      rename_i hn
      refine ⟨h, ?_⟩
      cases hp : p k
      · rfl
      · exact absurd ((member h).mpr hp) hn

theorem keys_foldl_erase [DecidableEq κ] {p : κ → Bool} {ks : List κ}
    (hk : ∀ k, k ∈ t → (k ∈ ks ↔ p k = true)) :
    (ks.foldl (fun t k => t.erase k) t).keys = t.keys.filter (fun k => !p k) := by
  rw [← Std.ExtTreeMap.map_fst_toList_eq_keys, toList_foldl_erase hk,
    ← Std.ExtTreeMap.map_fst_toList_eq_keys, List.filter_map]
  rfl

/-! ## Counting -/

theorem toList_insert_perm (h : t[k]? = none) :
    (t.insert k v).toList.Perm ((k, v) :: t.toList) := by
  have hnot : (k, v) ∉ t.toList := by simp [h]
  refine (List.perm_ext_iff_of_nodup (ascending_toList _).nodup
    (List.nodup_cons.mpr ⟨hnot, (ascending_toList t).nodup⟩)).mpr ?_
  rintro ⟨a, b⟩
  rw [List.mem_cons, mem_toList, mem_toList, Std.ExtTreeMap.getElem?_insert]
  split
  · rename_i he
    have hk := Std.LawfulEqCmp.eq_of_compare he
    subst hk
    simp [h, eq_comm]
  · rename_i he
    have hk : a ≠ k := fun hk => he (by simp [hk])
    simp [hk]

theorem toList_erase_perm (h : t[k]? = some v) : t.toList.Perm ((k, v) :: (t.erase k).toList) := by
  have hback : (t.erase k).insert k v = t := by
    apply Std.ExtTreeMap.ext_getElem?
    intro a
    rw [Std.ExtTreeMap.getElem?_insert, Std.ExtTreeMap.getElem?_erase]
    split
    · rename_i he
      rw [← Std.LawfulEqCmp.eq_of_compare he, h]
    · rfl
  have hperm : ((t.erase k).insert k v).toList.Perm _ := toList_insert_perm (by simp)
  rwa [hback] at hperm

omit [Std.LawfulEqOrd κ] in
/-- How many keys have a value with the property. -/
def count (t : Table κ α) (p : α → Bool) : Nat := t.toList.countP fun b => p b.2

theorem count_insert_new (h : t[k]? = none) (p : α → Bool) :
    count (t.insert k v) p = count t p + (p v).toNat := by
  rw [count, (toList_insert_perm h).countP_eq, List.countP_cons, count]
  cases p v <;> rfl

theorem count_erase (t : Table κ α) (k : κ) (p : α → Bool) :
    count (t.erase k) p + ((t[k]?).any p).toNat = count t p := by
  cases h : t[k]? with
  | none =>
    have hsame : t.erase k = t := by
      apply Std.ExtTreeMap.ext_getElem?
      intro a
      rw [Std.ExtTreeMap.getElem?_erase]
      split
      · rename_i he
        rw [← Std.LawfulEqCmp.eq_of_compare he, h]
      · rfl
    rw [hsame]
    rfl
  | some v =>
    rw [count, count, (toList_erase_perm h).countP_eq, List.countP_cons, Option.any_some]
    cases p v <;> rfl

end

end Table

end Rstmdb

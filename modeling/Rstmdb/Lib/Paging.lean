import Mathlib

/-! Reading a list in pages. A page holds the first elements whose key is not below a
cursor, and the next cursor is one past the key of the page's last element, in a word
of bounded size. The pages make up what lies at or after the first cursor exactly if
the keys increase along the list and leave room for a cursor behind the last one. -/
namespace Rstmdb.Paging

section
variable {α : Type} (key : α → Nat) (size : Nat) (l : List α) (n : Nat)

/-- What lies at or after a cursor. -/
def onward (cursor : Nat) : List α := l.filter (cursor ≤ key ·)

def page (cursor : Nat) : List α := (onward key l cursor).take n

/-- Page after page until one is empty, if the fuel suffices. -/
def walk : Nat → Nat → Option (List α)
  | 0, _ => none
  | fuel + 1, cursor =>
    match (page key l n cursor).getLast? with
    | none => some []
    | some last => (walk fuel ((key last + 1) % size)).map (page key l n cursor ++ ·)

end

section
variable {α : Type} {key : α → Nat} {size : Nat} {l : List α} {n : Nat}

variable {cursor fuel : Nat} {x : α} {r : List α}

theorem mem_onward :
    x ∈ onward key l cursor ↔ x ∈ l ∧ cursor ≤ key x := by simp [onward]

theorem walk_of_empty (h : page key l n cursor = []) :
    walk key size l n (fuel + 1) cursor = some [] := by simp [walk, h]

theorem walk_of_last {last : α} (h : (page key l n cursor).getLast? = some last) :
    walk key size l n (fuel + 1) cursor =
      (walk key size l n fuel ((key last + 1) % size)).map (page key l n cursor ++ ·) := by
  simp [walk, h]

theorem mem_of_walk (h : walk key size l n fuel cursor = some r) (hx : x ∈ r) : x ∈ l := by
  induction fuel generalizing cursor r with
  | zero => cases h
  | succ fuel ih =>
    cases hlast : (page key l n cursor).getLast? with
    | none =>
      rw [walk_of_empty (List.getLast?_eq_none_iff.mp hlast)] at h
      cases h
      cases hx
    | some last =>
      rw [walk_of_last hlast] at h
      obtain ⟨r', hr', rfl⟩ := Option.map_eq_some_iff.mp h
      obtain hx | hx := List.mem_append.mp hx
      · exact (mem_onward.mp (List.mem_of_mem_take hx)).1
      · exact ih hr' hx

/-- A later cursor leaves the same behind it of what an earlier one has left. -/
theorem onward_onward {later : Nat} (h : cursor ≤ later) :
    onward key (onward key l cursor) later = onward key l later := by
  rw [onward, onward, onward, List.filter_filter]
  apply List.filter_congr
  intro x hx
  simp only [← Bool.decide_and, decide_eq_decide]
  omega

/-- Behind a page of increasing keys lies what the page has left out. -/
theorem onward_succ_last (increasing : l.Pairwise fun x y => key x < key y) {last : α}
    (h : (page key l n cursor).getLast? = some last) :
    onward key l (key last + 1) = (onward key l cursor).drop n := by
  have hcursor : cursor ≤ key last :=
    (mem_onward.mp (List.mem_of_mem_take (List.mem_of_getLast? h))).2
  obtain ⟨front, hfront⟩ := List.getLast?_eq_some_iff.mp h
  have hsplit : front ++ [last] ++ (onward key l cursor).drop n = onward key l cursor := by
    rw [← hfront]
    exact List.take_append_drop n _
  have hsorted : (onward key l cursor).Pairwise fun x y => key x < key y :=
    increasing.sublist List.filter_sublist
  rw [← hsplit] at hsorted
  obtain ⟨hpage, -, hafter⟩ := List.pairwise_append.mp hsorted
  have hnone : (front ++ [last]).filter (key last + 1 ≤ key ·) = [] := by
    rw [List.filter_eq_nil_iff]
    intro x hx
    have hle : key x ≤ key last := by
      obtain hx | hx := List.mem_append.mp hx
      · exact Nat.le_of_lt ((List.pairwise_append.mp hpage).2.2 x hx last List.mem_cons_self)
      · rw [List.mem_singleton.mp hx]
    simpa using Nat.lt_succ_of_le hle
  have hall : ((onward key l cursor).drop n).filter (key last + 1 ≤ key ·) =
      (onward key l cursor).drop n := by
    rw [List.filter_eq_self]
    intro x hx
    simpa using Nat.succ_le_of_lt (hafter last (by simp) x hx)
  calc onward key l (key last + 1)
      = onward key (onward key l cursor) (key last + 1) :=
        (onward_onward (Nat.le_succ_of_le hcursor)).symm
    _ = (front ++ [last] ++ (onward key l cursor).drop n).filter (key last + 1 ≤ key ·) := by
        rw [hsplit, onward]
    _ = (onward key l cursor).drop n := by
        rw [List.filter_append, hnone, hall, List.nil_append]

/-- With increasing keys the pages are exactly what lies at or after the first cursor. -/
theorem walk_of_increasing (increasing : l.Pairwise fun x y => key x < key y)
    (room : ∀ x ∈ l, key x + 1 < size) (hn : 0 < n) (cursor : Nat) :
    ∃ fuel, walk key size l n fuel cursor = some (onward key l cursor) := by
  -- each page that is not empty leaves less behind it
  induction hlen : (onward key l cursor).length using Nat.strong_induction_on
    generalizing cursor with
  | _ len ih =>
    subst hlen
    cases hlast : (page key l n cursor).getLast? with
    | none =>
      have hpage : page key l n cursor = [] := List.getLast?_eq_none_iff.mp hlast
      obtain hempty | hzero := List.take_eq_nil_iff.mp hpage
      · omega
      · exact ⟨1, by rw [walk_of_empty hpage, hzero]⟩
    | some last =>
      have hmem : last ∈ onward key l cursor :=
        List.mem_of_mem_take (List.mem_of_getLast? hlast)
      have hbehind := onward_succ_last increasing hlast
      have hshorter : (onward key l (key last + 1)).length < (onward key l cursor).length := by
        have := List.length_pos_of_mem hmem
        rw [hbehind, List.length_drop]
        omega
      obtain ⟨fuel, hrest⟩ := ih _ hshorter (key last + 1) rfl
      refine ⟨fuel + 1, ?_⟩
      rw [walk_of_last hlast, Nat.mod_eq_of_lt (room last (mem_onward.mp hmem).1), hrest, hbehind]
      simp [page]

/-- An element with the largest key of all is read again and again. -/
theorem walk_of_largest (hx : x ∈ l) (hkey : key x + 1 = size) (hn : 0 < n) (fuel : Nat)
    (hc : cursor < size) : walk key size l n fuel cursor = none := by
  induction fuel generalizing cursor with
  | zero => rfl
  | succ fuel ih =>
    have hmem : x ∈ onward key l cursor := mem_onward.mpr ⟨hx, by omega⟩
    cases hlast : (page key l n cursor).getLast? with
    | none =>
      obtain hzero | hempty := List.take_eq_nil_iff.mp (List.getLast?_eq_none_iff.mp hlast)
      · omega
      · rw [hempty] at hmem
        cases hmem
    | some last => rw [walk_of_last hlast, ih (Nat.mod_lt _ (by omega)), Option.map_none]

theorem walk_one_increasing (room : ∀ x ∈ l, key x + 1 < size)
    (h : walk key size l 1 fuel cursor = some r) :
    (r.Pairwise fun x y => key x < key y) ∧ ∀ x ∈ r, cursor ≤ key x := by
  induction fuel generalizing cursor r with
  | zero => cases h
  | succ fuel ih =>
    cases hfound : onward key l cursor with
    | nil =>
      rw [walk_of_empty (by simp [page, hfound])] at h
      cases h
      simp
    | cons x rest =>
      have hpage : page key l 1 cursor = [x] := by simp [page, hfound]
      obtain ⟨hx, hle⟩ := mem_onward.mp (hfound ▸ List.mem_cons_self : x ∈ onward key l cursor)
      have hlast : (page key l 1 cursor).getLast? = some x := by simp [hpage]
      rw [walk_of_last hlast, Nat.mod_eq_of_lt (room x hx), hpage] at h
      obtain ⟨r', hr', rfl⟩ := Option.map_eq_some_iff.mp h
      obtain ⟨hsorted, hafter⟩ := ih hr'
      refine ⟨List.pairwise_cons.mpr ⟨fun y hy => hafter y hy, hsorted⟩, fun y hy => ?_⟩
      obtain rfl | hy := List.mem_cons.mp hy
      · exact hle
      · have := hafter y hy
        omega

/-- Pages of one element from the start on that give all keys in order show that the keys
increase and leave room for a cursor behind them. -/
theorem increasing_of_walk_one (bounded : ∀ x ∈ l, key x < size) (hsize : 0 < size)
    (h : walk key size l 1 fuel 0 = some r) (hkeys : r.map key = l.map key) :
    (l.Pairwise fun x y => key x < key y) ∧ ∀ x ∈ l, key x + 1 < size := by
  have room : ∀ x ∈ l, key x + 1 < size := by
    intro x hx
    by_contra hfull
    have := bounded x hx
    rw [walk_of_largest hx (by omega) Nat.one_pos fuel hsize] at h
    cases h
  have hsorted := List.pairwise_map.mpr (walk_one_increasing room h).1
  rw [hkeys] at hsorted
  exact ⟨List.pairwise_map.mp hsorted, room⟩

end

end Rstmdb.Paging

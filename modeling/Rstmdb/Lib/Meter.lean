import Mathlib

/-! A counter that is exported by differences. Each report of the counter's value adds what
it has gained since the last value reported, and nothing if it is smaller. What is
exported is the last value exactly if the values never went down. -/
namespace Rstmdb

structure Meter where
  exported : Nat
  last : Nat

namespace Meter

def zero : Meter := ⟨0, 0⟩

/-- The subtraction stops at zero. -/
def report (m : Meter) (value : Nat) : Meter := ⟨m.exported + (value - m.last), value⟩

/-- All reports of a counter, one after the other. -/
def reports (values : List Nat) : Meter := values.foldl report zero

theorem reports_append (values : List Nat) (value : Nat) :
    reports (values ++ [value]) = (reports values).report value := by
  simp [reports, List.foldl_append]

theorem last_le_exported (values : List Nat) :
    (reports values).last ≤ (reports values).exported := by
  induction values using List.reverseRecOn with
  | nil => exact Nat.le_refl _
  | append_singleton values value ih =>
    rw [reports_append]
    simp only [report]
    omega

theorem last_le_of_forall {values : List Nat} {bound : Nat} (h : ∀ v ∈ values, v ≤ bound) :
    (reports values).last ≤ bound := by
  induction values using List.reverseRecOn with
  | nil => exact Nat.zero_le _
  | append_singleton values value ih =>
    rw [reports_append]
    exact h value (by simp)

/-- Values that never went down lie below the last of them. -/
theorem le_last {values : List Nat} (h : values.Pairwise (· ≤ ·)) :
    ∀ v ∈ values, v ≤ (reports values).last := by
  induction values using List.reverseRecOn with
  | nil => simp
  | append_singleton values value ih =>
    obtain ⟨-, -, hle⟩ := List.pairwise_append.mp h
    intro v hv
    rw [reports_append]
    obtain hv | hv := List.mem_append.mp hv
    · exact hle v hv value List.mem_cons_self
    · rw [List.mem_singleton.mp hv]
      exact Nat.le_refl _

/-- A report of a smaller value is counted twice by the reports after it. -/
theorem exported_eq_last_iff (values : List Nat) :
    (reports values).exported = (reports values).last ↔ values.Pairwise (· ≤ ·) := by
  induction values using List.reverseRecOn with
  | nil => simp [reports, zero]
  | append_singleton values value ih =>
    have hle := last_le_exported values
    have hstep : ((reports values).report value).exported = ((reports values).report value).last ↔
        (reports values).exported = (reports values).last ∧ (reports values).last ≤ value := by
      simp only [report]
      omega
    rw [reports_append, hstep, ih, List.pairwise_append]
    constructor
    · rintro ⟨hsorted, hlast⟩
      refine ⟨hsorted, List.pairwise_singleton _ _, fun v hv v' hv' => ?_⟩
      rw [List.mem_singleton.mp hv']
      exact (le_last hsorted v hv).trans hlast
    · rintro ⟨hsorted, -, hvalue⟩
      exact ⟨hsorted, last_le_of_forall fun v hv => hvalue v hv value List.mem_cons_self⟩

end Meter

end Rstmdb

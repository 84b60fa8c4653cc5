import Mathlib.Data.Fintype.Card
import Mathlib.Data.Fintype.EquivFin
import Mathlib.Data.Fintype.Pigeonhole
import Mathlib.Dynamics.PeriodicPts.Defs

/-!
Contract: two walkers on the same way, one with two steps to each step of the other.

Owns that they meet where there are finitely many places, and that a walker who starts again
when they meet comes to the other one at the first place on a cycle.

Does not own what the places are.
-/

namespace StdPrograms.Foundation

open Function

variable {β : Type} {step : β → β} {first : β} {time : Nat}

theorem exists_iterate_eq [Fintype β] (step : β → β) (first : β) :
    ∃ early late, early < late ∧ late ≤ Fintype.card β ∧
      step^[early] first = step^[late] first := by
  obtain ⟨left, right, different, same⟩ := Fintype.exists_ne_map_eq_of_card_lt
    (fun index : Fin (Fintype.card β + 1) => step^[index] first)
    (by rw [Fintype.card_fin]; exact Nat.lt_succ_self _)
  rcases Nat.lt_or_gt_of_ne (Fin.val_ne_of_ne different) with less | greater
  · exact ⟨left, right, less, Nat.le_of_lt_succ right.isLt, same⟩
  · exact ⟨right, left, greater, Nat.le_of_lt_succ left.isLt, same.symm⟩

/-- The least multiple of the period after the way to the cycle. -/
theorem exists_meeting [Fintype β] (step : β → β) (first : β) :
    ∃ time, 0 < time ∧ time ≤ Fintype.card β ∧ step^[time] first = step^[2 * time] first := by
  obtain ⟨early, late, less, bounded, same⟩ := exists_iterate_eq step first
  have periodic : IsPeriodicPt step (late - early) (step^[early] first) := by
    rw [IsPeriodicPt, IsFixedPt, ← iterate_add_apply, Nat.sub_add_cancel less.le]
    exact same.symm
  have positive : 0 < late - early := Nat.sub_pos_of_lt less
  obtain ⟨time, beyond, within, divides⟩ :
      ∃ time, early < time ∧ time ≤ late ∧ late - early ∣ time := by
    have above := Nat.lt_mul_div_succ early positive
    have below := Nat.mul_div_le early (late - early)
    refine ⟨(late - early) * (early / (late - early) + 1), above, ?_, Nat.dvd_mul_right _ _⟩
    rw [Nat.mul_add, Nat.mul_one]
    omega
  refine ⟨time, by omega, by omega, ?_⟩
  have around := (periodic.apply_iterate (time - early)).trans_dvd divides
  rw [← iterate_add_apply, Nat.sub_add_cancel beyond.le] at around
  rw [Nat.two_mul, iterate_add_apply]
  exact around.symm

section

variable (positive : 0 < time) (meet : step^[time] first = step^[2 * time] first)

include meet

theorem isPeriodicPt_of_meeting : IsPeriodicPt step time (step^[time] first) := by
  rw [IsPeriodicPt, IsFixedPt, ← iterate_add_apply, ← Nat.two_mul]
  exact meet.symm

include positive

/-- The second walker is at the same place exactly on a cycle. -/
theorem iterate_eq_iff_mem_periodicPts {count : Nat} (before : count ≤ time) :
    step^[count] first = step^[time + count] first ↔ step^[count] first ∈ periodicPts step := by
  rw [iterate_add_apply]
  constructor
  · intro same
    exact mk_mem_periodicPts positive same.symm
  · intro periodic
    have later : IsPeriodicPt step time (step^[time - count] (step^[count] first)) := by
      rw [← iterate_add_apply, Nat.sub_add_cancel before]
      exact isPeriodicPt_of_meeting meet
    exact (isPeriodicPt_of_mem_periodicPts_of_isPeriodicPt_iterate periodic later).symm

/-- The first place on a cycle comes no later than the meeting. -/
theorem exists_first_periodic : ∃ count ≤ time, step^[count] first ∈ periodicPts step ∧
    ∀ earlier < count, step^[earlier] first ∉ periodicPts step := by
  classical
  have reached : ∃ count, step^[count] first ∈ periodicPts step :=
    ⟨time, mk_mem_periodicPts positive (isPeriodicPt_of_meeting meet)⟩
  refine ⟨Nat.find reached, ?_, Nat.find_spec reached,
    fun earlier less => Nat.find_min reached less⟩
  exact Nat.find_min' reached (mk_mem_periodicPts positive (isPeriodicPt_of_meeting meet))

end

end StdPrograms.Foundation

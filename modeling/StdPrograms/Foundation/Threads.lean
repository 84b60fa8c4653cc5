import Mathlib.Algebra.BigOperators.Group.Finset.Piecewise
import Mathlib.Data.Fintype.Basic

/-!
Contract: how many of finitely many threads stand at a place.

Owns the count of the threads whose place has a property, the sum of what the places weigh, and
what they become when one thread moves.

Does not own any thread's places.
-/

namespace StdPrograms.Foundation

section Threads

variable {ι P : Type} [Fintype ι]

/-- How many threads stand where the property holds. -/
def countAt (isAt : P → Bool) (places : ι → P) : Nat :=
  ∑ thread, (isAt (places thread)).toNat

/-- What the places of all threads weigh together. -/
def total (weight : P → Nat) (places : ι → P) : Nat :=
  ∑ thread, weight (places thread)

/-- No thread stands there at first. -/
theorem countAt_const (isAt : P → Bool) {place : P} (elsewhere : isAt place = false) :
    countAt isAt (fun _ : ι => place) = 0 := by
  simp [countAt, elsewhere]

variable [DecidableEq ι]

/-- One thread's part of the weight, and the others'. -/
theorem total_split (weight : P → Nat) (places : ι → P) (thread : ι) :
    total weight places =
      weight (places thread) + ∑ other ∈ Finset.univ.erase thread, weight (places other) :=
  (Finset.add_sum_erase _ _ (Finset.mem_univ thread)).symm

/-- A thread that moves takes its weight along. -/
theorem total_update (weight : P → Nat) (places : ι → P) (thread : ι) (place : P) :
    total weight (Function.update places thread place) + weight (places thread) =
      total weight places + weight place := by
  have others : ∑ other ∈ Finset.univ.erase thread,
        weight (Function.update places thread place other) =
      ∑ other ∈ Finset.univ.erase thread, weight (places other) := by
    apply Finset.sum_congr rfl
    intro other member
    rw [Function.update_of_ne (Finset.ne_of_mem_erase member)]
  rw [total_split weight _ thread, total_split weight places thread, others, Function.update_self]
  omega

/-- A thread that moves takes its part of the count along. -/
theorem countAt_update (isAt : P → Bool) (places : ι → P) (thread : ι) (place : P) :
    countAt isAt (Function.update places thread place) + (isAt (places thread)).toNat =
      countAt isAt places + (isAt place).toNat :=
  total_update (fun place => (isAt place).toNat) places thread place

/-- Where a thread stands, the count is not zero. -/
theorem countAt_pos {isAt : P → Bool} {places : ι → P} {thread : ι}
    (standing : isAt (places thread) = true) : 0 < countAt isAt places := by
  have split := total_split (fun place => (isAt place).toNat) places thread
  simp only [standing] at split
  change 0 < total (fun place => (isAt place).toNat) places
  rw [split]
  exact Nat.add_pos_left Nat.one_pos _

omit [DecidableEq ι] in
/-- Threads that stand there, listed once each, are counted by the list. -/
theorem countAt_eq_length {isAt : P → Bool} {places : ι → P} {order : List ι}
    (once : order.Nodup) (listed : ∀ thread, thread ∈ order ↔ isAt (places thread) = true) :
    countAt isAt places = order.length := by
  classical
  have chosen : (Finset.univ.filter fun thread => isAt (places thread) = true) =
      order.toFinset := by
    ext thread
    simp [listed]
  have counted : countAt isAt places =
      ∑ thread, if isAt (places thread) = true then 1 else 0 := by
    apply Finset.sum_congr rfl
    intro thread _
    cases isAt (places thread) <;> rfl
  rw [counted, ← Finset.card_filter, chosen, List.toFinset_card_of_nodup once]

end Threads

end StdPrograms.Foundation

import Mathlib.Data.List.FinRange
import Mathlib.Data.List.Lex
import Mathlib.Data.List.Permutation

/-!
Contract: the permutations of `solution_46.py` and `solution_46.cpp`.

Owns both functions, that the first lists every arrangement as often as it arises, that it lists
them in lexicographic order, and that the second lists the reversals of the first's in the same
order.

Does not own what is printed.
-/

namespace StdPrograms.Hobbies.Permute

section Functions

variable {α : Type}

/-- All elements but one. -/
def rest (nums : List α) (i : Nat) : List α := nums.take i ++ nums.drop (i + 1)

theorem rest_eq_eraseIdx (nums : List α) (i : Nat) : rest nums i = nums.eraseIdx i :=
  (List.eraseIdx_eq_take_drop_succ nums i).symm

theorem length_rest_lt {nums : List α} (i : Fin nums.length) :
    (rest nums i).length < nums.length := by
  have inside := i.isLt
  simp only [rest, List.length_append, List.length_take, List.length_drop]
  omega

/-- The Python function: each element in front of the arrangements of the others. -/
def permute (nums : List α) : List (List α) :=
  if nums.isEmpty then [nums]
  else
    (List.finRange nums.length).flatMap fun (i : Fin nums.length) =>
      (permute (rest nums i)).map fun x => nums.get i :: x
termination_by nums.length
decreasing_by exact length_rest_lt i

/-- The C++ function: each element behind the arrangements of the others. -/
def permuteBack (nums : List α) : List (List α) :=
  if nums.isEmpty then [[]]
  else
    (List.finRange nums.length).flatMap fun (i : Fin nums.length) =>
      (permuteBack (rest nums i)).map fun x => x ++ [nums.get i]
termination_by nums.length
decreasing_by exact length_rest_lt i

theorem permute_nil : permute ([] : List α) = [[]] := by
  rw [permute]
  rfl

theorem permute_of_ne {nums : List α} (nonempty : nums ≠ []) :
    permute nums = (List.finRange nums.length).flatMap fun (i : Fin nums.length) =>
      (permute (rest nums i)).map fun x => nums.get i :: x := by
  rw [permute, if_neg (by simpa using nonempty)]

/-- The induction that follows the recursion of both functions. -/
theorem rest_induction {motive : List α → Prop} (nil : motive [])
    (step : ∀ nums, nums ≠ [] → (∀ i : Fin nums.length, motive (rest nums i)) → motive nums)
    (nums : List α) : motive nums := by
  induction size : nums.length using Nat.strong_induction_on generalizing nums with
  | _ size inductionHypothesis =>
      by_cases empty : nums = []
      · rw [empty]
        exact nil
      · apply step nums empty
        intro i
        apply inductionHypothesis _ _ _ rfl
        rw [← size]
        exact length_rest_lt i

/-! ### Every arrangement -/

/-- One element and the others make up the list. -/
theorem cons_rest_perm (nums : List α) (i : Fin nums.length) :
    (nums.get i :: rest nums i).Perm nums := by
  rw [rest_eq_eraseIdx]
  exact List.getElem_cons_eraseIdx_perm i.isLt

theorem mem_permute {nums order : List α} : order ∈ permute nums ↔ order.Perm nums := by
  induction nums using rest_induction generalizing order with
  | nil => simp [permute_nil]
  | step nums nonempty inductionHypothesis =>
      simp only [permute_of_ne nonempty, List.mem_flatMap, List.mem_finRange, true_and,
        List.mem_map, inductionHypothesis]
      constructor
      · rintro ⟨i, others, arranged, rfl⟩
        exact (arranged.cons _).trans (cons_rest_perm nums i)
      · intro arranged
        cases order with
        | nil => exact absurd arranged.symm.eq_nil nonempty
        | cons first others =>
            obtain ⟨i, isFirst⟩ := List.get_of_mem (arranged.subset List.mem_cons_self)
            refine ⟨i, others, ?_, by rw [isFirst]⟩
            rw [← isFirst] at arranged
            exact (arranged.trans (cons_rest_perm nums i).symm).cons_inv

/-- Different elements make different arrangements. -/
theorem nodup_permute {nums : List α} (distinct : nums.Nodup) : (permute nums).Nodup := by
  induction nums using rest_induction with
  | nil => simp [permute_nil]
  | step nums nonempty inductionHypothesis =>
      rw [permute_of_ne nonempty, List.nodup_flatMap]
      constructor
      · intro i _
        apply List.Nodup.map (List.cons_injective)
        apply inductionHypothesis
        rw [rest_eq_eraseIdx]
        exact distinct.sublist (List.eraseIdx_sublist _ _)
      · apply (List.nodup_finRange _).imp
        intro i j apart order here there
        simp only [List.mem_map] at here there
        obtain ⟨_, _, rfl⟩ := here
        obtain ⟨_, _, same⟩ := there
        exact apart (distinct.injective_get (List.cons.inj same).1.symm)

theorem finRange_flatMap_cast {β : Type} {size size' : Nat} (same : size = size')
    (body : Fin size → List β) :
    (List.finRange size).flatMap body =
      (List.finRange size').flatMap fun i => body (i.cast same.symm) := by
  subst same
  rfl

/-- The function looks at positions only. -/
theorem permute_map {β : Type} (change : α → β) (nums : List α) :
    permute (nums.map change) = (permute nums).map (List.map change) := by
  induction nums using rest_induction with
  | nil => simp [permute_nil]
  | step nums nonempty inductionHypothesis =>
      have mapped : nums.map change ≠ [] := by simpa using nonempty
      rw [permute_of_ne mapped, permute_of_ne nonempty,
        finRange_flatMap_cast (List.length_map change), List.map_flatMap]
      congr 1
      funext i
      have others : rest (nums.map change) i = (rest nums i).map change := by
        simp [rest, List.map_take, List.map_drop]
      simp only [Fin.val_cast, others, inductionHypothesis, List.map_map]
      congr 1
      funext order
      simp

/-- Every arrangement, as often as it arises. -/
theorem permute_perm (nums : List α) : (permute nums).Perm nums.permutations := by
  have positions : (permute (List.finRange nums.length)).Perm
      (List.finRange nums.length).permutations := by
    rw [List.perm_ext_iff_of_nodup (nodup_permute (List.nodup_finRange _))
      (List.nodup_permutations _ (List.nodup_finRange _))]
    intro order
    rw [mem_permute, List.mem_permutations]
  have here := positions.map (List.map nums.get)
  rw [← permute_map, List.map_permutations, List.map_get_finRange] at here
  exact here

/-! ### The order -/

theorem pairwise_permute [LinearOrder α] {nums : List α} (sorted : nums.Pairwise (· < ·)) :
    (permute nums).Pairwise (· < ·) := by
  induction nums using rest_induction with
  | nil => simp [permute_nil]
  | step nums nonempty inductionHypothesis =>
      rw [permute_of_ne nonempty, List.pairwise_flatMap]
      constructor
      · intro i _
        rw [List.pairwise_map]
        have others : (rest nums i).Pairwise (· < ·) := by
          rw [rest_eq_eraseIdx]
          exact sorted.sublist (List.eraseIdx_sublist _ _)
        apply (inductionHypothesis i others).imp
        intro left right before
        exact List.cons_lt_cons_iff.mpr (.inr ⟨rfl, before⟩)
      · apply (List.pairwise_lt_finRange _).imp
        intro i j before left isLeft right isRight
        obtain ⟨_, _, rfl⟩ := List.mem_map.mp isLeft
        obtain ⟨_, _, rfl⟩ := List.mem_map.mp isRight
        apply List.cons_lt_cons_iff.mpr
        left
        exact List.pairwise_iff_getElem.mp sorted i j i.isLt j.isLt before

/-- The C++ function puts behind what the Python function puts in front. -/
theorem permuteBack_eq (nums : List α) : permuteBack nums = (permute nums).map List.reverse := by
  induction nums using rest_induction with
  | nil =>
      rw [permute_nil, permuteBack]
      rfl
  | step nums nonempty inductionHypothesis =>
      rw [permute_of_ne nonempty, permuteBack, if_neg (by simpa using nonempty),
        List.map_flatMap]
      congr 1
      funext i
      simp only [inductionHypothesis, List.map_map]
      congr 1
      funext order
      simp

end Functions

/-- Every arrangement as often as it arises, `n!` in all; the C++ function lists the reversed
ones; and where the numbers ascend, the arrangements ascend lexicographically. -/
theorem permute_spec {α : Type} [LinearOrder α] (nums : List α) :
    (permute nums).Perm nums.permutations ∧
      (permute nums).length = nums.length.factorial ∧
      permuteBack nums = (permute nums).map List.reverse ∧
      (nums.Pairwise (· < ·) → (permute nums).Pairwise (· < ·)) := by
  refine ⟨permute_perm nums, ?_, permuteBack_eq nums, pairwise_permute⟩
  rw [(permute_perm nums).length_eq, List.length_permutations]

end StdPrograms.Hobbies.Permute

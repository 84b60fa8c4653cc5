import StdPrograms.Foundation.Palindromes

/-!
Contract: segments that occur in two texts.

Owns the length of the longest segment that ends at a place of each text, by the places before them,
and which segments end at both places.

Does not own the table of the lengths.
-/

namespace StdPrograms.Foundation

variable {α : Type} {left right : List α} {i j count : Nat}

/-- The segments are extended by what follows them. -/
theorem segment_succ_eq_iff (iInside : i < left.length) (jInside : j < right.length)
    (iRoom : count ≤ i) (jRoom : count ≤ j) :
    segment left (i - count) (count + 1) = segment right (j - count) (count + 1) ↔
      left[i]? = right[j]? ∧ segment left (i - count) count = segment right (j - count) count := by
  have leftEnd : i - count + count = i := Nat.sub_add_cancel iRoom
  have rightEnd : j - count + count = j := Nat.sub_add_cancel jRoom
  rw [segment_concat (by omega), segment_concat (by omega), List.append_singleton_inj,
    List.getElem?_eq_getElem iInside, List.getElem?_eq_getElem jInside, Option.some.injEq, and_comm]
  simp only [leftEnd, rightEnd]

section

variable [DecidableEq α]

/-- The length of the longest segment that ends at both places. -/
def commonEnd (left right : List α) : Nat → Nat → Nat
  | 0, j => if left[0]? = right[j]? then 1 else 0
  | i + 1, 0 => if left[i + 1]? = right[0]? then 1 else 0
  | i + 1, j + 1 => if left[i + 1]? = right[j + 1]? then commonEnd left right i j + 1 else 0

theorem commonEnd_of_edge (edge : i = 0 ∨ j = 0) :
    commonEnd left right i j = if left[i]? = right[j]? then 1 else 0 := by
  cases i with
  | zero => rfl
  | succ i =>
      obtain rfl : j = 0 := edge.resolve_left (Nat.succ_ne_zero i)
      rfl

theorem commonEnd_succ_succ (left right : List α) (i j : Nat) :
    commonEnd left right (i + 1) (j + 1) =
      if left[i + 1]? = right[j + 1]? then commonEnd left right i j + 1 else 0 :=
  rfl

/-- The segments that end at both places are those of at most that length. -/
theorem le_commonEnd_iff (iInside : i < left.length) (jInside : j < right.length) :
    count ≤ commonEnd left right i j ↔ count ≤ i + 1 ∧ count ≤ j + 1 ∧
      segment left (i + 1 - count) count = segment right (j + 1 - count) count := by
  induction count generalizing i j with
  | zero => simp [segment]
  | succ count inductionHypothesis =>
      rw [Nat.add_sub_add_right, Nat.add_sub_add_right]
      have ends : count + 1 ≤ i + 1 ∧ count + 1 ≤ j + 1 ∧
          segment left (i - count) (count + 1) = segment right (j - count) (count + 1) ↔
          left[i]? = right[j]? ∧ (count ≤ i ∧ count ≤ j ∧
            segment left (i - count) count = segment right (j - count) count) := by
        rw [Nat.succ_le_succ_iff, Nat.succ_le_succ_iff]
        constructor
        · rintro ⟨iRoom, jRoom, same⟩
          obtain ⟨last, before⟩ := (segment_succ_eq_iff iInside jInside iRoom jRoom).mp same
          exact ⟨last, iRoom, jRoom, before⟩
        · rintro ⟨last, iRoom, jRoom, before⟩
          exact ⟨iRoom, jRoom, (segment_succ_eq_iff iInside jInside iRoom jRoom).mpr ⟨last, before⟩⟩
      rw [ends]
      by_cases edge : i = 0 ∨ j = 0
      · rw [commonEnd_of_edge edge]
        split
        next same =>
          rw [Nat.succ_le_succ_iff, and_iff_right same]
          constructor
          · intro none_
            obtain rfl := Nat.le_zero.mp none_
            exact ⟨Nat.zero_le i, Nat.zero_le j, by simp [segment]⟩
          · rintro ⟨iRoom, jRoom, -⟩
            omega
        next differ => exact iff_of_false (by omega) fun both => differ both.1
      · obtain ⟨i, rfl⟩ := Nat.exists_eq_succ_of_ne_zero (not_or.mp edge).1
        obtain ⟨j, rfl⟩ := Nat.exists_eq_succ_of_ne_zero (not_or.mp edge).2
        rw [Nat.succ_eq_add_one, Nat.succ_eq_add_one, commonEnd_succ_succ]
        split
        next same =>
          rw [Nat.succ_le_succ_iff, and_iff_right same]
          exact inductionHypothesis (by omega) (by omega)
        next differ => exact iff_of_false (by omega) fun both => differ both.1

end

end StdPrograms.Foundation

import Mathlib.Data.List.Lattice
import Mathlib.Data.List.Sort
import Mathlib.Data.List.TakeWhile
import StdPrograms.Foundation.SortedTable

/-!
Contract: how often an ascending list has its elements.

Owns the list that keeps each element up to so many times, what an element more does to it, how an
ascending list shows that it has its greatest element so many times, and how the first and the last
elements of two ascending lists bear on what they have in common.

Does not own how such a list is computed.
-/

namespace StdPrograms.Foundation

variable {α : Type}

/-- Ascending lists agree where they have each element equally often. -/
theorem eq_of_count_eq [LinearOrder α] {left right : List α}
    (leftAscending : left.Pairwise (· ≤ ·)) (rightAscending : right.Pairwise (· ≤ ·))
    (counts : ∀ a, left.count a = right.count a) : left = right :=
  (List.perm_iff_count.mpr counts).eq_of_pairwise (fun _ _ _ _ => le_antisymm) leftAscending
    rightAscending

theorem exists_of_mem_take {elements : List α} {a : α} {count : Nat}
    (member : a ∈ elements.take count) : ∃ i < count, elements[i]? = some a := by
  obtain ⟨i, before, is⟩ := List.mem_take_iff_getElem.mp member
  exact ⟨i, by omega, by rw [List.getElem?_eq_getElem (by omega), is]⟩

/-! ### What is kept -/

/-- Each element is kept up to `bound` times, in the order of the list. -/
structure KeptUpTo [DecidableEq α] (bound : Nat) (all kept : List α) : Prop where
  sublist : kept.Sublist all
  counts : ∀ a, kept.count a = min bound (all.count a)

namespace KeptUpTo

section

variable [DecidableEq α] {bound : Nat} {all kept : List α} {element : α}

theorem nil : KeptUpTo bound ([] : List α) [] :=
  ⟨List.Sublist.refl _, fun a => by rw [List.count_nil, Nat.min_zero]⟩

theorem of_length_le (few : all.length ≤ bound) : KeptUpTo bound all all :=
  ⟨List.Sublist.refl _, fun _ => (Nat.min_eq_right (List.count_le_length.trans few)).symm⟩

theorem concat (keptUpTo : KeptUpTo bound all kept) (fewer : all.count element < bound) :
    KeptUpTo bound (all ++ [element]) (kept ++ [element]) := by
  refine ⟨keptUpTo.sublist.append_right _, fun a => ?_⟩
  rw [List.count_append, List.count_append, keptUpTo.counts, List.count_singleton]
  split
  next same =>
    obtain rfl := eq_of_beq same
    omega
  next => rfl

theorem concat_of_le (keptUpTo : KeptUpTo bound all kept) (full : bound ≤ all.count element) :
    KeptUpTo bound (all ++ [element]) kept := by
  refine ⟨keptUpTo.sublist.trans (List.sublist_append_left _ _), fun a => ?_⟩
  rw [List.count_append, keptUpTo.counts, List.count_singleton]
  split
  next same =>
    obtain rfl := eq_of_beq same
    omega
  next => rfl

theorem append_replicate (keptUpTo : KeptUpTo bound all kept) (new : element ∉ all)
    (copies : Nat) : KeptUpTo bound (all ++ List.replicate copies element)
      (kept ++ List.replicate (min bound copies) element) := by
  refine ⟨keptUpTo.sublist.append ((List.replicate_sublist_replicate _).mpr (Nat.min_le_right _ _)),
    fun a => ?_⟩
  rw [List.count_append, List.count_append, keptUpTo.counts, List.count_replicate,
    List.count_replicate]
  split
  next same =>
    obtain rfl := eq_of_beq same
    rw [List.count_eq_zero_of_not_mem new]
    omega
  next => rfl

/-- More is kept of more. -/
theorem length_le {more keptOfMore : List α} (keptUpTo : KeptUpTo bound all kept)
    (fewer : all.Sublist more) (keptMore : KeptUpTo bound more keptOfMore) :
    kept.length ≤ keptOfMore.length := by
  refine (List.subperm_ext_iff.mpr fun a _ => ?_).length_le
  rw [keptUpTo.counts, keptMore.counts]
  have := fewer.count_le a
  omega

/-- If elements are left out and no more than `bound` are kept, all are equal. -/
theorem eq_replicate (keptUpTo : KeptUpTo bound all kept) (few : kept.length ≤ bound)
    (many : bound < all.length) : ∃ a, kept = List.replicate bound a := by
  by_contra none_
  have less : ∀ a, kept.count a < bound := by
    intro a
    by_contra often
    have atMost : kept.count a ≤ kept.length := List.count_le_length
    have only : List.replicate (kept.count a) a = kept :=
      List.replicate_count_eq_of_count_eq_length (by omega)
    rw [show kept.count a = bound by omega] at only
    exact none_ ⟨a, only.symm⟩
  have same : kept.Perm all := by
    refine List.perm_iff_count.mpr fun a => ?_
    have := keptUpTo.counts a
    have := less a
    omega
  have := same.length_eq
  omega

theorem mem_iff (keptUpTo : KeptUpTo bound all kept) (positive : 0 < bound) :
    element ∈ kept ↔ element ∈ all := by
  rw [← List.count_pos_iff, ← List.count_pos_iff, keptUpTo.counts]
  omega

end

theorem unique [LinearOrder α] {bound : Nat} {all left right : List α}
    (ascending : all.Pairwise (· ≤ ·)) (leftKept : KeptUpTo bound all left)
    (rightKept : KeptUpTo bound all right) : left = right :=
  eq_of_count_eq (ascending.sublist leftKept.sublist) (ascending.sublist rightKept.sublist) fun a =>
    (leftKept.counts a).trans (rightKept.counts a).symm

end KeptUpTo

/-- An ascending list has its greatest element from a place on if and only if it has it as often as
there are elements from there on. -/
theorem le_count_iff [LinearOrder α] {elements : List α} {greatest : α}
    (ascending : elements.Pairwise (· ≤ ·)) (most : ∀ a ∈ elements, a ≤ greatest) {place : Nat}
    (inside : place < elements.length) :
    elements.length - place ≤ elements.count greatest ↔ elements[place]? = some greatest := by
  have here := List.getElem?_eq_getElem inside
  constructor
  · intro often
    by_contra other
    have early : (elements.take (place + 1)).count greatest = 0 := by
      rw [List.count_eq_zero]
      intro member
      obtain ⟨i, before, is⟩ := exists_of_mem_take member
      have upTo := rel_of_pairwise_of_le le_refl ascending (Nat.le_of_lt_succ before) is here
      exact other (here.trans (congrArg some (le_antisymm (most _ (List.getElem_mem inside)) upTo)))
    have split : (elements.take (place + 1) ++ elements.drop (place + 1)).count greatest =
        (elements.take (place + 1)).count greatest + (elements.drop (place + 1)).count greatest :=
      List.count_append
    have few : (elements.drop (place + 1)).count greatest ≤ (elements.drop (place + 1)).length :=
      List.count_le_length
    rw [List.take_append_drop, early, Nat.zero_add] at split
    rw [List.length_drop] at few
    omega
  · intro is
    have late : (elements.drop place).count greatest = (elements.drop place).length := by
      rw [List.count_eq_length]
      intro a member
      obtain ⟨i, atIt⟩ := List.mem_iff_getElem?.mp member
      rw [List.getElem?_drop] at atIt
      have atLeast := rel_of_pairwise_of_le le_refl ascending (Nat.le_add_right place i) is atIt
      exact le_antisymm atLeast (most a (List.mem_of_getElem? atIt))
    rw [← List.length_drop, ← late]
    exact (List.drop_sublist place elements).count_le greatest

/-! ### What two lists have in common -/

section

variable [LinearOrder α] {left right front : List α} {a b : α}

/-- The multiset intersection in ascending order. -/
structure IsCommon (left right common : List α) : Prop where
  ascending : common.Pairwise (· ≤ ·)
  counts : ∀ a, common.count a = min (left.count a) (right.count a)

theorem isCommon_iff (leftAscending : left.Pairwise (· ≤ ·)) {common : List α} :
    IsCommon left right common ↔ common = left.bagInter right := by
  have ascending : (left.bagInter right).Pairwise (· ≤ ·) :=
    leftAscending.sublist List.bagInter_sublist_left
  constructor
  · intro isCommon
    exact eq_of_count_eq isCommon.ascending ascending fun a => by
      rw [isCommon.counts, List.count_bagInter]
  · rintro rfl
    exact ⟨ascending, fun a => List.count_bagInter⟩

theorem bagInter_comm (leftAscending : left.Pairwise (· ≤ ·))
    (rightAscending : right.Pairwise (· ≤ ·)) : left.bagInter right = right.bagInter left := by
  rw [← isCommon_iff rightAscending]
  refine ⟨leftAscending.sublist List.bagInter_sublist_left, fun a => ?_⟩
  rw [List.count_bagInter, Nat.min_comm]

theorem bagInter_append_of_not_mem (absent : ∀ a ∈ front, a ∉ right) :
    (front ++ left).bagInter right = left.bagInter right := by
  induction front with
  | nil => rfl
  | cons a front inductionHypothesis =>
      rw [List.cons_append, List.cons_bagInter_of_not_mem _ (absent a List.mem_cons_self)]
      exact inductionHypothesis fun other member => absent other (List.mem_cons_of_mem a member)

theorem bagInter_cons_self (a : α) (left right : List α) :
    (a :: left).bagInter (a :: right) = a :: left.bagInter right := by
  rw [List.cons_bagInter_of_mem _ List.mem_cons_self, List.erase_cons_head]

theorem not_mem_of_lt (ascending : (b :: right).Pairwise (· ≤ ·)) (less : a < b) :
    a ∉ b :: right := by
  intro member
  rcases List.mem_cons.mp member with rfl | behind
  · exact lt_irrefl _ less
  · exact lt_irrefl _ (less.trans_le ((List.pairwise_cons.mp ascending).1 a behind))

theorem bagInter_cons_of_lt (ascending : (b :: right).Pairwise (· ≤ ·)) (less : a < b) :
    (a :: left).bagInter (b :: right) = left.bagInter (b :: right) :=
  List.cons_bagInter_of_not_mem left (not_mem_of_lt ascending less)

theorem bagInter_cons_of_gt (ascending : (a :: left).Pairwise (· ≤ ·)) (less : b < a) :
    (a :: left).bagInter (b :: right) = (a :: left).bagInter right :=
  List.bagInter_cons_of_not_mem right (not_mem_of_lt ascending less)

/-- What is less than the first element of the other list may be left out. -/
theorem bagInter_dropWhile (ascending : (b :: right).Pairwise (· ≤ ·)) :
    (left.dropWhile (· < b)).bagInter (b :: right) = left.bagInter (b :: right) := by
  have split : left.takeWhile (· < b) ++ left.dropWhile (· < b) = left :=
    List.takeWhile_append_dropWhile
  conv_rhs => rw [← split]
  refine (bagInter_append_of_not_mem fun a member => ?_).symm
  exact not_mem_of_lt ascending (by simpa using List.mem_takeWhile_imp member)

theorem bagInter_concat (leftAscending : (left ++ [b]).Pairwise (· ≤ ·)) :
    (left ++ [b]).bagInter (right ++ [b]) = left.bagInter right ++ [b] := by
  symm
  rw [← isCommon_iff leftAscending]
  refine ⟨leftAscending.sublist (List.bagInter_sublist_left.append_right _), fun a => ?_⟩
  rw [List.count_append, List.count_append, List.count_append, List.count_bagInter]
  omega

end

end StdPrograms.Foundation

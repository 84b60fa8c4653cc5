import Mathlib.Data.List.Perm.Basic
import Mathlib.Order.Lattice

/-!
Contract: sorting by a comparison.

Owns what a sort asks of its comparison on the elements it is given, what it promises in return,
comparisons by a key, that merging sorts, and that a linear order leaves one way to sort.

Does not own the order of elements that compare neither way.
-/

namespace StdPrograms.Foundation

variable {α : Type}

/-- A strict weak order on some of the elements. -/
structure StrictWeakOn (less : α → α → Bool) (valid : α → Prop) : Prop where
  irreflexive : ∀ x, valid x → less x x = false
  transitive : ∀ x y z, valid x → valid y → valid z → less x y → less y z → less x z
  incomparable : ∀ x y z, valid x → valid y → valid z → less x y = false → less y x = false →
    less y z = false → less z y = false → less x z = false

/-- A sort leaves no element before one that it is less than. -/
def Sorts (sort : (α → α → Bool) → List α → List α) : Prop :=
  ∀ less elements, StrictWeakOn less (· ∈ elements) →
    (sort less elements).Perm elements ∧
      (sort less elements).Pairwise fun earlier later => less later earlier = false

section

variable {less : α → α → Bool} {valid : α → Prop}

theorem StrictWeakOn.mono {fewer : α → Prop} (order : StrictWeakOn less valid)
    (within : ∀ x, fewer x → valid x) : StrictWeakOn less fewer where
  irreflexive x xValid := order.irreflexive x (within x xValid)
  transitive x y z xValid yValid zValid :=
    order.transitive x y z (within x xValid) (within y yValid) (within z zValid)
  incomparable x y z xValid yValid zValid :=
    order.incomparable x y z (within x xValid) (within y yValid) (within z zValid)

/-- The greater key is less. -/
theorem StrictWeakOn.of_key {κ : Type} [LinearOrder κ] {key : α → κ}
    (byKey : ∀ x y, valid x → valid y → (less x y ↔ key y < key x)) :
    StrictWeakOn less valid where
  irreflexive x xValid := by
    rw [← Bool.not_eq_true, byKey x x xValid xValid]
    exact lt_irrefl _
  transitive x y z xValid yValid zValid := by
    rw [byKey x y xValid yValid, byKey y z yValid zValid, byKey x z xValid zValid]
    exact fun first second => lt_trans second first
  incomparable x y z xValid yValid zValid := by
    simp only [← Bool.not_eq_true]
    rw [byKey x y xValid yValid, byKey y x yValid xValid, byKey y z yValid zValid,
      byKey z y zValid yValid, byKey x z xValid zValid]
    intro xy yx yz zy
    exact not_lt_of_ge (le_trans (not_lt.mp xy) (not_lt.mp yz))

theorem StrictWeakOn.not_less_trans (order : StrictWeakOn less valid) {x y z : α}
    (xValid : valid x) (yValid : valid y) (zValid : valid z) (yx : less y x = false)
    (zy : less z y = false) : less z x = false := by
  rw [← Bool.not_eq_true]
  intro zx
  have xy : less x y = false := by
    rw [← Bool.not_eq_true]
    intro xy
    exact absurd (order.transitive z x y zValid xValid yValid zx xy) (Bool.eq_false_iff.mp zy)
  have yz : less y z = false := by
    rw [← Bool.not_eq_true]
    intro yz
    exact absurd (order.transitive y z x yValid zValid xValid yz zx) (Bool.eq_false_iff.mp yx)
  exact absurd zx
    (Bool.eq_false_iff.mp (order.incomparable z y x zValid yValid xValid zy yz yx xy))

end

/-- A merge sort that compares only the elements it is given. -/
def mergeSortBy (less : α → α → Bool) (elements : List α) : List α :=
  (elements.attach.mergeSort fun x y => !less y.1 x.1).map Subtype.val

theorem mergeSortBy_sorts : Sorts (@mergeSortBy α) := by
  intro less elements order
  constructor
  · have permutation := (List.mergeSort_perm elements.attach fun x y => !less y.1 x.1).map
      Subtype.val
    rw [List.attach_map_subtype_val] at permutation
    exact permutation
  · refine List.pairwise_map.mpr ?_
    have sorted := @List.pairwise_mergeSort {x // x ∈ elements} (fun x y => !less y.1 x.1) ?_ ?_
      elements.attach
    · exact sorted.imp fun {x y} ordered => by simpa using ordered
    · intro x y z
      simp only [Bool.not_eq_true']
      exact order.not_less_trans x.2 y.2 z.2
    · intro x y
      rw [Bool.or_eq_true, Bool.not_eq_true', Bool.not_eq_true']
      by_contra both
      obtain ⟨yx, xy⟩ := not_or.mp both
      rw [Bool.not_eq_false] at yx xy
      have circle := order.transitive x.1 y.1 x.1 x.2 y.2 x.2 xy yx
      rw [order.irreflexive x.1 x.2] at circle
      cases circle

theorem pairwise_mergeSort_le [LinearOrder α] (elements : List α) :
    (elements.mergeSort fun left right => decide (left ≤ right)).Pairwise (· ≤ ·) := by
  have ascending := @List.pairwise_mergeSort α (fun left right => decide (left ≤ right))
    (by simpa using fun _ _ _ => le_trans) (by simpa using le_total) elements
  simpa using ascending

/-- There is one way to put elements in ascending order. -/
theorem eq_mergeSort_le [LinearOrder α] {ordered elements : List α}
    (permutation : ordered.Perm elements) (ascending : ordered.Pairwise (· ≤ ·)) :
    ordered = elements.mergeSort fun left right => decide (left ≤ right) :=
  (permutation.trans (List.mergeSort_perm elements _).symm).eq_of_pairwise
    (fun _ _ _ _ => le_antisymm) ascending (pairwise_mergeSort_le elements)

end StdPrograms.Foundation

import Mathlib.Data.List.Lex
import Mathlib.Data.List.Perm.Basic
import Mathlib.Order.Bounds.Defs
import Mathlib.Order.Lattice

/-!
Contract: the arrangements of a list in the lexicographic order.

Owns the least and the greatest arrangement, and the least one above a list whose last descent
and the element before it are known.

Does not own how the descent is found.
-/

namespace StdPrograms.Foundation

variable {α : Type} [LinearOrder α]

/-- The arrangements of a list that are greater than it. -/
def greaterArrangements (elements : List α) : Set (List α) :=
  {other | other.Perm elements ∧ elements < other}

theorem cons_le_cons_of_le {first head : α} {rest tail : List α} (atMost : first ≤ head)
    (tie : first = head → rest ≤ tail) : first :: rest ≤ head :: tail := by
  rcases lt_or_eq_of_le atMost with less | rfl
  · exact le_of_lt (List.Lex.rel less)
  · exact List.cons_le_cons first (tie rfl)

theorem le_of_perm_of_descending {elements other : List α} (descending : elements.Pairwise (· ≥ ·))
    (permutation : other.Perm elements) : other ≤ elements := by
  induction elements generalizing other with
  | nil => exact le_of_eq (List.perm_nil.mp permutation)
  | cons first rest inductionHypothesis =>
      obtain ⟨firstGreatest, restDescending⟩ := List.pairwise_cons.mp descending
      cases other with
      | nil => exact absurd permutation.symm.eq_nil (List.cons_ne_nil first rest)
      | cons head tail =>
          have atMost : head ≤ first := by
            rcases List.mem_cons.mp (permutation.mem_iff.mp List.mem_cons_self) with rfl | later
            · exact le_refl head
            · exact firstGreatest head later
          refine cons_le_cons_of_le atMost fun same => ?_
          subst same
          exact inductionHypothesis restDescending permutation.cons_inv

theorem le_of_perm_of_ascending {elements other : List α} (ascending : elements.Pairwise (· ≤ ·))
    (permutation : other.Perm elements) : elements ≤ other := by
  induction elements generalizing other with
  | nil => exact le_of_eq (List.perm_nil.mp permutation).symm
  | cons first rest inductionHypothesis =>
      obtain ⟨firstLeast, restAscending⟩ := List.pairwise_cons.mp ascending
      cases other with
      | nil => exact absurd permutation.symm.eq_nil (List.cons_ne_nil first rest)
      | cons head tail =>
          have atMost : first ≤ head := by
            rcases List.mem_cons.mp (permutation.mem_iff.mp List.mem_cons_self) with rfl | later
            · exact le_refl head
            · exact firstLeast head later
          refine cons_le_cons_of_le atMost fun same => ?_
          subst same
          exact inductionHypothesis restAscending permutation.cons_inv

/-- What stands before the change stays. -/
theorem isLeast_greaterArrangements_cons {first : α} {elements after : List α}
    (least : IsLeast (greaterArrangements elements) after) :
    IsLeast (greaterArrangements (first :: elements)) (first :: after) := by
  obtain ⟨⟨permutation, greater⟩, below⟩ := least
  refine ⟨⟨permutation.cons first, List.Lex.cons greater⟩, ?_⟩
  rintro other ⟨otherPermutation, otherGreater⟩
  cases otherGreater with
  | rel less => exact le_of_lt (List.Lex.rel less)
  | cons rest =>
      exact List.cons_le_cons first (below ⟨otherPermutation.cons_inv, rest⟩)

section

variable {pivot successor : α} {above below : List α}
  (descending : (above ++ successor :: below).Pairwise (· ≥ ·))
  (greater : pivot < successor) (notGreater : ∀ element ∈ below, element ≤ pivot)

include descending greater notGreater

/-- The rest of the new arrangement in reverse: the pivot has taken the successor's place. -/
theorem descending_of_exchange : (above ++ pivot :: below).Pairwise (· ≥ ·) := by
  obtain ⟨aboveDescending, restDescending, across⟩ := List.pairwise_append.mp descending
  obtain ⟨-, belowDescending⟩ := List.pairwise_cons.mp restDescending
  refine List.pairwise_append.mpr ⟨aboveDescending,
    List.pairwise_cons.mpr ⟨notGreater, belowDescending⟩, ?_⟩
  intro upper upperIn lower lowerIn
  rcases List.mem_cons.mp lowerIn with rfl | later
  · exact le_trans greater.le (across upper upperIn successor List.mem_cons_self)
  · exact across upper upperIn lower (List.mem_cons_of_mem successor later)

/-- The least element above the pivot comes before an ascending rest. -/
theorem isLeast_greaterArrangements_pivot :
    IsLeast (greaterArrangements (pivot :: (above ++ successor :: below)))
      (successor :: (above ++ pivot :: below).reverse) := by
  have ascending : (above ++ pivot :: below).reverse.Pairwise (· ≤ ·) :=
    List.pairwise_reverse.mpr (descending_of_exchange descending greater notGreater)
  have exchanged : (successor :: (above ++ pivot :: below)).Perm
      (pivot :: (above ++ successor :: below)) := by
    refine (List.perm_middle.cons successor).trans ?_
    refine (List.Perm.swap pivot successor _).trans ?_
    exact List.perm_middle.symm.cons pivot
  have permutation := ((List.reverse_perm _).cons successor).trans exchanged
  refine ⟨⟨permutation, List.Lex.rel greater⟩, ?_⟩
  rintro other ⟨otherPermutation, otherGreater⟩
  cases other with
  | nil => exact absurd otherPermutation.symm.eq_nil (List.cons_ne_nil pivot _)
  | cons head tail =>
      cases otherGreater with
      | cons rest =>
          exact absurd rest (not_lt_of_ge
            (le_of_perm_of_descending descending otherPermutation.cons_inv))
      | rel less =>
          have member : head ∈ above ++ successor :: below :=
            (List.mem_cons.mp (otherPermutation.mem_iff.mp
              List.mem_cons_self)).resolve_left less.ne'
          have atLeast : successor ≤ head := by
            rcases List.mem_append.mp member with upper | lower
            · exact (List.pairwise_append.mp descending).2.2 head upper successor
                List.mem_cons_self
            · rcases List.mem_cons.mp lower with rfl | beyond
              · exact le_refl head
              · exact absurd less (not_lt_of_ge (notGreater head beyond))
          refine cons_le_cons_of_le atLeast fun same => ?_
          subst same
          exact le_of_perm_of_ascending ascending
            (otherPermutation.trans permutation.symm).cons_inv

theorem isLeast_greaterArrangements (front : List α) :
    IsLeast (greaterArrangements (front ++ pivot :: (above ++ successor :: below)))
      (front ++ successor :: (above ++ pivot :: below).reverse) := by
  induction front with
  | nil => exact isLeast_greaterArrangements_pivot descending greater notGreater
  | cons first front inductionHypothesis =>
      exact isLeast_greaterArrangements_cons inductionHypothesis

end

end StdPrograms.Foundation

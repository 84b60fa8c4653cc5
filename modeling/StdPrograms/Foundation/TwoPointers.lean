import Mathlib.Data.List.Sort
import Mathlib.Order.Lattice
import StdPrograms.Foundation.SortedTable

/-!
Contract: choices of elements of a sorted list by their places.

Owns the pairs between two places, which of them are left when one end moves, and the choices
that begin with a run of equal elements.

Does not own what is asked of a choice.
-/

namespace StdPrograms.Foundation

variable {α : Type}

/-- The elements at two places, in their order; both ends belong to the interval. -/
def Pair (elements : List α) (low high : Nat) (left right : α) : Prop :=
  ∃ p q, low ≤ p ∧ p < q ∧ q ≤ high ∧ elements[p]? = some left ∧ elements[q]? = some right

variable {elements : List α} {low high : Nat} {left right first last : α}

theorem not_pair_of_le (empty : high ≤ low) : ¬Pair elements low high left right := by
  rintro ⟨p, q, above, ordered, below, -⟩
  omega

theorem Pair.mono {low' high' : Nat} (pair : Pair elements low high left right)
    (lower : low' ≤ low) (higher : high ≤ high') : Pair elements low' high' left right := by
  obtain ⟨p, q, above, ordered, below, places⟩ := pair
  exact ⟨p, q, Nat.le_trans lower above, ordered, Nat.le_trans below higher, places⟩

theorem pair_of_ends (apart : low < high) (firstIs : elements[low]? = some first)
    (lastIs : elements[high]? = some last) : Pair elements low high first last :=
  ⟨low, high, Nat.le_refl low, apart, Nat.le_refl high, firstIs, lastIs⟩

/-- Pairs without an element are beyond a run of it at the lower end. -/
theorem Pair.above_run {beyond : Nat} (pair : Pair elements low high left right)
    (run : ∀ place, low ≤ place → place < beyond → elements[place]? = some first)
    (differs : left ≠ first) : Pair elements beyond high left right := by
  obtain ⟨p, q, above, ordered, below, leftIs, rightIs⟩ := pair
  refine ⟨p, q, Nat.le_of_not_lt fun inside => ?_, ordered, below, leftIs, rightIs⟩
  rw [run p above inside] at leftIs
  exact differs (Option.some.inj leftIs).symm

theorem Pair.below_run {beyond : Nat} (pair : Pair elements low high left right)
    (run : ∀ place, beyond < place → place ≤ high → elements[place]? = some last)
    (differs : right ≠ last) : Pair elements low beyond left right := by
  obtain ⟨p, q, above, ordered, below, leftIs, rightIs⟩ := pair
  refine ⟨p, q, above, ordered, Nat.le_of_not_lt fun inside => ?_, leftIs, rightIs⟩
  rw [run q inside below] at rightIs
  exact differs (Option.some.inj rightIs).symm

/-- The choice of an element and of others behind it. -/
theorem cons_sublist_drop_iff {others : List α} {start : Nat} :
    (left :: others).Sublist (elements.drop start) ↔
      ∃ place, start ≤ place ∧ elements[place]? = some left ∧
        others.Sublist (elements.drop (place + 1)) := by
  constructor
  · intro chosen
    obtain ⟨front, back, split, inFront, inBack⟩ := List.cons_sublist_iff.mp chosen
    obtain ⟨offset, inside, rfl⟩ := List.mem_iff_getElem.mp inFront
    refine ⟨start + offset, Nat.le_add_right start offset, ?_, ?_⟩
    · rw [← List.getElem?_drop, split, List.getElem?_append_left inside,
        List.getElem?_eq_getElem inside]
    · rw [Nat.add_assoc, ← List.drop_drop, split]
      refine inBack.trans ?_
      rw [List.drop_append_of_le_length inside]
      exact List.sublist_append_right _ back
  · rintro ⟨place, beyond, placeIs, chosen⟩
    obtain ⟨inside, rfl⟩ := List.getElem?_eq_some_iff.mp placeIs
    have whole := chosen.cons_cons elements[place]
    rw [← List.drop_eq_getElem_cons inside] at whole
    exact whole.trans (List.drop_sublist_drop_left elements beyond)

theorem pair_iff_sublist {start : Nat} :
    Pair elements start (elements.length - 1) left right ↔
      [left, right].Sublist (elements.drop start) := by
  rw [cons_sublist_drop_iff]
  constructor
  · rintro ⟨p, q, above, ordered, -, leftIs, rightIs⟩
    refine ⟨p, above, leftIs, cons_sublist_drop_iff.mpr ⟨q, ordered, rightIs, ?_⟩⟩
    exact List.nil_sublist _
  · rintro ⟨p, above, leftIs, chosen⟩
    obtain ⟨q, ordered, rightIs, -⟩ := cons_sublist_drop_iff.mp chosen
    have inside := (List.getElem?_eq_some_iff.mp rightIs).1
    exact ⟨p, q, above, ordered, Nat.le_sub_one_of_lt inside, leftIs, rightIs⟩

/-- A choice begins with the element of a run, or is behind the run. -/
theorem cons_sublist_run_iff {others : List α} {beyond : Nat} (apart : low < beyond)
    (run : ∀ place, low ≤ place → place < beyond → elements[place]? = some first) :
    (left :: others).Sublist (elements.drop low) ↔
      left = first ∧ others.Sublist (elements.drop (low + 1)) ∨
        (left :: others).Sublist (elements.drop beyond) := by
  constructor
  · intro chosen
    obtain ⟨place, above, leftIs, behind⟩ := cons_sublist_drop_iff.mp chosen
    rcases Nat.lt_or_ge place beyond with inside | outside
    · rw [run place above inside] at leftIs
      refine Or.inl ⟨(Option.some.inj leftIs).symm, behind.trans ?_⟩
      exact List.drop_sublist_drop_left elements (Nat.succ_le_succ above)
    · exact Or.inr (cons_sublist_drop_iff.mpr ⟨place, outside, leftIs, behind⟩)
  · rintro (⟨rfl, chosen⟩ | chosen)
    · have placeIs := run low (Nat.le_refl low) apart
      exact cons_sublist_drop_iff.mpr ⟨low, Nat.le_refl low, placeIs, chosen⟩
    · exact chosen.trans (List.drop_sublist_drop_left elements (Nat.le_of_lt apart))

section

variable [LinearOrder α] (sorted : elements.Pairwise (· ≤ ·))

include sorted

theorem le_of_places {p q : Nat} (atMost : p ≤ q) (leftIs : elements[p]? = some left)
    (rightIs : elements[q]? = some right) : left ≤ right :=
  rel_of_pairwise_of_le le_refl sorted atMost leftIs rightIs

/-- A pair is left when the lower end moves up, or no greater than the ends. -/
theorem Pair.without_low (pair : Pair elements low high left right)
    (firstIs : elements[low]? = some first) (lastIs : elements[high]? = some last) :
    Pair elements (low + 1) high left right ∨ left = first ∧ right ≤ last := by
  obtain ⟨p, q, above, ordered, below, leftIs, rightIs⟩ := pair
  rcases Nat.lt_or_eq_of_le above with beyond | rfl
  · exact Or.inl ⟨p, q, beyond, ordered, below, leftIs, rightIs⟩
  · rw [firstIs] at leftIs
    exact Or.inr ⟨(Option.some.inj leftIs).symm, le_of_places sorted below rightIs lastIs⟩

theorem Pair.without_high (pair : Pair elements low high left right)
    (firstIs : elements[low]? = some first) (lastIs : elements[high]? = some last) :
    Pair elements low (high - 1) left right ∨ first ≤ left ∧ right = last := by
  obtain ⟨p, q, above, ordered, below, leftIs, rightIs⟩ := pair
  rcases Nat.lt_or_eq_of_le below with beyond | rfl
  · exact Or.inl ⟨p, q, above, ordered, Nat.le_sub_one_of_lt beyond, leftIs, rightIs⟩
  · rw [lastIs] at rightIs
    exact Or.inr ⟨le_of_places sorted above firstIs leftIs, (Option.some.inj rightIs).symm⟩

/-- Behind a run of equal elements all are greater. -/
theorem lt_of_beyond_run {beyond : Nat} (upTo : low ≤ beyond)
    (firstIs : elements[low]? = some first)
    (ends : elements[beyond]? ≠ some first) {place : Nat} (behind : beyond ≤ place)
    (leftIs : elements[place]? = some left) : first < left := by
  have inside := Nat.lt_of_le_of_lt behind (List.getElem?_eq_some_iff.mp leftIs).1
  have beyondIs := List.getElem?_eq_getElem inside
  refine lt_of_lt_of_le ?_ (le_of_places sorted behind beyondIs leftIs)
  refine lt_of_le_of_ne (le_of_places sorted upTo firstIs beyondIs) fun same => ?_
  exact ends (same ▸ beyondIs)

end

end StdPrograms.Foundation

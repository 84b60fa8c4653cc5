import Mathlib.Logic.Equiv.Basic

/-!
Contract: exchanges in an array.

Owns the exchange of two elements, the rearrangement of one interval that such exchanges add up
to, and what both do to each position.

Does not own any order of the elements.
-/

namespace StdPrograms.Foundation

variable {α : Type}

/-- Two elements change places; there is no result out of bounds. -/
def exchange (elements : List α) (i j : Nat) : Option (List α) := do
  let left ← elements[i]?
  let right ← elements[j]?
  return (elements.set i right).set j left

theorem exchange_spec {elements : List α} {i j : Nat} (iInside : i < elements.length)
    (jInside : j < elements.length) :
    ∃ after, exchange elements i j = some after ∧ after.Perm elements ∧
      ∀ position, after[position]? = elements[Equiv.swap i j position]? := by
  refine ⟨(elements.set i elements[j]).set j elements[i], ?_,
    List.set_set_perm iInside jInside, fun position => ?_⟩
  · simp [exchange, iInside, jInside]
  · by_cases isRight : position = j
    · subst isRight
      rw [Equiv.swap_apply_right, List.getElem?_set_self (by simpa using jInside),
        List.getElem?_eq_getElem iInside]
    · rw [List.getElem?_set_ne (Ne.symm isRight)]
      by_cases isLeft : position = i
      · subst isLeft
        rw [Equiv.swap_apply_left, List.getElem?_set_self iInside,
          List.getElem?_eq_getElem jInside]
      · rw [List.getElem?_set_ne (Ne.symm isLeft), Equiv.swap_apply_of_ne_of_ne isLeft isRight]

theorem getElem?_append_cons (front : List α) (element : α) (back : List α) :
    (front ++ element :: back)[front.length]? = some element := by
  rw [List.getElem?_append_right (Nat.le_refl _), Nat.sub_self, List.getElem?_cons_zero]

theorem exchange_append (front middle back : List α) (left right : α) :
    exchange (front ++ left :: (middle ++ right :: back)) front.length
        (front.length + 1 + middle.length) =
      some (front ++ right :: (middle ++ left :: back)) := by
  rw [exchange, getElem?_append_cons]
  simp [Nat.add_assoc, Nat.add_comm 1]

theorem exchange_comm (elements : List α) (i j : Nat) :
    exchange elements i j = exchange elements j i := by
  unfold exchange
  by_cases same : i = j
  · rw [same]
  · cases elements[i]? <;> cases elements[j]? <;> simp [List.set_comm _ _ same]

/-- The elements of an interval are in another order, and all others stay. -/
structure Rearranged (low high : Nat) (before after : List α) : Prop where
  permutation : after.Perm before
  outside : ∀ position, position < low ∨ high ≤ position → after[position]? = before[position]?
  inside : ∀ position, low ≤ position → position < high →
    ∃ origin, low ≤ origin ∧ origin < high ∧ after[position]? = before[origin]?

namespace Rearranged

variable {low high : Nat} {before between after : List α}

theorem refl (low high : Nat) (elements : List α) : Rearranged low high elements elements where
  permutation := List.Perm.refl elements
  outside _ _ := rfl
  inside position above below := ⟨position, above, below, rfl⟩

theorem trans (first : Rearranged low high before between)
    (second : Rearranged low high between after) : Rearranged low high before after where
  permutation := second.permutation.trans first.permutation
  outside position away := (second.outside position away).trans (first.outside position away)
  inside position above below := by
    obtain ⟨middle, middleAbove, middleBelow, fromMiddle⟩ := second.inside position above below
    obtain ⟨origin, originAbove, originBelow, fromOrigin⟩ :=
      first.inside middle middleAbove middleBelow
    exact ⟨origin, originAbove, originBelow, fromMiddle.trans fromOrigin⟩

theorem length_eq (rearranged : Rearranged low high before after) :
    after.length = before.length :=
  rearranged.permutation.length_eq

theorem of_swap {i j : Nat} (permutation : after.Perm before)
    (entries : ∀ position, after[position]? = before[Equiv.swap i j position]?)
    (iAbove : low ≤ i) (iBelow : i < high) (jAbove : low ≤ j) (jBelow : j < high) :
    Rearranged low high before after where
  permutation := permutation
  outside position away := by
    rw [entries, Equiv.swap_apply_of_ne_of_ne (by omega) (by omega)]
  inside position above below := by
    refine ⟨Equiv.swap i j position, ?_, ?_, entries position⟩
    · rw [Equiv.swap_apply_def]
      split_ifs
      · exact jAbove
      · exact iAbove
      · exact above
    · rw [Equiv.swap_apply_def]
      split_ifs
      · exact jBelow
      · exact iBelow
      · exact below

end Rearranged

end StdPrograms.Foundation

import Mathlib.Data.List.Basic
import Mathlib.Order.Lattice

/-!
Contract: tables whose values do not decrease to the right or downwards.

Owns where a value can still occur in a rectangle, once it has been compared with the value of
one cell.

Does not own any search.
-/

namespace StdPrograms.Foundation

variable {α : Type}

theorem rel_of_pairwise {relation : α → α → Prop} {elements : List α}
    (pairwise : elements.Pairwise relation) {i j : Nat} (less : i < j) {left right : α}
    (leftIs : elements[i]? = some left) (rightIs : elements[j]? = some right) :
    relation left right := by
  obtain ⟨iInside, rfl⟩ := List.getElem?_eq_some_iff.mp leftIs
  obtain ⟨jInside, rfl⟩ := List.getElem?_eq_some_iff.mp rightIs
  exact List.pairwise_iff_getElem.mp pairwise i j iInside jInside less

/-- A relation that each element has to itself holds at equal places too. -/
theorem rel_of_pairwise_of_le {relation : α → α → Prop}
    (reflexive : ∀ element, relation element element) {elements : List α}
    (pairwise : elements.Pairwise relation) {i j : Nat} (atMost : i ≤ j)
    {left right : α} (leftIs : elements[i]? = some left) (rightIs : elements[j]? = some right) :
    relation left right := by
  rcases Nat.lt_or_eq_of_le atMost with less | rfl
  · exact rel_of_pairwise pairwise less leftIs rightIs
  · rw [leftIs] at rightIs
    exact Option.some.inj rightIs ▸ reflexive left

/-- The value is in a cell of the rectangle; both bounds belong to it. -/
def Occurs (table : Int → Int → Option α) (target : α) (top left bottom right : Int) : Prop :=
  ∃ i j, (top ≤ i ∧ i ≤ bottom) ∧ (left ≤ j ∧ j ≤ right) ∧ table i j = some target

def Ascending [LE α] (table : Int → Int → Option α) : Prop :=
  ∀ i i' j j' upper lower, i ≤ i' → j ≤ j' → table i j = some upper → table i' j' = some lower →
    upper ≤ lower

variable {table : Int → Int → Option α} {target : α} {top left bottom right : Int}

theorem not_occurs_of_empty (empty : bottom < top ∨ right < left) :
    ¬Occurs table target top left bottom right := by
  rintro ⟨i, j, rows, columns, -⟩
  omega

theorem occurs_of_single {value : α} (entry : table top left = some value) :
    Occurs table target top left top left ↔ value = target := by
  constructor
  · rintro ⟨i, j, rows, columns, found⟩
    rw [Int.le_antisymm rows.2 rows.1, Int.le_antisymm columns.2 columns.1, entry] at found
    exact Option.some.inj found
  · intro same
    exact ⟨top, left, ⟨Int.le_refl _, Int.le_refl _⟩, ⟨Int.le_refl _, Int.le_refl _⟩,
      same ▸ entry⟩

theorem Occurs.mono {top' left' bottom' right' : Int}
    (occurs : Occurs table target top' left' bottom' right') (topWithin : top ≤ top')
    (leftWithin : left ≤ left') (bottomWithin : bottom' ≤ bottom)
    (rightWithin : right' ≤ right) : Occurs table target top left bottom right := by
  obtain ⟨i, j, rows, columns, found⟩ := occurs
  exact ⟨i, j, ⟨Int.le_trans topWithin rows.1, Int.le_trans rows.2 bottomWithin⟩,
    ⟨Int.le_trans leftWithin columns.1, Int.le_trans columns.2 rightWithin⟩, found⟩

section

variable [LinearOrder α] (ascending : Ascending table) {row column : Int} {value : α}
  (rowInside : top ≤ row ∧ row ≤ bottom) (columnInside : left ≤ column ∧ column ≤ right)
  (entry : table row column = some value)

include ascending rowInside columnInside entry

/-- A greater value is neither above nor to the left of the cell: it is to the right in these
rows or in the rows below. -/
theorem occurs_of_lt (less : value < target) :
    Occurs table target top left bottom right ↔
      Occurs table target top (column + 1) row right ∨
        Occurs table target (row + 1) left bottom right := by
  constructor
  · rintro ⟨i, j, rows, columns, found⟩
    by_cases below : row < i
    · exact .inr ⟨i, j, ⟨below, rows.2⟩, columns, found⟩
    · have beyond : column < j := by
        apply Int.lt_of_not_ge
        intro atMost
        exact absurd (ascending i row j column target value (Int.le_of_not_gt below) atMost found
          entry) (not_le_of_gt less)
      exact .inl ⟨i, j, ⟨rows.1, Int.le_of_not_gt below⟩, ⟨beyond, columns.2⟩, found⟩
  · rintro (beside | below)
    · exact beside.mono (Int.le_refl _) (by omega) rowInside.2 (Int.le_refl _)
    · exact below.mono (by omega) (Int.le_refl _) (Int.le_refl _) (Int.le_refl _)

/-- A smaller value is in the rows above or to the left in the other ones. -/
theorem occurs_of_gt (greater : target < value) :
    Occurs table target top left bottom right ↔
      Occurs table target top left (row - 1) right ∨
        Occurs table target row left bottom (column - 1) := by
  constructor
  · rintro ⟨i, j, rows, columns, found⟩
    by_cases above : i < row
    · exact .inl ⟨i, j, ⟨rows.1, Int.le_sub_one_of_lt above⟩, columns, found⟩
    · have before : j < column := by
        apply Int.lt_of_not_ge
        intro atLeast
        exact absurd (ascending row i column j value target (Int.le_of_not_gt above) atLeast entry
          found) (not_le_of_gt greater)
      exact .inr ⟨i, j, ⟨Int.le_of_not_gt above, rows.2⟩, ⟨columns.1, Int.le_sub_one_of_lt before⟩,
        found⟩
  · rintro (above | beside)
    · exact above.mono (Int.le_refl _) (Int.le_refl _) (by omega) (Int.le_refl _)
    · exact beside.mono rowInside.1 (Int.le_refl _) (Int.le_refl _) (by omega)

end

end StdPrograms.Foundation

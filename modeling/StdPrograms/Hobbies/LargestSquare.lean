import Mathlib.Order.ConditionallyCompleteLattice.Basic
import Mathlib.Order.Lattice.Nat
import StdPrograms.Foundation.Grid

/-!
Contract: the largest square of ones in a matrix.

Owns the squares of a matrix of zeros and ones, the side of the largest, and the table that a
recurrence over the three neighbours above and to the left gives: each cell holds the side of
the largest square that ends there.

Does not own any program that fills the table.
-/

namespace StdPrograms.Hobbies

open StdPrograms.Foundation

/-- A matrix with a row and a column at least. -/
structure BinaryMatrix where
  rows : Nat
  cols : Nat
  numbers : Grid Nat
  rows_pos : 0 < rows
  cols_pos : 0 < cols
  binary : ∀ i j, numbers i j = 0 ∨ numbers i j = 1

namespace BinaryMatrix

variable (matrix : BinaryMatrix)

/-- Some square of this side inside the matrix holds ones only. -/
def HasSquare (side : Nat) : Prop :=
  ∃ i j, i + side ≤ matrix.rows ∧ j + side ≤ matrix.cols ∧
    ∀ row col, i ≤ row → row < i + side → j ≤ col → col < j + side →
      matrix.numbers row col = 1

noncomputable def largestSide : Nat := sSup {side | matrix.HasSquare side}

/-- The square of this side whose last cell is the given one. -/
def EndsAt (i j side : Nat) : Prop :=
  side ≤ i + 1 ∧ side ≤ j + 1 ∧
    ∀ row col, row ≤ i → i < row + side → col ≤ j → j < col + side →
      matrix.numbers row col = 1

variable {matrix} {side : Nat}

theorem hasSquare_zero : matrix.HasSquare 0 := by
  refine ⟨0, 0, Nat.zero_le _, Nat.zero_le _, ?_⟩
  intro row col _ inside
  exact absurd inside (Nat.not_lt_zero row)

theorem le_rows_of_hasSquare (has : matrix.HasSquare side) : side ≤ matrix.rows := by
  obtain ⟨i, j, rowsInside, -⟩ := has
  omega

theorem hasSquare_succ_iff :
    matrix.HasSquare (side + 1) ↔
      ∃ i < matrix.rows, ∃ j < matrix.cols, matrix.EndsAt i j (side + 1) := by
  constructor
  · rintro ⟨i, j, rowsInside, colsInside, ones⟩
    refine ⟨i + side, by omega, j + side, by omega, by omega, by omega, ?_⟩
    intro row col _ _ _ _
    exact ones row col (by omega) (by omega) (by omega) (by omega)
  · rintro ⟨i, rowInside, j, colInside, rowFits, colFits, ones⟩
    refine ⟨i - side, j - side, by omega, by omega, ?_⟩
    intro row col _ _ _ _
    exact ones row col (by omega) (by omega) (by omega) (by omega)

theorem bddAbove_hasSquare : BddAbove {side | matrix.HasSquare side} :=
  ⟨matrix.rows, fun _ has => le_rows_of_hasSquare has⟩

theorem hasSquare_largestSide : matrix.HasSquare matrix.largestSide :=
  Nat.sSup_mem ⟨0, hasSquare_zero⟩ bddAbove_hasSquare

theorem le_largestSide (has : matrix.HasSquare side) : side ≤ matrix.largestSide :=
  le_csSup bddAbove_hasSquare has

/-! ### The recurrence -/

variable (matrix) in
/-- What a cell is computed from its neighbours: the number itself on the border. -/
def sideAt (table : Grid Nat) (i j : Nat) : Nat :=
  if i = 0 ∨ j = 0 then matrix.numbers i j
  else if matrix.numbers i j = 0 then 0
  else min (min (table i (j - 1)) (table (i - 1) j)) (table (i - 1) (j - 1)) + 1

variable (matrix) in
def Recurrence (table : Grid Nat) : Prop :=
  ∀ i < matrix.rows, ∀ j < matrix.cols, table i j = matrix.sideAt table i j

variable {table : Grid Nat}

theorem endsAt_zero (i j : Nat) : matrix.EndsAt i j 0 := by
  refine ⟨Nat.zero_le _, Nat.zero_le _, ?_⟩
  intro row col above inside
  omega

theorem endsAt_one_iff {i j : Nat} : matrix.EndsAt i j 1 ↔ matrix.numbers i j = 1 := by
  constructor
  · intro square
    exact square.2.2 i j (le_refl i) (Nat.lt_succ_self i) (le_refl j) (Nat.lt_succ_self j)
  · intro one
    refine ⟨by omega, by omega, ?_⟩
    intro row col _ _ _ _
    obtain rfl : row = i := by omega
    obtain rfl : col = j := by omega
    exact one

/-- Three squares that overlap, and the last cell. -/
theorem endsAt_succ_iff {i j : Nat} :
    matrix.EndsAt (i + 1) (j + 1) (side + 1) ↔
      matrix.numbers (i + 1) (j + 1) = 1 ∧ matrix.EndsAt (i + 1) j side ∧
        matrix.EndsAt i (j + 1) side ∧ matrix.EndsAt i j side := by
  constructor
  · rintro ⟨rowFits, colFits, ones⟩
    refine ⟨ones _ _ (le_refl _) (by omega) (le_refl _) (by omega), ⟨by omega, by omega, ?_⟩,
      ⟨by omega, by omega, ?_⟩, ⟨by omega, by omega, ?_⟩⟩
    · intro row col _ _ _ _
      exact ones row col (by omega) (by omega) (by omega) (by omega)
    · intro row col _ _ _ _
      exact ones row col (by omega) (by omega) (by omega) (by omega)
    · intro row col _ _ _ _
      exact ones row col (by omega) (by omega) (by omega) (by omega)
  · rintro ⟨corner, left, above, diagonal⟩
    refine ⟨Nat.succ_le_succ diagonal.1, Nat.succ_le_succ diagonal.2.1, ?_⟩
    intro row col rowAbove rowInside colAbove colInside
    by_cases inLeft : col ≤ j ∧ i + 1 < row + side
    · exact left.2.2 row col rowAbove inLeft.2 inLeft.1 (by omega)
    · by_cases inAbove : row ≤ i ∧ j + 1 < col + side
      · exact above.2.2 row col inAbove.1 (by omega) colAbove inAbove.2
      · by_cases inDiagonal : row ≤ i ∧ col ≤ j
        · exact diagonal.2.2 row col inDiagonal.1 (by omega) inDiagonal.2 (by omega)
        · obtain rfl : row = i + 1 := by omega
          obtain rfl : col = j + 1 := by omega
          exact corner

/-- A square of more than one cell does not end on the border. -/
theorem endsAt_border_iff {i j : Nat} (border : i = 0 ∨ j = 0) :
    matrix.EndsAt i j side ↔ side ≤ matrix.numbers i j := by
  have binary := matrix.binary i j
  rcases side with _ | _ | side
  · exact iff_of_true (endsAt_zero i j) (Nat.zero_le _)
  · rw [zero_add, endsAt_one_iff]
    omega
  · apply iff_of_false
    · intro square
      have rowFits := square.1
      have colFits := square.2.1
      omega
    · omega

/-- Each cell of the table holds the side of the largest square that ends there. -/
theorem le_table_iff (recurrence : matrix.Recurrence table) {i j : Nat}
    (rowInside : i < matrix.rows) (colInside : j < matrix.cols) :
    side ≤ table i j ↔ matrix.EndsAt i j side := by
  induction i generalizing j side with
  | zero =>
      rw [recurrence 0 rowInside j colInside, sideAt, if_pos (Or.inl rfl)]
      exact (endsAt_border_iff (Or.inl rfl)).symm
  | succ i aboveHypothesis =>
      induction j generalizing side with
      | zero =>
          rw [recurrence _ rowInside 0 colInside, sideAt, if_pos (Or.inr rfl)]
          exact (endsAt_border_iff (Or.inr rfl)).symm
      | succ j leftHypothesis =>
          have above : i < matrix.rows := Nat.lt_of_succ_lt rowInside
          have left : j < matrix.cols := Nat.lt_of_succ_lt colInside
          rw [recurrence _ rowInside _ colInside, sideAt, if_neg (by omega)]
          cases side with
          | zero => exact iff_of_true (Nat.zero_le _) (endsAt_zero _ _)
          | succ side =>
              rw [endsAt_succ_iff, ← leftHypothesis left, ← aboveHypothesis above colInside,
                ← aboveHypothesis above left]
              have binary := matrix.binary (i + 1) (j + 1)
              split
              next zero => exact iff_of_false (by omega) (by omega)
              next one =>
                rw [Nat.add_sub_cancel, Nat.add_sub_cancel, Nat.succ_le_succ_iff, le_min_iff,
                  le_min_iff, and_assoc]
                exact (and_iff_right (binary.resolve_left one)).symm

theorem table_le_largestSide (recurrence : matrix.Recurrence table) {i j : Nat}
    (rowInside : i < matrix.rows) (colInside : j < matrix.cols) :
    table i j ≤ matrix.largestSide := by
  cases size : table i j with
  | zero => exact Nat.zero_le _
  | succ side =>
      apply le_largestSide
      have square := (le_table_iff recurrence rowInside colInside).mp (le_of_eq size.symm)
      exact hasSquare_succ_iff.mpr ⟨i, rowInside, j, colInside, square⟩

/-- The greatest value of the table is the side of the largest square. -/
theorem eq_largestSide (recurrence : matrix.Recurrence table) {best : Nat}
    (above : ∀ i < matrix.rows, ∀ j < matrix.cols, table i j ≤ best)
    (found : ∃ i < matrix.rows, ∃ j < matrix.cols, best = table i j) :
    best = matrix.largestSide := by
  apply le_antisymm
  · obtain ⟨i, rowInside, j, colInside, rfl⟩ := found
    exact table_le_largestSide recurrence rowInside colInside
  · have has := @hasSquare_largestSide matrix
    cases size : matrix.largestSide with
    | zero => exact Nat.zero_le _
    | succ side =>
        rw [size] at has
        obtain ⟨i, rowInside, j, colInside, square⟩ := hasSquare_succ_iff.mp has
        exact le_trans ((le_table_iff recurrence rowInside colInside).mpr square)
          (above i rowInside j colInside)

end BinaryMatrix

end StdPrograms.Hobbies

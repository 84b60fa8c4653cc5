import Mathlib.Algebra.Order.Ring.Int
import StdPrograms.Hobbies.LargestSquare

/-!
Contract: three programs that look for the largest square of ones.

Owns `max_square.py`, `MaxSquare.java` and `maximalSquare` of `solution_221.cpp`, with the
cells of the last one stored as signed characters, and the matrices on which all three report
the side of the largest square. A counter of type `int` does not reach a greater size.

Does not own the printing of the matrices.
-/

namespace StdPrograms.Hobbies

open StdPrograms.Foundation

def INT_MAX : Nat := 2 ^ 31 - 1

def firstRow (cols : Nat) : List (Nat × Nat) := (List.range cols).map fun j => (0, j)

def firstColumn (rows : Nat) : List (Nat × Nat) := (List.range rows).map fun i => (i, 0)

theorem mem_firstRow {cols : Nat} {cell : Nat × Nat} :
    cell ∈ firstRow cols ↔ cell.1 = 0 ∧ cell.2 < cols := by
  obtain ⟨i, j⟩ := cell
  simp [firstRow, and_comm, eq_comm]

theorem mem_firstColumn {rows : Nat} {cell : Nat × Nat} :
    cell ∈ firstColumn rows ↔ cell.1 < rows ∧ cell.2 = 0 := by
  obtain ⟨i, j⟩ := cell
  simp [firstColumn, eq_comm]

namespace BinaryMatrix

variable (matrix : BinaryMatrix)

/-- A new table of zeros. -/
def zeros : Grid Nat := fun _ _ => 0

def copy (_ : Grid Nat) (i j : Nat) : Nat := matrix.numbers i j

/-- The body of the inner loop in `max_square.py` and in `MaxSquare.java`. -/
def neighbours (result : Grid Nat) (i j : Nat) : Nat :=
  if matrix.numbers i j = 0 then 0
  else min (min (result i (j - 1)) (result (i - 1) j)) (result (i - 1) (j - 1)) + 1

/-! ### `max_square.py` -/

def pythonResult : Grid Nat :=
  ((zeros.fill matrix.copy (firstColumn matrix.rows)).fill matrix.copy
    (firstRow matrix.cols)).fill matrix.neighbours (cellsFrom 1 matrix.rows matrix.cols)

/-- What is printed last: the counters of the loop and the side. -/
def max_square : Nat × Nat × Nat :=
  let (max_s, _, _) := matrix.pythonResult.search (cellsFrom 0 matrix.rows matrix.cols)
    (matrix.pythonResult 0 0, 0, 0)
  (matrix.rows - 1, matrix.cols - 1, max_s)

/-! ### `MaxSquare.java` -/

/-- The first row is copied twice, and the first column is not. -/
def javaResult : Grid Nat :=
  ((zeros.fill matrix.copy (firstRow matrix.cols)).fill matrix.copy
    (firstRow matrix.cols)).fill matrix.neighbours (cellsFrom 1 matrix.rows matrix.cols)

/-- What is printed last: the side and the place. `nextInt` reads the numbers of rows and
columns. -/
def main : Option (Nat × Nat × Nat) :=
  if matrix.rows ≤ INT_MAX ∧ matrix.cols ≤ INT_MAX then
    some (matrix.javaResult.search (cellsFrom 0 matrix.rows matrix.cols)
      (matrix.javaResult 0 0, 0, 0))
  else none

/-! ### `solution_221.cpp` -/

/-- The conversion to `char`. -/
def char (value : Int) : Int := (value + 2 ^ 7) % 2 ^ 8 - 2 ^ 7

/-- The digit of the number. -/
def digit (i j : Nat) : Int := char ('0'.toNat + matrix.numbers i j)

def copyDigit (_ : Grid Int) (i j : Nat) : Int := char (matrix.digit i j - '0'.toNat)

def charNeighbours (result : Grid Int) (i j : Nat) : Int :=
  if matrix.digit i j = '0'.toNat then 0
  else char (min (min (result (i - 1) j) (result i (j - 1))) (result (i - 1) (j - 1)) + 1)

def charResult : Grid Int :=
  (Grid.fill matrix.copyDigit (firstColumn matrix.rows)
    (Grid.fill matrix.copyDigit (firstRow matrix.cols) (fun _ _ => 0))).fill
      matrix.charNeighbours (cellsFrom 1 matrix.rows matrix.cols)

/-- There is no result where an `int` cannot count the rows or the columns. -/
def maximalSquare : Option Int :=
  if matrix.rows ≤ INT_MAX ∧ matrix.cols ≤ INT_MAX then
    let (max_i, max_j) := matrix.charResult.searchLast (cellsFrom 0 matrix.rows matrix.cols) (0, 0)
    some (matrix.charResult max_i max_j * matrix.charResult max_i max_j)
  else none

/-! ### The tables -/

variable {matrix}

theorem neighbours_reads {left right : Grid Nat} {i j : Nat} (positive : 0 < i ∧ 0 < j)
    (agree : ∀ row col, Before (row, col) (i, j) → left row col = right row col) :
    matrix.neighbours left i j = matrix.neighbours right i j := by
  have west := agree i (j - 1) (by unfold Before; omega)
  have north := agree (i - 1) j (by unfold Before; omega)
  have northwest := agree (i - 1) (j - 1) (by unfold Before; omega)
  rw [neighbours, neighbours, west, north, northwest]

/-- Inside the border the loops give what the neighbours in the same table say. -/
theorem fill_neighbours {border : Grid Nat} {i j : Nat} (positive : 0 < i ∧ 0 < j)
    (rowInside : i < matrix.rows) (colInside : j < matrix.cols) :
    border.fill matrix.neighbours (cellsFrom 1 matrix.rows matrix.cols) i j =
      matrix.neighbours
        (border.fill matrix.neighbours (cellsFrom 1 matrix.rows matrix.cols)) i j := by
  apply Grid.fill_cellsFrom
  · exact mem_cellsFrom.mpr ⟨⟨positive.1, rowInside⟩, positive.2, colInside⟩
  · intro left right agree
    exact neighbours_reads positive agree

theorem border_not_mem {i j : Nat} (border : i = 0 ∨ j = 0) :
    (i, j) ∉ cellsFrom 1 matrix.rows matrix.cols := by
  rw [mem_cellsFrom]
  omega

theorem pythonResult_recurrence : matrix.Recurrence matrix.pythonResult := by
  intro i rowInside j colInside
  unfold sideAt
  split
  next border =>
    rw [pythonResult, Grid.fill_other (border_not_mem border)]
    by_cases inRow : (i, j) ∈ firstRow matrix.cols
    · exact Grid.fill_const matrix.numbers inRow _
    · rw [Grid.fill_other inRow]
      rw [mem_firstRow] at inRow
      exact Grid.fill_const matrix.numbers (mem_firstColumn.mpr ⟨rowInside, by omega⟩) _
  next inner => exact fill_neighbours (by omega) rowInside colInside

variable (matrix) in
/-- The matrix with zeros in the first column, below its first row. -/
def cleared : BinaryMatrix where
  rows := matrix.rows
  cols := matrix.cols
  numbers := fun i j => if 0 < i ∧ j = 0 then 0 else matrix.numbers i j
  rows_pos := matrix.rows_pos
  cols_pos := matrix.cols_pos
  binary := by
    intro i j
    split
    next => exact Or.inl rfl
    next => exact matrix.binary i j

theorem javaResult_recurrence : matrix.cleared.Recurrence matrix.javaResult := by
  intro i rowInside j colInside
  change i < matrix.rows at rowInside
  change j < matrix.cols at colInside
  by_cases border : i = 0 ∨ j = 0
  · rw [sideAt, if_pos border, javaResult, Grid.fill_other (border_not_mem border)]
    by_cases below : 0 < i ∧ j = 0
    · have notInRow : (i, j) ∉ firstRow matrix.cols := by
        rw [mem_firstRow]
        omega
      rw [Grid.fill_other notInRow, Grid.fill_other notInRow]
      exact (if_pos below).symm
    · have inRow : (i, j) ∈ firstRow matrix.cols := mem_firstRow.mpr ⟨by omega, colInside⟩
      exact (Grid.fill_const matrix.numbers inRow _).trans (if_neg below).symm
  · have same : matrix.cleared.numbers i j = matrix.numbers i j := if_neg (by omega)
    rw [sideAt, if_neg border, same]
    exact fill_neighbours (by omega) rowInside colInside

theorem search_eq_largestSide {table : Grid Nat} (recurrence : matrix.Recurrence table) :
    (table.search (cellsFrom 0 matrix.rows matrix.cols) (table 0 0, 0, 0)).1 =
      matrix.largestSide := by
  apply eq_largestSide recurrence
  · intro i rowInside j colInside
    exact (Grid.le_search table _ _).2 (i, j)
      (mem_cellsFrom.mpr ⟨⟨Nat.zero_le i, rowInside⟩, Nat.zero_le j, colInside⟩)
  · rcases Grid.search_mem table (cellsFrom 0 matrix.rows matrix.cols) (table 0 0, 0, 0) with
      same | ⟨cell, member, found⟩
    · exact ⟨0, matrix.rows_pos, 0, matrix.cols_pos, same⟩
    · obtain ⟨⟨-, rowInside⟩, -, colInside⟩ := mem_cellsFrom.mp member
      exact ⟨cell.1, rowInside, cell.2, colInside, found⟩

/-! ### The table of characters -/

theorem char_eq {value : Int} (low : -128 ≤ value) (high : value ≤ 127) : char value = value := by
  unfold char
  omega

theorem digit_eq (i j : Nat) : matrix.digit i j = 48 + matrix.numbers i j := by
  have binary := matrix.binary i j
  change char (48 + _) = _
  exact char_eq (by omega) (by omega)

theorem copyDigit_eq (result : Grid Int) (i j : Nat) :
    matrix.copyDigit result i j = matrix.numbers i j := by
  have binary := matrix.binary i j
  rw [copyDigit, digit_eq]
  change char (48 + _ - 48) = _
  rw [char_eq (by omega) (by omega)]
  omega

theorem charResult_border {i j : Nat} (border : i = 0 ∨ j = 0) (rowInside : i < matrix.rows)
    (colInside : j < matrix.cols) : matrix.charResult i j = matrix.numbers i j := by
  have copies : matrix.copyDigit = fun _ i j => (matrix.numbers i j : Int) := by
    funext result i j
    exact copyDigit_eq result i j
  rw [charResult, copies, Grid.fill_other (border_not_mem border)]
  by_cases inColumn : (i, j) ∈ firstColumn matrix.rows
  · exact Grid.fill_const (fun i j => (matrix.numbers i j : Int)) inColumn _
  · rw [Grid.fill_other inColumn]
    rw [mem_firstColumn] at inColumn
    exact Grid.fill_const (fun i j => (matrix.numbers i j : Int))
      (mem_firstRow.mpr ⟨by omega, colInside⟩) _

theorem charResult_inner {i j : Nat} (inner : ¬(i = 0 ∨ j = 0)) (rowInside : i < matrix.rows)
    (colInside : j < matrix.cols) :
    matrix.charResult i j =
      if matrix.numbers i j = 0 then 0
      else char (min (min (matrix.charResult (i - 1) j) (matrix.charResult i (j - 1)))
        (matrix.charResult (i - 1) (j - 1)) + 1) := by
  have zero : matrix.digit i j = '0'.toNat ↔ matrix.numbers i j = 0 := by
    rw [digit_eq]
    change (48 : Int) + _ = 48 ↔ _
    omega
  have computed : matrix.charResult i j = matrix.charNeighbours matrix.charResult i j := by
    apply Grid.fill_cellsFrom
    · exact mem_cellsFrom.mpr ⟨⟨by omega, rowInside⟩, by omega, colInside⟩
    · intro left right agree
      have west := agree i (j - 1) (by unfold Before; omega)
      have north := agree (i - 1) j (by unfold Before; omega)
      have northwest := agree (i - 1) (j - 1) (by unfold Before; omega)
      rw [charNeighbours, charNeighbours, west, north, northwest]
  rw [computed, charNeighbours]
  simp only [zero]

theorem char_le (value : Int) : char value ≤ 127 := by
  unfold char
  omega

theorem charResult_le {i j : Nat} (rowInside : i < matrix.rows) (colInside : j < matrix.cols) :
    matrix.charResult i j ≤ 127 := by
  by_cases border : i = 0 ∨ j = 0
  · rw [charResult_border border rowInside colInside]
    have binary := matrix.binary i j
    omega
  · rw [charResult_inner border rowInside colInside]
    split
    next => decide
    next => exact char_le _

/-- While no side is above 127, the characters hold the sides. -/
theorem charResult_eq (small : matrix.largestSide ≤ 127) {i j : Nat}
    (rowInside : i < matrix.rows) (colInside : j < matrix.cols) :
    matrix.charResult i j = matrix.pythonResult i j := by
  have recurrence := @pythonResult_recurrence matrix
  induction i generalizing j with
  | zero =>
      rw [charResult_border (Or.inl rfl) rowInside colInside,
        recurrence 0 rowInside j colInside, sideAt, if_pos (Or.inl rfl)]
  | succ i aboveHypothesis =>
      induction j with
      | zero =>
          rw [charResult_border (Or.inr rfl) rowInside colInside,
            recurrence _ rowInside 0 colInside, sideAt, if_pos (Or.inr rfl)]
      | succ j leftHypothesis =>
          have above : i < matrix.rows := Nat.lt_of_succ_lt rowInside
          have left : j < matrix.cols := Nat.lt_of_succ_lt colInside
          have size := table_le_largestSide recurrence rowInside colInside
          have cell := recurrence _ rowInside _ colInside
          rw [sideAt, if_neg (by omega), Nat.add_sub_cancel, Nat.add_sub_cancel] at cell
          rw [charResult_inner (by omega) rowInside colInside, Nat.add_sub_cancel,
            Nat.add_sub_cancel, aboveHypothesis above colInside, aboveHypothesis above left,
            leftHypothesis left]
          split
          next zero =>
            rw [cell, if_pos zero]
            rfl
          next one =>
            rw [if_neg one] at cell
            rw [char_eq (by omega) (by omega)]
            omega

/-- The search comes back with a cell of the matrix. -/
theorem searchLast_inside (result : Grid Int) :
    (result.searchLast (cellsFrom 0 matrix.rows matrix.cols) (0, 0)).1 < matrix.rows ∧
      (result.searchLast (cellsFrom 0 matrix.rows matrix.cols) (0, 0)).2 < matrix.cols := by
  rcases Grid.searchLast_mem result (cellsFrom 0 matrix.rows matrix.cols) (0, 0) with same | among
  · rw [same]
    exact ⟨matrix.rows_pos, matrix.cols_pos⟩
  · obtain ⟨⟨-, rowInside⟩, -, colInside⟩ := mem_cellsFrom.mp among
    exact ⟨rowInside, colInside⟩

/-! ### What the programs report -/

variable (matrix)

def PythonFinds : Prop := matrix.max_square.2.2 = matrix.largestSide

def JavaFinds : Prop := ∃ place, matrix.main = some (matrix.largestSide, place)

def CppFinds : Prop :=
  matrix.maximalSquare = some ((matrix.largestSide * matrix.largestSide : Nat) : Int)

def Agree : Prop := matrix.PythonFinds ∧ matrix.JavaFinds ∧ matrix.CppFinds

variable {matrix}

theorem pythonFinds : matrix.PythonFinds :=
  search_eq_largestSide pythonResult_recurrence

theorem HasSquare.of_cleared {side : Nat} (has : matrix.cleared.HasSquare side) :
    matrix.HasSquare side := by
  obtain ⟨i, j, rowsInside, colsInside, ones⟩ := has
  refine ⟨i, j, rowsInside, colsInside, ?_⟩
  intro row col fromTop toBottom fromLeft toRight
  have one := ones row col fromTop toBottom fromLeft toRight
  change (if 0 < row ∧ col = 0 then 0 else matrix.numbers row col) = 1 at one
  split at one
  next => cases one
  next => exact one

/-- The first column is left out below the first row. -/
theorem javaFinds_iff :
    matrix.JavaFinds ↔ (matrix.rows ≤ INT_MAX ∧ matrix.cols ≤ INT_MAX) ∧
      matrix.cleared.HasSquare matrix.largestSide := by
  have reported := @search_eq_largestSide matrix.cleared _ javaResult_recurrence
  change (matrix.javaResult.search (cellsFrom 0 matrix.rows matrix.cols) _).1 = _ at reported
  have inside : matrix.cleared.HasSquare matrix.largestSide ↔
      matrix.cleared.largestSide = matrix.largestSide := by
    constructor
    · intro has
      exact le_antisymm (le_largestSide hasSquare_largestSide.of_cleared) (le_largestSide has)
    · intro same
      rw [← same]
      exact hasSquare_largestSide
  rw [inside, ← reported, JavaFinds, main]
  constructor
  · rintro ⟨place, returned⟩
    split at returned
    next counted => exact ⟨counted, congrArg Prod.fst (Option.some.inj returned)⟩
    next => cases returned
  · rintro ⟨counted, same⟩
    rw [if_pos counted]
    exact ⟨_, congrArg some (Prod.ext same rfl)⟩

theorem cppFinds_iff :
    matrix.CppFinds ↔ (matrix.rows ≤ INT_MAX ∧ matrix.cols ≤ INT_MAX) ∧
      matrix.largestSide ≤ 127 := by
  unfold CppFinds maximalSquare
  by_cases counted : matrix.rows ≤ INT_MAX ∧ matrix.cols ≤ INT_MAX
  · rw [if_pos counted, and_iff_right counted, Option.some.injEq]
    obtain ⟨fromFirst, above⟩ := Grid.le_searchLast matrix.charResult
      (cellsFrom 0 matrix.rows matrix.cols) (0, 0)
    obtain ⟨rowInside, colInside⟩ := @searchLast_inside matrix matrix.charResult
    generalize matrix.charResult.searchLast _ _ = best at *
    obtain ⟨max_i, max_j⟩ := best
    change matrix.charResult max_i max_j * matrix.charResult max_i max_j = _ ↔ _
    constructor
    · intro same
      have first := charResult_border (Or.inl rfl) matrix.rows_pos matrix.cols_pos
      have high := charResult_le rowInside colInside
      by_contra large
      have squared : (128 : Int) * 128 ≤ (matrix.largestSide * matrix.largestSide : Nat) := by
        exact_mod_cast Nat.mul_le_mul (Nat.lt_of_not_le large) (Nat.lt_of_not_le large)
      rw [first] at fromFirst
      have nonneg : 0 ≤ matrix.charResult max_i max_j := le_trans (Int.natCast_nonneg _) fromFirst
      have bound : matrix.charResult max_i max_j * matrix.charResult max_i max_j ≤ 127 * 127 :=
        mul_le_mul high high nonneg (by decide)
      omega
    · intro small
      have best : matrix.pythonResult max_i max_j = matrix.largestSide := by
        apply eq_largestSide pythonResult_recurrence
        · intro i rowInside' j colInside'
          have below := above (i, j)
            (mem_cellsFrom.mpr ⟨⟨Nat.zero_le i, rowInside'⟩, Nat.zero_le j, colInside'⟩)
          rw [charResult_eq small rowInside' colInside',
            charResult_eq small rowInside colInside] at below
          exact_mod_cast below
        · exact ⟨max_i, rowInside, max_j, colInside, rfl⟩
      rw [charResult_eq small rowInside colInside, best, Nat.cast_mul]
  · rw [if_neg counted]
    exact iff_of_false (fun returned => by cases returned) (fun condition => counted condition.1)

/-- The three programs agree where a largest square lies beside the first column, or in the
first row, and its side fits a signed character. -/
theorem largestSquares_agree_iff (matrix : BinaryMatrix) :
    matrix.Agree ↔ (matrix.rows ≤ INT_MAX ∧ matrix.cols ≤ INT_MAX) ∧
      matrix.largestSide ≤ 127 ∧ matrix.cleared.HasSquare matrix.largestSide := by
  rw [Agree, javaFinds_iff, cppFinds_iff, and_iff_right pythonFinds]
  constructor
  · rintro ⟨⟨counted, beside⟩, -, small⟩
    exact ⟨counted, small, beside⟩
  · rintro ⟨counted, small, beside⟩
    exact ⟨⟨counted, beside⟩, counted, small⟩

/-- A one below a zero. -/
def oneBelow : BinaryMatrix where
  rows := 2
  cols := 1
  numbers := fun i _ => if i = 0 then 0 else 1
  rows_pos := by decide
  cols_pos := by decide
  binary := by
    intro i j
    split
    next => exact Or.inl rfl
    next => exact Or.inr rfl

/-- 128 rows of 128 ones. -/
def manyOnes : BinaryMatrix where
  rows := 128
  cols := 128
  numbers := fun _ _ => 1
  rows_pos := by decide
  cols_pos := by decide
  binary := fun _ _ => Or.inr rfl

/-- `MaxSquare.java` misses the one, and `maximalSquare` the square of 128. -/
theorem not_agree :
    (oneBelow.main = some (0, 0, 0) ∧ oneBelow.HasSquare 1 ∧ ¬oneBelow.Agree) ∧
      manyOnes.HasSquare 128 ∧ ¬manyOnes.CppFinds := by
  have one : oneBelow.HasSquare 1 := by
    refine ⟨1, 0, by decide, by decide, ?_⟩
    intro row col fromTop _ _ _
    exact if_neg (Nat.pos_iff_ne_zero.mp fromTop)
  have many : manyOnes.HasSquare 128 :=
    ⟨0, 0, by decide, by decide, fun _ _ _ _ _ _ => rfl⟩
  have reported : oneBelow.main = some (0, 0, 0) := by decide
  refine ⟨⟨reported, one, ?_⟩, many, ?_⟩
  · rintro ⟨-, ⟨place, returned⟩, -⟩
    rw [reported] at returned
    have zero := congrArg Prod.fst (Option.some.inj returned)
    have least := le_largestSide one
    change 0 = oneBelow.largestSide at zero
    omega
  · intro finds
    have small := (cppFinds_iff.mp finds).2
    have least := le_largestSide many
    omega

end BinaryMatrix

end StdPrograms.Hobbies

import Mathlib.Algebra.Order.Ring.Int
import StdPrograms.Foundation.SignedInt
import StdPrograms.Foundation.SortedTable

/-!
Contract: two searches in a matrix with ascending rows and columns.

Owns `searchMatrix`, which splits the matrix, and `searchMatrix2`, which goes down a staircase, of
`solution_240.cpp`, and that both find what occurs in a matrix whose sizes are of type `int`.

Does not own `searchHelper2`, which neither of them calls.
-/

namespace StdPrograms.Hobbies

open StdPrograms.Foundation

namespace MatrixSearch

/-- There is no cell at a negative index. -/
def cell (matrix : List (List Int)) (i j : Int) : Option Int :=
  if i < 0 ∨ j < 0 then none
  else do
    let row ← matrix[i.toNat]?
    row[j.toNat]?

/-- A bound can become too great; no other operation leaves the bounds of the rectangle by more
than one below. -/
def helper (matrix : List (List Int)) (target : Int) :
    Nat → Int → Int → Int → Int → Option Bool
  | 0, _, _, _, _ => none
  | fuel + 1, top, left, bottom, right =>
      if top > bottom ∨ left > right then some false
      else if top = bottom ∧ left = right then do
        let value ← cell matrix top left
        return decide (value = target)
      else
        let rmid := top + (bottom - top) / 2
        let cmid := left + (right - left) / 2
        do
          let value ← cell matrix rmid cmid
          if value = target then return true
          else if value < target then
            let beyond ← signed 32 (cmid + 1)
            let beside ← helper matrix target fuel top beyond rmid right
            if beside then return true
            else
              let below ← signed 32 (rmid + 1)
              helper matrix target fuel below left bottom right
          else
            let above ← helper matrix target fuel top left (rmid - 1) right
            if above then return true
            else helper matrix target fuel rmid left bottom (cmid - 1)

def searchMatrix (fuel : Nat) (matrix : List (List Int)) (target : Int) : Option Bool :=
  if matrix.length = 0 then some false
  else do
    let first ← matrix[0]?
    if first.length = 0 then return false
    else
      let bottom ← signed 32 (converted 32 (matrix.length : Int) - 1)
      let right ← signed 32 (converted 32 (first.length : Int) - 1)
      helper matrix target fuel 0 0 bottom right

/-- The loop of `searchMatrix2`. -/
def staircase (matrix : List (List Int)) (target : Int) : Nat → Int → Int → Option Bool
  | 0, _, _ => none
  | fuel + 1, i, j =>
      if i < matrix.length ∧ j ≥ 0 then do
        let value ← cell matrix i j
        if value = target then return true
        else if value < target then
          let i ← signed 32 (i + 1)
          staircase matrix target fuel i j
        else staircase matrix target fuel i (j - 1)
      else some false

def searchMatrix2 (fuel : Nat) (matrix : List (List Int)) (target : Int) : Option Bool :=
  if matrix.length = 0 then some false
  else do
    let first ← matrix[0]?
    if first.length = 0 then return false
    else staircase matrix target fuel 0 (converted 32 ((first.length : Int) - 1))

/-- Rows of one length, each ascending and none less than one above it. -/
structure Sorted (columns : Nat) (matrix : List (List Int)) : Prop where
  rectangular : ∀ row ∈ matrix, row.length = columns
  rows : ∀ row ∈ matrix, row.Pairwise (· ≤ ·)
  columns : matrix.Pairwise fun upper lower =>
    ∀ (j : Nat) (a b : Int), upper[j]? = some a → lower[j]? = some b → a ≤ b

/-! ### Cells -/

section

variable {columns : Nat} {matrix : List (List Int)} {target : Int}

theorem cell_eq_some_iff {i j : Int} {value : Int} :
    cell matrix i j = some value ↔
      0 ≤ i ∧ 0 ≤ j ∧ ∃ row, matrix[i.toNat]? = some row ∧ row[j.toNat]? = some value := by
  unfold cell
  split
  next negative =>
    constructor
    · intro impossible
      cases impossible
    · rintro ⟨iNonneg, jNonneg, -⟩
      omega
  next nonneg =>
    rw [Option.bind_eq_bind, Option.bind_eq_some_iff]
    constructor
    · exact fun found => ⟨by omega, by omega, found⟩
    · exact fun found => found.2.2

theorem Sorted.exists_cell (sorted : Sorted columns matrix) {i j : Int}
    (rowInside : 0 ≤ i ∧ i < matrix.length) (columnInside : 0 ≤ j ∧ j < columns) :
    ∃ value, cell matrix i j = some value := by
  have rowLess : i.toNat < matrix.length := by omega
  have rowLength := sorted.rectangular matrix[i.toNat] (List.getElem_mem rowLess)
  have columnLess : j.toNat < matrix[i.toNat].length := by omega
  exact ⟨matrix[i.toNat][j.toNat], cell_eq_some_iff.mpr ⟨rowInside.1, columnInside.1,
    matrix[i.toNat], List.getElem?_eq_getElem rowLess, List.getElem?_eq_getElem columnLess⟩⟩

/-- To the right first and then down. -/
theorem Sorted.ascending (sorted : Sorted columns matrix) : Ascending (cell matrix) := by
  intro i i' j j' upper lower down right upperIs lowerIs
  obtain ⟨iNonneg, jNonneg, upperRow, upperRowIs, upperEntry⟩ := cell_eq_some_iff.mp upperIs
  obtain ⟨-, -, lowerRow, lowerRowIs, lowerEntry⟩ := cell_eq_some_iff.mp lowerIs
  have upperMember := List.mem_of_getElem? upperRowIs
  have sameLength : upperRow.length = lowerRow.length := by
    rw [sorted.rectangular upperRow upperMember,
      sorted.rectangular lowerRow (List.mem_of_getElem? lowerRowIs)]
  obtain ⟨columnLess, -⟩ := List.getElem?_eq_some_iff.mp lowerEntry
  have corner : upperRow[j'.toNat]? = some upperRow[j'.toNat] :=
    List.getElem?_eq_getElem (sameLength ▸ columnLess)
  have inRow : upper ≤ upperRow[j'.toNat] :=
    rel_of_pairwise_of_le le_refl (sorted.rows upperRow upperMember) (Int.toNat_le_toNat right)
      upperEntry corner
  have inColumn : upperRow[j'.toNat] ≤ lower := by
    rcases Nat.lt_or_eq_of_le (Int.toNat_le_toNat down) with less | same
    · exact rel_of_pairwise sorted.columns less upperRowIs lowerRowIs _ _ _ corner lowerEntry
    · rw [same, lowerRowIs] at upperRowIs
      obtain rfl := Option.some.inj upperRowIs
      rw [corner] at lowerEntry
      exact (Option.some.inj lowerEntry).le
  exact inRow.trans inColumn

/-- The target is in the matrix exactly if it occurs between its bounds. -/
theorem Sorted.occurs_iff (sorted : Sorted columns matrix) :
    Occurs (cell matrix) target 0 0 (matrix.length - 1) (columns - 1) ↔
      ∃ row ∈ matrix, target ∈ row := by
  constructor
  · rintro ⟨i, j, -, -, found⟩
    obtain ⟨-, -, row, rowIs, entry⟩ := cell_eq_some_iff.mp found
    exact ⟨row, List.mem_of_getElem? rowIs, List.mem_of_getElem? entry⟩
  · rintro ⟨row, member, inRow⟩
    obtain ⟨i, iLess, rowIs⟩ := List.getElem_of_mem member
    obtain ⟨j, jLess, entry⟩ := List.getElem_of_mem inRow
    have rowLength := sorted.rectangular row member
    refine ⟨i, j, by omega, by omega, cell_eq_some_iff.mpr ⟨by omega, by omega, row, ?_, ?_⟩⟩
    · exact List.getElem?_eq_some_iff.mpr ⟨iLess, rowIs⟩
    · exact List.getElem?_eq_some_iff.mpr ⟨jLess, entry⟩

/-! ### The searches -/

/-- What is returned of two answers where the second is only asked for if the first is `false`. -/
theorem returned_or (first second : Bool) :
    (if first then some true else some second) = some (first || second) := by
  cases first <;> rfl

variable (sorted : Sorted columns matrix) (rowsCounted : matrix.length < 2 ^ 31)
  (columnsCounted : columns < 2 ^ 31)

include sorted rowsCounted columnsCounted

/-- Every part is lower or narrower than the whole. -/
theorem helper_spec {fuel : Nat} {top left bottom right : Int}
    (rowsInside : 0 ≤ top ∧ bottom < matrix.length) (columnsInside : 0 ≤ left ∧ right < columns)
    (enough : (bottom + 1 - top).toNat + (right + 1 - left).toNat < fuel) :
    ∃ found, helper matrix target fuel top left bottom right = some found ∧
      (found ↔ Occurs (cell matrix) target top left bottom right) := by
  induction fuel generalizing top left bottom right with
  | zero => exact absurd enough (Nat.not_lt_zero _)
  | succ fuel inductionHypothesis =>
      rw [helper]
      by_cases empty : top > bottom ∨ left > right
      · rw [if_pos empty]
        exact ⟨false, rfl, by simpa using not_occurs_of_empty empty⟩
      rw [if_neg empty]
      by_cases single : top = bottom ∧ left = right
      · obtain ⟨rfl, rfl⟩ := single
        obtain ⟨value, entry⟩ := @Sorted.exists_cell _ _ sorted top left (by omega) (by omega)
        rw [if_pos ⟨rfl, rfl⟩, entry]
        exact ⟨decide (value = target), rfl, by rw [occurs_of_single entry, decide_eq_true_iff]⟩
      rw [if_neg single]
      dsimp only
      have rmidInside : top ≤ top + (bottom - top) / 2 ∧ top + (bottom - top) / 2 ≤ bottom := by
        omega
      have cmidInside : left ≤ left + (right - left) / 2 ∧ left + (right - left) / 2 ≤ right := by
        omega
      generalize top + (bottom - top) / 2 = rmid at rmidInside
      generalize left + (right - left) / 2 = cmid at cmidInside
      obtain ⟨value, entry⟩ := @Sorted.exists_cell _ _ sorted rmid cmid (by omega) (by omega)
      rw [entry, Option.bind_eq_bind, Option.bind_some]
      by_cases same : value = target
      · rw [if_pos same]
        refine ⟨true, rfl, iff_of_true rfl ⟨rmid, cmid, rmidInside, cmidInside, same ▸ entry⟩⟩
      rw [if_neg same]
      by_cases less : value < target
      · have beyondHeld : InSigned 32 (cmid + 1) := by
          constructor <;> omega
        have belowHeld : InSigned 32 (rmid + 1) := by
          constructor <;> omega
        obtain ⟨beside, besideIs, besideIff⟩ :=
          @inductionHypothesis top (cmid + 1) rmid right (by omega) (by omega) (by omega)
        obtain ⟨below, belowIs, belowIff⟩ :=
          @inductionHypothesis (rmid + 1) left bottom right (by omega) (by omega) (by omega)
        rw [if_pos less, occurs_of_lt sorted.ascending rmidInside cmidInside entry less,
          ← besideIff, ← belowIff, signed_of_inSigned beyondHeld, Option.bind_some, besideIs]
        dsimp only [Option.bind_eq_bind, Option.bind_some]
        rw [signed_of_inSigned belowHeld, Option.bind_some, belowIs]
        exact ⟨beside || below, returned_or beside below, by rw [Bool.or_eq_true]⟩
      · obtain ⟨above, aboveIs, aboveIff⟩ :=
          @inductionHypothesis top left (rmid - 1) right (by omega) (by omega) (by omega)
        obtain ⟨beside, besideIs, besideIff⟩ :=
          @inductionHypothesis rmid left bottom (cmid - 1) (by omega) (by omega) (by omega)
        rw [if_neg less, occurs_of_gt sorted.ascending rmidInside cmidInside entry
          (lt_of_le_of_ne (le_of_not_gt less) (Ne.symm same)), ← aboveIff, ← besideIff, aboveIs]
        dsimp only [Option.bind_eq_bind, Option.bind_some]
        rw [besideIs]
        exact ⟨above || beside, returned_or above beside, by rw [Bool.or_eq_true]⟩

omit columnsCounted in
/-- Each step leaves a row above or a column to the right. -/
theorem staircase_spec {fuel : Nat} {i j : Int} (rowInside : 0 ≤ i) (columnInside : j < columns)
    (enough : (matrix.length - i).toNat + (j + 1).toNat < fuel) :
    ∃ found, staircase matrix target fuel i j = some found ∧
      (found ↔ Occurs (cell matrix) target i 0 (matrix.length - 1) j) := by
  induction fuel generalizing i j with
  | zero => exact absurd enough (Nat.not_lt_zero _)
  | succ fuel inductionHypothesis =>
      rw [staircase]
      by_cases inside : i < matrix.length ∧ j ≥ 0
      · obtain ⟨value, entry⟩ := @Sorted.exists_cell _ _ sorted i j (by omega) (by omega)
        rw [if_pos inside, entry, Option.bind_eq_bind, Option.bind_some]
        by_cases same : value = target
        · rw [if_pos same]
          exact ⟨true, rfl, iff_of_true rfl
            ⟨i, j, by omega, by omega, same ▸ entry⟩⟩
        rw [if_neg same]
        by_cases less : value < target
        · have nextHeld : InSigned 32 (i + 1) := by
            constructor <;> omega
          obtain ⟨below, belowIs, belowIff⟩ :=
            @inductionHypothesis (i + 1) j (by omega) columnInside (by omega)
          have noneBeside := @not_occurs_of_empty _ (cell matrix) target i (j + 1) i j (by omega)
          rw [if_pos less, signed_of_inSigned nextHeld, Option.bind_some,
            occurs_of_lt sorted.ascending (by omega) (by omega) entry less, or_iff_right noneBeside]
          exact ⟨below, belowIs, belowIff⟩
        · obtain ⟨beside, besideIs, besideIff⟩ :=
            @inductionHypothesis i (j - 1) rowInside (by omega) (by omega)
          have noneAbove := @not_occurs_of_empty _ (cell matrix) target i 0 (i - 1) j (by omega)
          rw [if_neg less, occurs_of_gt sorted.ascending (by omega) (by omega) entry
            (lt_of_le_of_ne (le_of_not_gt less) (Ne.symm same)), or_iff_right noneAbove]
          exact ⟨beside, besideIs, besideIff⟩
      · rw [if_neg inside]
        exact ⟨false, rfl, by simpa using not_occurs_of_empty (by omega)⟩

end

/-- For any matrix whose numbers of rows and columns are of type `int`. -/
theorem searches_agree {columns : Nat} {matrix : List (List Int)} (target : Int) {fuel : Nat}
    (sorted : Sorted columns matrix) (rowsCounted : matrix.length < 2 ^ 31)
    (columnsCounted : columns < 2 ^ 31) (enough : matrix.length + columns < fuel) :
    ∃ found, searchMatrix fuel matrix target = some found ∧
      searchMatrix2 fuel matrix target = some found ∧
      (found ↔ ∃ row ∈ matrix, target ∈ row) := by
  rw [searchMatrix, searchMatrix2]
  cases matrixIs : matrix with
  | nil => exact ⟨false, rfl, rfl, by simp⟩
  | cons first rest =>
      rw [← matrixIs]
      have firstIs : matrix[0]? = some first := by
        rw [matrixIs]
        rfl
      have positive : matrix.length ≠ 0 := by
        rw [matrixIs]
        exact Nat.succ_ne_zero _
      have firstLength := sorted.rectangular first (matrixIs ▸ List.mem_cons_self)
      rw [if_neg positive, if_neg positive, firstIs]
      dsimp only [Option.bind_eq_bind, Option.bind_some]
      by_cases narrow : first.length = 0
      · rw [if_pos narrow, if_pos narrow]
        refine ⟨false, rfl, rfl, iff_of_false Bool.false_ne_true ?_⟩
        rintro ⟨row, member, inRow⟩
        have rowLength := sorted.rectangular row member
        rw [← firstLength, narrow] at rowLength
        rw [List.eq_nil_of_length_eq_zero rowLength] at inRow
        exact List.not_mem_nil inRow
      have bottomHeld : InSigned 32 ((matrix.length : Int) - 1) := by
        constructor <;> omega
      have rightHeld : InSigned 32 ((columns : Int) - 1) := by
        constructor <;> omega
      rw [if_neg narrow, if_neg narrow, firstLength,
        converted_natCast (Nat.zero_lt_succ 31) rowsCounted,
        converted_natCast (Nat.zero_lt_succ 31) columnsCounted,
        converted_of_inSigned (Nat.zero_lt_succ 31) rightHeld,
        signed_of_inSigned bottomHeld, signed_of_inSigned rightHeld]
      dsimp only [Option.bind_some]
      obtain ⟨found, foundIs, foundIff⟩ := @helper_spec columns matrix target sorted rowsCounted
        columnsCounted fuel 0 0 (matrix.length - 1) (columns - 1) (by omega) (by omega) (by omega)
      obtain ⟨found2, found2Is, found2Iff⟩ := @staircase_spec columns matrix target sorted
        rowsCounted fuel 0 (columns - 1) (by omega) (by omega) (by omega)
      have same : found2 = found := by
        rw [Bool.eq_iff_iff, found2Iff, foundIff]
      exact ⟨found, foundIs, same ▸ found2Is, foundIff.trans sorted.occurs_iff⟩

def twoRows : List (List Int) := [[1, 3], [2, 4]]

theorem sorted_twoRows : Sorted 2 twoRows where
  rectangular := by decide
  rows := by decide
  columns := by
    refine List.pairwise_pair.mpr fun j a b upper lower => ?_
    match j, upper, lower with
    | 0, upper, lower =>
        cases upper
        cases lower
        decide
    | 1, upper, lower =>
        cases upper
        cases lower
        decide

theorem searches_agree_on_twoRows :
    Sorted 2 twoRows ∧ ∃ found, searchMatrix 10 twoRows 3 = some found ∧
      searchMatrix2 10 twoRows 3 = some found ∧ (found ↔ ∃ row ∈ twoRows, 3 ∈ row) :=
  ⟨sorted_twoRows, searches_agree 3 sorted_twoRows (by decide) (by decide) (by decide)⟩

/-- The number of rows becomes negative. -/
theorem searchMatrix_of_long {matrix : List (List Int)} {target value : Int} (fuel : Nat)
    (rows : matrix.length = 2 ^ 31 + 1) (firstIs : matrix[0]? = some [value]) :
    searchMatrix (fuel + 1) matrix target = some false := by
  have bottomIs : signed 32 (converted 32 ((2 ^ 31 + 1 : Nat) : Int) - 1) = some (-2 ^ 31) := by
    decide
  have rightIs : signed 32 (converted 32 ((1 : Nat) : Int) - 1) = some 0 := by decide
  rw [searchMatrix, if_neg (by omega), firstIs, rows, bottomIs]
  dsimp only [Option.bind_eq_bind, Option.bind_some]
  rw [List.length_singleton, if_neg Nat.one_ne_zero, rightIs, Option.bind_some, helper,
    if_pos (.inl (by decide))]

theorem searchMatrix_misses_in_long :
    Sorted 1 (List.replicate (2 ^ 31 + 1) [0]) ∧
      (∃ row ∈ List.replicate (2 ^ 31 + 1) [(0 : Int)], 0 ∈ row) ∧
      ∀ fuel, searchMatrix (fuel + 1) (List.replicate (2 ^ 31 + 1) [0]) 0 = some false := by
  have nonempty : 2 ^ 31 + 1 ≠ 0 := Nat.succ_ne_zero _
  refine ⟨⟨fun row member => ?_, fun row member => ?_, ?_⟩, ⟨[0], ?_, ?_⟩, fun fuel => ?_⟩
  · rw [List.eq_of_mem_replicate member]
    rfl
  · rw [List.eq_of_mem_replicate member]
    exact List.pairwise_singleton _ 0
  · refine List.pairwise_replicate.mpr (.inr fun j a b upper lower => ?_)
    rw [upper] at lower
    exact (Option.some.inj lower).le
  · exact List.mem_replicate.mpr ⟨nonempty, rfl⟩
  · exact List.mem_singleton_self 0
  · refine @searchMatrix_of_long _ 0 0 fuel List.length_replicate ?_
    rw [List.getElem?_replicate, if_pos (Nat.succ_pos _)]

end MatrixSearch

end StdPrograms.Hobbies

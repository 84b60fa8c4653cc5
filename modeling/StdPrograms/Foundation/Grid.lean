import Mathlib.Data.List.Basic
import Mathlib.Data.List.Range
import Mathlib.Order.Lattice

/-!
Contract: tables that nested loops fill and search, row after row.

Owns the assignment to a cell, the order in which two nested loops pass over the cells, what
a table holds whose cells were each computed from earlier ones, and the greatest value that a
search comes back with.

Does not own any table.
-/

namespace StdPrograms.Foundation

abbrev Grid (α : Type) := Nat → Nat → α

/-- The cells of a loop over the rows around a loop over the columns. -/
def cellsFrom (start rows cols : Nat) : List (Nat × Nat) :=
  (List.range' start (rows - start)).flatMap fun i =>
    (List.range' start (cols - start)).map fun j => (i, j)

theorem mem_cellsFrom {start rows cols : Nat} {cell : Nat × Nat} :
    cell ∈ cellsFrom start rows cols ↔
      (start ≤ cell.1 ∧ cell.1 < rows) ∧ start ≤ cell.2 ∧ cell.2 < cols := by
  obtain ⟨i, j⟩ := cell
  simp only [cellsFrom, List.mem_flatMap, List.mem_map, List.mem_range'_1, Prod.mk.injEq]
  constructor
  · rintro ⟨row, rowInside, col, colInside, rfl, rfl⟩
    omega
  · intro inside
    exact ⟨i, by omega, j, by omega, rfl, rfl⟩

/-- The cell comes earlier: in a row above, or to the left. -/
def Before (left right : Nat × Nat) : Prop :=
  left.1 < right.1 ∨ left.1 = right.1 ∧ left.2 < right.2

theorem pairwise_cellsFrom (start rows cols : Nat) :
    (cellsFrom start rows cols).Pairwise Before := by
  rw [cellsFrom, List.pairwise_flatMap]
  constructor
  · intro i _
    rw [List.pairwise_map]
    refine List.Pairwise.imp ?_ (List.pairwise_lt_range' 1)
    intro left right less
    exact Or.inr ⟨rfl, less⟩
  · refine List.Pairwise.imp ?_ (List.pairwise_lt_range' 1)
    intro upper lower less left isLeft right isRight
    obtain ⟨_, _, rfl⟩ := List.mem_map.mp isLeft
    obtain ⟨_, _, rfl⟩ := List.mem_map.mp isRight
    exact Or.inl less

namespace Grid

variable {α : Type}

def set (grid : Grid α) (i j : Nat) (value : α) : Grid α :=
  fun row col => if row = i ∧ col = j then value else grid row col

theorem set_same (grid : Grid α) (i j : Nat) (value : α) : grid.set i j value i j = value :=
  if_pos ⟨rfl, rfl⟩

theorem set_other (grid : Grid α) {i j row col : Nat} (value : α) (other : (row, col) ≠ (i, j)) :
    grid.set i j value row col = grid row col := by
  apply if_neg
  rintro ⟨rfl, rfl⟩
  exact other rfl

/-- Assign to each of the cells in turn what is computed from the table so far. -/
def fill (value : Grid α → Nat → Nat → α) (cells : List (Nat × Nat)) (grid : Grid α) : Grid α :=
  cells.foldl (fun grid cell => grid.set cell.1 cell.2 (value grid cell.1 cell.2)) grid

variable {value : Grid α → Nat → Nat → α}

theorem fill_cons (cell : Nat × Nat) (rest : List (Nat × Nat)) (grid : Grid α) :
    grid.fill value (cell :: rest) =
      (grid.set cell.1 cell.2 (value grid cell.1 cell.2)).fill value rest :=
  rfl

theorem fill_append (front back : List (Nat × Nat)) (grid : Grid α) :
    grid.fill value (front ++ back) = (grid.fill value front).fill value back :=
  List.foldl_append

theorem fill_other {cells : List (Nat × Nat)} {i j : Nat} (other : (i, j) ∉ cells)
    (grid : Grid α) : grid.fill value cells i j = grid i j := by
  induction cells generalizing grid with
  | nil => rfl
  | cons cell rest inductionHypothesis =>
      rw [List.mem_cons, not_or] at other
      rw [fill_cons, inductionHypothesis other.2, set_other grid _ other.1]

/-- Cells that are assigned what does not depend on the table. -/
theorem fill_const (constant : Nat → Nat → α) {cells : List (Nat × Nat)} {i j : Nat}
    (member : (i, j) ∈ cells) (grid : Grid α) :
    grid.fill (fun _ => constant) cells i j = constant i j := by
  induction cells generalizing grid with
  | nil => exact absurd member List.not_mem_nil
  | cons cell rest inductionHypothesis =>
      rw [fill_cons]
      by_cases later : (i, j) ∈ rest
      · exact inductionHypothesis later _
      · have same : (i, j) = cell := (List.mem_cons.mp member).resolve_right later
        rw [fill_other later, ← same, set_same]

/-- A cell whose value is computed from others that are not assigned any more holds that
value in the end. -/
theorem fill_eq {front back : List (Nat × Nat)} {i j : Nat} (last : (i, j) ∉ back)
    (reads : ∀ left right : Grid α,
      (∀ row col, (row, col) ∉ (i, j) :: back → left row col = right row col) →
        value left i j = value right i j)
    (grid : Grid α) :
    grid.fill value (front ++ (i, j) :: back) i j =
      value (grid.fill value (front ++ (i, j) :: back)) i j := by
  have stored : grid.fill value (front ++ (i, j) :: back) i j =
      value (grid.fill value front) i j := by
    rw [fill_append, fill_cons, fill_other last, set_same]
  rw [stored]
  apply reads
  intro row col untouched
  rw [List.mem_cons, not_or] at untouched
  rw [fill_append, fill_cons, fill_other untouched.2, set_other _ _ untouched.1]

/-- Two nested loops that compute each cell from earlier ones. -/
theorem fill_cellsFrom {start rows cols : Nat} {i j : Nat}
    (inside : (i, j) ∈ cellsFrom start rows cols)
    (reads : ∀ left right : Grid α,
      (∀ row col, Before (row, col) (i, j) → left row col = right row col) →
        value left i j = value right i j)
    (grid : Grid α) :
    grid.fill value (cellsFrom start rows cols) i j =
      value (grid.fill value (cellsFrom start rows cols)) i j := by
  obtain ⟨front, back, split⟩ := List.append_of_mem inside
  have ordered := pairwise_cellsFrom start rows cols
  rw [split] at ordered
  have later := (List.pairwise_cons.mp (List.pairwise_append.mp ordered).2.1).1
  rw [split]
  apply fill_eq
  · intro again
    have itself := later (i, j) again
    unfold Before at itself
    omega
  · intro left right agree
    apply reads
    intro row col earlier
    apply agree
    rw [List.mem_cons, not_or]
    constructor
    · intro same
      cases same
      unfold Before at earlier
      omega
    · intro among
      have after := later (row, col) among
      unfold Before at earlier after
      omega

/-! ### The greatest value -/

variable [LinearOrder α]

/-- The value and the place of the greatest one so far; a later one has to be greater. -/
def search (grid : Grid α) (cells : List (Nat × Nat)) (start : α × Nat × Nat) : α × Nat × Nat :=
  cells.foldl (fun best cell =>
    if best.1 < grid cell.1 cell.2 then (grid cell.1 cell.2, cell.1, cell.2) else best) start

theorem search_cons (grid : Grid α) (cell : Nat × Nat) (rest : List (Nat × Nat))
    (start : α × Nat × Nat) :
    grid.search (cell :: rest) start =
      grid.search rest
        (if start.1 < grid cell.1 cell.2 then (grid cell.1 cell.2, cell.1, cell.2) else start) :=
  rfl

theorem le_search (grid : Grid α) (cells : List (Nat × Nat)) (start : α × Nat × Nat) :
    start.1 ≤ (grid.search cells start).1 ∧
      ∀ cell ∈ cells, grid cell.1 cell.2 ≤ (grid.search cells start).1 := by
  induction cells generalizing start with
  | nil => exact ⟨le_refl _, fun cell member => absurd member (List.not_mem_nil)⟩
  | cons cell rest inductionHypothesis =>
      obtain ⟨above, others⟩ := inductionHypothesis
        (if start.1 < grid cell.1 cell.2 then (grid cell.1 cell.2, cell.1, cell.2) else start)
      rw [← search_cons] at above others
      have both : start.1 ≤ (grid.search (cell :: rest) start).1 ∧
          grid cell.1 cell.2 ≤ (grid.search (cell :: rest) start).1 := by
        split at above
        next greater => exact ⟨le_trans (le_of_lt greater) above, above⟩
        next notGreater => exact ⟨above, le_trans (le_of_not_gt notGreater) above⟩
      refine ⟨both.1, ?_⟩
      intro other member
      cases List.mem_cons.mp member with
      | inl same =>
          rw [same]
          exact both.2
      | inr among => exact others other among

theorem search_mem (grid : Grid α) (cells : List (Nat × Nat)) (start : α × Nat × Nat) :
    (grid.search cells start).1 = start.1 ∨
      ∃ cell ∈ cells, (grid.search cells start).1 = grid cell.1 cell.2 := by
  induction cells generalizing start with
  | nil => exact Or.inl rfl
  | cons cell rest inductionHypothesis =>
      rw [search_cons]
      rcases inductionHypothesis
        (if start.1 < grid cell.1 cell.2 then (grid cell.1 cell.2, cell.1, cell.2) else start)
        with same | ⟨other, member, found⟩
      · rw [same]
        split
        next => exact Or.inr ⟨cell, List.mem_cons_self, rfl⟩
        next => exact Or.inl rfl
      · exact Or.inr ⟨other, List.mem_cons_of_mem cell member, found⟩

/-- The place of the greatest value so far; a later one may be as great. -/
def searchLast (grid : Grid α) (cells : List (Nat × Nat)) (start : Nat × Nat) : Nat × Nat :=
  cells.foldl (fun best cell =>
    if grid best.1 best.2 ≤ grid cell.1 cell.2 then cell else best) start

theorem searchLast_cons (grid : Grid α) (cell : Nat × Nat) (rest : List (Nat × Nat))
    (start : Nat × Nat) :
    grid.searchLast (cell :: rest) start =
      grid.searchLast rest
        (if grid start.1 start.2 ≤ grid cell.1 cell.2 then cell else start) :=
  rfl

theorem le_searchLast (grid : Grid α) (cells : List (Nat × Nat)) (start : Nat × Nat) :
    grid start.1 start.2 ≤
        grid (grid.searchLast cells start).1 (grid.searchLast cells start).2 ∧
      ∀ cell ∈ cells, grid cell.1 cell.2 ≤
        grid (grid.searchLast cells start).1 (grid.searchLast cells start).2 := by
  induction cells generalizing start with
  | nil => exact ⟨le_refl _, fun cell member => absurd member (List.not_mem_nil)⟩
  | cons cell rest inductionHypothesis =>
      obtain ⟨above, others⟩ := inductionHypothesis
        (if grid start.1 start.2 ≤ grid cell.1 cell.2 then cell else start)
      rw [← searchLast_cons] at above others
      generalize grid.searchLast (cell :: rest) start = best at above others
      have both : grid start.1 start.2 ≤ grid best.1 best.2 ∧
          grid cell.1 cell.2 ≤ grid best.1 best.2 := by
        split at above
        next notLess => exact ⟨le_trans notLess above, above⟩
        next less => exact ⟨above, le_trans (le_of_lt (lt_of_not_ge less)) above⟩
      refine ⟨both.1, ?_⟩
      intro other member
      cases List.mem_cons.mp member with
      | inl same =>
          rw [same]
          exact both.2
      | inr among => exact others other among

theorem searchLast_mem (grid : Grid α) (cells : List (Nat × Nat)) (start : Nat × Nat) :
    grid.searchLast cells start = start ∨ grid.searchLast cells start ∈ cells := by
  induction cells generalizing start with
  | nil => exact Or.inl rfl
  | cons cell rest inductionHypothesis =>
      rw [searchLast_cons]
      rcases inductionHypothesis
        (if grid start.1 start.2 ≤ grid cell.1 cell.2 then cell else start) with same | among
      · rw [same]
        split
        next => exact Or.inr List.mem_cons_self
        next => exact Or.inl rfl
      · exact Or.inr (List.mem_cons_of_mem cell among)

end Grid

end StdPrograms.Foundation

import Mathlib.Data.Finset.Basic
import Mathlib.Data.List.Sort
import StdPrograms.Foundation.CountedLoop
import StdPrograms.Foundation.Multiplicities

/-!
Contract: the two comparisons of vectors in `set_intersection.cpp`.

Owns `compare`, by sorting and the set operations of the standard library, `vector_compare`, by
searching, with counters that are `int`s, what each finds of every number, and for which vectors
the assertions of `main` hold.

Does not own the random numbers, the timing or the maps.
-/

namespace StdPrograms.Misc

open StdPrograms.Foundation

namespace SetIntersection

section Library

variable {α : Type} [LinearOrder α]

/-- `std::set_intersection` of ascending ranges. -/
def set_intersection : List α → List α → List α
  | a :: left, b :: right =>
      if a < b then set_intersection left (b :: right)
      else if b < a then set_intersection (a :: left) right
      else a :: set_intersection left right
  | _, _ => []
termination_by left right => left.length + right.length

/-- `std::set_difference` of ascending ranges. -/
def set_difference : List α → List α → List α
  | [], _ => []
  | a :: left, [] => a :: left
  | a :: left, b :: right =>
      if a < b then a :: set_difference left (b :: right)
      else if b < a then set_difference (a :: left) right
      else set_difference left right
termination_by left right => left.length + right.length

/-- What both ranges have, as often as both have it. -/
theorem set_intersection_eq {left right : List α} (leftAscending : left.Pairwise (· ≤ ·))
    (rightAscending : right.Pairwise (· ≤ ·)) :
    set_intersection left right = left.bagInter right := by
  induction left, right using set_intersection.induct with
  | case1 a left b right less inductionHypothesis =>
      rw [set_intersection, if_pos less, bagInter_cons_of_lt rightAscending less]
      exact inductionHypothesis leftAscending.of_cons rightAscending
  | case2 a left b right notLess greater inductionHypothesis =>
      rw [set_intersection, if_neg notLess, if_pos greater,
        bagInter_cons_of_gt leftAscending greater]
      exact inductionHypothesis leftAscending rightAscending.of_cons
  | case3 a left b right notLess notGreater inductionHypothesis =>
      obtain rfl : a = b := le_antisymm (not_lt.mp notGreater) (not_lt.mp notLess)
      rw [set_intersection, if_neg notLess, if_neg notGreater, bagInter_cons_self,
        inductionHypothesis leftAscending.of_cons rightAscending.of_cons]
  | case4 left right notBoth =>
      cases left with
      | nil => simp [set_intersection]
      | cons a left =>
          cases right with
          | nil => simp [set_intersection]
          | cons b right => exact absurd rfl (notBoth a left b right rfl)

/-- What the first range has more often. -/
theorem count_set_difference {left right : List α} (leftAscending : left.Pairwise (· ≤ ·))
    (rightAscending : right.Pairwise (· ≤ ·)) (value : α) :
    (set_difference left right).count value = left.count value - right.count value := by
  induction left, right using set_difference.induct with
  | case1 right => simp [set_difference]
  | case2 a left => simp [set_difference]
  | case3 a left b right less inductionHypothesis =>
      have missing : (b :: right).count a = 0 :=
        List.count_eq_zero_of_not_mem (not_mem_of_lt rightAscending less)
      rw [set_difference, if_pos less, List.count_cons, List.count_cons,
        inductionHypothesis leftAscending.of_cons rightAscending]
      split
      next same =>
        rw [← eq_of_beq same, missing]
        omega
      next => omega
  | case4 a left b right notLess greater inductionHypothesis =>
      have missing : (a :: left).count b = 0 :=
        List.count_eq_zero_of_not_mem (not_mem_of_lt leftAscending greater)
      rw [set_difference, if_neg notLess, if_pos greater, @List.count_cons _ _ value b right,
        inductionHypothesis leftAscending rightAscending.of_cons]
      split
      next same =>
        rw [← eq_of_beq same, missing]
        omega
      next => rfl
  | case5 a left b right notLess notGreater inductionHypothesis =>
      obtain rfl : a = b := le_antisymm (not_lt.mp notGreater) (not_lt.mp notLess)
      rw [set_difference, if_neg notLess, if_neg notGreater, List.count_cons, List.count_cons,
        inductionHypothesis leftAscending.of_cons rightAscending.of_cons]
      omega

end Library

/-- The three vectors that a comparison appends to. -/
structure Parts where
  in_both : List Int
  in_a : List Int
  in_b : List Int
deriving DecidableEq, Repr

/-- `std::sort`. -/
def sort (numbers : List Int) : List Int := numbers.mergeSort (· ≤ ·)

def compare (a b : List Int) (parts : Parts) : Parts :=
  let newa := sort a
  let newb := sort b
  { in_both := parts.in_both ++ set_intersection newa newb
    in_a := parts.in_a ++ set_difference newa newb
    in_b := parts.in_b ++ set_difference newb newa }

/-- The body of the first loop of `vector_compare`. -/
def visit_a (b : List Int) (parts : Parts) (x : Int) : Parts :=
  if b.contains x then { parts with in_both := parts.in_both ++ [x] }
  else { parts with in_a := parts.in_a ++ [x] }

/-- The body of the second one. -/
def visit_b (a : List Int) (parts : Parts) (x : Int) : Parts :=
  if a.contains x then parts else { parts with in_b := parts.in_b ++ [x] }

/-- There is no result where a counter overflows. -/
def vector_compare (a b : List Int) (parts : Parts) : Option Parts := do
  let parts ← signedLoop 32 0 a.length (fun parts i => a[i]?.map (visit_a b parts)) parts
  signedLoop 32 0 b.length (fun parts i => b[i]?.map (visit_b a parts)) parts

/-- `assert_equal`. -/
def assert_equal (a b : List Int) : Prop := a.toFinset = b.toFinset

/-- `main`, with vectors that are empty before the comparisons, gets past its assertions. -/
def Asserts (a b : List Int) : Prop :=
  let found := compare a b ⟨[], [], []⟩
  ∃ vfound, vector_compare a b ⟨[], [], []⟩ = some vfound ∧
    assert_equal found.in_both vfound.in_both ∧ assert_equal found.in_a vfound.in_a ∧
      assert_equal found.in_b vfound.in_b

/-! ### What is found of a number -/

theorem sort_ascending (numbers : List Int) : (sort numbers).Pairwise (· ≤ ·) :=
  List.pairwise_mergeSort' (· ≤ ·) numbers

theorem count_sort (numbers : List Int) (value : Int) :
    (sort numbers).count value = numbers.count value :=
  (List.mergeSort_perm numbers _).count_eq value

variable {a b : List Int} {value : Int}

theorem mem_set_intersection_sort :
    value ∈ set_intersection (sort a) (sort b) ↔ value ∈ a ∧ value ∈ b := by
  rw [set_intersection_eq (sort_ascending a) (sort_ascending b), List.mem_bagInter]
  simp only [sort, List.mem_mergeSort]

theorem mem_set_difference_sort :
    value ∈ set_difference (sort a) (sort b) ↔ b.count value < a.count value := by
  rw [← List.count_pos_iff, count_set_difference (sort_ascending a) (sort_ascending b),
    count_sort, count_sort, Nat.sub_pos_iff_lt]

theorem foldl_visit_a (b numbers : List Int) (parts : Parts) :
    numbers.foldl (visit_a b) parts =
      { parts with
        in_both := parts.in_both ++ numbers.filter fun x => b.contains x
        in_a := parts.in_a ++ numbers.filter fun x => !b.contains x } := by
  induction numbers generalizing parts with
  | nil => simp
  | cons x rest inductionHypothesis =>
      rw [List.foldl_cons, inductionHypothesis, visit_a]
      split
      next found => simp [List.contains_iff_mem.mp found]
      next missing => simp [mt List.contains_iff_mem.mpr missing]

theorem foldl_visit_b (a numbers : List Int) (parts : Parts) :
    numbers.foldl (visit_b a) parts =
      { parts with in_b := parts.in_b ++ numbers.filter fun x => !a.contains x } := by
  induction numbers generalizing parts with
  | nil => simp
  | cons x rest inductionHypothesis =>
      rw [List.foldl_cons, inductionHypothesis, visit_b]
      split
      next found => simp [List.contains_iff_mem.mp found]
      next missing => simp [mt List.contains_iff_mem.mpr missing]

theorem vector_compare_eq {a b : List Int} (aSmall : a.length < 2 ^ 31)
    (bSmall : b.length < 2 ^ 31) :
    vector_compare a b ⟨[], [], []⟩ =
      some
        { in_both := a.filter fun x => b.contains x
          in_a := a.filter fun x => !b.contains x
          in_b := b.filter fun x => !a.contains x } := by
  rw [vector_compare, signedLoop_elements aSmall]
  change signedLoop 32 0 b.length _ _ = _
  rw [signedLoop_elements bSmall, foldl_visit_a, foldl_visit_b]
  simp

/-- What one vector has more often than the other is what the other one lacks. -/
theorem assert_equal_difference_iff (a b : List Int) :
    assert_equal (set_difference (sort a) (sort b)) (a.filter fun x => !b.contains x) ↔
      ∀ value ∈ a, value ∈ b → a.count value ≤ b.count value := by
  rw [assert_equal, Finset.ext_iff]
  apply forall_congr'
  intro value
  simp only [List.mem_toFinset, mem_set_difference_sort, List.mem_filter, Bool.not_eq_true',
    List.contains_eq_mem, decide_eq_false_iff_not]
  rw [← List.count_pos_iff, ← List.count_pos_iff]
  omega

/-- The sorted vectors say how much more often one of them has a number, the search only whether
the other one has it at all: the assertions hold exactly where both have each common number
equally often. -/
theorem asserts_iff {a b : List Int} (aSmall : a.length < 2 ^ 31) (bSmall : b.length < 2 ^ 31) :
    Asserts a b ↔ ∀ value ∈ a, value ∈ b → a.count value = b.count value := by
  have both : assert_equal (set_intersection (sort a) (sort b))
      (a.filter fun x => b.contains x) := by
    ext value
    simp [mem_set_intersection_sort]
  have parts : Asserts a b ↔
      (∀ value ∈ a, value ∈ b → a.count value ≤ b.count value) ∧
        ∀ value ∈ b, value ∈ a → b.count value ≤ a.count value := by
    rw [← assert_equal_difference_iff a b, ← assert_equal_difference_iff b a, Asserts,
      vector_compare_eq aSmall bSmall]
    simp only [Option.some.injEq, exists_eq_left', compare, List.nil_append, both, true_and]
  rw [parts]
  constructor
  · intro atMost value inA inB
    exact le_antisymm (atMost.1 value inA inB) (atMost.2 value inB inA)
  · intro equal
    exact ⟨fun value inA inB => (equal value inA inB).le,
      fun value inB inA => (equal value inA inB).ge⟩

/-- Both have 2 twice, and each a number of its own. -/
theorem asserts_iff_twice : Asserts [1, 2, 2] [2, 3, 2] := by
  refine (@asserts_iff [1, 2, 2] [2, 3, 2] (by decide) (by decide)).mpr ?_
  decide

end SetIntersection

end StdPrograms.Misc

import Mathlib.Algebra.Order.Ring.Int
import StdPrograms.Foundation.Exchange
import StdPrograms.Foundation.NextArrangement

/-!
Contract: the next permutation of a vector, in place.

Owns `nextPermutation`, which goes back with two iterators, and `nextPermutation2`, which searches
from the end, of `solution_31.cpp`, and that both leave the least greater permutation.

Does not own the order of permutations.
-/

namespace StdPrograms.Hobbies

open StdPrograms.Foundation

namespace NextPermutation

/-! ### `nextPermutation` -/

/-- The elements from a position on in reverse. -/
def reverseFrom (nums : List Int) (position : Nat) : List Int :=
  nums.take position ++ (nums.drop position).reverse

/-- `while (*--j <= *i)`; there is nothing before the first element. -/
def lastGreater (nums : List Int) (pivot : Int) : Nat → Option Nat
  | 0 => none
  | j + 1 => do
      let element ← nums[j]?
      if element ≤ pivot then lastGreater nums pivot j else return j

/-- The loop, with `i` before it is decremented. -/
def descend (nums : List Int) : Nat → Option (List Int)
  | 0 => none
  | i + 1 => do
      let left ← nums[i]?
      let right ← nums[i + 1]?
      if left < right then
        let j ← lastGreater nums left nums.length
        let nums ← exchange nums i j
        return reverseFrom nums (i + 1)
      else if i = 0 then return reverseFrom nums 0
      else descend nums i

/-- There is no result for an empty vector, whose first iterator is incremented. -/
def nextPermutation (nums : List Int) : Option (List Int) :=
  if nums.length = 0 then none
  else if nums.length = 1 then some nums
  else descend nums (nums.length - 1)

/-! ### `nextPermutation2` -/

/-- `is_sorted_until`, as the number of elements before the iterator. -/
def isSortedUntil : List Int → Nat
  | [] => 0
  | [_] => 1
  | first :: second :: rest =>
      if second < first then 1 else isSortedUntil (second :: rest) + 1

/-- The reverse iterators are positions in the reversed vector, and `upper_bound` finds the first
element that is greater. -/
def nextPermutation2 (nums : List Int) : Option (List Int) := do
  let backward := nums.reverse
  let i := isSortedUntil backward
  let backward ←
    if i = backward.length then some backward
    else do
      let pivot ← backward[i]?
      exchange backward i ((backward.take i).findIdx (pivot < ·))
  return ((backward.take i).reverse ++ backward.drop i).reverse

/-- The least permutation that is greater, or the ascending one when there is none. -/
def Next (nums after : List Int) : Prop :=
  IsLeast (greaterArrangements nums) after ∨
    greaterArrangements nums = ∅ ∧ after.Perm nums ∧ after.Pairwise (· ≤ ·)

/-! ### The last pair in ascending order -/

theorem exists_last_greater {tail : List Int} {pivot : Int}
    (some : ∃ element ∈ tail, pivot < element) :
    ∃ above successor below, tail = above ++ successor :: below ∧ pivot < successor ∧
      ∀ element ∈ below, element ≤ pivot := by
  induction tail with
  | nil => simp at some
  | cons first tail inductionHypothesis =>
      by_cases later : ∃ element ∈ tail, pivot < element
      · obtain ⟨above, successor, below, rfl, greater, notGreater⟩ := inductionHypothesis later
        exact ⟨first :: above, successor, below, rfl, greater, notGreater⟩
      · push Not at later
        obtain ⟨element, member, greater⟩ := some
        rcases List.mem_cons.mp member with rfl | beyond
        · exact ⟨[], element, tail, rfl, greater, later⟩
        · exact absurd greater (not_lt_of_ge (later element beyond))

/-- Where the elements do not descend to the end there is a last one that a later one exceeds. -/
theorem descending_or_pivot (nums : List Int) :
    nums.Pairwise (· ≥ ·) ∨ ∃ front pivot above successor below,
      nums = front ++ pivot :: (above ++ successor :: below) ∧
      (above ++ successor :: below).Pairwise (· ≥ ·) ∧ pivot < successor ∧
      ∀ element ∈ below, element ≤ pivot := by
  induction nums with
  | nil => exact .inl List.Pairwise.nil
  | cons first rest inductionHypothesis =>
      rcases inductionHypothesis with descending | found
      · by_cases greatest : ∃ element ∈ rest, first < element
        · obtain ⟨above, successor, below, rfl, greater, notGreater⟩ :=
            exists_last_greater greatest
          exact .inr ⟨[], first, above, successor, below, rfl, descending, greater, notGreater⟩
        · push Not at greatest
          exact .inl (List.pairwise_cons.mpr ⟨greatest, descending⟩)
      · obtain ⟨front, pivot, above, successor, below, rfl, rest⟩ := found
        exact .inr ⟨first :: front, pivot, above, successor, below, rfl, rest⟩

theorem next_of_descending {nums : List Int} (descending : nums.Pairwise (· ≥ ·)) :
    Next nums nums.reverse := by
  refine .inr ⟨Set.eq_empty_of_forall_notMem fun other greater => ?_, List.reverse_perm nums,
    List.pairwise_reverse.mpr descending⟩
  exact not_lt_of_ge (le_of_perm_of_descending descending greater.1) greater.2

/-! ### What `nextPermutation` leaves -/

theorem lastGreater_eq {nums : List Int} {pivot successor : Int} {j limit : Nat}
    (entry : nums[j]? = some successor) (greater : pivot < successor)
    (notGreater : ∀ later, j < later → ∀ element, nums[later]? = some element → element ≤ pivot)
    (below : j < limit) (inside : limit ≤ nums.length) : lastGreater nums pivot limit = some j := by
  induction limit with
  | zero => exact absurd below (Nat.not_lt_zero j)
  | succ last inductionHypothesis =>
      rw [lastGreater]
      rcases Nat.lt_succ_iff_lt_or_eq.mp below with earlier | rfl
      · have lastEntry := List.getElem?_eq_getElem (Nat.lt_of_succ_le inside)
        rw [lastEntry, Option.bind_eq_bind, Option.bind_some,
          if_pos (notGreater last earlier _ lastEntry)]
        exact inductionHypothesis earlier (Nat.le_of_succ_le inside)
      · rw [entry, Option.bind_eq_bind, Option.bind_some, if_neg (not_le_of_gt greater)]
        rfl

theorem descend_of_descending {nums : List Int} {i : Nat}
    (descending : nums.Pairwise (· ≥ ·)) (positive : 0 < i) (inside : i < nums.length) :
    descend nums i = some nums.reverse := by
  induction i with
  | zero => exact absurd positive (Nat.lt_irrefl 0)
  | succ i inductionHypothesis =>
      have ordered : nums[i + 1] ≤ nums[i] :=
        List.pairwise_iff_getElem.mp descending i (i + 1) (by omega) inside (Nat.lt_succ_self i)
      rw [descend, List.getElem?_eq_getElem (by omega), List.getElem?_eq_getElem inside]
      dsimp only [Option.bind_eq_bind, Option.bind_some]
      rw [if_neg (not_lt_of_ge ordered)]
      by_cases first : i = 0
      · rw [if_pos first, reverseFrom, List.take_zero, List.drop_zero, List.nil_append]
        rfl
      · rw [if_neg first]
        exact inductionHypothesis (Nat.pos_of_ne_zero first) (by omega)

theorem nextPermutation_of_descending {nums : List Int} (nonempty : nums ≠ [])
    (descending : nums.Pairwise (· ≥ ·)) : nextPermutation nums = some nums.reverse := by
  have positive := List.length_pos_iff.mpr nonempty
  rw [nextPermutation, if_neg (by omega)]
  split
  next one =>
    obtain ⟨element, rfl⟩ := List.length_eq_one_iff.mp one
    rfl
  next more => exact descend_of_descending descending (by omega) (by omega)

section

variable (front : List Int) {pivot successor : Int} {above below : List Int}
  (descending : (above ++ successor :: below).Pairwise (· ≥ ·))
  (greater : pivot < successor) (notGreater : ∀ element ∈ below, element ≤ pivot)

/-- The vector before. -/
abbrev before (front : List Int) (pivot : Int) (above : List Int) (successor : Int)
    (below : List Int) : List Int :=
  front ++ pivot :: (above ++ successor :: below)

/-- The vector after. -/
abbrev after (front : List Int) (pivot : Int) (above : List Int) (successor : Int)
    (below : List Int) : List Int :=
  front ++ successor :: (above ++ pivot :: below).reverse

include greater notGreater in
theorem lastGreater_before :
    lastGreater (before front pivot above successor below) pivot
        (before front pivot above successor below).length =
      some (front.length + 1 + above.length) := by
  have split : before front pivot above successor below =
      (front ++ pivot :: above) ++ successor :: below := by simp [before]
  have length : (front ++ pivot :: above).length = front.length + 1 + above.length := by
    simp only [List.length_append, List.length_cons]
    omega
  rw [← length, split]
  refine lastGreater_eq (getElem?_append_cons _ _ _) greater ?_ (by simp) (Nat.le_refl _)
  intro later beyond element entry
  rw [List.getElem?_append_right beyond.le] at entry
  obtain ⟨distance, distanceIs⟩ : ∃ distance, later - (front ++ pivot :: above).length =
      distance + 1 := ⟨later - (front ++ pivot :: above).length - 1, by omega⟩
  rw [distanceIs, List.getElem?_cons_succ] at entry
  exact notGreater element (List.mem_of_getElem? entry)

theorem reverseFrom_append (element : Int) (back : List Int) :
    reverseFrom (front ++ element :: back) (front.length + 1) =
      front ++ element :: back.reverse := by
  have split : front ++ element :: back = (front ++ [element]) ++ back := by simp
  have length : front.length + 1 = (front ++ [element]).length := by simp
  rw [reverseFrom, split, length, List.take_left, List.drop_left, List.append_assoc]
  rfl

include descending greater notGreater

/-- The descent is left at the pivot. -/
theorem descend_before {distance : Nat} (inside : distance < (above ++ successor :: below).length) :
    descend (before front pivot above successor below) (front.length + 1 + distance) =
      some (after front pivot above successor below) := by
  have shifted : ∀ position,
      (before front pivot above successor below)[front.length + 1 + position]? =
        (above ++ successor :: below)[position]? := by
    intro position
    rw [List.getElem?_append_right (by omega),
      show front.length + 1 + position - front.length = position + 1 by omega,
      List.getElem?_cons_succ]
  have pivotEntry : (before front pivot above successor below)[front.length]? = some pivot :=
    getElem?_append_cons front pivot _
  induction distance with
  | zero =>
      have headGreater : pivot < (above ++ successor :: below)[0] := by
        cases above with
        | nil => exact greater
        | cons first above =>
            exact lt_of_lt_of_le greater ((List.pairwise_cons.mp descending).1 successor
              (List.mem_append_right above List.mem_cons_self))
      have headEntry := (shifted 0).trans (List.getElem?_eq_getElem inside)
      rw [Nat.add_zero] at headEntry
      rw [Nat.add_zero, descend, pivotEntry, headEntry]
      dsimp only [Option.bind_eq_bind, Option.bind_some]
      rw [if_pos headGreater, lastGreater_before front greater notGreater]
      dsimp only [Option.bind_some]
      rw [exchange_append, Option.bind_some, reverseFrom_append]
      rfl
  | succ distance inductionHypothesis =>
      have ordered : (above ++ successor :: below)[distance + 1] ≤
          (above ++ successor :: below)[distance] :=
        List.pairwise_iff_getElem.mp descending distance (distance + 1) (by omega) inside
          (Nat.lt_succ_self distance)
      have leftEntry := (shifted distance).trans
        (List.getElem?_eq_getElem (Nat.lt_of_succ_lt inside))
      have rightEntry := (shifted (distance + 1)).trans (List.getElem?_eq_getElem inside)
      rw [← Nat.add_assoc] at rightEntry ⊢
      rw [descend, leftEntry, rightEntry]
      dsimp only [Option.bind_eq_bind, Option.bind_some]
      rw [if_neg (not_lt_of_ge ordered), if_neg (by omega)]
      exact inductionHypothesis (by omega)

theorem nextPermutation_before :
    nextPermutation (before front pivot above successor below) =
      some (after front pivot above successor below) := by
  have length : (before front pivot above successor below).length =
      front.length + 1 + (above ++ successor :: below).length := by
    rw [List.length_append, List.length_cons]
    omega
  have nonempty : 0 < (above ++ successor :: below).length := by
    rw [List.length_append, List.length_cons]
    omega
  rw [nextPermutation, if_neg (by omega), if_neg (by omega), length, Nat.add_sub_assoc nonempty]
  exact descend_before front descending greater notGreater (by omega)

/-- The pivot gives way to a greater element. -/
theorem next_before :
    Next (before front pivot above successor below) (after front pivot above successor below) :=
  .inl (isLeast_greaterArrangements descending greater notGreater front)

end

/-! ### What `nextPermutation2` leaves -/

theorem isSortedUntil_of_ascending {elements : List Int} (ascending : elements.Pairwise (· ≤ ·)) :
    isSortedUntil elements = elements.length := by
  fun_induction isSortedUntil elements with
  | case1 => rfl
  | case2 => rfl
  | case3 first second rest less =>
      have ordered := (List.pairwise_cons.mp ascending).1 second List.mem_cons_self
      exact absurd less (not_lt_of_ge ordered)
  | case4 first second rest _ inductionHypothesis =>
      rw [inductionHypothesis (List.pairwise_cons.mp ascending).2]
      rfl

theorem isSortedUntil_append {ascending rest : List Int} {pivot : Int} (nonempty : ascending ≠ [])
    (isAscending : ascending.Pairwise (· ≤ ·)) (less : pivot < ascending.getLast nonempty) :
    isSortedUntil (ascending ++ pivot :: rest) = ascending.length := by
  induction ascending with
  | nil => exact absurd rfl nonempty
  | cons first ascending inductionHypothesis =>
      cases ascending with
      | nil =>
          have lower : pivot < first := less
          change isSortedUntil (first :: pivot :: rest) = 1
          rw [isSortedUntil, if_pos lower]
      | cons second ascending =>
          obtain ⟨firstLeast, restAscending⟩ := List.pairwise_cons.mp isAscending
          change isSortedUntil (first :: second :: (ascending ++ pivot :: rest)) = _
          rw [isSortedUntil, if_neg (not_lt_of_ge (firstLeast second List.mem_cons_self))]
          exact congrArg (· + 1) (inductionHypothesis (List.cons_ne_nil _ _) restAscending less)

theorem nextPermutation2_of_descending {nums : List Int} (descending : nums.Pairwise (· ≥ ·)) :
    nextPermutation2 nums = some nums.reverse := by
  have sorted := isSortedUntil_of_ascending (List.pairwise_reverse.mpr descending)
  rw [nextPermutation2]
  dsimp only
  rw [sorted, if_pos rfl, Option.bind_eq_bind, Option.bind_some, List.take_length, List.drop_length,
    List.append_nil, List.reverse_reverse]
  rfl

theorem findIdx_append {below above : List Int} {pivot successor : Int}
    (greater : pivot < successor) (notGreater : ∀ element ∈ below, element ≤ pivot) :
    (below ++ successor :: above).findIdx (pivot < ·) = below.length := by
  induction below with
  | nil => simp [List.findIdx_cons, greater]
  | cons first below inductionHypothesis =>
      have notFirst := not_lt_of_ge (notGreater first List.mem_cons_self)
      have rest := inductionHypothesis fun element member =>
        notGreater element (List.mem_cons_of_mem first member)
      rw [List.cons_append, List.findIdx_cons, decide_eq_false notFirst, List.length_cons, rest]
      rfl

theorem nextPermutation2_before (front : List Int) {pivot successor : Int} {above below : List Int}
    (descending : (above ++ successor :: below).Pairwise (· ≥ ·))
    (greater : pivot < successor) (notGreater : ∀ element ∈ below, element ≤ pivot) :
    nextPermutation2 (before front pivot above successor below) =
      some (after front pivot above successor below) := by
  have backward : (before front pivot above successor below).reverse =
      (below.reverse ++ successor :: above.reverse) ++ pivot :: front.reverse := by
    simp [before]
  have nonempty : below.reverse ++ successor :: above.reverse ≠ [] :=
    List.append_ne_nil_of_right_ne_nil _ (List.cons_ne_nil successor above.reverse)
  have ascending : (below.reverse ++ successor :: above.reverse).Pairwise (· ≤ ·) := by
    have reversed := List.pairwise_reverse.mpr descending
    simpa using reversed
  have lastGreater : pivot < (below.reverse ++ successor :: above.reverse).getLast nonempty := by
    obtain ⟨-, fromSuccessor, -⟩ := List.pairwise_append.mp ascending
    rw [List.getLast_append_of_ne_nil _ (List.cons_ne_nil successor above.reverse)]
    rcases List.mem_cons.mp (List.getLast_mem (List.cons_ne_nil successor above.reverse))
      with same | later
    · rw [same]
      exact greater
    · exact lt_of_lt_of_le greater ((List.pairwise_cons.mp fromSuccessor).1 _ later)
  have sorted : isSortedUntil (before front pivot above successor below).reverse =
      (below.reverse ++ successor :: above.reverse).length := by
    rw [backward, isSortedUntil_append nonempty ascending lastGreater]
  have found : (below.reverse ++ successor :: above.reverse).findIdx (pivot < ·) =
      below.reverse.length :=
    findIdx_append greater fun element member => notGreater element (List.mem_reverse.mp member)
  have exchanged : exchange
      ((below.reverse ++ successor :: above.reverse) ++ pivot :: front.reverse)
      (below.reverse ++ successor :: above.reverse).length below.reverse.length =
        some ((below.reverse ++ pivot :: above.reverse) ++ successor :: front.reverse) := by
    have distance : (below.reverse ++ successor :: above.reverse).length =
        below.reverse.length + 1 + above.reverse.length := by
      rw [List.length_append, List.length_cons]
      omega
    rw [exchange_comm, distance, List.append_assoc, List.append_assoc]
    exact exchange_append below.reverse above.reverse front.reverse successor pivot
  have sameLength : (below.reverse ++ successor :: above.reverse).length =
      (below.reverse ++ pivot :: above.reverse).length := by
    rw [List.length_append, List.length_append, List.length_cons, List.length_cons]
  rw [nextPermutation2]
  dsimp only
  rw [sorted, backward, if_neg (by simp), getElem?_append_cons, Option.bind_eq_bind,
    Option.bind_some, List.take_left, found, exchanged, Option.bind_eq_bind, Option.bind_some,
    sameLength, List.take_left, List.drop_left]
  simp [after]

/-! ### Both -/

/-- Both leave the least greater permutation, or the ascending one. -/
theorem nextPermutations_agree {nums : List Int} (nonempty : nums ≠ []) :
    ∃ after, nextPermutation nums = some after ∧ nextPermutation2 nums = some after ∧
      Next nums after := by
  rcases descending_or_pivot nums with descending | found
  · exact ⟨nums.reverse, nextPermutation_of_descending nonempty descending,
      nextPermutation2_of_descending descending, next_of_descending descending⟩
  · obtain ⟨front, pivot, above, successor, below, rfl, descending, greater, notGreater⟩ := found
    exact ⟨after front pivot above successor below,
      nextPermutation_before front descending greater notGreater,
      nextPermutation2_before front descending greater notGreater,
      next_before front descending greater notGreater⟩

theorem nextPermutations_agree_on_pairs :
    [1, 5, 1, 5] ≠ [] ∧ ∃ after, nextPermutation [1, 5, 1, 5] = some after ∧
      nextPermutation2 [1, 5, 1, 5] = some after ∧ Next [1, 5, 1, 5] after :=
  ⟨List.cons_ne_nil 1 [5, 1, 5], nextPermutations_agree (List.cons_ne_nil 1 [5, 1, 5])⟩

end NextPermutation

end StdPrograms.Hobbies

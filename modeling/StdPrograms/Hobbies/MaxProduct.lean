import Mathlib.Data.Finset.Max
import StdPrograms.Foundation.CountedLoop
import StdPrograms.Foundation.Grid
import StdPrograms.Foundation.Palindromes
import StdPrograms.Foundation.Subproducts

/-!
Contract: the greatest product of consecutive elements.

Owns `maxProduct`, which keeps the greatest and the least product at the end, and `maxProduct2`,
which tabulates all products, of `solution_152.cpp` with numbers of any size, and for which vectors
both return the greatest product.

Does not own an overflow.
-/

namespace StdPrograms.Hobbies

open StdPrograms.Foundation

namespace MaxProduct

/-! ### With the products at the end -/

structure Products where
  max_product : Int
  max_cur : Int
  min_cur : Int

def round (nums : List Int) (products : Products) (i : Nat) : Option Products := do
  let num ← nums[i]?
  let tmp_max := max (max (products.max_cur * num) (products.min_cur * num)) num
  let tmp_min := min (min (products.max_cur * num) (products.min_cur * num)) num
  return ⟨max products.max_product tmp_max, tmp_max, tmp_min⟩

def maxProduct (nums : List Int) : Option Int :=
  match nums with
  | [] => some 0
  | first :: _ => do
      let products ← forLoop 1 (nums.length - 1) (round nums) ⟨first, first, first⟩
      return products.max_product

/-! ### With a table -/

/-- The body of the first loop. -/
def diagonal (nums : List Int) (result : Grid Int) (i : Nat) : Option (Grid Int) := do
  let num ← nums[i]?
  return result.set i i num

/-- The body of the inner loop. -/
def extend (nums : List Int) (i : Nat) (state : Grid Int × Int) (j : Nat) :
    Option (Grid Int × Int) := do
  let num ← nums[j]?
  let result := state.1.set i j (state.1 i (j - 1) * num)
  return (result, if result i j > state.2 then result i j else state.2)

def row (nums : List Int) (state : Grid Int × Int) (i : Nat) : Option (Grid Int × Int) :=
  forLoop (i + 1) (nums.length - (i + 1)) (extend nums i) state

def maxProduct2 (nums : List Int) : Option Int :=
  match nums with
  | [] => some 0
  | first :: _ => do
      let result ← forLoop 0 nums.length (diagonal nums) fun _ _ => 0
      let (_, max_product) ← forLoop 0 nums.length (row nums) (result, first)
      return max_product

variable {nums : List Int} {first : Int}

/-! ### What the first one returns -/

/-- The products of the first so many elements. -/
structure Tracks (nums : List Int) (count : Nat) (products : Products) : Prop where
  greatest : IsGreatest (partProducts (nums.take count)) products.max_product
  greatestAtEnd : IsGreatest (endProducts (nums.take count)) products.max_cur
  leastAtEnd : IsLeast (endProducts (nums.take count)) products.min_cur

theorem tracks_first (first : Int) (rest : List Int) :
    Tracks (first :: rest) 1 ⟨first, first, first⟩ := by
  refine ⟨?_, ?_, ?_⟩
  · change IsGreatest (partProducts [first]) first
    rw [partProducts_singleton]
    exact isGreatest_singleton
  · change IsGreatest (endProducts [first]) first
    rw [endProducts_singleton]
    exact isGreatest_singleton
  · change IsLeast (endProducts [first]) first
    rw [endProducts_singleton]
    exact isLeast_singleton

theorem Tracks.next {i : Nat} {products : Products} (tracks : Tracks nums i products)
    (inside : i < nums.length) :
    ∃ after, round nums products i = some after ∧ Tracks nums (i + 1) after := by
  obtain ⟨greatest, greatestAtEnd, leastAtEnd⟩ := tracks
  have isMax := isGreatest_endProducts_concat greatestAtEnd leastAtEnd nums[i]
  have isMin := isLeast_endProducts_concat greatestAtEnd leastAtEnd nums[i]
  have one : nums.take (i + 1) = nums.take i ++ [nums[i]] := (List.take_append_getElem inside).symm
  rw [round, List.getElem?_eq_getElem inside]
  refine ⟨_, rfl, ?_, one ▸ isMax, one ▸ isMin⟩
  rw [one, partProducts_concat]
  exact greatest.union isMax

/-- The first one returns the greatest product. -/
theorem maxProduct_greatest (nonempty : nums ≠ []) :
    ∃ result, maxProduct nums = some result ∧ IsGreatest (partProducts nums) result := by
  cases nums with
  | nil => exact absurd rfl nonempty
  | cons first rest =>
      obtain ⟨products, returned, tracks⟩ := @forLoop_spec _ (round (first :: rest)) 1
        ((first :: rest).length - 1) ⟨first, first, first⟩
        (fun count => Tracks (first :: rest) (1 + count)) (tracks_first first rest)
        (fun count below products tracks => by
          rw [← Nat.add_assoc]
          exact tracks.next (by omega))
      have greatest := tracks.greatest
      rw [List.take_of_length_le (by omega)] at greatest
      refine ⟨products.max_product, ?_, greatest⟩
      rw [maxProduct, returned]
      rfl

/-! ### What the second one returns -/

/-- The product from `i` to `j`. -/
def product (nums : List Int) (i j : Nat) : Int := (segment nums i (j + 1 - i)).prod

theorem product_self {i : Nat} (inside : i < nums.length) : product nums i i = nums[i] := by
  rw [product, Nat.add_sub_cancel_left, segment_succ inside]
  exact mul_one _

theorem product_succ {i j : Nat} (upTo : i ≤ j) (inside : j + 1 < nums.length) :
    product nums i (j + 1) = product nums i j * nums[j + 1] := by
  have within : i + (j + 1 - i) < nums.length := by omega
  have last : i + (j + 1 - i) = j + 1 := by omega
  rw [product, show j + 1 + 1 - i = j + 1 - i + 1 by omega, segment_concat within, List.prod_append,
    List.prod_singleton]
  simp only [last]
  rfl

/-- The products of two elements and more that begin before `i`, or at `i` and end up to `j`. -/
def seenProducts (nums : List Int) (i j : Nat) : Set Int :=
  {value | ∃ low high, low < high ∧ high < nums.length ∧ (low < i ∨ low = i ∧ high ≤ j) ∧
    product nums low high = value}

theorem seenProducts_zero (nums : List Int) : seenProducts nums 0 0 = ∅ := by
  refine Set.eq_empty_of_forall_notMem ?_
  rintro value ⟨low, high, ordered, -, seen, -⟩
  omega

theorem seenProducts_succ {i j : Nat} (upTo : i ≤ j) (inside : j + 1 < nums.length) :
    seenProducts nums i (j + 1) = insert (product nums i (j + 1)) (seenProducts nums i j) := by
  ext value
  constructor
  · rintro ⟨low, high, ordered, within, seen, rfl⟩
    by_cases new : low = i ∧ high = j + 1
    · obtain ⟨rfl, rfl⟩ := new
      exact Set.mem_insert _ _
    · exact .inr ⟨low, high, ordered, within, by omega, rfl⟩
  · rintro (rfl | ⟨low, high, ordered, within, seen, rfl⟩)
    · exact ⟨i, j + 1, by omega, inside, by omega, rfl⟩
    · exact ⟨low, high, ordered, within, by omega, rfl⟩

/-- A new row begins with nothing new. -/
theorem seenProducts_row {i j : Nat} (last : nums.length ≤ j + 1) :
    seenProducts nums (i + 1) (i + 1) = seenProducts nums i j := by
  ext value
  refine exists_congr fun low => exists_congr fun high => and_congr_right fun ordered =>
    and_congr_right fun within => and_congr_left fun _ => ?_
  omega

theorem seenProducts_all {i : Nat} (last : nums.length ≤ i) :
    seenProducts nums i i = longProducts nums := by
  ext value
  constructor
  · rintro ⟨low, high, ordered, within, -, rfl⟩
    refine ⟨segment nums low (high + 1 - low), ?_, segment_inside _ _, rfl⟩
    rw [length_segment (by omega)]
    omega
  · rintro ⟨part, long, inside, rfl⟩
    obtain ⟨low, within, is⟩ := isInfix_iff_segment.mp inside
    refine ⟨low, low + part.length - 1, by omega, by omega, .inl (by omega), ?_⟩
    rw [product, show low + part.length - 1 + 1 - low = part.length by omega, is]

/-- The rows from `i` on begin with their elements. -/
def Begun (nums : List Int) (i : Nat) (result : Grid Int) : Prop :=
  ∀ k, i ≤ k → k < nums.length → nums[k]? = some (result k k)

/-- In row `i` the table is filled up to `j`. -/
structure Filled (nums : List Int) (first : Int) (i j : Nat) (state : Grid Int × Int) : Prop where
  begun : Begun nums (i + 1) state.1
  last : state.1 i j = product nums i j
  greatest : IsGreatest (insert first (seenProducts nums i j)) state.2

theorem diagonal_begins (nums : List Int) :
    ∃ result, forLoop 0 nums.length (diagonal nums) (fun _ _ => 0) = some result ∧
      Begun nums 0 result := by
  obtain ⟨result, returned, begun⟩ := @forLoop_spec _ (diagonal nums) 0 nums.length (fun _ _ => 0)
    (fun count result => ∀ k < count, nums[k]? = some (result k k))
    (fun k below => absurd below (Nat.not_lt_zero k))
    (by
      intro count below result holds
      rw [Nat.zero_add, diagonal, List.getElem?_eq_getElem below]
      refine ⟨_, rfl, fun k upTo => ?_⟩
      by_cases new : k = count
      · subst new
        rw [Grid.set_same, List.getElem?_eq_getElem below]
      · rw [Grid.set_other _ _ (by simp [new]), holds k (by omega)])
  exact ⟨result, returned, fun k _ inside => begun k inside⟩

theorem Filled.next {i j : Nat} {state : Grid Int × Int} (filled : Filled nums first i j state)
    (upTo : i ≤ j) (inside : j + 1 < nums.length) :
    ∃ after, extend nums i state (j + 1) = some after ∧ Filled nums first i (j + 1) after := by
  obtain ⟨begun, last, greatest⟩ := filled
  rw [extend, List.getElem?_eq_getElem inside]
  refine ⟨_, rfl, fun k above within => ?_, ?_, ?_⟩
  · dsimp only
    rw [Grid.set_other _ _ (by simp; omega)]
    exact begun k above within
  · dsimp only
    rw [Grid.set_same, Nat.add_sub_cancel, last, product_succ upTo inside]
  · dsimp only
    rw [Grid.set_same, Nat.add_sub_cancel, last, ← product_succ upTo inside,
      seenProducts_succ upTo inside, Set.insert_comm]
    have best : (if product nums i (j + 1) > state.2 then product nums i (j + 1) else state.2) =
        max (product nums i (j + 1)) state.2 := by
      split <;> omega
    rw [best]
    exact greatest.insert _

/-- A row is filled to its end, and the next one begins with its element. -/
theorem row_fills {i : Nat} {state : Grid Int × Int} (inside : i < nums.length)
    (begun : Begun nums i state.1)
    (greatest : IsGreatest (insert first (seenProducts nums i i)) state.2) :
    ∃ after, row nums state i = some after ∧ Begun nums (i + 1) after.1 ∧
      IsGreatest (insert first (seenProducts nums (i + 1) (i + 1))) after.2 := by
  have first_ : Filled nums first i i state := by
    refine ⟨fun k above => begun k (by omega), ?_, greatest⟩
    have here := begun i (Nat.le_refl i) inside
    rw [List.getElem?_eq_getElem inside] at here
    rw [product_self inside, Option.some.inj here]
  obtain ⟨after, returned, filled⟩ := @forLoop_spec _ (extend nums i) (i + 1)
    (nums.length - (i + 1)) state (fun count => Filled nums first i (i + count)) first_
    (fun count below before filled => by
      rw [Nat.add_right_comm i 1 count]
      exact filled.next (Nat.le_add_right i count) (by omega))
  refine ⟨after, returned, filled.begun, ?_⟩
  rw [@seenProducts_row nums i (i + (nums.length - (i + 1))) (by omega)]
  exact filled.greatest

/-- The second one returns the first element or the greatest product of two elements and more. -/
theorem maxProduct2_greatest (first : Int) (rest : List Int) :
    ∃ result, maxProduct2 (first :: rest) = some result ∧
      IsGreatest (insert first (longProducts (first :: rest))) result := by
  obtain ⟨result, filledDiagonal, begun⟩ := diagonal_begins (first :: rest)
  obtain ⟨final, returned, -, greatest⟩ := @forLoop_spec _ (row (first :: rest)) 0
    (first :: rest).length (result, first)
    (fun i state => Begun (first :: rest) i state.1 ∧
      IsGreatest (insert first (seenProducts (first :: rest) i i)) state.2)
    ⟨begun, by
      rw [seenProducts_zero, insert_empty_eq]
      exact isGreatest_singleton⟩
    (fun i inside state holds => by
      rw [Nat.zero_add]
      exact row_fills inside holds.1 holds.2)
  rw [seenProducts_all (Nat.le_refl _)] at greatest
  refine ⟨final.2, ?_, greatest⟩
  rw [maxProduct2, filledDiagonal]
  dsimp only [Option.bind_eq_bind, Option.bind_some]
  rw [returned]
  rfl

/-! ### Both -/

/-- Both return the greatest product of consecutive elements. -/
def Greatest (nums : List Int) : Prop :=
  ∃ result, maxProduct nums = some result ∧ maxProduct2 nums = some result ∧
    IsGreatest (partProducts nums) result

/-- No element is greater than the first one and than all products of two elements and more. -/
def Covered (nums : List Int) : Prop :=
  ∀ num ∈ nums, (∃ first, nums.head? = some first ∧ num ≤ first) ∨
    ∃ product ∈ longProducts nums, num ≤ product

theorem greatest_iff_covered (nonempty : nums ≠ []) : Greatest nums ↔ Covered nums := by
  obtain ⟨result1, returned1, greatest1⟩ := maxProduct_greatest nonempty
  cases nums with
  | nil => exact absurd rfl nonempty
  | cons first rest =>
      obtain ⟨result2, returned2, greatest2⟩ := maxProduct2_greatest first rest
      constructor
      · rintro ⟨result, -, returned, -, isUpper⟩ num member
        obtain rfl := Option.some.inj (returned2.symm.trans returned)
        have atMost := isUpper (mem_partProducts_of_mem member)
        rcases greatest2.1 with rfl | long
        · exact .inl ⟨result2, rfl, atMost⟩
        · exact .inr ⟨result2, long, atMost⟩
      · intro covered
        have isUpper : result2 ∈ upperBounds (partProducts (first :: rest)) := by
          intro value member
          rcases mem_partProducts_iff.mp member with single | long
          · rcases covered value single with ⟨head, isHead, atMost⟩ | ⟨product, long, atMost⟩
            · obtain rfl := Option.some.inj isHead
              exact atMost.trans (greatest2.2 (Set.mem_insert _ _))
            · exact atMost.trans (greatest2.2 (.inr long))
          · exact greatest2.2 (.inr long)
        have isPart : result2 ∈ partProducts (first :: rest) := by
          rcases greatest2.1 with rfl | long
          · exact mem_partProducts_of_mem List.mem_cons_self
          · exact longProducts_subset _ long
        have greatest : IsGreatest (partProducts (first :: rest)) result2 := ⟨isPart, isUpper⟩
        refine ⟨result2, ?_, returned2, greatest⟩
        rw [returned1, greatest1.unique greatest]

theorem greatest_iff_covered_five : Greatest [2, 3, -2, 4, 5] := by
  refine (greatest_iff_covered (by decide)).mpr fun num member => ?_
  refine .inr ⟨20, ⟨[4, 5], by decide, ⟨[2, 3, -2], [], rfl⟩, by decide⟩, ?_⟩
  revert num
  decide

/-- The greatest product is the second element alone. -/
theorem not_greatest_zero_two : ¬Greatest [0, 2] := by
  rintro ⟨result, returned1, returned2, -⟩
  have isTwo : maxProduct [0, 2] = some 2 := rfl
  have isZero : maxProduct2 [0, 2] = some 0 := rfl
  rw [isTwo] at returned1
  rw [isZero, ← returned1] at returned2
  exact absurd returned2 (by decide)

/-! ### What a vector looks like that is not covered -/

/-- The product of elements that follow each other. -/
theorem two_mem_longProducts {i : Nat} {left right : Int} (atLeft : nums[i]? = some left)
    (atRight : nums[i + 1]? = some right) : left * right ∈ longProducts nums := by
  obtain ⟨inside, rfl⟩ := List.getElem?_eq_some_iff.mp atLeft
  obtain ⟨within, rfl⟩ := List.getElem?_eq_some_iff.mp atRight
  refine ⟨segment nums i 2, (length_segment (by omega)).ge, segment_inside i 2, ?_⟩
  rw [segment_succ inside, segment_succ within]
  exact congrArg (nums[i] * ·) (mul_one _)

theorem three_mem_longProducts {i : Nat} {left num right : Int} (atLeft : nums[i]? = some left)
    (atNum : nums[i + 1]? = some num) (atRight : nums[i + 2]? = some right) :
    left * (num * right) ∈ longProducts nums := by
  obtain ⟨inside, rfl⟩ := List.getElem?_eq_some_iff.mp atLeft
  obtain ⟨within, rfl⟩ := List.getElem?_eq_some_iff.mp atNum
  obtain ⟨behind, rfl⟩ := List.getElem?_eq_some_iff.mp atRight
  refine ⟨segment nums i 3, ?_, segment_inside i 3, ?_⟩
  · rw [length_segment (by omega)]
    decide
  · rw [segment_succ inside, segment_succ within, segment_succ behind]
    exact congrArg (fun value => nums[i] * (nums[i + 1] * value)) (mul_one _)

/-- If some element is greater than all these products, the greatest one is. -/
theorem exists_greatest_alone (notCovered : ¬Covered nums) :
    ∃ num ∈ nums, (∀ other ∈ nums, other ≤ num) ∧ (∀ first, nums.head? = some first → first < num) ∧
      ∀ product ∈ longProducts nums, product < num := by
  simp only [Covered, not_forall, not_or, not_exists, not_and, not_le] at notCovered
  obtain ⟨alone, member, aboveFirst, aboveLong⟩ := notCovered
  obtain ⟨num, isMember, greatest⟩ :=
    nums.toFinset.exists_max_image id ⟨alone, List.mem_toFinset.mpr member⟩
  have atLeast : alone ≤ num := greatest alone (List.mem_toFinset.mpr member)
  refine ⟨num, List.mem_toFinset.mp isMember, fun other inside => ?_, fun first isFirst => ?_,
    fun product long => ?_⟩
  · exact greatest other (List.mem_toFinset.mpr inside)
  · exact (aboveFirst first isFirst).trans_le atLeast
  · exact (aboveLong product long).trans_le atLeast

/-- Its greatest element is positive and not the first one, no neighbour is positive, and they are
not both negative. -/
theorem alone_of_not_covered (notCovered : ¬Covered nums) :
    ∃ i left num, nums[i]? = some left ∧ nums[i + 1]? = some num ∧ 0 < num ∧ left ≤ 0 ∧
      ∀ right, nums[i + 2]? = some right → right ≤ 0 ∧ (left = 0 ∨ right = 0) := by
  obtain ⟨num, member, greatest, aboveFirst, aboveLong⟩ := exists_greatest_alone notCovered
  obtain ⟨k, atNum⟩ := List.mem_iff_getElem?.mp member
  cases k with
  | zero => exact absurd (aboveFirst num (List.head?_eq_getElem? ▸ atNum)) (lt_irrefl num)
  | succ i =>
      have within := (List.getElem?_eq_some_iff.mp atNum).1
      obtain ⟨left, atLeft⟩ : ∃ left, nums[i]? = some left :=
        ⟨nums[i], List.getElem?_eq_getElem (by omega)⟩
      have leftMost := greatest left (List.mem_of_getElem? atLeft)
      have leftLess := aboveLong _ (two_mem_longProducts atLeft atNum)
      have positive : 0 < num := by
        by_contra notPositive
        have nonneg : 0 ≤ left * num := mul_nonneg_of_nonpos_of_nonpos (by omega) (by omega)
        omega
      have leftNonpos : left ≤ 0 := by
        by_contra isPositive
        have atLeast : num ≤ left * num := le_mul_of_one_le_left positive.le (by omega)
        omega
      refine ⟨i, left, num, atLeft, atNum, positive, leftNonpos, fun right atRight => ?_⟩
      have rightLess := aboveLong _ (two_mem_longProducts atNum atRight)
      have bothLess := aboveLong _ (three_mem_longProducts atLeft atNum atRight)
      have rightNonpos : right ≤ 0 := by
        by_contra isPositive
        have atLeast : num ≤ num * right := le_mul_of_one_le_right positive.le (by omega)
        omega
      refine ⟨rightNonpos, ?_⟩
      by_contra bothNegative
      have one : 1 ≤ left * right := by
        have swapped := mul_le_mul_of_nonpos_of_nonpos (show left ≤ -1 by omega)
          (show right ≤ -1 by omega) (by omega) (by omega)
        omega
      have atLeast : num ≤ num * (left * right) := le_mul_of_one_le_right positive.le one
      rw [mul_left_comm] at atLeast
      omega

end MaxProduct

end StdPrograms.Hobbies

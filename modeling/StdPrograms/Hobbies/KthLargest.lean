import Mathlib.Data.List.Sort
import StdPrograms.Foundation.Exchange
import StdPrograms.Foundation.SiftDown
import StdPrograms.Foundation.SignedInt

/-!
Contract: two selections of the k-th largest element with a heap.

Owns `findKthLargest`, with a heap at the front of the vector that becomes shorter, and
`findKthLargest2`, with a heap at its end, of `solution_215.cpp`, and that both select the
element as long as the index of a child fits an `int`.

Does not own what the two do with a `k` that is greater than the number of elements.
-/

namespace StdPrograms.Hobbies

open StdPrograms.Foundation

namespace KthLargest

/-! ### The heap -/

/-- The position of the greater element, `dest` when they are equal. -/
def greater (nums : List Int) (dest child : Nat) : Option Nat := do
  let value ← nums[dest]?
  let other ← nums[child]?
  return if value < other then child else dest

/-- The choice between the root and its children; only the right child may be missing. -/
def choose (nums : List Int) (size root left right : Nat) : Option Nat := do
  let dest ← greater nums root left
  if right < size then greater nums dest right else return dest

/-- The innermost loop. The heap of `findKthLargest` begins at 0, and `size` is `end + 1`. -/
def sift (s size : Nat) : Nat → List Int → Nat → Option (List Int)
  | 0, _, _ => none
  | fuel + 1, nums, root => do
      let left ← position 32 (s + (root - s) * 2 + 1)
      if left < size then
        let right ← position 32 (left + 1)
        let dest ← choose nums size root left right
        if dest = root then return nums
        else
          let nums ← exchange nums root dest
          sift s size fuel nums dest
      else return nums

/-- The loop over `m`, downwards to `s`. -/
def build (fuel s size : Nat) : Nat → List Int → Option (List Int)
  | 0, nums => some nums
  | rounds + 1, nums => do
      let nums ← sift s size fuel nums (s + rounds)
      build fuel s size rounds nums

/-! ### `findKthLargest` -/

/-- The loop over `r`. The exchange does not go well when `end` is negative. -/
def selectLast (fuel k : Nat) : Nat → List Int → Option (List Int)
  | 0, nums => some nums
  | r + 1, nums => do
      let last := converted 32 ((nums.length : Int) + (r + 1) - k - 1)
      if last < 0 then none
      else
        let nums ← build fuel 0 (last.toNat + 1) (last.toNat / 2 + 1) nums
        let nums ← exchange nums 0 last.toNat
        selectLast fuel k r nums

/-- The vector afterwards is returned with the element. -/
def findKthLargest (fuel : Nat) (nums : List Int) (k : Nat) : Option (List Int × Int) := do
  let nums ← selectLast fuel k k nums
  let found ← nums[nums.length - k]?
  return (nums, found)

/-! ### `findKthLargest2` -/

/-- The loop over `r` and `s`. -/
def selectFirst (fuel : Nat) : Nat → Nat → List Int → Option (List Int)
  | 0, _, nums => some nums
  | r + 1, s, nums => do
      let m := converted 32 ((s + (nums.length - s) / 2 : Nat) : Int)
      let nums ← build fuel s nums.length (m - s + 1).toNat nums
      selectFirst fuel r (s + 1) nums

def findKthLargest2 (fuel : Nat) (nums : List Int) (k : Nat) : Option (List Int × Int) := do
  let nums ← selectFirst fuel k 0 nums
  if k = 0 then none
  else
    let found ← nums[k - 1]?
    return (nums, found)

/-! ### Correctness of the heap -/

def entry (nums : List Int) (position : Nat) : Int := nums[position]?.getD 0

section

variable {nums before after : List Int}

theorem entry_eq {position origin : Nat} (same : after[position]? = before[origin]?) :
    entry after position = entry before origin := by
  rw [entry, entry, same]

theorem getElem?_eq_entry {position : Nat} (inside : position < nums.length) :
    nums[position]? = some (entry nums position) := by
  rw [entry, List.getElem?_eq_getElem inside, Option.getD_some]

theorem greater_spec {dest child : Nat} (destInside : dest < nums.length)
    (childInside : child < nums.length) :
    greater nums dest child =
      some (if entry nums dest < entry nums child then child else dest) := by
  rw [greater, getElem?_eq_entry destInside, getElem?_eq_entry childInside]
  rfl

theorem choose_spec {size root left right : Nat} (within : size ≤ nums.length)
    (rootBelow : root < size) (leftBelow : left < size) :
    ∃ dest, choose nums size root left right = some dest ∧
      (dest = root ∨ dest = left ∨ dest = right ∧ right < size) ∧
      entry nums root ≤ entry nums dest ∧ entry nums left ≤ entry nums dest ∧
      (right < size → entry nums right ≤ entry nums dest) := by
  rw [choose, greater_spec (by omega) (by omega), Option.bind_eq_bind, Option.bind_some]
  generalize firstIs : (if entry nums root < entry nums left then left else root) = dest
  have first : (dest = root ∨ dest = left) ∧ entry nums root ≤ entry nums dest ∧
      entry nums left ≤ entry nums dest := by
    rw [← firstIs]
    split
    next less => exact ⟨Or.inr rfl, less.le, le_refl _⟩
    next notLess => exact ⟨Or.inl rfl, le_refl _, not_lt.mp notLess⟩
  obtain ⟨origin, rootLe, leftLe⟩ := first
  have destBelow : dest < size := by omega
  by_cases present : right < size
  · rw [if_pos present, greater_spec (by omega) (by omega)]
    split
    next less =>
      exact ⟨right, rfl, Or.inr (Or.inr ⟨rfl, present⟩), rootLe.trans less.le,
        leftLe.trans less.le, fun _ => le_refl _⟩
    next notLess =>
      exact ⟨dest, rfl, by omega, rootLe, leftLe, fun _ => not_lt.mp notLess⟩
  · rw [if_neg present]
    exact ⟨dest, rfl, by omega, rootLe, leftLe, fun inside => absurd inside present⟩

theorem sift_spec {s size first : Nat} (short : size ≤ 2 ^ 30) {fuel : Nat}
    (within : size ≤ nums.length) {root : Nat} (reached : s ≤ root) (behind : first ≤ root)
    (rootBelow : root < size) (sifting : Sifting s size (entry nums) first root)
    (enough : size < fuel + root + 1) :
    ∃ after, sift s size fuel nums root = some after ∧ Rearranged s size nums after ∧
      HeapFrom s size (entry after) first := by
  induction fuel generalizing nums root with
  | zero => omega
  | succ fuel inductionHypothesis =>
      rw [sift, position_of_lt (by omega), Option.bind_eq_bind, Option.bind_some]
      generalize leftIs : s + (root - s) * 2 + 1 = left
      by_cases leftBelow : left < size
      · rw [if_pos leftBelow, position_of_lt (by omega), Option.bind_some]
        obtain ⟨dest, chosen, origin, rootLe, leftLe, rightLe⟩ :=
          @choose_spec nums size root left (left + 1) within rootBelow leftBelow
        have greatest : ∀ index, s < index → index < size → above s index = root →
            entry nums index ≤ entry nums dest := by
          intro index inside below under
          rcases (above_eq_iff inside reached).mp under with isLeft | isRight
          · rw [isLeft, leftIs]
            exact leftLe
          · rw [isRight, leftIs] at below ⊢
            exact rightLe below
        rw [chosen, Option.bind_some]
        by_cases settled : dest = root
        · rw [if_pos settled]
          subst settled
          exact ⟨nums, rfl, .refl s size nums, sifting.heapFrom greatest⟩
        · rw [if_neg settled]
          have destBelow : dest < size := by omega
          have destInside : s < dest := by omega
          have destUnder : above s dest = root :=
            (above_eq_iff destInside reached).mpr (by omega)
          obtain ⟨swapped, swappedIs, permutation, entries⟩ :=
            @exchange_spec _ nums root dest (by omega) (by omega)
          have rearranged : Rearranged s size nums swapped :=
            .of_swap permutation entries reached rootBelow destInside.le destBelow
          have sunk : Sifting s size (entry swapped) first dest :=
            sifting.sink reached behind destInside destBelow destUnder rootLe greatest
              (fun index => entry_eq (entries index))
          obtain ⟨after, afterIs, others, heap⟩ :=
            @inductionHypothesis swapped (by rw [rearranged.length_eq]; exact within) dest
              destInside.le (by omega) destBelow sunk (by omega)
          refine ⟨after, ?_, rearranged.trans others, heap⟩
          rw [swappedIs]
          exact afterIs
      · rw [if_neg leftBelow]
        refine ⟨nums, rfl, .refl s size nums, sifting.heapFrom fun index inside below under => ?_⟩
        have childIs := (above_eq_iff inside reached).mp under
        omega

theorem build_spec {s size fuel : Nat} (short : size ≤ 2 ^ 30) (enough : size < fuel)
    (rounds : Nat) (fits : s + rounds ≤ size) (within : size ≤ nums.length)
    (heap : HeapFrom s size (entry nums) (s + rounds)) :
    ∃ after, build fuel s size rounds nums = some after ∧ Rearranged s size nums after ∧
      HeapFrom s size (entry after) s := by
  induction rounds generalizing nums with
  | zero => exact ⟨nums, rfl, .refl s size nums, heap⟩
  | succ rounds inductionHypothesis =>
      obtain ⟨between, betweenIs, rearranged, heapBetween⟩ :=
        @sift_spec nums s size (s + rounds) short fuel within (s + rounds) (Nat.le_add_right s rounds)
          (le_refl _) (by omega) heap.sifting (by omega)
      obtain ⟨after, afterIs, others, heapAfter⟩ :=
        @inductionHypothesis between (by omega) (by rw [rearranged.length_eq]; exact within)
          heapBetween
      refine ⟨after, ?_, rearranged.trans others, heapAfter⟩
      rw [build, betweenIs]
      exact afterIs

/-- A heap is built from the last node that may have a child. -/
theorem build_heap {s size fuel rounds : Nat} (short : size ≤ 2 ^ 30) (enough : size < fuel)
    (within : size ≤ nums.length) (fits : s + rounds ≤ size)
    (halved : size ≤ s + 2 * rounds + 1) :
    ∃ after, build fuel s size rounds nums = some after ∧ Rearranged s size nums after ∧
      ∀ index, s ≤ index → index < size → entry after index ≤ entry after s := by
  have leaves : ∀ index, s < index → index < size → above s index < s + rounds := by
    intro index inside below
    unfold above parent
    omega
  obtain ⟨after, afterIs, rearranged, heap⟩ :=
    build_spec short enough rounds fits within (heapFrom_leaves leaves)
  exact ⟨after, afterIs, rearranged, fun index inside below => heap.le_root inside below⟩

end

/-! ### The elements that are found -/

/-- The last `found` elements are in order, and none before them is greater. -/
def LastFound (found : Nat) (nums : List Int) : Prop :=
  ∀ p q, p ≤ q → nums.length - found ≤ q → q < nums.length → entry nums p ≤ entry nums q

/-- The first `found` elements are in descending order, and none behind them is greater. -/
def FirstFound (found : Nat) (nums : List Int) : Prop :=
  ∀ p q, p < found → p ≤ q → q < nums.length → entry nums q ≤ entry nums p

section

variable {nums after : List Int}

theorem LastFound.rearranged {found last : Nat}
    (nextIs : last + found + 1 = nums.length) (lastFound : LastFound found nums)
    (rearranged : Rearranged 0 (last + 1) nums after)
    (greatest : ∀ index, index ≤ last → entry after index ≤ entry after last) :
    LastFound (found + 1) after := by
  intro p q ordered behind below
  rw [rearranged.length_eq] at behind below
  by_cases isLast : q = last
  · rw [isLast]
    exact greatest p (by omega)
  · have qSame : entry after q = entry nums q :=
      entry_eq (rearranged.outside q (Or.inr (by omega)))
    rw [qSame]
    by_cases inHeap : p < last + 1
    · obtain ⟨origin, _, originBelow, fromOrigin⟩ := rearranged.inside p (Nat.zero_le p) inHeap
      rw [entry_eq fromOrigin]
      exact lastFound origin q (by omega) (by omega) below
    · rw [entry_eq (rearranged.outside p (Or.inr (by omega)))]
      exact lastFound p q ordered (by omega) below

theorem FirstFound.rearranged {s : Nat} (firstFound : FirstFound s nums)
    (rearranged : Rearranged s nums.length nums after)
    (greatest : ∀ index, s ≤ index → index < nums.length → entry after index ≤ entry after s) :
    FirstFound (s + 1) after := by
  intro p q found ordered below
  rw [rearranged.length_eq] at below
  by_cases isRoot : p = s
  · rw [isRoot]
    exact greatest q (by omega) below
  · rw [entry_eq (rearranged.outside p (Or.inl (by omega)))]
    by_cases inHeap : s ≤ q
    · obtain ⟨origin, originAbove, originBelow, fromOrigin⟩ := rearranged.inside q inHeap below
      rw [entry_eq fromOrigin]
      exact firstFound p origin (by omega) (by omega) originBelow
    · rw [entry_eq (rearranged.outside q (Or.inl (by omega)))]
      exact firstFound p q (by omega) ordered below

/-- A round of `findKthLargest`: the heap, and its root exchanged with the last element. -/
theorem last_round {fuel found last : Nat} (counted : nums.length ≤ 2 ^ 30)
    (enough : nums.length < fuel) (nextIs : last + found + 1 = nums.length)
    (lastFound : LastFound found nums) :
    ∃ heap swapped, build fuel 0 (last + 1) (last / 2 + 1) nums = some heap ∧
      exchange heap 0 last = some swapped ∧ swapped.Perm nums ∧
      LastFound (found + 1) swapped := by
  obtain ⟨heap, heapIs, heapRearranged, root⟩ :=
    @build_heap nums 0 (last + 1) fuel (last / 2 + 1) (by omega) (by omega) (by omega)
      (by omega) (by omega)
  have heapLength := heapRearranged.length_eq
  obtain ⟨swapped, swappedIs, permutation, entries⟩ :=
    @exchange_spec _ heap 0 last (by omega) (by omega)
  have exchanged : Rearranged 0 (last + 1) heap swapped :=
    .of_swap permutation entries (le_refl 0) (by omega) (Nat.zero_le last) (Nat.lt_succ_self last)
  have rearranged := heapRearranged.trans exchanged
  have lastEntry : entry swapped last = entry heap 0 := by
    rw [entry_eq (entries last), Equiv.swap_apply_right]
  refine ⟨heap, swapped, heapIs, swappedIs, rearranged.permutation,
    lastFound.rearranged nextIs rearranged fun index upTo => ?_⟩
  obtain ⟨origin, _, originBelow, fromOrigin⟩ :=
    exchanged.inside index (Nat.zero_le index) (Nat.lt_succ_of_le upTo)
  rw [lastEntry, entry_eq fromOrigin]
  exact root origin (Nat.zero_le origin) originBelow

theorem selectLast_spec {fuel k r : Nat} (counted : nums.length ≤ 2 ^ 30)
    (enough : nums.length < fuel) (within : k ≤ nums.length) (rounds : r ≤ k)
    (lastFound : LastFound (k - r) nums) :
    ∃ after, selectLast fuel k r nums = some after ∧ after.Perm nums ∧ LastFound k after := by
  induction r generalizing nums with
  | zero => exact ⟨nums, rfl, .refl nums, lastFound⟩
  | succ r inductionHypothesis =>
      obtain ⟨last, lastIs⟩ : ∃ last, last + (k - (r + 1)) + 1 = nums.length :=
        ⟨nums.length - 1 - (k - (r + 1)), by omega⟩
      have endIs : converted 32 ((nums.length : Int) + ((r : Int) + 1) - k - 1) = last := by
        have difference : (nums.length : Int) + ((r : Int) + 1) - k - 1 = last := by omega
        rw [difference, converted_natCast (by decide) (by omega)]
      obtain ⟨heap, swapped, heapIs, swappedIs, permutation, foundNext⟩ :=
        last_round counted enough lastIs lastFound
      have oneMore : k - (r + 1) + 1 = k - r := by omega
      rw [oneMore] at foundNext
      have swappedLength := permutation.length_eq
      obtain ⟨after, afterIs, afterPermutation, afterFound⟩ :=
        @inductionHypothesis swapped (by omega) (by omega) (by omega) (by omega) foundNext
      refine ⟨after, ?_, afterPermutation.trans permutation, afterFound⟩
      have notNegative : ¬ (last : Int) < 0 := by omega
      simp only [selectLast, endIs, notNegative, ↓reduceIte, Int.toNat_natCast, heapIs, swappedIs,
        Option.bind_eq_bind, Option.bind_some]
      exact afterIs

theorem selectFirst_spec {fuel r s : Nat} (counted : nums.length ≤ 2 ^ 30)
    (enough : nums.length < fuel) (within : r + s ≤ nums.length)
    (firstFound : FirstFound s nums) :
    ∃ after, selectFirst fuel r s nums = some after ∧ after.Perm nums ∧
      FirstFound (r + s) after := by
  induction r generalizing nums s with
  | zero =>
      rw [Nat.zero_add]
      exact ⟨nums, rfl, .refl nums, firstFound⟩
  | succ r inductionHypothesis =>
      obtain ⟨heap, heapIs, rearranged, root⟩ :=
        @build_heap nums s nums.length fuel ((nums.length - s) / 2 + 1) (by omega) (by omega)
          (le_refl _) (by omega) (by omega)
      have roundsAre : (converted 32 ((s + (nums.length - s) / 2 : Nat) : Int) - s + 1).toNat =
          (nums.length - s) / 2 + 1 := by
        rw [converted_natCast (by decide) (by omega)]
        omega
      have heapLength := rearranged.length_eq
      obtain ⟨after, afterIs, afterPermutation, afterFound⟩ :=
        @inductionHypothesis heap (s + 1) (by omega) (by omega) (by omega)
          (firstFound.rearranged rearranged root)
      refine ⟨after, ?_, afterPermutation.trans rearranged.permutation, ?_⟩
      · rw [selectFirst]
        simp only [roundsAre, heapIs, Option.bind_eq_bind, Option.bind_some]
        exact afterIs
      · rwa [Nat.add_right_comm, Nat.add_assoc]

end

/-! ### The element that is returned -/

/-- The element at position `k`, counted from 1, in descending order. -/
def kthLargest (nums : List Int) (k : Nat) : Option Int :=
  (nums.mergeSort fun left right => decide (right ≤ left))[k - 1]?

section

variable {nums after : List Int} {k : Nat}

theorem kthLargest_of_split {chosen rest : List Int} (permutation : (chosen ++ rest).Perm nums)
    (descending : chosen.Pairwise fun left right => right ≤ left)
    (upper : ∀ value ∈ chosen, ∀ other ∈ rest, other ≤ value) (positive : 0 < chosen.length) :
    kthLargest nums chosen.length = chosen[chosen.length - 1]? := by
  have order : ∀ elements : List Int, (elements.mergeSort fun left right =>
      decide (right ≤ left)).Pairwise fun left right => right ≤ left := by
    intro elements
    have sorted := @List.pairwise_mergeSort Int (fun left right => decide (right ≤ left))
      (by simpa using fun _ _ _ low high => Int.le_trans high low)
      (by simpa using fun left right => Int.le_total right left) elements
    simpa using sorted
  have restPermutation := List.mergeSort_perm rest fun left right => decide (right ≤ left)
  have sortedIs : (nums.mergeSort fun left right => decide (right ≤ left)) =
      chosen ++ rest.mergeSort fun left right => decide (right ≤ left) := by
    refine List.Perm.eq_of_pairwise (fun _ _ _ _ low high => Int.le_antisymm high low)
      (order nums) (List.pairwise_append.mpr ⟨descending, order rest, ?_⟩) ?_
    · intro value member other otherMember
      exact upper value member other (restPermutation.mem_iff.mp otherMember)
    · exact (List.mergeSort_perm nums _).trans
        (permutation.symm.trans (restPermutation.symm.append_left chosen))
  rw [kthLargest, sortedIs, List.getElem?_append_left (by omega)]

theorem getElem_eq_entry {position : Nat} (inside : position < nums.length) :
    nums[position] = entry nums position := by
  rw [entry, List.getElem?_eq_getElem inside, Option.getD_some]

theorem kthLargest_of_lastFound (positive : 1 ≤ k) (within : k ≤ after.length)
    (permutation : after.Perm nums) (lastFound : LastFound k after) :
    kthLargest nums k = after[after.length - k]? := by
  have dropped : (after.drop (after.length - k)).reverse.length = k := by
    rw [List.length_reverse, List.length_drop]
    omega
  have split := @kthLargest_of_split nums (after.drop (after.length - k)).reverse
    (after.take (after.length - k)) ?_ ?_ ?_ (by omega)
  · rw [dropped] at split
    rw [split, List.getElem?_reverse (by rw [List.length_drop]; omega), List.getElem?_drop]
    congr 1
    rw [List.length_drop]
    omega
  · have parts := (List.reverse_perm (after.drop (after.length - k))).append_right
      (after.take (after.length - k))
    have whole := @List.perm_append_comm _ (after.drop (after.length - k))
      (after.take (after.length - k))
    rw [List.take_append_drop] at whole
    exact parts.trans (whole.trans permutation)
  · rw [List.pairwise_reverse, List.pairwise_iff_getElem]
    intro i j iInside jInside ordered
    rw [List.length_drop] at iInside jInside
    rw [List.getElem_drop, List.getElem_drop, getElem_eq_entry, getElem_eq_entry]
    exact lastFound _ _ (by omega) (by omega) (by omega)
  · intro value member other otherMember
    obtain ⟨i, iInside, rfl⟩ := List.mem_drop_iff_getElem.mp (List.mem_reverse.mp member)
    obtain ⟨j, jInside, rfl⟩ := List.mem_take_iff_getElem.mp otherMember
    rw [getElem_eq_entry, getElem_eq_entry]
    exact lastFound _ _ (by omega) (by omega) (by omega)

theorem kthLargest_of_firstFound (positive : 1 ≤ k) (within : k ≤ after.length)
    (permutation : after.Perm nums) (firstFound : FirstFound k after) :
    kthLargest nums k = after[k - 1]? := by
  have taken : (after.take k).length = k := by
    rw [List.length_take]
    omega
  have split := @kthLargest_of_split nums (after.take k) (after.drop k) ?_ ?_ ?_ (by omega)
  · rw [taken] at split
    rw [split, List.getElem?_take_of_lt (by omega)]
  · rwa [List.take_append_drop]
  · rw [List.pairwise_iff_getElem]
    intro i j iInside jInside ordered
    rw [List.length_take] at iInside jInside
    rw [List.getElem_take, List.getElem_take, getElem_eq_entry, getElem_eq_entry]
    exact firstFound _ _ (by omega) (by omega) (by omega)
  · intro value member other otherMember
    obtain ⟨i, iInside, rfl⟩ := List.mem_take_iff_getElem.mp member
    obtain ⟨j, jInside, rfl⟩ := List.mem_drop_iff_getElem.mp otherMember
    rw [getElem_eq_entry, getElem_eq_entry]
    exact firstFound _ _ (by omega) (by omega) (by omega)

end

theorem findKthLargest_spec {nums : List Int} {k fuel : Nat} (positive : 1 ≤ k)
    (within : k ≤ nums.length) (counted : nums.length ≤ 2 ^ 30) (enough : nums.length < fuel) :
    ∃ after found, findKthLargest fuel nums k = some (after, found) ∧ after.Perm nums ∧
      kthLargest nums k = some found := by
  have none : LastFound (k - k) nums := fun p q _ behind below => by omega
  obtain ⟨after, afterIs, permutation, lastFound⟩ :=
    selectLast_spec counted enough within (le_refl k) none
  have length := permutation.length_eq
  have selected := kthLargest_of_lastFound positive (by omega) permutation lastFound
  rw [getElem?_eq_entry (by omega)] at selected
  refine ⟨after, _, ?_, permutation, selected⟩
  rw [findKthLargest, afterIs, Option.bind_eq_bind, Option.bind_some,
    getElem?_eq_entry (by omega)]
  rfl

theorem findKthLargest2_spec {nums : List Int} {k fuel : Nat} (positive : 1 ≤ k)
    (within : k ≤ nums.length) (counted : nums.length ≤ 2 ^ 30) (enough : nums.length < fuel) :
    ∃ after found, findKthLargest2 fuel nums k = some (after, found) ∧ after.Perm nums ∧
      kthLargest nums k = some found := by
  have none : FirstFound 0 nums := fun p q found _ _ => absurd found (Nat.not_lt_zero p)
  obtain ⟨after, afterIs, permutation, firstFound⟩ :=
    @selectFirst_spec nums fuel k 0 counted enough within none
  have length := permutation.length_eq
  have selected := kthLargest_of_firstFound positive (by omega) permutation firstFound
  rw [getElem?_eq_entry (by omega)] at selected
  have nonzero : k ≠ 0 := by omega
  refine ⟨after, _, ?_, permutation, selected⟩
  rw [findKthLargest2, afterIs, Option.bind_eq_bind, Option.bind_some, if_neg nonzero,
    getElem?_eq_entry (by omega)]
  rfl

/-- Both select the k-th largest element and keep the elements, when the vector has at most 2^30
of them. -/
theorem findKthLargest_both {nums : List Int} {k : Nat} (positive : 1 ≤ k)
    (within : k ≤ nums.length) (counted : nums.length ≤ 2 ^ 30) :
    ∃ found, kthLargest nums k = some found ∧ ∀ fuel, nums.length < fuel →
      (∃ after, findKthLargest fuel nums k = some (after, found) ∧ after.Perm nums) ∧
        ∃ after, findKthLargest2 fuel nums k = some (after, found) ∧ after.Perm nums := by
  obtain ⟨_, found, _, _, foundIs⟩ :=
    findKthLargest_spec positive within counted (Nat.lt_succ_self nums.length)
  refine ⟨found, foundIs, fun fuel enough => ⟨?_, ?_⟩⟩
  · obtain ⟨after, same, afterIs, permutation, sameIs⟩ :=
      findKthLargest_spec positive within counted enough
    obtain rfl := Option.some.inj (foundIs.symm.trans sameIs)
    exact ⟨after, afterIs, permutation⟩
  · obtain ⟨after, same, afterIs, permutation, sameIs⟩ :=
      findKthLargest2_spec positive within counted enough
    obtain rfl := Option.some.inj (foundIs.symm.trans sameIs)
    exact ⟨after, afterIs, permutation⟩

theorem findKthLargest_both_three :
    ∃ found, kthLargest [-1, 2, 0] 2 = some found ∧ ∀ fuel, 3 < fuel →
      (∃ after, findKthLargest fuel [-1, 2, 0] 2 = some (after, found) ∧
        after.Perm [-1, 2, 0]) ∧
        ∃ after, findKthLargest2 fuel [-1, 2, 0] 2 = some (after, found) ∧
          after.Perm [-1, 2, 0] :=
  findKthLargest_both (by decide) (by decide) (by decide)

/-! ### One element more -/

def zerosThenOne (count : Nat) : List Int := List.replicate count 0 ++ [1]

theorem length_zerosThenOne (count : Nat) : (zerosThenOne count).length = count + 1 := by
  rw [zerosThenOne, List.length_append, List.length_replicate, List.length_singleton]

theorem entry_zerosThenOne {count position : Nat} (before : position < count) :
    entry (zerosThenOne count) position = 0 := by
  rw [entry, zerosThenOne, List.getElem?_append_left (by rwa [List.length_replicate]),
    List.getElem?_replicate, if_pos before, Option.getD_some]

theorem entry_zerosThenOne_last (count : Nat) : entry (zerosThenOne count) count = 1 := by
  rw [entry, zerosThenOne, List.getElem?_append_right (by rw [List.length_replicate]),
    List.length_replicate, Nat.sub_self, List.getElem?_cons_zero, Option.getD_some]

theorem sift_overflows {s size root : Nat} (large : 2 ^ 31 ≤ s + (root - s) * 2 + 1) (fuel : Nat)
    (nums : List Int) : sift s size fuel nums root = none := by
  cases fuel with
  | zero => rfl
  | succ fuel =>
      rw [sift, position, if_neg (by omega)]
      rfl

/-- The last element rises from the last parent, and the index below its old place overflows. -/
theorem sift_lastParent {count deep : Nat} (countIs : count = 2 ^ 30) (deepIs : deep + 1 = 2 ^ 29)
    (fuel : Nat) : sift 0 (count + 1) fuel (zerosThenOne count) deep = none := by
  have length := length_zerosThenOne count
  cases fuel with
  | zero => rfl
  | succ fuel =>
      have leftIs : 0 + (deep - 0) * 2 + 1 = count - 1 := by omega
      have rightIs : count - 1 + 1 = count := by omega
      have chosen : choose (zerosThenOne count) (count + 1) deep (count - 1) count =
          some count := by
        rw [choose, greater_spec (by omega) (by omega), entry_zerosThenOne (by omega),
          entry_zerosThenOne (by omega), Option.bind_eq_bind, Option.bind_some,
          if_neg (Int.lt_irrefl 0), if_pos (Nat.lt_succ_self count),
          greater_spec (by omega) (by omega), entry_zerosThenOne (by omega),
          entry_zerosThenOne_last, if_pos Int.zero_lt_one]
      obtain ⟨swapped, swappedIs, _⟩ :=
        @exchange_spec _ (zerosThenOne count) deep count (by omega) (by omega)
      have differs : ¬ count = deep := by omega
      have below : count - 1 < count + 1 := by omega
      rw [sift, leftIs, position_of_lt (by omega), Option.bind_eq_bind, Option.bind_some,
        if_pos below, rightIs, position_of_lt (by omega), Option.bind_some, chosen,
        Option.bind_some, if_neg differs, swappedIs]
      exact sift_overflows (by omega) fuel swapped

theorem build_zerosThenOne {count : Nat} (countIs : count = 2 ^ 30) (fuel : Nat) :
    build fuel 0 (count + 1) (2 ^ 29 + 1) (zerosThenOne count) = none := by
  obtain ⟨deep, deepIs⟩ : ∃ deep, deep + 1 = 2 ^ 29 := ⟨2 ^ 29 - 1, by omega⟩
  rw [← deepIs, build, Nat.zero_add]
  cases fuel with
  | zero => rfl
  | succ fuel =>
      have childless : ¬ 0 + (deep + 1 - 0) * 2 + 1 < count + 1 := by omega
      have leaf : sift 0 (count + 1) (fuel + 1) (zerosThenOne count) (deep + 1) =
          some (zerosThenOne count) := by
        rw [sift, position_of_lt (by omega), Option.bind_eq_bind, Option.bind_some,
          if_neg childless]
        rfl
      rw [leaf, Option.bind_eq_bind, Option.bind_some, build, Nat.zero_add,
        sift_lastParent countIs deepIs]
      rfl

theorem findKthLargest_zerosThenOne {count : Nat} (countIs : count = 2 ^ 30) (fuel : Nat) :
    findKthLargest fuel (zerosThenOne count) 1 = none := by
  have length := length_zerosThenOne count
  have endIs : converted 32
      (((zerosThenOne count).length : Int) + ((0 : Nat) + 1) - (1 : Nat) - 1) = count := by
    have difference :
        ((zerosThenOne count).length : Int) + ((0 : Nat) + 1) - (1 : Nat) - 1 = count := by omega
    rw [difference, converted_natCast (by decide) (by omega)]
  have notNegative : ¬ (count : Int) < 0 := by omega
  have roundsAre : count / 2 + 1 = 2 ^ 29 + 1 := by omega
  simp only [findKthLargest, selectLast, endIs, notNegative, ↓reduceIte, Int.toNat_natCast,
    roundsAre, build_zerosThenOne countIs, Option.bind_eq_bind, Option.bind_none]

theorem findKthLargest2_zerosThenOne {count : Nat} (countIs : count = 2 ^ 30) (fuel : Nat) :
    findKthLargest2 fuel (zerosThenOne count) 1 = none := by
  have length := length_zerosThenOne count
  have roundsAre : (converted 32 ((0 + ((zerosThenOne count).length - 0) / 2 : Nat) : Int) -
      (0 : Nat) + 1).toNat = 2 ^ 29 + 1 := by
    rw [converted_natCast (by decide) (by omega)]
    omega
  simp only [findKthLargest2, selectFirst, roundsAre]
  rw [length, build_zerosThenOne countIs]
  rfl

/-- With 2^30 zeros and a one, the index of a child overflows in both. -/
theorem findKthLargest_overflows :
    (zerosThenOne (2 ^ 30)).length = 2 ^ 30 + 1 ∧
      ∀ fuel, findKthLargest fuel (zerosThenOne (2 ^ 30)) 1 = none ∧
        findKthLargest2 fuel (zerosThenOne (2 ^ 30)) 1 = none :=
  ⟨length_zerosThenOne (2 ^ 30), fun fuel =>
    ⟨findKthLargest_zerosThenOne rfl fuel, findKthLargest2_zerosThenOne rfl fuel⟩⟩

end KthLargest

end StdPrograms.Hobbies

import Mathlib.Data.List.Sort
import Mathlib.Data.Set.Insert
import StdPrograms.Foundation.SignedInt
import StdPrograms.Foundation.Sorting
import StdPrograms.Foundation.TwoPointers

/-!
Contract: three elements whose sum is closest to a number.

Owns `threeSumClosest` of `solution_16.cpp`, with the sums, distances and indices of type `int`,
and when one of these is too small a type.

Does not own the sum of fewer than three elements.
-/

namespace StdPrograms.Hobbies

open StdPrograms.Foundation

namespace ThreeSumClosest

/-- The two variables that the loops share. -/
structure Best where
  closest : Int
  ans : Int

/-- `nums[first] + nums[second] + nums[third]` -/
def tripleSum (nums : List Int) (first second third : Nat) : Option Int := do
  let sum ← signed 32 ((← nums[first]?) + (← nums[second]?))
  signed 32 (sum + (← nums[third]?))

/-- `abs(tmp - target)` -/
def distance (tmp target : Int) : Option Int := do
  signed 32 |← signed 32 (tmp - target)|

/-- The loop over `second` and `third`: the sum that it returns, or the two variables behind
it. -/
def pairLoop (nums : List Int) (target : Int) (first : Nat) :
    Nat → Nat → Nat → Best → Option (Int ⊕ Best)
  | 0, _, _, _ => none
  | fuel + 1, second, third, best =>
      if second < third then do
        let tmp ← tripleSum nums first second third
        if tmp = target then return Sum.inl tmp
        else
          let far ← distance tmp target
          let best := if far < best.ans then ⟨tmp, far⟩ else best
          if tmp < target then pairLoop nums target first fuel (second + 1) third best
          else pairLoop nums target first fuel second (third - 1) best
      else some (Sum.inr best)

/-- The first value of `third`; as no element is before the first, a negative one is as good as
zero. -/
def lastIndex (nums : List Int) : Nat :=
  (converted 32 ((nums.length : Int) - 1)).toNat

/-- The loop over `first`, with the number of rounds that are left. -/
def firstLoop (nums : List Int) (target : Int) : Nat → Nat → Best → Option Int
  | 0, _, best => some best.closest
  | rounds + 1, first, best => do
      match ← pairLoop nums target first (nums.length + 1) (first + 1) (lastIndex nums) best with
      | Sum.inl tmp => return tmp
      | Sum.inr best =>
          let next ← position 32 (first + 1)
          firstLoop nums target rounds next best

/-- The elements are left sorted. -/
def threeSumClosest (nums : List Int) (target : Int) : Option (List Int × Int) := do
  let nums := nums.mergeSort fun left right => decide (left ≤ right)
  if nums.length < 3 then
    let sum ← nums.foldlM (fun sum value => signed 32 (sum + value)) 0
    return (nums, sum)
  else
    let ans := 2 ^ 31 - 1
    let closest ← firstLoop nums target (nums.length - 2) 0 ⟨ans, ans⟩
    return (nums, closest)

/-! ### Sums of three elements -/

/-- The sums with an element and a pair of later ones. -/
def sumsAt (nums : List Int) (first low high : Nat) : Set Int :=
  {sum | ∃ a b c, nums[first]? = some a ∧ Pair nums low high b c ∧ a + b + c = sum}

def sumsFrom (nums : List Int) (start : Nat) : Set Int :=
  {sum | ∃ a b c, [a, b, c].Sublist (nums.drop start) ∧ a + b + c = sum}

theorem sumsFrom_eq (nums : List Int) (start : Nat) :
    sumsFrom nums start =
      sumsAt nums start (start + 1) (nums.length - 1) ∪ sumsFrom nums (start + 1) := by
  ext sum
  constructor
  · rintro ⟨a, b, c, chosen, sumIs⟩
    obtain ⟨place, above, firstIs, behind⟩ := cons_sublist_drop_iff.mp chosen
    rcases Nat.lt_or_eq_of_le above with later | rfl
    · exact Or.inr ⟨a, b, c, cons_sublist_drop_iff.mpr ⟨place, later, firstIs, behind⟩, sumIs⟩
    · exact Or.inl ⟨a, b, c, firstIs, pair_iff_sublist.mpr behind, sumIs⟩
  · rintro (⟨a, b, c, firstIs, pair, sumIs⟩ | ⟨a, b, c, chosen, sumIs⟩)
    · refine ⟨a, b, c, cons_sublist_drop_iff.mpr ⟨start, Nat.le_refl start, firstIs, ?_⟩, sumIs⟩
      exact pair_iff_sublist.mp pair
    · exact ⟨a, b, c, chosen.trans (List.drop_sublist_drop_left nums (Nat.le_succ start)), sumIs⟩

/-- What `closest` and `ans` say about the sums up to now. -/
structure Records (target : Int) (sums : Set Int) (best : Best) : Prop where
  reached : best.ans = 2 ^ 31 - 1 ∨
    best.closest ∈ sums ∧ best.ans = |best.closest - target|
  least : ∀ sum ∈ sums, best.ans ≤ |sum - target|

section

variable {target : Int} {sums : Set Int} {best : Best}

theorem records_empty (target closest : Int) : Records target ∅ ⟨closest, 2 ^ 31 - 1⟩ :=
  ⟨Or.inl rfl, fun _ member => absurd member (Set.notMem_empty _)⟩

theorem Records.update (records : Records target sums best) (tmp : Int) :
    Records target (insert tmp sums)
      (if |tmp - target| < best.ans then ⟨tmp, |tmp - target|⟩ else best) := by
  split
  next closer =>
    refine ⟨Or.inr ⟨Set.mem_insert tmp sums, rfl⟩, fun sum member => ?_⟩
    rcases Set.mem_insert_iff.mp member with rfl | earlier
    · exact le_refl _
    · exact le_trans (le_of_lt closer) (records.least sum earlier)
  next farther =>
    refine ⟨records.reached.imp_right fun ⟨member, is_⟩ => ⟨Set.mem_insert_of_mem tmp member, is_⟩,
      fun sum member => ?_⟩
    rcases Set.mem_insert_iff.mp member with rfl | earlier
    · exact not_lt.mp farther
    · exact records.least sum earlier

/-- Sums that are no closer than the ones up to now may be passed over. -/
theorem Records.widen (records : Records target sums best) {wider : Set Int}
    (contains : sums ⊆ wider)
    (noCloser : ∀ sum ∈ wider, ∃ other ∈ sums, |other - target| ≤ |sum - target|) :
    Records target wider best := by
  refine ⟨records.reached.imp_right fun ⟨member, is_⟩ => ⟨contains member, is_⟩,
    fun sum member => ?_⟩
  obtain ⟨other, otherMember, closer⟩ := noCloser sum member
  exact le_trans (records.least other otherMember) closer

end

/-- What a loop over some sums leaves, after earlier ones. -/
def Swept (target : Int) (earlier sums : Set Int) : Int ⊕ Best → Prop
  | Sum.inl tmp => tmp = target ∧ tmp ∈ sums
  | Sum.inr best => Records target (earlier ∪ sums) best

theorem Swept.widen {target tmp : Int} {earlier fewer sums : Set Int} {result : Int ⊕ Best}
    (swept : Swept target (insert tmp earlier) fewer result) (member : tmp ∈ sums)
    (contains : fewer ⊆ sums)
    (noCloser : ∀ sum ∈ sums, sum ∈ fewer ∨ |tmp - target| ≤ |sum - target|) :
    Swept target earlier sums result := by
  cases result with
  | inl returned => exact ⟨swept.1, contains swept.2⟩
  | inr best =>
      have records : Records target (insert tmp earlier ∪ fewer) best := swept
      refine records.widen ?_ fun sum inWider => ?_
      · rintro sum ((rfl | inEarlier) | inFewer)
        · exact Or.inr member
        · exact Or.inl inEarlier
        · exact Or.inr (contains inFewer)
      · rcases inWider with inEarlier | inSums
        · exact ⟨sum, Or.inl (Set.mem_insert_of_mem tmp inEarlier), le_refl _⟩
        · rcases noCloser sum inSums with inFewer | closer
          · exact ⟨sum, Or.inr inFewer, le_refl _⟩
          · exact ⟨tmp, Or.inl (Set.mem_insert tmp earlier), closer⟩

/-! ### The sweep -/

/-- No addition or distance overflows. -/
def Fits (nums : List Int) (target : Int) : Prop :=
  ∀ a b c, [a, b, c].Sublist nums → InSigned 32 (a + b) ∧ InSigned 32 (a + b + c) ∧
    |a + b + c - target| < 2 ^ 31 - 1

theorem distance_eq {tmp target : Int} (small : |tmp - target| < 2 ^ 31 - 1) :
    distance tmp target = some |tmp - target| := by
  obtain ⟨above, below⟩ := abs_lt.mp small
  have positive := abs_nonneg (tmp - target)
  have difference : InSigned 32 (tmp - target) := by
    constructor
    · norm_num
      linarith
    · norm_num
      linarith
  have absolute : InSigned 32 |tmp - target| := by
    constructor
    · norm_num
      linarith
    · norm_num
      linarith
  rw [distance, signed_of_inSigned difference]
  exact signed_of_inSigned absolute

section

variable {nums : List Int} {target : Int}

theorem Fits.places (fits : Fits nums target) {first second third : Nat} {a b c : Int}
    (ordered : first < second) (orderedToo : second < third) (firstIs : nums[first]? = some a)
    (secondIs : nums[second]? = some b) (thirdIs : nums[third]? = some c) :
    tripleSum nums first second third = some (a + b + c) ∧
      distance (a + b + c) target = some |a + b + c - target| := by
  have chosen : [a, b, c].Sublist (nums.drop first) := by
    refine cons_sublist_drop_iff.mpr ⟨first, Nat.le_refl first, firstIs, ?_⟩
    refine cons_sublist_drop_iff.mpr ⟨second, ordered, secondIs, ?_⟩
    exact cons_sublist_drop_iff.mpr ⟨third, orderedToo, thirdIs, List.nil_sublist _⟩
  obtain ⟨two, three, near⟩ := fits a b c (chosen.trans (List.drop_sublist first nums))
  refine ⟨?_, distance_eq near⟩
  rw [tripleSum, firstIs, secondIs, thirdIs]
  dsimp only [Option.bind_eq_bind, Option.bind_some]
  rw [signed_of_inSigned two]
  exact signed_of_inSigned three

theorem sumsAt_subset {first low high low' high' : Nat} (up : low ≤ low') (down : high' ≤ high) :
    sumsAt nums first low' high' ⊆ sumsAt nums first low high := by
  rintro sum ⟨a, b, c, firstIs, pair, sumIs⟩
  exact ⟨a, b, c, firstIs, pair.mono up down, sumIs⟩

/-- With a sum below the target, the other sums with its second element are no closer. -/
theorem farther_of_below (sorted : nums.Pairwise (· ≤ ·)) {first second third : Nat} {a b c : Int}
    (firstIs : nums[first]? = some a) (secondIs : nums[second]? = some b)
    (thirdIs : nums[third]? = some c) (below : a + b + c < target) {sum : Int}
    (member : sum ∈ sumsAt nums first second third) :
    sum ∈ sumsAt nums first (second + 1) third ∨ |a + b + c - target| ≤ |sum - target| := by
  obtain ⟨a', b', c', firstIs', pair, rfl⟩ := member
  obtain rfl : a = a' := Option.some.inj (firstIs.symm.trans firstIs')
  rcases pair.without_low sorted secondIs thirdIs with later | ⟨rfl, smaller⟩
  · exact Or.inl ⟨a, b', c', firstIs, later, rfl⟩
  · rw [abs_of_neg (by linarith), abs_of_neg (by linarith)]
    exact Or.inr (by linarith)

/-- With a sum from the target on, the other sums with its third element are no closer. -/
theorem farther_of_notBelow (sorted : nums.Pairwise (· ≤ ·)) {first second third : Nat}
    {a b c : Int} (firstIs : nums[first]? = some a) (secondIs : nums[second]? = some b)
    (thirdIs : nums[third]? = some c) (notBelow : ¬a + b + c < target) {sum : Int}
    (member : sum ∈ sumsAt nums first second third) :
    sum ∈ sumsAt nums first second (third - 1) ∨ |a + b + c - target| ≤ |sum - target| := by
  obtain ⟨a', b', c', firstIs', pair, rfl⟩ := member
  obtain rfl : a = a' := Option.some.inj (firstIs.symm.trans firstIs')
  rcases pair.without_high sorted secondIs thirdIs with later | ⟨greater, rfl⟩
  · exact Or.inl ⟨a, b', c', firstIs, later, rfl⟩
  · rw [abs_of_nonneg (by linarith), abs_of_nonneg (by linarith)]
    exact Or.inr (by linarith)

theorem pairLoop_spec (sorted : nums.Pairwise (· ≤ ·)) (fits : Fits nums target) {first : Nat}
    {a : Int} (firstIs : nums[first]? = some a) {fuel second third : Nat} {earlier : Set Int}
    {best : Best} (behind : first < second) (inside : third ≤ nums.length - 1)
    (enough : third - second < fuel) (records : Records target earlier best) :
    ∃ result, pairLoop nums target first fuel second third best = some result ∧
      Swept target earlier (sumsAt nums first second third) result := by
  induction fuel generalizing second third earlier best with
  | zero => exact absurd enough (Nat.not_lt_zero _)
  | succ fuel inductionHypothesis =>
      rw [pairLoop]
      split
      next less =>
        have secondIs := List.getElem?_eq_getElem (show second < nums.length by omega)
        have thirdIs := List.getElem?_eq_getElem (show third < nums.length by omega)
        generalize nums[second] = b at secondIs
        generalize nums[third] = c at thirdIs
        obtain ⟨sumIs, farIs⟩ := fits.places behind less firstIs secondIs thirdIs
        have member : a + b + c ∈ sumsAt nums first second third :=
          ⟨a, b, c, firstIs, pair_of_ends less secondIs thirdIs, rfl⟩
        rw [sumIs]
        dsimp only [Option.bind_eq_bind, Option.bind_some]
        split
        next equal => exact ⟨Sum.inl (a + b + c), rfl, equal, member⟩
        next differs =>
          have updated := records.update (a + b + c)
          rw [farIs]
          dsimp only [Option.bind_some]
          split
          next below =>
            obtain ⟨result, returned, swept⟩ :=
              @inductionHypothesis (second + 1) third (insert (a + b + c) earlier) _ (by omega)
                inside (by omega) updated
            refine ⟨result, returned, swept.widen member ?_ fun sum => ?_⟩
            · exact sumsAt_subset (Nat.le_succ second) (Nat.le_refl third)
            · exact farther_of_below sorted firstIs secondIs thirdIs below
          next notBelow =>
            obtain ⟨result, returned, swept⟩ :=
              @inductionHypothesis second (third - 1) (insert (a + b + c) earlier) _ behind
                (by omega) (by omega) updated
            refine ⟨result, returned, swept.widen member ?_ fun sum => ?_⟩
            · exact sumsAt_subset (Nat.le_refl second) (Nat.sub_le third 1)
            · exact farther_of_notBelow sorted firstIs secondIs thirdIs notBelow
      next done =>
        refine ⟨Sum.inr best, rfl, ?_⟩
        have nothing : sumsAt nums first second third = ∅ :=
          Set.eq_empty_of_forall_notMem fun sum ⟨_, _, _, _, pair, _⟩ =>
            not_pair_of_le (Nat.le_of_not_lt done) pair
        rw [Swept, nothing, Set.union_empty]
        exact records

/-! ### The closest sum -/

structure IsClosest (target : Int) (sums : Set Int) (sum : Int) : Prop where
  member : sum ∈ sums
  least : ∀ other ∈ sums, |sum - target| ≤ |other - target|

theorem lastIndex_eq (positive : 0 < nums.length) (limit : nums.length ≤ 2 ^ 31) :
    lastIndex nums = nums.length - 1 := by
  have small : nums.length - 1 < 2 ^ (32 - 1) := by norm_num; omega
  rw [lastIndex, ← Nat.cast_pred positive, toNat_converted (Nat.zero_lt_succ 31) small]

/-- The sentinel is gone as soon as there has been a sum. -/
theorem Records.isClosest {sums : Set Int} {best : Best} (records : Records target sums best)
    (nonempty : sums.Nonempty) (near : ∀ sum ∈ sums, |sum - target| < 2 ^ 31 - 1) :
    IsClosest target sums best.closest := by
  obtain ⟨sum, member⟩ := nonempty
  rcases records.reached with sentinel | ⟨reached, distanceIs⟩
  · have below := lt_of_le_of_lt (records.least sum member) (near sum member)
    exact absurd sentinel (ne_of_lt below)
  · exact ⟨reached, fun other otherMember => distanceIs ▸ records.least other otherMember⟩

theorem firstLoop_spec (sorted : nums.Pairwise (· ≤ ·)) (fits : Fits nums target)
    (limit : nums.length ≤ 2 ^ 31) {rounds first : Nat} (all : first + rounds + 2 = nums.length)
    {earlier : Set Int} {best : Best} (records : Records target earlier best)
    (nonempty : (earlier ∪ sumsFrom nums first).Nonempty)
    (near : ∀ sum ∈ earlier ∪ sumsFrom nums first, |sum - target| < 2 ^ 31 - 1) :
    ∃ result, firstLoop nums target rounds first best = some result ∧
      IsClosest target (earlier ∪ sumsFrom nums first) result := by
  induction rounds generalizing first earlier best with
  | zero =>
      have nothing : sumsFrom nums first = ∅ := by
        refine Set.eq_empty_of_forall_notMem ?_
        rintro sum ⟨a, b, c, chosen, -⟩
        have size := chosen.length_le
        rw [List.length_drop] at size
        simp only [List.length_cons, List.length_nil] at size
        omega
      rw [nothing, Set.union_empty] at nonempty near ⊢
      exact ⟨best.closest, rfl, records.isClosest nonempty near⟩
  | succ rounds inductionHypothesis =>
      have firstIs := List.getElem?_eq_getElem (show first < nums.length by omega)
      obtain ⟨swept, returned, sweptSpec⟩ :=
        @pairLoop_spec nums target sorted fits first nums[first] firstIs (nums.length + 1)
          (first + 1) (nums.length - 1) earlier best (Nat.lt_succ_self first) (Nat.le_refl _)
          (by omega) records
      rw [sumsFrom_eq, ← Set.union_assoc] at nonempty near ⊢
      rw [firstLoop, lastIndex_eq (by omega) limit, returned]
      cases swept with
      | inl tmp =>
          obtain ⟨rfl, member⟩ := sweptSpec
          refine ⟨tmp, rfl, Or.inl (Or.inr member), fun other _ => ?_⟩
          rw [sub_self, abs_zero]
          exact abs_nonneg (other - tmp)
      | inr best =>
          have small : first + 1 < 2 ^ (32 - 1) := by norm_num; omega
          dsimp only [Option.bind_eq_bind, Option.bind_some]
          rw [position_of_lt small]
          exact inductionHypothesis (by omega) sweptSpec nonempty near

end

/-- A sum of elements at three different positions. -/
def sumsOf (nums : List Int) : Set Int :=
  {sum | ∃ a b c, [a, b, c].Subperm nums ∧ a + b + c = sum}

theorem sumsFrom_zero {sorted nums : List Int} (permutation : sorted.Perm nums)
    (ascending : sorted.Pairwise (· ≤ ·)) : sumsFrom sorted 0 = sumsOf nums := by
  ext sum
  constructor
  · rintro ⟨a, b, c, chosen, sumIs⟩
    exact ⟨a, b, c, chosen.subperm.trans permutation.subperm, sumIs⟩
  · rintro ⟨a, b, c, chosen, sumIs⟩
    have inOrder := List.mergeSort_perm [a, b, c] fun left right => decide (left ≤ right)
    have size := inOrder.length_eq
    obtain ⟨least, middle, greatest, orderIs⟩ := List.length_eq_three.mp size
    have arranged := pairwise_mergeSort_le [a, b, c]
    rw [orderIs] at inOrder arranged
    have inSorted := (inOrder.subperm.trans chosen).trans permutation.symm.subperm
    refine ⟨least, middle, greatest, ?_, ?_⟩
    · exact List.sublist_of_subperm_of_pairwise inSorted arranged ascending
    · have sums := inOrder.sum_eq
      simp only [List.sum_cons, List.sum_nil] at sums
      omega

theorem fits_of_sorted {sorted nums : List Int} {target : Int} (permutation : sorted.Perm nums)
    (ascending : sorted.Pairwise (· ≤ ·)) (two : ∀ a b, [a, b].Subperm nums → -2 ^ 31 ≤ a + b)
    (three : ∀ sum ∈ sumsOf nums, InSigned 32 sum)
    (near : ∀ sum ∈ sumsOf nums, |sum - target| < 2 ^ 31 - 1) : Fits sorted target := by
  intro a b c chosen
  have inNums := chosen.subperm.trans permutation.subperm
  have front : [a, b].Sublist [a, b, c] := List.sublist_append_left [a, b] [c]
  have lower := two a b (front.subperm.trans inNums)
  have held := three (a + b + c) ⟨a, b, c, inNums, rfl⟩
  have ordered : b ≤ c := by
    have arranged := ascending.sublist chosen
    simp only [List.pairwise_cons, List.mem_singleton] at arranged
    exact arranged.2.1 c rfl
  have less : a ≤ b := by
    have arranged := ascending.sublist (front.trans chosen)
    exact List.pairwise_pair.mp arranged
  -- a pair that is too large has a third element that is not negative
  have upper : a + b < 2 ^ 31 := by
    have below := held.2
    norm_num at below ⊢
    omega
  refine ⟨⟨lower, upper⟩, held, near (a + b + c) ⟨a, b, c, inNums, rfl⟩⟩

theorem threeSumClosest_closest {nums : List Int} {target : Int} (three : 3 ≤ nums.length)
    (limit : nums.length ≤ 2 ^ 31) (two : ∀ a b, [a, b].Subperm nums → -2 ^ 31 ≤ a + b)
    (fits : ∀ sum ∈ sumsOf nums, InSigned 32 sum)
    (near : ∀ sum ∈ sumsOf nums, |sum - target| < 2 ^ 31 - 1) :
    ∃ sorted result, threeSumClosest nums target = some (sorted, result) ∧ sorted.Perm nums ∧
      IsClosest target (sumsOf nums) result := by
  have permutation := List.mergeSort_perm nums fun left right => decide (left ≤ right)
  have ascending := pairwise_mergeSort_le nums
  have size := permutation.length_eq
  have allSums := sumsFrom_zero permutation ascending
  have nonempty : (sumsOf nums).Nonempty := by
    obtain ⟨a, b, c, rest, rfl⟩ : ∃ a b c rest, nums = a :: b :: c :: rest := by
      match nums, three with
      | a :: b :: c :: rest, _ => exact ⟨a, b, c, rest, rfl⟩
    exact ⟨_, a, b, c, (List.sublist_append_left [a, b, c] rest).subperm, rfl⟩
  have sentinel : Records target ∅ ⟨2 ^ 31 - 1, 2 ^ 31 - 1⟩ := records_empty target _
  obtain ⟨result, returned, closest⟩ :=
    @firstLoop_spec (nums.mergeSort fun left right => decide (left ≤ right)) target ascending
      (fits_of_sorted permutation ascending two fits near) (by rw [size]; exact limit)
      (nums.length - 2) 0 (by omega) ∅ _ sentinel
      (by rw [Set.empty_union, allSums]; exact nonempty)
      (by rw [Set.empty_union, allSums]; exact near)
  rw [Set.empty_union, allSums] at closest
  refine ⟨_, result, ?_, permutation, closest⟩
  rw [threeSumClosest]
  dsimp only
  rw [if_neg (by omega), size, returned]
  rfl

theorem threeSumClosest_closest_small :
    3 ≤ [-1, -4, 2, 1].length ∧ [-1, -4, 2, 1].length ≤ 2 ^ 31 ∧
      ∃ sorted result, threeSumClosest [-1, -4, 2, 1] 1 = some (sorted, result) ∧
        sorted.Perm [-1, -4, 2, 1] ∧ IsClosest 1 (sumsOf [-1, -4, 2, 1]) result := by
  have small : ∀ sum ∈ sumsOf [-1, -4, 2, 1], -12 ≤ sum ∧ sum ≤ 6 := by
    rintro sum ⟨a, b, c, chosen, rfl⟩
    have bounds : ∀ value ∈ [a, b, c], -4 ≤ value ∧ value ≤ 2 := fun value member => by
      have inside := chosen.subset member
      simp only [List.mem_cons, List.not_mem_nil, or_false] at inside
      omega
    simp only [List.mem_cons, List.not_mem_nil, or_false, forall_eq_or_imp, forall_eq] at bounds
    omega
  refine ⟨by decide, by decide, threeSumClosest_closest (by decide) (by decide) ?_ ?_ ?_⟩
  · intro a b chosen
    have bounds : ∀ value ∈ [a, b], -4 ≤ value := fun value member => by
      have inside := chosen.subset member
      simp only [List.mem_cons, List.not_mem_nil, or_false] at inside
      omega
    simp only [List.mem_cons, List.not_mem_nil, or_false, forall_eq_or_imp, forall_eq] at bounds
    omega
  · intro sum member
    have bounds := small sum member
    constructor
    · norm_num
      omega
    · norm_num
      omega
  · intro sum member
    have bounds := small sum member
    rw [abs_lt]
    omega

/-! ### Limits of the type -/

/-- An index of type `int` that is negative ends every sweep before it begins. -/
theorem firstLoop_of_lastIndex {nums : List Int} (missing : lastIndex nums = 0) (target : Int)
    {rounds first : Nat} (small : first + rounds < 2 ^ 31) (best : Best) :
    firstLoop nums target rounds first best = some best.closest := by
  induction rounds generalizing first with
  | zero => rfl
  | succ rounds inductionHypothesis =>
      have skipped : pairLoop nums target first (nums.length + 1) (first + 1) 0 best =
          some (Sum.inr best) := by
        rw [pairLoop]
        exact if_neg (Nat.not_lt_zero _)
      have below : first + 1 < 2 ^ (32 - 1) := by norm_num; omega
      rw [firstLoop, missing, skipped]
      dsimp only [Option.bind_eq_bind, Option.bind_some]
      rw [position_of_lt below]
      exact inductionHypothesis (by omega)

theorem threeSumClosest_of_length {nums : List Int} (size : nums.length = 2 ^ 31 + 1)
    (target : Int) : ∃ sorted, threeSumClosest nums target = some (sorted, 2 ^ 31 - 1) := by
  have sortedSize := (List.mergeSort_perm nums fun left right => decide (left ≤ right)).length_eq
  have missing : lastIndex (nums.mergeSort fun left right => decide (left ≤ right)) = 0 := by
    rw [lastIndex, sortedSize, size]
    rfl
  refine ⟨nums.mergeSort fun left right => decide (left ≤ right), ?_⟩
  rw [threeSumClosest]
  dsimp only
  rw [if_neg (by omega), sortedSize, firstLoop_of_lastIndex missing target (by omega)]
  rfl

theorem threeSumClosest_fails :
    ((∀ sum ∈ sumsOf [-1500000000, -1500000000, 1500000000],
        InSigned 32 sum ∧ |sum - -1500000000| < 2 ^ 31 - 1) ∧
      threeSumClosest [-1500000000, -1500000000, 1500000000] (-1500000000) = none) ∧
    (∀ sum ∈ sumsOf (List.replicate (2 ^ 31 + 1) 0), InSigned 32 sum ∧ |sum - 0| < 2 ^ 31 - 1) ∧
      0 ∈ sumsOf (List.replicate (2 ^ 31 + 1) 0) ∧
      ∃ sorted, threeSumClosest (List.replicate (2 ^ 31 + 1) 0) 0 =
        some (sorted, 2 ^ 31 - 1) := by
  refine ⟨⟨?_, ?_⟩, ?_, ?_, threeSumClosest_of_length (List.length_replicate) 0⟩
  · rintro sum ⟨a, b, c, chosen, rfl⟩
    have sums := (chosen.perm_of_length_le (Nat.le_refl 3)).sum_eq
    simp only [List.sum_cons, List.sum_nil, add_zero] at sums
    have sumIs : a + b + c = -1500000000 := by omega
    rw [sumIs]
    decide
  · have ordered : [-1500000000, -1500000000, 1500000000].mergeSort
        (fun left right : Int => decide (left ≤ right)) =
          [-1500000000, -1500000000, 1500000000] :=
      List.mergeSort_of_pairwise (by decide)
    rw [threeSumClosest, ordered]
    rfl
  · rintro sum ⟨a, b, c, chosen, rfl⟩
    have zeros : ∀ value ∈ [a, b, c], value = 0 := fun value member =>
      List.eq_of_mem_replicate (chosen.subset member)
    simp only [List.mem_cons, List.not_mem_nil, or_false, forall_eq_or_imp, forall_eq] at zeros
    obtain ⟨rfl, rfl, rfl⟩ := zeros
    decide
  · refine ⟨0, 0, 0, ?_, rfl⟩
    have three : (List.replicate 3 (0 : Int)).Sublist (List.replicate (2 ^ 31 + 1) 0) :=
      List.replicate_sublist_replicate 0 |>.mpr (by omega)
    exact three.subperm

end ThreeSumClosest

end StdPrograms.Hobbies

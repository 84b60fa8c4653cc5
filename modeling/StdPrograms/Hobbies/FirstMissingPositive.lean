import StdPrograms.Foundation.BitCounts
import StdPrograms.Foundation.CountedLoop
import StdPrograms.Foundation.SignedInt

/-!
Contract: the first positive number that is missing.

Owns `firstMissingPositive` of `solution_41.cpp` with words of 32 bits, the parities that its result
depends on, and for which vectors it returns the least positive number that does not occur.

Does not own vectors of 2^64 elements and more.
-/

namespace StdPrograms.Hobbies

open StdPrograms.Foundation

namespace FirstMissingPositive

/-- The body of the first loop; `i + 1` is wider than `x`. -/
def mix (nums : List (BitVec 32)) (x : BitVec 32) (i : Nat) : Option (BitVec 32) := do
  let x := (x.signExtend 64 ^^^ BitVec.ofNat 64 (i + 1)).setWidth 32
  let num ← nums[i]?
  return if num.toInt > 0 then x ^^^ num else x

/-- The second loop for so many places from `i` on. -/
def readOff (x : BitVec 32) : Nat → Nat → BitVec 32
  | 0, _ => 0
  | count + 1, i =>
      if x.signExtend 64 &&& BitVec.ofNat 64 (i + 1) = BitVec.ofNat 64 (i + 1) then
        BitVec.ofNat 32 (i + 1)
      else readOff x count (i + 1)

def firstMissingPositive (nums : List (BitVec 32)) : Option (BitVec 32) := do
  let x ← forLoop 0 nums.length (mix nums) 0
  return readOff x nums.length 0

variable {nums : List (BitVec 32)} {x : BitVec 32}

/-! ### What is read off -/

theorem readOff_eq_zero {count i : Nat}
    (zero : ∀ k, i < k → k ≤ i + count → x.signExtend 64 &&& BitVec.ofNat 64 k = BitVec.ofNat 64 k →
      BitVec.ofNat 32 k = 0) : readOff x count i = 0 := by
  induction count generalizing i with
  | zero => rfl
  | succ count inductionHypothesis =>
      rw [readOff]
      split
      next found => exact zero (i + 1) (by omega) (by omega) found
      next => exact inductionHypothesis fun k above upTo => zero k (by omega) (by omega)

theorem readOff_eq {count i k : Nat} (above : i < k) (upTo : k ≤ i + count)
    (found : x.signExtend 64 &&& BitVec.ofNat 64 k = BitVec.ofNat 64 k)
    (first : ∀ j, i < j → j < k → x.signExtend 64 &&& BitVec.ofNat 64 j ≠ BitVec.ofNat 64 j) :
    readOff x count i = BitVec.ofNat 32 k := by
  induction count generalizing i with
  | zero => omega
  | succ count inductionHypothesis =>
      rw [readOff]
      rcases Nat.lt_or_eq_of_le (Nat.succ_le_of_lt above) with later | rfl
      · rw [if_neg (first (i + 1) (by omega) later)]
        exact inductionHypothesis later (by omega) fun j beyond => first j (by omega)
      · rw [if_pos found]

/-- The least bit that is set is the result. -/
theorem readOff_of_bit {count bit : Nat} (inside : bit < 32) (set_ : x.getLsbD bit = true)
    (clear : ∀ i < bit, x.getLsbD i = false) :
    readOff x count 0 = if 2 ^ bit ≤ count then BitVec.ofNat 32 (2 ^ bit) else 0 := by
  have wideSet : (x.signExtend 64).getLsbD bit = true := by
    rw [BitVec.getLsbD_signExtend]
    simp [inside, set_]
    omega
  have wideClear : ∀ i < bit, (x.signExtend 64).getLsbD i = false := by
    intro i below
    rw [BitVec.getLsbD_signExtend]
    simp [clear i below]
    omega
  have first (k : Nat) (positive : 0 < k) (below : k < 2 ^ bit) :=
    and_ofNat_ne (by omega) wideClear positive below
  split
  next fits =>
    exact readOff_eq (Nat.two_pow_pos bit) (by omega) (and_two_pow_eq wideSet) first
  next short =>
    exact readOff_eq_zero fun k positive upTo found => absurd found (first k positive (by omega))

theorem readOff_zero (count : Nat) : readOff 0 count 0 = 0 := by
  refine readOff_eq_zero fun k _ _ found => ?_
  have none_ : BitVec.ofNat 64 k = 0 := by
    rw [← found]
    simp
  rw [← BitVec.setWidth_ofNat_of_le (show 32 ≤ 64 by decide), none_]
  rfl

/-! ### What is mixed -/

/-- How often the bit is set in the positive ones of the first `count` elements and in the numbers
from 1 to `count`. -/
def timesSet (nums : List (BitVec 32)) (count bit : Nat) : Nat :=
  (nums.take count).countP (fun num => decide (0 < num.toInt) && num.getLsbD bit) +
    (List.range' 1 count).countP (Nat.testBit · bit)

theorem timesSet_succ {count : Nat} (inside : count < nums.length) (bit : Nat) :
    timesSet nums (count + 1) bit = timesSet nums count bit +
      (if decide (0 < nums[count].toInt) && nums[count].getLsbD bit then 1 else 0) +
        if (count + 1).testBit bit then 1 else 0 := by
  rw [timesSet, timesSet, ← List.take_append_getElem inside, List.range'_1_concat,
    List.countP_append, List.countP_append, List.countP_singleton, List.countP_singleton,
    Nat.add_comm 1 count]
  omega

theorem setWidth_xor_index (x : BitVec 32) (number : Nat) :
    (x.signExtend 64 ^^^ BitVec.ofNat 64 number).setWidth 32 = x ^^^ BitVec.ofNat 32 number := by
  rw [BitVec.setWidth_xor, BitVec.setWidth_ofNat_of_le (by decide)]
  congr 1
  refine BitVec.eq_of_getLsbD_eq fun bit small => ?_
  rw [BitVec.getLsbD_setWidth, BitVec.getLsbD_signExtend]
  simp [small]
  omega

theorem mix_bits {i : Nat} (inside : i < nums.length) :
    ∃ after, mix nums x i = some after ∧ ∀ bit < 32, after.getLsbD bit =
      (x.getLsbD bit ^^ (decide (0 < nums[i].toInt) && nums[i].getLsbD bit) ^^
        (i + 1).testBit bit) := by
  rw [mix, List.getElem?_eq_getElem inside]
  refine ⟨_, rfl, fun bit small => ?_⟩
  rw [setWidth_xor_index]
  by_cases positive : nums[i].toInt > 0
  · rw [if_pos positive, BitVec.getLsbD_xor, BitVec.getLsbD_xor, BitVec.getLsbD_ofNat,
      decide_eq_true small, decide_eq_true positive, Bool.true_and, Bool.true_and, Bool.xor_assoc,
      Bool.xor_comm (Nat.testBit _ _), ← Bool.xor_assoc]
  · rw [if_neg positive, BitVec.getLsbD_xor, BitVec.getLsbD_ofNat, decide_eq_true small,
      decide_eq_false positive, Bool.true_and, Bool.false_and, Bool.xor_false]

theorem parity_succ (times : Nat) (left right : Bool) :
    decide ((times + (if left then 1 else 0) + if right then 1 else 0) % 2 = 1) =
      (decide (times % 2 = 1) ^^ left ^^ right) := by
  have step (count : Nat) : decide ((count + 1) % 2 = 1) = !decide (count % 2 = 1) := by
    rw [← decide_not]
    exact decide_eq_decide.mpr (by omega)
  cases left <;> cases right <;> simp [step]

/-- The word has the bits that are set an odd number of times. -/
theorem mix_spec (nums : List (BitVec 32)) :
    ∃ x, forLoop 0 nums.length (mix nums) 0 = some x ∧
      ∀ bit < 32, x.getLsbD bit = decide (timesSet nums nums.length bit % 2 = 1) := by
  refine forLoop_spec (fun count (x : BitVec 32) => ∀ bit < 32, x.getLsbD bit =
    decide (timesSet nums count bit % 2 = 1)) (fun bit _ => by simp [timesSet])
    fun count inside x bits => ?_
  rw [Nat.zero_add]
  obtain ⟨after, returned, mixed⟩ := @mix_bits nums x count inside
  refine ⟨after, returned, fun bit small => ?_⟩
  rw [mixed bit small, bits bit small, timesSet_succ inside, parity_succ]

/-! ### Which vectors are handled -/

/-- The positive numbers that do not occur. -/
def missing (nums : List (BitVec 32)) : Set Int :=
  {number | 0 < number ∧ ∀ num ∈ nums, num.toInt ≠ number}

def Right (nums : List (BitVec 32)) : Prop :=
  ∃ result, firstMissingPositive nums = some result ∧ IsLeast (missing nums) result.toInt

/-- The least missing number is a power of two, not above the size, and its bit is the least one
that is set an odd number of times. -/
def Handled (nums : List (BitVec 32)) : Prop :=
  ∃ bit < 31, 2 ^ bit ≤ nums.length ∧ IsLeast (missing nums) (2 ^ bit) ∧
    timesSet nums nums.length bit % 2 = 1 ∧ ∀ i < bit, timesSet nums nums.length i % 2 = 0

theorem toInt_two_pow {bit : Nat} (small : bit < 31) :
    (BitVec.ofNat 32 (2 ^ bit)).toInt = 2 ^ bit := by
  have power : 2 ^ bit < 2 ^ 31 := Nat.pow_lt_pow_right (by decide) small
  rw [toInt_ofNat_of_lt (by decide) power]
  exact Nat.cast_pow 2 bit

theorem toInt_pos_bit {bit : Nat} (inside : bit < 32)
    (positive : 0 < (BitVec.ofNat 32 (2 ^ bit)).toInt) : bit < 31 := by
  by_contra last
  obtain rfl : bit = 31 := by omega
  exact absurd positive (by decide)

theorem firstMissing_iff_handled (nums : List (BitVec 32)) : Right nums ↔ Handled nums := by
  obtain ⟨x, mixed, bits⟩ := mix_spec nums
  have returned : firstMissingPositive nums = some (readOff x nums.length 0) := by
    rw [firstMissingPositive, mixed]
    rfl
  constructor
  · rintro ⟨result, isResult, least⟩
    obtain rfl := Option.some.inj (returned.symm.trans isResult)
    have positive := least.1.1
    have nonzero : x ≠ BitVec.ofNat 32 0 := by
      rintro rfl
      exact absurd ((congrArg BitVec.toInt (readOff_zero nums.length)) ▸ positive) (by decide)
    obtain ⟨bit, set_, clear⟩ := exists_lowest_bit nonzero
    have inside := BitVec.lt_of_getLsbD set_
    rw [readOff_of_bit inside set_ clear] at positive least
    split at positive
    next fits =>
      have small := toInt_pos_bit inside positive
      rw [if_pos fits, toInt_two_pow small] at least
      rw [bits bit inside, decide_eq_true_eq] at set_
      refine ⟨bit, small, fits, least, set_, fun i below => ?_⟩
      have isClear := clear i below
      rw [bits i (below.trans inside), decide_eq_false_iff_not] at isClear
      omega
    next => exact absurd positive (by decide)
  · rintro ⟨bit, small, fits, least, odd, even⟩
    have set_ : x.getLsbD bit = true := by rw [bits bit (by omega), odd]; rfl
    have clear : ∀ i < bit, x.getLsbD i = false := fun i below => by
      rw [bits i (by omega), even i below]
      rfl
    refine ⟨_, returned, ?_⟩
    rw [readOff_of_bit (by omega) set_ clear, if_pos fits, toInt_two_pow small]
    exact least

/-- The example of the source: the bits of 3 are set an odd number of times, and 1 is read off. -/
theorem not_right_oneTwoZero : ¬Right [1, 2, 0] := by
  rintro ⟨result, returned, least⟩
  have isOne : firstMissingPositive [1, 2, 0] = some 1 := rfl
  rw [isOne] at returned
  obtain rfl := Option.some.inj returned
  exact least.1.2 1 (by decide) rfl

end FirstMissingPositive

end StdPrograms.Hobbies

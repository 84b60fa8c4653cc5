import Mathlib.Data.List.Sort
import Mathlib.Data.Nat.Digits.Defs
import StdPrograms.Foundation.Orbits
import StdPrograms.Foundation.SignedInt

/-!
Contract: numbers that lead to 1 by the squares of their digits.

Owns `isHappy` of `solution_202.cpp`, the sums of the squares of all digits and of those that the
inner loop adds, and for which numbers it tells whether 1 is reached.

Does not own negative numbers.
-/

namespace StdPrograms.Hobbies

open StdPrograms.Foundation

namespace IsHappy

/-- The inner loop. -/
def sumLoop (x s : Nat) : Nat :=
  if x > 10 then
    let tmp := x % 10
    sumLoop (x / 10) (s + tmp * tmp)
  else s
termination_by x

def happyLoop : Nat → Finset Int → Nat → Option Bool
  | 0, _, _ => none
  | fuel + 1, vars, x =>
      if x ≠ 1 then
        if converted 32 x ∈ vars then some false
        else happyLoop fuel (insert (converted 32 x) vars) (sumLoop x 0)
      else some true

def isHappy (fuel : Nat) (n : Int) : Option Bool :=
  if n < 0 then some false else happyLoop fuel ∅ n.toNat

/-! ### The sums -/

def squares (digits : List Nat) : Nat := (digits.map (· ^ 2)).sum

/-- The sum of the squares of the decimal digits. -/
def digitSquares (n : Nat) : Nat := squares (Nat.digits 10 n)

/-- The sum without the leading digit. -/
def tailSquares (n : Nat) : Nat := squares (Nat.digits 10 n).dropLast

theorem squares_cons (digit : Nat) (rest : List Nat) :
    squares (digit :: rest) = digit ^ 2 + squares rest := by
  rw [squares, List.map_cons, List.sum_cons, ← squares]

theorem digitSquares_step (n : Nat) :
    digitSquares n = (n % 10) ^ 2 + digitSquares (n / 10) := by
  rcases Nat.eq_zero_or_pos n with rfl | positive
  · rfl
  · rw [digitSquares, Nat.digits_def' (by decide) positive, squares_cons, ← digitSquares]

theorem tailSquares_of_lt {n : Nat} (small : n < 10) : tailSquares n = 0 := by
  rcases Nat.eq_zero_or_pos n with rfl | positive
  · rfl
  · rw [tailSquares, Nat.digits_of_lt 10 n positive.ne' small]
    rfl

theorem tailSquares_step {n : Nat} (large : 10 ≤ n) :
    tailSquares n = (n % 10) ^ 2 + tailSquares (n / 10) := by
  have more : Nat.digits 10 (n / 10) ≠ [] := by
    rw [Nat.digits_ne_nil_iff_ne_zero]
    omega
  rw [tailSquares, Nat.digits_def' (by decide) (by omega), List.dropLast_cons_of_ne_nil more,
    squares_cons, ← tailSquares]

/-- Where the loop stops at 10, the digit that it leaves out besides is 0. -/
theorem sumLoop_eq (x s : Nat) : sumLoop x s = s + tailSquares x := by
  induction x using Nat.strongRecOn generalizing s with
  | _ x inductionHypothesis =>
      rw [sumLoop]
      split
      next large =>
        dsimp only
        rw [inductionHypothesis (x / 10) (by omega), @tailSquares_step x (by omega), Nat.add_assoc,
          pow_two]
      next small =>
        rcases Nat.lt_or_ge x 10 with less | atLeast
        · rw [tailSquares_of_lt less, Nat.add_zero]
        · obtain rfl : x = 10 := by omega
          rfl

/-- A number of so many digits. -/
theorem digitSquares_le {count n : Nat} (below : n < 10 ^ count) : digitSquares n ≤ 81 * count := by
  induction count generalizing n with
  | zero =>
      obtain rfl : n = 0 := by
        rw [pow_zero] at below
        omega
      exact Nat.zero_le _
  | succ count inductionHypothesis =>
      rw [pow_succ] at below
      have rest := inductionHypothesis (show n / 10 < 10 ^ count by omega)
      have last : (n % 10) ^ 2 ≤ 9 ^ 2 := Nat.pow_le_pow_left (by omega) 2
      rw [digitSquares_step]
      omega

theorem tailSquares_le {count n : Nat} (below : n < 10 ^ (count + 1)) :
    tailSquares n ≤ 81 * count := by
  induction count generalizing n with
  | zero =>
      rw [tailSquares_of_lt (by simpa using below)]
  | succ count inductionHypothesis =>
      rcases Nat.lt_or_ge n 10 with less | atLeast
      · rw [tailSquares_of_lt less]
        exact Nat.zero_le _
      · rw [pow_succ] at below
        have rest := inductionHypothesis (show n / 10 < 10 ^ (count + 1) by omega)
        have last : (n % 10) ^ 2 ≤ 9 ^ 2 := Nat.pow_le_pow_left (by omega) 2
        rw [tailSquares_step atLeast]
        omega

/-! ### What is returned -/

variable {n : Nat}

/-- The outer loop is the walk along the sums that the inner one gives. -/
theorem happyLoop_eq {bound : Nat} (fits : bound < 2 ^ 31)
    (closed : ∀ x ≤ bound, tailSquares x ≤ bound) {fuel : Nat} {seen : Finset Nat} {x : Nat}
    (inside : x ≤ bound) :
    happyLoop fuel (seen.image (Nat.cast : Nat → Int)) x = walkUntil tailSquares 1 fuel seen x := by
  induction fuel generalizing seen x with
  | zero => rfl
  | succ fuel inductionHypothesis =>
      have same : converted 32 (x : Int) = x := converted_natCast (by decide) (by omega)
      have member : (x : Int) ∈ seen.image (Nat.cast : Nat → Int) ↔ x ∈ seen := by simp
      rw [happyLoop, walkUntil, same, ← Finset.image_insert, sumLoop_eq, Nat.zero_add,
        inductionHypothesis (closed x inside)]
      simp only [member, ne_eq, ite_not]

/-- The loops tell whether 1 is reached without the leading digits. -/
theorem isHappy_spec (fits : n < 2 ^ 31) :
    ∃ enough, ∃ result, (∀ fuel ≥ enough, isHappy fuel n = some result) ∧
      (result = true ↔ Reaches tailSquares 1 n) := by
  classical
  have low : ∀ x < 2 ^ 31, tailSquares x < 730 := fun x below =>
    Nat.lt_succ_of_le (@tailSquares_le 9 x (by omega))
  have closed : ∀ place ∈ insert n (Finset.range 730),
      tailSquares place ∈ insert n (Finset.range 730) := by
    intro place member
    have below : place < 2 ^ 31 := by
      rcases Finset.mem_insert.mp member with rfl | early
      · exact fits
      · exact (Finset.mem_range.mp early).trans (by decide)
    exact Finset.mem_insert_of_mem (Finset.mem_range.mpr (low place below))
  refine ⟨(insert n (Finset.range 730)).card + 1, decide (Reaches tailSquares 1 n), ?_, by simp⟩
  intro fuel atLeast
  have onWalk : OnWalk tailSquares 1 ∅ n := ⟨Finset.notMem_empty 1, by simp⟩
  obtain ⟨result, returned, iff⟩ := @walkUntil_spec _ _ _ _ _ closed fuel ∅ n
    (Finset.mem_insert_self n _) onWalk (by
      rw [Finset.sdiff_empty]
      omega)
  have same := @happyLoop_eq (2 ^ 31 - 1) (by decide)
    (fun x inside => (low x (by omega)).le.trans (by decide)) fuel ∅ n (by omega)
  have nonnegative : ¬(n : Int) < 0 := by omega
  rw [Finset.image_empty] at same
  rw [isHappy, if_neg nonnegative, Int.toNat_natCast, same, returned, Option.some.injEq,
    Bool.eq_iff_iff, decide_eq_true_iff]
  exact iff

/-! ### When this is right -/

/-- 1 is reached without the leading digits from these numbers. -/
def EndsAtOne (a : Nat) : Prop :=
  a = 1 ∨ (10 ≤ a ∧ a < 100 ∧ a % 10 ∈ [1, 7, 9]) ∨ (100 ≤ a ∧ a % 100 ∈
    [1, 7, 9, 10, 14, 16, 25, 41, 45, 49, 52, 54, 56, 58, 61, 65, 70, 85, 89, 90, 94, 98])

instance : DecidablePred EndsAtOne := fun a =>
  inferInstanceAs (Decidable (a = 1 ∨ (_ ∧ _ ∧ _) ∨ (_ ∧ _)))

/-- The happy numbers up to 810, by their hundreds. -/
def happyRow : Nat → List Nat
  | 0 => [1, 7, 10, 13, 19, 23, 28, 31, 32, 44, 49, 68, 70, 79, 82, 86, 91, 94, 97]
  | 1 => [0, 3, 9, 29, 30, 33, 39, 67, 76, 88, 90, 92, 93]
  | 2 => [3, 8, 19, 26, 30, 36, 39, 62, 63, 80, 91, 93]
  | 3 => [1, 2, 10, 13, 19, 20, 26, 29, 31, 38, 56, 62, 65, 67, 68, 76, 79, 83, 86, 91, 92, 97]
  | 4 => [4, 9, 40, 46, 64, 69, 78, 87, 90, 96]
  | 5 => [36, 56, 63, 65, 66]
  | 6 => [8, 17, 22, 23, 32, 35, 37, 38, 44, 49, 53, 55, 56, 65, 71, 73, 80, 83, 94]
  | 7 => [0, 9, 16, 36, 39, 48, 61, 63, 84, 90, 93]
  | 8 => [2, 6]
  | _ => []

def HappySum (b : Nat) : Prop := b % 100 ∈ happyRow (b / 100)

instance : DecidablePred HappySum := fun _ => inferInstanceAs (Decidable (_ ∈ _))

/-- The two sums for numbers of at most three digits. -/
def shortSquares (b : Nat) : Nat := (b % 10) ^ 2 + ((b / 10 % 10) ^ 2 + (b / 100) ^ 2)

def shortTail (a : Nat) : Nat :=
  if a < 10 then 0
  else if a < 100 then (a % 10) ^ 2
  else (a % 10) ^ 2 + (a / 10 % 10) ^ 2

theorem digitSquares_of_lt {b : Nat} (small : b < 10) : digitSquares b = b ^ 2 := by
  rw [digitSquares_step, Nat.mod_eq_of_lt small, Nat.div_eq_of_lt small]
  rfl

theorem digitSquares_short {b : Nat} (short : b < 1000) : digitSquares b = shortSquares b := by
  rw [digitSquares_step, digitSquares_step, Nat.div_div_eq_div_mul,
    @digitSquares_of_lt (b / (10 * 10)) (by omega), shortSquares]

theorem tailSquares_short {a : Nat} (short : a < 1000) : tailSquares a = shortTail a := by
  rw [shortTail]
  split
  next one => exact tailSquares_of_lt one
  next more =>
    rw [tailSquares_step (by omega)]
    split
    next two => rw [@tailSquares_of_lt (a / 10) (by omega), Nat.add_zero]
    next three =>
      rw [@tailSquares_step (a / 10) (by omega), @tailSquares_of_lt (a / 10 / 10) (by omega),
        Nat.add_zero]

theorem happySum_shortSquares : ∀ b < 811, HappySum (shortSquares b) ↔ HappySum b := by
  decide +kernel

theorem reaches_shortSquares : ∀ b < 811, HappySum b → ∃ count < 7, shortSquares^[count] b = 1 := by
  decide +kernel

theorem endsAtOne_shortTail : ∀ a < 730, EndsAtOne (shortTail a) → EndsAtOne a := by
  decide +kernel

theorem reaches_shortTail : ∀ a < 730, EndsAtOne a → ∃ count < 7, shortTail^[count] a = 1 := by
  decide +kernel

/-- Below a bound, a table says which numbers lead to 1. -/
theorem reaches_iff_of_table {step short : Nat → Nat} {bound : Nat} {leads : Nat → Prop}
    (closed : ∀ b < bound, step b < bound) (same : ∀ b < bound, step b = short b)
    (one : leads 1) (back : ∀ b < bound, leads (short b) → leads b)
    (reached : ∀ b < bound, leads b → ∃ count < 7, short^[count] b = 1) {b : Nat}
    (inside : b < bound) : Reaches step 1 b ↔ leads b := by
  refine @reaches_iff_of_noEntry _ _ _ _ {b | b < bound} {b | leads b} closed ?_ one ?_ inside
  · intro place below next
    rw [same place below] at next
    exact back place below next
  · intro place below leadsOn
    obtain ⟨count, -, is⟩ := reached place below leadsOn
    exact @Reaches.congr _ step 1 _ short {b | b < bound} closed same below ⟨count, is⟩

theorem reaches_digitSquares_iff {b : Nat} (inside : b < 811) :
    Reaches digitSquares 1 b ↔ HappySum b := by
  refine reaches_iff_of_table (fun b below => ?_) (fun b below => digitSquares_short (by omega))
    (by decide) (fun b below => (happySum_shortSquares b below).mp) reaches_shortSquares inside
  have := @digitSquares_le 3 b (by omega)
  omega

theorem reaches_tailSquares_iff {a : Nat} (inside : a < 730) :
    Reaches tailSquares 1 a ↔ EndsAtOne a := by
  refine reaches_iff_of_table (fun a below => ?_) (fun a below => tailSquares_short (by omega))
    (by decide) endsAtOne_shortTail reaches_shortTail inside
  have := @tailSquares_le 2 a (by omega)
  omega

/-- The function returns, and true for the numbers that lead to 1 by the squares of their digits. -/
def Right (n : Nat) : Prop :=
  ∃ enough, ∃ result, (∀ fuel ≥ enough, isHappy fuel n = some result) ∧
    (result = true ↔ Reaches digitSquares 1 n)

/-- What is returned does not depend on the fuel, where it is enough. -/
theorem right_iff_same (fits : n < 2 ^ 31) :
    Right n ↔ (Reaches tailSquares 1 n ↔ Reaches digitSquares 1 n) := by
  obtain ⟨enough, result, returns, tells⟩ := isHappy_spec fits
  constructor
  · rintro ⟨other, found, finds, right⟩
    have same : found = result := by
      have first := finds (max enough other) (le_max_right _ _)
      rwa [returns (max enough other) (le_max_left _ _), Option.some.injEq, eq_comm] at first
    rw [← tells, ← right, same]
  · intro same
    exact ⟨enough, result, returns, tells.trans same⟩

/-- The function is right for 1, and where the sum without the leading digit leads to 1 just if the
whole sum does. -/
theorem isHappy_iff (fits : n < 2 ^ 31) :
    Right n ↔ n = 1 ∨ (EndsAtOne (tailSquares n) ↔ HappySum (digitSquares n)) := by
  have tail : tailSquares n < 730 := Nat.lt_succ_of_le (@tailSquares_le 9 n (by omega))
  have whole : digitSquares n < 811 := Nat.lt_succ_of_le (@digitSquares_le 10 n (by omega))
  rw [right_iff_same fits, @reaches_iff _ tailSquares, @reaches_iff _ digitSquares,
    reaches_tailSquares_iff tail, reaches_digitSquares_iff whole]
  rcases eq_or_ne n 1 with one | more
  · exact iff_of_true (iff_of_true (.inl one) (.inl one)) (.inl one)
  · rw [or_iff_right more, or_iff_right more, or_iff_right more]

theorem isHappy_iff_nineteen : Right 19 ↔ 19 = 1 ∨
    (EndsAtOne (tailSquares 19) ↔ HappySum (digitSquares 19)) :=
  isHappy_iff (by decide)

theorem not_right_seven : ¬Right 7 := by
  rw [right_iff_same (by decide), @reaches_iff _ tailSquares,
    reaches_tailSquares_iff (by decide), reaches_digitSquares_iff (by decide)]
  decide

end IsHappy

end StdPrograms.Hobbies

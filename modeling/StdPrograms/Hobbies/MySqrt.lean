import Mathlib.Order.Bounds.Defs
import StdPrograms.Foundation.SignedInt

/-!
Contract: the integer square root.

Owns `mySqrt` of `solution_69.cpp` and that it returns the greatest root from below.

Does not own the output.
-/

namespace StdPrograms.Hobbies

open StdPrograms.Foundation

namespace MySqrt

/-- A division of `long`; there is no result where the divisor is zero. -/
def divided (dividend divisor : Int) : Option Int :=
  if divisor = 0 then none else signed 64 (dividend.tdiv divisor)

def rootLoop (x : Int) : Nat → Int → Option Int
  | 0, _ => none
  | fuel + 1, root => do
      let square ← signed 64 (root * root)
      if square > x then
        let quotient ← divided x root
        let sum ← signed 64 (root + quotient)
        let root ← divided sum 2
        rootLoop x fuel root
      else return root

def mySqrt (fuel : Nat) (x : Int) : Option Int :=
  if x < 0 then some (-2 ^ 31)
  else do
    let root ← rootLoop x fuel x
    return converted 32 root

/-! ### One round -/

/-- The next root is less, and still not below the exact one. -/
theorem next_root {x root : Int} (nonneg : 0 ≤ x) (positive : 0 < root) (large : x < root * root) :
    (root + x / root) / 2 < root ∧ 0 ≤ (root + x / root) / 2 ∧
      x < ((root + x / root) / 2 + 1) * ((root + x / root) / 2 + 1) := by
  have smaller : x / root < root := Int.ediv_lt_of_lt_mul positive large
  have quotientNonneg : 0 ≤ x / root := Int.ediv_nonneg nonneg positive.le
  have exceeds : x < root * (x / root + 1) := by
    have split_ := Int.mul_ediv_add_emod x root
    have remainder := Int.emod_lt_of_pos x positive
    linarith
  generalize x / root = quotient at *
  have halved : root + quotient + 1 ≤ 2 * ((root + quotient) / 2 + 1) := by omega
  generalize halfIs : (root + quotient) / 2 = half at *
  refine ⟨by omega, by omega, ?_⟩
  -- the arithmetic mean of `root` and `quotient + 1` is at least the geometric one
  have mean : 4 * (root * (quotient + 1)) ≤ (root + quotient + 1) * (root + quotient + 1) := by
    have square := mul_self_nonneg (root - (quotient + 1))
    linarith
  have doubled : (root + quotient + 1) * (root + quotient + 1) ≤
      2 * (half + 1) * (2 * (half + 1)) :=
    mul_self_le_mul_self (by omega) halved
  linarith

theorem inSigned_of_small {value : Int} (nonneg : 0 ≤ value) (small : value < 2 ^ 63) :
    InSigned 64 value := by
  constructor
  · norm_num
    omega
  · norm_num
    omega

theorem rootLoop_spec {x : Int} (nonneg : 0 ≤ x) (small : x < 2 ^ 31) {fuel : Nat} {root : Int}
    (rootNonneg : 0 ≤ root) (atMost : root ≤ x) (above : x < (root + 1) * (root + 1))
    (enough : root.toNat < fuel) :
    ∃ result, rootLoop x fuel root = some result ∧ 0 ≤ result ∧ result ≤ x ∧
      result * result ≤ x ∧ x < (result + 1) * (result + 1) := by
  induction fuel generalizing root with
  | zero => exact absurd enough (Nat.not_lt_zero _)
  | succ fuel inductionHypothesis =>
      have squareSmall : root * root < 2 ^ 63 := by
        have square := mul_self_le_mul_self rootNonneg (show root ≤ 2 ^ 31 by omega)
        linarith
      rw [rootLoop, signed_of_inSigned (inSigned_of_small (mul_self_nonneg root) squareSmall)]
      dsimp only [Option.bind_eq_bind, Option.bind_some]
      by_cases large : root * root > x
      · have positive : 0 < root := by
          refine lt_of_le_of_ne rootNonneg fun zero => ?_
          rw [← zero, mul_zero] at large
          omega
        obtain ⟨less, nextNonneg, nextAbove⟩ := next_root nonneg positive large
        have quotientNonneg : 0 ≤ x / root := Int.ediv_nonneg nonneg rootNonneg
        have quotientSmall : x / root ≤ x := Int.ediv_le_self root nonneg
        have quotient : divided x root = some (x / root) := by
          rw [divided, if_neg positive.ne', Int.tdiv_eq_ediv_of_nonneg nonneg]
          exact signed_of_inSigned (inSigned_of_small quotientNonneg (by omega))
        have half : divided (root + x / root) 2 = some ((root + x / root) / 2) := by
          rw [divided, if_neg (by omega), Int.tdiv_eq_ediv_of_nonneg (by omega)]
          exact signed_of_inSigned (inSigned_of_small nextNonneg (by omega))
        rw [if_pos large, quotient]
        dsimp only [Option.bind_some]
        rw [signed_of_inSigned (inSigned_of_small (by omega) (by omega))]
        dsimp only [Option.bind_some]
        rw [half]
        exact inductionHypothesis nextNonneg (by omega) nextAbove (by omega)
      · rw [if_neg large]
        exact ⟨root, rfl, rootNonneg, atMost, not_lt.mp large, above⟩

/-- The fuel counts the rounds; there are no more than the number has units. -/
theorem mySqrt_greatest {x : Int} (nonneg : 0 ≤ x) (small : x < 2 ^ 31) {fuel : Nat}
    (enough : x.toNat < fuel) :
    ∃ result, mySqrt fuel x = some result ∧ IsGreatest {root | root * root ≤ x} result := by
  have above : x < (x + 1) * (x + 1) := by
    have square := mul_self_nonneg x
    linarith
  obtain ⟨result, returned, resultNonneg, atMost, below, exceeds⟩ :=
    rootLoop_spec nonneg small nonneg (le_refl x) above enough
  have held : InSigned 32 result := by
    constructor
    · norm_num
      omega
    · norm_num
      omega
  refine ⟨result, ?_, below, fun root rootBelow => ?_⟩
  · rw [mySqrt, if_neg (by omega), returned]
    dsimp only [Option.bind_eq_bind, Option.bind_some]
    rw [converted_of_inSigned (Nat.zero_lt_succ 31) held]
    rfl
  · by_contra larger
    have square := mul_self_le_mul_self (show 0 ≤ result + 1 by omega)
      (show result + 1 ≤ root by omega)
    exact absurd (lt_of_lt_of_le exceeds square) (not_lt.mpr rootBelow)

theorem mySqrt_greatest_twentyEight :
    ((0 : Int) ≤ 28 ∧ (28 : Int) < 2 ^ 31) ∧
      ∃ result, mySqrt 29 28 = some result ∧ IsGreatest {root | root * root ≤ 28} result :=
  ⟨by decide, mySqrt_greatest (by decide) (by decide) (by decide)⟩

end MySqrt

end StdPrograms.Hobbies

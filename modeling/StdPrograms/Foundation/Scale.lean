import Mathlib.Data.Nat.SuccPred
import Mathlib.Tactic.Ring
import StdPrograms.Foundation.SignedInt

/-!
Contract: integers that lose low digits until they lie between two limits.

Owns the loop that divides and counts, what it leaves and how often it turns, the way
back by multiplication, and how far a quotient that was cut to a signed field is from
the number.

Does not own any limit or width.
-/

namespace StdPrograms.Foundation

/-! ### Quotients towards zero -/

/-- The quotient lies between limits on either side of zero exactly if the number does. -/
theorem tdiv_le_iff {value divisor high : Int} (positive : 0 < divisor) (high_nonneg : 0 ≤ high) :
    value.tdiv divisor ≤ high ↔ value < (high + 1) * divisor := by
  rcases le_total 0 value with nonneg | nonpos
  · rw [Int.tdiv_eq_ediv_of_nonneg nonneg, Int.le_iff_lt_add_one,
      Int.ediv_lt_iff_lt_mul positive]
  · have quotient := Int.tdiv_nonneg (neg_nonneg.mpr nonpos) (le_of_lt positive)
    rw [Int.neg_tdiv] at quotient
    have limit : 0 < (high + 1) * divisor := by positivity
    apply iff_of_true
    · exact le_trans (neg_nonneg.mp quotient) high_nonneg
    · exact lt_of_le_of_lt nonpos limit

theorem le_tdiv_iff {value divisor low : Int} (positive : 0 < divisor) (low_nonpos : low ≤ 0) :
    low ≤ value.tdiv divisor ↔ (low - 1) * divisor < value := by
  have mirrored := @tdiv_le_iff (-value) divisor (-low) positive (neg_nonneg.mpr low_nonpos)
  rw [Int.neg_tdiv, neg_le_neg_iff] at mirrored
  rw [mirrored]
  have product : (-low + 1) * divisor = -((low - 1) * divisor) := by ring
  rw [product, neg_lt_neg_iff]

/-- What the quotient leaves of the number is below the divisor. -/
theorem abs_tdiv_mul_sub_lt {divisor : Int} (value : Int) (positive : 0 < divisor) :
    |value.tdiv divisor * divisor - value| < divisor := by
  have division := Int.mul_tdiv_add_tmod value divisor
  have above := Int.lt_tmod_of_pos value positive
  have below := Int.tmod_lt_of_pos value positive
  rw [abs_lt]
  constructor <;> linarith

/-- Scaled up again, the quotient is between zero and the number. -/
theorem tdiv_mul_between {divisor : Int} (value : Int) (positive : 0 < divisor) :
    0 ≤ value.tdiv divisor * divisor ∧ value.tdiv divisor * divisor ≤ value ∨
      value ≤ value.tdiv divisor * divisor ∧ value.tdiv divisor * divisor ≤ 0 := by
  have ofNonneg : ∀ number : Int, 0 ≤ number →
      0 ≤ number.tdiv divisor * divisor ∧ number.tdiv divisor * divisor ≤ number := by
    intro number nonneg
    have quotient := Int.tdiv_nonneg nonneg (le_of_lt positive)
    constructor
    · exact mul_nonneg quotient (le_of_lt positive)
    · rw [Int.tdiv_eq_ediv_of_nonneg nonneg]
      exact Int.ediv_mul_le number (ne_of_gt positive)
  rcases le_total 0 value with nonneg | nonpos
  · exact Or.inl (ofNonneg value nonneg)
  · have mirrored := ofNonneg (-value) (neg_nonneg.mpr nonpos)
    rw [Int.neg_tdiv, neg_mul] at mirrored
    right
    omega

theorem tdiv_tdiv {first second : Int} (value : Int) (firstPositive : 0 < first) :
    (value.tdiv first).tdiv second = value.tdiv (first * second) := by
  have ofNonneg : ∀ number : Int, 0 ≤ number →
      (number.tdiv first).tdiv second = number.tdiv (first * second) := by
    intro number nonneg
    have quotient := Int.tdiv_nonneg nonneg (le_of_lt firstPositive)
    rw [Int.tdiv_eq_ediv_of_nonneg quotient, Int.tdiv_eq_ediv_of_nonneg nonneg,
      Int.tdiv_eq_ediv_of_nonneg nonneg, Int.ediv_ediv_of_nonneg (le_of_lt firstPositive)]
  rcases le_total 0 value with nonneg | nonpos
  · exact ofNonneg value nonneg
  · have mirrored := ofNonneg (-value) (neg_nonneg.mpr nonpos)
    rw [Int.neg_tdiv, Int.neg_tdiv, Int.neg_tdiv] at mirrored
    exact neg_inj.mp mirrored

/-- A quotient in a signed field: scaled up again, it is near the number exactly if the
field keeps it. -/
theorem abs_ofInt_tdiv_mul_sub_lt_iff {bits : Nat} {value divisor bound : Int}
    (positive : 0 < divisor) (least : divisor ≤ bound)
    (most : bound ≤ (2 ^ bits - 1) * divisor) :
    |(BitVec.ofInt bits (value.tdiv divisor)).toInt * divisor - value| < bound ↔
      (BitVec.ofInt bits (value.tdiv divisor)).toInt = value.tdiv divisor := by
  have cut := abs_tdiv_mul_sub_lt value positive
  constructor
  · intro near
    by_contra changed
    have far := mul_le_mul_of_nonneg_right (le_abs_toInt_ofInt_sub changed) (le_of_lt positive)
    rw [← abs_of_pos positive, ← abs_mul, abs_of_pos positive, sub_mul] at far
    have between := abs_sub_le
      ((BitVec.ofInt bits (value.tdiv divisor)).toInt * divisor) value
      (value.tdiv divisor * divisor)
    rw [abs_sub_comm value] at between
    linarith
  · intro kept
    rw [kept]
    exact lt_of_lt_of_le cut least

/-! ### The loop -/

/-- Limits on either side of zero, and the number to divide by. -/
structure Scale where
  base : Int
  low : Int
  high : Int
  two_le_base : 2 ≤ base
  low_nonpos : low ≤ 0
  high_nonneg : 0 ≤ high

namespace Scale

variable {ε : Type} (scale : Scale)

/-- The condition of the loop. -/
def Outside (value : Int) : Prop := value > scale.high ∨ value < scale.low

instance (value : Int) : Decidable (scale.Outside value) :=
  inferInstanceAs (Decidable (_ ∨ _))

theorem base_pos : 0 < scale.base := lt_of_lt_of_le two_pos scale.two_le_base

theorem natAbs_tdiv_lt {value : Int} (outside : scale.Outside value) :
    (value.tdiv scale.base).natAbs < value.natAbs := by
  have two := scale.two_le_base
  have low := scale.low_nonpos
  have high := scale.high_nonneg
  have nonzero : 0 < value.natAbs := by
    unfold Outside at outside
    omega
  rw [Int.natAbs_tdiv]
  exact Nat.div_lt_self nonzero (by omega)

/-- `while (val > high || val < low) { val /= base; ++exp; }` -/
def reduce (increment : ε → ε) (value : Int) (exponent : ε) : Int × ε :=
  if scale.Outside value then
    reduce increment (value.tdiv scale.base) (increment exponent)
  else (value, exponent)
termination_by value.natAbs
decreasing_by exact scale.natAbs_tdiv_lt ‹_›

/-- How often the loop turns. -/
def turns (value : Int) : Nat := (scale.reduce Nat.succ value 0).2

theorem reduce_outside {value : Int} (outside : scale.Outside value) (increment : ε → ε)
    (exponent : ε) :
    scale.reduce increment value exponent =
      scale.reduce increment (value.tdiv scale.base) (increment exponent) := by
  rw [reduce, if_pos outside]

theorem reduce_inside {value : Int} (inside : ¬scale.Outside value) (increment : ε → ε)
    (exponent : ε) : scale.reduce increment value exponent = (value, exponent) := by
  rw [reduce, if_neg inside]

/-- Whatever is counted, the loop takes the same turns. -/
theorem exists_reduce (value : Int) :
    ∃ count : Nat, ¬scale.Outside (value.tdiv (scale.base ^ count)) ∧
      (∀ earlier < count, scale.Outside (value.tdiv (scale.base ^ earlier))) ∧
      ∀ {ε : Type} (increment : ε → ε) (exponent : ε),
        scale.reduce increment value exponent =
          (value.tdiv (scale.base ^ count), increment^[count] exponent) := by
  induction size : value.natAbs using Nat.strongRecOn generalizing value with
  | ind size inductionHypothesis =>
      subst size
      by_cases outside : scale.Outside value
      · obtain ⟨count, within, before, reduced⟩ :=
          inductionHypothesis _ (scale.natAbs_tdiv_lt outside) _ rfl
        have next : ∀ turns, (value.tdiv scale.base).tdiv (scale.base ^ turns) =
            value.tdiv (scale.base ^ (turns + 1)) := by
          intro turns
          rw [tdiv_tdiv value scale.base_pos, pow_succ']
        refine ⟨count + 1, ?_, ?_, ?_⟩
        · rw [← next]
          exact within
        · intro earlier below
          cases earlier with
          | zero =>
              rw [pow_zero, Int.tdiv_one]
              exact outside
          | succ earlier =>
              rw [← next]
              exact before earlier (Nat.lt_of_succ_lt_succ below)
        · intro ε increment exponent
          rw [scale.reduce_outside outside, reduced, next, Function.iterate_succ_apply]
      · refine ⟨0, ?_, ?_, ?_⟩
        · rw [pow_zero, Int.tdiv_one]
          exact outside
        · intro earlier below
          exact absurd below (Nat.not_lt_zero earlier)
        · intro ε increment exponent
          rw [scale.reduce_inside outside, pow_zero, Int.tdiv_one]
          rfl

theorem turns_spec (value : Int) :
    ¬scale.Outside (value.tdiv (scale.base ^ scale.turns value)) ∧
      (∀ earlier < scale.turns value, scale.Outside (value.tdiv (scale.base ^ earlier))) ∧
      ∀ {ε : Type} (increment : ε → ε) (exponent : ε),
        scale.reduce increment value exponent =
          (value.tdiv (scale.base ^ scale.turns value),
            increment^[scale.turns value] exponent) := by
  obtain ⟨count, within, before, reduced⟩ := scale.exists_reduce value
  have counted : scale.turns value = count := by
    rw [turns, reduced, Nat.succ_iterate, Nat.zero_add]
  rw [counted]
  exact ⟨within, before, reduced⟩

theorem outside_of_tdiv {value : Int} (outside : scale.Outside (value.tdiv scale.base)) :
    scale.Outside value := by
  have low := scale.low_nonpos
  have high := scale.high_nonneg
  have smaller := Int.natAbs_tdiv_le_natAbs value scale.base
  rcases le_total 0 value with nonneg | nonpos
  · have quotient := Int.tdiv_nonneg nonneg (le_of_lt scale.base_pos)
    unfold Outside at outside ⊢
    omega
  · have quotient := Int.tdiv_nonneg (neg_nonneg.mpr nonpos) (le_of_lt scale.base_pos)
    rw [Int.neg_tdiv] at quotient
    unfold Outside at outside ⊢
    omega

theorem outside_of_le {value : Int} {earlier later : Nat} (order : earlier ≤ later)
    (outside : scale.Outside (value.tdiv (scale.base ^ later))) :
    scale.Outside (value.tdiv (scale.base ^ earlier)) := by
  induction later, order using Nat.le_induction with
  | base => exact outside
  | succ later order inductionHypothesis =>
      apply inductionHypothesis
      apply scale.outside_of_tdiv
      rw [tdiv_tdiv value (pow_pos scale.base_pos later), ← pow_succ]
      exact outside

/-- The last quotient is between the limits, and the one before is not. -/
theorem turns_eq_iff (value : Int) (count : Nat) :
    scale.turns value = count ↔
      ¬scale.Outside (value.tdiv (scale.base ^ count)) ∧
        (count = 0 ∨ scale.Outside (value.tdiv (scale.base ^ (count - 1)))) := by
  obtain ⟨within, before, reduced⟩ := scale.turns_spec value
  constructor
  · intro counted
    rw [← counted]
    constructor
    · exact within
    · rcases Nat.eq_zero_or_pos (scale.turns value) with none | some
      · exact Or.inl none
      · exact Or.inr (before _ (Nat.sub_lt some one_pos))
  · intro counted
    obtain ⟨lastWithin, last⟩ := counted
    apply le_antisymm
    · exact le_of_not_gt fun fewer => lastWithin (before count fewer)
    · apply le_of_not_gt
      intro more
      have previous := last.resolve_left (Nat.ne_of_gt (Nat.zero_lt_of_lt more))
      exact within (scale.outside_of_le (Nat.le_sub_one_of_lt more) previous)

theorem outside_tdiv_iff (value : Int) (count : Nat) :
    scale.Outside (value.tdiv (scale.base ^ count)) ↔
      (scale.high + 1) * scale.base ^ count ≤ value ∨
        value ≤ (scale.low - 1) * scale.base ^ count := by
  have positive := pow_pos scale.base_pos count
  unfold Outside
  rw [gt_iff_lt, ← not_le, ← not_le, tdiv_le_iff positive scale.high_nonneg,
    le_tdiv_iff positive scale.low_nonpos, not_lt, not_lt]

/-! ### What a field keeps of it -/

/-- The numbers that so many turns bring, no sooner, into the range of the field. -/
def KeptBy (bits most : Nat) (value : Int) : Prop :=
  ∃ count ≤ most,
    (count = 0 ∨ (scale.high + 1) * scale.base ^ (count - 1) ≤ value ∨
      value ≤ (scale.low - 1) * scale.base ^ (count - 1)) ∧
    -(2 ^ (bits - 1) + 1) * scale.base ^ count < value ∧
    value < 2 ^ (bits - 1) * scale.base ^ count

theorem inSigned_tdiv_iff (bits : Nat) (value : Int) (count : Nat) :
    InSigned bits (value.tdiv (scale.base ^ count)) ↔
      -(2 ^ (bits - 1) + 1) * scale.base ^ count < value ∧
        value < 2 ^ (bits - 1) * scale.base ^ count := by
  have positive := pow_pos scale.base_pos count
  have limit : (0 : Int) < 2 ^ (bits - 1) := by positivity
  unfold InSigned
  rw [← Int.le_sub_one_iff, le_tdiv_iff positive (by linarith),
    tdiv_le_iff positive (by linarith), sub_add_cancel, neg_add']

/-- For a field inside the limits: few enough turns, and the field keeps the quotient. -/
theorem keptBy_iff {bits : Nat} (most : Nat) (value : Int)
    (narrow : ∀ quotient, InSigned bits quotient → ¬scale.Outside quotient) :
    scale.KeptBy bits most value ↔
      scale.turns value ≤ most ∧
        InSigned bits (value.tdiv (scale.base ^ scale.turns value)) := by
  constructor
  · intro kept
    obtain ⟨count, few, last, range⟩ := kept
    have held := (scale.inSigned_tdiv_iff bits value count).mpr range
    have counted : scale.turns value = count := by
      rw [scale.turns_eq_iff, scale.outside_tdiv_iff value (count - 1)]
      exact ⟨narrow _ held, last⟩
    rw [counted]
    exact ⟨few, held⟩
  · intro kept
    refine ⟨scale.turns value, kept.1, ?_, (scale.inSigned_tdiv_iff bits value _).mp kept.2⟩
    rw [← scale.outside_tdiv_iff]
    exact ((scale.turns_eq_iff value _).mp rfl).2

end Scale

end StdPrograms.Foundation

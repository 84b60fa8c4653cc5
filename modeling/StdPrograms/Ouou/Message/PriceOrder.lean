import Mathlib.Algebra.Order.Field.Rat
import Mathlib.Data.Rat.Cast.Order
import Mathlib.Tactic.FieldSimp
import Mathlib.Tactic.Positivity
import StdPrograms.Ouou.Message.Equality

/-!
Contract: the comparison operators of `MarketPrice`.

Owns `==`, `<` and `>` of prices of one class, the loops that bring two prices to
one number of digits, and the order of the quotients that these comparisons follow.

Does not own which market a decoded price gets.
-/

set_option linter.style.nameCheck false

namespace StdPrograms.Ouou

/-- What `compare` sees of a price: its integer, and its market. -/
structure MarketPrice where
  value : ℤ
  market : Str
deriving DecidableEq

namespace MarketPrice

/-- What stands on the other side of an operator. -/
inductive Other where
  | same (price : MarketPrice)
  | int (value : ℤ)
  | foreign

/-- `compare`, in the answer of an operator; `none` where a market has no digits. -/
def compared (self other : MarketPrice) (answer : ℤ → Bool) : Option Bool :=
  (compare self.value self.market other.value other.market).map answer

def __eq__ (self : MarketPrice) : Other → Option Bool
  | .same other => self.compared other fun difference => difference = 0
  | .int other => some (self.value = other)
  | .foreign => some false

def __lt__ (self : MarketPrice) : Other → Option Bool
  | .same other => self.compared other fun difference => difference < 0
  | .int other => some (self.value < other)
  | .foreign => some false

def __gt__ (self : MarketPrice) : Other → Option Bool
  | .same other => self.compared other fun difference => 0 < difference
  | .int other => some (other < self.value)
  | .foreign => some false

/-! ### The loops of compare -/

/-- `for i in range(digits, repr_digits): a *= 10`. -/
def rescaled (digits repr_digits : ℕ) (a : ℤ) : ℤ :=
  (List.range (repr_digits - digits)).foldl (fun a _ => a * 10) a

theorem rescaled_eq (digits repr_digits : ℕ) (a : ℤ) :
    rescaled digits repr_digits a = a * 10 ^ (repr_digits - digits) := by
  unfold rescaled
  induction repr_digits - digits with
  | zero => simp
  | succ rounds inductionHypothesis =>
      rw [List.range_succ, List.foldl_append, inductionHypothesis, pow_succ, ← mul_assoc]
      rfl

theorem compare_rescaled (value other : ℤ) {market otherMarket : Str} {digits otherDigits : ℕ}
    (has : DIGITS market = some digits) (otherHas : DIGITS otherMarket = some otherDigits) :
    compare value market other otherMarket =
      some (rescaled digits (max digits otherDigits) value -
        rescaled otherDigits (max digits otherDigits) other) := by
  rw [compare, has, otherHas, rescaled_eq, rescaled_eq]
  rfl

/-! ### The quotients -/

/-- The price that the integer stands for in a market with these digits. -/
def quotient (digits : ℕ) (value : ℤ) : ℚ := value / 10 ^ digits

/-- A rescaled price is the quotient at the common scale. -/
theorem rescaled_quotient {digits repr_digits : ℕ} (fits : digits ≤ repr_digits) (value : ℤ) :
    (rescaled digits repr_digits value : ℚ) = quotient digits value * 10 ^ repr_digits := by
  have split : (10 : ℚ) ^ repr_digits = 10 ^ digits * 10 ^ (repr_digits - digits) := by
    rw [← pow_add]
    congr 1
    omega
  rw [rescaled_eq, quotient, split]
  push_cast
  field_simp

/-- `market` is a key of `DIGITS`. -/
def Listed (self : MarketPrice) (digits : ℕ) : Prop := DIGITS self.market = some digits

variable {x y z : MarketPrice} {xDigits yDigits zDigits : ℕ}

/-- The difference has the sign of the difference of the quotients. -/
theorem compare_quotients (xListed : x.Listed xDigits) (yListed : y.Listed yDigits) :
    ∃ difference : ℤ, compare x.value x.market y.value y.market = some difference ∧
      (difference < 0 ↔ quotient xDigits x.value < quotient yDigits y.value) ∧
      (difference = 0 ↔ quotient xDigits x.value = quotient yDigits y.value) ∧
      (0 < difference ↔ quotient yDigits y.value < quotient xDigits x.value) := by
  have isCompared := compare_rescaled x.value y.value xListed yListed
  have scale : (0 : ℚ) < 10 ^ max xDigits yDigits := by positivity
  have left := rescaled_quotient (le_max_left xDigits yDigits) x.value
  have right := rescaled_quotient (le_max_right xDigits yDigits) y.value
  refine ⟨_, isCompared, ?_, ?_, ?_⟩
  · rw [sub_neg, ← @Int.cast_lt ℚ, left, right, mul_lt_mul_iff_left₀ scale]
  · rw [sub_eq_zero, ← @Int.cast_inj ℚ, left, right, mul_left_inj' scale.ne']
  · rw [sub_pos, ← @Int.cast_lt ℚ, left, right, mul_lt_mul_iff_left₀ scale]

theorem lt_iff (xListed : x.Listed xDigits) (yListed : y.Listed yDigits) :
    x.__lt__ (.same y) = some true ↔ quotient xDigits x.value < quotient yDigits y.value := by
  obtain ⟨difference, isCompared, below, -⟩ := compare_quotients xListed yListed
  simp [__lt__, compared, isCompared, below]

theorem eq_iff (xListed : x.Listed xDigits) (yListed : y.Listed yDigits) :
    x.__eq__ (.same y) = some true ↔ quotient xDigits x.value = quotient yDigits y.value := by
  obtain ⟨difference, isCompared, -, equal, -⟩ := compare_quotients xListed yListed
  simp [__eq__, compared, isCompared, equal]

theorem gt_iff (xListed : x.Listed xDigits) (yListed : y.Listed yDigits) :
    x.__gt__ (.same y) = some true ↔ quotient yDigits y.value < quotient xDigits x.value := by
  obtain ⟨difference, isCompared, -, -, above⟩ := compare_quotients xListed yListed
  simp [__gt__, compared, isCompared, above]

/-- Exactly one of the three operators holds of two prices. -/
def ExactlyOne (less equal greater : Prop) : Prop :=
  (less ∧ ¬ equal ∧ ¬ greater) ∨ (¬ less ∧ equal ∧ ¬ greater) ∨ (¬ less ∧ ¬ equal ∧ greater)

theorem exactlyOne_of_order (p q : ℚ) : ExactlyOne (p < q) (p = q) (q < p) := by
  rcases lt_trichotomy p q with below | equal | above
  · exact .inl ⟨below, below.ne, below.asymm⟩
  · exact .inr (.inl ⟨equal.not_lt, equal, equal.not_gt⟩)
  · exact .inr (.inr ⟨above.asymm, above.ne', above⟩)

/-- Prices of listed markets are totally preordered, by their quotients. -/
theorem preordered (xListed : x.Listed xDigits) (yListed : y.Listed yDigits)
    (zListed : z.Listed zDigits) :
    ExactlyOne (x.__lt__ (.same y) = some true) (x.__eq__ (.same y) = some true)
        (x.__gt__ (.same y) = some true) ∧
      (x.__lt__ (.same y) = some true ↔
        quotient xDigits x.value < quotient yDigits y.value) ∧
      (x.__lt__ (.same y) = some true → y.__lt__ (.same z) = some true →
        x.__lt__ (.same z) = some true) ∧
      (x.__eq__ (.same y) = some true → y.__eq__ (.same z) = some true →
        x.__eq__ (.same z) = some true) := by
  rw [lt_iff xListed yListed, lt_iff yListed zListed, lt_iff xListed zListed,
    eq_iff xListed yListed, eq_iff yListed zListed, eq_iff xListed zListed,
    gt_iff xListed yListed]
  exact ⟨exactlyOne_of_order _ _, Iff.rfl, lt_trans, Eq.trans⟩

def hongKong (value : ℤ) : MarketPrice := ⟨value, "HK".toList⟩

def nasdaq (value : ℤ) : MarketPrice := ⟨value, "NASDAQ".toList⟩

/-- 1.590 in Hong Kong, 1.60 at NASDAQ, and 1.610 in Hong Kong. -/
theorem preordered_across :
    ExactlyOne ((hongKong 1590).__lt__ (.same (nasdaq 160)) = some true)
        ((hongKong 1590).__eq__ (.same (nasdaq 160)) = some true)
        ((hongKong 1590).__gt__ (.same (nasdaq 160)) = some true) ∧
      ((hongKong 1590).__lt__ (.same (nasdaq 160)) = some true ↔
        quotient 3 1590 < quotient 2 160) ∧
      ((hongKong 1590).__lt__ (.same (nasdaq 160)) = some true →
        (nasdaq 160).__lt__ (.same (hongKong 1610)) = some true →
        (hongKong 1590).__lt__ (.same (hongKong 1610)) = some true) ∧
      ((hongKong 1590).__eq__ (.same (nasdaq 160)) = some true →
        (nasdaq 160).__eq__ (.same (hongKong 1610)) = some true →
        (hongKong 1590).__eq__ (.same (hongKong 1610)) = some true) :=
  @preordered (hongKong 1590) (nasdaq 160) (hongKong 1610) 3 2 3 rfl rfl rfl

end MarketPrice

end StdPrograms.Ouou

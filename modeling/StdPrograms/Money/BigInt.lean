import StdPrograms.Foundation.Scale

/-!
Contract: the packed number of `types.h`, a mantissa and an exponent of 16 in two
signed fields of one word.

Owns the way of a 64-bit number into the fields and back, and for which numbers no more
than the low digits are lost. The limits of the loop are those of an unsigned field, and
the exponent can be greater than three.

Does not own the file records that hold such numbers.
-/

namespace StdPrograms.Money

open StdPrograms.Foundation

/-- `int32_t base_ : BASE_BITS; int32_t exp_ : EXP_BITS;` -/
structure BigInt where
  base_ : BitVec 29
  exp_ : BitVec 3
deriving DecidableEq, Repr

namespace BigInt

/-- `BASE`, `MIN_BASE` and `MAX_BASE`. -/
def limits : Scale where
  base := 16
  low := -2 ^ 29
  high := 2 ^ 29 - 1
  two_le_base := by decide
  low_nonpos := by decide
  high_nonneg := by decide

def from_int64 (val : Int64) : BigInt :=
  let (val, exp_) := limits.reduce (fun exp_ => exp_ + 1) val.toInt 0
  { base_ := BitVec.ofInt 29 val, exp_ := exp_ }

/-- A negative exponent multiplies nothing. -/
def to_int64 (self : BigInt) : Option Int :=
  multiply 64 limits.base self.exp_.toInt.toNat self.base_.toInt

/-- The iterations of the loop of `from_int64`. -/
def iterations (v : Int64) : Nat := limits.turns v.toInt

theorem from_int64_eq (v : Int64) :
    from_int64 v =
      { base_ := BitVec.ofInt 29 (v.toInt.tdiv (16 ^ iterations v)),
        exp_ := BitVec.ofNat 3 (iterations v) } := by
  have reduced := (limits.turns_spec v.toInt).2.2 (fun exp_ : BitVec 3 => exp_ + 1) 0
  rw [from_int64, reduced, iterate_add_one]
  rfl

/-- Whatever the fields hold, they hold no number of more than 41 bits. -/
theorem abs_value_le (self : BigInt) :
    |self.base_.toInt * 16 ^ self.exp_.toInt.toNat| ≤ 2 ^ 40 := by
  have mantissa : |self.base_.toInt| ≤ 2 ^ 28 := by
    rw [abs_le]
    exact ⟨self.base_.le_toInt, le_of_lt self.base_.toInt_lt⟩
  have few : self.exp_.toInt.toNat ≤ 3 := by
    have below := self.exp_.toInt_lt
    omega
  have power : (16 : Int) ^ self.exp_.toInt.toNat ≤ 16 ^ 3 := pow_le_pow_right₀ (by decide) few
  have positive : (0 : Int) ≤ 16 ^ self.exp_.toInt.toNat := by positivity
  calc
    |self.base_.toInt * 16 ^ self.exp_.toInt.toNat|
        = |self.base_.toInt| * 16 ^ self.exp_.toInt.toNat := by
      rw [abs_mul, abs_of_nonneg positive]
    _ ≤ 2 ^ 28 * 16 ^ 3 := mul_le_mul mantissa power positive (by decide)
    _ = 2 ^ 40 := by decide

theorem to_int64_eq (self : BigInt) :
    self.to_int64 = some (self.base_.toInt * 16 ^ self.exp_.toInt.toNat) := by
  have bounds := abs_le.mp (abs_value_le self)
  have wide : (2 : Int) ^ 40 < 2 ^ 63 := by decide
  apply multiply_eq
  · decide
  · constructor
    · exact le_of_lt (lt_of_lt_of_le (neg_lt_neg wide) bounds.1)
    · exact lt_of_le_of_lt bounds.2 wide

/-- What is lost is below the last digit kept, and nothing where no digit is dropped. -/
def KeepsHighDigits (v : Int64) : Prop :=
  ∃ result, (from_int64 v).to_int64 = some result ∧
    |result - v.toInt| < 16 ^ iterations v ∧
    (-2 ^ 29 ≤ v.toInt ∧ v.toInt < 2 ^ 29 → result = v.toInt)

theorem outside_iff (value : Int) :
    limits.Outside value ↔ 2 ^ 29 ≤ value ∨ value < -2 ^ 29 := by
  change value > 2 ^ 29 - 1 ∨ value < -2 ^ 29 ↔ _
  omega

theorem iterations_eq_zero {v : Int64} (range : -2 ^ 29 ≤ v.toInt ∧ v.toInt < 2 ^ 29) :
    iterations v = 0 := by
  rw [iterations, limits.turns_eq_iff, pow_zero, Int.tdiv_one]
  constructor
  · rw [outside_iff]
    omega
  · exact Or.inl rfl

/-- Up to three turns fit in the exponent: then it is the mantissa that decides. -/
theorem keepsHighDigits_iff_of_le {v : Int64} (few : iterations v ≤ 3) :
    KeepsHighDigits v ↔ InSigned 29 (v.toInt.tdiv (16 ^ iterations v)) := by
  have exponent : (BitVec.ofNat 3 (iterations v)).toInt.toNat = iterations v := by
    have small : iterations v < 2 ^ (3 - 1) := Nat.lt_succ_of_le few
    rw [toInt_ofNat_of_lt (by decide) small]
    rfl
  have positive : (0 : Int) < 16 ^ iterations v := by positivity
  have most : (16 : Int) ^ iterations v ≤ (2 ^ 29 - 1) * 16 ^ iterations v := by linarith
  rw [KeepsHighDigits, from_int64_eq, to_int64_eq, exponent,
    ← toInt_ofInt_eq_self_iff (by decide), ← abs_ofInt_tdiv_mul_sub_lt_iff positive le_rfl most]
  constructor
  · intro keeps
    obtain ⟨result, returned, near, whole⟩ := keeps
    rw [← Option.some.inj returned] at near
    exact near
  · intro near
    refine ⟨_, rfl, near, ?_⟩
    intro range
    rw [iterations_eq_zero range, pow_zero] at near ⊢
    exact sub_eq_zero.mp (Int.abs_lt_one_iff.mp near)

/-- With more turns the exponent is not the number of turns any more. -/
theorem not_keepsHighDigits {v : Int64} (many : 4 ≤ iterations v) : ¬KeepsHighDigits v := by
  intro keeps
  obtain ⟨result, returned, near, whole⟩ := keeps
  rw [to_int64_eq] at returned
  have small := abs_value_le (from_int64 v)
  rw [Option.some.inj returned] at small
  have last := ((limits.turns_eq_iff v.toInt (iterations v)).mp rfl).2.resolve_left (by omega)
  obtain ⟨turns, counted⟩ : ∃ turns, iterations v = turns + 4 := ⟨iterations v - 4, by omega⟩
  have power : (1 : Int) ≤ 16 ^ turns := one_le_pow₀ (by decide)
  have large : 2 ^ 29 * (16 ^ turns * 16 ^ 3) ≤ |v.toInt| := by
    rw [limits.outside_tdiv_iff, counted] at last
    have reached : 2 ^ 29 * 16 ^ (turns + 3) ≤ v.toInt ∨
      v.toInt ≤ (-2 ^ 29 - 1) * 16 ^ (turns + 3) := last
    rw [pow_add] at reached
    rcases reached with above | below
    · exact le_trans above (le_abs_self _)
    · have negated := neg_le_abs v.toInt
      linarith
  have between := abs_sub_abs_le_abs_sub v.toInt result
  rw [counted, pow_add] at near
  rw [abs_sub_comm] at between
  linarith

theorem fits_iff (v : Int64) :
    limits.KeptBy 29 3 v.toInt ↔
      iterations v ≤ 3 ∧ InSigned 29 (v.toInt.tdiv (16 ^ iterations v)) := by
  apply limits.keptBy_iff
  intro quotient held
  unfold InSigned at held
  rw [outside_iff]
  omega

/-- The high digits are kept exactly for the numbers that up to three divisions bring into
the signed mantissa. -/
theorem keepsHighDigits_iff (v : Int64) : KeepsHighDigits v ↔ limits.KeptBy 29 3 v.toInt := by
  rw [fits_iff]
  rcases Nat.lt_or_ge 3 (iterations v) with many | few
  · apply iff_of_false
    · exact not_keepsHighDigits many
    · exact fun kept => absurd kept.1 (Nat.not_le_of_gt many)
  · rw [keepsHighDigits_iff_of_le few]
    exact (and_iff_right few).symm

/-- The smallest number that the signed mantissa cannot hold comes back negative. -/
theorem not_keepsHighDigits_mantissa :
    (from_int64 268435456).to_int64 = some (-268435456) ∧ ¬KeepsHighDigits 268435456 := by
  have range : -2 ^ 29 ≤ (268435456 : Int64).toInt ∧ (268435456 : Int64).toInt < 2 ^ 29 := by
    decide
  have packed : (from_int64 268435456).to_int64 = some (-268435456) := by
    rw [from_int64_eq, iterations_eq_zero range]
    decide
  constructor
  · exact packed
  · intro keeps
    obtain ⟨result, returned, near, whole⟩ := keeps
    have equal := whole range
    rw [packed, ← Option.some.injEq, equal] at returned
    exact absurd returned (by decide)

end BigInt

end StdPrograms.Money

import Mathlib.Algebra.Order.Ring.Abs
import Mathlib.Data.BitVec
import Mathlib.Tactic.Linarith
import Mathlib.Tactic.Positivity

/-!
Contract: signed machine integers.

Owns the range of a signed type, arithmetic that is undefined outside of it, repeated
multiplication, and the values that a signed field of some bits keeps.

Does not own any width.
-/

namespace StdPrograms.Foundation

/-- The numbers that a signed type of so many bits has. -/
def InSigned (bits : Nat) (value : Int) : Prop :=
  -2 ^ (bits - 1) ≤ value ∧ value < 2 ^ (bits - 1)

instance (bits : Nat) (value : Int) : Decidable (InSigned bits value) :=
  inferInstanceAs (Decidable (_ ∧ _))

/-- The result of an operation in the type; there is none on overflow. -/
def signed (bits : Nat) (value : Int) : Option Int :=
  if InSigned bits value then some value else none

variable {bits : Nat} {value : Int}

theorem signed_eq_some_iff {result : Int} :
    signed bits value = some result ↔ InSigned bits value ∧ value = result := by
  unfold signed
  split
  next held => simp [held]
  next overflows => simp [overflows]

theorem signed_of_inSigned (held : InSigned bits value) : signed bits value = some value :=
  if_pos held

/-- A result in the type that is not negative; there is none on overflow. -/
def position (bits value : Nat) : Option Nat :=
  if value < 2 ^ (bits - 1) then some value else none

theorem position_of_lt {value : Nat} (small : value < 2 ^ (bits - 1)) :
    position bits value = some value :=
  if_pos small

theorem position_eq_none {value : Nat} (large : 2 ^ (bits - 1) ≤ value) :
    position bits value = none :=
  if_neg (Nat.not_lt_of_le large)

/-- The conversion to a signed type of so many bits. -/
def converted (bits : Nat) (value : Int) : Int :=
  (value + 2 ^ (bits - 1)) % 2 ^ bits - 2 ^ (bits - 1)

theorem converted_of_inSigned (positive : 0 < bits) (held : InSigned bits value) :
    converted bits value = value := by
  have doubled : (2 : Int) ^ bits = 2 ^ (bits - 1) * 2 := by
    rw [← pow_succ, Nat.sub_add_cancel positive]
  obtain ⟨above, below⟩ := held
  rw [converted, Int.emod_eq_of_lt (by linarith) (by linarith), Int.add_sub_cancel]

/-- Sums may be converted early. -/
theorem converted_converted_add (bits : Nat) (value more : Int) :
    converted bits (converted bits value + more) = converted bits (value + more) := by
  rw [converted, converted, converted, sub_add_eq_add_sub, sub_add_cancel, Int.emod_add_emod,
    add_right_comm]

theorem converted_natCast {number : Nat} (positive : 0 < bits)
    (small : number < 2 ^ (bits - 1)) : converted bits (number : Int) = number := by
  have below : (number : Int) < 2 ^ (bits - 1) := by exact_mod_cast small
  have limit : (0 : Int) < 2 ^ (bits - 1) := by positivity
  exact converted_of_inSigned positive ⟨by linarith [Int.natCast_nonneg number], below⟩

theorem converted_succ {number : Nat} (positive : 0 < bits)
    (small : number + 1 < 2 ^ (bits - 1)) :
    converted bits ((number : Int) + 1) = (number + 1 : Nat) :=
  converted_natCast positive small

theorem toNat_converted {number : Nat} (positive : 0 < bits)
    (small : number < 2 ^ (bits - 1)) : (converted bits (number : Int)).toNat = number := by
  rw [converted_natCast positive small, Int.toNat_natCast]

/-! ### Fields -/

theorem inSigned_toInt (field : BitVec bits) :
    InSigned bits field.toInt := by
  constructor
  · exact field.le_toInt
  · exact field.toInt_lt

/-- A field keeps exactly the numbers of its range. -/
theorem toInt_ofInt_eq_self_iff (positive : 0 < bits) :
    (BitVec.ofInt bits value).toInt = value ↔ InSigned bits value := by
  constructor
  · intro kept
    rw [← kept]
    exact inSigned_toInt _
  · intro held
    have doubled : (2 : Int) ^ bits = 2 ^ (bits - 1) * 2 := by
      rw [← pow_succ, Nat.sub_add_cancel positive]
    obtain ⟨above, below⟩ := held
    rw [BitVec.toInt_ofInt]
    apply Int.bmod_eq_of_le_mul_two
    · push_cast
      rw [doubled]
      linarith
    · push_cast
      rw [doubled]
      linarith

theorem toInt_ofNat_of_lt {count : Nat} (positive : 0 < bits) (small : count < 2 ^ (bits - 1)) :
    (BitVec.ofNat bits count).toInt = count := by
  rw [← BitVec.ofInt_natCast, toInt_ofInt_eq_self_iff positive]
  constructor
  · have limit : (0 : Int) ≤ 2 ^ (bits - 1) := by positivity
    linarith [Int.natCast_nonneg count]
  · exact_mod_cast small

/-- A field that does not keep a number is at least its whole range away from it. -/
theorem le_abs_toInt_ofInt_sub (changed : (BitVec.ofInt bits value).toInt ≠ value) :
    2 ^ bits ≤ |(BitVec.ofInt bits value).toInt - value| := by
  rw [BitVec.toInt_ofInt] at changed ⊢
  have divides : ((2 ^ bits : Nat) : Int) ∣ value.bmod (2 ^ bits) - value :=
    Int.dvd_bmod_sub_self
  have nonzero : 0 < |value.bmod (2 ^ bits) - value| := abs_pos.mpr (sub_ne_zero.mpr changed)
  have least := Int.le_of_dvd nonzero ((dvd_abs _ _).mpr divides)
  push_cast at least
  exact least

theorem iterate_add_one (count : Nat) :
    (fun field : BitVec bits => field + 1)^[count] 0 = BitVec.ofNat bits count := by
  induction count with
  | zero => rfl
  | succ count inductionHypothesis =>
      rw [Function.iterate_succ_apply', inductionHypothesis, BitVec.ofNat_add]
      rfl

/-! ### Repeated multiplication -/

/-- `for (...) value *= base;` -/
def multiply (bits : Nat) (base : Int) : Nat → Int → Option Int
  | 0, value => some value
  | count + 1, value => (signed bits (value * base)).bind (multiply bits base count)

theorem eq_of_multiply {base result : Int} {count : Nat}
    (returned : multiply bits base count value = some result) :
    result = value * base ^ count := by
  induction count generalizing value with
  | zero =>
      rw [pow_zero, mul_one]
      exact (Option.some.inj returned).symm
  | succ count inductionHypothesis =>
      obtain ⟨product, multiplied, later⟩ := Option.bind_eq_some_iff.mp returned
      rw [inductionHypothesis later, ← (signed_eq_some_iff.mp multiplied).2, mul_assoc,
        ← pow_succ']

/-- No product overflows where the last one does not. -/
theorem multiply_eq {base : Int} (count : Nat) (positive : 1 ≤ base)
    (held : InSigned bits (value * base ^ count)) :
    multiply bits base count value = some (value * base ^ count) := by
  induction count generalizing value with
  | zero =>
      rw [pow_zero, mul_one]
      rfl
  | succ count inductionHypothesis =>
      rw [pow_succ', ← mul_assoc] at held ⊢
      have factor : 1 ≤ base ^ count := one_le_pow₀ positive
      have limit : (0 : Int) < 2 ^ (bits - 1) := by positivity
      have firstHeld : InSigned bits (value * base) := by
        obtain ⟨above, below⟩ := held
        constructor
        · by_contra tooLow
          have negative : value * base ≤ 0 := by linarith
          have lower := mul_le_mul_of_nonpos_left factor negative
          linarith
        · by_contra tooHigh
          have nonneg : 0 ≤ value * base := by linarith
          have higher := mul_le_mul_of_nonneg_left factor nonneg
          linarith
      rw [multiply, signed_of_inSigned firstHeld]
      exact inductionHypothesis held

end StdPrograms.Foundation

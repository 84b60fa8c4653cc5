import StdPrograms.Foundation.Scale

/-!
Contract: the packed number of `bigint.h`, a mantissa, an exponent of 256 and the lowest
digit in three signed fields.

Owns the way of a 64-bit number into the fields and back, and for which numbers it comes
back up to the digits that were dropped. The lowest digit is subtracted as its field
keeps it, so the number that is divided can be above the one that was given.

Does not own the printed form.
-/

namespace StdPrograms.Utils

open StdPrograms.Foundation

/-- `base_ : BASE_BITS; exp_ : EXP_BITS; mod_ : MOD_BITS;` -/
structure BigInt where
  base_ : BitVec 16
  exp_ : BitVec 8
  mod_ : BitVec 8
deriving DecidableEq, Repr

namespace BigInt

/-- `BASE`, `MIN_BASE` and `MAX_BASE`. -/
def limits : Scale where
  base := 256
  low := -2 ^ 16
  high := 2 ^ 16 - 1
  two_le_base := by decide
  low_nonpos := by decide
  high_nonneg := by decide

/-- `mod_ = val % BASE` -/
def lowPart (val : Int64) : BitVec 8 := BitVec.ofInt 8 (val.toInt.tmod limits.base)

def from_int64 (val : Int64) : Option BigInt := do
  let mod_ := lowPart val
  let val ← signed 64 (val.toInt - mod_.toInt)
  let (val, exp_) := limits.reduce (fun exp_ => exp_ + 1) val 0
  some { base_ := BitVec.ofInt 16 val, exp_ := exp_, mod_ := mod_ }

def to_int64 (self : BigInt) : Option Int := do
  let val ← multiply 64 limits.base self.exp_.toInt.toNat self.base_.toInt
  signed 64 (val + self.mod_.toInt)

/-- What is divided. -/
def rest (v : Int64) : Int := v.toInt - (lowPart v).toInt

/-- The iterations of the loop of `from_int64`. -/
def iterations (v : Int64) : Nat := limits.turns (rest v)

/-- What is lost is below the digit after the last one dropped, and nothing where no digit
is dropped. -/
def Reconstructs (v : Int64) : Prop :=
  ∃ result, (from_int64 v).bind to_int64 = some result ∧
    |result - v.toInt| < 256 ^ (iterations v + 1) ∧
    (iterations v = 0 → result = v.toInt)

/-- The nearest multiple of 256, the upper one of two. -/
def nearest (v : Int) : Int := 256 * ((v + 128) / 256)

theorem lowPart_eq (v : Int64) : (lowPart v).toInt = v.toInt.bmod 256 := by
  have division := Int.tmod_def v.toInt 256
  rw [lowPart, BitVec.toInt_ofInt]
  change (v.toInt.tmod 256).bmod 256 = _
  rw [division, Int.bmod_def, Int.bmod_def]
  omega

theorem rest_eq (v : Int64) : rest v = nearest v.toInt := by
  rw [rest, lowPart_eq, nearest, Int.bmod_def]
  omega

/-- The low part is subtracted without overflow except from the largest numbers. -/
theorem inSigned_rest_iff (v : Int64) : InSigned 64 (rest v) ↔ v.toInt < 2 ^ 63 - 128 := by
  have above := v.le_toInt
  have below := v.toInt_lt
  rw [rest_eq]
  unfold InSigned nearest
  omega

theorem iterations_le {v : Int64} (held : InSigned 64 (rest v)) : iterations v ≤ 6 := by
  by_contra many
  have last := ((limits.turns_eq_iff (rest v) (iterations v)).mp rfl).2.resolve_left (by omega)
  have sixth := limits.outside_of_le (Nat.le_sub_one_of_lt (Nat.lt_of_not_le many)) last
  rw [limits.outside_tdiv_iff] at sixth
  have reached : 2 ^ 16 * 256 ^ 6 ≤ rest v ∨ rest v ≤ (-2 ^ 16 - 1) * 256 ^ 6 := sixth
  unfold InSigned at held
  omega

theorem from_int64_eq {v : Int64} (held : InSigned 64 (rest v)) :
    from_int64 v = some
      { base_ := BitVec.ofInt 16 ((rest v).tdiv (256 ^ iterations v))
        exp_ := BitVec.ofNat 8 (iterations v)
        mod_ := lowPart v } := by
  have reduced := (limits.turns_spec (rest v)).2.2 (fun exp_ : BitVec 8 => exp_ + 1) 0
  have subtracted : signed 64 (v.toInt - (lowPart v).toInt) = some (rest v) :=
    signed_of_inSigned held
  rw [from_int64, subtracted, Option.bind_eq_bind, Option.bind_some, reduced, iterate_add_one]
  rfl

/-- The exponent's field is wide enough. -/
theorem exponent_eq {v : Int64} (held : InSigned 64 (rest v)) :
    (BitVec.ofNat 8 (iterations v)).toInt.toNat = iterations v := by
  have few := iterations_le held
  rw [toInt_ofNat_of_lt (by decide) (by omega)]
  rfl

/-- What the way there and back does, as far as no operation overflows. -/
theorem bind_to_int64_eq_some {v : Int64} (held : InSigned 64 (rest v)) {result : Int}
    (returned : (from_int64 v).bind to_int64 = some result) :
    result = (BitVec.ofInt 16 ((rest v).tdiv (256 ^ iterations v))).toInt * 256 ^ iterations v +
      (lowPart v).toInt := by
  rw [from_int64_eq held, Option.bind_some, to_int64, exponent_eq held] at returned
  obtain ⟨product, multiplied, added⟩ := Option.bind_eq_some_iff.mp returned
  rw [← (signed_eq_some_iff.mp added).2, eq_of_multiply multiplied]
  rfl

/-- If the mantissa keeps the quotient, nothing overflows on the way back. -/
theorem bind_to_int64_eq {v : Int64} (held : InSigned 64 (rest v))
    (kept : (BitVec.ofInt 16 ((rest v).tdiv (256 ^ iterations v))).toInt =
      (rest v).tdiv (256 ^ iterations v)) :
    (from_int64 v).bind to_int64 =
      some ((rest v).tdiv (256 ^ iterations v) * 256 ^ iterations v + (lowPart v).toInt) := by
  have between := tdiv_mul_between (rest v) (pow_pos limits.base_pos (iterations v))
  change 0 ≤ (rest v).tdiv (256 ^ iterations v) * 256 ^ iterations v ∧
    (rest v).tdiv (256 ^ iterations v) * 256 ^ iterations v ≤ rest v ∨
    rest v ≤ (rest v).tdiv (256 ^ iterations v) * 256 ^ iterations v ∧
      (rest v).tdiv (256 ^ iterations v) * 256 ^ iterations v ≤ 0 at between
  have product : InSigned 64 ((rest v).tdiv (256 ^ iterations v) * 256 ^ iterations v) := by
    unfold InSigned at held ⊢
    omega
  have sum : InSigned 64
      ((rest v).tdiv (256 ^ iterations v) * 256 ^ iterations v + (lowPart v).toInt) := by
    have divided : rest v = v.toInt - (lowPart v).toInt := rfl
    have lowAbove := (lowPart v).le_toInt
    have lowBelow := (lowPart v).toInt_lt
    have above := v.le_toInt
    have below := v.toInt_lt
    unfold InSigned
    omega
  have multiplied : multiply 64 limits.base (iterations v)
      ((rest v).tdiv (256 ^ iterations v)) =
        some ((rest v).tdiv (256 ^ iterations v) * 256 ^ iterations v) :=
    multiply_eq _ (by decide) product
  rw [from_int64_eq held, Option.bind_some, to_int64, exponent_eq held, kept, multiplied,
    Option.bind_eq_bind, Option.bind_some, signed_of_inSigned sum]

theorem reconstructs_iff_of_inSigned {v : Int64} (held : InSigned 64 (rest v)) :
    Reconstructs v ↔ InSigned 16 ((rest v).tdiv (256 ^ iterations v)) := by
  have positive : (0 : Int) < 256 ^ iterations v := by positivity
  have least : (256 : Int) ^ iterations v ≤ 256 ^ (iterations v + 1) := by
    rw [pow_succ]
    linarith
  have most : (256 : Int) ^ (iterations v + 1) ≤ (2 ^ 16 - 1) * 256 ^ iterations v := by
    rw [pow_succ]
    linarith
  rw [← toInt_ofInt_eq_self_iff (by decide), ← abs_ofInt_tdiv_mul_sub_lt_iff positive least most]
  constructor
  · intro reconstructs
    obtain ⟨result, returned, near, whole⟩ := reconstructs
    rw [bind_to_int64_eq_some held returned] at near
    have divided : rest v = v.toInt - (lowPart v).toInt := rfl
    rw [add_sub_assoc, ← neg_sub v.toInt, ← divided, ← sub_eq_add_neg] at near
    exact near
  · intro near
    have kept := (abs_ofInt_tdiv_mul_sub_lt_iff positive least most).mp near
    refine ⟨_, bind_to_int64_eq held kept, ?_, ?_⟩
    · rw [kept] at near
      have divided : rest v = v.toInt - (lowPart v).toInt := rfl
      rw [add_sub_assoc, ← neg_sub v.toInt, ← divided, ← sub_eq_add_neg]
      exact near
    · intro none
      rw [none, pow_zero, Int.tdiv_one, mul_one, rest, sub_add_cancel]

/-- A number comes back, up to the digits dropped, exactly if the low part is subtracted
without overflow and the divisions bring the rest into the signed mantissa. -/
theorem reconstructs_iff (v : Int64) :
    Reconstructs v ↔ v.toInt < 2 ^ 63 - 128 ∧ limits.KeptBy 16 6 (nearest v.toInt) := by
  have narrow : ∀ quotient, InSigned 16 quotient → ¬limits.Outside quotient := by
    intro quotient held outside
    have reached : quotient > 2 ^ 16 - 1 ∨ quotient < -2 ^ 16 := outside
    unfold InSigned at held
    omega
  rw [← inSigned_rest_iff, ← rest_eq, limits.keptBy_iff 6 (rest v) narrow]
  by_cases held : InSigned 64 (rest v)
  · rw [reconstructs_iff_of_inSigned held]
    constructor
    · intro range
      exact ⟨held, iterations_le held, range⟩
    · intro condition
      exact condition.2.2
  · apply iff_of_false
    · intro reconstructs
      obtain ⟨result, returned, near, whole⟩ := reconstructs
      have undefined : from_int64 v = none := by
        have overflows : signed 64 (v.toInt - (lowPart v).toInt) = none := if_neg held
        rw [from_int64, overflows]
        rfl
      rw [undefined] at returned
      cases returned
    · exact fun condition => held condition.1

/-- A number between the limits that the signed mantissa cannot hold comes back negative. -/
theorem not_reconstructs :
    (from_int64 40000).bind to_int64 = some (-25536) ∧ ¬Reconstructs 40000 := by
  have divided : rest 40000 = 39936 := by decide
  have held : InSigned 64 (rest 40000) := by
    rw [divided]
    decide
  have whole : iterations 40000 = 0 := by
    rw [iterations, divided, limits.turns_eq_iff]
    decide
  have packed : (from_int64 40000).bind to_int64 = some (-25536) := by
    rw [from_int64_eq held, whole, divided]
    decide
  constructor
  · exact packed
  · intro reconstructs
    obtain ⟨result, returned, near, equal⟩ := reconstructs
    rw [packed, equal whole] at returned
    exact absurd returned (by decide)

end BigInt

end StdPrograms.Utils

import Mathlib.Tactic.Positivity
import StdPrograms.Money.Stream
import StdPrograms.Ouou.Util.BaseTypes

/-!
Contract: the numbers of `types.h` that read themselves from a stream.

Owns `LargeInt` and `Digit`, which compute in `int` and `size_t`, and on which wire
values they denote what `LargeInt` and `DigitInt` of `basetypes.py` denote, which
compute without bounds. A `Digit` is the quotient before it is stored as a float.

Does not own the streams.
-/

namespace StdPrograms.Money

open StdPrograms.Foundation

/-- `read<int>()`. -/
def readInt {σ : Type} [InputType σ] : Effect σ Failure Int := do
  let bytes ← InputStream.read 4
  pure (toSigned bytes)

/-- `-value` of an `int`: the negative of the smallest one is undefined. -/
def negate (value : Int) : Except Failure Int :=
  if value = -2 ^ 31 then .error .undefined else .ok (-value)

namespace LargeInt

def kFactor : Nat := 0x1fffffff

/-- What `update` makes of the `int` that it read. The shift drops what leaves the
word. -/
def decode (v : Int) : Except Failure Int := do
  let negative := v < 0
  let v ← if negative then negate v else pure v
  let times := v.toNat >>> 29
  let v := if times ≠ 0 then int ((v.toNat &&& kFactor) <<< (times * 4) : Nat) else v
  if negative then negate v else pure v

def update {σ : Type} [InputType σ] : Effect σ Failure Int := do
  let v ← readInt
  Effect.lift (decode v)

end LargeInt

namespace Digit

/-- `v / NR_DIGITS`: the `int` is converted to `size_t` first. -/
def quotient (NR_DIGITS : Nat) (v : Int) : Nat := size_t v / NR_DIGITS

def update {σ : Type} [InputType σ] (NR_DIGITS : Nat) : Effect σ Failure Nat := do
  let v ← readInt
  pure (quotient NR_DIGITS v)

end Digit

/-! ### Against the Python decoders -/

/-- Four bytes in memory. -/
def wire (v : Int32) : Contents where
  bytes := ofInt 4 v.toInt
  fits := by
    rw [ofInt_length]
    decide

theorem toSigned_wire (v : Int32) : toSigned (wire v).bytes = v.toInt := by
  have above := v.le_toInt
  have below := v.toInt_lt
  have width : modulus 4 = 2 ^ 32 := by decide
  apply toSigned_ofInt <;> rw [width] <;> omega

theorem exec_readInt_wire (v : Int32) :
    readInt.exec (InputBuffer.new (wire v)) = (.ok v.toInt, InputBuffer.new (wire v)) := by
  have size : (InputBuffer.new (wire v)).size_ = 4 := ofInt_length _ _
  have readable : (InputBuffer.new (wire v)).readable = 4 := by
    rw [InputBuffer.readable, size]
    rfl
  have handsOut : (InputType.read 4).exec (InputBuffer.new (wire v)) =
      (.ok (wire v).bytes, InputBuffer.new (wire v)) := by
    change (InputBuffer.read 4).exec _ = _
    rw [InputBuffer.read, Effect.exec_get, readable, if_neg (Nat.lt_irrefl 4), size]
    have whole : (wire v).bytes.take 4 = (wire v).bytes :=
      List.take_of_length_le (Nat.le_of_eq size)
    change (Except.ok ((wire v).bytes.take 4), _) = _
    rw [whole]
  have passes : 4 ≤ InputType.readable (InputBuffer.new (wire v)) := Nat.le_of_eq readable.symm
  rw [readInt, Effect.exec_map, InputStream.exec_read_within passes, handsOut,
    ← toSigned_wire v]
  rfl

/-- The C++ decoder and the Python decoder make one integer of the wire value. -/
def LargeInt.Agree (v : Int32) : Prop :=
  ∃ number, (LargeInt.update.exec (InputBuffer.new (wire v))).1 = .ok number ∧
    Ouou.LargeInt.frombytes (wire v).bytes = .ok number

/-- Likewise with one quotient. -/
def Digit.Agree (N : Nat) (v : Int32) : Prop :=
  ∃ quotient number, ((Digit.update N).exec (InputBuffer.new (wire v))).1 = .ok quotient ∧
    Ouou.Int.format.frombytes (wire v).bytes = .ok number ∧
    (quotient : Rat) = Ouou.DigitInt.quotient N number

theorem frombytes_wire (v : Int32) :
    Ouou.Int.format.frombytes (wire v).bytes = .ok v.toInt := by
  have above := v.le_toInt
  have below := v.toInt_lt
  have width : modulus 4 = 2 ^ 32 := by decide
  apply Ouou.IntFormat.frombytes_ofInt
  change -(modulus 4 : Int) ≤ 2 * v.toInt ∧ 2 * v.toInt < (modulus 4 : Nat)
  rw [width]
  omega

/-! #### `LargeInt` -/

/-- A number that is not negative keeps its value in an `int` exactly below the bound. -/
theorem int_eq_self_iff (value : Nat) : int value = value ↔ value < 2 ^ 31 := by
  unfold int
  rw [Int.bmod_def]
  omega

/-- The branch on the exponent, on a number that is not negative. -/
theorem LargeInt.shifted_eq {magnitude : Nat} (below : magnitude < 2 ^ 31) :
    (if magnitude >>> 29 ≠ 0 then
        int ((magnitude &&& kFactor) <<< (magnitude >>> 29 * 4) : Nat)
      else (magnitude : Int)) = int (Ouou.LargeInt.unpacked magnitude) := by
  rw [← Ouou.LargeInt.and_shiftLeft]
  split
  next => rfl
  next => exact ((int_eq_self_iff magnitude).mpr below).symm

theorem LargeInt.decode_eq {v : Int} (above : -2 ^ 31 < v) (below : v < 2 ^ 31) :
    decode v =
      if v < 0 then negate (int (Ouou.LargeInt.unpacked v.natAbs))
      else .ok (int (Ouou.LargeInt.unpacked v.natAbs)) := by
  have word : v.natAbs < 2 ^ 31 := by omega
  rw [← LargeInt.shifted_eq word]
  by_cases negative : v < 0
  · have magnitude : (-v).toNat = v.natAbs := by omega
    have cast : -v = (v.natAbs : Int) := by omega
    have negated : negate v = .ok (-v) := by
      rw [negate, if_neg (by omega)]
    simp only [decode, negative, if_true, negated, bind, Except.bind, magnitude]
    rw [cast]
  · have magnitude : v.toNat = v.natAbs := by omega
    have cast : v = (v.natAbs : Int) := by omega
    simp only [decode, negative, if_false, pure, Except.pure, bind, Except.bind, magnitude]
    rw [← cast]

theorem LargeInt.exec_update_wire (v : Int32) :
    (update.exec (InputBuffer.new (wire v))).1 = decode v.toInt := by
  rw [update, Effect.exec_bind, exec_readInt_wire]
  rfl

theorem negate_eq_iff (value : Int) (magnitude : Nat) :
    negate value = .ok (-(magnitude : Int)) ↔ value = magnitude := by
  unfold negate
  split
  next smallest =>
    rw [smallest]
    apply iff_of_false
    · simp
    · omega
  next =>
    rw [Except.ok.injEq]
    omega

theorem LargeInt.decode_eq_interpret_iff {v : Int} (above : -2 ^ 31 ≤ v) (below : v < 2 ^ 31) :
    decode v = .ok (Ouou.LargeInt.interpret v) ↔
      v ≠ -2 ^ 31 ∧ Ouou.LargeInt.unpacked v.natAbs < 2 ^ 31 := by
  by_cases smallest : v = -2 ^ 31
  · rw [smallest]
    apply iff_of_false
    · intro decoded
      cases decoded
    · simp
  · rw [LargeInt.decode_eq (by omega) below, Ouou.LargeInt.interpret_eq, ← int_eq_self_iff]
    split
    next =>
      rw [negate_eq_iff]
      exact (and_iff_right smallest).symm
    next =>
      rw [Except.ok.injEq]
      exact (and_iff_right smallest).symm

theorem LargeInt.agree_iff (v : Int32) :
    LargeInt.Agree v ↔
      v.toInt ≠ -2 ^ 31 ∧ Ouou.LargeInt.unpacked v.toInt.natAbs < 2 ^ 31 := by
  have python : Ouou.LargeInt.frombytes (wire v).bytes =
      .ok (Ouou.LargeInt.interpret v.toInt) := by
    rw [Ouou.LargeInt.frombytes, frombytes_wire]
    rfl
  rw [LargeInt.Agree, python, LargeInt.exec_update_wire,
    ← LargeInt.decode_eq_interpret_iff v.le_toInt v.toInt_lt]
  constructor
  · intro agree
    obtain ⟨number, decoded, interpreted⟩ := agree
    rw [decoded, Except.ok.inj interpreted]
  · intro decoded
    exact ⟨_, decoded, rfl⟩

/-! #### `Digit` -/

/-- Dividing by ten to the `N` takes more away than dividing by `N`. -/
theorem div_mul_pow_ne {N value : Nat} (positive : 0 < N) (nonzero : 0 < value) :
    value / N * 10 ^ N ≠ value := by
  intro same
  have large : 2 * N ≤ 10 ^ N := by
    have two : 2 ≤ 2 ^ N := Nat.le_pow positive
    have five : N ≤ 5 ^ N := Nat.le_of_lt (Nat.lt_pow_self (by decide))
    calc
      2 * N ≤ 2 ^ N * 5 ^ N := Nat.mul_le_mul two five
      _ = 10 ^ N := (Nat.mul_pow 2 5 N).symm
  have quotientPositive : 0 < value / N := by
    apply Nat.pos_of_ne_zero
    intro zero
    rw [zero, Nat.zero_mul] at same
    omega
  have above : value < value / N * N + N := Nat.lt_div_mul_add positive
  have within : value / N * (2 * N) ≤ value / N * 10 ^ N := Nat.mul_le_mul_left _ large
  have once : N ≤ value / N * N := Nat.le_mul_of_pos_left N quotientPositive
  rw [same] at within
  have doubled : value / N * (2 * N) = value / N * N + value / N * N := by ring
  omega

theorem Digit.quotient_eq_iff (N : Nat) (positive : 0 < N) {v : Int} (above : -2 ^ 31 ≤ v)
    (below : v < 2 ^ 31) :
    (quotient N v : Rat) = Ouou.DigitInt.quotient N v ↔ v = 0 := by
  have power : (10 : Rat) ^ N ≠ 0 := by positivity
  have whole : (quotient N v : Rat) * 10 ^ N = v ↔ (quotient N v : Int) * 10 ^ N = v := by
    norm_cast
  rw [Ouou.DigitInt.quotient, eq_div_iff power, whole]
  constructor
  · intro same
    have nonnegative : 0 ≤ v := by
      rw [← same]
      positivity
    by_contra nonzero
    have converted : size_t v = v.toNat := by
      unfold size_t
      omega
    have positiveValue : 0 < v.toNat := by omega
    apply div_mul_pow_ne positive positiveValue
    have natural : ((quotient N v * 10 ^ N : Nat) : Int) = (v.toNat : Int) := by
      rw [Int.toNat_of_nonneg nonnegative, Nat.cast_mul, Nat.cast_pow]
      exact same
    rw [← converted]
    rw [← converted] at natural
    exact Int.ofNat_inj.mp natural
  · intro zero
    rw [zero]
    simp [quotient, size_t]

theorem Digit.agree_iff (N : Nat) (positive : 0 < N) (v : Int32) :
    Digit.Agree N v ↔ v.toInt = 0 := by
  have computed : ((update N).exec (InputBuffer.new (wire v))).1 = .ok (quotient N v.toInt) := by
    rw [update, Effect.exec_map, exec_readInt_wire]
    rfl
  rw [Digit.Agree, computed, frombytes_wire,
    ← Digit.quotient_eq_iff N positive v.le_toInt v.toInt_lt]
  constructor
  · intro agree
    obtain ⟨quotient, number, same, sameNumber, equal⟩ := agree
    cases same
    cases sameNumber
    exact equal
  · intro equal
    exact ⟨_, _, rfl, rfl, equal⟩

/-- The decoders agree on a `LargeInt` exactly where the smallest `int` is not negated and
the unpacked magnitude is an `int`, and on a `Digit` for zero only. -/
theorem decoders_agree_iff (v : Int32) (N : Nat) (positive : 0 < N) :
    (LargeInt.Agree v ↔
      v.toInt ≠ -2 ^ 31 ∧
        v.toInt.natAbs % 2 ^ 29 * 16 ^ (v.toInt.natAbs / 2 ^ 29) < 2 ^ 31) ∧
      (Digit.Agree N v ↔ v.toInt = 0) := by
  constructor
  · exact LargeInt.agree_iff v
  · exact Digit.agree_iff N positive v

/-- A mantissa of ten with the exponent two, and with three digits. -/
theorem decoders_agree_shifted :
    LargeInt.Agree 0x4000000a ∧ ¬ Digit.Agree 3 0x4000000a := by
  have both := decoders_agree_iff 0x4000000a 3 (by decide)
  constructor
  · apply both.1.mpr
    decide
  · intro agree
    exact absurd (both.2.mp agree) (by decide)

/-- The mantissa of 29 ones with the exponent one leaves the `int`. -/
theorem decoders_disagree :
    ¬ ∀ (v : Int32) (N : Nat), 0 < N → LargeInt.Agree v ∧ Digit.Agree N v := by
  intro agree
  have large := (LargeInt.agree_iff 0x3fffffff).mp (agree 0x3fffffff 1 (by decide)).1
  exact absurd large.2 (by decide)

end StdPrograms.Money

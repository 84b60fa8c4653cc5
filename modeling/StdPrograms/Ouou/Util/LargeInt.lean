import Mathlib.Data.Nat.Prime.Basic
import Mathlib.Algebra.Ring.Parity
import StdPrograms.Ouou.Util.BaseTypes

/-!
Contract: packed volumes on their way back to the wire.

Owns which 4-byte values a `LargeInt` keeps when it is encoded again. `frombytes`
expands the exponent, while the `tobytes` that the metaclass installs packs the
number as it is, so that nothing with an exponent of its own may result.

Does not own the decoder.
-/

namespace StdPrograms.Ouou

open StdPrograms.Foundation

namespace LargeInt

/-- The `tobytes` of the metaclass, which replaces the one in the class body. -/
def tobytes (value : ℤ) : Except PyError Bytes := Int.format.pack value

/-- The codec of the attributes packs in this way. -/
theorem codec_tobytes (owner : Obj) (value : ℤ) :
    Wire.LargeInt.tobytes owner (.int value) = tobytes value := rfl

/-- The magnitude of the word, as `Int.frombytes` reads it. -/
def magnitude (w : Bytes) : ℕ := (toSigned w).natAbs

def mantissa (w : Bytes) : ℕ := magnitude w % 2 ^ 29

def exponent (w : Bytes) : ℕ := magnitude w / 2 ^ 29

/-- The value that is decoded is encoded, and decoded again. -/
def Survives (w : Bytes) : Prop :=
  ∃ v bytes, frombytes w = .ok v ∧ tobytes v = .ok bytes ∧ frombytes bytes = .ok v

/-! ### What another pass of the decoder keeps -/

/-- An exponent is never undone by the mantissa that stands beside it: the factor
`16 ^ exponent - 1` is odd, and greater than the exponent. -/
theorem unpacked_eq_self_iff (number : ℕ) : unpacked number = number ↔ number < 2 ^ 29 := by
  constructor
  · intro kept
    by_contra large
    have split := Nat.div_add_mod number (2 ^ 29)
    rw [unpacked] at kept
    generalize mantissaIs : number % 2 ^ 29 = mantissa at *
    generalize exponentIs : number / 2 ^ 29 = exponent at *
    have positive : 0 < exponent := by
      rw [← exponentIs]
      exact Nat.div_pos (by omega) (by decide)
    have power : 1 ≤ 16 ^ exponent := Nat.one_le_pow _ _ (by decide)
    have product : mantissa * (16 ^ exponent - 1) = 2 ^ 29 * exponent := by
      rw [Nat.mul_sub_one]
      omega
    have odd : Nat.Coprime (16 ^ exponent - 1) (2 ^ 29) := by
      apply Nat.Coprime.pow_right
      rw [Nat.coprime_two_right]
      refine Nat.Even.sub_odd power ?_ odd_one
      exact (by decide : Even 16).pow_of_ne_zero positive.ne'
    have divides : 16 ^ exponent - 1 ∣ exponent :=
      odd.dvd_of_dvd_mul_left ⟨mantissa, by rw [← product, Nat.mul_comm]⟩
    have atMost := Nat.le_of_dvd positive divides
    have grows : exponent < 2 ^ exponent := Nat.lt_two_pow_self
    have eight : 2 ≤ 8 ^ exponent := by
      calc 2 ≤ 8 ^ 1 := by decide
        _ ≤ 8 ^ exponent := Nat.pow_le_pow_right (by decide) positive
    have faster : 2 * 2 ^ exponent ≤ 16 ^ exponent := by
      calc 2 * 2 ^ exponent ≤ 8 ^ exponent * 2 ^ exponent := Nat.mul_le_mul_right _ eight
        _ = 16 ^ exponent := by rw [← Nat.mul_pow]
    omega
  · intro small
    rw [unpacked, Nat.mod_eq_of_lt small, Nat.div_eq_of_lt small, Nat.pow_zero, Nat.mul_one]

theorem natAbs_interpret (value : ℤ) : (interpret value).natAbs = unpacked value.natAbs := by
  rw [interpret_eq]
  split <;> omega

theorem interpret_eq_self_iff (value : ℤ) : interpret value = value ↔ value.natAbs < 2 ^ 29 := by
  constructor
  · intro kept
    rw [← unpacked_eq_self_iff, ← natAbs_interpret, kept]
  · exact interpret_small value

/-! ### The condition on the wire -/

theorem frombytes_word {w : Bytes} (wide : w.length = 4) :
    frombytes w = .ok (interpret (toSigned w)) := by
  have word : w.take 4 = w := List.take_of_length_le (Nat.le_of_eq wide)
  rw [frombytes, IntFormat.frombytes, if_neg (by rw [wide]; decide)]
  show Except.ok (interpret (toSigned (w.take 4))) = _
  rw [word]

theorem magnitude_le {w : Bytes} (wide : w.length = 4) : magnitude w ≤ 2 ^ 31 := by
  have below := ofLittleEndian_lt w
  rw [wide] at below
  rw [magnitude, toSigned, wide]
  have size : modulus 4 = 2 ^ 32 := by decide
  split <;> omega

/-- A number without an exponent is packed, and read as it is. -/
theorem packed_again {value : ℤ} (small : value.natAbs < 2 ^ 29) :
    ∃ bytes, tobytes value = .ok bytes ∧ frombytes bytes = .ok value := by
  have holds : Int.format.Holds value := by
    show -(modulus 4 : ℤ) ≤ 2 * value ∧ 2 * value < (modulus 4 : ℕ)
    have size : modulus 4 = 2 ^ 32 := by decide
    omega
  refine ⟨ofInt 4 value, if_pos holds, ?_⟩
  rw [frombytes, show Int.format.frombytes (ofInt 4 value) = .ok value from
    IntFormat.frombytes_ofInt holds]
  exact congrArg Except.ok (interpret_small value small)

theorem survives_iff_small {w : Bytes} (wide : w.length = 4) :
    Survives w ↔ unpacked (magnitude w) < 2 ^ 29 := by
  rw [magnitude, ← natAbs_interpret]
  constructor
  · rintro ⟨v, bytes, decoded, packed, again⟩
    cases Except.ok.inj ((frombytes_word wide).symm.trans decoded)
    obtain ⟨holds, rfl⟩ := IntFormat.pack_eq_ok packed
    rw [frombytes, IntFormat.frombytes_ofInt holds] at again
    exact (interpret_eq_self_iff _).mp (Except.ok.inj again)
  · intro small
    obtain ⟨bytes, packed, again⟩ := packed_again small
    exact ⟨_, bytes, frombytes_word wide, packed, again⟩

/-- A volume survives if its mantissa leaves room for its exponent. -/
theorem survives_iff {w : Bytes} (wide : w.length = 4) :
    Survives w ↔ mantissa w < 2 ^ (29 - 4 * exponent w) := by
  have bounded := magnitude_le wide
  have exponentSmall : exponent w ≤ 4 := by
    rw [exponent]
    omega
  have room : 2 ^ 29 = 2 ^ (29 - 4 * exponent w) * 16 ^ exponent w := by
    rw [show 16 = 2 ^ 4 from rfl, ← Nat.pow_mul, ← Nat.pow_add]
    congr 1
    omega
  rw [survives_iff_small wide, unpacked, ← mantissa, ← exponent, room]
  exact Nat.mul_lt_mul_right (Nat.pow_pos (by decide))

/-- A mantissa of 1 with the exponent 1. -/
theorem sixteen_survives_iff :
    Survives [1, 0, 0, 0x20] ↔ mantissa [1, 0, 0, 0x20] < 2 ^ (29 - 4 * exponent [1, 0, 0, 0x20]) :=
  survives_iff rfl

/-- A mantissa of `2 ^ 25` with the exponent 1 is decoded to `2 ^ 29`, and that to zero. -/
theorem not_survives_large : ¬ Survives [0, 0, 0, 0x22] := by
  rintro ⟨v, bytes, decoded, packed, again⟩
  have first : frombytes [0, 0, 0, 0x22] = .ok (2 ^ 29) := by decide
  cases Except.ok.inj (first.symm.trans decoded)
  have written : tobytes (2 ^ 29) = .ok [0, 0, 0, 0x20] := by decide
  cases Except.ok.inj (written.symm.trans packed)
  have second : frombytes [0, 0, 0, 0x20] = .ok 0 := by decide
  cases second.symm.trans again

end LargeInt

end StdPrograms.Ouou

import Mathlib.Data.List.Basic
import Mathlib.Data.Int.Basic
import Mathlib.Tactic.Ring

/-!
Contract: little-endian words as byte lists.

Owns the unsigned word of a given byte width, its recovery from the bytes, and
the two's-complement reading of the same bytes. The round trips hold below the
width's modulus, for the signed reading between minus half and half of it.

Does not own any concrete wire format.
-/

namespace StdPrograms.Foundation

abbrev Bytes := List UInt8

/-- The number of values of a word of `width` bytes. -/
def modulus (width : Nat) : Nat := 256 ^ width

theorem modulus_pos (width : Nat) : 0 < modulus width :=
  Nat.pow_pos (by decide)

theorem modulus_succ (width : Nat) : modulus (width + 1) = 256 * modulus width := by
  rw [modulus, modulus, pow_succ, Nat.mul_comm]

/-- The low `width` bytes of `value`, least significant first. -/
def toLittleEndian : Nat → Nat → Bytes
  | 0, _ => []
  | width + 1, value => UInt8.ofNat value :: toLittleEndian width (value / 256)

/-- The number whose bytes, least significant first, are the given ones. -/
def ofLittleEndian : Bytes → Nat
  | [] => 0
  | byte :: rest => byte.toNat + 256 * ofLittleEndian rest

@[simp] theorem toLittleEndian_length (width value : Nat) :
    (toLittleEndian width value).length = width := by
  induction width generalizing value with
  | zero => rfl
  | succ width inductionHypothesis =>
      simp [toLittleEndian, inductionHypothesis]

theorem ofLittleEndian_toLittleEndian (width value : Nat) :
    ofLittleEndian (toLittleEndian width value) = value % modulus width := by
  induction width generalizing value with
  | zero => simp [toLittleEndian, ofLittleEndian, modulus, Nat.mod_one]
  | succ width inductionHypothesis =>
      have low : (UInt8.ofNat value).toNat = value % 256 := by simp
      simp only [toLittleEndian, ofLittleEndian, inductionHypothesis, low]
      rw [modulus_succ, Nat.mod_mul]

theorem ofLittleEndian_lt (bytes : Bytes) :
    ofLittleEndian bytes < modulus bytes.length := by
  induction bytes with
  | nil => simp [ofLittleEndian, modulus]
  | cons byte rest inductionHypothesis =>
      have byteLt : byte.toNat < 256 := byte.toNat_lt
      simp only [ofLittleEndian, List.length_cons, modulus_succ]
      omega

/-- A word is determined by its bytes. -/
theorem toLittleEndian_ofLittleEndian (bytes : Bytes) :
    toLittleEndian bytes.length (ofLittleEndian bytes) = bytes := by
  induction bytes with
  | nil => rfl
  | cons byte rest inductionHypothesis =>
      have byteLt : byte.toNat < 256 := byte.toNat_lt
      have high : (byte.toNat + 256 * ofLittleEndian rest) / 256 =
          ofLittleEndian rest := by omega
      have low : UInt8.ofNat (byte.toNat + 256 * ofLittleEndian rest) = byte := by
        apply UInt8.toNat_inj.mp
        simp only [UInt8.toNat_ofNat']
        omega
      simp only [ofLittleEndian, List.length_cons, toLittleEndian, high, low,
        inductionHypothesis]

/-! ### Two's complement -/

/-- The bytes of an integer of `width` bytes, whatever its sign. -/
def ofInt (width : Nat) (value : Int) : Bytes :=
  toLittleEndian width (value % (modulus width : Nat)).toNat

@[simp] theorem ofInt_length (width : Nat) (value : Int) :
    (ofInt width value).length = width :=
  toLittleEndian_length _ _

/-- The unsigned reading of a word. -/
def toUnsigned (bytes : Bytes) : Int := ofLittleEndian bytes

/-- The two's-complement reading of a word: the upper half is negative. -/
def toSigned (bytes : Bytes) : Int :=
  if 2 * ofLittleEndian bytes < modulus bytes.length then ofLittleEndian bytes
  else (ofLittleEndian bytes : Int) - (modulus bytes.length : Nat)

private theorem ofLittleEndian_ofInt (width : Nat) (value : Int) :
    (ofLittleEndian (ofInt width value) : Int) = value % (modulus width : Nat) := by
  have positive : (0 : Int) < (modulus width : Nat) := by
    exact_mod_cast modulus_pos width
  have nonnegative := Int.emod_nonneg value positive.ne'
  have below := Int.emod_lt_of_pos value positive
  rw [ofInt, ofLittleEndian_toLittleEndian, Nat.mod_eq_of_lt (by omega)]
  omega

theorem toUnsigned_ofInt (width : Nat) (value : Int) (nonnegative : 0 ≤ value)
    (below : value < (modulus width : Nat)) :
    toUnsigned (ofInt width value) = value := by
  rw [toUnsigned, ofLittleEndian_ofInt, Int.emod_eq_of_lt nonnegative below]

theorem toSigned_ofInt (width : Nat) (value : Int)
    (above : -(modulus width : Int) ≤ 2 * value)
    (below : 2 * value < (modulus width : Nat)) :
    toSigned (ofInt width value) = value := by
  have word := ofLittleEndian_ofInt width value
  have positive : (0 : Int) < (modulus width : Nat) := by
    exact_mod_cast modulus_pos width
  unfold toSigned
  rw [ofInt_length]
  by_cases negative : value < 0
  · have wrapped : value % (modulus width : Nat) = value + (modulus width : Nat) := by
      rw [← Int.add_emod_right, Int.emod_eq_of_lt (by omega) (by omega)]
    rw [if_neg (by omega)]
    omega
  · have same : value % (modulus width : Nat) = value :=
      Int.emod_eq_of_lt (by omega) (by omega)
    rw [if_pos (by omega)]
    omega

end StdPrograms.Foundation

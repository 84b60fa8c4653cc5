import Mathlib.Data.Nat.Bitwise

/-!
Contract: the bits of a row of bytes.

Owns masks, a byte into which some bits of a number are put under a mask, and the bits
of a number in terms of those of its parts.

Does not own any order in which a field is cut into bytes.
-/

namespace StdPrograms.Foundation

/-! ### Masks -/

theorem testBit_two_pow_sub_two_pow {low high : Nat} (order : low ≤ high) (index : Nat) :
    (2 ^ high - 2 ^ low).testBit index = (decide (low ≤ index) && decide (index < high)) := by
  have shifted : 2 ^ high - 2 ^ low = (2 ^ (high - low) - 1) <<< low := by
    rw [Nat.shiftLeft_eq, Nat.sub_mul, ← pow_add, Nat.sub_add_cancel order, one_mul]
  rw [shifted, Nat.testBit_shiftLeft, Nat.testBit_two_pow_sub_one]
  by_cases reached : low ≤ index
  · simp only [reached, decide_true, Bool.true_and, decide_eq_decide]
    omega
  · simp [reached]

/-- `(1 << high) - (1 << low)` -/
def mask (low high : Nat) : BitVec 32 := (1#32 <<< high) - (1#32 <<< low)

theorem getLsbD_mask {low high : Nat} (order : low ≤ high) (small : high < 32) (index : Nat) :
    (mask low high).getLsbD index = (decide (low ≤ index) && decide (index < high)) := by
  have power : ∀ shift, shift < 32 → (1#32 <<< shift).toNat = 2 ^ shift := by
    intro shift below
    rw [BitVec.toNat_shiftLeft, Nat.shiftLeft_eq]
    change 1 * 2 ^ shift % 2 ^ 32 = 2 ^ shift
    rw [one_mul, Nat.mod_eq_of_lt (Nat.pow_lt_pow_right Nat.one_lt_two below)]
  have monotone : 2 ^ low ≤ 2 ^ high := Nat.pow_le_pow_right Nat.two_pos order
  have value : (mask low high).toNat = 2 ^ high - 2 ^ low := by
    rw [mask, BitVec.toNat_sub_of_le, power high small, power low (by omega)]
    rw [BitVec.le_def, power high small, power low (by omega)]
    exact monotone
  rw [BitVec.getLsbD, value, testBit_two_pow_sub_two_pow order]

/-- The lowest bits of a number, as a mask cuts them out. -/
theorem getLsbD_and_mask (number : BitVec 32) {width : Nat} (small : width < 32) (index : Nat) :
    (number &&& (1#32 <<< width - 1#32)).getLsbD index =
      (number.getLsbD index && decide (index < width)) := by
  have lowest : 1#32 <<< width - 1#32 = mask 0 width := rfl
  rw [lowest, BitVec.getLsbD_and, getLsbD_mask (Nat.zero_le width) small]
  simp

theorem toNat_and_mask (number : BitVec 32) {width : Nat} (small : width < 32) :
    (number &&& (1#32 <<< width - 1#32)).toNat = number.toNat % 2 ^ width := by
  apply Nat.eq_of_testBit_eq
  intro index
  have bit := getLsbD_and_mask number small index
  rw [BitVec.getLsbD, BitVec.getLsbD] at bit
  rw [bit, Nat.testBit_mod_two_pow, Bool.and_comm]

/-! ### One byte -/

/-- The byte after `byte &= ~mask; byte |= (value << low) & mask;` -/
def putInto (byte : BitVec 8) (low high : Nat) (value : BitVec 32) : BitVec 8 :=
  (byte &&& ~~~(mask low high).setWidth 8) ||| ((value <<< low) &&& mask low high).setWidth 8

/-- Under the mask the bits are those of the value, elsewhere those of the byte. -/
theorem getLsbD_putInto (byte : BitVec 8) {low high : Nat} (order : low ≤ high)
    (small : high ≤ 8) (value : BitVec 32) {index : Nat} (inside : index < 8) :
    (putInto byte low high value).getLsbD index =
      if low ≤ index ∧ index < high then value.getLsbD (index - low)
      else byte.getLsbD index := by
  have word : index < 32 := by omega
  simp only [putInto, BitVec.getLsbD_or, BitVec.getLsbD_and, BitVec.getLsbD_not,
    BitVec.getLsbD_setWidth, BitVec.getLsbD_shiftLeft, inside, word, decide_true, Bool.true_and,
    getLsbD_mask order (show high < 32 by omega)]
  by_cases reached : low ≤ index
  · by_cases below : index < high <;> simp [reached, below, Nat.not_lt_of_le]
  · simp [reached]

/-- The bits from `low` to `high` of a byte, as a number. -/
def takeFrom (byte : BitVec 8) (low high : Nat) : BitVec 32 :=
  (byte.setWidth 32 &&& mask low high) >>> low

theorem getLsbD_takeFrom (byte : BitVec 8) {low high : Nat} (order : low ≤ high)
    (small : high ≤ 8) (index : Nat) :
    (takeFrom byte low high).getLsbD index =
      (decide (index < high - low) && byte.getLsbD (low + index)) := by
  rw [takeFrom, BitVec.getLsbD_ushiftRight, BitVec.getLsbD_and, BitVec.getLsbD_setWidth,
    getLsbD_mask order (by omega)]
  by_cases below : index < high - low
  · have inside : low + index < high := by omega
    have word : low + index < 32 := by omega
    simp [below, inside, word]
  · have outside : ¬low + index < high := by omega
    simp [below, outside]

/-! ### A row of bytes -/

section Row

variable {size : Nat}

/-- The bit at a position of the row, counted from the lowest bit of the first byte. -/
def bitAt (bytes : Vector (BitVec 8) size) (position : Nat) : Bool :=
  if inside : position / 8 < size then bytes[position / 8].getLsbD (position % 8) else false

theorem bitAt_eq (bytes : Vector (BitVec 8) size) {position place : Nat} (inside : place < size)
    (first : 8 * place ≤ position) (last : position < 8 * place + 8) :
    bitAt bytes position = bytes[place].getLsbD (position - 8 * place) := by
  have quotient : position / 8 = place := by omega
  have remainder : position % 8 = position - 8 * place := by omega
  subst quotient
  rw [bitAt, dif_pos inside, remainder]

/-- A byte that is changed between two of its bits. -/
theorem bitAt_set_putInto (bytes : Vector (BitVec 8) size) {place low high : Nat}
    (inside : place < size) (order : low ≤ high) (small : high ≤ 8) (value : BitVec 32)
    (position : Nat) :
    bitAt (bytes.set place (putInto bytes[place] low high value)) position =
      if 8 * place + low ≤ position ∧ position < 8 * place + high then
        value.getLsbD (position - (8 * place + low))
      else bitAt bytes position := by
  by_cases here : 8 * place ≤ position ∧ position < 8 * place + 8
  · rw [bitAt_eq _ inside here.1 here.2, bitAt_eq _ inside here.1 here.2, Vector.getElem_set_self,
      getLsbD_putInto _ order small _ (by omega), Nat.sub_sub]
    have same : low ≤ position - 8 * place ∧ position - 8 * place < high ↔
        8 * place + low ≤ position ∧ position < 8 * place + high := by omega
    rw [if_congr same rfl rfl]
  · have elsewhere : place ≠ position / 8 := by omega
    have outside : ¬(8 * place + low ≤ position ∧ position < 8 * place + high) := by omega
    rw [if_neg outside]
    unfold bitAt
    split
    next => rw [Vector.getElem_set_ne _ _ elsewhere]
    next => rfl

end Row

end StdPrograms.Foundation

import Mathlib.Algebra.Order.Field.Basic
import Mathlib.Algebra.Order.Field.Rat
import Mathlib.Data.List.Lex
import Mathlib.Order.Monotone.Defs
import Mathlib.Tactic.Linarith
import Mathlib.Tactic.Ring

/-!
Contract: numerals, words and concatenations.

Owns the number that a word of digits denotes, its agreement with the order of words of one
length, when a limit hides what the last digits are, the key by which two words are in the better
order, and the greatest concatenation.

Does not own the digits.
-/

namespace StdPrograms.Foundation

variable {α : Type} {base : Nat} {digit : α → Nat}

def numeral (base : Nat) (digit : α → Nat) (word : List α) : Nat :=
  word.foldl (fun number element => base * number + digit element) 0

theorem foldl_eq_numeral (word : List α) (start : Nat) :
    word.foldl (fun number element => base * number + digit element) start =
      start * base ^ word.length + numeral base digit word := by
  induction word generalizing start with
  | nil => exact (Nat.mul_one start).symm
  | cons first rest inductionHypothesis =>
      have fromZero := inductionHypothesis (base * 0 + digit first)
      rw [numeral, List.foldl_cons, List.foldl_cons, fromZero, inductionHypothesis,
        List.length_cons, pow_succ]
      ring

theorem numeral_nil : numeral base digit [] = 0 := rfl

theorem numeral_append (front back : List α) :
    numeral base digit (front ++ back) =
      numeral base digit front * base ^ back.length + numeral base digit back := by
  rw [numeral, List.foldl_append, foldl_eq_numeral, ← numeral]

theorem numeral_cons (first : α) (rest : List α) :
    numeral base digit (first :: rest) =
      digit first * base ^ rest.length + numeral base digit rest := by
  have single : numeral base digit [first] = digit first := by
    rw [numeral, List.foldl_cons, List.foldl_nil, Nat.mul_zero, Nat.zero_add]
  rw [← single, ← numeral_append, List.singleton_append]

theorem numeral_append_le_left {front front' : List α} (back : List α)
    (atMost : numeral base digit front ≤ numeral base digit front') :
    numeral base digit (front ++ back) ≤ numeral base digit (front' ++ back) := by
  rw [numeral_append, numeral_append]
  exact Nat.add_le_add_right (Nat.mul_le_mul_right _ atMost) _

theorem numeral_append_lt_iff (front : List α) {back back' : List α}
    (sameLength : back.length = back'.length) :
    numeral base digit (front ++ back) < numeral base digit (front ++ back') ↔
      numeral base digit back < numeral base digit back' := by
  rw [numeral_append, numeral_append, sameLength, Nat.add_lt_add_iff_left]

theorem numeral_append_le_right (front : List α) {back back' : List α}
    (sameLength : back.length = back'.length)
    (atMost : numeral base digit back ≤ numeral base digit back') :
    numeral base digit (front ++ back) ≤ numeral base digit (front ++ back') := by
  rw [← not_lt] at atMost ⊢
  rw [numeral_append_lt_iff front sameLength.symm]
  exact atMost

/-! ### The order of words -/

/-- The first digits decide, and the others where these are equal. -/
theorem mul_add_lt_iff {left right rest tail size : Nat} (restLess : rest < size)
    (tailLess : tail < size) :
    left * size + rest < right * size + tail ↔ left < right ∨ left = right ∧ rest < tail := by
  rcases Nat.lt_trichotomy left right with less | rfl | greater
  · have atLeast := Nat.mul_le_mul_right size less
    rw [Nat.succ_mul] at atLeast
    exact iff_of_true (by omega) (.inl less)
  · rw [Nat.add_lt_add_iff_left]
    simp
  · have atLeast := Nat.mul_le_mul_right size greater
    rw [Nat.succ_mul] at atLeast
    exact iff_of_false (by omega) (by omega)

section

variable {digits : Set α} (below : ∀ element ∈ digits, digit element < base)

include below

theorem numeral_lt {word : List α} (valid : ∀ element ∈ word, element ∈ digits) :
    numeral base digit word < base ^ word.length := by
  induction word with
  | nil => exact Nat.one_pos
  | cons first rest inductionHypothesis =>
      obtain ⟨firstValid, restValid⟩ := List.forall_mem_cons.mp valid
      have restLess := inductionHypothesis restValid
      have firstLess := Nat.mul_le_mul_right (base ^ rest.length) (below first firstValid)
      rw [Nat.succ_mul] at firstLess
      rw [numeral_cons, List.length_cons, pow_succ']
      omega

/-- Words of one length are in the order of their numbers. -/
theorem lt_iff_numeral_lt [LinearOrder α] (ordered : StrictMonoOn digit digits)
    {left right : List α} (leftValid : ∀ element ∈ left, element ∈ digits)
    (rightValid : ∀ element ∈ right, element ∈ digits) (sameLength : left.length = right.length) :
    left < right ↔ numeral base digit left < numeral base digit right := by
  induction left generalizing right with
  | nil =>
      obtain rfl := List.eq_nil_of_length_eq_zero sameLength.symm
      exact iff_of_false (lt_irrefl _) (Nat.lt_irrefl _)
  | cons first rest inductionHypothesis =>
      cases right with
      | nil => cases sameLength
      | cons head tail =>
          have tailLength : rest.length = tail.length := Nat.succ.inj sameLength
          obtain ⟨firstValid, restValid⟩ := List.forall_mem_cons.mp leftValid
          obtain ⟨headValid, tailValid⟩ := List.forall_mem_cons.mp rightValid
          have restLess := numeral_lt below restValid
          rw [tailLength] at restLess
          rw [List.cons_lt_cons_iff, numeral_cons, numeral_cons, tailLength,
            mul_add_lt_iff restLess (numeral_lt below tailValid),
            ordered.lt_iff_lt firstValid headValid, ordered.injOn.eq_iff firstValid headValid,
            inductionHypothesis restValid tailValid tailLength]

end

/-! ### Numbers up to a limit -/

theorem numeral_eq_zero_iff (positive : 0 < base) {word : List α} :
    numeral base digit word = 0 ↔ ∀ element ∈ word, digit element = 0 := by
  induction word with
  | nil => exact iff_of_true rfl fun element member => absurd member List.not_mem_nil
  | cons first rest inductionHypothesis =>
      have power : 0 < base ^ rest.length := Nat.pow_pos positive
      rw [numeral_cons, Nat.add_eq_zero_iff, mul_eq_zero_iff_right power.ne', inductionHypothesis,
        List.forall_mem_cons]

/-- More digits change the number, unless it is already at the limit or all of them are zeros. -/
theorem min_numeral_append_iff {limit : Nat} {front back : List α} (two : 2 ≤ base)
    (nonempty : back ≠ []) :
    min (numeral base digit (front ++ back)) limit = min (numeral base digit front) limit ↔
      limit ≤ numeral base digit front ∨ numeral base digit (front ++ back) = 0 := by
  have power : base ≤ base ^ back.length :=
    Nat.le_self_pow (List.length_pos_iff.mpr nonempty).ne' base
  have doubled : numeral base digit front * 2 ≤ numeral base digit front * base ^ back.length :=
    Nat.mul_le_mul_left _ (two.trans power)
  rw [numeral_append]
  omega

/-! ### Concatenations -/

/-- The word repeated without end, as a fraction. -/
def key (base : Nat) (digit : α → Nat) (word : List α) : Rat :=
  numeral base digit word / (base ^ word.length - 1)

theorem numeral_concat_lt_iff {left right : List α} :
    numeral base digit (right ++ left) < numeral base digit (left ++ right) ↔
      (numeral base digit right : Rat) * (base ^ left.length - 1) <
        numeral base digit left * (base ^ right.length - 1) := by
  rw [numeral_append, numeral_append, ← @Nat.cast_lt Rat]
  push_cast
  constructor
  · intro less
    linarith
  · intro less
    linarith

theorem numeral_concat_lt_iff_key {left right : List α} (two : 2 ≤ base) (leftNonempty : left ≠ [])
    (rightNonempty : right ≠ []) :
    numeral base digit (right ++ left) < numeral base digit (left ++ right) ↔
      key base digit right < key base digit left := by
  have positive : ∀ {word : List α}, word ≠ [] → (0 : Rat) < base ^ word.length - 1 := by
    intro word nonempty
    have power : 1 < base ^ word.length :=
      Nat.one_lt_pow (List.length_pos_iff.mpr nonempty).ne' two
    have castPower : (1 : Rat) < base ^ word.length := by exact_mod_cast power
    linarith
  rw [numeral_concat_lt_iff, key, key,
    div_lt_div_iff₀ (positive rightNonempty) (positive leftNonempty)]

theorem numeral_flatten_eq_zero {words : List (List α)}
    (zeros : ∀ word ∈ words, numeral base digit word = 0) :
    numeral base digit words.flatten = 0 := by
  induction words with
  | nil => rfl
  | cons word rest inductionHypothesis =>
      obtain ⟨first, restZeros⟩ := List.forall_mem_cons.mp zeros
      rw [List.flatten_cons, numeral_append, first, inductionHypothesis restZeros, Nat.zero_mul]

/-- A word that is best before each of some words is best before all of them. -/
theorem numeral_move_le {word : List α} {front : List (List α)}
    (best : ∀ other ∈ front,
      numeral base digit (other ++ word) ≤ numeral base digit (word ++ other)) :
    numeral base digit (front.flatten ++ word) ≤ numeral base digit (word ++ front.flatten) := by
  induction front with
  | nil => rw [List.flatten_nil, List.nil_append, List.append_nil]
  | cons first rest inductionHypothesis =>
      obtain ⟨bestFirst, bestRest⟩ := List.forall_mem_cons.mp best
      have length : (rest.flatten ++ word).length = (word ++ rest.flatten).length := by
        rw [List.length_append, List.length_append, Nat.add_comm]
      calc numeral base digit ((first :: rest).flatten ++ word)
          = numeral base digit (first ++ (rest.flatten ++ word)) := by
            rw [List.flatten_cons, List.append_assoc]
        _ ≤ numeral base digit (first ++ (word ++ rest.flatten)) :=
            numeral_append_le_right first length (inductionHypothesis bestRest)
        _ = numeral base digit (first ++ word ++ rest.flatten) := by rw [List.append_assoc]
        _ ≤ numeral base digit (word ++ first ++ rest.flatten) :=
            numeral_append_le_left rest.flatten bestFirst
        _ = numeral base digit (word ++ (first :: rest).flatten) := by
            rw [List.flatten_cons, List.append_assoc]

/-- Words each of which is best before all later ones have the greatest concatenation. -/
theorem numeral_flatten_le {words other : List (List α)}
    (sorted : words.Pairwise fun earlier later =>
      numeral base digit (later ++ earlier) ≤ numeral base digit (earlier ++ later))
    (permutation : other.Perm words) :
    numeral base digit other.flatten ≤ numeral base digit words.flatten := by
  induction words generalizing other with
  | nil => rw [List.perm_nil.mp permutation]
  | cons word rest inductionHypothesis =>
      obtain ⟨best, restSorted⟩ := List.pairwise_cons.mp sorted
      obtain ⟨front, back, rfl⟩ :=
        List.append_of_mem (permutation.mem_iff.mpr List.mem_cons_self)
      have restPermutation : (front ++ back).Perm rest :=
        (List.perm_middle.symm.trans permutation).cons_inv
      have bestInFront : ∀ element ∈ front,
          numeral base digit (element ++ word) ≤ numeral base digit (word ++ element) :=
        fun element member =>
          best element (restPermutation.mem_iff.mp (List.mem_append_left back member))
      have length : (front ++ back).flatten.length = rest.flatten.length :=
        restPermutation.flatten.length_eq
      calc numeral base digit (front ++ word :: back).flatten
          = numeral base digit (front.flatten ++ word ++ back.flatten) := by
            rw [List.flatten_append, List.flatten_cons, List.append_assoc]
        _ ≤ numeral base digit (word ++ front.flatten ++ back.flatten) :=
            numeral_append_le_left back.flatten (numeral_move_le bestInFront)
        _ = numeral base digit (word ++ (front ++ back).flatten) := by
            rw [List.flatten_append, List.append_assoc]
        _ ≤ numeral base digit (word ++ rest.flatten) :=
            numeral_append_le_right word length (inductionHypothesis restSorted restPermutation)
        _ = numeral base digit (word :: rest).flatten := by rw [List.flatten_cons]

end StdPrograms.Foundation

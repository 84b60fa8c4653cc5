import Mathlib.Algebra.BigOperators.Group.Finset.Basic
import Mathlib.Algebra.BigOperators.ModEq
import Mathlib.Data.BitVec

/-!
Contract: how often the bits of several words are set.

Owns counts up to multiples, the exclusive disjunction of a list of words, which depends on
them only, the least bit that is set in a word, and the least number whose bits are all set in it.

Does not own any width.
-/

namespace StdPrograms.Foundation

section

variable {α : Type} [DecidableEq α] {modulus : Nat} {left right : List α}

theorem countP_eq_sum {elements : List α} {places : Finset α}
    (included : elements.toFinset ⊆ places) (p : α → Bool) :
    elements.countP p = ∑ x ∈ places with p x, elements.count x := by
  have counted := Finset.sum_filter_count_eq_countP (fun x => p x = true) elements
  simp only [Bool.decide_eq_true] at counted
  rw [← counted]
  refine Finset.sum_subset (Finset.filter_subset_filter _ included) fun x inPlaces outside => ?_
  refine List.count_eq_zero.mpr fun inside => outside ?_
  rw [Finset.mem_filter] at inPlaces ⊢
  exact ⟨List.mem_toFinset.mpr inside, inPlaces.2⟩

/-- Where all elements occur as often, up to multiples, so do those with a property. -/
theorem countP_modEq (same : ∀ x, left.count x ≡ right.count x [MOD modulus]) (p : α → Bool) :
    left.countP p ≡ right.countP p [MOD modulus] := by
  rw [countP_eq_sum (Finset.subset_union_left ) p,
    countP_eq_sum (Finset.subset_union_right ) p]
  exact Nat.ModEq.sum fun x _ => same x

end

/-! ### Words -/

variable {width : Nat}

def xorAll (words : List (BitVec width)) : BitVec width :=
  words.foldl (· ^^^ ·) (BitVec.ofNat width 0)

theorem getLsbD_foldl_xor (words : List (BitVec width)) (start : BitVec width) (i : Nat) :
    (words.foldl (· ^^^ ·) start).getLsbD i =
      (start.getLsbD i ^^ decide (words.countP (·.getLsbD i) % 2 = 1)) := by
  induction words generalizing start with
  | nil => simp
  | cons word rest inductionHypothesis =>
      rw [List.foldl_cons, inductionHypothesis, BitVec.getLsbD_xor, List.countP_cons]
      cases bit : word.getLsbD i with
      | false => simp
      | true =>
          have parity (count : Nat) :
              decide ((count + 1) % 2 = 1) = !decide (count % 2 = 1) := by
            rw [← decide_not]
            exact decide_eq_decide.mpr (by omega)
          rw [if_pos rfl, parity]
          simp

/-- Equal words cancel in pairs. -/
theorem xorAll_congr {left right : List (BitVec width)}
    (same : ∀ word, left.count word ≡ right.count word [MOD 2]) : xorAll left = xorAll right := by
  refine BitVec.eq_of_getLsbD_eq fun i _ => ?_
  rw [xorAll, xorAll, getLsbD_foldl_xor, getLsbD_foldl_xor, countP_modEq same]

/-- Only the least bit that is set is left. -/
theorem getLsbD_and_neg (word : BitVec width) (i : Nat) :
    (word &&& -word).getLsbD i =
      (word.getLsbD i && decide (∀ j < i, word.getLsbD j = false)) := by
  rw [BitVec.getLsbD_and, BitVec.getLsbD_neg]
  cases set_ : word.getLsbD i with
  | false => simp
  | true =>
      have inside := BitVec.lt_of_getLsbD set_
      have opposite : (∀ j < i, word.getLsbD j = false) ↔ ¬∃ j < i, word.getLsbD j = true := by
        simp
      rw [decide_eq_true inside, decide_eq_decide.mpr opposite, decide_not]
      simp

theorem exists_lowest_bit {word : BitVec width} (nonzero : word ≠ BitVec.ofNat width 0) :
    ∃ k, word.getLsbD k = true ∧ ∀ i < k, word.getLsbD i = false := by
  have exists_bit : ∃ k, word.getLsbD k = true := by
    by_contra none_
    refine nonzero (BitVec.eq_of_getLsbD_eq fun i _ => ?_)
    rw [BitVec.getLsbD_zero, ← Bool.not_eq_true]
    exact fun set_ => none_ ⟨i, set_⟩
  exact ⟨Nat.find exists_bit, Nat.find_spec exists_bit, fun i less =>
    Bool.eq_false_iff.mpr (Nat.find_min exists_bit less)⟩

theorem exists_least_bit {word : BitVec width} (nonzero : word ≠ BitVec.ofNat width 0) :
    ∃ k, word.getLsbD k = true ∧ ∀ i, (word &&& -word).getLsbD i = decide (i = k) := by
  obtain ⟨k, set_, clear⟩ := exists_lowest_bit nonzero
  refine ⟨k, set_, fun i => ?_⟩
  rw [getLsbD_and_neg]
  rcases Nat.lt_trichotomy i k with less | rfl | greater
  · rw [clear i less, Bool.false_and, decide_eq_false less.ne]
  · rw [set_, decide_eq_true clear, decide_eq_true rfl, Bool.and_self]
  · have notLeast : ¬∀ j < i, word.getLsbD j = false := fun before => by
      rw [before k greater] at set_
      cases set_
    rw [decide_eq_false notLeast, Bool.and_false, decide_eq_false greater.ne']

/-! ### Numbers whose bits are all set -/

theorem and_ofNat_eq_iff {word : BitVec width} {number : Nat} :
    word &&& BitVec.ofNat width number = BitVec.ofNat width number ↔
      ∀ i < width, number.testBit i = true → word.getLsbD i = true := by
  constructor
  · intro same i inside set_
    have isMask : (BitVec.ofNat width number).getLsbD i = true := by
      rw [BitVec.getLsbD_ofNat, decide_eq_true inside, set_, Bool.and_true]
    have both : (word &&& BitVec.ofNat width number).getLsbD i = true := by rw [same, isMask]
    rw [BitVec.getLsbD_and, Bool.and_eq_true] at both
    exact both.1
  · intro included
    refine BitVec.eq_of_getLsbD_eq fun i inside => ?_
    have bit := included i inside
    rw [BitVec.getLsbD_and, BitVec.getLsbD_ofNat, decide_eq_true inside, Bool.true_and]
    cases set_ : number.testBit i with
    | false => rw [Bool.and_false]
    | true => rw [bit set_, Bool.and_true]

theorem and_two_pow_eq {word : BitVec width} {bit : Nat} (set_ : word.getLsbD bit = true) :
    word &&& BitVec.ofNat width (2 ^ bit) = BitVec.ofNat width (2 ^ bit) := by
  rw [and_ofNat_eq_iff]
  intro i _ isBit
  rw [Nat.testBit_two_pow, decide_eq_true_eq] at isBit
  rwa [← isBit]

/-- Below the least bit there is no such number. -/
theorem and_ofNat_ne {word : BitVec width} {bit number : Nat} (upTo : bit ≤ width)
    (clear : ∀ i < bit, word.getLsbD i = false) (positive : 0 < number) (below : number < 2 ^ bit) :
    word &&& BitVec.ofNat width number ≠ BitVec.ofNat width number := by
  rw [Ne, and_ofNat_eq_iff]
  intro included
  obtain ⟨i, set_⟩ := Nat.exists_testBit_of_ne_zero positive.ne'
  have inside : i < bit := by
    by_contra outside
    have power : 2 ^ bit ≤ 2 ^ i := Nat.pow_le_pow_right Nat.two_pos (not_lt.mp outside)
    rw [Nat.testBit_lt_two_pow (below.trans_le power)] at set_
    cases set_
  have isSet := included i (inside.trans_le upTo) set_
  rw [clear i inside] at isSet
  cases isSet

end StdPrograms.Foundation

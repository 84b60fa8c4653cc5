import Mathlib.Data.Char
import Mathlib.Data.List.Induction
import Mathlib.Order.Bounds.Defs
import StdPrograms.Foundation.Numerals
import StdPrograms.Foundation.Sorting

/-!
Contract: the greatest number that can be written with some numbers one after another.

Owns `largestNumber` of `solution_179.cpp`, that its comparison is a strict weak order on decimal
strings, and that it returns the greatest number without leading zeros.

Does not own how `sort` sorts.
-/

namespace StdPrograms.Hobbies

open StdPrograms.Foundation

namespace LargestNumber

/-- `x + y > y + x`, for strings. -/
def before (x y : List Char) : Bool :=
  decide (x ++ y > y ++ x)

/-- `accumulate` begins with the empty string. -/
def largestNumber (sort : (List Char → List Char → Bool) → List (List Char) → List (List Char))
    (nums : List Nat) : Option (List Char) := do
  let numstrs := sort before (nums.map (Nat.toDigits 10))
  let first ← numstrs[0]?
  if first = ['0'] then return ['0']
  else return numstrs.foldl (· ++ ·) []

def Decimal (text : List Char) : Prop :=
  ∃ number, text = Nat.toDigits 10 number

/-- The numbers that are written by the elements in some order. -/
def writtenBy (nums : List Nat) : Set Nat :=
  {number | ∃ ordering : List Nat, ordering.Perm nums ∧
    number = Nat.ofDigitChars 10 (ordering.flatMap (Nat.toDigits 10)) 0}

/-! ### Decimal strings -/

def digits : Set Char := {char | char.isDigit}

def digit (char : Char) : Nat := char.toNat - '0'.toNat

theorem ofDigitChars_eq_numeral (text : List Char) :
    Nat.ofDigitChars 10 text 0 = numeral 10 digit text :=
  Nat.ofDigitChars_eq_foldl

theorem bounds_of_digit {char : Char} (isDigit : char ∈ digits) :
    48 ≤ char.toNat ∧ char.toNat ≤ 57 := by
  have both : char.isDigit = true := isDigit
  rw [Char.isDigit, Bool.and_eq_true, decide_eq_true_eq, decide_eq_true_eq] at both
  exact both

theorem digit_lt_ten (char : Char) (isDigit : char ∈ digits) : digit char < 10 := by
  have bounds := bounds_of_digit isDigit
  change char.toNat - 48 < 10
  omega

theorem digit_strictMonoOn : StrictMonoOn digit digits := by
  intro left leftDigit right rightDigit less
  have leftBounds := bounds_of_digit leftDigit
  have lessNat : left.toNat < right.toNat := less
  change left.toNat - 48 < right.toNat - 48
  omega

theorem digitChar_digit {char : Char} (isDigit : char ∈ digits) :
    Nat.digitChar (digit char) = char := by
  have bounds := bounds_of_digit isDigit
  have less := digit_lt_ten char isDigit
  apply Char.toNat_inj.mp
  rw [Nat.toNat_digitChar_of_lt_ten less]
  change 48 + (char.toNat - 48) = char.toNat
  omega

theorem Decimal.digits {text : List Char} (decimal : Decimal text) :
    ∀ char ∈ text, char ∈ digits := by
  obtain ⟨number, rfl⟩ := decimal
  exact fun char member => Nat.isDigit_of_mem_toDigits (by decide) (by decide) member

theorem Decimal.ne_nil {text : List Char} (decimal : Decimal text) : text ≠ [] := by
  obtain ⟨number, rfl⟩ := decimal
  exact Nat.toDigits_ne_nil

theorem numeral_toDigits (number : Nat) : numeral 10 digit (Nat.toDigits 10 number) = number := by
  rw [← ofDigitChars_eq_numeral, Nat.ofDigitChars_ten_toDigits]

/-- A string of digits that does not begin with a zero is the decimal string of its number. -/
theorem toDigits_numeral {text : List Char} (allDigits : ∀ char ∈ text, char ∈ digits)
    (nonempty : text ≠ []) (noZero : text.head? ≠ some '0') :
    Nat.toDigits 10 (numeral 10 digit text) = text ∧ 0 < numeral 10 digit text := by
  induction text using List.reverseRecOn with
  | nil => exact absurd rfl nonempty
  | append_singleton front last inductionHypothesis =>
      have lastDigit : last ∈ digits := allDigits last (by simp)
      have single : numeral 10 digit [last] = digit last := by
        rw [numeral_cons, numeral_nil, List.length_nil, pow_zero, Nat.mul_one, Nat.add_zero]
      have written : Nat.toDigits 10 (digit last) = [last] := by
        rw [Nat.toDigits_of_lt_base (digit_lt_ten last lastDigit), digitChar_digit lastDigit]
      by_cases empty : front = []
      · subst empty
        rw [List.nil_append, single]
        refine ⟨written, Nat.pos_of_ne_zero fun zero => noZero ?_⟩
        have isZero := digitChar_digit lastDigit
        rw [zero] at isZero
        rw [List.nil_append, List.head?_cons, ← isZero]
        rfl
      · have sameHead : (front ++ [last]).head? = front.head? := List.head?_append_of_ne_nil _ empty
        rw [sameHead] at noZero
        obtain ⟨frontWritten, positive⟩ := inductionHypothesis
          (fun char member => allDigits char (List.mem_append_left _ member)) empty noZero
        rw [numeral_append, single, List.length_singleton, pow_one, Nat.mul_comm]
        refine ⟨?_, by omega⟩
        rw [← Nat.toDigits_append_toDigits (by decide) positive (digit_lt_ten last lastDigit),
          frontWritten, written]

theorem head?_toDigits {number : Nat} (positive : 0 < number) :
    (Nat.toDigits 10 number).head? ≠ some '0' := by
  induction number using Nat.strongRecOn with
  | ind number inductionHypothesis =>
      by_cases small : number < 10
      · rw [Nat.toDigits_of_lt_base small, List.head?_cons, ne_eq, Option.some.injEq,
          Nat.digitChar_eq_zero]
        omega
      · rw [Nat.toDigits_of_base_le (by decide) (Nat.le_of_not_lt small),
          List.head?_append_of_ne_nil _ Nat.toDigits_ne_nil]
        exact inductionHypothesis (number / 10) (by omega) (by omega)

/-! ### The comparison -/

theorem before_iff {x y : List Char} (xDigits : ∀ char ∈ x, char ∈ digits)
    (yDigits : ∀ char ∈ y, char ∈ digits) :
    before x y ↔ numeral 10 digit (y ++ x) < numeral 10 digit (x ++ y) := by
  rw [before, decide_eq_true_iff]
  refine lt_iff_numeral_lt digit_lt_ten digit_strictMonoOn ?_ ?_ ?_
  · exact fun char member => (List.mem_append.mp member).elim (yDigits char) (xDigits char)
  · exact fun char member => (List.mem_append.mp member).elim (xDigits char) (yDigits char)
  · rw [List.length_append, List.length_append, Nat.add_comm]

theorem before_strictWeakOn : StrictWeakOn before Decimal := by
  refine @StrictWeakOn.of_key _ before Decimal Rat _ (key 10 digit)
    fun x y xDecimal yDecimal => ?_
  rw [before_iff xDecimal.digits yDecimal.digits,
    numeral_concat_lt_iff_key (by decide) xDecimal.ne_nil yDecimal.ne_nil]

/-! ### The sorted strings -/

section

variable {nums : List Nat} {words : List (List Char)}
  (permutation : words.Perm (nums.map (Nat.toDigits 10)))

include permutation

theorem decimal_of_perm : ∀ word ∈ words, Decimal word := by
  intro word member
  obtain ⟨number, -, written⟩ := List.mem_map.mp (permutation.mem_iff.mp member)
  exact ⟨number, written.symm⟩

/-- Every arrangement of the strings is one of the numbers. -/
theorem numeral_flatten_mem_writtenBy : numeral 10 digit words.flatten ∈ writtenBy nums := by
  have inverse : (nums.map (Nat.toDigits 10)).map (numeral 10 digit) = nums := by
    rw [List.map_map]
    exact (List.map_congr_left fun number _ => numeral_toDigits number).trans nums.map_id
  have written : (words.map (numeral 10 digit)).map (Nat.toDigits 10) = words := by
    rw [List.map_map]
    refine (List.map_congr_left fun word member => ?_).trans words.map_id
    obtain ⟨number, rfl⟩ := decimal_of_perm permutation word member
    exact congrArg (Nat.toDigits 10) (numeral_toDigits number)
  refine ⟨words.map (numeral 10 digit), ?_, ?_⟩
  · have mapped := permutation.map (numeral 10 digit)
    rw [inverse] at mapped
    exact mapped
  · rw [ofDigitChars_eq_numeral, List.flatMap_def, written]

theorem isGreatest_writtenBy
    (sorted : words.Pairwise fun earlier later => before later earlier = false) :
    IsGreatest (writtenBy nums) (numeral 10 digit words.flatten) := by
  refine ⟨numeral_flatten_mem_writtenBy permutation, ?_⟩
  rintro number ⟨ordering, orderingPermutation, rfl⟩
  rw [ofDigitChars_eq_numeral, List.flatMap_def]
  refine numeral_flatten_le ?_ ((orderingPermutation.map (Nat.toDigits 10)).trans permutation.symm)
  refine sorted.imp_of_mem fun {earlier later} earlierIn laterIn notBefore => ?_
  rw [← Bool.not_eq_true, before_iff (decimal_of_perm permutation later laterIn).digits
    (decimal_of_perm permutation earlier earlierIn).digits, not_lt] at notBefore
  exact notBefore

/-- Where zero comes first there is nothing else. -/
theorem numeral_eq_zero_of_first {rest : List (List Char)} (wordsAre : words = ['0'] :: rest)
    (sorted : words.Pairwise fun earlier later => before later earlier = false) :
    numeral 10 digit words.flatten = 0 := by
  have zero : numeral 10 digit ['0'] = 0 := rfl
  refine numeral_flatten_eq_zero fun word member => ?_
  rw [wordsAre] at member sorted
  rcases List.mem_cons.mp member with rfl | later
  · exact zero
  · have wordDecimal := decimal_of_perm permutation word (wordsAre ▸ member)
    have notBefore := (List.pairwise_cons.mp sorted).1 word later
    have zeroDecimal : Decimal ['0'] := ⟨0, rfl⟩
    rw [← Bool.not_eq_true, before_iff wordDecimal.digits zeroDecimal.digits, not_lt,
      numeral_append, numeral_append, zero, Nat.zero_mul, List.length_singleton] at notBefore
    omega

end

/-- The decimal string of the greatest number, and the comparison is fit for the sort. -/
theorem largestNumber_spec
    {sort : (List Char → List Char → Bool) → List (List Char) → List (List Char)}
    (sorts : Sorts sort) {nums : List Nat} (nonempty : nums ≠ []) :
    StrictWeakOn before Decimal ∧
      ∃ number, largestNumber sort nums = some (Nat.toDigits 10 number) ∧
        IsGreatest (writtenBy nums) number := by
  refine ⟨before_strictWeakOn, ?_⟩
  obtain ⟨permutation, sorted⟩ := sorts before (nums.map (Nat.toDigits 10))
    (before_strictWeakOn.mono fun word member =>
      decimal_of_perm (List.Perm.refl _) word member)
  rw [largestNumber]
  generalize sort before (nums.map (Nat.toDigits 10)) = words at permutation sorted
  refine ⟨numeral 10 digit words.flatten, ?_, isGreatest_writtenBy permutation sorted⟩
  cases wordsAre : words with
  | nil =>
      rw [wordsAre] at permutation
      exact absurd (List.map_eq_nil_iff.mp permutation.symm.eq_nil) nonempty
  | cons first rest =>
      rw [List.getElem?_cons_zero, Option.bind_eq_bind, Option.bind_some]
      have firstIn : first ∈ words := wordsAre ▸ List.mem_cons_self
      by_cases zero : first = ['0']
      · rw [if_pos zero, ← wordsAre,
          numeral_eq_zero_of_first permutation (zero ▸ wordsAre) sorted]
        rfl
      · rw [if_neg zero, ← wordsAre, List.foldl_append_eq_append, List.map_id', List.nil_append]
        obtain ⟨number, rfl⟩ := decimal_of_perm permutation first firstIn
        have positive : 0 < number := by
          refine Nat.pos_of_ne_zero fun isZero => zero ?_
          rw [isZero, Nat.toDigits_zero]
        have allDigits : ∀ char ∈ words.flatten, char ∈ digits := by
          intro char member
          obtain ⟨word, wordIn, inWord⟩ := List.mem_flatten.mp member
          exact (decimal_of_perm permutation word wordIn).digits char inWord
        have noZero : words.flatten.head? ≠ some '0' := by
          rw [wordsAre, List.flatten_cons, List.head?_append_of_ne_nil _ Nat.toDigits_ne_nil]
          exact head?_toDigits positive
        have flattenNonempty : words.flatten ≠ [] := by
          rw [wordsAre, List.flatten_cons]
          exact List.append_ne_nil_of_left_ne_nil Nat.toDigits_ne_nil _
        rw [(toDigits_numeral allDigits flattenNonempty noZero).1]
        rfl

theorem largestNumber_spec_by_merging :
    Sorts (@mergeSortBy (List Char)) ∧ [3, 30, 34] ≠ [] ∧ StrictWeakOn before Decimal ∧
      ∃ number, largestNumber mergeSortBy [3, 30, 34] = some (Nat.toDigits 10 number) ∧
        IsGreatest (writtenBy [3, 30, 34]) number :=
  ⟨mergeSortBy_sorts, List.cons_ne_nil 3 [30, 34],
    largestNumber_spec mergeSortBy_sorts (List.cons_ne_nil 3 [30, 34])⟩

end LargestNumber

end StdPrograms.Hobbies

import StdPrograms.Foundation.CommonSegments
import StdPrograms.Foundation.Grid
import StdPrograms.Hobbies.LongestPalindrome

/-!
Contract: the longest segment of a string that occurs in the reverse of it.

Owns `longestPalindrome2` of `solution_5.cpp`, the table that it fills and searches, and for which
strings it returns a palindrome as long as that of `longestPalindrome`.

Does not own `longestPalindrome`.
-/

namespace StdPrograms.Hobbies

open StdPrograms.Foundation
open LongestPalindrome (longestPalindrome longestPalindrome_spec)

namespace LongestPalindrome2

structure Search where
  records : Grid Nat
  max_i : Nat
  max_j : Nat

/-- The body of the inner loop. No value is greater than `j + 1`. -/
def fillCell (s r : List Char) (i : Nat) (search : Search) (j : Nat) : Option Search := do
  let left ← s[i]?
  let right ← r[j]?
  let records := search.records.set i j
    (if i = 0 ∨ j = 0 then if left = right then 1 else 0
    else if left = right then search.records (i - 1) (j - 1) + 1
    else 0)
  if records i j > records search.max_i search.max_j then return ⟨records, i, j⟩
  else return ⟨records, search.max_i, search.max_j⟩

def fillRow (s r : List Char) (search : Search) (i : Nat) : Option Search :=
  signedLoop 32 0 r.length (fillCell s r i) search

def longestPalindrome2 (s : List Char) : Option (List Char) :=
  if s = [] then some []
  else do
    let r := s.reverse
    let search ← signedLoop 32 0 s.length (fillRow s r) ⟨fun _ _ => 0, 0, 0⟩
    let length := search.records search.max_i search.max_j
    return segment s (search.max_i + 1 - length) length

variable {s r : List Char} {i j : Nat} {search : Search}

/-! ### The table -/

/-- The cells that the loops have passed over before they come to one. -/
def Passed (cols i j row col : Nat) : Prop := col < cols ∧ Before (row, col) (i, j)

/-- The cells passed have their values and the others none; the place is the first one with the
greatest value. -/
structure Scanned (s r : List Char) (i j : Nat) (search : Search) : Prop where
  filled : ∀ row col, Passed r.length i j row col → search.records row col = commonEnd s r row col
  zero : ∀ row col, ¬Passed r.length i j row col → search.records row col = 0
  place : search.max_i = 0 ∧ search.max_j = 0 ∨ Passed r.length i j search.max_i search.max_j
  most : ∀ row col, Passed r.length i j row col →
    commonEnd s r row col ≤ search.records search.max_i search.max_j
  first : ∀ row col, Passed r.length i j row col → Before (row, col) (search.max_i, search.max_j) →
    commonEnd s r row col < search.records search.max_i search.max_j

theorem passed_succ_iff (jInside : j < r.length) {row col : Nat} :
    Passed r.length i (j + 1) row col ↔ Passed r.length i j row col ∨ row = i ∧ col = j := by
  unfold Passed Before
  dsimp only
  omega

/-- The next cell besides the ones passed. -/
theorem forall_passed_succ (jInside : j < r.length) {holds : Nat → Nat → Prop}
    (before : ∀ row col, Passed r.length i j row col → holds row col) (here : holds i j) :
    ∀ row col, Passed r.length i (j + 1) row col → holds row col := by
  intro row col passed
  rcases (passed_succ_iff jInside).mp passed with earlier | ⟨rfl, rfl⟩
  · exact before row col earlier
  · exact here

theorem passed_row_iff {cols row col : Nat} :
    Passed cols i cols row col ↔ Passed cols (i + 1) 0 row col := by
  unfold Passed Before
  dsimp only
  omega

theorem not_before_self (row col : Nat) : ¬Before (row, col) (row, col) := by
  unfold Before
  omega

/-- The cell gets its value from the one before it in both directions. -/
theorem cell_eq (iInside : i < s.length) (jInside : j < r.length)
    (scanned : Scanned s r i j search) :
    (if i = 0 ∨ j = 0 then if s[i] = r[j] then 1 else 0
    else if s[i] = r[j] then search.records (i - 1) (j - 1) + 1
    else 0) = commonEnd s r i j := by
  have same : s[i]? = r[j]? ↔ s[i] = r[j] := by
    rw [List.getElem?_eq_getElem iInside, List.getElem?_eq_getElem jInside, Option.some.injEq]
  by_cases edge : i = 0 ∨ j = 0
  · rw [if_pos edge, commonEnd_of_edge edge]
    simp only [same]
  · obtain ⟨i, rfl⟩ := Nat.exists_eq_add_one_of_ne_zero (not_or.mp edge).1
    obtain ⟨j, rfl⟩ := Nat.exists_eq_add_one_of_ne_zero (not_or.mp edge).2
    have passed : Passed r.length (i + 1) (j + 1) i j := ⟨by omega, .inl (Nat.lt_succ_self i)⟩
    rw [if_neg edge, Nat.add_sub_cancel, Nat.add_sub_cancel, scanned.filled i j passed,
      commonEnd_succ_succ]
    simp only [same]

/-- The table behind a cell. -/
theorem Scanned.records_succ (jInside : j < r.length) (scanned : Scanned s r i j search) :
    (∀ row col, Passed r.length i (j + 1) row col →
      search.records.set i j (commonEnd s r i j) row col = commonEnd s r row col) ∧
    ∀ row col, ¬Passed r.length i (j + 1) row col →
      search.records.set i j (commonEnd s r i j) row col = 0 := by
  constructor
  · intro row col passed
    rcases (passed_succ_iff jInside).mp passed with earlier | ⟨rfl, rfl⟩
    · have other : (row, col) ≠ (i, j) := by
        rintro ⟨⟩
        obtain ⟨-, before⟩ := earlier
        unfold Before at before
        omega
      rw [Grid.set_other _ _ other, scanned.filled row col earlier]
    · exact Grid.set_same _ _ _ _
  · intro row col notPassed
    obtain ⟨notEarlier, notHere⟩ := not_or.mp (mt (passed_succ_iff jInside).mpr notPassed)
    have other : (row, col) ≠ (i, j) := fun same => notHere (Prod.ext_iff.mp same)
    rw [Grid.set_other _ _ other, scanned.zero row col notEarlier]

theorem fillCell_spec (iInside : i < s.length) (jInside : j < r.length)
    (scanned : Scanned s r i j search) :
    ∃ after, fillCell s r i search j = some after ∧ Scanned s r i (j + 1) after := by
  have value := cell_eq iInside jInside scanned
  obtain ⟨filled, zero⟩ := scanned.records_succ jInside
  obtain ⟨-, -, place, most, first⟩ := scanned
  obtain ⟨records, max_i, max_j⟩ := search
  dsimp only at value filled zero place most first
  simp only [fillCell, List.getElem?_eq_getElem iInside, List.getElem?_eq_getElem jInside,
    Option.bind_eq_bind, Option.bind_some, value, Grid.set_same]
  have passedHere : Passed r.length i (j + 1) i j := (passed_succ_iff jInside).mpr (.inr ⟨rfl, rfl⟩)
  by_cases here : (max_i, max_j) = (i, j)
  · -- Only the first cell is the place before it is passed.
    cases here
    have none_ : ∀ row col, ¬Passed r.length i j row col := by
      intro row col passed
      unfold Passed Before at passed place
      omega
    rw [Grid.set_same, if_neg (lt_irrefl _)]
    refine ⟨_, rfl, filled, zero, .inr passedHere, ?_, ?_⟩
    · exact forall_passed_succ jInside (fun row col earlier => absurd earlier (none_ row col))
        (Grid.set_same _ _ _ _).ge
    · exact forall_passed_succ jInside (fun row col earlier => absurd earlier (none_ row col))
        fun before => absurd before (not_before_self _ _)
  · rw [Grid.set_other _ _ here]
    split
    next greater =>
      refine ⟨_, rfl, filled, zero, .inr passedHere, ?_, ?_⟩
      · dsimp only
        rw [Grid.set_same]
        exact forall_passed_succ jInside
          (fun row col earlier => (most row col earlier).trans greater.le) (le_refl _)
      · dsimp only
        rw [Grid.set_same]
        exact forall_passed_succ jInside
          (fun row col earlier _ => (most row col earlier).trans_lt greater)
          fun before => absurd before (not_before_self _ _)
    next notGreater =>
      have notLater : ¬Before (i, j) (max_i, max_j) := by
        unfold Passed Before at place
        unfold Before
        omega
      refine ⟨_, rfl, filled, zero, ?_, ?_, ?_⟩
      · exact place.imp_right fun earlier => (passed_succ_iff jInside).mpr (.inl earlier)
      · dsimp only
        rw [Grid.set_other _ _ here]
        exact forall_passed_succ jInside most (not_lt.mp notGreater)
      · dsimp only
        rw [Grid.set_other _ _ here]
        exact forall_passed_succ jInside first fun before => absurd before notLater

theorem fillRow_spec (small : r.length < 2 ^ 31) (iInside : i < s.length)
    (scanned : Scanned s r i 0 search) :
    ∃ after, fillRow s r search i = some after ∧ Scanned s r (i + 1) 0 after := by
  obtain ⟨after, returned, filled, zero, place, most, first⟩ := @forLoop_spec _ (fillCell s r i) 0
    r.length search (Scanned s r i) scanned fun done inside before holds => by
      rw [Nat.zero_add]
      exact fillCell_spec iInside inside holds
  refine ⟨after, ?_, ?_⟩
  · rw [fillRow, signedLoop_eq (by omega), returned]
  · simp only [passed_row_iff] at filled zero place most first
    exact ⟨filled, zero, place, most, first⟩

/-- Each cell of the table is passed. -/
theorem fillRows_spec (small : s.length < 2 ^ 31) (smallR : r.length < 2 ^ 31) :
    ∃ search, signedLoop 32 0 s.length (fillRow s r) ⟨fun _ _ => 0, 0, 0⟩ = some search ∧
      Scanned s r s.length 0 search := by
  have nothing : ∀ {cols row col}, ¬Passed cols 0 0 row col := by
    intro cols row col passed
    unfold Passed Before at passed
    omega
  rw [signedLoop_eq (by omega)]
  refine forLoop_spec (fun done search => Scanned s r done 0 search) ?_
    fun done inside before holds => ?_
  · exact ⟨fun _ _ passed => absurd passed nothing, fun _ _ _ => rfl, .inl ⟨rfl, rfl⟩,
      fun _ _ passed => absurd passed nothing, fun _ _ passed => absurd passed nothing⟩
  · rw [Nat.zero_add]
    exact fillRow_spec smallR inside holds

/-! ### What is returned -/

/-- The reverse of the segment occurs in the string too. -/
def Mirrored (s : List Char) (low length : Nat) : Prop :=
  low + length ≤ s.length ∧ (segment s low length).reverse <:+: s

theorem mirrored_iff {low length : Nat} (positive : 0 < length) :
    Mirrored s low length ↔ low + length ≤ s.length ∧
      ∃ j < s.length, length ≤ commonEnd s s.reverse (low + length - 1) j := by
  refine and_congr_right fun inside => ?_
  have first : low + length - 1 + 1 - length = low := by omega
  rw [← List.reverse_infix, List.reverse_reverse, isInfix_iff_segment, length_segment inside,
    List.length_reverse]
  constructor
  · rintro ⟨other, otherInside, same⟩
    refine ⟨other + length - 1, by omega, ?_⟩
    rw [le_commonEnd_iff (by omega) (by rw [List.length_reverse]; omega), first,
      show other + length - 1 + 1 - length = other by omega]
    exact ⟨by omega, by omega, same.symm⟩
  · rintro ⟨j, jInside, reaches⟩
    rw [le_commonEnd_iff (by omega) (by rwa [List.length_reverse]), first] at reaches
    exact ⟨j + 1 - length, by omega, reaches.2.2.symm⟩

theorem mirrored_of_palindromeAt {low length : Nat}
    (palindrome : PalindromeAt s low (low + length)) : Mirrored s low length := by
  have inside := palindrome.1.2
  have same := ((segment_palindrome_iff inside).mpr palindrome).reverse_eq
  refine ⟨inside, ?_⟩
  rw [same]
  exact segment_inside low length

/-- While an `int` counts the characters, the first of the longest segments is returned whose
reverse occurs too. -/
theorem longestPalindrome2_spec (small : s.length < 2 ^ 31) :
    ∃ low length, longestPalindrome2 s = some (segment s low length) ∧ Mirrored s low length ∧
      (∀ low' length', Mirrored s low' length' → length' ≤ length) ∧
      ∀ low', Mirrored s low' length → low ≤ low' := by
  rcases eq_or_ne s [] with rfl | nonempty
  · refine ⟨0, 0, rfl, ⟨Nat.le_refl 0, List.nil_infix⟩, fun low' length' mirrored => ?_,
      fun low' _ => Nat.zero_le low'⟩
    have inside : low' + length' ≤ 0 := mirrored.1
    omega
  · obtain ⟨search, returned, scanned⟩ :=
      @fillRows_spec s s.reverse small (by rwa [List.length_reverse])
    obtain ⟨filled, -, place, most, first⟩ := scanned
    obtain ⟨records, max_i, max_j⟩ := search
    dsimp only at returned filled place most first
    have positive := List.length_pos_iff.mpr nonempty
    have passed_iff : ∀ row col, Passed s.reverse.length s.length 0 row col ↔
        row < s.length ∧ col < s.length := by
      intro row col
      unfold Passed Before
      rw [List.length_reverse]
      dsimp only
      omega
    simp only [passed_iff, and_imp] at filled place most first
    have rowInside : max_i < s.length := by omega
    have colInside : max_j < s.length := by omega
    have value := filled max_i max_j rowInside colInside
    rw [value] at most first
    -- A segment of one character is its own reverse.
    have single : Mirrored s 0 1 := mirrored_of_palindromeAt (PalindromeAt.single positive)
    obtain ⟨-, j, jInside, atLeast⟩ := (mirrored_iff Nat.one_pos).mp single
    have some_ : 0 < commonEnd s s.reverse max_i max_j :=
      Nat.lt_of_lt_of_le atLeast (most 0 j positive jInside)
    have colInsideR : max_j < s.reverse.length := by rwa [List.length_reverse]
    have ends := (le_commonEnd_iff rowInside colInsideR).mp (Nat.le_refl _)
    generalize lengthIs : commonEnd s s.reverse max_i max_j = length at value most first some_ ends
    have last : max_i + 1 - length + length - 1 = max_i := by omega
    refine ⟨max_i + 1 - length, length, ?_, ?_, fun low' length' mirrored => ?_,
      fun low' mirrored => ?_⟩
    · rw [longestPalindrome2, if_neg nonempty]
      simp only [returned, value, Option.bind_eq_bind, Option.bind_some, pure]
    · rw [mirrored_iff some_, last]
      exact ⟨by omega, max_j, colInside, lengthIs.ge⟩
    · rcases Nat.eq_zero_or_pos length' with rfl | more
      · exact Nat.zero_le length
      · obtain ⟨inside, j', jInside', atLeast'⟩ := (mirrored_iff more).mp mirrored
        exact atLeast'.trans (most _ j' (by omega) jInside')
    · obtain ⟨inside, j', jInside', atLeast'⟩ := (mirrored_iff some_).mp mirrored
      by_contra earlier
      have before : Before (low' + length - 1, j') (max_i, max_j) := .inl (by dsimp only; omega)
      exact absurd (first _ j' (by omega) jInside' before) (not_lt.mpr atLeast')

theorem longestPalindrome2_eq_none (large : 2 ^ 31 ≤ s.length) : longestPalindrome2 s = none := by
  have positive : 0 < s.length := Nat.lt_of_lt_of_le (by decide) large
  have firstRow : fillRow s s.reverse ⟨fun _ _ => 0, 0, 0⟩ 0 = none :=
    signedLoop_eq_none (by rwa [List.length_reverse]) (by rw [List.length_reverse]; omega) _
  have rows : signedLoop 32 0 s.length (fillRow s s.reverse) ⟨fun _ _ => 0, 0, 0⟩ = none := by
    refine forLoop_eq_none_of_le (Nat.succ_le_of_lt positive) ?_
    rw [forLoop_succ]
    change (fillRow s s.reverse ⟨fun _ _ => 0, 0, 0⟩ 0).bind _ = none
    rw [firstRow]
    rfl
  simp only [longestPalindrome2, if_neg (List.length_pos_iff.mp positive), rows,
    Option.bind_eq_bind, Option.bind_none]

/-! ### When it is a palindrome -/

/-- A palindrome in the string is returned that is as long as the one of `longestPalindrome`. -/
def Right (s : List Char) : Prop :=
  ∃ part other, longestPalindrome2 s = some part ∧ part <:+: s ∧ part.Palindrome ∧
    longestPalindrome s = some other ∧ part.length = other.length

/-- A palindrome is longer than the segment, or as long and before it. -/
def Beaten (s : List Char) (low length : Nat) : Prop :=
  ∃ low' length', PalindromeAt s low' (low' + length') ∧
    (length < length' ∨ length = length' ∧ low' < low)

/-- The function is right just if an `int` counts the characters and each segment that is no
palindrome, but whose reverse occurs too, is beaten by a palindrome. -/
theorem longestPalindrome2_iff :
    Right s ↔ s.length < 2 ^ 31 ∧ ∀ low length, Mirrored s low length →
      ¬(segment s low length).Palindrome → Beaten s low length := by
  constructor
  · rintro ⟨part, other, returned, -, palindrome, -⟩
    have small : s.length < 2 ^ 31 := by
      by_contra large
      rw [longestPalindrome2_eq_none (not_lt.mp large)] at returned
      cases returned
    refine ⟨small, fun low' length' mirrored' notPalindrome => ?_⟩
    obtain ⟨low, length, spec, mirrored, longest, first⟩ := longestPalindrome2_spec small
    rw [spec, Option.some.injEq] at returned
    subst returned
    refine ⟨low, length, (segment_palindrome_iff mirrored.1).mp palindrome, ?_⟩
    rcases Nat.lt_or_eq_of_le (longest low' length' mirrored') with shorter | rfl
    · exact .inl shorter
    · have other : low ≠ low' := by
        rintro rfl
        exact notPalindrome palindrome
      exact .inr ⟨rfl, lt_of_le_of_ne (first low' mirrored') other⟩
  · rintro ⟨small, beaten⟩
    obtain ⟨low, length, returned, mirrored, longest, first⟩ := longestPalindrome2_spec small
    obtain ⟨best, bestLength, returnedBest, bestAt, all⟩ := longestPalindrome_spec small
    have palindrome : (segment s low length).Palindrome := by
      by_contra notPalindrome
      obtain ⟨low', length', palindromeAt, longer | ⟨rfl, earlier⟩⟩ :=
        beaten low length mirrored notPalindrome
      · have atMost := longest low' length' (mirrored_of_palindromeAt palindromeAt)
        exact absurd atMost (not_le.mpr longer)
      · have notBefore := first low' (mirrored_of_palindromeAt palindromeAt)
        exact absurd notBefore (not_le.mpr earlier)
    have palindromeAt := (segment_palindrome_iff mirrored.1).mp palindrome
    refine ⟨_, _, returned, segment_inside low length, palindrome, returnedBest, ?_⟩
    rw [length_segment mirrored.1, length_segment bestAt.1.2]
    have atMost := all low (low + length) palindromeAt
    have atLeast := longest best bestLength (mirrored_of_palindromeAt bestAt)
    omega

/-- The string has "ab" and elsewhere its reverse. -/
theorem not_right_abcdba : ¬Right ['a', 'b', 'c', 'd', 'b', 'a'] := by
  rintro ⟨part, other, returned, -, palindrome, -⟩
  have first : longestPalindrome2 ['a', 'b', 'c', 'd', 'b', 'a'] = some ['a', 'b'] := by
    decide +kernel
  rw [first, Option.some.injEq] at returned
  subst returned
  exact absurd palindrome.reverse_eq (by decide)

end LongestPalindrome2

end StdPrograms.Hobbies

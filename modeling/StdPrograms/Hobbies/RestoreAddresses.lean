import Mathlib.Data.List.Nodup
import StdPrograms.Hobbies.LargestNumber

/-!
Contract: addresses from their digits.

Owns `restoreIpAddresses` of `solution_93.cpp` and its `helper`, and what they find in a string of
digits.

Does not own strings with other characters.
-/

namespace StdPrograms.Hobbies

open StdPrograms.Foundation

namespace RestoreAddresses

def substr (s : List Char) (pos count : Nat) : List Char :=
  (s.drop pos).take count

/-- The number of a string of digits. -/
def stoi (text : List Char) : Nat :=
  Nat.ofDigitChars 10 text 0

/-- What is added to `result`, in this order. -/
def helper (s cur : List Char) (pos fields : Nat) : List (List Char) :=
  if fields = 4 ∧ pos = s.length then [cur]
  else if pos ≥ s.length ∨ fields ≥ 4 then []
  else
    let cur := if cur ≠ [] then cur ++ ['.'] else cur
    if s[pos]? = some '0' then helper s (cur ++ substr s pos 1) (pos + 1) (fields + 1)
    else
      let s3 := substr s pos 3
      helper s (cur ++ substr s pos 1) (pos + 1) (fields + 1) ++
        helper s (cur ++ substr s pos 2) (pos + 2) (fields + 1) ++
        if stoi s3 ≤ 255 then helper s (cur ++ s3) (pos + 3) (fields + 1) else []
termination_by 4 - fields

def restoreIpAddresses (s : List Char) : List (List Char) :=
  helper s [] 0 0

/-! ### Parts of an address -/

/-- A decimal number from 0 to 255. -/
def IsPart (part : List Char) : Prop :=
  ∃ number ≤ 255, part = Nat.toDigits 10 number

def Digits (text : List Char) : Prop :=
  ∀ char ∈ text, char.isDigit

instance (text : List Char) : Decidable (Digits text) :=
  inferInstanceAs (Decidable (∀ char ∈ text, char.isDigit))

theorem IsPart.digits {part : List Char} (isPart : IsPart part) : Digits part := by
  obtain ⟨number, -, rfl⟩ := isPart
  exact LargestNumber.Decimal.digits ⟨number, rfl⟩

theorem stoi_toDigits (number : Nat) : stoi (Nat.toDigits 10 number) = number :=
  Nat.ofDigitChars_ten_toDigits

theorem isPart_iff {part : List Char} (digits : Digits part) (nonempty : part ≠ [])
    (noZero : part.head? ≠ some '0') : IsPart part ↔ stoi part ≤ 255 := by
  have written := (LargestNumber.toDigits_numeral digits nonempty noZero).1
  rw [← LargestNumber.ofDigitChars_eq_numeral] at written
  constructor
  · rintro ⟨number, small, rfl⟩
    rwa [stoi_toDigits]
  · exact fun small => ⟨stoi part, small, written.symm⟩

theorem IsPart.length_le {part : List Char} (isPart : IsPart part) : part.length ≤ 3 := by
  obtain ⟨number, small, rfl⟩ := isPart
  exact (Nat.length_toDigits_le_iff (by decide) (by decide)).mpr (by omega)

theorem IsPart.ne_nil {part : List Char} (isPart : IsPart part) : part ≠ [] := by
  obtain ⟨number, -, rfl⟩ := isPart
  exact Nat.toDigits_ne_nil

theorem stoi_lt {part : List Char} (digits : Digits part) : stoi part < 10 ^ part.length := by
  rw [stoi, LargestNumber.ofDigitChars_eq_numeral]
  exact numeral_lt LargestNumber.digit_lt_ten digits

/-- Behind a zero there is nothing. -/
theorem isPart_zero_iff {rest : List Char} (digits : Digits rest) :
    IsPart ('0' :: rest) ↔ rest = [] := by
  constructor
  · rintro ⟨number, -, written⟩
    by_contra nonempty
    have numberIs : number = stoi rest := by
      rw [← stoi_toDigits number, ← written, stoi, Nat.ofDigitChars_cons]
      rfl
    have large : ¬number < 10 ^ rest.length := by
      rw [← Nat.length_toDigits_le_iff (by decide) (List.length_pos_iff.mpr nonempty), ← written,
        List.length_cons]
      exact Nat.not_succ_le_self _
    exact large (numberIs ▸ stoi_lt digits)
  · rintro rfl
    exact ⟨0, Nat.zero_le 255, rfl⟩

theorem isPart_of_length_le {part : List Char} (digits : Digits part) (nonempty : part ≠ [])
    (noZero : part.head? ≠ some '0') (short : part.length ≤ 2) : IsPart part := by
  have below := stoi_lt digits
  have limit : 10 ^ part.length ≤ 10 ^ 2 := Nat.pow_le_pow_right (by decide) short
  exact (isPart_iff digits nonempty noZero).mpr (by omega)

/-! ### Joined parts -/

def joined (parts : List (List Char)) : List Char :=
  ['.'].intercalate parts

theorem joined_concat {before : List (List Char)} (nonempty : before ≠ []) (part : List Char) :
    joined (before ++ [part]) = joined before ++ '.' :: part := by
  induction before with
  | nil => exact absurd rfl nonempty
  | cons first others inductionHypothesis =>
      cases others with
      | nil => simp [joined]
      | cons second others =>
          have later := inductionHypothesis (List.cons_ne_nil second others)
          rw [joined] at later ⊢
          rw [List.cons_append, List.intercalate_cons_of_ne_nil (List.concat_ne_nil _ _), later,
            joined, joined, List.intercalate_cons_of_ne_nil (List.cons_ne_nil second others)]
          simp

/-- The parts before the point that is reached; the address holds their digits. -/
def Before (before : List (List Char)) : Prop :=
  ∀ part ∈ before, part ≠ [] ∧ Digits part

theorem joined_extend {before : List (List Char)} (valid : Before before) (part : List Char) :
    (if joined before ≠ [] then joined before ++ ['.'] else joined before) ++ part =
      joined (before ++ [part]) := by
  cases before with
  | nil => simp [joined]
  | cons first others =>
      have nonempty : joined (first :: others) ≠ [] := by
        have firstNonempty := (valid first List.mem_cons_self).1
        cases others with
        | nil => simpa [joined] using firstNonempty
        | cons second others =>
            rw [joined, List.intercalate_cons_of_ne_nil (List.cons_ne_nil second others)]
            simp [firstNonempty]
      rw [if_pos nonempty, joined_concat (List.cons_ne_nil first others), List.append_assoc]
      rfl

/-- The dots separate the parts. -/
theorem joined_injective {left right : List (List Char)} (leftNonempty : left ≠ [])
    (rightNonempty : right ≠ []) (leftDigits : ∀ part ∈ left, Digits part)
    (rightDigits : ∀ part ∈ right, Digits part) (same : joined left = joined right) :
    left = right := by
  have noDot : ∀ {parts : List (List Char)}, (∀ part ∈ parts, Digits part) →
      ∀ part ∈ parts, '.' ∉ part := by
    intro parts digits part member dot
    have isDigit := digits part member '.' dot
    revert isDigit
    decide
  have split := congrArg (List.splitOn '.') same
  rwa [joined, joined, List.splitOn_intercalate '.' (noDot leftDigits) leftNonempty,
    List.splitOn_intercalate '.' (noDot rightDigits) rightNonempty] at split

/-! ### All addresses -/

section

variable {s : List Char}

/-- An address with some parts before `pos` and so many behind. -/
def Found (s : List Char) (before : List (List Char)) (pos left : Nat) (address : List Char) :
    Prop :=
  ∃ parts, parts.length = left ∧ (∀ part ∈ parts, IsPart part) ∧ parts.flatten = s.drop pos ∧
    address = joined (before ++ parts)

theorem found_zero_iff {before : List (List Char)} {pos : Nat} {address : List Char}
    (inside : pos ≤ s.length) :
    Found s before pos 0 address ↔ pos = s.length ∧ address = joined before := by
  constructor
  · rintro ⟨parts, none_, -, all, rfl⟩
    rw [List.eq_nil_of_length_eq_zero none_] at all ⊢
    have ended := List.drop_eq_nil_iff.mp all.symm
    exact ⟨Nat.le_antisymm inside ended, by rw [List.append_nil]⟩
  · rintro ⟨rfl, rfl⟩
    exact ⟨[], rfl, by simp, by simp, by rw [List.append_nil]⟩

/-- The next part has one, two or three digits. -/
theorem found_succ_iff {before : List (List Char)} {pos left : Nat} {address : List Char} :
    Found s before pos (left + 1) address ↔
      ∃ count, 1 ≤ count ∧ count ≤ 3 ∧ IsPart (substr s pos count) ∧ pos + count ≤ s.length ∧
        Found s (before ++ [substr s pos count]) (pos + count) left address := by
  constructor
  · rintro ⟨parts, size, valid, all, rfl⟩
    obtain ⟨first, others, rfl⟩ := List.exists_cons_of_length_eq_add_one size
    obtain ⟨firstValid, othersValid⟩ := List.forall_mem_cons.mp valid
    rw [List.flatten_cons] at all
    have firstIs : substr s pos first.length = first := by
      rw [substr, ← all]
      exact List.take_left
    have total := congrArg List.length all
    rw [List.length_append, List.length_drop] at total
    have positive := List.length_pos_iff.mpr firstValid.ne_nil
    refine ⟨first.length, positive, firstValid.length_le, firstIs.symm ▸ firstValid, by omega,
      others, Nat.succ.inj size, othersValid, ?_, ?_⟩
    · rw [← List.drop_drop, ← all]
      exact List.drop_left.symm
    · rw [firstIs, List.append_assoc]
      rfl
  · rintro ⟨count, -, -, firstValid, -, others, size, valid, all, rfl⟩
    refine ⟨substr s pos count :: others, congrArg (· + 1) size,
      List.forall_mem_cons.mpr ⟨firstValid, valid⟩, ?_, ?_⟩
    · rw [List.flatten_cons, all, substr, ← List.drop_drop]
      exact List.take_append_drop count _
    · rw [List.append_assoc]
      rfl

theorem helper_beyond {cur : List Char} {pos fields : Nat} (beyond : s.length < pos) :
    helper s cur pos fields = [] := by
  rw [helper, if_neg (by omega), if_pos (Or.inl (Nat.le_of_lt beyond))]

theorem digits_substr (digits : Digits s) (pos count : Nat) : Digits (substr s pos count) :=
  fun char member => digits char (List.mem_of_mem_drop (List.mem_of_mem_take member))

theorem length_substr {pos count : Nat} (inside : pos + count ≤ s.length) :
    (substr s pos count).length = count := by
  rw [substr, List.length_take, List.length_drop]
  omega

/-- Two branches of the search have no address in common. -/
theorem eq_of_found {before : List (List Char)} (valid : Before before) (digits : Digits s)
    {pos left count count' : Nat} {address : List Char} (inside : pos + count ≤ s.length)
    (insideToo : pos + count' ≤ s.length)
    (found : Found s (before ++ [substr s pos count]) (pos + count) left address)
    (foundToo : Found s (before ++ [substr s pos count']) (pos + count') left address) :
    count = count' := by
  obtain ⟨parts, -, partsValid, -, rfl⟩ := found
  obtain ⟨parts', -, partsValid', -, same⟩ := foundToo
  have allDigits : ∀ {count : Nat} {parts : List (List Char)}, (∀ part ∈ parts, IsPart part) →
      ∀ part ∈ before ++ [substr s pos count] ++ parts, Digits part := by
    intro count parts partsValid part member
    rcases List.mem_append.mp member with front | back
    · rcases List.mem_append.mp front with earlier | here
      · exact (valid part earlier).2
      · rw [List.mem_singleton.mp here]
        exact digits_substr digits pos count
    · exact (partsValid part back).digits
  have lists := joined_injective (by simp) (by simp) (allDigits partsValid)
    (allDigits partsValid') same
  rw [List.append_assoc, List.append_assoc, List.append_cancel_left_eq] at lists
  have first := (List.cons.inj lists).1
  rw [← length_substr inside, ← length_substr insideToo, first]

theorem substr_succ {pos : Nat} {first : Char} (firstIs : s[pos]? = some first) (count : Nat) :
    substr s pos (count + 1) = first :: substr s (pos + 1) count := by
  obtain ⟨inside, rfl⟩ := List.getElem?_eq_some_iff.mp firstIs
  rw [substr, List.drop_eq_getElem_cons inside, List.take_succ_cons]
  rfl

theorem isPart_substr_zero_iff (digits : Digits s) {pos count : Nat}
    (zero : s[pos]? = some '0') (inside : pos + (count + 1) ≤ s.length) :
    IsPart (substr s pos (count + 1)) ↔ count = 0 := by
  rw [substr_succ zero, isPart_zero_iff (digits_substr digits _ _), ← List.length_eq_zero_iff,
    length_substr (by omega)]

/-- The addresses that go on with so many digits, each once. -/
structure Continues (s : List Char) (before : List (List Char)) (pos left count : Nat)
    (addresses : List (List Char)) : Prop where
  nodup : addresses.Nodup
  mem_iff : ∀ address, address ∈ addresses ↔
    pos + count ≤ s.length ∧
      Found s (before ++ [substr s pos count]) (pos + count) left address

theorem Continues.disjoint {before : List (List Char)} (valid : Before before)
    (digits : Digits s) {pos left count count' : Nat} {addresses addresses' : List (List Char)}
    (continues : Continues s before pos left count addresses)
    (continuesToo : Continues s before pos left count' addresses') (differ : count ≠ count') :
    addresses.Disjoint addresses' := by
  intro address member memberToo
  obtain ⟨fits, found⟩ := (continues.mem_iff address).mp member
  obtain ⟨fitsToo, foundToo⟩ := (continuesToo.mem_iff address).mp memberToo
  exact differ (eq_of_found valid digits fits fitsToo found foundToo)

/-- The branches behind a zero and behind another digit. -/
theorem found_of_zero (digits : Digits s) {before : List (List Char)} {pos left : Nat}
    (zero : s[pos]? = some '0') {one : List (List Char)}
    (continues : Continues s before pos left 1 one) (address : List Char) :
    address ∈ one ↔ Found s before pos (left + 1) address := by
  rw [continues.mem_iff, found_succ_iff]
  constructor
  · rintro ⟨fits, found⟩
    exact ⟨1, by omega, by omega, (isPart_substr_zero_iff digits zero fits).mpr rfl, fits, found⟩
  · rintro ⟨count, positive, -, isPart, fits, found⟩
    obtain ⟨count, rfl⟩ := Nat.exists_eq_add_of_le' positive
    obtain rfl := (isPart_substr_zero_iff digits zero fits).mp isPart
    exact ⟨fits, found⟩

theorem found_of_nonzero (digits : Digits s) {before : List (List Char)} {pos left : Nat}
    (inside : pos < s.length) (nonzero : s[pos]? ≠ some '0') {one two three : List (List Char)}
    (continuesOne : Continues s before pos left 1 one)
    (continuesTwo : Continues s before pos left 2 two)
    (continuesThree : Continues s before pos left 3 three) (address : List Char) :
    (address ∈ one ++ two ++ if stoi (substr s pos 3) ≤ 255 then three else []) ↔
      Found s before pos (left + 1) address := by
  have firstIs := List.getElem?_eq_getElem inside
  have nonempty : ∀ count, substr s pos (count + 1) ≠ [] := fun count => by
    rw [substr_succ firstIs]
    exact List.cons_ne_nil _ _
  have noZero : ∀ count, (substr s pos (count + 1)).head? ≠ some '0' := fun count => by
    rw [substr_succ firstIs, List.head?_cons, ← firstIs]
    exact nonzero
  have isPart : ∀ count, count ≤ 1 → pos + (count + 1) ≤ s.length →
      IsPart (substr s pos (count + 1)) := fun count short fits =>
    isPart_of_length_le (digits_substr digits pos _) (nonempty count) (noZero count)
      (by rw [length_substr fits]; omega)
  have isPartThree := isPart_iff (digits_substr digits pos 3) (nonempty 2) (noZero 2)
  have third : (address ∈ if stoi (substr s pos 3) ≤ 255 then three else []) ↔
      stoi (substr s pos 3) ≤ 255 ∧ address ∈ three := by
    split
    next small => rw [and_iff_right small]
    next large => simp [large]
  rw [List.mem_append, List.mem_append, third, continuesOne.mem_iff, continuesTwo.mem_iff,
    continuesThree.mem_iff, found_succ_iff]
  constructor
  · rintro ((⟨fits, found⟩ | ⟨fits, found⟩) | ⟨small, fits, found⟩)
    · exact ⟨1, by omega, by omega, isPart 0 (by omega) fits, fits, found⟩
    · exact ⟨2, by omega, by omega, isPart 1 (by omega) fits, fits, found⟩
    · exact ⟨3, by omega, by omega, isPartThree.mpr small, fits, found⟩
  · rintro ⟨count, positive, atMost, valid, fits, found⟩
    obtain rfl | rfl | rfl : count = 1 ∨ count = 2 ∨ count = 3 := by omega
    · exact Or.inl (Or.inl ⟨fits, found⟩)
    · exact Or.inl (Or.inr ⟨fits, found⟩)
    · exact Or.inr ⟨isPartThree.mp valid, fits, found⟩

theorem helper_spec (digits : Digits s) {left fields : Nat} (four : fields + left = 4)
    {before : List (List Char)} (valid : Before before) {pos : Nat} (inside : pos ≤ s.length) :
    (helper s (joined before) pos fields).Nodup ∧
      ∀ address, address ∈ helper s (joined before) pos fields ↔
        Found s before pos left address := by
  induction left generalizing fields before pos with
  | zero =>
      simp only [found_zero_iff inside]
      rw [helper]
      split
      next ended => simp [ended]
      next notEnded =>
        rw [if_pos (Or.inr (by omega))]
        simp [show pos ≠ s.length by omega]
  | succ left inductionHypothesis =>
      rw [helper, if_neg (by omega)]
      split
      next ended =>
        refine ⟨List.nodup_nil, fun address => iff_of_false List.not_mem_nil fun found => ?_⟩
        obtain ⟨count, positive, -, -, fits, -⟩ := found_succ_iff.mp found
        omega
      next notEnded =>
        have less : pos < s.length := by omega
        -- a branch finds nothing where it takes more than there is
        have branch : ∀ count, Continues s before pos left (count + 1)
            (helper s (joined (before ++ [substr s pos (count + 1)])) (pos + (count + 1))
              (fields + 1)) := by
          intro count
          by_cases fits : pos + (count + 1) ≤ s.length
          · have partValid : Before (before ++ [substr s pos (count + 1)]) := by
              refine List.forall_mem_append.mpr ⟨valid, List.forall_mem_singleton.mpr ⟨?_, ?_⟩⟩
              · rw [substr_succ (List.getElem?_eq_getElem less)]
                exact List.cons_ne_nil _ _
              · exact digits_substr digits pos (count + 1)
            obtain ⟨nodup, found⟩ :=
              @inductionHypothesis (fields + 1) (by omega) _ partValid _ fits
            exact ⟨nodup, fun address => (found address).trans (and_iff_right fits).symm⟩
          · rw [helper_beyond (by omega)]
            exact ⟨List.nodup_nil, fun address => by simp [fits]⟩
        dsimp only
        simp only [joined_extend valid]
        split
        next zero => exact ⟨(branch 0).nodup, found_of_zero digits zero (branch 0)⟩
        next nonzero =>
          refine ⟨?_, found_of_nonzero digits less nonzero (branch 0) (branch 1) (branch 2)⟩
          have firstTwo := (branch 0).nodup.append (branch 1).nodup
            ((branch 0).disjoint valid digits (branch 1) (by decide))
          split
          · refine firstTwo.append (branch 2).nodup (List.disjoint_append_left.mpr ⟨?_, ?_⟩)
            · exact (branch 0).disjoint valid digits (branch 2) (by decide)
            · exact (branch 1).disjoint valid digits (branch 2) (by decide)
          · rw [List.append_nil]
            exact firstTwo

/-- What is returned: the addresses whose digits are the input, each once. -/
theorem restoreIpAddresses_spec (digits : Digits s) :
    (restoreIpAddresses s).Nodup ∧ ∀ address, address ∈ restoreIpAddresses s ↔
      ∃ a b c d, (IsPart a ∧ IsPart b ∧ IsPart c ∧ IsPart d) ∧ a ++ b ++ c ++ d = s ∧
        address = a ++ '.' :: b ++ '.' :: c ++ '.' :: d := by
  have spec := @helper_spec s digits 4 0 rfl [] (fun _ member => nomatch member) 0
    (Nat.zero_le s.length)
  refine ⟨spec.1, fun address => (spec.2 address).trans ?_⟩
  constructor
  · rintro ⟨parts, four, valid, all, rfl⟩
    obtain ⟨a, b, c, d, rfl⟩ : ∃ a b c d, parts = [a, b, c, d] := by
      match parts, four with
      | [a, b, c, d], _ => exact ⟨a, b, c, d, rfl⟩
    refine ⟨a, b, c, d, by simpa using valid, by simpa using all, ?_⟩
    simp [joined, List.intercalate_cons_cons]
  · rintro ⟨a, b, c, d, valid, all, rfl⟩
    refine ⟨[a, b, c, d], rfl, by simpa using valid, by simpa using all, ?_⟩
    simp [joined, List.intercalate_cons_cons]

end

theorem restoreIpAddresses_spec_zeros :
    Digits ['0', '0', '0', '0'] ∧ (restoreIpAddresses ['0', '0', '0', '0']).Nodup ∧
      ∀ address, address ∈ restoreIpAddresses ['0', '0', '0', '0'] ↔
        ∃ a b c d, (IsPart a ∧ IsPart b ∧ IsPart c ∧ IsPart d) ∧
          a ++ b ++ c ++ d = ['0', '0', '0', '0'] ∧
          address = a ++ '.' :: b ++ '.' :: c ++ '.' :: d :=
  ⟨by simp [Digits], restoreIpAddresses_spec (by simp [Digits])⟩

end RestoreAddresses

end StdPrograms.Hobbies

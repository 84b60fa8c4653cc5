import Mathlib.Data.List.SplitBy
import StdPrograms.Foundation.Words
import StdPrograms.Ouou.Value

/-!
Contract: range strings (`util/functions.py`).

Owns `to_range_str` and `range_str_to_list` with the text functions of the language
that they use, and the proof that the second one gives back what the first one
printed, sorted.

The digits that `int` reads are those of ASCII. Does not own the functions that read a
clock.
-/

namespace StdPrograms.Ouou

open StdPrograms.Foundation

/-! ### Numbers as texts -/

/-- `'{}'.format(number)`. -/
def decimal : ℤ → Str
  | .ofNat number => Nat.toDigits 10 number
  | .negSucc number => '-' :: Nat.toDigits 10 (number + 1)

/-- The digits behind the sign. A single underscore may stand between two of them. -/
def intDigits : Bool → ℕ → Str → Option ℕ
  | digitNeeded, value, [] => if digitNeeded then none else some value
  | digitNeeded, value, char :: rest =>
      if char.isDigit then intDigits false (10 * value + (char.toNat - '0'.toNat)) rest
      else if char = '_' ∧ ¬ digitNeeded then intDigits true value rest
      else none

/-- `int(text)`, without spaces around the number; `none` where it raises. -/
def int (text : Str) : Option ℤ :=
  if text.head? = some '-' then (intDigits true 0 text.tail).map fun value => -(value : ℤ)
  else if text.head? = some '+' then (intDigits true 0 text.tail).map Int.ofNat
  else (intDigits true 0 text).map Int.ofNat

theorem intDigits_eq (digits : Str) (digitNeeded : Bool) (value : ℕ)
    (areDigits : ∀ char ∈ digits, char.isDigit = true)
    (enough : digitNeeded = true → digits ≠ []) :
    intDigits digitNeeded value digits = some (Nat.ofDigitChars 10 digits value) := by
  induction digits generalizing digitNeeded value with
  | nil =>
      cases digitNeeded with
      | false => simp [intDigits]
      | true => exact absurd rfl (enough rfl)
  | cons char rest inductionHypothesis =>
      rw [intDigits, if_pos (areDigits char (by simp)), Nat.ofDigitChars_cons]
      exact inductionHypothesis false _ (fun other member => areDigits other (by simp [member]))
        nofun

theorem decimal_digits {number : ℤ} (nonnegative : 0 ≤ number) :
    decimal number ≠ [] ∧ ∀ char ∈ decimal number, char.isDigit = true := by
  obtain ⟨value, rfl⟩ := Int.eq_ofNat_of_zero_le nonnegative
  exact ⟨Nat.toDigits_ne_nil,
    fun char member => Nat.isDigit_of_mem_toDigits (by decide) (by decide) member⟩

/-- A printed number is read back. -/
theorem int_decimal {number : ℤ} (nonnegative : 0 ≤ number) :
    int (decimal number) = some number := by
  obtain ⟨nonempty, areDigits⟩ := decimal_digits nonnegative
  have noSign (sign : Char) (notDigit : sign.isDigit = false) :
      (decimal number).head? ≠ some sign := by
    intro isHead
    rw [areDigits sign (List.mem_of_head? isHead)] at notDigit
    cases notDigit
  rw [int, if_neg (noSign '-' rfl), if_neg (noSign '+' rfl),
    intDigits_eq _ true 0 areDigits fun _ => nonempty]
  obtain ⟨value, rfl⟩ := Int.eq_ofNat_of_zero_le nonnegative
  show some (Int.ofNat (Nat.ofDigitChars 10 (Nat.toDigits 10 value) 0)) = _
  rw [Nat.ofDigitChars_ten_toDigits]
  rfl

/-! ### Other functions of the language -/

/-- `str.isspace` of one character. -/
def isSpace (char : Char) : Bool :=
  let code := char.toNat
  (9 ≤ code && code ≤ 13) || (0x1c ≤ code && code ≤ 0x20) || code = 0x85 || code = 0xa0 ||
    code = 0x1680 || (0x2000 ≤ code && code ≤ 0x200a) || code = 0x2028 || code = 0x2029 ||
    code = 0x202f || code = 0x205f || code = 0x3000

/-- `s.strip(chars)`. -/
def strip (chars s : Str) : Str := trim (fun char => char ∈ chars) s

/-- `s.replace(old, new)` of single characters. -/
def replace (old new : Char) (s : Str) : Str := s.map fun char => if char = old then new else char

/-- `s.split()`. -/
def split (s : Str) : List Str := words isSpace s

/-- `range(start, stop)`. -/
def range (start stop : ℤ) : List ℤ :=
  (List.range (stop - start).toNat).map fun offset : ℕ => start + offset

/-- `sorted(iterable)`. -/
def sorted (iterable : List ℤ) : List ℤ := iterable.mergeSort

/-- `enumerate(iterable)`. -/
def enumerate (iterable : List ℤ) : List (ℤ × ℤ) :=
  iterable.zipIdx.map fun item => ((item.2 : ℤ), item.1)

/-! ### The two functions -/

/-- What is appended for one group. -/
def single (rlist : List ℤ) : Str :=
  if 1 < rlist.length then decimal (rlist.headD 0) ++ '-' :: decimal (rlist.getLastD 0)
  else decimal (rlist.headD 0)

/-- The groups of `groupby`, with the numbers only. -/
def groups (sorted_list : List ℤ) : List (List ℤ) :=
  ((enumerate sorted_list).splitBy fun s t => s.1 - s.2 = t.1 - t.2).map (List.map Prod.snd)

def to_range_str (iterable : List ℤ) : Str :=
  (groups (sorted iterable)).foldl (fun result rlist =>
    if result.isEmpty then single rlist else result ++ ' ' :: single rlist) []

/-- The numbers that one part denotes. -/
def partRange (f : Str) : Option (List ℤ) := do
  let r ← (f.splitOn '-').mapM int
  return range (r.headD 0) (r.getLastD 0 + 1)

/-- `none` where `int` raises. -/
def range_str_to_list (s : Str) : Option (List ℤ) :=
  (split (replace ',' ' ' (strip " ,\n\t".toList s))).foldlM
    (fun ret f => (partRange f).map (ret ++ ·)) []

/-! ### Groups of consecutive numbers -/

/-- Each number is one more than the one before it. -/
def Consecutive (rlist : List ℤ) : Prop := rlist.IsChain fun a b => b = a + 1

theorem enumerate_index (iterable : List ℤ) :
    (enumerate iterable).IsChain fun s t => t.1 = s.1 + 1 := by
  rw [List.isChain_iff_getElem]
  intro index bound
  simp [enumerate]

theorem groups_flatten (sorted_list : List ℤ) : (groups sorted_list).flatten = sorted_list := by
  rw [groups, ← List.map_flatten, List.flatten_splitBy, enumerate, List.map_map]
  exact List.zipIdx_map_fst 0 sorted_list

/-- The difference of index and number stays the same in a group, while the index
grows. -/
theorem group_consecutive {sorted_list rlist : List ℤ} (member : rlist ∈ groups sorted_list) :
    rlist ≠ [] ∧ Consecutive rlist := by
  obtain ⟨g, isGroup, rfl⟩ := List.mem_map.mp member
  refine ⟨by simpa using List.ne_nil_of_mem_splitBy isGroup, ?_⟩
  have sameKey := List.isChain_of_mem_splitBy isGroup
  have indexed : g.IsChain fun s t => t.1 = s.1 + 1 := by
    obtain ⟨front, back, layout⟩ := List.infix_of_mem_flatten isGroup
    rw [List.flatten_splitBy] at layout
    have whole := enumerate_index sorted_list
    rw [← layout] at whole
    exact whole.left_of_append.right_of_append
  rw [Consecutive, List.isChain_map]
  rw [List.isChain_iff_getElem] at sameKey indexed ⊢
  intro index bound
  have key := of_decide_eq_true (sameKey index bound)
  have next := indexed index bound
  omega

/-- Consecutive numbers are the range from the first to the last one. -/
theorem Consecutive.eq_range {first : ℤ} {rest : List ℤ} (consecutive : Consecutive (first :: rest)) :
    range first ((first :: rest).getLastD 0 + 1) = first :: rest := by
  have counted : first :: rest = (List.range (rest.length + 1)).map (fun offset : ℕ => first + offset) ∧
      (first :: rest).getLastD 0 = first + rest.length := by
    induction rest generalizing first with
    | nil => simp
    | cons second rest inductionHypothesis =>
        obtain ⟨rfl, later⟩ := List.isChain_cons_cons.mp consecutive
        obtain ⟨items, last⟩ := inductionHypothesis later
        constructor
        · rw [List.length_cons, List.range_succ_eq_map, List.map_cons, List.map_map]
          conv_lhs => rw [items]
          refine List.cons_eq_cons.mpr ⟨by simp, List.map_congr_left fun offset _ => ?_⟩
          show first + 1 + (offset : ℤ) = first + ((offset + 1 : ℕ) : ℤ)
          omega
        · simp at last ⊢
          omega
  have size : (first + rest.length + 1 - first).toNat = rest.length + 1 := by omega
  rw [range, counted.2, size]
  exact counted.1.symm

/-! ### Reading back what was printed -/

section ReadBack

variable {rlist : List ℤ}

theorem ends_mem (nonempty : rlist ≠ []) : rlist.headD 0 ∈ rlist ∧ rlist.getLastD 0 ∈ rlist := by
  obtain ⟨first, rest, rfl⟩ := List.exists_cons_of_ne_nil nonempty
  refine ⟨by simp, ?_⟩
  rw [List.getLastD_eq_getLast?, List.getLast?_cons, Option.getD_some,
    ← List.getLastD_eq_getLast?]
  exact List.getLastD_mem_cons

theorem single_chars (nonempty : rlist ≠ []) (nonnegative : ∀ number ∈ rlist, 0 ≤ number) :
    single rlist ≠ [] ∧ ∀ char ∈ single rlist, char.isDigit = true ∨ char = '-' := by
  obtain ⟨firstMember, lastMember⟩ := ends_mem nonempty
  have firstDigits := decimal_digits (nonnegative _ firstMember)
  have lastDigits := decimal_digits (nonnegative _ lastMember)
  rw [single]
  split
  · refine ⟨by simp, fun char member => ?_⟩
    rcases List.mem_append.mp member with inFirst | inRest
    · exact .inl (firstDigits.2 char inFirst)
    · rcases List.mem_cons.mp inRest with isDash | inLast
      · exact .inr isDash
      · exact .inl (lastDigits.2 char inLast)
  · exact ⟨firstDigits.1, fun char member => .inl (firstDigits.2 char member)⟩

theorem dash_not_mem {number : ℤ} (nonnegative : 0 ≤ number) : '-' ∉ decimal number := by
  intro member
  cases (decimal_digits nonnegative).2 '-' member

/-- One part denotes the numbers of its group. -/
theorem partRange_single (nonempty : rlist ≠ []) (nonnegative : ∀ number ∈ rlist, 0 ≤ number)
    (consecutive : Consecutive rlist) : partRange (single rlist) = some rlist := by
  obtain ⟨firstMember, lastMember⟩ := ends_mem nonempty
  have first := nonnegative _ firstMember
  have last := nonnegative _ lastMember
  have isRange : range (rlist.headD 0) (rlist.getLastD 0 + 1) = rlist := by
    obtain ⟨head, rest, rfl⟩ := List.exists_cons_of_ne_nil nonempty
    exact consecutive.eq_range
  by_cases several : 1 < rlist.length
  · rw [partRange, single, if_pos several,
      List.splitOn_append_cons_self_of_not_mem (dash_not_mem first),
      List.splitOn_eq_singleton (dash_not_mem last)]
    simp only [List.mapM_cons, List.mapM_nil, int_decimal first, int_decimal last]
    exact congrArg some isRange
  · have alone : rlist.getLastD 0 = rlist.headD 0 := by
      obtain ⟨head, rest, rfl⟩ := List.exists_cons_of_ne_nil nonempty
      cases rest with
      | nil => rfl
      | cons second rest => simp at several
    rw [alone] at isRange
    rw [partRange, single, if_neg several, List.splitOn_eq_singleton (dash_not_mem first)]
    simp only [List.mapM_cons, List.mapM_nil, int_decimal first]
    exact congrArg some isRange

/-- The parts one by one are the groups one by one. -/
theorem parts_extend {lists : List (List ℤ)}
    (readBack : ∀ rlist ∈ lists, partRange (single rlist) = some rlist) (ret : List ℤ) :
    (lists.map single).foldlM (fun ret f => (partRange f).map (ret ++ ·)) ret =
      some (ret ++ lists.flatten) := by
  induction lists generalizing ret with
  | nil => simp
  | cons rlist rest inductionHypothesis =>
      rw [List.map_cons, List.foldlM_cons, readBack rlist (by simp)]
      show (rest.map single).foldlM _ (ret ++ rlist) = _
      rw [inductionHypothesis fun other member => readBack other (by simp [member]),
        List.flatten_cons, List.append_assoc]

end ReadBack

theorem to_range_str_eq (xs : List ℤ) :
    to_range_str xs = joined ' ' ((groups (sorted xs)).map single) := by
  rw [joined, List.foldl_map]
  rfl

/-- The characters of a part separate nothing, and are neither stripped nor replaced. -/
theorem part_char {char : Char} (allowed : char.isDigit = true ∨ char = '-') :
    isSpace char = false ∧ char ∉ " ,\n\t".toList ∧ char ≠ ',' := by
  rcases allowed with isDigit | rfl
  · rw [Char.isDigit_iff_toNat] at isDigit
    have lower : 48 ≤ char.toNat := isDigit.1
    have upper : char.toNat ≤ 57 := isDigit.2
    have different (other : Char) (outside : other.toNat < 48) : char ≠ other := by
      rintro rfl
      omega
    refine ⟨?_, ?_, different ',' (by decide)⟩
    · simp only [isSpace]
      simp only [Bool.or_eq_false_iff, Bool.and_eq_false_iff, decide_eq_false_iff_not]
      omega
    · have stripped : " ,\n\t".toList = [' ', ',', '\n', '\t'] := rfl
      rw [stripped]
      simp only [List.mem_cons, List.not_mem_nil, or_false, not_or]
      exact ⟨different _ (by decide), different _ (by decide), different _ (by decide),
        different _ (by decide)⟩
  · decide

/-- A range string gives back what it was made of, sorted. -/
theorem range_str_to_list_to_range_str {xs : List ℤ} (nonnegative : ∀ x ∈ xs, 0 ≤ x) :
    range_str_to_list (to_range_str xs) = some (sorted xs) := by
  have groupMember {rlist : List ℤ} (member : rlist ∈ groups (sorted xs)) :
      ∀ number ∈ rlist, 0 ≤ number := by
    intro number inGroup
    have inSorted : number ∈ sorted xs := by
      rw [← groups_flatten (sorted xs)]
      exact List.mem_flatten_of_mem member inGroup
    exact nonnegative number (List.mem_mergeSort.mp inSorted)
  have parts : ∀ part ∈ (groups (sorted xs)).map single,
      part ≠ [] ∧ ∀ char ∈ part, char.isDigit = true ∨ char = '-' := by
    intro part member
    obtain ⟨rlist, isGroup, rfl⟩ := List.mem_map.mp member
    exact single_chars (group_consecutive isGroup).1 (groupMember isGroup)
  have nonempty : ∀ part ∈ (groups (sorted xs)).map single, part ≠ [] :=
    fun part member => (parts part member).1
  have allowed {part : Str} (member : part ∈ (groups (sorted xs)).map single) {char : Char}
      (inPart : char ∈ part) := part_char ((parts part member).2 char inPart)
  have stripped : strip " ,\n\t".toList (to_range_str xs) = to_range_str xs := by
    rw [to_range_str_eq]
    apply trim_eq_self
    · intro char isHead
      obtain ⟨part, member, inPart⟩ := head?_joined nonempty isHead
      exact decide_eq_false (allowed member inPart).2.1
    · intro char isLast
      obtain ⟨part, member, inPart⟩ := getLast?_joined nonempty isLast
      exact decide_eq_false (allowed member inPart).2.1
  have replaced : replace ',' ' ' (to_range_str xs) = to_range_str xs := by
    rw [to_range_str_eq, replace]
    conv_rhs => rw [← List.map_id (joined ' ' _)]
    refine List.map_congr_left fun char member => if_neg ?_
    rcases mem_joined nonempty member with rfl | ⟨part, partMember, inPart⟩
    · decide
    · exact (allowed partMember inPart).2.2
  have isSplit : split (to_range_str xs) = (groups (sorted xs)).map single := by
    rw [to_range_str_eq]
    exact words_joined rfl fun part member =>
      ⟨nonempty part member, fun char inPart => (allowed member inPart).1⟩
  rw [range_str_to_list, stripped, replaced, isSplit,
    parts_extend (fun rlist member => partRange_single (group_consecutive member).1
      (groupMember member) (group_consecutive member).2),
    List.nil_append, groups_flatten]

/-- The list of the tests, out of order and with a repetition. -/
theorem range_str_to_list_repeated :
    range_str_to_list (to_range_str [44, 42, 45, 46, 42]) = some (sorted [44, 42, 45, 46, 42]) :=
  range_str_to_list_to_range_str (by decide)

end StdPrograms.Ouou

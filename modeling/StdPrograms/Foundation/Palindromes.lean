import Mathlib.Data.List.Palindrome

/-!
Contract: palindromes by their place in a text.

Owns the parts of a text that read the same from both ends, how such a part is widened,
narrowed and mirrored in a greater one, and that these parts are the substrings which are
palindromes.

Does not own any search.
-/

namespace StdPrograms.Foundation

variable {α : Type} {text : List α}

/-- From `low` up to `high` the text reads the same from both ends. -/
def PalindromeAt (text : List α) (low high : Nat) : Prop :=
  (low ≤ high ∧ high ≤ text.length) ∧
    ∀ k, low ≤ k → k < high → text[k]? = text[low + high - 1 - k]?

namespace PalindromeAt

variable {low high : Nat}

theorem empty (inside : low ≤ text.length) : PalindromeAt text low low :=
  ⟨⟨Nat.le_refl low, inside⟩, fun k above below => by omega⟩

theorem single (inside : low < text.length) : PalindromeAt text low (low + 1) := by
  refine ⟨⟨Nat.le_succ low, inside⟩, ?_⟩
  intro k above below
  rw [show low + (low + 1) - 1 - k = k by omega]

theorem ends (whole : PalindromeAt text low (high + 1)) (ordered : low ≤ high) :
    text[low]? = text[high]? := by
  have same := whole.2 low (Nat.le_refl low) (Nat.lt_succ_of_le ordered)
  rwa [show low + (high + 1) - 1 - low = high by omega] at same

theorem widen (whole : PalindromeAt text (low + 1) high) (inside : high < text.length)
    (same : text[low]? = text[high]?) : PalindromeAt text low (high + 1) := by
  obtain ⟨⟨ordered, -⟩, mirrored⟩ := whole
  refine ⟨⟨by omega, inside⟩, ?_⟩
  intro k above below
  by_cases first : k = low
  · rw [first, same]
    congr 1
    omega
  · by_cases last : k = high
    · rw [last, ← same]
      congr 1
      omega
    · rw [mirrored k (by omega) (by omega)]
      congr 1
      omega

theorem narrow (whole : PalindromeAt text low high) {count : Nat}
    (room : low + count ≤ high - count) : PalindromeAt text (low + count) (high - count) := by
  obtain ⟨⟨ordered, inside⟩, mirrored⟩ := whole
  refine ⟨⟨room, by omega⟩, ?_⟩
  intro k above below
  rw [mirrored k (by omega) (by omega)]
  congr 1
  omega

/-- A palindrome inside of a greater one stands there a second time. -/
theorem mirror {first last : Nat} (whole : PalindromeAt text first last)
    (part : PalindromeAt text low high) (above : first ≤ low) (below : high ≤ last) :
    PalindromeAt text (first + last - high) (first + last - low) := by
  obtain ⟨⟨ordered, inside⟩, mirrored⟩ := part
  have bounds := whole.1
  refine ⟨by omega, ?_⟩
  intro k fromLow toHigh
  calc
    text[k]? = text[first + last - 1 - k]? := whole.2 k (by omega) (by omega)
    _ = text[low + high - 1 - (first + last - 1 - k)]? :=
      mirrored (first + last - 1 - k) (by omega) (by omega)
    _ = text[first + last - 1 - (low + high - 1 - (first + last - 1 - k))]? :=
      whole.2 _ (by omega) (by omega)
    _ = text[first + last - high + (first + last - low) - 1 - k]? := by
      congr 1
      omega

end PalindromeAt

/-! ### Substrings -/

theorem palindrome_iff_getElem? {part : List α} :
    part.Palindrome ↔ ∀ k < part.length, part[k]? = part[part.length - 1 - k]? := by
  rw [List.Palindrome.iff_reverse_eq]
  constructor
  · intro same k inside
    rw [← List.getElem?_reverse inside, same]
  · intro same
    apply List.ext_getElem?
    intro k
    by_cases inside : k < part.length
    · rw [List.getElem?_reverse inside, same k inside]
    · rw [List.getElem?_eq_none (by rw [List.length_reverse]; omega),
        List.getElem?_eq_none (by omega)]

/-- The substring at the place. -/
def segment (text : List α) (low length : Nat) : List α := (text.drop low).take length

theorem segment_inside (low length : Nat) : segment text low length <:+: text :=
  (List.take_prefix length _).isInfix.trans (List.drop_suffix low text).isInfix

theorem length_segment {low length : Nat} (inside : low + length ≤ text.length) :
    (segment text low length).length = length := by
  rw [segment, List.length_take, List.length_drop]
  omega

theorem getElem?_segment {low length k : Nat} (inside : k < length) :
    (segment text low length)[k]? = text[low + k]? := by
  rw [segment, List.getElem?_take, if_pos inside, List.getElem?_drop]

theorem segment_succ {low : Nat} (inside : low < text.length) (length : Nat) :
    segment text low (length + 1) = text[low] :: segment text (low + 1) length := by
  rw [segment, List.drop_eq_getElem_cons inside, List.take_succ_cons]
  rfl

theorem segment_concat {low length : Nat} (inside : low + length < text.length) :
    segment text low (length + 1) = segment text low length ++ [text[low + length]] := by
  have within : length < (text.drop low).length := by
    rw [List.length_drop]
    omega
  rw [segment, segment, ← List.take_append_getElem within, List.getElem_drop]

/-- Every substring has a place. -/
theorem isInfix_iff_segment {part : List α} :
    part <:+: text ↔
      ∃ low, low + part.length ≤ text.length ∧ segment text low part.length = part := by
  constructor
  · rintro ⟨front, back, rfl⟩
    refine ⟨front.length, ?_, ?_⟩
    · rw [List.length_append, List.length_append]
      omega
    · rw [segment, List.append_assoc, List.drop_left, List.take_left]
  · rintro ⟨low, -, is⟩
    rw [← is]
    exact segment_inside low part.length

theorem segment_palindrome_iff {low length : Nat} (inside : low + length ≤ text.length) :
    (segment text low length).Palindrome ↔ PalindromeAt text low (low + length) := by
  rw [palindrome_iff_getElem?, length_segment inside]
  constructor
  · intro same
    refine ⟨⟨Nat.le_add_right low length, inside⟩, ?_⟩
    intro k above below
    have mirrored := same (k - low) (by omega)
    rw [getElem?_segment (by omega), getElem?_segment (by omega)] at mirrored
    rw [show k = low + (k - low) by omega, mirrored]
    congr 1
    omega
  · intro whole k below
    rw [getElem?_segment below, getElem?_segment (by omega), whole.2 _ (by omega) (by omega)]
    congr 1
    omega

/-- Every palindrome in the text has a place. -/
theorem exists_palindromeAt {part : List α} (inText : part <:+: text)
    (palindrome : part.Palindrome) : ∃ low, PalindromeAt text low (low + part.length) := by
  obtain ⟨low, inside, is⟩ := isInfix_iff_segment.mp inText
  refine ⟨low, ?_⟩
  rw [← segment_palindrome_iff inside, is]
  exact palindrome

/-- Only the two halves are to be compared; an element between them is of no account. -/
theorem palindrome_append_iff {left right : List α} (atLeast : right.length ≤ left.length)
    (atMost : left.length ≤ right.length + 1) :
    (left ++ right).Palindrome ↔ right.reverse = left.take right.length := by
  rw [List.Palindrome.iff_reverse_eq, List.reverse_append]
  constructor
  · intro same
    have front := congrArg (List.take right.length) same
    rwa [List.take_left' List.length_reverse, List.take_append_of_le_length atLeast] at front
  · intro front
    have whole := List.take_append_drop right.length left
    rw [← front] at whole
    have middle : (left.drop right.length).reverse = left.drop right.length := by
      generalize measured : left.drop right.length = middle
      have short := congrArg List.length measured
      rw [List.length_drop] at short
      match middle, short with
      | [], _ => rfl
      | [element], _ => rfl
      | _ :: _ :: _, short => simp only [List.length_cons] at short; omega
    rw [← whole, List.reverse_append, middle, List.reverse_reverse, List.append_assoc]

end StdPrograms.Foundation

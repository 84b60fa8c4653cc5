import Mathlib.Tactic.Linarith

/-!
Contract: roman numerals, written and read.

Owns `intToRoman` of `solution_12.cpp` and `romanToInt` of `solution_13.cpp`, and that the second
reads what the first writes, for a number of any size and with a sign in front.

Does not own numerals that `intToRoman` does not write. It writes nothing for a number that is
not positive.
-/

namespace StdPrograms.Hobbies.Roman

/-- An entry of the table of `intToRoman`. -/
structure Entry where
  number : Nat
  letters : List Char
  positive : 0 < number

/-- The table from its end, as `rbegin` iterates over it. -/
def table : List Entry :=
  [⟨1000, ['M'], Nat.succ_pos _⟩, ⟨900, ['C', 'M'], Nat.succ_pos _⟩,
    ⟨500, ['D'], Nat.succ_pos _⟩, ⟨400, ['C', 'D'], Nat.succ_pos _⟩,
    ⟨100, ['C'], Nat.succ_pos _⟩, ⟨90, ['X', 'C'], Nat.succ_pos _⟩,
    ⟨50, ['L'], Nat.succ_pos _⟩, ⟨40, ['X', 'L'], Nat.succ_pos _⟩,
    ⟨10, ['X'], Nat.succ_pos _⟩, ⟨9, ['I', 'X'], Nat.succ_pos _⟩,
    ⟨5, ['V'], Nat.succ_pos _⟩, ⟨4, ['I', 'V'], Nat.succ_pos _⟩, ⟨1, ['I'], Nat.succ_pos _⟩]

/-- What is still appended to `result`, with `it` at the front of the entries. -/
def written : List Entry → Nat → List Char
  | [], _ => []
  | it :: later, num =>
      if num = 0 then []
      else if num < it.number then written later num
      else it.letters ++ written (it :: later) (num - it.number)
termination_by entries num => (num, entries.length)
decreasing_by
  · exact Prod.Lex.right _ (Nat.lt_succ_self _)
  · apply Prod.Lex.left
    have := it.positive
    omega

def intToRoman (num : Nat) : List Char := written table num

/-- The table of `romanToInt`. Its operator finds 0 for any other character. -/
def value : Char → Int
  | 'I' => 1
  | 'V' => 5
  | 'X' => 10
  | 'L' => 50
  | 'C' => 100
  | 'D' => 500
  | 'M' => 1000
  | _ => 0

/-- What the loop carries: the character before, and `result`. -/
structure Reading where
  before : Char
  result : Int

/-- A round behind the first character. -/
def Reading.advance (self : Reading) (letter : Char) : Reading where
  before := letter
  result :=
    if value letter > value self.before then
      self.result + (value letter - 2 * value self.before)
    else self.result + value letter

def romanToInt : List Char → Int
  | [] => 0
  | first :: rest =>
      if first = '-' then (rest.foldl Reading.advance ⟨first, 0⟩).result * -1
      else (rest.foldl Reading.advance ⟨first, value first⟩).result

/-! ### Letters one behind the other -/

/-- What is read adds to what was read before. -/
theorem foldl_advance (letters : List Char) (before : Char) (result : Int) :
    letters.foldl Reading.advance ⟨before, result⟩ =
      ⟨letters.getLastD before, result + (letters.foldl Reading.advance ⟨before, 0⟩).result⟩ := by
  induction letters generalizing before result with
  | nil => simp
  | cons letter rest inductionHypothesis =>
      simp only [List.foldl_cons, List.getLastD_cons, Reading.advance]
      split
      next =>
        rw [inductionHypothesis letter, inductionHypothesis letter (0 + _)]
        simp only [Reading.mk.injEq, true_and]
        omega
      next =>
        rw [inductionHypothesis letter, inductionHypothesis letter (0 + _)]
        simp only [Reading.mk.injEq, true_and]
        omega

/-- What letters are worth behind a letter that is worth no less than the first of them. -/
def worth : List Char → Int
  | [] => 0
  | first :: rest => value first + (rest.foldl Reading.advance ⟨first, 0⟩).result

/-- No entry begins with a letter that is worth more. -/
def Below (letter : Char) (entries : List Entry) : Prop :=
  ∀ entry ∈ entries, ∀ first ∈ entry.letters.head?, value first ≤ value letter

instance (letter : Char) (entries : List Entry) : Decidable (Below letter entries) :=
  -- at most one letter is tried, not all that there are
  have (entry : Entry) :
      Decidable (∀ first ∈ entry.letters.head?, value first ≤ value letter) :=
    Option.decidableForallMem _
  inferInstanceAs (Decidable (∀ entry ∈ entries, ∀ first ∈ entry.letters.head?, _))

/-- The letters of each entry are worth its number, and nothing that may follow is worth more than
the last of them. -/
def Sound : List Entry → Prop
  | [] => True
  | entry :: later =>
      entry.letters ≠ [] ∧ worth entry.letters = entry.number ∧
        Below (entry.letters.getLastD ' ') (entry :: later) ∧ Sound later

instance : (entries : List Entry) → Decidable (Sound entries)
  | [] => .isTrue trivial
  | entry :: later =>
      have : Decidable (Sound later) := instDecidableSound later
      inferInstanceAs (Decidable (entry.letters ≠ [] ∧ worth entry.letters = entry.number ∧
        Below (entry.letters.getLastD ' ') (entry :: later) ∧ Sound later))

theorem foldl_worth {before : Char} {letters : List Char}
    (below : ∀ first ∈ letters.head?, value first ≤ value before) :
    (letters.foldl Reading.advance ⟨before, 0⟩).result = worth letters := by
  cases letters with
  | nil => rfl
  | cons first rest =>
      have notMore : ¬ value first > value before := by
        have := below first rfl
        omega
      rw [List.foldl_cons, Reading.advance, if_neg notMore, foldl_advance, worth]
      simp

theorem worth_append {letters more : List Char} (nonempty : letters ≠ [])
    (below : ∀ first ∈ more.head?, value first ≤ value (letters.getLastD ' ')) :
    worth (letters ++ more) = worth letters + worth more := by
  cases letters with
  | nil => exact absurd rfl nonempty
  | cons first rest =>
      rw [List.getLastD_cons] at below
      rw [List.cons_append, worth, worth, List.foldl_append, foldl_advance rest, foldl_advance more,
        foldl_worth below]
      simp only [zero_add]
      omega

/-! ### Numerals -/

/-- A numeral begins as one of the entries does. -/
theorem head_written {entries : List Entry} {num : Nat} {first : Char} (sound : Sound entries)
    (begins : first ∈ (written entries num).head?) :
    ∃ entry ∈ entries, first ∈ entry.letters.head? := by
  induction entries, num using written.induct with
  | case1 num => simp [written] at begins
  | case2 it later => simp [written] at begins
  | case3 it later num some small inductionHypothesis =>
      rw [written, if_neg some, if_pos small] at begins
      obtain ⟨entry, member, isFirst⟩ := inductionHypothesis sound.2.2.2 begins
      exact ⟨entry, List.mem_cons_of_mem _ member, isFirst⟩
  | case4 it later num some large =>
      refine ⟨it, List.mem_cons_self, ?_⟩
      rw [written, if_neg some, if_neg large] at begins
      cases isLetters : it.letters with
      | nil => exact absurd isLetters sound.1
      | cons letter letters =>
          rw [isLetters] at begins
          exact begins

/-- As long as the last entry is not behind, a numeral is worth its number. -/
theorem worth_written {entries : List Entry} {num : Nat} (sound : Sound entries)
    (unit : ∃ entry ∈ entries, entry.number = 1) : worth (written entries num) = num := by
  induction entries, num using written.induct with
  | case1 num => simp at unit
  | case2 it later => simp [written, worth]
  | case3 it later num some small inductionHypothesis =>
      rw [written, if_neg some, if_pos small]
      apply inductionHypothesis sound.2.2.2
      obtain ⟨entry, member, isOne⟩ := unit
      rcases List.mem_cons.mp member with isFirst | isLater
      · rw [← isFirst, isOne] at small
        omega
      · exact ⟨entry, isLater, isOne⟩
  | case4 it later num some large inductionHypothesis =>
      have soundAll := sound
      obtain ⟨nonempty, number, below, -⟩ := sound
      rw [written, if_neg some, if_neg large, worth_append nonempty, number,
        inductionHypothesis soundAll unit]
      · omega
      · intro first begins
        obtain ⟨entry, member, isFirst⟩ := head_written soundAll begins
        exact below entry member first isFirst

theorem sound_table : Sound table := by decide

/-- No numeral begins with a sign. -/
theorem head_intToRoman {num : Nat} {first : Char} (begins : first ∈ (intToRoman num).head?) :
    first ≠ '-' := by
  have noSigns : ∀ entry ∈ table, '-' ∉ entry.letters.head? := by decide
  obtain ⟨entry, member, isFirst⟩ := head_written sound_table begins
  rintro rfl
  exact noSigns entry member isFirst

/-- `romanToInt` reads what `intToRoman` writes, and the sign in front of it. -/
theorem romanToInt_intToRoman (num : Nat) :
    romanToInt (intToRoman num) = num ∧ romanToInt ('-' :: intToRoman num) = -num := by
  have unit : ∃ entry ∈ table, entry.number = 1 := by decide
  have isWorth : worth (intToRoman num) = num := worth_written sound_table unit
  cases isNumeral : intToRoman num with
  | nil =>
      rw [isNumeral] at isWorth
      rw [← isWorth]
      exact ⟨rfl, rfl⟩
  | cons first rest =>
      have noSign : first ≠ '-' := head_intToRoman (by rw [isNumeral]; rfl)
      rw [isNumeral, worth] at isWorth
      constructor
      · rw [romanToInt, if_neg noSign, foldl_advance]
        exact isWorth
      · -- the sign itself counts as a letter that is worth nothing
        have behindSign : Reading.advance ⟨'-', 0⟩ first = ⟨first, value first⟩ := by
          simp [Reading.advance, value]
        rw [romanToInt, if_pos rfl, List.foldl_cons, behindSign, foldl_advance]
        rw [← isWorth]
        exact mul_neg_one _

end StdPrograms.Hobbies.Roman

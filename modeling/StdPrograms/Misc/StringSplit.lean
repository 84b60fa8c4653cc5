import StdPrograms.Foundation.LittleEndian
import StdPrograms.Foundation.Words

/-!
Contract: `split_string`, against the words of its string.

Owns the two searches, the loop between them, and which strings it splits into their
words: a delimiter in front adds an empty string, and what stands behind the last
delimiter is left out.
-/

namespace StdPrograms.Misc

open StdPrograms.Foundation

/-! ### Searches -/

/-- The first place from `pos` on, `none` for `npos`. -/
def find_from (found : UInt8 → Bool) (str : Bytes) (pos : ℕ) : Option ℕ :=
  ((str.drop pos).findIdx? found).map (pos + ·)

def find_first_of (str delimeter : Bytes) (pos : ℕ) : Option ℕ :=
  find_from delimeter.contains str pos

def find_first_not_of (str delimeter : Bytes) (pos : ℕ) : Option ℕ :=
  find_from (fun char => !delimeter.contains char) str pos

theorem find_from_eq_none {found : UInt8 → Bool} {str : Bytes} {pos : ℕ}
    (absent : find_from found str pos = none) : ∀ char ∈ str.drop pos, found char = false := by
  rw [find_from, Option.map_eq_none_iff] at absent
  exact List.findIdx?_eq_none_iff.mp absent

/-- A search that succeeds splits what it searches. -/
theorem find_from_eq_some {found : UInt8 → Bool} {str : Bytes} {pos place : ℕ}
    (present : find_from found str pos = some place) :
    pos ≤ place ∧ place < str.length ∧ ∃ char rest, str.drop place = char :: rest ∧
      found char = true ∧ str.drop pos = (str.drop pos).take (place - pos) ++ char :: rest ∧
      ∀ other ∈ (str.drop pos).take (place - pos), found other = false := by
  obtain ⟨index, isIndex, rfl⟩ := Option.map_eq_some_iff.mp present
  obtain ⟨inside, isFound, before⟩ := List.findIdx?_eq_some_iff_getElem.mp isIndex
  have bound : pos + index < str.length := by
    rw [List.length_drop] at inside
    omega
  have onward : str.drop (pos + index) = (str.drop pos)[index] :: (str.drop pos).drop (index + 1) := by
    rw [← List.drop_drop, List.drop_eq_getElem_cons inside]
  refine ⟨Nat.le_add_right _ _, bound, _, _, onward, isFound, ?_, ?_⟩
  · rw [Nat.add_sub_cancel_left, ← onward, ← List.drop_drop, List.take_append_drop]
  · intro other member
    rw [Nat.add_sub_cancel_left] at member
    obtain ⟨place, placed, rfl⟩ := List.mem_take_iff_getElem.mp member
    simpa using before place (by omega)

/-- The second search ends behind the place where the first one did. -/
theorem start_lt_next {str delimeter : Bytes} {start end_ next : ℕ}
    (found : find_first_of str delimeter start = some end_)
    (onward : find_first_not_of str delimeter end_ = some next) :
    start < str.length ∧ start < next := by
  obtain ⟨above, inside, char, rest, atEnd, isDelimeter, -, -⟩ := find_from_eq_some found
  obtain ⟨aboveEnd, -, other, others, atNext, notDelimeter, -, -⟩ := find_from_eq_some onward
  have apart : next ≠ end_ := by
    rintro rfl
    cases atNext.symm.trans atEnd
    rw [isDelimeter] at notDelimeter
    cases notDelimeter
  omega

/-! ### The loop -/

/-- The strings that `func` is called with, from `start` on. -/
def for_each_splited_string (str delimeter : Bytes) (start : ℕ) : List Bytes :=
  match _found : find_first_of str delimeter start with
  | none => []
  | some end_ =>
      (str.drop start).take (end_ - start) ::
        match _onward : find_first_not_of str delimeter end_ with
        -- `start` is `npos`, from where nothing is found
        | none => []
        | some start => for_each_splited_string str delimeter start
termination_by str.length - start
decreasing_by
  have moved := start_lt_next _found _onward
  omega

def split_string (str delimeter : Bytes) : List Bytes := for_each_splited_string str delimeter 0

theorem for_each_of_none {str delimeter : Bytes} {start : ℕ}
    (absent : find_first_of str delimeter start = none) :
    for_each_splited_string str delimeter start = [] := by
  rw [for_each_splited_string]
  split
  next => rfl
  next found =>
    rw [absent] at found
    cases found

theorem for_each_of_some {str delimeter : Bytes} {start end_ : ℕ}
    (found : find_first_of str delimeter start = some end_) :
    for_each_splited_string str delimeter start =
      (str.drop start).take (end_ - start) ::
        match find_first_not_of str delimeter end_ with
        | none => []
        | some next => for_each_splited_string str delimeter next := by
  rw [for_each_splited_string]
  split
  next absent =>
    rw [absent] at found
    cases found
  next other isOther =>
    cases found.symm.trans isOther
    cases find_first_not_of str delimeter end_ with
    | none => rfl
    | some next => rfl

/-! ### Words -/

variable {str delimeter : Bytes}

variable (delimeter) in
/-- What is behind the last delimiter, if anything is. -/
def leftOut (chars : Bytes) : List Bytes :=
  if (unfinished delimeter.contains chars).isEmpty then []
  else [unfinished delimeter.contains chars]

theorem leftOut_append_delimiter (front rest : Bytes) {delimiter : UInt8}
    (isDelimiter : delimeter.contains delimiter = true) :
    leftOut delimeter (front ++ delimiter :: rest) = leftOut delimeter rest := by
  rw [leftOut, unfinished_append_separator _ _ isDelimiter, leftOut]

theorem leftOut_append_delimiters {front : Bytes}
    (delimiters : ∀ char ∈ front, delimeter.contains char = true) (rest : Bytes) :
    leftOut delimeter (front ++ rest) = leftOut delimeter rest := by
  rw [leftOut, unfinished_append_separators delimiters, leftOut]

theorem find_first_not_of_none {end_ : ℕ} (none : find_first_not_of str delimeter end_ = none) :
    words delimeter.contains (str.drop end_) = [] ∧ leftOut delimeter (str.drop end_) = [] := by
  have delimiters : ∀ char ∈ str.drop end_, delimeter.contains char = true := by
    intro char member
    simpa using find_from_eq_none none char member
  have noWords := words_append_separators delimiters []
  have nothingLeft := leftOut_append_delimiters delimiters []
  rw [List.append_nil] at noWords nothingLeft
  exact ⟨noWords, nothingLeft⟩

/-- The delimiters that are passed over belong to no word. -/
theorem find_first_not_of_some {end_ next : ℕ}
    (onward : find_first_not_of str delimeter end_ = some next) :
    words delimeter.contains (str.drop end_) = words delimeter.contains (str.drop next) ∧
      leftOut delimeter (str.drop end_) = leftOut delimeter (str.drop next) ∧
      ∀ char, (str.drop next).head? = some char → delimeter.contains char = false := by
  obtain ⟨-, -, char, others, atNext, notDelimiter, delimited, before⟩ :=
    find_from_eq_some onward
  have delimiters : ∀ other ∈ (str.drop end_).take (next - end_),
      delimeter.contains other = true := by
    intro other member
    simpa using before other member
  rw [delimited, words_append_separators delimiters, leftOut_append_delimiters delimiters,
    ← atNext]
  refine ⟨rfl, rfl, ?_⟩
  intro first isFirst
  rw [atNext] at isFirst
  cases Option.some.inj isFirst
  simpa using notDelimiter

/-- From a character that is no delimiter on, the loop leaves out what is unfinished. -/
theorem words_eq_append_leftOut (start : ℕ)
    (begins : ∀ char, (str.drop start).head? = some char → delimeter.contains char = false) :
    words delimeter.contains (str.drop start) =
      for_each_splited_string str delimeter start ++ leftOut delimeter (str.drop start) := by
  induction start using for_each_splited_string.induct str delimeter with
  | case1 start absent =>
      have unseparated := find_from_eq_none absent
      rw [for_each_of_none absent, words_of_unseparated unseparated, leftOut,
        unfinished_of_unseparated unseparated, List.nil_append]
  | case2 start end_ found inductionHypothesis =>
      obtain ⟨-, -, delimiter, rest, atEnd, isDelimiter, split, unseparated⟩ :=
        find_from_eq_some found
      rw [for_each_of_some found]
      generalize (str.drop start).take (end_ - start) = token at *
      have nonempty : token.isEmpty = false := by
        cases token with
        | nil =>
            rw [split] at begins
            rw [begins delimiter rfl] at isDelimiter
            cases isDelimiter
        | cons => rfl
      -- behind the token, first the delimiters
      have behind : words delimeter.contains (str.drop end_) =
          (match find_first_not_of str delimeter end_ with
            | none => []
            | some next => for_each_splited_string str delimeter next) ++
          leftOut delimeter (str.drop end_) := by
        cases onward : find_first_not_of str delimeter end_ with
        | none =>
            obtain ⟨noWords, nothingLeft⟩ := find_first_not_of_none onward
            rw [noWords, nothingLeft]
            rfl
        | some next =>
            obtain ⟨sameWords, sameLeft, notDelimiter⟩ := find_first_not_of_some onward
            rw [sameWords, sameLeft]
            exact inductionHypothesis next onward notDelimiter
      have alone : ∀ char ∈ [delimiter], delimeter.contains char = true := by
        simpa using isDelimiter
      rw [atEnd] at behind
      rw [split, words_append_separator unseparated isDelimiter, nonempty,
        ← words_append_separators alone rest, leftOut_append_delimiter _ _ isDelimiter,
        ← leftOut_append_delimiters alone rest]
      exact congrArg (token :: ·) behind

/-- A delimiter in front adds an empty string. -/
theorem nil_mem_split_string {first : UInt8} {rest : Bytes} (isDelimiter : first ∈ delimeter) :
    [] ∈ split_string (first :: rest) delimeter := by
  have found : find_first_of (first :: rest) delimeter 0 = some 0 := by
    simp [find_first_of, find_from, List.findIdx?_cons, isDelimiter]
  rw [split_string, for_each_of_some found]
  exact List.mem_cons_self

/-- The strings are the words of the string exactly where it is empty, or begins with no
delimiter and ends with one. -/
theorem split_string_eq_words_iff (str delimeter : Bytes) :
    split_string str delimeter = words delimeter.contains str ↔
      (∀ char, str.head? = some char → char ∉ delimeter) ∧
        ∀ char, str.getLast? = some char → char ∈ delimeter := by
  by_cases begins : ∀ char, str.head? = some char → char ∉ delimeter
  · have splits : words delimeter.contains str =
        split_string str delimeter ++ leftOut delimeter str :=
      words_eq_append_leftOut 0 fun char isFirst => by simpa using begins char isFirst
    have unfinishedIff : leftOut delimeter str = [] ↔
        ∀ char, str.getLast? = some char → char ∈ delimeter := by
      simp only [leftOut, ite_eq_left_iff, List.cons_ne_nil, imp_false, not_not, List.isEmpty_iff,
        unfinished_eq_nil_iff, List.contains_eq_mem, decide_eq_true_eq]
    rw [splits, and_iff_right begins, ← unfinishedIff]
    exact ⟨fun same => List.append_cancel_left (same.symm.trans (List.append_nil _).symm),
      fun none => by rw [none, List.append_nil]⟩
  · refine iff_of_false (fun same => ?_) (fun both => begins both.1)
    push Not at begins
    obtain ⟨first, isFirst, isDelimiter⟩ := begins
    cases str with
    | nil => cases isFirst
    | cons head rest =>
        cases Option.some.inj isFirst
        have member := @nil_mem_split_string delimeter _ rest isDelimiter
        rw [same] at member
        exact nil_not_mem_words _ member

/-- The last word of "a" is left out, and "," has an empty one in front. -/
theorem split_string_ne_words :
    split_string [0x61] [0x2c] ≠ words [(0x2c : UInt8)].contains [0x61] ∧
      split_string [0x2c] [0x2c] ≠ words [(0x2c : UInt8)].contains [0x2c] := by
  constructor
  · rw [split_string, for_each_of_none (by decide)]
    decide
  · intro same
    have member := @nil_mem_split_string [0x2c] 0x2c [] (by decide)
    rw [same] at member
    exact nil_not_mem_words _ member

end StdPrograms.Misc

import Mathlib.Data.Finset.Insert
import StdPrograms.Foundation.Concatenations
import StdPrograms.Foundation.CountedLoop
import StdPrograms.Foundation.Palindromes

/-!
Contract: whether a string can be broken into words.

Owns `wordBreak`, which collects the substrings that can be broken, and `wordBreak2`, which marks
the prefixes that can be broken, of `solution_139.cpp`, and that both decide it where every length
and the one behind it fit an `int`.

Does not own the hashing of strings.
-/

namespace StdPrograms.Hobbies

open StdPrograms.Foundation

namespace WordBreak

/-- The string is a concatenation of one or more words. -/
def Breakable (wordDict : Finset (List Char)) (s : List Char) : Prop :=
  ∃ parts : List (List Char), parts ≠ [] ∧ parts.flatten = s ∧ ∀ part ∈ parts, part ∈ wordDict

/-! ### `wordBreak` -/

/-- The loop over `len`, with the number of rounds that are left. -/
def helperLoop (records : Finset (List Char)) (s : List Char) : Nat → Nat → Option Bool
  | 0, _ => some false
  | rounds + 1, len =>
      if segment s 0 len ∈ records ∧ segment s len (s.length - len) ∈ records then some true
      else do
        let next ← position 32 (len + 1)
        helperLoop records s rounds next

def helper (records : Finset (List Char)) (s : List Char) : Option Bool :=
  helperLoop records s (s.length - 1) 1

/-- The body of the first loop. -/
def letter (s : List Char) (wordDict records : Finset (List Char)) (i : Nat) :
    Option (Finset (List Char)) :=
  let tmp := segment s i 1
  some (if tmp ∈ wordDict then insert tmp records else records)

/-- The body of the innermost loop. -/
def extend (s : List Char) (wordDict : Finset (List Char)) (len : Nat)
    (records : Finset (List Char)) (j : Nat) : Option (Finset (List Char)) := do
  let tmp := segment s j len
  if (← helper records tmp) ∨ tmp ∈ wordDict then return insert tmp records else return records

def wordBreak (s : List Char) (wordDict : Finset (List Char)) : Option Bool :=
  let size := converted 32 (s.length : Int)
  if size = 0 then some false
  else do
    let records ← signedLoop 32 0 size.toNat (letter s wordDict) ∅
    let records ← signedLoop 32 2 (size - 1).toNat
      (fun records len => signedLoop 32 0 (size - len + 1).toNat (extend s wordDict len) records)
      records
    return s ∈ records

/-! ### `wordBreak2` -/

/-- The inner loop. The number is `i + 1`. -/
def lookBack (s : List Char) (wordDict : Finset (List Char)) (len : Nat) :
    Nat → List Bool → Option (List Bool)
  | 0, records => some records
  | i + 1, records => do
      let before ← records[i]?
      let now ← records[len]?
      if before ∧ ¬now ∧ segment s i (len - i) ∈ wordDict then return records.set len true
      else lookBack s wordDict len i records

def wordBreak2 (s : List Char) (wordDict : Finset (List Char)) : Option Bool := do
  let records := (List.replicate (s.length + 1) false).set 0 true
  let records ← signedLoop 32 1 s.length (fun records len => lookBack s wordDict len len records)
    records
  records[s.length]?

/-! ### Words and segments -/

/-- The words that the set has. -/
def vocabulary (wordDict : Finset (List Char)) : Language Char := {word | word ∈ wordDict}

section

variable {wordDict : Finset (List Char)} {s : List Char}

theorem breakable_iff (nonempty : s ≠ []) :
    Breakable wordDict s ↔ s ∈ KStar.kstar (vocabulary wordDict) := by
  constructor
  · rintro ⟨parts, -, rfl, allWords⟩
    exact Language.join_mem_kstar allWords
  · rintro ⟨parts, rfl, allWords⟩
    refine ⟨parts, ?_, rfl, allWords⟩
    rintro rfl
    exact nonempty rfl

theorem breakable_iff_halves (nonempty : s ≠ []) :
    Breakable wordDict s ↔
      s ∈ wordDict ∨ ∃ front back, front ++ back = s ∧ front ≠ [] ∧ back ≠ [] ∧
        Breakable wordDict front ∧ Breakable wordDict back := by
  rw [breakable_iff nonempty, mem_kstar_iff_halves nonempty]
  refine or_congr Iff.rfl (exists_congr fun front => exists_congr fun back => ?_)
  refine and_congr_right fun _ => and_congr_right fun frontNonempty =>
    and_congr_right fun backNonempty => ?_
  rw [breakable_iff frontNonempty, breakable_iff backNonempty]

theorem take_segment {low length cut : Nat} (inside : cut ≤ length) :
    (segment s low length).take cut = segment s low cut := by
  rw [Foundation.segment, List.take_take, Nat.min_eq_left inside, Foundation.segment]

theorem drop_segment (low length cut : Nat) :
    (segment s low length).drop cut = segment s (low + cut) (length - cut) := by
  rw [Foundation.segment, List.drop_take, List.drop_drop, Foundation.segment]

theorem segment_zero (length : Nat) : segment s 0 length = s.take length := rfl

theorem segment_rest (low : Nat) : segment s low (s.length - low) = s.drop low := by
  rw [Foundation.segment, ← List.length_drop, List.take_length]

/-! ### What `wordBreak` collects -/

variable {records : Finset (List Char)}

theorem helperLoop_spec {rounds len : Nat} (counted : len + rounds < 2 ^ 31) :
    ∃ found, helperLoop records s rounds len = some found ∧
      (found ↔ ∃ cut, (len ≤ cut ∧ cut < len + rounds) ∧
        s.take cut ∈ records ∧ s.drop cut ∈ records) := by
  induction rounds generalizing len with
  | zero =>
      refine ⟨false, rfl, iff_of_false Bool.false_ne_true ?_⟩
      rintro ⟨cut, bounds, -⟩
      omega
  | succ rounds inductionHypothesis =>
      rw [helperLoop, segment_zero, segment_rest]
      split
      next both => exact ⟨true, rfl, iff_of_true rfl ⟨len, by omega, both⟩⟩
      next notBoth =>
        obtain ⟨found, foundIs, correct⟩ := @inductionHypothesis (len + 1) (by omega)
        rw [position_of_lt (by omega)]
        refine ⟨found, foundIs, correct.trans ⟨?_, ?_⟩⟩
        · rintro ⟨cut, bounds, both⟩
          exact ⟨cut, by omega, both⟩
        · rintro ⟨cut, bounds, both⟩
          have other : cut ≠ len := fun same => notBoth (same ▸ both)
          exact ⟨cut, by omega, both⟩

/-- The records are breakable, and have what is breakable and shorter than `len`, or as long and
begins before `j`. -/
structure Collected (s : List Char) (wordDict : Finset (List Char)) (len j : Nat)
    (records : Finset (List Char)) : Prop where
  sound : ∀ word ∈ records, Breakable wordDict word
  complete : ∀ low length, 0 < length → low + length ≤ s.length →
    (length < len ∨ length = len ∧ low < j) → Breakable wordDict (segment s low length) →
      segment s low length ∈ records

theorem segment_ne_nil {low length : Nat} (positive : 0 < length)
    (inside : low + length ≤ s.length) : segment s low length ≠ [] := by
  intro empty
  have same := length_segment inside
  rw [empty, List.length_nil] at same
  omega

variable {len j : Nat}

theorem Collected.add (collected : Collected s wordDict len j records) {decision : Prop}
    [Decidable decision] (correct : decision ↔ Breakable wordDict (segment s j len)) :
    Collected s wordDict len (j + 1)
      (if decision then insert (segment s j len) records else records) where
  sound := by
    intro word member
    split at member
    next accepted =>
      rcases Finset.mem_insert.mp member with rfl | before
      · exact correct.mp accepted
      · exact collected.sound word before
    next => exact collected.sound word member
  complete := by
    intro low length positive inside done breakable
    by_cases now : length = len ∧ low = j
    · obtain ⟨rfl, rfl⟩ := now
      rw [if_pos (correct.mpr breakable)]
      exact Finset.mem_insert_self _ records
    · have member := collected.complete low length positive inside (by omega) breakable
      split
      next => exact Finset.mem_insert_of_mem member
      next => exact member

/-- When all places of a length are done, so are all shorter lengths. -/
theorem Collected.next (collected : Collected s wordDict len j records)
    (all : s.length < len + j) : Collected s wordDict (len + 1) 0 records where
  sound := collected.sound
  complete low length positive inside done :=
    collected.complete low length positive inside (by omega)

theorem letter_spec {i : Nat} (inside : i < s.length)
    (collected : Collected s wordDict 1 i records) :
    ∃ after, letter s wordDict records i = some after ∧
      Collected s wordDict 1 (i + 1) after := by
  refine ⟨_, rfl, collected.add ?_⟩
  have length := length_segment (show i + 1 ≤ s.length from inside)
  rw [breakable_iff_halves (segment_ne_nil Nat.one_pos inside)]
  constructor
  · exact .inl
  · rintro (inDict | ⟨front, back, parts, frontNonempty, backNonempty, -⟩)
    · exact inDict
    · have lengths := congrArg List.length parts
      have frontPositive := List.length_pos_iff.mpr frontNonempty
      have backPositive := List.length_pos_iff.mpr backNonempty
      rw [List.length_append, length] at lengths
      omega

/-- The halves of a segment are shorter segments. -/
theorem extend_spec (inside : j + len ≤ s.length) (counted : s.length < 2 ^ 31)
    (positive : 0 < len) (collected : Collected s wordDict len j records) :
    ∃ after, extend s wordDict len records j = some after ∧
      Collected s wordDict len (j + 1) after := by
  have length := length_segment inside
  obtain ⟨found, foundIs, correct⟩ := @helperLoop_spec (segment s j len) records (len - 1) 1
    (by omega)
  rw [extend]
  rw [helper, length, foundIs, Option.bind_eq_bind, Option.bind_some, ← apply_ite pure]
  refine ⟨_, rfl, collected.add ?_⟩
  rw [breakable_iff_halves (segment_ne_nil positive inside), correct, or_comm]
  refine or_congr Iff.rfl ⟨?_, ?_⟩
  · rintro ⟨cut, bounds, front, back⟩
    refine ⟨_, _, List.take_append_drop cut _, ?_, ?_, collected.sound _ front,
      collected.sound _ back⟩
    · rw [take_segment (by omega)]
      exact segment_ne_nil (by omega) (by omega)
    · rw [drop_segment]
      exact segment_ne_nil (by omega) (by omega)
  · rintro ⟨front, back, parts, frontNonempty, backNonempty, frontBreakable, backBreakable⟩
    have lengths := congrArg List.length parts
    have frontPositive := List.length_pos_iff.mpr frontNonempty
    have backPositive := List.length_pos_iff.mpr backNonempty
    rw [List.length_append, length] at lengths
    have frontIs : segment s j front.length = front := by
      rw [← @take_segment s j len front.length (by omega), ← parts, List.take_left]
    have backIs : segment s (j + front.length) (len - front.length) = back := by
      rw [← drop_segment, ← parts, List.drop_left]
    refine ⟨front.length, by omega, ?_, ?_⟩
    · rw [take_segment (by omega), frontIs]
      refine frontIs ▸ collected.complete j front.length frontPositive (by omega) (by omega) ?_
      rwa [frontIs]
    · rw [drop_segment, backIs]
      refine backIs ▸ collected.complete (j + front.length) (len - front.length) (by omega)
        (by omega) (by omega) ?_
      rwa [backIs]

theorem wordBreak_spec (nonempty : s ≠ []) (counted : s.length + 1 < 2 ^ 31) :
    ∃ result, wordBreak s wordDict = some result ∧ (result ↔ Breakable wordDict s) := by
  have positive := List.length_pos_iff.mpr nonempty
  have sizeIs : converted 32 (s.length : Int) = s.length :=
    converted_natCast (Nat.zero_lt_succ 31) (by omega)
  obtain ⟨letters, lettersIs, collectedLetters⟩ := @forLoop_spec _ (letter s wordDict) 0 s.length ∅
    (fun i records => Collected s wordDict 1 i records)
    ⟨fun word member => absurd member (Finset.notMem_empty word), fun low length => by omega⟩
    (fun i inside before collected => by
      rw [Nat.zero_add]
      exact letter_spec inside collected)
  obtain ⟨records, recordsIs, collected⟩ := @forLoop_spec _
    (fun records len => signedLoop 32 0 ((s.length : Int) - len + 1).toNat (extend s wordDict len)
      records) 2 (s.length - 1) letters
    (fun rounds records => Collected s wordDict (2 + rounds) 0 records)
    (collectedLetters.next (by omega))
    (fun rounds inside before collected => by
      have count : ((s.length : Int) - (2 + rounds : Nat) + 1).toNat =
          s.length - (2 + rounds) + 1 := by omega
      rw [count, signedLoop_eq (by omega)]
      obtain ⟨after, afterIs, collectedAfter⟩ := @forLoop_spec _ (extend s wordDict (2 + rounds)) 0
        (s.length - (2 + rounds) + 1) before
        (fun j records => Collected s wordDict (2 + rounds) j records) collected
        (fun j below records collected => by
          rw [Nat.zero_add]
          exact extend_spec (by omega) (by omega) (by omega) collected)
      exact ⟨after, afterIs, collectedAfter.next (by omega)⟩)
  rw [wordBreak]
  have rounds : ((s.length : Int) - 1).toNat = s.length - 1 := by omega
  rw [sizeIs, if_neg (by omega), Int.toNat_natCast, rounds, signedLoop_eq (by omega), lettersIs,
    Option.bind_eq_bind, Option.bind_some, signedLoop_eq (by omega), recordsIs, Option.bind_some]
  refine ⟨decide (s ∈ records), rfl, ?_⟩
  rw [decide_eq_true_iff]
  constructor
  · exact collected.sound s
  · intro breakable
    have whole : segment s 0 s.length = s := List.take_length
    have member := collected.complete 0 s.length positive (by omega) (by omega)
    rw [whole] at member
    exact member breakable

/-! ### What `wordBreak2` marks -/

/-- The marks of the prefixes shorter than `len` that are broken into words, the empty one too. -/
structure Marked (s : List Char) (wordDict : Finset (List Char)) (len : Nat)
    (marks : List Bool) : Prop where
  length_eq : marks.length = s.length + 1
  marked_iff : ∀ i ≤ s.length, marks[i]? = some true ↔
    i < len ∧ s.take i ∈ KStar.kstar (vocabulary wordDict)

theorem take_take_of_le {i : Nat} (shorter : i ≤ len) : (s.take len).take i = s.take i := by
  rw [List.take_take, Nat.min_eq_left shorter]

theorem take_mem_iff (inside : len ≤ s.length) (positive : 0 < len) :
    s.take len ∈ KStar.kstar (vocabulary wordDict) ↔
      ∃ i < len, s.take i ∈ KStar.kstar (vocabulary wordDict) ∧
        segment s i (len - i) ∈ wordDict := by
  have nonempty : s.take len ≠ [] := @segment_ne_nil s 0 len positive (by omega)
  rw [mem_kstar_iff_last nonempty]
  constructor
  · rintro ⟨front, back, parts, backNonempty, inFront, inBack⟩
    have lengths := congrArg List.length parts
    have backPositive := List.length_pos_iff.mpr backNonempty
    rw [List.length_append, List.length_take] at lengths
    have frontIs : s.take front.length = front := by
      rw [← take_take_of_le (show front.length ≤ len by omega), ← parts, List.take_left]
    have backIs : segment s front.length (len - front.length) = back := by
      rw [Foundation.segment, ← List.drop_take, ← parts, List.drop_left]
    refine ⟨front.length, by omega, ?_, ?_⟩
    · rwa [frontIs]
    · rwa [backIs]
  · rintro ⟨i, less, inFront, inBack⟩
    refine ⟨_, _, ?_, ?_, inFront, inBack⟩
    · rw [Foundation.segment, ← List.drop_take, ← take_take_of_le less.le, List.take_append_drop]
    · exact segment_ne_nil (by omega) (by omega)

variable {marks : List Bool}

theorem lookBack_spec {i : Nat} (length : marks.length = s.length + 1) (inside : len ≤ s.length)
    (unmarked : marks[len]? = some false) (upTo : i ≤ len) :
    ∃ after, lookBack s wordDict len i marks = some after ∧
      (((∃ k < i, marks[k]? = some true ∧ segment s k (len - k) ∈ wordDict) ∧
          after = marks.set len true) ∨
        ((¬∃ k < i, marks[k]? = some true ∧ segment s k (len - k) ∈ wordDict) ∧
          after = marks)) := by
  induction i with
  | zero => exact ⟨marks, rfl, .inr ⟨by simp, rfl⟩⟩
  | succ i inductionHypothesis =>
      obtain ⟨before, beforeIs⟩ : ∃ before, marks[i]? = some before :=
        ⟨marks[i], List.getElem?_eq_getElem (by omega)⟩
      rw [lookBack, beforeIs, unmarked]
      dsimp only [Option.bind_eq_bind, Option.bind_some]
      split
      next found =>
        refine ⟨marks.set len true, rfl, .inl ⟨⟨i, Nat.lt_succ_self i, ?_, found.2.2⟩, rfl⟩⟩
        rw [beforeIs, found.1]
      next notFound =>
        obtain ⟨after, afterIs, outcome⟩ := inductionHypothesis (by omega)
        have same : (∃ k < i, marks[k]? = some true ∧ segment s k (len - k) ∈ wordDict) ↔
            ∃ k < i + 1, marks[k]? = some true ∧ segment s k (len - k) ∈ wordDict := by
          constructor
          · rintro ⟨k, less, found⟩
            exact ⟨k, Nat.lt_succ_of_lt less, found⟩
          · rintro ⟨k, less, marked, inDict⟩
            refine ⟨k, ?_, marked, inDict⟩
            apply Nat.lt_of_le_of_ne (Nat.le_of_lt_succ less)
            rintro rfl
            rw [beforeIs, Option.some_inj] at marked
            exact notFound ⟨marked, Bool.false_ne_true, inDict⟩
        rw [same] at outcome
        exact ⟨after, afterIs, outcome⟩

theorem Marked.round (inside : len ≤ s.length) (positive : 0 < len)
    (marked : Marked s wordDict len marks) :
    ∃ after, lookBack s wordDict len len marks = some after ∧
      Marked s wordDict (len + 1) after := by
  obtain ⟨mark, markIs⟩ : ∃ mark, marks[len]? = some mark := by
    have less : len < marks.length := by
      rw [marked.length_eq]
      omega
    exact ⟨marks[len], List.getElem?_eq_getElem less⟩
  have unmarked : marks[len]? = some false := by
    cases mark with
    | false => exact markIs
    | true => exact absurd ((marked.marked_iff len inside).mp markIs).1 (Nat.lt_irrefl len)
  obtain ⟨after, afterIs, outcome⟩ :=
    lookBack_spec marked.length_eq inside unmarked (Nat.le_refl len)
  have found : (∃ k < len, marks[k]? = some true ∧ segment s k (len - k) ∈ wordDict) ↔
      s.take len ∈ KStar.kstar (vocabulary wordDict) := by
    rw [take_mem_iff inside positive]
    refine exists_congr fun k => and_congr_right fun less => and_congr_left fun _ => ?_
    rw [marked.marked_iff k (by omega), and_iff_right less]
  rw [found] at outcome
  refine ⟨after, afterIs, ?_⟩
  have shorter : ∀ i, i ≠ len → (i < len + 1 ↔ i < len) := by
    intro i other
    omega
  rcases outcome with ⟨inStar, rfl⟩ | ⟨notInStar, rfl⟩
  · refine ⟨?_, fun i upTo => ?_⟩
    · rw [List.length_set, marked.length_eq]
    · by_cases now : i = len
      · rw [now, List.getElem?_set_self (by rw [marked.length_eq]; omega)]
        exact iff_of_true rfl ⟨Nat.lt_succ_self len, inStar⟩
      · rw [List.getElem?_set_ne (Ne.symm now), marked.marked_iff i upTo, shorter i now]
  · refine ⟨marked.length_eq, fun i upTo => ?_⟩
    by_cases now : i = len
    · rw [now, unmarked]
      exact iff_of_false (by simp) fun marked => notInStar marked.2
    · rw [marked.marked_iff i upTo, shorter i now]

theorem wordBreak2_spec (nonempty : s ≠ []) (counted : s.length + 1 < 2 ^ 31) :
    ∃ result, wordBreak2 s wordDict = some result ∧ (result ↔ Breakable wordDict s) := by
  have first : Marked s wordDict 1 ((List.replicate (s.length + 1) false).set 0 true) := by
    refine ⟨by rw [List.length_set, List.length_replicate], fun i upTo => ?_⟩
    cases i with
    | zero =>
        rw [List.getElem?_set_self (by rw [List.length_replicate]; omega)]
        exact iff_of_true rfl ⟨Nat.one_pos, Language.nil_mem_kstar _⟩
    | succ i =>
        rw [List.getElem?_set_ne (by omega), List.getElem?_replicate, if_pos (by omega)]
        exact iff_of_false (by simp) (by omega)
  obtain ⟨marks, marksIs, marked⟩ := @forLoop_spec _
    (fun records len => lookBack s wordDict len len records) 1 s.length _
    (fun rounds marks => Marked s wordDict (1 + rounds) marks) first
    (fun rounds inside before marked => marked.round (by omega) (by omega))
  obtain ⟨result, resultIs⟩ : ∃ result, marks[s.length]? = some result := by
    have less : s.length < marks.length := by
      rw [marked.length_eq]
      omega
    exact ⟨marks[s.length], List.getElem?_eq_getElem less⟩
  have correct := marked.marked_iff s.length (Nat.le_refl _)
  rw [resultIs, Option.some_inj, List.take_length, and_iff_right (by omega)] at correct
  refine ⟨result, ?_, correct.trans (breakable_iff nonempty).symm⟩
  rw [wordBreak2]
  rw [signedLoop_eq (by omega), marksIs, Option.bind_eq_bind, Option.bind_some, resultIs]

end

/-! ### Both -/

theorem wordBreaks_agree {s : List Char} {wordDict : Finset (List Char)} (nonempty : s ≠ [])
    (counted : s.length + 1 < 2 ^ 31) :
    ∃ result, wordBreak s wordDict = some result ∧ wordBreak2 s wordDict = some result ∧
      (result ↔ Breakable wordDict s) := by
  obtain ⟨result, resultIs, correct⟩ := wordBreak_spec nonempty counted
  obtain ⟨result2, result2Is, correct2⟩ := wordBreak2_spec nonempty counted
  have same : result2 = result := by
    rw [Bool.eq_iff_iff, correct, correct2]
  exact ⟨result, resultIs, same ▸ result2Is, correct⟩

theorem wordBreaks_agree_on_aab :
    ['a', 'a', 'b'] ≠ [] ∧ ∃ result, wordBreak ['a', 'a', 'b'] {['a'], ['a', 'b']} = some result ∧
      wordBreak2 ['a', 'a', 'b'] {['a'], ['a', 'b']} = some result ∧
      (result ↔ Breakable {['a'], ['a', 'b']} ['a', 'a', 'b']) :=
  ⟨List.cons_ne_nil 'a' ['a', 'b'],
    wordBreaks_agree (List.cons_ne_nil 'a' ['a', 'b']) (by decide)⟩

/-- The lengths are counted one further than the length of the string. -/
theorem wordBreaks_of_long {s : List Char} {wordDict : Finset (List Char)}
    (long : s.length + 1 = 2 ^ 31) :
    wordBreak s wordDict = none ∧ wordBreak2 s wordDict = none := by
  constructor
  · have sizeIs : converted 32 (s.length : Int) = s.length :=
      converted_natCast (Nat.zero_lt_succ 31) (by omega)
    have rounds : ((s.length : Int) - 1).toNat = s.length - 1 := by omega
    have letters : signedLoop 32 0 s.length (letter s wordDict) ∅ =
        forLoop 0 s.length (letter s wordDict) ∅ := signedLoop_eq (by omega) ∅
    rw [wordBreak]
    rw [sizeIs, if_neg (by omega), Int.toNat_natCast, rounds, letters]
    cases forLoop 0 s.length (letter s wordDict) ∅ with
    | none => rfl
    | some records =>
        dsimp only [Option.bind_eq_bind, Option.bind_some]
        rw [signedLoop_eq_none (by omega) (by omega)]
        rfl
  · rw [wordBreak2]
    rw [signedLoop_eq_none (by omega) (by omega)]
    rfl

theorem wordBreaks_fail_on_long :
    (Breakable {['a']} (List.replicate (2 ^ 31 - 1) 'a') ∧
      wordBreak (List.replicate (2 ^ 31 - 1) 'a') {['a']} = none) ∧
      wordBreak2 (List.replicate (2 ^ 31 - 1) 'a') {['a']} = none := by
  have long : (List.replicate (2 ^ 31 - 1) 'a').length + 1 = 2 ^ 31 := by
    rw [List.length_replicate]
    omega
  obtain ⟨first, second⟩ := @wordBreaks_of_long _ {['a']} long
  refine ⟨⟨?_, first⟩, second⟩
  refine ⟨List.replicate (2 ^ 31 - 1) ['a'], ?_, ?_, ?_⟩
  · rw [← List.length_pos_iff, List.length_replicate]
    omega
  · exact List.flatten_replicate_singleton
  · intro part member
    rw [List.eq_of_mem_replicate member]
    exact Finset.mem_singleton_self ['a']

end WordBreak

end StdPrograms.Hobbies

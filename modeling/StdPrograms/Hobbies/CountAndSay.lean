import StdPrograms.Foundation.CountedLoop
import StdPrograms.Foundation.Runs

/-!
Contract: the count-and-say sequence.

Owns `countAndSay` of `solution_38.cpp`, with its counters of type `int`, that each term can be read
back, and for which terms the counters are too small.

Does not own the memory that a term takes.
-/

namespace StdPrograms.Hobbies

open StdPrograms.Foundation

namespace CountAndSay

/-- The variables of the loop inside. -/
structure Reading where
  oss : List Char
  count : Nat
  prev : Nat

/-- The body of the loop inside. -/
def read (s : List Char) (state : Reading) (i : Nat) : Option Reading := do
  let here ← s[i]?
  let before ← s[state.prev]?
  if here ≠ before then
    return { oss := state.oss ++ Nat.toDigits 10 state.count ++ [before], count := 1, prev := i }
  else
    let count ← position 32 (state.count + 1)
    return { state with count }

/-- The body of the loop outside. -/
def say (s : List Char) : Option (List Char) := do
  let state ← signedLoop 32 1 (s.length - 1) (read s) { oss := [], count := 1, prev := 0 }
  let before ← s[state.prev]?
  return state.oss ++ Nat.toDigits 10 state.count ++ [before]

def countAndSay (n : Int) : Option (List Char) :=
  if n ≤ 1 then some ['1']
  else signedLoop 32 2 (n - 1).toNat (fun s _ => say s) ['1']

/-! ### What is said -/

def written (runs : List (Nat × Char)) : List Char :=
  runs.flatMap fun run => Nat.toDigits 10 run.1 ++ [run.2]

theorem written_cons (run : Nat × Char) (rest : List (Nat × Char)) :
    written (run :: rest) = Nat.toDigits 10 run.1 ++ [run.2] ++ written rest :=
  List.flatMap_cons

/-- What is written, and what the characters from `i` on will add to it. -/
def Reads (s : List Char) (i : Nat) (state : Reading) : Prop :=
  state.count ≤ i ∧ ∃ before, s[state.prev]? = some before ∧
    state.oss ++ written (runsFrom before state.count (s.drop i)) = written (runs s)

theorem read_keeps {s : List Char} (small : s.length < 2 ^ 31) {i : Nat} (inside : i < s.length)
    {state : Reading} (reads : Reads s i state) :
    ∃ after, read s state i = some after ∧ Reads s (i + 1) after := by
  obtain ⟨atMost, before, beforeIs, all⟩ := reads
  have hereIs := List.getElem?_eq_getElem inside
  have split_ := List.drop_eq_getElem_cons inside
  generalize s[i] = here at hereIs split_
  rw [split_, runsFrom] at all
  rw [read, hereIs, beforeIs]
  dsimp only [Option.bind_eq_bind, Option.bind_some]
  split
  next differs =>
    rw [if_neg differs, written_cons] at all
    refine ⟨_, rfl, Nat.le_add_left 1 i, here, hereIs, ?_⟩
    rw [← all]
    simp
  next same =>
    rw [if_pos (not_not.mp same)] at all
    have fits : state.count + 1 < 2 ^ (32 - 1) := by norm_num; omega
    rw [position_of_lt fits]
    exact ⟨_, rfl, Nat.succ_le_succ atMost, before, beforeIs, all⟩

theorem say_eq {s : List Char} (nonempty : s ≠ []) (small : s.length < 2 ^ 31) :
    say s = some (written (runs s)) := by
  have positive := List.length_pos_iff.mpr nonempty
  have start : Reads s 1 { oss := [], count := 1, prev := 0 } := by
    cases s with
    | nil => exact absurd rfl nonempty
    | cons first rest => exact ⟨Nat.le_refl 1, first, rfl, rfl⟩
  obtain ⟨state, returned, -, before, beforeIs, all⟩ :=
    @forLoop_spec Reading (read s) 1 (s.length - 1) _ (fun count => Reads s (1 + count)) start
      (fun count below state reads => read_keeps small (by omega) reads)
  rw [Nat.add_sub_cancel' positive, List.drop_length, runsFrom] at all
  have fits : 1 + (s.length - 1) < 2 ^ (32 - 1) := by norm_num; omega
  rw [say, signedLoop_eq fits, returned]
  dsimp only [Option.bind_eq_bind, Option.bind_some]
  rw [beforeIs, ← all]
  simp [written]

/-- A term that is too long is not read to its end. -/
theorem say_eq_none {s : List Char} (large : 2 ^ 31 ≤ s.length) : say s = none := by
  have overflows := @signedLoop_eq_none Reading (read s) 32 1 (s.length - 1) (by omega)
    (by norm_num; omega) { oss := [], count := 1, prev := 0 }
  rw [say, overflows]
  rfl

/-! ### Reading it back -/

/-- The characters as pairs of a count and a digit. -/
def readPairs : List Char → Option (List (Nat × Char))
  | [] => some []
  | [_] => none
  | count :: digit :: rest => (readPairs rest).map ((count.toNat - '0'.toNat, digit) :: ·)

theorem written_cons_of_lt {run : Nat × Char} (small : run.1 < 10) (rest : List (Nat × Char)) :
    written (run :: rest) = Nat.digitChar run.1 :: run.2 :: written rest := by
  rw [written_cons, Nat.toDigits_of_lt_base small]
  rfl

theorem readPairs_written {runs : List (Nat × Char)} (small : ∀ run ∈ runs, run.1 < 10) :
    readPairs (written runs) = some runs := by
  induction runs with
  | nil => rfl
  | cons run rest inductionHypothesis =>
      obtain ⟨runSmall, restSmall⟩ := List.forall_mem_cons.mp small
      have countIs : (Nat.digitChar run.1).toNat - '0'.toNat = run.1 := by
        rw [Nat.toNat_digitChar_of_lt_ten runSmall]
        exact Nat.add_sub_cancel_left 48 run.1
      rw [written_cons_of_lt runSmall, readPairs, inductionHypothesis restSmall, countIs]
      rfl

/-- Of four characters in a row two are the digits of neighbouring pairs. -/
theorem not_four_infix_written {runs : List (Nat × Char)} (small : ∀ run ∈ runs, run.1 < 10)
    (alternates : Alternates runs) (char : Char) : ¬List.replicate 4 char <:+: written runs := by
  induction runs with
  | nil => exact fun inside => absurd inside.length_le (by simp [written])
  | cons run rest inductionHypothesis =>
      obtain ⟨runSmall, restSmall⟩ := List.forall_mem_cons.mp small
      have later := inductionHypothesis restSmall (List.IsChain.of_cons alternates)
      rw [written_cons_of_lt runSmall, List.infix_cons_iff, List.infix_cons_iff]
      cases rest with
      | nil => simp [written, List.replicate]
      | cons next rest =>
          have differ : run.2 ≠ next.2 := (List.isChain_cons_cons.mp alternates).1
          rw [written_cons_of_lt (restSmall next List.mem_cons_self)] at later ⊢
          rintro (whole | half | inside)
          · simp only [List.replicate, List.cons_prefix_cons] at whole
            exact differ (whole.2.1.symm.trans whole.2.2.2.1)
          · simp only [List.replicate, List.cons_prefix_cons] at half
            exact differ (half.1.symm.trans half.2.2.1)
          · exact later inside

/-! ### The terms -/

/-- The terms from the first one, which has the number 0, without a limit. -/
def term : Nat → List Char
  | 0 => ['1']
  | k + 1 => written (runs (term k))

structure Spoken (s : List Char) : Prop where
  digits : ∀ char ∈ s, char = '1' ∨ char = '2' ∨ char = '3'
  short : ∀ char, ¬List.replicate 4 char <:+: s

theorem Spoken.count_le {s : List Char} (spoken : Spoken s) {run : Nat × Char}
    (member : run ∈ runs s) : run.1 ≤ 3 :=
  le_of_mem_runs spoken.short member

theorem Spoken.next {s : List Char} (spoken : Spoken s) : Spoken (written (runs s)) := by
  constructor
  · intro char member
    obtain ⟨run, inRuns, inPair⟩ := List.mem_flatMap.mp member
    have atMost := spoken.count_le inRuns
    have positive := pos_of_mem_runs inRuns
    rw [Nat.toDigits_of_lt_base (by omega), List.mem_append, List.mem_singleton,
      List.mem_singleton] at inPair
    rcases inPair with rfl | rfl
    · obtain one | two | three : run.1 = 1 ∨ run.1 = 2 ∨ run.1 = 3 := by omega
      · exact Or.inl (by rw [one]; rfl)
      · exact Or.inr (Or.inl (by rw [two]; rfl))
      · exact Or.inr (Or.inr (by rw [three]; rfl))
    · exact spoken.digits run.2 (mem_of_mem_runs inRuns)
  · refine not_four_infix_written (fun run member => ?_) (alternates_runs s)
    exact Nat.lt_of_le_of_lt (spoken.count_le member) (by decide)

theorem spoken_term (k : Nat) : Spoken (term k) := by
  induction k with
  | zero =>
      refine ⟨by simp [term], fun char inside => ?_⟩
      exact absurd inside.length_le (by simp [term])
  | succ k inductionHypothesis => exact inductionHypothesis.next

theorem readPairs_term (k : Nat) : readPairs (term (k + 1)) = some (runs (term k)) :=
  readPairs_written fun _ member =>
    Nat.lt_of_le_of_lt ((spoken_term k).count_le member) (by decide)

theorem term_ne_nil (k : Nat) : term k ≠ [] := by
  induction k with
  | zero => exact List.cons_ne_nil _ _
  | succ k inductionHypothesis =>
      intro empty
      have pairs := readPairs_term k
      rw [empty] at pairs
      rw [← expand_runs (term k), ← Option.some.inj pairs] at inductionHypothesis
      exact inductionHypothesis rfl

theorem forLoop_say {rounds : Nat} (small : ∀ k < rounds, (term k).length < 2 ^ 31) :
    forLoop 2 rounds (fun s _ => say s) ['1'] = some (term rounds) := by
  induction rounds with
  | zero => rfl
  | succ rounds inductionHypothesis =>
      rw [forLoop_succ, inductionHypothesis fun k below => small k (Nat.lt_succ_of_lt below)]
      exact say_eq (term_ne_nil rounds) (small rounds (Nat.lt_succ_self rounds))

theorem countAndSay_succ (k : Nat) :
    countAndSay ((k + 1 : Nat) : Int) = signedLoop 32 2 k (fun s _ => say s) ['1'] := by
  rw [countAndSay]
  split
  next atMost =>
    obtain rfl : k = 0 := by omega
    rfl
  next => rw [Nat.cast_add_one, Int.add_sub_cancel, Int.toNat_natCast]

theorem countAndSay_eq {k : Nat} (inRange : k + 2 < 2 ^ 31)
    (small : ∀ j < k, (term j).length < 2 ^ 31) :
    countAndSay ((k + 1 : Nat) : Int) = some (term k) := by
  have fits : 2 + k < 2 ^ (32 - 1) := by norm_num; omega
  rw [countAndSay_succ, signedLoop_eq fits, forLoop_say small]

/-- The counters hold all numbers up to the term behind the one with the number `n`. -/
def Readable (n : Nat) : Prop :=
  n + 2 < 2 ^ 31 ∧ ∀ k < n, (term k).length < 2 ^ 31

theorem countAndSay_eq_none {n : Nat} (positive : 1 ≤ n) (unreadable : ¬Readable n) :
    countAndSay ((n + 1 : Nat) : Int) = none := by
  rw [countAndSay_succ]
  by_cases large : 2 ^ 31 ≤ n + 2
  · exact signedLoop_eq_none positive (by norm_num; omega) ['1']
  · have long : ∃ k, k < n ∧ 2 ^ 31 ≤ (term k).length := by
      by_contra all
      refine unreadable ⟨by omega, fun k below => ?_⟩
      exact Nat.lt_of_not_le fun tooLong => all ⟨k, below, tooLong⟩
    -- the first term that is too long is the last one that is reached
    classical
    have least := Nat.find_spec long
    have before : ∀ k < Nat.find long, (term k).length < 2 ^ 31 := fun k below =>
      Nat.lt_of_not_le fun tooLong =>
        Nat.find_min long below ⟨Nat.lt_trans below least.1, tooLong⟩
    have fits : 2 + n < 2 ^ (32 - 1) := by norm_num; omega
    rw [signedLoop_eq fits]
    refine forLoop_eq_none_of_le (Nat.succ_le_of_lt least.1) ?_
    rw [forLoop_succ, forLoop_say before]
    exact say_eq_none least.2

theorem countAndSay_decodable {n : Nat} (positive : 1 ≤ n) :
    (Readable n → ∃ s t pairs, countAndSay (n : Int) = some s ∧
      countAndSay ((n + 1 : Nat) : Int) = some t ∧
      (∀ char ∈ s, char = '1' ∨ char = '2' ∨ char = '3') ∧
      (∀ char, ¬List.replicate 4 char <:+: s) ∧
      readPairs t = some pairs ∧ expand pairs = s ∧ Alternates pairs) ∧
    (¬Readable n → countAndSay ((n + 1 : Nat) : Int) = none) := by
  refine ⟨fun ⟨inRange, small⟩ => ?_, countAndSay_eq_none positive⟩
  obtain ⟨k, rfl⟩ := Nat.exists_eq_add_of_le' positive
  have spoken := spoken_term k
  refine ⟨term k, term (k + 1), runs (term k), ?_, countAndSay_eq inRange small, spoken.digits,
    spoken.short, readPairs_term k, expand_runs (term k), alternates_runs (term k)⟩
  exact countAndSay_eq (by omega) fun j below => small j (Nat.lt_succ_of_lt below)

theorem countAndSay_decodable_four :
    1 ≤ 4 ∧ Readable 4 ∧ ∃ s t pairs, countAndSay ((4 : Nat) : Int) = some s ∧
      countAndSay ((4 + 1 : Nat) : Int) = some t ∧
      (∀ char ∈ s, char = '1' ∨ char = '2' ∨ char = '3') ∧
      (∀ char, ¬List.replicate 4 char <:+: s) ∧
      readPairs t = some pairs ∧ expand pairs = s ∧ Alternates pairs := by
  have readable : Readable 4 := ⟨by decide, by decide⟩
  exact ⟨by decide, readable, (countAndSay_decodable (by decide)).1 readable⟩

/-- The counter of the terms overflows behind the greatest one. -/
theorem countAndSay_fails : 1 ≤ 2 ^ 31 - 2 ∧ countAndSay ((2 ^ 31 - 2 + 1 : Nat) : Int) = none :=
  ⟨by decide, countAndSay_eq_none (by decide) fun readable => absurd readable.1 (by decide)⟩

end CountAndSay

end StdPrograms.Hobbies

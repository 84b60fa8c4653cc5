import StdPrograms.Foundation.Balanced
import StdPrograms.Foundation.SignedInt

/-!
Contract: three checks whether the brackets of a string match.

Owns `isValid` and `isValid2`, which keep a stack, and `isValid3`, which erases pairs, of
`solution_20.cpp`, and that they accept the balanced strings.

Does not own the memory that a string takes.
-/

namespace StdPrograms.Hobbies

open StdPrograms.Foundation

namespace Brackets

/-- The table `pm`. -/
def opening : Char → Option Char
  | ')' => some '('
  | ']' => some '['
  | '}' => some '{'
  | _ => none

def pm : Foundation.Brackets Char where
  opening := opening
  opens := by
    intro left right closes
    unfold opening at closes
    split at closes <;> cases closes <;> rfl

/-- `S` is empty, or `(S)S`, `[S]S` or `{S}S`. -/
abbrev IsValid : List Char → Prop := Balanced pm

theorem opening_eq_some {c left : Char} (closes : opening c = some left) :
    c = ')' ∧ left = '(' ∨ c = ']' ∧ left = '[' ∨ c = '}' ∧ left = '{' := by
  unfold opening at closes
  split at closes <;> cases closes <;> simp

theorem opening_eq_none {c : Char} (other : opening c = none) :
    c ≠ ')' ∧ c ≠ ']' ∧ c ≠ '}' := by
  refine ⟨?_, ?_, ?_⟩ <;> rintro rfl <;> cases other

/-! ### `isValid` -/

def isValidLoop : List Char → List Char → Bool
  | sc, [] => sc.isEmpty
  | sc, c :: s =>
      if c = '(' ∨ c = '[' ∨ c = '{' then isValidLoop (c :: sc) s
      else if c = ')' ∨ c = ']' ∨ c = '}' then
        match sc with
        | [] => false
        | top :: rest =>
            if c = ')' ∧ top ≠ '(' ∨ c = ']' ∧ top ≠ '[' ∨ c = '}' ∧ top ≠ '{' then false
            else isValidLoop rest s
      else false

def isValid (s : List Char) : Bool :=
  if s.length % 2 ≠ 0 then false else isValidLoop [] s

/-- The characters that the first `case` pushes. -/
def isOpening (c : Char) : Bool := c = '(' ∨ c = '[' ∨ c = '{'

theorem isOpening_pushed : pm.Pushed isOpening := by
  intro left right closes
  obtain ⟨-, rfl⟩ | ⟨-, rfl⟩ | ⟨-, rfl⟩ := opening_eq_some closes <;> rfl

theorem isValidLoop_eq (sc s : List Char) : isValidLoop sc s = pm.accepts isOpening sc s := by
  induction s generalizing sc with
  | nil => rfl
  | cons c s inductionHypothesis =>
      cases closes : opening c with
      | none =>
          obtain ⟨noRound, noSquare, noCurly⟩ := opening_eq_none closes
          simp [isValidLoop, Brackets.accepts, pm, closes, isOpening, noRound, noSquare, noCurly,
            inductionHypothesis]
      | some left =>
          cases sc with
          | nil =>
              obtain ⟨rfl, rfl⟩ | ⟨rfl, rfl⟩ | ⟨rfl, rfl⟩ := opening_eq_some closes <;> rfl
          | cons top rest =>
              obtain ⟨rfl, rfl⟩ | ⟨rfl, rfl⟩ | ⟨rfl, rfl⟩ := opening_eq_some closes <;>
                simp [isValidLoop, Brackets.accepts, pm, closes, inductionHypothesis]

theorem isValid_iff (s : List Char) : isValid s = true ↔ IsValid s := by
  unfold isValid
  split
  next odd =>
    constructor
    · intro accepted
      cases accepted
    · intro balanced
      exact absurd balanced.even_length odd
  next => rw [isValidLoop_eq, accepts_iff isOpening_pushed]

/-! ### `isValid2` -/

/-- The loop from index `i` on, with what the string has from there on. -/
def isValid2Loop : Nat → List Char → List Char → Option Bool
  | _, left, [] => some left.isEmpty
  | i, left, c :: s =>
      match opening c with
      | some second =>
          match left with
          | [] => some false
          | top :: rest =>
              if top ≠ second then some false
              else do
                let next ← position 32 (i + 1)
                isValid2Loop next rest s
      | none => do
          let next ← position 32 (i + 1)
          isValid2Loop next (c :: left) s

def isValid2 (s : List Char) : Option Bool :=
  if s.length % 2 ≠ 0 then some false else isValid2Loop 0 [] s

/-- The stack's answer, which is only `true` where the index never overflowed, or nothing. -/
def Answers (result : Option Bool) (answer : Bool) (length : Nat) : Prop :=
  result = some answer ∧ (answer = true → length < 2 ^ 31) ∨ result = none ∧ 2 ^ 31 ≤ length

theorem isValid2Loop_answers {i : Nat} (held : i < 2 ^ 31) (left s : List Char) :
    Answers (isValid2Loop i left s) (pm.accepts (fun _ => true) left s) (i + s.length) := by
  induction s generalizing i left with
  | nil => exact .inl ⟨rfl, fun _ => held⟩
  | cons c s inductionHypothesis =>
      have advances (left : List Char) :
          Answers ((position 32 (i + 1)).bind fun next => isValid2Loop next left s)
            (pm.accepts (fun _ => true) left s) (i + (c :: s).length) := by
        have further : i + (c :: s).length = i + 1 + s.length := by
          rw [List.length_cons, Nat.add_right_comm, Nat.add_assoc]
        rw [further]
        by_cases next : i + 1 < 2 ^ 31
        · rw [position_of_lt next]
          exact inductionHypothesis next left
        · rw [position_eq_none (Nat.le_of_not_lt next)]
          exact .inr ⟨rfl, by omega⟩
      have rejects : Answers (some false) false (i + (c :: s).length) :=
        .inl ⟨rfl, fun accepted => by cases accepted⟩
      cases closes : opening c with
      | none =>
          simp only [isValid2Loop, Brackets.accepts, pm, closes, if_true]
          exact advances (c :: left)
      | some second =>
          cases left with
          | nil => simpa only [isValid2Loop, Brackets.accepts, pm, closes] using rejects
          | cons top rest =>
              by_cases same : top = second
              · simp only [isValid2Loop, Brackets.accepts, pm, closes, same, ne_eq,
                  not_true_eq_false, if_true, if_false]
                exact advances rest
              · simpa only [isValid2Loop, Brackets.accepts, pm, closes, if_neg same,
                  if_pos same] using rejects

theorem isValid2_answers (s : List Char) : Answers (isValid2 s) (isValid s) s.length := by
  have everything : pm.Pushed fun _ => true := fun _ _ _ => rfl
  unfold isValid2 isValid
  split
  next => exact .inl ⟨rfl, fun accepted => by cases accepted⟩
  next =>
    have same : isValidLoop [] s = pm.accepts (fun _ => true) [] s := by
      rw [isValidLoop_eq, Bool.eq_iff_iff, accepts_iff isOpening_pushed, accepts_iff everything]
    have answers := isValid2Loop_answers (Nat.two_pow_pos 31) [] s
    rw [Nat.zero_add] at answers
    rw [same]
    exact answers

/-! ### `isValid3` -/

/-- The first place where `t` stands in the string. -/
def find (t : List Char) : List Char → Option Nat
  | [] => if t.isPrefixOf [] then some 0 else none
  | c :: s => if t.isPrefixOf (c :: s) then some 0 else (find t s).map (· + 1)

/-- The string without the two characters from the place on, if there is one. -/
def erase (s : List Char) : Option Nat → List Char
  | some l => s.take l ++ s.drop (l + 2)
  | none => s

def isValid3Loop : Nat → List Char → Option Bool
  | 0, _ => none
  | fuel + 1, s =>
      if s = [] then some true
      else
        let l := find ['(', ')'] s
        let s := erase s l
        let m := find ['[', ']'] s
        let s := erase s m
        let b := find ['{', '}'] s
        let s := erase s b
        if l = none ∧ m = none ∧ b = none then some false else isValid3Loop fuel s

def isValid3 (fuel : Nat) (t : List Char) : Option Bool :=
  if t.length % 2 ≠ 0 then some false else isValid3Loop fuel t

theorem find_eq_some {t s : List Char} {l : Nat} (found : find t s = some l) :
    ∃ before behind, s = before ++ t ++ behind ∧ l = before.length := by
  induction s generalizing l with
  | nil =>
      obtain ⟨matched, first⟩ := Option.ite_none_right_eq_some.mp found
      obtain ⟨behind, parts⟩ := List.isPrefixOf_iff_prefix.mp matched
      exact ⟨[], behind, parts.symm, (Option.some.inj first).symm⟩
  | cons c s inductionHypothesis =>
      rw [find] at found
      split at found
      next matched =>
        obtain ⟨behind, parts⟩ := List.isPrefixOf_iff_prefix.mp matched
        exact ⟨[], behind, parts.symm, (Option.some.inj found).symm⟩
      next =>
        obtain ⟨l', later, rfl⟩ := Option.map_eq_some_iff.mp found
        obtain ⟨before, behind, rfl, rfl⟩ := inductionHypothesis later
        exact ⟨c :: before, behind, rfl, rfl⟩

theorem find_eq_none {t s : List Char} (absent : find t s = none) : ¬ t <:+: s := by
  induction s with
  | nil =>
      intro inside
      rw [List.infix_nil.mp inside] at absent
      cases absent
  | cons c s inductionHypothesis =>
      rw [find] at absent
      split at absent
      next => cases absent
      next unmatched =>
        intro inside
        obtain atStart | later := List.infix_cons_iff.mp inside
        · exact unmatched (List.isPrefixOf_iff_prefix.mpr atStart)
        · exact inductionHypothesis (Option.map_eq_none_iff.mp absent) later

/-- Erasing a pair keeps what is balanced, and what is not. -/
theorem erase_find {left right : Char} (closes : pm.opening right = some left) (s : List Char) :
    (IsValid (erase s (find [left, right] s)) ↔ IsValid s) ∧
      (erase s (find [left, right] s)).length ≤ s.length ∧
      ((erase s (find [left, right] s)).length = s.length → find [left, right] s = none) := by
  cases found : find [left, right] s with
  | none => exact ⟨Iff.rfl, Nat.le_refl _, fun _ => rfl⟩
  | some l =>
      obtain ⟨before, behind, rfl, rfl⟩ := find_eq_some found
      have erased : erase (before ++ [left, right] ++ behind) (some before.length) =
          before ++ behind := by
        simp [erase]
      have lengths : (before ++ [left, right] ++ behind).length =
          (before ++ behind).length + 2 := by
        simp only [List.length_append, List.length_cons, List.length_nil]
        omega
      rw [erased, lengths]
      refine ⟨?_, by omega, fun same => by omega⟩
      rw [List.append_assoc]
      exact (balanced_insert_iff closes before behind).symm

theorem exists_find {s : List Char} (balanced : IsValid s) (nonempty : s ≠ []) :
    find ['(', ')'] s ≠ none ∨ find ['[', ']'] s ≠ none ∨ find ['{', '}'] s ≠ none := by
  obtain ⟨left, right, closes, inside⟩ := balanced.exists_adjacent nonempty
  have found : find [left, right] s ≠ none := fun absent => find_eq_none absent inside
  obtain ⟨rfl, rfl⟩ | ⟨rfl, rfl⟩ | ⟨rfl, rfl⟩ := opening_eq_some closes
  · exact .inl found
  · exact .inr (.inl found)
  · exact .inr (.inr found)

theorem isValid3Loop_spec {fuel : Nat} {s : List Char} (enough : s.length < fuel) :
    ∃ answer, isValid3Loop fuel s = some answer ∧ (answer = true ↔ IsValid s) := by
  induction fuel generalizing s with
  | zero => omega
  | succ fuel inductionHypothesis =>
      rw [isValid3Loop]
      split
      next empty =>
        rw [empty]
        exact ⟨true, rfl, fun _ => .nil, fun _ => rfl⟩
      next nonempty =>
        obtain ⟨keepsRound, leRound, round⟩ :=
          erase_find (show pm.opening ')' = some '(' from rfl) s
        obtain ⟨keepsSquare, leSquare, square⟩ :=
          erase_find (show pm.opening ']' = some '[' from rfl) (erase s (find ['(', ')'] s))
        obtain ⟨keepsCurly, leCurly, curly⟩ :=
          erase_find (show pm.opening '}' = some '{' from rfl)
            (erase (erase s (find ['(', ')'] s)) (find ['[', ']'] (erase s (find ['(', ')'] s))))
        dsimp only
        split
        next absent =>
          obtain ⟨noRound, noSquare, noCurly⟩ := absent
          rw [noRound] at noSquare noCurly
          change find ['[', ']'] s = none at noSquare
          change find ['{', '}'] (erase s (find ['[', ']'] s)) = none at noCurly
          rw [noSquare] at noCurly
          have unbalanced : ¬ IsValid s := by
            intro balanced
            obtain found | found | found := exists_find balanced nonempty
            · exact found noRound
            · exact found noSquare
            · exact found noCurly
          exact ⟨false, rfl, by simp [unbalanced]⟩
        next present =>
          rw [← keepsRound, ← keepsSquare, ← keepsCurly]
          apply inductionHypothesis
          by_contra long
          exact present ⟨round (by omega), square (by omega), curly (by omega)⟩

theorem isValid3_eq {fuel : Nat} {s : List Char} (enough : s.length < fuel) :
    isValid3 fuel s = some (isValid s) := by
  unfold isValid3
  split
  next odd => rw [isValid, if_pos odd]
  next =>
    obtain ⟨answer, returned, correct⟩ := isValid3Loop_spec enough
    rw [returned, Option.some_inj, Bool.eq_iff_iff, correct, isValid_iff]

/-! ### Their agreement -/

/-- `isValid` and `isValid3` decide the grammar; so does `isValid2`, as far as its index counts. -/
theorem isValids_accept_balanced (s : List Char) :
    (isValid s = true ↔ IsValid s) ∧
      (isValid2 s = some (isValid s) ∨ 2 ^ 31 ≤ s.length ∧ isValid2 s = none) ∧
      ∀ fuel, s.length < fuel → isValid3 fuel s = some (isValid s) := by
  refine ⟨isValid_iff s, ?_, fun fuel enough => isValid3_eq enough⟩
  obtain ⟨returned, -⟩ | ⟨overflows, long⟩ := isValid2_answers s
  · exact .inl returned
  · exact .inr ⟨long, overflows⟩

theorem isValids_accept_nested :
    ['(', '[', ']', ')'].length < 5 ∧
      isValid3 5 ['(', '[', ']', ')'] = some (isValid ['(', '[', ']', ')']) :=
  ⟨by decide, (isValids_accept_balanced ['(', '[', ']', ')']).2.2 5 (by decide)⟩

/-- One bracket in the other. -/
theorem balanced_nested (depth : Nat) :
    IsValid (List.replicate depth '(' ++ List.replicate depth ')') := by
  induction depth with
  | zero => exact .nil
  | succ depth inductionHypothesis =>
      rw [List.replicate_succ, List.replicate_succ', List.cons_append, ← List.append_assoc]
      exact @Balanced.pair _ pm '(' ')' _ [] rfl inductionHypothesis .nil

/-- A string that matches, but the index of `isValid2` overflows on it. -/
theorem isValid2_fails_on_long :
    IsValid (List.replicate (2 ^ 30) '(' ++ List.replicate (2 ^ 30) ')') ∧
      isValid2 (List.replicate (2 ^ 30) '(' ++ List.replicate (2 ^ 30) ')') = none := by
  have balanced := balanced_nested (2 ^ 30)
  refine ⟨balanced, ?_⟩
  obtain ⟨-, short⟩ | ⟨overflows, -⟩ := isValid2_answers
    (List.replicate (2 ^ 30) '(' ++ List.replicate (2 ^ 30) ')')
  · have counted := short ((isValid_iff _).mpr balanced)
    simp only [List.length_append, List.length_replicate] at counted
    omega
  · exact overflows

end Brackets

end StdPrograms.Hobbies

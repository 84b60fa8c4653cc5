import Mathlib.Data.List.Nodup
import StdPrograms.Foundation.Balanced

/-!
Contract: all balanced strings of parentheses.

Owns `generateParentheses` of `solution_22.cpp` and its `helper`, for numbers that are not negative.

Does not own what is printed.
-/

namespace StdPrograms.Hobbies

open StdPrograms.Foundation

namespace GenerateParentheses

/-- What is added to `res`, in this order. -/
def helper (left right : Nat) (current : List Char) : List (List Char) :=
  if left = 0 ∧ right = 0 then [current]
  else
    (if left > 0 then helper (left - 1) right (current ++ ['(']) else []) ++
      if left < right then helper left (right - 1) (current ++ [')']) else []
termination_by left + right

def generateParentheses (n : Nat) : List (List Char) :=
  helper n n []

/-! ### Balanced strings -/

def parentheses : Brackets Char where
  opening symbol := if symbol = ')' then some '(' else none
  opens {left right} closes := by
    split at closes
    next => rw [← Option.some.inj closes]; rfl
    next => cases closes

/-- Whether a string can follow some open parentheses. -/
def completes (height : Nat) (word : List Char) : Bool :=
  parentheses.accepts (fun symbol => decide (symbol = '(')) (List.replicate height '(') word

theorem completes_zero_iff {word : List Char} :
    completes 0 word = true ↔ Balanced parentheses word := by
  refine accepts_iff fun left right closes => ?_
  change (if right = ')' then some '(' else none) = some left at closes
  split at closes
  next => rw [← Option.some.inj closes]; rfl
  next => cases closes

theorem completes_cons (height : Nat) (symbol : Char) (word : List Char) :
    completes height (symbol :: word) = true ↔
      symbol = '(' ∧ completes (height + 1) word = true ∨
        symbol = ')' ∧ 0 < height ∧ completes (height - 1) word = true := by
  by_cases closing : symbol = ')'
  · subst closing
    cases height with
    | zero => simp [completes, Brackets.accepts, parentheses]
    | succ height => simp [completes, Brackets.accepts, parentheses, List.replicate_succ]
  · by_cases opening : symbol = '('
    · simp [completes, Brackets.accepts, parentheses, opening, List.replicate_succ]
    · simp [completes, Brackets.accepts, parentheses, opening, closing]

theorem le_length_of_completes {height : Nat} {word : List Char}
    (completed : completes height word = true) : height ≤ word.length := by
  have atMost := length_le_of_accepts completed
  rwa [List.length_replicate] at atMost

/-! ### The search -/

/-- A string that closes what is open with the parentheses that are left. -/
def Fits (left right : Nat) (word : List Char) : Prop :=
  word.length = left + right ∧ completes (right - left) word = true

theorem fits_cons_iff {left right : Nat} (ordered : left ≤ right) {symbol : Char}
    {word : List Char} :
    Fits left right (symbol :: word) ↔
      symbol = '(' ∧ 0 < left ∧ Fits (left - 1) right word ∨
        symbol = ')' ∧ left < right ∧ Fits left (right - 1) word := by
  rw [Fits, completes_cons, List.length_cons]
  constructor
  · rintro ⟨size, ⟨opening, completed⟩ | ⟨closing, positive, completed⟩⟩
    · have atMost := le_length_of_completes completed
      have heights : right - left + 1 = right - (left - 1) := by omega
      exact Or.inl ⟨opening, by omega, by omega, heights ▸ completed⟩
    · have heights : right - left - 1 = right - 1 - left := by omega
      exact Or.inr ⟨closing, by omega, by omega, heights ▸ completed⟩
  · rintro (⟨opening, positive, size, completed⟩ | ⟨closing, less, size, completed⟩)
    · have heights : right - (left - 1) = right - left + 1 := by omega
      exact ⟨by omega, Or.inl ⟨opening, heights ▸ completed⟩⟩
    · have heights : right - 1 - left = right - left - 1 := by omega
      exact ⟨by omega, Or.inr ⟨closing, by omega, heights ▸ completed⟩⟩

theorem mem_helper_iff {left right : Nat} (ordered : left ≤ right) {current result : List Char} :
    result ∈ helper left right current ↔
      ∃ word, result = current ++ word ∧ Fits left right word := by
  induction sum : left + right generalizing left right current with
  | zero =>
      obtain ⟨rfl, rfl⟩ := Nat.add_eq_zero_iff.mp sum
      rw [helper, if_pos ⟨rfl, rfl⟩, List.mem_singleton]
      constructor
      · rintro rfl
        exact ⟨[], by rw [List.append_nil], rfl, rfl⟩
      · rintro ⟨word, rfl, size, -⟩
        rw [List.eq_nil_of_length_eq_zero size, List.append_nil]
  | succ total inductionHypothesis =>
      have opened (positive : left > 0) :=
        @inductionHypothesis (left - 1) right (by omega) (current ++ ['(']) (by omega)
      have closed (less : left < right) :=
        @inductionHypothesis left (right - 1) (by omega) (current ++ [')']) (by omega)
      rw [helper, if_neg (by omega), List.mem_append, List.mem_ite_nil_right,
        List.mem_ite_nil_right]
      constructor
      · rintro (⟨positive, member⟩ | ⟨less, member⟩)
        · obtain ⟨word, rfl, fits⟩ := (opened positive).mp member
          exact ⟨'(' :: word, by simp, (fits_cons_iff ordered).mpr (Or.inl ⟨rfl, positive, fits⟩)⟩
        · obtain ⟨word, rfl, fits⟩ := (closed less).mp member
          exact ⟨')' :: word, by simp, (fits_cons_iff ordered).mpr (Or.inr ⟨rfl, less, fits⟩)⟩
      · rintro ⟨word, rfl, fits⟩
        cases word with
        | nil => exact absurd (sum.symm.trans fits.1.symm) (Nat.succ_ne_zero _)
        | cons symbol word =>
            rcases (fits_cons_iff ordered).mp fits with
              ⟨rfl, positive, rest⟩ | ⟨rfl, less, rest⟩
            · exact Or.inl ⟨positive, (opened positive).mpr ⟨word, by simp, rest⟩⟩
            · exact Or.inr ⟨less, (closed less).mpr ⟨word, by simp, rest⟩⟩

theorem nodup_helper {left right : Nat} (ordered : left ≤ right) (current : List Char) :
    (helper left right current).Nodup := by
  induction sum : left + right generalizing left right current with
  | zero =>
      rw [helper, if_pos (by omega)]
      exact List.nodup_singleton current
  | succ total inductionHypothesis =>
      rw [helper, if_neg (by omega)]
      refine List.Nodup.append ?_ ?_ fun result inOpened inClosed => ?_
      · split
        next positive => exact inductionHypothesis (by omega) _ (by omega)
        next => exact List.nodup_nil
      · split
        next less => exact inductionHypothesis (by omega) _ (by omega)
        next => exact List.nodup_nil
      · -- the strings differ in the symbol behind `current`
        obtain ⟨positive, inOpened⟩ := List.mem_ite_nil_right.mp inOpened
        obtain ⟨less, inClosed⟩ := List.mem_ite_nil_right.mp inClosed
        obtain ⟨word, rfl, -⟩ := (mem_helper_iff (by omega)).mp inOpened
        obtain ⟨word', same, -⟩ := (mem_helper_iff (by omega)).mp inClosed
        simp at same

theorem generateParentheses_spec (n : Nat) :
    (generateParentheses n).Nodup ∧ ∀ word, word ∈ generateParentheses n ↔
      Balanced parentheses word ∧ word.length = 2 * n := by
  refine ⟨nodup_helper (Nat.le_refl n) [], fun word =>
    (mem_helper_iff (Nat.le_refl n)).trans ?_⟩
  simp only [List.nil_append, Fits, Nat.sub_self, completes_zero_iff, ← Nat.two_mul]
  constructor
  · rintro ⟨_, rfl, size, balanced⟩
    exact ⟨balanced, size⟩
  · rintro ⟨balanced, size⟩
    exact ⟨word, rfl, size, balanced⟩

end GenerateParentheses

end StdPrograms.Hobbies

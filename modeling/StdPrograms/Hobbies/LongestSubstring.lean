import Mathlib.Algebra.Order.Group.Int
import Mathlib.Data.List.Infix
import Mathlib.Data.List.Nodup
import Mathlib.Logic.Function.Basic
import StdPrograms.Foundation.SignedInt

/-!
Contract: the longest part of a string without a repeated character.

Owns `lengthOfLongestSubstring` of `solution_3.cpp`, with places and lengths of type `int`, and that
it returns the greatest length of such a part.

Does not own the map.
-/

namespace StdPrograms.Hobbies

open StdPrograms.Foundation

namespace LongestSubstring

variable {α : Type}

/-- `start` behind the place where the character was last, if that is behind it. -/
def startBehind (um : α → Option Nat) (c : α) (start : Int) : Int :=
  match um c with
  | some it => max it start
  | none => start

variable [DecidableEq α]

/-- The loop from `i` on, where `rest` is what is left of the string. -/
def scan : List α → Nat → (α → Option Nat) → Int → Int → Option Int
  | [], _, _, _, longest => some longest
  | c :: rest, i, um, start, longest => do
      let start := startBehind um c start
      let longest := max longest (← signed 32 (i - start))
      let next ← position 32 (i + 1)
      scan rest next (Function.update um c (some i)) start longest

def lengthOfLongestSubstring (s : List α) : Option Int := scan s 0 (fun _ => none) (-1) 0

/-! ### The window -/

/-- The greatest length of a part without repetition. -/
structure IsLongest (text : List α) (longest : Int) : Prop where
  attained : ∃ part, part <:+: text ∧ part.Nodup ∧ (part.length : Int) = longest
  bound : ∀ part, part <:+: text → part.Nodup → (part.length : Int) ≤ longest

/-- What has been read is a front and a window without repetition, which begins behind the last
element that is repeated in it. The map holds the places of the window. -/
structure Windowed (um : α → Option Nat) (front window : List α) : Prop where
  distinct : window.Nodup
  maximal : ∀ c ∈ front.getLast?, c ∈ window
  inside : ∀ before c behind, window = before ++ c :: behind →
    um c = some (front.length + before.length)
  outside : ∀ c ∉ window, ∀ it, um c = some it → it < front.length

omit [DecidableEq α] in
/-- An element at the end of a list is the last one or in the list before it. -/
theorem concat_eq_append_cons {window before behind : List α} {c d : α}
    (split : window ++ [c] = before ++ d :: behind) :
    before = window ∧ d = c ∨ ∃ others, window = before ++ d :: others := by
  rcases List.eq_nil_or_concat behind with rfl | ⟨others, last, rfl⟩
  · exact Or.inl (by simpa [eq_comm] using List.append_inj' split rfl)
  · rw [List.concat_eq_append, ← List.cons_append, ← List.append_assoc] at split
    exact Or.inr ⟨others, (List.append_inj' split rfl).1⟩

omit [DecidableEq α] in
/-- No part at the end of what has been read is longer than the window and without repetition. -/
theorem length_le_of_maximal {front window part : List α}
    (maximal : ∀ c ∈ front.getLast?, c ∈ window) (isSuffix : part <:+ front ++ window)
    (distinct : part.Nodup) : part.length ≤ window.length := by
  obtain ⟨rest, split⟩ := isSuffix
  by_contra longer
  rcases List.append_eq_append_iff.mp split with ⟨more, rfl, rfl⟩ | ⟨less, rfl, rfl⟩
  · rcases List.eq_nil_or_concat more with rfl | ⟨others, c, rfl⟩
    · exact longer (by simp)
    · rw [List.concat_eq_append] at maximal distinct
      have again := maximal c (by simp)
      rw [List.append_assoc, List.nodup_append'] at distinct
      exact (List.nodup_cons.mp distinct.2.1).1 again
  · exact longer (by simp)

variable {um : α → Option Nat} {front window : List α} {c : α}

/-- The element is not in the window, which grows. -/
theorem Windowed.grow (windowed : Windowed um front window) (new : c ∉ window) :
    Windowed (Function.update um c (some (front ++ window).length)) front (window ++ [c]) := by
  constructor
  · rw [List.nodup_append']
    exact ⟨windowed.distinct, List.nodup_singleton c, by simpa using new⟩
  · intro last isLast
    exact List.mem_append_left _ (windowed.maximal last isLast)
  · intro before d behind split
    rcases concat_eq_append_cons split with ⟨rfl, rfl⟩ | ⟨others, rfl⟩
    · rw [Function.update_self, List.length_append]
    · rw [Function.update_of_ne fun same => new (by simp [same])]
      exact windowed.inside before d others rfl
  · intro d absent it known
    rw [List.mem_append, List.mem_singleton, not_or] at absent
    rw [Function.update_of_ne absent.2] at known
    exact windowed.outside d absent.1 it known

/-- The element is in the window, which begins behind it now. -/
theorem Windowed.slide {before behind : List α}
    (windowed : Windowed um front (before ++ c :: behind)) :
    Windowed (Function.update um c (some (front ++ (before ++ c :: behind)).length))
      (front ++ (before ++ [c])) (behind ++ [c]) := by
  have distinct := windowed.distinct
  rw [List.nodup_append', List.nodup_cons] at distinct
  constructor
  · rw [List.nodup_append']
    exact ⟨distinct.2.1.2, List.nodup_singleton c, by simpa using distinct.2.1.1⟩
  · intro last isLast
    simp at isLast
    simp [isLast]
  · intro first d later split
    rcases concat_eq_append_cons split with ⟨rfl, rfl⟩ | ⟨others, rfl⟩
    · rw [Function.update_self]
      simp
      omega
    · rw [Function.update_of_ne fun same => distinct.2.1.1 (by simp [same]),
        windowed.inside (before ++ c :: first) d others (by simp)]
      simp
      omega
  · intro d absent it known
    rw [List.mem_append, List.mem_singleton, not_or] at absent
    rw [Function.update_of_ne absent.2] at known
    simp only [List.length_append, List.length_singleton]
    by_cases inFront : d ∈ before
    · obtain ⟨first, later, rfl⟩ := List.append_of_mem inFront
      have place := windowed.inside first d (later ++ c :: behind) (by simp)
      rw [place] at known
      simp only [Option.some.injEq] at known
      rw [List.length_append, List.length_cons]
      omega
    · have less := windowed.outside d (by simp [inFront, absent.1, absent.2]) it known
      omega

omit [DecidableEq α] in
theorem IsLongest.concat {text : List α} {longest : Int} (isLongest : IsLongest text longest)
    (whole : front ++ window = text ++ [c]) (distinct : window.Nodup)
    (maximal : ∀ c ∈ front.getLast?, c ∈ window) :
    IsLongest (text ++ [c]) (max longest window.length) := by
  constructor
  · rcases le_total longest window.length with less | greater
    · refine ⟨window, ?_, distinct, (max_eq_right less).symm⟩
      rw [← whole]
      exact (List.suffix_append front window).isInfix
    · obtain ⟨part, inText, partDistinct, size⟩ := isLongest.attained
      rw [max_eq_left greater]
      exact ⟨part, inText.trans (List.prefix_append text [c]).isInfix, partDistinct, size⟩
  · intro part inWhole partDistinct
    rcases List.infix_concat_iff.mp inWhole with atEnd | inText
    · rw [← whole] at atEnd
      have atMost := length_le_of_maximal maximal atEnd partDistinct
      exact le_max_of_le_right (by exact_mod_cast atMost)
    · exact le_max_of_le_left (isLongest.bound part inText partDistinct)

/-- What one round knows of the window, and what it makes of it. -/
theorem round_spec {start : Int} (windowed : Windowed um front window)
    (startIs : start + 1 = front.length) :
    ∃ front' window', front' ++ window' = front ++ window ++ [c] ∧
      Windowed (Function.update um c (some (front ++ window).length)) front' window' ∧
      startBehind um c start + 1 = front'.length := by
  unfold startBehind
  by_cases again : c ∈ window
  · obtain ⟨before, behind, rfl⟩ := List.append_of_mem again
    refine ⟨front ++ (before ++ [c]), behind ++ [c], by simp, windowed.slide, ?_⟩
    rw [windowed.inside before c behind rfl]
    simp only [List.length_append, List.length_singleton]
    omega
  · refine ⟨front, window ++ [c], by simp, windowed.grow again, ?_⟩
    cases known : um c with
    | none => exact startIs
    | some it =>
        have earlier := windowed.outside c again it known
        dsimp only
        omega

theorem scan_spec {rest : List α} {i : Nat} {start longest : Int}
    (windowed : Windowed um front window) (startIs : start + 1 = front.length)
    (readIs : i = (front ++ window).length) (small : i + rest.length < 2 ^ 31)
    (isLongest : IsLongest (front ++ window) longest) :
    ∃ result, scan rest i um start longest = some result ∧
      IsLongest (front ++ window ++ rest) result := by
  induction rest generalizing i um start longest front window with
  | nil =>
      rw [List.append_nil]
      exact ⟨longest, rfl, isLongest⟩
  | cons c rest inductionHypothesis =>
      subst readIs
      obtain ⟨front', window', whole, after, startAfter⟩ := @round_spec α _ um front window c start
        windowed startIs
      have sizes := congrArg List.length whole
      rw [List.length_append, List.length_append, List.length_singleton] at sizes
      rw [List.length_cons] at small
      have size : ((front ++ window).length : Int) - startBehind um c start = window'.length := by
        omega
      have fits : InSigned 32 (window'.length : Int) := by
        constructor <;> omega
      have counted : position 32 ((front ++ window).length + 1) =
          some ((front ++ window).length + 1) := position_of_lt (by omega)
      have longer := isLongest.concat whole after.distinct after.maximal
      rw [← whole] at longer
      have readAfter : (front ++ window).length + 1 = (front' ++ window').length := by
        rw [← sizes, List.length_append]
      obtain ⟨result, returned, longestAfter⟩ :=
        inductionHypothesis after startAfter readAfter (by omega) longer
      refine ⟨result, ?_, ?_⟩
      · rw [scan]
        simp only [size, signed_of_inSigned fits, counted, Option.bind_eq_bind, Option.bind_some]
        exact returned
      · rw [List.append_cons, ← whole]
        exact longestAfter

/-- The result is the greatest length of a part of the string that repeats no character. -/
theorem lengthOfLongestSubstring_longest {s : List α} (small : s.length < 2 ^ 31) :
    ∃ longest, lengthOfLongestSubstring s = some longest ∧ IsLongest s longest := by
  have empty : IsLongest ([] : List α) 0 := by
    refine ⟨⟨[], List.infix_refl [], List.nodup_nil, rfl⟩, fun part inText _ => ?_⟩
    rw [List.infix_nil.mp inText]
    rfl
  have windowed : Windowed (fun _ : α => none) [] [] := by
    constructor
    · exact List.nodup_nil
    · exact fun _ isLast => nomatch isLast
    · intro before c behind split
      exact absurd split (by simp)
    · exact fun _ _ _ known => nomatch known
  exact scan_spec windowed rfl rfl (by omega) empty

theorem lengthOfLongestSubstring_longest_abba :
    ∃ longest, lengthOfLongestSubstring ['a', 'b', 'b', 'a'] = some longest ∧
      IsLongest ['a', 'b', 'b', 'a'] longest :=
  lengthOfLongestSubstring_longest (by decide)

end LongestSubstring

end StdPrograms.Hobbies

import Mathlib.Computability.Language

/-!
Contract: concatenations of words of a language.

Owns that such a concatenation is cut before its last word, or anywhere between two words.

Does not own any way to find the words.
-/

namespace StdPrograms.Foundation

variable {α : Type} {language : Language α} {word : List α}

theorem append_mem_kstar {front back : List α} (inFront : front ∈ KStar.kstar language)
    (inBack : back ∈ KStar.kstar language) : front ++ back ∈ KStar.kstar language := by
  rw [← kstar_mul_kstar language]
  exact Language.append_mem_mul inFront inBack

theorem mem_kstar_of_mem (member : word ∈ language) : word ∈ KStar.kstar language :=
  (le_kstar : language ≤ KStar.kstar language) member

/-- The last word is not empty, and the ones before it are a concatenation again. -/
theorem mem_kstar_iff_last (nonempty : word ≠ []) :
    word ∈ KStar.kstar language ↔
      ∃ front back, front ++ back = word ∧ back ≠ [] ∧ front ∈ KStar.kstar language ∧
        back ∈ language := by
  constructor
  · intro inStar
    obtain ⟨parts, rfl, allParts⟩ := Language.mem_kstar_iff_exists_nonempty.mp inStar
    cases parts using List.reverseRecOn with
    | nil => exact absurd rfl nonempty
    | append_singleton before back =>
        obtain ⟨inLanguage, backNonempty⟩ := allParts back (by simp)
        refine ⟨before.flatten, back, by simp, backNonempty, ?_, inLanguage⟩
        apply Language.join_mem_kstar
        exact fun part member => (allParts part (List.mem_append_left [back] member)).1
  · rintro ⟨front, back, rfl, -, inFront, inBack⟩
    exact append_mem_kstar inFront (mem_kstar_of_mem inBack)

/-- It is one word, or two concatenations that are not empty. -/
theorem mem_kstar_iff_halves (nonempty : word ≠ []) :
    word ∈ KStar.kstar language ↔
      word ∈ language ∨ ∃ front back, front ++ back = word ∧ front ≠ [] ∧ back ≠ [] ∧
        front ∈ KStar.kstar language ∧ back ∈ KStar.kstar language := by
  constructor
  · intro inStar
    obtain ⟨front, back, rfl, backNonempty, inFront, inBack⟩ :=
      (mem_kstar_iff_last nonempty).mp inStar
    by_cases empty : front = []
    · left
      rw [empty]
      exact inBack
    · exact .inr ⟨front, back, rfl, empty, backNonempty, inFront, mem_kstar_of_mem inBack⟩
  · rintro (inLanguage | ⟨front, back, rfl, -, -, inFront, inBack⟩)
    · exact mem_kstar_of_mem inLanguage
    · exact append_mem_kstar inFront inBack

end StdPrograms.Foundation

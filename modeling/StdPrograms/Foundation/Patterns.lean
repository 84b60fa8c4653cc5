import Mathlib.Computability.Language

/-!
Contract: patterns of characters and repeated characters.

Owns the language of such a pattern, and which words are in it by their first character.

Does not own any spelling of patterns.
-/

namespace StdPrograms.Foundation

/-- One character that fits, or any number of them. -/
inductive Item (γ : Type) where
  | one (c : γ)
  | star (c : γ)

namespace Item

variable {α γ : Type} (fits : γ → α → Prop)

/-- The words of one character that fits. -/
def single (c : γ) : Language α := {word | ∃ d, fits c d ∧ word = [d]}

def language : Item γ → Language α
  | one c => single fits c
  | star c => KStar.kstar (single fits c)

/-- The items one after the other. -/
def all (items : List (Item γ)) : Language α := (items.map (language fits)).prod

variable {fits} {c : γ} {rest : List (Item γ)} {d : α} {word : List α}

theorem mem_all_nil : word ∈ all fits ([] : List (Item γ)) ↔ word = [] := Iff.rfl

theorem cons_mem_single_mul {tail : Language α} :
    d :: word ∈ single fits c * tail ↔ fits c d ∧ word ∈ tail := by
  rw [Language.mem_mul]
  constructor
  · rintro ⟨front, ⟨first, fit, rfl⟩, behind, inTail, same⟩
    obtain ⟨rfl, rfl⟩ := List.cons.inj same
    exact ⟨fit, inTail⟩
  · rintro ⟨fit, inTail⟩
    exact ⟨[d], ⟨d, fit, rfl⟩, word, inTail, rfl⟩

theorem nil_notMem_single_mul {tail : Language α} : [] ∉ single fits c * tail := by
  rw [Language.mem_mul]
  rintro ⟨front, ⟨first, -, rfl⟩, behind, -, same⟩
  cases same

theorem cons_mem_all_one :
    d :: word ∈ all fits (one c :: rest) ↔ fits c d ∧ word ∈ all fits rest := by
  rw [all, List.map_cons, List.prod_cons]
  exact cons_mem_single_mul

theorem nil_notMem_all_one : [] ∉ all fits (one c :: rest) := by
  rw [all, List.map_cons, List.prod_cons]
  exact nil_notMem_single_mul

theorem all_star :
    all fits (star c :: rest) = all fits rest + single fits c * all fits (star c :: rest) := by
  change KStar.kstar (single fits c) * all fits rest =
    all fits rest + single fits c * (KStar.kstar (single fits c) * all fits rest)
  calc
    KStar.kstar (single fits c) * all fits rest =
        (1 + single fits c * KStar.kstar (single fits c)) * all fits rest := by
      rw [Language.one_add_self_mul_kstar_eq_kstar]
    _ = all fits rest + single fits c * (KStar.kstar (single fits c) * all fits rest) := by
      rw [add_mul, one_mul, mul_assoc]

theorem mem_all_star :
    word ∈ all fits (star c :: rest) ↔
      word ∈ all fits rest ∨ word ∈ single fits c * all fits (star c :: rest) := by
  rw [← Language.mem_add, ← all_star]

/-- The first character is left to the rest or fits. -/
theorem cons_mem_all_star :
    d :: word ∈ all fits (star c :: rest) ↔
      d :: word ∈ all fits rest ∨ fits c d ∧ word ∈ all fits (star c :: rest) := by
  rw [mem_all_star, cons_mem_single_mul]

theorem nil_mem_all_star : [] ∈ all fits (star c :: rest) ↔ [] ∈ all fits rest := by
  rw [mem_all_star, or_iff_left nil_notMem_single_mul]

end Item

end StdPrograms.Foundation

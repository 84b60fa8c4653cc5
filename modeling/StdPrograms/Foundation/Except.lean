import Mathlib.Logic.Basic

/-!
Contract: computations that may raise.

Owns the inversion of a sequence of two such computations, and of a result that is
changed. Does not own any exception type.
-/

namespace StdPrograms.Foundation

/-- A computation in two parts returns exactly when both parts do. -/
theorem exceptBind_eq_ok {ε α β : Type} {first : Except ε α} {next : α → Except ε β}
    {result : β} :
    (first >>= next) = .ok result ↔ ∃ value, first = .ok value ∧ next value = .ok result := by
  cases first with
  | error error =>
      refine ⟨fun failed => (nomatch failed), ?_⟩
      rintro ⟨value, failed, -⟩
      cases failed
  | ok value =>
      constructor
      · exact fun returned => ⟨value, rfl, returned⟩
      · rintro ⟨_, same, returned⟩
        cases same
        exact returned

theorem exceptMap_eq_ok {ε α β : Type} {first : Except ε α} {change : α → β} {result : β} :
    first.map change = .ok result ↔ ∃ value, first = .ok value ∧ change value = result := by
  cases first with
  | error error => simp [Except.map]
  | ok value => simp [Except.map]

end StdPrograms.Foundation

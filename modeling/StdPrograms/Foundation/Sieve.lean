import Mathlib.Data.Nat.Prime.Basic

/-!
Contract: sieving by squares.

Owns the numbers that the multiples from the squares on have crossed out, when these are all that
are not prime, and the numbers of a progression.

Does not own where a mark is stored.
-/

namespace StdPrograms.Foundation

/-- Some number below `bound` crosses out its multiples from its square on, this one too. -/
def CrossedOut (bound number : Nat) : Prop :=
  ∃ divisor, 2 ≤ divisor ∧ divisor < bound ∧ divisor * divisor ≤ number ∧ divisor ∣ number

variable {bound number : Nat}

theorem not_crossedOut_two : ¬CrossedOut 2 number := by
  rintro ⟨divisor, atLeast, below, -, -⟩
  omega

theorem crossedOut_succ (atLeast : 2 ≤ bound) :
    CrossedOut (bound + 1) number ↔
      CrossedOut bound number ∨ bound * bound ≤ number ∧ bound ∣ number := by
  constructor
  · rintro ⟨divisor, two, below, square, divides⟩
    rcases Nat.lt_or_eq_of_le (Nat.le_of_lt_succ below) with before | rfl
    · exact .inl ⟨divisor, two, before, square, divides⟩
    · exact .inr ⟨square, divides⟩
  · rintro (⟨divisor, two, below, square, divides⟩ | ⟨square, divides⟩)
    · exact ⟨divisor, two, Nat.lt_succ_of_lt below, square, divides⟩
    · exact ⟨bound, atLeast, Nat.lt_succ_self bound, square, divides⟩

/-- A number that is crossed out has nothing to cross out. -/
theorem crossedOut_succ_of_crossedOut (crossed : CrossedOut bound bound) :
    CrossedOut (bound + 1) number ↔ CrossedOut bound number := by
  obtain ⟨divisor, two, below, square, divides⟩ := crossed
  rw [crossedOut_succ (by omega)]
  refine or_iff_left_of_imp fun ⟨larger, multiple⟩ => ?_
  refine ⟨divisor, two, below, ?_, divides.trans multiple⟩
  exact square.trans ((Nat.le_mul_self bound).trans larger)

/-- Below the square of the bound the primes are left. -/
theorem not_crossedOut_iff_prime (atLeast : 2 ≤ number) (below : number < bound * bound) :
    ¬CrossedOut bound number ↔ number.Prime := by
  rw [Nat.prime_def_le_sqrt]
  constructor
  · intro left_
    refine ⟨atLeast, fun divisor two small divides => left_ ⟨divisor, two, ?_, ?_, divides⟩⟩
    · by_contra large
      have square := Nat.mul_le_mul (Nat.le_of_not_lt large) (Nat.le_of_not_lt large)
      exact absurd (square.trans (Nat.le_sqrt.mp small)) (Nat.not_le_of_lt below)
    · exact Nat.le_sqrt.mp small
  · rintro ⟨-, noDivisor⟩ ⟨divisor, two, -, square, divides⟩
    exact noDivisor divisor two (Nat.le_sqrt.mpr square) divides

/-- Whether a number is crossed out at its own turn. -/
theorem not_crossedOut_self_iff (atLeast : 2 ≤ bound) : ¬CrossedOut bound bound ↔ bound.Prime :=
  not_crossedOut_iff_prime atLeast (Nat.lt_mul_self_iff.mpr atLeast)

/-! ### Progressions -/

/-- The numbers of a progression are its first one and those of the rest. -/
theorem progression_iff {start step : Nat} :
    start ≤ number ∧ step ∣ number - start ↔
      number = start ∨ start + step ≤ number ∧ step ∣ number - (start + step) := by
  constructor
  · rintro ⟨from_, rounds, difference⟩
    cases rounds with
    | zero => exact .inl (by omega)
    | succ rounds =>
        rw [Nat.mul_succ] at difference
        exact .inr ⟨by omega, rounds, by omega⟩
  · rintro (rfl | ⟨from_, rounds, difference⟩)
    · exact ⟨Nat.le_refl number, by simp⟩
    · exact ⟨by omega, rounds + 1, by rw [Nat.mul_succ]; omega⟩

/-- The progression from the square on consists of multiples. -/
theorem square_progression_iff {step : Nat} :
    step * step ≤ number ∧ step ∣ number - step * step ↔ step * step ≤ number ∧ step ∣ number := by
  refine and_congr_right fun from_ => ?_
  rw [Nat.dvd_sub_iff_left from_ (Nat.dvd_mul_right step step)]

end StdPrograms.Foundation

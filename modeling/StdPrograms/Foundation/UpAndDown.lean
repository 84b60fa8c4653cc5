import Mathlib.Data.List.Basic
import Mathlib.Logic.Function.Iterate

/-!
Contract: a walk up and down between zero and a top.

Owns the walk step by step, the place after so many steps, and when a place is come to again.

Does not own what is left at the places.
-/

namespace StdPrograms.Foundation

structure Walker where
  place : Nat
  rising : Bool

/-- One place further; the direction changes at both ends. -/
def Walker.step (top : Nat) (walker : Walker) : Walker :=
  let rising :=
    if walker.place = top then false else if walker.place = 0 then true else walker.rising
  ⟨if rising then walker.place + 1 else walker.place - 1, rising⟩

theorem Walker.step_place_le {top : Nat} (walker : Walker) (inside : walker.place ≤ top) :
    (walker.step top).place ≤ top := by
  rw [step]
  dsimp only
  by_cases atTop : walker.place = top
  · simp [atTop]
  · rw [if_neg atTop]
    have up := Nat.succ_le_of_lt (Nat.lt_of_le_of_ne inside atTop)
    have down := Nat.le_trans (Nat.sub_le walker.place 1) inside
    split <;> split <;> assumption

/-- The place after so many steps from zero. -/
def placeAt (top steps : Nat) : Nat :=
  if steps / top % 2 = 0 then steps % top else top - steps % top

/-- The steps after which the walk is at the same place again. -/
def again (top steps : Nat) : Nat := steps + 2 * (top - steps % top)

variable {top : Nat}

theorem stretch_div (stretch : Nat) {further : Nat} (inside : further < top) :
    (stretch * top + further) / top = stretch := by
  rw [Nat.add_comm, Nat.add_mul_div_right _ _ (Nat.zero_lt_of_lt inside),
    Nat.div_eq_of_lt inside, Nat.zero_add]

theorem stretch_mod (stretch : Nat) {further : Nat} (inside : further < top) :
    (stretch * top + further) % top = further := by
  rw [Nat.mul_add_mod_self_right, Nat.mod_eq_of_lt inside]

/-- A stretch is the way from one end to the other one. -/
theorem placeAt_stretch (stretch : Nat) {further : Nat} (inside : further < top) :
    placeAt top (stretch * top + further) =
      if stretch % 2 = 0 then further else top - further := by
  rw [placeAt, stretch_div stretch inside, stretch_mod stretch inside]

theorem again_stretch (stretch : Nat) {further : Nat} (inside : further < top) :
    again top (stretch * top + further) = (stretch + 1) * top + (top - further) := by
  rw [again, stretch_mod stretch inside, Nat.add_mul]
  omega

theorem exists_stretch (positive : 0 < top) (steps : Nat) :
    ∃ stretch further, further < top ∧ steps = stretch * top + further :=
  ⟨steps / top, steps % top, Nat.mod_lt steps positive, (Nat.div_add_mod' steps top).symm⟩

theorem placeAt_le (positive : 0 < top) (steps : Nat) : placeAt top steps ≤ top := by
  obtain ⟨stretch, further, inside, rfl⟩ := exists_stretch positive steps
  rw [placeAt_stretch stretch inside]
  split
  next up => exact Nat.le_of_lt inside
  next down => exact Nat.sub_le top further

theorem placeAt_le_self (positive : 0 < top) (steps : Nat) : placeAt top steps ≤ steps := by
  obtain ⟨stretch, further, inside, rfl⟩ := exists_stretch positive steps
  rw [placeAt_stretch stretch inside]
  split
  next up => exact Nat.le_add_left further _
  next down =>
    have once := Nat.mul_le_mul_right top (show 1 ≤ stretch by omega)
    omega

theorem placeAt_of_le (positive : 0 < top) {steps : Nat} (inside : steps ≤ top) :
    placeAt top steps = steps := by
  rcases Nat.lt_or_eq_of_le inside with below | rfl
  · have first := placeAt_stretch 0 below
    rwa [Nat.zero_mul, Nat.zero_add] at first
  · have second := placeAt_stretch 1 positive
    rwa [Nat.one_mul, Nat.add_zero] at second

/-! ### The walk -/

/-- Where a walker is and, between the ends, in which direction. -/
structure Walker.After (top steps : Nat) (walker : Walker) : Prop where
  place : walker.place = placeAt top steps
  rising : steps % top ≠ 0 → (walker.rising = true ↔ steps / top % 2 = 0)

/-- The next step goes up on every other stretch. -/
theorem Walker.After.step_rising {stretch further : Nat} (inside : further < top) {walker : Walker}
    (after : walker.After top (stretch * top + further)) :
    (walker.step top).rising = true ↔ stretch % 2 = 0 := by
  obtain ⟨place, rising⟩ := after
  rw [placeAt_stretch stretch inside] at place
  rw [stretch_mod stretch inside, stretch_div stretch inside] at rising
  rw [Walker.step]
  dsimp only
  rcases Nat.mod_two_eq_zero_or_one stretch with up | down
  · rw [if_pos up] at place
    rw [place, if_neg (Nat.ne_of_lt inside)]
    by_cases first : further = 0
    · simp [first, up]
    · rw [if_neg first]
      exact rising first
  · rw [if_neg (by omega)] at place
    rw [place]
    by_cases first : further = 0
    · simp [first, down]
    · rw [if_neg (by omega), if_neg (by omega)]
      exact rising first

theorem Walker.After.step (positive : 0 < top) {steps : Nat} {walker : Walker}
    (after : walker.After top steps) : (walker.step top).After top (steps + 1) := by
  obtain ⟨stretch, further, inside, rfl⟩ := exists_stretch positive steps
  have rising := after.step_rising inside
  have place : (walker.step top).place =
      if stretch % 2 = 0 then further + 1 else top - further - 1 := by
    change (if (walker.step top).rising = true then walker.place + 1 else walker.place - 1) = _
    simp only [rising, after.place, placeAt_stretch stretch inside]
    split
    next up => rfl
    next down => rfl
  rw [Nat.add_assoc]
  rcases Nat.lt_or_eq_of_le (Nat.succ_le_of_lt inside) with below | last
  · refine ⟨?_, fun _ => ?_⟩
    · rw [place, placeAt_stretch stretch below, Nat.sub_sub]
    · rw [rising, stretch_div stretch below]
  · -- the end is the start of the next stretch
    have next := placeAt_stretch (stretch + 1) positive
    rw [Nat.add_zero, Nat.succ_mul] at next
    rw [show further + 1 = top from last]
    refine ⟨?_, fun inner => absurd (by simp) inner⟩
    rw [place, next]
    split <;> split <;> omega

/-! ### Coming again -/

theorem lt_again (positive : 0 < top) (steps : Nat) : steps < again top steps := by
  have inside := Nat.mod_lt steps positive
  rw [again]
  omega

theorem placeAt_again (positive : 0 < top) (steps : Nat) :
    placeAt top (again top steps) = placeAt top steps := by
  obtain ⟨stretch, further, inside, rfl⟩ := exists_stretch positive steps
  rw [again_stretch stretch inside, placeAt_stretch stretch inside]
  rcases Nat.eq_zero_or_pos further with rfl | moved
  · have twice := placeAt_stretch (stretch + 2) positive
    rw [Nat.add_zero, Nat.add_mod_right, show (stretch + 2) * top = (stretch + 1) * top + top from
      Nat.succ_mul (stretch + 1) top] at twice
    exact twice
  · rw [placeAt_stretch (stretch + 1) (by omega)]
    split <;> split <;> omega

/-- In between the walk is elsewhere. -/
theorem placeAt_ne (positive : 0 < top) {steps between : Nat} (later : steps < between)
    (earlier : between < again top steps) : placeAt top between ≠ placeAt top steps := by
  obtain ⟨stretch, further, inside, rfl⟩ := exists_stretch positive steps
  obtain ⟨other, moved, otherInside, rfl⟩ := exists_stretch positive between
  rw [again_stretch stretch inside] at earlier
  rw [placeAt_stretch stretch inside, placeAt_stretch other otherInside]
  have notBefore : stretch ≤ other := by
    by_contra before
    have atMost := Nat.mul_le_mul_right top (Nat.succ_le_of_lt (Nat.lt_of_not_le before))
    rw [Nat.succ_mul] at atMost
    omega
  have notBehind : other ≤ stretch + 1 := by
    by_contra behind
    have atLeast := Nat.mul_le_mul_right top (Nat.succ_le_of_lt (Nat.lt_of_not_le behind))
    rw [Nat.succ_mul] at atLeast
    omega
  rcases Nat.lt_or_eq_of_le notBefore with next | rfl
  · obtain rfl : other = stretch + 1 := by omega
    split <;> split <;> omega
  · split <;> omega

end StdPrograms.Foundation

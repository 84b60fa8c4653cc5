import Mathlib.Data.Nat.ModEq
import Mathlib.Data.Fintype.EquivFin

/-!
Contract: steps of one length around a circle of positions.

Owns the positions that such steps come to, lap after lap with one position further at each new
lap, and that every position is reached exactly once.

Does not own what is stored at the positions.
-/

namespace StdPrograms.Foundation

variable {n k : Nat}

/-- The steps until the position where a lap began. -/
def lap (n k : Nat) : Nat := n / n.gcd k

/-- The position after so many steps; each lap begins one position after the one before. -/
def place (n k i : Nat) : Nat := (i / lap n k + (i % lap n k + 1) * k) % n

theorem lap_pos (positive : 0 < n) : 0 < lap n k :=
  Nat.div_pos (Nat.le_of_dvd positive (Nat.gcd_dvd_left n k)) (Nat.gcd_pos_of_pos_left k positive)

theorem lap_mul_gcd (n k : Nat) : lap n k * n.gcd k = n :=
  Nat.div_mul_cancel (Nat.gcd_dvd_left n k)

theorem div_lap_lt {i : Nat} (inside : i < n) : i / lap n k < n.gcd k := by
  rw [Nat.div_lt_iff_lt_mul (lap_pos (Nat.zero_lt_of_lt inside)), Nat.mul_comm, lap_mul_gcd]
  exact inside

theorem place_lt (positive : 0 < n) (i : Nat) : place n k i < n := Nat.mod_lt _ positive

/-- A whole lap leads back. -/
theorem lap_mul_modEq (n k : Nat) : lap n k * k ≡ 0 [MOD n] := by
  have whole : lap n k * k = n * (k / n.gcd k) := by
    rw [lap, Nat.div_mul_right_comm (Nat.gcd_dvd_left n k), Nat.mul_div_assoc n
      (Nat.gcd_dvd_right n k)]
  rw [whole]
  exact (Nat.modEq_zero_iff_dvd.mpr (Nat.dvd_mul_right n _))

/-- The last step of a lap. -/
theorem place_of_last {i : Nat} (inside : i < n) (last : i % lap n k + 1 = lap n k) :
    place n k i = i / lap n k := by
  have first : i / lap n k < n :=
    Nat.lt_of_lt_of_le (div_lap_lt inside) (Nat.gcd_le_left k (Nat.zero_lt_of_lt inside))
  have back : i / lap n k + lap n k * k ≡ i / lap n k [MOD n] :=
    (lap_mul_modEq n k).add_left (i / lap n k)
  rw [place, last]
  exact Nat.mod_eq_of_modEq back first

/-- Steps do not change the remainder by the common divisor. -/
theorem place_modEq (n k i : Nat) : place n k i ≡ i / lap n k [MOD n.gcd k] := by
  have whole : place n k i ≡ i / lap n k + (i % lap n k + 1) * k [MOD n.gcd k] :=
    (Nat.mod_modEq _ n).of_dvd (Nat.gcd_dvd_left n k)
  have dropped : (i % lap n k + 1) * k ≡ 0 [MOD n.gcd k] :=
    Nat.modEq_zero_iff_dvd.mpr ((Nat.gcd_dvd_right n k).mul_left _)
  exact whole.trans (dropped.add_left (i / lap n k))

/-- Steps that lead to the same place in a lap are as many. -/
theorem steps_modEq (positive : 0 < n) {left right : Nat}
    (same : left * k ≡ right * k [MOD n]) : left ≡ right [MOD lap n k] :=
  same.cancel_right_div_gcd positive

theorem div_lap_eq {i first : Nat} (inside : i < n) (firstBelow : first < n.gcd k)
    (same : place n k i ≡ first [MOD n.gcd k]) : i / lap n k = first :=
  ((place_modEq n k i).symm.trans same).eq_of_lt_of_lt (div_lap_lt inside) firstBelow

theorem place_injOn {i j : Nat} (iInside : i < n) (jInside : j < n)
    (same : place n k i = place n k j) : i = j := by
  have positive := Nat.zero_lt_of_lt iInside
  have sameLap : i / lap n k = j / lap n k :=
    div_lap_eq iInside (div_lap_lt jInside) (same ▸ place_modEq n k j)
  have congruent : i / lap n k + (i % lap n k + 1) * k ≡
      j / lap n k + (j % lap n k + 1) * k [MOD n] := same
  rw [sameLap] at congruent
  have sameStep : i % lap n k = j % lap n k :=
    ((steps_modEq positive (congruent.add_left_cancel' _)).add_right_cancel' 1).eq_of_lt_of_lt
      (Nat.mod_lt i (lap_pos positive)) (Nat.mod_lt j (lap_pos positive))
  rw [← Nat.div_add_mod i (lap n k), ← Nat.div_add_mod j (lap n k), sameLap, sameStep]

theorem exists_place {position : Nat} (inside : position < n) :
    ∃ i < n, place n k i = position := by
  have positive := Nat.zero_lt_of_lt inside
  let places : Fin n → Fin n := fun i => ⟨place n k i, place_lt positive i⟩
  have injective : Function.Injective places := fun i j same =>
    Fin.ext (place_injOn i.isLt j.isLt (Fin.mk.inj same))
  obtain ⟨i, isPlace⟩ := Finite.surjective_of_injective injective ⟨position, inside⟩
  exact ⟨i, i.isLt, Fin.mk.inj isPlace⟩

/-! ### The next step -/

theorem succ_in_lap {i : Nat} (more : i % lap n k + 1 < lap n k) :
    (i + 1) / lap n k = i / lap n k ∧ (i + 1) % lap n k = i % lap n k + 1 := by
  have nextStep : (i + 1) % lap n k = i % lap n k + 1 := by
    rw [Nat.add_mod, Nat.mod_eq_of_lt (by omega : 1 < lap n k), Nat.mod_eq_of_lt more]
  refine ⟨?_, nextStep⟩
  rw [Nat.succ_div, if_neg, Nat.add_zero]
  intro divides
  have zero := Nat.mod_eq_zero_of_dvd divides
  omega

theorem succ_of_last {i : Nat} (last : i % lap n k + 1 = lap n k) :
    (i + 1) / lap n k = i / lap n k + 1 ∧ (i + 1) % lap n k = 0 := by
  have divides : lap n k ∣ i + 1 := by
    refine ⟨i / lap n k + 1, ?_⟩
    rw [Nat.mul_add, Nat.mul_one]
    have division := Nat.div_add_mod i (lap n k)
    omega
  refine ⟨?_, Nat.mod_eq_zero_of_dvd divides⟩
  rw [Nat.succ_div, if_pos divides]

/-- Each step adds the length. -/
theorem place_succ {i : Nat} (more : i % lap n k + 1 < lap n k) :
    place n k (i + 1) = (place n k i + k) % n := by
  obtain ⟨sameLap, nextStep⟩ := succ_in_lap more
  rw [place, place, sameLap, nextStep, Nat.mod_add_mod, Nat.add_mul (i % lap n k + 1) 1 k,
    Nat.one_mul, Nat.add_assoc]

/-- The position where a lap began is reached by its last step only. -/
theorem place_ne_first {i : Nat} (inside : i < n) (more : i % lap n k + 1 < lap n k) :
    place n k i ≠ i / lap n k := by
  intro same
  have back : i / lap n k + (i % lap n k + 1) * k ≡ i / lap n k + 0 * k [MOD n] := by
    rw [Nat.zero_mul, Nat.add_zero]
    nth_rewrite 2 [← same]
    exact (Nat.mod_modEq _ n).symm
  have zero := steps_modEq (Nat.zero_lt_of_lt inside) (back.add_left_cancel' _)
  have none := zero.eq_of_lt_of_lt more (by omega)
  omega

/-- No earlier step leads to the position where the lap began. -/
theorem place_ne_of_lt {i j : Nat} (inside : i < n) (earlier : j < i) :
    place n k j ≠ i / lap n k := by
  intro same
  have jInside := Nat.lt_trans earlier inside
  have sameLap : j / lap n k = i / lap n k :=
    div_lap_eq jInside (div_lap_lt inside) (same ▸ Nat.ModEq.refl _)
  have below := Nat.mod_lt j (@lap_pos n k (Nat.zero_lt_of_lt inside))
  rcases Nat.lt_or_eq_of_le (Nat.succ_le_of_lt below) with more | last
  · exact place_ne_first jInside more (same.trans sameLap.symm)
  · have jSteps := Nat.div_add_mod j (lap n k)
    have iSteps := Nat.div_add_mod i (lap n k)
    have iBelow := Nat.mod_lt i (@lap_pos n k (Nat.zero_lt_of_lt inside))
    rw [sameLap] at jSteps
    omega

end StdPrograms.Foundation

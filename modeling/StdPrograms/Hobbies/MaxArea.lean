import Mathlib.Algebra.Order.Group.Int
import Mathlib.Order.Bounds.Defs
import StdPrograms.Foundation.CountedLoop

/-!
Contract: the container with most water.

Owns `maxArea` of `solution_11.cpp` and that it returns the greatest area between two lines
exactly where no area leaves the type.

Does not own lines below zero.
-/

namespace StdPrograms.Hobbies

open StdPrograms.Foundation

namespace MaxArea

def areaLoop (height : List Int) : Nat → Int → Nat → Nat → Option Int
  | 0, _, _, _ => none
  | fuel + 1, max_area, i, j =>
      if i < j then do
        let left ← height[i]?
        let right ← height[j]?
        let h := min left right
        let area ← signed 32 (((j - i : Nat) : Int) * h)
        let max_area := if area > max_area then area else max_area
        let i ← passUp (· ≤ h) height j i
        let j ← passDown (· ≤ h) height i j
        areaLoop height fuel max_area i j
      else some max_area

/-- Where the last index is negative, there is no round. -/
def maxArea (fuel : Nat) (height : List Int) : Option Int := do
  let j ← signed 32 (converted 32 height.length - 1)
  areaLoop height fuel 0 0 j.toNat

/-! ### Areas -/

/-- The areas between two lines. -/
def areas (height : List Int) : Set Int :=
  {area | ∃ i j left right, i < j ∧ height[i]? = some left ∧ height[j]? = some right ∧
    area = ((j - i : Nat) : Int) * min left right}

/-- What is known of the areas while the lines from `i` to `j` are left. -/
structure Best (height : List Int) (i j : Nat) (max_area : Int) : Prop where
  reached : max_area = 0 ∨ max_area ∈ areas height
  outside : ∀ p q left right, p < q → height[p]? = some left → height[q]? = some right →
    (p < i ∨ j < q) → ((q - p : Nat) : Int) * min left right ≤ max_area

section

variable {height : List Int} {i j : Nat} {max_area : Int}

theorem Best.update (best : Best height i j max_area) {area : Int} (member : area ∈ areas height) :
    Best height i j (if area > max_area then area else max_area) := by
  split
  next greater =>
    refine ⟨Or.inr member, fun p q left right ordered leftIs rightIs out => ?_⟩
    exact le_trans (best.outside p q left right ordered leftIs rightIs out) greater.le
  next => exact best

/-- Lines that are not higher than the level may be passed: any other area is narrower. -/
theorem Best.narrow (best : Best height i j max_area) {h : Int} (nonneg : 0 ≤ h)
    (covers : ((j - i : Nat) : Int) * h ≤ max_area) {i' j' : Nat}
    (low : ∀ place, i ≤ place → place < i' → ∀ line, height[place]? = some line → line ≤ h)
    (high : ∀ place, j' < place → place ≤ j → ∀ line, height[place]? = some line → line ≤ h) :
    Best height i' j' max_area := by
  refine ⟨best.reached, fun p q left right ordered leftIs rightIs out => ?_⟩
  by_cases before : p < i ∨ j < q
  · exact best.outside p q left right ordered leftIs rightIs before
  · obtain ⟨notBefore, notBehind⟩ := not_or.mp before
    have lower : min left right ≤ h := by
      rcases out with passedUp | passedDown
      · exact le_trans (min_le_left left right) (low p (by omega) passedUp left leftIs)
      · exact le_trans (min_le_right left right) (high q passedDown (by omega) right rightIs)
    have narrower : ((q - p : Nat) : Int) ≤ ((j - i : Nat) : Int) :=
      Int.ofNat_le.mpr (by omega)
    calc
      ((q - p : Nat) : Int) * min left right ≤ ((q - p : Nat) : Int) * h :=
        mul_le_mul_of_nonneg_left lower (Int.natCast_nonneg _)
      _ ≤ ((j - i : Nat) : Int) * h := mul_le_mul_of_nonneg_right narrower nonneg
      _ ≤ max_area := covers

/-- A round passes the lower line, or the area between the lines leaves the type. -/
theorem areaLoop_round (nonneg : ∀ line ∈ height, 0 ≤ line) (best : Best height i j max_area)
    (inType : max_area < 2 ^ 31) (less : i < j) (jInside : j < height.length) :
    (∃ i' j' larger, j' - i' < j - i ∧ j' ≤ j ∧ Best height i' j' larger ∧ larger < 2 ^ 31 ∧
      0 ≤ larger ∧
      ∀ fuel, areaLoop height (fuel + 1) max_area i j = areaLoop height fuel larger i' j') ∨
    (∃ area ∈ areas height, 2 ^ 31 ≤ area) ∧
      ∀ fuel, areaLoop height (fuel + 1) max_area i j = none := by
  have leftIs := List.getElem?_eq_getElem (show i < height.length by omega)
  have rightIs := List.getElem?_eq_getElem jInside
  have leftNonneg := nonneg _ (List.getElem_mem (show i < height.length by omega))
  have rightNonneg := nonneg _ (List.getElem_mem jInside)
  generalize height[i] = left at leftIs leftNonneg
  generalize height[j] = right at rightIs rightNonneg
  have member : ((j - i : Nat) : Int) * min left right ∈ areas height :=
    ⟨i, j, left, right, less, leftIs, rightIs, rfl⟩
  have hNonneg : 0 ≤ min left right := le_min leftNonneg rightNonneg
  have areaNonneg := mul_nonneg (Int.natCast_nonneg (j - i)) hNonneg
  have leftOrRight : left ≤ min left right ∨ right ≤ min left right := by
    rcases le_total left right with smaller | smaller
    · exact Or.inl (le_min (le_refl left) smaller)
    · exact Or.inr (le_min smaller (le_refl right))
  have unfolded (fuel : Nat) : areaLoop height (fuel + 1) max_area i j =
      (signed 32 (((j - i : Nat) : Int) * min left right)).bind fun area =>
        (passUp (fun line => decide (line ≤ min left right)) height j i).bind fun i' =>
          (passDown (fun line => decide (line ≤ min left right)) height i' j).bind fun j' =>
            areaLoop height fuel (if area > max_area then area else max_area) i' j' := by
    rw [areaLoop, if_pos less, leftIs, rightIs]
    rfl
  simp only [unfolded]
  generalize min left right = h at *
  generalize areaIs : ((j - i : Nat) : Int) * h = area at *
  by_cases fits : area < 2 ^ 31
  · have held : InSigned 32 area := by
      constructor
      · norm_num
        omega
      · exact fits
    obtain ⟨i', upIs, iAbove, iBelow, iPassed, iStops⟩ :=
      @passUp_spec Int (fun line => decide (line ≤ h)) height i j jInside less.le
    obtain ⟨j', downIs, jAbove, jBelow, jPassed, jStops⟩ :=
      @passDown_spec Int (fun line => decide (line ≤ h)) height i' j jInside iBelow
    -- the lower line is passed
    have moved : j' - i' < j - i := by
      by_contra notMoved
      obtain ⟨rfl, rfl⟩ : i' = i ∧ j' = j := by omega
      have leftHigher := iStops less
      have rightHigher := jStops less
      rw [leftIs] at leftHigher
      rw [rightIs] at rightHigher
      simp only [Option.map_some, Option.some.injEq, decide_eq_false_iff_not]
        at leftHigher rightHigher
      exact leftOrRight.elim leftHigher rightHigher
    have covers : area ≤ if area > max_area then area else max_area := by
      split
      next => exact le_refl area
      next notGreater => exact not_lt.mp notGreater
    have narrowed : Best height i' j' (if area > max_area then area else max_area) := by
      refine (best.update member).narrow hNonneg (areaIs ▸ covers) ?_ ?_
      · intro place from_ until_ line lineIs
        simpa [lineIs] using iPassed place from_ until_
      · intro place from_ until_ line lineIs
        simpa [lineIs] using jPassed place from_ until_
    refine Or.inl ⟨i', j', _, moved, jBelow, narrowed, ?_, areaNonneg.trans covers, fun fuel => ?_⟩
    · split
      next => exact fits
      next => exact inType
    · rw [signed_of_inSigned held, Option.bind_some, upIs, Option.bind_some, downIs,
        Option.bind_some]
  · refine Or.inr ⟨⟨area, member, not_lt.mp fits⟩, fun fuel => ?_⟩
    rw [signed, if_neg fun held => fits held.2]
    rfl

/-- The loop ends with the greatest area, or an area leaves the type. -/
theorem areaLoop_spec (nonneg : ∀ line ∈ height, 0 ≤ line) {fuel : Nat}
    (best : Best height i j max_area) (inType : max_area < 2 ^ 31) (maxNonneg : 0 ≤ max_area)
    (inside : i < j → j < height.length) (enough : j - i < fuel) :
    (∃ result, areaLoop height fuel max_area i j = some result ∧ 0 ≤ result ∧ result < 2 ^ 31 ∧
      (result = 0 ∨ result ∈ areas height) ∧ ∀ area ∈ areas height, area ≤ result) ∨
    areaLoop height fuel max_area i j = none ∧ ∃ area ∈ areas height, 2 ^ 31 ≤ area := by
  induction fuel generalizing i j max_area with
  | zero => exact absurd enough (Nat.not_lt_zero _)
  | succ fuel inductionHypothesis =>
      by_cases less : i < j
      · rcases areaLoop_round nonneg best inType less (inside less) with
          ⟨i', j', larger, closer, notAbove, bestNext, largerInType, largerNonneg, goesOn⟩ |
          ⟨large, overflows⟩
        · rw [goesOn]
          exact inductionHypothesis bestNext largerInType largerNonneg
            (fun _ => Nat.lt_of_le_of_lt notAbove (inside less)) (by omega)
        · exact Or.inr ⟨overflows fuel, large⟩
      · rw [areaLoop, if_neg less]
        refine Or.inl ⟨max_area, rfl, maxNonneg, inType, best.reached, ?_⟩
        rintro area ⟨p, q, left, right, ordered, leftIs, rightIs, rfl⟩
        exact best.outside p q left right ordered leftIs rightIs (by omega)

theorem maxArea_greatest (nonneg : ∀ line ∈ height, 0 ≤ line) (counted : height.length < 2 ^ 31)
    {fuel : Nat} (enough : height.length < fuel) :
    ((∀ area ∈ areas height, area < 2 ^ 31) → ∃ result, maxArea fuel height = some result ∧
      (2 ≤ height.length → IsGreatest (areas height) result) ∧
      (height.length < 2 → result = 0)) ∧
    ((∃ area ∈ areas height, 2 ^ 31 ≤ area) → maxArea fuel height = none) := by
  have last : maxArea fuel height = areaLoop height fuel 0 0 (height.length - 1) := by
    have small : height.length < 2 ^ (32 - 1) := counted
    have held : InSigned 32 ((height.length : Int) - 1) := by
      constructor
      · norm_num
        omega
      · norm_num
        omega
    rw [maxArea, converted_natCast (Nat.zero_lt_succ 31) small, signed_of_inSigned held]
    dsimp only [Option.bind_eq_bind, Option.bind_some]
    rw [show ((height.length : Int) - 1).toNat = height.length - 1 by omega]
  have start : Best height 0 (height.length - 1) 0 := by
    refine ⟨Or.inl rfl, fun p q left right _ _ rightIs out => ?_⟩
    have inside := (List.getElem?_eq_some_iff.mp rightIs).1
    omega
  have areasNonneg : ∀ area ∈ areas height, 0 ≤ area := by
    rintro area ⟨p, q, left, right, -, leftIs, rightIs, rfl⟩
    exact mul_nonneg (Int.natCast_nonneg _) (le_min (nonneg left (List.mem_of_getElem? leftIs))
      (nonneg right (List.mem_of_getElem? rightIs)))
  rw [last]
  rcases areaLoop_spec nonneg start (by norm_num) (le_refl 0) (by omega)
    (show height.length - 1 - 0 < fuel by omega) with
    ⟨result, returned, resultNonneg, inType, reached, greatest⟩ | ⟨overflows, large⟩
  · refine ⟨fun _ => ⟨result, returned, fun two => ⟨?_, greatest⟩, fun few => ?_⟩, ?_⟩
    · -- with two lines there is an area, and none is below zero
      rcases reached with rfl | member
      · have member : ((1 - 0 : Nat) : Int) * min height[0] height[1] ∈ areas height :=
          ⟨0, 1, _, _, Nat.one_pos, List.getElem?_eq_getElem _, List.getElem?_eq_getElem _, rfl⟩
        exact le_antisymm (greatest _ member) (areasNonneg _ member) ▸ member
      · exact member
    · rcases reached with zero | ⟨p, q, left, right, ordered, -, rightIs, -⟩
      · exact zero
      · have inside := (List.getElem?_eq_some_iff.mp rightIs).1
        omega
    · rintro ⟨area, member, large⟩
      exact absurd (lt_of_le_of_lt (greatest area member) inType) (not_lt.mpr large)
  · refine ⟨fun fits => ?_, fun _ => overflows⟩
    obtain ⟨area, member, tooLarge⟩ := large
    exact absurd (fits area member) (not_lt.mpr tooLarge)

end

theorem maxArea_greatest_three :
    (∀ line ∈ ([10, 20, 15] : List Int), 0 ≤ line) ∧ ([10, 20, 15] : List Int).length < 2 ^ 31 ∧
      ((∀ area ∈ areas [10, 20, 15], area < 2 ^ 31) →
        ∃ result, maxArea 4 [10, 20, 15] = some result ∧
          (2 ≤ ([10, 20, 15] : List Int).length → IsGreatest (areas [10, 20, 15]) result) ∧
          (([10, 20, 15] : List Int).length < 2 → result = 0)) ∧
      ((∃ area ∈ areas [10, 20, 15], 2 ^ 31 ≤ area) → maxArea 4 [10, 20, 15] = none) :=
  ⟨by decide, by decide, maxArea_greatest (by decide) (by decide) (by decide)⟩

/-- Twice the greatest number leaves the type. -/
theorem maxArea_fails :
    (∀ line ∈ ([2 ^ 31 - 1, 0, 2 ^ 31 - 1] : List Int), 0 ≤ line) ∧
      ∀ fuel, maxArea fuel [2 ^ 31 - 1, 0, 2 ^ 31 - 1] = none := by
  refine ⟨by decide, fun fuel => ?_⟩
  cases fuel with
  | zero => rfl
  | succ fuel => rfl

end MaxArea

end StdPrograms.Hobbies

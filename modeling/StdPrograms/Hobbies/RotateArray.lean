import StdPrograms.Foundation.CountedLoop
import StdPrograms.Foundation.Exchange
import StdPrograms.Foundation.Laps
import StdPrograms.Foundation.SignedInt

/-!
Contract: two rotations of a vector in place.

Owns `rotate`, which reverses three times, and `gcd` and `rotate2`, which go around in laps, of
`solution_189.cpp`, and that both rotate, the second as long as the sum of an index and the step
fits an `int`.

Does not own a step that is negative.
-/

namespace StdPrograms.Hobbies

open StdPrograms.Foundation

namespace RotateArray

/-! ### `rotate` -/

/-- There is no element at a negative index. -/
def reverse : Nat → List Int → Int → Int → Option (List Int)
  | 0, _, _, _ => none
  | fuel + 1, nums, i, j =>
      if i < j then
        if i < 0 then none
        else do
          let nums ← exchange nums i.toNat j.toNat
          reverse fuel nums (i + 1) (j - 1)
      else some nums

def rotate (fuel : Nat) (nums : List Int) (k : Nat) : Option (List Int) :=
  let n := nums.length
  if n = 0 then some nums
  else
    let k := k % n
    if k = 0 then some nums
    else do
      let nums ← reverse fuel nums 0 (converted 32 ((n - k - 1 : Nat) : Int))
      let nums ← reverse fuel nums (converted 32 ((n - k : Nat) : Int))
        (converted 32 ((n - 1 : Nat) : Int))
      reverse fuel nums 0 (converted 32 ((n - 1 : Nat) : Int))

/-! ### `rotate2` -/

def gcd : Nat → Int → Int → Option Int
  | 0, _, _ => none
  | fuel + 1, m, n =>
      if m = 0 then some n
      else if m ≤ n then do
        let n ← signed 32 (n - m)
        gcd fuel m n
      else gcd fuel n m

/-- The vector, `j` and `r`. -/
structure Cursor where
  nums : List Int
  j : Nat
  r : Nat

/-- The body of the loop of `rotate2`; the temporary element is exchanged with one at `r`. -/
def turn (k period : Nat) (state : Cursor) (i : Nat) : Option Cursor := do
  let n := state.nums.length
  let r := if n ≤ state.r then state.r - n else state.r
  let nums ← exchange state.nums r state.j
  let i ← position 32 (i + 1)
  let r ← position 32 (r + k)
  if i % period = 0 then
    let r ← position 32 (r + 1)
    let j ← position 32 (state.j + 1)
    return ⟨nums, j, r⟩
  else return ⟨nums, state.j, r⟩

/-- There is no result when the number of steps in a cycle is not positive. -/
def rotate2 (fuel : Nat) (nums : List Int) (k : Nat) : Option (List Int) :=
  let n := nums.length
  if n = 0 then some nums
  else do
    let k := k % n
    let cycles ← gcd fuel k (converted 32 n)
    if cycles = n then return nums
    else if cycles ≤ 0 ∨ n < cycles.toNat then none
    else
      let state ← forLoop 0 n (turn k (n / cycles.toNat)) ⟨nums, 0, k⟩
      return state.nums

/-- The vector with each element `k` positions further, around its end. -/
def Rotated (nums : List Int) (k : Nat) (after : List Int) : Prop :=
  after.length = nums.length ∧
    ∀ i < nums.length, after[(i + k) % nums.length]? = nums[i]?

/-! ### Correctness of `rotate` -/

section

variable {nums : List Int} {fuel : Nat}

/-- Where the element at a position was before the reversal. -/
def mirrored (i j position : Nat) : Nat :=
  if i ≤ position ∧ position ≤ j then i + j - position else position

theorem mirrored_inner {i j : Nat} (ordered : i < j) (position : Nat) :
    Equiv.swap i j (mirrored (i + 1) (j - 1) position) = mirrored i j position := by
  by_cases isLeft : position = i
  · subst isLeft
    rw [mirrored, if_neg (by omega), Equiv.swap_apply_left, mirrored, if_pos (by omega)]
    omega
  by_cases isRight : position = j
  · subst isRight
    rw [mirrored, if_neg (by omega), Equiv.swap_apply_right, mirrored, if_pos (by omega)]
    omega
  have kept : mirrored (i + 1) (j - 1) position = mirrored i j position := by
    unfold mirrored
    split_ifs <;> omega
  rw [kept]
  apply Equiv.swap_apply_of_ne_of_ne
  · unfold mirrored
    split_ifs <;> omega
  · unfold mirrored
    split_ifs <;> omega

theorem reverse_spec {i j : Nat} (inside : j < nums.length) (enough : j - i < fuel) :
    ∃ after, reverse fuel nums i j = some after ∧ after.length = nums.length ∧
      ∀ position, after[position]? = nums[mirrored i j position]? := by
  induction fuel generalizing nums i j with
  | zero => omega
  | succ fuel inductionHypothesis =>
      by_cases ordered : i < j
      · obtain ⟨swapped, swappedIs, permutation, entries⟩ :=
          @exchange_spec _ nums i j (by omega) inside
        have length := permutation.length_eq
        obtain ⟨after, afterIs, afterLength, mirror⟩ :=
          @inductionHypothesis swapped (i + 1) (j - 1) (by omega) (by omega)
        refine ⟨after, ?_, afterLength.trans length, fun position => ?_⟩
        · have leftNext : ((i : Int) + 1) = ((i + 1 : Nat) : Int) := rfl
          have rightNext : ((j : Int) - 1) = ((j - 1 : Nat) : Int) := by omega
          rw [reverse, if_pos (by omega), if_neg (by omega), Int.toNat_natCast,
            Int.toNat_natCast, swappedIs, leftNext, rightNext]
          exact afterIs
        · rw [mirror, entries, mirrored_inner ordered]
      · refine ⟨nums, ?_, rfl, fun position => ?_⟩
        · rw [reverse, if_neg (by omega)]
        · have kept : mirrored i j position = position := by
            unfold mirrored
            split_ifs <;> omega
          rw [kept]

theorem rotated_mod {k : Nat} {after : List Int} (rotated : Rotated nums (k % nums.length) after) :
    Rotated nums k after := by
  refine ⟨rotated.1, fun i inside => ?_⟩
  rw [← rotated.2 i inside, Nat.add_mod_mod]

theorem rotated_zero (nums : List Int) : Rotated nums 0 nums := by
  refine ⟨rfl, fun i inside => ?_⟩
  rw [Nat.add_zero, Nat.mod_eq_of_lt inside]

theorem rotate_spec {k : Nat} (counted : nums.length < 2 ^ 31) (enough : nums.length < fuel) :
    ∃ after, rotate fuel nums k = some after ∧ Rotated nums k after := by
  by_cases empty : nums.length = 0
  · refine ⟨nums, if_pos empty, rfl, fun i inside => ?_⟩
    omega
  have below : k % nums.length < nums.length := Nat.mod_lt k (Nat.pos_of_ne_zero empty)
  rw [rotate]
  dsimp only
  rw [if_neg empty]
  by_cases none : k % nums.length = 0
  · rw [if_pos none]
    exact ⟨nums, rfl, rotated_mod (none ▸ rotated_zero nums)⟩
  rw [if_neg none, converted_natCast (by decide) (by omega),
    converted_natCast (by decide) (by omega), converted_natCast (by decide) (by omega)]
  suffices turned : ∀ step, 0 < step → step < nums.length → ∃ after,
      (do
        let nums' ← reverse fuel nums ((0 : Nat) : Int) ((nums.length - step - 1 : Nat) : Int)
        let nums' ← reverse fuel nums' ((nums.length - step : Nat) : Int)
          ((nums.length - 1 : Nat) : Int)
        reverse fuel nums' ((0 : Nat) : Int) ((nums.length - 1 : Nat) : Int)) = some after ∧
        Rotated nums step after by
    obtain ⟨after, afterIs, rotated⟩ := turned _ (Nat.pos_of_ne_zero none) below
    exact ⟨after, afterIs, rotated_mod rotated⟩
  intro step positive less
  obtain ⟨front, frontIs, frontLength, frontMirror⟩ :=
    @reverse_spec nums fuel 0 (nums.length - step - 1) (by omega) (by omega)
  obtain ⟨back, backIs, backLength, backMirror⟩ :=
    @reverse_spec front fuel (nums.length - step) (nums.length - 1) (by omega) (by omega)
  obtain ⟨after, afterIs, afterLength, afterMirror⟩ :=
    @reverse_spec back fuel 0 (nums.length - 1) (by omega) (by omega)
  refine ⟨after, ?_, by omega, fun i inside => ?_⟩
  · rw [frontIs, Option.bind_eq_bind, Option.bind_some, backIs, Option.bind_some, afterIs]
  · rw [afterMirror, backMirror, frontMirror]
    congr 1
    by_cases wraps : nums.length ≤ i + step
    · have placed : (i + step) % nums.length = i + step - nums.length := by
        rw [Nat.mod_eq_sub_mod wraps, Nat.mod_eq_of_lt (by omega)]
      rw [placed]
      unfold mirrored
      split_ifs <;> omega
    · rw [Nat.mod_eq_of_lt (by omega)]
      unfold mirrored
      split_ifs <;> omega

end

/-! ### Correctness of `rotate2` -/

theorem gcd_eq_some {fuel m n : Nat} {cycles : Int}
    (returned : gcd fuel m n = some cycles) : cycles = m.gcd n := by
  induction fuel generalizing m n with
  | zero => cases returned
  | succ fuel inductionHypothesis =>
      rw [gcd] at returned
      by_cases done : (m : Int) = 0
      · rw [if_pos done, Option.some.injEq] at returned
        rw [← returned, Int.natCast_eq_zero.mp done, Nat.gcd_zero_left]
      rw [if_neg done] at returned
      by_cases less : (m : Int) ≤ n
      · rw [if_pos less] at returned
        obtain ⟨difference, held, rest⟩ := Option.bind_eq_some_iff.mp returned
        obtain ⟨-, rfl⟩ := signed_eq_some_iff.mp held
        rw [← Int.ofNat_sub (Int.ofNat_le.mp less)] at rest
        rw [inductionHypothesis rest, Nat.gcd_sub_self_right (Int.ofNat_le.mp less)]
      · rw [if_neg less] at returned
        rw [inductionHypothesis returned, Nat.gcd_comm]

/-- Each subtraction takes from the sum, and no two exchanges follow one another. -/
theorem gcd_ne_none {fuel m n : Nat} (mCounted : m < 2 ^ 31) (nCounted : n < 2 ^ 31)
    (enough : 2 * (m + n) + (if n < m then 1 else 0) < fuel) : gcd fuel m n ≠ none := by
  induction fuel generalizing m n with
  | zero => omega
  | succ fuel inductionHypothesis =>
      rw [gcd]
      by_cases done : (m : Int) = 0
      · rw [if_pos done]
        exact Option.some_ne_none _
      rw [if_neg done]
      by_cases less : m ≤ n
      · have difference : (n : Int) - m = ((n - m : Nat) : Int) := (Int.ofNat_sub less).symm
        have held : InSigned 32 ((n - m : Nat) : Int) := by
          constructor <;> omega
        rw [if_pos (Int.ofNat_le.mpr less), difference, signed_of_inSigned held]
        apply inductionHypothesis mCounted (by omega)
        split_ifs at enough ⊢ <;> omega
      · rw [if_neg (by omega)]
        apply inductionHypothesis nCounted mCounted
        rw [if_pos (by omega)] at enough
        rw [if_neg (by omega)]
        omega

theorem gcd_spec {fuel m n : Nat} (mCounted : m < 2 ^ 31) (nCounted : n < 2 ^ 31)
    (enough : 2 * (m + n) + 1 < fuel) : gcd fuel m n = some (m.gcd n : Int) := by
  obtain ⟨cycles, returned⟩ := Option.ne_none_iff_exists'.mp
    (@gcd_ne_none fuel m n mCounted nCounted (by split_ifs <;> omega))
  rw [returned, gcd_eq_some returned]

section

variable {nums : List Int} {k i : Nat} {state : Cursor}

/-- What holds after `i` rounds; an element that lost its place is stored at the start of the
lap. -/
structure Turned (nums : List Int) (k i : Nat) (state : Cursor) : Prop where
  length : state.nums.length = nums.length
  start : state.j = i / lap nums.length k
  bounded : state.r < 2 * nums.length
  next : i < nums.length → state.r % nums.length = place nums.length k i
  settled : ∀ round < i, ∀ source < nums.length,
    (source + k) % nums.length = place nums.length k round →
      state.nums[place nums.length k round]? = nums[source]?
  stored : i < nums.length → state.nums[i / lap nums.length k]? =
    nums[(i / lap nums.length k + i % lap nums.length k * k) % nums.length]?
  pending : ∀ position < nums.length, (∀ round < i, place nums.length k round ≠ position) →
    position ≠ i / lap nums.length k → state.nums[position]? = nums[position]?

theorem turned_zero (below : k < nums.length) : Turned nums k 0 ⟨nums, 0, k⟩ where
  length := rfl
  start := (Nat.zero_div _).symm
  bounded := by
    dsimp only
    omega
  next _ := by rw [place, Nat.zero_div, Nat.zero_mod, Nat.zero_add, Nat.zero_add, Nat.one_mul]
  settled round early := absurd early (Nat.not_lt_zero round)
  stored nonempty := by
    rw [Nat.zero_div, Nat.zero_mod, Nat.zero_mul, Nat.add_zero, Nat.zero_mod]
  pending _ _ _ _ := rfl

theorem div_lap_lt_length (inside : i < nums.length) : i / lap nums.length k < nums.length :=
  Nat.lt_of_lt_of_le (div_lap_lt inside) (Nat.gcd_le_left k (Nat.zero_lt_of_lt inside))

/-- The greatest common divisor with a positive step leaves room for the step. -/
theorem gcd_add_le {n : Nat} (below : k < n) : n.gcd k + k ≤ n := by
  have divides : n.gcd k ∣ n - k := Nat.dvd_sub (Nat.gcd_dvd_left n k) (Nat.gcd_dvd_right n k)
  have less := Nat.le_of_dvd (by omega) divides
  omega

theorem wrapped_eq {n r : Nat} (bounded : r < 2 * n) :
    (if n ≤ r then r - n else r) = r % n := by
  split
  next wraps => rw [Nat.mod_eq_sub_mod wraps, Nat.mod_eq_of_lt (by omega)]
  next under => rw [Nat.mod_eq_of_lt (by omega)]

/-- The element before a place in its lap. -/
theorem source_eq {n k i source : Nat} (inside : source < n)
    (moved : (source + k) % n = place n k i) :
    source = (i / lap n k + i % lap n k * k) % n := by
  have congruent : source + k ≡ i / lap n k + i % lap n k * k + k [MOD n] := by
    rw [place, Nat.add_mul, Nat.one_mul, ← Nat.add_assoc] at moved
    exact moved
  have cancelled := congruent.add_right_cancel' k
  rw [← Nat.mod_eq_of_lt inside]
  exact cancelled

section

variable {after : List Int}
  (turned : Turned nums k i state) (inside : i < nums.length)
  (entries : ∀ position, after[position]? =
    state.nums[Equiv.swap (place nums.length k i) (i / lap nums.length k) position]?)

include turned inside entries

theorem settled_of_exchange : ∀ round < i + 1, ∀ source < nums.length,
    (source + k) % nums.length = place nums.length k round →
      after[place nums.length k round]? = nums[source]? := by
  intro round early source sourceInside moved
  rcases Nat.lt_succ_iff_lt_or_eq.mp early with before | rfl
  · have away : place nums.length k round ≠ place nums.length k i := fun same =>
      Nat.ne_of_lt before (place_injOn (Nat.lt_trans before inside) inside same)
    rw [entries, Equiv.swap_apply_of_ne_of_ne away (place_ne_of_lt inside before)]
    exact turned.settled round before source sourceInside moved
  · rw [entries, Equiv.swap_apply_left, turned.stored inside, ← source_eq sourceInside moved]

omit inside in
theorem unchanged_of_exchange {position : Nat} (positionInside : position < nums.length)
    (notPlace : ∀ round < i + 1, place nums.length k round ≠ position)
    (notStart : position ≠ i / lap nums.length k) : after[position]? = nums[position]? := by
  rw [entries, Equiv.swap_apply_of_ne_of_ne (notPlace i (Nat.lt_succ_self i)).symm notStart]
  exact turned.pending position positionInside
    (fun round early => notPlace round (Nat.lt_succ_of_lt early)) notStart

/-- In a lap the exchange takes the element at the place that was reached. -/
theorem stored_of_exchange (more : i % lap nums.length k + 1 < lap nums.length k) :
    after[i / lap nums.length k]? = nums[place nums.length k i]? := by
  rw [entries, Equiv.swap_apply_right]
  exact turned.pending _ (place_lt (Nat.zero_lt_of_lt inside) i)
    (fun round early same => Nat.ne_of_lt early
      (place_injOn (Nat.lt_trans early inside) inside same)) (place_ne_first inside more)

/-- A round within a lap. -/
theorem turned_of_more (length : after.length = nums.length) (below : k < nums.length)
    (more : i % lap nums.length k + 1 < lap nums.length k) :
    Turned nums k (i + 1) ⟨after, i / lap nums.length k, place nums.length k i + k⟩ := by
  obtain ⟨sameLap, nextStep⟩ := succ_in_lap more
  refine ⟨length, sameLap.symm, ?_, fun _ => (place_succ more).symm,
    settled_of_exchange turned inside entries, fun _ => ?_, ?_⟩
  · have placed := @place_lt nums.length k (Nat.zero_lt_of_lt inside) i
    dsimp only
    omega
  · rw [sameLap, nextStep]
    exact stored_of_exchange turned inside entries more
  · intro position positionInside notPlace notStart
    rw [sameLap] at notStart
    exact unchanged_of_exchange turned entries positionInside notPlace notStart

/-- The round that ends a lap. -/
theorem turned_of_last (length : after.length = nums.length) (below : k < nums.length)
    (last : i % lap nums.length k + 1 = lap nums.length k) :
    Turned nums k (i + 1)
      ⟨after, i / lap nums.length k + 1, place nums.length k i + k + 1⟩ := by
  obtain ⟨nextLap, firstStep⟩ := succ_of_last last
  have placed := place_of_last inside last
  have kept : ∀ position < nums.length,
      (∀ round < i + 1, place nums.length k round ≠ position) →
        after[position]? = nums[position]? := by
    intro position positionInside notPlace
    apply unchanged_of_exchange turned entries positionInside notPlace
    rw [← placed]
    exact (notPlace i (Nat.lt_succ_self i)).symm
  refine ⟨length, nextLap.symm, ?_, fun _ => ?_, settled_of_exchange turned inside entries,
    fun more => ?_, fun position positionInside notPlace _ => kept position positionInside notPlace⟩
  · have room := gcd_add_le below
    have first := @div_lap_lt nums.length k i inside
    dsimp only
    omega
  · dsimp only
    rw [placed, place, nextLap, firstStep, Nat.zero_add, Nat.one_mul, Nat.add_right_comm]
  · have start : (i + 1) / lap nums.length k < nums.length := div_lap_lt_length more
    have sameIndex : ((i + 1) / lap nums.length k + (i + 1) % lap nums.length k * k) % nums.length =
        (i + 1) / lap nums.length k := by
      rw [firstStep, Nat.zero_mul, Nat.add_zero, Nat.mod_eq_of_lt start]
    rw [sameIndex]
    exact kept _ start (fun round early => place_ne_of_lt more early)

end

theorem turn_spec (turned : Turned nums k i state) (inside : i < nums.length)
    (below : k < nums.length) (counted : nums.length < 2 ^ 31)
    (enough : nums.length + k ≤ 2 ^ 31) :
    ∃ after, turn k (lap nums.length k) state i = some after ∧ Turned nums k (i + 1) after := by
  have positive := Nat.zero_lt_of_lt inside
  have placed := @place_lt nums.length k positive i
  have start := @div_lap_lt_length nums k i inside
  have wrapped : (if state.nums.length ≤ state.r then state.r - state.nums.length else state.r) =
      place nums.length k i := by
    rw [turned.length, wrapped_eq turned.bounded, turned.next inside]
  obtain ⟨after, afterIs, permutation, entries⟩ := @exchange_spec _ state.nums
    (place nums.length k i) (i / lap nums.length k) (turned.length ▸ placed)
    (turned.length ▸ start)
  have length := permutation.length_eq.trans turned.length
  rw [turn, wrapped, turned.start, afterIs, Option.bind_eq_bind, Option.bind_some,
    position_of_lt (by omega)]
  dsimp only [Option.bind_eq_bind, Option.bind_some]
  rw [position_of_lt (by omega)]
  dsimp only [Option.bind_some]
  rcases Nat.lt_or_eq_of_le (Nat.succ_le_of_lt (Nat.mod_lt i (@lap_pos _ k positive)))
    with more | last
  · rw [if_neg (by rw [(succ_in_lap more).2]; exact Nat.succ_ne_zero _)]
    exact ⟨_, rfl, turned_of_more turned inside entries length below more⟩
  · have room := gcd_add_le below
    have first := @div_lap_lt nums.length k i inside
    have same := place_of_last inside last
    rw [if_pos (succ_of_last last).2, position_of_lt (by omega)]
    dsimp only [Option.bind_some]
    rw [position_of_lt (by omega)]
    exact ⟨_, rfl, turned_of_last turned inside entries length below last⟩

theorem Turned.rotated (turned : Turned nums k nums.length state) :
    Rotated nums k state.nums := by
  refine ⟨turned.length, fun source inside => ?_⟩
  obtain ⟨round, early, placed⟩ := @exists_place nums.length k ((source + k) % nums.length)
    (Nat.mod_lt _ (Nat.zero_lt_of_lt inside))
  rw [← placed]
  exact turned.settled round early source inside placed.symm

end

theorem rotate2_spec {nums : List Int} {fuel k : Nat} (counted : nums.length < 2 ^ 31)
    (sumCounted : nums.length + k % nums.length ≤ 2 ^ 31)
    (enough : 4 * nums.length + 1 < fuel) :
    ∃ after, rotate2 fuel nums k = some after ∧ Rotated nums k after := by
  by_cases empty : nums.length = 0
  · refine ⟨nums, if_pos empty, rfl, fun i inside => ?_⟩
    omega
  have positive : 0 < nums.length := Nat.pos_of_ne_zero empty
  have below : k % nums.length < nums.length := Nat.mod_lt k positive
  rw [rotate2]
  dsimp only
  rw [if_neg empty, converted_natCast (by decide) (by omega),
    gcd_spec (by omega) counted (by omega), Option.bind_eq_bind, Option.bind_some, Nat.gcd_comm]
  have divides := Nat.gcd_dvd_left nums.length (k % nums.length)
  have least := Nat.le_of_dvd positive divides
  have nonzero := Nat.gcd_pos_of_pos_left (k % nums.length) positive
  by_cases whole : nums.length.gcd (k % nums.length) = nums.length
  · rw [if_pos (by rw [whole])]
    have none : k % nums.length = 0 := by
      have room := gcd_add_le below
      omega
    exact ⟨nums, rfl, rotated_mod (none ▸ rotated_zero nums)⟩
  rw [if_neg (by omega), if_neg (by omega), Int.toNat_natCast]
  obtain ⟨state, stateIs, turned⟩ := @forLoop_spec Cursor (turn (k % nums.length)
    (lap nums.length (k % nums.length))) 0 nums.length ⟨nums, 0, k % nums.length⟩
    (Turned nums (k % nums.length)) (turned_zero below)
    (fun i inside before turned => by
      rw [Nat.zero_add]
      exact turn_spec turned inside below counted sumCounted)
  rw [lap] at stateIs
  rw [stateIs]
  exact ⟨state.nums, rfl, rotated_mod turned.rotated⟩

/-- A rotation leaves one vector only. -/
theorem rotated_unique {nums left right : List Int} {k : Nat} (leftRotated : Rotated nums k left)
    (rightRotated : Rotated nums k right) : left = right := by
  refine List.ext_getElem? fun position => ?_
  by_cases inside : position < nums.length
  · have positive := Nat.zero_lt_of_lt inside
    have below := Nat.mod_lt k positive
    have moved : ((position + (nums.length - k % nums.length)) % nums.length + k) % nums.length =
        position := by
      rw [Nat.mod_add_mod, ← Nat.add_mod_mod, Nat.add_assoc, Nat.sub_add_cancel below.le,
        Nat.add_mod_right, Nat.mod_eq_of_lt inside]
    have source := Nat.mod_lt (position + (nums.length - k % nums.length)) positive
    have fromLeft := leftRotated.2 _ source
    have fromRight := rightRotated.2 _ source
    rw [moved] at fromLeft fromRight
    rw [fromLeft, fromRight]
  · have outside := Nat.le_of_not_lt inside
    rw [List.getElem?_eq_none (leftRotated.1.symm ▸ outside),
      List.getElem?_eq_none (rightRotated.1.symm ▸ outside)]

/-- The second needs that the sum of the length and the step's remainder is no more than one past
the greatest `int`. -/
theorem rotations_agree {nums : List Int} {fuel k : Nat} (counted : nums.length < 2 ^ 31)
    (enough : 4 * nums.length + 1 < fuel) :
    ∃ after, rotate fuel nums k = some after ∧ Rotated nums k after ∧
      (nums.length + k % nums.length ≤ 2 ^ 31 → rotate2 fuel nums k = some after) := by
  obtain ⟨after, afterIs, rotated⟩ := @rotate_spec nums fuel k counted (by omega)
  refine ⟨after, afterIs, rotated, fun sumCounted => ?_⟩
  obtain ⟨after2, after2Is, rotated2⟩ := rotate2_spec counted sumCounted enough
  rw [rotated_unique rotated2 rotated] at after2Is
  exact after2Is

theorem rotations_agree_by_three :
    [1, 2, 3, 4, 5, 6, 7].length + 3 % [1, 2, 3, 4, 5, 6, 7].length ≤ 2 ^ 31 ∧
      ∃ after, rotate 30 [1, 2, 3, 4, 5, 6, 7] 3 = some after ∧
        Rotated [1, 2, 3, 4, 5, 6, 7] 3 after ∧
        ([1, 2, 3, 4, 5, 6, 7].length + 3 % [1, 2, 3, 4, 5, 6, 7].length ≤ 2 ^ 31 →
          rotate2 30 [1, 2, 3, 4, 5, 6, 7] 3 = some after) :=
  ⟨by decide, rotations_agree (by decide) (by decide)⟩

/-- The first round already adds the step to itself. -/
theorem rotate2_eq_none {nums : List Int} {k : Nat} (fuel : Nat) (counted : nums.length < 2 ^ 31)
    (below : k < nums.length) (beyond : 2 ^ 31 ≤ k + k) : rotate2 fuel nums k = none := by
  rw [rotate2]
  dsimp only
  rw [if_neg (by omega), Nat.mod_eq_of_lt below, converted_natCast (by decide) (by omega)]
  cases returned : gcd fuel k nums.length with
  | none => rfl
  | some cycles =>
      have divides := Nat.gcd_dvd_left k nums.length
      have least := Nat.le_of_dvd (by omega) divides
      rw [Option.bind_eq_bind, Option.bind_some, gcd_eq_some returned, if_neg (by omega)]
      split
      next => rfl
      next =>
        have wrong : forLoop 0 1 (turn k (nums.length / (k.gcd nums.length : Int).toNat))
            ⟨nums, 0, k⟩ = none := by
          obtain ⟨after, afterIs, -⟩ := @exchange_spec _ nums k 0 below (by omega)
          rw [forLoop_succ]
          change turn _ _ _ _ = none
          rw [turn]
          dsimp only
          rw [if_neg (by omega), afterIs, Option.bind_eq_bind, Option.bind_some,
            position_of_lt (by decide)]
          dsimp only [Option.bind_eq_bind, Option.bind_some]
          rw [position, if_neg (by omega)]
          rfl
        rw [forLoop_eq_none_of_le (by omega) wrong]
        rfl

theorem rotate2_fails_on_long :
    (List.replicate (2 ^ 30 + 1) (0 : Int)).length = 2 ^ 30 + 1 ∧
      ∀ fuel, rotate2 fuel (List.replicate (2 ^ 30 + 1) 0) (2 ^ 30) = none := by
  have length : (List.replicate (2 ^ 30 + 1) (0 : Int)).length = 2 ^ 30 + 1 :=
    List.length_replicate
  refine ⟨length, fun fuel => rotate2_eq_none fuel ?_ ?_ ?_⟩
  · omega
  · omega
  · omega

end RotateArray

end StdPrograms.Hobbies

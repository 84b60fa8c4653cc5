import Mathlib.Logic.Function.Basic
import StdPrograms.Foundation.CountedLoop
import StdPrograms.Hobbies.NearbyAlmostDuplicate

/-!
Contract: near elements that are equal.

Owns `containsNearbyDuplicate`, which remembers where each value was last, and
`containsNearbyDuplicate2`, which keeps the last values, of `solution_219.cpp` with integers that
wrap, and for which vectors both find out whether there are such elements.

Does not own vectors of 2^31 elements and more.
-/

namespace StdPrograms.Hobbies

open StdPrograms.Foundation

namespace NearbyDuplicate

open NearbyAlmostDuplicate (slide slide_spec Filled filled_first)

/-- The loop; a negative `i` is, without its sign, above every size. -/
def lastLoop (nums : List Int) (k : Int) : Nat → Int → (Int → Option Int) → Option Bool
  | 0, _, _ => none
  | fuel + 1, i, um =>
      if 0 ≤ i ∧ i < nums.length then do
        let num ← entry nums i
        if (um num).any fun last => converted 32 (last + k) ≥ i then return true
        else lastLoop nums k fuel (converted 32 (i + 1)) (Function.update um num (some i))
      else some false

def containsNearbyDuplicate (fuel : Nat) (nums : List Int) (k : Int) : Option Bool :=
  lastLoop nums k fuel 0 fun _ => none

def windowLoop (nums : List Int) (k : Int) : Nat → Int → Finset Int → Option Bool
  | 0, _, _ => none
  | fuel + 1, i, us =>
      if 0 ≤ i ∧ i < nums.length then do
        let us ← slide nums k i us
        let num ← entry nums i
        if num ∈ us then return true
        else windowLoop nums k fuel (converted 32 (i + 1)) (insert num us)
      else some false

def containsNearbyDuplicate2 (fuel : Nat) (nums : List Int) (k : Int) : Option Bool :=
  windowLoop nums k fuel 0 ∅

/-! ### What is looked for -/

/-- The elements at the two places are equal, and at most `k` apart. -/
def Twins (nums : List Int) (k p i : Nat) : Prop :=
  p < i ∧ i ≤ p + k ∧ ∃ value, nums[p]? = some value ∧ nums[i]? = some value

section

variable {nums : List Int} {k i : Nat}

/-! ### The last places -/

/-- The place is the last one before turn `i` with the value. -/
def Last (nums : List Int) (i : Nat) (value : Int) (p : Nat) : Prop :=
  p < i ∧ nums[p]? = some value ∧ ∀ q, p < q → q < i → nums[q]? ≠ some value

/-- The map holds the last place of each value. -/
def Remembers (nums : List Int) (i : Nat) (um : Int → Option Int) : Prop :=
  ∀ value last, um value = some last ↔ ∃ p : Nat, last = p ∧ Last nums i value p

theorem remembers_first (nums : List Int) : Remembers nums 0 fun _ => none := by
  refine fun value last => iff_of_false (by simp) ?_
  rintro ⟨p, -, before, -⟩
  exact absurd before (Nat.not_lt_zero p)

theorem Remembers.next {um : Int → Option Int} (remembers : Remembers nums i um) {num : Int}
    (here : nums[i]? = some num) :
    Remembers nums (i + 1) (Function.update um num (some i)) := by
  intro value last
  by_cases same : value = num
  · subst same
    rw [Function.update_self, Option.some.injEq]
    constructor
    · rintro rfl
      exact ⟨i, rfl, Nat.lt_succ_self i, here, fun q above below => by omega⟩
    · rintro ⟨p, rfl, before, -, others⟩
      by_contra different
      exact others i (by omega) (Nat.lt_succ_self i) here
  · rw [Function.update_of_ne same, remembers value last]
    have other : nums[i]? ≠ some value := by
      rw [here]
      exact fun equal => same (Option.some.inj equal).symm
    refine exists_congr fun p => and_congr_right fun _ => ?_
    constructor
    · rintro ⟨before, atP, others⟩
      refine ⟨by omega, atP, fun q above below => ?_⟩
      by_cases last_ : q = i
      · rwa [last_]
      · exact others q above (by omega)
    · rintro ⟨before, atP, others⟩
      have earlier : p ≠ i := by
        rintro rfl
        exact other atP
      exact ⟨by omega, atP, fun q above below => others q above (by omega)⟩

/-- The last place of the element is near, and the sum with `k` does not wrap. -/
def CaughtByLast (nums : List Int) (k i : Nat) : Prop :=
  ∃ value p, nums[i]? = some value ∧ Last nums i value p ∧ i ≤ p + k ∧ p + k < 2 ^ 31

/-- What the comparison at a turn says. -/
theorem any_last_iff {um : Int → Option Int} (remembers : Remembers nums i um) {num : Int}
    (here : nums[i]? = some num) (small : i < 2 ^ 31) (kSmall : k < 2 ^ 31) :
    ((um num).any fun last => converted 32 (last + k) ≥ i) = true ↔ CaughtByLast nums k i := by
  have compare (p : Nat) (before : p < i) :
      converted 32 ((p : Int) + k) ≥ i ↔ i ≤ p + k ∧ p + k < 2 ^ 31 := by
    rw [converted]
    omega
  constructor
  · intro found
    obtain ⟨last, known, near⟩ := (Option.any_eq_true _ _).mp found
    obtain ⟨p, rfl, isLast⟩ := (remembers num last).mp known
    exact ⟨num, p, here, isLast, (compare p isLast.1).mp (of_decide_eq_true near)⟩
  · rintro ⟨value, p, atI, isLast, near⟩
    obtain rfl := Option.some.inj (here.symm.trans atI)
    rw [(remembers num p).mpr ⟨p, rfl, isLast⟩, Option.any_some, decide_eq_true_eq]
    exact (compare p isLast.1).mpr near

/-- Up to the next equal element a place is the last one. -/
theorem exists_caughtByLast_iff :
    (∃ i < nums.length, CaughtByLast nums k i) ↔ ∃ p i, Twins nums k p i ∧ p + k < 2 ^ 31 := by
  constructor
  · rintro ⟨i, -, value, p, atI, ⟨before, atP, -⟩, near, fits⟩
    exact ⟨p, i, ⟨before, near, value, atP, atI⟩, fits⟩
  · rintro ⟨p, i, ⟨before, near, value, atP, atI⟩, fits⟩
    have again : ∃ next, p < next ∧ nums[next]? = some value := ⟨i, before, atI⟩
    obtain ⟨later, atNext⟩ := Nat.find_spec again
    have sooner : Nat.find again ≤ i := Nat.find_min' again ⟨before, atI⟩
    refine ⟨Nat.find again, (List.getElem?_eq_some_iff.mp atNext).1, value, p, atNext,
      ⟨later, atP, fun q above below atQ => ?_⟩, by omega, fits⟩
    exact Nat.find_min again below ⟨above, atQ⟩

theorem lastLoop_searches (nums : List Int) (small : nums.length < 2 ^ 31) (kSmall : k < 2 ^ 31) :
    Searches (fun fuel i => lastLoop nums k fuel (i : Nat)) (Remembers nums) (CaughtByLast nums k)
      nums.length := by
  intro fuel i um remembers inside
  have here : nums[i]? = some nums[i] := List.getElem?_eq_getElem inside
  have compared := any_last_iff remembers here (by omega) kSmall
  dsimp only
  rw [lastLoop, if_pos (by omega), entry_natCast, here, ← compared]
  dsimp only [Option.bind_eq_bind, Option.bind_some]
  constructor
  · exact fun found => if_pos found
  · intro notFound
    refine ⟨_, remembers.next here, ?_⟩
    rw [if_neg notFound, converted_succ (by decide) (show i + 1 < 2 ^ 31 by omega)]

/-- The first check finds exactly the twins whose sum does not wrap. -/
theorem containsNearbyDuplicate_spec (small : nums.length < 2 ^ 31) (kSmall : k < 2 ^ 31) :
    ∃ result, (∀ fuel > nums.length, containsNearbyDuplicate fuel nums k = some result) ∧
      (result = true ↔ ∃ p i, Twins nums k p i ∧ p + k < 2 ^ 31) := by
  rw [← exists_caughtByLast_iff]
  exact (lastLoop_searches nums small kSmall).spec
    (fun fuel um => by rw [lastLoop, if_neg (by omega)]) (remembers_first nums)

/-! ### The last values -/

/-- The element is in the set when it is put in. -/
def CaughtInWindow (nums : List Int) (k i : Nat) : Prop :=
  ∃ value, nums[i]? = some value ∧ Held nums k i value

theorem windowLoop_searches (nums : List Int) (k : Nat) (small : nums.length < 2 ^ 31) :
    Searches (fun fuel i => windowLoop nums k fuel (i : Nat)) (Filled nums k)
      (CaughtInWindow nums k) nums.length := by
  intro fuel i us filled inside
  have here : nums[i]? = some nums[i] := List.getElem?_eq_getElem inside
  obtain ⟨rest, slid, inRest⟩ := slide_spec filled inside
  have caught_iff : CaughtInWindow nums k i ↔ nums[i] ∈ rest := by
    rw [inRest]
    simp [CaughtInWindow, here]
  dsimp only
  rw [windowLoop, if_pos (by omega), slid, caught_iff]
  dsimp only [Option.bind_eq_bind, Option.bind_some]
  rw [entry_natCast, here]
  dsimp only [Option.bind_some]
  constructor
  · exact fun found => if_pos found
  · intro notFound
    refine ⟨insert nums[i] rest, fun value => ?_, ?_⟩
    · rw [Finset.mem_insert, stillIn_succ here, inRest]
    · rw [if_neg notFound, converted_succ (by decide) (show i + 1 < 2 ^ 31 by omega)]

/-- The first element with a twin before it finds the twin in the set. -/
theorem exists_caughtInWindow_iff :
    (∃ i < nums.length, CaughtInWindow nums k i) ↔ ∃ p i, Twins nums k p i := by
  constructor
  · rintro ⟨i, -, value, atI, held⟩
    obtain ⟨p, before, recent, atP⟩ := held.recent
    exact ⟨p, i, before, recent, value, atP, atI⟩
  · rintro ⟨p, i, twins⟩
    classical
    have someTurn : ∃ i p, Twins nums k p i := ⟨i, p, twins⟩
    obtain ⟨p, before, recent, value, atP, atI⟩ := Nat.find_spec someTurn
    refine ⟨Nat.find someTurn, (List.getElem?_eq_some_iff.mp atI).1, value, atI, ?_⟩
    refine held_of_recent before recent atP fun q r earlier sooner within atR atQ => ?_
    exact Nat.find_min someTurn sooner ⟨q, earlier, within, value, atQ, atR⟩

/-- The second check finds all twins. -/
theorem containsNearbyDuplicate2_spec (nums : List Int) (k : Nat) (small : nums.length < 2 ^ 31) :
    ∃ result, (∀ fuel > nums.length, containsNearbyDuplicate2 fuel nums k = some result) ∧
      (result = true ↔ ∃ p i, Twins nums k p i) := by
  rw [← exists_caughtInWindow_iff]
  exact (windowLoop_searches nums k small).spec
    (fun fuel us => by rw [windowLoop, if_neg (by omega)]) (filled_first nums k)

/-! ### Both checks -/

/-- With enough fuel both return whether there are twins; no index leaves the vector. -/
def FindTwins (nums : List Int) (k : Nat) : Prop :=
  ∃ enough, ∀ fuel ≥ enough, ∃ result, containsNearbyDuplicate fuel nums k = some result ∧
    containsNearbyDuplicate2 fuel nums k = some result ∧
      (result = true ↔ ∃ p i, Twins nums k p i)

/-- They are right exactly where the sum of some twin's first place with `k` is in the type, or
there are no twins. -/
theorem findTwins_iff (small : nums.length < 2 ^ 31) (kSmall : k < 2 ^ 31) :
    FindTwins nums k ↔ (∃ p i, Twins nums k p i) → ∃ p i, Twins nums k p i ∧ p + k < 2 ^ 31 := by
  obtain ⟨byLast, returnsByLast, byLast_iff⟩ := containsNearbyDuplicate_spec small kSmall
  obtain ⟨inWindow, returnsInWindow, inWindow_iff⟩ := containsNearbyDuplicate2_spec nums k small
  constructor
  · rintro ⟨enough, right⟩ twins
    obtain ⟨result, returned, -, iff⟩ := right (max enough (nums.length + 1)) (le_max_left _ _)
    rw [returnsByLast _ (Nat.lt_of_succ_le (le_max_right _ _))] at returned
    obtain rfl := Option.some.inj returned
    exact byLast_iff.mp (iff.mpr twins)
  · intro someFits
    have byLast_iff' : byLast = true ↔ ∃ p i, Twins nums k p i := by
      rw [byLast_iff]
      refine ⟨?_, someFits⟩
      rintro ⟨p, i, twins, -⟩
      exact ⟨p, i, twins⟩
    have same : byLast = inWindow := by
      rw [Bool.eq_iff_iff, byLast_iff', inWindow_iff]
    refine ⟨nums.length + 1,
      fun fuel enough => ⟨byLast, returnsByLast fuel enough, ?_, byLast_iff'⟩⟩
    rw [same]
    exact returnsInWindow fuel enough

theorem findTwins_iff_four : FindTwins [1, 2, 3, 2] 3 :=
  (findTwins_iff (by decide) (by decide)).mpr fun _ =>
    ⟨1, 3, ⟨by decide, by decide, 2, rfl, rfl⟩, by decide⟩

/-- The sum of the first place and the greatest `k` wraps. -/
theorem findTwins_fail : ¬FindTwins [0, 1, 1] (2 ^ 31 - 1) := by
  rintro ⟨enough, right⟩
  obtain ⟨result, returned, -, iff⟩ := right (enough + 4) (Nat.le_add_right enough 4)
  have isFalse : containsNearbyDuplicate (enough + 4) [0, 1, 1] (2 ^ 31 - 1 : Nat) = some false :=
    rfl
  rw [isFalse] at returned
  obtain rfl := Option.some.inj returned
  exact absurd (iff.mpr ⟨1, 2, by decide, by decide, 1, rfl, rfl⟩) (by simp)

end

end NearbyDuplicate

end StdPrograms.Hobbies

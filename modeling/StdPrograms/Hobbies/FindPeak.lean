import StdPrograms.Foundation.Bisection
import StdPrograms.Foundation.SignedInt

/-!
Contract: a peak found by bisection.

Owns `findPeakElement` and `findPeakElement2` of `solution_162.cpp` and that both find a peak after
logarithmically many passes, in an array without equal neighbors whose length is of type `int`.

Does not own which of several peaks is found.
-/

namespace StdPrograms.Hobbies

open StdPrograms.Foundation

namespace FindPeak

/-- What a middle shows: it is a peak, or the loop goes on behind or before it. -/
inductive Turn where
  | found
  | behind
  | before
deriving DecidableEq

section Code

variable (nums : List Int)

/-- `nums[i] > nums[j]` -/
def greater (i j : Int) : Option Bool := do
  return decide ((← entry nums i) > (← entry nums j))

/-- The last three branches of the first loop, which are those of the second one. -/
def turn (mid : Int) : Option Turn := do
  let peak ← if ← greater nums mid (mid + 1) then greater nums mid (mid - 1) else some false
  if peak then return .found
  else if ← greater nums (mid + 1) mid then return .behind
  else return .before

/-- All branches of the first loop. -/
def turnAtEnds (last mid : Int) : Option Turn :=
  if mid = 0 then do
    if ← greater nums mid (mid + 1) then return .found else return .behind
  else if mid = last then do
    if ← greater nums mid (mid - 1) then return .found else return .before
  else turn nums mid

/-- Both loops, with the condition to go on, and what is returned behind the loop. The number is
that of the passes that may be begun. -/
def peakLoop (turn : Int → Option Turn) (more : Int → Int → Bool)
    (finish : Int → Int → Option Int) : Nat → (start ending : Int) → Option Int
  | 0, start, ending => if more start ending then none else finish start ending
  | passes + 1, start, ending =>
      if more start ending then do
        let mid := middle start ending
        match ← turn mid with
        | .found => return mid
        | .behind => peakLoop turn more finish passes (mid + 1) ending
        | .before => peakLoop turn more finish passes start (mid - 1)
      else finish start ending

def findPeakElement (passes : Nat) : Option Int := do
  let ending := converted 32 ((nums.length : Int) - 1)
  let last ← signed 32 (converted 32 nums.length - 1)
  peakLoop (turnAtEnds nums last) (fun start ending => start < ending) (fun start _ => some start)
    passes 0 ending

def findPeakElement2 (passes : Nat) : Option Int :=
  let ending := converted 32 ((nums.length : Int) - 1)
  peakLoop (turn nums) (fun start ending => start < ending - 1)
    (fun start ending => do
      if ← greater nums start ending then return start else return ending) passes 0 ending

end Code

/-! ### Peaks -/

/-- The element, if there is one, is greater than the one before, if there is one. -/
def Rises (nums : List Int) (i : Int) : Prop :=
  ∀ value ∈ entry nums i, ∀ other ∈ entry nums (i - 1), other < value

/-- The element, if there is one, is greater than the one behind, if there is one. -/
def Falls (nums : List Int) (i : Int) : Prop :=
  ∀ value ∈ entry nums i, ∀ other ∈ entry nums (i + 1), other < value

/-- The element is greater than its neighbors. -/
structure IsPeak (nums : List Int) (i : Int) : Prop where
  inside : 0 ≤ i ∧ i < nums.length
  rises : Rises nums i
  falls : Falls nums i

variable {nums : List Int} {mid : Int}

theorem entry_eq_none {i : Int} (outside : i < 0 ∨ nums.length ≤ i) : entry nums i = none := by
  cases found : entry nums i with
  | none => rfl
  | some value =>
      have inside := inside_of_entry found
      omega

theorem rises_zero (nums : List Int) : Rises nums 0 := by
  intro value _ other member
  rw [entry_eq_none (by omega)] at member
  cases member

theorem falls_last (nums : List Int) : Falls nums ((nums.length : Int) - 1) := by
  intro value _ other member
  rw [entry_eq_none (by omega)] at member
  cases member

theorem greater_eq {i j : Int} {value other : Int} (first : entry nums i = some value)
    (second : entry nums j = some other) : greater nums i j = some (decide (other < value)) := by
  rw [greater, first, second]
  rfl

theorem Rises.not_falls {i : Int} (rises : Rises nums i) (positive : 0 < i)
    (below : i < nums.length) : ¬Falls nums (i - 1) := by
  obtain ⟨value, here⟩ := @exists_entry _ nums i (by omega) below
  obtain ⟨before, beforeIs⟩ := @exists_entry _ nums (i - 1) (by omega) (by omega)
  have up := rises value here before beforeIs
  intro falls
  have down := falls before beforeIs value (by rwa [Int.sub_add_cancel])
  omega

theorem rises_of_lt {i : Int} {value other : Int} (here : entry nums i = some value)
    (before : entry nums (i - 1) = some other) (less : other < value) : Rises nums i := by
  simpa [Rises, here, before] using less

theorem falls_of_lt {i : Int} {value other : Int} (here : entry nums i = some value)
    (behind : entry nums (i + 1) = some other) (less : other < value) : Falls nums i := by
  simpa [Falls, here, behind] using less

/-- No two neighbors are equal. -/
def Differ (nums : List Int) : Prop :=
  nums.IsChain (· ≠ ·)

theorem Differ.ne (differ : Differ nums) {i : Int} {value other : Int}
    (here : entry nums i = some value) (behind : entry nums (i + 1) = some other) :
    value ≠ other := by
  have inside := inside_of_entry here
  obtain ⟨place, rfl⟩ := Int.eq_ofNat_of_zero_le inside.1
  have later : ((place : Int) + 1) = ((place + 1 : Nat) : Int) := by omega
  rw [later, entry_natCast] at behind
  rw [entry_natCast] at here
  obtain ⟨less, rfl⟩ := List.getElem?_eq_some_iff.mp behind
  obtain ⟨_, rfl⟩ := List.getElem?_eq_some_iff.mp here
  exact List.isChain_iff_getElem.mp differ place less

/-- What a turn in the middle says about the elements there. -/
def Turned (nums : List Int) (mid : Int) : Turn → Prop
  | .found => IsPeak nums mid
  | .behind => Rises nums (mid + 1)
  | .before => 0 < mid ∧ Falls nums (mid - 1)

theorem turn_spec (differ : Differ nums) (positive : 0 < mid) (below : mid + 1 < nums.length) :
    ∃ taken, turn nums mid = some taken ∧ Turned nums mid taken := by
  obtain ⟨value, here⟩ := @exists_entry _ nums mid (by omega) (by omega)
  obtain ⟨before, beforeIs⟩ := @exists_entry _ nums (mid - 1) (by omega) (by omega)
  obtain ⟨behind, behindIs⟩ := @exists_entry _ nums (mid + 1) (by omega) below
  have hereAgain : entry nums (mid - 1 + 1) = some value := by rwa [Int.sub_add_cancel]
  have valueAgain : entry nums (mid + 1 - 1) = some value := by rwa [Int.add_sub_cancel]
  have otherBefore := differ.ne beforeIs hereAgain
  have otherBehind := differ.ne here behindIs
  rw [turn, greater_eq here behindIs, greater_eq here beforeIs, greater_eq behindIs here]
  dsimp only [Option.bind_eq_bind, Option.bind_some]
  by_cases falls : behind < value
  · by_cases rises : before < value
    · refine ⟨.found, by simp [falls, rises], ?_⟩
      exact ⟨by omega, rises_of_lt here beforeIs rises, falls_of_lt here behindIs falls⟩
    · have notBehind : ¬value < behind := by omega
      refine ⟨.before, by simp [falls, rises, notBehind], positive, ?_⟩
      exact falls_of_lt beforeIs hereAgain (by omega)
  · have goesUp : value < behind := by omega
    refine ⟨.behind, by simp [falls, goesUp], ?_⟩
    exact rises_of_lt behindIs valueAgain goesUp

theorem turnAtEnds_spec (differ : Differ nums) (nonneg : 0 ≤ mid) (below : mid + 1 < nums.length) :
    ∃ taken, turnAtEnds nums (nums.length - 1) mid = some taken ∧ Turned nums mid taken := by
  by_cases first : mid = 0
  · subst first
    obtain ⟨value, here⟩ := @exists_entry _ nums 0 (by omega) (by omega)
    obtain ⟨behind, behindIs⟩ := @exists_entry _ nums (0 + 1) (by omega) below
    have otherBehind := differ.ne here behindIs
    rw [turnAtEnds, if_pos rfl, greater_eq here behindIs]
    dsimp only [Option.bind_eq_bind, Option.bind_some]
    by_cases falls : behind < value
    · refine ⟨.found, by simp [falls], ?_⟩
      exact ⟨by omega, rises_zero nums, falls_of_lt here behindIs falls⟩
    · refine ⟨.behind, by simp [falls], ?_⟩
      exact rises_of_lt behindIs here (by omega)
  · rw [turnAtEnds, if_neg first, if_neg (by omega)]
    exact turn_spec differ (by omega) below

/-- The greater one of two neighbors, with the ends going up into them. -/
theorem greaterOfTwo_spec (differ : Differ nums) {start ending : Int} (nonneg : 0 ≤ start)
    (upTo : start ≤ ending) (below : ending < nums.length) (adjacent : ending ≤ start + 1)
    (rises : Rises nums start) (falls : Falls nums ending) :
    ∃ peak, (do if ← greater nums start ending then return start else return ending) =
      some peak ∧ IsPeak nums peak := by
  obtain ⟨first, firstIs⟩ := @exists_entry _ nums start nonneg (by omega)
  obtain ⟨last, lastIs⟩ := @exists_entry _ nums ending (by omega) below
  rw [greater_eq firstIs lastIs]
  dsimp only [Option.bind_eq_bind, Option.bind_some]
  by_cases same : start = ending
  · subst same
    obtain rfl := Option.some.inj (firstIs.symm.trans lastIs)
    rw [decide_eq_false (Int.lt_irrefl first)]
    exact ⟨start, rfl, ⟨nonneg, below⟩, rises, falls⟩
  · obtain rfl : ending = start + 1 := by omega
    have other := differ.ne firstIs lastIs
    by_cases goesDown : last < first
    · rw [decide_eq_true goesDown]
      exact ⟨start, rfl, ⟨nonneg, by omega⟩, rises, falls_of_lt firstIs lastIs goesDown⟩
    · rw [decide_eq_false goesDown]
      have goesUp := rises_of_lt lastIs (by rwa [Int.add_sub_cancel]) (by omega : first < last)
      exact ⟨start + 1, rfl, ⟨by omega, below⟩, goesUp, falls⟩

/-- The ends of the interval go up into it. It has at most half of its size after each round. -/
theorem peakLoop_spec {turn : Int → Option Turn} {more : Int → Int → Bool}
    {finish : Int → Int → Option Int}
    (turns : ∀ start ending : Int, 0 ≤ start → ending < nums.length → more start ending →
      start < ending ∧ ∃ taken, turn (middle start ending) = some taken ∧
        Turned nums (middle start ending) taken)
    (finishes : ∀ start ending : Int, 0 ≤ start → start ≤ ending → ending < nums.length →
      Rises nums start → Falls nums ending → more start ending = false →
      ∃ peak, finish start ending = some peak ∧ IsPeak nums peak)
    {passes : Nat} {start ending : Int} (nonneg : 0 ≤ start) (upTo : start ≤ ending)
    (below : ending < nums.length) (rises : Rises nums start) (falls : Falls nums ending)
    (size : ending - start < 2 ^ passes) :
    ∃ peak, peakLoop turn more finish passes start ending = some peak ∧ IsPeak nums peak := by
  induction passes generalizing start ending with
  | zero =>
      rw [peakLoop]
      cases goesOn : more start ending with
      | false =>
          rw [if_neg Bool.false_ne_true]
          exact finishes start ending nonneg upTo below rises falls goesOn
      | true =>
          obtain ⟨less, -⟩ := turns start ending nonneg below goesOn
          omega
  | succ passes inductionHypothesis =>
      rw [peakLoop]
      cases goesOn : more start ending with
      | false =>
          rw [if_neg Bool.false_ne_true]
          exact finishes start ending nonneg upTo below rises falls goesOn
      | true =>
          obtain ⟨less, taken, turned, told⟩ := turns start ending nonneg below goesOn
          have inside := middle_lt less
          have half : ending - start < 2 * 2 ^ passes := by rwa [pow_succ'] at size
          rw [if_pos rfl]
          dsimp only
          rw [turned]
          dsimp only [Option.bind_eq_bind, Option.bind_some]
          cases taken with
          | found => exact ⟨_, rfl, told⟩
          | behind =>
              apply inductionHypothesis (by omega) (by omega) below told falls
              rw [middle]
              omega
          | before =>
              have apart : start ≠ middle start ending := by
                intro same
                obtain ⟨positive, goesDown⟩ := told
                rw [← same] at positive goesDown
                exact rises.not_falls positive (by omega) goesDown
              apply inductionHypothesis nonneg (by omega) (by omega) rises told.2
              rw [middle]
              omega

/-- Both find a peak; an array of at most a power of two takes at most its exponent of passes. -/
theorem findPeakElement_both (differ : Differ nums) (nonempty : nums ≠ [])
    (size : InSigned 32 nums.length) {passes : Nat} (short : nums.length ≤ 2 ^ passes) :
    (∃ peak, findPeakElement nums passes = some peak ∧ IsPeak nums peak) ∧
      ∃ peak, findPeakElement2 nums passes = some peak ∧ IsPeak nums peak := by
  have positive := List.length_pos_iff.mpr nonempty
  have ending : converted 32 ((nums.length : Int) - 1) = nums.length - 1 :=
    converted_of_inSigned (by omega) ⟨by omega, by have := size.2; omega⟩
  have power : (nums.length : Int) ≤ 2 ^ passes := by exact_mod_cast short
  have width : ((nums.length : Int) - 1) - 0 < 2 ^ passes := by omega
  constructor
  · have last : signed 32 (converted 32 nums.length - 1) = some ((nums.length : Int) - 1) := by
      rw [converted_of_inSigned (by omega) size]
      exact signed_of_inSigned ⟨by omega, by have := size.2; omega⟩
    rw [findPeakElement, ending, last]
    refine peakLoop_spec ?_ ?_ (Int.le_refl 0) (by omega) (by omega) (rises_zero nums)
      (falls_last nums) width
    · intro start ending nonneg below goesOn
      have less : start < ending := of_decide_eq_true goesOn
      have inside := middle_lt less
      exact ⟨less, turnAtEnds_spec differ (by omega) (by omega)⟩
    · intro start ending nonneg upTo below rises falls stops
      have same : start = ending := by
        have notLess := of_decide_eq_false stops
        omega
      subst same
      exact ⟨start, rfl, ⟨nonneg, below⟩, rises, falls⟩
  · rw [findPeakElement2, ending]
    refine peakLoop_spec ?_ ?_ (Int.le_refl 0) (by omega) (by omega) (rises_zero nums)
      (falls_last nums) width
    · intro start ending nonneg below goesOn
      have less : start < ending - 1 := of_decide_eq_true goesOn
      have inside : 0 < middle start ending ∧ middle start ending < ending := by
        rw [middle]
        omega
      exact ⟨by omega, turn_spec differ inside.1 (by omega)⟩
    · intro start ending nonneg upTo below rises falls stops
      have notLess : ¬start < ending - 1 := of_decide_eq_false stops
      exact greaterOfTwo_spec differ nonneg upTo below (by omega) rises falls

theorem findPeakElement_both_sevenElements :
    (∃ peak, findPeakElement [1, 2, 1, 3, 5, 6, 4] 3 = some peak ∧
        IsPeak [1, 2, 1, 3, 5, 6, 4] peak) ∧
      ∃ peak, findPeakElement2 [1, 2, 1, 3, 5, 6, 4] 3 = some peak ∧
        IsPeak [1, 2, 1, 3, 5, 6, 4] peak :=
  @findPeakElement_both [1, 2, 1, 3, 5, 6, 4] (by simp [Differ]) (by simp) (by decide) 3 (by decide)

end FindPeak

end StdPrograms.Hobbies

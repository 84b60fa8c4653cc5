import Mathlib.Algebra.Order.Group.Int
import Mathlib.Data.List.Sort
import StdPrograms.Foundation.CountedLoop
import StdPrograms.Foundation.Sorting
import StdPrograms.Foundation.TwoPointers

/-!
Contract: four elements with a given sum.

Owns `fourSum` of `solution_18.cpp`, with numbers of any size.

Does not own the lines it prints.
-/

namespace StdPrograms.Hobbies

open StdPrograms.Foundation

namespace FourSum

/-- `while (k < m && nums[k] == answer[2]) ++k;` -/
def skipUp (nums : List Int) (value : Int) (m k : Nat) : Option Nat :=
  moveWhile (fun k => if k < m then nums[k]?.map fun here => decide (here = value) else some false)
    (· + 1) nums.length k

/-- `while (k < m && nums[m] == answer[3]) --m;` -/
def skipDown (nums : List Int) (value : Int) (k m : Nat) : Option Nat :=
  moveWhile (fun m => if k < m then nums[m]?.map fun here => decide (here = value) else some false)
    (· - 1) nums.length m

/-- `while (i < s - 1 && nums[i] == nums[i + 1]) ++i;` -/
def skipEqual (nums : List Int) (i : Nat) : Option Nat :=
  moveWhile (fun i => if i < nums.length - 1 then do
      let here ← nums[i]?
      let next ← nums[i + 1]?
      return decide (here = next)
    else some false) (· + 1) nums.length i

/-- The loop over `k` and `m`. Its answers, as those of the loops around it, are without the
elements that are chosen outside. -/
def pairLoop (nums : List Int) (except : Int) : Nat → Nat → Nat → Option (List (List Int))
  | 0, _, _ => none
  | fuel + 1, k, m =>
      if k < m then do
        let left ← nums[k]?
        let right ← nums[m]?
        let sum := left + right
        if sum < except then pairLoop nums except fuel (k + 1) m
        else if sum > except then pairLoop nums except fuel k (m - 1)
        else
          let k ← skipUp nums left m k
          let m ← skipDown nums right k m
          let later ← pairLoop nums except fuel k m
          return [left, right] :: later
      else some []

/-- The loops over `i` and over `j`, which differ in the loop inside. -/
def valueLoop (nums : List Int) (inner : Int → Nat → Option (List (List Int))) (target : Int) :
    Nat → Nat → Option (List (List Int))
  | 0, _ => none
  | fuel + 1, i =>
      if i < nums.length then do
        let value ← nums[i]?
        let answers ← inner (target - value) (i + 1)
        let i ← skipEqual nums i
        let later ← valueLoop nums inner target fuel (i + 1)
        return answers.map (value :: ·) ++ later
      else some []

def loopK (nums : List Int) (except_ij : Int) (k : Nat) : Option (List (List Int)) :=
  pairLoop nums except_ij (nums.length + 1) k (nums.length - 1)

def loopJ (nums : List Int) (except_i : Int) (j : Nat) : Option (List (List Int)) :=
  valueLoop nums (loopK nums) except_i (nums.length + 1) j

def loopI (nums : List Int) (target : Int) (i : Nat) : Option (List (List Int)) :=
  valueLoop nums (loopJ nums) target (nums.length + 1) i

/-- The elements are left sorted. -/
def fourSum (nums : List Int) (target : Int) : Option (List Int × List (List Int)) := do
  let nums := nums.mergeSort fun left right => decide (left ≤ right)
  let result ← loopI nums target 0
  return (nums, result)

/-! ### The skips -/

section

variable {nums : List Int}

theorem skipUp_spec {value : Int} {m k : Nat} (inside : m < nums.length) (upTo : k ≤ m) :
    ∃ stop, skipUp nums value m k = some stop ∧ k ≤ stop ∧ stop ≤ m ∧
      (∀ place, k ≤ place → place < stop → nums[place]? = some value) ∧
      (stop < m → nums[stop]? ≠ some value) := by
  obtain ⟨stop, returned, above, below, holds, fails⟩ :=
    @passUp_spec Int (fun here => decide (here = value)) nums k m inside upTo
  refine ⟨stop, returned, above, below, fun place from_ until_ => ?_, fun less equal => ?_⟩
  · simpa using holds place from_ until_
  · simpa [equal] using fails less

theorem skipDown_spec {value : Int} {k m : Nat} (inside : m < nums.length) (upTo : k ≤ m) :
    ∃ stop, skipDown nums value k m = some stop ∧ k ≤ stop ∧ stop ≤ m ∧
      ∀ place, stop < place → place ≤ m → nums[place]? = some value := by
  obtain ⟨stop, returned, above, below, holds, -⟩ :=
    @passDown_spec Int (fun here => decide (here = value)) nums k m inside upTo
  refine ⟨stop, returned, above, below, fun place from_ until_ => ?_⟩
  simpa using holds place from_ until_

/-- The skip ends at the last place of a run. -/
theorem skipEqual_spec {value : Int} {i : Nat} (valueIs : nums[i]? = some value) :
    ∃ stop, skipEqual nums i = some stop ∧ i ≤ stop ∧
      (∀ place, i ≤ place → place < stop + 1 → nums[place]? = some value) ∧
      nums[stop + 1]? ≠ some value := by
  have inside := (List.getElem?_eq_some_iff.mp valueIs).1
  obtain ⟨stop, returned, above, below, fails, holds⟩ :=
    @moveWhile_succ (fun i => if i < nums.length - 1 then do
        let here ← nums[i]?
        let next ← nums[i + 1]?
        return decide (here = next)
      else some false) nums.length (nums.length - 1) i (by omega) (by omega)
      (fun place _ below => by
        split
        next less =>
          simp [show place < nums.length by omega, show place + 1 < nums.length by omega]
        next => rfl)
      (if_neg (Nat.lt_irrefl _))
  have run : ∀ place, i ≤ place → place < stop + 1 → nums[place]? = some value := by
    intro place from_ until_
    induction place, from_ using Nat.le_induction with
    | base => exact valueIs
    | succ place from_ inductionHypothesis =>
        have held := holds place from_ (by omega)
        have nextIs := List.getElem?_eq_getElem (show place + 1 < nums.length by omega)
        rw [if_pos (by omega), inductionHypothesis (by omega), nextIs] at held
        rw [nextIs]
        simpa [eq_comm] using held
  refine ⟨stop, returned, above, run, fun equal => ?_⟩
  have nextInside := (List.getElem?_eq_some_iff.mp equal).1
  rw [if_pos (by omega), run stop above (Nat.lt_succ_self stop), equal] at fails
  simp at fails

/-! ### All answers -/

/-- Each choice of so many elements with the sum, once; they are chosen behind `start`. -/
structure AllChoices (nums : List Int) (start count : Nat) (target : Int)
    (answers : List (List Int)) : Prop where
  nodup : answers.Nodup
  mem_iff : ∀ answer, answer ∈ answers ↔
    answer.Sublist (nums.drop start) ∧ answer.length = count ∧ answer.sum = target

/-- The answers are the pairs with the sum, which the places between two bounds hold. -/
def AllPairs (nums : List Int) (except : Int) (k m : Nat) (answers : List (List Int)) : Prop :=
  ∀ answer, answer ∈ answers ↔
    ∃ left right, Pair nums k m left right ∧ left + right = except ∧ answer = [left, right]

/-- Bounds may be moved if no pair with the sum is lost. -/
theorem AllPairs.widen {except : Int} {k m k' m' : Nat} {answers : List (List Int)}
    (all : AllPairs nums except k' m' answers) (up : k ≤ k') (down : m' ≤ m)
    (kept : ∀ left right, Pair nums k m left right → left + right = except →
      Pair nums k' m' left right) : AllPairs nums except k m answers := by
  intro answer
  rw [all answer]
  constructor
  · rintro ⟨left, right, pair, sum, answerIs⟩
    exact ⟨left, right, pair.mono up down, sum, answerIs⟩
  · rintro ⟨left, right, pair, sum, answerIs⟩
    exact ⟨left, right, kept left right pair sum, sum, answerIs⟩

/-- A pair with the sum is one more answer; the others have neither of its elements. -/
theorem AllPairs.cons {except first last : Int} {k m k' m' : Nat} {answers : List (List Int)}
    (all : AllPairs nums except k' m' answers) (up : k ≤ k') (down : m' ≤ m)
    (found : Pair nums k m first last) (sum : first + last = except)
    (kept : ∀ left right, Pair nums k m left right → left ≠ first → right ≠ last →
      Pair nums k' m' left right) : AllPairs nums except k m ([first, last] :: answers) := by
  intro answer
  rw [List.mem_cons, all answer]
  constructor
  · rintro (rfl | ⟨left, right, pair, sumToo, answerIs⟩)
    · exact ⟨first, last, found, sum, rfl⟩
    · exact ⟨left, right, pair.mono up down, sumToo, answerIs⟩
  · rintro ⟨left, right, pair, sumToo, rfl⟩
    by_cases same : left = first
    · exact Or.inl (by rw [same, show right = last by omega])
    · exact Or.inr ⟨left, right, kept left right pair same (by omega), sumToo, rfl⟩

theorem pairLoop_spec (sorted : nums.Pairwise (· ≤ ·)) {except : Int} {fuel k m : Nat}
    (inside : m ≤ nums.length - 1) (enough : m - k < fuel) :
    ∃ answers, pairLoop nums except fuel k m = some answers ∧ answers.Nodup ∧
      AllPairs nums except k m answers := by
  induction fuel generalizing k m with
  | zero => exact absurd enough (Nat.not_lt_zero _)
  | succ fuel inductionHypothesis =>
      rw [pairLoop]
      split
      next less =>
        have firstIs := List.getElem?_eq_getElem (show k < nums.length by omega)
        have lastIs := List.getElem?_eq_getElem (show m < nums.length by omega)
        generalize nums[k] = first at firstIs
        generalize nums[m] = last at lastIs
        rw [firstIs, lastIs]
        dsimp only [Option.bind_eq_bind, Option.bind_some]
        split
        next tooSmall =>
          obtain ⟨answers, returned, distinct, all⟩ :=
            inductionHypothesis inside (show m - (k + 1) < fuel by omega)
          refine ⟨answers, returned, distinct,
            all.widen (Nat.le_succ k) (Nat.le_refl m) fun left right pair sum => ?_⟩
          rcases pair.without_low sorted firstIs lastIs with later | ⟨rfl, below⟩
          · exact later
          · omega
        next notSmaller =>
          split
          next tooLarge =>
            obtain ⟨answers, returned, distinct, all⟩ :=
              @inductionHypothesis k (m - 1) (by omega) (by omega)
            refine ⟨answers, returned, distinct,
              all.widen (Nat.le_refl k) (Nat.sub_le m 1) fun left right pair sum => ?_⟩
            rcases pair.without_high sorted firstIs lastIs with later | ⟨above, rfl⟩
            · exact later
            · omega
          next notLarger =>
            obtain ⟨k', upIs, kAbove, kBelow, kRun, kEnds⟩ :=
              @skipUp_spec nums first m k (by omega) (Nat.le_of_lt less)
            obtain ⟨m', downIs, mAbove, mBelow, mRun⟩ :=
              @skipDown_spec nums last k' m (by omega) kBelow
            have moved : k < k' := by
              refine Nat.lt_of_le_of_ne kAbove fun same => ?_
              subst same
              exact kEnds less firstIs
            obtain ⟨answers, returned, distinct, all⟩ :=
              @inductionHypothesis k' m' (by omega) (by omega)
            refine ⟨[first, last] :: answers, ?_, ?_, all.cons kAbove mBelow
              (pair_of_ends less firstIs lastIs) (by omega) fun left right pair other others => ?_⟩
            · rw [upIs]
              dsimp only [Option.bind_some]
              rw [downIs]
              dsimp only [Option.bind_some]
              rw [returned]
              rfl
            · refine List.nodup_cons.mpr ⟨fun again => ?_, distinct⟩
              -- what is left begins behind the run of `first`
              obtain ⟨left, right, ⟨p, q, above, ordered, below, leftIs, -⟩, -, same⟩ :=
                (all [first, last]).mp again
              have greater := lt_of_beyond_run sorted kAbove firstIs (kEnds (by omega)) above leftIs
              simp only [List.cons.injEq, and_true] at same
              omega
            · exact (pair.above_run kRun other).below_run mRun others
      next done =>
        refine ⟨[], rfl, List.nodup_nil, fun answer => ?_⟩
        refine iff_of_false List.not_mem_nil ?_
        rintro ⟨left, right, pair, -⟩
        exact absurd pair (not_pair_of_le (Nat.le_of_not_lt done))

theorem loopK_spec (sorted : nums.Pairwise (· ≤ ·)) (except_ij : Int) (k : Nat) :
    ∃ answers, loopK nums except_ij k = some answers ∧
      AllChoices nums k 2 except_ij answers := by
  obtain ⟨answers, returned, distinct, all⟩ :=
    @pairLoop_spec nums sorted except_ij (nums.length + 1) k (nums.length - 1)
      (Nat.le_refl _) (by omega)
  refine ⟨answers, returned, distinct, fun answer => (all answer).trans ?_⟩
  constructor
  · rintro ⟨left, right, pair, sum, rfl⟩
    exact ⟨pair_iff_sublist.mp pair, rfl, by simpa using sum⟩
  · rintro ⟨chosen, two, sum⟩
    obtain ⟨left, right, rfl⟩ := List.length_eq_two.mp two
    exact ⟨left, right, pair_iff_sublist.mpr chosen, by simpa using sum, rfl⟩

/-- A loop around an inner one that finds all choices finds those with one element more. -/
theorem valueLoop_spec (sorted : nums.Pairwise (· ≤ ·)) {count : Nat}
    {inner : Int → Nat → Option (List (List Int))}
    (innerSpec : ∀ target start, ∃ answers, inner target start = some answers ∧
      AllChoices nums start count target answers)
    (target : Int) {fuel i : Nat} (enough : nums.length - i < fuel) :
    ∃ answers, valueLoop nums inner target fuel i = some answers ∧
      AllChoices nums i (count + 1) target answers := by
  induction fuel generalizing i with
  | zero => exact absurd enough (Nat.not_lt_zero _)
  | succ fuel inductionHypothesis =>
      rw [valueLoop]
      split
      next inside =>
        have valueIs := List.getElem?_eq_getElem inside
        generalize nums[i] = value at valueIs
        obtain ⟨here, hereIs, hereAll⟩ := innerSpec (target - value) (i + 1)
        obtain ⟨stop, stopIs, above, run, ends⟩ := skipEqual_spec valueIs
        obtain ⟨later, laterIs, laterAll⟩ :=
          inductionHypothesis (show nums.length - (stop + 1) < fuel by omega)
        refine ⟨here.map (value :: ·) ++ later, ?_, ?_, fun answer => ?_⟩
        · simp [valueIs, hereIs, stopIs, laterIs]
        · refine List.Nodup.append (hereAll.nodup.map (List.cons_injective)) laterAll.nodup ?_
          intro answer inHere inLater
          obtain ⟨others, -, rfl⟩ := List.mem_map.mp inHere
          obtain ⟨place, behind, placeIs, -⟩ :=
            cons_sublist_drop_iff.mp ((laterAll.mem_iff _).mp inLater).1
          have greater := lt_of_beyond_run sorted (by omega) valueIs ends behind placeIs
          exact lt_irrefl value greater
        · rw [List.mem_append, List.mem_map, laterAll.mem_iff]
          cases answer with
          | nil => simp
          | cons first others =>
              rw [cons_sublist_run_iff (Nat.lt_succ_of_le above) run, List.length_cons,
                List.sum_cons]
              constructor
              · rintro (⟨chosen, inHere, same⟩ | ⟨chosen, size, sum⟩)
                · obtain ⟨rfl, rfl⟩ := List.cons.inj same
                  obtain ⟨behind, size, sum⟩ := (hereAll.mem_iff chosen).mp inHere
                  exact ⟨Or.inl ⟨rfl, behind⟩, congrArg (· + 1) size, by omega⟩
                · exact ⟨Or.inr chosen, size, sum⟩
              · rintro ⟨⟨rfl, behind⟩ | chosen, size, sum⟩
                · refine Or.inl ⟨others, (hereAll.mem_iff others).mpr ?_, rfl⟩
                  exact ⟨behind, Nat.succ.inj size, by omega⟩
                · exact Or.inr ⟨chosen, size, sum⟩
      next done =>
        refine ⟨[], rfl, List.nodup_nil, fun answer => ?_⟩
        refine iff_of_false List.not_mem_nil ?_
        rintro ⟨chosen, size, -⟩
        rw [List.drop_eq_nil_of_le (Nat.le_of_not_lt done), List.sublist_nil] at chosen
        simp [chosen] at size

theorem loopI_spec (sorted : nums.Pairwise (· ≤ ·)) (target : Int) :
    ∃ answers, loopI nums target 0 = some answers ∧ AllChoices nums 0 4 target answers :=
  valueLoop_spec sorted (fun except_i j =>
    valueLoop_spec sorted (loopK_spec sorted) except_i (by omega)) target (by omega)

/-- The sub-permutations are the elements at different positions, in any order. -/
theorem fourSum_spec (nums : List Int) (target : Int) :
    ∃ sorted result, fourSum nums target = some (sorted, result) ∧
      sorted.Perm nums ∧ result.Nodup ∧
      ∀ answer, answer ∈ result ↔ answer.Pairwise (· ≤ ·) ∧ answer.Subperm nums ∧
        answer.length = 4 ∧ answer.sum = target := by
  have permutation := List.mergeSort_perm nums fun left right => decide (left ≤ right)
  have ascending := pairwise_mergeSort_le nums
  obtain ⟨result, returned, all⟩ := loopI_spec ascending target
  refine ⟨_, result, ?_, permutation, all.nodup, fun answer => ?_⟩
  · rw [fourSum, returned]
    rfl
  · rw [all.mem_iff, List.drop_zero]
    constructor
    · rintro ⟨chosen, four, sum⟩
      exact ⟨ascending.sublist chosen, chosen.subperm.trans permutation.subperm, four, sum⟩
    · rintro ⟨ordered, chosen, four, sum⟩
      have inSorted := chosen.trans permutation.symm.subperm
      exact ⟨List.sublist_of_subperm_of_pairwise inSorted ordered ascending, four, sum⟩

end

end FourSum

end StdPrograms.Hobbies

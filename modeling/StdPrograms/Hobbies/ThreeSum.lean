import Mathlib.Algebra.Order.BigOperators.Group.List
import Mathlib.Algebra.Order.Group.Int
import Mathlib.Data.List.Sort
import StdPrograms.Foundation.SignedInt
import StdPrograms.Foundation.Sorting
import StdPrograms.Foundation.TwoPointers

/-!
Contract: three elements with the sum zero.

Owns `threeSum` of `solution_15.cpp`: three loops that each pass over an element that is equal to
the one they took last, with sums and indices of type `int`, and that it finds all triplets and none
twice.

Does not own the lines it prints.
-/

namespace StdPrograms.Hobbies

open StdPrograms.Foundation

namespace ThreeSum

section Code

/-- Whether the element that a loop took last, if there is one, is equal to this one. -/
def repeated (nums : List Int) (prev : Option Nat) (value : Int) : Option Bool :=
  match prev with
  | none => some false
  | some prev => nums[prev]?.map fun before => decide (before = value)

/-- The loops over `i` and over `j`, which differ in the sum they compare with zero and in the loop
inside. Their answers are without the elements that are chosen outside. -/
def valueLoop (nums : List Int) (sumOf : Int → Option Int)
    (inner : Int → Nat → Option (List (List Int))) :
    Nat → Option Nat → Nat → Option (List (List Int))
  | 0, _, _ => none
  | fuel + 1, prev, i =>
      if i < nums.length then do
        let value ← nums[i]?
        let sum ← sumOf value
        if sum > 0 then return []
        else
          let next ← position 32 (i + 1)
          if ← repeated nums prev value then valueLoop nums sumOf inner fuel prev next
          else
            let answers ← inner value next
            let later ← valueLoop nums sumOf inner fuel (some i) next
            return answers.map (value :: ·) ++ later
      else some []

/-- The loop over `k`. -/
def lastLoop (nums : List Int) (first second : Int) :
    Nat → Option Nat → Nat → Option (List (List Int))
  | 0, _, _ => none
  | fuel + 1, prev, k =>
      if k < nums.length then do
        let value ← nums[k]?
        if ← repeated nums prev value then
          let next ← position 32 (k + 1)
          lastLoop nums first second fuel prev next
        else
          let sum ← signed 32 (first + second)
          let sum ← signed 32 (sum + value)
          if sum > 0 then return []
          else
            let next ← position 32 (k + 1)
            let later ← lastLoop nums first second fuel (some k) next
            return if sum = 0 then [value] :: later else later
      else some []

def loopK (nums : List Int) (first second : Int) (k : Nat) : Option (List (List Int)) :=
  lastLoop nums first second (nums.length + 1) none k

def loopJ (nums : List Int) (first : Int) (j : Nat) : Option (List (List Int)) :=
  valueLoop nums (fun second => signed 32 (first + second)) (loopK nums first)
    (nums.length + 1) none j

def loopI (nums : List Int) : Option (List (List Int)) :=
  valueLoop nums some (loopJ nums) (nums.length + 1) none 0

/-- The elements are left sorted. -/
def threeSum (nums : List Int) : Option (List Int × List (List Int)) := do
  let nums := nums.mergeSort fun left right => decide (left ≤ right)
  let result ← loopI nums
  return (nums, result)

end Code

/-! ### The choices of a loop -/

/-- Each choice of so many elements with the sum, once, that does not begin with the element that
was taken last. -/
structure NewChoices (ahead : List Int) (count : Nat) (target : Int) (last : Option Int)
    (answers : List (List Int)) : Prop where
  nodup : answers.Nodup
  mem_iff : ∀ answer, answer ∈ answers ↔ answer.Sublist ahead ∧ answer.length = count ∧
    answer.sum = target ∧ ∀ value ∈ last, answer.head? ≠ some value

variable {ahead rest : List Int} {count : Nat} {target value : Int} {last : Option Int}
  {chosen answers : List (List Int)}

/-- A choice from a list begins with its first element, or can do without it. -/
theorem sublist_cons_iff_head {answer : List Int} :
    answer.Sublist (value :: rest) ↔
      (∃ others, answer = value :: others ∧ others.Sublist rest) ∨
        answer.Sublist rest ∧ answer.head? ≠ some value := by
  constructor
  · intro chosen
    by_cases begins : answer.head? = some value
    · obtain ⟨others, rfl⟩ := List.head?_eq_some_iff.mp begins
      exact Or.inl ⟨others, rfl, List.cons_sublist_cons.mp chosen⟩
    · refine Or.inr ⟨?_, begins⟩
      cases chosen with
      | cons _ later => exact later
      | cons_cons _ _ => exact absurd rfl begins
  · rintro (⟨others, rfl, chosen⟩ | ⟨chosen, -⟩)
    · exact chosen.cons_cons value
    · exact chosen.cons value

theorem NewChoices.none (without : ∀ answer : List Int, answer.Sublist ahead →
    answer.length = count → answer.sum ≠ target) : NewChoices ahead count target last [] := by
  refine ⟨List.nodup_nil, fun answer => iff_of_false List.not_mem_nil ?_⟩
  rintro ⟨chosen, size, sum, -⟩
  exact without answer chosen size sum

/-- The first element is equal to the one that was taken last. -/
theorem NewChoices.skip (choices : NewChoices rest count target (some value) answers) :
    NewChoices (value :: rest) count target (some value) answers := by
  refine ⟨choices.nodup, fun answer => ?_⟩
  rw [choices.mem_iff, sublist_cons_iff_head]
  simp only [Option.mem_def, Option.some.injEq, forall_eq']
  constructor
  · rintro ⟨chosen, size, sum, other⟩
    exact ⟨Or.inr ⟨chosen, other⟩, size, sum, other⟩
  · rintro ⟨⟨others, rfl, -⟩ | ⟨chosen, -⟩, size, sum, other⟩
    · exact absurd rfl other
    · exact ⟨chosen, size, sum, other⟩

/-- The first element is taken: what is chosen behind it, and what does not begin with it. -/
theorem NewChoices.take (inner : NewChoices rest count (target - value) Option.none chosen)
    (later : NewChoices rest (count + 1) target (some value) answers)
    (fresh : ∀ before ∈ last, before ∉ value :: rest) :
    NewChoices (value :: rest) (count + 1) target last (chosen.map (value :: ·) ++ answers) := by
  refine ⟨(inner.nodup.map List.cons_injective).append later.nodup ?_, fun answer => ?_⟩
  · intro answer inHere inLater
    obtain ⟨others, -, rfl⟩ := List.mem_map.mp inHere
    exact ((later.mem_iff _).mp inLater).2.2.2 value rfl rfl
  · have unused : answer.Sublist (value :: rest) → ∀ before ∈ last, answer.head? ≠ some before := by
      intro sublist before isLast begins
      exact fresh before isLast (sublist.subset (List.mem_of_mem_head? begins))
    rw [List.mem_append, List.mem_map, later.mem_iff]
    constructor
    · rintro (⟨others, inChosen, rfl⟩ | ⟨sublist, size, sum, -⟩)
      · obtain ⟨sublist, size, sum, -⟩ := (inner.mem_iff others).mp inChosen
        have whole := sublist.cons_cons value
        refine ⟨whole, ?_, ?_, unused whole⟩
        · rw [List.length_cons, size]
        · rw [List.sum_cons, sum, add_sub_cancel]
      · have whole := sublist.cons value
        exact ⟨whole, size, sum, unused whole⟩
    · rintro ⟨sublist, size, sum, -⟩
      rcases sublist_cons_iff_head.mp sublist with ⟨others, rfl, behind⟩ | ⟨behind, other⟩
      · rw [List.sum_cons] at sum
        refine Or.inl ⟨others, (inner.mem_iff others).mpr ⟨behind, ?_, ?_, by simp⟩, rfl⟩
        · exact Nat.succ.inj size
        · rw [← sum, add_sub_cancel_left]
      · refine Or.inr ⟨behind, size, sum, ?_⟩
        intro before isValue
        rwa [← Option.some.inj isValue]

/-! ### The loops -/

/-- What a loop knows about the element that it took last. -/
structure Taken (nums : List Int) (i : Nat) (prev : Option Nat) (last : Option Int) : Prop where
  reads : ∀ value, repeated nums prev value = some (decide (last = some value))
  below : ∀ before ∈ last, ∀ value ∈ nums.drop i, before ≤ value

variable {nums : List Int} {i : Nat} {prev : Option Nat}

theorem taken_start (nums : List Int) (i : Nat) : Taken nums i Option.none Option.none :=
  ⟨fun _ => rfl, fun _ absent => nomatch absent⟩

theorem Taken.succ (taken : Taken nums i prev last) : Taken nums (i + 1) prev last := by
  refine ⟨taken.reads, fun before isLast value member => taken.below before isLast value ?_⟩
  rw [← List.drop_drop] at member
  exact List.mem_of_mem_drop member

theorem taken_here (sorted : nums.Pairwise (· ≤ ·)) (inside : i < nums.length) :
    Taken nums (i + 1) (some i) (some nums[i]) := by
  constructor
  · intro value
    simp [repeated, List.getElem?_eq_getElem inside]
  · intro before isLast value member
    have ahead := sorted.sublist (List.drop_sublist i nums)
    rw [List.drop_eq_getElem_cons inside] at ahead
    rw [← Option.some.inj isLast]
    exact List.rel_of_pairwise_cons ahead member

/-- An element that is not equal to the one taken last is greater, as are all behind it. -/
theorem Taken.fresh (taken : Taken nums i prev last) (sorted : nums.Pairwise (· ≤ ·))
    (inside : i < nums.length) (differs : last ≠ some nums[i]) :
    ∀ before ∈ last, before ∉ nums[i] :: nums.drop (i + 1) := by
  intro before isLast member
  have ahead := sorted.sublist (List.drop_sublist i nums)
  have least := taken.below before isLast nums[i]
  rw [List.drop_eq_getElem_cons inside] at ahead least
  have notHere : before ≠ nums[i] := fun same => differs (same ▸ isLast)
  cases member with
  | head => exact notHere rfl
  | tail _ behind =>
      have greater := List.rel_of_pairwise_cons ahead behind
      have here := least List.mem_cons_self
      omega

theorem le_of_mem_drop (sorted : nums.Pairwise (· ≤ ·)) (inside : i < nums.length) :
    ∀ value ∈ nums.drop i, nums[i] ≤ value := by
  intro value member
  have ahead := sorted.sublist (List.drop_sublist i nums)
  rw [List.drop_eq_getElem_cons inside] at ahead member
  cases member with
  | head => exact le_refl _
  | tail _ behind => exact List.rel_of_pairwise_cons ahead behind

theorem newChoices_end (outside : nums.length ≤ i) :
    NewChoices (nums.drop i) (count + 1) target last [] := by
  apply NewChoices.none
  intro answer chosen size
  rw [List.drop_eq_nil_of_le outside, List.sublist_nil] at chosen
  rw [chosen] at size
  exact absurd size (Nat.succ_ne_zero count).symm

theorem newChoices_zero (ahead : List Int) (target : Int) :
    NewChoices ahead 0 target Option.none (if target = 0 then [[]] else []) := by
  split
  next zero =>
    refine ⟨List.nodup_singleton [], fun answer => ?_⟩
    rw [List.mem_singleton, List.length_eq_zero_iff]
    constructor
    · rintro rfl
      exact ⟨List.nil_sublist ahead, rfl, zero.symm, by simp⟩
    · exact fun choice => choice.2.1
  next nonzero =>
    apply NewChoices.none
    intro answer _ size sum
    rw [List.length_eq_zero_iff.mp size] at sum
    exact nonzero sum.symm

/-- The innermost loop, where no sum overflows. -/
theorem lastLoop_spec (sorted : nums.Pairwise (· ≤ ·)) (few : nums.length < 2 ^ 31)
    {first second : Int} (pair : InSigned 32 (first + second))
    (fits : ∀ value ∈ nums.drop i, InSigned 32 (first + second + value))
    {fuel : Nat} (taken : Taken nums i prev last) (enough : nums.length - i < fuel) :
    ∃ answers, lastLoop nums first second fuel prev i = some answers ∧
      NewChoices (nums.drop i) 1 (-(first + second)) last answers := by
  induction fuel generalizing i prev last with
  | zero => exact absurd enough (Nat.not_lt_zero _)
  | succ fuel inductionHypothesis =>
      rw [lastLoop]
      split
      next inside =>
        have counted : position 32 (i + 1) = some (i + 1) := position_of_lt (by omega)
        have least := le_of_mem_drop sorted inside
        rw [List.drop_eq_getElem_cons inside] at fits least
        have fitsBehind := fun value member => fits value (List.mem_cons_of_mem _ member)
        rw [List.getElem?_eq_getElem inside, List.drop_eq_getElem_cons inside]
        simp only [Option.bind_eq_bind, Option.bind_some, taken.reads, decide_eq_true_eq]
        split
        next same =>
          subst same
          obtain ⟨answers, returned, choices⟩ :=
            inductionHypothesis fitsBehind taken.succ (by omega)
          rw [counted, Option.bind_some]
          exact ⟨answers, returned, choices.skip⟩
        next differs =>
          rw [signed_of_inSigned pair, Option.bind_some,
            signed_of_inSigned (fits _ List.mem_cons_self), Option.bind_some]
          split
          next tooLarge =>
            refine ⟨[], rfl, NewChoices.none ?_⟩
            intro answer chosen size sum
            obtain ⟨value, rfl⟩ := List.length_eq_one_iff.mp size
            have atLeast := least value (chosen.subset List.mem_cons_self)
            rw [List.sum_singleton] at sum
            omega
          next =>
            obtain ⟨later, returned, choices⟩ :=
              inductionHypothesis fitsBehind (taken_here sorted inside) (by omega)
            rw [counted, Option.bind_some, returned]
            have inner := newChoices_zero (nums.drop (i + 1)) (-(first + second) - nums[i])
            have whole := inner.take choices (taken.fresh sorted inside differs)
            refine ⟨_, rfl, ?_⟩
            split at whole
            next zero => rwa [if_pos (by omega)]
            next nonzero => rwa [if_neg (by omega)]
      next done => exact ⟨[], rfl, newChoices_end (Nat.le_of_not_lt done)⟩

/-- A loop around an inner one that finds what can be added to an element. It ends where the sum
with the element shows that all further ones are too great. -/
theorem valueLoop_spec (sorted : nums.Pairwise (· ≤ ·)) (few : nums.length < 2 ^ 31)
    (nonnegative : 0 ≤ target) {sumOf : Int → Option Int}
    (sumIs : ∀ value ∈ nums.drop i, sumOf value = some (value - target))
    {inner : Int → Nat → Option (List (List Int))}
    (innerSpec : ∀ place value, i ≤ place → nums[place]? = some value → value ≤ target →
      ∃ answers, inner value (place + 1) = some answers ∧
        NewChoices (nums.drop (place + 1)) count (target - value) Option.none answers)
    {fuel : Nat} (taken : Taken nums i prev last) (enough : nums.length - i < fuel) :
    ∃ answers, valueLoop nums sumOf inner fuel prev i = some answers ∧
      NewChoices (nums.drop i) (count + 1) target last answers := by
  induction fuel generalizing i prev last with
  | zero => exact absurd enough (Nat.not_lt_zero _)
  | succ fuel inductionHypothesis =>
      rw [valueLoop]
      split
      next inside =>
        have counted : position 32 (i + 1) = some (i + 1) := position_of_lt (by omega)
        have least := le_of_mem_drop sorted inside
        rw [List.drop_eq_getElem_cons inside] at sumIs least
        have sumsBehind := fun value member => sumIs value (List.mem_cons_of_mem _ member)
        rw [List.getElem?_eq_getElem inside, Option.bind_eq_bind, Option.bind_some,
          sumIs _ List.mem_cons_self, Option.bind_eq_bind, Option.bind_some,
          List.drop_eq_getElem_cons inside]
        split
        next tooLarge =>
          refine ⟨[], rfl, NewChoices.none ?_⟩
          intro answer chosen size sum
          obtain ⟨value, others, rfl⟩ := List.exists_cons_of_length_eq_add_one size
          have first := least value (chosen.subset List.mem_cons_self)
          have rest : 0 ≤ others.sum := by
            apply List.sum_nonneg
            intro other inOthers
            have above := least other (chosen.subset (List.mem_cons_of_mem value inOthers))
            omega
          rw [List.sum_cons] at sum
          omega
        next notTooLarge =>
          simp only [Option.bind_eq_bind, counted, taken.reads, Option.bind_some, decide_eq_true_eq]
          have innerBehind := fun place value (behind : i + 1 ≤ place) =>
            innerSpec place value (Nat.le_of_succ_le behind)
          split
          next same =>
            subst same
            obtain ⟨answers, returned, choices⟩ :=
              inductionHypothesis sumsBehind innerBehind taken.succ (by omega)
            exact ⟨answers, returned, choices.skip⟩
          next differs =>
            obtain ⟨chosen, found, here⟩ := innerSpec i _ (Nat.le_refl i)
              (List.getElem?_eq_getElem inside) (by omega)
            obtain ⟨later, returned, choices⟩ :=
              inductionHypothesis sumsBehind innerBehind (taken_here sorted inside) (by omega)
            rw [found, Option.bind_some, returned]
            exact ⟨_, rfl, here.take choices (taken.fresh sorted inside differs)⟩
      next done => exact ⟨[], rfl, newChoices_end (Nat.le_of_not_lt done)⟩

/-- No sum of two elements, or of three, leaves the range of an `int`. -/
structure SumsFit (chosen : List Int → Prop) : Prop where
  pairs : ∀ a b, chosen [a, b] → InSigned 32 (a + b)
  triples : ∀ a b c, chosen [a, b, c] → InSigned 32 (a + b + c)

theorem loopI_spec (sorted : nums.Pairwise (· ≤ ·)) (few : nums.length < 2 ^ 31)
    (fit : SumsFit (List.Sublist · nums)) :
    ∃ answers, loopI nums = some answers ∧ NewChoices nums 3 0 Option.none answers := by
  refine valueLoop_spec sorted few (le_refl 0) (fun value _ => by rw [sub_zero]) ?_
    (taken_start nums 0) (Nat.lt_succ_of_le (Nat.sub_le _ _))
  intro i first _ firstIs atMost
  have withFirst {others : List Int} (behind : others.Sublist (nums.drop (i + 1))) :
      (first :: others).Sublist nums :=
    cons_sublist_drop_iff.mpr ⟨i, Nat.zero_le i, firstIs, behind⟩
  apply valueLoop_spec sorted few (by omega) _ _ (taken_start nums (i + 1)) (by omega)
  · intro second member
    have pair := fit.pairs first second (withFirst (List.singleton_sublist.mpr member))
    rw [signed_of_inSigned pair, zero_sub, sub_neg_eq_add, add_comm]
  · intro j second behind secondIs _
    have withBoth {others : List Int} (later : others.Sublist (nums.drop (j + 1))) :
        (first :: second :: others).Sublist nums :=
      withFirst (cons_sublist_drop_iff.mpr ⟨j, behind, secondIs, later⟩)
    have triples := fun third member =>
      fit.triples first second third (withBoth (List.singleton_sublist.mpr member))
    have pair := fit.pairs first second (withBoth (List.nil_sublist _))
    have enough : nums.length - (j + 1) < nums.length + 1 := Nat.lt_succ_of_le (Nat.sub_le _ _)
    obtain ⟨answers, returned, choices⟩ :=
      lastLoop_spec sorted few pair triples (taken_start nums (j + 1)) enough
    refine ⟨answers, returned, ?_⟩
    rwa [zero_sub, ← neg_add']

/-- All triplets with the sum zero are found, each once and with its elements in order, where no
sum overflows and the elements are no more than an `int` counts. -/
theorem threeSum_all {nums : List Int} (few : nums.length < 2 ^ 31)
    (fit : SumsFit (List.Subperm · nums)) :
    ∃ sorted result, threeSum nums = some (sorted, result) ∧ sorted.Perm nums ∧ result.Nodup ∧
      ∀ answer, answer ∈ result ↔ answer.Pairwise (· ≤ ·) ∧ answer.Subperm nums ∧
        answer.length = 3 ∧ answer.sum = 0 := by
  have permutation := List.mergeSort_perm nums fun left right => decide (left ≤ right)
  have ascending := pairwise_mergeSort_le nums
  obtain ⟨result, returned, choices⟩ := loopI_spec ascending (by rwa [permutation.length_eq])
    { pairs := fun a b chosen => fit.pairs a b (chosen.subperm.trans permutation.subperm)
      triples := fun a b c chosen => fit.triples a b c (chosen.subperm.trans permutation.subperm) }
  refine ⟨_, result, ?_, permutation, choices.nodup, fun answer => ?_⟩
  · rw [threeSum, returned]
    rfl
  · rw [choices.mem_iff]
    constructor
    · rintro ⟨chosen, size, sum, -⟩
      exact ⟨ascending.sublist chosen, chosen.subperm.trans permutation.subperm, size, sum⟩
    · rintro ⟨ordered, chosen, size, sum⟩
      have inSorted := chosen.trans permutation.symm.subperm
      exact ⟨List.sublist_of_subperm_of_pairwise inSorted ordered ascending, size, sum, by simp⟩

/-- Large elements, whose sums are `int`s. -/
theorem threeSum_all_large :
    ∃ sorted result, threeSum [600000000, -300000000, 0, -300000000] = some (sorted, result) ∧
      sorted.Perm [600000000, -300000000, 0, -300000000] ∧ result.Nodup ∧
      ∀ answer, answer ∈ result ↔ answer.Pairwise (· ≤ ·) ∧
        answer.Subperm [600000000, -300000000, 0, -300000000] ∧
        answer.length = 3 ∧ answer.sum = 0 := by
  have bounds {chosen : List Int} (within : chosen.Subperm [600000000, -300000000, 0, -300000000])
      {value : Int} (member : value ∈ chosen) : -300000000 ≤ value ∧ value ≤ 600000000 := by
    have among := within.subset member
    simp only [List.mem_cons, List.not_mem_nil, or_false] at among
    omega
  refine threeSum_all (by decide) ⟨fun a b within => ?_, fun a b c within => ?_⟩
  · have first := bounds within (show a ∈ _ by simp)
    have second := bounds within (show b ∈ _ by simp)
    constructor <;> omega
  · have first := bounds within (show a ∈ _ by simp)
    have second := bounds within (show b ∈ _ by simp)
    have third := bounds within (show c ∈ _ by simp)
    constructor <;> omega

end ThreeSum

end StdPrograms.Hobbies

import StdPrograms.Base.TimerQueue

/-!
Contract: where the sift loops of `timerqueue.cpp` end.

Owns the loop of `down_heap`, which like the one of `up_heap` never moves its index and
swaps on equality, and the deadlines for which each of the two comes to an end.

Does not own what they leave of the heap order.
-/

namespace StdPrograms.Base

open StdPrograms.Foundation

namespace TimerQueueImpl

variable {κ : Type}

/-- The child that is compared: the left one, unless the right one is earlier. -/
def min_child (timers : Array (Timer κ)) (left : Nat) (inside : left < timers.size) : Nat :=
  if right : left + 1 < timers.size then
    if timers[left + 1].when_ < timers[left].when_ then left + 1 else left
  else left

theorem min_child_cases (timers : Array (Timer κ)) (left : Nat) (inside : left < timers.size) :
    min_child timers left inside = left ∨
      min_child timers left inside = left + 1 ∧ left + 1 < timers.size := by
  unfold min_child
  split
  next right =>
    split
    next => exact Or.inr ⟨rfl, right⟩
    next => exact Or.inl rfl
  next => exact Or.inl rfl

theorem min_child_lt (timers : Array (Timer κ)) (left : Nat) (inside : left < timers.size) :
    min_child timers left inside < timers.size := by
  cases min_child_cases timers left inside with
  | inl isLeft =>
      rw [isLeft]
      exact inside
  | inr isRight =>
      rw [isRight.1]
      exact isRight.2

theorem index_lt {timers : Array (Timer κ)} {index : Nat} (left : 2 * index + 1 < timers.size) :
    index < timers.size := by
  omega

theorem min_child_below_lt {timers : Array (Timer κ)} {index : Nat}
    (left : 2 * index + 1 < timers.size) :
    min_child timers (2 * index + 1) left < timers.size :=
  min_child_lt timers (2 * index + 1) left

/-- The loop, as often as the fuel allows. -/
def down_heap : Nat → Array (Timer κ) → Nat → Option (Array (Timer κ))
  | 0, _, _ => none
  | fuel + 1, timers, index =>
      if left : 2 * index + 1 < timers.size then
        have inside := index_lt left
        have below := min_child_below_lt left
        if timers[index].when_ < timers[min_child timers (2 * index + 1) left].when_ then
          some timers
        else
          down_heap fuel (timers.swap index (min_child timers (2 * index + 1) left)) index
      else some timers

/-- A loop ends when some amount of fuel gives a result. -/
def Terminates (loop : Nat → Option (Array (Timer κ))) : Prop :=
  ∃ fuel result, loop fuel = some result

/-- One of the two places below an index. -/
def IsChild (child index : Nat) : Prop := 0 < child ∧ parent child = index

theorem isChild_iff {child index : Nat} :
    IsChild child index ↔ child = 2 * index + 1 ∨ child = 2 * index + 2 := by
  unfold IsChild parent
  omega

theorem IsChild.lt {child index : Nat} (below : IsChild child index) : index < child := by
  have places := isChild_iff.mp below
  omega

theorem isChild_min_child (timers : Array (Timer κ)) (index : Nat)
    (left : 2 * index + 1 < timers.size) :
    IsChild (min_child timers (2 * index + 1) left) index := by
  rw [isChild_iff]
  cases min_child_cases timers (2 * index + 1) left with
  | inl isLeft => exact Or.inl isLeft
  | inr isRight => exact Or.inr isRight.1

variable {timers : Array (Timer κ)} {index : Nat}

/-- No child is earlier than the one that is compared. -/
theorem min_child_le (left : 2 * index + 1 < timers.size)
    (below : min_child timers (2 * index + 1) left < timers.size) {child : Nat}
    (isChild : IsChild child index) (inside : child < timers.size) :
    timers[min_child timers (2 * index + 1) left].when_ ≤ timers[child].when_ := by
  have places := isChild_iff.mp isChild
  revert below
  unfold min_child
  split
  next right =>
    split
    next earlier =>
      intro below
      rcases places with rfl | rfl
      · exact le_of_lt earlier
      · exact le_refl _
    next later =>
      intro below
      rcases places with rfl | rfl
      · exact le_refl _
      · exact le_of_not_gt later
  next alone =>
    intro below
    rcases places with rfl | rfl
    · exact le_refl _
    · exact absurd inside alone

/-! ### One test of the loop -/

theorem down_heap_childless (fuel : Nat) (childless : ¬2 * index + 1 < timers.size) :
    down_heap (fuel + 1) timers index = some timers := by
  rw [down_heap, dif_neg childless]

theorem down_heap_stops (fuel : Nat) (left : 2 * index + 1 < timers.size)
    (inside : index < timers.size)
    (below : min_child timers (2 * index + 1) left < timers.size)
    (earlier : timers[index].when_ < timers[min_child timers (2 * index + 1) left].when_) :
    down_heap (fuel + 1) timers index = some timers := by
  rw [down_heap, dif_pos left]
  exact if_pos earlier

theorem down_heap_swaps (fuel : Nat) (left : 2 * index + 1 < timers.size)
    (inside : index < timers.size)
    (below : min_child timers (2 * index + 1) left < timers.size)
    (later : timers[min_child timers (2 * index + 1) left].when_ ≤ timers[index].when_) :
    down_heap (fuel + 1) timers index =
      down_heap fuel
        (timers.swap index (min_child timers (2 * index + 1) left) inside below) index := by
  rw [down_heap, dif_pos left]
  exact if_neg (not_lt_of_ge later)

/-! ### Where the loop of `down_heap` goes on for ever -/

/-- The timer is as early as any below it, and one of these is as early. -/
def SharesEarliest (timers : Array (Timer κ)) (index : Nat) (inside : index < timers.size) :
    Prop :=
  (∃ (child : Nat) (below : child < timers.size),
    IsChild child index ∧ timers[child].when_ = timers[index].when_) ∧
  ∀ (child : Nat) (below : child < timers.size), IsChild child index →
    timers[index].when_ ≤ timers[child].when_

/-- Two timers of one deadline can change places unseen. -/
theorem when_swap_equal {first second : Nat} (firstInside : first < timers.size)
    (secondInside : second < timers.size)
    (equal : timers[first].when_ = timers[second].when_) (place : Nat)
    (inside : place < timers.size)
    (stillInside : place < (timers.swap first second firstInside secondInside).size) :
    (timers.swap first second firstInside secondInside)[place].when_ = timers[place].when_ := by
  rw [Array.getElem_swap]
  split
  next isFirst =>
    subst isFirst
    exact equal.symm
  next =>
    split
    next isSecond =>
      subst isSecond
      exact equal
    next => rfl

theorem SharesEarliest.swap {inside : index < timers.size} {child : Nat}
    (shared : SharesEarliest timers index inside) (below : child < timers.size)
    (equal : timers[index].when_ = timers[child].when_)
    (stillInside : index < (timers.swap index child inside below).size) :
    SharesEarliest (timers.swap index child inside below) index stillInside := by
  have size : (timers.swap index child inside below).size = timers.size := Array.size_swap
  have unseen := when_swap_equal inside below equal
  obtain ⟨⟨other, otherBelow, isChild, otherEqual⟩, earliest⟩ := shared
  constructor
  · refine ⟨other, by omega, isChild, ?_⟩
    rw [unseen other otherBelow, unseen index inside]
    exact otherEqual
  · intro next nextBelow nextIsChild
    rw [unseen next (by omega), unseen index inside]
    exact earliest next (by omega) nextIsChild

/-- An earliest timer that shares its deadline with a child changes places with it for
ever. -/
theorem down_heap_shared (inside : index < timers.size)
    (shared : SharesEarliest timers index inside) (fuel : Nat) :
    down_heap fuel timers index = none := by
  induction fuel generalizing timers with
  | zero => rfl
  | succ fuel inductionHypothesis =>
      obtain ⟨⟨child, childBelow, isChild, equal⟩, earliest⟩ := shared
      have left : 2 * index + 1 < timers.size := by
        have places := isChild_iff.mp isChild
        omega
      have below := min_child_lt timers (2 * index + 1) left
      have least := min_child_le left below isChild childBelow
      have compared := earliest _ below (isChild_min_child timers index left)
      rw [equal] at least
      rw [down_heap_swaps fuel left inside below least]
      have stillInside : index <
          (timers.swap index (min_child timers (2 * index + 1) left) inside below).size := by
        rw [Array.size_swap]
        exact inside
      apply inductionHypothesis stillInside
      apply SharesEarliest.swap
      · exact ⟨⟨child, childBelow, isChild, equal⟩, earliest⟩
      · exact le_antisymm compared least

/-! ### Where it ends -/

/-- Of the timer and those below it, the one at this place is earlier than the others. -/
def AloneEarliest (timers : Array (Timer κ)) (index first : Nat)
    (firstInside : first < timers.size) : Prop :=
  ∀ (other : Nat) (inside : other < timers.size), other = index ∨ IsChild other index →
    other ≠ first → timers[first].when_ < timers[other].when_

/-- No two of the timer and its children share the earliest deadline of the three. -/
def EarliestIsUnique (timers : Array (Timer κ)) (index : Nat) : Prop :=
  ∃ (first : Nat) (inside : first < timers.size),
    (first = index ∨ IsChild first index) ∧ AloneEarliest timers index first inside

/-- Once the timer is earlier than its children, the next test ends the loop. -/
theorem down_heap_alone (fuel : Nat) (inside : index < timers.size)
    (alone : AloneEarliest timers index index inside) :
    down_heap (fuel + 1) timers index = some timers := by
  by_cases left : 2 * index + 1 < timers.size
  · have below := min_child_lt timers (2 * index + 1) left
    have isChild := isChild_min_child timers index left
    apply down_heap_stops fuel left inside below
    exact alone _ below (Or.inr isChild) (Nat.ne_of_gt isChild.lt)
  · exact down_heap_childless fuel left

/-- A child that is alone the earliest is, after the swap, an index that is. -/
theorem aloneEarliest_swap {child : Nat} (inside : index < timers.size)
    (below : child < timers.size) (isChild : IsChild child index)
    (alone : AloneEarliest timers index child below)
    (stillInside : index < (timers.swap index child inside below).size) :
    AloneEarliest (timers.swap index child inside below) index index stillInside := by
  intro other otherInside near different
  have size : (timers.swap index child inside below).size = timers.size := Array.size_swap
  rw [Array.getElem_swap_left, Array.getElem_swap]
  split
  next same => exact absurd same different
  next =>
    split
    next => exact alone index inside (Or.inl rfl) (Nat.ne_of_lt isChild.lt)
    next notChild => exact alone other (by omega) near notChild

/-- Two tests are enough where the earliest deadline is unique. -/
theorem down_heap_unique (inside : index < timers.size)
    (unique : EarliestIsUnique timers index) (fuel : Nat) :
    ∃ result, down_heap (fuel + 2) timers index = some result := by
  obtain ⟨first, firstInside, near, alone⟩ := unique
  cases near with
  | inl same =>
      subst same
      exact ⟨timers, down_heap_alone (fuel + 1) inside alone⟩
  | inr isChild =>
      have left : 2 * index + 1 < timers.size := by
        have places := isChild_iff.mp isChild
        omega
      have below := min_child_lt timers (2 * index + 1) left
      have least := min_child_le left below isChild firstInside
      have compared : min_child timers (2 * index + 1) left = first := by
        by_contra different
        have later := alone _ below (Or.inr (isChild_min_child timers index left)) different
        exact absurd least (not_le_of_gt later)
      have later := alone index inside (Or.inl rfl) (Nat.ne_of_lt isChild.lt)
      rw [down_heap_swaps (fuel + 1) left inside below (le_trans least (le_of_lt later))]
      have stillInside : index <
          (timers.swap index (min_child timers (2 * index + 1) left) inside below).size := by
        rw [Array.size_swap]
        exact inside
      refine ⟨_, down_heap_alone fuel stillInside (aloneEarliest_swap inside below ?_ ?_ _)⟩
      · exact isChild_min_child timers index left
      · intro other otherInside near different
        have same : timers[min_child timers (2 * index + 1) left] = timers[first] := by
          congr
        rw [same]
        exact alone other otherInside near (compared ▸ different)

/-- A child as early as the one that comes up shares its deadline with it. -/
theorem sharesEarliest_swap {child other : Nat} (inside : index < timers.size)
    (below : child < timers.size) (otherInside : other < timers.size)
    (otherIsChild : IsChild other index) (different : other ≠ child)
    (least : ∀ (next : Nat) (nextBelow : next < timers.size), IsChild next index →
      timers[child].when_ ≤ timers[next].when_)
    (earlier : timers[child].when_ < timers[index].when_)
    (equal : timers[other].when_ = timers[child].when_)
    (stillInside : index < (timers.swap index child inside below).size) :
    SharesEarliest (timers.swap index child inside below) index stillInside := by
  have size : (timers.swap index child inside below).size = timers.size := Array.size_swap
  have apart : other ≠ index := Nat.ne_of_gt otherIsChild.lt
  constructor
  · refine ⟨other, by omega, otherIsChild, ?_⟩
    rw [Array.getElem_swap_left, Array.getElem_swap_of_ne apart different]
    exact equal
  · intro next nextBelow nextIsChild
    rw [Array.getElem_swap_left, Array.getElem_swap]
    split
    next same => exact absurd same (Nat.ne_of_gt nextIsChild.lt)
    next =>
      split
      next => exact le_of_lt earlier
      next => exact least next (by omega) nextIsChild

/-- A timer that is later than its children has two of one deadline, or its earliest child
is alone. -/
theorem exists_twin (left : 2 * index + 1 < timers.size)
    (below : min_child timers (2 * index + 1) left < timers.size) (inside : index < timers.size)
    (later : timers[min_child timers (2 * index + 1) left].when_ < timers[index].when_)
    (notUnique : ¬EarliestIsUnique timers index) :
    ∃ (other : Nat) (otherInside : other < timers.size), IsChild other index ∧
      other ≠ min_child timers (2 * index + 1) left ∧
      timers[other].when_ = timers[min_child timers (2 * index + 1) left].when_ := by
  by_contra noTwin
  apply notUnique
  refine ⟨_, below, Or.inr (isChild_min_child timers index left), ?_⟩
  intro other otherInside near different
  cases near with
  | inl same =>
      subst same
      exact later
  | inr otherIsChild =>
      apply lt_of_le_of_ne (min_child_le left below otherIsChild otherInside)
      intro equal
      exact noTwin ⟨other, otherInside, otherIsChild, different, equal.symm⟩

/-- Without children the timer's own deadline is the earliest. -/
theorem left_inside_of_not_unique (inside : index < timers.size)
    (notUnique : ¬EarliestIsUnique timers index) : 2 * index + 1 < timers.size := by
  by_contra childless
  apply notUnique
  refine ⟨index, inside, Or.inl rfl, ?_⟩
  intro other otherInside near different
  have places := isChild_iff.mp (near.resolve_left different)
  omega

/-- Where the earliest deadline is shared no amount of tests is enough. -/
theorem down_heap_not_unique (inside : index < timers.size)
    (notUnique : ¬EarliestIsUnique timers index) (fuel : Nat) :
    down_heap fuel timers index = none := by
  have left := left_inside_of_not_unique inside notUnique
  have below := min_child_lt timers (2 * index + 1) left
  have isChild := isChild_min_child timers index left
  have least := fun (next : Nat) (nextBelow : next < timers.size)
    (nextIsChild : IsChild next index) => min_child_le left below nextIsChild nextBelow
  rcases lt_trichotomy timers[index].when_
    timers[min_child timers (2 * index + 1) left].when_ with earlier | equal | later
  · exfalso
    apply notUnique
    refine ⟨index, inside, Or.inl rfl, ?_⟩
    intro other otherInside near different
    exact lt_of_lt_of_le earlier (least other otherInside (near.resolve_left different))
  · apply down_heap_shared inside
    constructor
    · exact ⟨_, below, isChild, equal.symm⟩
    · intro next nextBelow nextIsChild
      rw [equal]
      exact least next nextBelow nextIsChild
  · -- the child comes up, and has a twin below it
    obtain ⟨other, otherInside, otherIsChild, different, equal⟩ :=
      exists_twin left below inside later notUnique
    cases fuel with
    | zero => rfl
    | succ fuel =>
        rw [down_heap_swaps fuel left inside below (le_of_lt later)]
        have stillInside : index <
            (timers.swap index (min_child timers (2 * index + 1) left) inside below).size := by
          rw [Array.size_swap]
          exact inside
        apply down_heap_shared stillInside
        exact sharesEarliest_swap inside below otherInside otherIsChild different least later
          equal stillInside

theorem down_heap_terminates_iff (inside : index < timers.size) :
    (Terminates fun fuel => down_heap fuel timers index) ↔ EarliestIsUnique timers index := by
  constructor
  · intro terminates
    by_contra notUnique
    obtain ⟨fuel, result, returned⟩ := terminates
    have goesOn := down_heap_not_unique inside notUnique fuel
    exact absurd (goesOn.symm.trans returned) (Option.some_ne_none result).symm
  · intro unique
    obtain ⟨result, returned⟩ := down_heap_unique inside unique 0
    exact ⟨2, result, returned⟩

/-- The timer and the one above it have different deadlines. -/
def DiffersFromParent (timers : Array (Timer κ)) (index : Nat) : Prop :=
  0 < index → ∀ (inside : index < timers.size) (above : parent index < timers.size),
    timers[parent index].when_ ≠ timers[index].when_

theorem up_heap_terminates_iff (inside : index < timers.size) :
    (Terminates fun fuel => up_heap fuel timers index) ↔ DiffersFromParent timers index := by
  constructor
  · intro terminates positive _ above equal
    obtain ⟨fuel, result, returned⟩ := terminates
    have goesOn := up_heap_equal fuel positive inside above equal
    exact absurd (goesOn.symm.trans returned) (Option.some_ne_none result).symm
  · intro differs
    by_cases root : index = 0
    · subst root
      exact ⟨1, timers, up_heap_zero 0⟩
    · have positive := Nat.pos_of_ne_zero root
      have above := Nat.lt_trans (parent_lt positive) inside
      rcases lt_or_gt_of_ne (differs positive inside above) with earlier | later
      · exact ⟨1, timers, up_heap_stops 0 positive inside above earlier⟩
      · exact ⟨2, _, up_heap_rises 0 positive inside above later⟩

/-- `up_heap` ends exactly where the parent has another deadline, and `down_heap` where the
earliest deadline of the timer and its children belongs to one of them only. -/
theorem sift_loops_terminate_iff (timers : Array (Timer κ)) (index : Nat)
    (inside : index < timers.size) :
    ((Terminates fun fuel => up_heap fuel timers index) ↔ DiffersFromParent timers index) ∧
      ((Terminates fun fuel => down_heap fuel timers index) ↔ EarliestIsUnique timers index) := by
  constructor
  · exact up_heap_terminates_iff inside
  · exact down_heap_terminates_iff inside

/-- At the root of three timers. -/
theorem sift_loops_terminate_threeTimers :
    ((Terminates fun fuel => up_heap fuel threeTimers 0) ↔ DiffersFromParent threeTimers 0) ∧
      ((Terminates fun fuel => down_heap fuel threeTimers 0) ↔
        EarliestIsUnique threeTimers 0) :=
  sift_loops_terminate_iff threeTimers 0 (by decide)

/-- Two timers of one deadline. -/
def equalTimers : Array (Timer Unit) := #[⟨5, (), 0⟩, ⟨5, (), 1⟩]

theorem sharesEarliest_equalTimers : SharesEarliest equalTimers 0 (by decide) := by
  constructor
  · exact ⟨1, by decide, isChild_iff.mpr (Or.inl rfl), rfl⟩
  · intro child below isChild
    have size : equalTimers.size = 2 := rfl
    have places := isChild_iff.mp isChild
    have isLast : child = 1 := by omega
    subst isLast
    exact le_refl (5 : Int)

/-- From the second one `up_heap` goes on for ever, and from the first one `down_heap`. -/
theorem sift_loops_go_on :
    (¬Terminates fun fuel => up_heap fuel equalTimers 1) ∧
      ¬Terminates fun fuel => down_heap fuel equalTimers 0 := by
  constructor
  · intro terminates
    obtain ⟨fuel, result, returned⟩ := terminates
    have goesOn : up_heap fuel equalTimers 1 = none :=
      up_heap_equal fuel (by decide) (by decide) (by decide) rfl
    exact absurd (goesOn.symm.trans returned) (Option.some_ne_none result).symm
  · intro terminates
    obtain ⟨fuel, result, returned⟩ := terminates
    have goesOn := down_heap_shared _ sharesEarliest_equalTimers fuel
    exact absurd (goesOn.symm.trans returned) (Option.some_ne_none result).symm

end TimerQueueImpl

end StdPrograms.Base

import Mathlib.Data.Int.Order.Basic
import StdPrograms.Foundation.BinaryHeap
import StdPrograms.Foundation.Transitions

/-!
Contract: the timers of `timerqueue.cpp`.

Owns `add_timer` and the loop of `up_heap`, which never moves its index: it compares
the last timer with its parent, swaps the two at most once, and goes on for ever where
their deadlines are equal. Owns when this keeps the heap, for one timer and for a run.

Does not own the file descriptor or what the callbacks do.
-/

namespace StdPrograms.Base

open StdPrograms.Foundation

/-- A timer of `emplace_back(when, callback)`. A time point is a count of ticks. -/
structure Timer (κ : Type) where
  when_ : Int
  callback_ : κ
  index_ : Int := -1
deriving DecidableEq, Repr

/-- A call of `add_timer`, with what `steady_clock::now()` says in it. -/
structure AddTimer (κ : Type) where
  now : Int
  when_ : Int
  callback : κ

namespace TimerQueueImpl

variable {κ : Type}

/-- The loop, as often as the fuel allows. -/
def up_heap : Nat → Array (Timer κ) → Nat → Option (Array (Timer κ))
  | 0, _, _ => none
  | fuel + 1, timers, index =>
      if 0 < index then
        if inside : index < timers.size then
          have above : parent index < timers.size := Nat.lt_of_le_of_lt (parent_le index) inside
          if timers[parent index].when_ < timers[index].when_ then some timers
          else up_heap fuel (timers.swap (parent index) index) index
        else none
      else some timers

/-- The timer behind the others. -/
def emplace_back (timers : Array (Timer κ)) (when_ : Int) (callback : κ) : Array (Timer κ) :=
  timers.push { when_ := when_, callback_ := callback, index_ := timers.size }

/-- A deadline that has passed is called back at once and not queued. -/
def add_timer (fuel : Nat) (timers : Array (Timer κ)) (call : AddTimer κ) :
    Option (Array (Timer κ)) :=
  if call.when_ ≤ call.now then some timers
  else up_heap fuel (emplace_back timers call.when_ call.callback) timers.size

/-! ### The loop -/

variable {timers : Array (Timer κ)} {new : Timer κ}

theorem up_heap_zero (fuel : Nat) : up_heap (fuel + 1) timers 0 = some timers := rfl

theorem up_heap_stops {index : Nat} (fuel : Nat) (positive : 0 < index)
    (inside : index < timers.size) (above : parent index < timers.size)
    (earlier : timers[parent index].when_ < timers[index].when_) :
    up_heap (fuel + 1) timers index = some timers := by
  rw [up_heap, if_pos positive, dif_pos inside]
  exact if_pos earlier

theorem up_heap_swaps {index : Nat} (fuel : Nat) (positive : 0 < index)
    (inside : index < timers.size) (above : parent index < timers.size)
    (later : timers[index].when_ ≤ timers[parent index].when_) :
    up_heap (fuel + 1) timers index =
      up_heap fuel (timers.swap (parent index) index above inside) index := by
  rw [up_heap, if_pos positive, dif_pos inside]
  exact if_neg (not_lt_of_ge later)

/-- Between equal deadlines the loop swaps for ever. -/
theorem up_heap_equal {index : Nat} (fuel : Nat) (positive : 0 < index)
    (inside : index < timers.size) (above : parent index < timers.size)
    (equal : timers[parent index].when_ = timers[index].when_) :
    up_heap fuel timers index = none := by
  induction fuel generalizing timers with
  | zero => rfl
  | succ fuel inductionHypothesis =>
      rw [up_heap_swaps fuel positive inside above (le_of_eq equal.symm)]
      apply inductionHypothesis
      rw [Array.getElem_swap_left, Array.getElem_swap_right]
      exact equal.symm

/-- A new timer that is earlier than its parent: one swap, and then the loop stops. -/
theorem up_heap_rises {index : Nat} (fuel : Nat) (positive : 0 < index)
    (inside : index < timers.size) (above : parent index < timers.size)
    (later : timers[index].when_ < timers[parent index].when_) :
    up_heap (fuel + 2) timers index = some (timers.swap (parent index) index above inside) := by
  rw [up_heap_swaps (fuel + 1) positive inside above (le_of_lt later)]
  apply up_heap_stops fuel positive
  rw [Array.getElem_swap_left, Array.getElem_swap_right]
  exact later

/-- Whatever the fuel, there is no other result. -/
theorem eq_swap_of_up_heap {index fuel : Nat} {result : Array (Timer κ)} (positive : 0 < index)
    (inside : index < timers.size) (above : parent index < timers.size)
    (later : timers[index].when_ < timers[parent index].when_)
    (returned : up_heap fuel timers index = some result) :
    result = timers.swap (parent index) index above inside := by
  cases fuel with
  | zero => cases returned
  | succ fuel =>
      cases fuel with
      | zero =>
          rw [up_heap_swaps 0 positive inside above (le_of_lt later)] at returned
          cases returned
      | succ fuel =>
          rw [up_heap_rises fuel positive inside above later] at returned
          exact (Option.some.inj returned).symm

/-! ### One timer -/

/-- What `up_heap` is for: it returns, and what it leaves is a heap of the same timers. -/
def KeepsHeap (timers : Array (Timer κ)) (new : Timer κ) : Prop :=
  ∃ fuel result, up_heap fuel (timers.push new) timers.size = some result ∧
    result.Perm (timers.push new) ∧ IsMinHeap Timer.when_ result

/-- The new timer is later than its parent, or earlier than that one but not than the
next. -/
def Settles (timers : Array (Timer κ)) (new : Timer κ) : Prop :=
  ∀ (above : parent timers.size < timers.size)
    (grand : parent (parent timers.size) < timers.size),
    timers[parent timers.size].when_ < new.when_ ∨
      new.when_ < timers[parent timers.size].when_ ∧
        (0 < parent timers.size → timers[parent (parent timers.size)].when_ ≤ new.when_)

/-- Under the condition two tests of the loop are enough. -/
theorem up_heap_settles (ordered : IsMinHeap Timer.when_ timers) (settles : Settles timers new)
    (fuel : Nat) :
    ∃ result, up_heap (fuel + 2) (timers.push new) timers.size = some result ∧
      result.Perm (timers.push new) ∧ IsMinHeap Timer.when_ result := by
  have last : timers.size < (timers.push new).size := by
    rw [Array.size_push]
    exact Nat.lt_succ_self _
  by_cases root : timers.size = 0
  · refine ⟨timers.push new, ?_, Array.Perm.refl _, ?_⟩
    · rw [root]
      exact up_heap_zero _
    · apply isMinHeap_push ordered
      intro above
      omega
  · have positive := Nat.pos_of_ne_zero root
    have lower := parent_lt positive
    have grand : parent (parent timers.size) < timers.size :=
      Nat.lt_of_le_of_lt (parent_le _) lower
    have inside : parent timers.size < (timers.push new).size := Nat.lt_trans lower last
    cases settles lower grand with
    | inl later =>
        refine ⟨timers.push new, ?_, Array.Perm.refl _, ?_⟩
        · apply up_heap_stops (fuel + 1) positive last inside
          rw [Array.getElem_push_eq, Array.getElem_push_lt lower]
          exact later
        · apply isMinHeap_push ordered
          intro above
          exact le_of_lt later
    | inr between =>
        refine ⟨_, up_heap_rises fuel positive last inside ?_, Array.swap_perm inside last, ?_⟩
        · rw [Array.getElem_push_eq, Array.getElem_push_lt lower]
          exact between.1
        · exact (isMinHeap_swap_push_iff ordered lower grand inside last between.1).mpr between.2

/-- The loop keeps the heap exactly under the condition. -/
theorem keepsHeap_iff_settles (ordered : IsMinHeap Timer.when_ timers) :
    KeepsHeap timers new ↔ Settles timers new := by
  constructor
  · intro keeps above grand
    obtain ⟨fuel, result, returned, permuted, kept⟩ := keeps
    have positive : 0 < timers.size := by omega
    have last : timers.size < (timers.push new).size := by
      rw [Array.size_push]
      exact Nat.lt_succ_self _
    have inside : parent timers.size < (timers.push new).size := Nat.lt_trans above last
    rcases lt_trichotomy timers[parent timers.size].when_ new.when_ with later | equal | earlier
    · left
      exact later
    · have stuck : up_heap fuel (timers.push new) timers.size = none := by
        apply up_heap_equal fuel positive last inside
        rw [Array.getElem_push_eq, Array.getElem_push_lt above]
        exact equal
      rw [stuck] at returned
      cases returned
    · right
      constructor
      · exact earlier
      · have rises : (timers.push new)[timers.size].when_ <
            (timers.push new)[parent timers.size].when_ := by
          rw [Array.getElem_push_eq, Array.getElem_push_lt above]
          exact earlier
        have swapped : result =
            (timers.push new).swap (parent timers.size) timers.size inside last :=
          eq_swap_of_up_heap positive last inside rises returned
        rw [swapped] at kept
        exact (isMinHeap_swap_push_iff ordered above grand inside last earlier).mp kept
  · intro settles
    obtain ⟨result, returned, permuted, kept⟩ := up_heap_settles ordered settles 0
    exact ⟨2, result, returned, permuted, kept⟩

/-! ### Runs -/

/-- The condition on a call; one whose deadline has passed does not touch the heap. -/
def CallSettles (timers : Array (Timer κ)) (call : AddTimer κ) : Prop :=
  call.now < call.when_ →
    Settles timers { when_ := call.when_, callback_ := call.callback, index_ := timers.size }

/-- The first timer has the smallest deadline. -/
def FirstIsEarliest (timers : Array (Timer κ)) : Prop :=
  ∀ (index : Nat) (inside : index < timers.size) (nonempty : 0 < timers.size),
    timers[0].when_ ≤ timers[index].when_

theorem add_timer_settles (ordered : IsMinHeap Timer.when_ timers) {call : AddTimer κ}
    (settles : CallSettles timers call) (fuel : Nat) :
    ∃ after, add_timer (fuel + 2) timers call = some after ∧ IsMinHeap Timer.when_ after := by
  unfold add_timer
  split
  next => exact ⟨timers, rfl, ordered⟩
  next future =>
    obtain ⟨after, returned, permuted, kept⟩ :=
      up_heap_settles ordered (settles (lt_of_not_ge future)) fuel
    exact ⟨after, returned, kept⟩

/-- The condition holds at each call of the list. -/
def RunSettles (fuel : Nat) : Array (Timer κ) → List (AddTimer κ) → Prop
  | _, [] => True
  | timers, call :: rest =>
      CallSettles timers call ∧
        ∀ after, add_timer fuel timers call = some after → RunSettles fuel after rest

/-- Under the condition every call returns, and the heap is kept. -/
theorem follow_add_timer (ordered : IsMinHeap Timer.when_ timers) (calls : List (AddTimer κ))
    (fuel : Nat) (settles : RunSettles (fuel + 2) timers calls) :
    ∃ after, follow (add_timer (fuel + 2)) timers calls = some after ∧
      IsMinHeap Timer.when_ after := by
  induction calls generalizing timers with
  | nil => exact ⟨timers, rfl, ordered⟩
  | cons call rest inductionHypothesis =>
      obtain ⟨callSettles, later⟩ := settles
      obtain ⟨middle, returned, kept⟩ := add_timer_settles ordered callSettles fuel
      obtain ⟨after, followed, keptAfter⟩ := inductionHypothesis kept (later middle returned)
      refine ⟨after, ?_, keptAfter⟩
      rw [follow, returned]
      exact followed

theorem isMinHeap_empty : IsMinHeap Timer.when_ (#[] : Array (Timer κ)) := by
  intro index inside above
  exact absurd inside (Nat.not_lt_zero index)

/-- `up_heap` keeps a heap exactly under the condition on its new timer; along calls that
meet it the first timer is the earliest one. -/
theorem up_heap_keeps_iff :
    (∀ (timers : Array (Timer κ)) (new : Timer κ), IsMinHeap Timer.when_ timers →
      (KeepsHeap timers new ↔ Settles timers new)) ∧
    ∀ (calls : List (AddTimer κ)) (fuel : Nat), RunSettles (fuel + 2) #[] calls →
      ∃ after, follow (add_timer (fuel + 2)) #[] calls = some after ∧ FirstIsEarliest after := by
  constructor
  · intro timers new ordered
    exact keepsHeap_iff_settles ordered
  · intro calls fuel settles
    obtain ⟨after, followed, kept⟩ := follow_add_timer isMinHeap_empty calls fuel settles
    exact ⟨after, followed, kept.root_le⟩

/-- Three timers in heap order. -/
def threeTimers : Array (Timer Unit) := #[⟨5, (), 0⟩, ⟨6, (), 1⟩, ⟨7, (), 2⟩]

theorem isMinHeap_threeTimers : IsMinHeap Timer.when_ threeTimers := by
  intro index inside above
  have size : threeTimers.size = 3 := rfl
  have cases : index = 0 ∨ index = 1 ∨ index = 2 := by omega
  rcases cases with rfl | rfl | rfl
  · exact Int.le_refl 5
  · exact Int.le_of_lt (by decide : (5 : Int) < 6)
  · exact Int.le_of_lt (by decide : (5 : Int) < 7)

/-- The second timer is earlier than the first. -/
def twoCalls : List (AddTimer Unit) := [⟨0, 9, ()⟩, ⟨0, 4, ()⟩]

theorem runSettles_twoCalls : RunSettles 2 #[] twoCalls := by
  constructor
  · intro future above
    exact absurd above (Nat.not_lt_zero _)
  · intro after returned
    cases returned
    constructor
    · intro future above grand
      right
      constructor
      · exact (by decide : (4 : Int) < 9)
      · intro positive
        exact absurd positive (Nat.lt_irrefl 0)
    · intro last returned
      trivial

/-- A timer between its parent and the root, and the run of the two calls. -/
theorem up_heap_keeps_threeTimers :
    KeepsHeap threeTimers ⟨5, (), 3⟩ ∧
      ∃ after, follow (add_timer 2) #[] twoCalls = some after ∧ FirstIsEarliest after := by
  have both : (∀ (timers : Array (Timer Unit)) new, IsMinHeap Timer.when_ timers →
      (KeepsHeap timers new ↔ Settles timers new)) ∧ _ := up_heap_keeps_iff
  constructor
  · apply (both.1 threeTimers ⟨5, (), 3⟩ isMinHeap_threeTimers).mpr
    intro above grand
    right
    constructor
    · exact (by decide : (5 : Int) < 6)
    · intro positive
      exact Int.le_refl 5
  · exact both.2 twoCalls 0 runSettles_twoCalls

/-- A timer that is earlier than all others stops under the root. -/
theorem not_keepsHeap :
    ¬ ∀ (timers : Array (Timer Unit)) (new : Timer Unit), IsMinHeap Timer.when_ timers →
      KeepsHeap timers new := by
  intro keeps
  have settles := (keepsHeap_iff_settles isMinHeap_threeTimers).mp
    (keeps threeTimers ⟨4, (), 3⟩ isMinHeap_threeTimers) (by decide) (by decide)
  exact absurd settles (by decide)

end TimerQueueImpl

end StdPrograms.Base

import Mathlib.Logic.Function.Basic
import StdPrograms.Foundation.Threads
import StdPrograms.Foundation.Transitions

/-!
Contract: the batching queue of `queue.cpp` as a labelled transition system.

One label is one section under `mutex_`, with the notification inside it, or one wake-up that
nobody asked for. Owns the places of the threads inside `wait`, the step function, and that the
consumers who were woken suffice: `post` does not notify for every item.

The history (`posted`, `batches`) is not in the code: it logs the items and the batches in the
order of their sections.

Does not own what a consumer does with its batch.
-/

namespace StdPrograms.Misc

open StdPrograms.Foundation

/-- Where a thread stands: outside, blocked in `cond_.wait`, or on the way back from it. -/
inductive Waiting where
  | outside
  | blocked
  | woken
deriving DecidableEq, Repr

namespace Waiting

def isWoken : Waiting → Bool
  | woken => true
  | _ => false

end Waiting

/-- What may happen next. `notified` is whom `notify_one` wakes, where it is called and anyone
is blocked. -/
inductive WaitMove (ι T : Type) where
  | post (obj : T) (notified : Option ι)
  | wait (thread : ι)
  | wake (thread : ι)
  | proceed (thread : ι)
deriving DecidableEq, Repr

/-- `Queue` of `queue.cpp`. -/
structure WaitQueue (ι T : Type) where
  queue : List T
  threads : ι → Waiting
  posted : List T
  batches : List (List T)

namespace WaitQueue

variable {ι T : Type}

def initial (ι T : Type) : WaitQueue ι T where
  queue := []
  threads := fun _ => .outside
  posted := []
  batches := []

/-- `post` calls `notify_one`. -/
def notifies (waterMark oldsize : Nat) : Bool := oldsize == 0 || decide (waterMark ≤ oldsize)

/-- `queue_.push(obj)`. -/
def push (state : WaitQueue ι T) (obj : T) : WaitQueue ι T :=
  { state with queue := state.queue ++ [obj], posted := state.posted ++ [obj] }

/-- The section of `wait` behind the condition. -/
def take (waterMark : Nat) (state : WaitQueue ι T) : WaitQueue ι T :=
  let count := min waterMark state.queue.length
  { state with
    queue := state.queue.drop count
    batches := state.batches ++ [state.queue.take count] }

variable [DecidableEq ι]

def moveTo (state : WaitQueue ι T) (thread : ι) (place : Waiting) : WaitQueue ι T :=
  { state with threads := Function.update state.threads thread place }

/-- What a thread that has the lock does in `wait`. -/
def waitSection (waterMark : Nat) (state : WaitQueue ι T) (thread : ι) : WaitQueue ι T :=
  if state.queue.isEmpty then state.moveTo thread .blocked
  else (state.take waterMark).moveTo thread .outside

/-- `notify_one` wakes a thread exactly if one is blocked. -/
def notify_one [Fintype ι] (state : WaitQueue ι T) : Option ι → Option (WaitQueue ι T)
  | none => if ∀ thread, state.threads thread ≠ .blocked then some state else none
  | some thread =>
      if state.threads thread = .blocked then some (state.moveTo thread .woken) else none

def step [Fintype ι] (waterMark : Nat) (state : WaitQueue ι T) :
    WaitMove ι T → Option (WaitQueue ι T)
  | .post obj notified =>
      if notifies waterMark state.queue.length then (state.push obj).notify_one notified
      else if notified.isNone then some (state.push obj)
      else none
  | .wait thread =>
      match state.threads thread with
      | .outside => some (state.waitSection waterMark thread)
      | _ => none
  | .wake thread =>
      match state.threads thread with
      | .blocked => some (state.moveTo thread .woken)
      | _ => none
  | .proceed thread =>
      match state.threads thread with
      | .woken => some (state.waitSection waterMark thread)
      | _ => none

/-! ### What a step can do -/

/-- Every step, with what it asks of the state. -/
inductive Steps (waterMark : Nat) (state : WaitQueue ι T) :
    WaitMove ι T → WaitQueue ι T → Prop where
  | pushes (obj : T) (quiet : notifies waterMark state.queue.length = false) :
      Steps waterMark state (.post obj none) (state.push obj)
  | unheard (obj : T) (nobody : ∀ thread, state.threads thread ≠ .blocked) :
      Steps waterMark state (.post obj none) (state.push obj)
  | notified (obj : T) (thread : ι) (blocked : state.threads thread = .blocked) :
      Steps waterMark state (.post obj (some thread)) ((state.push obj).moveTo thread .woken)
  | enters (thread : ι) (outside : state.threads thread = .outside) :
      Steps waterMark state (.wait thread) (state.waitSection waterMark thread)
  | wakes (thread : ι) (blocked : state.threads thread = .blocked) :
      Steps waterMark state (.wake thread) (state.moveTo thread .woken)
  | returns (thread : ι) (woken : state.threads thread = .woken) :
      Steps waterMark state (.proceed thread) (state.waitSection waterMark thread)

variable [Fintype ι] {waterMark : Nat} {state after : WaitQueue ι T} {turn : WaitMove ι T}

theorem steps_of_step (taken : step waterMark state turn = some after) :
    Steps waterMark state turn after := by
  cases turn with
  | post obj notified =>
      simp only [step] at taken
      split at taken
      next =>
        cases notified with
        | none =>
            simp only [notify_one, Option.ite_none_right_eq_some, Option.some.injEq] at taken
            rw [← taken.2]
            exact .unheard obj taken.1
        | some thread =>
            simp only [notify_one, Option.ite_none_right_eq_some, Option.some.injEq] at taken
            rw [← taken.2]
            exact .notified obj thread taken.1
      next quiet =>
        cases notified with
        | none =>
            cases taken
            exact .pushes obj (Bool.eq_false_of_not_eq_true quiet)
        | some thread => cases taken
  | wait thread =>
      simp only [step] at taken
      split at taken
      next outside =>
        cases taken
        exact .enters thread outside
      next => cases taken
  | wake thread =>
      simp only [step] at taken
      split at taken
      next blocked =>
        cases taken
        exact .wakes thread blocked
      next => cases taken
  | proceed thread =>
      simp only [step] at taken
      split at taken
      next woken =>
        cases taken
        exact .returns thread woken
      next => cases taken

/-! ### What every step keeps -/

/-- The consumers on their way back from `cond_.wait`. -/
def woken (state : WaitQueue ι T) : Nat := countAt Waiting.isWoken state.threads

/-- Where a consumer is blocked, those who were woken can take all that is queued. -/
def Covered (waterMark : Nat) (state : WaitQueue ι T) : Prop :=
  (∃ thread, state.threads thread = .blocked) → state.queue.length ≤ waterMark * state.woken

structure Invariant (waterMark : Nat) (state : WaitQueue ι T) : Prop where
  covered : Covered waterMark state
  sized : ∀ batch ∈ state.batches, batch ≠ [] ∧ batch.length ≤ waterMark
  ordered : state.posted = state.batches.flatten ++ state.queue

omit [DecidableEq ι] in
theorem initial_invariant (waterMark : Nat) : Invariant waterMark (initial ι T) where
  covered := by
    intro _
    exact Nat.zero_le _
  sized := by simp [initial]
  ordered := rfl

theorem moveTo_woken (state : WaitQueue ι T) (thread : ι) (place : Waiting) :
    (state.moveTo thread place).woken + (state.threads thread).isWoken.toNat =
      state.woken + place.isWoken.toNat :=
  countAt_update _ _ _ _

omit [Fintype ι] in
/-- Who is blocked was blocked before or has just become so. -/
theorem blocked_of_moveTo {thread other : ι} {place : Waiting} (elsewhere : place ≠ .blocked)
    (blocked : (state.moveTo thread place).threads other = .blocked) :
    state.threads other = .blocked := by
  by_cases same : other = thread
  · subst same
    simp only [moveTo, Function.update_self] at blocked
    exact absurd blocked elsewhere
  · simpa only [moveTo, Function.update_of_ne same] using blocked

/-- A thread that wakes covers a batch more. -/
theorem Covered.wake {thread : ι} (blocked : state.threads thread = .blocked)
    (covered : state.queue.length ≤ waterMark * (state.woken + 1)) :
    Covered waterMark (state.moveTo thread .woken) := by
  intro _
  have moved := moveTo_woken state thread .woken
  rw [blocked] at moved
  change (state.moveTo thread .woken).woken + 0 = state.woken + 1 at moved
  rw [Nat.add_zero] at moved
  rw [moved]
  exact covered

omit [DecidableEq ι] in
/-- Where `post` does not notify, somebody has been woken for the items already queued. -/
theorem Covered.push_quiet {obj : T} (covered : Covered waterMark state)
    (quiet : notifies waterMark state.queue.length = false) :
    Covered waterMark (state.push obj) := by
  intro blocked
  have before := covered blocked
  simp only [notifies, Bool.or_eq_false_iff, beq_eq_false_iff_ne, decide_eq_false_iff_not]
    at quiet
  have awake : 0 < state.woken := by
    by_contra nobody
    rw [Nat.eq_zero_of_not_pos nobody, Nat.mul_zero] at before
    omega
  have whole : waterMark ≤ waterMark * state.woken := Nat.le_mul_of_pos_right _ awake
  change (state.queue ++ [obj]).length ≤ waterMark * state.woken
  rw [List.length_append, List.length_singleton]
  omega

theorem Covered.push_notified {obj : T} {thread : ι} (positive : 0 < waterMark)
    (covered : Covered waterMark state) (blocked : state.threads thread = .blocked) :
    Covered waterMark ((state.push obj).moveTo thread .woken) := by
  have before := covered ⟨thread, blocked⟩
  refine @Covered.wake ι T _ _ waterMark (state.push obj) thread blocked ?_
  change (state.queue ++ [obj]).length ≤ waterMark * (state.woken + 1)
  rw [List.length_append, List.length_singleton, Nat.mul_succ]
  omega

omit [DecidableEq ι] [Fintype ι] in
/-- A batch takes up to `waterMark_` items. -/
theorem take_length (waterMark : Nat) (state : WaitQueue ι T) :
    (state.take waterMark).queue.length = state.queue.length - waterMark := by
  simp only [take, List.length_drop]
  omega

/-- One thread's section covers the batch that it takes. -/
theorem Covered.waitSection {thread : ι} (covered : Covered waterMark state) :
    Covered waterMark (state.waitSection waterMark thread) := by
  unfold WaitQueue.waitSection
  split
  next empty =>
    intro _
    have none : state.queue.length = 0 := by simpa using empty
    exact none.trans_le (Nat.zero_le _)
  next =>
    rintro ⟨other, blocked⟩
    have blockedBefore : state.threads other = .blocked :=
      @blocked_of_moveTo ι T _ (state.take waterMark) thread other .outside (by decide) blocked
    have before := covered ⟨other, blockedBefore⟩
    have moved := moveTo_woken (state.take waterMark) thread .outside
    change _ + (state.threads thread).isWoken.toNat = state.woken + 0 at moved
    have atMost : state.woken ≤ ((state.take waterMark).moveTo thread .outside).woken + 1 := by
      have one := Bool.toNat_le (state.threads thread).isWoken
      omega
    have bound := before.trans (Nat.mul_le_mul_left waterMark atMost)
    rw [Nat.mul_succ] at bound
    change (state.take waterMark).queue.length ≤ _
    rw [take_length]
    omega

theorem Invariant.waitSection (thread : ι) (positive : 0 < waterMark)
    (invariant : Invariant waterMark state) :
    Invariant waterMark (state.waitSection waterMark thread) := by
  refine ⟨invariant.covered.waitSection, ?_, ?_⟩
  · unfold WaitQueue.waitSection
    split
    next => exact invariant.sized
    next nonempty =>
      have some : 0 < state.queue.length :=
        List.length_pos_of_ne_nil (by simpa using nonempty)
      intro batch member
      change batch ∈ state.batches ++ [state.queue.take (min waterMark state.queue.length)]
        at member
      rcases List.mem_append.mp member with earlier | last
      · exact invariant.sized batch earlier
      · rw [List.mem_singleton.mp last]
        constructor
        · apply List.ne_nil_of_length_pos
          rw [List.length_take]
          omega
        · rw [List.length_take]
          omega
  · unfold WaitQueue.waitSection
    split
    next => exact invariant.ordered
    next =>
      change state.posted = (state.batches ++
        [state.queue.take (min waterMark state.queue.length)]).flatten ++
          state.queue.drop (min waterMark state.queue.length)
      rw [List.flatten_append, List.flatten_singleton, List.append_assoc,
        List.take_append_drop]
      exact invariant.ordered

omit [DecidableEq ι] [Fintype ι] in
theorem push_ordered {obj : T} (ordered : state.posted = state.batches.flatten ++ state.queue) :
    (state.push obj).posted = (state.push obj).batches.flatten ++ (state.push obj).queue := by
  simp only [push, ordered, List.append_assoc]

theorem Invariant.step (positive : 0 < waterMark) (invariant : Invariant waterMark state)
    (taken : WaitQueue.step waterMark state turn = some after) : Invariant waterMark after := by
  cases steps_of_step taken with
  | pushes obj quiet =>
      exact ⟨invariant.covered.push_quiet quiet, invariant.sized,
        push_ordered invariant.ordered⟩
  | unheard obj nobody =>
      refine ⟨?_, invariant.sized, push_ordered invariant.ordered⟩
      rintro ⟨thread, blocked⟩
      exact absurd blocked (nobody thread)
  | notified obj thread blocked =>
      exact ⟨invariant.covered.push_notified positive blocked, invariant.sized,
        push_ordered invariant.ordered⟩
  | enters thread outside =>
      exact invariant.waitSection thread positive
  | wakes thread blocked =>
      refine ⟨Covered.wake blocked ?_, invariant.sized, invariant.ordered⟩
      exact (invariant.covered ⟨thread, blocked⟩).trans
        (Nat.mul_le_mul_left _ (Nat.le_succ _))
  | returns thread woken =>
      exact invariant.waitSection thread positive

/-! ### What those who were woken can do -/

/-- The threads that were woken, each once. -/
structure WokenIn (state : WaitQueue ι T) (order : List ι) : Prop where
  once : order.Nodup
  woken : ∀ thread, thread ∈ order ↔ state.threads thread = .woken

omit [DecidableEq ι] in
theorem woken_eq_length {order : List ι} (listed : state.WokenIn order) :
    state.woken = order.length := by
  apply countAt_eq_length listed.once
  intro thread
  rw [listed.woken thread]
  cases state.threads thread <;> simp [Waiting.isWoken]

omit [Fintype ι] in
/-- A section of one thread leaves the others where they are. -/
theorem waitSection_threads_of_ne {thread other : ι} (apart : other ≠ thread) :
    (state.waitSection waterMark thread).threads other = state.threads other := by
  unfold WaitQueue.waitSection
  split <;> simp [moveTo, take, Function.update_of_ne apart]

omit [Fintype ι] in
/-- A section takes a batch, if there is anything to take. -/
theorem waitSection_queue_length (thread : ι) :
    (state.waitSection waterMark thread).queue.length = state.queue.length - waterMark := by
  unfold WaitQueue.waitSection
  split
  next empty =>
    have none : state.queue.length = 0 := by simpa using empty
    change state.queue.length = _
    omega
  next => exact take_length waterMark state

/-- Woken threads whose batches suffice empty the queue, in whatever order they get the lock. -/
theorem follow_proceed (order : List ι) (once : order.Nodup)
    (woken : ∀ thread ∈ order, state.threads thread = .woken)
    (enough : state.queue.length ≤ waterMark * order.length) :
    ∃ after, follow (step waterMark) state (order.map .proceed) = some after ∧
      after.queue = [] := by
  induction order generalizing state with
  | nil => exact ⟨state, rfl, List.length_eq_zero_iff.mp (Nat.le_zero.mp enough)⟩
  | cons thread rest inductionHypothesis =>
      have taken : step waterMark state (.proceed thread) =
          some (state.waitSection waterMark thread) := by
        simp [step, woken thread]
      simp only [List.map_cons, follow, taken, Option.bind_some]
      apply inductionHypothesis once.tail
      · intro other member
        have apart : other ≠ thread := by
          intro same
          exact List.Nodup.notMem once (same ▸ member)
        rw [waitSection_threads_of_ne apart]
        exact woken other (List.mem_cons_of_mem _ member)
      · rw [waitSection_queue_length]
        simp only [List.length_cons, Nat.mul_succ] at enough
        omega

/-- The batches are what was posted, in order, none empty or above `waterMark_`, and whenever a
consumer is blocked, those who were woken empty the queue on their own. -/
structure Served (waterMark : Nat) (state : WaitQueue ι T) : Prop where
  sized : ∀ batch ∈ state.batches, batch ≠ [] ∧ batch.length ≤ waterMark
  ordered : state.posted = state.batches.flatten ++ state.queue
  drains : ∀ order, state.WokenIn order → (∃ thread, state.threads thread = .blocked) →
    ∃ after, follow (step waterMark) state (order.map .proceed) = some after ∧ after.queue = []

/-- `post` notifies at an empty queue and from `waterMark_` items on only, and yet no item
waits for a consumer that nobody has woken. -/
theorem served (positive : 0 < waterMark)
    (reachable : Reachable (step waterMark) (initial ι T) state) : Served waterMark state := by
  have invariant : Invariant waterMark state := by
    apply reachable.invariant (initial_invariant waterMark)
    intro state turn after invariant taken
    exact invariant.step positive taken
  refine ⟨invariant.sized, invariant.ordered, ?_⟩
  intro order listed blocked
  have enough := invariant.covered blocked
  rw [woken_eq_length listed] at enough
  exact follow_proceed order listed.once (fun thread => (listed.woken thread).mp) enough

/-- Two consumers block, and two items are posted at a water mark of two: for the second nobody
is notified. -/
theorem served_two_blocked :
    ∃ state : WaitQueue (Fin 2) Nat, Reachable (step 2) (initial (Fin 2) Nat) state ∧
      state.threads 0 = .woken ∧ state.threads 1 = .blocked ∧ state.queue = [7, 8] ∧
      Served 2 state := by
  have reached : (follow (step 2) (initial (Fin 2) Nat)
      [.wait 0, .wait 1, .post 7 (some 0), .post 8 none]).map
      (fun state => (state.threads 0, state.threads 1, state.queue)) =
        some (.woken, .blocked, [7, 8]) := by
    decide
  obtain ⟨state, followed, seen⟩ := Option.map_eq_some_iff.mp reached
  simp only [Prod.mk.injEq] at seen
  have reachable : Reachable (step 2) (initial (Fin 2) Nat) state := ⟨_, followed⟩
  exact ⟨state, reachable, seen.1, seen.2.1, seen.2.2, served (by decide) reachable⟩

end WaitQueue

end StdPrograms.Misc

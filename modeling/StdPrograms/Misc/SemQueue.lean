import Mathlib.Algebra.Order.Floor.Div
import Mathlib.Logic.Function.Basic
import StdPrograms.Foundation.Threads
import StdPrograms.Foundation.Transitions

/-!
Contract: the batching queue of `semqueue.cpp` as a labelled transition system.

One label is one `sem_wait` or one section under `mutex_`, with the calls of `sem_post`
inside it. Owns the states of the threads inside `post` and `wait`, the step function, and
the arithmetic of the signals: there are as many as it takes to empty the queue in batches
of `waterMark_`.

The history (`posted`, `batches`) is not in the code: it logs the items and the batches in
the order of their sections.

Does not own what a consumer does with its batch.
-/

namespace StdPrograms.Misc

open StdPrograms.Foundation

/-- Where a thread stands: outside, or between a `sem_wait` and the section behind it. -/
inductive Place (T : Type) where
  | idle
  | posting (obj : T)
  | taking
deriving DecidableEq, Repr

namespace Place

variable {T : Type}

def isPosting : Place T → Bool
  | posting _ => true
  | _ => false

def isTaking : Place T → Bool
  | taking => true
  | _ => false

end Place

/-- What may happen next: a `sem_wait` of `post` or of `wait` that does not block, or the
section behind it. -/
inductive Move (ι T : Type) where
  | post (thread : ι) (obj : T)
  | wait (thread : ι)
  | proceed (thread : ι)
deriving DecidableEq, Repr

structure Queue (ι T : Type) where
  queue : List T
  rsem : Nat
  wsem : Nat
  threads : ι → Place T
  posted : List T
  batches : List (List T)

namespace Queue

variable {ι T : Type}

def capacity_ : Nat := 1111

/-- The constructor: all of the room is free, and nothing is signalled. -/
def initial (ι T : Type) : Queue ι T where
  queue := []
  rsem := 0
  wsem := capacity_
  threads := fun _ => .idle
  posted := []
  batches := []

/-- The section of `post`. -/
def push (waterMark : Nat) (state : Queue ι T) (obj : T) : Queue ι T :=
  let queue := state.queue ++ [obj]
  { state with
    queue := queue
    rsem := if (queue.length - 1) % waterMark = 0 then state.rsem + 1 else state.rsem
    posted := state.posted ++ [obj] }

/-- The section of `wait`: `wsem_` is posted once for each item. -/
def take (waterMark : Nat) (state : Queue ι T) : Queue ι T :=
  let count := min waterMark state.queue.length
  { state with
    queue := state.queue.drop count
    wsem := state.wsem + count
    batches := state.batches ++ [state.queue.take count] }

variable [DecidableEq ι]

def moveTo (state : Queue ι T) (thread : ι) (place : Place T) : Queue ι T :=
  { state with threads := Function.update state.threads thread place }

def step (waterMark : Nat) (state : Queue ι T) : Move ι T → Option (Queue ι T)
  | .post thread obj =>
      match state.threads thread, state.wsem with
      | .idle, wsem + 1 => some ({ state with wsem := wsem }.moveTo thread (.posting obj))
      | _, _ => none
  | .wait thread =>
      match state.threads thread, state.rsem with
      | .idle, rsem + 1 => some ({ state with rsem := rsem }.moveTo thread .taking)
      | _, _ => none
  | .proceed thread =>
      match state.threads thread with
      | .idle => none
      | .posting obj => some ((state.push waterMark obj).moveTo thread .idle)
      | .taking => some ((state.take waterMark).moveTo thread .idle)

/-! ### What a step can do -/

/-- Every step, with what it asks of the state. -/
inductive Steps (waterMark : Nat) (state : Queue ι T) : Move ι T → Queue ι T → Prop where
  | enters (thread : ι) (obj : T) (wsem : Nat) (idle : state.threads thread = .idle)
      (room : state.wsem = wsem + 1) :
      Steps waterMark state (.post thread obj)
        ({ state with wsem := wsem }.moveTo thread (.posting obj))
  | signalled (thread : ι) (rsem : Nat) (idle : state.threads thread = .idle)
      (signals : state.rsem = rsem + 1) :
      Steps waterMark state (.wait thread) ({ state with rsem := rsem }.moveTo thread .taking)
  | pushes (thread : ι) (obj : T) (posting : state.threads thread = .posting obj) :
      Steps waterMark state (.proceed thread) ((state.push waterMark obj).moveTo thread .idle)
  | takes (thread : ι) (taking : state.threads thread = .taking) :
      Steps waterMark state (.proceed thread) ((state.take waterMark).moveTo thread .idle)

variable {waterMark : Nat} {state after : Queue ι T} {move : Move ι T}

theorem steps_of_step (taken : step waterMark state move = some after) :
    Steps waterMark state move after := by
  cases move with
  | post thread obj =>
      simp only [step] at taken
      split at taken
      next idle room =>
        cases taken
        exact .enters thread obj _ idle room
      next => cases taken
  | wait thread =>
      simp only [step] at taken
      split at taken
      next idle signals =>
        cases taken
        exact .signalled thread _ idle signals
      next => cases taken
  | proceed thread =>
      simp only [step] at taken
      split at taken
      next => cases taken
      next obj posting =>
        cases taken
        exact .pushes thread obj posting
      next taking =>
        cases taken
        exact .takes thread taking

/-! ### Signals -/

section Signals

/-- Another item needs another signal exactly where the queue held whole batches. -/
theorem ceilDiv_succ (positive : 0 < waterMark) (size : Nat) :
    (size + 1) ⌈/⌉ waterMark = size ⌈/⌉ waterMark + if size % waterMark = 0 then 1 else 0 := by
  have shifted : size + 1 + waterMark - 1 = size + waterMark - 1 + 1 := by omega
  have whole : waterMark ∣ size + waterMark - 1 + 1 ↔ size % waterMark = 0 := by
    rw [← shifted, Nat.add_right_comm, Nat.add_sub_cancel, Nat.dvd_add_left dvd_rfl,
      Nat.dvd_iff_mod_eq_zero]
  rw [Nat.ceilDiv_eq_add_pred_div, Nat.ceilDiv_eq_add_pred_div, shifted, Nat.succ_div]
  simp only [whole]

/-- A batch takes one signal's worth of items. -/
theorem ceilDiv_sub_min (positive : 0 < waterMark) {size : Nat} (nonempty : 0 < size) :
    (size - min waterMark size) ⌈/⌉ waterMark + 1 = size ⌈/⌉ waterMark := by
  rw [Nat.ceilDiv_eq_add_pred_div, Nat.ceilDiv_eq_add_pred_div]
  rcases Nat.le_total size waterMark with few | many
  · have one : size + waterMark - 1 = size - 1 + waterMark := by omega
    rw [Nat.min_eq_right few, Nat.sub_self, one, Nat.add_div_right _ positive,
      Nat.div_eq_of_lt (by omega), Nat.div_eq_of_lt (by omega)]
  · have rest : size - waterMark + waterMark - 1 = size - 1 := by omega
    have one : size + waterMark - 1 = size - 1 + waterMark := by omega
    rw [Nat.min_eq_left many, rest, one, Nat.add_div_right _ positive]

end Signals

/-! ### What every step keeps -/

section Invariant

variable [Fintype ι]

/-- The consumers between their `sem_wait` and their section. -/
def passed (state : Queue ι T) : Nat := countAt Place.isTaking state.threads

/-- The producers between their `sem_wait` and their section. -/
def entering (state : Queue ι T) : Nat := countAt Place.isPosting state.threads

structure Invariant (waterMark : Nat) (state : Queue ι T) : Prop where
  signals : state.rsem + state.passed = state.queue.length ⌈/⌉ waterMark
  room : state.wsem + state.entering + state.queue.length = capacity_
  nonempty : ∀ batch ∈ state.batches, batch ≠ []
  ordered : state.posted = state.batches.flatten ++ state.queue

/-- Nothing is stranded: the signals suffice for the queue, the queue keeps to its
capacity, and the batches are what was posted, in order. -/
structure NeverStrands (waterMark : Nat) (state : Queue ι T) : Prop where
  signals : state.rsem + state.passed = state.queue.length ⌈/⌉ waterMark
  bounded : state.queue.length ≤ capacity_
  nonempty : ∀ batch ∈ state.batches, batch ≠ []
  ordered : state.batches.flatten <+: state.posted

omit [DecidableEq ι] in
theorem initial_invariant (waterMark : Nat) : Invariant waterMark (initial ι T) where
  signals := by
    have none : (initial ι T).passed = 0 := countAt_const _ rfl
    rw [none]
    exact (zero_ceilDiv waterMark).symm
  room := by
    have none : (initial ι T).entering = 0 := countAt_const _ rfl
    rw [none]
    rfl
  nonempty := by
    intro batch member
    cases member
  ordered := rfl

theorem moveTo_passed (state : Queue ι T) (thread : ι) (place : Place T) :
    (state.moveTo thread place).passed + (state.threads thread).isTaking.toNat =
      state.passed + place.isTaking.toNat :=
  countAt_update _ _ _ _

theorem moveTo_entering (state : Queue ι T) (thread : ι) (place : Place T) :
    (state.moveTo thread place).entering + (state.threads thread).isPosting.toNat =
      state.entering + place.isPosting.toNat :=
  countAt_update _ _ _ _

theorem Invariant.push (positive : 0 < waterMark) (invariant : Invariant waterMark state)
    {thread : ι} {obj : T} (posting : state.threads thread = .posting obj) :
    Invariant waterMark ((state.push waterMark obj).moveTo thread .idle) := by
  have passed := moveTo_passed (state.push waterMark obj) thread .idle
  have entering := moveTo_entering (state.push waterMark obj) thread .idle
  have standing : (state.push waterMark obj).threads thread = .posting obj := posting
  rw [standing] at passed entering
  have length : (state.queue ++ [obj]).length = state.queue.length + 1 := by simp
  constructor
  · have signals := invariant.signals
    have onePassed : ((state.push waterMark obj).moveTo thread .idle).passed = state.passed :=
      passed
    rw [onePassed]
    change (if ((state.queue ++ [obj]).length - 1) % waterMark = 0 then state.rsem + 1
      else state.rsem) + state.passed = (state.queue ++ [obj]).length ⌈/⌉ waterMark
    rw [length, Nat.add_sub_cancel, ceilDiv_succ positive, ← signals]
    split <;> omega
  · have room := invariant.room
    have entered : ((state.push waterMark obj).moveTo thread .idle).entering + 1 =
      state.entering := entering
    change state.wsem + _ + (state.queue ++ [obj]).length = capacity_
    rw [length]
    omega
  · exact invariant.nonempty
  · change state.posted ++ [obj] = state.batches.flatten ++ (state.queue ++ [obj])
    rw [invariant.ordered, List.append_assoc]

theorem Invariant.take (positive : 0 < waterMark) (invariant : Invariant waterMark state)
    {thread : ι} (taking : state.threads thread = .taking) :
    Invariant waterMark ((state.take waterMark).moveTo thread .idle) := by
  have passed := moveTo_passed (state.take waterMark) thread .idle
  have entering := moveTo_entering (state.take waterMark) thread .idle
  have standing : (state.take waterMark).threads thread = .taking := taking
  rw [standing] at passed entering
  have signals := invariant.signals
  -- a signal that a consumer has taken stands for at least one item
  have signalled : 0 < state.passed := countAt_pos (by rw [taking]; rfl)
  have nonempty : 0 < state.queue.length := by
    by_contra empty
    have zero : state.queue.length = 0 := by omega
    rw [zero, zero_ceilDiv] at signals
    omega
  constructor
  · have onePassed : ((state.take waterMark).moveTo thread .idle).passed + 1 = state.passed :=
      passed
    change state.rsem + _ = (state.queue.drop (min waterMark state.queue.length)).length ⌈/⌉ waterMark
    rw [List.length_drop]
    have one := ceilDiv_sub_min positive nonempty
    omega
  · have room := invariant.room
    have entered : ((state.take waterMark).moveTo thread .idle).entering = state.entering :=
      entering
    change state.wsem + min waterMark state.queue.length + _ +
      (state.queue.drop (min waterMark state.queue.length)).length = capacity_
    rw [List.length_drop]
    omega
  · intro batch member
    change batch ∈ state.batches ++ [state.queue.take (min waterMark state.queue.length)] at member
    rcases List.mem_append.mp member with earlier | last
    · exact invariant.nonempty batch earlier
    · rw [List.mem_singleton.mp last]
      apply List.ne_nil_of_length_pos
      rw [List.length_take]
      omega
  · change state.posted = (state.batches ++
      [state.queue.take (min waterMark state.queue.length)]).flatten ++
        state.queue.drop (min waterMark state.queue.length)
    rw [List.flatten_append, List.flatten_singleton, List.append_assoc, List.take_append_drop]
    exact invariant.ordered

theorem Invariant.step (positive : 0 < waterMark) (invariant : Invariant waterMark state)
    (taken : Queue.step waterMark state move = some after) : Invariant waterMark after := by
  cases steps_of_step taken with
  | enters thread obj wsem idle room =>
      have passed := moveTo_passed { state with wsem := wsem } thread (.posting obj)
      have entering := moveTo_entering { state with wsem := wsem } thread (.posting obj)
      have standing : ({ state with wsem := wsem } : Queue ι T).threads thread = .idle := idle
      rw [standing] at passed entering
      refine ⟨?_, ?_, invariant.nonempty, invariant.ordered⟩
      · exact (congrArg (state.rsem + ·) passed).trans invariant.signals
      · have before := invariant.room
        change _ = state.entering + 1 at entering
        change wsem + _ + state.queue.length = capacity_
        change _ + 0 = _ at entering
        omega
  | signalled thread rsem idle signals =>
      have passed := moveTo_passed { state with rsem := rsem } thread .taking
      have entering := moveTo_entering { state with rsem := rsem } thread .taking
      have standing : ({ state with rsem := rsem } : Queue ι T).threads thread = .idle := idle
      rw [standing] at passed entering
      refine ⟨?_, ?_, invariant.nonempty, invariant.ordered⟩
      · have before := invariant.signals
        change _ + 0 = state.passed + 1 at passed
        change rsem + _ = state.queue.length ⌈/⌉ waterMark
        omega
      · have before := invariant.room
        change _ + 0 = state.entering + 0 at entering
        change state.wsem + _ + state.queue.length = capacity_
        omega
  | pushes thread obj posting => exact invariant.push positive posting
  | takes thread taking => exact invariant.take positive taking

/-- In every reachable state the signals, given and taken, are as many as the batches that
the queue makes. -/
theorem neverStrands (positive : 0 < waterMark)
    (reachable : Reachable (step waterMark) (initial ι T) state) :
    NeverStrands waterMark state := by
  have invariant : Invariant waterMark state := by
    apply reachable.invariant (initial_invariant waterMark)
    intro state move after invariant taken
    exact invariant.step positive taken
  refine ⟨invariant.signals, ?_, invariant.nonempty, ?_⟩
  · have room := invariant.room
    omega
  · rw [invariant.ordered]
    exact List.prefix_append _ _

/-- One item is queued and its signal taken. -/
theorem neverStrands_signalled :
    ∃ state : Queue (Fin 2) Nat, Reachable (step 100) (initial (Fin 2) Nat) state ∧
      state.threads 1 = .taking ∧ state.queue = [7] ∧ NeverStrands 100 state := by
  have reached : (follow (step 100) (initial (Fin 2) Nat)
      [.post 0 7, .proceed 0, .wait 1]).map
      (fun state => (state.threads 1, state.queue)) = some (.taking, [7]) := by
    decide
  obtain ⟨state, followed, seen⟩ := Option.map_eq_some_iff.mp reached
  obtain ⟨taking, queued⟩ := Prod.mk.inj seen
  have reachable : Reachable (step 100) (initial (Fin 2) Nat) state := ⟨_, followed⟩
  exact ⟨state, reachable, taking, queued, neverStrands (by decide) reachable⟩

end Invariant

end Queue

end StdPrograms.Misc

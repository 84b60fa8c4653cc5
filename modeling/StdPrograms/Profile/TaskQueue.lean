import Mathlib.Logic.Function.Basic
import StdPrograms.Foundation.Transitions

/-!
Contract: the task queue of `task_queue.h` as a labelled transition system.

One label is one section under `mutex_`, one notification, one pass of the worker's
loop or one wake-up. Owns the states of the clients inside `push`, `stop` and `wait`,
those of the worker inside `work_routine`, the step function and its inversion.

The history (`accepted`, `batches`, `ran`) is not in the code: it names each task by
its turn and logs what the worker took and what it called `run()` on.

Does not own what holds along the runs.
-/

namespace StdPrograms.Profile

open StdPrograms.Foundation

/-- A task with its turn among the accepted ones, so that two tasks of one value stay
apart. -/
structure Accepted (T : Type) where
  task : T
  turn : Nat
deriving DecidableEq, Repr

/-- Where a client thread stands. `empty` is the local of `push`, `join` tells `wait()`
from `stop()`. -/
inductive Client (T : Type) where
  | idle
  | blocked (task : T) (empty : Bool)
  | woken (task : T) (empty : Bool)
  | notifying
  | stopping (join : Bool)
  | releasing (join : Bool)
  | joining
deriving DecidableEq, Repr

/-- Where the worker stands. `absent` is a `worker_thread_` that is not joinable. -/
inductive Worker (T : Type) where
  | absent
  | head
  | locking
  | waiting
  | woken
  | took (tmp : List (Accepted T))
  | draining (tmp : List (Accepted T))
  | exited
deriving DecidableEq, Repr

structure TaskQueue (ι T : Type) where
  queue : List (Accepted T)
  running : Bool
  clients : ι → Client T
  worker : Worker T
  accepted : List (Accepted T)
  batches : List (List (Accepted T))
  ran : List (Accepted T)

/-- What may happen next: a call begins, a client or the worker goes on, or a waiting
thread wakes up without a notification. -/
inductive Move (ι T : Type) where
  | start
  | push (client : ι) (task : T)
  | stop (client : ι) (join : Bool)
  | proceed (client : ι)
  | wakeClient (client : ι)
  | work
  | wakeWorker
deriving DecidableEq, Repr

namespace Client

variable {T : Type}

/-- `free_cond_.notify_all()`, as it reaches one client. -/
def notified : Client T → Client T
  | blocked task empty => woken task empty
  | other => other

end Client

namespace Worker

variable {T : Type}

/-- `data_cond_.notify_one()` and `notify_all()`: the worker alone waits there. -/
def notified : Worker T → Worker T
  | waiting => woken
  | other => other

/-- What is left of the batch the worker took. -/
def hand : Worker T → List (Accepted T)
  | took tmp => tmp
  | draining tmp => tmp
  | _ => []

@[simp] theorem notified_ne_waiting (worker : Worker T) : worker.notified ≠ waiting := by
  cases worker <;> simp [notified]

@[simp] theorem hand_notified (worker : Worker T) : worker.notified.hand = worker.hand := by
  cases worker <;> rfl

end Worker

namespace TaskQueue

variable {ι T : Type}

/-- A queue as it is constructed: not running, no worker. -/
def initial (ι T : Type) : TaskQueue ι T where
  queue := []
  running := false
  clients := fun _ => .idle
  worker := .absent
  accepted := []
  batches := []
  ran := []

/-- `queue_.push(task)`. -/
def enqueue (state : TaskQueue ι T) (task : T) : TaskQueue ι T :=
  { state with
    queue := state.queue ++ [⟨task, state.accepted.length⟩]
    accepted := state.accepted ++ [⟨task, state.accepted.length⟩] }

/-- `std::queue<T> tmp(move(queue_))`. -/
def take (state : TaskQueue ι T) : TaskQueue ι T :=
  { state with
    queue := []
    worker := .took state.queue
    batches := state.batches ++ [state.queue] }

/-- `free_cond_.notify_all()`. -/
def notifyFree (state : TaskQueue ι T) : TaskQueue ι T :=
  { state with clients := fun client => (state.clients client).notified }

/-- The section of `work_routine` under the lock, entered at first or after a wait. -/
def lockedSection (state : TaskQueue ι T) : TaskQueue ι T :=
  if state.running && state.queue.isEmpty then
    { state with worker := .waiting }
  else if !state.running then
    { state with worker := .exited }
  else
    state.take

/-- One pass of `while (!tmp.empty()) { tmp.back().run(); tmp.pop(); }`: the task that
runs is the last one, the task that leaves is the first one. -/
def drain (state : TaskQueue ι T) : List (Accepted T) → TaskQueue ι T
  | [] => { state with worker := .head }
  | front :: rest =>
      { state with
        worker := .draining rest
        ran := state.ran ++ [(front :: rest).getLast (List.cons_ne_nil front rest)] }

/-- The worker's next step in `work_routine`, where it does not wait. -/
def work (limit : Nat) (state : TaskQueue ι T) : Option (TaskQueue ι T) :=
  match state.worker with
  | .absent => none
  | .head => some { state with worker := if state.running then .locking else .exited }
  | .locking => some state.lockedSection
  | .waiting => none
  | .woken => some state.lockedSection
  | .took tmp =>
      let after := { state with worker := .draining tmp }
      some (if limit ≤ tmp.length then after.notifyFree else after)
  | .draining tmp => some (state.drain tmp)
  | .exited => none

variable [DecidableEq ι]

def setClient (state : TaskQueue ι T) (client : ι) (place : Client T) : TaskQueue ι T :=
  { state with clients := Function.update state.clients client place }

/-- The section of `push` under the lock, entered at first or after a wait: it blocks,
queues the task or drops it. -/
def pushSection (limit : Nat) (state : TaskQueue ι T) (client : ι) (task : T) (empty : Bool) :
    TaskQueue ι T :=
  if state.running && limit != 0 && decide (limit ≤ state.queue.length) then
    state.setClient client (.blocked task empty)
  else if state.running then
    (state.enqueue task).setClient client (if empty then .notifying else .idle)
  else
    state.setClient client .idle

/-- What a client inside a call does next. A `join()` waits for the worker's end, and
without a thread to join it throws. -/
def proceed (limit : Nat) (state : TaskQueue ι T) (client : ι) : Option (TaskQueue ι T) :=
  match state.clients client with
  | .idle => none
  | .blocked _ _ => none
  | .woken task empty => some (state.pushSection limit client task empty)
  | .notifying =>
      some ({ state with worker := state.worker.notified }.setClient client .idle)
  | .stopping join =>
      some ({ state with worker := state.worker.notified }.setClient client (.releasing join))
  | .releasing join =>
      some (state.notifyFree.setClient client (if join then .joining else .idle))
  | .joining =>
      match state.worker with
      | .exited => some ({ state with worker := .absent }.setClient client .idle)
      | .absent => some (state.setClient client .idle)
      | _ => none

/-- `start()`. A thread object that still has a thread cannot take another one. -/
def start (state : TaskQueue ι T) : Option (TaskQueue ι T) :=
  if state.running then some state
  else
    match state.worker with
    | .absent => some { state with running := true, worker := .head }
    | _ => none

def step (limit : Nat) (state : TaskQueue ι T) : Move ι T → Option (TaskQueue ι T)
  | .start => state.start
  | .push client task =>
      match state.clients client with
      | .idle => some (state.pushSection limit client task state.queue.isEmpty)
      | _ => none
  | .stop client join =>
      match state.clients client with
      | .idle => some ({ state with running := false }.setClient client (.stopping join))
      | _ => none
  | .proceed client => state.proceed limit client
  | .wakeClient client =>
      match state.clients client with
      | .blocked task empty => some (state.setClient client (.woken task empty))
      | _ => none
  | .work => state.work limit
  | .wakeWorker =>
      match state.worker with
      | .waiting => some { state with worker := .woken }
      | _ => none

/-! ### What a step can do -/

/-- The move brings the client into the locked section of `push`, with these locals. -/
inductive Enters (state : TaskQueue ι T) : Move ι T → ι → T → Bool → Prop where
  | first (client : ι) (task : T) (idle : state.clients client = .idle) :
      Enters state (.push client task) client task state.queue.isEmpty
  | again (client : ι) (task : T) (empty : Bool)
      (woken : state.clients client = .woken task empty) :
      Enters state (.proceed client) client task empty

/-- Every step, with what it asks of the state. -/
inductive Steps (limit : Nat) (state : TaskQueue ι T) : Move ι T → TaskQueue ι T → Prop where
  | runsAlready (running : state.running = true) : Steps limit state .start state
  | starts (stopped : state.running = false) (absent : state.worker = .absent) :
      Steps limit state .start { state with running := true, worker := .head }
  | blocks {move : Move ι T} {client : ι} {task : T} {empty : Bool}
      (enters : Enters state move client task empty) (running : state.running = true)
      (limited : limit ≠ 0) (full : limit ≤ state.queue.length) :
      Steps limit state move (state.setClient client (.blocked task empty))
  | enqueues {move : Move ι T} {client : ι} {task : T} {empty : Bool}
      (enters : Enters state move client task empty) (running : state.running = true)
      (room : limit ≠ 0 → state.queue.length < limit) :
      Steps limit state move
        ((state.enqueue task).setClient client (if empty then .notifying else .idle))
  | drops {move : Move ι T} {client : ι} {task : T} {empty : Bool}
      (enters : Enters state move client task empty) (stopped : state.running = false) :
      Steps limit state move (state.setClient client .idle)
  | stops (client : ι) (join : Bool) (idle : state.clients client = .idle) :
      Steps limit state (.stop client join)
        ({ state with running := false }.setClient client (.stopping join))
  | notifies (client : ι) (notifying : state.clients client = .notifying) :
      Steps limit state (.proceed client)
        ({ state with worker := state.worker.notified }.setClient client .idle)
  | notifiesAll (client : ι) (join : Bool) (stopping : state.clients client = .stopping join) :
      Steps limit state (.proceed client)
        ({ state with worker := state.worker.notified }.setClient client (.releasing join))
  | releases (client : ι) (join : Bool) (releasing : state.clients client = .releasing join) :
      Steps limit state (.proceed client)
        (state.notifyFree.setClient client (if join then .joining else .idle))
  | joins (client : ι) (joining : state.clients client = .joining)
      (ended : state.worker = .exited) :
      Steps limit state (.proceed client)
        ({ state with worker := .absent }.setClient client .idle)
  | joinsNone (client : ι) (joining : state.clients client = .joining)
      (absent : state.worker = .absent) :
      Steps limit state (.proceed client) (state.setClient client .idle)
  | wakesClient (client : ι) (task : T) (empty : Bool)
      (blocked : state.clients client = .blocked task empty) :
      Steps limit state (.wakeClient client) (state.setClient client (.woken task empty))
  | wakesWorker (waiting : state.worker = .waiting) :
      Steps limit state .wakeWorker { state with worker := .woken }
  | turns {next : Worker T} (empty : state.worker.hand = []) (later : next.hand = [])
      (awake : next ≠ .waiting) : Steps limit state .work { state with worker := next }
  | waits (empty : state.worker.hand = []) (drained : state.queue = []) :
      Steps limit state .work { state with worker := .waiting }
  | takes (empty : state.worker.hand = []) (running : state.running = true)
      (queued : state.queue ≠ []) : Steps limit state .work state.take
  | announces (tmp : List (Accepted T)) (took : state.worker = .took tmp)
      (enough : limit ≤ tmp.length) :
      Steps limit state .work ({ state with worker := .draining tmp }.notifyFree)
  | keepsQuiet (tmp : List (Accepted T)) (took : state.worker = .took tmp)
      (few : tmp.length < limit) :
      Steps limit state .work { state with worker := .draining tmp }
  | runs (front : Accepted T) (rest : List (Accepted T))
      (draining : state.worker = .draining (front :: rest)) :
      Steps limit state .work
        { state with
          worker := .draining rest
          ran := state.ran ++ [(front :: rest).getLast (List.cons_ne_nil front rest)] }

variable {limit : Nat} {state after : TaskQueue ι T} {move : Move ι T}

theorem steps_pushSection {client : ι} {task : T} {empty : Bool}
    (enters : Enters state move client task empty) :
    Steps limit state move (state.pushSection limit client task empty) := by
  unfold pushSection
  by_cases running : state.running = true
  · by_cases full : limit ≠ 0 ∧ limit ≤ state.queue.length
    · rw [if_pos (by simp [running, full.1, full.2])]
      exact .blocks enters running full.1 full.2
    · rw [if_neg (by simpa [running] using full), if_pos running]
      apply Steps.enqueues enters running
      intro limited
      exact Nat.lt_of_not_le fun reached => full ⟨limited, reached⟩
  · rw [if_neg (by simp [running]), if_neg running]
    exact .drops enters (by simpa using running)

theorem steps_lockedSection (empty : state.worker.hand = []) :
    Steps limit state .work state.lockedSection := by
  unfold lockedSection
  by_cases running : state.running = true
  · by_cases drained : state.queue = []
    · rw [if_pos (by simp [running, drained])]
      exact .waits empty drained
    · rw [if_neg (by simp [drained]), if_neg (by simp [running])]
      exact .takes empty running drained
  · rw [if_neg (by simp [running]), if_pos (by simp [running])]
    exact .turns empty rfl (by simp)

theorem steps_work (taken : state.work limit = some after) : Steps limit state .work after := by
  unfold work at taken
  split at taken
  case h_1 => cases taken
  case h_2 standing =>
    cases taken
    apply Steps.turns
    · rw [standing]
      rfl
    · split <;> rfl
    · split <;> simp
  case h_3 standing =>
    cases taken
    apply steps_lockedSection
    rw [standing]
    rfl
  case h_4 => cases taken
  case h_5 standing =>
    cases taken
    apply steps_lockedSection
    rw [standing]
    rfl
  case h_6 tmp standing =>
    cases taken
    by_cases enough : limit ≤ tmp.length
    · rw [if_pos enough]
      exact .announces tmp standing enough
    · rw [if_neg enough]
      exact .keepsQuiet tmp standing (Nat.lt_of_not_le enough)
  case h_7 tmp standing =>
    cases taken
    cases tmp with
    | nil =>
        apply Steps.turns
        · rw [standing]
          rfl
        · rfl
        · simp
    | cons front rest => exact .runs front rest standing
  case h_8 => cases taken

theorem steps_proceed {client : ι} (taken : state.proceed limit client = some after) :
    Steps limit state (.proceed client) after := by
  unfold proceed at taken
  split at taken
  case h_1 => cases taken
  case h_2 => cases taken
  case h_3 task empty standing =>
    cases taken
    exact steps_pushSection (.again client task empty standing)
  case h_4 standing =>
    cases taken
    exact .notifies client standing
  case h_5 join standing =>
    cases taken
    exact .notifiesAll client join standing
  case h_6 join standing =>
    cases taken
    exact .releases client join standing
  case h_7 standing =>
    split at taken
    case h_1 ended =>
      cases taken
      exact .joins client standing ended
    case h_2 absent =>
      cases taken
      exact .joinsNone client standing absent
    case h_3 => cases taken

/-- The inversion of `step`: whatever it does is one of `Steps`. -/
theorem steps_of_step (taken : step limit state move = some after) :
    Steps limit state move after := by
  cases move with
  | start =>
      simp only [step, start] at taken
      split at taken
      case isTrue running =>
        cases taken
        exact .runsAlready running
      case isFalse stopped =>
        split at taken
        case h_1 absent =>
          cases taken
          exact .starts (by simpa using stopped) absent
        case h_2 => cases taken
  | push client task =>
      simp only [step] at taken
      split at taken
      case h_1 idle =>
        cases taken
        exact steps_pushSection (.first client task idle)
      case h_2 => cases taken
  | stop client join =>
      simp only [step] at taken
      split at taken
      case h_1 idle =>
        cases taken
        exact .stops client join idle
      case h_2 => cases taken
  | proceed client => exact steps_proceed taken
  | wakeClient client =>
      simp only [step] at taken
      split at taken
      case h_1 task empty blocked =>
        cases taken
        exact .wakesClient client task empty blocked
      case h_2 => cases taken
  | work => exact steps_work taken
  | wakeWorker =>
      simp only [step] at taken
      split at taken
      case h_1 waiting =>
        cases taken
        exact .wakesWorker waiting
      case h_2 => cases taken

end TaskQueue

end StdPrograms.Profile

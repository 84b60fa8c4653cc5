import StdPrograms.Profile.TaskQueue

/-!
Contract: who sleeps on which condition variable.

Owns the two invariants of the wait sets: queued tasks and the worker on `data_cond_`,
the bound and the clients on `free_cond_`. The first one has an exact condition on the
steps of a run, the second one needs none.

Does not own what the worker runs.
-/

namespace StdPrograms.Profile

open StdPrograms.Foundation

namespace TaskQueue

variable {ι T : Type}

/-! ### The worker on `data_cond_` -/

section WorkerAsleep

/-- The worker does not sleep while tasks are queued, or a client that pushed is about
to notify it. -/
def NoLostWakeUp (state : TaskQueue ι T) : Prop :=
  state.running = true → state.queue ≠ [] →
    state.worker ≠ .waiting ∨ ∃ client, state.clients client = .notifying

/-- A client that found tasks queued before it blocked, and so will not notify, comes
back to an empty queue and a sleeping worker. -/
structure PushesUnnoticed (state : TaskQueue ι T) (client : ι) : Prop where
  stale : ∃ task, state.clients client = .woken task false
  running : state.running = true
  empty : state.queue = []
  asleep : state.worker = .waiting
  silent : ∀ other, state.clients other ≠ .notifying

/-- The move is not the push of such a client. -/
def Noticed (state : TaskQueue ι T) (move : Move ι T) : Prop :=
  ∀ client, move = .proceed client → ¬ state.PushesUnnoticed client

theorem initial_noLostWakeUp : NoLostWakeUp (initial ι T) := by
  intro running
  cases running

theorem NoLostWakeUp.of_awake {state : TaskQueue ι T} (awake : state.worker ≠ .waiting) :
    state.NoLostWakeUp := by
  intro running queued
  exact .inl awake

theorem NoLostWakeUp.of_empty {state : TaskQueue ι T} (empty : state.queue = []) :
    state.NoLostWakeUp := by
  intro running queued
  exact absurd empty queued

theorem NoLostWakeUp.of_stopped {state : TaskQueue ι T} (stopped : state.running = false) :
    state.NoLostWakeUp := by
  intro running
  exact absurd running (by simp [stopped])

variable {limit : Nat} {state after : TaskQueue ι T} {move : Move ι T}

theorem Enters.quiet {client : ι} {task : T} {empty : Bool}
    (enters : Enters state move client task empty) : state.clients client ≠ .notifying := by
  cases enters with
  | first client task idle => simp [idle]
  | again client task empty woken => simp [woken]

variable [DecidableEq ι]

/-- A client that was not about to notify may change its place. -/
theorem NoLostWakeUp.setClient {client : ι} {place : Client T} (kept : state.NoLostWakeUp)
    (quiet : state.clients client ≠ .notifying) :
    (state.setClient client place).NoLostWakeUp := by
  intro running queued
  cases kept running queued with
  | inl awake => exact .inl awake
  | inr pending =>
      obtain ⟨other, notifying⟩ := pending
      right
      exists other
      have different : other ≠ client := by
        intro same
        exact quiet (same ▸ notifying)
      simpa [TaskQueue.setClient, different] using notifying

/-- An unnoticed push leaves a task queued, the worker asleep and nobody to wake it. -/
theorem PushesUnnoticed.loses {client : ι} (unnoticed : state.PushesUnnoticed client)
    (taken : step limit state (.proceed client) = some after) : ¬ after.NoLostWakeUp := by
  obtain ⟨task, woken⟩ := unnoticed.stale
  have entered : after = (state.enqueue task).setClient client .idle := by
    have pushed : step limit state (.proceed client) =
        some (state.pushSection limit client task false) := by
      simp only [step, proceed, woken]
    rw [pushed, Option.some.injEq] at taken
    rw [← taken, pushSection, if_neg, if_pos unnoticed.running]
    · rfl
    · simp [unnoticed.empty]
  intro kept
  rw [entered] at kept
  have later := kept unnoticed.running (by simp [TaskQueue.enqueue, TaskQueue.setClient])
  cases later with
  | inl awake => exact awake unnoticed.asleep
  | inr pending =>
      obtain ⟨other, notifying⟩ := pending
      by_cases same : other = client
      · simp [TaskQueue.setClient, same] at notifying
      · apply unnoticed.silent other
        simpa [TaskQueue.setClient, TaskQueue.enqueue, same] using notifying

/-- An accepted push that is not unnoticed: the client notifies, somebody else does, the
worker is awake, or the queue held tasks before. -/
theorem NoLostWakeUp.enqueue {client : ι} {task : T} {empty : Bool}
    (kept : state.NoLostWakeUp) (enters : Enters state move client task empty)
    (running : state.running = true) (noticed : state.Noticed move) :
    ((state.enqueue task).setClient client
      (if empty then .notifying else .idle)).NoLostWakeUp := by
  by_cases notifies : empty = true
  · intro _ _
    right
    exists client
    simp [TaskQueue.setClient, notifies]
  · have before : (state.enqueue task).NoLostWakeUp := by
      intro _ _
      change state.worker ≠ .waiting ∨ ∃ client, state.clients client = .notifying
      by_cases queued : state.queue = []
      · cases enters with
        | first client task idle => simp [queued] at notifies
        | again client task empty woken =>
            by_contra lost
            rw [not_or, not_not, not_exists] at lost
            apply noticed client rfl
            constructor
            · exists task
              simpa [notifies] using woken
            · exact running
            · exact queued
            · exact lost.1
            · exact lost.2
      · exact kept running queued
    exact before.setClient enters.quiet

theorem NoLostWakeUp.step (kept : state.NoLostWakeUp) (noticed : state.Noticed move)
    (taken : TaskQueue.step limit state move = some after) : after.NoLostWakeUp := by
  cases steps_of_step taken with
  | runsAlready running => exact kept
  | starts stopped absent => exact .of_awake (by simp)
  | blocks enters running limited full => exact kept.setClient enters.quiet
  | enqueues enters running room => exact kept.enqueue enters running noticed
  | drops enters stopped => exact kept.setClient enters.quiet
  | stops client join idle => exact .of_stopped rfl
  | notifies client notifying => exact .of_awake (Worker.notified_ne_waiting _)
  | notifiesAll client join stopping => exact .of_awake (Worker.notified_ne_waiting _)
  | releases client join releasing =>
      apply NoLostWakeUp.setClient
      · intro running queued
        cases kept running queued with
        | inl awake => exact .inl awake
        | inr pending =>
            obtain ⟨other, notifying⟩ := pending
            right
            exists other
            simp [notifyFree, notifying, Client.notified]
      · simp [notifyFree, releasing, Client.notified]
  | joins client joining ended => exact .of_awake (by simp [TaskQueue.setClient])
  | joinsNone client joining absent => exact kept.setClient (by simp [joining])
  | wakesClient client task empty blocked => exact kept.setClient (by simp [blocked])
  | wakesWorker waiting => exact .of_awake (by simp)
  | turns empty later awake => exact .of_awake awake
  | waits empty drained => exact .of_empty drained
  | takes empty running queued => exact .of_awake (by simp [take])
  | announces tmp took enough => exact .of_awake (by simp [notifyFree])
  | keepsQuiet tmp took few => exact .of_awake (by simp)
  | runs front rest draining => exact .of_awake (by simp)

/-- The worker never sleeps through queued tasks exactly in the runs in which no push
goes unnoticed. -/
theorem noLostWakeUp_iff (limit : Nat) (moves : List (Move ι T)) :
    Visits (step limit) NoLostWakeUp (initial ι T) moves ↔
      Along (step limit) Noticed (initial ι T) moves := by
  have exact : ∀ (state : TaskQueue ι T) move after, True → state.NoLostWakeUp →
      step limit state move = some after → (after.NoLostWakeUp ↔ state.Noticed move) := by
    intro state move after _ kept taken
    constructor
    · intro keeps client proceeds unnoticed
      rw [proceeds] at taken
      exact unnoticed.loses taken keeps
    · intro noticed
      exact kept.step noticed taken
  exact visits_iff_along (fun _ _ _ _ _ => trivial) exact trivial initial_noLostWakeUp

/-- One client fills the queue and another one blocks on it. The worker takes the first
task, releases the client, runs the task and sleeps; only then the second task arrives. -/
def pushedLate : List (Move (Fin 2) Nat) :=
  [.start, .push 0 10, .push 1 11, .proceed 0, .work, .work, .work, .work, .work, .work,
    .work, .proceed 1]

theorem not_noLostWakeUp :
    ¬ ∀ (limit : Nat) (state : TaskQueue (Fin 2) Nat),
      Reachable (step limit) (initial (Fin 2) Nat) state → state.NoLostWakeUp := by
  intro kept
  have reached : (follow (step 1) (initial (Fin 2) Nat) pushedLate).map
      (fun state => (state.running, state.queue, state.worker, state.clients 0,
        state.clients 1)) = some (true, [⟨11, 1⟩], .waiting, .idle, .idle) := by
    decide
  obtain ⟨state, followed, seen⟩ := Option.map_eq_some_iff.mp reached
  simp only [Prod.mk.injEq] at seen
  obtain ⟨running, queue, asleep, first, second⟩ := seen
  have later := kept 1 state ⟨pushedLate, followed⟩ running (by simp [queue])
  cases later with
  | inl awake => exact awake asleep
  | inr pending =>
      obtain ⟨client, notifying⟩ := pending
      have idle : state.clients client = .idle := by
        cases client using Fin.cases with
        | zero => exact first
        | succ other =>
            have only : other = 0 := Subsingleton.elim other 0
            rw [only]
            exact second
      rw [idle] at notifying
      cases notifying

end WorkerAsleep

/-! ### The clients on `free_cond_` -/

/-- The bound of the queue, and that a client blocks on a full queue only, or while the
worker is about to release the clients behind the batch it took. -/
structure NoneStranded (limit : Nat) (state : TaskQueue ι T) : Prop where
  bounded : state.queue.length ≤ limit
  blocked : ∀ client task empty, state.clients client = .blocked task empty →
    state.queue.length = limit ∨ ∃ tmp, state.worker = .took tmp ∧ limit ≤ tmp.length

section ClientsBlocked

variable {limit : Nat} {state after : TaskQueue ι T} {move : Move ι T}

theorem initial_noneStranded : NoneStranded limit (initial ι T) where
  bounded := Nat.zero_le limit
  blocked := by
    intro client task empty blocked
    cases blocked

namespace NoneStranded

/-- Queue and clients stay, and so does a batch that is to be announced. -/
theorem frame {other : TaskQueue ι T} (kept : state.NoneStranded limit)
    (queue : other.queue = state.queue) (clients : other.clients = state.clients)
    (announces : ∀ tmp, state.worker = .took tmp → limit ≤ tmp.length →
      other.worker = .took tmp) : other.NoneStranded limit where
  bounded := by
    rw [queue]
    exact kept.bounded
  blocked := by
    intro client task empty blocked
    rw [clients] at blocked
    rw [queue]
    cases kept.blocked client task empty blocked with
    | inl full => exact .inl full
    | inr announced =>
        obtain ⟨tmp, took, enough⟩ := announced
        right
        exists tmp
        exact ⟨announces tmp took enough, enough⟩

/-- While there is room, whoever is blocked waits for the announcement of a batch. -/
theorem enqueue {task : T} (kept : state.NoneStranded limit)
    (room : state.queue.length < limit) : (state.enqueue task).NoneStranded limit where
  bounded := by
    rw [TaskQueue.enqueue, List.length_append]
    exact room
  blocked := by
    intro client waits empty blocked
    cases kept.blocked client waits empty blocked with
    | inl full => exact absurd full (Nat.ne_of_lt room)
    | inr announced => exact .inr announced

/-- An empty batch needs no announcement. -/
theorem no_announcement (positive : 0 < limit) (empty : state.worker.hand = [])
    (tmp : List (Accepted T)) (took : state.worker = .took tmp) : ¬ limit ≤ tmp.length := by
  have gone : tmp = [] := by
    rw [took] at empty
    exact empty
  rw [gone]
  exact Nat.not_le_of_lt positive

/-- Taking a full queue leaves a batch as long as the limit to announce. -/
theorem take (kept : state.NoneStranded limit) (positive : 0 < limit)
    (empty : state.worker.hand = []) : state.take.NoneStranded limit where
  bounded := Nat.zero_le limit
  blocked := by
    intro client task stale blocked
    right
    exists state.queue
    constructor
    · rfl
    · cases kept.blocked client task stale blocked with
      | inl full => exact Nat.le_of_eq full.symm
      | inr announced =>
          obtain ⟨tmp, took, enough⟩ := announced
          exact absurd enough (no_announcement positive empty tmp took)

/-- `notify_all` leaves nobody blocked. -/
theorem notifyFree (bounded : state.queue.length ≤ limit) :
    state.notifyFree.NoneStranded limit where
  bounded := bounded
  blocked := by
    intro client task empty blocked
    simp only [TaskQueue.notifyFree] at blocked
    cases standing : state.clients client <;> simp [standing, Client.notified] at blocked

variable [DecidableEq ι]

/-- A client moves to a place where it does not wait. -/
theorem setClient {client : ι} {place : Client T} (kept : state.NoneStranded limit)
    (free : ∀ task empty, place ≠ .blocked task empty) :
    (state.setClient client place).NoneStranded limit where
  bounded := kept.bounded
  blocked := by
    intro other task empty blocked
    by_cases same : other = client
    · exact absurd (by simpa [TaskQueue.setClient, same] using blocked) (free task empty)
    · exact kept.blocked other task empty (by simpa [TaskQueue.setClient, same] using blocked)

/-- A client that blocks does so on a full queue. -/
theorem block {client : ι} {task : T} {empty : Bool} (kept : state.NoneStranded limit)
    (full : limit ≤ state.queue.length) :
    (state.setClient client (.blocked task empty)).NoneStranded limit where
  bounded := kept.bounded
  blocked := by
    intro _ _ _ _
    left
    exact Nat.le_antisymm kept.bounded full

theorem step (kept : state.NoneStranded limit) (positive : 0 < limit)
    (taken : TaskQueue.step limit state move = some after) : after.NoneStranded limit := by
  cases steps_of_step taken with
  | runsAlready running => exact kept
  | starts stopped absent => exact kept.frame rfl rfl (by simp [absent])
  | blocks enters running limited full => exact kept.block full
  | enqueues enters running room =>
      apply (kept.enqueue (room (Nat.ne_of_gt positive))).setClient
      intro _ _
      split <;> simp
  | drops enters stopped => exact kept.setClient (by simp)
  | stops client join idle =>
      apply setClient
      · exact kept.frame rfl rfl fun _ took _ => took
      · simp
  | notifies client notifying =>
      apply setClient
      · exact kept.frame rfl rfl (by simp +contextual [Worker.notified])
      · simp
  | notifiesAll client join stopping =>
      apply setClient
      · exact kept.frame rfl rfl (by simp +contextual [Worker.notified])
      · simp
  | releases client join releasing =>
      apply (notifyFree kept.bounded).setClient
      intro _ _
      split <;> simp
  | joins client joining ended =>
      apply setClient
      · exact kept.frame rfl rfl (by simp [ended])
      · simp
  | joinsNone client joining absent => exact kept.setClient (by simp)
  | wakesClient client task empty blocked => exact kept.setClient (by simp)
  | wakesWorker waiting => exact kept.frame rfl rfl (by simp [waiting])
  | turns empty later awake =>
      refine kept.frame rfl rfl ?_
      intro tmp took enough
      exact absurd enough (no_announcement positive empty tmp took)
  | waits empty drained =>
      refine kept.frame rfl rfl ?_
      intro tmp took enough
      exact absurd enough (no_announcement positive empty tmp took)
  | takes empty running queued => exact kept.take positive empty
  | announces tmp took enough => exact notifyFree kept.bounded
  | keepsQuiet tmp took few =>
      refine kept.frame rfl rfl ?_
      intro batch same enough
      rw [took, Worker.took.injEq] at same
      rw [same] at few
      exact absurd enough (Nat.not_le_of_lt few)
  | runs front rest draining => exact kept.frame rfl rfl (by simp [draining])

end NoneStranded

variable [DecidableEq ι]

/-- In every state of every run the queue is within its limit, and whoever is blocked
waits on a full queue or will be released by the worker. -/
theorem noneStranded (positive : 0 < limit)
    (reachable : Reachable (step limit) (initial ι T) state) : state.NoneStranded limit := by
  apply reachable.invariant initial_noneStranded
  intro before move after kept taken
  exact kept.step positive taken

/-- A client is blocked while the worker holds the batch that will release it. -/
theorem noneStranded_blocked :
    ∃ state : TaskQueue (Fin 2) Nat, Reachable (step 1) (initial (Fin 2) Nat) state ∧
      state.clients 1 = .blocked 11 false ∧ state.queue = [] ∧ state.NoneStranded 1 := by
  have reached : (follow (step 1) (initial (Fin 2) Nat)
      [.start, .push 0 10, .push 1 11, .work, .work]).map
      (fun state => (state.clients 1, state.queue)) = some (.blocked 11 false, []) := by
    decide
  obtain ⟨state, followed, seen⟩ := Option.map_eq_some_iff.mp reached
  obtain ⟨blocked, empty⟩ := Prod.mk.inj seen
  have reachable : Reachable (step 1) (initial (Fin 2) Nat) state := ⟨_, followed⟩
  exact ⟨state, reachable, blocked, empty, noneStranded Nat.zero_lt_one reachable⟩

end ClientsBlocked

end TaskQueue

end StdPrograms.Profile

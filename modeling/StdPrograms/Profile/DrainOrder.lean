import Mathlib.Data.List.Basic
import Mathlib.Data.List.Nodup
import Mathlib.Data.List.Range
import StdPrograms.Profile.TaskQueue

/-!
Contract: which tasks the worker runs, and in which order.

Owns the log of the drain loop over a whole batch, the history of every run (what was
accepted is what the batches hold followed by what still waits), and the condition
under which the tasks run once each and in push order.

Does not own the wake-ups.
-/

namespace StdPrograms.Profile

open StdPrograms.Foundation

section Drained

variable {α : Type}

/-- What the drain loop runs for a batch, pass by pass. -/
def drained : List α → List α
  | [] => []
  | front :: rest => (front :: rest).getLast (List.cons_ne_nil front rest) :: drained rest

theorem length_drained (batch : List α) : (drained batch).length = batch.length := by
  induction batch with
  | nil => rfl
  | cons front rest inductionHypothesis => simp [drained, inductionHypothesis]

/-- Among distinct tasks the loop runs each one, in order, for one task at most. -/
theorem drained_eq_self_iff {batch : List α} (distinct : batch.Nodup) :
    drained batch = batch ↔ batch.length ≤ 1 := by
  cases batch with
  | nil => simp [drained]
  | cons front rest =>
      cases rest with
      | nil => simp [drained]
      | cons second others =>
          constructor
          · intro same
            have frontLast := (List.cons.inj same).1
            rw [List.getLast_cons (List.cons_ne_nil second others)] at frontLast
            have frontLater : front ∈ second :: others := by
              rw [← frontLast]
              exact List.getLast_mem (List.cons_ne_nil second others)
            exact absurd frontLater (List.nodup_cons.mp distinct).1
          · intro short
            simp at short

/-- A list of lists is left alone as a whole only where each member is, if no member
changes its length. -/
theorem flatten_map_eq_flatten_iff {change : List α → List α}
    (sameLength : ∀ batch, (change batch).length = batch.length) (batches : List (List α)) :
    (batches.map change).flatten = batches.flatten ↔
      ∀ batch ∈ batches, change batch = batch := by
  induction batches with
  | nil => simp
  | cons batch rest inductionHypothesis =>
      rw [List.map_cons, List.flatten_cons, List.flatten_cons, List.forall_mem_cons,
        ← inductionHypothesis]
      constructor
      · intro same
        exact List.append_inj same (sameLength batch)
      · intro both
        rw [both.1, both.2]

end Drained

namespace TaskQueue

variable {ι T : Type}

/-- Every task that left the queue ran once, in push order: what ran, followed by what
still waits, is what was accepted. -/
def RunsInPushOrder (state : TaskQueue ι T) : Prop :=
  state.ran ++ state.queue = state.accepted

instance [DecidableEq T] (state : TaskQueue ι T) : Decidable state.RunsInPushOrder :=
  inferInstanceAs (Decidable (_ = _))

/-- What the log says about the past of a state. -/
structure History (state : TaskQueue ι T) : Prop where
  turns : state.accepted.map Accepted.turn = List.range state.accepted.length
  cut : state.batches.flatten ++ state.queue = state.accepted
  nonempty : ∀ batch ∈ state.batches, batch ≠ []
  log : state.ran ++ drained state.worker.hand = (state.batches.map drained).flatten

theorem initial_history : History (initial ι T) where
  turns := rfl
  cut := rfl
  nonempty := by
    intro batch member
    cases member
  log := rfl

namespace History

variable {state : TaskQueue ι T}

theorem distinct (history : History state) : state.accepted.Nodup := by
  apply List.Nodup.of_map Accepted.turn
  rw [history.turns]
  exact List.nodup_range

/-- The history depends on the queue, the log and the worker's hand alone. -/
theorem frame {other : TaskQueue ι T} (history : History state)
    (queue : other.queue = state.queue) (accepted : other.accepted = state.accepted)
    (batches : other.batches = state.batches) (ran : other.ran = state.ran)
    (hand : other.worker.hand = state.worker.hand) : History other where
  turns := by
    rw [accepted]
    exact history.turns
  cut := by
    rw [accepted, batches, queue]
    exact history.cut
  nonempty := by
    rw [batches]
    exact history.nonempty
  log := by
    rw [ran, hand, batches]
    exact history.log

theorem enqueue (history : History state) (task : T) : History (state.enqueue task) where
  turns := by
    simp only [TaskQueue.enqueue, List.map_append, List.length_append, List.map_cons,
      List.map_nil, List.length_cons, List.length_nil, Nat.zero_add, List.range_succ,
      history.turns]
  cut := by
    simp only [TaskQueue.enqueue]
    rw [← List.append_assoc, history.cut]
  nonempty := history.nonempty
  log := history.log

theorem take (history : History state) (empty : state.worker.hand = [])
    (queued : state.queue ≠ []) : History state.take where
  turns := history.turns
  cut := by
    simp only [TaskQueue.take, List.flatten_append, List.flatten_cons, List.flatten_nil,
      List.append_nil]
    exact history.cut
  nonempty := by
    intro batch member
    simp only [TaskQueue.take, List.mem_append, List.mem_singleton] at member
    cases member with
    | inl earlier => exact history.nonempty batch earlier
    | inr last =>
        rw [last]
        exact queued
  log := by
    have log := history.log
    rw [empty, drained, List.append_nil] at log
    simp only [TaskQueue.take, Worker.hand, List.map_append, List.map_cons, List.map_nil,
      List.flatten_append, List.flatten_cons, List.flatten_nil, List.append_nil]
    rw [log]

/-- One pass of the drain loop moves one entry of its log. -/
theorem run (history : History state) (front : Accepted T) (rest : List (Accepted T))
    (draining : state.worker = .draining (front :: rest)) :
    History { state with
      worker := .draining rest
      ran := state.ran ++ [(front :: rest).getLast (List.cons_ne_nil front rest)] } where
  turns := history.turns
  cut := history.cut
  nonempty := history.nonempty
  log := by
    have log := history.log
    rw [draining] at log
    rw [← log]
    simp [Worker.hand, drained]

variable [DecidableEq ι]

theorem step {limit : Nat} {move : Move ι T} {after : TaskQueue ι T} (history : History state)
    (taken : TaskQueue.step limit state move = some after) : History after := by
  cases steps_of_step taken with
  | runsAlready running => exact history
  | starts stopped absent =>
      refine history.frame rfl rfl rfl rfl ?_
      rw [absent]
      rfl
  | blocks enters running limited full => exact history.frame rfl rfl rfl rfl rfl
  | enqueues enters running room => exact (history.enqueue _).frame rfl rfl rfl rfl rfl
  | drops enters stopped => exact history.frame rfl rfl rfl rfl rfl
  | stops client join idle => exact history.frame rfl rfl rfl rfl rfl
  | notifies client notifying =>
      exact history.frame rfl rfl rfl rfl (Worker.hand_notified state.worker)
  | notifiesAll client join stopping =>
      exact history.frame rfl rfl rfl rfl (Worker.hand_notified state.worker)
  | releases client join releasing => exact history.frame rfl rfl rfl rfl rfl
  | joins client joining ended =>
      refine history.frame rfl rfl rfl rfl ?_
      rw [ended]
      rfl
  | joinsNone client joining absent => exact history.frame rfl rfl rfl rfl rfl
  | wakesClient client task empty blocked => exact history.frame rfl rfl rfl rfl rfl
  | wakesWorker waiting =>
      refine history.frame rfl rfl rfl rfl ?_
      rw [waiting]
      rfl
  | turns empty later awake =>
      refine history.frame rfl rfl rfl rfl ?_
      rw [empty]
      exact later
  | waits empty drained =>
      refine history.frame rfl rfl rfl rfl ?_
      rw [empty]
      rfl
  | takes empty running queued => exact history.take empty queued
  | announces tmp took enough =>
      refine history.frame rfl rfl rfl rfl ?_
      rw [took]
      rfl
  | keepsQuiet tmp took few =>
      refine history.frame rfl rfl rfl rfl ?_
      rw [took]
      rfl
  | runs front rest draining => exact history.run front rest draining

end History

variable [DecidableEq ι] {limit : Nat} {state : TaskQueue ι T}

theorem reachable_history (reachable : Reachable (step limit) (initial ι T) state) :
    History state := by
  apply reachable.invariant initial_history
  intro before move after history taken
  exact history.step taken

/-- With its batches drained, the worker has run every task it took once and in push
order exactly when it never took two at a time: `back()` runs, `pop()` drops the front. -/
theorem runsInPushOrder_iff (reachable : Reachable (step limit) (initial ι T) state)
    (finished : state.worker.hand = []) :
    state.RunsInPushOrder ↔ ∀ batch ∈ state.batches, batch.length = 1 := by
  have history := reachable_history reachable
  have ranAll : state.ran = (state.batches.map drained).flatten := by
    have log := history.log
    rwa [finished, drained, List.append_nil] at log
  have distinct : ∀ batch ∈ state.batches, batch.Nodup := by
    have whole : (state.batches.flatten ++ state.queue).Nodup := by
      rw [history.cut]
      exact history.distinct
    exact (List.nodup_flatten.mp whole.of_append_left).1
  rw [RunsInPushOrder, ← history.cut, List.append_cancel_right_eq, ranAll,
    flatten_map_eq_flatten_iff length_drained]
  apply forall₂_congr
  intro batch member
  rw [drained_eq_self_iff (distinct batch member)]
  have := List.length_pos_iff.mpr (history.nonempty batch member)
  omega

/-- The worker comes back to its loop between two pushes. -/
def pushedApart : List (Move Unit Nat) :=
  [.start, .push () 10, .work, .work, .work, .work, .work, .proceed (), .push () 11, .work,
    .work, .work, .work, .work]

theorem runsInPushOrder_pushedApart :
    ∃ state, Reachable (step 3) (initial Unit Nat) state ∧ state.batches.length = 2 ∧
      state.RunsInPushOrder := by
  have reached : (follow (step 3) (initial Unit Nat) pushedApart).map
      (fun state => (state.worker.hand, state.batches)) =
        some ([], [[⟨10, 0⟩], [⟨11, 1⟩]]) := by
    decide
  obtain ⟨state, followed, seen⟩ := Option.map_eq_some_iff.mp reached
  obtain ⟨finished, batches⟩ := Prod.mk.inj seen
  have reachable : Reachable (step 3) (initial Unit Nat) state := ⟨pushedApart, followed⟩
  refine ⟨state, reachable, ?_, ?_⟩
  · rw [batches]
    rfl
  · apply (runsInPushOrder_iff reachable finished).mpr
    rw [batches]
    decide

/-- Both tasks wait when the worker takes the queue. -/
def pushedTogether : List (Move Unit Nat) :=
  [.start, .push () 10, .proceed (), .push () 11, .work, .work, .work, .work, .work]

/-- The second task runs twice and the first one never. -/
theorem pushedTogether_ran :
    (follow (step 3) (initial Unit Nat) pushedTogether).map
      (fun state => (state.worker.hand, state.queue, state.ran, state.accepted)) =
        some ([], [], [⟨11, 1⟩, ⟨11, 1⟩], [⟨10, 0⟩, ⟨11, 1⟩]) := by
  decide

theorem not_runsInPushOrder :
    ¬ ∀ (limit : Nat) (state : TaskQueue Unit Nat),
      Reachable (step limit) (initial Unit Nat) state → state.worker.hand = [] →
        state.RunsInPushOrder := by
  intro inOrder
  obtain ⟨state, followed, seen⟩ := Option.map_eq_some_iff.mp pushedTogether_ran
  simp only [Prod.mk.injEq] at seen
  have runs := inOrder 3 state ⟨pushedTogether, followed⟩ seen.1
  rw [RunsInPushOrder, seen.2.1, seen.2.2.1, seen.2.2.2] at runs
  exact absurd runs (by decide)

end TaskQueue

end StdPrograms.Profile

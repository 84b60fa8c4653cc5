import Mathlib.Algebra.BigOperators.Fin
import Mathlib.Logic.Function.Basic
import StdPrograms.Foundation.SignedInt
import StdPrograms.Foundation.Threads
import StdPrograms.Foundation.Transitions

/-!
Contract: the workers and the logger of `log_thread.cpp` as a labelled transition system.

One label is one section under `log_mutex`, with the notification inside it, or one wake-up that
nobody asked for. Owns how `main` shares the lines out among the workers, the step function, and
that the logger, who counts to `log_cnt` on its own, stops exactly behind the last line.

Does not own a `log_cnt` that is not positive, or how long anything takes.
-/

namespace StdPrograms.Misc

open StdPrograms.Foundation

/-- Where the logger stands: blocked in `cv.wait`, or anywhere else. -/
inductive Logger where
  | awake
  | blocked
deriving DecidableEq, Repr

/-- What may happen next: one round of a worker, the logger's section, or a spurious wake-up. -/
inductive Section (ι : Type) where
  | push (worker : ι)
  | log
  | wake
deriving DecidableEq, Repr

/-- Nobody asked for it. -/
def Section.isSpurious {ι : Type} : Section ι → Bool
  | .wake => true
  | _ => false

structure LogThread (ι : Type) where
  logs : List String
  /-- The rounds that each worker has left. -/
  workers : ι → Nat
  /-- The rounds that the logger has left. -/
  left : Nat
  logger : Logger
  /-- What `fwrite_unlocked` has written. -/
  file : List String

namespace LogThread

/-- What a worker logs. -/
def line : String := "this is a test just for test.\n"

/-! ### The shares -/

/-- The loop of `main` over `workers.push_back`, and `use_cnt` behind it. -/
def spawn (log_cnt_per_thd : Nat) (positive : 0 < log_cnt_per_thd) (limit use_cnt : Nat) :
    List Nat × Nat :=
  if use_cnt < limit then
    let later := spawn log_cnt_per_thd positive limit (use_cnt + log_cnt_per_thd)
    (log_cnt_per_thd :: later.1, later.2)
  else ([], use_cnt)
termination_by limit - use_cnt

/-- The rounds of each worker that `main` starts. There is no result where `int` overflows or a
divisor is zero. -/
def shares (log_cnt thread_num : Nat) : Option (List Nat) :=
  match position 32 (log_cnt + thread_num) with
  | none => none
  | some sum =>
      if thread_num = 0 then none
      else
        let log_cnt_per_thd := (sum - 1) / thread_num
        if positive : 0 < log_cnt_per_thd then
          let (counts, use_cnt) :=
            spawn log_cnt_per_thd positive (log_cnt / log_cnt_per_thd * log_cnt_per_thd) 0
          some (if use_cnt < log_cnt then counts ++ [log_cnt - use_cnt] else counts)
        else none

/-- Up to a multiple of the share, the loop starts a worker for each. -/
theorem spawn_eq {share : Nat} (positive : 0 < share) (rounds use_cnt : Nat) :
    spawn share positive (use_cnt + rounds * share) use_cnt =
      (List.replicate rounds share, use_cnt + rounds * share) := by
  induction rounds generalizing use_cnt with
  | zero =>
      rw [spawn]
      simp
  | succ rounds inductionHypothesis =>
      have further : use_cnt < use_cnt + (rounds + 1) * share :=
        Nat.lt_add_of_pos_right (Nat.mul_pos (Nat.succ_pos _) positive)
      have regrouped : use_cnt + (rounds + 1) * share = use_cnt + share + rounds * share := by
        rw [Nat.succ_mul]
        omega
      rw [spawn, if_pos further, regrouped, inductionHypothesis (use_cnt + share)]
      rfl

/-- The shares of `main`: as many as fit, and one for the rest. -/
theorem shares_eq {log_cnt thread_num : Nat} (lines : 0 < log_cnt) (threads : 0 < thread_num)
    (fits : log_cnt + thread_num < 2 ^ 31) :
    ∃ share, 0 < share ∧ log_cnt ≤ share * thread_num ∧
      shares log_cnt thread_num = some (List.replicate (log_cnt / share) share ++
        if log_cnt % share = 0 then [] else [log_cnt % share]) := by
  have positive : 0 < (log_cnt + thread_num - 1) / thread_num :=
    Nat.div_pos (by omega) threads
  refine ⟨(log_cnt + thread_num - 1) / thread_num, positive, ?_, ?_⟩
  · have below := @Nat.lt_div_mul_add (log_cnt + thread_num - 1) thread_num threads
    omega
  · generalize isShare : (log_cnt + thread_num - 1) / thread_num = share at positive
    have whole := spawn_eq positive (log_cnt / share) 0
    have divided := Nat.div_add_mod' log_cnt share
    simp only [Nat.zero_add] at whole
    simp only [shares, @position_of_lt 32 _ fits, isShare, positive, dif_pos, whole,
      Nat.ne_of_gt threads, if_false]
    congr 1
    by_cases even : log_cnt % share = 0
    · rw [if_pos even, if_neg (by omega), List.append_nil]
    · rw [if_neg even, if_pos (by omega)]
      congr 2
      omega

/-- The shares make up `log_cnt`, and there are no more of them than processors. -/
theorem shares_sum {log_cnt thread_num : Nat} (lines : 0 < log_cnt) (threads : 0 < thread_num)
    (fits : log_cnt + thread_num < 2 ^ 31) :
    ∃ counts, shares log_cnt thread_num = some counts ∧ counts.sum = log_cnt ∧
      counts.length ≤ thread_num ∧ ∀ count ∈ counts, 0 < count := by
  obtain ⟨share, positive, enough, shared⟩ := shares_eq lines threads fits
  have divided := Nat.div_add_mod' log_cnt share
  refine ⟨_, shared, ?_, ?_, ?_⟩
  · by_cases even : log_cnt % share = 0
    · simp [even]
      omega
    · simp [even]
      omega
  · by_cases even : log_cnt % share = 0
    · simp only [even, if_true, List.append_nil, List.length_replicate]
      exact Nat.div_le_of_le_mul enough
    · simp only [even, if_false, List.length_append, List.length_replicate,
        List.length_singleton]
      refine @Nat.lt_of_mul_lt_mul_right share _ _ ?_
      rw [Nat.mul_comm thread_num]
      omega
  · intro count member
    rcases List.mem_append.mp member with full | last
    · rw [List.eq_of_mem_replicate full]
      exact positive
    · by_cases even : log_cnt % share = 0
      · simp [even] at last
      · simp only [even, if_false, List.mem_singleton] at last
        omega

/-! ### The threads -/

section Threads

variable {ι : Type}

/-- The state in which `main` has started all of its threads. -/
def initial (counts : ι → Nat) (log_cnt : Nat) : LogThread ι where
  logs := []
  workers := counts
  left := log_cnt
  logger := .awake
  file := []

variable [DecidableEq ι]

/-- A round of `worker_routine`: the logger is the only one to notify. -/
def worker_round (state : LogThread ι) (worker : ι) (rest : Nat) : LogThread ι :=
  { state with
    logs := state.logs ++ [line]
    workers := Function.update state.workers worker rest
    logger := .awake }

omit [DecidableEq ι] in
/-- What the logger does with the lock: it goes to sleep, or writes the first line. -/
def log_round (state : LogThread ι) (rest : Nat) : LogThread ι :=
  match state.logs with
  | [] => { state with logger := .blocked }
  | content :: later =>
      { state with logs := later, left := rest, file := state.file ++ [content] }

def step (state : LogThread ι) : Section ι → Option (LogThread ι)
  | .push worker =>
      match state.workers worker with
      | 0 => none
      | rest + 1 => some (state.worker_round worker rest)
  | .log =>
      match state.logger, state.left with
      | .awake, rest + 1 => some (state.log_round rest)
      | _, _ => none
  | .wake =>
      match state.logger with
      | .blocked => some { state with logger := .awake }
      | .awake => none

/-- Every step, with what it asks of the state. -/
inductive Steps (state : LogThread ι) : Section ι → LogThread ι → Prop where
  | pushes (worker : ι) (rest : Nat) (rounds : state.workers worker = rest + 1) :
      Steps state (.push worker) (state.worker_round worker rest)
  | sleeps (empty : state.logs = []) (awake : state.logger = .awake) :
      Steps state .log { state with logger := .blocked }
  | writes (rest : Nat) (content : String) (later : List String)
      (first : state.logs = content :: later) (rounds : state.left = rest + 1)
      (awake : state.logger = .awake) :
      Steps state .log
        { state with logs := later, left := rest, file := state.file ++ [content] }
  | wakes (blocked : state.logger = .blocked) :
      Steps state .wake { state with logger := .awake }

variable {state after : LogThread ι} {label : Section ι}

theorem steps_of_step (taken : step state label = some after) : Steps state label after := by
  cases label with
  | push worker =>
      simp only [step] at taken
      split at taken
      next => cases taken
      next rest rounds =>
        cases taken
        exact .pushes worker rest rounds
  | log =>
      simp only [step] at taken
      split at taken
      next rest awake rounds =>
        cases taken
        unfold log_round
        split
        next empty => exact .sleeps empty awake
        next content later first => exact .writes rest content later first rounds awake
      next => cases taken
  | wake =>
      simp only [step] at taken
      split at taken
      next blocked =>
        cases taken
        exact .wakes blocked
      next => cases taken

/-! ### What every step keeps -/

variable [Fintype ι]

/-- The rounds that all workers have left. -/
def ahead (state : LogThread ι) : Nat := ∑ worker, state.workers worker

structure Invariant (log_cnt : Nat) (state : LogThread ι) : Prop where
  balanced : state.ahead + state.logs.length = state.left
  counted : state.file.length + state.left = log_cnt
  sleepsAtNothing : state.logger = .blocked → state.logs = []
  lines : ∀ content ∈ state.file ++ state.logs, content = line

/-- A worker that is one round further takes it out of the sum. -/
theorem worker_round_ahead {worker : ι} {rest : Nat} (rounds : state.workers worker = rest + 1) :
    (state.worker_round worker rest).ahead + 1 = state.ahead := by
  have moved := total_update id state.workers worker rest
  simp only [id, rounds] at moved
  change total id (Function.update state.workers worker rest) + 1 = total id state.workers
  omega

theorem Invariant.step {log_cnt : Nat} (invariant : Invariant log_cnt state)
    (taken : LogThread.step state label = some after) : Invariant log_cnt after := by
  cases steps_of_step taken with
  | pushes worker rest rounds =>
      refine ⟨?_, invariant.counted, nofun, ?_⟩
      · have balanced := invariant.balanced
        have one := worker_round_ahead rounds
        change (state.worker_round worker rest).ahead + (state.logs ++ [line]).length = state.left
        rw [List.length_append, List.length_singleton]
        omega
      · intro content member
        change content ∈ state.file ++ (state.logs ++ [line]) at member
        rw [← List.append_assoc, List.mem_append, List.mem_singleton] at member
        exact member.elim (invariant.lines content) id
  | sleeps empty awake =>
      exact ⟨invariant.balanced, invariant.counted, fun _ => empty, invariant.lines⟩
  | writes rest content later first rounds awake =>
      have balanced := invariant.balanced
      have counted := invariant.counted
      rw [first, List.length_cons, rounds] at balanced
      refine ⟨Nat.succ.inj balanced, ?_, ?_, ?_⟩
      · rw [List.length_append, List.length_singleton]
        change state.file.length + 1 + rest = log_cnt
        omega
      · intro blocked
        rw [awake] at blocked
        cases blocked
      · intro other member
        apply invariant.lines other
        rw [first, List.append_cons]
        exact member
  | wakes blocked =>
      exact ⟨invariant.balanced, invariant.counted, nofun, invariant.lines⟩

omit [DecidableEq ι] in
theorem initial_invariant {counts : ι → Nat} {log_cnt : Nat}
    (total : ∑ worker, counts worker = log_cnt) : Invariant log_cnt (initial counts log_cnt) where
  balanced := total
  counted := Nat.zero_add log_cnt
  sleepsAtNothing := nofun
  lines := nofun

/-! ### How long a run is -/

/-- The logger goes to sleep once more where it is awake. -/
def credit : Logger → Nat
  | .awake => 1
  | .blocked => 0

/-- The sections ahead: those of the workers count twice, for the logger that they wake. -/
def measure (state : LogThread ι) : Nat :=
  2 * state.ahead + state.left + credit state.logger

/-- A spurious wake-up costs a section to go back to sleep. -/
def gain (label : Section ι) : Nat := if label.isSpurious then 2 else 0

theorem measure_step (taken : LogThread.step state label = some after) :
    after.measure + 1 ≤ state.measure + gain label := by
  cases steps_of_step taken with
  | pushes worker rest rounds =>
      have one := worker_round_ahead rounds
      change 2 * (state.worker_round worker rest).ahead + state.left + 1 + 1 ≤
        2 * state.ahead + state.left + credit state.logger + 0
      omega
  | sleeps empty awake =>
      simp [measure, ahead, awake, credit, gain, Section.isSpurious]
  | writes rest content later first rounds awake =>
      simp only [measure, awake, rounds, credit, gain]
      change 2 * state.ahead + rest + 1 + 1 ≤ 2 * state.ahead + (rest + 1) + 1 + 0
      omega
  | wakes blocked =>
      simp [measure, ahead, blocked, credit, gain, Section.isSpurious]

omit [DecidableEq ι] [Fintype ι] in
theorem gain_sum (labels : List (Section ι)) :
    (labels.map gain).sum = 2 * labels.countP Section.isSpurious := by
  induction labels with
  | nil => rfl
  | cons label rest inductionHypothesis =>
      rw [List.map_cons, List.sum_cons, List.countP_cons, inductionHypothesis, gain]
      split <;> omega

/-- Where only spurious wake-ups are left, everything has been done. -/
theorem Invariant.finished {log_cnt : Nat} (invariant : Invariant log_cnt state)
    (stuck : ∀ label, label.isSpurious = false → LogThread.step state label = none) :
    state.file = List.replicate log_cnt line ∧ state.logs = [] ∧
      ∀ worker, state.workers worker = 0 := by
  have idle (worker : ι) : state.workers worker = 0 := by
    have never := stuck (.push worker) rfl
    simp only [LogThread.step] at never
    split at never
    next done => exact done
    next => cases never
  have pushed : state.ahead = 0 := by simp [ahead, idle]
  have done : state.left = 0 := by
    have never := stuck .log rfl
    have balanced := invariant.balanced
    simp only [LogThread.step] at never
    split at never
    next => cases never
    next notRunning =>
      cases standing : state.logger with
      | blocked =>
          rw [invariant.sleepsAtNothing standing, pushed] at balanced
          exact balanced.symm
      | awake =>
          by_contra more
          obtain ⟨rest, rounds⟩ := Nat.exists_eq_succ_of_ne_zero more
          exact notRunning rest standing rounds
  have empty : state.logs = [] := by
    have balanced := invariant.balanced
    apply List.eq_nil_of_length_eq_zero
    omega
  have counted := invariant.counted
  refine ⟨List.eq_replicate_iff.mpr ⟨by omega, ?_⟩, empty, idle⟩
  intro content member
  exact invariant.lines content (List.mem_append_left _ member)

end Threads

/-! ### The program -/

/-- The threads of `main`: no run goes on for ever, save for spurious wake-ups, and one that
cannot go on has written every line. -/
structure Finishes (log_cnt : Nat) (counts : List Nat) : Prop where
  bounded : ∀ labels state, follow step (initial counts.get log_cnt) labels = some state →
    labels.length ≤ 3 * log_cnt + 1 + 2 * labels.countP Section.isSpurious
  complete : ∀ state, Reachable step (initial counts.get log_cnt) state →
    (∀ label, label.isSpurious = false → step state label = none) →
      state.file = List.replicate log_cnt line ∧ state.logs = [] ∧
        ∀ worker, state.workers worker = 0

/-- `main` starts at most a worker for each processor, none without a line, and the lines that
they log are as many as the logger waits for. -/
theorem main_finishes {log_cnt thread_num : Nat} (lines : 0 < log_cnt)
    (threads : 0 < thread_num) (fits : log_cnt + thread_num < 2 ^ 31) :
    ∃ counts, shares log_cnt thread_num = some counts ∧ counts.length ≤ thread_num ∧
      (∀ count ∈ counts, 0 < count) ∧ Finishes log_cnt counts := by
  obtain ⟨counts, shared, sum, few, nonempty⟩ := shares_sum lines threads fits
  have total : ∑ worker, counts.get worker = log_cnt := by
    rw [← sum, ← List.sum_ofFn, List.ofFn_get]
  refine ⟨counts, shared, few, nonempty, ?_, ?_⟩
  · intro labels state followed
    have spent := length_le_of_spends (fun _ _ _ => measure_step) followed
    rw [gain_sum] at spent
    have start : (initial counts.get log_cnt).measure = 3 * log_cnt + 1 := by
      change 2 * (∑ worker, counts.get worker) + log_cnt + 1 = _
      rw [total]
      omega
    omega
  · intro state reachable stuck
    apply Invariant.finished _ stuck
    apply reachable.invariant (initial_invariant total)
    intro state label after invariant taken
    exact invariant.step taken

/-- Ten lines on four processors. -/
theorem main_finishes_ten : ∃ counts, shares 10 4 = some counts ∧ counts.length ≤ 4 ∧
    (∀ count ∈ counts, 0 < count) ∧ Finishes 10 counts :=
  main_finishes (by decide) (by decide) (by decide)

end LogThread

end StdPrograms.Misc

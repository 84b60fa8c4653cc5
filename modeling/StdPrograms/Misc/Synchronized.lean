import Mathlib.Algebra.BigOperators.Ring.Finset
import Mathlib.Data.BitVec
import Mathlib.Data.Fintype.Basic
import StdPrograms.Foundation.Threads
import StdPrograms.Foundation.Transitions

/-!
Contract: the two counters of `Synchronized.java` as a labelled transition system.

One label is one access of a thread to the object: it takes a lock, reads the field, writes it or
gives the lock back. Owns the threads inside `run`, the step function, that a thread that is
between its read and its write has read what is still there, and what is printed at the end.

The loops of `main` and of `Test.run` are the same; `main` prints when all threads are done. Does
not own the start of a thread.
-/

namespace StdPrograms.Misc

open StdPrograms.Foundation

/-- The two fields; each has a lock, and a method that counts it. -/
inductive Field where
  | x
  | y
deriving DecidableEq, Repr

/-- Where a thread stands in `incx` or `incy`. -/
inductive Stage where
  | outside
  | entered
  | loaded (value : BitVec 32)
  | stored
deriving DecidableEq, Repr

/-- A thread in a round of its loop, with the rounds behind it, or behind the loop. -/
inductive Loop where
  | done
  | calls (call : Field) (stage : Stage) (rest : Nat)
deriving DecidableEq, Repr

/-! ### What a thread holds and has to do -/

def Stage.locked : Stage → Bool
  | .outside => false
  | _ => true

/-- The thread holds the lock of the field. -/
def Loop.holds : Loop → Field → Bool
  | .done, _ => false
  | .calls call stage _, field => call = field && stage.locked

/-- One as long as the call has not written. -/
def Stage.pending : Stage → Nat
  | .stored => 0
  | _ => 1

/-- How often the thread has still to write to the field. -/
def Loop.pending (field : Field) : Loop → Nat
  | .done => 0
  | .calls call stage rest =>
      rest +
        match call, field with
        | .x, .x => stage.pending
        | .x, .y => 1
        | .y, .x => 0
        | .y, .y => stage.pending

def Stage.ahead : Stage → Nat
  | .outside => 4
  | .entered => 3
  | .loaded _ => 2
  | .stored => 1

/-- The accesses that a thread has ahead. -/
def Loop.ahead : Loop → Nat
  | .done => 0
  | .calls .x stage rest => 8 * rest + 4 + stage.ahead
  | .calls .y stage rest => 8 * rest + stage.ahead

/-! ### The object -/

/-- What may happen next. -/
inductive Progress (ι : Type) where
  | proceed (thread : ι)
  | print
deriving DecidableEq, Repr

structure Synchronized (ι : Type) where
  fields : Field → BitVec 32
  /-- Who holds `lockx` and `locky`. -/
  locks : Field → Option ι
  threads : ι → Loop
  printed : Option String

namespace Synchronized

/-- The test of the loop. -/
def loop : Nat → Loop
  | 0 => .done
  | rest + 1 => .calls .x .outside rest

def toString (fields : Field → BitVec 32) : String :=
  s!"x: {(fields .x).toInt}, y: {(fields .y).toInt}"

def initial {ι : Type} (rounds : ι → Nat) : Synchronized ι where
  fields := fun _ => 0
  locks := fun _ => none
  threads := fun thread => loop (rounds thread)
  printed := none

section Code

variable {ι : Type} [DecidableEq ι]

def place (state : Synchronized ι) (thread : ι) (at' : Loop) : Synchronized ι :=
  { state with threads := Function.update state.threads thread at' }

omit [DecidableEq ι] in
/-- The lock of a field changes hands. -/
def lock (state : Synchronized ι) (field : Field) (owner : Option ι) : Synchronized ι :=
  { state with locks := Function.update state.locks field owner }

omit [DecidableEq ι] in
def store (state : Synchronized ι) (field : Field) (value : BitVec 32) : Synchronized ι :=
  { state with fields := Function.update state.fields field value }

/-- What a thread goes on with behind a call. -/
def behind (call : Field) (rest : Nat) : Loop :=
  match call with
  | .x => .calls .y .outside rest
  | .y => loop rest

/-- One access of a thread. There is none where another one holds the lock. -/
def proceed (state : Synchronized ι) (thread : ι) : Option (Synchronized ι) :=
  match state.threads thread with
  | .done => none
  | .calls call .outside rest =>
      match state.locks call with
      | some _ => none
      | none => some ((state.lock call (some thread)).place thread (.calls call .entered rest))
  | .calls call .entered rest =>
      some (state.place thread (.calls call (.loaded (state.fields call)) rest))
  | .calls call (.loaded value) rest =>
      some ((state.store call (value + 1)).place thread (.calls call .stored rest))
  | .calls call .stored rest => some ((state.lock call none).place thread (behind call rest))

def step [Fintype ι] (state : Synchronized ι) : Progress ι → Option (Synchronized ι)
  | .proceed thread => state.proceed thread
  | .print =>
      if state.printed = none ∧ ∀ thread, state.threads thread = .done then
        some { state with printed := some (toString state.fields) }
      else none

end Code

/-! ### The steps -/

section Steps

variable {ι : Type} [DecidableEq ι]

/-- Every step, with what it asks of the state. -/
inductive Steps (state : Synchronized ι) : Progress ι → Synchronized ι → Prop where
  | enters (thread : ι) (call : Field) (rest : Nat)
      (here : state.threads thread = .calls call .outside rest)
      (free : state.locks call = none) :
      Steps state (.proceed thread)
        ((state.lock call (some thread)).place thread (.calls call .entered rest))
  | loads (thread : ι) (call : Field) (rest : Nat)
      (here : state.threads thread = .calls call .entered rest) :
      Steps state (.proceed thread)
        (state.place thread (.calls call (.loaded (state.fields call)) rest))
  | stores (thread : ι) (call : Field) (value : BitVec 32) (rest : Nat)
      (here : state.threads thread = .calls call (.loaded value) rest) :
      Steps state (.proceed thread)
        ((state.store call (value + 1)).place thread (.calls call .stored rest))
  | leaves (thread : ι) (call : Field) (rest : Nat)
      (here : state.threads thread = .calls call .stored rest) :
      Steps state (.proceed thread) ((state.lock call none).place thread (behind call rest))
  | prints (silent : state.printed = none) (done : ∀ thread, state.threads thread = .done) :
      Steps state .print { state with printed := some (toString state.fields) }

variable [Fintype ι] {state after : Synchronized ι} {label : Progress ι}

theorem steps_of_step (taken : step state label = some after) : Steps state label after := by
  cases label with
  | proceed thread =>
      simp only [step, proceed] at taken
      split at taken
      next => cases taken
      next call rest here =>
        split at taken
        next => cases taken
        next free =>
          cases taken
          exact .enters thread call rest here free
      next call rest here =>
        cases taken
        exact .loads thread call rest here
      next call value rest here =>
        cases taken
        exact .stores thread call value rest here
      next call rest here =>
        cases taken
        exact .leaves thread call rest here
  | print =>
      simp only [step] at taken
      split at taken
      next allowed =>
        cases taken
        exact .prints allowed.1 allowed.2
      next => cases taken

/-! ### What every step keeps -/

structure Invariant (rounds : ι → Nat) (state : Synchronized ι) : Prop where
  owned : ∀ thread field, state.locks field = some thread ↔ (state.threads thread).holds field
  fresh : ∀ thread call value rest,
    state.threads thread = .calls call (.loaded value) rest → value = state.fields call
  balanced : ∀ field, state.fields field +
      BitVec.ofNat 32 (total (Loop.pending field) state.threads) =
    BitVec.ofNat 32 (∑ thread, rounds thread)
  shown : ∀ output, state.printed = some output →
    output = toString fun _ => BitVec.ofNat 32 (∑ thread, rounds thread)

variable {rounds : ι → Nat}

omit [DecidableEq ι] [Fintype ι] in
theorem pending_loop (count : Nat) (field : Field) : (loop count).pending field = count := by
  cases count <;> cases field <;> rfl

omit [DecidableEq ι] [Fintype ι] in
theorem holds_loop (count : Nat) (field : Field) : (loop count).holds field = false := by
  cases count <;> simp [loop, Loop.holds, Stage.locked]

omit [DecidableEq ι] [Fintype ι] in
theorem holds_behind (call : Field) (rest : Nat) (field : Field) :
    (behind call rest).holds field = false := by
  cases call
  · simp [behind, Loop.holds, Stage.locked]
  · exact holds_loop rest field

omit [DecidableEq ι] [Fintype ι] in
theorem pending_behind (call : Field) (rest : Nat) (field : Field) :
    (behind call rest).pending field = (Loop.calls call .stored rest).pending field := by
  cases call
  · cases field <;> rfl
  · rw [behind, pending_loop]
    cases field <;> rfl

omit [DecidableEq ι] in
theorem initial_invariant : Invariant rounds (initial rounds) where
  owned := by simp [initial, holds_loop]
  fresh := by
    intro thread call value rest here
    cases count : rounds thread <;> simp [initial, loop, count] at here
  balanced := by
    intro field
    have whole : total (Loop.pending field) (initial rounds).threads = ∑ thread, rounds thread :=
      Finset.sum_congr rfl fun thread _ => pending_loop (rounds thread) field
    rw [whole]
    exact BitVec.zero_add _
  shown := by simp [initial]

omit [DecidableEq ι] in
/-- Nobody else holds the lock of a thread's own field. -/
theorem Invariant.alone (invariant : Invariant rounds state) {thread other : ι} {field : Field}
    (holds : (state.threads thread).holds field) (holdsToo : (state.threads other).holds field) :
    other = thread := by
  have mine := (invariant.owned thread field).mpr holds
  have theirs := (invariant.owned other field).mpr holdsToo
  rw [mine] at theirs
  exact (Option.some.inj theirs).symm

/-- A thread moves on and has still as much to write. -/
theorem total_place {thread : ι} {at' : Loop} {field : Field}
    (same : at'.pending field = (state.threads thread).pending field) :
    total (Loop.pending field) (state.place thread at').threads =
      total (Loop.pending field) state.threads := by
  have moved := total_update (Loop.pending field) state.threads thread at'
  rw [same] at moved
  exact Nat.add_right_cancel moved

theorem Invariant.enters (invariant : Invariant rounds state) {thread : ι} {call : Field}
    {rest : Nat} (here : state.threads thread = .calls call .outside rest)
    (free : state.locks call = none) :
    Invariant rounds ((state.lock call (some thread)).place thread (.calls call .entered rest)) := by
  have nobody (other : ι) : (state.threads other).holds call = false := by
    rw [← Bool.not_eq_true, ← invariant.owned, free]
    exact nofun
  refine ⟨?_, ?_, ?_, invariant.shown⟩
  · intro other field
    by_cases same : other = thread <;> by_cases own : field = call
    · simp [place, lock, same, own, Loop.holds, Stage.locked]
    · have before := invariant.owned thread field
      simpa [place, lock, same, own, Ne.symm own, here, Loop.holds] using before
    · simp [place, lock, same, own, Ne.symm same, nobody]
    · simpa [place, lock, same, own] using invariant.owned other field
  · intro other called value later there
    by_cases same : other = thread
    · simp [place, same] at there
    · exact invariant.fresh other called value later (by simpa [place, lock, same] using there)
  · intro field
    rw [total_place]
    · exact invariant.balanced field
    · change _ = (state.threads thread).pending field
      rw [here]
      cases call <;> cases field <;> rfl

theorem Invariant.loads (invariant : Invariant rounds state) {thread : ι} {call : Field}
    {rest : Nat} (here : state.threads thread = .calls call .entered rest) :
    Invariant rounds (state.place thread (.calls call (.loaded (state.fields call)) rest)) := by
  refine ⟨?_, ?_, ?_, invariant.shown⟩
  · intro other field
    by_cases same : other = thread
    · have before := invariant.owned thread field
      simpa [place, same, here, Loop.holds, Stage.locked] using before
    · simpa [place, same] using invariant.owned other field
  · intro other called value later there
    by_cases same : other = thread
    · simp [place, same] at there
      obtain ⟨rfl, rfl, -⟩ := there
      rfl
    · exact invariant.fresh other called value later (by simpa [place, same] using there)
  · intro field
    rw [total_place]
    · exact invariant.balanced field
    · rw [here]
      cases call <;> cases field <;> rfl

theorem Invariant.stores (invariant : Invariant rounds state) {thread : ι} {call : Field}
    {value : BitVec 32} {rest : Nat}
    (here : state.threads thread = .calls call (.loaded value) rest) :
    Invariant rounds ((state.store call (value + 1)).place thread (.calls call .stored rest)) := by
  have holds : (state.threads thread).holds call := by simp [here, Loop.holds, Stage.locked]
  have read := invariant.fresh thread call value rest here
  refine ⟨?_, ?_, ?_, invariant.shown⟩
  · intro other field
    by_cases same : other = thread
    · have before := invariant.owned thread field
      simpa [place, store, same, here, Loop.holds, Stage.locked] using before
    · simpa [place, store, same] using invariant.owned other field
  · intro other called loaded later there
    by_cases same : other = thread
    · simp [place, same] at there
    · replace there : state.threads other = .calls called (.loaded loaded) later := by
        simpa [place, store, same] using there
      have apart : called ≠ call := by
        rintro rfl
        exact same (invariant.alone holds (by simp [there, Loop.holds, Stage.locked]))
      simpa [place, store, apart] using invariant.fresh other called loaded later there
  · intro field
    by_cases own : field = call
    · subst own
      have moved := total_update (Loop.pending field) state.threads thread (.calls field .stored rest)
      have one : (state.threads thread).pending field =
          (Loop.calls field .stored rest).pending field + 1 := by
        rw [here]
        cases field <;> rfl
      have less : total (Loop.pending field) state.threads =
          1 + total (Loop.pending field)
            (Function.update state.threads thread (.calls field .stored rest)) := by omega
      have balanced := invariant.balanced field
      rw [less, BitVec.ofNat_add, ← BitVec.add_assoc, ← read] at balanced
      simpa [place, store] using balanced
    · rw [total_place]
      · simpa [place, store, own] using invariant.balanced field
      · change _ = (state.threads thread).pending field
        rw [here]
        cases call <;> cases field <;> first | rfl | exact absurd rfl own

theorem Invariant.leaves (invariant : Invariant rounds state) {thread : ι} {call : Field}
    {rest : Nat} (here : state.threads thread = .calls call .stored rest) :
    Invariant rounds ((state.lock call none).place thread (behind call rest)) := by
  have holds : (state.threads thread).holds call := by simp [here, Loop.holds, Stage.locked]
  refine ⟨?_, ?_, ?_, invariant.shown⟩
  · intro other field
    by_cases same : other = thread <;> by_cases own : field = call
    · simp [place, lock, same, own, holds_behind]
    · have released : state.locks field ≠ some thread := by
        rw [ne_eq, invariant.owned, here]
        simp [Loop.holds, Ne.symm own]
      simpa [place, lock, same, own, holds_behind] using released
    · have without : ¬ (state.threads other).holds call :=
        fun holdsToo => same (invariant.alone holds holdsToo)
      simpa [place, lock, same, own] using without
    · simpa [place, lock, same, own] using invariant.owned other field
  · intro other called value later there
    by_cases same : other = thread
    · simp only [place, same, Function.update_self] at there
      have holdsNothing := holds_behind call rest called
      simp [there, Loop.holds, Stage.locked] at holdsNothing
    · exact invariant.fresh other called value later (by simpa [place, lock, same] using there)
  · intro field
    rw [total_place]
    · exact invariant.balanced field
    · rw [pending_behind]
      change _ = (state.threads thread).pending field
      rw [here]

omit [DecidableEq ι] in
/-- Behind all loops the fields have been counted up once for each round. -/
theorem Invariant.fields_eq (invariant : Invariant rounds state)
    (done : ∀ thread, state.threads thread = .done) :
    state.fields = fun _ => BitVec.ofNat 32 (∑ thread, rounds thread) := by
  funext field
  have nothing : total (Loop.pending field) state.threads = 0 := by
    simp [total, done, Loop.pending]
  have balanced := invariant.balanced field
  rw [nothing] at balanced
  exact (BitVec.add_zero _).symm.trans balanced

theorem Invariant.step (invariant : Invariant rounds state)
    (taken : Synchronized.step state label = some after) : Invariant rounds after := by
  cases steps_of_step taken with
  | enters thread call rest here free => exact invariant.enters here free
  | loads thread call rest here => exact invariant.loads here
  | stores thread call value rest here => exact invariant.stores here
  | leaves thread call rest here => exact invariant.leaves here
  | prints silent done =>
      refine ⟨invariant.owned, invariant.fresh, invariant.balanced, ?_⟩
      intro output isOutput
      rw [← Option.some.inj isOutput, invariant.fields_eq done]

/-! ### How long a run is -/

/-- All accesses ahead, and the output. -/
def measure (state : Synchronized ι) : Nat :=
  total Loop.ahead state.threads + if state.printed = none then 1 else 0

omit [DecidableEq ι] [Fintype ι] in
theorem ahead_loop (count : Nat) : (loop count).ahead = 8 * count := by
  cases count <;> simp [loop, Loop.ahead, Stage.ahead]
  omega

omit [DecidableEq ι] [Fintype ι] in
theorem ahead_behind (call : Field) (rest : Nat) :
    (behind call rest).ahead + 1 = (Loop.calls call .stored rest).ahead := by
  cases call
  · rfl
  · rw [behind, ahead_loop]
    rfl

/-- A thread moves on by one access. -/
theorem measure_place {thread : ι} {at' : Loop}
    (next : at'.ahead + 1 = (state.threads thread).ahead) :
    (state.place thread at').measure + 1 = state.measure := by
  have moved := total_update Loop.ahead state.threads thread at'
  change total Loop.ahead (Function.update state.threads thread at') +
      (if state.printed = none then 1 else 0) + 1 =
    total Loop.ahead state.threads + if state.printed = none then 1 else 0
  omega

theorem measure_step (taken : Synchronized.step state label = some after) :
    after.measure + 1 = state.measure := by
  cases steps_of_step taken with
  | enters thread call rest here free =>
      apply @measure_place _ _ _ (state.lock call (some thread))
      rw [lock, here]
      cases call <;> rfl
  | loads thread call rest here =>
      apply measure_place
      rw [here]
      cases call <;> rfl
  | stores thread call value rest here =>
      apply @measure_place _ _ _ (state.store call (value + 1))
      rw [store, here]
      cases call <;> rfl
  | leaves thread call rest here =>
      apply @measure_place _ _ _ (state.lock call none)
      rw [lock, here]
      exact ahead_behind call rest
  | prints silent done => simp [measure, silent]

/-! ### Where a run ends -/

omit [Fintype ι] in
/-- A thread that holds a lock can go on. -/
theorem proceed_of_holds {thread : ι} {field : Field}
    (holds : (state.threads thread).holds field) : state.proceed thread ≠ none := by
  unfold proceed
  split
  next done => simp [done, Loop.holds] at holds
  next call rest here => simp [here, Loop.holds, Stage.locked] at holds
  all_goals exact Option.some_ne_none _

/-- A run that cannot go on has printed: no thread waits for a lock for ever. -/
theorem Invariant.finished (invariant : Invariant rounds state)
    (stuck : ∀ label, Synchronized.step state label = none) :
    state.printed = some (toString fun _ => BitVec.ofNat 32 (∑ thread, rounds thread)) := by
  have done (thread : ι) : state.threads thread = .done := by
    have never : state.proceed thread = none := stuck (.proceed thread)
    unfold proceed at never
    split at never
    next done => exact done
    next call rest here =>
      cases held : state.locks call with
      | none => simp [held] at never
      | some owner =>
          exact absurd (stuck (.proceed owner))
            (proceed_of_holds ((invariant.owned owner call).mp held))
    all_goals cases never
  cases printed : state.printed with
  | none =>
      have never := stuck .print
      simp [Synchronized.step, printed, done] at never
  | some output => rw [invariant.shown output printed]

/-- Every run comes to an end, and at its end it has printed what the loops count to. -/
structure Prints (rounds : ι → Nat) (output : String) : Prop where
  bounded : ∀ labels state, follow Synchronized.step (initial rounds) labels = some state →
    labels.length ≤ 8 * (∑ thread, rounds thread) + 1
  complete : ∀ state, Reachable Synchronized.step (initial rounds) state →
    (∀ label, Synchronized.step state label = none) → state.printed = some output

/-- No increment is lost, in any interleaving of any number of threads. -/
theorem prints_total (rounds : ι → Nat) :
    Prints rounds (toString fun _ => BitVec.ofNat 32 (∑ thread, rounds thread)) := by
  constructor
  · intro labels state followed
    have spent := @length_le_of_spends _ _ Synchronized.step measure (fun _ => 0)
      (fun _ _ _ taken => le_of_eq (measure_step taken)) _ _ _ followed
    have start : (initial rounds).measure = 8 * (∑ thread, rounds thread) + 1 := by
      rw [measure, total, Finset.mul_sum]
      exact congrArg (· + 1) (Finset.sum_congr rfl fun thread _ => ahead_loop (rounds thread))
    have nothing : (labels.map fun _ => 0).sum = 0 := by simp
    omega
  · intro state reachable stuck
    apply Invariant.finished _ stuck
    apply reachable.invariant initial_invariant
    intro state label after invariant taken
    exact invariant.step taken

end Steps

/-- The two threads of the program. -/
theorem main_prints : Prints (fun _ : Fin 2 => 10000) "x: 20000, y: 20000" := by
  have isText : "x: 20000, y: 20000" =
      toString fun _ => BitVec.ofNat 32 (∑ _ : Fin 2, 10000) := by
    rw [Finset.sum_const, Finset.card_univ, Fintype.card_fin]
    rfl
  rw [isText]
  exact prints_total _

end Synchronized

end StdPrograms.Misc

import Mathlib.Algebra.BigOperators.Group.List.Basic
import Mathlib.Data.List.Range
import StdPrograms.Foundation.LittleEndian
import StdPrograms.Foundation.Transitions

/-!
Contract: the copy of `multi_thread_copy.cpp` as a labelled transition system.

One label is one round of the loop that starts the threads, or one section under
`file_lock`. Owns the two streams, `do_copy`, the shares of the threads, and the condition
on the order of the sections under which the target becomes the source: each thread reads
at its own position, but all of them write at the end of the target.

The history `order` is not in the code. The target is what the output stream was given.
-/

namespace StdPrograms.Misc

open StdPrograms.Foundation

/-! ### The streams -/

/-- `in_stream`: `none` is a stream whose `failbit` is set. -/
structure InStream where
  content : Bytes
  position : Option Nat
deriving DecidableEq

namespace InStream

def seekg (self : InStream) (pos : Nat) : InStream :=
  { self with position := self.position.map fun _ => pos }

/-- `read` into a new buffer of this size, which keeps what the memory held where the file
ends before. -/
def read (memory : Nat → UInt8) (self : InStream) (size : Nat) : Bytes × InStream :=
  let got := match self.position with
    | some position => (self.content.drop position).take size
    | none => []
  let kept := (List.range (size - got.length)).map fun index => memory (got.length + index)
  (got ++ kept,
    { self with
      position := self.position.bind fun position =>
        if got.length < size then none else some (position + size) })

end InStream

/-- `in_stream` and what `out_stream` was given. -/
structure FileCopy where
  in_stream : InStream
  out_stream : Bytes
deriving DecidableEq

namespace FileCopy

def do_copy (memory : Nat → UInt8) (self : FileCopy) (pos size : Nat) : FileCopy :=
  let in_stream := self.in_stream.seekg pos
  let (buffer, in_stream) := in_stream.read memory size
  { in_stream := in_stream, out_stream := self.out_stream ++ buffer }

/-- The bytes of the source that a share covers. -/
def span (content : Bytes) (pos size : Nat) : Bytes := (content.drop pos).take size

/-- A share inside the source is appended to the target. -/
theorem do_copy_inside (memory : Nat → UInt8) {content out : Bytes} {position : Nat}
    {pos size : Nat} (inside : size = 0 ∨ pos + size ≤ content.length) :
    do_copy memory ⟨⟨content, some position⟩, out⟩ pos size =
      ⟨⟨content, some (pos + size)⟩, out ++ span content pos size⟩ := by
  have whole : (span content pos size).length = size := by
    rw [span, List.length_take, List.length_drop]
    omega
  have got : (content.drop pos).take size = span content pos size := rfl
  simp only [do_copy, InStream.seekg, InStream.read, Option.map_some, Option.bind_some, got,
    whole, Nat.sub_self, List.range_zero, List.map_nil, List.append_nil, Nat.lt_irrefl,
    if_false]

end FileCopy

/-! ### The threads -/

/-- The arguments that a thread was started with. -/
structure Share where
  i : Nat
  pos : Nat
  size : Nat
deriving DecidableEq

/-- `start()` with its threads: the loop variable and the locals, the threads that have not
had the lock, and the order in which the others had it. -/
structure Start where
  copy : FileCopy
  i : Nat
  chunk_size : Nat
  remain_size : Nat
  waiting : List Share
  order : List Nat
deriving DecidableEq

/-- The loop of `start()` goes on, or a thread takes the lock. -/
inductive Turn where
  | spawn
  | lock (i : Nat)
deriving DecidableEq

namespace Start

/-- `(remain_size + cpu_count - 1) / cpu_count`. -/
def chunkSize (size cpu_count : Nat) : Nat := (size + cpu_count - 1) / cpu_count

/-- In front of the loop: `in_stream` stands at its end. -/
def initial (content : Bytes) (cpu_count : Nat) : Start where
  copy := ⟨⟨content, some content.length⟩, []⟩
  i := 0
  chunk_size := chunkSize content.length cpu_count
  remain_size := content.length
  waiting := []
  order := []

def step (memory : Nat → UInt8) (cpu_count : Nat) (state : Start) : Turn → Option Start
  | .spawn =>
      if state.i < cpu_count then
        let thread_size :=
          if state.chunk_size < state.remain_size then state.chunk_size else state.remain_size
        some { state with
          i := state.i + 1
          remain_size := state.remain_size - thread_size
          waiting := state.waiting ++ [⟨state.i, state.i * state.chunk_size, thread_size⟩] }
      else none
  | .lock i =>
      match state.waiting.find? fun share => share.i == i with
      | some share =>
          some { state with
            copy := state.copy.do_copy memory share.pos share.size
            waiting := state.waiting.erase share
            order := state.order ++ [i] }
      | none => none

/-- All threads were started and joined. -/
structure Joined (cpu_count : Nat) (state : Start) : Prop where
  started : state.i = cpu_count
  ended : state.waiting = []

/-! ### The shares -/

section Shares

variable {size cpu_count : Nat}

/-- What is left for the threads from `i` on. -/
def rest (size cpu_count i : Nat) : Nat := size - i * chunkSize size cpu_count

def shareSize (size cpu_count i : Nat) : Nat :=
  min (chunkSize size cpu_count) (rest size cpu_count i)

/-- The share of a thread, by its number. -/
def share (size cpu_count i : Nat) : Share where
  i := i
  pos := i * chunkSize size cpu_count
  size := shareSize size cpu_count i

theorem shareSize_eq (i : Nat) :
    (if chunkSize size cpu_count < rest size cpu_count i then chunkSize size cpu_count
      else rest size cpu_count i) = shareSize size cpu_count i := by
  rw [shareSize]
  split <;> omega

theorem rest_succ (i : Nat) :
    rest size cpu_count i - shareSize size cpu_count i = rest size cpu_count (i + 1) := by
  rw [shareSize, rest, rest, Nat.succ_mul]
  omega

theorem share_inside (i : Nat) :
    (share size cpu_count i).size = 0 ∨
      (share size cpu_count i).pos + (share size cpu_count i).size ≤ size := by
  simp only [share, shareSize, rest]
  omega

/-- Nothing is left behind the last thread. -/
theorem rest_last (positive : 0 < cpu_count) : rest size cpu_count cpu_count = 0 := by
  have enough : size ≤ cpu_count * chunkSize size cpu_count := by
    have divided := Nat.lt_mul_div_succ (size + cpu_count - 1) positive
    rw [Nat.mul_succ] at divided
    rw [chunkSize]
    omega
  rw [rest]
  omega

/-- The first shares cover what is not left for the others. -/
theorem sum_shareSize (count : Nat) :
    ((List.range count).map (shareSize size cpu_count)).sum + rest size cpu_count count =
      size := by
  induction count with
  | zero => simp [rest]
  | succ count inductionHypothesis =>
      have smaller : shareSize size cpu_count count ≤ rest size cpu_count count :=
        Nat.min_le_right _ _
      rw [List.range_succ, List.map_append, List.sum_append, List.map_singleton,
        List.sum_singleton, ← rest_succ]
      omega

end Shares

/-! ### Runs -/

section Runs

variable {memory : Nat → UInt8} {content : Bytes} {cpu_count : Nat} {state after : Start}

def shareBytes (content : Bytes) (cpu_count i : Nat) : Bytes :=
  FileCopy.span content (i * chunkSize content.length cpu_count)
    (shareSize content.length cpu_count i)

/-- What the loop and the sections keep: the shares are those of the source, each thread
has one, and the target holds the shares in the order of the sections. -/
structure Invariant (content : Bytes) (cpu_count : Nat) (state : Start) : Prop where
  source : ∃ position, state.copy.in_stream = ⟨content, some position⟩
  target : state.copy.out_stream = state.order.flatMap (shareBytes content cpu_count)
  chunk : state.chunk_size = chunkSize content.length cpu_count
  left : state.remain_size = rest content.length cpu_count state.i
  shares : ∀ waiting ∈ state.waiting, waiting = share content.length cpu_count waiting.i
  threads : (state.order ++ state.waiting.map Share.i).Perm (List.range state.i)

theorem initial_invariant (content : Bytes) (cpu_count : Nat) :
    Invariant content cpu_count (initial content cpu_count) where
  source := ⟨_, rfl⟩
  target := rfl
  chunk := rfl
  left := by simp [initial, rest]
  shares := by
    intro waiting member
    cases member
  threads := .nil

theorem Invariant.spawn (invariant : Invariant content cpu_count state)
    (taken : step memory cpu_count state .spawn = some after) :
    Invariant content cpu_count after := by
  rw [step] at taken
  split at taken
  next =>
    cases taken
    have size : (if state.chunk_size < state.remain_size then state.chunk_size
        else state.remain_size) = shareSize content.length cpu_count state.i := by
      rw [invariant.chunk, invariant.left, shareSize_eq]
    refine ⟨invariant.source, invariant.target, invariant.chunk, ?_, ?_, ?_⟩
    · dsimp only
      rw [size, invariant.left, rest_succ]
    · intro waiting member
      rcases List.mem_append.mp member with earlier | last
      · exact invariant.shares waiting earlier
      · rw [List.mem_singleton.mp last, size, invariant.chunk]
        rfl
    · dsimp only
      rw [List.map_append, ← List.append_assoc, List.range_succ]
      exact invariant.threads.append_right _
  next => cases taken

theorem Invariant.lock {i : Nat} (invariant : Invariant content cpu_count state)
    (taken : step memory cpu_count state (.lock i) = some after) :
    Invariant content cpu_count after := by
  rw [step] at taken
  split at taken
  next waiting found =>
    cases taken
    have member := List.mem_of_find?_eq_some found
    have named : waiting.i = i := by simpa using List.find?_some found
    have isShare : waiting = share content.length cpu_count i := by
      rw [← named]
      exact invariant.shares waiting member
    obtain ⟨position, source⟩ := invariant.source
    have copied : state.copy.do_copy memory waiting.pos waiting.size =
        ⟨⟨content, some (waiting.pos + waiting.size)⟩,
          state.copy.out_stream ++ shareBytes content cpu_count i⟩ := by
      have standing : state.copy = ⟨⟨content, some position⟩, state.copy.out_stream⟩ := by
        rw [← source]
      rw [standing, isShare]
      exact FileCopy.do_copy_inside memory (share_inside i)
    refine ⟨⟨_, by rw [copied]⟩, ?_, invariant.chunk, invariant.left, ?_, ?_⟩
    · dsimp only
      rw [copied, invariant.target, List.flatMap_append, List.flatMap_singleton]
    · intro other isOther
      exact invariant.shares other (List.mem_of_mem_erase isOther)
    · have moved : (i :: (state.waiting.erase waiting).map Share.i).Perm
          (state.waiting.map Share.i) := by
        rw [← named]
        exact ((List.perm_cons_erase member).map Share.i).symm
      have regrouped := (moved.append_left state.order).trans invariant.threads
      dsimp only
      rw [List.append_assoc]
      exact regrouped
  next => cases taken

theorem Invariant.step {turn : Turn} (invariant : Invariant content cpu_count state)
    (taken : Start.step memory cpu_count state turn = some after) :
    Invariant content cpu_count after := by
  cases turn with
  | spawn => exact invariant.spawn taken
  | lock i => exact invariant.lock taken

/-! ### The target -/

/-- The threads write in this order behind the given number of bytes: each one writes what
the source has at the place where it writes. -/
def InPlace (content : Bytes) (cpu_count : Nat) : Nat → List Nat → Prop
  | _, [] => True
  | written, i :: later =>
      FileCopy.span content written (shareSize content.length cpu_count i) =
        shareBytes content cpu_count i ∧
      InPlace content cpu_count (written + shareSize content.length cpu_count i) later

theorem shareBytes_length (content : Bytes) (cpu_count i : Nat) :
    (shareBytes content cpu_count i).length = shareSize content.length cpu_count i := by
  have inside : (share content.length cpu_count i).size = 0 ∨
      (share content.length cpu_count i).pos + (share content.length cpu_count i).size ≤
        content.length := share_inside i
  simp only [share] at inside
  rw [shareBytes, FileCopy.span, List.length_take, List.length_drop]
  omega

/-- The shares make the rest of the source exactly when each is in its place. -/
theorem shares_eq_iff {order : List Nat} {written : Nat}
    (total : written + (order.map (shareSize content.length cpu_count)).sum = content.length) :
    order.flatMap (shareBytes content cpu_count) = content.drop written ↔
      InPlace content cpu_count written order := by
  induction order generalizing written with
  | nil =>
      rw [List.map_nil, List.sum_nil] at total
      exact iff_of_true (List.drop_of_length_le (by omega)).symm trivial
  | cons i later inductionHypothesis =>
      rw [List.map_cons, List.sum_cons] at total
      have front : (FileCopy.span content written (shareSize content.length cpu_count i)).length =
          (shareBytes content cpu_count i).length := by
        rw [shareBytes_length, FileCopy.span, List.length_take, List.length_drop]
        omega
      have parted : content.drop written =
          FileCopy.span content written (shareSize content.length cpu_count i) ++
            content.drop (written + shareSize content.length cpu_count i) := by
        rw [FileCopy.span, ← List.drop_drop, List.take_append_drop]
      rw [List.flatMap_cons, InPlace, parted,
        ← inductionHypothesis (by omega)]
      constructor
      · intro same
        obtain ⟨first, others⟩ := List.append_inj same front.symm
        exact ⟨first.symm, others⟩
      · intro same
        rw [same.1, same.2]

/-- The order in which the threads are started is a good one. -/
theorem inPlace_startOrder (content : Bytes) (cpu_count count : Nat) :
    InPlace content cpu_count 0 (List.range count) := by
  have later (first count written : Nat)
      (there : written = min content.length (first * chunkSize content.length cpu_count)) :
      InPlace content cpu_count written ((List.range count).map (first + ·)) := by
    induction count generalizing first written with
    | zero => trivial
    | succ count inductionHypothesis =>
        have shifted : (List.range (count + 1)).map (first + ·) =
            first :: (List.range count).map (first + 1 + ·) := by
          rw [List.range_succ_eq_map, List.map_cons, List.map_map, Nat.add_zero]
          congr 1
          apply List.map_congr_left
          intro index _
          simp only [Function.comp_apply]
          omega
        rw [shifted]
        constructor
        · rw [shareBytes, there]
          by_cases inside : first * chunkSize content.length cpu_count ≤ content.length
          · rw [Nat.min_eq_right inside]
          · have none : shareSize content.length cpu_count first = 0 := by
              rw [shareSize, rest]
              omega
            rw [none]
            rfl
        · apply inductionHypothesis
          rw [there, shareSize, rest, Nat.succ_mul]
          omega
  have fromZero := later 0 count 0 (by simp)
  simpa using fromZero

/-- Once all threads have joined, the target is the source exactly when each thread wrote
what the source has at the place where it wrote. -/
theorem copy_eq_iff (positive : 0 < cpu_count)
    (reachable : Reachable (step memory cpu_count) (initial content cpu_count) state)
    (joined : state.Joined cpu_count) :
    state.copy.out_stream = content ↔ InPlace content cpu_count 0 state.order := by
  have invariant : Invariant content cpu_count state := by
    apply reachable.invariant (initial_invariant content cpu_count)
    intro state turn after invariant taken
    exact invariant.step taken
  have permutation := invariant.threads
  rw [joined.ended, joined.started, List.map_nil, List.append_nil] at permutation
  have total : 0 + (state.order.map (shareSize content.length cpu_count)).sum =
      content.length := by
    have covered : ((List.range cpu_count).map (shareSize content.length cpu_count)).sum +
        rest content.length cpu_count cpu_count = content.length := sum_shareSize cpu_count
    rw [rest_last positive] at covered
    rw [(permutation.map _).sum_eq]
    omega
  rw [invariant.target, ← shares_eq_iff total, List.drop_zero]

/-- Two threads in the order in which they were started. -/
theorem copy_eq_startOrder :
    ∃ state, Reachable (step (fun _ => 0) 2) (initial [1, 2, 3] 2) state ∧
      state.Joined 2 ∧ state.copy.out_stream = [1, 2, 3] := by
  have followed : follow (step (fun _ => 0) 2) (initial [1, 2, 3] 2)
      [.spawn, .spawn, .lock 0, .lock 1] =
        some ⟨⟨⟨[1, 2, 3], some 3⟩, [1, 2, 3]⟩, 2, 2, 0, [], [0, 1]⟩ := by
    decide
  have joined : Start.Joined 2 ⟨⟨⟨[1, 2, 3], some 3⟩, [1, 2, 3]⟩, 2, 2, 0, [], [0, 1]⟩ :=
    ⟨rfl, rfl⟩
  exact ⟨_, ⟨_, followed⟩, joined,
    (copy_eq_iff (by decide) ⟨_, followed⟩ joined).mpr (inPlace_startOrder _ _ 2)⟩

/-- The second thread takes the lock first. -/
theorem copy_ne_reversed :
    ∃ state, Reachable (step (fun _ => 0) 2) (initial [1, 2, 3] 2) state ∧
      state.Joined 2 ∧ state.copy.out_stream = [3, 1, 2] := by
  have followed : follow (step (fun _ => 0) 2) (initial [1, 2, 3] 2)
      [.spawn, .spawn, .lock 1, .lock 0] =
        some ⟨⟨⟨[1, 2, 3], some 2⟩, [3, 1, 2]⟩, 2, 2, 0, [], [1, 0]⟩ := by
    decide
  exact ⟨_, ⟨_, followed⟩, ⟨rfl, rfl⟩, rfl⟩

end Runs

end Start

end StdPrograms.Misc

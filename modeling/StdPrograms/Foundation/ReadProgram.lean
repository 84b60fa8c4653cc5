import StdPrograms.Foundation.LittleEndian

/-!
Contract: programs that decode a byte sequence through a single read operation.

A program either returns, fails, or asks for a number of bytes and continues
with what it was given. What a read does is left to the interpreter:

- `consume` takes exactly the requested bytes off the front of a byte list and
  stops, as a misfit, at a request that the list cannot satisfy;
- `run` drives any cursor whose read operation is total, and so may answer a
  request with fewer bytes, or move backwards.

Owns the two interpreters, the simulation rule that carries `consume` over to
every cursor that agrees with it on satisfiable requests, the rule that
relates two cursors along one run, the programs that take a fixed number of
bytes, and the programs whose labelled reads detect a short answer.

Does not own any cursor or any message layout.
-/

namespace StdPrograms.Foundation

inductive ReadProgram (Label Error α : Type) where
  | done (value : α)
  | fail (error : Error)
  | read (label : Label) (size : Int) (next : Bytes → ReadProgram Label Error α)

namespace ReadProgram

variable {Label Error α β σ τ : Type}

def bind : ReadProgram Label Error α → (α → ReadProgram Label Error β) →
    ReadProgram Label Error β
  | .done value, next => next value
  | .fail error, _ => .fail error
  | .read label size continuation, next =>
      .read label size fun bytes => (continuation bytes).bind next

instance : Monad (ReadProgram Label Error) where
  pure := .done
  bind := bind

@[simp] theorem bind_read (label : Label) (size : Int)
    (continuation : Bytes → ReadProgram Label Error α)
    (next : α → ReadProgram Label Error β) :
    (ReadProgram.read label size continuation >>= next) =
      .read label size fun bytes => continuation bytes >>= next := rfl

/-- A computation that touches no bytes. -/
def ofExcept : Except Error α → ReadProgram Label Error α
  | .ok value => .done value
  | .error error => .fail error

/-- The same program `count` times, with its values in order. -/
def times (program : ReadProgram Label Error α) : Nat → ReadProgram Label Error (List α)
  | 0 => .done []
  | count + 1 => do
      let value ← program
      let values ← program.times count
      return value :: values

/-! ### Exact consumption -/

inductive Consumption (Label Error α : Type) where
  | returned (value : α) (rest : Bytes)
  | failed (error : Error)
  | misfit (label : Label)

/-- Take every requested span off the front; stop at one that does not fit. -/
def consume : ReadProgram Label Error α → Bytes → Consumption Label Error α
  | .done value, bytes => .returned value bytes
  | .fail error, _ => .failed error
  | .read label size next, bytes =>
      if 0 ≤ size ∧ size ≤ bytes.length then
        (next (bytes.take size.toNat)).consume (bytes.drop size.toNat)
      else .misfit label

theorem consume_read (label : Label) {size : Int}
    (next : Bytes → ReadProgram Label Error α) {span : Bytes}
    (exact : (span.length : Int) = size) (rest : Bytes) :
    (ReadProgram.read label size next).consume (span ++ rest) =
      (next span).consume rest := by
  have count : size.toNat = span.length := by omega
  have fits : 0 ≤ size ∧ size ≤ ((span ++ rest).length : Nat) := by
    simp only [List.length_append]
    omega
  rw [consume, if_pos fits, count, List.take_left, List.drop_left]

theorem consume_bind (program : ReadProgram Label Error α)
    (next : α → ReadProgram Label Error β) (bytes : Bytes) :
    (program >>= next).consume bytes =
      match program.consume bytes with
      | .returned value rest => (next value).consume rest
      | .failed error => .failed error
      | .misfit label => .misfit label := by
  induction program generalizing bytes with
  | done value => rfl
  | fail error => rfl
  | read label size continuation inductionHypothesis =>
      rw [bind_read, consume, consume]
      by_cases fits : 0 ≤ size ∧ size ≤ bytes.length
      · rw [if_pos fits, if_pos fits]
        exact inductionHypothesis _ _
      · rw [if_neg fits, if_neg fits]

theorem consume_bind_of_returned {program : ReadProgram Label Error α}
    {bytes rest : Bytes} {value : α}
    (returned : program.consume bytes = .returned value rest)
    (next : α → ReadProgram Label Error β) :
    (program >>= next).consume bytes = (next value).consume rest := by
  rw [consume_bind, returned]

/-- What a program does not take stays behind it, with whatever follows. -/
theorem consume_append {program : ReadProgram Label Error α} {bytes rest : Bytes} {value : α}
    (returned : program.consume bytes = .returned value rest) (more : Bytes) :
    program.consume (bytes ++ more) = .returned value (rest ++ more) := by
  induction program generalizing bytes with
  | done result =>
      cases returned
      rfl
  | fail error => cases returned
  | read label size next inductionHypothesis =>
      rw [consume] at returned ⊢
      split at returned
      next fits =>
        have within : size.toNat ≤ bytes.length := by omega
        rw [if_pos (by rw [List.length_append]; omega), List.take_append_of_le_length within,
          List.drop_append_of_le_length within]
        exact inductionHypothesis _ returned
      next => cases returned

/-! ### Cursors -/

section Cursor

variable (step : σ → Int → Bytes × σ)

def run : ReadProgram Label Error α → σ → Except Error (α × σ)
  | .done value, state => .ok (value, state)
  | .fail error, _ => .error error
  | .read _ size next, state =>
      (next (step state size).1).run (step state size).2

/-- One read of a run: what was asked for, and where the cursor stood. -/
structure Request (Label σ : Type) where
  label : Label
  state : σ
  size : Int

/-- The reads of a run, in order, up to the end or the failure. -/
def requests : ReadProgram Label Error α → σ → List (Request Label σ)
  | .done _, _ => []
  | .fail _, _ => []
  | .read label size next, state =>
      ⟨label, state, size⟩ ::
        (next (step state size).1).requests (step state size).2

theorem run_bind (program : ReadProgram Label Error α)
    (next : α → ReadProgram Label Error β) (state : σ) :
    (program >>= next).run step state =
      match program.run step state with
      | .ok (value, after) => (next value).run step after
      | .error error => .error error := by
  induction program generalizing state with
  | done value => rfl
  | fail error => rfl
  | read label size continuation inductionHypothesis =>
      exact inductionHypothesis _ _

/-- A run of two programs in sequence returns exactly when both runs do. -/
theorem run_bind_eq_ok {program : ReadProgram Label Error α}
    {next : α → ReadProgram Label Error β} {state after : σ} {result : β} :
    (program >>= next).run step state = .ok (result, after) ↔
      ∃ value middle, program.run step state = .ok (value, middle) ∧
        (next value).run step middle = .ok (result, after) := by
  rw [run_bind]
  cases program.run step state with
  | error error => simp
  | ok outcome =>
      obtain ⟨value, middle⟩ := outcome
      simp

/-- As many values as times. -/
theorem length_of_times {program : ReadProgram Label Error α} {count : ℕ} {values : List α}
    {state after : σ} (returned : (program.times count).run step state = .ok (values, after)) :
    values.length = count := by
  induction count generalizing values state with
  | zero =>
      cases Except.ok.inj returned
      rfl
  | succ count inductionHypothesis =>
      obtain ⟨value, middle, -, returned⟩ := (run_bind_eq_ok step).mp returned
      obtain ⟨others, last, rest, returned⟩ := (run_bind_eq_ok step).mp returned
      cases Except.ok.inj returned
      exact congrArg Nat.succ (inductionHypothesis rest)

/-- What `consume` says of a program that it does not stop, said of a cursor. -/
def Follows (represents : σ → Bytes → Prop) (result : Except Error (α × σ)) :
    Consumption Label Error α → Prop
  | .returned value rest => ∃ after, result = .ok (value, after) ∧ represents after rest
  | .failed error => result = .error error
  | .misfit _ => True

/-- A cursor that answers satisfiable requests exactly runs every program as
`consume` does. -/
theorem run_follows_consume {represents : σ → Bytes → Prop}
    (exactStep : ∀ state bytes size, represents state bytes → 0 ≤ size →
      size ≤ (bytes.length : Int) →
        (step state size).1 = bytes.take size.toNat ∧
          represents (step state size).2 (bytes.drop size.toNat))
    (program : ReadProgram Label Error α) {state : σ} {bytes : Bytes}
    (represented : represents state bytes) :
    Follows represents (program.run step state) (program.consume bytes) := by
  induction program generalizing state bytes with
  | done value => exact ⟨state, rfl, represented⟩
  | fail error => rfl
  | read label size next inductionHypothesis =>
      rw [consume]
      by_cases fits : 0 ≤ size ∧ size ≤ bytes.length
      · obtain ⟨answer, after⟩ := exactStep state bytes size represented fits.1 fits.2
        rw [if_pos fits, run, answer]
        exact inductionHypothesis _ after
      · rw [if_neg fits]
        trivial

end Cursor

/-! ### Two cursors along one run -/

/-- Two results that differ only in the state of their cursors. -/
def SameResult (related : σ → τ → Prop) :
    Except Error (α × σ) → Except Error (α × τ) → Prop
  | .ok (left, leftState), .ok (right, rightState) =>
      left = right ∧ related leftState rightState
  | .error left, .error right => left = right
  | _, _ => False

/-- Two cursors that answer alike wherever the first one is admitted give the
same result, provided every request of the first one is admitted. -/
theorem run_sameResult {left : σ → Int → Bytes × σ} {right : τ → Int → Bytes × τ}
    {related : σ → τ → Prop} {admitted : σ → Int → Prop}
    (alike : ∀ state other size, related state other → admitted state size →
      (left state size).1 = (right other size).1 ∧
        related (left state size).2 (right other size).2)
    (program : ReadProgram Label Error α) {state : σ} {other : τ}
    (start : related state other)
    (allAdmitted : ∀ request ∈ program.requests left state,
      admitted request.state request.size) :
    SameResult related (program.run left state) (program.run right other) := by
  induction program generalizing state other with
  | done value => exact ⟨rfl, start⟩
  | fail error => rfl
  | read label size next inductionHypothesis =>
      simp only [requests, List.mem_cons, forall_eq_or_imp] at allAdmitted
      obtain ⟨answer, after⟩ := alike state other size start allAdmitted.1
      rw [run, run, ← answer]
      exact inductionHypothesis _ after allAdmitted.2

/-! ### Programs of a fixed width -/

/-- Whenever the program returns, it has taken `width` bytes. -/
def Takes (width : ℕ) (program : ReadProgram Label Error α) : Prop :=
  ∀ bytes value rest, program.consume bytes = .returned value rest →
    bytes.length = width + rest.length

theorem Takes.done (value : α) : (ReadProgram.done value : ReadProgram Label Error α).Takes 0 := by
  intro bytes result rest returned
  cases returned
  exact (Nat.zero_add _).symm

theorem Takes.ofExcept (result : Except Error α) :
    (ReadProgram.ofExcept result : ReadProgram Label Error α).Takes 0 := by
  cases result with
  | ok value => exact Takes.done value
  | error error =>
      intro bytes value rest returned
      cases returned

theorem Takes.read (label : Label) {size width : ℕ} {next : Bytes → ReadProgram Label Error α}
    (takes : ∀ bytes, (next bytes).Takes width) :
    (ReadProgram.read label size next).Takes (size + width) := by
  intro bytes value rest returned
  rw [consume] at returned
  split at returned
  next fits =>
    have remaining := takes _ _ _ _ returned
    rw [Int.toNat_natCast, List.length_drop] at remaining
    omega
  next => cases returned

theorem Takes.bind {program : ReadProgram Label Error α} {next : α → ReadProgram Label Error β}
    {first second : ℕ} (takes : program.Takes first) (nextTakes : ∀ value, (next value).Takes second) :
    (program >>= next).Takes (first + second) := by
  intro bytes value rest returned
  rw [consume_bind] at returned
  split at returned
  next middle remaining firstReturned =>
    have before := takes _ _ _ firstReturned
    have after := nextTakes middle _ _ _ returned
    omega
  next => cases returned
  next => cases returned

theorem Takes.times {program : ReadProgram Label Error α} {width : ℕ} (takes : program.Takes width)
    (count : ℕ) : (program.times count).Takes (count * width) := by
  induction count with
  | zero =>
      rw [Nat.zero_mul]
      exact Takes.done []
  | succ count inductionHypothesis =>
      have shape : (count + 1) * width = width + (count * width + 0) := by
        rw [Nat.succ_mul, Nat.add_zero, Nat.add_comm]
      rw [shape]
      exact takes.bind fun value => inductionHypothesis.bind fun values => Takes.done _

/-! ### Programs that detect a short answer -/

/-- Every read whose label is `strict` asks for a non-negative size, and fails
on a shorter answer. -/
def Detects (strict : Label → Prop) : ReadProgram Label Error α → Prop
  | .done _ => True
  | .fail _ => True
  | .read label size next =>
      (strict label → 0 ≤ size ∧
        ∀ bytes : Bytes, (bytes.length : Int) < size → ∃ error, next bytes = .fail error) ∧
      ∀ bytes, (next bytes).Detects strict

theorem Detects.bind {strict : Label → Prop} {program : ReadProgram Label Error α}
    {next : α → ReadProgram Label Error β} (first : program.Detects strict)
    (rest : ∀ value, (next value).Detects strict) :
    (program >>= next).Detects strict := by
  induction program with
  | done value => exact rest value
  | fail error => trivial
  | read label size continuation inductionHypothesis =>
      refine ⟨fun isStrict => ?_, fun bytes => inductionHypothesis bytes (first.2 bytes)⟩
      obtain ⟨nonnegative, detects⟩ := first.1 isStrict
      refine ⟨nonnegative, fun bytes short => ?_⟩
      obtain ⟨error, failed⟩ := detects bytes short
      refine ⟨error, ?_⟩
      show (continuation bytes).bind next = .fail error
      rw [failed, ReadProgram.bind]

theorem Detects.ofExcept {strict : Label → Prop} (result : Except Error α) :
    (ReadProgram.ofExcept result : ReadProgram Label Error α).Detects strict := by
  cases result <;> trivial

theorem Detects.times {strict : Label → Prop} {program : ReadProgram Label Error α}
    (detects : program.Detects strict) (count : Nat) :
    (program.times count).Detects strict := by
  induction count with
  | zero => trivial
  | succ count inductionHypothesis =>
      exact detects.bind fun value => inductionHypothesis.bind fun values => trivial

end ReadProgram

end StdPrograms.Foundation

import Mathlib.Logic.Function.Basic
import StdPrograms.Foundation.Transitions
import StdPrograms.Release.Readable

/-!
Contract: the event loop of `epoll.cpp` around the login client, as `main` starts it.

One label is one descriptor that an `epoll_wait` reports, with whatever the system does inside the
handler that is called for it. The runs are those in which no `epoll_wait` fails: the count of -1
that a signal gives sends the loop over and behind its array, through entries that earlier waits
have left, and that is not described here. Owns the interest list, the handlers as they change it,
and what is left of it: `on_readable` asks for the next event only where its descriptor is closed.

The history `called` is not in the code. Does not own the thread of `random_action`, which leaves
the interest list alone, or a handler that an exception leaves.
-/

namespace StdPrograms.Release

open StdPrograms.Foundation

/-! ### The interest list -/

/-- `EPOLLIN`, `EPOLLOUT` and `EPOLLRDHUP`. -/
structure Events where
  readable : Bool
  writable : Bool
  peerClosed : Bool
deriving DecidableEq, Repr

/-- Among the events that are asked for. An error or a hang-up is reported unasked, and the loop
does not look at it. -/
def Events.Within (events wanted : Events) : Prop :=
  (events.readable = true → wanted.readable = true) ∧
    (events.writable = true → wanted.writable = true) ∧
      (events.peerClosed = true → wanted.peerClosed = true)

instance (events wanted : Events) : Decidable (events.Within wanted) :=
  inferInstanceAs (Decidable (_ ∧ _ ∧ _))

/-- What is asked for of a descriptor. All of the client's requests have `EPOLLONESHOT`: a
report disables them. -/
structure Interest where
  events : Events
  enabled : Bool
deriving DecidableEq, Repr

/-- `Epoll`: the interest list of `epfd_`, in which all handlers are the client. -/
abbrev Epoll := ℤ → Option Interest

namespace Epoll

/-- Nothing is asked for yet. -/
def empty : Epoll := fun _ => none

/-- `EPOLL_CTL_ADD`. The call adds `EPOLLRDHUP`; an entry that exists stays. -/
def add (self : Epoll) (fd : ℤ) (events : Events) : Epoll :=
  if 0 ≤ fd ∧ self fd = none then
    Function.update self fd (some ⟨{ events with peerClosed := true }, true⟩)
  else self

/-- `EPOLL_CTL_MOD` changes an entry that exists. -/
def modify (self : Epoll) (fd : ℤ) (events : Events) : Epoll :=
  match self fd with
  | some _ => Function.update self fd (some ⟨{ events with peerClosed := true }, true⟩)
  | none => self

/-- `EPOLL_CTL_DEL`, and what the system does where a descriptor is closed. -/
def remove (self : Epoll) (fd : ℤ) : Epoll := Function.update self fd none

/-- `EPOLLONESHOT`. -/
def disable (self : Epoll) (fd : ℤ) : Epoll :=
  Function.update self fd ((self fd).map fun interest => { interest with enabled := false })

end Epoll

/-! ### The loop -/

/-- The handlers of `EventHandler`. -/
inductive Handler where
  | on_readable
  | on_writeable
  | on_peer_closed
deriving DecidableEq, Repr

/-- What the system does inside of a handler: the error that `getsockopt` returns, if it returns
one, and for `on_readable` the results of `recv`, the memory that it finds and how long it
takes. -/
structure Surroundings where
  error : Option ℤ
  results : ℕ → RecvResult
  memory : ℕ → UInt8
  stack : ℕ → ℕ → UInt8
  steps : ℕ

structure Report where
  fd : ℤ
  events : Events
  surroundings : Surroundings

structure EventLoop where
  epoll : Epoll
  login : Login
  inpkt_ : IPacket
  called : List Handler

namespace EventLoop

/-- `main`, up to `mainloop`: the client has connected, or has no descriptor. -/
def initial (login : Login) : EventLoop where
  epoll := Epoll.empty.add login.ssl.fd_ ⟨true, true, false⟩
  login := login
  inpkt_ := IPacket.reset
  called := []

/-- The calls of `modify` that `on_readable` has made. -/
def modified (epoll : Epoll) (calls : List Call) : Epoll :=
  calls.foldl (fun epoll call =>
    match call with
    | .modify fd => epoll.modify fd ⟨true, false, true⟩
    | .append _ _ _ => epoll) epoll

/-- A descriptor that was closed leaves the interest list. -/
def closed (epoll : Epoll) (before after : Login) : Epoll :=
  if after.ssl.fd_ = before.ssl.fd_ then epoll else epoll.remove before.ssl.fd_

def on_readable (platform : Platform) (state : EventLoop) (surroundings : Surroundings) :
    Option EventLoop :=
  let reading := (Reading.start state.login state.inpkt_ surroundings.memory).after platform
    surroundings.stack surroundings.results surroundings.steps
  if reading.place = .returned then
    some { state with
      epoll := modified (closed state.epoll state.login reading.login) reading.calls
      login := reading.login
      inpkt_ := reading.inpkt_ }
  else none

def on_writeable (state : EventLoop) (surroundings : Surroundings) : EventLoop :=
  match surroundings.error with
  | some 0 => { state with epoll := state.epoll.modify state.login.ssl.fd_ ⟨true, false, true⟩ }
  | _ => state

def on_peer_closed (state : EventLoop) : EventLoop :=
  { state with epoll := state.epoll.remove state.login.ssl.fd_ }

def call (state : EventLoop) (handler : Handler) : EventLoop :=
  { state with called := state.called ++ [handler] }

/-- The body of the loop over `events`. -/
def handle (platform : Platform) (state : EventLoop) (report : Report) : Option EventLoop :=
  if report.events.writable then
    some ((state.call .on_writeable).on_writeable report.surroundings)
  else if report.events.readable then
    (state.call .on_readable).on_readable platform report.surroundings
  else if report.events.peerClosed then some (state.call .on_peer_closed).on_peer_closed
  else some state

/-- One report of a wait that has not failed: a descriptor is reported with events that are asked
for, and not before it is enabled. -/
def step (platform : Platform) (state : EventLoop) (report : Report) : Option EventLoop :=
  match state.epoll report.fd with
  | some interest =>
      if interest.enabled = true ∧ report.events.Within interest.events then
        { state with epoll := state.epoll.disable report.fd }.handle platform report
      else none
  | none => none

end EventLoop

/-! ### What `on_readable` hands to `modify` -/

namespace Reading

/-- `modify` is called for a closed descriptor only. -/
def ShutOnly (self : Reading) : Prop := ∀ fd, Call.modify fd ∈ self.calls → fd = -1

variable {platform : Platform} {stack : ℕ → ℕ → UInt8} {results : ℕ → RecvResult} {self : Reading}

theorem ShutOnly.append (shut : self.ShutOnly) (count : ℤ) (copied delivered : Bytes) :
    (self.called (.append count copied delivered)).ShutOnly := by
  intro fd member
  simp only [called, List.mem_append, List.mem_singleton, reduceCtorEq, or_false] at member
  exact shut fd member

theorem ShutOnly.settle (shut : self.ShutOnly) (inpkt : IPacket) (next : Place) :
    (self.settle platform stack inpkt next).ShutOnly := by
  unfold Reading.settle
  split
  next => exact shut
  next => exact shut

theorem ShutOnly.peerClosed (shut : self.ShutOnly) : self.peerClosed.ShutOnly := by
  rw [Reading.peerClosed, exec_closefd]
  by_cases isOpen : 0 ≤ self.login.ssl.fd_
  · rw [if_pos isOpen]
    intro fd member
    simp only [called, List.mem_append, List.mem_singleton, Call.modify.injEq] at member
    exact member.elim (shut fd) id
  · rw [if_neg isOpen]
    exact shut

theorem ShutOnly.step (shut : self.ShutOnly) : (self.step platform stack results).ShutOnly := by
  rw [Reading.step]
  cases self.place with
  | recv =>
      change (self.receive (results self.taken)).ShutOnly
      unfold receive
      dsimp only
      split
      next => exact ShutOnly.peerClosed shut
      next => exact shut
  | append len nbuf =>
      change (self.appendOnce platform stack len nbuf).ShutOnly
      unfold appendOnce
      split
      next => exact ShutOnly.append shut _ _ _
      next => exact (ShutOnly.append shut _ _ _).settle _ _
  | returned => exact shut
  | thrown error => exact shut

theorem ShutOnly.after (shut : self.ShutOnly) (steps : ℕ) :
    (self.after platform stack results steps).ShutOnly := by
  induction steps generalizing self with
  | zero => exact shut
  | succ steps inductionHypothesis => exact inductionHypothesis shut.step

end Reading

/-! ### What every report leaves -/

namespace EventLoop

/-- At most this descriptor is in the list. -/
structure Sole (fd : ℤ) (epoll : Epoll) : Prop where
  others : ∀ other, other ≠ fd → epoll other = none
  valid : fd < 0 → epoll fd = none

/-- Nothing will be reported any more. -/
def Silent (fd : ℤ) (epoll : Epoll) : Prop :=
  ∀ interest, epoll fd = some interest → interest.enabled = false

/-- Nothing but a closed peer or data will be reported. -/
def Listening (fd : ℤ) (epoll : Epoll) : Prop :=
  ∀ interest, epoll fd = some interest → interest.enabled = true →
    interest.events.writable = false

variable {fd : ℤ} {epoll : Epoll}

theorem Sole.update (sole : Sole fd epoll) {interest : Option Interest}
    (negative : fd < 0 → interest = none) : Sole fd (Function.update epoll fd interest) where
  others := by
    intro other apart
    rw [Function.update_of_ne apart]
    exact sole.others other apart
  valid := by
    intro below
    rw [Function.update_self]
    exact negative below

theorem Sole.modify (sole : Sole fd epoll) (other : ℤ) (events : Events) :
    Sole fd (epoll.modify other events) := by
  unfold Epoll.modify
  split
  next interest entry =>
    have same : other = fd := by
      by_contra apart
      rw [sole.others other apart] at entry
      cases entry
    subst same
    apply sole.update
    intro negative
    rw [sole.valid negative] at entry
    cases entry
  next => exact sole

theorem Sole.remove (sole : Sole fd epoll) (other : ℤ) : Sole fd (epoll.remove other) := by
  by_cases same : other = fd
  · subst same
    exact sole.update fun _ => rfl
  · have absent : epoll.remove other = epoll := by
      rw [Epoll.remove, ← sole.others other same, Function.update_eq_self]
    rw [absent]
    exact sole

theorem Silent.remove (silent : Silent fd epoll) (other : ℤ) : Silent fd (epoll.remove other) := by
  intro interest entry
  by_cases same : fd = other
  · subst same
    simp [Epoll.remove] at entry
  · rw [Epoll.remove, Function.update_of_ne same] at entry
    exact silent interest entry

/-- What `modify` asks for is no room to write. -/
theorem Listening.modify (listening : Listening fd epoll) (other : ℤ) {events : Events}
    (noRoom : events.writable = false) : Listening fd (epoll.modify other events) := by
  unfold Epoll.modify
  split
  next =>
    intro interest entry enabled
    by_cases same : fd = other
    · subst same
      simp only [Function.update_self, Option.some.injEq] at entry
      rw [← entry]
      exact noRoom
    · rw [Function.update_of_ne same] at entry
      exact listening interest entry enabled
  next => exact listening

theorem Silent.listening (silent : Silent fd epoll) : Listening fd epoll := by
  intro interest entry enabled
  rw [silent interest entry] at enabled
  cases enabled

/-- A report disables its entry. -/
theorem silent_disable (fd : ℤ) (epoll : Epoll) : Silent fd (epoll.disable fd) := by
  intro interest entry
  simp only [Epoll.disable, Function.update_self, Option.map_eq_some_iff] at entry
  obtain ⟨before, -, rfl⟩ := entry
  rfl

theorem Sole.disable (sole : Sole fd epoll) : Sole fd (epoll.disable fd) := by
  apply sole.update
  intro negative
  rw [sole.valid negative]
  rfl

/-- A closed descriptor has no entry that `modify` could change. -/
theorem modified_eq {calls : List Call} (sole : Sole fd epoll)
    (shut : ∀ other, Call.modify other ∈ calls → other = -1) : modified epoll calls = epoll := by
  have absent : epoll (-1) = none := by
    by_cases same : -1 = fd
    · subst same
      exact sole.valid (by decide)
    · exact sole.others (-1) same
  induction calls with
  | nil => rfl
  | cons call rest inductionHypothesis =>
      have later := inductionHypothesis fun other member => shut other (.tail _ member)
      cases call with
      | append count copied delivered => exact later
      | modify other =>
          have isShut := shut other (.head _)
          subst isShut
          rw [modified, List.foldl_cons]
          dsimp only
          rw [Epoll.modify, absent]
          exact later

/-! ### Runs of the loop -/

/-- At most `on_writeable` has been called. -/
def Few (called : List Handler) : Prop := called = [] ∨ called = [.on_writeable]

/-- The handlers that have been called so far, and what the list still asks for. -/
inductive Stage (fd : ℤ) (epoll : Epoll) (called : List Handler) : Prop where
  | fresh (none : called = [])
  | listening (once : called = [.on_writeable]) (listens : Listening fd epoll)
  | finished (few : Few called) (silent : Silent fd epoll)
  | heard (before : List Handler) (last : Handler) (few : Few before)
      (isCalled : called = before ++ [last]) (reads : last ≠ .on_writeable)
      (silent : Silent fd epoll)

structure Invariant (fd : ℤ) (state : EventLoop) : Prop where
  sole : Sole fd state.epoll
  stage : Stage fd state.epoll state.called

variable {platform : Platform} {state after : EventLoop} {report : Report}

/-- Before the last handler, at most `on_writeable` has been called. -/
theorem Stage.few {called : List Handler} (stage : Stage fd epoll called)
    (loud : ¬ Silent fd epoll) : Few called := by
  cases stage with
  | fresh none => exact .inl none
  | listening once _ => exact .inr once
  | finished few _ => exact few
  | heard _ _ _ _ _ silent => exact absurd silent loud

/-- A list that asks for room to write has not been changed yet. -/
theorem Stage.fresh_of_writable {called : List Handler} {interest : Interest}
    (stage : Stage fd epoll called) (entry : epoll fd = some interest)
    (enabled : interest.enabled = true) (writable : interest.events.writable = true) :
    called = [] := by
  cases stage with
  | fresh none => exact none
  | listening _ listens =>
      rw [listens interest entry enabled] at writable
      cases writable
  | finished _ silent =>
      rw [silent interest entry] at enabled
      cases enabled
  | heard _ _ _ _ _ silent =>
      rw [silent interest entry] at enabled
      cases enabled

/-- The handler is called with the entry of the report disabled. -/
theorem step_handles (invariant : Invariant fd state)
    (taken : step platform state report = some after) :
    ∃ interest, state.epoll fd = some interest ∧ interest.enabled = true ∧
      report.events.Within interest.events ∧
        { state with epoll := state.epoll.disable fd }.handle platform report = some after := by
  unfold step at taken
  split at taken
  next interest entry =>
    have same : report.fd = fd := by
      by_contra apart
      rw [invariant.sole.others _ apart] at entry
      cases entry
    rw [same] at entry taken
    simp only [Option.ite_none_right_eq_some] at taken
    exact ⟨interest, entry, taken.1.1, taken.1.2, taken.2⟩
  next => cases taken

/-- `on_readable` leaves the list with nothing enabled. -/
theorem on_readable_silent {surroundings : Surroundings} (sole : Sole fd state.epoll)
    (silent : Silent fd state.epoll)
    (handled : state.on_readable platform surroundings = some after) :
    Sole fd after.epoll ∧ Silent fd after.epoll ∧ after.called = state.called := by
  simp only [on_readable, Option.ite_none_right_eq_some, Option.some.injEq] at handled
  rw [← handled.2]
  generalize isReading : (Reading.start state.login state.inpkt_ surroundings.memory).after
    platform surroundings.stack surroundings.results surroundings.steps = reading
  have shut : reading.ShutOnly := by
    rw [← isReading]
    apply Reading.ShutOnly.after
    intro other member
    cases member
  have left : Sole fd (closed state.epoll state.login reading.login) ∧
      Silent fd (closed state.epoll state.login reading.login) := by
    unfold closed
    split
    next => exact ⟨sole, silent⟩
    next => exact ⟨sole.remove _, silent.remove _⟩
  change Sole fd (modified _ reading.calls) ∧ Silent fd (modified _ reading.calls) ∧ _
  rw [modified_eq left.1 shut]
  exact ⟨left.1, left.2, rfl⟩

theorem Invariant.step (invariant : Invariant fd state)
    (taken : EventLoop.step platform state report = some after) : Invariant fd after := by
  obtain ⟨interest, entry, enabled, within, handled⟩ := step_handles invariant taken
  have loud : ¬ Silent fd state.epoll := by
    intro silent
    rw [silent interest entry] at enabled
    cases enabled
  have few := invariant.stage.few loud
  have sole := invariant.sole.disable
  have silent := silent_disable fd state.epoll
  unfold handle at handled
  split at handled
  next writable =>
    have first : state.called = [] :=
      invariant.stage.fresh_of_writable entry enabled (within.2.1 writable)
    cases handled
    unfold on_writeable call
    rw [first]
    split
    next => exact ⟨sole.modify _ _, .listening rfl (silent.listening.modify _ rfl)⟩
    next => exact ⟨sole, .listening rfl silent.listening⟩
  next =>
    split at handled
    next =>
      obtain ⟨soleAfter, silentAfter, calledAfter⟩ := on_readable_silent sole silent handled
      refine ⟨soleAfter, ?_⟩
      rw [calledAfter]
      exact .heard _ .on_readable few rfl (by decide) silentAfter
    next =>
      split at handled
      next =>
        cases handled
        exact ⟨sole.remove _, .heard _ .on_peer_closed few rfl (by decide) (silent.remove _)⟩
      next =>
        cases handled
        exact ⟨sole, .finished few silent⟩

theorem initial_invariant (login : Login) : Invariant login.ssl.fd_ (initial login) where
  sole := by
    unfold initial Epoll.add
    split
    next valid => exact Sole.update ⟨fun _ _ => rfl, fun _ => rfl⟩ fun below => by omega
    next => exact ⟨fun _ _ => rfl, fun _ => rfl⟩
  stage := .fresh rfl

/-- The client hears once: at most one call of `on_writeable`, then at most one of `on_readable`
or `on_peer_closed`, and behind it no wait that succeeds reports anything, whatever the peer
sends. -/
structure HearsOnce (platform : Platform) (state : EventLoop) : Prop where
  writes : state.called.count .on_writeable ≤ 1
  reads : state.called.countP (· ≠ .on_writeable) ≤ 1
  deaf : ∀ handler ∈ state.called, handler ≠ .on_writeable →
    ∀ report, step platform state report = none

/-- A list with nothing enabled reports nothing. -/
theorem step_of_silent (sole : Sole fd state.epoll) (silent : Silent fd state.epoll)
    (report : Report) : step platform state report = none := by
  unfold step
  split
  next interest entry =>
    have same : report.fd = fd := by
      by_contra apart
      rw [sole.others _ apart] at entry
      cases entry
    rw [same] at entry
    rw [silent interest entry]
    simp
  next => rfl

/-- While no wait has failed. -/
theorem hearsOnce (login : Login) (reachable : Reachable (step platform) (initial login) state) :
    HearsOnce platform state := by
  have invariant : Invariant login.ssl.fd_ state := by
    apply reachable.invariant (initial_invariant login)
    intro state report after invariant taken
    exact invariant.step taken
  cases invariant.stage with
  | fresh none => exact ⟨by simp [none], by simp [none], by simp [none]⟩
  | listening once _ => exact ⟨by simp [once], by simp [once], by simp [once]⟩
  | finished few _ =>
      rcases few with few | few <;> exact ⟨by simp [few], by simp [few], by simp [few]⟩
  | heard before last few isCalled reads silent =>
      refine ⟨?_, ?_, fun _ _ _ report => step_of_silent invariant.sole silent report⟩
      · rcases few with few | few <;> simp [isCalled, few, reads]
      · rcases few with few | few <;> simp [isCalled, few, reads]

/-- The descriptor is connected, there is room to write, and then the peer closes. -/
theorem hearsOnce_closed :
    let login := (Login.new ⟨0, 0, 0, 0⟩ 3 [] [] [] []).state
    ∃ state, Reachable (step SSLClient.countingPlatform) (initial login) state ∧
      state.called = [.on_writeable, .on_readable] ∧
        HearsOnce SSLClient.countingPlatform state := by
  intro login
  have reached : (follow (step SSLClient.countingPlatform) (initial login)
      [⟨3, ⟨false, true, false⟩, ⟨some 0, fun _ => .closed, fun _ => 0, fun _ _ => 0, 0⟩⟩,
        ⟨3, ⟨true, false, true⟩, ⟨none, fun _ => .closed, fun _ => 0, fun _ _ => 0, 1⟩⟩]).map
      EventLoop.called = some [.on_writeable, .on_readable] := by
    rfl
  obtain ⟨state, followed, called⟩ := Option.map_eq_some_iff.mp reached
  have reachable : Reachable (step SSLClient.countingPlatform) (initial login) state :=
    ⟨_, followed⟩
  exact ⟨state, reachable, called, hearsOnce login reachable⟩

end EventLoop

end StdPrograms.Release

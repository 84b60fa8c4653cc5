import Mathlib.Data.Finset.Basic
import StdPrograms.Foundation.Transitions
import StdPrograms.Ouou.Message.Registry
import StdPrograms.Ouou.Net.BaseClient

/-!
Contract: the life cycle of `net/linux_client.py` in an event loop.

One label is one call that the loop or the user makes, or one turn of the loop in
`_handle_data`; the loop makes no other call in between. Owns the states of a client, what
it has registered with the event loop, and for which runs the registrations follow the
state: `close` changes the state before `_close` looks at it.

State callbacks do not call the client, and message callbacks call at most `close`. Does
not own what is sent, or `set_loop`.
-/

namespace StdPrograms.Ouou

open StdPrograms.Foundation

inductive ConnectionState where
  | CLOSED
  | CONNECTING
  | CONNECTED
  | CLOSING
deriving DecidableEq, Repr

structure LinuxClient where
  state : ConnectionState := .CLOSED
  /-- The file descriptor of `_sock`. -/
  _sock : Option Nat := none
  _buf : Bytes := []
  _waited_response : List Nat := []
  /-- The event loop has a call of `_keep_alive` to make. -/
  _ka_handle : Bool := false
  /-- What the event loop calls `_data_ready` for. -/
  readers : Finset Nat := ∅
  /-- What the event loop calls `_connection_made` for. -/
  writers : Finset Nat := ∅
  /-- `_handle_data` is in its loop. -/
  handling : Bool := false
  /-- The bytes received since `connect` opened a socket. -/
  received : Bytes := []
  /-- The messages that reached the callback since then. -/
  delivered : List Message := []

/-- What `_connection_made` finds: an error, or a connection, on which the heartbeat is
sent or `sendall` raises an exception. -/
inductive Connection where
  | failed
  | made (sent : Bool)
deriving DecidableEq, Repr

/-- What `recv` does. It blocks or fails with an exception. -/
inductive Recv where
  | raises
  | data (bytes : Bytes)
deriving DecidableEq, Repr

/-- What may happen next. `fd` is the descriptor of a new socket, or the one that is ready;
`inProgress` is whether `connect_ex` says so; `closes` is whether the callback of the next
message calls `close`. -/
inductive Event where
  | connect (fd : Nat) (inProgress : Bool)
  | writable (fd : Nat) (connection : Connection)
  | readable (fd : Nat) (recv : Recv)
  | turn (closes : Bool)
  | close
  | send_message (msg_ids : List Nat)
  | keep_alive
deriving DecidableEq, Repr

namespace LinuxClient

/-! ### The calls -/

def async_connect (self : LinuxClient) (inProgress : Bool) : LinuxClient :=
  match self._sock with
  | none => self
  | some fd => if inProgress then { self with writers := insert fd self.writers } else self

/-- `connect`. A client that is connected raises an exception. -/
def connect (self : LinuxClient) (fd : Nat) (inProgress : Bool) : LinuxClient :=
  match self.state with
  | .CONNECTED => self
  | .CONNECTING => self.async_connect inProgress
  | .CLOSED | .CLOSING =>
      let self :=
        { self with state := .CONNECTING, _sock := some fd, received := [], delivered := [] }
      self.async_connect inProgress

/-- `_close` of the base class. -/
def base_close (self : LinuxClient) : LinuxClient :=
  if self.state = .CLOSED then self
  else
    { self with state := .CLOSED, _sock := none, _waited_response := [], _ka_handle := false }

def _close (self : LinuxClient) : LinuxClient :=
  match self.state, self._sock with
  | .CONNECTED, some fd => { self with readers := self.readers.erase fd }.base_close
  | _, _ => self.base_close

def close (self : LinuxClient) : LinuxClient :=
  match self.state with
  | .CLOSING | .CLOSED => self
  | .CONNECTING | .CONNECTED => { self with state := .CLOSING }._close

def _keep_alive (self : LinuxClient) : LinuxClient :=
  if self.state ≠ .CONNECTED then self else { self with _ka_handle := true }

/-- `_change_state` sends a heartbeat where it changes the state. -/
def _connection_made (self : LinuxClient) (connection : Connection) : LinuxClient :=
  match self._sock with
  | none => self
  | some fd =>
      let self := { self with writers := self.writers.erase fd }
      match connection with
      | .failed => self._close
      | .made sent =>
          if self.state = .CONNECTED then { self with readers := insert fd self.readers }
          else
            let self := { self with state := .CONNECTED }._keep_alive
            if sent then { self with readers := insert fd self.readers } else self

/-- `_data_ready`, up to the loop of `_handle_data`. -/
def _data_ready (self : LinuxClient) (recv : Recv) : LinuxClient :=
  match self._sock, recv with
  | none, _ => self
  | some _, .raises => self
  | some _, .data data =>
      if data.isEmpty then self._close
      else
        { self with
          _buf := self._buf ++ data, received := self.received ++ data, handling := true }

/-- `msg_id` is not the one of a heartbeat, or it is waited for. -/
def Called (self : LinuxClient) (msg : Message) : Prop :=
  msg.header.msg_id ≠ HEARTBEAT_ID ∨ msg.header.msg_id ∈ self._waited_response

instance (self : LinuxClient) (msg : Message) : Decidable (self.Called msg) :=
  inferInstanceAs (Decidable (_ ∨ _))

def remove_waited (self : LinuxClient) (msg : Message) : LinuxClient :=
  { self with
    _waited_response :=
      if !msg.is_push_msg && msg.header.msg_id ∈ self._waited_response then
        self._waited_response.erase msg.header.msg_id
      else self._waited_response }

/-- Up to what the callback does. -/
def message_callback (self : LinuxClient) (msg : Message) : LinuxClient :=
  { self with delivered := self.delivered ++ [msg] }

def handle_message (self : LinuxClient) (msg : Message) (closes : Bool) : LinuxClient :=
  if self.Called msg then
    let called := (self.remove_waited msg).message_callback msg
    if closes then called.close else called
  else self.remove_waited msg

section Steps

variable (package : Package)

/-- One turn of the loop in `_handle_data`. It ends where nothing is left to parse, or in an
exception. -/
def turn (self : LinuxClient) (closes : Bool) : LinuxClient :=
  match Message.allfrombytes package self._buf false with
  | .error _ => { self with handling := false }
  | .ok none => { self with handling := false }
  | .ok (some p) => { self.handle_message p closes with _buf := self._buf.drop p.size }

/-- `send_message` has the identifiers waited for before it sends. -/
def send_message (self : LinuxClient) (msg_ids : List Nat) : LinuxClient :=
  { self with _waited_response := self._waited_response ++ msg_ids }

def step (self : LinuxClient) : Event → Option LinuxClient
  | .turn closes => if self.handling then some (self.turn package closes) else none
  | .connect fd inProgress =>
      if self.handling then none else some (self.connect fd inProgress)
  | .writable fd connection =>
      if !self.handling ∧ fd ∈ self.writers then some (self._connection_made connection)
      else none
  | .readable fd recv =>
      if !self.handling ∧ fd ∈ self.readers then some (self._data_ready recv) else none
  | .close => if self.handling then none else some self.close
  | .send_message msg_ids => if self.handling then none else some (self.send_message msg_ids)
  | .keep_alive => if !self.handling ∧ self._ka_handle then some self._keep_alive else none

end Steps

/-! ### What a step can do -/

/-- Every step, with what it asks of the client. -/
inductive Steps (package : Package) (self : LinuxClient) : Event → LinuxClient → Prop where
  | connect (fd : Nat) (inProgress : Bool) :
      Steps package self (.connect fd inProgress) (self.connect fd inProgress)
  | writable (fd : Nat) (connection : Connection) (writer : fd ∈ self.writers) :
      Steps package self (.writable fd connection) (self._connection_made connection)
  | readable (fd : Nat) (recv : Recv) (reader : fd ∈ self.readers) :
      Steps package self (.readable fd recv) (self._data_ready recv)
  | turn (closes : Bool) (inside : self.handling = true) :
      Steps package self (.turn closes) (self.turn package closes)
  | close : Steps package self .close self.close
  | send_message (msg_ids : List Nat) :
      Steps package self (.send_message msg_ids) (self.send_message msg_ids)
  | keep_alive : Steps package self .keep_alive self._keep_alive

theorem steps_of_step {package : Package} {self after : LinuxClient} {event : Event}
    (taken : self.step package event = some after) : Steps package self event after := by
  cases event with
  | connect fd inProgress =>
      simp only [step, Option.ite_none_left_eq_some, Option.some.injEq] at taken
      rw [← taken.2]
      exact .connect fd inProgress
  | writable fd connection =>
      simp only [step, Option.ite_none_right_eq_some, Option.some.injEq] at taken
      rw [← taken.2]
      exact .writable fd connection taken.1.2
  | readable fd recv =>
      simp only [step, Option.ite_none_right_eq_some, Option.some.injEq] at taken
      rw [← taken.2]
      exact .readable fd recv taken.1.2
  | turn closes =>
      simp only [step, Option.ite_none_right_eq_some, Option.some.injEq] at taken
      rw [← taken.2]
      exact .turn closes taken.1
  | close =>
      simp only [step, Option.ite_none_left_eq_some, Option.some.injEq] at taken
      rw [← taken.2]
      exact .close
  | send_message msg_ids =>
      simp only [step, Option.ite_none_left_eq_some, Option.some.injEq] at taken
      rw [← taken.2]
      exact .send_message msg_ids
  | keep_alive =>
      simp only [step, Option.ite_none_right_eq_some, Option.some.injEq] at taken
      rw [← taken.2]
      exact .keep_alive

/-! ### The registrations -/

/-- The socket is registered as a reader exactly in `CONNECTED`, and what is registered is
the socket. -/
def Registered (self : LinuxClient) : Prop :=
  (self.state = .CONNECTED ↔ ∃ fd, self._sock = some fd ∧ fd ∈ self.readers) ∧
    ∀ fd, fd ∈ self.readers ∨ fd ∈ self.writers → self._sock = some fd

def Unregistered (self : LinuxClient) : Prop := self.readers = ∅ ∧ self.writers = ∅

/-- `close` is not called while anything is registered, from outside or from a callback, and
the heartbeat of a new connection is sent. -/
def Heeds (package : Package) (self : LinuxClient) : Event → Prop
  | .close => self.Unregistered
  | .turn closes =>
      ∀ p, Message.allfrombytes package self._buf false = .ok (some p) → self.Called p →
        closes = true → self.Unregistered
  | .writable _ (.made sent) => sent = true
  | _ => True

/-- The four states, with what is open and registered in each: nothing rests in
`CLOSING`. -/
inductive Proper (self : LinuxClient) : Prop where
  | closed (state : self.state = .CLOSED) (sock : self._sock = none)
      (readers : self.readers = ∅) (writers : self.writers = ∅)
  | connecting (fd : Nat) (state : self.state = .CONNECTING) (sock : self._sock = some fd)
      (readers : self.readers = ∅) (writers : self.writers ⊆ {fd})
  | connected (fd : Nat) (state : self.state = .CONNECTED) (sock : self._sock = some fd)
      (readers : self.readers = {fd}) (writers : self.writers = ∅)

variable {package : Package} {self after : LinuxClient} {event : Event}

theorem Proper.registered (proper : self.Proper) : self.Registered := by
  cases proper with
  | closed state sock readers writers => simp [Registered, state, sock, readers, writers]
  | connecting fd state sock readers writers =>
      constructor
      · simp [state, readers]
      · intro other registered
        rw [readers] at registered
        cases registered with
        | inl reader => cases reader
        | inr writer => rw [sock, Finset.mem_singleton.mp (writers writer)]
  | connected fd state sock readers writers =>
      simp [Registered, state, sock, readers, writers, eq_comm]

theorem Proper.connect (proper : self.Proper) (fd : Nat) (inProgress : Bool) :
    (self.connect fd inProgress).Proper := by
  unfold LinuxClient.connect
  cases proper with
  | closed state sock readers writers =>
      rw [state]
      dsimp only
      cases inProgress with
      | false => exact .connecting fd rfl rfl readers (by simp [async_connect, writers])
      | true => exact .connecting fd rfl rfl readers (by simp [async_connect, writers])
  | connecting own state sock readers writers =>
      rw [state]
      dsimp only
      unfold async_connect
      rw [sock]
      cases inProgress with
      | false => exact .connecting own state sock readers writers
      | true =>
          have inserted := Finset.insert_subset (Finset.mem_singleton_self own) writers
          exact .connecting own state rfl readers inserted
  | connected own state sock readers writers =>
      rw [state]
      exact .connected own state sock readers writers

/-- `_close` leaves the client closed, without its socket. -/
theorem base_close_of_open (opened : self.state ≠ .CLOSED) :
    self.base_close =
      { self with
        state := .CLOSED, _sock := none, _waited_response := [], _ka_handle := false } :=
  if_neg opened

/-- A connection that the peer closes is unregistered. -/
theorem proper_close_connected {fd : Nat} (state : self.state = .CONNECTED)
    (sock : self._sock = some fd) (readers : self.readers = {fd}) (writers : self.writers = ∅) :
    self._close.Proper := by
  have closes : self._close = ({ self with readers := self.readers.erase fd }).base_close := by
    rw [_close, state, sock]
  rw [closes, base_close_of_open (by simp [state])]
  exact .closed rfl rfl (by simp [readers]) writers

theorem _close_of_not_connected (other : self.state ≠ .CONNECTED) :
    self._close = self.base_close := by
  unfold _close
  split
  next state _ => exact absurd state other
  next => rfl

/-- `close` leaves what is registered as it is. -/
theorem close_of_open (opened : self.state = .CONNECTING ∨ self.state = .CONNECTED) :
    self.close =
      { self with
        state := .CLOSED, _sock := none, _waited_response := [], _ka_handle := false } := by
  unfold close
  cases opened with
  | inl state =>
      rw [state]
      dsimp only
      rw [_close_of_not_connected (by simp), base_close_of_open (by simp)]
  | inr state =>
      rw [state]
      dsimp only
      rw [_close_of_not_connected (by simp), base_close_of_open (by simp)]

theorem close_of_closed (state : self.state = .CLOSED) : self.close = self := by
  unfold close
  rw [state]

theorem Proper.close (proper : self.Proper) (unregistered : self.Unregistered) :
    self.close.Proper := by
  cases proper with
  | closed state sock readers writers =>
      rw [close_of_closed state]
      exact .closed state sock readers writers
  | connecting fd state sock readers writers =>
      rw [close_of_open (.inl state)]
      exact .closed rfl rfl readers unregistered.2
  | connected fd state sock readers writers =>
      rw [close_of_open (.inr state)]
      exact .closed rfl rfl unregistered.1 writers

/-- What is registered without a socket is left over. -/
theorem Proper.unregistered_of_close (proper : self.Proper) (registered : self.close.Registered) :
    self.Unregistered := by
  have none_of_open (opened : self.state = .CONNECTING ∨ self.state = .CONNECTED) :
      self.Unregistered := by
    rw [close_of_open opened] at registered
    constructor
    · apply Finset.eq_empty_of_forall_notMem
      intro fd reader
      cases registered.2 fd (.inl reader)
    · apply Finset.eq_empty_of_forall_notMem
      intro fd writer
      cases registered.2 fd (.inr writer)
  cases proper with
  | closed state sock readers writers => exact ⟨readers, writers⟩
  | connecting fd state => exact none_of_open (.inl state)
  | connected fd state => exact none_of_open (.inr state)

/-- Only a client in `CONNECTING` has a writer, and it is the socket's. -/
theorem Proper.of_writer {fd : Nat} (proper : self.Proper) (writer : fd ∈ self.writers) :
    self.state = .CONNECTING ∧ self._sock = some fd ∧ self.readers = ∅ ∧ self.writers ⊆ {fd} := by
  cases proper with
  | closed state sock readers writers =>
      rw [writers] at writer
      cases writer
  | connected own state sock readers writers =>
      rw [writers] at writer
      cases writer
  | connecting own state sock readers writers =>
      rw [Finset.mem_singleton.mp (writers writer)]
      exact ⟨state, sock, readers, writers⟩

/-- Only a client in `CONNECTED` has a reader, and it is the socket's. -/
theorem Proper.of_reader {fd : Nat} (proper : self.Proper) (reader : fd ∈ self.readers) :
    self.state = .CONNECTED ∧ self._sock = some fd ∧ self.readers = {fd} ∧ self.writers = ∅ := by
  cases proper with
  | closed state sock readers writers =>
      rw [readers] at reader
      cases reader
  | connecting own state sock readers writers =>
      rw [readers] at reader
      cases reader
  | connected own state sock readers writers =>
      have same := reader
      rw [readers, Finset.mem_singleton] at same
      rw [same]
      exact ⟨state, sock, readers, writers⟩

theorem Proper._connection_made {fd : Nat} (proper : self.Proper) (writer : fd ∈ self.writers)
    {connection : Connection} (sent : connection ≠ .made false) :
    (self._connection_made connection).Proper := by
  obtain ⟨state, sock, readers, writers⟩ := proper.of_writer writer
  have erased : self.writers.erase fd = ∅ := by
    rw [← Finset.subset_empty, ← Finset.erase_singleton fd]
    exact Finset.erase_subset_erase fd writers
  unfold LinuxClient._connection_made
  rw [sock]
  dsimp only
  cases connection with
  | failed =>
      dsimp only
      rw [_close_of_not_connected (by simp [state]), base_close_of_open (by simp [state])]
      exact .closed rfl rfl readers erased
  | made made =>
      cases made with
      | false => exact absurd rfl sent
      | true =>
          simp only [state, reduceCtorEq, if_false, if_true, LinuxClient._keep_alive, ne_eq,
            not_true_eq_false]
          exact .connected fd rfl rfl (by simp [readers]) erased

/-- Where the heartbeat is not sent, the connected socket is not registered. -/
theorem Proper.not_registered_unsent {fd : Nat} (proper : self.Proper)
    (writer : fd ∈ self.writers) : ¬ (self._connection_made (.made false)).Registered := by
  obtain ⟨state, sock, readers, -⟩ := proper.of_writer writer
  intro registered
  simp [Registered, LinuxClient._connection_made, sock, state, LinuxClient._keep_alive,
    readers] at registered

theorem Proper._data_ready {fd : Nat} (proper : self.Proper) (reader : fd ∈ self.readers)
    (recv : Recv) : (self._data_ready recv).Proper := by
  obtain ⟨state, sock, readers, writers⟩ := proper.of_reader reader
  unfold LinuxClient._data_ready
  rw [sock]
  cases recv with
  | raises => exact proper
  | data data =>
      dsimp only
      split
      next => exact proper_close_connected state sock readers writers
      next => exact .connected fd state rfl readers writers

/-! ### The turns of `_handle_data` -/

/-- What nothing of the registrations depends on. -/
theorem Proper.of_eq (proper : self.Proper) (state : after.state = self.state)
    (sock : after._sock = self._sock) (readers : after.readers = self.readers)
    (writers : after.writers = self.writers) : after.Proper := by
  cases proper with
  | closed isState isSock isReaders isWriters =>
      exact .closed (state.trans isState) (sock.trans isSock) (readers.trans isReaders)
        (writers.trans isWriters)
  | connecting fd isState isSock isReaders isWriters =>
      exact .connecting fd (state.trans isState) (sock.trans isSock) (readers.trans isReaders)
        (writers ▸ isWriters)
  | connected fd isState isSock isReaders isWriters =>
      exact .connected fd (state.trans isState) (sock.trans isSock) (readers.trans isReaders)
        (writers.trans isWriters)

theorem Proper.handle_message (proper : self.Proper) {p : Message} {closes : Bool}
    (unregistered : self.Called p → closes = true → self.Unregistered) :
    (self.handle_message p closes).Proper := by
  have waited : (self.remove_waited p).Proper := proper.of_eq rfl rfl rfl rfl
  have delivered : ((self.remove_waited p).message_callback p).Proper :=
    waited.of_eq rfl rfl rfl rfl
  unfold LinuxClient.handle_message
  split
  next called =>
    cases closes with
    | false => exact delivered
    | true => exact delivered.close (unregistered called rfl)
  next => exact waited

theorem Proper.turn (proper : self.Proper) {closes : Bool}
    (heeds : self.Heeds package (.turn closes)) : (self.turn package closes).Proper := by
  unfold LinuxClient.turn
  split
  next => exact proper.of_eq rfl rfl rfl rfl
  next => exact proper.of_eq rfl rfl rfl rfl
  next p parsed =>
    exact (proper.handle_message (heeds p parsed)).of_eq rfl rfl rfl rfl

/-- A callback that closes what is registered leaves it over. -/
theorem Proper.unregistered_of_turn (proper : self.Proper) {p : Message}
    (parsed : Message.allfrombytes package self._buf false = .ok (some p)) (called : self.Called p)
    (registered : (self.turn package true).Registered) : self.Unregistered := by
  have delivered : ((self.remove_waited p).message_callback p).Proper :=
    proper.of_eq rfl rfl rfl rfl
  have closes : self.handle_message p true =
      ((self.remove_waited p).message_callback p).close := if_pos called
  rw [LinuxClient.turn, parsed] at registered
  dsimp only at registered
  rw [closes] at registered
  exact delivered.unregistered_of_close registered

/-! ### Every run -/

theorem Proper.step (proper : self.Proper) (heeds : self.Heeds package event)
    (taken : self.step package event = some after) : after.Proper := by
  cases steps_of_step taken with
  | connect fd inProgress => exact proper.connect fd inProgress
  | writable fd connection writer =>
      apply proper._connection_made writer
      rintro rfl
      cases heeds
  | readable fd recv reader => exact proper._data_ready reader recv
  | turn closes => exact proper.turn heeds
  | close => exact proper.close heeds
  | send_message => exact proper.of_eq rfl rfl rfl rfl
  | keep_alive =>
      unfold LinuxClient._keep_alive
      split
      next => exact proper
      next => exact proper.of_eq rfl rfl rfl rfl

/-- What does not heed leaves a registration that does not follow the state. -/
theorem Proper.heeds_of_registered (proper : self.Proper)
    (taken : self.step package event = some after) (registered : after.Registered) :
    self.Heeds package event := by
  cases steps_of_step taken with
  | connect => trivial
  | readable => trivial
  | send_message => trivial
  | keep_alive => trivial
  | writable fd connection writer =>
      cases connection with
      | failed => trivial
      | made sent =>
          cases sent with
          | true => rfl
          | false => exact absurd registered (proper.not_registered_unsent writer)
  | turn closes =>
      rintro p parsed called rfl
      exact proper.unregistered_of_turn parsed called registered
  | close => exact proper.unregistered_of_close registered

/-- Along any run the registrations follow the state exactly if `close` is never called while
anything is registered and the heartbeat of every new connection is sent. -/
theorem visits_registered_iff (package : Package) (events : List Event) :
    Visits (step package) Registered {} events ↔ Along (step package) (Heeds package) {} events := by
  refine visits_iff_along_of (fun _ proper => Proper.registered proper) ?_ ?_ ?_
  · intro self event after proper heeds taken
    exact proper.step heeds taken
  · intro self event after proper taken registered
    exact proper.heeds_of_registered taken registered
  · exact .closed rfl rfl rfl rfl

/-- A connected client that the user closes: the descriptor of its socket is still
registered. -/
theorem not_registered_close :
    ¬ Visits (step (Ouou.package asciiHost)) Registered {}
      [.connect 3 true, .writable 3 (.made true), .close] := by
  intro visits
  have reached : (follow (step (Ouou.package asciiHost)) {}
      [.connect 3 true, .writable 3 (.made true), .close]).map
      (fun self => (self._sock, self.readers)) = some (none, {3}) := by
    decide
  obtain ⟨self, followed, seen⟩ := Option.map_eq_some_iff.mp reached
  obtain ⟨sock, readers⟩ := Prod.mk.inj seen
  have reader : 3 ∈ self.readers := by
    rw [readers]
    exact Finset.mem_singleton_self 3
  have opened := (visits.reached followed).2 3 (.inl reader)
  rw [sock] at opened
  cases opened

end LinuxClient

end StdPrograms.Ouou

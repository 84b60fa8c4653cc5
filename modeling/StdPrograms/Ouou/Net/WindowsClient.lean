import StdPrograms.Ouou.Net.LinuxClient

/-!
Contract: sends and receives in flight in `net/windows_client.py`.

One label is one callback of the event loop, one turn of the loop in `_handle_data`, or one call of
the user; between two turns such a call is one that the message callback makes. Owns the
operations that the client has started, each with the socket that it was started on, that a client
that waits for a message has one in flight, and how many there come to be: `_data_sent` starts a
receive for every send, and a receive is only given up where nothing is waited for.

A connect may have succeeded before its socket was closed: its callback then makes the client
connected, with whatever socket it has, or with none. Callbacks return, and a state callback calls
nothing of the client but `send_message`: it does so before the state changes, like a call in front
of the step. Does not own what is received, or the order of the receives.
-/

namespace StdPrograms.Ouou

open StdPrograms.Foundation

structure WindowsClient where
  state : ConnectionState := .CLOSED
  /-- The file descriptor of `_sock`. -/
  _sock : Option Nat := none
  _buf : Bytes := []
  _waited_response : List Nat := []
  _waited_push : Finset Nat := ∅
  /-- The event loop has a call of `_keep_alive` to make. -/
  _ka_handle : Bool := false
  /-- The sockets of the operations whose callbacks have not run. -/
  connects : List Nat := []
  sends : List Nat := []
  recvs : List Nat := []
  /-- `_handle_data` is in its loop. -/
  handling : Bool := false
  /-- It has raised an exception since `connect` opened a socket. -/
  raised : Bool := false

/-- What may happen next. `fd` is the descriptor of a new socket, or the one of the operation whose
callback runs; a message to send has an identifier, and may ask for a push. -/
inductive WindowsEvent where
  | connect (fd : Nat)
  | connected (fd : Nat) (succeeds : Bool)
  | sent (fd : Nat)
  | received (fd : Nat) (recv : Recv)
  | turn
  | keep_alive
  | close
  | send_message (msgs : List (Nat × Bool))
deriving DecidableEq, Repr

namespace WindowsClient

/-! ### The calls -/

def is_waiting_for_push (self : WindowsClient) : Bool := self._waited_push ≠ ∅

def is_waiting_for_response (self : WindowsClient) : Bool := self._waited_response ≠ []

def is_waiting_for_msg (self : WindowsClient) : Bool :=
  self.is_waiting_for_push || self.is_waiting_for_response

/-- `async_connect`, which starts an operation on the socket. -/
def async_connect (self : WindowsClient) : WindowsClient :=
  match self._sock with
  | none => self
  | some fd => { self with connects := fd :: self.connects }

/-- `async_send_data`. Without a socket it raises an exception. -/
def async_send_data (self : WindowsClient) : WindowsClient :=
  match self._sock with
  | none => self
  | some fd => { self with sends := fd :: self.sends }

/-- `sock_recv` with `_data_received` as its callback. Without a socket it raises an exception. -/
def receive (self : WindowsClient) : WindowsClient :=
  match self._sock with
  | none => self
  | some fd => { self with recvs := fd :: self.recvs }

/-- `connect`. A client that is connected raises an exception. -/
def connect (self : WindowsClient) (fd : Nat) : WindowsClient :=
  match self.state with
  | .CONNECTED => self
  | .CONNECTING => self.async_connect
  | .CLOSED | .CLOSING =>
      { self with state := .CONNECTING, _sock := some fd, raised := false }.async_connect

/-- `_close`. Without a socket it raises an exception, once the state has changed. -/
def _close (self : WindowsClient) : WindowsClient :=
  if self.state = .CLOSED then self
  else
    match self._sock with
    | none => { self with state := .CLOSED }
    | some _ =>
        { self with
          state := .CLOSED, _sock := none, _waited_response := [], _waited_push := ∅
          _ka_handle := false }

def close (self : WindowsClient) : WindowsClient :=
  match self.state with
  | .CLOSING | .CLOSED => self
  | .CONNECTING | .CONNECTED => { self with state := .CLOSING }._close

/-- `_keep_alive`, which sends a heartbeat. -/
def _keep_alive (self : WindowsClient) : WindowsClient :=
  if self.state ≠ .CONNECTED then self else { self with _ka_handle := true }.async_send_data

def _connection_made (self : WindowsClient) (succeeds : Bool) : WindowsClient :=
  if succeeds then
    if self.state = .CONNECTED then self else { self with state := .CONNECTED }._keep_alive
  else self._close

/-- `_data_sent`, which does not look at the result. -/
def _data_sent (self : WindowsClient) : WindowsClient := self.receive

/-- The last statement of `_data_received`. -/
def receive_more (self : WindowsClient) : WindowsClient :=
  if self.is_waiting_for_msg then self.receive else self

/-- `_data_received`, up to the loop of `_handle_data`. Where `_close` raises an exception there is
no socket, and `receive_more` would do nothing. -/
def _data_received (self : WindowsClient) (recv : Recv) : WindowsClient :=
  match recv with
  | .raises => self._close
  | .data data =>
      if data.isEmpty then self._close.receive_more
      else { self with _buf := self._buf ++ data, handling := true }

def _add_waited_message (self : WindowsClient) (msg : Nat × Bool) : WindowsClient :=
  { self with
    _waited_response := self._waited_response ++ [msg.1]
    _waited_push := if msg.2 then insert msg.1 self._waited_push else self._waited_push }

/-- `send_message`. Without a message its assertion fails. -/
def send_message (self : WindowsClient) (msgs : List (Nat × Bool)) : WindowsClient :=
  if msgs.isEmpty then self else (msgs.foldl _add_waited_message self).async_send_data

/-- `handle_message`, up to the callback. -/
def handle_message (self : WindowsClient) (msg : Message) : WindowsClient :=
  { self with
    _waited_response :=
      if !msg.is_push_msg && msg.header.msg_id ∈ self._waited_response then
        self._waited_response.erase msg.header.msg_id
      else self._waited_response }

section Steps

variable (package : Package)

/-- One turn of the loop in `_handle_data`, and where it ends, what follows in `_data_received`. -/
def turn (self : WindowsClient) : WindowsClient :=
  match Message.allfrombytes package self._buf false with
  | .error _ => { self with handling := false, raised := true }
  | .ok none => { self with handling := false }.receive_more
  | .ok (some p) => { self.handle_message p with _buf := self._buf.drop p.size }

def step (self : WindowsClient) : WindowsEvent → Option WindowsClient
  | .connect fd => some (self.connect fd)
  | .connected fd succeeds =>
      if !self.handling ∧ fd ∈ self.connects then
        some ({ self with connects := self.connects.erase fd }._connection_made succeeds)
      else none
  | .sent fd =>
      if !self.handling ∧ fd ∈ self.sends then
        some { self with sends := self.sends.erase fd }._data_sent
      else none
  | .received fd recv =>
      if !self.handling ∧ fd ∈ self.recvs then
        some ({ self with recvs := self.recvs.erase fd }._data_received recv)
      else none
  | .turn => if self.handling then some (self.turn package) else none
  | .keep_alive => if !self.handling ∧ self._ka_handle then some self._keep_alive else none
  | .close => some self.close
  | .send_message msgs => some (self.send_message msgs)

end Steps

/-! ### What a step can do -/

/-- Every step, with what it asks of the client. -/
inductive Steps (package : Package) (self : WindowsClient) :
    WindowsEvent → WindowsClient → Prop where
  | connect (fd : Nat) : Steps package self (.connect fd) (self.connect fd)
  | connected (fd : Nat) (succeeds : Bool) (started : fd ∈ self.connects) :
      Steps package self (.connected fd succeeds)
        ({ self with connects := self.connects.erase fd }._connection_made succeeds)
  | sent (fd : Nat) (outside : self.handling = false) (started : fd ∈ self.sends) :
      Steps package self (.sent fd) { self with sends := self.sends.erase fd }._data_sent
  | received (fd : Nat) (recv : Recv) (outside : self.handling = false)
      (started : fd ∈ self.recvs) :
      Steps package self (.received fd recv)
        ({ self with recvs := self.recvs.erase fd }._data_received recv)
  | turn (inside : self.handling = true) : Steps package self .turn (self.turn package)
  | keep_alive : Steps package self .keep_alive self._keep_alive
  | close : Steps package self .close self.close
  | send_message (msgs : List (Nat × Bool)) :
      Steps package self (.send_message msgs) (self.send_message msgs)

variable {package : Package} {self after : WindowsClient} {event : WindowsEvent}

theorem steps_of_step (taken : self.step package event = some after) :
    Steps package self event after := by
  cases event with
  | connect fd =>
      cases taken
      exact .connect fd
  | connected fd succeeds =>
      simp only [step, Option.ite_none_right_eq_some, Option.some.injEq] at taken
      rw [← taken.2]
      exact .connected fd succeeds taken.1.2
  | sent fd =>
      simp only [step, Option.ite_none_right_eq_some, Option.some.injEq] at taken
      rw [← taken.2]
      exact .sent fd (by simpa using taken.1.1) taken.1.2
  | received fd recv =>
      simp only [step, Option.ite_none_right_eq_some, Option.some.injEq] at taken
      rw [← taken.2]
      exact .received fd recv (by simpa using taken.1.1) taken.1.2
  | turn =>
      simp only [step, Option.ite_none_right_eq_some, Option.some.injEq] at taken
      rw [← taken.2]
      exact .turn taken.1
  | keep_alive =>
      simp only [step, Option.ite_none_right_eq_some, Option.some.injEq] at taken
      rw [← taken.2]
      exact .keep_alive
  | close =>
      cases taken
      exact .close
  | send_message msgs =>
      cases taken
      exact .send_message msgs

/-! ### Somebody answers -/

/-- A send or a receive on the present socket has been started, and its callback has not run. -/
def InFlight (self : WindowsClient) : Prop :=
  ∃ fd, self._sock = some fd ∧ (fd ∈ self.sends ∨ fd ∈ self.recvs)

/-- A connected client that has a socket and waits for a message is in its loop, or an operation is
in flight. -/
def Served (client : WindowsClient) : Prop :=
  client.state = .CONNECTED → client._sock ≠ none → client.raised = false →
    client.is_waiting_for_msg = true → client.handling = true ∨ client.InFlight

theorem Served.of_other {self : WindowsClient} (other : self.state ≠ .CONNECTED) : self.Served :=
  fun connected => absurd connected other

theorem _close_state (self : WindowsClient) : self._close.state = .CLOSED := by
  unfold _close
  split
  next closed => exact closed
  next => split <;> rfl

@[simp] theorem receive_state (self : WindowsClient) : self.receive.state = self.state := by
  unfold receive
  split <;> rfl

@[simp] theorem receive_sock (self : WindowsClient) : self.receive._sock = self._sock := by
  unfold receive
  split <;> rfl

@[simp] theorem receive_more_state (self : WindowsClient) :
    self.receive_more.state = self.state := by
  unfold receive_more
  split <;> simp

@[simp] theorem receive_more_sock (self : WindowsClient) :
    self.receive_more._sock = self._sock := by
  unfold receive_more
  split <;> simp

@[simp] theorem async_send_data_state (self : WindowsClient) :
    self.async_send_data.state = self.state := by
  unfold async_send_data
  split <;> rfl

@[simp] theorem async_send_data_sock (self : WindowsClient) :
    self.async_send_data._sock = self._sock := by
  unfold async_send_data
  split <;> rfl

theorem served_async_send_data (self : WindowsClient) : self.async_send_data.Served := by
  unfold async_send_data
  split
  next missing => exact fun _ present => absurd missing present
  next fd present => exact fun _ _ _ _ => .inr ⟨fd, present, .inl List.mem_cons_self⟩

theorem served_receive (self : WindowsClient) : self.receive.Served := by
  unfold receive
  split
  next missing => exact fun _ present => absurd missing present
  next fd present => exact fun _ _ _ _ => .inr ⟨fd, present, .inr List.mem_cons_self⟩

theorem served_receive_more (self : WindowsClient) : self.receive_more.Served := by
  unfold receive_more
  split
  next => exact served_receive self
  next idle => exact fun _ _ _ waiting => absurd waiting idle

theorem served_close (self : WindowsClient) : self._close.Served :=
  .of_other (by simp [_close_state])

theorem Served.connect (served : self.Served) (fd : Nat) : (self.connect fd).Served := by
  unfold WindowsClient.connect async_connect
  split
  next => exact served
  next connecting =>
    split
    next => exact served
    next fd present => exact .of_other (by simp [connecting])
  all_goals exact .of_other nofun

theorem Served.keep_alive (served : self.Served) : self._keep_alive.Served := by
  unfold _keep_alive
  split
  next => exact served
  next => exact served_async_send_data _

theorem Served.connection_made (served : self.Served) (succeeds : Bool) :
    (self._connection_made succeeds).Served := by
  unfold _connection_made
  split
  next =>
    split
    next => exact served
    next =>
      rw [_keep_alive, if_neg (by simp)]
      exact served_async_send_data _
  next => exact served_close self

theorem served_data_received (self : WindowsClient) (recv : Recv) :
    (self._data_received recv).Served := by
  unfold _data_received
  split
  next => exact served_close self
  next data =>
    split
    next => exact served_receive_more _
    next => exact fun _ _ _ _ => .inl rfl

theorem served_turn (inside : self.handling = true) : (self.turn package).Served := by
  unfold turn
  split
  next => exact fun _ _ parsed => nomatch parsed
  next => exact served_receive_more _
  next => exact fun _ _ _ _ => .inl inside

theorem Served.close (served : self.Served) : self.close.Served := by
  unfold WindowsClient.close
  split
  next => exact served
  next => exact served
  all_goals exact served_close _

theorem Served.send_message (served : self.Served) (msgs : List (Nat × Bool)) :
    (self.send_message msgs).Served := by
  unfold WindowsClient.send_message
  split
  next => exact served
  next => exact served_async_send_data _

theorem Served.step (served : self.Served) (taken : self.step package event = some after) :
    after.Served := by
  cases steps_of_step taken with
  | connect fd => exact served.connect fd
  | connected fd succeeds started =>
      apply Served.connection_made
      exact served
  | sent fd outside started => exact served_receive _
  | received fd recv outside started => exact served_data_received _ recv
  | turn inside => exact served_turn inside
  | keep_alive => exact served.keep_alive
  | close => exact served.close
  | send_message msgs => exact served.send_message msgs

/-! ### A socket -/

/-- A client that is not closed has a socket. -/
def Opened (self : WindowsClient) : Prop := self.state = .CLOSED ∨ self._sock ≠ none

/-- A connect does not succeed on a client that is closed. -/
def InTime (self : WindowsClient) : WindowsEvent → Prop
  | .connected _ succeeds => succeeds = true → self.state ≠ .CLOSED
  | _ => True

theorem Opened.connect (opened : self.Opened) (fd : Nat) : (self.connect fd).Opened := by
  unfold WindowsClient.connect async_connect
  split
  next => exact opened
  next =>
    split
    next => exact opened
    next fd present => exact .inr (by simp [present])
  all_goals exact .inr (by simp)

theorem Opened.keep_alive (opened : self.Opened) : self._keep_alive.Opened := by
  unfold _keep_alive
  split
  next => exact opened
  next => simpa [Opened] using opened

theorem opened_close (self : WindowsClient) : self._close.Opened := .inl self._close_state

theorem Opened.connection_made (opened : self.Opened) {succeeds : Bool}
    (inTime : succeeds = true → self.state ≠ .CLOSED) :
    (self._connection_made succeeds).Opened := by
  unfold _connection_made
  split
  next made =>
    split
    next => exact opened
    next =>
      apply Opened.keep_alive
      exact .inr (opened.resolve_left (inTime made))
  next => exact opened_close self

theorem Opened.data_received (opened : self.Opened) (recv : Recv) :
    (self._data_received recv).Opened := by
  unfold _data_received
  split
  next => exact opened_close self
  next =>
    split
    next => simp [Opened, _close_state]
    next => exact opened

theorem Opened.turn (opened : self.Opened) : (self.turn package).Opened := by
  unfold WindowsClient.turn
  split
  next => exact opened
  next => simpa [Opened] using opened
  next => exact opened

theorem Opened.close (opened : self.Opened) : self.close.Opened := by
  unfold WindowsClient.close
  split
  next => exact opened
  next => exact opened
  all_goals exact opened_close _

theorem foldl_add_waited (msgs : List (Nat × Bool)) (self : WindowsClient) :
    (msgs.foldl _add_waited_message self).Opened ↔ self.Opened := by
  induction msgs generalizing self with
  | nil => rfl
  | cons msg rest inductionHypothesis => exact inductionHypothesis _

theorem Opened.send_message (opened : self.Opened) (msgs : List (Nat × Bool)) :
    (self.send_message msgs).Opened := by
  unfold WindowsClient.send_message
  split
  next => exact opened
  next => simpa [Opened] using (foldl_add_waited msgs self).mpr opened

theorem Opened.step (opened : self.Opened) (inTime : self.InTime event)
    (taken : self.step package event = some after) : after.Opened := by
  cases steps_of_step taken with
  | connect fd => exact opened.connect fd
  | connected fd succeeds started =>
      refine Opened.connection_made ?_ inTime
      exact opened
  | sent fd outside started => simpa [Opened, _data_sent] using opened
  | received fd recv outside started =>
      apply Opened.data_received
      exact opened
  | turn inside => exact opened.turn
  | keep_alive => exact opened.keep_alive
  | close => exact opened.close
  | send_message msgs => exact opened.send_message msgs

/-- A connect that succeeds after `close`: the client is connected and has no socket. -/
example :
    (follow (step (StdPrograms.Ouou.package asciiHost)) {}
      [.connect 3, .close, .connected 3 true]).map (fun client => (client.state, client._sock)) =
        some (.CONNECTED, none) :=
  rfl

/-! ### How many there come to be -/

/-- The operations whose callbacks have not come to their end. -/
def outstanding (self : WindowsClient) : Nat :=
  self.sends.length + self.recvs.length + self.handling.toNat

/-- The client starts a send. -/
def isSend : WindowsEvent → Bool
  | .keep_alive => true
  | .send_message msgs => !msgs.isEmpty
  | _ => false

/-- A push is waited for, and there is a socket. -/
structure Subscribed (client : WindowsClient) : Prop where
  socket : ∃ fd, client._sock = some fd
  push : client._waited_push ≠ ∅

/-- The client is connected and has raised nothing. -/
structure Steady (client : WindowsClient) : Prop where
  connected : client.state = .CONNECTED
  parsed : client.raised = false

theorem Subscribed.async_send_data (subscribed : self.Subscribed) :
    self.async_send_data.outstanding = self.outstanding + 1 ∧
      self.async_send_data.Subscribed := by
  obtain ⟨⟨fd, socket⟩, push⟩ := subscribed
  constructor
  · simp only [WindowsClient.async_send_data, socket, outstanding, List.length_cons]
    omega
  · simp only [WindowsClient.async_send_data, socket]
    exact ⟨⟨fd, rfl⟩, push⟩

theorem Subscribed.receive (subscribed : self.Subscribed) :
    self.receive.outstanding = self.outstanding + 1 ∧ self.receive.Subscribed := by
  obtain ⟨⟨fd, socket⟩, push⟩ := subscribed
  constructor
  · simp only [WindowsClient.receive, socket, outstanding, List.length_cons]
    omega
  · simp only [WindowsClient.receive, socket]
    exact ⟨⟨fd, rfl⟩, push⟩

theorem Subscribed.receive_more (subscribed : self.Subscribed) :
    self.receive_more.outstanding = self.outstanding + 1 ∧ self.receive_more.Subscribed := by
  have waiting : self.is_waiting_for_msg = true := by
    simp [is_waiting_for_msg, is_waiting_for_push, subscribed.push]
  rw [WindowsClient.receive_more, if_pos waiting]
  exact subscribed.receive

theorem not_steady_close (self : WindowsClient) : ¬ self._close.Steady := by
  intro steady
  exact absurd (self._close_state.symm.trans steady.connected) nofun

theorem length_erase_succ {fd : Nat} {list : List Nat} (member : fd ∈ list) :
    (list.erase fd).length + 1 = list.length := by
  rw [List.length_erase_of_mem member]
  exact Nat.sub_add_cancel (List.length_pos_of_mem member)

theorem foldl_add_subscribed (msgs : List (Nat × Bool)) (subscribed : self.Subscribed) :
    (msgs.foldl _add_waited_message self).Subscribed ∧
      (msgs.foldl _add_waited_message self).outstanding = self.outstanding := by
  induction msgs generalizing self with
  | nil => exact ⟨subscribed, rfl⟩
  | cons msg rest inductionHypothesis =>
      apply inductionHypothesis
      refine ⟨subscribed.socket, ?_⟩
      unfold _add_waited_message
      split
      next => exact Finset.insert_ne_empty _ _
      next => exact subscribed.push

/-- One step of a client that stays connected: a send that has been sent becomes a receive, and a
receive becomes another one. -/
theorem Subscribed.step (subscribed : self.Subscribed) (steady : self.Steady)
    (taken : self.step package event = some after) (stays : after.Steady) :
    after.outstanding = self.outstanding + (isSend event).toNat ∧ after.Subscribed := by
  cases steps_of_step taken with
  | connect fd =>
      rw [WindowsClient.connect, steady.connected]
      exact ⟨rfl, subscribed⟩
  | connected fd succeeds started =>
      unfold _connection_made at stays ⊢
      rw [if_pos steady.connected] at stays ⊢
      split
      next => exact ⟨rfl, subscribed.socket, subscribed.push⟩
      next failed =>
        rw [if_neg failed] at stays
        exact absurd stays (not_steady_close _)
  | sent fd outside started =>
      have erased : ({ self with sends := self.sends.erase fd } : WindowsClient).Subscribed :=
        ⟨subscribed.socket, subscribed.push⟩
      have one := length_erase_succ started
      refine ⟨erased.receive.1.trans ?_, erased.receive.2⟩
      simp only [outstanding, isSend, Bool.toNat_false]
      omega
  | received fd recv outside started =>
      unfold _data_received at stays ⊢
      split at stays
      next => exact absurd stays (not_steady_close _)
      next data =>
        split at stays
        next =>
          have closed := stays.connected
          rw [receive_more_state, _close_state] at closed
          cases closed
        next nonempty =>
          have one := length_erase_succ started
          dsimp only
          rw [if_neg nonempty]
          simp only [outstanding, isSend, outside, Bool.toNat_false, Bool.toNat_true]
          exact ⟨by omega, subscribed.socket, subscribed.push⟩
  | turn inside =>
      unfold WindowsClient.turn at stays ⊢
      split at stays
      next => exact absurd stays.parsed nofun
      next =>
        have ended : ({ self with handling := false } : WindowsClient).Subscribed :=
          ⟨subscribed.socket, subscribed.push⟩
        refine ⟨ended.receive_more.1.trans ?_, ended.receive_more.2⟩
        simp [outstanding, isSend, inside]
      next => exact ⟨rfl, subscribed.socket, subscribed.push⟩
  | keep_alive =>
      rw [_keep_alive, if_neg (not_not.mpr steady.connected)]
      apply Subscribed.async_send_data
      exact ⟨subscribed.socket, subscribed.push⟩
  | close =>
      rw [WindowsClient.close, steady.connected] at stays
      exact absurd stays (not_steady_close _)
  | send_message msgs =>
      unfold WindowsClient.send_message
      split
      next none => exact ⟨by simp [isSend, none], subscribed⟩
      next some =>
        have added := foldl_add_subscribed msgs subscribed
        have sent := added.1.async_send_data
        rw [added.2] at sent
        exact ⟨by simp [isSend, some, sent.1], sent.2⟩

/-- A connected client that waits for a push. -/
def pushClient : WindowsClient where
  state := .CONNECTED
  _sock := some 3
  _waited_push := {1}
  _ka_handle := true
  sends := [3]

end WindowsClient

end StdPrograms.Ouou

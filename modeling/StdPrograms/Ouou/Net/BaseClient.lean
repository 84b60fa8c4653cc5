import StdPrograms.Ouou.Message.Message

/-!
Contract: the receiving half of `net/base_client.py`.

Owns the client's receive buffer, `handle_message`, the loop of `_handle_data`
that the event loop feeds chunk by chunk, and the blocking `recv_message` on a
socket with bytes pending.

A run that raises keeps the state it reached, so that what was handled before
the exception can be compared. Callbacks return.

Does not own connecting, closing from outside, timers or sending.
-/

namespace StdPrograms.Ouou

open StdPrograms.Foundation

/-- `HeartBeat.MSG_ID`. -/
def HEARTBEAT_ID : Nat := 5517

structure Client where
  buf : Bytes := []
  waited_response : List Nat := []
  /-- The messages `handle_message` was called with. -/
  handled : List Message := []
  /-- The messages that reached the callback. -/
  delivered : List Message := []
  closed : Bool := false

namespace Client

/-- `_close`, from a connected client. -/
def _close (self : Client) : Client :=
  if self.closed then self else { self with closed := true, waited_response := [] }

def handle_message (self : Client) (msg : Message) : Client :=
  let waiting : Bool := msg.header.msg_id ∈ self.waited_response
  { self with
    handled := self.handled ++ [msg]
    waited_response :=
      if !msg.is_push_msg && waiting then self.waited_response.erase msg.header.msg_id
      else self.waited_response
    delivered :=
      if msg.header.msg_id ≠ HEARTBEAT_ID || waiting then self.delivered ++ [msg]
      else self.delivered }

/-- One turn of the loop of `_handle_data`. -/
def turn (self : Client) (p : Message) : Client :=
  { self.handle_message p with buf := self.buf.drop p.size }

@[simp] theorem turn_buf (self : Client) (p : Message) :
    (self.turn p).buf = self.buf.drop p.size := rfl

@[simp] theorem turn_handled (self : Client) (p : Message) :
    (self.turn p).handled = self.handled ++ [p] := rfl

section EventLoop

variable (package : Package)

/-- The loop of `_handle_data`. Every message is at least a header long, so the
length of the buffer bounds the number of rounds. -/
def drain : Nat → Client → Client × Option PyError
  | 0, self => (self, none)
  | rounds + 1, self =>
      match Message.allfrombytes package self.buf false with
      | .error error => (self, some error)
      | .ok none => (self, none)
      | .ok (some p) => drain rounds (self.turn p)

def _handle_data (self : Client) (data : Bytes) : Client × Option PyError :=
  if data.isEmpty then (self._close, none)
  else
    let self := { self with buf := self.buf ++ data }
    drain package self.buf.length self

/-- The chunks one by one, up to an exception. -/
def feed : Client → List Bytes → Client × Option PyError
  | self, [] => (self, none)
  | self, data :: rest =>
      match _handle_data package self data with
      | (self, some error) => (self, some error)
      | (self, none) => feed self rest

end EventLoop

/-! ### The blocking path -/

/-- A socket: what is pending, and how much each `recv` is willing to return. -/
structure Socket where
  pending : Bytes
  grants : List Nat

namespace Socket

/-- `recv(n)`: at least one byte and at most `n`, as far as bytes are pending. -/
def recv (self : Socket) (n : Nat) : Bytes × Socket :=
  let granted := min n (max 1 (self.grants.headD n))
  (self.pending.take granted,
    { pending := self.pending.drop granted, grants := self.grants.tail })

/-- `recv_nbytes`, while bytes are pending; `none` where it would go on waiting. -/
def recv_nbytes (self : Socket) (n : Nat) : Option (Bytes × Socket) :=
  go n n self []
where
  go : Nat → Nat → Socket → Bytes → Option (Bytes × Socket)
    | 0, n, self, data => if data.length < n then none else some (data, self)
    | rounds + 1, n, self, data =>
        if data.length < n then
          let (received, self) := self.recv (n - data.length)
          go rounds n self (data ++ received)
        else some (data, self)

end Socket

/-- `recv_message`; `none` where it would go on waiting. -/
def recv_message (package : Package) (socket : Socket) :
    Option (Except PyError Message × Socket) := do
  let (head, socket) ← socket.recv_nbytes Header.type_size
  match (Reader.ofBytes head).decode (Header.fromstream false) with
  | .error error => return (.error error, socket)
  | .ok (header, _) =>
      let (body, socket) ← socket.recv_nbytes header.body_size
      return (Message.frombytes package body header, socket)

end Client

end StdPrograms.Ouou

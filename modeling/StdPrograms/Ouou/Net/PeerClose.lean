import StdPrograms.Ouou.Net.BlockingPath

/-!
Contract: `recv_message` on a socket whose peer closes.

Owns the two loops of `recv_message` for any number of rounds, where a `recv` without
pending bytes returns nothing, and when they end: a round without bytes leaves as many
missing as before, so that only a whole frame ends both.

Does not own what is decoded from a frame.
-/

namespace StdPrograms.Ouou

open StdPrograms.Foundation

namespace Client

/-- What a call of `recv_message` ends with. -/
inductive Received where
  | returned (message : Message)
  /-- `return None`. -/
  | nothing
  | raised (error : PyError)

def Received.ofExcept : Except PyError Message → Received
  | .ok message => .returned message
  | .error error => .raised error

/-- `recv_message`, with so many rounds for each of its loops; `none` where one of them
has not ended by then. -/
def recv_messageIn (rounds : Nat) (package : Package) (self : Client) (socket : Socket) :
    Option (Received × Client) := do
  let (head, socket) ← Socket.recv_nbytes.go rounds Header.type_size socket []
  if head.isEmpty then return (.nothing, self._close)
  else
    match (Reader.ofBytes head).decode (Header.fromstream false) with
    | .error error => return (.raised error, self)
    | .ok (header, _) =>
        let (body, _) ← Socket.recv_nbytes.go rounds header.body_size socket []
        return (.ofExcept (Message.frombytes package body header), self)

/-- What the peer sends begins with this header and this body. -/
structure WholeFrame (sent : Bytes) (header : Header) (body : Bytes) : Prop where
  decodes : ∃ after, (Reader.ofBytes (sent.take Header.type_size)).decode
    (Header.fromstream false) = .ok (header, after)
  whole : Header.type_size + header.body_size ≤ sent.length
  isBody : body = (sent.drop Header.type_size).take header.body_size

/-- The call ends, with the message of a whole frame, or closed and without one. -/
def Ends (package : Package) (self : Client) (socket : Socket) : Prop :=
  ∃ rounds received after,
    recv_messageIn rounds package self socket = some (received, after) ∧
      (∀ header body, WholeFrame socket.pending header body →
        received = .ofExcept (Message.frombytes package body header)) ∧
      ((¬ ∃ header body, WholeFrame socket.pending header body) →
        received = .nothing ∧ after = self._close)

/-! ### The loop of recv_nbytes -/

theorem Socket.recv_takes (socket : Socket) (n : Nat) :
    (socket.recv n).1.length ≤ n ∧ (socket.recv n).1 ++ (socket.recv n).2.pending = socket.pending := by
  constructor
  · rw [recv, List.length_take]
    omega
  · exact List.take_append_drop _ _

/-- However many rounds it runs, the loop ends with the next `n` bytes or not at all. -/
theorem Socket.go_eq_some {rounds n : Nat} {socket after : Socket} {data result : Bytes}
    (fits : data.length ≤ n) (ended : recv_nbytes.go rounds n socket data = some (result, after)) :
    n ≤ data.length + socket.pending.length ∧ result = (data ++ socket.pending).take n ∧
      after.pending = (data ++ socket.pending).drop n := by
  have stopped {gathered : Bytes} {middle : Socket} (fits : gathered.length ≤ n)
      (enough : ¬ gathered.length < n) (last : some (gathered, middle) = some (result, after)) :
      n ≤ gathered.length + middle.pending.length ∧ result = (gathered ++ middle.pending).take n ∧
        after.pending = (gathered ++ middle.pending).drop n := by
    cases Option.some.inj last
    obtain rfl : result.length = n := by omega
    exact ⟨by omega, List.take_left.symm, List.drop_left.symm⟩
  induction rounds generalizing socket data with
  | zero =>
      rw [recv_nbytes.go] at ended
      split at ended
      next => contradiction
      next enough => exact stopped fits enough ended
  | succ rounds inductionHypothesis =>
      rw [recv_nbytes.go] at ended
      split at ended
      next missing =>
        obtain ⟨bounded, layout⟩ := socket.recv_takes (n - data.length)
        generalize socket.recv (n - data.length) = taken at *
        obtain ⟨received, middle⟩ := taken
        have shorter : received.length ≤ n - data.length := bounded
        have later := inductionHypothesis (by rw [List.length_append]; omega) ended
        have total := congrArg List.length layout
        rw [List.append_assoc, layout] at later
        simp only [List.length_append] at total later
        exact ⟨by omega, later.2⟩
      next enough => exact stopped fits enough ended

theorem Socket.go_exact {n : Nat} (rounds : Nat) (socket : Socket) (available : n ≤ socket.pending.length)
    (enough : n ≤ rounds) :
    ∃ grants, recv_nbytes.go rounds n socket [] =
      some (socket.pending.take n, ⟨socket.pending.drop n, grants⟩) := by
  have length : (socket.pending.take n).length = n := by
    rw [List.length_take]
    omega
  have split := recv_nbytes_go rounds n socket.grants [] (socket.pending.take n)
    (socket.pending.drop n) (by simp [length]) (by omega)
  rwa [List.take_append_drop] at split

/-! ### The two loops -/

variable {package : Package} {self : Client} {socket : Socket}

theorem head_nonempty {head : Bytes} (long : Header.type_size ≤ head.length) :
    (head.take Header.type_size).isEmpty = false := by
  have positive : 0 < Header.type_size := by decide
  rw [List.isEmpty_eq_false_iff, ← List.length_pos_iff, List.length_take]
  omega

/-- The branch for an empty header is never taken: the loop before it does not end
without a header. -/
theorem recv_messageIn_not_nothing {rounds : Nat} {received : Received} {after : Client}
    (ended : recv_messageIn rounds package self socket = some (received, after)) :
    received ≠ .nothing := by
  obtain ⟨⟨head, rest⟩, hasHead, ended⟩ := Option.bind_eq_some_iff.mp ended
  obtain ⟨available, isHead, -⟩ := Socket.go_eq_some (Nat.zero_le _) hasHead
  have nonempty : head.isEmpty = false := by
    rw [isHead]
    exact head_nonempty (by simpa using available)
  simp only [nonempty, Bool.false_eq_true, if_false] at ended
  split at ended
  next =>
    cases Option.some.inj ended
    nofun
  next header _ _ =>
    obtain ⟨⟨body, _⟩, -, ended⟩ := Option.bind_eq_some_iff.mp ended
    cases Option.some.inj ended
    cases Message.frombytes package body header <;> nofun

/-- A whole frame ends both loops, with what is decoded from it. -/
theorem recv_messageIn_wholeFrame {header : Header} {body : Bytes}
    (frame : WholeFrame socket.pending header body) :
    recv_messageIn (Header.type_size + header.body_size) package self socket =
      some (.ofExcept (Message.frombytes package body header), self) := by
  obtain ⟨⟨reader, decoded⟩, whole, rfl⟩ := frame
  obtain ⟨grants, hasHead⟩ := Socket.go_exact (Header.type_size + header.body_size) socket
    (Nat.le_of_add_right_le whole) (Nat.le_add_right _ _)
  obtain ⟨later, hasBody⟩ := Socket.go_exact (Header.type_size + header.body_size)
    ⟨socket.pending.drop Header.type_size, grants⟩
    (show header.body_size ≤ (socket.pending.drop Header.type_size).length by
      rw [List.length_drop]
      omega) (Nat.le_add_left _ _)
  have long : Header.type_size ≤ socket.pending.length := by omega
  rw [recv_messageIn, hasHead]
  simp only [Option.bind_eq_bind, Option.bind_some, head_nonempty long, Bool.false_eq_true, if_false,
    decoded, hasBody]
  rfl

/-- Where bytes are pending until it ends, `recv_message` is the same call. -/
theorem recv_messageIn_of_recv_message {result : Except PyError Message} {after : Socket}
    (ended : recv_message package socket = some (result, after)) :
    ∃ rounds, recv_messageIn rounds package self socket = some (.ofExcept result, self) := by
  obtain ⟨⟨head, middle⟩, hasHead, ended⟩ := Option.bind_eq_some_iff.mp ended
  obtain ⟨available, rfl, middlePending⟩ := Socket.go_eq_some (Nat.zero_le _) hasHead
  have long : Header.type_size ≤ socket.pending.length := by simpa using available
  rw [List.nil_append] at ended middlePending
  dsimp only at ended
  split at ended
  next error decoded =>
    obtain ⟨rfl, -⟩ := Prod.mk.inj (Option.some.inj ended)
    obtain ⟨grants, hasHead⟩ := Socket.go_exact Header.type_size socket long le_rfl
    refine ⟨Header.type_size, ?_⟩
    rw [recv_messageIn, hasHead]
    simp only [Option.bind_eq_bind, Option.bind_some, head_nonempty long, Bool.false_eq_true,
      if_false, decoded]
    rfl
  next header reader decoded =>
    obtain ⟨⟨body, last⟩, hasBody, ended⟩ := Option.bind_eq_some_iff.mp ended
    obtain ⟨rfl, -⟩ := Prod.mk.inj (Option.some.inj ended)
    obtain ⟨bodyAvailable, rfl, -⟩ := Socket.go_eq_some (Nat.zero_le _) hasBody
    rw [middlePending, List.length_drop, List.length_nil] at bodyAvailable
    rw [middlePending, List.nil_append]
    exact ⟨_, recv_messageIn_wholeFrame ⟨⟨reader, decoded⟩, by omega, rfl⟩⟩

theorem wholeFrame_of_ends (ends : Ends package self socket) :
    ∃ header body, WholeFrame socket.pending header body := by
  obtain ⟨rounds, received, after, ended, -, otherwise⟩ := ends
  by_contra noFrame
  exact recv_messageIn_not_nothing ended (otherwise noFrame).1

theorem WholeFrame.unique {sent : Bytes} {header other : Header} {body otherBody : Bytes}
    (frame : WholeFrame sent header body) (otherFrame : WholeFrame sent other otherBody) :
    header = other ∧ body = otherBody := by
  obtain ⟨⟨_, decoded⟩, -, rfl⟩ := frame
  obtain ⟨⟨_, otherDecoded⟩, -, rfl⟩ := otherFrame
  cases Except.ok.inj (decoded.symm.trans otherDecoded)
  exact ⟨rfl, rfl⟩

/-- The blocking receive ends as it should exactly where a whole frame arrives. -/
theorem ends_iff (package : Package) (self : Client) (socket : Socket) :
    Ends package self socket ↔ ∃ header body, WholeFrame socket.pending header body := by
  constructor
  · exact wholeFrame_of_ends
  · rintro ⟨header, body, frame⟩
    refine ⟨_, _, _, recv_messageIn_wholeFrame frame, ?_, fun noFrame => ?_⟩
    · intro other otherBody otherFrame
      obtain ⟨rfl, rfl⟩ := frame.unique otherFrame
      rfl
    · exact absurd ⟨header, body, frame⟩ noFrame

/-- The peer closes before it has sent anything. -/
theorem not_ends_closed : ¬ Ends (StdPrograms.Ouou.package asciiHost) {} ⟨[], []⟩ := by
  intro ends
  obtain ⟨header, body, frame⟩ := wholeFrame_of_ends ends
  exact absurd frame.whole (by simp [Header.body_size])

end Client

end StdPrograms.Ouou

import StdPrograms.Release.Framing
import StdPrograms.Release.Login

/-!
Contract: `Login::on_readable` on every result of `recv`.

Owns the two loops as steps of a machine, with the local buffer and every call of
`append` and `modify`, what a client becomes of a delivered buffer, and the exact
condition under which the loops end and make only good calls.

An error is appended like data, as many bytes of it as the greatest `size_t` allows. The
branch for a closed peer closes the descriptor, and hands the closed one to `modify`.

Does not own `dispatch`, nor what the packets of a stream become.
-/

namespace StdPrograms.Release

open StdPrograms.Foundation

/-! ### append from a buffer -/

namespace IPacket

/-- `append`, of a length that is not that of the buffer, and not 0, which it asserts. -/
def appendFrom (self : IPacket) (buf : Memory) (len : ℕ) : Except ExceptBase (IPacket × ℕ) :=
  let ncopy := self.headerPart len
  let head : IPacket := { self with received := self.received ++ buf.load 0 ncopy }
  if ncopy < len then
    let ndata := min (len - ncopy) head.pktLen
    if PACKET_SIZE < ndata + head.received.length then .error .badPacket
    else
      .ok ({ head with received := head.received ++ buf.load ncopy ndata }, ncopy + ndata)
  else .ok (head, ncopy)

theorem headerPart_le (self : IPacket) (len : ℕ) : self.headerPart len ≤ len := by
  unfold headerPart
  split <;> omega

/-- It is `append` of what the length makes of the buffer. -/
theorem appendFrom_eq_append (self : IPacket) (buf : Memory) (len : ℕ) :
    self.appendFrom buf len = self.append (buf.load 0 len) := by
  have part := self.headerPart_le len
  rw [appendFrom, append, Memory.load_length, Memory.take_load _ _ part,
    Memory.drop_load _ _ part]
  dsimp only
  rw [Memory.take_load _ _ (Nat.min_le_left _ _), Nat.zero_add]

/-- What is copied is the front of the buffer. -/
theorem appendFrom_copies {self after : IPacket} {buf : Memory} {len ncopy : ℕ}
    (appended : self.appendFrom buf len = .ok (after, ncopy)) :
    after = { self with received := self.received ++ buf.load 0 ncopy } ∧ ncopy ≤ len := by
  rw [appendFrom_eq_append] at appended
  obtain ⟨isCopy, inside⟩ := append_copies appended
  rw [Memory.load_length] at inside
  rw [isCopy, Memory.take_load _ _ inside]
  exact ⟨rfl, inside⟩

/-- Behind its header, a packet announces data. -/
def Ready (self : IPacket) : Prop := self.received.length < kHdrLen ∨ 0 < self.pktLen

theorem ready_reset : reset.Ready := .inl (by decide)

/-- Every `append` makes progress, and leaves a packet that is complete or makes progress
again. -/
theorem Ready.appendFrom {self after : IPacket} {buf : Memory} {len ncopy : ℕ} (ready : self.Ready)
    (positive : 0 < len) (appended : self.appendFrom buf len = .ok (after, ncopy)) :
    0 < ncopy ∧ (¬ after.is_complete = true → after.Ready) := by
  have header : self.headerPart len =
      if self.received.length < kHdrLen then min len (kHdrLen - self.received.length) else 0 := rfl
  have headLength : (self.received ++ buf.load 0 (self.headerPart len)).length =
      self.received.length + self.headerPart len := by
    rw [List.length_append, Memory.load_length]
  rw [IPacket.appendFrom] at appended
  dsimp only at appended
  split at appended
  next more =>
    split at appended
    next => cases appended
    next =>
      obtain ⟨rfl, rfl⟩ := Prod.mk.inj (Except.ok.inj appended)
      rw [pktLen_eq]
      dsimp only
      by_cases behind : self.received.length < kHdrLen
      · rw [if_pos behind] at header
        have whole : (self.received ++ buf.load 0 (self.headerPart len)).length = kHdrLen := by
          omega
        refine ⟨by omega, fun incomplete => ?_⟩
        rw [is_complete, pktLen_eq, decide_eq_true_eq, List.length_append, whole,
          announced_append _ whole.ge, Memory.load_length] at incomplete
        rw [Ready, pktLen_eq, announced_append _ whole.ge]
        omega
      · rw [if_neg behind] at header
        have announces : 0 < announced self.received := by
          rcases ready with short | announces
          · exact absurd short behind
          · exact announces
        have same : announced (self.received ++ buf.load 0 (self.headerPart len)) =
            announced self.received := announced_append _ (by omega)
        refine ⟨by omega, fun _ => .inr ?_⟩
        rw [pktLen_eq, announced_append _ (by omega), same]
        exact announces
  next all =>
    obtain ⟨rfl, rfl⟩ := Prod.mk.inj (Except.ok.inj appended)
    have part := self.headerPart_le len
    have behind : self.received.length < kHdrLen := by
      by_contra notBehind
      rw [if_neg notBehind] at header
      omega
    rw [if_pos behind] at header
    refine ⟨by omega, fun incomplete => ?_⟩
    rw [is_complete, decide_eq_true_eq] at incomplete
    dsimp only at incomplete
    rw [headLength] at incomplete
    rw [Ready]
    dsimp only
    rw [headLength]
    omega

end IPacket

/-! ### The loops -/

/-- A packet that is complete is dispatched, and the next one begins. -/
def Login.completed (stack : ℕ → UInt8) (platform : Platform) (inpkt : IPacket) (login : Login) :
    Except ExceptBase IPacket × Login :=
  if inpkt.is_complete then
    match (Login.dispatch stack platform inpkt).exec login with
    | (.error error, login) => (.error error, login)
    | (.ok _, login) => (.ok IPacket.reset, login)
  else (.ok inpkt, login)

theorem Login.completed_ready {stack : ℕ → UInt8} {platform : Platform} {inpkt after : IPacket}
    {login left : Login} (ready : ¬ inpkt.is_complete = true → inpkt.Ready)
    (completed : Login.completed stack platform inpkt login = (.ok after, left)) :
    after.Ready := by
  rw [Login.completed] at completed
  split at completed
  next =>
    split at completed
    next => cases completed
    next =>
      cases completed
      exact IPacket.ready_reset
  next incomplete =>
    cases completed
    exact ready incomplete

/-- A result of `recv` into a buffer of the packet size: some bytes, 0 or -1. -/
inductive RecvResult where
  | data (bytes : Bytes) (some : bytes ≠ []) (fits : bytes.length ≤ PACKET_SIZE)
  | closed
  | failed

namespace RecvResult

def len : RecvResult → ℤ
  | data bytes _ _ => bytes.length
  | closed => 0
  | failed => -1

/-- What it puts at the front of the buffer. -/
def bytes : RecvResult → Bytes
  | data bytes _ _ => bytes
  | _ => []

/-- The buffer is full. -/
def Full (self : RecvResult) : Prop := self.len = PACKET_SIZE

/-- A positive count, and the buffer is not full. -/
def Short (self : RecvResult) : Prop := 0 < self.len ∧ self.len < PACKET_SIZE

theorem len_bounds (self : RecvResult) : -1 ≤ self.len ∧ self.len ≤ PACKET_SIZE := by
  cases self with
  | data bytes some fits => exact ⟨by rw [len]; omega, Int.ofNat_le.mpr fits⟩
  | closed => exact ⟨by decide, by decide⟩
  | failed => exact ⟨by decide, by decide⟩

theorem full_data {bytes : Bytes} {some : bytes ≠ []} {fits : bytes.length ≤ PACKET_SIZE} :
    (data bytes some fits).Full ↔ bytes.length = PACKET_SIZE := Int.ofNat_inj

end RecvResult

/-- The conversion of an `int` to `size_t`. -/
def toSize (value : ℤ) : ℕ := (value % 2 ^ 64).toNat

theorem toSize_natCast {value : ℕ} (small : value < 2 ^ 64) : toSize value = value := by
  rw [toSize]
  omega

/-- A call that the loops make: of `append`, with the count, the bytes that it copies and
those that the last `recv` delivered; or of `modify`, with the descriptor. -/
inductive Call where
  | append (count : ℤ) (copied delivered : Bytes)
  | modify (fd : ℤ)
deriving DecidableEq

/-- A positive count and delivered bytes; an open descriptor. -/
def Call.Good : Call → Prop
  | .append count copied delivered => 0 < count ∧ copied <+: delivered
  | .modify fd => 0 ≤ fd

/-- Where `on_readable` stands: in front of `recv`, or of `append`, or left. -/
inductive Place where
  | recv
  | append (len nbuf : ℤ)
  | returned
  | thrown (error : ExceptBase)
deriving DecidableEq

/-- A call of `on_readable`, on its way. -/
structure Reading where
  login : Login
  inpkt_ : IPacket
  buf : Memory
  /-- The bytes of the last `recv`, and how many calls of it there were. -/
  delivered : Bytes := []
  taken : ℕ := 0
  place : Place := .recv
  calls : List Call := []

namespace Reading

def called (self : Reading) (call : Call) : Reading := { self with calls := self.calls ++ [call] }

/-- `closefd`, and behind the loops `modify`. -/
def peerClosed (self : Reading) : Reading :=
  match (Login.base SSLClient.closefd).exec self.login with
  | (.error error, login) => { self with login := login, place := .thrown error }
  | (.ok _, login) =>
      { self with login := login, place := .returned }.called (.modify login.ssl.fd_)

def receive (result : RecvResult) (self : Reading) : Reading :=
  let self := { self with
    taken := self.taken + 1
    delivered := result.bytes
    buf := self.buf.store 0 result.bytes }
  if result.len = 0 then self.peerClosed
  else { self with place := .append result.len result.len }

/-- `while (nbuf > 0)`, and behind it `while (len == sizeof(buf))`. -/
def again (len nbuf : ℤ) : Place :=
  if 0 < nbuf then .append len nbuf
  else if toSize len = PACKET_SIZE then .recv
  else .returned

section Machine

-- What the memory of a local packet holds, by the number of calls so far.
variable (platform : Platform) (stack : ℕ → ℕ → UInt8) (results : ℕ → RecvResult)

/-- What follows an `append`. -/
def settle (inpkt : IPacket) (next : Place) (self : Reading) : Reading :=
  match Login.completed (stack self.calls.length) platform inpkt self.login with
  -- the packet as it was in front of `decode`; nothing reads it any more
  | (.error error, login) => { self with login := login, inpkt_ := inpkt, place := .thrown error }
  | (.ok inpkt, login) => { self with login := login, inpkt_ := inpkt, place := next }

def appendOnce (len nbuf : ℤ) (self : Reading) : Reading :=
  match self.inpkt_.appendFrom self.buf (toSize nbuf) with
  | .error error =>
      -- what fits into the header has been copied
      let copied := self.buf.load 0 (self.inpkt_.headerPart (toSize nbuf))
      { self with place := .thrown error }.called (.append nbuf copied self.delivered)
  | .ok (inpkt, ncopy) =>
      (self.called (.append nbuf (self.buf.load 0 ncopy) self.delivered)).settle platform stack
        inpkt (again len (nbuf - ncopy))

def step (self : Reading) : Reading :=
  match self.place with
  | .recv => self.receive (results self.taken)
  | .append len nbuf => self.appendOnce platform stack len nbuf
  | .returned => self
  | .thrown _ => self

/-- The call after some steps. -/
def after (self : Reading) (steps : ℕ) : Reading := (step platform stack results)^[steps] self

end Machine

/-- It has returned, or an exception has left it. -/
def Ended (self : Reading) : Prop := self.place = .returned ∨ ∃ error, self.place = .thrown error

/-- A call of `on_readable`; `memory` is what its local buffer holds. -/
def start (login : Login) (inpkt_ : IPacket) (memory : ℕ → UInt8) : Reading where
  login := login
  inpkt_ := inpkt_
  buf := ⟨memory, []⟩

/-- What a call hands on from one `append` to the next. -/
structure Held where
  login : Login
  inpkt_ : IPacket
  /-- How often `append` was called. -/
  appends : ℕ := 0

/-- What becomes of a client that takes in so many bytes from the front of a buffer. A
packet that is ready copies some of them. -/
def Held.absorb (platform : Platform) (stack : ℕ → ℕ → UInt8) (bytes : Bytes) (nbuf : ℕ)
    (self : Held) : Except ExceptBase Held :=
  match self.inpkt_.append (bytes.take nbuf) with
  | .error error => .error error
  | .ok (inpkt, ncopy) =>
      match Login.completed (stack (self.appends + 1)) platform inpkt self.login with
      | (.error error, _) => .error error
      | (.ok inpkt, login) =>
          let after : Held := ⟨login, inpkt, self.appends + 1⟩
          if 0 < ncopy ∧ ncopy < nbuf then after.absorb platform stack bytes (nbuf - ncopy)
          else .ok after
termination_by nbuf

section Run

variable {platform : Platform} {stack : ℕ → ℕ → UInt8} {results : ℕ → RecvResult} {self : Reading}

theorem after_succ (self : Reading) (steps : ℕ) :
    self.after platform stack results (steps + 1) =
      (self.step platform stack results).after platform stack results steps := rfl

theorem after_add (self : Reading) (first second : ℕ) :
    (self.after platform stack results first).after platform stack results second =
      self.after platform stack results (first + second) := by
  rw [after, after, after, Nat.add_comm, Function.iterate_add_apply]

theorem Ended.step (ended : self.Ended) : self.step platform stack results = self := by
  rw [Reading.step]
  rcases ended with returned | ⟨error, thrown⟩
  · rw [returned]
  · rw [thrown]

theorem Ended.after (ended : self.Ended) (steps : ℕ) :
    self.after platform stack results steps = self :=
  Function.iterate_fixed ended.step steps

/-- The call ends in one way. -/
theorem after_unique {first second : ℕ} (ended : (self.after platform stack results first).Ended)
    (otherEnded : (self.after platform stack results second).Ended) :
    self.after platform stack results first = self.after platform stack results second := by
  rcases Nat.le_total first second with below | below
  · obtain ⟨more, rfl⟩ := Nat.exists_eq_add_of_le below
    rw [← after_add, ended.after]
  · obtain ⟨more, rfl⟩ := Nat.exists_eq_add_of_le below
    rw [← after_add, otherEnded.after]

/-! ### A buffer that was delivered -/

/-- The front of the buffer is what the last `recv` delivered. -/
def Loaded (self : Reading) : Prop :=
  self.buf.load 0 self.delivered.length = self.delivered

theorem Loaded.load (loaded : self.Loaded) {count : ℕ} (inside : count ≤ self.delivered.length) :
    self.buf.load 0 count = self.delivered.take count := by
  rw [← Memory.take_load _ _ inside, loaded]

def held (self : Reading) : Held := ⟨self.login, self.inpkt_, self.calls.length⟩

/-- An exception leaves the call, or it goes on with what the client is then. -/
def Meets (next : Place) (self : Reading) : Except ExceptBase Held → Prop
  | .error error => self.place = .thrown error
  | .ok held => self.place = next ∧ self.held = held ∧ held.inpkt_.Ready

/-- What a round of the inner loop keeps, and that its call of `append` is good. -/
structure Round (before after : Reading) : Prop where
  taken : after.taken = before.taken
  delivered : after.delivered = before.delivered
  buf : after.buf = before.buf
  calls : ∀ call ∈ after.calls, call ∈ before.calls ∨ call.Good

section Append

variable {len : ℤ} {nbuf : ℕ}

theorem step_append (place : self.place = .append len nbuf) :
    self.step platform stack results = self.appendOnce platform stack len nbuf := by
  rw [step, place]

/-- With good calls only, a round is made of any client and any place to go on. -/
theorem round_of_append (some : 0 < nbuf) (inside : nbuf ≤ self.delivered.length)
    (loaded : self.Loaded) {count : ℕ} (part : count ≤ nbuf) (login : Login) (inpkt : IPacket)
    (next : Place) :
    Round self { self with
      login := login
      inpkt_ := inpkt
      place := next
      calls := self.calls ++ [.append nbuf (self.buf.load 0 count) self.delivered] } := by
  refine ⟨rfl, rfl, rfl, fun call member => ?_⟩
  rcases List.mem_append.mp member with before | last
  · exact .inl before
  · rw [List.mem_singleton.mp last, loaded.load (by omega)]
    exact .inr ⟨Int.natCast_pos.mpr some, List.take_prefix _ _⟩

/-- One round: an exception leaves the call as it leaves the client, or some bytes are
copied, and what is left of the count decides where the call goes on. -/
theorem append_round (place : self.place = .append len nbuf) (some : 0 < nbuf)
    (inside : nbuf ≤ self.delivered.length) (fits : self.delivered.length ≤ PACKET_SIZE)
    (loaded : self.Loaded) (ready : self.inpkt_.Ready) :
    Round self (self.step platform stack results) ∧
      ((∃ error, (self.step platform stack results).place = .thrown error ∧
          self.held.absorb platform stack self.delivered nbuf = .error error) ∨
        ∃ ncopy, 0 < ncopy ∧ ncopy ≤ nbuf ∧
          (self.step platform stack results).place = again len (nbuf - ncopy) ∧
          (self.step platform stack results).inpkt_.Ready ∧
          self.held.absorb platform stack self.delivered nbuf =
            if ncopy < nbuf then
              (self.step platform stack results).held.absorb platform stack self.delivered
                (nbuf - ncopy)
            else .ok (self.step platform stack results).held) := by
  have size : toSize nbuf = nbuf := by
    have limit : PACKET_SIZE < 2 ^ 64 := by decide
    exact toSize_natCast (by omega)
  have sameAppend : self.inpkt_.append (self.delivered.take nbuf) =
      self.inpkt_.appendFrom self.buf nbuf := by
    rw [IPacket.appendFrom_eq_append, loaded.load inside]
  have isRound := fun {count : ℕ} (part : count ≤ nbuf) => round_of_append some inside loaded part
  have once := @step_append platform stack results self len nbuf place
  rw [appendOnce, size] at once
  rw [Held.absorb]
  dsimp only [held]
  rw [sameAppend]
  cases appended : self.inpkt_.appendFrom self.buf nbuf with
  | error error =>
      rw [appended] at once
      rw [once]
      exact ⟨isRound (self.inpkt_.headerPart_le nbuf) _ _ _, .inl ⟨error, rfl, rfl⟩⟩
  | ok result =>
      obtain ⟨inpkt, ncopy⟩ := result
      have part := (IPacket.appendFrom_copies appended).2
      obtain ⟨progress, keeps⟩ := ready.appendFrom some appended
      have made :
          (self.calls ++ [Call.append nbuf (self.buf.load 0 ncopy) self.delivered]).length =
            self.calls.length + 1 := List.length_append
      rw [appended] at once
      dsimp only at once ⊢
      rw [settle, called, made] at once
      dsimp only at once
      cases completed : Login.completed (stack (self.calls.length + 1)) platform inpkt
          self.login with
      | mk outcome login =>
          rw [completed] at once
          cases outcome with
          | error error =>
              rw [once]
              exact ⟨isRound part _ _ _, .inl ⟨error, rfl, rfl⟩⟩
          | ok inpkt =>
              rw [once]
              refine ⟨isRound part _ _ _, .inr ⟨ncopy, progress, part, rfl,
                Login.completed_ready keeps completed, ?_⟩⟩
              dsimp only
              rw [made]
              exact if_congr (and_iff_right progress) rfl rfl

/-- The bytes that are left of a delivered buffer are appended, in finitely many rounds. -/
theorem appends_rest (place : self.place = .append len nbuf) (some : 0 < nbuf)
    (inside : nbuf ≤ self.delivered.length) (fits : self.delivered.length ≤ PACKET_SIZE)
    (loaded : self.Loaded) (ready : self.inpkt_.Ready) :
    ∃ steps, (self.after platform stack results steps).taken = self.taken ∧
      (∀ call ∈ (self.after platform stack results steps).calls,
        call ∈ self.calls ∨ call.Good) ∧
      (self.after platform stack results steps).Meets (again len 0)
        (self.held.absorb platform stack self.delivered nbuf) := by
  induction nbuf using Nat.strong_induction_on generalizing self with
  | _ nbuf inductionHypothesis =>
      obtain ⟨round, ⟨error, thrown, absorbed⟩ | ⟨ncopy, progress, part, next, nextReady, absorbed⟩⟩ :=
        @append_round platform stack results self len nbuf place some inside fits loaded ready
      · rw [absorbed]
        exact ⟨1, round.taken, round.calls, thrown⟩
      · rw [absorbed]
        by_cases more : ncopy < nbuf
        · rw [again, if_pos (by omega), ← Nat.cast_sub part] at next
          obtain ⟨steps, taken, calls, meets⟩ := inductionHypothesis (nbuf - ncopy) (by omega) next
            (by omega) (by rw [round.delivered]; omega) (by rwa [round.delivered])
            (by rwa [Loaded, round.buf, round.delivered]) nextReady
          rw [if_pos more, ← round.delivered]
          refine ⟨steps + 1, taken.trans round.taken, fun call member => ?_, meets⟩
          rcases calls call member with before | good
          · exact round.calls call before
          · exact .inr good
        · have nothing : (nbuf : ℤ) - ncopy = 0 := by omega
          rw [nothing] at next
          rw [if_neg more]
          exact ⟨1, round.taken, round.calls, next, rfl, nextReady⟩

end Append

/-- A delivered buffer is handled, and `recv` called again where it is full. -/
theorem handles_data {bytes : Bytes} {some : bytes ≠ []} {fits : bytes.length ≤ PACKET_SIZE}
    (place : self.place = .recv) (ready : self.inpkt_.Ready)
    (result : results self.taken = .data bytes some fits) :
    ∃ steps, (self.after platform stack results steps).taken = self.taken + 1 ∧
      (∀ call ∈ (self.after platform stack results steps).calls,
        call ∈ self.calls ∨ call.Good) ∧
      (self.after platform stack results steps).Meets
        (if bytes.length = PACKET_SIZE then .recv else .returned)
        (self.held.absorb platform stack bytes bytes.length) := by
  have positive := List.length_pos_iff.mpr some
  have notZero : (RecvResult.data bytes some fits).len ≠ 0 := by
    show (bytes.length : ℤ) ≠ 0
    omega
  have size : toSize bytes.length = bytes.length := by
    have limit : PACKET_SIZE < 2 ^ 64 := by decide
    exact toSize_natCast (by omega)
  have received : self.step platform stack results = { self with
      taken := self.taken + 1
      delivered := bytes
      buf := self.buf.store 0 bytes
      place := .append bytes.length bytes.length } := by
    rw [step, place]
    dsimp only
    rw [result, receive, if_neg notZero]
    rfl
  have appending : (self.step platform stack results).place =
      .append bytes.length ((bytes.length : ℕ) : ℤ) := by
    rw [received]
  have delivered : (self.step platform stack results).delivered = bytes := by
    rw [received]
  have sameHeld : (self.step platform stack results).held = self.held := by
    rw [received]
    rfl
  have loaded : (self.step platform stack results).Loaded := by
    rw [received]
    exact Memory.load_store_same _ _ _
  obtain ⟨steps, taken, calls, meets⟩ := appends_rest appending positive (by rw [delivered])
    (by rwa [delivered]) loaded (by rwa [received])
  rw [sameHeld, delivered, again, if_neg (by decide), size] at meets
  refine ⟨steps + 1, ?_, fun call member => ?_, meets⟩
  · rw [after_succ, taken, received]
  · have oneCall := calls call member
    rwa [received] at oneCall

/-! ### No delivered buffer -/

theorem exec_closefd (login : Login) :
    (Login.base SSLClient.closefd).exec login =
      if 0 ≤ login.ssl.fd_ then (.ok (), { login with ssl := { login.ssl with fd_ := -1 } })
      else (.error .assertion, login) := by
  have closes : SSLClient.closefd.exec login.ssl =
      if 0 ≤ login.ssl.fd_ then (.ok (), { login.ssl with fd_ := -1 })
      else (.error .assertion, login.ssl) := by
    rw [SSLClient.closefd, Effect.exec_get]
    split
    · rfl
    · rfl
  show (match SSLClient.closefd.exec login.ssl with
    | (result, after) => (result, ({ login with ssl := after } : Login))) = _
  by_cases isOpen : 0 ≤ login.ssl.fd_
  · rw [if_pos isOpen] at closes ⊢
    rw [closes]
  · rw [if_neg isOpen] at closes ⊢
    rw [closes]

/-- A closed peer: the assertion of `closefd` fails, or `modify` gets -1. -/
theorem handles_closed (place : self.place = .recv) (result : results self.taken = .closed) :
    (self.step platform stack results).Ended ∧
      (self.step platform stack results).calls =
        if 0 ≤ self.login.ssl.fd_ then self.calls ++ [.modify (-1)] else self.calls := by
  have received : self.step platform stack results = peerClosed { self with
      taken := self.taken + 1
      delivered := []
      buf := self.buf.store 0 [] } := by
    rw [step, place]
    dsimp only
    rw [result, receive, if_pos (show RecvResult.closed.len = 0 from rfl)]
    rfl
  rw [received, peerClosed, exec_closefd]
  by_cases isOpen : 0 ≤ self.login.ssl.fd_
  · rw [if_pos isOpen, if_pos isOpen]
    exact ⟨.inl rfl, rfl⟩
  · rw [if_neg isOpen, if_neg isOpen]
    exact ⟨.inr ⟨_, rfl⟩, rfl⟩

/-- An error: `append` is called with a count of -1, and the call ends. -/
theorem handles_failed (place : self.place = .recv) (result : results self.taken = .failed) :
    (self.after platform stack results 2).Ended ∧
      ∃ copied, .append (-1) copied [] ∈ (self.after platform stack results 2).calls := by
  have received : self.step platform stack results = { self with
      taken := self.taken + 1
      delivered := []
      buf := self.buf.store 0 []
      place := .append (-1) (-1) } := by
    rw [step, place]
    dsimp only
    rw [result, receive, if_neg (by decide)]
    rfl
  have appending : self.after platform stack results 2 =
      (self.step platform stack results).appendOnce platform stack (-1) (-1) := by
    rw [after_succ, after_succ, step, received]
    rfl
  have delivered : (self.step platform stack results).delivered = [] := by rw [received]
  have leaves (count : ℕ) : again (-1) (-1 - count) = .returned := by
    rw [again, if_neg (by omega), if_neg (by decide)]
  have last {calls : List Call} {call : Call} : call ∈ calls ++ [call] :=
    List.mem_append_right _ (List.mem_singleton.mpr rfl)
  rw [appending, ← delivered]
  generalize self.step platform stack results = middle
  rw [appendOnce]
  split
  next error _ => exact ⟨.inr ⟨error, rfl⟩, _, last⟩
  next inpkt ncopy _ =>
    rw [leaves, settle]
    split
    next error _ _ => exact ⟨.inr ⟨error, rfl⟩, _, last⟩
    next => exact ⟨.inl rfl, _, last⟩

/-! ### Whole calls -/

end Run

section Statement

variable (platform : Platform) (stack : ℕ → ℕ → UInt8) (results : ℕ → RecvResult)

/-- What a client becomes of the buffer of a result. -/
def Held.receive (result : RecvResult) (self : Held) : Except ExceptBase Held :=
  self.absorb platform stack result.bytes result.bytes.length

/-- The client after so many results that filled the buffer, and that it took in. -/
inductive Absorbed (client : Held) : ℕ → Held → Prop where
  | none : Absorbed client 0 client
  | full {count : ℕ} {before after : Held} (absorbed : Absorbed client count before)
      (full : (results count).Full)
      (received : before.receive platform stack (results count) = .ok after) :
      Absorbed client (count + 1) after

/-- A positive count that leaves room in the buffer, or an exception: of `append` or
`dispatch` on a full buffer, or of `closefd` without a descriptor. -/
def Harmless (held : Held) (result : RecvResult) : Prop :=
  result.Short ∨
    (result.Full ∧ ∃ error, held.receive platform stack result = .error error) ∨
    (result.len = 0 ∧ held.login.ssl.fd_ < 0)

/-- The call ends, and every call that it makes is good. -/
def Handles (self : Reading) : Prop :=
  ∃ steps, (self.after platform stack results steps).Ended ∧
    ∀ call ∈ (self.after platform stack results steps).calls, call.Good

end Statement

section Run

variable {platform : Platform} {stack : ℕ → ℕ → UInt8} {results : ℕ → RecvResult} {self : Reading}
  {count : ℕ} {held : Held}

/-- The call stands in front of `recv`, and has made good calls only. -/
structure Arrived (count : ℕ) (held : Held) (reading : Reading) : Prop where
  place : reading.place = .recv
  taken : reading.taken = count
  client : reading.held = held
  ready : held.inpkt_.Ready
  good : ∀ call ∈ reading.calls, call.Good

theorem Arrived.steps_data (arrived : Arrived count held self) {bytes : Bytes} {some : bytes ≠ []}
    {fits : bytes.length ≤ PACKET_SIZE} (result : results count = .data bytes some fits) :
    ∃ steps, (self.after platform stack results steps).taken = count + 1 ∧
      (∀ call ∈ (self.after platform stack results steps).calls, call.Good) ∧
      (self.after platform stack results steps).Meets
        (if bytes.length = PACKET_SIZE then .recv else .returned)
        (held.receive platform stack (results count)) := by
  obtain ⟨place, rfl, rfl, ready, good⟩ := arrived
  obtain ⟨steps, taken, calls, meets⟩ := handles_data place ready result
  refine ⟨steps, taken, fun call member => ?_, by rwa [result]⟩
  rcases calls call member with before | isGood
  · exact good call before
  · exact isGood

/-- A full buffer that is taken in leads to the next `recv`. -/
theorem Arrived.full (arrived : Arrived count held self) {after : Held}
    (full : (results count).Full)
    (received : held.receive platform stack (results count) = .ok after) :
    ∃ steps, Arrived (count + 1) after (self.after platform stack results steps) := by
  cases result : results count with
  | data bytes some fits =>
      rw [result] at full
      have length : bytes.length = PACKET_SIZE := RecvResult.full_data.mp full
      obtain ⟨steps, taken, good, meets⟩ :=
        @steps_data platform stack results self count held arrived bytes some fits result
      rw [received, if_pos length] at meets
      obtain ⟨place, isHeld, ready⟩ := meets
      exact ⟨steps, place, taken, isHeld, ready, good⟩
  | closed =>
      rw [result] at full
      cases full
  | failed =>
      rw [result] at full
      cases full

theorem Arrived.harmless (arrived : Arrived count held self)
    (harmless : Harmless platform stack held (results count)) :
    Handles platform stack results self := by
  cases result : results count with
  | data bytes some fits =>
      obtain ⟨steps, -, good, meets⟩ :=
        @steps_data platform stack results self count held arrived bytes some fits result
      refine ⟨steps, ?_, good⟩
      cases outcome : held.receive platform stack (results count) with
      | error error =>
          rw [outcome] at meets
          exact .inr ⟨error, meets⟩
      | ok after =>
          rw [outcome] at meets
          refine .inl (meets.1.trans (if_neg ?_))
          rcases harmless with ⟨-, room⟩ | ⟨-, error, refused⟩ | ⟨none, -⟩
          · rw [result] at room
            exact fun isFull => room.ne (RecvResult.full_data.mpr isFull)
          · rw [outcome] at refused
            cases refused
          · rw [result] at none
            exact absurd (List.length_eq_zero_iff.mp (Int.ofNat_eq_zero.mp none)) some
  | closed =>
      obtain ⟨place, rfl, rfl, -, good⟩ := arrived
      obtain ⟨ended, calls⟩ := handles_closed place result
      rw [result] at harmless
      rcases harmless with ⟨positive, -⟩ | ⟨full, -⟩ | ⟨-, shut⟩
      · exact absurd positive (by decide)
      · cases full
      · have isShut : ¬ 0 ≤ self.login.ssl.fd_ := not_le.mpr shut
        rw [if_neg isShut] at calls
        exact ⟨1, ended, fun call member => good call (calls ▸ member)⟩
  | failed =>
      rw [result] at harmless
      rcases harmless with ⟨positive, -⟩ | ⟨full, -⟩ | ⟨zero, -⟩
      · exact absurd positive (by decide)
      · cases full
      · cases zero

/-- A result that is not harmless is a full buffer that is taken in, or some call is not good. -/
theorem Arrived.full_of_not_harmless (arrived : Arrived count held self)
    (handles : Handles platform stack results self)
    (notHarmless : ¬ Harmless platform stack held (results count)) :
    (results count).Full ∧ ∃ after, held.receive platform stack (results count) = .ok after := by
  obtain ⟨steps, ended, allGood⟩ := handles
  cases result : results count with
  | data bytes some fits =>
      rw [result] at notHarmless
      have positive : 0 < bytes.length := List.length_pos_iff.mpr some
      have full : (RecvResult.data bytes some fits).Full := by
        by_contra notFull
        have room : bytes.length ≠ PACKET_SIZE := fun same => notFull (RecvResult.full_data.mpr same)
        refine notHarmless (.inl ⟨?_, ?_⟩)
        · exact Int.natCast_pos.mpr positive
        · exact Int.ofNat_lt.mpr (lt_of_le_of_ne fits room)
      refine ⟨full, ?_⟩
      cases outcome : held.receive platform stack (RecvResult.data bytes some fits) with
      | error error => exact absurd (.inr (.inl ⟨full, error, outcome⟩)) notHarmless
      | ok after => exact ⟨after, rfl⟩
  | closed =>
      obtain ⟨place, rfl, rfl, -, -⟩ := arrived
      obtain ⟨closedEnded, calls⟩ := @handles_closed platform stack results self place result
      rw [result] at notHarmless
      have isOpen : 0 ≤ self.login.ssl.fd_ := by
        by_contra isShut
        exact notHarmless (.inr (.inr ⟨rfl, not_le.mp isShut⟩))
      have same : self.step platform stack results = self.after platform stack results steps :=
        @after_unique platform stack results self 1 steps closedEnded ended
      rw [if_pos isOpen, same] at calls
      have isGood := allGood (.modify (-1)) (by
        rw [calls]
        exact List.mem_append_right _ (List.mem_singleton.mpr rfl))
      exact absurd isGood (show ¬ (0 : ℤ) ≤ -1 by decide)
  | failed =>
      obtain ⟨place, rfl, rfl, -, -⟩ := arrived
      obtain ⟨failedEnded, copied, member⟩ := @handles_failed platform stack results self place result
      rw [after_unique failedEnded ended] at member
      exact absurd (allGood _ member).1 (by decide)

theorem step_taken_le (self : Reading) :
    (self.step platform stack results).taken ≤ self.taken + 1 := by
  rw [step]
  split
  next =>
    rw [receive]
    dsimp only
    split
    next =>
      rw [peerClosed]
      split
      · exact le_rfl
      · exact le_rfl
    next => exact le_rfl
  next =>
    rw [appendOnce]
    split
    next => exact Nat.le_succ _
    next =>
      rw [settle]
      split
      · exact Nat.le_succ _
      · exact Nat.le_succ _
  next => exact Nat.le_succ _
  next => exact Nat.le_succ _

theorem after_taken_le (self : Reading) (steps : ℕ) :
    (self.after platform stack results steps).taken ≤ self.taken + steps := by
  induction steps generalizing self with
  | zero => exact le_rfl
  | succ steps inductionHypothesis =>
      rw [after_succ]
      have once := @step_taken_le platform stack results self
      have rest := inductionHypothesis (self.step platform stack results)
      omega

theorem Handles.after (handles : Handles platform stack results self) (first : ℕ) :
    Handles platform stack results (self.after platform stack results first) := by
  obtain ⟨steps, ended, good⟩ := handles
  have same : (self.after platform stack results first).after platform stack results steps =
      self.after platform stack results steps := by
    rw [after_add, Nat.add_comm, ← after_add, ended.after]
  exact ⟨steps, by rwa [same], by rwa [same]⟩

theorem Handles.of_after {first : ℕ}
    (handles : Handles platform stack results (self.after platform stack results first)) :
    Handles platform stack results self := by
  obtain ⟨steps, ended, good⟩ := handles
  rw [after_add] at ended good
  exact ⟨first + steps, ended, good⟩

/-- Full buffers that are taken in lead to the next `recv`. -/
theorem Absorbed.arrives {client : Held} (absorbed : Absorbed platform stack results client count held)
    (begins : Arrived 0 client self) :
    ∃ steps, Arrived count held (self.after platform stack results steps) := by
  induction absorbed with
  | none => exact ⟨0, begins⟩
  | full _ full received inductionHypothesis =>
      obtain ⟨first, arrived⟩ := inductionHypothesis
      obtain ⟨second, next⟩ := arrived.full full received
      rw [after_add] at next
      exact ⟨first + second, next⟩

/-- Before the first harmless result, every result is a full buffer that is taken in. -/
theorem absorbed_of_no_harmless {client : Held} (begins : Arrived 0 client self)
    (handles : Handles platform stack results self)
    (noHarmless : ¬ ∃ count held, Absorbed platform stack results client count held ∧
      Harmless platform stack held (results count)) (count : ℕ) :
    ∃ held, Absorbed platform stack results client count held := by
  induction count with
  | zero => exact ⟨client, .none⟩
  | succ count inductionHypothesis =>
      obtain ⟨held, absorbed⟩ := inductionHypothesis
      obtain ⟨steps, arrived⟩ := absorbed.arrives begins
      obtain ⟨full, after, received⟩ := arrived.full_of_not_harmless (handles.after steps)
        fun harmless => noHarmless ⟨count, held, absorbed, harmless⟩
      exact ⟨after, .full absorbed full received⟩

/-- The call ends and makes good calls only if and only if some full buffers, which are
taken in, are followed by a harmless result. -/
theorem handles_iff (platform : Platform) (stack : ℕ → ℕ → UInt8) (results : ℕ → RecvResult)
    (login : Login) (inpkt_ : IPacket) (memory : ℕ → UInt8) (ready : inpkt_.Ready) :
    Handles platform stack results (start login inpkt_ memory) ↔
      ∃ count held, Absorbed platform stack results { login := login, inpkt_ := inpkt_ } count held ∧
        Harmless platform stack held (results count) := by
  have begins : Arrived 0 { login := login, inpkt_ := inpkt_ } (start login inpkt_ memory) :=
    ⟨rfl, rfl, rfl, ready, fun call member => absurd member List.not_mem_nil⟩
  constructor
  · intro handles
    by_contra noHarmless
    have ⟨steps, ended, _⟩ := handles
    obtain ⟨held, absorbed⟩ := absorbed_of_no_harmless begins handles noHarmless (steps + 1)
    obtain ⟨more, arrived⟩ := absorbed.arrives begins
    -- more results than steps were taken, and the call has not ended
    have bound := @after_taken_le platform stack results (start login inpkt_ memory) more
    rw [arrived.taken] at bound
    obtain ⟨rest, rfl⟩ := Nat.exists_eq_add_of_le (show steps ≤ more from by
      have begun : (start login inpkt_ memory).taken = 0 := rfl
      omega)
    have place := arrived.place
    rw [← after_add, ended.after] at place
    rcases ended with returned | ⟨error, thrown⟩
    · rw [returned] at place
      cases place
    · rw [thrown] at place
      cases place
  · rintro ⟨count, held, absorbed, harmless⟩
    obtain ⟨steps, arrived⟩ := absorbed.arrives begins
    exact Handles.of_after (arrived.harmless harmless)

/-- A packet of an identifier that `dispatch` does not know, as long as the buffer. -/
def fullBuffer : Bytes :=
  [0x50, 0x50, 0, 0, 0xf4, 0x7f, 0, 0, 0, 0, 0, 0] ++ List.replicate 32756 0

theorem fullBuffer_length : fullBuffer.length = PACKET_SIZE := by
  rw [fullBuffer, List.length_append, List.length_replicate]
  rfl

theorem fullBuffer_framed : Framed fullBuffer := by
  refine ⟨?_, fullBuffer_length.le⟩
  rw [fullBuffer_length, fullBuffer, announced_append _ (by decide)]
  decide

/-- It is taken in, and nothing is kept of it. -/
theorem fullBuffer_received (platform : Platform) (stack : ℕ → ℕ → UInt8) (login : Login)
    (initial : login.ssl.security_state_ = .kInit) :
    Held.absorb platform stack fullBuffer fullBuffer.length ⟨login, IPacket.reset, 0⟩ =
      .ok ⟨login, IPacket.reset, 1⟩ := by
  have unknown : (Login.dispatch (stack 1) platform
      { received := fullBuffer, pos := kHdrLen }).exec login = (.ok (), login) := by
    rw [Login.dispatch, Effect.exec_get, Login.deciphered, initial, if_neg (by decide)]
    rfl
  have whole : IPacket.is_complete { received := fullBuffer, pos := kHdrLen } = true := by
    rw [IPacket.is_complete, IPacket.pktLen_eq, decide_eq_true_eq, fullBuffer_framed.announces]
    exact Nat.add_comm _ _
  have complete : Login.completed (stack 1) platform { received := fullBuffer, pos := kHdrLen }
      login = (.ok IPacket.reset, login) := by
    rw [Login.completed, if_pos whole, unknown]
  rw [Held.absorb, List.take_length]
  dsimp only
  rw [IPacket.append_whole fullBuffer_framed]
  dsimp only
  rw [complete]
  dsimp only
  rw [if_neg (fun more => Nat.lt_irrefl _ more.2)]
/-- The full buffer and a byte of the next packet, for a connected client. -/
theorem full_and_byte_handled :
    Handles SSLClient.countingPlatform (fun _ _ => 0)
      (fun taken => if taken = 0 then .data fullBuffer (List.cons_ne_nil _ _) fullBuffer_length.le
        else .data [0x50] (List.cons_ne_nil _ _) (by decide))
      (start (Login.new ⟨0, 0, 0, 0⟩ 3 [] [] [] []).state IPacket.reset fun _ => 0) :=
  (handles_iff _ _ _ _ _ _ IPacket.ready_reset).mpr
    ⟨1, _, .full .none (RecvResult.full_data.mpr fullBuffer_length)
      (fullBuffer_received _ _ _ rfl), .inl ⟨by decide, by decide⟩⟩

/-- An error, which `append` gets as a count, or a closed peer, whose closed descriptor
`modify` gets. -/
theorem failed_closed_not_handled :
    ¬ Handles SSLClient.countingPlatform (fun _ _ => 0) (fun _ => .failed)
      (start (Login.new ⟨0, 0, 0, 0⟩ 3 [] [] [] []).state IPacket.reset fun _ => 0) ∧
    ¬ Handles SSLClient.countingPlatform (fun _ _ => 0) (fun _ => .closed)
      (start (Login.new ⟨0, 0, 0, 0⟩ 3 [] [] [] []).state IPacket.reset fun _ => 0) := by
  have begins : Arrived 0 ⟨(Login.new ⟨0, 0, 0, 0⟩ 3 [] [] [] []).state, IPacket.reset, 0⟩
      (start (Login.new ⟨0, 0, 0, 0⟩ 3 [] [] [] []).state IPacket.reset fun _ => 0) :=
    ⟨rfl, rfl, rfl, IPacket.ready_reset, fun call member => absurd member List.not_mem_nil⟩
  constructor
  · intro handles
    have full := (begins.full_of_not_harmless handles ?_).1
    · cases full
    · rintro (⟨positive, -⟩ | ⟨full, -⟩ | ⟨zero, -⟩)
      · exact absurd positive (by decide)
      · cases full
      · cases zero
  · intro handles
    have full := (begins.full_of_not_harmless handles ?_).1
    · cases full
    · rintro (⟨positive, -⟩ | ⟨full, -⟩ | ⟨-, shut⟩)
      · exact absurd positive (by decide)
      · cases full
      · exact absurd shut (show ¬ (3 : ℤ) < 0 by decide)

/-! ### The next call -/

/-- The packet is ready, and what is left of the count is -1 or a part of the buffer. -/
def Keeps (self : Reading) : Prop :=
  match self.place with
  | .append _ nbuf => self.inpkt_.Ready ∧ nbuf ≠ 0 ∧ -1 ≤ nbuf ∧ nbuf ≤ PACKET_SIZE
  | .thrown _ => True
  | _ => self.inpkt_.Ready

theorem keeps_again {len nbuf : ℤ} (place : self.place = again len nbuf)
    (ready : self.inpkt_.Ready) (fits : nbuf ≤ PACKET_SIZE) : self.Keeps := by
  rw [again] at place
  rw [Keeps]
  split at place
  next more =>
    rw [place]
    exact ⟨ready, more.ne', by omega, fits⟩
  next =>
    split at place
    · rw [place]
      exact ready
    · rw [place]
      exact ready

theorem Keeps.step (keeps : self.Keeps) : (self.step platform stack results).Keeps := by
  rw [Reading.step]
  cases place : self.place with
  | recv =>
      rw [Keeps, place] at keeps
      dsimp only
      rw [receive]
      dsimp only
      split
      next =>
        rw [peerClosed]
        split
        · trivial
        · exact keeps
      next notZero => exact ⟨keeps, notZero, (results self.taken).len_bounds⟩
  | append len nbuf =>
      rw [Keeps, place] at keeps
      obtain ⟨ready, notZero, fromBelow, fits⟩ := keeps
      dsimp only
      rw [appendOnce]
      split
      next => trivial
      next inpkt ncopy appended =>
        have positive : 0 < toSize nbuf := by
          have limit : PACKET_SIZE < 2 ^ 63 := by decide
          rw [toSize]
          omega
        have keepsReady := (ready.appendFrom positive appended).2
        rw [settle]
        split
        next => trivial
        next completed =>
          exact keeps_again rfl (Login.completed_ready keepsReady completed) (by omega)
  | returned => exact keeps
  | thrown error => exact keeps

theorem Keeps.after (keeps : self.Keeps) (steps : ℕ) :
    (self.after platform stack results steps).Keeps := by
  induction steps generalizing self with
  | zero => exact keeps
  | succ steps inductionHypothesis => exact inductionHypothesis keeps.step

/-- A call that has returned leaves a packet that is ready for the next one. -/
theorem ready_of_returned {login : Login} {inpkt_ : IPacket} {memory : ℕ → UInt8} {steps : ℕ}
    (ready : inpkt_.Ready)
    (returned : ((start login inpkt_ memory).after platform stack results steps).place =
      .returned) :
    ((start login inpkt_ memory).after platform stack results steps).inpkt_.Ready := by
  have begins : (start login inpkt_ memory).Keeps := ready
  have keeps := @Keeps.after platform stack results _ begins steps
  rwa [Keeps, returned] at keeps

end Run

end Reading

end StdPrograms.Release

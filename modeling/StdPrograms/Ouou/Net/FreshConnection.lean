import StdPrograms.Ouou.Net.LinuxClient
import StdPrograms.Ouou.Net.Reassembly

/-!
Contract: what a connection delivers, against the bytes received on it.

Owns what a new client delivers of given bytes, and the steps along which every connection
of one client delivers just that: `_close` resets the lists and the timer, but not the
receive buffer, so that what one connection leaves in it is parsed in front of the next.

Does not own the registrations with the event loop.
-/

namespace StdPrograms.Ouou

open StdPrograms.Foundation

/-! ### A new client -/

section Deliveries

variable (package : Package)

/-- The messages that the loop parses from a buffer. -/
def parsed : Nat → Bytes → List Message
  | 0, _ => []
  | rounds + 1, buf =>
      match Message.allfrombytes package buf false with
      | .ok (some p) => p :: parsed rounds (buf.drop p.size)
      | _ => []

/-- Those that reach the callback of a client that waits for nothing. -/
def deliveries (buf : Bytes) : List Message :=
  (parsed package buf.length buf).filter fun msg => msg.header.msg_id ≠ HEARTBEAT_ID

variable {package}

theorem size_pos (p : Message) : 0 < p.size := by
  have seven : Header.type_size = 7 := rfl
  rw [Message.size, seven]
  omega

theorem parsed_nil (rounds : Nat) : parsed package rounds [] = [] := by
  cases rounds with
  | zero => rfl
  | succ rounds =>
      have short : Message.allfrombytes package [] false = .ok none :=
        Message.allfromstream_short false (by decide)
      rw [parsed, short]

/-- As many rounds as there are bytes are enough. -/
theorem parsed_eq_parsed {rounds others : Nat} {buf : Bytes} (enough : buf.length ≤ rounds)
    (enough' : buf.length ≤ others) : parsed package rounds buf = parsed package others buf := by
  induction rounds generalizing buf others with
  | zero => rw [List.length_eq_zero_iff.mp (Nat.le_zero.mp enough), parsed_nil, parsed_nil]
  | succ rounds inductionHypothesis =>
      cases others with
      | zero => rw [List.length_eq_zero_iff.mp (Nat.le_zero.mp enough'), parsed_nil, parsed_nil]
      | succ others =>
          rw [parsed, parsed]
          split
          next p found =>
            have positive := size_pos p
            have shorter : (buf.drop p.size).length ≤ buf.length - 1 := by
              rw [List.length_drop]
              omega
            have later : parsed package rounds (buf.drop p.size) =
                parsed package others (buf.drop p.size) :=
              inductionHypothesis (by omega) (by omega)
            rw [later]
          next => rfl

theorem deliveries_of_stuck {buf : Bytes}
    (stuck : ∀ p, Message.allfrombytes package buf false ≠ .ok (some p)) :
    deliveries package buf = [] := by
  rw [deliveries]
  cases length : buf.length with
  | zero => rfl
  | succ rounds =>
      rw [parsed]
      split
      next p found => exact absurd found (stuck p)
      next => rfl

theorem filter_cons_message (p : Message) (rest : List Message) :
    (p :: rest).filter (fun msg => msg.header.msg_id ≠ HEARTBEAT_ID) =
      (if p.header.msg_id ≠ HEARTBEAT_ID then [p] else []) ++
        rest.filter fun msg => msg.header.msg_id ≠ HEARTBEAT_ID := by
  by_cases heartbeat : p.header.msg_id = HEARTBEAT_ID
  · simp [heartbeat]
  · simp [heartbeat]

theorem deliveries_of_parsed {buf : Bytes} {p : Message}
    (found : Message.allfrombytes package buf false = .ok (some p)) :
    deliveries package buf =
      (if p.header.msg_id ≠ HEARTBEAT_ID then [p] else []) ++
        deliveries package (buf.drop p.size) := by
  have positive := size_pos p
  have next : parsed package (buf.length + 1) buf =
      p :: parsed package buf.length (buf.drop p.size) := by
    rw [parsed, found]
  have rest : parsed package buf.length (buf.drop p.size) =
      parsed package (buf.drop p.size).length (buf.drop p.size) :=
    parsed_eq_parsed (by rw [List.length_drop]; omega) le_rfl
  rw [deliveries, parsed_eq_parsed le_rfl (Nat.le_succ _), next, rest, filter_cons_message]
  rfl

end Deliveries

namespace Client

variable {package : Package}

/-- A client that waits for nothing goes on waiting for nothing. -/
theorem drain_delivered (rounds : Nat) {self : Client} (nothing : self.waited_response = []) :
    (drain package rounds self).1.delivered =
      self.delivered ++
        (parsed package rounds self.buf).filter fun msg => msg.header.msg_id ≠ HEARTBEAT_ID := by
  induction rounds generalizing self with
  | zero => exact (List.append_nil _).symm
  | succ rounds inductionHypothesis =>
      rw [drain, parsed]
      split
      next error raised =>
        rw [raised]
        exact (List.append_nil _).symm
      next waits =>
        rw [waits]
        exact (List.append_nil _).symm
      next p found =>
        have still : (self.turn p).waited_response = [] := by
          simp [turn, handle_message, nothing]
        have delivered : (self.turn p).delivered =
            self.delivered ++ if p.header.msg_id ≠ HEARTBEAT_ID then [p] else [] := by
          simp only [turn, handle_message, nothing, List.not_mem_nil, decide_false, Bool.or_false,
            decide_eq_true_eq]
          split
          next => rfl
          next => exact (List.append_nil _).symm
        rw [found, inductionHypothesis still, delivered, turn_buf, List.append_assoc,
          filter_cons_message]

/-- What a new client delivers of the bytes, given all at once. -/
theorem _handle_data_new (bytes : Bytes) :
    (_handle_data package {} bytes).1.delivered = deliveries package bytes := by
  by_cases none : bytes = []
  · rw [none]
    rfl
  · rw [_handle_data_nonempty none, drain_delivered _ rfl]
    rfl

end Client

/-! ### One client, connection after connection -/

namespace LinuxClient

variable {package : Package} {self after : LinuxClient} {event : Event}

/-- Outside the loop of `_handle_data`, the messages delivered since `connect` are those that
a new client delivers of the bytes received since. -/
def Clean (package : Package) (self : LinuxClient) : Prop :=
  self.handling = false →
    self.delivered = (Client._handle_data package {} self.received).1.delivered

/-- No bytes are left where `connect` opens a socket. A message that is parsed has its tail in
the buffer, is the same whatever bytes follow, and is no heartbeat that is waited for. -/
def StartsClean (package : Package) (self : LinuxClient) : Event → Prop
  | .connect _ _ => self.state = .CLOSED ∨ self.state = .CLOSING → self._buf = []
  | .turn _ =>
      ∀ p, Message.allfrombytes package self._buf false = .ok (some p) →
        p.size ≤ self._buf.length ∧
          (∀ more, Message.allfrombytes package (self._buf ++ more) false = .ok (some p)) ∧
          (p.header.msg_id = HEARTBEAT_ID → HEARTBEAT_ID ∉ self._waited_response)
  | _ => True

/-- What has been delivered, and what the buffer still makes whatever bytes follow, is what
the bytes received make with those behind them. -/
structure Accounted (package : Package) (client : LinuxClient) : Prop where
  delivered : ∀ more, deliveries package (client.received ++ more) =
    client.delivered ++ deliveries package (client._buf ++ more)
  idle : client.handling = false → deliveries package client._buf = []

theorem Accounted.clean (accounted : self.Accounted package) : self.Clean package := by
  intro outside
  have all := accounted.delivered []
  rw [List.append_nil, List.append_nil, accounted.idle outside, List.append_nil] at all
  rw [Client._handle_data_new, all]

/-- The part of a client that `_handle_data` works on. -/
def receiving (self : LinuxClient) : Bytes × Bytes × List Message × Bool :=
  (self._buf, self.received, self.delivered, self.handling)

theorem Accounted.of_receiving (accounted : self.Accounted package)
    (same : after.receiving = self.receiving) : after.Accounted package := by
  obtain ⟨buf, rest⟩ := Prod.mk.inj same
  obtain ⟨received, rest⟩ := Prod.mk.inj rest
  obtain ⟨delivered, handling⟩ := Prod.mk.inj rest
  constructor
  · rw [received, delivered, buf]
    exact accounted.delivered
  · rw [handling, buf]
    exact accounted.idle

@[simp] theorem base_close_receiving : self.base_close.receiving = self.receiving := by
  unfold base_close
  split <;> rfl

@[simp] theorem _close_receiving : self._close.receiving = self.receiving := by
  unfold _close
  split <;> exact base_close_receiving

@[simp] theorem close_receiving : self.close.receiving = self.receiving := by
  unfold close
  split
  next => rfl
  next => rfl
  next => exact _close_receiving
  next => exact _close_receiving

@[simp] theorem _keep_alive_receiving : self._keep_alive.receiving = self.receiving := by
  unfold _keep_alive
  split <;> rfl

@[simp] theorem async_connect_receiving (inProgress : Bool) :
    (self.async_connect inProgress).receiving = self.receiving := by
  unfold async_connect
  split
  next => rfl
  next => split <;> rfl

theorem _connection_made_receiving (connection : Connection) :
    (self._connection_made connection).receiving = self.receiving := by
  unfold _connection_made
  split
  next => rfl
  next fd _ =>
    dsimp only
    split
    next => exact _close_receiving
    next =>
      split
      next => rfl
      next =>
        split
        next => exact _keep_alive_receiving
        next => exact _keep_alive_receiving

theorem Accounted.connect (accounted : self.Accounted package) {fd : Nat} {inProgress : Bool}
    (starts : self.StartsClean package (.connect fd inProgress)) :
    (self.connect fd inProgress).Accounted package := by
  have fresh (opens : self.state = .CLOSED ∨ self.state = .CLOSING) :
      ({ self with
        state := .CONNECTING, _sock := some fd, received := [], delivered := [] } :
        LinuxClient).Accounted package := by
    have empty := starts opens
    constructor
    · intro more
      rw [empty]
      rfl
    · intro _
      rw [empty]
      rfl
  unfold LinuxClient.connect
  split
  next => exact accounted
  next => exact accounted.of_receiving (async_connect_receiving inProgress)
  next state => exact (fresh (.inl state)).of_receiving (async_connect_receiving inProgress)
  next state => exact (fresh (.inr state)).of_receiving (async_connect_receiving inProgress)

theorem Accounted._data_ready (accounted : self.Accounted package) (recv : Recv) :
    (self._data_ready recv).Accounted package := by
  unfold LinuxClient._data_ready
  split
  next => exact accounted
  next => exact accounted
  next data _ =>
    split
    next => exact accounted.of_receiving _close_receiving
    next =>
      constructor
      · intro more
        dsimp only
        rw [List.append_assoc, List.append_assoc]
        exact accounted.delivered (data ++ more)
      · nofun

/-- Without a heartbeat that is waited for, the callback is called for all but heartbeats. -/
theorem handle_message_receiving {p : Message} (closes : Bool)
    (unexpected : p.header.msg_id = HEARTBEAT_ID → HEARTBEAT_ID ∉ self._waited_response) :
    (self.handle_message p closes).receiving =
      (self._buf, self.received,
        self.delivered ++ (if p.header.msg_id ≠ HEARTBEAT_ID then [p] else []), self.handling) := by
  have called : self.Called p ↔ p.header.msg_id ≠ HEARTBEAT_ID := by
    constructor
    · rintro (other | waited) same
      · exact other same
      · rw [same] at waited
        exact unexpected same waited
    · exact .inl
  unfold handle_message
  simp only [called]
  split
  next =>
    cases closes with
    | false => rfl
    | true => exact close_receiving
  next =>
    rw [List.append_nil]
    rfl

theorem Accounted.turn (accounted : self.Accounted package) (inside : self.handling = true)
    {closes : Bool} (starts : self.StartsClean package (.turn closes)) :
    (self.turn package closes).Accounted package := by
  have ends (stuck : ∀ p, Message.allfrombytes package self._buf false ≠ .ok (some p)) :
      ({ self with handling := false } : LinuxClient).Accounted package :=
    ⟨accounted.delivered, fun _ => deliveries_of_stuck stuck⟩
  unfold LinuxClient.turn
  split
  next error raised =>
    apply ends
    rw [raised]
    exact nofun
  next waits =>
    apply ends
    rw [waits]
    exact nofun
  next p found =>
    obtain ⟨tailed, stable, unexpected⟩ := starts p found
    obtain ⟨-, rest⟩ := Prod.mk.inj (handle_message_receiving closes unexpected)
    obtain ⟨received, rest⟩ := Prod.mk.inj rest
    obtain ⟨delivered, handling⟩ := Prod.mk.inj rest
    constructor
    · intro more
      dsimp only
      rw [received, delivered, accounted.delivered more, deliveries_of_parsed (stable more),
        List.drop_append_of_le_length tailed, List.append_assoc]
    · intro outside
      dsimp only at outside
      rw [handling, inside] at outside
      cases outside

theorem Accounted.step (accounted : self.Accounted package)
    (starts : self.StartsClean package event) (taken : self.step package event = some after) :
    after.Accounted package := by
  cases steps_of_step taken with
  | connect => exact accounted.connect starts
  | writable fd connection => exact accounted.of_receiving (_connection_made_receiving connection)
  | readable fd recv => exact accounted._data_ready recv
  | turn closes inside => exact accounted.turn inside starts
  | close => exact accounted.of_receiving close_receiving
  | send_message => exact accounted.of_receiving rfl
  | keep_alive => exact accounted.of_receiving _keep_alive_receiving

/-- Along a run that starts every connection with an empty buffer and takes no message apart,
the messages of every connection are a function of its bytes. -/
theorem visits_clean_of_startsClean (package : Package) (events : List Event)
    (starts : Along (step package) (StartsClean package) {} events) :
    Visits (step package) (Clean package) {} events := by
  have accounted : Visits (step package) (Accounted package) {} events := by
    refine visits_of_along ?_ ⟨fun _ => rfl, fun _ => rfl⟩ starts
    intro self event after before meets taken
    exact before.step meets taken
  exact accounted.imp fun _ => Accounted.clean

end LinuxClient

/-- A whole frame is the same message whatever bytes follow. -/
theorem allfrombytes_frame {package : Package} {header : Header} {headerBytes payload : Bytes}
    {message : Message} (encoded : header.tobytes = .ok headerBytes)
    (size : payload.length = header.payload_size)
    (reads : Message.ReadsPayload package (header.received false) payload message)
    (more : Bytes) :
    Message.allfrombytes package (headerBytes ++ payload ++ [MSG_TAIL] ++ more) false =
      .ok (some message) := by
  rw [Message.allfrombytes, List.append_assoc, stripTail_append _ (by simp)]
  exact Message.allfromstream_frame encoded size reads _

/-- The header of a message without a payload. -/
def bareHeader : Header := { msg_id := 1, payload_size := 0 }

def bareBytes : Bytes := [0x7b, 1, 0, 0, 0, 0, 0, 0x7d]

theorem allfrombytes_bareBytes (more : Bytes) :
    Message.allfrombytes (package asciiHost) (bareBytes ++ more) false =
      .ok (some (Message.bare (bareHeader.received false))) := by
  have encoded : bareHeader.tobytes = .ok [0x7b, 1, 0, 0, 0, 0, 0] := by decide +kernel
  exact allfrombytes_frame encoded rfl (Message.readsPayload_bare [] (.inr rfl)) more

namespace LinuxClient

/-- A callback that closes, and a second connection. -/
theorem visits_clean_reconnected :
    Visits (step (package asciiHost)) (Clean (package asciiHost)) {}
      [.connect 3 true, .writable 3 (.made true), .readable 3 (.data bareBytes), .turn true,
        .turn false, .connect 4 true, .writable 4 (.made true), .readable 4 (.data bareBytes),
        .turn false] := by
  apply visits_clean_of_startsClean
  have found := allfrombytes_bareBytes []
  rw [List.append_nil] at found
  have waits : Message.allfrombytes (package asciiHost) [] false = .ok none :=
    Message.allfromstream_short false (by decide)
  have size : (Message.bare (bareHeader.received false)).size = 8 := rfl
  have length : bareBytes.length = 8 := rfl
  have some : bareBytes ≠ [] := nofun
  have behind : bareBytes.drop 8 = [] := rfl
  have id : (Message.bare (bareHeader.received false)).header.msg_id = 1 := rfl
  simp [Along, step, StartsClean, connect, async_connect, _connection_made, _keep_alive,
    _data_ready, turn, handle_message, Called, remove_waited, message_callback, close, _close,
    base_close, found, waits, size, length, some, behind, id, allfrombytes_bareBytes, HEARTBEAT_ID]

/-- The first connection ends behind one byte of a frame: the second one delivers a message
with another identifier than the one that was sent. -/
theorem not_clean_midFrame :
    ¬ Visits (step (package asciiHost)) (Clean (package asciiHost)) {}
      [.connect 3 true, .writable 3 (.made true), .readable 3 (.data [0x7b]), .turn false,
        .readable 3 (.data []), .connect 4 true, .writable 4 (.made true),
        .readable 4 (.data bareBytes), .turn false, .turn false] := by
  intro visits
  have reached : (follow (step (package asciiHost)) {}
      [.connect 3 true, .writable 3 (.made true), .readable 3 (.data [0x7b]), .turn false,
        .readable 3 (.data []), .connect 4 true, .writable 4 (.made true),
        .readable 4 (.data bareBytes), .turn false, .turn false]).map
      (fun self => (self.handling, self.received, self.delivered.map fun msg => msg.header.msg_id)) =
        some (false, bareBytes, [379]) := by
    decide +kernel
  obtain ⟨self, followed, seen⟩ := Option.map_eq_some_iff.mp reached
  obtain ⟨outside, rest⟩ := Prod.mk.inj seen
  obtain ⟨received, delivered⟩ := Prod.mk.inj rest
  have clean := visits.reached followed outside
  have sent : (Client._handle_data (package asciiHost) {} bareBytes).1.delivered.map
      (fun msg => msg.header.msg_id) = [1] := by
    decide +kernel
  rw [clean, received, sent] at delivered
  exact absurd delivered (by decide)

end LinuxClient

end StdPrograms.Ouou

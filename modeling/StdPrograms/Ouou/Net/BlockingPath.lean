import StdPrograms.Ouou.Net.Reassembly

/-!
Contract: the blocking path and the event loop on one stream of frames.

Owns frames with arbitrary payloads, the outcome of decoding their payloads one
by one, and two comparisons with it. `recv_message` always has that outcome: it
hands the parser one payload, however the socket hands out the bytes. The event
loop has it as long as no decoder leaves its own payload, since it hands the
parser the rest of the buffer.

Does not own what is decoded from a payload.
-/

namespace StdPrograms.Ouou

open StdPrograms.Foundation

/-! ### Frames with arbitrary payloads -/

/-- A header with a registered identifier and uncompressed flags, and as many
payload bytes as it announces. -/
structure WireFrame (package : Package) where
  header : Header
  headerBytes : Bytes
  payload : Bytes
  encoded : header.tobytes = .ok headerBytes
  fromServer : header.c2s = false
  uncompressed : header.is_compressed = false
  registered : ∃ cls, package.get_owner_cls header = .ok cls
  size : payload.length = header.payload_size

namespace WireFrame

variable {package : Package}

def tobytes (frame : WireFrame package) : Bytes :=
  frame.headerBytes ++ (frame.payload ++ [MSG_TAIL])

/-- The bytes of the frames, one after the other. -/
def stream (frames : List (WireFrame package)) : Bytes := (frames.map tobytes).flatten

/-- The payloads one by one, up to the first that does not decode. -/
def decodeEach : List (WireFrame package) → List Message × Option PyError
  | [] => ([], none)
  | frame :: rest =>
      match Message.frombytes package frame.payload frame.header with
      | .error error => ([], some error)
      | .ok message => (message :: (decodeEach rest).1, (decodeEach rest).2)

theorem received_header (frame : WireFrame package) : frame.header.received false = frame.header := by
  rw [Header.received, ← frame.fromServer]

theorem headerBytes_length (frame : WireFrame package) :
    frame.headerBytes.length = Header.type_size :=
  Header.tobytes_length frame.encoded

theorem tobytes_length (frame : WireFrame package) :
    frame.tobytes.length = Header.type_size + frame.header.body_size := by
  rw [tobytes, Header.body_size, ← frame.size]
  simp [frame.headerBytes_length]

end WireFrame

/-! ### The blocking path -/

namespace Client

namespace Socket

/-- `recv` grants some of what is asked for. -/
theorem recv_grants (bytes rest : Bytes) (grants : List Nat) (some : bytes ≠ []) :
    ∃ granted, 0 < granted ∧ granted ≤ bytes.length ∧
      Socket.recv ⟨bytes ++ rest, grants⟩ bytes.length =
        (bytes.take granted, ⟨bytes.drop granted ++ rest, grants.tail⟩) := by
  have := List.length_pos_iff.mpr some
  refine ⟨min bytes.length (max 1 (grants.headD bytes.length)), by omega, by omega, ?_⟩
  rw [recv, List.take_append_of_le_length (by omega), List.drop_append_of_le_length (by omega)]

theorem recv_nbytes_go (rounds n : Nat) (grants : List Nat) (data bytes rest : Bytes)
    (missing : data.length + bytes.length = n) (enough : bytes.length ≤ rounds) :
    ∃ later, recv_nbytes.go rounds n ⟨bytes ++ rest, grants⟩ data =
      some (data ++ bytes, ⟨rest, later⟩) := by
  induction rounds generalizing grants data bytes with
  | zero =>
      obtain rfl : bytes = [] := List.length_eq_zero_iff.mp (by omega)
      refine ⟨grants, ?_⟩
      rw [recv_nbytes.go, if_neg (by simp at missing; omega)]
      simp
  | succ rounds inductionHypothesis =>
      by_cases none : bytes = []
      · subst none
        refine ⟨grants, ?_⟩
        rw [recv_nbytes.go, if_neg (by simp at missing; omega)]
        simp
      · obtain ⟨granted, positive, bounded, received⟩ := recv_grants bytes rest grants none
        have := List.length_pos_iff.mpr none
        obtain ⟨later, finished⟩ := inductionHypothesis grants.tail
          (data ++ bytes.take granted) (bytes.drop granted)
          (by simp only [List.length_append, List.length_take, List.length_drop]; omega)
          (by rw [List.length_drop]; omega)
        refine ⟨later, ?_⟩
        rw [recv_nbytes.go, if_pos (by omega), show n - data.length = bytes.length by omega,
          received]
        simpa using finished

/-- `recv_nbytes` returns the next `n` bytes, however they are granted. -/
theorem recv_nbytes_exact (bytes rest : Bytes) (grants : List Nat) :
    ∃ later, recv_nbytes ⟨bytes ++ rest, grants⟩ bytes.length = some (bytes, ⟨rest, later⟩) :=
  recv_nbytes_go bytes.length bytes.length grants [] bytes rest (by simp) le_rfl

end Socket

variable {package : Package}

/-- `recv_message`, up to `count` times. -/
def recv_messages (package : Package) : Nat → Socket → List Message × Option PyError
  | 0, _ => ([], none)
  | count + 1, socket =>
      match recv_message package socket with
      | none => ([], none)
      | some (.error error, _) => ([], some error)
      | some (.ok message, socket) =>
          let (messages, error) := recv_messages package count socket
          (message :: messages, error)

/-- `recv_message` decodes the payload of the next frame, and nothing else. -/
theorem recv_message_frame (frame : WireFrame package) (rest : Bytes) (grants : List Nat) :
    ∃ later, recv_message package ⟨frame.tobytes ++ rest, grants⟩ =
      some (Message.frombytes package frame.payload frame.header, ⟨rest, later⟩) := by
  obtain ⟨middle, hasHead⟩ := Socket.recv_nbytes_exact frame.headerBytes
    (frame.payload ++ [MSG_TAIL] ++ rest) grants
  obtain ⟨later, hasBody⟩ := Socket.recv_nbytes_exact (frame.payload ++ [MSG_TAIL]) rest middle
  have bodySize : frame.header.body_size = (frame.payload ++ [MSG_TAIL]).length := by
    rw [Header.body_size, ← frame.size]
    simp
  obtain ⟨after, decoded, -⟩ := Message.decode_header false frame.encoded [] []
  rw [List.append_nil, List.append_nil, frame.received_header] at decoded
  have sameMessage : Message.frombytes package (frame.payload ++ [MSG_TAIL]) frame.header =
      Message.frombytes package frame.payload frame.header := by
    rw [Message.frombytes, Message.frombytes, if_neg (by simp [frame.size]),
      if_neg (by simp [frame.size])]
    simp [Message.untailed, ← frame.size]
  refine ⟨later, ?_⟩
  rw [WireFrame.tobytes, List.append_assoc, recv_message, ← frame.headerBytes_length, hasHead]
  simp only [Option.bind_eq_bind, Option.bind_some, decoded]
  show (Socket.recv_nbytes ⟨_, middle⟩ frame.header.body_size >>= _) = _
  rw [bodySize, hasBody]
  show some _ = some _
  rw [sameMessage]

/-- The blocking path decodes the payloads one by one. -/
theorem recv_messages_stream (frames : List (WireFrame package)) (grants : List Nat) :
    recv_messages package frames.length ⟨WireFrame.stream frames, grants⟩ =
      WireFrame.decodeEach frames := by
  induction frames generalizing grants with
  | nil => rfl
  | cons frame rest inductionHypothesis =>
      obtain ⟨later, received⟩ := recv_message_frame frame (WireFrame.stream rest) grants
      have isStream : WireFrame.stream (frame :: rest) =
          frame.tobytes ++ WireFrame.stream rest := rfl
      rw [isStream, List.length_cons, recv_messages, received, WireFrame.decodeEach]
      cases Message.frombytes package frame.payload frame.header with
      | error error => rfl
      | ok message => simp only [inductionHypothesis]

end Client

/-! ### The event loop -/

namespace WireFrame

variable {package : Package}

/-- What follows the payload of a frame in the buffer, with these frames behind it. -/
def following (rest : List (WireFrame package)) : Bytes :=
  Message.stripTail (MSG_TAIL :: stream rest)

/-- The decoder of the payload reads nothing outside it, past the end where `back`
follows it; a multi-message looks for another header there. -/
def KeepsTo (frame : WireFrame package) (back : Bytes) : Prop :=
  frame.payload = [] ∨ ∀ cls, package.get_owner_cls frame.header = .ok cls →
    (cls.multiple = true → back = [] ∨ Header.type_size ≤ frame.payload.length) ∧
    (cls.multiple = false →
      ∀ request ∈ cls.body.requests Reader.read_bytes (.ofBytes frame.payload),
        Reader.Inside back request.state request.size)

/-- Up to the first payload that does not decode, the decoders keep to their
payloads. -/
def KeepToPayloads : List (WireFrame package) → Prop
  | [] => True
  | frame :: rest =>
      frame.KeepsTo (following rest) ∧
        ((∃ message, Message.frombytes package frame.payload frame.header = .ok message) →
          KeepToPayloads rest)

/-- Two decodings with the same result make the same message. -/
private theorem _fromstream_sameResult {cls : MessageClass} {header : Header}
    {left right : Reader} {related : Reader → Reader → Prop} (plain : cls.multiple = false)
    (same : ReadProgram.SameResult related (left.decode cls.body) (right.decode cls.body)) :
    (cls._fromstream left header).map Prod.fst = (cls._fromstream right header).map Prod.fst := by
  rw [MessageClass._fromstream, MessageClass._fromstream, plain, if_neg (by simp),
    if_neg (by simp)]
  cases decodedLeft : left.decode cls.body with
  | error error =>
      cases decodedRight : right.decode cls.body with
      | error other =>
          rw [decodedLeft, decodedRight] at same
          exact congrArg Except.error same
      | ok result =>
          rw [decodedLeft, decodedRight] at same
          exact same.elim
  | ok result =>
      cases decodedRight : right.decode cls.body with
      | error other =>
          rw [decodedLeft, decodedRight] at same
          exact same.elim
      | ok other =>
          rw [decodedLeft, decodedRight] at same
          show Except.ok (Message.mk ⟨cls, header, result.1⟩ false []) =
            Except.ok (Message.mk ⟨cls, header, other.1⟩ false [])
          rw [same.1]

/-- A decoder that keeps to its payload makes the same of it in a buffer. -/
theorem fromstream_ahead (frame : WireFrame package) {back : Bytes} (keeps : frame.KeepsTo back)
    {reader : Reader} (ahead : reader.Ahead back frame.payload) :
    (Message.fromstream package reader frame.header).map Prod.fst =
      (Message.fromstream package (.ofBytes frame.payload) frame.header).map Prod.fst := by
  rw [Message.fromstream, Message.fromstream]
  by_cases bare : frame.header.msg_id = 0 ∨ frame.header.payload_size = 0
  · rw [if_pos bare, if_pos bare]
    rfl
  · obtain ⟨cls, registered⟩ := frame.registered
    have nonempty : frame.payload ≠ [] := fun none => bare (.inr (by rw [← frame.size, none]; rfl))
    obtain ⟨counted, inside⟩ := (or_iff_right nonempty).mp keeps cls registered
    rw [if_neg bare, if_neg bare, Message.payloadReader, Message.payloadReader,
      if_neg (by simp [frame.uncompressed]), if_neg (by simp [frame.uncompressed])]
    show Except.map _ (package.get_owner_cls _ >>= _) = Except.map _ (package.get_owner_cls _ >>= _)
    rw [registered]
    show Except.map _ (cls._fromstream _ _) = Except.map _ (cls._fromstream _ _)
    obtain ⟨front, buffer, position⟩ := ahead
    by_cases multiple : cls.multiple = true
    · have available : (Header.type_size : Int) ≤ reader.available ↔
          (Header.type_size : Int) ≤ (Reader.ofBytes frame.payload).available := by
        rw [Reader.available, Message.available_ofBytes, buffer, position]
        simp only [List.length_append]
        rcases counted multiple with rfl | long
        · simp only [List.length_nil]
          omega
        · omega
      rw [MessageClass._fromstream, MessageClass._fromstream, if_pos multiple, if_pos multiple]
      by_cases another : (Header.type_size : Int) ≤ reader.available
      · rw [if_pos another, if_pos (available.mp another)]
      · rw [if_neg another, if_neg (another ∘ available.mpr)]
        rfl
    · have plain : cls.multiple = false := by simpa using multiple
      have within : Reader.Within front back (.ofBytes frame.payload) reader :=
        ⟨buffer, by rw [position]; simp [Reader.ofBytes]⟩
      exact (_fromstream_sameResult plain
        (Reader.decode_within cls.body within (inside plain))).symm

/-- A buffer that starts with a frame yields what the payload alone does. -/
theorem allfrombytes_frame (frame : WireFrame package) (rest : List (WireFrame package))
    (keeps : frame.KeepsTo (following rest)) :
    Message.allfrombytes package (stream (frame :: rest)) false =
      (Message.frombytes package frame.payload frame.header).map some := by
  have stripped : Message.stripTail (stream (frame :: rest)) =
      frame.headerBytes ++ frame.payload ++ following rest := by
    have isStream : stream (frame :: rest) =
        frame.headerBytes ++ frame.payload ++ (MSG_TAIL :: stream rest) := by
      simp [stream, tobytes]
    rw [isStream, stripTail_append _ (by simp), following]
  obtain ⟨after, decoded, ahead⟩ :=
    Message.decode_header false frame.encoded frame.payload (following rest)
  rw [frame.received_header] at decoded
  have same := frame.fromstream_ahead keeps ahead
  have whole : Message.untailed frame.payload frame.header.payload_size = frame.payload := by
    rw [Message.untailed, if_neg (by simp [← frame.size])]
  rw [Message.allfrombytes, stripped, Message.allfromstream, Message.available_ofBytes,
    if_neg (by simp only [List.length_append, frame.headerBytes_length]; omega), decoded]
  show (if _ then _ else _) = _
  rw [if_neg (by simp only [List.length_append, frame.headerBytes_length, frame.size]; omega),
    Message.frombytes, if_neg (by rw [frame.size]; omega), whole]
  generalize Message.fromstream package after frame.header = inBuffer at same
  generalize Message.fromstream package (.ofBytes frame.payload) frame.header = alone at same
  cases inBuffer with
  | error error =>
      cases alone with
      | error other => exact congrArg Except.error (Except.error.inj same)
      | ok result => cases same
  | ok result =>
      cases alone with
      | error other => cases same
      | ok other => exact congrArg (Except.ok ∘ some) (Except.ok.inj same)

/-- What decodes from the payload of a frame has the size of the frame. -/
theorem frombytes_size (frame : WireFrame package) {message : Message}
    (decoded : Message.frombytes package frame.payload frame.header = .ok message) :
    message.size = frame.tobytes.length := by
  rw [Message.frombytes, if_neg (by rw [frame.size]; omega)] at decoded
  obtain ⟨⟨message', after⟩, parsed, result⟩ := exceptBind_eq_ok.mp decoded
  cases Except.ok.inj result
  obtain ⟨sameHeader, topLevel⟩ := fromstream_header parsed
  rw [Message.size, sameHeader, topLevel, frame.tobytes_length, Header.body_size]
  simp only [Bool.false_eq_true, if_false]
  omega

end WireFrame

namespace Client

variable {package : Package}

/-- While the decoders keep to their payloads, the event loop decodes the payloads
one by one. -/
theorem drain_stream (frames : List (WireFrame package))
    (keep : WireFrame.KeepToPayloads frames) (rounds : Nat) (self : Client)
    (isStream : self.buf = WireFrame.stream frames) (enough : self.buf.length ≤ rounds) :
    (drain package rounds self).1.handled =
        self.handled ++ (WireFrame.decodeEach frames).1 ∧
      (drain package rounds self).2 = (WireFrame.decodeEach frames).2 := by
  induction frames generalizing rounds self with
  | nil =>
      have waits : Message.allfrombytes package self.buf false = .ok none := by
        rw [isStream]
        exact Message.allfromstream_short false (show 0 < Header.type_size by decide)
      rw [drain_waits rounds waits]
      exact ⟨(List.append_nil _).symm, rfl⟩
  | cons frame rest inductionHypothesis =>
      obtain ⟨keeps, keepRest⟩ := keep
      have parsed := frame.allfrombytes_frame rest keeps
      rw [← isStream] at parsed
      have joined : self.buf = frame.tobytes ++ WireFrame.stream rest := isStream
      have split : self.buf.length = frame.tobytes.length + (WireFrame.stream rest).length := by
        rw [joined, List.length_append]
      have size := frame.tobytes_length
      rw [Header.body_size] at size
      obtain ⟨rounds, rfl⟩ := Nat.exists_eq_succ_of_ne_zero (by omega : rounds ≠ 0)
      rw [WireFrame.decodeEach]
      cases decoded : Message.frombytes package frame.payload frame.header with
      | error error =>
          rw [decoded] at parsed
          rw [drain_raises rounds parsed]
          exact ⟨(List.append_nil _).symm, rfl⟩
      | ok message =>
          rw [decoded] at parsed
          rw [drain_takes rounds parsed]
          have next : (self.turn message).buf = WireFrame.stream rest := by
            rw [turn_buf, joined, frame.frombytes_size decoded, List.drop_left]
          obtain ⟨handled, error⟩ := inductionHypothesis (keepRest ⟨message, decoded⟩) rounds
            (self.turn message) next (by rw [next]; omega)
          rw [handled, error, turn_handled]
          exact ⟨by simp, rfl⟩

/-- One piece to the event loop, and one call of `recv_message` for each frame:
the same messages, and the same first failing frame. -/
def PathsAgree (frames : List (WireFrame package)) (grants : List Nat) : Prop :=
  (recv_messages package frames.length ⟨WireFrame.stream frames, grants⟩).1 =
      (_handle_data package {} (WireFrame.stream frames)).1.handled ∧
    (recv_messages package frames.length ⟨WireFrame.stream frames, grants⟩).2.isSome =
      (_handle_data package {} (WireFrame.stream frames)).2.isSome

/-- The two paths agree while every decoder keeps to its own payload. -/
theorem pathsAgree (frames : List (WireFrame package)) (grants : List Nat)
    (keep : WireFrame.KeepToPayloads frames) : PathsAgree frames grants := by
  rw [PathsAgree, recv_messages_stream]
  cases frames with
  | nil => exact ⟨rfl, rfl⟩
  | cons frame rest =>
      have some : WireFrame.stream (frame :: rest) ≠ [] := by
        intro none
        have size := frame.tobytes_length
        rw [Header.body_size] at size
        have := congrArg List.length none
        simp only [WireFrame.stream, List.map_cons, List.flatten_cons, List.length_append,
          List.length_nil] at this
        omega
      rw [_handle_data_nonempty some]
      obtain ⟨handled, error⟩ := drain_stream (frame :: rest) keep _
        ({ buf := WireFrame.stream (frame :: rest) } : Client) rfl le_rfl
      exact ⟨handled.symm, congrArg Option.isSome error.symm⟩

end Client

/-! ### A payload that is too short -/

theorem registered_5505 {header : Header} (fromServer : header.c2s = false)
    (notPush : header.is_push_msg = false) (id : header.msg_id = 5505) :
    (package asciiHost).get_owner_cls header = .ok Response_5505 := by
  have member : Response_5505 ∈ responseClasses asciiHost := by simp [responseClasses]
  exact get_owner_cls_response member fromServer notPush id

/-- The time of the server, with its eight bytes of payload. -/
def timeFrame : WireFrame (package asciiHost) where
  header := { msg_id := 5505, payload_size := 8 }
  headerBytes := [0x7b, 0x81, 0x15, 0, 0, 8, 0]
  payload := [1, 0, 0, 0, 2, 0, 0, 0]
  encoded := rfl
  fromServer := rfl
  uncompressed := rfl
  registered := ⟨_, registered_5505 rfl rfl rfl⟩
  size := rfl

/-- The same response with four bytes of payload. -/
def shortTimeFrame : WireFrame (package asciiHost) where
  header := { msg_id := 5505, payload_size := 4 }
  headerBytes := [0x7b, 0x81, 0x15, 0, 0, 4, 0]
  payload := [1, 0, 0, 0]
  encoded := rfl
  fromServer := rfl
  uncompressed := rfl
  registered := ⟨_, registered_5505 rfl rfl rfl⟩
  size := rfl

theorem timeFrame_keepsTo (back : Bytes) : timeFrame.KeepsTo back := by
  refine .inr fun cls found => ?_
  cases Except.ok.inj ((registered_5505 rfl rfl rfl).symm.trans found)
  refine ⟨nofun, fun _ request member => ?_⟩
  have requests : Response_5505.body.requests Reader.read_bytes (.ofBytes timeFrame.payload) =
      [⟨.fixed, ⟨timeFrame.payload, 0⟩, 4⟩, ⟨.fixed, ⟨timeFrame.payload, 4⟩, 4⟩] := rfl
  rw [requests] at member
  simp only [List.mem_cons, List.not_mem_nil, or_false] at member
  rcases member with rfl | rfl
  · exact ⟨by decide, by decide, .inl (by decide)⟩
  · exact ⟨by decide, by decide, .inl (by decide)⟩

/-- Two whole frames, with the socket granting three bytes, then five. -/
theorem timeFrames_pathsAgree : Client.PathsAgree [timeFrame, timeFrame] [3, 5] :=
  Client.pathsAgree [timeFrame, timeFrame] [3, 5]
    ⟨timeFrame_keepsTo _, fun _ => ⟨timeFrame_keepsTo _, fun _ => trivial⟩⟩

/-- In front of another frame, the event loop makes a time of the short payload,
the tail and the next header; the blocking path raises. -/
theorem shortTimeFrame_paths_differ : ¬ Client.PathsAgree [shortTimeFrame, timeFrame] [] := by
  rintro ⟨sameMessages, -⟩
  have blocking : (Client.recv_messages (package asciiHost) 2
      ⟨WireFrame.stream [shortTimeFrame, timeFrame], []⟩).1.length = 0 := by decide +kernel
  have eventLoop : (Client._handle_data (package asciiHost) {}
      (WireFrame.stream [shortTimeFrame, timeFrame])).1.handled.length = 2 := by decide +kernel
  have lengths := congrArg List.length sameMessages
  rw [eventLoop] at lengths
  exact absurd (blocking.symm.trans lengths) (by decide)

end StdPrograms.Ouou

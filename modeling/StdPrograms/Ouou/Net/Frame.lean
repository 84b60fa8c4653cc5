import StdPrograms.Ouou.Message.ResponseRoundTrip
import StdPrograms.Ouou.Net.BaseClient

/-!
Contract: the frames of a stream that a client receives.

Owns the messages that a server sends, when a payload gives their attributes
back, and what the parser makes of a buffer that starts with one of their
frames: the whole frame, the frame without its tail, a part of it, or the frame
behind a stray tail.

Does not own the receive loop.
-/

namespace StdPrograms.Ouou

open StdPrograms.Foundation

/-! ### Messages of the stream -/

/-- The same identifier and the same attributes. -/
def SameMessage (handled sent : Message) : Prop :=
  handled.header.msg_id = sent.header.msg_id ∧
    sent.cls.SameAttributes handled.attributes sent.attributes

/-- A top-level, uncompressed message of the class that its header selects, and
its encoding. -/
structure Message.Sent (host : Host) (message : Message) (encoding : Bytes) : Prop where
  topLevel : message.owned = false
  uncompressed : (message.header.received false).is_compressed = false
  registered : (package host).get_owner_cls (message.header.received false) = .ok message.cls
  notMultiple : message.cls.MSG_ID ≠ MSG_TYPE_MULTI
  encoded : (message.tobytes false).2 = .ok encoding

/-- Behind the header, the class decodes the message's attributes from its
payload, with `behind` following it in the buffer. -/
def Message.ReadsBack (message : Message) (encoding behind : Bytes) : Prop :=
  ∃ attributes after,
    (Reader.mk (encoding.dropLast ++ behind) Header.type_size).decode message.cls.body =
      .ok (attributes, after) ∧
    message.cls.SameAttributes attributes message.attributes

/-! ### The identifier of a parsed message -/

/-- The identifier on the wire: the two bytes after the prefix. -/
def wireId (bytes : Bytes) : Nat := ofLittleEndian ((bytes.drop 1).take 2)

theorem fromstream_header {package : Package} {reader after : Reader} {header : Header}
    {message : Message} (parsed : Message.fromstream package reader header = .ok (message, after)) :
    message.header = header ∧ message.owned = false := by
  unfold Message.fromstream at parsed
  split at parsed
  next =>
    cases Except.ok.inj parsed
    exact ⟨rfl, rfl⟩
  next =>
    obtain ⟨reader, -, parsed⟩ := exceptBind_eq_ok.mp parsed
    obtain ⟨cls, -, parsed⟩ := exceptBind_eq_ok.mp parsed
    unfold MessageClass._fromstream at parsed
    split at parsed
    next =>
      split at parsed
      next => contradiction
      next =>
        cases Except.ok.inj parsed
        exact ⟨rfl, rfl⟩
    next =>
      obtain ⟨⟨attributes, last⟩, -, parsed⟩ := exceptBind_eq_ok.mp parsed
      cases Except.ok.inj parsed
      exact ⟨rfl, rfl⟩

/-- A decoded header shows the identifier on the wire, and the reader stands
behind it. -/
theorem decode_header_eq_ok {bytes : Bytes} {c2s : Bool} {header : Header} {after : Reader}
    (decoded : (Reader.ofBytes bytes).decode (Header.fromstream c2s) = .ok (header, after)) :
    header.msg_id = wireId bytes ∧ after = ⟨bytes, Header.type_size⟩ := by
  unfold Reader.decode Header.fromstream at decoded
  obtain ⟨prefixChar, afterChar, charRead, decoded⟩ :=
    (ReadProgram.run_bind_eq_ok Reader.read_bytes).mp decoded
  obtain ⟨msg_id, afterId, idRead, decoded⟩ :=
    (ReadProgram.run_bind_eq_ok Reader.read_bytes).mp decoded
  obtain ⟨flag, afterFlag, flagRead, decoded⟩ :=
    (ReadProgram.run_bind_eq_ok Reader.read_bytes).mp decoded
  obtain ⟨unused, afterUnused, unusedRead, decoded⟩ :=
    (ReadProgram.run_bind_eq_ok Reader.read_bytes).mp decoded
  obtain ⟨payload_size, last, sizeRead, result⟩ :=
    (ReadProgram.run_bind_eq_ok Reader.read_bytes).mp decoded
  cases Except.ok.inj result
  have skipped : afterChar = ((Reader.ofBytes bytes).read_bytes 1).2 := by
    simp only [ReadProgram.run] at charRead
    cases unpacked : Char.frombytes ((Reader.ofBytes bytes).read_bytes 1).1 with
    | error error =>
        rw [unpacked] at charRead
        cases charRead
    | ok text =>
        rw [unpacked] at charRead
        cases Except.ok.inj charRead
        rfl
  obtain ⟨unpacked, rfl⟩ := IntFormat.decode_fromstream idRead
  obtain ⟨-, rfl⟩ := IntFormat.decode_fromstream flagRead
  obtain ⟨-, rfl⟩ := IntFormat.decode_fromstream unusedRead
  obtain ⟨-, rfl⟩ := IntFormat.decode_fromstream sizeRead
  refine ⟨?_, by rw [skipped]; rfl⟩
  have span : (afterChar.read_bytes UShort.format.size).1 = (bytes.drop 1).take 2 := by
    rw [skipped]
    simp only [Reader.read_bytes, Reader.ofBytes, UShort.format]
    rw [slice_of_nonnegative _ (by omega) (by omega), List.take_drop]
    rfl
  rw [span] at unpacked
  unfold IntFormat.frombytes at unpacked
  split at unpacked
  next => contradiction
  next =>
    cases Except.ok.inj unpacked
    simp [UShort.format, toUnsigned, wireId, List.take_take]

theorem allfromstream_msg_id {package : Package} {bytes : Bytes} {c2s : Bool} {message : Message}
    (parsed : Message.allfromstream package (.ofBytes bytes) c2s = .ok (some message)) :
    Header.type_size ≤ bytes.length ∧ message.header.msg_id = wireId bytes := by
  unfold Message.allfromstream at parsed
  rw [Message.available_ofBytes] at parsed
  split at parsed
  next => cases Except.ok.inj parsed
  next long =>
    obtain ⟨⟨header, after⟩, decoded, parsed⟩ := exceptBind_eq_ok.mp parsed
    refine ⟨by omega, ?_⟩
    rw [← (decode_header_eq_ok decoded).1]
    simp only at parsed
    split at parsed
    next => cases Except.ok.inj parsed
    next =>
      obtain ⟨⟨message', last⟩, found, result⟩ := exceptBind_eq_ok.mp parsed
      cases Except.ok.inj result
      rw [(fromstream_header found).1]

/-! ### Frames -/

/-- What the parser answers where header and payload of the frame are there, with
`behind` following them. -/
inductive Answer (message : Message) (encoding behind : Bytes) :
    Except PyError (Option Message) → Prop
  | raises (error : PyError) (lost : ¬ message.ReadsBack encoding behind) :
      Answer message encoding behind (.error error)
  | handled (p : Message) (size : p.size = encoding.length)
      (same : SameMessage p message ↔ message.ReadsBack encoding behind) :
      Answer message encoding behind (.ok (some p))

/-- What the receive loop needs of one frame of the stream. -/
structure Frame (package : Package) (message : Message) (encoding : Bytes) : Prop where
  split : encoding = encoding.dropLast ++ [MSG_TAIL]
  /-- The header and the payload are enough for an answer. -/
  parses : ∀ behind, Answer message encoding behind
    (Message.allfromstream package (.ofBytes (encoding.dropLast ++ behind)) false)
  waits : ∀ part more, encoding.dropLast = part ++ more → more ≠ [] →
    Message.allfromstream package (.ofBytes part) false = .ok none
  /-- Behind a stray tail the frame shows another identifier. -/
  strange : ∀ bytes rest, bytes <+: MSG_TAIL :: (encoding ++ rest) →
    Header.type_size ≤ bytes.length → wireId bytes ≠ message.header.msg_id

/-- The first two bytes of a header never show its identifier, since the low byte
of every identifier differs from the high one. -/
private theorem strange_id {header : Header} {bytes : Bytes} (above : 5500 ≤ header.msg_id)
    (below : header.msg_id < 5520) (encoded : header.tobytes = .ok bytes) :
    ∃ char idLow tail, bytes = char :: idLow :: tail ∧
      char.toNat + 256 * idLow.toNat ≠ header.msg_id := by
  obtain ⟨char, fields⟩ := Header.tobytes_layout encoded
  have word : ofInt 2 (header.msg_id : ℤ) =
      [UInt8.ofNat header.msg_id, UInt8.ofNat (header.msg_id / 256)] := by
    rw [ofInt, show (modulus 2 : ℤ) = 65536 from rfl, Int.emod_eq_of_lt (by omega) (by omega),
      Int.toNat_natCast]
    rfl
  refine ⟨char, UInt8.ofNat header.msg_id, UInt8.ofNat (header.msg_id / 256) ::
    (ofInt 1 header.flag ++ (ofInt 1 header.unused ++ ofInt 2 header.payload_size)), ?_, ?_⟩
  · rw [fields.layout, word]
    rfl
  · have high : header.msg_id / 256 = 21 := by omega
    simp only [UInt8.toNat_ofNat']
    omega

namespace Message.Sent

variable {host : Host} {message : Message} {encoding : Bytes}

theorem msg_id (sent : message.Sent host encoding) :
    message.cls ∈ serverClasses host ∧ 5500 ≤ message.header.msg_id ∧
      message.header.msg_id < 5520 := by
  obtain ⟨member, id⟩ := get_owner_cls_server rfl sent.registered
  have numbered := serverClasses_ids host _ member
  rw [id] at numbered
  exact ⟨member, numbered⟩

/-- An encoded message is a header that carries the payload's size, the payload,
and the tail. -/
theorem layout (sent : message.Sent host encoding) :
    ∃ body header,
      BinaryObject.body2bytes message.cls.name message.cls.attributes_info message.attributes =
        .ok body ∧
      (message.sizedHeader body).tobytes = .ok header ∧ encoding.dropLast = header ++ body ∧
      encoding = header ++ (body ++ [MSG_TAIL]) ∧ body ≠ [] := by
  obtain ⟨member, -⟩ := sent.msg_id
  have plain := serverClasses_plain host _ member sent.notMultiple
  obtain ⟨body, header, hasBody, hasHeader, layout⟩ := tobytes_eq_ok sent.encoded
  rw [assign_of_nil (serverClasses_noAssigns member), Message.body2bytes, plain] at hasBody
  rw [sent.topLevel] at layout
  refine ⟨body, header, hasBody, hasHeader, ?_, layout,
    serverClasses_nonempty member sent.notMultiple hasBody⟩
  rw [layout]
  simp [← List.append_assoc]

/-- In-range attributes are read back, whatever follows the payload. -/
theorem readsBack_of_inRange (sent : message.Sent host encoding)
    (inRange : message.cls.InRange message.attributes) (behind : Bytes) :
    message.ReadsBack encoding behind := by
  obtain ⟨body, header, hasBody, hasHeader, untailed, -, -⟩ := sent.layout
  obtain ⟨final, reads, same, -⟩ := message.cls.body_readsBack inRange hasBody
  have ahead : Reader.Ahead behind ⟨encoding.dropLast ++ behind, Header.type_size⟩ body :=
    ⟨header, by rw [untailed, List.append_assoc], by rw [Header.tobytes_length hasHeader]⟩
  have consumed : message.cls.body.consume body = .returned final [] := by
    simpa using reads []
  obtain ⟨after, decoded, -⟩ := Reader.decode_of_consume _ ahead consumed
  exact ⟨final, after, decoded, same⟩

/-- The parser decodes the payload of a whole frame with the message's class. -/
theorem allfromstream_eq (sent : message.Sent host encoding) {body header : Bytes}
    (hasHeader : (message.sizedHeader body).tobytes = .ok header)
    (untailed : encoding.dropLast = header ++ body) (filled : body ≠ []) (behind : Bytes) :
    allfromstream (package host) (.ofBytes (encoding.dropLast ++ behind)) false =
      ((Reader.mk (encoding.dropLast ++ behind) Header.type_size).decode message.cls.body).map
        fun result => Option.some
          { cls := message.cls
            header := (message.sizedHeader body).received false
            attributes := result.1 } := by
  obtain ⟨member, above, -⟩ := sent.msg_id
  have plain := serverClasses_plain host _ member sent.notMultiple
  have headerSize := Header.tobytes_length hasHeader
  obtain ⟨after, decoded, -⟩ := decode_header false hasHeader body behind
  obtain ⟨-, rfl⟩ := decode_header_eq_ok decoded
  have named : ((message.sizedHeader body).received false).msg_id ≠ 0 := by
    show message.header.msg_id ≠ 0
    omega
  have nonempty : ((message.sizedHeader body).received false).payload_size ≠ 0 := by
    simpa [Header.received, PlainMessage.sizedHeader] using filled
  have uncompressed : ((message.sizedHeader body).received false).is_compressed = false :=
    sent.uncompressed
  have registered : (package host).get_owner_cls ((message.sizedHeader body).received false) =
      .ok message.cls := sent.registered
  rw [untailed, allfromstream, available_ofBytes,
    if_neg (by simp only [List.length_append, headerSize]; omega), decoded]
  show (if _ then _ else _) = _
  rw [if_neg (by
    simp only [List.length_append, headerSize, Header.received, PlainMessage.sizedHeader]
    omega)]
  show (fromstream _ _ _ >>= _) = _
  rw [fromstream, if_neg (by simp [named, nonempty]), payloadReader, uncompressed]
  show ((package host).get_owner_cls _ >>= _) >>= _ = _
  rw [registered]
  show message.cls._fromstream _ _ >>= _ = _
  rw [MessageClass._fromstream, plain, if_neg (by simp)]
  cases Reader.decode _ message.cls.body <;> rfl

theorem frame (sent : message.Sent host encoding) : Frame (package host) message encoding := by
  obtain ⟨body, header, -, hasHeader, untailed, layout, filled⟩ := sent.layout
  have headerSize := Header.tobytes_length hasHeader
  refine
    { split := ?_
      parses := fun behind => ?_
      waits := fun part more isSplit some => ?_
      strange := fun bytes rest isPrefix long => ?_ }
  · rw [untailed, layout]
    simp
  · rw [sent.allfromstream_eq hasHeader untailed filled]
    cases decoded : (Reader.mk (encoding.dropLast ++ behind) Header.type_size).decode
        message.cls.body with
    | error error =>
        refine .raises error ?_
        rintro ⟨attributes, after, decoded', -⟩
        cases decoded.symm.trans decoded'
    | ok result =>
        refine .handled _ ?_ ⟨fun same => ⟨_, _, decoded, same.2⟩, ?_⟩
        · rw [size, layout]
          simp [headerSize, Header.received, PlainMessage.sizedHeader, Nat.add_assoc]
        · rintro ⟨attributes, after, decoded', same⟩
          cases decoded.symm.trans decoded'
          exact ⟨rfl, same⟩
  · rw [untailed] at isSplit
    rcases List.append_eq_append_iff.mp isSplit with ⟨payload, rfl, rfl⟩ | ⟨missing, rfl, rfl⟩
    · refine allfromstream_partial hasHeader ?_
      have := List.length_pos_iff.mpr some
      simpa [PlainMessage.sizedHeader] using this
    · by_cases whole : missing = []
      · subst whole
        have nonempty := List.length_pos_iff.mpr some
        have partway : allfromstream (package host) (.ofBytes (part ++ [])) false = .ok none :=
          allfromstream_partial (by simpa using hasHeader) nonempty
        rwa [List.append_nil] at partway
      · have := List.length_pos_iff.mpr whole
        rw [List.length_append] at headerSize
        exact allfromstream_short false (by omega)
  · obtain ⟨-, above, below⟩ := sent.msg_id
    have sized : (message.sizedHeader body).msg_id = message.header.msg_id := rfl
    rw [← sized] at above below
    obtain ⟨char, idLow, tail, headerLayout, differs⟩ := strange_id above below hasHeader
    obtain ⟨more, joined⟩ := isPrefix
    rw [layout, headerLayout] at joined
    have threeOrMore : 3 ≤ bytes.length := by
      rw [show Header.type_size = 7 from rfl] at long
      omega
    obtain ⟨zeroth, behindZeroth, rfl⟩ :=
      List.exists_cons_of_length_pos (by omega : 0 < bytes.length)
    rw [List.length_cons] at threeOrMore
    obtain ⟨first, behindFirst, rfl⟩ :=
      List.exists_cons_of_length_pos (by omega : 0 < behindZeroth.length)
    rw [List.length_cons] at threeOrMore
    obtain ⟨second, later, rfl⟩ :=
      List.exists_cons_of_length_pos (by omega : 0 < behindFirst.length)
    simp only [List.cons_append, List.cons.injEq] at joined
    obtain ⟨-, rfl, rfl, -⟩ := joined
    rw [sized] at differs
    simpa [wireId, ofLittleEndian] using differs

end Message.Sent

theorem frames_of_sent {host : Host} {messages : List Message} {encodings : List Bytes}
    (sent : List.Forall₂ (fun message encoding => message.Sent host encoding) messages encodings) :
    List.Forall₂ (Frame (package host)) messages encodings :=
  sent.imp fun _ _ => Message.Sent.frame

/-! ### Tails -/

theorem stripTail_append (front : Bytes) {back : Bytes} (some : back ≠ []) :
    Message.stripTail (front ++ back) = front ++ Message.stripTail back := by
  unfold Message.stripTail
  rw [List.getLast?_append_of_ne_nil _ some, List.dropLast_append_of_ne_nil some]
  split <;> rfl

theorem isPrefix_stripTail (bytes : Bytes) : Message.stripTail bytes <+: bytes := by
  unfold Message.stripTail
  split
  · exact List.dropLast_prefix bytes
  · exact List.prefix_refl bytes

theorem stripTail_of_untailed {bytes : Bytes} (untailed : bytes.getLast? ≠ some MSG_TAIL) :
    Message.stripTail bytes = bytes :=
  if_neg untailed

namespace Frame

variable {package : Package} {message : Message} {encoding : Bytes}

theorem nonempty (frame : Frame package message encoding) : encoding.dropLast ≠ [] := by
  intro none
  have answer := frame.parses []
  rw [none, Message.allfromstream_short false (by decide)] at answer
  cases answer

/-- What stands behind the payload in the stripped buffer, where `more` has come
after the whole frame. -/
abbrev behind (more : Bytes) : Bytes := Message.stripTail (MSG_TAIL :: more)

/-- A frame whose payload is there is answered, up to the tail and beyond. -/
theorem allfrombytes_whole (frame : Frame package message encoding) (more : Bytes) :
    Answer message encoding (behind more)
      (Message.allfrombytes package (encoding ++ more) false) := by
  have stripped : Message.stripTail (encoding ++ more) =
      encoding.dropLast ++ Message.stripTail (MSG_TAIL :: more) := by
    conv_lhs => rw [frame.split]
    rw [List.append_assoc, stripTail_append _ (by simp)]
    rfl
  rw [Message.allfrombytes, stripped]
  exact frame.parses _

/-- So it is when only the tail is missing, unless the payload ends like one. -/
theorem allfrombytes_untailed (frame : Frame package message encoding)
    (untailed : encoding.dropLast.getLast? ≠ some MSG_TAIL) :
    Answer message encoding [] (Message.allfrombytes package encoding.dropLast false) := by
  rw [Message.allfrombytes, stripTail_of_untailed untailed]
  simpa using frame.parses []

theorem allfrombytes_part (frame : Frame package message encoding) {part more : Bytes}
    (split : encoding.dropLast = part ++ more)
    (waiting : more ≠ [] ∨ part.getLast? = some MSG_TAIL) :
    Message.allfrombytes package part false = .ok none := by
  obtain ⟨stripped, isSplit⟩ := isPrefix_stripTail part
  refine frame.waits _ (stripped ++ more) ?_ ?_
  · rw [split, ← List.append_assoc, isSplit]
  · rintro none
    obtain ⟨rfl, rfl⟩ := List.append_eq_nil_iff.mp none
    rcases waiting with some | tailed
    · exact some rfl
    · rw [List.append_nil, Message.stripTail, if_pos tailed] at isSplit
      have lengths := congrArg List.length isSplit
      have nonempty : 0 < part.length := List.length_pos_iff.mpr fun empty => by
        rw [empty] at tailed
        cases tailed
      rw [List.length_dropLast] at lengths
      omega

end Frame

end StdPrograms.Ouou

import StdPrograms.Ouou.Message.Message

/-!
Contract: what decoding makes of a whole frame, and of less than one.

Owns the shape of an encoded message, the decoding of a buffer that starts with
a whole frame, the answer to a buffer that holds less, and the round trip of a
message whose attributes are in range.

Does not own the buffer of a client, or any registered class.
-/

namespace StdPrograms.Ouou

open StdPrograms.Foundation BinaryObject

namespace Message

/-! ### Encoding -/

theorem assign_of_nil {self : Message} (none : self.cls.assigns = []) : self.assign = self := by
  simp [assign, PlainMessage.assign, none]

/-- An encoded message is its header, its body, and the tail unless it is owned. -/
theorem tobytes_eq_ok {self : Message} {bytes : Bytes}
    (encoded : (self.tobytes false).2 = .ok bytes) :
    ∃ body header, self.assign.body2bytes = .ok body ∧
      (self.sizedHeader body).tobytes = .ok header ∧
      bytes = header ++ (body ++ if self.owned then [] else [MSG_TAIL]) := by
  unfold tobytes at encoded
  simp only [Bool.false_and, Bool.false_eq_true, if_false] at encoded
  split at encoded
  next => contradiction
  next body hasBody =>
    split at encoded
    next => contradiction
    next header hasHeader =>
      exact ⟨body, header, hasBody, hasHeader, (Except.ok.inj encoded).symm⟩

theorem tobytes_of_ok {self : Message} {body header : Bytes}
    (hasBody : self.assign.body2bytes = .ok body)
    (hasHeader : (self.sizedHeader body).tobytes = .ok header) :
    (self.tobytes false).2 =
      .ok (header ++ (body ++ if self.owned then [] else [MSG_TAIL])) := by
  have sized : (self.assign.sizedHeader body).tobytes = .ok header := hasHeader
  unfold tobytes
  simp only [Bool.false_and, Bool.false_eq_true, if_false, hasBody, sized]
  rfl

/-! ### Decoding a whole frame -/

variable {package : Package}

/-- `fromstream` makes `message` of the payload, whatever follows it. -/
def ReadsPayload (package : Package) (header : Header) (payload : Bytes) (message : Message) :
    Prop :=
  ∀ (back : Bytes) (reader : Reader), reader.Ahead back payload →
    ∃ after, fromstream package reader header = .ok (message, after)

theorem readsPayload_bare {header : Header} (payload : Bytes)
    (empty : header.msg_id = 0 ∨ header.payload_size = 0) :
    ReadsPayload package header payload (bare header) := by
  intro back reader _
  exact ⟨reader, by rw [fromstream, if_pos empty]⟩

theorem readsPayload_of_consume {header : Header} {payload rest : Bytes} {cls : MessageClass}
    {attributes : Obj} (named : header.msg_id ≠ 0) (nonempty : header.payload_size ≠ 0)
    (uncompressed : header.is_compressed = false) (plain : cls.multiple = false)
    (registered : package.get_owner_cls header = .ok cls)
    (consumed : cls.body.consume payload = .returned attributes rest) :
    ReadsPayload package header payload
      { cls := cls, header := header, attributes := attributes } := by
  intro back reader ahead
  obtain ⟨after, decoded, -⟩ := reader.decode_of_consume ahead consumed
  refine ⟨after, ?_⟩
  rw [fromstream, if_neg (by simp [named, nonempty]), payloadReader, uncompressed]
  show (package.get_owner_cls header >>= _) = _
  rw [registered]
  show cls._fromstream reader header = _
  rw [MessageClass._fromstream, plain, if_neg (by simp), decoded]
  rfl

theorem ahead_ofBytes (bytes back : Bytes) :
    (Reader.ofBytes (bytes ++ back)).Ahead back bytes :=
  ⟨[], rfl, rfl⟩

theorem available_ofBytes (bytes : Bytes) : (Reader.ofBytes bytes).available = bytes.length := by
  simp [Reader.available, Reader.ofBytes]

/-- The header in front of a buffer is read, and the rest is ahead. -/
theorem decode_header {header : Header} {headerBytes : Bytes} (c2s : Bool)
    (encoded : header.tobytes = .ok headerBytes) (payload back : Bytes) :
    ∃ after, (Reader.ofBytes (headerBytes ++ payload ++ back)).decode (Header.fromstream c2s) =
      .ok (header.received c2s, after) ∧ after.Ahead back payload :=
  Reader.decode_of_consume _ (ahead_ofBytes _ _) (Header.fromstream_tobytes c2s encoded payload)

/-- A buffer that starts with a whole frame yields its message. -/
theorem allfromstream_frame {header : Header} {headerBytes payload : Bytes} {c2s : Bool}
    {message : Message} (encoded : header.tobytes = .ok headerBytes)
    (size : payload.length = header.payload_size)
    (reads : ReadsPayload package (header.received c2s) payload message) (back : Bytes) :
    allfromstream package (.ofBytes (headerBytes ++ payload ++ back)) c2s =
      .ok (some message) := by
  have headerSize := Header.tobytes_length encoded
  obtain ⟨after, decoded, ahead⟩ := decode_header c2s encoded payload back
  obtain ⟨last, parsed⟩ := reads back after ahead
  rw [allfromstream, available_ofBytes, if_neg (by simp only [List.length_append, headerSize]; omega), decoded]
  show (if _ then _ else _) = _
  rw [if_neg (by simp only [List.length_append, headerSize, size, Header.received]; omega), parsed]
  rfl

/-- A buffer with less than a header yields nothing yet. -/
theorem allfromstream_short {bytes : Bytes} (c2s : Bool)
    (short : bytes.length < Header.type_size) :
    allfromstream package (.ofBytes bytes) c2s = .ok none := by
  rw [allfromstream, available_ofBytes, if_pos (by omega)]

/-- A buffer with a header and less than its payload yields nothing yet. -/
theorem allfromstream_partial {header : Header} {headerBytes payload : Bytes} {c2s : Bool}
    (encoded : header.tobytes = .ok headerBytes)
    (short : payload.length < header.payload_size) :
    allfromstream package (.ofBytes (headerBytes ++ payload)) c2s = .ok none := by
  have headerSize := Header.tobytes_length encoded
  obtain ⟨after, decoded, -⟩ := decode_header c2s encoded payload []
  rw [List.append_nil] at decoded
  rw [allfromstream, available_ofBytes, if_neg (by simp only [List.length_append, headerSize]; omega), decoded]
  show (if _ then _ else _) = _
  rw [if_pos (by simp only [List.length_append, headerSize, Header.received]; omega)]
  rfl

theorem stripTail_tail (bytes : Bytes) : stripTail (bytes ++ [MSG_TAIL]) = bytes := by
  simp [stripTail]

end Message

/-! ### Round trip -/

/-- A new message asks for no compression and is no push. -/
theorem MessageClass.new_uncompressed (cls : MessageClass) (attributes : Obj) (c2s : Bool) :
    ((cls.new attributes).header.received c2s).is_compressed = false := by
  cases c2s <;> simp [MessageClass.new, Header.received, Header.is_compressed,
    Header.need_compress, MSG_FLAG_REQ_COMPRESS]

theorem MessageClass.new_notPush (cls : MessageClass) (attributes : Obj) (c2s : Bool) :
    ((cls.new attributes).header.received c2s).is_push_msg = false := by
  simp [MessageClass.new, Header.received, Header.is_push_msg, MSG_FLAG_PUSH]

/-- Attributes in range, as the class lays them out. -/
def MessageClass.InRange (cls : MessageClass) (attributes : Obj) : Prop :=
  ∀ attr ∈ cls.attributes_info, attr.active attributes = true →
    ∃ value, attributes.get attr.name = some value ∧ attr.type.inRange attributes value

/-- What an encoded object holds is in range, where the class's types check. -/
theorem MessageClass.inRange_of_checked (cls : MessageClass) {attributes : Obj} {body : Bytes}
    (checked : ∀ attr ∈ cls.attributes_info, attr.type.Checked)
    (encoded : BinaryObject.body2bytes cls.name cls.attributes_info attributes = .ok body) :
    cls.InRange attributes := by
  intro attr member active
  obtain ⟨value, b, found, written⟩ := body2bytes_encodes encoded attr member active
  exact ⟨value, found, checked attr member attributes value b written⟩

/-- A class reads back the attributes it wrote, and objects that hold what it
read encode to the same bytes. -/
theorem MessageClass.body_readsBack (cls : MessageClass) {attributes : Obj} {body : Bytes}
    (inRange : cls.InRange attributes)
    (encoded : BinaryObject.body2bytes cls.name cls.attributes_info attributes = .ok body) :
    ∃ final, (∀ rest, cls.body.consume (body ++ rest) = .returned final rest) ∧
      (∀ attr ∈ cls.attributes_info, attr.active attributes = true → ∃ value result,
        attributes.get attr.name = some value ∧ final.get attr.name = some result ∧
          Val.Same result value ∧ (attr.type.literal = true → result = value)) ∧
      BinaryObject.body2bytes cls.name cls.attributes_info final = .ok body := by
  obtain ⟨start, constructed⟩ := cls.constructs
  obtain ⟨final, reads, -, same, again⟩ := readAttributes_body2bytes cls.name
    cls.attributes_info cls.wellFormed (List.Subset.refl _) start
    (fun name member => by simp at member) inRange encoded
  refine ⟨final, fun rest => ?_, same,
    again final (fun name member => by simp at member) fun _ _ _ => rfl⟩
  rw [MessageClass.body, constructed]
  exact reads rest

/-- Two attribute dictionaries are equal as the class's attributes, up to the
equality of values. -/
def MessageClass.SameAttributes (cls : MessageClass) (decoded given : Obj) : Prop :=
  ∀ attr ∈ cls.attributes_info, attr.active given = true → ∃ value result,
    given.get attr.name = some value ∧ decoded.get attr.name = some result ∧
      Val.Same result value ∧ (attr.type.literal = true → result = value)

namespace Message

/-- A top-level message with in-range attributes decodes to a message of its
class with the same attributes, or to a bare one when its body is empty. -/
theorem allfrombytes_tobytes (package : Package) {self : Message} (c2s : Bool) {bytes : Bytes}
    (topLevel : self.owned = false) (plain : self.cls.multiple = false)
    (named : self.header.msg_id ≠ 0)
    (uncompressed : (self.header.received c2s).is_compressed = false)
    (registered : package.get_owner_cls (self.header.received c2s) = .ok self.cls)
    (inRange : self.cls.InRange self.assign.attributes)
    (encoded : (self.tobytes false).2 = .ok bytes) :
    ∃ body header decoded, self.assign.body2bytes = .ok body ∧
      (self.sizedHeader body).tobytes = .ok header ∧
      bytes = header ++ (body ++ [MSG_TAIL]) ∧
      allfrombytes package bytes c2s = .ok (some decoded) ∧
      decoded.header = (self.sizedHeader body).received c2s ∧
      (body = [] → decoded = bare decoded.header) ∧
      (body ≠ [] → decoded.cls = self.cls ∧ decoded.owned = false ∧
        self.cls.SameAttributes decoded.attributes self.assign.attributes ∧
        decoded.toPlainMessage.body2bytes = .ok body) := by
  obtain ⟨body, header, hasBody, hasHeader, layout⟩ := tobytes_eq_ok encoded
  rw [topLevel] at layout
  have bodyBytes : self.assign.toPlainMessage.body2bytes = .ok body := by
    rwa [body2bytes, show self.assign.cls.multiple = false from plain] at hasBody
  obtain ⟨final, reads, same, again⟩ := self.cls.body_readsBack inRange bodyBytes
  have consumed : self.cls.body.consume body = .returned final [] := by
    simpa using reads []
  have whole (decoded : Message)
      (payload : ReadsPayload package ((self.sizedHeader body).received c2s) body decoded) :
      allfrombytes package bytes c2s = .ok (some decoded) := by
    have frame := allfromstream_frame hasHeader rfl payload []
    rw [layout]
    simp only [Bool.false_eq_true, if_false]
    rw [← List.append_assoc, allfrombytes, stripTail_tail, ← List.append_nil (header ++ body)]
    exact frame
  by_cases empty : body = []
  · refine ⟨body, header, _, hasBody, hasHeader, layout,
      whole _ (readsPayload_bare body (.inr ?_)), rfl, fun _ => rfl, fun some => absurd empty some⟩
    simp [Header.received, PlainMessage.sizedHeader, empty]
  · refine ⟨body, header, _, hasBody, hasHeader, layout, whole _ (readsPayload_of_consume named
      ?_ uncompressed plain registered consumed), rfl, fun none => absurd none empty,
      fun _ => ⟨rfl, rfl, same, again⟩⟩
    simpa [Header.received, PlainMessage.sizedHeader] using empty

end Message

end StdPrograms.Ouou

import StdPrograms.Ouou.Message.BinaryObject

/-!
Contract: the seven-byte header in front of every payload (`Header` of
`message/message.py`).

Owns the header's fields and flags, its bytes, and the round trip: a header
that encodes is read back from its seven bytes.

Does not own the classes that a header selects.
-/

namespace StdPrograms.Ouou

open StdPrograms.Foundation

def MSG_FLAG_COMPRESSED : Nat := 0x02
def MSG_FLAG_REQ_COMPRESS : Nat := 0x04
def MSG_FLAG_PUSH : Nat := 0x10
def MSG_TYPE_MULTI : Nat := 5500
def PUSH_TYPE_ONCE : Nat := 2

/-- `MSG_TAIL_BYTES`: a closing brace. -/
def MSG_TAIL : UInt8 := 0x7d

structure Header where
  prefixChar : Str := ['\x7b']
  msg_id : Nat
  flag : Nat := 0
  unused : Nat := 0
  payload_size : Nat := 0
  /-- Which side sent it; not on the wire. -/
  c2s : Bool := false
deriving DecidableEq

namespace Header

/-- The header as a reader on the given side has it. -/
def received (self : Header) (c2s : Bool) : Header := { self with c2s := c2s }

/-- The sum of the sizes of the attributes. -/
def type_size : Nat := 1 + UShort.format.size + Byte.format.size + Byte.format.size +
  UShort.format.size

def body_size (self : Header) : Nat := self.payload_size + 1

def is_push_msg (self : Header) : Bool := self.flag &&& MSG_FLAG_PUSH = MSG_FLAG_PUSH

def need_compress (self : Header) : Bool :=
  self.flag &&& MSG_FLAG_REQ_COMPRESS = MSG_FLAG_REQ_COMPRESS

def is_compressed (self : Header) : Bool :=
  (!self.c2s && self.flag &&& MSG_FLAG_COMPRESSED ≠ 0) || (self.c2s && self.need_compress)

def set_need_compress (self : Header) : Header :=
  { self with flag := self.flag ||| MSG_FLAG_REQ_COMPRESS }

def set_compressed (self : Header) : Header :=
  { self with flag := self.flag ||| MSG_FLAG_COMPRESSED }

/-- An attribute of `body2bytes`, with the error it raises. -/
def attribute_bytes (name : String) (packed : Except PyError Bytes) : Except PyError Bytes :=
  match packed with
  | .ok b => .ok b
  | .error cause => .error (.attributeFailed name "Header" cause)

def tobytes (self : Header) : Except PyError Bytes := do
  let prefixBytes ← attribute_bytes "prefix" (Char.pack (.str self.prefixChar))
  let msg_id ← attribute_bytes "msg_id" (UShort.format.pack self.msg_id)
  let flag ← attribute_bytes "flag" (Byte.format.pack self.flag)
  let unused ← attribute_bytes "unused" (Byte.format.pack self.unused)
  let payload_size ← attribute_bytes "payload_size" (UShort.format.pack self.payload_size)
  return prefixBytes ++ (msg_id ++ (flag ++ (unused ++ payload_size)))

def fromstream (c2s : Bool) : Decoder Header := do
  let prefixChar ← .read .fixed 1 fun buf => .ofExcept (Char.frombytes buf)
  let msg_id ← UShort.format.fromstream
  let flag ← Byte.format.fromstream
  let unused ← Byte.format.fromstream
  let payload_size ← UShort.format.fromstream
  return {
    prefixChar := prefixChar
    msg_id := msg_id.toNat
    flag := flag.toNat
    unused := unused.toNat
    payload_size := payload_size.toNat
    c2s := c2s }

/-! ### The bytes of a header -/

private theorem attribute_bytes_eq_ok {name : String} {packed : Except PyError Bytes}
    {b : Bytes} (encoded : attribute_bytes name packed = .ok b) : packed = .ok b := by
  unfold attribute_bytes at encoded
  split at encoded
  next => exact encoded
  next => contradiction

/-- An encoded header, field by field; `char` is the prefix. -/
structure Layout (header : Header) (bytes : Bytes) (char : UInt8) : Prop where
  prefixPacked : Char.pack (.str header.prefixChar) = .ok [char]
  prefixDecodes : ∀ rest, Char.frombytes (char :: rest) = .ok header.prefixChar
  msg_id : header.msg_id < 65536
  flag : header.flag < 256
  unused : header.unused < 256
  payload_size : header.payload_size < 65536
  layout : bytes = char :: (ofInt 2 header.msg_id ++ (ofInt 1 header.flag ++
    (ofInt 1 header.unused ++ ofInt 2 header.payload_size)))

private theorem unsigned_below {format : IntFormat} (unsigned : format.signed = false)
    {value : Nat} {bytes : Bytes} (packed : format.pack value = .ok bytes) :
    value < modulus format.size ∧ bytes = ofInt format.size value := by
  obtain ⟨holds, layout⟩ := IntFormat.pack_eq_ok packed
  simp only [IntFormat.Holds, unsigned, Bool.false_eq_true, if_false] at holds
  exact ⟨by omega, layout⟩

theorem tobytes_layout {self : Header} {bytes : Bytes} (encoded : self.tobytes = .ok bytes) :
    ∃ char, Layout self bytes char := by
  obtain ⟨charBytes, charPacked, encoded⟩ := exceptBind_eq_ok.mp encoded
  obtain ⟨idBytes, idPacked, encoded⟩ := exceptBind_eq_ok.mp encoded
  obtain ⟨flagBytes, flagPacked, encoded⟩ := exceptBind_eq_ok.mp encoded
  obtain ⟨unusedBytes, unusedPacked, encoded⟩ := exceptBind_eq_ok.mp encoded
  obtain ⟨sizeBytes, sizePacked, result⟩ := exceptBind_eq_ok.mp encoded
  obtain ⟨text, char, isText, rfl, decodes⟩ :=
    Char.pack_eq_ok (attribute_bytes_eq_ok charPacked)
  cases isText
  obtain ⟨idBelow, rfl⟩ := unsigned_below rfl (attribute_bytes_eq_ok idPacked)
  obtain ⟨flagBelow, rfl⟩ := unsigned_below rfl (attribute_bytes_eq_ok flagPacked)
  obtain ⟨unusedBelow, rfl⟩ := unsigned_below rfl (attribute_bytes_eq_ok unusedPacked)
  obtain ⟨sizeBelow, rfl⟩ := unsigned_below rfl (attribute_bytes_eq_ok sizePacked)
  exact ⟨char, attribute_bytes_eq_ok charPacked, decodes, idBelow, flagBelow, unusedBelow, sizeBelow, (Except.ok.inj result).symm⟩

theorem tobytes_length {self : Header} {bytes : Bytes} (encoded : self.tobytes = .ok bytes) :
    bytes.length = type_size := by
  obtain ⟨char, fields⟩ := tobytes_layout encoded
  rw [fields.layout]
  simp [type_size, UShort.format, Byte.format]

private theorem consume_unsigned (format : IntFormat) (unsigned : format.signed = false)
    {value : Nat} (below : value < modulus format.size) (rest : Bytes) :
    format.fromstream.consume (ofInt format.size value ++ rest) =
      .returned (value : Int) rest := by
  refine IntFormat.fromstream_packed ?_ rest
  rw [IntFormat.pack, if_pos]
  simp only [IntFormat.Holds, unsigned, Bool.false_eq_true, if_false]
  omega

/-- An encoded header is read back; the side comes from the reader. -/
theorem fromstream_tobytes {self : Header} {bytes : Bytes} (c2s : Bool)
    (encoded : self.tobytes = .ok bytes) (rest : Bytes) :
    (fromstream c2s).consume (bytes ++ rest) = .returned (self.received c2s) rest := by
  obtain ⟨char, fields⟩ := tobytes_layout encoded
  have readShort {value : Nat} (below : value < 65536) (rest : Bytes) :
      UShort.format.fromstream.consume (ofInt 2 value ++ rest) = .returned (value : ℤ) rest :=
    consume_unsigned UShort.format rfl below rest
  have readByte {value : Nat} (below : value < 256) (rest : Bytes) :
      Byte.format.fromstream.consume (ofInt 1 value ++ rest) = .returned (value : ℤ) rest :=
    consume_unsigned Byte.format rfl below rest
  have single : (([char] : Bytes).length : ℤ) = 1 := rfl
  rw [fields.layout, fromstream, List.cons_append, ← List.singleton_append,
    ReadProgram.bind_read, ReadProgram.consume_read _ _ single, fields.prefixDecodes]
  simp only [List.append_assoc]
  show (UShort.format.fromstream >>= _).consume _ = _
  rw [ReadProgram.consume_bind_of_returned (readShort fields.msg_id _),
    ReadProgram.consume_bind_of_returned (readByte fields.flag _),
    ReadProgram.consume_bind_of_returned (readByte fields.unused _),
    ReadProgram.consume_bind_of_returned (readShort fields.payload_size _)]
  rfl

end Header

end StdPrograms.Ouou

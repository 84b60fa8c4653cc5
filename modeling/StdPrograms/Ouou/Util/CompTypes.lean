import Mathlib.Data.List.Forall2
import StdPrograms.Ouou.Util.BaseTypes

/-!
Contract: `util/comptypes.py`, the types composed of others.

Owns fixed and length-prefixed strings, arrays and vectors, and their codecs.
A string prefix is a signed 16-bit number that `fromstream` passes to the
reader as it is; a short answer is decoded like any other.

Does not own arrays whose size is an attribute of the owner.
-/

namespace StdPrograms.Ouou

open StdPrograms.Foundation

/-! ### Strings -/

/-- `s.decode(encoding)`. -/
def decodeText (codec : TextCodec) (bytes : Bytes) : Except PyError Str :=
  match codec.decode bytes with
  | some text => .ok text
  | none => .error .unicodeDecodeError

/-- `s.encode(encoding)`. -/
def encodeText (codec : TextCodec) (text : Str) : Except PyError Bytes :=
  match codec.encode text with
  | some bytes => .ok bytes
  | none => .error .unicodeEncodeError

theorem decodeText_encodeText {codec : TextCodec} {text : Str} {bytes : Bytes}
    (encoded : encodeText codec text = .ok bytes) : decodeText codec bytes = .ok text := by
  unfold encodeText at encoded
  split at encoded
  next found =>
    cases Except.ok.inj encoded
    rw [decodeText, codec.decode_encode _ _ found]
  next => contradiction

/-- `reader.read_bytes(size)`, decoded. -/
def readText (codec : TextCodec) (size : Int) : Decoder Val :=
  .read .text size fun bytes => do return .str (← .ofExcept (decodeText codec bytes))

theorem readText_encoded {codec : TextCodec} {text : Str} {bytes : Bytes} {size : Int}
    (encoded : encodeText codec text = .ok bytes) (exact : (bytes.length : Int) = size)
    (rest : Bytes) :
    (readText codec size).consume (bytes ++ rest) = .returned (.str text) rest := by
  rw [readText, ReadProgram.consume_read _ _ exact rest, decodeText_encodeText encoded]
  rfl

theorem readText_detects (codec : TextCodec) (size : Int) :
    (readText codec size).Detects (· = .fixed) :=
  ⟨fun isFixed => (nomatch isFixed),
    fun _ => (ReadProgram.Detects.ofExcept _).bind fun _ => trivial⟩

/-- `CString(array_size).tobytes`: padded by characters, then encoded. -/
def CString.tobytes (codec : TextCodec) (array_size : Nat) : Val → Except PyError Bytes
  | .str text => encodeText codec (text ++ List.replicate (array_size - text.length) '\x00')
  | _ => .error .typeError

/-- `EncodedString(encoding).tobytes`. -/
def EncodedString.tobytes (codec : TextCodec) : Val → Except PyError Bytes
  | .str text => do
      let s ← encodeText codec text
      let b ← Short.format.pack s.length
      return b ++ s
  | _ => .error .typeError

theorem EncodedString.tobytes_eq_ok {codec : TextCodec} {value : Val} {bytes : Bytes}
    (encoded : EncodedString.tobytes codec value = .ok bytes) :
    ∃ text s b, value = .str text ∧ encodeText codec text = .ok s ∧
      Short.format.pack s.length = .ok b ∧ bytes = b ++ s := by
  cases value with
  | str text =>
      obtain ⟨s, textEncoded, rest⟩ := exceptBind_eq_ok.mp encoded
      obtain ⟨b, packed, result⟩ := exceptBind_eq_ok.mp rest
      exact ⟨text, s, b, rfl, textEncoded, packed, (Except.ok.inj result).symm⟩
  | none | int | list | obj | price => cases encoded

namespace Wire

/-- The strings of exactly `array_size` one-byte characters come back. -/
def CString (codec : TextCodec) (array_size : Nat) : Codec where
  default := fun _ => .ok (.str [])
  fromstream := fun _ => readText codec array_size
  tobytes := fun _ => CString.tobytes codec array_size
  uses := []
  literal := true
  inRange := fun _ value => ∃ text bytes, value = .str text ∧ text.length = array_size ∧
    encodeText codec text = .ok bytes ∧ bytes.length = array_size
  readsBack := by
    rintro given value bytes ⟨text, content, rfl, characters, textEncoded, width⟩ encoded
      decoded agree
    have unpadded : bytes = content := by
      simpa [CString.tobytes, characters, textEncoded] using encoded.symm
    subst unpadded
    refine ⟨.str text, fun rest => ?_, .str text, fun _ => rfl, fun _ _ => encoded⟩
    exact readText_encoded textEncoded (by omega) rest
  detects := fun _ => readText_detects codec array_size

def EncodedString (codec : TextCodec) : Codec where
  default := fun _ => .ok (.str [])
  fromstream := fun _ => do
    let n ← Short.format.fromstream
    readText codec n
  tobytes := fun _ => EncodedString.tobytes codec
  uses := []
  literal := true
  inRange := fun _ value => ∃ text, value = .str text
  readsBack := by
    rintro given value bytes - encoded decoded agree
    obtain ⟨text, s, b, rfl, textEncoded, packed, rfl⟩ :=
      EncodedString.tobytes_eq_ok encoded
    refine ⟨.str text, fun rest => ?_, .str text, fun _ => rfl, fun _ _ => encoded⟩
    rw [List.append_assoc,
      ReadProgram.consume_bind_of_returned (IntFormat.fromstream_packed packed (s ++ rest))]
    exact readText_encoded textEncoded rfl rest
  detects := fun _ =>
    (IntFormat.fromstream_detects _).bind fun n => readText_detects codec n

def String (host : Host) : Codec := EncodedString host.utf8
def GBKString (host : Host) : Codec := EncodedString host.gbk

end Wire

theorem encodedString_checked (codec : TextCodec) : (Wire.EncodedString codec).Checked := by
  intro owner value bytes encoded
  obtain ⟨text, -, -, rfl, -⟩ := EncodedString.tobytes_eq_ok encoded
  exact ⟨text, rfl⟩

theorem encodedString_fills (codec : TextCodec) : (Wire.EncodedString codec).Fills := by
  intro owner value bytes encoded
  obtain ⟨text, s, b, -, -, packed, rfl⟩ := EncodedString.tobytes_eq_ok encoded
  obtain ⟨-, rfl⟩ := IntFormat.pack_eq_ok packed
  exact List.ne_nil_of_length_pos (by simp [Short.format])

/-! ### Lists of one element class -/

/-- `TypeList(elem_cls).tobytes`. -/
def TypeList.tobytes (elem_cls : WireType) : List Val → Except PyError Bytes
  | [] => .ok []
  | elem :: rest => do
      let b ← elem_cls.tobytes [] elem
      let bs ← TypeList.tobytes elem_cls rest
      return b ++ bs

theorem TypeList.tobytes_cons {elem_cls : WireType} {elem : Val} {rest : List Val}
    {bytes : Bytes} (encoded : TypeList.tobytes elem_cls (elem :: rest) = .ok bytes) :
    ∃ b bs, elem_cls.tobytes [] elem = .ok b ∧
      TypeList.tobytes elem_cls rest = .ok bs ∧ bytes = b ++ bs := by
  obtain ⟨b, first, rest⟩ := exceptBind_eq_ok.mp encoded
  obtain ⟨bs, others, result⟩ := exceptBind_eq_ok.mp rest
  exact ⟨b, bs, first, others, (Except.ok.inj result).symm⟩

theorem TypeList.tobytes_cons_of_ok {elem_cls : WireType} {elem : Val} {rest : List Val}
    {b bs : Bytes} (first : elem_cls.tobytes [] elem = .ok b)
    (others : TypeList.tobytes elem_cls rest = .ok bs) :
    TypeList.tobytes elem_cls (elem :: rest) = .ok (b ++ bs) :=
  exceptBind_eq_ok.mpr ⟨b, first, exceptBind_eq_ok.mpr ⟨bs, others, rfl⟩⟩

/-- Elements that are in range come back from their encodings, in order. -/
theorem TypeList.readsBack (elem_cls : Codec) (values : List Val) {bytes : Bytes}
    (inRange : ∀ value ∈ values, elem_cls.inRange [] value)
    (encoded : TypeList.tobytes elem_cls.toWireType values = .ok bytes) :
    ∃ results,
      (∀ rest, ((elem_cls.fromstream []).times values.length).consume (bytes ++ rest) =
        .returned results rest) ∧
      List.Forall₂ Val.Same results values ∧
      (elem_cls.literal = true → results = values) ∧
      TypeList.tobytes elem_cls.toWireType results = .ok bytes := by
  induction values generalizing bytes with
  | nil =>
      cases Except.ok.inj encoded
      exact ⟨[], fun rest => rfl, .nil, fun _ => rfl, rfl⟩
  | cons elem others inductionHypothesis =>
      obtain ⟨b, bs, first, tail, rfl⟩ := tobytes_cons encoded
      obtain ⟨result, reads, same, literal, again⟩ :=
        elem_cls.readsBack [] elem b (inRange elem (by simp)) first [] (AgreeOn.refl _ _)
      obtain ⟨results, tailReads, tailSame, tailLiteral, tailAgain⟩ :=
        inductionHypothesis (fun value member => inRange value (by simp [member])) tail
      refine ⟨result :: results, fun rest => ?_, .cons same tailSame, fun isLiteral => ?_,
        tobytes_cons_of_ok (again [] (AgreeOn.refl _ _)) tailAgain⟩
      · rw [List.length_cons, ReadProgram.times, List.append_assoc,
          ReadProgram.consume_bind_of_returned (reads (bs ++ rest)),
          ReadProgram.consume_bind_of_returned (tailReads rest)]
        rfl
      · rw [literal isLiteral, tailLiteral isLiteral]

/-- `Array(array_size, elem_cls).tobytes`: a short list is extended by defaults. -/
def Array.tobytes (array_size : Nat) (elem_cls : WireType) : Val → Except PyError Bytes
  | .list values => do
      let default ← elem_cls.default []
      TypeList.tobytes elem_cls
        (values ++ List.replicate (array_size - values.length) default)
  | _ => .error .typeError

/-- `Vector(size_cls, elem_cls).tobytes`. -/
def Vector.tobytes (size_cls : IntFormat) (elem_cls : WireType) : Val → Except PyError Bytes
  | .list values => do
      let head ← size_cls.pack values.length
      let items ← TypeList.tobytes elem_cls values
      return head ++ items
  | _ => .error .typeError

theorem Vector.tobytes_eq_ok {size_cls : IntFormat} {elem_cls : WireType}
    {values : List Val} {bytes : Bytes}
    (encoded : Vector.tobytes size_cls elem_cls (.list values) = .ok bytes) :
    ∃ head items, size_cls.pack values.length = .ok head ∧
      TypeList.tobytes elem_cls values = .ok items ∧ bytes = head ++ items := by
  obtain ⟨head, packed, rest⟩ := exceptBind_eq_ok.mp encoded
  obtain ⟨items, content, result⟩ := exceptBind_eq_ok.mp rest
  exact ⟨head, items, packed, content, (Except.ok.inj result).symm⟩

theorem Vector.tobytes_of_ok {size_cls : IntFormat} {elem_cls : WireType}
    {values : List Val} {head items : Bytes}
    (packed : size_cls.pack values.length = .ok head)
    (encoded : TypeList.tobytes elem_cls values = .ok items) :
    Vector.tobytes size_cls elem_cls (.list values) = .ok (head ++ items) :=
  exceptBind_eq_ok.mpr ⟨head, packed, exceptBind_eq_ok.mpr ⟨items, encoded, rfl⟩⟩

namespace Wire

/-- The lists of exactly `array_size` elements come back. -/
def Array (array_size : Nat) (elem_cls : Codec) : Codec where
  default := fun _ => .ok (.list [])
  fromstream := fun _ => do return .list (← (elem_cls.fromstream []).times array_size)
  tobytes := fun _ => Array.tobytes array_size elem_cls.toWireType
  uses := []
  literal := elem_cls.literal
  inRange := fun _ value => ∃ values, value = .list values ∧ values.length = array_size ∧
    (∃ default, elem_cls.default [] = .ok default) ∧
    ∀ elem ∈ values, elem_cls.inRange [] elem
  readsBack := by
    rintro given value bytes ⟨values, rfl, full, ⟨default, hasDefault⟩, elements⟩ encoded
      decoded agree
    have exact (items : List Val) (count : items.length = array_size) :
        Array.tobytes array_size elem_cls.toWireType (.list items) =
          TypeList.tobytes elem_cls.toWireType items := by
      simp [Array.tobytes, hasDefault, count, bind, Except.bind]
    rw [exact values full] at encoded
    obtain ⟨results, reads, same, literal, again⟩ :=
      TypeList.readsBack elem_cls values elements encoded
    refine ⟨.list results, fun rest => ?_, .list same, fun isLiteral => ?_, fun _ _ => ?_⟩
    · have reads := reads rest
      rw [full] at reads
      rw [ReadProgram.consume_bind_of_returned reads]
      rfl
    · rw [literal isLiteral]
    · exact (exact results (by rw [same.length_eq, full])).trans again
  detects := fun _ => ((elem_cls.detects []).times array_size).bind fun _ => trivial

def Vector (size_cls : IntFormat) (elem_cls : Codec) : Codec where
  default := fun _ => .ok (.list [])
  fromstream := fun _ => do
    let size ← size_cls.fromstream
    return .list (← (elem_cls.fromstream []).times size.toNat)
  tobytes := fun _ => Vector.tobytes size_cls elem_cls.toWireType
  uses := []
  literal := elem_cls.literal
  inRange := fun _ value => ∃ values, value = .list values ∧
    ∀ elem ∈ values, elem_cls.inRange [] elem
  readsBack := by
    rintro given value bytes ⟨values, rfl, elements⟩ encoded decoded agree
    obtain ⟨head, items, packed, content, rfl⟩ := Vector.tobytes_eq_ok encoded
    obtain ⟨results, reads, same, literal, again⟩ :=
      TypeList.readsBack elem_cls values elements content
    refine ⟨.list results, fun rest => ?_, .list same, fun isLiteral => ?_, fun _ _ => ?_⟩
    · rw [List.append_assoc,
        ReadProgram.consume_bind_of_returned
          (IntFormat.fromstream_packed packed (items ++ rest)),
        Int.toNat_natCast, ReadProgram.consume_bind_of_returned (reads rest)]
      rfl
    · rw [literal isLiteral]
    · exact Vector.tobytes_of_ok (by rw [same.length_eq, packed]) again
  detects := fun _ => (IntFormat.fromstream_detects size_cls).bind fun size =>
    ((elem_cls.detects []).times size.toNat).bind fun _ => trivial

def ByteVector : Codec := Vector Byte.format Byte

end Wire

theorem vector_checked (size_cls : IntFormat) {elem_cls : Codec} (checked : elem_cls.Checked) :
    (Wire.Vector size_cls elem_cls).Checked := by
  intro owner value bytes encoded
  cases value with
  | list values =>
      obtain ⟨-, items, -, content, -⟩ := Vector.tobytes_eq_ok encoded
      refine ⟨values, rfl, ?_⟩
      clear encoded
      induction values generalizing items with
      | nil => simp
      | cons elem rest inductionHypothesis =>
          obtain ⟨b, bs, first, tail, -⟩ := TypeList.tobytes_cons content
          intro value member
          rcases List.mem_cons.mp member with rfl | member
          · exact checked [] value b first
          · exact inductionHypothesis bs tail value member
  | none | int | str | obj | price => cases encoded

theorem vector_fills {size_cls : IntFormat} (wide : size_cls.size ≠ 0) (elem_cls : Codec) :
    (Wire.Vector size_cls elem_cls).Fills := by
  intro owner value bytes encoded
  cases value with
  | list values =>
      obtain ⟨head, items, packed, -, rfl⟩ := Vector.tobytes_eq_ok encoded
      obtain ⟨-, rfl⟩ := IntFormat.pack_eq_ok packed
      refine List.ne_nil_of_length_pos ?_
      rw [List.length_append, ofInt_length]
      omega
  | none | int | str | obj | price => cases encoded

end StdPrograms.Ouou

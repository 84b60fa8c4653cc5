import StdPrograms.Ouou.Util.Codec

/-!
Contract: `util/basetypes.py`, the fixed-width types.

Owns `pack` and `frombytes` of the integer formats on a little-endian host, the
packed `LargeInt`, single characters, and their codecs. The metaclass installs
`tobytes` after the class body, so `LargeInt` is packed as a plain integer.

Does not own the types without a use in a message (`Long`, `Float`, ...).
-/

namespace StdPrograms.Ouou

open StdPrograms.Foundation

/-! ### Integer formats -/

/-- A `struct` format of one integer. -/
structure IntFormat where
  size : Nat
  signed : Bool

namespace IntFormat

/-- The integers the format packs. -/
def Holds (format : IntFormat) (value : Int) : Prop :=
  if format.signed then
    -(modulus format.size : Int) ≤ 2 * value ∧ 2 * value < (modulus format.size : Nat)
  else 0 ≤ value ∧ value < (modulus format.size : Nat)

instance (format : IntFormat) (value : Int) : Decidable (format.Holds value) := by
  unfold Holds
  split <;> infer_instance

def pack (format : IntFormat) (value : Int) : Except PyError Bytes :=
  if format.Holds value then .ok (ofInt format.size value) else .error .structError

/-- `unpack_from` at offset 0. -/
def frombytes (format : IntFormat) (buf : Bytes) : Except PyError Int :=
  if buf.length < format.size then .error .structError
  else
    let word := buf.take format.size
    .ok (if format.signed then toSigned word else toUnsigned word)

def fromstream (format : IntFormat) : Decoder Int :=
  .read .fixed format.size fun buf => .ofExcept (format.frombytes buf)

theorem pack_eq_ok {format : IntFormat} {value : Int} {bytes : Bytes}
    (packed : format.pack value = .ok bytes) :
    format.Holds value ∧ bytes = ofInt format.size value := by
  unfold pack at packed
  split at packed
  next holds => exact ⟨holds, (Except.ok.inj packed).symm⟩
  next => contradiction

theorem frombytes_ofInt {format : IntFormat} {value : Int} (holds : format.Holds value) :
    format.frombytes (ofInt format.size value) = .ok value := by
  have width : (ofInt format.size value).length = format.size := ofInt_length _ _
  have word : (ofInt format.size value).take format.size = ofInt format.size value :=
    List.take_of_length_le (by omega)
  rw [frombytes, if_neg (by omega), word]
  unfold Holds at holds
  split at holds
  next signed => simp only [signed, if_true, toSigned_ofInt _ _ holds.1 holds.2]
  next unsigned => simp [unsigned, toUnsigned_ofInt _ _ holds.1 holds.2]

/-- Reading a packed integer gives it back and leaves the rest. -/
theorem fromstream_packed {format : IntFormat} {value : Int} {bytes : Bytes}
    (packed : format.pack value = .ok bytes) (rest : Bytes) :
    format.fromstream.consume (bytes ++ rest) = .returned value rest := by
  obtain ⟨holds, rfl⟩ := pack_eq_ok packed
  rw [fromstream, ReadProgram.consume_read _ _ (by rw [ofInt_length]) rest,
    frombytes_ofInt holds]
  rfl

/-- What a reader makes of the next integer. -/
theorem decode_fromstream {format : IntFormat} {reader after : Reader} {value : Int}
    (decoded : reader.decode format.fromstream = .ok (value, after)) :
    format.frombytes (reader.read_bytes format.size).1 = .ok value ∧
      after = (reader.read_bytes format.size).2 := by
  simp only [Reader.decode, fromstream, ReadProgram.run] at decoded
  cases unpacked : format.frombytes (reader.read_bytes format.size).1 with
  | error error =>
      rw [unpacked] at decoded
      cases decoded
  | ok number =>
      rw [unpacked] at decoded
      cases Except.ok.inj decoded
      exact ⟨rfl, rfl⟩

theorem fromstream_detects (format : IntFormat) :
    format.fromstream.Detects (· = .fixed) := by
  refine ⟨fun _ => ⟨by omega, fun bytes short => ⟨.structError, ?_⟩⟩,
    fun bytes => .ofExcept _⟩
  have tooShort : bytes.length < format.size := by omega
  simp only [frombytes, if_pos tooShort, ReadProgram.ofExcept]

end IntFormat

/-- `'B'`, `'h'`, `'H'`, `'i'` and `'I'`. -/
def Byte.format : IntFormat := ⟨1, false⟩
def Short.format : IntFormat := ⟨2, true⟩
def UShort.format : IntFormat := ⟨2, false⟩
def Int.format : IntFormat := ⟨4, true⟩
def UInt.format : IntFormat := ⟨4, false⟩

/-! ### Codecs that read one integer -/

section Integer

variable (format : IntFormat)

/-- `tobytes` of an integer class. -/
def packVal : Val → Except PyError Bytes
  | .int value => format.pack value
  | _ => .error .typeError

theorem packVal_eq_ok {value : Val} {bytes : Bytes}
    (packed : packVal format value = .ok bytes) :
    ∃ number, value = .int number ∧ format.pack number = .ok bytes := by
  cases value with
  | int number => exact ⟨number, rfl, packed⟩
  | none | str | list | obj | price => cases packed

/-- An integer class whose `frombytes` passes the unpacked number through
`interpret`, which leaves the carried numbers alone. -/
def integerCodec (interpret : Int → Int) (carried : Int → Prop)
    (kept : ∀ number, carried number → interpret number = number) : Codec where
  default := fun _ => .ok (.int 0)
  fromstream := fun _ => do return .int (interpret (← format.fromstream))
  tobytes := fun _ => packVal format
  uses := []
  literal := true
  inRange := fun _ value => ∃ number, value = .int number ∧ carried number
  readsBack := by
    rintro given value bytes ⟨number, rfl, isCarried⟩ packed decoded agree
    refine ⟨.int number, fun rest => ?_, .int number, fun _ => rfl, fun _ _ => packed⟩
    rw [ReadProgram.consume_bind_of_returned (IntFormat.fromstream_packed packed rest),
      kept number isCarried]
    rfl
  detects := fun _ => (IntFormat.fromstream_detects format).bind fun _ => trivial

end Integer

/-- The classes without a `frombytes` of their own. -/
def plainInteger (format : IntFormat) : Codec :=
  integerCodec format id format.Holds fun _ _ => rfl

theorem plainInteger_checked (format : IntFormat) : (plainInteger format).Checked := by
  intro owner value bytes packed
  obtain ⟨number, rfl, packed⟩ := packVal_eq_ok format packed
  exact ⟨number, rfl, (IntFormat.pack_eq_ok packed).1⟩

theorem plainInteger_fills {format : IntFormat} (wide : format.size ≠ 0) :
    (plainInteger format).Fills := by
  intro owner value bytes packed
  obtain ⟨number, rfl, packed⟩ := packVal_eq_ok format packed
  obtain ⟨-, rfl⟩ := IntFormat.pack_eq_ok packed
  exact List.ne_nil_of_length_pos (by rw [ofInt_length]; omega)

namespace Wire

def Byte : Codec := plainInteger Byte.format
def Short : Codec := plainInteger Short.format
def UShort : Codec := plainInteger UShort.format
def UInt : Codec := plainInteger UInt.format
def Int : Codec := plainInteger Int.format

/-- `DigitInt(digit_size)` only changes how the integer is printed. -/
def DigitInt (_digit_size : Nat) : Codec := Int

end Wire

/-- The quotient that `__str__` of a `DigitInt` prints, before it is rounded. -/
def DigitInt.quotient (digit_size : Nat) (value : Int) : Rat := value / 10 ^ digit_size

/-- `LargeInt.frombytes`, on the unpacked number: a sign, a 29-bit mantissa and
a base-16 exponent above it. -/
def LargeInt.interpret (value : Int) : Int :=
  let negative := value < 0
  let magnitude := value.natAbs
  let tmp := magnitude >>> 29
  let magnitude :=
    if tmp ≠ 0 then (magnitude &&& 0x1fffffff) <<< (tmp * 4) else magnitude
  if negative then -(magnitude : Int) else magnitude

def LargeInt.frombytes (buf : Bytes) : Except PyError Int :=
  LargeInt.interpret <$> Int.format.frombytes buf

/-- The mantissa times its power of 16. -/
def LargeInt.unpacked (magnitude : Nat) : Nat :=
  magnitude % 2 ^ 29 * 16 ^ (magnitude / 2 ^ 29)

/-- The mask and the shift, which both decoders apply where there is an exponent. -/
theorem LargeInt.and_shiftLeft (magnitude : Nat) :
    (if magnitude >>> 29 ≠ 0 then (magnitude &&& 0x1fffffff) <<< (magnitude >>> 29 * 4)
      else magnitude) = LargeInt.unpacked magnitude := by
  have mantissa : magnitude &&& 0x1fffffff = magnitude % 2 ^ 29 :=
    Nat.and_two_pow_sub_one_eq_mod magnitude 29
  have exponent : magnitude >>> 29 = magnitude / 2 ^ 29 := Nat.shiftRight_eq_div_pow _ _
  rw [mantissa, exponent, Nat.shiftLeft_eq, LargeInt.unpacked]
  split
  next => rw [Nat.mul_comm (magnitude / 2 ^ 29) 4, Nat.pow_mul]
  next noExponent =>
    have zero : magnitude / 2 ^ 29 = 0 := by omega
    rw [zero, Nat.pow_zero, Nat.mul_one]
    omega

theorem LargeInt.interpret_eq (value : Int) :
    LargeInt.interpret value =
      if value < 0 then -(LargeInt.unpacked value.natAbs : Int)
      else LargeInt.unpacked value.natAbs := by
  rw [← LargeInt.and_shiftLeft, LargeInt.interpret]

theorem LargeInt.interpret_small (value : Int) (small : value.natAbs < 2 ^ 29) :
    LargeInt.interpret value = value := by
  have itself : LargeInt.unpacked value.natAbs = value.natAbs := by
    rw [LargeInt.unpacked, Nat.mod_eq_of_lt small, Nat.div_eq_of_lt small, Nat.pow_zero,
      Nat.mul_one]
  rw [LargeInt.interpret_eq, itself]
  split <;> omega

def Wire.LargeInt : Codec :=
  integerCodec Int.format LargeInt.interpret (fun number => number.natAbs < 2 ^ 29)
    LargeInt.interpret_small

/-! ### Characters -/

/-- `Char.pack`: `struct` wants one byte, so one ASCII character. -/
def Char.pack : Val → Except PyError Bytes
  | .str [char] =>
      if char.val < 128 then .ok [UInt8.ofNat char.toNat] else .error .structError
  | .str _ => .error .structError
  | _ => .error .typeError

/-- `Char.frombytes`: utf-8 of a single byte. -/
def Char.frombytes : Bytes → Except PyError Str
  | [] => .error .structError
  | byte :: _ =>
      if byte < 128 then .ok [Char.ofNat byte.toNat] else .error .unicodeDecodeError

theorem Char.pack_eq_ok {value : Val} {bytes : Bytes} (packed : Char.pack value = .ok bytes) :
    ∃ text byte, value = .str text ∧ bytes = [byte] ∧
      ∀ rest, Char.frombytes (byte :: rest) = .ok text := by
  unfold Char.pack at packed
  split at packed
  next char =>
    split at packed
    next small =>
      have below : char.toNat < 128 := small
      refine ⟨[char], UInt8.ofNat char.toNat, rfl, (Except.ok.inj packed).symm, fun rest => ?_⟩
      have byteSmall : UInt8.ofNat char.toNat < 128 := by
        rw [UInt8.lt_iff_toNat_lt]
        simp only [UInt8.toNat_ofNat']
        show char.toNat % 2 ^ 8 < 128
        omega
      have same : (UInt8.ofNat char.toNat).toNat = char.toNat := by
        simp only [UInt8.toNat_ofNat']
        omega
      rw [Char.frombytes, if_pos byteSmall, same, Char.ofNat_toNat]
    next => contradiction
  next => contradiction
  next => contradiction

def Wire.Char : Codec where
  default := fun _ => .ok (.str [])
  fromstream := fun _ =>
    .read .fixed 1 fun buf => do return .str (← .ofExcept (Char.frombytes buf))
  tobytes := fun _ => Char.pack
  uses := []
  literal := true
  inRange := fun _ _ => True
  readsBack := by
    rintro given value bytes - packed decoded agree
    obtain ⟨text, byte, rfl, rfl, decodes⟩ := Char.pack_eq_ok packed
    refine ⟨.str text, fun rest => ?_, .str text, fun _ => rfl, fun _ _ => packed⟩
    have single : (([byte] : Bytes).length : ℤ) = 1 := rfl
    rw [ReadProgram.consume_read _ _ single rest, decodes]
    rfl
  detects := by
    intro owner
    refine ⟨fun _ => ⟨by decide, fun bytes short => ?_⟩,
      fun bytes => (ReadProgram.Detects.ofExcept _).bind fun _ => trivial⟩
    have empty : bytes = [] := List.length_eq_zero_iff.mp (by omega)
    exact ⟨.structError, by rw [empty]; rfl⟩

end StdPrograms.Ouou

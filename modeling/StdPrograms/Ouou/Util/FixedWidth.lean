import Mathlib.Algebra.BigOperators.Ring.List
import StdPrograms.Ouou.Util.CompTypes

/-!
Contract: the widths of `Array` and `CString` of `util/comptypes.py`.

Owns UTF-8, the types with a `type_size`, what their `fromstream` takes and what
their `tobytes` emits, and the exact condition under which the two agree.

A short list is extended to the size of its array and a long one is not cut. A
string is extended by characters, whatever their widths, and is not cut either.
-/

namespace StdPrograms.Ouou

open StdPrograms.Foundation

/-! ### UTF-8 -/

/-- `'utf-8'`. -/
def utf8 : TextCodec where
  encode := fun text => some (text.flatMap String.utf8EncodeChar)
  decode := fun bytes => bytes.toByteArray.utf8Decode?.map Array.toList
  decode_encode := by
    intro text bytes encoded
    cases Option.some.inj encoded
    show text.utf8Encode.utf8Decode?.map Array.toList = some text
    rw [List.utf8Decode?_utf8Encode]
    rfl

theorem length_encodeText_utf8 {text : Str} {bytes : Bytes}
    (encoded : encodeText utf8 text = .ok bytes) :
    bytes.length = (text.map Char.utf8Size).sum := by
  cases Except.ok.inj encoded
  simp [List.length_flatMap]

/-- A character takes one byte, or more. -/
theorem length_le_sum_utf8Size (text : Str) : text.length ≤ (text.map Char.utf8Size).sum := by
  induction text with
  | nil => exact Nat.le_refl 0
  | cons char rest inductionHypothesis =>
      have positive := Char.utf8Size_pos char
      rw [List.length_cons, List.map_cons, List.sum_cons]
      omega

/-- As many bytes as characters: one byte for each. -/
theorem sum_utf8Size_eq_length_iff (text : Str) :
    (text.map Char.utf8Size).sum = text.length ↔ ∀ char ∈ text, char.val ≤ 127 := by
  induction text with
  | nil => simp
  | cons char rest inductionHypothesis =>
      have positive := Char.utf8Size_pos char
      have others := length_le_sum_utf8Size rest
      rw [List.length_cons, List.map_cons, List.sum_cons, List.forall_mem_cons,
        ← inductionHypothesis, ← Char.utf8Size_eq_one_iff]
      omega

/-! ### Types with a size -/

/-- A class of `basetypes.py`, or another one with a `type_size` of its own. -/
structure Scalar extends WireType where
  type_size : ℕ
  /-- The bytes that `pack` makes of a value. -/
  width : ℕ
  takes : ∀ owner, (toWireType.fromstream owner).Takes type_size
  emits : ∀ owner value bytes, toWireType.tobytes owner value = .ok bytes → bytes.length = width

namespace Scalar

/-- An integer class: what `pack` uses, what `frombytes` and `calcsize` use, and
what `frombytes` makes of the number. -/
def ofInteger (packed unpacked : IntFormat) (interpret : Int → Int) : Scalar where
  default := fun _ => .ok (.int 0)
  fromstream := fun _ => do return .int (interpret (← unpacked.fromstream))
  tobytes := fun _ => packVal packed
  type_size := unpacked.size
  width := packed.size
  takes := fun _ => (ReadProgram.Takes.read _ fun _ => .ofExcept _).bind fun _ => .done _
  emits := by
    intro owner value bytes encoded
    obtain ⟨number, rfl, isPacked⟩ := packVal_eq_ok packed encoded
    obtain ⟨-, rfl⟩ := IntFormat.pack_eq_ok isPacked
    exact ofInt_length _ _

/-- The classes whose format has one width. -/
theorem ofInteger_toWireType (format : IntFormat) :
    (ofInteger format format id).toWireType = (plainInteger format).toWireType := rfl

def Byte : Scalar := ofInteger Byte.format Byte.format id
def Short : Scalar := ofInteger Short.format Short.format id
def UShort : Scalar := ofInteger UShort.format UShort.format id
def Int : Scalar := ofInteger Int.format Int.format id
def UInt : Scalar := ofInteger UInt.format UInt.format id
def LargeInt : Scalar := ofInteger Int.format Int.format LargeInt.interpret

/-- `'<l'` has four bytes, and a native `'l'` eight. -/
def Long : Scalar := ofInteger Int.format ⟨8, true⟩ id
def ULong : Scalar := ofInteger UInt.format ⟨8, false⟩ id

def Char : Scalar where
  toWireType := Wire.Char.toWireType
  type_size := 1
  width := 1
  takes := fun _ => .read _ fun _ => (ReadProgram.Takes.ofExcept _).bind fun _ => .done _
  emits := by
    intro owner value bytes encoded
    obtain ⟨text, byte, -, rfl, -⟩ := Char.pack_eq_ok encoded
    rfl

end Scalar

/-- The element types that an array can have: scalars, and arrays of them. -/
inductive SizedType where
  | scalar (cls : Scalar)
  | array (array_size : ℕ) (elem_cls : SizedType)

namespace SizedType

def wire : SizedType → WireType
  | scalar cls => cls.toWireType
  | array array_size elem_cls =>
      { default := fun _ => .ok (.list [])
        fromstream := fun _ => do
          return .list (← (elem_cls.wire.fromstream []).times array_size)
        tobytes := fun _ => Array.tobytes array_size elem_cls.wire }

def type_size : SizedType → ℕ
  | scalar cls => cls.type_size
  | array array_size elem_cls => array_size * elem_cls.type_size

/-- The scalars that values of the type consist of. -/
def base : SizedType → Scalar
  | scalar cls => cls
  | array _ elem_cls => elem_cls.base

/-- How many of them a value of the type is meant to have. -/
def capacity : SizedType → ℕ
  | scalar _ => 1
  | array array_size elem_cls => array_size * elem_cls.capacity

/-- How many of them a value has, short lists filled up. -/
def filled : SizedType → Val → ℕ
  | scalar _, _ => 1
  | array array_size elem_cls, .list values =>
      (values.map elem_cls.filled).sum + (array_size - values.length) * elem_cls.capacity
  | array _ _, _ => 0

/-- An array of codecs is the array of their types. -/
theorem wire_array {elem_cls : SizedType} {codec : Codec} (array_size : ℕ)
    (elements : elem_cls.wire = codec.toWireType) :
    (array array_size elem_cls).wire = (Wire.Array array_size codec).toWireType := by
  rw [wire, elements]
  rfl

theorem type_size_eq (type : SizedType) : type.type_size = type.capacity * type.base.type_size := by
  induction type with
  | scalar cls => exact (Nat.one_mul _).symm
  | array array_size elem_cls inductionHypothesis =>
      rw [type_size, capacity, base, inductionHypothesis, Nat.mul_assoc]

/-- `fromstream` takes the bytes that `type_size` says. -/
theorem takes (type : SizedType) (owner : Obj) :
    (type.wire.fromstream owner).Takes type.type_size := by
  induction type generalizing owner with
  | scalar cls => exact cls.takes owner
  | array array_size elem_cls inductionHypothesis =>
      exact ((inductionHypothesis []).times array_size).bind fun values => .done _

/-! ### What is emitted -/

end SizedType

theorem TypeList.length_of_tobytes {elem_cls : WireType} {measure : Val → ℕ}
    (elements : ∀ value bytes, elem_cls.tobytes [] value = .ok bytes → bytes.length = measure value)
    {values : List Val} {bytes : Bytes} (encoded : TypeList.tobytes elem_cls values = .ok bytes) :
    bytes.length = (values.map measure).sum := by
  induction values generalizing bytes with
  | nil =>
      cases Except.ok.inj encoded
      rfl
  | cons elem rest inductionHypothesis =>
      obtain ⟨b, bs, first, others, rfl⟩ := tobytes_cons encoded
      rw [List.length_append, elements _ _ first, inductionHypothesis others, List.map_cons,
        List.sum_cons]

theorem TypeList.tobytes_mem {elem_cls : WireType} {values : List Val} {bytes : Bytes}
    (encoded : TypeList.tobytes elem_cls values = .ok bytes) :
    ∀ value ∈ values, ∃ b, elem_cls.tobytes [] value = .ok b := by
  induction values generalizing bytes with
  | nil => simp
  | cons elem rest inductionHypothesis =>
      obtain ⟨b, bs, first, others, rfl⟩ := tobytes_cons encoded
      intro value member
      rcases List.mem_cons.mp member with rfl | member
      · exact ⟨b, first⟩
      · exact inductionHypothesis others value member

/-- What an encoded array encodes: its list, and defaults up to its size. -/
theorem Array.tobytes_eq_ok {array_size : ℕ} {elem_cls : WireType} {value : Val} {bytes : Bytes}
    (encoded : Array.tobytes array_size elem_cls value = .ok bytes) :
    ∃ values default, value = .list values ∧ elem_cls.default [] = .ok default ∧
      TypeList.tobytes elem_cls
        (values ++ List.replicate (array_size - values.length) default) = .ok bytes := by
  cases value with
  | list values =>
      obtain ⟨default, isDefault, encoded⟩ := exceptBind_eq_ok.mp encoded
      exact ⟨values, default, rfl, isDefault, encoded⟩
  | none | int | str | obj | price => cases encoded

namespace SizedType

/-- A default is full: the one of an array is filled up. -/
theorem filled_default {type : SizedType} {default : Val}
    (isDefault : type.wire.default [] = .ok default) : type.filled default = type.capacity := by
  cases type with
  | scalar cls => rfl
  | array array_size elem_cls =>
      cases Except.ok.inj isDefault
      simp [filled, capacity]

/-- `tobytes` emits every scalar of the filled value, and nothing else. -/
theorem length_of_tobytes (type : SizedType) {value : Val} {bytes : Bytes}
    (encoded : type.wire.tobytes [] value = .ok bytes) :
    bytes.length = type.filled value * type.base.width := by
  induction type generalizing value bytes with
  | scalar cls =>
      rw [filled, base, Nat.one_mul]
      exact cls.emits [] value bytes encoded
  | array array_size elem_cls inductionHypothesis =>
      obtain ⟨values, default, rfl, isDefault, encoded⟩ := Array.tobytes_eq_ok encoded
      have elements (value : Val) (b : Bytes) (isEncoded : elem_cls.wire.tobytes [] value = .ok b) :
          b.length = elem_cls.filled value * elem_cls.base.width := inductionHypothesis isEncoded
      rw [TypeList.length_of_tobytes elements encoded, List.map_append, List.sum_append,
        List.map_replicate, List.sum_replicate_nat, filled_default isDefault,
        List.sum_map_mul_right, filled, base, Nat.add_mul, Nat.mul_assoc]

/-- No list in the value is longer than its array. -/
def Fits : SizedType → Val → Prop
  | scalar _, _ => True
  | array array_size elem_cls, .list values =>
      values.length ≤ array_size ∧ ∀ value ∈ values, elem_cls.Fits value
  | array _ _, _ => False

/-- A sum of parts that are not too small is as small as it can be when each part is. -/
theorem sum_eq_iff_of_le {measure : Val → ℕ} {least : ℕ} {values : List Val}
    (above : ∀ value ∈ values, least ≤ measure value) :
    values.length * least ≤ (values.map measure).sum ∧
      ((values.map measure).sum = values.length * least ↔
        ∀ value ∈ values, measure value = least) := by
  induction values with
  | nil => simp
  | cons value rest inductionHypothesis =>
      have here := above value (by simp)
      obtain ⟨others, exact⟩ :=
        inductionHypothesis fun other member => above other (by simp [member])
      rw [List.length_cons, List.map_cons, List.sum_cons, Nat.succ_mul, List.forall_mem_cons,
        ← exact]
      omega

/-- A value is filled to at least what the type is meant to have, and to no more where its
lists fit. -/
theorem filled_eq_capacity_iff (type : SizedType) (positive : 0 < type.capacity) {value : Val}
    {bytes : Bytes} (encoded : type.wire.tobytes [] value = .ok bytes) :
    type.capacity ≤ type.filled value ∧
      (type.filled value = type.capacity ↔ type.Fits value) := by
  induction type generalizing value bytes with
  | scalar cls => exact ⟨Nat.le_refl 1, iff_of_true rfl trivial⟩
  | array array_size elem_cls inductionHypothesis =>
      obtain ⟨values, default, rfl, -, encoded⟩ := Array.tobytes_eq_ok encoded
      have elemPositive : 0 < elem_cls.capacity := Nat.pos_of_mul_pos_left positive
      have elements (value : Val) (member : value ∈ values) :
          elem_cls.capacity ≤ elem_cls.filled value ∧
            (elem_cls.filled value = elem_cls.capacity ↔ elem_cls.Fits value) := by
        obtain ⟨b, isEncoded⟩ := TypeList.tobytes_mem encoded value (by simp [member])
        exact inductionHypothesis elemPositive isEncoded
      obtain ⟨above, exact⟩ := sum_eq_iff_of_le fun value member => (elements value member).1
      rw [forall₂_congr fun value member => (elements value member).2] at exact
      rw [filled, capacity, Fits, ← exact]
      by_cases short : values.length ≤ array_size
      · have split : array_size * elem_cls.capacity = values.length * elem_cls.capacity +
            (array_size - values.length) * elem_cls.capacity := by
          rw [← Nat.add_mul, Nat.add_sub_cancel' short]
        omega
      · have longer : array_size * elem_cls.capacity < values.length * elem_cls.capacity :=
          Nat.mul_lt_mul_of_pos_right (by omega) elemPositive
        omega

end SizedType

/-! ### Fixed widths -/

/-- `Array(n, elem_cls)` emits its size exactly when the scalars of its list, short lists
filled up, have the size of the `n * capacity` that there is room for. -/
theorem Array.width_iff (n : ℕ) (elem_cls : SizedType) {xs : Val} {bytes : Bytes}
    (encoded : (SizedType.array n elem_cls).wire.tobytes [] xs = .ok bytes) :
    bytes.length = n * elem_cls.type_size ↔
      (SizedType.array n elem_cls).filled xs * elem_cls.base.width =
        n * elem_cls.capacity * elem_cls.base.type_size := by
  rw [SizedType.length_of_tobytes _ encoded, SizedType.type_size_eq, Nat.mul_assoc]
  rfl

/-- With scalars as wide as their size, no list may be longer than its array. -/
theorem Array.width_iff_fits (n : ℕ) (elem_cls : SizedType)
    (positive : 0 < n * elem_cls.capacity) (wide : 0 < elem_cls.base.width)
    (sameWidth : elem_cls.base.width = elem_cls.base.type_size) {xs : Val} {bytes : Bytes}
    (encoded : (SizedType.array n elem_cls).wire.tobytes [] xs = .ok bytes) :
    bytes.length = n * elem_cls.type_size ↔ (SizedType.array n elem_cls).Fits xs := by
  have exact := (SizedType.filled_eq_capacity_iff (.array n elem_cls) positive encoded).2
  rw [Array.width_iff n elem_cls encoded, ← exact, ← sameWidth, SizedType.capacity,
    Nat.mul_left_inj (by omega)]

/-- `CString(n)` emits `n` bytes exactly for one-byte characters, at most `n` of them. -/
theorem CString.width_iff (n : ℕ) {s : Str} {bytes : Bytes}
    (encoded : CString.tobytes utf8 n (.str s) = .ok bytes) :
    bytes.length = n ↔ s.length ≤ n ∧ ∀ char ∈ s, char.val ≤ 127 := by
  have emitted := length_encodeText_utf8 encoded
  have pad : Char.utf8Size '\x00' = 1 := by decide
  rw [List.map_append, List.sum_append, List.map_replicate, List.sum_replicate_nat, pad,
    Nat.mul_one] at emitted
  have least := length_le_sum_utf8Size s
  rw [← sum_utf8Size_eq_length_iff]
  omega

/-- What the two composites take is fixed, and what they emit is as much exactly for arrays
that are filled to their size, and for short strings of one-byte characters. -/
theorem fixedWidth_iff (n : ℕ) (elem_cls : SizedType) :
    ((SizedType.array n elem_cls).wire.fromstream []).Takes (n * elem_cls.type_size) ∧
    (∀ xs bytes, (SizedType.array n elem_cls).wire.tobytes [] xs = .ok bytes →
      (bytes.length = n * elem_cls.type_size ↔
        (SizedType.array n elem_cls).filled xs * elem_cls.base.width =
          n * elem_cls.capacity * elem_cls.base.type_size)) ∧
    ((Wire.CString utf8 n).fromstream []).Takes n ∧
    ∀ s bytes, (Wire.CString utf8 n).tobytes [] (.str s) = .ok bytes →
      (bytes.length = n ↔ s.length ≤ n ∧ ∀ char ∈ s, char.val ≤ 127) :=
  ⟨SizedType.takes _ [], fun _ _ encoded => Array.width_iff n elem_cls encoded,
    .read _ fun _ => (ReadProgram.Takes.ofExcept _).bind fun _ => .done _,
    fun _ _ encoded => CString.width_iff n encoded⟩

/-- An array of two that is given one byte, and a string as long as its field. -/
theorem two_bytes_fixedWidth :
    ∃ array string,
      (SizedType.array 2 (.scalar .Byte)).wire.tobytes [] (.list [.int 7]) = .ok array ∧
      array.length = 2 * (SizedType.scalar .Byte).type_size ∧
      (Wire.CString utf8 2).tobytes [] (.str ['a', 'b']) = .ok string ∧ string.length = 2 := by
  obtain ⟨-, array, -, string⟩ := fixedWidth_iff 2 (.scalar .Byte)
  have ascii : ∀ char ∈ ['a', 'b'], char.val ≤ 127 := by
    intro char member
    rcases List.mem_cons.mp member with rfl | last
    · decide
    · rw [List.mem_singleton.mp last]
      decide
  have encodedArray :
      (SizedType.array 2 (.scalar .Byte)).wire.tobytes [] (.list [.int 7]) = .ok [7, 0] := rfl
  have encodedString : (Wire.CString utf8 2).tobytes [] (.str ['a', 'b']) = .ok [97, 98] := rfl
  exact ⟨_, _, encodedArray, (array _ _ encodedArray).mpr rfl, encodedString,
    (string _ _ encodedString).mpr ⟨Nat.le_refl 2, ascii⟩⟩

/-- Two bytes for an array of one, four bytes for the eight of a `Long`, and two bytes for a
string of one character. -/
theorem widths_not_fixed :
    ((SizedType.array 1 (.scalar .Byte)).wire.tobytes [] (.list [.int 1, .int 2]) = .ok [1, 2] ∧
      ([1, 2] : Bytes).length ≠ 1 * (SizedType.scalar .Byte).type_size) ∧
    ((SizedType.array 1 (.scalar .Long)).wire.tobytes [] (.list [.int 1]) = .ok [1, 0, 0, 0] ∧
      ([1, 0, 0, 0] : Bytes).length ≠ 1 * (SizedType.scalar .Long).type_size) ∧
    (Wire.CString utf8 1).tobytes [] (.str ['é']) = .ok [0xc3, 0xa9] ∧
      ([0xc3, 0xa9] : Bytes).length ≠ 1 :=
  ⟨⟨rfl, by decide⟩, ⟨rfl, by decide⟩, rfl, by decide⟩

end StdPrograms.Ouou

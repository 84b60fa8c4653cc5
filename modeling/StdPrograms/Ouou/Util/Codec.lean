import StdPrograms.Ouou.Util.Stream

/-!
Contract: what a class of the package does on the wire, and when it gets its
values back.

`WireType` is the class: its default value, its `fromstream` and its `tobytes`,
each with the object that owns the attribute, whose attributes some types look
at. `Codec` adds the values that survive the wire, with the proof that they do,
and the proof that the integers of the type detect a short read. Every type is
built as a codec, so that a table of attributes carries these proofs.

Does not own any concrete type.
-/

namespace StdPrograms.Ouou

open StdPrograms.Foundation

structure WireType where
  /-- `cls()`, or `cls(owner = self)` for a type that takes an owner. -/
  default : Obj → Except PyError Val
  fromstream : Obj → Decoder Val
  /-- Conversion of the value to the class, then `tobytes`. -/
  tobytes : Obj → Val → Except PyError Bytes

/-- Two objects agree on the attributes a type looks at. -/
def AgreeOn (names : List String) (left right : Obj) : Prop :=
  ∀ name ∈ names, left.get name = right.get name

theorem AgreeOn.refl (names : List String) (self : Obj) : AgreeOn names self self :=
  fun _ _ => rfl

namespace WireType

/-- The bytes of `value` decode to a value equal to it, and to nothing more
than their own length; that value encodes to the same bytes. -/
def ReadsBack (type : WireType) (uses : List String) (literal : Bool) (given : Obj)
    (value : Val) (bytes : Bytes) : Prop :=
  ∀ decoded, AgreeOn uses decoded given → ∃ result,
    (∀ rest, (type.fromstream decoded).consume (bytes ++ rest) = .returned result rest) ∧
    Val.Same result value ∧ (literal = true → result = value) ∧
    ∀ owner, AgreeOn uses owner given → type.tobytes owner result = .ok bytes

end WireType

structure Codec extends WireType where
  /-- Attributes of the owner that decoding and encoding look at. -/
  uses : List String
  /-- The decoded value is the given one, not merely equal to it. -/
  literal : Bool
  /-- The values of the type that the wire carries. -/
  inRange : Obj → Val → Prop
  readsBack : ∀ given value bytes, inRange given value →
    toWireType.tobytes given value = .ok bytes →
      toWireType.ReadsBack uses literal given value bytes
  detects : ∀ owner, (toWireType.fromstream owner).Detects (· = .fixed)

namespace Codec

/-- What the type encodes is in range: its values are checked by `tobytes`. -/
def Checked (type : Codec) : Prop :=
  ∀ owner value bytes, type.tobytes owner value = .ok bytes → type.inRange owner value

/-- No value of the type has an empty encoding. -/
def Fills (type : Codec) : Prop :=
  ∀ owner value bytes, type.tobytes owner value = .ok bytes → bytes ≠ []

end Codec

end StdPrograms.Ouou

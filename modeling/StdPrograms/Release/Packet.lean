import StdPrograms.Foundation.Memory

/-!
Contract: the packet classes of `packet.h`.

Owns the header's layout, `OPacket` with every overload of `operator <<`,
`setData`, `setPos` and `wind`, and `IPacket` with `append`, `is_complete` and
the overloads of `operator >>` for the integer types and for `std::string`.
Assertions are on, and the byte order is the host's.

An `OPacket` writes through a pointer into its buffer, which the code may leave;
an `IPacket` is the bytes it has received. Does not own encryption, nor
`operator >> (char*)`, which copies to a place whose size it does not know.
-/

namespace StdPrograms.Release

open StdPrograms.Foundation

def PACKET_SIZE : Nat := 0x8000
def PACKET_MAGIC : Nat := 0x5050
def PACKET_FLAG_ENCRYPT : Nat := 0x0004

/-- `sizeof(PacketHdr)`: magic, flag, pktLen, mid and pid. -/
def kHdrLen : Nat := 12

/-- The exceptions of `packet.h`, and an assertion that fails. -/
inductive ExceptBase where
  | badPacket
  | packetOverwrite
  | packetOverread
  | assertion
deriving DecidableEq, Repr

/-! ### Typed values -/

/-- The integer types that a packet takes. -/
inductive IntType where
  | int8
  | uint8
  | int16
  | uint16
  | int32
  | uint32
  | int64
  | uint64
deriving DecidableEq, Repr

namespace IntType

def size : IntType → Nat
  | int8 => 1
  | uint8 => 1
  | int16 => 2
  | uint16 => 2
  | int32 => 4
  | uint32 => 4
  | int64 => 8
  | uint64 => 8

def signed : IntType → Bool
  | int8 => true
  | uint8 => false
  | int16 => true
  | uint16 => false
  | int32 => true
  | uint32 => false
  | int64 => true
  | uint64 => false

/-- The values of the type. -/
def Holds (type : IntType) (data : Int) : Prop :=
  if type.signed then -(modulus type.size : Int) ≤ 2 * data ∧ 2 * data < (modulus type.size : Nat)
  else 0 ≤ data ∧ data < (modulus type.size : Nat)

instance (type : IntType) (data : Int) : Decidable (type.Holds data) := by
  unfold Holds
  split <;> infer_instance

/-- The value behind a pointer to the type. -/
def ofBytes (type : IntType) (bytes : Bytes) : Int :=
  if type.signed then toSigned bytes else toUnsigned bytes

theorem ofBytes_ofInt {type : IntType} {data : Int} (holds : type.Holds data) :
    type.ofBytes (ofInt type.size data) = data := by
  unfold Holds at holds
  unfold ofBytes
  split at holds
  next signed => rw [if_pos signed, toSigned_ofInt _ _ holds.1 holds.2]
  next unsigned => rw [if_neg unsigned, toUnsigned_ofInt _ _ holds.1 holds.2]

end IntType

/-! ### OPacket -/

/-- `_buf`, `_pos` and `_len`, the latter two of 16 bits. -/
structure OPacket where
  buf : Memory
  pos : Nat
  len : Nat

namespace OPacket

/-- The header of a new packet. -/
def header : Bytes :=
  toLittleEndian 2 PACKET_MAGIC ++ (toLittleEndian 2 0 ++ (toLittleEndian 2 0 ++
    (toLittleEndian 2 0 ++ toLittleEndian 4 0)))

/-- The constructor, on memory with the given contents. -/
def new (memory : Nat → UInt8) : OPacket where
  buf := Memory.store { cells := memory } 0 header
  pos := kHdrLen
  len := kHdrLen

def setMsgId (self : OPacket) (mid : Nat) : OPacket :=
  { self with buf := self.buf.store 6 (toLittleEndian 2 mid) }

def getFlag (self : OPacket) : Nat := ofLittleEndian (self.buf.load 2 2)

def setFlag (self : OPacket) (flag : Nat) : OPacket :=
  { self with buf := self.buf.store 2 (toLittleEndian 2 flag) }

/-- The bytes that `getBuf` and `getBufSize` denote. -/
def getBuf (self : OPacket) : Bytes := self.buf.load 0 self.len

def getDataSize (self : OPacket) : Nat := if kHdrLen < self.len then self.len - kHdrLen else 0

/-- The bytes that `getData` and `getDataSize` denote. -/
def getData (self : OPacket) : Bytes := self.buf.load kHdrLen self.getDataSize

def setPos (self : OPacket) (pos : Nat) : OPacket :=
  { self with pos := if self.len < pos then self.len else pos }

def wind (self : OPacket) : OPacket :=
  { self with buf := self.buf.store 4 (toLittleEndian 2 self.getDataSize) }

def adjust (self : OPacket) (size : Nat) : OPacket :=
  let pos := (self.pos + size) % 0x10000
  { self with pos := pos, len := if self.len < pos then pos else self.len }

/-- `checkOverwrite` throws. -/
def checkOverwrite (self : OPacket) (wsize : Nat) : Bool := PACKET_SIZE < self.len + wsize

/-- The write of `operator <<` at the position, without a check. -/
def put (self : OPacket) (bytes : Bytes) : OPacket :=
  { self with buf := self.buf.store self.pos bytes }.adjust bytes.length

/-- What a call leaves, and the exception it throws. -/
structure Outcome where
  packet : OPacket
  thrown : Option ExceptBase := none

/-- `operator <<` of an integer type, with its check. -/
def checkedInt (type : IntType) (self : OPacket) (data : Int) : Outcome :=
  if self.checkOverwrite type.size then { packet := self, thrown := some .packetOverwrite }
  else { packet := self.put (ofInt type.size data) }

def write_int8 : OPacket → Int → Outcome := checkedInt .int8
def write_uint8 : OPacket → Int → Outcome := checkedInt .uint8
def write_int16 : OPacket → Int → Outcome := checkedInt .int16
def write_uint16 : OPacket → Int → Outcome := checkedInt .uint16
def write_int32 : OPacket → Int → Outcome := checkedInt .int32
def write_uint32 : OPacket → Int → Outcome := checkedInt .uint32
def write_uint64 : OPacket → Int → Outcome := checkedInt .uint64

/-- Of all integer overloads, this one does not call `checkOverwrite`. -/
def write_int64 (self : OPacket) (data : Int) : Outcome where
  packet := self.put (ofInt 8 data)

/-- The overload of `operator <<` for an integer type. -/
def write_int : IntType → OPacket → Int → Outcome
  | .int8 => write_int8
  | .uint8 => write_uint8
  | .int16 => write_int16
  | .uint16 => write_uint16
  | .int32 => write_int32
  | .uint32 => write_uint32
  | .int64 => write_int64
  | .uint64 => write_uint64

/-- `operator << (const char*)`, of a text of any length: both checks come before
the length is written. -/
def write_cstr (self : OPacket) (str : Bytes) : Outcome :=
  if self.checkOverwrite 2 then { packet := self, thrown := some .packetOverwrite }
  else
    let len := str.length % 0x10000
    if self.checkOverwrite len then { packet := self, thrown := some .packetOverwrite }
    else
      let prefixed := self.write_uint16 len
      if prefixed.thrown.isSome then prefixed
      else { packet := prefixed.packet.put (str.take len) }

/-- `operator << (const std::string&)`. -/
def write_string (self : OPacket) (str : Bytes) : Outcome :=
  if self.checkOverwrite 2 then { packet := self, thrown := some .packetOverwrite }
  else
    let len := str.length % 0x10000
    let prefixed := self.write_uint16 len
    if prefixed.thrown.isSome then prefixed
    else if prefixed.packet.checkOverwrite len then
      { prefixed with thrown := some .packetOverwrite }
    else { packet := prefixed.packet.put (str.take len) }

/-- `setData`, of a length of 16 bits. -/
def setData (self : OPacket) (data : Bytes) : Outcome :=
  if PACKET_SIZE < data.length then { packet := self, thrown := some .assertion }
  else
    let len := (kHdrLen + data.length) % 0x10000
    { packet := { buf := self.buf.store kHdrLen data, pos := len, len := len } }

/-! ### What a write leaves -/

variable {self : OPacket}

/-- Where a write leaves the position and the length, inside 16 bits. -/
theorem put_positions {bytes : Bytes} (small : self.pos + bytes.length < 0x10000) :
    (self.put bytes).pos = self.pos + bytes.length ∧
      (self.put bytes).len = max self.len (self.pos + bytes.length) := by
  simp only [put, adjust, Nat.mod_eq_of_lt small, true_and]
  split <;> omega

theorem checkOverwrite_eq_true {wsize : Nat} :
    self.checkOverwrite wsize = true ↔ PACKET_SIZE < self.len + wsize := by
  simp [checkOverwrite]

/-- The length in front of a text. -/
def lengthBytes (str : Bytes) : Bytes := ofInt 2 (str.length % 0x10000 : Nat)

/-- The length of a text has been checked before it is written. -/
theorem write_length {str : Bytes} (fits : ¬ self.checkOverwrite 2 = true) :
    self.write_uint16 (str.length % 0x10000 : Nat) = { packet := self.put (lengthBytes str) } := by
  rw [write_uint16, checkedInt]
  exact if_neg fits

theorem write_cstr_eq (str : Bytes) :
    self.write_cstr str =
      if self.checkOverwrite 2 ∨ self.checkOverwrite (str.length % 0x10000) then
        { packet := self, thrown := some .packetOverwrite }
      else
        { packet := (self.put (lengthBytes str)).put (str.take (str.length % 0x10000)) } := by
  rw [write_cstr]
  by_cases prefixOver : self.checkOverwrite 2 = true
  · rw [if_pos prefixOver, if_pos (.inl prefixOver)]
  · rw [if_neg prefixOver]
    dsimp only
    by_cases textOver : self.checkOverwrite (str.length % 0x10000) = true
    · rw [if_pos textOver, if_pos (.inr textOver)]
    · rw [if_neg textOver, if_neg (not_or.mpr ⟨prefixOver, textOver⟩), write_length prefixOver]
      rfl

theorem write_string_eq (ordered : self.pos ≤ self.len) (str : Bytes) :
    self.write_string str =
      if self.checkOverwrite 2 then { packet := self, thrown := some .packetOverwrite }
      else if PACKET_SIZE < max self.len (self.pos + 2) + str.length % 0x10000 then
        { packet := self.put (lengthBytes str), thrown := some .packetOverwrite }
      else
        { packet := (self.put (lengthBytes str)).put (str.take (str.length % 0x10000)) } := by
  rw [write_string]
  by_cases prefixOver : self.checkOverwrite 2 = true
  · rw [if_pos prefixOver, if_pos prefixOver]
  · rw [if_neg prefixOver, if_neg prefixOver]
    dsimp only
    rw [write_length prefixOver]
    rw [checkOverwrite_eq_true] at prefixOver
    have limit : PACKET_SIZE < 0x10000 := by decide
    have small : self.pos + (lengthBytes str).length < 0x10000 := by
      rw [lengthBytes, ofInt_length]
      omega
    obtain ⟨-, len⟩ := put_positions small
    rw [lengthBytes, ofInt_length, ← lengthBytes] at len
    have sameCheck : (self.put (lengthBytes str)).checkOverwrite (str.length % 0x10000) = true ↔
        PACKET_SIZE < max self.len (self.pos + 2) + str.length % 0x10000 := by
      rw [checkOverwrite_eq_true, len]
    dsimp only
    rw [if_neg (by simp)]
    exact if_congr sameCheck rfl rfl

end OPacket

/-! ### IPacket -/

/-- The bytes of `_buf` up to `_len`, and `_pos`. -/
structure IPacket where
  received : Bytes
  pos : Nat
deriving DecidableEq

namespace IPacket

/-- The constructor, and `reset`. -/
def reset : IPacket where
  received := []
  pos := kHdrLen

/-- `hdr.pktLen`; `reset` has cleared the bytes that are still missing. -/
def pktLen (self : IPacket) : Nat := ofLittleEndian ((self.received.drop 4).take 2)

def getMsgId (self : IPacket) : Nat := ofLittleEndian ((self.received.drop 6).take 2)

/-- How much of a buffer of this length goes into the header. -/
def headerPart (self : IPacket) (len : Nat) : Nat :=
  if self.received.length < kHdrLen then min len (kHdrLen - self.received.length) else 0

/-- `append`, of a buffer of the given length: what it leaves, and how much it
copied. -/
def append (self : IPacket) (buf : Bytes) : Except ExceptBase (IPacket × Nat) :=
  let ncopy := self.headerPart buf.length
  let head : IPacket := { self with received := self.received ++ buf.take ncopy }
  if ncopy < buf.length then
    let ndata := min (buf.length - ncopy) head.pktLen
    if PACKET_SIZE < ndata + head.received.length then .error .badPacket
    else
      .ok ({ head with received := head.received ++ (buf.drop ncopy).take ndata },
        ncopy + ndata)
  else .ok (head, ncopy)

def is_complete (self : IPacket) : Bool := self.pktLen + kHdrLen = self.received.length

def getDataSize (self : IPacket) : Nat :=
  if kHdrLen < self.received.length then self.received.length - kHdrLen else 0

/-- `checkOverread` throws. -/
def checkOverread (self : IPacket) (rsize : Nat) : Bool := self.received.length < self.pos + rsize

/-- The read of `operator >>` at the position: the bytes, and the packet behind
them. -/
def get (self : IPacket) (size : Nat) : Bytes × IPacket :=
  ((self.received.drop self.pos).take size, { self with pos := self.pos + size })

/-- `operator >>` of an integer type, with the limit of its assertion. -/
def limitedInt (limit : Nat) (type : IntType) (self : IPacket) :
    Except ExceptBase (Int × IPacket) :=
  if self.checkOverread type.size then .error .packetOverread
  else
    let (bytes, after) := self.get type.size
    if after.pos < limit then .ok (type.ofBytes bytes, after) else .error .assertion

def read_int8 : IPacket → Except ExceptBase (Int × IPacket) := limitedInt PACKET_SIZE .int8
def read_uint8 : IPacket → Except ExceptBase (Int × IPacket) :=
  limitedInt (PACKET_SIZE - kHdrLen) .uint8
def read_int16 : IPacket → Except ExceptBase (Int × IPacket) :=
  limitedInt (PACKET_SIZE - kHdrLen) .int16
def read_uint16 : IPacket → Except ExceptBase (Int × IPacket) :=
  limitedInt (PACKET_SIZE - kHdrLen) .uint16
def read_int32 : IPacket → Except ExceptBase (Int × IPacket) :=
  limitedInt (PACKET_SIZE - kHdrLen) .int32
def read_uint32 : IPacket → Except ExceptBase (Int × IPacket) :=
  limitedInt (PACKET_SIZE - kHdrLen) .uint32
def read_int64 : IPacket → Except ExceptBase (Int × IPacket) :=
  limitedInt (PACKET_SIZE - kHdrLen) .int64
def read_uint64 : IPacket → Except ExceptBase (Int × IPacket) :=
  limitedInt (PACKET_SIZE - kHdrLen) .uint64

/-- The overload of `operator >>` for an integer type. -/
def read_int : IntType → IPacket → Except ExceptBase (Int × IPacket)
  | .int8 => read_int8
  | .uint8 => read_uint8
  | .int16 => read_int16
  | .uint16 => read_uint16
  | .int32 => read_int32
  | .uint32 => read_uint32
  | .int64 => read_int64
  | .uint64 => read_uint64

/-- `operator >> (std::string&)`. -/
def read_string (self : IPacket) : Except ExceptBase (Bytes × IPacket) :=
  if self.checkOverread 2 then .error .packetOverread
  else
    match self.read_uint16 with
    | .error error => .error error
    | .ok (len, self) =>
        if self.checkOverread len.toNat then .error .packetOverread
        else
          let (str, after) := self.get len.toNat
          if after.pos < PACKET_SIZE then .ok (str, after) else .error .assertion

/-- `setData`; the header stays. -/
def setData (self : IPacket) (data : Bytes) : Except ExceptBase IPacket :=
  if PACKET_SIZE < data.length then .error .assertion
  else .ok { received := self.received.take kHdrLen ++ data, pos := kHdrLen }

end IPacket

end StdPrograms.Release

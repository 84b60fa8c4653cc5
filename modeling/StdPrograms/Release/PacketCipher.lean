import StdPrograms.Release.PacketBounds
import StdPrograms.Release.Framing
import StdPrograms.Release.Tea

/-!
Contract: `OPacket::encode` and `IPacket::decode`.

Owns the two functions and the exact data sizes for which a packet that was
encoded and wound comes back with its data. The cipher pads the data to whole
groups and puts a length of two bytes in front; `encode` gives it a buffer of the
packet's size, but what it returns is copied behind the header.

Does not own the session that chooses the key.
-/

namespace StdPrograms.Release

open StdPrograms.Foundation

/-- A copy of the data, enciphered, behind the header. -/
def OPacket.encode (self : OPacket) (encrypt_key : Key) : OPacket.Outcome :=
  if self.getFlag &&& PACKET_FLAG_ENCRYPT ≠ 0 then { packet := self }
  else if self.getDataSize = 0 then
    { packet := self.setFlag (self.getFlag ||| PACKET_FLAG_ENCRYPT) }
  else
    let output := Tea.encode encrypt_key self.getData PACKET_SIZE
    if output.returned = 0 then { packet := self, thrown := some .assertion }
    else
      let copied := self.setData (output.outdata.take (output.returned % 0x10000))
      if copied.thrown.isSome then copied
      else { packet := copied.packet.setFlag (copied.packet.getFlag ||| PACKET_FLAG_ENCRYPT) }

namespace IPacket

/-- The bytes that `getData` and `getDataSize` denote. -/
def getData (self : IPacket) : Bytes := self.received.drop kHdrLen

/-- The local buffer holds what the stack held, where nothing was written to it. -/
def decode (stack : Nat → UInt8) (self : IPacket) (decrypt_key : Key) :
    Except ExceptBase IPacket :=
  if self.getDataSize = 0 then .ok self
  else
    let output := Tea.decode decrypt_key self.getData PACKET_SIZE
    if output.returned = 0 then .error .assertion
    else
      let buf := Memory.store { cells := stack } 0 output.outdata
      self.setData (buf.load 0 (output.returned % 0x10000))

theorem getData_length (self : IPacket) : self.getData.length = self.getDataSize := by
  rw [getData, getDataSize, List.length_drop]
  split <;> omega

end IPacket

/-! ### Packets built with `operator <<` -/

/-- A new packet with a message identifier, after writes that threw nothing. -/
inductive OPacket.Streamed : OPacket → Prop
  | new (memory : Nat → UInt8) : Streamed (OPacket.new memory)
  | setMsgId {packet : OPacket} (mid : Nat) : Streamed packet → Streamed (packet.setMsgId mid)
  | int {packet : OPacket} (type : IntType) (data : Int) : Streamed packet →
      (OPacket.write_int type packet data).thrown = none →
      Streamed (OPacket.write_int type packet data).packet
  | cstr {packet : OPacket} (str : Bytes) : Streamed packet →
      (packet.write_cstr str).thrown = none → Streamed (packet.write_cstr str).packet
  | string {packet : OPacket} (str : Bytes) : Streamed packet →
      (packet.write_string str).thrown = none → Streamed (packet.write_string str).packet

/-- The packet comes back: encoding and winding stay in the buffer, and a packet
that receives the bytes decodes to the data. -/
def Transparent (key : Key) (packet : OPacket) : Prop :=
  (packet.encode key).thrown = none ∧
    (packet.encode key).packet.wind.buf.WrittenBelow PACKET_SIZE ∧
    ∀ stack, ∃ received copied after,
      IPacket.reset.append (packet.encode key).packet.wind.getBuf = .ok (received, copied) ∧
      received.decode stack key = .ok after ∧
      after.getData = packet.getData ∧ after.getDataSize = packet.getDataSize ∧
      after.pos = kHdrLen

namespace OPacket

variable {self : OPacket}

theorem getData_length (self : OPacket) : self.getData.length = self.getDataSize :=
  Memory.load_length _ _ _

theorem getDataSize_eq (whole : kHdrLen ≤ self.len) : self.getDataSize = self.len - kHdrLen := by
  unfold getDataSize
  split <;> omega

/-- The data stands behind the header. -/
theorem getBuf_drop (self : OPacket) : self.getBuf.drop kHdrLen = self.getData := by
  rw [getBuf, getData, getDataSize]
  split
  next more =>
    have total : self.len = kHdrLen + (self.len - kHdrLen) := by omega
    rw [total, Memory.load_add, List.drop_left' (Memory.load_length _ _ _), ← total, Nat.zero_add]
  next none =>
    apply List.drop_eq_nil_of_le
    rw [Memory.load_length]
    omega

theorem wind_getData (self : OPacket) : self.wind.getData = self.getData := by
  apply Memory.load_store_after
  rw [toLittleEndian_length]
  decide

theorem setFlag_getData (self : OPacket) (flag : Nat) :
    (self.setFlag flag).getData = self.getData := by
  apply Memory.load_store_after
  rw [toLittleEndian_length]
  decide

/-- What a packet is as long as only `operator <<` writes to it. -/
structure Plain (packet : OPacket) : Prop where
  inBuffer : InBuffer packet
  atEnd : packet.pos = packet.len
  unflagged : packet.getFlag = 0
  written : packet.buf.WrittenBelow PACKET_SIZE

/-- A write at the end that leaves the length below the packet's size. -/
theorem Plain.put (plain : Plain self) {bytes : Bytes} (small : self.pos + bytes.length < 0x10000)
    (bounded : (self.put bytes).len ≤ PACKET_SIZE) : Plain (self.put bytes) := by
  obtain ⟨⟨whole, ordered, -⟩, atEnd, unflagged, written⟩ := plain
  obtain ⟨pos, len⟩ := put_positions small
  have kept : (self.put bytes).buf.load 2 2 = self.buf.load 2 2 := by
    apply Memory.load_store_before
    have : 12 ≤ self.len := whole
    omega
  constructor
  · exact ⟨by omega, by omega, bounded⟩
  · omega
  · rw [getFlag, kept]
    exact unflagged
  · apply (Memory.writtenBelow_store written _ _).mpr
    right
    omega

/-- A length and a text behind it. -/
theorem Plain.putText (plain : Plain self) {length text : Bytes} (two : length.length = 2)
    (small : self.pos + 2 + text.length < 0x10000)
    (bounded : ((self.put length).put text).len ≤ PACKET_SIZE) :
    Plain ((self.put length).put text) := by
  obtain ⟨pos, len⟩ := put_positions (by omega : self.pos + length.length < 0x10000)
  obtain ⟨-, total⟩ := put_positions (by omega : (self.put length).pos + text.length < 0x10000)
  have prefixed : Plain (self.put length) := plain.put (by omega) (by omega)
  exact prefixed.put (by omega) bounded

theorem len_put (self : OPacket) (bytes : Bytes) : self.len ≤ (self.put bytes).len := by
  simp only [OPacket.put, adjust]
  split <;> omega

theorem write_int_returned {type : IntType} {data : Int}
    (returned : (write_int type self data).thrown = none) :
    (write_int type self data).packet = self.put (ofInt type.size data) := by
  have checked (type : IntType) (returned : (checkedInt type self data).thrown = none) :
      (checkedInt type self data).packet = self.put (ofInt type.size data) := by
    unfold checkedInt at *
    split at returned
    next => contradiction
    next fits => rw [if_neg fits]
  cases type with
  | int64 => rfl
  | int8 => exact checked .int8 returned
  | uint8 => exact checked .uint8 returned
  | int16 => exact checked .int16 returned
  | uint16 => exact checked .uint16 returned
  | int32 => exact checked .int32 returned
  | uint32 => exact checked .uint32 returned
  | uint64 => exact checked .uint64 returned

theorem write_cstr_returned {str : Bytes} (returned : (self.write_cstr str).thrown = none) :
    (self.write_cstr str).packet =
        (self.put (lengthBytes str)).put (str.take (str.length % 0x10000)) ∧
      self.len + str.length % 0x10000 ≤ PACKET_SIZE := by
  rw [write_cstr_eq] at *
  split at returned
  next => contradiction
  next fits =>
    rw [if_neg fits]
    simp only [not_or, checkOverwrite_eq_true, not_lt] at fits
    exact ⟨rfl, fits.2⟩

theorem write_string_returned {str : Bytes} (ordered : self.pos ≤ self.len)
    (returned : (self.write_string str).thrown = none) :
    (self.write_string str).packet =
        (self.put (lengthBytes str)).put (str.take (str.length % 0x10000)) ∧
      self.len + str.length % 0x10000 ≤ PACKET_SIZE := by
  rw [write_string_eq ordered] at *
  split at returned
  next => contradiction
  next prefixFits =>
    rw [if_neg prefixFits]
    split at returned
    next => contradiction
    next fits =>
      rw [if_neg fits]
      exact ⟨rfl, by omega⟩

/-- A write that returned a text is no shorter than the packet before it. -/
theorem len_write_string {str : Bytes} : self.len ≤ (self.write_string str).packet.len := by
  have prefixed : self.len ≤ (self.write_uint16 (str.length % 0x10000 : Nat)).packet.len := by
    unfold write_uint16 checkedInt
    split
    · exact le_rfl
    · exact self.len_put _
  unfold write_string
  split
  · exact le_rfl
  · dsimp only
    split
    · exact prefixed
    · split
      · exact prefixed
      · exact prefixed.trans (len_put _ _)

/-- A packet that `operator <<` built and that is no longer than the buffer. -/
theorem Streamed.plain (streamed : Streamed self) (bounded : self.len ≤ PACKET_SIZE) :
    Plain self := by
  have limit : PACKET_SIZE + 10 < 0x10000 := by decide
  induction streamed with
  | new memory =>
      constructor
      · exact (Built.new memory).inBuffer
      · rfl
      · rfl
      · exact (new_invariant memory).written
  | @setMsgId packet mid streamed inductionHypothesis =>
      have plain := inductionHypothesis bounded
      have kept : (packet.buf.store 6 (toLittleEndian 2 mid)).load 2 2 = packet.buf.load 2 2 :=
        packet.buf.load_store_before _ (by decide)
      constructor
      · exact ⟨plain.inBuffer.whole, plain.inBuffer.ordered, plain.inBuffer.bounded⟩
      · exact plain.atEnd
      · rw [getFlag, OPacket.setMsgId, kept]
        exact plain.unflagged
      · apply (Memory.writtenBelow_store plain.written _ _).mpr
        right
        rw [toLittleEndian_length]
        decide
  | @int packet type data streamed returned inductionHypothesis =>
      rw [write_int_returned returned] at bounded ⊢
      have plain := inductionHypothesis ((packet.len_put _).trans bounded)
      have width : type.size ≤ 8 := by cases type <;> decide
      have below := plain.inBuffer.bounded
      have ordered := plain.inBuffer.ordered
      apply plain.put _ bounded
      rw [ofInt_length]
      omega
  | @cstr packet str streamed returned inductionHypothesis =>
      obtain ⟨isPut, fits⟩ := write_cstr_returned returned
      rw [isPut] at bounded ⊢
      have plain := inductionHypothesis (by omega)
      have ordered := plain.inBuffer.ordered
      apply plain.putText (ofInt_length _ _) _ bounded
      rw [List.length_take]
      omega
  | @string packet str streamed returned inductionHypothesis =>
      have plain := inductionHypothesis (len_write_string.trans bounded)
      have ordered := plain.inBuffer.ordered
      obtain ⟨isPut, fits⟩ := write_string_returned ordered returned
      rw [isPut] at bounded ⊢
      apply plain.putText (ofInt_length _ _) _ bounded
      rw [List.length_take]
      omega

/-! ### Encoding -/

/-- How long the enciphered data is. -/
def cipherLength (size : Nat) : Nat := Tea.groupsFor size * CRYPTO_GROUP_SIZE + 2

theorem cipherLength_bounds (size : Nat) :
    size + 2 ≤ cipherLength size ∧ cipherLength size < size + 10 := by
  obtain ⟨enough, close⟩ := Tea.groupsFor_bounds size
  rw [show CRYPTO_GROUP_SIZE = 8 from rfl] at *
  rw [cipherLength, show CRYPTO_GROUP_SIZE = 8 from rfl]
  omega

/-- The exact sizes whose enciphered data fits behind the header. -/
theorem cipherLength_fits (size : Nat) :
    kHdrLen + cipherLength size ≤ PACKET_SIZE ↔ size ≤ PACKET_SIZE - 16 := by
  rw [cipherLength, Tea.groupsFor, show CRYPTO_GROUP_SIZE = 8 from rfl,
    show PACKET_SIZE = 32768 from rfl, show kHdrLen = 12 from rfl]
  omega

theorem setData_returned {data : Bytes} (small : data.length ≤ PACKET_SIZE) :
    self.setData data = { packet := {
      buf := self.buf.store kHdrLen data
      pos := kHdrLen + data.length
      len := kHdrLen + data.length } } := by
  have limit : kHdrLen + PACKET_SIZE < 0x10000 := by decide
  rw [setData, if_neg (by omega), Nat.mod_eq_of_lt (by omega)]

/-- The enciphered data. -/
def cipherData (key : Key) (self : OPacket) : Bytes :=
  (Tea.encode key self.getData PACKET_SIZE).outdata

theorem tea_returned (key : Key) (small : self.getDataSize ≤ PACKET_SIZE - kHdrLen) :
    (Tea.encode key self.getData PACKET_SIZE).returned = cipherLength self.getDataSize ∧
      (cipherData key self).length = cipherLength self.getDataSize := by
  obtain ⟨more, close⟩ := cipherLength_bounds self.getDataSize
  have room : kHdrLen = 12 := rfl
  have limit : PACKET_SIZE = 32768 := rfl
  have returned : (Tea.encode key self.getData PACKET_SIZE).returned =
      cipherLength self.getDataSize := by
    rw [Tea.encode_fits, getData_length]
    · rfl
    · rw [getData_length]
      change cipherLength self.getDataSize ≤ PACKET_SIZE
      omega
  exact ⟨returned, by rw [cipherData, Tea.encode_length, returned]⟩

/-- What `encode` leaves of a packet with data and without flags. -/
theorem encode_plain (key : Key) (unflagged : self.getFlag = 0) (some : self.getDataSize ≠ 0)
    (small : self.getDataSize ≤ PACKET_SIZE - kHdrLen) :
    ∃ flag, self.encode key =
      { packet := (self.setData (cipherData key self)).packet.setFlag flag } := by
  obtain ⟨more, close⟩ := cipherLength_bounds self.getDataSize
  obtain ⟨returned, length⟩ := tea_returned key small
  have room : kHdrLen = 12 := rfl
  have limit : PACKET_SIZE = 32768 := rfl
  have unencrypted : ¬ self.getFlag &&& PACKET_FLAG_ENCRYPT ≠ 0 := by
    rw [unflagged]
    decide
  have copied : (self.setData (cipherData key self)).thrown = none := by
    rw [setData_returned (by omega)]
  rw [encode, if_neg unencrypted, if_neg some]
  dsimp only
  rw [returned, if_neg (by omega), Nat.mod_eq_of_lt (by omega), ← cipherData,
    List.take_of_length_le (Nat.le_of_eq length), copied]
  exact ⟨_, rfl⟩

theorem setData_getData {data : Bytes} (small : data.length ≤ PACKET_SIZE) :
    (self.setData data).packet.getData = data := by
  have size : (self.setData data).packet.getDataSize = data.length := by
    rw [setData_returned small]
    unfold getDataSize
    dsimp only
    split <;> omega
  rw [getData, size, setData_returned small]
  exact Memory.load_store_same _ _ _

/-- Replaced data stays in the buffer exactly when it fits behind the header. -/
theorem replaced_written {data : Bytes} (written : self.buf.WrittenBelow PACKET_SIZE) (flag : Nat)
    (some : data ≠ []) (small : data.length ≤ PACKET_SIZE) :
    ((self.setData data).packet.setFlag flag).wind.buf.WrittenBelow PACKET_SIZE ↔
      kHdrLen + data.length ≤ PACKET_SIZE := by
  rw [setData_returned small]
  constructor
  · intro after
    have flagged := Memory.writtenBelow_of_store after
    have copied := Memory.writtenBelow_of_store flagged
    exact (Memory.fits_of_writtenBelow_store copied).resolve_left some
  · intro fits
    have copied := (Memory.writtenBelow_store written kHdrLen data).mpr (.inr fits)
    have flagged := (Memory.writtenBelow_store copied 2 (toLittleEndian 2 flag)).mpr (.inr (by
      rw [toLittleEndian_length]
      decide))
    apply (Memory.writtenBelow_store flagged 4 _).mpr
    right
    rw [toLittleEndian_length]
    decide

/-- What is received of a wound packet is its data. -/
theorem received_wound (inBuffer : InBuffer self) :
    IPacket.reset.append self.wind.getBuf =
        .ok ({ received := self.wind.getBuf, pos := kHdrLen }, self.wind.getBuf.length) ∧
      IPacket.getData { received := self.wind.getBuf, pos := kHdrLen } = self.getData := by
  constructor
  · exact IPacket.append_whole (self.wind_framed inBuffer.whole inBuffer.bounded)
  · rw [IPacket.getData, getBuf_drop, wind_getData]

end OPacket

/-- Enciphered data is decoded to the data, behind the same header. -/
theorem IPacket.decode_cipher {key : Key} {received : IPacket} {data : Bytes}
    (stack : Nat → UInt8) (some : data ≠ []) (small : data.length ≤ PACKET_SIZE - kHdrLen)
    (holds : received.getData = (Tea.encode key data PACKET_SIZE).outdata) :
    received.decode stack key =
      .ok { received := received.received.take kHdrLen ++ data, pos := kHdrLen } := by
  have room : kHdrLen = 12 := rfl
  have limit : PACKET_SIZE = 32768 := rfl
  have positive := List.length_pos_iff.mpr some
  obtain ⟨more, close⟩ := OPacket.cipherLength_bounds data.length
  have fits : Tea.groupsFor data.length * 8 + 2 ≤ PACKET_SIZE := by
    change OPacket.cipherLength data.length ≤ PACKET_SIZE
    omega
  have length : received.getDataSize = Tea.groupsFor data.length * 8 + 2 := by
    rw [← getData_length, holds, Tea.encode_length, Tea.encode_fits fits]
    rfl
  have decoded := Tea.decode_encode key (by omega) fits (by omega : data.length ≤ PACKET_SIZE)
  rw [IPacket.decode, if_neg (by omega), holds]
  dsimp only
  rw [decoded]
  dsimp only
  rw [if_neg (by omega), Nat.mod_eq_of_lt (by omega), Memory.load_store_front,
    IPacket.setData, if_neg (by omega)]

namespace OPacket

/-- A packet without data comes back as it is. -/
theorem empty_transparent {self : OPacket} {key : Key} (plain : Plain self)
    (none : self.getDataSize = 0) : Transparent key self := by
  have unencrypted : ¬ self.getFlag &&& PACKET_FLAG_ENCRYPT ≠ 0 := by
    rw [plain.unflagged]
    decide
  have flagged : self.encode key =
      { packet := self.setFlag (self.getFlag ||| PACKET_FLAG_ENCRYPT) } := by
    rw [encode, if_neg unencrypted, if_pos none]
  generalize self.getFlag ||| PACKET_FLAG_ENCRYPT = flag at flagged
  have inBuffer : InBuffer (self.setFlag flag) :=
    ⟨plain.inBuffer.whole, plain.inBuffer.ordered, plain.inBuffer.bounded⟩
  obtain ⟨appended, data⟩ := received_wound inBuffer
  rw [setFlag_getData] at data
  have size := IPacket.getData_length ⟨(self.setFlag flag).wind.getBuf, kHdrLen⟩
  rw [data, getData_length] at size
  refine ⟨by rw [flagged], ?_, fun stack => ?_⟩
  · rw [flagged]
    have written := (Memory.writtenBelow_store plain.written 2 (toLittleEndian 2 flag)).mpr
      (.inr (by
        rw [toLittleEndian_length]
        decide))
    apply (Memory.writtenBelow_store written 4 _).mpr
    right
    rw [toLittleEndian_length]
    decide
  · rw [flagged]
    refine ⟨_, _, _, appended, ?_, data, size.symm, rfl⟩
    rw [IPacket.decode, if_pos]
    rw [← size, none]

/-- Enciphered data that stays in the buffer fits behind the header. -/
theorem size_of_transparent {self : OPacket} {key : Key} (plain : Plain self)
    (transparent : Transparent key self) : self.getDataSize ≤ PACKET_SIZE - 16 := by
  have room : kHdrLen = 12 := rfl
  have limit : PACKET_SIZE = 32768 := rfl
  have small : self.getDataSize ≤ PACKET_SIZE - kHdrLen := by
    have bounded := plain.inBuffer.bounded
    have whole := plain.inBuffer.whole
    rw [getDataSize_eq whole]
    omega
  by_cases none : self.getDataSize = 0
  · omega
  · obtain ⟨more, close⟩ := cipherLength_bounds self.getDataSize
    obtain ⟨-, length⟩ := tea_returned key small
    obtain ⟨flag, encoded⟩ := encode_plain key plain.unflagged none small
    have some : cipherData key self ≠ [] := by
      apply List.ne_nil_of_length_pos
      omega
    have stays := transparent.2.1
    rw [encoded] at stays
    apply (cipherLength_fits _).mp
    rw [← length]
    exact (replaced_written plain.written flag some (by omega)).mp stays

/-- Data that leaves room for the length and the padding comes back. -/
theorem transparent_of_size {self : OPacket} (key : Key) (plain : Plain self)
    (fits : self.getDataSize ≤ PACKET_SIZE - 16) : Transparent key self := by
  have room : kHdrLen = 12 := rfl
  have limit : PACKET_SIZE = 32768 := rfl
  by_cases none : self.getDataSize = 0
  · exact empty_transparent plain none
  · have small : self.getDataSize ≤ PACKET_SIZE - kHdrLen := by omega
    obtain ⟨more, close⟩ := cipherLength_bounds self.getDataSize
    obtain ⟨-, length⟩ := tea_returned key small
    obtain ⟨flag, encoded⟩ := encode_plain key plain.unflagged none small
    have total := (cipherLength_fits self.getDataSize).mpr fits
    have some : cipherData key self ≠ [] := by
      apply List.ne_nil_of_length_pos
      omega
    have inBuffer : InBuffer ((self.setData (cipherData key self)).packet.setFlag flag) := by
      rw [setData_returned (by omega)]
      constructor
      · exact Nat.le_add_right _ _
      · exact le_rfl
      · change kHdrLen + (cipherData key self).length ≤ PACKET_SIZE
        omega
    obtain ⟨appended, data⟩ := received_wound inBuffer
    rw [setFlag_getData, setData_getData (by omega)] at data
    have someData : self.getData ≠ [] := by
      apply List.ne_nil_of_length_pos
      rw [getData_length]
      omega
    have header : (((self.setData (cipherData key self)).packet.setFlag
        flag).wind.getBuf.take kHdrLen).length = kHdrLen := by
      rw [List.length_take, getBuf_length]
      exact Nat.min_eq_left inBuffer.whole
    have restored (front : Bytes) (whole : front.length = kHdrLen) :
        IPacket.getData ⟨front ++ self.getData, kHdrLen⟩ = self.getData :=
      List.drop_left' whole
    rw [Transparent, encoded]
    refine ⟨rfl, ?_, fun stack => ?_⟩
    · apply (replaced_written plain.written flag some (by omega)).mpr
      omega
    · have decoded := IPacket.decode_cipher stack someData (by rwa [getData_length]) data
      refine ⟨_, _, _, appended, decoded, restored _ header, ?_, rfl⟩
      rw [← IPacket.getData_length, restored _ header, getData_length]

/-- A packet built with `operator <<` comes back exactly when its data leaves room
for the length and the padding. -/
theorem transparent_iff {self : OPacket} (key : Key) (streamed : Streamed self)
    (small : self.getDataSize ≤ PACKET_SIZE - kHdrLen) :
    Transparent key self ↔ self.getDataSize ≤ PACKET_SIZE - 16 := by
  have bounded : self.len ≤ PACKET_SIZE := by
    have room : kHdrLen ≤ PACKET_SIZE := by decide
    unfold getDataSize at small
    split at small <;> omega
  have plain := streamed.plain bounded
  constructor
  · exact size_of_transparent plain
  · exact transparent_of_size key plain

/-- A byte of data. -/
theorem byte_transparent_iff :
    let key : Key := { a := 1, b := 2, c := 3, d := 4 }
    let packet := ((new fun _ => 0).write_uint8 7).packet
    Transparent key packet ↔ packet.getDataSize ≤ PACKET_SIZE - 16 :=
  transparent_iff _ (.int .uint8 7 (.new _) rfl) (by decide)

/-- A text of 32751 bytes and its length are 32753 bytes of data: `encode` writes
six bytes behind the buffer. -/
theorem long_text_not_transparent :
    let outcome := (new fun _ => 0).write_string (List.replicate 32751 0x61)
    outcome.thrown = none ∧ outcome.packet.getDataSize ≤ PACKET_SIZE - kHdrLen ∧
      ¬ Transparent { a := 1, b := 2, c := 3, d := 4 } outcome.packet := by
  have length : (List.replicate 32751 (0x61 : UInt8)).length = 32751 := List.length_replicate
  generalize List.replicate 32751 (0x61 : UInt8) = str at length
  have kept : str.take (str.length % 0x10000) = str := by
    rw [length]
    exact List.take_of_length_le (Nat.le_of_eq length)
  have written : (new fun _ => 0).write_string str =
      { packet := ((new fun _ => 0).put (lengthBytes str)).put str } := by
    rw [write_string_eq le_rfl, kept, length, if_neg (by decide), if_neg (by decide)]
  have start : (new fun _ => 0).pos = 12 ∧ (new fun _ => 0).len = 12 := ⟨rfl, rfl⟩
  have two : (lengthBytes str).length = 2 := ofInt_length _ _
  obtain ⟨prefixPos, prefixLen⟩ :=
    put_positions (by omega : (new fun _ => 0).pos + (lengthBytes str).length < 0x10000)
  obtain ⟨-, len⟩ := put_positions
    (by omega : ((new fun _ => 0).put (lengthBytes str)).pos + str.length < 0x10000)
  have size : (((new fun _ => 0).put (lengthBytes str)).put str).getDataSize = 32753 := by
    unfold getDataSize
    rw [len, prefixPos, prefixLen, start.1, start.2, two, length]
    decide
  have streamed : Streamed (((new fun _ => 0).put (lengthBytes str)).put str) := by
    have built := Streamed.string str (.new fun _ => 0) (by rw [written])
    rwa [written] at built
  have plain := streamed.plain (by
    rw [len, prefixPos, prefixLen, start.1, start.2, two, length]
    decide)
  intro outcome
  have isOutcome : outcome = { packet := ((new fun _ => 0).put (lengthBytes str)).put str } :=
    written
  rw [isOutcome]
  refine ⟨rfl, ?_, fun transparent => ?_⟩
  · dsimp only
    rw [size]
    decide
  · have fits := size_of_transparent plain transparent
    rw [size] at fits
    exact absurd fits (by decide)

end OPacket

end StdPrograms.Release

import StdPrograms.Release.Packet

/-!
Contract: where an `OPacket` writes, over any sequence of calls.

Owns the invariant of the positions and of the written indices, the calls that
keep it, and the run theorem: a run keeps the invariant, with an exception for
every call that does not fit, exactly when each of its calls meets a condition on
the packet before it. Every overload with a check in front of its write meets it;
`int64`, `const char*`, long texts and `setData` need it. Also which calls that throw
leave the packet as it was, and the packets whose writes stayed in the buffer, with
their positions.

Does not own the bytes that are written.
-/

namespace StdPrograms.Release

open StdPrograms.Foundation

namespace OPacket

/-! ### Calls -/

inductive Call where
  | int (type : IntType) (data : Int)
  | cstr (str : Bytes)
  | string (str : Bytes)
  | setData (data : Bytes) (inLimit : data.length ≤ PACKET_SIZE)
  | setPos (pos : Nat)

def step (self : OPacket) : Call → Outcome
  | .int type data => write_int type self data
  | .cstr str => self.write_cstr str
  | .string str => self.write_string str
  | .setData data _ => self.setData data
  | .setPos pos => { packet := self.setPos pos }

/-- All bytes of the call fit into the buffer, at the position where it writes. -/
def Fits (self : OPacket) : Call → Prop
  | .int type _ => self.pos + type.size ≤ PACKET_SIZE
  | .cstr str => self.pos + 2 + str.length ≤ PACKET_SIZE
  | .string str => self.pos + 2 + str.length ≤ PACKET_SIZE
  | .setData data _ => kHdrLen + data.length ≤ PACKET_SIZE
  | .setPos _ => True

/-- `setPos` has moved the position, and no `setData` has come since. -/
def seekedAfter (seeked : Bool) : Call → Bool
  | .setPos _ => true
  | .setData _ _ => false
  | _ => seeked

/-- The positions are in order and everything written lies in the buffer. -/
structure Invariant (seeked : Bool) (packet : OPacket) : Prop where
  behindHeader : seeked = false → kHdrLen ≤ packet.pos
  ordered : packet.pos ≤ packet.len
  bounded : packet.len ≤ PACKET_SIZE
  written : packet.buf.WrittenBelow PACKET_SIZE

/-- Every state of the run keeps the invariant, and every call that does not fit
throws. -/
def RunSound : Bool → OPacket → List Call → Prop
  | seeked, self, [] => Invariant seeked self
  | seeked, self, call :: rest =>
      Invariant seeked self ∧
      (¬ self.Fits call → (self.step call).thrown = some .packetOverwrite) ∧
      RunSound (seekedAfter seeked call) (self.step call).packet rest

/-- What a call needs where its own checks do not see to it. -/
def Heeds (self : OPacket) : Call → Prop
  | .int .int64 _ => self.pos + 8 ≤ PACKET_SIZE
  | .int _ _ => True
  | .cstr str =>
      self.checkOverwrite 2 ∨ self.checkOverwrite (str.length % 0x10000) ∨
        self.pos + 2 + str.length ≤ PACKET_SIZE
  | .string str =>
      self.checkOverwrite 2 ∨ PACKET_SIZE < max self.len (self.pos + 2) + str.length % 0x10000 ∨
        str.length < 0x10000
  | .setData data _ => kHdrLen + data.length ≤ PACKET_SIZE
  | .setPos _ => True

def RunHeeds : OPacket → List Call → Prop
  | _, [] => True
  | self, call :: rest => self.Heeds call ∧ RunHeeds (self.step call).packet rest

/-! ### One write -/

variable {self : OPacket} {seeked : Bool}

/-- A write keeps the invariant exactly when it fits. -/
theorem put_invariant (invariant : Invariant seeked self) (bytes : Bytes) :
    Invariant seeked (self.put bytes) ↔ self.pos + bytes.length ≤ PACKET_SIZE := by
  have ordered := invariant.ordered
  have bounded := invariant.bounded
  have stored := Memory.writtenBelow_store invariant.written self.pos bytes
  constructor
  · intro after
    rcases stored.mp after.written with rfl | fits
    · rw [List.length_nil]
      omega
    · exact fits
  · intro fits
    have limit : PACKET_SIZE < 0x10000 := by decide
    obtain ⟨pos, len⟩ := put_positions (Nat.lt_of_le_of_lt fits limit)
    refine ⟨fun unsought => ?_, ?_, ?_, stored.mpr (.inr fits)⟩
    · have := invariant.behindHeader unsought
      omega
    · omega
    · omega

/-- A text after its length, where the length fits: both writes keep the invariant
exactly when the text fits as well. -/
theorem put_text_invariant (invariant : Invariant seeked self) {length text : Bytes}
    (two : length.length = 2) (fits : self.pos + 2 ≤ PACKET_SIZE) :
    Invariant seeked ((self.put length).put text) ↔
      self.pos + 2 + text.length ≤ PACKET_SIZE := by
  have limit : PACKET_SIZE < 0x10000 := by decide
  have small : self.pos + length.length < 0x10000 := by omega
  have prefixed := (put_invariant invariant length).mpr (by omega)
  rw [put_invariant prefixed, (put_positions small).1, two]

/-! ### One call -/

/-- After the call the invariant holds, and the call threw if it does not fit. -/
def Sound (seeked : Bool) (self : OPacket) (call : Call) : Prop :=
  Invariant (seekedAfter seeked call) (self.step call).packet ∧
    (¬ self.Fits call → (self.step call).thrown = some .packetOverwrite)

theorem checkedInt_sound (invariant : Invariant seeked self) (type : IntType) (data : Int) :
    Invariant seeked (checkedInt type self data).packet ∧
      (¬ self.pos + type.size ≤ PACKET_SIZE →
        (checkedInt type self data).thrown = some .packetOverwrite) := by
  unfold checkedInt
  by_cases overflow : self.checkOverwrite type.size = true
  · rw [if_pos overflow]
    exact ⟨invariant, fun _ => rfl⟩
  · rw [if_neg overflow]
    rw [checkOverwrite_eq_true] at overflow
    have ordered := invariant.ordered
    have fits : self.pos + type.size ≤ PACKET_SIZE := by omega
    exact ⟨(put_invariant invariant _).mpr (by rwa [ofInt_length]), fun unfit => absurd fits unfit⟩

theorem write_int64_sound_iff (invariant : Invariant seeked self) (data : Int) :
    Sound seeked self (.int .int64 data) ↔ self.pos + 8 ≤ PACKET_SIZE := by
  have kept := put_invariant invariant (ofInt 8 data)
  rw [ofInt_length] at kept
  constructor
  · exact fun sound => kept.mp sound.1
  · exact fun fits => ⟨kept.mpr fits, fun unfit => absurd fits unfit⟩

/-- A text of which the code writes `text`: sound exactly when all of it fits. -/
theorem put_text_sound_iff (invariant : Invariant seeked self) (str : Bytes)
    (fits : self.pos + 2 ≤ PACKET_SIZE) :
    Invariant seeked ((self.put (lengthBytes str)).put (str.take (str.length % 0x10000))) ∧
        (¬ self.pos + 2 + str.length ≤ PACKET_SIZE →
          (none : Option ExceptBase) = some .packetOverwrite) ↔
      self.pos + 2 + str.length ≤ PACKET_SIZE := by
  have limit : PACKET_SIZE < 0x10000 := by decide
  rw [put_text_invariant invariant (by rw [lengthBytes, ofInt_length]) fits, List.length_take]
  constructor
  · intro sound
    by_contra unfit
    cases sound.2 unfit
  · intro whole
    exact ⟨by omega, fun unfit => absurd whole unfit⟩

theorem write_cstr_sound_iff (invariant : Invariant seeked self) (str : Bytes) :
    Sound seeked self (.cstr str) ↔ self.Heeds (.cstr str) := by
  have outcome : self.step (.cstr str) = self.write_cstr str := rfl
  rw [Sound, outcome, write_cstr_eq, Heeds, ← or_assoc]
  by_cases overflow : self.checkOverwrite 2 = true ∨ self.checkOverwrite (str.length % 0x10000) = true
  · rw [if_pos overflow]
    exact iff_of_true ⟨invariant, fun _ => rfl⟩ (.inl overflow)
  · rw [if_neg overflow, or_iff_right overflow]
    obtain ⟨prefixFits, -⟩ := not_or.mp overflow
    rw [checkOverwrite_eq_true] at prefixFits
    have ordered := invariant.ordered
    exact put_text_sound_iff invariant str (by omega)

theorem write_string_sound_iff (invariant : Invariant seeked self) (str : Bytes) :
    Sound seeked self (.string str) ↔ self.Heeds (.string str) := by
  have outcome : self.step (.string str) = self.write_string str := rfl
  have ordered := invariant.ordered
  rw [Sound, outcome, write_string_eq ordered, Heeds]
  by_cases prefixOver : self.checkOverwrite 2 = true
  · rw [if_pos prefixOver]
    exact iff_of_true ⟨invariant, fun _ => rfl⟩ (.inl prefixOver)
  · rw [if_neg prefixOver, or_iff_right prefixOver]
    rw [checkOverwrite_eq_true] at prefixOver
    have two : (lengthBytes str).length = 2 := by rw [lengthBytes, ofInt_length]
    by_cases textOver : PACKET_SIZE < max self.len (self.pos + 2) + str.length % 0x10000
    · rw [if_pos textOver]
      exact iff_of_true ⟨(put_invariant invariant _).mpr (by omega), fun _ => rfl⟩ (.inl textOver)
    · rw [if_neg textOver, or_iff_right textOver]
      have whole : self.pos + 2 + str.length ≤ PACKET_SIZE ↔ str.length < 0x10000 := by
        have limit : PACKET_SIZE < 0x10000 := by decide
        omega
      rw [← whole]
      exact put_text_sound_iff invariant str (by omega)

theorem setData_sound_iff (invariant : Invariant seeked self) (data : Bytes)
    (inLimit : data.length ≤ PACKET_SIZE) :
    Sound seeked self (.setData data inLimit) ↔ kHdrLen + data.length ≤ PACKET_SIZE := by
  have small : kHdrLen + data.length < 0x10000 := by
    have limit : kHdrLen + PACKET_SIZE < 0x10000 := by decide
    omega
  have outcome : self.step (.setData data inLimit) = { packet := {
      buf := self.buf.store kHdrLen data
      pos := kHdrLen + data.length
      len := kHdrLen + data.length } } := by
    show self.setData data = _
    rw [setData, if_neg (by omega), Nat.mod_eq_of_lt small]
  rw [Sound, outcome]
  constructor
  · exact fun sound => sound.1.bounded
  · intro fits
    refine ⟨⟨fun _ => ?_, le_rfl, fits, ?_⟩, fun unfit => absurd fits unfit⟩
    · exact Nat.le_add_right _ _
    · exact (Memory.writtenBelow_store invariant.written _ _).mpr (.inr fits)

theorem setPos_sound (invariant : Invariant seeked self) (pos : Nat) :
    Sound seeked self (.setPos pos) := by
  refine ⟨⟨nofun, ?_, invariant.bounded, invariant.written⟩, fun unfit => absurd trivial unfit⟩
  show (if self.len < pos then self.len else pos) ≤ self.len
  split <;> omega

/-- A call on a packet that keeps the invariant is sound exactly when it meets its
condition. -/
theorem sound_iff (invariant : Invariant seeked self) (call : Call) :
    Sound seeked self call ↔ self.Heeds call := by
  cases call with
  | int type data =>
      cases type with
      | int64 => exact write_int64_sound_iff invariant data
      | int8 => exact iff_of_true (checkedInt_sound invariant .int8 data) trivial
      | uint8 => exact iff_of_true (checkedInt_sound invariant .uint8 data) trivial
      | int16 => exact iff_of_true (checkedInt_sound invariant .int16 data) trivial
      | uint16 => exact iff_of_true (checkedInt_sound invariant .uint16 data) trivial
      | int32 => exact iff_of_true (checkedInt_sound invariant .int32 data) trivial
      | uint32 => exact iff_of_true (checkedInt_sound invariant .uint32 data) trivial
      | uint64 => exact iff_of_true (checkedInt_sound invariant .uint64 data) trivial
  | cstr str => exact write_cstr_sound_iff invariant str
  | string str => exact write_string_sound_iff invariant str
  | setData data inLimit => exact setData_sound_iff invariant data inLimit
  | setPos pos => exact iff_of_true (setPos_sound invariant pos) trivial

/-! ### Runs -/

theorem new_invariant (memory : Nat → UInt8) : Invariant false (new memory) := by
  refine ⟨fun _ => le_rfl, le_rfl, show kHdrLen ≤ PACKET_SIZE by decide, ?_⟩
  exact (Memory.writtenBelow_store (by simp [Memory.WrittenBelow]) _ _).mpr (.inr (by decide))

theorem runSound_iff (invariant : Invariant seeked self) (calls : List Call) :
    RunSound seeked self calls ↔ self.RunHeeds calls := by
  induction calls generalizing seeked self with
  | nil => exact iff_of_true invariant trivial
  | cons call rest inductionHypothesis =>
      rw [RunSound, RunHeeds, and_iff_right invariant, ← sound_iff invariant call]
      constructor
      · rintro ⟨thrown, later⟩
        have after : Invariant (seekedAfter seeked call) (self.step call).packet := by
          cases rest with
          | nil => exact later
          | cons next rest => exact later.1
        exact ⟨⟨after, thrown⟩, (inductionHypothesis after).mp later⟩
      · rintro ⟨⟨after, thrown⟩, later⟩
        exact ⟨thrown, (inductionHypothesis after).mpr later⟩

/-- From the constructor, every state keeps the invariant and every call that does
not fit throws, exactly when every call meets its condition. -/
theorem new_runSound_iff (memory : Nat → UInt8) (calls : List Call) :
    RunSound false (new memory) calls ↔ (new memory).RunHeeds calls :=
  runSound_iff (new_invariant memory) calls

/-- `setData` of one byte more than fits behind the header is not refused. -/
theorem setData_leaves_buffer :
    ¬ RunSound false (new fun _ => 0)
      [.setData (List.replicate 32757 0) (by rw [List.length_replicate]; decide)] := by
  rw [runSound_iff (new_invariant _)]
  rintro ⟨fits, -⟩
  rw [Heeds, List.length_replicate] at fits
  exact absurd fits (by decide)

/-! ### Calls that throw -/

/-- `_pos`, `_len` and the bytes up to `_len` are what they were. -/
structure Unchanged (before after : OPacket) : Prop where
  pos : after.pos = before.pos
  len : after.len = before.len
  bytes : after.getBuf = before.getBuf

/-- The call is not a `std::string` whose length would be written, with the text refused
behind it. -/
def RefusedAtOnce (self : OPacket) (call : Call) : Prop :=
  ∀ str, call = .string str → self.checkOverwrite 2 = true

theorem Unchanged.refl (self : OPacket) : Unchanged self self := ⟨rfl, rfl, rfl⟩

theorem not_unchanged_put {bytes : Bytes} (nonempty : 0 < bytes.length)
    (short : bytes.length < 0x10000) : ¬ Unchanged self (self.put bytes) := by
  intro unchanged
  have moved : (self.pos + bytes.length) % 0x10000 = self.pos := unchanged.pos
  omega

theorem checkedInt_refused {type : IntType} {data : Int}
    (refused : (checkedInt type self data).thrown = some .packetOverwrite) :
    (checkedInt type self data).packet = self := by
  unfold checkedInt at *
  split at refused
  next overflow => rw [if_pos overflow]
  next => cases refused

theorem write_int_refused {type : IntType} {data : Int}
    (refused : (write_int type self data).thrown = some .packetOverwrite) :
    (write_int type self data).packet = self := by
  cases type with
  | int64 => cases refused
  | int8 => exact checkedInt_refused refused
  | uint8 => exact checkedInt_refused refused
  | int16 => exact checkedInt_refused refused
  | uint16 => exact checkedInt_refused refused
  | int32 => exact checkedInt_refused refused
  | uint32 => exact checkedInt_refused refused
  | uint64 => exact checkedInt_refused refused

theorem write_cstr_refused {str : Bytes}
    (refused : (self.write_cstr str).thrown = some .packetOverwrite) :
    (self.write_cstr str).packet = self := by
  rw [write_cstr_eq] at *
  split at refused
  next overflow => rw [if_pos overflow]
  next => cases refused

/-- Past the first check, the length is in the packet by the time the second one throws. -/
theorem write_string_refused {str : Bytes} (prefixFits : ¬ self.checkOverwrite 2 = true)
    (refused : (self.write_string str).thrown = some .packetOverwrite) :
    (self.write_string str).packet = self.put (lengthBytes str) := by
  rw [write_string, if_neg prefixFits] at *
  dsimp only at *
  rw [write_length prefixFits] at *
  rw [if_neg (by simp)] at *
  split at refused
  next overflow => rw [if_pos overflow]
  next => cases refused

/-- A call that throws `PacketOverwrite` leaves the packet as it was, exactly when it is
not a `std::string` whose length still fits. -/
theorem refused_unchanged_iff (call : Call)
    (refused : (self.step call).thrown = some .packetOverwrite) :
    Unchanged self (self.step call).packet ↔ self.RefusedAtOnce call := by
  have unchanged (same : (self.step call).packet = self) :
      Unchanged self (self.step call).packet := by
    rw [same]
    exact .refl self
  cases call with
  | int type data => exact iff_of_true (unchanged (write_int_refused refused)) nofun
  | cstr str => exact iff_of_true (unchanged (write_cstr_refused refused)) nofun
  | setData data inLimit =>
      have assertion : (self.setData data).thrown = some .packetOverwrite := refused
      unfold OPacket.setData at assertion
      split at assertion <;> cases assertion
  | setPos pos => cases refused
  | string str =>
      by_cases prefixOver : self.checkOverwrite 2 = true
      · have same : (self.write_string str).packet = self := by
          rw [write_string, if_pos prefixOver]
        exact iff_of_true (unchanged same) fun _ _ => prefixOver
      · have written : (self.step (.string str)).packet = self.put (lengthBytes str) :=
          write_string_refused prefixOver refused
        rw [written]
        apply iff_of_false
        · exact not_unchanged_put (by rw [lengthBytes, ofInt_length]; decide)
            (by rw [lengthBytes, ofInt_length]; decide)
        · intro atOnce
          exact prefixOver (atOnce str rfl)

/-- A full packet refuses a byte at once. -/
theorem full_unchanged_iff :
    Unchanged { buf := { cells := fun _ => 0 }, pos := 32768, len := 32768 }
        (write_int8 { buf := { cells := fun _ => 0 }, pos := 32768, len := 32768 } 1).packet ↔
      RefusedAtOnce { buf := { cells := fun _ => 0 }, pos := 32768, len := 32768 }
        (.int .int8 1) :=
  refused_unchanged_iff (.int .int8 1) rfl

/-- A text of one byte more than there is room for leaves its length in a new packet. -/
theorem long_string_refused_changed :
    ((new fun _ => 0).write_string (List.replicate 32755 97)).thrown = some .packetOverwrite ∧
      ((new fun _ => 0).write_string (List.replicate 32755 97)).packet.len = 14 ∧
      ¬ Unchanged (new fun _ => 0)
        ((new fun _ => 0).write_string (List.replicate 32755 97)).packet := by
  have prefixFits : ¬ (new fun _ => 0).checkOverwrite 2 = true := by decide
  have refused : ((new fun _ => 0).write_string (List.replicate 32755 97)).thrown =
      some .packetOverwrite := by
    rw [write_string_eq le_rfl, if_neg prefixFits, if_pos]
    rw [List.length_replicate]
    decide
  have written := write_string_refused prefixFits refused
  refine ⟨refused, ?_, ?_⟩
  · rw [written]
    rfl
  · rw [written]
    exact not_unchanged_put (by rw [lengthBytes, ofInt_length]; decide)
      (by rw [lengthBytes, ofInt_length]; decide)

/-! ### Packets built by writes -/

/-- What the constructor, the writes and the header's setters make, as long as every
write stays in the buffer. A write outside of it is undefined. -/
inductive Built : OPacket → Prop
  | new (memory : Nat → UInt8) : Built (new memory)
  | setMsgId {packet : OPacket} (mid : Nat) : Built packet → Built (packet.setMsgId mid)
  | setFlag {packet : OPacket} (flag : Nat) : Built packet → Built (packet.setFlag flag)
  | call {packet : OPacket} (call : Call) : Built packet →
      (packet.step call).packet.buf.WrittenBelow PACKET_SIZE → Built (packet.step call).packet

/-- The positions of a built packet. -/
structure InBuffer (packet : OPacket) : Prop where
  whole : kHdrLen ≤ packet.len
  ordered : packet.pos ≤ packet.len
  bounded : packet.len ≤ PACKET_SIZE

/-- A write that stays in the buffer leaves the positions there. -/
theorem InBuffer.put (inBuffer : InBuffer self) {bytes : Bytes}
    (written : (self.put bytes).buf.WrittenBelow PACKET_SIZE) : InBuffer (self.put bytes) := by
  obtain ⟨whole, ordered, bounded⟩ := inBuffer
  have fits : self.pos + bytes.length ≤ PACKET_SIZE := by
    rcases Memory.fits_of_writtenBelow_store written with rfl | fits
    · rw [List.length_nil]
      omega
    · exact fits
  have limit : PACKET_SIZE < 0x10000 := by decide
  obtain ⟨pos, len⟩ := put_positions (Nat.lt_of_le_of_lt fits limit)
  exact ⟨by omega, by omega, by omega⟩

theorem InBuffer.putText (inBuffer : InBuffer self) {length text : Bytes}
    (written : ((self.put length).put text).buf.WrittenBelow PACKET_SIZE) :
    InBuffer ((self.put length).put text) :=
  (inBuffer.put (Memory.writtenBelow_of_store written)).put written

theorem InBuffer.checkedInt (inBuffer : InBuffer self) (type : IntType) (data : Int)
    (written : (checkedInt type self data).packet.buf.WrittenBelow PACKET_SIZE) :
    InBuffer (checkedInt type self data).packet := by
  unfold OPacket.checkedInt at *
  split
  next => exact inBuffer
  next fits =>
    rw [if_neg fits] at written
    exact inBuffer.put written

theorem InBuffer.write_int (inBuffer : InBuffer self) (type : IntType) (data : Int)
    (written : (write_int type self data).packet.buf.WrittenBelow PACKET_SIZE) :
    InBuffer (write_int type self data).packet := by
  cases type with
  | int64 => exact inBuffer.put written
  | int8 => exact inBuffer.checkedInt .int8 data written
  | uint8 => exact inBuffer.checkedInt .uint8 data written
  | int16 => exact inBuffer.checkedInt .int16 data written
  | uint16 => exact inBuffer.checkedInt .uint16 data written
  | int32 => exact inBuffer.checkedInt .int32 data written
  | uint32 => exact inBuffer.checkedInt .uint32 data written
  | uint64 => exact inBuffer.checkedInt .uint64 data written

theorem InBuffer.write_cstr (inBuffer : InBuffer self) (str : Bytes)
    (written : (self.write_cstr str).packet.buf.WrittenBelow PACKET_SIZE) :
    InBuffer (self.write_cstr str).packet := by
  rw [write_cstr_eq] at *
  split
  next => exact inBuffer
  next fits =>
    rw [if_neg fits] at written
    exact inBuffer.putText written

theorem InBuffer.write_string (inBuffer : InBuffer self) (str : Bytes)
    (written : (self.write_string str).packet.buf.WrittenBelow PACKET_SIZE) :
    InBuffer (self.write_string str).packet := by
  rw [write_string_eq inBuffer.ordered] at *
  split
  next => exact inBuffer
  next prefixFits =>
    rw [if_neg prefixFits] at written
    split
    next overflow =>
      rw [if_pos overflow] at written
      exact inBuffer.put written
    next fits =>
      rw [if_neg fits] at written
      exact inBuffer.putText written

theorem InBuffer.setData {data : Bytes} (inLimit : data.length ≤ PACKET_SIZE)
    (written : (self.setData data).packet.buf.WrittenBelow PACKET_SIZE) :
    InBuffer (self.setData data).packet := by
  have small : kHdrLen + data.length < 0x10000 := by
    have limit : kHdrLen + PACKET_SIZE < 0x10000 := by decide
    omega
  rw [OPacket.setData, if_neg (by omega), Nat.mod_eq_of_lt small] at *
  refine ⟨Nat.le_add_right _ _, le_rfl, ?_⟩
  rcases Memory.fits_of_writtenBelow_store written with rfl | fits
  · exact (by decide : kHdrLen + 0 ≤ PACKET_SIZE)
  · exact fits

theorem InBuffer.step (inBuffer : InBuffer self) (call : Call)
    (written : (self.step call).packet.buf.WrittenBelow PACKET_SIZE) :
    InBuffer (self.step call).packet := by
  cases call with
  | int type data => exact inBuffer.write_int type data written
  | cstr str => exact inBuffer.write_cstr str written
  | string str => exact inBuffer.write_string str written
  | setData data inLimit => exact InBuffer.setData inLimit written
  | setPos pos =>
      refine ⟨inBuffer.whole, ?_, inBuffer.bounded⟩
      show (if self.len < pos then self.len else pos) ≤ self.len
      split <;> omega

theorem Built.inBuffer (built : Built self) : InBuffer self := by
  induction built with
  | new memory => exact ⟨le_rfl, le_rfl, show kHdrLen ≤ PACKET_SIZE by decide⟩
  | setMsgId mid _ inductionHypothesis =>
      exact ⟨inductionHypothesis.whole, inductionHypothesis.ordered, inductionHypothesis.bounded⟩
  | setFlag flag _ inductionHypothesis =>
      exact ⟨inductionHypothesis.whole, inductionHypothesis.ordered, inductionHypothesis.bounded⟩
  | call call _ written inductionHypothesis => exact inductionHypothesis.step call written

end OPacket

end StdPrograms.Release

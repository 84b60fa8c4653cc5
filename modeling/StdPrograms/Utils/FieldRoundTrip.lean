import StdPrograms.Foundation.Transitions
import StdPrograms.Utils.BitStream

/-!
Contract: fields written to a bit stream and read again.

Owns one field anywhere in a stream, what it leaves as it was, and the round trip of any
fields written one behind the other. Positions are of type `int`, so a stream of 2^28
bytes or more cannot be written to its end.

Does not own the parts into which a field is cut.
-/

namespace StdPrograms.Utils

open StdPrograms.Foundation

namespace BitStream

variable {SIZE : Nat} {USE_LITTLE : Bool}

/-! ### One field -/

/-- Within `capacity()` no position overflows, in a buffer of any size. -/
theorem room_of_le_capacity {self : BitStream SIZE USE_LITTLE} {position : Nat}
    (inside : (position : Int) ≤ self.capacity) : position ≤ 8 * SIZE ∧ position < 2 ^ 31 := by
  have most : self.capacity ≤ (BitVec.ofNat 32 (SIZE * 8 % 2 ^ 64)).toNat := by
    rw [capacity, BitVec.toInt_eq_toNat_cond]
    split <;> omega
  have limit : self.capacity < 2 ^ 31 := BitVec.toInt_lt
  rw [BitVec.toNat_ofNat] at most
  omega

theorem seek_offset {self : BitStream SIZE USE_LITTLE} {position : Nat}
    (small : position < 2 ^ 31) : (self.seek position).offset_ = position :=
  toInt_ofNat_of_lt (by decide) small

/-- A field inside the capacity changes its own bits only, and is read again. -/
theorem overwrite_field (self : BitStream SIZE USE_LITTLE) (offset width : Nat) (n : BitVec 32)
    (narrow : width ≤ 30) (inside : ((offset + width : Nat) : Int) ≤ self.capacity) :
    ∃ after : BitStream SIZE USE_LITTLE,
      (self.seek offset).write n width = some after ∧
      (∀ index, ¬(offset ≤ index ∧ index < offset + width) →
        bitAt after.buffer_ index = bitAt self.buffer_ index) ∧
      after.nbits_ = max self.nbits_ (offset + width) ∧
      ∃ final, (after.seek offset).read width =
        some (((n.toNat % 2 ^ width : Nat) : Int), final) := by
  obtain ⟨room, small⟩ := room_of_le_capacity inside
  have here : offset < 2 ^ 31 := by omega
  obtain ⟨after, written, afterHere, afterBits, stored, kept⟩ :=
    @write_spec SIZE USE_LITTLE n width offset (self.seek offset) (seek_offset here) narrow
      room small
  have returned := read_spec (seek_offset here) narrow room small (stored_seek stored offset)
  exact ⟨after, written, kept, afterBits, _, returned⟩

/-- Twelve bits into a buffer of two bytes, from the third bit on. -/
theorem overwrite_field_two_bytes :
    ∃ after : BitStream 2 true,
      (seek 3 (new #v[0xff, 0xff] : BitStream 2 true)).write 0x555 12 = some after ∧
      (∀ index, ¬(3 ≤ index ∧ index < 3 + 12) →
        bitAt after.buffer_ index = bitAt #v[0xff#8, 0xff#8] index) ∧
      after.nbits_ = max 0 (3 + 12) ∧
      ∃ final, (after.seek 3).read 12 = some (((0x555 % 2 ^ 12 : Nat) : Int), final) :=
  overwrite_field (new #v[0xff, 0xff]) 3 12 0x555 (by decide) (by decide)

/-! ### Fields one behind the other -/

/-- A field of `write(n, bits)`. -/
structure Field where
  n : BitVec 32
  bits : Nat
deriving DecidableEq, Repr

def writeField (self : BitStream SIZE USE_LITTLE) (field : Field) :
    Option (BitStream SIZE USE_LITTLE) :=
  self.write field.n field.bits

/-- Reads of these widths, with what they return. -/
def readAll : List Nat → BitStream SIZE USE_LITTLE →
    Option (List Int × BitStream SIZE USE_LITTLE)
  | [], self => some ([], self)
  | bits :: rest, self =>
      (self.read bits).bind fun first =>
        (readAll rest first.2).map fun others => (first.1 :: others.1, others.2)

def total (fields : List Field) : Nat := (fields.map Field.bits).sum

/-- The fields stand one behind the other from the position on. -/
def AllStored (self : BitStream SIZE USE_LITTLE) : Nat → List Field → Prop
  | _, [] => True
  | position, field :: rest =>
      self.Stored position field.bits field.n ∧ self.AllStored (position + field.bits) rest

theorem AllStored.of_buffer_eq {self after : BitStream SIZE USE_LITTLE} {fields : List Field}
    {position : Nat} (stored : self.AllStored position fields)
    (same : after.buffer_ = self.buffer_) : after.AllStored position fields := by
  induction fields generalizing position with
  | nil => trivial
  | cons field rest inductionHypothesis =>
      constructor
      · intro behind inside
        rw [same]
        exact stored.1 behind inside
      · exact inductionHypothesis stored.2

/-- What comes behind does not change a field. -/
theorem Stored.of_frame {self after : BitStream SIZE USE_LITTLE} {position width limit : Nat}
    {n : BitVec 32} (stored : self.Stored position width n) (before : position + width ≤ limit)
    (kept : ∀ index < limit, bitAt after.buffer_ index = bitAt self.buffer_ index) :
    after.Stored position width n := by
  intro behind inside
  rw [kept _ (by omega)]
  exact stored behind inside

/-- Fields written from a position on: they all stand there, and nothing before it has
changed. -/
theorem writeAll_spec {fields : List Field} {position : Nat} {self : BitStream SIZE USE_LITTLE}
    (here : self.offset_ = position) (reached : position ≤ self.nbits_)
    (narrow : ∀ field ∈ fields, field.bits ≤ 30)
    (room : position + total fields ≤ 8 * SIZE) (small : position + total fields < 2 ^ 31) :
    ∃ after : BitStream SIZE USE_LITTLE,
      follow writeField self fields = some after ∧
      after.nbits_ = max self.nbits_ (position + total fields) ∧
      after.AllStored position fields ∧
      ∀ index < position, bitAt after.buffer_ index = bitAt self.buffer_ index := by
  induction fields generalizing position self with
  | nil =>
      refine ⟨self, rfl, ?_, trivial, fun _ _ => rfl⟩
      rw [total, List.map_nil, List.sum_nil, Nat.add_zero, max_eq_left reached]
  | cons field rest inductionHypothesis =>
      have sum : total (field :: rest) = field.bits + total rest := rfl
      rw [sum, ← Nat.add_assoc] at room small ⊢
      obtain ⟨next, written, nextHere, nextBits, nextStored, nextKept⟩ :=
        @write_spec SIZE USE_LITTLE field.n field.bits position self here
          (narrow field List.mem_cons_self) (by omega) (by omega)
      obtain ⟨after, followed, afterBits, afterStored, afterKept⟩ :=
        inductionHypothesis nextHere (by omega)
          (fun later member => narrow later (List.mem_cons_of_mem field member)) room small
      refine ⟨after, ?_, ?_, ⟨?_, afterStored⟩, ?_⟩
      · rw [follow, writeField, written]
        exact followed
      · rw [afterBits, nextBits]
        omega
      · exact nextStored.of_frame le_rfl afterKept
      · intro index before
        rw [afterKept index (by omega), nextKept index (by omega)]

/-- Fields that stand there are read in their order. -/
theorem readAll_spec {fields : List Field} {position : Nat} {self : BitStream SIZE USE_LITTLE}
    (here : self.offset_ = position) (narrow : ∀ field ∈ fields, field.bits ≤ 30)
    (room : position + total fields ≤ 8 * SIZE) (small : position + total fields < 2 ^ 31)
    (stored : self.AllStored position fields) :
    ∃ final, readAll (fields.map Field.bits) self =
      some (fields.map fun field => ((field.n.toNat % 2 ^ field.bits : Nat) : Int), final) := by
  induction fields generalizing position self with
  | nil => exact ⟨self, rfl⟩
  | cons field rest inductionHypothesis =>
      have sum : total (field :: rest) = field.bits + total rest := rfl
      rw [sum, ← Nat.add_assoc] at room small
      obtain ⟨first, others⟩ := stored
      have returned := read_spec here (narrow field List.mem_cons_self) (by omega) (by omega) first
      obtain ⟨final, followed⟩ :=
        @inductionHypothesis _ { self with offset_ := (position + field.bits : Nat) } rfl
          (fun later member => narrow later (List.mem_cons_of_mem field member)) room small
          (others.of_buffer_eq rfl)
      refine ⟨final, ?_⟩
      rw [List.map_cons, readAll, returned, Option.bind_some, followed]
      rfl

/-- Fields of up to 30 bits that the buffer has room for, and whose end is an `int`, are
read as they were written, in either bit order. -/
theorem fields_round_trip (buffer : Vector (BitVec 8) SIZE) (fields : List Field)
    (narrow : ∀ field ∈ fields, 1 ≤ field.bits ∧ field.bits ≤ 30)
    (room : total fields ≤ 8 * SIZE) (small : total fields < 2 ^ 31) :
    ∃ after : BitStream SIZE USE_LITTLE,
      follow writeField (new buffer) fields = some after ∧
      after.nbits_ = total fields ∧
      ∃ final, readAll (fields.map Field.bits) (after.seek 0) =
        some (fields.map fun field => ((field.n.toNat % 2 ^ field.bits : Nat) : Int), final) := by
  have widths : ∀ field ∈ fields, field.bits ≤ 30 := fun field member => (narrow field member).2
  have start : 0 + total fields = total fields := Nat.zero_add _
  rw [← start] at room small
  obtain ⟨after, followed, grown, stored, kept⟩ :=
    @writeAll_spec SIZE USE_LITTLE fields 0 (new buffer) rfl (Nat.le_refl 0) widths room small
  have rewound : (after.seek 0).offset_ = (0 : Nat) := seek_offset (by decide)
  have returned := readAll_spec rewound widths room small (stored.of_buffer_eq rfl)
  refine ⟨after, followed, ?_, returned⟩
  rw [grown, start]
  exact Nat.zero_max _

/-- Three fields, of which the second begins and ends within a byte. -/
theorem fields_round_trip_three :
    ∃ after : BitStream 4 false,
      follow writeField (new #v[0, 0, 0, 0]) [⟨0x12, 5⟩, ⟨0xff, 8⟩, ⟨0x1234, 16⟩] = some after ∧
      after.nbits_ = 29 ∧
      ∃ final, readAll [5, 8, 16] (after.seek 0) = some ([0x12, 0xff, 0x1234], final) :=
  fields_round_trip #v[0, 0, 0, 0] [⟨0x12, 5⟩, ⟨0xff, 8⟩, ⟨0x1234, 16⟩] (by decide) (by decide)
    (by decide)

/-! ### A stream that is too long -/

theorem writePart_offset {value : BitVec 32} {idx used nwrite : Nat}
    {self next : BitStream SIZE USE_LITTLE}
    (written : writePart value idx used nwrite self = some next) :
    next.offset_ = self.offset_ + nwrite ∧ InSigned 32 next.offset_ := by
  unfold writePart at written
  split at written
  next =>
    obtain ⟨offset_, added, result⟩ := Option.map_eq_some_iff.mp written
    obtain ⟨held, sum⟩ := signed_eq_some_iff.mp added
    subst result sum
    exact ⟨rfl, held⟩
  next => cases written

/-- The loop moves over the rest of the field, and does not leave the type. -/
theorem writeLoop_offset {n : BitVec 32} {bits i : Nat} {self after : BitStream SIZE USE_LITTLE}
    (begun : i ≤ bits) (looped : writeLoop n bits i self = some after) :
    after.offset_ = self.offset_ + (bits - i : Nat) ∧
      (i < bits → InSigned 32 after.offset_) := by
  induction left : bits - i using Nat.strongRecOn generalizing i self with
  | ind left inductionHypothesis =>
      subst left
      rw [writeLoop] at looped
      split at looped
      next started =>
        obtain ⟨next, written, later⟩ := Option.bind_eq_some_iff.mp looped
        obtain ⟨moved, held⟩ := writePart_offset written
        have positive := self.piece_pos (Nat.sub_pos_of_lt started)
        have within : self.piece (bits - i) ≤ bits - i := Nat.min_le_right _ _
        obtain ⟨end_, heldLater⟩ := inductionHypothesis _ (by omega) (by omega) later rfl
        constructor
        · rw [end_, moved]
          omega
        · intro _
          by_cases more : i + self.piece (bits - i) < bits
          · exact heldLater more
          · have ends : after.offset_ = next.offset_ := by omega
            rw [ends]
            exact held
      next finished =>
        cases looped
        constructor
        · omega
        · intro started
          exact absurd started finished

theorem write_offset {n : BitVec 32} {bits : Nat} {self after : BitStream SIZE USE_LITTLE}
    (written : self.write n bits = some after) :
    after.offset_ = self.offset_ + bits ∧ (0 < bits → InSigned 32 after.offset_) := by
  unfold write at written
  split at written
  next =>
    obtain ⟨looped, result, grown⟩ := Option.map_eq_some_iff.mp written
    have moved := writeLoop_offset (Nat.zero_le bits) result
    have same : after.offset_ = looped.offset_ := by
      rw [← grown]
      split <;> rfl
    rw [same]
    exact moved
  next => cases written

/-- Fields that are written end at a position that is an `int`. -/
theorem writeAll_offset {fields : List Field} {self after : BitStream SIZE USE_LITTLE}
    (positive : ∀ field ∈ fields, 1 ≤ field.bits)
    (followed : follow writeField self fields = some after) :
    after.offset_ = self.offset_ + total fields ∧
      (0 < total fields → InSigned 32 after.offset_) := by
  induction fields generalizing self with
  | nil =>
      cases followed
      exact ⟨(add_zero _).symm, fun nonempty => absurd nonempty (Nat.lt_irrefl 0)⟩
  | cons field rest inductionHypothesis =>
      obtain ⟨next, written, later⟩ := Option.bind_eq_some_iff.mp followed
      obtain ⟨moved, held⟩ := write_offset written
      obtain ⟨end_, heldLater⟩ := inductionHypothesis
        (fun other member => positive other (List.mem_cons_of_mem field member)) later
      have sum : total (field :: rest) = field.bits + total rest := rfl
      constructor
      · rw [end_, moved, sum]
        omega
      · intro _
        rcases Nat.eq_zero_or_pos (total rest) with none | some
        · have ends : after.offset_ = next.offset_ := by omega
          rw [ends]
          exact held (positive field List.mem_cons_self)
        · exact heldLater some

/-- 2^31 bits. -/
def halfwords : List Field := List.replicate (2 ^ 27) ⟨0, 16⟩

theorem total_halfwords : total halfwords = 2 ^ 31 := by
  rw [total, halfwords, List.map_replicate, List.sum_replicate]
  rfl

theorem bits_halfwords {field : Field} (member : field ∈ halfwords) :
    1 ≤ field.bits ∧ field.bits ≤ 30 := by
  rw [List.eq_of_mem_replicate member]
  decide

/-- A stream of 2^28 bytes has room for them, and they cannot be written. -/
theorem not_fields_round_trip :
    ¬ ∀ (SIZE : Nat) (USE_LITTLE : Bool) (buffer : Vector (BitVec 8) SIZE)
      (fields : List Field), (∀ field ∈ fields, 1 ≤ field.bits ∧ field.bits ≤ 30) →
      total fields ≤ 8 * SIZE →
      ∃ after : BitStream SIZE USE_LITTLE,
        follow writeField (new buffer) fields = some after ∧ after.nbits_ = total fields ∧
        ∃ final, readAll (fields.map Field.bits) (after.seek 0) =
          some (fields.map fun field => ((field.n.toNat % 2 ^ field.bits : Nat) : Int),
            final) := by
  intro claimed
  have room : total halfwords ≤ 8 * 2 ^ 28 := Nat.le_of_eq total_halfwords
  obtain ⟨after, followed, others⟩ := claimed (2 ^ 28) false (Vector.replicate (2 ^ 28) 0)
    halfwords (fun _ member => bits_halfwords member) room
  obtain ⟨moved, held⟩ := writeAll_offset (fun _ member => (bits_halfwords member).1) followed
  rw [total_halfwords] at moved held
  have bounds := held (by decide)
  have start : (new (Vector.replicate (2 ^ 28) 0) : BitStream (2 ^ 28) false).offset_ = 0 := rfl
  rw [start] at moved
  unfold InSigned at bounds
  omega

end BitStream

end StdPrograms.Utils

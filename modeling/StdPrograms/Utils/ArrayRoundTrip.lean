import StdPrograms.Utils.FieldRoundTrip

/-!
Contract: arrays between the fields of a bit stream, and fields that are appended.

Owns the overloads of `write` and `read` for arrays, the round trip of numbers and arrays in any
order, and what `append` keeps of a stream that is read and moved about in between.

An array is the list of its bytes. Does not own how a byte order makes these up.
-/

namespace StdPrograms.Utils

open StdPrograms.Foundation

namespace BitStream

variable {SIZE : Nat} {USE_LITTLE : Bool}

/-! ### Arrays -/

/-- A `char` is signed, and so is the `int` that it becomes before it is converted to unsigned. -/
def charField (char : BitVec 8) : Field := ⟨char.signExtend 32, 8⟩

/-- `write` of an array, by its bytes. -/
def writeArray (self : BitStream SIZE USE_LITTLE) (raw : List (BitVec 8)) :
    Option (BitStream SIZE USE_LITTLE) :=
  follow (fun self char => self.writeField (charField char)) self raw

/-- `read` of an array of so many bytes. -/
def readArray : Nat → BitStream SIZE USE_LITTLE →
    Option (List (BitVec 8) × BitStream SIZE USE_LITTLE)
  | 0, self => some ([], self)
  | left + 1, self =>
      (self.read 8).bind fun first =>
        (readArray left first.2).map fun others => (BitVec.ofInt 8 first.1 :: others.1, others.2)

/-- What is written: a number with its width, or an array. -/
inductive Item where
  | number (field : Field)
  | array (raw : List (BitVec 8))
deriving DecidableEq, Repr

/-- What is asked for: a number of so many bits, or an array of so many bytes. -/
inductive Request where
  | number (bits : Nat)
  | array (length : Nat)
deriving DecidableEq, Repr

/-- What is read. -/
inductive Reading where
  | number (value : Int)
  | array (raw : List (BitVec 8))
deriving DecidableEq, Repr

namespace Item

def fields : Item → List Field
  | number field => [field]
  | array raw => raw.map charField

def request : Item → Request
  | number field => .number field.bits
  | array raw => .array raw.length

/-- A number is cut to its width. -/
def reading : Item → Reading
  | number field => .number (field.n.toNat % 2 ^ field.bits : Nat)
  | array raw => .array raw

end Item

def writeItem (self : BitStream SIZE USE_LITTLE) : Item → Option (BitStream SIZE USE_LITTLE)
  | .number field => self.writeField field
  | .array raw => self.writeArray raw

def readItem (self : BitStream SIZE USE_LITTLE) : Request →
    Option (Reading × BitStream SIZE USE_LITTLE)
  | .number bits => (self.read bits).map fun (value, self) => (.number value, self)
  | .array length => (readArray length self).map fun (raw, self) => (.array raw, self)

def readItems : List Request → BitStream SIZE USE_LITTLE →
    Option (List Reading × BitStream SIZE USE_LITTLE)
  | [], self => some ([], self)
  | request :: rest, self =>
      (self.readItem request).bind fun first =>
        (readItems rest first.2).map fun others => (first.1 :: others.1, others.2)

/-! ### Arrays as fields -/

theorem total_append (front back : List Field) :
    total (front ++ back) = total front + total back := by
  simp [total]

theorem allStored_append {self : BitStream SIZE USE_LITTLE} {front back : List Field}
    {position : Nat} :
    self.AllStored position (front ++ back) ↔
      self.AllStored position front ∧ self.AllStored (position + total front) back := by
  induction front generalizing position with
  | nil => simp [AllStored, total]
  | cons field rest inductionHypothesis =>
      have sum : total (field :: rest) = field.bits + total rest := rfl
      rw [List.cons_append, AllStored, AllStored, inductionHypothesis, sum, and_assoc,
        Nat.add_assoc]

theorem total_charFields (raw : List (BitVec 8)) : total (raw.map charField) = 8 * raw.length := by
  induction raw with
  | nil => rfl
  | cons char rest inductionHypothesis =>
      have sum : total ((char :: rest).map charField) = 8 + total (rest.map charField) := rfl
      rw [sum, inductionHypothesis, List.length_cons]
      omega

/-- The sign that a `char` is extended by does not come back. -/
theorem ofInt_charField (char : BitVec 8) :
    BitVec.ofInt 8 (((charField char).n.toNat % 2 ^ 8 : Nat) : Int) = char := by
  revert char
  decide +kernel

theorem readArray_spec {raw : List (BitVec 8)} {position : Nat} {self : BitStream SIZE USE_LITTLE}
    (here : self.offset_ = position) (room : position + 8 * raw.length ≤ 8 * SIZE)
    (small : position + 8 * raw.length < 2 ^ 31)
    (stored : self.AllStored position (raw.map charField)) :
    readArray raw.length self =
      some (raw, { self with offset_ := (position + 8 * raw.length : Nat) }) := by
  induction raw generalizing position self with
  | nil =>
      have same : ({ self with offset_ := ((position + 8 * 0 : Nat) : Int) } :
          BitStream SIZE USE_LITTLE) = self := by
        rw [Nat.mul_zero, Nat.add_zero, ← here]
      rw [List.length_nil, readArray, same]
  | cons char rest inductionHypothesis =>
      rw [List.length_cons] at room small
      have first := read_spec here (by decide) (show position + 8 ≤ 8 * SIZE by omega) (by omega)
        stored.1
      have others := @inductionHypothesis (position + 8)
        { self with offset_ := (position + 8 : Nat) } rfl (by omega) (by omega)
        (stored.2.of_buffer_eq rfl)
      rw [List.length_cons, readArray]
      simp only [first, others, Option.bind_some, Option.map_some, ofInt_charField]
      have ends : position + 8 + 8 * rest.length = position + 8 * (rest.length + 1) := by omega
      rw [ends]

/-- An item is written as its fields are. -/
theorem writeItem_eq (self : BitStream SIZE USE_LITTLE) (item : Item) :
    self.writeItem item = follow writeField self item.fields := by
  cases item with
  | number field => simp [writeItem, Item.fields, follow]
  | array raw => exact (follow_map charField raw self).symm

theorem writeItems_eq (items : List Item) (self : BitStream SIZE USE_LITTLE) :
    follow writeItem self items = follow writeField self (items.flatMap Item.fields) := by
  induction items generalizing self with
  | nil => rfl
  | cons item rest inductionHypothesis =>
      rw [List.flatMap_cons, follow_append, follow, writeItem_eq]
      simp only [inductionHypothesis]

/-! ### Numbers and arrays in any order -/

theorem readItem_spec {item : Item} {position : Nat} {self : BitStream SIZE USE_LITTLE}
    (here : self.offset_ = position) (narrow : ∀ field ∈ item.fields, field.bits ≤ 30)
    (room : position + total item.fields ≤ 8 * SIZE)
    (small : position + total item.fields < 2 ^ 31)
    (stored : self.AllStored position item.fields) :
    self.readItem item.request =
      some (item.reading, { self with offset_ := (position + total item.fields : Nat) }) := by
  cases item with
  | number field =>
      have returned := read_spec here (narrow field List.mem_cons_self) room small stored.1
      rw [Item.request, readItem, returned]
      rfl
  | array raw =>
      have length : total (Item.array raw).fields = 8 * raw.length := total_charFields raw
      rw [length] at room small ⊢
      rw [Item.request, readItem, readArray_spec here room small stored]
      rfl

theorem readItems_spec {items : List Item} {position : Nat} {self : BitStream SIZE USE_LITTLE}
    (here : self.offset_ = position)
    (narrow : ∀ field ∈ items.flatMap Item.fields, field.bits ≤ 30)
    (room : position + total (items.flatMap Item.fields) ≤ 8 * SIZE)
    (small : position + total (items.flatMap Item.fields) < 2 ^ 31)
    (stored : self.AllStored position (items.flatMap Item.fields)) :
    ∃ final, readItems (items.map Item.request) self = some (items.map Item.reading, final) := by
  induction items generalizing position self with
  | nil => exact ⟨self, rfl⟩
  | cons item rest inductionHypothesis =>
      rw [List.flatMap_cons] at narrow room small stored
      rw [total_append] at room small
      obtain ⟨first, others⟩ := allStored_append.mp stored
      have returned := readItem_spec here
        (fun field member => narrow field (List.mem_append_left _ member)) (by omega) (by omega)
        first
      obtain ⟨final, followed⟩ := @inductionHypothesis (position + total item.fields)
        { self with offset_ := (position + total item.fields : Nat) } rfl
        (fun field member => narrow field (List.mem_append_right _ member)) (by omega) (by omega)
        (others.of_buffer_eq rfl)
      refine ⟨final, ?_⟩
      simp only [List.map_cons, readItems, returned, followed, Option.bind_some, Option.map_some]

/-- Numbers of up to 30 bits and arrays that the buffer has room for are read as they were
written, in either bit order. -/
theorem items_round_trip (buffer : Vector (BitVec 8) SIZE) (items : List Item)
    (narrow : ∀ field ∈ items.flatMap Item.fields, field.bits ≤ 30)
    (room : total (items.flatMap Item.fields) ≤ 8 * SIZE)
    (small : total (items.flatMap Item.fields) < 2 ^ 31) :
    ∃ after : BitStream SIZE USE_LITTLE,
      follow writeItem (new buffer) items = some after ∧
      after.nbits_ = total (items.flatMap Item.fields) ∧
      ∃ final, readItems (items.map Item.request) (after.seek 0) =
        some (items.map Item.reading, final) := by
  rw [← Nat.zero_add (total (items.flatMap Item.fields))] at room small
  obtain ⟨after, followed, grown, stored, kept⟩ :=
    @writeAll_spec SIZE USE_LITTLE (items.flatMap Item.fields) 0 (new buffer) rfl (Nat.le_refl 0)
      narrow room small
  have rewound : (after.seek 0).offset_ = (0 : Nat) := seek_offset (by decide)
  refine ⟨after, (writeItems_eq items _).trans followed, ?_,
    readItems_spec rewound narrow room small (stored.of_buffer_eq rfl)⟩
  rw [grown, Nat.zero_add]
  exact Nat.zero_max _

/-- A number of five bits, two shorts in an array, and a number of seven bits. -/
theorem items_round_trip_three :
    ∃ after : BitStream 8 false,
      follow writeItem (new (Vector.replicate 8 0))
        [.number ⟨0x12, 5⟩, .array [0xec, 0xff, 0xff, 0x7f], .number ⟨0xffff, 7⟩] = some after ∧
      after.nbits_ = 44 ∧
      ∃ final, readItems [.number 5, .array 4, .number 7] (after.seek 0) =
        some ([.number 0x12, .array [0xec, 0xff, 0xff, 0x7f], .number 0x7f], final) :=
  items_round_trip (Vector.replicate 8 0)
    [.number ⟨0x12, 5⟩, .array [0xec, 0xff, 0xff, 0x7f], .number ⟨0xffff, 7⟩] (by decide)
    (by decide) (by decide)

/-! ### Fields that are appended -/

def append (self : BitStream SIZE USE_LITTLE) (field : Field) :
    Option (BitStream SIZE USE_LITTLE) :=
  (self.seek self.nbits_).writeField field

/-- What may be done with a stream that is appended to. -/
inductive Use where
  | seek (offset : Nat)
  | read (bits : Nat)
  | append (field : Field)
deriving DecidableEq, Repr

def use (self : BitStream SIZE USE_LITTLE) : Use → Option (BitStream SIZE USE_LITTLE)
  | .seek offset => some (self.seek offset)
  | .read bits => (self.read bits).map Prod.snd
  | .append field => self.append field

/-- The fields in the order in which they are appended. -/
def appended : List Use → List Field
  | [] => []
  | .append field :: rest => field :: appended rest
  | _ :: rest => appended rest

theorem readPart_frame {i idx used nread : Nat} {n : BitVec 32}
    {self : BitStream SIZE USE_LITTLE} {next : BitVec 32 × BitStream SIZE USE_LITTLE}
    (returned : readPart i idx used nread n self = some next) :
    next.2.buffer_ = self.buffer_ ∧ next.2.nbits_ = self.nbits_ := by
  unfold readPart at returned
  split at returned
  next =>
    dsimp only at returned
    split at returned
    next =>
      obtain ⟨offset_, -, rfl⟩ := Option.map_eq_some_iff.mp returned
      exact ⟨rfl, rfl⟩
    next => cases returned
  next => cases returned

theorem readLoop_frame {bits i : Nat} {n : BitVec 32} {self : BitStream SIZE USE_LITTLE}
    {next : BitVec 32 × BitStream SIZE USE_LITTLE}
    (returned : readLoop bits i n self = some next) :
    next.2.buffer_ = self.buffer_ ∧ next.2.nbits_ = self.nbits_ := by
  induction left : bits - i using Nat.strongRecOn generalizing i n self with
  | ind left inductionHypothesis =>
      subst left
      rw [readLoop] at returned
      split at returned
      next started =>
        obtain ⟨middle, part, later⟩ := Option.bind_eq_some_iff.mp returned
        have first := readPart_frame part
        have positive := self.piece_pos (Nat.sub_pos_of_lt started)
        have others := inductionHypothesis _ (by omega) later rfl
        exact ⟨others.1.trans first.1, others.2.trans first.2⟩
      next =>
        cases returned
        exact ⟨rfl, rfl⟩

/-- A read only moves the offset. -/
theorem read_frame {bits : Nat} {self : BitStream SIZE USE_LITTLE}
    {next : Int × BitStream SIZE USE_LITTLE} (returned : self.read bits = some next) :
    next.2.buffer_ = self.buffer_ ∧ next.2.nbits_ = self.nbits_ := by
  obtain ⟨looped, result, rfl⟩ := Option.map_eq_some_iff.mp returned
  exact readLoop_frame result

/-- A loop that ends has written inside the buffer and the range of the offset. -/
theorem writeLoop_inside {n : BitVec 32} {bits i position : Nat}
    {self after : BitStream SIZE USE_LITTLE} (here : self.offset_ = (position + i : Nat))
    (begun : i ≤ bits) (room : position + i ≤ 8 * SIZE) (small : position + i < 2 ^ 31)
    (returned : writeLoop n bits i self = some after) :
    position + bits ≤ 8 * SIZE ∧ position + bits < 2 ^ 31 := by
  induction left : bits - i using Nat.strongRecOn generalizing i self with
  | ind left inductionHypothesis =>
      subst left
      rw [writeLoop] at returned
      split at returned
      next started =>
        obtain ⟨middle, written, later⟩ := Option.bind_eq_some_iff.mp returned
        have cut : self.piece (bits - i) = count position bits i := piece_eq here (bits - i)
        rw [cut] at written later
        rw [writePart, current_byte_eq here] at written
        split at written
        next inside =>
          obtain ⟨offset_, added, rfl⟩ := Option.map_eq_some_iff.mp written
          obtain ⟨⟨-, below⟩, rfl⟩ := signed_eq_some_iff.mp added
          obtain ⟨positive, within, -⟩ := count_spec position started
          have inByte : count position bits i ≤ 8 - (position + i) % 8 := Nat.min_le_left _ _
          rw [here] at below
          refine inductionHypothesis _ (by omega) ?_ within (by omega) (by omega) later rfl
          dsimp only
          omega
        next => cases written
      next finished =>
        obtain rfl : i = bits := by omega
        exact ⟨room, small⟩

/-- What a stream has that these fields have been appended to. -/
structure Holds (stream : BitStream SIZE USE_LITTLE) (fields : List Field) : Prop where
  ends : stream.nbits_ = total fields
  narrow : ∀ field ∈ fields, field.bits ≤ 30
  room : total fields ≤ 8 * SIZE
  small : total fields < 2 ^ 31
  stored : stream.AllStored 0 fields

/-- What is not in a stream does not matter. -/
theorem Holds.of_frame {self after : BitStream SIZE USE_LITTLE} {fields : List Field}
    (holds : self.Holds fields) (same : after.buffer_ = self.buffer_ ∧ after.nbits_ = self.nbits_) :
    after.Holds fields :=
  ⟨same.2.trans holds.ends, holds.narrow, holds.room, holds.small,
    holds.stored.of_buffer_eq same.1⟩

theorem AllStored.of_kept {self after : BitStream SIZE USE_LITTLE} {fields : List Field}
    {position : Nat} (stored : self.AllStored position fields)
    (kept : ∀ index < position + total fields,
      bitAt after.buffer_ index = bitAt self.buffer_ index) :
    after.AllStored position fields := by
  induction fields generalizing position with
  | nil => trivial
  | cons field rest inductionHypothesis =>
      have sum : total (field :: rest) = field.bits + total rest := rfl
      rw [sum, ← Nat.add_assoc] at kept
      exact ⟨stored.1.of_frame (Nat.le_add_right _ _) kept, inductionHypothesis stored.2 kept⟩

theorem Holds.append {self after : BitStream SIZE USE_LITTLE} {fields : List Field} {field : Field}
    (holds : self.Holds fields) (written : self.append field = some after) :
    after.Holds (fields ++ [field]) := by
  have here : (self.seek self.nbits_).offset_ = (total fields + 0 : Nat) := by
    rw [holds.ends]
    exact seek_offset holds.small
  have narrow : field.bits ≤ 30 := by
    by_contra wide
    rw [BitStream.append, writeField, write, if_neg wide] at written
    cases written
  obtain ⟨looped, returned, -⟩ := Option.map_eq_some_iff.mp ((if_pos narrow).symm.trans written)
  obtain ⟨room, small⟩ :=
    writeLoop_inside here (Nat.zero_le field.bits) holds.room holds.small returned
  obtain ⟨after', written', -, grown, stored, kept⟩ :=
    @write_spec SIZE USE_LITTLE field.n field.bits _ _ here narrow room small
  obtain rfl : after' = after := Option.some.inj (written'.symm.trans written)
  have sum : total (fields ++ [field]) = total fields + field.bits := total_append fields [field]
  refine ⟨?_, ?_, sum ▸ room, sum ▸ small, ?_⟩
  · rw [grown, sum]
    change max self.nbits_ _ = _
    rw [holds.ends, Nat.add_zero]
    omega
  · exact List.forall_mem_append.mpr ⟨holds.narrow, List.forall_mem_singleton.mpr narrow⟩
  · rw [allStored_append, Nat.zero_add]
    refine ⟨holds.stored.of_kept ?_, stored, trivial⟩
    intro index before
    exact kept index (by omega)

theorem Holds.run {uses : List Use} {self after : BitStream SIZE USE_LITTLE} {fields : List Field}
    (holds : self.Holds fields) (followed : follow use self uses = some after) :
    after.Holds (fields ++ appended uses) := by
  induction uses generalizing self fields with
  | nil =>
      cases followed
      rwa [appended, List.append_nil]
  | cons use rest inductionHypothesis =>
      obtain ⟨next, used, later⟩ := Option.bind_eq_some_iff.mp followed
      cases use with
      | seek offset =>
          cases used
          have moved : (self.seek offset).Holds fields := holds.of_frame ⟨rfl, rfl⟩
          exact inductionHypothesis moved later
      | read bits =>
          obtain ⟨returned, isRead, rfl⟩ := Option.map_eq_some_iff.mp used
          exact inductionHypothesis (holds.of_frame (read_frame isRead)) later
      | append field =>
          rw [appended, List.append_cons]
          exact inductionHypothesis (holds.append used) later

/-- Whatever is read and wherever the stream is moved to in between, `append` keeps what has been
appended, and the fields are read in their order. -/
theorem appended_round_trip (buffer : Vector (BitVec 8) SIZE) (uses : List Use)
    {after : BitStream SIZE USE_LITTLE} (followed : follow use (new buffer) uses = some after) :
    after.nbits_ = total (appended uses) ∧
      ∃ final, readAll ((appended uses).map Field.bits) (after.seek 0) =
        some ((appended uses).map fun field => ((field.n.toNat % 2 ^ field.bits : Nat) : Int),
          final) := by
  have empty : (new buffer : BitStream SIZE USE_LITTLE).Holds [] :=
    ⟨rfl, by simp, Nat.zero_le _, by decide, trivial⟩
  obtain ⟨ends, narrow, room, small, stored⟩ := empty.run followed
  have rewound : (after.seek 0).offset_ = (0 : Nat) := seek_offset (by decide)
  rw [List.nil_append] at *
  rw [← Nat.zero_add (total (appended uses))] at room small
  exact ⟨ends, readAll_spec rewound narrow room small (stored.of_buffer_eq rfl)⟩

/-- Two fields, with a read in between. -/
theorem appended_round_trip_two :
    ∃ after : BitStream 4 true,
      follow use (new (Vector.replicate 4 0))
        [.append ⟨0x12, 5⟩, .seek 1, .read 3, .append ⟨0x1ff, 11⟩] = some after ∧
      after.nbits_ = 16 ∧
        ∃ final, readAll [5, 11] (after.seek 0) = some ([0x12, 0x1ff], final) := by
  have runs : ∃ after : BitStream 4 true, follow use (new (Vector.replicate 4 0))
      [.append ⟨0x12, 5⟩, .seek 1, .read 3, .append ⟨0x1ff, 11⟩] = some after := by
    apply Option.isSome_iff_exists.mp
    decide +kernel
  obtain ⟨after, followed⟩ := runs
  exact ⟨after, followed, appended_round_trip _ _ followed⟩

end BitStream

end StdPrograms.Utils

import StdPrograms.Utils.BitStream

/-!
Contract: the printed form of a bit stream.

Owns `size` and `dump`, whose last byte shows as many bits as the length has modulo
eight, and for which streams the printed bits are those of the stream.

Does not own how the bits get into the stream.
-/

namespace StdPrograms.Utils

open StdPrograms.Foundation

namespace BitStream

variable {SIZE : Nat} {USE_LITTLE : Bool}

/-- `nbits_ + BYTE_BITS` can overflow. -/
def size (self : BitStream SIZE USE_LITTLE) : Option Nat :=
  (signed 32 (self.nbits_ + 8)).map fun sum => ((sum - 1).tdiv 8).toNat

def digit (bit : Bool) : Char := if bit then '1' else '0'

def separator (i : Nat) : Char := if (i + 1) % 5 = 0 then '\n' else ' '

/-- The bits of a byte that are shown. -/
def remain (self : BitStream SIZE USE_LITTLE) (size i : Nat) : Nat :=
  if i = size - 1 then self.nbits_ % 8 else 8

/-- `buffer_[i] & (1 << j)`; outside of the buffer it is undefined. -/
def bitOf (self : BitStream SIZE USE_LITTLE) (i j : Nat) : Option Bool :=
  if inside : i < SIZE then some (self.buffer_[i].getLsbD j) else none

/-- What the inner loop has put out after so many bits. -/
def dumpBits (self : BitStream SIZE USE_LITTLE) (i : Nat) : Nat → Option (List Char)
  | 0 => some []
  | j + 1 =>
      (self.dumpBits i j).bind fun before =>
        (self.bitOf i j).map fun bit => before ++ [digit bit]

/-- What the outer loop has put out after so many bytes. -/
def dumpBytes (self : BitStream SIZE USE_LITTLE) (size : Nat) : Nat → Option (List Char)
  | 0 => some []
  | i + 1 =>
      (self.dumpBytes size i).bind fun before =>
        (self.dumpBits i (self.remain size i)).map fun bits => before ++ (bits ++ [separator i])

def dump (self : BitStream SIZE USE_LITTLE) : Option (List Char) :=
  self.size.bind fun size => (self.dumpBytes size size).map fun text => text ++ ['\n']

/-- The text without its separators. -/
def digits (text : List Char) : List Char := text.filter fun c => c != ' ' && c != '\n'

/-- The first bits of the stream, as they are printed. -/
def shown (self : BitStream SIZE USE_LITTLE) (count : Nat) : List Char :=
  (List.range count).map fun position => digit (bitAt self.buffer_ position)

/-- The text shows the bits of the stream, in their order. -/
def ShowsStream (self : BitStream SIZE USE_LITTLE) : Prop :=
  ∃ text, self.dump = some text ∧ digits text = self.shown self.nbits_

/-! ### What is put out -/

theorem digits_append (first second : List Char) :
    digits (first ++ second) = digits first ++ digits second :=
  List.filter_append first second

theorem digits_digit (bit : Bool) : digits [digit bit] = [digit bit] := by
  cases bit <;> rfl

theorem digits_separator (i : Nat) : digits [separator i] = [] := by
  unfold separator
  split <;> rfl

theorem length_shown (self : BitStream SIZE USE_LITTLE) (count : Nat) :
    (self.shown count).length = count := by
  rw [shown, List.length_map, List.length_range]

theorem shown_succ (self : BitStream SIZE USE_LITTLE) (count : Nat) :
    self.shown (count + 1) = self.shown count ++ [digit (bitAt self.buffer_ count)] := by
  rw [shown, List.range_succ, List.map_append]
  rfl

theorem bitOf_eq {self : BitStream SIZE USE_LITTLE} {i j : Nat} (inside : i < SIZE)
    (within : j < 8) : self.bitOf i j = some (bitAt self.buffer_ (8 * i + j)) := by
  rw [bitOf, dif_pos inside, bitAt_eq self.buffer_ inside (by omega) (by omega),
    Nat.add_sub_cancel_left]

/-- The bits of one byte, behind all those before it. -/
theorem dumpBits_spec (self : BitStream SIZE USE_LITTLE) {i j : Nat} (inside : i < SIZE)
    (within : j ≤ 8) :
    ∃ bits, self.dumpBits i j = some bits ∧
      self.shown (8 * i) ++ digits bits = self.shown (8 * i + j) := by
  induction j with
  | zero => exact ⟨[], rfl, List.append_nil _⟩
  | succ j inductionHypothesis =>
      obtain ⟨bits, before, same⟩ := inductionHypothesis (by omega)
      refine ⟨bits ++ [digit (bitAt self.buffer_ (8 * i + j))], ?_, ?_⟩
      · rw [dumpBits, before, Option.bind_some, bitOf_eq inside within, Option.map_some]
      · rw [digits_append, digits_digit, ← List.append_assoc, same]
        exact (shown_succ self (8 * i + j)).symm

/-- The bytes before the last one are shown whole. -/
theorem dumpBytes_spec (self : BitStream SIZE USE_LITTLE) (size : Nat) {i : Nat} (inside : i ≤ SIZE)
    (before : i ≤ size - 1) :
    ∃ text, self.dumpBytes size i = some text ∧ digits text = self.shown (8 * i) := by
  induction i with
  | zero => exact ⟨[], rfl, rfl⟩
  | succ i inductionHypothesis =>
      obtain ⟨text, returned, same⟩ := inductionHypothesis (by omega) (by omega)
      have whole : self.remain size i = 8 := if_neg (by omega)
      obtain ⟨bits, byte, sameBits⟩ := dumpBits_spec self inside (le_refl 8)
      refine ⟨text ++ (bits ++ [separator i]), ?_, ?_⟩
      · rw [dumpBytes, returned, Option.bind_some, whole, byte, Option.map_some]
      · rw [digits_append, digits_append, digits_separator, List.append_nil, same, sameBits]
        rfl

/-- Of the last byte, the remainder of the length. -/
theorem dumpBytes_last (self : BitStream SIZE USE_LITTLE) {last : Nat} (inside : last < SIZE) :
    ∃ text, self.dumpBytes (last + 1) (last + 1) = some text ∧
      digits text = self.shown (8 * last + self.nbits_ % 8) := by
  have rest : self.remain (last + 1) last = self.nbits_ % 8 := if_pos rfl
  obtain ⟨text, returned, same⟩ :=
    dumpBytes_spec self (last + 1) (Nat.le_of_lt inside) (le_refl last)
  obtain ⟨bits, byte, sameBits⟩ :=
    dumpBits_spec self inside (Nat.le_of_lt (Nat.mod_lt self.nbits_ (by decide)))
  refine ⟨text ++ (bits ++ [separator last]), ?_, ?_⟩
  · rw [dumpBytes, returned, Option.bind_some, rest, byte, Option.map_some]
  · rw [digits_append, digits_append, digits_separator, List.append_nil, same, sameBits]

theorem size_eq {self : BitStream SIZE USE_LITTLE} (small : self.nbits_ + 8 < 2 ^ 31) :
    self.size = some ((self.nbits_ + 7) / 8) := by
  have added : signed 32 ((self.nbits_ : Int) + 8) = some ((self.nbits_ + 8 : Nat) : Int) :=
    signed_of_inSigned (inSigned_natCast small)
  have less : ((self.nbits_ + 8 : Nat) : Int) - 1 = (self.nbits_ + 7 : Nat) := by omega
  rw [size, added, Option.map_some, less]
  rfl

/-! ### How much is put out -/

/-- As many bits as the loop has turns, if the byte is in the buffer. -/
theorem length_dumpBits {self : BitStream SIZE USE_LITTLE} {i j : Nat} {bits : List Char}
    (returned : self.dumpBits i j = some bits) :
    (digits bits).length = j ∧ (0 < j → i < SIZE) := by
  induction j generalizing bits with
  | zero =>
      cases returned
      exact ⟨rfl, fun positive => absurd positive (Nat.lt_irrefl 0)⟩
  | succ j inductionHypothesis =>
      obtain ⟨before, earlier, later⟩ := Option.bind_eq_some_iff.mp returned
      obtain ⟨bit, read, result⟩ := Option.map_eq_some_iff.mp later
      constructor
      · rw [← result, digits_append, digits_digit, List.length_append,
          (inductionHypothesis earlier).1]
        rfl
      · intro _
        unfold bitOf at read
        split at read
        next inside => exact inside
        next => cases read

theorem length_dumpBytes {self : BitStream SIZE USE_LITTLE} {size i : Nat} {text : List Char}
    (before : i ≤ size - 1) (returned : self.dumpBytes size i = some text) :
    (digits text).length = 8 * i := by
  induction i generalizing text with
  | zero =>
      cases returned
      rfl
  | succ i inductionHypothesis =>
      obtain ⟨front, earlier, later⟩ := Option.bind_eq_some_iff.mp returned
      obtain ⟨bits, byte, result⟩ := Option.map_eq_some_iff.mp later
      have whole : self.remain size i = 8 := if_neg (by omega)
      rw [whole] at byte
      rw [← result, digits_append, digits_append, digits_separator, List.append_nil,
        List.length_append, inductionHypothesis (by omega) earlier, (length_dumpBits byte).1]
      rfl

/-- All bytes: the last one is in the buffer if any of its bits is shown. -/
theorem length_dumpBytes_last {self : BitStream SIZE USE_LITTLE} {last : Nat}
    {text : List Char} (returned : self.dumpBytes (last + 1) (last + 1) = some text) :
    (digits text).length = 8 * last + self.nbits_ % 8 ∧
      (0 < self.nbits_ % 8 → last < SIZE) := by
  obtain ⟨front, earlier, later⟩ := Option.bind_eq_some_iff.mp returned
  obtain ⟨bits, byte, result⟩ := Option.map_eq_some_iff.mp later
  have rest : self.remain (last + 1) last = self.nbits_ % 8 := if_pos rfl
  rw [rest] at byte
  obtain ⟨length, inside⟩ := length_dumpBits byte
  constructor
  · rw [← result, digits_append, digits_append, digits_separator, List.append_nil,
      List.length_append, length_dumpBytes (le_refl last) earlier, length]
  · exact inside

/-- The last byte is not a whole one, the buffer holds it, and its end is an `int`. -/
def EndsWithinByte (self : BitStream SIZE USE_LITTLE) : Prop :=
  self.nbits_ % 8 ≠ 0 ∧ self.nbits_ ≤ 8 * SIZE ∧ self.nbits_ + 8 < 2 ^ 31

theorem showsStream_of_endsWithinByte {self : BitStream SIZE USE_LITTLE}
    (ends : self.EndsWithinByte) : self.ShowsStream := by
  obtain ⟨partly, room, small⟩ := ends
  have bytes : (self.nbits_ + 7) / 8 = self.nbits_ / 8 + 1 := by omega
  have length : 8 * (self.nbits_ / 8) + self.nbits_ % 8 = self.nbits_ := by omega
  have inside : self.nbits_ / 8 < SIZE := by omega
  obtain ⟨text, returned, same⟩ := dumpBytes_last self inside
  refine ⟨text ++ ['\n'], ?_, ?_⟩
  · rw [dump, size_eq small, Option.bind_some, bytes, returned, Option.map_some]
  · rw [digits_append, same, length]
    exact List.append_nil _

theorem endsWithinByte_of_showsStream {self : BitStream SIZE USE_LITTLE}
    (nonempty : self.nbits_ ≠ 0) (shows_ : self.ShowsStream) : self.EndsWithinByte := by
  obtain ⟨text, dumped, same⟩ := shows_
  obtain ⟨count, counted, later⟩ := Option.bind_eq_some_iff.mp dumped
  obtain ⟨front, returned, result⟩ := Option.map_eq_some_iff.mp later
  have small : self.nbits_ + 8 < 2 ^ 31 := by
    obtain ⟨sum, added, divided⟩ := Option.map_eq_some_iff.mp counted
    have held := (signed_eq_some_iff.mp added).1
    unfold InSigned at held
    omega
  rw [size_eq small] at counted
  have bytes : count = (self.nbits_ - 1) / 8 + 1 := by
    rw [← Option.some.inj counted]
    omega
  rw [bytes] at returned
  obtain ⟨length, inside⟩ := length_dumpBytes_last returned
  have all : 8 * ((self.nbits_ - 1) / 8) + self.nbits_ % 8 = self.nbits_ := by
    rw [← length, ← length_shown self self.nbits_, ← same, ← result, digits_append]
    exact congrArg List.length (List.append_nil _).symm
  have partly : self.nbits_ % 8 ≠ 0 := by omega
  have held := inside (Nat.pos_of_ne_zero partly)
  exact ⟨partly, by omega, small⟩

/-- `dump` shows the stream exactly if it is empty or ends within a byte. -/
theorem showsStream_iff (self : BitStream SIZE USE_LITTLE) :
    self.ShowsStream ↔ self.nbits_ = 0 ∨ self.EndsWithinByte := by
  constructor
  · intro shows_
    by_cases empty : self.nbits_ = 0
    · exact Or.inl empty
    · exact Or.inr (endsWithinByte_of_showsStream empty shows_)
  · intro condition
    rcases condition with empty | ends
    · have small : self.nbits_ + 8 < 2 ^ 31 := by
        rw [empty]
        decide
      refine ⟨['\n'], ?_, ?_⟩
      · rw [dump, size_eq small, empty]
        rfl
      · rw [empty]
        rfl
    · exact showsStream_of_endsWithinByte ends

/-- A stream of one whole byte. -/
theorem not_showsStream :
    ∃ after : BitStream 1 false,
      (new #v[0] : BitStream 1 false).write 0xab 8 = some after ∧ ¬after.ShowsStream := by
  obtain ⟨after, written, moved, grown, others⟩ :=
    @write_spec 1 false 0xab 8 0 (new #v[0]) rfl (by decide) (by decide) (by decide)
  refine ⟨after, written, ?_⟩
  intro shows_
  have eight : after.nbits_ = 8 := grown
  have ends := endsWithinByte_of_showsStream (by omega) shows_
  unfold EndsWithinByte at ends
  omega

end BitStream

end StdPrograms.Utils

import StdPrograms.Foundation.BitFields
import StdPrograms.Foundation.SignedInt

/-!
Contract: the bit stream of `bitstream.h`, in both bit orders.

Owns `write` and `read`, which cut a field at the bytes it touches, the place that each
bit of a field has in the stream, and what a field changes and gives back.

Does not own `dump` or the overloads for arrays, which write and read eight bits at a
time.
-/

namespace StdPrograms.Utils

open StdPrograms.Foundation

/-- The fields of a `BitStream<SIZE, USE_LITTLE>`. The number of bits starts at zero and
only grows. -/
structure BitStream (SIZE : Nat) (USE_LITTLE : Bool) where
  buffer_ : Vector (BitVec 8) SIZE
  nbits_ : Nat
  offset_ : Int
deriving DecidableEq, Repr

namespace BitStream

variable {SIZE : Nat} {USE_LITTLE : Bool}

/-- The constructor leaves the buffer as it is. -/
def new (buffer_ : Vector (BitVec 8) SIZE) : BitStream SIZE USE_LITTLE :=
  { buffer_ := buffer_, nbits_ := 0, offset_ := 0 }

/-- The product is a `size_t`, and the result an `int`. -/
def capacity (_ : BitStream SIZE USE_LITTLE) : Int :=
  (BitVec.ofNat 32 (SIZE * 8 % 2 ^ 64)).toInt

def current_byte (self : BitStream SIZE USE_LITTLE) : Int := self.offset_.tdiv 8

def current_used (self : BitStream SIZE USE_LITTLE) : Int := self.offset_.tmod 8

/-- A `size_t`, converted to `int`. -/
def seek (offset : Nat) (self : BitStream SIZE USE_LITTLE) : BitStream SIZE USE_LITTLE :=
  { self with offset_ := (BitVec.ofNat 32 offset).toInt }

/-- `nwrite` and `nread`: what is left of the byte, or of the field. -/
def piece (self : BitStream SIZE USE_LITTLE) (left : Nat) : Nat :=
  min (8 - self.current_used.toNat) left

theorem piece_pos (self : BitStream SIZE USE_LITTLE) {left : Nat} (positive : 0 < left) :
    0 < self.piece left := by
  have used : self.current_used < 8 := Int.tmod_lt_of_pos _ (by decide)
  unfold piece
  omega

/-- The value of one part, before it is moved to its place in the byte. -/
def part (USE_LITTLE : Bool) (n : BitVec 32) (bits i nwrite : Nat) : BitVec 32 :=
  if USE_LITTLE then n >>> (bits - i - nwrite) else n >>> i

/-- One turn of the loop of `write`. A byte outside of the buffer is undefined, as is a
negative shift, and so is an offset that overflows. -/
def writePart (value : BitVec 32) (idx used nwrite : Nat) (self : BitStream SIZE USE_LITTLE) :
    Option (BitStream SIZE USE_LITTLE) :=
  if inside : 0 ≤ self.offset_ ∧ idx < SIZE then
    have within := inside.2
    let byte := putInto self.buffer_[idx] used (used + nwrite) value
    (signed 32 (self.offset_ + nwrite)).map fun offset_ =>
      { self with buffer_ := self.buffer_.set idx byte, offset_ := offset_ }
  else none

def writeLoop (n : BitVec 32) (bits i : Nat) (self : BitStream SIZE USE_LITTLE) :
    Option (BitStream SIZE USE_LITTLE) :=
  if i < bits then
    let idx := self.current_byte.toNat
    let used := self.current_used.toNat
    let nwrite := self.piece (bits - i)
    (writePart (part USE_LITTLE n bits i nwrite) idx used nwrite self).bind fun next =>
      writeLoop n bits (i + nwrite) next
  else some self
termination_by bits - i
decreasing_by
  have positive := self.piece_pos (Nat.sub_pos_of_lt ‹i < bits›)
  change bits - (i + self.piece (bits - i)) < bits - i
  omega

/-- The shift that makes the mask is undefined from 31 bits on. -/
def write (n : BitVec 32) (bits : Nat) (self : BitStream SIZE USE_LITTLE) :
    Option (BitStream SIZE USE_LITTLE) :=
  if bits ≤ 30 then
    (writeLoop (n &&& (1#32 <<< bits - 1#32)) bits 0 self).map fun self =>
      if (self.nbits_ : Int) < self.offset_ then { self with nbits_ := self.offset_.toNat }
      else self
  else none

/-- One turn of the loop of `read`; a shift by the whole width is undefined. -/
def readPart (i idx used nread : Nat) (n : BitVec 32) (self : BitStream SIZE USE_LITTLE) :
    Option (BitVec 32 × BitStream SIZE USE_LITTLE) :=
  if inside : 0 ≤ self.offset_ ∧ idx < SIZE then
    have within := inside.2
    let value := takeFrom self.buffer_[idx] used (used + nread)
    if USE_LITTLE ∨ i < 32 then
      (signed 32 (self.offset_ + nread)).map fun offset_ =>
        (if USE_LITTLE then (n <<< nread) ||| value else n ||| (value <<< i),
          { self with offset_ := offset_ })
    else none
  else none

def readLoop (bits i : Nat) (n : BitVec 32) (self : BitStream SIZE USE_LITTLE) :
    Option (BitVec 32 × BitStream SIZE USE_LITTLE) :=
  if i < bits then
    let idx := self.current_byte.toNat
    let used := self.current_used.toNat
    let nread := self.piece (bits - i)
    (readPart i idx used nread n self).bind fun next =>
      readLoop bits (i + nread) next.1 next.2
  else some (n, self)
termination_by bits - i
decreasing_by
  have positive := self.piece_pos (Nat.sub_pos_of_lt ‹i < bits›)
  change bits - (i + self.piece (bits - i)) < bits - i
  omega

/-- The result is an `int`. -/
def read (bits : Nat) (self : BitStream SIZE USE_LITTLE) :
    Option (Int × BitStream SIZE USE_LITTLE) :=
  (readLoop bits 0 0 self).map fun (n, self) => (n.toInt, self)

/-! ### Where the bits of a field are -/

/-- The bit of a field that stands so far behind its first position. From the top the
field is cut at the bytes, and each part keeps the order of its bits. -/
def place (USE_LITTLE : Bool) (position width behind : Nat) : Nat :=
  if USE_LITTLE then
    width - min width (behind + (8 - (position + behind) % 8)) +
      min behind ((position + behind) % 8)
  else behind

theorem place_lt {position width behind : Nat} (inside : behind < width) :
    place USE_LITTLE position width behind < width := by
  unfold place
  split <;> omega

/-- The bits of one part, from the place where it begins. -/
theorem place_piece {position width i behind : Nat}
    (aligned : i = 0 ∨ (position + i) % 8 = 0) (started : i < width)
    (inside : behind < min (8 - (position + i) % 8) (width - i)) :
    place true position width (i + behind) =
      width - i - min (8 - (position + i) % 8) (width - i) + behind := by
  have used : (position + i) % 8 < 8 := Nat.mod_lt _ (by decide)
  have inByte : (position + (i + behind)) % 8 = (position + i) % 8 + behind := by
    rw [← Nat.add_assoc, Nat.add_mod, Nat.mod_eq_of_lt (show behind < 8 by omega)]
    exact Nat.mod_eq_of_lt (by omega)
  have fromStart : min (i + behind) ((position + i) % 8 + behind) = behind := by
    cases aligned with
    | inl first => omega
    | inr atByte => omega
  rw [place, if_pos rfl, inByte, fromStart]
  omega

/-- The field stands at the position. -/
def Stored (self : BitStream SIZE USE_LITTLE) (position width : Nat) (n : BitVec 32) : Prop :=
  ∀ behind < width, bitAt self.buffer_ (position + behind) =
    n.getLsbD (place USE_LITTLE position width behind)

theorem stored_seek {self : BitStream SIZE USE_LITTLE} {position width : Nat} {n : BitVec 32}
    (stored : self.Stored position width n) (offset : Nat) :
    (self.seek offset).Stored position width n := by
  exact stored

theorem current_byte_eq {self : BitStream SIZE USE_LITTLE} {position : Nat}
    (here : self.offset_ = position) : self.current_byte.toNat = position / 8 := by
  rw [current_byte, here]
  rfl

theorem current_used_eq {self : BitStream SIZE USE_LITTLE} {position : Nat}
    (here : self.offset_ = position) : self.current_used.toNat = position % 8 := by
  rw [current_used, here]
  rfl

theorem piece_eq {self : BitStream SIZE USE_LITTLE} {position : Nat}
    (here : self.offset_ = position) (left : Nat) :
    self.piece left = min (8 - position % 8) left := by
  rw [piece, current_used_eq here]

theorem inSigned_natCast {offset : Nat} (small : offset < 2 ^ 31) :
    InSigned 32 (offset : Int) := by
  unfold InSigned
  omega

/-! ### Writing -/

/-- What is left of the byte, or of the field. -/
def count (position bits i : Nat) : Nat := min (8 - (position + i) % 8) (bits - i)

theorem getLsbD_part {n : BitVec 32} {position bits i behind : Nat}
    (aligned : i = 0 ∨ (position + i) % 8 = 0) (started : i < bits)
    (inside : behind < count position bits i) :
    (part USE_LITTLE n bits i (count position bits i)).getLsbD behind =
      n.getLsbD (place USE_LITTLE position bits (i + behind)) := by
  cases USE_LITTLE with
  | true =>
      rw [place_piece aligned started inside, part, if_pos rfl, BitVec.getLsbD_ushiftRight]
      rfl
  | false => simp [part, place]

/-- One turn of the loop: the part stands behind those before it, and nothing else
changes. -/
theorem writePart_spec {n : BitVec 32} {position bits i : Nat}
    {self : BitStream SIZE USE_LITTLE} (here : self.offset_ = (position + i : Nat))
    (aligned : i = 0 ∨ (position + i) % 8 = 0) (started : i < bits)
    (room : position + bits ≤ 8 * SIZE) (small : position + bits < 2 ^ 31) :
    ∃ next : BitStream SIZE USE_LITTLE,
      writePart (part USE_LITTLE n bits i (count position bits i)) ((position + i) / 8)
        ((position + i) % 8) (count position bits i) self = some next ∧
      next.offset_ = (position + (i + count position bits i) : Nat) ∧
      next.nbits_ = self.nbits_ ∧
      ∀ index, bitAt next.buffer_ index =
        if position + i ≤ index ∧ index < position + (i + count position bits i) then
          n.getLsbD (place USE_LITTLE position bits (index - position))
        else bitAt self.buffer_ index := by
  have cut : count position bits i = min (8 - (position + i) % 8) (bits - i) := rfl
  have within : (position + i) / 8 < SIZE := by omega
  have inside : 0 ≤ self.offset_ ∧ (position + i) / 8 < SIZE := by
    rw [here]
    exact ⟨Int.natCast_nonneg _, within⟩
  have added : signed 32 (self.offset_ + (count position bits i : Nat)) =
      some ((position + (i + count position bits i) : Nat) : Int) := by
    rw [here, ← Int.natCast_add, Nat.add_assoc]
    apply signed_of_inSigned
    apply inSigned_natCast
    omega
  rw [writePart, dif_pos inside, added]
  refine ⟨_, rfl, rfl, rfl, ?_⟩
  intro index
  have changed := bitAt_set_putInto self.buffer_ within
    (Nat.le_add_right ((position + i) % 8) (count position bits i)) (by omega)
    (part USE_LITTLE n bits i (count position bits i)) index
  rw [changed]
  have start : 8 * ((position + i) / 8) + (position + i) % 8 = position + i := by omega
  rw [← Nat.add_assoc, start, Nat.add_assoc]
  split
  next written =>
    have behind : index - position = i + (index - (position + i)) := by omega
    rw [getLsbD_part aligned started (by omega), behind]
  next => rfl

/-- Behind a part the next one begins at a byte, unless the field ends there. -/
theorem count_spec (position : Nat) {bits i : Nat} (started : i < bits) :
    0 < count position bits i ∧ i + count position bits i ≤ bits ∧
      (i + count position bits i < bits → (position + (i + count position bits i)) % 8 = 0) := by
  unfold count
  omega

theorem writeLoop_part {n : BitVec 32} {bits i position : Nat}
    {self next : BitStream SIZE USE_LITTLE} (here : self.offset_ = (position + i : Nat))
    (started : i < bits)
    (written : writePart (part USE_LITTLE n bits i (count position bits i)) ((position + i) / 8)
      ((position + i) % 8) (count position bits i) self = some next) :
    writeLoop n bits i self = writeLoop n bits (i + count position bits i) next := by
  have cut : self.piece (bits - i) = count position bits i := piece_eq here (bits - i)
  rw [writeLoop, if_pos started]
  simp only [current_byte_eq here, current_used_eq here, cut, written, Option.bind_some]

/-- The whole loop puts the rest of the field behind the part that is written. -/
theorem writeLoop_spec {n : BitVec 32} {bits i position : Nat}
    {self : BitStream SIZE USE_LITTLE} (here : self.offset_ = (position + i : Nat))
    (aligned : i < bits → i = 0 ∨ (position + i) % 8 = 0) (begun : i ≤ bits)
    (room : position + bits ≤ 8 * SIZE) (small : position + bits < 2 ^ 31) :
    ∃ after : BitStream SIZE USE_LITTLE,
      writeLoop n bits i self = some after ∧
      after.offset_ = (position + bits : Nat) ∧
      after.nbits_ = self.nbits_ ∧
      ∀ index, bitAt after.buffer_ index =
        if position + i ≤ index ∧ index < position + bits then
          n.getLsbD (place USE_LITTLE position bits (index - position))
        else bitAt self.buffer_ index := by
  induction left : bits - i using Nat.strongRecOn generalizing i self with
  | ind left inductionHypothesis =>
      subst left
      by_cases started : i < bits
      · obtain ⟨next, written, nextHere, nextBits, nextBuffer⟩ :=
          writePart_spec here (aligned started) started room small
        obtain ⟨positive, within, boundary⟩ := count_spec position started
        have fewer : bits - (i + count position bits i) < bits - i := by omega
        obtain ⟨after, looped, afterHere, afterBits, afterBuffer⟩ :=
          inductionHypothesis _ fewer nextHere (fun later => Or.inr (boundary later)) within rfl
        refine ⟨after, ?_, afterHere, afterBits.trans nextBits, ?_⟩
        · rw [writeLoop_part here started written]
          exact looped
        · intro index
          rw [afterBuffer, nextBuffer]
          by_cases late : position + (i + count position bits i) ≤ index
          · have notEarly : ¬index < position + (i + count position bits i) := by omega
            have early : position + i ≤ index := by omega
            simp only [late, notEarly, early, true_and, and_false, if_false]
          · have early : index < position + (i + count position bits i) := by omega
            have ends : index < position + bits := by omega
            simp only [late, early, ends, and_true, if_false]
      · have finished : i = bits := by omega
        subst finished
        refine ⟨self, ?_, here, rfl, ?_⟩
        · rw [writeLoop, if_neg (Nat.lt_irrefl i)]
        · intro index
          have nothing : ¬(position + i ≤ index ∧ index < position + i) := by omega
          rw [if_neg nothing]

/-- `write` puts the field at the offset and moves behind it. -/
theorem write_spec {n : BitVec 32} {bits position : Nat} {self : BitStream SIZE USE_LITTLE}
    (here : self.offset_ = position) (narrow : bits ≤ 30)
    (room : position + bits ≤ 8 * SIZE) (small : position + bits < 2 ^ 31) :
    ∃ after : BitStream SIZE USE_LITTLE,
      self.write n bits = some after ∧
      after.offset_ = (position + bits : Nat) ∧
      after.nbits_ = max self.nbits_ (position + bits) ∧
      after.Stored position bits n ∧
      ∀ index, ¬(position ≤ index ∧ index < position + bits) →
        bitAt after.buffer_ index = bitAt self.buffer_ index := by
  obtain ⟨after, looped, afterHere, afterBits, afterBuffer⟩ :=
    @writeLoop_spec SIZE USE_LITTLE (n &&& (1#32 <<< bits - 1#32)) bits 0 position self here
      (fun _ => Or.inl rfl) (Nat.zero_le bits) room small
  have grown : ∃ grown : BitStream SIZE USE_LITTLE, self.write n bits = some grown ∧
      grown.buffer_ = after.buffer_ ∧ grown.offset_ = after.offset_ ∧
      grown.nbits_ = max self.nbits_ (position + bits) := by
    rw [write, if_pos narrow, looped, Option.map_some]
    split
    next longer =>
      refine ⟨_, rfl, rfl, rfl, ?_⟩
      rw [afterHere, afterBits] at longer
      change after.offset_.toNat = _
      omega
    next shorter =>
      refine ⟨_, rfl, rfl, rfl, ?_⟩
      rw [afterHere, afterBits] at shorter
      omega
  obtain ⟨final, written, sameBuffer, sameOffset, finalBits⟩ := grown
  refine ⟨final, written, sameOffset.trans afterHere, finalBits, ?_, ?_⟩
  · intro behind inside
    have within : position + 0 ≤ position + behind ∧ position + behind < position + bits := by
      omega
    have low : place USE_LITTLE position bits behind < bits := place_lt inside
    rw [sameBuffer, afterBuffer, if_pos within, Nat.add_sub_cancel_left,
      getLsbD_and_mask n (by omega), decide_eq_true low, Bool.and_true]
  · intro index outside
    rw [sameBuffer, afterBuffer]
    exact if_neg outside

/-! ### Reading -/

/-- What is read of a number after so many of its bits. -/
def sofar (USE_LITTLE : Bool) (n : BitVec 32) (bits i : Nat) : BitVec 32 :=
  if USE_LITTLE then n >>> (bits - i) else n &&& (1#32 <<< i - 1#32)

/-- The part of the stream that is read next, and the number so far with it. -/
theorem sofar_step {n value : BitVec 32} {position bits i : Nat}
    (aligned : i = 0 ∨ (position + i) % 8 = 0) (started : i < bits) (narrow : bits ≤ 30)
    (taken : ∀ index, value.getLsbD index =
      (decide (index < count position bits i) &&
        n.getLsbD (place USE_LITTLE position bits (i + index)))) :
    (if USE_LITTLE then (sofar USE_LITTLE n bits i <<< count position bits i) ||| value
      else sofar USE_LITTLE n bits i ||| (value <<< i)) =
      sofar USE_LITTLE n bits (i + count position bits i) := by
  obtain ⟨positive, within, boundary⟩ := count_spec position started
  apply BitVec.eq_of_getLsbD_eq
  intro index inside
  cases USE_LITTLE with
  | true =>
      simp only [sofar, if_true, BitVec.getLsbD_or, BitVec.getLsbD_shiftLeft,
        BitVec.getLsbD_ushiftRight, taken, inside, decide_true, Bool.true_and]
      by_cases low : index < count position bits i
      · have here := place_piece aligned started low
        change _ = bits - i - count position bits i + index at here
        rw [here, ← Nat.sub_sub]
        simp only [low, decide_true, Bool.not_true, Bool.false_and, Bool.false_or, Bool.true_and]
      · have further : bits - i + (index - count position bits i) =
            bits - (i + count position bits i) + index := by omega
        rw [further]
        simp only [low, decide_false, Bool.not_false, Bool.true_and, Bool.false_and,
          Bool.or_false]
  | false =>
      simp only [sofar, Bool.false_eq_true, if_false, BitVec.getLsbD_or,
        BitVec.getLsbD_shiftLeft, taken, inside, decide_true, Bool.true_and, place]
      rw [getLsbD_and_mask n (by omega), getLsbD_and_mask n (by omega)]
      by_cases low : index < i
      · have before : index < i + count position bits i := by omega
        simp only [low, before, decide_true, Bool.and_true, Bool.not_true, Bool.false_and,
          Bool.or_false]
      · have here : i + (index - i) = index := by omega
        have same : decide (index - i < count position bits i) =
            decide (index < i + count position bits i) :=
          decide_eq_decide.mpr (by omega)
        rw [here, same]
        simp only [low, decide_false, Bool.and_false, Bool.not_false, Bool.true_and,
          Bool.false_or]
        exact Bool.and_comm _ _

/-- One turn of the loop reads the next part of a field that stands there. -/
theorem readPart_spec {n : BitVec 32} {position bits i : Nat}
    {self : BitStream SIZE USE_LITTLE} (here : self.offset_ = (position + i : Nat))
    (aligned : i = 0 ∨ (position + i) % 8 = 0) (started : i < bits) (narrow : bits ≤ 30)
    (room : position + bits ≤ 8 * SIZE) (small : position + bits < 2 ^ 31)
    (stored : self.Stored position bits n) :
    readPart i ((position + i) / 8) ((position + i) % 8) (count position bits i)
        (sofar USE_LITTLE n bits i) self =
      some (sofar USE_LITTLE n bits (i + count position bits i),
        { self with offset_ := (position + (i + count position bits i) : Nat) }) := by
  have cut : count position bits i = min (8 - (position + i) % 8) (bits - i) := rfl
  have within : (position + i) / 8 < SIZE := by omega
  have inside : 0 ≤ self.offset_ ∧ (position + i) / 8 < SIZE := by
    rw [here]
    exact ⟨Int.natCast_nonneg _, within⟩
  have added : signed 32 (self.offset_ + (count position bits i : Nat)) =
      some ((position + (i + count position bits i) : Nat) : Int) := by
    rw [here, ← Int.natCast_add, Nat.add_assoc]
    apply signed_of_inSigned
    apply inSigned_natCast
    omega
  have defined : USE_LITTLE = true ∨ i < 32 := by
    right
    omega
  rw [readPart, dif_pos inside, if_pos defined, added, Option.map_some]
  rw [sofar_step aligned started narrow]
  intro index
  rw [getLsbD_takeFrom _ (Nat.le_add_right _ _) (by omega), Nat.add_sub_cancel_left]
  by_cases low : index < count position bits i
  · have bit := stored (i + index) (by omega)
    have place : position + (i + index) - 8 * ((position + i) / 8) =
        (position + i) % 8 + index := by omega
    rw [bitAt_eq self.buffer_ within (by omega) (by omega), place] at bit
    rw [bit]
  · rw [decide_eq_false low, Bool.false_and, Bool.false_and]

/-- The whole loop reads the rest of the field. -/
theorem readLoop_spec {n : BitVec 32} {position bits i : Nat}
    {self : BitStream SIZE USE_LITTLE} (here : self.offset_ = (position + i : Nat))
    (aligned : i < bits → i = 0 ∨ (position + i) % 8 = 0) (begun : i ≤ bits)
    (narrow : bits ≤ 30) (room : position + bits ≤ 8 * SIZE) (small : position + bits < 2 ^ 31)
    (stored : self.Stored position bits n) :
    readLoop bits i (sofar USE_LITTLE n bits i) self =
      some (sofar USE_LITTLE n bits bits,
        { self with offset_ := (position + bits : Nat) }) := by
  induction left : bits - i using Nat.strongRecOn generalizing i self with
  | ind left inductionHypothesis =>
      subst left
      by_cases started : i < bits
      · obtain ⟨positive, within, boundary⟩ := count_spec position started
        have cut : self.piece (bits - i) = count position bits i := piece_eq here (bits - i)
        have fewer : bits - (i + count position bits i) < bits - i := by omega
        rw [readLoop, if_pos started]
        simp only [current_byte_eq here, current_used_eq here, cut, Option.bind_some,
          readPart_spec here (aligned started) started narrow room small stored]
        exact inductionHypothesis _ fewer rfl (fun later => Or.inr (boundary later)) within
          stored rfl
      · have finished : i = bits := by omega
        subst finished
        rw [readLoop, if_neg (Nat.lt_irrefl i), ← here]

/-- `read` gives a field back and moves behind it. -/
theorem read_spec {n : BitVec 32} {bits position : Nat} {self : BitStream SIZE USE_LITTLE}
    (here : self.offset_ = position) (narrow : bits ≤ 30)
    (room : position + bits ≤ 8 * SIZE) (small : position + bits < 2 ^ 31)
    (stored : self.Stored position bits n) :
    self.read bits =
      some (((n.toNat % 2 ^ bits : Nat) : Int),
        { self with offset_ := (position + bits : Nat) }) := by
  have value := toNat_and_mask n (show bits < 32 by omega)
  have below : n.toNat % 2 ^ bits < 2 ^ bits := Nat.mod_lt _ (Nat.two_pow_pos bits)
  generalize cut : n &&& (1#32 <<< bits - 1#32) = low at value
  have lowStored : self.Stored position bits low := by
    intro behind inside
    have bit : place USE_LITTLE position bits behind < bits := place_lt inside
    rw [stored behind inside, ← cut, getLsbD_and_mask n (by omega), decide_eq_true bit,
      Bool.and_true]
  have first : sofar USE_LITTLE low bits 0 = 0 := by
    apply BitVec.eq_of_toNat_eq
    cases USE_LITTLE with
    | true =>
        rw [sofar, if_pos rfl, BitVec.toNat_ushiftRight, Nat.shiftRight_eq_div_pow, value]
        exact Nat.div_eq_of_lt below
    | false =>
        rw [sofar, if_neg Bool.false_ne_true, toNat_and_mask low (by decide)]
        exact Nat.mod_one _
  have last : sofar USE_LITTLE low bits bits = low := by
    apply BitVec.eq_of_toNat_eq
    cases USE_LITTLE with
    | true =>
        rw [sofar, if_pos rfl, Nat.sub_self]
        rfl
    | false =>
        rw [sofar, if_neg Bool.false_ne_true, toNat_and_mask low (by omega), value]
        exact Nat.mod_mod _ _
  have looped := @readLoop_spec SIZE USE_LITTLE low position bits 0 self here
    (fun _ => Or.inl rfl) (Nat.zero_le bits) narrow room small lowStored
  have positive : low.toInt = (n.toNat % 2 ^ bits : Nat) := by
    have limit : 2 ^ bits ≤ 2 ^ 30 := Nat.pow_le_pow_right Nat.two_pos narrow
    rw [BitVec.toInt_eq_toNat_of_lt (by omega), value]
  rw [first, last] at looped
  rw [read, looped, Option.map_some, ← positive]

end BitStream

end StdPrograms.Utils

import StdPrograms.Ouou.Value

/-!
Contract: `util/stream.py`, the reader that every decoder pulls its bytes from.

Owns Python slices, `Reader`, the programs that run on it, and three facts
about their runs: a program that `consume` finishes does the same on a reader
with those bytes ahead; a reader over a payload and a reader over a buffer
around it agree while the first one stays inside the payload; and a run that
checks its fixed-width reads can only leave the payload through a text.

Does not own any attribute type or message.
-/

namespace StdPrograms.Ouou

open StdPrograms.Foundation

/-! ### Slices -/

/-- Where a slice bound falls in a sequence of `length` items. -/
def sliceBound (length : Nat) (bound : Int) : Nat :=
  if bound < 0 then (bound + length).toNat else min bound.toNat length

/-- `bytes[start:stop]`. -/
def slice (bytes : Bytes) (start stop : Int) : Bytes :=
  (bytes.take (sliceBound bytes.length stop)).drop (sliceBound bytes.length start)

theorem slice_of_nonnegative (bytes : Bytes) {start stop : Int}
    (startNonnegative : 0 ≤ start) (stopNonnegative : 0 ≤ stop) :
    slice bytes start stop = (bytes.take stop.toNat).drop start.toNat := by
  have startBound : sliceBound bytes.length start = min start.toNat bytes.length := by
    rw [sliceBound, if_neg (by omega)]
  have stopBound : sliceBound bytes.length stop = min stop.toNat bytes.length := by
    rw [sliceBound, if_neg (by omega)]
  rw [slice, startBound, stopBound, ← List.take_eq_take_min]
  by_cases inside : start.toNat ≤ bytes.length
  · rw [Nat.min_eq_left inside]
  · rw [List.drop_eq_nil_of_le (by simp only [List.length_take]; omega),
      List.drop_eq_nil_of_le (by simp only [List.length_take]; omega)]

/-- A slice of a buffer that starts after `front` is a slice of what follows. -/
theorem slice_append_front (front bytes : Bytes) {start stop : Int}
    (startNonnegative : 0 ≤ start) (stopNonnegative : 0 ≤ stop) :
    slice (front ++ bytes) (front.length + start) (front.length + stop) =
      slice bytes start stop := by
  rw [slice_of_nonnegative _ (by omega) (by omega),
    slice_of_nonnegative _ startNonnegative stopNonnegative]
  have stopSplit : ((front.length : Int) + stop).toNat = front.length + stop.toNat := by omega
  have startSplit : ((front.length : Int) + start).toNat = front.length + start.toNat := by
    omega
  rw [stopSplit, startSplit, List.take_length_add_append, List.drop_length_add_append]

/-- A slice that ends inside the first part does not see the second. -/
theorem slice_append_back (bytes back : Bytes) {start stop : Int}
    (startNonnegative : 0 ≤ start) (stopNonnegative : 0 ≤ stop)
    (inside : stop ≤ bytes.length ∨ back = []) :
    slice (bytes ++ back) start stop = slice bytes start stop := by
  rcases inside with inside | rfl
  · rw [slice_of_nonnegative _ startNonnegative stopNonnegative,
      slice_of_nonnegative _ startNonnegative stopNonnegative,
      List.take_append_of_le_length (by omega)]
  · rw [List.append_nil]

/-! ### Reader -/

/-- What a read is for. An integer checks that it got all its bytes; a text
takes what it gets. -/
inductive Extent where
  | fixed
  | text
deriving DecidableEq, Repr

abbrev Decoder := ReadProgram Extent PyError

structure Reader where
  buf : Bytes
  offset : Int

namespace Reader

def ofBytes (blob : Bytes) : Reader := ⟨blob, 0⟩

/-- `buf()`: the bytes from the offset on. -/
def unread (self : Reader) : Bytes :=
  slice self.buf self.offset self.buf.length

def available (self : Reader) : Int := self.buf.length - self.offset

def reset (_self : Reader) (buf : Bytes) : Reader := ⟨buf, 0⟩

def read_bytes (self : Reader) (size : Int) : Bytes × Reader :=
  (slice self.buf self.offset (self.offset + size),
    { self with offset := self.offset + size })

/-- Decode with this reader. -/
def decode {α : Type} (self : Reader) (program : Decoder α) :
    Except PyError (α × Reader) :=
  program.run read_bytes self

/-- The offsets the reader takes on while decoding, the first one included. -/
def offsets {α : Type} (self : Reader) (program : Decoder α) : List Int :=
  self.offset :: (program.requests read_bytes self).map
    fun request => request.state.offset + request.size

/-! ### Exact consumption -/

/-- The reader has `bytes` ahead of it, followed by `back`. -/
def Ahead (back : Bytes) (self : Reader) (bytes : Bytes) : Prop :=
  ∃ front, self.buf = front ++ (bytes ++ back) ∧ self.offset = front.length

theorem read_bytes_ahead {back : Bytes} (self : Reader) (bytes : Bytes) (size : Int)
    (ahead : Ahead back self bytes) (nonnegative : 0 ≤ size)
    (fits : size ≤ bytes.length) :
    (self.read_bytes size).1 = bytes.take size.toNat ∧
      Ahead back (self.read_bytes size).2 (bytes.drop size.toNat) := by
  obtain ⟨front, buffer, position⟩ := ahead
  constructor
  · have span : slice self.buf self.offset (self.offset + size) =
        slice (bytes ++ back) 0 size := by
      have shifted := slice_append_front front (bytes ++ back) (le_refl 0) nonnegative
      rw [buffer, position]
      simpa only [Int.add_zero] using shifted
    rw [read_bytes, span, slice_append_back _ _ (le_refl 0) nonnegative (.inl fits),
      slice_of_nonnegative _ (le_refl 0) nonnegative]
    rfl
  · refine ⟨front ++ bytes.take size.toNat, ?_, ?_⟩
    · simp only [read_bytes, buffer, List.append_assoc, List.take_append_drop,
        ← List.append_assoc (bytes.take size.toNat)]
    · simp only [read_bytes, position, List.length_append, List.length_take]
      omega

/-- A decoder that `consume` finishes on the bytes ahead does so on the reader. -/
theorem decode_of_consume {α : Type} {program : Decoder α} {back bytes rest : Bytes}
    {value : α} (self : Reader) (ahead : Ahead back self bytes)
    (returned : program.consume bytes = .returned value rest) :
    ∃ after, self.decode program = .ok (value, after) ∧ Ahead back after rest := by
  have follows := ReadProgram.run_follows_consume read_bytes
    (@read_bytes_ahead back) program ahead
  rw [returned] at follows
  exact follows

/-! ### A payload inside a buffer -/

/-- `other` stands in a buffer around the whole of this reader's buffer, at the
same place of it. -/
def Within (front back : Bytes) (self other : Reader) : Prop :=
  other.buf = front ++ (self.buf ++ back) ∧ other.offset = front.length + self.offset

/-- The read starts and ends inside the buffer; past the end is allowed where
nothing follows it. -/
def Inside (back : Bytes) (self : Reader) (size : Int) : Prop :=
  0 ≤ self.offset ∧ 0 ≤ self.offset + size ∧
    (self.offset + size ≤ self.buf.length ∨ back = [])

theorem read_bytes_within {front back : Bytes} (self other : Reader) (size : Int)
    (within : Within front back self other) (inside : Inside back self size) :
    (self.read_bytes size).1 = (other.read_bytes size).1 ∧
      Within front back (self.read_bytes size).2 (other.read_bytes size).2 := by
  obtain ⟨buffer, position⟩ := within
  obtain ⟨startNonnegative, stopNonnegative, stop⟩ := inside
  refine ⟨?_, buffer, ?_⟩
  · simp only [read_bytes]
    rw [buffer, position, Int.add_assoc,
      slice_append_front _ _ startNonnegative stopNonnegative,
      slice_append_back _ _ startNonnegative stopNonnegative stop]
  · simp only [read_bytes, position]
    omega

/-- While the reader over a payload stays inside it, a reader over a buffer
around the payload decodes the same. -/
theorem decode_within {α : Type} (program : Decoder α) {front back : Bytes}
    {self other : Reader} (within : Within front back self other)
    (inside : ∀ request ∈ program.requests read_bytes self,
      Inside back request.state request.size) :
    ReadProgram.SameResult (Within front back) (self.decode program)
      (other.decode program) :=
  ReadProgram.run_sameResult
    (fun state other size => read_bytes_within state other size) program within inside

/-! ### Leaving the payload -/

/-- The read moves forward and ends inside the buffer. -/
def Fits (self : Reader) (size : Int) : Prop :=
  0 ≤ size ∧ self.offset + size ≤ self.buf.length

instance (self : Reader) (size : Int) : Decidable (self.Fits size) := by
  unfold Fits
  infer_instance

/-- These offsets never decrease and never pass the end of the buffer. -/
def ConfinedTo (buf : Bytes) (offsets : List Int) : Prop :=
  offsets.Pairwise (· ≤ ·) ∧ ∀ offset ∈ offsets, offset ≤ buf.length

def Confined {α : Type} (self : Reader) (program : Decoder α) : Prop :=
  ConfinedTo self.buf (self.offsets program)

/-- Confinement, read by read. -/
theorem confined_iff_fits {α : Type} (program : Decoder α) (self : Reader)
    (startInside : self.offset ≤ self.buf.length) :
    self.Confined program ↔
      ∀ request ∈ program.requests read_bytes self, request.state.Fits request.size := by
  induction program generalizing self with
  | done value => simp [Confined, ConfinedTo, offsets, ReadProgram.requests, startInside]
  | fail error => simp [Confined, ConfinedTo, offsets, ReadProgram.requests, startInside]
  | read label size next inductionHypothesis =>
      have split : self.offsets (.read label size next) =
          self.offset :: (self.read_bytes size).2.offsets (next (self.read_bytes size).1) := rfl
      have sameBuf : (self.read_bytes size).2.buf = self.buf := rfl
      have nextOffset : (self.read_bytes size).2.offset = self.offset + size := rfl
      constructor
      · rintro ⟨ordered, bounded⟩
        rw [split, List.pairwise_cons] at ordered
        rw [split] at bounded
        have after : (self.read_bytes size).2.offset ≤ self.buf.length :=
          bounded _ (by simp [offsets])
        have forward := ordered.1 (self.read_bytes size).2.offset (by simp [offsets])
        intro request member
        simp only [ReadProgram.requests, List.mem_cons] at member
        rcases member with rfl | member
        · exact ⟨by show 0 ≤ size; omega, by simpa only [← nextOffset] using after⟩
        · refine (inductionHypothesis _ (self.read_bytes size).2 after).mp
            ⟨ordered.2, ?_⟩ request member
          intro offset offsetMember
          exact bounded offset (List.mem_cons_of_mem _ offsetMember)
      · intro fits
        have first : self.Fits size := fits ⟨label, self, size⟩ (by simp [ReadProgram.requests])
        have after : (self.read_bytes size).2.offset ≤ (self.read_bytes size).2.buf.length :=
          first.2
        obtain ⟨ordered, bounded⟩ :=
          (inductionHypothesis (self.read_bytes size).1 (self.read_bytes size).2 after).mpr
            fun request member => fits request (List.mem_cons_of_mem _ member)
        constructor
        · rw [split, List.pairwise_cons]
          refine ⟨fun offset member => ?_, ordered⟩
          have fromNext : (self.read_bytes size).2.offset ≤ offset := by
            simp only [offsets, List.mem_cons] at member
            rcases member with rfl | member
            · exact le_refl _
            · exact (List.pairwise_cons.mp ordered).1 offset member
          have forward := first.1
          omega
        · rw [split]
          intro offset member
          rcases List.mem_cons.mp member with rfl | member
          · exact startInside
          · exact bounded offset member

/-- The reads that fit are the requests that the bytes ahead can satisfy. -/
theorem fits_iff_ahead {self : Reader} {bytes : Bytes} (ahead : Ahead [] self bytes) (size : Int) :
    self.Fits size ↔ 0 ≤ size ∧ size ≤ bytes.length := by
  obtain ⟨front, buffer, position⟩ := ahead
  have length : (self.buf.length : Int) = front.length + bytes.length := by
    rw [buffer]
    simp
  simp only [Fits, position, length]
  omega

/-- A request for more than there is gets a short answer. -/
theorem short_answer {self : Reader} {bytes : Bytes} (ahead : Ahead [] self bytes) {size : Int}
    (nonnegative : 0 ≤ size) (unfit : ¬ (0 ≤ size ∧ size ≤ bytes.length)) :
    ((self.read_bytes size).1.length : Int) < size := by
  obtain ⟨front, buffer, position⟩ := ahead
  rw [read_bytes, slice_of_nonnegative _ (by omega) (by omega), buffer, position]
  simp only [List.length_drop, List.length_take, List.length_append, List.length_nil]
  omega

/-- Every read fits exactly when `consume` meets no misfit. -/
theorem fits_iff_consume {α : Type} (program : Decoder α) {self : Reader} {bytes : Bytes}
    (ahead : Ahead [] self bytes) :
    (∀ request ∈ program.requests read_bytes self, request.state.Fits request.size) ↔
      ∀ label, program.consume bytes ≠ .misfit label := by
  induction program generalizing self bytes with
  | done value => simp [ReadProgram.requests, ReadProgram.consume]
  | fail error => simp [ReadProgram.requests, ReadProgram.consume]
  | read label size next inductionHypothesis =>
      rw [ReadProgram.consume, ReadProgram.requests, List.forall_mem_cons, fits_iff_ahead ahead]
      by_cases fits : 0 ≤ size ∧ size ≤ bytes.length
      · obtain ⟨answer, after⟩ := read_bytes_ahead self bytes size ahead fits.1 fits.2
        rw [if_pos fits, answer, inductionHypothesis _ after]
        exact and_iff_right fits
      · rw [if_neg fits]
        exact iff_of_false (fun all => fits all.1) fun never => never label rfl

/-- A run that returns, and whose fixed-width reads detect a short answer, has no
misfit at one of them. -/
theorem consume_not_fixed {α : Type} {program : Decoder α}
    (detects : program.Detects (· = .fixed)) {self : Reader} {bytes : Bytes}
    (ahead : Ahead [] self bytes) {result : α × Reader}
    (returned : self.decode program = .ok result) : program.consume bytes ≠ .misfit .fixed := by
  induction program generalizing self bytes with
  | done value => nofun
  | fail error => nofun
  | read label size next inductionHypothesis =>
      rw [ReadProgram.consume]
      by_cases fits : 0 ≤ size ∧ size ≤ bytes.length
      · obtain ⟨answer, after⟩ := read_bytes_ahead self bytes size ahead fits.1 fits.2
        rw [if_pos fits]
        refine inductionHypothesis _ (detects.2 _) after ?_
        rw [← answer]
        exact returned
      · rw [if_neg fits]
        rintro misfit
        cases misfit
        obtain ⟨nonnegative, short⟩ := detects.1 rfl
        obtain ⟨error, failed⟩ := short _ (short_answer ahead nonnegative fits)
        simp [decode, ReadProgram.run, failed] at returned

/-- A run that returns and checks its fixed-width reads is confined exactly when
no text in it declares a length that does not fit. -/
theorem confined_iff_consume {α : Type} {program : Decoder α}
    (detects : program.Detects (· = .fixed)) {self : Reader} {bytes : Bytes}
    (ahead : Ahead [] self bytes) {result : α × Reader}
    (returned : self.decode program = .ok result) :
    self.Confined program ↔ program.consume bytes ≠ .misfit .text := by
  have startInside : self.offset ≤ self.buf.length := by
    obtain ⟨front, buffer, position⟩ := ahead
    rw [buffer, position]
    simp
  rw [confined_iff_fits program self startInside, fits_iff_consume program ahead]
  constructor
  · exact fun never => never .text
  · intro notText label
    cases label with
    | fixed => exact consume_not_fixed detects ahead returned
    | text => exact notText

end Reader

end StdPrograms.Ouou

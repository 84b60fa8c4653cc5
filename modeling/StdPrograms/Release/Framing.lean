import StdPrograms.Release.Packet

/-!
Contract: the bytes of a packet, as `wind` leaves them and `append` takes them.

Owns framed byte sequences, whose header announces the data behind it, the proof
that a wound packet is one, and what one call of `append` copies of a buffer that
starts with the rest of a framed packet.

Does not own the loop around `append`.
-/

namespace StdPrograms.Release

open StdPrograms.Foundation

/-- The length that the header announces, as far as the header is there. -/
def announced (bytes : Bytes) : Nat := ofLittleEndian ((bytes.drop 4).take 2)

/-- A header and as many data bytes as it announces, of at most the packet size. -/
structure Framed (bytes : Bytes) : Prop where
  announces : bytes.length = kHdrLen + announced bytes
  bounded : bytes.length ≤ PACKET_SIZE

theorem announced_append {front : Bytes} (back : Bytes) (whole : kHdrLen ≤ front.length) :
    announced (front ++ back) = announced front := by
  have six : 6 ≤ front.length := Nat.le_trans (by decide) whole
  rw [announced, announced, List.drop_append_of_le_length (by omega),
    List.take_append_of_le_length (by rw [List.length_drop]; omega)]

/-- Where one of two lists is a prefix of the other, their beginnings agree. -/
theorem take_eq_take_of_agrees {left right : Bytes} (agrees : left <+: right ∨ right <+: left)
    {count : Nat} (inLeft : count ≤ left.length) (inRight : count ≤ right.length) :
    left.take count = right.take count := by
  rcases agrees with ⟨more, rfl⟩ | ⟨more, rfl⟩
  · rw [List.take_append_of_le_length inLeft]
  · rw [List.take_append_of_le_length inRight]

/-! ### Wound packets -/

namespace OPacket

theorem getBuf_length (self : OPacket) : self.getBuf.length = self.len :=
  Memory.load_length _ _ _

/-- `wind` writes the length into the header and nothing else. -/
theorem wind_getBuf (self : OPacket) (whole : kHdrLen ≤ self.len) :
    self.wind.getBuf = self.getBuf.take 4 ++
      (toLittleEndian 2 self.getDataSize ++ self.getBuf.drop 6) := by
  have split : self.len = 4 + ((toLittleEndian 2 self.getDataSize).length + (self.len - 6)) := by
    rw [toLittleEndian_length, show kHdrLen = 12 from rfl] at *
    omega
  have stored := self.buf.load_store_inside 0 4 (toLittleEndian 2 self.getDataSize) (self.len - 6)
  rw [← split, toLittleEndian_length] at stored
  rwa [Nat.zero_add] at stored

theorem wind_framed (self : OPacket) (whole : kHdrLen ≤ self.len)
    (bounded : self.len ≤ PACKET_SIZE) : Framed self.wind.getBuf := by
  have length : self.wind.getBuf.length = self.len := self.wind.getBuf_length
  refine ⟨?_, by rwa [length]⟩
  have front : (self.getBuf.take 4).length = 4 := by
    have : 12 ≤ self.len := whole
    rw [List.length_take, getBuf_length]
    omega
  have size : self.getDataSize = self.len - kHdrLen := by
    unfold getDataSize
    split <;> omega
  have small : self.getDataSize < modulus 2 := by
    have limit : PACKET_SIZE < modulus 2 := by decide
    omega
  rw [length, announced, wind_getBuf self whole, List.drop_left' front,
    List.take_left' (toLittleEndian_length _ _), ofLittleEndian_toLittleEndian,
    Nat.mod_eq_of_lt small, size]
  omega

/-- At the end of a packet, a write appends. -/
theorem put_getBuf (self : OPacket) (bytes : Bytes) (atEnd : self.pos = self.len)
    (small : self.pos + bytes.length < 0x10000) :
    (self.put bytes).getBuf = self.getBuf ++ bytes ∧
      (self.put bytes).pos = self.pos + bytes.length ∧
      (self.put bytes).len = self.pos + bytes.length := by
  obtain ⟨pos, len⟩ := put_positions small
  have end_ : (self.put bytes).len = self.len + bytes.length := by omega
  refine ⟨?_, pos, by omega⟩
  have stored := self.buf.load_store_append 0 self.len bytes
  rw [Nat.zero_add, ← atEnd] at stored
  rw [getBuf, end_, getBuf, ← atEnd]
  exact stored

end OPacket

/-! ### Receiving -/

namespace IPacket

theorem pktLen_eq (self : IPacket) : self.pktLen = announced self.received := rfl

/-- `append` copies from the front of its buffer, or throws. -/
theorem append_copies {self after : IPacket} {buf : Bytes} {copied : Nat}
    (appended : self.append buf = .ok (after, copied)) :
    after = { self with received := self.received ++ buf.take copied } ∧
      copied ≤ buf.length := by
  have part : self.headerPart buf.length ≤ buf.length := by
    unfold headerPart
    split <;> omega
  unfold append at appended
  dsimp only at appended
  split at appended
  next =>
    split at appended
    next => contradiction
    next =>
      obtain ⟨rfl, rfl⟩ := Prod.mk.inj (Except.ok.inj appended)
      refine ⟨?_, by omega⟩
      rw [List.take_add, List.append_assoc]
  next =>
    obtain ⟨rfl, rfl⟩ := Prod.mk.inj (Except.ok.inj appended)
    exact ⟨rfl, part⟩

/-- The rest of a framed packet, or a part of it, is copied and nothing more,
provided that the header is not yet behind or the buffer holds no more than the
rest. -/
theorem append_framed {self : IPacket} {buf rest : Bytes}
    (framed : Framed (self.received ++ rest)) (agrees : buf <+: rest ∨ rest <+: buf)
    (bound : self.received.length ≤ kHdrLen ∨ buf.length ≤ rest.length) :
    self.append buf = .ok ({ self with
      received := self.received ++ buf.take (min buf.length rest.length) },
      min buf.length rest.length) := by
  obtain ⟨announces, bounded⟩ := framed
  rw [List.length_append] at announces bounded
  have part : self.headerPart buf.length =
      min buf.length (kHdrLen - self.received.length) := by
    unfold headerPart
    split <;> omega
  rw [append, part]
  dsimp only
  split
  next more =>
    have inRest : kHdrLen - self.received.length ≤ rest.length := by omega
    have copied : min buf.length (kHdrLen - self.received.length) =
        kHdrLen - self.received.length := by omega
    have beginning : buf.take (kHdrLen - self.received.length) =
        rest.take (kHdrLen - self.received.length) :=
      take_eq_take_of_agrees agrees (by omega) inRest
    have length : (self.received ++ rest.take (kHdrLen - self.received.length)).length =
        max kHdrLen self.received.length := by
      rw [List.length_append, List.length_take]
      omega
    have sameLength : announced (self.received ++
        rest.take (kHdrLen - self.received.length)) = announced (self.received ++ rest) := by
      conv_rhs => rw [← List.take_append_drop (kHdrLen - self.received.length) rest,
        ← List.append_assoc]
      exact (announced_append _ (by rw [length]; omega)).symm
    rw [copied, pktLen_eq]
    simp only [beginning, length, sameLength]
    have total : kHdrLen - self.received.length + min (buf.length - (kHdrLen - self.received.length))
        (announced (self.received ++ rest)) = min buf.length rest.length := by omega
    rw [if_neg (by omega), total, ← beginning, List.append_assoc, ← List.take_add, total]
  next all =>
    have whole : min buf.length (kHdrLen - self.received.length) = min buf.length rest.length := by
      omega
    rw [whole]

/-- A part of a framed packet is complete exactly when nothing is missing. -/
theorem is_complete_framed {received rest : Bytes} {pos : Nat}
    (framed : Framed (received ++ rest)) :
    IPacket.is_complete ⟨received, pos⟩ = true ↔ rest = [] := by
  have announces := framed.announces
  rw [List.length_append] at announces
  rw [is_complete, pktLen_eq, decide_eq_true_eq, ← List.length_eq_zero_iff]
  by_cases whole : kHdrLen ≤ received.length
  · rw [announced_append rest whole] at announces
    dsimp only
    omega
  · dsimp only
    omega

/-- A fresh packet that is not complete yet has taken the whole buffer. -/
theorem append_incomplete {after : IPacket} {buf : Bytes} {copied : Nat}
    (appended : reset.append buf = .ok (after, copied)) (incomplete : ¬ after.is_complete = true) :
    copied = buf.length := by
  obtain ⟨isCopy, inside⟩ := append_copies appended
  have part : reset.headerPart buf.length = min buf.length kHdrLen := rfl
  rw [append, part] at appended
  dsimp only at appended
  split at appended
  next more =>
    split at appended
    next => contradiction
    next =>
      obtain ⟨-, isCount⟩ := Prod.mk.inj (Except.ok.inj appended)
      by_contra notAll
      refine incomplete ?_
      have twelve : (buf.take kHdrLen).length = kHdrLen := by
        rw [List.length_take]
        omega
      have count : copied = kHdrLen + announced (buf.take kHdrLen) := by
        rw [Nat.min_eq_right (by omega), pktLen_eq] at isCount
        simp only [reset, List.nil_append] at isCount
        omega
      have received : after.received = buf.take kHdrLen ++
          (buf.drop kHdrLen).take (announced (buf.take kHdrLen)) := by
        rw [isCopy, ← List.take_add, ← count]
        rfl
      have length : after.received.length = copied := by
        rw [isCopy]
        simp only [reset, List.nil_append, List.length_take]
        omega
      rw [is_complete, pktLen_eq, decide_eq_true_eq, length, received,
        announced_append _ (by omega), count, Nat.add_comm]
  next all =>
    obtain ⟨-, isCount⟩ := Prod.mk.inj (Except.ok.inj appended)
    omega

/-- Behind the header, `append` copies as many bytes as the header announces,
however many of them have been received. -/
theorem append_behind_header {self after : IPacket} {buf : Bytes} {copied : Nat}
    (behind : kHdrLen ≤ self.received.length) (some : buf ≠ [])
    (appended : self.append buf = .ok (after, copied)) :
    copied = min buf.length self.pktLen := by
  have part : self.headerPart buf.length = 0 := if_neg (by omega)
  have positive := List.length_pos_iff.mpr some
  rw [append, part] at appended
  dsimp only at appended
  rw [if_pos positive, List.take_zero, List.append_nil] at appended
  split at appended
  next => contradiction
  next =>
    obtain ⟨-, isCount⟩ := Prod.mk.inj (Except.ok.inj appended)
    rw [← isCount]
    simp

/-- A fresh packet takes a framed one whole. -/
theorem append_whole {bytes : Bytes} (framed : Framed bytes) :
    reset.append bytes = .ok ({ received := bytes, pos := kHdrLen }, bytes.length) := by
  have agrees : bytes <+: bytes ∨ bytes <+: bytes := .inl (List.prefix_refl bytes)
  have appended := reset.append_framed framed agrees (.inl (Nat.zero_le kHdrLen))
  rw [Nat.min_self, List.take_length] at appended
  exact appended

end IPacket

end StdPrograms.Release

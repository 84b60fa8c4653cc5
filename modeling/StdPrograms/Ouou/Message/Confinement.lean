import StdPrograms.Ouou.Message.Registry

/-!
Contract: where the reader goes while `frombytes` decodes one payload.

Owns the offsets that the reader takes on, stretch by stretch, since `reset`
starts again in the decompressed buffer, and the exact condition under which
they stay inside the payload. Integers, vectors and arrays raise when their
bytes are missing; a text takes what is left and moves on by the length it
declares, which may be negative or past the end.

Does not own what is decoded.
-/

namespace StdPrograms.Ouou

open StdPrograms.Foundation

namespace Message

section Stretches

variable (package : Package)

/-- The offsets taken on while the attributes are read. -/
def attributeOffsets (reader : Reader) (header : Header) : List Int :=
  match package.get_owner_cls header with
  | .ok cls => if cls.multiple then [reader.offset] else reader.offsets cls.body
  | .error _ => [reader.offset]

/-- The offsets taken on during `fromstream`, with the buffer that they are in. -/
def stretches (reader : Reader) (header : Header) : List (Bytes × List Int) :=
  if header.msg_id = 0 ∨ header.payload_size = 0 then [(reader.buf, [reader.offset])]
  else if header.is_compressed then
    (reader.buf, reader.offsets compressedLengths) ::
      match decompressed package reader with
      | .ok reader => [(reader.buf, attributeOffsets package reader header)]
      | .error _ => []
  else [(reader.buf, attributeOffsets package reader header)]

/-- During `frombytes` the offset never decreases and never passes the end of the
payload, or of the decompressed payload. -/
def Confined (payload : Bytes) (header : Header) : Prop :=
  ∀ stretch ∈ stretches package (.ofBytes (untailed payload header.payload_size)) header,
    Reader.ConfinedTo stretch.1 stretch.2

/-- No text in the attributes declares a length that does not fit in what is left
of the payload, or of the decompressed payload. -/
def TextsFit (cls : MessageClass) (payload : Bytes) (header : Header) : Prop :=
  (header.msg_id = 0 ∨ header.payload_size = 0) ∨
    ∀ reader, payloadReader package (.ofBytes payload) header = .ok reader →
      cls.multiple = false → cls.body.consume reader.buf ≠ .misfit .text

end Stretches

variable {package : Package}

theorem compressedLengths_detects : compressedLengths.Detects (· = .fixed) :=
  (IntFormat.fromstream_detects _).bind fun _ =>
    (IntFormat.fromstream_detects _).bind fun _ => trivial

private theorem short_noText (bytes : Bytes) :
    Short.format.fromstream.consume bytes ≠ .misfit .text := by
  rw [IntFormat.fromstream, ReadProgram.consume]
  split
  · cases Short.format.frombytes _ with
    | error error =>
        intro misfit
        cases misfit
    | ok value =>
        intro misfit
        cases misfit
  · intro misfit
    cases misfit

theorem compressedLengths_noText (bytes : Bytes) :
    compressedLengths.consume bytes ≠ .misfit .text := by
  rw [compressedLengths, ReadProgram.consume_bind]
  split
  next orig_len rest _ =>
    rw [ReadProgram.consume_bind]
    split
    next =>
      intro misfit
      cases misfit
    next =>
      intro misfit
      cases misfit
    next label isMisfit =>
      intro misfit
      cases misfit
      exact short_noText _ isMisfit
  next =>
    intro misfit
    cases misfit
  next label isMisfit =>
    intro misfit
    cases misfit
    exact short_noText _ isMisfit

theorem ahead_whole (buf : Bytes) : (Reader.ofBytes buf).Ahead [] buf :=
  ⟨[], by simp [Reader.ofBytes], rfl⟩

/-- The attributes that a reader at the start of its buffer returns. -/
theorem attributes_confined_iff {reader after : Reader} {header : Header} {cls : MessageClass}
    {message : Message} (start : reader.offset = 0)
    (registered : package.get_owner_cls header = .ok cls)
    (parsed : cls._fromstream reader header = .ok (message, after)) :
    Reader.ConfinedTo reader.buf (attributeOffsets package reader header) ↔
      (cls.multiple = false → cls.body.consume reader.buf ≠ .misfit .text) := by
  rw [attributeOffsets, registered]
  by_cases multiple : cls.multiple = true
  · simp [multiple, start, Reader.ConfinedTo]
  · have plain : cls.multiple = false := by simpa using multiple
    rw [MessageClass._fromstream, if_neg multiple] at parsed
    obtain ⟨result, decoded, -⟩ := exceptBind_eq_ok.mp parsed
    have ahead : reader.Ahead [] reader.buf := ⟨[], by simp, start⟩
    simp only [plain, Bool.false_eq_true, if_false, true_implies]
    exact Reader.confined_iff_consume cls.body_detects ahead decoded

/-- The lengths in front of a compressed payload are read inside it, and the
attributes are read from the start of the decompressed one. -/
theorem decompressed_confined {payload : Bytes} {reader : Reader}
    (prepared : decompressed package (.ofBytes payload) = .ok reader) :
    reader.offset = 0 ∧
      Reader.ConfinedTo payload ((Reader.ofBytes payload).offsets compressedLengths) := by
  obtain ⟨⟨⟨orig_len, cmp_len⟩, after⟩, decoded, prepared⟩ := exceptBind_eq_ok.mp prepared
  refine ⟨?_, (Reader.confined_iff_consume compressedLengths_detects (ahead_whole payload)
    decoded).mpr (compressedLengths_noText payload)⟩
  dsimp only at prepared
  split at prepared
  next => contradiction
  next buf _ =>
    split at prepared
    · cases Except.ok.inj prepared
      rfl
    · contradiction

/-- A payload that decodes is left only through a text that does not fit. -/
theorem frombytes_confined_iff {cls : MessageClass} {header : Header} {payload : Bytes}
    {message : Message} (registered : package.get_owner_cls header = .ok cls)
    (size : payload.length = header.payload_size)
    (returned : frombytes package payload header = .ok message) :
    Confined package payload header ↔ TextsFit package cls payload header := by
  have whole : untailed payload header.payload_size = payload := by
    rw [untailed, if_neg (by simp [← size])]
  rw [frombytes, if_neg (by omega), whole] at returned
  obtain ⟨⟨message', after⟩, parsed, -⟩ := exceptBind_eq_ok.mp returned
  rw [Confined, whole, stretches, TextsFit]
  by_cases bare : header.msg_id = 0 ∨ header.payload_size = 0
  · simp [bare, Reader.ConfinedTo, Reader.ofBytes]
  · rw [fromstream, if_neg bare] at parsed
    obtain ⟨reader, prepared, parsed⟩ := exceptBind_eq_ok.mp parsed
    obtain ⟨cls', found, parsed⟩ := exceptBind_eq_ok.mp parsed
    cases Except.ok.inj (registered.symm.trans found)
    rw [if_neg bare, or_iff_right bare, prepared]
    by_cases compressed : header.is_compressed = true
    · rw [payloadReader, if_pos compressed] at prepared
      obtain ⟨start, lengths⟩ := decompressed_confined prepared
      have attributes := attributes_confined_iff start registered parsed
      rw [if_pos compressed, prepared]
      simp only [List.mem_cons, List.not_mem_nil, or_false, forall_eq_or_imp, forall_eq,
        Except.ok.injEq, forall_eq']
      exact (and_iff_right lengths).trans attributes
    · rw [payloadReader, if_neg compressed] at prepared
      cases Except.ok.inj prepared
      have attributes := attributes_confined_iff rfl registered parsed
      rw [if_neg compressed]
      simpa only [List.mem_singleton, forall_eq, Except.ok.injEq, forall_eq'] using attributes

/-- A client's request for the trading hours of the stock "A". -/
def tradingHoursHeader : Header := { msg_id := 5504, payload_size := 3, c2s := true }

theorem tradingHours_registered :
    (Ouou.package asciiHost).get_owner_cls tradingHoursHeader = .ok (Request_5504 asciiHost) := by
  have member : Request_5504 asciiHost ∈ requestClasses asciiHost := by simp [requestClasses]
  exact get_owner_cls_request member rfl rfl

/-- The declared length is the actual one. -/
theorem tradingHours_frombytes_confined_iff :
    Confined (Ouou.package asciiHost) [1, 0, 0x41] tradingHoursHeader ↔
      TextsFit (Ouou.package asciiHost) (Request_5504 asciiHost) [1, 0, 0x41]
        tradingHoursHeader :=
  have returned : ∃ message,
      frombytes (Ouou.package asciiHost) [1, 0, 0x41] tradingHoursHeader = .ok message := ⟨_, rfl⟩
  frombytes_confined_iff tradingHours_registered rfl returned.choose_spec

/-- A text of one byte that declares five: the reader ends at offset 7 of 3. -/
theorem tradingHours_leaves_payload :
    (∃ message, frombytes (Ouou.package asciiHost) [5, 0, 0x41] tradingHoursHeader =
      .ok message) ∧
    ([5, 0, 0x41] : Bytes).length = tradingHoursHeader.payload_size ∧
    ¬ Confined (Ouou.package asciiHost) [5, 0, 0x41] tradingHoursHeader := by
  refine ⟨⟨_, rfl⟩, rfl, fun confined => ?_⟩
  have beyond := (confined ([5, 0, 0x41], [0, 2, 7]) (by decide +kernel)).2 7 (by simp)
  simp at beyond

end Message

end StdPrograms.Ouou

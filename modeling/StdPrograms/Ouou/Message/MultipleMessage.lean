import StdPrograms.Ouou.Message.Registry

/-!
Contract: multi-messages, from `add_message` to the decoded frame.

Owns the building of a multi-message from a list of messages, what it means for
it to survive the wire, and the proof that it never does: the decoder passes the
multi-message as `owner` to `allfromstream`, which takes no such argument.

Does not own the sub-messages' own encodings.
-/

namespace StdPrograms.Ouou

open StdPrograms.Foundation

/-! ### Building -/

/-- The multi-message class of one side. -/
def multipleMessage (c2s : Bool) : MessageClass := if c2s then Request_5500 else Response_5500

section Building

variable (deepcopy : Message → Except PyError Message)

/-- `add_message` for each message in turn. -/
def Message.addMessages (self : Message) : List Message → Except PyError Message
  | [] => .ok self
  | m :: rest => do addMessages (← self.add_message deepcopy m) rest

/-- The messages come back from the frame as sub-messages, of the same classes and
with the same attributes. -/
def Message.MultipleSurvives (package : Package) (c2s : Bool) (messages : List Message) : Prop :=
  ∃ multi bytes decoded,
    ((multipleMessage c2s).new []).addMessages deepcopy messages = .ok multi ∧
    (multi.tobytes false).2 = .ok bytes ∧
    Message.allfrombytes package bytes c2s = .ok (some decoded) ∧
    List.Forall₂ (fun (result : PlainMessage) message => result.cls = message.cls ∧
      message.cls.SameAttributes result.attributes message.attributes)
      decoded.submessages messages

end Building

namespace Message

variable {deepcopy : Message → Except PyError Message} {package : Package}

theorem addMessages_eq_ok {self multi : Message} {messages : List Message}
    (added : self.addMessages deepcopy messages = .ok multi) :
    multi.toPlainMessage = self.toPlainMessage ∧ multi.owned = self.owned ∧
      multi.submessages.length = self.submessages.length + messages.length := by
  induction messages generalizing self with
  | nil =>
      cases Except.ok.inj added
      exact ⟨rfl, rfl, rfl⟩
  | cons m rest inductionHypothesis =>
      obtain ⟨first, addedFirst, added⟩ := exceptBind_eq_ok.mp added
      obtain ⟨samePlain, sameOwned, count⟩ := inductionHypothesis added
      obtain ⟨copy, -, result⟩ := exceptBind_eq_ok.mp addedFirst
      cases Except.ok.inj result
      refine ⟨samePlain, sameOwned, ?_⟩
      rw [count, List.length_append, List.length_singleton, List.length_cons]
      omega

/-- Every encoded sub-message holds a header. -/
theorem submessageBytes_length {cls_name : ClassName} {submessages : List PlainMessage}
    {number : Nat} {bytes : Bytes} (some : submessages ≠ [])
    (encoded : submessageBytes cls_name number submessages = .ok bytes) :
    Header.type_size ≤ bytes.length := by
  cases submessages with
  | nil => exact absurd rfl some
  | cons message rest =>
      rw [submessageBytes] at encoded
      split at encoded
      next => contradiction
      next b first =>
        obtain ⟨later, -, result⟩ := exceptBind_eq_ok.mp encoded
        cases Except.ok.inj result
        obtain ⟨body, -, first⟩ := exceptBind_eq_ok.mp first
        obtain ⟨header, hasHeader, first⟩ := exceptBind_eq_ok.mp first
        cases Except.ok.inj first
        have := Header.tobytes_length hasHeader
        simp only [List.length_append]
        omega

/-- A frame of a multi-message with a sub-message is never decoded. -/
theorem allfrombytes_multiple {self : Message} {c2s : Bool} {bytes : Bytes}
    (topLevel : self.owned = false) (multiple : self.cls.multiple = true)
    (noAssigns : self.cls.assigns = []) (named : self.header.msg_id ≠ 0)
    (uncompressed : (self.header.received c2s).is_compressed = false)
    (registered : package.get_owner_cls (self.header.received c2s) = .ok self.cls)
    (some : self.submessages ≠ []) (encoded : (self.tobytes false).2 = .ok bytes) :
    allfrombytes package bytes c2s = .error (.unexpectedKeyword "allfromstream" "owner") := by
  obtain ⟨body, header, hasBody, hasHeader, layout⟩ := tobytes_eq_ok encoded
  rw [assign_of_nil noAssigns, body2bytes, if_pos multiple] at hasBody
  have holdsHeader := submessageBytes_length some hasBody
  have headerSize := Header.tobytes_length hasHeader
  have whole : stripTail bytes = header ++ body := by
    rw [layout, topLevel, ← List.append_assoc]
    exact stripTail_tail _
  obtain ⟨after, decoded, front, buffer, position⟩ := decode_header c2s hasHeader body []
  rw [List.append_nil] at decoded
  have available : (Header.type_size : Int) ≤ after.available := by
    rw [Reader.available, buffer, position]
    simp only [List.length_append]
    omega
  have nonempty : ((self.sizedHeader body).received c2s).payload_size ≠ 0 := by
    show body.length ≠ 0
    have : 0 < Header.type_size := by decide
    omega
  have raised : fromstream package after ((self.sizedHeader body).received c2s) =
      .error (.unexpectedKeyword "allfromstream" "owner") := by
    have isNamed : ((self.sizedHeader body).received c2s).msg_id ≠ 0 := named
    rw [fromstream, if_neg (not_or.mpr ⟨isNamed, nonempty⟩), payloadReader]
    rw [show ((self.sizedHeader body).received c2s).is_compressed = false from uncompressed]
    show (package.get_owner_cls _ >>= _) = _
    rw [show package.get_owner_cls ((self.sizedHeader body).received c2s) = .ok self.cls
      from registered]
    show self.cls._fromstream _ _ = _
    rw [MessageClass._fromstream, if_pos multiple, if_pos available]
  rw [allfrombytes, whole, allfromstream, available_ofBytes,
    if_neg (by simp only [List.length_append, headerSize]; omega), decoded]
  show (if _ then _ else _) = _
  rw [if_neg (by simp [headerSize, Header.received, PlainMessage.sizedHeader]), raised]
  rfl

theorem multipleMessage_registered {host : Host} {c2s : Bool} {header : Header}
    (side : header.c2s = c2s) (notPush : header.is_push_msg = false)
    (id : header.msg_id = MSG_TYPE_MULTI) :
    (Ouou.package host).get_owner_cls header = .ok (multipleMessage c2s) := by
  cases c2s with
  | true =>
      have member : Request_5500 ∈ requestClasses host := by simp [requestClasses]
      exact get_owner_cls_request member side id
  | false =>
      have member : Response_5500 ∈ responseClasses host := by simp [responseClasses]
      exact get_owner_cls_response member side notPush id

/-- No list of one or more messages survives as a multi-message, on either side. -/
theorem not_multipleSurvives (host : Host) (c2s : Bool) {messages : List Message}
    (some : messages ≠ []) :
    ¬ MultipleSurvives deepcopy (Ouou.package host) c2s messages := by
  rintro ⟨multi, bytes, decoded, added, encoded, parsed, -⟩
  obtain ⟨samePlain, sameOwned, count⟩ := addMessages_eq_ok added
  have submessages : multi.submessages ≠ [] := by
    intro none
    rw [none] at count
    have := List.length_pos_iff.mpr some
    simp only [List.length_nil] at count
    omega
  have sameHeader : multi.header = ((multipleMessage c2s).new []).header := by rw [samePlain]
  have sameClass : multi.cls = multipleMessage c2s := by rw [samePlain]; rfl
  have id : multi.header.msg_id = MSG_TYPE_MULTI := by
    rw [sameHeader]
    cases c2s <;> rfl
  have notPush : (multi.header.received c2s).is_push_msg = false := by
    rw [sameHeader]
    exact (multipleMessage c2s).new_notPush [] c2s
  have uncompressed : (multi.header.received c2s).is_compressed = false := by
    rw [sameHeader]
    exact (multipleMessage c2s).new_uncompressed [] c2s
  have registered : (Ouou.package host).get_owner_cls (multi.header.received c2s) =
      .ok multi.cls := by
    rw [sameClass]
    exact multipleMessage_registered rfl notPush id
  have raised := allfrombytes_multiple sameOwned (by rw [sameClass]; cases c2s <;> rfl)
    (by rw [sameClass]; cases c2s <;> rfl) (by rw [id]; decide) uncompressed registered
    submessages encoded
  rw [raised] at parsed
  cases parsed

/-- `copy.deepcopy`, and the owner that is then set. -/
def plainCopy (m : Message) : Except PyError Message := .ok { m with owned := true }

/-- A client's heartbeat with `pid` 1. -/
def clientHeartbeat : Message := Request_5517.new [("pid", .int 1)]

theorem clientHeartbeat_not_multipleSurvives :
    ¬ MultipleSurvives plainCopy (Ouou.package asciiHost) true [clientHeartbeat] :=
  not_multipleSurvives asciiHost true (by simp)

/-- One heartbeat in a multi-message: it encodes, and decoding it raises. -/
theorem clientHeartbeat_multiple_raises :
    (∃ multi, ((multipleMessage true).new []).addMessages plainCopy [clientHeartbeat] =
        .ok multi ∧
      (multi.tobytes false).2 = .ok [0x7b, 0x7c, 0x15, 0, 0, 9, 0,
        0x7b, 0x8d, 0x15, 0, 0, 2, 0, 1, 0, 0x7d]) ∧
    Message.allfrombytes (Ouou.package asciiHost) [0x7b, 0x7c, 0x15, 0, 0, 9, 0,
      0x7b, 0x8d, 0x15, 0, 0, 2, 0, 1, 0, 0x7d] true =
        .error (.unexpectedKeyword "allfromstream" "owner") ∧
    ¬ MultipleSurvives plainCopy (Ouou.package asciiHost) true [clientHeartbeat] := by
  have encoded : ∃ multi,
      ((multipleMessage true).new []).addMessages plainCopy [clientHeartbeat] = .ok multi ∧
      (multi.tobytes false).2 = .ok [0x7b, 0x7c, 0x15, 0, 0, 9, 0,
        0x7b, 0x8d, 0x15, 0, 0, 2, 0, 1, 0, 0x7d] := ⟨_, rfl, by decide +kernel⟩
  have raised : Message.allfrombytes (Ouou.package asciiHost) [0x7b, 0x7c, 0x15, 0, 0, 9, 0,
      0x7b, 0x8d, 0x15, 0, 0, 2, 0, 1, 0, 0x7d] true =
        .error (.unexpectedKeyword "allfromstream" "owner") := rfl
  refine ⟨encoded, raised, ?_⟩
  obtain ⟨multi, added, isBytes⟩ := encoded
  rintro ⟨other, bytes, decoded, addedOther, encodedOther, parsed, -⟩
  cases Except.ok.inj (added.symm.trans addedOther)
  cases Except.ok.inj (isBytes.symm.trans encodedOther)
  cases raised.symm.trans parsed

end Message

end StdPrograms.Ouou

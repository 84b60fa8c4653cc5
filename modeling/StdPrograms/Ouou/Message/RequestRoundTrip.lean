import StdPrograms.Ouou.Message.Registry

/-!
Contract: requests survive the wire.

Owns the facts about the request table that the round trip rests on: its
attributes are unconditional, are decoded literally, and are checked when they
are encoded.
-/

namespace StdPrograms.Ouou

open StdPrograms.Foundation

/-! ### The request table -/

@[simp] theorem byte_checked : Wire.Byte.Checked := plainInteger_checked _
@[simp] theorem uShort_checked : Wire.UShort.Checked := plainInteger_checked _
@[simp] theorem uInt_checked : Wire.UInt.Checked := plainInteger_checked _
@[simp] theorem int_checked : Wire.Int.Checked := plainInteger_checked _
@[simp] theorem string_checked (host : Host) : (Wire.String host).Checked :=
  encodedString_checked _
@[simp] theorem byteVector_checked (size_cls : IntFormat) :
    (Wire.Vector size_cls Wire.Byte).Checked :=
  vector_checked _ byte_checked
@[simp] theorem stringVector_checked (host : Host) (size_cls : IntFormat) :
    (Wire.Vector size_cls (Wire.String host)).Checked :=
  vector_checked _ (string_checked host)

@[simp] theorem byte_fills : Wire.Byte.Fills := plainInteger_fills (by decide)
@[simp] theorem uShort_fills : Wire.UShort.Fills := plainInteger_fills (by decide)
@[simp] theorem uInt_fills : Wire.UInt.Fills := plainInteger_fills (by decide)
@[simp] theorem string_fills (host : Host) : (Wire.String host).Fills := encodedString_fills _

theorem requestClasses_plain (host : Host) :
    ∀ cls ∈ requestClasses host, cls.MSG_ID ≠ MSG_TYPE_MULTI → cls.multiple = false :=
  of_decide_eq_true rfl

theorem requestClasses_literal (host : Host) :
    ∀ cls ∈ requestClasses host, ∀ attr ∈ cls.attributes_info,
      attr.condition = none ∧ attr.type.literal = true :=
  of_decide_eq_true rfl

theorem requestClasses_named (host : Host) : ∀ cls ∈ requestClasses host, cls.MSG_ID ≠ 0 :=
  of_decide_eq_true rfl

theorem requestClasses_checked (host : Host) :
    ∀ cls ∈ requestClasses host, cls.MSG_ID ≠ 5518 →
      ∀ attr ∈ cls.attributes_info, attr.type.Checked := by
  simp [requestClasses, Request_5500, Request_5501, Request_5502, Request_5503, Request_5504,
    Request_5505, Request_5506, Request_5508, Request_5509, Request_5510, Request_5511,
    Request_5512, Request_5513, Request_5514, Request_5515, Request_5516, Request_5517,
    Request_5518, Request_5519, Wire.ByteVector]

theorem requestClasses_fill (host : Host) :
    ∀ cls ∈ requestClasses host, ∀ attr ∈ cls.attributes_info.head?, attr.type.Fills := by
  simp [requestClasses, Request_5500, Request_5501, Request_5502, Request_5503, Request_5504,
    Request_5505, Request_5506, Request_5508, Request_5509, Request_5510, Request_5511,
    Request_5512, Request_5513, Request_5514, Request_5515, Request_5516, Request_5517,
    Request_5518, Request_5519]

theorem requestClasses_assigns (host : Host) :
    ∀ cls ∈ requestClasses host, cls.assigns = [] ∨
      cls.MSG_ID = 5511 ∧ cls.assigns = [("push_type", .int PUSH_TYPE_ONCE)] := by
  simp [requestClasses, Request_5500, Request_5501, Request_5502, Request_5503, Request_5504,
    Request_5505, Request_5506, Request_5508, Request_5509, Request_5510, Request_5511,
    Request_5512, Request_5513, Request_5514, Request_5515, Request_5516, Request_5517,
    Request_5518, Request_5519]

/-- `tobytes` of 5511 sets the push type to the value it is assumed to have; the
other classes set nothing. -/
theorem requestClasses_assign {host : Host} {cls : MessageClass}
    (member : cls ∈ requestClasses host) {attributes : Obj}
    (once : cls.MSG_ID = 5511 → attributes.get "push_type" = some (.int PUSH_TYPE_ONCE)) :
    (cls.new attributes).assign = cls.new attributes := by
  rcases requestClasses_assigns host cls member with none | ⟨is5511, one⟩
  · simp [MessageClass.new, Message.assign, PlainMessage.assign, none]
  · simp [MessageClass.new, Message.assign, PlainMessage.assign, one,
      Obj.set_eq_self (once is5511)]

/-! ### The round trip -/

/-- A request that encodes is decoded on the server's side to the class
registered for it, or to a bare message when its payload is empty, with every
attribute as it was given. -/
theorem request_allfrombytes_tobytes (host : Host) {cls : MessageClass}
    (member : cls ∈ requestClasses host) (notMultiple : cls.MSG_ID ≠ MSG_TYPE_MULTI)
    (not5518 : cls.MSG_ID ≠ 5518) {attributes : Obj}
    (once : cls.MSG_ID = 5511 → attributes.get "push_type" = some (.int PUSH_TYPE_ONCE))
    {bytes : Bytes} (encoded : ((cls.new attributes).tobytes false).2 = .ok bytes) :
    ∃ decoded, Message.allfrombytes (package host) bytes true = .ok (some decoded) ∧
      decoded.header.msg_id = cls.MSG_ID ∧
      decoded.cls = (if decoded.header.payload_size = 0 then Message.bareClass else cls) ∧
      ∀ attr ∈ cls.attributes_info,
        decoded.attributes.get attr.name = attributes.get attr.name := by
  have plain := requestClasses_plain host cls member notMultiple
  have unassigned := requestClasses_assign member once
  have named := requestClasses_named host cls member
  have literal := requestClasses_literal host cls member
  obtain ⟨body, -, hasBody, -, -⟩ := Message.tobytes_eq_ok encoded
  have bodyBytes : BinaryObject.body2bytes cls.name cls.attributes_info attributes =
      .ok body := by
    rw [unassigned, Message.body2bytes, show (cls.new attributes).cls.multiple = false from plain]
      at hasBody
    exact hasBody
  have inRange : cls.InRange (cls.new attributes).assign.attributes := by
    rw [unassigned]
    exact cls.inRange_of_checked (requestClasses_checked host cls member not5518) bodyBytes
  obtain ⟨body', header, decoded, hasBody', -, -, parsed, sameHeader, isBare, isWhole⟩ :=
    Message.allfrombytes_tobytes (package host) true rfl plain named
      (cls.new_uncompressed attributes true) (get_owner_cls_request member rfl rfl) inRange
      encoded
  cases Except.ok.inj (hasBody.symm.trans hasBody')
  have payload_size : decoded.header.payload_size = body.length := by rw [sameHeader]; rfl
  refine ⟨decoded, parsed, by rw [sameHeader]; rfl, ?_⟩
  by_cases empty : body = []
  · rw [payload_size, empty, isBare empty]
    refine ⟨rfl, fun attr attrMember => ?_⟩
    -- a class with attributes never has an empty body
    cases layout : cls.attributes_info with
    | nil =>
        rw [layout] at attrMember
        cases attrMember
    | cons first rest =>
        rw [layout] at bodyBytes
        have unconditional := (literal first (by simp [layout])).1
        have fills := requestClasses_fill host cls member first (by simp [layout])
        exact absurd empty (BinaryObject.body2bytes_nonempty unconditional fills bodyBytes)
  · obtain ⟨sameClass, -, same, -⟩ := isWhole empty
    rw [payload_size, if_neg (by simpa using empty)]
    refine ⟨sameClass, fun attr member => ?_⟩
    obtain ⟨unconditional, isLiteral⟩ := literal attr member
    obtain ⟨value, result, found, holds, -, equal⟩ :=
      same attr member (by simp [Attribute.active, unconditional])
    rw [unassigned] at found
    rw [holds, equal isLiteral, ← found]
    rfl

/-- A market code survives. -/
theorem request_5504_allfrombytes_tobytes :
    ∃ decoded, Message.allfrombytes (package asciiHost)
        [0x7b, 0x80, 0x15, 0, 0, 4, 0, 2, 0, 0x48, 0x4b, 0x7d] true = .ok (some decoded) ∧
      decoded.header.msg_id = 5504 ∧
      decoded.cls = (if decoded.header.payload_size = 0 then Message.bareClass
        else Request_5504 asciiHost) ∧
      ∀ attr ∈ (Request_5504 asciiHost).attributes_info,
        decoded.attributes.get attr.name =
          Obj.get [("market_code", .str ['H', 'K'])] attr.name := by
  have member : Request_5504 asciiHost ∈ requestClasses asciiHost := by
    simp [requestClasses]
  exact request_allfrombytes_tobytes asciiHost member (by decide) (by decide)
    (fun is5511 => absurd is5511 (by decide)) rfl

end StdPrograms.Ouou

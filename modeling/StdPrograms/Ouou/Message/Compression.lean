import StdPrograms.Foundation.Transitions
import StdPrograms.Ouou.Message.RequestRoundTrip
import StdPrograms.Ouou.Message.ResponseRoundTrip

/-!
Contract: repeated calls of `tobytes` on one message, with and without
compression.

Owns the run of such calls, what they keep of the message, the decoding of the
frames they produce, and the condition under which every frame is read back:
the flags that a call with compression leaves behind are not taken back.

Does not own zlib. A call with compression raises before it has packed the
compressed payload, so that no frame holds one.
-/

namespace StdPrograms.Ouou

open StdPrograms.Foundation

namespace Message

/-! ### Calls -/

/-- One call of `tobytes`: the message as the call leaves it, and what all calls
so far have returned. -/
def call (state : Message × List (Except PyError Bytes)) (compress : Bool) :
    Option (Message × List (Except PyError Bytes)) :=
  some ((state.1.tobytes compress).1, state.2 ++ [(state.1.tobytes compress).2])

/-- A frame is read on its side as a message of the same identifier, with the
attributes that `given` has once its class has set its own, and with its
sub-messages. -/
def ReadAs (package : Package) (c2s : Bool) (given : Message) (bytes : Bytes) : Prop :=
  ∃ decoded, allfrombytes package bytes c2s = .ok (some decoded) ∧
    decoded.header.msg_id = given.header.msg_id ∧
    given.cls.SameAttributes decoded.attributes given.assign.attributes ∧
    (given.cls.multiple = true → List.Forall₂ (fun (result submessage : PlainMessage) =>
      result.cls = submessage.cls ∧
        submessage.cls.SameAttributes result.attributes submessage.attributes)
      decoded.submessages given.submessages)

/-- Every frame that was returned is read as the given message. -/
def FramesReadAs (package : Package) (c2s : Bool) (given : Message)
    (state : Message × List (Except PyError Bytes)) : Prop :=
  ∀ bytes, .ok bytes ∈ state.2 → ReadAs package c2s given bytes

/-- The condition on a call: without compression, the attributes are in range, the
header does not announce a compressed payload unless there is none, and a
multi-message has no sub-messages. -/
def Heeds (c2s : Bool) (self : Message) (compress : Bool) : Prop :=
  compress = false → self.cls.InRange self.assign.attributes ∧
    if self.cls.multiple then self.submessages = []
    else self.cls.attributes_info = [] ∨ (self.header.received c2s).is_compressed = false

end Message

/-! ### Registered classes -/

/-- What both sides' registries say of the classes in them. -/
structure MessageClass.Regular (cls : MessageClass) : Prop where
  named : cls.MSG_ID ≠ 0
  bare : cls.multiple = true → cls.attributes_info = []
  fills : cls.multiple = false → cls.attributes_info ≠ [] → ∀ attributes body,
    BinaryObject.body2bytes cls.name cls.attributes_info attributes = .ok body → body ≠ []
  assigns : ∀ self : PlainMessage, self.cls = cls → self.assign.assign = self.assign

theorem requestClasses_bare (host : Host) :
    ∀ cls ∈ requestClasses host, cls.multiple = true → cls.attributes_info.isEmpty = true :=
  of_decide_eq_true rfl

theorem requestClasses_regular {host : Host} {cls : MessageClass}
    (member : cls ∈ requestClasses host) : cls.Regular where
  named := requestClasses_named host cls member
  bare := fun multiple => List.isEmpty_iff.mp (requestClasses_bare host cls member multiple)
  fills := by
    intro _ some attributes body encoded
    cases layout : cls.attributes_info with
    | nil => exact absurd layout some
    | cons first rest =>
        have unconditional := (requestClasses_literal host cls member first (by simp [layout])).1
        have fills := requestClasses_fill host cls member first (by simp [layout])
        rw [layout] at encoded
        exact BinaryObject.body2bytes_nonempty unconditional fills encoded
  assigns := by
    intro self isClass
    rcases requestClasses_assigns host cls member with none | ⟨-, one⟩
    · simp [PlainMessage.assign, isClass, none]
    · simp [PlainMessage.assign, isClass, one, Obj.set_eq_self (Obj.get_set_self _ _ _)]

theorem serverClasses_bare (host : Host) :
    ∀ cls ∈ serverClasses host, cls.multiple = true → cls.attributes_info.isEmpty = true :=
  of_decide_eq_true rfl

theorem serverClasses_notMultiple (host : Host) :
    ∀ cls ∈ serverClasses host, cls.multiple = false → cls.MSG_ID ≠ MSG_TYPE_MULTI :=
  of_decide_eq_true rfl

theorem serverClasses_regular {host : Host} {cls : MessageClass}
    (member : cls ∈ serverClasses host) : cls.Regular where
  named := by
    have := serverClasses_ids host cls member
    omega
  bare := fun multiple => List.isEmpty_iff.mp (serverClasses_bare host cls member multiple)
  fills := fun plain _ _ _ encoded =>
    serverClasses_nonempty member (serverClasses_notMultiple host cls member plain) encoded
  assigns := by
    intro self isClass
    simp [PlainMessage.assign, isClass, serverClasses_noAssigns member]

namespace Message

variable {host : Host} {c2s : Bool}

theorem regular_of_registered {header : Header} {cls : MessageClass} (side : header.c2s = c2s)
    (registered : (package host).get_owner_cls header = .ok cls) :
    cls.Regular ∧ cls.MSG_ID = header.msg_id := by
  cases c2s with
  | true =>
      obtain ⟨member, id⟩ := get_owner_cls_client side registered
      exact ⟨requestClasses_regular member, id⟩
  | false =>
      obtain ⟨member, id⟩ := get_owner_cls_server side registered
      exact ⟨serverClasses_regular member, id⟩

/-! ### What a call keeps -/

/-- What no call of `tobytes` changes: all but the flags of compression, the size of
the payload, and what the class's own `tobytes` sets. -/
structure Kept (given after : Message) : Prop where
  cls : after.cls = given.cls
  owned : after.owned = given.owned
  submessages : after.submessages = given.submessages
  attributes : after.assign.attributes = given.assign.attributes
  msg_id : after.header.msg_id = given.header.msg_id
  is_push_msg : after.header.is_push_msg = given.header.is_push_msg

theorem Kept.refl (self : Message) : Kept self self := ⟨rfl, rfl, rfl, rfl, rfl, rfl⟩

theorem Kept.trans {first second third : Message} (left : Kept first second)
    (right : Kept second third) : Kept first third where
  cls := right.cls.trans left.cls
  owned := right.owned.trans left.owned
  submessages := right.submessages.trans left.submessages
  attributes := right.attributes.trans left.attributes
  msg_id := right.msg_id.trans left.msg_id
  is_push_msg := right.is_push_msg.trans left.is_push_msg

theorem set_compressed_is_push_msg (header : Header) :
    header.set_compressed.set_need_compress.is_push_msg = header.is_push_msg := by
  have pushBit : header.set_compressed.set_need_compress.flag &&& MSG_FLAG_PUSH =
      header.flag &&& MSG_FLAG_PUSH := by
    show (header.flag ||| MSG_FLAG_COMPRESSED ||| MSG_FLAG_REQ_COMPRESS) &&& _ = _
    rw [Nat.and_or_distrib_right, Nat.and_or_distrib_right]
    simp [MSG_FLAG_COMPRESSED, MSG_FLAG_REQ_COMPRESS, MSG_FLAG_PUSH]
  rw [Header.is_push_msg, pushBit, Header.is_push_msg]

theorem kept_assign {self : Message} (regular : self.cls.Regular) : Kept self self.assign where
  cls := rfl
  owned := rfl
  submessages := rfl
  attributes := congrArg PlainMessage.attributes (regular.assigns self.toPlainMessage rfl)
  msg_id := rfl
  is_push_msg := rfl

theorem kept_tobytes {self : Message} (regular : self.cls.Regular) (compress : Bool) :
    Kept self (self.tobytes compress).1 := by
  have assigned := kept_assign regular
  unfold tobytes
  split
  · exact Kept.refl self
  · dsimp only
    split
    · exact assigned
    · split
      · apply assigned.trans
        exact ⟨rfl, rfl, rfl, rfl, rfl, set_compressed_is_push_msg _⟩
      · split
        · exact assigned.trans ⟨rfl, rfl, rfl, rfl, rfl, rfl⟩
        · exact assigned.trans ⟨rfl, rfl, rfl, rfl, rfl, rfl⟩

theorem get_owner_cls_congr {package : Package} {left right : Header}
    (sameSide : left.c2s = right.c2s) (samePush : left.is_push_msg = right.is_push_msg)
    (sameId : left.msg_id = right.msg_id) :
    package.get_owner_cls left = package.get_owner_cls right := by
  rw [Package.get_owner_cls, Package.get_owner_cls, sameSide, samePush, sameId]

theorem Kept.registered {package : Package} {given self : Message} (kept : Kept given self)
    (registered : package.get_owner_cls (given.header.received c2s) = .ok given.cls) :
    package.get_owner_cls (self.header.received c2s) = .ok self.cls := by
  rw [kept.cls, ← registered]
  apply get_owner_cls_congr
  · rfl
  · exact kept.is_push_msg
  · exact kept.msg_id

/-! ### Frames -/

/-- A call with compression raises, whatever the message. -/
theorem tobytes_compress {self : Message} (topLevel : self.owned = false) :
    ∃ error, (self.tobytes true).2 = .error error := by
  unfold tobytes
  split
  · exact ⟨_, rfl⟩
  · dsimp only
    split
    · exact ⟨_, rfl⟩
    · rw [if_pos (by simpa [assign] using topLevel)]
      exact ⟨_, rfl⟩

/-- The frame of a message without payload is read as a bare message. -/
theorem allfrombytes_empty (package : Package) {self : Message} (c2s : Bool) {bytes : Bytes}
    (topLevel : self.owned = false) (empty : self.assign.body2bytes = .ok [])
    (encoded : (self.tobytes false).2 = .ok bytes) :
    allfrombytes package bytes c2s =
      .ok (some (bare ((self.sizedHeader []).received c2s))) := by
  obtain ⟨body, header, hasBody, hasHeader, layout⟩ := tobytes_eq_ok encoded
  cases Except.ok.inj (empty.symm.trans hasBody)
  have isBare : ReadsPayload package ((self.sizedHeader []).received c2s) []
      (bare ((self.sizedHeader []).received c2s)) := readsPayload_bare [] (.inr rfl)
  have frame := allfromstream_frame hasHeader rfl isBare []
  rw [layout, topLevel, ← List.append_assoc, allfrombytes]
  simp only [Bool.false_eq_true, if_false]
  rw [stripTail_tail, ← List.append_nil (header ++ [])]
  exact frame

/-- A frame without attributes and sub-messages is read as it was given. -/
theorem readAs_of_empty {package : Package} {self : Message} {bytes : Bytes}
    (topLevel : self.owned = false) (noAttributes : self.cls.attributes_info = [])
    (noSubmessages : self.cls.multiple = true → self.submessages = [])
    (encoded : (self.tobytes false).2 = .ok bytes) : ReadAs package c2s self bytes := by
  have empty : self.assign.body2bytes = .ok [] := by
    cases multiple : self.cls.multiple with
    | true =>
        have isMultiple : self.assign.cls.multiple = true := multiple
        have none : self.assign.submessages = [] := noSubmessages multiple
        rw [body2bytes, if_pos isMultiple, none]
        rfl
    | false =>
        have isPlain : self.assign.cls.multiple = false := multiple
        have none : self.assign.cls.attributes_info = [] := noAttributes
        rw [body2bytes, isPlain, if_neg (by simp), PlainMessage.body2bytes, none]
        rfl
  refine ⟨_, allfrombytes_empty package c2s topLevel empty encoded, rfl, ?_, ?_⟩
  · intro attr member
    rw [noAttributes] at member
    cases member
  · intro multiple
    rw [noSubmessages multiple]
    exact .nil

/-- A call that meets the condition returns a frame that is read as its message. -/
theorem readAs_of_heeds {self : Message} {bytes : Bytes} (topLevel : self.owned = false)
    (registered : (package host).get_owner_cls (self.header.received c2s) = .ok self.cls)
    (heeds : Heeds c2s self false) (encoded : (self.tobytes false).2 = .ok bytes) :
    ReadAs (package host) c2s self bytes := by
  obtain ⟨regular, id⟩ := regular_of_registered rfl registered
  obtain ⟨inRange, condition⟩ := heeds rfl
  cases multiple : self.cls.multiple with
  | true =>
      rw [if_pos multiple] at condition
      exact readAs_of_empty topLevel (regular.bare multiple) (fun _ => condition) encoded
  | false =>
      rw [multiple, if_neg (by simp)] at condition
      by_cases noAttributes : self.cls.attributes_info = []
      · exact readAs_of_empty topLevel noAttributes (by simp [multiple]) encoded
      · have uncompressed := condition.resolve_left noAttributes
        have named : self.header.msg_id ≠ 0 := by
          have sameId : (self.header.received c2s).msg_id = self.header.msg_id := rfl
          rw [← sameId, ← id]
          exact regular.named
        obtain ⟨body, header, decoded, hasBody, -, -, parsed, sameHeader, -, whole⟩ :=
          allfrombytes_tobytes (package host) c2s topLevel multiple named uncompressed registered
            inRange encoded
        have bodyBytes : BinaryObject.body2bytes self.cls.name self.cls.attributes_info
            self.assign.attributes = .ok body := by
          rwa [body2bytes, show self.assign.cls.multiple = false from multiple] at hasBody
        have nonempty := regular.fills multiple noAttributes _ _ bodyBytes
        obtain ⟨-, -, same, -⟩ := whole nonempty
        refine ⟨decoded, parsed, ?_, same, ?_⟩
        · rw [sameHeader]
          rfl
        · intro isMultiple
          rw [multiple] at isMultiple
          cases isMultiple

theorem Kept.readAs {package : Package} {given self : Message} {bytes : Bytes}
    (kept : Kept given self) (reads : ReadAs package c2s self bytes) :
    ReadAs package c2s given bytes := by
  obtain ⟨decoded, parsed, id, same, submessages⟩ := reads
  rw [kept.cls, kept.attributes] at same
  rw [kept.cls, kept.submessages] at submessages
  exact ⟨decoded, parsed, id.trans kept.msg_id, same, submessages⟩

/-- One call keeps what is known of the message, and adds no frame that is read
otherwise. -/
theorem framesReadAs_call {given : Message} {state after : Message × List (Except PyError Bytes)}
    {compress : Bool} (topLevel : given.owned = false)
    (registered : (package host).get_owner_cls (given.header.received c2s) = .ok given.cls)
    (kept : Kept given state.1) (reads : FramesReadAs (package host) c2s given state)
    (heeds : Heeds c2s state.1 compress) (taken : call state compress = some after) :
    Kept given after.1 ∧ FramesReadAs (package host) c2s given after := by
  have stillRegistered := kept.registered registered
  have stillTopLevel := kept.owned.trans topLevel
  obtain ⟨regular, -⟩ := regular_of_registered rfl stillRegistered
  cases Option.some.inj taken
  refine ⟨kept.trans (kept_tobytes regular compress), ?_⟩
  intro bytes member
  rcases List.mem_append.mp member with earlier | last
  · exact reads bytes earlier
  · have returned := List.mem_singleton.mp last
    cases compress with
    | true =>
        obtain ⟨error, raised⟩ := tobytes_compress stillTopLevel
        rw [raised] at returned
        cases returned
    | false =>
        exact kept.readAs
          (readAs_of_heeds stillTopLevel stillRegistered heeds returned.symm)

/-- Three clients are online. -/
def onlineCount : Message := Response_5509.new [("online_num", .int 3)]

theorem onlineCount_registered :
    (package asciiHost).get_owner_cls (onlineCount.header.received false) =
      .ok onlineCount.cls := rfl

theorem onlineCount_inRange : onlineCount.cls.InRange onlineCount.assign.attributes := by
  have encoded : onlineCount.assign.toPlainMessage.body2bytes = .ok [3, 0, 0, 0] := rfl
  apply MessageClass.inRange_of_checked _ _ encoded
  intro attr member
  cases List.mem_singleton.mp member
  exact int_checked

end Message

end StdPrograms.Ouou

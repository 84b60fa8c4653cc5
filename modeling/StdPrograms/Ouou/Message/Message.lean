import StdPrograms.Ouou.Message.Header

/-!
Contract: `Message` and `MultipleMessage` of `message/message.py`.

Owns message classes, the dictionaries they are registered in, the encoding of
a message with its header and tail, and the four ways of decoding one.

A message class carries the proof that its attribute list is well formed, so
that every registered class reads back what it writes. A message inside a
multi-message is one without sub-messages of its own.

Does not own the registered classes.
-/

namespace StdPrograms.Ouou

open StdPrograms.Foundation BinaryObject

structure MessageClass where
  name : ClassName
  MSG_ID : Nat
  attributes_info : List Attribute
  wellFormed : WellFormed [] [] attributes_info
  constructs : ∃ self, construct attributes_info [] = .ok self
  /-- A `MultipleMessage`. -/
  multiple : Bool := false
  /-- What an overriding `tobytes` sets before it calls the inherited one. -/
  assigns : List (String × Val) := []

/-- A class without attributes. -/
theorem noAttributes_wellFormed : WellFormed [] [] [] := trivial

theorem noAttributes_construct : ∃ self, construct [] [] = .ok self := ⟨_, rfl⟩

/-- The heartbeats, which hold a `pid`. -/
theorem pid_wellFormed : WellFormed [] [] [{ name := "pid", type := Wire.UShort }] :=
  of_decide_eq_true rfl

theorem pid_construct : ∃ self, construct [{ name := "pid", type := Wire.UShort }] [] = .ok self :=
  ⟨_, rfl⟩

/-- A registry: a dictionary from message identifiers to classes. -/
abbrev ClassDict := List (Nat × MessageClass)

namespace ClassDict

def get : ClassDict → Nat → Option MessageClass
  | [], _ => none
  | (key, cls) :: rest, MSG_ID => if key = MSG_ID then some cls else get rest MSG_ID

def set : ClassDict → Nat → MessageClass → ClassDict
  | [], MSG_ID, cls => [(MSG_ID, cls)]
  | (key, old) :: rest, MSG_ID, cls =>
      if key = MSG_ID then (key, cls) :: rest else (key, old) :: set rest MSG_ID cls

/-- The dictionary of classes registered in this order. -/
def ofClasses (classes : List MessageClass) : ClassDict :=
  classes.foldl (fun dict cls => dict.set cls.MSG_ID cls) []

theorem get_set_self (dict : ClassDict) (MSG_ID : Nat) (cls : MessageClass) :
    (dict.set MSG_ID cls).get MSG_ID = some cls := by
  induction dict with
  | nil => simp [set, get]
  | cons entry rest inductionHypothesis =>
      obtain ⟨key, old⟩ := entry
      by_cases same : key = MSG_ID
      · simp [set, get, same]
      · simp [set, get, same, inductionHypothesis]

theorem get_set_other (dict : ClassDict) {MSG_ID other : Nat} (cls : MessageClass)
    (different : other ≠ MSG_ID) : (dict.set MSG_ID cls).get other = dict.get other := by
  induction dict with
  | nil => simp [set, get, Ne.symm different]
  | cons entry rest inductionHypothesis =>
      obtain ⟨key, old⟩ := entry
      by_cases same : key = MSG_ID
      · simp [set, get, same, Ne.symm different]
      · by_cases found : key = other
        · simp [set, get, found, different]
        · simp [set, get, same, found, inductionHypothesis]

private theorem get_foldl_other (classes : List MessageClass) (dict : ClassDict) {other : Nat}
    (absent : other ∉ classes.map MessageClass.MSG_ID) :
    (classes.foldl (fun dict cls => dict.set cls.MSG_ID cls) dict).get other =
      dict.get other := by
  induction classes generalizing dict with
  | nil => rfl
  | cons cls rest inductionHypothesis =>
      rw [List.map_cons, List.mem_cons, not_or] at absent
      rw [List.foldl_cons, inductionHypothesis _ absent.2, get_set_other _ _ absent.1]

/-- Classes of distinct identifiers are found under them. -/
theorem get_ofClasses {classes : List MessageClass}
    (distinct : (classes.map MessageClass.MSG_ID).Nodup) {cls : MessageClass}
    (member : cls ∈ classes) : (ofClasses classes).get cls.MSG_ID = some cls := by
  have general (dict : ClassDict) :
      (classes.foldl (fun dict cls => dict.set cls.MSG_ID cls) dict).get cls.MSG_ID =
        some cls := by
    induction classes generalizing dict with
    | nil => cases member
    | cons head rest inductionHypothesis =>
        rw [List.map_cons, List.nodup_cons] at distinct
        rw [List.foldl_cons]
        rcases List.mem_cons.mp member with rfl | member
        · rw [get_foldl_other _ _ distinct.1, get_set_self]
        · exact inductionHypothesis distinct.2 member _
  exact general []

end ClassDict

/-- The module's registries, and `zlib.decompress`. -/
structure Package where
  request_messages : ClassDict
  response_messages : ClassDict
  push_messages : ClassDict
  decompress : Bytes → Option Bytes

/-- `Header.get_owner_cls`. -/
def Package.get_owner_cls (package : Package) (header : Header) : Except PyError MessageClass :=
  let messages :=
    if header.c2s then package.request_messages
    else if header.is_push_msg then package.push_messages
    else package.response_messages
  match messages.get header.msg_id with
  | some cls => .ok cls
  | none => .error (.keyError header.msg_id)

/-! ### Messages -/

/-- A message that is not a multi-message. -/
structure PlainMessage where
  cls : MessageClass
  header : Header
  attributes : Obj

/-- A message; only a multi-message has sub-messages. -/
structure Message extends PlainMessage where
  /-- `owner` is not `None`. -/
  owned : Bool := false
  submessages : List PlainMessage := []

/-- The class of a message without payload, and of a bare `Message()`. -/
def Message.bareClass : MessageClass where
  name := "Message"
  MSG_ID := 0
  attributes_info := []
  wellFormed := trivial
  constructs := ⟨[], rfl⟩

/-- `Message(header = header)`. -/
def Message.bare (header : Header) : Message where
  cls := Message.bareClass
  header := header
  attributes := []

/-- An instance of the class with these attributes. -/
def MessageClass.new (cls : MessageClass) (attributes : Obj) : Message where
  cls := cls
  header := { msg_id := cls.MSG_ID }
  attributes := attributes

namespace PlainMessage

/-- What the class's own `tobytes` sets. -/
def assign (self : PlainMessage) : PlainMessage where
  cls := self.cls
  header := self.header
  attributes := self.cls.assigns.foldl (fun attributes entry => attributes.set entry.1 entry.2)
    self.attributes

def body2bytes (self : PlainMessage) : Except PyError Bytes :=
  BinaryObject.body2bytes self.cls.name self.cls.attributes_info self.attributes

/-- The header, once it carries the size of this body. -/
def sizedHeader (self : PlainMessage) (body : Bytes) : Header :=
  { self.header with payload_size := body.length }

/-- `tobytes` of a message with an owner. -/
def tobytes (self : PlainMessage) : Except PyError Bytes := do
  let body ← self.assign.body2bytes
  let header ← (self.sizedHeader body).tobytes
  return header ++ body

end PlainMessage

namespace Message

def size (self : Message) : Nat :=
  Header.type_size + self.header.payload_size + (if self.owned then 0 else 1)

def is_push_msg (self : Message) : Bool := self.header.is_push_msg

/-- The attributes `submsg_1`, `submsg_2`, ... of a multi-message. -/
def submessageBytes (cls_name : ClassName) : Nat → List PlainMessage → Except PyError Bytes
  | _, [] => .ok []
  | number, message :: rest =>
      match message.tobytes with
      | .error cause => .error (.attributeFailed ("submsg_" ++ toString number) cls_name cause)
      | .ok b => do return b ++ (← submessageBytes cls_name (number + 1) rest)

def body2bytes (self : Message) : Except PyError Bytes :=
  if self.cls.multiple then submessageBytes self.cls.name 1 self.submessages
  else self.toPlainMessage.body2bytes

/-- The message after the class's own `tobytes` has set its attributes. -/
def assign (self : Message) : Message := { self with toPlainMessage := self.toPlainMessage.assign }

/-- `tobytes`, and the message as it leaves it. `compress` stands for passing
`compress = True`, which an overriding `tobytes` does not take. -/
def tobytes (self : Message) (compress : Bool) : Message × Except PyError Bytes :=
  if compress && !self.cls.assigns.isEmpty then
    (self, .error (.unexpectedKeyword "tobytes" "compress"))
  else
    let self := self.assign
    match self.body2bytes with
    | .error error => (self, .error error)
    | .ok body =>
        if compress && !self.owned then
          -- `Short` is not imported where the sizes are packed
          ({ self with header := self.header.set_compressed.set_need_compress },
            .error (.nameError "Short"))
        else
          let self := { self with header := self.sizedHeader body }
          match self.header.tobytes with
          | .error error => (self, .error error)
          | .ok header =>
              (self, .ok (header ++ (body ++ if self.owned then [] else [MSG_TAIL])))

/-- The message that `add_message` keeps, with `copy.deepcopy` as a parameter. -/
def adopted (deepcopy : Message → Except PyError Message) (m : Message) :
    Except PyError Message :=
  if m.owned then .ok m else deepcopy m

def add_message (deepcopy : Message → Except PyError Message) (self m : Message) :
    Except PyError Message := do
  let m ← adopted deepcopy m
  return { self with submessages := self.submessages ++ [m.toPlainMessage] }

end Message

/-! ### Decoding -/

/-- `cls(...)`, then the attributes in order. -/
def MessageClass.body (cls : MessageClass) : Decoder Obj := do
  let self ← .ofExcept (construct cls.attributes_info [])
  readAttributes cls.attributes_info self

theorem MessageClass.body_detects (cls : MessageClass) : cls.body.Detects (· = .fixed) :=
  (ReadProgram.Detects.ofExcept _).bind fun self => readAttributes_detects _ self

/-- `_fromstream`. A multi-message passes `owner` to `allfromstream`, which does
not take it, as soon as a header is available. -/
def MessageClass._fromstream (cls : MessageClass) (reader : Reader) (header : Header) :
    Except PyError (Message × Reader) :=
  if cls.multiple then
    if (Header.type_size : Int) ≤ reader.available then
      .error (.unexpectedKeyword "allfromstream" "owner")
    else .ok ({ cls := cls, header := header, attributes := [] }, reader)
  else do
    let (attributes, reader) ← reader.decode cls.body
    return ({ cls := cls, header := header, attributes := attributes }, reader)

namespace Message

variable (package : Package)

/-- The two lengths in front of a compressed payload. -/
def compressedLengths : Decoder (Int × Int) := do
  let orig_len ← Short.format.fromstream
  let cmp_len ← Short.format.fromstream
  return (orig_len, cmp_len)

/-- The reader over the decompressed payload. -/
def decompressed (reader : Reader) : Except PyError Reader := do
  let ((orig_len, _), reader) ← reader.decode compressedLengths
  match package.decompress reader.unread with
  | none => .error .zlibError
  | some buf =>
      if (buf.length : Int) = orig_len then .ok (reader.reset buf) else .error .assertionError

/-- The reader that the attributes are read from. -/
def payloadReader (reader : Reader) (header : Header) : Except PyError Reader :=
  if header.is_compressed then decompressed package reader else .ok reader

def fromstream (reader : Reader) (header : Header) : Except PyError (Message × Reader) :=
  if header.msg_id = 0 ∨ header.payload_size = 0 then .ok (bare header, reader)
  else do
    let reader ← payloadReader package reader header
    let cls ← package.get_owner_cls header
    cls._fromstream reader header

/-- `none` where the bytes do not hold a whole message yet. -/
def allfromstream (reader : Reader) (c2s : Bool) : Except PyError (Option Message) :=
  if reader.available < Header.type_size then .ok none
  else do
    let (h, after) ← reader.decode (Header.fromstream c2s)
    if reader.available < (Header.type_size + h.payload_size : Nat) then return none
    let (message, _) ← fromstream package after h
    return some message

/-- The payload alone, where the tail follows it. -/
def untailed (buf : Bytes) (plsize : Nat) : Bytes :=
  if buf[plsize]? = some MSG_TAIL then buf.take plsize else buf

def frombytes (buf : Bytes) (header : Header) : Except PyError Message :=
  if buf.length < header.payload_size then .error .assertionError
  else do
    let (message, _) ← fromstream package (.ofBytes (untailed buf header.payload_size)) header
    return message

/-- `buf[:-1]` where the last byte is a tail. -/
def stripTail (buf : Bytes) : Bytes :=
  if buf.getLast? = some MSG_TAIL then buf.dropLast else buf

def allfrombytes (buf : Bytes) (c2s : Bool) : Except PyError (Option Message) :=
  allfromstream package (.ofBytes (stripTail buf)) c2s

end Message

end StdPrograms.Ouou

import StdPrograms.Ouou.Message.ResponseRoundTrip
import StdPrograms.Ouou.Message.UncomparedParts

/-!
Contract: `==` of response and push messages, and the bytes of equal ones.

Owns what `==` compares of each class, what it leaves out, and the theorem that
two equal messages which agree on what is left out encode to the same bytes.
The header, the rows of selected fields and the data of 5511 are left out, so
that equal messages may have different bytes.

Does not own the values.
-/

namespace StdPrograms.Ouou

open StdPrograms.Foundation BinaryObject

/-! ### Attribute lists -/

/-- How `==` treats the attributes of a class, one after the other. -/
inductive Views : List Attribute → Type
  | nil : Views []
  | cons {attr : Attribute} {rest : List Attribute} (view : View attr.type)
      (others : Views rest) : Views (attr :: rest)

namespace Views

/-- All attributes are looked at as a whole. -/
def plain : (attrs : List Attribute) → (∀ attr ∈ attrs, attr.type.Faithful) → Views attrs
  | [], _ => .nil
  | attr :: rest, faithful =>
      .cons (View.plain (faithful attr List.mem_cons_self))
        (plain rest fun other member => faithful other (List.mem_cons_of_mem _ member))

/-- `tuple(self)`. -/
def yields : {attrs : List Attribute} → Views attrs → Obj → Option (List Val)
  | [], .nil, _ => some []
  | attr :: _, .cons view others, self =>
      if attr.active self then
        match self.get attr.name, others.yields self with
        | some value, some values => some (view.shown value :: values)
        | _, _ => none
      else others.yields self

/-- What is left out of the comparison is equal. -/
def Unseen : {attrs : List Attribute} → Views attrs → Obj → Obj → Prop
  | [], .nil, _, _ => True
  | attr :: _, .cons view others, left, right =>
      (attr.active left = true → ∀ leftValue rightValue, left.get attr.name = some leftValue →
        right.get attr.name = some rightValue → view.Unseen leftValue rightValue) ∧
      others.Unseen left right

theorem yields_active {attr : Attribute} {rest : List Attribute} {view : View attr.type}
    {others : Views rest} {self : Obj} (active : attr.active self = true) {items : List Val}
    (isItems : (Views.cons view others).yields self = some items) :
    ∃ value values, self.get attr.name = some value ∧ others.yields self = some values ∧
      items = view.shown value :: values := by
  rw [yields, if_pos active] at isItems
  split at isItems
  next value values found later =>
    cases isItems
    exact ⟨value, values, found, later, rfl⟩
  next => cases isItems

theorem yields_inactive {attr : Attribute} {rest : List Attribute} {view : View attr.type}
    {others : Views rest} {self : Obj} (inactive : attr.active self = false) :
    (Views.cons view others).yields self = others.yields self := by
  rw [yields, if_neg (by simp [inactive])]

/-- Equal attributes that agree on what is left out encode to the same bytes. -/
theorem body2bytes_eq {cls_name : String} {attrs : List Attribute} (views : Views attrs)
    {exact : List String} (ordered : Ordered exact attrs) {left right : Obj}
    (agree : AgreeOn exact left right) {leftItems rightItems : List Val}
    (leftYields : views.yields left = some leftItems)
    (rightYields : views.yields right = some rightItems)
    (items : List.Forall₂ Val.Equal leftItems rightItems) (unseen : views.Unseen left right)
    {leftBytes rightBytes : Bytes} (leftEncoded : body2bytes cls_name attrs left = .ok leftBytes)
    (rightEncoded : body2bytes cls_name attrs right = .ok rightBytes) :
    leftBytes = rightBytes := by
  induction views generalizing exact leftItems rightItems leftBytes rightBytes with
  | nil =>
      cases leftEncoded
      cases rightEncoded
      rfl
  | @cons attr rest view others inductionHypothesis =>
      obtain ⟨uses, condition, restOrdered⟩ := ordered
      have sameActive := active_agree agree condition
      cases active : attr.active left with
      | true =>
          have rightActive := sameActive.symm.trans active
          obtain ⟨leftValue, leftValues, leftFound, leftLater, rfl⟩ :=
            yields_active active leftYields
          obtain ⟨rightValue, rightValues, rightFound, rightLater, rfl⟩ :=
            yields_active rightActive rightYields
          cases items with
          | cons equal later =>
              have twins := view.twins equal (unseen.1 active _ _ leftFound rightFound)
              obtain ⟨first, leftOthers, rightOthers, rfl, rfl, leftRest, rightRest, nextAgree⟩ :=
                body2bytes_cons_twins agree uses active rightActive (by
                  intro leftOther rightOther isLeft isRight
                  cases leftFound.symm.trans isLeft
                  cases rightFound.symm.trans isRight
                  exact twins) leftEncoded rightEncoded
              rw [inductionHypothesis restOrdered nextAgree leftLater rightLater later unseen.2
                leftRest rightRest]
      | false =>
          have rightInactive := sameActive.symm.trans active
          rw [body2bytes_inactive active] at leftEncoded
          rw [body2bytes_inactive rightInactive] at rightEncoded
          rw [yields_inactive active] at leftYields
          rw [yields_inactive rightInactive] at rightYields
          refine inductionHypothesis restOrdered ?_ leftYields rightYields items unseen.2
            leftEncoded rightEncoded
          rw [conditional_of_inactive active, Bool.and_false]
          exact agree

end Views

/-! ### Classes -/

/-- A class with what `==` compares of its attributes. -/
structure ComparedClass where
  cls : MessageClass
  views : Views cls.attributes_info

def Response_5500.compared : ComparedClass := ⟨Response_5500, .nil⟩

def Response_5501.compared (host : Host) : ComparedClass where
  cls := Response_5501 host
  views := .cons (.plain byte_faithful) <| .cons (.plain byteVector_faithful) <|
    .cons (.varFields (response_5501_fields_faithful host)) <| .cons .timeTrend .nil

def Response_5502.compared (host : Host) : ComparedClass where
  cls := Response_5502 host
  views := .cons (.plain byte_faithful) <| .cons (.plain byteVector_faithful) <|
    .cons (.plain uShort_faithful) <|
    .cons (.proxy UShort.format (response_5501_fields_faithful host)) .nil

def Response_5503.compared : ComparedClass where
  cls := Response_5503
  views := .cons (.plain uInt_faithful) <| .cons (.plain uInt_faithful) <|
    .cons (.plain byte_faithful) <| .cons (.plain byteVector_faithful) <|
    .cons (.proxy UShort.format response_5503_fields_faithful) .nil

def Response_5504.compared : ComparedClass where
  cls := Response_5504
  views := .plain _ (by simp [Response_5504])

def Response_5505.compared : ComparedClass where
  cls := Response_5505
  views := .plain _ (by simp [Response_5505])

def Response_5506.compared (host : Host) : ComparedClass where
  cls := Response_5506 host
  views := .plain _ (by simp [Response_5506])

def Response_5508.compared : ComparedClass where
  cls := Response_5508
  views := .plain _ (by simp [Response_5508])

def Response_5509.compared : ComparedClass where
  cls := Response_5509
  views := .plain _ (by simp [Response_5509])

def Response_5510.compared : ComparedClass where
  cls := Response_5510
  views := .plain _ (by simp [Response_5510])

def Response_5511.compared (host : Host) : ComparedClass where
  cls := Response_5511 host
  views := .cons (.plain (string_faithful host)) <| .cons (.plain uShort_faithful) <|
    .cons (.vector Byte.format (Response_5511.Data.SameData host) Response_5511.Data.twins) .nil

def Response_5512.compared (host : Host) : ComparedClass where
  cls := Response_5512 host
  views := .cons (.plain uShort_faithful) <| .cons (.plain (string_faithful host)) <|
    .cons (.plain byteVector_faithful) <|
    .cons (.varFields (response_5512_fields_faithful host)) .nil

def Response_5513.compared (host : Host) : ComparedClass where
  cls := Response_5513 host
  views := .cons (.plain uShort_faithful) <| .cons (.plain (string_faithful host)) <|
    .cons .timeTrend .nil

def Response_5514.compared (host : Host) : ComparedClass where
  cls := Response_5514 host
  views := .cons (.plain uShort_faithful) <| .cons (.plain (string_faithful host)) <|
    .cons (.plain uInt_faithful) <| .cons (.plain byte_faithful) <|
    .cons (.plain byte_faithful) <| .cons (.plain byteVector_faithful) <|
    .cons (.plain byte_faithful) <| .cons (.plain uInt_faithful) <|
    .cons (.plain uShort_faithful) <|
    .cons (.proxy UShort.format response_5503_fields_faithful) .nil

def Response_5515.compared (host : Host) : ComparedClass where
  cls := Response_5515 host
  views := .plain _ (by simp [Response_5515])

def Response_5516.compared (host : Host) : ComparedClass where
  cls := Response_5516 host
  views := .cons (.plain uShort_faithful) <| .cons (.plain byteVector_faithful) <|
    .cons (.plain uShort_faithful) <|
    .cons (.proxy UShort.format (response_5501_fields_faithful host)) .nil

def Response_5517.compared : ComparedClass where
  cls := Response_5517
  views := .plain _ (by simp [Response_5517])

def Response_5518.compared (host : Host) : ComparedClass where
  cls := Response_5518 host
  views := .plain _ (by simp [Response_5518, brokerData_faithful])

def Response_5519.compared (host : Host) : ComparedClass where
  cls := Response_5519 host
  views := .plain _ (by simp [Response_5519])

def Push_5514.compared (host : Host) : ComparedClass where
  cls := Push_5514 host
  views := .cons (.plain uShort_faithful) <| .cons (.plain (string_faithful host)) <|
    .cons (.plain byteVector_faithful) <| .cons (.plain byte_faithful) <|
    .cons (.plain uShort_faithful) <|
    .cons (.proxy UShort.format response_5503_fields_faithful) .nil

def Push_5516.compared (host : Host) : ComparedClass where
  cls := Push_5516 host
  views := .cons (.plain uShort_faithful) <| .cons (.plain uShort_faithful) <|
    .cons (.vector UShort.format Push_5516_Data.SameFields push_5516_data_twins) .nil

/-- The classes of what a client may receive, as `==` compares them. -/
def comparedClasses (host : Host) : List ComparedClass :=
  [Response_5500.compared, Response_5501.compared host, Response_5502.compared host,
    Response_5503.compared, Response_5504.compared, Response_5505.compared,
    Response_5506.compared host, Response_5508.compared, Response_5509.compared,
    Response_5510.compared, Response_5511.compared host, Response_5512.compared host,
    Response_5513.compared host, Response_5514.compared host, Response_5515.compared host,
    Response_5516.compared host, Response_5517.compared, Response_5518.compared host,
    Response_5519.compared host, Push_5514.compared host, Push_5516.compared host]

theorem comparedClasses_cls (host : Host) :
    (comparedClasses host).map ComparedClass.cls = serverClasses host := rfl

theorem comparedClasses_server {host : Host} {compared : ComparedClass}
    (member : compared ∈ comparedClasses host) : compared.cls ∈ serverClasses host := by
  rw [← comparedClasses_cls]
  exact List.mem_map_of_mem member

theorem comparedClasses_distinct (host : Host) :
    ((comparedClasses host).map fun compared => compared.cls.name).Nodup :=
  of_decide_eq_true rfl

/-- A class is compared in one way. -/
theorem compared_unique {host : Host} {left right : ComparedClass}
    (leftMember : left ∈ comparedClasses host) (rightMember : right ∈ comparedClasses host)
    (sameClass : left.cls = right.cls) : left = right :=
  List.inj_on_of_nodup_map (comparedClasses_distinct host) leftMember rightMember
    (by rw [sameClass])

/-! ### Messages -/

/-- The parts of a header on the wire, but for the size of the payload. -/
def Header.SameOnWire (left right : Header) : Prop :=
  left.prefixChar = right.prefixChar ∧ left.msg_id = right.msg_id ∧ left.flag = right.flag ∧
    left.unused = right.unused

namespace PlainMessage

/-- `tuple(self)`. -/
def Yields (host : Host) (self : PlainMessage) (items : List Val) : Prop :=
  ∃ compared ∈ comparedClasses host, compared.cls = self.cls ∧
    compared.views.yields self.attributes = some items

/-- `left == right`. -/
def Equal (host : Host) (left right : PlainMessage) : Prop :=
  ∃ leftItems rightItems, left.Yields host leftItems ∧ right.Yields host rightItems ∧
    List.Forall₂ Val.Equal leftItems rightItems

/-- What `==` does not look at is equal. -/
structure UnseenEqual (host : Host) (left right : PlainMessage) : Prop where
  cls : left.cls = right.cls
  header : left.header.SameOnWire right.header
  attributes : ∀ compared ∈ comparedClasses host, compared.cls = left.cls →
    compared.views.Unseen left.attributes right.attributes

theorem sizedHeader_tobytes {left right : PlainMessage}
    (same : left.header.SameOnWire right.header) (body : Bytes) :
    (left.sizedHeader body).tobytes = (right.sizedHeader body).tobytes := by
  obtain ⟨samePrefix, sameId, sameFlag, sameUnused⟩ := same
  simp only [Header.tobytes, sizedHeader, samePrefix, sameId, sameFlag, sameUnused]

theorem body2bytes_eq {host : Host} {left right : PlainMessage} (equal : left.Equal host right)
    (unseen : left.UnseenEqual host right) {leftBody rightBody : Bytes}
    (leftEncoded : left.body2bytes = .ok leftBody)
    (rightEncoded : right.body2bytes = .ok rightBody) : leftBody = rightBody := by
  obtain ⟨leftItems, rightItems, ⟨compared, member, isLeft, leftYields⟩,
    ⟨other, otherMember, isRight, rightYields⟩, items⟩ := equal
  have sameClass : other.cls = compared.cls := isRight.trans (unseen.cls.symm.trans isLeft.symm)
  obtain rfl := compared_unique otherMember member sameClass
  rw [PlainMessage.body2bytes, ← isLeft] at leftEncoded
  rw [PlainMessage.body2bytes, ← isRight] at rightEncoded
  have agree : AgreeOn [] left.attributes right.attributes := by
    intro name isMember
    cases isMember
  exact other.views.body2bytes_eq other.cls.wellFormed.ordered agree leftYields rightYields items
    (unseen.attributes other member isLeft) leftEncoded rightEncoded

theorem assign_of_server {host : Host} {self : PlainMessage}
    (member : self.cls ∈ serverClasses host) : self.assign = self := by
  simp [assign, serverClasses_noAssigns member]

theorem Equal.server {host : Host} {left right : PlainMessage} (equal : left.Equal host right) :
    left.cls ∈ serverClasses host ∧ right.cls ∈ serverClasses host := by
  obtain ⟨_, _, ⟨compared, member, isLeft, -⟩, ⟨other, otherMember, isRight, -⟩, -⟩ := equal
  rw [← isLeft, ← isRight]
  exact ⟨comparedClasses_server member, comparedClasses_server otherMember⟩

/-- Sub-messages that are equal, and equal in what is left out, have the same bytes. -/
theorem tobytes_eq {host : Host} {left right : PlainMessage} (equal : left.Equal host right)
    (unseen : left.UnseenEqual host right) {leftBytes rightBytes : Bytes}
    (leftEncoded : left.tobytes = .ok leftBytes) (rightEncoded : right.tobytes = .ok rightBytes) :
    leftBytes = rightBytes := by
  obtain ⟨leftServer, rightServer⟩ := equal.server
  obtain ⟨leftBody, leftHasBody, leftEncoded⟩ := exceptBind_eq_ok.mp leftEncoded
  obtain ⟨leftHeader, leftHasHeader, leftResult⟩ := exceptBind_eq_ok.mp leftEncoded
  obtain ⟨rightBody, rightHasBody, rightEncoded⟩ := exceptBind_eq_ok.mp rightEncoded
  obtain ⟨rightHeader, rightHasHeader, rightResult⟩ := exceptBind_eq_ok.mp rightEncoded
  cases leftResult
  cases rightResult
  rw [assign_of_server leftServer] at leftHasBody
  rw [assign_of_server rightServer] at rightHasBody
  cases body2bytes_eq equal unseen leftHasBody rightHasBody
  rw [sizedHeader_tobytes unseen.header leftBody] at leftHasHeader
  cases leftHasHeader.symm.trans rightHasHeader
  rfl

end PlainMessage

namespace Message

/-- `left == right` for two instances of one class. -/
def Equal (host : Host) (left right : Message) : Prop :=
  if left.cls.multiple then
    List.Forall₂ (PlainMessage.Equal host) left.submessages right.submessages
  else left.toPlainMessage.Equal host right.toPlainMessage

/-- What `==` does not look at is equal: the header, being nested or not, parts of the
attributes, and the same of the sub-messages. -/
structure UnseenEqual (host : Host) (left right : Message) : Prop where
  owned : left.owned = right.owned
  plain : left.toPlainMessage.UnseenEqual host right.toPlainMessage
  submessages : left.cls.multiple = true →
    List.Forall₂ (PlainMessage.UnseenEqual host) left.submessages right.submessages

theorem submessageBytes_eq {host : Host} {cls_name : ClassName} {left right : List PlainMessage}
    (equal : List.Forall₂ (PlainMessage.Equal host) left right)
    (unseen : List.Forall₂ (PlainMessage.UnseenEqual host) left right) {number : ℕ}
    {leftBytes rightBytes : Bytes}
    (leftEncoded : submessageBytes cls_name number left = .ok leftBytes)
    (rightEncoded : submessageBytes cls_name number right = .ok rightBytes) :
    leftBytes = rightBytes := by
  induction equal generalizing number leftBytes rightBytes with
  | nil =>
      cases leftEncoded
      cases rightEncoded
      rfl
  | cons headEqual _ inductionHypothesis =>
      cases unseen with
      | cons headUnseen later =>
          rw [submessageBytes] at leftEncoded rightEncoded
          split at leftEncoded
          next => cases leftEncoded
          next leftFirst leftWritten =>
            split at rightEncoded
            next => cases rightEncoded
            next rightFirst rightWritten =>
              obtain ⟨leftOthers, leftLater, leftResult⟩ := exceptBind_eq_ok.mp leftEncoded
              obtain ⟨rightOthers, rightLater, rightResult⟩ := exceptBind_eq_ok.mp rightEncoded
              cases leftResult
              cases rightResult
              rw [PlainMessage.tobytes_eq headEqual headUnseen leftWritten rightWritten,
                inductionHypothesis later leftLater rightLater]

/-- Two instances of a response or push class that are equal, and equal in what `==`
does not look at, have the same bytes. -/
theorem tobytes_eq_of_equal (host : Host) {cls : MessageClass}
    (member : cls ∈ serverClasses host) {left right : Message} (isLeft : left.cls = cls)
    (isRight : right.cls = cls) {leftBytes rightBytes : Bytes}
    (leftEncoded : (left.tobytes false).2 = .ok leftBytes)
    (rightEncoded : (right.tobytes false).2 = .ok rightBytes)
    (unseen : left.UnseenEqual host right) (equal : left.Equal host right) :
    leftBytes = rightBytes := by
  subst isLeft
  have noAssigns := serverClasses_noAssigns member
  obtain ⟨leftBody, leftHeader, leftHasBody, leftHasHeader, rfl⟩ := tobytes_eq_ok leftEncoded
  obtain ⟨rightBody, rightHeader, rightHasBody, rightHasHeader, rfl⟩ := tobytes_eq_ok rightEncoded
  rw [assign_of_nil noAssigns] at leftHasBody
  rw [assign_of_nil (by rw [isRight]; exact noAssigns)] at rightHasBody
  rw [body2bytes] at leftHasBody rightHasBody
  rw [isRight] at rightHasBody
  have sameBody : leftBody = rightBody := by
    rw [Equal] at equal
    split at equal
    next multiple =>
      rw [if_pos multiple] at leftHasBody rightHasBody
      exact submessageBytes_eq equal (unseen.submessages multiple) leftHasBody rightHasBody
    next plain =>
      rw [if_neg plain] at leftHasBody rightHasBody
      exact PlainMessage.body2bytes_eq equal unseen.plain leftHasBody rightHasBody
  subst sameBody
  rw [PlainMessage.sizedHeader_tobytes unseen.plain.header leftBody] at leftHasHeader
  cases leftHasHeader.symm.trans rightHasHeader
  rw [unseen.owned]

/-- Deals with the `flag` field selected. -/
def deals (rows : List Val) : Message :=
  Response_5503.new [("close_price", .int 0), ("data_pos", .int 0), ("need_clear_local", .int 0),
    ("fields", .list [.int 8]), ("data", .list rows)]

/-- Messages that only differ in their rows are equal. -/
theorem deals_equal (host : Host) (leftRows rightRows : List Val) :
    (deals leftRows).Equal host (deals rightRows) := by
  have shown (rows : List Val) : (deals rows).toPlainMessage.Yields host
      [.int 0, .int 0, .int 0, .list [.int 8], .obj [] []] :=
    ⟨Response_5503.compared, by simp [comparedClasses], rfl, rfl⟩
  have proxies : Val.Equal (.obj [] []) (.obj [] []) := .object (.inl rfl) rfl rfl .nil
  exact ⟨_, _, shown leftRows, shown rightRows, .cons (.int 0) (.cons (.int 0) (.cons (.int 0)
    (.cons (.list (.cons (.int 8) .nil)) (.cons proxies .nil))))⟩

/-- They agree on what `==` does not look at where their rows are equal. -/
theorem deals_unseenEqual (host : Host) {leftRows rightRows : List Val}
    (rows : List.Forall₂ EqualRow leftRows rightRows) :
    (deals leftRows).UnseenEqual host (deals rightRows) where
  owned := rfl
  plain := by
    refine ⟨rfl, ⟨rfl, rfl, rfl, rfl⟩, ?_⟩
    intro compared member isClass
    have isMember : Response_5503.compared ∈ comparedClasses host := by simp [comparedClasses]
    obtain rfl := compared_unique member isMember isClass
    refine ⟨fun _ _ _ _ _ => trivial, fun _ _ _ _ _ => trivial, fun _ _ _ _ _ => trivial,
      fun _ _ _ _ _ => trivial, ?_, trivial⟩
    intro _ leftValue rightValue isLeft isRight leftOther rightOther leftIs rightIs
    subst leftIs
    subst rightIs
    cases isLeft
    cases isRight
    exact rows
  submessages := fun multiple => by cases multiple

/-- A row given by its value, and one given as an object. -/
theorem deals_tobytes_eq : ∃ leftBytes rightBytes,
    ((deals [.list [.int 1]]).tobytes false).2 = .ok leftBytes ∧
    ((deals [.obj ["flag"] [("flag", .int 1)]]).tobytes false).2 = .ok rightBytes ∧
    leftBytes = rightBytes := by
  have row : EqualRow (.list [.int 1]) (.obj ["flag"] [("flag", .int 1)]) := by
    refine ⟨.object (.inr rfl) rfl rfl (.cons (.int 1) .nil), ?_⟩
    intro leftItems rightItems isLeft isRight
    cases isLeft
    cases isRight
    exact .cons trivial .nil
  have member : Response_5503 ∈ serverClasses asciiHost := by
    simp [serverClasses, responseClasses]
  exact ⟨_, _, rfl, rfl, tobytes_eq_of_equal asciiHost member rfl rfl rfl rfl
    (deals_unseenEqual asciiHost (.cons row .nil)) (deals_equal asciiHost _ _)⟩

/-- Without the condition: no row and one row, equal and with different bytes. -/
theorem deals_equal_bytes_differ :
    (deals []).Equal asciiHost (deals [.list [.int 1]]) ∧
    ((deals []).tobytes false).2 =
      .ok [0x7b, 0x7f, 0x15, 0, 0, 13, 0, 0, 0, 0, 0, 0, 0, 0, 0, 0, 1, 8, 0, 0, 0x7d] ∧
    ((deals [.list [.int 1]]).tobytes false).2 =
      .ok [0x7b, 0x7f, 0x15, 0, 0, 14, 0, 0, 0, 0, 0, 0, 0, 0, 0, 0, 1, 8, 1, 0, 1, 0x7d] := by
  have equal (rows : List Val) (others : List Val) := deals_equal asciiHost rows others
  refine ⟨equal [] [.list [.int 1]], ?_, ?_⟩
  · decide +kernel
  · decide +kernel

end Message

end StdPrograms.Ouou

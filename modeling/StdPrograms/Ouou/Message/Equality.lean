import Mathlib.Data.List.Nodup
import StdPrograms.Ouou.Message.ResponseTypes

/-!
Contract: `==` on attribute values, and the types that encode equal values to
equal bytes.

Owns the equality of integers, texts, lists, objects and prices, the relation of
two values that a type does not tell apart on the wire, and the proof that every
type without an uncompared part relates equal values.

Does not own messages, or the types whose contents `==` does not look at.
-/

namespace StdPrograms.Ouou

open StdPrograms.Foundation BinaryObject

/-! ### Equality of values -/

/-- `DIGITS[market]`. -/
def MarketPrice.DIGITS (market : Str) : Option Nat :=
  if market = "HK".toList then some 3
  else if market = "NASDAQ".toList then some 2
  else none

/-- `compare` of two prices; `none` where a market has no digits. -/
def MarketPrice.compare (value : ℤ) (market : Str) (other : ℤ) (otherMarket : Str) : Option ℤ := do
  let digits ← DIGITS market
  let otherDigits ← DIGITS otherMarket
  let repr_digits := max digits otherDigits
  return value * 10 ^ (repr_digits - digits) - other * 10 ^ (repr_digits - otherDigits)

namespace Val

def isObject : Val → Bool
  | .obj _ _ => true
  | _ => false

/-- `left == right` is true. Elements that are one object are equal without being
compared, which only matters for prices. -/
inductive Equal : Val → Val → Prop where
  | none : Equal .none .none
  | int (value : ℤ) : Equal (.int value) (.int value)
  | str (value : Str) : Equal (.str value) (.str value)
  | list {left right : List Val} (items : List.Forall₂ Equal left right) :
      Equal (.list left) (.list right)
  /-- `BinaryObject.__eq__`: `tuple(self) == tuple(other)`. -/
  | object {left right : Val} {leftItems rightItems : List Val}
      (isObject : left.isObject = true ∨ right.isObject = true)
      (leftYields : left.iter = some leftItems) (rightYields : right.iter = some rightItems)
      (items : List.Forall₂ Equal leftItems rightItems) : Equal left right
  | prices {value other : ℤ} {market otherMarket : Str}
      (equal : MarketPrice.compare value market other otherMarket = some 0) :
      Equal (.price value market) (.price other otherMarket)
  | identical (value : ℤ) (market : Str) : Equal (.price value market) (.price value market)
  | priceInt (value : ℤ) (market : Str) : Equal (.price value market) (.int value)
  | intPrice (value : ℤ) (market : Str) : Equal (.int value) (.price value market)

/-- Two prices have the same plain value, whatever their markets. -/
def SamePrice : Val → Val → Prop
  | .price value _, .price other _ => value = other
  | _, _ => True

theorem Equal.of_int {value : ℤ} {right : Val} (equal : Equal (.int value) right) :
    right = .int value ∨ ∃ market, right = .price value market := by
  cases equal with
  | int => exact .inl rfl
  | intPrice _ market => exact .inr ⟨market, rfl⟩
  | object _ leftYields => cases leftYields

theorem Equal.of_str {text : Str} {right : Val} (equal : Equal (.str text) right) :
    right = .str text := by
  cases equal with
  | str => rfl
  | object _ leftYields => cases leftYields

/-- Equal values both yield equal items, or both yield nothing and are no objects. -/
theorem Equal.iter {left right : Val} (equal : Equal left right) :
    (∃ leftItems rightItems, left.iter = some leftItems ∧ right.iter = some rightItems ∧
      List.Forall₂ Equal leftItems rightItems) ∨
    (left.iter = Option.none ∧ left.isObject = false ∧
      right.iter = Option.none ∧ right.isObject = false) := by
  cases equal with
  | list items => exact .inl ⟨_, _, rfl, rfl, items⟩
  | object _ leftYields rightYields items => exact .inl ⟨_, _, leftYields, rightYields, items⟩
  | none | int | str | prices | identical | priceInt | intPrice => exact .inr ⟨rfl, rfl, rfl, rfl⟩

theorem Equal.items {left right : Val} (equal : Equal left right) {leftItems rightItems : List Val}
    (leftYields : left.iter = some leftItems) (rightYields : right.iter = some rightItems) :
    List.Forall₂ Equal leftItems rightItems := by
  rcases equal.iter with ⟨_, _, leftYields', rightYields', items⟩ | ⟨none, -⟩
  · cases Option.some.inj (leftYields.symm.trans leftYields')
    cases Option.some.inj (rightYields.symm.trans rightYields')
    exact items
  · rw [leftYields] at none
    cases none

end Val

/-- Related lists are related place by place. -/
theorem forall₂_at {related : Val → Val → Prop} {left right : List Val}
    (items : List.Forall₂ related left right) {index : ℕ} {leftValue rightValue : Val}
    (isLeft : left[index]? = some leftValue) (isRight : right[index]? = some rightValue) :
    related leftValue rightValue := by
  obtain ⟨leftBound, rfl⟩ := List.getElem?_eq_some_iff.mp isLeft
  obtain ⟨rightBound, rfl⟩ := List.getElem?_eq_some_iff.mp isRight
  exact (List.forall₂_iff_get.mp items).2 index leftBound rightBound

/-! ### Values that a type does not tell apart -/

namespace Codec

/-- Where both values are encoded, they are encoded alike; and they are the same
value, where the type is decoded exactly. -/
def Twins (type : Codec) (left right : Val) : Prop :=
  ∀ owner other leftBytes rightBytes, AgreeOn type.uses owner other →
    type.tobytes owner left = .ok leftBytes → type.tobytes other right = .ok rightBytes →
      leftBytes = rightBytes ∧ (type.literal = true → left = right)

/-- The type does not tell its defaults apart, whatever the owners. -/
def DefaultTwins (type : Codec) : Prop :=
  ∀ {self other left right}, type.default self = .ok left → type.default other = .ok right →
    type.Twins left right

/-- The type does not tell equal values apart, nor its defaults. -/
structure Faithful (type : Codec) : Prop where
  equal : ∀ {left right}, Val.Equal left right → type.Twins left right
  defaults : type.DefaultTwins

/-- The encoding does not look at the owner. -/
def Ownerless (type : Codec) : Prop :=
  ∀ owner other value, type.tobytes owner value = type.tobytes other value

theorem Twins.of_eq {type : Codec} (ownerless : type.Ownerless) {left right : Val}
    (same : ∀ owner other leftBytes rightBytes, type.tobytes owner left = .ok leftBytes →
      type.tobytes other right = .ok rightBytes → left = right) : type.Twins left right := by
  intro owner other leftBytes rightBytes _ leftEncoded rightEncoded
  have equal := same owner other leftBytes rightBytes leftEncoded rightEncoded
  rw [← equal, ownerless other owner, leftEncoded] at rightEncoded
  exact ⟨Except.ok.inj rightEncoded, fun _ => equal⟩

theorem Twins.refl {type : Codec} (ownerless : type.Ownerless) (value : Val) :
    type.Twins value value :=
  Twins.of_eq ownerless fun _ _ _ _ _ _ => rfl

/-- A type is faithful when equal values that it encodes are the same, and its
default is fixed. -/
theorem Faithful.of_eq {type : Codec} (ownerless : type.Ownerless) {default : Val}
    (fixed : ∀ self, type.default self = .ok default)
    (same : ∀ {left right : Val} {owner leftBytes}, Val.Equal left right →
      type.tobytes owner left = .ok leftBytes →
      ∀ {other rightBytes}, type.tobytes other right = .ok rightBytes → left = right) :
    type.Faithful where
  equal := by
    intro left right equal
    exact Twins.of_eq ownerless fun _ _ _ _ leftEncoded rightEncoded =>
      same equal leftEncoded rightEncoded
  defaults := by
    intro self other left right leftDefault rightDefault
    cases Except.ok.inj ((fixed self).symm.trans leftDefault)
    cases Except.ok.inj ((fixed other).symm.trans rightDefault)
    exact Twins.refl ownerless default

end Codec

/-! ### Integers and texts -/

theorem integerCodec_faithful (format : IntFormat) (interpret : ℤ → ℤ) (carried : ℤ → Prop)
    (kept : ∀ number, carried number → interpret number = number) :
    (integerCodec format interpret carried kept).Faithful := by
  apply Codec.Faithful.of_eq (fun _ _ _ => rfl) fun _ => rfl
  intro left right owner leftBytes equal leftPacked other rightBytes rightPacked
  obtain ⟨number, rfl, -⟩ := packVal_eq_ok format leftPacked
  obtain ⟨other, rfl, -⟩ := packVal_eq_ok format rightPacked
  rcases equal.of_int with same | ⟨market, isPrice⟩
  · exact same.symm
  · cases isPrice

theorem plainInteger_faithful (format : IntFormat) : (plainInteger format).Faithful :=
  integerCodec_faithful format id format.Holds fun _ _ => rfl

@[simp] theorem byte_faithful : Wire.Byte.Faithful := plainInteger_faithful _
@[simp] theorem uShort_faithful : Wire.UShort.Faithful := plainInteger_faithful _
@[simp] theorem uInt_faithful : Wire.UInt.Faithful := plainInteger_faithful _
@[simp] theorem int_faithful : Wire.Int.Faithful := plainInteger_faithful _
@[simp] theorem digitInt_faithful (digit_size : ℕ) : (Wire.DigitInt digit_size).Faithful :=
  int_faithful
@[simp] theorem largeInt_faithful : Wire.LargeInt.Faithful := integerCodec_faithful _ _ _ _
@[simp] theorem priceSeat_faithful : Wire.PriceSeat.Faithful := uInt_faithful

@[simp] theorem char_faithful : Wire.Char.Faithful := by
  apply Codec.Faithful.of_eq (fun _ _ _ => rfl) fun _ => rfl
  intro left right owner leftBytes equal leftPacked other rightBytes rightPacked
  obtain ⟨text, byte, rfl, -⟩ := Char.pack_eq_ok leftPacked
  exact equal.of_str.symm

@[simp] theorem cString_faithful (codec : TextCodec) (array_size : ℕ) :
    (Wire.CString codec array_size).Faithful := by
  apply Codec.Faithful.of_eq (fun _ _ _ => rfl) fun _ => rfl
  intro left right owner leftBytes equal leftEncoded other rightBytes rightEncoded
  cases left with
  | str text => exact equal.of_str.symm
  | none | int | list | obj | price => cases leftEncoded

theorem encodedString_faithful (codec : TextCodec) : (Wire.EncodedString codec).Faithful := by
  apply Codec.Faithful.of_eq (fun _ _ _ => rfl) fun _ => rfl
  intro left right owner leftBytes equal leftEncoded other rightBytes rightEncoded
  obtain ⟨text, s, b, rfl, -⟩ := EncodedString.tobytes_eq_ok leftEncoded
  exact equal.of_str.symm

@[simp] theorem string_faithful (host : Host) : (Wire.String host).Faithful :=
  encodedString_faithful _
@[simp] theorem gbkString_faithful (host : Host) : (Wire.GBKString host).Faithful :=
  encodedString_faithful _

/-! ### Lists -/

/-- Elements that the class does not tell apart make lists that it does not. -/
theorem typeList_twins {elem_cls : Codec} {left right : List Val} {leftBytes rightBytes : Bytes}
    (items : List.Forall₂ elem_cls.Twins left right)
    (leftEncoded : TypeList.tobytes elem_cls.toWireType left = .ok leftBytes)
    (rightEncoded : TypeList.tobytes elem_cls.toWireType right = .ok rightBytes) :
    leftBytes = rightBytes ∧ (elem_cls.literal = true → left = right) := by
  induction items generalizing leftBytes rightBytes with
  | nil =>
      cases leftEncoded
      cases rightEncoded
      exact ⟨rfl, fun _ => rfl⟩
  | cons head _ inductionHypothesis =>
      obtain ⟨b, bs, leftFirst, leftOthers, rfl⟩ := TypeList.tobytes_cons leftEncoded
      obtain ⟨b', bs', rightFirst, rightOthers, rfl⟩ := TypeList.tobytes_cons rightEncoded
      obtain ⟨rfl, sameFirst⟩ := head [] [] b b' (AgreeOn.refl _ _) leftFirst rightFirst
      obtain ⟨rfl, sameOthers⟩ := inductionHypothesis leftOthers rightOthers
      refine ⟨rfl, ?_⟩
      intro literal
      rw [sameFirst literal, sameOthers literal]

/-- Two lists of pairwise equal elements. -/
def ListTwins (elem_cls : Codec) (left right : Val) : Prop :=
  ∀ leftItems rightItems, left = .list leftItems → right = .list rightItems →
    List.Forall₂ elem_cls.Twins leftItems rightItems

theorem listTwins_of_equal {elem_cls : Codec} (faithful : elem_cls.Faithful) {left right : Val}
    (equal : Val.Equal left right) : ListTwins elem_cls left right := by
  rintro leftItems rightItems rfl rfl
  exact (equal.items rfl rfl).imp fun _ _ => faithful.equal

theorem listTwins_nil (elem_cls : Codec) : ListTwins elem_cls (.list []) (.list []) := by
  intro leftItems rightItems isLeft isRight
  cases isLeft
  cases isRight
  exact .nil

/-- A type that does not tell lists of twins apart, and whose default is the empty list. -/
theorem faithful_of_lists {type elem_cls : Codec} (faithful : elem_cls.Faithful)
    (empty : ∀ self, type.default self = .ok (.list []))
    (twins : ∀ {left right}, ListTwins elem_cls left right → type.Twins left right) :
    type.Faithful where
  equal := fun equal => twins (listTwins_of_equal faithful equal)
  defaults := by
    intro self other left right leftDefault rightDefault
    cases Except.ok.inj ((empty self).symm.trans leftDefault)
    cases Except.ok.inj ((empty other).symm.trans rightDefault)
    exact twins (listTwins_nil elem_cls)

theorem vector_twins {size_cls : IntFormat} {elem_cls : Codec} {left right : Val}
    (items : ListTwins elem_cls left right) : (Wire.Vector size_cls elem_cls).Twins left right := by
  intro owner other leftBytes rightBytes _ leftEncoded rightEncoded
  cases left with
  | none | int | str | obj | price => cases leftEncoded
  | list leftItems =>
      cases right with
      | none | int | str | obj | price => cases rightEncoded
      | list rightItems =>
          have twins := items _ _ rfl rfl
          obtain ⟨head, b, leftPacked, leftContent, rfl⟩ := Vector.tobytes_eq_ok leftEncoded
          obtain ⟨head', b', rightPacked, rightContent, rfl⟩ := Vector.tobytes_eq_ok rightEncoded
          obtain ⟨rfl, same⟩ := typeList_twins twins leftContent rightContent
          rw [← twins.length_eq, leftPacked] at rightPacked
          cases rightPacked
          exact ⟨rfl, fun literal => congrArg Val.list (same literal)⟩

@[simp] theorem vector_faithful (size_cls : IntFormat) {elem_cls : Codec}
    (faithful : elem_cls.Faithful) : (Wire.Vector size_cls elem_cls).Faithful :=
  faithful_of_lists faithful (fun _ => rfl) vector_twins

@[simp] theorem byteVector_faithful : Wire.ByteVector.Faithful :=
  vector_faithful Byte.format byte_faithful

theorem array_twins {array_size : ℕ} {elem_cls : Codec} (faithful : elem_cls.Faithful)
    {left right : Val} (items : ListTwins elem_cls left right) :
    (Wire.Array array_size elem_cls).Twins left right := by
  intro owner other leftBytes rightBytes _ leftEncoded rightEncoded
  cases left with
  | none | int | str | obj | price => cases leftEncoded
  | list leftItems =>
      cases right with
      | none | int | str | obj | price => cases rightEncoded
      | list rightItems =>
          have twins := items _ _ rfl rfl
          obtain ⟨default, leftDefault, leftContent⟩ := exceptBind_eq_ok.mp leftEncoded
          obtain ⟨default', rightDefault, rightContent⟩ := exceptBind_eq_ok.mp rightEncoded
          rw [← twins.length_eq] at rightContent
          have padding : List.Forall₂ elem_cls.Twins
              (List.replicate (array_size - leftItems.length) default)
              (List.replicate (array_size - leftItems.length) default') := by
            rw [List.forall₂_iff_get]
            refine ⟨by simp, ?_⟩
            intro index leftBound rightBound
            simpa using faithful.defaults leftDefault rightDefault
          obtain ⟨rfl, same⟩ :=
            typeList_twins (List.rel_append twins padding) leftContent rightContent
          refine ⟨rfl, ?_⟩
          intro literal
          exact congrArg Val.list (List.append_inj_left (same literal) twins.length_eq)

@[simp] theorem array_faithful (array_size : ℕ) {elem_cls : Codec}
    (faithful : elem_cls.Faithful) : (Wire.Array array_size elem_cls).Faithful :=
  faithful_of_lists faithful (fun _ => rfl) (array_twins faithful)

theorem varArray_faithful (size_name : ClassName) {elem_cls : Codec}
    (faithful : elem_cls.Faithful) : (Wire.VarArray size_name elem_cls).Faithful := by
  have twins {left right : Val} (items : ListTwins elem_cls left right) :
      (Wire.VarArray size_name elem_cls).Twins left right := by
    intro owner other leftBytes rightBytes _ leftEncoded rightEncoded
    cases left with
    | none | int | str | obj | price => cases leftEncoded
    | list leftItems =>
        cases right with
        | none | int | str | obj | price => cases rightEncoded
        | list rightItems =>
            obtain ⟨rfl, same⟩ := typeList_twins (items _ _ rfl rfl) leftEncoded rightEncoded
            exact ⟨rfl, fun literal => congrArg Val.list (same literal)⟩
  exact faithful_of_lists faithful (fun _ => rfl) twins

/-! ### Objects -/

namespace BinaryObject

/-- A type and a condition only look at attributes that were decoded exactly
before; names may repeat, as they do in a row whose fields repeat. -/
def Ordered : List String → List Attribute → Prop
  | _, [] => True
  | exact, attr :: rest =>
      attr.type.uses ⊆ exact ∧ (∀ name ∈ attr.condition, name ∈ exact) ∧
        Ordered (if attr.type.literal && attr.condition.isNone then attr.name :: exact else exact)
          rest

theorem WellFormed.ordered {known exact : List String} {attrs : List Attribute}
    (wellFormed : WellFormed known exact attrs) : Ordered exact attrs := by
  induction attrs generalizing known exact with
  | nil => trivial
  | cons attr rest inductionHypothesis =>
      obtain ⟨-, uses, condition, rest⟩ := wellFormed
      exact ⟨uses, condition, inductionHypothesis rest⟩

theorem ordered_selection {attrs : List Attribute}
    (unconditional : ∀ attr ∈ attrs, attr.condition = none)
    (selfContained : ∀ attr ∈ attrs, attr.type.uses = []) (exact : List String) :
    Ordered exact attrs := by
  induction attrs generalizing exact with
  | nil => trivial
  | cons attr rest inductionHypothesis =>
      refine ⟨?_, ?_, ?_⟩
      · rw [selfContained attr (by simp)]
        exact List.nil_subset _
      · rw [unconditional attr (by simp)]
        simp
      · exact inductionHypothesis (fun other member => unconditional other (by simp [member]))
          (fun other member => selfContained other (by simp [member])) _

/-- Objects that agree on what was decoded exactly agree on whether an attribute
is there. -/
theorem active_agree {exact : List String} {left right : Obj} {attr : Attribute}
    (agree : AgreeOn exact left right) (condition : ∀ name ∈ attr.condition, name ∈ exact) :
    attr.active left = attr.active right :=
  Attribute.active_congr fun name isCondition => agree name (condition name isCondition)

/-- An attribute that is not there has a condition. -/
theorem conditional_of_inactive {attr : Attribute} {self : Obj}
    (inactive : attr.active self = false) : attr.condition.isNone = false := by
  cases isCondition : attr.condition with
  | none => simp [Attribute.active, isCondition] at inactive
  | some name => rfl

/-- The first attribute of two encoded objects: its bytes are equal, the others are
still to be compared, and the agreement grows by a literal attribute. -/
theorem body2bytes_cons_twins {cls_name : String} {attr : Attribute} {rest : List Attribute}
    {exact : List String} {left right : Obj} {leftBytes rightBytes : Bytes}
    (agree : AgreeOn exact left right) (uses : attr.type.uses ⊆ exact)
    (leftActive : attr.active left = true) (rightActive : attr.active right = true)
    (twins : ∀ leftValue rightValue, left.get attr.name = some leftValue →
      right.get attr.name = some rightValue → attr.type.Twins leftValue rightValue)
    (leftEncoded : body2bytes cls_name (attr :: rest) left = .ok leftBytes)
    (rightEncoded : body2bytes cls_name (attr :: rest) right = .ok rightBytes) :
    ∃ first leftOthers rightOthers, leftBytes = first ++ leftOthers ∧
      rightBytes = first ++ rightOthers ∧
      body2bytes cls_name rest left = .ok leftOthers ∧
      body2bytes cls_name rest right = .ok rightOthers ∧
      AgreeOn (if attr.type.literal && attr.condition.isNone then attr.name :: exact else exact)
        left right := by
  obtain ⟨leftValue, b, bs, leftFound, leftWritten, leftOthers, rfl⟩ :=
    body2bytes_active leftActive leftEncoded
  obtain ⟨rightValue, b', bs', rightFound, rightWritten, rightOthers, rfl⟩ :=
    body2bytes_active rightActive rightEncoded
  obtain ⟨rfl, same⟩ := twins leftValue rightValue leftFound rightFound left right b b'
    (fun name member => agree name (uses member)) leftWritten rightWritten
  refine ⟨b, bs, bs', rfl, rfl, leftOthers, rightOthers, ?_⟩
  intro name member
  split at member
  next literal =>
    simp only [Bool.and_eq_true] at literal
    rcases List.mem_cons.mp member with rfl | member
    · rw [leftFound, rightFound, same literal.1]
    · exact agree name member
  next => exact agree name member

/-- Objects whose attributes are pairwise not told apart encode to the same bytes. -/
theorem body2bytes_twins {cls_name : String} {attrs : List Attribute} {exact : List String}
    (ordered : Ordered exact attrs) {left right : Obj} {leftBytes rightBytes : Bytes}
    (agree : AgreeOn exact left right)
    (twins : ∀ attr ∈ attrs, ∀ leftValue rightValue, left.get attr.name = some leftValue →
      right.get attr.name = some rightValue → attr.type.Twins leftValue rightValue)
    (leftEncoded : body2bytes cls_name attrs left = .ok leftBytes)
    (rightEncoded : body2bytes cls_name attrs right = .ok rightBytes) :
    leftBytes = rightBytes := by
  induction attrs generalizing exact leftBytes rightBytes with
  | nil =>
      cases leftEncoded
      cases rightEncoded
      rfl
  | cons attr rest inductionHypothesis =>
      obtain ⟨uses, condition, restOrdered⟩ := ordered
      have sameActive := active_agree agree condition
      have restTwins := fun other member => twins other (List.mem_cons_of_mem _ member)
      cases active : attr.active left with
      | true =>
          obtain ⟨first, leftOthers, rightOthers, rfl, rfl, leftRest, rightRest, nextAgree⟩ :=
            body2bytes_cons_twins agree uses active (sameActive.symm.trans active)
              (twins attr List.mem_cons_self) leftEncoded rightEncoded
          rw [inductionHypothesis restOrdered nextAgree restTwins leftRest rightRest]
      | false =>
          rw [body2bytes_inactive active] at leftEncoded
          rw [body2bytes_inactive (sameActive.symm.trans active)] at rightEncoded
          refine inductionHypothesis restOrdered ?_ restTwins leftEncoded rightEncoded
          rw [conditional_of_inactive active, Bool.and_false]
          exact agree

/-- Both objects have the same attributes, and the types do not tell them apart. -/
def Paired (attrs : List Attribute) (left right : Obj) : Prop :=
  ∀ attr ∈ attrs, left.has attr.name = right.has attr.name ∧
    ∀ leftValue rightValue, left.get attr.name = some leftValue →
      right.get attr.name = some rightValue → attr.type.Twins leftValue rightValue

/-- Two rows of one length whose values the attributes' types do not tell apart. -/
def RowTwins (attrs : List Attribute) (left right : List Val) : Prop :=
  left.length = right.length ∧
    ∀ (index : ℕ) (attr : Attribute) (leftValue rightValue : Val), attrs[index]? = some attr →
      left[index]? = some leftValue → right[index]? = some rightValue →
        attr.type.Twins leftValue rightValue

/-- Two values that a class can be made from: two such rows, or two values that
yield nothing. -/
def RowPair (attrs : List Attribute) (left right : Val) : Prop :=
  (∃ leftItems rightItems, left.iter = some leftItems ∧ right.iter = some rightItems ∧
    RowTwins attrs leftItems rightItems) ∨
  (left.iter = none ∧ left.isObject = false ∧ right.iter = none ∧ right.isObject = false)

/-- Attributes of one name are one attribute. -/
def Coherent (attrs : List Attribute) : Prop :=
  ∀ attr ∈ attrs, ∀ other ∈ attrs, attr.name = other.name → attr = other

theorem WellFormed.fresh {known exact : List String} {attrs : List Attribute}
    (wellFormed : WellFormed known exact attrs) :
    (names attrs).Nodup ∧ ∀ name ∈ names attrs, name ∉ known := by
  induction attrs generalizing known exact with
  | nil => exact ⟨List.nodup_nil, fun _ member => by cases member⟩
  | cons attr rest inductionHypothesis =>
      obtain ⟨unknown, -, -, wellFormed⟩ := wellFormed
      obtain ⟨distinct, fresh⟩ := inductionHypothesis wellFormed
      rw [names, List.map_cons]
      constructor
      · rw [List.nodup_cons]
        exact ⟨fun member => fresh attr.name member (by simp), distinct⟩
      · intro name member
        rcases List.mem_cons.mp member with rfl | member
        · exact unknown
        · exact fun isKnown => fresh name member (by simp [isKnown])

theorem coherent_of_nodup {attrs : List Attribute} (distinct : (names attrs).Nodup) :
    Coherent attrs :=
  fun _ member _ otherMember sameName =>
    List.inj_on_of_nodup_map distinct member otherMember sameName

theorem RowTwins.of_forall₂ {attrs : List Attribute} {related : Val → Val → Prop}
    {left right : List Val} (items : List.Forall₂ related left right)
    (twins : ∀ attr ∈ attrs, ∀ {leftValue rightValue}, related leftValue rightValue →
      attr.type.Twins leftValue rightValue) : RowTwins attrs left right := by
  refine ⟨items.length_eq, ?_⟩
  intro index attr leftValue rightValue isAttr isLeft isRight
  apply twins attr (List.mem_of_getElem? isAttr)
  exact forall₂_at items isLeft isRight

theorem RowTwins.tail {attr : Attribute} {attrs : List Attribute} {leftValue rightValue : Val}
    {left right : List Val}
    (twins : RowTwins (attr :: attrs) (leftValue :: left) (rightValue :: right)) :
    RowTwins attrs left right := by
  refine ⟨Nat.succ.inj twins.1, ?_⟩
  intro index other leftOther rightOther isAttr isLeft isRight
  exact twins.2 (index + 1) other leftOther rightOther (by simpa using isAttr)
    (by simpa using isLeft) (by simpa using isRight)

theorem RowPair.of_equal {attrs : List Attribute} {left right : Val}
    (equal : Val.Equal left right)
    (faithful : ∀ attr ∈ attrs, attr.type.Faithful) : RowPair attrs left right := by
  rcases equal.iter with ⟨leftItems, rightItems, leftYields, rightYields, items⟩ | none
  · refine .inl ⟨leftItems, rightItems, leftYields, rightYields, ?_⟩
    exact RowTwins.of_forall₂ items fun attr member => (faithful attr member).equal
  · exact .inr none

/-! ### Objects from rows -/

/-- Setting one attribute in both objects keeps them paired. -/
theorem paired_set {attrs : List Attribute} (coherent : Coherent attrs) {left right : Obj}
    (paired : Paired attrs left right) {attr : Attribute} (member : attr ∈ attrs)
    {leftValue rightValue : Val} (twins : attr.type.Twins leftValue rightValue) :
    Paired attrs (left.set attr.name leftValue) (right.set attr.name rightValue) := by
  intro other otherMember
  by_cases sameName : other.name = attr.name
  · cases coherent other otherMember attr member sameName
    refine ⟨by simp [Obj.has], ?_⟩
    intro leftOther rightOther isLeft isRight
    rw [Obj.get_set_self] at isLeft isRight
    cases isLeft
    cases isRight
    exact twins
  · rw [Obj.has, Obj.has, Obj.get_set_other _ _ sameName, Obj.get_set_other _ _ sameName]
    exact paired other otherMember

theorem setPositional_paired {attrs rest : List Attribute} (coherent : Coherent attrs)
    (contained : ∀ attr ∈ rest, attr ∈ attrs) {leftItems rightItems : List Val}
    (twins : RowTwins rest leftItems rightItems) {left right leftAfter rightAfter : Obj}
    (paired : Paired attrs left right)
    (leftSet : setPositional rest leftItems left = .ok leftAfter)
    (rightSet : setPositional rest rightItems right = .ok rightAfter) :
    Paired attrs leftAfter rightAfter := by
  induction rest generalizing leftItems rightItems left right with
  | nil =>
      cases leftItems with
      | cons => cases leftSet
      | nil =>
          cases rightItems with
          | cons => cases rightSet
          | nil =>
              cases leftSet
              cases rightSet
              exact paired
  | cons attr rest inductionHypothesis =>
      cases leftItems with
      | nil =>
          cases rightItems with
          | cons => exact absurd twins.1 (by simp)
          | nil =>
              cases leftSet
              cases rightSet
              exact paired
      | cons leftValue leftItems =>
          cases rightItems with
          | nil => exact absurd twins.1 (by simp)
          | cons rightValue rightItems =>
              have first := twins.2 0 attr leftValue rightValue rfl rfl rfl
              have member := contained attr List.mem_cons_self
              exact inductionHypothesis
                (fun other isOther => contained other (List.mem_cons_of_mem _ isOther))
                twins.tail (paired_set coherent paired member first) leftSet rightSet

theorem construct_paired {attrs rest : List Attribute} (coherent : Coherent attrs)
    (contained : ∀ attr ∈ rest, attr ∈ attrs)
    (defaults : ∀ attr ∈ attrs, attr.type.DefaultTwins)
    {left right leftAfter rightAfter : Obj} (paired : Paired attrs left right)
    (leftConstructed : construct rest left = .ok leftAfter)
    (rightConstructed : construct rest right = .ok rightAfter) :
    Paired attrs leftAfter rightAfter := by
  induction rest generalizing left right with
  | nil =>
      cases leftConstructed
      cases rightConstructed
      exact paired
  | cons attr rest inductionHypothesis =>
      have member := contained attr List.mem_cons_self
      have later := fun other isOther => contained other (List.mem_cons_of_mem attr isOther)
      rw [construct] at leftConstructed rightConstructed
      rw [← (paired attr member).1] at rightConstructed
      split at leftConstructed
      next skipped =>
        rw [if_pos skipped] at rightConstructed
        exact inductionHypothesis later paired leftConstructed rightConstructed
      next missing =>
        rw [if_neg missing] at rightConstructed
        obtain ⟨leftValue, leftDefault, leftConstructed⟩ := exceptBind_eq_ok.mp leftConstructed
        obtain ⟨rightValue, rightDefault, rightConstructed⟩ :=
          exceptBind_eq_ok.mp rightConstructed
        exact inductionHypothesis later (paired_set coherent paired member
          (defaults attr member leftDefault rightDefault)) leftConstructed rightConstructed

theorem paired_nil (attrs : List Attribute) : Paired attrs [] [] := by
  intro attr _
  refine ⟨rfl, ?_⟩
  intro leftValue rightValue isLeft
  cases isLeft

/-- `cls(left)` and `cls(right)`. -/
theorem fromIterable_paired {attrs : List Attribute} (coherent : Coherent attrs)
    (defaults : ∀ attr ∈ attrs, attr.type.DefaultTwins) {left right : Val}
    (pair : RowPair attrs left right) {leftSelf rightSelf : Obj}
    (leftMade : fromIterable attrs left = .ok leftSelf)
    (rightMade : fromIterable attrs right = .ok rightSelf) :
    Paired attrs leftSelf rightSelf := by
  have constructed {leftSet rightSet : Obj} (paired : Paired attrs leftSet rightSet)
      (leftConstructed : construct attrs leftSet = .ok leftSelf)
      (rightConstructed : construct attrs rightSet = .ok rightSelf) :
      Paired attrs leftSelf rightSelf :=
    construct_paired coherent (fun _ member => member) defaults paired leftConstructed
      rightConstructed
  rcases pair with ⟨leftItems, rightItems, leftYields, rightYields, twins⟩ |
    ⟨leftNone, -, rightNone, -⟩
  · rw [fromIterable_of_iter leftYields] at leftMade
    rw [fromIterable_of_iter rightYields] at rightMade
    obtain ⟨leftSet, leftPositional, leftMade⟩ := exceptBind_eq_ok.mp leftMade
    obtain ⟨rightSet, rightPositional, rightMade⟩ := exceptBind_eq_ok.mp rightMade
    exact constructed (setPositional_paired coherent (fun _ member => member) twins
      (paired_nil attrs) leftPositional rightPositional) leftMade rightMade
  · rw [fromIterable, leftNone] at leftMade
    rw [fromIterable, rightNone] at rightMade
    split at leftMade
    next => cases leftMade
    next =>
      split at rightMade
      next => cases rightMade
      next => exact constructed (paired_nil attrs) leftMade rightMade

theorem holds_at {attrs : List Attribute} {self : Obj} {values : List Val}
    (holds : Holds attrs self values) {index : ℕ} {attr : Attribute}
    (isAttr : attrs[index]? = some attr) :
    ∃ value, values[index]? = some value ∧ self.get attr.name = some value := by
  obtain ⟨bound, rfl⟩ := List.getElem?_eq_some_iff.mp isAttr
  obtain ⟨sameLength, found⟩ := List.forall₂_iff_get.mp holds
  have inValues : index < values.length := by omega
  exact ⟨values[index], List.getElem?_eq_getElem inValues, found index bound inValues⟩

/-- Objects whose attributes are taken from two such rows are paired. -/
theorem paired_of_found {attrs : List Attribute} {left right : Obj}
    {leftItems rightItems : List Val}
    (leftFound : ∀ (index : ℕ) (attr : Attribute), attrs[index]? = some attr →
      ∃ value, leftItems[index]? = some value ∧ left.get attr.name = some value)
    (rightFound : ∀ (index : ℕ) (attr : Attribute), attrs[index]? = some attr →
      ∃ value, rightItems[index]? = some value ∧ right.get attr.name = some value)
    (twins : RowTwins attrs leftItems rightItems) : Paired attrs left right := by
  intro attr member
  obtain ⟨index, isAttr⟩ := List.getElem?_of_mem member
  obtain ⟨leftValue, isLeft, leftHas⟩ := leftFound index attr isAttr
  obtain ⟨rightValue, isRight, rightHas⟩ := rightFound index attr isAttr
  constructor
  · rw [Obj.has, Obj.has, leftHas, rightHas]
    rfl
  · intro leftOther rightOther leftIs rightIs
    cases leftHas.symm.trans leftIs
    cases rightHas.symm.trans rightIs
    exact twins.2 index attr leftValue rightValue isAttr isLeft isRight

theorem paired_of_holds {attrs : List Attribute} {left right : Obj}
    {leftItems rightItems : List Val} (leftHolds : Holds attrs left leftItems)
    (rightHolds : Holds attrs right rightItems) (twins : RowTwins attrs leftItems rightItems) :
    Paired attrs left right :=
  paired_of_found (fun _ _ isAttr => holds_at leftHolds isAttr)
    (fun _ _ isAttr => holds_at rightHolds isAttr) twins

/-- Either the value is an instance of the class, or it is made one. -/
theorem coerce_cases {attrs : List Attribute} {value : Val} {self : Obj}
    (coerced : coerce attrs value = .ok self) :
    value = .obj (names attrs) self ∨ fromIterable attrs value = .ok self := by
  cases value with
  | obj own attributes =>
      rw [coerce] at coerced
      split at coerced
      next isInstance =>
        cases coerced
        exact .inl (by rw [isInstance])
      next => exact .inr coerced
  | none | int | str | list | price => exact .inr coerced

theorem coerce_paired {attrs : List Attribute} (distinct : (names attrs).Nodup)
    (defaults : ∀ attr ∈ attrs, attr.type.DefaultTwins) {left right : Val}
    (pair : RowPair attrs left right) {leftSelf rightSelf : Obj}
    (leftCoerced : coerce attrs left = .ok leftSelf)
    (rightCoerced : coerce attrs right = .ok rightSelf) : Paired attrs leftSelf rightSelf := by
  -- an instance yields a full row, so that the other value does
  have full {own : Obj} {items : List Val}
      (yields : Val.iter (.obj (names attrs) own) = some items) :
      attrs.length = items.length := (holds_iff_values.mpr yields).length_eq
  have fromFullRows {leftItems rightItems : List Val} (leftYields : left.iter = some leftItems)
      (rightYields : right.iter = some rightItems) (twins : RowTwins attrs leftItems rightItems)
      (count : attrs.length = leftItems.length) : Paired attrs leftSelf rightSelf :=
    paired_of_holds (coerce_holds distinct count leftYields leftCoerced)
      (coerce_holds distinct (count.trans twins.1) rightYields rightCoerced) twins
  rcases coerce_cases leftCoerced with rfl | leftMade
  · rcases pair with ⟨leftItems, rightItems, leftYields, rightYields, twins⟩ | ⟨-, noObject, -⟩
    · exact fromFullRows leftYields rightYields twins (full leftYields)
    · cases noObject
  · rcases coerce_cases rightCoerced with rfl | rightMade
    · rcases pair with ⟨leftItems, rightItems, leftYields, rightYields, twins⟩ |
        ⟨-, -, -, noObject⟩
      · exact fromFullRows leftYields rightYields twins
          ((full rightYields).trans twins.1.symm)
      · cases noObject
    · exact fromIterable_paired (coherent_of_nodup distinct) defaults pair leftMade rightMade

/-- A row that is not full is no instance. -/
theorem made_of_short {attrs : List Attribute} {value : Val} {values : List Val} {self : Obj}
    (yields : value.iter = some values) (short : attrs.length ≠ values.length)
    (coerced : coerce attrs value = .ok self) : init attrs values = .ok self := by
  rcases coerce_cases coerced with rfl | made
  · exact absurd (holds_iff_values.mpr yields).length_eq short
  · rwa [fromIterable_of_iter yields] at made

/-- A class is made from what yields nothing as it is from nothing. -/
theorem made_of_none {attrs : List Attribute} {value : Val} {self : Obj}
    (none : value.iter = Option.none) (noObject : value.isObject = false)
    (coerced : coerce attrs value = .ok self) : construct attrs [] = .ok self := by
  rcases coerce_cases coerced with rfl | made
  · cases noObject
  · rw [fromIterable, none] at made
    split at made
    next => cases made
    next => exact made

/-- Paired objects of a class encode alike. -/
theorem paired_bytes {cls_name : ClassName} {attrs : List Attribute}
    (wellFormed : WellFormed [] [] attrs) {left right : Obj} (paired : Paired attrs left right)
    {leftBytes rightBytes : Bytes} (leftEncoded : body2bytes cls_name attrs left = .ok leftBytes)
    (rightEncoded : body2bytes cls_name attrs right = .ok rightBytes) :
    leftBytes = rightBytes := by
  have agree : AgreeOn [] left right := by
    intro name member
    cases member
  exact body2bytes_twins wellFormed.ordered agree (fun attr member => (paired attr member).2)
    leftEncoded rightEncoded

/-- `cls(left).tobytes()` and `cls(right).tobytes()`. -/
theorem coerced_twins {cls_name : ClassName} {attrs : List Attribute}
    (wellFormed : WellFormed [] [] attrs)
    (defaults : ∀ attr ∈ attrs, attr.type.DefaultTwins) {left right : Val}
    (pair : RowPair attrs left right) {leftSelf rightSelf : Obj} {leftBytes rightBytes : Bytes}
    (leftCoerced : coerce attrs left = .ok leftSelf)
    (rightCoerced : coerce attrs right = .ok rightSelf)
    (leftEncoded : body2bytes cls_name attrs leftSelf = .ok leftBytes)
    (rightEncoded : body2bytes cls_name attrs rightSelf = .ok rightBytes) :
    leftBytes = rightBytes :=
  paired_bytes wellFormed (coerce_paired wellFormed.fresh.1 defaults pair leftCoerced rightCoerced)
    leftEncoded rightEncoded

end BinaryObject

section Object

variable {cls_name : ClassName} {attributes_info : List Attribute}
  {wellFormed : WellFormed [] [] attributes_info}
  {unconditional : ∀ attr ∈ attributes_info, attr.condition = none}
  {constructs : ∃ self, construct attributes_info [] = .ok self}

theorem object_twins (defaults : ∀ attr ∈ attributes_info, attr.type.DefaultTwins)
    {left right : Val} (pair : RowPair attributes_info left right) :
    (Wire.Object cls_name attributes_info wellFormed unconditional constructs).Twins
      left right := by
  intro owner other leftBytes rightBytes _ leftEncoded rightEncoded
  obtain ⟨leftSelf, leftCoerced, leftEncoded⟩ := exceptBind_eq_ok.mp leftEncoded
  obtain ⟨rightSelf, rightCoerced, rightEncoded⟩ := exceptBind_eq_ok.mp rightEncoded
  refine ⟨coerced_twins wellFormed defaults pair leftCoerced rightCoerced leftEncoded
    rightEncoded, ?_⟩
  intro literal
  cases literal

/-- A class whose attributes' types are faithful is faithful. -/
theorem object_faithful (faithful : ∀ attr ∈ attributes_info, attr.type.Faithful) :
    (Wire.Object cls_name attributes_info wellFormed unconditional constructs).Faithful where
  equal := fun equal =>
    object_twins (fun attr member => (faithful attr member).defaults)
      (RowPair.of_equal equal faithful)
  defaults := by
    intro self other left right leftDefault rightDefault
    cases leftDefault.symm.trans rightDefault
    exact Codec.Twins.refl (fun _ _ _ => rfl) left

end Object

end StdPrograms.Ouou

import StdPrograms.Ouou.Message.Equality
import StdPrograms.Ouou.Message.Response

/-!
Contract: the types with parts that `==` does not look at.

Owns, for each of them, what `==` sees of a value, what of two values has to be
the same besides, and the proof that both together make equal bytes: prices, rows
of selected fields, the proxies of lists of such rows, the data of 5511, and the
objects that contain one of these.

Does not own messages.
-/

namespace StdPrograms.Ouou

open StdPrograms.Foundation BinaryObject

/-- How `==` treats the values of an attribute type. -/
structure View (type : Codec) where
  /-- What iteration over the owner yields, with proxies as objects without attributes. -/
  shown : Val → Val
  /-- The parts that `==` does not look at are equal. -/
  Unseen : Val → Val → Prop
  twins : ∀ {left right}, Val.Equal (shown left) (shown right) → Unseen left right →
    type.Twins left right

/-- A type that `==` looks at as a whole. -/
def View.plain {type : Codec} (faithful : type.Faithful) : View type where
  shown := id
  Unseen := fun _ _ => True
  twins := fun equal _ => faithful.equal equal

/-! ### Prices -/

/-- The type does not tell equal values apart whose prices are the same. -/
structure Codec.FaithfulToPrices (type : Codec) : Prop where
  equal : ∀ {left right}, Val.Equal left right → Val.SamePrice left right → type.Twins left right
  defaults : type.DefaultTwins

@[simp] theorem Codec.Faithful.toPrices {type : Codec} (faithful : type.Faithful) :
    type.FaithfulToPrices where
  equal := fun equal _ => faithful.equal equal
  defaults := faithful.defaults

@[simp] theorem marketPrice_faithful (market_func : Obj → Str) (rep_cls : IntFormat) :
    (Wire.MarketPrice market_func rep_cls).FaithfulToPrices where
  equal := by
    intro left right equal same owner other leftBytes rightBytes _ leftPacked rightPacked
    refine ⟨?_, fun literal => by cases literal⟩
    cases left with
    | none | str | list | obj => cases leftPacked
    | int value =>
        rcases equal.of_int with rfl | ⟨market, rfl⟩
        · exact Except.ok.inj (leftPacked.symm.trans rightPacked)
        · exact Except.ok.inj (leftPacked.symm.trans rightPacked)
    | price value market =>
        cases right with
        | none | str | list | obj => cases rightPacked
        | int =>
            cases equal with
            | priceInt => exact Except.ok.inj (leftPacked.symm.trans rightPacked)
            | object _ leftYields => cases leftYields
        | price otherValue otherMarket =>
            have sameValue : value = otherValue := same
            subst sameValue
            exact Except.ok.inj (leftPacked.symm.trans rightPacked)
  defaults := by
    intro self other left right leftDefault rightDefault
    cases leftDefault
    cases rightDefault
    intro owner other leftBytes rightBytes _ leftPacked rightPacked
    exact ⟨Except.ok.inj (leftPacked.symm.trans rightPacked), fun literal => by cases literal⟩

/-- The values that both yield have the same prices. -/
def Val.SamePrices (left right : Val) : Prop :=
  ∀ leftItems rightItems, left.iter = some leftItems → right.iter = some rightItems →
    List.Forall₂ Val.SamePrice leftItems rightItems

/-- Equal values with the same prices are rows that the fields do not tell apart. -/
theorem rowTwins_of_prices {attrs : List Attribute}
    (faithful : ∀ attr ∈ attrs, attr.type.FaithfulToPrices) {leftItems rightItems : List Val}
    (items : List.Forall₂ Val.Equal leftItems rightItems)
    (prices : List.Forall₂ Val.SamePrice leftItems rightItems) :
    RowTwins attrs leftItems rightItems := by
  refine ⟨items.length_eq, ?_⟩
  intro index attr leftValue rightValue isAttr isLeft isRight
  exact (faithful attr (List.mem_of_getElem? isAttr)).equal (forall₂_at items isLeft isRight)
    (forall₂_at prices isLeft isRight)

/-! ### Tables of fields -/

/-- Every field of the table is faithful to prices. -/
def FieldTable.Faithful (table : FieldTable) : Prop :=
  ∀ attr ∈ table.fields, attr.type.FaithfulToPrices

@[simp] theorem orderDetail_faithful : Wire.OrderDetail.Faithful :=
  object_faithful (by simp [OrderDetail.attributes_info])

@[simp] theorem businessLevel_faithful (level : ℕ) : (Wire.BusinessLevel level).Faithful :=
  array_faithful _ orderDetail_faithful

theorem FieldTable.faithful_ofFields {fields : List Field}
    (distinct : (fields.map Field.name).Nodup)
    (faithful : ∀ field ∈ fields, field.type.FaithfulToPrices) :
    (FieldTable.ofFields fields distinct).Faithful := by
  intro attr member
  obtain ⟨field, fieldMember, same⟩ := List.mem_map.mp member
  rw [← same]
  exact faithful field fieldMember

theorem timeTrend_fields_faithful : TimeTrend.all_fields_info.Faithful :=
  FieldTable.faithful_ofFields _ (by simp)

theorem response_5501_fields_faithful (host : Host) :
    (Response_5501.all_fields_info host).Faithful := by
  apply FieldTable.faithful_ofFields
  repeat refine List.forall_mem_cons.mpr ⟨by simp, ?_⟩
  exact List.forall_mem_nil _

theorem response_5503_fields_faithful : Response_5503.all_fields_info.Faithful :=
  FieldTable.faithful_ofFields _ (by simp)

theorem response_5512_fields_faithful (host : Host) :
    (Response_5512.all_fields_info host).Faithful := by
  apply FieldTable.faithful_ofFields
  repeat refine List.forall_mem_cons.mpr ⟨by simp, ?_⟩
  exact List.forall_mem_nil _

theorem FieldTable.coherent {table : FieldTable} {attrs : List Attribute}
    (inTable : attrs ⊆ table.fields) : Coherent attrs := by
  intro attr member other otherMember sameName
  exact coherent_of_nodup table.distinct attr (inTable member) other (inTable otherMember) sameName

theorem FieldTable.ordered {table : FieldTable} {attrs : List Attribute}
    (inTable : attrs ⊆ table.fields) : Ordered [] attrs :=
  ordered_selection (fun attr member => table.unconditional attr (inTable member))
    (fun attr member => table.selfContained attr (inTable member)) []

/-! ### Rows of selected fields -/

section Rows

variable {table : FieldTable}

/-- Paired objects over selected fields encode alike. -/
theorem selection_twins {attrs : List Attribute} (inTable : attrs ⊆ table.fields)
    {left right : Obj} (paired : Paired attrs left right) {leftBytes rightBytes : Bytes}
    (leftEncoded : body2bytes "VarFields" attrs left = .ok leftBytes)
    (rightEncoded : body2bytes "VarFields" attrs right = .ok rightBytes) :
    leftBytes = rightBytes := by
  have agree : AgreeOn [] left right := by
    intro name member
    cases member
  exact body2bytes_twins (FieldTable.ordered inTable) agree
    (fun attr member => (paired attr member).2) leftEncoded rightEncoded

/-- Rows that are equal and have the same prices. -/
def EqualRow (left right : Val) : Prop := Val.Equal left right ∧ Val.SamePrices left right

theorem rowBytes_twins (faithful : table.Faithful) {owner other : Obj}
    (agree : AgreeOn ["fields"] owner other) {left right : Val} (same : EqualRow left right)
    {leftBytes rightBytes : Bytes}
    (leftEncoded : VarFields.rowBytes table owner left = .ok leftBytes)
    (rightEncoded : VarFields.rowBytes table other right = .ok rightBytes) :
    leftBytes = rightBytes := by
  obtain ⟨attrs, selected, leftEncoded⟩ := exceptBind_eq_ok.mp leftEncoded
  obtain ⟨leftSelf, leftMade, leftEncoded⟩ := exceptBind_eq_ok.mp leftEncoded
  obtain ⟨attrs', selected', rightEncoded⟩ := exceptBind_eq_ok.mp rightEncoded
  obtain ⟨rightSelf, rightMade, rightEncoded⟩ := exceptBind_eq_ok.mp rightEncoded
  rw [← table.attributes_info_congr agree, selected] at selected'
  cases selected'
  have inTable := table.attributes_info_subset selected
  have fieldsFaithful : ∀ attr ∈ attrs, attr.type.FaithfulToPrices :=
    fun attr member => faithful attr (inTable member)
  have pair : RowPair attrs left right := by
    rcases same.1.iter with ⟨leftItems, rightItems, leftYields, rightYields, items⟩ | none
    · refine .inl ⟨leftItems, rightItems, leftYields, rightYields, ?_⟩
      exact rowTwins_of_prices fieldsFaithful items (same.2 _ _ leftYields rightYields)
    · exact .inr none
  have paired := fromIterable_paired (FieldTable.coherent inTable)
    (fun attr member => (fieldsFaithful attr member).defaults) pair leftMade rightMade
  exact selection_twins inTable paired leftEncoded rightEncoded

theorem rowsBytes_twins (faithful : table.Faithful) {owner other : Obj}
    (agree : AgreeOn ["fields"] owner other) {left right : List Val}
    (rows : List.Forall₂ EqualRow left right) {leftBytes rightBytes : Bytes}
    (leftEncoded : VarFieldsVector.rowsBytes table owner left = .ok leftBytes)
    (rightEncoded : VarFieldsVector.rowsBytes table other right = .ok rightBytes) :
    leftBytes = rightBytes := by
  induction rows generalizing leftBytes rightBytes with
  | nil =>
      cases leftEncoded
      cases rightEncoded
      rfl
  | cons head _ inductionHypothesis =>
      obtain ⟨leftFirst, leftRow, leftEncoded⟩ := exceptBind_eq_ok.mp leftEncoded
      obtain ⟨leftOthers, leftRows, leftResult⟩ := exceptBind_eq_ok.mp leftEncoded
      obtain ⟨rightFirst, rightRow, rightEncoded⟩ := exceptBind_eq_ok.mp rightEncoded
      obtain ⟨rightOthers, rightRows, rightResult⟩ := exceptBind_eq_ok.mp rightEncoded
      cases leftResult
      cases rightResult
      rw [rowBytes_twins faithful agree head leftRow rightRow,
        inductionHypothesis leftRows rightRows]

/-- The proxies hold rows that are pairwise the same. -/
def VarFieldsVector.EqualRows (left right : Val) : Prop :=
  ∀ leftRows rightRows, left = .list leftRows → right = .list rightRows →
    List.Forall₂ EqualRow leftRows rightRows

theorem varFieldsVector_twins (size_cls : IntFormat) (faithful : table.Faithful)
    {left right : Val} (same : VarFieldsVector.EqualRows left right) :
    (Wire.VarFieldsVector size_cls table).Twins left right := by
  intro owner other leftBytes rightBytes agree leftEncoded rightEncoded
  refine ⟨?_, fun literal => by cases literal⟩
  cases left with
  | none | int | str | obj | price => cases leftEncoded
  | list leftRows =>
      cases right with
      | none | int | str | obj | price => cases rightEncoded
      | list rightRows =>
          have rows := same leftRows rightRows rfl rfl
          obtain ⟨head, leftPacked, leftEncoded⟩ := exceptBind_eq_ok.mp leftEncoded
          obtain ⟨items, leftContent, leftResult⟩ := exceptBind_eq_ok.mp leftEncoded
          obtain ⟨head', rightPacked, rightEncoded⟩ := exceptBind_eq_ok.mp rightEncoded
          obtain ⟨items', rightContent, rightResult⟩ := exceptBind_eq_ok.mp rightEncoded
          rw [← rows.length_eq, leftPacked] at rightPacked
          cases rightPacked
          cases leftResult
          cases rightResult
          rw [rowsBytes_twins faithful agree rows leftContent rightContent]

/-- A proxy as `==` sees it: `attributes_info` of its class is empty. -/
def VarFieldsVector.shown (_values : Val) : Val := .obj [] []

def View.proxy (size_cls : IntFormat) (faithful : table.Faithful) :
    View (Wire.VarFieldsVector size_cls table) where
  shown := VarFieldsVector.shown
  Unseen := VarFieldsVector.EqualRows
  twins := fun _ same => varFieldsVector_twins size_cls faithful same

/-- Instances of `VarFields` were made for the same fields. -/
def VarFields.SameFields (left right : Val) : Prop :=
  ∀ own attributes other otherAttributes, left = .obj own attributes →
    right = .obj other otherAttributes → own = other

theorem namedFields_eq_some {own : List String} {attrs : List Attribute}
    (named : table.namedFields own = some attrs) :
    names attrs = own ∧ attrs ⊆ table.fields := by
  induction own generalizing attrs with
  | nil =>
      cases named
      exact ⟨rfl, List.nil_subset _⟩
  | cons name rest inductionHypothesis =>
      rw [FieldTable.namedFields] at named
      split at named
      next attr others found tail =>
        cases named
        obtain ⟨sameNames, inTable⟩ := inductionHypothesis tail
        have isNamed : attr.name = name := by simpa using List.find?_some found
        refine ⟨?_, List.cons_subset.mpr ⟨List.mem_of_find?_eq_some found, inTable⟩⟩
        rw [← sameNames, ← isNamed]
        rfl
      next => cases named

theorem varFields_twins (faithful : table.Faithful) {left right : Val}
    (equal : Val.Equal left right) (same : VarFields.SameFields left right)
    (prices : Val.SamePrices left right) : (Wire.VarFields table).Twins left right := by
  intro owner other leftBytes rightBytes _ leftEncoded rightEncoded
  refine ⟨?_, fun literal => by cases literal⟩
  cases left with
  | none | int | str | list | price => cases leftEncoded
  | obj own attributes =>
      cases right with
      | none | int | str | list | price => cases rightEncoded
      | obj otherOwn otherAttributes =>
          cases same own attributes otherOwn otherAttributes rfl rfl
          simp only [Wire.VarFields] at leftEncoded rightEncoded
          split at leftEncoded
          next attrs named =>
            rw [named] at rightEncoded
            obtain ⟨sameNames, inTable⟩ := namedFields_eq_some named
            rcases equal.iter with ⟨leftItems, rightItems, leftYields, rightYields, items⟩ |
              ⟨-, noObject, -⟩
            · have twins := rowTwins_of_prices
                (fun attr member => faithful attr (inTable member)) items
                (prices _ _ leftYields rightYields)
              rw [← sameNames] at leftYields rightYields
              exact selection_twins inTable (paired_of_holds (holds_iff_values.mpr leftYields)
                (holds_iff_values.mpr rightYields) twins) leftEncoded rightEncoded
            · cases noObject
          next => cases leftEncoded

def View.varFields (faithful : table.Faithful) : View (Wire.VarFields table) where
  shown := id
  Unseen := fun left right => VarFields.SameFields left right ∧ Val.SamePrices left right
  twins := fun equal unseen => varFields_twins faithful equal unseen.1 unseen.2

end Rows

/-! ### Objects with a proxy -/

/-- A time trend, or a row for one: its fourth value is a proxy. -/
def TimeTrend.shown (value : Val) : Val :=
  match value.iter with
  | some values => .list (values.set 3 (.obj [] []))
  | none => value

/-- The rows of two time trends are the same. -/
def TimeTrend.SameData (left right : Val) : Prop :=
  ∀ leftItems rightItems, left.iter = some leftItems → right.iter = some rightItems →
    ∀ leftData rightData, leftItems[3]? = some leftData → rightItems[3]? = some rightData →
      VarFieldsVector.EqualRows leftData rightData

theorem TimeTrend.shown_of_iter {value : Val} {values : List Val}
    (yields : value.iter = some values) : shown value = .list (values.set 3 (.obj [] [])) := by
  rw [shown, yields]

theorem TimeTrend.shown_of_none {value : Val} (none : value.iter = Option.none) :
    shown value = value := by
  rw [shown, none]

theorem emptyProxies_twins {table : FieldTable} (faithful : table.Faithful)
    (size_cls : IntFormat) :
    (Wire.VarFieldsVector size_cls table).DefaultTwins := by
  intro self other left right leftDefault rightDefault
  cases leftDefault
  cases rightDefault
  apply varFieldsVector_twins size_cls faithful
  intro leftRows rightRows isLeft isRight
  cases isLeft
  cases isRight
  exact .nil

theorem timeTrend_rowTwins {leftItems rightItems : List Val}
    (items : List.Forall₂ Val.Equal (leftItems.set 3 (.obj [] [])) (rightItems.set 3 (.obj [] [])))
    (data : ∀ leftData rightData, leftItems[3]? = some leftData →
      rightItems[3]? = some rightData → VarFieldsVector.EqualRows leftData rightData) :
    RowTwins TimeTrend.attributes_info leftItems rightItems := by
  have sameLength : leftItems.length = rightItems.length := by
    simpa using items.length_eq
  refine ⟨sameLength, ?_⟩
  intro index attr leftValue rightValue isAttr isLeft isRight
  by_cases isData : index = 3
  · subst isData
    cases isAttr
    exact varFieldsVector_twins UShort.format timeTrend_fields_faithful
      (data leftValue rightValue isLeft isRight)
  · have leftShown : (leftItems.set 3 (.obj [] []))[index]? = some leftValue := by
      rw [List.getElem?_set_ne (Ne.symm isData), isLeft]
    have rightShown : (rightItems.set 3 (.obj [] []))[index]? = some rightValue := by
      rw [List.getElem?_set_ne (Ne.symm isData), isRight]
    have equal := forall₂_at items leftShown rightShown
    have faithful : attr.type.Faithful := by
      rcases index with _ | _ | _ | _ | index
      · cases isAttr
        exact byteVector_faithful
      · cases isAttr
        exact byte_faithful
      · cases isAttr
        exact uShort_faithful
      · exact absurd rfl isData
      · cases isAttr
    exact faithful.equal equal

theorem timeTrend_twins {left right : Val}
    (equal : Val.Equal (TimeTrend.shown left) (TimeTrend.shown right))
    (data : TimeTrend.SameData left right) : Wire.TimeTrend.Twins left right := by
  have defaults : ∀ attr ∈ TimeTrend.attributes_info, attr.type.DefaultTwins := by
    intro attr member
    simp only [TimeTrend.attributes_info, List.mem_cons, List.not_mem_nil, or_false] at member
    rcases member with rfl | rfl | rfl | rfl
    · exact byteVector_faithful.defaults
    · exact byte_faithful.defaults
    · exact uShort_faithful.defaults
    · exact emptyProxies_twins timeTrend_fields_faithful UShort.format
  apply object_twins defaults
  cases leftYields : left.iter with
  | some leftItems =>
      cases rightYields : right.iter with
      | some rightItems =>
          rw [TimeTrend.shown_of_iter leftYields, TimeTrend.shown_of_iter rightYields] at equal
          exact .inl ⟨leftItems, rightItems, leftYields, rightYields,
            timeTrend_rowTwins (equal.items rfl rfl) (data _ _ leftYields rightYields)⟩
      | none =>
          rw [TimeTrend.shown_of_iter leftYields, TimeTrend.shown_of_none rightYields] at equal
          rcases equal.iter with ⟨_, _, -, yields, -⟩ | ⟨none, -⟩
          · rw [rightYields] at yields
            cases yields
          · cases none
  | none =>
      rw [TimeTrend.shown_of_none leftYields] at equal
      rcases equal.iter with ⟨_, _, yields, -⟩ | ⟨-, leftPlain, rightNone, rightPlain⟩
      · rw [leftYields] at yields
        cases yields
      · cases rightYields : right.iter with
        | some rightItems =>
            rw [TimeTrend.shown_of_iter rightYields] at rightNone
            cases rightNone
        | none =>
            rw [TimeTrend.shown_of_none rightYields] at rightPlain
            exact .inr ⟨leftYields, leftPlain, rightYields, rightPlain⟩

def View.timeTrend : View Wire.TimeTrend where
  shown := TimeTrend.shown
  Unseen := TimeTrend.SameData
  twins := timeTrend_twins

/-! ### Lists of objects -/

/-- The elements at the same places are related. -/
def EachElement (related : Val → Val → Prop) (left right : Val) : Prop :=
  ∀ leftItems rightItems, left = .list leftItems → right = .list rightItems →
    List.Forall₂ related leftItems rightItems

/-- A vector of elements that `==` looks at in part. -/
def View.vector {elem_cls : Codec} (size_cls : IntFormat) (Unseen : Val → Val → Prop)
    (twins : ∀ {left right}, Val.Equal left right → Unseen left right →
      elem_cls.Twins left right) : View (Wire.Vector size_cls elem_cls) where
  shown := id
  Unseen := EachElement Unseen
  twins := by
    intro left right equal unseen
    apply vector_twins
    intro leftItems rightItems isLeft isRight
    have others := unseen leftItems rightItems isLeft isRight
    subst isLeft
    subst isRight
    have items := equal.items rfl rfl
    rw [List.forall₂_iff_get] at items others ⊢
    exact ⟨items.1, fun index leftBound rightBound =>
      twins (items.2 index leftBound rightBound) (others.2 index leftBound rightBound)⟩

/-! ### The rows of pushed quotes -/

/-- The selected values of two rows of `Push_5516` were made for the same fields and
have the same prices. -/
def Push_5516_Data.SameFields (left right : Val) : Prop :=
  ∀ leftItems rightItems, left.iter = some leftItems → right.iter = some rightItems →
    ∀ leftData rightData, leftItems[1]? = some leftData → rightItems[1]? = some rightData →
      VarFields.SameFields leftData rightData ∧ Val.SamePrices leftData rightData

theorem push_5516_data_distinct (host : Host) :
    (names (Push_5516_Data.attributes_info host)).Nodup :=
  of_decide_eq_true rfl

theorem push_5516_data_rowTwins {host : Host} {leftItems rightItems : List Val}
    (items : List.Forall₂ Val.Equal leftItems rightItems)
    (data : ∀ leftData rightData, leftItems[1]? = some leftData →
      rightItems[1]? = some rightData →
        VarFields.SameFields leftData rightData ∧ Val.SamePrices leftData rightData) :
    RowTwins (Push_5516_Data.attributes_info host) leftItems rightItems := by
  refine ⟨items.length_eq, ?_⟩
  intro index attr leftValue rightValue isAttr isLeft isRight
  have equal := forall₂_at items isLeft isRight
  rcases index with _ | _ | index
  · cases isAttr
    exact byteVector_faithful.equal equal
  · cases isAttr
    obtain ⟨sameFields, samePrices⟩ := data leftValue rightValue isLeft isRight
    exact varFields_twins (response_5501_fields_faithful host) equal sameFields samePrices
  · cases isAttr

/-- The class of a row's selected values. -/
def Push_5516_Data.fields_data (host : Host) : Attribute :=
  { name := "fields_data", type := Wire.VarFields (Response_5501.all_fields_info host) }

/-- A row with the fields alone, which the values are constructed for. -/
theorem push_5516_data_fields {host : Host} {fields : Val} {self : Obj}
    (made : init (Push_5516_Data.attributes_info host) [fields] = .ok self) :
    self.get "fields" = some fields := by
  obtain ⟨start, positional, constructed⟩ := exceptBind_eq_ok.mp made
  have isStart : start = [("fields", fields)] := (Except.ok.inj positional).symm
  have skipsFields : construct (Push_5516_Data.attributes_info host) [("fields", fields)] =
      construct [Push_5516_Data.fields_data host] [("fields", fields)] := rfl
  rw [isStart, skipsFields] at constructed
  obtain ⟨values, -, isSelf⟩ := exceptBind_eq_ok.mp constructed
  cases isSelf
  rfl

/-- Rows shorter than the class are filled up alike. -/
theorem push_5516_data_short {host : Host} {leftItems rightItems : List Val}
    (items : List.Forall₂ Val.Equal leftItems rightItems) (short : leftItems.length ≠ 2)
    {leftSelf rightSelf : Obj} {leftBytes rightBytes : Bytes}
    (leftMade : init (Push_5516_Data.attributes_info host) leftItems = .ok leftSelf)
    (rightMade : init (Push_5516_Data.attributes_info host) rightItems = .ok rightSelf)
    (leftEncoded : body2bytes "Data" (Push_5516_Data.attributes_info host) leftSelf =
      .ok leftBytes)
    (rightEncoded : body2bytes "Data" (Push_5516_Data.attributes_info host) rightSelf =
      .ok rightBytes) : leftSelf = rightSelf := by
  cases items with
  | nil => exact Except.ok.inj (leftMade.symm.trans rightMade)
  | @cons leftFields rightFields _ _ fields others =>
      cases others with
      | nil =>
          obtain ⟨leftFound, b, -, isLeft, leftWritten, -⟩ := body2bytes_active rfl leftEncoded
          obtain ⟨rightFound, b', -, isRight, rightWritten, -⟩ := body2bytes_active rfl rightEncoded
          cases (push_5516_data_fields leftMade).symm.trans isLeft
          cases (push_5516_data_fields rightMade).symm.trans isRight
          obtain ⟨-, same⟩ := byteVector_faithful.equal fields leftSelf rightSelf b b'
            (fun name member => by cases member) leftWritten rightWritten
          rw [same rfl] at leftMade
          exact Except.ok.inj (leftMade.symm.trans rightMade)
      | cons _ others =>
          cases others with
          | nil => exact absurd rfl short
          | cons => cases leftMade

theorem push_5516_data_twins {host : Host} {left right : Val} (equal : Val.Equal left right)
    (data : Push_5516_Data.SameFields left right) :
    (Wire.Push_5516_Data host).Twins left right := by
  intro owner other leftBytes rightBytes _ leftEncoded rightEncoded
  refine ⟨?_, fun literal => by cases literal⟩
  obtain ⟨leftSelf, leftCoerced, leftEncoded⟩ := exceptBind_eq_ok.mp leftEncoded
  obtain ⟨rightSelf, rightCoerced, rightEncoded⟩ := exceptBind_eq_ok.mp rightEncoded
  have distinct := push_5516_data_distinct host
  have sameBytes (same : leftSelf = rightSelf) : leftBytes = rightBytes := by
    rw [same, rightEncoded] at leftEncoded
    exact (Except.ok.inj leftEncoded).symm
  rcases equal.iter with ⟨leftItems, rightItems, leftYields, rightYields, items⟩ |
    ⟨leftNone, leftPlain, rightNone, rightPlain⟩
  · by_cases full : leftItems.length = 2
    · have twins : RowTwins (Push_5516_Data.attributes_info host) leftItems rightItems :=
        push_5516_data_rowTwins items (data _ _ leftYields rightYields)
      have paired := paired_of_holds
        (coerce_holds distinct full.symm leftYields leftCoerced)
        (coerce_holds distinct (full.symm.trans twins.1) rightYields rightCoerced) twins
      exact paired_bytes (of_decide_eq_true rfl) paired leftEncoded rightEncoded
    · have leftMade : init (Push_5516_Data.attributes_info host) leftItems = .ok leftSelf :=
        made_of_short leftYields (fun isFull => full isFull.symm) leftCoerced
      have rightMade : init (Push_5516_Data.attributes_info host) rightItems = .ok rightSelf :=
        made_of_short rightYields (fun isFull => full (items.length_eq.trans isFull.symm))
          rightCoerced
      exact sameBytes (push_5516_data_short items full leftMade rightMade leftEncoded rightEncoded)
  · apply sameBytes
    have leftMade := made_of_none leftNone leftPlain leftCoerced
    have rightMade := made_of_none rightNone rightPlain rightCoerced
    exact Except.ok.inj (leftMade.symm.trans rightMade)

/-! ### The fields of 5511 -/

namespace Response_5511.Data

/-- Two instances hold equal data, which is no attribute of the class. -/
def SameData (host : Host) (left right : Val) : Prop :=
  ∀ leftSelf rightSelf : Obj, left = .obj (names (attributes_info host)) leftSelf →
    right = .obj (names (attributes_info host)) rightSelf →
      ∀ leftData rightData, leftSelf.get "data" = some leftData →
        rightSelf.get "data" = some rightData → Val.Equal leftData rightData

theorem attributes_faithful (host : Host) :
    ∀ attr ∈ attributes_info host, attr.type.Faithful := by
  simp [attributes_info]

theorem dataBytes_twins {host : Host} {left right : Val} (equal : Val.Equal left right)
    {leftBytes rightBytes : Bytes} (leftEncoded : dataBytes host left = .ok leftBytes)
    (rightEncoded : dataBytes host right = .ok rightBytes) : leftBytes = rightBytes := by
  cases left with
  | none | obj | price => cases leftEncoded
  | int value =>
      rcases equal.of_int with rfl | ⟨market, rfl⟩
      · exact Except.ok.inj (leftEncoded.symm.trans rightEncoded)
      · cases rightEncoded
  | str text =>
      cases equal.of_str
      exact Except.ok.inj (leftEncoded.symm.trans rightEncoded)
  | list leftItems =>
      cases right with
      | none | obj | price => cases rightEncoded
      | int | str =>
          rcases equal.iter with ⟨_, _, -, rightYields, -⟩ | ⟨leftNone, -⟩
          · cases rightYields
          · cases leftNone
      | list rightItems =>
          have pairFaithful : (Wire.Array 2 (Wire.GBKString host)).Faithful :=
            array_faithful 2 (gbkString_faithful host)
          exact (pairFaithful.equal equal [] [] leftBytes rightBytes (AgreeOn.refl _ _)
            leftEncoded rightEncoded).1

theorem item_of_nat {items : List Val} {index : ℕ} {value : Val}
    (found : item items index = .ok value) : items[index]? = some value := by
  have place : position items.length index = index := by
    rw [position, if_neg (by omega)]
  rw [item, place, if_neg (by omega), Int.toNat_natCast] at found
  split at found
  next present =>
    cases found
    exact present
  next => cases found

/-- An object with data was made from a row, which begins with the attributes and
goes on with the data. -/
theorem init_eq_ok {host : Host} {attrs : Val} {self : Obj} {data : Val}
    (made : init host attrs = .ok self) (hasData : self.get "data" = some data) :
    ∃ values, attrs.iter = some values ∧ values[4]? = some data ∧
      ∀ (index : ℕ) (attr : Attribute), (attributes_info host)[index]? = some attr →
        ∃ value, values[index]? = some value ∧ self.get attr.name = some value := by
  obtain ⟨start, constructed, made⟩ := exceptBind_eq_ok.mp made
  split at made
  next =>
    split at made
    next values yields =>
      obtain ⟨index, isIndex, made⟩ := exceptBind_eq_ok.mp made
      obtain ⟨name, isName, made⟩ := exceptBind_eq_ok.mp made
      obtain ⟨data_type, isType, made⟩ := exceptBind_eq_ok.mp made
      obtain ⟨extend_data, isExtend, made⟩ := exceptBind_eq_ok.mp made
      obtain ⟨cls, -, made⟩ := exceptBind_eq_ok.mp made
      obtain ⟨last, isLast, result⟩ := exceptBind_eq_ok.mp made
      cases result
      rw [Obj.get_set_self] at hasData
      cases hasData
      refine ⟨values, yields, item_of_nat isLast, ?_⟩
      intro position attr isAttr
      rcases position with _ | _ | _ | _ | position
      · cases isAttr
        exact ⟨index, item_of_nat isIndex, by simp [Obj.get_set_other]⟩
      · cases isAttr
        exact ⟨name, item_of_nat isName, by simp [Obj.get_set_other]⟩
      · cases isAttr
        exact ⟨data_type, item_of_nat isType, by simp [Obj.get_set_other]⟩
      · cases isAttr
        exact ⟨extend_data, item_of_nat isExtend, by simp [Obj.get_set_other]⟩
      · cases isAttr
    next => cases made
  next =>
    -- a constructed object has no data
    cases made
    cases constructed
    cases hasData

theorem ofVal_cases {host : Host} {value : Val} {self : Obj}
    (made : ofVal host value = .ok self) :
    value = .obj (names (attributes_info host)) self ∨ init host value = .ok self := by
  cases value with
  | obj own attributes =>
      rw [ofVal] at made
      split at made
      next isInstance =>
        cases made
        exact .inl (by rw [isInstance])
      next => exact .inr made
  | none | int | str | list | price => exact .inr made

/-- An instance, or an object made from a row: where its attributes and its data
come from. -/
theorem ofVal_yields {host : Host} {value data : Val} {self : Obj}
    {values : List Val} (yields : value.iter = some values) (made : ofVal host value = .ok self)
    (hasData : self.get "data" = some data) :
    (∀ (index : ℕ) (attr : Attribute), (attributes_info host)[index]? = some attr →
      ∃ value, values[index]? = some value ∧ self.get attr.name = some value) ∧
    (value = .obj (names (attributes_info host)) self ∧ values.length = 4 ∨
      values[4]? = some data) := by
  rcases ofVal_cases made with rfl | made
  · have holds := holds_iff_values.mpr yields
    exact ⟨fun index attr isAttr => holds_at holds isAttr, .inl ⟨rfl, holds.length_eq.symm⟩⟩
  · obtain ⟨values', yields', isData, found⟩ := init_eq_ok made hasData
    cases yields.symm.trans yields'
    exact ⟨found, .inr isData⟩

theorem data_equal {host : Host} {left right : Val} {leftSelf rightSelf : Obj}
    {leftItems rightItems : List Val} {leftData rightData : Val}
    (items : List.Forall₂ Val.Equal leftItems rightItems) (data : SameData host left right)
    (leftHasData : leftSelf.get "data" = some leftData)
    (rightHasData : rightSelf.get "data" = some rightData)
    (leftFrom : left = .obj (names (attributes_info host)) leftSelf ∧ leftItems.length = 4 ∨
      leftItems[4]? = some leftData)
    (rightFrom : right = .obj (names (attributes_info host)) rightSelf ∧ rightItems.length = 4 ∨
      rightItems[4]? = some rightData) : Val.Equal leftData rightData := by
  have sameLength := items.length_eq
  rcases leftFrom with ⟨isLeft, leftFour⟩ | leftLast
  · rcases rightFrom with ⟨isRight, -⟩ | rightLast
    · exact data leftSelf rightSelf isLeft isRight leftData rightData leftHasData rightHasData
    · obtain ⟨bound, -⟩ := List.getElem?_eq_some_iff.mp rightLast
      omega
  · rcases rightFrom with ⟨-, rightFour⟩ | rightLast
    · obtain ⟨bound, -⟩ := List.getElem?_eq_some_iff.mp leftLast
      omega
    · exact forall₂_at items leftLast rightLast

/-- Without a row there is no object with data. -/
theorem no_data {host : Host} {value data : Val} {self : Obj} (none : value.iter = Option.none)
    (noObject : value.isObject = false) (made : ofVal host value = .ok self) :
    self.get "data" ≠ some data := by
  intro hasData
  rcases ofVal_cases made with rfl | made
  · cases noObject
  · obtain ⟨values, yields, -⟩ := init_eq_ok made hasData
    rw [none] at yields
    cases yields

theorem tobytes_eq_ok {host : Host} {self : Obj} {bytes : Bytes}
    (encoded : Response_5511.Data.tobytes host self = .ok bytes) :
    ∃ head data extra, body2bytes "Data" (attributes_info host) self = .ok head ∧
      self.get "data" = some data ∧ dataBytes host data = .ok extra ∧ bytes = head ++ extra := by
  obtain ⟨head, headEncoded, encoded⟩ := exceptBind_eq_ok.mp encoded
  split at encoded
  next data hasData =>
    obtain ⟨extra, extraEncoded, result⟩ := exceptBind_eq_ok.mp encoded
    cases result
    exact ⟨head, data, extra, headEncoded, hasData, extraEncoded, rfl⟩
  next => cases encoded

theorem twins {host : Host} {left right : Val} (equal : Val.Equal left right)
    (data : SameData host left right) : (Wire.Response_5511_Data host).Twins left right := by
  intro owner other leftBytes rightBytes _ leftEncoded rightEncoded
  refine ⟨?_, fun literal => by cases literal⟩
  obtain ⟨leftSelf, leftMade, leftEncoded⟩ := exceptBind_eq_ok.mp leftEncoded
  obtain ⟨rightSelf, rightMade, rightEncoded⟩ := exceptBind_eq_ok.mp rightEncoded
  obtain ⟨leftHead, leftData, leftExtra, leftHeadIs, leftHasData, leftExtraIs, rfl⟩ :=
    tobytes_eq_ok leftEncoded
  obtain ⟨rightHead, rightData, rightExtra, rightHeadIs, rightHasData, rightExtraIs, rfl⟩ :=
    tobytes_eq_ok rightEncoded
  rcases equal.iter with ⟨leftItems, rightItems, leftYields, rightYields, items⟩ |
    ⟨leftNone, noObject, -⟩
  · obtain ⟨leftFound, leftFrom⟩ := ofVal_yields leftYields leftMade leftHasData
    obtain ⟨rightFound, rightFrom⟩ := ofVal_yields rightYields rightMade rightHasData
    have twins : RowTwins (attributes_info host) leftItems rightItems :=
      RowTwins.of_forall₂ items fun attr member => (attributes_faithful host attr member).equal
    have paired := paired_of_found leftFound rightFound twins
    have dataEqual := data_equal items data leftHasData rightHasData leftFrom rightFrom
    rw [paired_bytes (of_decide_eq_true rfl) paired leftHeadIs rightHeadIs,
      dataBytes_twins dataEqual leftExtraIs rightExtraIs]
  · exact absurd leftHasData (no_data leftNone noObject leftMade)

end Response_5511.Data

/-! ### The broker list of 5518 -/

theorem brokerData_faithful (host : Host) : (Wire.BrokerData host).Faithful := by
  have faithful : ∀ attr ∈ Response_5518.BrokerData.attributes_info host,
      attr.type.Faithful := by
    simp [Response_5518.BrokerData.attributes_info]
  constructor
  · intro left right equal owner other leftBytes rightBytes _ leftEncoded rightEncoded
    obtain ⟨leftSelf, leftCoerced, leftEncoded⟩ := exceptBind_eq_ok.mp leftEncoded
    obtain ⟨rightSelf, rightCoerced, rightEncoded⟩ := exceptBind_eq_ok.mp rightEncoded
    refine ⟨?_, fun literal => by cases literal⟩
    exact coerced_twins (of_decide_eq_true rfl)
      (fun attr member => (faithful attr member).defaults) (RowPair.of_equal equal faithful)
      leftCoerced rightCoerced leftEncoded rightEncoded
  · intro self other left right leftDefault rightDefault
    cases leftDefault.symm.trans rightDefault
    exact Codec.Twins.refl (fun _ _ _ => rfl) left

/-! ### Objects that are looked at as a whole -/

@[simp] theorem response_5504_data_faithful : Wire.Response_5504_data.Faithful :=
  object_faithful (by simp [Response_5504_data.attributes_info])

@[simp] theorem response_5506_data_faithful (host : Host) :
    (Wire.Response_5506_data host).Faithful :=
  object_faithful (by simp [Response_5506_data.attributes_info])

@[simp] theorem response_5519_data_faithful : Wire.Response_5519_data.Faithful :=
  object_faithful (by simp [Response_5519_data.attributes_info])

@[simp] theorem stockQueue_faithful (size_name : ClassName) :
    (Wire.StockQueue size_name).Faithful :=
  varArray_faithful size_name (object_faithful (by simp [QueueData.attributes_info]))

end StdPrograms.Ouou

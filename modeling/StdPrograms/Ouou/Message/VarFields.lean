import StdPrograms.Ouou.Message.BinaryObject

/-!
Contract: rows whose attributes are chosen at run time by the `fields` of their
owner (`VarFields` and `VarFieldsVector` of `message/response.py`).

Owns tables of selectable fields, the selection by one-based identifiers, and
the codecs of a single row and of a counted list of rows. A table carries the
facts that make every selection of distinct fields a well-formed attribute
list.

Does not own any concrete table.
-/

namespace StdPrograms.Ouou

open StdPrograms.Foundation BinaryObject

/-! ### Tables of fields -/

/-- `all_fields_info`. -/
structure FieldTable where
  fields : List Attribute
  unconditional : ∀ attr ∈ fields, attr.condition = none
  selfContained : ∀ attr ∈ fields, attr.type.uses = []
  constructible : ∀ attr ∈ fields, ∀ self, ∃ value, attr.type.default self = .ok value
  ownerFree : ∀ attr ∈ fields, ∀ self value,
    attr.type.inRange [] value → attr.type.inRange self value
  distinct : (names fields).Nodup

/-- An entry of `all_fields_info`: its class looks at no owner. -/
structure Field where
  name : String
  type : Codec
  selfContained : type.uses = [] := by rfl
  constructible : ∀ self, ∃ value, type.default self = .ok value := by exact fun _ => ⟨_, rfl⟩
  ownerFree : ∀ self value, type.inRange [] value → type.inRange self value := by
    exact fun _ _ inRange => inRange

def Field.toAttribute (field : Field) : Attribute := { name := field.name, type := field.type }

/-- The table with the given entries. -/
def FieldTable.ofFields (fields : List Field) (distinct : (fields.map Field.name).Nodup) :
    FieldTable where
  fields := fields.map Field.toAttribute
  unconditional := by
    rw [List.forall_mem_map]
    exact fun _ _ => rfl
  selfContained := by
    rw [List.forall_mem_map]
    exact fun field _ => field.selfContained
  constructible := by
    rw [List.forall_mem_map]
    exact fun field _ => field.constructible
  ownerFree := by
    rw [List.forall_mem_map]
    exact fun field _ => field.ownerFree
  distinct := by
    rw [names, List.map_map]
    exact distinct

/-- Where an index points; a negative one counts from the end. -/
def position (length : Nat) (index : Int) : Int :=
  if index < 0 then index + length else index

/-- `items[index]`. -/
def item {α : Type} (items : List α) (index : Int) : Except PyError α :=
  if position items.length index < 0 then .error .indexError
  else
    match items[(position items.length index).toNat]? with
    | some value => .ok value
    | none => .error .indexError

theorem item_mem {α : Type} {items : List α} {index : Int} {value : α}
    (found : item items index = .ok value) : value ∈ items := by
  unfold item at found
  split at found
  next => contradiction
  next =>
    split at found
    next present =>
      cases Except.ok.inj found
      exact List.mem_of_getElem? present
    next => contradiction

/-- A one-based identifier inside the table selects its field. -/
theorem item_of_id {α : Type} (items : List α) {id : Nat} (positive : 0 < id)
    (inside : id ≤ items.length) :
    ∃ bound : id - 1 < items.length, item items ((id : Int) - 1) = .ok items[id - 1] := by
  have bound : id - 1 < items.length := by omega
  have place : position items.length ((id : Int) - 1) = (id - 1 : Nat) := by
    rw [position, if_neg (by omega)]
    omega
  refine ⟨bound, ?_⟩
  rw [item, place, if_neg (by omega), Int.toNat_natCast, List.getElem?_eq_getElem bound]

namespace FieldTable

variable (table : FieldTable)

/-- `tuple(all_fields_info[x - 1] for x in fields)`. -/
def selectFields : List Val → Except PyError (List Attribute)
  | [] => .ok []
  | .int x :: rest => do
      let attr ← item table.fields (x - 1)
      let attrs ← selectFields rest
      return attr :: attrs
  | _ :: _ => .error .typeError

/-- The attributes of a row with this owner. -/
def attributes_info (owner : Obj) : Except PyError (List Attribute) :=
  match owner.get "fields" with
  | some (.list fields) => table.selectFields fields
  | some _ => .error .typeError
  | none => .error (.attributeError "fields")

theorem attributes_info_congr {left right : Obj}
    (agree : AgreeOn ["fields"] left right) :
    table.attributes_info left = table.attributes_info right := by
  rw [attributes_info, attributes_info, agree "fields" (by simp)]

variable {table}

theorem selectFields_subset {fields : List Val} {attrs : List Attribute}
    (selected : table.selectFields fields = .ok attrs) : attrs ⊆ table.fields := by
  induction fields generalizing attrs with
  | nil =>
      cases Except.ok.inj selected
      exact List.nil_subset _
  | cons field rest inductionHypothesis =>
      cases field with
      | int x =>
          obtain ⟨attr, first, selected⟩ := exceptBind_eq_ok.mp selected
          obtain ⟨others, tail, result⟩ := exceptBind_eq_ok.mp selected
          cases Except.ok.inj result
          exact List.cons_subset.mpr ⟨item_mem first, inductionHypothesis tail⟩
      | none | str | list | obj | price => cases selected

theorem attributes_info_subset {owner : Obj} {attrs : List Attribute}
    (selected : table.attributes_info owner = .ok attrs) : attrs ⊆ table.fields := by
  unfold attributes_info at selected
  split at selected
  next => exact selectFields_subset selected
  next => contradiction
  next => contradiction

/-- Identifiers inside the table select their fields, in order. -/
theorem selectFields_ids {ids : List Nat}
    (inside : ∀ id ∈ ids, 0 < id ∧ id ≤ table.fields.length) :
    ∃ attrs, table.selectFields (ids.map fun id : Nat => Val.int id) = .ok attrs ∧
      List.Forall₂ (fun id attr => table.fields[id - 1]? = some attr) ids attrs := by
  induction ids with
  | nil => exact ⟨[], rfl, .nil⟩
  | cons id rest inductionHypothesis =>
      obtain ⟨positive, below⟩ := inside id (by simp)
      obtain ⟨bound, found⟩ := item_of_id table.fields positive below
      obtain ⟨attrs, selected, matched⟩ :=
        inductionHypothesis fun other member => inside other (by simp [member])
      refine ⟨table.fields[id - 1] :: attrs, ?_, .cons (List.getElem?_eq_getElem bound) matched⟩
      rw [List.map_cons, selectFields]
      exact exceptBind_eq_ok.mpr ⟨_, found, exceptBind_eq_ok.mpr ⟨attrs, selected, rfl⟩⟩

private theorem selected_id {ids : List Nat} {attrs : List Attribute}
    (matched : List.Forall₂ (fun id attr => table.fields[id - 1]? = some attr) ids attrs)
    {attr : Attribute} (member : attr ∈ attrs) :
    ∃ id ∈ ids, table.fields[id - 1]? = some attr := by
  induction matched with
  | nil => cases member
  | cons head tail inductionHypothesis =>
      rcases List.mem_cons.mp member with rfl | member
      · exact ⟨_, by simp, head⟩
      · obtain ⟨id, idMember, found⟩ := inductionHypothesis member
        exact ⟨id, by simp [idMember], found⟩

/-- A name stands at one place of the table. -/
theorem place_of_name {first second : Nat} {attr other : Attribute}
    (here : table.fields[first]? = some attr) (there : table.fields[second]? = some other)
    (sameName : attr.name = other.name) : first = second := by
  have nameHere : (names table.fields)[first]? = some attr.name := by
    simp [names, here]
  have nameThere : (names table.fields)[second]? = some attr.name := by
    simp [names, there, sameName]
  obtain ⟨bound, -⟩ := List.getElem?_eq_some_iff.mp nameHere
  exact (List.getElem?_inj bound table.distinct).mp (nameHere.trans nameThere.symm)

/-- Distinct identifiers select fields of distinct names. -/
theorem names_nodup {ids : List Nat} {attrs : List Attribute}
    (matched : List.Forall₂ (fun id attr => table.fields[id - 1]? = some attr) ids attrs)
    (positive : ∀ id ∈ ids, 0 < id) (distinct : ids.Nodup) : (names attrs).Nodup := by
  induction matched with
  | nil => exact List.nodup_nil
  | @cons id attr ids attrs found others inductionHypothesis =>
      rw [List.nodup_cons] at distinct
      rw [names, List.map_cons, List.nodup_cons]
      refine ⟨fun member => ?_, inductionHypothesis
        (fun other member => positive other (by simp [member])) distinct.2⟩
      obtain ⟨other, otherMember, sameName⟩ := List.mem_map.mp member
      obtain ⟨otherId, otherIdMember, otherFound⟩ := selected_id others otherMember
      have samePlace := place_of_name found otherFound sameName.symm
      have idPositive := positive id (by simp)
      have otherPositive := positive otherId (by simp [otherIdMember])
      have sameId : id = otherId := by omega
      exact distinct.1 (sameId ▸ otherIdMember)

/-! ### Rows as attribute lists -/

/-- Distinct self-contained attributes are a well-formed attribute list. -/
theorem wellFormed_selection {attrs : List Attribute} (inTable : attrs ⊆ table.fields)
    (distinct : (names attrs).Nodup) : WellFormed [] [] attrs := by
  have general (known exact : List String) (fresh : ∀ attr ∈ attrs, attr.name ∉ known) :
      WellFormed known exact attrs := by
    induction attrs generalizing known exact with
    | nil => trivial
    | cons attr rest inductionHypothesis =>
        have member : attr ∈ table.fields := inTable (by simp)
        rw [names, List.map_cons, List.nodup_cons] at distinct
        refine ⟨fresh attr (by simp), ?_, ?_, ?_⟩
        · rw [table.selfContained attr member]
          exact List.nil_subset _
        · rw [table.unconditional attr member]
          simp
        · refine inductionHypothesis (List.Subset.trans (List.subset_cons_self _ _) inTable)
            distinct.2 _ _ fun other otherMember => ?_
          rw [List.mem_cons, not_or]
          refine ⟨fun same => distinct.1 ?_, fresh other (by simp [otherMember])⟩
          exact same ▸ List.mem_map_of_mem otherMember
  exact general [] [] fun _ _ => by simp

theorem unconditional_selection {attrs : List Attribute} (inTable : attrs ⊆ table.fields) :
    ∀ attr ∈ attrs, attr.condition = none :=
  fun attr member => table.unconditional attr (inTable member)

theorem constructs {attrs : List Attribute} (inTable : attrs ⊆ table.fields) (self : Obj) :
    ∃ final, construct attrs self = .ok final := by
  induction attrs generalizing self with
  | nil => exact ⟨self, rfl⟩
  | cons attr rest inductionHypothesis =>
      have restInTable : rest ⊆ table.fields :=
        List.Subset.trans (List.subset_cons_self _ _) inTable
      rw [construct]
      split
      · exact inductionHypothesis restInTable self
      · obtain ⟨value, isDefault⟩ := table.constructible attr (inTable (by simp)) self
        obtain ⟨final, constructed⟩ := inductionHypothesis restInTable (self.set attr.name value)
        exact ⟨final, exceptBind_eq_ok.mpr ⟨value, isDefault, constructed⟩⟩

/-- The attributes of a row that was built earlier, by their names. -/
def namedFields (table : FieldTable) : List String → Option (List Attribute)
  | [] => some []
  | name :: rest =>
      match table.fields.find? (fun attr => attr.name = name), namedFields table rest with
      | some attr, some attrs => some (attr :: attrs)
      | _, _ => none

theorem find_by_name {attr : Attribute} (member : attr ∈ table.fields) :
    table.fields.find? (fun other => other.name = attr.name) = some attr := by
  have present : (table.fields.find? fun other => other.name = attr.name).isSome = true :=
    List.find?_isSome.mpr ⟨attr, member, by simp⟩
  obtain ⟨other, found⟩ := Option.isSome_iff_exists.mp present
  have isMatch := List.find?_some found
  have sameName : other.name = attr.name := by simpa using isMatch
  obtain ⟨here, atHere⟩ := List.getElem?_of_mem (List.mem_of_find?_eq_some found)
  obtain ⟨there, atThere⟩ := List.getElem?_of_mem member
  have samePlace := place_of_name atHere atThere sameName
  rw [samePlace, atThere] at atHere
  rw [found, Option.some.inj atHere]

theorem namedFields_names {attrs : List Attribute} (inTable : attrs ⊆ table.fields) :
    table.namedFields (names attrs) = some attrs := by
  induction attrs with
  | nil => rfl
  | cons attr rest inductionHypothesis =>
      obtain ⟨head, tail⟩ := List.cons_subset.mp inTable
      have rest := inductionHypothesis tail
      rw [names] at rest ⊢
      rw [List.map_cons, namedFields, find_by_name head, rest]

end FieldTable

/-! ### Rows from their values -/

/-- The attributes of `self`, in order, are the given values. -/
def Holds (attrs : List Attribute) (self : Obj) (values : List Val) : Prop :=
  List.Forall₂ (fun attr value => self.get attr.name = some value) attrs values

theorem holds_iff_values {attrs : List Attribute} {self : Obj} {values : List Val} :
    Holds attrs self values ↔ self.values (names attrs) = some values := by
  rw [Obj.values_eq_some_iff, names, List.forall₂_map_left_iff, Holds]

theorem InRange.holds {attrs : List Attribute} {self : Obj} {values : List Val}
    (inRange : InRange attrs self values) : Holds attrs self values :=
  inRange.imp fun _ _ found => found.1

theorem Holds.has {attrs : List Attribute} {self : Obj} {values : List Val}
    (holds : Holds attrs self values) : ∀ attr ∈ attrs, self.has attr.name = true := by
  induction holds with
  | nil => simp
  | cons head _ inductionHypothesis =>
      intro attr member
      rcases List.mem_cons.mp member with rfl | member
      · rw [Obj.has, head]
        rfl
      · exact inductionHypothesis attr member

/-- Two objects that hold the same values agree on the attributes. -/
theorem Holds.agree {attrs : List Attribute} {left right : Obj} {values : List Val}
    (leftHolds : Holds attrs left values) (rightHolds : Holds attrs right values) :
    ∀ attr ∈ attrs, left.get attr.name = right.get attr.name := by
  induction leftHolds with
  | nil => simp
  | cons head _ inductionHypothesis =>
      cases rightHolds with
      | cons rightHead rightTail =>
          intro attr member
          rcases List.mem_cons.mp member with rfl | member
          · rw [head, rightHead]
          · exact inductionHypothesis rightTail attr member

theorem setPositional_get {attrs : List Attribute} {values : List Val} (self : Obj)
    (distinct : (names attrs).Nodup) (count : attrs.length = values.length) :
    ∃ final, setPositional attrs values self = .ok final ∧
      Holds attrs final values ∧ ∀ name ∉ names attrs, final.get name = self.get name := by
  induction attrs generalizing values self with
  | nil =>
      cases List.length_eq_zero_iff.mp count.symm
      exact ⟨self, rfl, .nil, fun _ _ => rfl⟩
  | cons attr attrs inductionHypothesis =>
      cases values with
      | nil => cases count
      | cons value values =>
          rw [names, List.map_cons, List.nodup_cons] at distinct
          obtain ⟨final, done, holds, kept⟩ := inductionHypothesis
            (self.set attr.name value) distinct.2 (Nat.succ.inj count)
          refine ⟨final, done, .cons ?_ holds, fun name fresh => ?_⟩
          · rw [kept attr.name distinct.1, Obj.get_set_self]
          · rw [names, List.map_cons, List.mem_cons, not_or] at fresh
            rw [kept name fresh.2, Obj.get_set_other _ _ fresh.1]

theorem construct_of_has {attrs : List Attribute} {self : Obj}
    (has : ∀ attr ∈ attrs, self.has attr.name = true) : construct attrs self = .ok self := by
  induction attrs with
  | nil => rfl
  | cons attr rest inductionHypothesis =>
      rw [construct, if_pos (by simp [has attr (by simp)])]
      exact inductionHypothesis fun other member => has other (by simp [member])

/-- A full row of values becomes the object that holds them. -/
theorem init_row {attrs : List Attribute} {values : List Val}
    (distinct : (names attrs).Nodup) (count : attrs.length = values.length) :
    ∃ self : Obj, init attrs values = .ok self ∧ Holds attrs self values := by
  obtain ⟨self, positional, holds, -⟩ := setPositional_get [] distinct count
  exact ⟨self, exceptBind_eq_ok.mpr ⟨self, positional, construct_of_has holds.has⟩, holds⟩

theorem truthy_of_iter {value : Val} {values : List Val} (yields : value.iter = some values) :
    value.truthy = !values.isEmpty := by
  cases value with
  | list items =>
      cases Option.some.inj yields
      rfl
  | obj names attributes =>
      have count := (Obj.values_eq_some_iff.mp yields).length_eq
      cases names <;> cases values <;> simp_all [Val.truthy]
  | none | int | str | price => cases yields

theorem fromIterable_of_iter {attrs : List Attribute} {value : Val} {values : List Val}
    (yields : value.iter = some values) :
    fromIterable attrs value = init attrs values := by
  rw [fromIterable, truthy_of_iter yields, yields]
  cases values with
  | nil => cases attrs <;> rfl
  | cons => rfl

/-- An object made from a full row holds it. -/
theorem coerce_holds {attrs : List Attribute} {value : Val} {values : List Val} {self : Obj}
    (distinct : (names attrs).Nodup) (count : attrs.length = values.length)
    (yields : value.iter = some values) (coerced : coerce attrs value = .ok self) :
    Holds attrs self values := by
  obtain ⟨row, initialized, holds⟩ := init_row distinct count
  have fromRow (made : fromIterable attrs value = .ok self) : Holds attrs self values := by
    rw [fromIterable_of_iter yields, initialized] at made
    cases Except.ok.inj made
    exact holds
  cases value with
  | obj own attributes =>
      rw [coerce] at coerced
      split at coerced
      next isInstance =>
        cases Except.ok.inj coerced
        subst isInstance
        exact holds_iff_values.mpr yields
      next => exact fromRow coerced
  | list items => exact fromRow coerced
  | none | int | str | price => cases yields

theorem InRange.of_holds {attrs : List Attribute} {self : Obj} {values : List Val}
    (holds : Holds attrs self values)
    (inRange : ∀ attr ∈ attrs, ∃ value, self.get attr.name = some value ∧
      attr.type.inRange self value) : InRange attrs self values := by
  induction holds with
  | nil => exact .nil
  | @cons attr value attrs values found _ inductionHypothesis =>
      obtain ⟨value', found', valueInRange⟩ := inRange attr (by simp)
      cases Option.some.inj (found.symm.trans found')
      exact .cons ⟨found, valueInRange⟩
        (inductionHypothesis fun other member => inRange other (by simp [member]))

/-- In-range values, one per attribute, initialize an in-range object. -/
theorem init_inRange {table : FieldTable} {attrs : List Attribute} {values : List Val}
    (inTable : attrs ⊆ table.fields) (distinct : (names attrs).Nodup)
    (inRange : List.Forall₂ (fun attr value => attr.type.inRange [] value) attrs values) :
    ∃ self, init attrs values = .ok self ∧ InRange attrs self values := by
  obtain ⟨self, initialized, holds⟩ := init_row distinct inRange.length_eq
  refine ⟨self, initialized, ?_⟩
  clear initialized distinct
  induction inRange with
  | nil => exact .nil
  | @cons attr value attrs values head _ inductionHypothesis =>
      obtain ⟨member, tail⟩ := List.cons_subset.mp inTable
      cases holds with
      | cons found others =>
          exact .cons ⟨found, table.ownerFree attr member self value head⟩
            (inductionHypothesis tail others)

/-! ### Codecs -/

section Codecs

variable (table : FieldTable)

/-- `VarFields.fromstream(reader, owner = owner)`. -/
def VarFields.fromstream (owner : Obj) : Decoder Val := do
  let attrs ← .ofExcept (table.attributes_info owner)
  BinaryObject.fromstream attrs .done

theorem VarFields.fromstream_detects (owner : Obj) :
    (VarFields.fromstream table owner).Detects (· = .fixed) :=
  (ReadProgram.Detects.ofExcept _).bind fun attrs =>
    BinaryObject.fromstream_detects attrs fun _ => trivial

variable {table}

/-- An in-range row comes back as an instance that equals any value yielding
the row. -/
theorem VarFields.readsBack {given : Obj} {attrs : List Attribute} {self : Obj}
    {values : List Val} {value : Val} {bytes : Bytes}
    (selected : table.attributes_info given = .ok attrs) (distinct : (names attrs).Nodup)
    (inRange : InRange attrs self values) (yields : value.iter = some values)
    (encoded : body2bytes "VarFields" attrs self = .ok bytes) :
    ∃ final : Obj,
      (∀ decoded, AgreeOn ["fields"] decoded given → ∀ rest,
        (VarFields.fromstream table decoded).consume (bytes ++ rest) =
          .returned (.obj (names attrs) final) rest) ∧
      Val.Same (.obj (names attrs) final) value ∧
      ∀ owner : Obj, (∀ attr ∈ attrs, owner.get attr.name = final.get attr.name) →
        body2bytes "VarFields" attrs owner = .ok bytes := by
  have inTable := table.attributes_info_subset selected
  obtain ⟨start, constructed⟩ := FieldTable.constructs inTable []
  obtain ⟨final, reads, same, -, again⟩ := fromstream_body2bytes "VarFields" attrs
    (FieldTable.wellFormed_selection inTable distinct)
    (FieldTable.unconditional_selection inTable) start inRange yields encoded
  refine ⟨final, fun decoded agree rest => ?_, same, again⟩
  have reading := fromstream_consume attrs .done [] rest constructed reads rfl
  rw [List.append_nil] at reading
  rw [VarFields.fromstream, table.attributes_info_congr agree, selected]
  exact reading

/-- `VarFields(row, owner = owner).tobytes()`. -/
def VarFields.rowBytes (table : FieldTable) (owner : Obj) (row : Val) : Except PyError Bytes := do
  let attrs ← table.attributes_info owner
  let self ← fromIterable attrs row
  body2bytes "VarFields" attrs self

/-- The rows that `VarFieldsVector` carries for this owner: one in-range value
per selected field. -/
def VarFields.RowInRange (table : FieldTable) (owner : Obj) (row : Val) : Prop :=
  ∃ attrs values, table.attributes_info owner = .ok attrs ∧ (names attrs).Nodup ∧
    row.iter = some values ∧
    List.Forall₂ (fun attr value => attr.type.inRange [] value) attrs values

theorem VarFields.rowReadsBack {given : Obj} {row : Val} {bytes : Bytes}
    (inRange : RowInRange table given row) (encoded : rowBytes table given row = .ok bytes) :
    ∃ result,
      (∀ decoded, AgreeOn ["fields"] decoded given → ∀ rest,
        (VarFields.fromstream table decoded).consume (bytes ++ rest) =
          .returned result rest) ∧
      Val.Same result row ∧
      ∀ owner, AgreeOn ["fields"] owner given → rowBytes table owner result = .ok bytes := by
  obtain ⟨attrs, values, selected, distinct, yields, valuesInRange⟩ := inRange
  obtain ⟨attrs', selected', encoded⟩ := exceptBind_eq_ok.mp encoded
  cases Except.ok.inj (selected.symm.trans selected')
  have inTable := table.attributes_info_subset selected
  obtain ⟨self, initialized, selfInRange⟩ := init_inRange inTable distinct valuesInRange
  obtain ⟨self', initialized', encoded⟩ := exceptBind_eq_ok.mp encoded
  rw [fromIterable_of_iter yields, initialized] at initialized'
  cases Except.ok.inj initialized'
  obtain ⟨final, reads, same, again⟩ :=
    readsBack selected distinct selfInRange yields encoded
  refine ⟨_, reads, same, fun owner agree => ?_⟩
  -- the decoded row is initialized again from what it yields
  cases same with
  | obj rowYields _ items =>
      have holds := holds_iff_values.mpr rowYields
      obtain ⟨again', rowInitialized, rowHolds⟩ := init_row distinct holds.length_eq
      refine exceptBind_eq_ok.mpr ⟨attrs, ?_, exceptBind_eq_ok.mpr ⟨again', ?_, ?_⟩⟩
      · rw [table.attributes_info_congr agree, selected]
      · rw [fromIterable_of_iter rowYields, rowInitialized]
      · exact again again' (rowHolds.agree holds)

/-- The rows of `VarFieldsVector.tobytes`. -/
def VarFieldsVector.rowsBytes (table : FieldTable) (owner : Obj) :
    List Val → Except PyError Bytes
  | [] => .ok []
  | x :: rest => do
      let v ← VarFields.rowBytes table owner x
      let b ← rowsBytes table owner rest
      return v ++ b

/-- `VarFieldsVector(size_cls).tobytes`; the value is the proxy's `values`. -/
def VarFieldsVector.tobytes (size_cls : IntFormat) (table : FieldTable) (owner : Obj) :
    Val → Except PyError Bytes
  | .list values => do
      let b ← size_cls.pack values.length
      let rows ← rowsBytes table owner values
      return b ++ rows
  | _ => .error .typeError

theorem VarFieldsVector.rowsReadBack {given : Obj} (rows : List Val) {bytes : Bytes}
    (inRange : ∀ row ∈ rows, VarFields.RowInRange table given row)
    (encoded : rowsBytes table given rows = .ok bytes) :
    ∃ results,
      (∀ decoded, AgreeOn ["fields"] decoded given → ∀ rest,
        ((VarFields.fromstream table decoded).times rows.length).consume (bytes ++ rest) =
          .returned results rest) ∧
      List.Forall₂ Val.Same results rows ∧
      ∀ owner, AgreeOn ["fields"] owner given → rowsBytes table owner results = .ok bytes := by
  induction rows generalizing bytes with
  | nil =>
      cases Except.ok.inj encoded
      exact ⟨[], fun _ _ _ => rfl, .nil, fun _ _ => rfl⟩
  | cons row others inductionHypothesis =>
      obtain ⟨v, first, encoded⟩ := exceptBind_eq_ok.mp encoded
      obtain ⟨b, tail, result⟩ := exceptBind_eq_ok.mp encoded
      cases Except.ok.inj result
      obtain ⟨decodedRow, reads, same, again⟩ :=
        VarFields.rowReadsBack (inRange row (by simp)) first
      obtain ⟨results, tailReads, tailSame, tailAgain⟩ :=
        inductionHypothesis (fun other member => inRange other (by simp [member])) tail
      refine ⟨decodedRow :: results, fun decoded agree rest => ?_, .cons same tailSame,
        fun owner agree => ?_⟩
      · rw [List.length_cons, ReadProgram.times, List.append_assoc,
          ReadProgram.consume_bind_of_returned (reads decoded agree (b ++ rest)),
          ReadProgram.consume_bind_of_returned (tailReads decoded agree rest)]
        rfl
      · exact exceptBind_eq_ok.mpr ⟨v, again owner agree,
          exceptBind_eq_ok.mpr ⟨b, tailAgain owner agree, rfl⟩⟩

end Codecs

/-- `VarFields` as the class of an attribute; only an instance can be encoded,
since the class wants an owner. -/
def Wire.VarFields (table : FieldTable) : Codec where
  default := fun owner => do
    let attrs ← table.attributes_info owner
    return .obj (names attrs) (← construct attrs [])
  fromstream := VarFields.fromstream table
  tobytes := fun _ value =>
    match value with
    | .obj own attributes =>
        match table.namedFields own with
        | some attrs => body2bytes "VarFields" attrs attributes
        | none => .error (.attributeError "all_fields_info")
    | _ => .error (.attributeError "all_fields_info")
  uses := ["fields"]
  literal := false
  inRange := fun owner value => ∃ attrs self values, table.attributes_info owner = .ok attrs ∧
    (names attrs).Nodup ∧ value = .obj (names attrs) self ∧ InRange attrs self values
  readsBack := by
    rintro given value bytes ⟨attrs, self, values, selected, distinct, rfl, inRange⟩ encoded
      decoded agree
    have known := FieldTable.namedFields_names (table.attributes_info_subset selected)
    simp only [known] at encoded
    have yields : Val.iter (.obj (names attrs) self) = some values :=
      holds_iff_values.mp (InRange.holds inRange)
    obtain ⟨final, reads, same, again⟩ :=
      VarFields.readsBack selected distinct inRange yields encoded
    refine ⟨_, reads decoded agree, same, fun isLiteral => (nomatch isLiteral), fun _ _ => ?_⟩
    simp only [known]
    exact again final fun _ _ => rfl
  detects := VarFields.fromstream_detects table

/-- `VarFieldsVector(size_cls)`. -/
def Wire.VarFieldsVector (size_cls : IntFormat) (table : FieldTable) : Codec where
  default := fun _ => .ok (.list [])
  fromstream := fun owner => do
    let size ← size_cls.fromstream
    return .list (← (VarFields.fromstream table owner).times size.toNat)
  tobytes := VarFieldsVector.tobytes size_cls table
  uses := ["fields"]
  literal := false
  inRange := fun owner value => ∃ rows, value = .list rows ∧
    ∀ row ∈ rows, VarFields.RowInRange table owner row
  readsBack := by
    rintro given value bytes ⟨rows, rfl, inRange⟩ encoded decoded agree
    obtain ⟨head, packed, encoded⟩ := exceptBind_eq_ok.mp encoded
    obtain ⟨items, content, result⟩ := exceptBind_eq_ok.mp encoded
    cases Except.ok.inj result
    obtain ⟨results, reads, same, again⟩ :=
      VarFieldsVector.rowsReadBack rows inRange content
    refine ⟨.list results, fun rest => ?_, .list same, fun isLiteral => (nomatch isLiteral),
      fun owner ownerAgrees => ?_⟩
    · rw [List.append_assoc,
        ReadProgram.consume_bind_of_returned
          (IntFormat.fromstream_packed packed (items ++ rest)),
        Int.toNat_natCast, ReadProgram.consume_bind_of_returned (reads decoded agree rest)]
      rfl
    · rw [← same.length_eq] at packed
      exact exceptBind_eq_ok.mpr ⟨head, packed,
        exceptBind_eq_ok.mpr ⟨items, again owner ownerAgrees, rfl⟩⟩
  detects := fun owner => (IntFormat.fromstream_detects size_cls).bind fun size =>
    ((VarFields.fromstream_detects table owner).times size.toNat).bind fun _ => trivial

end StdPrograms.Ouou

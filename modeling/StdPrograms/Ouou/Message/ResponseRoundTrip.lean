import StdPrograms.Ouou.Message.RequestRoundTrip

/-!
Contract: responses with selected fields survive the wire.

Owns the description of where such a response keeps its `fields` and its rows,
the step from distinct identifiers and in-range values to in-range rows, and
the round trip, with re-encoding, over all of these responses.
-/

namespace StdPrograms.Ouou

open StdPrograms.Foundation BinaryObject

/-! ### Where the rows are -/

/-- A response class whose rows are laid out by selected fields. -/
structure RowLayout where
  cls : MessageClass
  /-- The class's `all_fields_info`. -/
  table : FieldTable
  /-- The `fields` and the rows of a message of the class. -/
  content : Obj → Option (Val × Val)

/-- Fields and rows that are attributes of the message. -/
def ownContent (self : Obj) : Option (Val × Val) :=
  match self.get "fields", self.get "data" with
  | some fields, some data => some (fields, data)
  | _, _ => none

/-- Fields and rows that are attributes of the message's `td`. -/
def trendContent (self : Obj) : Option (Val × Val) :=
  match (self.get "td").bind Val.iter with
  | some [fields, _, _, data] => some (fields, data)
  | _ => none

def rowLayouts (host : Host) : List RowLayout :=
  [ { cls := Response_5502 host, table := Response_5501.all_fields_info host,
      content := ownContent },
    { cls := Response_5503, table := Response_5503.all_fields_info, content := ownContent },
    { cls := Response_5513 host, table := TimeTrend.all_fields_info, content := trendContent },
    { cls := Response_5514 host, table := Response_5503.all_fields_info,
      content := ownContent },
    { cls := Response_5516 host, table := Response_5501.all_fields_info host,
      content := ownContent } ]

/-! ### Rows -/

/-- One in-range value for each identifier, in their order. -/
def FieldTable.Row (table : FieldTable) (ids : List Nat) (row : Val) : Prop :=
  ∃ values, row.iter = some values ∧
    List.Forall₂ (fun id value => ∃ attr, table.fields[id - 1]? = some attr ∧
      attr.type.inRange [] value) ids values

/-- `fields` holds pairwise distinct identifiers of the table. -/
structure FieldTable.Selects (table : FieldTable) (ids : List Nat) : Prop where
  distinct : ids.Nodup
  inside : ∀ id ∈ ids, 0 < id ∧ id ≤ table.fields.length

/-- Two rows yield equal values, one by one. -/
def SameRow (decoded given : Val) : Prop :=
  ∃ left right, decoded.iter = some left ∧ given.iter = some right ∧
    List.Forall₂ Val.Same left right

theorem FieldTable.Row.inRange {table : FieldTable} {ids : List Nat} {owner : Obj} {row : Val}
    (selects : table.Selects ids)
    (fields : owner.get "fields" = some (.list (ids.map fun id : Nat => Val.int id)))
    (given : table.Row ids row) : VarFields.RowInRange table owner row := by
  obtain ⟨values, yields, inRange⟩ := given
  obtain ⟨attrs, selected, matched⟩ := FieldTable.selectFields_ids selects.inside
  refine ⟨attrs, values, ?_, FieldTable.names_nodup matched
    (fun id member => (selects.inside id member).1) selects.distinct, yields, ?_⟩
  · rw [FieldTable.attributes_info, fields]
    exact selected
  · clear yields selected selects fields
    induction matched generalizing values with
    | nil =>
        cases inRange
        exact .nil
    | cons found _ inductionHypothesis =>
        cases inRange with
        | cons head tail =>
            obtain ⟨attr, found', valueInRange⟩ := head
            cases Option.some.inj (found.symm.trans found')
            exact .cons valueInRange (inductionHypothesis _ tail)

theorem Val.Same.iter {decoded given : Val} (same : Val.Same decoded given) {right : List Val}
    (yields : given.iter = some right) :
    ∃ left, decoded.iter = some left ∧ List.Forall₂ Val.Same left right := by
  cases same with
  | int | str | price => cases yields
  | list items =>
      cases Option.some.inj yields
      exact ⟨_, rfl, items⟩
  | obj decodedYields givenYields items =>
      cases Option.some.inj (givenYields.symm.trans yields)
      exact ⟨_, decodedYields, items⟩

/-- A value equal to a list of rows is a list of equal rows. -/
theorem Val.Same.rows {decoded : Val} {rows : List Val} (same : Val.Same decoded (.list rows))
    (given : ∀ row ∈ rows, ∃ values, row.iter = some values) :
    ∃ results, decoded.iter = some results ∧ List.Forall₂ SameRow results rows := by
  obtain ⟨results, yields, items⟩ := same.iter rfl
  refine ⟨results, yields, ?_⟩
  clear yields same
  induction items with
  | nil => exact .nil
  | @cons result row _ _ head _ inductionHypothesis =>
      obtain ⟨right, rowYields⟩ := given row (by simp)
      obtain ⟨left, decodedYields, sameValues⟩ := head.iter rowYields
      exact .cons ⟨left, right, decodedYields, rowYields, sameValues⟩
        (inductionHypothesis fun row member => given row (by simp [member]))

/-! ### The response table -/

@[simp] theorem int_fills : Wire.Int.Fills := plainInteger_fills (by decide)
@[simp] theorem byteCounted_fills (elem_cls : Codec) :
    (Wire.Vector Byte.format elem_cls).Fills :=
  vector_fills (by decide) elem_cls

theorem serverClasses_plain (host : Host) :
    ∀ cls ∈ serverClasses host, cls.MSG_ID ≠ MSG_TYPE_MULTI → cls.multiple = false :=
  of_decide_eq_true rfl

theorem serverClasses_assigns (host : Host) :
    ∀ cls ∈ serverClasses host, cls.assigns.isEmpty = true :=
  of_decide_eq_true rfl

theorem serverClasses_noAssigns {host : Host} {cls : MessageClass}
    (member : cls ∈ serverClasses host) : cls.assigns = [] := by
  simpa using serverClasses_assigns host cls member

theorem responseClasses_server {host : Host} {cls : MessageClass}
    (member : cls ∈ responseClasses host) : cls ∈ serverClasses host :=
  List.mem_append_left _ member

/-- Every class but the multi-message starts with an attribute that fills. -/
theorem serverClasses_fill (host : Host) :
    ∀ cls ∈ serverClasses host, cls.MSG_ID ≠ MSG_TYPE_MULTI →
      ∃ attr rest, cls.attributes_info = attr :: rest ∧ attr.condition = none ∧
        attr.type.Fills := by
  simp [serverClasses, responseClasses, pushClasses, MSG_TYPE_MULTI, Response_5500, Response_5501,
    Response_5502, Response_5503, Response_5504, Response_5505, Response_5506, Response_5508,
    Response_5509, Response_5510, Response_5511, Response_5512, Response_5513, Response_5514,
    Response_5515, Response_5516, Response_5517, Response_5518, Response_5519, Push_5514,
    Push_5516]

/-- No message of such a class has an empty payload. -/
theorem serverClasses_nonempty {host : Host} {cls : MessageClass} (member : cls ∈ serverClasses host)
    (notMultiple : cls.MSG_ID ≠ MSG_TYPE_MULTI) {attributes : Obj} {body : Bytes}
    (encoded : body2bytes cls.name cls.attributes_info attributes = .ok body) : body ≠ [] := by
  obtain ⟨attr, rest, attrs, unconditional, fills⟩ := serverClasses_fill host cls member notMultiple
  rw [attrs] at encoded
  exact body2bytes_nonempty unconditional fills encoded

/-- A response with in-range attributes is decoded to the same class and equal
attributes, and the decoded message encodes to the same bytes. -/
theorem response_roundTrip (host : Host) {cls : MessageClass}
    (member : cls ∈ responseClasses host) (notMultiple : cls.MSG_ID ≠ MSG_TYPE_MULTI)
    {attributes : Obj} (inRange : cls.InRange attributes) {bytes : Bytes}
    (encoded : ((cls.new attributes).tobytes false).2 = .ok bytes) :
    ∃ decoded, Message.allfrombytes (package host) bytes false = .ok (some decoded) ∧
      decoded.cls = cls ∧ cls.SameAttributes decoded.attributes attributes ∧
      (decoded.tobytes false).2 = .ok bytes := by
  have isServer := responseClasses_server member
  have plain := serverClasses_plain host cls isServer notMultiple
  have noAssigns := serverClasses_noAssigns isServer
  have named : cls.MSG_ID ≠ 0 := by
    have := serverClasses_ids host cls isServer
    omega
  have unassigned : (cls.new attributes).assign = cls.new attributes :=
    Message.assign_of_nil noAssigns
  obtain ⟨body, header, decoded, hasBody, hasHeader, layout, parsed, sameHeader, -, isWhole⟩ :=
    Message.allfrombytes_tobytes (package host) false rfl plain
      named (cls.new_uncompressed attributes false)
      (get_owner_cls_response member rfl (cls.new_notPush attributes false) rfl)
      (by rwa [unassigned]) encoded
  have nonempty : body ≠ [] := by
    rw [unassigned, Message.body2bytes, show (cls.new attributes).cls.multiple = false from plain]
      at hasBody
    exact serverClasses_nonempty isServer notMultiple hasBody
  obtain ⟨sameClass, topLevel, same, again⟩ := isWhole nonempty
  rw [unassigned] at same
  refine ⟨decoded, parsed, sameClass, same, ?_⟩
  have decodedUnassigned : decoded.assign = decoded :=
    Message.assign_of_nil (by rw [sameClass]; exact noAssigns)
  have decodedBody : decoded.assign.body2bytes = .ok body := by
    rw [decodedUnassigned, Message.body2bytes, sameClass,
      show (cls.new attributes).cls.multiple = false from plain]
    exact again
  have decodedHeader : (decoded.sizedHeader body).tobytes = .ok header := by
    rw [PlainMessage.sizedHeader, sameHeader]
    exact hasHeader
  rw [Message.tobytes_of_ok decodedBody decodedHeader, topLevel, layout]
  rfl

/-! ### In-range attributes of the row classes -/

/-- The attribute that holds the rows. -/
def dataAttribute (table : FieldTable) : Attribute :=
  { name := "data", type := Wire.VarFieldsVector UShort.format table }

/-- What the encoding does not check of an attribute list is its rows. -/
def CheckedButRows (table : FieldTable) (attrs : List Attribute) : Prop :=
  ∀ attr ∈ attrs, attr.type.Checked ∨ attr = dataAttribute table

theorem CheckedButRows.inRange {table : FieldTable} {attrs : List Attribute} {cls_name : String}
    (checked : CheckedButRows table attrs) {ids : List Nat} {rows : List Val} {self : Obj}
    {bytes : Bytes} (selects : table.Selects ids)
    (fields : self.get "fields" = some (.list (ids.map fun id : Nat => Val.int id)))
    (data : self.get "data" = some (.list rows)) (given : ∀ row ∈ rows, table.Row ids row)
    (encoded : body2bytes cls_name attrs self = .ok bytes) :
    ∀ attr ∈ attrs, attr.active self = true →
      ∃ value, self.get attr.name = some value ∧ attr.type.inRange self value := by
  intro attr member active
  obtain ⟨value, b, found, written⟩ := body2bytes_encodes encoded attr member active
  rcases checked attr member with checked | rfl
  · exact ⟨value, found, checked self value b written⟩
  · exact ⟨.list rows, data, rows, rfl, fun row rowMember =>
      (given row rowMember).inRange selects fields⟩

/-- The classes whose own attributes are the fields and the rows. -/
theorem ownContent_checked (host : Host) :
    CheckedButRows (Response_5501.all_fields_info host) (Response_5502 host).attributes_info ∧
    CheckedButRows Response_5503.all_fields_info Response_5503.attributes_info ∧
    CheckedButRows Response_5503.all_fields_info (Response_5514 host).attributes_info ∧
    CheckedButRows (Response_5501.all_fields_info host) (Response_5516 host).attributes_info ∧
    CheckedButRows TimeTrend.all_fields_info TimeTrend.attributes_info := by
  simp [CheckedButRows, dataAttribute, Response_5502, Response_5503, Response_5514,
    Response_5516, TimeTrend.attributes_info, Wire.ByteVector]

/-- A trend whose rows are in range is in range. -/
theorem timeTrend_inRange {owner : Obj} {td : Val} {ids : List Nat} {rows : List Val}
    {need_clear_local total_num : Val} {b : Bytes}
    (selects : TimeTrend.all_fields_info.Selects ids)
    (yields : td.iter = some [.list (ids.map fun id : Nat => Val.int id), need_clear_local,
      total_num, .list rows])
    (given : ∀ row ∈ rows, TimeTrend.all_fields_info.Row ids row)
    (encoded : Wire.TimeTrend.tobytes owner td = .ok b) :
    Wire.TimeTrend.inRange owner td := by
  obtain ⟨self, coerced, bodyEncoded⟩ := exceptBind_eq_ok.mp encoded
  have distinct : (names TimeTrend.attributes_info).Nodup := by
    simp [names, TimeTrend.attributes_info]
  have holds := coerce_holds distinct rfl yields coerced
  have checked := (ownContent_checked asciiHost).2.2.2.2
  refine ⟨self, _, coerced, yields, InRange.of_holds holds fun attr member => ?_⟩
  obtain ⟨fields, -, -, data, -⟩ : self.get "fields" = _ ∧ self.get "need_clear_local" = _ ∧
      self.get "total_num" = _ ∧ self.get "data" = _ ∧ True := by
    simpa [Holds, TimeTrend.attributes_info] using holds
  have active : attr.active self = true := by
    revert attr
    simp [TimeTrend.attributes_info, Attribute.active]
  exact checked.inRange selects fields data given bodyEncoded attr member active

/-! ### The round trip -/

/-- What a row class keeps of its rows when it is decoded. -/
theorem ownContent_same {cls : MessageClass} {table : FieldTable} {decoded attributes : Obj}
    {rows : List Val} {fieldsType : Codec}
    (same : cls.SameAttributes decoded attributes)
    (hasFields : { name := "fields", type := fieldsType } ∈ cls.attributes_info)
    (hasData : dataAttribute table ∈ cls.attributes_info)
    (data : attributes.get "data" = some (.list rows)) :
    ∃ fields result, ownContent decoded = some (fields, result) ∧
      Val.Same result (.list rows) := by
  obtain ⟨-, fields, -, decodedFields, -⟩ := same _ hasFields rfl
  obtain ⟨value, result, found, decodedData, sameData, -⟩ := same _ hasData rfl
  have isData : value = .list rows := Option.some.inj (found.symm.trans data)
  subst isData
  refine ⟨fields, result, ?_, sameData⟩
  rw [ownContent, decodedFields, show decoded.get "data" = some result from decodedData]

/-- The frame decodes to a message of the class with equal rows, and that message
encodes to the same frame. -/
def RowLayout.Survives (layout : RowLayout) (host : Host) (rows : List Val) (bytes : Bytes) :
    Prop :=
  ∃ decoded fields data results,
    Message.allfrombytes (package host) bytes false = .ok (some decoded) ∧
    decoded.cls = layout.cls ∧
    layout.content decoded.attributes = some (fields, data) ∧
    data.iter = some results ∧ List.Forall₂ SameRow results rows ∧
    (decoded.tobytes false).2 = .ok bytes

section Survival

variable {host : Host} {attributes : Obj} {ids : List Nat} {rows : List Val} {bytes : Bytes}

/-- The body of a message of a plain class. -/
theorem body_of_tobytes {cls : MessageClass} (plain : cls.multiple = false)
    (noAssigns : cls.assigns = []) (encoded : ((cls.new attributes).tobytes false).2 = .ok bytes) :
    ∃ body, body2bytes cls.name cls.attributes_info attributes = .ok body := by
  obtain ⟨body, -, hasBody, -, -⟩ := Message.tobytes_eq_ok encoded
  rw [Message.assign_of_nil noAssigns, Message.body2bytes,
    show (cls.new attributes).cls.multiple = false from plain] at hasBody
  exact ⟨body, hasBody⟩

theorem iterable_of_given {table : FieldTable} {ids : List Nat} {rows : List Val}
    (given : ∀ row ∈ rows, table.Row ids row) : ∀ row ∈ rows, ∃ values, row.iter = some values := by
  intro row member
  obtain ⟨values, yields, -⟩ := given row member
  exact ⟨values, yields⟩

theorem ownContent_survives {layout : RowLayout} (isOwn : layout.content = ownContent)
    (member : layout.cls ∈ responseClasses host) (notMultiple : layout.cls.MSG_ID ≠ MSG_TYPE_MULTI)
    (checked : CheckedButRows layout.table layout.cls.attributes_info)
    (hasFields : { name := "fields", type := Wire.ByteVector } ∈ layout.cls.attributes_info)
    (hasData : dataAttribute layout.table ∈ layout.cls.attributes_info)
    (selects : layout.table.Selects ids)
    (content : layout.content attributes =
      some (.list (ids.map fun id : Nat => Val.int id), .list rows))
    (given : ∀ row ∈ rows, layout.table.Row ids row)
    (encoded : ((layout.cls.new attributes).tobytes false).2 = .ok bytes) :
    layout.Survives host rows bytes := by
  have plain := serverClasses_plain host _ (responseClasses_server member) notMultiple
  have noAssigns := serverClasses_noAssigns (responseClasses_server member)
  obtain ⟨body, bodyBytes⟩ := body_of_tobytes plain noAssigns encoded
  rw [isOwn, ownContent] at content
  split at content
  next fields data hasFieldsValue hasRows =>
    obtain ⟨rfl, rfl⟩ := Prod.mk.inj (Option.some.inj content)
    have inRange := checked.inRange selects hasFieldsValue hasRows given bodyBytes
    obtain ⟨decoded, parsed, sameClass, same, again⟩ :=
      response_roundTrip host member notMultiple inRange encoded
    obtain ⟨fields, data, decodedContent, sameData⟩ :=
      ownContent_same same hasFields hasData hasRows
    obtain ⟨results, yields, sameRows⟩ := sameData.rows (iterable_of_given given)
    exact ⟨decoded, fields, data, results, parsed, sameClass, by rw [isOwn]; exact decodedContent,
      yields, sameRows, again⟩
  next => contradiction

private theorem trendContent_of_iter {self : Obj} {td fields clear total data : Val}
    (hasTd : self.get "td" = some td) (yields : td.iter = some [fields, clear, total, data]) :
    trendContent self = some (fields, data) := by
  rw [trendContent, hasTd, Option.bind_some, yields]

theorem trendContent_survives (selects : TimeTrend.all_fields_info.Selects ids)
    (content : trendContent attributes =
      some (.list (ids.map fun id : Nat => Val.int id), .list rows))
    (given : ∀ row ∈ rows, TimeTrend.all_fields_info.Row ids row)
    (encoded : (((Response_5513 host).new attributes).tobytes false).2 = .ok bytes) :
    RowLayout.Survives ⟨Response_5513 host, TimeTrend.all_fields_info, trendContent⟩ host rows
      bytes := by
  have member : Response_5513 host ∈ responseClasses host := by simp [responseClasses]
  obtain ⟨body, bodyBytes⟩ := body_of_tobytes rfl rfl encoded
  unfold trendContent at content
  split at content
  next fields need_clear_local total_num data tdYields =>
    obtain ⟨rfl, rfl⟩ := Prod.mk.inj (Option.some.inj content)
    obtain ⟨td, hasTd, yields⟩ := Option.bind_eq_some_iff.mp tdYields
    have inRange : (Response_5513 host).InRange attributes := by
      intro attr attrMember active
      obtain ⟨value, b, found, written⟩ := body2bytes_encodes bodyBytes attr attrMember active
      have checkedButTrend : attr.type.Checked ∨ attr = { name := "td", type := Wire.TimeTrend } := by
        revert attr
        simp [Response_5513]
      rcases checkedButTrend with checked | rfl
      · exact ⟨value, found, checked attributes value b written⟩
      · cases Option.some.inj (found.symm.trans hasTd)
        exact ⟨td, hasTd, timeTrend_inRange selects yields given written⟩
    obtain ⟨decoded, parsed, sameClass, same, again⟩ :=
      response_roundTrip host member (by simp [Response_5513, MSG_TYPE_MULTI]) inRange encoded
    obtain ⟨value, result, found, decodedTd, sameTd, -⟩ :=
      same { name := "td", type := Wire.TimeTrend } (by simp [Response_5513]) rfl
    cases Option.some.inj (found.symm.trans hasTd)
    obtain ⟨left, leftYields, items⟩ := sameTd.iter yields
    -- four values against four values, the last one the rows
    rcases items with _ | ⟨-, _ | ⟨-, _ | ⟨-, _ | ⟨sameData, _ | _⟩⟩⟩⟩
    obtain ⟨results, dataYields, sameRows⟩ := sameData.rows (iterable_of_given given)
    exact ⟨decoded, _, _, results, parsed, sameClass, trendContent_of_iter decodedTd leftYields,
      dataYields, sameRows, again⟩
  next => contradiction

/-- A response with selected fields comes back with equal rows and encodes to
the same bytes again. -/
theorem response_allfrombytes_tobytes {layout : RowLayout} (member : layout ∈ rowLayouts host)
    (selects : layout.table.Selects ids)
    (content : layout.content attributes =
      some (.list (ids.map fun id : Nat => Val.int id), .list rows))
    (given : ∀ row ∈ rows, layout.table.Row ids row)
    (encoded : ((layout.cls.new attributes).tobytes false).2 = .ok bytes) :
    layout.Survives host rows bytes := by
  obtain ⟨checked5502, checked5503, checked5514, checked5516, -⟩ := ownContent_checked host
  simp only [rowLayouts, List.mem_cons, List.not_mem_nil, or_false] at member
  rcases member with rfl | rfl | rfl | rfl | rfl
  · exact ownContent_survives rfl (by simp [responseClasses])
      (by simp [Response_5502, MSG_TYPE_MULTI]) checked5502 (by simp [Response_5502])
      (by simp [Response_5502, dataAttribute]) selects content given encoded
  · exact ownContent_survives rfl (by simp [responseClasses])
      (by simp [Response_5503, MSG_TYPE_MULTI]) checked5503 (by simp [Response_5503])
      (by simp [Response_5503, dataAttribute]) selects content given encoded
  · exact trendContent_survives selects content given encoded
  · exact ownContent_survives rfl (by simp [responseClasses])
      (by simp [Response_5514, MSG_TYPE_MULTI]) checked5514 (by simp [Response_5514])
      (by simp [Response_5514, dataAttribute]) selects content given encoded
  · exact ownContent_survives rfl (by simp [responseClasses])
      (by simp [Response_5516, MSG_TYPE_MULTI]) checked5516 (by simp [Response_5516])
      (by simp [Response_5516, dataAttribute]) selects content given encoded

end Survival

/-- One quote of the day, with its date and its volume. -/
theorem response_5503_allfrombytes_tobytes :
    RowLayout.Survives
      ⟨Response_5503, Response_5503.all_fields_info, ownContent⟩ asciiHost
      [.list [.int 411, .int 800000]]
      [0x7b, 0x7f, 0x15, 0, 0, 0x16, 0, 0x18, 0x6d, 2, 0, 100, 0, 0, 0, 0, 2, 1, 4, 1, 0,
        0x9b, 1, 0, 0, 0, 0x35, 0x0c, 0, 0x7d] := by
  have member : (⟨Response_5503, Response_5503.all_fields_info, ownContent⟩ : RowLayout) ∈
      rowLayouts asciiHost := by
    simp [rowLayouts]
  have selects : Response_5503.all_fields_info.Selects [1, 4] := ⟨by decide, by decide⟩
  have given : ∀ row ∈ ([.list [.int 411, .int 800000]] : List Val),
      Response_5503.all_fields_info.Row [1, 4] row := by
    intro row rowMember
    cases List.mem_singleton.mp rowMember
    exact ⟨_, rfl, .cons ⟨_, rfl, 411, rfl, by decide⟩ (.cons ⟨_, rfl, 800000, rfl, by decide⟩ .nil)⟩
  let attributes : Obj := [("close_price", .int 159000), ("data_pos", .int 100),
    ("need_clear_local", .int 0), ("fields", .list [.int 1, .int 4]),
    ("data", .list [.list [.int 411, .int 800000]])]
  have content : ownContent attributes =
      some (.list ([1, 4].map fun id : Nat => Val.int id),
        .list [.list [.int 411, .int 800000]]) := rfl
  have encoded : ((Response_5503.new attributes).tobytes false).2 = .ok [0x7b, 0x7f, 0x15, 0, 0,
      0x16, 0, 0x18, 0x6d, 2, 0, 100, 0, 0, 0, 0, 2, 1, 4, 1, 0, 0x9b, 1, 0, 0, 0, 0x35, 0x0c, 0,
      0x7d] := by decide +kernel
  exact response_allfrombytes_tobytes member selects content given encoded

end StdPrograms.Ouou

import StdPrograms.Ouou.Message.Response

/-!
Contract: what decoding makes of the identifiers in `fields`.

Owns the place that an identifier selects, the rows as chains of reads that follow the
identifiers, and when a row with an unknown identifier is rejected. Indexing with
`x - 1` raises above the table, but wraps around below it: the identifier 0 selects the
last field.

Does not own the round trip of known identifiers.
-/

namespace StdPrograms.Ouou

open StdPrograms.Foundation BinaryObject

namespace FieldTable

variable (table : FieldTable)

/-- The owner's `fields`, as `ByteVector` decodes them. -/
def Governs (ids : List UInt8) (owner : Obj) : Prop :=
  owner.get "fields" = some (.list (ids.map fun id => Val.int id.toNat))

/-- An identifier outside `1..n`. -/
def Unknown (id : UInt8) : Prop := id = 0 ∨ table.fields.length < id.toNat

/-- The one-based place that the index selects. -/
def place (id : UInt8) : ℕ := if id = 0 then table.fields.length else id.toNat

/-- The attributes at these places. -/
def Picks : List UInt8 → List Attribute → Prop :=
  List.Forall₂ fun id attr =>
    0 < table.place id ∧ table.fields[table.place id - 1]? = some attr

/-- A row is read with the type of the field of each identifier, one after the other. -/
inductive ReadsFields : List UInt8 → Obj → Reader → Obj → Reader → Prop where
  | nil (self : Obj) (reader : Reader) : ReadsFields [] self reader self reader
  | cons {id : UInt8} {ids : List UInt8} {attr : Attribute} {self final : Obj} {value : Val}
      {reader middle after : Reader} (positive : 0 < id.toNat)
      (field : table.fields[id.toNat - 1]? = some attr)
      (decoded : reader.decode (attr.type.fromstream self) = .ok (value, middle))
      (rest : ReadsFields ids (self.set attr.name value) middle final after) :
      ReadsFields (id :: ids) self reader final after

/-- Rows one after the other. -/
inductive ReadsRows (ids : List UInt8) : List Val → Reader → Reader → Prop where
  | nil (reader : Reader) : ReadsRows ids [] reader reader
  | cons {names : List String} {start final : Obj} {rows : List Val}
      {reader middle after : Reader}
      (row : ReadsFields table ids start reader final middle)
      (rest : ReadsRows ids rows middle after) :
      ReadsRows ids (.obj names final :: rows) reader after

/-- A single `VarFields`: an unknown identifier raises, and known ones are followed. -/
def Rejects (ids : List UInt8) (owner : Obj) (reader : Reader) : Prop :=
  ((∃ id ∈ ids, table.Unknown id) →
    ∃ error, reader.decode (VarFields.fromstream table owner) = .error error) ∧
  ((∀ id ∈ ids, ¬ table.Unknown id) → ∀ row after,
    reader.decode (VarFields.fromstream table owner) = .ok (row, after) →
      table.ReadsRows ids [row] reader after)

/-- The same inside `VarFieldsVector`, where there are rows. -/
def VectorRejects (size_cls : IntFormat) (ids : List UInt8) (owner : Obj) (reader : Reader) :
    Prop :=
  ((∃ id ∈ ids, table.Unknown id) → ∀ size middle,
    reader.decode size_cls.fromstream = .ok (size, middle) → 0 < size →
      ∃ error, reader.decode ((Wire.VarFieldsVector size_cls table).fromstream owner) =
        .error error) ∧
  ((∀ id ∈ ids, ¬ table.Unknown id) → ∀ data after,
    reader.decode ((Wire.VarFieldsVector size_cls table).fromstream owner) = .ok (data, after) →
      ∃ size middle rows, reader.decode size_cls.fromstream = .ok (size, middle) ∧
        data = .list rows ∧ rows.length = size.toNat ∧ table.ReadsRows ids rows middle after)

/-- No identifier is 0, or another reason to raise is there: no fields, an identifier
above the table, or data that are none for these fields, with the last one for 0. -/
def Harmless (ids : List UInt8) (malformed : List Attribute → Prop) : Prop :=
  0 ∉ ids ∨ table.fields = [] ∨ (∃ id ∈ ids, table.fields.length < id.toNat) ∨
    ∃ attrs, table.Picks ids attrs ∧ malformed attrs

/-! ### Selecting by identifiers -/

variable {table} {ids : List UInt8} {attrs : List Attribute}

theorem toNat_pos {id : UInt8} (notZero : id ≠ 0) : 0 < id.toNat :=
  UInt8.lt_iff_toNat_lt.mp (UInt8.pos_iff_ne_zero.mpr notZero)

theorem item_eq_ok_iff {id : UInt8} {attr : Attribute} :
    item table.fields ((id.toNat : ℤ) - 1) = .ok attr ↔
      0 < table.place id ∧ table.fields[table.place id - 1]? = some attr := by
  have isPlace : position table.fields.length ((id.toNat : ℤ) - 1) = (table.place id : ℤ) - 1 := by
    by_cases zero : id = 0
    · subst zero
      rw [place, if_pos rfl, position, if_pos (by decide)]
      show (0 : ℤ) - 1 + _ = _
      omega
    · have positive := toNat_pos zero
      rw [place, if_neg zero, position, if_neg (by omega)]
  rw [item, isPlace]
  by_cases outside : table.place id = 0
  · rw [if_pos (by omega)]
    constructor
    · intro raised
      cases raised
    · intro found
      exact absurd found.1 (by omega)
  · have index : ((table.place id : ℤ) - 1).toNat = table.place id - 1 := by omega
    rw [if_neg (by omega), index, and_iff_right (Nat.pos_of_ne_zero outside)]
    cases table.fields[table.place id - 1]? with
    | none =>
        constructor
        · intro raised
          cases raised
        · intro absent
          cases absent
    | some found =>
        constructor
        · intro isFound
          rw [Except.ok.inj isFound]
        · intro isFound
          rw [Option.some.inj isFound]

theorem selectFields_eq_ok_iff :
    table.selectFields (ids.map fun id => Val.int id.toNat) = .ok attrs ↔ table.Picks ids attrs := by
  induction ids generalizing attrs with
  | nil =>
      constructor
      · intro selected
        cases Except.ok.inj selected
        exact .nil
      · rintro ⟨⟩
        rfl
  | cons id rest inductionHypothesis =>
      constructor
      · intro selected
        obtain ⟨attr, first, selected⟩ := exceptBind_eq_ok.mp selected
        obtain ⟨others, tail, result⟩ := exceptBind_eq_ok.mp selected
        cases Except.ok.inj result
        exact .cons (item_eq_ok_iff.mp first) (inductionHypothesis.mp tail)
      · rintro (_ | ⟨first, tail⟩)
        exact exceptBind_eq_ok.mpr ⟨_, item_eq_ok_iff.mpr first,
          exceptBind_eq_ok.mpr ⟨_, inductionHypothesis.mpr tail, rfl⟩⟩

theorem Picks.unique {others : List Attribute} (picks : table.Picks ids attrs)
    (otherPicks : table.Picks ids others) : attrs = others :=
  Except.ok.inj ((selectFields_eq_ok_iff.mpr picks).symm.trans (selectFields_eq_ok_iff.mpr otherPicks))

/-- Every identifier that selects a place of the table selects its field. -/
theorem exists_picks_iff :
    (∃ attrs, table.Picks ids attrs) ↔
      ∀ id ∈ ids, 0 < table.place id ∧ table.place id ≤ table.fields.length := by
  constructor
  · rintro ⟨attrs, picks⟩ id member
    induction picks with
    | nil => cases member
    | @cons head attr rest others found _ inductionHypothesis =>
        rcases List.mem_cons.mp member with rfl | member
        · obtain ⟨bound, -⟩ := List.getElem?_eq_some_iff.mp found.2
          have positive := found.1
          exact ⟨positive, by omega⟩
        · exact inductionHypothesis member
  · intro inside
    induction ids with
    | nil => exact ⟨[], .nil⟩
    | cons id rest inductionHypothesis =>
        obtain ⟨positive, below⟩ := inside id (by simp)
        obtain ⟨attrs, picks⟩ := inductionHypothesis fun other member => inside other (by simp [member])
        have bound : table.place id - 1 < table.fields.length := by omega
        exact ⟨_, .cons ⟨positive, List.getElem?_eq_getElem bound⟩ picks⟩

theorem place_of_known {id : UInt8} (known : ¬ table.Unknown id) :
    table.place id = id.toNat ∧ 0 < id.toNat ∧ id.toNat ≤ table.fields.length := by
  obtain ⟨notZero, below⟩ := not_or.mp known
  exact ⟨if_neg notZero, toNat_pos notZero, by omega⟩

/-- An identifier above the table selects no place of it. -/
theorem lt_place_of_above {id : UInt8} (above : table.fields.length < id.toNat) :
    table.fields.length < table.place id := by
  have notZero : id ≠ 0 := by
    rintro rfl
    exact absurd above (Nat.not_lt_zero _)
  rwa [place, if_neg notZero]

/-- What depends on the selection only is true of unknown identifiers where it is true of
a failed selection, and of the one that the identifiers make. -/
theorem unknown_imp_iff_harmless {raises : Prop} {malformed : List Attribute → Prop}
    (refused : (¬ ∃ attrs, table.Picks ids attrs) → raises)
    (picked : ∀ attrs, table.Picks ids attrs → (raises ↔ malformed attrs)) :
    ((∃ id ∈ ids, table.Unknown id) → raises) ↔ table.Harmless ids malformed := by
  by_cases picks : ∃ attrs, table.Picks ids attrs
  · have inside := exists_picks_iff.mp picks
    obtain ⟨attrs, picks⟩ := picks
    by_cases zero : 0 ∈ ids
    · have some : 0 < table.fields.length := by
        have := (inside 0 zero).1
        rwa [place, if_pos rfl] at this
      have isHarmless : table.Harmless ids malformed ↔ malformed attrs := by
        constructor
        · rintro (noZero | noFields | ⟨id, member, above⟩ | ⟨others, otherPicks, isMalformed⟩)
          · exact absurd zero noZero
          · rw [noFields] at some
            cases some
          · exact absurd (inside id member).2 (Nat.not_le.mpr (lt_place_of_above above))
          · rwa [picks.unique otherPicks]
        · exact fun isMalformed => .inr (.inr (.inr ⟨attrs, picks, isMalformed⟩))
      rw [isHarmless, ← picked attrs picks]
      exact ⟨fun rejected => rejected ⟨0, zero, .inl rfl⟩, fun raised _ => raised⟩
    · refine iff_of_true (fun ⟨id, member, unknown⟩ => ?_) (.inl zero)
      rcases unknown with rfl | above
      · exact absurd member zero
      · exact absurd (inside id member).2 (Nat.not_le.mpr (lt_place_of_above above))
  · refine iff_of_true (fun _ => refused picks) ?_
    rw [exists_picks_iff] at picks
    push Not at picks
    obtain ⟨id, member, outside⟩ := picks
    by_cases zero : id = 0
    · subst zero
      rw [place, if_pos rfl] at outside
      refine .inr (.inl (List.length_eq_zero_iff.mp ?_))
      omega
    · rw [place, if_neg zero] at outside
      exact .inr (.inr (.inl ⟨id, member, outside (toNat_pos zero)⟩))

/-! ### Rows that follow their identifiers -/

variable {owner : Obj} {reader after : Reader}

theorem fromstream_picked (governs : Governs ids owner) (picks : table.Picks ids attrs) :
    VarFields.fromstream table owner = BinaryObject.fromstream attrs .done := by
  rw [VarFields.fromstream, attributes_info, governs]
  dsimp only
  rw [selectFields_eq_ok_iff.mpr picks]
  rfl

theorem fromstream_refused (governs : Governs ids owner)
    (refused : ¬ ∃ attrs, table.Picks ids attrs) :
    ∃ error, VarFields.fromstream table owner = .fail error := by
  rw [VarFields.fromstream, attributes_info, governs]
  dsimp only
  cases selected : table.selectFields (ids.map fun id => Val.int id.toNat) with
  | error error => exact ⟨error, rfl⟩
  | ok attrs => exact absurd ⟨attrs, selectFields_eq_ok_iff.mp selected⟩ refused

theorem readsFields_of_readAttributes (known : ∀ id ∈ ids, ¬ table.Unknown id)
    (picks : table.Picks ids attrs) {self final : Obj}
    (decoded : reader.decode (readAttributes attrs self) = .ok (final, after)) :
    table.ReadsFields ids self reader final after := by
  induction picks generalizing self reader with
  | nil =>
      cases Except.ok.inj decoded
      exact .nil _ _
  | @cons id attr rest others found picks inductionHypothesis =>
      obtain ⟨isPlace, positive, -⟩ := place_of_known (known id (by simp))
      have active : attr.active self = true := by
        have unconditional := table.unconditional attr (List.mem_of_getElem? found.2)
        simp only [Attribute.active, unconditional]
      rw [readAttributes, if_pos active] at decoded
      obtain ⟨value, middle, first, decoded⟩ := (ReadProgram.run_bind_eq_ok Reader.read_bytes).mp decoded
      rw [isPlace] at found
      exact .cons positive found.2 first
        (inductionHypothesis (fun other member => known other (by simp [member])) decoded)

theorem readsRow_of_fromstream (known : ∀ id ∈ ids, ¬ table.Unknown id)
    (picks : table.Picks ids attrs) {row : Val}
    (decoded : reader.decode (BinaryObject.fromstream attrs .done) = .ok (row, after)) :
    ∃ start final, row = .obj (names attrs) final ∧
      table.ReadsFields ids start reader final after := by
  obtain ⟨start, middle, constructed, decoded⟩ := (ReadProgram.run_bind_eq_ok Reader.read_bytes).mp decoded
  obtain ⟨final, last, read, decoded⟩ := (ReadProgram.run_bind_eq_ok Reader.read_bytes).mp decoded
  cases Except.ok.inj decoded
  cases isStart : construct attrs [] with
  | error error =>
      rw [isStart] at constructed
      cases constructed
  | ok object =>
      rw [isStart] at constructed
      cases Except.ok.inj constructed
      exact ⟨_, _, rfl, readsFields_of_readAttributes known picks read⟩

theorem readsRows_of_times (known : ∀ id ∈ ids, ¬ table.Unknown id)
    (picks : table.Picks ids attrs) {count : ℕ} {rows : List Val}
    (decoded : reader.decode ((BinaryObject.fromstream attrs .done).times count) =
      .ok (rows, after)) : rows.length = count ∧ table.ReadsRows ids rows reader after := by
  induction count generalizing reader rows with
  | zero =>
      cases Except.ok.inj decoded
      exact ⟨rfl, .nil _⟩
  | succ count inductionHypothesis =>
      obtain ⟨row, middle, first, decoded⟩ := (ReadProgram.run_bind_eq_ok Reader.read_bytes).mp decoded
      obtain ⟨others, last, rest, decoded⟩ := (ReadProgram.run_bind_eq_ok Reader.read_bytes).mp decoded
      cases Except.ok.inj decoded
      obtain ⟨start, final, rfl, reads⟩ := readsRow_of_fromstream known picks first
      obtain ⟨length, readsOthers⟩ := inductionHypothesis rest
      exact ⟨congrArg Nat.succ length, .cons reads readsOthers⟩

/-- Known identifiers make a selection. -/
theorem picks_of_known (known : ∀ id ∈ ids, ¬ table.Unknown id) : ∃ attrs, table.Picks ids attrs :=
  exists_picks_iff.mpr fun id member => by
    obtain ⟨isPlace, positive, below⟩ := place_of_known (known id member)
    rw [isPlace]
    exact ⟨positive, below⟩

/-! ### Rejecting unknown identifiers -/

/-- A single row raises for unknown identifiers exactly where it is harmless that 0 wraps
around. -/
theorem rejects_iff (governs : Governs ids owner) :
    table.Rejects ids owner reader ↔ table.Harmless ids fun attrs =>
      ∃ error, reader.decode (BinaryObject.fromstream attrs .done) = .error error := by
  have follows : (∀ id ∈ ids, ¬ table.Unknown id) → ∀ row after,
      reader.decode (VarFields.fromstream table owner) = .ok (row, after) →
        table.ReadsRows ids [row] reader after := by
    intro known row after decoded
    obtain ⟨attrs, picks⟩ := picks_of_known known
    rw [fromstream_picked governs picks] at decoded
    obtain ⟨start, final, rfl, reads⟩ := readsRow_of_fromstream known picks decoded
    exact .cons reads (.nil _)
  rw [Rejects, and_iff_left follows]
  apply unknown_imp_iff_harmless
  · intro refused
    obtain ⟨error, failed⟩ := fromstream_refused governs refused
    exact ⟨error, by rw [failed]; rfl⟩
  · intro attrs picks
    rw [fromstream_picked governs picks]

/-- The vector behind its size. -/
theorem vector_decode {size_cls : IntFormat} {size : ℤ} {middle : Reader}
    (sized : reader.decode size_cls.fromstream = .ok (size, middle)) :
    reader.decode ((Wire.VarFieldsVector size_cls table).fromstream owner) =
      (middle.decode ((VarFields.fromstream table owner).times size.toNat)).map
        fun result => (.list result.1, result.2) := by
  have isRun : size_cls.fromstream.run Reader.read_bytes reader = .ok (size, middle) := sized
  show (size_cls.fromstream >>= fun size => _).run Reader.read_bytes reader = _
  rw [ReadProgram.run_bind, isRun]
  show ((VarFields.fromstream table owner).times size.toNat >>= fun rows => _).run
    Reader.read_bytes middle = _
  rw [ReadProgram.run_bind, Reader.decode]
  cases ((VarFields.fromstream table owner).times size.toNat).run Reader.read_bytes middle with
  | error error => rfl
  | ok result => rfl

theorem map_error_iff {α β ε : Type} {result : Except ε α} {change : α → β} :
    (∃ error, result.map change = .error error) ↔ ∃ error, result = .error error := by
  cases result with
  | error error => exact iff_of_true ⟨error, rfl⟩ ⟨error, rfl⟩
  | ok value => exact iff_of_false nofun nofun

theorem vectorRejects_iff {size_cls : IntFormat} (governs : Governs ids owner) :
    table.VectorRejects size_cls ids owner reader ↔ table.Harmless ids fun attrs =>
      ∀ size middle, reader.decode size_cls.fromstream = .ok (size, middle) → 0 < size →
        ∃ error, middle.decode ((BinaryObject.fromstream attrs .done).times size.toNat) =
          .error error := by
  have follows : (∀ id ∈ ids, ¬ table.Unknown id) → ∀ data after,
      reader.decode ((Wire.VarFieldsVector size_cls table).fromstream owner) =
          .ok (data, after) →
        ∃ size middle rows, reader.decode size_cls.fromstream = .ok (size, middle) ∧
          data = .list rows ∧ rows.length = size.toNat ∧
            table.ReadsRows ids rows middle after := by
    intro known data after decoded
    obtain ⟨attrs, picks⟩ := picks_of_known known
    obtain ⟨size, middle, sized, decoded⟩ :=
      (ReadProgram.run_bind_eq_ok Reader.read_bytes).mp decoded
    obtain ⟨rows, last, read, decoded⟩ :=
      (ReadProgram.run_bind_eq_ok Reader.read_bytes).mp decoded
    cases Except.ok.inj decoded
    rw [fromstream_picked governs picks] at read
    exact ⟨size, middle, rows, sized, rfl, readsRows_of_times known picks read⟩
  rw [VectorRejects, and_iff_left follows]
  apply unknown_imp_iff_harmless
  · intro refused size middle sized positive
    obtain ⟨error, failed⟩ := fromstream_refused governs refused
    obtain ⟨count, isCount⟩ := Nat.exists_eq_succ_of_ne_zero (by omega : size.toNat ≠ 0)
    rw [vector_decode sized, map_error_iff, isCount, ReadProgram.times, failed]
    exact ⟨error, rfl⟩
  · intro attrs picks
    refine forall_congr' fun size => forall_congr' fun middle => forall_congr' fun sized =>
      imp_congr_right fun _ => ?_
    rw [vector_decode sized, map_error_iff, fromstream_picked governs picks]

/-- Alone and inside a vector, unknown identifiers are rejected exactly where it is
harmless that 0 wraps around. -/
theorem unknown_rejected_iff (table : FieldTable) (size_cls : IntFormat) {ids : List UInt8}
    {owner : Obj} (governs : Governs ids owner) (reader : Reader) :
    (table.Rejects ids owner reader ↔ table.Harmless ids fun attrs =>
      ∃ error, reader.decode (BinaryObject.fromstream attrs .done) = .error error) ∧
    (table.VectorRejects size_cls ids owner reader ↔ table.Harmless ids fun attrs =>
      ∀ size middle, reader.decode size_cls.fromstream = .ok (size, middle) → 0 < size →
        ∃ error, middle.decode ((BinaryObject.fromstream attrs .done).times size.toNat) =
          .error error) :=
  ⟨rejects_iff governs, vectorRejects_iff governs⟩

/-- The prices of a response 5503. -/
theorem price_field_rejected_iff :
    (Response_5503.all_fields_info.Rejects [3] [("fields", .list [.int 3])] (.ofBytes []) ↔
      Response_5503.all_fields_info.Harmless [3] fun attrs =>
        ∃ error, (Reader.ofBytes []).decode (BinaryObject.fromstream attrs .done) =
          .error error) ∧
    (Response_5503.all_fields_info.VectorRejects UShort.format [3] [("fields", .list [.int 3])]
        (.ofBytes []) ↔
      Response_5503.all_fields_info.Harmless [3] fun attrs =>
        ∀ size middle, (Reader.ofBytes []).decode UShort.format.fromstream = .ok (size, middle) →
          0 < size → ∃ error,
            middle.decode ((BinaryObject.fromstream attrs .done).times size.toNat) =
              .error error) :=
  unknown_rejected_iff Response_5503.all_fields_info UShort.format
    (show Governs [3] [("fields", .list [.int 3])] from rfl) (.ofBytes [])

/-- The identifier 0 in a response 5503: in its one row, one byte is decoded as the last
field. -/
theorem zero_not_rejected :
    ¬ Response_5503.all_fields_info.VectorRejects UShort.format [0]
      [("fields", .list [.int 0])] (.ofBytes [1, 0, 7]) := by
  rintro ⟨rejected, -⟩
  have sized : (Reader.ofBytes [1, 0, 7]).decode UShort.format.fromstream =
      .ok (1, ⟨[1, 0, 7], 2⟩) := rfl
  obtain ⟨error, failed⟩ := rejected ⟨0, by simp, .inl rfl⟩ 1 _ sized (by decide)
  have decoded : ((Reader.ofBytes [1, 0, 7]).decode
      ((Wire.VarFieldsVector UShort.format Response_5503.all_fields_info).fromstream
        [("fields", .list [.int 0])])).isOk = true := by decide +kernel
  rw [failed] at decoded
  cases decoded

end FieldTable

end StdPrograms.Ouou

import StdPrograms.Ouou.Message.FieldIds
import StdPrograms.Ouou.Message.PriceOrder

/-!
Contract: the markets of the prices in the rows of 5501.

Owns rows as one cell of bytes for each identifier, what decoding such a row in any order
of the identifiers makes of it, and when all prices get the market of their row.

A price takes its market while its row is decoded. Before the `stock_id` is there, its
default is, and the market of that is empty.
-/

namespace StdPrograms.Ouou

open StdPrograms.Foundation BinaryObject

namespace FieldTable

/-! ### Rows as cells -/

/-- The bytes of one field: its type takes all of them, whatever the row holds so far. -/
def IsCell (attr : Attribute) (cell : Bytes) : Prop :=
  ∀ owner, ∃ value, (attr.type.fromstream owner).consume cell = .returned value []

/-- What the type makes of its cell. -/
def cellValue (attr : Attribute) (owner : Obj) (cell : Bytes) : Val :=
  match (attr.type.fromstream owner).consume cell with
  | .returned value _ => value
  | _ => .none

theorem IsCell.consume {attr : Attribute} {cell : Bytes} (isCell : IsCell attr cell) (owner : Obj)
    (rest : Bytes) : (attr.type.fromstream owner).consume (cell ++ rest) =
      .returned (cellValue attr owner cell) rest := by
  obtain ⟨value, returned⟩ := isCell owner
  rw [cellValue, returned]
  exact ReadProgram.consume_append returned rest

variable (table : FieldTable)

/-- One cell for each of the identifiers. -/
def IsRow (ids : List UInt8) (cells : UInt8 → Bytes) : Prop :=
  ∀ id ∈ ids, ∀ attr, table.fields[id.toNat - 1]? = some attr → IsCell attr (cells id)

/-- The row that the cells make, in the order of the identifiers. -/
def readCells (cells : UInt8 → Bytes) : List UInt8 → Obj → Obj
  | [], self => self
  | id :: ids, self =>
      match table.fields[id.toNat - 1]? with
      | some attr => readCells cells ids (self.set attr.name (cellValue attr self (cells id)))
      | none => readCells cells ids self

variable {table} {cells : UInt8 → Bytes} {ids : List UInt8} {attrs : List Attribute}

theorem readCells_append (front back : List UInt8) (self : Obj) :
    table.readCells cells (front ++ back) self =
      table.readCells cells back (table.readCells cells front self) := by
  induction front generalizing self with
  | nil => rfl
  | cons id front inductionHypothesis =>
      rw [List.cons_append, readCells, readCells]
      split
      · exact inductionHypothesis _
      · exact inductionHypothesis _

/-- Names that the identifiers do not select stay as they are. -/
theorem readCells_other {name : String} (self : Obj)
    (unselected : ∀ id ∈ ids, ∀ attr, table.fields[id.toNat - 1]? = some attr →
      attr.name ≠ name) : (table.readCells cells ids self).get name = self.get name := by
  induction ids generalizing self with
  | nil => rfl
  | cons id ids inductionHypothesis =>
      have rest (self : Obj) := inductionHypothesis self fun other member =>
        unselected other (by simp [member])
      rw [readCells]
      split
      next attr found =>
        rw [rest, Obj.get_set_other _ _ (Ne.symm (unselected id (by simp) attr found))]
      next => exact rest self

/-- Decoding follows the cells. -/
theorem readAttributes_cells (known : ∀ id ∈ ids, ¬ table.Unknown id)
    (picks : table.Picks ids attrs) (isRow : table.IsRow ids cells) (self : Obj) (rest : Bytes) :
    (readAttributes attrs self).consume (ids.flatMap cells ++ rest) =
      .returned (table.readCells cells ids self) rest := by
  induction picks generalizing self with
  | nil => rfl
  | @cons id attr ids attrs found picks inductionHypothesis =>
      obtain ⟨isPlace, positive, -⟩ := place_of_known (known id (by simp))
      rw [isPlace] at found
      have active : attr.active self = true := by
        have unconditional := table.unconditional attr (List.mem_of_getElem? found.2)
        simp only [Attribute.active, unconditional]
      have cell := (isRow id (by simp) attr found.2).consume self (ids.flatMap cells ++ rest)
      rw [readAttributes, if_pos active, List.flatMap_cons, List.append_assoc,
        ReadProgram.consume_bind_of_returned cell, readCells, found.2]
      exact inductionHypothesis (fun other member => known other (by simp [member]))
        (fun other member => isRow other (by simp [member])) _

/-- Known identifiers of fields of one name are one identifier. -/
theorem id_of_name {id other : UInt8} (known : ¬ table.Unknown id) (otherKnown : ¬ table.Unknown other)
    {attr otherAttr : Attribute} (found : table.fields[id.toNat - 1]? = some attr)
    (otherFound : table.fields[other.toNat - 1]? = some otherAttr)
    (sameName : attr.name = otherAttr.name) : id = other := by
  have samePlace := place_of_name found otherFound sameName
  have positive := (place_of_known known).2.1
  have otherPositive := (place_of_known otherKnown).2.1
  exact UInt8.toNat_inj.mp (by omega)

theorem Picks.matched (known : ∀ id ∈ ids, ¬ table.Unknown id) (picks : table.Picks ids attrs) :
    List.Forall₂ (fun id attr => table.fields[id.toNat - 1]? = some attr) ids attrs := by
  induction picks with
  | nil => exact .nil
  | cons found _ inductionHypothesis =>
      rw [(place_of_known (known _ (by simp))).1] at found
      exact .cons found.2 (inductionHypothesis fun other member => known other (by simp [member]))

/-- The attributes of a row are the fields that its identifiers select. -/
theorem Picks.mem_iff (known : ∀ id ∈ ids, ¬ table.Unknown id) (picks : table.Picks ids attrs)
    {attr : Attribute} :
    attr ∈ attrs ↔ ∃ id ∈ ids, table.fields[id.toNat - 1]? = some attr := by
  have matched := picks.matched known
  clear picks known
  induction matched with
  | nil => simp
  | cons found _ inductionHypothesis =>
      rw [List.mem_cons, List.exists_mem_cons_iff, found, Option.some.injEq, eq_comm]
      exact or_congr Iff.rfl inductionHypothesis

theorem Picks.names_nodup (known : ∀ id ∈ ids, ¬ table.Unknown id) (picks : table.Picks ids attrs)
    (distinct : ids.Nodup) : (names attrs).Nodup := by
  have matched : List.Forall₂ (fun id attr => table.fields[id - 1]? = some attr)
      (ids.map UInt8.toNat) attrs := List.forall₂_map_left_iff.mpr (picks.matched known)
  refine FieldTable.names_nodup matched (fun id member => ?_)
    (distinct.map fun _ _ same => UInt8.toNat_inj.mp same)
  obtain ⟨id, idMember, rfl⟩ := List.mem_map.mp member
  exact (place_of_known (known id idMember)).2.1

/-! ### Defaults -/

theorem construct_keeps {self final : Obj} {name : String} {value : Val}
    (constructed : construct attrs self = .ok final) (holds : self.get name = some value) :
    final.get name = some value := by
  induction attrs generalizing self with
  | nil =>
      cases Except.ok.inj constructed
      exact holds
  | cons attr rest inductionHypothesis =>
      rw [construct] at constructed
      split at constructed
      next => exact inductionHypothesis constructed holds
      next absent =>
        obtain ⟨default, -, constructed⟩ := exceptBind_eq_ok.mp constructed
        have different : name ≠ attr.name := by
          rintro rfl
          exact absent (by simp [Obj.has, holds])
        refine inductionHypothesis constructed ?_
        rw [Obj.get_set_other _ _ different, holds]

theorem construct_other {self final : Obj} {name : String}
    (constructed : construct attrs self = .ok final) (other : name ∉ names attrs) :
    final.get name = self.get name := by
  induction attrs generalizing self with
  | nil =>
      cases Except.ok.inj constructed
      rfl
  | cons attr rest inductionHypothesis =>
      rw [names, List.map_cons, List.mem_cons, not_or] at other
      rw [construct] at constructed
      split at constructed
      next => exact inductionHypothesis constructed other.2
      next =>
        obtain ⟨default, -, constructed⟩ := exceptBind_eq_ok.mp constructed
        rw [inductionHypothesis constructed other.2, Obj.get_set_other _ _ other.1]

/-- A new object holds the default of an attribute. -/
theorem construct_default {self final : Obj} {attr : Attribute} {default : Val}
    (distinct : (names attrs).Nodup) (constructed : construct attrs self = .ok final)
    (member : attr ∈ attrs) (unconditional : attr.condition = none)
    (isDefault : ∀ owner, attr.type.default owner = .ok default)
    (absent : self.get attr.name = none) : final.get attr.name = some default := by
  induction attrs generalizing self with
  | nil => cases member
  | cons head rest inductionHypothesis =>
      obtain ⟨fresh, distinct⟩ := List.nodup_cons.mp distinct
      rw [construct] at constructed
      rcases List.mem_cons.mp member with rfl | member
      · rw [if_neg (by simp [unconditional, Obj.has, absent]), isDefault] at constructed
        exact construct_keeps constructed (Obj.get_set_self _ _ _)
      · have different : attr.name ≠ head.name := by
          intro same
          exact fresh (same ▸ List.mem_map_of_mem member)
        split at constructed
        next => exact inductionHypothesis distinct constructed member absent
        next =>
          obtain ⟨value, -, constructed⟩ := exceptBind_eq_ok.mp constructed
          refine inductionHypothesis distinct constructed member ?_
          rw [Obj.get_set_other _ _ different, absent]

/-! ### Decoding rows -/

/-- A row as it is on the wire, in the order of the identifiers. -/
def rowBytes (ids : List UInt8) (cells : UInt8 → Bytes) : Bytes := ids.flatMap cells

section Rows

variable {owner start : Obj} (governs : Governs ids owner) (known : ∀ id ∈ ids, ¬ table.Unknown id)
  (picks : table.Picks ids attrs) (constructed : construct attrs [] = .ok start)
include governs known picks constructed

theorem consume_row (isRow : table.IsRow ids cells) (rest : Bytes) :
    (VarFields.fromstream table owner).consume (rowBytes ids cells ++ rest) =
      .returned (.obj (names attrs) (table.readCells cells ids start)) rest := by
  rw [fromstream_picked governs picks]
  have row := fromstream_consume attrs .done [] rest constructed
    (readAttributes_cells known picks isRow start) rfl
  rwa [List.append_nil] at row

theorem consume_rows (rows : List (UInt8 → Bytes)) (areRows : ∀ cells ∈ rows, table.IsRow ids cells)
    (rest : Bytes) :
    ((VarFields.fromstream table owner).times rows.length).consume
        (rows.flatMap (rowBytes ids) ++ rest) =
      .returned (rows.map fun cells => .obj (names attrs) (table.readCells cells ids start))
        rest := by
  induction rows with
  | nil => rfl
  | cons cells rows inductionHypothesis =>
      have first := consume_row governs known picks constructed (areRows cells (by simp))
        (rows.flatMap (rowBytes ids) ++ rest)
      have others := inductionHypothesis fun other member => areRows other (by simp [member])
      rw [List.length_cons, ReadProgram.times, List.flatMap_cons, List.append_assoc,
        ReadProgram.consume_bind_of_returned first, ReadProgram.consume_bind_of_returned others]
      rfl

end Rows

/-- Rows behind their number. -/
theorem consume_vector {size_cls : IntFormat} {owner : Obj} {count : ℕ} {head bytes rest : Bytes}
    {results : List Val} (packed : size_cls.pack count = .ok head)
    (consumed : ((VarFields.fromstream table owner).times count).consume (bytes ++ rest) =
      .returned results rest) :
    ((Wire.VarFieldsVector size_cls table).fromstream owner).consume (head ++ (bytes ++ rest)) =
      .returned (.list results) rest := by
  show (size_cls.fromstream >>= fun size => _).consume _ = _
  rw [ReadProgram.consume_bind_of_returned (IntFormat.fromstream_packed packed (bytes ++ rest)),
    Int.toNat_natCast, ReadProgram.consume_bind_of_returned consumed]
  rfl

end FieldTable

/-! ### Prices -/

namespace Response_5501

open FieldTable

/-- The prices with a market, by their identifiers. -/
def prices : List (UInt8 × String) :=
  [(8, "close_price"), (9, "open_price"), (10, "highest_price"), (11, "lowest_price"),
    (12, "latest_price")]

/-- The number that a price's cell holds. -/
def priceNumber (cell : Bytes) : ℤ :=
  match UInt.format.fromstream.consume cell with
  | .returned value _ => value
  | _ => 0

/-- The text that the cell of `stock_id` holds. -/
def stockId (host : Host) (cell : Bytes) : Str :=
  match ((Wire.String host).fromstream []).consume cell with
  | .returned (.str text) _ => text
  | _ => []

/-- The market of a row. -/
def rowMarket (host : Host) (cells : UInt8 → Bytes) : Str :=
  (stockId host (cells 2)).takeWhile (· ≠ '|')

variable {host : Host} {id : UInt8} {name : String}

theorem price_field (isPrice : (id, name) ∈ prices) :
    (all_fields_info host).fields[id.toNat - 1]? =
      some { name := name, type := Wire.MarketPrice get_market UInt.format } := by
  simp only [prices, List.mem_cons, Prod.mk.injEq, List.not_mem_nil, or_false] at isPrice
  rcases isPrice with ⟨rfl, rfl⟩ | ⟨rfl, rfl⟩ | ⟨rfl, rfl⟩ | ⟨rfl, rfl⟩ | ⟨rfl, rfl⟩ <;> rfl

theorem stock_id_field :
    (all_fields_info host).fields[(2 : UInt8).toNat - 1]? =
      some { name := "stock_id", type := Wire.String host } := rfl

theorem known_stock_id : ¬ (all_fields_info host).Unknown 2 := by
  have size : (all_fields_info host).fields.length = 51 := rfl
  rw [Unknown, size]
  decide

theorem known_price (isPrice : (id, name) ∈ prices) :
    ¬ (all_fields_info host).Unknown id := by
  have size : (all_fields_info host).fields.length = 51 := rfl
  simp only [prices, List.mem_cons, Prod.mk.injEq, List.not_mem_nil, or_false] at isPrice
  rw [Unknown, size]
  rcases isPrice with ⟨rfl, -⟩ | ⟨rfl, -⟩ | ⟨rfl, -⟩ | ⟨rfl, -⟩ | ⟨rfl, -⟩ <;> decide

theorem price_other (isPrice : (id, name) ∈ prices) : id ≠ 2 ∧ name ≠ "stock_id" := by
  simp only [prices, List.mem_cons, Prod.mk.injEq, List.not_mem_nil, or_false] at isPrice
  rcases isPrice with ⟨rfl, rfl⟩ | ⟨rfl, rfl⟩ | ⟨rfl, rfl⟩ | ⟨rfl, rfl⟩ | ⟨rfl, rfl⟩ <;> decide

theorem cellValue_price {cell : Bytes} {owner : Obj}
    (isCell : IsCell { name := name, type := Wire.MarketPrice get_market UInt.format } cell) :
    cellValue { name := name, type := Wire.MarketPrice get_market UInt.format } owner cell =
      .price (priceNumber cell) (get_market owner) := by
  obtain ⟨value, returned⟩ := isCell owner
  rw [cellValue, returned]
  change (UInt.format.fromstream >>= _).consume cell = _ at returned
  rw [ReadProgram.consume_bind] at returned
  rw [priceNumber]
  split at returned
  next number rest isNumber =>
    cases returned
    rw [isNumber]
  next => cases returned
  next => cases returned

/-- A decoded string is a text. -/
theorem text_of_encodedString {codec : TextCodec} {owner : Obj} {bytes rest : Bytes} {value : Val}
    (returned : ((Wire.EncodedString codec).fromstream owner).consume bytes =
      .returned value rest) : ∃ text, value = .str text := by
  change (Short.format.fromstream >>= fun n => readText codec n).consume bytes = _ at returned
  rw [ReadProgram.consume_bind] at returned
  split at returned
  next size behind isSize =>
    rw [readText, ReadProgram.consume] at returned
    split at returned
    next =>
      cases decoded : decodeText codec (behind.take size.toNat) with
      | error error =>
          rw [decoded] at returned
          cases returned
      | ok text =>
          rw [decoded] at returned
          cases returned
          exact ⟨text, rfl⟩
    next => cases returned
  next => cases returned
  next => cases returned

theorem cellValue_stock_id {cell : Bytes} {owner : Obj}
    (isCell : IsCell { name := "stock_id", type := Wire.String host } cell) :
    cellValue { name := "stock_id", type := Wire.String host } owner cell =
      .str (stockId host cell) := by
  obtain ⟨value, returned⟩ := isCell owner
  obtain ⟨text, rfl⟩ := text_of_encodedString returned
  have sameRead : ((Wire.String host).fromstream []).consume cell = .returned (.str text) [] :=
    returned
  rw [cellValue, returned, stockId, sameRead]

theorem get_market_set {self : Obj} {other : String} (value : Val) (different : other ≠ "stock_id") :
    get_market (self.set other value) = get_market self := by
  rw [get_market, Obj.get_set_other _ _ (Ne.symm different), get_market]

section Row

variable {ids : List UInt8} {cells : UInt8 → Bytes}

/-- Without a `stock_id` on the way, prices get the market of the object at its start. -/
theorem readCells_price (isPrice : (id, name) ∈ prices) (distinct : ids.Nodup)
    (known : ∀ id ∈ ids, ¬ (all_fields_info host).Unknown id)
    (isRow : (all_fields_info host).IsRow ids cells) (noStock : 2 ∉ ids) (member : id ∈ ids)
    (self : Obj) :
    ((all_fields_info host).readCells cells ids self).get name =
      some (.price (priceNumber (cells id)) (get_market self)) := by
  induction ids generalizing self with
  | nil => cases member
  | cons head ids inductionHypothesis =>
      obtain ⟨fresh, distinct⟩ := List.nodup_cons.mp distinct
      rw [List.mem_cons, not_or] at noStock
      have headKnown := known head (by simp)
      have below := (place_of_known headKnown).2
      have found : (all_fields_info host).fields[head.toNat - 1]? =
          some (all_fields_info host).fields[head.toNat - 1] :=
        List.getElem?_eq_getElem (by omega)
      rw [readCells, found]
      dsimp only
      rcases List.mem_cons.mp member with rfl | member
      · have isField := Option.some.inj (found.symm.trans (price_field isPrice))
        have isCell := isRow id (by simp) _ (price_field isPrice)
        rw [isField, readCells_other, Obj.get_set_self, cellValue_price isCell]
        intro other otherMember attr otherFound sameName
        exact fresh (id_of_name (known other (by simp [otherMember])) headKnown otherFound
          (price_field isPrice) sameName ▸ otherMember)
      · rw [inductionHypothesis distinct (fun other member => known other (by simp [member]))
          (fun other member => isRow other (by simp [member])) noStock.2 member]
        rw [get_market_set]
        intro sameName
        exact noStock.1 (id_of_name known_stock_id headKnown stock_id_field found sameName.symm)

/-- The identifiers in front of `stock_id`. -/
def early (ids : List UInt8) : List UInt8 := ids.takeWhile (· ≠ 2)

theorem early_split (contains : 2 ∈ ids) (distinct : ids.Nodup) :
    ∃ late, ids = early ids ++ 2 :: late ∧ 2 ∉ early ids ∧ 2 ∉ late := by
  obtain ⟨before, late, rfl⟩ := List.append_of_mem contains
  rw [List.nodup_append] at distinct
  obtain ⟨-, lateDistinct, apart⟩ := distinct
  have absent : 2 ∉ before := fun member => apart 2 member 2 (by simp) rfl
  have notStock : ∀ id ∈ before, decide (id ≠ 2) = true := by
    intro id member
    rw [decide_eq_true_eq]
    rintro rfl
    exact absent member
  have isEarly : early (before ++ 2 :: late) = before := by
    rw [early, List.takeWhile_append_of_pos notStock]
    simp
  exact ⟨late, by rw [isEarly], by rwa [isEarly], (List.nodup_cons.mp lateDistinct).1⟩

/-- A row is read up to `stock_id`, which is set, and on from there. -/
theorem readCells_split {cells : UInt8 → Bytes} (contains : 2 ∈ ids)
    (isRow : (all_fields_info host).IsRow ids cells) {front late : List UInt8}
    (split : ids = front ++ 2 :: late) (self : Obj) :
    (all_fields_info host).readCells cells ids self =
      (all_fields_info host).readCells cells late
        (((all_fields_info host).readCells cells front self).set "stock_id"
          (.str (stockId host (cells 2)))) := by
  have isCell := isRow 2 contains _ stock_id_field
  rw [split, readCells_append, readCells, stock_id_field]
  dsimp only
  rw [cellValue_stock_id isCell]

variable {attrs : List Attribute} {start : Obj} (distinct : ids.Nodup) (contains : 2 ∈ ids)
  (known : ∀ id ∈ ids, ¬ (all_fields_info host).Unknown id)
  (picks : (all_fields_info host).Picks ids attrs)
  (constructed : construct attrs [] = .ok start)
  (isRow : (all_fields_info host).IsRow ids cells)

include distinct contains known

include isRow in
theorem row_stock_id (start : Obj) :
    ((all_fields_info host).readCells cells ids start).get "stock_id" =
      some (.str (stockId host (cells 2))) := by
  obtain ⟨late, split, -, absent⟩ := early_split contains distinct
  rw [readCells_split contains isRow split, readCells_other, Obj.get_set_self]
  intro other member attr found sameName
  have otherKnown := known other (by rw [split]; simp [member])
  exact absent (id_of_name otherKnown known_stock_id found stock_id_field sameName ▸ member)

include picks constructed

/-- A new row has no market. -/
theorem get_market_start : get_market start = [] := by
  have member : { name := "stock_id", type := Wire.String host } ∈ attrs :=
    (picks.mem_iff known).mpr ⟨2, contains, stock_id_field⟩
  have holds := construct_default (picks.names_nodup known distinct) constructed member rfl
    (fun _ => rfl) rfl
  rw [get_market, holds]
  rfl

include isRow

/-- A price in front of `stock_id` has no market, and one behind it that of the row. -/
theorem row_price (isPrice : (id, name) ∈ prices) :
    ((all_fields_info host).readCells cells ids start).get name =
      if id ∈ ids then
        some (.price (priceNumber (cells id)) (if id ∈ early ids then [] else rowMarket host cells))
      else none := by
  have isField := @price_field host id name isPrice
  have idKnown := @known_price host id name isPrice
  obtain ⟨notStock, otherName⟩ := price_other isPrice
  -- other identifiers leave the price alone
  have untouched (others : List UInt8) (inside : others ⊆ ids) (absent : id ∉ others) (self : Obj) :
      ((all_fields_info host).readCells cells others self).get name = self.get name := by
    refine readCells_other self fun other member attr found sameName => ?_
    exact absent (id_of_name (known other (inside member)) idKnown found isField sameName ▸ member)
  by_cases member : id ∈ ids
  · obtain ⟨late, split, earlyAbsent, lateAbsent⟩ := early_split contains distinct
    have earlyInside : early ids ⊆ ids := List.takeWhile_subset _
    have lateInside : late ⊆ ids := by
      rw [split]
      exact fun other isLate => by simp [isLate]
    have parts := split ▸ distinct
    rw [List.nodup_append, List.nodup_cons] at parts
    obtain ⟨earlyDistinct, ⟨-, lateDistinct⟩, apart⟩ := parts
    rw [if_pos member, readCells_split contains isRow split]
    by_cases isEarly : id ∈ early ids
    · have notLate : id ∉ late := fun isLate => apart id isEarly id (by simp [isLate]) rfl
      rw [if_pos isEarly, untouched late lateInside notLate, Obj.get_set_other _ _ otherName,
        readCells_price isPrice earlyDistinct (fun other isMember => known other (earlyInside isMember))
          (fun other isMember => isRow other (earlyInside isMember)) earlyAbsent isEarly,
        get_market_start distinct contains known picks constructed]
    · have isLate : id ∈ late := by
        rw [split] at member
        simpa [isEarly, notStock] using member
      rw [if_neg isEarly,
        readCells_price isPrice lateDistinct (fun other isMember => known other (lateInside isMember))
          (fun other isMember => isRow other (lateInside isMember)) lateAbsent isLate,
        get_market, Obj.get_set_self]
      rfl
  · rw [if_neg member, untouched ids (List.Subset.refl _) member start, construct_other constructed]
    · rfl
    · intro named
      obtain ⟨attr, isAttr, sameName⟩ := List.mem_map.mp named
      obtain ⟨other, otherMember, found⟩ := (picks.mem_iff known).mp isAttr
      exact member (id_of_name (known other otherMember) idKnown found isField sameName ▸ otherMember)

end Row

/-! ### Two orders of the identifiers -/

/-- A decoded price, as the operators see it. -/
def priceAt (rows : List Val) (row : ℕ) (name : String) : Option MarketPrice :=
  match rows[row]? with
  | some (.obj _ attributes) =>
      match Obj.get attributes name with
      | some (.price value market) => some ⟨value, market⟩
      | _ => none
  | _ => none

/-- The market of the `stock_id` in a row. -/
def marketAt (rows : List Val) (row : ℕ) : Option Str :=
  match rows[row]? with
  | some (.obj _ attributes) => some (get_market attributes)
  | _ => none

/-- The answers of `==`, `<` and `>`. -/
def answers (left right : Option MarketPrice) :
    Option (Option Bool × Option Bool × Option Bool) := do
  let x ← left
  let y ← right
  return (x.__eq__ (.same y), x.__lt__ (.same y), x.__gt__ (.same y))

/-- Every price has the market of its row. -/
def MarketsKept (rows : List Val) : Prop :=
  ∀ row, ∀ entry ∈ prices, ∀ price, priceAt rows row entry.2 = some price →
    marketAt rows row = some price.market

/-- Prices of the one rows compare as the same prices of the other rows do. -/
def ComparesAlike (rows others : List Val) : Prop :=
  ∀ row row', ∀ x ∈ prices, ∀ y ∈ prices,
    answers (priceAt rows row x.2) (priceAt rows row' y.2) =
      answers (priceAt others row x.2) (priceAt others row' y.2)

/-- What the order of the identifiers must not change. -/
structure OrderFree (rows others : List Val) : Prop where
  kept : MarketsKept rows
  othersKept : MarketsKept others
  alike : ComparesAlike rows others

/-- The row has no market, or no price stands in front of its `stock_id`. -/
def Safe (host : Host) (ids : List UInt8) (cells : UInt8 → Bytes) : Prop :=
  rowMarket host cells = [] ∨ ∀ entry ∈ prices, entry.1 ∉ early ids

/-- What is decoded from the cell of a price. -/
def decodedPrice (host : Host) (ids : List UInt8) (cells : UInt8 → Bytes) (id : UInt8) :
    Option MarketPrice :=
  if id ∈ ids then
    some ⟨priceNumber (cells id), if id ∈ early ids then [] else rowMarket host cells⟩
  else none

/-- A row decoded in this order. -/
def IsDecoded (host : Host) (ids : List UInt8) (cells : UInt8 → Bytes) (row : Val) : Prop :=
  marketAt [row] 0 = some (rowMarket host cells) ∧
    ∀ entry ∈ prices, priceAt [row] 0 entry.2 = decodedPrice host ids cells entry.1

section Orders

variable {ids ids' : List UInt8} {rows : List (UInt8 → Bytes)} {decoded : (UInt8 → Bytes) → Val}

theorem priceAt_map (row : ℕ) (entry : UInt8 × String) (isPrice : entry ∈ prices)
    (areDecoded : ∀ cells ∈ rows, IsDecoded host ids cells (decoded cells)) :
    priceAt (rows.map decoded) row entry.2 =
      rows[row]?.bind fun cells => decodedPrice host ids cells entry.1 := by
  cases found : rows[row]? with
  | none => simp [priceAt, found]
  | some cells =>
      have isDecoded := (areDecoded cells (List.mem_of_getElem? found)).2 entry isPrice
      rw [Option.bind_some, ← isDecoded, priceAt, priceAt, List.getElem?_map, found]
      rfl

theorem marketAt_map (row : ℕ)
    (areDecoded : ∀ cells ∈ rows, IsDecoded host ids cells (decoded cells)) :
    marketAt (rows.map decoded) row = rows[row]?.map (rowMarket host) := by
  cases found : rows[row]? with
  | none => simp [marketAt, found]
  | some cells =>
      have isDecoded := (areDecoded cells (List.mem_of_getElem? found)).1
      rw [Option.map_some, ← isDecoded, marketAt, marketAt, List.getElem?_map, found]
      rfl

theorem marketsKept_iff (areDecoded : ∀ cells ∈ rows, IsDecoded host ids cells (decoded cells)) :
    MarketsKept (rows.map decoded) ↔ ∀ cells ∈ rows, Safe host ids cells := by
  constructor
  · intro kept cells member
    by_cases noMarket : rowMarket host cells = []
    · exact .inl noMarket
    · refine .inr fun entry isPrice isEarly => noMarket ?_
      obtain ⟨row, found⟩ := List.getElem?_of_mem member
      have selected : entry.1 ∈ ids := List.takeWhile_subset _ isEarly
      have atRow : priceAt (rows.map decoded) row entry.2 =
          some ⟨priceNumber (cells entry.1), []⟩ := by
        rw [priceAt_map row entry isPrice areDecoded, found, Option.bind_some, decodedPrice,
          if_pos selected, if_pos isEarly]
      have hasMarket := kept row entry isPrice _ atRow
      rw [marketAt_map row areDecoded, found] at hasMarket
      exact Option.some.inj hasMarket
  · intro safe row entry isPrice price atRow
    rw [priceAt_map row entry isPrice areDecoded] at atRow
    obtain ⟨cells, found, isPriced⟩ := Option.bind_eq_some_iff.mp atRow
    rw [marketAt_map row areDecoded, found, Option.map_some]
    rw [decodedPrice] at isPriced
    split at isPriced
    next =>
      cases Option.some.inj isPriced
      rcases safe cells (List.mem_of_getElem? found) with noMarket | notEarly
      · rw [noMarket, ite_self]
      · rw [if_neg (notEarly entry isPrice)]
    next => cases isPriced

/-- Where no market is missing, the order does not matter. -/
theorem decodedPrice_perm {cells : UInt8 → Bytes} (permuted : ids'.Perm ids)
    (safe : Safe host ids cells) (safe' : Safe host ids' cells) {entry : UInt8 × String}
    (isPrice : entry ∈ prices) :
    decodedPrice host ids cells entry.1 = decodedPrice host ids' cells entry.1 := by
  have market (order : List UInt8) (isSafe : Safe host order cells) :
      (if entry.1 ∈ early order then [] else rowMarket host cells) = rowMarket host cells := by
    rcases isSafe with noMarket | notEarly
    · rw [noMarket, ite_self]
    · rw [if_neg (notEarly entry isPrice)]
  rw [decodedPrice, decodedPrice, market ids safe, market ids' safe']
  simp only [permuted.mem_iff]

theorem orderFree_iff {decoded' : (UInt8 → Bytes) → Val} (permuted : ids'.Perm ids)
    (areDecoded : ∀ cells ∈ rows, IsDecoded host ids cells (decoded cells))
    (areDecoded' : ∀ cells ∈ rows, IsDecoded host ids' cells (decoded' cells)) :
    OrderFree (rows.map decoded) (rows.map decoded') ↔
      ∀ cells ∈ rows, Safe host ids cells ∧ Safe host ids' cells := by
  constructor
  · intro free cells member
    exact ⟨(marketsKept_iff areDecoded).mp free.kept cells member,
      (marketsKept_iff areDecoded').mp free.othersKept cells member⟩
  · intro safe
    refine ⟨(marketsKept_iff areDecoded).mpr fun cells member => (safe cells member).1,
      (marketsKept_iff areDecoded').mpr fun cells member => (safe cells member).2, ?_⟩
    have samePrice (row : ℕ) (entry : UInt8 × String) (isPrice : entry ∈ prices) :
        priceAt (rows.map decoded) row entry.2 = priceAt (rows.map decoded') row entry.2 := by
      rw [priceAt_map row entry isPrice areDecoded, priceAt_map row entry isPrice areDecoded']
      cases found : rows[row]? with
      | none => rfl
      | some cells =>
          obtain ⟨isSafe, isSafe'⟩ := safe cells (List.mem_of_getElem? found)
          exact decodedPrice_perm permuted isSafe isSafe' isPrice
    intro row row' x xPrice y yPrice
    rw [samePrice row x xPrice, samePrice row' y yPrice]

end Orders

/-! ### Rows on the wire -/

/-- Identifiers of fields of 5501, each once, `stock_id` among them. -/
structure Valid (host : Host) (ids : List UInt8) : Prop where
  distinct : ids.Nodup
  known : ∀ id ∈ ids, ¬ (all_fields_info host).Unknown id
  contains : 2 ∈ ids

variable {ids ids' : List UInt8}

theorem Valid.perm (valid : Valid host ids) (permuted : ids'.Perm ids) : Valid host ids' :=
  ⟨permuted.nodup_iff.mpr valid.distinct,
    fun id member => valid.known id (permuted.mem_iff.mp member),
    permuted.mem_iff.mpr valid.contains⟩

/-- Rows in a valid order are decoded, each on its own, and counted ones together. -/
theorem Valid.decodes (valid : Valid host ids) :
    ∃ decoded : (UInt8 → Bytes) → Val,
      (∀ cells, (all_fields_info host).IsRow ids cells →
        IsDecoded host ids cells (decoded cells)) ∧
      ∀ owner, Governs ids owner →
        (∀ cells, (all_fields_info host).IsRow ids cells → ∀ rest,
          (VarFields.fromstream (all_fields_info host) owner).consume
            (rowBytes ids cells ++ rest) = .returned (decoded cells) rest) ∧
        ∀ rows : List (UInt8 → Bytes), (∀ cells ∈ rows, (all_fields_info host).IsRow ids cells) →
          ∀ rest, ((VarFields.fromstream (all_fields_info host) owner).times rows.length).consume
            (rows.flatMap (rowBytes ids) ++ rest) = .returned (rows.map decoded) rest := by
  obtain ⟨attrs, picks⟩ := picks_of_known valid.known
  have inTable : attrs ⊆ (all_fields_info host).fields := by
    intro attr member
    obtain ⟨id, -, found⟩ := (picks.mem_iff valid.known).mp member
    exact List.mem_of_getElem? found
  obtain ⟨start, constructed⟩ := FieldTable.constructs inTable []
  refine ⟨fun cells => .obj (names attrs) ((all_fields_info host).readCells cells ids start),
    fun cells isRow => ⟨?_, fun entry isPrice => ?_⟩, fun owner governs => ⟨fun cells isRow rest =>
      consume_row governs valid.known picks constructed isRow rest, fun rows areRows rest =>
      consume_rows governs valid.known picks constructed rows areRows rest⟩⟩
  · show some (get_market _) = _
    rw [get_market, row_stock_id valid.distinct valid.contains valid.known isRow start]
    rfl
  · have price := row_price valid.distinct valid.contains valid.known picks constructed isRow isPrice
    show (match Obj.get _ entry.2 with
      | some (.price value market) => some (⟨value, market⟩ : MarketPrice)
      | _ => none) = _
    rw [price, decodedPrice]
    by_cases selected : entry.1 ∈ ids
    · rw [if_pos selected, if_pos selected]
    · rw [if_neg selected, if_neg selected]

/-- The `data` of 5501, and the rows of the responses and pushes with its fields: the market
of no price depends on the order exactly where the row has none, or both orders have
`stock_id` in front of the prices. -/
theorem orderFree_iff_safe (valid : Valid host ids) (permuted : ids'.Perm ids) {owner owner' : Obj}
    (governs : Governs ids owner) (governs' : Governs ids' owner') :
    (∀ cells, (all_fields_info host).IsRow ids cells → ∀ (back back' : Bytes) (reader reader' : Reader),
      reader.Ahead back (rowBytes ids cells) → reader'.Ahead back' (rowBytes ids' cells) →
      ∃ row row' after after',
        reader.decode ((Wire.VarFields (all_fields_info host)).fromstream owner) =
          .ok (row, after) ∧
        reader'.decode ((Wire.VarFields (all_fields_info host)).fromstream owner') =
          .ok (row', after') ∧
        (OrderFree [row] [row'] ↔ Safe host ids cells ∧ Safe host ids' cells)) ∧
    ∀ (size_cls : IntFormat) (rows : List (UInt8 → Bytes)) (head : Bytes),
      (∀ cells ∈ rows, (all_fields_info host).IsRow ids cells) →
      size_cls.pack rows.length = .ok head → ∀ (back back' : Bytes) (reader reader' : Reader),
      reader.Ahead back (head ++ rows.flatMap (rowBytes ids)) →
      reader'.Ahead back' (head ++ rows.flatMap (rowBytes ids')) →
      ∃ results results' after after',
        reader.decode ((Wire.VarFieldsVector size_cls (all_fields_info host)).fromstream owner) =
          .ok (.list results, after) ∧
        reader'.decode ((Wire.VarFieldsVector size_cls (all_fields_info host)).fromstream owner') =
          .ok (.list results', after') ∧
        (OrderFree results results' ↔ ∀ cells ∈ rows, Safe host ids cells ∧ Safe host ids' cells) := by
  obtain ⟨decoded, areDecoded, reads⟩ := valid.decodes
  obtain ⟨decoded', areDecoded', reads'⟩ := (valid.perm permuted).decodes
  have otherRow {cells : UInt8 → Bytes} (isRow : (all_fields_info host).IsRow ids cells) :
      (all_fields_info host).IsRow ids' cells :=
    fun id member => isRow id (permuted.mem_iff.mp member)
  constructor
  · intro cells isRow back back' reader reader' ahead ahead'
    have first := (reads owner governs).1 cells isRow []
    have second := (reads' owner' governs').1 cells (otherRow isRow) []
    rw [List.append_nil] at first second
    obtain ⟨after, isDecoded, -⟩ := reader.decode_of_consume ahead first
    obtain ⟨after', isDecoded', -⟩ := reader'.decode_of_consume ahead' second
    refine ⟨_, _, after, after', isDecoded, isDecoded', ?_⟩
    have exact := @orderFree_iff host ids ids' [cells] decoded decoded' permuted
      (List.forall_mem_singleton.mpr (areDecoded cells isRow))
      (List.forall_mem_singleton.mpr (areDecoded' cells (otherRow isRow)))
    rwa [List.forall_mem_singleton] at exact
  · intro size_cls rows head areRows packed back back' reader reader' ahead ahead'
    have otherRows : ∀ cells ∈ rows, (all_fields_info host).IsRow ids' cells :=
      fun cells member => otherRow (areRows cells member)
    have first := consume_vector packed ((reads owner governs).2 rows areRows [])
    have second := consume_vector packed ((reads' owner' governs').2 rows otherRows [])
    rw [List.append_nil] at first second
    obtain ⟨after, isDecoded, -⟩ := reader.decode_of_consume ahead first
    obtain ⟨after', isDecoded', -⟩ := reader'.decode_of_consume ahead' second
    exact ⟨_, _, after, after', isDecoded, isDecoded', orderFree_iff permuted
      (fun cells member => areDecoded cells (areRows cells member))
      (fun cells member => areDecoded' cells (otherRows cells member))⟩

/-- A row of the Hong Kong market, with a `close_price` of 1. -/
def hongKongRow : UInt8 → Bytes
  | 2 => [8, 0, 72, 75, 124, 48, 48, 55, 48, 48]
  | 8 => [1, 0, 0, 0]
  | _ => []

/-- `stock_id` and a price behind it. -/
theorem valid_stock_price : Valid asciiHost [2, 8] := by
  refine ⟨by decide, fun id member => ?_, by decide⟩
  simp only [List.mem_cons, List.not_mem_nil, or_false] at member
  rcases member with rfl | rfl
  · exact known_stock_id
  · exact @known_price _ 8 "close_price" (by decide)

theorem isRow_hongKong : (all_fields_info asciiHost).IsRow [2, 8] hongKongRow := by
  intro id member attr found
  simp only [List.mem_cons, List.not_mem_nil, or_false] at member
  rcases member with rfl | rfl
  · cases found
    exact fun owner => ⟨.str ['H', 'K', '|', '0', '0', '7', '0', '0'], rfl⟩
  · cases found
    exact fun owner => ⟨.price 1 (get_market owner), rfl⟩

/-- The price behind `stock_id`, and in front of it. -/
theorem price_moved_orderFree_iff :
    ∃ row row' after after',
      (Reader.ofBytes (rowBytes [2, 8] hongKongRow)).decode
        ((Wire.VarFields (all_fields_info asciiHost)).fromstream
          [("fields", .list [.int 2, .int 8])]) = .ok (row, after) ∧
      (Reader.ofBytes (rowBytes [8, 2] hongKongRow)).decode
        ((Wire.VarFields (all_fields_info asciiHost)).fromstream
          [("fields", .list [.int 8, .int 2])]) = .ok (row', after') ∧
      (OrderFree [row] [row'] ↔
        Safe asciiHost [2, 8] hongKongRow ∧ Safe asciiHost [8, 2] hongKongRow) := by
  have governs : Governs [2, 8] [("fields", .list [.int 2, .int 8])] := rfl
  have governs' : Governs [8, 2] [("fields", .list [.int 8, .int 2])] := rfl
  have ahead : (Reader.ofBytes (rowBytes [2, 8] hongKongRow)).Ahead []
      (rowBytes [2, 8] hongKongRow) := ⟨[], rfl, rfl⟩
  have ahead' : (Reader.ofBytes (rowBytes [8, 2] hongKongRow)).Ahead []
      (rowBytes [8, 2] hongKongRow) := ⟨[], rfl, rfl⟩
  exact (orderFree_iff_safe valid_stock_price (List.Perm.swap 2 8 []) governs governs').1
    hongKongRow isRow_hongKong [] [] _ _ ahead ahead'

/-- In front of `stock_id`, the price has no market, and it does not compare. -/
theorem price_first_not_kept :
    Valid asciiHost [2, 8] ∧ [8, 2].Perm ([2, 8] : List UInt8) ∧
    (all_fields_info asciiHost).IsRow [2, 8] hongKongRow ∧
    ∃ row after,
      (Reader.ofBytes (rowBytes [8, 2] hongKongRow)).decode
        ((Wire.VarFields (all_fields_info asciiHost)).fromstream
          [("fields", .list [.int 8, .int 2])]) = .ok (row, after) ∧
      ¬ MarketsKept [row] ∧
      answers (priceAt [row] 0 "close_price") (priceAt [row] 0 "close_price") =
        some (none, none, none) := by
  refine ⟨valid_stock_price, List.Perm.swap 2 8 [], isRow_hongKong, ?_⟩
  have computed : ((Reader.ofBytes (rowBytes [8, 2] hongKongRow)).decode
      ((Wire.VarFields (all_fields_info asciiHost)).fromstream
        [("fields", .list [.int 8, .int 2])])).toOption.map
        (fun result => (priceAt [result.1] 0 "close_price", marketAt [result.1] 0)) =
      some (some ⟨1, []⟩, some "HK".toList) := by decide +kernel
  cases outcome : (Reader.ofBytes (rowBytes [8, 2] hongKongRow)).decode
      ((Wire.VarFields (all_fields_info asciiHost)).fromstream
        [("fields", .list [.int 8, .int 2])]) with
  | error error =>
      rw [outcome] at computed
      cases computed
  | ok result =>
      rw [outcome] at computed
      obtain ⟨isPrice, isMarket⟩ := Prod.mk.inj (Option.some.inj computed)
      refine ⟨result.1, result.2, rfl, fun kept => ?_, ?_⟩
      · have same := kept 0 (8, "close_price") (by decide) _ isPrice
        rw [isMarket] at same
        cases same
      · rw [isPrice]
        rfl

end Response_5501

end StdPrograms.Ouou

import StdPrograms.Ouou.Message.VarFields

/-!
Contract: the attribute types that only responses use (`message/response.py`).

Owns prices with a market, order levels, arrays counted by an attribute of the
owner, the fields of 5511 whose type is chosen by `data_type`, and the broker
list of 5518, each as a codec.

Does not own the response classes, or `compare` of prices. The texts of
`__str__` are left out.
-/

namespace StdPrograms.Ouou

open StdPrograms.Foundation BinaryObject

/-! ### Prices -/

/-- `get_market`: the part of `stock_id` before the bar. -/
def get_market (x : Obj) : Str :=
  match x.get "stock_id" with
  | some (.str stock_id) => stock_id.takeWhile (· ≠ '|')
  | _ => "HK".toList

/-- `MarketPrice(market_func, rep_cls)`. The market comes from the owner and is
not on the wire. -/
def Wire.MarketPrice (market_func : Obj → Str) (rep_cls : IntFormat) : Codec where
  default := fun owner => .ok (.price 0 (market_func owner))
  fromstream := fun owner => do
    let value ← rep_cls.fromstream
    return .price value (market_func owner)
  tobytes := fun _ value =>
    match value with
    | .int value => rep_cls.pack value
    | .price value _ => rep_cls.pack value
    | _ => .error .typeError
  uses := []
  literal := false
  inRange := fun _ value => ∃ number, value = .int number
  readsBack := by
    rintro given value bytes ⟨number, rfl⟩ packed decoded agree
    refine ⟨.price number (market_func decoded), fun rest => ?_, .price _ _,
      fun isLiteral => (nomatch isLiteral), fun _ _ => packed⟩
    rw [ReadProgram.consume_bind_of_returned (IntFormat.fromstream_packed packed rest)]
    rfl
  detects := fun _ => (IntFormat.fromstream_detects rep_cls).bind fun _ => trivial

def Wire.PriceSeat : Codec := Wire.UInt

/-- `OrderDetail` of `BusinessLevel`. -/
def OrderDetail.attributes_info : List Attribute :=
  [ { name := "price_seat", type := Wire.PriceSeat },
    { name := "volume", type := Wire.LargeInt } ]

def Wire.OrderDetail : Codec :=
  Wire.Object "OrderDetail" OrderDetail.attributes_info (by decide)
    (by simp [OrderDetail.attributes_info]) ⟨_, rfl⟩

/-- `BusinessLevel(level)`. -/
def Wire.BusinessLevel (level : Nat) : Codec := Wire.Array (2 * level) Wire.OrderDetail

/-! ### Arrays counted by the owner -/

/-- `sizefunc(self.owner)`, for the attribute that the function looks up. -/
def VarArray.count (size_name : String) (owner : Obj) : Except PyError Int :=
  match owner.get size_name with
  | some (.int size) => .ok size
  | some _ => .error .typeError
  | none => .error (.attributeError size_name)

def VarArray.fromstream (size_name : String) (elem_cls : WireType) (owner : Obj) :
    Decoder Val := do
  let size ← .ofExcept (VarArray.count size_name owner)
  return .list (← (elem_cls.fromstream []).times size.toNat)

/-- `VarArray(sizefunc, elem_cls)`. -/
def Wire.VarArray (size_name : ClassName) (elem_cls : Codec) : Codec where
  default := fun _ => .ok (.list [])
  fromstream := VarArray.fromstream size_name elem_cls.toWireType
  tobytes := fun _ value =>
    match value with
    | .list values => TypeList.tobytes elem_cls.toWireType values
    | _ => .error .typeError
  uses := [size_name]
  literal := elem_cls.literal
  inRange := fun owner value => ∃ values : List Val, value = .list values ∧
    owner.get size_name = some (.int (values.length : ℤ)) ∧
    ∀ elem ∈ values, elem_cls.inRange [] elem
  readsBack := by
    rintro given value bytes ⟨values, rfl, counted, elements⟩ encoded decoded agree
    have size : VarArray.count size_name decoded = .ok (values.length : ℤ) := by
      rw [VarArray.count, agree size_name (by simp), counted]
    obtain ⟨results, reads, same, literal, again⟩ :=
      TypeList.readsBack elem_cls values elements encoded
    refine ⟨.list results, fun rest => ?_, .list same, fun isLiteral => ?_, fun _ _ => again⟩
    · show (VarArray.fromstream size_name elem_cls.toWireType decoded).consume _ = _
      rw [VarArray.fromstream, size]
      show ((elem_cls.fromstream []).times _ >>= _).consume _ = _
      rw [Int.toNat_natCast, ReadProgram.consume_bind_of_returned (reads rest)]
      rfl
    · rw [literal isLiteral]
  detects := fun _ => (ReadProgram.Detects.ofExcept _).bind fun size =>
    ((elem_cls.detects []).times size.toNat).bind fun _ => trivial

/-- `QueueData` of `StockQueue`. -/
def QueueData.attributes_info : List Attribute :=
  [ { name := "flag", type := Wire.Char },
    { name := "broker_no", type := Wire.UShort } ]

def Wire.QueueData : Codec :=
  Wire.Object "QueueData" QueueData.attributes_info (by decide)
    (by simp [QueueData.attributes_info]) ⟨_, rfl⟩

/-- `StockQueue(countfunc)`. -/
def Wire.StockQueue (size_name : ClassName) : Codec := Wire.VarArray size_name Wire.QueueData

/-! ### Fields of 5511 -/

namespace Response_5511.Data

/-- The classes in `all_fields_info` of 5511. -/
inductive FieldClass where
  | Int
  | DigitInt (digit_size : Nat)
  | Byte
  | UInt
  | UShort
  | LargeInt
  | String
  | GBKString
  | BusinessLevel (level : Nat)
  /-- With the owner's `market_code` as its market. -/
  | MarketPrice
deriving DecidableEq

def all_fields_info : List (ClassName × FieldClass) :=
  [("date_time", .Int), ("stock_name", .GBKString), ("stock_code", .String),
   ("market_name", .GBKString), ("market_code", .UShort), ("market_type", .UShort),
   ("trade_flag", .String), ("close_price", .UInt), ("open_price", .UInt),
   ("highest_price", .UInt), ("lowest_price", .UInt), ("latest_price", .MarketPrice),
   ("volume", .LargeInt), ("amount", .LargeInt), ("trade_count", .UInt), ("sellvol", .LargeInt),
   ("newvol", .LargeInt), ("newvol_direction", .String), ("open_interest_change", .LargeInt),
   ("avg_price", .UInt), ("open_interest", .LargeInt), ("settlement_price", .UInt),
   ("last_open_interest", .LargeInt), ("last_settlement_price", .UInt), ("limit_up_price", .UInt),
   ("limit_down_price", .UInt), ("bid1_price", .UInt), ("bid1_volume", .UInt),
   ("sell1_price", .UInt), ("sell1_volume", .UInt), ("bid_sell_5", .BusinessLevel 5),
   ("bid_sell_10", .BusinessLevel 10), ("change_percent", .DigitInt 2), ("change_value", .Int),
   ("buyvol", .LargeInt), ("profit", .DigitInt 3), ("pe_ratio", .DigitInt 3),
   ("net_assets", .DigitInt 3), ("pb_ratio", .DigitInt 3), ("total_stocks", .LargeInt),
   ("hk_stocks", .LargeInt), ("total_value", .LargeInt), ("hk_value", .LargeInt),
   ("turnover_rate", .DigitInt 2), ("reverse_currency", .Int), ("hgt_flag", .Byte),
   ("52_week_highest", .UInt), ("52_week_lowest", .UInt), ("amplitude", .DigitInt 2),
   ("volume_ratio", .DigitInt 2), ("ps_ratio", .DigitInt 2), ("roe", .DigitInt 2)]

/-- The classes in `data_types`. -/
inductive DataType where
  | Int
  | LargeInt
  | GBKString
  /-- `Array(2, GBKString)`. -/
  | GBKStringPair
deriving DecidableEq

def data_types : List DataType :=
  [.Int, .LargeInt, .LargeInt, .GBKString, .GBKStringPair]

def DataType.codec (host : Host) : DataType → Codec
  | .Int => Wire.Int
  | .LargeInt => Wire.LargeInt
  | .GBKString => Wire.GBKString host
  | .GBKStringPair => Wire.Array 2 (Wire.GBKString host)

/-- `attr.type` as a codec, where `issubclass(attr.type, cls)`. -/
def subclass (host : Host) : FieldClass → DataType → Option Codec
  | .Int, .Int => some Wire.Int
  | .DigitInt digit_size, .Int => some (Wire.DigitInt digit_size)
  | .LargeInt, .LargeInt => some Wire.LargeInt
  | .GBKString, .GBKString => some (Wire.GBKString host)
  | _, _ => none

/-- The class that `extra_parse` reads the data with. -/
def dataCodec (host : Host) (field : FieldClass) (cls : DataType) : Codec :=
  (subclass host field cls).getD (cls.codec host)

/-- Reading with the subclass is reading with the class. -/
theorem dataCodec_eq (host : Host) (field : FieldClass) (cls : DataType) :
    dataCodec host field cls = cls.codec host := by
  cases field <;> cases cls <;> rfl

def attributes_info (host : Host) : List Attribute :=
  [ { name := "index", type := Wire.Byte },
    { name := "name", type := Wire.GBKString host },
    { name := "data_type", type := Wire.UShort },
    { name := "extend_data", type := Wire.Byte } ]

/-- `self.index`, `self.data_type`. -/
def integer (self : Obj) (name : ClassName) : Except PyError ℤ :=
  match self.get name with
  | some (.int value) => .ok value
  | some _ => .error .typeError
  | none => .error (.attributeError name)

/-- The class of the data: `data_types[data_type & 0x07]`. -/
def dataType (self : Obj) : Except PyError DataType := do
  let data_type ← integer self "data_type"
  item data_types (data_type % 8)

/-- What `extra_parse` looks up before it reads. -/
def extraCodec (host : Host) (self : Obj) : Except PyError Codec := do
  let index ← integer self "index"
  let attr ← item all_fields_info (index - 1)
  let cls ← dataType self
  return dataCodec host attr.2 cls

def extra_parse (host : Host) (self : Obj) : Decoder Obj := do
  let type ← .ofExcept (extraCodec host self)
  let data ← type.fromstream []
  return self.set "data" data

/-- `self.data.tobytes()`: an integer of either class packs as `Int`. -/
def dataBytes (host : Host) : Val → Except PyError Bytes
  | .int value => Int.format.pack value
  | .str text => EncodedString.tobytes host.gbk (.str text)
  | .list values => Array.tobytes 2 (Wire.GBKString host).toWireType (.list values)
  | _ => .error (.attributeError "tobytes")

/-- `Data(attrs)`. -/
def init (host : Host) (attrs : Val) : Except PyError Obj := do
  let self ← construct (attributes_info host) []
  if attrs.truthy then
    match attrs.iter with
    | some values => do
        let self := self.set "index" (← item values 0)
        let self := self.set "name" (← item values 1)
        let self := self.set "data_type" (← item values 2)
        let self := self.set "extend_data" (← item values 3)
        let _ ← dataType self
        return self.set "data" (← item values 4)
    | none => .error .typeError
  else return self

def tobytes (host : Host) (self : Obj) : Except PyError Bytes := do
  let head ← body2bytes "Data" (attributes_info host) self
  match self.get "data" with
  | some data => return head ++ (← dataBytes host data)
  | none => .error (.attributeError "data")

/-- An in-range value of the class is encoded by the class. -/
theorem dataBytes_eq {host : Host} {cls : DataType} {value : Val}
    (inRange : (cls.codec host).inRange [] value) :
    dataBytes host value = (cls.codec host).tobytes [] value := by
  cases cls with
  | Int | LargeInt =>
      obtain ⟨number, rfl, -⟩ := inRange
      rfl
  | GBKString =>
      obtain ⟨text, rfl⟩ := inRange
      rfl
  | GBKStringPair =>
      obtain ⟨values, rfl, -⟩ := inRange
      rfl

theorem dataType_literal (host : Host) (cls : DataType) : (cls.codec host).literal = true := by
  cases cls <;> rfl

theorem extraCodec_eq_ok {host : Host} {self : Obj} {type : Codec}
    (found : extraCodec host self = .ok type) : ∃ cls : DataType, type = cls.codec host := by
  obtain ⟨index, -, found⟩ := exceptBind_eq_ok.mp found
  obtain ⟨attr, -, found⟩ := exceptBind_eq_ok.mp found
  obtain ⟨cls, -, found⟩ := exceptBind_eq_ok.mp found
  exact ⟨cls, (Except.ok.inj found).symm.trans (dataCodec_eq host attr.2 cls)⟩

theorem extraCodec_congr (host : Host) {left right : Obj}
    (index : left.get "index" = right.get "index")
    (data_type : left.get "data_type" = right.get "data_type") :
    extraCodec host left = extraCodec host right := by
  simp only [extraCodec, dataType, integer, index, data_type]

/-- Instances whose data is in range for the class that their `data_type` names. -/
def Carried (host : Host) (self : Obj) : Prop :=
  ∃ type data, extraCodec host self = .ok type ∧ self.get "data" = some data ∧
    type.inRange [] data

/-- A carried instance comes back with its data, and encodes to the same bytes. -/
theorem readsBack (host : Host) {given : Obj} {values : List Val} {value : Val} {bytes : Bytes}
    (inRange : InRange (attributes_info host) given values) (carried : Carried host given)
    (yields : value.iter = some values) (encoded : tobytes host given = .ok bytes) :
    ∃ final,
      (∀ rest, (fromstream (attributes_info host) (extra_parse host)).consume (bytes ++ rest) =
        .returned (.obj (names (attributes_info host)) final) rest) ∧
      Val.Same (.obj (names (attributes_info host)) final) value ∧
      tobytes host final = .ok bytes := by
  obtain ⟨type, data, found, hasData, dataInRange⟩ := carried
  obtain ⟨cls, rfl⟩ := extraCodec_eq_ok found
  obtain ⟨head, headEncoded, encoded⟩ := exceptBind_eq_ok.mp encoded
  rw [hasData] at encoded
  obtain ⟨extra, extraEncoded, result⟩ := exceptBind_eq_ok.mp encoded
  cases Except.ok.inj result
  obtain ⟨start, constructed⟩ : ∃ start, construct (attributes_info host) [] = .ok start :=
    ⟨_, rfl⟩
  obtain ⟨final, reads, same, literal, again⟩ := fromstream_body2bytes "Data"
    (attributes_info host) (of_decide_eq_true rfl) (by simp [attributes_info]) start inRange yields
    headEncoded
  have extraFound : extraCodec host final = .ok (cls.codec host) := by
    rw [← found]
    exact extraCodec_congr host
      (literal ⟨"index", Wire.Byte, none⟩ (by simp [attributes_info]) rfl)
      (literal ⟨"data_type", Wire.UShort, none⟩ (by simp [attributes_info]) rfl)
  obtain ⟨result, extraReads, -, isGiven, -⟩ := (cls.codec host).readsBack [] data extra
    dataInRange ((dataBytes_eq dataInRange).symm.trans extraEncoded) [] (AgreeOn.refl _ _)
  cases isGiven (dataType_literal host cls)
  have notData : "data" ∉ names (attributes_info host) := by
    simp [names, attributes_info]
  refine ⟨final.set "data" data, fun rest => ?_, ?_, ?_⟩
  · refine fromstream_consume _ _ _ _ constructed reads ?_
    rw [extra_parse, extraFound]
    show ((cls.codec host).fromstream [] >>= _).consume _ = _
    rw [ReadProgram.consume_bind_of_returned (extraReads rest)]
    rfl
  · cases same with
    | obj finalYields givenYields items =>
        refine .obj ?_ givenYields items
        rw [Val.iter, Obj.values_set_other _ _ notData]
        exact finalYields
  · have kept := again (final.set "data" data) fun attr member =>
      Obj.get_set_other _ _ fun same => notData (same ▸ List.mem_map_of_mem member)
    refine exceptBind_eq_ok.mpr ⟨head, kept, ?_⟩
    rw [Obj.get_set_self]
    exact exceptBind_eq_ok.mpr ⟨extra, extraEncoded, rfl⟩

/-- An instance, or `Data(attrs)`. -/
def ofVal (host : Host) : Val → Except PyError Obj
  | .obj own attributes =>
      if own = names (attributes_info host) then .ok attributes
      else init host (.obj own attributes)
  | value => init host value

end Response_5511.Data

open Response_5511.Data in
def Wire.Response_5511_Data (host : Host) : Codec where
  default := fun _ => do
    return .obj (names (attributes_info host)) (← construct (attributes_info host) [])
  fromstream := fun _ => BinaryObject.fromstream (attributes_info host) (extra_parse host)
  tobytes := fun _ value => do
    let self ← ofVal host value
    Response_5511.Data.tobytes host self
  uses := []
  literal := false
  inRange := fun _ value => ∃ self values, value = .obj (names (attributes_info host)) self ∧
    InRange (attributes_info host) self values ∧ Carried host self
  readsBack := by
    rintro given value bytes ⟨self, values, rfl, inRange, carried⟩ encoded decoded agree
    have instanceOf (self : Obj) :
        ofVal host (.obj (names (attributes_info host)) self) = .ok self := by
      rw [ofVal, if_pos rfl]
    obtain ⟨self', coerced, encoded⟩ := exceptBind_eq_ok.mp encoded
    cases Except.ok.inj ((instanceOf self).symm.trans coerced)
    have yields : Val.iter (.obj (names (attributes_info host)) self) = some values :=
      holds_iff_values.mp (InRange.holds inRange)
    obtain ⟨final, reads, same, again⟩ :=
      Response_5511.Data.readsBack host inRange carried yields encoded
    exact ⟨_, reads, same, fun isLiteral => (nomatch isLiteral), fun _ _ =>
      exceptBind_eq_ok.mpr ⟨final, instanceOf final, again⟩⟩
  detects := fun _ => fromstream_detects _ fun self =>
    (ReadProgram.Detects.ofExcept _).bind fun type =>
      (type.detects []).bind fun _ => trivial

/-! ### The broker list of 5518 -/

namespace Response_5518.BrokerData

/-- `broker_data_type`. -/
def broker_data_type (host : Host) : List Attribute :=
  [ { name := "broker_no", type := Wire.UShort },
    { name := "broker_name", type := Wire.CString host.utf8 32 } ]

def attributes_info (host : Host) : List Attribute :=
  [ { name := "md5", type := Wire.CString host.utf8 33 },
    { name := "raw_size", type := Wire.Int },
    { name := "compressed_data", type := Wire.Vector Int.format Wire.Byte } ]

/-- `bytearray(values)`. -/
def bytearray : List Val → Except PyError Bytes
  | [] => .ok []
  | .int value :: rest => do
      if 0 ≤ value ∧ value < 256 then
        return UInt8.ofNat value.toNat :: (← bytearray rest)
      else .error .typeError
  | _ :: _ => .error .typeError

/-- The brokers, from the compressed data: a number of records of 34 bytes. -/
def brokers (host : Host) (self : Obj) : Except PyError Val :=
  match self.get "compressed_data" with
  | some (.list values) => do
      let b ← bytearray values
      match host.decompress b with
      | none => .error .zlibError
      | some data =>
          if data.length % 34 ≠ 0 then .error .assertionError
          else do
            let record := BinaryObject.fromstream (broker_data_type host) .done
            let (records, _) ← (Reader.ofBytes data).decode (record.times (data.length / 34))
            return .list records
  | some _ => .error .typeError
  | none => .error (.attributeError "compressed_data")

def extra_parse (host : Host) (self : Obj) : Decoder Obj := do
  let broker_data ← .ofExcept (brokers host self)
  return self.set "broker_data" broker_data

end Response_5518.BrokerData

open Response_5518.BrokerData in
/-- Instances whose compressed data can be parsed. -/
def Wire.BrokerData (host : Host) : Codec where
  default := fun _ => do
    return .obj (names (attributes_info host)) (← construct (attributes_info host) [])
  fromstream := fun _ => BinaryObject.fromstream (attributes_info host) (extra_parse host)
  tobytes := fun _ value => do
    let self ← coerce (attributes_info host) value
    body2bytes "BrokerData" (attributes_info host) self
  uses := []
  literal := false
  inRange := fun _ value => ∃ self values brokerList,
    coerce (attributes_info host) value = .ok self ∧ value.iter = some values ∧
    InRange (attributes_info host) self values ∧ brokers host self = .ok brokerList
  readsBack := by
    rintro given value bytes ⟨self, values, brokerList, coerced, yields, inRange, parsed⟩
      encoded decoded agree
    obtain ⟨self', coerced', encoded⟩ := exceptBind_eq_ok.mp encoded
    cases Except.ok.inj (coerced.symm.trans coerced')
    obtain ⟨start, constructed⟩ : ∃ start, construct (attributes_info host) [] = .ok start :=
      ⟨_, rfl⟩
    obtain ⟨final, reads, same, literal, again⟩ := fromstream_body2bytes "BrokerData"
      (attributes_info host) (of_decide_eq_true rfl) (by simp [attributes_info])
      start inRange yields encoded
    have parsedAgain : brokers host final = .ok brokerList := by
      have sameData : final.get "compressed_data" = self.get "compressed_data" :=
        literal ⟨"compressed_data", Wire.Vector Int.format Wire.Byte, none⟩
          (by simp [attributes_info]) rfl
      rw [← parsed, brokers, brokers, sameData]
    have notBrokers : "broker_data" ∉ names (attributes_info host) := by
      simp [names, attributes_info]
    refine ⟨.obj (names (attributes_info host)) (final.set "broker_data" brokerList),
      fun rest => ?_, ?_, fun isLiteral => (nomatch isLiteral), fun _ _ => ?_⟩
    · have reading := fromstream_consume (attributes_info host)
        (extra_parse host) [] rest constructed reads
        (by rw [extra_parse, parsedAgain]; rfl)
      rwa [List.append_nil] at reading
    · cases same with
      | obj finalYields givenYields items =>
          refine .obj ?_ givenYields items
          rw [Val.iter, Obj.values_set_other _ _ notBrokers]
          exact finalYields
    · refine exceptBind_eq_ok.mpr ⟨_, coerce_instance _ _, again _ fun attr member => ?_⟩
      exact Obj.get_set_other _ _ fun same => notBrokers (same ▸ List.mem_map_of_mem member)
  detects := fun _ => fromstream_detects _ fun self =>
    (ReadProgram.Detects.ofExcept _).bind fun _ => trivial

end StdPrograms.Ouou

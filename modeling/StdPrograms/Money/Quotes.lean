import StdPrograms.Foundation.LastWins
import StdPrograms.Money.Advances

/-!
Contract: a file of quotes, as `mx.cpp` reads it into a map.

Owns the fields of `QuoteData` and the order in which they are read, the loop over the
records, and for which files the map holds every record that was encoded: `pe` is read
where `pb` stands, `pb` is never read, and the key leaves two characters of the
`stock_id` out.

A `float` is whatever `store` makes of the quotient. Does not own the sources.
-/

namespace StdPrograms.Money

open StdPrograms.Foundation

/-! ### What the code reads -/

section Reading

variable {σ F : Type} [InputType σ]

/-- `read` into a `std::string`. -/
def readString : Effect σ Failure Bytes := do
  let elements ← InputStream.readContainer ushort 1
  pure elements.flatten

/-- `read` into a type with an `update`. -/
def readUpdated {α : Type} (size : Nat) (update : Effect σ Failure α) : Effect σ Failure α := do
  let self ← get
  if InputType.readable self < size then InputStream.throw_overread size else update

def readLargeInt : Effect σ Failure Int := readUpdated 4 LargeInt.update

variable (store : Nat → F)

def readDigit (NR_DIGITS : Nat) : Effect σ Failure F :=
  readUpdated 4 do
    let quotient ← Digit.update NR_DIGITS
    pure (store quotient)

/-- `read` into an `unsigned char`. -/
def readUchar : Effect σ Failure Int := do
  let bytes ← InputStream.read 1
  pure (toUnsigned bytes)

structure FileHeader where
  data_type : Bytes
  date : Int
deriving DecidableEq

def FileHeader.from_stream : Effect σ Failure FileHeader := do
  let data_type ← readString
  let date ← readInt
  pure { data_type, date }

structure QuoteData (F : Type) where
  stock_id : Bytes
  stock_name : Bytes
  current_price : F
  avg_price : F
  open_price : F
  last_close : F
  highest_price : F
  lowest_price : F
  volume_ratio : F
  turn_over_ratio : Int
  volume : Int
  amount : Int
  zhangting : F
  dieting : F
  wai_pan : Int
  nei_pan : Int
  dynamic_pe : F
  tradable_value : Int
  income : F
  quarter : Int
  total_value : Int
  tradable_share : Int
  total_share : Int
  pe : F
  eps : F
  pb : F
  block_code : Bytes
  block_name : Bytes
  block_rise : Int

namespace QuoteData

/-- `stock_id.substr(2)`: `none` where it throws. -/
def get_stock_key (self : QuoteData F) : Option Bytes :=
  if 2 ≤ self.stock_id.length then some (self.stock_id.drop 2) else none

/-- `pb` is what the memory of `quote` held. -/
def from_stream (memory : F) : Effect σ Failure (QuoteData F) := do
  let stock_id ← readString
  let stock_name ← readString
  let current_price ← readDigit store 3
  let avg_price ← readDigit store 4
  let open_price ← readDigit store 3
  let last_close ← readDigit store 3
  let highest_price ← readDigit store 3
  let lowest_price ← readDigit store 3
  let volume_ratio ← readDigit store 4
  let turn_over_ratio ← readInt
  let volume ← readLargeInt
  let amount ← readLargeInt
  let zhangting ← readDigit store 3
  let dieting ← readDigit store 3
  let wai_pan ← readInt
  let nei_pan ← readInt
  let dynamic_pe ← readDigit store 3
  let tradable_value ← readLargeInt
  let income ← readDigit store 4
  let quarter ← readUchar
  let total_value ← readInt
  let tradable_share ← readInt
  let total_share ← readInt
  let _pe ← readDigit store 3
  let eps ← readDigit store 3
  -- The source reads `quote.pe` once more.
  let pe ← readDigit store 3
  let block_code ← readString
  let block_name ← readString
  let block_rise ← readInt
  pure {
    stock_id, stock_name, current_price, avg_price, open_price, last_close, highest_price,
    lowest_price, volume_ratio, turn_over_ratio, volume, amount, zhangting, dieting, wai_pan,
    nei_pan, dynamic_pe, tradable_value, income, quarter, total_value, tradable_share,
    total_share, pe, eps, pb := memory, block_code, block_name, block_rise }

end QuoteData

/-- How `File::from_stream` ends that reads no further: with its file, in the exception of
`substr`, or not within the turns that it is given. -/
inductive Ending (α : Type) where
  | returned (file : α)
  | outOfRange
  | running

structure File (F : Type) where
  header_ : FileHeader
  data_ : Bytes → Option (QuoteData F)

namespace File

/-- The loop, with what the memory of `quote` holds in each turn. -/
def loop : Nat → (Nat → F) → File F → Effect σ Failure (Ending (File F))
  | 0, _, _ => pure .running
  | turns + 1, memory, file_data => do
      let self ← get
      if InputStream.eof self then
        pure (.returned file_data)
      else do
        let elem ← QuoteData.from_stream store (memory 0)
        match elem.get_stock_key with
        | none => pure .outOfRange
        | some key =>
            loop turns (fun turn => memory (turn + 1))
              { file_data with data_ := Function.update file_data.data_ key (some elem) }

def from_stream (turns : Nat) (memory : Nat → F) : Effect σ Failure (Ending (File F)) := do
  let header_ ← FileHeader.from_stream
  loop store turns memory { header_, data_ := fun _ => none }

end File

end Reading

/-! ### What a file encodes -/

/-- A string that its 16-bit length can count. -/
structure Text where
  chars : Bytes
  fits : chars.length < 2 ^ 16

def Text.encode (text : Text) : Bytes := ofInt 2 text.chars.length ++ text.chars

/-- A number that a `LargeInt` denotes. -/
structure EncodedLargeInt where
  v : Int32
  value : Int
  decoded : LargeInt.decode v.toInt = .ok value

structure EncodedHeader where
  data_type : Text
  date : Int32

def EncodedHeader.encode (header : EncodedHeader) : Bytes :=
  header.data_type.encode ++ (wire header.date).bytes

/-- A record by what encodes its fields. -/
structure EncodedQuote where
  stock_id : Text
  stock_name : Text
  current_price : Int32
  avg_price : Int32
  open_price : Int32
  last_close : Int32
  highest_price : Int32
  lowest_price : Int32
  volume_ratio : Int32
  turn_over_ratio : Int32
  volume : EncodedLargeInt
  amount : EncodedLargeInt
  zhangting : Int32
  dieting : Int32
  wai_pan : Int32
  nei_pan : Int32
  dynamic_pe : Int32
  tradable_value : EncodedLargeInt
  income : Int32
  quarter : UInt8
  total_value : Int32
  tradable_share : Int32
  total_share : Int32
  pe : Int32
  eps : Int32
  pb : Int32
  block_code : Text
  block_name : Text
  block_rise : Int32

namespace EncodedQuote

/-- Every field in its declared order. -/
def encode (quote : EncodedQuote) : Bytes :=
  quote.stock_id.encode ++ (quote.stock_name.encode ++ ((wire quote.current_price).bytes ++
  ((wire quote.avg_price).bytes ++ ((wire quote.open_price).bytes ++
  ((wire quote.last_close).bytes ++ ((wire quote.highest_price).bytes ++
  ((wire quote.lowest_price).bytes ++ ((wire quote.volume_ratio).bytes ++
  ((wire quote.turn_over_ratio).bytes ++ ((wire quote.volume.v).bytes ++
  ((wire quote.amount.v).bytes ++ ((wire quote.zhangting).bytes ++
  ((wire quote.dieting).bytes ++ ((wire quote.wai_pan).bytes ++
  ((wire quote.nei_pan).bytes ++ ((wire quote.dynamic_pe).bytes ++
  ((wire quote.tradable_value.v).bytes ++ ((wire quote.income).bytes ++
  ([quote.quarter] ++ ((wire quote.total_value).bytes ++
  ((wire quote.tradable_share).bytes ++ ((wire quote.total_share).bytes ++
  ((wire quote.pe).bytes ++ ((wire quote.eps).bytes ++ ((wire quote.pb).bytes ++
  (quote.block_code.encode ++ (quote.block_name.encode ++
  ((wire quote.block_rise).bytes ++ []))))))))))))))))))))))))))))

variable {F : Type} (store : Nat → F)

/-- The record that is encoded. -/
def value (quote : EncodedQuote) : QuoteData F where
  stock_id := quote.stock_id.chars
  stock_name := quote.stock_name.chars
  current_price := store (Digit.quotient 3 quote.current_price.toInt)
  avg_price := store (Digit.quotient 4 quote.avg_price.toInt)
  open_price := store (Digit.quotient 3 quote.open_price.toInt)
  last_close := store (Digit.quotient 3 quote.last_close.toInt)
  highest_price := store (Digit.quotient 3 quote.highest_price.toInt)
  lowest_price := store (Digit.quotient 3 quote.lowest_price.toInt)
  volume_ratio := store (Digit.quotient 4 quote.volume_ratio.toInt)
  turn_over_ratio := quote.turn_over_ratio.toInt
  volume := quote.volume.value
  amount := quote.amount.value
  zhangting := store (Digit.quotient 3 quote.zhangting.toInt)
  dieting := store (Digit.quotient 3 quote.dieting.toInt)
  wai_pan := quote.wai_pan.toInt
  nei_pan := quote.nei_pan.toInt
  dynamic_pe := store (Digit.quotient 3 quote.dynamic_pe.toInt)
  tradable_value := quote.tradable_value.value
  income := store (Digit.quotient 4 quote.income.toInt)
  quarter := toUnsigned [quote.quarter]
  total_value := quote.total_value.toInt
  tradable_share := quote.tradable_share.toInt
  total_share := quote.total_share.toInt
  pe := store (Digit.quotient 3 quote.pe.toInt)
  eps := store (Digit.quotient 3 quote.eps.toInt)
  pb := store (Digit.quotient 2 quote.pb.toInt)
  block_code := quote.block_code.chars
  block_name := quote.block_name.chars
  block_rise := quote.block_rise.toInt

/-- What `QuoteData::from_stream` makes of it. -/
def readAs (memory : F) (quote : EncodedQuote) : QuoteData F :=
  { quote.value store with pe := store (Digit.quotient 3 quote.pb.toInt), pb := memory }

@[simp] theorem value_stock_id (quote : EncodedQuote) :
    (quote.value store).stock_id = quote.stock_id.chars := rfl

@[simp] theorem readAs_stock_id (memory : F) (quote : EncodedQuote) :
    (quote.readAs store memory).stock_id = quote.stock_id.chars := rfl

end EncodedQuote

/-- The content of a file: records with distinct `stock_id`s of two characters or more. -/
structure QuotesFile where
  header : EncodedHeader
  records : List EncodedQuote
  distinct : (records.map fun record => record.stock_id.chars).Nodup
  long : ∀ record ∈ records, 2 ≤ record.stock_id.chars.length

def QuotesFile.encode (file : QuotesFile) : Bytes :=
  file.header.encode ++ file.records.flatMap EncodedQuote.encode

/-! ### What is read of it -/

section Delivered

variable {σ F : Type} [InputType σ] {stands : σ → Bytes → Prop} (advances : Advances stands)
  (store : Nat → F)

include advances

theorem delivers_readString (text : Text) :
    Delivers stands readString text.encode text.chars := by
  have fits := text.fits
  have two : (ofInt 2 text.chars.length).length = 2 := ofInt_length _ _
  have width : modulus 2 = 2 ^ 16 := by decide
  have size : size_t (ushort.value (ofInt 2 text.chars.length)) = text.chars.length := by
    have unsigned : toUnsigned (ofInt 2 text.chars.length) = text.chars.length :=
      toUnsigned_ofInt 2 _ (Int.natCast_nonneg _) (by omega)
    change size_t (toUnsigned _) = _
    rw [unsigned, size_t]
    omega
  have counted := advances.delivers_read (ofInt 2 text.chars.length)
  rw [two] at counted
  have filled := advances.delivers_fill text.chars (by omega)
  have container : Delivers stands (InputStream.readContainer ushort 1) text.encode
      (text.chars.map ([·])) := by
    apply delivers_bind counted
    rw [size]
    exact filled
  have chars : (text.chars.map ([·])).flatten = text.chars := by
    rw [← List.flatMap_def, List.flatMap_singleton']
  have string := delivers_map container List.flatten
  rw [chars] at string
  exact string

/-- The check before an `update` passes what the `update` reads. -/
theorem delivers_readUpdated {α : Type} {update : Effect σ Failure α} {bytes : Bytes} {value : α}
    (delivers : Delivers stands update bytes value) :
    Delivers stands (readUpdated bytes.length update) bytes value := by
  intro self rest standing
  have enough := advances.within standing
  rw [readUpdated, Effect.exec_get, if_neg (Nat.not_lt_of_le enough)]
  exact delivers self rest standing

theorem delivers_readDigit (NR_DIGITS : Nat) (v : Int32) :
    Delivers stands (readDigit store NR_DIGITS) (wire v).bytes
      (store (Digit.quotient NR_DIGITS v.toInt)) := by
  have four : (wire v).bytes.length = 4 := ofInt_length _ _
  have quotient := delivers_map (advances.delivers_readInt v) (Digit.quotient NR_DIGITS)
  have updated := delivers_readUpdated advances (delivers_map quotient store)
  rw [four] at updated
  exact updated

theorem delivers_readLargeInt (encoded : EncodedLargeInt) :
    Delivers stands readLargeInt (wire encoded.v).bytes encoded.value := by
  have four : (wire encoded.v).bytes.length = 4 := ofInt_length _ _
  have lifted : Delivers stands (Effect.lift (LargeInt.decode encoded.v.toInt)) []
      encoded.value := by
    intro self rest standing
    rw [encoded.decoded]
    exact ⟨self, rfl, standing⟩
  have update : Delivers stands LargeInt.update ((wire encoded.v).bytes ++ []) encoded.value :=
    delivers_bind (advances.delivers_readInt encoded.v) lifted
  rw [List.append_nil] at update
  have updated := delivers_readUpdated advances update
  rw [four] at updated
  exact updated

theorem delivers_readUchar (byte : UInt8) :
    Delivers stands readUchar [byte] (toUnsigned [byte]) :=
  delivers_map (advances.delivers_read [byte]) toUnsigned

theorem delivers_header (header : EncodedHeader) :
    Delivers stands FileHeader.from_stream header.encode
      ⟨header.data_type.chars, header.date.toInt⟩ :=
  delivers_bind (delivers_readString advances header.data_type)
    (delivers_map (advances.delivers_readInt header.date) _)

theorem delivers_quote (memory : F) (quote : EncodedQuote) :
    Delivers stands (QuoteData.from_stream store memory) quote.encode
      (quote.readAs store memory) := by
  have string := delivers_readString advances
  have digit := delivers_readDigit advances store
  have large := delivers_readLargeInt advances
  have int := advances.delivers_readInt
  apply delivers_bind (string quote.stock_id)
  apply delivers_bind (string quote.stock_name)
  apply delivers_bind (digit 3 quote.current_price)
  apply delivers_bind (digit 4 quote.avg_price)
  apply delivers_bind (digit 3 quote.open_price)
  apply delivers_bind (digit 3 quote.last_close)
  apply delivers_bind (digit 3 quote.highest_price)
  apply delivers_bind (digit 3 quote.lowest_price)
  apply delivers_bind (digit 4 quote.volume_ratio)
  apply delivers_bind (int quote.turn_over_ratio)
  apply delivers_bind (large quote.volume)
  apply delivers_bind (large quote.amount)
  apply delivers_bind (digit 3 quote.zhangting)
  apply delivers_bind (digit 3 quote.dieting)
  apply delivers_bind (int quote.wai_pan)
  apply delivers_bind (int quote.nei_pan)
  apply delivers_bind (digit 3 quote.dynamic_pe)
  apply delivers_bind (large quote.tradable_value)
  apply delivers_bind (digit 4 quote.income)
  apply delivers_bind (delivers_readUchar advances quote.quarter)
  apply delivers_bind (int quote.total_value)
  apply delivers_bind (int quote.tradable_share)
  apply delivers_bind (int quote.total_share)
  apply delivers_bind (digit 3 quote.pe)
  apply delivers_bind (digit 3 quote.eps)
  -- What was encoded as `pb`.
  apply delivers_bind (digit 3 quote.pb)
  apply delivers_bind (string quote.block_code)
  apply delivers_bind (string quote.block_name)
  apply delivers_bind (int quote.block_rise)
  exact delivers_pure _

end Delivered

/-! ### The map -/

/-- What the code files an element under, where `substr` does not throw. -/
def QuoteData.key {F : Type} (elem : QuoteData F) : Bytes := elem.stock_id.drop 2

theorem EncodedQuote.encode_length_pos (quote : EncodedQuote) : 0 < quote.encode.length := by
  have length : (ofInt 2 quote.stock_id.chars.length).length = 2 := ofInt_length _ _
  rw [encode, Text.encode, List.length_append, List.length_append, length]
  omega

/-- What the turns of the loop make of the records. -/
def elements {F : Type} (store : Nat → F) (memory : Nat → F) (records : List EncodedQuote) :
    List (QuoteData F) :=
  records.mapIdx fun turn record => record.readAs store (memory turn)

section Loop

variable {σ F : Type} [InputType σ] {stands : σ → Bytes → Prop} (advances : Advances stands)
  (store : Nat → F)

include advances

theorem exec_loop (turns : Nat) (memory : Nat → F) (file_data : File F)
    (records : List EncodedQuote) (long : ∀ record ∈ records, 2 ≤ record.stock_id.chars.length)
    {self : σ} (standing : stands self (records.flatMap EncodedQuote.encode)) :
    ((File.loop store turns memory file_data).exec self).1 = .ok
      (if records.length < turns then
        .returned { file_data with
          data_ := insertAll QuoteData.key file_data.data_ (elements store memory records) }
      else .running) := by
  induction turns generalizing memory file_data records self with
  | zero => rfl
  | succ turns inductionHypothesis =>
      rw [File.loop, Effect.exec_get, InputStream.eof, advances.readable self _ standing]
      cases records with
      | nil => rfl
      | cons record rest =>
          have positive := record.encode_length_pos
          have more : ((record :: rest).flatMap EncodedQuote.encode).length ≠ 0 := by
            rw [List.flatMap_cons, List.length_append]
            omega
          have key : (record.readAs store (memory 0)).get_stock_key =
              some (record.readAs store (memory 0)).key :=
            if_pos (long record List.mem_cons_self)
          rw [if_neg (by simpa using more), Effect.exec_bind]
          rw [List.flatMap_cons] at standing
          obtain ⟨after, ran, onward⟩ :=
            delivers_quote advances store (memory 0) record self _ standing
          rw [ran]
          dsimp only
          rw [key]
          dsimp only
          rw [inductionHypothesis _ _ rest (fun other member => long other (.tail _ member)) onward]
          simp only [List.length_cons, Nat.succ_lt_succ_iff, elements, List.mapIdx_cons]
          rfl

theorem exec_from_stream (turns : Nat) (memory : Nat → F) (file : QuotesFile) {self : σ}
    (standing : stands self file.encode) :
    ((File.from_stream store turns memory).exec self).1 = .ok
      (if file.records.length < turns then
        .returned {
          header_ := ⟨file.header.data_type.chars, file.header.date.toInt⟩
          data_ := insertAll QuoteData.key (fun _ => none) (elements store memory file.records) }
      else .running) := by
  obtain ⟨after, ran, onward⟩ := delivers_header advances file.header self _ standing
  rw [File.from_stream, Effect.exec_bind, ran]
  exact exec_loop advances store turns memory _ file.records file.long onward

end Loop

section WithoutLoss

variable {σ F : Type} [InputType σ]

/-- The file is read to its end, and the map holds every record with every field. -/
def QuotesFile.ReadWithoutLoss (file : QuotesFile) (store : Nat → F) (memory : Nat → F)
    (source : σ) : Prop :=
  ∃ turns read, ((File.from_stream store turns memory).exec source).1 = .ok (.returned read) ∧
    ∀ record ∈ file.records, ∃ key, read.data_ key = some (record.value store)

variable {stands : σ → Bytes → Prop} (store : Nat → F)

/-- The element of a turn is the record. -/
theorem readAs_eq_value_iff (memory : F) (quote : EncodedQuote) :
    quote.readAs store memory = quote.value store ↔
      store (Digit.quotient 3 quote.pb.toInt) = store (Digit.quotient 3 quote.pe.toInt) ∧
        memory = store (Digit.quotient 2 quote.pb.toInt) := by
  simp [EncodedQuote.readAs, EncodedQuote.value]

variable (advances : Advances stands) (memory : Nat → F) (file : QuotesFile)

include advances

/-- Nothing is lost exactly if every element is the record, and no two keys are the same. -/
theorem readWithoutLoss_iff_elements {source : σ} (standing : stands source file.encode) :
    file.ReadWithoutLoss store memory source ↔
      elements store memory file.records = file.records.map (EncodedQuote.value store) ∧
        (file.records.map fun record => record.stock_id.chars.drop 2).Nodup := by
  have same : (elements store memory file.records).map QuoteData.stock_id =
      (file.records.map (EncodedQuote.value store)).map QuoteData.stock_id := by
    apply List.ext_getElem?
    intro turn
    simp only [elements, List.getElem?_map, List.getElem?_mapIdx, Option.map_map,
      Function.comp_def, EncodedQuote.readAs_stock_id, EncodedQuote.value_stock_id]
  have distinct : ((file.records.map (EncodedQuote.value store)).map QuoteData.stock_id).Nodup := by
    rw [List.map_map]
    exact file.distinct
  have keys : (file.records.map (EncodedQuote.value store)).map QuoteData.key =
      file.records.map fun record => record.stock_id.chars.drop 2 := List.map_map
  rw [← keys, ← insertAll_holds_iff same distinct]
  have ended := fun turns => exec_from_stream advances store turns memory file standing
  constructor
  · rintro ⟨turns, read, returned, holds⟩ value member
    obtain ⟨record, recorded, rfl⟩ := List.mem_map.mp member
    rw [ended] at returned
    split at returned
    next =>
      cases returned
      exact holds record recorded
    next => cases returned
  · intro holds
    have enough := ended (file.records.length + 1)
    rw [if_pos (Nat.lt_succ_self _)] at enough
    refine ⟨_, _, enough, ?_⟩
    intro record member
    exact holds _ (List.mem_map_of_mem member)

/-- A file is read without loss exactly if no two records have a `stock_id` with the same
third and further characters, and each record has a `pe` that is what its `pb` makes with
three digits and a `pb` that was in memory before. -/
theorem readWithoutLoss_iff {source : σ} (standing : stands source file.encode) :
    file.ReadWithoutLoss store memory source ↔
      (file.records.map fun record => record.stock_id.chars.drop 2).Nodup ∧
        ∀ turn record, file.records[turn]? = some record →
          store (Digit.quotient 3 record.pb.toInt) = store (Digit.quotient 3 record.pe.toInt) ∧
            memory turn = store (Digit.quotient 2 record.pb.toInt) := by
  rw [readWithoutLoss_iff_elements store advances memory file standing, and_comm]
  apply and_congr_right
  intro _
  rw [elements, List.mapIdx_eq_iff]
  apply forall_congr'
  intro turn
  rw [List.getElem?_map]
  cases file.records[turn]? with
  | none => simp only [Option.map_none, reduceCtorEq, IsEmpty.forall_iff, implies_true]
  | some record =>
      simp only [Option.map_some, Option.some.injEq, forall_eq']
      rw [eq_comm, readAs_eq_value_iff]

end WithoutLoss

/-- A record whose numbers are all zero. -/
def blank (stock_id : Text) : EncodedQuote :=
  let text : Text := ⟨[], by decide⟩
  let large : EncodedLargeInt := ⟨0, 0, by decide⟩
  ⟨stock_id, text, 0, 0, 0, 0, 0, 0, 0, 0, large, large, 0, 0, 0, 0, 0, large, 0, 0, 0, 0, 0, 0, 0,
    0, text, text, 0⟩

/-- The characters `sh1`. -/
def sh : Text := ⟨[115, 104, 49], by decide⟩

/-- The characters `sz1`. -/
def sz : Text := ⟨[115, 122, 49], by decide⟩

def header : EncodedHeader := ⟨⟨[], by decide⟩, 0⟩

/-- The record with a `pe` of 1000 and no `pb`. -/
def onePe : QuotesFile where
  header := header
  records := [{ blank sh with pe := 3000 }]
  distinct := by decide
  long := by decide

/-- Two markets, one number. -/
def twoMarkets : QuotesFile where
  header := header
  records := [blank sh, blank sz]
  distinct := by decide
  long := by decide

/-- A record with something in each field; `volume` and the like have one hexadecimal zero left
out. -/
def filled (stock_id : Text) (pe pb : Int32) : EncodedQuote :=
  let text : Text := ⟨[80, 65], by decide⟩
  let large : EncodedLargeInt := ⟨0x20000003, 48, by decide⟩
  ⟨stock_id, text, 12340, 12350, 12300, 12290, 12400, 12200, 9876, -5, large, large, 13530, 11070,
    31, 29, 4567, large, -8, 3, 700, 600, 650, pe, 321, pb, text, text, -12⟩

/-- Two records of distinct numbers, each with a `pb` that makes its `pe`. -/
def twoFilled : QuotesFile where
  header := ⟨⟨[100], by decide⟩, 20160229⟩
  records := [filled sh 46 45, filled ⟨[115, 122, 50], by decide⟩ 91 90]
  distinct := by decide
  long := by decide

def opened (file : QuotesFile) (fits : file.encode.length < 2 ^ 63) : InputFile :=
  InputFile.new ⟨file.encode, fits⟩

theorem readWithoutLoss_twoFilled :
    twoFilled.ReadWithoutLoss id (fun turn => if turn = 0 then 22 else 45)
      (opened twoFilled (by decide +kernel)) := by
  apply (readWithoutLoss_iff id InputFile.advances _ twoFilled (InputFile.stands_new _)).mpr
  constructor
  · decide
  · intro turn record at_turn
    match turn with
    | 0 =>
        cases at_turn
        decide
    | 1 =>
        cases at_turn
        decide
    | turn + 2 => cases at_turn

set_option maxRecDepth 2048 in
/-- The `pe` of the first file comes out as zero; the second file leaves one record. -/
theorem not_readWithoutLoss :
    ¬ onePe.ReadWithoutLoss id (fun _ => 0) (opened onePe (by decide)) ∧
      ¬ twoMarkets.ReadWithoutLoss id (fun _ => 0) (opened twoMarkets (by decide)) := by
  constructor
  · rw [readWithoutLoss_iff_elements id InputFile.advances _ onePe (InputFile.stands_new _)]
    rintro ⟨same, -⟩
    have pe := congrArg (List.map QuoteData.pe) same
    exact absurd pe (by decide)
  · rw [readWithoutLoss_iff_elements id InputFile.advances _ twoMarkets (InputFile.stands_new _)]
    rintro ⟨-, unique⟩
    exact absurd unique (by decide)

end StdPrograms.Money

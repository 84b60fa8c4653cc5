import StdPrograms.Ouou.Message.ResponseRoundTrip

/-!
Contract: the broker queues of 5515 on the wire.

Owns what a decoded attribute list holds, the length of a decoded counted array,
and the exact condition under which the two queues of a 5515 survive the wire.

The class counts both queues by `sell_num`, so a decoded message has two queues of
one length. Queues of two lengths are encoded whole, and do not come back.
-/

namespace StdPrograms.Ouou

open StdPrograms.Foundation BinaryObject

/-! ### What a decoded object holds -/

/-- The attributes that are decoded leave the other ones alone. -/
theorem readAttributes_keeps {attrs : List Attribute} {self final : Obj} {reader after : Reader}
    (decoded : reader.decode (readAttributes attrs self) = .ok (final, after)) {name : String}
    (other : name ∉ names attrs) : final.get name = self.get name := by
  induction attrs generalizing self reader with
  | nil =>
      cases Except.ok.inj decoded
      rfl
  | cons attr rest inductionHypothesis =>
      rw [names, List.map_cons, List.mem_cons, not_or] at other
      rw [readAttributes] at decoded
      split at decoded
      next =>
        obtain ⟨value, middle, -, decoded⟩ :=
          (ReadProgram.run_bind_eq_ok Reader.read_bytes).mp decoded
        rw [inductionHypothesis decoded other.2, Obj.get_set_other _ _ other.1]
      next => exact inductionHypothesis decoded other.2

/-- An unconditional attribute holds what its type decoded, for an owner that has the
attributes before it. -/
theorem readAttributes_holds {before rest : List Attribute} {attr : Attribute} {self final : Obj}
    {reader after : Reader} (fresh : attr.name ∉ names rest)
    (unconditional : attr.condition = none)
    (decoded : reader.decode (readAttributes (before ++ attr :: rest) self) = .ok (final, after)) :
    ∃ (owner : Obj) (value : Val) (middle last : Reader),
      middle.decode (attr.type.fromstream owner) = .ok (value, last) ∧
      final.get attr.name = some value ∧
      ∀ name ≠ attr.name, name ∉ names rest → owner.get name = final.get name := by
  induction before generalizing self reader with
  | nil =>
      have active : attr.active self = true := by
        simp only [Attribute.active, unconditional]
      rw [List.nil_append, readAttributes, if_pos active] at decoded
      obtain ⟨value, middle, first, decoded⟩ :=
        (ReadProgram.run_bind_eq_ok Reader.read_bytes).mp decoded
      refine ⟨self, value, reader, middle, first, ?_, fun name different other => ?_⟩
      · rw [readAttributes_keeps decoded fresh, Obj.get_set_self]
      · rw [readAttributes_keeps decoded other, Obj.get_set_other _ _ different]
  | cons head before inductionHypothesis =>
      rw [List.cons_append, readAttributes] at decoded
      split at decoded
      next =>
        obtain ⟨value, middle, -, decoded⟩ :=
          (ReadProgram.run_bind_eq_ok Reader.read_bytes).mp decoded
        exact inductionHypothesis decoded
      next => exact inductionHypothesis decoded

/-- The attributes of a decoded message are those that its class decoded. -/
theorem Message.allfrombytes_body {package : Package} {buf : Bytes} {c2s : Bool}
    {decoded : Message} (parsed : allfrombytes package buf c2s = .ok (some decoded))
    (plain : decoded.cls.multiple = false) :
    ∃ reader after : Reader,
      reader.decode decoded.cls.body = .ok (decoded.attributes, after) := by
  rw [allfrombytes, allfromstream] at parsed
  split at parsed
  next => cases parsed
  next =>
    obtain ⟨⟨header, after⟩, -, parsed⟩ := exceptBind_eq_ok.mp parsed
    dsimp only at parsed
    split at parsed
    next => cases parsed
    next =>
      obtain ⟨⟨message, last⟩, read, parsed⟩ := exceptBind_eq_ok.mp parsed
      cases Except.ok.inj parsed
      rw [fromstream] at read
      split at read
      next =>
        cases Except.ok.inj read
        exact ⟨after, after, rfl⟩
      next =>
        obtain ⟨reader, -, read⟩ := exceptBind_eq_ok.mp read
        obtain ⟨cls, -, read⟩ := exceptBind_eq_ok.mp read
        rw [MessageClass._fromstream] at read
        split at read
        next multiple =>
          split at read
          next => cases read
          next =>
            cases Except.ok.inj read
            exact absurd (multiple.symm.trans plain) (by simp)
        next =>
          obtain ⟨⟨attributes, last⟩, body, read⟩ := exceptBind_eq_ok.mp read
          cases Except.ok.inj read
          exact ⟨reader, _, body⟩

/-- A decoded counted array has as many elements as its owner says. -/
theorem VarArray.length_of_fromstream {size_name : String} {elem_cls : WireType} {owner : Obj}
    {reader after : Reader} {value : Val}
    (decoded : reader.decode (VarArray.fromstream size_name elem_cls owner) = .ok (value, after)) :
    ∃ (size : ℤ) (values : List Val), owner.get size_name = some (.int size) ∧
      value = .list values ∧ values.length = size.toNat := by
  obtain ⟨size, middle, counted, decoded⟩ :=
    (ReadProgram.run_bind_eq_ok Reader.read_bytes).mp decoded
  obtain ⟨values, last, read, decoded⟩ := (ReadProgram.run_bind_eq_ok Reader.read_bytes).mp decoded
  cases Except.ok.inj decoded
  rw [VarArray.count] at counted
  split at counted
  next found =>
    cases Except.ok.inj counted
    exact ⟨size, values, found, rfl, ReadProgram.length_of_times Reader.read_bytes read⟩
  next => cases counted
  next => cases counted

/-! ### Queues -/

/-- A tuple or a `QueueData` of 'B' or 'S' and a 16-bit number. -/
def QueueData.Pair (pair : Val) : Prop :=
  ∃ (flag : Char) (broker_no : ℕ), (flag = 'B' ∨ flag = 'S') ∧ broker_no < 2 ^ 16 ∧
    pair.iter = some [.str [flag], .int broker_no]

/-- A value that yields as many values as there are attributes makes an object. -/
theorem coerce_row {attrs : List Attribute} {value : Val} {values : List Val}
    (distinct : (names attrs).Nodup) (count : attrs.length = values.length)
    (yields : value.iter = some values) :
    ∃ self, coerce attrs value = .ok self ∧ Holds attrs self values := by
  have made : ∃ self, coerce attrs value = .ok self := by
    obtain ⟨row, initialized, -⟩ := init_row distinct count
    have fromRow : fromIterable attrs value = .ok row := by
      rw [fromIterable_of_iter yields, initialized]
    cases value with
    | obj own attributes =>
        rw [coerce]
        split
        · exact ⟨_, rfl⟩
        · exact ⟨row, fromRow⟩
    | list items => exact ⟨row, fromRow⟩
    | none | int | str | price => cases yields
  obtain ⟨self, coerced⟩ := made
  exact ⟨self, coerced, coerce_holds distinct count yields coerced⟩

theorem QueueData.Pair.inRange {pair : Val} (isPair : QueueData.Pair pair) :
    Wire.QueueData.inRange [] pair := by
  obtain ⟨flag, broker_no, -, below, yields⟩ := isPair
  have distinct : (names QueueData.attributes_info).Nodup := by decide
  obtain ⟨self, coerced, holds⟩ := coerce_row distinct rfl yields
  have fits : UShort.format.Holds (broker_no : ℤ) := by
    have width : UShort.format.size = 2 := rfl
    simp only [IntFormat.Holds, UShort.format, modulus]
    exact ⟨Int.natCast_nonneg _, by exact_mod_cast below⟩
  cases holds with
  | cons hasFlag tail =>
      cases tail with
      | cons hasNumber last =>
          cases last
          exact ⟨self, _, coerced, yields,
            .cons ⟨hasFlag, trivial⟩ (.cons ⟨hasNumber, _, rfl, fits⟩ .nil)⟩

namespace Response_5515

variable {host : Host} {attributes : Obj} {buy_queue sell_queue : List Val} {bytes : Bytes}

/-- A 5515 with these queues, counted by `buy_num` and `sell_num`. -/
structure Holds (attributes : Obj) (buy_queue sell_queue : List Val) : Prop where
  buy_num : attributes.get "buy_num" = some (.int (buy_queue.length : ℤ))
  sell_num : attributes.get "sell_num" = some (.int (sell_queue.length : ℤ))
  buy : attributes.get "buy_queue" = some (.list buy_queue)
  sell : attributes.get "sell_queue" = some (.list sell_queue)
  buyPairs : ∀ pair ∈ buy_queue, QueueData.Pair pair
  sellPairs : ∀ pair ∈ sell_queue, QueueData.Pair pair

/-- The message decodes to a 5515 with equal queues. -/
def QueuesSurvive (host : Host) (buy_queue sell_queue : List Val) (bytes : Bytes) : Prop :=
  ∃ (decoded : Message) (buy sell : Val),
    Message.allfrombytes (package host) bytes false = .ok (some decoded) ∧
    decoded.cls = Response_5515 host ∧
    decoded.attributes.get "buy_queue" = some buy ∧ Val.Same buy (.list buy_queue) ∧
    decoded.attributes.get "sell_queue" = some sell ∧ Val.Same sell (.list sell_queue)

/-- Queues of one length are what `sell_num` says. -/
theorem Holds.inRange (holds : Holds attributes buy_queue sell_queue)
    (sameLength : buy_queue.length = sell_queue.length)
    (encoded : (((Response_5515 host).new attributes).tobytes false).2 = .ok bytes) :
    (Response_5515 host).InRange attributes := by
  obtain ⟨body, bodyBytes⟩ := body_of_tobytes rfl rfl encoded
  intro attr member active
  obtain ⟨value, b, found, written⟩ := body2bytes_encodes bodyBytes attr member active
  have checkedOrQueue : attr.type.Checked ∨
      attr = { name := "buy_queue", type := Wire.StockQueue "sell_num" } ∨
      attr = { name := "sell_queue", type := Wire.StockQueue "sell_num" } := by
    revert attr
    simp [Response_5515]
  rcases checkedOrQueue with checked | rfl | rfl
  · exact ⟨value, found, checked attributes value b written⟩
  · exact ⟨.list buy_queue, holds.buy, buy_queue, rfl, by rw [holds.sell_num, sameLength],
      fun pair isMember => (holds.buyPairs pair isMember).inRange⟩
  · exact ⟨.list sell_queue, holds.sell, sell_queue, rfl, holds.sell_num,
      fun pair isMember => (holds.sellPairs pair isMember).inRange⟩

/-- Both queues of a decoded message have `sell_num` elements. -/
theorem queues_sameLength {decoded : Message}
    (parsed : Message.allfrombytes (package host) bytes false = .ok (some decoded))
    (sameClass : decoded.cls = Response_5515 host) :
    ∃ buy sell : List Val, decoded.attributes.get "buy_queue" = some (.list buy) ∧
      decoded.attributes.get "sell_queue" = some (.list sell) ∧ buy.length = sell.length := by
  obtain ⟨reader, after, body⟩ := Message.allfrombytes_body parsed (by rw [sameClass]; rfl)
  rw [sameClass] at body
  obtain ⟨start, middle, -, read⟩ := (ReadProgram.run_bind_eq_ok Reader.read_bytes).mp body
  have queue (before rest : List Attribute) (name : ClassName)
      (split : (Response_5515 host).attributes_info =
        before ++ { name := name, type := Wire.StockQueue "sell_num" } :: rest)
      (fresh : name ∉ names rest) (different : "sell_num" ≠ name)
      (decodedBefore : "sell_num" ∉ names rest) :
      ∃ (size : ℤ) (values : List Val), decoded.attributes.get "sell_num" = some (.int size) ∧
        decoded.attributes.get name = some (.list values) ∧ values.length = size.toNat := by
    rw [split] at read
    obtain ⟨owner, value, queueStart, queueEnd, decodedQueue, isValue, agree⟩ :=
      readAttributes_holds fresh rfl read
    obtain ⟨size, values, isSize, rfl, length⟩ := VarArray.length_of_fromstream decodedQueue
    exact ⟨size, values, (agree _ different decodedBefore).symm.trans isSize, isValue, length⟩
  obtain ⟨size, buy, isSize, isBuy, buyLength⟩ :=
    queue ((Response_5515 host).attributes_info.take 5)
      [{ name := "sell_queue", type := Wire.StockQueue "sell_num" }] "buy_queue" rfl
      (by simp [names]) (by simp) (by simp [names])
  obtain ⟨size', sell, isSize', isSell, sellLength⟩ :=
    queue ((Response_5515 host).attributes_info.take 6) [] "sell_queue" rfl
      (by simp [names]) (by simp) (by simp [names])
  cases Option.some.inj (isSize.symm.trans isSize')
  exact ⟨buy, sell, isBuy, isSell, buyLength.trans sellLength.symm⟩

theorem QueuesSurvive.sameLength (survive : QueuesSurvive host buy_queue sell_queue bytes) :
    buy_queue.length = sell_queue.length := by
  obtain ⟨decoded, buy, sell, parsed, sameClass, isBuy, sameBuy, isSell, sameSell⟩ := survive
  obtain ⟨buys, sells, isBuys, isSells, sameLength⟩ := queues_sameLength parsed sameClass
  cases Option.some.inj (isBuy.symm.trans isBuys)
  cases Option.some.inj (isSell.symm.trans isSells)
  cases sameBuy with
  | list buyItems =>
      cases sameSell with
      | list sellItems => rw [← buyItems.length_eq, ← sellItems.length_eq, sameLength]

theorem Holds.queuesSurvive (holds : Holds attributes buy_queue sell_queue)
    (sameLength : buy_queue.length = sell_queue.length)
    (encoded : (((Response_5515 host).new attributes).tobytes false).2 = .ok bytes) :
    QueuesSurvive host buy_queue sell_queue bytes := by
  have member : Response_5515 host ∈ responseClasses host := by simp [responseClasses]
  obtain ⟨decoded, parsed, sameClass, same, -⟩ :=
    response_roundTrip host member (by simp [Response_5515, MSG_TYPE_MULTI])
      (holds.inRange sameLength encoded) encoded
  obtain ⟨value, buy, found, isBuy, sameBuy, -⟩ :=
    same { name := "buy_queue", type := Wire.StockQueue "sell_num" } (by simp [Response_5515]) rfl
  cases Option.some.inj (found.symm.trans holds.buy)
  obtain ⟨value, sell, found, isSell, sameSell, -⟩ :=
    same { name := "sell_queue", type := Wire.StockQueue "sell_num" } (by simp [Response_5515]) rfl
  cases Option.some.inj (found.symm.trans holds.sell)
  exact ⟨decoded, buy, sell, parsed, sameClass, isBuy, sameBuy, isSell, sameSell⟩

/-- The queues of an encoded 5515 come back exactly when they have one length. -/
theorem queuesSurvive_iff (holds : Holds attributes buy_queue sell_queue)
    (encoded : (((Response_5515 host).new attributes).tobytes false).2 = .ok bytes) :
    QueuesSurvive host buy_queue sell_queue bytes ↔ buy_queue.length = sell_queue.length :=
  ⟨QueuesSurvive.sameLength, fun sameLength => holds.queuesSurvive sameLength encoded⟩

/-- A message with these queues, with nothing else to tell. -/
def ofQueues (buy_queue sell_queue : List Val) : Obj :=
  [("pid", .int 1), ("stock_id", .str []), ("req_num", .int 0),
    ("buy_num", .int (buy_queue.length : ℤ)), ("sell_num", .int (sell_queue.length : ℤ)),
    ("buy_queue", .list buy_queue), ("sell_queue", .list sell_queue)]

theorem holds_ofQueues (buyPairs : ∀ pair ∈ buy_queue, QueueData.Pair pair)
    (sellPairs : ∀ pair ∈ sell_queue, QueueData.Pair pair) :
    Holds (ofQueues buy_queue sell_queue) buy_queue sell_queue :=
  ⟨rfl, rfl, rfl, rfl, buyPairs, sellPairs⟩

/-- One bid and one offer. -/
theorem queuesSurvive_one_each :
    QueuesSurvive asciiHost [.list [.str ['B'], .int 200]] [.list [.str ['S'], .int 30]]
      [0x7b, 0x8b, 0x15, 0, 0, 13, 0, 1, 0, 0, 0, 0, 1, 1, 66, 200, 0, 83, 30, 0, 0x7d] := by
  have bid : ∀ pair ∈ [Val.list [.str ['B'], .int 200]], QueueData.Pair pair := by
    intro pair member
    cases List.mem_singleton.mp member
    exact ⟨'B', 200, .inl rfl, by decide, rfl⟩
  have offer : ∀ pair ∈ [Val.list [.str ['S'], .int 30]], QueueData.Pair pair := by
    intro pair member
    cases List.mem_singleton.mp member
    exact ⟨'S', 30, .inr rfl, by decide, rfl⟩
  have encoded : (((Response_5515 asciiHost).new (ofQueues [.list [.str ['B'], .int 200]]
      [.list [.str ['S'], .int 30]])).tobytes false).2 =
        .ok [0x7b, 0x8b, 0x15, 0, 0, 13, 0, 1, 0, 0, 0, 0, 1, 1, 66, 200, 0, 83, 30, 0, 0x7d] := by
    decide +kernel
  exact (queuesSurvive_iff (holds_ofQueues bid offer) encoded).mpr rfl

/-- One bid and no offer: the bid is encoded, and decoded as no bid. -/
theorem not_queuesSurvive_one_bid :
    Holds (ofQueues [.list [.str ['B'], .int 200]] []) [.list [.str ['B'], .int 200]] [] ∧
    (((Response_5515 asciiHost).new
      (ofQueues [.list [.str ['B'], .int 200]] [])).tobytes false).2 =
        .ok [0x7b, 0x8b, 0x15, 0, 0, 10, 0, 1, 0, 0, 0, 0, 1, 0, 66, 200, 0, 0x7d] ∧
    ¬ QueuesSurvive asciiHost [.list [.str ['B'], .int 200]] []
      [0x7b, 0x8b, 0x15, 0, 0, 10, 0, 1, 0, 0, 0, 0, 1, 0, 66, 200, 0, 0x7d] := by
  refine ⟨holds_ofQueues (fun pair member => ?_) (by simp), by decide +kernel, fun survive => ?_⟩
  · cases List.mem_singleton.mp member
    exact ⟨'B', 200, .inl rfl, by decide, rfl⟩
  · exact absurd survive.sameLength (by decide)

end Response_5515

end StdPrograms.Ouou

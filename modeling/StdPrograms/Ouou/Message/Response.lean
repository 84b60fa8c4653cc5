import StdPrograms.Ouou.Message.ResponseTypes
import StdPrograms.Ouou.Message.RoundTrip

/-!
Contract: the response and push classes of `message/response.py` and their two
registries.

A response class also serves pushes of its identifier, unless a push class of
that identifier is registered.

Does not own requests.
-/

namespace StdPrograms.Ouou

open StdPrograms.Foundation

/-! ### Objects inside responses -/

def TimeTrend.all_fields_info : FieldTable :=
  .ofFields
    [ { name := "date_time", type := Wire.Int },
      { name := "open_price", type := Wire.UInt },
      { name := "highest_price", type := Wire.UInt },
      { name := "lowest_price", type := Wire.UInt },
      { name := "close_price", type := Wire.UInt },
      { name := "avg_price", type := Wire.UInt },
      { name := "volume", type := Wire.LargeInt },
      { name := "amount", type := Wire.LargeInt },
      { name := "tick_count", type := Wire.UInt },
      { name := "sellvol", type := Wire.LargeInt },
      { name := "inventory", type := Wire.LargeInt },
      { name := "inventory_change", type := Wire.LargeInt },
      { name := "settlement_price", type := Wire.UInt },
      { name := "buyvol", type := Wire.LargeInt } ]
    (of_decide_eq_true rfl)

def TimeTrend.attributes_info : List Attribute :=
  [ { name := "fields", type := Wire.ByteVector },
    { name := "need_clear_local", type := Wire.Byte },
    { name := "total_num", type := Wire.UShort },
    { name := "data", type := Wire.VarFieldsVector UShort.format TimeTrend.all_fields_info } ]

def Wire.TimeTrend : Codec :=
  Wire.Object "TimeTrend" TimeTrend.attributes_info (of_decide_eq_true rfl) (by simp [TimeTrend.attributes_info])
    ⟨_, rfl⟩

def Response_5504_data.attributes_info : List Attribute :=
  [ { name := "nth_start_day", type := Wire.Byte },
    { name := "start_time", type := Wire.UShort },
    { name := "nth_end_day", type := Wire.Byte },
    { name := "end_time", type := Wire.UShort } ]

def Wire.Response_5504_data : Codec :=
  Wire.Object "response_5504_data" Response_5504_data.attributes_info (of_decide_eq_true rfl) (by simp [Response_5504_data.attributes_info])
    ⟨_, rfl⟩

def Response_5506_data.attributes_info (host : Host) : List Attribute :=
  [ { name := "market_id", type := Wire.UShort },
    { name := "security_id", type := Wire.String host },
    { name := "security_name", type := Wire.GBKString host },
    { name := "jian_pin", type := Wire.GBKString host },
    { name := "type", type := Wire.Byte },
    { name := "flag", type := Wire.Byte },
    { name := "inc_id", type := Wire.UInt } ]

def Wire.Response_5506_data (host : Host) : Codec :=
  Wire.Object "Response_5506_data" (Response_5506_data.attributes_info host) (of_decide_eq_true rfl) (by simp [Response_5506_data.attributes_info])
    ⟨_, rfl⟩

def Response_5519_data.attributes_info : List Attribute :=
  [ { name := "date_time", type := Wire.Int },
    { name := "open_price", type := Wire.Int },
    { name := "highest_price", type := Wire.Int },
    { name := "lowest_price", type := Wire.Int },
    { name := "close_price", type := Wire.Int },
    { name := "volume", type := Wire.LargeInt },
    { name := "amount", type := Wire.LargeInt } ]

def Wire.Response_5519_data : Codec :=
  Wire.Object "response_5519_data" Response_5519_data.attributes_info (of_decide_eq_true rfl) (by simp [Response_5519_data.attributes_info])
    ⟨_, rfl⟩

def Response_5501.all_fields_info (host : Host) : FieldTable :=
  .ofFields
    [ { name := "date_time", type := Wire.Int },
      { name := "stock_id", type := Wire.String host },
      { name := "stock_name", type := Wire.GBKString host },
      { name := "stock_code", type := Wire.String host },
      { name := "market_code", type := Wire.UShort },
      { name := "market_type", type := Wire.UShort },
      { name := "trade_flag", type := Wire.Byte },
      { name := "close_price", type := Wire.MarketPrice get_market UInt.format },
      { name := "open_price", type := Wire.MarketPrice get_market UInt.format },
      { name := "highest_price", type := Wire.MarketPrice get_market UInt.format },
      { name := "lowest_price", type := Wire.MarketPrice get_market UInt.format },
      { name := "latest_price", type := Wire.MarketPrice get_market UInt.format },
      { name := "volume", type := Wire.LargeInt },
      { name := "amount", type := Wire.LargeInt },
      { name := "trade_count", type := Wire.UInt },
      { name := "sellvol", type := Wire.LargeInt },
      { name := "newvol", type := Wire.LargeInt },
      { name := "newvol_direction", type := Wire.Byte },
      { name := "open_interest_change", type := Wire.LargeInt },
      { name := "avg_price", type := Wire.DigitInt 4 },
      { name := "open_interest", type := Wire.LargeInt },
      { name := "settlement_price", type := Wire.UInt },
      { name := "last_open_interest", type := Wire.LargeInt },
      { name := "last_settlement_price", type := Wire.UInt },
      { name := "limit_up_price", type := Wire.UInt },
      { name := "limit_down_price", type := Wire.UInt },
      { name := "bid1_price", type := Wire.UInt },
      { name := "bid1_volume", type := Wire.UInt },
      { name := "sell1_price", type := Wire.UInt },
      { name := "sell1_volume", type := Wire.UInt },
      { name := "bid_sell_5", type := Wire.BusinessLevel 5 },
      { name := "bid_sell_10", type := Wire.BusinessLevel 10 },
      { name := "change_percent", type := Wire.DigitInt 2 },
      { name := "change_value", type := Wire.Int },
      { name := "price_digits", type := Wire.Byte },
      { name := "display_digits", type := Wire.Byte },
      { name := "buyvol", type := Wire.LargeInt },
      { name := "profit", type := Wire.DigitInt 3 },
      { name := "pe_ratio", type := Wire.DigitInt 3 },
      { name := "net_assets", type := Wire.DigitInt 3 },
      { name := "pb_ratio", type := Wire.DigitInt 3 },
      { name := "total_stocks", type := Wire.LargeInt },
      { name := "hk_stocks", type := Wire.LargeInt },
      { name := "total_value", type := Wire.LargeInt },
      { name := "hk_value", type := Wire.LargeInt },
      { name := "turnover_rate", type := Wire.DigitInt 4 },
      { name := "reverse_currency", type := Wire.Int },
      { name := "hgt_flag", type := Wire.Byte },
      { name := "52_week_highest", type := Wire.UInt },
      { name := "52_week_lowest", type := Wire.UInt },
      { name := "amplitude", type := Wire.DigitInt 2 } ]
    (of_decide_eq_true rfl)

def Response_5503.all_fields_info : FieldTable :=
  .ofFields
    [ { name := "date", type := Wire.UInt },
      { name := "time", type := Wire.UInt },
      { name := "price", type := Wire.UInt },
      { name := "volume", type := Wire.LargeInt },
      { name := "tickcount", type := Wire.UInt },
      { name := "change", type := Wire.LargeInt },
      { name := "deal_type", type := Wire.Byte },
      { name := "flag", type := Wire.Byte } ]
    (of_decide_eq_true rfl)

def Response_5512.all_fields_info (host : Host) : FieldTable :=
  .ofFields
    [ { name := "bid10_price", type := Wire.PriceSeat },
      { name := "bid9_volume", type := Wire.LargeInt },
      { name := "bid9_price", type := Wire.PriceSeat },
      { name := "bid8_volume", type := Wire.LargeInt },
      { name := "bid8_price", type := Wire.PriceSeat },
      { name := "bid7_volume", type := Wire.LargeInt },
      { name := "bid7_price", type := Wire.PriceSeat },
      { name := "bid6_volume", type := Wire.LargeInt },
      { name := "bid6_price", type := Wire.PriceSeat },
      { name := "bid5_volume", type := Wire.LargeInt },
      { name := "bid5_price", type := Wire.PriceSeat },
      { name := "bid4_volume", type := Wire.LargeInt },
      { name := "bid4_price", type := Wire.PriceSeat },
      { name := "bid3_volume", type := Wire.LargeInt },
      { name := "bid3_price", type := Wire.PriceSeat },
      { name := "bid2_volume", type := Wire.LargeInt },
      { name := "bid2_price", type := Wire.PriceSeat },
      { name := "bid1_volume", type := Wire.LargeInt },
      { name := "bid1_price", type := Wire.PriceSeat },
      { name := "bid0_volume", type := Wire.LargeInt },
      { name := "ask10_price", type := Wire.PriceSeat },
      { name := "ask10_volume", type := Wire.LargeInt },
      { name := "ask9_price", type := Wire.PriceSeat },
      { name := "ask9_volume", type := Wire.LargeInt },
      { name := "ask8_price", type := Wire.PriceSeat },
      { name := "ask8_volume", type := Wire.LargeInt },
      { name := "ask7_price", type := Wire.PriceSeat },
      { name := "ask7_volume", type := Wire.LargeInt },
      { name := "ask6_price", type := Wire.PriceSeat },
      { name := "ask6_volume", type := Wire.LargeInt },
      { name := "ask5_price", type := Wire.PriceSeat },
      { name := "ask5_volume", type := Wire.LargeInt },
      { name := "ask4_price", type := Wire.PriceSeat },
      { name := "ask4_volume", type := Wire.LargeInt },
      { name := "ask3_price", type := Wire.PriceSeat },
      { name := "ask3_volume", type := Wire.LargeInt },
      { name := "ask2_price", type := Wire.PriceSeat },
      { name := "ask2_volume", type := Wire.LargeInt },
      { name := "ask1_price", type := Wire.PriceSeat },
      { name := "ask1_volume", type := Wire.LargeInt },
      { name := "bid_ask_5", type := Wire.BusinessLevel 5 },
      { name := "bid_ask_10", type := Wire.BusinessLevel 10 },
      { name := "bid_ask_1", type := Wire.BusinessLevel 1 },
      { name := "date_time", type := Wire.Int },
      { name := "stock_id", type := Wire.String host },
      { name := "stock_name", type := Wire.GBKString host },
      { name := "stock_code", type := Wire.String host },
      { name := "market_code", type := Wire.UShort },
      { name := "market_type", type := Wire.UShort },
      { name := "trade_flag", type := Wire.Byte },
      { name := "close_price", type := Wire.UInt },
      { name := "open_price", type := Wire.UInt },
      { name := "highest_price", type := Wire.UInt },
      { name := "lowest_price", type := Wire.UInt },
      { name := "latest_price", type := Wire.Int },
      { name := "volume", type := Wire.LargeInt },
      { name := "amount", type := Wire.LargeInt },
      { name := "trade_count", type := Wire.UInt },
      { name := "sellvol", type := Wire.LargeInt },
      { name := "newvol", type := Wire.LargeInt },
      { name := "newvol_direction", type := Wire.Byte },
      { name := "open_interest_change", type := Wire.LargeInt },
      { name := "avg_price", type := Wire.Int },
      { name := "open_interest", type := Wire.LargeInt },
      { name := "settlement_price", type := Wire.UInt },
      { name := "last_open_interest", type := Wire.LargeInt },
      { name := "last_settlement_price", type := Wire.UInt },
      { name := "limit_up_price", type := Wire.UInt },
      { name := "limit_down_price", type := Wire.UInt },
      { name := "change_price_percent", type := Wire.DigitInt 2 },
      { name := "change_price", type := Wire.Int },
      { name := "price_digits", type := Wire.Byte },
      { name := "display_digits", type := Wire.Byte },
      { name := "buyvol", type := Wire.LargeInt },
      { name := "profit", type := Wire.DigitInt 3 },
      { name := "pe_ratio", type := Wire.DigitInt 3 },
      { name := "net_assets", type := Wire.DigitInt 3 },
      { name := "pb_ratio", type := Wire.DigitInt 3 },
      { name := "total_share", type := Wire.LargeInt },
      { name := "hk_share", type := Wire.LargeInt },
      { name := "total_value", type := Wire.LargeInt },
      { name := "hk_value", type := Wire.LargeInt },
      { name := "turnover_rate", type := Wire.DigitInt 4 },
      { name := "reverse_currency", type := Wire.Int },
      { name := "hgt_flag", type := Wire.Byte },
      { name := "52_week_highest", type := Wire.UInt },
      { name := "52_week_lowest", type := Wire.UInt },
      { name := "delta", type := Wire.DigitInt 3 } ]
    (of_decide_eq_true rfl)

def Push_5516_Data.attributes_info (host : Host) : List Attribute :=
  [ { name := "fields", type := Wire.ByteVector },
    { name := "fields_data", type := Wire.VarFields (Response_5501.all_fields_info host) } ]

def Wire.Push_5516_Data (host : Host) : Codec :=
  Wire.Object "Data" (Push_5516_Data.attributes_info host) (of_decide_eq_true rfl) (by simp [Push_5516_Data.attributes_info])
    ⟨_, rfl⟩

/-! ### Response classes -/

def Response_5500 : MessageClass where
  name := "Response_5500"
  MSG_ID := 5500
  attributes_info := []
  wellFormed := noAttributes_wellFormed
  constructs := noAttributes_construct
  multiple := true

def Response_5501 (host : Host) : MessageClass where
  name := "Response_5501"
  MSG_ID := 5501
  attributes_info :=
    [ { name := "request_extra", type := Wire.Byte },
      { name := "fields", type := Wire.ByteVector },
      { name := "data", type := Wire.VarFields (Response_5501.all_fields_info host) },
      { name := "extra", type := Wire.TimeTrend, condition := some "request_extra" } ]
  wellFormed := of_decide_eq_true rfl
  constructs := ⟨_, rfl⟩

def Response_5502 (host : Host) : MessageClass where
  name := "Response_5502"
  MSG_ID := 5502
  attributes_info :=
    [ { name := "pid", type := Wire.Byte },
      { name := "fields", type := Wire.ByteVector },
      { name := "total_num", type := Wire.UShort },
      { name := "data", type := Wire.VarFieldsVector UShort.format (Response_5501.all_fields_info host) } ]
  wellFormed := of_decide_eq_true rfl
  constructs := ⟨_, rfl⟩

def Response_5503 : MessageClass where
  name := "Response_5503"
  MSG_ID := 5503
  attributes_info :=
    [ { name := "close_price", type := Wire.UInt },
      { name := "data_pos", type := Wire.UInt },
      { name := "need_clear_local", type := Wire.Byte },
      { name := "fields", type := Wire.ByteVector },
      { name := "data", type := Wire.VarFieldsVector UShort.format Response_5503.all_fields_info } ]
  wellFormed := of_decide_eq_true rfl
  constructs := ⟨_, rfl⟩

def Response_5504 : MessageClass where
  name := "Response_5504"
  MSG_ID := 5504
  attributes_info :=
    [ { name := "data", type := Wire.Vector Byte.format Wire.Response_5504_data } ]
  wellFormed := of_decide_eq_true rfl
  constructs := ⟨_, rfl⟩

def Response_5505 : MessageClass where
  name := "Response_5505"
  MSG_ID := 5505
  attributes_info :=
    [ { name := "date", type := Wire.Int },
      { name := "time", type := Wire.Int } ]
  wellFormed := of_decide_eq_true rfl
  constructs := ⟨_, rfl⟩

def Response_5506 (host : Host) : MessageClass where
  name := "Response_5506"
  MSG_ID := 5506
  attributes_info :=
    [ { name := "result", type := Wire.Byte },
      { name := "server_inc_id", type := Wire.UInt },
      { name := "data", type := Wire.Vector UShort.format (Wire.Response_5506_data host) } ]
  wellFormed := of_decide_eq_true rfl
  constructs := ⟨_, rfl⟩

def Response_5508 : MessageClass where
  name := "Response_5508"
  MSG_ID := 5508
  attributes_info :=
    [ { name := "server_version", type := Wire.Int } ]
  wellFormed := of_decide_eq_true rfl
  constructs := ⟨_, rfl⟩

def Response_5509 : MessageClass where
  name := "Response_5509"
  MSG_ID := 5509
  attributes_info :=
    [ { name := "online_num", type := Wire.Int } ]
  wellFormed := of_decide_eq_true rfl
  constructs := ⟨_, rfl⟩

def Response_5510 : MessageClass where
  name := "Response_5510"
  MSG_ID := 5510
  attributes_info :=
    [ { name := "start_date", type := Wire.Int },
      { name := "start_time", type := Wire.Int } ]
  wellFormed := of_decide_eq_true rfl
  constructs := ⟨_, rfl⟩

def Response_5511 (host : Host) : MessageClass where
  name := "Response_5511"
  MSG_ID := 5511
  attributes_info :=
    [ { name := "stock_id", type := Wire.String host },
      { name := "pid", type := Wire.UShort },
      { name := "data", type := Wire.Vector Byte.format (Wire.Response_5511_Data host) } ]
  wellFormed := of_decide_eq_true rfl
  constructs := ⟨_, rfl⟩

def Response_5512 (host : Host) : MessageClass where
  name := "Response_5512"
  MSG_ID := 5512
  attributes_info :=
    [ { name := "pid", type := Wire.UShort },
      { name := "stock_id", type := Wire.String host },
      { name := "fields", type := Wire.ByteVector },
      { name := "data", type := Wire.VarFields (Response_5512.all_fields_info host) } ]
  wellFormed := of_decide_eq_true rfl
  constructs := ⟨_, rfl⟩

def Response_5513 (host : Host) : MessageClass where
  name := "Response_5513"
  MSG_ID := 5513
  attributes_info :=
    [ { name := "pid", type := Wire.UShort },
      { name := "stock_id", type := Wire.String host },
      { name := "td", type := Wire.TimeTrend } ]
  wellFormed := of_decide_eq_true rfl
  constructs := ⟨_, rfl⟩

def Response_5514 (host : Host) : MessageClass where
  name := "Response_5514"
  MSG_ID := 5514
  attributes_info :=
    [ { name := "pid", type := Wire.UShort },
      { name := "stock_id", type := Wire.String host },
      { name := "close_price", type := Wire.UInt },
      { name := "real_digit", type := Wire.Byte },
      { name := "show_digit", type := Wire.Byte },
      { name := "fields", type := Wire.ByteVector },
      { name := "need_clear_local", type := Wire.Byte },
      { name := "data_pos", type := Wire.UInt },
      { name := "total_num", type := Wire.UShort },
      { name := "data", type := Wire.VarFieldsVector UShort.format Response_5503.all_fields_info } ]
  wellFormed := of_decide_eq_true rfl
  constructs := ⟨_, rfl⟩

/-- Both queues are counted by `sell_num`. -/
def Response_5515 (host : Host) : MessageClass where
  name := "Response_5515"
  MSG_ID := 5515
  attributes_info :=
    [ { name := "pid", type := Wire.UShort },
      { name := "stock_id", type := Wire.String host },
      { name := "req_num", type := Wire.Byte },
      { name := "buy_num", type := Wire.Byte },
      { name := "sell_num", type := Wire.Byte },
      { name := "buy_queue", type := Wire.StockQueue "sell_num" },
      { name := "sell_queue", type := Wire.StockQueue "sell_num" } ]
  wellFormed := of_decide_eq_true rfl
  constructs := ⟨_, rfl⟩

def Response_5516 (host : Host) : MessageClass where
  name := "Response_5516"
  MSG_ID := 5516
  attributes_info :=
    [ { name := "pid", type := Wire.UShort },
      { name := "fields", type := Wire.ByteVector },
      { name := "total_num", type := Wire.UShort },
      { name := "data", type := Wire.VarFieldsVector UShort.format (Response_5501.all_fields_info host) } ]
  wellFormed := of_decide_eq_true rfl
  constructs := ⟨_, rfl⟩

def Response_5517 : MessageClass where
  name := "Response_5517"
  MSG_ID := 5517
  attributes_info :=
    [ { name := "pid", type := Wire.UShort } ]
  wellFormed := pid_wellFormed
  constructs := pid_construct

def Response_5518 (host : Host) : MessageClass where
  name := "Response_5518"
  MSG_ID := 5518
  attributes_info :=
    [ { name := "pid", type := Wire.UShort },
      { name := "result", type := Wire.Byte },
      { name := "broker_data", type := Wire.BrokerData host, condition := some "result" } ]
  wellFormed := of_decide_eq_true rfl
  constructs := ⟨_, rfl⟩

/-- Its `extra_parse` only changes how four prices are printed. -/
def Response_5519 (host : Host) : MessageClass where
  name := "Response_5519"
  MSG_ID := 5519
  attributes_info :=
    [ { name := "pid", type := Wire.UShort },
      { name := "stock_id", type := Wire.String host },
      { name := "need_clear_local_data", type := Wire.Byte },
      { name := "price_digits", type := Wire.Byte },
      { name := "display_digits", type := Wire.Byte },
      { name := "data", type := Wire.Vector UInt.format Wire.Response_5519_data } ]
  wellFormed := of_decide_eq_true rfl
  constructs := ⟨_, rfl⟩

/-! ### Push classes -/

def Push_5514 (host : Host) : MessageClass where
  name := "Push_5514"
  MSG_ID := 5514
  attributes_info :=
    [ { name := "pid", type := Wire.UShort },
      { name := "stock_id", type := Wire.String host },
      { name := "fields", type := Wire.ByteVector },
      { name := "need_clear_local", type := Wire.Byte },
      { name := "total_num", type := Wire.UShort },
      { name := "data", type := Wire.VarFieldsVector UShort.format Response_5503.all_fields_info } ]
  wellFormed := of_decide_eq_true rfl
  constructs := ⟨_, rfl⟩

def Push_5516 (host : Host) : MessageClass where
  name := "Push_5516"
  MSG_ID := 5516
  attributes_info :=
    [ { name := "pid", type := Wire.UShort },
      { name := "total_num", type := Wire.UShort },
      { name := "data", type := Wire.Vector UShort.format (Wire.Push_5516_Data host) } ]
  wellFormed := of_decide_eq_true rfl
  constructs := ⟨_, rfl⟩

/-! ### Registration -/

/-- A class definition, by its metaclass. -/
inductive ClassDefinition where
  | response (cls : MessageClass)
  | push (cls : MessageClass)

/-- `response_messages` and `push_messages`. -/
structure ResponseRegistry where
  response_messages : ClassDict := []
  push_messages : ClassDict := []

/-- `ResponseMeta.__new__` and `PushMeta.__new__`. The latter's duplicate check
compares the type of the dictionary with the metaclass and never fires. -/
def ResponseRegistry.define (registry : ResponseRegistry) : ClassDefinition → ResponseRegistry
  | .response cls =>
      { response_messages := registry.response_messages.set cls.MSG_ID cls
        push_messages :=
          if (registry.push_messages.get cls.MSG_ID).isSome then registry.push_messages
          else registry.push_messages.set cls.MSG_ID cls }
  | .push cls => { registry with push_messages := registry.push_messages.set cls.MSG_ID cls }

/-- The response classes, in the order of their definitions. -/
def responseClasses (host : Host) : List MessageClass :=
  [Response_5500, Response_5501 host, Response_5502 host, Response_5503, Response_5504,
    Response_5505, Response_5506 host, Response_5508, Response_5509, Response_5510,
    Response_5511 host, Response_5512 host, Response_5513 host, Response_5514 host,
    Response_5515 host, Response_5516 host, Response_5517, Response_5518 host,
    Response_5519 host]

/-- The push classes, defined after all responses. -/
def pushClasses (host : Host) : List MessageClass := [Push_5514 host, Push_5516 host]

def responseRegistry (host : Host) : ResponseRegistry :=
  ((responseClasses host).map ClassDefinition.response ++
    (pushClasses host).map ClassDefinition.push).foldl
    ResponseRegistry.define {}

end StdPrograms.Ouou

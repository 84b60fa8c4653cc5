import StdPrograms.Ouou.Message.RoundTrip
import StdPrograms.Ouou.Util.CompTypes

/-!
Contract: the request classes of `message/request.py` and their registry.

Does not own responses.
-/

namespace StdPrograms.Ouou

open StdPrograms.Foundation

def Request_5500 : MessageClass where
  name := "Request_5500"
  MSG_ID := 5500
  attributes_info := []
  wellFormed := noAttributes_wellFormed
  constructs := noAttributes_construct
  multiple := true

def Request_5501 (host : Host) : MessageClass where
  name := "Request_5501"
  MSG_ID := 5501
  attributes_info :=
    [ { name := "stock_id", type := Wire.String host },
      { name := "request_extra", type := Wire.Byte },
      { name := "fields", type := Wire.Vector Byte.format Wire.Byte },
      { name := "date_time", type := Wire.UInt },
      { name := "extra_fields", type := Wire.Vector Byte.format Wire.Byte } ]
  wellFormed := of_decide_eq_true rfl
  constructs := ⟨_, rfl⟩

def Request_5502 (host : Host) : MessageClass where
  name := "Request_5502"
  MSG_ID := 5502
  attributes_info :=
    [ { name := "pid", type := Wire.Byte },
      { name := "sort_field", type := Wire.UShort },
      { name := "sort_method", type := Wire.Byte },
      { name := "start_pos", type := Wire.UShort },
      { name := "req_num", type := Wire.UShort },
      { name := "fields", type := Wire.ByteVector },
      { name := "req_type", type := Wire.Byte },
      { name := "content", type := Wire.Vector UShort.format (Wire.String host) } ]
  wellFormed := of_decide_eq_true rfl
  constructs := ⟨_, rfl⟩

def Request_5503 (host : Host) : MessageClass where
  name := "Request_5503"
  MSG_ID := 5503
  attributes_info :=
    [ { name := "stock_id", type := Wire.String host },
      { name := "data_pos", type := Wire.Int },
      { name := "date_time", type := Wire.UInt },
      { name := "request_num", type := Wire.UShort },
      { name := "fields", type := Wire.Vector Byte.format Wire.Byte } ]
  wellFormed := of_decide_eq_true rfl
  constructs := ⟨_, rfl⟩

def Request_5504 (host : Host) : MessageClass where
  name := "Request_5504"
  MSG_ID := 5504
  attributes_info :=
    [ { name := "market_code", type := Wire.String host } ]
  wellFormed := of_decide_eq_true rfl
  constructs := ⟨_, rfl⟩

def Request_5505 : MessageClass where
  name := "Request_5505"
  MSG_ID := 5505
  attributes_info := []
  wellFormed := noAttributes_wellFormed
  constructs := noAttributes_construct

def Request_5506 : MessageClass where
  name := "Request_5506"
  MSG_ID := 5506
  attributes_info :=
    [ { name := "increment_id", type := Wire.UInt },
      { name := "current_count", type := Wire.UShort } ]
  wellFormed := of_decide_eq_true rfl
  constructs := ⟨_, rfl⟩

def Request_5508 : MessageClass where
  name := "Request_5508"
  MSG_ID := 5508
  attributes_info := []
  wellFormed := noAttributes_wellFormed
  constructs := noAttributes_construct

def Request_5509 : MessageClass where
  name := "Request_5509"
  MSG_ID := 5509
  attributes_info := []
  wellFormed := noAttributes_wellFormed
  constructs := noAttributes_construct

def Request_5510 : MessageClass where
  name := "Request_5510"
  MSG_ID := 5510
  attributes_info := []
  wellFormed := noAttributes_wellFormed
  constructs := noAttributes_construct

def Request_5511 (host : Host) : MessageClass where
  name := "Request_5511"
  MSG_ID := 5511
  attributes_info :=
    [ { name := "stock_id", type := Wire.String host },
      { name := "version", type := Wire.Int },
      { name := "pid", type := Wire.UShort },
      { name := "push_type", type := Wire.Byte },
      { name := "extend_data", type := Wire.UShort } ]
  wellFormed := of_decide_eq_true rfl
  constructs := ⟨_, rfl⟩
  assigns := [("push_type", .int PUSH_TYPE_ONCE)]

def Request_5512 (host : Host) : MessageClass where
  name := "Request_5512"
  MSG_ID := 5512
  attributes_info :=
    [ { name := "pid", type := Wire.UShort },
      { name := "push_type", type := Wire.Byte },
      { name := "stock_id", type := Wire.String host },
      { name := "fields", type := Wire.Vector Byte.format Wire.Byte } ]
  wellFormed := of_decide_eq_true rfl
  constructs := ⟨_, rfl⟩

def Request_5513 (host : Host) : MessageClass where
  name := "Request_5513"
  MSG_ID := 5513
  attributes_info :=
    [ { name := "pid", type := Wire.UShort },
      { name := "push_type", type := Wire.Byte },
      { name := "stock_id", type := Wire.String host },
      { name := "fields", type := Wire.Vector Byte.format Wire.Byte },
      { name := "date_time", type := Wire.UInt } ]
  wellFormed := of_decide_eq_true rfl
  constructs := ⟨_, rfl⟩

def Request_5514 (host : Host) : MessageClass where
  name := "Request_5514"
  MSG_ID := 5514
  attributes_info :=
    [ { name := "pid", type := Wire.UShort },
      { name := "push_type", type := Wire.Byte },
      { name := "stock_id", type := Wire.String host },
      { name := "fields", type := Wire.Vector Byte.format Wire.Byte },
      { name := "flag", type := Wire.Byte },
      { name := "value", type := Wire.UInt },
      { name := "nr_of_roots", type := Wire.Int } ]
  wellFormed := of_decide_eq_true rfl
  constructs := ⟨_, rfl⟩

def Request_5515 (host : Host) : MessageClass where
  name := "Request_5515"
  MSG_ID := 5515
  attributes_info :=
    [ { name := "pid", type := Wire.UShort },
      { name := "push_type", type := Wire.Byte },
      { name := "stock_id", type := Wire.String host },
      { name := "number", type := Wire.Byte } ]
  wellFormed := of_decide_eq_true rfl
  constructs := ⟨_, rfl⟩

def Request_5516 (host : Host) : MessageClass where
  name := "Request_5516"
  MSG_ID := 5516
  attributes_info :=
    [ { name := "pid", type := Wire.UShort },
      { name := "push_type", type := Wire.Byte },
      { name := "sort_field", type := Wire.Byte },
      { name := "sort_method", type := Wire.Byte },
      { name := "start_pos", type := Wire.UShort },
      { name := "req_num", type := Wire.UShort },
      { name := "fields", type := Wire.Vector Byte.format Wire.Byte },
      { name := "req_type", type := Wire.Byte },
      { name := "content", type := Wire.Vector UShort.format (Wire.String host) } ]
  wellFormed := of_decide_eq_true rfl
  constructs := ⟨_, rfl⟩

def Request_5517 : MessageClass where
  name := "Request_5517"
  MSG_ID := 5517
  attributes_info :=
    [ { name := "pid", type := Wire.UShort } ]
  wellFormed := pid_wellFormed
  constructs := pid_construct

def Request_5518 (host : Host) : MessageClass where
  name := "Request_5518"
  MSG_ID := 5518
  attributes_info :=
    [ { name := "pid", type := Wire.UShort },
      { name := "md5", type := Wire.CString host.utf8 33 } ]
  wellFormed := of_decide_eq_true rfl
  constructs := ⟨_, rfl⟩

def Request_5519 (host : Host) : MessageClass where
  name := "Request_5519"
  MSG_ID := 5519
  attributes_info :=
    [ { name := "pid", type := Wire.UShort },
      { name := "push_type", type := Wire.Byte },
      { name := "stock_id", type := Wire.String host },
      { name := "kline_type", type := Wire.Byte },
      { name := "start_time", type := Wire.Int },
      { name := "req_num", type := Wire.UInt },
      { name := "restore_type", type := Wire.Byte } ]
  wellFormed := of_decide_eq_true rfl
  constructs := ⟨_, rfl⟩

/-! ### Registration -/

/-- The request classes, in the order of their definitions. -/
def requestClasses (host : Host) : List MessageClass :=
  [Request_5500, Request_5501 host, Request_5502 host, Request_5503 host, Request_5504 host,
    Request_5505, Request_5506, Request_5508, Request_5509, Request_5510, Request_5511 host,
    Request_5512 host, Request_5513 host, Request_5514 host, Request_5515 host,
    Request_5516 host, Request_5517, Request_5518 host, Request_5519 host]

/-- `request_messages`: every class registers itself under its identifier. -/
def request_messages (host : Host) : ClassDict := ClassDict.ofClasses (requestClasses host)

/-- The identifiers are distinct, so `RequestMeta` raises for none of them. -/
theorem requestClasses_distinct (host : Host) :
    ((requestClasses host).map MessageClass.MSG_ID).Nodup :=
  of_decide_eq_true rfl

theorem request_messages_get {host : Host} {cls : MessageClass}
    (member : cls ∈ requestClasses host) :
    (request_messages host).get cls.MSG_ID = some cls :=
  ClassDict.get_ofClasses (requestClasses_distinct host) member

end StdPrograms.Ouou

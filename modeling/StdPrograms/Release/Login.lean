import StdPrograms.Release.SSLClient

/-!
Contract: the login client of `login.cpp`, driven by whatever a server sends.

Owns the packets of the client, the dispatch of a server's packets, the runs of the
client's process, and what it means that a login is never sent in clear. An exception
that `dispatch` does not catch ends the process, as an assertion does.

Does not own the receive loop.
-/

namespace StdPrograms.Release

open StdPrograms.Foundation

def MSG_C2L_LOGIN : Nat := 0x3001
def MSG_C2L_GET_TOKEN : Nat := 0x3002
def MSG_C2L_LOGOUT : Nat := 0x3003
def MSG_L2C_LOGIN_RESULT : Nat := 0x4001
def MSG_L2C_GET_TOKEN_RESULT : Nat := 0x4002
def MSG_L2C_KICK : Nat := 0x4004

structure Login where
  ssl : SSLClient
  username_ : Bytes
  passwd_ : Bytes
  lang_ : Bytes
  env_ : Bytes
  cookie_ : Bytes := []

namespace Login

abbrev Action := Effect Login ExceptBase

/-- A method of the base class. -/
def base {α : Type} (method : SSLClient.Action α) : Action α :=
  Effect.on Login.ssl (fun self ssl => { self with ssl := ssl }) method

section Stack

-- What the memory of a local packet or buffer holds before it is written.
variable (stack : Nat → UInt8)

def packet (mid : Nat) : OPacket := (OPacket.new stack).setMsgId mid

/-- The packet of `login`; the last value is for a common user. -/
def loginPacket (self : Login) : Except ExceptBase OPacket := do
  let pkt ← ((packet stack MSG_C2L_LOGIN).write_string self.username_).toExcept
  let pkt ← (pkt.write_string self.passwd_).toExcept
  let pkt ← (pkt.write_string self.lang_).toExcept
  let pkt ← (pkt.write_string self.env_).toExcept
  (pkt.write_int32 0).toExcept

def login : Action Bool := do
  let self ← get
  let pkt ← Effect.lift (self.loginPacket stack)
  base (SSLClient.send_packet pkt)
  pure true

def logout : Action Unit := base (SSLClient.send_packet (packet stack MSG_C2L_LOGOUT))

def get_token (gameid : Bytes) : Action Unit := do
  let pkt ← Effect.lift ((packet stack MSG_C2L_GET_TOKEN).write_int32 0).toExcept
  let pkt ← Effect.lift (pkt.write_string gameid).toExcept
  base (SSLClient.send_packet pkt)

/-- The draw decides nothing. -/
def random_action : Action Unit := do
  base (modify fun self => { self with drawn := self.drawn + 1 })
  get_token stack [0x70, 0x77, 0x65]

/-! ### Packets of the server -/

def proc_security (platform : Platform) (pkt : IPacket) : Action Unit := do
  if pkt.getMsgId = MSG_S2C_SECURITY_INIT then
    let (pubkey, _) ← Effect.lift pkt.read_string
    let _ ← base (SSLClient.init_security platform stack pubkey)
  else
    base SSLClient.complete_security
    let _ ← login stack

def proc_login_result (pkt : IPacket) : Action Unit := do
  let (flag, pkt) ← Effect.lift pkt.read_int8
  let (_, pkt) ← Effect.lift pkt.read_int8
  if flag = 1 then
    let (_, pkt) ← Effect.lift pkt.read_string
    let (_, pkt) ← Effect.lift pkt.read_string
    let (_, pkt) ← Effect.lift pkt.read_string
    let (cookie, _) ← Effect.lift pkt.read_string
    modify fun self => { self with cookie_ := cookie }
  else pure ()

def proc_token_result (pkt : IPacket) : Action Unit := do
  let _ ← Effect.lift pkt.read_string

def proc_kicked (_ : IPacket) : Action Unit := base SSLClient.closefd

def kOperMap (platform : Platform) : List (Nat × (IPacket → Action Unit)) :=
  [(MSG_S2C_SECURITY_INIT, proc_security stack platform),
    (MSG_S2C_INIT_FINAL, proc_security stack platform),
    (MSG_L2C_LOGIN_RESULT, proc_login_result),
    (MSG_L2C_GET_TOKEN_RESULT, proc_token_result),
    (MSG_L2C_KICK, proc_kicked)]

/-- The packet as `dispatch` goes on with it. -/
def deciphered (self : Login) (pkt : IPacket) : Except ExceptBase IPacket :=
  if self.ssl.security_state_ = .kDone then pkt.decode stack self.ssl.security_key_ else .ok pkt

/-- The one exception that `dispatch` catches. -/
def caught : ExceptBase → Action Unit
  | .packetOverread => pure ()
  | error => throw error

def dispatch (platform : Platform) (pkt : IPacket) : Action Unit := do
  let self ← get
  let pkt ← Effect.lift (self.deciphered stack pkt)
  match (kOperMap stack platform).lookup pkt.getMsgId with
  | some operation => tryCatch (operation pkt) caught
  | none => pure ()

end Stack

/-! ### Runs -/

/-- A packet that the server sent, or an action of the client's own thread. -/
inductive Event where
  | packet (received : Bytes)
  | random_action
  | logout

/-- What the event finds in uninitialised memory, and the event. -/
abbrev Label := (Nat → UInt8) × Event

def handle (platform : Platform) : Label → Action Unit
  | (stack, .packet received) => dispatch stack platform { received := received, pos := kHdrLen }
  | (stack, .random_action) => random_action stack
  | (stack, .logout) => logout stack

def step (platform : Platform) (self : Process Login ExceptBase) (label : Label) :
    Option (Process Login ExceptBase) :=
  some (self.next (handle platform label))

/-- A connected client. -/
def new (memory : Key) (fd : Int) (name passwd lang env : Bytes) : Process Login ExceptBase where
  state := {
    ssl := { fd_ := fd, security_key_ := memory }
    username_ := name
    passwd_ := passwd
    lang_ := lang
    env_ := env }

/-- A text as `operator <<` writes it. -/
def text (str : Bytes) : Bytes := OPacket.lengthBytes str ++ str.take (str.length % 0x10000)

/-- The data of the login packet. -/
def credentials (self : Login) : Bytes :=
  text self.username_ ++ (text self.passwd_ ++ (text self.lang_ ++
    (text self.env_ ++ ofInt 4 0)))

/-- The message identifier in the header. -/
def wireId (buf : Bytes) : Nat := ofLittleEndian ((buf.drop 6).take 2)

/-- A login is only sent when secure, with its data enciphered under the key. -/
def Confidential (credentials : Bytes) (sending : Transmission) : Prop :=
  wireId sending.buf = MSG_C2L_LOGIN →
    sending.state = .kDone ∧
      sending.buf.drop kHdrLen = (Tea.encode sending.key credentials PACKET_SIZE).outdata

/-- All logins that were sent. -/
def NeverInClear (credentials : Bytes) (self : Process Login ExceptBase) : Prop :=
  ∀ sending ∈ self.state.ssl.sent, Confidential credentials sending

/-- INIT_FINAL does not arrive before the handshake has begun. -/
def Heeds (self : Process Login ExceptBase) : Label → Prop
  | (_, .packet received) =>
      wireId received = MSG_S2C_INIT_FINAL → self.state.ssl.security_state_ ≠ .kInit
  | _ => True

end Login

end StdPrograms.Release

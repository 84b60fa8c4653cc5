import StdPrograms.Foundation.Effect
import StdPrograms.Foundation.Transitions
import StdPrograms.Release.PacketCipher

/-!
Contract: the security layer of `base.h` and `base.cpp`.

Owns the key, the security state and every call of `send`, and which packets two
clients send alike once they are secure. `generate_key` assigns all its draws to
the first word, so that the other three words are what the memory held; two clients
agree as long as no packet is enciphered, or their memory agrees in these words.

OpenSSL and `rand` are parameters. Does not own the messages of the login.
-/

namespace StdPrograms.Release

open StdPrograms.Foundation

def MSG_S2C_SECURITY_INIT : Nat := 0x01
def MSG_S2C_INIT_FINAL : Nat := 0x02
def MSG_C2S_SECURITY_INIT : Nat := 0x50

inductive SecureState where
  | kInit
  | kInProgress
  | kDone
deriving DecidableEq, Repr

/-- `rand`, and OpenSSL behind `rsa_encrypt`: which public keys it accepts for the
key's sixteen bytes, and what it makes of a public key, the data and its own
randomness, as many bytes as the public key has. -/
structure Platform where
  rand : Nat → UInt32
  accepts : Bytes → Bool
  size : Bytes → Nat
  encrypt : Bytes → Bytes → Nat → Bytes
  encrypt_length : ∀ pubkey data random, (encrypt pubkey data random).length = size pubkey

/-- A call of `send`, with the state and the key of the client at that time. -/
structure Transmission where
  state : SecureState
  key : Key
  buf : Bytes
deriving DecidableEq

structure SSLClient where
  fd_ : Int := -1
  security_key_ : Key
  security_state_ : SecureState := .kInit
  /-- How often `rand` was called. -/
  drawn : Nat := 0
  sent : List Transmission := []

/-- The packet, or the exception. -/
def OPacket.Outcome.toExcept (outcome : OPacket.Outcome) : Except ExceptBase OPacket :=
  match outcome.thrown with
  | none => .ok outcome.packet
  | some error => .error error

namespace SSLClient

abbrev Action := Effect SSLClient ExceptBase

/-- `closefd`. -/
def closefd : Action Unit := do
  let self ← get
  if 0 ≤ self.fd_ then set { self with fd_ := -1 } else throw .assertion

def send (buf : Bytes) : Action Unit :=
  modify fun self =>
    { self with sent := self.sent ++ [⟨self.security_state_, self.security_key_, buf⟩] }

section Platform

variable (platform : Platform)

/-- `security_key_[0] = rand()`. -/
def assignFirst (self : SSLClient) : SSLClient :=
  { self with
    security_key_ := { self.security_key_ with a := platform.rand self.drawn }
    drawn := self.drawn + 1 }

/-- The loop runs once for each of the four words. -/
def generate_key : Action Unit := modify (assignFirst platform)^[4]

/-- The key as the cipher of the public key sees it. -/
def keyBytes (self : SSLClient) : Bytes :=
  Tea.ofWord self.security_key_.a ++ (Tea.ofWord self.security_key_.b ++
    (Tea.ofWord self.security_key_.c ++ Tea.ofWord self.security_key_.d))

def rsa_encrypt (pubkey : Bytes) : Action Bytes := do
  let self ← get
  if platform.accepts pubkey then
    pure (platform.encrypt pubkey self.keyBytes self.drawn)
  else throw .assertion

end Platform

/-- What `send_packet` sends of a packet, before it is wound. -/
def secured (self : SSLClient) (pkt : OPacket) : Except ExceptBase OPacket :=
  if self.security_state_ = .kDone then (pkt.encode self.security_key_).toExcept else .ok pkt

def send_packet (pkt : OPacket) : Action Unit := do
  let self ← get
  let pkt ← Effect.lift (self.secured pkt)
  send pkt.wind.getBuf

/-- `stack` is what the memory of the local packet holds. -/
def init_security (platform : Platform) (stack : Nat → UInt8) (pubkey : Bytes) : Action Bool := do
  let self ← get
  if self.security_state_ ≠ .kInit then pure true
  else
    generate_key platform
    let buf ← rsa_encrypt platform pubkey
    if 0 < buf.length then
      let pkt := (OPacket.new stack).setMsgId MSG_C2S_SECURITY_INIT
      let pkt ← Effect.lift (pkt.setData (buf.take (buf.length % 0x10000))).toExcept
      send_packet pkt
      modify fun self => { self with security_state_ := .kInProgress }
      pure true
    else pure true

def complete_security : Action Unit :=
  modify fun self =>
    if self.security_state_ = .kInProgress then { self with security_state_ := .kDone } else self

/-! ### Two clients -/

/-- The calls on a client. -/
inductive Call where
  | init_security (stack : Nat → UInt8) (pubkey : Bytes)
  | complete_security
  | send_packet (pkt : OPacket)

def call (platform : Platform) : Call → Action Unit
  | .init_security stack pubkey => do let _ ← SSLClient.init_security platform stack pubkey
  | .complete_security => SSLClient.complete_security
  | .send_packet pkt => SSLClient.send_packet pkt

/-- A client in memory that held these words where its key is. -/
def new (memory : Key) : Process SSLClient ExceptBase where
  state := { security_key_ := memory }

/-- The same call on two clients. -/
def callBoth (platform : Platform)
    (clients : Process SSLClient ExceptBase × Process SSLClient ExceptBase) (made : Call) :
    Option (Process SSLClient ExceptBase × Process SSLClient ExceptBase) :=
  some (clients.1.next (call platform made), clients.2.next (call platform made))

/-- What was sent in the last state. -/
def traffic (self : SSLClient) : List Bytes :=
  (self.sent.filter fun sending => sending.state = .kDone).map Transmission.buf

def SameTraffic (clients : Process SSLClient ExceptBase × Process SSLClient ExceptBase) : Prop :=
  clients.1.state.traffic = clients.2.state.traffic

/-- `encode` enciphers the packet. -/
def Enciphers (pkt : OPacket) : Prop :=
  pkt.getFlag &&& PACKET_FLAG_ENCRYPT = 0 ∧ pkt.getDataSize ≠ 0

/-- The words behind the first one are the same. -/
def SameRest (left right : Key) : Prop := left.b = right.b ∧ left.c = right.c ∧ left.d = right.d

/-- A packet that is enciphered finds the same words behind the first one. -/
def Heeds (clients : Process SSLClient ExceptBase × Process SSLClient ExceptBase) :
    Call → Prop
  | .send_packet pkt =>
      clients.1.state.security_state_ = .kDone → Enciphers pkt →
        SameRest clients.1.state.security_key_ clients.2.state.security_key_
  | _ => True

/-- Two clients that differ in the words behind the first one only, and in what they
sent before they were secure. Before the key is generated its first word may differ
as well. -/
structure Alike (generated : Prop) (left right : SSLClient) : Prop where
  state : left.security_state_ = right.security_state_
  drawn : left.drawn = right.drawn
  first : generated ∨ left.security_state_ ≠ .kInit →
    left.security_key_.a = right.security_key_.a
  traffic : left.traffic = right.traffic

variable {generated : Prop} {left right : SSLClient}

theorem Alike.sameKey (alike : Alike generated left right) (done : left.security_state_ = .kDone)
    (rest : SameRest left.security_key_ right.security_key_) :
    left.security_key_ = right.security_key_ := by
  obtain ⟨b, c, d⟩ := rest
  have a := alike.first (.inr (by
    rw [done]
    decide))
  exact Key.ext a b c d

/-- The key only matters to a packet that is enciphered. -/
theorem encode_unenciphered {pkt : OPacket} (unenciphered : ¬ Enciphers pkt) (key key' : Key) :
    pkt.encode key = pkt.encode key' := by
  unfold OPacket.encode
  by_cases flagged : pkt.getFlag &&& PACKET_FLAG_ENCRYPT = 0
  · by_cases none : pkt.getDataSize = 0
    · rw [if_pos none, if_pos none]
    · exact absurd ⟨flagged, none⟩ unenciphered
  · rw [if_pos flagged, if_pos flagged]

theorem Alike.secured (alike : Alike generated left right) {pkt : OPacket}
    (done : left.security_state_ = .kDone)
    (heeds : Enciphers pkt → SameRest left.security_key_ right.security_key_) :
    left.secured pkt = right.secured pkt := by
  rw [SSLClient.secured, SSLClient.secured, if_pos done, if_pos (alike.state ▸ done)]
  by_cases enciphers : Enciphers pkt
  · rw [alike.sameKey done (heeds enciphers)]
  · rw [encode_unenciphered enciphers]

/-! ### Calls on two clients -/

theorem send_alike {buf buf' : Bytes} :
    Effect.Relates
      (fun self other => Alike generated self other ∧
        (self.security_state_ = .kDone → buf = buf'))
      (send buf) (send buf') (fun _ _ => Alike generated) (Alike generated) := by
  apply Effect.relates_modify
  intro self other
  rintro ⟨alike, same⟩
  refine ⟨alike.state, alike.drawn, alike.first, ?_⟩
  have before : self.traffic = other.traffic := alike.traffic
  have state := alike.state
  unfold SSLClient.traffic at before ⊢
  simp only [List.filter_append, List.map_append]
  rw [before]
  by_cases done : self.security_state_ = .kDone
  · rw [same done]
    simp [done, ← state]
  · simp [done, ← state]

theorem secured_alike {pkt pkt' : OPacket} (alike : Alike generated left right)
    (heeds : left.security_state_ = .kDone → pkt = pkt' ∧
      (Enciphers pkt → SameRest left.security_key_ right.security_key_)) :
    Effect.Relates (fun self other => self = left ∧ other = right)
      (Effect.lift (left.secured pkt)) (Effect.lift (right.secured pkt'))
      (fun sent sent' self other => Alike generated self other ∧
        (self.security_state_ = .kDone → sent.wind.getBuf = sent'.wind.getBuf))
      (Alike generated) := by
  apply Effect.relates_lift
  rintro self other ⟨rfl, rfl⟩
  by_cases done : self.security_state_ = .kDone
  · obtain ⟨rfl, sameRest⟩ := heeds done
    rw [alike.secured done sameRest]
    cases other.secured pkt with
    | ok packet => exact ⟨alike, fun _ => rfl⟩
    | error error => exact ⟨rfl, alike⟩
  · rw [SSLClient.secured, SSLClient.secured, if_neg done, if_neg (alike.state ▸ done)]
    exact ⟨alike, fun isDone => absurd isDone done⟩

theorem send_packet_alike {pkt pkt' : OPacket} :
    Effect.Relates
      (fun self other => Alike generated self other ∧ (self.security_state_ = .kDone → pkt = pkt' ∧
        (Enciphers pkt → SameRest self.security_key_ other.security_key_)))
      (SSLClient.send_packet pkt) (SSLClient.send_packet pkt') (fun _ _ => Alike generated)
      (Alike generated) := by
  apply Effect.relates_get
  intro left right
  rintro ⟨alike, heeds⟩
  apply Effect.relates_bind (secured_alike alike heeds)
  intro sent sent'
  exact send_alike

/-- Every draw of the key is assigned to its first word. -/
theorem iterate_assignFirst (platform : Platform) (draws : Nat) (self : SSLClient) :
    (assignFirst platform)^[draws + 1] self =
      { self with
        security_key_ := { self.security_key_ with a := platform.rand (self.drawn + draws) }
        drawn := self.drawn + draws + 1 } := by
  induction draws generalizing self with
  | zero => rfl
  | succ draws inductionHypothesis =>
      rw [Function.iterate_succ_apply, inductionHypothesis]
      simp only [assignFirst, Nat.add_assoc, Nat.add_comm 1]

/-- The clients while the handshake begins, once the key is drawn. -/
def Keyed (self other : SSLClient) : Prop :=
  Alike True self other ∧ self.security_state_ = .kInit

theorem Keyed.alike {self other : SSLClient} (keyed : Keyed self other) :
    Alike False self other :=
  ⟨keyed.1.state, keyed.1.drawn, fun _ => keyed.1.first (.inl trivial), keyed.1.traffic⟩

theorem generate_key_alike (platform : Platform) (initial : left.security_state_ = .kInit)
    (alike : Alike False left right) :
    Effect.Relates (fun self other => self = left ∧ other = right) (generate_key platform)
      (generate_key platform) (fun _ _ => Keyed) (Alike False) := by
  apply Effect.relates_modify
  rintro self other ⟨rfl, rfl⟩
  rw [iterate_assignFirst, iterate_assignFirst]
  refine ⟨⟨alike.state, ?_, fun _ => ?_, alike.traffic⟩, initial⟩
  · exact congrArg (fun drawn => drawn + 3 + 1) alike.drawn
  · exact congrArg (fun drawn => platform.rand (drawn + 3)) alike.drawn

theorem rsa_encrypt_alike (platform : Platform) (pubkey : Bytes) :
    Effect.Relates Keyed (rsa_encrypt platform pubkey) (rsa_encrypt platform pubkey)
      (fun buf buf' self other => Keyed self other ∧ buf.length = buf'.length) (Alike False) := by
  apply Effect.relates_get
  intro left right keyed
  split
  · apply Effect.relates_pure
    rintro self other ⟨rfl, rfl⟩
    exact ⟨keyed, by rw [platform.encrypt_length, platform.encrypt_length]⟩
  · apply Effect.relates_throw
    rintro self other ⟨rfl, rfl⟩
    exact keyed.alike

/-- The packet of the handshake, with buffers of one length. -/
theorem setData_alike {buf buf' : Bytes} (pkt : OPacket) (same : buf.length = buf'.length) :
    Effect.Relates Keyed (Effect.lift (pkt.setData buf).toExcept)
      (Effect.lift (pkt.setData buf').toExcept) (fun _ _ => Keyed) (Alike False) := by
  apply Effect.relates_lift
  intro self other keyed
  unfold OPacket.setData
  rw [same]
  split
  · exact ⟨rfl, keyed.alike⟩
  · exact keyed

theorem handshake_alike (pkt pkt' : OPacket) :
    Effect.Relates Keyed (SSLClient.send_packet pkt) (SSLClient.send_packet pkt')
      (fun _ _ => Alike True) (Alike False) := by
  apply Effect.relates_weaken send_packet_alike
  · rintro self other ⟨alike, initial⟩
    refine ⟨alike, fun done => ?_⟩
    rw [initial] at done
    cases done
  · intro _ _ self other alike
    exact alike
  · intro self other alike
    exact ⟨alike.state, alike.drawn, fun _ => alike.first (.inl trivial), alike.traffic⟩

theorem started_alike :
    Effect.Relates (Alike True)
      (modify fun self => { self with security_state_ := .kInProgress } : Action Unit)
      (modify fun self => { self with security_state_ := .kInProgress })
      (fun _ _ => Alike False) (Alike False) := by
  apply Effect.relates_modify
  intro self other alike
  exact ⟨rfl, alike.drawn, fun _ => alike.first (.inl trivial), alike.traffic⟩

theorem init_security_alike (platform : Platform) (stack : Nat → UInt8) (pubkey : Bytes) :
    Effect.Relates (Alike False) (SSLClient.init_security platform stack pubkey)
      (SSLClient.init_security platform stack pubkey) (fun _ _ => Alike False) (Alike False) := by
  apply Effect.relates_get
  intro left right alike
  rw [← alike.state]
  split
  next =>
    apply Effect.relates_pure
    rintro self other ⟨rfl, rfl⟩
    exact alike
  next initial =>
    apply Effect.relates_bind (generate_key_alike platform (not_not.mp initial) alike)
    intro _ _
    apply Effect.relates_bind (rsa_encrypt_alike platform pubkey)
    intro buf buf'
    apply Effect.relates_given
    intro same
    rw [← same]
    split
    next =>
      apply Effect.relates_bind (setData_alike _ (by rw [List.length_take, List.length_take, same]))
      intro pkt pkt'
      apply Effect.relates_bind (handshake_alike pkt pkt')
      intro _ _
      apply Effect.relates_bind started_alike
      intro _ _
      apply Effect.relates_pure
      intro self other alike
      exact alike
    next =>
      apply Effect.relates_pure
      intro self other keyed
      exact keyed.alike

theorem complete_security_alike :
    Effect.Relates (Alike False) complete_security complete_security (fun _ _ => Alike False)
      (Alike False) := by
  apply Effect.relates_modify
  intro self other alike
  rw [← alike.state]
  split
  next inProgress =>
    have first := alike.first (.inr (by
      rw [inProgress]
      decide))
    exact ⟨rfl, alike.drawn, fun _ => first, alike.traffic⟩
  next => exact alike

theorem call_alike (platform : Platform)
    {clients : Process SSLClient ExceptBase × Process SSLClient ExceptBase} {made : Call}
    (heeds : Heeds clients made) :
    Effect.Relates
      (fun self other => Alike False self other ∧
        self = clients.1.state ∧ other = clients.2.state)
      (call platform made) (call platform made) (fun _ _ => Alike False) (Alike False) := by
  cases made with
  | init_security stack pubkey =>
      have ends := init_security_alike platform stack pubkey
      apply Effect.relates_bind
      · apply Effect.relates_weaken ends
        · intro self other alike
          exact alike.1
        · intro _ _ self other alike
          exact alike
        · intro self other alike
          exact alike
      · intro _ _
        apply Effect.relates_pure
        intro self other alike
        exact alike
  | complete_security =>
      apply Effect.relates_weaken complete_security_alike
      · intro self other alike
        exact alike.1
      · intro _ _ self other alike
        exact alike
      · intro self other alike
        exact alike
  | send_packet pkt =>
      apply Effect.relates_weaken send_packet_alike
      · rintro self other ⟨alike, rfl, rfl⟩
        exact ⟨alike, fun done => ⟨rfl, heeds done⟩⟩
      · intro _ _ self other alike
        exact alike
      · intro self other alike
        exact alike

/-- Two clients that differ in their memory only send the same packets once they are
secure, along every run in which a packet is only enciphered where the words behind
the first one are the same. -/
theorem sameTraffic_of_heeds (platform : Platform) (memory memory' : Key) (calls : List Call)
    (heeds : Along (callBoth platform) Heeds (new memory, new memory') calls) :
    Visits (callBoth platform) SameTraffic (new memory, new memory') calls := by
  have alike : Visits (callBoth platform)
      (fun clients => clients.1.terminated = clients.2.terminated ∧
        Alike False clients.1.state clients.2.state) (new memory, new memory') calls := by
    refine visits_of_along ?_ ?_ heeds
    · rintro clients made after ⟨sameEnd, alike⟩ heeds taken
      cases Option.some.inj taken
      apply Process.next_relates sameEnd alike _ (call_alike platform heeds)
      intro _
      exact ⟨alike, rfl, rfl⟩
    · exact ⟨rfl, rfl, rfl, fun generated => absurd rfl (generated.resolve_left id), rfl⟩
  apply alike.imp
  intro clients holds
  exact holds.2.traffic

/-- Counting draws, and a public key of 128 bytes that is always accepted. -/
def countingPlatform : Platform where
  rand := UInt32.ofNat
  accepts _ := true
  size _ := 128
  encrypt _ _ _ := List.replicate 128 0
  encrypt_length _ _ _ := List.length_replicate

/-- A byte of data, enciphered by clients whose memory differs in the first word. -/
theorem byte_packet_sameTraffic :
    Enciphers ((OPacket.new fun _ => 0).write_uint8 7).packet ∧
      Visits (callBoth countingPlatform) SameTraffic (new ⟨8, 1, 2, 3⟩, new ⟨9, 1, 2, 3⟩)
        [.init_security (fun _ => 0) [], .complete_security,
          .send_packet ((OPacket.new fun _ => 0).write_uint8 7).packet] := by
  refine ⟨⟨by decide, by decide⟩, ?_⟩
  apply sameTraffic_of_heeds
  intro initialized taken
  obtain rfl := Option.some.inj taken
  refine ⟨trivial, fun completed taken => ?_⟩
  obtain rfl := Option.some.inj taken
  refine ⟨trivial, fun sent _ => ⟨fun _ _ => ?_, trivial⟩⟩
  unfold SameRest
  decide +kernel

/-- A byte of data, enciphered with a word that nothing was assigned to. -/
theorem byte_packet_not_sameTraffic :
    ¬ Visits (callBoth countingPlatform) SameTraffic (new ⟨0, 0, 0, 0⟩, new ⟨0, 1, 0, 0⟩)
      [.init_security (fun _ => 0) [], .complete_security,
        .send_packet ((OPacket.new fun _ => 0).write_uint8 7).packet] := by
  intro visits
  have last := ((visits.2 _ rfl).2 _ rfl).2 _ rfl
  have same := last.start
  unfold SameTraffic at same
  revert same
  decide +kernel

end SSLClient

end StdPrograms.Release

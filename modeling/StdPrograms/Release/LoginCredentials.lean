import StdPrograms.Foundation.Except
import StdPrograms.Release.Login

/-!
Contract: the credentials on the wire, in any run of the login client.

Owns what each method and each packet of a server keeps, and the condition under
which no run sends the credentials in clear. `proc_security` answers INIT_FINAL with
the login whatever `complete_security` made of it; before SECURITY_INIT nothing is
secure yet.

Does not own the strength of the cipher.
-/

namespace StdPrograms.Release

open StdPrograms.Foundation

/-! ### Packets of the client -/

namespace OPacket

theorem toExcept_eq_ok {outcome : Outcome} {packet : OPacket} :
    outcome.toExcept = .ok packet ↔ outcome.thrown = none ∧ outcome.packet = packet := by
  unfold Outcome.toExcept
  cases outcome with
  | mk left thrown => cases thrown <;> simp

/-- The header is there, with this message identifier. -/
structure Identified (mid : Nat) (packet : OPacket) : Prop where
  whole : kHdrLen ≤ packet.len
  id : packet.buf.load 6 2 = toLittleEndian 2 mid

theorem Identified.setData {mid : Nat} {packet copied : OPacket} {data : Bytes}
    (identified : Identified mid packet) (returned : (packet.setData data).toExcept = .ok copied) :
    Identified mid copied := by
  have limit : kHdrLen + PACKET_SIZE < 0x10000 := by decide
  obtain ⟨notThrown, rfl⟩ := toExcept_eq_ok.mp returned
  unfold OPacket.setData at notThrown ⊢
  split at notThrown
  next => contradiction
  next small =>
    rw [if_neg small, Nat.mod_eq_of_lt (by omega)]
    constructor
    · exact Nat.le_add_right _ _
    · rw [← identified.id]
      exact packet.buf.load_store_before data (by decide)

theorem Identified.setFlag {mid : Nat} {packet : OPacket} (identified : Identified mid packet)
    (flag : Nat) : Identified mid (packet.setFlag flag) := by
  constructor
  · exact identified.whole
  · rw [← identified.id]
    apply Memory.load_store_after
    rw [toLittleEndian_length]
    decide

theorem Identified.encode {mid : Nat} {packet encoded : OPacket} {key : Key}
    (identified : Identified mid packet) (returned : (packet.encode key).toExcept = .ok encoded) :
    Identified mid encoded := by
  obtain ⟨notThrown, rfl⟩ := toExcept_eq_ok.mp returned
  unfold OPacket.encode at notThrown ⊢
  split at notThrown
  next flagged =>
    rw [if_pos flagged]
    exact identified
  next unflagged =>
    rw [if_neg unflagged]
    split at notThrown
    next none =>
      rw [if_pos none]
      exact identified.setFlag _
    next some =>
      rw [if_neg some]
      dsimp only at notThrown ⊢
      split at notThrown
      next => contradiction
      next enough =>
        rw [if_neg enough]
        split at notThrown
        next thrown =>
          rw [notThrown] at thrown
          contradiction
        next copied =>
          rw [if_neg copied]
          apply Identified.setFlag
          apply identified.setData
          apply toExcept_eq_ok.mpr
          exact ⟨by simpa using copied, rfl⟩

/-- The identifier is on the wire. -/
theorem Identified.wireId {mid : Nat} {packet : OPacket} (identified : Identified mid packet) :
    Login.wireId packet.wind.getBuf = mid % modulus 2 := by
  have whole : 12 ≤ packet.len := identified.whole
  have kept : packet.wind.buf.load 6 2 = packet.buf.load 6 2 := by
    apply Memory.load_store_after
    rw [toLittleEndian_length]
  have total : packet.wind.len = 6 + (2 + (packet.len - 8)) := by
    change packet.len = 6 + (2 + (packet.len - 8))
    omega
  rw [Login.wireId, getBuf, total, Memory.load_add, List.drop_left' (Memory.load_length _ _ _),
    Memory.load_add, List.take_left' (Memory.load_length _ _ _), kept, identified.id,
    ofLittleEndian_toLittleEndian]

/-- A packet built with `operator <<`, and the data it carries. -/
structure Carries (mid : Nat) (data : Bytes) (packet : OPacket) : Prop where
  plain : Plain packet
  identified : Identified mid packet
  data : packet.getData = data

theorem Carries.put {mid : Nat} {data bytes : Bytes} {packet : OPacket}
    (carries : Carries mid data packet) (fits : packet.len + bytes.length ≤ PACKET_SIZE) :
    Carries mid (data ++ bytes) (packet.put bytes) := by
  obtain ⟨plain, identified, isData⟩ := carries
  have atEnd := plain.atEnd
  have whole := plain.inBuffer.whole
  have limit : PACKET_SIZE < 0x10000 := by decide
  obtain ⟨appended, pos, len⟩ := put_getBuf packet bytes atEnd (by omega)
  constructor
  · exact plain.put (by omega) (by omega)
  · constructor
    · omega
    · rw [← identified.id]
      apply Memory.load_store_before
      have : 12 ≤ packet.len := whole
      omega
  · rw [← getBuf_drop, appended, List.drop_append_of_le_length (by rwa [getBuf_length]),
      getBuf_drop, isData]

theorem Carries.write_string {mid : Nat} {data str : Bytes} {packet written : OPacket}
    (carries : Carries mid data packet)
    (returned : (packet.write_string str).toExcept = .ok written) :
    Carries mid (data ++ Login.text str) written := by
  obtain ⟨notThrown, rfl⟩ := toExcept_eq_ok.mp returned
  have ordered := carries.plain.inBuffer.ordered
  have atEnd := carries.plain.atEnd
  have two : (lengthBytes str).length = 2 := ofInt_length _ _
  rw [write_string_eq ordered] at notThrown ⊢
  split at notThrown
  next => contradiction
  next prefixFits =>
    rw [if_neg prefixFits]
    split at notThrown
    next => contradiction
    next fits =>
      rw [if_neg fits, Login.text, ← List.append_assoc]
      have limit : PACKET_SIZE < 0x10000 := by decide
      obtain ⟨-, len⟩ := put_positions (by omega : packet.pos + (lengthBytes str).length < 0x10000)
      have prefixed := carries.put (by omega : packet.len + (lengthBytes str).length ≤ PACKET_SIZE)
      apply prefixed.put
      rw [List.length_take]
      omega

theorem Carries.write_int32 {mid : Nat} {data : Bytes} {value : Int} {packet written : OPacket}
    (carries : Carries mid data packet)
    (returned : (packet.write_int32 value).toExcept = .ok written) :
    Carries mid (data ++ ofInt 4 value) written := by
  obtain ⟨notThrown, rfl⟩ := toExcept_eq_ok.mp returned
  unfold OPacket.write_int32 checkedInt at notThrown ⊢
  split at notThrown
  next => contradiction
  next fits =>
    rw [if_neg fits]
    apply carries.put
    rw [checkOverwrite_eq_true] at fits
    rw [ofInt_length]
    exact Nat.le_of_not_lt fits

end OPacket

namespace Login

theorem packet_carries (stack : Nat → UInt8) (mid : Nat) :
    OPacket.Carries mid [] (packet stack mid) := by
  have streamed : OPacket.Streamed (packet stack mid) := .setMsgId mid (.new stack)
  constructor
  · exact streamed.plain (show kHdrLen ≤ PACKET_SIZE by decide)
  · constructor
    · exact le_rfl
    · exact Memory.load_store_same _ 6 (toLittleEndian 2 mid)
  · rfl

theorem loginPacket_carries {self : Login} {stack : Nat → UInt8} {pkt : OPacket}
    (written : self.loginPacket stack = .ok pkt) :
    OPacket.Carries MSG_C2L_LOGIN self.credentials pkt := by
  obtain ⟨named, hasName, written⟩ := exceptBind_eq_ok.mp written
  obtain ⟨withPasswd, hasPasswd, written⟩ := exceptBind_eq_ok.mp written
  obtain ⟨withLang, hasLang, written⟩ := exceptBind_eq_ok.mp written
  obtain ⟨withEnv, hasEnv, written⟩ := exceptBind_eq_ok.mp written
  have carries := ((((packet_carries stack MSG_C2L_LOGIN).write_string hasName).write_string
    hasPasswd).write_string hasLang).write_string hasEnv
  have complete := carries.write_int32 written
  simpa [credentials] using complete

/-! ### What each method keeps -/

/-- Everything that was sent is allowed. -/
def AllSent (allowed : Transmission → Prop) (self : SSLClient) : Prop :=
  ∀ sending ∈ self.sent, allowed sending

section Methods

variable {allowed : Transmission → Prop}

theorem send_keeps {pre : SSLClient → Prop} {buf : Bytes}
    (kept : ∀ self, pre self → AllSent allowed self)
    (allows : ∀ self, pre self →
      allowed ⟨self.security_state_, self.security_key_, buf⟩) :
    Effect.Ensures pre (SSLClient.send buf) (fun _ => AllSent allowed)
      (fun _ => AllSent allowed) := by
  apply Effect.ensures_modify
  intro self holds sending member
  rcases List.mem_append.mp member with before | new
  · exact kept self holds sending before
  · rw [List.mem_singleton.mp new]
    exact allows self holds

theorem send_packet_keeps {pre : SSLClient → Prop} {pkt : OPacket}
    (kept : ∀ self, pre self → AllSent allowed self)
    (allows : ∀ self, pre self → ∀ packet, self.secured pkt = .ok packet →
      allowed ⟨self.security_state_, self.security_key_, packet.wind.getBuf⟩) :
    Effect.Ensures pre (SSLClient.send_packet pkt) (fun _ => AllSent allowed)
      (fun _ => AllSent allowed) := by
  apply Effect.ensures_get
  intro read holds
  have secures : Effect.Ensures (fun self => self = read) (Effect.lift (read.secured pkt))
      (fun packet self => self = read ∧ read.secured pkt = .ok packet)
      (fun _ => AllSent allowed) := by
    apply Effect.ensures_lift
    · rintro packet secured self rfl
      exact ⟨rfl, secured⟩
    · rintro error self rfl
      exact kept self holds
  apply Effect.ensures_bind secures
  intro packet
  apply send_keeps
  · rintro self ⟨rfl, -⟩
    exact kept self holds
  · rintro self ⟨rfl, secured⟩
    exact allows self holds packet secured

end Methods

/-- A packet that is no login may be sent in any state. -/
theorem other_allowed {self : SSLClient} {mid : Nat} {pkt packet : OPacket} {credentials : Bytes}
    (identified : pkt.Identified mid) (isOther : mid % modulus 2 ≠ MSG_C2L_LOGIN)
    (secured : self.secured pkt = .ok packet) :
    Confidential credentials
      ⟨self.security_state_, self.security_key_, packet.wind.getBuf⟩ := by
  have sameId : packet.Identified mid := by
    unfold SSLClient.secured at secured
    split at secured
    · exact identified.encode secured
    · cases secured
      exact identified
  intro isLogin
  rw [sameId.wireId] at isLogin
  exact absurd isLogin isOther

/-- A login that is sent when secure carries its data enciphered. -/
theorem login_allowed {self : SSLClient} {mid : Nat} {pkt packet : OPacket} {credentials : Bytes}
    (carries : pkt.Carries mid credentials) (some : credentials ≠ [])
    (done : self.security_state_ = .kDone) (secured : self.secured pkt = .ok packet) :
    Confidential credentials
      ⟨self.security_state_, self.security_key_, packet.wind.getBuf⟩ := by
  have isData := carries.data
  have bounded := carries.plain.inBuffer.bounded
  have whole := carries.plain.inBuffer.whole
  have size := OPacket.getDataSize_eq whole
  have someData : pkt.getDataSize ≠ 0 := by
    rw [← OPacket.getData_length, isData]
    exact fun none => some (List.length_eq_zero_iff.mp none)
  have small : pkt.getDataSize ≤ PACKET_SIZE - kHdrLen := by omega
  obtain ⟨-, length⟩ := OPacket.tea_returned self.security_key_ small
  obtain ⟨flag, encoded⟩ :=
    OPacket.encode_plain self.security_key_ carries.plain.unflagged someData small
  have limits : PACKET_SIZE = 32768 ∧ kHdrLen = 12 := ⟨rfl, rfl⟩
  obtain ⟨-, close⟩ := OPacket.cipherLength_bounds pkt.getDataSize
  intro _
  constructor
  · exact done
  · rw [SSLClient.secured, if_pos done, encoded] at secured
    cases secured
    rw [OPacket.getBuf_drop, OPacket.wind_getData, OPacket.setFlag_getData,
      OPacket.setData_getData (by omega), OPacket.cipherData, isData]

section Guarded

variable {data : Bytes}

theorem send_other_keeps {mid : Nat} {pkt : OPacket} (identified : pkt.Identified mid)
    (isOther : mid % modulus 2 ≠ MSG_C2L_LOGIN) :
    Effect.Ensures (AllSent (Confidential data)) (SSLClient.send_packet pkt)
      (fun _ => AllSent (Confidential data)) (fun _ => AllSent (Confidential data)) := by
  apply send_packet_keeps
  · intro self kept
    exact kept
  · intro self _ packet secured
    exact other_allowed identified isOther secured

theorem generate_key_keeps {platform : Platform} {read : SSLClient}
    (kept : AllSent (Confidential data) read) :
    Effect.Ensures (fun self => self = read) (SSLClient.generate_key platform)
      (fun _ => AllSent (Confidential data)) (fun _ => AllSent (Confidential data)) := by
  apply Effect.ensures_modify
  rintro self rfl
  rw [SSLClient.iterate_assignFirst]
  exact kept

theorem rsa_encrypt_keeps (platform : Platform) (pubkey : Bytes) :
    Effect.Ensures (AllSent (Confidential data)) (SSLClient.rsa_encrypt platform pubkey)
      (fun _ => AllSent (Confidential data)) (fun _ => AllSent (Confidential data)) := by
  apply Effect.ensures_get
  intro read kept
  split
  · apply Effect.ensures_pure
    rintro self rfl
    exact kept
  · apply Effect.ensures_throw
    rintro self rfl
    exact kept

theorem handshake_packet_keeps (stack : Nat → UInt8) (buf : Bytes) :
    Effect.Ensures (AllSent (Confidential data))
      (Effect.lift ((packet stack MSG_C2S_SECURITY_INIT).setData buf).toExcept)
      (fun pkt self => AllSent (Confidential data) self ∧ pkt.Identified MSG_C2S_SECURITY_INIT)
      (fun _ => AllSent (Confidential data)) := by
  apply Effect.ensures_lift
  · intro pkt copied self kept
    exact ⟨kept, (packet_carries stack _).identified.setData copied⟩
  · intro error self kept
    exact kept

theorem started_keeps :
    Effect.Ensures (AllSent (Confidential data))
      (modify fun self => { self with security_state_ := .kInProgress } : SSLClient.Action Unit)
      (fun _ => AllSent (Confidential data)) (fun _ => AllSent (Confidential data)) := by
  apply Effect.ensures_modify
  intro self kept
  exact kept

theorem init_security_keeps (platform : Platform) (stack : Nat → UInt8) (pubkey : Bytes) :
    Effect.Ensures (AllSent (Confidential data)) (SSLClient.init_security platform stack pubkey)
      (fun _ => AllSent (Confidential data)) (fun _ => AllSent (Confidential data)) := by
  apply Effect.ensures_get
  intro read kept
  split
  next =>
    apply Effect.ensures_pure
    rintro self rfl
    exact kept
  next =>
    apply Effect.ensures_bind (generate_key_keeps kept)
    intro _
    apply Effect.ensures_bind (rsa_encrypt_keeps platform pubkey)
    intro buf
    split
    next =>
      apply Effect.ensures_bind (handshake_packet_keeps stack _)
      intro pkt
      apply Effect.ensures_given
      intro identified
      apply Effect.ensures_bind (send_other_keeps identified (by decide))
      intro _
      apply Effect.ensures_bind started_keeps
      intro _
      apply Effect.ensures_pure
      intro self kept
      exact kept
    next =>
      apply Effect.ensures_pure
      intro self kept
      exact kept

/-! ### What the client keeps -/

/-- The credentials are these, and no login was sent in clear. -/
def Guarded (data : Bytes) (self : Login) : Prop :=
  self.credentials = data ∧ AllSent (Confidential data) self.ssl

/-- A method of the base class, with a fact about the base object before it. -/
theorem base_keeps {α : Type} {method : SSLClient.Action α} {known : SSLClient → Prop}
    {learnt : SSLClient → Prop}
    (keeps : Effect.Ensures (fun ssl => AllSent (Confidential data) ssl ∧ known ssl) method
      (fun _ ssl => AllSent (Confidential data) ssl ∧ learnt ssl)
      (fun _ => AllSent (Confidential data))) :
    Effect.Ensures (fun self => Guarded data self ∧ known self.ssl) (base method)
      (fun _ self => Guarded data self ∧ learnt self.ssl) (fun _ => Guarded data) := by
  apply Effect.ensures_on keeps
  · rintro self ⟨guarded, holds⟩
    exact ⟨guarded.2, holds⟩
  · rintro self _ after ⟨guarded, -⟩ ⟨kept, learns⟩
    exact ⟨⟨guarded.1, kept⟩, learns⟩
  · rintro self _ after ⟨guarded, -⟩ kept
    exact ⟨guarded.1, kept⟩

theorem base_keeps_guarded {α : Type} {method : SSLClient.Action α}
    (keeps : Effect.Ensures (AllSent (Confidential data)) method
      (fun _ => AllSent (Confidential data)) (fun _ => AllSent (Confidential data))) :
    Effect.Ensures (Guarded data) (base method) (fun _ => Guarded data)
      (fun _ => Guarded data) := by
  apply Effect.ensures_on keeps
  · intro self guarded
    exact guarded.2
  · intro self _ after guarded kept
    exact ⟨guarded.1, kept⟩
  · intro self _ after guarded kept
    exact ⟨guarded.1, kept⟩

/-- What only reads the packet. -/
theorem lift_keeps {α : Type} (result : Except ExceptBase α) :
    Effect.Ensures (Guarded data) (Effect.lift result) (fun _ => Guarded data)
      (fun _ => Guarded data) := by
  apply Effect.ensures_lift
  · intro _ _ self guarded
    exact guarded
  · intro _ self guarded
    exact guarded

theorem credentials_ne_nil (self : Login) : self.credentials ≠ [] := by
  apply List.ne_nil_of_length_pos
  simp only [credentials, List.length_append, ofInt_length]
  omega

theorem loginPacket_keeps {read : Login} (stack : Nat → UInt8) (guarded : Guarded data read)
    (done : read.ssl.security_state_ = .kDone) :
    Effect.Ensures (fun self => self = read) (Effect.lift (read.loginPacket stack))
      (fun pkt self => (Guarded data self ∧ self.ssl.security_state_ = .kDone) ∧
        pkt.Carries MSG_C2L_LOGIN data)
      (fun _ => Guarded data) := by
  apply Effect.ensures_lift
  · rintro pkt written self rfl
    have carries := loginPacket_carries written
    rw [guarded.1] at carries
    exact ⟨⟨guarded, done⟩, carries⟩
  · rintro error self rfl
    exact guarded

theorem send_login_keeps {pkt : OPacket} (carries : pkt.Carries MSG_C2L_LOGIN data)
    (some : data ≠ []) :
    Effect.Ensures (fun ssl => AllSent (Confidential data) ssl ∧ ssl.security_state_ = .kDone)
      (SSLClient.send_packet pkt)
      (fun _ ssl => AllSent (Confidential data) ssl ∧ True)
      (fun _ => AllSent (Confidential data)) := by
  have keeps : Effect.Ensures
      (fun ssl => AllSent (Confidential data) ssl ∧ ssl.security_state_ = .kDone)
      (SSLClient.send_packet pkt) (fun _ => AllSent (Confidential data))
      (fun _ => AllSent (Confidential data)) := by
    apply send_packet_keeps
    · intro self holds
      exact holds.1
    · intro self holds packet secured
      exact login_allowed carries some holds.2 secured
  apply Effect.ensures_weaken keeps
  · intro self holds
    exact holds
  · intro _ self kept
    exact ⟨kept, trivial⟩
  · intro _ self kept
    exact kept

/-- The login, where the client is secure. -/
theorem login_keeps (stack : Nat → UInt8) :
    Effect.Ensures (fun self => Guarded data self ∧ self.ssl.security_state_ = .kDone)
      (login stack) (fun _ => Guarded data) (fun _ => Guarded data) := by
  apply Effect.ensures_get
  rintro read ⟨guarded, done⟩
  have some : data ≠ [] := guarded.1 ▸ read.credentials_ne_nil
  apply Effect.ensures_bind (loginPacket_keeps stack guarded done)
  intro pkt
  apply Effect.ensures_given
  intro carries
  apply Effect.ensures_bind (base_keeps (send_login_keeps carries some))
  intro _
  apply Effect.ensures_pure
  intro self holds
  exact holds.1

theorem logout_keeps (stack : Nat → UInt8) :
    Effect.Ensures (Guarded data) (logout stack) (fun _ => Guarded data)
      (fun _ => Guarded data) :=
  base_keeps_guarded (send_other_keeps (packet_carries stack _).identified (by decide))

theorem get_token_keeps (stack : Nat → UInt8) (gameid : Bytes) :
    Effect.Ensures (Guarded data) (get_token stack gameid) (fun _ => Guarded data)
      (fun _ => Guarded data) := by
  have begins : Effect.Ensures (Guarded data)
      (Effect.lift ((packet stack MSG_C2L_GET_TOKEN).write_int32 0).toExcept)
      (fun pkt self => Guarded data self ∧ pkt.Carries MSG_C2L_GET_TOKEN (ofInt 4 0))
      (fun _ => Guarded data) := by
    apply Effect.ensures_lift
    · intro pkt written self guarded
      exact ⟨guarded, (packet_carries stack _).write_int32 written⟩
    · intro _ self guarded
      exact guarded
  apply Effect.ensures_bind begins
  intro pkt
  apply Effect.ensures_given
  intro carries
  have completes : Effect.Ensures (Guarded data) (Effect.lift (pkt.write_string gameid).toExcept)
      (fun pkt self => Guarded data self ∧ pkt.Identified MSG_C2L_GET_TOKEN)
      (fun _ => Guarded data) := by
    apply Effect.ensures_lift
    · intro pkt written self guarded
      exact ⟨guarded, (carries.write_string written).identified⟩
    · intro _ self guarded
      exact guarded
  apply Effect.ensures_bind completes
  intro pkt
  apply Effect.ensures_given
  intro identified
  exact base_keeps_guarded (send_other_keeps identified (by decide))

theorem random_action_keeps (stack : Nat → UInt8) :
    Effect.Ensures (Guarded data) (random_action stack) (fun _ => Guarded data)
      (fun _ => Guarded data) := by
  have draws : Effect.Ensures (AllSent (Confidential data))
      (modify fun self => { self with drawn := self.drawn + 1 } : SSLClient.Action Unit)
      (fun _ => AllSent (Confidential data)) (fun _ => AllSent (Confidential data)) := by
    apply Effect.ensures_modify
    intro self kept
    exact kept
  apply Effect.ensures_bind (base_keeps_guarded draws)
  intro _
  exact get_token_keeps stack _

/-! ### What the packets of a server do -/

/-- After the handshake has begun, the client is secure. -/
theorem complete_security_keeps :
    Effect.Ensures
      (fun ssl => AllSent (Confidential data) ssl ∧ ssl.security_state_ ≠ .kInit)
      SSLClient.complete_security
      (fun _ ssl => AllSent (Confidential data) ssl ∧ ssl.security_state_ = .kDone)
      (fun _ => AllSent (Confidential data)) := by
  apply Effect.ensures_modify
  rintro self ⟨kept, begun⟩
  cases state : self.security_state_ with
  | kInit => exact absurd state begun
  | kInProgress =>
      rw [if_pos rfl]
      exact ⟨kept, rfl⟩
  | kDone =>
      rw [if_neg (by decide)]
      exact ⟨kept, state⟩

theorem proc_security_keeps (platform : Platform) (stack : Nat → UInt8) (pkt : IPacket) :
    Effect.Ensures
      (fun self => Guarded data self ∧
        (pkt.getMsgId ≠ MSG_S2C_SECURITY_INIT → self.ssl.security_state_ ≠ .kInit))
      (proc_security stack platform pkt) (fun _ => Guarded data) (fun _ => Guarded data) := by
  unfold proc_security
  split
  next =>
    have reads : Effect.Ensures
        (fun self => Guarded data self ∧
          (pkt.getMsgId ≠ MSG_S2C_SECURITY_INIT → self.ssl.security_state_ ≠ .kInit))
        (Effect.lift pkt.read_string) (fun _ => Guarded data) (fun _ => Guarded data) := by
      apply Effect.ensures_weaken (lift_keeps pkt.read_string)
      · intro self holds
        exact holds.1
      · intro _ self guarded
        exact guarded
      · intro _ self guarded
        exact guarded
    apply Effect.ensures_bind reads
    rintro ⟨pubkey, after⟩
    apply Effect.ensures_bind (base_keeps_guarded (init_security_keeps platform stack pubkey))
    intro _
    apply Effect.ensures_pure
    intro self guarded
    exact guarded
  next isFinal =>
    have completes : Effect.Ensures
        (fun self => Guarded data self ∧
          (pkt.getMsgId ≠ MSG_S2C_SECURITY_INIT → self.ssl.security_state_ ≠ .kInit))
        (base SSLClient.complete_security)
        (fun _ self => Guarded data self ∧ self.ssl.security_state_ = .kDone)
        (fun _ => Guarded data) := by
      apply Effect.ensures_weaken (base_keeps complete_security_keeps)
      · intro self holds
        exact ⟨holds.1, holds.2 isFinal⟩
      · intro _ self holds
        exact holds
      · intro _ self guarded
        exact guarded
    apply Effect.ensures_bind completes
    intro _
    apply Effect.ensures_bind (login_keeps stack)
    intro _
    apply Effect.ensures_pure
    intro self guarded
    exact guarded

theorem proc_login_result_keeps (pkt : IPacket) :
    Effect.Ensures (Guarded data) (proc_login_result pkt) (fun _ => Guarded data)
      (fun _ => Guarded data) := by
  apply Effect.ensures_bind (lift_keeps pkt.read_int8)
  rintro ⟨flag, pkt⟩
  apply Effect.ensures_bind (lift_keeps pkt.read_int8)
  rintro ⟨_, pkt⟩
  dsimp only
  split
  · apply Effect.ensures_bind (lift_keeps pkt.read_string)
    rintro ⟨_, pkt⟩
    apply Effect.ensures_bind (lift_keeps pkt.read_string)
    rintro ⟨_, pkt⟩
    apply Effect.ensures_bind (lift_keeps pkt.read_string)
    rintro ⟨_, pkt⟩
    apply Effect.ensures_bind (lift_keeps pkt.read_string)
    rintro ⟨cookie, _⟩
    apply Effect.ensures_modify
    intro self guarded
    exact guarded
  · apply Effect.ensures_pure
    intro self guarded
    exact guarded

theorem proc_token_result_keeps (pkt : IPacket) :
    Effect.Ensures (Guarded data) (proc_token_result pkt) (fun _ => Guarded data)
      (fun _ => Guarded data) := by
  apply Effect.ensures_bind (lift_keeps pkt.read_string)
  intro _
  apply Effect.ensures_pure
  intro self guarded
  exact guarded

theorem proc_kicked_keeps (pkt : IPacket) :
    Effect.Ensures (Guarded data) (proc_kicked pkt) (fun _ => Guarded data)
      (fun _ => Guarded data) := by
  apply base_keeps_guarded
  apply Effect.ensures_get
  intro read kept
  split
  · intro self _
    exact kept
  · apply Effect.ensures_throw
    rintro self rfl
    exact kept

/-- Before a packet of the server is handled: INIT_FINAL finds the handshake begun. -/
def Expects (data : Bytes) (pkt : IPacket) (self : Login) : Prop :=
  Guarded data self ∧ (pkt.getMsgId = MSG_S2C_INIT_FINAL → self.ssl.security_state_ ≠ .kInit)

theorem expects_of_guarded {pkt : IPacket} {x : Action Unit}
    (keeps : Effect.Ensures (Guarded data) x (fun _ => Guarded data) (fun _ => Guarded data)) :
    Effect.Ensures (Expects data pkt) x (fun _ => Guarded data) (fun _ => Guarded data) := by
  apply Effect.ensures_weaken keeps
  · intro self holds
    exact holds.1
  · intro _ self guarded
    exact guarded
  · intro _ self guarded
    exact guarded

/-- Each operation of the map, for a packet with its identifier. -/
theorem operation_keeps {platform : Platform} {stack : Nat → UInt8} {pkt : IPacket}
    {operation : IPacket → Action Unit}
    (found : (kOperMap stack platform).lookup pkt.getMsgId = some operation) :
    Effect.Ensures (Expects data pkt) (operation pkt) (fun _ => Guarded data)
      (fun _ => Guarded data) := by
  have secures (known : pkt.getMsgId = MSG_S2C_SECURITY_INIT ∨ pkt.getMsgId = MSG_S2C_INIT_FINAL) :
      Effect.Ensures (Expects data pkt) (proc_security stack platform pkt)
        (fun _ => Guarded data) (fun _ => Guarded data) := by
    apply Effect.ensures_weaken (proc_security_keeps platform stack pkt)
    · intro self holds
      exact ⟨holds.1, fun isOther => holds.2 (known.resolve_left isOther)⟩
    · intro _ self guarded
      exact guarded
    · intro _ self guarded
      exact guarded
  simp only [kOperMap, List.lookup_cons, List.lookup_nil] at found
  split at found
  next isInit =>
    cases found
    exact secures (.inl (eq_of_beq isInit))
  next =>
    split at found
    next isFinal =>
      cases found
      exact secures (.inr (eq_of_beq isFinal))
    next =>
      split at found
      next =>
        cases found
        exact expects_of_guarded (proc_login_result_keeps pkt)
      next =>
        split at found
        next =>
          cases found
          exact expects_of_guarded (proc_token_result_keeps pkt)
        next =>
          split at found
          next =>
            cases found
            exact expects_of_guarded (proc_kicked_keeps pkt)
          next => contradiction

theorem caught_keeps (error : ExceptBase) :
    Effect.Ensures (Guarded data) (caught error) (fun _ => Guarded data)
      (fun _ => Guarded data) := by
  cases error with
  | packetOverread =>
      apply Effect.ensures_pure
      intro self guarded
      exact guarded
  | badPacket | packetOverwrite | assertion =>
      apply Effect.ensures_throw
      intro self guarded
      exact guarded

/-- Deciphering keeps the header. -/
theorem deciphered_getMsgId {self : Login} {stack : Nat → UInt8} {pkt after : IPacket}
    (deciphers : self.deciphered stack pkt = .ok after) : after.getMsgId = pkt.getMsgId := by
  unfold deciphered at deciphers
  split at deciphers
  · unfold IPacket.decode at deciphers
    split at deciphers
    · cases deciphers
      rfl
    next some =>
      dsimp only at deciphers
      split at deciphers
      · contradiction
      · unfold IPacket.setData at deciphers
        split at deciphers
        · contradiction
        · cases deciphers
          have whole : 12 ≤ pkt.received.length := by
            have header : kHdrLen = 12 := rfl
            unfold IPacket.getDataSize at some
            split at some <;> omega
          have header : (pkt.received.take kHdrLen).length = 12 := by
            rw [List.length_take]
            exact Nat.min_eq_left whole
          rw [IPacket.getMsgId, IPacket.getMsgId]
          dsimp only
          rw [List.drop_append_of_le_length (by omega), List.drop_take,
            List.take_append_of_le_length (by
              rw [List.length_take, List.length_drop]
              have : kHdrLen = 12 := rfl
              omega), List.take_take]
          rfl
  · cases deciphers
    rfl

theorem dispatch_keeps (platform : Platform) (stack : Nat → UInt8) (pkt : IPacket) :
    Effect.Ensures (Expects data pkt) (dispatch stack platform pkt) (fun _ => Guarded data)
      (fun _ => Guarded data) := by
  apply Effect.ensures_get
  intro read expects
  have deciphers : Effect.Ensures (fun self => self = read)
      (Effect.lift (read.deciphered stack pkt)) (fun after => Expects data after)
      (fun _ => Guarded data) := by
    apply Effect.ensures_lift
    · rintro after deciphered self rfl
      rw [Expects, deciphered_getMsgId deciphered]
      exact expects
    · rintro error self rfl
      exact expects.1
  apply Effect.ensures_bind deciphers
  intro pkt
  split
  next operation found => exact Effect.ensures_catch (operation_keeps found) caught_keeps
  next =>
    apply Effect.ensures_pure
    intro self holds
    exact holds.1

theorem handle_keeps (platform : Platform) {self : Process Login ExceptBase} {label : Label}
    (heeds : Heeds self label) :
    Effect.Ensures (fun state => Guarded data state ∧ state = self.state) (handle platform label)
      (fun _ => Guarded data) (fun _ => Guarded data) := by
  obtain ⟨stack, event⟩ := label
  cases event with
  | packet received =>
      apply Effect.ensures_weaken (dispatch_keeps platform stack _)
      · rintro state ⟨guarded, rfl⟩
        exact ⟨guarded, heeds⟩
      · intro _ state guarded
        exact guarded
      · intro _ state guarded
        exact guarded
  | random_action =>
      apply Effect.ensures_weaken (random_action_keeps stack)
      · intro state holds
        exact holds.1
      · intro _ state guarded
        exact guarded
      · intro _ state guarded
        exact guarded
  | logout =>
      apply Effect.ensures_weaken (logout_keeps stack)
      · intro state holds
        exact holds.1
      · intro _ state guarded
        exact guarded
      · intro _ state guarded
        exact guarded

end Guarded

/-- No login is sent in clear, in any run in which no INIT_FINAL arrives before the
handshake has begun. -/
theorem neverInClear_of_heeds (platform : Platform) (memory : Key) (fd : Int)
    (name passwd lang env : Bytes) (labels : List Label)
    (heeds : Along (step platform) Heeds (new memory fd name passwd lang env) labels) :
    Visits (step platform) (NeverInClear (new memory fd name passwd lang env).state.credentials)
      (new memory fd name passwd lang env) labels := by
  have guarded : Visits (step platform)
      (fun self => Guarded (new memory fd name passwd lang env).state.credentials self.state)
      (new memory fd name passwd lang env) labels := by
    refine visits_of_along ?_ ?_ heeds
    · intro self label after guarded heeds taken
      cases Option.some.inj taken
      apply Process.next_keeps guarded _ (handle_keeps platform heeds)
      intro _
      exact ⟨guarded, rfl⟩
    · refine ⟨rfl, ?_⟩
      intro sending member
      cases member
  apply guarded.imp
  intro self holds
  exact holds.2

/-- SECURITY_INIT with an empty public key. -/
def securityInit : Label :=
  (fun _ => 0, .packet [0x50, 0x50, 0, 0, 2, 0, 1, 0, 0, 0, 0, 0, 0, 0])

def initFinal : Label := (fun _ => 0, .packet [0x50, 0x50, 0, 0, 0, 0, 2, 0, 0, 0, 0, 0])

/-- A client with one letter for each of its texts. -/
def oneLetterClient : Process Login ExceptBase := new ⟨0, 0, 0, 0⟩ 3 [0x61] [0x62] [0x63] [0x64]

/-- The handshake in the expected order. -/
theorem handshake_neverInClear :
    Visits (step SSLClient.countingPlatform) (NeverInClear oneLetterClient.state.credentials)
      oneLetterClient [securityInit, initFinal] := by
  apply neverInClear_of_heeds
  intro middle begins
  cases Option.some.inj begins
  constructor
  · intro isFinal
    exact absurd isFinal (by decide)
  · intro after taken
    cases Option.some.inj taken
    constructor
    · intro _
      decide +kernel
    · trivial

instance (credentials : Bytes) (sending : Transmission) :
    Decidable (Confidential credentials sending) :=
  inferInstanceAs (Decidable (_ → _ ∧ _))

/-- INIT_FINAL as the first packet: the credentials are sent in clear. -/
theorem initFinal_first_in_clear :
    ¬ Visits (step SSLClient.countingPlatform) (NeverInClear oneLetterClient.state.credentials)
      oneLetterClient [initFinal] := by
  intro visits
  have last := (visits.2 _ rfl).start
  unfold NeverInClear at last
  revert last
  decide +kernel

end Login

end StdPrograms.Release

import Mathlib.Data.List.Basic
import StdPrograms.Foundation.LittleEndian

/-!
Contract: the client of `daily/src/net/client.cpp` with the header of `his/header.h`.

Owns the callbacks of the read loop, the `async_read` between them, what a peer sends
until it closes, and when the handler is told of every packet: the body is read over the
header, for as many bytes as the whole packet has, and no callback starts the next header.

Does not own what the handler does with a packet. Assertions are on.
-/

namespace StdPrograms.Daily

open StdPrograms.Foundation

/-! ### Headers -/

/-- `BaseHeader`. Without a size an assertion fails. -/
structure BaseHeader where
  size : Nat
  pkg_size : Bytes → Option Nat
  is_complete : Bytes → Bool

namespace HeaderWrapper

/-- `sizeof(Header)`, packed: prefix, msg_id, flag and data_size. -/
def HEADER_SIZE : Nat := 7

/-- `h->data_size`. -/
def data_size (pkg : Bytes) : Nat := ofLittleEndian ((pkg.drop 5).take 2)

def pkg_size (pkg : Bytes) : Option Nat :=
  if HEADER_SIZE ≤ pkg.length then some (HEADER_SIZE + data_size pkg) else none

def is_complete (pkg : Bytes) : Bool :=
  if pkg.length < HEADER_SIZE then false else HEADER_SIZE + data_size pkg ≤ pkg.length

def header : BaseHeader where
  size := HEADER_SIZE
  pkg_size := pkg_size
  is_complete := is_complete

end HeaderWrapper

/-! ### The client -/

/-- Which callback waits for the pending `async_read`. -/
inductive Callback where
  | handle_read_header
  | handle_read_body
deriving DecidableEq, Repr

/-- What the handler is told. -/
inductive Event where
  | handle_packet (buffer : Bytes)
  | handle_closed
deriving DecidableEq, Repr

/-- `incoming` is what the peer sends from here on until it closes. -/
structure Client where
  recv_buffer_ : Bytes
  incoming : Bytes
  reading : Option Callback
  events : List Event
  aborted : Bool
deriving DecidableEq, Repr

namespace Client

/-- A client on a new connection. -/
def new (incoming : Bytes) : Client where
  recv_buffer_ := []
  incoming := incoming
  reading := none
  events := []
  aborted := false

/-- `recv_buffer_.resize(size)`. -/
def resize (self : Client) (size : Nat) : Client :=
  { self with
    recv_buffer_ := self.recv_buffer_.take size ++
      List.replicate (size - self.recv_buffer_.length) 0 }

def read_header (header : BaseHeader) (self : Client) : Client :=
  { self.resize header.size with reading := some .handle_read_header }

def run : BaseHeader → Client → Client := read_header

/-- `handler_->handle_closed(*this); socket_.close()`. -/
def close (self : Client) : Client :=
  { self with reading := none, events := self.events ++ [.handle_closed] }

/-- An assertion fails. -/
def abort (self : Client) : Client := { self with reading := none, aborted := true }

def handle_read_header (header : BaseHeader) (self : Client) (error : Bool) : Client :=
  match header.pkg_size self.recv_buffer_ with
  | none => self.abort
  | some size =>
      if error then (self.resize size).close
      else { self.resize size with reading := some .handle_read_body }

def handle_read_body (header : BaseHeader) (self : Client) (error : Bool) : Client :=
  if error then self.close
  else if header.is_complete self.recv_buffer_ then
    { self with reading := none, events := self.events ++ [.handle_packet self.recv_buffer_] }
  else self.abort

/-- The pending `async_read` fills the buffer from its beginning, or fails where the peer
has sent less, and its callback is called. -/
def complete (header : BaseHeader) (self : Client) : Client :=
  let size := self.recv_buffer_.length
  let received := self.incoming.take size
  let error := decide (received.length < size)
  let filled := { self with
    recv_buffer_ := received ++ self.recv_buffer_.drop received.length
    incoming := self.incoming.drop size }
  match self.reading with
  | none => self
  | some .handle_read_header => filled.handle_read_header header error
  | some .handle_read_body => filled.handle_read_body header error

/-- The event loop, for so many completions. -/
def drive (header : BaseHeader) : Nat → Client → Client
  | 0, self => self
  | completions + 1, self => drive header completions (self.complete header)

end Client

/-! ### What the peer sends -/

/-- A packet of the peer. Its data are shorter than 2^16 bytes. -/
structure Packet where
  prefixByte : UInt8
  msg_id : UInt16
  flag : UInt16
  data : Bytes
  small : data.length < 0x10000

namespace Packet

def header (packet : Packet) : Bytes :=
  packet.prefixByte :: (toLittleEndian 2 packet.msg_id.toNat ++
    (toLittleEndian 2 packet.flag.toNat ++ toLittleEndian 2 packet.data.length))

def bytes (packet : Packet) : Bytes := packet.header ++ packet.data

theorem header_length (packet : Packet) : packet.header.length = 7 := by
  simp [header]

/-- Whatever follows a header, its size is read back. -/
theorem pkg_size_header (packet : Packet) (back : Bytes) :
    HeaderWrapper.pkg_size (packet.header ++ back) = some (7 + packet.data.length) := by
  have found : ((packet.header ++ back).drop 5).take 2 =
      toLittleEndian 2 packet.data.length := by
    simp [header, toLittleEndian]
  have long : HeaderWrapper.HEADER_SIZE ≤ (packet.header ++ back).length := by
    rw [List.length_append, packet.header_length]
    exact Nat.le_add_right _ _
  have below : packet.data.length < modulus 2 := packet.small
  rw [HeaderWrapper.pkg_size, if_pos long, HeaderWrapper.data_size, found,
    ofLittleEndian_toLittleEndian, Nat.mod_eq_of_lt below]
  rfl

end Packet

/-- Whole packets, and the beginning of one that the peer does not finish. -/
structure Sent where
  packets : List Packet
  cut : Bytes
  unfinished : ∃ (packet : Packet) (missing : Bytes), packet.bytes = cut ++ missing ∧ missing ≠ []

namespace Sent

def bytes (sent : Sent) : Bytes := sent.packets.flatMap Packet.bytes ++ sent.cut

/-- The loop ends, and the handler was told of each packet once, in order, and then once
that the connection is closed. -/
def Delivered (sent : Sent) : Prop :=
  ∃ completions client, client =
      ((Client.new sent.bytes).run HeaderWrapper.header).drive HeaderWrapper.header completions ∧
    client.reading = none ∧ client.aborted = false ∧
    client.events = sent.packets.map (fun packet => .handle_packet packet.bytes) ++
      [.handle_closed]

end Sent

/-! ### The callbacks -/

namespace Client

open HeaderWrapper (HEADER_SIZE)

variable {self : Client}

/-- A read that the peer cannot fill closes the connection. -/
theorem complete_short {callback : Callback} (reading : self.reading = some callback)
    (sized : HEADER_SIZE ≤ self.recv_buffer_.length)
    (few : self.incoming.length < self.recv_buffer_.length) :
    (self.complete HeaderWrapper.header).reading = none ∧
      (self.complete HeaderWrapper.header).aborted = self.aborted ∧
      (self.complete HeaderWrapper.header).events = self.events ++ [.handle_closed] := by
  have received : self.incoming.take self.recv_buffer_.length = self.incoming :=
    List.take_of_length_le (Nat.le_of_lt few)
  have error : decide (self.incoming.length < self.recv_buffer_.length) = true :=
    decide_eq_true few
  have long : HEADER_SIZE ≤
      (self.incoming ++ self.recv_buffer_.drop self.incoming.length).length := by
    rw [List.length_append, List.length_drop]
    omega
  cases callback with
  | handle_read_header =>
      simp only [complete, reading, received, error, handle_read_header, HeaderWrapper.header,
        HeaderWrapper.pkg_size, if_pos long, if_true]
      exact ⟨rfl, rfl, rfl⟩
  | handle_read_body =>
      simp only [complete, reading, received, error, handle_read_body, if_true]
      exact ⟨rfl, rfl, rfl⟩

/-- A whole header is read, and the read of the whole packet begins where the header
stands. -/
theorem complete_header {packet : Packet} {back : Bytes}
    (reading : self.reading = some .handle_read_header)
    (sized : self.recv_buffer_.length = HEADER_SIZE)
    (incoming : self.incoming = packet.header ++ back) :
    self.complete HeaderWrapper.header =
      { self with
        recv_buffer_ := packet.header ++ List.replicate packet.data.length 0
        incoming := back
        reading := some .handle_read_body } := by
  have whole : packet.header.length = HEADER_SIZE := packet.header_length
  have received : (packet.header ++ back).take HEADER_SIZE = packet.header := by
    rw [← whole, List.take_left]
  have behind : (packet.header ++ back).drop HEADER_SIZE = back := by
    rw [← whole, List.drop_left]
  have none : self.recv_buffer_.drop HEADER_SIZE = [] :=
    List.drop_of_length_le (Nat.le_of_eq sized)
  have size := packet.pkg_size_header []
  rw [List.append_nil] at size
  have grown : 7 + packet.data.length - HEADER_SIZE = packet.data.length :=
    Nat.add_sub_cancel_left 7 packet.data.length
  have kept : packet.header.take (7 + packet.data.length) = packet.header :=
    List.take_of_length_le (by rw [packet.header_length]; omega)
  simp only [complete, reading, incoming, sized, received, behind, whole, none,
    handle_read_header, HeaderWrapper.header, List.append_nil, size, resize, grown, kept,
    Nat.lt_irrefl, decide_false, Bool.false_eq_true, if_false]

/-- The handler was told of at most one event, and of none while a read is pending. -/
def ToldOnce (client : Client) : Prop := client.events.length + client.reading.isSome.toNat ≤ 1

theorem complete_toldOnce (header : BaseHeader) (told : self.ToldOnce) :
    (self.complete header).ToldOnce := by
  unfold ToldOnce at *
  cases reading : self.reading with
  | none =>
      rw [complete, reading]
      exact told
  | some callback =>
      have nothing : self.events = [] := by
        rw [reading] at told
        apply List.eq_nil_of_length_eq_zero
        simp only [Option.isSome_some, Bool.toNat_true] at told
        omega
      cases callback with
      | handle_read_header =>
          simp only [complete, reading, handle_read_header]
          split
          next => simp [abort, nothing]
          next =>
            split
            next => simp [close, resize, nothing]
            next => simp [resize, nothing]
      | handle_read_body =>
          simp only [complete, reading, handle_read_body]
          split
          next => simp [close, nothing]
          next =>
            split
            next => simp [nothing]
            next => simp [abort, nothing]

theorem drive_toldOnce (header : BaseHeader) (completions : Nat) (told : self.ToldOnce) :
    (self.drive header completions).ToldOnce := by
  induction completions generalizing self with
  | zero => exact told
  | succ completions inductionHypothesis =>
      exact inductionHypothesis (complete_toldOnce header told)

end Client

/-! ### Delivery -/

namespace Sent

theorem run_toldOnce (incoming : Bytes) :
    ((Client.new incoming).run HeaderWrapper.header).ToldOnce := by
  simp [Client.ToldOnce, Client.run, Client.read_header, Client.resize, Client.new]

/-- An unfinished packet: the connection is closed in its header or behind it. -/
theorem delivered_of_no_packet (sent : Sent) (none : sent.packets = []) : sent.Delivered := by
  obtain ⟨packet, missing, cut, incomplete⟩ := sent.unfinished
  have positive := List.length_pos_iff.mpr incomplete
  have bytes : sent.bytes = sent.cut := by
    rw [Sent.bytes, none]
    rfl
  have lengths : packet.header.length + packet.data.length =
      sent.cut.length + missing.length := by
    rw [← List.length_append, ← List.length_append, ← cut]
    rfl
  rw [packet.header_length] at lengths
  have reading : ((Client.new sent.cut).run HeaderWrapper.header).reading =
      some .handle_read_header := rfl
  by_cases short : sent.cut.length < 7
  · obtain ⟨ended, alive, told⟩ := Client.complete_short reading (Nat.le_refl 7) short
    exact ⟨1, _, rfl, by rw [bytes]; exact ended, by rw [bytes]; exact alive,
      by rw [bytes, none]; exact told⟩
  · obtain ⟨front, isCut⟩ : ∃ behind, sent.cut = packet.header ++ behind := by
      have taken : sent.cut.take 7 = packet.header := by
        have both : (packet.header ++ packet.data).take 7 = (sent.cut ++ missing).take 7 := by
          rw [← cut]
          rfl
        rw [List.take_left' packet.header_length, List.take_append_of_le_length (by omega)]
          at both
        exact both.symm
      exact ⟨sent.cut.drop 7, by rw [← taken, List.take_append_drop]⟩
    have first := Client.complete_header reading rfl isCut
    have few : front.length <
        (packet.header ++ List.replicate packet.data.length (0 : UInt8)).length := by
      rw [List.length_append, List.length_replicate, packet.header_length]
      rw [isCut, List.length_append, packet.header_length] at lengths
      omega
    have body : (((Client.new sent.cut).run HeaderWrapper.header).complete
        HeaderWrapper.header).reading = some .handle_read_body := by
      rw [first]
    obtain ⟨ended, alive, told⟩ := Client.complete_short body
      (by rw [first, List.length_append, packet.header_length]; exact Nat.le_add_right _ _)
      (by rw [first]; exact few)
    refine ⟨2, _, rfl, ?_, ?_, ?_⟩
    · rw [bytes]
      exact ended
    · rw [bytes]
      exact alive.trans (by rw [first]; rfl)
    · rw [bytes, none]
      exact told.trans (by rw [first]; rfl)

/-- One event is not enough for a packet and the end. -/
theorem no_packet_of_delivered {sent : Sent} (delivered : sent.Delivered) :
    sent.packets = [] := by
  obtain ⟨completions, client, driven, -, -, events⟩ := delivered
  have told : client.ToldOnce := by
    rw [driven]
    exact Client.drive_toldOnce _ _ (run_toldOnce _)
  unfold Client.ToldOnce at told
  rw [events, List.length_append, List.length_map, List.length_singleton] at told
  exact List.eq_nil_of_length_eq_zero (by omega)

/-- Every packet is delivered, and then the end, exactly when the peer sends no whole
packet. -/
theorem delivered_iff (sent : Sent) : sent.Delivered ↔ sent.packets = [] :=
  ⟨no_packet_of_delivered, delivered_of_no_packet sent⟩

/-- One packet without data. -/
def emptyPacket : Sent where
  packets := [⟨0x7b, 5509, 0, [], by decide⟩]
  cut := []
  unfinished := ⟨⟨0x7b, 5509, 0, [], by decide⟩, _, rfl, List.cons_ne_nil _ _⟩

/-- The connection is closed and the packet is lost. -/
theorem emptyPacket_not_delivered :
    (((Client.new emptyPacket.bytes).run HeaderWrapper.header).drive
        HeaderWrapper.header 2).events = [.handle_closed] ∧ ¬ emptyPacket.Delivered := by
  refine ⟨by decide +kernel, ?_⟩
  intro delivered
  cases no_packet_of_delivered delivered

end Sent

end StdPrograms.Daily

import StdPrograms.Foundation.Except
import StdPrograms.Release.Framing

/-!
Contract: what is written to an `OPacket` and read back from an `IPacket`.

Owns sequences of typed values, their writing and reading, and the exact
condition under which a sequence comes back. The writer lets a packet fill up to
its size and cuts the length of a text to 16 bits; the reader asserts that a
position stays below the packet size, and for most types below that size less
the header.

Does not own encryption or the splitting of the bytes.
-/

namespace StdPrograms.Release

open StdPrograms.Foundation

/-! ### Typed sequences -/

inductive Kind where
  | int (type : IntType)
  | string

inductive Val where
  | int (data : Int)
  | string (str : Bytes)

/-- A value of one of the integer types, or a `std::string`. -/
inductive Datum where
  | int (type : IntType) (data : Int) (holds : type.Holds data)
  | string (str : Bytes)

namespace Datum

def kind : Datum → Kind
  | int type _ _ => .int type
  | string _ => .string

def val : Datum → Val
  | int _ data _ => .int data
  | string str => .string str

/-- The bytes of a value whose length fits into 16 bits. -/
def bytes : Datum → Bytes
  | int type data _ => ofInt type.size data
  | string str => ofInt 2 str.length ++ str

end Datum

def OPacket.write (self : OPacket) : Datum → OPacket.Outcome
  | .int type data _ => OPacket.write_int type self data
  | .string str => self.write_string str

/-- The values one after the other, up to an exception. -/
def OPacket.writes (self : OPacket) : List Datum → Except ExceptBase OPacket
  | [] => .ok self
  | datum :: rest =>
      match self.write datum with
      | { packet, thrown := none } => packet.writes rest
      | { thrown := some error, .. } => .error error

def IPacket.read (self : IPacket) : Kind → Except ExceptBase (Val × IPacket)
  | .int type => do
      let (data, after) ← IPacket.read_int type self
      return (.int data, after)
  | .string => do
      let (str, after) ← self.read_string
      return (.string str, after)

/-- Values of these types one after the other, up to an exception. -/
def IPacket.reads (self : IPacket) : List Kind → Except ExceptBase (List Val × IPacket)
  | [] => .ok ([], self)
  | kind :: rest => do
      let (value, self) ← self.read kind
      let (values, self) ← self.reads rest
      return (value :: values, self)

/-- A packet that received the wound bytes yields the values, in their types. -/
def ReadsBack (packet : OPacket) (values : List Datum) : Prop :=
  ∃ received copied after,
    IPacket.reset.append packet.wind.getBuf = .ok (received, copied) ∧
    received.reads (values.map Datum.kind) = .ok (values.map Datum.val, after)

/-! ### The condition -/

/-- The bound that the reader asserts of the position behind a value. -/
def IntType.limit : IntType → Nat
  | .int8 => PACKET_SIZE
  | _ => PACKET_SIZE - kHdrLen

/-- Behind every value, the position is below the reader's bound, and every text
has a length of 16 bits. -/
def Readable (pos : Nat) : List Datum → Prop
  | [] => True
  | .int type _ _ :: rest => pos + type.size < type.limit ∧ Readable (pos + type.size) rest
  | .string str :: rest =>
      str.length < 0x10000 ∧ pos + 2 < PACKET_SIZE - kHdrLen ∧
        pos + 2 + str.length < PACKET_SIZE ∧ Readable (pos + 2 + str.length) rest

/-! ### Reading -/

namespace IPacket

theorem read_int_eq (type : IntType) : read_int type = limitedInt type.limit type := by
  cases type <;> rfl

/-- A read that succeeds found its bytes and stayed below the bound. -/
theorem limitedInt_eq_ok {limit : Nat} {type : IntType} {self after : IPacket} {data : Int} :
    limitedInt limit type self = .ok (data, after) ↔
      self.pos + type.size ≤ self.received.length ∧ self.pos + type.size < limit ∧
        data = type.ofBytes ((self.received.drop self.pos).take type.size) ∧
        after = { self with pos := self.pos + type.size } := by
  unfold limitedInt
  by_cases short : self.checkOverread type.size = true
  · rw [if_pos short]
    simp only [checkOverread, decide_eq_true_eq] at short
    constructor
    · nofun
    · omega
  · rw [if_neg short]
    simp only [checkOverread, decide_eq_true_eq] at short
    dsimp only [get]
    by_cases below : self.pos + type.size < limit
    · rw [if_pos below]
      constructor
      · intro same
        obtain ⟨rfl, rfl⟩ := Prod.mk.inj (Except.ok.inj same)
        exact ⟨by omega, below, rfl, rfl⟩
      · rintro ⟨-, -, rfl, rfl⟩
        rfl
    · rw [if_neg below]
      constructor
      · nofun
      · omega

/-- A text that is read has the length in front of it, and all its bytes. -/
theorem read_string_eq_ok {self after : IPacket} {str : Bytes} :
    self.read_string = .ok (str, after) ↔
      self.pos + 2 + str.length ≤ self.received.length ∧
        self.pos + 2 < PACKET_SIZE - kHdrLen ∧ self.pos + 2 + str.length < PACKET_SIZE ∧
        ofLittleEndian ((self.received.drop self.pos).take 2) = str.length ∧
        str = (self.received.drop (self.pos + 2)).take str.length ∧
        after = { self with pos := self.pos + 2 + str.length } := by
  have prefixRead (len : Int) (middle : IPacket) : self.read_uint16 = .ok (len, middle) ↔
      self.pos + 2 ≤ self.received.length ∧ self.pos + 2 < PACKET_SIZE - kHdrLen ∧
        len = ofLittleEndian ((self.received.drop self.pos).take 2) ∧
        middle = { self with pos := self.pos + 2 } := limitedInt_eq_ok
  unfold read_string
  constructor
  · intro returned
    split at returned
    next => contradiction
    next =>
      split at returned
      next => contradiction
      next len middle found =>
        obtain ⟨inside, below, rfl, rfl⟩ := (prefixRead _ _).mp found
        split at returned
        next => contradiction
        next short =>
          simp only [checkOverread, decide_eq_true_eq, Int.toNat_natCast, not_lt] at short
          dsimp only at returned
          split at returned
          next bounded =>
            obtain ⟨isStr, isAfter⟩ := Prod.mk.inj (Except.ok.inj returned)
            simp only [get, Int.toNat_natCast] at bounded isStr isAfter
            have length : str.length =
                ofLittleEndian ((self.received.drop self.pos).take 2) := by
              rw [← isStr, List.length_take, List.length_drop]
              omega
            rw [length]
            exact ⟨short, below, bounded, rfl, isStr.symm, isAfter.symm⟩
          next => contradiction
  · rintro ⟨inside, below, bounded, length, isStr, rfl⟩
    have found := (prefixRead _ _).mpr ⟨by omega, below, rfl, rfl⟩
    rw [if_neg (by simp only [checkOverread, decide_eq_true_eq]; omega), found]
    dsimp only
    rw [if_neg (by
      simp only [checkOverread, decide_eq_true_eq, Int.toNat_natCast, length]
      omega)]
    have isGet : IPacket.get { self with pos := self.pos + 2 }
        ((ofLittleEndian ((self.received.drop self.pos).take 2) : Int).toNat) =
        (str, { self with pos := self.pos + 2 + str.length }) := by
      rw [get, Int.toNat_natCast, length, ← isStr]
    rw [isGet]
    exact if_pos bounded

/-- What is read back keeps to the reader's bounds. -/
theorem readable_of_reads {values : List Datum} {self after : IPacket}
    (returned : self.reads (values.map Datum.kind) = .ok (values.map Datum.val, after)) :
    Readable self.pos values := by
  induction values generalizing self with
  | nil => trivial
  | cons datum rest inductionHypothesis =>
      obtain ⟨⟨value, middle⟩, first, returned⟩ := exceptBind_eq_ok.mp returned
      obtain ⟨⟨values, last⟩, later, result⟩ := exceptBind_eq_ok.mp returned
      obtain ⟨isValues, rfl⟩ := Prod.mk.inj (Except.ok.inj result)
      obtain ⟨rfl, rfl⟩ := List.cons.inj isValues
      have readRest := inductionHypothesis later
      cases datum with
      | int type data holds =>
          obtain ⟨⟨data', after'⟩, found, isFirst⟩ := exceptBind_eq_ok.mp first
          cases Except.ok.inj isFirst
          rw [read_int_eq] at found
          obtain ⟨-, below, -, rfl⟩ := limitedInt_eq_ok.mp found
          exact ⟨below, readRest⟩
      | string str =>
          obtain ⟨⟨str', after'⟩, found, isFirst⟩ := exceptBind_eq_ok.mp first
          cases Except.ok.inj isFirst
          obtain ⟨inside, below, bounded, length, -, rfl⟩ := read_string_eq_ok.mp found
          have two : ((self.received.drop self.pos).take 2).length = 2 := by
            rw [List.length_take, List.length_drop]
            omega
          have word := ofLittleEndian_lt ((self.received.drop self.pos).take 2)
          rw [two, length] at word
          exact ⟨word, below, bounded, readRest⟩

end IPacket

/-! ### Reading what was written -/

/-- The bytes of the values, one after the other. -/
def encoded (values : List Datum) : Bytes := (values.map Datum.bytes).flatten

theorem readable_rest {datum : Datum} {rest : List Datum} {pos : Nat}
    (readable : Readable pos (datum :: rest)) : Readable (pos + datum.bytes.length) rest := by
  cases datum with
  | int type data holds =>
      rw [Datum.bytes, ofInt_length]
      exact readable.2
  | string str =>
      rw [Datum.bytes, List.length_append, ofInt_length, ← Nat.add_assoc]
      exact readable.2.2.2

theorem ofLittleEndian_length {length : Nat} (small : length < 0x10000) :
    ofLittleEndian (ofInt 2 length) = length := by
  have word : (ofLittleEndian (ofInt 2 length) : Int) = length :=
    toUnsigned_ofInt 2 length (by omega) (by exact_mod_cast small)
  exact_mod_cast word

namespace IPacket

/-- One readable value is read from the front of its bytes. -/
theorem read_bytes {datum : Datum} {rest : List Datum} {front back : Bytes}
    (readable : Readable front.length (datum :: rest)) :
    IPacket.read ⟨front ++ (datum.bytes ++ back), front.length⟩ datum.kind =
      .ok (datum.val, ⟨front ++ (datum.bytes ++ back), front.length + datum.bytes.length⟩) := by
  cases datum with
  | int type data holds =>
      obtain ⟨below, -⟩ := readable
      have size : (ofInt type.size data).length = type.size := ofInt_length _ _
      have found : read_int type ⟨front ++ (ofInt type.size data ++ back), front.length⟩ =
          .ok (data, ⟨front ++ (ofInt type.size data ++ back), front.length + type.size⟩) := by
        rw [read_int_eq]
        refine limitedInt_eq_ok.mpr ⟨?_, below, ?_, rfl⟩
        · simp only [List.length_append, size]
          omega
        · dsimp only
          rw [List.drop_left, List.take_left' size, IntType.ofBytes_ofInt holds]
      rw [show (Datum.int type data holds).bytes = ofInt type.size data from rfl, size]
      show (read_int type _ >>= _) = _
      rw [found]
      rfl
  | string str =>
      obtain ⟨small, below, bounded, -⟩ := readable
      have two : (ofInt 2 str.length).length = 2 := ofInt_length _ _
      have length : (Datum.string str).bytes.length = 2 + str.length := by
        rw [Datum.bytes, List.length_append, two]
      have found : read_string ⟨front ++ ((Datum.string str).bytes ++ back), front.length⟩ =
          .ok (str, ⟨front ++ ((Datum.string str).bytes ++ back),
            front.length + 2 + str.length⟩) := by
        refine read_string_eq_ok.mpr ⟨?_, below, bounded, ?_, ?_, rfl⟩
        · simp only [List.length_append, length]
          omega
        · dsimp only [Datum.bytes]
          rw [List.drop_left, List.append_assoc, List.take_left' two, ofLittleEndian_length small]
        · dsimp only [Datum.bytes]
          rw [List.append_assoc, ← List.append_assoc front,
            List.drop_left' (by rw [List.length_append, two]), List.take_left]
      rw [length, ← Nat.add_assoc]
      show (read_string _ >>= _) = _
      rw [found]
      rfl

/-- Readable values are read back from their bytes. -/
theorem reads_encoded {values : List Datum} {front : Bytes}
    (readable : Readable front.length values) :
    ∃ after, IPacket.reads ⟨front ++ encoded values, front.length⟩ (values.map Datum.kind) =
      .ok (values.map Datum.val, after) := by
  induction values generalizing front with
  | nil => exact ⟨_, rfl⟩
  | cons datum rest inductionHypothesis =>
      have moved : (front ++ datum.bytes).length = front.length + datum.bytes.length :=
        List.length_append
      have readRest := readable_rest readable
      rw [← moved] at readRest
      obtain ⟨after, later⟩ := inductionHypothesis readRest
      rw [moved, List.append_assoc] at later
      refine ⟨after, ?_⟩
      show (IPacket.read ⟨front ++ (datum.bytes ++ encoded rest), front.length⟩ datum.kind >>= _) =
        _
      rw [read_bytes readable]
      show (IPacket.reads _ (rest.map Datum.kind) >>= _) = _
      rw [later]
      rfl

end IPacket

/-! ### Writing -/

namespace OPacket

theorem write_int_fits {self : OPacket} {type : IntType} (data : Int)
    (fits : self.len + type.size ≤ PACKET_SIZE) :
    write_int type self data = { packet := self.put (ofInt type.size data) } := by
  have checked : checkedInt type self data = { packet := self.put (ofInt type.size data) } := by
    rw [checkedInt, if_neg]
    rw [checkOverwrite_eq_true]
    omega
  cases type with
  | int64 => rfl
  | int8 => exact checked
  | uint8 => exact checked
  | int16 => exact checked
  | uint16 => exact checked
  | int32 => exact checked
  | uint32 => exact checked
  | uint64 => exact checked

theorem limit_le (type : IntType) : type.limit ≤ PACKET_SIZE := by
  cases type <;> decide

/-- A readable value is appended to a packet, without an exception. -/
theorem write_readable {self : OPacket} {datum : Datum} {rest : List Datum}
    (atEnd : self.pos = self.len) (readable : Readable self.pos (datum :: rest)) :
    ∃ packet, self.write datum = { packet := packet } ∧
      packet.getBuf = self.getBuf ++ datum.bytes ∧
      packet.pos = self.pos + datum.bytes.length ∧ packet.pos = packet.len ∧
      packet.len ≤ PACKET_SIZE := by
  have limit : PACKET_SIZE < 0x10000 := by decide
  cases datum with
  | int type data holds =>
      obtain ⟨below, -⟩ := readable
      have bound := limit_le type
      have size : (ofInt type.size data).length = type.size := ofInt_length _ _
      obtain ⟨bytes, pos, len⟩ := put_getBuf self (ofInt type.size data) atEnd (by omega)
      exact ⟨_, write_int_fits data (by omega), bytes, pos, by omega, by omega⟩
  | string str =>
      obtain ⟨small, below, bounded, -⟩ := readable
      have two : (ofInt 2 str.length).length = 2 := ofInt_length _ _
      obtain ⟨bytes, pos, len⟩ := put_getBuf self (ofInt 2 str.length) atEnd (by omega)
      obtain ⟨bytes', pos', len'⟩ :=
        put_getBuf (self.put (ofInt 2 str.length)) str (by omega) (by omega)
      have written : self.write_string str =
          { packet := (self.put (ofInt 2 str.length)).put str } := by
        have whole : str.length % 0x10000 = str.length := Nat.mod_eq_of_lt small
        rw [write_string_eq (by omega), lengthBytes, whole, List.take_length, if_neg, if_neg]
        · omega
        · rw [checkOverwrite_eq_true]
          omega
      refine ⟨_, written, ?_, ?_, by omega, by omega⟩
      · rw [bytes', bytes, Datum.bytes, List.append_assoc]
      · rw [Datum.bytes, List.length_append]
        omega

/-- Readable values are appended to a packet, without an exception. -/
theorem writes_readable (self : OPacket) {values : List Datum} (atEnd : self.pos = self.len)
    (bounded : self.len ≤ PACKET_SIZE) (readable : Readable self.pos values) :
    ∃ packet, self.writes values = .ok packet ∧ packet.getBuf = self.getBuf ++ encoded values ∧
      self.len ≤ packet.len ∧ packet.len ≤ PACKET_SIZE := by
  induction values generalizing self with
  | nil => exact ⟨self, rfl, (List.append_nil _).symm, le_rfl, bounded⟩
  | cons datum rest inductionHypothesis =>
      obtain ⟨middle, first, bytes, pos, atEnd', bounded'⟩ := write_readable atEnd readable
      have readRest := readable_rest readable
      rw [← pos] at readRest
      obtain ⟨packet, later, bytes', longer, bounded''⟩ :=
        inductionHypothesis middle atEnd' bounded' readRest
      refine ⟨packet, ?_, ?_, by omega, bounded''⟩
      · rw [writes, first]
        exact later
      · rw [bytes', bytes, List.append_assoc]
        rfl

end OPacket

/-! ### The round trip -/

/-- Winding keeps what is behind the header. -/
theorem wind_header {packet : OPacket} {header data : Bytes} (whole : kHdrLen ≤ packet.len)
    (bytes : packet.getBuf = header ++ data) (length : header.length = kHdrLen) :
    ∃ front, front.length = kHdrLen ∧ packet.wind.getBuf = front ++ data := by
  have twelve : header.length = 12 := length
  refine ⟨header.take 4 ++ (toLittleEndian 2 packet.getDataSize ++ header.drop 6), ?_, ?_⟩
  · simp only [List.length_append, List.length_take, List.length_drop, toLittleEndian_length]
    rw [twelve]
    rfl
  · rw [packet.wind_getBuf whole, bytes, List.take_append_of_le_length (by omega),
      List.drop_append_of_le_length (by omega)]
    simp only [List.append_assoc]

/-- Values written without an exception are read back exactly when they are
readable from behind the header on. -/
theorem writes_readsBack_iff {memory : Nat → UInt8} {values : List Datum} {packet : OPacket}
    (written : (OPacket.new memory).writes values = .ok packet) :
    ReadsBack packet values ↔ Readable kHdrLen values := by
  constructor
  · rintro ⟨received, copied, after, appended, returned⟩
    have start : received.pos = kHdrLen := by
      rw [(IPacket.append_copies appended).1]
      rfl
    rw [← start]
    exact IPacket.readable_of_reads returned
  · intro readable
    have small : kHdrLen ≤ PACKET_SIZE := by decide
    obtain ⟨packet', written', bytes, whole, bounded⟩ :=
      (OPacket.new memory).writes_readable rfl small readable
    cases Except.ok.inj (written.symm.trans written')
    have headerSize : (OPacket.new memory).getBuf.length = kHdrLen := OPacket.getBuf_length _
    obtain ⟨front, length, wound⟩ := wind_header whole bytes headerSize
    have appended := IPacket.append_whole (packet.wind_framed whole bounded)
    rw [← length] at readable
    obtain ⟨after, returned⟩ := IPacket.reads_encoded readable
    rw [← wound, length] at returned
    exact ⟨_, _, after, appended, returned⟩

/-- A text between a negative integer and a negative byte. -/
theorem negative_and_text_readsBack :
    ∃ packet, (OPacket.new fun _ => 0).writes
        [.int .int32 (-70000) (by decide), .string [0x68, 0x69], .int .int8 (-7) (by decide)] =
          .ok packet ∧
      packet.getData = [0x90, 0xee, 0xfe, 0xff, 0x02, 0x00, 0x68, 0x69, 0xf9] ∧
      ReadsBack packet
        [.int .int32 (-70000) (by decide), .string [0x68, 0x69], .int .int8 (-7) (by decide)] :=
  ⟨_, rfl, by decide, (writes_readsBack_iff rfl).mpr
    ⟨by decide, ⟨by decide, by decide, by decide, by decide, trivial⟩⟩⟩

/-- A text of 65536 bytes is written as an empty one. -/
theorem long_text_not_readsBack :
    ∃ packet, (OPacket.new fun _ => 0).writes [.string (List.replicate 0x10000 0x61)] =
        .ok packet ∧
      ¬ ReadsBack packet [.string (List.replicate 0x10000 0x61)] := by
  have length : (List.replicate 0x10000 (0x61 : UInt8)).length = 0x10000 := List.length_replicate
  generalize List.replicate 0x10000 (0x61 : UInt8) = str at length
  have cut : str.length % 0x10000 = 0 := by rw [length]
  have written : (OPacket.new fun _ => 0).write_string str =
      { packet := ((OPacket.new fun _ => 0).put (OPacket.lengthBytes str)).put [] } := by
    rw [OPacket.write_string_eq le_rfl, cut, List.take_zero, if_neg (by decide),
      if_neg (by decide)]
  refine ⟨((OPacket.new fun _ => 0).put (OPacket.lengthBytes str)).put [], ?_, ?_⟩
  · rw [OPacket.writes, OPacket.write, written]
    rfl
  · rintro ⟨received, copied, after, -, returned⟩
    have short := (IPacket.readable_of_reads returned).1
    omega

end StdPrograms.Release

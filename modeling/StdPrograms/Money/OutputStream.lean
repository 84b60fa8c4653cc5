import StdPrograms.Foundation.Transitions
import StdPrograms.Money.Advances

/-!
Contract: `OutputBufferStream` of `stream.h`, and what an `InputStream` reads of what it
wrote.

Owns the three overloads of `write`, the reads of the same types, and for which values
these return what was written. The room is checked for the whole container, and the
length is cut to the size type before it is stored.

A type with a member `update` is read through it, and computes the object from as many
bytes as it has. Does not own what such a member computes.
-/

namespace StdPrograms.Money

open StdPrograms.Foundation

/-! ### Types -/

/-- A POD type. -/
structure PodType where
  size : Nat
  update : Option (Bytes → Except Failure Bytes) := none
  positive : 0 < size

/-- An integral type, for a container's length. -/
inductive IntegralType where
  | number (type : SizeType)
  | bool

namespace IntegralType

def width : IntegralType → Nat
  | number type => type.width
  | bool => 1

/-- `static_cast<_SizeType>(container.size())`, as it stands in memory. -/
def cast : IntegralType → Nat → Bytes
  | number type, length => toLittleEndian type.width length
  | bool, length => toLittleEndian 1 (if length = 0 then 0 else 1)

def value : IntegralType → Bytes → Int
  | number type, bytes => type.value bytes
  | bool, bytes => toUnsigned bytes

/-- `std::numeric_limits<_SizeType>::max()` -/
def max : IntegralType → Nat
  | number type => if type.signed then modulus type.width / 2 - 1 else modulus type.width - 1
  | bool => 1

theorem width_le (type : IntegralType) : type.width ≤ 8 := by
  cases type with
  | number type =>
      have integral := type.integral
      change type.width ≤ 8
      omega
  | bool => decide

theorem length_cast (type : IntegralType) (length : Nat) :
    (type.cast length).length = type.width := by
  cases type <;> exact toLittleEndian_length _ _

theorem modulus_cases (type : SizeType) :
    modulus type.width = 2 ^ 8 ∨ modulus type.width = 2 ^ 16 ∨
      modulus type.width = 2 ^ 32 ∨ modulus type.width = 2 ^ 64 := by
  rcases type.integral with width | width | width | width <;> rw [width] <;> decide

/-- A length is read again exactly up to the greatest number of the type. -/
theorem size_t_value_cast_iff (type : IntegralType) {length : Nat} (short : length < 2 ^ 63) :
    size_t (type.value (type.cast length)) = length ↔ length ≤ type.max := by
  cases type with
  | number type =>
      have word := ofLittleEndian_toLittleEndian type.width length
      change size_t (type.value (toLittleEndian type.width length)) = length ↔
        length ≤ if type.signed then modulus type.width / 2 - 1 else modulus type.width - 1
      rw [SizeType.value, size_t]
      split
      next =>
        rw [toSigned, word, toLittleEndian_length]
        rcases modulus_cases type with eq | eq | eq | eq <;> rw [eq] <;> split <;> omega
      next =>
        rw [toUnsigned, word]
        rcases modulus_cases type with eq | eq | eq | eq <;> rw [eq] <;> omega
  | bool =>
      change size_t (toUnsigned (toLittleEndian 1 (if length = 0 then 0 else 1))) = length ↔
        length ≤ 1
      rw [toUnsigned, ofLittleEndian_toLittleEndian, size_t]
      have byte : modulus 1 = 256 := rfl
      rw [byte]
      split <;> omega

end IntegralType

inductive ValueType where
  | pod (type : PodType)
  | array (size : Nat)
  | container (size : IntegralType) (type : PodType)

inductive Value where
  | object (bytes : Bytes)
  | elements (values : List Bytes)
deriving DecidableEq, Repr

/-- A value of a call of `write`. -/
inductive Item where
  | pod (type : PodType) (bytes : Bytes) (length : bytes.length = type.size)
  | array (bytes : Bytes)
  | container (size : IntegralType) (type : PodType) (elements : List Bytes)
      (lengths : ∀ element ∈ elements, element.length = type.size)
      (fits : type.size * elements.length < 2 ^ 63)

namespace Item

def type : Item → ValueType
  | pod type _ _ => .pod type
  | array bytes => .array bytes.length
  | container size type _ _ _ => .container size type

def value : Item → Value
  | pod _ bytes _ => .object bytes
  | array bytes => .object bytes
  | container _ _ elements _ _ => .elements elements

def encode : Item → Bytes
  | pod _ bytes _ => bytes
  | array bytes => bytes
  | container size _ elements _ _ => size.cast elements.length ++ elements.flatten

end Item

/-! ### Writing -/

/-- The bytes written to `buffer_`, which are up to `offset_`. -/
structure OutputBufferStream (_BufSize : Nat) where
  written : Bytes
  within : written.length ≤ _BufSize
  addressable : _BufSize < 2 ^ 63

namespace OutputBufferStream

variable {_BufSize : Nat}

def new (addressable : _BufSize < 2 ^ 63) : OutputBufferStream _BufSize where
  written := []
  within := Nat.zero_le _
  addressable := addressable

def writeable (self : OutputBufferStream _BufSize) : Nat := _BufSize - self.written.length

/-- `memcpy` to the buffer, if there is room. -/
def append (bytes : Bytes) (self : OutputBufferStream _BufSize) :
    Bool × OutputBufferStream _BufSize :=
  if room : bytes.length ≤ self.writeable then
    (true,
      { self with
        written := self.written ++ bytes
        within := by
          have within := self.within
          unfold writeable at room
          rw [List.length_append]
          omega })
  else (false, self)

/-- What the writes inside a container return is not looked at. -/
def write (self : OutputBufferStream _BufSize) : Item → Bool × OutputBufferStream _BufSize
  | .pod _ bytes _ => self.append bytes
  | .array bytes => self.append bytes
  | .container size type elements _ _ =>
      if self.writeable < (size.width + type.size * elements.length) % 2 ^ 64 then (false, self)
      else
        (true, elements.foldl (fun self element => (self.append element).2)
          (self.append (size.cast elements.length)).2)

/-- A call of `write` that returns `true`. -/
def writes (self : OutputBufferStream _BufSize) (item : Item) :
    Option (OutputBufferStream _BufSize) :=
  if (self.write item).1 then some (self.write item).2 else none

theorem written_append {bytes : Bytes} {self : OutputBufferStream _BufSize}
    (room : bytes.length ≤ self.writeable) :
    (self.append bytes).2.written = self.written ++ bytes := by
  rw [append, dif_pos room]

theorem writeable_append {bytes : Bytes} {self : OutputBufferStream _BufSize}
    (room : bytes.length ≤ self.writeable) :
    (self.append bytes).2.writeable = self.writeable - bytes.length := by
  rw [writeable, written_append room, List.length_append, Nat.sub_add_eq]
  rfl

/-- With room for all elements none is left out. -/
theorem written_elements {elements : List Bytes} {self : OutputBufferStream _BufSize}
    (room : elements.flatten.length ≤ self.writeable) :
    (elements.foldl (fun self element => (self.append element).2) self).written =
      self.written ++ elements.flatten := by
  induction elements generalizing self with
  | nil => exact (List.append_nil _).symm
  | cons element rest inductionHypothesis =>
      rw [List.flatten_cons, List.length_append] at room
      have first : element.length ≤ self.writeable := by omega
      rw [List.foldl_cons, inductionHypothesis, written_append first, List.flatten_cons,
        List.append_assoc]
      rw [writeable_append first]
      omega

theorem length_flatten {elements : List Bytes} {size : Nat}
    (lengths : ∀ element ∈ elements, element.length = size) :
    elements.flatten.length = size * elements.length := by
  rw [List.length_flatten, List.map_congr_left lengths, List.map_const', List.sum_replicate,
    Nat.mul_comm]
  rfl

/-- What is in the buffer behind a call that returned `true`. -/
theorem written_of_writes {self after : OutputBufferStream _BufSize} {item : Item}
    (wrote : self.writes item = some after) : after.written = self.written ++ item.encode := by
  unfold writes at wrote
  split at wrote
  next accepted =>
    rw [← Option.some.inj wrote]
    cases item with
    | pod type bytes length =>
        have room : bytes.length ≤ self.writeable := by
          by_contra full
          rw [write, append, dif_neg full] at accepted
          cases accepted
        exact written_append room
    | array bytes =>
        have room : bytes.length ≤ self.writeable := by
          by_contra full
          rw [write, append, dif_neg full] at accepted
          cases accepted
        exact written_append room
    | container size type elements lengths fits =>
        have narrow := size.width_le
        have needed : (size.width + type.size * elements.length) % 2 ^ 64 =
            size.width + type.size * elements.length := Nat.mod_eq_of_lt (by omega)
        have total := length_flatten lengths
        have prefixed := size.length_cast elements.length
        have room : ¬self.writeable < size.width + type.size * elements.length := by
          intro full
          rw [write, needed, if_pos full] at accepted
          cases accepted
        have first : (size.cast elements.length).length ≤ self.writeable := by omega
        rw [write, needed, if_neg room]
        dsimp only
        rw [written_elements, written_append first, Item.encode, List.append_assoc]
        rw [writeable_append first]
        omega
  next => cases wrote

/-- A value that there is room for is written. -/
theorem exists_writes {self : OutputBufferStream _BufSize} {item : Item}
    (room : item.encode.length ≤ self.writeable) : ∃ after, self.writes item = some after := by
  refine ⟨(self.write item).2, ?_⟩
  unfold writes
  apply if_pos
  cases item with
  | pod type bytes length =>
      rw [write, append, dif_pos (show bytes.length ≤ self.writeable from room)]
  | array bytes => rw [write, append, dif_pos (show bytes.length ≤ self.writeable from room)]
  | container size type elements lengths fits =>
      rw [Item.encode, List.length_append, size.length_cast, length_flatten lengths] at room
      have enough : ¬self.writeable < (size.width + type.size * elements.length) % 2 ^ 64 :=
        Nat.not_lt_of_le (le_trans (Nat.mod_le _ _) room)
      rw [write, if_neg enough]

/-- All calls of a run. -/
theorem written_of_follow {items : List Item} {self after : OutputBufferStream _BufSize}
    (followed : follow writes self items = some after) :
    after.written = self.written ++ items.flatMap Item.encode := by
  induction items generalizing self with
  | nil =>
      cases followed
      exact (List.append_nil _).symm
  | cons item rest inductionHypothesis =>
      obtain ⟨middle, wrote, later⟩ := Option.bind_eq_some_iff.mp followed
      rw [inductionHypothesis later, written_of_writes wrote, List.flatMap_cons,
        List.append_assoc]

end OutputBufferStream

namespace OutputBufferStream

variable {_BufSize : Nat}

/-- Values that there is room for together are all written. -/
theorem exists_follow {items : List Item} {self : OutputBufferStream _BufSize}
    (room : (items.flatMap Item.encode).length ≤ self.writeable) :
    ∃ after, follow writes self items = some after := by
  induction items generalizing self with
  | nil => exact ⟨self, rfl⟩
  | cons item rest inductionHypothesis =>
      rw [List.flatMap_cons, List.length_append] at room
      obtain ⟨middle, wrote⟩ := @exists_writes _BufSize self item (by omega)
      have shorter : middle.writeable = self.writeable - item.encode.length := by
        rw [writeable, written_of_writes wrote, List.length_append, Nat.sub_add_eq]
        rfl
      obtain ⟨after, later⟩ := @inductionHypothesis middle (by omega)
      refine ⟨after, ?_⟩
      rw [follow, wrote]
      exact later

end OutputBufferStream

/-! ### Reading -/

section Reads

variable {σ : Type} [InputType σ]

/-- What `read` makes of the bytes of an object. -/
def PodType.load (type : PodType) (bytes : Bytes) : Except Failure Bytes :=
  match type.update with
  | none => .ok bytes
  | some update => update bytes

def readPod (type : PodType) : Effect σ Failure Bytes := do
  let bytes ← InputStream.read type.size
  Effect.lift (type.load bytes)

/-- The loop of `push_back(read<_ElementType>())`. -/
def readPods (type : PodType) : Nat → Effect σ Failure (List Bytes)
  | 0 => pure []
  | count + 1 => do
      let element ← readPod type
      let rest ← readPods type count
      pure (element :: rest)

/-- What `read` into a container does with its size. -/
def fillPods (type : PodType) (size : Nat) : Effect σ Failure (List Bytes) := do
  let self ← get
  if InputType.readable self < size_t (type.size * size) then
    InputStream.throw_overread (size_t (type.size * size))
  else if 2 ^ 63 ≤ type.size * size then
    throw .lengthError
  else
    readPods type size

def readContainer (size : IntegralType) (type : PodType) : Effect σ Failure (List Bytes) := do
  let bytes ← InputStream.read size.width
  fillPods type (size_t (size.value bytes))

/-- An array has no `update`, whatever its elements have. -/
def readValue : ValueType → Effect σ Failure Value
  | .pod type => do
      let bytes ← readPod type
      pure (.object bytes)
  | .array size => do
      let bytes ← InputStream.read size
      pure (.object bytes)
  | .container size type => do
      let values ← readContainer size type
      pure (.elements values)

def readValues : List ValueType → Effect σ Failure (List Value)
  | [] => pure []
  | type :: rest => do
      let first ← readValue type
      let others ← readValues rest
      pure (first :: others)

end Reads

/-- Where a value comes back: the length is a number of the size type, and types that are
read through `update` give back the object that was written. -/
def Item.Representable : Item → Prop
  | .pod type bytes _ => type.load bytes = .ok bytes
  | .array _ => True
  | .container size type elements _ _ =>
      elements.length ≤ size.max ∧ ∀ element ∈ elements, type.load element = .ok element

namespace Advances

variable {σ : Type} [InputType σ] {stands : σ → Bytes → Prop} (advances : Advances stands)

include advances

/-- An object is loaded from its bytes, and the source stands behind them. -/
theorem exec_readPod {type : PodType} {bytes rest : Bytes} {self : σ}
    (length : bytes.length = type.size) (standing : stands self (bytes ++ rest)) :
    ∃ after, (readPod type).exec self = (type.load bytes, after) ∧ stands after rest := by
  obtain ⟨after, ran, onward⟩ := advances.delivers_read bytes self rest standing
  rw [length] at ran
  refine ⟨after, ?_, onward⟩
  rw [readPod, Effect.exec_bind, ran]
  rfl

theorem deliversIff_readPod {type : PodType} {bytes : Bytes} (length : bytes.length = type.size) :
    DeliversIff stands (readPod type) bytes bytes (type.load bytes = .ok bytes) := by
  intro self rest standing
  obtain ⟨after, ran, onward⟩ := advances.exec_readPod length standing
  constructor
  · intro loaded
    exact ⟨after, ran.trans (congrArg (·, after) loaded)⟩
  · intro other returned
    obtain ⟨loaded, reached⟩ := Prod.mk.inj (ran.symm.trans returned)
    subst reached
    exact ⟨loaded, onward⟩

theorem deliversIff_readPods {type : PodType} {elements : List Bytes}
    (lengths : ∀ element ∈ elements, element.length = type.size) :
    DeliversIff stands (readPods type elements.length) elements.flatten elements
      (∀ element ∈ elements, type.load element = .ok element) := by
  induction elements with
  | nil =>
      have nothing : (∀ element ∈ ([] : List Bytes), type.load element = .ok element) ↔ True :=
        iff_true_intro (List.forall_mem_nil _)
      rw [nothing]
      exact deliversIff_pure []
  | cons element others inductionHypothesis =>
      rw [List.forall_mem_cons] at lengths ⊢
      exact deliversIff_cons (advances.deliversIff_readPod lengths.1)
        (inductionHypothesis lengths.2)

omit advances in
theorem length_of_readPods {type : PodType} {count : Nat} {self after : σ}
    {elements : List Bytes} (returned : (readPods type count).exec self = (.ok elements, after)) :
    elements.length = count := by
  induction count generalizing self after elements with
  | zero =>
      cases returned
      rfl
  | succ count inductionHypothesis =>
      obtain ⟨first, middle, ran, later⟩ := Effect.exec_bind_ok returned
      obtain ⟨others, last, ranOthers, whole⟩ := Effect.exec_bind_ok later
      cases whole
      exact congrArg Nat.succ (inductionHypothesis ranOthers)

omit advances in
theorem exec_fillPods {type : PodType} {count : Nat} {self : σ}
    (enough : type.size * count ≤ InputType.readable self) (fits : type.size * count < 2 ^ 63) :
    (fillPods type count).exec self = (readPods type count).exec self := by
  have needed : size_t ((type.size : Int) * count) = type.size * count := by
    rw [size_t, ← Int.natCast_mul]
    omega
  rw [fillPods, Effect.exec_get, needed, if_neg (Nat.not_lt_of_le enough),
    if_neg (Nat.not_le_of_lt fits)]

omit advances in
theorem readPods_of_fillPods {type : PodType} {count : Nat} {self after : σ}
    {elements : List Bytes}
    (returned : (fillPods type count).exec self = (.ok elements, after)) :
    (readPods type count).exec self = (.ok elements, after) := by
  rw [fillPods, Effect.exec_get] at returned
  split at returned
  next => cases returned
  next =>
    split at returned
    next => cases returned
    next => exact returned

/-- A container comes back if its length does, and all its elements do. -/
theorem deliversIff_readContainer (size : IntegralType) {type : PodType} {elements : List Bytes}
    (lengths : ∀ element ∈ elements, element.length = type.size)
    (fits : type.size * elements.length < 2 ^ 63) :
    DeliversIff stands (readContainer size type) (size.cast elements.length ++ elements.flatten)
      elements
      (elements.length ≤ size.max ∧ ∀ element ∈ elements, type.load element = .ok element) := by
  intro self rest standing
  rw [List.append_assoc] at standing
  have short : elements.length < 2 ^ 63 :=
    Nat.lt_of_le_of_lt (Nat.le_mul_of_pos_left _ type.positive) fits
  obtain ⟨middle, ran, onward⟩ := advances.delivers_read (size.cast elements.length) self _ standing
  rw [size.length_cast] at ran
  have elementsExact := advances.deliversIff_readPods lengths middle rest onward
  constructor
  · intro holds
    obtain ⟨after, read⟩ := elementsExact.1 holds.2
    refine ⟨after, ?_⟩
    have enough := advances.within onward
    rw [OutputBufferStream.length_flatten lengths] at enough
    rw [readContainer, Effect.exec_bind, ran]
    dsimp only
    rw [(size.size_t_value_cast_iff short).mpr holds.1, exec_fillPods enough fits]
    exact read
  · intro after returned
    obtain ⟨bytes, between, ranFirst, filled⟩ := Effect.exec_bind_ok returned
    obtain ⟨same, reached⟩ := Prod.mk.inj (ran.symm.trans ranFirst)
    subst reached
    rw [← Except.ok.inj same] at filled
    have read := readPods_of_fillPods filled
    have length := length_of_readPods read
    rw [← length] at read
    obtain ⟨loaded, behind⟩ := elementsExact.2 after read
    exact ⟨⟨(size.size_t_value_cast_iff short).mp length.symm, loaded⟩, behind⟩

theorem deliversIff_readValue (item : Item) :
    DeliversIff stands (readValue item.type) item.encode item.value item.Representable := by
  cases item with
  | pod type bytes length =>
      exact deliversIff_map (advances.deliversIff_readPod length)
        fun other same => Value.object.inj same
  | array bytes =>
      exact deliversIff_map (advances.delivers_read bytes).iff
        fun other same => Value.object.inj same
  | container size type elements lengths fits =>
      exact deliversIff_map (advances.deliversIff_readContainer size lengths fits)
        fun other same => Value.elements.inj same

theorem deliversIff_readValues (items : List Item) :
    DeliversIff stands (readValues (items.map Item.type)) (items.flatMap Item.encode)
      (items.map Item.value) (∀ item ∈ items, item.Representable) := by
  induction items with
  | nil =>
      have nothing : (∀ item ∈ ([] : List Item), item.Representable) ↔ True :=
        iff_true_intro (List.forall_mem_nil _)
      rw [nothing]
      exact deliversIff_pure []
  | cons item rest inductionHypothesis =>
      rw [List.forall_mem_cons, List.flatMap_cons]
      exact deliversIff_cons (advances.deliversIff_readValue item) inductionHypothesis

end Advances

/-! ### There and back -/

namespace OutputBufferStream

variable {_BufSize : Nat}

/-- The written bytes in a file. -/
def file (self : OutputBufferStream _BufSize) : InputFile :=
  InputFile.new
    { bytes := self.written
      fits := Nat.lt_of_le_of_lt self.within self.addressable }

/-- The values are read from the file, and nothing is left. -/
def ReadsBack (self : OutputBufferStream _BufSize) (items : List Item) : Prop :=
  ∃ after, (readValues (items.map Item.type)).exec self.file =
    (.ok (items.map Item.value), after) ∧ InputStream.eof after = true

theorem stands_file {addressable : _BufSize < 2 ^ 63} {items : List Item}
    {self : OutputBufferStream _BufSize}
    (wrote : follow writes (new addressable) items = some self) :
    self.file.Stands (items.flatMap Item.encode ++ []) := by
  have written : self.written = items.flatMap Item.encode := written_of_follow wrote
  rw [List.append_nil, ← written]
  exact InputFile.stands_new self.file.contents

theorem representable_of_readsBack {addressable : _BufSize < 2 ^ 63} {items : List Item}
    {self : OutputBufferStream _BufSize}
    (wrote : follow writes (new addressable) items = some self)
    (back : self.ReadsBack items) : ∀ item ∈ items, item.Representable := by
  obtain ⟨after, returned, ended⟩ := back
  exact ((InputFile.advances.deliversIff_readValues items self.file []
    (stands_file wrote)).2 after returned).1

/-- What a run of successful writes left in the buffer is read back exactly if every length
is a number of its size type, and every `update` gives back its object. -/
theorem readsBack_iff (addressable : _BufSize < 2 ^ 63) (items : List Item)
    (self : OutputBufferStream _BufSize)
    (wrote : follow writes (new addressable) items = some self) :
    self.ReadsBack items ↔ ∀ item ∈ items, item.Representable := by
  constructor
  · exact representable_of_readsBack wrote
  · intro representable
    obtain ⟨returns, behind⟩ := InputFile.advances.deliversIff_readValues items self.file []
      (stands_file wrote)
    obtain ⟨after, returned⟩ := returns representable
    refine ⟨after, returned, ?_⟩
    rw [InputStream.eof, InputFile.advances.readable after [] (behind after returned).2]
    rfl

def char : PodType where
  size := 1
  positive := Nat.zero_lt_one

def short : PodType where
  size := 2
  positive := Nat.zero_lt_two

/-- A `std::string`. -/
def text (size : IntegralType) (letters : Bytes) (fits : letters.length < 2 ^ 63) : Item :=
  .container size char (letters.map ([·]))
    (by
      intro element member
      obtain ⟨letter, letterMember, same⟩ := List.mem_map.mp member
      rw [← same]
      rfl)
    (by
      rw [List.length_map]
      exact (Nat.one_mul letters.length).symm ▸ fits)

theorem length_encode_text (size : IntegralType) (letters : Bytes)
    (fits : letters.length < 2 ^ 63) :
    (text size letters fits).encode.length = size.width + letters.length := by
  have letter : (letters.map ([·])).flatten = letters := List.flatMap_singleton' letters
  rw [text, Item.encode, List.length_append, size.length_cast, letter]

theorem length_le_of_representable_text {size : IntegralType} {letters : Bytes}
    {fits : letters.length < 2 ^ 63} (representable : (text size letters fits).Representable) :
    letters.length ≤ size.max := by
  rw [← List.length_map (fun letter => [letter])]
  exact representable.1

/-- A number, and a text behind its length. -/
def hello : List Item :=
  [.pod short [2, 0] rfl,
    text (.number ushort) [104, 101, 108, 108, 111] (by decide)]

theorem readsBack_hello :
    ∃ self : OutputBufferStream 4096, follow writes (new (by decide)) hello = some self ∧
      (self.ReadsBack hello ↔ ∀ item ∈ hello, item.Representable) := by
  have length : (hello.flatMap Item.encode).length = 9 := by
    rw [hello, List.flatMap_cons, List.flatMap_singleton, List.length_append, length_encode_text]
    rfl
  obtain ⟨self, wrote⟩ : ∃ self : OutputBufferStream 4096,
      follow writes (new (by decide)) hello = some self := by
    apply exists_follow
    rw [length]
    decide
  exact ⟨self, wrote, readsBack_iff (by decide) hello self wrote⟩

/-- A text of 256 characters behind a length of one byte. -/
def longText : Item :=
  text (.number ⟨1, false, Or.inl rfl⟩) (List.replicate 256 97)
    (by
      rw [List.length_replicate]
      decide)

/-- It is written, and not read back. -/
theorem not_readsBack_longText :
    ∃ self : OutputBufferStream 4096,
      follow writes (new (by decide)) [longText] = some self ∧ ¬self.ReadsBack [longText] := by
  have length : longText.encode.length = 257 := by
    rw [longText, length_encode_text, List.length_replicate]
    rfl
  have room : ([longText].flatMap Item.encode).length ≤
      (new (by decide) : OutputBufferStream 4096).writeable := by
    rw [List.flatMap_singleton, length]
    decide
  obtain ⟨self, wrote⟩ := exists_follow room
  refine ⟨self, wrote, ?_⟩
  intro back
  have representable := representable_of_readsBack wrote back longText List.mem_cons_self
  have short := length_le_of_representable_text representable
  rw [List.length_replicate] at short
  exact absurd short (by decide)

end OutputBufferStream

end StdPrograms.Money

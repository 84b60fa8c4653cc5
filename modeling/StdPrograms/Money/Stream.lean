import StdPrograms.Foundation.Effect
import StdPrograms.Foundation.LittleEndian

/-!
Contract: the input streams of `stream.h`.

Owns the two sources, `InputBuffer` and `InputFile`, and the reads of `InputStream`,
which are the same for every source. `size_t` and `int` arithmetic is written out. A
read that copies bytes from outside the buffer, or hands out a local array that
`fstream::read` did not fill, ends as `undefined`.

Does not own the types that read themselves from a stream.
-/

namespace StdPrograms.Money

open StdPrograms.Foundation

/-- The conversion to `size_t`. -/
def size_t (value : Int) : Nat := (value % 2 ^ 64).toNat

/-- The conversion to `int`. -/
def int (value : Int) : Int := value.bmod (2 ^ 32)

/-- Bytes in memory or in a file: a signed word of 64 bits counts them. -/
structure Contents where
  bytes : Bytes
  fits : bytes.length < 2 ^ 63

/-- How a call ends that returns nothing. -/
inductive Failure where
  | overRead (len offset readable : Int)
  | lengthError
  | undefined
deriving DecidableEq, Repr

/-- What `InputStream` asks of its `InputType`. -/
class InputType (σ : Type) where
  offset : σ → Nat
  readable : σ → Nat
  read : Nat → Effect σ Failure Bytes
  skip : Int → σ → σ

/-! ### The sources -/

structure InputBuffer where
  contents : Contents
  offset_ : Nat

namespace InputBuffer

/-- A buffer positioned at its start: the constructor leaves `offset_` as it is. -/
def new (contents : Contents) : InputBuffer := ⟨contents, 0⟩

def size_ (self : InputBuffer) : Nat := self.contents.bytes.length

def readable (self : InputBuffer) : Nat := size_t (self.size_ - self.offset_)

/-- `read` leaves `offset_` where it is. -/
def read (len : Nat) : Effect InputBuffer Failure Bytes := do
  let self ← get
  if self.readable < len then
    throw (.overRead (int len) (int self.offset_) (int self.size_))
  else if self.offset_ + len ≤ self.size_ then
    pure ((self.contents.bytes.drop self.offset_).take len)
  else
    throw .undefined

def skip (n : Int) (self : InputBuffer) : InputBuffer :=
  { self with offset_ := size_t (self.offset_ + n) }

instance : InputType InputBuffer where
  offset := offset_
  readable := readable
  read := read
  skip := skip

end InputBuffer

/-- An open file. `none` is a stream whose `failbit` is set: nothing clears it. -/
structure InputFile where
  contents : Contents
  position : Option Nat

namespace InputFile

def new (contents : Contents) : InputFile := ⟨contents, some 0⟩

def size_ (self : InputFile) : Nat := self.contents.bytes.length

/-- `tellg` answers -1 on a stream that failed. -/
def offset (self : InputFile) : Nat :=
  match self.position with
  | some position => position
  | none => size_t (-1)

def readable (self : InputFile) : Nat := size_t (self.size_ - self.offset)

/-- `fs_.read` moves by what it reads, and fails where the file ends before. -/
def read (len : Nat) : Effect InputFile Failure Bytes := do
  let self ← get
  if self.readable < len then
    throw (.overRead (int len) (int self.offset) (int self.size_))
  else
    match self.position with
    | none => throw .undefined
    | some position =>
        if position + len ≤ self.size_ then
          set { self with position := some (position + len) }
          pure ((self.contents.bytes.drop position).take len)
        else
          set { self with position := none }
          throw .undefined

/-- `seekg` fails on a position that is negative or no longer a file offset. -/
def skip (n : Int) (self : InputFile) : InputFile :=
  match self.position with
  | none => self
  | some position =>
      if 0 ≤ position + n ∧ position + n < 2 ^ 63 then
        { self with position := some (position + n).toNat }
      else
        { self with position := none }

instance : InputType InputFile where
  offset := offset
  readable := readable
  read := read
  skip := skip

end InputFile

/-! ### The stream -/

/-- The integral type of a container's size. -/
structure SizeType where
  width : Nat
  signed : Bool
  integral : width = 1 ∨ width = 2 ∨ width = 4 ∨ width = 8

theorem SizeType.width_pos (type : SizeType) : 0 < type.width := by
  have := type.integral
  omega

def ushort : SizeType := ⟨2, false, by decide⟩

def SizeType.value (type : SizeType) (bytes : Bytes) : Int :=
  if type.signed then toSigned bytes else toUnsigned bytes

namespace InputStream

variable {σ : Type} [InputType σ]

def eof (self : σ) : Bool := InputType.readable self == 0

def throw_overread {α : Type} (size : Nat) : Effect σ Failure α := do
  let self ← get
  throw (.overRead (int size) (int (InputType.offset self)) (int (InputType.readable self)))

/-- `read` of a POD of this size. -/
def read (size : Nat) : Effect σ Failure Bytes := do
  let self ← get
  if InputType.readable self < size then throw_overread size else InputType.read size

/-- The exception of a read that asks for too much. -/
def overRead (size : Nat) (self : σ) : Failure :=
  .overRead (int size) (int (InputType.offset self)) (int (InputType.readable self))

theorem exec_read_over {size : Nat} {self : σ} (tooMuch : InputType.readable self < size) :
    (read size).exec self = (.error (overRead size self), self) := by
  rw [read, Effect.exec_get, if_pos tooMuch]
  rfl

theorem exec_read_within {size : Nat} {self : σ} (within : size ≤ InputType.readable self) :
    (read size).exec self = (InputType.read size).exec self := by
  rw [read, Effect.exec_get, if_neg (Nat.not_lt_of_le within)]

/-- The loop of `push_back(read<_ElementType>())`. -/
def readElements (size : Nat) : Nat → Effect σ Failure (List Bytes)
  | 0 => pure []
  | count + 1 => do
      let element ← read size
      let rest ← readElements size count
      pure (element :: rest)

/-- What `read` into a container does with its size. The product wraps; what wraps is
too much for `reserve`. -/
def fill (element size : Nat) : Effect σ Failure (List Bytes) := do
  let self ← get
  if InputType.readable self < size_t (element * size) then
    throw_overread (size_t (element * size))
  else if 2 ^ 63 ≤ element * size then
    throw .lengthError
  else
    readElements element size

def readContainer (type : SizeType) (element : Nat) : Effect σ Failure (List Bytes) := do
  let bytes ← read type.width
  fill element (size_t (type.value bytes))

end InputStream

/-! ### Sequences of operations -/

/-- An operation on an `InputStream`. No type has size zero. -/
inductive Operation where
  | read (size : Nat) (positive : 0 < size)
  | readContainer (type : SizeType) (element : Nat) (positive : 0 < element)
  | skip (n : Int32)
  | readable
  | offset
  | eof

inductive Result where
  | bytes (value : Bytes)
  | elements (values : List Bytes)
  | number (value : Nat)
  | flag (value : Bool)
  | done
deriving DecidableEq, Repr

/-- What an operation comes to, and what `offset()` and `readable()` say behind it. -/
structure Observation where
  outcome : Except Failure Result
  offset : Nat
  readable : Nat

section Operations

variable {σ : Type} [InputType σ]

def perform : Operation → Effect σ Failure Result
  | .read size _ => do
      let value ← InputStream.read size
      pure (.bytes value)
  | .readContainer type element _ => do
      let values ← InputStream.readContainer type element
      pure (.elements values)
  | .skip n => do
      modify (InputType.skip n.toInt)
      pure .done
  | .readable => do
      let self ← get
      pure (.number (InputType.readable self))
  | .offset => do
      let self ← get
      pure (.number (InputType.offset self))
  | .eof => do
      let self ← get
      pure (.flag (InputStream.eof self))

def observe (operation : Operation) (self : σ) : Observation :=
  let (outcome, after) := (perform operation).exec self
  ⟨outcome, InputType.offset after, InputType.readable after⟩

/-- The operations one after the other, exceptions caught. -/
def observations : σ → List Operation → List Observation
  | _, [] => []
  | self, operation :: rest =>
      observe operation self :: observations ((perform operation).exec self).2 rest

end Operations

end StdPrograms.Money

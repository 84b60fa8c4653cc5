import StdPrograms.Foundation.Except
import StdPrograms.Money.Stream

/-!
Contract: reading a data file of goods, each with its records in a chain of blocks.

Owns `read` of `parser.h` up to the name of the JSON file, and the end of its inner loop
whatever is in the blocks. A record keeps the place in the file that it was copied from.

Does not own the fields of a record, nor which records should have been read.
-/

namespace StdPrograms.Money.Parser

open StdPrograms.Foundation StdPrograms.Foundation.Effect

def DF_BLOCK_SIZE : Nat := 8192

def DF_MAX_GOODSNUM : Nat := 21840

/-! ### The file -/

/-- The `uint` at this offset. -/
def uint (offset : Nat) (bytes : Bytes) : Nat := ofLittleEndian ((bytes.drop offset).take 4)

structure SummaryInfo where
  header : Bytes
  version : Nat
  nr_total_blocks : Nat
  nr_used_blocks : Nat
  nr_goods : Nat
  reserved : Bytes

structure GoodsInfo where
  name : Bytes
  nr_data : Nat
  first_block_id : Nat
  next_block_id : Nat
  last_block_id : Nat
  reserved : Bytes

def SummaryInfo.size : Nat := 256

def GoodsInfo.size : Nat := 72

def SummaryInfo.of (bytes : Bytes) : SummaryInfo where
  header := bytes.take 32
  version := uint 32 bytes
  nr_total_blocks := uint 36 bytes
  nr_used_blocks := uint 40 bytes
  nr_goods := uint 44 bytes
  reserved := bytes.drop 48

def GoodsInfo.of (bytes : Bytes) : GoodsInfo where
  name := bytes.take 32
  nr_data := uint 32 bytes
  first_block_id := uint 36 bytes
  next_block_id := uint 40 bytes
  last_block_id := uint 44 bytes
  reserved := bytes.drop 48

def header_size : Nat := SummaryInfo.size + DF_MAX_GOODSNUM * GoodsInfo.size

/-- The type of a record: at least one fits into a block, behind the id of the next. -/
structure RecordType where
  size : Nat
  positive : 0 < size
  fits : size ≤ DF_BLOCK_SIZE - 4

def RtMin : RecordType where
  size := 88
  positive := by decide
  fits := by decide

def RecordType.nr_per_block (type : RecordType) : Nat := (DF_BLOCK_SIZE - 4) / type.size

theorem RecordType.nr_per_block_pos (type : RecordType) : 0 < type.nr_per_block :=
  Nat.div_pos type.fits type.positive

theorem RecordType.nr_per_block_fits (type : RecordType) :
    4 + type.nr_per_block * type.size ≤ DF_BLOCK_SIZE := by
  have inside : type.nr_per_block * type.size ≤ DF_BLOCK_SIZE - 4 := Nat.div_mul_le_self _ _
  have least : 4 ≤ DF_BLOCK_SIZE := by decide
  omega

/-- A record, and where in the file it lies. -/
structure Record where
  place : Nat
  bytes : Bytes
deriving DecidableEq

/-- The `fstream`. Once it has failed, `seekg` and `read` do nothing. -/
structure FileStream where
  contents : Contents
  failed : Bool

def FileStream.new (contents : Contents) : FileStream := ⟨contents, false⟩

/-- The part of the file that a read of this block fills its array with. -/
def block (contents : Contents) (block_id : Nat) : Bytes :=
  (contents.bytes.drop (block_id * DF_BLOCK_SIZE)).take DF_BLOCK_SIZE

/-- `seekg` and `read`: the bytes that `read` fills the array with. -/
def FileStream.readBlock (block_id : Nat) : Effect FileStream Failure Bytes := do
  let self ← get
  if self.failed then pure []
  else
    set { self with failed := decide ((block self.contents block_id).length < DF_BLOCK_SIZE) }
    pure (block self.contents block_id)

/-! ### The inner loop -/

section Loop

variable {σ : Type}

/-- What one turn copies, and the id it goes on with. -/
structure Turn where
  copied : List Record
  block_id : Nat

/-- The record of this number in a block. -/
def recordOf (type : RecordType) (block_id : Nat) (block : Bytes) (number : Nat) : Record where
  place := block_id * DF_BLOCK_SIZE + (4 + number * type.size)
  bytes := (block.drop (4 + number * type.size)).take type.size

/-- Bytes of the array that nothing has been read into are not to be copied from. -/
def turn (fetch : Nat → Effect σ Failure Bytes) (type : RecordType) (nr_read block_id : Nat) :
    Effect σ Failure Turn := do
  let block ← fetch block_id
  if block.length < 4 + nr_read * type.size then throw .undefined
  else pure ⟨(List.range nr_read).map (recordOf type block_id block), uint 0 block⟩

/-- `while (nr_data)`, with what it copies. The array is filled by `fetch`. -/
def copyChain (fetch : Nat → Effect σ Failure Bytes) (type : RecordType) (last_block_id : Nat)
    (nr_data block_id : Nat) : Effect σ Failure (List Record) :=
  if _ : nr_data = 0 then pure []
  else do
    let turned ← turn fetch type (min nr_data type.nr_per_block) block_id
    if turned.block_id = 0 ∨ last_block_id < turned.block_id then pure turned.copied
    else do
      let rest ← copyChain fetch type last_block_id (nr_data - min nr_data type.nr_per_block)
        turned.block_id
      pure (turned.copied ++ rest)
termination_by nr_data
decreasing_by
  have positive := type.nr_per_block_pos
  omega

/-- The same loop, given up after some turns. -/
def copyChainWithin (fetch : Nat → Effect σ Failure Bytes) (type : RecordType)
    (last_block_id : Nat) : Nat → Nat → Nat → Effect σ Failure (Option (List Record))
  | 0, _, _ => pure none
  | turns + 1, nr_data, block_id =>
      if nr_data = 0 then pure (some [])
      else do
        let turned ← turn fetch type (min nr_data type.nr_per_block) block_id
        if turned.block_id = 0 ∨ last_block_id < turned.block_id then pure (some turned.copied)
        else do
          let rest ← copyChainWithin fetch type last_block_id turns
            (nr_data - min nr_data type.nr_per_block) turned.block_id
          pure (rest.map (turned.copied ++ ·))

variable {fetch : Nat → Effect σ Failure Bytes} {type : RecordType} {last_block_id : Nat}

theorem copyChain_zero (block_id : Nat) :
    copyChain fetch type last_block_id 0 block_id = pure [] := by
  rw [copyChain, dif_pos rfl]

theorem exec_copyChain {nr_data : Nat} (more : nr_data ≠ 0) (block_id : Nat) (self : σ) :
    exec (copyChain fetch type last_block_id nr_data block_id) self =
      match exec (turn fetch type (min nr_data type.nr_per_block) block_id) self with
      | (.ok turned, after) =>
          if turned.block_id = 0 ∨ last_block_id < turned.block_id then (.ok turned.copied, after)
          else
            ((exec (copyChain fetch type last_block_id (nr_data - min nr_data type.nr_per_block)
                turned.block_id) after).1.map (turned.copied ++ ·),
              (exec (copyChain fetch type last_block_id (nr_data - min nr_data type.nr_per_block)
                turned.block_id) after).2)
      | (.error error, after) => (.error error, after) := by
  rw [copyChain, dif_neg more, exec_bind]
  cases exec (turn fetch type (min nr_data type.nr_per_block) block_id) self with
  | mk result after =>
      cases result with
      | error error => rfl
      | ok turned =>
          dsimp only
          split
          next => rfl
          next => exact exec_map _ (turned.copied ++ ·) after

theorem exec_turn_ok {nr_read block_id : Nat} {self after : σ} {turned : Turn}
    (ran : exec (turn fetch type nr_read block_id) self = (.ok turned, after)) :
    ∃ block, turned = ⟨(List.range nr_read).map (recordOf type block_id block), uint 0 block⟩ := by
  obtain ⟨block, middle, fetched, rest⟩ := exec_bind_ok ran
  split at rest
  next => cases rest
  next =>
    cases rest
    exact ⟨block, rfl⟩

/-- Where there is a record to copy, the first one comes from the first block. -/
theorem exec_copyChain_ok {nr_data block_id : Nat} {self after : σ} {copied : List Record}
    (more : nr_data ≠ 0)
    (ran : exec (copyChain fetch type last_block_id nr_data block_id) self = (.ok copied, after)) :
    (copied.head?).map Record.place = some (block_id * DF_BLOCK_SIZE + 4) := by
  have positive := type.nr_per_block_pos
  obtain ⟨others, atLeastOne⟩ : ∃ others, min nr_data type.nr_per_block = others + 1 :=
    Nat.exists_eq_succ_of_ne_zero (by omega)
  have firstOf : ∀ {turned : Turn} {middle : σ} (rest : List Record),
      exec (turn fetch type (min nr_data type.nr_per_block) block_id) self = (.ok turned, middle) →
        ((turned.copied ++ rest).head?).map Record.place =
          some (block_id * DF_BLOCK_SIZE + 4) := by
    intro turned middle rest turnedOk
    obtain ⟨block, rfl⟩ := exec_turn_ok turnedOk
    rw [atLeastOne, List.range_succ_eq_map]
    simp [recordOf]
  rw [exec_copyChain more] at ran
  split at ran
  next turned middle turnedOk =>
    split at ran
    next =>
      cases ran
      have first := firstOf [] turnedOk
      rwa [List.append_nil] at first
    next =>
      rw [Prod.mk.injEq] at ran
      obtain ⟨rest, -, appended⟩ := exceptMap_eq_ok.mp ran.1
      rw [← appended]
      exact firstOf rest turnedOk
  next => cases ran

/-- No more records are copied than were asked for. -/
theorem exec_copyChain_length {nr_data block_id : Nat} {self after : σ} {copied : List Record}
    (ran : exec (copyChain fetch type last_block_id nr_data block_id) self = (.ok copied, after)) :
    copied.length ≤ nr_data := by
  induction nr_data using Nat.strong_induction_on generalizing block_id self copied after with
  | _ nr_data inductionHypothesis =>
      by_cases ended : nr_data = 0
      · rw [ended, copyChain_zero] at ran
        cases ran
        exact Nat.zero_le nr_data
      · have positive := type.nr_per_block_pos
        have turnLength : ∀ {turned : Turn} {middle : σ},
            exec (turn fetch type (min nr_data type.nr_per_block) block_id) self =
              (.ok turned, middle) → turned.copied.length = min nr_data type.nr_per_block := by
          intro turned middle turnedOk
          obtain ⟨block, rfl⟩ := exec_turn_ok turnedOk
          rw [List.length_map, List.length_range]
        rw [exec_copyChain ended] at ran
        split at ran
        next turned middle turnedOk =>
          split at ran
          next =>
            cases ran
            rw [turnLength turnedOk]
            exact min_le_left _ _
          next =>
            rw [Prod.mk.injEq] at ran
            obtain ⟨rest, restOk, appended⟩ := exceptMap_eq_ok.mp ran.1
            have others := inductionHypothesis _ (by omega) (Prod.ext restOk rfl)
            rw [← appended, List.length_append, turnLength turnedOk]
            omega
        next => cases ran

/-- Every turn copies a record at least, so that there are no more turns than records,
whatever the array holds at each of them. -/
theorem exec_copyChainWithin {turns nr_data : Nat} (enough : nr_data < turns) (block_id : Nat)
    (self : σ) :
    exec (copyChainWithin fetch type last_block_id turns nr_data block_id) self =
      ((exec (copyChain fetch type last_block_id nr_data block_id) self).1.map some,
        (exec (copyChain fetch type last_block_id nr_data block_id) self).2) := by
  induction turns generalizing nr_data block_id self with
  | zero => exact absurd enough (Nat.not_lt_zero nr_data)
  | succ turns inductionHypothesis =>
      rw [copyChainWithin]
      by_cases ended : nr_data = 0
      · rw [if_pos ended, ended, copyChain_zero]
        rfl
      · rw [if_neg ended, exec_copyChain ended, exec_bind]
        cases exec (turn fetch type (min nr_data type.nr_per_block) block_id) self with
        | mk result after =>
            cases result with
            | error error => rfl
            | ok turned =>
                dsimp only
                split
                next => rfl
                next =>
                  have positive := type.nr_per_block_pos
                  rw [exec_map _ (Option.map (turned.copied ++ ·)),
                    inductionHypothesis (by omega)]
                  cases (exec (copyChain fetch type last_block_id
                    (nr_data - min nr_data type.nr_per_block) turned.block_id) after).1 <;> rfl

end Loop

/-! ### The table of goods -/

/-- The two streams: the header in memory and the file. -/
structure Streams where
  ibs : InputBuffer
  fs : FileStream

def onBuffer {α : Type} (x : Effect InputBuffer Failure α) : Effect Streams Failure α :=
  on Streams.ibs (fun self ibs => { self with ibs }) x

def onFile {α : Type} (x : Effect FileStream Failure α) : Effect Streams Failure α :=
  on Streams.fs (fun self fs => { self with fs }) x

/-- What the loop over the goods does with an entry that it has read. -/
def copyGood (type : RecordType) (x : GoodsInfo) : Effect Streams Failure (List Record) :=
  if x.nr_data = 0 then pure []
  else onFile (copyChain FileStream.readBlock type x.last_block_id x.nr_data x.first_block_id)

/-- The loop over the goods, with this many to go. There is no entry behind the array. -/
def readGoods (type : RecordType) :
    Nat → Nat → Effect Streams Failure (List (GoodsInfo × List Record))
  | _, 0 => pure []
  | i, remaining + 1 => do
      if DF_MAX_GOODSNUM ≤ i then throw .undefined
      else
        let bytes ← onBuffer (InputStream.read GoodsInfo.size)
        let x := GoodsInfo.of bytes
        let copied ← copyGood type x
        let rest ← readGoods type (i + 1) remaining
        pure ((x, copied) :: rest)

/-- Each good stands with the records that it has added to `data`. -/
structure DatFile where
  summary : SummaryInfo
  goods : List (GoodsInfo × List Record)
  data : List Record

def readHeader (type : RecordType) : Effect Streams Failure DatFile := do
  let bytes ← onBuffer (InputStream.read SummaryInfo.size)
  let summary := SummaryInfo.of bytes
  let goods ← readGoods type 0 summary.nr_goods
  pure ⟨summary, goods, goods.flatMap Prod.snd⟩

def header (contents : Contents) : Contents where
  bytes := contents.bytes.take header_size
  fits := by
    rw [List.length_take]
    exact lt_of_le_of_lt (min_le_right _ _) contents.fits

/-- The streams once the header is in memory. -/
def opened (contents : Contents) : Streams where
  ibs := .new (header contents)
  fs := .new contents

/-- `none` where `read` returns false. -/
def read (type : RecordType) (contents : Contents) : Except Failure (Option DatFile) :=
  if contents.bytes.length < header_size then .ok none
  else (exec (readHeader type) (opened contents)).1.map some

end StdPrograms.Money.Parser

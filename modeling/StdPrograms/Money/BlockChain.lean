import Mathlib.Data.Nat.Basic
import Mathlib.Logic.Function.Iterate
import StdPrograms.Money.DatFile

/-!
Contract: which data files are read completely.

Owns the records that a good's own entry of the table stands for, the files whose header and
table are well formed, and the well-formed files that `read` reads completely. The buffer of
the header never moves, so that every good is read through the header's own first bytes: the
version is their number of records and the number of all blocks the first block.

Does not own the reader.
-/

namespace StdPrograms.Money.Parser

open StdPrograms.Foundation StdPrograms.Foundation.Effect

/-! ### What a file says -/

def summary (contents : Contents) : SummaryInfo :=
  .of (contents.bytes.take SummaryInfo.size)

/-- The entry of a good in the table. -/
def entry (contents : Contents) (i : Nat) : GoodsInfo :=
  .of ((contents.bytes.drop (SummaryInfo.size + i * GoodsInfo.size)).take GoodsInfo.size)

/-- The id of the next block. -/
def link (contents : Contents) (block_id : Nat) : Nat := uint 0 (block contents block_id)

/-- The block at this position of the chain that begins with the given one. -/
def blockAt (contents : Contents) (first_block_id position : Nat) : Nat :=
  (link contents)^[position] first_block_id

/-- The record of this number in a block of the file. -/
def recordAt (type : RecordType) (contents : Contents) (block_id number : Nat) : Record :=
  recordOf type block_id (block contents block_id) number

/-- The records of a chain, in its order. -/
def records (type : RecordType) (contents : Contents) (nr_data first_block_id : Nat) :
    List Record :=
  (List.range nr_data).map fun number =>
    recordAt type contents
      (blockAt contents first_block_id (number / type.nr_per_block)) (number % type.nr_per_block)

/-- The blocks that so many records take. -/
def RecordType.blocks (type : RecordType) (nr_data : Nat) : Nat :=
  (nr_data + type.nr_per_block - 1) / type.nr_per_block

def InFile (contents : Contents) (block_id : Nat) : Prop :=
  (block_id + 1) * DF_BLOCK_SIZE ≤ contents.bytes.length

/-- The blocks of a chain lie in the file. Each one behind the first is linked by an id that
is not zero and not above the last. -/
structure WellLinked (type : RecordType) (contents : Contents)
    (nr_data first_block_id last_block_id : Nat) : Prop where
  inFile : ∀ position < type.blocks nr_data,
    InFile contents (blockAt contents first_block_id position)
  linked : ∀ position < type.blocks nr_data, 0 < position →
    blockAt contents first_block_id position ≠ 0 ∧
      blockAt contents first_block_id position ≤ last_block_id

structure WellFormed (type : RecordType) (contents : Contents) : Prop where
  whole : header_size ≤ contents.bytes.length
  table : (summary contents).nr_goods ≤ DF_MAX_GOODSNUM
  chains : ∀ i < (summary contents).nr_goods,
    WellLinked type contents (entry contents i).nr_data (entry contents i).first_block_id
      (entry contents i).last_block_id

/-- The records of a good. -/
def recordsOf (type : RecordType) (contents : Contents) (good : GoodsInfo) : List Record :=
  records type contents good.nr_data good.first_block_id

/-- `read` returns true, and every good has added the records of its own chain. -/
def ReadsCompletely (type : RecordType) (contents : Contents) : Prop :=
  ∃ file, read type contents = .ok (some file) ∧
    ∀ i < (summary contents).nr_goods,
      file.goods[i]?.map Prod.snd = some (recordsOf type contents (entry contents i))

/-- Reading `version` records from the first block of a chain, behind no id above `last`,
reads the chain's own records: none of its links stops the loop, and the loop ends where the
chain does. -/
def Follows (type : RecordType) (contents : Contents)
    (version last nr_data first_block_id : Nat) : Prop :=
  (∀ position < type.blocks nr_data, 0 < position →
    blockAt contents first_block_id position ≤ last) ∧
    (version = nr_data ∨
      (nr_data < version ∧ type.nr_per_block ∣ nr_data ∧
        (blockAt contents first_block_id (type.blocks nr_data) = 0 ∨
          last < blockAt contents first_block_id (type.blocks nr_data))))

/-- The header, taken for the entry of a good, selects the good's own records. -/
def Selects (type : RecordType) (contents : Contents) (good : GoodsInfo) : Prop :=
  (good.nr_data = 0 ∧ (summary contents).version = 0) ∨
    (good.nr_data ≠ 0 ∧ good.first_block_id = (summary contents).nr_total_blocks ∧
      Follows type contents (summary contents).version (summary contents).nr_goods good.nr_data
        good.first_block_id)

/-! ### The shape of a chain -/

section Shape

variable {type : RecordType} {contents : Contents} {nr_data first_block_id last_block_id : Nat}

theorem blocks_of_le (more : nr_data ≠ 0) (oneBlock : nr_data ≤ type.nr_per_block) :
    type.blocks nr_data = 1 := by
  unfold RecordType.blocks
  exact Nat.div_eq_of_lt_le (by omega) (by omega)

theorem blocks_of_gt (further : type.nr_per_block < nr_data) :
    type.blocks nr_data = type.blocks (nr_data - type.nr_per_block) + 1 := by
  have split : nr_data + type.nr_per_block - 1 =
      (nr_data - type.nr_per_block + type.nr_per_block - 1) + type.nr_per_block := by omega
  unfold RecordType.blocks
  rw [split, Nat.add_div_right _ type.nr_per_block_pos]

theorem blockAt_succ (first_block_id position : Nat) :
    blockAt contents first_block_id (position + 1) =
      blockAt contents (link contents first_block_id) position :=
  Function.iterate_succ_apply _ _ _

theorem blockAt_one (first_block_id : Nat) :
    blockAt contents first_block_id 1 = link contents first_block_id :=
  rfl

theorem records_length : (records type contents nr_data first_block_id).length = nr_data := by
  rw [records, List.length_map, List.length_range]

theorem records_of_le (oneBlock : nr_data ≤ type.nr_per_block) :
    records type contents nr_data first_block_id =
      (List.range nr_data).map (recordAt type contents first_block_id) := by
  apply List.map_congr_left
  intro number member
  have inside : number < type.nr_per_block :=
    lt_of_lt_of_le (List.mem_range.mp member) oneBlock
  rw [Nat.div_eq_of_lt inside, Nat.mod_eq_of_lt inside]
  rfl

/-- Behind a whole block, the records go on in the next one. -/
theorem records_add (type : RecordType) (contents : Contents) (rest first_block_id : Nat) :
    records type contents (type.nr_per_block + rest) first_block_id =
      (List.range type.nr_per_block).map (recordAt type contents first_block_id) ++
        records type contents rest (link contents first_block_id) := by
  have inFirst : records type contents type.nr_per_block first_block_id =
      (List.range type.nr_per_block).map (recordAt type contents first_block_id) :=
    records_of_le (le_refl _)
  rw [← inFirst]
  unfold records
  rw [List.range_add, List.map_append, List.map_map]
  apply congrArg
  apply List.map_congr_left
  intro number _
  have behind : (type.nr_per_block + number) / type.nr_per_block =
      number / type.nr_per_block + 1 :=
    Nat.add_div_left _ type.nr_per_block_pos
  rw [Function.comp_apply, behind, Nat.add_mod_left, blockAt_succ]

/-- A chain without its first block. -/
theorem WellLinked.rest
    (chain : WellLinked type contents nr_data first_block_id last_block_id)
    (further : type.nr_per_block < nr_data) :
    WellLinked type contents (nr_data - type.nr_per_block) (link contents first_block_id)
      last_block_id where
  inFile := by
    intro position inside
    rw [← blockAt_succ]
    exact chain.inFile (position + 1) (by rw [blocks_of_gt further]; omega)
  linked := by
    intro position inside _
    rw [← blockAt_succ]
    exact chain.linked (position + 1) (by rw [blocks_of_gt further]; omega) (Nat.succ_pos _)

theorem blocks_pos (more : nr_data ≠ 0) : 0 < type.blocks nr_data :=
  Nat.div_pos (by omega) type.nr_per_block_pos

theorem WellLinked.first
    (chain : WellLinked type contents nr_data first_block_id last_block_id)
    (more : nr_data ≠ 0) : InFile contents first_block_id :=
  chain.inFile 0 (blocks_pos more)

theorem WellLinked.link_ne_zero
    (chain : WellLinked type contents nr_data first_block_id last_block_id)
    (further : type.nr_per_block < nr_data) : link contents first_block_id ≠ 0 := by
  have more : nr_data - type.nr_per_block ≠ 0 := by omega
  have second : 1 < type.blocks nr_data := by
    rw [blocks_of_gt further]
    exact Nat.succ_lt_succ (blocks_pos more)
  exact (chain.linked 1 second Nat.one_pos).1

theorem follows_of_le {version last : Nat} (more : nr_data ≠ 0)
    (oneBlock : nr_data ≤ type.nr_per_block) :
    Follows type contents version last nr_data first_block_id ↔
      version = nr_data ∨
        (nr_data < version ∧ nr_data = type.nr_per_block ∧
          (link contents first_block_id = 0 ∨ last < link contents first_block_id)) := by
  have whole : type.nr_per_block ∣ nr_data ↔ nr_data = type.nr_per_block := by
    constructor
    · intro divides
      exact le_antisymm oneBlock (Nat.le_of_dvd (Nat.pos_of_ne_zero more) divides)
    · intro same
      exact dvd_of_eq same.symm
  unfold Follows
  rw [blocks_of_le more oneBlock, blockAt_one, whole, and_iff_right]
  intro position inside behind
  omega

theorem follows_add {version last rest : Nat} (more : rest ≠ 0)
    (further : type.nr_per_block < version) :
    Follows type contents version last (type.nr_per_block + rest) first_block_id ↔
      link contents first_block_id ≤ last ∧
        Follows type contents (version - type.nr_per_block) last rest
          (link contents first_block_id) := by
  have blocks : type.blocks (type.nr_per_block + rest) = type.blocks rest + 1 := by
    rw [blocks_of_gt (by omega), Nat.add_sub_cancel_left]
  have links : (∀ position < type.blocks rest + 1, 0 < position →
        blockAt contents first_block_id position ≤ last) ↔
      link contents first_block_id ≤ last ∧
        ∀ position < type.blocks rest, 0 < position →
          blockAt contents (link contents first_block_id) position ≤ last := by
    have first := @blocks_pos type rest more
    constructor
    · intro inReach
      refine ⟨inReach 1 (by omega) Nat.one_pos, ?_⟩
      intro position inside _
      rw [← blockAt_succ]
      exact inReach (position + 1) (by omega) (Nat.succ_pos position)
    · rintro ⟨second, inReach⟩ position inside behind
      obtain ⟨before, rfl⟩ := Nat.exists_eq_succ_of_ne_zero behind.ne'
      rw [Nat.succ_eq_add_one, blockAt_succ]
      cases before with
      | zero => exact second
      | succ before => exact inReach (before + 1) (by omega) (Nat.succ_pos before)
  have counts : version = type.nr_per_block + rest ↔ version - type.nr_per_block = rest := by omega
  have exceeds : type.nr_per_block + rest < version ↔ rest < version - type.nr_per_block := by
    omega
  unfold Follows
  rw [blocks, links, counts, exceeds, blockAt_succ, Nat.dvd_add_right (dvd_refl _), and_assoc]

end Shape

/-! ### A chain in the file -/

section Chain

variable {type : RecordType} {contents : Contents} {version last first_block_id : Nat}

theorem block_length (inFile : InFile contents first_block_id) :
    (block contents first_block_id).length = DF_BLOCK_SIZE := by
  unfold InFile at inFile
  rw [Nat.add_mul] at inFile
  rw [block, List.length_take, List.length_drop]
  omega

theorem exec_readBlock (inFile : InFile contents first_block_id) :
    exec (FileStream.readBlock first_block_id) (.new contents) =
      (.ok (block contents first_block_id), .new contents) := by
  have unfailed : decide ((block contents first_block_id).length < DF_BLOCK_SIZE) = false := by
    rw [block_length inFile]
    exact decide_eq_false (lt_irrefl _)
  change (_, FileStream.mk contents
    (decide ((block contents first_block_id).length < DF_BLOCK_SIZE))) = _
  rw [unfailed]
  rfl

theorem exec_turn {nr_read : Nat} (inFile : InFile contents first_block_id)
    (within : nr_read ≤ type.nr_per_block) :
    exec (turn FileStream.readBlock type nr_read first_block_id) (.new contents) =
      (.ok ⟨records type contents nr_read first_block_id, link contents first_block_id⟩,
        .new contents) := by
  have filled : ¬(block contents first_block_id).length < 4 + nr_read * type.size := by
    have fits := type.nr_per_block_fits
    have fewer := Nat.mul_le_mul_right type.size within
    rw [block_length inFile]
    omega
  rw [turn, exec_bind, exec_readBlock inFile, records_of_le within]
  dsimp only
  rw [if_neg filled]
  rfl

/-- The loop is left at a link that is zero or above the last block. -/
theorem exec_copyChain_left (inFile : InFile contents first_block_id) (more : version ≠ 0)
    (left : link contents first_block_id = 0 ∨ last < link contents first_block_id) :
    exec (copyChain FileStream.readBlock type last version first_block_id) (.new contents) =
      (.ok (records type contents (min version type.nr_per_block) first_block_id),
        .new contents) := by
  rw [exec_copyChain more, exec_turn inFile (min_le_right _ _)]
  exact if_pos left

theorem exec_copyChain_on (inFile : InFile contents first_block_id) (more : version ≠ 0)
    (on : ¬(link contents first_block_id = 0 ∨ last < link contents first_block_id))
    (after : FileStream) (copied : List Record) :
    exec (copyChain FileStream.readBlock type last version first_block_id) (.new contents) =
        (.ok copied, after) ↔
      ∃ rest, exec (copyChain FileStream.readBlock type last
            (version - min version type.nr_per_block) (link contents first_block_id))
          (.new contents) = (.ok rest, after) ∧
        records type contents (min version type.nr_per_block) first_block_id ++ rest = copied := by
  rw [exec_copyChain more, exec_turn inFile (min_le_right _ _)]
  dsimp only
  rw [if_neg on, Prod.mk.injEq, exceptMap_eq_ok]
  constructor
  · rintro ⟨⟨rest, ran, appended⟩, rfl⟩
    exact ⟨rest, Prod.ext ran rfl, appended⟩
  · rintro ⟨rest, ran, appended⟩
    rw [ran]
    exact ⟨⟨rest, rfl, appended⟩, rfl⟩

theorem records_inj {left right : Nat} :
    records type contents left first_block_id = records type contents right first_block_id ↔
      left = right := by
  constructor
  · intro same
    have lengths := congrArg List.length same
    rwa [records_length, records_length] at lengths
  · exact congrArg (records type contents · first_block_id)

theorem exec_copyChain_nothing :
    exec (copyChain FileStream.readBlock type last 0 first_block_id) (.new contents) =
      (.ok [], .new contents) := by
  rw [copyChain_zero]
  rfl

/-- A chain that ends in its first block. -/
theorem exec_copyChain_oneBlock {nr_data : Nat} (inFile : InFile contents first_block_id)
    (more : nr_data ≠ 0) (oneBlock : nr_data ≤ type.nr_per_block) (after : FileStream) :
    exec (copyChain FileStream.readBlock type last version first_block_id) (.new contents) =
        (.ok (records type contents nr_data first_block_id), after) ↔
      Follows type contents version last nr_data first_block_id ∧ after = .new contents := by
  rw [follows_of_le more oneBlock]
  by_cases nothing : version = 0
  · constructor
    · intro ran
      rw [nothing, exec_copyChain_nothing, Prod.mk.injEq, Except.ok.injEq] at ran
      have lengths := congrArg List.length ran.1
      rw [records_length] at lengths
      exact absurd lengths.symm more
    · rintro ⟨follows, -⟩
      omega
  · by_cases left : link contents first_block_id = 0 ∨ last < link contents first_block_id
    · rw [exec_copyChain_left inFile nothing left, Prod.mk.injEq, Except.ok.injEq, records_inj]
      constructor
      · rintro ⟨same, rfl⟩
        exact ⟨by omega, rfl⟩
      · rintro ⟨follows, rfl⟩
        exact ⟨by omega, rfl⟩
    · rw [exec_copyChain_on inFile nothing left]
      constructor
      · rintro ⟨rest, ran, appended⟩
        have lengths := congrArg List.length appended
        rw [List.length_append, records_length, records_length] at lengths
        by_cases through : version - min version type.nr_per_block = 0
        · rw [through, exec_copyChain_nothing] at ran
          cases ran
          rw [List.length_nil] at lengths
          exact ⟨.inl (by omega), rfl⟩
        · have first := exec_copyChain_ok through ran
          cases rest with
          | nil => cases first
          | cons record rest =>
              rw [List.length_cons] at lengths
              omega
      · rintro ⟨rfl | ⟨-, -, leaves⟩, rfl⟩
        · refine ⟨[], ?_, ?_⟩
          · rw [Nat.min_eq_left oneBlock, Nat.sub_self, exec_copyChain_nothing]
          · rw [Nat.min_eq_left oneBlock, List.append_nil]
        · exact absurd leaves left

/-- A chain of several blocks. -/
theorem exec_copyChain_further {rest : Nat} (inFile : InFile contents first_block_id)
    (linked : link contents first_block_id ≠ 0) (more : rest ≠ 0) (after : FileStream)
    (behind : ∀ count,
      exec (copyChain FileStream.readBlock type last count (link contents first_block_id))
          (.new contents) =
            (.ok (records type contents rest (link contents first_block_id)), after) ↔
        Follows type contents count last rest (link contents first_block_id) ∧
          after = .new contents) :
    exec (copyChain FileStream.readBlock type last version first_block_id) (.new contents) =
        (.ok (records type contents (type.nr_per_block + rest) first_block_id), after) ↔
      Follows type contents version last (type.nr_per_block + rest) first_block_id ∧
        after = .new contents := by
  by_cases further : type.nr_per_block < version
  · have positive : version ≠ 0 := by omega
    have whole : min version type.nr_per_block = type.nr_per_block := Nat.min_eq_right further.le
    rw [follows_add more further, records_add, ← records_of_le (le_refl type.nr_per_block)]
    by_cases left : link contents first_block_id = 0 ∨ last < link contents first_block_id
    · have above : ¬link contents first_block_id ≤ last := by omega
      rw [exec_copyChain_left inFile positive left, whole, Prod.mk.injEq, Except.ok.injEq]
      constructor
      · rintro ⟨same, -⟩
        have lengths := congrArg List.length same
        rw [List.length_append, records_length, records_length] at lengths
        omega
      · rintro ⟨⟨inReach, -⟩, -⟩
        exact absurd inReach above
    · have inReach : link contents first_block_id ≤ last := by omega
      rw [exec_copyChain_on inFile positive left, whole, and_iff_right inReach, ← behind]
      constructor
      · rintro ⟨copied, ran, appended⟩
        rwa [List.append_cancel_left appended] at ran
      · intro ran
        exact ⟨_, ran, rfl⟩
  · constructor
    · intro ran
      have few := exec_copyChain_length ran
      rw [records_length] at few
      omega
    · rintro ⟨⟨-, same | ⟨exceeds, -⟩⟩, -⟩
      · have positive : 0 < rest := Nat.pos_of_ne_zero more
        omega
      · omega

/-- What the loop copies are the records of a chain exactly when it follows the chain. -/
theorem exec_copyChain_iff {nr_data last_block_id : Nat}
    (chain : WellLinked type contents nr_data first_block_id last_block_id)
    (more : nr_data ≠ 0) (version last : Nat) (after : FileStream) :
    exec (copyChain FileStream.readBlock type last version first_block_id) (.new contents) =
        (.ok (records type contents nr_data first_block_id), after) ↔
      Follows type contents version last nr_data first_block_id ∧ after = .new contents := by
  induction nr_data using Nat.strong_induction_on generalizing version first_block_id with
  | _ nr_data inductionHypothesis =>
      by_cases oneBlock : nr_data ≤ type.nr_per_block
      · exact exec_copyChain_oneBlock (chain.first more) more oneBlock after
      · have further : type.nr_per_block < nr_data := Nat.lt_of_not_le oneBlock
        have positive := type.nr_per_block_pos
        have linked := chain.link_ne_zero further
        have behind := chain.rest further
        obtain ⟨rest, rfl⟩ := Nat.exists_eq_add_of_le further.le
        rw [Nat.add_sub_cancel_left] at behind
        exact exec_copyChain_further (chain.first more) linked (by omega) after
          (fun count => inductionHypothesis rest (by omega) behind (by omega) count)

end Chain

/-! ### The table -/

section Table

variable {type : RecordType} {contents : Contents}

theorem uint_take {offset size : Nat} (within : offset + 4 ≤ size) (bytes : Bytes) :
    uint offset (bytes.take size) = uint offset bytes := by
  rw [uint, uint, List.drop_take, List.take_take, Nat.min_eq_left (by omega)]

/-- A buffer that does not move gives out its first bytes. -/
theorem exec_read_new {size : Nat} {contents : Contents} (within : size ≤ contents.bytes.length) :
    exec (InputStream.read size) (InputBuffer.new contents) =
      (.ok (contents.bytes.take size), InputBuffer.new contents) := by
  have fits := contents.fits
  have enough : size ≤ (InputBuffer.new contents).readable := by
    change size ≤ size_t ((contents.bytes.length : Int) - (0 : Nat))
    unfold size_t
    omega
  have inside : (InputBuffer.new contents).offset_ + size ≤ (InputBuffer.new contents).size_ := by
    change 0 + size ≤ contents.bytes.length
    omega
  rw [InputStream.exec_read_within enough]
  change exec (InputBuffer.read size) (InputBuffer.new contents) = _
  rw [InputBuffer.read, exec_get, if_neg (Nat.not_lt_of_le enough), if_pos inside]
  rfl

theorem exec_onBuffer {size : Nat} (whole : header_size ≤ contents.bytes.length)
    (within : size ≤ header_size) :
    exec (onBuffer (InputStream.read size)) (opened contents) =
      (.ok (contents.bytes.take size), opened contents) := by
  have inHeader : size ≤ (header contents).bytes.length := by
    change size ≤ (contents.bytes.take header_size).length
    rw [List.length_take]
    exact le_min within (le_trans within whole)
  have firstBytes : (header contents).bytes.take size = contents.bytes.take size := by
    change (contents.bytes.take header_size).take size = _
    rw [List.take_take, Nat.min_eq_left within]
  have ran := exec_read_new inHeader
  rw [firstBytes] at ran
  change ((exec (InputStream.read size) (InputBuffer.new (header contents))).1,
    Streams.mk (exec (InputStream.read size) (InputBuffer.new (header contents))).2 _) = _
  rw [ran]
  rfl

/-- The header's first bytes, taken for the entry of a good. -/
def headerEntry (contents : Contents) : GoodsInfo := .of (contents.bytes.take GoodsInfo.size)

theorem headerEntry_nr_data : (headerEntry contents).nr_data = (summary contents).version := by
  change uint 32 _ = uint 32 _
  rw [uint_take (by decide), uint_take (by decide)]

theorem headerEntry_first_block_id :
    (headerEntry contents).first_block_id = (summary contents).nr_total_blocks := by
  change uint 36 _ = uint 36 _
  rw [uint_take (by decide), uint_take (by decide)]

theorem headerEntry_last_block_id :
    (headerEntry contents).last_block_id = (summary contents).nr_goods := by
  change uint 44 _ = uint 44 _
  rw [uint_take (by decide), uint_take (by decide)]

theorem records_head {nr_data : Nat} (more : nr_data ≠ 0) (first_block_id : Nat) :
    ((records type contents nr_data first_block_id).head?).map Record.place =
      some (first_block_id * DF_BLOCK_SIZE + 4) := by
  obtain ⟨others, rfl⟩ := Nat.exists_eq_succ_of_ne_zero more
  rw [records, Nat.succ_eq_add_one, List.range_succ_eq_map]
  simp [recordAt, recordOf, blockAt]

theorem exec_onFile_eq {α : Type} {x : Effect FileStream Failure α} {value : α}
    {after : Streams} :
    exec (onFile x) (opened contents) = (.ok value, after) ↔
      ∃ fs, exec x (.new contents) = (.ok value, fs) ∧ after = { opened contents with fs } := by
  change ((exec x (.new contents)).1, Streams.mk _ (exec x (.new contents)).2) = _ ↔ _
  rw [Prod.mk.injEq]
  constructor
  · rintro ⟨returned, rfl⟩
    exact ⟨_, Prod.ext returned rfl, rfl⟩
  · rintro ⟨fs, ran, rfl⟩
    rw [ran]
    exact ⟨rfl, rfl⟩

/-- What a good adds are its own records exactly when the header selects them. -/
theorem exec_copyGood_iff {good : GoodsInfo} (chain : WellLinked type contents good.nr_data
      good.first_block_id good.last_block_id) (after : Streams) :
    exec (copyGood type (headerEntry contents)) (opened contents) =
        (.ok (recordsOf type contents good), after) ↔
      Selects type contents good ∧ after = opened contents := by
  rw [copyGood, headerEntry_nr_data, headerEntry_first_block_id, headerEntry_last_block_id,
    recordsOf]
  by_cases nothing : (summary contents).version = 0
  · have none : records type contents good.nr_data good.first_block_id = [] ↔
        good.nr_data = 0 := by
      rw [← List.length_eq_zero_iff, records_length]
    rw [if_pos nothing]
    change (Except.ok [], opened contents) = _ ↔ _
    rw [Prod.mk.injEq, Except.ok.injEq]
    constructor
    · rintro ⟨same, rfl⟩
      exact ⟨.inl ⟨none.mp same.symm, nothing⟩, rfl⟩
    · rintro ⟨⟨noData, -⟩ | ⟨more, -, -, same | ⟨below, -⟩⟩, rfl⟩
      · exact ⟨(none.mpr noData).symm, rfl⟩
      · omega
      · omega
  · rw [if_neg nothing, exec_onFile_eq]
    constructor
    · rintro ⟨fs, ran, rfl⟩
      have first := exec_copyChain_ok nothing ran
      by_cases noData : good.nr_data = 0
      · rw [noData] at first
        cases first
      · rw [records_head noData, Option.some.injEq] at first
        have same : good.first_block_id = (summary contents).nr_total_blocks :=
          Nat.eq_of_mul_eq_mul_right (by decide) (Nat.add_right_cancel first)
        rw [← same] at ran
        obtain ⟨follows, rfl⟩ := (exec_copyChain_iff chain noData _ _ fs).mp ran
        exact ⟨.inr ⟨noData, same, follows⟩, rfl⟩
    · rintro ⟨⟨-, noRecords⟩ | ⟨more, same, follows⟩, rfl⟩
      · exact absurd noRecords nothing
      · refine ⟨.new contents, ?_, rfl⟩
        rw [← same]
        exact (exec_copyChain_iff chain more _ _ _).mpr ⟨follows, rfl⟩

theorem exec_readGoods_succ (whole : header_size ≤ contents.bytes.length) {i remaining : Nat}
    (inside : i < DF_MAX_GOODSNUM) {goods : List (GoodsInfo × List Record)} {after : Streams} :
    exec (readGoods type i (remaining + 1)) (opened contents) = (.ok goods, after) ↔
      ∃ copied middle rest,
        exec (copyGood type (headerEntry contents)) (opened contents) = (.ok copied, middle) ∧
          exec (readGoods type (i + 1) remaining) middle = (.ok rest, after) ∧
          (headerEntry contents, copied) :: rest = goods := by
  rw [readGoods, if_neg (Nat.not_le_of_lt inside), exec_bind,
    exec_onBuffer whole (by decide), exec_bind_eq_ok]
  constructor
  · rintro ⟨copied, middle, ran, others⟩
    obtain ⟨rest, last, restOk, same⟩ := exec_bind_eq_ok.mp others
    cases same
    exact ⟨copied, middle, rest, ran, restOk, rfl⟩
  · rintro ⟨copied, middle, rest, ran, restOk, rfl⟩
    exact ⟨copied, middle, ran, exec_bind_eq_ok.mpr ⟨rest, after, restOk, rfl⟩⟩

theorem readGoods_iff (whole : header_size ≤ contents.bytes.length) {i remaining : Nat}
    (table : i + remaining ≤ DF_MAX_GOODSNUM)
    (chains : ∀ number < remaining, WellLinked type contents (entry contents (i + number)).nr_data
      (entry contents (i + number)).first_block_id (entry contents (i + number)).last_block_id) :
    (∃ goods after, exec (readGoods type i remaining) (opened contents) = (.ok goods, after) ∧
        ∀ number < remaining, goods[number]?.map Prod.snd =
          some (recordsOf type contents (entry contents (i + number)))) ↔
      ∀ number < remaining, Selects type contents (entry contents (i + number)) := by
  induction remaining generalizing i with
  | zero =>
      constructor
      · rintro - number inside
        exact absurd inside (Nat.not_lt_zero number)
      · intro _
        refine ⟨[], opened contents, rfl, ?_⟩
        intro number inside
        exact absurd inside (Nat.not_lt_zero number)
  | succ remaining inductionHypothesis =>
      have later : ∀ number, i + (number + 1) = i + 1 + number := by
        intro number
        omega
      have inside : i < DF_MAX_GOODSNUM := by omega
      have here := chains 0 (Nat.succ_pos remaining)
      have behind := @inductionHypothesis (i + 1) (by omega) (fun number below => by
        rw [← later]
        exact chains (number + 1) (Nat.succ_lt_succ below))
      constructor
      · rintro ⟨goods, after, ran, own⟩
        obtain ⟨copied, middle, rest, goodOk, restOk, rfl⟩ :=
          (exec_readGoods_succ whole inside).mp ran
        have first := Option.some.inj (own 0 (Nat.succ_pos remaining))
        change copied = _ at first
        rw [first] at goodOk
        obtain ⟨selects, rfl⟩ := (exec_copyGood_iff here middle).mp goodOk
        have others := behind.mp ⟨rest, after, restOk, fun number below => by
          rw [← later]
          exact own (number + 1) (Nat.succ_lt_succ below)⟩
        intro number below
        cases number with
        | zero => exact selects
        | succ number =>
            rw [later]
            exact others number (Nat.lt_of_succ_lt_succ below)
      · intro selected
        obtain ⟨rest, after, restOk, others⟩ := behind.mpr (fun number below => by
          rw [← later]
          exact selected (number + 1) (Nat.succ_lt_succ below))
        have goodOk := (exec_copyGood_iff here (opened contents)).mpr
          ⟨selected 0 (Nat.succ_pos remaining), rfl⟩
        refine ⟨_, after, (exec_readGoods_succ whole inside).mpr
          ⟨_, _, rest, goodOk, restOk, rfl⟩, ?_⟩
        intro number below
        cases number with
        | zero => rw [List.getElem?_cons_zero, Option.map_some, Nat.add_zero]
        | succ number =>
            rw [later]
            exact others number (Nat.lt_of_succ_lt_succ below)

theorem exec_readHeader (whole : header_size ≤ contents.bytes.length) {file : DatFile}
    {after : Streams} :
    exec (readHeader type) (opened contents) = (.ok file, after) ↔
      ∃ goods, exec (readGoods type 0 (summary contents).nr_goods) (opened contents) =
          (.ok goods, after) ∧
        DatFile.mk (summary contents) goods (goods.flatMap Prod.snd) = file := by
  rw [readHeader, exec_bind, exec_onBuffer whole (by decide), exec_bind_eq_ok]
  constructor
  · rintro ⟨goods, middle, ran, same⟩
    cases same
    exact ⟨goods, ran, rfl⟩
  · rintro ⟨goods, ran, rfl⟩
    exact ⟨goods, after, ran, rfl⟩

theorem read_eq_some (whole : header_size ≤ contents.bytes.length) {file : DatFile} :
    read type contents = .ok (some file) ↔
      ∃ goods after, exec (readGoods type 0 (summary contents).nr_goods) (opened contents) =
          (.ok goods, after) ∧
        DatFile.mk (summary contents) goods (goods.flatMap Prod.snd) = file := by
  rw [read, if_neg (Nat.not_lt_of_le whole), exceptMap_eq_ok]
  constructor
  · rintro ⟨same, returned, sameFile⟩
    cases sameFile
    obtain ⟨goods, ran, rfl⟩ := (exec_readHeader whole).mp (Prod.ext returned rfl)
    exact ⟨goods, _, ran, rfl⟩
  · rintro ⟨goods, after, ran, rfl⟩
    refine ⟨_, ?_, rfl⟩
    rw [(exec_readHeader whole).mpr ⟨goods, ran, rfl⟩]

theorem readsCompletely_iff (wellFormed : WellFormed type contents) :
    ReadsCompletely type contents ↔
      ∀ i < (summary contents).nr_goods, Selects type contents (entry contents i) := by
  have loop := @readGoods_iff type contents wellFormed.whole 0 (summary contents).nr_goods
  simp only [Nat.zero_add] at loop
  rw [← loop wellFormed.table wellFormed.chains, ReadsCompletely]
  constructor
  · rintro ⟨file, returned, own⟩
    obtain ⟨goods, after, ran, rfl⟩ := (read_eq_some wellFormed.whole).mp returned
    exact ⟨goods, after, ran, own⟩
  · rintro ⟨goods, after, ran, own⟩
    exact ⟨_, (read_eq_some wellFormed.whole).mpr ⟨goods, after, ran, rfl⟩, own⟩

end Table

/-- Of the well-formed files those are read completely whose header selects the records of every
good. The inner loop ends for any file: within a turn for each record asked for, whatever the
array holds at each turn. -/
theorem read_completely_iff (type : RecordType) :
    (∀ contents, WellFormed type contents →
      (ReadsCompletely type contents ↔
        ∀ i < (summary contents).nr_goods, Selects type contents (entry contents i))) ∧
      ∀ {σ : Type} (fetch : Nat → Effect σ Failure Bytes) (last_block_id nr_data block_id : Nat)
        (self : σ),
        exec (copyChainWithin fetch type last_block_id (nr_data + 1) nr_data block_id) self =
          ((exec (copyChain fetch type last_block_id nr_data block_id) self).1.map some,
            (exec (copyChain fetch type last_block_id nr_data block_id) self).2) := by
  constructor
  · intro contents wellFormed
    exact readsCompletely_iff wellFormed
  · intro σ fetch last_block_id nr_data block_id self
    exact exec_copyChainWithin (Nat.lt_succ_self nr_data) block_id self

/-! ### Files of one good -/

section OneGood

def words (values : List Nat) : Bytes := values.flatMap (toLittleEndian 4)

theorem words_length (values : List Nat) : (words values).length = 4 * values.length := by
  induction values with
  | nil => rfl
  | cons value values inductionHypothesis =>
      rw [words, List.flatMap_cons, List.length_append, toLittleEndian_length, List.length_cons,
        ← words, inductionHypothesis]
      omega

theorem uint_append {front : Bytes} {size : Nat} (length : front.length = size) (offset : Nat)
    (rest : Bytes) : uint (size + offset) (front ++ rest) = uint offset rest := by
  rw [uint, uint, ← length, List.drop_length_add_append]

theorem uint_words (before : List Nat) (value : Nat) (after : List Nat) (rest : Bytes) :
    uint (4 * before.length) (words (before ++ value :: after) ++ rest) = value % 2 ^ 32 := by
  have split : words (before ++ value :: after) ++ rest =
      words before ++ (toLittleEndian 4 value ++ (words after ++ rest)) := by
    simp only [words, List.flatMap_append, List.flatMap_cons, List.append_assoc]
  have word := ofLittleEndian_toLittleEndian 4 value
  rw [split, ← Nat.add_zero (4 * before.length), uint_append (words_length before), uint,
    List.drop_zero, List.take_left' (toLittleEndian_length 4 value), word]
  rfl

theorem fourWords (first second third fourth : Nat) :
    (words [first, second, third, fourth]).length = 16 :=
  words_length _

/-- One good, whose records begin in the block of id 192, and the link of that block. -/
def oneGoodBytes (version nr_total_blocks nr_data next : Nat) : Bytes :=
  List.replicate 32 0 ++ (words [version, nr_total_blocks, 0, 1] ++
    (List.replicate 240 0 ++ (words [nr_data, 192, 0, 192] ++
      (List.replicate 1572560 0 ++ (words [next] ++ List.replicate 8188 0)))))

variable {version nr_total_blocks nr_data next : Nat}

theorem oneGoodBytes_length :
    (oneGoodBytes version nr_total_blocks nr_data next).length = 193 * DF_BLOCK_SIZE := by
  have oneWord : (words [next]).length = 4 := words_length _
  unfold oneGoodBytes DF_BLOCK_SIZE
  simp only [List.length_append, fourWords, oneWord, List.length_replicate]

def oneGood (version nr_total_blocks nr_data next : Nat) : Contents where
  bytes := oneGoodBytes version nr_total_blocks nr_data next
  fits := by
    rw [oneGoodBytes_length]
    decide

theorem uint_oneGood (offset : Nat) :
    uint (32 + offset) (oneGoodBytes version nr_total_blocks nr_data next) =
      uint offset (words [version, nr_total_blocks, 0, 1] ++
        (List.replicate 240 0 ++ (words [nr_data, 192, 0, 192] ++
          (List.replicate 1572560 0 ++ (words [next] ++ List.replicate 8188 0))))) :=
  uint_append List.length_replicate offset _

theorem uint_oneGood_entry (offset : Nat) :
    uint (SummaryInfo.size + (32 + offset)) (oneGoodBytes version nr_total_blocks nr_data next) =
      uint offset (words [nr_data, 192, 0, 192] ++
        (List.replicate 1572560 0 ++ (words [next] ++ List.replicate 8188 0))) := by
  have behindWords : SummaryInfo.size + (32 + offset) = 32 + (16 + (240 + offset)) := by
    unfold SummaryInfo.size
    omega
  rw [behindWords, uint_oneGood, uint_append (fourWords _ _ _ _),
    uint_append List.length_replicate]

theorem summary_oneGood_version :
    (summary (oneGood version nr_total_blocks nr_data next)).version = version % 2 ^ 32 := by
  change uint 32 _ = _
  rw [uint_take (by decide)]
  exact (uint_oneGood 0).trans (uint_words [] _ _ _)

theorem summary_oneGood_nr_total_blocks :
    (summary (oneGood version nr_total_blocks nr_data next)).nr_total_blocks =
      nr_total_blocks % 2 ^ 32 := by
  change uint 36 _ = _
  rw [uint_take (by decide)]
  exact (uint_oneGood 4).trans (uint_words [version] _ _ _)

theorem summary_oneGood_nr_goods :
    (summary (oneGood version nr_total_blocks nr_data next)).nr_goods = 1 := by
  change uint 44 _ = _
  rw [uint_take (by decide)]
  exact (uint_oneGood 12).trans (uint_words [version, nr_total_blocks, 0] 1 [] _)

theorem entry_oneGood {offset : Nat} (within : 32 + offset + 4 ≤ GoodsInfo.size) :
    uint (32 + offset) (((oneGood version nr_total_blocks nr_data next).bytes.drop
        (SummaryInfo.size + 0 * GoodsInfo.size)).take GoodsInfo.size) =
      uint offset (words [nr_data, 192, 0, 192] ++
        (List.replicate 1572560 0 ++ (words [next] ++ List.replicate 8188 0))) := by
  rw [uint_take within, Nat.zero_mul, Nat.add_zero]
  rw [← @uint_oneGood_entry version nr_total_blocks nr_data next offset, uint, uint,
    List.drop_drop]
  rfl

theorem entry_oneGood_nr_data :
    (entry (oneGood version nr_total_blocks nr_data next) 0).nr_data = nr_data % 2 ^ 32 :=
  (@entry_oneGood version nr_total_blocks nr_data next 0 (by decide)).trans (uint_words [] _ _ _)

theorem entry_oneGood_first_block_id :
    (entry (oneGood version nr_total_blocks nr_data next) 0).first_block_id = 192 :=
  (@entry_oneGood version nr_total_blocks nr_data next 4 (by decide)).trans
    (uint_words [nr_data] 192 _ _)

theorem entry_oneGood_last_block_id :
    (entry (oneGood version nr_total_blocks nr_data next) 0).last_block_id = 192 :=
  (@entry_oneGood version nr_total_blocks nr_data next 12 (by decide)).trans
    (uint_words [nr_data, 192, 0] 192 [] _)

theorem link_oneGood :
    link (oneGood version nr_total_blocks nr_data next) 192 = next % 2 ^ 32 := by
  have behindWords : 192 * DF_BLOCK_SIZE = SummaryInfo.size + (32 + (16 + (1572560 + 0))) := by
    decide
  rw [link, block, uint_take (by decide), uint, List.drop_drop, Nat.add_zero, ← uint, behindWords]
  change uint _ (oneGoodBytes version nr_total_blocks nr_data next) = _
  rw [uint_oneGood_entry, uint_append (fourWords _ _ _ _), uint_append List.length_replicate]
  exact uint_words [] next [] _

theorem inFile_oneGood {block_id : Nat} (inside : block_id ≤ 192) :
    InFile (oneGood version nr_total_blocks nr_data next) block_id := by
  change (block_id + 1) * DF_BLOCK_SIZE ≤ (oneGoodBytes _ _ _ _).length
  rw [oneGoodBytes_length]
  exact Nat.mul_le_mul_right _ (Nat.succ_le_succ inside)

/-- A chain of one block, or of two of which the second has the id 1. -/
theorem oneGood_wellFormed (small : nr_data < 2 ^ 32)
    (short : RtMin.blocks nr_data ≤ 1 ∨ RtMin.blocks nr_data = 2 ∧ next = 1) :
    WellFormed RtMin (oneGood version nr_total_blocks nr_data next) where
  whole := by
    change header_size ≤ (oneGoodBytes _ _ _ _).length
    rw [oneGoodBytes_length]
    decide
  table := by
    rw [summary_oneGood_nr_goods]
    decide
  chains := by
    intro i inside
    rw [summary_oneGood_nr_goods] at inside
    obtain rfl : i = 0 := by omega
    have second : RtMin.blocks nr_data = 2 →
        blockAt (oneGood version nr_total_blocks nr_data next) 192 1 = 1 := by
      intro two
      obtain ⟨-, rfl⟩ := short.resolve_left (by omega)
      rw [blockAt_one, link_oneGood, Nat.mod_eq_of_lt (by decide)]
    rw [entry_oneGood_nr_data, entry_oneGood_first_block_id, entry_oneGood_last_block_id,
      Nat.mod_eq_of_lt small]
    constructor
    · intro position below
      rcases Nat.eq_zero_or_pos position with rfl | behind
      · exact inFile_oneGood (le_refl 192)
      · obtain rfl : position = 1 := by omega
        rw [second (by omega)]
        exact inFile_oneGood (by decide)
    · intro position below behind
      obtain rfl : position = 1 := by omega
      rw [second (by omega)]
      decide

/-- The header of version 94 counts 192 blocks and stands for the good, whose 94 records are one
more than a block has room for. -/
theorem read_completely_oneGood : ReadsCompletely RtMin (oneGood 94 192 94 1) := by
  have twoBlocks : RtMin.blocks 94 = 2 := by decide
  have wellFormed := @oneGood_wellFormed 94 192 94 1 (by decide) (.inr ⟨twoBlocks, rfl⟩)
  refine ((read_completely_iff RtMin).1 (oneGood 94 192 94 1) wellFormed).mpr ?_
  intro i inside
  rw [summary_oneGood_nr_goods] at inside
  obtain rfl : i = 0 := by omega
  rw [Selects, entry_oneGood_nr_data, entry_oneGood_first_block_id,
    summary_oneGood_nr_total_blocks, summary_oneGood_version, summary_oneGood_nr_goods]
  refine .inr ⟨by decide, by decide, fun position below behind => ?_, .inl rfl⟩
  have inside : position < 2 := below
  obtain rfl : position = 1 := by omega
  rw [blockAt_one, link_oneGood]
  decide

/-- The header of version 0 gives no record for the good of one. -/
theorem not_read_completely_oneGood :
    WellFormed RtMin (oneGood 0 193 1 0) ∧
      ¬∀ file, read RtMin (oneGood 0 193 1 0) = .ok (some file) →
        ∀ i < (summary (oneGood 0 193 1 0)).nr_goods,
          file.goods[i]?.map Prod.snd =
            some (recordsOf RtMin (oneGood 0 193 1 0) (entry (oneGood 0 193 1 0) i)) := by
  have wellFormed : WellFormed RtMin (oneGood 0 193 1 0) :=
    oneGood_wellFormed (by decide) (.inl (by decide))
  refine ⟨wellFormed, ?_⟩
  intro complete
  have whole := wellFormed.whole
  have nothing : exec (copyGood RtMin (headerEntry (oneGood 0 193 1 0)))
      (opened (oneGood 0 193 1 0)) = (.ok [], opened (oneGood 0 193 1 0)) := by
    rw [copyGood, headerEntry_nr_data, summary_oneGood_version]
    rfl
  have loop : exec (readGoods RtMin 0 1) (opened (oneGood 0 193 1 0)) =
      (.ok [(headerEntry (oneGood 0 193 1 0), [])], opened (oneGood 0 193 1 0)) :=
    (exec_readGoods_succ whole (by decide)).mpr ⟨[], _, [], nothing, rfl, rfl⟩
  rw [← @summary_oneGood_nr_goods 0 193 1 0] at loop
  have contributed := complete _ ((read_eq_some whole).mpr ⟨_, _, loop, rfl⟩) 0 (by
    rw [summary_oneGood_nr_goods]
    exact Nat.one_pos)
  have lengths := congrArg List.length (Option.some.inj contributed)
  rw [recordsOf, records_length, entry_oneGood_nr_data] at lengths
  exact absurd lengths (by decide)

end OneGood

end StdPrograms.Money.Parser

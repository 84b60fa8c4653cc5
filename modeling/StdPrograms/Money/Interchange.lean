import StdPrograms.Foundation.Transitions
import StdPrograms.Money.Stream

/-!
Contract: an `InputStream` on a buffer against one on a file.

Owns the relation between the two cursors, what each operation does to it, and the
sequences of operations along which nothing tells the two sources apart. `InputBuffer`
never moves on a read, so these are the sequences that read nothing.
-/

namespace StdPrograms.Money

open StdPrograms.Foundation StdPrograms.Foundation.Effect

section Conversions

theorem size_t_of_bounds {value : Int} (nonnegative : 0 ≤ value) (below : value < 2 ^ 64) :
    (size_t value : Int) = value := by
  unfold size_t
  omega

end Conversions

namespace InputStream

variable {σ : Type} [InputType σ]

/-- Reads of the source keep the invariant, returning or not. -/
def ReadsKeep (invariant : σ → Prop) : Prop :=
  ∀ size, Ensures invariant (InputType.read size : Effect σ Failure Bytes)
    (fun _ => invariant) (fun _ => invariant)

variable {invariant : σ → Prop}

theorem read_keeps (source : ReadsKeep invariant) (size : Nat) :
    Ensures invariant (read size) (fun _ => invariant) (fun _ => invariant) := by
  intro self holds
  by_cases tooMuch : InputType.readable self < size
  · rw [exec_read_over tooMuch]
    exact holds
  · rw [exec_read_within (Nat.le_of_not_lt tooMuch)]
    exact source size self holds

theorem readElements_keeps (source : ReadsKeep invariant) (size count : Nat) :
    Ensures invariant (readElements size count) (fun _ => invariant) (fun _ => invariant) := by
  induction count with
  | zero => exact ensures_pure fun _ holds => holds
  | succ count inductionHypothesis =>
      apply ensures_bind (read_keeps source size)
      intro element
      apply ensures_bind inductionHypothesis
      intro rest
      exact ensures_pure fun _ holds => holds

theorem fill_keeps (source : ReadsKeep invariant) (element size : Nat) :
    Ensures invariant (fill element size) (fun _ => invariant) (fun _ => invariant) := by
  apply ensures_get
  intro self holds
  have stays : ∀ after, after = self → invariant after := by
    intro after same
    rw [same]
    exact holds
  split
  · apply ensures_get
    intro seen same
    apply ensures_throw
    intro after sameAfter
    exact stays after (sameAfter.trans same)
  · split
    · exact ensures_throw stays
    · exact ensures_weaken (readElements_keeps source element size) stays
        (fun _ _ => id) (fun _ _ => id)

theorem readContainer_keeps (source : ReadsKeep invariant) (type : SizeType)
    (element : Nat) :
    Ensures invariant (readContainer type element) (fun _ => invariant) (fun _ => invariant) := by
  apply ensures_bind (read_keeps source type.width)
  intro bytes
  exact fill_keeps source element _

end InputStream

/-! ### The cursors -/

/-- The buffer is at the given offset. -/
def InputBuffer.At (offset : Nat) (self : InputBuffer) : Prop := self.offset_ = offset

theorem InputBuffer.readsKeep_at (offset : Nat) : InputStream.ReadsKeep (At offset) := by
  intro size
  change Ensures (At offset) (InputBuffer.read size) (fun _ => At offset) (fun _ => At offset)
  apply ensures_get
  intro self standing
  have stays : ∀ after, after = self → At offset after := by
    intro after same
    rw [same]
    exact standing
  split
  · exact ensures_throw stays
  · split
    · exact ensures_pure stays
    · exact ensures_throw stays

/-- The file is at the given position or behind it, and not behind its end. -/
def InputFile.Past (low : Nat) (self : InputFile) : Prop :=
  ∃ position, self.position = some position ∧ low ≤ position ∧ position ≤ self.size_

namespace InputFile

theorem readable_of_position {self : InputFile} {position : Nat}
    (standing : self.position = some position) (within : position ≤ self.size_) :
    self.readable = self.size_ - position := by
  have fits : self.size_ < 2 ^ 63 := self.contents.fits
  rw [readable, offset, standing]
  dsimp only
  unfold size_t
  omega

/-- What `read` does once its check has let it pass. -/
theorem exec_read_passed {self : InputFile} {size : Nat} (enough : size ≤ self.readable) :
    exec (read size) self =
      match self.position with
      | none => (.error .undefined, self)
      | some position =>
          if position + size ≤ self.size_ then
            (.ok ((self.contents.bytes.drop position).take size),
              { self with position := some (position + size) })
          else
            (.error .undefined, { self with position := none }) := by
  rw [read, exec_get, if_neg (Nat.not_lt_of_le enough)]
  cases self.position with
  | none => rfl
  | some position =>
      dsimp only
      split <;> rfl

/-- A read from a position inside the file moves by what it reads. -/
theorem exec_read {self : InputFile} {position size : Nat}
    (standing : self.position = some position) (within : position ≤ self.size_)
    (enough : size ≤ self.readable) :
    exec (read size) self =
      (.ok ((self.contents.bytes.drop position).take size),
        { self with position := some (position + size) }) := by
  have inside : position + size ≤ self.size_ := by
    rw [readable_of_position standing within] at enough
    omega
  rw [exec_read_passed enough, standing]
  exact if_pos inside

/-- On a stream that failed, or that stands behind the end, nothing is read. -/
theorem exec_read_astray {self : InputFile} {size : Nat}
    (astray : ∀ position, self.position = some position → self.size_ < position)
    (enough : size ≤ self.readable) :
    (exec (read size) self).1 = .error .undefined := by
  rw [exec_read_passed enough]
  cases standing : self.position with
  | none => rfl
  | some position =>
      have behind := astray position standing
      dsimp only
      rw [if_neg (by omega)]

theorem Past.le_offset {low : Nat} {self : InputFile} (past : self.Past low) :
    low ≤ self.offset := by
  obtain ⟨position, standing, above, within⟩ := past
  rw [offset, standing]
  exact above

theorem readsKeep_past (low : Nat) : InputStream.ReadsKeep (Past low) := by
  intro size self past
  change Outcome _ _ (exec (read size) self)
  obtain ⟨position, standing, above, within⟩ := past
  by_cases tooMuch : self.readable < size
  · rw [read, exec_get, if_pos tooMuch]
    exact ⟨position, standing, above, within⟩
  · have enough := Nat.le_of_not_lt tooMuch
    rw [exec_read standing within enough]
    rw [readable_of_position standing within] at enough
    refine ⟨position + size, rfl, Nat.le_add_right_of_le above, ?_⟩
    change position + size ≤ self.size_
    omega

/-- A read that the check lets pass moves the file on, or there is nothing to hand out. -/
theorem exec_read_leaves {self : InputFile} {size : Nat} (positive : 0 < size)
    (enough : size ≤ self.readable) :
    (exec (InputStream.read size) self).1 = .error .undefined ∨
      ∃ bytes after, exec (InputStream.read size) self = (.ok bytes, after) ∧
        after.Past (self.offset + 1) := by
  rw [InputStream.exec_read_within enough]
  by_cases inside : ∃ position, self.position = some position ∧ position ≤ self.size_
  · obtain ⟨position, standing, within⟩ := inside
    right
    refine ⟨_, _, exec_read standing within enough, position + size, rfl, ?_, ?_⟩
    · rw [offset, standing]
      exact Nat.add_le_add_left positive position
    · change position + size ≤ self.size_
      rw [readable_of_position standing within] at enough
      omega
  · left
    apply exec_read_astray _ enough
    intro position standing
    exact Nat.lt_of_not_le fun within => inside ⟨position, standing, within⟩

/-- Whatever follows such a read, as long as it keeps the file where it is or further on. -/
theorem exec_bind_leaves {α : Type} {self : InputFile} {size : Nat} (positive : 0 < size)
    (enough : size ≤ self.readable) {next : Bytes → Effect InputFile Failure α}
    (onward : ∀ bytes, Ensures (Past (self.offset + 1)) (next bytes)
      (fun _ => Past (self.offset + 1)) (fun _ => Past (self.offset + 1))) :
    (exec (InputStream.read size >>= next) self).1 = .error .undefined ∨
      self.offset < (exec (InputStream.read size >>= next) self).2.offset := by
  rw [exec_bind]
  cases exec_read_leaves positive enough with
  | inl undefined =>
      left
      revert undefined
      cases exec (InputStream.read size) self with
      | mk result after =>
          intro undefined
          cases undefined
          rfl
  | inr moved =>
      obtain ⟨bytes, after, ran, past⟩ := moved
      right
      rw [ran]
      exact ((onward bytes).after past).le_offset

end InputFile

/-! ### The two together -/

/-- Both stand at one offset of the same bytes, or the file failed and the buffer stands
where a failed file says that it does. -/
structure Same (buffer : InputBuffer) (file : InputFile) : Prop where
  contents : buffer.contents = file.contents
  offset : buffer.offset_ = file.offset
  below : ∀ position, file.position = some position → position < 2 ^ 63

/-- What the operation must be in this state of the buffer: a read asks for more than is
readable, and a skip stays where a file can stand. A skip to -1 is where the file
fails, which says -1 of itself from then on. -/
def InputBuffer.Keeps (self : InputBuffer) : Operation → Prop
  | .read size _ => self.readable < size
  | .readContainer type _ _ => self.readable < type.width
  | .skip n =>
      if self.offset_ = size_t (-1) then n.toInt = 0
      else -1 ≤ self.offset_ + n.toInt ∧ self.offset_ + n.toInt < 2 ^ 63
  | .readable => True
  | .offset => True
  | .eof => True

namespace Same

variable {buffer : InputBuffer} {file : InputFile}

theorem readable (same : Same buffer file) : buffer.readable = file.readable := by
  rw [InputBuffer.readable, InputFile.readable, InputBuffer.size_, InputFile.size_,
    same.contents, same.offset]

/-- A skip leads both to one offset exactly from where and as far as a file can stand. -/
theorem skip_iff (same : Same buffer file) (n : Int32) :
    (buffer.skip n.toInt).offset_ = (file.skip n.toInt).offset ↔ buffer.Keeps (.skip n) := by
  have above := n.le_toInt
  have below := n.toInt_lt
  have failed : size_t (-1) = 2 ^ 64 - 1 := by decide
  have offset := same.offset
  simp only [InputBuffer.skip, InputBuffer.Keeps, failed]
  cases standing : file.position with
  | none =>
      rw [InputFile.offset, standing] at offset
      dsimp only at offset
      rw [InputFile.skip, standing, InputFile.offset]
      dsimp only
      rw [standing]
      dsimp only
      rw [offset, failed, if_pos rfl]
      unfold size_t
      omega
  | some position =>
      have fits := same.below position standing
      rw [InputFile.offset, standing] at offset
      dsimp only at offset
      rw [InputFile.skip, standing, offset, if_neg (by omega)]
      dsimp only
      split
      case isTrue inside =>
        have moved := size_t_of_bounds inside.1 (by omega)
        rw [InputFile.offset]
        dsimp only
        omega
      case isFalse outside =>
        rw [InputFile.offset]
        dsimp only
        rw [failed]
        unfold size_t
        omega

theorem skip (same : Same buffer file) {n : Int32} (keeps : buffer.Keeps (.skip n)) :
    Same (buffer.skip n.toInt) (file.skip n.toInt) where
  contents := by
    rw [InputFile.skip]
    split
    · exact same.contents
    · split <;> exact same.contents
  offset := (same.skip_iff n).mpr keeps
  below := by
    intro position standing
    rw [InputFile.skip] at standing
    split at standing
    case h_1 failed =>
      rw [failed] at standing
      cases standing
    case h_2 old found =>
      split at standing
      case isTrue inside =>
        cases standing
        omega
      case isFalse outside => cases standing

/-! ### One operation -/

/-- The two see the same, and nothing undefined. -/
def Agree (operation : Operation) (buffer : InputBuffer) (file : InputFile) : Prop :=
  observe operation buffer = observe operation file ∧
    (observe operation buffer).outcome ≠ .error .undefined

/-- Where a reading operation finds its first bytes, the two part: the file moves on and
the buffer does not. -/
theorem not_agree (operation : Operation)
    (stays : (exec (perform operation) buffer).2.offset_ = buffer.offset_)
    (same : Same buffer file)
    (leaves : (exec (perform operation) file).1 = .error .undefined ∨
      file.offset < (exec (perform operation) file).2.offset) :
    ¬ Agree operation buffer file := by
  intro agree
  obtain ⟨equal, defined⟩ := agree
  cases leaves with
  | inl undefined =>
      apply defined
      rw [equal]
      exact undefined
  | inr moved =>
      have offsets : (exec (perform operation) buffer).2.offset_ =
          (exec (perform operation) file).2.offset := congrArg Observation.offset equal
      rw [stays, same.offset] at offsets
      exact absurd offsets (Nat.ne_of_lt moved)

/-- What leaves both where they are, with one outcome, is seen alike. -/
theorem agree_of_stays (same : Same buffer file) {operation : Operation}
    {outcome : Except Failure Result}
    (ofBuffer : exec (perform operation) buffer = (outcome, buffer))
    (ofFile : exec (perform operation) file = (outcome, file))
    (defined : outcome ≠ .error .undefined) : Agree operation buffer file := by
  have seen : observe operation buffer = ⟨outcome, buffer.offset_, buffer.readable⟩ := by
    rw [observe, ofBuffer]
    rfl
  constructor
  · rw [seen, observe, ofFile, same.offset, same.readable]
    rfl
  · rw [seen]
    exact defined

theorem exec_perform_over {σ : Type} [InputType σ] {size : Nat} {self : σ}
    (tooMuch : InputType.readable self < size) (positive : 0 < size) :
    exec (perform (.read size positive)) self =
      (.error (InputStream.overRead size self), self) := by
  rw [perform, exec_map, InputStream.exec_read_over tooMuch]
  rfl

theorem exec_perform_container_over {σ : Type} [InputType σ] {type : SizeType} {element : Nat}
    {self : σ} (tooMuch : InputType.readable self < type.width) (positive : 0 < element) :
    exec (perform (.readContainer type element positive)) self =
      (.error (InputStream.overRead type.width self), self) := by
  rw [perform, exec_map, InputStream.readContainer, exec_bind,
    InputStream.exec_read_over tooMuch]
  rfl

theorem overRead (same : Same buffer file) (size : Nat) :
    InputStream.overRead size buffer = InputStream.overRead size file := by
  change Failure.overRead _ (int buffer.offset_) (int buffer.readable) = _
  rw [same.offset, same.readable]
  rfl

theorem read_iff (same : Same buffer file) (size : Nat) (positive : 0 < size) :
    Agree (.read size positive) buffer file ↔ buffer.readable < size := by
  constructor
  · intro agree
    by_contra within
    have enough : size ≤ file.readable := by
      rw [← same.readable]
      exact Nat.le_of_not_lt within
    apply not_agree _ _ same _ agree
    · rw [perform, exec_map]
      exact (InputStream.read_keeps (InputBuffer.readsKeep_at buffer.offset_) size).after rfl
    · rw [perform]
      apply InputFile.exec_bind_leaves positive enough
      intro bytes
      exact ensures_pure fun _ past => past
  · intro tooMuch
    apply same.agree_of_stays (exec_perform_over tooMuch positive)
    · rw [same.overRead]
      apply exec_perform_over
      rw [same.readable] at tooMuch
      exact tooMuch
    · simp [InputStream.overRead]

theorem readContainer_iff (same : Same buffer file) (type : SizeType) (element : Nat)
    (positive : 0 < element) :
    Agree (.readContainer type element positive) buffer file ↔
      buffer.readable < type.width := by
  constructor
  · intro agree
    by_contra within
    have enough : type.width ≤ file.readable := by
      rw [← same.readable]
      exact Nat.le_of_not_lt within
    apply not_agree _ _ same _ agree
    · rw [perform, exec_map]
      exact (InputStream.readContainer_keeps (InputBuffer.readsKeep_at buffer.offset_) type
        element).after rfl
    · rw [perform, exec_map]
      have leaves := InputFile.exec_bind_leaves type.width_pos enough fun bytes =>
        InputStream.fill_keeps (InputFile.readsKeep_past (file.offset + 1)) element
          (size_t (type.value bytes))
      cases leaves with
      | inl undefined =>
          left
          rw [InputStream.readContainer, undefined]
          rfl
      | inr moved => exact .inr moved
  · intro tooMuch
    apply same.agree_of_stays (exec_perform_container_over tooMuch positive)
    · rw [same.overRead]
      apply exec_perform_container_over
      rw [same.readable] at tooMuch
      exact tooMuch
    · simp [InputStream.overRead]

theorem observeSkip_iff (same : Same buffer file) (n : Int32) :
    Agree (.skip n) buffer file ↔ buffer.Keeps (.skip n) := by
  rw [← same.skip_iff n]
  constructor
  · intro agree
    exact congrArg Observation.offset agree.1
  · intro offsets
    have skipped := same.skip ((same.skip_iff n).mp offsets)
    constructor
    · change Observation.mk _ _ (buffer.skip n.toInt).readable = _
      rw [skipped.readable]
      change Observation.mk _ (buffer.skip n.toInt).offset_ _ = _
      rw [skipped.offset]
      rfl
    · change Except.ok Result.done ≠ .error Failure.undefined
      simp

/-- The two agree on an operation exactly under the condition on it. -/
theorem agree_iff (same : Same buffer file) (operation : Operation) :
    Agree operation buffer file ↔ buffer.Keeps operation := by
  cases operation with
  | read size positive => exact same.read_iff size positive
  | readContainer type element positive => exact same.readContainer_iff type element positive
  | skip n => exact same.observeSkip_iff n
  | readable =>
      apply iff_of_true _ trivial
      apply same.agree_of_stays rfl _ (by simp)
      change (Except.ok (Result.number file.readable), file) = (_, file)
      rw [← same.readable]
      rfl
  | offset =>
      apply iff_of_true _ trivial
      apply same.agree_of_stays rfl _ (by simp)
      change (Except.ok (Result.number file.offset), file) = (_, file)
      rw [← same.offset]
      rfl
  | eof =>
      apply iff_of_true _ trivial
      apply same.agree_of_stays rfl _ (by simp)
      change (Except.ok (Result.flag (file.readable == 0)), file) = (_, file)
      rw [← same.readable]
      rfl

/-- Under the condition the two stay together. -/
theorem step (same : Same buffer file) {operation : Operation}
    (keeps : buffer.Keeps operation) :
    Same (exec (perform operation) buffer).2 (exec (perform operation) file).2 := by
  cases operation with
  | read size positive =>
      have tooMuch : file.readable < size := by
        rw [← same.readable]
        exact keeps
      have ofBuffer : exec (perform (.read size positive)) buffer = (_, buffer) :=
        exec_perform_over keeps positive
      have ofFile : exec (perform (.read size positive)) file = (_, file) :=
        exec_perform_over tooMuch positive
      rw [ofBuffer, ofFile]
      exact same
  | readContainer type element positive =>
      have tooMuch : file.readable < type.width := by
        rw [← same.readable]
        exact keeps
      have ofBuffer : exec (perform (.readContainer type element positive)) buffer =
          (_, buffer) := exec_perform_container_over keeps positive
      have ofFile : exec (perform (.readContainer type element positive)) file = (_, file) :=
        exec_perform_container_over tooMuch positive
      rw [ofBuffer, ofFile]
      exact same
  | skip n => exact same.skip keeps
  | readable => exact same
  | offset => exact same
  | eof => exact same

end Same

namespace InputBuffer

/-- The buffer behind an operation. -/
def step (self : InputBuffer) (operation : Operation) : Option InputBuffer :=
  some (exec (perform operation) self).2

end InputBuffer

theorem observations_iff {buffer : InputBuffer} {file : InputFile} (same : Same buffer file)
    (operations : List Operation) :
    (observations buffer operations = observations file operations ∧
      ∀ observation ∈ observations buffer operations,
        observation.outcome ≠ .error .undefined) ↔
      Along InputBuffer.step InputBuffer.Keeps buffer operations := by
  induction operations generalizing buffer file with
  | nil => simp [observations, Along]
  | cons operation rest inductionHypothesis =>
      simp only [observations, List.cons.injEq, List.forall_mem_cons]
      constructor
      · intro alike after taken
        cases taken
        have agree : Same.Agree operation buffer file := ⟨alike.1.1, alike.2.1⟩
        have keeps := (same.agree_iff operation).mp agree
        constructor
        · exact keeps
        · exact (inductionHypothesis (same.step keeps)).mp ⟨alike.1.2, alike.2.2⟩
      · intro along
        obtain ⟨keeps, later⟩ := along _ rfl
        obtain ⟨equal, defined⟩ := (same.agree_iff operation).mpr keeps
        obtain ⟨restEqual, restDefined⟩ := (inductionHypothesis (same.step keeps)).mpr later
        exact ⟨⟨equal, restEqual⟩, defined, restDefined⟩

/-- The two see the same along the operations, and nothing undefined. -/
def Interchangeable (contents : Contents) (operations : List Operation) : Prop :=
  observations (InputBuffer.new contents) operations =
      observations (InputFile.new contents) operations ∧
    ∀ observation ∈ observations (InputBuffer.new contents) operations,
      observation.outcome ≠ .error .undefined

theorem same_new (contents : Contents) :
    Same (InputBuffer.new contents) (InputFile.new contents) where
  contents := rfl
  offset := rfl
  below := by
    intro position standing
    cases standing
    decide

/-- The two sources are interchangeable exactly along the operations that read nothing:
each read asks for more than is readable, and each skip stays where a file can stand. -/
theorem interchangeable_iff (contents : Contents) (operations : List Operation) :
    Interchangeable contents operations ↔
      Along InputBuffer.step InputBuffer.Keeps (InputBuffer.new contents) operations :=
  observations_iff (same_new contents) operations

/-- Two bytes. -/
def twoBytes : Contents := ⟨[1, 2], by decide⟩

/-- The buffer hands out the first byte twice. -/
theorem not_interchangeable :
    ¬ ∀ (contents : Contents) (operations : List Operation),
      (observations (InputBuffer.new contents) operations).map Observation.outcome =
        (observations (InputFile.new contents) operations).map Observation.outcome := by
  intro alike
  have twice := alike twoBytes [.read 1 Nat.one_pos, .read 1 Nat.one_pos]
  have ofBuffer : (observations (InputBuffer.new twoBytes)
      [.read 1 Nat.one_pos, .read 1 Nat.one_pos]).map Observation.outcome =
        [.ok (.bytes [1]), .ok (.bytes [1])] := by
    decide
  have ofFile : (observations (InputFile.new twoBytes)
      [.read 1 Nat.one_pos, .read 1 Nat.one_pos]).map Observation.outcome =
        [.ok (.bytes [1]), .ok (.bytes [2])] := by
    decide
  rw [ofBuffer, ofFile] at twice
  exact absurd twice (by decide)

end StdPrograms.Money

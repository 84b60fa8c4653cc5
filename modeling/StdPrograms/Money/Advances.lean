import StdPrograms.Money.Interchange
import StdPrograms.Money.Types

/-!
Contract: sources that advance by what is read from them.

Owns the law of such a source, stated with the bytes that it still has, the rules by which
reads in sequence deliver what was written in sequence, and one rule for each read of
`stream.h` and `types.h`. `InputFile` is such a source; `InputBuffer` is not.

Does not own any record.
-/

namespace StdPrograms.Money

open StdPrograms.Foundation

section Sequence

variable {σ : Type} {stands : σ → Bytes → Prop} {α β : Type}

/-- From bytes that a value was written to, whatever comes behind them, the computation
returns the value and leaves the source behind them. -/
def Delivers (stands : σ → Bytes → Prop) (x : Effect σ Failure α) (bytes : Bytes)
    (value : α) : Prop :=
  ∀ self rest, stands self (bytes ++ rest) →
    ∃ after, x.exec self = (.ok value, after) ∧ stands after rest

theorem delivers_pure (value : α) : Delivers stands (pure value) [] value := by
  intro self rest standing
  exact ⟨self, rfl, standing⟩

theorem delivers_bind {x : Effect σ Failure α} {next : α → Effect σ Failure β} {bytes rest : Bytes}
    {value : α} {result : β} (first : Delivers stands x bytes value)
    (second : Delivers stands (next value) rest result) :
    Delivers stands (x >>= next) (bytes ++ rest) result := by
  intro self behind standing
  rw [List.append_assoc] at standing
  obtain ⟨middle, ran, onward⟩ := first self _ standing
  rw [Effect.exec_bind, ran]
  exact second middle behind onward

theorem delivers_map {x : Effect σ Failure α} {bytes : Bytes} {value : α}
    (delivers : Delivers stands x bytes value) (change : α → β) :
    Delivers stands (x >>= fun value => pure (change value)) bytes (change value) := by
  intro self rest standing
  obtain ⟨after, ran, onward⟩ := delivers self rest standing
  rw [Effect.exec_map, ran]
  exact ⟨after, rfl, onward⟩

/-- From the bytes of a value the computation returns the value exactly under the
condition, and then leaves the source behind them. -/
def DeliversIff (stands : σ → Bytes → Prop) (x : Effect σ Failure α) (bytes : Bytes)
    (value : α) (condition : Prop) : Prop :=
  ∀ self rest, stands self (bytes ++ rest) →
    (condition → ∃ after, x.exec self = (.ok value, after)) ∧
    ∀ after, x.exec self = (.ok value, after) → condition ∧ stands after rest

theorem deliversIff_pure (value : α) : DeliversIff stands (pure value) [] value True := by
  intro self rest standing
  constructor
  · intro _
    exact ⟨self, rfl⟩
  · intro after returned
    cases returned
    exact ⟨trivial, standing⟩

theorem Delivers.iff {x : Effect σ Failure α} {bytes : Bytes} {value : α}
    (delivers : Delivers stands x bytes value) : DeliversIff stands x bytes value True := by
  intro self rest standing
  obtain ⟨after, ran, onward⟩ := delivers self rest standing
  constructor
  · intro _
    exact ⟨after, ran⟩
  · intro other returned
    rw [ran] at returned
    cases returned
    exact ⟨trivial, onward⟩

theorem deliversIff_map {x : Effect σ Failure α} {bytes : Bytes} {value : α} {condition : Prop}
    (delivers : DeliversIff stands x bytes value condition) {change : α → β}
    (injective : ∀ other, change other = change value → other = value) :
    DeliversIff stands (x >>= fun value => pure (change value)) bytes (change value)
      condition := by
  intro self rest standing
  obtain ⟨returns, behind⟩ := delivers self rest standing
  constructor
  · intro holds
    obtain ⟨after, ran⟩ := returns holds
    refine ⟨after, ?_⟩
    rw [Effect.exec_map, ran]
    rfl
  · intro after returned
    obtain ⟨other, middle, ran, changed⟩ := Effect.exec_bind_ok returned
    obtain ⟨same, reached⟩ := Prod.mk.inj changed
    subst reached
    rw [injective other (Except.ok.inj same)] at ran
    exact behind middle ran

/-- The first value of a list, and the others. -/
theorem deliversIff_cons {x : Effect σ Failure α} {others : Effect σ Failure (List α)}
    {bytes otherBytes : Bytes} {value : α} {values : List α} {condition otherCondition : Prop}
    (first : DeliversIff stands x bytes value condition)
    (second : DeliversIff stands others otherBytes values otherCondition) :
    DeliversIff stands (do let value ← x; let values ← others; pure (value :: values))
      (bytes ++ otherBytes) (value :: values) (condition ∧ otherCondition) := by
  intro self rest standing
  rw [List.append_assoc] at standing
  obtain ⟨returns, behind⟩ := first self _ standing
  constructor
  · intro both
    obtain ⟨middle, ran⟩ := returns both.1
    obtain ⟨after, ranOthers⟩ := (second middle rest (behind middle ran).2).1 both.2
    refine ⟨after, ?_⟩
    rw [Effect.exec_bind, ran]
    dsimp only
    rw [Effect.exec_map, ranOthers]
    rfl
  · intro after returned
    obtain ⟨head, middle, ran, later⟩ := Effect.exec_bind_ok returned
    obtain ⟨tail, last, ranOthers, whole⟩ := Effect.exec_bind_ok later
    obtain ⟨same, reached⟩ := Prod.mk.inj whole
    subst reached
    obtain ⟨sameHead, sameTail⟩ := List.cons.inj (Except.ok.inj same)
    subst sameHead sameTail
    obtain ⟨holds, onward⟩ := behind middle ran
    obtain ⟨otherHolds, end_⟩ := (second middle rest onward).2 last ranOthers
    exact ⟨⟨holds, otherHolds⟩, end_⟩

end Sequence

variable {σ : Type} [InputType σ] {stands : σ → Bytes → Prop}

/-- The source has the bytes that the relation says that it has, and reads them off. -/
structure Advances (stands : σ → Bytes → Prop) : Prop where
  readable : ∀ self rest, stands self rest → InputType.readable self = rest.length
  read : ∀ bytes, Delivers stands (InputType.read bytes.length) bytes bytes

namespace Advances

/-! ### The reads of the stream -/

section Reads

variable (advances : Advances stands)

include advances

theorem within {self : σ} {bytes rest : Bytes} (standing : stands self (bytes ++ rest)) :
    bytes.length ≤ InputType.readable self := by
  rw [advances.readable self _ standing, List.length_append]
  exact Nat.le_add_right _ _

theorem delivers_read (bytes : Bytes) :
    Delivers stands (InputStream.read bytes.length) bytes bytes := by
  intro self rest standing
  rw [InputStream.exec_read_within (advances.within standing)]
  exact advances.read bytes self rest standing

theorem delivers_readElements (bytes : Bytes) :
    Delivers stands (InputStream.readElements 1 bytes.length) bytes (bytes.map ([·])) := by
  induction bytes with
  | nil => exact delivers_pure []
  | cons byte rest inductionHypothesis =>
      exact delivers_bind (advances.delivers_read [byte]) (delivers_map inductionHypothesis _)

theorem delivers_fill (bytes : Bytes) (short : bytes.length < 2 ^ 63) :
    Delivers stands (InputStream.fill 1 bytes.length) bytes (bytes.map ([·])) := by
  intro self rest standing
  have needed : size_t ((1 : Nat) * bytes.length) = bytes.length := by
    rw [size_t]
    omega
  have enough := advances.within standing
  rw [InputStream.fill, Effect.exec_get, needed, if_neg (Nat.not_lt_of_le enough),
    if_neg (by omega)]
  exact advances.delivers_readElements bytes self rest standing

theorem delivers_readInt (v : Int32) : Delivers stands readInt (wire v).bytes v.toInt := by
  have four : (wire v).bytes.length = 4 := ofInt_length _ _
  have word := delivers_map (advances.delivers_read (wire v).bytes) toSigned
  rw [four, toSigned_wire] at word
  exact word

end Reads

end Advances

/-! ### The file -/

/-- The file has not failed, and the bytes are what it has from its position on. -/
def InputFile.Stands (self : InputFile) (rest : Bytes) : Prop :=
  ∃ position, self.position = some position ∧ position ≤ self.size_ ∧
    self.contents.bytes.drop position = rest

namespace InputFile

theorem stands_new (contents : Contents) : (new contents).Stands contents.bytes :=
  ⟨0, rfl, Nat.zero_le _, rfl⟩

theorem advances : Advances Stands where
  readable := by
    rintro self rest ⟨position, standing, within, onward⟩
    rw [← onward, List.length_drop]
    exact readable_of_position standing within
  read := by
    rintro bytes self rest ⟨position, standing, within, onward⟩
    have length : self.size_ - position = bytes.length + rest.length := by
      rw [← List.length_append, ← onward, List.length_drop]
      rfl
    have enough : bytes.length ≤ self.readable := by
      rw [readable_of_position standing within, length]
      exact Nat.le_add_right _ _
    refine ⟨{ self with position := some (position + bytes.length) }, ?_, _, rfl, ?_, ?_⟩
    · change Effect.exec (read bytes.length) self = _
      rw [exec_read standing within enough, onward, List.take_left]
    · change position + bytes.length ≤ self.size_
      omega
    · change self.contents.bytes.drop (position + bytes.length) = rest
      rw [← List.drop_drop, onward, List.drop_left]

end InputFile

end StdPrograms.Money

import StdPrograms.Ouou.Util.CompTypes

/-!
Contract: `BinaryObject` of `message/message.py`, objects laid out attribute by
attribute.

Owns construction from defaults and from a row of values, `body2bytes`,
`_fromstream`, and the theorem that a well-formed attribute list reads back
what it wrote. `WellFormed` is the order discipline that theorem needs: every
attribute is fresh, and a type or a condition only looks at attributes that are
decoded exactly before it.

Does not own headers, messages, or rows chosen at run time.
-/

namespace StdPrograms.Ouou

open StdPrograms.Foundation

structure Attribute where
  name : String
  type : Codec
  /-- For an `OptionalAttribute`, the attribute whose truth value decides. -/
  condition : Option String := none

namespace Attribute

/-- `attributes` yields the attribute. -/
def active (attr : Attribute) (self : Obj) : Bool :=
  match attr.condition with
  | none => true
  | some name => ((self.get name).map Val.truthy).getD false

theorem active_congr {attr : Attribute} {left right : Obj}
    (agree : ∀ name, attr.condition = some name → left.get name = right.get name) :
    attr.active left = attr.active right := by
  unfold active
  cases condition : attr.condition with
  | none => rfl
  | some name => simp only [agree name condition]

end Attribute

/-- The name of a class, as the errors of `body2bytes` show it. -/
abbrev ClassName := String

namespace BinaryObject

/-- `__init__` without an iterable: defaults for what is not there yet. -/
def construct : List Attribute → Obj → Except PyError Obj
  | [], self => .ok self
  | attr :: rest, self =>
      if attr.condition.isSome || self.has attr.name then construct rest self
      else do
        let default ← attr.type.default self
        construct rest (self.set attr.name default)

/-- The loop of `__init__` over an iterable. -/
def setPositional : List Attribute → List Val → Obj → Except PyError Obj
  | _, [], self => .ok self
  | [], _ :: _, _ => .error .indexError
  | attr :: attrs, value :: values, self => setPositional attrs values (self.set attr.name value)

def init (attributes_info : List Attribute) (iterable : List Val) : Except PyError Obj := do
  let self ← setPositional attributes_info iterable []
  construct attributes_info self

/-- The loop of `_fromstream`. -/
def readAttributes : List Attribute → Obj → Decoder Obj
  | [], self => .done self
  | attr :: rest, self =>
      if attr.active self then do
        let value ← attr.type.fromstream self
        readAttributes rest (self.set attr.name value)
      else readAttributes rest self

/-- One attribute of `body2bytes`, with the two errors it raises. -/
def attributeBytes (cls_name : String) (attr : Attribute) (self : Obj) :
    Val → Except PyError Bytes
  | .none => .error (.valueNotSet cls_name attr.name)
  | value =>
      match attr.type.tobytes self value with
      | .ok b => .ok b
      | .error cause => .error (.attributeFailed attr.name cls_name cause)

theorem attributeBytes_eq_ok {cls_name : String} {attr : Attribute} {self : Obj}
    {value : Val} {b : Bytes} :
    attributeBytes cls_name attr self value = .ok b ↔
      value ≠ .none ∧ attr.type.tobytes self value = .ok b := by
  cases value with
  | none => simp [attributeBytes]
  | int | str | list | obj | price =>
      simp only [attributeBytes, ne_eq, reduceCtorEq, not_false_eq_true, true_and]
      split
      next written => rw [written]
      next failed => simp [failed]

def body2bytes (cls_name : String) : List Attribute → Obj → Except PyError Bytes
  | [], _ => .ok []
  | attr :: rest, self =>
      if attr.active self then
        match self.get attr.name with
        | none => .error (.attributeError attr.name)
        | some value => do
            let b ← attributeBytes cls_name attr self value
            let bs ← body2bytes cls_name rest self
            return b ++ bs
      else body2bytes cls_name rest self

theorem body2bytes_inactive {cls_name : String} {attr : Attribute} {rest : List Attribute}
    {self : Obj} (inactive : attr.active self = false) :
    body2bytes cls_name (attr :: rest) self = body2bytes cls_name rest self := by
  rw [body2bytes, if_neg (by simp [inactive])]

theorem body2bytes_active {cls_name : String} {attr : Attribute} {rest : List Attribute}
    {self : Obj} {bytes : Bytes} (active : attr.active self = true)
    (encoded : body2bytes cls_name (attr :: rest) self = .ok bytes) :
    ∃ value b bs, self.get attr.name = some value ∧ attr.type.tobytes self value = .ok b ∧
      body2bytes cls_name rest self = .ok bs ∧ bytes = b ++ bs := by
  rw [body2bytes, if_pos active] at encoded
  cases found : self.get attr.name with
  | none =>
      rw [found] at encoded
      cases encoded
  | some value =>
      rw [found] at encoded
      obtain ⟨b, first, encoded⟩ := exceptBind_eq_ok.mp encoded
      obtain ⟨bs, others, result⟩ := exceptBind_eq_ok.mp encoded
      exact ⟨value, b, bs, rfl, (attributeBytes_eq_ok.mp first).2, others,
        (Except.ok.inj result).symm⟩

theorem body2bytes_active_of_ok {cls_name : String} {attr : Attribute}
    {rest : List Attribute} {self : Obj} {value : Val} {b bs : Bytes}
    (active : attr.active self = true) (found : self.get attr.name = some value)
    (isSet : value ≠ .none) (written : attr.type.tobytes self value = .ok b)
    (others : body2bytes cls_name rest self = .ok bs) :
    body2bytes cls_name (attr :: rest) self = .ok (b ++ bs) := by
  rw [body2bytes, if_pos active, found]
  exact exceptBind_eq_ok.mpr ⟨b, attributeBytes_eq_ok.mpr ⟨isSet, written⟩,
    exceptBind_eq_ok.mpr ⟨bs, others, rfl⟩⟩

/-- Every active attribute of an encoded object has been encoded. -/
theorem body2bytes_encodes {cls_name : String} {attrs : List Attribute} {self : Obj}
    {bytes : Bytes} (encoded : body2bytes cls_name attrs self = .ok bytes) :
    ∀ attr ∈ attrs, attr.active self = true → ∃ value b, self.get attr.name = some value ∧
      attr.type.tobytes self value = .ok b := by
  induction attrs generalizing bytes with
  | nil => simp
  | cons head rest inductionHypothesis =>
      intro attr member active
      by_cases headActive : head.active self = true
      · obtain ⟨value, b, bs, found, written, others, -⟩ := body2bytes_active headActive encoded
        rcases List.mem_cons.mp member with rfl | member
        · exact ⟨value, b, found, written⟩
        · exact inductionHypothesis others attr member active
      · rw [body2bytes_inactive (by simpa using headActive)] at encoded
        rcases List.mem_cons.mp member with rfl | member
        · exact absurd active headActive
        · exact inductionHypothesis encoded attr member active

/-- An unconditional first attribute that fills makes the body non-empty. -/
theorem body2bytes_nonempty {cls_name : String} {attr : Attribute} {rest : List Attribute}
    {self : Obj} {bytes : Bytes} (unconditional : attr.condition = none)
    (fills : attr.type.Fills) (encoded : body2bytes cls_name (attr :: rest) self = .ok bytes) :
    bytes ≠ [] := by
  have active : attr.active self = true := by
    simp only [Attribute.active, unconditional]
  obtain ⟨value, b, bs, -, written, -, rfl⟩ := body2bytes_active active encoded
  have nonempty := fills self value b written
  simp [nonempty]

/-! ### Order discipline -/

/-- `known` attributes have been set; the `exact` ones among them hold the very
value that was encoded. -/
def WellFormed : List String → List String → List Attribute → Prop
  | _, _, [] => True
  | known, exact, attr :: rest =>
      attr.name ∉ known ∧ attr.type.uses ⊆ exact ∧
        (∀ name ∈ attr.condition, name ∈ exact) ∧
        WellFormed (attr.name :: known)
          (if attr.type.literal && attr.condition.isNone then attr.name :: exact else exact) rest

instance decidableWellFormed : (known exact : List String) → (attrs : List Attribute) →
    Decidable (WellFormed known exact attrs)
  | _, _, [] => inferInstanceAs (Decidable True)
  | known, exact, attr :: rest =>
      have := decidableWellFormed (attr.name :: known)
        (if attr.type.literal && attr.condition.isNone then attr.name :: exact else exact) rest
      inferInstanceAs (Decidable (_ ∧ _ ∧ _ ∧ _))

theorem same_isSet {decoded given : Val} (same : Val.Same decoded given) : decoded ≠ .none := by
  cases same <;> simp

section

variable {exact : List String} {given owner : Obj} {result : Val}

/-- The exact attributes stay exact, and a literal one joins them. -/
theorem AgreeOn.join {attr : Attribute} {value : Val} (agrees : AgreeOn exact owner given)
    (found : given.get attr.name = some value) (holds : owner.get attr.name = some result)
    (literal : attr.type.literal = true → result = value) :
    AgreeOn (if attr.type.literal && attr.condition.isNone then attr.name :: exact else exact)
      owner given := by
  intro name member
  split at member
  next joins =>
    simp only [Bool.and_eq_true] at joins
    rcases List.mem_cons.mp member with rfl | member
    · rw [holds, found, literal joins.1]
    · exact agrees name member
  next => exact agrees name member

/-- An attribute that is not exact may be set. -/
theorem AgreeOn.set {fresh : String} (agrees : AgreeOn exact owner given)
    (notExact : fresh ∉ exact) (result : Val) : AgreeOn exact (owner.set fresh result) given := by
  intro name member
  have different : name ≠ fresh := by
    rintro rfl
    exact notExact member
  rw [Obj.get_set_other _ _ different, agrees name member]

theorem joined_subset {attr : Attribute} {known : List String} (exactKnown : exact ⊆ known) :
    (if attr.type.literal && attr.condition.isNone then attr.name :: exact else exact) ⊆
      attr.name :: known := by
  split
  · exact List.cons_subset_cons _ exactKnown
  · exact List.Subset.trans exactKnown (List.subset_cons_self _ _)

end

/-- A well-formed attribute list reads back what `body2bytes` wrote, and any
object that holds the decoded attributes encodes to the same bytes. -/
theorem readAttributes_body2bytes (cls_name : String) (attrs : List Attribute)
    {known exact : List String} (wellFormed : WellFormed known exact attrs)
    (exactKnown : exact ⊆ known) {given : Obj} {bytes : Bytes} (decoded : Obj)
    (agree : AgreeOn exact decoded given)
    (inRange : ∀ attr ∈ attrs, attr.active given = true →
      ∃ value, given.get attr.name = some value ∧ attr.type.inRange given value)
    (encoded : body2bytes cls_name attrs given = .ok bytes) :
    ∃ final,
      (∀ rest, (readAttributes attrs decoded).consume (bytes ++ rest) =
        .returned final rest) ∧
      (∀ name ∈ known, final.get name = decoded.get name) ∧
      (∀ attr ∈ attrs, attr.active given = true → ∃ value result,
        given.get attr.name = some value ∧ final.get attr.name = some result ∧
          Val.Same result value ∧ (attr.type.literal = true → result = value)) ∧
      ∀ owner, AgreeOn exact owner given →
        (∀ attr ∈ attrs, attr.active given = true →
          owner.get attr.name = final.get attr.name) →
        body2bytes cls_name attrs owner = .ok bytes := by
  induction attrs generalizing known exact decoded bytes with
  | nil =>
      cases Except.ok.inj encoded
      exact ⟨decoded, fun rest => rfl, fun _ _ => rfl, fun _ member => by simp at member,
        fun _ _ _ => rfl⟩
  | cons attr attrs inductionHypothesis =>
      obtain ⟨fresh, usesExact, conditionExact, restWellFormed⟩ := wellFormed
      have activeAgree (owner : Obj) (ownerAgrees : AgreeOn exact owner given) :
          attr.active owner = attr.active given :=
        Attribute.active_congr fun name condition =>
          ownerAgrees name (conditionExact name condition)
      by_cases active : attr.active given = true
      · obtain ⟨value, b, bs, found, written, others, rfl⟩ := body2bytes_active active encoded
        obtain ⟨value', found', valueInRange⟩ := inRange attr (by simp) active
        cases Option.some.inj (found.symm.trans found')
        obtain ⟨result, reads, same, literal, again⟩ :=
          attr.type.readsBack given value b valueInRange written decoded
            fun name member => agree name (usesExact member)
        obtain ⟨final, restReads, kept, restSame, restAgain⟩ :=
          inductionHypothesis restWellFormed (joined_subset exactKnown) _
            (AgreeOn.join (AgreeOn.set agree (fun member => fresh (exactKnown member)) result)
              found (Obj.get_set_self _ _ _) literal)
            (fun other member => inRange other (by simp [member])) others
        have finalHolds : final.get attr.name = some result := by
          rw [kept attr.name (by simp), Obj.get_set_self]
        refine ⟨final, fun rest => ?_, fun name member => ?_, ?_, fun owner ownerAgrees holds => ?_⟩
        · rw [readAttributes, if_pos ((activeAgree decoded agree).trans active),
            List.append_assoc, ReadProgram.consume_bind_of_returned (reads (bs ++ rest))]
          exact restReads rest
        · have different : name ≠ attr.name := by
            rintro rfl
            exact fresh member
          rw [kept name (by simp [member]), Obj.get_set_other _ _ different]
        · intro other member otherActive
          rcases List.mem_cons.mp member with rfl | member
          · exact ⟨value, result, found, finalHolds, same, literal⟩
          · exact restSame other member otherActive
        · have ownerHolds : owner.get attr.name = some result :=
            (holds attr (by simp) active).trans finalHolds
          refine body2bytes_active_of_ok ((activeAgree owner ownerAgrees).trans active)
            ownerHolds (same_isSet same)
            (again owner fun name member => ownerAgrees name (usesExact member)) ?_
          exact restAgain owner (AgreeOn.join ownerAgrees found ownerHolds literal)
            fun other member => holds other (by simp [member])
      · have inactive : attr.active given = false := by simpa using active
        rw [body2bytes_inactive inactive] at encoded
        have conditional : attr.condition.isNone = false := by
          cases condition : attr.condition with
          | none => simp [Attribute.active, condition] at inactive
          | some name => rfl
        simp only [conditional, Bool.and_false] at restWellFormed
        obtain ⟨final, restReads, kept, restSame, restAgain⟩ :=
          inductionHypothesis restWellFormed
            (List.Subset.trans exactKnown (List.subset_cons_self _ _)) decoded agree
            (fun other member => inRange other (by simp [member])) encoded
        refine ⟨final, fun rest => ?_, fun name member => kept name (by simp [member]), ?_,
          fun owner ownerAgrees holds => ?_⟩
        · rw [readAttributes, if_neg (by rw [activeAgree decoded agree]; exact active)]
          exact restReads rest
        · intro other member otherActive
          rcases List.mem_cons.mp member with rfl | member
          · exact absurd otherActive active
          · exact restSame other member otherActive
        · rw [body2bytes_inactive ((activeAgree owner ownerAgrees).trans inactive)]
          exact restAgain owner ownerAgrees fun other member => holds other (by simp [member])

theorem readAttributes_detects (attrs : List Attribute) (self : Obj) :
    (readAttributes attrs self).Detects (· = .fixed) := by
  induction attrs generalizing self with
  | nil => trivial
  | cons attr rest inductionHypothesis =>
      rw [readAttributes]
      split
      · exact (attr.type.detects self).bind fun value => inductionHypothesis _
      · exact inductionHypothesis _

/-! ### Instances -/

def names (attributes_info : List Attribute) : List String := attributes_info.map Attribute.name

/-- `cls(iterable)`. -/
def fromIterable (attributes_info : List Attribute) (iterable : Val) : Except PyError Obj :=
  if iterable.truthy then
    match iterable.iter with
    | some values => init attributes_info values
    | none => .error .typeError
  else construct attributes_info []

/-- The value itself if it is an instance of the class, else `cls(value)`. -/
def coerce (attributes_info : List Attribute) : Val → Except PyError Obj
  | .obj own attributes =>
      if own = names attributes_info then .ok attributes
      else fromIterable attributes_info (.obj own attributes)
  | value => fromIterable attributes_info value

@[simp] theorem coerce_instance (attributes_info : List Attribute) (self : Obj) :
    coerce attributes_info (.obj (names attributes_info) self) = .ok self := by
  rw [coerce, if_pos rfl]

/-- The attributes of `self`, in order, are the given values, each in range. -/
def InRange (attributes_info : List Attribute) (self : Obj) (values : List Val) : Prop :=
  List.Forall₂ (fun attr value => self.get attr.name = some value ∧
    attr.type.inRange self value) attributes_info values

theorem InRange.mem {attributes_info : List Attribute} {self : Obj} {values : List Val}
    (inRange : InRange attributes_info self values) {attr : Attribute}
    (member : attr ∈ attributes_info) :
    ∃ value, self.get attr.name = some value ∧ attr.type.inRange self value := by
  induction inRange with
  | nil => cases member
  | cons head _ inductionHypothesis =>
      rcases List.mem_cons.mp member with rfl | member
      · exact ⟨_, head⟩
      · exact inductionHypothesis member

/-- Attributes that came back as equal values make an equal list of values. -/
theorem values_same {attributes_info : List Attribute} {given : Obj} {values : List Val}
    (final : Obj)
    (inRange : InRange attributes_info given values)
    (same : ∀ attr ∈ attributes_info, ∃ value result, given.get attr.name = some value ∧
      final.get attr.name = some result ∧ Val.Same result value) :
    ∃ results, final.values (names attributes_info) = some results ∧
      List.Forall₂ Val.Same results values := by
  induction inRange with
  | nil => exact ⟨[], rfl, .nil⟩
  | @cons attr value attrs values head tail inductionHypothesis =>
      obtain ⟨value', result, found, finalHolds, headSame⟩ := same attr (by simp)
      cases Option.some.inj (head.1.symm.trans found)
      obtain ⟨results, tailValues, tailSame⟩ :=
        inductionHypothesis fun other member => same other (by simp [member])
      refine ⟨result :: results, ?_, .cons headSame tailSame⟩
      rw [names, List.map_cons, Obj.values, finalHolds]
      simp only [names] at tailValues
      rw [tailValues]

section Instance

variable (cls_name : String) (attributes_info : List Attribute)

/-- `_fromstream`, with the class's `extra_parse`. -/
def fromstream (extra_parse : Obj → Decoder Obj) : Decoder Val := do
  let self ← .ofExcept (construct attributes_info [])
  let self ← readAttributes attributes_info self
  let self ← extra_parse self
  return .obj (names attributes_info) self

theorem fromstream_detects {extra_parse : Obj → Decoder Obj}
    (extraDetects : ∀ self, (extra_parse self).Detects (· = .fixed)) :
    (fromstream attributes_info extra_parse).Detects (· = .fixed) :=
  (ReadProgram.Detects.ofExcept _).bind fun self =>
    (readAttributes_detects attributes_info self).bind fun self =>
      (extraDetects self).bind fun _ => trivial

/-- Decoding an object, once its attributes and its extra part are known. -/
theorem fromstream_consume (extra_parse : Obj → Decoder Obj) {start final extended : Obj}
    {bytes : Bytes} (extra rest : Bytes) (constructed : construct attributes_info [] = .ok start)
    (reads : ∀ rest, (readAttributes attributes_info start).consume (bytes ++ rest) =
      .returned final rest)
    (extraReads : (extra_parse final).consume (extra ++ rest) = .returned extended rest) :
    (fromstream attributes_info extra_parse).consume (bytes ++ extra ++ rest) =
      .returned (.obj (names attributes_info) extended) rest := by
  rw [fromstream, constructed, List.append_assoc]
  show (readAttributes attributes_info start >>= _).consume _ = _
  rw [ReadProgram.consume_bind_of_returned (reads (extra ++ rest)),
    ReadProgram.consume_bind_of_returned extraReads]
  rfl

/-- A row of in-range attributes comes back as an instance that equals any value
yielding the row. Objects with the attributes of that instance encode to the
same bytes. -/
theorem fromstream_body2bytes (wellFormed : WellFormed [] [] attributes_info)
    (unconditional : ∀ attr ∈ attributes_info, attr.condition = none)
    (start : Obj) {given : Obj} {values : List Val} {value : Val} {bytes : Bytes}
    (inRange : InRange attributes_info given values) (yields : value.iter = some values)
    (encoded : body2bytes cls_name attributes_info given = .ok bytes) :
    ∃ final,
      (∀ rest, (readAttributes attributes_info start).consume (bytes ++ rest) =
        .returned final rest) ∧
      Val.Same (.obj (names attributes_info) final) value ∧
      (∀ attr ∈ attributes_info, attr.type.literal = true →
        final.get attr.name = given.get attr.name) ∧
      ∀ owner : Obj, (∀ attr ∈ attributes_info, owner.get attr.name = final.get attr.name) →
        body2bytes cls_name attributes_info owner = .ok bytes := by
  have active (attr : Attribute) (member : attr ∈ attributes_info) :
      attr.active given = true := by
    simp only [Attribute.active, unconditional attr member]
  obtain ⟨final, reads, -, same, again⟩ :=
    readAttributes_body2bytes cls_name attributes_info wellFormed (List.Subset.refl _)
      start (fun name member => by simp at member)
      (fun attr member _ => inRange.mem member) encoded
  obtain ⟨results, finalValues, sameValues⟩ := values_same final inRange
    fun attr member => by
      obtain ⟨value, result, found, holds, same, -⟩ := same attr member (active attr member)
      exact ⟨value, result, found, holds, same⟩
  refine ⟨final, reads, .obj finalValues yields sameValues, fun attr member isLiteral => ?_,
    fun owner holds => again owner (fun name member => by simp at member)
      fun attr member _ => holds attr member⟩
  obtain ⟨value, result, found, holds, -, literal⟩ := same attr member (active attr member)
  rw [found, holds, literal isLiteral]

end Instance

end BinaryObject

open BinaryObject in
/-- A class of objects inside messages, with unconditional attributes and no
`extra_parse`. -/
def Wire.Object (cls_name : ClassName) (attributes_info : List Attribute)
    (wellFormed : WellFormed [] [] attributes_info)
    (unconditional : ∀ attr ∈ attributes_info, attr.condition = none)
    (constructs : ∃ self, construct attributes_info [] = .ok self) : Codec where
  default := fun _ => do return .obj (names attributes_info) (← construct attributes_info [])
  fromstream := fun _ => BinaryObject.fromstream attributes_info .done
  tobytes := fun _ value => do
    let self ← coerce attributes_info value
    body2bytes cls_name attributes_info self
  uses := []
  literal := false
  inRange := fun _ value => ∃ self values, coerce attributes_info value = .ok self ∧
    value.iter = some values ∧ InRange attributes_info self values
  readsBack := by
    rintro given value bytes ⟨self, values, coerced, yields, inRange⟩ encoded decoded agree
    obtain ⟨self', coerced', encoded⟩ := exceptBind_eq_ok.mp encoded
    cases Except.ok.inj (coerced.symm.trans coerced')
    obtain ⟨start, constructed⟩ := constructs
    obtain ⟨final, reads, same, -, again⟩ := fromstream_body2bytes cls_name attributes_info
      wellFormed unconditional start inRange yields encoded
    refine ⟨_, fun rest => ?_, same, fun isLiteral => (nomatch isLiteral), fun _ _ => ?_⟩
    · have reading := fromstream_consume attributes_info .done [] rest
        constructed reads rfl
      rwa [List.append_nil] at reading
    · exact exceptBind_eq_ok.mpr ⟨final, coerce_instance _ _, again final fun _ _ => rfl⟩
  detects := fun _ => fromstream_detects attributes_info fun _ => trivial

end StdPrograms.Ouou

import Mathlib.Data.List.Induction
import StdPrograms.Ouou.Message.Registry

/-!
Contract: what the metaclasses of the messages register, in whatever order classes are
defined.

Owns the identifier that `MessageMeta` takes from a class name, the check of `PushMeta`
for duplicates, which looks at the type of the dictionary, and for which definitions the
tables do not depend on the order.

The digits of a name are those of ASCII. Does not own the classes.
-/

namespace StdPrograms.Ouou

/-! ### The metaclasses -/

/-- `re.compile(r'[^\d]+(\d+)').match(name)`, and the group as an `int`. -/
def name_id (name : ClassName) : Option Nat :=
  let front := name.toList.takeWhile fun char => !char.isDigit
  let digits := (name.toList.drop front.length).takeWhile Char.isDigit
  if front = [] ∨ digits = [] then none else some (Nat.ofDigitChars 10 digits 0)

/-- The class that `MessageMeta.__new__` returns: the identifier in the name goes before
the one in the class. -/
def MessageMeta (cls : MessageClass) : MessageClass :=
  { cls with MSG_ID := (name_id cls.name).getD cls.MSG_ID }

/-- What `type` can say of an object here. -/
inductive PyType where
  | dict
  | PushMeta
deriving DecidableEq, Repr

/-- `type(message.push_messages)` -/
def ClassDict.type (_ : ClassDict) : PyType := .dict

inductive RuntimeError where
  | duplicatedPush (MSG_ID : Nat)
deriving DecidableEq, Repr

/-- `ResponseMeta.__new__` -/
def ResponseMeta (message : ResponseRegistry) (cls : MessageClass) :
    Except RuntimeError ResponseRegistry :=
  let cls := MessageMeta cls
  .ok
    { response_messages := message.response_messages.set cls.MSG_ID cls
      push_messages :=
        if (message.push_messages.get cls.MSG_ID).isNone then
          message.push_messages.set cls.MSG_ID cls
        else message.push_messages }

/-- `PushMeta.__new__` -/
def PushMeta (message : ResponseRegistry) (cls : MessageClass) :
    Except RuntimeError ResponseRegistry :=
  let cls := MessageMeta cls
  if (message.push_messages.get cls.MSG_ID).isSome ∧ message.push_messages.type = .PushMeta then
    .error (.duplicatedPush cls.MSG_ID)
  else .ok { message with push_messages := message.push_messages.set cls.MSG_ID cls }

/-- A `class` statement. -/
def defineClass (message : ResponseRegistry) : ClassDefinition →
    Except RuntimeError ResponseRegistry
  | .response cls => ResponseMeta message cls
  | .push cls => PushMeta message cls

/-- The tables after the statements; one that raises leaves them as they are. -/
def defineAll (message : ResponseRegistry) (definitions : List ClassDefinition) :
    ResponseRegistry :=
  definitions.foldl (fun message definition =>
    match defineClass message definition with
    | .ok after => after
    | .error _ => message) message

/-- The statement's class, with the identifier it gets. -/
def ClassDefinition.named : ClassDefinition → ClassDefinition
  | .response cls => .response (MessageMeta cls)
  | .push cls => .push (MessageMeta cls)

/-- No statement raises, and each does what the registration of the package's own classes
does. -/
theorem defineClass_eq (message : ResponseRegistry) (definition : ClassDefinition) :
    defineClass message definition = .ok (message.define definition.named) := by
  cases definition with
  | response cls =>
      simp only [defineClass, ResponseMeta, ClassDefinition.named, ResponseRegistry.define]
      cases message.push_messages.get (MessageMeta cls).MSG_ID <;> rfl
  | push cls =>
      have guarded : ¬((message.push_messages.get (MessageMeta cls).MSG_ID).isSome ∧
          message.push_messages.type = .PushMeta) := fun both => by cases both.2
      simp only [defineClass, PushMeta, if_neg guarded]
      rfl

/-- The classes of the package have the identifiers that are in their names. -/
theorem name_id_registered (host : Host) :
    ∀ cls ∈ responseClasses host ++ pushClasses host, name_id cls.name = some cls.MSG_ID := by
  let table : List (ClassName × Nat) :=
    [("Response_5500", 5500), ("Response_5501", 5501), ("Response_5502", 5502),
      ("Response_5503", 5503), ("Response_5504", 5504), ("Response_5505", 5505),
      ("Response_5506", 5506), ("Response_5508", 5508), ("Response_5509", 5509),
      ("Response_5510", 5510), ("Response_5511", 5511), ("Response_5512", 5512),
      ("Response_5513", 5513), ("Response_5514", 5514), ("Response_5515", 5515),
      ("Response_5516", 5516), ("Response_5517", 5517), ("Response_5518", 5518),
      ("Response_5519", 5519), ("Push_5514", 5514), ("Push_5516", 5516)]
  have listed : (responseClasses host ++ pushClasses host).map
      (fun cls => (cls.name, cls.MSG_ID)) = table := rfl
  have parsed : ∀ entry ∈ table, name_id entry.1 = some entry.2 := by decide +kernel
  intro cls member
  apply parsed (cls.name, cls.MSG_ID)
  rw [← listed]
  exact List.mem_map_of_mem member

/-! ### What the tables should say -/

def responseOf (MSG_ID : Nat) (definitions : List ClassDefinition) : Option MessageClass :=
  definitions.findSome? fun
    | .response cls => if (MessageMeta cls).MSG_ID = MSG_ID then some (MessageMeta cls) else none
    | .push _ => none

def pushOf (MSG_ID : Nat) (definitions : List ClassDefinition) : Option MessageClass :=
  definitions.findSome? fun
    | .response _ => none
    | .push cls => if (MessageMeta cls).MSG_ID = MSG_ID then some (MessageMeta cls) else none

/-- No identifier has two `Response` classes. -/
def OneResponse (definitions : List ClassDefinition) : Prop :=
  ∀ before cls after, definitions = before ++ .response cls :: after →
    responseOf (MessageMeta cls).MSG_ID before = none

/-- No identifier has two `Push` classes. -/
def OnePush (definitions : List ClassDefinition) : Prop :=
  ∀ before cls after, definitions = before ++ .push cls :: after →
    pushOf (MessageMeta cls).MSG_ID before = none

/-- Each table holds for an identifier the class that was defined for it, whatever the
order, with the `Response` class as the default of the second. -/
def TablesHold (definitions : List ClassDefinition) : Prop :=
  ∀ MSG_ID,
    (defineAll {} definitions).response_messages.get MSG_ID = responseOf MSG_ID definitions ∧
    (defineAll {} definitions).push_messages.get MSG_ID =
      (pushOf MSG_ID definitions).or (responseOf MSG_ID definitions)

/-- A second `Push` class of an identifier is refused; then the tables stay as they are. -/
def DuplicatesRaise (definitions : List ClassDefinition) : Prop :=
  ∀ before cls after, definitions = before ++ .push cls :: after →
    (pushOf (MessageMeta cls).MSG_ID before).isSome →
    defineClass (defineAll {} before) (.push cls) =
      .error (.duplicatedPush (MessageMeta cls).MSG_ID)

theorem defineAll_concat (before : List ClassDefinition) (definition : ClassDefinition) :
    defineAll {} (before ++ [definition]) = (defineAll {} before).define definition.named := by
  simp only [defineAll, defineClass_eq, List.foldl_append, List.foldl_cons, List.foldl_nil]

theorem responseOf_response (MSG_ID : Nat) (before : List ClassDefinition) (cls : MessageClass) :
    responseOf MSG_ID (before ++ [.response cls]) =
      (responseOf MSG_ID before).or
        (if (MessageMeta cls).MSG_ID = MSG_ID then some (MessageMeta cls) else none) := by
  rw [responseOf, List.findSome?_append, List.findSome?_singleton]
  rfl

theorem responseOf_push (MSG_ID : Nat) (before : List ClassDefinition) (cls : MessageClass) :
    responseOf MSG_ID (before ++ [.push cls]) = responseOf MSG_ID before := by
  rw [responseOf, List.findSome?_append, List.findSome?_singleton, Option.or_none]
  rfl

theorem pushOf_response (MSG_ID : Nat) (before : List ClassDefinition) (cls : MessageClass) :
    pushOf MSG_ID (before ++ [.response cls]) = pushOf MSG_ID before := by
  rw [pushOf, List.findSome?_append, List.findSome?_singleton, Option.or_none]
  rfl

theorem pushOf_push (MSG_ID : Nat) (before : List ClassDefinition) (cls : MessageClass) :
    pushOf MSG_ID (before ++ [.push cls]) =
      (pushOf MSG_ID before).or
        (if (MessageMeta cls).MSG_ID = MSG_ID then some (MessageMeta cls) else none) := by
  rw [pushOf, List.findSome?_append, List.findSome?_singleton]
  rfl

theorem OneResponse.of_concat {before : List ClassDefinition} {definition : ClassDefinition}
    (single : OneResponse (before ++ [definition])) : OneResponse before := by
  intro front cls after split
  apply single front cls (after ++ [definition])
  rw [split, List.append_assoc, List.cons_append]

theorem OnePush.of_concat {before : List ClassDefinition} {definition : ClassDefinition}
    (single : OnePush (before ++ [definition])) : OnePush before := by
  intro front cls after split
  apply single front cls (after ++ [definition])
  rw [split, List.append_assoc, List.cons_append]

/-- A `Response` class is the default, unless there is a class already. -/
theorem tablesHold_response {before : List ClassDefinition} {cls : MessageClass}
    (earlier : TablesHold before)
    (first : responseOf (MessageMeta cls).MSG_ID before = none) :
    TablesHold (before ++ [.response cls]) := by
  intro MSG_ID
  obtain ⟨responses, pushes⟩ := earlier MSG_ID
  rw [defineAll_concat, responseOf_response, pushOf_response]
  change ((defineAll {} before).response_messages.set (MessageMeta cls).MSG_ID
      (MessageMeta cls)).get MSG_ID = _ ∧
    ClassDict.get (if ((defineAll {} before).push_messages.get (MessageMeta cls).MSG_ID).isSome
      then (defineAll {} before).push_messages
      else (defineAll {} before).push_messages.set (MessageMeta cls).MSG_ID
        (MessageMeta cls)) MSG_ID = _
  by_cases same : (MessageMeta cls).MSG_ID = MSG_ID
  · subst same
    rw [ClassDict.get_set_self, first, if_pos rfl]
    refine ⟨rfl, ?_⟩
    rw [first, Option.or_none] at pushes
    cases found : pushOf (MessageMeta cls).MSG_ID before with
    | none =>
        rw [found] at pushes
        rw [pushes, if_neg (by decide), ClassDict.get_set_self]
        rfl
    | some push =>
        rw [found] at pushes
        rw [pushes, if_pos Option.isSome_some, pushes]
        rfl
  · rw [ClassDict.get_set_other _ _ (Ne.symm same), if_neg same, Option.or_none]
    refine ⟨responses, ?_⟩
    split
    next => exact pushes
    next =>
      rw [ClassDict.get_set_other _ _ (Ne.symm same)]
      exact pushes

/-- The first `Push` class of an identifier takes the place of the default. -/
theorem tablesHold_push {before : List ClassDefinition} {cls : MessageClass}
    (earlier : TablesHold before) (first : pushOf (MessageMeta cls).MSG_ID before = none) :
    TablesHold (before ++ [.push cls]) := by
  intro MSG_ID
  obtain ⟨responses, pushes⟩ := earlier MSG_ID
  rw [defineAll_concat, responseOf_push, pushOf_push]
  refine ⟨responses, ?_⟩
  change ((defineAll {} before).push_messages.set (MessageMeta cls).MSG_ID
    (MessageMeta cls)).get MSG_ID = _
  by_cases same : (MessageMeta cls).MSG_ID = MSG_ID
  · subst same
    rw [ClassDict.get_set_self, first, if_pos rfl]
    rfl
  · rw [ClassDict.get_set_other _ _ (Ne.symm same), if_neg same, Option.or_none]
    exact pushes

theorem tablesHold {definitions : List ClassDefinition} (oneResponse : OneResponse definitions)
    (onePush : OnePush definitions) : TablesHold definitions := by
  induction definitions using List.reverseRecOn with
  | nil =>
      intro MSG_ID
      exact ⟨rfl, rfl⟩
  | append_singleton before definition inductionHypothesis =>
      have earlier := inductionHypothesis oneResponse.of_concat onePush.of_concat
      cases definition with
      | response cls => exact tablesHold_response earlier (oneResponse before cls [] rfl)
      | push cls => exact tablesHold_push earlier (onePush before cls [] rfl)

/-- With at most one `Response` class for an identifier, the tables are independent of the
order and duplicates are refused exactly if no identifier gets a second `Push` class. -/
theorem registries_iff (definitions : List ClassDefinition)
    (oneResponse : OneResponse definitions) :
    TablesHold definitions ∧ DuplicatesRaise definitions ↔ OnePush definitions := by
  constructor
  · intro lawful before cls after split
    cases found : pushOf (MessageMeta cls).MSG_ID before with
    | none => rfl
    | some push =>
        have refused := lawful.2 before cls after split (by rw [found]; rfl)
        rw [defineClass_eq] at refused
        cases refused
  · intro onePush
    constructor
    · exact tablesHold oneResponse onePush
    · intro before cls after split duplicate
      rw [onePush before cls after split] at duplicate
      cases duplicate

/-- A class of this name, without fields. -/
def emptyClass (name : ClassName) : MessageClass where
  name := name
  MSG_ID := 0
  attributes_info := []
  wellFormed := noAttributes_wellFormed
  constructs := noAttributes_construct

/-- A `Push` class before the `Response` class of its identifier. -/
def pushFirst : List ClassDefinition :=
  [.push (emptyClass "Push_5514"), .response (emptyClass "Response_5514")]

theorem registries_pushFirst :
    TablesHold pushFirst ∧ DuplicatesRaise pushFirst ↔ OnePush pushFirst := by
  apply registries_iff
  intro before cls after split
  rcases before with _ | ⟨first, _ | ⟨second, rest⟩⟩
  · cases split
  · cases split
    rfl
  · have length := congrArg List.length split
    simp only [pushFirst, List.length_cons, List.length_nil, List.length_append] at length
    omega

/-- A second `Push` class of one identifier. -/
def pushTwice : List ClassDefinition :=
  [.push (emptyClass "Push_5514"), .push (emptyClass "Again_5514")]

/-- It is taken, and replaces the first. -/
theorem registries_pushTwice :
    OneResponse pushTwice ∧ ¬DuplicatesRaise pushTwice ∧
      (defineAll {} pushTwice).push_messages.get 5514 =
        some (MessageMeta (emptyClass "Again_5514")) := by
  have first : (MessageMeta (emptyClass "Push_5514")).MSG_ID = 5514 := by
    change (name_id "Push_5514").getD 0 = 5514
    decide +kernel
  have second : (MessageMeta (emptyClass "Again_5514")).MSG_ID = 5514 := by
    change (name_id "Again_5514").getD 0 = 5514
    decide +kernel
  refine ⟨?_, ?_, ?_⟩
  · intro before cls after split
    have member : ClassDefinition.response cls ∈ pushTwice := by
      rw [split]
      exact List.mem_append_right before List.mem_cons_self
    rcases List.mem_pair.mp member with same | same <;> cases same
  · intro raises
    have duplicate : (pushOf (MessageMeta (emptyClass "Again_5514")).MSG_ID
        [.push (emptyClass "Push_5514")]).isSome := by
      rw [second, pushOf, List.findSome?_singleton]
      dsimp only
      rw [if_pos first]
      rfl
    have refused := raises [.push (emptyClass "Push_5514")] (emptyClass "Again_5514") [] rfl
      duplicate
    rw [defineClass_eq] at refused
    cases refused
  · have last : pushTwice = [.push (emptyClass "Push_5514")] ++
        [.push (emptyClass "Again_5514")] := rfl
    rw [last, defineAll_concat, ← second]
    exact ClassDict.get_set_self _ _ _

end StdPrograms.Ouou

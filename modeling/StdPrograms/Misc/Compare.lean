import Mathlib.Data.Rat.Defs

/-!
Contract: the recursive comparison of `compare.py`.

Owns the values that it looks into, what it returns, and what it says about two values: where it
finds a difference, its path leads to it in both of them, and where it finds none, no path does.
The left one of two objects decides which names are looked at: those in `__dict__`, or where the
left one has nothing there, those in `dir()`. Names that only one of the two shows are not looked
at.

An iterable is one that `len` takes: a dictionary or a set is the sequence of what it iterates
over. The names of an object stand in the order in which the set of them is iterated over. Does not
own subclasses of the numbers and strings, or values that refer to themselves.
-/

namespace StdPrograms.Misc

/-- A `float`: `finite` is a mantissa by a power of two, with its sign. -/
inductive PyFloat where
  | nan
  | infinite (negative : Bool)
  | finite (negative : Bool) (mantissa : Nat) (exponent : Int)
deriving DecidableEq, Repr

namespace PyFloat

def number (negative : Bool) (mantissa : Nat) (exponent : Int) : ℚ :=
  (if negative then -1 else 1) * mantissa * 2 ^ exponent

/-- `==`: not a number is equal to nothing, and both zeros are equal. -/
def eq : PyFloat → PyFloat → Bool
  | infinite lhs, infinite rhs => lhs == rhs
  | finite negative mantissa exponent, finite negative' mantissa' exponent' =>
      number negative mantissa exponent == number negative' mantissa' exponent'
  | _, _ => false

end PyFloat

/-- A `bool`, an `int`, a `float` or a `str`. -/
inductive Atom where
  | bool (value : Bool)
  | int (value : Int)
  | float (value : PyFloat)
  | str (value : String)
deriving DecidableEq, Repr

/-- What `type` returns: the class of a sequence or an object is told by its name. -/
inductive PyType where
  | bool
  | int
  | float
  | str
  | iterable (cls : String)
  | object (cls : String)
deriving DecidableEq, Repr

namespace Atom

def type : Atom → PyType
  | bool _ => .bool
  | int _ => .int
  | float _ => .float
  | str _ => .str

/-- `lhs != rhs`, for two of one type. -/
def differs : Atom → Atom → Bool
  | bool lhs, bool rhs => lhs != rhs
  | int lhs, int rhs => lhs != rhs
  | float lhs, float rhs => !lhs.eq rhs
  | str lhs, str rhs => lhs != rhs
  | _, _ => true

end Atom

/-- A value. `dict` holds the names in `__dict__`, and none where an object has no such thing. -/
inductive PyValue where
  | atom (value : Atom)
  | iterable (cls : String) (callable : Bool) (items : List PyValue)
  | object (cls : String) (callable : Bool) (dict dir : List String) (getattr : String → PyValue)

namespace PyValue

def type : PyValue → PyType
  | atom value => value.type
  | iterable cls _ _ => .iterable cls
  | object cls _ _ _ _ => .object cls

def callable : PyValue → Bool
  | atom _ => false
  | iterable _ callable _ => callable
  | object _ callable _ _ _ => callable

/-- What holds of atoms, and of a value whenever it holds of its parts, holds of every value. -/
theorem induction {motive : PyValue → Prop} (atom : ∀ value, motive (.atom value))
    (iterable : ∀ cls callable items, (∀ item ∈ items, motive item) →
      motive (.iterable cls callable items))
    (object : ∀ cls callable dict dir getattr, (∀ name, motive (getattr name)) →
      motive (.object cls callable dict dir getattr)) (value : PyValue) : motive value :=
  @PyValue.rec motive (fun items => ∀ item ∈ items, motive item) atom iterable object nofun
    (fun _ _ first rest => List.forall_mem_cons.mpr ⟨first, rest⟩) value

end PyValue

/-- What `compare` returns for a difference: where it is, and both sides of it. -/
structure Difference where
  path : String
  lhs : PyValue
  rhs : PyValue

/-- `assert type(lhs) is type(rhs)`. -/
inductive CompareError where
  | assertion
deriving DecidableEq, Repr

/-- `name_func`. -/
def name_func (path name : String) : String :=
  if path = "" then name else path ++ "." ++ name

/-- `'{}[{}]'.format(prefix, i)`. -/
def item_name (path : String) (index : Nat) : String := path ++ "[" ++ toString index ++ "]"

/-- The names that neither begin with two underscores nor can be called. -/
def shown (names : List String) (getattr : String → PyValue) : List String :=
  names.filter fun x => !(['_', '_'].isPrefixOf x.toList || (getattr x).callable)

/-- A loop that returns the first result that is not `None`. -/
def firstFound {α : Type} (body : α → Except CompareError (Option Difference)) :
    List α → Except CompareError (Option Difference)
  | [] => .ok none
  | first :: rest =>
      match body first with
      | .ok none => firstFound body rest
      | result => result

mutual

def compare : PyValue → PyValue → String → Except CompareError (Option Difference)
  | .atom lhs, .atom rhs, path =>
      if lhs.type = rhs.type then
        if lhs.differs rhs then .ok (some ⟨path, .atom lhs, .atom rhs⟩) else .ok none
      else .error .assertion
  | .iterable cls _ items, .iterable cls' _ items', path =>
      if cls = cls' then
        if items.length = items'.length then compareItems items items' path 0
        else .ok (some ⟨name_func path "__len__()", .atom (.int items.length),
          .atom (.int items'.length)⟩)
      else .error .assertion
  | .object cls _ dict dir getattr, .object cls' _ dict' dir' getattr', path =>
      if cls = cls' then
        -- the type is the same, so both have a `__dict__` or none of them does
        let own := !dict.isEmpty
        let lattr := shown (if own then dict else dir) getattr
        let hattr := shown (if own then dict' else dir') getattr'
        firstFound (fun x => compare (getattr x) (getattr' x) (name_func path x))
          (lattr.filter (· ∈ hattr))
      else .error .assertion
  | .atom _, .iterable _ _ _, _ => .error .assertion
  | .atom _, .object _ _ _ _ _, _ => .error .assertion
  | .iterable _ _ _, .atom _, _ => .error .assertion
  | .iterable _ _ _, .object _ _ _ _ _, _ => .error .assertion
  | .object _ _ _ _ _, .atom _, _ => .error .assertion
  | .object _ _ _ _ _, .iterable _ _ _, _ => .error .assertion

/-- The loop over `enumerate(zip(lhs, rhs))`. -/
def compareItems : List PyValue → List PyValue → String → Nat →
    Except CompareError (Option Difference)
  | x :: xs, y :: ys, path, index =>
      match compare x y (item_name path index) with
      | .ok none => compareItems xs ys path (index + 1)
      | result => result
  | [], _, _, _ => .ok none
  | _ :: _, [], _, _ => .ok none

end

/-! ### Paths -/

/-- One step from a value to a part of it. -/
inductive Access where
  | attr (name : String)
  | item (index : Nat)
  | len
deriving DecidableEq, Repr

/-- How `compare` writes a path down. -/
def rendered (path : String) : List Access → String
  | [] => path
  | .attr name :: rest => rendered (name_func path name) rest
  | .item index :: rest => rendered (item_name path index) rest
  | .len :: rest => rendered (name_func path "__len__()") rest

namespace PyValue

/-- There is something in `__dict__`. -/
def own : PyValue → Bool
  | object _ _ dict _ _ => !dict.isEmpty
  | _ => false

/-- Where one step leads; `own` says which names an object shows. -/
def access (own : Bool) : PyValue → Access → Option PyValue
  | object _ _ dict dir getattr, .attr name =>
      if name ∈ shown (if own then dict else dir) getattr then some (getattr name) else none
  | iterable _ _ items, .item index => items[index]?
  | iterable _ _ items, .len => some (.atom (.int items.length))
  | _, _ => none

end PyValue

/-- One step from two values to a part of each: the left one says which names both show. -/
def StepLeads (lhs rhs : PyValue) (step : Access) (part part' : PyValue) : Prop :=
  lhs.access lhs.own step = some part ∧ rhs.access lhs.own step = some part'

/-- A path that leads to these parts of two values. -/
inductive PathLeads : PyValue → PyValue → List Access → PyValue → PyValue → Prop where
  | here (lhs rhs : PyValue) : PathLeads lhs rhs [] lhs rhs
  | step {lhs rhs part part' left right : PyValue} {step : Access} {rest : List Access}
      (first : StepLeads lhs rhs step part part') (further : PathLeads part part' rest left right) :
      PathLeads lhs rhs (step :: rest) left right

/-- Two values of one type that are no different atoms. -/
def Alike (lhs rhs : PyValue) : Prop :=
  lhs.type = rhs.type ∧
    ∀ left right, lhs = .atom left → rhs = .atom right → left.differs right = false

/-- Wherever a path leads in both values, it leads to parts that are alike. -/
def Agree (lhs rhs : PyValue) : Prop :=
  ∀ steps left right, PathLeads lhs rhs steps left right → Alike left right

/-- What a result of `compare` says about two values. -/
def Tells (lhs rhs : PyValue) (path : String) : Except CompareError (Option Difference) → Prop
  | .ok none => Agree lhs rhs
  | .ok (some difference) => ∃ steps left right,
      PathLeads lhs rhs steps (.atom left) (.atom right) ∧ left.differs right = true ∧
        difference = ⟨rendered path steps, .atom left, .atom right⟩
  | .error .assertion => ∃ steps left right,
      PathLeads lhs rhs steps left right ∧ left.type ≠ right.type

/-! ### What it says -/

theorem rendered_cons (path : String) (step : Access) (rest : List Access) :
    rendered path (step :: rest) = rendered (rendered path [step]) rest := by
  cases step <;> rfl

/-- Values that are alike agree where all of their common parts do. -/
theorem agree_of_access {lhs rhs : PyValue} (alike : Alike lhs rhs)
    (parts : ∀ step part part', StepLeads lhs rhs step part part' → Agree part part') :
    Agree lhs rhs := by
  intro steps left right leads
  cases leads with
  | here => exact alike
  | step first further => exact parts _ _ _ first _ left right further

theorem agree_atom {left right : Atom} (sameType : left.type = right.type)
    (same : left.differs right = false) : Agree (.atom left) (.atom right) := by
  apply agree_of_access
  · refine ⟨sameType, ?_⟩
    intro _ _ isLeft isRight
    cases isLeft
    cases isRight
    exact same
  · intro step part part' leads
    cases leads.1

/-- What is found in a part is found in the whole. -/
theorem Tells.of_part {lhs rhs part part' : PyValue} {step : Access} {path : String}
    {result : Except CompareError (Option Difference)} (first : StepLeads lhs rhs step part part')
    (found : result ≠ .ok none) (tells : Tells part part' (rendered path [step]) result) :
    Tells lhs rhs path result := by
  match result, found, tells with
  | .ok none, found, _ => exact absurd rfl found
  | .ok (some difference), _, ⟨rest, left, right, further, different, isDifference⟩ =>
      rw [← rendered_cons] at isDifference
      exact ⟨step :: rest, left, right, .step first further, different, isDifference⟩
  | .error .assertion, _, ⟨rest, left, right, further, different⟩ =>
      exact ⟨step :: rest, left, right, .step first further, different⟩

/-- The assertion fails for values of two types. -/
theorem tells_error {lhs rhs : PyValue} (path : String) (different : lhs.type ≠ rhs.type) :
    Tells lhs rhs path (.error .assertion) :=
  ⟨[], lhs, rhs, .here lhs rhs, different⟩

theorem firstFound_spec {α : Type} (body : α → Except CompareError (Option Difference))
    (list : List α) :
    (firstFound body list = .ok none ∧ ∀ element ∈ list, body element = .ok none) ∨
      ∃ element ∈ list, body element ≠ .ok none ∧ firstFound body list = body element := by
  induction list with
  | nil => exact .inl ⟨rfl, by simp⟩
  | cons first rest inductionHypothesis =>
      simp only [firstFound]
      split
      next nothing =>
        rcases inductionHypothesis with ⟨found, none⟩ | ⟨element, member, some, found⟩
        · exact .inl ⟨found, by simpa [nothing] using none⟩
        · exact .inr ⟨element, List.mem_cons_of_mem _ member, some, found⟩
      next something =>
        exact .inr ⟨first, List.mem_cons_self, something, rfl⟩

/-- The items at one position. -/
theorem compareItems_spec (items items' : List PyValue) (path : String) (index : Nat) :
    (compareItems items items' path index = .ok none ∧
        ∀ position x y, items[position]? = some x → items'[position]? = some y →
          compare x y (item_name path (index + position)) = .ok none) ∨
      ∃ position x y, items[position]? = some x ∧ items'[position]? = some y ∧
        compare x y (item_name path (index + position)) ≠ .ok none ∧
          compareItems items items' path index =
            compare x y (item_name path (index + position)) := by
  induction items generalizing items' index with
  | nil => exact .inl ⟨by simp [compareItems], by simp⟩
  | cons x xs inductionHypothesis =>
      cases items' with
      | nil => exact .inl ⟨by simp [compareItems], by simp⟩
      | cons y ys =>
          simp only [compareItems]
          split
          next nothing =>
            have shift (position : Nat) : index + 1 + position = index + (position + 1) := by omega
            rcases inductionHypothesis ys (index + 1) with ⟨found, none⟩ |
              ⟨position, x', y', isX, isY, some, found⟩
            · refine .inl ⟨found, ?_⟩
              intro position x' y' isX isY
              cases position with
              | zero =>
                  cases isX
                  cases isY
                  exact nothing
              | succ position =>
                  rw [← shift]
                  exact none position x' y' isX isY
            · rw [shift] at some found
              exact .inr ⟨position + 1, x', y', isX, isY, some, found⟩
          next something => exact .inr ⟨0, x, y, rfl, rfl, something, rfl⟩

theorem tells_items {cls : String} {callable callable' : Bool} {items items' : List PyValue}
    {path : String}
    (parts : ∀ item ∈ items, ∀ other path, Tells item other path (compare item other path))
    (sameLength : items.length = items'.length) :
    Tells (.iterable cls callable items) (.iterable cls callable' items') path
      (compareItems items items' path 0) := by
  rcases compareItems_spec items items' path 0 with ⟨found, none⟩ |
    ⟨position, x, y, isX, isY, some, found⟩
  · rw [found]
    change Agree _ _
    refine agree_of_access ⟨rfl, nofun⟩ ?_
    intro step part part' leads
    obtain ⟨toPart, toPart'⟩ := leads
    cases step with
    | attr name => cases toPart
    | item index =>
        have nothing := none index part part' toPart toPart'
        have tells := parts part (List.mem_of_getElem? toPart) part' (item_name path (0 + index))
        rw [nothing] at tells
        exact tells
    | len =>
        cases toPart
        cases toPart'
        rw [sameLength]
        exact agree_atom rfl (by simp [Atom.differs])
  · rw [Nat.zero_add] at some found
    rw [found]
    have tells := parts x (List.mem_of_getElem? isX) y (item_name path position)
    exact @Tells.of_part _ _ x y (.item position) path _ ⟨isX, isY⟩ some tells

theorem tells_attributes {cls : String} {callable callable' : Bool}
    {dict dir dict' dir' : List String} {getattr getattr' : String → PyValue} {path : String}
    (parts : ∀ name other path,
      Tells (getattr name) other path (compare (getattr name) other path)) :
    Tells (.object cls callable dict dir getattr) (.object cls callable' dict' dir' getattr') path
      (firstFound (fun x => compare (getattr x) (getattr' x) (name_func path x))
        ((shown (if !dict.isEmpty then dict else dir) getattr).filter
          (· ∈ shown (if !dict.isEmpty then dict' else dir') getattr'))) := by
  generalize names : shown (if !dict.isEmpty then dict else dir) getattr = lattr
  generalize names' : shown (if !dict.isEmpty then dict' else dir') getattr' = hattr
  have leads (name : String) (part part' : PyValue) :
      StepLeads (.object cls callable dict dir getattr) (.object cls callable' dict' dir' getattr')
          (.attr name) part part' ↔
        (name ∈ lattr ∧ getattr name = part) ∧ name ∈ hattr ∧ getattr' name = part' := by
    change (if name ∈ shown (if !dict.isEmpty then dict else dir) getattr
        then some (getattr name) else none) = some part ∧
      (if name ∈ shown (if !dict.isEmpty then dict' else dir') getattr'
        then some (getattr' name) else none) = some part' ↔ _
    rw [names, names']
    simp only [Option.ite_none_right_eq_some, Option.some.injEq]
  rcases firstFound_spec
      (fun x => compare (getattr x) (getattr' x) (name_func path x))
      (lattr.filter (· ∈ hattr)) with ⟨found, none⟩ | ⟨name, member, some, found⟩
  · rw [found]
    change Agree _ _
    refine agree_of_access ⟨rfl, nofun⟩ ?_
    intro step part part' first
    cases step with
    | attr name =>
        obtain ⟨⟨inLeft, isPart⟩, inRight, isPart'⟩ := (leads name part part').mp first
        have nothing := none name (by simp [inLeft, inRight])
        have tells := parts name (getattr' name) (name_func path name)
        rw [nothing, isPart, isPart'] at tells
        exact tells
    | item index => cases first.1
    | len => cases first.1
  · rw [found]
    simp only [List.mem_filter, decide_eq_true_eq] at member
    have tells := parts name (getattr' name) (name_func path name)
    have first := (leads name _ _).mpr ⟨⟨member.1, rfl⟩, member.2, rfl⟩
    exact @Tells.of_part _ _ _ _ (.attr name) path _ first some tells

/-- Whatever `compare` returns or raises, it says something that is true of the two values. -/
theorem tells_compare (lhs rhs : PyValue) (path : String) :
    Tells lhs rhs path (compare lhs rhs path) := by
  induction lhs using PyValue.induction generalizing rhs path with
  | atom left =>
      cases rhs with
      | atom right =>
          simp only [compare]
          split
          next sameType =>
            split
            next different => exact ⟨[], left, right, .here _ _, different, rfl⟩
            next same => exact agree_atom sameType (by simpa using same)
          next different => exact tells_error path different
      | iterable cls callable items =>
          simp only [compare]
          exact tells_error path (by cases left <;> simp [PyValue.type, Atom.type])
      | object cls callable dict dir getattr =>
          simp only [compare]
          exact tells_error path (by cases left <;> simp [PyValue.type, Atom.type])
  | iterable cls callable items parts =>
      cases rhs with
      | atom right =>
          simp only [compare]
          exact tells_error path (by cases right <;> simp [PyValue.type, Atom.type])
      | iterable cls' callable' items' =>
          simp only [compare]
          split
          next sameClass =>
            subst sameClass
            split
            next sameLength => exact tells_items parts sameLength
            next different =>
              have first : StepLeads (.iterable cls callable items) (.iterable cls callable' items')
                  .len (.atom (.int items.length)) (.atom (.int items'.length)) := ⟨rfl, rfl⟩
              refine ⟨[.len], _, _, .step first (.here _ _), ?_, rfl⟩
              simp only [Atom.differs, bne_iff_ne, ne_eq]
              omega
          next different => exact tells_error path (by simpa [PyValue.type] using different)
      | object cls' callable' dict dir getattr =>
          simp only [compare]
          exact tells_error path (by simp [PyValue.type])
  | object cls callable dict dir getattr parts =>
      cases rhs with
      | atom right =>
          simp only [compare]
          exact tells_error path (by cases right <;> simp [PyValue.type, Atom.type])
      | iterable cls' callable' items =>
          simp only [compare]
          exact tells_error path (by simp [PyValue.type])
      | object cls' callable' dict' dir' getattr' =>
          simp only [compare]
          split
          next sameClass =>
            subst sameClass
            exact tells_attributes parts
          next different => exact tells_error path (by simpa [PyValue.type] using different)

/-- An object with an attribute of its own, and one that has it from the class: only the right one's
`__dict__` is empty, or only the left one's. -/
example :
    let owner : PyValue := .object "C" false ["k"] ["k"] fun _ => .atom (.int 2)
    let heir : PyValue := .object "C" false [] ["k"] fun _ => .atom (.int 1)
    compare owner heir "" = .ok none ∧
      compare heir owner "" = .ok (some ⟨"k", .atom (.int 1), .atom (.int 2)⟩) :=
  ⟨rfl, rfl⟩

end StdPrograms.Misc

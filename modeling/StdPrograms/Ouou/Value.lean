import StdPrograms.Foundation.Except
import StdPrograms.Foundation.ReadProgram

/-!
Contract: the Python values and exceptions of the market-data package.

Owns attribute values, the attribute dictionary of an object, the exceptions
the package raises, the equality a decoded value is compared with, and the
parts of the host that are not in the package: the text codecs and zlib.

Attributes hold values of their declared types. An instance of a wrapper class
and the plain value it wraps are one value here, except for objects with named
attributes and prices, which carry more than the plain value.
-/

namespace StdPrograms.Ouou

open StdPrograms.Foundation

/-- A Python string, by its characters. -/
abbrev Str := List Char

inductive PyError where
  | structError
  | unicodeEncodeError
  | unicodeDecodeError
  | indexError
  | keyError (key : Nat)
  | nameError (name : String)
  | attributeError (name : String)
  | typeError
  | unexpectedKeyword (function keyword : String)
  | valueNotSet (cls name : String)
  | assertionError
  | zlibError
  /-- `body2bytes` reports the attribute, the class and the error underneath. -/
  | attributeFailed (name cls : String) (cause : PyError)
deriving DecidableEq, Repr

inductive Val where
  | none
  | int (value : Int)
  | str (value : Str)
  /-- A list, a tuple, or the `values` of a vector proxy. -/
  | list (values : List Val)
  /-- An object: the names in `attributes_info` order, and its dictionary. -/
  | obj (names : List String) (attributes : List (String × Val))
  | price (value : Int) (market : Str)

/-! ### Attribute dictionaries -/

/-- The attributes of an object, in the order they were first set. -/
abbrev Obj := List (String × Val)

namespace Obj

/-- `getattr`. -/
def get : Obj → String → Option Val
  | [], _ => .none
  | (key, value) :: rest, name => if key = name then some value else get rest name

/-- `setattr`. -/
def set : Obj → String → Val → Obj
  | [], name, value => [(name, value)]
  | (key, old) :: rest, name, value =>
      if key = name then (key, value) :: rest else (key, old) :: set rest name value

@[simp] theorem get_set_self (self : Obj) (name : String) (value : Val) :
    (self.set name value).get name = some value := by
  induction self with
  | nil => simp [set, get]
  | cons entry rest inductionHypothesis =>
      obtain ⟨key, old⟩ := entry
      by_cases same : key = name
      · simp [set, get, same]
      · simp [set, get, same, inductionHypothesis]

theorem get_set_other (self : Obj) {name other : String} (value : Val)
    (different : other ≠ name) :
    (self.set name value).get other = self.get other := by
  induction self with
  | nil => simp [set, get, Ne.symm different]
  | cons entry rest inductionHypothesis =>
      obtain ⟨key, old⟩ := entry
      by_cases same : key = name
      · simp [set, get, same, Ne.symm different]
      · by_cases found : key = other
        · simp [set, get, found, different]
        · simp [set, get, same, found, inductionHypothesis]

/-- Setting an attribute to what it is changes nothing. -/
theorem set_eq_self {self : Obj} {name : String} {value : Val}
    (found : self.get name = some value) : self.set name value = self := by
  induction self with
  | nil => cases found
  | cons entry rest inductionHypothesis =>
      obtain ⟨key, old⟩ := entry
      by_cases same : key = name
      · simp only [get, if_pos same] at found
        rw [set, if_pos same, Option.some.inj found]
      · simp only [get, if_neg same] at found
        rw [set, if_neg same, inductionHypothesis found]

/-- `hasattr`. -/
def has (self : Obj) (name : String) : Bool := (self.get name).isSome

/-- The named attributes, in order; `none` where one is missing. -/
def values (self : Obj) : List String → Option (List Val)
  | [] => some []
  | name :: rest =>
      match self.get name, self.values rest with
      | some value, some others => some (value :: others)
      | _, _ => .none

theorem values_eq_some_iff {self : Obj} {names : List String} {results : List Val} :
    self.values names = some results ↔
      List.Forall₂ (fun name value => self.get name = some value) names results := by
  induction names generalizing results with
  | nil =>
      rw [values]
      constructor
      · intro found
        cases found
        exact .nil
      · intro found
        cases found
        rfl
  | cons name rest inductionHypothesis =>
      rw [values]
      constructor
      · intro found
        split at found
        next value others head tail =>
          cases Option.some.inj found
          exact .cons head (inductionHypothesis.mp tail)
        next => contradiction
      · intro found
        cases found with
        | cons head tail => rw [head, inductionHypothesis.mpr tail]

theorem values_set_other (self : Obj) {name : String} {names : List String} (value : Val)
    (fresh : name ∉ names) : (self.set name value).values names = self.values names := by
  induction names with
  | nil => rfl
  | cons head rest inductionHypothesis =>
      rw [List.mem_cons, not_or] at fresh
      rw [values, values, get_set_other _ _ (Ne.symm fresh.1), inductionHypothesis fresh.2]

end Obj

namespace Val

/-- What iterating over the value yields; `Option.none` where Python raises. -/
def iter : Val → Option (List Val)
  | .list values => some values
  | .obj names attributes => Obj.values attributes names
  | _ => .none

/-- Truth value of the attributes that conditions look at. -/
def truthy : Val → Bool
  | .none => false
  | .int value => value ≠ 0
  | .str value => !value.isEmpty
  | .list values => !values.isEmpty
  | .obj names _ => !names.isEmpty
  | .price _ _ => true

/-- `decoded == given`. Objects are compared by what they yield, so a decoded
object equals a tuple of equal values, and a decoded price equals its integer. -/
inductive Same : Val → Val → Prop where
  | int (value : Int) : Same (.int value) (.int value)
  | str (value : Str) : Same (.str value) (.str value)
  | list {decoded given : List Val} (items : List.Forall₂ Same decoded given) :
      Same (.list decoded) (.list given)
  | price (value : Int) (market : Str) : Same (.price value market) (.int value)
  | obj {names : List String} {attributes : Obj} {given : Val} {left right : List Val}
      (yields : Val.iter (.obj names attributes) = some left)
      (givenYields : given.iter = some right)
      (items : List.Forall₂ Same left right) :
      Same (.obj names attributes) given

end Val

/-! ### The host -/

/-- A text encoding of the host, with the round trip that the package relies on. -/
structure TextCodec where
  encode : Str → Option Bytes
  decode : Bytes → Option Str
  decode_encode : ∀ text bytes, encode text = some bytes → decode bytes = some text

/-- What the package uses of the host besides the language itself. -/
structure Host where
  utf8 : TextCodec
  gbk : TextCodec
  /-- `zlib.decompress`; `none` where it raises. -/
  decompress : Bytes → Option Bytes

/-- The ASCII part of both encodings. -/
def ascii : TextCodec where
  encode := fun text =>
    if text.all fun char => char.toNat < 128 then
      some (text.map fun char => UInt8.ofNat char.toNat)
    else none
  decode := fun bytes =>
    if bytes.all fun byte => byte.toNat < 128 then
      some (bytes.map fun byte => Char.ofNat byte.toNat)
    else none
  decode_encode := by
    intro text bytes encoded
    split at encoded
    next small =>
      cases Option.some.inj encoded
      have value (char : Char) (member : char ∈ text) :
          (UInt8.ofNat char.toNat).toNat = char.toNat := by
        have below := of_decide_eq_true (List.all_eq_true.mp small char member)
        simp only [UInt8.toNat_ofNat']
        omega
      have bytesSmall : (text.map fun char => UInt8.ofNat char.toNat).all
          (fun byte => byte.toNat < 128) = true := by
        rw [List.all_map, List.all_eq_true]
        intro char member
        have below := of_decide_eq_true (List.all_eq_true.mp small char member)
        simp only [Function.comp_apply, value char member, decide_eq_true_eq]
        exact below
      rw [if_pos bytesSmall, List.map_map]
      congr 1
      conv_rhs => rw [← List.map_id text]
      refine List.map_congr_left fun char member => ?_
      simp only [Function.comp_apply, value char member, Char.ofNat_toNat, id_eq]
    next => contradiction

/-- A host for texts in ASCII, where nothing can be decompressed. -/
def asciiHost : Host where
  utf8 := ascii
  gbk := ascii
  decompress := fun _ => none

end StdPrograms.Ouou

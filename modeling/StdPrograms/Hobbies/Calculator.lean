import Mathlib.Algebra.Order.Ring.Int
import Mathlib.Data.List.TakeWhile
import Mathlib.Tactic.Ring

/-!
Contract: the evaluation of sums with signs and parentheses.

Owns the grammar of the expressions with their values, `prim`, `expr` and `calculate` by
recursive descent, and `calculate2` with two stacks, of `solution_224.cpp`, with numbers of any
size.

Does not own what the two do with other strings.
-/

namespace StdPrograms.Hobbies

namespace Calculator

/-- The number that is spelled by digits. -/
def decimal (digits : List Char) : Int :=
  digits.foldl (fun num c => num * 10 + ((c.toNat : Int) - '0'.toNat)) 0

/-! ### The grammar -/

inductive Category where
  | expr
  | term
  | rest

def Blank (text : List Char) : Prop := ∀ c ∈ text, c = ' '

/-- The strings of a category with their values. A rest is what follows the first term. -/
inductive Derives : Category → List Char → Int → Prop where
  | digits {text : List Char} (nonempty : text ≠ []) (all : ∀ c ∈ text, c.isDigit) :
      Derives .term text (decimal text)
  | parentheses {text : List Char} {value : Int} (inner : Derives .expr text value) :
      Derives .term ('(' :: (text ++ [')'])) value
  | none {blank : List Char} (blanks : Blank blank) : Derives .rest blank 0
  | plus {before behind term rest : List Char} {first later : Int} (blankBefore : Blank before)
      (blankBehind : Blank behind) (termDerives : Derives .term term first)
      (restDerives : Derives .rest rest later) :
      Derives .rest (before ++ '+' :: (behind ++ (term ++ rest))) (first + later)
  | minus {before behind term rest : List Char} {first later : Int} (blankBefore : Blank before)
      (blankBehind : Blank behind) (termDerives : Derives .term term first)
      (restDerives : Derives .rest rest later) :
      Derives .rest (before ++ '-' :: (behind ++ (term ++ rest))) (-first + later)
  | unsigned {before term rest : List Char} {first later : Int} (blankBefore : Blank before)
      (termDerives : Derives .term term first) (restDerives : Derives .rest rest later) :
      Derives .expr (before ++ (term ++ rest)) (first + later)
  | positive {before behind term rest : List Char} {first later : Int} (blankBefore : Blank before)
      (blankBehind : Blank behind) (termDerives : Derives .term term first)
      (restDerives : Derives .rest rest later) :
      Derives .expr (before ++ '+' :: (behind ++ (term ++ rest))) (first + later)
  | negative {before behind term rest : List Char} {first later : Int} (blankBefore : Blank before)
      (blankBehind : Blank behind) (termDerives : Derives .term term first)
      (restDerives : Derives .rest rest later) :
      Derives .expr (before ++ '-' :: (behind ++ (term ++ rest))) (-first + later)

/-! ### `calculate` -/

mutual

/-- The assertion of `prim`. The position is given by what is left of the string. -/
def prim : Nat → List Char → Option (Int × List Char)
  | 0, _ => none
  | fuel + 1, s => if s = [] then none else primLoop fuel s

/-- The loop of `prim`. Unknown characters are passed over; `stol` takes all digits. -/
def primLoop : Nat → List Char → Option (Int × List Char)
  | 0, _ => none
  | _ + 1, [] => some (0, [])
  | fuel + 1, c :: s =>
      if c.isDigit then
        some (decimal ((c :: s).takeWhile Char.isDigit), (c :: s).dropWhile Char.isDigit)
      else if c = '-' then do
        let ret ← prim fuel s
        return (-ret.1, ret.2)
      else if c = '(' then do
        let ret ← expr fuel s
        if ret.2.head? = some ')' then return (ret.1, ret.2.tail) else none
      else primLoop fuel s

def expr : Nat → List Char → Option (Int × List Char)
  | 0, _ => none
  | fuel + 1, s =>
      if s = [] then some (0, [])
      else do
        let result ← prim fuel s
        exprLoop fuel result.1 result.2

/-- The loop of `expr`, which stops at the end of the string or at any other character. -/
def exprLoop : Nat → Int → List Char → Option (Int × List Char)
  | 0, _, _ => none
  | _ + 1, result, [] => some (result, [])
  | fuel + 1, result, c :: s =>
      if c = '+' then do
        let ret ← prim fuel s
        exprLoop fuel (result + ret.1) ret.2
      else if c = '-' then do
        let ret ← prim fuel s
        exprLoop fuel (result - ret.1) ret.2
      else if c = ' ' then exprLoop fuel result s
      else some (result, c :: s)

end

def calculate (fuel : Nat) (s : List Char) : Option Int := do
  let result ← expr fuel s
  return result.1

/-! ### `calculate2` -/

structure Stacks where
  prims : List Int
  ops : List Int
  result : Int
  sign : Int
  num : Int

/-- The body of the loop. There is no result where an empty stack is read. -/
def step (state : Stacks) (c : Char) : Option Stacks :=
  if c.isDigit then
    some { state with num := state.num * 10 + ((c.toNat : Int) - '0'.toNat) }
  else
    let state := { state with result := state.result + state.sign * state.num, num := 0 }
    let state := if c = '+' then { state with sign := 1 } else state
    let state := if c = '-' then { state with sign := -1 } else state
    let state :=
      if c = '(' then
        { state with
          prims := state.result :: state.prims
          ops := state.sign :: state.ops
          result := 0
          sign := 1 }
      else state
    if c = ')' then
      match state.prims, state.ops with
      | prim :: prims, op :: ops =>
          some { state with prims := prims, ops := ops, result := prim + op * state.result }
      | _, _ => none
    else some state

def calculate2 (s : List Char) : Option Int := do
  let state ← s.foldlM step ⟨[], [], 0, 1, 0⟩
  return state.result + state.sign * state.num

/-! ### Recursive descent -/

def NoDigit (after : List Char) : Prop := ∀ c, after.head? = some c → c.isDigit = false

/-- What may stand behind an expression. -/
def Ends (after : List Char) : Prop := ∀ c, after.head? = some c → c = ')'

theorem prim_eq {fuel : Nat} {s : List Char} (nonempty : s ≠ [])
    (enough : 3 * s.length + 1 < fuel) :
    ∃ left, 3 * s.length < left ∧ prim fuel s = primLoop left s := by
  cases fuel with
  | zero => omega
  | succ fuel => exact ⟨fuel, by omega, by simp only [prim, nonempty, ↓reduceIte]⟩

theorem primLoop_pass {fuel : Nat} {c : Char} {s : List Char} (passed : c = ' ' ∨ c = '+')
    (enough : 3 * (c :: s).length < fuel) :
    ∃ left, 3 * s.length < left ∧ primLoop fuel (c :: s) = primLoop left s := by
  rw [List.length_cons] at enough
  cases fuel with
  | zero => omega
  | succ fuel =>
      refine ⟨fuel, by omega, ?_⟩
      rcases passed with rfl | rfl
      · simp [primLoop]
      · simp [primLoop]

theorem primLoop_blank {blank : List Char} (blanks : Blank blank) {fuel : Nat} {s : List Char}
    (enough : 3 * (blank ++ s).length < fuel) :
    ∃ left, 3 * s.length < left ∧ primLoop fuel (blank ++ s) = primLoop left s := by
  induction blank generalizing fuel with
  | nil => exact ⟨fuel, enough, rfl⟩
  | cons c blank inductionHypothesis =>
      obtain ⟨next, nextEnough, nextIs⟩ :=
        primLoop_pass (Or.inl (blanks c List.mem_cons_self)) enough
      obtain ⟨left, leftEnough, leftIs⟩ :=
        inductionHypothesis (fun other member => blanks other (List.mem_cons_of_mem c member))
          nextEnough
      exact ⟨left, leftEnough, nextIs.trans leftIs⟩

theorem exprLoop_blank {blank : List Char} (blanks : Blank blank) {fuel : Nat} {result : Int}
    {s : List Char} (enough : 3 * (blank ++ s).length < fuel) :
    ∃ left, 3 * s.length < left ∧ exprLoop fuel result (blank ++ s) = exprLoop left result s := by
  induction blank generalizing fuel with
  | nil => exact ⟨fuel, enough, rfl⟩
  | cons c blank inductionHypothesis =>
      obtain rfl : c = ' ' := blanks c List.mem_cons_self
      rw [List.cons_append, List.length_cons] at enough
      cases fuel with
      | zero => omega
      | succ fuel =>
          obtain ⟨left, leftEnough, leftIs⟩ :=
            inductionHypothesis (fun other member => blanks other (List.mem_cons_of_mem ' ' member))
              (by omega : 3 * (blank ++ s).length < fuel)
          refine ⟨left, leftEnough, ?_⟩
          rw [← leftIs, List.cons_append]
          simp [exprLoop]

theorem exprLoop_ends {fuel : Nat} (result : Int) {after : List Char} (ends : Ends after)
    (positive : 0 < fuel) : exprLoop fuel result after = some (result, after) := by
  cases fuel with
  | zero => omega
  | succ fuel =>
      cases after with
      | nil => simp [exprLoop]
      | cons c after =>
          obtain rfl : c = ')' := ends c rfl
          simp [exprLoop]

theorem primLoop_digits {text after : List Char} {fuel : Nat} (nonempty : text ≠ [])
    (all : ∀ c ∈ text, c.isDigit) (noDigit : NoDigit after) (positive : 0 < fuel) :
    primLoop fuel (text ++ after) = some (decimal text, after) := by
  obtain ⟨c, digits, rfl⟩ := List.exists_cons_of_ne_nil nonempty
  have afterTake : after.takeWhile Char.isDigit = [] := by
    cases after with
    | nil => rfl
    | cons next after => simp [noDigit next rfl]
  have afterDrop : after.dropWhile Char.isDigit = after := by
    cases after with
    | nil => rfl
    | cons next after => simp [noDigit next rfl]
  cases fuel with
  | zero => omega
  | succ fuel =>
      have taken := @List.takeWhile_append_of_pos _ Char.isDigit (c :: digits) after all
      have dropped := @List.dropWhile_append_of_pos _ Char.isDigit (c :: digits) after all
      rw [afterTake, List.append_nil] at taken
      rw [afterDrop] at dropped
      rw [List.cons_append] at taken dropped ⊢
      simp only [primLoop, all c List.mem_cons_self, ↓reduceIte, taken, dropped]

/-- What the recursive descent does with a string of the category, whatever stands behind it. -/
def Parsed : Category → List Char → Int → Prop
  | .term, text, value =>
      text ≠ [] ∧ ∀ (fuel : Nat) (after : List Char), NoDigit after →
        3 * (text ++ after).length < fuel → primLoop fuel (text ++ after) = some (value, after)
  | .rest, text, value =>
      (∀ after, Ends after → NoDigit (text ++ after)) ∧
        ∀ (fuel : Nat) (result : Int) (after : List Char), Ends after →
          3 * (text ++ after).length < fuel →
            exprLoop fuel result (text ++ after) = some (result + value, after)
  | .expr, text, value =>
      ∀ (fuel : Nat) (after : List Char), Ends after → 3 * (text ++ after).length + 2 < fuel →
        expr fuel (text ++ after) = some (value, after)

section

variable {behind term rest after : List Char} {first later : Int}

theorem primLoop_operand (blankBehind : Blank behind) (termParsed : Parsed .term term first)
    (restParsed : Parsed .rest rest later) (ends : Ends after) {fuel : Nat}
    (enough : 3 * (behind ++ (term ++ (rest ++ after))).length < fuel) :
    primLoop fuel (behind ++ (term ++ (rest ++ after))) = some (first, rest ++ after) := by
  obtain ⟨left, leftEnough, leftIs⟩ := primLoop_blank blankBehind enough
  rw [leftIs]
  exact termParsed.2 left (rest ++ after) (restParsed.1 after ends) leftEnough

theorem prim_operand (blankBehind : Blank behind) (termParsed : Parsed .term term first)
    (restParsed : Parsed .rest rest later) (ends : Ends after) {fuel : Nat}
    (enough : 3 * (behind ++ (term ++ (rest ++ after))).length + 1 < fuel) :
    prim fuel (behind ++ (term ++ (rest ++ after))) = some (first, rest ++ after) := by
  have nonempty : behind ++ (term ++ (rest ++ after)) ≠ [] :=
    List.append_ne_nil_of_right_ne_nil behind
      (List.append_ne_nil_of_left_ne_nil termParsed.1 (rest ++ after))
  obtain ⟨left, leftEnough, leftIs⟩ := prim_eq nonempty enough
  rw [leftIs]
  exact primLoop_operand blankBehind termParsed restParsed ends leftEnough

theorem exprLoop_rest (restParsed : Parsed .rest rest later) (ends : Ends after) {fuel : Nat}
    (result : Int) (enough : 3 * (behind ++ (term ++ (rest ++ after))).length < fuel) :
    exprLoop fuel result (rest ++ after) = some (result + later, after) := by
  simp only [List.length_append] at enough
  refine restParsed.2 fuel result after ends ?_
  rw [List.length_append]
  omega

/-- The operand behind an operator, and the rest. -/
theorem exprLoop_operator {c : Char} {before : List Char} (operator : c = '+' ∨ c = '-')
    (blankBefore : Blank before) (blankBehind : Blank behind)
    (termParsed : Parsed .term term first) (restParsed : Parsed .rest rest later)
    (ends : Ends after) {fuel : Nat} (result : Int)
    (enough : 3 * (before ++ c :: (behind ++ (term ++ (rest ++ after)))).length < fuel) :
    exprLoop fuel result (before ++ c :: (behind ++ (term ++ (rest ++ after)))) =
      some (result + (if c = '+' then first else -first) + later, after) := by
  obtain ⟨left, leftEnough, leftIs⟩ := @exprLoop_blank before blankBefore fuel result _ enough
  rw [leftIs]
  rw [List.length_cons] at leftEnough
  cases left with
  | zero => omega
  | succ left =>
      have operand := prim_operand blankBehind termParsed restParsed ends
        (by omega : 3 * (behind ++ (term ++ (rest ++ after))).length + 1 < left)
      have remaining := fun result =>
        @exprLoop_rest behind term rest after later restParsed ends left result
          (by omega : 3 * (behind ++ (term ++ (rest ++ after))).length < left)
      rcases operator with rfl | rfl
      · simp [exprLoop, operand, remaining]
      · simp [exprLoop, operand, remaining, sub_eq_add_neg]

/-- The first operand behind a sign. -/
theorem primLoop_signed {c : Char} {before : List Char} (operator : c = '+' ∨ c = '-')
    (blankBefore : Blank before) (blankBehind : Blank behind)
    (termParsed : Parsed .term term first) (restParsed : Parsed .rest rest later)
    (ends : Ends after) {fuel : Nat}
    (enough : 3 * (before ++ c :: (behind ++ (term ++ (rest ++ after)))).length < fuel) :
    primLoop fuel (before ++ c :: (behind ++ (term ++ (rest ++ after)))) =
      some (if c = '+' then first else -first, rest ++ after) := by
  obtain ⟨left, leftEnough, leftIs⟩ := primLoop_blank blankBefore enough
  rw [leftIs]
  rcases operator with rfl | rfl
  · obtain ⟨last, lastEnough, lastIs⟩ := primLoop_pass (Or.inr rfl) leftEnough
    rw [lastIs]
    exact primLoop_operand blankBehind termParsed restParsed ends lastEnough
  · rw [List.length_cons] at leftEnough
    cases left with
    | zero => omega
    | succ left =>
        have operand := prim_operand blankBehind termParsed restParsed ends
          (by omega : _ + 1 < left)
        simp [primLoop, operand]

/-- An expression whose first operand is read by `prim` as the given number. -/
theorem expr_of_prim {s : List Char} (nonempty : s ≠ [])
    (restParsed : Parsed .rest rest later) (ends : Ends after)
    (shorter : (rest ++ after).length ≤ s.length)
    (firstIs : ∀ fuel, 3 * s.length < fuel → primLoop fuel s = some (first, rest ++ after))
    {fuel : Nat} (enough : 3 * s.length + 2 < fuel) :
    expr fuel s = some (first + later, after) := by
  cases fuel with
  | zero => omega
  | succ fuel =>
      obtain ⟨left, leftEnough, leftIs⟩ := prim_eq nonempty (by omega : 3 * s.length + 1 < fuel)
      simp only [expr, nonempty, ↓reduceIte, leftIs, firstIs left leftEnough]
      exact restParsed.2 fuel first after ends (by omega)

end

theorem NoDigit.of_blank {blank s : List Char} (blanks : Blank blank) (noDigit : NoDigit s) :
    NoDigit (blank ++ s) := by
  intro c headIs
  cases blank with
  | nil => exact noDigit c headIs
  | cons next blank =>
      obtain rfl : next = c := by simpa using headIs
      rw [blanks next List.mem_cons_self]
      rfl

theorem Ends.noDigit {after : List Char} (ends : Ends after) : NoDigit after := by
  intro c headIs
  rw [ends c headIs]
  rfl

theorem noDigit_operator {c : Char} {s : List Char} (operator : c = '+' ∨ c = '-') :
    NoDigit (c :: s) := by
  intro next headIs
  obtain rfl : c = next := by simpa using headIs
  rcases operator with rfl | rfl
  · rfl
  · rfl

theorem Parsed.parentheses {text : List Char} {value : Int} (inner : Parsed .expr text value) :
    Parsed .term ('(' :: (text ++ [')'])) value := by
  refine ⟨List.cons_ne_nil _ _, fun fuel after _ enough => ?_⟩
  have layout : '(' :: (text ++ [')']) ++ after = '(' :: (text ++ ')' :: after) := by simp
  rw [layout] at enough ⊢
  rw [List.length_cons] at enough
  have ends : Ends (')' :: after) := fun c headIs => by simpa using headIs.symm
  cases fuel with
  | zero => omega
  | succ fuel =>
      have innerIs := inner fuel (')' :: after) ends (by omega)
      simp [primLoop, innerIs]

theorem Parsed.rest_none {blank : List Char} (blanks : Blank blank) : Parsed .rest blank 0 := by
  refine ⟨fun after ends => NoDigit.of_blank blanks ends.noDigit,
    fun fuel result after ends enough => ?_⟩
  obtain ⟨left, leftEnough, leftIs⟩ := @exprLoop_blank _ blanks fuel result after enough
  rw [leftIs, exprLoop_ends result ends (by omega), Int.add_zero]

section

variable {c : Char} {before behind term rest : List Char} {first later : Int}

theorem Parsed.rest_operator (operator : c = '+' ∨ c = '-') (blankBefore : Blank before)
    (blankBehind : Blank behind) (termParsed : Parsed .term term first)
    (restParsed : Parsed .rest rest later) :
    Parsed .rest (before ++ c :: (behind ++ (term ++ rest)))
      ((if c = '+' then first else -first) + later) := by
  refine ⟨fun after _ => ?_, fun fuel result after ends enough => ?_⟩
  · rw [List.append_assoc]
    exact NoDigit.of_blank blankBefore (noDigit_operator operator)
  · simp only [List.append_assoc, List.cons_append] at enough ⊢
    rw [exprLoop_operator operator blankBefore blankBehind termParsed restParsed ends result
      enough, Int.add_assoc]

theorem Parsed.expr_unsigned (blankBefore : Blank before) (termParsed : Parsed .term term first)
    (restParsed : Parsed .rest rest later) :
    Parsed .expr (before ++ (term ++ rest)) (first + later) := by
  intro fuel after ends enough
  simp only [List.append_assoc] at enough ⊢
  refine expr_of_prim ?_ restParsed ends (by simp only [List.length_append]; omega) ?_ enough
  · exact List.append_ne_nil_of_right_ne_nil _
      (List.append_ne_nil_of_left_ne_nil termParsed.1 _)
  · intro left leftEnough
    exact primLoop_operand blankBefore termParsed restParsed ends leftEnough

theorem Parsed.expr_signed (operator : c = '+' ∨ c = '-') (blankBefore : Blank before)
    (blankBehind : Blank behind) (termParsed : Parsed .term term first)
    (restParsed : Parsed .rest rest later) :
    Parsed .expr (before ++ c :: (behind ++ (term ++ rest)))
      ((if c = '+' then first else -first) + later) := by
  intro fuel after ends enough
  simp only [List.append_assoc, List.cons_append] at enough ⊢
  refine expr_of_prim (by simp) restParsed ends
    (by simp only [List.length_append, List.length_cons]; omega) ?_ enough
  intro left leftEnough
  exact primLoop_signed operator blankBefore blankBehind termParsed restParsed ends leftEnough

end

theorem parsed_of_derives {category : Category} {text : List Char} {value : Int}
    (derives : Derives category text value) : Parsed category text value := by
  induction derives with
  | digits nonempty all =>
      exact ⟨nonempty, fun fuel after noDigit enough =>
        primLoop_digits nonempty all noDigit (by omega)⟩
  | parentheses _ inner => exact inner.parentheses
  | none blanks => exact Parsed.rest_none blanks
  | plus blankBefore blankBehind _ _ termParsed restParsed =>
      exact Parsed.rest_operator (Or.inl rfl) blankBefore blankBehind termParsed restParsed
  | minus blankBefore blankBehind _ _ termParsed restParsed =>
      exact Parsed.rest_operator (Or.inr rfl) blankBefore blankBehind termParsed restParsed
  | unsigned blankBefore _ _ termParsed restParsed =>
      exact Parsed.expr_unsigned blankBefore termParsed restParsed
  | positive blankBefore blankBehind _ _ termParsed restParsed =>
      exact Parsed.expr_signed (Or.inl rfl) blankBefore blankBehind termParsed restParsed
  | negative blankBefore blankBehind _ _ termParsed restParsed =>
      exact Parsed.expr_signed (Or.inr rfl) blankBefore blankBehind termParsed restParsed

theorem calculate_value {s : List Char} {value : Int} (derives : Derives .expr s value)
    {fuel : Nat} (enough : 3 * s.length + 2 < fuel) : calculate fuel s = some value := by
  have ends : Ends [] := fun c headIs => by simp at headIs
  have parsed := parsed_of_derives derives fuel [] ends (by rwa [List.append_nil])
  rw [List.append_nil] at parsed
  simp [calculate, parsed]

/-! ### Two stacks -/

/-- The result when the string ended here. -/
def Stacks.total (state : Stacks) : Int := state.result + state.sign * state.num

/-- What `calculate2` does with a string of the category. -/
def Added : Category → List Char → Int → Prop
  | .term, text, value =>
      ∀ state : Stacks, state.num = 0 → ∃ next, text.foldlM step state = some next ∧
        next.prims = state.prims ∧ next.ops = state.ops ∧
          next.total = state.result + state.sign * value
  | .rest, text, value =>
      ∀ state : Stacks, ∃ next, text.foldlM step state = some next ∧
        next.prims = state.prims ∧ next.ops = state.ops ∧ next.total = state.total + value
  | .expr, text, value =>
      ∀ state : Stacks, state.num = 0 → state.sign = 1 →
        ∃ next, text.foldlM step state = some next ∧
          next.prims = state.prims ∧ next.ops = state.ops ∧ next.total = state.result + value

theorem foldlM_append_some {left right : List Char} {state middle : Stacks}
    (leftIs : left.foldlM step state = some middle) :
    (left ++ right).foldlM step state = right.foldlM step middle := by
  rw [List.foldlM_append, leftIs]
  rfl

theorem step_blank (state : Stacks) :
    step state ' ' = some { state with result := state.total, num := 0 } := by
  simp [step, Stacks.total]

theorem step_plus (state : Stacks) :
    step state '+' = some { state with result := state.total, num := 0, sign := 1 } := by
  simp [step, Stacks.total]

theorem step_minus (state : Stacks) :
    step state '-' = some { state with result := state.total, num := 0, sign := -1 } := by
  simp [step, Stacks.total]

theorem step_open (state : Stacks) :
    step state '(' =
      some ⟨state.total :: state.prims, state.sign :: state.ops, 0, 1, 0⟩ := by
  simp [step, Stacks.total]

theorem step_close {state : Stacks} {prim op : Int} {prims ops : List Int}
    (primsAre : state.prims = prim :: prims) (opsAre : state.ops = op :: ops) :
    step state ')' = some ⟨prims, ops, prim + op * state.total, state.sign, 0⟩ := by
  simp [step, Stacks.total, primsAre, opsAre]

theorem foldlM_digits {text : List Char} (all : ∀ c ∈ text, c.isDigit) (state : Stacks) :
    text.foldlM step state =
      some { state with
        num := text.foldl (fun num c => num * 10 + ((c.toNat : Int) - '0'.toNat)) state.num } := by
  induction text generalizing state with
  | nil => rfl
  | cons c text inductionHypothesis =>
      have stepIs : step state c =
          some { state with num := state.num * 10 + ((c.toNat : Int) - '0'.toNat) } := by
        simp only [step, all c List.mem_cons_self, ↓reduceIte]
      rw [List.foldlM_cons, stepIs, Option.bind_eq_bind, Option.bind_some,
        inductionHypothesis (fun other member => all other (List.mem_cons_of_mem c member))]
      rfl

/-- Blanks move the number to the result. -/
theorem foldlM_blank {blank : List Char} (blanks : Blank blank) (state : Stacks) :
    ∃ next, blank.foldlM step state = some next ∧ next.prims = state.prims ∧
      next.ops = state.ops ∧ next.sign = state.sign ∧ next.total = state.total ∧
        (state.num = 0 → next.num = 0) := by
  induction blank generalizing state with
  | nil => exact ⟨state, rfl, rfl, rfl, rfl, rfl, id⟩
  | cons c blank inductionHypothesis =>
      obtain rfl : c = ' ' := blanks c List.mem_cons_self
      obtain ⟨next, nextIs, prims, ops, sign, total, num⟩ :=
        inductionHypothesis (fun other member => blanks other (List.mem_cons_of_mem ' ' member))
          { state with result := state.total, num := 0 }
      refine ⟨next, ?_, prims, ops, sign, ?_, fun _ => num rfl⟩
      · rw [List.foldlM_cons, step_blank, Option.bind_eq_bind, Option.bind_some, nextIs]
      · rw [total]
        simp [Stacks.total]

theorem Stacks.total_of_num {state : Stacks} (numZero : state.num = 0) :
    state.total = state.result := by
  rw [Stacks.total, numZero, Int.mul_zero, Int.add_zero]

section

variable {behind term rest : List Char} {first later : Int}

theorem foldlM_operand (blankBehind : Blank behind) (termAdded : Added .term term first)
    (restAdded : Added .rest rest later) (state : Stacks) (numZero : state.num = 0) :
    ∃ next, (behind ++ (term ++ rest)).foldlM step state = some next ∧
      next.prims = state.prims ∧ next.ops = state.ops ∧
        next.total = state.result + state.sign * first + later := by
  obtain ⟨passed, passedIs, passedPrims, passedOps, passedSign, passedTotal, passedNum⟩ :=
    foldlM_blank blankBehind state
  obtain ⟨read, readIs, readPrims, readOps, readTotal⟩ := termAdded passed (passedNum numZero)
  obtain ⟨next, nextIs, nextPrims, nextOps, nextTotal⟩ := restAdded read
  have passedResult : passed.result = state.result := by
    rw [← Stacks.total_of_num (passedNum numZero), passedTotal, Stacks.total_of_num numZero]
  refine ⟨next, ?_, ?_, ?_, ?_⟩
  · rw [foldlM_append_some passedIs, foldlM_append_some readIs, nextIs]
  · rw [nextPrims, readPrims, passedPrims]
  · rw [nextOps, readOps, passedOps]
  · rw [nextTotal, readTotal, passedResult, passedSign]

/-- The operand behind an operator, and the rest. -/
theorem foldlM_operator {c : Char} {before : List Char} (operator : c = '+' ∨ c = '-')
    (blankBefore : Blank before) (blankBehind : Blank behind)
    (termAdded : Added .term term first) (restAdded : Added .rest rest later) (state : Stacks) :
    ∃ next, (before ++ c :: (behind ++ (term ++ rest))).foldlM step state = some next ∧
      next.prims = state.prims ∧ next.ops = state.ops ∧
        next.total = state.total + ((if c = '+' then first else -first) + later) := by
  obtain ⟨passed, passedIs, passedPrims, passedOps, _, passedTotal, _⟩ :=
    foldlM_blank blankBefore state
  have stepIs : step passed c =
      some ⟨passed.prims, passed.ops, passed.total, if c = '+' then 1 else -1, 0⟩ := by
    rcases operator with rfl | rfl
    · exact step_plus passed
    · exact step_minus passed
  obtain ⟨next, nextIs, nextPrims, nextOps, nextTotal⟩ :=
    foldlM_operand blankBehind termAdded restAdded
      ⟨passed.prims, passed.ops, passed.total, if c = '+' then 1 else -1, 0⟩ rfl
  refine ⟨next, ?_, nextPrims.trans passedPrims, nextOps.trans passedOps, ?_⟩
  · rw [foldlM_append_some passedIs, List.foldlM_cons, stepIs, Option.bind_eq_bind,
      Option.bind_some]
    exact nextIs
  · rw [nextTotal, ← passedTotal]
    rcases operator with rfl | rfl
    · simp [Int.add_assoc]
    · simp [Int.add_assoc]

end

theorem Added.parentheses {text : List Char} {value : Int} (inner : Added .expr text value) :
    Added .term ('(' :: (text ++ [')'])) value := by
  intro state numZero
  obtain ⟨read, readIs, readPrims, readOps, readTotal⟩ :=
    inner ⟨state.total :: state.prims, state.sign :: state.ops, 0, 1, 0⟩ rfl rfl
  refine ⟨⟨state.prims, state.ops, state.total + state.sign * read.total, read.sign, 0⟩,
    ?_, rfl, rfl, ?_⟩
  · rw [List.foldlM_cons, step_open, Option.bind_eq_bind, Option.bind_some,
      foldlM_append_some readIs, List.foldlM_cons, step_close readPrims readOps]
    rfl
  · rw [readTotal, Stacks.total_of_num rfl, Stacks.total_of_num numZero, Int.zero_add]

theorem added_of_derives {category : Category} {text : List Char} {value : Int}
    (derives : Derives category text value) : Added category text value := by
  induction derives with
  | @digits text nonempty all =>
      intro state numZero
      refine ⟨_, foldlM_digits all state, rfl, rfl, ?_⟩
      rw [Stacks.total, numZero, decimal]
  | parentheses _ inner => exact inner.parentheses
  | none blanks =>
      intro state
      obtain ⟨next, nextIs, prims, ops, _, total, _⟩ := foldlM_blank blanks state
      exact ⟨next, nextIs, prims, ops, by rw [total, Int.add_zero]⟩
  | plus blankBefore blankBehind _ _ termAdded restAdded =>
      intro state
      exact foldlM_operator (Or.inl rfl) blankBefore blankBehind termAdded restAdded state
  | minus blankBefore blankBehind _ _ termAdded restAdded =>
      intro state
      exact foldlM_operator (Or.inr rfl) blankBefore blankBehind termAdded restAdded state
  | unsigned blankBefore _ _ termAdded restAdded =>
      intro state numZero signOne
      obtain ⟨next, nextIs, prims, ops, total⟩ :=
        foldlM_operand blankBefore termAdded restAdded state numZero
      refine ⟨next, nextIs, prims, ops, ?_⟩
      rw [total, signOne, Int.one_mul, Int.add_assoc]
  | positive blankBefore blankBehind _ _ termAdded restAdded =>
      intro state numZero _
      rw [← Stacks.total_of_num numZero]
      exact foldlM_operator (Or.inl rfl) blankBefore blankBehind termAdded restAdded state
  | negative blankBefore blankBehind _ _ termAdded restAdded =>
      intro state numZero _
      rw [← Stacks.total_of_num numZero]
      exact foldlM_operator (Or.inr rfl) blankBefore blankBehind termAdded restAdded state

theorem calculate2_value {s : List Char} {value : Int} (derives : Derives .expr s value) :
    calculate2 s = some value := by
  obtain ⟨state, stateIs, _, _, total⟩ := added_of_derives derives ⟨[], [], 0, 1, 0⟩ rfl rfl
  rw [calculate2, stateIs, Option.bind_eq_bind, Option.bind_some, ← Stacks.total, total,
    Int.zero_add]
  rfl

/-! ### The two evaluators -/

/-- Both evaluators return the value of the expression. -/
theorem calculate_agree {s : List Char} {value : Int} (derives : Derives .expr s value) :
    (∀ fuel, 3 * s.length + 2 < fuel → calculate fuel s = some value) ∧
      calculate2 s = some value :=
  ⟨fun _ enough => calculate_value derives enough, calculate2_value derives⟩

theorem calculate_agree_negated :
    calculate 21 ['-', '(', '7', ' ', ')'] = some (-7) ∧
      calculate2 ['-', '(', '7', ' ', ')'] = some (-7) := by
  have digit : Derives .term ['7'] 7 :=
    Derives.digits (List.cons_ne_nil '7' []) (fun c member => by
      rw [List.mem_singleton.mp member]
      rfl)
  have noBlank : Blank [] := fun c member => by simp at member
  have inner : Derives .expr ['7', ' '] (7 + 0) :=
    Derives.unsigned noBlank digit (Derives.none (fun c member => by simpa using member))
  have negated : Derives .expr ['-', '(', '7', ' ', ')'] (-(7 + 0) + 0) :=
    Derives.negative noBlank noBlank (Derives.parentheses inner) (Derives.none noBlank)
  have agree := calculate_agree negated
  exact ⟨agree.1 21 (by decide), agree.2⟩

end Calculator

end StdPrograms.Hobbies

import Mathlib.Order.MinMax
import StdPrograms.Foundation.Transitions

/-!
Contract: a stack that knows its least element.

Owns `MinStack` of `solution_155.cpp` and that any calls in any order are answered as by one stack
that is searched for its least element, also where a call has no result.

Does not own what reading the top of an empty `std::stack` does: there the calls have no result.
-/

namespace StdPrograms.Hobbies

open StdPrograms.Foundation

/-- The members, with the top of each stack in front. -/
structure MinStack where
  data_ : List Int
  min_ : List Int

namespace MinStack

def getMin (stack : MinStack) : Option Int := stack.min_.head?

def push (stack : MinStack) (x : Int) : Option MinStack := do
  let stack := { stack with data_ := x :: stack.data_ }
  let isLeast ← if stack.min_.isEmpty then some true else stack.getMin.map fun least => x ≤ least
  return if isLeast then { stack with min_ := x :: stack.min_ } else stack

def pop (stack : MinStack) : Option MinStack := do
  let top ← stack.data_.head?
  let least ← stack.getMin
  let min_ := if top = least then stack.min_.tail else stack.min_
  return { data_ := stack.data_.tail, min_ }

def top (stack : MinStack) : Option Int := stack.data_.head?

end MinStack

/-- The calls of a user of the stack. -/
inductive StackCall where
  | push (x : Int)
  | pop
  | top
  | getMin

/-- A call, with the answers to all calls so far. -/
def MinStack.call (state : MinStack × List Int) : StackCall → Option (MinStack × List Int)
  | .push x => (state.1.push x).map fun stack => (stack, state.2)
  | .pop => state.1.pop.map fun stack => (stack, state.2)
  | .top => state.1.top.map fun answer => (state.1, state.2 ++ [answer])
  | .getMin => state.1.getMin.map fun answer => (state.1, state.2 ++ [answer])

/-- What the calls mean: one stack, of which the least element is looked for. -/
def plainCall (state : List Int × List Int) : StackCall → Option (List Int × List Int)
  | .push x => some (x :: state.1, state.2)
  | .pop => if state.1.isEmpty then none else some (state.1.tail, state.2)
  | .top => state.1.head?.map fun answer => (state.1, state.2 ++ [answer])
  | .getMin => state.1.min?.map fun answer => (state.1, state.2 ++ [answer])

namespace MinStack

/-- The elements that are not greater than any below them. -/
def minima : List Int → List Int
  | [] => []
  | x :: below => if below.min?.all fun least => x ≤ least then x :: minima below else minima below

/-- What the stack is for some elements. -/
def holding (elements : List Int) : MinStack := { data_ := elements, min_ := minima elements }

theorem head?_minima (elements : List Int) : (minima elements).head? = elements.min? := by
  induction elements with
  | nil => rfl
  | cons x below inductionHypothesis =>
      rw [minima, List.min?_cons]
      cases isLeast : below.min? with
      | none => simp
      | some least =>
          rw [isLeast] at inductionHypothesis
          by_cases atMost : x ≤ least
          · simp [atMost]
          · simp [atMost, inductionHypothesis, Int.min_eq_right (Int.le_of_not_le atMost)]

theorem getMin_holding (elements : List Int) : (holding elements).getMin = elements.min? :=
  head?_minima elements

theorem push_holding (elements : List Int) (x : Int) :
    (holding elements).push x = some (holding (x :: elements)) := by
  have empty : (minima elements).isEmpty = elements.min?.isNone := by
    rw [← head?_minima]
    cases minima elements <;> rfl
  rw [push, holding, getMin]
  dsimp only
  rw [empty, head?_minima]
  cases isLeast : elements.min? with
  | none => simp [holding, minima, isLeast]
  | some least => by_cases atMost : x ≤ least <;> simp [holding, minima, isLeast, atMost]

theorem pop_holding (elements : List Int) :
    (holding elements).pop = if elements.isEmpty then none else some (holding elements.tail) := by
  cases elements with
  | nil => rfl
  | cons x below =>
      rw [pop, getMin_holding, List.min?_cons]
      cases isLeast : below.min? with
      | none => simp [holding, minima, isLeast]
      | some least =>
          by_cases atMost : x ≤ least
          · simp [holding, minima, isLeast, atMost]
          · simp [holding, minima, isLeast, atMost, Int.min_eq_right (Int.le_of_not_le atMost)]
            omega

/-- Between calls the second stack holds the minima of the first. -/
def Keeps (state : MinStack × List Int) : Prop := state.1 = holding state.1.data_

/-- Each call is answered as by the one stack, and leaves the minima on the other one. -/
theorem call_holding (elements answers : List Int) (label : StackCall) :
    call (holding elements, answers) label =
      (plainCall (elements, answers) label).map fun after => (holding after.1, after.2) := by
  cases label with
  | push x => simp [call, plainCall, push_holding]
  | pop =>
      rw [call, pop_holding, plainCall]
      cases elements <;> rfl
  | top =>
      rw [call, plainCall, Option.map_map]
      rfl
  | getMin =>
      rw [call, plainCall, getMin_holding, Option.map_map]
      rfl

/-- Whatever calls are made of a new stack, they have results exactly where those of one stack have
them, and the answers and the elements are the same. -/
theorem calls_refine (calls : List StackCall) :
    (follow call ({ data_ := [], min_ := [] }, []) calls).map
        (fun state => (state.1.data_, state.2)) =
      follow plainCall ([], []) calls := by
  have preserved : ∀ state label after, Keeps state → call state label = some after →
      Keeps after := by
    intro state label after keeps called
    obtain ⟨stack, answers⟩ := state
    rw [show stack = holding stack.data_ from keeps, call_holding] at called
    obtain ⟨plain, -, rfl⟩ := Option.map_eq_some_iff.mp called
    rfl
  apply follow_refines preserved
  · intro state label keeps
    obtain ⟨stack, answers⟩ := state
    rw [show stack = holding stack.data_ from keeps, call_holding, Option.map_map]
    exact Option.map_id'
  · rfl

example : follow call ({ data_ := [], min_ := [] }, [])
    [.push (-2), .push 0, .push (-1), .getMin, .top, .pop, .getMin] =
      some ({ data_ := [0, -2], min_ := [-2] }, [-2, -1, -2]) := rfl

end MinStack

end StdPrograms.Hobbies

import Mathlib.Data.List.Basic
import Mathlib.Data.List.Induction

/-!
Contract: words of brackets.

Owns what closes what, the grammar of balanced words, the stack that decides it, that two
brackets of one pair, side by side, can be put in and taken out, and, for words over one pair, how
many brackets are open.

Does not own any alphabet.
-/

namespace StdPrograms.Foundation

/-- What a symbol closes. No symbol that is closed closes anything itself. -/
structure Brackets (α : Type) where
  opening : α → Option α
  opens {left right : α} : opening right = some left → opening left = none

/-- A word is empty, or it is a balanced word in a pair of brackets and a balanced word behind. -/
inductive Balanced {α : Type} (brackets : Brackets α) : List α → Prop where
  | nil : Balanced brackets []
  | pair {left right : α} {inner outer : List α} (closes : brackets.opening right = some left)
      (inside : Balanced brackets inner) (behind : Balanced brackets outer) :
      Balanced brackets (left :: (inner ++ right :: outer))

section

variable {α : Type} {brackets : Brackets α} {left right : α}

theorem Balanced.even_length {word : List α} (balanced : Balanced brackets word) :
    word.length % 2 = 0 := by
  induction balanced with
  | nil => rfl
  | pair _ _ _ insideEven behindEven =>
      simp only [List.length_cons, List.length_append]
      omega

/-- In a balanced word, two brackets of one pair stand side by side. -/
theorem Balanced.exists_adjacent {word : List α} (balanced : Balanced brackets word)
    (nonempty : word ≠ []) :
    ∃ left right, brackets.opening right = some left ∧ [left, right] <:+: word := by
  induction balanced with
  | nil => exact absurd rfl nonempty
  | @pair left right inner outer closes _ _ insideHypothesis _ =>
      by_cases empty : inner = []
      · refine ⟨left, right, closes, [], outer, ?_⟩
        rw [empty]
        rfl
      · obtain ⟨left', right', closes', adjacent⟩ := insideHypothesis empty
        refine ⟨left', right', closes', adjacent.trans ?_⟩
        exact ⟨[left], right :: outer, by simp⟩

theorem Balanced.append {front back : List α} (balanced : Balanced brackets front)
    (rest : Balanced brackets back) : Balanced brackets (front ++ back) := by
  induction balanced with
  | nil => exact rest
  | pair closes inside _ _ outerHypothesis =>
      rw [List.cons_append, List.append_assoc, List.cons_append]
      exact .pair closes inside outerHypothesis

/-- The last symbol of a balanced word closes one of the word. -/
theorem Balanced.exists_last_pair {word : List α} (balanced : Balanced brackets word)
    (nonempty : word ≠ []) :
    ∃ left right outer inner, brackets.opening right = some left ∧ Balanced brackets outer ∧
      Balanced brackets inner ∧ word = outer ++ left :: (inner ++ [right]) := by
  induction balanced with
  | nil => exact absurd rfl nonempty
  | @pair left right inner outer closes inside behind _ outerHypothesis =>
      by_cases empty : outer = []
      · subst empty
        exact ⟨left, right, [], inner, closes, .nil, inside, rfl⟩
      · obtain ⟨left', right', outer', inner', closes', isOuter, isInner, rfl⟩ :=
          outerHypothesis empty
        exact ⟨left', right', left :: (inner ++ right :: outer'), inner', closes',
          .pair closes inside isOuter, isInner, by simp⟩

theorem Balanced.insert_pair {word before behind : List α} (balanced : Balanced brackets word)
    (closes : brackets.opening right = some left) (parts : word = before ++ behind) :
    Balanced brackets (before ++ left :: right :: behind) := by
  induction balanced generalizing before behind with
  | nil =>
      obtain ⟨rfl, rfl⟩ := List.append_eq_nil_iff.mp parts.symm
      exact .pair closes .nil .nil
  | @pair left' right' inner outer closes' inside outside insideHypothesis outsideHypothesis =>
      cases before with
      | nil =>
          rw [← show _ = behind from parts]
          exact .pair closes .nil (.pair closes' inside outside)
      | cons first before =>
          obtain ⟨rfl, rest⟩ := List.cons_eq_cons.mp parts
          obtain ⟨between, rfl, ends⟩ | ⟨between, rfl, rfl⟩ := List.append_eq_append_iff.mp rest
          · cases between with
            | nil =>
                have inserted := insideHypothesis (List.append_nil inner).symm
                rw [← show right' :: outer = behind from ends]
                simpa using Balanced.pair closes' inserted outside
            | cons _ between =>
                obtain ⟨rfl, rfl⟩ := List.cons_eq_cons.mp ends
                simpa using Balanced.pair closes' inside (outsideHypothesis rfl)
          · simpa using Balanced.pair closes' (insideHypothesis rfl) outside

/-! ### The stack -/

/-- Whether the word empties the stack. A symbol that closes nothing is pushed or given up. -/
def Brackets.accepts [DecidableEq α] (brackets : Brackets α) (pushes : α → Bool) :
    List α → List α → Bool
  | stack, [] => stack.isEmpty
  | stack, symbol :: word =>
      match brackets.opening symbol with
      | some left =>
          match stack with
          | [] => false
          | top :: rest => if top = left then brackets.accepts pushes rest word else false
      | none => if pushes symbol then brackets.accepts pushes (symbol :: stack) word else false

variable [DecidableEq α] {pushes : α → Bool}

theorem accepts_close (closes : brackets.opening right = some left) (stack word : List α) :
    brackets.accepts pushes (left :: stack) (right :: word) =
      brackets.accepts pushes stack word := by
  simp [Brackets.accepts, closes]

/-- The symbols that have something to close them are pushed. -/
def Brackets.Pushed (brackets : Brackets α) (pushes : α → Bool) : Prop :=
  ∀ left right, brackets.opening right = some left → pushes left

theorem accepts_open (pushed : brackets.Pushed pushes) (closes : brackets.opening right = some left)
    (stack word : List α) :
    brackets.accepts pushes stack (left :: word) =
      brackets.accepts pushes (left :: stack) word := by
  simp [Brackets.accepts, brackets.opens closes, pushed left right closes]

/-- A balanced word leaves every stack as it is. -/
theorem accepts_append (pushed : brackets.Pushed pushes) {word : List α}
    (balanced : Balanced brackets word) (stack behind : List α) :
    brackets.accepts pushes stack (word ++ behind) = brackets.accepts pushes stack behind := by
  induction balanced generalizing stack behind with
  | nil => rfl
  | pair closes _ _ insideHypothesis outsideHypothesis =>
      rw [List.cons_append, List.append_assoc, accepts_open pushed closes, insideHypothesis,
        List.cons_append, accepts_close closes, outsideHypothesis]

/-- What empties a stack is balanced behind the stack's symbols. -/
theorem balanced_of_accepts {stack word : List α}
    (accepted : brackets.accepts pushes stack word = true) :
    Balanced brackets (stack.reverse ++ word) := by
  induction word generalizing stack with
  | nil =>
      rw [Brackets.accepts, List.isEmpty_iff] at accepted
      rw [accepted]
      exact .nil
  | cons symbol word inductionHypothesis =>
      rw [Brackets.accepts] at accepted
      split at accepted
      next left closes =>
        split at accepted
        next => cases accepted
        next top rest =>
          split at accepted
          next same =>
            rw [List.reverse_cons, List.append_assoc, same]
            exact (inductionHypothesis accepted).insert_pair closes rfl
          next => cases accepted
      next =>
        split at accepted
        next => simpa using inductionHypothesis accepted
        next => cases accepted

/-- Each symbol of the word takes at most one from the stack. -/
theorem length_le_of_accepts {stack word : List α}
    (accepted : brackets.accepts pushes stack word = true) : stack.length ≤ word.length := by
  induction word generalizing stack with
  | nil =>
      rw [Brackets.accepts, List.isEmpty_iff] at accepted
      exact Nat.le_of_eq (congrArg List.length accepted)
  | cons symbol word inductionHypothesis =>
      rw [Brackets.accepts] at accepted
      split at accepted
      next =>
        split at accepted
        next => cases accepted
        next =>
          split at accepted
          next => exact Nat.succ_le_succ (inductionHypothesis accepted)
          next => cases accepted
      next =>
        split at accepted
        next =>
          have fits := inductionHypothesis accepted
          rw [List.length_cons] at fits
          exact Nat.le_trans (Nat.le_of_succ_le fits) (Nat.le_succ word.length)
        next => cases accepted

/-- Whatever else is pushed, the stack decides the grammar. -/
theorem accepts_iff (pushed : brackets.Pushed pushes) {word : List α} :
    brackets.accepts pushes [] word = true ↔ Balanced brackets word := by
  constructor
  · exact balanced_of_accepts
  · intro balanced
    simpa [Brackets.accepts] using accepts_append pushed balanced [] []

/-- The pair changes nothing for a stack, wherever it stands. -/
theorem accepts_insert (closes : brackets.opening right = some left)
    (stack before behind : List α) :
    brackets.accepts (fun _ => true) stack (before ++ left :: right :: behind) =
      brackets.accepts (fun _ => true) stack (before ++ behind) := by
  induction before generalizing stack with
  | nil =>
      rw [List.nil_append, List.nil_append, accepts_open (fun _ _ _ => rfl) closes,
        accepts_close closes]
  | cons symbol before inductionHypothesis =>
      simp only [List.cons_append, Brackets.accepts, inductionHypothesis]

theorem balanced_insert_iff (closes : brackets.opening right = some left)
    (before behind : List α) :
    Balanced brackets (before ++ left :: right :: behind) ↔
      Balanced brackets (before ++ behind) := by
  have everything : brackets.Pushed fun _ => true := fun _ _ _ => rfl
  rw [← accepts_iff everything, accepts_insert closes, accepts_iff everything]

end

/-! ### One pair -/

section

variable {α : Type} [DecidableEq α] {brackets : Brackets α} {left right : α}

/-- No other symbol closes anything. -/
def Brackets.OnePair (brackets : Brackets α) (left right : α) : Prop :=
  ∀ symbol opening, brackets.opening symbol = some opening ↔ symbol = right ∧ opening = left

/-- How many brackets are open; one that closes nothing is passed over. -/
def depth (right : α) (word : List α) : Nat :=
  word.foldl (fun depth symbol => if symbol = right then depth - 1 else depth + 1) 0

theorem depth_concat (word : List α) (symbol : α) :
    depth right (word ++ [symbol]) =
      if symbol = right then depth right word - 1 else depth right word + 1 := by
  rw [depth, List.foldl_append]
  rfl

variable (onePair : brackets.OnePair left right)

include onePair

omit [DecidableEq α] in
theorem Brackets.OnePair.closes : brackets.opening right = some left :=
  (onePair right left).mpr ⟨rfl, rfl⟩

omit [DecidableEq α] in
theorem Brackets.OnePair.ne : left ≠ right := by
  intro same
  have none_ := brackets.opens onePair.closes
  rw [same, onePair.closes] at none_
  cases none_

/-- A balanced word leaves the depth as it is. -/
theorem depth_append_balanced {word : List α} (balanced : Balanced brackets word)
    (front : List α) : depth right (front ++ word) = depth right front := by
  induction balanced generalizing front with
  | nil => rw [List.append_nil]
  | @pair left' right' inner outer closes _ _ innerHypothesis outerHypothesis =>
      obtain ⟨rfl, rfl⟩ := (onePair right' left').mp closes
      have parts : front ++ left' :: (inner ++ right' :: outer) =
          (front ++ [left'] ++ inner) ++ [right'] ++ outer := by simp
      rw [parts, outerHypothesis, depth_concat, if_pos rfl, innerHypothesis, depth_concat,
        if_neg onePair.ne, Nat.add_sub_cancel]

/-- Where the depth is not zero, a balanced word stands behind an open bracket. -/
theorem exists_open {word : List α} (symbols : ∀ symbol ∈ word, symbol = left ∨ symbol = right)
    {height : Nat} (open_ : depth right word = height + 1) :
    ∃ front inner, word = front ++ left :: inner ∧ Balanced brackets inner ∧
      depth right front = height := by
  induction size : word.length using Nat.strongRecOn generalizing word height with
  | _ size' inductionHypothesis =>
      subst size
      cases word using List.reverseRecOn with
      | nil => cases open_
      | append_singleton word symbol =>
          rw [List.forall_mem_append, List.forall_mem_singleton] at symbols
          rw [depth_concat] at open_
          rcases symbols.2 with rfl | rfl
          · rw [if_neg onePair.ne] at open_
            exact ⟨word, [], rfl, .nil, Nat.succ.inj open_⟩
          · -- the bracket is closed, and the one before it is open now
            rw [if_pos rfl] at open_
            obtain ⟨front, inner, rfl, isInner, here⟩ := @inductionHypothesis word.length (by simp)
              word symbols.1 (height + 1) (by omega) rfl
            obtain ⟨outer, between, rfl, isBetween, there⟩ := @inductionHypothesis front.length
              (by simp) front (fun symbol member => symbols.1 symbol (by simp [member]))
              height here rfl
            refine ⟨outer, between ++ left :: (inner ++ [symbol]), by simp, ?_, there⟩
            exact isBetween.append (.pair onePair.closes isInner .nil)

/-- A closing bracket closes one exactly where some bracket is open before it. -/
theorem exists_balanced_suffix_iff {word : List α}
    (symbols : ∀ symbol ∈ word, symbol = left ∨ symbol = right) :
    (∃ part, part ≠ [] ∧ Balanced brackets part ∧ part <:+ word ++ [right]) ↔
      0 < depth right word := by
  constructor
  · rintro ⟨part, nonempty, balanced, front, whole⟩
    obtain ⟨left', right', outer, inner, closes, isOuter, isInner, rfl⟩ :=
      balanced.exists_last_pair nonempty
    obtain ⟨rfl, rfl⟩ := (onePair right' left').mp closes
    have parts : word = front ++ outer ++ [left'] ++ inner := by
      refine @List.append_cancel_right _ _ [right'] _ ?_
      rw [← whole]
      simp
    rw [parts, depth_append_balanced onePair isInner, depth_concat, if_neg onePair.ne]
    exact Nat.succ_pos _
  · intro open_
    obtain ⟨front, inner, rfl, isInner, -⟩ :=
      exists_open onePair symbols (Nat.sub_add_cancel open_).symm
    refine ⟨left :: (inner ++ [right]), List.cons_ne_nil _ _, .pair onePair.closes isInner .nil,
      front, by simp⟩

end

end StdPrograms.Foundation

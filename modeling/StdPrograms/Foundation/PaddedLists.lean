import Mathlib.Data.List.Lex
import Mathlib.Order.Lattice

/-!
Contract: lists compared as if the shorter one went on.

Owns the comparison in three ways, that of two lists where the shorter one is filled up, what the
first items say about it, and the rule for loops that take an item from both lists in a round.

Does not own what the items are read from.
-/

namespace StdPrograms.Foundation

/-- Whether the first one is greater, or less, or neither. -/
def threeWay {α : Type} [LT α] [DecidableLT α] (left right : α) : Int :=
  if left > right then 1 else if left < right then -1 else 0

variable {α : Type} [LinearOrder α]

/-- In the order of the first difference, and the shorter list is filled up. -/
def paddedThreeWay (filler : α) (left right : List α) : Int :=
  threeWay (left.rightpad right.length filler) (right.rightpad left.length filler)

variable {filler : α} {left right : List α}

theorem threeWay_cons (first second : α) (rest tail : List α) :
    threeWay (first :: rest) (second :: tail) =
      if first > second then 1 else if first < second then -1 else threeWay rest tail := by
  simp only [threeWay, gt_iff_lt, List.cons_lt_cons_iff]
  rcases lt_trichotomy first second with less | rfl | greater
  · simp [less, less.not_gt, less.ne']
  · simp
  · simp [greater]

omit [LinearOrder α] in
theorem rightpad_of_left (nonempty : left ≠ [] ∨ right ≠ []) :
    left.rightpad right.length filler =
      left.headD filler :: left.tail.rightpad right.tail.length filler := by
  match left, right, nonempty with
  | [], [], nonempty => exact absurd nonempty (by simp)
  | [], _ :: _, _ => simp [List.rightpad, List.replicate_succ]
  | _ :: _, [], _ => simp [List.rightpad]
  | _ :: _, _ :: _, _ => simp [List.rightpad]

/-- The first items decide, and the other ones where these are equal. -/
theorem paddedThreeWay_round (nonempty : left ≠ [] ∨ right ≠ []) :
    paddedThreeWay filler left right =
      if left.headD filler > right.headD filler then 1
      else if left.headD filler < right.headD filler then -1
      else paddedThreeWay filler left.tail right.tail := by
  rw [paddedThreeWay, rightpad_of_left nonempty, rightpad_of_left nonempty.symm, threeWay_cons,
    paddedThreeWay]

section

variable {σ τ : Type} {loop : Nat → σ → τ → Option Int} {Left : σ → List α → Prop}
  {Right : τ → List α → Prop}

/-- A loop that reads the next two items, as long as there is one. -/
theorem loop_eq_paddedThreeWay
    (ended : ∀ first second, Left first [] → Right second [] →
      ∀ fuel, loop (fuel + 1) first second = some 0)
    (round : ∀ first second left right, Left first left → Right second right →
      (left ≠ [] ∨ right ≠ []) →
        ∃ next later, Left next left.tail ∧ Right later right.tail ∧
          ∀ fuel, loop (fuel + 1) first second =
            if left.headD filler > right.headD filler then some 1
            else if left.headD filler < right.headD filler then some (-1)
            else loop fuel next later)
    {first : σ} {second : τ} (atFirst : Left first left) (atSecond : Right second right)
    {fuel : Nat} (enough : max left.length right.length < fuel) :
    loop fuel first second = some (paddedThreeWay filler left right) := by
  induction fuel generalizing first second left right with
  | zero => exact absurd enough (Nat.not_lt_zero _)
  | succ fuel inductionHypothesis =>
      by_cases nonempty : left ≠ [] ∨ right ≠ []
      · obtain ⟨next, later, atNext, atLater, returned⟩ :=
          round first second left right atFirst atSecond nonempty
        have fewer : max left.tail.length right.tail.length < fuel := by
          have positive : 0 < left.length ∨ 0 < right.length := by
            rwa [List.length_pos_iff, List.length_pos_iff]
          rw [List.length_tail, List.length_tail]
          omega
        rw [returned, paddedThreeWay_round nonempty, inductionHypothesis atNext atLater fewer]
        split
        next greater => rfl
        next notGreater =>
          split
          next less => rfl
          next notLess => rfl
      · obtain ⟨rfl, rfl⟩ : left = [] ∧ right = [] := by tauto
        rw [ended first second atFirst atSecond]
        simp [paddedThreeWay, threeWay]

end

end StdPrograms.Foundation

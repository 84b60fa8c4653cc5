import Mathlib.Data.Fintype.Option
import StdPrograms.Foundation.Chases

/-!
Contract: the entry of the cycle in a linked list.

Owns `detectCycle` of `solution_142.cpp` and that it returns the first node on a cycle, or `NULL`
where there is none.

Does not own the values of the nodes.
-/

namespace StdPrograms.Hobbies

open StdPrograms.Foundation Function

namespace CycleDetection

variable {Node : Type}

section

variable [DecidableEq Node] (next : Node → Option Node)

/-- The inner loop; `NULL` has no `next`. -/
def enter : Nat → Option Node → Option Node → Option (Option Node)
  | 0, _, _ => none
  | fuel + 1, prev, slow =>
      if prev = slow then some prev
      else do
        let slowNode ← slow
        let prevNode ← prev
        enter fuel (next prevNode) (next slowNode)

/-- The outer loop. -/
def chase (head : Option Node) : Nat → Option Node → Option Node → Option (Option Node)
  | 0, _, _ => none
  | fuel + 1, slow, fast =>
      match fast with
      | none => some none
      | some fastNode =>
          match next fastNode with
          | none => some none
          | some secondNode => do
              let slowNode ← slow
              let slow := next slowNode
              let fast := next secondNode
              if slow = fast then enter next fuel head slow
              else chase head fuel slow fast

def detectCycle (fuel : Nat) (head : Option Node) : Option (Option Node) :=
  chase next head fuel head head

end

/-- Following `next` once, as long as there is a node. -/
def follow (next : Node → Option Node) (node : Option Node) : Option Node :=
  node.bind next

/-- Following `next` comes back. -/
def OnCycle (next : Node → Option Node) (node : Node) : Prop :=
  ∃ steps > 0, (follow next)^[steps] (some node) = some node

/-- The first node of the list on a cycle, or none where the list has no such node. -/
def Entry (next : Node → Option Node) (head : Option Node) : Option Node → Prop
  | none => ∀ steps node, (follow next)^[steps] head = some node → ¬OnCycle next node
  | some entry => OnCycle next entry ∧ ∃ steps, (follow next)^[steps] head = some entry ∧
      ∀ earlier < steps, ∀ node, (follow next)^[earlier] head = some node → ¬OnCycle next node

/-! ### The way from the head -/

section

variable {next : Node → Option Node} {head : Option Node} {early late : Nat}

theorem onCycle_iff {node : Node} : OnCycle next node ↔ some node ∈ periodicPts (follow next) :=
  Iff.rfl

theorem iterate_eq_none (passed : early ≤ late) (ended : (follow next)^[early] head = none) :
    (follow next)^[late] head = none := by
  rw [← Nat.sub_add_cancel passed, iterate_add_apply, ended]
  exact iterate_fixed rfl _

theorem iterate_eq_some (passed : early ≤ late) {node : Node}
    (reached : (follow next)^[late] head = some node) :
    ∃ before, (follow next)^[early] head = some before := by
  apply Option.ne_none_iff_exists'.mp
  intro ended
  rw [iterate_eq_none passed ended] at reached
  cases reached

/-- A way that ends passes no cycle. -/
theorem entry_of_null (ended : (follow next)^[late] head = none) : Entry next head none := by
  rintro steps node reached ⟨period, positive, back⟩
  have around : IsPeriodicPt (follow next) period ((follow next)^[steps] head) := by
    rw [reached]
    exact back
  have again := around.mul_const late
  rw [IsPeriodicPt, IsFixedPt, ← iterate_add_apply, reached] at again
  have beyond : late ≤ period * late + steps :=
    (Nat.le_mul_of_pos_left late positive).trans (Nat.le_add_right _ steps)
  rw [iterate_eq_none beyond ended] at again
  cases again

theorem exists_node_of_periodic {count : Nat} {entry : Node}
    (reached : (follow next)^[count] head = some entry)
    (periodic : (follow next)^[count] head ∈ periodicPts (follow next)) (late : Nat) :
    ∃ node, (follow next)^[late] head = some node := by
  apply Option.ne_none_iff_exists'.mp
  intro ended
  exact entry_of_null ended count entry reached (onCycle_iff.mpr (reached ▸ periodic))

theorem entry_of_periodic {count : Nat} {entry : Node}
    (reached : (follow next)^[count] head = some entry)
    (periodic : (follow next)^[count] head ∈ periodicPts (follow next))
    (isFirst : ∀ earlier < count, (follow next)^[earlier] head ∉ periodicPts (follow next)) :
    Entry next head (some entry) := by
  refine ⟨onCycle_iff.mpr (reached ▸ periodic), count, reached, fun earlier less node at' => ?_⟩
  rw [onCycle_iff, ← at']
  exact isFirst earlier less

/-! ### The loops -/

variable [DecidableEq Node] {time : Nat}

/-- Both pointers come to the entry together. -/
theorem enter_spec {count fuel i : Nat} {entry : Node} (positive : 0 < time)
    (meet : (follow next)^[time] head = (follow next)^[2 * time] head) (within : count ≤ time)
    (reached : (follow next)^[count] head = some entry)
    (periodic : (follow next)^[count] head ∈ periodicPts (follow next))
    (isFirst : ∀ earlier < count, (follow next)^[earlier] head ∉ periodicPts (follow next))
    (upTo : i ≤ count) (enough : count - i < fuel) :
    enter next fuel ((follow next)^[i] head) ((follow next)^[time + i] head) =
      some (some entry) := by
  induction fuel generalizing i with
  | zero => exact absurd enough (Nat.not_lt_zero _)
  | succ fuel inductionHypothesis =>
      have together := iterate_eq_iff_mem_periodicPts positive meet (upTo.trans within)
      rw [enter]
      by_cases arrived : i = count
      · subst arrived
        rw [if_pos (together.mpr periodic), reached]
      · have less := Nat.lt_of_le_of_ne upTo arrived
        have notYet := isFirst i less
        rw [if_neg (mt together.mp notYet)]
        obtain ⟨prevNode, prevIs⟩ := iterate_eq_some upTo reached
        obtain ⟨slowNode, slowIs⟩ := exists_node_of_periodic reached periodic (time + i)
        have further := inductionHypothesis (Nat.succ_le_of_lt less) (by omega)
        have slowNext : (follow next)^[time + i.succ] head = next slowNode := by
          rw [Nat.add_succ, iterate_succ_apply', slowIs]
          rfl
        rw [iterate_succ_apply', prevIs, slowNext] at further
        rw [prevIs, slowIs]
        exact further

theorem chase_of_last {fuel : Nat} {slow : Option Node} {fastNode : Node}
    (isLast : next fastNode = none) :
    chase next head (fuel + 1) slow (some fastNode) = some none := by
  rw [chase.eq_def]
  dsimp only
  rw [isLast]

theorem chase_of_more {fuel : Nat} {slowNode fastNode secondNode : Node}
    (isSecond : next fastNode = some secondNode) :
    chase next head (fuel + 1) (some slowNode) (some fastNode) =
      if next slowNode = next secondNode then enter next fuel head (next slowNode)
      else chase next head fuel (next slowNode) (next secondNode) := by
  rw [chase.eq_def]
  dsimp only
  rw [isSecond]
  rfl

theorem chase_spec {fuel round : Nat} (unmet : round < time)
    (meet : (follow next)^[time] head = (follow next)^[2 * time] head)
    (enough : time + (time - round) < fuel) :
    ∃ result, chase next head fuel ((follow next)^[round] head)
        ((follow next)^[2 * round] head) = some result ∧ Entry next head result := by
  induction fuel generalizing round with
  | zero => exact absurd enough (Nat.not_lt_zero _)
  | succ fuel inductionHypothesis =>
      cases fastIs : (follow next)^[2 * round] head with
      | none => exact ⟨none, rfl, entry_of_null fastIs⟩
      | some fastNode =>
          have secondIs : (follow next)^[2 * round + 1] head = next fastNode := by
            rw [iterate_succ_apply', fastIs]
            rfl
          cases isSecond : next fastNode with
          | none =>
              exact ⟨none, chase_of_last isSecond, entry_of_null (secondIs.trans isSecond)⟩
          | some secondNode =>
              have secondReached := secondIs.trans isSecond
              have fastNext : (follow next)^[2 * (round + 1)] head = next secondNode := by
                change (follow next)^[2 * round + 1 + 1] head = next secondNode
                rw [iterate_succ_apply', secondReached]
                rfl
              obtain ⟨slowNode, slowIs⟩ :=
                @iterate_eq_some _ _ _ round _ (by omega) _ secondReached
              have slowNext : (follow next)^[round + 1] head = next slowNode := by
                rw [iterate_succ_apply', slowIs]
                rfl
              rw [slowIs, chase_of_more isSecond, ← slowNext, ← fastNext]
              by_cases met : (follow next)^[round + 1] head = (follow next)^[2 * (round + 1)] head
              · rw [if_pos met]
                obtain ⟨count, within, periodic, isFirst⟩ :=
                  exists_first_periodic (Nat.succ_pos round) met
                obtain ⟨entry, reached⟩ := @iterate_eq_some _ _ _ count _ (by omega) _ secondReached
                refine ⟨some entry, ?_, entry_of_periodic reached periodic isFirst⟩
                exact enter_spec (Nat.succ_pos round) met within reached periodic isFirst
                  (Nat.zero_le count) (by omega)
              · rw [if_neg met]
                have more : round + 1 < time := by
                  refine Nat.lt_of_le_of_ne unmet fun same => met ?_
                  rw [same]
                  exact meet
                exact inductionHypothesis more (by omega)

end

/-- For any finite number of nodes, whatever their pointers. -/
theorem detectCycle_spec [Fintype Node] [DecidableEq Node] (next : Node → Option Node)
    (head : Option Node) {fuel : Nat} (enough : 2 * (Fintype.card Node + 1) < fuel) :
    ∃ result, detectCycle next fuel head = some result ∧ Entry next head result := by
  obtain ⟨time, positive, bounded, meet⟩ := exists_meeting (follow next) head
  rw [Fintype.card_option] at bounded
  exact chase_spec positive meet (by omega)

/-- A way over the nodes 0 and 1 into the cycle of 2, 3 and 4. -/
def tailed (node : Fin 5) : Option (Fin 5) :=
  if node = 4 then some 2 else some (node + 1)

theorem detectCycle_spec_of_loop : 2 * (Fintype.card (Fin 5) + 1) < 13 ∧
    detectCycle tailed 13 (some 0) = some (some 2) ∧ Entry tailed (some 0) (some 2) := by
  obtain ⟨result, returned, entry⟩ := @detectCycle_spec (Fin 5) _ _ tailed (some 0) 13 (by decide)
  have atTwo : detectCycle tailed 13 (some 0) = some (some 2) := by decide
  obtain rfl : result = some 2 := Option.some.inj (returned.symm.trans atTwo)
  exact ⟨by decide, returned, entry⟩

end CycleDetection

end StdPrograms.Hobbies

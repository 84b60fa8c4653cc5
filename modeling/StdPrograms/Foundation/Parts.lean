import Mathlib.Algebra.Group.Basic
import Mathlib.Algebra.Order.BigOperators.Group.List
import Mathlib.Algebra.Order.Group.Defs
import Mathlib.Algebra.Order.Monoid.Defs
import Mathlib.Data.Set.Insert
import Mathlib.Tactic.Abel

/-!
Contract: sums of parts, each taken any number of times.

Owns the sums of a number of parts, their bounds by the least and by the greatest part, the
copies of one part in a sum, and the sequences of parts in their order.

Does not own any way to find the fewest parts.
-/

namespace StdPrograms.Foundation

variable {α : Type} [AddCommMonoid α]

/-- The total is the sum of so many parts. -/
inductive Makes (parts : Set α) : α → Nat → Prop where
  | none : Makes parts 0 0
  | add {part total : α} {count : Nat} (taken : part ∈ parts) (rest : Makes parts total count) :
      Makes parts (total + part) (count + 1)

namespace Makes

variable {parts larger : Set α} {total part : α} {count : Nat}

theorem mono (included : parts ⊆ larger) (makes : Makes parts total count) :
    Makes larger total count := by
  induction makes with
  | none => exact .none
  | add taken _ inductionHypothesis => exact .add (included taken) inductionHypothesis

theorem add_copies (taken : part ∈ parts) (makes : Makes parts total count) (copies : Nat) :
    Makes parts (total + copies • part) (count + copies) := by
  induction copies with
  | zero => rwa [zero_nsmul, add_zero]
  | succ copies inductionHypothesis =>
      rw [succ_nsmul, ← add_assoc, ← Nat.add_assoc]
      exact .add taken inductionHypothesis

/-- The copies of one part can be taken out of the sum. -/
theorem take_out (makes : Makes (insert part parts) total count) :
    ∃ copies others rest, Makes parts rest others ∧ total = rest + copies • part ∧
      count = others + copies := by
  induction makes with
  | none => exact ⟨0, 0, 0, .none, by rw [zero_nsmul, add_zero], rfl⟩
  | @add added before count taken _ inductionHypothesis =>
      obtain ⟨copies, others, rest, makes, rfl, rfl⟩ := inductionHypothesis
      rcases Set.mem_insert_iff.mp taken with rfl | other
      · refine ⟨copies + 1, others, rest, makes, ?_, (Nat.add_assoc others copies 1).symm⟩
        rw [succ_nsmul, add_assoc]
      · refine ⟨copies, others + 1, rest + added, .add other makes, ?_, ?_⟩
        · abel
        · omega

variable [PartialOrder α] [IsOrderedAddMonoid α]

theorem le_of_forall_le {greatest : α} (bounded : ∀ part ∈ parts, part ≤ greatest)
    (makes : Makes parts total count) : total ≤ count • greatest := by
  induction makes with
  | none => rw [zero_nsmul]
  | add taken _ inductionHypothesis =>
      rw [succ_nsmul]
      exact add_le_add inductionHypothesis (bounded _ taken)

theorem le_of_le_forall {least : α} (bounded : ∀ part ∈ parts, least ≤ part)
    (makes : Makes parts total count) : count • least ≤ total := by
  induction makes with
  | none => rw [zero_nsmul]
  | add taken _ inductionHypothesis =>
      rw [succ_nsmul]
      exact add_le_add inductionHypothesis (bounded _ taken)

end Makes

/-! ### Sequences of parts -/

/-- Parts that do not decrease, with their total. -/
structure PartSequence {α : Type} [AddCommMonoid α] [LE α] (parts : List α) (total : α)
    (sequence : List α) : Prop where
  ordered : sequence.Pairwise (· ≤ ·)
  taken : ∀ part ∈ sequence, part ∈ parts
  sum_eq : sequence.sum = total

section

variable {α : Type} [AddCommGroup α] [LinearOrder α] {first total : α} {parts sequence : List α}

/-- A sequence begins with the least part, or it is one of the other parts. -/
theorem partSequence_cons_iff (least : ∀ part ∈ parts, first < part) :
    PartSequence (first :: parts) total sequence ↔
      (∃ others, sequence = first :: others ∧
        PartSequence (first :: parts) (total - first) others) ∨
      PartSequence parts total sequence := by
  constructor
  · rintro ⟨ordered, taken, sum⟩
    by_cases begins : ∃ others, sequence = first :: others
    · obtain ⟨others, rfl⟩ := begins
      refine Or.inl ⟨others, rfl, ordered.of_cons, fun part member => ?_, ?_⟩
      · exact taken part (List.mem_cons_of_mem first member)
      · rw [List.sum_cons] at sum
        exact eq_sub_of_add_eq' sum
    · refine Or.inr ⟨ordered, fun part member => ?_, sum⟩
      cases sequence with
      | nil => exact absurd member List.not_mem_nil
      | cons head tail =>
          have headTaken : head ∈ parts := by
            rcases List.mem_cons.mp (taken head List.mem_cons_self) with rfl | later
            · exact absurd ⟨tail, rfl⟩ begins
            · exact later
          have atLeast : head ≤ part := by
            rcases List.mem_cons.mp member with rfl | later
            · exact le_refl part
            · exact List.rel_of_pairwise_cons ordered later
          refine (List.mem_cons.mp (taken part member)).resolve_left ?_
          exact ne_of_gt (lt_of_lt_of_le (least head headTaken) atLeast)
  · rintro (⟨others, rfl, ordered, taken, sum⟩ | ⟨ordered, taken, sum⟩)
    · refine ⟨List.pairwise_cons.mpr ⟨fun part member => ?_, ordered⟩, ?_, ?_⟩
      · rcases List.mem_cons.mp (taken part member) with rfl | later
        · exact le_refl part
        · exact le_of_lt (least part later)
      · exact List.forall_mem_cons.mpr ⟨List.mem_cons_self, taken⟩
      · rw [List.sum_cons, sum]
        exact add_sub_cancel first total
    · exact ⟨ordered, fun part member => List.mem_cons_of_mem first (taken part member), sum⟩

variable [IsOrderedAddMonoid α]

theorem partSequence_zero_iff (positive : ∀ part ∈ parts, 0 < part) :
    PartSequence parts 0 sequence ↔ sequence = [] := by
  constructor
  · intro chosen
    cases sequence with
    | nil => rfl
    | cons head tail =>
        have sum := chosen.sum_eq
        rw [List.sum_cons] at sum
        have headPositive := positive head (chosen.taken head List.mem_cons_self)
        have tailNonneg : 0 ≤ tail.sum := List.sum_nonneg fun part member =>
          le_of_lt (positive part (chosen.taken part (List.mem_cons_of_mem head member)))
        exact absurd sum (ne_of_gt (add_pos_of_pos_of_nonneg headPositive tailNonneg))
  · rintro rfl
    exact ⟨List.Pairwise.nil, fun part member => absurd member List.not_mem_nil, rfl⟩

/-- No sequence has a total below each of the parts. -/
theorem not_partSequence (positive : ∀ part ∈ parts, 0 < part) (totalPositive : 0 < total)
    (large : ∀ part ∈ parts, total < part) : ¬PartSequence parts total sequence := by
  intro chosen
  cases sequence with
  | nil => exact absurd chosen.sum_eq (ne_of_lt totalPositive)
  | cons head tail =>
      have sum := chosen.sum_eq
      rw [List.sum_cons] at sum
      have headLarge := large head (chosen.taken head List.mem_cons_self)
      have tailNonneg : 0 ≤ tail.sum := List.sum_nonneg fun part member =>
        le_of_lt (positive part (chosen.taken part (List.mem_cons_of_mem head member)))
      exact absurd sum (ne_of_gt (lt_add_of_lt_of_nonneg headLarge tailNonneg))

end

end StdPrograms.Foundation

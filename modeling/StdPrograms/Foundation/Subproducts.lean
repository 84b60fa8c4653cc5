import Mathlib.Algebra.BigOperators.Group.List.Basic
import Mathlib.Algebra.Order.Ring.Defs
import Mathlib.Order.Bounds.Basic

/-!
Contract: products of consecutive items.

Owns the products of the non-empty parts of a list, of those at its end, how one more item changes
both, and the greatest and the least product at the end.

Does not own any loop.
-/

namespace StdPrograms.Foundation

variable {α : Type}

section

variable [Monoid α] {items : List α} {product : α}

/-- The products of the non-empty parts. -/
def partProducts (items : List α) : Set α :=
  {product | ∃ part, part ≠ [] ∧ part <:+: items ∧ part.prod = product}

/-- The products of the non-empty parts at the end. -/
def endProducts (items : List α) : Set α :=
  {product | ∃ part, part ≠ [] ∧ part <:+ items ∧ part.prod = product}

/-- The products of the parts of two items and more. -/
def longProducts (items : List α) : Set α :=
  {product | ∃ part, 2 ≤ part.length ∧ part <:+: items ∧ part.prod = product}

theorem longProducts_subset (items : List α) : longProducts items ⊆ partProducts items := by
  rintro product ⟨part, long, inside, rfl⟩
  exact ⟨part, List.ne_nil_of_length_pos (Nat.lt_of_lt_of_le Nat.zero_lt_two long), inside, rfl⟩

theorem mem_partProducts_of_mem {item : α} (member : item ∈ items) : item ∈ partProducts items := by
  obtain ⟨front, back, rfl⟩ := List.append_of_mem member
  exact ⟨[item], List.cons_ne_nil item [], ⟨front, back, by simp⟩, List.prod_singleton⟩

/-- A part is a single item, or it is longer. -/
theorem mem_partProducts_iff :
    product ∈ partProducts items ↔ product ∈ items ∨ product ∈ longProducts items := by
  constructor
  · rintro ⟨part, nonempty, inside, rfl⟩
    match part, nonempty with
    | [item], _ =>
        rw [List.prod_singleton]
        exact .inl (inside.subset List.mem_cons_self)
    | first :: second :: rest, _ =>
        exact .inr ⟨first :: second :: rest, Nat.le_add_left 2 rest.length, inside, rfl⟩
  · rintro (member | long)
    · exact mem_partProducts_of_mem member
    · exact longProducts_subset items long

theorem endProducts_nil : endProducts ([] : List α) = ∅ := by
  refine Set.eq_empty_of_forall_notMem ?_
  rintro product ⟨part, nonempty, atEnd, -⟩
  exact nonempty (List.suffix_nil.mp atEnd)

theorem endProducts_concat (front : List α) (item : α) :
    endProducts (front ++ [item]) = insert item ((· * item) '' endProducts front) := by
  ext product
  constructor
  · rintro ⟨part, nonempty, atEnd, rfl⟩
    rcases List.suffix_concat_iff.mp atEnd with rfl | ⟨shorter, rfl, isSuffix⟩
    · exact absurd rfl nonempty
    · rw [List.prod_append, List.prod_singleton]
      by_cases empty : shorter = []
      · rw [empty, List.prod_nil, one_mul]
        exact Set.mem_insert item _
      · exact .inr ⟨shorter.prod, ⟨shorter, empty, isSuffix, rfl⟩, rfl⟩
  · rintro (rfl | ⟨_, ⟨shorter, nonempty, isSuffix, rfl⟩, rfl⟩)
    · exact ⟨[product], List.cons_ne_nil _ _, List.suffix_append front _, List.prod_singleton⟩
    · refine ⟨shorter ++ [item], by simp, ?_, ?_⟩
      · exact List.suffix_concat_iff.mpr (.inr ⟨shorter, rfl, isSuffix⟩)
      · rw [List.prod_append, List.prod_singleton]

theorem endProducts_singleton (item : α) : endProducts [item] = {item} := by
  rw [← List.nil_append [item], endProducts_concat, endProducts_nil, Set.image_empty,
    insert_empty_eq]

theorem partProducts_concat (front : List α) (item : α) :
    partProducts (front ++ [item]) = partProducts front ∪ endProducts (front ++ [item]) := by
  ext product
  constructor
  · rintro ⟨part, nonempty, inside, rfl⟩
    rcases List.infix_concat_iff.mp inside with atEnd | before
    · exact .inr ⟨part, nonempty, atEnd, rfl⟩
    · exact .inl ⟨part, nonempty, before, rfl⟩
  · rintro (⟨part, nonempty, before, rfl⟩ | ⟨part, nonempty, atEnd, rfl⟩)
    · exact ⟨part, nonempty, List.infix_concat_iff.mpr (.inr before), rfl⟩
    · exact ⟨part, nonempty, atEnd.isInfix, rfl⟩

theorem partProducts_singleton (item : α) : partProducts [item] = {item} := by
  have none_ : partProducts ([] : List α) = ∅ := by
    refine Set.eq_empty_of_forall_notMem ?_
    rintro product ⟨part, nonempty, inside, -⟩
    exact nonempty (List.infix_nil.mp inside)
  rw [← List.nil_append [item], partProducts_concat, none_, Set.empty_union, List.nil_append,
    endProducts_singleton]

end

/-! ### The greatest and the least product at the end -/

section

variable [CommRing α] [LinearOrder α] [IsStrictOrderedRing α]

/-- A factor takes the products between the products of the least and of the greatest one. -/
theorem mul_between {least greatest product item : α} (above : least ≤ product)
    (below : product ≤ greatest) :
    min (greatest * item) (least * item) ≤ product * item ∧
      product * item ≤ max (greatest * item) (least * item) := by
  rcases le_total 0 item with nonneg | nonpos
  · exact ⟨min_le_of_right_le (mul_le_mul_of_nonneg_right above nonneg),
      le_max_of_le_left (mul_le_mul_of_nonneg_right below nonneg)⟩
  · exact ⟨min_le_of_left_le (mul_le_mul_of_nonpos_right below nonpos),
      le_max_of_le_right (mul_le_mul_of_nonpos_right above nonpos)⟩

variable {front : List α} {greatest least : α}
  (isGreatest : IsGreatest (endProducts front) greatest)
  (isLeast : IsLeast (endProducts front) least) (item : α)

include isGreatest isLeast

theorem isGreatest_endProducts_concat :
    IsGreatest (endProducts (front ++ [item])) (max (max (greatest * item) (least * item)) item) := by
  rw [endProducts_concat, max_comm]
  refine IsGreatest.insert item ⟨?_, ?_⟩
  · rcases max_choice (greatest * item) (least * item) with is | is <;> rw [is]
    · exact ⟨greatest, isGreatest.1, rfl⟩
    · exact ⟨least, isLeast.1, rfl⟩
  · rintro _ ⟨product, member, rfl⟩
    exact (mul_between (isLeast.2 member) (isGreatest.2 member)).2

theorem isLeast_endProducts_concat :
    IsLeast (endProducts (front ++ [item])) (min (min (greatest * item) (least * item)) item) := by
  rw [endProducts_concat, min_comm]
  refine IsLeast.insert item ⟨?_, ?_⟩
  · rcases min_choice (greatest * item) (least * item) with is | is <;> rw [is]
    · exact ⟨greatest, isGreatest.1, rfl⟩
    · exact ⟨least, isLeast.1, rfl⟩
  · rintro _ ⟨product, member, rfl⟩
    exact (mul_between (isLeast.2 member) (isGreatest.2 member)).1

end

end StdPrograms.Foundation

import Mathlib.Logic.Equiv.Basic
import StdPrograms.Foundation.BinaryHeap

/-!
Contract: binary max-heaps that begin at any position.

Owns the heap order below a first node, the order with one element that may be too small, how
that element sinks, and that the root is greatest.

Does not own any loop, or where the elements are stored.
-/

namespace StdPrograms.Foundation

/-- The position above, in a heap whose root is at the base. -/
def above (base index : Nat) : Nat := base + parent (index - base)

theorem base_le_above (base index : Nat) : base ≤ above base index := Nat.le_add_right _ _

theorem above_lt {base index : Nat} (inside : base < index) : above base index < index := by
  unfold above parent
  omega

theorem above_eq_iff {base index hole : Nat} (inside : base < index) (reached : base ≤ hole) :
    above base index = hole ↔
      index = base + (hole - base) * 2 + 1 ∨ index = base + (hole - base) * 2 + 1 + 1 := by
  unfold above parent
  omega

variable {β : Type} [LinearOrder β] {base size first hole : Nat} {value : Nat → β}

/-- No value is greater than the one above it, from the first node on. -/
def HeapFrom (base size : Nat) (value : Nat → β) (first : Nat) : Prop :=
  ∀ index, base < index → index < size → first ≤ above base index →
    value index ≤ value (above base index)

/-- The order, except that the value in the hole may be too small. -/
structure Sifting (base size : Nat) (value : Nat → β) (first hole : Nat) : Prop where
  ordered : ∀ index, base < index → index < size → first ≤ above base index →
    above base index ≠ hole → value index ≤ value (above base index)
  passed : ∀ index, base < index → index < size → above base index = hole → base < hole →
    first ≤ above base hole → value index ≤ value (above base hole)

theorem heapFrom_leaves (leaves : ∀ index, base < index → index < size → above base index < first) :
    HeapFrom base size value first := by
  intro index inside below parented
  exact absurd parented (Nat.not_le_of_lt (leaves index inside below))

theorem HeapFrom.sifting (heap : HeapFrom base size value (first + 1)) :
    Sifting base size value first first where
  ordered index inside below parented away :=
    heap index inside below (Nat.lt_of_le_of_ne parented (Ne.symm away))
  passed _ _ _ _ behind upper := absurd upper (Nat.not_le_of_lt (above_lt behind))

theorem Sifting.heapFrom (sifting : Sifting base size value first hole)
    (settled : ∀ index, base < index → index < size → above base index = hole →
      value index ≤ value hole) : HeapFrom base size value first := by
  intro index inside below parented
  by_cases under : above base index = hole
  · rw [under]
    exact settled index inside below under
  · exact sifting.ordered index inside below parented under

/-- The greater child moves up, and the value of the hole takes its place. -/
theorem Sifting.sink {value' : Nat → β} {dest : Nat}
    (sifting : Sifting base size value first hole) (reached : base ≤ hole) (after : first ≤ hole)
    (destInside : base < dest) (destBelow : dest < size) (destUnder : above base dest = hole)
    (smaller : value hole ≤ value dest)
    (greatest : ∀ index, base < index → index < size → above base index = hole →
      value index ≤ value dest)
    (swapped : ∀ index, value' index = value (Equiv.swap hole dest index)) :
    Sifting base size value' first dest := by
  have lower : hole < dest := destUnder ▸ above_lt destInside
  have atHole : value' hole = value dest := by rw [swapped, Equiv.swap_apply_left]
  have atDest : value' dest = value hole := by rw [swapped, Equiv.swap_apply_right]
  have elsewhere : ∀ index, index ≠ hole → index ≠ dest → value' index = value index :=
    fun index notHole notDest => by rw [swapped, Equiv.swap_apply_of_ne_of_ne notHole notDest]
  constructor
  · intro index inside below parented away
    by_cases isDest : index = dest
    · rw [isDest, destUnder, atHole, atDest]
      exact smaller
    by_cases isHole : index = hole
    · subst isHole
      -- The greater child is not greater than what stands above the hole.
      rw [atHole, elsewhere _ (Nat.ne_of_lt (above_lt inside)) away]
      exact sifting.passed dest destInside destBelow destUnder inside parented
    · rw [elsewhere index isHole isDest]
      by_cases under : above base index = hole
      · rw [under, atHole]
        exact greatest index inside below under
      · rw [elsewhere _ under away]
        exact sifting.ordered index inside below parented under
  · intro index inside below under _ _
    have deeper : dest < index := under ▸ above_lt inside
    rw [destUnder, atHole, elsewhere index (by omega) (by omega), ← under]
    exact sifting.ordered index inside below (by omega) (by omega)

theorem HeapFrom.le_root (heap : HeapFrom base size value base) {index : Nat}
    (inside : base ≤ index) (below : index < size) : value index ≤ value base := by
  induction index using Nat.strongRecOn with
  | ind index inductionHypothesis =>
      rcases Nat.eq_or_lt_of_le inside with rfl | deeper
      · exact le_refl _
      · have lower := above_lt deeper
        calc
          value index ≤ value (above base index) :=
            heap index deeper below (base_le_above base index)
          _ ≤ value base :=
            inductionHypothesis _ lower (base_le_above base index) (Nat.lt_trans lower below)

end StdPrograms.Foundation

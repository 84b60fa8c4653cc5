import Mathlib.Order.Lattice

/-!
Contract: binary min-heaps in an array.

Owns the heap order on a key, that the root is smallest, and what it takes for the
order to survive a new last element, left where it is or swapped with its parent.

Does not own any sift loop.
-/

namespace StdPrograms.Foundation

/-- The index above; the root is above itself. -/
def parent (index : Nat) : Nat := (index - 1) / 2

theorem parent_le (index : Nat) : parent index ≤ index := by
  unfold parent
  omega

theorem parent_lt {index : Nat} (positive : 0 < index) : parent index < index := by
  unfold parent
  omega

section Heap

variable {α β : Type}

/-- No key is smaller than the one above it. -/
def IsMinHeap [LE β] (key : α → β) (heap : Array α) : Prop :=
  ∀ (index : Nat) (inside : index < heap.size) (above : parent index < heap.size),
    key heap[parent index] ≤ key heap[index]

theorem IsMinHeap.root_le [Preorder β] {key : α → β} {heap : Array α}
    (ordered : IsMinHeap key heap) (index : Nat) (inside : index < heap.size)
    (nonempty : 0 < heap.size) : key heap[0] ≤ key heap[index] := by
  induction index using Nat.strongRecOn with
  | ind index inductionHypothesis =>
      by_cases root : index = 0
      · subst root
        exact le_refl _
      · have lower := parent_lt (Nat.pos_of_ne_zero root)
        have above : parent index < heap.size := Nat.lt_trans lower inside
        calc
          key heap[0] ≤ key heap[parent index] := inductionHypothesis _ lower above
          _ ≤ key heap[index] := ordered index inside above

variable [LinearOrder β] {key : α → β} {heap : Array α} {new : α}

/-- A last element that stays there. -/
theorem isMinHeap_push (ordered : IsMinHeap key heap)
    (under : ∀ above : parent heap.size < heap.size, key heap[parent heap.size] ≤ key new) :
    IsMinHeap key (heap.push new) := by
  intro index inside above
  rw [Array.size_push] at inside
  by_cases last : index = heap.size
  · subst last
    rw [Array.getElem_push_eq, Array.getElem_push]
    split
    next lower => exact under lower
    next => exact le_refl _
  · have within : index < heap.size := by omega
    have lower : parent index < heap.size := Nat.lt_of_le_of_lt (parent_le index) within
    rw [Array.getElem_push_lt within, Array.getElem_push_lt lower]
    exact ordered index within lower

/-- A last element that is swapped with a larger parent: the order is kept exactly if it
may stand under the next parent. -/
theorem isMinHeap_swap_push_iff (ordered : IsMinHeap key heap)
    (lower : parent heap.size < heap.size) (grand : parent (parent heap.size) < heap.size)
    (inside : parent heap.size < (heap.push new).size)
    (last : heap.size < (heap.push new).size)
    (smaller : key new < key heap[parent heap.size]) :
    IsMinHeap key ((heap.push new).swap (parent heap.size) heap.size inside last) ↔
      (0 < parent heap.size → key heap[parent (parent heap.size)] ≤ key new) := by
  generalize swappedIs : (heap.push new).swap (parent heap.size) heap.size inside last = swapped
  have size : swapped.size = heap.size + 1 := by
    rw [← swappedIs, Array.size_swap, Array.size_push]
  have raised : ∀ bound : parent heap.size < swapped.size, swapped[parent heap.size] = new := by
    intro bound
    simp only [← swappedIs, Array.getElem_swap_left, Array.getElem_push_eq]
  have lowered : ∀ bound : heap.size < swapped.size,
      swapped[heap.size] = heap[parent heap.size] := by
    intro bound
    simp only [← swappedIs, Array.getElem_swap_right, Array.getElem_push_lt lower]
  have others : ∀ (index : Nat) (within : index < heap.size) (bound : index < swapped.size),
      index ≠ parent heap.size → swapped[index] = heap[index] := by
    intro index within bound different
    simp only [← swappedIs]
    rw [Array.getElem_swap_of_ne different (Nat.ne_of_lt within), Array.getElem_push_lt within]
  constructor
  · intro kept positive
    have under := kept (parent heap.size) (by omega) (by omega)
    rw [raised, others _ grand _ (Nat.ne_of_lt (parent_lt positive))] at under
    exact under
  · intro under index bound above
    by_cases isLast : index = heap.size
    · subst isLast
      rw [lowered, raised]
      exact le_of_lt smaller
    · have within : index < heap.size := by omega
      by_cases isParent : index = parent heap.size
      · subst isParent
        by_cases root : parent heap.size = 0
        · have itself : parent (parent heap.size) = parent heap.size := by
            rw [root]
            rfl
          simp only [itself, le_refl]
        · have positive := Nat.pos_of_ne_zero root
          rw [raised, others _ grand _ (Nat.ne_of_lt (parent_lt positive))]
          exact under positive
      · rw [others index within bound isParent]
        have aboveWithin : parent index < heap.size :=
          Nat.lt_of_le_of_lt (parent_le index) within
        by_cases underNew : parent index = parent heap.size
        · simp only [underNew, raised]
          calc
            key new ≤ key heap[parent heap.size] := le_of_lt smaller
            _ = key heap[parent index] := by simp only [underNew]
            _ ≤ key heap[index] := ordered index within aboveWithin
        · rw [others _ aboveWithin _ underNew]
          exact ordered index within aboveWithin

end Heap

end StdPrograms.Foundation

import StdPrograms.Foundation.LittleEndian

/-!
Contract: byte memory behind a pointer, with a record of what was written.

A write may go anywhere; the record says which indices it touched, so that a
bound on a buffer is a statement about the record. Owns the effect of a write on
what is read, inside and outside of the written span.

Does not own any buffer's capacity.
-/

namespace StdPrograms.Foundation

structure Memory where
  cells : Nat → UInt8
  /-- The spans written so far: the first index, and how many bytes. -/
  written : List (Nat × Nat) := []

namespace Memory

def store (memory : Memory) (start : Nat) (bytes : Bytes) : Memory where
  cells index :=
    if index < start then memory.cells index
    else (bytes[index - start]?).getD (memory.cells index)
  written := (start, bytes.length) :: memory.written

def load (memory : Memory) (start count : Nat) : Bytes :=
  (List.range count).map fun index => memory.cells (start + index)

/-- Every index that was written is below the limit. -/
def WrittenBelow (memory : Memory) (limit : Nat) : Prop :=
  ∀ span ∈ memory.written, ∀ index, span.1 ≤ index → index < span.1 + span.2 → index < limit

@[simp] theorem load_length (memory : Memory) (start count : Nat) :
    (memory.load start count).length = count := by
  simp [load]

/-- What was stored is loaded. -/
theorem load_store_same (memory : Memory) (start : Nat) (bytes : Bytes) :
    (memory.store start bytes).load start bytes.length = bytes := by
  refine List.ext_getElem (by simp) fun index _ inside => ?_
  simp [load, store, List.getElem?_eq_getElem inside]

/-- A store does not change what is loaded in front of it. -/
theorem load_store_before (memory : Memory) {first count start : Nat} (bytes : Bytes)
    (before : first + count ≤ start) :
    (memory.store start bytes).load first count = memory.load first count := by
  refine List.ext_getElem (by simp) fun index inside _ => ?_
  have below : first + index < start := by
    rw [load_length] at inside
    omega
  simp [load, store, below]

/-- A store does not change what is loaded behind it. -/
theorem load_store_after (memory : Memory) {first count start : Nat} (bytes : Bytes)
    (after : start + bytes.length ≤ first) :
    (memory.store start bytes).load first count = memory.load first count := by
  refine List.ext_getElem (by simp) fun index inside _ => ?_
  have above : ¬ first + index < start := by omega
  have outside : bytes[first + index - start]? = none := List.getElem?_eq_none (by omega)
  simp [load, store, above, outside]

theorem load_add (memory : Memory) (start first second : Nat) :
    memory.load start (first + second) =
      memory.load start first ++ memory.load (start + first) second := by
  simp [load, List.range_add, Nat.add_assoc]

/-- The first of the loaded bytes. -/
theorem take_load (memory : Memory) (start : Nat) {count total : Nat} (inside : count ≤ total) :
    (memory.load start total).take count = memory.load start count := by
  obtain ⟨more, rfl⟩ := Nat.exists_eq_add_of_le inside
  rw [load_add]
  exact List.take_left' (load_length _ _ _)

/-- The loaded bytes behind the first ones. -/
theorem drop_load (memory : Memory) (start : Nat) {count total : Nat} (inside : count ≤ total) :
    (memory.load start total).drop count = memory.load (start + count) (total - count) := by
  obtain ⟨more, rfl⟩ := Nat.exists_eq_add_of_le inside
  rw [load_add, Nat.add_sub_cancel_left]
  exact List.drop_left' (load_length _ _ _)

/-- The first of the stored bytes are loaded. -/
theorem load_store_front (memory : Memory) (start : Nat) (front back : Bytes) :
    (memory.store start (front ++ back)).load start front.length = front := by
  have whole := memory.load_store_same start (front ++ back)
  rw [List.length_append, load_add] at whole
  exact List.append_inj_left whole (load_length _ _ _)

/-- The bytes up to a store, and the stored ones behind them. -/
theorem load_store_append (memory : Memory) (start count : Nat) (bytes : Bytes) :
    (memory.store (start + count) bytes).load start (count + bytes.length) =
      memory.load start count ++ bytes := by
  rw [load_add, load_store_before _ _ le_rfl, load_store_same]

/-- A store in the middle of what is loaded replaces that part of it. -/
theorem load_store_inside (memory : Memory) (start before : Nat) (bytes : Bytes) (after : Nat) :
    (memory.store (start + before) bytes).load start (before + (bytes.length + after)) =
      (memory.load start (before + (bytes.length + after))).take before ++
        (bytes ++ (memory.load start (before + (bytes.length + after))).drop
          (before + bytes.length)) := by
  have front : (memory.load start (before + (bytes.length + after))).take before =
      memory.load start before := by
    rw [load_add]
    exact List.take_left' (load_length _ _ _)
  have back : (memory.load start (before + (bytes.length + after))).drop
      (before + bytes.length) = memory.load (start + (before + bytes.length)) after := by
    rw [← Nat.add_assoc, load_add]
    exact List.drop_left' (load_length _ _ _)
  rw [front, back, load_add, load_add, load_store_before _ _ le_rfl, load_store_same,
    load_store_after _ _ le_rfl, Nat.add_assoc start]

/-- A store adds to what was written. -/
theorem writtenBelow_of_store {memory : Memory} {limit start : Nat} {bytes : Bytes}
    (stored : (memory.store start bytes).WrittenBelow limit) : memory.WrittenBelow limit :=
  fun span member => stored span (List.mem_cons_of_mem _ member)

theorem fits_of_writtenBelow_store {memory : Memory} {limit start : Nat} {bytes : Bytes}
    (stored : (memory.store start bytes).WrittenBelow limit) :
    bytes = [] ∨ start + bytes.length ≤ limit := by
  by_cases none : bytes = []
  · exact .inl none
  · have := List.length_pos_iff.mpr none
    have last := stored (start, bytes.length) List.mem_cons_self (start + bytes.length - 1)
      (by omega) (by omega)
    exact .inr (by omega)

/-- A store keeps to the limit exactly when its bytes do. -/
theorem writtenBelow_store {memory : Memory} {limit : Nat} (below : memory.WrittenBelow limit)
    (start : Nat) (bytes : Bytes) :
    (memory.store start bytes).WrittenBelow limit ↔ bytes = [] ∨ start + bytes.length ≤ limit := by
  refine ⟨fits_of_writtenBelow_store, ?_⟩
  intro fits span member index first last
  rcases List.mem_cons.mp member with rfl | member
  · rcases fits with rfl | fits
    · simp only [List.length_nil] at last
      omega
    · simp only at last
      omega
  · exact below span member index first last

end Memory

end StdPrograms.Foundation

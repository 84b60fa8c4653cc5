import Mathlib.Data.List.Nodup
import Mathlib.Data.List.Range
import StdPrograms.Foundation.Transitions

/-!
Contract: the pool allocator of `allocator.h`.

Owns the stack of unused slots, `alloc` with every way to leave it, `dealloc`, the runs of
a pool whose clients give back live objects only, and the condition under which no slot
gets lost: a constructor that throws takes its slot with it.

Does not own what is stored in an object.
-/

namespace StdPrograms.Allocate

open StdPrograms.Foundation

/-- `T`: no object has size zero. -/
structure ObjectType where
  size : Nat
  positive : 0 < size

/-- `block_` and `unused_`, whose first element is its top. -/
structure Allocator where
  size_ : Nat
  block_ : Nat
  unused_ : List Nat
deriving DecidableEq, Repr

/-- How `alloc` ends. -/
inductive Allocated where
  | nullptr
  | object (p : Nat)
  | thrown
deriving DecidableEq, Repr

namespace Allocator

/-- The address of a slot. -/
def slot (T : ObjectType) (block i : Nat) : Nat := block + i * T.size

/-- The constructor pushes the slots from the first one on. -/
def new (T : ObjectType) (size block : Nat) : Allocator where
  size_ := size
  block_ := block
  unused_ := ((List.range size).map (slot T block)).reverse

/-- `alloc`, where `new(fmem)T(args...)` constructs an object or throws. The slot has
left the stack before. -/
def alloc (self : Allocator) (constructs : Bool) : Allocated × Allocator :=
  match self.unused_ with
  | [] => (.nullptr, self)
  | fmem :: unused =>
      (if constructs then .object fmem else .thrown, { self with unused_ := unused })

def dealloc (self : Allocator) (p : Nat) : Allocator :=
  { self with unused_ := p :: self.unused_ }

def free_slots (self : Allocator) : Nat := self.unused_.length

end Allocator

/-! ### Runs -/

/-- An allocator with the objects that are alive. -/
structure Pool where
  allocator : Allocator
  live : List Nat
deriving DecidableEq, Repr

/-- A call, with what the constructor does. -/
inductive Call where
  | alloc (constructs : Bool)
  | dealloc (p : Nat)
deriving DecidableEq, Repr

namespace Pool

def new (T : ObjectType) (size block : Nat) : Pool where
  allocator := .new T size block
  live := []

/-- `dealloc` is called for live objects only. -/
def step (pool : Pool) : Call → Option Pool
  | .alloc constructs =>
      match pool.allocator.alloc constructs with
      | (.object p, allocator) => some { allocator := allocator, live := p :: pool.live }
      | (_, allocator) => some { pool with allocator := allocator }
  | .dealloc p =>
      if p ∈ pool.live then
        some { allocator := pool.allocator.dealloc p, live := pool.live.erase p }
      else none

/-- No slot is lost and none is shared. -/
structure Complementary (T : ObjectType) (size block : Nat) (pool : Pool) : Prop where
  inBlock : ∀ p ∈ pool.live, ∃ i < size, p = Allocator.slot T block i
  apart : pool.live.Nodup
  total : pool.allocator.free_slots + pool.live.length = size
  exhausted : ∀ constructs,
    (pool.allocator.alloc constructs).1 = .nullptr ↔ pool.live.length = size

/-- No constructor throws in a slot that was free. -/
def Constructs (pool : Pool) (call : Call) : Prop :=
  call = .alloc false → pool.allocator.unused_ = []

/-! ### What a call can do -/

/-- Every call, with what it asks of the pool. -/
inductive Steps (pool : Pool) : Call → Pool → Prop where
  | exhausted (constructs : Bool) (none : pool.allocator.unused_ = []) :
      Steps pool (.alloc constructs) pool
  | allocates (fmem : Nat) (unused : List Nat) (top : pool.allocator.unused_ = fmem :: unused) :
      Steps pool (.alloc true)
        { allocator := { pool.allocator with unused_ := unused }, live := fmem :: pool.live }
  | throws (fmem : Nat) (unused : List Nat) (top : pool.allocator.unused_ = fmem :: unused) :
      Steps pool (.alloc false) { pool with allocator := { pool.allocator with unused_ := unused } }
  | deallocates (p : Nat) (member : p ∈ pool.live) :
      Steps pool (.dealloc p)
        { allocator := pool.allocator.dealloc p, live := pool.live.erase p }

theorem steps_of_step {pool after : Pool} {call : Call} (taken : pool.step call = some after) :
    Steps pool call after := by
  cases call with
  | alloc constructs =>
      simp only [step, Allocator.alloc] at taken
      cases top : pool.allocator.unused_ with
      | nil =>
          rw [top] at taken
          cases taken
          exact .exhausted constructs top
      | cons fmem unused =>
          rw [top] at taken
          cases constructs with
          | true =>
              cases taken
              exact .allocates fmem unused top
          | false =>
              cases taken
              exact .throws fmem unused top
  | dealloc p =>
      rw [step] at taken
      split at taken
      next member =>
        cases taken
        exact .deallocates p member
      next => cases taken

/-! ### What every call keeps -/

/-- The slots that are unused or alive, no slot twice. A throwing constructor only makes
them fewer. -/
structure Invariant (T : ObjectType) (size block : Nat) (pool : Pool) : Prop where
  slots : ∀ p ∈ pool.allocator.unused_ ++ pool.live, ∃ i < size, p = Allocator.slot T block i
  apart : (pool.allocator.unused_ ++ pool.live).Nodup

variable {T : ObjectType} {size block : Nat} {pool after : Pool} {call : Call}

theorem new_invariant (T : ObjectType) (size block : Nat) :
    Invariant T size block (new T size block) := by
  have injective : Function.Injective (Allocator.slot T block) := by
    intro i j same
    exact Nat.eq_of_mul_eq_mul_right T.positive (Nat.add_left_cancel same)
  constructor
  · intro p member
    simp only [new, Allocator.new, List.append_nil, List.mem_reverse, List.mem_map,
      List.mem_range] at member
    obtain ⟨i, inside, rfl⟩ := member
    exact ⟨i, inside, rfl⟩
  · simp only [new, Allocator.new, List.append_nil, List.nodup_reverse]
    exact List.nodup_range.map injective

/-- A slot that moves between the two lists is still there. -/
theorem Invariant.of_perm {other : Pool} (invariant : Invariant T size block pool)
    (permutation : (other.allocator.unused_ ++ other.live).Perm
      (pool.allocator.unused_ ++ pool.live)) : Invariant T size block other where
  slots := fun p member => invariant.slots p (permutation.mem_iff.mp member)
  apart := permutation.nodup_iff.mpr invariant.apart

theorem Invariant.step (invariant : Invariant T size block pool)
    (taken : pool.step call = some after) : Invariant T size block after := by
  cases steps_of_step taken with
  | exhausted => exact invariant
  | allocates fmem unused top =>
      apply invariant.of_perm
      rw [top]
      exact List.perm_middle
  | throws fmem unused top =>
      constructor
      · intro p member
        apply invariant.slots
        rw [top]
        exact List.mem_cons_of_mem _ member
      · have apart := invariant.apart
        rw [top] at apart
        exact (List.nodup_cons.mp apart).2
  | deallocates p member =>
      apply invariant.of_perm
      have moved := (List.perm_cons_erase member).append_left pool.allocator.unused_
      exact List.perm_middle.symm.trans moved.symm

/-! ### No slot is lost -/

/-- With the invariant, the pool is complementary when the slots are all there. -/
theorem Invariant.complementary_iff (invariant : Invariant T size block pool) :
    Complementary T size block pool ↔ pool.allocator.free_slots + pool.live.length = size := by
  constructor
  · exact Complementary.total
  · intro total
    refine ⟨fun p member => invariant.slots p (List.mem_append_right _ member),
      invariant.apart.of_append_right, total, ?_⟩
    intro constructs
    rw [Allocator.alloc, Allocator.free_slots] at *
    cases top : pool.allocator.unused_ with
    | nil =>
        rw [top, List.length_nil, Nat.zero_add] at total
        exact iff_of_true rfl total
    | cons fmem unused =>
        rw [top, List.length_cons] at total
        apply iff_of_false
        · cases constructs <;> exact Allocated.noConfusion
        · omega

theorem step_complementary_iff (invariant : Invariant T size block pool)
    (holds : Complementary T size block pool) (taken : pool.step call = some after) :
    Complementary T size block after ↔ pool.Constructs call := by
  have total := holds.total
  rw [(invariant.step taken).complementary_iff]
  unfold Constructs Allocator.free_slots at *
  cases steps_of_step taken with
  | exhausted constructs none => exact iff_of_true total fun _ => none
  | allocates fmem unused top =>
      rw [top, List.length_cons] at total
      apply iff_of_true _ nofun
      simp only [List.length_cons]
      omega
  | throws fmem unused top =>
      rw [top, List.length_cons] at total
      apply iff_of_false
      · dsimp only
        omega
      · intro none
        rw [none rfl] at top
        cases top
  | deallocates p member =>
      have positive := List.length_pos_of_mem member
      apply iff_of_true _ nofun
      simp only [Allocator.dealloc, List.length_cons, List.length_erase_of_mem member]
      omega

/-- Along any sequence of calls, no slot is lost or shared exactly when no constructor
throws in a slot that was free. -/
theorem visits_complementary_iff (T : ObjectType) (size block : Nat) (calls : List Call) :
    Visits step (Complementary T size block) (new T size block) calls ↔
      Along step Constructs (new T size block) calls := by
  have initial := new_invariant T size block
  have total : (new T size block).allocator.free_slots + 0 = size := by
    simp [new, Allocator.new, Allocator.free_slots]
  refine visits_iff_along ?_ ?_ initial (initial.complementary_iff.mpr total)
  · intro pool call after invariant taken
    exact invariant.step taken
  · intro pool call after invariant holds taken
    exact step_complementary_iff invariant holds taken

/-- One slot, and a constructor that throws: nothing is alive and nothing is free. -/
theorem not_visits_complementary :
    ¬ Visits step (Complementary ⟨4, by decide⟩ 1 0) (new ⟨4, by decide⟩ 1 0) [.alloc false] := by
  intro visits
  have after := visits.2 { allocator := ⟨1, 0, []⟩, live := [] } rfl
  exact absurd after.total (by decide)

end Pool

end StdPrograms.Allocate

import Mathlib.Data.Finset.Card
import Mathlib.Logic.Function.Iterate

/-!
Contract: walks that end at a goal or at a place seen before.

Owns the walk that keeps the set of the places seen, that it tells whether the goal is reached where
it stays among finitely many places, and how a goal is shown to be reached or not.

Does not own what the places are.
-/

namespace StdPrograms.Foundation

variable {α : Type} {step : α → α} {goal first : α}

def Reaches (step : α → α) (goal first : α) : Prop := ∃ count, step^[count] first = goal

theorem Reaches.of_step (reaches : Reaches step goal (step first)) : Reaches step goal first := by
  obtain ⟨count, is⟩ := reaches
  exact ⟨count + 1, is⟩

theorem reaches_step_iff (notGoal : first ≠ goal) :
    Reaches step goal (step first) ↔ Reaches step goal first := by
  refine ⟨Reaches.of_step, ?_⟩
  rintro ⟨count, is⟩
  cases count with
  | zero => exact absurd is notGoal
  | succ count => exact ⟨count, is⟩

theorem reaches_iff : Reaches step goal first ↔ first = goal ∨ Reaches step goal (step first) := by
  rcases eq_or_ne first goal with isGoal | notGoal
  · exact iff_of_true ⟨0, isGoal⟩ (.inl isGoal)
  · rw [reaches_step_iff notGoal, or_iff_right notGoal]

/-- Two steps that agree where the walk stays. -/
theorem Reaches.congr {other : α → α} {range : Set α} (closed : ∀ place ∈ range, step place ∈ range)
    (same : ∀ place ∈ range, step place = other place) (inside : first ∈ range)
    (reaches : Reaches other goal first) : Reaches step goal first := by
  obtain ⟨count, is⟩ := reaches
  refine ⟨count, is ▸ ?_⟩
  clear is
  induction count generalizing first with
  | zero => rfl
  | succ count inductionHypothesis =>
      rw [Function.iterate_succ_apply, Function.iterate_succ_apply, ← same first inside]
      exact inductionHypothesis (closed first inside)

/-- Nothing leads out of the trap, and the goal is not in it. -/
structure Trap (step : α → α) (goal : α) (trap : Set α) : Prop where
  closed : ∀ place ∈ trap, step place ∈ trap
  noGoal : goal ∉ trap

theorem Trap.iterate_mem {trap : Set α} (isTrap : Trap step goal trap) (inside : first ∈ trap)
    (count : Nat) : step^[count] first ∈ trap := by
  induction count with
  | zero => exact inside
  | succ count inductionHypothesis =>
      rw [Function.iterate_succ_apply']
      exact isTrap.closed _ inductionHypothesis

theorem Trap.not_reaches {trap : Set α} (isTrap : Trap step goal trap) (inside : first ∈ trap) :
    ¬Reaches step goal first := by
  rintro ⟨count, is⟩
  exact isTrap.noGoal (is ▸ isTrap.iterate_mem inside count)

/-- Inside a closed range the goal is reached from a set that no step enters from outside. -/
theorem reaches_iff_of_noEntry {range leads : Set α} (closed : ∀ place ∈ range, step place ∈ range)
    (noEntry : ∀ place ∈ range, step place ∈ leads → place ∈ leads) (goalLeads : goal ∈ leads)
    (reached : ∀ place ∈ range, place ∈ leads → Reaches step goal place) (inside : first ∈ range) :
    Reaches step goal first ↔ first ∈ leads := by
  refine ⟨fun reaches => ?_, reached first inside⟩
  by_contra outside
  have isTrap : Trap step goal (range \ leads) :=
    ⟨fun place member => ⟨closed place member.1, mt (noEntry place member.1) member.2⟩,
      fun member => member.2 goalLeads⟩
  exact isTrap.not_reaches ⟨inside, outside⟩ reaches

/-! ### The walk -/

def walkUntil [DecidableEq α] (step : α → α) (goal : α) : Nat → Finset α → α → Option Bool
  | 0, _, _ => none
  | fuel + 1, seen, place =>
      if place = goal then some true
      else if place ∈ seen then some false
      else walkUntil step goal fuel (insert place seen) (step place)

/-- From each place seen the walk goes on inside, or to where it is. -/
def OnWalk (step : α → α) (goal : α) (seen : Finset α) (place : α) : Prop :=
  goal ∉ seen ∧ ∀ before ∈ seen, step before ∈ seen ∨ step before = place

theorem OnWalk.next [DecidableEq α] {seen : Finset α} {place : α}
    (onWalk : OnWalk step goal seen place) (notGoal : place ≠ goal) : OnWalk step goal (insert place seen) (step place) := by
  constructor
  · rw [Finset.mem_insert, not_or]
    exact ⟨notGoal.symm, onWalk.1⟩
  · intro before member
    rcases Finset.mem_insert.mp member with rfl | earlier
    · exact .inr rfl
    · rcases onWalk.2 before earlier with inside | here
      · exact .inl (Finset.mem_insert_of_mem inside)
      · exact .inl (here ▸ Finset.mem_insert_self place seen)

/-- Where the walk comes back, the places seen are a trap. -/
theorem OnWalk.trap {seen : Finset α} {place : α} (onWalk : OnWalk step goal seen place)
    (back : place ∈ seen) : Trap step goal (seen : Set α) := by
  refine ⟨fun before member => ?_, onWalk.1⟩
  rcases onWalk.2 before member with inside | here
  · exact inside
  · exact here ▸ back

/-- The walk tells whether the goal is reached. -/
theorem walkUntil_spec [DecidableEq α] {range : Finset α}
    (closed : ∀ place ∈ range, step place ∈ range) {fuel : Nat} {seen : Finset α} {place : α} (inside : place ∈ range)
    (onWalk : OnWalk step goal seen place) (enough : (range \ seen).card < fuel) :
    ∃ result, walkUntil step goal fuel seen place = some result ∧
      (result = true ↔ Reaches step goal place) := by
  induction fuel generalizing seen place with
  | zero => exact absurd enough (Nat.not_lt_zero _)
  | succ fuel inductionHypothesis =>
      rw [walkUntil]
      split
      next isGoal => exact ⟨true, rfl, iff_of_true rfl ⟨0, isGoal⟩⟩
      next notGoal =>
        split
        next back =>
          exact ⟨false, rfl, iff_of_false (by simp) ((onWalk.trap back).not_reaches back)⟩
        next new =>
          have fewer : (range \ insert place seen).card < (range \ seen).card := by
            rw [Finset.sdiff_insert]
            exact Finset.card_erase_lt_of_mem (Finset.mem_sdiff.mpr ⟨inside, new⟩)
          obtain ⟨result, returned, iff⟩ :=
            inductionHypothesis (closed place inside) (onWalk.next notGoal) (by omega)
          exact ⟨result, returned, iff.trans (reaches_step_iff notGoal)⟩

end StdPrograms.Foundation

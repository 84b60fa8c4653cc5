import Mathlib.Data.Finset.SDiff
import Mathlib.Data.Finset.Card
import Mathlib.Data.List.Chain
import Mathlib.Data.Nat.Find

/-!
Contract: breadth-first search, level by level.

Owns walks over allowed elements, the elements at a distance from the start, and what a list of
candidates adds to a queue when each element is queued only once.

Does not own how the neighbours of an element are found.
-/

namespace StdPrograms.Foundation

variable {α : Type}

/-- From the start to an element in so many steps, each of them to an allowed element. -/
inductive Walk (adjacent : α → α → Prop) (allowed : Set α) (start : α) : Nat → α → Prop where
  | here : Walk adjacent allowed start 0 start
  | step {count : Nat} {place next : α} (walk : Walk adjacent allowed start count place)
      (near : adjacent place next) (member : next ∈ allowed) :
      Walk adjacent allowed start (count + 1) next

section

variable {adjacent : α → α → Prop} {allowed : Set α} {start place : α} {distance : Nat}

/-- No walk to the element has at most so many steps. -/
def Beyond (adjacent : α → α → Prop) (allowed : Set α) (start : α) (distance : Nat) (place : α) :
    Prop :=
  ∀ count ≤ distance, ¬Walk adjacent allowed start count place

/-- The shortest walks to the element have so many steps. -/
def AtDistance (adjacent : α → α → Prop) (allowed : Set α) (start : α) (distance : Nat)
    (place : α) : Prop :=
  Walk adjacent allowed start distance place ∧
    ∀ count < distance, ¬Walk adjacent allowed start count place

theorem walk_zero_iff : Walk adjacent allowed start 0 place ↔ place = start := by
  constructor
  · intro walk
    cases walk
    rfl
  · rintro rfl
    exact .here

theorem walk_succ_iff {count : Nat} :
    Walk adjacent allowed start (count + 1) place ↔
      ∃ before, Walk adjacent allowed start count before ∧ adjacent before place ∧
        place ∈ allowed := by
  constructor
  · intro walk
    cases walk with
    | step walk near member => exact ⟨_, walk, near, member⟩
  · rintro ⟨before, walk, near, member⟩
    exact .step walk near member

theorem walk_member {count : Nat} (walk : Walk adjacent allowed start count place) :
    place = start ∨ place ∈ allowed := by
  cases walk with
  | here => exact .inl rfl
  | step _ _ member => exact .inr member

theorem atDistance_zero_iff : AtDistance adjacent allowed start 0 place ↔ place = start := by
  rw [AtDistance, walk_zero_iff,
    and_iff_left (fun count less => absurd less (Nat.not_lt_zero count))]

/-- A walk as the list of the elements behind the start. -/
theorem walk_iff_chain {count : Nat} :
    Walk adjacent allowed start count place ↔
      ∃ between : List α, between.length = count ∧ (start :: between).IsChain adjacent ∧
        (∀ element ∈ between, element ∈ allowed) ∧ (start :: between).getLast? = some place := by
  constructor
  · intro walk
    induction walk with
    | here => exact ⟨[], rfl, .singleton start, by simp, rfl⟩
    | @step count before next _ near member inductionHypothesis =>
        obtain ⟨between, length, chain, allAllowed, last⟩ := inductionHypothesis
        refine ⟨between ++ [next], ?_, ?_, ?_, ?_⟩
        · rw [List.length_append, length, List.length_singleton]
        · rw [← List.cons_append, List.isChain_append]
          refine ⟨chain, .singleton next, fun x xLast y yFirst => ?_⟩
          rw [last, Option.mem_some_iff] at xLast
          obtain rfl := Option.mem_some_iff.mp yFirst
          exact xLast ▸ near
        · intro element isElement
          rcases List.mem_append.mp isElement with early | late
          · exact allAllowed element early
          · exact List.mem_singleton.mp late ▸ member
        · rw [← List.cons_append, List.getLast?_append]
          rfl
  · rintro ⟨between, rfl, chain, allAllowed, last⟩
    induction between using List.reverseRecOn generalizing place with
    | nil =>
        obtain rfl : start = place := Option.some.inj last
        exact .here
    | append_singleton between next inductionHypothesis =>
        rw [← List.cons_append, List.isChain_append] at chain
        obtain ⟨chain, -, near⟩ := chain
        rw [← List.cons_append, List.getLast?_append] at last
        obtain rfl : next = place := Option.some.inj last
        obtain ⟨before, beforeIs⟩ : ∃ before, (start :: between).getLast? = some before :=
          ⟨_, List.getLast?_eq_some_getLast (List.cons_ne_nil start between)⟩
        rw [List.length_append, List.length_singleton]
        refine .step (inductionHypothesis chain (fun element isElement =>
          allAllowed element (List.mem_append_left [next] isElement)) beforeIs) ?_ ?_
        · exact near before beforeIs next rfl
        · exact allAllowed next (List.mem_append_right between (List.mem_singleton_self next))

/-- The next level is adjacent to this one and has not been reached before. -/
theorem atDistance_succ_iff :
    AtDistance adjacent allowed start (distance + 1) place ↔
      (place ∈ allowed ∧ Beyond adjacent allowed start distance place) ∧
        ∃ before, AtDistance adjacent allowed start distance before ∧ adjacent before place := by
  constructor
  · rintro ⟨walk, least⟩
    obtain ⟨before, beforeWalk, near, member⟩ := walk_succ_iff.mp walk
    refine ⟨⟨member, fun count upTo => least count (Nat.lt_succ_of_le upTo)⟩, before,
      ⟨beforeWalk, fun count less shorter => ?_⟩, near⟩
    exact least (count + 1) (Nat.succ_lt_succ less) (.step shorter near member)
  · rintro ⟨⟨member, beyond⟩, before, ⟨walk, -⟩, near⟩
    exact ⟨.step walk near member, fun count less => beyond count (Nat.le_of_lt_succ less)⟩

theorem exists_atDistance {count : Nat} (walk : Walk adjacent allowed start count place) :
    ∃ distance ≤ count, AtDistance adjacent allowed start distance place := by
  classical
  have exists_walk : ∃ count, Walk adjacent allowed start count place := ⟨count, walk⟩
  exact ⟨Nat.find exists_walk, Nat.find_min' exists_walk walk, Nat.find_spec exists_walk,
    fun shorter less => Nat.find_min exists_walk less⟩

/-- Behind an empty level there is nothing. -/
theorem not_atDistance_of_empty (empty : ∀ place, ¬AtDistance adjacent allowed start distance place)
    {later : Nat} (behind : distance ≤ later) (place : α) :
    ¬AtDistance adjacent allowed start later place := by
  induction later, behind using Nat.le_induction generalizing place with
  | base => exact empty place
  | succ later _ inductionHypothesis =>
      intro atLater
      obtain ⟨-, before, atBefore, -⟩ := atDistance_succ_iff.mp atLater
      exact inductionHypothesis before atBefore

end

/-! ### Candidates -/

section

variable [DecidableEq α]

/-- The candidates that are left over, each when it comes up first. -/
def fresh : List α → Finset α → List α
  | [], _ => []
  | candidate :: candidates, left =>
      if candidate ∈ left then candidate :: fresh candidates (left.erase candidate)
      else fresh candidates left

theorem fresh_append (front back : List α) (left : Finset α) :
    fresh (front ++ back) left = fresh front left ++ fresh back (left \ front.toFinset) := by
  induction front generalizing left with
  | nil => simp [fresh]
  | cons candidate front inductionHypothesis =>
      rw [List.cons_append, fresh, fresh, List.toFinset_cons]
      split
      next member =>
        rw [inductionHypothesis, List.cons_append, Finset.sdiff_insert, Finset.erase_sdiff_comm]
      next missing =>
        rw [inductionHypothesis, Finset.sdiff_insert, ← Finset.erase_sdiff_comm,
          Finset.erase_eq_of_notMem missing]

theorem mem_fresh {candidates : List α} {left : Finset α} {place : α} :
    place ∈ fresh candidates left ↔ place ∈ left ∧ place ∈ candidates := by
  induction candidates generalizing left with
  | nil => simp [fresh]
  | cons candidate candidates inductionHypothesis =>
      rw [fresh]
      split
      next member =>
        rw [List.mem_cons, inductionHypothesis, List.mem_cons, Finset.mem_erase]
        by_cases same : place = candidate
        · simp [same, member]
        · simp [same]
      next missing =>
        rw [inductionHypothesis, List.mem_cons]
        by_cases same : place = candidate
        · simp [same, missing]
        · simp [same]

theorem nodup_fresh (candidates : List α) (left : Finset α) : (fresh candidates left).Nodup := by
  induction candidates generalizing left with
  | nil => exact List.nodup_nil
  | cons candidate candidates inductionHypothesis =>
      rw [fresh]
      split
      next =>
        refine List.nodup_cons.mpr ⟨fun again => ?_, inductionHypothesis _⟩
        exact Finset.notMem_erase candidate left (mem_fresh.mp again).1
      next => exact inductionHypothesis left

/-- What is queued is no longer left. -/
theorem card_fresh (candidates : List α) (left : Finset α) :
    (fresh candidates left).length + (left \ candidates.toFinset).card = left.card := by
  have queued : (fresh candidates left).toFinset = left ∩ candidates.toFinset := by
    ext place
    rw [List.mem_toFinset, mem_fresh, Finset.mem_inter, List.mem_toFinset]
  rw [← List.toFinset_card_of_nodup (nodup_fresh candidates left), queued,
    Finset.card_inter_add_card_sdiff]

/-! ### Levels -/

variable {adjacent : α → α → Prop} {allowed : Finset α} {start : α} {distance : Nat}
  {queue : List α} {left : Finset α}

/-- The queue has the elements at a distance, and those further away are left. -/
structure Level (adjacent : α → α → Prop) (allowed : Finset α) (start : α) (distance : Nat)
    (queue : List α) (left : Finset α) : Prop where
  nodup : queue.Nodup
  mem_queue {place : α} : place ∈ queue ↔ AtDistance adjacent allowed start distance place
  mem_left {place : α} : place ∈ left ↔
    place ∈ allowed ∧ Beyond adjacent allowed start distance place

theorem level_start (adjacent : α → α → Prop) (allowed : Finset α) (start : α) :
    Level adjacent allowed start 0 [start] (allowed.erase start) where
  nodup := List.nodup_singleton start
  mem_queue := by
    intro place
    rw [List.mem_singleton, atDistance_zero_iff]
  mem_left := by
    intro place
    have beyond : Beyond adjacent (allowed : Set α) start 0 place ↔ place ≠ start := by
      constructor
      · rintro beyond rfl
        exact beyond 0 (Nat.le_refl 0) .here
      · intro other count upTo walk
        rw [Nat.le_zero.mp upTo, walk_zero_iff] at walk
        exact other walk
    rw [Finset.mem_erase, beyond, and_comm]

/-- The candidates are what is adjacent to the queue, as far as it is left. -/
theorem Level.next (level : Level adjacent allowed start distance queue left)
    {candidates : List α} (complete : ∀ place ∈ left,
      (place ∈ candidates ↔ ∃ before ∈ queue, adjacent before place)) :
    Level adjacent allowed start (distance + 1) (fresh candidates left)
      (left \ candidates.toFinset) where
  nodup := nodup_fresh candidates left
  mem_queue := by
    intro place
    rw [mem_fresh, atDistance_succ_iff]
    change _ ↔ (place ∈ allowed ∧ _) ∧ _
    rw [← level.mem_left]
    refine and_congr_right fun member => ?_
    rw [complete place member]
    exact exists_congr fun before => and_congr_left fun _ => level.mem_queue
  mem_left := by
    intro place
    rw [Finset.mem_sdiff, List.mem_toFinset]
    constructor
    · rintro ⟨member, notFound⟩
      obtain ⟨inAllowed, beyond⟩ := level.mem_left.mp member
      refine ⟨inAllowed, fun count upTo walk => ?_⟩
      obtain ⟨nearest, atMost, atNearest⟩ := exists_atDistance walk
      by_cases within : nearest ≤ distance
      · exact beyond nearest within atNearest.1
      · obtain rfl : nearest = distance + 1 := by omega
        obtain ⟨-, before, atBefore, near⟩ := atDistance_succ_iff.mp atNearest
        exact notFound ((complete place member).mpr
          ⟨before, level.mem_queue.mpr atBefore, near⟩)
    · rintro ⟨inAllowed, beyond⟩
      have member := level.mem_left.mpr
        ⟨inAllowed, fun count upTo => beyond count (Nat.le_succ_of_le upTo)⟩
      refine ⟨member, fun found => ?_⟩
      obtain ⟨before, inQueue, near⟩ := (complete place member).mp found
      exact beyond (distance + 1) (Nat.le_refl _)
        (.step (level.mem_queue.mp inQueue).1 near inAllowed)

end

end StdPrograms.Foundation

import Mathlib.Data.Finset.Max
import Mathlib.Data.List.Basic

/-!
Contract: a set from which the values of a sequence are taken out some turns after they were put in.

Owns which values are in the set where equal ones may be put in before, when these are exactly the
last ones of the sequence, and the least element of a set from a bound on.

Does not own what is looked for in the set.
-/

namespace StdPrograms.Foundation

variable {α : Type}

/-- Some item before turn `put` has the value, and since then it has not been taken out: before
turn `out` no equal item was more than `k` turns ago. -/
def StillIn (items : List α) (k put out : Nat) (value : α) : Prop :=
  ∃ p < put, items[p]? = some value ∧
    ∀ q, q + k + 1 < out → p ≤ q + k → items[q]? ≠ some value

/-- What is in the set when an item is looked at: it has been put in before, and the item that is
taken out at this turn is no more in. -/
def Held (items : List α) (k turn : Nat) (value : α) : Prop :=
  StillIn items k turn (turn + 1) value

variable {items : List α} {k turn : Nat} {value : α}

theorem not_stillIn_zero (out : Nat) : ¬StillIn items k 0 out value := by
  rintro ⟨p, before, -⟩
  exact absurd before (Nat.not_lt_zero p)

/-- In the first turns nothing is taken out. -/
theorem held_of_le (early : turn ≤ k) :
    Held items k turn value ↔ StillIn items k turn turn value := by
  refine exists_congr fun p => and_congr_right fun before => and_congr_right fun here => ?_
  exact iff_of_true (fun q taken _ => by omega) (fun q taken _ => by omega)

theorem held_of_lt {taken : α} (late : k < turn) (here : items[turn - k - 1]? = some taken) :
    Held items k turn value ↔ value ≠ taken ∧ StillIn items k turn turn value := by
  constructor
  · rintro ⟨p, before, atP, since⟩
    refine ⟨?_, p, before, atP, fun q earlier => since q (by omega)⟩
    rintro rfl
    exact since (turn - k - 1) (by omega) (by omega) here
  · rintro ⟨other, p, before, atP, since⟩
    refine ⟨p, before, atP, fun q earlier later => ?_⟩
    rcases Nat.lt_or_eq_of_le (Nat.le_of_lt_succ earlier) with sooner | now
    · exact since q sooner later
    · obtain rfl : q = turn - k - 1 := by omega
      rw [here]
      exact fun same => other (Option.some.inj same).symm

theorem stillIn_succ {item : α} (here : items[turn]? = some item) :
    StillIn items k (turn + 1) (turn + 1) value ↔ value = item ∨ Held items k turn value := by
  constructor
  · rintro ⟨p, before, atP, since⟩
    rcases Nat.lt_or_eq_of_le (Nat.le_of_lt_succ before) with sooner | rfl
    · exact .inr ⟨p, sooner, atP, since⟩
    · exact .inl (Option.some.inj (atP.symm.trans here))
  · rintro (rfl | ⟨p, before, atP, since⟩)
    · exact ⟨turn, Nat.lt_succ_self turn, here, fun q earlier later => by omega⟩
    · exact ⟨p, Nat.lt_succ_of_lt before, atP, since⟩

/-! ### The last items -/

theorem Held.recent (held : Held items k turn value) :
    ∃ p < turn, turn ≤ p + k ∧ items[p]? = some value := by
  obtain ⟨p, before, atP, since⟩ := held
  refine ⟨p, before, ?_, atP⟩
  by_contra old
  exact since p (by omega) (Nat.le_add_right p k) atP

/-- Where no equal items are near, the last ones are all in the set. -/
theorem held_of_recent {p : Nat} (before : p < turn) (recent : turn ≤ p + k)
    (here : items[p]? = some value)
    (apart : ∀ q r, q < r → r < turn → r ≤ q + k → items[r]? = some value →
      items[q]? ≠ some value) : Held items k turn value :=
  ⟨p, before, here, fun q earlier later => apart q p (by omega) before later here⟩

/-! ### The least element from a bound on -/

variable [LinearOrder α] {set : Finset α} {bound : α}

def lowerBound (set : Finset α) (bound : α) : Option α :=
  if nonempty : (set.filter (bound ≤ ·)).Nonempty then some ((set.filter (bound ≤ ·)).min' nonempty)
  else none

theorem lt_of_lowerBound_eq_none (notFound : lowerBound set bound = none) {element : α}
    (member : element ∈ set) : element < bound := by
  rw [lowerBound] at notFound
  split at notFound
  next nonempty => cases notFound
  next none_ =>
    by_contra above
    exact none_ ⟨element, Finset.mem_filter.mpr ⟨member, not_lt.mp above⟩⟩

theorem lowerBound_eq_some {least : α} (found : lowerBound set bound = some least) :
    least ∈ set ∧ bound ≤ least ∧ ∀ element ∈ set, bound ≤ element → least ≤ element := by
  rw [lowerBound] at found
  split at found
  next nonempty =>
    obtain rfl := Option.some.inj found
    obtain ⟨member, above⟩ := Finset.mem_filter.mp (Finset.min'_mem _ nonempty)
    exact ⟨member, above, fun element inSet atLeast =>
      Finset.min'_le _ element (Finset.mem_filter.mpr ⟨inSet, atLeast⟩)⟩
  next none_ => cases found

end StdPrograms.Foundation

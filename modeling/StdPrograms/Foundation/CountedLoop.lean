import Mathlib.Data.List.Range
import Mathlib.Data.Nat.SuccPred
import StdPrograms.Foundation.SignedInt

/-!
Contract: loops that count and may go wrong.

Owns the loop over consecutive numbers, its last round, the rule for an invariant that each
round keeps, the loop whose counter is of a signed type, the loop that is left in the first round
that sees something, the loop that only moves its counter while a test holds, and the one that
passes over the elements of a list with a property.

Does not own any body or test.
-/

namespace StdPrograms.Foundation

variable {σ : Type} {body : σ → Nat → Option σ}

/-- The body for each of `count` numbers from `start` on. -/
def forLoop (start count : Nat) (body : σ → Nat → Option σ) (state : σ) : Option σ :=
  (List.range' start count).foldlM body state

theorem forLoop_succ (start count : Nat) (state : σ) :
    forLoop start (count + 1) body state =
      (forLoop start count body state).bind fun between => body between (start + count) := by
  rw [forLoop, List.range'_1_concat, List.foldlM_append]
  change (forLoop start count body state).bind _ = _
  congr 1
  funext between
  exact bind_pure _

/-- An invariant of the number of rounds holds after the last one. -/
theorem forLoop_spec {start total : Nat} {state : σ} (invariant : Nat → σ → Prop)
    (first : invariant 0 state)
    (round : ∀ count < total, ∀ before, invariant count before →
      ∃ after, body before (start + count) = some after ∧ invariant (count + 1) after) :
    ∃ final, forLoop start total body state = some final ∧ invariant total final := by
  induction total with
  | zero => exact ⟨state, rfl, first⟩
  | succ total inductionHypothesis =>
      obtain ⟨between, returned, holds⟩ :=
        inductionHypothesis (fun count below => round count (Nat.lt_succ_of_lt below))
      obtain ⟨after, last, holdsAfter⟩ := round total (Nat.lt_succ_self total) between holds
      refine ⟨after, ?_, holdsAfter⟩
      rw [forLoop_succ, returned]
      exact last

/-- What went wrong in a round is not mended later. -/
theorem forLoop_eq_none_of_le {start count total : Nat} {state : σ} (upTo : count ≤ total)
    (wrong : forLoop start count body state = none) : forLoop start total body state = none := by
  induction total, upTo using Nat.le_induction with
  | base => exact wrong
  | succ total _ inductionHypothesis =>
      rw [forLoop_succ, inductionHypothesis]
      rfl

/-! ### A counter of a signed type -/

/-- The loop whose counter is incremented behind the body, also behind the last one. -/
def signedLoop (bits start count : Nat) (body : σ → Nat → Option σ) (state : σ) : Option σ :=
  forLoop start count (fun before i => do
    let after ← body before i
    let _ ← position bits (i + 1)
    return after) state

theorem signedLoop_succ (bits start count : Nat) (state : σ) :
    signedLoop bits start (count + 1) body state =
      (signedLoop bits start count body state).bind fun between =>
        (body between (start + count)).bind fun after =>
          (position bits (start + count + 1)).bind fun _ => some after :=
  forLoop_succ start count state

theorem signedLoop_eq {bits start count : Nat} (small : start + count < 2 ^ (bits - 1))
    (state : σ) : signedLoop bits start count body state = forLoop start count body state := by
  induction count with
  | zero => rfl
  | succ count inductionHypothesis =>
      rw [← Nat.add_assoc] at small
      rw [signedLoop_succ, forLoop_succ, inductionHypothesis (by omega), position_of_lt small]
      congr 1
      funext between
      exact Option.bind_fun_some (body between (start + count))

/-- The increment behind the last body overflows. -/
theorem signedLoop_eq_none {bits start count : Nat} (positive : 0 < count)
    (large : 2 ^ (bits - 1) ≤ start + count) (state : σ) :
    signedLoop bits start count body state = none := by
  obtain ⟨before, rfl⟩ := Nat.exists_eq_add_of_le' positive
  have overflows : position bits (start + before + 1) = none :=
    position_eq_none (by omega)
  rw [signedLoop_succ, overflows]
  simp

/-- The loop over the elements of a list that is not too long. -/
theorem signedLoop_elements {α : Type} {bits : Nat} {elements : List α}
    (small : elements.length < 2 ^ (bits - 1)) (visit : σ → α → σ) (state : σ) :
    signedLoop bits 0 elements.length (fun before i => elements[i]?.map (visit before)) state =
      some (elements.foldl visit state) := by
  rw [signedLoop_eq (by omega)]
  obtain ⟨final, returned, finalIs⟩ := @forLoop_spec σ
    (fun before i => elements[i]?.map (visit before)) 0 elements.length state
    (fun count between => between = (elements.take count).foldl visit state) rfl
    fun count below before beforeIs => by
      refine ⟨visit before elements[count], ?_, ?_⟩
      · rw [Nat.zero_add, List.getElem?_eq_getElem below]
        rfl
      · rw [beforeIs, List.take_succ_eq_append_getElem below, List.foldl_concat]
  rw [returned, finalIs, List.take_length]

/-! ### A loop that is left early -/

section

variable {loop : Nat → Nat → σ → Option Bool} {limit : Nat}

/-- In each round the loop is left with `true`, or the invariant is kept for the next one. -/
def Searches (loop : Nat → Nat → σ → Option Bool) (invariant : Nat → σ → Prop) (caught : Nat → Prop)
    (limit : Nat) : Prop :=
  ∀ fuel i state, invariant i state → i < limit →
    (caught i → loop (fuel + 1) i state = some true) ∧
      (¬caught i → ∃ next, invariant (i + 1) next ∧
        loop (fuel + 1) i state = loop fuel (i + 1) next)

variable {invariant : Nat → σ → Prop} {caught : Nat → Prop}
  (searches : Searches loop invariant caught limit)

include searches in
theorem Searches.finds {fuel i place : Nat} {state : σ} (holds : invariant i state)
    (from_ : i ≤ place) (until_ : place < limit) (seen : caught place) (enough : place - i < fuel) :
    loop fuel i state = some true := by
  induction fuel generalizing i state with
  | zero => exact absurd enough (Nat.not_lt_zero _)
  | succ fuel inductionHypothesis =>
      obtain ⟨found, notFound⟩ := searches fuel i state holds (Nat.lt_of_le_of_lt from_ until_)
      by_cases now : caught i
      · exact found now
      · have later : i ≠ place := by
          rintro rfl
          exact now seen
        obtain ⟨next, holdsNext, goesOn⟩ := notFound now
        rw [goesOn]
        exact inductionHypothesis holdsNext (by omega) (by omega)

include searches in
/-- Where nothing is seen, the invariant holds at the limit. -/
theorem Searches.passes {rounds i : Nat} {state : σ} (holds : invariant i state)
    (upTo : i + rounds ≤ limit) (unseen : ∀ place, i ≤ place → place < i + rounds → ¬caught place)
    (fuel : Nat) : ∃ last, invariant (i + rounds) last ∧
      loop (fuel + rounds) i state = loop fuel (i + rounds) last := by
  induction rounds generalizing i state with
  | zero => exact ⟨state, holds, rfl⟩
  | succ rounds inductionHypothesis =>
      obtain ⟨-, notFound⟩ := searches (fuel + rounds) i state holds (by omega)
      obtain ⟨next, holdsNext, goesOn⟩ := notFound (unseen i (Nat.le_refl i) (by omega))
      obtain ⟨last, holdsLast, returned⟩ := inductionHypothesis holdsNext (by omega)
        fun place above below => unseen place (by omega) (by omega)
      rw [Nat.add_right_comm i 1 rounds] at holdsLast returned
      exact ⟨last, holdsLast, goesOn.trans returned⟩

include searches in
/-- The loop tells whether some round sees something. -/
theorem Searches.spec (ends : ∀ fuel state, loop (fuel + 1) limit state = some false) {state : σ}
    (first : invariant 0 state) :
    ∃ result, (∀ fuel > limit, loop fuel 0 state = some result) ∧
      (result = true ↔ ∃ place < limit, caught place) := by
  by_cases seen : ∃ place < limit, caught place
  · obtain ⟨place, inside, here⟩ := id seen
    refine ⟨true, fun fuel enough => ?_, iff_of_true rfl seen⟩
    exact searches.finds first (Nat.zero_le place) inside here (by omega)
  · refine ⟨false, fun fuel enough => ?_, iff_of_false (by simp) seen⟩
    obtain ⟨rest, rfl⟩ : ∃ rest, fuel = rest + 1 + limit := ⟨fuel - 1 - limit, by omega⟩
    obtain ⟨last, -, returned⟩ := @Searches.passes _ _ _ _ _ searches limit 0 state first (by omega)
      (fun place _ below here => seen ⟨place, by omega, here⟩) (rest + 1)
    rw [returned, Nat.zero_add]
    exact ends rest last

end

/-! ### A counter that is only moved -/

/-- `while (test(i)) i = move(i);` -/
def moveWhile (test : Nat → Option Bool) (move : Nat → Nat) : Nat → Nat → Option Nat
  | 0, _ => none
  | fuel + 1, i => do
      if ← test i then moveWhile test move fuel (move i) else return i

/-- The loop stops where the test first fails. -/
theorem moveWhile_spec {test : Nat → Option Bool} {move : Nat → Nat} {fuel rounds i : Nat}
    (enough : rounds < fuel) (defined : ∀ round ≤ rounds, (test (move^[round] i)).isSome)
    (bounded : test (move^[rounds] i) = some false) :
    ∃ count ≤ rounds, moveWhile test move fuel i = some (move^[count] i) ∧
      test (move^[count] i) = some false ∧ ∀ round < count, test (move^[round] i) = some true := by
  induction fuel generalizing rounds i with
  | zero => exact absurd enough (Nat.not_lt_zero rounds)
  | succ fuel inductionHypothesis =>
      obtain ⟨holds, holdsIs⟩ := Option.isSome_iff_exists.mp (defined 0 (Nat.zero_le rounds))
      rw [Function.iterate_zero_apply] at holdsIs
      cases holds with
      | false =>
          refine ⟨0, Nat.zero_le rounds, ?_, holdsIs, fun round below => ?_⟩
          · rw [moveWhile, holdsIs]
            rfl
          · exact absurd below (Nat.not_lt_zero round)
      | true =>
          cases rounds with
          | zero => simp [holdsIs] at bounded
          | succ rounds =>
              obtain ⟨count, atMost, returned, fails, before⟩ :=
                @inductionHypothesis rounds (move i) (Nat.lt_of_succ_lt_succ enough)
                  (fun round below => defined (round + 1) (Nat.succ_le_succ below)) bounded
              refine ⟨count + 1, Nat.succ_le_succ atMost, ?_, fails, fun round below => ?_⟩
              · rw [moveWhile, holdsIs]
                exact returned
              · cases round with
                | zero => exact holdsIs
                | succ round => exact before round (Nat.lt_of_succ_lt_succ below)

/-- The loop that counts up to a limit. -/
theorem moveWhile_succ {test : Nat → Option Bool} {fuel limit i : Nat} (upTo : i ≤ limit)
    (enough : limit - i < fuel)
    (defined : ∀ place, i ≤ place → place ≤ limit → (test place).isSome)
    (bounded : test limit = some false) :
    ∃ stop, moveWhile test (· + 1) fuel i = some stop ∧ i ≤ stop ∧ stop ≤ limit ∧
      test stop = some false ∧ ∀ place, i ≤ place → place < stop → test place = some true := by
  have moved : ∀ count, (· + 1)^[count] i = i + count := fun count => Nat.succ_iterate i count
  obtain ⟨count, atMost, returned, fails, before⟩ :=
    @moveWhile_spec test (· + 1) fuel (limit - i) i enough
      (fun round below => by rw [moved]; exact defined _ (by omega) (by omega))
      (by rw [moved, Nat.add_sub_cancel' upTo]; exact bounded)
  rw [moved] at returned fails
  refine ⟨i + count, returned, Nat.le_add_right i count, by omega, fails, ?_⟩
  intro place above below
  obtain ⟨round, rfl⟩ := Nat.exists_eq_add_of_le above
  rw [← moved]
  exact before round (Nat.lt_of_add_lt_add_left below)

/-- The loop that counts down to a limit. -/
theorem moveWhile_pred {test : Nat → Option Bool} {fuel limit i : Nat} (downTo : limit ≤ i)
    (enough : i - limit < fuel)
    (defined : ∀ place, limit ≤ place → place ≤ i → (test place).isSome)
    (bounded : test limit = some false) :
    ∃ stop, moveWhile test (· - 1) fuel i = some stop ∧ limit ≤ stop ∧ stop ≤ i ∧
      test stop = some false ∧ ∀ place, stop < place → place ≤ i → test place = some true := by
  have moved : ∀ count, (· - 1)^[count] i = i - count := fun count => Nat.pred_iterate i count
  obtain ⟨count, atMost, returned, fails, before⟩ :=
    @moveWhile_spec test (· - 1) fuel (i - limit) i enough
      (fun round below => by rw [moved]; exact defined _ (by omega) (by omega))
      (by rw [moved, Nat.sub_sub_self downTo]; exact bounded)
  rw [moved] at returned fails
  refine ⟨i - count, returned, by omega, Nat.sub_le i count, fails, ?_⟩
  intro place above below
  have placeIs : place = i - (i - place) := by omega
  rw [placeIs, ← moved]
  exact before (i - place) (by omega)

/-! ### A counter that passes over elements -/

section

variable {α : Type} (passes : α → Bool) (elements : List α)

/-- `while (i < high && passes(elements[i])) ++i;` -/
def passUp (high i : Nat) : Option Nat :=
  moveWhile (fun i => if i < high then elements[i]?.map passes else some false) (· + 1)
    elements.length i

/-- `while (i > low && passes(elements[i])) --i;` -/
def passDown (low i : Nat) : Option Nat :=
  moveWhile (fun i => if low < i then elements[i]?.map passes else some false) (· - 1)
    elements.length i

variable {passes elements} {low high : Nat}

theorem passUp_spec (inside : high < elements.length) (upTo : low ≤ high) :
    ∃ stop, passUp passes elements high low = some stop ∧ low ≤ stop ∧ stop ≤ high ∧
      (∀ place, low ≤ place → place < stop → elements[place]?.map passes = some true) ∧
      (stop < high → elements[stop]?.map passes = some false) := by
  obtain ⟨stop, returned, above, below, fails, holds⟩ :=
    @moveWhile_succ (fun i => if i < high then elements[i]?.map passes else some false)
      elements.length high low upTo (by omega)
      (fun place _ below => by
        split
        · simp [Nat.lt_of_le_of_lt below inside]
        · rfl)
      (if_neg (Nat.lt_irrefl high))
  refine ⟨stop, returned, above, below, fun place from_ until_ => ?_, fun less => ?_⟩
  · have held := holds place from_ until_
    rwa [if_pos (Nat.lt_of_lt_of_le until_ below)] at held
  · rwa [if_pos less] at fails

theorem passDown_spec (inside : high < elements.length) (upTo : low ≤ high) :
    ∃ stop, passDown passes elements low high = some stop ∧ low ≤ stop ∧ stop ≤ high ∧
      (∀ place, stop < place → place ≤ high → elements[place]?.map passes = some true) ∧
      (low < stop → elements[stop]?.map passes = some false) := by
  obtain ⟨stop, returned, above, below, fails, holds⟩ :=
    @moveWhile_pred (fun i => if low < i then elements[i]?.map passes else some false)
      elements.length low high upTo (by omega)
      (fun place _ below => by
        split
        · simp [Nat.lt_of_le_of_lt below inside]
        · rfl)
      (if_neg (Nat.lt_irrefl low))
  refine ⟨stop, returned, above, below, fun place from_ until_ => ?_, fun less => ?_⟩
  · have held := holds place from_ until_
    rwa [if_pos (Nat.lt_of_le_of_lt above from_)] at held
  · rwa [if_pos less] at fails

end

end StdPrograms.Foundation

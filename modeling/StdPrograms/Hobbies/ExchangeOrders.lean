import Mathlib.Data.List.Range
import StdPrograms.Foundation.Exchange
import StdPrograms.Foundation.SignedInt

/-!
Contract: an array sorted by exchanges with its first element.

Owns `moveToTail` and `sort` of `Exchange.java` and that `sort` brings every arrangement of the
numbers from one on in order and counts exchanges with the first element that do it.

Does not own what is printed on the way, or the least number of such exchanges, which is smaller for
some arrays.
-/

namespace StdPrograms.Hobbies

open scoped List
open StdPrograms.Foundation

namespace ExchangeOrders

section Code

def moveToTail (orders : List Int) (i tail : Nat) : Option (List Int) := do
  let tmp ← orders[i]?
  let first ← orders[0]?
  let orders := orders.set i first
  let last ← orders[tail]?
  let orders := orders.set 0 last
  return orders.set tail tmp

/-- What is left in the array and what is returned. -/
def sort : (size : Nat) → List Int → Option (List Int × Int)
  | 0, orders => some (orders, 0)
  | size + 1, orders => do
      let last ← orders[size]?
      if last = (size : Int) + 1 then sort size orders
      else
        let first ← orders[0]?
        if first = (size : Int) + 1 then
          let orders ← moveToTail orders 0 size
          let (orders, count) ← sort size orders
          return (orders, converted 32 (count + 1))
        else
          match (List.range' 1 size).find? fun (i : Nat) =>
              orders[i]? = some ((size : Int) + 1) with
          | some i =>
              let orders ← moveToTail orders i size
              let (orders, count) ← sort size orders
              return (orders, converted 32 (count + 2))
          | none => return (orders, 0)

end Code

/-! ### Exchanges with the first element -/

/-- So many exchanges of the first element with another one lead from one array to the other. -/
inductive Exchanges : Nat → List Int → List Int → Prop where
  | none (orders : List Int) : Exchanges 0 orders orders
  | more {count j : Nat} {before between after : List Int} (other : 0 < j)
      (exchanged : exchange before 0 j = some between) (rest : Exchanges count between after) :
      Exchanges (count + 1) before after

variable {orders : List Int}

theorem moveToTail_first {tail : Nat} (other : 0 < tail) (inside : tail < orders.length) :
    moveToTail orders 0 tail = exchange orders 0 tail := by
  have first : 0 < orders.length := by omega
  simp [moveToTail, exchange, inside, first, other.ne]

/-- Elsewhere it is two exchanges. -/
theorem moveToTail_other {i tail : Nat} (iOther : 0 < i) (tailOther : 0 < tail) (ne : i ≠ tail)
    (iInside : i < orders.length) (tailInside : tail < orders.length) :
    moveToTail orders i tail =
      (exchange orders 0 i).bind fun between => exchange between 0 tail := by
  have first : 0 < orders.length := by omega
  have swapped : (((orders.set 0 orders[i]).set i orders[0]).set 0 orders[tail]) =
      (orders.set i orders[0]).set 0 orders[tail] := by
    rw [List.set_comm _ _ iOther.ne, List.set_set]
  simp [moveToTail, exchange, iInside, tailInside, first, iOther.ne', tailOther.ne, ne, swapped]

/-! ### Sorting -/

/-- The numbers from one on. -/
def counted (n : Nat) : List Int :=
  (List.range' 1 n).map Int.ofNat

/-- An arrangement of the numbers from one on, in which those above `size` are in place. -/
structure Settled (n size : Nat) (orders : List Int) : Prop where
  permutation : orders ~ counted n
  placed : ∀ place, size ≤ place → place < n → orders[place]? = some (place + 1 : Int)

variable {n size : Nat}

theorem length_counted (n : Nat) : (counted n).length = n := by
  rw [counted, List.length_map, List.length_range']

theorem Settled.length_eq (settled : Settled n size orders) : orders.length = n := by
  rw [settled.permutation.length_eq, length_counted]

theorem Settled.eq_counted (settled : Settled n 0 orders) : orders = counted n := by
  apply List.ext_getElem?
  intro place
  by_cases inside : place < n
  · rw [settled.placed place (Nat.zero_le place) inside]
    simp [counted, inside, Int.add_comm]
  · rw [List.getElem?_eq_none (by rw [settled.length_eq]; omega),
      List.getElem?_eq_none (by rw [length_counted]; omega)]

/-- The greatest number that may not be in place is before those that are. -/
theorem Settled.exists_greatest (settled : Settled n (size + 1) orders) (upTo : size < n) :
    ∃ place ≤ size, orders[place]? = some (size + 1 : Int) := by
  have member : (size + 1 : Int) ∈ orders := by
    rw [settled.permutation.mem_iff, counted, List.mem_map]
    exact ⟨size + 1, List.mem_range'_1.mpr (by omega), rfl⟩
  obtain ⟨place, found⟩ := List.mem_iff_getElem?.mp member
  refine ⟨place, ?_, found⟩
  by_contra above
  have inside : place < n := by
    rw [← settled.length_eq]
    exact (List.getElem?_eq_some_iff.mp found).1
  have other := settled.placed place (by omega) inside
  rw [found, Option.some.injEq] at other
  omega

/-- Once that number is in place. -/
theorem Settled.settle (settled : Settled n (size + 1) orders)
    (last : orders[size]? = some (size + 1 : Int)) : Settled n size orders where
  permutation := settled.permutation
  placed place above inside := by
    cases Nat.eq_or_lt_of_le above with
    | inl same =>
        subst same
        exact last
    | inr greater => exact settled.placed place greater inside

/-- The greatest number is exchanged from the first place to its own. -/
theorem Settled.exchangeFirst (settled : Settled n (size + 1) orders) (upTo : size < n)
    (first : orders[0]? = some (size + 1 : Int)) :
    ∃ after, exchange orders 0 size = some after ∧ Settled n size after := by
  have sizes := settled.length_eq
  obtain ⟨after, exchanged, permutation, entries⟩ :=
    @exchange_spec _ orders 0 size (by omega) (by omega)
  refine ⟨after, exchanged, permutation.trans settled.permutation, fun place above inside => ?_⟩
  rw [entries]
  cases Nat.eq_or_lt_of_le above with
  | inl same =>
      subst same
      rw [Equiv.swap_apply_right]
      exact first
  | inr greater =>
      rw [Equiv.swap_apply_of_ne_of_ne (by omega) (by omega)]
      exact settled.placed place greater inside

/-- The greatest number is exchanged to the first place. -/
theorem Settled.exchangeOther {i : Nat} (settled : Settled n (size + 1) orders) (upTo : i ≤ size)
    (inside : i < n) (found : orders[i]? = some (size + 1 : Int)) :
    ∃ after, exchange orders 0 i = some after ∧ Settled n (size + 1) after ∧
      after[0]? = some (size + 1 : Int) := by
  have sizes := settled.length_eq
  obtain ⟨after, exchanged, permutation, entries⟩ :=
    @exchange_spec _ orders 0 i (by omega) (by omega)
  refine ⟨after, exchanged, ⟨permutation.trans settled.permutation, ?_⟩, ?_⟩
  · intro place above below
    rw [entries, Equiv.swap_apply_of_ne_of_ne (by omega) (by omega)]
    exact settled.placed place above below
  · rw [entries, Equiv.swap_apply_left]
    exact found

/-- Where it is neither the last nor the first one, the loop finds it between them. -/
theorem Settled.find_eq (settled : Settled n (size + 1) orders) (upTo : size < n)
    (notLast : orders[size]? ≠ some (size + 1 : Int))
    (notFirst : orders[0]? ≠ some (size + 1 : Int)) :
    ∃ i, (List.range' 1 size).find? (fun (i : Nat) => orders[i]? = some ((size : Int) + 1)) =
        some i ∧ 0 < i ∧ i < size ∧ orders[i]? = some (size + 1 : Int) := by
  obtain ⟨place, atMost, placeIs⟩ := settled.exists_greatest upTo
  cases found : (List.range' 1 size).find? fun (i : Nat) =>
      orders[i]? = some ((size : Int) + 1) with
  | none =>
      have notZero : place ≠ 0 := fun zero => notFirst (zero ▸ placeIs)
      have nowhere := List.find?_eq_none.mp found place (List.mem_range'_1.mpr (by omega))
      exact absurd (decide_eq_true placeIs) nowhere
  | some i =>
      have holds := List.find?_some found
      have value := of_decide_eq_true holds
      have member := List.mem_range'_1.mp (List.mem_of_find?_eq_some found)
      have notSize : i ≠ size := fun same => notLast (same ▸ value)
      exact ⟨i, rfl, by omega, by omega, value⟩

/-- How many exchanges are at most made. -/
theorem sort_spec (settled : Settled n size orders) (upTo : size ≤ n) :
    ∃ (count : Nat) (after : List Int), sort size orders = some (after, converted 32 count) ∧
      Exchanges count orders after ∧ Settled n 0 after ∧ count ≤ 2 * size - 3 := by
  induction size generalizing orders with
  | zero => exact ⟨0, orders, rfl, .none orders, settled, Nat.le_refl 0⟩
  | succ size inductionHypothesis =>
      have sizes := settled.length_eq
      have lastIs : orders[size]? = some orders[size] := List.getElem?_eq_getElem (by omega)
      have firstIs : orders[0]? = some orders[0] := List.getElem?_eq_getElem (by omega)
      rw [sort, lastIs, firstIs]
      dsimp only [Option.bind_eq_bind, Option.bind_some]
      by_cases inPlace : orders[size] = (size : Int) + 1
      · rw [if_pos inPlace]
        rw [inPlace] at lastIs
        obtain ⟨count, after, returned, exchanges, sorted, atMost⟩ :=
          inductionHypothesis (settled.settle lastIs) (by omega)
        exact ⟨count, after, returned, exchanges, sorted, by omega⟩
      rw [if_neg inPlace]
      by_cases inFirst : orders[0] = (size : Int) + 1
      · rw [inFirst] at firstIs
        have positive : 0 < size := by
          by_contra zero
          obtain rfl : size = 0 := by omega
          exact inPlace inFirst
        obtain ⟨between, exchanged, settledBetween⟩ := settled.exchangeFirst upTo firstIs
        obtain ⟨count, after, returned, exchanges, sorted, atMost⟩ :=
          inductionHypothesis settledBetween (by omega)
        rw [if_pos inFirst, moveToTail_first positive (by omega), exchanged]
        dsimp only [Option.bind_some]
        rw [returned]
        dsimp only [Option.bind_some]
        rw [converted_converted_add]
        exact ⟨count + 1, after, rfl, .more positive exchanged exchanges, sorted, by omega⟩
      · rw [if_neg inFirst]
        obtain ⟨i, found, iOther, iLess, value⟩ := settled.find_eq upTo
          (by rw [lastIs]; simpa using inPlace) (by rw [firstIs]; simpa using inFirst)
        obtain ⟨fronted, exchangedFirst, settledFronted, frontIs⟩ :=
          settled.exchangeOther iLess.le (by omega) value
        obtain ⟨between, exchanged, settledBetween⟩ := settledFronted.exchangeFirst upTo frontIs
        obtain ⟨count, after, returned, exchanges, sorted, atMost⟩ :=
          inductionHypothesis settledBetween (by omega)
        rw [found]
        dsimp only
        rw [moveToTail_other iOther (by omega) iLess.ne (by omega) (by omega), exchangedFirst]
        dsimp only [Option.bind_some]
        rw [exchanged]
        dsimp only [Option.bind_some]
        rw [returned]
        dsimp only [Option.bind_some]
        rw [converted_converted_add]
        exact ⟨count + 2, after, rfl, .more iOther exchangedFirst
          (.more (by omega) exchanged exchanges), sorted, by omega⟩

/-- Every arrangement is brought in order, by as many exchanges with the first element as are
counted. -/
theorem sort_counted (permutation : orders ~ counted n) :
    ∃ count : Nat, sort n orders = some (counted n, converted 32 count) ∧
      Exchanges count orders (counted n) ∧ count ≤ 2 * n - 3 := by
  have settled : Settled n n orders := ⟨permutation, fun place above inside => by omega⟩
  obtain ⟨count, after, returned, exchanges, sorted, atMost⟩ := sort_spec settled (Nat.le_refl n)
  rw [sorted.eq_counted] at returned exchanges
  exact ⟨count, returned, exchanges, atMost⟩

theorem sort_counted_fourNumbers :
    ∃ count : Nat, sort 4 [2, 3, 4, 1] = some ([1, 2, 3, 4], converted 32 count) ∧
      Exchanges count [2, 3, 4, 1] [1, 2, 3, 4] ∧ count ≤ 5 :=
  @sort_counted [2, 3, 4, 1] 4 (by decide)

/-- The bound is reached. -/
example : sort 4 [2, 3, 4, 1] = some ([1, 2, 3, 4], 5) := by decide

end ExchangeOrders

end StdPrograms.Hobbies

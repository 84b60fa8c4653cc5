import Mathlib.Algebra.Order.Ring.Int
import Mathlib.Data.List.Sort
import Mathlib.Order.Bounds.Basic
import Mathlib.Tactic.Ring
import StdPrograms.Foundation.CountedLoop
import StdPrograms.Foundation.Parts
import StdPrograms.Foundation.Sorting

/-!
Contract: the fewest coins for an amount.

Owns `coinChange`, a search with two cuts, and `coinChangeDP`, a table, of
`solution_322.cpp`, with numbers of any size.

Does not own what the two return with a coin that is zero or negative.
-/

namespace StdPrograms.Hobbies

open StdPrograms.Foundation

namespace CoinChange

/-! ### The search -/

/-- The test that ends the loop, from the coin before the last one. -/
def cutOff (k x mink : Int) : Option Int → Option Bool
  | none => some false
  | some y => if y = 0 then none else some (decide (mink ≤ k + (x + y - 1).tdiv y))

/-- The loop over `k`, downwards: one more round is left than `k`. -/
def coinChangeLoop (shorter : Int → Option Int) (previous : Option Int) (last v : Int) :
    Nat → Int → Option Int
  | 0, mink => some mink
  | k + 1, mink => do
      let x := v - k * last
      if ← cutOff k x mink previous then return mink
      else
        let n ← shorter x
        coinChangeLoop shorter previous last v k (if 0 ≤ n then min mink (n + k) else mink)

/-- The coins from `beg` to `end` are listed backwards. -/
def coinChangeRange : List Int → Int → Option Int
  | [], v => if v = 0 then some 0 else some (-1)
  | last :: before, v =>
      if v = 0 then some 0
      else if last = 0 then none
      else
        let steps := v.tdiv last
        if v.tmod last = 0 then some steps
        else do
          let mink ← coinChangeLoop (coinChangeRange before) before.head? last v
            (steps + 1).toNat (v + 1)
          return if v < mink then -1 else mink

/-- The coins are left sorted. -/
def coinChange (coins : List Int) (amount : Int) : Option (List Int × Int) := do
  let coins := coins.mergeSort fun left right => decide (left ≤ right)
  let result ← coinChangeRange coins.reverse amount
  return (coins, result)

/-! ### The table -/

/-- The body of the inner loop. -/
def relax (i : Nat) (steps : List Int) (coin : Int) : Option (List Int) :=
  if coin ≤ i then do
    let before ← steps[(i - coin).toNat]?
    let now ← steps[i]?
    return steps.set i (min (before + 1) now)
  else some steps

def coinChangeDP (coins : List Int) (amount : Int) : Option Int :=
  if amount < 0 then none
  else do
    let steps := (List.replicate (amount + 1).toNat (amount + 1)).set 0 0
    let steps ← forLoop 1 amount.toNat (fun steps i => coins.foldlM (relax i) steps) steps
    let last ← steps[amount.toNat]?
    return if amount < last then -1 else last

/-! ### Payments -/

def Pays (coins : List Int) (amount : Int) (count : Nat) : Prop :=
  Makes {coin | coin ∈ coins} amount count

/-- What there is to return. -/
def Fewest (coins : List Int) (amount result : Int) : Prop :=
  (∃ number : Nat, IsLeast {count | Pays coins amount count} number ∧ result = number) ∨
    (∀ count, ¬ Pays coins amount count) ∧ result = -1

/-- The sentinel, or the size of a payment. -/
def Reached (coins : List Int) (amount sentinel best : Int) : Prop :=
  best = sentinel ∨ ∃ count : Nat, best = count ∧ Pays coins amount count

theorem pays_cons {coin : Int} {coins : List Int} {amount : Int} {count : Nat} :
    Pays (coin :: coins) amount count ↔
      Makes (insert coin {other | other ∈ coins}) amount count := by
  have sets : {other | other ∈ coin :: coins} = insert coin {other | other ∈ coins} :=
    Set.ext fun other => List.mem_cons
  rw [Pays, sets]

theorem fewest_congr {left right : List Int} (same : ∀ coin, coin ∈ left ↔ coin ∈ right)
    (amount result : Int) : Fewest left amount result ↔ Fewest right amount result := by
  have sets : {coin | coin ∈ left} = {coin | coin ∈ right} := Set.ext same
  simp only [Fewest, Pays, sets]

theorem fewest_zero (coins : List Int) : Fewest coins 0 0 :=
  Or.inl ⟨0, ⟨Makes.none, fun count _ => Nat.zero_le count⟩, rfl⟩

theorem fewest_nil {v : Int} (nonzero : v ≠ 0) : Fewest [] v (-1) := by
  refine Or.inr ⟨fun count pays => ?_, rfl⟩
  cases pays with
  | none => exact nonzero rfl
  | add taken _ => simp at taken

section

variable {coins : List Int}

/-- A payment with positive coins has no more coins than the amount. -/
theorem count_le (positive : ∀ coin ∈ coins, 0 < coin) {amount : Int} {count : Nat}
    (pays : Pays coins amount count) : (count : Int) ≤ amount := by
  have bound := pays.le_of_le_forall positive
  simpa using bound

theorem fewest_of_least (positive : ∀ coin ∈ coins, 0 < coin) {v best : Int}
    (least : ∀ count, Pays coins v count → best ≤ count)
    (reached : Reached coins v (v + 1) best) :
    Fewest coins v (if v < best then -1 else best) := by
  split
  next beyond =>
    refine Or.inr ⟨fun count pays => ?_, rfl⟩
    have small := count_le positive pays
    have large := least count pays
    omega
  next within =>
    rcases reached with sentinel | ⟨count, rfl, pays⟩
    · omega
    · refine Or.inl ⟨count, ⟨pays, fun other otherPays => ?_⟩, rfl⟩
      exact Int.ofNat_le.mp (least other otherPays)

end

/-! ### Correctness of the search -/

theorem cutOff_spec (k x mink : Int) {previous : Option Int}
    (positive : ∀ y, previous = some y → 0 < y) :
    ∃ cut, cutOff k x mink previous = some cut ∧
      (cut = true ↔ ∃ y, previous = some y ∧ mink ≤ k + (x + y - 1).tdiv y) := by
  cases previous with
  | none => exact ⟨false, rfl, by simp⟩
  | some y =>
      have nonzero : y ≠ 0 := Int.ne_of_gt (positive y rfl)
      exact ⟨decide (mink ≤ k + (x + y - 1).tdiv y), by simp [cutOff, nonzero], by simp⟩

section

variable {before : List Int} {last v : Int}

/-- With at most `k` of the last coin, the others are at least as many as the bound says. -/
theorem bound_le {y k : Int} (xNonnegative : 0 ≤ v - k * last) (yPositive : 0 < y)
    (yLe : y ≤ last) (greatest : ∀ coin ∈ before, coin ≤ y) {copies others : Nat}
    (fewer : (copies : Int) ≤ k) (pays : Pays before (v - copies * last) others) :
    k + (v - k * last + y - 1).tdiv y ≤ copies + others := by
  have total := pays.le_of_forall_le greatest
  rw [nsmul_eq_mul] at total
  have exchanged : (k - copies) * y ≤ (k - copies) * last :=
    Int.mul_le_mul_of_nonneg_left yLe (by omega)
  have below : v - k * last + y - 1 < (copies + others - k + 1) * y := by
    have expanded : (copies + others - k + 1) * y = others * y - (k - copies) * y + y := by ring
    have remaining : v - copies * last = v - k * last + (k - copies) * last := by ring
    rw [expanded]
    omega
  rw [Int.tdiv_eq_ediv_of_nonneg (by omega)]
  have quotient := Int.ediv_lt_of_lt_mul yPositive below
  omega

theorem pays_copies {copies others : Nat} (pays : Pays before (v - copies * last) others) :
    Pays (last :: before) v (others + copies) := by
  rw [pays_cons]
  have larger := (pays.mono (Set.subset_insert last _)).add_copies
    (Set.mem_insert last {coin | coin ∈ before}) copies
  rwa [nsmul_eq_mul, Int.sub_add_cancel] at larger

/-- What the round for `k` leaves in `mink`. -/
theorem round_least {k : Nat} {mink n : Int} (nIs : Fewest before (v - k * last) n)
    (covered : ∀ copies others : Nat, k + 1 ≤ copies →
      Pays before (v - copies * last) others → mink ≤ copies + others)
    {copies others : Nat} (enough : k ≤ copies) (pays : Pays before (v - copies * last) others) :
    (if 0 ≤ n then min mink (n + k) else mink) ≤ copies + others := by
  rcases Nat.lt_or_eq_of_le enough with more | rfl
  · have above := covered copies others more pays
    split
    next => omega
    next => exact above
  · rcases nIs with ⟨number, ⟨_, least⟩, rfl⟩ | ⟨noPayment, _⟩
    · have fewest : number ≤ others := least pays
      rw [if_pos (Int.natCast_nonneg number)]
      omega
    · exact absurd pays (noPayment others)

theorem round_reached {k : Nat} {mink n sentinel : Int} (nIs : Fewest before (v - k * last) n)
    (reached : Reached (last :: before) v sentinel mink) :
    Reached (last :: before) v sentinel (if 0 ≤ n then min mink (n + k) else mink) := by
  rcases nIs with ⟨number, ⟨pays, _⟩, rfl⟩ | ⟨_, rfl⟩
  · rw [if_pos (Int.natCast_nonneg number)]
    rcases min_choice mink (number + k) with isMink | isNew
    · rwa [isMink]
    · rw [isNew]
      exact Or.inr ⟨number + k, (Int.natCast_add number k).symm, pays_copies pays⟩
  · exact reached

theorem coinChangeLoop_spec {shorter : Int → Option Int} (lastPositive : 0 < last)
    (previousIs : ∀ y, before.head? = some y →
      0 < y ∧ y ≤ last ∧ ∀ coin ∈ before, coin ≤ y)
    (shorterIs : ∀ x, 0 ≤ x → ∃ n, shorter x = some n ∧ Fewest before x n)
    {sentinel : Int} (rounds : Nat) {mink : Int} (fits : rounds * last ≤ v + last)
    (covered : ∀ copies others : Nat, rounds ≤ copies →
      Pays before (v - copies * last) others → mink ≤ copies + others)
    (reached : Reached (last :: before) v sentinel mink) :
    ∃ best, coinChangeLoop shorter before.head? last v rounds mink = some best ∧
      (∀ copies others : Nat, Pays before (v - copies * last) others →
        best ≤ copies + others) ∧
      Reached (last :: before) v sentinel best := by
  induction rounds generalizing mink with
  | zero =>
      exact ⟨mink, rfl, fun copies others => covered copies others (Nat.zero_le copies), reached⟩
  | succ k inductionHypothesis =>
      rw [Int.natCast_add, Int.add_mul, Int.natCast_one, Int.one_mul] at fits
      have xNonnegative : 0 ≤ v - k * last := by omega
      obtain ⟨cut, cutIs, cutIff⟩ :=
        cutOff_spec k (v - k * last) mink fun y headIs => (previousIs y headIs).1
      cases cut with
      | true =>
          obtain ⟨y, headIs, bound⟩ := cutIff.mp rfl
          obtain ⟨yPositive, yLe, greatest⟩ := previousIs y headIs
          refine ⟨mink, by simp [coinChangeLoop, cutIs], fun copies others pays => ?_, reached⟩
          rcases Nat.lt_or_ge k copies with more | fewer
          · exact covered copies others more pays
          · exact bound.trans (bound_le xNonnegative yPositive yLe greatest
              (Int.ofNat_le.mpr fewer) pays)
      | false =>
          obtain ⟨n, nReturned, nIs⟩ := shorterIs (v - k * last) xNonnegative
          obtain ⟨best, bestIs, least, bestReached⟩ := inductionHypothesis (by omega)
            (fun copies others => round_least nIs covered) (round_reached nIs reached)
          exact ⟨best, by simp [coinChangeLoop, cutIs, nReturned, bestIs], least, bestReached⟩

end

/-- Copies of the greatest coin are fewest when they make the amount. -/
theorem fewest_of_tmod {last v : Int} {before : List Int} (lastPositive : 0 < last)
    (greatest : ∀ coin ∈ before, coin ≤ last) (nonnegative : 0 ≤ v)
    (divides : v.tmod last = 0) : Fewest (last :: before) v (v.tdiv last) := by
  obtain ⟨number, numberIs⟩ := Int.eq_ofNat_of_zero_le (Int.tdiv_nonneg nonnegative lastPositive.le)
  have vIs : v = number * last := by
    have division := Int.tdiv_mul_add_tmod v last
    rw [divides, numberIs, Int.add_zero] at division
    exact division.symm
  refine Or.inl ⟨number, ⟨?_, fun count pays => ?_⟩, numberIs⟩
  · have copies := Makes.none.add_copies (Set.mem_insert last {coin | coin ∈ before}) number
    rw [zero_add, Nat.zero_add, nsmul_eq_mul, ← vIs] at copies
    exact pays_cons.mpr copies
  · have atMost : ∀ coin ∈ last :: before, coin ≤ last := by
      simpa using greatest
    have bound := pays.le_of_forall_le atMost
    rw [nsmul_eq_mul, vIs] at bound
    exact Int.ofNat_le.mp (le_of_mul_le_mul_right bound lastPositive)

theorem head_greatest {before : List Int} {last : Int}
    (greatest : ∀ coin ∈ before, coin ≤ last)
    (descending : before.Pairwise fun later earlier => earlier ≤ later)
    (positive : ∀ coin ∈ before, 0 < coin) {y : Int} (headIs : before.head? = some y) :
    0 < y ∧ y ≤ last ∧ ∀ coin ∈ before, coin ≤ y := by
  obtain ⟨earlier, rfl⟩ := List.head?_eq_some_iff.mp headIs
  refine ⟨positive y List.mem_cons_self, greatest y List.mem_cons_self, ?_⟩
  simpa using (List.pairwise_cons.mp descending).1

/-- Before the first round: with so many of the last coin the amount is exceeded. -/
theorem covered_first {before : List Int} {last v : Int} (lastPositive : 0 < last)
    (positive : ∀ coin ∈ before, 0 < coin) {copies others : Nat}
    (more : v / last + 1 ≤ copies) (pays : Pays before (v - copies * last) others) :
    v + 1 ≤ copies + others := by
  have exceeds := Int.lt_ediv_add_one_mul_self v lastPositive
  have larger : (v / last + 1) * last ≤ copies * last :=
    Int.mul_le_mul_of_nonneg_right more lastPositive.le
  have small := count_le positive pays
  omega

/-- The loop, from its first round on. -/
theorem coinChangeLoop_least {before : List Int} {last v : Int} (lastPositive : 0 < last)
    (greatest : ∀ coin ∈ before, coin ≤ last)
    (descending : before.Pairwise fun later earlier => earlier ≤ later)
    (positive : ∀ coin ∈ before, 0 < coin) (nonnegative : 0 ≤ v)
    (shorterIs : ∀ x, 0 ≤ x → ∃ n, coinChangeRange before x = some n ∧ Fewest before x n) :
    ∃ best, coinChangeLoop (coinChangeRange before) before.head? last v
        (v.tdiv last + 1).toNat (v + 1) = some best ∧
      (∀ count, Pays (last :: before) v count → best ≤ count) ∧
      Reached (last :: before) v (v + 1) best := by
  have quotientIs : v.tdiv last = v / last := Int.tdiv_eq_ediv_of_nonneg nonnegative
  have quotientNonnegative : 0 ≤ v / last := Int.ediv_nonneg nonnegative lastPositive.le
  have roundsAre : (((v.tdiv last + 1).toNat : Nat) : Int) = v / last + 1 := by omega
  have fits : ((v.tdiv last + 1).toNat : Nat) * last ≤ v + last := by
    rw [roundsAre, Int.add_mul, Int.one_mul]
    exact Int.add_le_add_right (Int.ediv_mul_le v (Int.ne_of_gt lastPositive)) last
  obtain ⟨best, bestIs, least, reached⟩ :=
    coinChangeLoop_spec lastPositive (fun y => head_greatest greatest descending positive)
      shorterIs (v.tdiv last + 1).toNat fits
      (fun copies others more => covered_first lastPositive positive (by omega)) (Or.inl rfl)
  refine ⟨best, bestIs, fun count pays => ?_, reached⟩
  obtain ⟨copies, others, rest, makes, vIs, rfl⟩ := (pays_cons.mp pays).take_out
  rw [nsmul_eq_mul] at vIs
  have restIs : rest = v - copies * last := by omega
  have bound := least copies others (restIs ▸ makes)
  omega

theorem coinChangeRange_fewest {coins : List Int}
    (descending : coins.Pairwise fun later earlier => earlier ≤ later)
    (positive : ∀ coin ∈ coins, 0 < coin) {v : Int} (nonnegative : 0 ≤ v) :
    ∃ result, coinChangeRange coins v = some result ∧ Fewest coins v result := by
  induction coins generalizing v with
  | nil =>
      by_cases zero : v = 0
      · exact ⟨0, by simp [coinChangeRange, zero], by rw [zero]; exact fewest_zero []⟩
      · exact ⟨-1, by simp [coinChangeRange, zero], fewest_nil zero⟩
  | cons last before inductionHypothesis =>
      obtain ⟨greatest, beforeDescending⟩ := List.pairwise_cons.mp descending
      have lastPositive := positive last List.mem_cons_self
      have beforePositive : ∀ coin ∈ before, 0 < coin :=
        fun coin member => positive coin (List.mem_cons_of_mem last member)
      by_cases zero : v = 0
      · exact ⟨0, by simp [coinChangeRange, zero], by rw [zero]; exact fewest_zero _⟩
      have nonzero : last ≠ 0 := Int.ne_of_gt lastPositive
      by_cases divides : v.tmod last = 0
      · exact ⟨v.tdiv last, by simp [coinChangeRange, zero, nonzero, divides],
          fewest_of_tmod lastPositive greatest nonnegative divides⟩
      obtain ⟨best, bestIs, least, reached⟩ :=
        coinChangeLoop_least lastPositive greatest beforeDescending beforePositive nonnegative
          (fun x xNonnegative => inductionHypothesis beforeDescending beforePositive xNonnegative)
      refine ⟨if v < best then -1 else best, ?_, fewest_of_least positive least reached⟩
      simp only [coinChangeRange, zero, nonzero, divides, ↓reduceIte, bestIs,
        Option.bind_eq_bind, Option.bind_some]
      rfl

theorem coinChange_fewest {coins : List Int} (positive : ∀ coin ∈ coins, 0 < coin)
    {amount : Int} (nonnegative : 0 ≤ amount) :
    ∃ sorted result, coinChange coins amount = some (sorted, result) ∧
      sorted.Perm coins ∧ Fewest coins amount result := by
  have permutation := List.mergeSort_perm coins fun left right => decide (left ≤ right)
  have ascending := pairwise_mergeSort_le coins
  obtain ⟨result, resultIs, fewest⟩ :=
    @coinChangeRange_fewest (coins.mergeSort fun left right => decide (left ≤ right)).reverse
      (by simpa [List.pairwise_reverse] using ascending)
      (fun coin member => positive coin (permutation.mem_iff.mp (List.mem_reverse.mp member)))
      amount nonnegative
  refine ⟨_, result, by simp [coinChange, resultIs], permutation, ?_⟩
  exact (fewest_congr (fun coin => List.mem_reverse.trans permutation.mem_iff) amount result).mp
    fewest

/-! ### Correctness of the table -/

section

variable {coins : List Int}

theorem pays_inv {amount : Int} {count : Nat} (pays : Pays coins amount count) :
    amount = 0 ∧ count = 0 ∨
      ∃ coin ∈ coins, ∃ fewer, Pays coins (amount - coin) fewer ∧ count = fewer + 1 := by
  cases pays with
  | none => exact Or.inl ⟨rfl, rfl⟩
  | @add coin total fewer taken rest =>
      refine Or.inr ⟨coin, taken, fewer, ?_, rfl⟩
      rwa [Pays, Int.add_sub_cancel]

/-- The entry of the table for an amount is as it should be. -/
def Entry (coins : List Int) (sentinel : Int) (steps : List Int) (i : Nat) : Prop :=
  ∃ best, steps[i]? = some best ∧ (∀ count, Pays coins i count → best ≤ count) ∧
    Reached coins i sentinel best ∧ best ≤ sentinel

variable {sentinel : Int} {steps : List Int} {i : Nat}

theorem relax_spec (positive : ∀ coin ∈ coins, 0 < coin)
    (earlier : ∀ j < i, Entry coins sentinel steps j) (bound : i < steps.length) {now coin : Int}
    (member : coin ∈ coins) (reached : Reached coins i sentinel now) (within : now ≤ sentinel) :
    ∃ after, relax i (steps.set i now) coin = some (steps.set i after) ∧
      Reached coins i sentinel after ∧ after ≤ now ∧
      ∀ count, Pays coins (i - coin) count → after ≤ count + 1 := by
  have coinPositive := positive coin member
  by_cases fits : coin ≤ i
  · obtain ⟨j, jIs⟩ := Int.eq_ofNat_of_zero_le (by omega : 0 ≤ (i : Int) - coin)
    have jBelow : j < i := by omega
    obtain ⟨best, bestIs, least, bestReached, _⟩ := earlier j jBelow
    have readBefore : (steps.set i now)[((i : Int) - coin).toNat]? = some best := by
      rw [jIs, Int.toNat_natCast, List.getElem?_set_ne (Nat.ne_of_gt jBelow), bestIs]
    have readNow : (steps.set i now)[i]? = some now := List.getElem?_set_self bound
    refine ⟨min (best + 1) now, ?_, ?_, min_le_right _ _, fun count pays => ?_⟩
    · simp [relax, fits, readBefore, readNow]
    · rcases min_choice (best + 1) now with isNew | isNow
      · rcases bestReached with isSentinel | ⟨count, isCount, pays⟩
        · have isNow : min (best + 1) now = now := by omega
          rwa [isNow]
        · rw [isNew, isCount]
          refine Or.inr ⟨count + 1, rfl, ?_⟩
          have longer : Pays coins ((j : Int) + coin) (count + 1) := Makes.add member pays
          rwa [← jIs, Int.sub_add_cancel] at longer
      · rwa [isNow]
    · rw [jIs] at pays
      have small := least count pays
      omega
  · refine ⟨now, by simp [relax, fits], reached, le_refl now, fun count pays => ?_⟩
    have small := count_le positive pays
    omega

theorem relax_all (positive : ∀ coin ∈ coins, 0 < coin)
    (earlier : ∀ j < i, Entry coins sentinel steps j) (bound : i < steps.length)
    (listed : List Int) (members : ∀ coin ∈ listed, coin ∈ coins) {now : Int}
    (reached : Reached coins i sentinel now) (within : now ≤ sentinel) :
    ∃ final, listed.foldlM (relax i) (steps.set i now) = some (steps.set i final) ∧
      Reached coins i sentinel final ∧ final ≤ now ∧
      ∀ coin ∈ listed, ∀ count, Pays coins (i - coin) count → final ≤ count + 1 := by
  induction listed generalizing now with
  | nil => exact ⟨now, rfl, reached, le_refl now, by simp⟩
  | cons coin listed inductionHypothesis =>
      obtain ⟨after, afterIs, afterReached, lower, afterLeast⟩ :=
        relax_spec positive earlier bound (members coin List.mem_cons_self) reached within
      obtain ⟨final, finalIs, finalReached, finalLower, finalLeast⟩ :=
        inductionHypothesis (fun other member => members other (List.mem_cons_of_mem coin member))
          afterReached (lower.trans within)
      refine ⟨final, ?_, finalReached, finalLower.trans lower, fun other member count pays => ?_⟩
      · rw [List.foldlM_cons, afterIs, Option.bind_eq_bind, Option.bind_some, finalIs]
      · rcases List.mem_cons.mp member with rfl | later
        · exact finalLower.trans (afterLeast count pays)
        · exact finalLeast other later count pays

/-- What holds of the table when the entries up to `done` have been computed. -/
structure Filled (coins : List Int) (amount done : Nat) (steps : List Int) : Prop where
  size : steps.length = amount + 1
  computed : ∀ j ≤ done, Entry coins (amount + 1) steps j
  pending : ∀ j, done < j → j ≤ amount → steps[j]? = some ((amount : Int) + 1)

theorem filled_row (positive : ∀ coin ∈ coins, 0 < coin) {amount done : Nat}
    (more : done < amount) (filled : Filled coins amount done steps) :
    ∃ after, coins.foldlM (relax (1 + done)) steps = some after ∧
      Filled coins amount (done + 1) after := by
  rw [Nat.add_comm 1 done]
  have bound : done + 1 < steps.length := by
    rw [filled.size]
    omega
  have unchanged : steps.set (done + 1) ((amount : Int) + 1) = steps := by
    obtain ⟨inBounds, isSentinel⟩ :=
      List.getElem?_eq_some_iff.mp (filled.pending (done + 1) (Nat.lt_succ_self done) more)
    rw [← isSentinel, List.set_getElem_self]
  obtain ⟨final, finalIs, reached, within, least⟩ :=
    relax_all positive (fun j below => filled.computed j (Nat.lt_succ_iff.mp below)) bound coins
      (fun _ member => member) (Or.inl rfl) (le_refl ((amount : Int) + 1))
  rw [unchanged] at finalIs
  refine ⟨steps.set (done + 1) final, finalIs, ?_, fun j upTo => ?_, fun j above inside => ?_⟩
  · rw [List.length_set, filled.size]
  · rcases Nat.lt_or_eq_of_le upTo with below | rfl
    · obtain ⟨best, bestIs, entry⟩ := filled.computed j (Nat.lt_succ_iff.mp below)
      exact ⟨best, by rw [List.getElem?_set_ne (Nat.ne_of_gt below), bestIs], entry⟩
    · refine ⟨final, List.getElem?_set_self bound, fun count pays => ?_, reached, within⟩
      rcases pays_inv pays with ⟨zero, _⟩ | ⟨coin, member, fewer, rest, rfl⟩
      · omega
      · exact least coin member fewer rest
  · rw [List.getElem?_set_ne (Nat.ne_of_lt above)]
    exact filled.pending j (Nat.lt_of_succ_lt above) inside

theorem filled_first (amount : Nat) :
    Filled coins amount 0 ((List.replicate (amount + 1) ((amount : Int) + 1)).set 0 0) := by
  refine ⟨by simp, fun j upTo => ?_, fun j above inside => ?_⟩
  · obtain rfl := Nat.le_zero.mp upTo
    exact ⟨0, by simp, fun count _ => Int.natCast_nonneg count,
      Or.inr ⟨0, rfl, Makes.none⟩, by omega⟩
  · rw [List.getElem?_set_ne (Nat.ne_of_lt above), List.getElem?_replicate, if_pos (by omega)]

end

theorem coinChangeDP_fewest {coins : List Int} (positive : ∀ coin ∈ coins, 0 < coin)
    {amount : Int} (nonnegative : 0 ≤ amount) :
    ∃ result, coinChangeDP coins amount = some result ∧ Fewest coins amount result := by
  obtain ⟨total, rfl⟩ := Int.eq_ofNat_of_zero_le nonnegative
  obtain ⟨steps, stepsAre, filled⟩ :=
    @forLoop_spec _ (fun steps i => coins.foldlM (relax i) steps) 1 total _
      (Filled coins total) (filled_first total)
      (fun _ more _ filled => filled_row positive more filled)
  obtain ⟨best, bestIs, least, reached, _⟩ := filled.computed total (le_refl total)
  refine ⟨if total < best then -1 else best, ?_, fewest_of_least positive least reached⟩
  have size : ((total : Int) + 1).toNat = total + 1 := rfl
  have notNegative : ¬ (total : Int) < 0 := by omega
  simp only [coinChangeDP, notNegative, ↓reduceIte, size, Int.toNat_natCast, stepsAre,
    Option.bind_eq_bind, Option.bind_some, bestIs]
  rfl

/-! ### The two programs -/

theorem fewest_unique {coins : List Int} {amount left right : Int}
    (leftFewest : Fewest coins amount left) (rightFewest : Fewest coins amount right) :
    left = right := by
  rcases leftFewest with ⟨number, leftLeast, rfl⟩ | ⟨noPayment, rfl⟩
  · rcases rightFewest with ⟨other, rightLeast, rfl⟩ | ⟨noPayment, _⟩
    · rw [leftLeast.unique rightLeast]
    · exact absurd leftLeast.1 (noPayment number)
  · rcases rightFewest with ⟨other, rightLeast, rfl⟩ | ⟨_, rfl⟩
    · exact absurd rightLeast.1 (noPayment other)
    · rfl

/-- Both return the fewest coins for the amount, or -1. -/
theorem coinChange_agree {coins : List Int} (positive : ∀ coin ∈ coins, 0 < coin)
    {amount : Int} (nonnegative : 0 ≤ amount) :
    ∃ sorted result, coinChange coins amount = some (sorted, result) ∧
      coinChangeDP coins amount = some result ∧ Fewest coins amount result := by
  obtain ⟨sorted, result, searched, _, fewest⟩ := coinChange_fewest positive nonnegative
  obtain ⟨other, tabulated, otherFewest⟩ := coinChangeDP_fewest positive nonnegative
  obtain rfl := fewest_unique otherFewest fewest
  exact ⟨sorted, other, searched, tabulated, fewest⟩

theorem coinChange_agree_fourCoins :
    ∃ sorted result, coinChange [9, 8, 1] 32 = some (sorted, result) ∧
      coinChangeDP [9, 8, 1] 32 = some result ∧ Fewest [9, 8, 1] 32 result :=
  coinChange_agree (by decide) (by decide)

end CoinChange

end StdPrograms.Hobbies

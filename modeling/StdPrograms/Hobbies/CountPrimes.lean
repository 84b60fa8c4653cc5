import Mathlib.NumberTheory.PrimeCounting
import Mathlib.Tactic.IntervalCases
import Mathlib.Tactic.NormNum.Prime
import StdPrograms.Foundation.Bisection
import StdPrograms.Foundation.Sieve
import StdPrograms.Foundation.SignedInt

/-!
Contract: two counts of the primes below a number.

Owns `countPrimes` and `countPrimes2` of `solution_204.cpp` with integers that wrap, and for which
numbers each of them counts the primes; for the others an index leaves the vector.

Does not own a vector that cannot be allocated.
-/

namespace StdPrograms.Hobbies

open StdPrograms.Foundation

namespace CountPrimes

/-- `primes[j] = false;` -/
def clear (primes : List Bool) (j : Int) : Option (List Bool) :=
  if 0 ≤ j ∧ j < primes.length then some (primes.set j.toNat false) else none

/-- The loop over the multiples. -/
def markLoop (n i : Int) : Nat → Int → List Bool → Option (List Bool)
  | 0, _, _ => none
  | fuel + 1, j, primes =>
      if j < n then do
        let primes ← clear primes j
        markLoop n i fuel (converted 32 (j + i)) primes
      else some primes

def sieveLoop (n : Int) (markFuel : Nat) : Nat → Int → List Bool → Option (List Bool)
  | 0, _, _ => none
  | fuel + 1, i, primes =>
      if converted 32 (i * i) < n then do
        if ← entry primes i then
          let primes ← markLoop n i markFuel (converted 32 (i * i)) primes
          sieveLoop n markFuel fuel (converted 32 (i + 1)) primes
        else sieveLoop n markFuel fuel (converted 32 (i + 1)) primes
      else some primes

def countLoop (n : Int) (primes : List Bool) : Nat → Int → Int → Option Int
  | 0, _, _ => none
  | fuel + 1, i, count =>
      if i < n then do
        if ← entry primes i then
          countLoop n primes fuel (converted 32 (i + 1)) (converted 32 (count + 1))
        else countLoop n primes fuel (converted 32 (i + 1)) count
      else some count

def countPrimes (fuel : Nat) (n : Int) : Option Int :=
  if n < 0 then none
  else do
    let primes ← sieveLoop n fuel fuel 2 (List.replicate n.toNat true)
    countLoop n primes fuel 2 0

def countLoop2 (n : Int) (markFuel : Nat) : Nat → Int → Int → List Bool → Option Int
  | 0, _, _, _ => none
  | fuel + 1, i, count, primes =>
      if i < n then do
        if ← entry primes i then
          let primes ← markLoop n i markFuel (converted 32 (i * i)) primes
          countLoop2 n markFuel fuel (converted 32 (i + 1)) (converted 32 (count + 1)) primes
        else countLoop2 n markFuel fuel (converted 32 (i + 1)) count primes
      else some count

def countPrimes2 (fuel : Nat) (n : Int) : Option Int :=
  if n < 0 then none
  else countLoop2 n fuel fuel 2 0 (List.replicate n.toNat true)

/-! ### Marks -/

/-- Of the first `n` numbers those are left that no number below `k` has crossed out. -/
structure Sieved (n k : Nat) (primes : List Bool) : Prop where
  size : primes.length = n
  left_ : ∀ m < n, primes[m]? = some true ↔ ¬CrossedOut k m

variable {n k i j fuel : Nat} {primes after : List Bool}

theorem sieved_first (n : Nat) : Sieved n 2 (List.replicate n true) := by
  refine ⟨List.length_replicate, fun m inside => ?_⟩
  exact iff_of_true (by simp [inside]) not_crossedOut_two

theorem clear_of_lt (inside : j < primes.length) :
    clear primes j = some (primes.set j false) := by
  have bounds : 0 ≤ (j : Int) ∧ (j : Int) < primes.length := by omega
  rw [clear, if_pos bounds, Int.toNat_natCast]

theorem markLoop_of_neg {start : Int} (negative : start < 0) (fuel : Nat) :
    markLoop n i fuel start primes = none := by
  cases fuel with
  | zero => rfl
  | succ fuel =>
      have outside : ¬(0 ≤ start ∧ start < primes.length) := by omega
      rw [markLoop, if_pos (by omega), clear, if_neg outside]
      rfl

/-- Where the loop ends, the numbers of the progression are marked, and no others. -/
theorem markLoop_marks (size : primes.length = n) (inType : n < 2 ^ 31) (stepInType : i < 2 ^ 31)
    (startInType : j < 2 ^ 31) (returned : markLoop n i fuel j primes = some after) :
    after.length = n ∧ ∀ m < n, after[m]? = some true ↔
      primes[m]? = some true ∧ ¬(j ≤ m ∧ i ∣ m - j) := by
  induction fuel generalizing j primes with
  | zero => cases returned
  | succ fuel inductionHypothesis =>
      rw [markLoop] at returned
      split at returned
      next inside =>
        have below : j < n := by omega
        rw [clear_of_lt (by omega)] at returned
        dsimp only [Option.bind_eq_bind, Option.bind_some] at returned
        have held : j + i < 2 ^ 31 := by
          by_contra overflows
          have wrapped : converted 32 ((j : Int) + i) < 0 := by
            rw [converted]
            omega
          rw [markLoop_of_neg wrapped] at returned
          cases returned
        rw [← Nat.cast_add, converted_natCast (by decide) held] at returned
        obtain ⟨sameSize, marks⟩ :=
          inductionHypothesis ((List.length_set).trans size) held returned
        refine ⟨sameSize, fun m inRange => ?_⟩
        rw [marks m inRange, List.getElem?_set, @progression_iff m j i]
        by_cases here : j = m
        · simp [here]
        · simp [here, Ne.symm here]
      next ended =>
        obtain rfl := Option.some.inj returned
        refine ⟨size, fun m inRange => ?_⟩
        rw [and_iff_left fun both => absurd both.1 (by omega)]

/-- The loop ends where its counter stays in the type. -/
theorem markLoop_ends (size : primes.length = n) (positive : 0 < i) (fits : n + i ≤ 2 ^ 31)
    (enough : n - j < fuel) : ∃ after, markLoop n i fuel j primes = some after := by
  induction fuel generalizing j primes with
  | zero => exact absurd enough (Nat.not_lt_zero _)
  | succ fuel inductionHypothesis =>
      rw [markLoop]
      split
      next inside =>
        rw [clear_of_lt (by omega)]
        dsimp only [Option.bind_eq_bind, Option.bind_some]
        rw [← Nat.cast_add, converted_natCast (by decide) (by omega)]
        exact inductionHypothesis ((List.length_set).trans size) (by omega)
      next ended => exact ⟨primes, rfl⟩

theorem Sieved.next_of_not_prime (sieved : Sieved n k primes) (atLeast : 2 ≤ k)
    (notPrime : ¬k.Prime) : Sieved n (k + 1) primes := by
  have crossed : CrossedOut k k := by
    by_contra left_
    exact notPrime ((not_crossedOut_self_iff atLeast).mp left_)
  refine ⟨sieved.size, fun m inside => ?_⟩
  rw [sieved.left_ m inside, crossedOut_succ_of_crossedOut crossed]

theorem Sieved.next_of_marked (sieved : Sieved n k primes) (inType : n < 2 ^ 31) (atLeast : 2 ≤ k)
    (squareInType : k * k < 2 ^ 31)
    (returned : markLoop n k fuel (converted 32 ((k : Int) * k)) primes = some after) :
    Sieved n (k + 1) after := by
  rw [← Nat.cast_mul, converted_natCast (by decide) squareInType] at returned
  obtain ⟨size, marks⟩ := markLoop_marks sieved.size inType
    (Nat.lt_of_le_of_lt (Nat.le_mul_self k) squareInType) squareInType returned
  refine ⟨size, fun m inside => ?_⟩
  rw [marks m inside, sieved.left_ m inside, square_progression_iff, crossedOut_succ atLeast,
    not_or]

theorem Sieved.entry_eq (sieved : Sieved n k primes) {m : Nat} (inside : m < n)
    (decided : ¬CrossedOut k m ↔ m.Prime) : entry primes m = some (decide m.Prime) := by
  have inVector : m < primes.length := by
    rw [sieved.size]
    exact inside
  have here := sieved.left_ m inside
  rw [List.getElem?_eq_getElem inVector, Option.some.injEq, decided] at here
  rw [entry_natCast, List.getElem?_eq_getElem inVector, Option.some.injEq, Bool.eq_iff_iff, here,
    decide_eq_true_eq]

/-- At its turn a number is left if it is prime, and the turn of any other one changes nothing. -/
theorem Sieved.turn (sieved : Sieved n k primes) (atLeast : 2 ≤ k) (inside : k < n) :
    k.Prime ∧ entry primes k = some true ∨
      ¬k.Prime ∧ entry primes k = some false ∧ Sieved n (k + 1) primes := by
  have loaded := sieved.entry_eq inside (not_crossedOut_self_iff atLeast)
  by_cases prime : k.Prime
  · rw [decide_eq_true prime] at loaded
    exact .inl ⟨prime, loaded⟩
  · rw [decide_eq_false prime] at loaded
    exact .inr ⟨prime, loaded, sieved.next_of_not_prime atLeast prime⟩

/-! ### Where the squares fit -/

/-- The number of primes, as the loops count it. -/
theorem converted_primeCounting' (small : k < 2 ^ 31 - 1) (prime : k.Prime) :
    converted 32 ((k.primeCounting' : Int) + 1) = (k + 1).primeCounting' := by
  have atMost : Nat.count Nat.Prime k ≤ k := Nat.count_le Nat.Prime
  have held : Nat.count Nat.Prime k + 1 < 2 ^ 31 := by omega
  rw [Nat.primeCounting', Nat.count_succ, if_pos prime]
  exact converted_natCast (by decide) held

theorem primeCounting'_succ_of_not_prime (notPrime : ¬k.Prime) :
    (k + 1).primeCounting' = k.primeCounting' := by
  rw [Nat.primeCounting', Nat.count_succ, if_neg notPrime, Nat.add_zero]

theorem sieveLoop_spec (sieved : Sieved n k primes) (atLeast : 2 ≤ k) (small : n ≤ 46340 ^ 2)
    (inRange : k ≤ 46340) {markFuel : Nat} (enoughMarks : n < markFuel) (enough : n - k < fuel) :
    ∃ after bound, sieveLoop n markFuel fuel k primes = some after ∧ Sieved n bound after ∧
      n ≤ bound * bound := by
  induction fuel generalizing k primes with
  | zero => exact absurd enough (Nat.not_lt_zero _)
  | succ fuel inductionHypothesis =>
      have square := Nat.mul_le_mul inRange inRange
      have squareInType : k * k < 2 ^ 31 := by omega
      have squareIs : converted 32 ((k : Int) * k) = (k * k : Nat) :=
        converted_natCast (by decide) squareInType
      rw [sieveLoop]
      split
      next running =>
        rw [squareIs] at running
        have below : k * k < n := by omega
        have inside : k < n := Nat.lt_of_le_of_lt (Nat.le_mul_self k) below
        have notLast : k ≠ 46340 := by
          rintro rfl
          omega
        rw [converted_succ (by decide) (show k + 1 < 2 ^ 31 by omega)]
        rcases sieved.turn atLeast inside with ⟨-, loaded⟩ | ⟨-, loaded, next⟩
        · obtain ⟨after, returned⟩ := @markLoop_ends n k (k * k) markFuel primes sieved.size
            (by omega) (by omega) (by omega)
          rw [← squareIs] at returned
          have next := sieved.next_of_marked (by omega) atLeast squareInType returned
          rw [loaded]
          dsimp only [Option.bind_eq_bind, Option.bind_some]
          rw [if_pos rfl, returned]
          exact inductionHypothesis next (by omega) (by omega) (by omega)
        · rw [loaded]
          exact inductionHypothesis next (by omega) (by omega) (by omega)
      next ended =>
        rw [squareIs] at ended
        exact ⟨primes, k, rfl, sieved, by omega⟩

/-- Once the primes are left, the others being crossed out, they are counted. -/
theorem countLoop_spec (inType : n < 2 ^ 31) {bound : Nat} (sieved : Sieved n bound primes)
    (all : n ≤ bound * bound) (atLeast : 2 ≤ k) (inRange : k ≤ n) (enough : n - k < fuel) :
    countLoop n primes fuel k k.primeCounting' = some n.primeCounting' := by
  induction fuel generalizing k with
  | zero => exact absurd enough (Nat.not_lt_zero _)
  | succ fuel inductionHypothesis =>
      rw [countLoop]
      split
      next running =>
        have inside : k < n := by omega
        have decided := not_crossedOut_iff_prime atLeast (Nat.lt_of_lt_of_le inside all)
        rw [converted_succ (by decide) (show k + 1 < 2 ^ 31 by omega),
          sieved.entry_eq inside decided]
        dsimp only [Option.bind_eq_bind, Option.bind_some]
        by_cases prime : k.Prime
        · rw [if_pos (decide_eq_true prime), converted_primeCounting' (by omega) prime]
          exact inductionHypothesis (by omega) (by omega) (by omega)
        · rw [if_neg (by simpa using prime), ← primeCounting'_succ_of_not_prime prime]
          exact inductionHypothesis (by omega) (by omega) (by omega)
      next ended =>
        obtain rfl : k = n := by omega
        rfl

/-- The numbers from 46341 to 46348 have squares that leave the type, but are not prime. -/
theorem le_of_prime {p : Nat} (prime : p.Prime) (small : p < 46349) : p ≤ 46340 := by
  by_contra large
  have notPrime : ¬p.Prime := by
    have lower : 46341 ≤ p := by omega
    interval_cases p <;> norm_num
  exact notPrime prime

theorem countLoop2_spec (sieved : Sieved n k primes) (atLeast : 2 ≤ k) (small : n ≤ 46349)
    (inRange : k ≤ n) {markFuel : Nat} (enoughMarks : n < markFuel) (enough : n - k < fuel) :
    countLoop2 n markFuel fuel k k.primeCounting' primes = some n.primeCounting' := by
  induction fuel generalizing k primes with
  | zero => exact absurd enough (Nat.not_lt_zero _)
  | succ fuel inductionHypothesis =>
      rw [countLoop2]
      split
      next running =>
        have inside : k < n := by omega
        rw [converted_succ (by decide) (show k + 1 < 2 ^ 31 by omega)]
        rcases sieved.turn atLeast inside with ⟨prime, loaded⟩ | ⟨notPrime, loaded, next⟩
        · have root := le_of_prime prime (by omega)
          have square := Nat.mul_le_mul root root
          have squareInType : k * k < 2 ^ 31 := by omega
          obtain ⟨after, returned⟩ := @markLoop_ends n k (k * k) markFuel primes sieved.size
            (by omega) (by omega) (by omega)
          rw [← converted_natCast (Nat.zero_lt_succ 31) squareInType, Nat.cast_mul] at returned
          have next := sieved.next_of_marked (by omega) atLeast squareInType returned
          rw [loaded]
          dsimp only [Option.bind_eq_bind, Option.bind_some]
          rw [if_pos rfl, returned, converted_primeCounting' (by omega) prime]
          exact inductionHypothesis next (by omega) (by omega) (by omega)
        · rw [loaded, ← primeCounting'_succ_of_not_prime notPrime]
          exact inductionHypothesis next (by omega) (by omega) (by omega)
      next ended =>
        obtain rfl : k = n := by omega
        rfl

/-! ### Where a square wraps -/

theorem square_wraps (large : 46340 < k) (small : k ≤ 46349) :
    converted 32 ((k : Int) * k) < 0 := by
  have least := Nat.mul_le_mul (Nat.succ_le_of_lt large) (Nat.succ_le_of_lt large)
  have greatest := Nat.mul_le_mul small small
  rw [← Nat.cast_mul, converted]
  omega

/-- No turn after that of 46349 begins: it is prime, and its square wraps to a negative index. -/
theorem Sieved.turn_until (sieved : Sieved n k primes) (atLeast : 2 ≤ k) (upTo : k ≤ 46349)
    (large : 46349 < n) (inType : n < 2 ^ 31) (markFuel : Nat) :
    (entry primes k = some true ∧ ∀ after,
      markLoop n k markFuel (converted 32 ((k : Int) * k)) primes = some after →
        k < 46349 ∧ Sieved n (k + 1) after) ∨
      entry primes k = some false ∧ k < 46349 ∧ Sieved n (k + 1) primes := by
  have isPrime : Nat.Prime 46349 := by norm_num
  rcases sieved.turn atLeast (Nat.lt_of_le_of_lt upTo large) with
    ⟨prime, loaded⟩ | ⟨notPrime, loaded, next⟩
  · refine .inl ⟨loaded, fun after returned => ?_⟩
    rcases Nat.lt_or_eq_of_le upTo with before | rfl
    · have root := le_of_prime prime before
      have square := Nat.mul_le_mul root root
      exact ⟨before, sieved.next_of_marked inType atLeast (by omega) returned⟩
    · rw [markLoop_of_neg (square_wraps (by decide) (Nat.le_refl 46349))] at returned
      cases returned
  · refine .inr ⟨loaded, Nat.lt_of_le_of_ne upTo ?_, next⟩
    rintro rfl
    exact notPrime isPrime

theorem countLoop2_leaves (sieved : Sieved n k primes) (atLeast : 2 ≤ k) (upTo : k ≤ 46349)
    (large : 46349 < n) (inType : n < 2 ^ 31) (markFuel fuel : Nat) (count : Int) :
    countLoop2 n markFuel fuel k count primes = none := by
  induction fuel generalizing k count primes with
  | zero => rfl
  | succ fuel inductionHypothesis =>
      rw [countLoop2, if_pos (by omega), converted_succ (by decide) (show k + 1 < 2 ^ 31 by omega)]
      rcases sieved.turn_until atLeast upTo large inType markFuel with
        ⟨loaded, marks⟩ | ⟨loaded, before, next⟩
      · rw [loaded]
        dsimp only [Option.bind_eq_bind, Option.bind_some]
        rw [if_pos rfl]
        cases returned : markLoop n k markFuel (converted 32 ((k : Int) * k)) primes with
        | none => rfl
        | some after =>
            obtain ⟨before, next⟩ := marks after returned
            exact inductionHypothesis next (by omega) (by omega) _
      · rw [loaded]
        exact inductionHypothesis next (by omega) (by omega) _

theorem sieveLoop_leaves (sieved : Sieved n k primes) (atLeast : 2 ≤ k) (upTo : k ≤ 46349)
    (large : 46340 ^ 2 < n) (inType : n < 2 ^ 31) (markFuel fuel : Nat) :
    sieveLoop n markFuel fuel k primes = none := by
  induction fuel generalizing k primes with
  | zero => rfl
  | succ fuel inductionHypothesis =>
      have running : converted 32 ((k : Int) * k) < n := by
        rcases Nat.lt_or_ge 46340 k with above | root
        · have negative := square_wraps above upTo
          omega
        · have square := Nat.mul_le_mul root root
          have held : k * k < 2 ^ 31 := by omega
          rw [← Nat.cast_mul, converted_natCast (by decide) held]
          omega
      rw [sieveLoop, if_pos running, converted_succ (by decide) (show k + 1 < 2 ^ 31 by omega)]
      rcases sieved.turn_until atLeast upTo (by omega) inType markFuel with
        ⟨loaded, marks⟩ | ⟨loaded, before, next⟩
      · rw [loaded]
        dsimp only [Option.bind_eq_bind, Option.bind_some]
        rw [if_pos rfl]
        cases returned : markLoop n k markFuel (converted 32 ((k : Int) * k)) primes with
        | none => rfl
        | some after =>
            obtain ⟨before, next⟩ := marks after returned
            exact inductionHypothesis next (by omega) (by omega)
      · rw [loaded]
        exact inductionHypothesis next (by omega) (by omega)

/-! ### Counting the primes -/

/-- With enough fuel the primes below the number are counted; no index leaves the vector. -/
def Counts (count : Nat → Int → Option Int) (n : Nat) : Prop :=
  ∃ enough, ∀ fuel ≥ enough, count fuel n = some (n.primeCounting' : Int)

theorem not_counts_of_none {count : Nat → Int → Option Int}
    (leaves : ∀ fuel, count fuel n = none) : ¬Counts count n := by
  rintro ⟨enough, counted⟩
  have returned := counted enough (Nat.le_refl enough)
  rw [leaves enough] at returned
  cases returned

/-- Below the first turn there is no prime. -/
theorem primeCounting'_of_le_two (small : n ≤ 2) : n.primeCounting' = 0 :=
  Nat.primeCounting'_eq_zero_iff.mpr small

theorem countPrimes2_leaves (large : 46349 < n) (inType : n < 2 ^ 31) (fuel : Nat) :
    countPrimes2 fuel n = none := by
  rw [countPrimes2, if_neg (by omega), Int.toNat_natCast]
  exact countLoop2_leaves (sieved_first n) (Nat.le_refl 2) (by decide) large inType fuel fuel 0

theorem countPrimes2_counts_iff (inType : n < 2 ^ 31) :
    Counts countPrimes2 n ↔ n ≤ 46349 := by
  constructor
  · intro counts
    by_contra large
    exact not_counts_of_none (countPrimes2_leaves (by omega) inType) counts
  · refine fun small => ⟨n + 1, fun fuel enough => ?_⟩
    rw [countPrimes2, if_neg (by omega), Int.toNat_natCast]
    rcases Nat.lt_or_ge n 2 with none_ | two
    · obtain ⟨more, rfl⟩ := Nat.exists_eq_add_of_le' (Nat.lt_of_lt_of_le (Nat.succ_pos n) enough)
      rw [countLoop2, if_neg (by omega), primeCounting'_of_le_two (by omega)]
      rfl
    · exact countLoop2_spec (sieved_first n) (Nat.le_refl 2) small two (by omega) (by omega)

theorem countPrimes_counts_iff (inType : n < 2 ^ 31) :
    Counts countPrimes n ↔ n ≤ 46340 ^ 2 := by
  constructor
  · intro counts
    by_contra large
    refine not_counts_of_none (fun fuel => ?_) counts
    rw [countPrimes, if_neg (by omega), Int.toNat_natCast]
    have leaves : sieveLoop n fuel fuel 2 (List.replicate n true) = none :=
      sieveLoop_leaves (sieved_first n) (Nat.le_refl 2) (by decide) (Nat.lt_of_not_le large)
        inType fuel fuel
    rw [leaves]
    rfl
  · refine fun small => ⟨n + 1, fun fuel enough => ?_⟩
    obtain ⟨after, bound, sieved, left_, all⟩ := sieveLoop_spec (sieved_first n) (Nat.le_refl 2)
      small (by decide) (show n < fuel by omega) (show n - 2 < fuel by omega)
    rw [countPrimes, if_neg (by omega), Int.toNat_natCast]
    refine Option.bind_eq_some_iff.mpr ⟨after, sieved, ?_⟩
    rcases Nat.lt_or_ge n 2 with none_ | two
    · obtain ⟨more, rfl⟩ := Nat.exists_eq_add_of_le' (Nat.lt_of_lt_of_le (Nat.succ_pos n) enough)
      rw [countLoop, if_neg (by omega), primeCounting'_of_le_two (by omega)]
      rfl
    · exact countLoop_spec inType left_ all (Nat.le_refl 2) two (by omega)

/-- The second count squares every prime below the number, the first one those up to its root. -/
theorem counts_iff (inType : n < 2 ^ 31) :
    Counts countPrimes n ∧ Counts countPrimes2 n ↔ n ≤ 46349 := by
  rw [countPrimes_counts_iff inType, countPrimes2_counts_iff inType]
  omega

theorem counts_iff_hundred : Counts countPrimes 100 ∧ Counts countPrimes2 100 :=
  (counts_iff (by decide)).mpr (by decide)

/-- The square of 46349, which is prime, leaves the type. -/
theorem counts_fails : ¬(Counts countPrimes 46350 ∧ Counts countPrimes2 46350) :=
  fun counts => not_counts_of_none (countPrimes2_leaves (by decide) (by decide)) counts.2

end CountPrimes

end StdPrograms.Hobbies

import Mathlib.Logic.Function.Basic
import StdPrograms.Foundation.CountedLoop
import StdPrograms.Foundation.Palindromes
import StdPrograms.Foundation.SignedInt

/-!
Contract: two searches for a longest palindrome in a string.

Owns `longestPalindrome`, which widens around every place, and `longestPalindrome3`, which
takes over radii from mirrored places, of `solution_5.cpp`, the text with separators that the
second one works on, and that both find a longest palindrome where all positions fit an `int`.

Does not own `longestPalindrome2`.
-/

namespace StdPrograms.Hobbies

open StdPrograms.Foundation

namespace LongestPalindrome

/-! ### `longestPalindrome` -/

/-- An inner loop. The first number is `low + 1`. -/
def expand (s : List Char) : Nat → Nat → Nat → Nat → Option (Nat × Nat)
  | 0, _, max_len, start => some (max_len, start)
  | low + 1, high, max_len, start =>
      if high < s.length ∧ s[low]? = s[high]? then do
        let length ← position 32 (high - low + 1)
        let next ← position 32 (high + 1)
        if max_len < length then expand s low next length low
        else expand s low next max_len start
      else some (max_len, start)

/-- The body of the outer loop, with the increment at its end. -/
def bothCentres (s : List Char) (best : Nat × Nat) (i : Nat) : Option (Nat × Nat) := do
  let even ← expand s i i best.1 best.2
  let high ← position 32 (i + 1)
  expand s i high even.1 even.2

def longestPalindrome (s : List Char) : Option (List Char) :=
  if s = [] then some []
  else do
    let best ← forLoop 1 (s.length - 1) (bothCentres s) (1, 0)
    return segment s best.2 best.1

/-- An inner loop finds each palindrome around the place where it begins. -/
theorem expand_spec {s : List Char} (counted : s.length < 2 ^ 31) {above high max_len start : Nat}
    (inner : PalindromeAt s above high) (known : high - above ≤ max_len)
    (best : PalindromeAt s start (start + max_len)) :
    ∃ max_len' start', expand s above high max_len start = some (max_len', start') ∧
      max_len ≤ max_len' ∧ PalindromeAt s start' (start' + max_len') ∧
      ∀ low' high', PalindromeAt s low' high' → low' + high' = above + high →
        high' - low' ≤ max_len' := by
  induction above generalizing high max_len start with
  | zero =>
      refine ⟨max_len, start, rfl, Nat.le_refl _, best, ?_⟩
      intro low' high' _ centre
      omega
  | succ low inductionHypothesis =>
      have ordered := inner.1
      rw [expand]
      by_cases same : high < s.length ∧ s[low]? = s[high]?
      · have outer := inner.widen same.1 same.2
        rw [if_pos same, position_of_lt (by omega), position_of_lt (by omega)]
        change ∃ max_len' start', (if max_len < high - low + 1 then
          expand s low (high + 1) (high - low + 1) low
          else expand s low (high + 1) max_len start) = some (max_len', start') ∧ _
        split
        next longer =>
          have place : low + (high - low + 1) = high + 1 := by omega
          obtain ⟨max_len', start', returned, more, found, all⟩ :=
            inductionHypothesis outer (by omega) (place ▸ outer)
          refine ⟨max_len', start', returned, by omega, found, ?_⟩
          intro low' high' wider centre
          exact all low' high' wider (by omega)
        next =>
          obtain ⟨max_len', start', returned, more, found, all⟩ :=
            inductionHypothesis outer (by omega) best
          refine ⟨max_len', start', returned, more, found, ?_⟩
          intro low' high' wider centre
          exact all low' high' wider (by omega)
      · rw [if_neg same]
        refine ⟨max_len, start, rfl, Nat.le_refl _, best, ?_⟩
        intro low' high' wider centre
        by_contra greater
        have step := @PalindromeAt.narrow _ _ low' high' wider (low - low') (by omega)
        rw [show low' + (low - low') = low by omega,
          show high' - (low - low') = high + 1 by omega] at step
        exact same ⟨step.1.2, step.ends (by omega)⟩

/-- The best palindrome of those with a centre before the given one. -/
def BestBefore (s : List Char) (centre : Nat) (best : Nat × Nat) : Prop :=
  (1 ≤ best.1 ∧ PalindromeAt s best.2 (best.2 + best.1)) ∧
    ∀ low high, PalindromeAt s low high → low + high < centre → high - low ≤ best.1

theorem bothCentres_spec {s : List Char} (counted : s.length < 2 ^ 31) {best : Nat × Nat} {i : Nat}
    (inside : i < s.length) (before : BestBefore s (2 * i) best) :
    ∃ after, bothCentres s best i = some after ∧ BestBefore s (2 * (i + 1)) after := by
  obtain ⟨⟨positive, found⟩, known⟩ := before
  obtain ⟨evenLength, evenStart, returnedEven, moreEven, foundEven, allEven⟩ :=
    expand_spec counted (PalindromeAt.empty (Nat.le_of_lt inside)) (by omega) found
  obtain ⟨oddLength, oddStart, returnedOdd, moreOdd, foundOdd, allOdd⟩ :=
    expand_spec counted (PalindromeAt.single inside) (by omega) foundEven
  refine ⟨(oddLength, oddStart), ?_, ⟨by omega, foundOdd⟩, ?_⟩
  · rw [bothCentres, returnedEven, position_of_lt (by omega)]
    exact returnedOdd
  · intro low high palindrome centre
    change high - low ≤ oddLength
    by_cases even : low + high = i + i
    · exact (allEven low high palindrome even).trans moreOdd
    · by_cases odd : low + high = i + (i + 1)
      · exact allOdd low high palindrome odd
      · exact (known low high palindrome (by omega)).trans (moreEven.trans moreOdd)

/-- While an `int` counts the characters, the search finds a longest palindrome. -/
theorem longestPalindrome_spec {s : List Char} (counted : s.length < 2 ^ 31) :
    ∃ low length, longestPalindrome s = some (segment s low length) ∧
      PalindromeAt s low (low + length) ∧
      ∀ low' high', PalindromeAt s low' high' → high' - low' ≤ length := by
  rw [longestPalindrome]
  by_cases empty : s = []
  · subst empty
    refine ⟨0, 0, if_pos rfl, PalindromeAt.empty (Nat.le_refl 0), ?_⟩
    intro low' high' palindrome
    have inside := palindrome.1.2
    change high' ≤ 0 at inside
    omega
  · have positive := List.length_pos_iff.mpr empty
    have first : BestBefore s (2 * (0 + 1)) (1, 0) := by
      refine ⟨⟨Nat.le_refl 1, PalindromeAt.single positive⟩, ?_⟩
      intro low high palindrome centre
      change high - low ≤ 1
      omega
    obtain ⟨best, returned, ⟨-, found⟩, all⟩ := @forLoop_spec _ (bothCentres s) 1 (s.length - 1)
      (1, 0) (fun count => BestBefore s (2 * (count + 1))) first (by
        intro count below before holds
        rw [Nat.add_comm 1 count]
        exact bothCentres_spec counted (by omega) holds)
    refine ⟨best.2, best.1, ?_, found, ?_⟩
    · rw [if_neg empty, returned]
      rfl
    · intro low' high' palindrome
      have inside := palindrome.1
      by_cases last : low' + high' < 2 * (s.length - 1 + 1)
      · exact all low' high' palindrome last
      · omega

/-! ### `longestPalindrome3` -/

/-- The body of the loop that stores the characters between the separators. -/
def store (s extended : List Char) (i : Nat) : Option (List Char) := do
  let position ← position 32 (2 * i + 1)
  return extended.set position (s.getD i '#')

def interleave (s : List Char) : Option (List Char) :=
  forLoop 0 s.length (store s) (List.replicate (2 * s.length + 1) '#')

/-- The innermost loop. The first number is what is left to the left of the radius. -/
def grow (extended : List Char) (i : Nat) : Nat → Nat → Option Nat
  | 0, radius => some radius
  | room + 1, radius => do
      let right ← position 32 (i + (radius + 1))
      if right < extended.length ∧ extended[i - (radius + 1)]? = extended[right]? then
        grow extended i room (radius + 1)
      else some radius

structure Centres where
  records : Nat → Nat
  c : Nat
  r : Nat
  max_pos : Nat

/-- The radius that the main loop begins with. -/
def known (state : Centres) (i : Nat) : Option Nat :=
  if i < state.r then do
    let twice ← position 32 (2 * state.c)
    if i ≤ twice then some (min (state.records (twice - i)) (state.r - i)) else none
  else some 0

/-- The body of the main loop, with the increment at its end. -/
def centre (extended : List Char) (state : Centres) (i : Nat) : Option Centres := do
  let known ← known state i
  let radius ← grow extended i (i - known) known
  let records := Function.update state.records i radius
  let right ← position 32 (radius + i)
  let _ ← position 32 (i + 1)
  return {
    records := records
    c := if state.r < right then i else state.c
    r := if state.r < right then right else state.r
    max_pos := if records state.max_pos < records i then i else state.max_pos }

def longestPalindrome3 (s : List Char) : Option (List Char) := do
  let extended ← interleave s
  let state ← forLoop 1 (extended.length - 1) (centre extended) ⟨fun _ => 0, 0, 0, 0⟩
  let radius := state.records state.max_pos
  return (segment extended (state.max_pos - radius) (2 * radius)).filter (· ≠ '#')

/-! #### The separated text -/

/-- The characters with a separator before and behind each of them. -/
structure Separated (s extended : List Char) : Prop where
  length : extended.length = 2 * s.length + 1
  separators : ∀ k ≤ s.length, extended[2 * k]? = some '#'
  characters : ∀ k < s.length, extended[2 * k + 1]? = s[k]?

theorem interleave_spec {s : List Char} (counted : s.length ≤ 2 ^ 30) :
    ∃ extended, interleave s = some extended ∧ Separated s extended := by
  obtain ⟨extended, returned, length, separators, characters⟩ :=
    @forLoop_spec _ (store s) 0 s.length (List.replicate (2 * s.length + 1) '#')
      (fun count extended => extended.length = 2 * s.length + 1 ∧
        (∀ k ≤ s.length, extended[2 * k]? = some '#') ∧
          ∀ k < count, extended[2 * k + 1]? = s[k]?)
      ⟨List.length_replicate, fun k inside => by rw [List.getElem?_replicate, if_pos (by omega)],
        fun k none => absurd none (Nat.not_lt_zero k)⟩
      (by
        intro count below before holds
        obtain ⟨length, separators, characters⟩ := holds
        rw [Nat.zero_add, store, position_of_lt (by omega)]
        refine ⟨_, rfl, ?_, ?_, ?_⟩
        · rw [List.length_set, length]
        · intro k inside
          rw [List.getElem?_set_ne (by omega), separators k inside]
        · intro k upTo
          by_cases last : k = count
          · subst last
            rw [List.getElem?_set_self (by omega), List.getD_eq_getElem?_getD,
              List.getElem?_eq_getElem below]
            rfl
          · rw [List.getElem?_set_ne (by omega), characters k (by omega)])
  exact ⟨extended, returned, length, separators, characters⟩

variable {s extended : List Char}

/-- A palindrome of the string with the separators around it. -/
theorem Separated.palindromeAt (separated : Separated s extended) {low high : Nat}
    (palindrome : PalindromeAt s low high) : PalindromeAt extended (2 * low) (2 * high + 1) := by
  obtain ⟨⟨ordered, inside⟩, mirrored⟩ := palindrome
  refine ⟨⟨by omega, by rw [separated.length]; omega⟩, ?_⟩
  intro k above below
  obtain ⟨half, even | odd⟩ : ∃ half, k = 2 * half ∨ k = 2 * half + 1 := ⟨k / 2, by omega⟩
  · have other : 2 * low + (2 * high + 1) - 1 - k = 2 * (low + high - half) := by omega
    rw [other, even, separated.separators half (by omega), separated.separators _ (by omega)]
  · have other : 2 * low + (2 * high + 1) - 1 - k = 2 * (low + high - 1 - half) + 1 := by omega
    rw [other, odd, separated.characters half (by omega), separated.characters _ (by omega),
      mirrored half (by omega) (by omega)]

theorem Separated.of_palindromeAt (separated : Separated s extended) {low high : Nat}
    (ordered : low ≤ high) (palindrome : PalindromeAt extended (2 * low) (2 * high + 1)) :
    PalindromeAt s low high := by
  obtain ⟨⟨-, inside⟩, mirrored⟩ := palindrome
  rw [separated.length] at inside
  refine ⟨⟨ordered, by omega⟩, ?_⟩
  intro k above below
  have same := mirrored (2 * k + 1) (by omega) (by omega)
  have other : 2 * low + (2 * high + 1) - 1 - (2 * k + 1) = 2 * (low + high - 1 - k) + 1 := by omega
  rw [other, separated.characters k (by omega), separated.characters _ (by omega)] at same
  exact same

/-- Without the separators the text is the string again. -/
theorem Separated.filter_segment (separated : Separated s extended) (free : '#' ∉ s)
    {low length : Nat} (inside : low + length ≤ s.length) :
    (segment extended (2 * low) (2 * length)).filter (· ≠ '#') = segment s low length := by
  induction length generalizing low with
  | zero => rfl
  | succ length inductionHypothesis =>
      have size := separated.length
      have first : 2 * low < extended.length := by omega
      have second : 2 * low + 1 < extended.length := by omega
      have within : low < s.length := by omega
      have separator : extended[2 * low] = '#' := by
        have there := separated.separators low (by omega)
        rwa [List.getElem?_eq_getElem first, Option.some.injEq] at there
      have character : extended[2 * low + 1] = s[low] := by
        have there := separated.characters low within
        rwa [List.getElem?_eq_getElem second, List.getElem?_eq_getElem within,
          Option.some.injEq] at there
      have kept : s[low] ≠ '#' := fun same => free (same ▸ List.getElem_mem within)
      rw [show 2 * (length + 1) = 2 * length + 1 + 1 by omega, segment_succ first,
        segment_succ second, segment_succ within, separator, character,
        List.filter_cons_of_neg (by decide), List.filter_cons_of_pos (by simpa using kept),
        show 2 * low + 1 + 1 = 2 * (low + 1) by omega, inductionHypothesis (by omega)]

/-! #### The radii -/

/-- The text reads the same for so many places on both sides. -/
def Symmetric (text : List Char) (i radius : Nat) : Prop :=
  radius ≤ i ∧ PalindromeAt text (i - radius) (i + radius + 1)

theorem Symmetric.narrow {i radius smaller : Nat} (symmetric : Symmetric extended i radius)
    (less : smaller ≤ radius) : Symmetric extended i smaller := by
  obtain ⟨room, palindrome⟩ := symmetric
  have part := @PalindromeAt.narrow _ _ _ _ palindrome (radius - smaller) (by omega)
  rw [show i - radius + (radius - smaller) = i - smaller by omega,
    show i + radius + 1 - (radius - smaller) = i + smaller + 1 by omega] at part
  exact ⟨by omega, part⟩

/-- The greatest radius. -/
def Maximal (text : List Char) (i radius : Nat) : Prop :=
  Symmetric text i radius ∧ ¬Symmetric text i (radius + 1)

theorem Maximal.le {i radius other : Nat} (maximal : Maximal extended i radius)
    (symmetric : Symmetric extended i other) : other ≤ radius := by
  by_contra greater
  exact maximal.2 (symmetric.narrow (Nat.lt_of_not_le greater))

theorem grow_spec (counted : extended.length < 2 ^ 31) {i room radius : Nat}
    (symmetric : Symmetric extended i radius) (roomIs : room = i - radius) :
    ∃ greatest, grow extended i room radius = some greatest ∧ Maximal extended i greatest := by
  induction room generalizing radius with
  | zero => exact ⟨radius, rfl, symmetric, fun wider => by have room := wider.1; omega⟩
  | succ room inductionHypothesis =>
      have inside := symmetric.2.1.2
      rw [grow, position_of_lt (by omega)]
      change ∃ greatest, (if i + (radius + 1) < extended.length ∧
        extended[i - (radius + 1)]? = extended[i + (radius + 1)]? then
          grow extended i room (radius + 1) else some radius) = some greatest ∧ _
      have low : i - (radius + 1) + 1 = i - radius := by omega
      split
      next same =>
        refine inductionHypothesis ⟨by omega, ?_⟩ (by omega)
        apply PalindromeAt.widen _ same.1 same.2
        rw [low]
        exact symmetric.2
      next differ =>
        refine ⟨radius, rfl, symmetric, ?_⟩
        intro wider
        exact differ ⟨wider.2.1.2, wider.2.ends (by omega)⟩

/-- A greatest radius ends at separators. -/
theorem Maximal.even (separated : Separated s extended) {i radius : Nat}
    (maximal : Maximal extended i radius) :
    ∃ low high, low ≤ high ∧ i - radius = 2 * low ∧ i + radius = 2 * high := by
  obtain ⟨room, palindrome⟩ := maximal.1
  have inside := palindrome.1.2
  have size := separated.length
  obtain ⟨low, even | odd⟩ : ∃ low, i - radius = 2 * low ∨ i - radius = 2 * low + 1 :=
    ⟨(i - radius) / 2, by omega⟩
  · exact ⟨low, low + radius, by omega, even, by omega⟩
  · refine absurd ⟨by omega, ?_⟩ maximal.2
    have below : i - (radius + 1) = 2 * low := by omega
    have above : i + (radius + 1) = 2 * (low + radius + 1) := by omega
    apply PalindromeAt.widen _ (by omega)
    · rw [below, above, separated.separators _ (by omega), separated.separators _ (by omega)]
    · rw [below, ← odd]
      exact palindrome

/-- What the main loop knows before it comes to a place. -/
structure Knows (extended : List Char) (i : Nat) (state : Centres) : Prop where
  records : ∀ k < i, Maximal extended k (state.records k)
  centre : state.c < i
  right : state.r = state.c + state.records state.c
  place : state.max_pos < i
  largest : ∀ k < i, state.records k ≤ state.records state.max_pos
  furthest : ∀ k < i, k + state.records k ≤ state.r

/-- The radius that is taken over from the mirrored place. -/
theorem known_symmetric {i : Nat} {state : Centres} (knows : Knows extended i state)
    (inside : i < state.r) :
    i ≤ 2 * state.c ∧
      Symmetric extended i (min (state.records (2 * state.c - i)) (state.r - i)) := by
  obtain ⟨room, whole⟩ := (knows.records state.c knows.centre).1
  have right := knows.right
  have before := knows.centre
  obtain ⟨roomMirrored, -⟩ := (knows.records (2 * state.c - i) (by omega)).1
  generalize knownIs : min (state.records (2 * state.c - i)) (state.r - i) = known
  have part := ((knows.records (2 * state.c - i) (by omega)).1).narrow
    (knownIs ▸ Nat.min_le_left _ _ : known ≤ _)
  have upTo : known ≤ state.r - i := knownIs ▸ Nat.min_le_right _ _
  have mirrored := whole.mirror part.2 (by omega) (by omega)
  refine ⟨by omega, by omega, ?_⟩
  rw [show state.c - state.records state.c + (state.c + state.records state.c + 1) -
      (2 * state.c - i + known + 1) = i - known by omega,
    show state.c - state.records state.c + (state.c + state.records state.c + 1) -
      (2 * state.c - i - known) = i + known + 1 by omega] at mirrored
  exact mirrored

theorem known_spec {i : Nat} {state : Centres} (counted : i ≤ 2 ^ 30)
    (inside : i < extended.length) (knows : Knows extended i state) :
    ∃ radius, known state i = some radius ∧ Symmetric extended i radius := by
  unfold known
  split
  next before =>
    obtain ⟨mirrored, symmetric⟩ := known_symmetric knows before
    have earlier := knows.centre
    refine ⟨_, ?_, symmetric⟩
    rw [position_of_lt (by omega)]
    exact if_pos mirrored
  next => exact ⟨0, rfl, Nat.zero_le i, PalindromeAt.single inside⟩

theorem centre_spec (short : extended.length < 2 ^ 31) {i : Nat} {state : Centres}
    (counted : i ≤ 2 ^ 30) (inside : i < extended.length) (knows : Knows extended i state) :
    ∃ after, centre extended state i = some after ∧ Knows extended (i + 1) after := by
  obtain ⟨first, firstIs, symmetric⟩ := known_spec counted inside knows
  obtain ⟨radius, returned, maximal⟩ := grow_spec short symmetric rfl
  have last := maximal.1.2.1.2
  rw [centre, firstIs, Option.bind_eq_bind, Option.bind_some, returned, Option.bind_some]
  dsimp only
  rw [position_of_lt (by omega), position_of_lt (by omega)]
  refine ⟨_, rfl, ?_⟩
  have old : ∀ k < i, Function.update state.records i radius k = state.records k :=
    fun k below => Function.update_of_ne (Nat.ne_of_lt below) _ _
  have new : Function.update state.records i radius i = radius := Function.update_self _ _ _
  have records : ∀ k < i + 1, Maximal extended k (Function.update state.records i radius k) := by
    intro k upTo
    rcases Nat.lt_succ_iff_lt_or_eq.mp upTo with before | rfl
    · rw [old k before]
      exact knows.records k before
    · rwa [new]
  have centre := knows.centre
  have place := knows.place
  refine ⟨records, ?_, ?_, ?_, ?_, ?_⟩
  · dsimp only
    split <;> omega
  · dsimp only
    split
    next => rw [new, Nat.add_comm]
    next => rw [old _ centre, knows.right]
  · dsimp only
    split <;> omega
  · intro k upTo
    dsimp only
    rw [new, old _ place]
    rcases Nat.lt_succ_iff_lt_or_eq.mp upTo with before | rfl
    · have least := knows.largest k before
      rw [old k before]
      split
      next greater => rw [new]; omega
      next => rwa [old _ place]
    · rw [new]
      split
      next => rw [new]
      next notGreater => rw [old _ place]; omega
  · intro k upTo
    dsimp only
    rcases Nat.lt_succ_iff_lt_or_eq.mp upTo with before | rfl
    · have least := knows.furthest k before
      rw [old k before]
      split <;> omega
    · rw [new]
      split <;> omega

/-- The main loop as far as twice a position before it is an `int`. -/
theorem centres_spec (short : extended.length < 2 ^ 31) (nonempty : 0 < extended.length)
    {count : Nat} (counted : count ≤ 2 ^ 30) (inside : count < extended.length) :
    ∃ state, forLoop 1 count (centre extended) ⟨fun _ => 0, 0, 0, 0⟩ = some state ∧
      Knows extended (1 + count) state := by
  have single : Maximal extended 0 0 :=
    ⟨⟨Nat.le_refl 0, PalindromeAt.single nonempty⟩, fun wider => absurd wider.1 (by decide)⟩
  apply @forLoop_spec _ (centre extended) 1 count ⟨fun _ => 0, 0, 0, 0⟩
    (fun count => Knows extended (1 + count))
  · refine ⟨?_, Nat.one_pos, rfl, Nat.one_pos, fun _ _ => Nat.le_refl 0, ?_⟩
    · intro k below
      obtain rfl : k = 0 := by omega
      exact single
    · intro k below
      exact Nat.le_of_lt_succ below
  · intro round below before holds
    exact centre_spec short (by omega) (by omega) holds

/-- Up to `2 ^ 29` characters the search finds a longest palindrome. -/
theorem longestPalindrome3_spec (counted : s.length ≤ 2 ^ 29) (free : '#' ∉ s) :
    ∃ low length, longestPalindrome3 s = some (segment s low length) ∧
      PalindromeAt s low (low + length) ∧
      ∀ low' high', PalindromeAt s low' high' → high' - low' ≤ length := by
  obtain ⟨extended, interleaved, separated⟩ := @interleave_spec s (by omega)
  have size := separated.length
  obtain ⟨state, returned, knows⟩ := @centres_spec extended (by omega) (by omega)
    (extended.length - 1) (by omega) (by omega)
  have maximal := knows.records state.max_pos knows.place
  obtain ⟨low, high, ordered, lowIs, highIs⟩ := maximal.even separated
  have room := maximal.1.1
  have inside := maximal.1.2.1.2
  have palindrome : PalindromeAt s low high := by
    apply separated.of_palindromeAt ordered
    rw [← lowIs, ← highIs]
    exact maximal.1.2
  have length : high = low + state.records state.max_pos := by omega
  refine ⟨low, state.records state.max_pos, ?_, length ▸ palindrome, ?_⟩
  · rw [longestPalindrome3, interleaved, Option.bind_eq_bind, Option.bind_some, returned]
    change some _ = _
    rw [lowIs, separated.filter_segment free (by omega)]
  · intro low' high' other
    have bounds := other.1
    have wide := separated.palindromeAt other
    have symmetric : Symmetric extended (low' + high') (high' - low') := by
      refine ⟨by omega, ?_⟩
      rw [show low' + high' - (high' - low') = 2 * low' by omega,
        show low' + high' + (high' - low') + 1 = 2 * high' + 1 by omega]
      exact wide
    exact ((knows.records _ (by omega)).le symmetric).trans (knows.largest _ (by omega))

/-- Both searches find a longest palindrome of a string without separators. -/
theorem longestPalindromes_agree (s : List Char) (free : '#' ∉ s) (counted : s.length ≤ 2 ^ 29) :
    ∃ plain fast, longestPalindrome s = some plain ∧ longestPalindrome3 s = some fast ∧
      (plain <:+: s ∧ plain.Palindrome) ∧ (fast <:+: s ∧ fast.Palindrome) ∧
      fast.length = plain.length ∧
      ∀ part, part <:+: s → part.Palindrome → part.length ≤ plain.length := by
  obtain ⟨low, length, returned, found, all⟩ := @longestPalindrome_spec s (by omega)
  obtain ⟨low3, length3, returned3, found3, all3⟩ := longestPalindrome3_spec counted free
  have same : length3 = length := by
    have least := all low3 _ found3
    have most := all3 low _ found
    omega
  have inside := found.1.2
  have inside3 := found3.1.2
  refine ⟨_, _, returned, returned3,
    ⟨segment_inside _ _, (segment_palindrome_iff inside).mpr found⟩,
    ⟨segment_inside _ _, (segment_palindrome_iff inside3).mpr found3⟩, ?_, ?_⟩
  · rw [length_segment inside, length_segment inside3, same]
  · intro part inText palindrome
    obtain ⟨place, there⟩ := exists_palindromeAt inText palindrome
    have least := all place _ there
    rw [length_segment inside]
    omega

theorem longestPalindromes_agree_abb :
    ∃ plain fast, longestPalindrome ['a', 'b', 'b'] = some plain ∧
      longestPalindrome3 ['a', 'b', 'b'] = some fast ∧
      (plain <:+: ['a', 'b', 'b'] ∧ plain.Palindrome) ∧
      (fast <:+: ['a', 'b', 'b'] ∧ fast.Palindrome) ∧ fast.length = plain.length ∧
      ∀ part, part <:+: ['a', 'b', 'b'] → part.Palindrome → part.length ≤ plain.length :=
  longestPalindromes_agree ['a', 'b', 'b'] (by decide) (by decide)

/-! ### A longer string -/

def endsTwice (count : Nat) : List Char := List.replicate count 'b' ++ ['a', 'a']

theorem length_endsTwice (count : Nat) : (endsTwice count).length = count + 2 := by
  rw [endsTwice, List.length_append, List.length_replicate]
  rfl

theorem getElem?_endsTwice_of_lt {count k : Nat} (before : k < count) :
    (endsTwice count)[k]? = some 'b' := by
  rw [endsTwice, List.getElem?_append_left (by rwa [List.length_replicate]),
    List.getElem?_replicate, if_pos before]

theorem getElem?_endsTwice_of_le {count k : Nat} (behind : count ≤ k) (inside : k < count + 2) :
    (endsTwice count)[k]? = some 'a' := by
  rw [endsTwice, List.getElem?_append_right (by rwa [List.length_replicate]),
    List.length_replicate]
  obtain zero | one : k - count = 0 ∨ k - count = 1 := by omega
  · rw [zero]
    rfl
  · rw [one]
    rfl

/-- The two last characters are the longest palindrome at the end. -/
theorem palindromeAt_endsTwice {count low : Nat}
    (palindrome : PalindromeAt (endsTwice count) low (count + 2)) : count ≤ low := by
  by_contra before
  have ends := palindrome.ends (by omega)
  rw [getElem?_endsTwice_of_lt (by omega),
    getElem?_endsTwice_of_le (by omega) (by omega)] at ends
  cases ends

theorem twice_palindromeAt (count : Nat) :
    PalindromeAt (endsTwice count) count (count + 2) := by
  have length := length_endsTwice count
  apply (PalindromeAt.empty (by omega)).widen (by omega)
  rw [getElem?_endsTwice_of_le (Nat.le_refl _) (by omega),
    getElem?_endsTwice_of_le (by omega) (by omega)]

/-- Before the last character twice the centre is no `int` any more. -/
theorem longestPalindrome3_endsTwice {count : Nat} (countIs : count + 1 = 2 ^ 29) :
    longestPalindrome3 (endsTwice count) = none := by
  have length := length_endsTwice count
  obtain ⟨extended, interleaved, separated⟩ := @interleave_spec (endsTwice count) (by omega)
  have size := separated.length
  obtain ⟨state, returned, knows⟩ := @centres_spec extended (by omega) (by omega)
    (2 * count + 2) (by omega) (by omega)
  have twice : Symmetric extended (2 * count + 2) 2 := by
    have wide := separated.palindromeAt (twice_palindromeAt count)
    exact ⟨by omega, wide⟩
  have reaches := knows.furthest (2 * count + 2) (by omega)
  have radius := (knows.records (2 * count + 2) (by omega)).le twice
  have maximal := knows.records state.c knows.centre
  obtain ⟨low, high, ordered, lowIs, highIs⟩ := maximal.even separated
  have right := knows.right
  have before := knows.centre
  obtain ⟨room, palindrome⟩ := maximal.1
  have inside := palindrome.1.2
  obtain rfl : high = count + 2 := by omega
  rw [lowIs, highIs] at palindrome
  have least := palindromeAt_endsTwice (separated.of_palindromeAt ordered palindrome)
  have overflow : position 32 (2 * state.c) = none := position_eq_none (by omega)
  have wrong : centre extended state (1 + (2 * count + 2)) = none := by
    rw [centre, known, if_pos (by omega), overflow]
    rfl
  have stops : forLoop 1 (2 * count + 2 + 1) (centre extended) ⟨fun _ => 0, 0, 0, 0⟩ = none := by
    rw [forLoop_succ, returned]
    exact wrong
  rw [longestPalindrome3, interleaved, Option.bind_eq_bind, Option.bind_some,
    forLoop_eq_none_of_le (by omega) stops]
  rfl

/-- With one character more than `2 ^ 29` there may be no result. -/
theorem longestPalindrome3_overflows :
    ∃ s : List Char, '#' ∉ s ∧ s.length = 2 ^ 29 + 1 ∧ longestPalindrome3 s = none := by
  obtain ⟨count, countIs⟩ : ∃ count : Nat, count + 1 = 2 ^ 29 := ⟨2 ^ 29 - 1, rfl⟩
  refine ⟨endsTwice count, ?_, ?_, longestPalindrome3_endsTwice countIs⟩
  · rw [endsTwice, List.mem_append, not_or]
    constructor
    · intro again
      exact absurd (List.eq_of_mem_replicate again) (by decide)
    · decide
  · rw [length_endsTwice]
    omega

end LongestPalindrome

end StdPrograms.Hobbies

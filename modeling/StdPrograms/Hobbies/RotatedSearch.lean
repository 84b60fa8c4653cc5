import Mathlib.Algebra.Order.Ring.Int
import Mathlib.Data.List.Rotate
import StdPrograms.Foundation.Bisection
import StdPrograms.Foundation.SignedInt

/-!
Contract: two searches in a rotated array.

Owns `bsearch` and `bsearch2` of `solution_33.cpp`, with the two loops that `search` has too, and
that both find every target in an array whose length is of type `int`.

Does not own arrays with equal elements.
-/

namespace StdPrograms.Hobbies

open StdPrograms.Foundation

namespace RotatedSearch

/-- The first loop of `search` and of `bsearch`, with the interval for which it goes on and the
index of the element that the middle is compared with; what it leaves in `low` and `privot`. -/
def pivotLoop (nums : List Int) (more : Int → Int → Bool) (against : Int → Int) :
    Nat → Int → Int → Option (Int × Int)
  | 0, _, _ => none
  | fuel + 1, low, high =>
      if more low high then do
        let value ← entry nums (middle low high)
        let next ← entry nums (middle low high + 1)
        if value > next then return (low, middle low high)
        else
          let other ← entry nums (against high)
          if value > other then pivotLoop nums more against fuel (middle low high + 1) high
          else pivotLoop nums more against fuel low (middle low high - 1)
      else some (low, -1)

/-- The `privot` of `search` and of `bsearch`, from the declaration of `low` on. -/
def findPrivot (fuel : Nat) (nums : List Int) (more : Int → Int → Bool) (against : Int → Int) :
    Option Int := do
  let high ← signed 32 (converted 32 (nums.length : Int) - 1)
  let (low, privot) ← pivotLoop nums more against fuel 0 high
  if low < nums.length - 1 then
    let value ← entry nums low
    let next ← entry nums (low + 1)
    if value > next then return low else return privot
  else return privot

/-- The last loop of `search` and of `bsearch`, and what they return behind it. -/
def bisect (nums : List Int) (target : Int) : Nat → Int → Int → Option Int
  | 0, _, _ => none
  | fuel + 1, low, high =>
      if low < high then do
        let value ← entry nums (middle low high)
        if value = target then return middle low high
        else if value < target then bisect nums target fuel (middle low high + 1) high
        else bisect nums target fuel low (middle low high - 1)
      else do
        let value ← entry nums low
        return if value = target then low else -1

def bsearch (fuel : Nat) (nums : List Int) (target : Int) : Option Int :=
  if nums.length = 0 then some (-1)
  else do
    let privot ← findPrivot fuel nums (fun low high => low ≤ high - 1) fun _ => nums.length - 1
    let least ← entry nums (privot + 1)
    let last ← nums.getLast?
    if least ≤ target ∧ target ≤ last then
      bisect nums target fuel (privot + 1) (converted 32 ((nums.length : Int) - 1))
    else bisect nums target fuel 0 privot

/-! ### `bsearch2` -/

def leastLoop (nums : List Int) : Nat → Int → Int → Option Int
  | 0, _, _ => none
  | fuel + 1, low, high =>
      if low < high then do
        let value ← entry nums (middle low high)
        let other ← entry nums high
        if value > other then leastLoop nums fuel (middle low high + 1) high
        else leastLoop nums fuel low (middle low high)
      else some low

def locate (nums : List Int) (target : Int) : Nat → Int → Int → Option Int
  | 0, _, _ => none
  | fuel + 1, low, high =>
      if low ≤ high then do
        let value ← entry nums (middle low high)
        if value = target then return middle low high
        else if value < target then
          let beyond ← signed 32 (middle low high + 1)
          locate nums target fuel beyond high
        else locate nums target fuel low (middle low high - 1)
      else some (-1)

def bsearch2 (fuel : Nat) (nums : List Int) (target : Int) : Option Int := do
  let high ← signed 32 (converted 32 (nums.length : Int) - 1)
  let low ← leastLoop nums fuel 0 high
  let last ← nums.getLast?
  if target > last then
    locate nums target fuel 0
      (if low ≠ 0 then low - 1 else converted 32 ((nums.length : Int) - 1))
  else locate nums target fuel low (converted 32 ((nums.length : Int) - 1))

/-- An index of the target, or -1 where it does not occur. -/
def IsIndex (nums : List Int) (target result : Int) : Prop :=
  entry nums result = some target ∨ result = -1 ∧ target ∉ nums

/-! ### Rotated arrays -/

/-- The place in the order of the elements, up to the same number for all. -/
def rank (length start : Nat) (i : Int) : Int :=
  if i < start then i + length else i

theorem rank_of_lt {length start : Nat} {i : Int} (front : i < start) :
    rank length start i = i + length :=
  if_pos front

theorem rank_of_le {length start : Nat} {i : Int} (back : (start : Int) ≤ i) :
    rank length start i = i :=
  if_neg (Int.not_lt.mpr back)

/-- The elements ascend from the start to the end and on from the first one. -/
structure Turned (nums : List Int) (start : Nat) : Prop where
  inside : start < nums.length
  ordered : ∀ i j a b, entry nums i = some a → entry nums j = some b →
    (a < b ↔ rank nums.length start i < rank nums.length start j)

/-- The index of the least element after a rotation. -/
def startOf (length amount : Nat) : Nat :=
  (length - amount % length) % length

theorem add_mod_eq {length amount i : Nat} (inside : i < length) :
    (i + amount) % length =
      if i < startOf length amount then i + length - startOf length amount
      else i - startOf length amount := by
  have below := Nat.mod_lt amount (Nat.zero_lt_of_lt inside)
  rw [← Nat.add_mod_mod, startOf]
  by_cases whole : amount % length = 0
  · rw [whole, Nat.sub_zero, Nat.mod_self, Nat.add_zero, Nat.mod_eq_of_lt inside,
      if_neg (Nat.not_lt_zero i), Nat.sub_zero]
  · rw [Nat.mod_eq_of_lt (by omega : length - amount % length < length)]
    split
    next front =>
      rw [Nat.mod_eq_of_lt (by omega)]
      omega
    next back =>
      rw [Nat.mod_eq_sub_mod (by omega), Nat.mod_eq_of_lt (by omega)]
      omega

theorem lt_iff_of_ascending {sorted : List Int} (ascending : sorted.Pairwise (· < ·)) {i j : Nat}
    {a b : Int} (iIs : sorted[i]? = some a) (jIs : sorted[j]? = some b) : a < b ↔ i < j := by
  obtain ⟨iInside, rfl⟩ := List.getElem?_eq_some_iff.mp iIs
  obtain ⟨jInside, rfl⟩ := List.getElem?_eq_some_iff.mp jIs
  have pairs := List.pairwise_iff_getElem.mp ascending
  rcases Nat.lt_trichotomy i j with less | rfl | greater
  · exact iff_of_true (pairs i j iInside jInside less) less
  · exact iff_of_false (lt_irrefl _) (Nat.lt_irrefl i)
  · exact iff_of_false (not_lt_of_ge (pairs j i jInside iInside greater).le)
      (Nat.not_lt_of_gt greater)

theorem turned_rotate {sorted : List Int} (ascending : sorted.Pairwise (· < ·))
    (nonempty : sorted ≠ []) (amount : Nat) :
    Turned (sorted.rotate amount) (startOf sorted.length amount) where
  inside := by
    rw [List.length_rotate]
    exact Nat.mod_lt _ (List.length_pos_iff.mpr nonempty)
  ordered i j a b iIs jIs := by
    obtain ⟨iNonneg, iLess⟩ := inside_of_entry iIs
    obtain ⟨jNonneg, jLess⟩ := inside_of_entry jIs
    obtain ⟨i, rfl⟩ := Int.eq_ofNat_of_zero_le iNonneg
    obtain ⟨j, rfl⟩ := Int.eq_ofNat_of_zero_le jNonneg
    rw [List.length_rotate] at iLess jLess
    have iInside : i < sorted.length := Int.ofNat_lt.mp iLess
    have jInside : j < sorted.length := Int.ofNat_lt.mp jLess
    have startInside : startOf sorted.length amount < sorted.length :=
      Nat.mod_lt _ (List.length_pos_iff.mpr nonempty)
    rw [entry_natCast, List.getElem?_rotate iInside] at iIs
    rw [entry_natCast, List.getElem?_rotate jInside] at jIs
    rw [lt_iff_of_ascending ascending iIs jIs, add_mod_eq iInside, add_mod_eq jInside,
      List.length_rotate, rank, rank]
    split_ifs <;> omega

/-! ### `bisect` -/

section

variable {nums : List Int} {target : Int} {fuel : Nat} {low high index : Int}

/-- Whatever the order, the result is an index of the target in the interval or -1. -/
theorem bisect_returns (lowInside : 0 ≤ low ∧ low < nums.length) (highInside : high < nums.length)
    (enough : (high + 1 - low).toNat < fuel) :
    ∃ result, bisect nums target fuel low high = some result ∧
      (result = -1 ∨ entry nums result = some target ∧ low ≤ result ∧
        (result ≤ high ∨ result = low)) := by
  induction fuel generalizing low high with
  | zero => exact absurd enough (Nat.not_lt_zero _)
  | succ fuel inductionHypothesis =>
      rw [bisect]
      by_cases more : low < high
      · have inside := middle_lt more
        obtain ⟨value, valueIs⟩ := @exists_entry _ nums (middle low high) (by omega) (by omega)
        rw [if_pos more, valueIs, Option.bind_eq_bind, Option.bind_some]
        by_cases same : value = target
        · rw [if_pos same]
          exact ⟨_, rfl, .inr ⟨same ▸ valueIs, inside.1, .inl inside.2.le⟩⟩
        rw [if_neg same]
        by_cases less : value < target
        · obtain ⟨result, resultIs, found⟩ :=
            @inductionHypothesis (middle low high + 1) high (by omega) highInside (by omega)
          rw [if_pos less]
          refine ⟨result, resultIs, found.imp_right fun ⟨held, above, below⟩ => ⟨held, ?_, ?_⟩⟩
          · omega
          · omega
        · obtain ⟨result, resultIs, found⟩ :=
            @inductionHypothesis low (middle low high - 1) lowInside (by omega) (by omega)
          rw [if_neg less]
          refine ⟨result, resultIs, found.imp_right fun ⟨held, above, below⟩ => ⟨held, above, ?_⟩⟩
          omega
      · obtain ⟨value, valueIs⟩ := @exists_entry _ nums low lowInside.1 lowInside.2
        rw [if_neg more, valueIs, Option.bind_eq_bind, Option.bind_some]
        by_cases same : value = target
        · rw [if_pos same]
          exact ⟨low, rfl, .inr ⟨same ▸ valueIs, Int.le_refl low, .inr rfl⟩⟩
        · rw [if_neg same]
          exact ⟨-1, rfl, .inl rfl⟩

/-- The elements that are less than the target. -/
def Below (nums : List Int) (target i : Int) : Prop :=
  ∃ value, entry nums i = some value ∧ value < target

theorem below_iff {value : Int} (valueIs : entry nums index = some value) :
    Below nums target index ↔ value < target := by
  constructor
  · rintro ⟨other, otherIs, less⟩
    rw [valueIs] at otherIs
    exact Option.some.inj otherIs ▸ less
  · exact fun less => ⟨value, valueIs, less⟩

/-- The only index of the target is found exactly if the comparisons lead to it. -/
theorem bisect_eq_iff (lowInside : 0 ≤ low) (highInside : high < nums.length)
    (within : low ≤ index ∧ index ≤ high) (held : entry nums index = some target)
    (only : ∀ i, entry nums i = some target → i = index)
    (enough : (high + 1 - low).toNat < fuel) :
    bisect nums target fuel low high = some index ↔ Leads (Below nums target) index low high := by
  induction fuel generalizing low high with
  | zero => exact absurd enough (Nat.not_lt_zero _)
  | succ fuel inductionHypothesis =>
      rw [bisect]
      by_cases more : low < high
      · have inside := middle_lt more
        obtain ⟨value, valueIs⟩ := @exists_entry _ nums (middle low high) (by omega) (by omega)
        have belowMiddle := @below_iff nums target (middle low high) value valueIs
        rw [if_pos more, valueIs, Option.bind_eq_bind, Option.bind_some]
        by_cases same : value = target
        · have found : middle low high = index := only _ (same ▸ valueIs)
          rw [if_pos same, found]
          exact iff_of_true rfl (leads_of_eq found)
        rw [if_neg same]
        have different : middle low high ≠ index := by
          intro found
          rw [found, held] at valueIs
          exact same (Option.some.inj valueIs).symm
        by_cases before : middle low high < index
        · rw [leads_iff_of_lt more before, belowMiddle]
          by_cases less : value < target
          · rw [if_pos less, and_iff_right less]
            exact inductionHypothesis (by omega) highInside (by omega) (by omega)
          · rw [if_neg less]
            obtain ⟨result, resultIs, found⟩ := @bisect_returns nums target fuel low
              (middle low high - 1) (by omega) (by omega) (by omega)
            refine iff_of_false ?_ (fun leads => less leads.1)
            rw [resultIs, Option.some.injEq]
            omega
        · have beyond : index < middle low high := by omega
          rw [leads_iff_of_gt more beyond, belowMiddle]
          by_cases less : value < target
          · rw [if_pos less]
            obtain ⟨result, resultIs, found⟩ := @bisect_returns nums target fuel
              (middle low high + 1) high (by omega) highInside (by omega)
            refine iff_of_false ?_ (fun leads => leads.1 less)
            rw [resultIs, Option.some.injEq]
            omega
          · rw [if_neg less, and_iff_right less]
            exact inductionHypothesis lowInside (by omega) (by omega) (by omega)
      · obtain rfl : index = low := by omega
        rw [if_neg more, held, Option.bind_eq_bind, Option.bind_some, if_pos rfl]
        exact iff_of_true rfl (leads_of_not_lt more)

end

/-! ### The least element -/

section

variable {nums : List Int} {start fuel : Nat} {low high : Int}

/-- Two indices of one element are the same. -/
theorem Turned.unique (turned : Turned nums start) {i j : Int} {value : Int}
    (iIs : entry nums i = some value) (jIs : entry nums j = some value) : i = j := by
  have iInside := inside_of_entry iIs
  have jInside := inside_of_entry jIs
  have notLess := mt (turned.ordered i j value value iIs jIs).mpr (lt_irrefl value)
  have notGreater := mt (turned.ordered j i value value jIs iIs).mpr (lt_irrefl value)
  unfold rank at notLess notGreater
  split_ifs at notLess notGreater <;> omega

theorem Turned.gt_iff (turned : Turned nums start) {i j a b : Int} (iIs : entry nums i = some a)
    (jIs : entry nums j = some b) :
    a > b ↔ rank nums.length start j < rank nums.length start i :=
  turned.ordered j i b a jIs iIs

/-- Only the element before the least one is greater than the next one. -/
theorem Turned.gt_next_iff (turned : Turned nums start) {i a b : Int}
    (iIs : entry nums i = some a) (nextIs : entry nums (i + 1) = some b) :
    a > b ↔ i + 1 = start := by
  have iInside := inside_of_entry iIs
  have nextInside := inside_of_entry nextIs
  rw [turned.gt_iff iIs nextIs, rank, rank]
  split_ifs <;> omega

variable {more : Int → Int → Bool} {against : Int → Int} (turned : Turned nums start)

include turned

/-- One round, in terms of indices. -/
theorem pivotLoop_step (going : more low high) (lowInside : 0 ≤ low) (nonempty : low < high)
    (highInside : high < nums.length)
    (againstInside : 0 ≤ against high ∧ against high < nums.length) :
    pivotLoop nums more against (fuel + 1) low high =
      if middle low high + 1 = start then some (low, middle low high)
      else if rank nums.length start (against high) < rank nums.length start (middle low high) then
        pivotLoop nums more against fuel (middle low high + 1) high
      else pivotLoop nums more against fuel low (middle low high - 1) := by
  have inside := middle_lt nonempty
  obtain ⟨value, valueIs⟩ := @exists_entry _ nums (middle low high) (by omega) (by omega)
  obtain ⟨next, nextIs⟩ := @exists_entry _ nums (middle low high + 1) (by omega) (by omega)
  obtain ⟨other, otherIs⟩ := exists_entry againstInside.1 againstInside.2
  rw [pivotLoop, if_pos going, valueIs, nextIs, otherIs]
  dsimp only [Option.bind_eq_bind, Option.bind_some]
  simp only [turned.gt_next_iff valueIs nextIs, turned.gt_iff valueIs otherIs]
  rfl

/-- Where the elements ascend up to the one that is compared with, `low` stays. -/
theorem pivotLoop_of_ascending (moreLess : ∀ left right, more left right → left < right)
    (lowInside : 0 ≤ low) (highInside : high < nums.length)
    (onePart : (start : Int) ≤ low ∨ high < start)
    (againstGreatest : ∀ right, low < right → right ≤ high → (0 ≤ against right ∧
      against right < nums.length) ∧ ∀ i, low ≤ i → i < right →
        rank nums.length start i ≤ rank nums.length start (against right))
    (enough : (high + 1 - low).toNat < fuel) :
    pivotLoop nums more against fuel low high = some (low, -1) := by
  induction fuel generalizing high with
  | zero => exact absurd enough (Nat.not_lt_zero _)
  | succ fuel inductionHypothesis =>
      by_cases going : more low high
      · have nonempty := moreLess low high going
        have inside := middle_lt nonempty
        obtain ⟨againstInside, greatest⟩ := againstGreatest high nonempty (Int.le_refl high)
        rw [pivotLoop_step turned going lowInside nonempty highInside againstInside,
          if_neg (by omega), if_neg (not_lt_of_ge (greatest _ inside.1 inside.2))]
        exact inductionHypothesis (by omega) (by omega)
          (fun right above below => againstGreatest right above (by omega)) (by omega)
      · rw [pivotLoop, if_neg going]

theorem findPrivot_eq (counted : nums.length < 2 ^ 31) {privot : Int}
    (loop : pivotLoop nums more against fuel 0 (nums.length - 1) = some (low, privot))
    (lowInside : 0 ≤ low ∧ low < nums.length) :
    findPrivot fuel nums more against = some (if low + 1 = start then low else privot) := by
  have positive := Nat.zero_lt_of_lt turned.inside
  have startInside := turned.inside
  have highHeld : InSigned 32 ((nums.length : Int) - 1) := by
    constructor <;> omega
  rw [findPrivot, converted_natCast (Nat.zero_lt_succ 31) counted, signed_of_inSigned highHeld,
    Option.bind_eq_bind, Option.bind_some, loop]
  dsimp only [Option.bind_eq_bind, Option.bind_some]
  by_cases last : low < nums.length - 1
  · obtain ⟨value, valueIs⟩ := @exists_entry _ nums low lowInside.1 lowInside.2
    obtain ⟨next, nextIs⟩ := @exists_entry _ nums (low + 1) (by omega) (by omega)
    rw [if_pos last, valueIs, nextIs]
    dsimp only [Option.bind_some]
    simp only [turned.gt_next_iff valueIs nextIs]
    split <;> rfl
  · rw [if_neg last, if_neg (by omega)]
    rfl

/-- Compared with the last element the loop keeps the greatest one in its interval. -/
theorem pivotLoop_finds (lowInside : 0 ≤ low ∧ low < start)
    (highInside : (start : Int) ≤ high + 1 ∧ high < nums.length)
    (enough : (high + 1 - low).toNat < fuel) :
    ∃ left privot, pivotLoop nums (fun low high => low ≤ high - 1) (fun _ => nums.length - 1)
        fuel low high = some (left, privot) ∧ (0 ≤ left ∧ left < start) ∧
      (left + 1 = start ∨ privot + 1 = start) := by
  induction fuel generalizing low high with
  | zero => exact absurd enough (Nat.not_lt_zero _)
  | succ fuel inductionHypothesis =>
      have startInside := turned.inside
      by_cases going : low ≤ high - 1
      · have inside := @middle_lt low high (by omega)
        rw [pivotLoop_step turned (decide_eq_true going) lowInside.1 (by omega) highInside.2
          (by omega)]
        by_cases found : middle low high + 1 = start
        · rw [if_pos found]
          exact ⟨low, middle low high, rfl, lowInside, .inr found⟩
        rw [if_neg found, rank_of_le (by omega)]
        by_cases front : middle low high < start
        · rw [rank_of_lt front, if_pos (by omega)]
          exact inductionHypothesis (by omega) highInside (by omega)
        · rw [rank_of_le (Int.not_lt.mp front), if_neg (by omega)]
          exact inductionHypothesis lowInside (by omega) (by omega)
      · rw [pivotLoop, if_neg (by simpa using going)]
        exact ⟨low, -1, rfl, lowInside, .inl (by omega)⟩

theorem bsearch_privot (counted : nums.length < 2 ^ 31) (enough : nums.length < fuel) :
    findPrivot fuel nums (fun low high => low ≤ high - 1) (fun _ => nums.length - 1) =
      some ((start : Int) - 1) := by
  have startInside := turned.inside
  by_cases zero : start = 0
  · have loop := @pivotLoop_of_ascending nums start fuel 0 (nums.length - 1)
      (fun low high => low ≤ high - 1) (fun _ => nums.length - 1) turned
      (fun left right going => by have less := of_decide_eq_true going; omega) (Int.le_refl 0)
      (by omega) (.inl (by omega)) (fun right above below => ⟨by omega, fun i low less => by
        rw [rank_of_le (by omega), rank_of_le (by omega)]
        omega⟩) (by omega)
    rw [findPrivot_eq turned counted loop (by omega), if_neg (by omega), zero]
    rfl
  · obtain ⟨left, privot, loop, leftInside, found⟩ := @pivotLoop_finds nums start fuel 0
      (nums.length - 1) turned (by omega) (by omega) (by omega)
    rw [findPrivot_eq turned counted loop (by omega), Option.some.injEq]
    split <;> omega

/-! ### `bsearch` -/

theorem getLast?_eq_entry : nums.getLast? = entry nums (nums.length - 1) := by
  have positive := Nat.zero_lt_of_lt turned.inside
  have index : ((nums.length : Int) - 1) = ((nums.length - 1 : Nat) : Int) := by omega
  rw [index, entry_natCast, List.getLast?_eq_getElem?]

/-- Within one part of the array the comparisons lead to every element. -/
theorem leads_in_part {index target : Int} (held : entry nums index = some target)
    (lowInside : 0 ≤ low) (highInside : high < nums.length)
    (onePart : (start : Int) ≤ low ∨ high < start) (within : low ≤ index ∧ index ≤ high) :
    Leads (Below nums target) index low high := by
  refine leads_of_forall fun i above below different => ?_
  obtain ⟨value, valueIs⟩ := @exists_entry _ nums i (by omega) (by omega)
  rw [below_iff valueIs, turned.ordered i index value target valueIs held, rank, rank]
  split_ifs <;> omega

theorem bisect_in_part {index target : Int} (held : entry nums index = some target)
    (lowInside : 0 ≤ low) (highInside : high < nums.length)
    (onePart : (start : Int) ≤ low ∨ high < start) (within : low ≤ index ∧ index ≤ high)
    (enough : (high + 1 - low).toNat < fuel) :
    bisect nums target fuel low high = some index :=
  (bisect_eq_iff lowInside highInside within held (fun _ again => turned.unique again held)
    enough).mpr (leads_in_part turned held lowInside highInside onePart within)

omit turned in
theorem bisect_of_absent {target : Int} (absent : target ∉ nums)
    (lowInside : 0 ≤ low ∧ low < nums.length) (highInside : high < nums.length)
    (enough : (high + 1 - low).toNat < fuel) : bisect nums target fuel low high = some (-1) := by
  obtain ⟨result, resultIs, found⟩ := bisect_returns lowInside highInside enough
  rcases found with rfl | ⟨held, -⟩
  · exact resultIs
  · exact absurd (mem_of_entry held) absent

omit turned in
theorem exists_index {target : Int} (present : target ∈ nums) :
    ∃ index : Int, entry nums index = some target := by
  obtain ⟨i, inside, held⟩ := List.getElem_of_mem present
  exact ⟨i, (entry_natCast nums i).trans (List.getElem?_eq_some_iff.mpr ⟨inside, held⟩)⟩

theorem bsearch_spec (target : Int) (counted : nums.length < 2 ^ 31) (enough : nums.length < fuel) :
    ∃ result, bsearch fuel nums target = some result ∧ IsIndex nums target result := by
  have startInside := turned.inside
  have highHeld : InSigned 32 ((nums.length : Int) - 1) := by
    constructor <;> omega
  obtain ⟨least, leastIs⟩ := @exists_entry _ nums start (by omega) (by omega)
  obtain ⟨last, lastIs⟩ := @exists_entry _ nums (nums.length - 1) (by omega) (by omega)
  rw [bsearch, if_neg (by omega), bsearch_privot turned counted enough, Option.bind_eq_bind,
    Option.bind_some, Int.sub_add_cancel, leastIs, getLast?_eq_entry turned, lastIs,
    converted_of_inSigned (Nat.zero_lt_succ 31) highHeld]
  dsimp only [Option.bind_eq_bind, Option.bind_some]
  by_cases present : target ∈ nums
  · obtain ⟨index, held⟩ := exists_index present
    have indexInside := inside_of_entry held
    have inBack : least ≤ target ∧ target ≤ last ↔ (start : Int) ≤ index := by
      rw [← not_lt, ← not_lt, turned.ordered index start target least held leastIs,
        turned.ordered (nums.length - 1) index last target lastIs held]
      unfold rank
      split_ifs <;> omega
    refine ⟨index, ?_, .inl held⟩
    by_cases back : (start : Int) ≤ index
    · rw [if_pos (inBack.mpr back)]
      exact bisect_in_part turned held (by omega) (by omega) (.inl (Int.le_refl _)) (by omega)
        (by omega)
    · rw [if_neg (mt inBack.mp back)]
      exact bisect_in_part turned held (Int.le_refl 0) (by omega) (.inr (by omega)) (by omega)
        (by omega)
  · refine ⟨-1, ?_, .inr ⟨rfl, present⟩⟩
    split
    next => exact bisect_of_absent present (by omega) (by omega) (by omega)
    next => exact bisect_of_absent present (by omega) (by omega) (by omega)

/-! ### `bsearch2` -/

/-- The least element stays in the interval, and the last one of it stays behind the turn. -/
theorem leastLoop_spec (lowInside : 0 ≤ low ∧ low ≤ start)
    (highInside : (start : Int) ≤ high ∧ high < nums.length)
    (enough : (high - low).toNat < fuel) : leastLoop nums fuel low high = some (start : Int) := by
  induction fuel generalizing low high with
  | zero => exact absurd enough (Nat.not_lt_zero _)
  | succ fuel inductionHypothesis =>
      rw [leastLoop]
      by_cases more : low < high
      · have inside := middle_lt more
        obtain ⟨value, valueIs⟩ := @exists_entry _ nums (middle low high) (by omega) (by omega)
        obtain ⟨other, otherIs⟩ := @exists_entry _ nums high (by omega) (by omega)
        rw [if_pos more, valueIs, otherIs]
        dsimp only [Option.bind_eq_bind, Option.bind_some]
        simp only [turned.gt_iff valueIs otherIs]
        rw [rank_of_le highInside.1]
        by_cases front : middle low high < start
        · rw [rank_of_lt front, if_pos (by omega)]
          exact inductionHypothesis (by omega) highInside (by omega)
        · rw [rank_of_le (Int.not_lt.mp front), if_neg (by omega)]
          exact inductionHypothesis lowInside (by omega) (by omega)
      · rw [if_neg more, Option.some.injEq]
        omega

theorem locate_in_part {index target : Int} (held : entry nums index = some target)
    (counted : nums.length < 2 ^ 31) (lowInside : 0 ≤ low) (highInside : high < nums.length)
    (onePart : (start : Int) ≤ low ∨ high < start) (within : low ≤ index ∧ index ≤ high)
    (enough : (high + 1 - low).toNat < fuel) :
    locate nums target fuel low high = some index := by
  induction fuel generalizing low high with
  | zero => exact absurd enough (Nat.not_lt_zero _)
  | succ fuel inductionHypothesis =>
      have nonempty : low ≤ high := within.1.trans within.2
      have inside := le_middle nonempty
      obtain ⟨value, valueIs⟩ := @exists_entry _ nums (middle low high) (by omega) (by omega)
      have ordered := turned.ordered (middle low high) index value target valueIs held
      have beyondHeld : InSigned 32 (middle low high + 1) := by
        constructor <;> omega
      rw [locate, if_pos nonempty, valueIs, Option.bind_eq_bind, Option.bind_some]
      by_cases same : value = target
      · have found : middle low high = index := turned.unique (same ▸ valueIs) held
        rw [if_pos same, found]
        rfl
      rw [if_neg same]
      have different : middle low high ≠ index := by
        intro found
        rw [found, held] at valueIs
        exact same (Option.some.inj valueIs).symm
      have sides : value < target ↔ middle low high < index := by
        rw [ordered, rank, rank]
        split_ifs <;> omega
      by_cases before : middle low high < index
      · rw [if_pos (sides.mpr before), signed_of_inSigned beyondHeld, Option.bind_some]
        exact inductionHypothesis (by omega) highInside (by omega) (by omega) (by omega)
      · rw [if_neg (mt sides.mp before)]
        exact inductionHypothesis lowInside (by omega) (by omega) (by omega) (by omega)

omit turned in
theorem locate_of_absent {target : Int} (absent : target ∉ nums) (counted : nums.length < 2 ^ 31)
    (lowInside : 0 ≤ low) (highInside : high < nums.length)
    (enough : (high + 1 - low).toNat < fuel) : locate nums target fuel low high = some (-1) := by
  induction fuel generalizing low high with
  | zero => exact absurd enough (Nat.not_lt_zero _)
  | succ fuel inductionHypothesis =>
      rw [locate]
      by_cases nonempty : low ≤ high
      · have inside := le_middle nonempty
        obtain ⟨value, valueIs⟩ := @exists_entry _ nums (middle low high) (by omega) (by omega)
        have different : value ≠ target := fun same => absent (same ▸ mem_of_entry valueIs)
        have beyondHeld : InSigned 32 (middle low high + 1) := by
          constructor <;> omega
        rw [if_pos nonempty, valueIs, Option.bind_eq_bind, Option.bind_some, if_neg different,
          signed_of_inSigned beyondHeld, Option.bind_some]
        split
        next => exact inductionHypothesis (by omega) highInside (by omega)
        next => exact inductionHypothesis lowInside (by omega) (by omega)
      · rw [if_neg nonempty]

theorem bsearch2_spec (target : Int) (counted : nums.length < 2 ^ 31)
    (enough : nums.length < fuel) :
    ∃ result, bsearch2 fuel nums target = some result ∧ IsIndex nums target result := by
  have startInside := turned.inside
  have highHeld : InSigned 32 ((nums.length : Int) - 1) := by
    constructor <;> omega
  have least : leastLoop nums fuel 0 (nums.length - 1) = some (start : Int) :=
    leastLoop_spec turned (by omega) (by omega) (by omega)
  obtain ⟨last, lastIs⟩ := @exists_entry _ nums (nums.length - 1) (by omega) (by omega)
  rw [bsearch2, converted_natCast (Nat.zero_lt_succ 31) counted, signed_of_inSigned highHeld,
    Option.bind_eq_bind, Option.bind_some, least]
  dsimp only [Option.bind_eq_bind, Option.bind_some]
  rw [getLast?_eq_entry turned, lastIs, Option.bind_some,
    converted_of_inSigned (Nat.zero_lt_succ 31) highHeld]
  by_cases present : target ∈ nums
  · obtain ⟨index, held⟩ := exists_index present
    have indexInside := inside_of_entry held
    have inFront : target > last ↔ index < start := by
      rw [turned.gt_iff held lastIs]
      unfold rank
      split_ifs <;> omega
    refine ⟨index, ?_, .inl held⟩
    by_cases front : index < start
    · rw [if_pos (inFront.mpr front), if_pos (by omega)]
      exact locate_in_part turned held counted (Int.le_refl 0) (by omega) (.inr (by omega))
        (by omega) (by omega)
    · rw [if_neg (mt inFront.mp front)]
      exact locate_in_part turned held counted (by omega) (by omega) (.inl (Int.le_refl _))
        (by omega) (by omega)
  · refine ⟨-1, ?_, .inr ⟨rfl, present⟩⟩
    split
    next =>
      split
      next => exact locate_of_absent present counted (Int.le_refl 0) (by omega) (by omega)
      next => exact locate_of_absent present counted (Int.le_refl 0) (by omega) (by omega)
    next => exact locate_of_absent present counted (by omega) (by omega) (by omega)

theorem index_unique {target left right : Int}
    (leftIs : IsIndex nums target left) (rightIs : IsIndex nums target right) : left = right := by
  rcases leftIs with leftHeld | ⟨rfl, absent⟩
  · rcases rightIs with rightHeld | ⟨rfl, absent⟩
    · exact turned.unique leftHeld rightHeld
    · exact absurd (mem_of_entry leftHeld) absent
  · rcases rightIs with rightHeld | ⟨rfl, -⟩
    · exact absurd (mem_of_entry rightHeld) absent
    · rfl

end

/-- For every rotation of an ascending array whose length is of type `int`. -/
theorem bsearches_agree {sorted : List Int} {fuel : Nat} (ascending : sorted.Pairwise (· < ·))
    (nonempty : sorted ≠ []) (amount : Nat) (target : Int) (counted : sorted.length < 2 ^ 31)
    (enough : sorted.length < fuel) :
    ∃ result, bsearch fuel (sorted.rotate amount) target = some result ∧
      bsearch2 fuel (sorted.rotate amount) target = some result ∧
      IsIndex (sorted.rotate amount) target result := by
  have turned := turned_rotate ascending nonempty amount
  rw [← List.length_rotate sorted amount] at counted enough
  obtain ⟨result, resultIs, isIndex⟩ := bsearch_spec turned target counted enough
  obtain ⟨result2, result2Is, isIndex2⟩ := bsearch2_spec turned target counted enough
  obtain rfl := index_unique turned isIndex isIndex2
  exact ⟨result, resultIs, result2Is, isIndex⟩

theorem bsearches_agree_on_three :
    [1, 2, 3].Pairwise (· < ·) ∧ ∃ result, bsearch 4 ([1, 2, 3].rotate 1) 3 = some result ∧
      bsearch2 4 ([1, 2, 3].rotate 1) 3 = some result ∧
      IsIndex ([1, 2, 3].rotate 1) 3 result :=
  ⟨by decide, bsearches_agree (by decide) (List.cons_ne_nil 1 [2, 3]) 1 3 (by decide) (by decide)⟩

theorem bsearch_of_long {nums : List Int} {target : Int} (fuel : Nat)
    (long : nums.length = 2 ^ 31) : bsearch fuel nums target = none := by
  have overflows : signed 32 (converted 32 ((2 ^ 31 : Nat) : Int) - 1) = none := by decide
  rw [bsearch, if_neg (by omega), findPrivot, long, overflows]
  rfl

theorem bsearch_fails_on_long :
    ((List.range (2 ^ 31)).map Int.ofNat).Pairwise (· < ·) ∧
      ∀ fuel, bsearch fuel (((List.range (2 ^ 31)).map Int.ofNat).rotate 0) 0 = none := by
  constructor
  · refine List.pairwise_map.mpr (List.pairwise_lt_range.imp fun less => ?_)
    exact Int.ofNat_lt.mpr less
  · intro fuel
    apply bsearch_of_long
    rw [List.length_rotate, List.length_map, List.length_range]

end RotatedSearch

end StdPrograms.Hobbies

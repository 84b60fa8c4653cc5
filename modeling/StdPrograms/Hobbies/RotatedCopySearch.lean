import StdPrograms.Hobbies.RotatedSearch

/-!
Contract: a search that undoes the rotation of an array in a copy.

Owns `search` of `solution_33.cpp` and the targets for which it returns what `bsearch` returns.

Does not own the loops that the two share.
-/

namespace StdPrograms.Hobbies

open StdPrograms.Foundation

namespace RotatedSearch

def search (fuel : Nat) (nums : List Int) (target : Int) : Option Int :=
  if nums.length = 0 then some (-1)
  else do
    let privot ← findPrivot fuel nums (fun low high => low < high - 1) fun high => high
    let rotated := nums.drop (privot + 1).toNat ++ nums.take (privot + 1).toNat
    bisect rotated target fuel 0 (converted 32 ((rotated.length : Int) - 1))

/-! ### The element before the least one -/

/-- On the way to the element before the least one, the least one is in the middle of an interval
that begins earlier. -/
def Missed (start : Nat) (low high : Int) : Prop :=
  ∃ left right, Window (start - 1) low high left right ∧ left < (start : Int) - 1 ∧
    middle left right = start

section

variable {nums : List Int} {start fuel : Nat} {low high : Int} (turned : Turned nums start)

theorem missed_iff_right (more : low < high) (before : middle low high + 1 < start) :
    Missed start low high ↔ Missed start (middle low high + 1) high := by
  constructor
  · rintro ⟨left, right, window, early, isMiddle⟩
    rcases (window_iff_of_lt more (by omega)).mp window with ⟨rfl, rfl⟩ | later
    · omega
    · exact ⟨left, right, later, early, isMiddle⟩
  · rintro ⟨left, right, window, early, isMiddle⟩
    exact ⟨left, right, .right more (by omega) window, early, isMiddle⟩

theorem missed_iff_left (more : low < high) (beyond : (start : Int) < middle low high) :
    Missed start low high ↔ Missed start low (middle low high - 1) := by
  constructor
  · rintro ⟨left, right, window, early, isMiddle⟩
    rcases (window_iff_of_gt more (by omega)).mp window with ⟨rfl, rfl⟩ | later
    · omega
    · exact ⟨left, right, later, early, isMiddle⟩
  · rintro ⟨left, right, window, early, isMiddle⟩
    exact ⟨left, right, .left more (by omega) window, early, isMiddle⟩

theorem not_missed_of_middle (found : middle low high + 1 = start) : ¬Missed start low high := by
  rintro ⟨left, right, window, -, isMiddle⟩
  obtain ⟨rfl, rfl⟩ := (window_iff_of_eq (by omega)).mp window
  omega

theorem not_missed_of_low (last : low + 1 = start) : ¬Missed start low high := by
  rintro ⟨left, right, window, early, -⟩
  have bounds := window.bounds
  omega

include turned

/-- Compared with the last element of the interval the loop leaves the greatest one behind where
that one is missed. -/
theorem searchLoop_spec (lowInside : 0 ≤ low ∧ low < start)
    (highInside : (start : Int) ≤ high ∧ high < nums.length)
    (enough : (high + 1 - low).toNat < fuel) :
    ∃ left privot, pivotLoop nums (fun low high => low < high - 1) (fun high => high) fuel low
        high = some (left, privot) ∧ (0 ≤ left ∧ left < start) ∧
      ((left + 1 = start ∨ privot + 1 = start) ∧ ¬Missed start low high ∨
        (left + 1 < start ∧ privot = -1) ∧ Missed start low high) := by
  induction fuel generalizing low high with
  | zero => exact absurd enough (Nat.not_lt_zero _)
  | succ fuel inductionHypothesis =>
      by_cases going : low < high - 1
      · have more : low < high := by omega
        have inside := middle_lt more
        rw [pivotLoop_step turned (decide_eq_true going) lowInside.1 more highInside.2 (by omega)]
        by_cases found : middle low high + 1 = start
        · rw [if_pos found]
          exact ⟨low, middle low high, rfl, lowInside,
            .inl ⟨.inr found, not_missed_of_middle found⟩⟩
        rw [if_neg found, rank_of_le highInside.1]
        by_cases front : middle low high < start
        · rw [rank_of_lt front, if_pos (by omega), missed_iff_right more (by omega)]
          exact inductionHypothesis (by omega) highInside (by omega)
        rw [rank_of_le (Int.not_lt.mp front), if_neg (by omega)]
        by_cases beyond : (start : Int) < middle low high
        · rw [missed_iff_left more beyond]
          exact inductionHypothesis lowInside (by omega) (by omega)
        -- The least element is in the middle, and the rest of the loop is in front of it.
        have loop := @pivotLoop_of_ascending nums start fuel low (middle low high - 1)
          (fun low high => low < high - 1) (fun high => high) turned
          (fun left right going => by have less := of_decide_eq_true going; omega) lowInside.1
          (by omega) (.inr (by omega)) (fun right above below => ⟨by omega, fun i atLeast less => by
            rw [rank_of_lt (by omega), rank_of_lt (by omega)]
            omega⟩) (by omega)
        refine ⟨low, -1, loop, lowInside, ?_⟩
        by_cases last : low + 1 = start
        · exact .inl ⟨.inl last, not_missed_of_low last⟩
        · exact .inr ⟨⟨by omega, rfl⟩, low, high, .here low high, by omega, by omega⟩
      · have atEnd : low + 1 = start := by omega
        rw [pivotLoop, if_neg (by simpa using going)]
        exact ⟨low, -1, rfl, lowInside, .inl ⟨.inl atEnd, not_missed_of_low atEnd⟩⟩

theorem search_privot (counted : nums.length < 2 ^ 31) (enough : nums.length < fuel) :
    ∃ privot, findPrivot fuel nums (fun low high => low < high - 1) (fun high => high) =
        some privot ∧
      (privot = (start : Int) - 1 ∧ ¬Missed start 0 (nums.length - 1) ∨
        privot = -1 ∧ Missed start 0 (nums.length - 1)) := by
  have startInside := turned.inside
  by_cases zero : start = 0
  · have loop := @pivotLoop_of_ascending nums start fuel 0 (nums.length - 1)
      (fun low high => low < high - 1) (fun high => high) turned
      (fun left right going => by have less := of_decide_eq_true going; omega) (Int.le_refl 0)
      (by omega) (.inl (by omega)) (fun right above below => ⟨by omega, fun i low less => by
        rw [rank_of_le (by omega), rank_of_le (by omega)]
        omega⟩) (by omega)
    refine ⟨-1, ?_, .inl ⟨by omega, ?_⟩⟩
    · rw [findPrivot_eq turned counted loop (by omega), if_neg (by omega)]
    · rintro ⟨left, right, window, early, -⟩
      have bounds := window.bounds
      omega
  · obtain ⟨left, privot, loop, leftInside, outcome⟩ := @searchLoop_spec nums start fuel 0
      (nums.length - 1) turned (by omega) (by omega) (by omega)
    rw [findPrivot_eq turned counted loop (by omega)]
    refine ⟨_, rfl, outcome.imp (And.imp_left fun found => ?_) (And.imp_left fun missed => ?_)⟩
    · split <;> omega
    · rw [if_neg (by omega)]
      exact missed.2

/-- All comparisons lead to the target where the middles are in its part. -/
theorem leads_iff {index target : Int} (held : entry nums index = some target) :
    Leads (Below nums target) index 0 (nums.length - 1) ↔
      ∀ left right, Window index 0 (nums.length - 1) left right → left < right →
        (middle left right < start ↔ index < start) := by
  have indexInside := inside_of_entry held
  have sides : ∀ left right, Window index 0 (nums.length - 1) left right → left < right →
      middle left right ≠ index → ((Below nums target (middle left right) ↔
        middle left right < index) ↔ (middle left right < start ↔ index < start)) := by
    intro left right window more different
    have bounds := window.bounds
    have inside := middle_lt more
    obtain ⟨value, valueIs⟩ := @exists_entry _ nums (middle left right) (by omega) (by omega)
    rw [below_iff valueIs, turned.ordered _ index value target valueIs held]
    unfold rank
    split_ifs <;> omega
  constructor
  · intro leads left right window more
    by_cases found : middle left right = index
    · rw [found]
    · exact (sides left right window more found).mp (leads left right window more found)
  · intro parts left right window more different
    exact (sides left right window more different).mpr (parts left right window more)

omit turned in
theorem length_copy (nums : List Int) (place : Nat) :
    (nums.drop place ++ nums.take place).length = nums.length := by
  rw [List.length_append, List.length_drop, List.length_take]
  omega

omit turned in
/-- The copy as `search` leaves it, with so many elements moved to its end. -/
theorem search_eq {target privot : Int} (positive : 0 < nums.length)
    (counted : nums.length < 2 ^ 31)
    (found : findPrivot fuel nums (fun low high => low < high - 1) (fun high => high) =
      some privot) :
    search fuel nums target =
      bisect (nums.drop (privot + 1).toNat ++ nums.take (privot + 1).toNat) target fuel 0
        (nums.length - 1) := by
  have highHeld : InSigned 32 ((nums.length : Int) - 1) := by
    constructor <;> omega
  rw [search, if_neg (by omega), found, Option.bind_eq_bind, Option.bind_some]
  dsimp only
  rw [length_copy, converted_of_inSigned (Nat.zero_lt_succ 31) highHeld]

theorem search_of_absent {target : Int} (absent : target ∉ nums) (counted : nums.length < 2 ^ 31)
    (enough : nums.length < fuel) : search fuel nums target = some (-1) := by
  have startInside := turned.inside
  obtain ⟨privot, found, -⟩ := search_privot turned counted enough
  have length := length_copy nums (privot + 1).toNat
  rw [search_eq (by omega) counted found]
  refine bisect_of_absent (fun member => absent ?_) (by omega) (by omega) (by omega)
  exact (List.mem_append.mp member).elim List.mem_of_mem_drop List.mem_of_mem_take

/-- What is at an index of the copy was at another one. -/
theorem entry_copy_ne {index target : Int} (nonzero : start ≠ 0)
    (held : entry nums index = some target) :
    entry (nums.drop start ++ nums.take start) index ≠ some target := by
  intro again
  have startInside := turned.inside
  obtain ⟨nonneg, -⟩ := inside_of_entry held
  obtain ⟨i, rfl⟩ := Int.eq_ofNat_of_zero_le nonneg
  rw [entry_natCast] at again
  by_cases back : i < (nums.drop start).length
  · rw [List.getElem?_append_left back, List.getElem?_drop, ← entry_natCast] at again
    have same := turned.unique again held
    omega
  · rw [List.getElem?_append_right (Nat.le_of_not_lt back)] at again
    rw [List.length_drop] at again back
    obtain ⟨less, -⟩ := List.getElem?_eq_some_iff.mp again
    rw [List.length_take] at less
    rw [List.getElem?_take_of_lt (by omega), ← entry_natCast] at again
    have same := turned.unique again held
    omega

/-- The array is not rotated; or the turn is missed, and bisecting the array as it is never looks
at the other part on the way to the index. -/
def Agreeing (length start : Nat) (index : Int) : Prop :=
  start = 0 ∨ Missed start 0 (length - 1) ∧
    ∀ left right, Window index 0 (length - 1) left right → left < right →
      (middle left right < start ↔ index < start)

theorem search_eq_index_iff {index target : Int} (held : entry nums index = some target)
    (counted : nums.length < 2 ^ 31) (enough : nums.length < fuel) :
    search fuel nums target = some index ↔ Agreeing nums.length start index := by
  have startInside := turned.inside
  have indexInside := inside_of_entry held
  obtain ⟨privot, found, outcome⟩ := search_privot turned counted enough
  rw [search_eq (by omega) counted found, Agreeing]
  rcases outcome with ⟨rfl, notMissed⟩ | ⟨rfl, missed⟩
  · rw [Int.sub_add_cancel, Int.toNat_natCast]
    by_cases zero : start = 0
    · refine iff_of_true ?_ (.inl zero)
      rw [zero, List.drop_zero, List.take_zero, List.append_nil]
      exact bisect_in_part turned held (Int.le_refl 0) (by omega) (.inl (by omega)) (by omega)
        (by omega)
    · refine iff_of_false ?_ (not_or.mpr ⟨zero, fun both => notMissed both.1⟩)
      have length := length_copy nums start
      obtain ⟨result, resultIs, where'⟩ := @bisect_returns (nums.drop start ++ nums.take start)
        target fuel 0 (nums.length - 1) (by omega) (by omega) (by omega)
      rw [resultIs, Option.some.injEq]
      rintro rfl
      rcases where' with negative | ⟨again, -⟩
      · omega
      · exact entry_copy_ne turned zero held again
  · have whole : nums.drop ((-1 : Int) + 1).toNat ++ nums.take ((-1 : Int) + 1).toNat = nums := by
      exact List.append_nil nums
    rw [whole, bisect_eq_iff (Int.le_refl 0) (by omega) (by omega) held
      (fun i again => turned.unique again held) (by omega), leads_iff turned held]
    constructor
    · exact fun parts => .inr ⟨missed, parts⟩
    · rintro (zero | ⟨-, parts⟩)
      · intro left right window more
        have bounds := window.bounds
        have inside := middle_lt more
        omega
      · exact parts

end

/-- `search` and `bsearch` return the same exactly where every index of the target is one on which
they agree. -/
theorem search_eq_bsearch_iff {sorted : List Int} {fuel : Nat} (ascending : sorted.Pairwise (· < ·))
    (amount : Nat) (target : Int) (counted : sorted.length < 2 ^ 31)
    (enough : sorted.length < fuel) :
    (∃ result, search fuel (sorted.rotate amount) target = some result ∧
      bsearch fuel (sorted.rotate amount) target = some result) ↔
        ∀ index, entry (sorted.rotate amount) index = some target →
          Agreeing sorted.length (startOf sorted.length amount) index := by
  by_cases empty : sorted = []
  · subst empty
    rw [List.rotate_nil]
    refine iff_of_true ⟨-1, if_pos rfl, if_pos rfl⟩ fun index held => ?_
    exact absurd (mem_of_entry held) List.not_mem_nil
  have turned := turned_rotate ascending empty amount
  rw [← List.length_rotate sorted amount] at counted enough
  obtain ⟨result, resultIs, isIndex⟩ := bsearch_spec turned target counted enough
  rw [resultIs]
  by_cases present : target ∈ sorted.rotate amount
  · obtain ⟨index, held⟩ := exists_index present
    have agree := search_eq_index_iff turned held counted enough
    rw [List.length_rotate] at agree
    have same : result = index := index_unique turned isIndex (.inl held)
    rw [same]
    constructor
    · rintro ⟨common, searched, isCommon⟩ other otherHeld
      rw [turned.unique otherHeld held]
      rw [← isCommon] at searched
      exact agree.mp searched
    · exact fun all => ⟨index, agree.mpr (all index held), rfl⟩
  · have same : result = -1 := index_unique turned isIndex (.inr ⟨rfl, present⟩)
    refine iff_of_true ⟨-1, search_of_absent turned present counted enough, same ▸ rfl⟩ ?_
    exact fun index held => absurd (mem_of_entry held) present

theorem search_eq_bsearch_iff_on_two :
    [1, 2].Pairwise (· < ·) ∧
      ((∃ result, search 3 ([1, 2].rotate 1) 1 = some result ∧
        bsearch 3 ([1, 2].rotate 1) 1 = some result) ↔
          ∀ index, entry ([(1 : Int), 2].rotate 1) index = some 1 →
            Agreeing [1, 2].length (startOf [1, 2].length 1) index) :=
  ⟨by decide, @search_eq_bsearch_iff [1, 2] 3 (by decide) 1 1 (by decide) (by decide)⟩

theorem search_differs_on_two :
    ([1, 2].rotate 1 = [2, 1] ∧ search 3 [2, 1] 1 = some 0) ∧ bsearch 3 [2, 1] 1 = some 1 := by
  decide

end RotatedSearch

end StdPrograms.Hobbies

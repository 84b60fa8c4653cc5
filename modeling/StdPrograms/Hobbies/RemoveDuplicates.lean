import StdPrograms.Foundation.Bisection
import StdPrograms.Foundation.CountedLoop
import StdPrograms.Foundation.Multiplicities

/-!
Contract: ascending vectors without the third and later copies of a value, in place.

Owns `removeDuplicates`, which goes from run to run, `removeDuplicates2`, whose test is the wrong
way round, and `removeDuplicates3`, which compares with the last but one element kept, of
`solution_80.cpp`, what each of them returns, and for which vectors all are right.

Does not own what is left behind the elements kept.
-/

namespace StdPrograms.Hobbies

open StdPrograms.Foundation

namespace RemoveDuplicates

def store (nums : List Int) (i : Int) (num : Int) : Option (List Int) :=
  if 0 ≤ i ∧ i < nums.length then some (nums.set i.toNat num) else none

/-! ### `removeDuplicates` -/

/-- `while (i < size - 1 && nums[i + 1] == nums[i]) ++i;` -/
def lastEqual (size : Int) (nums : List Int) (i : Nat) : Option Nat :=
  if (i : Int) < size - 1 then do
    let next ← nums[i + 1]?
    let num ← nums[i]?
    if next = num then lastEqual size nums (i + 1) else return i
  else some i
termination_by (size - i).toNat

/-- Each round ends behind the element it begins with. -/
def runLoop (size : Int) : Nat → Nat → Nat → List Int → Option (Nat × List Int)
  | 0, _, _, _ => none
  | fuel + 1, i, pos, nums =>
      if (i : Int) < size then do
        let num ← nums[i]?
        let nums ← store nums pos num
        let pos := pos + 1
        let tmp := i
        let i ← lastEqual size nums i
        if i ≠ tmp then do
          let num ← nums[tmp]?
          let nums ← store nums pos num
          runLoop size fuel (i + 1) (pos + 1) nums
        else runLoop size fuel (i + 1) pos nums
      else some (pos, nums)

def removeDuplicates (nums : List Int) : Option (Int × List Int) := do
  let size := converted 32 nums.length
  let (pos, nums) ← runLoop size (nums.length + 1) 0 0 nums
  return (pos, nums)

/-! ### `removeDuplicates2` -/

def invertedRound (state : Int × List Int) (i : Nat) : Option (Int × List Int) := do
  let (count, nums) := state
  let num ← nums[i]?
  let before ← entry nums (i - 2 - count)
  if num ≠ before then return (count + 1, nums)
  else
    let nums ← store nums (i - count) num
    return (count, nums)

def removeDuplicates2 (nums : List Int) : Option (Int × List Int) := do
  let size := converted 32 nums.length
  let (count, nums) ← forLoop 2 (size - 2).toNat invertedRound (0, nums)
  return (size - count, nums)

/-! ### `removeDuplicates3` -/

/-- `i < 2 || num != nums[i - 2]` -/
def isKept (nums : List Int) (i : Nat) (num : Int) : Option Bool :=
  if i < 2 then some true
  else do
    let before ← nums[i - 2]?
    return num ≠ before

/-- `num` is a copy, so that the swap only writes `nums[i]`. -/
def keepRound (state : Nat × List Int) (k : Nat) : Option (Nat × List Int) := do
  let (i, nums) := state
  let num ← nums[k]?
  if ← isKept nums i num then
    let nums ← store nums i num
    let i ← position 32 (i + 1)
    return (i, nums)
  else return (i, nums)

def removeDuplicates3 (nums : List Int) : Option (Int × List Int) := do
  let (i, nums) ← forLoop 0 nums.length keepRound (0, nums)
  return (i, nums)

variable {nums kept : List Int}

/-- The length is returned, and the elements kept are at the front. -/
def Gives (result : Option (Int × List Int)) (kept : List Int) : Prop :=
  ∃ out, result = some ((kept.length : Int), out) ∧ kept <+: out

/-! ### Reading and writing -/

theorem exists_element {i : Nat} (inside : i < nums.length) : ∃ num, nums[i]? = some num :=
  ⟨_, List.getElem?_eq_getElem inside⟩

theorem store_eq {i : Nat} (inside : i < nums.length) (num : Int) :
    store nums i num = some (nums.set i num) := by
  rw [store, if_pos (by omega), Int.toNat_natCast]

theorem take_set_succ {i : Nat} (inside : i < nums.length) (num : Int) :
    (nums.set i num).take (i + 1) = nums.take i ++ [num] := by
  rw [List.take_add_one, List.getElem?_set_self inside, List.take_set_of_le (Nat.le_refl i)]
  rfl

theorem take_add_replicate {i copies : Nat} {num : Int}
    (equal : ∀ k < copies, nums[i + k]? = some num) :
    nums.take (i + copies) = nums.take i ++ List.replicate copies num := by
  induction copies with
  | zero => simp
  | succ copies inductionHypothesis =>
      rw [← Nat.add_assoc, List.take_add_one, equal copies (Nat.lt_succ_self copies),
        inductionHypothesis fun k below => equal k (Nat.lt_succ_of_lt below),
        List.replicate_succ', List.append_assoc]
      rfl

/-! ### From run to run -/

theorem lastEqual_spec {size i : Nat} (inside : i < size) (upTo : size ≤ nums.length) :
    ∃ more, i + more < size ∧ lastEqual size nums i = some (i + more) ∧
      (∀ k ≤ more, nums[i + k]? = nums[i]?) ∧
      (i + more + 1 < size → nums[i + more + 1]? ≠ nums[i]?) := by
  induction rest : size - i generalizing i with
  | zero => omega
  | succ rest inductionHypothesis =>
      rw [lastEqual]
      split
      next notLast =>
        have nextIs : nums[i + 1]? = some nums[i + 1] := List.getElem?_eq_getElem (by omega)
        have numIs : nums[i]? = some nums[i] := List.getElem?_eq_getElem (by omega)
        simp only [nextIs, numIs, Option.bind_eq_bind, Option.bind_some]
        split
        next equal =>
          obtain ⟨more, inRange, returned, same, ends⟩ :=
            inductionHypothesis (show i + 1 < size by omega) (by omega)
          have shift : ∀ k, i + (k + 1) = i + 1 + k := fun k => by omega
          rw [nextIs, equal, ← numIs] at same ends
          refine ⟨more + 1, by omega, ?_, fun k atMost => ?_, ?_⟩
          · rw [returned, shift more]
          · cases k with
            | zero => rw [Nat.add_zero, numIs]
            | succ k => rw [shift k, same k (by omega), numIs]
          · rw [shift more, ← numIs]
            exact ends
        next differ =>
          refine ⟨0, by omega, rfl, fun k atMost => ?_, fun _ equal => ?_⟩
          · rw [Nat.le_zero.mp atMost, Nat.add_zero, numIs]
          · rw [Nat.add_zero, nextIs, Option.some.injEq] at equal
            exact differ equal
      next last =>
        refine ⟨0, by omega, rfl, fun k atMost => ?_, fun more => ?_⟩
        · rw [Nat.le_zero.mp atMost, Nat.add_zero]
        · omega

/-- The loop at the beginning of a run: the elements from `i` on are as before, those kept of the
others are at the front. -/
structure AtRun (nums : List Int) (size i pos : Nat) (now : List Int) : Prop where
  inside : i ≤ size
  behind : pos ≤ i
  length : now.length = nums.length
  unread : ∀ k ≥ i, now[k]? = nums[k]?
  kept : KeptUpTo 2 (nums.take i) (now.take pos)
  begins : ∀ num, i < size → nums[i]? = some num → num ∉ nums.take i

/-- Up to two copies of the element of a run are written. -/
theorem AtRun.next (ascending : nums.Pairwise (· ≤ ·)) {size i pos more : Nat}
    {now after : List Int} {num : Int} (atRun : AtRun nums size i pos now)
    (inRange : i + more < size)
    (run : ∀ k ≤ more, nums[i + k]? = some num)
    (ends : i + more + 1 < size → nums[i + more + 1]? ≠ some num)
    (length : after.length = nums.length) (unread : ∀ k ≥ i + more + 1, after[k]? = nums[k]?)
    (written : after.take (pos + min 2 (more + 1)) =
      now.take pos ++ List.replicate (min 2 (more + 1)) num) :
    AtRun nums size (i + more + 1) (pos + min 2 (more + 1)) after := by
  have numIs := run 0 (Nat.zero_le more)
  rw [Nat.add_zero] at numIs
  have taken := take_add_replicate fun k below => run k (Nat.le_of_lt_succ below)
  have behind := atRun.behind
  refine ⟨by omega, by omega, length, unread, ?_, fun other below otherIs member => ?_⟩
  · rw [written, Nat.add_assoc, taken]
    exact atRun.kept.append_replicate (atRun.begins num (by omega) numIs) (more + 1)
  · obtain ⟨k, early, kIs⟩ := exists_of_mem_take member
    have atMost := rel_of_pairwise_of_le le_refl ascending (Nat.le_of_lt_succ early) kIs
      (run more (Nat.le_refl more))
    have atLeast := rel_of_pairwise ascending (Nat.lt_succ_self (i + more))
      (run more (Nat.le_refl more)) otherIs
    obtain rfl := le_antisymm atMost atLeast
    exact ends below otherIs

theorem runLoop_spec (ascending : nums.Pairwise (· ≤ ·)) {size : Nat} (upTo : size ≤ nums.length)
    {fuel i pos : Nat} {now : List Int} (atRun : AtRun nums size i pos now)
    (enough : size - i < fuel) :
    ∃ last out, runLoop size fuel i pos now = some (last, out) ∧ last ≤ out.length ∧
      KeptUpTo 2 (nums.take size) (out.take last) := by
  induction fuel generalizing i pos now with
  | zero => exact absurd enough (Nat.not_lt_zero _)
  | succ fuel inductionHypothesis =>
      have behind := atRun.behind
      have length := atRun.length
      rw [runLoop]
      split
      next running =>
        have below : i < size := by omega
        have posInside : pos < now.length := by omega
        obtain ⟨num, numIs⟩ := exists_element (show i < nums.length by omega)
        have lengthNext : (now.set pos num).length = nums.length := by
          rw [List.length_set, length]
        have unreadNext : ∀ k ≥ i, (now.set pos num)[k]? = nums[k]? := by
          intro k atLeast
          rcases eq_or_ne pos k with rfl | other
          · obtain rfl : pos = i := by omega
            rw [List.getElem?_set_self posInside, numIs]
          · rw [List.getElem?_set_ne other, atRun.unread k atLeast]
        obtain ⟨more, inRange, returned, same, ends⟩ :=
          @lastEqual_spec (now.set pos num) size i below (by omega)
        rw [unreadNext i (Nat.le_refl i), numIs] at same ends
        have run : ∀ k ≤ more, nums[i + k]? = some num := fun k atMost =>
          (unreadNext _ (Nat.le_add_right i k)).symm.trans (same k atMost)
        rw [unreadNext (i + more + 1) (by omega)] at ends
        simp only [atRun.unread i (Nat.le_refl i), numIs, store_eq posInside, returned,
          Option.bind_eq_bind, Option.bind_some]
        split
        next several =>
          have secondInside : pos + 1 < (now.set pos num).length := by omega
          have two : min 2 (more + 1) = 2 := by omega
          have secondStored := store_eq secondInside num
          push_cast at secondStored
          simp only [unreadNext i (Nat.le_refl i), numIs, Nat.cast_add, Nat.cast_one, secondStored,
            Option.bind_some]
          refine @inductionHypothesis (i + more + 1) (pos + 2)
            ((now.set pos num).set (pos + 1) num) ?_ (by omega)
          rw [← two]
          refine AtRun.next ascending atRun inRange run ends ?_ (fun k behindRun => ?_) ?_
          · rw [List.length_set, lengthNext]
          · rw [List.getElem?_set_ne (by omega), unreadNext k (by omega)]
          · rw [two, ← Nat.add_assoc pos 1 1, take_set_succ secondInside, take_set_succ posInside,
              List.append_assoc]
            rfl
        next single =>
          obtain rfl : more = 0 := by omega
          refine @inductionHypothesis (i + 0 + 1) (pos + min 2 (0 + 1)) _ ?_ (by omega)
          refine AtRun.next ascending atRun inRange run ends lengthNext
            (fun k behindRun => unreadNext k (by omega)) ?_
          exact take_set_succ posInside num
      next done =>
        have inside := atRun.inside
        obtain rfl : i = size := by omega
        exact ⟨pos, now, rfl, by omega, atRun.kept⟩

/-- The elements that `size` counts are gone through. -/
def counted (nums : List Int) : List Int := nums.take (converted 32 nums.length).toNat

theorem counted_eq (small : nums.length < 2 ^ 31) : counted nums = nums := by
  rw [counted, toNat_converted (by decide) small, List.take_length]

theorem toNat_converted_le (length : Nat) : (converted 32 length).toNat ≤ length := by
  simp only [converted]
  omega

/-- The first function keeps what is to be kept of the elements counted. -/
theorem removeDuplicates_spec (ascending : nums.Pairwise (· ≤ ·)) :
    ∃ kept, KeptUpTo 2 (counted nums) kept ∧ Gives (removeDuplicates nums) kept := by
  have upTo := toNat_converted_le nums.length
  rcases lt_or_ge (converted 32 nums.length) 0 with negative | nonnegative
  · refine ⟨[], ?_, nums, ?_, List.nil_prefix⟩
    · rw [counted, Int.toNat_of_nonpos negative.le]
      exact KeptUpTo.nil
    · have stops : ¬((0 : Nat) : Int) < converted 32 nums.length := by omega
      rw [removeDuplicates, runLoop, if_neg stops]
      rfl
  · obtain ⟨size, sizeIs⟩ := Int.eq_ofNat_of_zero_le nonnegative
    rw [sizeIs, Int.toNat_natCast] at upTo
    have atRun : AtRun nums size 0 0 nums :=
      ⟨Nat.zero_le _, Nat.le_refl 0, rfl, fun _ _ => rfl, KeptUpTo.nil, fun _ _ _ => by simp⟩
    obtain ⟨last, out, returned, inside, kept⟩ :=
      @runLoop_spec nums ascending size upTo (nums.length + 1) 0 0 nums atRun (by omega)
    have length : (out.take last).length = last := List.length_take_of_le inside
    refine ⟨out.take last, ?_, out, ?_, List.take_prefix last out⟩
    · rwa [counted, sizeIs, Int.toNat_natCast]
    · rw [removeDuplicates, sizeIs, returned, length]
      rfl

/-! ### With the last but one element kept -/

/-- Before each round of the range loop. -/
structure AtElement (nums : List Int) (done : Nat) (state : Nat × List Int) : Prop where
  behind : state.1 ≤ done
  length : state.2.length = nums.length
  unread : ∀ k ≥ done, state.2[k]? = nums[k]?
  kept : KeptUpTo 2 (nums.take done) (state.2.take state.1)

/-- An element is kept if and only if fewer than two equal ones are before it. -/
theorem isKept_spec (ascending : nums.Pairwise (· ≤ ·)) {done : Nat} {state : Nat × List Int}
    (atElement : AtElement nums done state) {num : Int} (numIs : nums[done]? = some num) :
    isKept state.2 state.1 num = some (decide ((nums.take done).count num < 2)) := by
  obtain ⟨i, now⟩ := state
  obtain ⟨behind, length, unread, kept⟩ := atElement
  obtain ⟨inside, -⟩ := List.getElem?_eq_some_iff.mp numIs
  dsimp only at behind length kept
  have keptLength : (now.take i).length = i := List.length_take_of_le (by omega)
  have counts := kept.counts num
  rw [isKept]
  split
  next few =>
    have atMost : (now.take i).count num ≤ (now.take i).length := List.count_le_length
    rw [Option.some.injEq, eq_comm, decide_eq_true_iff]
    omega
  next enough =>
    have most : ∀ a ∈ now.take i, a ≤ num := by
      intro a member
      obtain ⟨k, early, kIs⟩ := exists_of_mem_take (kept.sublist.subset member)
      exact rel_of_pairwise ascending early kIs numIs
    have keptAscending := (ascending.sublist (List.take_sublist done nums)).sublist kept.sublist
    have twice := @le_count_iff _ _ _ _ keptAscending most (i - 2) (by omega)
    rw [keptLength, List.getElem?_take_of_lt (by omega), counts] at twice
    obtain ⟨before, beforeIs⟩ := exists_element (show i - 2 < now.length by omega)
    simp only [beforeIs, Option.some.injEq, Option.bind_eq_bind, Option.bind_some, pure] at twice ⊢
    rw [decide_eq_decide]
    rw [ne_eq, eq_comm, ← twice]
    omega

theorem keepRound_spec (ascending : nums.Pairwise (· ≤ ·)) {kept : List Int}
    (keptOfAll : KeptUpTo 2 nums kept) (small : kept.length < 2 ^ 31) {done : Nat}
    {state : Nat × List Int} (inside : done < nums.length) (atElement : AtElement nums done state) :
    ∃ after, keepRound state done = some after ∧ AtElement nums (done + 1) after := by
  obtain ⟨num, numIs⟩ := exists_element inside
  have keeps := isKept_spec ascending atElement numIs
  obtain ⟨i, now⟩ := state
  obtain ⟨behind, length, unread, keptBefore⟩ := atElement
  dsimp only at behind length unread keptBefore keeps
  have taken : nums.take (done + 1) = nums.take done ++ [num] := by
    rw [List.take_add_one, numIs]
    rfl
  have iInside : i < now.length := by omega
  rcases Nat.lt_or_ge ((nums.take done).count num) 2 with fewer | full
  · have keptAfter := keptBefore.concat fewer
    rw [← taken] at keptAfter
    have fits := keptAfter.length_le (List.take_sublist _ _) keptOfAll
    rw [List.length_append, List.length_take_of_le (by omega), List.length_singleton] at fits
    refine ⟨(i + 1, now.set i num), ?_, by simpa using behind, ?_, fun k behindIt => ?_, ?_⟩
    · simp only [keepRound, unread done (Nat.le_refl done), numIs, keeps, fewer, store_eq iInside,
        position_of_lt (show i + 1 < 2 ^ (32 - 1) by omega), Option.bind_eq_bind, Option.bind_some,
        decide_true, ↓reduceIte, pure]
    · rw [List.length_set, length]
    · rw [List.getElem?_set_ne (by omega), unread k (by omega)]
    · rwa [take_set_succ iInside]
  · have keptAfter := keptBefore.concat_of_le full
    rw [← taken] at keptAfter
    refine ⟨(i, now), ?_, Nat.le_succ_of_le behind, length, fun k behindIt => unread k (by omega),
      keptAfter⟩
    simp [keepRound, unread done (Nat.le_refl done), numIs, keeps, Nat.not_lt_of_le full]

/-- The third function keeps what is to be kept. -/
theorem removeDuplicates3_spec (ascending : nums.Pairwise (· ≤ ·)) {kept : List Int}
    (keptOfAll : KeptUpTo 2 nums kept) (small : kept.length < 2 ^ 31) :
    Gives (removeDuplicates3 nums) kept := by
  have atFirst : AtElement nums 0 (0, nums) :=
    ⟨Nat.le_refl 0, rfl, fun _ _ => rfl, KeptUpTo.nil⟩
  obtain ⟨⟨i, out⟩, returned, behind, length, -, keptLast⟩ := @forLoop_spec _ keepRound 0
    nums.length (0, nums) (AtElement nums) atFirst fun done inside before atElement => by
      rw [Nat.zero_add]
      exact keepRound_spec ascending keptOfAll small inside atElement
  dsimp only at behind length keptLast
  rw [List.take_length] at keptLast
  obtain rfl := keptLast.unique ascending keptOfAll
  refine ⟨out, ?_, List.take_prefix i out⟩
  rw [removeDuplicates3, returned, List.length_take_of_le (by omega)]
  rfl

/-- Where the lengths are in the range of the type, the first and the third function agree. -/
theorem gives_of_lt (ascending : nums.Pairwise (· ≤ ·)) (small : nums.length < 2 ^ 31) :
    ∃ kept, KeptUpTo 2 nums kept ∧ Gives (removeDuplicates nums) kept ∧
      Gives (removeDuplicates3 nums) kept := by
  obtain ⟨kept, keptUpTo, gives⟩ := removeDuplicates_spec ascending
  rw [counted_eq small] at keptUpTo
  exact ⟨kept, keptUpTo, gives, removeDuplicates3_spec ascending keptUpTo
    (Nat.lt_of_le_of_lt keptUpTo.sublist.length_le small)⟩

/-! ### The wrong way round -/

/-- After so many rounds the vector is unchanged, and each of the elements counted equals the last
but one before it. -/
def Inverted (nums : List Int) (rounds : Nat) (state : Int × List Int) : Prop :=
  ∃ w, 2 ≤ w ∧ w ≤ 2 + rounds ∧ state = ((2 + rounds : Nat) - (w : Int), nums) ∧
    (∀ k, 2 ≤ k → k < w → nums[k]? = nums[k - 2]?) ∧
    (w < 2 + rounds → nums[w]? ≠ nums[w - 2]?)

theorem invertedRound_spec (ascending : nums.Pairwise (· ≤ ·)) {rounds : Nat}
    {state : Int × List Int} (inside : 2 + rounds < nums.length)
    (inverted : Inverted nums rounds state) :
    ∃ after, invertedRound state (2 + rounds) = some after ∧
      Inverted nums (rounds + 1) after := by
  obtain ⟨w, atLeast, atMost, rfl, equal, differ⟩ := inverted
  obtain ⟨num, numIs⟩ := exists_element inside
  obtain ⟨before, beforeIs⟩ := exists_element (show w - 2 < nums.length by omega)
  have place :
      ((2 + rounds : Nat) : Int) - 2 - ((2 + rounds : Nat) - (w : Int)) = (w - 2 : Nat) := by
    omega
  simp only [invertedRound, numIs, place, entry_natCast, beforeIs, Option.bind_eq_bind,
    Option.bind_some]
  split
  next other =>
    refine ⟨_, rfl, w, atLeast, by omega, ?_, equal, fun _ => ?_⟩
    · rw [Prod.mk.injEq]
      exact ⟨by omega, rfl⟩
    · rcases Nat.lt_or_eq_of_le atMost with earlier | rfl
      · exact differ earlier
      · rw [numIs, beforeIs, ne_eq, Option.some.injEq]
        exact other
  next same =>
    rw [ne_eq, not_not] at same
    have last : w = 2 + rounds := by
      by_contra earlier
      have less : w < 2 + rounds := by omega
      obtain ⟨middle, middleIs⟩ := exists_element (show w < nums.length by omega)
      have low := rel_of_pairwise ascending (show w - 2 < w by omega) beforeIs middleIs
      have high := rel_of_pairwise ascending less middleIs numIs
      have equals : middle = before := by omega
      exact differ less (by rw [middleIs, beforeIs, equals])
    have here :
        ((2 + rounds : Nat) : Int) - ((2 + rounds : Nat) - (w : Int)) = (2 + rounds : Nat) := by
      omega
    have unchanged : nums.set (2 + rounds) num = nums := by
      obtain ⟨_, rfl⟩ := List.getElem?_eq_some_iff.mp numIs
      exact List.set_getElem_self _
    rw [here, store_eq inside, unchanged]
    refine ⟨_, rfl, w + 1, by omega, by omega, ?_, fun k from_ below => ?_, fun late => ?_⟩
    · rw [Prod.mk.injEq]
      exact ⟨by omega, rfl⟩
    · rcases Nat.lt_or_eq_of_le (Nat.le_of_lt_succ below) with earlier | rfl
      · exact equal k from_ earlier
      · rw [beforeIs, ← same, ← numIs, last]
    · omega

/-- The second function changes nothing, and counts up to the first element that differs from the
last but one before it. -/
theorem removeDuplicates2_spec (ascending : nums.Pairwise (· ≤ ·)) {size : Nat}
    (sizeIs : converted 32 nums.length = size) (several : 2 ≤ size) :
    ∃ w : Nat, 2 ≤ w ∧ removeDuplicates2 nums = some ((w : Int), nums) ∧
      (∀ k, 2 ≤ k → k < w → nums[k]? = nums[k - 2]?) ∧ (w < size → nums[w]? ≠ nums[w - 2]?) := by
  have upTo := toNat_converted_le nums.length
  rw [sizeIs, Int.toNat_natCast] at upTo
  have rounds : ((size : Int) - 2).toNat = size - 2 := by omega
  have atFirst : Inverted nums 0 (0, nums) :=
    ⟨2, Nat.le_refl 2, Nat.le_refl 2, rfl, fun k _ _ => by omega, fun late => by omega⟩
  obtain ⟨last, returned, w, atLeast, atMost, rfl, equal, differ⟩ :=
    @forLoop_spec _ invertedRound 2 (size - 2) (0, nums) (Inverted nums) atFirst
      fun round below before inverted => invertedRound_spec ascending (by omega) inverted
  refine ⟨w, atLeast, ?_, equal, fun late => differ (by omega)⟩
  have total : (size : Int) - ((2 + (size - 2) : Nat) - (w : Int)) = w := by omega
  simp only [removeDuplicates2, sizeIs, rounds, returned, Option.bind_eq_bind, Option.bind_some,
    total, pure]

theorem removeDuplicates2_of_le (few : converted 32 nums.length ≤ 2) :
    removeDuplicates2 nums = some (converted 32 nums.length, nums) := by
  have none_ : (converted 32 nums.length - 2).toNat = 0 := by omega
  rw [removeDuplicates2, none_, show forLoop 2 0 invertedRound (0, nums) = some (0, nums) from rfl]
  simp

/-! ### When all are right -/

/-- All three return the length of what is to be kept, and have it at the front. -/
def Right (nums : List Int) : Prop :=
  ∃ kept, KeptUpTo 2 nums kept ∧ Gives (removeDuplicates nums) kept ∧
    Gives (removeDuplicates2 nums) kept ∧ Gives (removeDuplicates3 nums) kept

theorem gives_some_iff {length : Int} {out : List Int} :
    Gives (some (length, out)) kept ↔ length = kept.length ∧ kept <+: out := by
  unfold Gives
  simp

/-- An element three times in front is not kept. -/
theorem lt_three_of_prefix (ascending : nums.Pairwise (· ≤ ·)) (keptUpTo : KeptUpTo 2 nums kept)
    (front : kept <+: nums) (equal : nums[2]? = nums[0]?) : kept.length < 3 := by
  by_contra more
  have atMost := front.length_le
  obtain ⟨num, numIs⟩ := exists_element (show 2 < nums.length by omega)
  obtain ⟨next, nextIs⟩ := exists_element (show 1 < nums.length by omega)
  rw [numIs, eq_comm] at equal
  have low := rel_of_pairwise ascending Nat.zero_lt_one equal nextIs
  have high := rel_of_pairwise ascending Nat.one_lt_two nextIs numIs
  obtain rfl : next = num := by omega
  have run : ∀ k < 3, nums[0 + k]? = some next := by
    intro k below
    match k, below with
    | 0, _ => exact equal
    | 1, _ => exact nextIs
    | 2, _ => exact numIs
  have three := take_add_replicate run
  have taken : List.replicate 3 next <+: kept := by
    rw [List.prefix_iff_eq_take.mp front, ← List.nil_append (List.replicate 3 next),
      ← List.take_zero, ← three]
    exact List.take_prefix_take_left (by omega)
  have often := (List.replicate_sublist_iff.mp taken.sublist)
  have := keptUpTo.counts next
  omega

theorem converted_eq_two_iff (length : Nat) : converted 32 length = 2 ↔ length % 2 ^ 32 = 2 := by
  simp only [converted]
  omega

/-- Of more than two elements no more than two are kept only if all are equal. -/
theorem allEqual_of_few (keptUpTo : KeptUpTo 2 nums kept) (many : 2 < nums.length)
    (few : kept.length ≤ 2) : kept.length = 2 ∧ ∀ a ∈ nums, ∀ b ∈ nums, a = b := by
  obtain ⟨only, rfl⟩ := keptUpTo.eq_replicate few many
  refine ⟨List.length_replicate, fun a aMember b bMember => ?_⟩
  rw [← keptUpTo.mem_iff Nat.two_pos] at aMember bMember
  rw [List.eq_of_mem_replicate aMember, List.eq_of_mem_replicate bMember]

theorem equal_of_right (ascending : nums.Pairwise (· ≤ ·)) (many : 2 < nums.length)
    (right : Right nums) : nums.length % 2 ^ 32 = 2 ∧ ∀ a ∈ nums, ∀ b ∈ nums, a = b := by
  obtain ⟨kept, keptUpTo, -, gives, -⟩ := right
  rcases Int.lt_or_le 2 (converted 32 nums.length) with large | small
  · exfalso
    obtain ⟨size, sizeIs⟩ := Int.eq_ofNat_of_zero_le (show 0 ≤ converted 32 nums.length by omega)
    obtain ⟨w, atLeast, returned, equal, differ⟩ :=
      removeDuplicates2_spec ascending sizeIs (by omega)
    rw [returned, gives_some_iff] at gives
    obtain ⟨length, front⟩ := gives
    rcases Nat.lt_or_eq_of_le atLeast with more | rfl
    · have := lt_three_of_prefix ascending keptUpTo front (equal 2 (Nat.le_refl 2) more)
      omega
    · obtain ⟨-, allEqual⟩ := allEqual_of_few keptUpTo many (by omega)
      refine differ (by omega) ?_
      rw [List.getElem?_eq_getElem many, List.getElem?_eq_getElem (show 0 < nums.length by omega),
        allEqual _ (List.getElem_mem _) _ (List.getElem_mem _)]
  · rw [removeDuplicates2_of_le small, gives_some_iff] at gives
    obtain ⟨two, allEqual⟩ := allEqual_of_few keptUpTo many (by omega)
    exact ⟨(converted_eq_two_iff nums.length).mp (by omega), allEqual⟩

theorem right_of_few (ascending : nums.Pairwise (· ≤ ·)) (few : nums.length ≤ 2) :
    Right nums := by
  have same : converted 32 nums.length = nums.length :=
    converted_natCast (by decide) (by omega)
  have small : nums.length < 2 ^ 31 := by omega
  obtain ⟨kept, keptUpTo, gives, gives3⟩ := gives_of_lt ascending small
  obtain rfl := keptUpTo.unique ascending (KeptUpTo.of_length_le few)
  refine ⟨kept, keptUpTo, gives, ?_, gives3⟩
  rw [removeDuplicates2_of_le (by omega), gives_some_iff]
  exact ⟨same, List.prefix_refl kept⟩

theorem right_of_equal (ascending : nums.Pairwise (· ≤ ·)) (two : nums.length % 2 ^ 32 = 2)
    (allEqual : ∀ a ∈ nums, ∀ b ∈ nums, a = b) : Right nums := by
  have sizeIs := (converted_eq_two_iff nums.length).mpr two
  have upTo : 2 ≤ nums.length := by
    have := Nat.mod_le nums.length (2 ^ 32)
    omega
  have length : (nums.take 2).length = 2 := List.length_take_of_le upTo
  have countedIs : counted nums = nums.take 2 := by
    rw [counted, sizeIs]
    rfl
  obtain ⟨kept, keptUpTo, gives⟩ := removeDuplicates_spec ascending
  rw [countedIs] at keptUpTo
  obtain rfl := keptUpTo.unique (ascending.sublist (List.take_sublist 2 nums))
    (KeptUpTo.of_length_le length.le)
  obtain ⟨only, run⟩ : ∃ only, nums = List.replicate nums.length only :=
    ⟨nums[0], List.eq_replicate_iff.mpr ⟨rfl, fun a member =>
      allEqual a member _ (List.getElem_mem _)⟩⟩
  have keptOfAll : KeptUpTo 2 nums (nums.take 2) := by
    refine ⟨List.take_sublist 2 nums, fun a => ?_⟩
    rw [run, List.take_replicate, List.count_replicate, List.count_replicate]
    split <;> omega
  refine ⟨nums.take 2, keptOfAll, gives, ?_, removeDuplicates3_spec ascending keptOfAll (by omega)⟩
  rw [removeDuplicates2_of_le (by omega), gives_some_iff, length, sizeIs]
  exact ⟨rfl, List.take_prefix 2 nums⟩

/-- All are right just if no element is to be left out, or the length is counted as 2 and the
elements are all equal. -/
theorem deduplications_iff (ascending : nums.Pairwise (· ≤ ·)) :
    Right nums ↔ nums.length ≤ 2 ∨
      nums.length % 2 ^ 32 = 2 ∧ ∀ a ∈ nums, ∀ b ∈ nums, a = b := by
  constructor
  · intro right
    rcases Nat.lt_or_ge 2 nums.length with many | few
    · exact .inr (equal_of_right ascending many right)
    · exact .inl few
  · rintro (few | ⟨two, allEqual⟩)
    · exact right_of_few ascending few
    · exact right_of_equal ascending two allEqual

/-- Three equal elements are too many, 2 ^ 32 + 2 of them are not. -/
theorem deduplications_iff_triple :
    ¬Right [1, 4, 4, 4, 7] ∧ Right (List.replicate (2 ^ 32 + 2) 4) := by
  constructor
  · rw [deduplications_iff (by decide)]
    decide
  · have ascending : (List.replicate (2 ^ 32 + 2) (4 : Int)).Pairwise (· ≤ ·) :=
      List.pairwise_replicate.mpr (.inr (le_refl 4))
    refine (deduplications_iff ascending).mpr (.inr ⟨?_, fun a aMember b bMember => ?_⟩)
    · rw [List.length_replicate, Nat.add_mod_left, Nat.mod_eq_of_lt (by decide)]
    · rw [List.eq_of_mem_replicate aMember, List.eq_of_mem_replicate bMember]

/-- The comment's vector, of which five elements are to be kept. -/
theorem not_right_oneOneOne : ¬Right [1, 1, 1, 2, 2, 3] := by
  rintro ⟨kept, keptUpTo, -, gives, -⟩
  have returned : removeDuplicates2 [1, 1, 1, 2, 2, 3] = some (3, [1, 1, 1, 2, 2, 3]) := by decide
  rw [returned, gives_some_iff] at gives
  have := lt_three_of_prefix (by decide) keptUpTo gives.2 rfl
  omega

end RemoveDuplicates

end StdPrograms.Hobbies

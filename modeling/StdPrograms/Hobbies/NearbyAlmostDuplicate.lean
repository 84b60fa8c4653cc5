import StdPrograms.Foundation.Bisection
import StdPrograms.Foundation.SignedInt
import StdPrograms.Foundation.SlidingSet

/-!
Contract: near elements that differ by little.

Owns `containsNearbyAlmostDuplicate` of `solution_220.cpp` with integers that wrap, and for which
vectors it finds out whether there are such elements.

Does not own vectors of 2^63 elements and more.
-/

namespace StdPrograms.Hobbies

open StdPrograms.Foundation

namespace NearbyAlmostDuplicate

/-- `if (i > k) us.erase(nums[i - k - 1]);` -/
def slide (nums : List Int) (k i : Int) (us : Finset Int) : Option (Finset Int) :=
  if i > k then (entry nums (i - k - 1)).map us.erase else some us

/-- The loop; a negative `i` is, without its sign, above every size. -/
def searchLoop (nums : List Int) (k t : Int) : Nat → Int → Finset Int → Option Bool
  | 0, _, _ => none
  | fuel + 1, i, us =>
      if i ≠ nums.length then do
        let us ← slide nums k i us
        let num ← entry nums i
        let e := lowerBound us (converted 32 (num - t))
        if e.any fun least => converted 32 (least - num) ≤ t then return true
        else searchLoop nums k t fuel (converted 32 (i + 1)) (insert num us)
      else some false

def containsNearbyAlmostDuplicate (fuel : Nat) (nums : List Int) (k t : Int) : Option Bool :=
  if k < 0 ∨ t < 0 then some false else searchLoop nums k t fuel 0 ∅

/-! ### What is looked for -/

/-- Two elements at a distance of at most `k` differ by at most `t`. -/
def Near (nums : List Int) (k : Nat) (t : Int) : Prop :=
  ∃ p i left right, p < i ∧ i ≤ p + k ∧ nums[p]? = some left ∧ nums[i]? = some right ∧
    |left - right| ≤ t

/-- Some value is at most `t` away, and the bound from which it is looked for is in the type. -/
def Seen (held : Int → Prop) (t num : Int) : Prop :=
  -2 ^ 31 ≤ num - t ∧ ∃ value, held value ∧ |value - num| ≤ t

/-- The least value from the bound on is so far above that the difference wraps. -/
def Wraps (held : Int → Prop) (t num : Int) : Prop :=
  (-2 ^ 31 ≤ num - t ∧ (∃ value, held value ∧ 2 ^ 31 ≤ value - num) ∧
    ∀ value, held value → value < num - t ∨ 2 ^ 31 ≤ value - num) ∨
  (num - t < -2 ^ 31 ∧ ∃ value, held value ∧ 2 ^ 32 - t ≤ value - num)

section

variable {us : Finset Int} {held : Int → Prop} {num t : Int}

/-- What the comparison says about the least value. -/
theorem difference_le_iff {least : Int} (numHeld : InSigned 32 num) (tHeld : InSigned 32 t)
    (nonneg : 0 ≤ t) (leastHeld : InSigned 32 least)
    (above : converted 32 (num - t) ≤ least) :
    converted 32 (least - num) ≤ t ↔
      num - t < -2 ^ 31 ∨ least - num ≤ t ∨ 2 ^ 31 ≤ least - num := by
  obtain ⟨numLow, numHigh⟩ := numHeld
  obtain ⟨-, tHigh⟩ := tHeld
  obtain ⟨leastLow, leastHigh⟩ := leastHeld
  rw [converted] at above ⊢
  omega

/-- The bound in the set, where it wraps and where it does not. -/
theorem bound_le_iff {value : Int} (numHeld : InSigned 32 num) (tHeld : InSigned 32 t)
    (nonneg : 0 ≤ t) :
    converted 32 (num - t) ≤ value ↔
      if num - t < -2 ^ 31 then 2 ^ 32 - t ≤ value - num else num - t ≤ value := by
  obtain ⟨numLow, numHigh⟩ := numHeld
  obtain ⟨-, tHigh⟩ := tHeld
  rw [converted]
  split <;> omega

/-- Without a value from the bound on there is none near, and no difference wraps. -/
theorem not_seen_of_below (numHeld : InSigned 32 num) (tHeld : InSigned 32 t) (nonneg : 0 ≤ t)
    (below : ∀ value, held value → ¬converted 32 (num - t) ≤ value) :
    ¬(Seen held t num ∨ Wraps held t num) := by
  simp only [bound_le_iff numHeld tHeld nonneg] at below
  rintro (⟨inType, value, isHeld, near⟩ | ⟨inType, ⟨value, isHeld, far⟩, -⟩ |
    ⟨wraps, value, isHeld, far⟩)
  · have notFound := below value isHeld
    rw [if_neg (by omega)] at notFound
    rw [abs_le] at near
    omega
  · have notFound := below value isHeld
    rw [if_neg (by omega)] at notFound
    omega
  · have notFound := below value isHeld
    rw [if_pos wraps] at notFound
    omega

/-- Where the bound is in the type, the least value from it on is near or far above. -/
theorem seen_or_wraps_iff {least : Int} (inType : -2 ^ 31 ≤ num - t) (leastHeld : held least)
    (above : num - t ≤ least) (isLeast : ∀ value, held value → num - t ≤ value → least ≤ value) :
    least - num ≤ t ∨ 2 ^ 31 ≤ least - num ↔ Seen held t num ∨ Wraps held t num := by
  constructor
  · rintro (near | far)
    · refine .inl ⟨inType, least, leastHeld, abs_le.mpr ?_⟩
      omega
    · refine .inr (.inl ⟨inType, ⟨least, leastHeld, far⟩, fun value isHeld => ?_⟩)
      by_cases below : value < num - t
      · exact .inl below
      · have atLeast := isLeast value isHeld (not_lt.mp below)
        omega
  · rintro (⟨-, value, isHeld, near⟩ | ⟨-, -, others⟩ | ⟨wraps, -⟩)
    · rw [abs_le] at near
      have atMost := isLeast value isHeld (by omega)
      omega
    · have far := others least leastHeld
      omega
    · omega

/-- The comparison holds for the least value from the bound on. -/
theorem any_lowerBound_iff (inSet : ∀ value, value ∈ us ↔ held value) (numHeld : InSigned 32 num)
    (tHeld : InSigned 32 t) (nonneg : 0 ≤ t) (usHeld : ∀ value, held value → InSigned 32 value) :
    (lowerBound us (converted 32 (num - t))).any
        (fun least => converted 32 (least - num) ≤ t) = true ↔
      Seen held t num ∨ Wraps held t num := by
  cases found : lowerBound us (converted 32 (num - t)) with
  | none =>
      refine iff_of_false (by simp) (not_seen_of_below numHeld tHeld nonneg fun value isHeld => ?_)
      exact not_le.mpr (lt_of_lowerBound_eq_none found ((inSet value).mpr isHeld))
  | some least =>
      obtain ⟨member, above, isLeast⟩ := lowerBound_eq_some found
      have leastHeld := (inSet least).mp member
      rw [Option.any_some, decide_eq_true_eq,
        difference_le_iff numHeld tHeld nonneg (usHeld least leastHeld) above]
      rw [bound_le_iff numHeld tHeld nonneg] at above
      simp only [bound_le_iff numHeld tHeld nonneg, inSet] at isLeast
      by_cases wraps : num - t < -2 ^ 31
      · rw [if_pos wraps] at above
        exact iff_of_true (.inl wraps) (.inr (.inr ⟨wraps, least, leastHeld, above⟩))
      · simp only [if_neg wraps] at above isLeast
        rw [or_iff_right wraps]
        exact seen_or_wraps_iff (not_lt.mp wraps) leastHeld above isLeast

end

/-! ### The loop -/

/-- The comparison at turn `i`. -/
def Alarm (nums : List Int) (k : Nat) (t : Int) (i : Nat) : Prop :=
  ∃ num, nums[i]? = some num ∧ (Seen (Held nums k i) t num ∨ Wraps (Held nums k i) t num)

section

variable {nums : List Int} {k i fuel : Nat} {t : Int} {us : Finset Int}

/-- The set before turn `i`. -/
def Filled (nums : List Int) (k i : Nat) (us : Finset Int) : Prop :=
  ∀ value, value ∈ us ↔ StillIn nums k i i value

variable (numsHeld : ∀ num ∈ nums, InSigned 32 num) (tHeld : InSigned 32 t) (nonneg : 0 ≤ t)

theorem slide_spec (filled : Filled nums k i us) (inside : i < nums.length) :
    ∃ rest, slide nums k i us = some rest ∧ ∀ value, value ∈ rest ↔ Held nums k i value := by
  rw [slide]
  split
  next late =>
    have later : k < i := by omega
    have here : nums[i - k - 1]? = some nums[i - k - 1] := List.getElem?_eq_getElem (by omega)
    refine ⟨us.erase nums[i - k - 1], ?_, fun value => ?_⟩
    · rw [show (i : Int) - k - 1 = (i - k - 1 : Nat) by omega, entry_natCast, here]
      rfl
    · rw [Finset.mem_erase, held_of_lt later here, filled value]
  next early => exact ⟨us, rfl, fun value => by rw [filled value, held_of_le (by omega)]⟩

include numsHeld tHeld nonneg in
/-- At a turn either the comparison holds or the set is filled for the next one. -/
theorem searchLoop_turn (filled : Filled nums k i us) (inside : i < nums.length) :
    (Alarm nums k t i → searchLoop nums k t (fuel + 1) i us = some true) ∧
      (¬Alarm nums k t i → ∃ next, Filled nums k (i + 1) next ∧
        searchLoop nums k t (fuel + 1) i us =
          searchLoop nums k t fuel (converted 32 ((i : Int) + 1)) next) := by
  obtain ⟨rest, slid, inRest⟩ := slide_spec filled inside
  have here : nums[i]? = some nums[i] := List.getElem?_eq_getElem inside
  have heldInType (value : Int) (held : Held nums k i value) : InSigned 32 value := by
    obtain ⟨p, -, -, atP⟩ := held.recent
    exact numsHeld value (List.mem_of_getElem? atP)
  have compared := any_lowerBound_iff inRest (numsHeld _ (List.getElem_mem inside)) tHeld nonneg
    heldInType
  have alarm_iff : Alarm nums k t i ↔
      Seen (Held nums k i) t nums[i] ∨ Wraps (Held nums k i) t nums[i] := by
    simp [Alarm, here]
  rw [alarm_iff, ← compared, searchLoop, if_pos (by omega), slid]
  dsimp only [Option.bind_eq_bind, Option.bind_some]
  rw [entry_natCast, here]
  dsimp only [Option.bind_some]
  constructor
  · intro holds
    rw [if_pos holds]
    rfl
  · intro fails
    refine ⟨insert nums[i] rest, fun value => ?_, if_neg fails⟩
    rw [Finset.mem_insert, stillIn_succ here, inRest]

theorem searchLoop_of_neg {start : Int} (negative : start < 0) (fuel : Nat) :
    searchLoop nums k t fuel start us = none := by
  cases fuel with
  | zero => rfl
  | succ fuel =>
      rw [searchLoop, if_pos (by omega), slide, if_neg (by omega), entry, if_pos negative]
      rfl

include numsHeld tHeld nonneg in
theorem searchLoop_finds (filled : Filled nums k i us) {at_ : Nat} (from_ : i ≤ at_)
    (alarm : Alarm nums k t at_) (inType : at_ < 2 ^ 31) (enough : at_ - i < fuel) :
    searchLoop nums k t fuel i us = some true := by
  induction fuel generalizing i us with
  | zero => exact absurd enough (Nat.not_lt_zero _)
  | succ fuel inductionHypothesis =>
      obtain ⟨num, here, -⟩ := id alarm
      have inside := (List.getElem?_eq_some_iff.mp here).1
      obtain ⟨found, notFound⟩ := @searchLoop_turn nums k i fuel t us numsHeld tHeld nonneg filled
        (Nat.lt_of_le_of_lt from_ inside)
      by_cases now : Alarm nums k t i
      · exact found now
      · have later : i ≠ at_ := by
          rintro rfl
          exact now alarm
        obtain ⟨next, filledNext, goesOn⟩ := notFound now
        rw [goesOn, converted_succ (by decide) (show i + 1 < 2 ^ 31 by omega)]
        exact inductionHypothesis filledNext (by omega) (by omega)

include numsHeld tHeld nonneg in
theorem searchLoop_finds_none (filled : Filled nums k i us) (inRange : i ≤ nums.length)
    (small : nums.length < 2 ^ 31) (noAlarm : ∀ at_, i ≤ at_ → ¬Alarm nums k t at_)
    (enough : nums.length - i < fuel) : searchLoop nums k t fuel i us = some false := by
  induction fuel generalizing i us with
  | zero => exact absurd enough (Nat.not_lt_zero _)
  | succ fuel inductionHypothesis =>
      rcases Nat.lt_or_eq_of_le inRange with inside | rfl
      · obtain ⟨-, notFound⟩ := @searchLoop_turn nums k i fuel t us numsHeld tHeld nonneg filled
          inside
        obtain ⟨next, filledNext, goesOn⟩ := notFound (noAlarm i (Nat.le_refl i))
        rw [goesOn, converted_succ (by decide) (show i + 1 < 2 ^ 31 by omega)]
        exact inductionHypothesis filledNext inside (fun at_ from_ => noAlarm at_ (by omega))
          (by omega)
      · rw [searchLoop, if_neg (not_not_intro rfl)]

include numsHeld tHeld nonneg in
/-- Behind the last index of the type there is no element. -/
theorem searchLoop_leaves (filled : Filled nums k i us) (inType : i < 2 ^ 31)
    (large : 2 ^ 31 ≤ nums.length)
    (noAlarm : ∀ at_, i ≤ at_ → at_ < 2 ^ 31 → ¬Alarm nums k t at_) (fuel : Nat) :
    searchLoop nums k t fuel i us = none := by
  induction fuel generalizing i us with
  | zero => rfl
  | succ fuel inductionHypothesis =>
      obtain ⟨-, notFound⟩ := @searchLoop_turn nums k i fuel t us numsHeld tHeld nonneg filled
        (by omega)
      obtain ⟨next, filledNext, goesOn⟩ := notFound (noAlarm i (Nat.le_refl i) inType)
      rw [goesOn]
      rcases Nat.lt_or_eq_of_le (Nat.succ_le_of_lt inType) with more | last
      · rw [converted_succ (by decide) more]
        exact inductionHypothesis filledNext more fun at_ from_ => noAlarm at_ (by omega)
      · have wrapped : converted 32 ((i : Int) + 1) < 0 := by
          rw [converted]
          omega
        exact searchLoop_of_neg wrapped fuel

end

/-! ### Which vectors are handled -/

/-- With enough fuel it returns whether there are such elements; no index leaves the vector. -/
def Right (nums : List Int) (k t : Int) : Prop :=
  ∃ enough, ∀ fuel ≥ enough, ∃ result, containsNearbyAlmostDuplicate fuel nums k t = some result ∧
    (result = true ↔ 0 ≤ k ∧ 0 ≤ t ∧ Near nums k.toNat t)

/-- Where there are near elements, some comparison holds in time, and otherwise none wraps. -/
def Handled (nums : List Int) (k : Nat) (t : Int) : Prop :=
  (Near nums k t ∧ ∃ i < 2 ^ 31, Alarm nums k t i) ∨
    ¬Near nums k t ∧ nums.length < 2 ^ 31 ∧
      ∀ i num, nums[i]? = some num → ¬Wraps (Held nums k i) t num

theorem near_of_seen {nums : List Int} {k i : Nat} {t num : Int} (here : nums[i]? = some num)
    (seen : Seen (Held nums k i) t num) : Near nums k t := by
  obtain ⟨-, value, held, close⟩ := seen
  obtain ⟨p, before, recent, atP⟩ := held.recent
  exact ⟨p, i, value, num, before, recent, atP, here, close⟩

theorem filled_first (nums : List Int) (k : Nat) : Filled nums k 0 ∅ :=
  fun value => iff_of_false (Finset.notMem_empty value) (not_stillIn_zero 0)

/-- What is returned, for elements of the type, follows from the comparisons. -/
theorem contains_cases {nums : List Int} (numsHeld : ∀ num ∈ nums, InSigned 32 num) (k : Nat)
    {t : Int} (tHeld : InSigned 32 t) (nonneg : 0 ≤ t) :
    ((∃ i < 2 ^ 31, Alarm nums k t i) ∧
      ∃ enough, ∀ fuel ≥ enough, containsNearbyAlmostDuplicate fuel nums k t = some true) ∨
    ((∀ i, ¬Alarm nums k t i) ∧ nums.length < 2 ^ 31 ∧
      ∃ enough, ∀ fuel ≥ enough, containsNearbyAlmostDuplicate fuel nums k t = some false) ∨
    ((∀ i < 2 ^ 31, ¬Alarm nums k t i) ∧ 2 ^ 31 ≤ nums.length ∧
      ∀ fuel, containsNearbyAlmostDuplicate fuel nums k t = none) := by
  have filled := filled_first nums k
  have unfolded (fuel : Nat) : containsNearbyAlmostDuplicate fuel nums k t =
      searchLoop nums k t fuel (0 : Nat) ∅ := if_neg (by omega)
  simp only [unfolded]
  by_cases alarms : ∃ i < 2 ^ 31, Alarm nums k t i
  · obtain ⟨i, inType, alarm⟩ := alarms
    exact .inl ⟨⟨i, inType, alarm⟩, i + 1, fun fuel enough =>
      searchLoop_finds numsHeld tHeld nonneg filled (Nat.zero_le i) alarm inType (by omega)⟩
  · have noAlarm : ∀ i < 2 ^ 31, ¬Alarm nums k t i := fun i inType alarm =>
      alarms ⟨i, inType, alarm⟩
    rcases Nat.lt_or_ge nums.length (2 ^ 31) with small | large
    · have never (i : Nat) : ¬Alarm nums k t i := by
        intro alarm
        obtain ⟨num, here, -⟩ := id alarm
        exact noAlarm i ((List.getElem?_eq_some_iff.mp here).1.trans small) alarm
      exact .inr (.inl ⟨never, small, nums.length + 1, fun fuel enough =>
        searchLoop_finds_none numsHeld tHeld nonneg filled (Nat.zero_le _) small
          (fun i _ => never i) (by omega)⟩)
    · exact .inr (.inr ⟨noAlarm, large, fun fuel =>
        searchLoop_leaves numsHeld tHeld nonneg filled (by decide) large
          (fun i _ => noAlarm i) fuel⟩)

theorem right_iff_of_returns {nums : List Int} {k t : Int} {result : Bool}
    (returns : ∃ enough, ∀ fuel ≥ enough,
      containsNearbyAlmostDuplicate fuel nums k t = some result) :
    Right nums k t ↔ (result = true ↔ 0 ≤ k ∧ 0 ≤ t ∧ Near nums k.toNat t) := by
  obtain ⟨enough, returns⟩ := returns
  constructor
  · rintro ⟨other, right⟩
    obtain ⟨same, returned, iff⟩ := right (max enough other) (Nat.le_max_right enough other)
    rw [returns _ (Nat.le_max_left enough other), Option.some.injEq] at returned
    rwa [returned]
  · exact fun iff => ⟨enough, fun fuel more => ⟨result, returns fuel more, iff⟩⟩

/-- Exactly these vectors are handled as they should be. -/
theorem right_iff {nums : List Int} (numsHeld : ∀ num ∈ nums, InSigned 32 num) {k t : Int}
    (tHeld : InSigned 32 t) :
    Right nums k t ↔ k < 0 ∨ t < 0 ∨ Handled nums k.toNat t := by
  by_cases negative : k < 0 ∨ t < 0
  · rw [@right_iff_of_returns nums k t false ⟨0, fun fuel _ => if_pos negative⟩]
    refine iff_of_true (iff_of_false (by simp) ?_) (by tauto)
    rintro ⟨kNonneg, tNonneg, -⟩
    omega
  · have kNonneg : 0 ≤ k := by omega
    have tNonneg : 0 ≤ t := by omega
    obtain ⟨k, rfl⟩ := Int.eq_ofNat_of_zero_le kNonneg
    rw [Int.toNat_natCast, ← or_assoc, or_iff_right negative]
    rcases contains_cases numsHeld k tHeld tNonneg with
      ⟨alarms, returns⟩ | ⟨never, small, returns⟩ | ⟨noAlarm, large, leaves⟩
    · rw [right_iff_of_returns returns, Int.toNat_natCast]
      constructor
      · exact fun iff => .inl ⟨(iff.mp rfl).2.2, alarms⟩
      · rintro (⟨near, -⟩ | ⟨notNear, -, noWrap⟩)
        · exact iff_of_true rfl ⟨kNonneg, tNonneg, near⟩
        · obtain ⟨i, -, num, here, seen | wraps⟩ := alarms
          · exact absurd (near_of_seen here seen) notNear
          · exact absurd wraps (noWrap i num here)
    · rw [right_iff_of_returns returns, Int.toNat_natCast]
      constructor
      · refine fun iff => .inr ⟨fun near => ?_, small, fun i num here wraps =>
          never i ⟨num, here, .inr wraps⟩⟩
        exact absurd (iff.mpr ⟨kNonneg, tNonneg, near⟩) (by simp)
      · rintro (⟨-, i, -, alarm⟩ | ⟨notNear, -⟩)
        · exact absurd alarm (never i)
        · exact iff_of_false (by simp) fun all => notNear all.2.2
    · refine iff_of_false ?_ ?_
      · rintro ⟨enough, right⟩
        obtain ⟨result, returned, -⟩ := right enough (Nat.le_refl enough)
        rw [leaves enough] at returned
        cases returned
      · rintro (⟨-, i, inType, alarm⟩ | ⟨-, small, -⟩)
        · exact noAlarm i inType alarm
        · omega

theorem right_iff_twos : Right [1, 2, 3, 2] 3 0 := by
  refine (right_iff (by decide) (by decide)).mpr
    (.inr (.inr (.inl ⟨?_, 3, by norm_num, 2, rfl, ?_⟩)))
  · exact ⟨1, 3, 2, 2, by decide, by decide, rfl, rfl, by decide⟩
  · exact .inl ⟨by decide, 2, ⟨1, by decide, rfl, fun q taken => by omega⟩, by decide⟩

/-- The bound for the second element wraps to the greatest number of the type. -/
theorem right_fails : ¬Right [-2 ^ 31, -2 ^ 31] 1 1 := by
  rintro ⟨enough, right⟩
  obtain ⟨result, returned, iff⟩ := right (enough + 3) (Nat.le_add_right enough 3)
  have near : Near [-2 ^ 31, -2 ^ 31] (1 : Int).toNat 1 :=
    ⟨0, 1, -2 ^ 31, -2 ^ 31, by decide, by decide, rfl, rfl, by decide⟩
  have isFalse : containsNearbyAlmostDuplicate (enough + 3) [-2 ^ 31, -2 ^ 31] 1 1 = some false :=
    rfl
  rw [isFalse] at returned
  obtain rfl := Option.some.inj returned
  exact absurd (iff.mpr ⟨by decide, by decide, near⟩) (by simp)

/-! ### Where nothing wraps -/

/-- Before the first turn with a near element all near ones are in the set, so it is found there. -/
theorem seen_of_first {nums : List Int} {k p i : Nat} {t left num : Int}
    (inType : -2 ^ 31 ≤ num - t) (before : p < i) (recent : i ≤ p + k)
    (atP : nums[p]? = some left) (close : |left - num| ≤ t)
    (first : ∀ r < i, ∀ q < r, r ≤ q + k → ∀ value, nums[q]? = some value → nums[r]? ≠ some value) :
    Seen (Held nums k i) t num := by
  refine ⟨inType, left, held_of_recent before recent atP fun q r earlier later near atR atQ => ?_,
    close⟩
  exact first r later q earlier near left atQ atR

/-- Small differences are handled: every bound and every difference is in the type. -/
theorem handled_of_narrow {nums : List Int} {k : Nat} {t : Int} (nonneg : 0 ≤ t)
    (small : nums.length < 2 ^ 31) (bounds : ∀ num ∈ nums, -2 ^ 31 ≤ num - t)
    (narrow : ∀ value ∈ nums, ∀ num ∈ nums, value - num < 2 ^ 31) : Handled nums k t := by
  classical
  by_cases near : Near nums k t
  · have someTurn : ∃ i p left right, p < i ∧ i ≤ p + k ∧ nums[p]? = some left ∧
        nums[i]? = some right ∧ |left - right| ≤ t := by
      obtain ⟨p, i, left, right, rest⟩ := near
      exact ⟨i, p, left, right, rest⟩
    obtain ⟨p, left, num, before, recent, atP, here, close⟩ := Nat.find_spec someTurn
    have inside := (List.getElem?_eq_some_iff.mp here).1
    refine .inl ⟨near, Nat.find someTurn, inside.trans small, num, here, .inl ?_⟩
    refine seen_of_first (bounds num (List.mem_of_getElem? here)) before recent atP close ?_
    intro r sooner q earlier within value atQ atR
    exact Nat.find_min someTurn sooner ⟨q, value, value, earlier, within, atQ, atR, by simpa⟩
  · refine .inr ⟨near, small, fun i num here wraps => ?_⟩
    have numBound := bounds num (List.mem_of_getElem? here)
    rcases wraps with ⟨-, ⟨value, held, far⟩, -⟩ | ⟨wraps, -⟩
    · obtain ⟨p, -, -, atP⟩ := held.recent
      have close := narrow value (List.mem_of_getElem? atP) num (List.mem_of_getElem? here)
      omega
    · omega

end NearbyAlmostDuplicate

end StdPrograms.Hobbies

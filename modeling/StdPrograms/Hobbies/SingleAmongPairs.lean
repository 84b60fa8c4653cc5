import StdPrograms.Foundation.BitCounts
import StdPrograms.Foundation.SignedInt

/-!
Contract: the two single numbers among pairs.

Owns `singleNumber`, which keeps a set, and `singleNumber2`, which splits the numbers by a bit,
of `solution_260.cpp`, and that both return the numbers that occur once.

Does not own the order of an unordered set.
-/

namespace StdPrograms.Hobbies

open StdPrograms.Foundation

namespace SingleAmongPairs

/-- The body of the loop over the set. -/
def toggle (us : Finset (BitVec 32)) (x : BitVec 32) : Finset (BitVec 32) :=
  if x ∈ us then us.erase x else insert x us

/-- The set is iterated over in an order of its own. -/
def singleNumber (iterated : Finset (BitVec 32) → List (BitVec 32)) (nums : List (BitVec 32)) :
    List (BitVec 32) :=
  iterated (nums.foldl toggle ∅)

/-- The least number is its own negation. -/
def singleNumber2 (nums : List (BitVec 32)) : List (BitVec 32) :=
  let ret := nums.foldl (· ^^^ ·) 0
  let result := nums.foldl (fun result x =>
    if x &&& ret &&& -ret ≠ 0 then (result.1 ^^^ x, result.2) else (result.1, result.2 ^^^ x))
    ((0, 0) : BitVec 32 × BitVec 32)
  [result.1, result.2]

/-- Only the two occur once, and all others twice. -/
structure TwoSingles (nums : List (BitVec 32)) (first second : BitVec 32) : Prop where
  differ : first ≠ second
  first_once : nums.count first = 1
  second_once : nums.count second = 1
  twice : ∀ num ∈ nums, num ≠ first → num ≠ second → nums.count num = 2

section

variable {nums : List (BitVec 32)} {first second : BitVec 32}

theorem TwoSingles.symm (two : TwoSingles nums first second) : TwoSingles nums second first where
  differ := two.differ.symm
  first_once := two.second_once
  second_once := two.first_once
  twice num inside notSecond notFirst := two.twice num inside notFirst notSecond

theorem TwoSingles.count_modEq (two : TwoSingles nums first second) (num : BitVec 32) :
    nums.count num ≡ [first, second].count num [MOD 2] := by
  by_cases isFirst : num = first
  · rw [isFirst, two.first_once, List.count_cons_self, List.count_singleton,
      if_neg (by simpa using two.differ.symm)]
  by_cases isSecond : num = second
  · rw [isSecond, two.second_once, List.count_cons_of_ne two.differ, List.count_singleton_self]
  · rw [List.count_cons_of_ne (Ne.symm isFirst), List.count_singleton,
      if_neg (by simpa using Ne.symm isSecond)]
    by_cases inside : num ∈ nums
    · rw [two.twice num inside isFirst isSecond]
      rfl
    · rw [List.count_eq_zero.mpr inside]

/-! ### The set -/

theorem mem_foldl_toggle (nums : List (BitVec 32)) (us : Finset (BitVec 32)) (x : BitVec 32) :
    x ∈ nums.foldl toggle us ↔ ¬(x ∈ us ↔ nums.count x % 2 = 1) := by
  induction nums generalizing us with
  | nil => simp
  | cons num rest inductionHypothesis =>
      rw [List.foldl_cons, inductionHypothesis, toggle]
      by_cases same : num = x
      · have flipped : (rest.count x + 1) % 2 = 1 ↔ ¬rest.count x % 2 = 1 := by omega
        rw [same, List.count_cons_self, flipped]
        by_cases inside : x ∈ us
        · simp [inside]
        · simp [inside]
      · rw [List.count_cons_of_ne same]
        by_cases inside : num ∈ us
        · simp [inside, Ne.symm same]
        · simp [inside, Ne.symm same]

theorem singleNumber_perm (two : TwoSingles nums first second)
    {iterated : Finset (BitVec 32) → List (BitVec 32)}
    (iterates : ∀ us, (iterated us).Nodup ∧ ∀ x, x ∈ iterated us ↔ x ∈ us) :
    (singleNumber iterated nums).Perm [first, second] := by
  have distinct : [first, second].Nodup := by simpa using two.differ
  rw [singleNumber]
  refine (List.perm_ext_iff_of_nodup (iterates _).1 distinct).mpr fun x => ?_
  have parity : nums.count x % 2 = [first, second].count x % 2 := two.count_modEq x
  rw [(iterates _).2, mem_foldl_toggle, parity, ← List.count_pos_iff]
  have atMost := List.nodup_iff_count_le_one.mp distinct x
  simp only [Finset.notMem_empty, false_iff]
  omega

/-! ### The bit -/

theorem foldl_split (p : BitVec 32 → Prop) [DecidablePred p] (nums : List (BitVec 32))
    (result : BitVec 32 × BitVec 32) :
    nums.foldl (fun result x => if p x then (result.1 ^^^ x, result.2)
      else (result.1, result.2 ^^^ x)) result =
      ((nums.filter p).foldl (· ^^^ ·) result.1,
        (nums.filter fun x => ¬p x).foldl (· ^^^ ·) result.2) := by
  induction nums generalizing result with
  | nil => rfl
  | cons num rest inductionHypothesis =>
      rw [List.foldl_cons, inductionHypothesis]
      by_cases holds : p num
      · simp [holds]
      · simp [holds]

/-- A property of one of the two leaves only that one. -/
theorem TwoSingles.xorAll_filter (two : TwoSingles nums first second) (p : BitVec 32 → Bool)
    (has : p first = true) (lacks : p second = false) : xorAll (nums.filter p) = first := by
  have alone : xorAll [first] = first := BitVec.zero_xor
  rw [← alone]
  refine xorAll_congr fun num => ?_
  cases holds : p num with
  | false =>
      have notFirst : num ≠ first := fun same => by
        rw [same, has] at holds
        cases holds
      rw [List.count_eq_zero.mpr (fun inside => by simp [holds] at inside), List.count_singleton,
        if_neg (by simpa using Ne.symm notFirst)]
  | true =>
      have notSecond : num ≠ second := fun same => by
        rw [same, lacks] at holds
        cases holds
      rw [List.count_filter holds]
      refine (two.count_modEq num).trans ?_
      rw [List.count_cons, List.count_singleton, if_neg (by simpa using Ne.symm notSecond),
        List.count_singleton, Nat.zero_add]

theorem TwoSingles.total (two : TwoSingles nums first second) :
    nums.foldl (· ^^^ ·) 0 = first ^^^ second := by
  have both := xorAll_congr two.count_modEq
  rw [xorAll, xorAll, List.foldl_cons, List.foldl_cons, BitVec.zero_xor] at both
  exact both

/-- Only where the two differ in the sign alone, the negation is one of the least number. -/
theorem TwoSingles.negation_eq_none_iff (two : TwoSingles nums first second) :
    signed 32 (-(nums.foldl (· ^^^ ·) 0).toInt) = none ↔ first ^^^ second = BitVec.intMin 32 := by
  rw [two.total, ← BitVec.toInt_inj, BitVec.toInt_intMin_of_pos (by decide), signed,
    ite_eq_right_iff]
  obtain ⟨above, below⟩ := inSigned_toInt (first ^^^ second)
  simp only [reduceCtorEq, imp_false, InSigned]
  omega

theorem singleNumber2_perm (two : TwoSingles nums first second) :
    (singleNumber2 nums).Perm [first, second] := by
  have nonzero : first ^^^ second ≠ 0#32 := fun zero =>
    two.differ (BitVec.xor_eq_zero_iff.mp zero)
  obtain ⟨k, isSet, least⟩ := exists_least_bit nonzero
  have bit (x : BitVec 32) :
      x &&& (first ^^^ second) &&& -(first ^^^ second) ≠ 0 ↔ x.getLsbD k = true := by
    rw [BitVec.and_assoc]
    constructor
    · intro some_
      by_contra lacks
      refine some_ (BitVec.eq_of_getLsbD_eq fun i _ => ?_)
      rw [BitVec.getLsbD_and, least]
      by_cases same : i = k
      · rw [same, Bool.eq_false_iff.mpr lacks, Bool.false_and]
        exact BitVec.getLsbD_zero.symm
      · simp [same]
    · intro has zero
      have atBit := congrArg (·.getLsbD k) zero
      simp [BitVec.getLsbD_and, least, has] at atBit
  rw [BitVec.getLsbD_xor] at isSet
  rw [singleNumber2, two.total]
  simp only [bit, foldl_split]
  cases hasFirst : first.getLsbD k with
  | true =>
      rw [hasFirst] at isSet
      have lacks : second.getLsbD k = false := by simpa using isSet
      have low := two.xorAll_filter (·.getLsbD k) hasFirst lacks
      have high := two.symm.xorAll_filter (fun x => !x.getLsbD k) (by simp [lacks])
        (by simp [hasFirst])
      simp only [xorAll] at low high
      simp [low, high]
  | false =>
      rw [hasFirst] at isSet
      have has : second.getLsbD k = true := by simpa using isSet
      have low := two.symm.xorAll_filter (·.getLsbD k) has hasFirst
      have high := two.xorAll_filter (fun x => !x.getLsbD k) (by simp [hasFirst])
        (by simp [has])
      simp only [xorAll] at low high
      simp [low, high, List.Perm.swap]

end

end SingleAmongPairs

end StdPrograms.Hobbies

import StdPrograms.Foundation.BitCounts

/-!
Contract: the single number among triples.

Owns `singleNumber` of `solution_137.cpp` and that it returns the number that occurs once.

Does not own numbers that occur otherwise.
-/

namespace StdPrograms.Hobbies

open StdPrograms.Foundation

namespace SingleAmongTriples

/-- The body of the loop: `x` and `y`. -/
def masks (state : BitVec 32 × BitVec 32) (num : BitVec 32) : BitVec 32 × BitVec 32 :=
  let (x, y) := state
  let x := (num ^^^ x) &&& ~~~y
  let y := (num ^^^ y) &&& ~~~x
  (x, y)

def singleNumber (nums : List (BitVec 32)) : BitVec 32 :=
  (nums.foldl masks (0, 0)).1

/-! ### The masks count modulo three -/

/-- A bit of `x` and `y`, after so many numbers that have it. -/
def Counted (i count : Nat) (state : BitVec 32 × BitVec 32) : Prop :=
  state.1.getLsbD i = decide (count % 3 = 1) ∧ state.2.getLsbD i = decide (count % 3 = 2)

theorem Counted.masks {i count : Nat} {state : BitVec 32 × BitVec 32} (inside : i < 32)
    (counted : Counted i count state) (num : BitVec 32) :
    Counted i (count + (num.getLsbD i).toNat) (masks state num) := by
  obtain ⟨xIs, yIs⟩ := counted
  rw [Counted, SingleAmongTriples.masks]
  simp only [BitVec.getLsbD_and, BitVec.getLsbD_xor, BitVec.getLsbD_not, xIs, yIs, inside]
  obtain zero | one | two : count % 3 = 0 ∨ count % 3 = 1 ∨ count % 3 = 2 := by omega
  · cases num.getLsbD i with
    | false => simp [zero]
    | true => simp [Nat.add_mod, zero]
  · cases num.getLsbD i with
    | false => simp [one]
    | true => simp [Nat.add_mod, one]
  · cases num.getLsbD i with
    | false => simp [two]
    | true => simp [Nat.add_mod, two]

theorem counted_foldl {i : Nat} (inside : i < 32) (nums : List (BitVec 32)) {count : Nat}
    {state : BitVec 32 × BitVec 32} (counted : Counted i count state) :
    Counted i (count + nums.countP (·.getLsbD i)) (nums.foldl masks state) := by
  induction nums generalizing count state with
  | nil => exact counted
  | cons num rest inductionHypothesis =>
      have later := inductionHypothesis (counted.masks inside num)
      have total : count + (num :: rest).countP (·.getLsbD i) =
          count + (num.getLsbD i).toNat + rest.countP (·.getLsbD i) := by
        rw [List.countP_cons]
        cases num.getLsbD i with
        | false => rfl
        | true => exact (Nat.add_right_comm count 1 _).symm
      rw [total]
      exact later

theorem singleNumber_spec {nums : List (BitVec 32)} {single : BitVec 32}
    (once : nums.count single = 1)
    (thrice : ∀ num ∈ nums, num ≠ single → nums.count num = 3) : singleNumber nums = single := by
  have alike : ∀ num, nums.count num ≡ [single].count num [MOD 3] := by
    intro num
    by_cases same : num = single
    · rw [same, once, List.count_singleton_self]
    · rw [List.count_singleton, if_neg (by simpa using Ne.symm same)]
      by_cases inside : num ∈ nums
      · rw [thrice num inside same]
        rfl
      · rw [List.count_eq_zero.mpr inside]
  refine BitVec.eq_of_getLsbD_eq fun i inside => ?_
  have start : Counted i 0 ((0, 0) : BitVec 32 × BitVec 32) := by simp [Counted]
  rw [singleNumber, (counted_foldl inside nums start).1, Nat.zero_add, countP_modEq alike,
    List.countP_singleton]
  cases single.getLsbD i <;> rfl

theorem singleNumber_spec_three :
    ([1, 3, 1, 1] : List (BitVec 32)).count 3 = 1 ∧
      (∀ num ∈ ([1, 3, 1, 1] : List (BitVec 32)), num ≠ 3 →
        ([1, 3, 1, 1] : List (BitVec 32)).count num = 3) ∧
      singleNumber [1, 3, 1, 1] = 3 :=
  ⟨rfl, by simp, singleNumber_spec rfl (by simp)⟩

end SingleAmongTriples

end StdPrograms.Hobbies

import Mathlib.Algebra.Order.Group.Int
import Mathlib.Data.List.Nodup
import StdPrograms.Foundation.Parts
import StdPrograms.Foundation.SignedInt
import StdPrograms.Foundation.SortedTable
import StdPrograms.Foundation.Sorting

/-!
Contract: all combinations with a given sum.

Owns `combinationSum` of `solution_39.cpp` and `combine`, with the path that all calls share.

Does not own candidates that are equal, zero or negative.
-/

namespace StdPrograms.Hobbies

open StdPrograms.Foundation

namespace CombinationSum

/-- The loop from `idx` on; the path and the results are those behind it. -/
def combine (cand : List Int) :
    Nat → Nat → Int → List Int → List (List Int) → Option (List Int × List (List Int))
  | 0, _, _, _, _ => none
  | fuel + 1, idx, target, path, res =>
      if idx < cand.length then do
        let value ← cand[idx]?
        if value ≤ target then
          let path := path ++ [value]
          let (path, res) ← (if value = target then some (path, res ++ [path])
            else combine cand fuel idx (target - value) path res)
          let next ← position 32 (idx + 1)
          combine cand fuel next target path.dropLast res
        else return (path, res)
      else some (path, res)

/-- The candidates are left sorted. -/
def combinationSum (fuel : Nat) (candidates : List Int) (target : Int) :
    Option (List Int × List (List Int)) := do
  let candidates := candidates.mergeSort fun left right => decide (left ≤ right)
  let (_, res) ← combine candidates fuel 0 target [] []
  return (candidates, res)

/-! ### The combinations -/

/-- What is added to the results: the path with each of the combinations, once. -/
structure Combinations (rest : List Int) (target : Int) (path : List Int)
    (found : List (List Int)) : Prop where
  nodup : found.Nodup
  mem_iff : ∀ combination, combination ∈ found ↔
    ∃ sequence, PartSequence rest target sequence ∧ combination = path ++ sequence

section

variable {target value : Int} {path rest : List Int}

theorem combinations_nil (none_ : ∀ sequence, ¬PartSequence rest target sequence)
    (path : List Int) : Combinations rest target path [] := by
  refine ⟨List.nodup_nil, fun combination => iff_of_false List.not_mem_nil ?_⟩
  rintro ⟨sequence, chosen, -⟩
  exact none_ sequence chosen

theorem combinations_zero (positive : ∀ part ∈ rest, 0 < part) (path : List Int) :
    Combinations rest 0 path [path] := by
  refine ⟨List.nodup_singleton path, fun combination => ?_⟩
  simp only [List.mem_singleton, partSequence_zero_iff positive, exists_eq_left, List.append_nil]

/-- The combinations with the next candidate and those without it. -/
theorem Combinations.append {found later : List (List Int)}
    (ascending : (value :: rest).Pairwise (· < ·))
    (with_ : Combinations (value :: rest) (target - value) (path ++ [value]) found)
    (without : Combinations rest target path later) :
    Combinations (value :: rest) target path (found ++ later) := by
  have least := (List.pairwise_cons.mp ascending).1
  constructor
  · refine List.Nodup.append with_.nodup without.nodup fun combination inFound inLater => ?_
    obtain ⟨others, -, rfl⟩ := (with_.mem_iff combination).mp inFound
    obtain ⟨sequence, chosen, same⟩ := (without.mem_iff _).mp inLater
    rw [List.append_assoc, List.append_cancel_left_eq] at same
    have inRest := chosen.taken value (same ▸ List.mem_cons_self)
    exact lt_irrefl value (least value inRest)
  · intro combination
    rw [List.mem_append, with_.mem_iff, without.mem_iff]
    constructor
    · rintro (⟨others, chosen, rfl⟩ | ⟨sequence, chosen, rfl⟩)
      · refine ⟨value :: others, ?_, List.append_assoc path [value] others⟩
        exact (partSequence_cons_iff least).mpr (Or.inl ⟨others, rfl, chosen⟩)
      · exact ⟨sequence, (partSequence_cons_iff least).mpr (Or.inr chosen), rfl⟩
    · rintro ⟨sequence, chosen, rfl⟩
      rcases (partSequence_cons_iff least).mp chosen with ⟨others, rfl, rest⟩ | rest
      · exact Or.inl ⟨others, rest, (List.append_assoc path [value] others).symm⟩
      · exact Or.inr ⟨sequence, rest, rfl⟩

end

/-- The candidates from 1 on reach the target before their number does. -/
theorem lt_of_ascending {cand : List Int} (ascending : cand.Pairwise (· < ·))
    (positive : ∀ part ∈ cand, 0 < part) {idx : Nat} {value : Int}
    (valueIs : cand[idx]? = some value) : (idx : Int) < value := by
  induction idx generalizing value with
  | zero => exact positive value (List.mem_of_getElem? valueIs)
  | succ idx inductionHypothesis =>
      have inside := (List.getElem?_eq_some_iff.mp valueIs).1
      have beforeIs := List.getElem?_eq_getElem (Nat.lt_of_succ_lt inside)
      have smaller := inductionHypothesis beforeIs
      have less := rel_of_pairwise ascending (Nat.lt_succ_self idx) beforeIs valueIs
      omega

theorem combine_spec {cand : List Int} (ascending : cand.Pairwise (· < ·))
    (positive : ∀ part ∈ cand, 0 < part) {fuel idx : Nat} {target : Int}
    (targetPositive : 0 < target) (small : target < 2 ^ 31)
    (enough : target.toNat + (cand.length - idx) < fuel) (path : List Int)
    (res : List (List Int)) :
    ∃ found, combine cand fuel idx target path res = some (path, res ++ found) ∧
      Combinations (cand.drop idx) target path found := by
  induction fuel generalizing idx target path res with
  | zero => exact absurd enough (Nat.not_lt_zero _)
  | succ fuel inductionHypothesis =>
      rw [combine]
      split
      next inside =>
        have valueIs := List.getElem?_eq_getElem inside
        have split_ := List.drop_eq_getElem_cons inside
        generalize cand[idx] = value at valueIs split_
        have restAscending := ascending.sublist (List.drop_sublist idx cand)
        have restPositive : ∀ part ∈ cand.drop idx, 0 < part := fun part member =>
          positive part (List.mem_of_mem_drop member)
        rw [split_] at restAscending restPositive ⊢
        rw [valueIs]
        dsimp only [Option.bind_eq_bind, Option.bind_some]
        split
        next fits =>
          have below := lt_of_ascending ascending positive valueIs
          have nextIs : position 32 (idx + 1) = some (idx + 1) :=
            position_of_lt (by norm_num; omega)
          have valuePositive := restPositive value List.mem_cons_self
          obtain ⟨here, hereIs, hereAll⟩ : ∃ here,
              (if value = target then some (path ++ [value], res ++ [path ++ [value]])
                else combine cand fuel idx (target - value) (path ++ [value]) res) =
                some (path ++ [value], res ++ here) ∧
              Combinations (value :: cand.drop (idx + 1)) (target - value) (path ++ [value])
                here := by
            split
            next equal =>
              rw [equal, sub_self]
              exact ⟨_, rfl, combinations_zero (equal ▸ restPositive) _⟩
            next differs =>
              have shorter := @inductionHypothesis idx (target - value) (by omega) (by omega)
                (by omega) (path ++ [value]) res
              rwa [split_] at shorter
          obtain ⟨later, laterIs, laterAll⟩ := @inductionHypothesis (idx + 1) target
            targetPositive small (by omega) path (res ++ here)
          refine ⟨here ++ later, ?_, hereAll.append restAscending laterAll⟩
          rw [hereIs]
          dsimp only [Option.bind_some]
          rw [nextIs]
          dsimp only [Option.bind_some]
          rw [List.dropLast_concat, laterIs, List.append_assoc]
        next tooLarge =>
          refine ⟨[], by rw [List.append_nil]; rfl, combinations_nil (fun sequence => ?_) path⟩
          refine not_partSequence restPositive targetPositive fun part member => ?_
          rcases List.mem_cons.mp member with rfl | later
          · exact not_le.mp tooLarge
          · exact lt_trans (not_le.mp tooLarge) ((List.pairwise_cons.mp restAscending).1 part later)
      next done =>
        refine ⟨[], by rw [List.append_nil], combinations_nil (fun sequence => ?_) path⟩
        rw [List.drop_eq_nil_of_le (Nat.le_of_not_lt done)]
        exact not_partSequence (fun _ member => absurd member List.not_mem_nil) targetPositive
          fun _ member => absurd member List.not_mem_nil

theorem combinationSum_spec {candidates : List Int} (distinct : candidates.Nodup)
    (positive : ∀ candidate ∈ candidates, 0 < candidate) {target : Int}
    (targetPositive : 0 < target) (small : target < 2 ^ 31) {fuel : Nat}
    (enough : target.toNat + candidates.length < fuel) :
    ∃ sorted result, combinationSum fuel candidates target = some (sorted, result) ∧
      sorted.Perm candidates ∧ result.Nodup ∧
      ∀ combination, combination ∈ result ↔ combination.Pairwise (· ≤ ·) ∧
        (∀ candidate ∈ combination, candidate ∈ candidates) ∧ combination.sum = target := by
  have permutation := List.mergeSort_perm candidates fun left right => decide (left ≤ right)
  have ascending : (candidates.mergeSort fun left right => decide (left ≤ right)).Pairwise
      (· < ·) :=
    (pairwise_mergeSort_le candidates).imp₂ (fun _ _ atMost differ => lt_of_le_of_ne atMost differ)
      (permutation.nodup_iff.mpr distinct)
  obtain ⟨result, returned, all⟩ := combine_spec ascending
    (fun part member => positive part (permutation.mem_iff.mp member)) targetPositive small
    (show target.toNat + ((candidates.mergeSort fun left right => decide (left ≤ right)).length -
      0) < fuel by rw [permutation.length_eq]; exact enough) [] []
  refine ⟨_, result, ?_, permutation, all.nodup, fun combination => ?_⟩
  · rw [combinationSum, returned]
    rfl
  · rw [all.mem_iff, List.drop_zero]
    constructor
    · rintro ⟨_, chosen, rfl⟩
      exact ⟨chosen.ordered, fun part member => permutation.mem_iff.mp (chosen.taken part member),
        chosen.sum_eq⟩
    · rintro ⟨ordered, taken, sum⟩
      exact ⟨combination, ⟨ordered, fun part member => permutation.mem_iff.mpr (taken part member),
        sum⟩, rfl⟩

theorem combinationSum_spec_seven :
    [2, 7, 3].Nodup ∧ (∀ candidate ∈ [2, 7, 3], (0 : Int) < candidate) ∧
      ∃ sorted result, combinationSum 11 [2, 7, 3] 7 = some (sorted, result) ∧
        sorted.Perm [2, 7, 3] ∧ result.Nodup ∧
        ∀ combination, combination ∈ result ↔ combination.Pairwise (· ≤ ·) ∧
          (∀ candidate ∈ combination, candidate ∈ [2, 7, 3]) ∧ combination.sum = 7 :=
  ⟨by decide, by decide,
    combinationSum_spec (by decide) (by decide) (by decide) (by decide) (by decide)⟩

end CombinationSum

end StdPrograms.Hobbies

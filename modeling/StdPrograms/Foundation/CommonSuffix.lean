import Mathlib.Data.List.Infix

/-!
Contract: the longest common suffix of two lists.

Owns the walk of two walkers, each over one list and then over the other, and that they come
to the longest common suffix at the same time.

Does not own what the elements are.
-/

namespace StdPrograms.Foundation

variable {α : Type}

structure LongestCommonSuffix (left right common : List α) : Prop where
  ofLeft : common <:+ left
  ofRight : common <:+ right
  longest : ∀ other, other <:+ left → other <:+ right → other.length ≤ common.length

theorem LongestCommonSuffix.symm {left right common : List α}
    (longest : LongestCommonSuffix left right common) : LongestCommonSuffix right left common :=
  ⟨longest.ofRight, longest.ofLeft,
    fun other ofRight ofLeft => longest.longest other ofLeft ofRight⟩

/-- The walkers stop where the rests before them are the same. -/
def walk [DecidableEq α] (left right : List α) : Nat → List α → List α → Option (List α)
  | 0, _, _ => none
  | fuel + 1, first, second =>
      if first = [] ∨ second = [] ∨ first = second then some first
      else if first.tail = second.tail then some first.tail
      else walk left right fuel (if first.tail = [] then right else first.tail)
        (if second.tail = [] then left else second.tail)

/-- A walker on its own list or already on the other one, with the steps to the end of its way. -/
inductive OnWay (own other : List α) : List α → Nat → Prop where
  | before {rest : List α} (suffix : rest <:+ own) :
      OnWay own other rest (rest.length + other.length)
  | after {rest : List α} (suffix : rest <:+ other) : OnWay own other rest rest.length

/-- Each rest is one of another list. -/
def OnBoth (left right first second : List α) : Prop :=
  first <:+ left ∧ second <:+ right ∨ first <:+ right ∧ second <:+ left

section

variable {left right first second : List α} {steps : Nat}

theorem OnWay.tail {own other rest : List α} (onWay : OnWay own other rest (steps + 1))
    (nonempty : rest ≠ []) (positive : 0 < steps) :
    OnWay own other (if rest.tail = [] then other else rest.tail) steps := by
  have shorter : rest.tail.length + 1 = rest.length := by
    rw [List.length_tail]
    exact Nat.sub_add_cancel (List.length_pos_iff.mpr nonempty)
  generalize total : steps + 1 = all at onWay
  cases onWay with
  | before suffix =>
      have stepsIs : steps = rest.tail.length + other.length := by omega
      rw [stepsIs]
      split
      next ended =>
        rw [ended, List.length_nil, Nat.zero_add]
        exact .after (List.suffix_refl other)
      next => exact .before ((List.tail_suffix rest).trans suffix)
  | after suffix =>
      have stepsIs : steps = rest.tail.length := by omega
      rw [if_neg (List.length_pos_iff.mp (by omega)), stepsIs]
      exact .after ((List.tail_suffix rest).trans suffix)

theorem OnWay.length_le {own other rest : List α} (onWay : OnWay own other rest steps) :
    rest.length ≤ steps := by
  cases onWay with
  | before => exact Nat.le_add_right _ _
  | after => exact Nat.le_refl _

/-- With rests of one length both walkers are on their own list or both on the other one. -/
theorem suffixes_of_length_eq (leftNonempty : left ≠ []) (rightNonempty : right ≠ [])
    (firstOnWay : OnWay left right first steps) (secondOnWay : OnWay right left second steps)
    (sameLength : first.length = second.length) :
    OnBoth left right first second := by
  have leftPositive := List.length_pos_iff.mpr leftNonempty
  have rightPositive := List.length_pos_iff.mpr rightNonempty
  generalize total : steps = all at secondOnWay
  cases firstOnWay with
  | before firstSuffix =>
      cases secondOnWay with
      | before secondSuffix => exact .inl ⟨firstSuffix, secondSuffix⟩
      | after secondSuffix => omega
  | after firstSuffix =>
      cases secondOnWay with
      | before secondSuffix => omega
      | after secondSuffix => exact .inr ⟨firstSuffix, secondSuffix⟩

theorem longest_of_suffixes (suffixes : OnBoth left right first second)
    (same : first = second)
    (longest : ∀ common, common <:+ left → common <:+ right → common.length ≤ first.length) :
    LongestCommonSuffix left right first := by
  subst same
  rcases suffixes with ⟨ofLeft, ofRight⟩ | ⟨ofRight, ofLeft⟩
  · exact ⟨ofLeft, ofRight, longest⟩
  · exact ⟨ofLeft, ofRight, longest⟩

theorem OnBoth.tail (suffixes : OnBoth left right first second) :
    OnBoth left right first.tail second.tail := by
  rcases suffixes with ⟨ofFirst, ofSecond⟩ | ⟨ofFirst, ofSecond⟩
  · exact .inl ⟨(List.tail_suffix first).trans ofFirst, (List.tail_suffix second).trans ofSecond⟩
  · exact .inr ⟨(List.tail_suffix first).trans ofFirst, (List.tail_suffix second).trans ofSecond⟩

/-- The common suffixes are still before walkers with rests of one length. -/
def Ahead (left right first second : List α) : Prop :=
  first.length = second.length →
    ∀ common, common <:+ left → common <:+ right → common.length ≤ first.length

theorem eq_of_suffixes {common : List α} (ofLeft : common <:+ left) (ofRight : common <:+ right)
    (suffixes : OnBoth left right first second)
    (firstLength : common.length = first.length) (sameLength : first.length = second.length) :
    first = second := by
  have same : ∀ {whole rest : List α}, rest <:+ whole → common <:+ whole →
      common.length = rest.length → common = rest := fun restOf commonOf length =>
    (List.suffix_of_suffix_length_le commonOf restOf length.le).eq_of_length length
  rcases suffixes with ⟨ofFirst, ofSecond⟩ | ⟨ofFirst, ofSecond⟩
  · rw [← same ofFirst ofLeft firstLength, same ofSecond ofRight (firstLength.trans sameLength)]
  · rw [← same ofFirst ofRight firstLength, same ofSecond ofLeft (firstLength.trans sameLength)]

theorem length_le_tail {common : List α} (ofLeft : common <:+ left) (ofRight : common <:+ right)
    (suffixes : OnBoth left right first second)
    (ahead : Ahead left right first second) (different : first ≠ second)
    (sameLength : first.length = second.length) : common.length ≤ first.tail.length := by
  have atMost := ahead sameLength common ofLeft ofRight
  have notEqual : common.length ≠ first.length := fun firstLength =>
    different (eq_of_suffixes ofLeft ofRight suffixes firstLength sameLength)
  rw [List.length_tail]
  omega

/-- Who comes to an end of a list has another whole list before him. -/
theorem ahead_of_tails
    (suffixes : first.length = second.length → OnBoth left right first second)
    (ahead : Ahead left right first second) (different : first ≠ second)
    (firstTail : first.tail.length + 1 = first.length)
    (secondTail : second.tail.length + 1 = second.length) :
    Ahead left right (if first.tail = [] then right else first.tail)
      (if second.tail = [] then left else second.tail) := by
  intro sameLength common ofLeft ofRight
  split at sameLength
  next firstEnded =>
    rw [if_pos firstEnded]
    exact ofRight.length_le
  next firstRest =>
    rw [if_neg firstRest]
    split at sameLength
    next =>
      rw [sameLength]
      exact ofLeft.length_le
    next =>
      have wholeLength : first.length = second.length := by omega
      exact length_le_tail ofLeft ofRight (suffixes wholeLength) ahead different wholeLength

end

section

variable [DecidableEq α] {left right : List α}

/-- The walkers have as many steps to the end of their ways as each other. -/
theorem walk_of_onWay {fuel steps : Nat} {first second : List α} (leftNonempty : left ≠ [])
    (rightNonempty : right ≠ []) (firstNonempty : first ≠ []) (secondNonempty : second ≠ [])
    (firstOnWay : OnWay left right first steps) (secondOnWay : OnWay right left second steps)
    (ahead : Ahead left right first second) (enough : steps < fuel) :
    ∃ common, walk left right fuel first second = some common ∧
      LongestCommonSuffix left right common := by
  induction fuel generalizing first second steps with
  | zero => exact absurd enough (Nat.not_lt_zero steps)
  | succ fuel inductionHypothesis =>
      have firstTail := List.length_tail_add_one first (List.length_pos_iff.mpr firstNonempty)
      have secondTail := List.length_tail_add_one second (List.length_pos_iff.mpr secondNonempty)
      rw [walk]
      by_cases same : first = second
      · rw [if_pos (.inr (.inr same))]
        have sameLength := congrArg List.length same
        exact ⟨first, rfl, longest_of_suffixes (suffixes_of_length_eq leftNonempty rightNonempty
          firstOnWay secondOnWay sameLength) same (ahead sameLength)⟩
      rw [if_neg (by simp [firstNonempty, secondNonempty, same])]
      by_cases meet : first.tail = second.tail
      · rw [if_pos meet]
        have sameLength : first.length = second.length := by
          rw [← firstTail, meet, secondTail]
        have suffixes := suffixes_of_length_eq leftNonempty rightNonempty firstOnWay secondOnWay
          sameLength
        exact ⟨first.tail, rfl, longest_of_suffixes suffixes.tail meet
          fun common ofLeft ofRight =>
            length_le_tail ofLeft ofRight suffixes ahead same sameLength⟩
      rw [if_neg meet]
      have atLeast := firstOnWay.length_le
      have secondAtLeast := secondOnWay.length_le
      obtain ⟨rest, rfl⟩ : ∃ rest, steps = rest + 1 := ⟨steps - 1, by omega⟩
      have positive : 0 < rest := by
        apply Nat.pos_of_ne_zero
        intro zero
        apply meet
        rw [List.eq_nil_of_length_eq_zero (by omega : first.tail.length = 0),
          List.eq_nil_of_length_eq_zero (by omega : second.tail.length = 0)]
      refine inductionHypothesis ?_ ?_ (firstOnWay.tail firstNonempty positive)
        (secondOnWay.tail secondNonempty positive) ?_ (by omega)
      · split
        · exact rightNonempty
        · assumption
      · split
        · exact leftNonempty
        · assumption
      · exact ahead_of_tails (suffixes_of_length_eq leftNonempty rightNonempty firstOnWay
          secondOnWay) ahead same firstTail secondTail

theorem walk_spec {fuel : Nat} (leftNonempty : left ≠ []) (rightNonempty : right ≠ [])
    (enough : left.length + right.length < fuel) :
    ∃ common, walk left right fuel left right = some common ∧
      LongestCommonSuffix left right common := by
  refine walk_of_onWay leftNonempty rightNonempty leftNonempty rightNonempty
    (.before (List.suffix_refl left)) ?_ (fun _ common ofLeft _ => ofLeft.length_le) enough
  rw [Nat.add_comm]
  exact .before (List.suffix_refl right)

end

end StdPrograms.Foundation

import Mathlib.Data.List.Chain
import Mathlib.Data.List.Infix

/-!
Contract: the runs of equal elements of a list.

Owns the runs with their lengths, that they give the list back, and that neighbouring runs differ.

Does not own how a run is written.
-/

namespace StdPrograms.Foundation

variable {α : Type}

/-- The list of which these are the runs. -/
def expand (runs : List (Nat × α)) : List α :=
  runs.flatMap fun run => List.replicate run.1 run.2

theorem expand_cons (run : Nat × α) (rest : List (Nat × α)) :
    expand (run :: rest) = List.replicate run.1 run.2 ++ expand rest :=
  List.flatMap_cons

theorem replicate_infix_expand {runs : List (Nat × α)} {run : Nat × α} (member : run ∈ runs) :
    List.replicate run.1 run.2 <:+: expand runs := by
  obtain ⟨front, back, rfl⟩ := List.append_of_mem member
  refine ⟨expand front, expand back, ?_⟩
  rw [expand, expand, expand, List.flatMap_append, List.flatMap_cons, List.append_assoc]

/-- Neighbouring runs are of different elements. -/
def Alternates (runs : List (Nat × α)) : Prop :=
  runs.IsChain fun left right => left.2 ≠ right.2

section

variable [DecidableEq α]

/-- The runs of a list behind some copies of an element. -/
def runsFrom (current : α) (count : Nat) : List α → List (Nat × α)
  | [] => [(count, current)]
  | next :: rest =>
      if next = current then runsFrom current (count + 1) rest
      else (count, current) :: runsFrom next 1 rest

def runs : List α → List (Nat × α)
  | [] => []
  | first :: rest => runsFrom first 1 rest

theorem expand_runsFrom (current : α) (count : Nat) (rest : List α) :
    expand (runsFrom current count rest) = List.replicate count current ++ rest := by
  induction rest generalizing current count with
  | nil => rfl
  | cons next rest inductionHypothesis =>
      rw [runsFrom]
      split
      next equal =>
        rw [inductionHypothesis, List.replicate_succ', List.append_assoc, equal]
        rfl
      next => rw [expand_cons, inductionHypothesis]; rfl

theorem expand_runs (elements : List α) : expand (runs elements) = elements := by
  cases elements with
  | nil => rfl
  | cons first rest => exact expand_runsFrom first 1 rest

theorem runsFrom_eq_cons (current : α) (count : Nat) (rest : List α) :
    ∃ total later, runsFrom current count rest = (total, current) :: later := by
  induction rest generalizing count with
  | nil => exact ⟨count, [], rfl⟩
  | cons next rest inductionHypothesis =>
      rw [runsFrom]
      split
      next => exact inductionHypothesis (count + 1)
      next => exact ⟨count, _, rfl⟩

theorem alternates_runsFrom (current : α) (count : Nat) (rest : List α) :
    Alternates (runsFrom current count rest) := by
  induction rest generalizing current count with
  | nil => exact List.isChain_singleton _
  | cons next rest inductionHypothesis =>
      rw [runsFrom]
      split
      next => exact inductionHypothesis current (count + 1)
      next differs =>
        have later := inductionHypothesis next 1
        obtain ⟨total, behind, shape⟩ := runsFrom_eq_cons next 1 rest
        rw [shape] at later ⊢
        exact List.isChain_cons_cons.mpr ⟨Ne.symm differs, later⟩

theorem alternates_runs (elements : List α) : Alternates (runs elements) := by
  cases elements with
  | nil => exact List.isChain_nil
  | cons first rest => exact alternates_runsFrom first 1 rest

theorem pos_of_mem_runsFrom {current : α} {count : Nat} {rest : List α} (positive : 0 < count)
    {run : Nat × α} (member : run ∈ runsFrom current count rest) : 0 < run.1 := by
  induction rest generalizing current count with
  | nil =>
      rw [runsFrom, List.mem_singleton] at member
      rw [member]
      exact positive
  | cons next rest inductionHypothesis =>
      rw [runsFrom] at member
      split at member
      next => exact inductionHypothesis (Nat.succ_pos count) member
      next =>
        rcases List.mem_cons.mp member with rfl | later
        · exact positive
        · exact inductionHypothesis Nat.one_pos later

theorem pos_of_mem_runs {elements : List α} {run : Nat × α} (member : run ∈ runs elements) :
    0 < run.1 := by
  cases elements with
  | nil => cases member
  | cons first rest => exact pos_of_mem_runsFrom Nat.one_pos member

/-- A run is no longer than the longest repetition in the list. -/
theorem le_of_mem_runs {elements : List α} {limit : Nat}
    (limited : ∀ element, ¬List.replicate (limit + 1) element <:+: elements)
    {run : Nat × α} (member : run ∈ runs elements) : run.1 ≤ limit := by
  by_contra tooLong
  have inside := replicate_infix_expand member
  rw [expand_runs] at inside
  obtain ⟨more, size⟩ := Nat.exists_eq_add_of_lt (Nat.lt_of_not_le tooLong)
  have front : List.replicate (limit + 1) run.2 <+: List.replicate run.1 run.2 :=
    ⟨List.replicate more run.2, by rw [List.replicate_append_replicate, size]; congr 1; omega⟩
  exact limited run.2 (front.isInfix.trans inside)

theorem mem_of_mem_runs {elements : List α} {run : Nat × α} (member : run ∈ runs elements) :
    run.2 ∈ elements := by
  have inside := replicate_infix_expand member
  rw [expand_runs] at inside
  have positive := Nat.ne_of_gt (pos_of_mem_runs member)
  exact inside.subset (List.mem_replicate.mpr ⟨positive, rfl⟩)

end

end StdPrograms.Foundation

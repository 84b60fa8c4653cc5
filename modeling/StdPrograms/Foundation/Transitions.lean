import Mathlib.Algebra.Ring.Nat
import Mathlib.Logic.Basic

/-!
Contract: runs of a labelled transition system.

A step is a partial function of the state and a label, so that an interleaving is
the list of its labels. Owns reachability, what holds in every state and at every
step along such a list, and the rules that carry a fact about one step to a run:
an invariant, an invariant under a condition on the steps, and the two-way form,
where breaking the condition breaks the invariant at once. Owns also the bound that
a measure sets to the length of a run.

Does not own any system.
-/

namespace StdPrograms.Foundation

section Transitions

variable {σ α : Type}

/-- The state behind the labels, if each of them is enabled where it stands. -/
def follow (step : σ → α → Option σ) : σ → List α → Option σ
  | state, [] => some state
  | state, label :: rest => (step state label).bind fun after => follow step after rest

/-- What some interleaving reaches. -/
def Reachable (step : σ → α → Option σ) (start state : σ) : Prop :=
  ∃ labels, follow step start labels = some state

/-- The predicate holds in every state along the labels, up to one that is not
enabled. -/
def Visits (step : σ → α → Option σ) (holds : σ → Prop) : σ → List α → Prop
  | state, [] => holds state
  | state, label :: rest =>
      holds state ∧ ∀ after, step state label = some after → Visits step holds after rest

/-- The condition holds at every step along the labels. -/
def Along (step : σ → α → Option σ) (meets : σ → α → Prop) : σ → List α → Prop
  | _, [] => True
  | state, label :: rest =>
      ∀ after, step state label = some after → meets state label ∧ Along step meets after rest

variable {step : σ → α → Option σ}

theorem Visits.start {holds : σ → Prop} {state : σ} {labels : List α}
    (visits : Visits step holds state labels) : holds state := by
  cases labels with
  | nil => exact visits
  | cons label rest => exact visits.1

theorem follow_append (front back : List α) (state : σ) :
    follow step state (front ++ back) =
      (follow step state front).bind fun middle => follow step middle back := by
  induction front generalizing state with
  | nil => rfl
  | cons label rest inductionHypothesis =>
      simp only [List.cons_append, follow, inductionHypothesis, Option.bind_assoc]

/-- Labels that stand for others. -/
theorem follow_map {β : Type} (f : β → α) (labels : List β) (state : σ) :
    follow step state (labels.map f) =
      follow (fun state label => step state (f label)) state labels := by
  induction labels generalizing state with
  | nil => rfl
  | cons label rest inductionHypothesis =>
      simp only [List.map_cons, follow, inductionHypothesis]

/-- Where each step is one of another system between the abstractions of the states, and is enabled
exactly if that one is, so is each run. -/
theorem follow_refines {τ : Type} {plain : τ → α → Option τ} {abstraction : σ → τ}
    {invariant : σ → Prop}
    (preserved : ∀ state label after, invariant state → step state label = some after →
      invariant after)
    (simulates : ∀ state label, invariant state →
      (step state label).map abstraction = plain (abstraction state) label)
    {state : σ} (initial : invariant state) (labels : List α) :
    (follow step state labels).map abstraction = follow plain (abstraction state) labels := by
  induction labels generalizing state with
  | nil => rfl
  | cons label rest inductionHypothesis =>
      rw [follow, follow, ← simulates state label initial]
      cases taken : step state label with
      | none => rfl
      | some after => exact inductionHypothesis (preserved state label after initial taken)

/-- A run that gets behind its last label visits where it arrives. -/
theorem Visits.reached {holds : σ → Prop} {state after : σ} {labels : List α}
    (visits : Visits step holds state labels) (followed : follow step state labels = some after) :
    holds after := by
  induction labels generalizing state with
  | nil =>
      cases followed
      exact visits
  | cons label rest inductionHypothesis =>
      obtain ⟨middle, taken, later⟩ := Option.bind_eq_some_iff.mp followed
      exact inductionHypothesis (visits.2 middle taken) later

theorem Visits.imp {holds implied : σ → Prop} (weaker : ∀ state, holds state → implied state)
    {state : σ} {labels : List α} (visits : Visits step holds state labels) :
    Visits step implied state labels := by
  induction labels generalizing state with
  | nil => exact weaker state visits
  | cons label rest inductionHypothesis =>
      constructor
      · exact weaker state visits.1
      · intro after taken
        exact inductionHypothesis (visits.2 after taken)

/-- A fact that each step keeps under a condition holds along a run that meets it. -/
theorem visits_of_along {invariant : σ → Prop} {meets : σ → α → Prop}
    (preserved : ∀ state label after, invariant state → meets state label →
      step state label = some after → invariant after)
    {state : σ} {labels : List α} (initial : invariant state)
    (along : Along step meets state labels) : Visits step invariant state labels := by
  induction labels generalizing state with
  | nil => exact initial
  | cons label rest inductionHypothesis =>
      constructor
      · exact initial
      · intro after taken
        obtain ⟨met, later⟩ := along after taken
        apply inductionHypothesis _ later
        exact preserved state label after initial met taken

/-- A fact that holds of a run exactly if the run meets the condition throughout. `strong`
is what a step needs of the state before it. -/
theorem visits_iff_along_of {strong weak : σ → Prop} {meets : σ → α → Prop}
    (weaker : ∀ state, strong state → weak state)
    (keeps : ∀ state label after, strong state → meets state label →
      step state label = some after → strong after)
    (needs : ∀ state label after, strong state → step state label = some after →
      weak after → meets state label)
    {state : σ} {labels : List α} (initial : strong state) :
    Visits step weak state labels ↔ Along step meets state labels := by
  constructor
  · intro visits
    induction labels generalizing state with
    | nil => trivial
    | cons label rest inductionHypothesis =>
        intro after taken
        have later := visits.2 after taken
        have met := needs state label after initial taken later.start
        exact ⟨met, inductionHypothesis (keeps state label after initial met taken) later⟩
  · intro along
    exact (visits_of_along keeps initial along).imp weaker

/-- Where a step keeps the fact exactly under the condition, a run keeps it exactly
when it meets the condition throughout. `invariant` holds in any case. -/
theorem visits_iff_along {invariant holds : σ → Prop} {meets : σ → α → Prop}
    (preserved : ∀ state label after, invariant state → step state label = some after →
      invariant after)
    (exact : ∀ state label after, invariant state → holds state →
      step state label = some after → (holds after ↔ meets state label))
    {state : σ} {labels : List α} (initial : invariant state) (holdsInitially : holds state) :
    Visits step holds state labels ↔ Along step meets state labels := by
  apply visits_iff_along_of (fun _ => And.right) _ _ (And.intro initial holdsInitially)
  · rintro state label after ⟨before, held⟩ met taken
    exact ⟨preserved state label after before taken,
      (exact state label after before held taken).mpr met⟩
  · rintro state label after ⟨before, held⟩ taken holdsAfter
    exact (exact state label after before held taken).mp holdsAfter

/-- A fact that every step keeps holds in every reachable state. -/
theorem Reachable.invariant {invariant : σ → Prop} {start state : σ}
    (reachable : Reachable step start state) (initial : invariant start)
    (preserved : ∀ state label after, invariant state → step state label = some after →
      invariant after) : invariant state := by
  obtain ⟨labels, followed⟩ := reachable
  induction labels generalizing start with
  | nil =>
      cases followed
      exact initial
  | cons label rest inductionHypothesis =>
      obtain ⟨middle, taken, later⟩ := Option.bind_eq_some_iff.mp followed
      exact inductionHypothesis (preserved start label middle initial taken) later

/-- Where each step spends, up to what its label gives back, a run is no longer than what there
was to spend. -/
theorem length_le_of_spends {measure : σ → Nat} {gain : α → Nat}
    (spends : ∀ state label after, step state label = some after →
      measure after + 1 ≤ measure state + gain label)
    {state after : σ} {labels : List α} (followed : follow step state labels = some after) :
    labels.length + measure after ≤ measure state + (labels.map gain).sum := by
  induction labels generalizing state with
  | nil =>
      cases followed
      simp
  | cons label rest inductionHypothesis =>
      obtain ⟨middle, taken, later⟩ := Option.bind_eq_some_iff.mp followed
      have spent := spends state label middle taken
      have restSpent := inductionHypothesis later
      simp only [List.length_cons, List.map_cons, List.sum_cons]
      omega

end Transitions

end StdPrograms.Foundation

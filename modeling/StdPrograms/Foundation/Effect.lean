import Mathlib.Logic.Basic

/-!
Contract: computations on a state that also raise exceptions.

An exception keeps the state that it leaves. Owns the rules of pre- and
postconditions for them, with one postcondition for a result and one for an
exception, the same for two computations side by side, and the process that runs
them one after the other.

Does not own any state.
-/

namespace StdPrograms.Foundation

/-- A computation on `σ` with a result, or an exception, and the state it leaves. -/
abbrev Effect (σ ε α : Type) := ExceptT ε (StateM σ) α

namespace Effect

variable {σ ε α β : Type}

def exec (x : Effect σ ε α) (self : σ) : Except ε α × σ := x self

theorem exec_bind (x : Effect σ ε α) (next : α → Effect σ ε β) (self : σ) :
    exec (x >>= next) self =
      match exec x self with
      | (.ok value, after) => exec (next value) after
      | (.error error, after) => (.error error, after) := by
  simp only [exec, bind, ExceptT.bind, ExceptT.mk, StateT.bind]
  cases x self with
  | mk result after => cases result <;> rfl

/-- A sequence that returns, taken apart. -/
theorem exec_bind_eq_ok {x : Effect σ ε α} {next : α → Effect σ ε β} {self after : σ}
    {result : β} :
    exec (x >>= next) self = (.ok result, after) ↔
      ∃ value middle, exec x self = (.ok value, middle) ∧
        exec (next value) middle = (.ok result, after) := by
  rw [exec_bind]
  constructor
  · intro returned
    split at returned
    next value middle ran => exact ⟨value, middle, ran, returned⟩
    next => cases returned
  · rintro ⟨value, middle, ran, returned⟩
    rw [ran]
    exact returned

theorem exec_bind_ok {x : Effect σ ε α} {next : α → Effect σ ε β} {self after : σ} {result : β}
    (returned : exec (x >>= next) self = (.ok result, after)) :
    ∃ value middle, exec x self = (.ok value, middle) ∧
      exec (next value) middle = (.ok result, after) :=
  exec_bind_eq_ok.mp returned

theorem exec_get (next : σ → Effect σ ε α) (self : σ) :
    exec (get >>= next) self = exec (next self) self :=
  rfl

theorem exec_map (x : Effect σ ε α) (change : α → β) (self : σ) :
    exec (x >>= fun value => pure (change value)) self =
      ((exec x self).1.map change, (exec x self).2) := by
  rw [exec_bind]
  cases exec x self with
  | mk result after => cases result <;> rfl

theorem exec_tryCatch (x : Effect σ ε α) (handler : ε → Effect σ ε α) (self : σ) :
    exec (tryCatch x handler) self =
      match exec x self with
      | (.ok value, after) => (.ok value, after)
      | (.error error, after) => exec (handler error) after := by
  simp only [exec, tryCatch, tryCatchThe, MonadExceptOf.tryCatch, ExceptT.tryCatch, ExceptT.mk,
    bind, StateT.bind]
  cases x self with
  | mk result after => cases result <;> rfl

/-- What holds of an outcome. -/
def Outcome (post : α → σ → Prop) (failed : ε → σ → Prop) : Except ε α × σ → Prop
  | (.ok value, after) => post value after
  | (.error error, after) => failed error after

/-- From every state with the precondition, the outcome meets its postcondition. -/
def Ensures (pre : σ → Prop) (x : Effect σ ε α) (post : α → σ → Prop) (failed : ε → σ → Prop) :
    Prop :=
  ∀ self, pre self → Outcome post failed (exec x self)

variable {pre : σ → Prop} {post : α → σ → Prop} {failed : ε → σ → Prop}

theorem ensures_pure {value : α} (holds : ∀ self, pre self → post value self) :
    Ensures pre (pure value : Effect σ ε α) post failed :=
  holds

/-- What a computation ensures in any case, it leaves behind. -/
theorem Ensures.after {x : Effect σ ε α} {holds : σ → Prop}
    (ensures : Ensures pre x (fun _ => holds) (fun _ => holds)) {self : σ} (before : pre self) :
    holds (exec x self).2 := by
  have outcome := ensures self before
  revert outcome
  cases exec x self with
  | mk result after =>
      cases result with
      | ok value => exact id
      | error error => exact id

theorem ensures_throw {error : ε} (holds : ∀ self, pre self → failed error self) :
    Ensures pre (throw error : Effect σ ε α) post failed :=
  holds

theorem ensures_modify {change : σ → σ} {post : Unit → σ → Prop}
    (holds : ∀ self, pre self → post () (change self)) :
    Ensures pre (modify change : Effect σ ε Unit) post failed :=
  holds

theorem ensures_bind {x : Effect σ ε α} {next : α → Effect σ ε β} {middle : α → σ → Prop}
    {post : β → σ → Prop} (first : Ensures pre x middle failed)
    (second : ∀ value, Ensures (middle value) (next value) post failed) :
    Ensures pre (x >>= next) post failed := by
  intro self holds
  have outcome := first self holds
  rw [exec_bind]
  split
  next value after ran =>
    rw [ran] at outcome
    exact second value after outcome
  next error after ran =>
    rw [ran] at outcome
    exact outcome

/-- What reads the state goes on knowing it. -/
theorem ensures_get {next : σ → Effect σ ε β} {post : β → σ → Prop}
    (rest : ∀ read, pre read → Ensures (fun self => self = read) (next read) post failed) :
    Ensures pre (get >>= next) post failed := by
  intro self holds
  exact rest self holds self rfl

theorem ensures_catch {x : Effect σ ε α} {handler : ε → Effect σ ε α} {thrown : ε → σ → Prop}
    (tried : Ensures pre x post thrown)
    (handled : ∀ error, Ensures (thrown error) (handler error) post failed) :
    Ensures pre (tryCatch x handler) post failed := by
  intro self holds
  have outcome := tried self holds
  rw [exec_tryCatch]
  split
  next value after ran =>
    rw [ran] at outcome
    exact outcome
  next error after ran =>
    rw [ran] at outcome
    exact handled error after outcome

/-- A fact that does not mention the state. -/
theorem ensures_given {given : Prop} {x : Effect σ ε α}
    (rest : given → Ensures pre x post failed) :
    Ensures (fun self => pre self ∧ given) x post failed := by
  intro self holds
  exact rest holds.2 self holds.1

theorem ensures_weaken {x : Effect σ ε α} {stronger : σ → Prop} {result : α → σ → Prop}
    {thrown : ε → σ → Prop} (ensures : Ensures stronger x result thrown)
    (before : ∀ self, pre self → stronger self)
    (returned : ∀ value self, result value self → post value self)
    (raised : ∀ error self, thrown error self → failed error self) :
    Ensures pre x post failed := by
  intro self holds
  have outcome := ensures self (before self holds)
  revert outcome
  cases exec x self with
  | mk result after =>
      cases result with
      | ok value => exact returned value after
      | error error => exact raised error after

/-- A computation that does not touch the state. -/
def lift (result : Except ε α) : Effect σ ε α := fun self => (result, self)

theorem ensures_lift {result : Except ε α}
    (returned : ∀ value, result = .ok value → ∀ self, pre self → post value self)
    (raised : ∀ error self, pre self → failed error self) :
    Ensures pre (lift result : Effect σ ε α) post failed := by
  intro self holds
  cases result with
  | ok value => exact returned value rfl self holds
  | error error => exact raised error self holds

/-- A computation on a part of the state. -/
def on {τ : Type} (part : σ → τ) (put : σ → τ → σ) (x : Effect τ ε α) : Effect σ ε α :=
  fun self =>
    let (result, after) := exec x (part self)
    (result, put self after)

theorem ensures_on {τ : Type} {part : σ → τ} {put : σ → τ → σ} {x : Effect τ ε α} {partPre : τ → Prop}
    {partPost : α → τ → Prop} {partFailed : ε → τ → Prop}
    (ensures : Ensures partPre x partPost partFailed) (before : ∀ self, pre self → partPre (part self))
    (returned : ∀ self value after, pre self → partPost value after → post value (put self after))
    (raised : ∀ self error after, pre self → partFailed error after → failed error (put self after)) :
    Ensures pre (on part put x) post failed := by
  intro self holds
  have outcome := ensures (part self) (before self holds)
  change Outcome post failed (match exec x (part self) with
    | (result, after) => (result, put self after))
  revert outcome
  cases exec x (part self) with
  | mk result after =>
      cases result with
      | ok value => exact returned self value after holds
      | error error => exact raised self error after holds

/-! ### Two computations -/

/-- What holds of two outcomes: both are results, or both the same exception. -/
def BothOutcomes (post : α → β → σ → σ → Prop) (failed : σ → σ → Prop) :
    Except ε α × σ → Except ε β × σ → Prop
  | (.ok left, leftAfter), (.ok right, rightAfter) => post left right leftAfter rightAfter
  | (.error left, leftAfter), (.error right, rightAfter) =>
      left = right ∧ failed leftAfter rightAfter
  | _, _ => False

/-- From two related states, two computations end alike. -/
def Relates (pre : σ → σ → Prop) (x : Effect σ ε α) (y : Effect σ ε β)
    (post : α → β → σ → σ → Prop) (failed : σ → σ → Prop) : Prop :=
  ∀ left right, pre left right → BothOutcomes post failed (exec x left) (exec y right)

section Relates

variable {γ δ : Type} {both fails : σ → σ → Prop}

theorem relates_pure {left : α} {right : β} {post : α → β → σ → σ → Prop}
    (holds : ∀ self other, both self other → post left right self other) :
    Relates both (pure left : Effect σ ε α) (pure right) post fails :=
  holds

theorem relates_throw {error : ε} {post : α → β → σ → σ → Prop}
    (holds : ∀ self other, both self other → fails self other) :
    Relates both (throw error : Effect σ ε α) (throw error) post fails := by
  intro self other related
  exact ⟨rfl, holds self other related⟩

theorem relates_modify {change change' : σ → σ} {post : Unit → Unit → σ → σ → Prop}
    (holds : ∀ self other, both self other → post () () (change self) (change' other)) :
    Relates both (modify change : Effect σ ε Unit) (modify change') post fails :=
  holds

theorem relates_get {next : σ → Effect σ ε α} {next' : σ → Effect σ ε β}
    {post : α → β → σ → σ → Prop}
    (rest : ∀ left right, both left right →
      Relates (fun self other => self = left ∧ other = right) (next left) (next' right) post fails) :
    Relates both (get >>= next) (get >>= next') post fails := by
  intro left right related
  exact rest left right related left right ⟨rfl, rfl⟩

theorem relates_bind {x : Effect σ ε α} {y : Effect σ ε β} {next : α → Effect σ ε γ}
    {next' : β → Effect σ ε δ} {middle : α → β → σ → σ → Prop} {post : γ → δ → σ → σ → Prop}
    (first : Relates both x y middle fails)
    (second : ∀ left right, Relates (middle left right) (next left) (next' right) post fails) :
    Relates both (x >>= next) (y >>= next') post fails := by
  intro left right related
  have outcomes := first left right related
  rw [exec_bind, exec_bind]
  revert outcomes
  cases exec x left with
  | mk leftResult leftAfter =>
      cases exec y right with
      | mk rightResult rightAfter =>
          cases leftResult with
          | ok leftValue =>
              cases rightResult with
              | ok rightValue => exact second leftValue rightValue leftAfter rightAfter
              | error error => exact False.elim
          | error error =>
              cases rightResult with
              | ok value => exact False.elim
              | error error => exact id

theorem relates_lift {result : Except ε α} {result' : Except ε β} {post : α → β → σ → σ → Prop}
    (holds : ∀ self other, both self other →
      BothOutcomes post fails (result, self) (result', other)) :
    Relates both (lift result : Effect σ ε α) (lift result') post fails :=
  holds

/-- A fact that does not mention the states. -/
theorem relates_given {given : Prop} {x : Effect σ ε α} {y : Effect σ ε β}
    {post : α → β → σ → σ → Prop} (rest : given → Relates both x y post fails) :
    Relates (fun self other => both self other ∧ given) x y post fails := by
  intro left right related
  exact rest related.2 left right related.1

theorem relates_weaken {x : Effect σ ε α} {y : Effect σ ε β} {stronger thrown : σ → σ → Prop}
    {result post : α → β → σ → σ → Prop} (relates : Relates stronger x y result thrown)
    (before : ∀ self other, both self other → stronger self other)
    (returned : ∀ left right self other, result left right self other → post left right self other)
    (raised : ∀ self other, thrown self other → fails self other) :
    Relates both x y post fails := by
  intro left right related
  have outcomes := relates left right (before left right related)
  revert outcomes
  cases exec x left with
  | mk leftResult leftAfter =>
      cases exec y right with
      | mk rightResult rightAfter =>
          cases leftResult with
          | ok leftValue =>
              cases rightResult with
              | ok rightValue => exact returned leftValue rightValue leftAfter rightAfter
              | error error => exact False.elim
          | error error =>
              cases rightResult with
              | ok value => exact False.elim
              | error error => exact And.imp_right (raised leftAfter rightAfter)

end Relates

end Effect

/-- A process that runs such computations until one of them raises an exception. -/
structure Process (σ ε : Type) where
  state : σ
  terminated : Option ε := none

namespace Process

variable {σ ε α : Type}

def next (x : Effect σ ε α) (self : Process σ ε) : Process σ ε :=
  match self.terminated with
  | some _ => self
  | none =>
      match x.exec self.state with
      | (.ok _, after) => { state := after }
      | (.error error, after) => { state := after, terminated := some error }

/-- What a computation ensures of its state in any case, the process keeps. -/
theorem next_keeps {x : Effect σ ε α} {invariant pre : σ → Prop} {self : Process σ ε}
    (holds : invariant self.state) (before : self.terminated = none → pre self.state)
    (ensures : x.Ensures pre (fun _ after => invariant after) (fun _ after => invariant after)) :
    invariant (self.next x).state := by
  unfold next
  split
  next => exact holds
  next running =>
    have outcome := ensures self.state (before running)
    split
    next value after ran =>
      rw [ran] at outcome
      exact outcome
    next error after ran =>
      rw [ran] at outcome
      exact outcome

/-- Two processes that run related computations stay related. -/
theorem next_relates {x : Effect σ ε α} {related pre : σ → σ → Prop} {left right : Process σ ε}
    (sameEnd : left.terminated = right.terminated) (holds : related left.state right.state)
    (before : left.terminated = none → pre left.state right.state)
    (relates : Effect.Relates pre x x (fun _ _ => related) related) :
    (left.next x).terminated = (right.next x).terminated ∧
      related (left.next x).state (right.next x).state := by
  unfold next
  rw [← sameEnd]
  cases ended : left.terminated with
  | some error =>
      dsimp only
      exact ⟨sameEnd, holds⟩
  | none =>
      have outcomes := relates left.state right.state (before ended)
      revert outcomes
      dsimp only
      cases x.exec left.state with
      | mk leftResult leftAfter =>
          cases x.exec right.state with
          | mk rightResult rightAfter =>
              cases leftResult with
              | ok leftValue =>
                  cases rightResult with
                  | ok rightValue => exact fun after => ⟨rfl, after⟩
                  | error error => exact False.elim
              | error error =>
                  cases rightResult with
                  | ok value => exact False.elim
                  | error error' =>
                      rintro ⟨same, after⟩
                      exact ⟨congrArg some same, after⟩

end Process

end StdPrograms.Foundation

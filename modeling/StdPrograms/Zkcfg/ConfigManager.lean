import Mathlib.Logic.Function.Basic
import StdPrograms.Foundation.Transitions

/-!
Contract: the paths of `config_manager.cpp` and the completions that pop them.

One label is one section under `lock_`, or one statement of `handle_stat` behind it. Owns
the issuers of requests, the two completions, the order in which ZooKeeper delivers them,
and the condition on the steps of a run under which every completion pops the path of its
own request: `handle_stat` makes its request and pushes its path without the lock.

The requests in flight are ZooKeeper's. The history `completed` is not in the code. Does
not own sessions or what is read from a path.
-/

namespace StdPrograms.Zkcfg

open StdPrograms.Foundation

/-- Which completion a request asks for: `zoo_aexists` or `zoo_aget`. -/
inductive Completion where
  | handle_stat
  | handle_data
deriving DecidableEq, Repr

/-- A request in flight. Requests are told apart by their turn. -/
structure Request where
  completion : Completion
  path : String
  turn : Nat
deriving DecidableEq, Repr

/-- Where a thread stands: outside, between the calls of `check_path` that are left, behind
the section of `handle_stat`, or behind its `zoo_aget`. -/
inductive Place where
  | idle
  | checking (paths : List String)
  | unlocked (path : String) (found : Bool)
  | issued (request : Request)
deriving DecidableEq, Repr

/-- What a watcher is called for. `accepted` is whether ZooKeeper takes the request. -/
inductive WatchEvent where
  | connected
  | lost
  | changed (path : String) (accepted : Bool)
  | other
deriving DecidableEq, Repr

/-- What may happen next: `zookeeper_init` returns, a watcher is called, the next call of
`check_path` or statement of `handle_stat`, or the next completion. -/
inductive Move (ι : Type) where
  | initialised
  | watch (thread : ι) (event : WatchEvent)
  | proceed (thread : ι) (accepted : Bool)
  | complete (thread : ι) (found : Bool)
deriving DecidableEq, Repr

/-- The arguments of `check_path` come from the configuration. -/
structure Config where
  stype_ : String
  location_ : String
deriving DecidableEq, Repr

structure ConfigManager (ι : Type) where
  /-- `zhandle_` is not `NULL`. -/
  zhandle_ : Bool
  pending_path_ : List String
  inflight : List Request
  turn : Nat
  threads : ι → Place
  /-- The completed requests, each with the path that its completion popped. -/
  completed : List (Request × Option String)

namespace ConfigManager

variable {ι : Type}

def initial (ι : Type) : ConfigManager ι where
  zhandle_ := false
  pending_path_ := []
  inflight := []
  turn := 0
  threads := fun _ => .idle
  completed := []

/-- The calls of `check_path` in `check_exists`. -/
def check_exists (config : Config) (file : String) : List String :=
  ["/" ++ file, "/" ++ config.stype_ ++ "/" ++ file,
    "/" ++ config.stype_ ++ "/" ++ config.location_ ++ "/" ++ file]

/-- ZooKeeper takes a request. -/
def issue (state : ConfigManager ι) (completion : Completion) (path : String) :
    ConfigManager ι :=
  { state with
    inflight := state.inflight ++ [⟨completion, path, state.turn⟩]
    turn := state.turn + 1 }

/-- `pending_path_.push_back(path)`. -/
def push_back (state : ConfigManager ι) (path : String) : ConfigManager ι :=
  { state with pending_path_ := state.pending_path_ ++ [path] }

/-- The section of `check_path`, and the one of `handle_zk_event`: a request and its
path. -/
def section_ (state : ConfigManager ι) (completion : Completion) (path : String)
    (accepted : Bool) : ConfigManager ι :=
  if accepted then (state.issue completion path).push_back path else state

/-- The completion of a request pops a path. On an empty list this is undefined; nothing is
popped. -/
def pop (state : ConfigManager ι) (request : Request) (later : List Request) :
    ConfigManager ι :=
  { state with
    inflight := later
    pending_path_ := state.pending_path_.tail
    completed := state.completed ++ [(request, state.pending_path_.head?)] }

variable [DecidableEq ι]

def moveTo (state : ConfigManager ι) (thread : ι) (place : Place) : ConfigManager ι :=
  { state with threads := Function.update state.threads thread place }

/-- `handle_zk_event`, up to the first call of `check_path`. -/
def handle_zk_event (config : Config) (state : ConfigManager ι) (thread : ι) :
    WatchEvent → ConfigManager ι
  | .connected => state.moveTo thread (.checking (check_exists config "level.xml"))
  | .lost => { state with zhandle_ := false }
  | .changed path accepted => state.section_ .handle_data path accepted
  | .other => state

def step (config : Config) (state : ConfigManager ι) : Move ι → Option (ConfigManager ι)
  | .initialised => some { state with zhandle_ := true }
  | .watch thread event =>
      match state.threads thread with
      | .idle => some (state.handle_zk_event config thread event)
      | _ => none
  | .proceed thread accepted =>
      match state.threads thread with
      | .idle => none
      | .checking [] => some (state.moveTo thread .idle)
      | .checking (path :: paths) =>
          some ((state.section_ .handle_stat path (accepted && state.zhandle_)).moveTo thread
            (.checking paths))
      | .unlocked path found =>
          if found && accepted && state.zhandle_ then
            some ((state.issue .handle_data path).moveTo thread
              (.issued ⟨.handle_data, path, state.turn⟩))
          else some (state.moveTo thread .idle)
      | .issued request => some ((state.push_back request.path).moveTo thread .idle)
  | .complete thread found =>
      match state.threads thread, state.inflight with
      | .idle, request :: later =>
          let place := match request.completion, state.pending_path_ with
            | .handle_stat, path :: _ => .unlocked path found
            | _, _ => .idle
          some ((state.pop request later).moveTo thread place)
      | _, _ => none

/-- Every completion has popped the path of its own request. -/
def OwnPaths (state : ConfigManager ι) : Prop :=
  ∀ completion ∈ state.completed, completion.2 = some completion.1.path

/-- No request waits for its `handle_stat` to push its path. -/
def NonePending (state : ConfigManager ι) : Prop :=
  ∀ thread request, state.threads thread ≠ .issued request

/-- Paths are pushed in the order in which the requests were made, and no completion comes
before its path: what a step needs where it pushes or pops. -/
def InOrder (state : ConfigManager ι) : Move ι → Prop
  | .initialised => True
  | .watch _ event => ∀ path, event = .changed path true → state.NonePending
  | .proceed thread accepted =>
      (∀ path paths, state.threads thread = .checking (path :: paths) →
        accepted = true → state.zhandle_ = true → state.NonePending) ∧
      ∀ request, state.threads thread = .issued request →
        ∀ other earlier, state.threads other = .issued earlier → request.turn ≤ earlier.turn
  | .complete _ _ =>
      ∀ request later, state.inflight = request :: later →
        ∀ other, state.threads other ≠ .issued request

theorem moveTo_threads (state : ConfigManager ι) (thread other : ι) (place : Place) :
    (state.moveTo thread place).threads other =
      if other = thread then place else state.threads other :=
  Function.update_apply state.threads thread place other

/-! ### What a step can do -/

/-- The thread is not between its request and its `push_back`. -/
def Clear (state : ConfigManager ι) (thread : ι) : Prop :=
  ∀ request, state.threads thread ≠ .issued request

/-- Every step, with what it asks of the state and what `InOrder` says about it. -/
inductive Steps (state : ConfigManager ι) : Move ι → ConfigManager ι → Prop where
  | sets {move : Move ι} (zhandle : Bool) : Steps state move { state with zhandle_ := zhandle }
  | moves {move : Move ι} (thread : ι) (place : Place) (clear : state.Clear thread)
      (outside : ∀ request, place ≠ .issued request) :
      Steps state move (state.moveTo thread place)
  | requests {move : Move ι} (thread : ι) (completion : Completion) (path : String)
      (place : Place) (clear : state.Clear thread) (outside : ∀ request, place ≠ .issued request)
      (inOrder : state.InOrder move → state.NonePending) :
      Steps state move (((state.issue completion path).push_back path).moveTo thread place)
  | asks {move : Move ι} (thread : ι) (path : String) (clear : state.Clear thread) :
      Steps state move ((state.issue .handle_data path).moveTo thread
        (.issued ⟨.handle_data, path, state.turn⟩))
  | pushes (thread : ι) (accepted : Bool) (request : Request)
      (issued : state.threads thread = .issued request) :
      Steps state (.proceed thread accepted) ((state.push_back request.path).moveTo thread .idle)
  | completes (thread : ι) (found : Bool) (request : Request) (later : List Request)
      (place : Place) (clear : state.Clear thread) (first : state.inflight = request :: later)
      (outside : ∀ request, place ≠ .issued request) :
      Steps state (.complete thread found) ((state.pop request later).moveTo thread place)

variable {config : Config} {state after : ConfigManager ι} {move : Move ι}

omit [DecidableEq ι] in
theorem clear_of_eq {thread : ι} {place : Place} (standing : state.threads thread = place)
    (outside : ∀ request, place ≠ .issued request) : state.Clear thread := by
  intro request issued
  exact outside request (standing.symm.trans issued)

/-- An idle thread may as well move to where it is. -/
theorem moveTo_idle {thread : ι} (idle : state.threads thread = .idle) :
    state.moveTo thread .idle = state := by
  rw [moveTo, ← idle, Function.update_eq_self]

theorem steps_watch {thread : ι} {event : WatchEvent} (idle : state.threads thread = .idle) :
    Steps state (.watch thread event) (state.handle_zk_event config thread event) := by
  have clear : state.Clear thread := clear_of_eq idle nofun
  cases event with
  | connected => exact .moves thread _ clear nofun
  | lost => exact .sets false
  | other => exact .sets state.zhandle_
  | changed path accepted =>
      cases accepted with
      | false => exact .sets state.zhandle_
      | true =>
          have stays : ((state.issue .handle_data path).push_back path).moveTo thread .idle =
              (state.issue .handle_data path).push_back path := moveTo_idle idle
          have requested : Steps state (.watch thread (.changed path true))
              (((state.issue .handle_data path).push_back path).moveTo thread .idle) :=
            .requests thread _ path .idle clear nofun fun inOrder => inOrder path rfl
          rw [stays] at requested
          exact requested

theorem steps_proceed {thread : ι} {accepted : Bool}
    (taken : step config state (.proceed thread accepted) = some after) :
    Steps state (.proceed thread accepted) after := by
  simp only [step] at taken
  split at taken
  next => cases taken
  next standing =>
    cases taken
    exact .moves thread .idle (clear_of_eq standing nofun) nofun
  next path paths standing =>
    cases taken
    have clear : state.Clear thread := clear_of_eq standing nofun
    by_cases requested : (accepted && state.zhandle_) = true
    · rw [section_, if_pos requested]
      rw [Bool.and_eq_true] at requested
      apply Steps.requests thread _ path (.checking paths) clear nofun
      intro inOrder
      exact inOrder.1 path paths standing requested.1 requested.2
    · rw [section_, if_neg requested]
      exact .moves thread _ clear nofun
  next path found standing =>
    have clear : state.Clear thread := clear_of_eq standing nofun
    split at taken
    next =>
      cases taken
      exact .asks thread path clear
    next =>
      cases taken
      exact .moves thread .idle clear nofun
  next request standing =>
    cases taken
    exact .pushes thread accepted request standing

/-- The inversion of `step`: whatever it does is one of `Steps`. -/
theorem steps_of_step (taken : step config state move = some after) : Steps state move after := by
  cases move with
  | initialised =>
      cases taken
      exact .sets true
  | watch thread event =>
      simp only [step] at taken
      split at taken
      next idle =>
        cases taken
        exact steps_watch idle
      next => cases taken
  | proceed thread accepted => exact steps_proceed taken
  | complete thread found =>
      simp only [step] at taken
      split at taken
      next request later idle first =>
        cases taken
        have clear : state.Clear thread := clear_of_eq idle nofun
        apply Steps.completes thread found request later _ clear first
        intro other same
        split at same
        next => cases same
        next => cases same
      next => cases taken

/-! ### What a step in order keeps -/

/-- The paths of the requests in flight stand in the list, in order, except for the last
ones, each of which has its `handle_stat` behind its `zoo_aget`. -/
structure Matched (state : ConfigManager ι) : Prop where
  parted : ∃ pushed unpushed, state.inflight = pushed ++ unpushed ∧
    state.pending_path_ = pushed.map Request.path ∧
    ∀ request, request ∈ unpushed ↔ ∃ thread, state.threads thread = .issued request
  sorted : state.inflight.Pairwise fun earlier later => earlier.turn < later.turn
  recent : ∀ request ∈ state.inflight, request.turn < state.turn
  single : ∀ thread other request, state.threads thread = .issued request →
    state.threads other = .issued request → thread = other
  own : state.OwnPaths

omit [DecidableEq ι] in
theorem initial_matched : Matched (initial ι) where
  parted := ⟨[], [], rfl, rfl, by simp [initial]⟩
  sorted := .nil
  recent := by
    intro request member
    cases member
  single := by
    intro thread other request standing
    cases standing
  own := by
    intro completion member
    cases member

/-- A thread that comes from outside a request and goes outside of one leaves the others
where they are. -/
theorem issued_moveTo {thread : ι} {place : Place} (clear : state.Clear thread)
    (outside : ∀ request, place ≠ .issued request) (other : ι) (request : Request) :
    (state.moveTo thread place).threads other = .issued request ↔
      state.threads other = .issued request := by
  rw [moveTo_threads]
  split
  next same =>
    rw [same]
    exact iff_of_false (outside request) (clear request)
  next => exact Iff.rfl

theorem Matched.moves {thread : ι} {place : Place} (matched : state.Matched)
    (clear : state.Clear thread) (outside : ∀ request, place ≠ .issued request) :
    (state.moveTo thread place).Matched := by
  obtain ⟨pushed, unpushed, inflight, pending, waiting⟩ := matched.parted
  refine ⟨⟨pushed, unpushed, inflight, pending, ?_⟩, matched.sorted, matched.recent, ?_,
    matched.own⟩
  · intro request
    rw [waiting request]
    simp only [issued_moveTo clear outside]
  · intro one other request standing standing'
    rw [issued_moveTo clear outside] at standing standing'
    exact matched.single one other request standing standing'

omit [DecidableEq ι] in
/-- A new request is the last one, and later than the others. -/
theorem sorted_issue (matched : state.Matched) (completion : Completion) (path : String) :
    (state.issue completion path).inflight.Pairwise
        (fun earlier later => earlier.turn < later.turn) ∧
      ∀ request ∈ (state.issue completion path).inflight, request.turn < state.turn + 1 := by
  constructor
  · apply List.pairwise_append.mpr
    refine ⟨matched.sorted, List.pairwise_singleton _ _, ?_⟩
    intro request member last isLast
    rw [List.mem_singleton.mp isLast]
    exact matched.recent request member
  · intro request member
    rcases List.mem_append.mp member with earlier | last
    · exact Nat.lt_succ_of_lt (matched.recent request earlier)
    · rw [List.mem_singleton.mp last]
      exact Nat.lt_succ_self _

omit [DecidableEq ι] in
/-- A request and its path in one section. -/
theorem Matched.requests (matched : state.Matched) (completion : Completion) (path : String)
    (none : state.NonePending) : ((state.issue completion path).push_back path).Matched := by
  obtain ⟨pushed, unpushed, inflight, pending, waiting⟩ := matched.parted
  obtain ⟨sorted, recent⟩ := sorted_issue matched completion path
  have nothing : unpushed = [] := by
    apply List.eq_nil_iff_forall_not_mem.mpr
    intro request member
    obtain ⟨thread, standing⟩ := (waiting request).mp member
    exact none thread request standing
  refine ⟨⟨pushed ++ [⟨completion, path, state.turn⟩], [], ?_, ?_, ?_⟩, sorted, recent,
    matched.single, matched.own⟩
  · change state.inflight ++ [_] = _
    rw [inflight, nothing, List.append_nil, List.append_nil]
  · change state.pending_path_ ++ [path] = _
    rw [pending, List.map_append]
    rfl
  · intro request
    have waits := waiting request
    rw [nothing] at waits
    exact waits

/-- A request of `handle_stat`, whose path comes later. -/
theorem Matched.asks {thread : ι} {path : String} (matched : state.Matched)
    (clear : state.Clear thread) :
    ((state.issue .handle_data path).moveTo thread
      (.issued ⟨.handle_data, path, state.turn⟩)).Matched := by
  obtain ⟨pushed, unpushed, inflight, pending, waiting⟩ := matched.parted
  obtain ⟨sorted, recent⟩ := sorted_issue matched .handle_data path
  have fresh (other : ι) : state.threads other ≠ .issued ⟨.handle_data, path, state.turn⟩ := by
    intro standing
    have member : (⟨.handle_data, path, state.turn⟩ : Request) ∈ state.inflight := by
      rw [inflight]
      exact List.mem_append_right _ ((waiting _).mpr ⟨other, standing⟩)
    exact Nat.lt_irrefl _ (matched.recent _ member)
  have stands (other : ι) (request : Request) :
      ((state.issue .handle_data path).moveTo thread
          (.issued ⟨.handle_data, path, state.turn⟩)).threads other = .issued request ↔
        state.threads other = .issued request ∨
          other = thread ∧ request = ⟨.handle_data, path, state.turn⟩ := by
    rw [moveTo_threads]
    split
    next same =>
      subst same
      simp [clear request, eq_comm]
    next different => simp [different, issue]
  refine ⟨⟨pushed, unpushed ++ [⟨.handle_data, path, state.turn⟩], ?_, pending, ?_⟩, sorted,
    recent, ?_, matched.own⟩
  · change state.inflight ++ [_] = _
    rw [inflight, List.append_assoc]
  · intro request
    rw [List.mem_append, List.mem_singleton, waiting request]
    simp only [stands, exists_or, exists_eq_left]
  · intro one other request standing standing'
    rw [stands] at standing standing'
    rcases standing with before | ⟨isOne, isNew⟩
    · rcases standing' with before' | ⟨-, isNew⟩
      · exact matched.single one other request before before'
      · subst isNew
        exact absurd before (fresh one)
    · rcases standing' with before' | ⟨isOther, -⟩
      · subst isNew
        exact absurd before' (fresh other)
      · rw [isOne, isOther]

/-- The path of the first request that waits for one. -/
theorem Matched.pushes {thread : ι} {request : Request} (matched : state.Matched)
    (issued : state.threads thread = .issued request)
    (first : ∀ other earlier, state.threads other = .issued earlier →
      request.turn ≤ earlier.turn) :
    ((state.push_back request.path).moveTo thread .idle).Matched := by
  obtain ⟨pushed, unpushed, inflight, pending, waiting⟩ := matched.parted
  have sorted := matched.sorted
  rw [inflight] at sorted
  have unpushedSorted := (List.pairwise_append.mp sorted).2.1
  have member : request ∈ unpushed := (waiting request).mpr ⟨thread, issued⟩
  obtain ⟨rest, isFirst⟩ : ∃ rest, unpushed = request :: rest := by
    cases unpushed with
    | nil => cases member
    | cons head rest =>
        rcases List.mem_cons.mp member with same | behind
        · exact ⟨rest, by rw [same]⟩
        · obtain ⟨other, standing⟩ := (waiting head).mp List.mem_cons_self
          have earlier := (List.pairwise_cons.mp unpushedSorted).1 request behind
          exact absurd (first other head standing) (Nat.not_le_of_lt earlier)
  subst isFirst
  have stands (other : ι) (another : Request) :
      ((state.push_back request.path).moveTo thread .idle).threads other = .issued another ↔
        state.threads other = .issued another ∧ other ≠ thread := by
    rw [moveTo_threads]
    split
    next same => simp [same]
    next different => simp [different, push_back]
  refine ⟨⟨pushed ++ [request], rest, ?_, ?_, ?_⟩, matched.sorted, matched.recent, ?_,
    matched.own⟩
  · rw [List.append_assoc]
    exact inflight
  · change state.pending_path_ ++ [request.path] = _
    rw [pending, List.map_append]
    rfl
  · intro another
    simp only [stands]
    constructor
    · intro behind
      obtain ⟨other, standing⟩ := (waiting another).mp (List.mem_cons_of_mem _ behind)
      refine ⟨other, standing, ?_⟩
      intro same
      rw [same, issued, Place.issued.injEq] at standing
      have later := (List.pairwise_cons.mp unpushedSorted).1 another behind
      rw [standing] at later
      exact Nat.lt_irrefl _ later
    · rintro ⟨other, standing, different⟩
      rcases List.mem_cons.mp ((waiting another).mpr ⟨other, standing⟩) with same | behind
      · rw [same] at standing
        exact absurd (matched.single other thread request standing issued) different
      · exact behind
  · intro one other another standing standing'
    rw [stands] at standing standing'
    exact matched.single one other another standing.1 standing'.1

omit [DecidableEq ι] in
/-- The completion of a request whose path stands in the list. -/
theorem Matched.pops {request : Request} {later : List Request} (matched : state.Matched)
    (first : state.inflight = request :: later)
    (pushedBefore : ∀ other, state.threads other ≠ .issued request) :
    (state.pop request later).Matched := by
  obtain ⟨pushed, unpushed, inflight, pending, waiting⟩ := matched.parted
  have sorted := matched.sorted
  rw [first] at sorted
  cases pushed with
  | nil =>
      have member : request ∈ unpushed := by
        rw [List.nil_append] at inflight
        rw [← inflight, first]
        exact List.mem_cons_self
      obtain ⟨other, standing⟩ := (waiting request).mp member
      exact absurd standing (pushedBefore other)
  | cons head rest =>
      rw [first, List.cons_append] at inflight
      obtain ⟨rfl, isLater⟩ := List.cons.inj inflight
      refine ⟨⟨rest, unpushed, isLater, ?_, waiting⟩, (List.pairwise_cons.mp sorted).2, ?_,
        matched.single, ?_⟩
      · change state.pending_path_.tail = _
        rw [pending]
        rfl
      · intro other member
        apply matched.recent
        rw [first]
        exact List.mem_cons_of_mem _ member
      · intro completion member
        rcases List.mem_append.mp member with earlier | last
        · exact matched.own completion earlier
        · rw [List.mem_singleton.mp last, pending]
          rfl

theorem Matched.step (matched : state.Matched) (inOrder : state.InOrder move)
    (taken : ConfigManager.step config state move = some after) : after.Matched := by
  cases steps_of_step taken with
  | sets zhandle =>
      exact ⟨matched.parted, matched.sorted, matched.recent, matched.single, matched.own⟩
  | moves thread place clear outside => exact matched.moves clear outside
  | requests thread completion path place clear outside announced =>
      exact (matched.requests completion path (announced inOrder)).moves clear outside
  | asks thread path clear => exact matched.asks clear
  | pushes thread accepted request issued =>
      exact matched.pushes issued (inOrder.2 request issued)
  | completes thread found request later place clear first outside =>
      exact (matched.pops first (inOrder request later first)).moves clear outside

/-- Along a run whose paths are pushed in the order of the requests and before their
completions, every completion finds its own path. -/
theorem ownPaths_of_inOrder (config : Config) (moves : List (Move ι))
    (inOrder : Along (step config) InOrder (initial ι) moves) :
    Visits (step config) OwnPaths (initial ι) moves := by
  have visits : Visits (step config) Matched (initial ι) moves := by
    refine visits_of_along ?_ initial_matched inOrder
    intro state move after matched meets taken
    exact matched.step meets taken
  exact visits.imp fun _ matched => matched.own

/-- The first `check_path` of a session, the completion of its request, and the `zoo_aget`
of `handle_stat` with the path behind it. -/
theorem ownPaths_of_inOrder_handle_stat :
    Visits (step ⟨"type", "location"⟩) OwnPaths (initial (Fin 3))
      [.initialised, .watch 0 .connected, .proceed 0 true, .complete 1 true, .proceed 1 true,
        .proceed 1 true, .complete 2 true] := by
  apply ownPaths_of_inOrder
  simp [Along, step, InOrder, initial, handle_zk_event, moveTo, check_exists, section_, issue,
    push_back, pop, NonePending, Fin.forall_fin_succ]

/-- ZooKeeper answers the `zoo_aget` of `handle_stat` before its path is pushed: the list
is empty. -/
theorem not_ownPaths_beforePush :
    ¬ Visits (step ⟨"type", "location"⟩) OwnPaths (initial (Fin 3))
      [.initialised, .watch 0 .connected, .proceed 0 true, .complete 1 true, .proceed 1 true,
        .complete 2 true] := by
  intro visits
  have reached : (follow (step ⟨"type", "location"⟩) (initial (Fin 3))
      [.initialised, .watch 0 .connected, .proceed 0 true, .complete 1 true, .proceed 1 true,
        .complete 2 true]).map (fun state => state.completed) =
      some [(⟨.handle_stat, "/level.xml", 0⟩, some "/level.xml"),
        (⟨.handle_data, "/level.xml", 1⟩, none)] := by
    decide
  obtain ⟨state, followed, completed⟩ := Option.map_eq_some_iff.mp reached
  have popped := visits.reached followed (⟨.handle_data, "/level.xml", 1⟩, none)
  rw [completed] at popped
  exact absurd (popped (.tail _ (.head _))) nofun

end ConfigManager

end StdPrograms.Zkcfg

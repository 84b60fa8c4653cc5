import StdPrograms.Foundation.PointerTree
import StdPrograms.Foundation.SignedInt

/-!
Contract: the paths with a given sum.

Owns `pathSum` of `solution_113.cpp` and that it collects the paths from the root to a leaf that
have the sum exactly where no sum on the way leaves the type.

Does not own the making of a tree.
-/

namespace StdPrograms.Hobbies

open StdPrograms.Foundation

namespace PathSum

/-- `visting` begins with its top, `visited` ends with its back. -/
structure State (α : Type) where
  visting : List α
  visited : List α
  sum_so_far : Int
  result : List (List Int)

variable {α : Type} [DecidableEq α] (val : α → Int) (left right : α → Option α) (sum : Int)

/-- The body of the loop, for the top of `visting` and what is below it. -/
def visit (node : α) (below : List α) (state : State α) : Option (State α) :=
  if state.visited.getLast? = some node then do
    let sum_so_far ← signed 32 (state.sum_so_far - val node)
    return { state with visting := below, visited := state.visited.dropLast, sum_so_far }
  else do
    let sum_so_far ← signed 32 (state.sum_so_far + val node)
    if left node = none ∧ right node = none then
      let result :=
        if sum_so_far = sum then state.result ++ [state.visited.map val ++ [val node]]
        else state.result
      let sum_so_far ← signed 32 (sum_so_far - val node)
      return { state with visting := below, sum_so_far, result }
    else
      let visting := (left node).toList ++ ((right node).toList ++ (node :: below))
      return { state with visting, visited := state.visited ++ [node], sum_so_far }

def pathLoop : Nat → State α → Option (List (List Int))
  | 0, _ => none
  | fuel + 1, state =>
      match state.visting with
      | [] => some state.result
      | node :: below => do
          let state ← visit val left right sum node below state
          pathLoop fuel state

def pathSum (fuel : Nat) (root : Option α) : Option (List (List Int)) :=
  match root with
  | none => some []
  | some root => pathLoop val left right sum fuel ⟨[root], [], 0, []⟩

/-! ### What is found -/

/-- The sums on the way to every node are of the type. -/
def Fits (start : Int) : BinaryTree α → Prop
  | .nil => True
  | .node root before behind =>
      InSigned 32 (start + val root) ∧ Fits (start + val root) before ∧
        Fits (start + val root) behind

/-- The values on the paths that have the sum, behind those of the nodes above. -/
def found (above : List Int) (start : Int) (tree : BinaryTree α) : List (List Int) :=
  ((leafPaths tree).filter fun path => start + (path.map val).sum = sum).map fun path =>
    above ++ path.map val

/-- The rounds that a tree takes: a leaf is seen once, another node twice. -/
def rounds : BinaryTree α → Nat
  | .nil => 0
  | .node _ .nil .nil => 1
  | .node _ before behind => rounds before + rounds behind + 2

omit [DecidableEq α] in
theorem rounds_of_child (root : α) {before behind : BinaryTree α}
    (child : before ≠ .nil ∨ behind ≠ .nil) :
    rounds (.node root before behind) = rounds before + rounds behind + 2 := by
  match before, behind, child with
  | .nil, .nil, child => exact absurd child (by simp)
  | .node _ _ _, _, _ => rfl
  | .nil, .node _ _ _, _ => rfl

omit [DecidableEq α] in
theorem found_of_child (above : List Int) (start : Int) (root : α) {before behind : BinaryTree α}
    (child : before ≠ .nil ∨ behind ≠ .nil) :
    found val sum above start (.node root before behind) =
      found val sum (above ++ [val root]) (start + val root) before ++
        found val sum (above ++ [val root]) (start + val root) behind := by
  simp [found, leafPaths_of_child root child, List.filter_map, Function.comp_def, Int.add_assoc]

section

variable {val left right sum}

theorem pathLoop_mono {fuel : Nat} {state : State α} {result : List (List Int)}
    (returned : pathLoop val left right sum fuel state = some result) (more : Nat) :
    pathLoop val left right sum (fuel + more) state = some result := by
  induction fuel generalizing state with
  | zero => cases returned
  | succ fuel inductionHypothesis =>
      rw [Nat.add_right_comm]
      rw [pathLoop] at returned ⊢
      split at returned
      next empty => exact returned
      next node below more_ =>
        obtain ⟨between, visited, later⟩ := Option.bind_eq_some_iff.mp returned
        rw [visited]
        exact inductionHypothesis later

/-! ### One round -/

variable {root : α} {below visited : List α} {start : Int} {result : List (List Int)}

theorem visit_inner (new : root ∉ visited) (held : InSigned 32 (start + val root))
    (inner : ¬(left root = none ∧ right root = none)) (visting : List α) :
    visit val left right sum root below ⟨visting, visited, start, result⟩ =
      some ⟨(left root).toList ++ ((right root).toList ++ (root :: below)), visited ++ [root],
        start + val root, result⟩ := by
  rw [visit, if_neg fun same => new (List.mem_of_getLast? same), signed_of_inSigned held]
  dsimp only [Option.bind_eq_bind, Option.bind_some]
  rw [if_neg inner]
  rfl

theorem visit_again (held : InSigned 32 start) (visting : List α) :
    visit val left right sum root below
        ⟨visting, visited ++ [root], start + val root, result⟩ =
      some ⟨below, visited, start, result⟩ := by
  rw [visit, List.getLast?_concat, if_pos rfl]
  dsimp only
  rw [Int.add_sub_cancel, signed_of_inSigned held, List.dropLast_concat]
  rfl

theorem visit_leaf (new : root ∉ visited) (startHeld : InSigned 32 start)
    (held : InSigned 32 (start + val root)) (leaf : left root = none ∧ right root = none)
    (visting : List α) :
    visit val left right sum root below ⟨visting, visited, start, result⟩ =
      some ⟨below, visited, start,
        result ++ found val sum (visited.map val) start (.node root .nil .nil)⟩ := by
  rw [visit, if_neg fun same => new (List.mem_of_getLast? same), signed_of_inSigned held]
  dsimp only [Option.bind_eq_bind, Option.bind_some]
  rw [if_pos leaf, Int.add_sub_cancel, signed_of_inSigned startHeld]
  by_cases equal : start + val root = sum
  · simp [found, leafPaths, equal]
  · simp [found, leafPaths, equal]

theorem visit_overflows (new : root ∉ visited) (overflows : ¬InSigned 32 (start + val root))
    (visting : List α) :
    visit val left right sum root below ⟨visting, visited, start, result⟩ = none := by
  rw [visit, if_neg fun same => new (List.mem_of_getLast? same), signed, if_neg overflows]
  rfl

/-- The children come on top of their node, which is seen again below them. -/
theorem pathLoop_inner (new : root ∉ visited) (held : InSigned 32 (start + val root))
    (inner : ¬(left root = none ∧ right root = none)) (fuel : Nat) :
    pathLoop val left right sum (fuel + 1)
        ⟨(some root).toList ++ below, visited, start, result⟩ =
      pathLoop val left right sum fuel
        ⟨(left root).toList ++ ((right root).toList ++ (root :: below)), visited ++ [root],
          start + val root, result⟩ := by
  rw [pathLoop]
  dsimp only [Option.toList_some, List.singleton_append]
  rw [visit_inner new held inner]
  rfl

/-! ### A whole tree -/

omit [DecidableEq α] in
theorem eq_none_iff_of_stored {pointer : Option α} {tree : BinaryTree α}
    (stored : Stored left right pointer tree none) : pointer = none ↔ tree = .nil := by
  cases tree with
  | nil => exact iff_of_true stored rfl
  | node root before behind =>
      rw [stored.1]
      exact iff_of_false (by simp) (by simp)

/-- No node of the tree comes twice, or has been visited. -/
structure Fresh (tree : BinaryTree α) (visited : List α) : Prop where
  distinct : (inorder tree).Nodup
  apart : ∀ node ∈ inorder tree, node ∉ visited

omit [DecidableEq α] in
theorem Fresh.parts {before behind : BinaryTree α}
    (fresh : Fresh (.node root before behind) visited) :
    root ∉ visited ∧ Fresh before (visited ++ [root]) ∧ Fresh behind (visited ++ [root]) := by
  obtain ⟨distinct, apart⟩ := fresh
  rw [inorder] at distinct apart
  obtain ⟨distinctBefore, rest, disjoint⟩ := List.nodup_append'.mp distinct
  obtain ⟨rootNew, distinctBehind⟩ := List.nodup_cons.mp rest
  refine ⟨apart root (List.mem_append_right _ List.mem_cons_self),
    ⟨distinctBefore, fun node member => ?_⟩, ⟨distinctBehind, fun node member => ?_⟩⟩
  · rw [List.mem_append, List.mem_singleton, not_or]
    refine ⟨apart node (List.mem_append_left _ member), ?_⟩
    rintro rfl
    exact disjoint member List.mem_cons_self
  · rw [List.mem_append, List.mem_singleton, not_or]
    refine ⟨apart node (List.mem_append_right _ (List.mem_cons_of_mem root member)), ?_⟩
    rintro rfl
    exact rootNew member

/-- A tree on the stack is taken from it, and its paths have been collected. -/
theorem pathLoop_tree {tree : BinaryTree α} {pointer : Option α}
    (stored : Stored left right pointer tree none) (fresh : Fresh tree visited)
    (startHeld : InSigned 32 start) (fits : Fits val start tree) (fuel : Nat) :
    pathLoop val left right sum (rounds tree + fuel)
        ⟨pointer.toList ++ below, visited, start, result⟩ =
      pathLoop val left right sum fuel
        ⟨below, visited, start, result ++ found val sum (visited.map val) start tree⟩ := by
  induction tree generalizing pointer below visited start result fuel with
  | nil =>
      obtain rfl : pointer = none := stored
      simp [rounds, found, leafPaths]
  | node root before behind beforeHypothesis behindHypothesis =>
      obtain ⟨rfl, toBefore, toBehind⟩ := stored
      obtain ⟨held, fitsBefore, fitsBehind⟩ := fits
      obtain ⟨new, freshBefore, freshBehind⟩ := fresh.parts
      by_cases child : before ≠ .nil ∨ behind ≠ .nil
      · have inner : ¬(left root = none ∧ right root = none) := by
          rw [eq_none_iff_of_stored toBefore, eq_none_iff_of_stored toBehind]
          tauto
        rw [rounds_of_child root child, found_of_child val sum _ _ root child,
          show rounds before + rounds behind + 2 + fuel =
            rounds before + (rounds behind + (fuel + 1)) + 1 by omega,
          pathLoop_inner new held inner,
          beforeHypothesis toBefore freshBefore held fitsBefore,
          behindHypothesis toBehind freshBehind held fitsBehind, pathLoop]
        dsimp only
        rw [visit_again startHeld]
        dsimp only [Option.bind_eq_bind, Option.bind_some]
        rw [List.map_append, List.map_singleton, List.append_assoc]
      · obtain ⟨rfl, rfl⟩ : before = .nil ∧ behind = .nil := by tauto
        rw [show rounds (.node root .nil .nil) + fuel = fuel + 1 from Nat.add_comm 1 fuel, pathLoop]
        dsimp only [Option.toList_some, List.singleton_append]
        rw [visit_leaf new startHeld held ⟨toBefore, toBehind⟩]
        rfl

/-- After some rounds a sum leaves the type. -/
theorem pathLoop_overflows {tree : BinaryTree α} {pointer : Option α}
    (stored : Stored left right pointer tree none) (fresh : Fresh tree visited)
    (startHeld : InSigned 32 start) (unfit : ¬Fits val start tree) :
    ∃ count, ∀ fuel, pathLoop val left right sum (count + fuel)
      ⟨pointer.toList ++ below, visited, start, result⟩ = none := by
  induction tree generalizing pointer below visited start result with
  | nil => exact absurd trivial unfit
  | node root before behind beforeHypothesis behindHypothesis =>
      obtain ⟨rfl, toBefore, toBehind⟩ := stored
      obtain ⟨new, freshBefore, freshBehind⟩ := fresh.parts
      by_cases held : InSigned 32 (start + val root)
      · have child : before ≠ .nil ∨ behind ≠ .nil := by
          by_contra leaf
          obtain ⟨rfl, rfl⟩ : before = .nil ∧ behind = .nil := by tauto
          exact unfit ⟨held, trivial, trivial⟩
        have inner : ¬(left root = none ∧ right root = none) := by
          rw [eq_none_iff_of_stored toBefore, eq_none_iff_of_stored toBehind]
          tauto
        by_cases fitsBefore : Fits val (start + val root) before
        · have unfitBehind : ¬Fits val (start + val root) behind := fun fitsBehind =>
            unfit ⟨held, fitsBefore, fitsBehind⟩
          obtain ⟨count, overflows⟩ := @behindHypothesis (root :: below)
            (visited ++ [root]) (start + val root) _ (right root) toBehind freshBehind held
            unfitBehind
          refine ⟨rounds before + count + 1, fun fuel => ?_⟩
          rw [Nat.add_right_comm, Nat.add_assoc (rounds before),
            pathLoop_inner new held inner,
            pathLoop_tree toBefore freshBefore held fitsBefore]
          exact overflows fuel
        · obtain ⟨count, overflows⟩ := @beforeHypothesis
            ((right root).toList ++ (root :: below)) (visited ++ [root]) (start + val root) result
            (left root) toBefore freshBefore held fitsBefore
          refine ⟨count + 1, fun fuel => ?_⟩
          rw [Nat.add_right_comm, pathLoop_inner new held inner]
          exact overflows fuel
      · refine ⟨1, fun fuel => ?_⟩
        rw [Nat.add_comm, pathLoop]
        dsimp only [Option.toList_some, List.singleton_append]
        rw [visit_overflows new held]
        rfl

end

variable {val left right}

/-- Where no sum leaves the type, the fuel has to be more than the rounds. -/
theorem pathSum_spec {tree : BinaryTree α} {root : Option α}
    (stored : Stored left right root tree none) (distinct : (inorder tree).Nodup) (sum : Int) :
    (Fits val 0 tree → ∀ fuel > rounds tree, pathSum val left right sum fuel root =
      some (((leafPaths tree).map fun path => path.map val).filter (·.sum = sum))) ∧
    (¬Fits val 0 tree → ∀ fuel, pathSum val left right sum fuel root = none) := by
  have fresh : Fresh tree [] := ⟨distinct, fun node _ => List.not_mem_nil⟩
  have startHeld : InSigned 32 0 := by decide
  cases root with
  | none =>
      obtain rfl := (eq_none_iff_of_stored stored).mp rfl
      exact ⟨fun _ fuel _ => rfl, fun unfit => absurd trivial unfit⟩
  | some root =>
      constructor
      · intro fits fuel enough
        obtain ⟨more, rfl⟩ := Nat.exists_eq_add_of_lt enough
        have collected := @pathLoop_tree α _ val left right sum [] [] 0 [] tree (some root) stored
          fresh startHeld fits (more + 1)
        rw [pathSum, Nat.add_assoc]
        refine collected.trans ?_
        simp [pathLoop, found, List.filter_map, Function.comp_def]
      · intro unfit fuel
        obtain ⟨count, overflows⟩ := @pathLoop_overflows α _ val left right sum [] [] 0 [] tree
          (some root) stored fresh startHeld unfit
        cases returned : pathSum val left right sum fuel (some root) with
        | none => rfl
        | some result =>
            have longer := pathLoop_mono returned count
            rw [Nat.add_comm] at longer
            exact absurd (longer.symm.trans (overflows fuel)) (by simp)

/-- The node 0 has the children 1 and 2. -/
theorem pathSum_spec_threeNodes :
    pathSum (fun node : Nat => [5, 4, 8].getD node 0)
      (fun node => if node = 0 then some 1 else none)
      (fun node => if node = 0 then some 2 else none) 13 5 (some 0) = some [[5, 8]] :=
  (@pathSum_spec Nat _ (fun node => [5, 4, 8].getD node 0)
    (fun node => if node = 0 then some 1 else none)
    (fun node => if node = 0 then some 2 else none)
    (.node 0 (.node 1 .nil .nil) (.node 2 .nil .nil)) (some 0) (by simp [Stored]) (by decide)
    13).1 (by simp [Fits, InSigned]) 5 (by decide)

/-- The sum leaves the type at the child 1 of the node 0; no path has the sum that is asked for. -/
theorem pathSum_fails :
    Stored (fun node : Nat => if node = 0 then some 1 else none) (fun _ => none) (some 0)
        (.node 0 (.node 1 .nil .nil) .nil) none ∧
      (leafPaths (.node 0 (.node 1 .nil .nil) .nil)).map
        (fun path => (path.map fun node : Nat => if node = 0 then 2147483647 else 1).sum) =
          [(2147483648 : Int)] ∧
      ∀ fuel, pathSum (fun node : Nat => if node = 0 then 2147483647 else 1)
        (fun node => if node = 0 then some 1 else none) (fun _ => none) (-2147483648) fuel
          (some 0) = none := by
  refine ⟨by simp [Stored], by simp [leafPaths], fun fuel => ?_⟩
  match fuel with
  | 0 => rfl
  | 1 => rfl
  | fuel + 2 => rfl

end PathSum

end StdPrograms.Hobbies

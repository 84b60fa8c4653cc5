import StdPrograms.Foundation.PointerTree

/-!
Contract: a value looked for in depth and in breadth.

Owns `dfs` and `bfs` of `dfs_bfs.cpp`, which keep the nodes to visit on a stack and in a queue,
`print_tree` of `solution.h`, and in which order the three show the values of a tree.

Does not own the words around a value.
-/

namespace StdPrograms.Hobbies

open StdPrograms.Foundation

namespace DfsBfs

variable {α : Type} (val : α → Int) (left right : α → Option α)

section Code

/-- The values of the nodes that are visited; the stack begins with its top. -/
def dfsLoop (value : Int) : Nat → List α → Option (List Int)
  | 0, _ => none
  | _ + 1, [] => some []
  | fuel + 1, node :: stk =>
      if val node = value then some [val node]
      else do
        let stk := (right node).toList ++ stk
        let stk := (left node).toList ++ stk
        let later ← dfsLoop value fuel stk
        return val node :: later

/-- The first node is read without a check. -/
def dfs (fuel : Nat) (root : Option α) (value : Int) : Option (List Int) := do
  dfsLoop val left right value fuel [← root]

/-- The values of the nodes that are visited; the queue begins with its front. -/
def bfsLoop (value : Int) : Nat → List α → Option (List Int)
  | 0, _ => none
  | _ + 1, [] => some []
  | fuel + 1, node :: q =>
      if val node = value then some [val node]
      else do
        let q := q ++ (left node).toList
        let q := q ++ (right node).toList
        let later ← bfsLoop value fuel q
        return val node :: later

def bfs (fuel : Nat) (root : Option α) (value : Int) : Option (List Int) := do
  bfsLoop val left right value fuel [← root]

/-- The values that are printed. -/
def print_tree : Nat → Option α → Option (List Int)
  | 0, _ => none
  | _ + 1, none => some []
  | fuel + 1, some root => do
      let before ← print_tree fuel (left root)
      let behind ← print_tree fuel (right root)
      return val root :: (before ++ behind)

end Code

/-- The values up to the first that is looked for. -/
def upTo (value : Int) (values : List Int) : List Int :=
  values.take (values.idxOf value + 1)

theorem upTo_cons_self (value : Int) (values : List Int) :
    upTo value (value :: values) = [value] := by
  simp [upTo]

theorem upTo_cons_of_ne {value first : Int} (other : first ≠ value) (values : List Int) :
    upTo value (first :: values) = first :: upTo value values := by
  simp [upTo, List.idxOf_cons_ne values other]

/-- Every one of the trees is stored behind some pointer. -/
def AllStored (trees : List (BinaryTree α)) : Prop :=
  ∀ tree ∈ trees, ∃ start, Stored left right start tree none

/-- The nodes that a stack or a queue holds for trees. -/
def roots (trees : List (BinaryTree α)) : List α :=
  trees.flatMap fun tree => level tree 0

@[simp]
theorem roots_append (first second : List (BinaryTree α)) :
    roots (first ++ second) = roots first ++ roots second :=
  List.flatMap_append

variable {val left right} {value : Int}

theorem AllStored.children {root : α} {before behind : BinaryTree α} {trees : List (BinaryTree α)}
    (stored : AllStored left right (.node root before behind :: trees)) :
    AllStored left right trees ∧ AllStored left right [before, behind] ∧
      (left root).toList ++ (right root).toList = roots [before, behind] := by
  obtain ⟨first, others⟩ := List.forall_mem_cons.mp stored
  obtain ⟨start, -, toBefore, toBehind⟩ := first
  refine ⟨others, ?_, ?_⟩
  · exact List.forall_mem_cons.mpr ⟨⟨_, toBefore⟩, List.forall_mem_singleton.mpr ⟨_, toBehind⟩⟩
  · simp [roots, toBefore.toList_eq, toBehind.toList_eq]

/-- The stack is visited from the root down, tree after tree. -/
theorem dfsLoop_spec {fuel : Nat} {trees : List (BinaryTree α)}
    (stored : AllStored left right trees)
    (enough : (trees.flatMap preorder).length < fuel) :
    dfsLoop val left right value fuel (roots trees) =
      some (upTo value ((trees.flatMap preorder).map val)) := by
  induction fuel generalizing trees with
  | zero => exact absurd enough (Nat.not_lt_zero _)
  | succ fuel inductionHypothesis =>
      induction trees with
      | nil => rfl
      | cons tree trees treesHypothesis =>
          cases tree with
          | nil => exact treesHypothesis (List.forall_mem_cons.mp stored).2 enough
          | node root before behind =>
              obtain ⟨others, children, pushed⟩ := stored.children
              have visited : roots (.node root before behind :: trees) = root :: roots trees := rfl
              have order : (BinaryTree.node root before behind :: trees).flatMap preorder =
                  root :: ([before, behind] ++ trees).flatMap preorder := by
                simp [preorder]
              rw [order, List.length_cons] at enough
              rw [visited, dfsLoop, order, List.map_cons]
              by_cases equal : val root = value
              · rw [if_pos equal, equal, upTo_cons_self]
              · have later := @inductionHypothesis ([before, behind] ++ trees)
                  (List.forall_mem_append.mpr ⟨children, others⟩) (by omega)
                rw [roots_append, ← pushed, List.append_assoc] at later
                rw [if_neg equal, upTo_cons_of_ne equal]
                dsimp only
                rw [later]
                rfl

/-- The queue holds the roots that remain of one level and those seen of the next one. -/
structure Queued (left right : α → Option α) (bound : Nat) (next below : List (BinaryTree α)) :
    Prop where
  nextStored : AllStored left right next
  belowStored : AllStored left right below
  nextBounded : ∀ tree ∈ next, tree.height ≤ bound + 1
  belowBounded : ∀ tree ∈ below, tree.height ≤ bound

variable {bound : Nat} {tree : BinaryTree α} {next below : List (BinaryTree α)}

theorem Queued.tail (queued : Queued left right bound (tree :: next) below) :
    Queued left right bound next below where
  nextStored := (List.forall_mem_cons.mp queued.nextStored).2
  belowStored := queued.belowStored
  nextBounded := (List.forall_mem_cons.mp queued.nextBounded).2
  belowBounded := queued.belowBounded

/-- One level is done. -/
theorem Queued.descend (queued : Queued left right (bound + 1) [] below) :
    Queued left right bound below [] where
  nextStored := queued.belowStored
  belowStored := by simp [AllStored]
  nextBounded := queued.belowBounded
  belowBounded := by simp

/-- One node is taken from the queue, and its children are added. -/
theorem Queued.take {root : α} {before behind : BinaryTree α}
    (queued : Queued left right bound (.node root before behind :: next) below) :
    Queued left right bound next (below ++ [before, behind]) where
  nextStored := queued.tail.nextStored
  belowStored := List.forall_mem_append.mpr ⟨queued.belowStored, queued.nextStored.children.2.1⟩
  nextBounded := queued.tail.nextBounded
  belowBounded := by
    have high := (List.forall_mem_cons.mp queued.nextBounded).1
    rw [BinaryTree.height, Nat.add_le_add_iff_right, Nat.max_le] at high
    simpa [or_imp, forall_and] using ⟨queued.belowBounded, high⟩

/-- The queue is empty, or its front is the root of a tree and the first node that remains. -/
theorem Queued.front {bound : Nat} {next below : List (BinaryTree α)}
    (queued : Queued left right bound next below) :
    (roots next ++ roots below = [] ∧ remaining bound next below = []) ∨
      ∃ bound' root before behind next' below',
        Queued left right bound' (.node root before behind :: next') below' ∧
        roots next ++ roots below = root :: (roots next' ++ roots below') ∧
        remaining bound next below = remaining bound' (.node root before behind :: next') below' :=
  match bound, next with
  | bound, .node root before behind :: next =>
      Or.inr ⟨bound, root, before, behind, next, below, queued, rfl, rfl⟩
  | _, .nil :: _ => queued.tail.front
  | 0, [] => by
      left
      have empty : roots below = [] := List.flatMap_eq_nil_iff.mpr fun tree member =>
        level_eq_nil (queued.belowBounded tree member)
      exact ⟨empty, rfl⟩
  | bound + 1, [] => by
      have later := queued.descend.front
      rw [← remaining_level] at later
      simpa [roots] using later
  termination_by (bound, next)

theorem bfsLoop_spec {fuel : Nat} (queued : Queued left right bound next below)
    (enough : (remaining bound next below).length < fuel) :
    bfsLoop val left right value fuel (roots next ++ roots below) =
      some (upTo value ((remaining bound next below).map val)) := by
  induction fuel generalizing bound next below with
  | zero => exact absurd enough (Nat.not_lt_zero _)
  | succ fuel inductionHypothesis =>
      cases queued.front with
      | inl empty =>
          rw [empty.1, empty.2]
          rfl
      | inr front =>
          obtain ⟨bound, root, before, behind, next, below, queued, visited, order⟩ := front
          rw [remaining_node] at order
          rw [order, List.length_cons] at enough
          rw [visited, order, bfsLoop, List.map_cons]
          by_cases equal : val root = value
          · rw [if_pos equal, equal, upTo_cons_self]
          · have later := inductionHypothesis queued.take (by omega)
            rw [roots_append, ← queued.nextStored.children.2.2, ← List.append_assoc,
              ← List.append_assoc] at later
            rw [if_neg equal, upTo_cons_of_ne equal]
            dsimp only
            rw [later]
            rfl

theorem print_tree_spec {fuel : Nat} {start : Option α}
    (stored : Stored left right start tree none) (enough : tree.height < fuel) :
    print_tree val left right fuel start = some ((preorder tree).map val) := by
  induction tree generalizing fuel start with
  | nil =>
      rw [stored]
      cases fuel with
      | zero => exact absurd enough (Nat.not_lt_zero _)
      | succ fuel => rfl
  | node root before behind beforeHypothesis behindHypothesis =>
      rw [BinaryTree.height] at enough
      cases fuel with
      | zero => exact absurd enough (Nat.not_lt_zero _)
      | succ fuel =>
          rw [stored.1, print_tree, beforeHypothesis stored.2.1 (by omega),
            behindHypothesis stored.2.2 (by omega), preorder, List.map_cons, List.map_append]
          rfl

/-- The stack goes through the values as `print_tree` prints them and the queue level by level, both
up to the first value that is looked for. -/
theorem dfs_bfs_orders {fuel : Nat} {root : α} (stored : Stored left right (some root) tree none)
    (enough : tree.numNodes < fuel) :
    print_tree val left right fuel (some root) = some ((preorder tree).map val) ∧
      dfs val left right fuel (some root) value = some (upTo value ((preorder tree).map val)) ∧
      bfs val left right fuel (some root) value =
        some (upTo value ((levelOrder tree).map val)) := by
  have isRoot : [root] = roots [tree] := by
    have first := stored.toList_eq
    simpa [roots] using first
  have allStored : AllStored left right [tree] := List.forall_mem_singleton.mpr ⟨_, stored⟩
  refine ⟨?_, ?_, ?_⟩
  · exact print_tree_spec stored (Nat.lt_of_le_of_lt tree.height_le_numNodes enough)
  · have visited := @dfsLoop_spec α val left right value fuel [tree] allStored
      (by simpa [length_preorder] using enough)
    rw [← isRoot] at visited
    simpa [dfs] using visited
  · have queued : Queued left right tree.height [] [tree] :=
      ⟨by simp [AllStored], allStored, by simp, by simp⟩
    have visited := @bfsLoop_spec α val left right value _ _ _ fuel queued
      (by rwa [remaining_tree, (levelOrder_perm tree).length_eq, length_preorder])
    rw [← isRoot, remaining_tree] at visited
    exact visited

/-- The node 0 has the children 1 and 3, and the node 1 has the child 2. -/
theorem dfs_bfs_orders_fourNodes :
    print_tree Int.ofNat (fun node => [some 1, some 2].getD node none)
        (fun node => [some 3].getD node none) 5 (some 0) = some [0, 1, 2, 3] ∧
      dfs Int.ofNat (fun node => [some 1, some 2].getD node none)
        (fun node => [some 3].getD node none) 5 (some 0) 3 = some [0, 1, 2, 3] ∧
      bfs Int.ofNat (fun node => [some 1, some 2].getD node none)
        (fun node => [some 3].getD node none) 5 (some 0) 3 = some [0, 1, 3] :=
  @dfs_bfs_orders Nat Int.ofNat (fun node => [some 1, some 2].getD node none)
    (fun node => [some 3].getD node none) 3
    (.node 0 (.node 1 (.node 2 .nil .nil) .nil) (.node 3 .nil .nil)) 5 0
    (by simp [Stored]) (by decide)

end DfsBfs

end StdPrograms.Hobbies

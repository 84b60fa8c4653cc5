import Mathlib.Data.List.Nodup
import Mathlib.Data.List.Perm.Basic
import Mathlib.Data.Tree.Basic
import Mathlib.Logic.Function.Basic
import Mathlib.Order.Basic

/-!
Contract: binary trees in a memory.

Owns the nodes of a tree in order, from the root down and level by level, the paths to its leaves,
search trees and how the order shows them, the tree that is stored behind a pointer where its last
right pointer leads anywhere, and what storing another pointer there does to it.

Does not own what the nodes hold.
-/

namespace StdPrograms.Foundation

variable {α β : Type}

/-- The nodes from left to right. -/
def inorder : BinaryTree α → List α
  | .nil => []
  | .node root left right => inorder left ++ root :: inorder right

theorem length_inorder (tree : BinaryTree α) : (inorder tree).length = tree.numNodes := by
  induction tree with
  | nil => rfl
  | node root left right leftHypothesis rightHypothesis =>
      rw [inorder, List.length_append, List.length_cons, leftHypothesis, rightHypothesis,
        BinaryTree.numNodes]
      omega

/-- The paths from the root to the leaves, from left to right. -/
def leafPaths : BinaryTree α → List (List α)
  | .nil => []
  | .node root .nil .nil => [[root]]
  | .node root left right => (leafPaths left ++ leafPaths right).map (root :: ·)

theorem leafPaths_of_child (root : α) {left right : BinaryTree α}
    (child : left ≠ .nil ∨ right ≠ .nil) :
    leafPaths (.node root left right) = (leafPaths left ++ leafPaths right).map (root :: ·) := by
  match left, right, child with
  | .nil, .nil, child => exact absurd child (by simp)
  | .node _ _ _, _, _ => rfl
  | .nil, .node _ _ _, _ => rfl

/-- Every key is above the keys to the left of it and below the keys to the right. -/
def SearchTree [LT β] (key : α → β) : BinaryTree α → Prop
  | .nil => True
  | .node root left right =>
      ((∀ node ∈ inorder left, key node < key root) ∧
        ∀ node ∈ inorder right, key root < key node) ∧
      SearchTree key left ∧ SearchTree key right

theorem searchTree_iff [Preorder β] {key : α → β} {tree : BinaryTree α} :
    SearchTree key tree ↔ (inorder tree).Pairwise fun node later => key node < key later := by
  induction tree with
  | nil => exact iff_of_true trivial List.Pairwise.nil
  | node root left right leftHypothesis rightHypothesis =>
      rw [SearchTree, inorder, List.pairwise_append, List.pairwise_cons, leftHypothesis,
        rightHypothesis]
      constructor
      · rintro ⟨⟨below, above⟩, sortedLeft, sortedRight⟩
        refine ⟨sortedLeft, ⟨above, sortedRight⟩, ?_⟩
        intro node inLeft later inRest
        cases List.mem_cons.mp inRest with
        | inl same =>
            rw [same]
            exact below node inLeft
        | inr inRight => exact lt_trans (below node inLeft) (above later inRight)
      · rintro ⟨sortedLeft, ⟨above, sortedRight⟩, across⟩
        exact ⟨⟨fun node inLeft => across node inLeft root List.mem_cons_self, above⟩,
          sortedLeft, sortedRight⟩

/-! ### The root first -/

/-- The root before the nodes to the left of it, and these before those to the right. -/
def preorder : BinaryTree α → List α
  | .nil => []
  | .node root left right => root :: (preorder left ++ preorder right)

theorem length_preorder (tree : BinaryTree α) : (preorder tree).length = tree.numNodes := by
  induction tree with
  | nil => rfl
  | node root left right leftHypothesis rightHypothesis =>
      rw [preorder, List.length_cons, List.length_append, leftHypothesis, rightHypothesis,
        BinaryTree.numNodes]

/-- The nodes that many steps below the root, from left to right. -/
def level : BinaryTree α → Nat → List α
  | .nil, _ => []
  | .node root _ _, 0 => [root]
  | .node _ left right, depth + 1 => level left depth ++ level right depth

theorem level_eq_nil {tree : BinaryTree α} {depth : Nat} (below : tree.height ≤ depth) :
    level tree depth = [] := by
  induction tree generalizing depth with
  | nil => rfl
  | node root left right leftHypothesis rightHypothesis =>
      rw [BinaryTree.height] at below
      cases depth with
      | zero => exact absurd below (Nat.not_succ_le_zero _)
      | succ depth =>
          rw [level, leftHypothesis (by omega), rightHypothesis (by omega)]
          rfl

/-- One level after the other. -/
def levelOrder (tree : BinaryTree α) : List α :=
  (List.range tree.height).flatMap (level tree)

theorem levels_perm {tree : BinaryTree α} {bound : Nat} (below : tree.height ≤ bound) :
    ((List.range bound).flatMap (level tree)).Perm (preorder tree) := by
  induction tree generalizing bound with
  | nil => simp [level, preorder]
  | node root left right leftHypothesis rightHypothesis =>
      rw [BinaryTree.height] at below
      cases bound with
      | zero => exact absurd below (Nat.not_succ_le_zero _)
      | succ bound =>
          rw [List.range_succ_eq_map, List.flatMap_cons, List.flatMap_map, level, preorder,
            List.singleton_append]
          apply List.Perm.cons
          have apart := List.flatMap_append_perm (List.range bound) (level left) (level right)
          exact apart.symm.trans
            ((leftHypothesis (by omega)).append (rightHypothesis (by omega)))

theorem levelOrder_perm (tree : BinaryTree α) : (levelOrder tree).Perm (preorder tree) :=
  levels_perm (Nat.le_refl _)

/-- What remains of the orders by level, of trees whose roots are next and of trees whose roots are
one level below those. -/
def remaining (bound : Nat) (next below : List (BinaryTree α)) : List α :=
  (next.flatMap fun tree => level tree 0) ++ (List.range bound).flatMap fun depth =>
    (below.flatMap fun tree => level tree depth) ++
      next.flatMap fun tree => level tree (depth + 1)

theorem remaining_node (bound : Nat) (root : α) (left right : BinaryTree α)
    (next below : List (BinaryTree α)) :
    remaining bound (.node root left right :: next) below =
      root :: remaining bound next (below ++ [left, right]) := by
  simp [remaining, level]

theorem remaining_level (bound : Nat) (below : List (BinaryTree α)) :
    remaining (bound + 1) [] below = remaining bound below [] := by
  simp [remaining, List.range_succ_eq_map, List.flatMap_map]

theorem remaining_tree (tree : BinaryTree α) :
    remaining tree.height [] [tree] = levelOrder tree := by
  simp [remaining, levelOrder]

/-! ### The pointers -/

/-- From `start` the pointers show the tree, and the last right pointer leads to `stop`. -/
def Stored (left right : α → Option α) : Option α → BinaryTree α → Option α → Prop
  | start, .nil, stop => start = stop
  | start, .node root before behind, stop =>
      start = some root ∧ Stored left right (left root) before none ∧
        Stored left right (right root) behind stop

variable {left right other : α → Option α} {start stop : Option α}

theorem Stored.toList_eq {tree : BinaryTree α} (stored : Stored left right start tree none) :
    start.toList = level tree 0 := by
  cases tree with
  | nil =>
      rw [stored]
      rfl
  | node root before behind =>
      rw [stored.1]
      rfl

theorem Stored.congr {tree : BinaryTree α} (stored : Stored left right start tree stop)
    (same : ∀ node ∈ inorder tree, other node = right node) :
    Stored left other start tree stop := by
  induction tree generalizing start stop with
  | nil => exact stored
  | node root before behind beforeHypothesis behindHypothesis =>
      obtain ⟨first, toBefore, toBehind⟩ := stored
      refine ⟨first, beforeHypothesis toBefore ?_, ?_⟩
      · intro node member
        exact same node (List.mem_append_left _ member)
      · rw [same root (List.mem_append_right _ List.mem_cons_self)]
        apply behindHypothesis toBehind
        intro node member
        exact same node (List.mem_append_right _ (List.mem_cons_of_mem root member))

variable [DecidableEq α]

/-- Another pointer is stored in the last node. -/
theorem Stored.update {tree : BinaryTree α} (stored : Stored left right start tree stop)
    (distinct : (inorder tree).Nodup) {last : α} (isLast : (inorder tree).getLast? = some last)
    (new : Option α) :
    right last = stop ∧ Stored left (Function.update right last new) start tree new := by
  induction tree generalizing start with
  | nil => cases isLast
  | node root before behind _ behindHypothesis =>
      obtain ⟨first, toBefore, toBehind⟩ := stored
      rw [inorder] at isLast distinct
      obtain ⟨-, rest, apart⟩ := List.nodup_append'.mp distinct
      obtain ⟨notBehind, distinctBehind⟩ := List.nodup_cons.mp rest
      have lastInRest : last ∈ root :: inorder behind := by
        rw [List.getLast?_append_of_ne_nil _ (List.cons_ne_nil _ _)] at isLast
        exact List.mem_of_getLast? isLast
      have beforeAfter : Stored left (Function.update right last new) (left root) before none := by
        apply toBefore.congr
        intro node member
        apply Function.update_of_ne
        rintro rfl
        exact apart member lastInRest
      cases behind with
      | nil =>
          rw [inorder, List.getLast?_concat] at isLast
          obtain rfl := Option.some.inj isLast
          exact ⟨toBehind, first, beforeAfter, Function.update_self _ _ _⟩
      | node next between after =>
          have nonempty : inorder (.node next between after) ≠ [] :=
            List.append_ne_nil_of_right_ne_nil _ (List.cons_ne_nil _ _)
          rw [List.append_cons, List.getLast?_append_of_ne_nil _ nonempty] at isLast
          obtain ⟨leads, behindAfter⟩ := behindHypothesis toBehind distinctBehind isLast
          have notRoot : root ≠ last := fun same => notBehind (same ▸ List.mem_of_getLast? isLast)
          refine ⟨leads, first, beforeAfter, ?_⟩
          rw [Function.update_of_ne notRoot]
          exact behindAfter

end StdPrograms.Foundation

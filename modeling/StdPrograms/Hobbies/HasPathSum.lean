import StdPrograms.Hobbies.PathSum

/-!
Contract: whether some path has a given sum.

Owns `hasPathSum` and `hasPathSum2` of `solution_112.cpp`, the one with a stack and the set of the
nodes above, the other recursive, and that both tell whether there is a path from the root to a leaf
with the sum.

Does not own what happens when a sum leaves its type.
-/

namespace StdPrograms.Hobbies

open StdPrograms.Foundation

namespace HasPathSum

open PathSum

variable {α : Type} [DecidableEq α] (val : α → Int) (left right : α → Option α)

section Code

variable (sum : Int)

/-- The loop; `visting` begins with its top, and `visited` is a set. -/
def pathLoop : Nat → (visting visited : List α) → (sum_so_far : Int) → Option Bool
  | 0, _, _, _ => none
  | _ + 1, [], _, _ => some false
  | fuel + 1, node :: below, visited, sum_so_far =>
      if node ∈ visited then do
        let sum_so_far ← signed 32 (sum_so_far - val node)
        pathLoop fuel below (visited.erase node) sum_so_far
      else do
        let sum_so_far ← signed 32 (sum_so_far + val node)
        if left node = none ∧ right node = none then
          if sum_so_far = sum then return true
          else
            let sum_so_far ← signed 32 (sum_so_far - val node)
            pathLoop fuel below visited sum_so_far
        else
          let visting := (right node).toList ++ (node :: below)
          let visting := (left node).toList ++ visting
          pathLoop fuel visting (visited ++ [node]) sum_so_far

def hasPathSum (fuel : Nat) (root : Option α) : Option Bool :=
  match root with
  | none => some false
  | some root => pathLoop val left right sum fuel [root] [] 0

/-- The second call is made where the first one returns `false`. -/
def hasPathSum2 (sum : Int) : Nat → Option α → Option Bool
  | 0, _ => none
  | _ + 1, none => some false
  | fuel + 1, some root =>
      if left root = none ∧ right root = none then some (decide (val root = sum))
      else do
        let rest ← signed 32 (sum - val root)
        if ← hasPathSum2 rest fuel (left root) then return true
        else
          let rest ← signed 32 (sum - val root)
          hasPathSum2 rest fuel (right root)

end Code

/-- Some path from the root to a leaf has the sum. -/
def HasPath (sum : Int) (tree : BinaryTree α) : Prop :=
  ∃ path ∈ leafPaths tree, (path.map val).sum = sum

instance (sum : Int) (tree : BinaryTree α) : Decidable (HasPath val sum tree) :=
  inferInstanceAs (Decidable (∃ path ∈ leafPaths tree, _))

/-- What is left of the sum below every node that has a child is of the type. -/
def FitsBelow (sum : Int) : BinaryTree α → Prop
  | .nil => True
  | .node _ .nil .nil => True
  | .node root before behind =>
      InSigned 32 (sum - val root) ∧ FitsBelow (sum - val root) before ∧
        FitsBelow (sum - val root) behind

variable {val left right} {sum start : Int} {root : α} {before behind : BinaryTree α}

omit [DecidableEq α] in
theorem hasPath_leaf : HasPath val sum (.node root .nil .nil) ↔ val root = sum := by
  simp [HasPath, leafPaths]

omit [DecidableEq α] in
theorem hasPath_of_child (child : before ≠ .nil ∨ behind ≠ .nil) :
    HasPath val sum (.node root before behind) ↔
      HasPath val (sum - val root) before ∨ HasPath val (sum - val root) behind := by
  simp only [HasPath, leafPaths_of_child root child, List.mem_map, List.mem_append,
    exists_exists_and_eq_and, List.map_cons, List.sum_cons, or_and_right, exists_or,
    eq_sub_iff_add_eq']

/-! ### With a stack -/

variable {below visited : List α}

theorem pathLoop_leaf (new : root ∉ visited) (startHeld : InSigned 32 start)
    (held : InSigned 32 (start + val root)) (leaf : left root = none ∧ right root = none)
    (fuel : Nat) :
    pathLoop val left right sum (fuel + 1) (root :: below) visited start =
      if val root = sum - start then some true
      else pathLoop val left right sum fuel below visited start := by
  rw [pathLoop, if_neg new, signed_of_inSigned held]
  dsimp only [Option.bind_eq_bind, Option.bind_some]
  rw [if_pos leaf, Int.add_sub_cancel, signed_of_inSigned startHeld]
  simp [eq_sub_iff_add_eq']

/-- The children come on top of their node. -/
theorem pathLoop_inner (new : root ∉ visited) (held : InSigned 32 (start + val root))
    (inner : ¬(left root = none ∧ right root = none)) (fuel : Nat) :
    pathLoop val left right sum (fuel + 1) (root :: below) visited start =
      pathLoop val left right sum fuel
        ((left root).toList ++ ((right root).toList ++ (root :: below))) (visited ++ [root])
        (start + val root) := by
  rw [pathLoop, if_neg new, signed_of_inSigned held]
  dsimp only [Option.bind_eq_bind, Option.bind_some]
  rw [if_neg inner]

/-- The node is seen again below its children. -/
theorem pathLoop_again (new : root ∉ visited) (startHeld : InSigned 32 start) (fuel : Nat) :
    pathLoop val left right sum (fuel + 1) (root :: below) (visited ++ [root])
        (start + val root) =
      pathLoop val left right sum fuel below visited start := by
  rw [pathLoop, if_pos (by simp), Int.add_sub_cancel, signed_of_inSigned startHeld,
    List.erase_append_right _ new, List.erase_cons_head, List.append_nil]
  rfl

/-- A tree on the stack is taken from it when none of its paths has the sum. -/
theorem pathLoop_tree {tree : BinaryTree α} {pointer : Option α}
    (stored : Stored left right pointer tree none) (fresh : Fresh tree visited)
    (startHeld : InSigned 32 start) (fits : Fits val start tree) (fuel : Nat) :
    pathLoop val left right sum (rounds tree + fuel) (pointer.toList ++ below) visited start =
      if HasPath val (sum - start) tree then some true
      else pathLoop val left right sum fuel below visited start := by
  induction tree generalizing pointer below visited start fuel with
  | nil =>
      obtain rfl : pointer = none := stored
      simp [rounds, HasPath, leafPaths]
  | node root before behind beforeHypothesis behindHypothesis =>
      obtain ⟨rfl, toBefore, toBehind⟩ := stored
      obtain ⟨held, fitsBefore, fitsBehind⟩ := fits
      obtain ⟨new, freshBefore, freshBehind⟩ := fresh.parts
      rw [Option.toList_some, List.singleton_append]
      by_cases child : before ≠ .nil ∨ behind ≠ .nil
      · have inner : ¬(left root = none ∧ right root = none) := by
          rw [eq_none_iff_of_stored toBefore, eq_none_iff_of_stored toBehind]
          tauto
        have split : rounds (.node root before behind) + fuel =
            rounds before + (rounds behind + (fuel + 1)) + 1 := by
          rw [rounds_of_child root child]
          omega
        rw [split, pathLoop_inner new held inner,
          beforeHypothesis toBefore freshBefore held fitsBefore,
          behindHypothesis toBehind freshBehind held fitsBehind, pathLoop_again new startHeld]
        simp only [hasPath_of_child child, Int.sub_sub]
        by_cases inBefore : HasPath val (sum - (start + val root)) before
        · simp [inBefore]
        · simp [inBefore]
      · obtain ⟨rfl, rfl⟩ : before = .nil ∧ behind = .nil := by tauto
        have one : rounds (.node root .nil .nil) + fuel = fuel + 1 := Nat.add_comm 1 fuel
        rw [one, pathLoop_leaf new startHeld held ⟨toBefore, toBehind⟩]
        simp only [hasPath_leaf]

/-! ### Recursive -/

omit [DecidableEq α] in
theorem fitsBelow_of_child (child : before ≠ .nil ∨ behind ≠ .nil) :
    FitsBelow val sum (.node root before behind) ↔
      InSigned 32 (sum - val root) ∧ FitsBelow val (sum - val root) before ∧
        FitsBelow val (sum - val root) behind := by
  match before, behind, child with
  | .nil, .nil, child => exact absurd child (by simp)
  | .node _ _ _, _, _ => rfl
  | .nil, .node _ _ _, _ => rfl

theorem hasPathSum2_spec {tree : BinaryTree α} {pointer : Option α} {fuel : Nat}
    (stored : Stored left right pointer tree none) (fits : FitsBelow val sum tree)
    (enough : tree.height < fuel) :
    hasPathSum2 val left right sum fuel pointer = some (decide (HasPath val sum tree)) := by
  induction tree generalizing pointer sum fuel with
  | nil =>
      obtain rfl : pointer = none := stored
      obtain ⟨fuel, rfl⟩ := Nat.exists_eq_succ_of_ne_zero (Nat.ne_zero_of_lt enough)
      simp [hasPathSum2, HasPath, leafPaths]
  | node root before behind beforeHypothesis behindHypothesis =>
      obtain ⟨rfl, toBefore, toBehind⟩ := stored
      obtain ⟨fuel, rfl⟩ := Nat.exists_eq_succ_of_ne_zero (Nat.ne_zero_of_lt enough)
      rw [BinaryTree.height, Nat.succ_eq_add_one, Nat.add_lt_add_iff_right, Nat.max_lt] at enough
      by_cases child : before ≠ .nil ∨ behind ≠ .nil
      · have inner : ¬(left root = none ∧ right root = none) := by
          rw [eq_none_iff_of_stored toBefore, eq_none_iff_of_stored toBehind]
          tauto
        obtain ⟨held, fitsBefore, fitsBehind⟩ := (fitsBelow_of_child child).mp fits
        rw [hasPathSum2, if_neg inner, signed_of_inSigned held]
        dsimp only [Option.bind_eq_bind, Option.bind_some]
        rw [beforeHypothesis toBefore fitsBefore enough.1,
          behindHypothesis toBehind fitsBehind enough.2]
        by_cases inBefore : HasPath val (sum - val root) before
        · simp [hasPath_of_child child, inBefore]
        · simp [hasPath_of_child child, inBefore]
      · obtain ⟨rfl, rfl⟩ : before = .nil ∧ behind = .nil := by tauto
        rw [hasPathSum2, if_pos ⟨toBefore, toBehind⟩]
        simp only [hasPath_leaf]

/-- Both tell whether there is a path with the sum, where their own sums stay in the type. -/
theorem hasPathSum_both {tree : BinaryTree α} {pointer : Option α} {fuel : Nat}
    (stored : Stored left right pointer tree none) (distinct : (inorder tree).Nodup) (sum : Int) :
    (Fits val 0 tree → rounds tree < fuel →
      hasPathSum val left right sum fuel pointer = some (decide (HasPath val sum tree))) ∧
    (FitsBelow val sum tree → tree.height < fuel →
      hasPathSum2 val left right sum fuel pointer = some (decide (HasPath val sum tree))) := by
  refine ⟨fun fits enough => ?_, hasPathSum2_spec stored⟩
  cases pointer with
  | none =>
      obtain rfl := (eq_none_iff_of_stored stored).mp rfl
      simp [hasPathSum, HasPath, leafPaths]
  | some root =>
      obtain ⟨more, rfl⟩ := Nat.exists_eq_add_of_lt enough
      have fresh : Fresh tree [] := ⟨distinct, fun node _ => List.not_mem_nil⟩
      have searched := @pathLoop_tree α _ val left right sum 0 [] [] tree (some root) stored fresh
        (by decide) fits (more + 1)
      rw [Int.sub_zero] at searched
      rw [hasPathSum, Nat.add_assoc]
      refine searched.trans ?_
      by_cases found : HasPath val sum tree
      · simp [found]
      · simp [found, pathLoop]

/-- The node 0 has the children 1 and 2. -/
theorem hasPathSum_both_threeNodes :
    hasPathSum (fun node : Nat => [5, 4, 8].getD node 0) (fun node => [some 1].getD node none)
        (fun node => [some 2].getD node none) 13 5 (some 0) = some true ∧
      hasPathSum2 (fun node : Nat => [5, 4, 8].getD node 0) (fun node => [some 1].getD node none)
        (fun node => [some 2].getD node none) 13 5 (some 0) = some true :=
  have both := @hasPathSum_both Nat _ (fun node => [5, 4, 8].getD node 0)
    (fun node => [some 1].getD node none) (fun node => [some 2].getD node none)
    (.node 0 (.node 1 .nil .nil) (.node 2 .nil .nil)) (some 0) 5 (by simp [Stored]) (by decide) 13
  ⟨both.1 (by simp [Fits, InSigned]) (by decide),
    both.2 (by simp [FitsBelow, InSigned]) (by decide)⟩

end HasPathSum

end StdPrograms.Hobbies

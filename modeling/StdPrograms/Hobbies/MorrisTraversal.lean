import Mathlib.Tactic.Ring
import StdPrograms.Foundation.PointerTree
import StdPrograms.Foundation.SignedInt

/-!
Contract: the check of a search tree by a traversal without a stack.

Owns `isValidBST` of `solution_98.cpp`: the threads that the loop stores in the tree and takes
out again, the keys that it collects, and the counting down of an `int` over the keys.

Does not own the making of a tree.
-/

namespace StdPrograms.Hobbies

open StdPrograms.Foundation

namespace MorrisTraversal

variable {α : Type} [DecidableEq α] (val : α → Int) (left : α → Option α)

/-- The inner loop, to the last node on the right or the one that leads back. -/
def lastBefore (right : α → Option α) (cur : α) : Nat → α → Option α
  | 0, _ => none
  | fuel + 1, prev =>
      match right prev with
      | none => some prev
      | some next => if next = cur then some prev else lastBefore right cur fuel next

/-- The outer loop: the right pointers, `dfs` and `cur`. No statement assigns to a left
pointer. There is no result while the fuel does not last. -/
def traverse : Nat → (α → Option α) → List Int → Option α → Option (List Int × (α → Option α))
  | 0, _, _, _ => none
  | _ + 1, right, dfs, none => some (dfs, right)
  | fuel + 1, right, dfs, some cur =>
      match left cur with
      | none => traverse fuel right (dfs ++ [val cur]) (right cur)
      | some next => do
          let prev ← lastBefore right cur fuel next
          if (right prev).isSome then
            let right := Function.update right prev none
            traverse fuel right (dfs ++ [val cur]) (right cur)
          else traverse fuel (Function.update right prev (some cur)) dfs (left cur)

/-- The last loop, with `i` going down to 1. -/
def ascending (dfs : List Int) : Nat → Option Bool
  | 0 => some true
  | i + 1 =>
      match dfs[i]?, dfs[i + 1]? with
      | some before, some behind => if before < behind then ascending dfs i else some false
      | _, _ => none

/-- The loop from the last index, where an `int` counts the keys. -/
def strictly (dfs : List Int) : Option Bool := do
  let i ← signed 32 (converted 32 dfs.length - 1)
  ascending dfs i.toNat

/-- The answer, and the right pointers afterwards. -/
def isValidBST (fuel : Nat) (right : α → Option α) (root : Option α) :
    Option (Bool × (α → Option α)) :=
  if root = none then some (true, right)
  else do
    let visited ← traverse val left fuel right [] root
    let answer ← strictly visited.1
    return (answer, visited.2)

/-! ### The traversal -/

section Steps

variable {α : Type}

/-- One visit for each node and a second one where there is something on the left. -/
def steps : BinaryTree α → Nat
  | .nil => 0
  | .node _ .nil behind => steps behind + 1
  | .node _ (.node root before between) behind =>
      steps (.node root before between) + steps behind + 2

theorem steps_bounds (tree : BinaryTree α) :
    tree.numNodes ≤ steps tree ∧ steps tree ≤ 2 * tree.numNodes := by
  induction tree using steps.induct with
  | case1 => exact ⟨Nat.le_refl _, Nat.le_refl _⟩
  | case2 _ behind behindHypothesis =>
      rw [steps, BinaryTree.numNodes, BinaryTree.numNodes]
      omega
  | case3 _ root before between behind beforeHypothesis behindHypothesis =>
      rw [steps, BinaryTree.numNodes]
      omega

end Steps

variable {val left}

theorem lastBefore_spec {tree : BinaryTree α} {right : α → Option α} {next cur last : α}
    {stop : Option α} (stored : Stored left right (some next) tree stop)
    (stops : stop = none ∨ stop = some cur) (outside : cur ∉ inorder tree)
    (isLast : (inorder tree).getLast? = some last) {fuel : Nat} (enough : tree.numNodes ≤ fuel) :
    lastBefore right cur fuel next = some last := by
  induction tree generalizing next fuel with
  | nil => cases isLast
  | node root before behind _ behindHypothesis =>
      obtain ⟨first, -, toBehind⟩ := stored
      obtain rfl := Option.some.inj first
      rw [BinaryTree.numNodes] at enough
      obtain ⟨fuel, rfl⟩ := Nat.exists_eq_add_one_of_ne_zero (Nat.ne_zero_of_lt enough)
      rw [inorder] at isLast outside
      cases behind with
      | nil =>
          rw [inorder, List.getLast?_concat] at isLast
          rw [lastBefore, show right next = stop from toBehind]
          cases stops with
          | inl none =>
              subst none
              exact isLast
          | inr back =>
              subst back
              exact (if_pos rfl).trans isLast
      | node second between after =>
          have inBehind : second ∈ inorder (.node second between after) :=
            List.mem_append_right _ List.mem_cons_self
          rw [List.mem_append, List.mem_cons, not_or, not_or] at outside
          have notBack : second ≠ cur := fun same => outside.2.2 (same ▸ inBehind)
          rw [List.append_cons,
            List.getLast?_append_of_ne_nil _ (List.ne_nil_of_mem inBehind)] at isLast
          rw [lastBefore, toBehind.1]
          refine (if_neg notBack).trans (behindHypothesis ?_ outside.2.2 isLast (by omega))
          rw [← toBehind.1]
          exact toBehind

/-- The first visit of a node with something on the left. -/
theorem traverse_thread {right : α → Option α} {next cur last : α} {dfs : List Int} {fuel : Nat}
    (there : left cur = some next) (found : lastBefore right cur fuel next = some last)
    (leads : right last = none) :
    traverse val left (fuel + 1) right dfs (some cur) =
      traverse val left fuel (Function.update right last (some cur)) dfs (left cur) := by
  simp only [traverse, there, found, leads, Option.bind_eq_bind, Option.bind_some,
    Option.isSome_none, Bool.false_eq_true, if_false]

/-- The second visit. -/
theorem traverse_unthread {right : α → Option α} {next cur last : α} {dfs : List Int} {fuel : Nat}
    (there : left cur = some next) (found : lastBefore right cur fuel next = some last)
    (leads : right last = some cur) :
    traverse val left (fuel + 1) right dfs (some cur) =
      traverse val left fuel (Function.update right last none) (dfs ++ [val cur])
        (Function.update right last none cur) := by
  simp only [traverse, there, found, leads, Option.bind_eq_bind, Option.bind_some,
    Option.isSome_some, if_true]

/-- The loop passes over a tree, collects its keys in order and leaves all pointers as they
were. -/
theorem traverse_spec {tree : BinaryTree α} {right : α → Option α} {dfs : List Int}
    {start stop : Option α} (stored : Stored left right start tree stop)
    (distinct : (inorder tree).Nodup) (outside : ∀ node, stop = some node → node ∉ inorder tree)
    {fuel : Nat} (enough : tree.numNodes ≤ fuel) :
    traverse val left (steps tree + fuel) right dfs start =
      traverse val left fuel right (dfs ++ (inorder tree).map val) stop := by
  induction tree using steps.induct generalizing right dfs start stop fuel with
  | case1 =>
      rw [show start = stop from stored, steps, Nat.zero_add, inorder, List.map_nil,
        List.append_nil]
  | case2 cur behind behindHypothesis =>
      obtain ⟨rfl, toBefore, toBehind⟩ := stored
      have nothing : left cur = none := toBefore
      rw [inorder, inorder, List.nil_append] at *
      have outsideBehind : ∀ node, stop = some node → node ∉ inorder behind :=
        fun node back again => outside node back (List.mem_cons_of_mem cur again)
      rw [BinaryTree.numNodes] at enough
      calc
        traverse val left (steps behind + 1 + fuel) right dfs (some cur) =
            traverse val left (steps behind + fuel) right (dfs ++ [val cur]) (right cur) := by
          rw [Nat.add_right_comm, traverse, nothing]
        _ = traverse val left fuel right ((dfs ++ [val cur]) ++ (inorder behind).map val) stop :=
          behindHypothesis toBehind (List.nodup_cons.mp distinct).2 outsideBehind (by omega)
        _ = traverse val left fuel right (dfs ++ (cur :: inorder behind).map val) stop := by
          simp only [List.map_cons, List.append_assoc, List.singleton_append]
  | case3 cur root before between behind beforeHypothesis behindHypothesis =>
      generalize beforeIs : BinaryTree.node root before between = whole at *
      obtain ⟨rfl, toBefore, toBehind⟩ := stored
      rw [inorder, List.nodup_append', List.nodup_cons] at distinct
      obtain ⟨distinctBefore, ⟨-, distinctBehind⟩, apart⟩ := distinct
      have notCur : cur ∉ inorder whole := fun again => apart again List.mem_cons_self
      have next : left cur = some root := by
        rw [← beforeIs] at toBefore
        exact toBefore.1
      have nonempty : inorder whole ≠ [] := by
        rw [← beforeIs]
        exact List.append_ne_nil_of_right_ne_nil _ (List.cons_ne_nil _ _)
      have isLast := List.getLast?_eq_some_getLast nonempty
      generalize (inorder whole).getLast nonempty = last at isLast
      obtain ⟨open', threaded⟩ := toBefore.update distinctBefore isLast (some cur)
      have outsideBefore : ∀ node, some cur = some node → node ∉ inorder whole := by
        rintro node same
        rwa [← Option.some.inj same]
      have outsideBehind : ∀ node, stop = some node → node ∉ inorder behind :=
        fun node back again => outside node back
          (List.mem_append_right _ (List.mem_cons_of_mem cur again))
      rw [BinaryTree.numNodes] at enough
      have bounds := (steps_bounds whole).1
      have restored : Function.update (Function.update right last (some cur)) last none = right := by
        rw [Function.update_idem, ← open', Function.update_eq_self]
      have count : steps (.node cur whole behind) + fuel =
          (steps whole + (steps behind + fuel + 1)) + 1 := by
        rw [← beforeIs, steps]
        omega
      calc
        traverse val left (steps (.node cur whole behind) + fuel) right dfs (some cur) =
            traverse val left (steps whole + (steps behind + fuel + 1))
              (Function.update right last (some cur)) dfs (left cur) := by
          rw [count]
          exact traverse_thread next
            (lastBefore_spec (next ▸ toBefore) (Or.inl rfl) notCur isLast (by omega)) open'
        _ = traverse val left (steps behind + fuel + 1) (Function.update right last (some cur))
              (dfs ++ (inorder whole).map val) (some cur) :=
          beforeHypothesis threaded distinctBefore outsideBefore (by omega)
        _ = traverse val left (steps behind + fuel) right
              (dfs ++ (inorder whole).map val ++ [val cur]) (right cur) := by
          have back := @traverse_unthread α _ val left _ root cur last
            (dfs ++ (inorder whole).map val) (steps behind + fuel) next
            (lastBefore_spec (next ▸ threaded) (Or.inr rfl) notCur isLast (by omega))
            (Function.update_self last (some cur) right)
          rwa [restored] at back
        _ = traverse val left fuel right
              (dfs ++ (inorder whole).map val ++ [val cur] ++ (inorder behind).map val) stop :=
          behindHypothesis toBehind distinctBehind outsideBehind (by omega)
        _ = traverse val left fuel right
              (dfs ++ (inorder whole ++ cur :: inorder behind).map val) stop := by
          simp only [List.map_append, List.map_cons, List.append_assoc, List.singleton_append]

/-! ### The answer -/

theorem ascending_spec {dfs : List Int} {i : Nat} (inside : i < dfs.length) :
    ∃ answer, ascending dfs i = some answer ∧
      (answer = true ↔ ∀ (j : Nat) (within : j + 1 < dfs.length), j < i → dfs[j] < dfs[j + 1]) := by
  induction i with
  | zero => exact ⟨true, rfl, iff_of_true rfl (fun j _ below => absurd below (Nat.not_lt_zero j))⟩
  | succ i inductionHypothesis =>
      obtain ⟨answer, returned, holds⟩ := inductionHypothesis (Nat.lt_of_succ_lt inside)
      rw [ascending, List.getElem?_eq_getElem (Nat.lt_of_succ_lt inside),
        List.getElem?_eq_getElem inside]
      by_cases less : dfs[i] < dfs[i + 1]
      · refine ⟨answer, (if_pos less).trans returned, ?_⟩
        rw [holds]
        constructor
        · intro below j within upTo
          rcases Nat.lt_succ_iff_lt_or_eq.mp upTo with before | rfl
          · exact below j within before
          · exact less
        · intro below j within before
          exact below j within (Nat.lt_succ_of_lt before)
      · refine ⟨false, if_neg less, ?_⟩
        exact iff_of_false Bool.false_ne_true
          (fun below => less (below i inside (Nat.lt_succ_self i)))

/-- From the last index the loop finds out whether the keys increase. -/
theorem ascending_last {dfs : List Int} (nonempty : dfs ≠ []) :
    ∃ answer, ascending dfs (dfs.length - 1) = some answer ∧
      (answer = true ↔ dfs.Pairwise (· < ·)) := by
  have positive := List.length_pos_iff.mpr nonempty
  obtain ⟨answer, returned, holds⟩ :=
    @ascending_spec dfs (dfs.length - 1) (Nat.sub_lt positive Nat.one_pos)
  refine ⟨answer, returned, ?_⟩
  rw [holds, ← List.isChain_iff_pairwise, List.isChain_iff_getElem]
  constructor
  · intro below j within
    exact below j within (by omega)
  · intro below j within _
    exact below j within

/-- Where an `int` counts the keys. -/
theorem strictly_of_lt {dfs : List Int} (counted : dfs.length < 2 ^ 31) :
    strictly dfs = ascending dfs (dfs.length - 1) := by
  have size : converted 32 (dfs.length : Int) = dfs.length := by
    apply converted_of_inSigned (by decide)
    unfold InSigned
    omega
  have held : InSigned 32 ((dfs.length : Int) - 1) := by
    unfold InSigned
    omega
  have index : ((dfs.length : Int) - 1).toNat = dfs.length - 1 := by omega
  rw [strictly, size, signed_of_inSigned held]
  change ascending dfs ((dfs.length : Int) - 1).toNat = _
  rw [index]

/-- What the check does with the keys in order. -/
theorem isValidBST_eq {tree : BinaryTree α} {right : α → Option α} {root : Option α}
    (stored : Stored left right root tree none) (distinct : (inorder tree).Nodup)
    (nonempty : root ≠ none) {fuel : Nat} (enough : 3 * tree.numNodes < fuel) :
    isValidBST val left fuel right root =
      (strictly ((inorder tree).map val)).map fun answer => (answer, right) := by
  have bounds := steps_bounds tree
  have passed := @traverse_spec α _ val left tree right [] root none stored distinct
    (fun node back => by cases back) (fuel - steps tree) (by omega)
  obtain ⟨rest, restIs⟩ : ∃ rest, fuel - steps tree = rest + 1 :=
    Nat.exists_eq_add_one_of_ne_zero (by omega)
  rw [Nat.add_sub_cancel' (by omega), restIs, List.nil_append, traverse] at passed
  rw [isValidBST, if_neg nonempty, passed, Option.bind_eq_bind, Option.bind_some]
  generalize strictly ((inorder tree).map val) = verdict
  cases verdict <;> rfl

/-- Below `2 ^ 31` nodes the check tells a search tree, and it leaves all pointers as they
were. -/
theorem isValidBST_iff (val : α → Int) (left right : α → Option α) (root : Option α)
    (tree : BinaryTree α) (stored : Stored left right root tree none)
    (distinct : (inorder tree).Nodup) (counted : tree.numNodes < 2 ^ 31) :
    ∀ fuel > 3 * tree.numNodes, ∃ answer,
      isValidBST val left fuel right root = some (answer, right) ∧
        (answer = true ↔ SearchTree val tree) := by
  intro fuel enough
  cases tree with
  | nil =>
      have empty : root = none := stored
      exact ⟨true, if_pos empty, iff_of_true rfl trivial⟩
  | node cur before behind =>
      have nonempty : root ≠ none := by
        rw [stored.1]
        exact Option.some_ne_none cur
      generalize treeIs : BinaryTree.node cur before behind = tree at *
      have keys : (inorder tree).map val ≠ [] := by
        rw [← treeIs, inorder]
        simp
      have length : ((inorder tree).map val).length = tree.numNodes := by
        rw [List.length_map, length_inorder]
      obtain ⟨answer, returned, holds⟩ := ascending_last keys
      rw [List.pairwise_map, ← searchTree_iff] at holds
      refine ⟨answer, ?_, holds⟩
      have counts : strictly ((inorder tree).map val) = some answer := by
        rw [strictly_of_lt (length ▸ counted), returned]
      rw [isValidBST_eq stored distinct nonempty enough, counts]
      rfl

/-- A root with one node on each side. -/
def threeNodes : BinaryTree Nat := .node 1 (.node 0 .nil .nil) (.node 2 .nil .nil)

/-- Only the root has a node there. -/
def beside (there : Nat) : Nat → Option Nat := fun node => if node = 1 then some there else none

theorem isValidBST_iff_threeNodes :
    ∃ answer, isValidBST (fun node => Int.ofNat node) (beside 0) 10 (beside 2) (some 1) =
        some (answer, beside 2) ∧
      (answer = true ↔ SearchTree (fun node => Int.ofNat node) threeNodes) :=
  isValidBST_iff _ (beside 0) (beside 2) (some 1) threeNodes
    ⟨rfl, ⟨rfl, rfl, rfl⟩, rfl, rfl, rfl⟩ (by decide) (by decide) 10 (by decide)

/-! ### More nodes than an `int` counts -/

/-- Nodes that follow each other on the right. -/
def spine : Nat → Nat → BinaryTree Nat
  | _, 0 => .nil
  | first, count + 1 => .node first .nil (spine (first + 1) count)

def spineRight (size node : Nat) : Option Nat := if node + 1 < size then some (node + 1) else none

theorem inorder_spine (first count : Nat) : inorder (spine first count) = List.range' first count := by
  induction count generalizing first with
  | zero => rfl
  | succ count inductionHypothesis =>
      rw [spine, inorder, inductionHypothesis, List.range'_succ]
      rfl

theorem stored_spine {size first count : Nat} (upTo : first + count = size) :
    Stored (fun _ => none) (spineRight size) (if first < size then some first else none)
      (spine first count) none := by
  induction count generalizing first with
  | zero => exact if_neg (by omega)
  | succ count inductionHypothesis =>
      exact ⟨if_pos (by omega), rfl, inductionHypothesis (by omega)⟩

/-- Equal keys are not noticed where the conversion of the size is negative. -/
theorem isValidBST_spine {size : Nat} (sizeIs : size = 2 ^ 31 + 1) {fuel : Nat}
    (enough : 3 * (spine 0 size).numNodes < fuel) :
    isValidBST (fun _ => 0) (fun _ => none) fuel (spineRight size) (some 0) =
      some (true, spineRight size) := by
  have stored := stored_spine (Nat.zero_add size)
  rw [if_pos (by omega)] at stored
  have distinct : (inorder (spine 0 size)).Nodup := by
    rw [inorder_spine]
    exact List.nodup_range'
  have length : ((inorder (spine 0 size)).map fun _ => (0 : Int)).length = size := by
    rw [List.length_map, inorder_spine, List.length_range']
  have first : converted 32 size - 1 = -2 ^ 31 := by
    unfold converted
    omega
  have held : InSigned 32 (-2 ^ 31) := by decide
  have passed : strictly ((inorder (spine 0 size)).map fun _ => 0) = some true := by
    rw [strictly, length, first, signed_of_inSigned held]
    rfl
  rw [isValidBST_eq stored distinct (Option.some_ne_none 0) enough, passed]
  rfl

theorem not_searchTree_spine {size : Nat} (several : 1 < size) :
    ¬SearchTree (fun _ => (0 : Int)) (spine 0 size) := by
  obtain ⟨count, rfl⟩ : ∃ count, size = count + 2 := ⟨size - 2, by omega⟩
  rintro ⟨⟨-, above⟩, -⟩
  have member : 1 ∈ inorder (spine 1 (count + 1)) := by
    rw [inorder_spine, List.range'_succ]
    exact List.mem_cons_self
  exact lt_irrefl _ (above 1 member)

/-- A spine of `2 ^ 31 + 1` equal keys passes for a search tree. -/
theorem isValidBST_manyNodes :
    ∃ (right : Nat → Option Nat) (tree : BinaryTree Nat),
      Stored (fun _ => none) right (some 0) tree none ∧ (inorder tree).Nodup ∧
        tree.numNodes = 2 ^ 31 + 1 ∧ ¬SearchTree (fun _ => (0 : Int)) tree ∧
          ∀ fuel > 3 * tree.numNodes,
            isValidBST (fun _ => 0) (fun _ => none) fuel right (some 0) = some (true, right) := by
  obtain ⟨size, sizeIs⟩ : ∃ size : Nat, size = 2 ^ 31 + 1 := ⟨_, rfl⟩
  refine ⟨spineRight size, spine 0 size, ?_, ?_, ?_, not_searchTree_spine (by omega),
    fun fuel enough => isValidBST_spine sizeIs enough⟩
  · have stored := stored_spine (Nat.zero_add size)
    rwa [if_pos (by omega)] at stored
  · rw [inorder_spine]
    exact List.nodup_range'
  · rw [← length_inorder, inorder_spine, List.length_range', sizeIs]

end MorrisTraversal

end StdPrograms.Hobbies

import StdPrograms.Hobbies.ListQuickSort

/-!
Contract: two insertion sorts of a linked list.

Owns `insertionSortList` with its `helper` and `insertionSortList2` of `solution_147.cpp`, and that
both leave all nodes in order.

Does not own the lines that are printed meanwhile.
-/

namespace StdPrograms.Hobbies

open scoped List
open StdPrograms.Foundation StdPrograms.Foundation.Links

namespace ListInsertionSort

open ListQuickSort (Ordered)

variable {α : Type} (val : α → Int)

section Code

variable [DecidableEq α]

/-- The loop inside: `cprev`, as the place that it points to, and `pos`. -/
def findPos (links : Links α) (node : α) : Nat → Slot α → α → Option (Slot α × α)
  | 0, _, _ => none
  | fuel + 1, cprev, pos =>
      if val pos < val node then do
        let next ← links (.next pos)
        findPos links node fuel (.next pos) next
      else some (cprev, pos)

/-- The loop of `insertionSortList2`; the one inside has `steps`. -/
def insertLoop2 (steps : Nat) : Nat → Links α → α → Option α → Option (Links α)
  | 0, _, _, _ => none
  | _ + 1, links, _, none => some links
  | fuel + 1, links, prev, some node => do
      let head ← links .root
      let (cprev, pos) ← findPos val links node steps .root head
      let next := links (.next node)
      if pos = node then insertLoop2 steps fuel links node next
      else
        let links := links.set cprev (some node)
        let links := links.set (.next prev) (links (.next node))
        let links := links.set (.next node) (some pos)
        insertLoop2 steps fuel links prev next

/-- The node that is returned, and the links. The parameter `head` is one of them. -/
def insertionSortList2 (fuel : Nat) (links : Links α) : Option (Option α × Links α) :=
  match links .root with
  | none => some (none, links)
  | some head => do
      let links ← insertLoop2 val fuel fuel links head (links (.next head))
      return (links .root, links)

/-- The node that is returned, and the links. -/
def helper (links : Links α) (node : α) : Nat → α → Option (Option α × Links α)
  | 0, _ => none
  | fuel + 1, prev =>
      if links (.next prev) = some node then
        if val prev < val node then some (some prev, links)
        else some (none, links.set (.next prev) (links (.next node)))
      else do
        let next ← links (.next prev)
        let (result, links) ← helper links node fuel next
        if result.isSome then return (result, links)
        else if val prev < val node then return (some prev, links)
        else return (none, links)

def insertLoop (steps : Nat) : Nat → Links α → Option α → Option (Links α)
  | 0, _, _ => none
  | _ + 1, links, none => some links
  | fuel + 1, links, some node => do
      let head ← links .root
      let (pos, links) ← helper val links node steps head
      let next := links (.next node)
      match pos with
      | some pos =>
          if links (.next pos) ≠ some node then
            let links := links.set (.next node) (links (.next pos))
            let links := links.set (.next pos) (some node)
            insertLoop steps fuel links next
          else insertLoop steps fuel links next
      | none =>
          let links := links.set (.next node) (links .root)
          let links := links.set .root (some node)
          insertLoop steps fuel links next

/-- There is no result where the list is empty: its first node is read. -/
def insertionSortList (fuel : Nat) (links : Links α) : Option (Option α × Links α) := do
  let head ← links .root
  let links ← insertLoop val fuel fuel links (links (.next head))
  return (links .root, links)

end Code

/-! ### Where a node belongs -/

variable {val}

/-- The nodes before the place of a node, and those behind it. -/
structure Splits (val : α → Int) (node : α) (low high : List α) : Prop where
  less : ∀ other ∈ low, val other < val node
  atLeast : ∀ other ∈ high, val node ≤ val other

theorem exists_splits {sorted : List α} (ordered : Ordered val sorted) (node : α) :
    ∃ low high, sorted = low ++ high ∧ Splits val node low high := by
  induction sorted with
  | nil => exact ⟨[], [], rfl, by simp, by simp⟩
  | cons first rest inductionHypothesis =>
      obtain ⟨firstLeast, restOrdered⟩ := List.pairwise_cons.mp ordered
      by_cases small : val first < val node
      · obtain ⟨low, high, rfl, less, atLeast⟩ := inductionHypothesis restOrdered
        exact ⟨first :: low, high, rfl, List.forall_mem_cons.mpr ⟨small, less⟩, atLeast⟩
      · have big := not_lt.mp small
        refine ⟨[], first :: rest, rfl, by simp, List.forall_mem_cons.mpr ⟨big, ?_⟩⟩
        exact fun other member => big.trans (firstLeast other member)

theorem Splits.ordered {node : α} {low high : List α} (splits : Splits val node low high)
    (ordered : Ordered val (low ++ high)) : Ordered val (low ++ node :: high) := by
  obtain ⟨lowOrdered, highOrdered, below⟩ := List.pairwise_append.mp ordered
  refine List.pairwise_append.mpr ⟨lowOrdered, ?_, fun left inLow right inHigh => ?_⟩
  · exact List.pairwise_cons.mpr ⟨splits.atLeast, highOrdered⟩
  · rcases List.mem_cons.mp inHigh with rfl | later
    · exact le_of_lt (splits.less left inLow)
    · exact below left inLow right later

/-- A node that is inserted into those before it is taken from those that follow. -/
theorem inserted_perm (low high : List α) (node : α) (rest : List α) :
    (low ++ node :: high) ++ rest ~ (low ++ high) ++ node :: rest :=
  calc
    (low ++ node :: high) ++ rest ~ (node :: (low ++ high)) ++ rest :=
      List.Perm.append_right rest List.perm_middle
    _ ~ (low ++ high) ++ node :: rest := List.perm_middle.symm

/-- A round has put a node in its place among those before it. -/
structure Inserted (val : α → Int) (sorted : List α) (node : α) (rest inserted : List α)
    (after : Links α) : Prop where
  chain : Chain after .root (inserted ++ rest)
  ordered : Ordered val inserted
  perm : inserted ++ rest ~ sorted ++ node :: rest

theorem Splits.inserted {node : α} {low high rest : List α} {after : Links α}
    (splits : Splits val node low high) (ordered : Ordered val (low ++ high))
    (chain : Chain after .root (low ++ node :: (high ++ rest))) :
    Inserted val (low ++ high) node rest (low ++ node :: high) after where
  chain := by rwa [← List.cons_append, ← List.append_assoc] at chain
  ordered := splits.ordered ordered
  perm := inserted_perm low high node rest

variable [DecidableEq α]

/-! ### `insertionSortList2` -/

omit [DecidableEq α] in
theorem findPos_eq {links : Links α} {slot : Slot α} {node target : α} {low back : List α}
    (chain : Chain links slot (low ++ target :: back)) (less : ∀ other ∈ low, val other < val node)
    (stops : ¬val target < val node) {fuel : Nat} (enough : low.length < fuel) {first : α}
    (begins : links slot = some first) :
    findPos val links node fuel slot first = some (last slot low, target) := by
  induction low generalizing slot fuel first with
  | nil =>
      obtain ⟨fuel, rfl⟩ := Nat.exists_eq_add_one_of_ne_zero (Nat.ne_zero_of_lt enough)
      obtain rfl := Option.some.inj (begins.symm.trans chain.1)
      rw [findPos, if_neg stops]
      rfl
  | cons other low inductionHypothesis =>
      obtain ⟨fuel, rfl⟩ := Nat.exists_eq_add_one_of_ne_zero (Nat.ne_zero_of_lt enough)
      obtain rfl := Option.some.inj (begins.symm.trans chain.1)
      obtain ⟨small, lowLess⟩ := List.forall_mem_cons.mp less
      obtain ⟨next, nextIs⟩ : ∃ next, links (.next first) = some next := by
        rw [chain.2.head?_eq]
        cases low with
        | nil => exact ⟨target, rfl⟩
        | cons next low => exact ⟨next, rfl⟩
      rw [findPos, if_pos small, nextIs]
      exact inductionHypothesis chain.2 lowLess (Nat.lt_of_succ_lt_succ enough) nextIs

/-- The statements of `insertionSortList2` move the node as those of `helper` do, in another
order. -/
theorem set_eq_move {links : Links α} {low middle rest : List α} {ref node prev : α}
    (chain : Chain links .root (low ++ ref :: (middle ++ node :: rest)))
    (prevLast : Slot.next prev = last (.next ref) middle) :
    ((links.set (last .root low) (some node)).set (.next prev)
        (links.set (last .root low) (some node) (.next node))).set (.next node) (some ref) =
      ((links.set (last (.next ref) middle) (links (.next node))).set (.next node)
        (some ref)).set (last .root low) (some node) := by
  obtain ⟨lowNode, lowMiddle, -⟩ := chain.move_places
  rw [prevLast, set_other _ _ lowNode.symm, set_comm _ _ _ lowMiddle.symm,
    set_comm _ _ _ lowNode.symm]

theorem insertLoop2_round {steps : Nat} {links : Links α} {prev node : α} {sorted rest : List α}
    (chain : Chain links .root (sorted ++ node :: rest)) (prevLast : sorted.getLast? = some prev)
    (ordered : Ordered val sorted) (enoughSteps : (sorted ++ node :: rest).length ≤ steps)
    (fuel : Nat) :
    ∃ inserted after prev', inserted.getLast? = some prev' ∧
      Inserted val sorted node rest inserted after ∧
      insertLoop2 val steps (fuel + 1) links prev (some node) =
        insertLoop2 val steps fuel after prev' rest.head? := by
  have next := chain.next_eq
  rw [List.length_append, List.length_cons] at enoughSteps
  obtain ⟨head, begins⟩ : ∃ head, links .root = some head := by
    rw [chain.head?_eq]
    cases sorted with
    | nil => cases prevLast
    | cons head sorted => exact ⟨head, rfl⟩
  obtain ⟨low, high, rfl, splits⟩ := exists_splits ordered node
  rw [insertLoop2, begins]
  dsimp only [Option.bind_eq_bind, Option.bind_some]
  cases high with
  | nil =>
      rw [List.append_nil] at enoughSteps
      refine ⟨low ++ [node], links, node, List.getLast?_concat, splits.inserted ordered ?_, ?_⟩
      · rwa [List.append_nil] at chain
      · rw [List.append_nil] at chain
        rw [findPos_eq chain splits.less (lt_irrefl _) (by omega) begins]
        dsimp only [Option.bind_some]
        rw [if_pos rfl, next]
  | cons ref middle =>
      rw [List.append_assoc, List.cons_append] at chain
      rw [List.length_append] at enoughSteps
      have stops : ¬val ref < val node := not_lt.mpr (splits.atLeast ref List.mem_cons_self)
      have prevPlace : Slot.next prev = last (.next ref) middle := by
        rw [← @last_of_getLast? α .root _ prev prevLast, last_append]
        rfl
      refine ⟨low ++ node :: ref :: middle, _, prev, ?_, splits.inserted ordered chain.move, ?_⟩
      · simpa [List.getLast?_append, List.getLast?_cons] using prevLast
      · rw [findPos_eq chain splits.less stops (by omega) begins]
        dsimp only [Option.bind_some]
        rw [if_neg chain.ne_behind, set_eq_move chain prevPlace, next]

theorem insertLoop2_spec {steps fuel : Nat} {links : Links α} {prev : α} {sorted rest : List α}
    (chain : Chain links .root (sorted ++ rest)) (prevLast : sorted.getLast? = some prev)
    (ordered : Ordered val sorted) (enoughSteps : (sorted ++ rest).length ≤ steps)
    (enough : rest.length < fuel) :
    ∃ final after, insertLoop2 val steps fuel links prev rest.head? = some after ∧
      Chain after .root final ∧ Ordered val final ∧ final ~ sorted ++ rest := by
  induction rest generalizing fuel links prev sorted with
  | nil =>
      obtain ⟨fuel, rfl⟩ := Nat.exists_eq_add_one_of_ne_zero (Nat.ne_zero_of_lt enough)
      rw [List.append_nil] at chain ⊢
      exact ⟨sorted, links, rfl, chain, ordered, List.Perm.refl sorted⟩
  | cons node rest inductionHypothesis =>
      obtain ⟨fuel, rfl⟩ := Nat.exists_eq_add_one_of_ne_zero (Nat.ne_zero_of_lt enough)
      obtain ⟨inserted, between, prev', lastIs, round, returned⟩ :=
        insertLoop2_round chain prevLast ordered enoughSteps fuel
      obtain ⟨final, after, finished, chainAfter, orderedFinal, permutation⟩ :=
        inductionHypothesis round.chain lastIs round.ordered
          (round.perm.length_eq.trans_le enoughSteps) (Nat.lt_of_succ_lt_succ enough)
      exact ⟨final, after, returned.trans finished, chainAfter, orderedFinal,
        permutation.trans round.perm⟩

/-! ### `insertionSortList` -/

/-- No node before the given one is less: it is only taken out. -/
theorem helper_eq_none {links : Links α} {slot : Slot α} {node first : α} {tail rest : List α}
    (chain : Chain links slot (first :: (tail ++ node :: rest)))
    (atLeast : ∀ other ∈ first :: tail, val node ≤ val other) {fuel : Nat}
    (enough : tail.length < fuel) :
    helper val links node fuel first =
      some (none, links.set (last slot (first :: tail)) (links (.next node))) := by
  obtain ⟨fuel, rfl⟩ := Nat.exists_eq_add_one_of_ne_zero (Nat.ne_zero_of_lt enough)
  induction tail generalizing slot first fuel with
  | nil =>
      have next : links (.next first) = some node := chain.2.1
      have big := not_lt.mpr (atLeast first List.mem_cons_self)
      rw [helper, if_pos next, if_neg big]
      rfl
  | cons second tail inductionHypothesis =>
      obtain ⟨fuel, rfl⟩ := Nat.exists_eq_add_one_of_ne_zero
        (Nat.ne_zero_of_lt (Nat.lt_of_succ_lt_succ enough))
      obtain ⟨firstAtLeast, tailAtLeast⟩ := List.forall_mem_cons.mp atLeast
      have next : links (.next first) = some second := chain.2.1
      have differ : second ≠ node := @Chain.ne_behind α links _ [] _ _ _ _ chain.2
      have later := inductionHypothesis chain.2 tailAtLeast fuel (Nat.lt_of_succ_lt_succ enough)
      rw [helper, next, if_neg fun same => differ (Option.some.inj same)]
      dsimp only [Option.bind_eq_bind, Option.bind_some]
      rw [later]
      dsimp only [Option.bind_some]
      rw [if_neg (by simp), if_neg (not_lt.mpr firstAtLeast)]
      rfl

/-- The last node that is less, and the links without the given node where others follow. -/
theorem helper_eq {links : Links α} {slot : Slot α} {node : α} {low high rest : List α}
    (chain : Chain links slot (low ++ (high ++ node :: rest))) (splits : Splits val node low high)
    {first : α} (begins : (low ++ high).head? = some first) {fuel : Nat}
    (enough : (low ++ high).length ≤ fuel) :
    helper val links node fuel first =
      some (low.getLast?, if high = [] then links
        else links.set (last slot (low ++ high)) (links (.next node))) := by
  induction low generalizing slot first fuel with
  | nil =>
      cases high with
      | nil => cases begins
      | cons other tail =>
          obtain rfl := Option.some.inj begins
          rw [if_neg (List.cons_ne_nil _ _)]
          exact helper_eq_none chain splits.atLeast enough
  | cons other low inductionHypothesis =>
      obtain rfl := Option.some.inj begins
      obtain ⟨fuel, rfl⟩ := Nat.exists_eq_add_one_of_ne_zero
        (Nat.ne_zero_of_lt (Nat.lt_of_lt_of_le (Nat.zero_lt_succ _) enough))
      obtain ⟨small, lowLess⟩ := List.forall_mem_cons.mp splits.less
      rw [helper]
      by_cases ended : low ++ high = []
      · obtain ⟨rfl, rfl⟩ := List.append_eq_nil_iff.mp ended
        have next : links (.next other) = some node := chain.2.1
        rw [if_pos next, if_pos small]
        rfl
      · obtain ⟨second, others, secondIs⟩ := List.exists_cons_of_ne_nil ended
        have behind : Chain links (.next other) (low ++ (high ++ node :: rest)) := chain.2
        rw [← List.append_assoc, secondIs] at behind
        have differ : second ≠ node := @Chain.ne_behind α links _ [] _ _ _ _ behind
        have later := @inductionHypothesis (.next other) chain.2 ⟨lowLess, splits.atLeast⟩ second
          (by rw [secondIs]; rfl) fuel (Nat.le_of_succ_le_succ enough)
        rw [behind.1, if_neg fun same => differ (Option.some.inj same)]
        dsimp only [Option.bind_eq_bind, Option.bind_some]
        rw [later]
        dsimp only [Option.bind_some]
        cases low with
        | nil =>
            rw [if_neg (by simp), if_pos small]
            rfl
        | cons third low =>
            rw [List.getLast?_cons_cons, if_pos (by simp)]
            rfl

theorem insertLoop_round {steps : Nat} {links : Links α} {node : α} {sorted rest : List α}
    (chain : Chain links .root (sorted ++ node :: rest)) (nonempty : sorted ≠ [])
    (ordered : Ordered val sorted) (enoughSteps : (sorted ++ node :: rest).length ≤ steps)
    (fuel : Nat) :
    ∃ inserted after, inserted ≠ [] ∧ Inserted val sorted node rest inserted after ∧
      insertLoop val steps (fuel + 1) links (some node) =
        insertLoop val steps fuel after rest.head? := by
  have next := chain.next_eq
  rw [List.length_append, List.length_cons] at enoughSteps
  obtain ⟨head, tail, headIs⟩ := List.exists_cons_of_ne_nil nonempty
  have begins : links .root = some head := by
    rw [chain.head?_eq, headIs]
    rfl
  obtain ⟨low, high, rfl, splits⟩ := exists_splits ordered node
  rw [List.append_assoc] at chain
  rw [insertLoop, begins]
  dsimp only [Option.bind_eq_bind, Option.bind_some]
  rw [helper_eq chain splits (by rw [headIs]; rfl) (by omega)]
  dsimp only [Option.bind_some]
  cases high with
  | nil =>
      rw [List.append_nil] at nonempty
      rw [List.nil_append] at chain
      refine ⟨low ++ [node], links, List.concat_ne_nil _ _, splits.inserted ordered chain, ?_⟩
      obtain ⟨pos, posIs⟩ : ∃ pos, low.getLast? = some pos :=
        ⟨_, List.getLast?_eq_some_getLast nonempty⟩
      have posNext : links (.next pos) = some node := by
        rw [chain_append, last_of_getLast? posIs] at chain
        exact chain.2.1
      rw [if_pos rfl, posIs]
      dsimp only
      rw [if_neg (not_not.mpr posNext), next]
  | cons ref middle =>
      rw [List.cons_append] at chain
      refine ⟨low ++ node :: ref :: middle, _, by simp, splits.inserted ordered chain.move, ?_⟩
      obtain ⟨lowNode, lowMiddle, middleNode⟩ := chain.move_places
      have refLink : links (last .root low) = some ref := ((chain_append _ _).mp chain).2.1
      have place : last .root (low ++ ref :: middle) = last (.next ref) middle :=
        last_append _ _ _
      rw [if_neg (List.cons_ne_nil _ _), place, set_other _ _ middleNode.symm, next]
      have refKept : links.set (last (.next ref) middle) rest.head? (last .root low) =
          some ref := by
        rw [set_other _ _ lowMiddle, refLink]
      cases lowIs : low.getLast? with
      | none =>
          rw [List.getLast?_eq_none_iff.mp lowIs, last] at refKept
          dsimp only
          rw [refKept, List.getLast?_eq_none_iff.mp lowIs, last]
      | some pos =>
          rw [last_of_getLast? lowIs] at refKept
          have other : links.set (last (.next ref) middle) rest.head? (.next pos) ≠
              some node := by
            rw [refKept]
            exact fun same => chain.ne_behind (Option.some.inj same)
          dsimp only
          rw [if_pos other, refKept, last_of_getLast? lowIs]

theorem insertLoop_spec {steps fuel : Nat} {links : Links α} {sorted rest : List α}
    (chain : Chain links .root (sorted ++ rest)) (nonempty : sorted ≠ [])
    (ordered : Ordered val sorted) (enoughSteps : (sorted ++ rest).length ≤ steps)
    (enough : rest.length < fuel) :
    ∃ final after, insertLoop val steps fuel links rest.head? = some after ∧
      Chain after .root final ∧ Ordered val final ∧ final ~ sorted ++ rest := by
  induction rest generalizing fuel links sorted with
  | nil =>
      obtain ⟨fuel, rfl⟩ := Nat.exists_eq_add_one_of_ne_zero (Nat.ne_zero_of_lt enough)
      rw [List.append_nil] at chain ⊢
      exact ⟨sorted, links, rfl, chain, ordered, List.Perm.refl sorted⟩
  | cons node rest inductionHypothesis =>
      obtain ⟨fuel, rfl⟩ := Nat.exists_eq_add_one_of_ne_zero (Nat.ne_zero_of_lt enough)
      obtain ⟨inserted, between, insertedNonempty, round, returned⟩ :=
        insertLoop_round chain nonempty ordered enoughSteps fuel
      obtain ⟨final, after, finished, chainAfter, orderedFinal, permutation⟩ :=
        inductionHypothesis round.chain insertedNonempty round.ordered
          (round.perm.length_eq.trans_le enoughSteps) (Nat.lt_of_succ_lt_succ enough)
      exact ⟨final, after, returned.trans finished, chainAfter, orderedFinal,
        permutation.trans round.perm⟩

/-! ### Both sorts -/

theorem insertionSorts_sort (val : α → Int) {links : Links α} {nodes : List α}
    (chain : Chain links .root nodes) (nonempty : nodes ≠ []) {fuel : Nat}
    (enough : nodes.length ≤ fuel) :
    (∃ sorted after, insertionSortList val fuel links = some (after .root, after) ∧
      Chain after .root sorted ∧ Ordered val sorted ∧ sorted ~ nodes ∧ sorted.Nodup) ∧
    ∃ sorted after, insertionSortList2 val fuel links = some (after .root, after) ∧
      Chain after .root sorted ∧ Ordered val sorted ∧ sorted ~ nodes ∧ sorted.Nodup := by
  obtain ⟨head, rest, rfl⟩ := List.exists_cons_of_ne_nil nonempty
  have single : Ordered val [head] := List.pairwise_singleton _ head
  have next := chain.2.head?_eq
  constructor
  · obtain ⟨sorted, after, returned, chainAfter, ordered, permutation⟩ :=
      @insertLoop_spec α val _ fuel fuel links [head] rest chain (List.cons_ne_nil _ _) single
        enough enough
    refine ⟨sorted, after, ?_, chainAfter, ordered, permutation, chainAfter.nodup⟩
    rw [insertionSortList, chain.1]
    dsimp only [Option.bind_eq_bind, Option.bind_some]
    rw [next, returned]
    rfl
  · obtain ⟨sorted, after, returned, chainAfter, ordered, permutation⟩ :=
      @insertLoop2_spec α val _ fuel fuel links head [head] rest chain rfl single enough enough
    refine ⟨sorted, after, ?_, chainAfter, ordered, permutation, chainAfter.nodup⟩
    rw [insertionSortList2, chain.1]
    dsimp only
    rw [next, returned]
    rfl

theorem insertionSorts_sort_twoNodes :
    Chain ListQuickSort.twoNodes .root [0, 1] ∧
    (∃ sorted after, insertionSortList (fun node => if node = 0 then 3 else 1) 2
        ListQuickSort.twoNodes = some (after .root, after) ∧
      Chain after .root sorted ∧ Ordered (fun node => if node = 0 then 3 else 1) sorted ∧
      sorted ~ [0, 1] ∧ sorted.Nodup) ∧
    ∃ sorted after, insertionSortList2 (fun node => if node = 0 then 3 else 1) 2
        ListQuickSort.twoNodes = some (after .root, after) ∧
      Chain after .root sorted ∧ Ordered (fun node => if node = 0 then 3 else 1) sorted ∧
      sorted ~ [0, 1] ∧ sorted.Nodup := by
  have chain : Chain ListQuickSort.twoNodes .root [0, 1] := ⟨rfl, rfl, rfl⟩
  exact ⟨chain, insertionSorts_sort _ chain (List.cons_ne_nil _ _) (by decide)⟩

end ListInsertionSort

end StdPrograms.Hobbies

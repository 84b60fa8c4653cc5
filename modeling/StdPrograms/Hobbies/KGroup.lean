import StdPrograms.Foundation.LinkedList
import StdPrograms.Foundation.SignedInt

/-!
Contract: two reversals of the blocks of a linked list.

Owns `reverseKGroup` and `reverseKGroup2` of `solution_25.cpp`, that both leave each complete block
of the list turned round, and when the `int` counters of the second are too small.

Does not own the memory for the nodes of a group.
-/

namespace StdPrograms.Hobbies

open StdPrograms.Foundation StdPrograms.Foundation.Links

namespace KGroup

variable {α : Type}

section Code

variable [DecidableEq α]

/-- The loop that fills `group`: the entries it has stored, and `node`. -/
def fillGroup (links : Links α) : Nat → List α → Option α → List α × Option α
  | 0, group, node => (group, node)
  | _ + 1, group, none => (group, none)
  | rounds + 1, group, some node => fillGroup links rounds (group ++ [node]) (links (.next node))

/-- The loop over `j`, downwards. -/
def relinkGroup (group : List α) : Nat → Links α → Option (Links α)
  | 0, links => some links
  | j + 1, links => do
      let node ← group[j + 1]?
      let before ← group[j]?
      relinkGroup group j (links.set (.next node) (some before))

/-- The loop of `reverseKGroup`; `prev` is the place that it points to. -/
def groupLoop (k : Nat) : Nat → Links α → Slot α → Option α → Option (Links α)
  | 0, _, _, _ => none
  | _ + 1, links, _, none => some links
  | fuel + 1, links, prev, some node =>
      let (group, behind) := fillGroup links k [] (some node)
      if group.length < k then groupLoop k fuel links prev behind
      else do
        let first ← group[0]?
        let last ← group[k - 1]?
        let links := links.set (.next first) (links (.next last))
        let links := links.set prev (some last)
        let node := links (.next first)
        let links ← relinkGroup group (k - 1) links
        groupLoop k fuel links (.next first) node

/-- The node that is returned, and the links. The parameter `head` is one of them. -/
def reverseKGroup (fuel : Nat) (links : Links α) (k : Int) : Option (Option α × Links α) :=
  if k ≤ 0 then some (links .root, links)
  else do
    let links ← groupLoop k.toNat fuel links .root (links .root)
    return (links .root, links)

/-- The loop that counts the nodes. -/
def countNodes (links : Links α) : Nat → Option α → Nat → Option Nat
  | 0, _, _ => none
  | _ + 1, none, length => some length
  | fuel + 1, some node, length => do
      let length ← position 32 (length + 1)
      countNodes links fuel (links (.next node)) length

/-- The loop over `i`: `prev`, `node` and the links. -/
def turnGroup : Nat → Links α → α → Option α → Option (α × Option α × Links α)
  | 0, links, prev, node => some (prev, node, links)
  | rounds + 1, links, prev, node => do
      let here ← node
      let next := links (.next here)
      turnGroup rounds (links.set (.next here) (some prev)) here next

/-- The loop of `reverseKGroup2` over `pos`. -/
def groupLoop2 (k length : Nat) : Nat → Links α → Slot α → Option α → Nat → Option (Links α)
  | 0, _, _, _, _ => none
  | fuel + 1, links, last, node, pos => do
      let next ← position 32 (pos + k)
      if next ≤ length then
        let current ← node
        let (prev, node, links) ← turnGroup (k - 1) links current (links (.next current))
        let links := links.set (.next current) node
        let links := links.set last (some prev)
        groupLoop2 k length fuel links (.next current) node next
      else return links

def reverseKGroup2 (fuel : Nat) (links : Links α) (k : Int) : Option (Option α × Links α) :=
  if k ≤ 1 then some (links .root, links)
  else do
    let length ← countNodes links fuel (links .root) 0
    let links ← groupLoop2 k.toNat length fuel links .root (links .root) 0
    return (links .root, links)

end Code

/-! ### Blocks -/

/-- Each complete block of `k` elements is turned round. -/
def reverseBlocks (k : Nat) (nodes : List α) : List α :=
  if 0 < k ∧ k ≤ nodes.length then (nodes.take k).reverse ++ reverseBlocks k (nodes.drop k)
  else nodes
termination_by nodes.length
decreasing_by rw [List.length_drop]; omega

theorem reverseBlocks_of_lt {k : Nat} {nodes : List α} (incomplete : nodes.length < k) :
    reverseBlocks k nodes = nodes := by
  rw [reverseBlocks, if_neg (by omega)]

theorem reverseBlocks_zero (nodes : List α) : reverseBlocks 0 nodes = nodes := by
  rw [reverseBlocks, if_neg (by omega)]

theorem reverseBlocks_append {k : Nat} (positive : 0 < k) {block : List α}
    (complete : block.length = k) (behind : List α) :
    reverseBlocks k (block ++ behind) = block.reverse ++ reverseBlocks k behind := by
  rw [reverseBlocks, if_pos ⟨positive, by rw [List.length_append]; omega⟩,
    List.take_left' complete, List.drop_left' complete]

theorem reverseBlocks_one (nodes : List α) : reverseBlocks 1 nodes = nodes := by
  induction nodes with
  | nil => exact reverseBlocks_of_lt Nat.one_pos
  | cons node rest inductionHypothesis =>
      rw [← List.singleton_append, reverseBlocks_append Nat.one_pos rfl, inductionHypothesis]
      rfl

theorem exists_block {k : Nat} (positive : 0 < k) {nodes : List α} (complete : k ≤ nodes.length) :
    ∃ first block behind, nodes = first :: (block ++ behind) ∧ (first :: block).length = k := by
  obtain ⟨first, block, blockIs⟩ := List.exists_cons_of_ne_nil
    (List.ne_nil_of_length_pos (Nat.lt_of_lt_of_le positive (List.length_take_of_le complete).ge))
  refine ⟨first, block, nodes.drop k, ?_, ?_⟩
  · rw [← List.cons_append, ← blockIs, List.take_append_drop]
  · rw [← blockIs, List.length_take_of_le complete]

/-! ### One block -/

section

variable {links between after : Links α} {slot : Slot α} {first : α} {block behind : List α}

/-- A block at `slot` is turned round, and nothing else is written to. -/
structure Turned (links after : Links α) (slot : Slot α) (first : α) (block behind : List α) :
    Prop where
  chain : Chain after slot ((first :: block).reverse ++ behind)
  confined : Confined links after slot (first :: (block ++ behind))

theorem turned_of_backwards (chain : Chain links slot (first :: (block ++ behind)))
    (backwards : (first :: block).IsChain fun left right => after (.next right) = some left)
    (begins : after slot = (first :: block).getLast?)
    (ends : after (.next first) = behind.head?)
    (frame : ∀ place ∉ slots slot (first :: block), after place = links place) :
    Turned links after slot first block behind := by
  have distinct := chain.nodup_slots
  constructor
  · refine chain.reverse_block backwards begins ends fun node inBehind => frame _ fun inside => ?_
    rw [← List.cons_append, slots, List.map_append, ← List.cons_append,
      List.nodup_append'] at distinct
    exact distinct.2.2 inside (List.mem_map_of_mem inBehind)
  · intro place outside
    refine frame place fun inside => outside ?_
    rw [← List.cons_append, slots, List.map_append, ← List.cons_append]
    exact List.mem_append_left _ inside

theorem last_reverse (slot : Slot α) (first : α) (block : List α) :
    last slot (first :: block).reverse = .next first := by
  rw [last_eq, List.getLast?_reverse]
  rfl

theorem Turned.toBehind (turned : Turned links after slot first block behind) :
    Chain after (.next first) behind := by
  have parts := (chain_append _ _).mp turned.chain
  rw [last_reverse] at parts
  exact parts.2

/-- The list behind the block is dealt with afterwards. -/
theorem Turned.whole (turned : Turned links between slot first block behind) {new : List α}
    (chain : Chain after (.next first) new)
    (confined : Confined between after (.next first) behind) :
    Chain after slot ((first :: block).reverse ++ new) ∧
      Confined links after slot (first :: (block ++ behind)) := by
  rw [← last_reverse slot first block] at chain confined
  refine ⟨turned.chain.splice confined chain, turned.confined.trans (confined.append.perm ?_)⟩
  exact (List.reverse_perm (first :: block)).append_right behind

end

variable [DecidableEq α]

/-! ### `reverseKGroup` -/

omit [DecidableEq α] in
theorem fillGroup_eq {links : Links α} {slot : Slot α} {nodes : List α}
    (chain : Chain links slot nodes) (rounds : Nat) (group : List α) :
    fillGroup links rounds group nodes.head? =
      (group ++ nodes.take rounds, (nodes.drop rounds).head?) := by
  induction rounds generalizing slot nodes group with
  | zero => rw [List.take_zero, List.append_nil, List.drop_zero]; rfl
  | succ rounds inductionHypothesis =>
      cases nodes with
      | nil => rw [List.take_nil, List.append_nil]; rfl
      | cons node rest =>
          have next := chain.2.head?_eq
          rw [List.head?_cons, fillGroup, next, inductionHypothesis chain.2, List.append_assoc]
          rfl

/-- The entries up to `j` are linked to the ones before them. -/
theorem relinkGroup_spec {group : List α} (distinct : group.Nodup) {j : Nat}
    (inside : j < group.length) (links : Links α) :
    ∃ after, relinkGroup group j links = some after ∧
      (∀ i < j, ∀ left right, group[i]? = some left → group[i + 1]? = some right →
        after (.next right) = some left) ∧
      ∀ place, (∀ i < j, ∀ right, group[i + 1]? = some right → place ≠ .next right) →
        after place = links place := by
  induction j generalizing links with
  | zero => exact ⟨links, rfl, fun i below => absurd below (Nat.not_lt_zero i), fun _ _ => rfl⟩
  | succ j inductionHypothesis =>
      have nodeIs := List.getElem?_eq_getElem inside
      have beforeIs := List.getElem?_eq_getElem (Nat.lt_of_succ_lt inside)
      generalize group[j + 1] = node at nodeIs
      generalize group[j] = before at beforeIs
      obtain ⟨after, returned, linked, frame⟩ := inductionHypothesis (Nat.lt_of_succ_lt inside)
        (links.set (.next node) (some before))
      refine ⟨after, ?_, fun i below left right leftIs rightIs => ?_, fun place outside => ?_⟩
      · rw [relinkGroup, nodeIs, beforeIs]
        exact returned
      · rcases Nat.lt_succ_iff_lt_or_eq.mp below with earlier | rfl
        · exact linked i earlier left right leftIs rightIs
        · obtain rfl := Option.some.inj (leftIs.symm.trans beforeIs)
          obtain rfl := Option.some.inj (rightIs.symm.trans nodeIs)
          rw [frame, set_same]
          rintro i' below' right' rightIs' same
          rw [← Slot.next.inj same, ← rightIs] at rightIs'
          have again := (List.getElem?_inj (by omega) distinct).mp rightIs'
          omega
      · rw [frame place fun i below right rightIs =>
            outside i (Nat.lt_succ_of_lt below) right rightIs,
          set_other _ _ (outside j (Nat.lt_succ_self j) node nodeIs)]

/-- What the statements behind `group` do to its nodes. -/
theorem turned_of_relinkGroup {links : Links α} {slot : Slot α} {first final : α}
    {block behind : List α} (chain : Chain links slot (first :: (block ++ behind)))
    (finalIs : (first :: block).getLast? = some final) :
    ∃ after, relinkGroup (first :: block) block.length
        ((links.set (.next first) behind.head?).set slot (some final)) = some after ∧
      Turned links after slot first block behind := by
  have distinct := chain.nodup_slots
  rw [← List.cons_append, slots, List.map_append, ← List.cons_append] at distinct
  have places := (List.nodup_append'.mp distinct).1
  obtain ⟨slotNew, nextDistinct⟩ := List.nodup_cons.mp places
  have nodes := nextDistinct.of_map
  have inside : ∀ {i : Nat} {right : α}, (first :: block)[i + 1]? = some right →
      right ∈ first :: block := fun rightIs => List.mem_of_getElem? rightIs
  have slotOther : ∀ {right : α}, right ∈ first :: block → slot ≠ .next right :=
    fun member same => slotNew (same ▸ List.mem_map_of_mem member)
  obtain ⟨after, returned, linked, frame⟩ := relinkGroup_spec nodes (Nat.lt_succ_self _)
    ((links.set (.next first) behind.head?).set slot (some final))
  refine ⟨after, returned, turned_of_backwards chain ?_ ?_ ?_ ?_⟩
  · rw [List.isChain_iff_getElem]
    intro i inside
    rw [List.length_cons] at inside
    exact linked i (by omega) _ _ (List.getElem?_eq_getElem _) (List.getElem?_eq_getElem _)
  · rw [frame slot fun i _ right rightIs => slotOther (inside rightIs), set_same, finalIs]
  · rw [frame, set_other _ _ (slotOther List.mem_cons_self).symm, set_same]
    intro i _ right rightIs same
    rw [← Slot.next.inj same] at rightIs
    exact (List.nodup_cons.mp nodes).1 (List.mem_of_getElem? rightIs)
  · intro place outside
    have other : ∀ {right : α}, right ∈ first :: block → place ≠ .next right :=
      fun member same => outside (List.mem_cons_of_mem slot (same ▸ List.mem_map_of_mem member))
    rw [frame place fun i _ right rightIs => other (inside rightIs),
      set_other _ _ (fun same => outside (List.mem_cons.mpr (Or.inl same))),
      set_other _ _ (other List.mem_cons_self)]

theorem groupLoop_spec {k : Nat} (positive : 0 < k) {fuel : Nat} {links : Links α}
    {prev : Slot α} {nodes : List α} (chain : Chain links prev nodes)
    (enough : nodes.length < fuel) :
    ∃ after, groupLoop k fuel links prev nodes.head? = some after ∧
      Chain after prev (reverseBlocks k nodes) ∧ Confined links after prev nodes := by
  induction fuel generalizing links prev nodes with
  | zero => exact absurd enough (Nat.not_lt_zero _)
  | succ fuel inductionHypothesis =>
      cases nodes with
      | nil =>
          refine ⟨links, rfl, ?_, fun _ _ => rfl⟩
          rw [reverseBlocks_of_lt positive]
          exact chain
      | cons node rest =>
          have filled := fillGroup_eq chain k []
          rw [List.nil_append] at filled
          rw [List.head?_cons] at filled ⊢
          rw [groupLoop, filled]
          dsimp only
          rw [List.length_take]
          split
          next short =>
            have incomplete : (node :: rest).length < k := by omega
            rw [List.drop_eq_nil_of_le (Nat.le_of_lt incomplete),
              reverseBlocks_of_lt incomplete]
            obtain ⟨fuel, rfl⟩ := Nat.exists_eq_add_one_of_ne_zero (Nat.ne_zero_of_lt
              (Nat.lt_of_succ_lt_succ enough))
            exact ⟨links, rfl, chain, fun _ _ => rfl⟩
          next complete =>
            obtain ⟨first, block, behind, nodesAre, size⟩ :=
              exists_block positive (show k ≤ (node :: rest).length by omega)
            obtain ⟨rfl, rfl⟩ := List.cons.inj nodesAre
            obtain ⟨final, finalIs⟩ : ∃ final, (node :: block).getLast? = some final :=
              ⟨_, List.getLast?_eq_some_getLast (List.cons_ne_nil node block)⟩
            have lastEntry : (node :: block)[k - 1]? = some final := by
              rw [← finalIs, List.getLast?_eq_getElem?, size]
            have finalNext : links (.next final) = behind.head? := by
              have parts := chain
              rw [← List.cons_append, chain_append, last_of_getLast? finalIs] at parts
              exact parts.2.head?_eq
            obtain ⟨between, returned, turned⟩ := turned_of_relinkGroup chain finalIs
            have nodeNext : ((links.set (.next node) behind.head?).set prev (some final))
                (.next node) = behind.head? := by
              have new := (List.nodup_cons.mp chain.nodup_slots).1
              have differ : Slot.next node ≠ prev := fun same => new (same ▸ List.mem_cons_self)
              rw [set_other _ _ differ, set_same]
            obtain ⟨after, later, chainAfter, confined⟩ :=
              inductionHypothesis turned.toBehind (by simp at enough; omega)
            obtain ⟨whole, confinedWhole⟩ := turned.whole chainAfter confined
            refine ⟨after, ?_, ?_, confinedWhole⟩
            · rw [← List.cons_append, List.take_left' size, lastEntry]
              simp only [List.getElem?_cons_zero, Option.bind_eq_bind, Option.bind_some, finalNext,
                nodeNext]
              rw [← Nat.eq_sub_of_add_eq size, returned]
              exact later
            · rw [← List.cons_append, reverseBlocks_append positive size]
              exact whole

theorem reverseKGroup_spec {links : Links α} {nodes : List α} (chain : Chain links .root nodes)
    (k : Int) {fuel : Nat} (enough : nodes.length < fuel) :
    ∃ after, reverseKGroup fuel links k = some (after .root, after) ∧
      Chain after .root (reverseBlocks k.toNat nodes) := by
  rw [reverseKGroup]
  split
  next atMost =>
    rw [Int.toNat_of_nonpos atMost, reverseBlocks_zero]
    exact ⟨links, rfl, chain⟩
  next positive =>
    obtain ⟨after, returned, chainAfter, -⟩ :=
      @groupLoop_spec α _ k.toNat (by omega) fuel links .root nodes chain enough
    rw [chain.head?_eq, returned]
    exact ⟨after, rfl, chainAfter⟩

/-! ### `reverseKGroup2` -/

omit [DecidableEq α] in
theorem countNodes_eq {links : Links α} {slot : Slot α} {nodes : List α}
    (chain : Chain links slot nodes) {fuel : Nat} (enough : nodes.length < fuel) {length : Nat}
    (small : length + nodes.length < 2 ^ 31) :
    countNodes links fuel nodes.head? length = some (length + nodes.length) := by
  obtain ⟨fuel, rfl⟩ := Nat.exists_eq_add_one_of_ne_zero (Nat.ne_zero_of_lt enough)
  induction nodes generalizing slot fuel length with
  | nil => rfl
  | cons node rest inductionHypothesis =>
      rw [List.length_cons] at enough small ⊢
      obtain ⟨fuel, rfl⟩ := Nat.exists_eq_add_one_of_ne_zero
        (Nat.ne_zero_of_lt (Nat.lt_of_succ_lt_succ enough))
      have next : length + 1 < 2 ^ (32 - 1) := by norm_num; omega
      rw [List.head?_cons, countNodes, position_of_lt next]
      dsimp only [Option.bind_eq_bind, Option.bind_some]
      rw [chain.2.head?_eq, inductionHypothesis chain.2 (by omega) fuel
        (Nat.lt_of_succ_lt_succ enough), Nat.add_assoc, Nat.add_comm 1]

omit [DecidableEq α] in
theorem countNodes_eq_none {links : Links α} {slot : Slot α} {nodes : List α}
    (chain : Chain links slot nodes) (fuel : Nat) {length : Nat} (small : length < 2 ^ 31)
    (large : 2 ^ 31 ≤ length + nodes.length) :
    countNodes links fuel nodes.head? length = none := by
  induction nodes generalizing slot fuel length with
  | nil => exact absurd large (Nat.not_le_of_lt small)
  | cons node rest inductionHypothesis =>
      rw [List.length_cons] at large
      cases fuel with
      | zero => rfl
      | succ fuel =>
          rw [List.head?_cons, countNodes, chain.2.head?_eq]
          by_cases next : length + 1 < 2 ^ 31
          · have fits : length + 1 < 2 ^ (32 - 1) := next
            rw [position_of_lt fits]
            exact inductionHypothesis chain.2 fuel next (by omega)
          · have overflows : 2 ^ (32 - 1) ≤ length + 1 := Nat.le_of_not_lt next
            rw [position_eq_none overflows]
            rfl

theorem turnGroup_spec {links now : Links α} {slot : Slot α} {todo behind : List α}
    (chain : Chain links slot (todo ++ behind)) {prev : α} (distinct : (prev :: todo).Nodup)
    (same : ∀ node ∈ todo, now (.next node) = links (.next node)) :
    ∃ final after, (prev :: todo).getLast? = some final ∧
      turnGroup todo.length now prev (todo ++ behind).head? = some (final, behind.head?, after) ∧
      ((prev :: todo).IsChain fun left right => after (.next right) = some left) ∧
      ∀ place ∉ todo.map Slot.next, after place = now place := by
  induction todo generalizing slot now prev with
  | nil => exact ⟨prev, now, rfl, rfl, List.isChain_singleton _, fun _ _ => rfl⟩
  | cons node todo inductionHypothesis =>
      obtain ⟨prevNew, restDistinct⟩ := List.nodup_cons.mp distinct
      have nodeNew := (List.nodup_cons.mp restDistinct).1
      have next : now (.next node) = (todo ++ behind).head? :=
        (same node List.mem_cons_self).trans chain.2.head?_eq
      obtain ⟨final, after, finalIs, returned, backwards, frame⟩ :=
        @inductionHypothesis (now.set (.next node) (some prev)) (.next node) chain.2 node
          restDistinct (fun later member => by
            have other : Slot.next later ≠ Slot.next node := fun again =>
              nodeNew (by rw [← Slot.next.inj again]; exact member)
            rw [set_other _ _ other]
            exact same later (List.mem_cons_of_mem node member))
      refine ⟨final, after, ?_, ?_, ?_, ?_⟩
      · rw [List.getLast?_cons_cons]
        exact finalIs
      · rw [List.cons_append, List.head?_cons, List.length_cons, turnGroup]
        dsimp only [Option.bind_eq_bind, Option.bind_some]
        rw [next]
        exact returned
      · refine List.isChain_cons_cons.mpr ⟨?_, backwards⟩
        rw [frame, set_same]
        intro again
        obtain ⟨other, member, is_⟩ := List.mem_map.mp again
        exact nodeNew (Slot.next.inj is_ ▸ member)
      · intro place outside
        rw [List.map_cons, List.mem_cons, not_or] at outside
        rw [frame place outside.2, set_other _ _ outside.1]

/-- What the body of the loop over `pos` does to the nodes of a block. -/
theorem turned_of_turnGroup {links : Links α} {slot : Slot α} {first : α} {block behind : List α}
    (chain : Chain links slot (first :: (block ++ behind))) :
    ∃ final after, turnGroup block.length links first (links (.next first)) =
        some (final, behind.head?, after) ∧
      Turned links ((after.set (.next first) behind.head?).set slot (some final)) slot first block
        behind := by
  have distinct := chain.nodup_slots
  rw [← List.cons_append, slots, List.map_append, ← List.cons_append] at distinct
  obtain ⟨slotNew, nextDistinct⟩ := List.nodup_cons.mp (List.nodup_append'.mp distinct).1
  have nodes := nextDistinct.of_map
  have firstNew : Slot.next first ∉ block.map Slot.next := (List.nodup_cons.mp nextDistinct).1
  rw [List.map_cons, List.mem_cons, not_or] at slotNew
  obtain ⟨final, after, finalIs, returned, backwards, frame⟩ :=
    turnGroup_spec chain.2 nodes fun _ _ => rfl
  rw [← chain.2.head?_eq] at returned
  refine ⟨final, after, returned, turned_of_backwards chain ?_ ?_ ?_ ?_⟩
  · refine backwards.imp_of_mem_tail_imp fun left right _ inBlock linked => ?_
    have place : Slot.next right ∈ block.map Slot.next := List.mem_map_of_mem inBlock
    rw [set_other _ _ (fun same => slotNew.2 (by rw [← same]; exact place)),
      set_other _ _ (fun same => firstNew (by rw [← same]; exact place))]
    exact linked
  · rw [set_same, finalIs]
  · rw [set_other _ _ (Ne.symm slotNew.1), set_same]
  · intro place outside
    rw [slots, List.map_cons, List.mem_cons, List.mem_cons, not_or, not_or] at outside
    rw [set_other _ _ outside.1, set_other _ _ outside.2.1, frame place outside.2.2]

/-- The least multiple of `k` above the number of nodes has to be of the type. -/
theorem groupLoop2_spec {k length : Nat} (two : 2 ≤ k) {fuel : Nat} {links : Links α}
    {last : Slot α} {nodes : List α} (chain : Chain links last nodes) {pos : Nat}
    (sum : pos + nodes.length = length) (enough : nodes.length < fuel) :
    (pos + (nodes.length / k + 1) * k < 2 ^ 31 →
      ∃ after, groupLoop2 k length fuel links last nodes.head? pos = some after ∧
        Chain after last (reverseBlocks k nodes) ∧ Confined links after last nodes) ∧
      (2 ^ 31 ≤ pos + (nodes.length / k + 1) * k →
        groupLoop2 k length fuel links last nodes.head? pos = none) := by
  induction fuel generalizing links last nodes pos with
  | zero => exact absurd enough (Nat.not_lt_zero _)
  | succ fuel inductionHypothesis =>
      rw [groupLoop2]
      by_cases next : pos + k < 2 ^ 31
      · have fits : pos + k < 2 ^ (32 - 1) := next
        rw [position_of_lt fits]
        dsimp only [Option.bind_eq_bind, Option.bind_some]
        split
        next complete =>
          have atLeast : k ≤ nodes.length := by omega
          obtain ⟨first, block, behind, rfl, size⟩ := exists_block (by omega : 0 < k) atLeast
          obtain ⟨final, turnedLinks, returned, turned⟩ := turned_of_turnGroup chain
          rw [Nat.eq_sub_of_add_eq size] at returned
          have whole : (first :: (block ++ behind)).length = behind.length + k := by
            rw [← List.cons_append, List.length_append, size, Nat.add_comm]
          rw [whole] at sum enough ⊢
          have multiple : pos + ((behind.length + k) / k + 1) * k =
              pos + k + (behind.length / k + 1) * k := by
            rw [Nat.add_div_right _ (by omega : 0 < k), Nat.add_mul _ 1 k]
            omega
          rw [multiple]
          obtain ⟨finishes, overflows⟩ :=
            @inductionHypothesis _ _ behind turned.toBehind (pos + k) (by omega) (by omega)
          rw [List.head?_cons]
          dsimp only [Option.bind_some]
          rw [returned]
          refine ⟨fun small => ?_, overflows⟩
          obtain ⟨after, finished, chainAfter, confined⟩ := finishes small
          obtain ⟨chainWhole, confinedWhole⟩ := turned.whole chainAfter confined
          refine ⟨after, finished, ?_, confinedWhole⟩
          rw [← List.cons_append, reverseBlocks_append (by omega) size]
          exact chainWhole
        next incomplete =>
          have few : nodes.length < k := by omega
          rw [Nat.div_eq_of_lt few, Nat.zero_add, Nat.one_mul]
          refine ⟨fun _ => ⟨links, rfl, ?_, fun _ _ => rfl⟩, fun large => ?_⟩
          · rw [reverseBlocks_of_lt few]
            exact chain
          · omega
      · have overflows : 2 ^ (32 - 1) ≤ pos + k := Nat.le_of_not_lt next
        rw [position_eq_none overflows]
        refine ⟨fun small => ?_, fun _ => rfl⟩
        rw [Nat.add_mul, Nat.one_mul] at small
        omega

/-- Whether the counters of `reverseKGroup2` are of the type. -/
def Countable (k : Int) (length : Nat) : Prop :=
  k ≤ 1 ∨ (length / k.toNat + 1) * k.toNat < 2 ^ 31

theorem reverseKGroup2_spec {links : Links α} {nodes : List α} (chain : Chain links .root nodes)
    (k : Int) {fuel : Nat} (enough : nodes.length < fuel) :
    (Countable k nodes.length → ∃ after, reverseKGroup2 fuel links k = some (after .root, after) ∧
        Chain after .root (reverseBlocks k.toNat nodes)) ∧
      (¬Countable k nodes.length → reverseKGroup2 fuel links k = none) := by
  rw [reverseKGroup2]
  split
  next atMost =>
    refine ⟨fun _ => ⟨links, rfl, ?_⟩, fun uncountable => absurd (Or.inl atMost) uncountable⟩
    obtain zero | one : k.toNat = 0 ∨ k.toNat = 1 := by omega
    · rw [zero, reverseBlocks_zero]
      exact chain
    · rw [one, reverseBlocks_one]
      exact chain
  next large =>
    have two : 2 ≤ k.toNat := by omega
    have above : nodes.length < (nodes.length / k.toNat + 1) * k.toNat :=
      Nat.lt_mul_of_div_lt (Nat.lt_succ_self _) (by omega)
    rw [chain.head?_eq]
    constructor
    · intro countable
      have small := countable.resolve_left large
      obtain ⟨after, returned, chainAfter, -⟩ :=
        (groupLoop2_spec two chain (Nat.zero_add nodes.length) enough).1 (by omega)
      rw [countNodes_eq chain enough (by omega), Nat.zero_add]
      dsimp only [Option.bind_eq_bind, Option.bind_some]
      rw [returned]
      exact ⟨after, rfl, chainAfter⟩
    · intro uncountable
      have tooLarge : 2 ^ 31 ≤ (nodes.length / k.toNat + 1) * k.toNat :=
        Nat.le_of_not_lt fun small => uncountable (Or.inr small)
      by_cases counted : nodes.length < 2 ^ 31
      · have overflows :=
          (groupLoop2_spec two chain (Nat.zero_add nodes.length) enough).2 (by omega)
        rw [countNodes_eq chain enough (by omega), Nat.zero_add]
        dsimp only [Option.bind_eq_bind, Option.bind_some]
        rw [overflows]
        rfl
      · rw [countNodes_eq_none chain fuel (by decide) (by omega)]
        rfl

/-- Both leave the blocks turned round; the second one only where its counters are of the type,
and else they overflow. -/
theorem reverseKGroups_agree {links : Links α} {nodes : List α} (chain : Chain links .root nodes)
    (k : Int) {fuel : Nat} (enough : nodes.length < fuel) :
    (∃ after, reverseKGroup fuel links k = some (after .root, after) ∧
      Chain after .root (reverseBlocks k.toNat nodes)) ∧
    (Countable k nodes.length → ∃ after, reverseKGroup2 fuel links k = some (after .root, after) ∧
      Chain after .root (reverseBlocks k.toNat nodes)) ∧
    (¬Countable k nodes.length → reverseKGroup2 fuel links k = none) :=
  ⟨reverseKGroup_spec chain k enough, reverseKGroup2_spec chain k enough⟩

/-- So many nodes in a row. -/
def row (size : Nat) : Links Nat
  | .root => if 0 < size then some 0 else none
  | .next node => if node + 1 < size then some (node + 1) else none

theorem chain_row (size : Nat) : Chain (row size) .root (List.range size) := by
  have behind : ∀ count start slot, start + count = size →
      row size slot = (if start < size then some start else none) →
      Chain (row size) slot (List.range' start count) := by
    intro count
    induction count with
    | zero =>
        intro start slot all slotIs
        rw [if_neg (by omega)] at slotIs
        exact slotIs
    | succ count inductionHypothesis =>
        intro start slot all slotIs
        rw [if_pos (by omega)] at slotIs
        exact ⟨slotIs, inductionHypothesis (start + 1) (.next start) (by omega) rfl⟩
  rw [List.range_eq_range']
  exact behind size 0 .root (Nat.zero_add size) rfl

theorem reverseKGroups_agree_five :
    Chain (row 5) .root (List.range 5) ∧
    (∃ after, reverseKGroup 6 (row 5) 2 = some (after .root, after) ∧
      Chain after .root (reverseBlocks 2 (List.range 5))) ∧
    (Countable 2 5 → ∃ after, reverseKGroup2 6 (row 5) 2 = some (after .root, after) ∧
      Chain after .root (reverseBlocks 2 (List.range 5))) ∧
    (¬Countable 2 5 → reverseKGroup2 6 (row 5) 2 = none) :=
  ⟨chain_row 5, reverseKGroups_agree (chain_row 5) 2 (by decide)⟩

/-- As many nodes as half of the type's numbers that are not negative. -/
@[irreducible] def many : Nat := 2 ^ 30

theorem uncountable_many : ¬Countable many many := by
  unfold many
  rintro (one | small)
  · exact absurd one (by decide)
  · exact absurd small (by decide)

/-- The sum of the position and the size of a group overflows. -/
theorem reverseKGroups_disagree :
    Chain (row many) .root (List.range many) ∧
      ∀ fuel > many, reverseKGroup2 fuel (row many) many = none := by
  refine ⟨chain_row many, fun fuel enough => ?_⟩
  have spec := @reverseKGroup2_spec Nat _ (row many) (List.range many) (chain_row many) many fuel
  rw [List.length_range] at spec
  exact (spec enough).2 uncountable_many

end KGroup

end StdPrograms.Hobbies

import StdPrograms.Foundation.SignedInt
import StdPrograms.Hobbies.ListQuickSort

/-!
Contract: merging linked lists in order.

Owns the two `mergeTwoLists` of `solution_21.cpp`, the first of which `solution_23.cpp` repeats, and
both `mergeKLists`, with the nodes that a merge links and all others, which it leaves alone.

The place `root` is the link in the local node `dummy`: each merge has one of its own. The number of
the lists becomes an `int`; the behavior of an array that is shorter than its `size` is not defined.
-/

namespace StdPrograms.Hobbies

open scoped List
open StdPrograms.Foundation StdPrograms.Foundation.Links

namespace MergeLists

open ListQuickSort (Ordered)

variable {α : Type} (val : α → Int)

section Code

variable [DecidableEq α]

/-- The loop of `mergeTwoLists`, and the statement behind it. -/
def mergeLoop : Nat → Links α → Slot α → Option α → Option α → Option (Links α)
  | 0, _, _, _, _ => none
  | fuel + 1, links, tail, some l1, some l2 =>
      if val l1 < val l2 then
        let links := links.set tail (some l1)
        mergeLoop fuel links (.next l1) (links (.next l1)) (some l2)
      else
        let links := links.set tail (some l2)
        mergeLoop fuel links (.next l2) (some l1) (links (.next l2))
  | _ + 1, links, tail, l1, l2 => some (links.set tail (if l1.isSome then l1 else l2))

/-- The node that is returned, and the links. -/
def mergeTwoLists (fuel : Nat) (links : Links α) (l1 l2 : Option α) :
    Option (Option α × Links α) := do
  let links ← mergeLoop val fuel links .root l1 l2
  return (links .root, links)

/-- The loop of `mergeTwoLists2`: `tmp` points to one of the two variables. -/
def mergeLoop2 : Nat → Links α → Slot α → Option α → Option α → Option (Links α)
  | 0, _, _, _, _ => none
  | fuel + 1, links, tail, some l1, some l2 =>
      let first := decide (val l1 < val l2)
      let node := if first then l1 else l2
      let links := links.set tail (some node)
      let next := links (.next node)
      if first then mergeLoop2 fuel links (.next node) next (some l2)
      else mergeLoop2 fuel links (.next node) (some l1) next
  | _ + 1, links, tail, l1, l2 => some (links.set tail (if l1.isSome then l1 else l2))

def mergeTwoLists2 (fuel : Nat) (links : Links α) (l1 l2 : Option α) :
    Option (Option α × Links α) := do
  let links ← mergeLoop2 val fuel links .root l1 l2
  return (links .root, links)

/-- `mergeKLists` on a part of an array. There is no result where it reads behind the array. -/
def mergeParts (fuel : Nat) (links : Links α) (beg : List (Option α)) (size : Int) :
    Option (Option α × Links α) :=
  if _short : size < 2 then beg.head?.map fun list => (list, links)
  else if size = 2 then do
    let l1 ← beg[0]?
    let l2 ← beg[1]?
    mergeTwoLists val fuel links l1 l2
  else do
    let median := size / 2
    let (first, links) ← mergeParts fuel links beg median
    let (second, links) ← mergeParts fuel links (beg.drop median.toNat) (size - median)
    mergeTwoLists val fuel links first second
termination_by size.toNat

def mergeKLists (fuel : Nat) (links : Links α) (lists : List (Option α)) :
    Option (Option α × Links α) :=
  if lists.isEmpty then some (none, links)
  else mergeParts val fuel links lists (converted 32 lists.length)

end Code

/-! ### The order of the nodes -/

/-- The nodes of two lists as a merge puts them: among equals, those of the second list come
first. -/
def merged (left right : List α) : List α := right.merge left fun r l => decide (val r ≤ val l)

/-- A call returns a list of the nodes in order, and only their links and `root` are written to. -/
def Merges (links : Links α) (nodes : List α)
    (result : Option (Option α × Links α)) : Prop :=
  ∃ first after all, result = some (first, after) ∧ Leads after first all ∧ Ordered val all ∧
    all ~ nodes ∧ Confined links after .root nodes

variable {val}

theorem merged_nil_left (right : List α) : merged val [] right = right := List.merge_right _

theorem merged_nil_right (left : List α) : merged val left [] = left := List.nil_merge _

theorem merged_cons (l r : α) (left right : List α) :
    merged val (l :: left) (r :: right) =
      if val l < val r then l :: merged val left (r :: right)
      else r :: merged val (l :: left) right := by
  rw [merged, List.cons_merge_cons]
  by_cases less : val l < val r
  · rw [if_pos less, if_neg (by simpa using less)]
    rfl
  · rw [if_neg less, if_pos (by simpa using less)]
    rfl

theorem merged_perm (left right : List α) : merged val left right ~ left ++ right :=
  (List.merge_perm_append _).trans List.perm_append_comm

theorem merged_ordered {left right : List α} (leftOrdered : Ordered val left)
    (rightOrdered : Ordered val right) : Ordered val (merged val left right) := by
  have sorted := @List.pairwise_merge α fun r l => decide (val r ≤ val l)
  simp only [decide_eq_true_eq, Bool.or_eq_true] at sorted
  exact sorted (fun _ _ _ => le_trans) (fun r l => le_total (val r) (val l)) _ _
    rightOrdered leftOrdered

theorem leads_of_confined {links after : Links α} {start : Option α} {nodes others : List α}
    (leads : Leads links start nodes) (confined : Confined links after .root others)
    (apart : nodes.Disjoint others) : Leads after start nodes := by
  apply leads.frame
  intro node member
  apply confined
  simpa [slots] using apart member

theorem forall_leads_of_confined {links after : Links α} {lists : List (Option α)}
    {nodes : List (List α)} {others : List α} (leads : List.Forall₂ (Leads links) lists nodes)
    (confined : Confined links after .root others) (apart : nodes.flatten.Disjoint others) :
    List.Forall₂ (Leads after) lists nodes := by
  induction leads with
  | nil => exact .nil
  | cons first _ inductionHypothesis =>
      rw [List.flatten_cons, List.disjoint_append_left] at apart
      exact .cons (leads_of_confined first confined apart.1) (inductionHypothesis apart.2)

variable [DecidableEq α]

/-! ### Two lists -/

theorem mergeLoop2_eq_mergeLoop (fuel : Nat) (links : Links α) (tail : Slot α) (l1 l2 : Option α) :
    mergeLoop2 val fuel links tail l1 l2 = mergeLoop val fuel links tail l1 l2 := by
  induction fuel generalizing links tail l1 l2 with
  | zero => rfl
  | succ fuel inductionHypothesis =>
      cases l1 with
      | none => rfl
      | some l1 =>
          cases l2 with
          | none => rfl
          | some l2 =>
              by_cases less : val l1 < val l2 <;>
                simp [mergeLoop2, mergeLoop, less, inductionHypothesis]

theorem mergeTwoLists2_eq_mergeTwoLists (fuel : Nat) (links : Links α) (l1 l2 : Option α) :
    mergeTwoLists2 val fuel links l1 l2 = mergeTwoLists val fuel links l1 l2 := by
  unfold mergeTwoLists2 mergeTwoLists
  rw [mergeLoop2_eq_mergeLoop]

/-- What the statement behind the loop does: one of the lists is left. -/
theorem rest_spec {links : Links α} {tail : Slot α} {start : Option α} {nodes : List α}
    (leads : Leads links start nodes) (distinct : (slots tail nodes).Nodup) :
    Chain (links.set tail start) tail nodes ∧ Confined links (links.set tail start) tail nodes := by
  constructor
  · rw [chain_iff_leads, set_same]
    exact leads.set (List.nodup_cons.mp distinct).1 start
  · intro place outside
    exact set_other _ _ fun same => outside (same ▸ List.mem_cons_self)

/-- What one round does: a node is put behind the tail, and becomes the tail. -/
theorem round_spec {links after : Links α} {tail : Slot α} {node : α} {chained rest : List α}
    (distinct : (slots tail (node :: rest)).Nodup)
    (chain : Chain after (.next node) chained)
    (confined : Confined (links.set tail (some node)) after (.next node) rest) :
    Chain after tail (node :: chained) ∧ Confined links after tail (node :: rest) := by
  constructor
  · refine ⟨?_, chain⟩
    rw [confined tail (List.nodup_cons.mp distinct).1, set_same]
  · intro place outside
    rw [slots, List.mem_cons, not_or] at outside
    rw [confined place outside.2, set_other _ _ outside.1]

/-- The loop links the nodes of both lists in order behind the tail, and does not touch any other
place. -/
theorem mergeLoop_spec {fuel : Nat} {links : Links α} {tail : Slot α} {l1 l2 : Option α}
    {left right : List α} (leadsLeft : Leads links l1 left) (leadsRight : Leads links l2 right)
    (distinct : (slots tail (left ++ right)).Nodup)
    (enough : left.length + right.length < fuel) :
    ∃ after, mergeLoop val fuel links tail l1 l2 = some after ∧
      Chain after tail (merged val left right) ∧ Confined links after tail (left ++ right) := by
  induction fuel generalizing links tail l1 l2 left right with
  | zero => exact absurd enough (Nat.not_lt_zero _)
  | succ fuel inductionHypothesis =>
      cases left with
      | nil =>
          obtain rfl : l1 = none := leadsLeft
          rw [merged_nil_left]
          exact ⟨_, rfl, rest_spec leadsRight distinct⟩
      | cons l left =>
          obtain rfl : l1 = some l := leadsLeft.1
          cases right with
          | nil =>
              obtain rfl : l2 = none := leadsRight
              rw [List.append_nil] at distinct
              rw [merged_nil_right, List.append_nil]
              exact ⟨_, rfl, rest_spec leadsLeft distinct⟩
          | cons r right =>
              obtain rfl : l2 = some r := leadsRight.1
              have outside := (List.nodup_cons.mp distinct).1
              simp only [List.map_append, List.map_cons, List.mem_append, List.mem_cons,
                not_or] at outside
              obtain ⟨⟨notL, notLeft⟩, notR, notRight⟩ := outside
              simp only [List.length_cons] at enough
              rw [merged_cons, mergeLoop]
              by_cases less : val l < val r
              · rw [if_pos less, if_pos less]
                have behind : Leads (links.set tail (some l)) (links.set tail (some l) (.next l))
                    left := by
                  rw [set_other _ _ (Ne.symm notL)]
                  exact leadsLeft.2.set notLeft _
                have other : Leads (links.set tail (some l)) (some r) (r :: right) :=
                  leadsRight.set (by simp [notR, notRight]) _
                obtain ⟨after, runs, chain, confined⟩ := inductionHypothesis behind other
                  (List.nodup_cons.mp distinct).2 (by simp only [List.length_cons]; omega)
                exact ⟨after, runs, round_spec distinct chain confined⟩
              · rw [if_neg less, if_neg less]
                have order : l :: left ++ r :: right ~ r :: (l :: left ++ right) :=
                  List.perm_middle
                have distinct' := ((order.map Slot.next).cons tail).nodup distinct
                have behind : Leads (links.set tail (some r)) (links.set tail (some r) (.next r))
                    right := by
                  rw [set_other _ _ (Ne.symm notR)]
                  exact leadsRight.2.set notRight _
                have other : Leads (links.set tail (some r)) (some l) (l :: left) :=
                  leadsLeft.set (by simp [notL, notLeft]) _
                obtain ⟨after, runs, chain, confined⟩ := inductionHypothesis other behind
                  (List.nodup_cons.mp distinct').2 (by simp only [List.length_cons]; omega)
                have added := round_spec distinct' chain confined
                exact ⟨after, runs, added.1, added.2.perm order.symm⟩

/-- Two lists without a common node become one with the nodes of both. -/
theorem mergeTwoLists_spec {fuel : Nat} {links : Links α} {l1 l2 : Option α} {left right : List α}
    (leadsLeft : Leads links l1 left) (leadsRight : Leads links l2 right)
    (distinct : (left ++ right).Nodup) (enough : (left ++ right).length < fuel) :
    ∃ first after, mergeTwoLists val fuel links l1 l2 = some (first, after) ∧
      Leads after first (merged val left right) ∧ Confined links after .root (left ++ right) := by
  have places : (slots .root (left ++ right)).Nodup := by
    refine List.nodup_cons.mpr ⟨by simp, distinct.map ?_⟩
    exact fun _ _ => Slot.next.inj
  rw [List.length_append] at enough
  obtain ⟨after, runs, chain, confined⟩ := mergeLoop_spec leadsLeft leadsRight places enough
  exact ⟨after .root, after, by simp [mergeTwoLists, runs], chain_iff_leads.mp chain, confined⟩

theorem mergeTwoLists_merges {fuel : Nat} {links : Links α} {l1 l2 : Option α}
    {left right front back : List α} (leadsLeft : Leads links l1 left)
    (leadsRight : Leads links l2 right) (leftOrdered : Ordered val left)
    (rightOrdered : Ordered val right) (leftNodes : left ~ front) (rightNodes : right ~ back)
    (distinct : (front ++ back).Nodup) (enough : (front ++ back).length < fuel) :
    Merges val links (front ++ back) (mergeTwoLists val fuel links l1 l2) := by
  have same := leftNodes.append rightNodes
  obtain ⟨first, after, runs, leads, confined⟩ := @mergeTwoLists_spec α val _ _ _ _ _ _ _ leadsLeft
    leadsRight (same.symm.nodup distinct) (same.length_eq ▸ enough)
  exact ⟨first, after, _, runs, leads, merged_ordered leftOrdered rightOrdered,
    (merged_perm left right).trans same, confined.perm same⟩

/-! ### An array of lists -/

/-- The lists of two halves are merged. The second half is merged behind the first one. -/
theorem halves_merge {fuel : Nat} {links : Links α} {front back : List α}
    {firstHalf : Option (Option α × Links α)}
    {secondHalf : Links α → Option (Option α × Links α)}
    (distinct : (front ++ back).Nodup) (enough : (front ++ back).length < fuel)
    (firstMerges : Merges val links front firstHalf)
    (secondMerges : ∀ between, Confined links between .root front →
      Merges val between back (secondHalf between)) :
    Merges val links (front ++ back) (do
      let (first, links) ← firstHalf
      let (second, links) ← secondHalf links
      mergeTwoLists val fuel links first second) := by
  have apart := (List.nodup_append'.mp distinct).2.2
  obtain ⟨first, between, firstNodes, rfl, leadsFirst, firstOrdered, firstSame,
    firstConfined⟩ := firstMerges
  obtain ⟨second, between', secondNodes, runs, leadsSecond, secondOrdered, secondSame,
    secondConfined⟩ := secondMerges between firstConfined
  have leadsFirst' := leads_of_confined leadsFirst secondConfined
    fun node member => apart (firstSame.subset member)
  obtain ⟨result, after, all, runs', leads, ordered, same, confined⟩ :=
    @mergeTwoLists_merges α val _ fuel _ _ _ _ _ _ _ leadsFirst' leadsSecond firstOrdered
      secondOrdered firstSame secondSame distinct enough
  refine ⟨result, after, all, by simp [runs, runs'], leads, ordered, same, ?_⟩
  exact ((firstConfined.mono (List.subset_append_left _ _)).trans
    (secondConfined.mono (List.subset_append_right _ _))).trans confined

/-- One list is returned as it is. -/
theorem mergeParts_single {fuel : Nat} {links : Links α} {list : Option α} {nodes : List α}
    (behind : List (Option α)) (leads : Leads links list nodes) (ordered : Ordered val nodes) :
    Merges val links nodes (mergeParts val fuel links (list :: behind) 1) := by
  rw [mergeParts, dif_pos (by decide)]
  exact ⟨list, links, nodes, rfl, leads, ordered, .refl _, fun _ _ => rfl⟩

/-- Three lists or more: the halves, with what is behind them. -/
theorem mergeParts_halves {fuel : Nat} {links : Links α} {lists : List (Option α)}
    (behind : List (Option α)) (many : 2 < lists.length) :
    mergeParts val fuel links (lists ++ behind) lists.length = (do
      let (first, links) ← mergeParts val fuel links
        (lists.take (lists.length / 2) ++ (lists.drop (lists.length / 2) ++ behind))
        (lists.take (lists.length / 2)).length
      let (second, links) ← mergeParts val fuel links (lists.drop (lists.length / 2) ++ behind)
        (lists.drop (lists.length / 2)).length
      mergeTwoLists val fuel links first second) := by
  have front : ((lists.length : Int) / 2) = (lists.take (lists.length / 2)).length := by
    rw [List.length_take]
    omega
  have back : (lists.length : Int) - (lists.take (lists.length / 2)).length =
      (lists.drop (lists.length / 2)).length := by
    rw [List.length_take, List.length_drop]
    omega
  have cut : (lists ++ behind).drop (lists.take (lists.length / 2)).length =
      lists.drop (lists.length / 2) ++ behind := by
    rw [List.length_take, List.drop_append_of_le_length (by omega), Nat.min_eq_left (by omega)]
  rw [mergeParts, dif_neg (by omega), if_neg (by omega)]
  simp only [front, back, Int.toNat_natCast, cut]
  rw [← List.append_assoc, List.take_append_drop]

/-- Where no node belongs to two of the lists; `behind` are the lists behind the part. -/
theorem mergeParts_merges {fuel : Nat} {links : Links α} {lists : List (Option α)}
    (behind : List (Option α)) {nodes : List (List α)} (present : lists ≠ [])
    (leads : List.Forall₂ (Leads links) lists nodes) (distinct : nodes.flatten.Nodup)
    (ordered : ∀ list ∈ nodes, Ordered val list) (enough : nodes.flatten.length < fuel) :
    Merges val links nodes.flatten (mergeParts val fuel links (lists ++ behind) lists.length) := by
  induction size : lists.length using Nat.strong_induction_on
    generalizing links lists behind nodes with
  | _ size inductionHypothesis =>
      subst size
      by_cases many : 2 < lists.length
      · rw [mergeParts_halves behind many]
        have split := congrArg List.flatten (List.take_append_drop (lists.length / 2) nodes)
        rw [List.flatten_append] at split
        have long := enough
        rw [← split] at distinct long ⊢
        obtain ⟨firstDistinct, secondDistinct, apart⟩ := List.nodup_append'.mp distinct
        have parts := long
        rw [List.length_append] at parts
        refine @halves_merge α val _ fuel links _ _ _
          (fun links => mergeParts val fuel links (lists.drop (lists.length / 2) ++ behind)
            (lists.drop (lists.length / 2)).length)
          distinct long ?_ fun between confined => ?_
        · refine inductionHypothesis _ ?_ _ ?_ (List.forall₂_take _ leads) firstDistinct ?_
            (by omega) rfl
          · rw [List.length_take]
            omega
          · rw [ne_eq, List.take_eq_nil_iff, not_or]
            exact ⟨by omega, present⟩
          · exact fun list member => ordered list (List.mem_of_mem_take member)
        · refine inductionHypothesis _ ?_ _ ?_ (forall_leads_of_confined
            (List.forall₂_drop _ leads) confined (List.disjoint_comm.mp apart)) secondDistinct ?_
            (by omega) rfl
          · rw [List.length_drop]
            omega
          · rw [ne_eq, List.drop_eq_nil_iff]
            omega
          · exact fun list member => ordered list (List.mem_of_mem_drop member)
      · cases leads with
        | nil => exact absurd rfl present
        | @cons _ first _ _ leadsFirst others =>
            cases others with
            | nil =>
                rw [List.flatten_cons, List.flatten_nil, List.append_nil]
                exact mergeParts_single behind leadsFirst (ordered first (by simp))
            | @cons _ second lists _ leadsSecond others =>
                simp only [List.length_cons] at many
                obtain rfl : lists = [] := List.length_eq_zero_iff.mp (by omega)
                cases others
                simp only [List.flatten_cons, List.flatten_nil, List.append_nil]
                  at distinct enough ⊢
                rw [mergeParts, dif_neg (by simp), if_pos (by simp)]
                exact mergeTwoLists_merges leadsFirst leadsSecond (ordered first (by simp))
                  (ordered second (by simp)) (.refl _) (.refl _) distinct enough

/-- What `mergeKLists` returns for lists in order that have no node in common, and are fewer than
an `int` counts: all their nodes in order, in one list. Nothing but their links and `root` is
written to. -/
theorem mergeKLists_merges {fuel : Nat} {links : Links α} {lists : List (Option α)}
    {nodes : List (List α)} (few : lists.length < 2 ^ 31)
    (leads : List.Forall₂ (Leads links) lists nodes)
    (distinct : nodes.flatten.Nodup) (ordered : ∀ list ∈ nodes, Ordered val list)
    (enough : nodes.flatten.length < fuel) :
    ∃ first after all, mergeKLists val fuel links lists = some (first, after) ∧
      Leads after first all ∧ Ordered val all ∧ all ~ nodes.flatten ∧
      Confined links after .root nodes.flatten := by
  cases leads with
  | nil => exact ⟨none, links, [], rfl, rfl, .nil, .refl _, fun _ _ => rfl⟩
  | @cons list first lists nodes head others =>
      have merges := @mergeParts_merges α val _ _ _ _ [] _ (List.cons_ne_nil _ _)
        (.cons head others) distinct ordered enough
      have counted : converted 32 ((list :: lists).length : Int) = (list :: lists).length :=
        converted_natCast (by decide) (by omega)
      rw [List.append_nil] at merges
      rw [mergeKLists, if_neg (by simp), counted]
      exact merges

/-- The nodes 1 and 3, the node 2 and no node. -/
theorem mergeKLists_merges_three :
    ∃ first after all,
      mergeKLists (Nat.cast : Nat → Int) 4 (fun place => if place = .next 1 then some 3 else none)
        [some 1, some 2, none] = some (first, after) ∧
      Leads after first all ∧ Ordered (Nat.cast : Nat → Int) all ∧ all ~ [1, 3, 2] ∧
      Confined (fun place => if place = .next 1 then some 3 else none) after .root [1, 3, 2] :=
  @mergeKLists_merges Nat Nat.cast _ _ _ _ [[1, 3], [2], []] (by decide)
    (.cons ⟨rfl, rfl, rfl⟩ (.cons ⟨rfl, rfl⟩ (.cons rfl .nil))) (by decide)
    (by simp [Ordered]) (by decide)

end MergeLists

end StdPrograms.Hobbies

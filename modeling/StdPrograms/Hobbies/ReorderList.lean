import StdPrograms.Foundation.LinkedList

/-!
Contract: a linked list from both ends.

Owns `reorderList` of `solution_143.cpp` and that it leaves the nodes alternately from the front
and from the back.

Does not own the values of the nodes.
-/

namespace StdPrograms.Hobbies

open StdPrograms.Foundation StdPrograms.Foundation.Links

namespace ReorderList

variable {α : Type}

section Code

/-- The loop over `slow` and `fast`; a node is read only where there is one. -/
def findMiddle (links : Links α) : Nat → Option α → Option α → Option (Option α)
  | 0, _, _ => none
  | fuel + 1, slow, fast =>
      match fast with
      | none => some slow
      | some fastNode =>
          match links (.next fastNode) with
          | none => some slow
          | some secondNode => do
              let slowNode ← slow
              findMiddle links fuel (links (.next slowNode)) (links (.next secondNode))

variable [DecidableEq α]

/-- The loop over `node`: the links and `tail`. -/
def reverseLoop : Nat → Links α → Option α → Option α → Option (Links α × Option α)
  | 0, _, _, _ => none
  | _ + 1, links, tail, none => some (links, tail)
  | fuel + 1, links, tail, some node =>
      let tmp := links (.next node)
      reverseLoop fuel (links.set (.next node) tail) (some node) tmp

def zipLoop : Nat → Links α → Option α → Option α → Option (Links α)
  | 0, _, _, _ => none
  | fuel + 1, links, some head, some tail =>
      let tmp := links (.next tail)
      let links := links.set (.next tail) (links (.next head))
      let links := links.set (.next head) (some tail)
      zipLoop fuel links (links (.next tail)) tmp
  | _ + 1, links, _, _ => some links

/-- The parameter `head` is a copy of the caller's, which stays as it is. -/
def reorderList (fuel : Nat) (links : Links α) : Option (Links α) := do
  let head := links .root
  let slow ← findMiddle links fuel head head
  let slowNode ← slow
  let (links, tail) ← reverseLoop fuel links none (links (.next slowNode))
  let links := links.set (.next slowNode) none
  zipLoop fuel links head tail

end Code

/-! ### The order -/

/-- The first node, then the others from their other end. -/
def reordered : List α → List α
  | [] => []
  | first :: rest => first :: reordered rest.reverse
termination_by nodes => nodes.length
decreasing_by simp

theorem reordered_nil : reordered ([] : List α) = [] := by
  rw [reordered]

theorem reordered_cons (first : α) (rest : List α) :
    reordered (first :: rest) = first :: reordered rest.reverse := by
  rw [reordered]

theorem reordered_perm (nodes : List α) : (reordered nodes).Perm nodes := by
  induction size : nodes.length generalizing nodes with
  | zero =>
      rw [List.eq_nil_of_length_eq_zero size, reordered_nil]
  | succ length inductionHypothesis =>
      obtain ⟨first, rest, rfl⟩ := List.exists_cons_of_length_eq_add_one size
      rw [reordered_cons]
      refine List.Perm.cons first ((inductionHypothesis rest.reverse ?_).trans
        (List.reverse_perm rest))
      rw [List.length_reverse]
      exact Nat.succ.inj size

/-- One of the first list, one of the second one, and so on. -/
def interleaved : List α → List α → List α
  | first :: rest, second :: others => first :: second :: interleaved rest others
  | firsts, [] => firsts
  | [], seconds => seconds

theorem reordered_append_reverse {firsts seconds : List α}
    (atMost : seconds.length ≤ firsts.length) (atLeast : firsts.length ≤ seconds.length + 2) :
    reordered (firsts ++ seconds.reverse) = interleaved firsts seconds := by
  induction seconds generalizing firsts with
  | nil =>
      match firsts, atLeast with
      | [], _ => rw [List.reverse_nil, List.append_nil, reordered_nil]; rfl
      | [first], _ =>
          rw [List.reverse_nil, List.append_nil, reordered_cons, List.reverse_nil, reordered_nil]
          rfl
      | [first, second], _ =>
          rw [List.reverse_nil, List.append_nil, reordered_cons, List.reverse_singleton,
            reordered_cons, List.reverse_nil, reordered_nil]
          rfl
  | cons second others inductionHypothesis =>
      cases firsts with
      | nil => exact absurd atMost (Nat.not_succ_le_zero _)
      | cons first rest =>
          rw [List.cons_append, reordered_cons, List.reverse_append, List.reverse_reverse,
            List.cons_append, reordered_cons, List.reverse_append, List.reverse_reverse,
            inductionHypothesis (Nat.le_of_succ_le_succ atMost) (Nat.le_of_succ_le_succ atLeast)]
          rfl

/-! ### The loops -/

/-- `slow` advances by half the length of what `fast` has before it. -/
theorem findMiddle_spec {links : Links α} {fuel : Nat} {slow fast : Option α} {nodes ahead : List α}
    (slowLeads : Leads links slow nodes) (fastLeads : Leads links fast ahead)
    (half : ahead.length / 2 ≤ nodes.length) (enough : ahead.length < fuel) :
    ∃ middle, findMiddle links fuel slow fast = some middle ∧
      Leads links middle (nodes.drop (ahead.length / 2)) := by
  induction fuel generalizing slow fast nodes ahead with
  | zero => exact absurd enough (Nat.not_lt_zero _)
  | succ fuel inductionHypothesis =>
      match ahead with
      | [] =>
          obtain rfl := fastLeads
          exact ⟨slow, rfl, by rwa [List.length_nil, Nat.zero_div, List.drop_zero]⟩
      | [last] =>
          obtain ⟨rfl, ended⟩ := fastLeads
          refine ⟨slow, ?_, ?_⟩
          · rw [findMiddle, show links (.next last) = none from ended]
          · rwa [List.length_singleton, Nat.div_eq_of_lt Nat.one_lt_two, List.drop_zero]
      | first :: second :: rest =>
          obtain ⟨rfl, next, behind⟩ := fastLeads
          have advanced : (first :: second :: rest).length / 2 = rest.length / 2 + 1 := by
            rw [List.length_cons, List.length_cons]
            omega
          rw [advanced] at half ⊢
          obtain ⟨node, others, rfl⟩ := List.exists_cons_of_length_pos
            (Nat.lt_of_lt_of_le (Nat.succ_pos _) half)
          obtain ⟨rfl, slowBehind⟩ := slowLeads
          obtain ⟨middle, returned, leads⟩ := inductionHypothesis slowBehind behind
            (Nat.le_of_succ_le_succ half) (by simp only [List.length_cons] at enough; omega)
          refine ⟨middle, ?_, leads⟩
          rw [findMiddle, next]
          exact returned

/-- The node in the middle, with the nodes before it and those behind it. -/
theorem findMiddle_splits {links : Links α} {nodes : List α}
    (leads : Leads links (links .root) nodes) (nonempty : nodes ≠ []) {fuel : Nat}
    (enough : nodes.length < fuel) :
    ∃ front middle back, nodes = front ++ middle :: back ∧ front.length = nodes.length / 2 ∧
      findMiddle links fuel (links .root) (links .root) = some (some middle) ∧
      Leads links (links (.next middle)) back := by
  have positive := List.length_pos_iff.mpr nonempty
  obtain ⟨slow, found, slowLeads⟩ := findMiddle_spec leads leads (by omega) enough
  obtain ⟨middle, back, split_⟩ :=
    @List.exists_cons_of_length_pos _ (nodes.drop (nodes.length / 2)) (by
      rw [List.length_drop]
      omega)
  rw [split_] at slowLeads
  obtain ⟨rfl, backLeads⟩ := slowLeads
  refine ⟨nodes.take (nodes.length / 2), middle, back, ?_, ?_, found, backLeads⟩
  · rw [← split_, List.take_append_drop]
  · exact List.length_take_of_le (Nat.div_le_self _ _)

variable [DecidableEq α]

theorem reverseLoop_spec {fuel : Nat} {links : Links α} {tail start : Option α}
    {done todo : List α} (tailLeads : Leads links tail done) (leads : Leads links start todo)
    (distinct : (todo ++ done).Nodup) (enough : todo.length < fuel) :
    ∃ after tail', reverseLoop fuel links tail start = some (after, tail') ∧
      Leads after tail' (todo.reverse ++ done) ∧
      ∀ place, (∀ node ∈ todo, place ≠ .next node) → after place = links place := by
  induction todo generalizing fuel links tail start done with
  | nil =>
      obtain ⟨fuel, rfl⟩ := Nat.exists_eq_add_one_of_ne_zero (Nat.ne_zero_of_lt enough)
      obtain rfl := leads
      exact ⟨links, tail, rfl, tailLeads, fun _ _ => rfl⟩
  | cons node rest inductionHypothesis =>
      obtain ⟨fuel, rfl⟩ := Nat.exists_eq_add_one_of_ne_zero (Nat.ne_zero_of_lt enough)
      obtain ⟨rfl, behind⟩ := leads
      rw [List.cons_append] at distinct
      obtain ⟨nodeNew, restDistinct⟩ := List.nodup_cons.mp distinct
      have kept (other : α) (member : other ∈ rest ++ done) :
          links.set (.next node) tail (.next other) = links (.next other) :=
        set_other _ _ fun same => nodeNew (Slot.next.inj same ▸ member)
      have turned : Leads (links.set (.next node) tail) (some node) (node :: done) := by
        refine ⟨rfl, ?_⟩
        rw [set_same]
        exact tailLeads.frame fun other member => kept other (List.mem_append_right rest member)
      have ahead := behind.frame fun other member => kept other (List.mem_append_left done member)
      have distinctAfter : (rest ++ node :: done).Nodup := List.perm_middle.nodup_iff.mpr distinct
      obtain ⟨after, tail', returned, whole, frame⟩ :=
        inductionHypothesis turned ahead distinctAfter (Nat.lt_of_succ_lt_succ enough)
      refine ⟨after, tail', returned, ?_, fun place outside => ?_⟩
      · rw [List.reverse_cons, List.append_assoc]
        exact whole
      · rw [frame place fun other member => outside other (List.mem_cons_of_mem node member),
          set_other _ _ (outside node List.mem_cons_self)]

omit [DecidableEq α] in
/-- The first nodes of both lists are none of the other ones. -/
theorem heads_apart {first second : α} {rest others : List α}
    (distinct : (first :: (rest ++ second :: others)).Nodup) :
    first ≠ second ∧ first ∉ rest ++ others ∧ second ∉ rest ++ others ∧ (rest ++ others).Nodup := by
  obtain ⟨firstNew, restDistinct⟩ := List.nodup_cons.mp distinct
  have middle : (rest ++ second :: others).Perm (second :: (rest ++ others)) := List.perm_middle
  obtain ⟨secondNew, laterDistinct⟩ := List.nodup_cons.mp (middle.nodup_iff.mp restDistinct)
  rw [middle.mem_iff, List.mem_cons, not_or] at firstNew
  exact ⟨firstNew.1, firstNew.2, secondNew, laterDistinct⟩

/-- A round puts the second node between the first one and the one behind it. -/
theorem set_between (links : Links α) {first second : α} (differ : first ≠ second) :
    ∃ between,
      (links.set (.next second) (links (.next first))).set (.next first) (some second) = between ∧
      between (.next first) = some second ∧ between (.next second) = links (.next first) ∧
      ∀ place, place ≠ .next first → place ≠ .next second → between place = links place := by
  refine ⟨_, rfl, set_same _ _ _, ?_, fun place notFirst notSecond => ?_⟩
  · rw [set_other _ _ fun same => differ (Slot.next.inj same).symm, set_same]
  · rw [set_other _ _ notFirst, set_other _ _ notSecond]

theorem zipLoop_spec {fuel : Nat} {links : Links α} {head tail : Option α}
    {firsts seconds : List α} (headLeads : Leads links head firsts)
    (tailLeads : Leads links tail seconds) (distinct : (firsts ++ seconds).Nodup)
    (atMost : seconds.length ≤ firsts.length) (enough : seconds.length < fuel) :
    ∃ after, zipLoop fuel links head tail = some after ∧
      Leads after head (interleaved firsts seconds) ∧
      ∀ place, (∀ node ∈ firsts ++ seconds, place ≠ .next node) → after place = links place := by
  induction seconds generalizing fuel links head tail firsts with
  | nil =>
      obtain ⟨fuel, rfl⟩ := Nat.exists_eq_add_one_of_ne_zero (Nat.ne_zero_of_lt enough)
      obtain rfl := tailLeads
      refine ⟨links, ?_, ?_, fun _ _ => rfl⟩
      · cases head <;> rfl
      · cases firsts <;> exact headLeads
  | cons second others inductionHypothesis =>
      obtain ⟨fuel, rfl⟩ := Nat.exists_eq_add_one_of_ne_zero (Nat.ne_zero_of_lt enough)
      cases firsts with
      | nil => exact absurd atMost (Nat.not_succ_le_zero _)
      | cons first rest =>
          obtain ⟨rfl, headBehind⟩ := headLeads
          obtain ⟨rfl, tailBehind⟩ := tailLeads
          obtain ⟨differ, firstApart, secondApart, laterDistinct⟩ := heads_apart distinct
          obtain ⟨between, linksIs, firstNext, secondNext, elsewhere⟩ := set_between links differ
          have kept (node : α) (member : node ∈ rest ++ others) :
              between (.next node) = links (.next node) :=
            elsewhere _ (fun same => firstApart (Slot.next.inj same ▸ member))
              fun same => secondApart (Slot.next.inj same ▸ member)
          obtain ⟨after, returned, whole, frame⟩ := inductionHypothesis
            (headBehind.frame fun node member => kept node (List.mem_append_left _ member))
            (tailBehind.frame fun node member => kept node (List.mem_append_right _ member))
            laterDistinct (Nat.le_of_succ_le_succ atMost) (Nat.lt_of_succ_lt_succ enough)
          have untouched (node : α) (apart : node ∉ rest ++ others) :
              after (.next node) = between (.next node) :=
            frame _ fun other member same => apart (Slot.next.inj same ▸ member)
          refine ⟨after, ?_, ⟨rfl, ?_⟩, fun place outside => ?_⟩
          · dsimp only [zipLoop]
            rw [linksIs, secondNext]
            exact returned
          · rw [untouched first firstApart, firstNext]
            refine ⟨rfl, ?_⟩
            rw [untouched second secondApart, secondNext]
            exact whole
          · have outsideLater (node : α) (member : node ∈ second :: (rest ++ others)) :
                place ≠ .next node :=
              outside node (List.mem_cons_of_mem first (List.perm_middle.mem_iff.mpr member))
            rw [frame place fun node member => outsideLater node (List.mem_cons_of_mem _ member),
              elsewhere place (outside first List.mem_cons_self)
                (outsideLater second List.mem_cons_self)]

omit [DecidableEq α] in
/-- The nodes up to the middle, and the others from their end, alternate. -/
theorem reordered_halves {front back : List α} (middle : α)
    (half : front.length = (front ++ middle :: back).length / 2) :
    reordered (front ++ middle :: back) = interleaved (front ++ [middle]) back.reverse := by
  rw [List.length_append, List.length_cons] at half
  rw [← reordered_append_reverse, List.reverse_reverse, List.append_assoc]
  · rfl
  · rw [List.length_reverse, List.length_append, List.length_singleton]
    omega
  · rw [List.length_reverse, List.length_append, List.length_singleton]
    omega

/-- Both halves are relinked, and the second one is never the longer one. -/
theorem reorderList_spec {links : Links α} {nodes : List α} (chain : Chain links .root nodes)
    (nonempty : nodes ≠ []) {fuel : Nat} (enough : nodes.length < fuel) :
    ∃ after, reorderList fuel links = some after ∧ Chain after .root (reordered nodes) ∧
      (reordered nodes).Perm nodes := by
  have leads := chain_iff_leads.mp chain
  obtain ⟨front, middle, back, rfl, half, found, backLeads⟩ :=
    findMiddle_splits leads nonempty enough
  have alternate := reordered_halves middle half
  rw [List.length_append, List.length_cons] at half enough
  obtain ⟨frontDistinct, rest, apart⟩ := List.nodup_append'.mp chain.nodup
  obtain ⟨middleNew, backDistinct⟩ := List.nodup_cons.mp rest
  obtain ⟨between, tail, reversed, tailLeads, frame⟩ :=
    @reverseLoop_spec α _ fuel links none (links (.next middle)) [] back rfl backLeads
      (by rwa [List.append_nil]) (by omega)
  rw [List.append_nil] at tailLeads
  have outside (node : α) (notInBack : node ∉ back) :
      between (.next node) = links (.next node) :=
    frame _ fun other member same => notInBack (Slot.next.inj same ▸ member)
  have frontLeads : Leads (between.set (.next middle) none) (links .root) (front ++ [middle]) := by
    refine leads.cut (fun node inFront => ?_) (set_same _ _ _)
    have notMiddle : Slot.next node ≠ .next middle := fun same =>
      apart inFront (Slot.next.inj same ▸ List.mem_cons_self)
    rw [set_other _ _ notMiddle]
    exact outside node fun inBack => apart inFront (List.mem_cons_of_mem middle inBack)
  have backLeadsAfter : Leads (between.set (.next middle) none) tail back.reverse :=
    tailLeads.frame fun node member => set_other _ _ fun same =>
      middleNew (Slot.next.inj same ▸ List.mem_reverse.mp member)
  have order : ((front ++ [middle]) ++ back.reverse).Perm (front ++ middle :: back) := by
    rw [List.append_assoc]
    exact ((List.reverse_perm back).cons middle).append_left front
  obtain ⟨after, returned, whole, unchanged⟩ := @zipLoop_spec α _ fuel _ _ _ _ _ frontLeads
    backLeadsAfter (order.nodup_iff.mpr chain.nodup)
    (by rw [List.length_reverse, List.length_append, List.length_singleton]; omega)
    (by rw [List.length_reverse]; omega)
  have rootOther (node : α) : Slot.root ≠ Slot.next node := fun same => by cases same
  have rootKept : after .root = links .root := by
    rw [unchanged .root fun node _ => rootOther node, set_other _ _ (rootOther middle),
      frame .root fun node _ => rootOther node]
  refine ⟨after, ?_, chain_iff_leads.mpr ?_, reordered_perm _⟩
  · rw [reorderList, found]
    dsimp only [Option.bind_eq_bind, Option.bind_some]
    rw [reversed]
    exact returned
  · rw [rootKept, alternate]
    exact whole

/-- Four nodes in a row. -/
def fourNodes : Links Nat
  | .root => some 0
  | .next node => if node < 3 then some (node + 1) else none

theorem reorderList_spec_fourNodes :
    Chain fourNodes .root [0, 1, 2, 3] ∧
      ∃ after, reorderList 5 fourNodes = some after ∧
        Chain after .root (reordered [0, 1, 2, 3]) ∧
          (reordered [0, 1, 2, 3]).Perm [0, 1, 2, 3] := by
  have chain : Chain fourNodes .root [0, 1, 2, 3] := ⟨rfl, rfl, rfl, rfl, rfl⟩
  exact ⟨chain, reorderList_spec chain (List.cons_ne_nil _ _) (by decide)⟩

end ReorderList

end StdPrograms.Hobbies

import Mathlib.Data.List.Basic
import Mathlib.Data.List.Chain
import Mathlib.Data.List.Nodup

/-!
Contract: singly linked lists in a memory.

Owns the places that hold a link, the chain of nodes that begins at such a place, that a chain
never comes back to a place, what moving a node, turning a block of nodes round and replacing
the back of a chain do to it, and the part of a list up to a given node.

Does not own what the nodes hold.
-/

namespace StdPrograms.Foundation

/-- Where a link is stored: in a variable of its own or in a node. -/
inductive Slot (α : Type) where
  | root
  | next (node : α)
deriving DecidableEq

/-- The place in a node, or another one where there is no node. -/
def Slot.of {α : Type} (slot : Slot α) : Option α → Slot α
  | none => slot
  | some node => .next node

abbrev Links (α : Type) := Slot α → Option α

namespace Links

variable {α : Type} {link after : Links α} {slot : Slot α}

/-- The last of the places that a list of nodes behind `slot` comes to. -/
def last (slot : Slot α) : List α → Slot α
  | [] => slot
  | node :: rest => last (.next node) rest

/-- The places whose links lead from node to node. -/
def reads (slot : Slot α) : List α → List (Slot α)
  | [] => []
  | node :: rest => slot :: reads (.next node) rest

/-- All places of a list, the last one too. -/
def slots (slot : Slot α) (nodes : List α) : List (Slot α) :=
  slot :: nodes.map Slot.next

/-- The links lead over the nodes in turn. -/
def Passes (link : Links α) (slot : Slot α) : List α → Prop
  | [] => True
  | node :: rest => link slot = some node ∧ Passes link (.next node) rest

/-- The links lead over the nodes in turn and end there. -/
def Chain (link : Links α) (slot : Slot α) : List α → Prop
  | [] => link slot = none
  | node :: rest => link slot = some node ∧ Chain link (.next node) rest

/-- From a pointer the links lead over the nodes in turn and end there. -/
def Leads (link : Links α) (start : Option α) : List α → Prop
  | [] => start = none
  | node :: rest => start = some node ∧ Leads link (link (.next node)) rest

theorem last_append (slot : Slot α) (front back : List α) :
    last slot (front ++ back) = last (last slot front) back := by
  induction front generalizing slot with
  | nil => rfl
  | cons node rest inductionHypothesis => exact inductionHypothesis (.next node)

theorem slots_append (slot : Slot α) (front back : List α) :
    slots slot (front ++ back) = reads slot front ++ slots (last slot front) back := by
  induction front generalizing slot with
  | nil => rfl
  | cons node rest inductionHypothesis =>
      exact congrArg (slot :: ·) (inductionHypothesis (.next node))

theorem last_notMem_reads {nodes : List α} (distinct : (slots slot nodes).Nodup) :
    last slot nodes ∉ reads slot nodes := by
  have split := slots_append slot nodes []
  rw [List.append_nil] at split
  rw [split] at distinct
  exact fun again => (List.nodup_append'.mp distinct).2.2 again List.mem_cons_self

theorem chain_append (front back : List α) :
    Chain link slot (front ++ back) ↔
      Passes link slot front ∧ Chain link (last slot front) back := by
  induction front generalizing slot with
  | nil => exact (and_iff_right trivial).symm
  | cons node rest inductionHypothesis =>
      change _ ∧ Chain link (.next node) (rest ++ back) ↔ (_ ∧ _) ∧ _
      rw [inductionHypothesis, and_assoc]
      rfl

theorem passes_append (front back : List α) :
    Passes link slot (front ++ back) ↔
      Passes link slot front ∧ Passes link (last slot front) back := by
  induction front generalizing slot with
  | nil => exact (and_iff_right trivial).symm
  | cons node rest inductionHypothesis =>
      change _ ∧ Passes link (.next node) (rest ++ back) ↔ (_ ∧ _) ∧ _
      rw [inductionHypothesis, and_assoc]
      rfl

theorem last_eq (slot : Slot α) (nodes : List α) :
    last slot nodes = slot.of nodes.getLast? := by
  induction nodes generalizing slot with
  | nil => rfl
  | cons node rest inductionHypothesis =>
      change last (.next node) rest = _
      rw [inductionHypothesis, List.getLast?_cons]
      cases rest.getLast? <;> rfl

theorem last_of_getLast? {nodes : List α} {node : α} (isLast : nodes.getLast? = some node) :
    last slot nodes = .next node := by
  rw [last_eq, isLast]
  rfl

theorem last_mem_slots (slot : Slot α) (nodes : List α) : last slot nodes ∈ slots slot nodes := by
  induction nodes generalizing slot with
  | nil => exact List.mem_cons_self
  | cons node rest inductionHypothesis =>
      exact List.mem_cons_of_mem slot (inductionHypothesis (.next node))

theorem mem_slots_of_perm {left right : List α} (permutation : left.Perm right)
    {place : Slot α} (member : place ∈ slots slot left) : place ∈ slots slot right :=
  ((permutation.map Slot.next).cons slot).subset member

theorem chain_iff_leads {nodes : List α} :
    Chain link slot nodes ↔ Leads link (link slot) nodes := by
  induction nodes generalizing slot with
  | nil => rfl
  | cons node rest inductionHypothesis => exact and_congr_right fun _ => inductionHypothesis

theorem Leads.frame {start : Option α} {nodes : List α} (leads : Leads link start nodes)
    (same : ∀ node ∈ nodes, after (.next node) = link (.next node)) : Leads after start nodes := by
  induction nodes generalizing start with
  | nil => exact leads
  | cons node rest inductionHypothesis =>
      refine ⟨leads.1, ?_⟩
      rw [same node List.mem_cons_self]
      exact inductionHypothesis leads.2 fun later member =>
        same later (List.mem_cons_of_mem node member)

theorem Leads.eq_head? {start : Option α} {nodes : List α} (leads : Leads link start nodes) :
    start = nodes.head? := by
  cases nodes with
  | nil => exact leads
  | cons node rest => exact leads.1

theorem Chain.head?_eq {nodes : List α} (chain : Chain link slot nodes) :
    link slot = nodes.head? :=
  (chain_iff_leads.mp chain).eq_head?

theorem Leads.behind {start : Option α} {front back : List α} {node : α}
    (leads : Leads link start (front ++ node :: back)) : Leads link (link (.next node)) back := by
  induction front generalizing start with
  | nil => exact leads.2
  | cons first rest inductionHypothesis => exact inductionHypothesis leads.2

/-- Behind a node another list follows. -/
theorem Leads.splice {start : Option α} {front back new : List α} {node : α}
    (leads : Leads link start (front ++ node :: back))
    (same : ∀ other ∈ front, after (.next other) = link (.next other))
    (behind : Leads after (after (.next node)) new) : Leads after start (front ++ node :: new) := by
  induction front generalizing start with
  | nil => exact ⟨leads.1, behind⟩
  | cons first rest inductionHypothesis =>
      refine ⟨leads.1, ?_⟩
      rw [same first List.mem_cons_self]
      exact inductionHypothesis leads.2 fun other member =>
        same other (List.mem_cons_of_mem first member)

/-- The list ends at a node behind which there is nothing any more. -/
theorem Leads.cut {start : Option α} {front back : List α} {node : α}
    (leads : Leads link start (front ++ node :: back))
    (same : ∀ other ∈ front, after (.next other) = link (.next other))
    (ended : after (.next node) = none) : Leads after start (front ++ [node]) :=
  leads.splice same ended

/-- A node in a chain is linked to the nodes behind it. -/
theorem Chain.next_eq {front back : List α} {node : α}
    (chain : Chain link slot (front ++ node :: back)) : link (.next node) = back.head? := by
  rw [chain_append] at chain
  exact chain.2.2.head?_eq

/-- Where the links lead is determined by the pointer where they begin. -/
theorem Leads.unique {start : Option α} {left right : List α} (leads : Leads link start left)
    (other : Leads link start right) : left = right := by
  induction left generalizing start right with
  | nil =>
      have first := other.eq_head?
      rw [leads.eq_head?] at first
      exact (List.head?_eq_none_iff.mp first.symm).symm
  | cons node rest inductionHypothesis =>
      cases right with
      | nil => exact absurd (leads.1.symm.trans other) (Option.some_ne_none node)
      | cons node' rest' =>
          obtain rfl : node = node' := Option.some.inj (leads.1.symm.trans other.1)
          rw [inductionHypothesis leads.2 other.2]

/-- Pointers are equal where the lists behind them are. -/
theorem Leads.eq_iff {start other : Option α} {left right : List α} (leads : Leads link start left)
    (otherLeads : Leads link other right) : start = other ↔ left = right := by
  constructor
  · rintro rfl
    exact leads.unique otherLeads
  · rintro rfl
    rw [leads.eq_head?, otherLeads.eq_head?]

theorem Leads.eq_none_iff {start : Option α} {nodes : List α} (leads : Leads link start nodes) :
    start = none ↔ nodes = [] :=
  leads.eq_iff rfl

theorem Chain.unique {left right : List α} (chain : Chain link slot left)
    (other : Chain link slot right) : left = right :=
  (chain_iff_leads.mp chain).unique (chain_iff_leads.mp other)

/-- A chain that ends never comes back to one of its places. -/
theorem Chain.nodup_slots {nodes : List α} (chain : Chain link slot nodes) :
    (slots slot nodes).Nodup := by
  induction nodes generalizing slot with
  | nil => exact List.nodup_singleton slot
  | cons node rest inductionHypothesis =>
      have later := inductionHypothesis chain.2
      refine List.nodup_cons.mpr ⟨?_, later⟩
      intro again
      obtain ⟨other, member, rfl⟩ := List.mem_map.mp again
      obtain ⟨front, back, split⟩ := List.append_of_mem member
      have behind := chain
      rw [split, ← List.singleton_append, ← List.append_assoc, chain_append, last_append] at behind
      have same := congrArg List.length (chain.unique behind.2)
      have whole := congrArg List.length split
      simp only [List.length_append, List.length_cons] at same whole
      omega

theorem Chain.nodup {nodes : List α} (chain : Chain link slot nodes) : nodes.Nodup :=
  (List.nodup_cons.mp chain.nodup_slots).2.of_map

/-- A node is not found again behind its place. -/
theorem Chain.ne_behind {front middle back : List α} {ref node : α}
    (chain : Chain link slot (front ++ ref :: (middle ++ node :: back))) : ref ≠ node := by
  intro same
  have distinct := (List.nodup_append'.mp chain.nodup).2.1
  have inBehind : node ∈ middle ++ node :: back :=
    List.mem_append_right middle List.mem_cons_self
  exact (List.nodup_cons.mp distinct).1 (same ▸ inBehind)

/-! ### Other links -/

/-- From the links to the links after it only the places of the nodes are written to. -/
def Confined (link after : Links α) (slot : Slot α) (nodes : List α) : Prop :=
  ∀ place, place ∉ slots slot nodes → after place = link place

theorem Confined.trans {between : Links α} {nodes : List α}
    (first : Confined link between slot nodes) (second : Confined between after slot nodes) :
    Confined link after slot nodes := by
  intro place outside
  rw [second place outside, first place outside]

theorem Confined.perm {left right : List α} (confined : Confined link after slot left)
    (permutation : left.Perm right) : Confined link after slot right := by
  intro place outside
  exact confined place (fun member => outside (mem_slots_of_perm permutation member))

theorem Confined.mono {few many : List α} (confined : Confined link after slot few)
    (subset : few ⊆ many) : Confined link after slot many := by
  intro place outside
  apply confined
  exact fun member => outside (List.cons_subset_cons _ (List.map_subset _ subset) member)

/-- What is confined to the back of a list is confined to the list. -/
theorem Confined.append {front back : List α}
    (confined : Confined link after (last slot front) back) :
    Confined link after slot (front ++ back) := by
  intro place outside
  rw [slots_append, List.mem_append, not_or] at outside
  exact confined place outside.2

theorem Passes.frame {nodes : List α} (passes : Passes link slot nodes)
    (same : ∀ place ∈ reads slot nodes, after place = link place) : Passes after slot nodes := by
  induction nodes generalizing slot with
  | nil => trivial
  | cons node rest inductionHypothesis =>
      constructor
      · exact (same slot List.mem_cons_self).trans passes.1
      · apply inductionHypothesis passes.2
        intro place member
        exact same place (List.mem_cons_of_mem slot member)

/-- Links that differ at most at the places of a list, and both lead over it, are the same. -/
theorem Confined.unique {nodes : List α} (confined : Confined link after slot nodes)
    (chain : Chain link slot nodes) (other : Chain after slot nodes) : after = link := by
  have inside : ∀ place ∈ slots slot nodes, after place = link place := by
    clear confined
    induction nodes generalizing slot with
    | nil =>
        intro place member
        rw [List.mem_singleton.mp member, show after slot = none from other, chain.head?_eq]
        rfl
    | cons node rest inductionHypothesis =>
        intro place member
        cases member with
        | head => rw [chain.1, other.1]
        | tail _ member => exact inductionHypothesis chain.2 other.2 place member
  funext place
  by_cases member : place ∈ slots slot nodes
  · exact inside place member
  · exact confined place member

/-- A chain that begins at another place with the same link. -/
theorem Chain.redirect {other : Slot α} {nodes : List α} (chain : Chain link slot nodes)
    (first : after other = link slot)
    (same : ∀ node ∈ nodes, after (.next node) = link (.next node)) : Chain after other nodes := by
  induction nodes generalizing slot other with
  | nil => exact first.trans chain
  | cons node rest inductionHypothesis =>
      constructor
      · exact first.trans chain.1
      · apply inductionHypothesis chain.2 (same node List.mem_cons_self)
        intro later member
        exact same later (List.mem_cons_of_mem node member)

/-- The back of a chain is replaced by another one that begins at the same place. -/
theorem Chain.splice {front back new : List α} (chain : Chain link slot (front ++ back))
    (confined : Confined link after (last slot front) back)
    (behind : Chain after (last slot front) new) : Chain after slot (front ++ new) := by
  have distinct := chain.nodup_slots
  rw [slots_append, List.nodup_append'] at distinct
  rw [chain_append] at chain ⊢
  refine ⟨chain.1.frame ?_, behind⟩
  intro place member
  exact confined place (fun later => distinct.2.2 member later)

/-- The nodes in the other order, by links that lead from each node to the one before it. -/
theorem passes_reverse {nodes : List α}
    (backwards : nodes.IsChain fun left right => link (.next right) = some left)
    (begins : ∀ node ∈ nodes.getLast?, link slot = some node) : Passes link slot nodes.reverse := by
  induction nodes using List.reverseRecOn generalizing slot with
  | nil => trivial
  | append_singleton front node inductionHypothesis =>
      obtain ⟨frontBackwards, -, toNode⟩ := List.isChain_append.mp backwards
      rw [List.reverse_append]
      refine ⟨begins node List.getLast?_concat, inductionHypothesis frontBackwards ?_⟩
      exact fun before isLast => toNode before isLast node rfl

/-- A block at the beginning of a chain is turned round. -/
theorem Chain.reverse_block {first : α} {block behind : List α}
    (chain : Chain link slot (first :: (block ++ behind)))
    (backwards : (first :: block).IsChain fun left right => after (.next right) = some left)
    (begins : after slot = (first :: block).getLast?)
    (ends : after (.next first) = behind.head?)
    (same : ∀ node ∈ behind, after (.next node) = link (.next node)) :
    Chain after slot ((first :: block).reverse ++ behind) := by
  rw [← List.cons_append, chain_append] at chain
  rw [chain_append]
  constructor
  · exact passes_reverse backwards fun node isLast => begins.trans isLast
  · rw [last_eq, List.getLast?_reverse]
    exact chain.2.redirect (ends.trans chain.2.head?_eq.symm) same

section Store

variable [DecidableEq α]

/-- Store a link at one place. -/
def set (link : Links α) (slot : Slot α) (value : Option α) : Links α :=
  fun place => if place = slot then value else link place

theorem set_same (link : Links α) (slot : Slot α) (value : Option α) :
    link.set slot value slot = value :=
  if_pos rfl

theorem set_other (link : Links α) {slot place : Slot α} (value : Option α)
    (other : place ≠ slot) : link.set slot value place = link place :=
  if_neg other

theorem set_self (link : Links α) (slot : Slot α) : link.set slot (link slot) = link := by
  funext place
  unfold set
  split
  next here => rw [here]
  next => rfl

theorem set_set (link : Links α) (slot : Slot α) (value other : Option α) :
    (link.set slot value).set slot other = link.set slot other := by
  funext place
  unfold set
  split <;> rfl

theorem set_comm (link : Links α) {slot place : Slot α} (value other : Option α)
    (differ : place ≠ slot) :
    (link.set slot value).set place other = (link.set place other).set slot value := by
  funext found
  unfold set
  split
  next here => rw [if_neg (here ▸ differ)]
  next => rfl

/-- A list goes on as before when a place that is not in its nodes is written to. -/
theorem Leads.set {start : Option α} {nodes : List α} (leads : Leads link start nodes)
    (outside : slot ∉ nodes.map Slot.next) (value : Option α) :
    Leads (link.set slot value) start nodes := by
  apply leads.frame
  intro node member
  apply set_other
  intro same
  exact outside (same ▸ List.mem_map_of_mem member)

/-- A list that ends never comes back to one of its nodes. -/
theorem Leads.nodup {start : Option α} {nodes : List α} (leads : Leads link start nodes) :
    nodes.Nodup := by
  have chain : Chain (link.set .root start) .root nodes := by
    rw [chain_iff_leads, set_same]
    exact leads.set (by simp) start
  exact chain.nodup

theorem Passes.set {place : Slot α} {nodes : List α} (passes : Passes link slot nodes)
    (outside : place ∉ reads slot nodes) (value : Option α) :
    Passes (link.set place value) slot nodes := by
  apply passes.frame
  intro other member
  apply set_other
  intro same
  exact outside (same ▸ member)

/-- A node is put behind the last place. -/
theorem Passes.concat {nodes : List α} (passes : Passes link slot nodes)
    (distinct : (slots slot nodes).Nodup) (node : α) :
    Passes (link.set (last slot nodes) (some node)) slot (nodes ++ [node]) := by
  rw [passes_append]
  exact ⟨passes.set (last_notMem_reads distinct) _, set_same _ _ _, trivial⟩

/-- A list is ended at the last place. -/
theorem Passes.close {nodes : List α} (passes : Passes link slot nodes)
    (distinct : (slots slot nodes).Nodup) :
    Chain (link.set (last slot nodes) none) slot nodes := by
  rw [← List.append_nil nodes, chain_append, List.append_nil]
  exact ⟨passes.set (last_notMem_reads distinct) _, set_same _ _ _⟩

omit [DecidableEq α] in
/-- The places that are written to when a node is moved before an earlier one. -/
theorem Chain.move_places {front middle back : List α} {ref node : α}
    (chain : Chain link slot (front ++ ref :: (middle ++ node :: back))) :
    last slot front ≠ .next node ∧ last slot front ≠ last (.next ref) middle ∧
      last (.next ref) middle ≠ .next node := by
  have distinct := chain.nodup_slots
  rw [slots_append, slots, List.map_cons, ← slots, slots_append, slots, List.map_cons] at distinct
  simp only [List.nodup_append', List.nodup_cons, List.mem_append, List.mem_cons,
    not_or] at distinct
  exact ⟨distinct.2.1.1.2.2.1, distinct.2.1.1.2.1, distinct.2.1.2.2.1.1.1⟩

/-- A node is taken out of a chain and put in again before an earlier one. -/
theorem Chain.move {front middle back : List α} {ref node : α}
    (chain : Chain link slot (front ++ ref :: (middle ++ node :: back))) :
    Chain
      (((link.set (last (.next ref) middle) (link (.next node))).set
        (.next node) (some ref)).set (last slot front) (some node))
      slot (front ++ node :: ref :: (middle ++ back)) := by
  generalize afterIs : Links.set _ (last slot front) (some node) = after
  have distinct := chain.nodup_slots
  rw [slots_append, slots, List.map_cons, ← slots, slots_append, slots, List.map_cons] at distinct
  rw [chain_append] at chain
  obtain ⟨toRef, -, behind⟩ := chain
  rw [chain_append] at behind
  obtain ⟨toNode, -, toBack⟩ := behind
  simp only [List.nodup_append', List.nodup_cons, List.mem_append, List.mem_cons, not_or,
    List.disjoint_cons_right, List.disjoint_append_right] at distinct
  obtain ⟨-, ⟨⟨refMiddle, refLast, refNode, refBack⟩, -, ⟨⟨lastNode, lastBack⟩, nodeBack, -⟩,
    lastMiddle, nodeMiddle, -⟩, refFront, -, lastFront, nodeFront, -⟩ := distinct
  have atRef : after (last slot front) = some node := by
    rw [← afterIs, set_same]
  have atNode : after (.next node) = some ref := by
    rw [← afterIs, set_other _ _ (Ne.symm refNode), set_same]
  have atLast : after (last (.next ref) middle) = link (.next node) := by
    rw [← afterIs, set_other _ _ (Ne.symm refLast), set_other _ _ lastNode, set_same]
  have elsewhere : ∀ place, place ≠ last slot front → place ≠ .next node →
      place ≠ last (.next ref) middle → after place = link place := by
    intro place notRef notNode notLast
    rw [← afterIs, set_other _ _ notRef, set_other _ _ notNode, set_other _ _ notLast]
  rw [chain_append]
  refine ⟨toRef.frame ?_, atRef, atNode, ?_⟩
  · intro place member
    apply elsewhere
    · exact fun same => refFront (same ▸ member)
    · exact fun same => nodeFront (same ▸ member)
    · exact fun same => lastFront (same ▸ member)
  · rw [chain_append]
    constructor
    · apply toNode.frame
      intro place member
      apply elsewhere
      · exact fun same => refMiddle (same ▸ member)
      · exact fun same => nodeMiddle (same ▸ member)
      · exact fun same => lastMiddle (same ▸ member)
    · apply toBack.redirect atLast
      intro later member
      have place : Slot.next later ∈ back.map Slot.next := List.mem_map_of_mem member
      apply elsewhere
      · exact fun same => refBack (same ▸ place)
      · exact fun same => nodeBack (same ▸ place)
      · exact fun same => lastBack (same ▸ place)

end Store

end Links

/-! ### Up to a node -/

section Through

variable {α : Type} [DecidableEq α]

/-- The nodes up to the given one, and all where it is missing. -/
def through (node : α) : List α → List α
  | [] => []
  | first :: rest => if first = node then [first] else first :: through node rest

/-- The nodes behind the given one. -/
def beyond (node : α) : List α → List α
  | [] => []
  | first :: rest => if first = node then rest else beyond node rest

theorem through_append_beyond (node : α) (nodes : List α) :
    through node nodes ++ beyond node nodes = nodes := by
  induction nodes with
  | nil => rfl
  | cons first rest inductionHypothesis =>
      unfold through beyond
      split
      next => rfl
      next => rw [List.cons_append, inductionHypothesis]

theorem through_cons_of_ne {node first : α} (other : first ≠ node) (rest : List α) :
    through node (first :: rest) = first :: through node rest :=
  if_neg other

theorem beyond_cons_of_ne {node first : α} (other : first ≠ node) (rest : List α) :
    beyond node (first :: rest) = beyond node rest :=
  if_neg other

theorem beyond_append {node : α} {front : List α} (missing : node ∉ front) (back : List α) :
    beyond node (front ++ back) = beyond node back := by
  induction front with
  | nil => rfl
  | cons first rest inductionHypothesis =>
      rw [List.mem_cons, not_or] at missing
      rw [List.cons_append, beyond_cons_of_ne (Ne.symm missing.1), inductionHypothesis missing.2]

theorem beyond_of_notMem {node : α} {nodes : List α} (missing : node ∉ nodes) :
    beyond node nodes = [] := by
  have whole := beyond_append missing []
  rwa [List.append_nil] at whole

theorem beyond_eq_of_split {node : α} {front : List α} (missing : node ∉ front) (back : List α) :
    beyond node (front ++ node :: back) = back := by
  rw [beyond_append missing]
  exact if_pos rfl

theorem through_eq_of_split {node : α} {front : List α} (missing : node ∉ front) (back : List α) :
    through node (front ++ node :: back) = front ++ [node] := by
  have whole := through_append_beyond node (front ++ node :: back)
  rw [beyond_eq_of_split missing] at whole
  exact List.append_cancel_right (whole.trans (List.append_cons front node back))

end Through

end StdPrograms.Foundation

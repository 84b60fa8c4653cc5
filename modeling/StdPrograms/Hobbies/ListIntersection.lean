import StdPrograms.Foundation.CommonSuffix
import StdPrograms.Foundation.LinkedList

/-!
Contract: the first common node of two linked lists.

Owns `getIntersectionNode` of `solution_160.cpp`, its refinement of a walk over two lists, and
that it returns the first node of both.

Does not own the values of the nodes.
-/

namespace StdPrograms.Hobbies

open StdPrograms.Foundation StdPrograms.Foundation.Links

namespace ListIntersection

variable {Node : Type}

section

variable [DecidableEq Node] (links : Links Node)

/-- The loop. -/
def loop (headA headB : Option Node) : Nat → Option Node → Option Node → Option (Option Node)
  | 0, _, _ => none
  | fuel + 1, p1, p2 =>
      match p1, p2 with
      | some node1, some node2 =>
          if node1 = node2 then some p1
          else
            let p1 := links (.next node1)
            let p2 := links (.next node2)
            if p1 = p2 then some p1
            else loop headA headB fuel (if p1 = none then headB else p1)
              (if p2 = none then headA else p2)
      | _, _ => some p1

def getIntersectionNode (fuel : Nat) (headA headB : Option Node) : Option (Option Node) :=
  if headA = none ∨ headB = none then some none
  else loop links headA headB fuel headA headB

end

/-- The first node of both lists, or none where they share no node. -/
def FirstCommon (nodesA nodesB : List Node) : Option Node → Prop
  | none => ∀ node ∈ nodesA, node ∉ nodesB
  | some node =>
      (∃ front back, nodesA = front ++ node :: back ∧ ∀ other ∈ front, other ∉ nodesB) ∧
      ∃ front back, nodesB = front ++ node :: back ∧ ∀ other ∈ front, other ∉ nodesA

/-! ### Pointers and the lists behind them -/

section

variable {links : Links Node} {pointer other : Option Node} {nodes rest : List Node}

/-- A pointer that has come to the end goes on at another. -/
theorem leads_restart [DecidableEq Node] (leads : Leads links pointer nodes)
    (otherLeads : Leads links other rest) :
    Leads links (if pointer = none then other else pointer)
      (if nodes = [] then rest else nodes) := by
  by_cases ended : nodes = []
  · rw [if_pos ended, if_pos (leads.eq_none_iff.mpr ended)]
    exact otherLeads
  · rw [if_neg ended, if_neg (mt leads.eq_none_iff.mp ended)]
    exact leads

end

/-! ### The loop is a walk -/

section

variable [DecidableEq Node] {links : Links Node} {headA headB : Option Node}
  {nodesA nodesB : List Node} (leadsA : Leads links headA nodesA)
  (leadsB : Leads links headB nodesB)

include leadsA leadsB

theorem loop_eq_walk {fuel : Nat} {p1 p2 : Option Node} {nodes1 nodes2 : List Node}
    (leads1 : Leads links p1 nodes1) (leads2 : Leads links p2 nodes2) :
    loop links headA headB fuel p1 p2 =
      (walk nodesA nodesB fuel nodes1 nodes2).map List.head? := by
  induction fuel generalizing p1 p2 nodes1 nodes2 with
  | zero => rfl
  | succ fuel inductionHypothesis =>
      have together := leads1.eq_iff leads2
      rw [walk]
      cases nodes1 with
      | nil =>
          rw [leads1.eq_head?, if_pos (.inl rfl)]
          rfl
      | cons node1 rest1 =>
          cases nodes2 with
          | nil =>
              rw [leads1.eq_head?, leads2.eq_head?, if_pos (.inr (.inl rfl))]
              rfl
          | cons node2 rest2 =>
              obtain ⟨rfl, rest1Leads⟩ := leads1
              obtain ⟨rfl, rest2Leads⟩ := leads2
              rw [loop]
              by_cases same : node1 = node2
              · rw [if_pos same, if_pos (.inr (.inr (together.mp (congrArg some same))))]
                rfl
              have different :
                  ¬(node1 :: rest1 = [] ∨ node2 :: rest2 = [] ∨
                    node1 :: rest1 = node2 :: rest2) := by
                simp [same]
              have nextTogether : links (.next node1) = links (.next node2) ↔
                  (node1 :: rest1).tail = (node2 :: rest2).tail := rest1Leads.eq_iff rest2Leads
              rw [if_neg same, if_neg different]
              by_cases meet : (node1 :: rest1).tail = (node2 :: rest2).tail
              · rw [if_pos (nextTogether.mpr meet), if_pos meet, rest1Leads.eq_head?]
                rfl
              · rw [if_neg (mt nextTogether.mp meet), if_neg meet]
                exact inductionHypothesis (leads_restart rest1Leads leadsB)
                  (leads_restart rest2Leads leadsA)

end

/-! ### The first common node -/

section

variable {links : Links Node} {headA headB : Option Node} {nodesA nodesB common : List Node}
  (leadsA : Leads links headA nodesA) (leadsB : Leads links headB nodesB)

include leadsA leadsB

/-- From a common node on the lists are the same. -/
theorem exists_common_suffix {node : Node} {front back : List Node}
    (nodesAre : nodesA = front ++ node :: back) (member : node ∈ nodesB) :
    node :: back <:+ nodesA ∧ node :: back <:+ nodesB := by
  obtain ⟨frontB, backB, rfl⟩ := List.append_of_mem member
  subst nodesAre
  rw [leadsA.behind.unique leadsB.behind]
  exact ⟨List.suffix_append front _, List.suffix_append frontB _⟩

theorem notMem_of_front (longest : LongestCommonSuffix nodesA nodesB common) {front : List Node}
    (nodesAre : nodesA = front ++ common) : ∀ other ∈ front, other ∉ nodesB := by
  intro other inFront inOther
  obtain ⟨before, after, rfl⟩ := List.append_of_mem inFront
  rw [List.append_assoc, List.cons_append] at nodesAre
  obtain ⟨ofA, ofB⟩ := exists_common_suffix leadsA leadsB nodesAre inOther
  have atMost := longest.longest _ ofA ofB
  rw [List.length_cons, List.length_append] at atMost
  omega

theorem firstCommon_of_longest (longest : LongestCommonSuffix nodesA nodesB common) :
    FirstCommon nodesA nodesB common.head? := by
  obtain ⟨frontA, nodesAAre⟩ := longest.ofLeft
  obtain ⟨frontB, nodesBAre⟩ := longest.ofRight
  have notInB := notMem_of_front leadsA leadsB longest nodesAAre.symm
  have notInA := notMem_of_front leadsB leadsA longest.symm nodesBAre.symm
  cases common with
  | nil =>
      rw [List.append_nil] at nodesAAre
      subst nodesAAre
      exact notInB
  | cons node back =>
      exact ⟨⟨frontA, back, nodesAAre.symm, notInB⟩, frontB, back, nodesBAre.symm, notInA⟩

end

/-- For any two lists that end, whatever they share. -/
theorem getIntersectionNode_spec [DecidableEq Node] {links : Links Node}
    {headA headB : Option Node} {nodesA nodesB : List Node} {fuel : Nat}
    (leadsA : Leads links headA nodesA) (leadsB : Leads links headB nodesB)
    (enough : nodesA.length + nodesB.length < fuel) :
    ∃ result, getIntersectionNode links fuel headA headB = some result ∧
      FirstCommon nodesA nodesB result := by
  rw [getIntersectionNode]
  by_cases emptyA : nodesA = []
  · rw [if_pos (.inl (leadsA.eq_none_iff.mpr emptyA))]
    refine ⟨none, rfl, fun node member => ?_⟩
    rw [emptyA] at member
    exact absurd member List.not_mem_nil
  by_cases emptyB : nodesB = []
  · rw [if_pos (.inr (leadsB.eq_none_iff.mpr emptyB))]
    refine ⟨none, rfl, fun node _ => ?_⟩
    rw [emptyB]
    exact List.not_mem_nil
  have headsAre : ¬(headA = none ∨ headB = none) := by
    rw [leadsA.eq_none_iff, leadsB.eq_none_iff]
    exact not_or.mpr ⟨emptyA, emptyB⟩
  obtain ⟨common, walked, longest⟩ := walk_spec emptyA emptyB enough
  refine ⟨common.head?, ?_, firstCommon_of_longest leadsA leadsB longest⟩
  rw [if_neg headsAre, loop_eq_walk leadsA leadsB leadsA leadsB, walked]
  rfl

/-- The nodes 0, 1, 3, 4 and 2, 3, 4. -/
def shared : Links Nat
  | .root => none
  | .next node => if node = 1 then some 3 else if node < 4 then some (node + 1) else none

theorem getIntersectionNode_spec_of_shared :
    Leads shared (some 0) [0, 1, 3, 4] ∧ Leads shared (some 2) [2, 3, 4] ∧
      ∃ result, getIntersectionNode shared 8 (some 0) (some 2) = some result ∧
        FirstCommon [0, 1, 3, 4] [2, 3, 4] result :=
  have leadsA : Leads shared (some 0) [0, 1, 3, 4] := ⟨rfl, rfl, rfl, rfl, rfl⟩
  have leadsB : Leads shared (some 2) [2, 3, 4] := ⟨rfl, rfl, rfl, rfl⟩
  ⟨leadsA, leadsB, getIntersectionNode_spec leadsA leadsB (by decide)⟩

end ListIntersection

end StdPrograms.Hobbies

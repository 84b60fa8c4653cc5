import Mathlib.Data.List.Basic
import Mathlib.Tactic.Linarith
import StdPrograms.Foundation.LinkedList

/-!
Contract: quicksort of a singly linked list in place.

Owns `partition`, `quickSort` and `sortList` of `solution_148.cpp`, the part of a list that a
call of `quickSort` is about, what a call leaves when the node that marks its end moves, and
that the whole list comes out sorted with all of its nodes.

Does not own the printing and the making of a list.
-/

namespace StdPrograms.Hobbies

open scoped List
open StdPrograms.Foundation StdPrograms.Foundation.Links

namespace ListQuickSort

variable {α : Type} (val : α → Int)

section Code

variable [DecidableEq α]

/-- The loop of `partition`: the links, `pos`, `prev` and `node`. No statement assigns to a
`val`. There is no result while the fuel does not last. -/
def partitionLoop (head : Slot α) (endNode ref : α) :
    Nat → Links α → Option α → α → Option α → Option (Option α × Links α)
  | 0, _, _, _, _ => none
  | _ + 1, links, pos, _, none => some (pos, links)
  | fuel + 1, links, pos, prev, some node =>
      let next := links (.next node)
      if val node < val ref then
        let links := links.set (.next prev) (links (.next node))
        let links := links.set (.next node) (some ref)
        let links := links.set (head.of pos) (some node)
        if node = endNode then some (some node, links)
        else partitionLoop head endNode ref fuel links (some node) prev next
      else if node = endNode then some (pos, links)
      else partitionLoop head endNode ref fuel links pos node next

/-- There is no result where the list is empty: its first node is read. -/
def partition (fuel : Nat) (links : Links α) (head : Slot α) (endNode : α) :
    Option (Option α × Links α) := do
  let ref ← links head
  partitionLoop val head endNode ref fuel links none ref (links (.next ref))

def quickSort : Nat → Links α → Slot α → α → Option (Links α)
  | 0, _, _, _ => none
  | fuel + 1, links, head, endNode =>
      if links head = some endNode then some links
      else do
        let (pos, links) ← partition val fuel links head endNode
        match pos with
        | some pos =>
            let links ← quickSort fuel links head pos
            match links (.next pos) with
            | some next =>
                if (links (.next next)).isSome then quickSort fuel links (.next next) endNode
                else some links
            | none => some links
        | none =>
            let first ← links head
            if (links (.next first)).isSome then quickSort fuel links (.next first) endNode
            else some links

/-- The loop of `sortList`, to the last node. -/
def lastNode (links : Links α) : Nat → α → Option α
  | 0, _ => none
  | fuel + 1, tail =>
      match links (.next tail) with
      | some next => lastNode links fuel next
      | none => some tail

/-- The node that is returned, and the links. The parameter `head` is one of them. -/
def sortList (fuel : Nat) (links : Links α) : Option (Option α × Links α) :=
  match links .root with
  | none => some (none, links)
  | some first =>
      if links (.next first) = none then some (some first, links)
      else do
        let tail ← lastNode links fuel first
        let links ← quickSort val fuel links .root tail
        return (links .root, links)

end Code

/-! ### The order -/

variable {val}

def Ordered (val : α → Int) (nodes : List α) : Prop :=
  nodes.Pairwise fun left right => val left ≤ val right

def Below (val : α → Int) (left right : List α) : Prop :=
  ∀ first ∈ left, ∀ second ∈ right, val first ≤ val second

theorem ordered_append {left right : List α} :
    Ordered val (left ++ right) ↔ Ordered val left ∧ Ordered val right ∧ Below val left right :=
  List.pairwise_append

theorem Below.perm {left left' right right' : List α} (below : Below val left right)
    (leftPerm : left' ~ left) (rightPerm : right' ~ right) : Below val left' right' := by
  intro first inLeft second inRight
  exact below first (leftPerm.subset inLeft) second (rightPerm.subset inRight)

/-- The nodes come out in order, all of them or those before `rest`. -/
def SortedBefore (val : α → Int) (rest final : List α) : Prop :=
  Ordered val final ∨ ∃ front, final = front ++ rest ∧ Ordered val front

/-! ### `partition` -/

/-- The nodes that go before `ref`. -/
def smaller (val : α → Int) (ref : α) (nodes : List α) : List α :=
  nodes.filter fun node => val node < val ref

/-- The nodes that stay behind `ref`. -/
def others (val : α → Int) (ref : α) (nodes : List α) : List α :=
  nodes.filter fun node => ¬val node < val ref

theorem smaller_nil (ref : α) : smaller val ref [] = [] := rfl

theorem others_nil (ref : α) : others val ref [] = [] := rfl

theorem smaller_cons_of_lt {ref node : α} (small : val node < val ref) (rest : List α) :
    smaller val ref (node :: rest) = node :: smaller val ref rest :=
  List.filter_cons_of_pos (decide_eq_true small)

theorem smaller_cons_of_not_lt {ref node : α} (big : ¬val node < val ref) (rest : List α) :
    smaller val ref (node :: rest) = smaller val ref rest :=
  List.filter_cons_of_neg (by simpa using big)

theorem others_cons_of_lt {ref node : α} (small : val node < val ref) (rest : List α) :
    others val ref (node :: rest) = others val ref rest :=
  List.filter_cons_of_neg (by simpa using small)

theorem others_cons_of_not_lt {ref node : α} (big : ¬val node < val ref) (rest : List α) :
    others val ref (node :: rest) = node :: others val ref rest :=
  List.filter_cons_of_pos (decide_eq_true big)

theorem mem_smaller {ref node : α} {nodes : List α} :
    node ∈ smaller val ref nodes ↔ node ∈ nodes ∧ val node < val ref := by
  rw [smaller, List.mem_filter, decide_eq_true_iff]

theorem mem_others {ref node : α} {nodes : List α} :
    node ∈ others val ref nodes ↔ node ∈ nodes ∧ ¬val node < val ref := by
  rw [others, List.mem_filter, decide_eq_true_iff]

theorem smaller_append_others (ref : α) (nodes : List α) :
    smaller val ref nodes ++ others val ref nodes ~ nodes := by
  have whole := List.filter_append_perm (fun node => decide (val node < val ref)) nodes
  simpa only [smaller, others, decide_not] using whole

theorem moved_perm (smalls bigs : List α) (ref node : α) (rest : List α) :
    ((smalls ++ [node]) ++ ref :: (bigs ++ rest)).Perm
      (smalls ++ ref :: (bigs ++ node :: rest)) := by
  rw [List.append_assoc]
  apply List.Perm.append_left
  calc
    [node] ++ ref :: (bigs ++ rest) = node :: ((ref :: bigs) ++ rest) := rfl
    _ ~ (ref :: bigs) ++ node :: rest := List.perm_middle.symm

variable [DecidableEq α]

/-- A node less than `ref` is moved. -/
theorem move_step {links : Links α} {head : Slot α} {ref node prev : α}
    {smalls bigs rest : List α}
    (chain : Chain links head (smalls ++ ref :: (bigs ++ node :: rest)))
    (prevLast : .next prev = last (.next ref) bigs) {after : Links α}
    (afterIs : after = ((links.set (.next prev) (links (.next node))).set
      (.next node) (some ref)).set (head.of smalls.getLast?) (some node)) :
    Chain after head ((smalls ++ [node]) ++ ref :: (bigs ++ rest)) ∧
      Confined links after head (smalls ++ ref :: (bigs ++ node :: rest)) := by
  rw [prevLast, ← last_eq] at afterIs
  constructor
  · rw [afterIs, List.append_assoc, List.singleton_append]
    exact chain.move
  · intro place outside
    rw [slots_append, slots, List.map_cons, ← slots, slots_append, slots, List.map_cons] at outside
    simp only [List.mem_append, List.mem_cons, not_or] at outside
    rw [afterIs, set_other _ _ outside.2.1, set_other _ _ outside.2.2.2.2.1,
      set_other _ _ outside.2.2.2.1]

theorem partitionLoop_spec {head : Slot α} {endNode ref : α} {fuel : Nat} {links : Links α}
    {prev : α} {smalls bigs rest : List α}
    (chain : Chain links head (smalls ++ ref :: (bigs ++ rest)))
    (prevLast : .next prev = last (.next ref) bigs) (enough : rest.length < fuel) :
    ∃ after, partitionLoop val head endNode ref fuel links smalls.getLast? prev rest.head? =
        some ((smalls ++ smaller val ref (through endNode rest)).getLast?, after) ∧
      Chain after head ((smalls ++ smaller val ref (through endNode rest)) ++
        ref :: ((bigs ++ others val ref (through endNode rest)) ++ beyond endNode rest)) ∧
      Confined links after head (smalls ++ ref :: (bigs ++ rest)) := by
  obtain ⟨fuel, rfl⟩ := Nat.exists_eq_add_one_of_ne_zero (Nat.ne_zero_of_lt enough)
  induction rest generalizing fuel links prev smalls bigs with
  | nil =>
      refine ⟨links, ?_, ?_, fun _ _ => rfl⟩
      · rw [through, smaller_nil, List.append_nil]
        rfl
      · rw [through, smaller_nil, others_nil, List.append_nil, List.append_nil]
        exact chain
  | cons node rest inductionHypothesis =>
      have next : links (.next node) = rest.head? := by
        rw [← List.cons_append, ← List.append_assoc] at chain
        exact chain.next_eq
      obtain ⟨fuel, rfl⟩ := Nat.exists_eq_add_one_of_ne_zero
        (Nat.ne_zero_of_lt (Nat.lt_of_succ_lt_succ enough))
      rw [List.head?_cons, partitionLoop]
      dsimp only
      by_cases small : val node < val ref
      · rw [if_pos small]
        obtain ⟨chainAfter, confined⟩ := move_step chain prevLast rfl
        generalize Links.set _ (head.of smalls.getLast?) _ = after at *
        by_cases stop : node = endNode
        · refine ⟨after, ?_, ?_, confined⟩
          · rw [if_pos stop, through, if_pos stop, smaller_cons_of_lt small, smaller_nil,
              List.getLast?_concat]
          · rw [through, if_pos stop, beyond, if_pos stop, smaller_cons_of_lt small,
              others_cons_of_lt small, smaller_nil, others_nil, List.append_nil]
            exact chainAfter
        · have later := @inductionHypothesis after prev (smalls ++ [node]) bigs chainAfter prevLast
            fuel (Nat.lt_of_succ_lt_succ enough)
          rw [List.getLast?_concat, ← next, List.append_assoc, List.singleton_append] at later
          obtain ⟨final, returned, chainFinal, confinedFinal⟩ := later
          refine ⟨final, ?_, ?_, ?_⟩
          · rw [if_neg stop, through_cons_of_ne stop, smaller_cons_of_lt small]
            exact returned
          · rw [through_cons_of_ne stop, beyond_cons_of_ne stop, smaller_cons_of_lt small,
              others_cons_of_lt small]
            exact chainFinal
          · exact confined.trans (confinedFinal.perm (moved_perm smalls bigs ref node rest))
      · rw [if_neg small]
        by_cases stop : node = endNode
        · refine ⟨links, ?_, ?_, fun _ _ => rfl⟩
          · rw [if_pos stop, through, if_pos stop, smaller_cons_of_not_lt small, smaller_nil,
              List.append_nil]
          · rw [through, if_pos stop, beyond, if_pos stop, smaller_cons_of_not_lt small,
              others_cons_of_not_lt small, smaller_nil, others_nil, List.append_nil,
              ← List.append_cons]
            exact chain
        · rw [List.append_cons bigs] at chain ⊢
          have nodeLast : Slot.next node = last (.next ref) (bigs ++ [node]) := by
            rw [last_append]
            rfl
          have later := @inductionHypothesis links node smalls (bigs ++ [node]) chain nodeLast
            fuel (Nat.lt_of_succ_lt_succ enough)
          rw [← next] at later
          obtain ⟨final, returned, chainFinal, confinedFinal⟩ := later
          rw [← List.append_cons bigs] at chainFinal
          refine ⟨final, ?_, ?_, confinedFinal⟩
          · rw [if_neg stop, through_cons_of_ne stop, smaller_cons_of_not_lt small]
            exact returned
          · rw [through_cons_of_ne stop, beyond_cons_of_ne stop, smaller_cons_of_not_lt small,
              others_cons_of_not_lt small]
            exact chainFinal

theorem partition_spec {head : Slot α} {endNode ref : α} {fuel : Nat} {links : Links α}
    {tail : List α} (chain : Chain links head (ref :: tail)) (enough : tail.length < fuel) :
    ∃ after, partition val fuel links head endNode =
        some ((smaller val ref (through endNode tail)).getLast?, after) ∧
      Chain after head (smaller val ref (through endNode tail) ++
        ref :: (others val ref (through endNode tail) ++ beyond endNode tail)) ∧
      Confined links after head (ref :: tail) := by
  have whole := @partitionLoop_spec α val _ head endNode ref fuel links ref [] [] tail chain rfl
    enough
  rw [← chain.2.head?_eq] at whole
  rw [partition, chain.1]
  exact whole

theorem partition_perm (endNode ref : α) (tail : List α) :
    smaller val ref (through endNode tail) ++
        ref :: (others val ref (through endNode tail) ++ beyond endNode tail) ~ ref :: tail := by
  refine List.perm_middle.trans ?_
  rw [← List.append_assoc]
  apply List.Perm.cons
  have whole := (@smaller_append_others α val ref (through endNode tail)).append_right
    (beyond endNode tail)
  rwa [through_append_beyond] at whole

/-- Where the end of the part is after `partition`: behind `ref`, or it was moved last, or it
is missing. -/
theorem end_after_partition {endNode ref : α} {tail : List α} (other : ref ≠ endNode) :
    (beyond endNode (others val ref (through endNode tail) ++ beyond endNode tail) =
        beyond endNode tail ∧ endNode ∉ smaller val ref (through endNode tail) ++ [ref]) ∨
      (smaller val ref (through endNode tail)).getLast? = some endNode ∨
      endNode ∉ smaller val ref (through endNode tail) ++
        ref :: (others val ref (through endNode tail) ++ beyond endNode tail) := by
  by_cases member : endNode ∈ tail
  · obtain ⟨front, back, rfl, first⟩ := List.eq_append_cons_of_mem member
    rw [through_eq_of_split first, beyond_eq_of_split first]
    by_cases small : val endNode < val ref
    · refine Or.inr (Or.inl ?_)
      rw [smaller, List.filter_append, ← smaller, ← smaller, smaller_cons_of_lt small,
        smaller_nil, List.getLast?_concat]
    · refine Or.inl ⟨?_, ?_⟩
      · rw [others, List.filter_append, ← others, ← others, others_cons_of_not_lt small,
          others_nil, ← List.append_cons]
        exact beyond_eq_of_split (fun again => first (mem_others.mp again).1) back
      · rw [List.mem_append, mem_smaller, List.mem_singleton]
        rintro (again | same)
        · exact small again.2
        · exact other same.symm
  · refine Or.inr (Or.inr ?_)
    rw [(partition_perm endNode ref tail).mem_iff, List.mem_cons, not_or]
    exact ⟨Ne.symm other, member⟩

/-! ### `quickSort` -/

/-- What a call leaves of the links. -/
def Leaves (val : α → Int) (links after : Links α) (head : Slot α) (rest nodes : List α) : Prop :=
  Confined links after head nodes ∧
    ∃ final, Chain after head final ∧ final ~ nodes ∧ SortedBefore val rest final

/-- A bound of the calls and the steps that a call takes. -/
def work (endNode : α) (nodes : List α) : Nat :=
  nodes.length * (nodes.length + 1) + (through endNode nodes).length

/-- With so much fuel each call does what it has to where the part before the end is not
above what is behind it. -/
def Works (val : α → Int) (fuel : Nat) : Prop :=
  ∀ (links : Links α) (head : Slot α) (endNode : α) (nodes : List α),
    Chain links head nodes → nodes ≠ [] →
      Below val (through endNode nodes) (beyond endNode nodes) → work endNode nodes < fuel →
        ∃ after, quickSort val fuel links head endNode = some after ∧
          Leaves val links after head (beyond endNode nodes) nodes

theorem through_length_le (endNode : α) (nodes : List α) :
    (through endNode nodes).length ≤ nodes.length := by
  have whole := congrArg List.length (through_append_beyond endNode nodes)
  rw [List.length_append] at whole
  omega

/-- A sorted front before what a call leaves of the rest. -/
theorem sortedBefore_append {endNode : α} {front back final rest : List α}
    (ordered : Ordered val front) (below : Below val front back)
    (bounded : Below val (through endNode back) (beyond endNode back)) (permFinal : final ~ back)
    (sorted : SortedBefore val (beyond endNode back) final)
    (ends : (beyond endNode back = rest ∧ Below val (through endNode back) rest) ∨
      beyond endNode back = [] ∨ Ordered val back) :
    SortedBefore val rest (front ++ final) := by
  have lowFinal := below.perm (List.Perm.refl front) permFinal
  rcases sorted with sorted | ⟨part, rfl, sorted⟩
  · exact Or.inl (ordered_append.mpr ⟨ordered, sorted, lowFinal⟩)
  · have lowPart : Below val front part := fun left inLeft right inRight =>
      lowFinal left inLeft right (List.mem_append_left _ inRight)
    have sortedFront := ordered_append.mpr ⟨ordered, sorted, lowPart⟩
    rcases ends with ⟨same, -⟩ | none | sortedBack
    · rw [same, ← List.append_assoc]
      exact Or.inr ⟨front ++ part, rfl, sortedFront⟩
    · rw [none, List.append_nil]
      exact Or.inl sortedFront
    · have whole := through_append_beyond endNode back
      have permPart : part ~ through endNode back :=
        (List.perm_append_right_iff (beyond endNode back)).mp
          (permFinal.trans (List.Perm.of_eq whole.symm))
      rw [← whole, ordered_append] at sortedBack
      have sortedRest := ordered_append.mpr
        ⟨sorted, sortedBack.2.1, bounded.perm permPart (List.Perm.refl _)⟩
      exact Or.inl (ordered_append.mpr ⟨ordered, sortedRest, lowFinal⟩)

/-- The second call, for what is behind the sorted front of the list. -/
theorem resume {fuel : Nat} (works : Works val fuel) {links : Links α} {head : Slot α}
    {endNode node : α} {front back rest : List α}
    (chain : Chain links head ((front ++ [node]) ++ back))
    (ordered : Ordered val (front ++ [node])) (below : Below val (front ++ [node]) back)
    (enough : ((front ++ [node]) ++ back).length * ((front ++ [node]) ++ back).length ≤ fuel)
    (ends : (beyond endNode back = rest ∧ Below val (through endNode back) rest) ∨
      beyond endNode back = [] ∨ Ordered val back) :
    ∃ after, (if (links (.next node)).isSome then quickSort val fuel links (.next node) endNode
        else some links) = some after ∧
      Leaves val links after head rest ((front ++ [node]) ++ back) := by
  have nodeLast : last head (front ++ [node]) = .next node := last_append head front [node]
  have behind := ((chain_append _ back).mp chain).2
  cases back with
  | nil =>
      rw [← nodeLast, behind.head?_eq, List.append_nil] at *
      exact ⟨links, rfl, fun _ _ => rfl, front ++ [node], chain, List.Perm.refl _, Or.inl ordered⟩
  | cons first back =>
      have bounded : Below val (through endNode (first :: back)) (beyond endNode (first :: back)) := by
        rcases ends with ⟨same, low⟩ | none | sorted
        · rwa [same]
        · rw [none]
          exact fun _ _ _ inNil => absurd inNil List.not_mem_nil
        · rw [← through_append_beyond endNode (first :: back), ordered_append] at sorted
          exact sorted.2.2
      have less : work endNode (first :: back) < fuel := by
        have part := through_length_le endNode (first :: back)
        rw [List.length_append, List.length_append, List.length_singleton] at enough
        unfold work
        nlinarith
      rw [nodeLast] at behind
      obtain ⟨after, returned, confined, final, chainFinal, permFinal, sorted⟩ :=
        works links (.next node) endNode (first :: back) behind (List.cons_ne_nil _ _) bounded less
      rw [← nodeLast] at confined chainFinal
      refine ⟨after, ?_, confined.append, (front ++ [node]) ++ final,
        chain.splice confined chainFinal, permFinal.append_left _, ?_⟩
      · rw [behind.head?_eq]
        exact returned
      · exact sortedBefore_append ordered below bounded permFinal sorted ends

/-- The second call where the first one has sorted only what is before `ref`. -/
theorem resume_parts {fuel : Nat} (works : Works val fuel) {links : Links α} {head : Slot α}
    {endNode node : α} {front between bigs rest : List α}
    (chain : Chain links head ((front ++ [node]) ++ (between ++ (bigs ++ rest))))
    (ordered : Ordered val ((front ++ [node]) ++ between))
    (below : Below val ((front ++ [node]) ++ between) (bigs ++ rest))
    (bounded : Below val bigs rest)
    (enough : ((front ++ [node]) ++ (between ++ (bigs ++ rest))).length *
      ((front ++ [node]) ++ (between ++ (bigs ++ rest))).length ≤ fuel)
    (ends : (beyond endNode (bigs ++ rest) = rest ∧ endNode ∉ between) ∨
      endNode ∉ between ++ (bigs ++ rest)) :
    ∃ after, (if (links (.next node)).isSome then quickSort val fuel links (.next node) endNode
        else some links) = some after ∧
      Leaves val links after head rest ((front ++ [node]) ++ (between ++ (bigs ++ rest))) := by
  obtain ⟨orderedFront, -, lowBetween⟩ := ordered_append.mp ordered
  have lowBack : Below val (front ++ [node]) (between ++ (bigs ++ rest)) := by
    intro left inLeft right inRight
    rcases List.mem_append.mp inRight with inBetween | inRest
    · exact lowBetween left inLeft right inBetween
    · exact below left (List.mem_append_left _ inLeft) right inRest
  apply resume works chain orderedFront lowBack enough
  rcases ends with ⟨same, missing⟩ | missing
  · left
    have back : beyond endNode (between ++ (bigs ++ rest)) = rest := by
      rw [beyond_append missing, same]
    have front : through endNode (between ++ (bigs ++ rest)) = between ++ bigs := by
      have whole := through_append_beyond endNode (between ++ (bigs ++ rest))
      rw [back] at whole
      exact List.append_cancel_right (whole.trans (List.append_assoc _ _ _).symm)
    refine ⟨back, ?_⟩
    rw [front]
    intro left inLeft right inRight
    rcases List.mem_append.mp inLeft with inBetween | inBigs
    · exact below left (List.mem_append_right _ inBetween) right (List.mem_append_right _ inRight)
    · exact bounded left inBigs right inRight
  · exact Or.inr (Or.inl (beyond_of_notMem missing))

omit [DecidableEq α] in
theorem Leaves.of_first {links between after : Links α} {head : Slot α}
    {rest nodes final : List α} (confined : Confined links between head nodes)
    (permutation : final ~ nodes) (leaves : Leaves val between after head rest final) :
    Leaves val links after head rest nodes := by
  obtain ⟨confinedLater, last, chain, permLast, sorted⟩ := leaves
  exact ⟨confined.trans (confinedLater.perm permutation), last, chain, permLast.trans permutation,
    sorted⟩

/-- What the second call of a list finds whose nodes are all in order. -/
theorem resume_sorted {fuel : Nat} (works : Works val fuel) {links : Links α} {head : Slot α}
    {endNode pos : α} {nodes : List α} (rest : List α) (chain : Chain links head nodes)
    (member : pos ∈ nodes) (ordered : Ordered val nodes)
    (enough : nodes.length * nodes.length ≤ fuel) :
    ∃ after, (match links (.next pos) with
      | some next =>
          if (links (.next next)).isSome then quickSort val fuel links (.next next) endNode
          else some links
      | none => some links) = some after ∧ Leaves val links after head rest nodes := by
  obtain ⟨before, behind, rfl⟩ := List.append_of_mem member
  have next : links (.next pos) = behind.head? := ((chain_append _ _).mp chain).2.2.head?_eq
  rw [next]
  cases behind with
  | nil => exact ⟨links, rfl, fun _ _ => rfl, _, chain, List.Perm.refl _, Or.inl ordered⟩
  | cons next behind =>
      rw [List.append_cons, List.append_cons] at chain ordered enough ⊢
      obtain ⟨orderedFront, orderedBack, below⟩ := ordered_append.mp ordered
      exact resume works chain orderedFront below enough (Or.inr (Or.inr orderedBack))

/-- What the second call finds where the first one has sorted the nodes before `ref`. -/
theorem resume_front {fuel : Nat} (works : Works val fuel) {links : Links α} {head : Slot α}
    {endNode ref pos : α} {smalls bigs rest : List α}
    (chain : Chain links head (smalls ++ ref :: (bigs ++ rest))) (member : pos ∈ smalls)
    (ordered : Ordered val (smalls ++ [ref])) (below : Below val (smalls ++ [ref]) (bigs ++ rest))
    (bounded : Below val bigs rest)
    (enough : (smalls ++ ref :: (bigs ++ rest)).length *
      (smalls ++ ref :: (bigs ++ rest)).length ≤ fuel)
    (ends : (beyond endNode (bigs ++ rest) = rest ∧ endNode ∉ smalls ++ [ref]) ∨
      pos = endNode ∨ endNode ∉ smalls ++ ref :: (bigs ++ rest)) :
    ∃ after, (match links (.next pos) with
      | some next =>
          if (links (.next next)).isSome then quickSort val fuel links (.next next) endNode
          else some links
      | none => some links) = some after ∧
        Leaves val links after head rest (smalls ++ ref :: (bigs ++ rest)) := by
  obtain ⟨before, later, rfl⟩ := List.append_of_mem member
  obtain ⟨next, between, split⟩ : ∃ next between, later ++ [ref] = next :: between := by
    cases later with
    | nil => exact ⟨ref, [], rfl⟩
    | cons next later => exact ⟨next, later ++ [ref], rfl⟩
  have front : (before ++ pos :: later) ++ [ref] = ((before ++ [pos]) ++ [next]) ++ between := by
    rw [List.append_assoc, List.cons_append, split, List.append_cons, List.append_cons]
  have whole : (before ++ pos :: later) ++ ref :: (bigs ++ rest) =
      ((before ++ [pos]) ++ [next]) ++ (between ++ (bigs ++ rest)) := by
    rw [List.append_cons, front, List.append_assoc]
  rw [whole] at chain enough ends ⊢
  rw [front] at ordered below ends
  have nextIs : links (.next pos) = some next := by
    rw [List.append_assoc, List.append_assoc] at chain
    exact ((chain_append _ _).mp chain).2.2.1
  rw [nextIs]
  apply resume_parts works chain ordered below bounded enough
  rcases ends with ⟨same, missing⟩ | rfl | missing
  · exact Or.inl ⟨same, fun inBetween => missing (List.mem_append_right _ inBetween)⟩
  · have inFront : pos ∈ (before ++ [pos]) ++ [next] :=
      List.mem_append_left _ (List.mem_append_right _ List.mem_cons_self)
    exact Or.inr (fun again => (List.nodup_append'.mp chain.nodup).2.2 inFront again)
  · exact Or.inr (fun inBack => missing (List.mem_append_right _ inBack))

/-- The two calls where `partition` has moved a node. -/
theorem works_some {fuel : Nat} (works : Works val fuel) {links : Links α} {head : Slot α}
    {endNode ref pos : α} {smalls bigs rest : List α}
    (chain : Chain links head ((smalls ++ [pos]) ++ ref :: (bigs ++ rest)))
    (lowSmalls : Below val (smalls ++ [pos]) (ref :: (bigs ++ rest)))
    (lowRef : Below val [ref] (bigs ++ rest)) (bounded : Below val bigs rest)
    {length : Nat} (lengthIs : ((smalls ++ [pos]) ++ ref :: (bigs ++ rest)).length = length)
    (enough : length * (length + 1) + (smalls ++ [pos]).length < fuel)
    (ends : (beyond endNode (bigs ++ rest) = rest ∧ endNode ∉ (smalls ++ [pos]) ++ [ref]) ∨
      pos = endNode ∨ endNode ∉ (smalls ++ [pos]) ++ ref :: (bigs ++ rest)) :
    ∃ after, (do
        let links ← quickSort val fuel links head pos
        match links (.next pos) with
        | some next =>
            if (links (.next next)).isSome then quickSort val fuel links (.next next) endNode
            else some links
        | none => some links) = some after ∧
      Leaves val links after head rest ((smalls ++ [pos]) ++ ref :: (bigs ++ rest)) := by
  have inFront : pos ∈ smalls ++ [pos] := List.mem_append_right _ List.mem_cons_self
  have new : pos ∉ smalls := by
    have distinct := (List.nodup_append'.mp chain.nodup).1
    exact fun again => (List.nodup_append'.mp distinct).2.2 again List.mem_cons_self
  have front : through pos ((smalls ++ [pos]) ++ ref :: (bigs ++ rest)) = smalls ++ [pos] := by
    rw [← List.append_cons]
    exact through_eq_of_split new _
  have back : beyond pos ((smalls ++ [pos]) ++ ref :: (bigs ++ rest)) = ref :: (bigs ++ rest) := by
    rw [← List.append_cons]
    exact beyond_eq_of_split new _
  have first : work pos ((smalls ++ [pos]) ++ ref :: (bigs ++ rest)) < fuel := by
    rwa [work, front, lengthIs]
  obtain ⟨between, returned, confined, final, chainFinal, permutation, sorted⟩ :=
    works links head pos _ chain (List.append_ne_nil_of_right_ne_nil _ (List.cons_ne_nil _ _))
      (by rwa [front, back]) first
  have squared : final.length * final.length ≤ fuel := by
    rw [permutation.length_eq, lengthIs]
    nlinarith
  rw [returned]
  rw [back] at sorted
  cases sorted with
  | inl ordered =>
      have member := permutation.mem_iff.mpr (List.mem_append_left (ref :: (bigs ++ rest)) inFront)
      obtain ⟨after, resumed, leaves⟩ := @resume_sorted α val _ fuel works between head endNode pos
        final rest chainFinal member ordered squared
      exact ⟨after, resumed, leaves.of_first confined permutation⟩
  | inr sortedFront =>
      obtain ⟨sorted, rfl, ordered⟩ := sortedFront
      have permFront := (List.perm_append_right_iff _).mp permutation
      have permRef := permFront.append_right [ref]
      have orderedRef : Ordered val (sorted ++ [ref]) := by
        refine ordered_append.mpr ⟨ordered, List.pairwise_singleton _ _, ?_⟩
        intro left inLeft right inRight
        exact lowSmalls left (permFront.subset inLeft) right
          (List.mem_cons.mpr (Or.inl (List.mem_singleton.mp inRight)))
      have below : Below val (sorted ++ [ref]) (bigs ++ rest) := by
        intro left inLeft right inRight
        rcases List.mem_append.mp inLeft with inSorted | isRef
        · exact lowSmalls left (permFront.subset inSorted) right (List.mem_cons_of_mem ref inRight)
        · exact lowRef left isRef right inRight
      rw [← permRef.mem_iff, ← permutation.mem_iff] at ends
      obtain ⟨after, resumed, leaves⟩ := @resume_front α val _ fuel works between head endNode ref
        pos sorted bigs rest chainFinal (permFront.mem_iff.mpr inFront) orderedRef below bounded
        squared ends
      exact ⟨after, resumed, leaves.of_first confined permutation⟩

/-- The only call where `partition` has moved no node. -/
theorem works_none {fuel : Nat} (works : Works val fuel) {links : Links α} {head : Slot α}
    {endNode ref : α} {bigs rest : List α} (chain : Chain links head (ref :: (bigs ++ rest)))
    (lowRef : Below val [ref] (bigs ++ rest)) (bounded : Below val bigs rest)
    {length : Nat} (lengthIs : (ref :: (bigs ++ rest)).length = length)
    (enough : length * (length + 1) < fuel)
    (ends : beyond endNode (bigs ++ rest) = rest ∨ endNode ∉ ref :: (bigs ++ rest)) :
    ∃ after, (do
        let first ← links head
        if (links (.next first)).isSome then quickSort val fuel links (.next first) endNode
        else some links) = some after ∧
      Leaves val links after head rest (ref :: (bigs ++ rest)) := by
  have squared : (ref :: (bigs ++ rest)).length * (ref :: (bigs ++ rest)).length ≤ fuel := by
    rw [lengthIs]
    nlinarith
  have parts : (beyond endNode (bigs ++ rest) = rest ∧ endNode ∉ ([] : List α)) ∨
      endNode ∉ [] ++ (bigs ++ rest) := by
    rcases ends with same | outside
    · exact Or.inl ⟨same, List.not_mem_nil⟩
    · exact Or.inr (fun again => outside (List.mem_cons_of_mem ref again))
  rw [chain.1]
  exact @resume_parts α val _ fuel works links head endNode ref [] [] bigs rest chain
    (List.pairwise_singleton _ _) lowRef bounded squared parts

/-- What `partition` leaves is in order apart from the order on each side. -/
theorem below_after_partition {endNode ref : α} {tail : List α}
    (bounded : Below val (ref :: through endNode tail) (beyond endNode tail)) :
    Below val (smaller val ref (through endNode tail))
        (ref :: (others val ref (through endNode tail) ++ beyond endNode tail)) ∧
      Below val [ref] (others val ref (through endNode tail) ++ beyond endNode tail) ∧
      Below val (others val ref (through endNode tail)) (beyond endNode tail) := by
  have lowRef : Below val [ref] (others val ref (through endNode tail) ++ beyond endNode tail) := by
    intro left isRef right inRight
    obtain rfl := List.mem_singleton.mp isRef
    rcases List.mem_append.mp inRight with big | behind
    · exact not_lt.mp (mem_others.mp big).2
    · exact bounded left List.mem_cons_self right behind
  refine ⟨?_, lowRef, ?_⟩
  · intro left small right inRight
    have less := le_of_lt (mem_smaller.mp small).2
    rcases List.mem_cons.mp inRight with rfl | inRight
    · exact less
    · exact less.trans (lowRef ref List.mem_cons_self right inRight)
  · intro left big right behind
    exact bounded left (List.mem_cons_of_mem ref (mem_others.mp big).1) right behind

theorem quickSort_works (fuel : Nat) : Works val fuel := by
  induction fuel with
  | zero =>
      intro links head endNode nodes chain nonempty bounded enough
      exact absurd enough (Nat.not_lt_zero _)
  | succ fuel works =>
      intro links head endNode nodes chain nonempty bounded enough
      obtain ⟨ref, tail, rfl⟩ := List.exists_cons_of_ne_nil nonempty
      rw [quickSort, chain.1]
      by_cases only : ref = endNode
      · refine ⟨links, if_pos (congrArg some only), fun _ _ => rfl, ref :: tail, chain,
          List.Perm.refl _, Or.inr ⟨[ref], ?_, List.pairwise_singleton _ _⟩⟩
        rw [beyond, if_pos only]
        rfl
      · rw [if_neg (fun same => only (Option.some.inj same)), beyond_cons_of_ne only]
        rw [through_cons_of_ne only, beyond_cons_of_ne only] at bounded
        rw [work, through_cons_of_ne only] at enough
        have enoughTail : tail.length < fuel := by
          rw [List.length_cons, List.length_cons] at enough
          nlinarith
        obtain ⟨between, partitioned, chainBetween, confined⟩ :=
          @partition_spec α val _ head endNode ref fuel links tail chain enoughTail
        obtain ⟨lowSmalls, lowRef, lowBigs⟩ := below_after_partition bounded
        have permutation := @partition_perm α val _ endNode ref tail
        have ends := @end_after_partition α val _ endNode ref tail only
        have fewer : (smaller val ref (through endNode tail)).length ≤
            (through endNode tail).length := List.length_filter_le _ _
        rw [partitioned]
        generalize smaller val ref (through endNode tail) = smalls at *
        generalize others val ref (through endNode tail) = bigs at *
        generalize beyond endNode tail = rest at *
        have length := permutation.length_eq
        have enoughParts : (ref :: tail).length * ((ref :: tail).length + 1) + smalls.length <
            fuel := by
          have part : (ref :: through endNode tail).length = (through endNode tail).length + 1 := rfl
          omega
        cases List.eq_nil_or_concat smalls with
        | inl none =>
            subst none
            have outside : beyond endNode (bigs ++ rest) = rest ∨
                endNode ∉ ref :: (bigs ++ rest) := by
              rcases ends with ⟨same, -⟩ | last | outside
              · exact Or.inl same
              · cases last
              · exact Or.inr outside
            obtain ⟨after, returned, leaves⟩ :=
              works_none works chainBetween lowRef lowBigs length (by omega) outside
            exact ⟨after, returned, leaves.of_first confined permutation⟩
        | inr some =>
            obtain ⟨smalls, pos, rfl⟩ := some
            rw [List.concat_eq_append] at *
            rw [List.getLast?_concat, Option.some.injEq] at ends
            obtain ⟨after, returned, leaves⟩ :=
              works_some works chainBetween lowSmalls lowRef lowBigs length enoughParts ends
            refine ⟨after, ?_, leaves.of_first confined permutation⟩
            rw [List.getLast?_concat]
            exact returned

/-- A call for all nodes up to the last one sorts all of them. -/
theorem quickSort_sorts {links : Links α} {head : Slot α} {nodes : List α}
    (chain : Chain links head nodes) {tail : α} (last : nodes.getLast? = some tail) {fuel : Nat}
    (enough : nodes.length * (nodes.length + 2) < fuel) :
    ∃ sorted after, quickSort val fuel links head tail = some after ∧ Chain after head sorted ∧
      Ordered val sorted ∧ sorted ~ nodes := by
  obtain ⟨front, rfl⟩ := List.getLast?_eq_some_iff.mp last
  have new : tail ∉ front :=
    fun again => (List.nodup_append'.mp chain.nodup).2.2 again List.mem_cons_self
  have nothing : beyond tail (front ++ [tail]) = [] := beyond_eq_of_split new []
  have bounded : Below val (through tail (front ++ [tail])) (beyond tail (front ++ [tail])) := by
    rw [nothing]
    exact fun _ _ _ inNil => absurd inNil List.not_mem_nil
  have less : work tail (front ++ [tail]) < fuel := by
    rw [work, through_eq_of_split new []]
    nlinarith
  obtain ⟨after, returned, -, sorted, chainAfter, permutation, order⟩ :=
    quickSort_works fuel links head tail _ chain
      (List.append_ne_nil_of_right_ne_nil _ (List.cons_ne_nil _ _)) bounded less
  refine ⟨sorted, after, returned, chainAfter, ?_, permutation⟩
  rw [nothing] at order
  rcases order with ordered | ⟨part, rfl, ordered⟩
  · exact ordered
  · rwa [List.append_nil]

/-! ### `sortList` -/

omit [DecidableEq α] in
theorem lastNode_spec {links : Links α} {slot : Slot α} {fuel : Nat} {first : α} {rest : List α}
    (chain : Chain links slot (first :: rest)) (enough : rest.length < fuel) :
    ∃ tail, lastNode links fuel first = some tail ∧ (first :: rest).getLast? = some tail := by
  obtain ⟨fuel, rfl⟩ := Nat.exists_eq_add_one_of_ne_zero (Nat.ne_zero_of_lt enough)
  induction rest generalizing slot fuel first with
  | nil =>
      have next : links (.next first) = none := chain.2
      refine ⟨first, ?_, rfl⟩
      rw [lastNode, next]
  | cons second rest inductionHypothesis =>
      obtain ⟨fuel, rfl⟩ := Nat.exists_eq_add_one_of_ne_zero
        (Nat.ne_zero_of_lt (Nat.lt_of_succ_lt_succ enough))
      obtain ⟨tail, returned, last⟩ :=
        inductionHypothesis chain.2 fuel (Nat.lt_of_succ_lt_succ enough)
      refine ⟨tail, ?_, ?_⟩
      · rw [lastNode, chain.2.1]
        exact returned
      · rw [List.getLast?_cons_cons]
        exact last

/-- A list that ends is sorted with its own nodes, in a number of steps that depends on its
length only. -/
theorem sortList_sorts (val : α → Int) (links : Links α) (nodes : List α)
    (chain : Chain links .root nodes) :
    ∀ fuel > nodes.length * (nodes.length + 2), ∃ sorted after,
      sortList val fuel links = some (after .root, after) ∧ Chain after .root sorted ∧
        Ordered val sorted ∧ sorted ~ nodes ∧ sorted.Nodup := by
  intro fuel enough
  cases nodes with
  | nil =>
      refine ⟨[], links, ?_, chain, List.Pairwise.nil, List.Perm.refl _, List.nodup_nil⟩
      have first : links .root = none := chain
      rw [sortList, first]
  | cons first rest =>
      rw [sortList, chain.1]
      cases rest with
      | nil =>
          have next : links (.next first) = none := chain.2
          refine ⟨[first], links, ?_, chain, List.pairwise_singleton _ _, List.Perm.refl _,
            List.nodup_singleton _⟩
          rw [chain.1]
          exact if_pos next
      | cons second rest =>
          have longer : (second :: rest).length < fuel := by
            rw [List.length_cons] at enough
            nlinarith
          obtain ⟨tail, found, last⟩ := lastNode_spec chain longer
          obtain ⟨sorted, after, returned, chainAfter, ordered, permutation⟩ :=
            @quickSort_sorts α val _ links .root _ chain tail last fuel enough
          refine ⟨sorted, after, ?_, chainAfter, ordered, permutation, chainAfter.nodup⟩
          have next : links (.next first) ≠ none := by
            rw [chain.2.1]
            exact Option.some_ne_none second
          dsimp only
          rw [if_neg next, found]
          change (quickSort val fuel links .root tail).bind _ = _
          rw [returned]
          rfl

/-- A node with 3 before a node with 1. -/
def twoNodes : Links Nat
  | .root => some 0
  | .next 0 => some 1
  | .next _ => none

theorem sortList_sorts_twoNodes :
    ∃ sorted after, sortList (fun node => if node = 0 then 3 else 1) 9 twoNodes =
        some (after .root, after) ∧ Chain after .root sorted ∧
      Ordered (fun node => if node = 0 then 3 else 1) sorted ∧ sorted ~ [0, 1] ∧ sorted.Nodup :=
  sortList_sorts _ twoNodes [0, 1] ⟨rfl, rfl, rfl⟩ 9 (by decide)

end ListQuickSort

end StdPrograms.Hobbies

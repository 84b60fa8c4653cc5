import StdPrograms.Foundation.LinkedList

/-!
Contract: turning a part of a linked list round in one pass.

Owns `reverseBetween` of `solution_92.cpp`, which nodes it turns round for any two positions, also
those outside the list, and that a second call with the same positions undoes the first.

Does not own the values of the nodes.
-/

namespace StdPrograms.Hobbies

open scoped List
open StdPrograms.Foundation StdPrograms.Foundation.Links

namespace ReverseBetween

variable {α : Type}

section Code

/-- The first loop: `prev`, which points to a place, `cur` and `pos`. -/
def findPosition (links : Links α) (m : Int) :
    Nat → Slot α → Option α → Int → Option (Slot α × Option α × Int)
  | 0, _, _, _ => none
  | _ + 1, prev, none, pos => some (prev, none, pos)
  | fuel + 1, prev, some cur, pos =>
      if pos < m then findPosition links m fuel (.next cur) (links (.next cur)) (pos + 1)
      else some (prev, some cur, pos)

variable [DecidableEq α]

/-- The second loop: the links and `pos_node`. -/
def turnLoop (n : Int) (tail : α) : Nat → Links α → α → Int → Option (Links α × α)
  | 0, _, _, _ => none
  | fuel + 1, links, posNode, pos =>
      match links (.next tail) with
      | none => some (links, posNode)
      | some cur =>
          if pos < n then
            let links := links.set (.next tail) (links (.next cur))
            let links := links.set (.next cur) (some posNode)
            turnLoop n tail fuel links cur (pos + 1)
          else some (links, posNode)

/-- The node that is returned, and the links. The parameter `head` is one of them. -/
def reverseBetween (fuel : Nat) (links : Links α) (m n : Int) : Option (Option α × Links α) := do
  let (prev, cur, pos) ← findPosition links m fuel .root (links .root) 1
  match cur with
  | none => return (links .root, links)
  | some cur =>
      let (links, posNode) ← turnLoop n cur fuel links cur pos
      let links := links.set prev (some posNode)
      return (links .root, links)

end Code

/-! ### The order of the nodes -/

/-- The first elements of a list in the other order. -/
def turnFront (count : Nat) (nodes : List α) : List α :=
  (nodes.take count).reverse ++ nodes.drop count

/-- The elements at the positions from `m` to `n` in the other order. -/
def reversedBetween (m n : Int) (nodes : List α) : List α :=
  nodes.take (m - 1).toNat ++ turnFront (n - max (m - 1) 0).toNat (nodes.drop (m - 1).toNat)

theorem turnFront_perm (count : Nat) (nodes : List α) : turnFront count nodes ~ nodes := by
  have whole := (List.reverse_perm (nodes.take count)).append_right (nodes.drop count)
  rwa [List.take_append_drop] at whole

theorem turnFront_turnFront (count : Nat) (nodes : List α) :
    turnFront count (turnFront count nodes) = nodes := by
  by_cases short : nodes.length ≤ count
  · have same := (turnFront_perm count nodes).length_eq
    rw [turnFront, List.take_of_length_le (by rwa [same]),
      List.drop_eq_nil_of_le (by rwa [same]), turnFront,
      List.take_of_length_le short, List.drop_eq_nil_of_le short, List.append_nil,
      List.append_nil, List.reverse_reverse]
  · have size : (nodes.take count).reverse.length = count := by
      rw [List.length_reverse, List.length_take_of_le (Nat.le_of_not_le short)]
    rw [turnFront, turnFront, List.take_left' size, List.drop_left' size, List.reverse_reverse,
      List.take_append_drop]

theorem turnFront_cons (count : Nat) (cur : α) (behind : List α) :
    turnFront count (cur :: behind) =
      (behind.take (count - 1)).reverse ++ cur :: behind.drop (count - 1) := by
  cases count with
  | zero => rfl
  | succ count =>
      rw [turnFront, List.take_succ_cons, List.drop_succ_cons, List.reverse_cons,
        List.append_assoc]
      rfl

theorem reversedBetween_append {m : Int} (n : Int) {front : List α} (behind : List α)
    (before : front.length = (m - 1).toNat) :
    reversedBetween m n (front ++ behind) =
      front ++ turnFront (n - max (m - 1) 0).toNat behind := by
  rw [reversedBetween, List.take_left' before, List.drop_left' before]

theorem reversedBetween_of_le {m : Int} (n : Int) {nodes : List α}
    (outside : nodes.length ≤ (m - 1).toNat) : reversedBetween m n nodes = nodes := by
  rw [reversedBetween, List.take_of_length_le outside, List.drop_eq_nil_of_le outside, turnFront,
    List.take_nil, List.drop_nil, List.reverse_nil, List.append_nil, List.append_nil]

theorem reversedBetween_reversedBetween (m n : Int) (nodes : List α) :
    reversedBetween m n (reversedBetween m n nodes) = nodes := by
  by_cases outside : nodes.length ≤ (m - 1).toNat
  · rw [reversedBetween_of_le n outside, reversedBetween_of_le n outside]
  · have before := List.length_take_of_le (Nat.le_of_not_le outside)
    have inner : reversedBetween m n nodes = nodes.take (m - 1).toNat ++
        turnFront (n - max (m - 1) 0).toNat (nodes.drop (m - 1).toNat) := rfl
    rw [inner, reversedBetween_append n _ before, turnFront_turnFront, List.take_append_drop]

theorem reversedBetween_perm (m n : Int) (nodes : List α) : reversedBetween m n nodes ~ nodes := by
  have turned := turnFront_perm (n - max (m - 1) 0).toNat (nodes.drop (m - 1).toNat)
  have whole := turned.append_left (nodes.take (m - 1).toNat)
  rwa [List.take_append_drop] at whole

/-! ### The loops -/

/-- Where the first loop stops: at the node at position `m`, or behind the list. -/
theorem findPosition_spec {links : Links α} {m : Int} {fuel : Nat} {prev : Slot α}
    {nodes : List α} (chain : Chain links prev nodes) (pos : Int) (enough : nodes.length < fuel) :
    findPosition links m fuel prev nodes.head? pos =
      some (last prev (nodes.take (m - pos).toNat), (nodes.drop (m - pos).toNat).head?,
        pos + min (m - pos).toNat nodes.length) := by
  induction nodes generalizing fuel prev pos with
  | nil =>
      obtain ⟨fuel, rfl⟩ := Nat.exists_eq_add_one_of_ne_zero (Nat.ne_zero_of_lt enough)
      rw [List.take_nil, List.drop_nil, List.length_nil, Nat.min_zero]
      simp [findPosition, last]
  | cons cur rest inductionHypothesis =>
      obtain ⟨fuel, rfl⟩ := Nat.exists_eq_add_one_of_ne_zero (Nat.ne_zero_of_lt enough)
      rw [List.head?_cons, findPosition]
      split
      next before =>
        obtain ⟨steps, count⟩ : ∃ steps, (m - pos).toNat = steps + 1 :=
          ⟨(m - pos).toNat - 1, by omega⟩
        have fewer : (m - (pos + 1)).toNat = steps := by omega
        have position : pos + 1 + (min steps rest.length : Nat) =
            pos + (min steps rest.length + 1 : Nat) := by omega
        rw [chain.2.head?_eq, inductionHypothesis chain.2 (pos + 1)
          (Nat.lt_of_succ_lt_succ enough), fewer, count, List.take_succ_cons, List.drop_succ_cons,
          List.length_cons, Nat.add_min_add_right, position]
        rfl
      next reached =>
        have none : (m - pos).toNat = 0 := by omega
        simp [none, last]

variable [DecidableEq α]

/-- What one round of the second loop does: seen from `prev`, as it will be set afterwards, the
node behind `tail` is put before all the others. -/
theorem turned_once {links : Links α} {prev : Slot α} {posNode tail cur : α}
    {turned behind : List α}
    (chain : Chain (links.set prev (some posNode)) prev (posNode :: (turned ++ cur :: behind)))
    (isTail : last (.next posNode) turned = .next tail) :
    Chain (((links.set (.next tail) (links (.next cur))).set (.next cur) (some posNode)).set
        prev (some cur))
      prev (cur :: posNode :: (turned ++ behind)) := by
  have places := @Chain.move_places α _ _ [] turned behind posNode cur chain
  have moved := @Chain.move α _ _ _ [] turned behind posNode cur chain
  rw [isTail] at moved places
  change prev ≠ .next cur ∧ prev ≠ .next tail ∧ _ at places
  change Chain (Links.set _ prev (some cur)) prev _ at moved
  rwa [set_other _ _ (Ne.symm places.1), set_comm _ _ _ (Ne.symm places.2.1),
    set_comm _ _ _ (Ne.symm places.1), set_set] at moved

omit [DecidableEq α] in
theorem last_mem_nodes (posNode : α) (turned behind : List α) :
    last (.next posNode) turned ∈ (posNode :: (turned ++ behind)).map Slot.next :=
  List.map_subset Slot.next (List.cons_subset_cons posNode (List.subset_append_left turned behind))
    (last_mem_slots _ turned)

/-- What the second loop reads at `tail`, although `prev` is not set yet. -/
theorem next_tail {links : Links α} {prev : Slot α} {posNode tail : α} {turned behind : List α}
    (chain : Chain (links.set prev (some posNode)) prev (posNode :: (turned ++ behind)))
    (isTail : last (.next posNode) turned = .next tail) :
    links (.next tail) = behind.head? := by
  have toBehind := ((chain_append turned behind).mp chain.2).2.head?_eq
  rwa [isTail, set_other] at toBehind
  intro same
  apply (List.nodup_cons.mp chain.nodup_slots).1
  rw [← same, ← isTail]
  exact last_mem_nodes posNode turned behind

/-- The second loop puts the nodes behind `tail` up to position `n` before the others, one after
the other, and writes to no other place than those of the nodes behind `prev`. -/
theorem turnLoop_spec {n : Int} {tail : α} {fuel : Nat} {links : Links α} {prev : Slot α}
    {posNode : α} {turned behind : List α} (pos : Int)
    (chain : Chain (links.set prev (some posNode)) prev (posNode :: (turned ++ behind)))
    (isTail : last (.next posNode) turned = .next tail) (enough : behind.length < fuel) :
    ∃ after first, turnLoop n tail fuel links posNode pos = some (after, first) ∧
      Chain (after.set prev (some first)) prev
        ((behind.take (n - pos).toNat).reverse ++
          (posNode :: (turned ++ behind.drop (n - pos).toNat))) ∧
      Confined links after prev (posNode :: (turned ++ behind)) := by
  induction behind generalizing fuel links posNode turned pos with
  | nil =>
      obtain ⟨fuel, rfl⟩ := Nat.exists_eq_add_one_of_ne_zero (Nat.ne_zero_of_lt enough)
      refine ⟨links, posNode, ?_, ?_, fun _ _ => rfl⟩
      · rw [turnLoop, next_tail chain isTail, List.head?_nil]
      · rw [List.take_nil, List.drop_nil]
        exact chain
  | cons cur behind inductionHypothesis =>
      obtain ⟨fuel, rfl⟩ := Nat.exists_eq_add_one_of_ne_zero (Nat.ne_zero_of_lt enough)
      rw [turnLoop, next_tail chain isTail, List.head?_cons]
      dsimp only
      split
      next more =>
        obtain ⟨steps, count⟩ : ∃ steps, (n - pos).toNat = steps + 1 :=
          ⟨(n - pos).toNat - 1, by omega⟩
        have fewer : (n - (pos + 1)).toNat = steps := by omega
        obtain ⟨after, first, returned, whole, confined⟩ := @inductionHypothesis fuel _ cur
          (posNode :: turned) (pos + 1) (turned_once chain isTail) isTail
          (Nat.lt_of_succ_lt_succ enough)
        rw [fewer] at whole
        refine ⟨after, first, returned, ?_, ?_⟩
        · rw [count, List.take_succ_cons, List.drop_succ_cons, List.reverse_cons,
            List.append_assoc]
          exact whole
        · have order : cur :: posNode :: (turned ++ behind) ~ posNode :: (turned ++ cur :: behind) :=
            (@List.perm_middle α cur (posNode :: turned) behind).symm
          apply Confined.trans _ (confined.perm order)
          intro place outside
          rw [slots, List.mem_cons, not_or] at outside
          have atTail := last_mem_nodes posNode turned (cur :: behind)
          rw [isTail] at atTail
          have atCur : Slot.next cur ∈ (posNode :: (turned ++ cur :: behind)).map Slot.next :=
            List.mem_map_of_mem (by simp)
          rw [set_other _ _ fun same => outside.2 (by rwa [same]),
            set_other _ _ fun same => outside.2 (by rwa [same])]
      next reached =>
        have none : (n - pos).toNat = 0 := by omega
        refine ⟨links, posNode, rfl, ?_, fun _ _ => rfl⟩
        rw [none, List.take_zero, List.drop_zero]
        exact chain

/-- What a call does for any two numbers, also for those that are no positions of the list. -/
theorem reverseBetween_spec {fuel : Nat} {links : Links α} {nodes : List α} (m n : Int)
    (chain : Chain links .root nodes) (enough : nodes.length < fuel) :
    ∃ after, reverseBetween fuel links m n = some (after .root, after) ∧
      Chain after .root (reversedBetween m n nodes) ∧ Confined links after .root nodes := by
  have found := @findPosition_spec α links m fuel .root nodes chain 1 enough
  rw [← chain.head?_eq] at found
  by_cases outside : nodes.length ≤ (m - 1).toNat
  · refine ⟨links, ?_, ?_, fun _ _ => rfl⟩
    · rw [reverseBetween, found, List.drop_eq_nil_of_le outside]
      rfl
    · rwa [reversedBetween_of_le n outside]
  · have before := List.length_take_of_le (Nat.le_of_not_le outside)
    obtain ⟨cur, behind, behindIs⟩ := @List.exists_cons_of_length_pos _
      (nodes.drop (m - 1).toNat) (by rw [List.length_drop]; omega)
    have whole := List.take_append_drop (m - 1).toNat nodes
    rw [behindIs] at whole found
    generalize nodes.take (m - 1).toNat = front at before whole found
    subst whole
    have fromCur := (chain_append _ _).mp chain
    have unset : links.set (last .root front) (some cur) = links := by
      rw [← fromCur.2.1, set_self]
    rw [List.length_append, List.length_cons, min_eq_left (by omega)] at found
    obtain ⟨between, first, returned, turned, confined⟩ := @turnLoop_spec α _ n cur fuel links
      (last .root front) cur [] behind (1 + (m - 1).toNat) (by rw [unset]; exact fromCur.2) rfl
      (by rw [List.length_append, List.length_cons] at enough; omega)
    have count : (n - (1 + (m - 1).toNat)).toNat = (n - max (m - 1) 0).toNat - 1 := by omega
    rw [List.nil_append, count, ← turnFront_cons] at turned
    have confinedAfter : Confined links (between.set (last .root front) (some first))
        (last .root front) (cur :: behind) := by
      apply confined.trans
      intro place elsewhere
      exact set_other _ _ fun same => elsewhere (same ▸ List.mem_cons_self)
    refine ⟨_, ?_, ?_, confinedAfter.append⟩
    · rw [reverseBetween, found]
      simp only [Option.bind_eq_bind, Option.bind_some, List.head?_cons, returned]
      rfl
    · rw [reversedBetween_append n _ before]
      exact chain.splice confinedAfter turned

/-- For any two numbers the nodes of a list from the one position to the other are turned round,
no other place than those of its nodes is written to, and a second call undoes all that. -/
theorem reverseBetween_reverses {fuel : Nat} {links : Links α} {nodes : List α} (m n : Int)
    (chain : Chain links .root nodes) (enough : nodes.length < fuel) :
    ∃ after, reverseBetween fuel links m n = some (after .root, after) ∧
      Chain after .root (reversedBetween m n nodes) ∧ Confined links after .root nodes ∧
      reverseBetween fuel after m n = some (links .root, links) := by
  obtain ⟨between, returned, turned, confined⟩ := reverseBetween_spec m n chain enough
  have same := reversedBetween_perm m n nodes
  obtain ⟨after, returnedAgain, back, confinedAgain⟩ := reverseBetween_spec m n turned
    (same.length_eq ▸ enough)
  rw [reversedBetween_reversedBetween] at back
  obtain rfl := (confined.trans (confinedAgain.perm same)).unique chain back
  exact ⟨between, returned, turned, confined, returnedAgain⟩

/-- Five nodes in a row. -/
def fiveNodes : Links Nat
  | .root => some 1
  | .next node => if node < 5 then some (node + 1) else none

theorem reverseBetween_reverses_fiveNodes :
    ∃ after, reverseBetween 6 fiveNodes 2 4 = some (after .root, after) ∧
      Chain after .root (reversedBetween 2 4 [1, 2, 3, 4, 5]) ∧
      Confined fiveNodes after .root [1, 2, 3, 4, 5] ∧
      reverseBetween 6 after 2 4 = some (fiveNodes .root, fiveNodes) :=
  reverseBetween_reverses 2 4 ⟨rfl, rfl, rfl, rfl, rfl, rfl⟩ (by decide)

example : reversedBetween 2 4 [1, 2, 3, 4, 5] = [1, 4, 3, 2, 5] := by decide

end ReverseBetween

end StdPrograms.Hobbies

import StdPrograms.Foundation.LinkedList

/-!
Contract: a linked list divided at a value.

Owns `partition` of `solution_86.cpp`, that it leaves the smaller nodes before the others with both
in their old order, and which places it writes to.

The nodes `first` and `second` are the two local ones. Does not own their values, which nothing
reads.
-/

namespace StdPrograms.Hobbies

open scoped List
open StdPrograms.Foundation StdPrograms.Foundation.Links

namespace Partition

variable {α : Type} (val : α → Int) (x : Int)

section Code

variable [DecidableEq α]

/-- The loop: the links, and the places that `middle` and `end` point to. -/
def partitionLoop : Nat → Links α → (middle ending : Slot α) → Option α →
    Option (Links α × Slot α × Slot α)
  | 0, _, _, _, _ => none
  | _ + 1, links, middle, ending, none => some (links, middle, ending)
  | fuel + 1, links, middle, ending, some tmp =>
      let node := links (.next tmp)
      if val tmp < x then partitionLoop fuel (links.set middle (some tmp)) (.next tmp) ending node
      else partitionLoop fuel (links.set ending (some tmp)) middle (.next tmp) node

/-- The node that is returned, and the links. -/
def partition (fuel : Nat) (links : Links α) (head : Option α) (first second : α) :
    Option (Option α × Links α) := do
  let links := (links.set (.next first) none).set (.next second) none
  let (links, middle, ending) ←
    partitionLoop val x fuel links (.next first) (.next second) head
  let links := links.set middle (links (.next second))
  let links := links.set ending none
  return (links (.next first), links)

end Code

/-- The smaller elements before the others. -/
def divided (nodes : List α) : List α :=
  nodes.filter (fun node => val node < x) ++ nodes.filter fun node => ¬ val node < x

/-- Where the loop is: `node` leads to the nodes `todo`, and two lists have been linked behind
`first` and `second`. -/
structure Divides (first second : α) (links : Links α) (node : Option α)
    (smaller others todo : List α) : Prop where
  passesFirst : Passes links (.next first) smaller
  passesSecond : Passes links (.next second) others
  endedFirst : smaller = [] → links (.next first) = none
  endedSecond : others = [] → links (.next second) = none
  leads : Leads links node todo
  distinct : ((first :: smaller) ++ ((second :: others) ++ todo)).Nodup

variable {val x} {first second : α} {links : Links α} {node : Option α}
  {smaller others todo : List α}

theorem Divides.swap (divides : Divides first second links node smaller others todo) :
    Divides second first links node others smaller todo where
  passesFirst := divides.passesSecond
  passesSecond := divides.passesFirst
  endedFirst := divides.endedSecond
  endedSecond := divides.endedFirst
  leads := divides.leads
  distinct := by
    have same := (@List.perm_append_comm α (first :: smaller) (second :: others)).append_right todo
    rw [List.append_assoc, List.append_assoc] at same
    exact same.nodup divides.distinct

theorem reads_subset (first : α) (nodes : List α) :
    reads (.next first) nodes ⊆ (first :: nodes).map Slot.next := by
  intro place member
  have split := slots_append (.next first) nodes []
  rw [List.append_nil] at split
  change place ∈ slots (.next first) nodes
  rw [split]
  exact List.mem_append_left _ member

theorem last_mem {own : α} {part whole : List α} (member : own ∈ whole) (subset : part ⊆ whole) :
    last (.next own) part ∈ whole.map Slot.next := by
  have inside := last_mem_slots (.next own) part
  exact List.map_subset Slot.next (List.cons_subset.mpr ⟨member, subset⟩) inside

/-- The last place of one list is none of those of the nodes that are not in it. -/
theorem Divides.last_outside (divides : Divides first second links node smaller others todo) :
    last (.next first) smaller ∉ ((second :: others) ++ todo).map Slot.next := by
  have apart := (List.nodup_append'.mp divides.distinct).2.2
  have places := List.disjoint_map (fun _ _ => Slot.next.inj) apart
  exact places (last_mem_slots (.next first) smaller)

/-- The nodes when one of those ahead is put behind the smaller ones. -/
theorem put_perm (first second tmp : α) (smaller others todo : List α) :
    (first :: smaller) ++ ((second :: others) ++ tmp :: todo) ~
      (first :: (smaller ++ [tmp])) ++ ((second :: others) ++ todo) := by
  rw [← List.cons_append, List.append_assoc]
  exact List.perm_middle.append_left (first :: smaller)

variable [DecidableEq α]

/-- What one round does to the list that the node is put into. -/
theorem Divides.put {tmp : α}
    (divides : Divides first second links (some tmp) smaller others (tmp :: todo)) :
    Divides first second (links.set (last (.next first) smaller) (some tmp)) (links (.next tmp))
      (smaller ++ [tmp]) others todo := by
  have outside := divides.last_outside
  rw [List.map_append, List.mem_append, not_or, List.map_cons, List.map_cons, List.mem_cons,
    List.mem_cons, not_or, not_or] at outside
  have places := (List.nodup_append'.mp divides.distinct).1.map fun _ _ => Slot.next.inj
  constructor
  · exact divides.passesFirst.concat places tmp
  · apply divides.passesSecond.set
    intro member
    exact (List.mem_cons.mp (reads_subset second others member)).elim outside.1.1 outside.1.2
  · intro empty
    exact absurd empty (by simp)
  · intro empty
    rw [set_other _ _ (Ne.symm outside.1.1)]
    exact divides.endedSecond empty
  · exact divides.leads.2.set outside.2.2 _
  · exact (put_perm first second tmp smaller others todo).nodup divides.distinct

/-- What the loop does to both lists, and which places it writes to. -/
theorem partitionLoop_spec {fuel : Nat}
    (divides : Divides first second links node smaller others todo) (enough : todo.length < fuel) :
    ∃ after, partitionLoop val x fuel links (last (.next first) smaller)
        (last (.next second) others) node =
          some (after, last (.next first) (smaller ++ todo.filter fun node => val node < x),
            last (.next second) (others ++ todo.filter fun node => ¬ val node < x)) ∧
      Divides first second after none (smaller ++ todo.filter fun node => val node < x)
        (others ++ todo.filter fun node => ¬ val node < x) [] ∧
      ∀ place, place ∉ ((first :: smaller) ++ ((second :: others) ++ todo)).map Slot.next →
        after place = links place := by
  induction todo generalizing fuel links node smaller others with
  | nil =>
      obtain ⟨fuel, rfl⟩ := Nat.exists_eq_add_one_of_ne_zero (Nat.ne_zero_of_lt enough)
      obtain rfl : node = none := divides.leads
      rw [List.filter_nil, List.filter_nil, List.append_nil, List.append_nil]
      exact ⟨links, rfl, divides, fun _ _ => rfl⟩
  | cons tmp todo inductionHypothesis =>
      obtain ⟨fuel, rfl⟩ := Nat.exists_eq_add_one_of_ne_zero (Nat.ne_zero_of_lt enough)
      obtain rfl : node = some tmp := divides.leads.1
      have later := Nat.lt_of_succ_lt_succ enough
      rw [partitionLoop]
      by_cases less : val tmp < x
      · obtain ⟨after, returned, divided, frame⟩ := inductionHypothesis divides.put later
        rw [if_pos less, List.filter_cons_of_pos (by simpa using less),
          List.filter_cons_of_neg (by simpa using less), List.append_cons]
        rw [last_append] at returned
        refine ⟨after, returned, divided, ?_⟩
        intro place outside
        rw [frame place, set_other]
        · intro same
          apply outside
          rw [same, List.map_append]
          exact List.mem_append_left _ (last_mem_slots (.next first) smaller)
        · rwa [← ((put_perm first second tmp smaller others todo).map Slot.next).mem_iff]
      · obtain ⟨after, returned, divided, frame⟩ :=
          inductionHypothesis divides.swap.put.swap later
        rw [if_neg less, List.filter_cons_of_neg (by simpa using less),
          List.filter_cons_of_pos (by simpa using less), List.append_cons]
        rw [last_append] at returned
        refine ⟨after, returned, divided, ?_⟩
        intro place outside
        rw [frame place, set_other]
        · intro same
          apply outside
          rw [same, List.map_append, List.map_append]
          exact List.mem_append_right _
            (List.mem_append_left _ (last_mem_slots (.next second) others))
        · rwa [List.append_cons] at outside

/-- What the statements behind the loop make of both lists. -/
theorem Divides.join (divides : Divides first second links node smaller others []) :
    Chain ((links.set (last (.next first) smaller) (links (.next second))).set
      (last (.next second) others) none) (.next first) (smaller ++ others) := by
  have outside := divides.last_outside
  have outside' := divides.swap.last_outside
  have firstPlaces := (List.nodup_append'.mp divides.distinct).1.map fun _ _ => Slot.next.inj
  have secondPlaces := (List.nodup_append'.mp divides.swap.distinct).1.map fun _ _ => Slot.next.inj
  rw [List.append_nil] at outside outside'
  have apart : last (.next first) smaller ≠ last (.next second) others := by
    intro same
    exact outside (same ▸ last_mem_slots (.next second) others)
  have closed := divides.passesSecond.close secondPlaces
  have begins : links.set (last (.next second) others) none (.next second) =
      links (.next second) := by
    cases others with
    | nil => rw [divides.endedSecond rfl]; exact set_same _ _ _
    | cons other rest => rw [closed.1, divides.passesSecond.1]
  rw [chain_append]
  constructor
  · apply (divides.passesFirst.set (last_notMem_reads firstPlaces) _).set
    exact fun member => outside' (reads_subset first smaller member)
  · rw [set_comm _ _ _ apart.symm]
    apply closed.redirect
    · rw [set_same, begins]
    · intro node member
      apply set_other
      intro same
      exact outside (same ▸ List.mem_map_of_mem (List.mem_cons_of_mem second member))

/-- When the loop begins, both lists are empty. -/
theorem divides_nil {head : Option α} {nodes : List α} (leads : Leads links head nodes)
    (distinct : (first :: second :: nodes).Nodup) :
    Divides first second ((links.set (.next first) none).set (.next second) none) head [] []
      nodes := by
  have places := distinct.map fun _ _ => Slot.next.inj
  simp only [List.map_cons, List.nodup_cons, List.mem_cons, not_or] at places
  constructor
  · trivial
  · trivial
  · intro _
    rw [set_other _ _ places.1.1, set_same]
  · intro _
    rw [set_same]
  · exact (leads.set places.1.2 _).set places.2.1 _
  · exact distinct

/-- The nodes of a list are divided, and no other place than theirs and those of the two local
nodes is written to. -/
theorem partition_divides {fuel : Nat} {head : Option α} {nodes : List α}
    (leads : Leads links head nodes) (distinct : (first :: second :: nodes).Nodup)
    (enough : nodes.length < fuel) :
    ∃ start after, partition val x fuel links head first second = some (start, after) ∧
      Leads after start (divided val x nodes) ∧
      ∀ place, place ∉ (first :: second :: nodes).map Slot.next → after place = links place := by
  obtain ⟨between, returned, divides, frame⟩ := @partitionLoop_spec α val x _ _ _ _ _ _ _ _ fuel
    (divides_nil leads distinct) enough
  rw [List.nil_append, List.nil_append] at returned divides
  refine ⟨_, _, ?_, chain_iff_leads.mp divides.join, ?_⟩
  · rw [partition, show partitionLoop val x fuel _ (.next first) (.next second) head = _
      from returned]
    rfl
  · intro place outside
    have filtered (keep : α → Bool) : nodes.filter keep ⊆ first :: second :: nodes := by
      intro node member
      simp [List.mem_of_mem_filter member]
    rw [set_other, set_other, frame place outside]
    · simp only [List.map_cons, List.mem_cons, not_or] at outside
      rw [set_other _ _ outside.2.1, set_other _ _ outside.1]
    · exact fun same => outside (same ▸ last_mem (by simp) (filtered _))
    · exact fun same => outside (same ▸ last_mem (by simp) (filtered _))

/-- Nodes with the values 3, 1 and 2. -/
def threeNodes : Links Nat
  | .root => some 3
  | .next node => if node = 3 then some 1 else if node = 1 then some 2 else none

theorem partition_divides_threeNodes :
    ∃ start after, partition (Nat.cast : Nat → Int) 3 4 threeNodes (some 3) 8 9 =
        some (start, after) ∧
      Leads after start (divided Nat.cast 3 [3, 1, 2]) ∧
      ∀ place, place ∉ [8, 9, 3, 1, 2].map Slot.next → after place = threeNodes place :=
  partition_divides ⟨rfl, rfl, rfl, rfl⟩ (by decide) (by decide)

example : divided (Nat.cast : Nat → Int) 3 [3, 1, 2] = [1, 2, 3] := by decide

end Partition

end StdPrograms.Hobbies

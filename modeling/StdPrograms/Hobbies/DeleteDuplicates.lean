import Mathlib.Data.List.TakeWhile
import StdPrograms.Hobbies.ListQuickSort

/-!
Contract: deleting nodes with equal values from a linked list.

Owns the `deleteDuplicates` of `solution_82.cpp`, which deletes all nodes of a run of equal values,
and the one of `solution_83.cpp`, which leaves the first of them, with the nodes of a list in order
that are left.

Does not own `deleteDuplicates2`, which has no body, and the memory of a node that was deleted.
-/

namespace StdPrograms.Hobbies

open scoped List
open StdPrograms.Foundation StdPrograms.Foundation.Links

namespace DeleteDuplicates

open ListQuickSort (Ordered)

variable {α : Type} (val : α → Int)

section Code

/-- The inner loop: `node` behind it. -/
def skipLoop (links : Links α) (ref : α) : Nat → Option α → Option (Option α)
  | 0, _ => none
  | _ + 1, none => some none
  | fuel + 1, some node =>
      if val node = val ref then skipLoop links ref fuel (links (.next node)) else some (some node)

variable [DecidableEq α]

/-- The outer loop; `prev` is the place that it points to. -/
def deleteLoop : Nat → Links α → Slot α → Option α → Option (Links α)
  | 0, _, _, _ => none
  | _ + 1, links, _, none => some links
  | fuel + 1, links, prev, some node =>
      if (links (.next node)).any fun next => val next = val node then do
        let behind ← skipLoop val links node (fuel + 1) (some node)
        deleteLoop fuel (links.set prev behind) prev behind
      else deleteLoop fuel links (.next node) (links (.next node))

/-- `deleteDuplicates` of `solution_82.cpp`: the node that is returned, and the links. The parameter
`head` is one of them. -/
def deleteDuplicates (fuel : Nat) (links : Links α) : Option (Option α × Links α) :=
  match links .root with
  | none => some (none, links)
  | some head =>
      if (links (.next head)).isNone then some (some head, links)
      else do
        let links ← deleteLoop val fuel links .root (some head)
        return (links .root, links)

/-- The loop of `solution_83.cpp`. -/
def keepLoop : Nat → Links α → α → Option α → Option (Links α)
  | 0, _, _, _ => none
  | _ + 1, links, _, none => some links
  | fuel + 1, links, prev, some node =>
      if val node = val prev then
        let links := links.set (.next prev) (links (.next node))
        keepLoop fuel links prev (links (.next node))
      else keepLoop fuel links node (links (.next node))

/-- `deleteDuplicates` of `solution_83.cpp`, which does not write to `head`. -/
def keepFirsts (fuel : Nat) (links : Links α) : Option (Option α × Links α) :=
  match links .root with
  | none => some (none, links)
  | some head => do
      let links ← keepLoop val fuel links head (links (.next head))
      return (some head, links)

end Code

/-! ### The nodes that are left -/

/-- The nodes whose value is found only once. -/
def unique (nodes : List α) : List α :=
  nodes.filter fun node => nodes.countP (fun other => val other = val node) = 1

/-- The first node with each value. -/
def firsts : List α → List α
  | [] => []
  | node :: rest => node :: (firsts rest).filter fun later => val later ≠ val node

/-- The first nodes of the runs of equal values behind a value. -/
def firstsBehind (value : Int) : List α → List α
  | [] => []
  | node :: rest =>
      if val node = value then firstsBehind value rest else node :: firstsBehind (val node) rest

variable {val}

theorem countP_of_apart {node : α} {nodes : List α}
    (apart : ∀ other ∈ nodes, val other ≠ val node) :
    nodes.countP (fun other => val other = val node) = 0 := by
  apply List.countP_eq_zero.mpr
  intro other member
  simpa using apart other member

/-- Parts of a list that have no value in common do not make each other's nodes repeat. -/
theorem unique_append {run behind : List α}
    (apart : ∀ node ∈ run, ∀ other ∈ behind, val other ≠ val node) :
    unique val (run ++ behind) = unique val run ++ unique val behind := by
  unfold unique
  rw [List.filter_append]
  congr 1
  · apply List.filter_congr
    intro node member
    rw [List.countP_append, countP_of_apart (apart node member), Nat.add_zero]
  · apply List.filter_congr
    intro node member
    rw [List.countP_append, countP_of_apart fun other inRun => (apart other inRun node member).symm,
      Nat.zero_add]

theorem unique_singleton (node : α) : unique val [node] = [node] := by
  simp [unique]

/-- No node of a run of several equal values is left. -/
theorem unique_run {value : Int} {run : List α} (several : 2 ≤ run.length)
    (equal : ∀ node ∈ run, val node = value) : unique val run = [] := by
  apply List.filter_eq_nil_iff.mpr
  intro node member
  have all : run.countP (fun other => decide (val other = val node)) = run.length := by
    apply List.countP_eq_length.mpr
    intro other inRun
    simp [equal other inRun, equal node member]
  simp only [all, decide_eq_true_eq]
  omega

/-- Behind a run in a list in order its value is not found again. -/
theorem ne_of_mem_dropWhile {value : Int} {nodes : List α} (ordered : Ordered val nodes)
    (above : ∀ node ∈ nodes, value ≤ val node) {node : α}
    (member : node ∈ nodes.dropWhile fun other => val other = value) : val node ≠ value := by
  induction nodes with
  | nil => exact absurd member List.not_mem_nil
  | cons first rest inductionHypothesis =>
      rw [List.dropWhile_cons] at member
      split at member
      next =>
        exact inductionHypothesis ordered.of_cons
          (fun later inRest => above later (List.mem_cons_of_mem first inRest)) member
      next differs =>
        have least := above first List.mem_cons_self
        have larger : val first ≤ val node := by
          cases member with
          | head => exact le_refl _
          | tail _ inRest => exact List.rel_of_pairwise_cons ordered inRest
        simp only [decide_eq_true_eq] at differs
        omega

theorem mem_of_mem_firsts {nodes : List α} {node : α} (member : node ∈ firsts val nodes) :
    node ∈ nodes := by
  induction nodes with
  | nil => exact member
  | cons first rest inductionHypothesis =>
      cases member with
      | head => exact List.mem_cons_self
      | tail _ inRest =>
          exact List.mem_cons_of_mem first (inductionHypothesis (List.mem_of_mem_filter inRest))

/-- In a list in order the nodes with one value are a run. -/
theorem firstsBehind_eq {value : Int} {nodes : List α} (ordered : Ordered val nodes)
    (above : ∀ node ∈ nodes, value ≤ val node) :
    firstsBehind val value nodes = (firsts val nodes).filter fun node => val node ≠ value := by
  induction nodes generalizing value with
  | nil => rfl
  | cons node rest inductionHypothesis =>
      rw [firstsBehind, firsts]
      have least := above node List.mem_cons_self
      split
      next equal =>
        rw [inductionHypothesis ordered.of_cons fun later inRest =>
          above later (List.mem_cons_of_mem node inRest), List.filter_cons_of_neg (by simp [equal]),
          equal, List.filter_filter]
        simp
      next differs =>
        rw [inductionHypothesis ordered.of_cons fun _ => List.rel_of_pairwise_cons ordered,
          List.filter_cons_of_pos (by simpa using differs)]
        congr 1
        symm
        apply List.filter_eq_self.mpr
        intro later member
        have larger := List.rel_of_pairwise_cons ordered
          (mem_of_mem_firsts (List.mem_of_mem_filter member))
        simp only [ne_eq, decide_eq_true_eq]
        omega

/-! ### `solution_82.cpp` -/

theorem skipLoop_spec {links : Links α} {ref : α} {fuel : Nat} {slot : Slot α} {nodes : List α}
    (chain : Chain links slot nodes) (enough : nodes.length < fuel) :
    skipLoop val links ref fuel nodes.head? =
      some (nodes.dropWhile fun node => val node = val ref).head? := by
  induction nodes generalizing fuel slot with
  | nil =>
      obtain ⟨fuel, rfl⟩ := Nat.exists_eq_add_one_of_ne_zero (Nat.ne_zero_of_lt enough)
      rfl
  | cons node rest inductionHypothesis =>
      obtain ⟨fuel, rfl⟩ := Nat.exists_eq_add_one_of_ne_zero (Nat.ne_zero_of_lt enough)
      rw [List.head?_cons, skipLoop, List.dropWhile_cons]
      by_cases equal : val node = val ref
      · simp only [equal, if_true, decide_true]
        rw [chain.2.head?_eq, inductionHypothesis chain.2 (Nat.lt_of_succ_lt_succ enough)]
      · simp [equal]

variable [DecidableEq α]

/-- A run at a place is passed over there. -/
theorem run_deleted {links : Links α} {prev : Slot α} {run behind : List α}
    (chain : Chain links prev (run ++ behind)) :
    Chain (links.set prev behind.head?) prev behind := by
  have distinct := (List.nodup_cons.mp chain.nodup_slots).1
  have toBehind := ((chain_append _ _).mp chain).2
  apply toBehind.redirect
  · rw [set_same, toBehind.head?_eq]
  · intro node member
    apply set_other
    intro same
    apply distinct
    rw [← same]
    exact List.mem_map_of_mem (List.mem_append_right run member)

omit [DecidableEq α] in
theorem unique_twins {node : α} {rest : List α} (ordered : Ordered val (node :: rest))
    (twin : rest.head?.any fun next => val next = val node) :
    ∃ run behind, node :: rest = run ++ behind ∧ 2 ≤ run.length ∧
      (node :: rest).dropWhile (fun other => val other = val node) = behind ∧
      unique val (node :: rest) = unique val behind := by
  have above : ∀ other ∈ node :: rest, val node ≤ val other := by
    intro other member
    cases member with
    | head => exact le_refl _
    | tail _ inRest => exact List.rel_of_pairwise_cons ordered inRest
  have whole := @List.takeWhile_append_dropWhile α (fun other => val other = val node)
    (node :: rest)
  have equal : ∀ other ∈ (node :: rest).takeWhile fun other => val other = val node,
      val other = val node := by
    intro other member
    simpa using List.mem_takeWhile_imp member
  have several : 2 ≤ ((node :: rest).takeWhile fun other => val other = val node).length := by
    cases rest with
    | nil => simp at twin
    | cons next rest =>
        have same : val next = val node := by simpa using twin
        simp [same]
  refine ⟨_, _, whole.symm, several, rfl, ?_⟩
  have split := @unique_append α val _ _ fun first inRun other inBehind =>
    (equal first inRun).symm ▸ ne_of_mem_dropWhile ordered above inBehind
  rw [whole, unique_run several equal, List.nil_append] at split
  exact split

omit [DecidableEq α] in
theorem unique_single {node : α} {rest : List α} (ordered : Ordered val (node :: rest))
    (single : ¬ rest.head?.any fun next => val next = val node) :
    unique val (node :: rest) = node :: unique val rest := by
  have kept : rest.dropWhile (fun other => val other = val node) = rest := by
    cases rest with
    | nil => rfl
    | cons next rest =>
        apply List.dropWhile_cons_of_neg
        simpa using single
  have apart : ∀ first ∈ [node], ∀ other ∈ rest, val other ≠ val first := by
    intro first isNode other member
    rw [List.mem_singleton.mp isNode]
    rw [← kept] at member
    exact ne_of_mem_dropWhile ordered.of_cons (fun _ => List.rel_of_pairwise_cons ordered) member
  rw [← List.singleton_append, unique_append apart, unique_singleton]
  rfl

/-- What the loop deletes behind a place, and that it does not write to any other place. -/
theorem deleteLoop_spec {fuel : Nat} {links : Links α} {prev : Slot α} {nodes : List α}
    (chain : Chain links prev nodes) (ordered : Ordered val nodes) (enough : nodes.length < fuel) :
    ∃ after, deleteLoop val fuel links prev nodes.head? = some after ∧
      Chain after prev (unique val nodes) ∧ Confined links after prev nodes := by
  induction fuel generalizing links prev nodes with
  | zero => exact absurd enough (Nat.not_lt_zero _)
  | succ fuel inductionHypothesis =>
      cases nodes with
      | nil => exact ⟨links, rfl, chain, fun _ _ => rfl⟩
      | cons node rest =>
          have skipped := @skipLoop_spec α val links node (fuel + 1) prev _ chain enough
          rw [List.head?_cons] at skipped
          rw [List.head?_cons, deleteLoop, chain.2.head?_eq]
          split
          next twin =>
            obtain ⟨run, behind, whole, several, dropped, left⟩ := unique_twins ordered twin
            rw [dropped] at skipped
            rw [left]
            rw [whole] at chain ordered enough ⊢
            rw [List.length_append] at enough
            obtain ⟨after, returned, deleted, confined⟩ := inductionHypothesis (run_deleted chain)
              (List.pairwise_append.mp ordered).2.1 (by omega)
            refine ⟨after, by simpa [skipped] using returned, deleted, ?_⟩
            apply Confined.trans _ (confined.mono (List.subset_append_right run behind))
            intro place outside
            exact set_other _ _ fun same => outside (same ▸ List.mem_cons_self)
          next single =>
            obtain ⟨after, returned, deleted, confined⟩ := inductionHypothesis chain.2
              ordered.of_cons (Nat.lt_of_succ_lt_succ enough)
            rw [unique_single ordered single]
            refine ⟨after, returned, ⟨?_, deleted⟩, ?_⟩
            · rw [confined prev (List.nodup_cons.mp chain.nodup_slots).1, chain.1]
            · exact @Confined.append α links after prev [node] rest confined

/-- A list in order keeps the nodes whose value is found only once, and no other place than those
of its nodes is written to. -/
theorem deleteDuplicates_unique {fuel : Nat} {links : Links α} {nodes : List α}
    (chain : Chain links .root nodes) (ordered : Ordered val nodes) (enough : nodes.length < fuel) :
    ∃ after, deleteDuplicates val fuel links = some (after .root, after) ∧
      Chain after .root (unique val nodes) ∧ Confined links after .root nodes := by
  unfold deleteDuplicates
  cases nodes with
  | nil =>
      have empty : links .root = none := chain
      refine ⟨links, ?_, chain, fun _ _ => rfl⟩
      rw [empty]
  | cons head rest =>
      have first : links .root = some head := chain.1
      cases rest with
      | nil =>
          have ended : links (.next head) = none := chain.2
          refine ⟨links, ?_, ?_, fun _ _ => rfl⟩
          · simp [first, ended]
          · rwa [unique_singleton]
      | cons next rest =>
          have more : links (.next head) = some next := chain.2.1
          obtain ⟨after, returned, deleted, confined⟩ := deleteLoop_spec chain ordered enough
          rw [List.head?_cons] at returned
          refine ⟨after, ?_, deleted, confined⟩
          simp [first, more, returned]

/-! ### `solution_83.cpp` -/

/-- The loop leaves the first nodes of the runs behind `prev`. -/
theorem keepLoop_spec {fuel : Nat} {links : Links α} {prev : α} {nodes : List α}
    (chain : Chain links (.next prev) nodes) (enough : nodes.length < fuel) :
    ∃ after, keepLoop val fuel links prev nodes.head? = some after ∧
      Chain after (.next prev) (firstsBehind val (val prev) nodes) ∧
      Confined links after (.next prev) nodes := by
  induction nodes generalizing fuel links prev with
  | nil =>
      obtain ⟨fuel, rfl⟩ := Nat.exists_eq_add_one_of_ne_zero (Nat.ne_zero_of_lt enough)
      exact ⟨links, rfl, chain, fun _ _ => rfl⟩
  | cons node rest inductionHypothesis =>
      obtain ⟨fuel, rfl⟩ := Nat.exists_eq_add_one_of_ne_zero (Nat.ne_zero_of_lt enough)
      have later := Nat.lt_of_succ_lt_succ enough
      rw [List.head?_cons, keepLoop, firstsBehind]
      split
      next equal =>
        have next := @Chain.next_eq α links (.next prev) [] rest node chain
        have differ : Slot.next node ≠ .next prev := fun same =>
          (List.nodup_cons.mp chain.nodup_slots).1 (same ▸ List.mem_cons_self)
        obtain ⟨after, returned, kept, confined⟩ := inductionHypothesis
          (@run_deleted α _ links (.next prev) [node] rest chain) later
        dsimp only
        rw [next, set_other _ _ differ, next]
        refine ⟨after, returned, kept, ?_⟩
        apply Confined.trans _ (confined.mono (List.subset_cons_self node rest))
        intro place outside
        exact set_other _ _ fun same => outside (same ▸ List.mem_cons_self)
      next differs =>
        obtain ⟨after, returned, kept, confined⟩ := inductionHypothesis chain.2 later
        rw [chain.2.head?_eq]
        refine ⟨after, returned, ⟨?_, kept⟩, ?_⟩
        · rw [confined _ (List.nodup_cons.mp chain.nodup_slots).1, chain.1]
        · exact @Confined.append α links after (.next prev) [node] rest confined

/-- A list in order keeps the first node with each value, `head` stays as it is, and no other
place than those of its nodes is written to. -/
theorem keepFirsts_firsts {fuel : Nat} {links : Links α} {nodes : List α}
    (chain : Chain links .root nodes) (ordered : Ordered val nodes) (enough : nodes.length < fuel) :
    ∃ after, keepFirsts val fuel links = some (links .root, after) ∧
      Chain after .root (firsts val nodes) ∧ Confined links after .root nodes ∧
      after .root = links .root := by
  unfold keepFirsts
  cases nodes with
  | nil =>
      have empty : links .root = none := chain
      refine ⟨links, ?_, chain, fun _ _ => rfl, rfl⟩
      rw [empty]
  | cons head rest =>
      have first : links .root = some head := chain.1
      obtain ⟨after, returned, kept, confined⟩ := @keepLoop_spec α val _ fuel links head rest
        chain.2 (Nat.lt_trans (Nat.lt_succ_self _) enough)
      have unwritten : after .root = links .root :=
        confined _ (List.nodup_cons.mp chain.nodup_slots).1
      rw [firstsBehind_eq ordered.of_cons fun _ => List.rel_of_pairwise_cons ordered] at kept
      refine ⟨after, ?_, ⟨unwritten.trans first, kept⟩, ?_, unwritten⟩
      · rw [← chain.2.head?_eq] at returned
        simp [first, returned]
      · exact @Confined.append α links after .root [head] rest confined

/-- Nodes with the values 1, 2, 2 and 3. -/
def fourNodes : Links Nat
  | .root => some 0
  | .next node => if node < 3 then some (node + 1) else none

def values (node : Nat) : Int :=
  if node = 0 then 1 else if node = 3 then 3 else 2

theorem fourNodes_ordered : Ordered values [0, 1, 2, 3] := by
  unfold Ordered
  decide

theorem deleteDuplicates_unique_fourNodes :
    ∃ after, deleteDuplicates values 5 fourNodes = some (after .root, after) ∧
      Chain after .root (unique values [0, 1, 2, 3]) ∧
      Confined fourNodes after .root [0, 1, 2, 3] :=
  deleteDuplicates_unique ⟨rfl, rfl, rfl, rfl, rfl⟩ fourNodes_ordered (by decide)

theorem keepFirsts_firsts_fourNodes :
    ∃ after, keepFirsts values 5 fourNodes = some (some 0, after) ∧
      Chain after .root (firsts values [0, 1, 2, 3]) ∧ Confined fourNodes after .root [0, 1, 2, 3] ∧
      after .root = some 0 :=
  keepFirsts_firsts ⟨rfl, rfl, rfl, rfl, rfl⟩ fourNodes_ordered (by decide)

example : unique values [0, 1, 2, 3] = [0, 3] ∧ firsts values [0, 1, 2, 3] = [0, 1, 3] := by decide

end DeleteDuplicates

end StdPrograms.Hobbies

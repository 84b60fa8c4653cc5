import StdPrograms.Foundation.CountedLoop
import StdPrograms.Foundation.Sorting

/-!
Contract: two sorted arrays merged into the first one.

Owns `merge` and `merge2` of `solution_88.cpp`: the one that moves blocks of the second array in
front of greater elements, and the one that fills the room behind the first from its back, with
sizes and counters of type `int`; and that both leave the elements of both arrays sorted.

Does not own what the caller puts behind the first array.
-/

namespace StdPrograms.Hobbies

open scoped List
open StdPrograms.Foundation

namespace MergeArrays

section Code

/-- `while (place < limit && test(place)) ++place;`, where the limit is an `int` as the counter is,
so that the increments stay in the type. -/
def passWhile (limit : Nat) (test : Nat → Option Bool) (place : Nat) : Option Nat :=
  moveWhile (fun place => if place < limit then test place else some false) (· + 1) (limit + 1)
    place

/-- `nums1[i] <= nums2[j]` -/
def notGreater (nums1 nums2 : List Int) (i j : Nat) : Option Bool := do
  return decide ((← nums1[i]?) ≤ (← nums2[j]?))

/-- `nums2[j] < nums1[i]` -/
def less (nums1 nums2 : List Int) (i j : Nat) : Option Bool := do
  return decide ((← nums2[j]?) < (← nums1[i]?))

/-- The outer loop: the first array, its size so far, and both counters. -/
def mergeLoop (nums2 : List Int) (n : Nat) :
    Nat → List Int → (m i j : Nat) → Option (List Int × Nat × Nat)
  | 0, _, _, _, _ => none
  | fuel + 1, nums1, m, i, j =>
      if j < n then do
        let i ← passWhile m (fun i => notGreater nums1 nums2 i j) i
        if i = m then return (nums1, i, j)
        else
          let old := j
          let j ← passWhile n (fun j => less nums1 nums2 i j) j
          let inserted := nums1.take i ++ (nums2.take j).drop old ++ nums1.drop i
          let m ← position 32 (m + (j - old))
          mergeLoop nums2 n fuel inserted m i j
      else some (nums1, i, j)

def merge (nums1 : List Int) (m : Nat) (nums2 : List Int) (n : Nat) : Option (List Int) := do
  let (nums1, i, j) ← mergeLoop nums2 n (n + 1) nums1 m 0 0
  return if j = n then nums1 else nums1.take i ++ nums2.drop j ++ nums1.drop i

/-- `nums[place] = value` -/
def store (nums : List Int) (place : Nat) (value : Int) : Option (List Int) :=
  if place < nums.length then some (nums.set place value) else none

/-- `i >= 0 && nums1[i] > nums2[j]`, with an `i` that is one more. -/
def takesOwn (nums1 nums2 : List Int) : (i j : Nat) → Option Bool
  | 0, _ => some false
  | i + 1, j => less nums1 nums2 i j

/-- The loop from the back. All counters are one more than in the source, so that zero is its -1. -/
def fillLoop (nums2 : List Int) : Nat → List Int → (i j ending : Nat) → Option (List Int)
  | 0, _, _, _, _ => none
  | _ + 1, nums1, _, 0, _ => some nums1
  | _ + 1, _, _, _ + 1, 0 => none
  | fuel + 1, nums1, i, j + 1, ending + 1 => do
      if ← takesOwn nums1 nums2 i j then
        let nums1 ← store nums1 ending (← nums1[i - 1]?)
        fillLoop nums2 fuel nums1 (i - 1) (j + 1) ending
      else
        let nums1 ← store nums1 ending (← nums2[j]?)
        fillLoop nums2 fuel nums1 i j ending

def merge2 (nums1 : List Int) (m : Nat) (nums2 : List Int) (n : Nat) : Option (List Int) := do
  let ending ← position 32 (m + n)
  fillLoop nums2 (m + n + 1) nums1 m n ending

end Code

/-! ### Blocks -/

/-- A counter passes over a first block of the elements before its limit. -/
theorem passWhile_spec {before middle after : List Int} {limit : Nat} {test : Nat → Option Bool}
    {passes : Int → Bool} (limitIs : limit = (before ++ middle).length)
    (tests : ∀ place value, (before ++ middle ++ after)[place]? = some value →
      test place = some (passes value)) :
    ∃ block rest, middle = block ++ rest ∧ (∀ value ∈ block, passes value) ∧
      (∀ value ∈ rest.head?, passes value = false) ∧
      passWhile limit test before.length = some (before ++ block).length := by
  have moves : ∀ fuel (front rest : List Int), before ++ middle = front ++ rest →
      rest.length < fuel →
      ∃ block behind, rest = block ++ behind ∧ (∀ value ∈ block, passes value) ∧
        (∀ value ∈ behind.head?, passes value = false) ∧
        moveWhile (fun place => if place < limit then test place else some false) (· + 1) fuel
          front.length = some (front ++ block).length := by
    intro fuel
    induction fuel with
    | zero => exact fun front rest _ enough => absurd enough (Nat.not_lt_zero _)
    | succ fuel inductionHypothesis =>
        intro front rest split enough
        cases rest with
        | nil => exact ⟨[], [], by simp [moveWhile, limitIs, split]⟩
        | cons value rest =>
            have inside : front.length < limit := by simp [limitIs, split]
            have tested := tests front.length value (by simp [split])
            rw [moveWhile, if_pos inside, tested]
            cases holds : passes value with
            | false => exact ⟨[], value :: rest, by simp [holds]⟩
            | true =>
                obtain ⟨block, behind, restIs, small, stops, returned⟩ :=
                  inductionHypothesis (front ++ [value]) rest (by simp [split])
                    (Nat.lt_of_succ_lt_succ enough)
                refine ⟨value :: block, behind, by rw [restIs]; rfl, ?_, stops, ?_⟩
                · exact List.forall_mem_cons.mpr ⟨holds, small⟩
                · rw [List.length_append, List.append_assoc] at returned
                  exact returned
  refine moves (limit + 1) before middle rfl ?_
  rw [limitIs, List.length_append]
  omega

/-- Where the outer loop is: the elements it has passed, those ahead, and those of the second array
that it has moved and has not. -/
structure Merges (left right passed ahead moved todo : List Int) : Prop where
  ascending : (passed ++ ahead).Pairwise (· ≤ ·)
  todoAscending : todo.Pairwise (· ≤ ·)
  between : ∀ own ∈ passed, ∀ theirs ∈ todo, own ≤ theirs
  split : moved ++ todo = right
  permutation : passed ++ ahead ~ left ++ moved

variable {left right passed ahead moved todo block : List Int}

/-- The counter passes over elements that are not greater than those to come. -/
theorem Merges.pass (merges : Merges left right passed (block ++ ahead) moved todo)
    (small : ∀ own ∈ block, ∀ theirs ∈ todo, own ≤ theirs) :
    Merges left right (passed ++ block) ahead moved todo where
  ascending := by
    rw [List.append_assoc]
    exact merges.ascending
  todoAscending := merges.todoAscending
  between := by
    intro own member
    cases List.mem_append.mp member with
    | inl before => exact merges.between own before
    | inr now => exact small own now
  split := merges.split
  permutation := by
    rw [List.append_assoc]
    exact merges.permutation

/-- A block is moved in front of elements that are not less. -/
theorem Merges.move (merges : Merges left right passed ahead moved (block ++ todo))
    (small : ∀ theirs ∈ block, ∀ own ∈ ahead, theirs ≤ own) :
    Merges left right passed (block ++ ahead) (moved ++ block) todo where
  ascending := by
    have own := List.pairwise_append.mp merges.ascending
    have theirs := List.pairwise_append.mp merges.todoAscending
    refine List.pairwise_append.mpr ⟨own.1, ?_, fun before member after memberAfter => ?_⟩
    · exact List.pairwise_append.mpr ⟨theirs.1, own.2.1, small⟩
    · cases List.mem_append.mp memberAfter with
      | inl inBlock =>
          exact merges.between before member after (List.mem_append_left todo inBlock)
      | inr inAhead => exact own.2.2 before member after inAhead
  todoAscending := (List.pairwise_append.mp merges.todoAscending).2.1
  between := fun own member theirs memberTodo =>
    merges.between own member theirs (List.mem_append_right block memberTodo)
  split := by
    rw [List.append_assoc]
    exact merges.split
  permutation := by
    calc passed ++ (block ++ ahead)
      _ ~ passed ++ (ahead ++ block) := List.perm_append_comm.append_left passed
      _ = (passed ++ ahead) ++ block := (List.append_assoc passed ahead block).symm
      _ ~ (left ++ moved) ++ block := merges.permutation.append_right block
      _ = left ++ (moved ++ block) := List.append_assoc left moved block

/-- When nothing is ahead or nothing is left to move, the rest goes to where the counter is. -/
theorem Merges.finish (merges : Merges left right passed ahead moved todo)
    (ends : todo = [] ∨ ahead = []) :
    passed ++ (todo ++ ahead) = (left ++ right).mergeSort fun low high => decide (low ≤ high) := by
  rw [← List.append_nil todo] at merges
  have last := merges.move fun theirs member own memberAhead => by
    cases ends with
    | inl noTodo => exact absurd member (by simp [noTodo])
    | inr noAhead => exact absurd memberAhead (by simp [noAhead])
  have whole := last.split
  rw [List.append_nil] at whole
  refine eq_mergeSort_le ?_ last.ascending
  rw [← whole]
  exact last.permutation

/-- What the loop over the first array passes. -/
theorem Merges.passOwn {theirs : Int} (behind : List Int)
    (merges : Merges left right passed ahead moved (theirs :: todo)) :
    ∃ block rest, ahead = block ++ rest ∧
      Merges left right (passed ++ block) rest moved (theirs :: todo) ∧
      (∀ own ∈ rest.head?, theirs < own) ∧
      passWhile (passed ++ ahead).length
          (fun i => notGreater (passed ++ ahead ++ behind) right i moved.length) passed.length =
        some (passed ++ block).length := by
  have theirsIs : right[moved.length]? = some theirs := by simp [← merges.split]
  have least := (List.pairwise_cons.mp merges.todoAscending).1
  obtain ⟨block, rest, rfl, small, stops, passedOver⟩ :=
    @passWhile_spec passed ahead behind (passed ++ ahead).length
      (fun i => notGreater (passed ++ ahead ++ behind) right i moved.length)
      (fun own => decide (own ≤ theirs)) rfl (fun place own ownIs => by
        rw [notGreater, ownIs, theirsIs]
        rfl)
  have atMost : ∀ own ∈ block, own ≤ theirs := fun own member =>
    of_decide_eq_true (small own member)
  refine ⟨block, rest, rfl, ?_, fun own first => ?_, passedOver⟩
  · exact merges.pass fun own member => List.forall_mem_cons.mpr
      ⟨atMost own member, fun other later => (atMost own member).trans (least other later)⟩
  · exact Int.not_le.mp (of_decide_eq_false (stops own first))

/-- What the loop over the second array passes is some block, which is moved. -/
theorem Merges.takeTheirs {own theirs : Int} (behind : List Int) (greater : theirs < own)
    (merges : Merges left right passed (own :: ahead) moved (theirs :: todo)) :
    ∃ block rest, theirs :: todo = block ++ rest ∧ 0 < block.length ∧
      Merges left right passed (block ++ own :: ahead) (moved ++ block) rest ∧
      passWhile right.length
          (fun j => less (passed ++ own :: ahead ++ behind) right passed.length j) moved.length =
        some (moved ++ block).length := by
  have rightIs := merges.split
  have ownIs : (passed ++ own :: ahead ++ behind)[passed.length]? = some own := by simp
  have least := (List.pairwise_cons.mp (List.pairwise_append.mp merges.ascending).2.1).1
  obtain ⟨block, rest, todoIs, small, stops, passedOver⟩ :=
    @passWhile_spec moved (theirs :: todo) [] right.length
      (fun j => less (passed ++ own :: ahead ++ behind) right passed.length j)
      (fun theirs => decide (theirs < own)) (by rw [rightIs]) (fun place value valueIs => by
        rw [List.append_nil, rightIs] at valueIs
        rw [less, valueIs, ownIs]
        rfl)
  have lower : ∀ value ∈ block, value ≤ own := fun value member =>
    (of_decide_eq_true (small value member)).le
  refine ⟨block, rest, todoIs, ?_, ?_, passedOver⟩
  · cases block with
    | nil =>
        rw [List.nil_append] at todoIs
        have notLess := of_decide_eq_false (stops theirs (by rw [← todoIs]; rfl))
        exact absurd greater notLess
    | cons => exact Nat.succ_pos _
  · rw [todoIs] at merges
    exact merges.move fun value member => List.forall_mem_cons.mpr
      ⟨lower value member, fun other later => (lower value member).trans (least other later)⟩

theorem insert_block (front back moved block todo : List Int) :
    (front ++ back).take front.length ++
        ((moved ++ (block ++ todo)).take (moved ++ block).length).drop moved.length ++
        (front ++ back).drop front.length =
      front ++ block ++ back := by
  rw [← List.append_assoc moved, List.take_left, List.take_left, List.drop_left, List.drop_left]

/-- What the outer loop leaves. -/
theorem mergeLoop_spec {behind : List Int} {fuel : Nat}
    (merges : Merges left right passed ahead moved todo) (enough : todo.length < fuel)
    (few : (passed ++ ahead).length + todo.length < 2 ^ 31) :
    ∃ passed' ahead' moved' todo', Merges left right passed' ahead' moved' todo' ∧
      (todo' = [] ∨ ahead' = []) ∧
      mergeLoop right right.length fuel (passed ++ ahead ++ behind) (passed ++ ahead).length
          passed.length moved.length =
        some (passed' ++ ahead' ++ behind, passed'.length, moved'.length) := by
  induction fuel generalizing passed ahead moved todo with
  | zero => exact absurd enough (Nat.not_lt_zero _)
  | succ fuel inductionHypothesis =>
      cases todo with
      | nil =>
          refine ⟨passed, ahead, moved, [], merges, Or.inl rfl, ?_⟩
          rw [mergeLoop, if_neg (by simp [← merges.split])]
      | cons theirs todo =>
          obtain ⟨block, rest, rfl, merges, greater, passedOver⟩ := merges.passOwn behind
          rw [mergeLoop, if_pos (by simp [← merges.split]), passedOver, ← List.append_assoc]
          dsimp only [Option.bind_eq_bind, Option.bind_some]
          cases rest with
          | nil =>
              rw [if_pos (by rw [List.append_nil])]
              exact ⟨passed ++ block, [], moved, theirs :: todo, merges, Or.inr rfl, rfl⟩
          | cons own rest =>
              obtain ⟨taken, todo', todoIs, positive, after, takenOver⟩ :=
                merges.takeTheirs behind (greater own rfl)
              have all : (passed ++ block ++ (taken ++ own :: rest)).length + todo'.length =
                  (passed ++ (block ++ own :: rest)).length + (theirs :: todo).length := by
                simp only [todoIs, List.length_append]
                omega
              have later := inductionHypothesis after (by
                rw [todoIs, List.length_append] at enough
                omega) (all.trans_lt few)
              have insertion := insert_block (passed ++ block) (own :: rest ++ behind) moved taken
                todo'
              rw [← todoIs, merges.split, ← List.append_assoc] at insertion
              have size : (passed ++ block ++ own :: rest).length +
                  ((moved ++ taken).length - moved.length) =
                (passed ++ block ++ (taken ++ own :: rest)).length := by
                simp only [List.length_append, List.length_cons]
                omega
              have fits : (passed ++ block ++ (taken ++ own :: rest)).length < 2 ^ (32 - 1) := by
                omega
              rw [if_neg (by simp), takenOver]
              dsimp only [Option.bind_some]
              rw [insertion, size, position_of_lt fits]
              simpa using later

/-- Both sorted arrays come out as one, in front of what was behind the first. -/
theorem merge_sorts {left right : List Int} (behind : List Int) (leftSorted : left.Pairwise (· ≤ ·))
    (rightSorted : right.Pairwise (· ≤ ·)) (few : left.length + right.length < 2 ^ 31) :
    merge (left ++ behind) left.length right right.length =
      some ((left ++ right).mergeSort (fun low high => decide (low ≤ high)) ++ behind) := by
  have start : Merges left right [] left [] right :=
    ⟨leftSorted, rightSorted, fun _ member => absurd member (by simp), rfl,
      by rw [List.append_nil]; rfl⟩
  obtain ⟨passed, ahead, moved, todo, merges, ends, returned⟩ :=
    @mergeLoop_spec left right [] left [] right behind (right.length + 1) start
      (Nat.lt_succ_self _) few
  have sorted := merges.finish ends
  simp only [List.nil_append, List.length_nil] at returned
  rw [merge, returned]
  dsimp only [Option.bind_eq_bind, Option.bind_some]
  rw [← sorted, ← merges.split]
  split
  next all =>
      have noTodo : todo = [] := by simpa using all
      simp [noTodo]
  next => simp

/-! ### From the back -/

/-- The greater of two last elements goes in front of what is filled. -/
theorem pairwise_fill {greater smaller : Int} {own theirs filled : List Int}
    (atMost : smaller ≤ greater) (ownAscending : (own ++ [greater] ++ filled).Pairwise (· ≤ ·))
    (theirsAscending : (theirs ++ [smaller] ++ filled).Pairwise (· ≤ ·)) :
    (theirs ++ [smaller] ++ greater :: filled).Pairwise (· ≤ ·) := by
  rw [List.append_assoc] at ownAscending
  have theirsParts := List.pairwise_append.mp theirsAscending
  refine List.pairwise_append.mpr ⟨theirsParts.1, ?_, fun before member => ?_⟩
  · exact (List.pairwise_append.mp ownAscending).2.1
  · refine List.forall_mem_cons.mpr ⟨?_, theirsParts.2.2 before member⟩
    have inOrder := (List.pairwise_append.mp theirsParts.1).2.2 before
    cases List.mem_append.mp member with
    | inl earlier => exact (inOrder earlier smaller (List.mem_singleton_self smaller)).trans atMost
    | inr last => exact (List.mem_singleton.mp last).trans_le atMost

/-- The last of the room is written to. -/
theorem store_room {own room filled rest : List Int} {place : Nat}
    (placeIs : place = (own ++ room).length) (old value : Int) :
    store (own ++ (room ++ [old]) ++ filled ++ rest) place value =
      some (own ++ room ++ value :: filled ++ rest) := by
  subst placeIs
  have inside : (own ++ room).length < (own ++ (room ++ [old]) ++ filled ++ rest).length := by
    simp only [List.length_append, List.length_singleton]
    omega
  rw [store, if_pos inside]
  simp

variable {own theirs room filled rest used : List Int} {last old : Int}

/-- The last element of the first array is the greater one. -/
theorem fillLoop_own {fuel : Nat} {greatest : Int} (fits : room.length = theirs.length)
    (greater : last < greatest) :
    fillLoop (theirs ++ [last] ++ used) (fuel + 1)
        (own ++ [greatest] ++ (room ++ [old]) ++ filled ++ rest) (own.length + 1)
        (theirs.length + 1) (own.length + (theirs.length + 1) + 1) =
      fillLoop (theirs ++ [last] ++ used) fuel
        (own ++ ([greatest] ++ room) ++ greatest :: filled ++ rest) own.length (theirs.length + 1)
        (own.length + (theirs.length + 1)) := by
  have ownIs : (own ++ [greatest] ++ (room ++ [old]) ++ filled ++ rest)[own.length]? =
      some greatest := by simp
  have theirsIs : (theirs ++ [last] ++ used)[theirs.length]? = some last := by simp
  have stored := @store_room (own ++ [greatest]) room filled rest (own.length + (theirs.length + 1))
    (by simp only [List.length_append, List.length_singleton]; omega) old greatest
  rw [fillLoop, takesOwn, less, theirsIs, ownIs, Nat.add_sub_cancel, ownIs]
  simp only [Option.bind_eq_bind, Option.bind_some, Option.pure_def, greater, decide_true, if_true,
    stored]
  rw [List.append_assoc own [greatest] room]

/-- The last element of the second array is put. -/
theorem fillLoop_theirs {fuel : Nat} (fits : room.length = theirs.length)
    (least : ∀ greatest ∈ own.getLast?, greatest ≤ last) :
    fillLoop (theirs ++ [last] ++ used) (fuel + 1) (own ++ (room ++ [old]) ++ filled ++ rest)
        own.length (theirs.length + 1) (own.length + theirs.length + 1) =
      fillLoop (theirs ++ last :: used) fuel (own ++ room ++ last :: filled ++ rest) own.length
        theirs.length (own.length + theirs.length) := by
  have theirsIs : (theirs ++ [last] ++ used)[theirs.length]? = some last := by simp
  have taken : takesOwn (own ++ (room ++ [old]) ++ filled ++ rest) (theirs ++ [last] ++ used)
      own.length theirs.length = some false := by
    rcases List.eq_nil_or_concat' own with rfl | ⟨own, greatest, rfl⟩
    · rfl
    · have notLess := least greatest (by simp)
      rw [List.length_append, List.length_singleton, takesOwn, less, theirsIs]
      simpa using notLess
  have stored := @store_room own room filled rest (own.length + theirs.length) (by simp [fits]) old
    last
  rw [fillLoop, taken, theirsIs]
  simp only [Option.bind_eq_bind, Option.bind_some, Bool.false_eq_true, if_false, stored,
    List.append_assoc theirs, List.singleton_append]

/-- What the loop makes of the room between the elements that are left and those it has put. -/
theorem fillLoop_spec {fuel : Nat} (ownAscending : (own ++ filled).Pairwise (· ≤ ·))
    (theirsAscending : (theirs ++ filled).Pairwise (· ≤ ·)) (fits : room.length = theirs.length)
    (enough : own.length + theirs.length < fuel) :
    ∃ result, fillLoop (theirs ++ used) fuel (own ++ room ++ filled ++ rest) own.length
        theirs.length (own.length + theirs.length) = some (result ++ rest) ∧
      result.Pairwise (· ≤ ·) ∧ result ~ own ++ theirs ++ filled := by
  induction fuel generalizing own room filled theirs used with
  | zero => exact absurd enough (Nat.not_lt_zero _)
  | succ fuel inductionHypothesis =>
      rcases List.eq_nil_or_concat' theirs with rfl | ⟨theirs, last, rfl⟩
      · rw [List.eq_nil_of_length_eq_zero fits]
        refine ⟨own ++ filled, ?_, ownAscending, ?_⟩
        · rw [List.append_nil, List.length_nil, fillLoop]
        · rw [List.append_nil]
      rcases List.eq_nil_or_concat' room with rfl | ⟨room, old, rfl⟩
      · simp at fits
      rw [List.length_append, List.length_append, List.length_singleton, List.length_singleton,
        Nat.add_right_cancel_iff] at fits
      rw [List.length_append, List.length_singleton] at enough ⊢
      by_cases greater : ∃ before greatest, own = before ++ [greatest] ∧ last < greatest
      · obtain ⟨own, greatest, rfl, greater⟩ := greater
        rw [List.length_append, List.length_singleton] at enough ⊢
        obtain ⟨result, returned, sorted, permutation⟩ :=
          @inductionHypothesis own (theirs ++ [last]) ([greatest] ++ room) (greatest :: filled) used
            (by rw [List.append_assoc] at ownAscending; exact ownAscending)
            (pairwise_fill greater.le ownAscending theirsAscending) (by simp [fits])
            (by rw [List.length_append, List.length_singleton]; omega)
        rw [List.length_append, List.length_singleton, ← @fillLoop_own _ _ _ _ _ _ _ old _ _ fits
          greater] at returned
        refine ⟨result, ?_, sorted, permutation.trans ?_⟩
        · rw [← returned]
          congr 1
          omega
        · calc own ++ (theirs ++ [last]) ++ greatest :: filled
            _ = own ++ ((theirs ++ [last]) ++ [greatest] ++ filled) := by simp
            _ ~ own ++ ([greatest] ++ (theirs ++ [last]) ++ filled) :=
              (List.perm_append_comm.append_right filled).append_left own
            _ = own ++ [greatest] ++ (theirs ++ [last]) ++ filled := by simp
      · have least : ∀ greatest ∈ own.getLast?, greatest ≤ last := by
          rcases List.eq_nil_or_concat' own with rfl | ⟨own, greatest, rfl⟩
          · simp
          · simpa using greater
        have ascending : (own ++ last :: filled).Pairwise (· ≤ ·) := by
          rcases List.eq_nil_or_concat' own with rfl | ⟨own, greatest, rfl⟩
          · rw [List.append_assoc] at theirsAscending
            exact (List.pairwise_append.mp theirsAscending).2.1
          · exact pairwise_fill (least greatest (by simp)) theirsAscending ownAscending
        obtain ⟨result, returned, sorted, permutation⟩ :=
          @inductionHypothesis own theirs room (last :: filled) (last :: used) ascending
            (by rw [List.append_assoc] at theirsAscending; exact theirsAscending) fits (by omega)
        rw [← @fillLoop_theirs _ _ _ _ _ _ _ old _ fits least] at returned
        refine ⟨result, returned, sorted, permutation.trans ?_⟩
        rw [← List.append_assoc own theirs, List.append_assoc (own ++ theirs) [last],
          List.singleton_append]

/-- Both sorted arrays come out as one, and what was behind the first is overwritten as far as it is
needed. -/
theorem merge2_sorts {left right behind : List Int} (leftSorted : left.Pairwise (· ≤ ·))
    (rightSorted : right.Pairwise (· ≤ ·)) (room : right.length ≤ behind.length)
    (few : left.length + right.length < 2 ^ 31) :
    merge2 (left ++ behind) left.length right right.length =
      some ((left ++ right).mergeSort (fun low high => decide (low ≤ high)) ++
        behind.drop right.length) := by
  obtain ⟨result, returned, sorted, permutation⟩ :=
    @fillLoop_spec left right (behind.take right.length) [] (behind.drop right.length) []
      (left.length + right.length + 1) (by rwa [List.append_nil]) (by rwa [List.append_nil])
      (List.length_take_of_le room) (Nat.lt_succ_self _)
  rw [List.append_nil] at permutation
  have fits : left.length + right.length < 2 ^ (32 - 1) := by omega
  rw [← eq_mergeSort_le permutation sorted, ← returned, merge2, position_of_lt fits]
  simp

/-- Both versions agree on the part that holds the elements. -/
theorem merge_both_sort {left right behind : List Int} (leftSorted : left.Pairwise (· ≤ ·))
    (rightSorted : right.Pairwise (· ≤ ·)) (room : right.length ≤ behind.length)
    (few : left.length + right.length < 2 ^ 31) :
    merge (left ++ behind) left.length right right.length =
        some ((left ++ right).mergeSort (fun low high => decide (low ≤ high)) ++ behind) ∧
      merge2 (left ++ behind) left.length right right.length =
        some ((left ++ right).mergeSort (fun low high => decide (low ≤ high)) ++
          behind.drop right.length) :=
  ⟨merge_sorts behind leftSorted rightSorted few, merge2_sorts leftSorted rightSorted room few⟩

theorem merge_both_sort_odd_even :
    merge [1, 3, 5, 0, 0, 0] 3 [2, 3, 6] 3 =
        some (([1, 3, 5] ++ [2, 3, 6] : List Int).mergeSort (fun low high => decide (low ≤ high)) ++
          [0, 0, 0]) ∧
      merge2 [1, 3, 5, 0, 0, 0] 3 [2, 3, 6] 3 =
        some (([1, 3, 5] ++ [2, 3, 6] : List Int).mergeSort (fun low high => decide (low ≤ high)) ++
          []) :=
  @merge_both_sort [1, 3, 5] [2, 3, 6] [0, 0, 0] (by decide) (by decide) (by decide) (by decide)

end MergeArrays

end StdPrograms.Hobbies

import StdPrograms.Foundation.Palindromes
import StdPrograms.Hobbies.KGroup
import StdPrograms.Hobbies.ReorderList

/-!
Contract: whether a linked list reads the same from both ends.

Owns both `isPalindrome` of `solution_234.cpp`, that they give the same correct answer, and what
they leave of the list: its second half is turned round.

Does not own the loops that count the nodes and turn the second half round, which are those of
`countNodes` and `reverseLoop`.
-/

namespace StdPrograms.Hobbies

open StdPrograms.Foundation StdPrograms.Foundation.Links

namespace PalindromeList

open KGroup (countNodes)
open ReorderList (reverseLoop)

variable {α : Type} (val : α → Int)

section Code

/-- The loop over `i`: `prev` and `node`. -/
def advance (links : Links α) : Nat → α → Option α → Option (α × Option α)
  | 0, prev, node => some (prev, node)
  | rounds + 1, _, node => do
      let prev ← node
      advance links rounds prev (links (.next prev))

/-- The last loop of `isPalindrome`: `tail` behind it. -/
def compareLoop (links : Links α) : Nat → Option α → Option α → Option (Option α)
  | 0, _, _ => none
  | _ + 1, none, _ => some none
  | fuel + 1, some tail, head => do
      let first ← head
      if val tail = val first then
        compareLoop links fuel (links (.next tail)) (links (.next first))
      else return some tail

/-- The first loop of `isPalindrome2`: `slow` behind it. -/
def middleLoop (links : Links α) : Nat → α → α → Option α
  | 0, _, _ => none
  | fuel + 1, slow, fast =>
      match links (.next fast) with
      | none => some slow
      | some next =>
          match links (.next next) with
          | none => some slow
          | some fast => do
              let slow ← links (.next slow)
              middleLoop links fuel slow fast

/-- The last loop of `isPalindrome2`: what it returns. -/
def compareLoop2 (links : Links α) : Nat → Option α → Option α → Option Bool
  | 0, _, _ => none
  | _ + 1, none, _ => some true
  | fuel + 1, some tail, head => do
      let first ← head
      if val tail ≠ val first then return false
      else compareLoop2 links fuel (links (.next tail)) (links (.next first))

variable [DecidableEq α]

/-- What is returned, and the links. -/
def isPalindrome (fuel : Nat) (links : Links α) (head : Option α) : Option (Bool × Links α) :=
  match head with
  | none => some (true, links)
  | some first => do
      let n ← countNodes links fuel head 0
      let rounded ← position 32 (n + 1)
      let (prev, node) ← advance links (rounded / 2) first head
      let (links, tail) ← reverseLoop fuel links none node
      let links := links.set (.next prev) tail
      let rest ← compareLoop val links fuel tail head
      return (rest.isNone, links)

def isPalindrome2 (fuel : Nat) (links : Links α) (head : Option α) : Option (Bool × Links α) :=
  match head with
  | none => some (true, links)
  | some first => do
      let slow ← middleLoop links fuel first first
      let (links, tail) ← reverseLoop fuel links none (links (.next slow))
      let links := links.set (.next slow) tail
      let answer ← compareLoop2 val links fuel tail head
      return (answer, links)

end Code

/-! ### To the middle -/

variable {val} {links : Links α} {front back : List α} {middle : α}

theorem advance_spec {start : Option α} (leads : Leads links start (front ++ middle :: back))
    (prev : α) :
    advance links (front.length + 1) prev start = some (middle, links (.next middle)) := by
  induction front generalizing start prev with
  | nil =>
      obtain rfl := leads.1
      rfl
  | cons node rest inductionHypothesis =>
      obtain rfl := leads.1
      exact inductionHypothesis leads.2 node

/-- `slow` advances by half of what is behind `fast`. -/
theorem middleLoop_spec {fuel : Nat} {slow fast : α} {ahead : List α}
    (slowLeads : Leads links (some slow) (front ++ middle :: back))
    (fastLeads : Leads links (links (.next fast)) ahead) (half : front.length = ahead.length / 2)
    (enough : ahead.length < fuel) : middleLoop links fuel slow fast = some middle := by
  induction fuel generalizing slow fast ahead front with
  | zero => exact absurd enough (Nat.not_lt_zero _)
  | succ fuel inductionHypothesis =>
      rw [middleLoop]
      match ahead with
      | [] =>
          obtain rfl : front = [] := List.eq_nil_of_length_eq_zero (by simpa using half)
          rw [show links (.next fast) = none from fastLeads, Option.some.inj slowLeads.1]
      | [next] =>
          obtain rfl : front = [] := List.eq_nil_of_length_eq_zero (by simpa using half)
          rw [fastLeads.1]
          dsimp only
          rw [show links (.next next) = none from fastLeads.2, Option.some.inj slowLeads.1]
      | next :: fast' :: later =>
          simp only [List.length_cons] at half enough
          rw [fastLeads.1]
          dsimp only
          rw [fastLeads.2.1]
          dsimp only
          obtain ⟨node, rest, rfl⟩ := @List.exists_cons_of_length_pos _ front (by omega)
          obtain rfl : slow = node := Option.some.inj slowLeads.1
          obtain ⟨slow', advanced⟩ : ∃ slow', links (.next slow) = some slow' := by
            cases rest with
            | nil => exact ⟨middle, slowLeads.2.1⟩
            | cons other _ => exact ⟨other, slowLeads.2.1⟩
          have behind := slowLeads.2
          rw [List.append_eq, advanced] at behind
          rw [List.length_cons] at half
          rw [advanced]
          exact inductionHypothesis behind fastLeads.2.2 (by omega) (by omega)

/-- The nodes on both sides of the middle, to which both functions come. -/
theorem exists_middle {nodes : List α} (nonempty : nodes ≠ []) :
    ∃ front middle back, nodes = front ++ middle :: back ∧
      front.length = (nodes.length - 1) / 2 := by
  have positive := List.length_pos_iff.mpr nonempty
  obtain ⟨middle, back, behind⟩ := @List.exists_cons_of_length_pos _
    (nodes.drop ((nodes.length - 1) / 2)) (by rw [List.length_drop]; omega)
  refine ⟨nodes.take ((nodes.length - 1) / 2), middle, back, ?_, ?_⟩
  · rw [← behind, List.take_append_drop]
  · exact List.length_take_of_le (by omega)

/-! ### The second half -/

/-- What the loops compare: the values of one list with those at the beginning of another. -/
theorem compareLoop_spec {fuel : Nat} {tail head : Option α} {left right : List α}
    (tailLeads : Leads links tail left) (headLeads : Leads links head right)
    (room : left.length ≤ right.length) (enough : left.length < fuel) :
    ∃ rest, compareLoop val links fuel tail head = some rest ∧
      (rest.isNone = true ↔ left.map val = (right.map val).take left.length) := by
  induction left generalizing fuel tail head right with
  | nil =>
      obtain ⟨fuel, rfl⟩ := Nat.exists_eq_add_one_of_ne_zero (Nat.ne_zero_of_lt enough)
      obtain rfl : tail = none := tailLeads
      exact ⟨none, rfl, by simp⟩
  | cons node left inductionHypothesis =>
      obtain ⟨fuel, rfl⟩ := Nat.exists_eq_add_one_of_ne_zero (Nat.ne_zero_of_lt enough)
      obtain ⟨first, right, rfl⟩ := List.exists_cons_of_length_pos
        (Nat.lt_of_lt_of_le (Nat.succ_pos _) room)
      obtain rfl := tailLeads.1
      obtain rfl := headLeads.1
      simp only [compareLoop, Option.bind_eq_bind, Option.bind_some, List.map_cons,
        List.length_cons, List.take_succ_cons, List.cons.injEq]
      by_cases equal : val node = val first
      · obtain ⟨rest, returned, answer⟩ := inductionHypothesis tailLeads.2 headLeads.2
          (Nat.le_of_succ_le_succ room) (Nat.lt_of_succ_lt_succ enough)
        refine ⟨rest, ?_, ?_⟩
        · rw [if_pos equal, returned]
        · rw [answer, and_iff_right equal]
      · rw [if_neg equal]
        exact ⟨some node, rfl, by simp [equal]⟩

theorem compareLoop2_eq (fuel : Nat) (tail head : Option α) :
    compareLoop2 val links fuel tail head =
      (compareLoop val links fuel tail head).map Option.isNone := by
  induction fuel generalizing tail head with
  | zero => rfl
  | succ fuel inductionHypothesis =>
      cases tail with
      | none => rfl
      | some tail =>
          cases head with
          | none => rfl
          | some head =>
              by_cases equal : val tail = val head <;>
                simp [compareLoop2, compareLoop, equal, inductionHypothesis]

variable [DecidableEq α]

/-- What is behind the middle is turned round, first apart from the list and then in it. -/
theorem half_turned {fuel : Nat} {head : Option α}
    (leads : Leads links head (front ++ middle :: back)) (enough : back.length < fuel) :
    ∃ between tail, reverseLoop fuel links none (links (.next middle)) = some (between, tail) ∧
      Leads (between.set (.next middle) tail) tail back.reverse ∧
      Leads (between.set (.next middle) tail) head (front ++ middle :: back.reverse) ∧
      ∀ place, place ∉ (front ++ middle :: back).map Slot.next →
        between.set (.next middle) tail place = links place := by
  have distinct := leads.nodup
  rw [List.nodup_append', List.nodup_cons, List.disjoint_cons_right] at distinct
  obtain ⟨-, ⟨middleNew, backDistinct⟩, middleFront, apart⟩ := distinct
  obtain ⟨between, tail, turned, tailLeads, frame⟩ := @ReorderList.reverseLoop_spec α _ fuel links
    none (links (.next middle)) [] back rfl leads.behind (by rwa [List.append_nil]) enough
  rw [List.append_nil] at tailLeads
  have backLeads : Leads (between.set (.next middle) tail) tail back.reverse := by
    apply tailLeads.set
    simpa using middleNew
  refine ⟨between, tail, turned, backLeads, ?_, ?_⟩
  · apply leads.splice
    · intro node inFront
      rw [set_other]
      · exact frame _ fun other inBack same => apart inFront (Slot.next.inj same ▸ inBack)
      · exact fun same => middleFront (Slot.next.inj same ▸ inFront)
    · rw [set_same]
      exact backLeads
  · intro place outside
    rw [List.map_append, List.mem_append, List.map_cons, List.mem_cons, not_or, not_or] at outside
    rw [set_other _ _ outside.2.1]
    exact frame place fun node inBack same => outside.2.2 (same ▸ List.mem_map_of_mem inBack)

omit [DecidableEq α] in
theorem countNodes_of_leads {fuel : Nat} {first : α} {ahead : List α}
    (leads : Leads links (links (.next first)) ahead) (enough : ahead.length + 1 < fuel)
    (small : ahead.length + 1 < 2 ^ 31) :
    countNodes links fuel (some first) 0 = some (ahead.length + 1) := by
  obtain ⟨fuel, rfl⟩ := Nat.exists_eq_add_one_of_ne_zero (Nat.ne_zero_of_lt enough)
  have chain : Chain links (.next first) ahead := chain_iff_leads.mpr leads
  rw [countNodes, Nat.zero_add, position_of_lt (by norm_num)]
  simp only [Option.bind_eq_bind, Option.bind_some]
  rw [chain.head?_eq, KGroup.countNodes_eq chain (Nat.lt_of_succ_lt_succ enough) (by omega),
    Nat.add_comm]

omit [DecidableEq α] in
/-- The answer is that of the comparison. -/
theorem palindrome_iff_halves (room : back.length ≤ front.length + 1)
    (half : front.length ≤ back.length) :
    ((front ++ middle :: back).map val).Palindrome ↔
      back.reverse.map val =
        ((front ++ middle :: back.reverse).map val).take back.reverse.length := by
  have sizes : (back.map val).length ≤ ((front ++ [middle]).map val).length ∧
      ((front ++ [middle]).map val).length ≤ (back.map val).length + 1 := by
    simp only [List.length_map, List.length_append, List.length_singleton]
    omega
  have halves := palindrome_append_iff sizes.1 sizes.2
  rw [← List.map_append, ← List.append_cons, ← List.map_reverse, List.length_map] at halves
  rw [List.length_map] at sizes
  have longer : front ++ middle :: back.reverse = (front ++ [middle]) ++ back.reverse :=
    List.append_cons front middle back.reverse
  have taken : ((front ++ middle :: back.reverse).map val).take back.length =
      ((front ++ [middle]).map val).take back.length := by
    rw [longer, List.map_append, List.take_append_of_le_length sizes.1]
  rw [halves, List.length_reverse, taken]

/-- Both functions return whether the values of the nodes are a palindrome, and both leave the
nodes up to the middle as they are and turn the others round. -/
theorem isPalindrome_palindrome {fuel : Nat} {head : Option α} {nodes : List α}
    (leads : Leads links head nodes) (enough : nodes.length < fuel)
    (small : nodes.length + 1 < 2 ^ 31) :
    ∃ answer after, isPalindrome val fuel links head = some (answer, after) ∧
      isPalindrome2 val fuel links head = some (answer, after) ∧
      (answer = true ↔ (nodes.map val).Palindrome) ∧
      Leads after head (nodes.take ((nodes.length + 1) / 2) ++
        (nodes.drop ((nodes.length + 1) / 2)).reverse) ∧
      ∀ place, place ∉ nodes.map Slot.next → after place = links place := by
  by_cases empty : nodes = []
  · subst empty
    have ended : head = none := leads
    subst ended
    exact ⟨true, links, rfl, rfl, by simp [List.Palindrome.nil], by simpa using leads,
      fun _ _ => rfl⟩
  · obtain ⟨front, middle, back, rfl, half⟩ := exists_middle empty
    obtain ⟨first, ahead, whole⟩ := List.exists_cons_of_ne_nil empty
    have fromFirst := leads
    rw [whole] at fromFirst
    obtain rfl : head = some first := fromFirst.1
    have size := congrArg List.length whole
    rw [List.length_append, List.length_cons, List.length_cons] at size
    rw [List.length_append, List.length_cons] at half enough small ⊢
    obtain ⟨between, tail, turned, tailLeads, headLeads, frame⟩ :=
      @half_turned α links front back middle _ fuel _ leads (by omega)
    obtain ⟨rest, compared, answer⟩ := @compareLoop_spec α val _ fuel tail _ back.reverse _
      tailLeads headLeads (by rw [List.length_reverse, List.length_append, List.length_cons]; omega)
      (by rw [List.length_reverse]; omega)
    have rounds : (front.length + (back.length + 1) + 1) / 2 = front.length + 1 := by omega
    refine ⟨rest.isNone, _, ?_, ?_, ?_, ?_, frame⟩
    · have counted := @countNodes_of_leads α links fuel first ahead fromFirst.2 (by omega) (by omega)
      have fits : ahead.length + 1 + 1 < 2 ^ (32 - 1) := by norm_num; omega
      rw [size] at rounds
      simp only [isPalindrome, counted, Option.bind_eq_bind, Option.bind_some,
        position_of_lt fits, rounds, advance_spec leads, turned, compared]
      rfl
    · have found := @middleLoop_spec α links front back middle fuel first first ahead leads
        fromFirst.2 (by omega) (by omega)
      simp only [isPalindrome2, found, Option.bind_eq_bind, Option.bind_some, turned,
        compareLoop2_eq, compared]
      rfl
    · rw [answer]
      exact (palindrome_iff_halves (by omega) (by omega)).symm
    · rw [rounds, List.append_cons, List.take_left' (by simp), List.drop_left' (by simp),
        List.append_assoc]
      exact headLeads

/-- Three nodes in a row, the second one with another value. -/
def threeNodes : Links Nat
  | .root => some 0
  | .next node => if node < 2 then some (node + 1) else none

def values (node : Nat) : Int :=
  if node = 1 then 1 else 0

theorem isPalindrome_palindrome_threeNodes :
    ∃ answer after, isPalindrome values 4 threeNodes (some 0) = some (answer, after) ∧
      isPalindrome2 values 4 threeNodes (some 0) = some (answer, after) ∧
      (answer = true ↔ ([0, 1, 2].map values).Palindrome) ∧ Leads after (some 0) [0, 1, 2] ∧
      ∀ place, place ∉ [0, 1, 2].map Slot.next → after place = threeNodes place :=
  @isPalindrome_palindrome Nat values threeNodes _ 4 _ [0, 1, 2] ⟨rfl, rfl, rfl, rfl⟩ (by decide)
    (by decide)

end PalindromeList

end StdPrograms.Hobbies

import Mathlib.Data.List.Induction
import Mathlib.Data.List.Sort

/-!
Contract: the third greatest element.

Owns `thirdMax` and `thirdMax2` of `solution_414.cpp`: the one that keeps the greatest elements in a
set, and the one that keeps them in an array of three; and that both return the third of the
greatest elements without repetition, or the greatest one where there are fewer.

Does not own the values that an array has before any is stored; there are none.
-/

namespace StdPrograms.Hobbies

namespace ThirdMax

section Code

/-- One round; the set is given by its elements in their order. -/
def setRound (res : List Int) (num : Int) : Option (List Int) :=
  if num ∈ res then some res
  else if res.length < 3 then some (res.orderedInsert (· ≤ ·) num)
  else do
    let first ← res.head?
    if first < num then return res.tail.orderedInsert (· ≤ ·) num else return res

def thirdMax (nums : List Int) : Option Int := do
  let res ← nums.foldlM setRound []
  if res.length < 3 then res.getLast? else res.head?

/-- `n > place && test(res[place])` -/
def checked (res : List (Option Int)) (n place : Nat) (test : Int → Bool) : Option Bool :=
  if place < n then do
    let value ← res[place]?
    return test (← value)
  else some false

/-- The first test of a round. -/
def known (res : List (Option Int)) (n : Nat) (num : Int) : Option Bool := do
  if ← checked res n 0 (num = ·) then return true
  else if ← checked res n 1 (num = ·) then return true
  else checked res n 2 (num = ·)

/-- The `index` of a round. -/
def indexOf (res : List (Option Int)) (n : Nat) (num : Int) : Option Nat := do
  if n = 0 then return 0
  else if ← checked res n 0 (· < num) then return 0
  else if ← checked res n 1 (· < num) then return 1
  else if ← checked res n 2 (· < num) then return 2
  else return n

/-- `memmove`, in elements. -/
def memmove (res : List (Option Int)) (target source count : Nat) : List (Option Int) :=
  res.take target ++ (res.drop source).take count ++ res.drop (target + count)

def arrayRound (state : List (Option Int) × Nat) (num : Int) : Option (List (Option Int) × Nat) :=
  let (res, n) := state
  do
    if ← known res n num then return (res, n)
    else
      let index ← indexOf res n num
      if index < 3 then
        let res := if index < 2 then memmove res (index + 1) index (min n (2 - index)) else res
        let res := res.set index (some num)
        return (res, if n < 3 then n + 1 else n)
      else return (res, n)

def thirdMax2 (nums : List Int) : Option Int := do
  let (res, n) ← nums.foldlM arrayRound ([none, none, none], 0)
  let value ← res[if n < 3 then 0 else 2]?
  value

end Code

/-! ### The greatest elements -/

/-- The greatest elements without repetition, at most three, from the greatest on. -/
structure Greatest (nums top : List Int) : Prop where
  descending : top.Pairwise (· > ·)
  few : top.length ≤ 3
  inside : ∀ num ∈ top, num ∈ nums
  greater : ∀ num ∈ nums, num ∈ top ∨ top.length = 3 ∧ ∀ other ∈ top, num < other

/-- One more element. -/
def add (top : List Int) (num : Int) : List Int :=
  if num ∈ top then top else (top.orderedInsert (· ≥ ·) num).take 3

/-- The array that holds them. -/
def cells (top : List Int) : List (Option Int) :=
  top.map some ++ List.replicate (3 - top.length) none

variable {nums top : List Int}

/-- Where an element is put that is not among those of a descending list. -/
theorem exists_split (descending : top.Pairwise (· > ·)) {num : Int} (new : num ∉ top) :
    ∃ front back, top = front ++ back ∧ (∀ other ∈ front, num < other) ∧
      ∀ other ∈ back, other < num := by
  induction top with
  | nil => exact ⟨[], [], rfl, by simp, by simp⟩
  | cons first rest inductionHypothesis =>
      obtain ⟨below, restDescending⟩ := List.pairwise_cons.mp descending
      rw [List.mem_cons, not_or] at new
      obtain ⟨notFirst, notRest⟩ := new
      cases Int.lt_or_gt_of_ne notFirst with
      | inl less =>
          obtain ⟨front, back, rfl, greater, smaller⟩ := inductionHypothesis restDescending notRest
          exact ⟨first :: front, back, rfl, List.forall_mem_cons.mpr ⟨less, greater⟩, smaller⟩
      | inr greater =>
          exact ⟨[], first :: rest, rfl, by simp, List.forall_mem_cons.mpr
            ⟨greater, fun other member => Int.lt_trans (below other member) greater⟩⟩

theorem orderedInsert_append {relation : Int → Int → Prop} [DecidableRel relation]
    {front back : List Int} {num : Int} (before : ∀ other ∈ front, ¬relation num other)
    (behind : ∀ other ∈ back, relation num other) :
    (front ++ back).orderedInsert relation num = front ++ num :: back := by
  induction front with
  | nil =>
      cases back with
      | nil => rfl
      | cons first rest =>
          exact List.orderedInsert_cons_of_le relation rest (behind first List.mem_cons_self)
  | cons first front inductionHypothesis =>
      obtain ⟨notFirst, others⟩ := List.forall_mem_cons.mp before
      rw [List.cons_append, List.orderedInsert_of_not_le relation (front ++ back) notFirst,
        inductionHypothesis others]
      rfl

variable {front back : List Int} {num : Int}

theorem add_append (greater : ∀ other ∈ front, num < other)
    (smaller : ∀ other ∈ back, other < num) :
    add (front ++ back) num = (front ++ num :: back).take 3 := by
  have new : num ∉ front ++ back := by
    intro member
    cases List.mem_append.mp member with
    | inl inFront => exact Int.lt_irrefl _ (greater num inFront)
    | inr inBack => exact Int.lt_irrefl _ (smaller num inBack)
  have inserted := @orderedInsert_append (· ≥ ·) _ front back num
    (fun other member => Int.not_le.mpr (greater other member))
    (fun other member => (smaller other member).le)
  rw [add, if_neg new, inserted]

/-! ### The array -/

theorem checked_cells (top : List Int) (place : Nat) (test : Int → Bool) :
    checked (cells top) top.length place test = some (top[place]?.any test) := by
  rw [checked]
  split
  next inside =>
    have found : (cells top)[place]? = some (some top[place]) := by
      rw [cells, List.getElem?_append_left (by simpa using inside)]
      simp
    rw [found, List.getElem?_eq_getElem inside]
    rfl
  next outside =>
    rw [List.getElem?_eq_none (Nat.not_lt.mp outside)]
    rfl

theorem known_cells (few : top.length ≤ 3) (num : Int) :
    known (cells top) top.length num = some (decide (num ∈ top)) := by
  rw [known]
  simp only [checked_cells]
  match top, few with
  | [], _ => rfl
  | [a], _ => by_cases first : num = a <;> simp [first]
  | [a, b], _ => by_cases first : num = a <;> by_cases second : num = b <;> simp [first, second]
  | [a, b, c], _ => by_cases first : num = a <;> by_cases second : num = b <;> simp [first, second]

/-- The places of smaller elements are those behind the front. -/
theorem checked_less (greater : ∀ other ∈ front, num < other)
    (smaller : ∀ other ∈ back, other < num) (place : Nat) :
    checked (cells (front ++ back)) (front ++ back).length place (· < num) =
      some (decide (front.length ≤ place ∧ place < (front ++ back).length)) := by
  rw [checked_cells, Option.some_inj]
  cases found : (front ++ back)[place]? with
  | none =>
      have outside := List.getElem?_eq_none_iff.mp found
      exact (decide_eq_false fun both => absurd both.2 (Nat.not_lt.mpr outside)).symm
  | some value =>
      obtain ⟨inside, -⟩ := List.getElem?_eq_some_iff.mp found
      rw [Option.any_some]
      by_cases behind : front.length ≤ place
      · rw [List.getElem?_append_right behind] at found
        have less := smaller value (List.mem_of_getElem? found)
        simp only [less, behind, inside, decide_true, and_self]
      · rw [List.getElem?_append_left (Nat.not_le.mp behind)] at found
        have notLess := Int.not_lt.mpr (greater value (List.mem_of_getElem? found)).le
        simp [notLess, behind]

theorem indexOf_cells (few : (front ++ back).length ≤ 3) (greater : ∀ other ∈ front, num < other)
    (smaller : ∀ other ∈ back, other < num) :
    indexOf (cells (front ++ back)) (front ++ back).length num = some front.length := by
  rw [indexOf]
  simp only [checked_less greater smaller, Option.bind_eq_bind, Option.bind_some, decide_eq_true_eq]
  rw [List.length_append] at *
  split_ifs
  all_goals
    rw [Option.pure_def, Option.some_inj]
    omega

/-- What is stored when the index is known. -/
theorem store_cells (few : (front ++ back).length ≤ 3) (inside : front.length < 3) (num : Int) :
    (if front.length < 2 then memmove (cells (front ++ back)) (front.length + 1) front.length
        (min (front ++ back).length (2 - front.length)) else cells (front ++ back)).set front.length
          (some num) =
      cells ((front ++ num :: back).take 3) := by
  match front, back, few, inside with
  | [], [], _, _ => rfl
  | [], [a], _, _ => rfl
  | [], [a, b], _, _ => rfl
  | [], [a, b, c], _, _ => rfl
  | [a], [], _, _ => rfl
  | [a], [b], _, _ => rfl
  | [a], [b, c], _, _ => rfl
  | [a, b], [], _, _ => rfl
  | [a, b], [c], _, _ => rfl

theorem arrayRound_eq (descending : top.Pairwise (· > ·)) (few : top.length ≤ 3) (num : Int) :
    arrayRound (cells top, top.length) num = some (cells (add top num), (add top num).length) := by
  rw [arrayRound]
  dsimp only
  rw [known_cells few]
  dsimp only [Option.bind_eq_bind, Option.bind_some]
  by_cases member : num ∈ top
  · rw [if_pos (decide_eq_true member), add, if_pos member]
    rfl
  · obtain ⟨front, back, rfl, greater, smaller⟩ := exists_split descending member
    rw [if_neg (by simpa using member), indexOf_cells few greater smaller,
      add_append greater smaller]
    dsimp only [Option.bind_some]
    split
    next inside =>
      have size : ((front ++ num :: back).take 3).length =
          if (front ++ back).length < 3 then (front ++ back).length + 1
          else (front ++ back).length := by
        rw [List.length_append] at few
        simp only [List.length_take, List.length_append, List.length_cons]
        split <;> omega
      rw [store_cells few inside, size]
      rfl
    next outside =>
      rw [List.length_append] at few
      obtain rfl : back = [] := List.eq_nil_of_length_eq_zero (by omega)
      rw [List.take_append_of_le_length (by omega), List.take_of_length_le (by omega),
        List.append_nil]
      rfl

/-! ### The set -/

theorem setRound_eq (descending : top.Pairwise (· > ·)) (few : top.length ≤ 3) (num : Int) :
    setRound top.reverse num = some (add top num).reverse := by
  rw [setRound]
  by_cases member : num ∈ top
  · rw [if_pos (List.mem_reverse.mpr member), add, if_pos member]
  · obtain ⟨front, back, rfl, greater, smaller⟩ := exists_split descending member
    rw [if_neg (mt List.mem_reverse.mp member), add_append greater smaller, List.length_reverse,
      List.reverse_append]
    have inserted : ∀ others, (∀ other ∈ others, other < num) →
        (others.reverse ++ front.reverse).orderedInsert (· ≤ ·) num =
          (front ++ num :: others).reverse := by
      intro others below
      rw [orderedInsert_append (by simpa using below) (by
        intro other inFront
        exact (greater other (List.mem_reverse.mp inFront)).le)]
      simp
    split
    next room =>
      rw [inserted back smaller, List.take_of_length_le]
      simp only [List.length_append, List.length_cons] at room ⊢
      omega
    next full =>
      rw [List.length_append] at few full
      rcases List.eq_nil_or_concat' back with rfl | ⟨others, last, rfl⟩
      · rcases List.eq_nil_or_concat' front with rfl | ⟨before, last, rfl⟩
        · simp at full
        · rw [List.length_nil, Nat.add_zero] at few full
          have notLess : ¬last < num := Int.not_lt.mpr (greater last (by simp)).le
          rw [List.take_append_of_le_length (by omega), List.take_of_length_le (by omega)]
          simp [notLess]
      · have less := smaller last (by simp)
        have rest := inserted others fun other member => smaller other (by simp [member])
        rw [List.length_append, List.length_singleton] at few full
        have size : (front ++ num :: others).length = 3 := by
          rw [List.length_append, List.length_cons]
          omega
        rw [← List.cons_append, ← List.append_assoc front,
          List.take_append_of_le_length size.ge, List.take_of_length_le size.le]
        simp [less, rest]

/-! ### All elements -/

theorem Greatest.add (greatest : Greatest nums top) (num : Int) :
    Greatest (nums ++ [num]) (add top num) := by
  obtain ⟨descending, few, inside, covered⟩ := greatest
  by_cases member : num ∈ top
  · rw [ThirdMax.add, if_pos member]
    refine ⟨descending, few, fun other among => List.mem_append_left _ (inside other among), ?_⟩
    refine List.forall_mem_append.mpr ⟨covered, ?_⟩
    exact List.forall_mem_singleton.mpr (Or.inl member)
  · obtain ⟨front, back, rfl, greater, smaller⟩ := exists_split descending member
    rw [add_append greater smaller]
    have split := (List.take_append_drop 3 (front ++ num :: back)).symm
    have parts := List.pairwise_append.mp descending
    have ordered : (front ++ num :: back).Pairwise (· > ·) := by
      refine List.pairwise_append.mpr ⟨parts.1, List.pairwise_cons.mpr ⟨smaller, parts.2.1⟩, ?_⟩
      exact fun other inFront => List.forall_mem_cons.mpr ⟨greater other inFront,
        parts.2.2 other inFront⟩
    constructor
    · exact ordered.sublist (List.take_sublist 3 _)
    · exact List.length_take_le 3 _
    · intro other among
      have inList := List.mem_of_mem_take among
      rw [List.mem_append, List.mem_cons] at inList
      rw [List.mem_append, List.mem_singleton]
      rcases inList with inFront | isNum | inBack
      · exact Or.inl (inside other (List.mem_append_left back inFront))
      · exact Or.inr isNum
      · exact Or.inl (inside other (List.mem_append_right front inBack))
    · intro other among
      by_cases inList : other ∈ front ++ num :: back
      · rw [split] at ordered inList
        cases List.mem_append.mp inList with
        | inl first => exact Or.inl first
        | inr rest =>
            right
            refine ⟨?_, fun greatest first =>
              (List.pairwise_append.mp ordered).2.2 greatest first other rest⟩
            have longer := List.length_pos_of_mem rest
            rw [List.length_drop] at longer
            rw [List.length_take]
            omega
      · rw [List.mem_append, List.mem_cons, not_or, not_or] at inList
        obtain ⟨notFront, notNum, notBack⟩ := inList
        have before : other ∈ nums := by
          rw [List.mem_append, List.mem_singleton] at among
          exact among.resolve_right notNum
        have notIn : other ∉ front ++ back := by
          rw [List.mem_append, not_or]
          exact ⟨notFront, notBack⟩
        obtain ⟨full, below⟩ := (covered other before).resolve_left notIn
        rw [List.length_append] at full
        have size : (front ++ num :: back).length = 4 := by
          rw [List.length_append, List.length_cons]
          omega
        have belowTop : ∀ greatest ∈ front ++ num :: back, greatest ≠ num → other < greatest := by
          intro greatest inside different
          apply below
          rw [List.mem_append, List.mem_cons] at inside
          rw [List.mem_append]
          tauto
        refine Or.inr ⟨by rw [List.length_take, size]; rfl, fun greatest first => ?_⟩
        by_cases same : greatest = num
        · -- the element that is dropped is less than the new one
          obtain ⟨dropped, isDropped⟩ := List.exists_mem_of_length_pos
            (by rw [List.length_drop, size]; omega : 0 < ((front ++ num :: back).drop 3).length)
          rw [split] at ordered
          have less := (List.pairwise_append.mp ordered).2.2 greatest first dropped isDropped
          have above := belowTop dropped (List.mem_of_mem_drop isDropped) (by omega)
          omega
        · exact belowTop greatest (List.mem_of_mem_take first) same

/-- What both functions have kept of the elements seen so far. -/
theorem rounds_eq (nums : List Int) :
    ∃ top, Greatest nums top ∧ nums.foldlM setRound [] = some top.reverse ∧
      nums.foldlM arrayRound ([none, none, none], 0) = some (cells top, top.length) := by
  induction nums using List.reverseRecOn with
  | nil => exact ⟨[], ⟨by simp, by simp, by simp, by simp⟩, rfl, rfl⟩
  | append_singleton nums num inductionHypothesis =>
      obtain ⟨top, greatest, inSet, inArray⟩ := inductionHypothesis
      refine ⟨add top num, greatest.add num, ?_, ?_⟩
      · rw [List.foldlM_append, inSet]
        simpa using setRound_eq greatest.descending greatest.few num
      · rw [List.foldlM_append, inArray]
        simpa using arrayRound_eq greatest.descending greatest.few num

end ThirdMax

end StdPrograms.Hobbies

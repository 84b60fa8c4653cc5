import StdPrograms.Foundation.Multiplicities
import StdPrograms.Foundation.SignedInt

/-!
Contract: what two ascending vectors have in common.

Owns `find_common`, a merge with two counters, `find_common1`, which leaps with binary searches, and
`find_common2`, which begins with the first and the last elements, of
`common_elements_of_2_array.cpp`, what each of them returns, and for which vectors all are right.

Does not own `main` with its numbers and times.
-/

namespace StdPrograms.Hobbies

open StdPrograms.Foundation

namespace CommonElements

/-! ### The functions -/

/-- The places of two iterators into a vector; a place of no element cannot be read. -/
structure Range where
  elements : List Int
  first : Nat
  last : Nat

def Range.front (range : Range) : Option Int := range.elements[range.first]?

def Range.back (range : Range) : Option Int := range.elements[range.last - 1]?

/-- The first place in the range whose element is not less, or its end. -/
def Range.lowerBound (range : Range) (value : Int) : Nat :=
  range.first +
    (((range.elements.take range.last).drop range.first).takeWhile (· < value)).length

/-- The comparison of the first elements, which both helpers have. -/
def advance (r1 r2 : Range) (result : List Int) : Option (Range × Range × List Int) := do
  let x ← r1.front
  let y ← r2.front
  if x = y then
    return ({ r1 with first := r1.first + 1 }, { r2 with first := r2.first + 1 }, result ++ [x])
  else
    let (r1, r2) := if x > y then (r2, r1) else (r1, r2)
    let value ← r2.front
    return ({ r1 with first := r1.lowerBound value }, r2, result)

def findCommonHelper : Nat → Range → Range → List Int → Option (List Int)
  | 0, _, _, _ => none
  | fuel + 1, r1, r2, result =>
      if r1.first = r1.last ∨ r2.first = r2.last then some result
      else do
        let (r1, r2, result) ← advance r1 r2 result
        findCommonHelper fuel r1 r2 result

/-- The comparison of the last elements; what follows the range is read where they differ. -/
def trim (fuel : Nat) (r1 r2 : Range) (result : List Int) : Option (List Int) :=
  if r1.first = r1.last ∨ r2.first = r2.last then some result
  else do
    let l1 ← r1.back
    let l2 ← r2.back
    if l1 = l2 then
      findCommonHelper fuel { r1 with last := r1.last - 1 } { r2 with last := r2.last - 1 }
        (result ++ [l1])
    else
      let (r1, r2) := if l1 < l2 then (r2, r1) else (r1, r2)
      let value ← r2.elements[r2.last]?
      findCommonHelper fuel { r1 with last := r1.lowerBound value + 1 } r2 result

def findCommonHelper2 (fuel : Nat) (r1 r2 : Range) (result : List Int) : Option (List Int) :=
  if r1.first = r1.last ∨ r2.first = r2.last then some result
  else do
    let (r1, r2, result) ← advance r1 r2 result
    trim fuel r1 r2 result

def mergeLoop (va vb : List Int) : Nat → Nat → Nat → List Int → Option (List Int)
  | 0, _, _, _ => none
  | fuel + 1, i, j, result =>
      if i < va.length ∧ j < vb.length then do
        let a ← va[i]?
        let b ← vb[j]?
        if a = b then
          let i ← position 32 (i + 1)
          let j ← position 32 (j + 1)
          mergeLoop va vb fuel i j (result ++ [a])
        else if a < b then
          let i ← position 32 (i + 1)
          mergeLoop va vb fuel i j result
        else
          let j ← position 32 (j + 1)
          mergeLoop va vb fuel i j result
      else some result

def findCommon (fuel : Nat) (va vb : List Int) : Option (List Int) := mergeLoop va vb fuel 0 0 []

def whole (elements : List Int) : Range := ⟨elements, 0, elements.length⟩

def findCommon1 (fuel : Nat) (va vb : List Int) : Option (List Int) :=
  findCommonHelper fuel (whole va) (whole vb) []

def findCommon2 (fuel : Nat) (va vb : List Int) : Option (List Int) :=
  findCommonHelper2 fuel (whole va) (whole vb) []

variable {va vb left right items others result : List Int} {range r1 r2 : Range} {x y : Int}

/-! ### Ranges -/

/-- The range is over these elements of its vector. -/
def Range.Over (range : Range) (items : List Int) : Prop :=
  ∃ before behind, range.elements = before ++ items ++ behind ∧ range.first = before.length ∧
    range.last = before.length + items.length

namespace Range.Over

theorem empty_iff (isOver : range.Over items) : range.first = range.last ↔ items = [] := by
  obtain ⟨before, behind, -, firstIs, lastIs⟩ := isOver
  rw [firstIs, lastIs, Nat.left_eq_add, List.length_eq_zero_iff]

theorem front_eq (isOver : range.Over (x :: items)) : range.front = some x := by
  obtain ⟨before, behind, elementsAre, firstIs, -⟩ := isOver
  rw [Range.front, elementsAre, firstIs, List.append_assoc,
    List.getElem?_append_right (Nat.le_refl _), Nat.sub_self]
  rfl

theorem back_eq (isOver : range.Over (items ++ [x])) : range.back = some x := by
  obtain ⟨before, behind, elementsAre, -, lastIs⟩ := isOver
  rw [List.length_append, List.length_singleton, ← Nat.add_assoc] at lastIs
  rw [Range.back, elementsAre, lastIs, Nat.add_sub_cancel, ← List.length_append,
    ← List.append_assoc, List.append_assoc, List.getElem?_append_right (Nat.le_refl _),
    Nat.sub_self]
  rfl

theorem behind {front : List Int} (isOver : range.Over (front ++ items)) :
    Range.Over { range with first := range.first + front.length } items := by
  obtain ⟨before, behind, elementsAre, firstIs, lastIs⟩ := isOver
  refine ⟨before ++ front, behind, ?_, ?_, ?_⟩
  · rw [elementsAre, List.append_assoc before front]
  · rw [List.length_append, firstIs]
  · rw [List.length_append, lastIs, List.length_append, Nat.add_assoc]

theorem tail (isOver : range.Over (x :: items)) :
    Range.Over { range with first := range.first + 1 } items :=
  @behind items range [x] isOver

theorem init (isOver : range.Over (items ++ [x])) :
    Range.Over { range with last := range.last - 1 } items := by
  obtain ⟨before, behind, elementsAre, firstIs, lastIs⟩ := isOver
  refine ⟨before, x :: behind, ?_, firstIs, ?_⟩
  · rw [elementsAre]
    simp
  · rw [lastIs, List.length_append, List.length_singleton, ← Nat.add_assoc, Nat.add_sub_cancel]

theorem lowerBound_eq (isOver : range.Over items) (value : Int) :
    range.lowerBound value = range.first + (items.takeWhile (· < value)).length := by
  obtain ⟨before, behind, elementsAre, firstIs, lastIs⟩ := isOver
  have taken : range.elements.take range.last = before ++ items := by
    rw [elementsAre, lastIs, ← List.length_append, List.take_left]
  rw [Range.lowerBound, taken, firstIs, List.drop_left]

theorem leap (isOver : range.Over items) (value : Int) :
    Range.Over { range with first := range.lowerBound value } (items.dropWhile (· < value)) := by
  have split : items.takeWhile (· < value) ++ items.dropWhile (· < value) = items :=
    List.takeWhile_append_dropWhile
  rw [isOver.lowerBound_eq]
  rw [← split] at isOver
  exact isOver.behind

end Range.Over

theorem over_whole (elements : List Int) : (whole elements).Over elements :=
  ⟨[], [], by simp [whole], rfl, by simp [whole]⟩

/-! ### The first elements -/

theorem advance_of_eq (over1 : r1.Over (x :: left)) (over2 : r2.Over (x :: right)) :
    advance r1 r2 result = some ({ r1 with first := r1.first + 1 },
      { r2 with first := r2.first + 1 }, result ++ [x]) := by
  simp [advance, over1.front_eq, over2.front_eq]

theorem advance_of_lt (over1 : r1.Over (x :: left)) (over2 : r2.Over (y :: right))
    (less : x < y) :
    advance r1 r2 result = some ({ r1 with first := r1.lowerBound y }, r2, result) := by
  have notEqual : x ≠ y := less.ne
  have notGreater : ¬x > y := less.le.not_gt
  simp [advance, over1.front_eq, over2.front_eq, notEqual, notGreater]

/-- The order of the ranges does not matter where the first elements differ. -/
theorem advance_swap (over1 : r1.Over (x :: left)) (over2 : r2.Over (y :: right))
    (greater : y < x) : advance r1 r2 result = advance r2 r1 result := by
  have notEqual : x ≠ y := greater.ne'
  rw [advance_of_lt over2 over1 greater]
  simp [advance, over1.front_eq, over2.front_eq, notEqual, greater]

/-! ### With binary searches -/

theorem findCommonHelper_spec (leftAscending : left.Pairwise (· ≤ ·))
    (rightAscending : right.Pairwise (· ≤ ·)) {fuel : Nat} (over1 : r1.Over left)
    (over2 : r2.Over right) (enough : left.length + right.length < fuel) :
    findCommonHelper fuel r1 r2 result = some (result ++ left.bagInter right) := by
  induction fuel generalizing left right r1 r2 result with
  | zero => exact absurd enough (Nat.not_lt_zero _)
  | succ fuel inductionHypothesis =>
      simp only [findCommonHelper, over1.empty_iff, over2.empty_iff]
      -- The range with the smaller first element leaps.
      have leaps : ∀ {x y : Int} {left right : List Int} {r1 r2 : Range},
          (x :: left).Pairwise (· ≤ ·) → (y :: right).Pairwise (· ≤ ·) → r1.Over (x :: left) →
          r2.Over (y :: right) → left.length + right.length + 1 < fuel → x < y →
          (advance r1 r2 result).bind (fun next => findCommonHelper fuel next.1 next.2.1 next.2.2) =
            some (result ++ (x :: left).bagInter (y :: right)) := by
        intro x y left right r1 r2 leftAscending rightAscending over1 over2 enough less
        have fewer : ((x :: left).dropWhile (· < y)).length ≤ left.length := by
          rw [List.dropWhile_cons_of_pos (by simpa using less)]
          exact (List.dropWhile_suffix _).length_le
        rw [advance_of_lt over1 over2 less, Option.bind_some]
        dsimp only
        rw [inductionHypothesis (leftAscending.sublist (List.dropWhile_sublist _)) rightAscending
          (over1.leap y) over2 (by rw [List.length_cons]; omega), bagInter_dropWhile rightAscending]
      cases left with
      | nil => simp
      | cons x left =>
          cases right with
          | nil => simp
          | cons y right =>
              rw [if_neg (by simp)]
              simp only [List.length_cons] at enough
              rcases lt_trichotomy x y with less | rfl | greater
              · exact leaps leftAscending rightAscending over1 over2 (by omega) less
              · rw [advance_of_eq over1 over2, Option.bind_eq_bind, Option.bind_some]
                dsimp only
                rw [inductionHypothesis leftAscending.of_cons rightAscending.of_cons over1.tail
                  over2.tail (by omega), bagInter_cons_self, List.append_assoc]
                rfl
              · rw [advance_swap over1 over2 greater, bagInter_comm leftAscending rightAscending]
                exact leaps rightAscending leftAscending over2 over1 (by omega) greater

theorem findCommon1_spec (vaAscending : va.Pairwise (· ≤ ·)) (vbAscending : vb.Pairwise (· ≤ ·))
    {fuel : Nat} (enough : va.length + vb.length < fuel) :
    findCommon1 fuel va vb = some (va.bagInter vb) := by
  rw [findCommon1, findCommonHelper_spec vaAscending vbAscending (over_whole va) (over_whole vb)
    enough, List.nil_append]

/-! ### The last elements too -/

/-- What is left of both is empty, or has equal last elements and nothing else in common. -/
def OnlyLast (left right : List Int) : Prop :=
  left = [] ∨ right = [] ∨ ∃ front others last, left = front ++ [last] ∧ right = others ++ [last] ∧
    ∀ value ∈ front, value ∈ others → value = last

theorem onlyLast_concat_iff {front others : List Int} {last end_ : Int} :
    OnlyLast (front ++ [last]) (others ++ [end_]) ↔
      last = end_ ∧ ∀ value ∈ front, value ∈ others → value = last := by
  constructor
  · rintro (isNil | isNil | ⟨_, _, _, leftIs, rightIs, only⟩)
    · simp at isNil
    · simp at isNil
    · obtain ⟨rfl, lastIs⟩ := List.append_inj' leftIs rfl
      obtain ⟨rfl, endIs⟩ := List.append_inj' rightIs rfl
      rw [List.singleton_inj] at lastIs endIs
      exact ⟨lastIs.trans endIs.symm, lastIs ▸ only⟩
  · rintro ⟨rfl, only⟩
    exact .inr (.inr ⟨front, others, last, rfl, rfl, only⟩)

/-- A copy of the last element goes to the front just if the others are equal to it. -/
theorem cons_eq_concat_iff {last : Int} :
    last :: items = items ++ [last] ↔ ∀ a ∈ items, a = last := by
  induction items with
  | nil => simp
  | cons a items inductionHypothesis =>
      rw [List.cons_append, List.cons.injEq, List.forall_mem_cons]
      constructor
      · rintro ⟨rfl, same⟩
        exact ⟨rfl, inductionHypothesis.mp same⟩
      · rintro ⟨rfl, only⟩
        exact ⟨rfl, inductionHypothesis.mpr only⟩

/-- The end of the vector is read where the last elements differ. -/
theorem trim_iff (leftAscending : left.Pairwise (· ≤ ·)) (rightAscending : right.Pairwise (· ≤ ·))
    {fuel : Nat} (over1 : r1.Over left) (over2 : r2.Over right)
    (toEnd1 : r1.last = r1.elements.length) (toEnd2 : r2.last = r2.elements.length)
    (enough : left.length + right.length < fuel) :
    trim fuel r1 r2 result = some (result ++ left.bagInter right) ↔ OnlyLast left right := by
  simp only [trim, over1.empty_iff, over2.empty_iff]
  rcases List.eq_nil_or_concat' left with rfl | ⟨front, last, rfl⟩
  · simp [OnlyLast]
  · rcases List.eq_nil_or_concat' right with rfl | ⟨others, end_, rfl⟩
    · simp [OnlyLast]
    · rw [if_neg (by simp), over1.back_eq, over2.back_eq]
      simp only [Option.bind_eq_bind, Option.bind_some]
      rw [List.length_append, List.length_append, List.length_singleton, List.length_singleton]
        at enough
      split
      next same =>
        subst same
        rw [findCommonHelper_spec (leftAscending.sublist (List.sublist_append_left _ _))
          (rightAscending.sublist (List.sublist_append_left _ _)) over1.init over2.init (by omega),
          bagInter_concat leftAscending, Option.some.injEq, List.append_assoc,
          List.append_cancel_left_eq, List.singleton_append, cons_eq_concat_iff]
        rw [onlyLast_concat_iff]
        simp only [List.mem_bagInter, and_imp, true_and]
      next differ =>
        refine iff_of_false ?_ fun onlyLast => differ (onlyLast_concat_iff.mp onlyLast).1
        split <;> simp [toEnd1, toEnd2]

/-! ### When the last elements do -/

/-- Each element of one vector is less than each of the other. -/
def Before (va vb : List Int) : Prop := ∀ a ∈ va, ∀ b ∈ vb, a < b

/-- Both have the same last element and otherwise only a copy of the first one in common. -/
def LastInCommon (va vb : List Int) : Prop :=
  va.getLast? = vb.getLast? ∧ ∀ value ∈ va, value ∈ vb → va.getLast? = some value ∨
    va.head? = some value ∧ vb.head? = some value ∧ (va.count value = 1 ∨ vb.count value = 1)

/-- One vector is before the other, or one is a copy of the first element of the other, or the last
element is the only one in common. -/
def Handled (va vb : List Int) : Prop :=
  Before va vb ∨ Before vb va ∨ (va.head? = vb.head? ∧ (va.length = 1 ∨ vb.length = 1)) ∨
    LastInCommon va vb

theorem LastInCommon.symm (lastInCommon : LastInCommon va vb) : LastInCommon vb va := by
  obtain ⟨lastIs, only⟩ := lastInCommon
  refine ⟨lastIs.symm, fun value inVb inVa => ?_⟩
  rcases only value inVa inVb with isLast | ⟨headA, headB, once⟩
  · exact .inl (lastIs.symm.trans isLast)
  · exact .inr ⟨headB, headA, once.symm⟩

theorem handled_comm : Handled va vb ↔ Handled vb va := by
  have swap : ∀ {va vb : List Int}, Handled va vb → Handled vb va := by
    rintro va vb (before | behind | ⟨head, single⟩ | lastInCommon)
    · exact .inr (.inl before)
    · exact .inl behind
    · exact .inr (.inr (.inl ⟨head.symm, single.symm⟩))
    · exact .inr (.inr (.inr lastInCommon.symm))
  exact ⟨swap, swap⟩

theorem count_eq_one (new : x ∉ items) : (x :: items).count x = 1 := by
  rw [List.count_cons_self, List.count_eq_zero_of_not_mem new]

/-- With equal first elements. -/
theorem handled_cons_iff : Handled (x :: left) (x :: right) ↔ OnlyLast left right := by
  have notBefore : ∀ {left right}, ¬Before (x :: left) (x :: right) := fun before =>
    lt_irrefl x (before x List.mem_cons_self x List.mem_cons_self)
  rw [Handled, or_iff_right notBefore, or_iff_right notBefore]
  rcases List.eq_nil_or_concat' left with rfl | ⟨front, last, rfl⟩
  · exact iff_of_true (.inl ⟨rfl, .inl rfl⟩) (.inl rfl)
  rcases List.eq_nil_or_concat' right with rfl | ⟨others, end_, rfl⟩
  · exact iff_of_true (.inl ⟨rfl, .inr rfl⟩) (.inr (.inl rfl))
  have lastIs : ∀ front (last : Int), (x :: (front ++ [last])).getLast? = some last :=
    fun front last => by rw [← List.cons_append, List.getLast?_concat]
  rw [or_iff_right (by simp), onlyLast_concat_iff, LastInCommon, lastIs, lastIs,
    Option.some.injEq]
  refine and_congr_right fun same => ?_
  subst same
  constructor
  · intro only value inFront inOthers
    rcases only value (by simp [inFront]) (by simp [inOthers]) with isLast | ⟨head, -, once⟩
    · exact (Option.some.inj isLast).symm
    · obtain rfl : x = value := Option.some.inj head
      have := List.count_pos_iff.mpr inFront
      have := List.count_pos_iff.mpr inOthers
      rw [List.count_cons_self, List.count_cons_self, List.count_append, List.count_append] at once
      omega
  · intro only value inLeft inRight
    rw [Option.some.injEq, or_iff_not_imp_left]
    intro notLast
    have notEnd : value ∉ [last] := fun member => notLast (List.mem_singleton.mp member).symm
    by_cases inFront : value ∈ front
    · have new : value ∉ others ++ [last] := fun member => by
        rcases List.mem_append.mp member with inOthers | isEnd
        · exact notLast (only value inFront inOthers).symm
        · exact notEnd isEnd
      obtain rfl := (List.mem_cons.mp inRight).resolve_right new
      exact ⟨rfl, rfl, .inr (count_eq_one new)⟩
    · have new : value ∉ front ++ [last] := fun member =>
        (List.mem_append.mp member).elim inFront notEnd
      obtain rfl := (List.mem_cons.mp inLeft).resolve_right new
      exact ⟨rfl, rfl, .inl (count_eq_one new)⟩

/-- Where the first element of the left vector is less. -/
theorem handled_iff_of_lt (rightAscending : (y :: right).Pairwise (· ≤ ·)) (less : x < y) :
    Handled (x :: left) (y :: right) ↔
      OnlyLast ((x :: left).dropWhile (· < y)) (y :: right) := by
  have atLeast : ∀ b ∈ y :: right, y ≤ b := by
    intro b member
    rcases List.mem_cons.mp member with rfl | behind
    · exact le_refl b
    · exact (List.pairwise_cons.mp rightAscending).1 b behind
  have notBehind : ¬Before (y :: right) (x :: left) := fun behind =>
    (behind y List.mem_cons_self x List.mem_cons_self).asymm less
  have headsDiffer : (x :: left).head? ≠ (y :: right).head? := by simpa using less.ne
  have notSingle : ¬((x :: left).head? = (y :: right).head? ∧
      ((x :: left).length = 1 ∨ (y :: right).length = 1)) := fun both => headsDiffer both.1
  rw [Handled, or_iff_right notBehind, or_iff_right notSingle]
  have split : (x :: left).takeWhile (· < y) ++ (x :: left).dropWhile (· < y) = x :: left :=
    List.takeWhile_append_dropWhile
  have early : ∀ a ∈ (x :: left).takeWhile (· < y), a < y := fun a member => by
    simpa using List.mem_takeWhile_imp member
  generalize (x :: left).takeWhile (· < y) = low at split early
  rcases List.eq_nil_or_concat' ((x :: left).dropWhile (· < y)) with isNil | ⟨front, last, is⟩
  · rw [isNil, List.append_nil] at split
    refine iff_of_true (.inl fun a inLeft b inRight => ?_) (.inl isNil)
    rw [← split] at inLeft
    exact (early a inLeft).trans_le (atLeast b inRight)
  · obtain ⟨others, end_, rightIs⟩ :=
      (List.eq_nil_or_concat' (y :: right)).resolve_left (List.cons_ne_nil y right)
    have notBefore : ¬Before (x :: left) (y :: right) := by
      intro before
      have isNil : (x :: left).dropWhile (· < y) = [] := List.dropWhile_eq_nil_iff.mpr
        fun a member => decide_eq_true (before a member y List.mem_cons_self)
      simp [isNil] at is
    have onlyLast : OnlyLast ((x :: left).dropWhile (· < y)) (y :: right) ↔
        last = end_ ∧ ∀ value ∈ front, value ∈ others → value = last := by
      rw [is, rightIs]
      exact onlyLast_concat_iff
    rw [is] at split
    have leftLast : (x :: left).getLast? = some last := by
      rw [← split, ← List.append_assoc, List.getLast?_concat]
    have rightLast : (y :: right).getLast? = some end_ := by rw [rightIs, List.getLast?_concat]
    rw [or_iff_right notBefore, onlyLast, LastInCommon, leftLast, rightLast, Option.some.injEq]
    refine and_congr_right fun same => ?_
    subst same
    constructor
    · intro only value inFront inOthers
      have inLeft : value ∈ x :: left := by simp [← split, inFront]
      have inRight : value ∈ y :: right := by simp [rightIs, inOthers]
      rcases only value inLeft inRight with isLast | ⟨leftHead, rightHead, -⟩
      · exact (Option.some.inj isLast).symm
      · exact absurd (leftHead.trans rightHead.symm) headsDiffer
    · intro only value inLeft inRight
      have late : value ∉ low := fun member =>
        (early value member).not_ge (atLeast value inRight)
      rw [← split, List.mem_append, or_iff_right late, List.mem_append, List.mem_singleton]
        at inLeft
      rw [rightIs, List.mem_append, List.mem_singleton] at inRight
      refine .inl (congrArg some ?_)
      rcases inLeft with inFront | rfl
      · rcases inRight with inOthers | rfl
        · exact (only value inFront inOthers).symm
        · rfl
      · rfl

theorem findCommonHelper2_iff (leftAscending : left.Pairwise (· ≤ ·))
    (rightAscending : right.Pairwise (· ≤ ·)) {fuel : Nat} (over1 : r1.Over left)
    (over2 : r2.Over right) (toEnd1 : r1.last = r1.elements.length)
    (toEnd2 : r2.last = r2.elements.length) (enough : left.length + right.length < fuel) :
    findCommonHelper2 fuel r1 r2 [] = some (left.bagInter right) ↔ Handled left right := by
  simp only [findCommonHelper2, over1.empty_iff, over2.empty_iff]
  have leaps : ∀ {x y : Int} {left right : List Int} {r1 r2 : Range},
      (x :: left).Pairwise (· ≤ ·) → (y :: right).Pairwise (· ≤ ·) → r1.Over (x :: left) →
      r2.Over (y :: right) → r1.last = r1.elements.length → r2.last = r2.elements.length →
      (x :: left).length + (y :: right).length < fuel → x < y →
      ((advance r1 r2 []).bind (fun next => trim fuel next.1 next.2.1 next.2.2) =
        some ((x :: left).bagInter (y :: right)) ↔ Handled (x :: left) (y :: right)) := by
    intro x y left right r1 r2 leftAscending rightAscending over1 over2 toEnd1 toEnd2 enough less
    have fewer : ((x :: left).dropWhile (· < y)).length ≤ (x :: left).length :=
      (List.dropWhile_suffix _).length_le
    rw [advance_of_lt over1 over2 less, Option.bind_some, handled_iff_of_lt rightAscending less,
      ← bagInter_dropWhile rightAscending]
    exact trim_iff (leftAscending.sublist (List.dropWhile_sublist _)) rightAscending (over1.leap y)
      over2 toEnd1 toEnd2 (by omega)
  cases left with
  | nil => simp [Handled, Before]
  | cons x left =>
      cases right with
      | nil => simp [Handled, Before]
      | cons y right =>
          rw [if_neg (by simp)]
          rcases lt_trichotomy x y with less | rfl | greater
          · exact leaps leftAscending rightAscending over1 over2 toEnd1 toEnd2 enough less
          · rw [advance_of_eq over1 over2, Option.bind_eq_bind, Option.bind_some,
              bagInter_cons_self, handled_cons_iff]
            exact trim_iff leftAscending.of_cons rightAscending.of_cons over1.tail over2.tail toEnd1
              toEnd2 (by simp only [List.length_cons] at enough; omega)
          · rw [advance_swap over1 over2 greater, bagInter_comm leftAscending rightAscending,
              handled_comm]
            exact leaps rightAscending leftAscending over2 over1 toEnd2 toEnd1 (by omega) greater

/-! ### The merge -/

/-- The merge passes the element at the place: the other vector has a greater element, or as many
equal ones as there are up to this one. -/
def Passes (left right : List Int) (place : Nat) : Prop :=
  ∃ a, left[place]? = some a ∧
    ((∃ b ∈ right, a < b) ∨ (left.take (place + 1)).count a ≤ right.count a)

theorem not_passes_nil_left {place : Nat} : ¬Passes [] right place := by
  rintro ⟨a, is, -⟩
  simp at is

theorem not_passes_nil_right {place : Nat} : ¬Passes left [] place := by
  rintro ⟨a, is, ⟨b, member, -⟩ | few⟩
  · cases member
  · have : a ∈ left.take (place + 1) := by
      rw [List.take_add_one, is]
      simp
    have := List.count_pos_iff.mpr this
    rw [List.count_nil] at few
    omega

theorem passes_zero_of_lt (less : x < y) : Passes (x :: left) (y :: right) 0 :=
  ⟨x, rfl, .inl ⟨y, List.mem_cons_self, less⟩⟩

theorem passes_zero_self : Passes (x :: left) (x :: right) 0 := by
  refine ⟨x, rfl, .inr ?_⟩
  rw [List.take_succ_cons, List.take_zero, List.count_cons_self, List.count_cons_self,
    List.count_nil]
  omega

theorem passes_succ_of_lt (less : x < y) {place : Nat} :
    Passes (x :: left) (y :: right) (place + 1) ↔ Passes left (y :: right) place := by
  unfold Passes
  refine exists_congr fun a => and_congr_right fun is => ?_
  by_cases same : x = a
  · have passed : ∃ b ∈ y :: right, a < b := ⟨y, List.mem_cons_self, same ▸ less⟩
    exact iff_of_true (.inl passed) (.inl passed)
  · rw [List.take_succ_cons, List.count_cons_of_ne same]

theorem passes_succ_self (leftAscending : (x :: left).Pairwise (· ≤ ·)) {place : Nat} :
    Passes (x :: left) (x :: right) (place + 1) ↔ Passes left right place := by
  unfold Passes
  refine exists_congr fun a => and_congr_right fun is => ?_
  have notLess : ¬a < x :=
    ((List.pairwise_cons.mp leftAscending).1 a (List.mem_of_getElem? is)).not_gt
  rw [List.exists_mem_cons_iff, or_iff_right notLess, List.take_succ_cons, List.count_cons,
    List.count_cons, Nat.add_le_add_iff_right]

theorem passes_of_gt (leftAscending : (x :: left).Pairwise (· ≤ ·)) (greater : y < x)
    {place : Nat} : Passes (x :: left) (y :: right) place ↔ Passes (x :: left) right place := by
  unfold Passes
  refine exists_congr fun a => and_congr_right fun is => ?_
  have above : y < a := by
    rcases List.mem_cons.mp (List.mem_of_getElem? is) with rfl | behind
    · exact greater
    · exact greater.trans_le ((List.pairwise_cons.mp leftAscending).1 a behind)
  rw [List.exists_mem_cons_iff, or_iff_right above.not_gt, List.count_cons_of_ne above.ne]

/-- The greatest value of a counter. -/
def limit : Nat := 2 ^ 31 - 1

/-- The counter is incremented, or it is the greatest value and overflows. -/
theorem position_succ_or {i : Nat} (fits : i ≤ limit) :
    (i < limit ∧ limit - i = limit - (i + 1) + 1 ∧ position 32 (i + 1) = some (i + 1)) ∨
      (limit - i = 0 ∧ position 32 (i + 1) = none) := by
  rcases Nat.lt_or_eq_of_le fits with more | rfl
  · refine .inl ⟨more, by omega, position_of_lt ?_⟩
    rw [limit] at more
    omega
  · exact .inr ⟨Nat.sub_self limit, position_eq_none (by decide)⟩

/-- The merge ends with what both have in common, or a counter overflows. -/
theorem mergeLoop_spec (leftAscending : left.Pairwise (· ≤ ·))
    (rightAscending : right.Pairwise (· ≤ ·)) {fuel i j : Nat} (leftIs : left = va.drop i)
    (rightIs : right = vb.drop j) (iFits : i ≤ limit) (jFits : j ≤ limit)
    (enough : left.length + right.length < fuel) :
    (Passes left right (limit - i) ∨ Passes right left (limit - j) →
      mergeLoop va vb fuel i j result = none) ∧
    (¬Passes left right (limit - i) → ¬Passes right left (limit - j) →
      mergeLoop va vb fuel i j result = some (result ++ left.bagInter right)) := by
  induction fuel generalizing i j left right result with
  | zero => exact absurd enough (Nat.not_lt_zero _)
  | succ fuel inductionHypothesis =>
      rw [mergeLoop]
      cases left with
      | nil =>
          have done : va.length ≤ i := List.drop_eq_nil_iff.mp leftIs.symm
          rw [if_neg (by omega)]
          simp [not_passes_nil_left, not_passes_nil_right]
      | cons a left =>
      cases right with
      | nil =>
          have done : vb.length ≤ j := List.drop_eq_nil_iff.mp rightIs.symm
          rw [if_neg (by omega)]
          simp [not_passes_nil_left, not_passes_nil_right]
      | cons b right =>
      have readA : va[i]? = some a := by rw [← List.head?_drop, ← leftIs]; rfl
      have readB : vb[j]? = some b := by rw [← List.head?_drop, ← rightIs]; rfl
      have restA : left = va.drop (i + 1) := by rw [← List.tail_drop, ← leftIs]; rfl
      have restB : right = vb.drop (j + 1) := by rw [← List.tail_drop, ← rightIs]; rfl
      obtain ⟨iInside, -⟩ := List.getElem?_eq_some_iff.mp readA
      obtain ⟨jInside, -⟩ := List.getElem?_eq_some_iff.mp readB
      rw [if_pos ⟨iInside, jInside⟩]
      simp only [readA, readB, Option.bind_eq_bind, Option.bind_some]
      simp only [List.length_cons] at enough inductionHypothesis
      rcases lt_trichotomy a b with less | rfl | greater
      · rw [if_neg less.ne, if_pos less]
        rcases position_succ_or iFits with ⟨more, iLeft, next⟩ | ⟨none_, overflows⟩
        · rw [next, Option.bind_some, iLeft, passes_succ_of_lt less,
            passes_of_gt rightAscending less, bagInter_cons_of_lt rightAscending less]
          exact inductionHypothesis leftAscending.of_cons rightAscending restA rightIs more jFits
            (by rw [List.length_cons]; omega)
        · rw [none_, overflows]
          exact ⟨fun _ => rfl, fun notPasses => absurd (passes_zero_of_lt less) notPasses⟩
      · rw [if_pos rfl]
        rcases position_succ_or iFits with ⟨moreI, iLeft, nextI⟩ | ⟨none_, overflows⟩
        · rcases position_succ_or jFits with ⟨moreJ, jLeft, nextJ⟩ | ⟨none_, overflows⟩
          · rw [nextI, nextJ, Option.bind_some, Option.bind_some, iLeft, jLeft,
              passes_succ_self leftAscending, passes_succ_self rightAscending, bagInter_cons_self,
              List.append_cons result a (left.bagInter right)]
            exact inductionHypothesis leftAscending.of_cons rightAscending.of_cons restA restB moreI
              moreJ (by omega)
          · rw [nextI, none_, overflows]
            exact ⟨fun _ => rfl, fun _ notPasses => absurd passes_zero_self notPasses⟩
        · rw [none_, overflows]
          exact ⟨fun _ => rfl, fun notPasses => absurd passes_zero_self notPasses⟩
      · rw [if_neg greater.ne', if_neg greater.not_gt]
        rcases position_succ_or jFits with ⟨more, jLeft, next⟩ | ⟨none_, overflows⟩
        · rw [next, Option.bind_some, jLeft, passes_succ_of_lt greater,
            passes_of_gt leftAscending greater, bagInter_cons_of_gt leftAscending greater]
          exact inductionHypothesis leftAscending rightAscending.of_cons leftIs restB iFits more
            (by rw [List.length_cons]; omega)
        · rw [none_, overflows]
          exact ⟨fun _ => rfl, fun _ notPasses => absurd (passes_zero_of_lt greater) notPasses⟩

/-! ### All three -/

theorem findCommon_eq_none (vaAscending : va.Pairwise (· ≤ ·)) (vbAscending : vb.Pairwise (· ≤ ·))
    {fuel : Nat} (enough : va.length + vb.length < fuel)
    (passes : Passes va vb limit ∨ Passes vb va limit) : findCommon fuel va vb = none :=
  (mergeLoop_spec vaAscending vbAscending rfl rfl (Nat.zero_le limit) (Nat.zero_le limit)
    enough).1 passes

theorem findCommon_spec (vaAscending : va.Pairwise (· ≤ ·)) (vbAscending : vb.Pairwise (· ≤ ·))
    {fuel : Nat} (enough : va.length + vb.length < fuel) (notVa : ¬Passes va vb limit)
    (notVb : ¬Passes vb va limit) : findCommon fuel va vb = some (va.bagInter vb) :=
  (mergeLoop_spec vaAscending vbAscending rfl rfl (Nat.zero_le limit) (Nat.zero_le limit)
    enough).2 notVa notVb

theorem findCommon2_iff (vaAscending : va.Pairwise (· ≤ ·)) (vbAscending : vb.Pairwise (· ≤ ·))
    {fuel : Nat} (enough : va.length + vb.length < fuel) :
    findCommon2 fuel va vb = some (va.bagInter vb) ↔ Handled va vb :=
  findCommonHelper2_iff vaAscending vbAscending (over_whole va) (over_whole vb) rfl rfl enough

/-- All three read only existing elements and return what both vectors have in common. -/
def Right (va vb : List Int) : Prop :=
  ∃ common, IsCommon va vb common ∧ ∃ enough, ∀ fuel ≥ enough,
    findCommon fuel va vb = some common ∧ findCommon1 fuel va vb = some common ∧
      findCommon2 fuel va vb = some common

/-- All are right just if the third is, and the first does not pass the last element that its
counters can stand for. -/
theorem intersections_iff (vaAscending : va.Pairwise (· ≤ ·))
    (vbAscending : vb.Pairwise (· ≤ ·)) :
    Right va vb ↔ Handled va vb ∧ ¬Passes va vb limit ∧ ¬Passes vb va limit := by
  constructor
  · rintro ⟨common, isCommon, enough, returns⟩
    obtain rfl := (isCommon_iff vaAscending).mp isCommon
    obtain ⟨first, -, third⟩ := returns (max enough (va.length + vb.length + 1)) (by omega)
    have notPasses : ¬(Passes va vb limit ∨ Passes vb va limit) := by
      intro passes
      rw [findCommon_eq_none vaAscending vbAscending (by omega) passes] at first
      cases first
    exact ⟨(findCommon2_iff vaAscending vbAscending (by omega)).mp third, not_or.mp notPasses⟩
  · rintro ⟨handled, notVa, notVb⟩
    refine ⟨_, (isCommon_iff vaAscending).mpr rfl, va.length + vb.length + 1, fun fuel enough => ?_⟩
    exact ⟨findCommon_spec vaAscending vbAscending enough notVa notVb,
      findCommon1_spec vaAscending vbAscending enough,
      (findCommon2_iff vaAscending vbAscending enough).mpr handled⟩

theorem intersections_iff_repeated : Right [1, 3, 3] [2, 3, 3] ↔ Handled [1, 3, 3] [2, 3, 3] ∧
    ¬Passes [1, 3, 3] [2, 3, 3] limit ∧ ¬Passes [2, 3, 3] [1, 3, 3] limit :=
  intersections_iff (by decide) (by decide)

/-- The end of a vector is read. -/
theorem not_right_differentEnds : ¬Right [1, 2] [1, 3] := by
  rintro ⟨common, -, enough, returns⟩
  obtain ⟨-, -, third⟩ := returns enough (Nat.le_refl enough)
  have nothing : findCommon2 enough [1, 2] [1, 3] = none := by
    simp [findCommon2, findCommonHelper2, whole, advance, trim, Range.front, Range.back]
  rw [nothing] at third
  cases third

end CommonElements

end StdPrograms.Hobbies

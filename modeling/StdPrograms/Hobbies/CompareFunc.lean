import StdPrograms.Foundation.Exchange
import StdPrograms.Hobbies.LargestNumber

/-!
Contract: the comparison of numbers digit by digit.

Owns `compare_func` of `solution_179.cpp` and for which numbers it is the comparison of the two
concatenations.

Does not own the comparison of the concatenations.
-/

namespace StdPrograms.Hobbies

open StdPrograms.Foundation

namespace LargestNumber

/-- There is nothing at index -1. -/
def previous (text : List Char) (i : Nat) : Option Char :=
  if i = 0 then none else text[i - 1]?

/-- The loop from a digit on, and the comparison behind it. -/
def compareFrom (sx sy : List Char) : Nat → Nat → Option Bool
  | 0, _ => none
  | fuel + 1, i =>
      if i < sx.length ∧ i < sy.length then do
        let digitX ← sx[i]?
        let digitY ← sy[i]?
        if digitX ≠ digitY then return decide (digitX > digitY)
        else compareFrom sx sy fuel (i + 1)
      else if sx.length < sy.length then do
        let digitY ← sy[i]?
        let digitX ← previous sx i
        return decide (digitY > digitX)
      else if sx.length > sy.length then do
        let digitX ← sx[i]?
        let digitY ← previous sy i
        return decide (digitX > digitY)
      else some true

def compareFunc (x y : Nat) : Option Bool :=
  let sx := Nat.toDigits 10 x
  let sy := Nat.toDigits 10 y
  compareFrom sx sy (sx.length + 1) 0

/-- The first digit of a rest is greater than the last one before it. -/
def Rises (word rest : List Char) : Prop :=
  ∃ last ∈ word.getLast?, ∃ first ∈ rest.head?, last < first

/-- The strings differ; where one continues the other, the next digit is greater exactly when
the continuation, repeated without end, is less after the shorter one or greater before it. -/
def Decided (sx sy : List Char) : Prop :=
  let afterX := sy.drop sx.length
  let afterY := sx.drop sy.length
  if sx = sy then False
  else if sx <+: sy then Rises sx afterX ↔ key 10 digit afterX < key 10 digit sx
  else if sy <+: sx then Rises sy afterY ↔ key 10 digit sy < key 10 digit afterY
  else True

/-! ### What the loop returns -/

section

variable (front : List Char) {restX restY : List Char} {fuel : Nat}

theorem compareFrom_front {i : Nat} (upTo : i ≤ front.length) :
    compareFrom (front ++ restX) (front ++ restY) (fuel + (front.length - i)) i =
      compareFrom (front ++ restX) (front ++ restY) fuel front.length := by
  induction upTo using Nat.decreasingInduction with
  | self => rw [Nat.sub_self, Nat.add_zero]
  | of_succ i less inductionHypothesis =>
      have remaining : fuel + (front.length - i) = fuel + (front.length - (i + 1)) + 1 := by omega
      have inX : i < (front ++ restX).length ∧ i < (front ++ restY).length := by
        rw [List.length_append, List.length_append]
        omega
      rw [remaining, compareFrom, if_pos inX, List.getElem?_append_left less,
        List.getElem?_append_left less, List.getElem?_eq_getElem less]
      dsimp only [Option.bind_eq_bind, Option.bind_some]
      rw [if_neg (not_not_intro rfl)]
      exact inductionHypothesis

theorem compareFrom_of_ne {a b : Char} (different : a ≠ b) :
    compareFrom (front ++ a :: restX) (front ++ b :: restY) (fuel + 1) front.length =
      some (decide (a > b)) := by
  have inside : front.length < (front ++ a :: restX).length ∧
      front.length < (front ++ b :: restY).length := by
    simp
  rw [compareFrom, if_pos inside, getElem?_append_cons, getElem?_append_cons]
  dsimp only [Option.bind_eq_bind, Option.bind_some]
  rw [if_pos different]
  rfl

variable {next last : Char}

theorem compareFrom_of_shorter (lastIs : last ∈ front.getLast?) :
    compareFrom front (front ++ next :: restY) (fuel + 1) front.length =
      some (decide (next > last)) := by
  have nonempty : 0 < front.length := List.length_pos_of_ne_nil (by rintro rfl; cases lastIs)
  have previousIs : previous front front.length = some last := by
    rw [previous, if_neg (by omega), ← List.getLast?_eq_getElem?]
    exact lastIs
  have shorter : front.length < (front ++ next :: restY).length := by simp
  rw [compareFrom, if_neg (by omega), if_pos shorter, getElem?_append_cons, previousIs]
  rfl

theorem compareFrom_of_longer (lastIs : last ∈ front.getLast?) :
    compareFrom (front ++ next :: restX) front (fuel + 1) front.length =
      some (decide (next > last)) := by
  have nonempty : 0 < front.length := List.length_pos_of_ne_nil (by rintro rfl; cases lastIs)
  have previousIs : previous front front.length = some last := by
    rw [previous, if_neg (by omega), ← List.getLast?_eq_getElem?]
    exact lastIs
  have longer : front.length < (front ++ next :: restX).length := by simp
  rw [compareFrom, if_neg (by omega), if_neg (by omega), if_pos longer, getElem?_append_cons,
    previousIs]
  rfl

theorem compareFrom_self : compareFrom front front (fuel + 1) front.length = some true := by
  rw [compareFrom, if_neg (by omega), if_neg (Nat.lt_irrefl _), if_neg (Nat.lt_irrefl _)]

end

/-- Two words are equal up to different elements, or one continues the other. -/
theorem different_or_prefix (left right : List Char) :
    (∃ front a b restLeft restRight, a ≠ b ∧ left = front ++ a :: restLeft ∧
      right = front ++ b :: restRight) ∨
    left = right ∨ (∃ next rest, right = left ++ next :: rest) ∨
      ∃ next rest, left = right ++ next :: rest := by
  induction left generalizing right with
  | nil =>
      cases right with
      | nil => exact .inr (.inl rfl)
      | cons next rest => exact .inr (.inr (.inl ⟨next, rest, rfl⟩))
  | cons first left inductionHypothesis =>
      cases right with
      | nil => exact .inr (.inr (.inr ⟨first, left, rfl⟩))
      | cons head right =>
          by_cases same : first = head
          · subst same
            rcases inductionHypothesis right with ⟨front, a, b, restLeft, restRight, different,
              rfl, rfl⟩ | rfl | ⟨next, rest, rfl⟩ | ⟨next, rest, rfl⟩
            · exact .inl ⟨first :: front, a, b, restLeft, restRight, different, rfl, rfl⟩
            · exact .inr (.inl rfl)
            · exact .inr (.inr (.inl ⟨next, rest, rfl⟩))
            · exact .inr (.inr (.inr ⟨next, rest, rfl⟩))
          · exact .inl ⟨[], first, head, left, right, same, rfl, rfl⟩

/-! ### What the concatenations say -/

theorem before_of_ne {front restX restY : List Char} {a b : Char} (different : a ≠ b) :
    before (front ++ a :: restX) (front ++ b :: restY) = decide (a > b) := by
  have beside : ∀ {lower upper : Char} (restLower restUpper : List Char), lower < upper →
      front ++ lower :: restLower < front ++ upper :: restUpper := fun _ _ less =>
    List.Lex.append_left _ (List.Lex.rel less) front
  rw [before, List.append_assoc, List.append_assoc, List.cons_append, List.cons_append]
  congr 1
  rw [eq_iff_iff]
  rcases lt_or_gt_of_ne different with less | greater
  · exact iff_of_false (not_lt_of_ge (beside _ _ less).le) (not_lt_of_ge less.le)
  · exact iff_of_true (beside _ _ greater) greater

section

variable {word rest : List Char} (wordDigits : ∀ char ∈ word, char ∈ digits)
  (restDigits : ∀ char ∈ rest, char ∈ digits) (wordNonempty : word ≠ []) (restNonempty : rest ≠ [])

include wordDigits restDigits wordNonempty restNonempty

theorem before_continued :
    before word (word ++ rest) ↔ key 10 digit rest < key 10 digit word := by
  have bothDigits : ∀ char ∈ word ++ rest, char ∈ digits := fun char member =>
    (List.mem_append.mp member).elim (wordDigits char) (restDigits char)
  have lengths : (rest ++ word).length = (word ++ rest).length := by
    rw [List.length_append, List.length_append, Nat.add_comm]
  rw [before_iff wordDigits bothDigits, List.append_assoc, numeral_append_lt_iff word lengths,
    numeral_concat_lt_iff_key (by decide) wordNonempty restNonempty]

theorem continued_before :
    before (word ++ rest) word ↔ key 10 digit word < key 10 digit rest := by
  have bothDigits : ∀ char ∈ word ++ rest, char ∈ digits := fun char member =>
    (List.mem_append.mp member).elim (wordDigits char) (restDigits char)
  have lengths : (word ++ rest).length = (rest ++ word).length := by
    rw [List.length_append, List.length_append, Nat.add_comm]
  rw [before_iff bothDigits wordDigits, List.append_assoc, numeral_append_lt_iff word lengths,
    numeral_concat_lt_iff_key (by decide) restNonempty wordNonempty]

end

/-! ### When both agree -/

theorem rises_iff {word rest : List Char} {last next : Char} (lastIs : last ∈ word.getLast?) :
    Rises word (next :: rest) ↔ last < next := by
  constructor
  · rintro ⟨other, otherIs, first, firstIs, less⟩
    obtain rfl := Option.mem_unique lastIs otherIs
    obtain rfl := Option.mem_some.mp firstIs
    exact less
  · exact fun less => ⟨last, lastIs, next, rfl, less⟩

theorem compareFrom_append (front restX restY : List Char) :
    compareFrom (front ++ restX) (front ++ restY) ((front ++ restX).length + 1) 0 =
      compareFrom (front ++ restX) (front ++ restY) (restX.length + 1) front.length := by
  have fuelIs : (front ++ restX).length + 1 = restX.length + 1 + (front.length - 0) := by
    rw [List.length_append]
    omega
  rw [fuelIs, compareFrom_front front (Nat.zero_le _)]

theorem decided_of_ne {front restX restY : List Char} {a b : Char} (different : a ≠ b) :
    Decided (front ++ a :: restX) (front ++ b :: restY) := by
  have notPrefix : ∀ {c d : Char} {restC restD : List Char}, c ≠ d →
      ¬front ++ c :: restC <+: front ++ d :: restD := by
    intro c d restC restD other isPrefix
    rw [List.prefix_append_right_inj, List.cons_prefix_cons] at isPrefix
    exact other isPrefix.1
  have notEqual : front ++ a :: restX ≠ front ++ b :: restY := fun same =>
    different (List.cons.inj (List.append_cancel_left same)).1
  rw [Decided, if_neg notEqual, if_neg (notPrefix different), if_neg (notPrefix different.symm)]
  trivial

section

variable {word rest : List Char} (restNonempty : rest ≠ [])

include restNonempty

theorem decided_of_shorter :
    Decided word (word ++ rest) ↔ (Rises word rest ↔ key 10 digit rest < key 10 digit word) := by
  have different : word ≠ word ++ rest := by simpa using restNonempty
  rw [Decided, if_neg different, if_pos (List.prefix_append word rest), List.drop_left]

theorem decided_of_longer :
    Decided (word ++ rest) word ↔ (Rises word rest ↔ key 10 digit word < key 10 digit rest) := by
  have different : word ++ rest ≠ word := by simpa using restNonempty
  have longer : ¬word ++ rest <+: word := by
    intro isPrefix
    have positive := List.length_pos_iff.mpr restNonempty
    have atMost := isPrefix.length_le
    rw [List.length_append] at atMost
    omega
  rw [Decided, if_neg different, if_neg longer, if_pos (List.prefix_append word rest),
    List.drop_left]

end

theorem compareFrom_agrees_iff {sx sy : List Char} (xDigits : ∀ char ∈ sx, char ∈ digits)
    (yDigits : ∀ char ∈ sy, char ∈ digits) (xNonempty : sx ≠ []) (yNonempty : sy ≠ []) :
    ∃ result, compareFrom sx sy (sx.length + 1) 0 = some result ∧
      ((result ↔ before sx sy) ↔ Decided sx sy) := by
  rcases different_or_prefix sx sy with ⟨front, a, b, restX, restY, different, rfl, rfl⟩ |
    rfl | ⟨next, rest, rfl⟩ | ⟨next, rest, rfl⟩
  · refine ⟨decide (a > b), ?_, ?_⟩
    · rw [compareFrom_append, compareFrom_of_ne front different]
    · rw [before_of_ne different]
      exact iff_of_true Iff.rfl (decided_of_ne different)
  · refine ⟨true, ?_, ?_⟩
    · have same := compareFrom_append sx [] []
      rw [List.append_nil, compareFrom_self] at same
      exact same
    · have irreflexive : before sx sx = false := by simp [before]
      rw [irreflexive, Decided, if_pos rfl]
      simp
  · obtain ⟨last, lastIs⟩ := Option.ne_none_iff_exists'.mp
      (mt List.getLast?_eq_none_iff.mp xNonempty)
    have restDigits : ∀ char ∈ next :: rest, char ∈ digits := fun char member =>
      yDigits char (List.mem_append_right sx member)
    refine ⟨decide (next > last), ?_, ?_⟩
    · have run := compareFrom_append sx [] (next :: rest)
      rw [List.append_nil, compareFrom_of_shorter sx lastIs] at run
      exact run
    · rw [decided_of_shorter (List.cons_ne_nil next rest), rises_iff lastIs,
        before_continued xDigits restDigits xNonempty (List.cons_ne_nil next rest),
        decide_eq_true_iff]
  · obtain ⟨last, lastIs⟩ := Option.ne_none_iff_exists'.mp
      (mt List.getLast?_eq_none_iff.mp yNonempty)
    have restDigits : ∀ char ∈ next :: rest, char ∈ digits := fun char member =>
      xDigits char (List.mem_append_right sy member)
    refine ⟨decide (next > last), ?_, ?_⟩
    · have run := compareFrom_append sy (next :: rest) []
      rw [List.append_nil, compareFrom_of_longer sy lastIs] at run
      exact run
    · rw [decided_of_longer (List.cons_ne_nil next rest), rises_iff lastIs,
        continued_before yDigits restDigits yNonempty (List.cons_ne_nil next rest),
        decide_eq_true_iff]

/-- The comparison digit by digit is that of the concatenations for the numbers that are decided
and for no others; no number is decided against itself. -/
theorem compareFunc_agrees_iff (x y : Nat) :
    (∃ result, compareFunc x y = some result ∧
      ((result ↔ before (Nat.toDigits 10 x) (Nat.toDigits 10 y)) ↔
        Decided (Nat.toDigits 10 x) (Nat.toDigits 10 y))) ∧
    compareFunc x x = some true := by
  have decimal : ∀ number, Decimal (Nat.toDigits 10 number) := fun number => ⟨number, rfl⟩
  refine ⟨compareFrom_agrees_iff (decimal x).digits (decimal y).digits (decimal x).ne_nil
    (decimal y).ne_nil, ?_⟩
  have same := compareFrom_append (Nat.toDigits 10 x) [] []
  rw [List.append_nil, compareFrom_self] at same
  exact same

theorem compareFunc_wrong_after_three :
    compareFunc 3 34 = some true ∧ before (Nat.toDigits 10 3) (Nat.toDigits 10 34) = false ∧
      compareFunc 1 1 = some true ∧ before (Nat.toDigits 10 1) (Nat.toDigits 10 1) = false := by
  decide

end LargestNumber

end StdPrograms.Hobbies

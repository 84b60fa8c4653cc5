import StdPrograms.Foundation.Bisection
import StdPrograms.Foundation.CountedLoop
import StdPrograms.Hobbies.GenerateParentheses

/-!
Contract: the longest balanced part of a string of parentheses.

Owns `longestValidParentheses` of `solution_32.cpp` with positions that are converted to an `int`,
and for which strings it returns the length of a longest balanced part.

Does not own strings of other characters.
-/

namespace StdPrograms.Hobbies

open StdPrograms.Foundation

namespace LongestValidParentheses

open GenerateParentheses (parentheses)

structure Scan where
  vec : List Int
  cstack : List Char
  last_close : Int
  max_length : Int

/-- What is stored in `vec[i]`, and the next `last_close`. -/
def count (scan : Scan) (i : Nat) : Option (Int × Int) :=
  if scan.last_close > 0 then
    (entry scan.vec scan.last_close).map fun last => (last + 2, scan.last_close)
  else some (2, converted 32 i)

/-- A `)` that closes the top of the stack; `rest` is below it. -/
def close (scan : Scan) (rest : List Char) (i : Nat) : Option Scan := do
  let (length, last_close) ← count scan i
  return {
    vec := scan.vec.set i length
    cstack := rest
    last_close := last_close
    max_length := if length > scan.max_length then length else scan.max_length }

/-- The body of the loop. -/
def visit (s : List Char) (scan : Scan) (i : Nat) : Option Scan := do
  let char ← s[i]?
  if char = ')' then
    match scan.cstack with
    | '(' :: rest => close scan rest i
    | _ => return { scan with vec := scan.vec.set i 0, cstack := [] }
  else if char = '(' then return { scan with cstack := char :: scan.cstack }
  else return scan

def longestValidParentheses (s : List Char) : Option Int :=
  match s with
  | [] => some 0
  | first :: _ => do
      let scan ← forLoop 1 (s.length - 1) (visit s) ⟨List.replicate s.length 0, [first], -1, 0⟩
      return scan.max_length

/-! ### What is closed -/

/-- A balanced part ends at the place. -/
def Closes (s : List Char) (i : Nat) : Prop :=
  s[i]? = some ')' ∧ ∃ part, part ≠ [] ∧ Balanced parentheses part ∧ part <:+ s.take (i + 1)

structure FirstClosed (s : List Char) (first : Nat) : Prop where
  closes : Closes s first
  before : ∀ i < first, ¬Closes s i

variable {s : List Char} {i : Nat}

theorem onePair : parentheses.OnePair '(' ')' := by
  intro symbol opening
  change (if symbol = ')' then some '(' else none) = some opening ↔ _
  split
  next closing => simp [closing, eq_comm]
  next other => simp [other]

variable (symbols : ∀ symbol ∈ s, symbol = '(' ∨ symbol = ')')

include symbols in
theorem closes_iff (here : s[i]? = some ')') : Closes s i ↔ 0 < depth ')' (s.take i) := by
  obtain ⟨inside, is⟩ := List.getElem?_eq_some_iff.mp here
  have next : s.take (i + 1) = s.take i ++ [')'] := by rw [← List.take_append_getElem inside, is]
  rw [Closes, and_iff_right here, next]
  exact exists_balanced_suffix_iff onePair fun symbol member =>
    symbols symbol (List.mem_of_mem_take member)

include symbols in
theorem not_closes_zero : ¬Closes s 0 := by
  intro closes
  have positive := (closes_iff symbols closes.1).mp closes
  exact absurd positive (Nat.lt_irrefl 0)

/-! ### What is on the stack -/

/-- On top are the parentheses that are open, and below them is no open one. -/
def Stacked (s : List Char) (i : Nat) (cstack : List Char) : Prop :=
  ∃ below, cstack = List.replicate (depth ')' (s.take i)) '(' ++ below ∧ below.head? ≠ some '('

theorem depth_take_succ (inside : i < s.length) :
    depth ')' (s.take (i + 1)) =
      if s[i] = ')' then depth ')' (s.take i) - 1 else depth ')' (s.take i) + 1 := by
  rw [← List.take_append_getElem inside, depth_concat]

/-- An open parenthesis closes nothing. -/
theorem visit_open {scan : Scan} (inside : i < s.length) (opens : s[i] = '(')
    (stacked : Stacked s i scan.cstack) :
    visit s scan i = some { scan with cstack := '(' :: scan.cstack } ∧
      Stacked s (i + 1) ('(' :: scan.cstack) := by
  obtain ⟨below, is, bottom⟩ := stacked
  constructor
  · rw [visit, List.getElem?_eq_getElem inside, opens]
    rfl
  · refine ⟨below, ?_, bottom⟩
    rw [depth_take_succ inside, if_neg (by rw [opens]; decide), is, List.replicate_succ]
    rfl

/-- Without an open parenthesis the stack is emptied. -/
theorem visit_unmatched {scan : Scan} (inside : i < s.length) (closing : s[i] = ')')
    (none_ : depth ')' (s.take i) = 0) (stacked : Stacked s i scan.cstack) :
    visit s scan i = some { scan with vec := scan.vec.set i 0, cstack := [] } ∧
      Stacked s (i + 1) [] := by
  obtain ⟨below, is, bottom⟩ := stacked
  rw [none_, List.replicate_zero, List.nil_append] at is
  constructor
  · rw [visit, List.getElem?_eq_getElem inside, closing]
    dsimp only [Option.bind_eq_bind, Option.bind_some]
    rw [if_pos rfl, is]
    cases below with
    | nil => rfl
    | cons top rest =>
        have other : top ≠ '(' := fun same => bottom (congrArg some same)
        split
        next same => exact absurd (List.cons.inj same).1 other
        next => rfl
  · refine ⟨[], ?_, by simp⟩
    rw [depth_take_succ inside, if_pos closing, none_]
    rfl

/-- An open parenthesis is closed, and taken from the stack. -/
theorem visit_matched {scan : Scan} (inside : i < s.length) (closing : s[i] = ')')
    (some_ : 0 < depth ')' (s.take i)) (stacked : Stacked s i scan.cstack) :
    ∃ rest, visit s scan i = close scan rest i ∧ Stacked s (i + 1) rest := by
  obtain ⟨below, is, bottom⟩ := stacked
  obtain ⟨height, heightIs⟩ := Nat.exists_eq_add_of_lt some_
  rw [Nat.zero_add] at heightIs
  refine ⟨List.replicate height '(' ++ below, ?_, below, ?_, bottom⟩
  · rw [visit, List.getElem?_eq_getElem inside, closing, is, heightIs, List.replicate_succ]
    rfl
  · rw [depth_take_succ inside, if_pos closing, heightIs, Nat.add_sub_cancel]

include symbols in
/-- A round either closes nothing or closes the top of the stack. -/
theorem visit_cases {scan : Scan} (inside : i < s.length) (stacked : Stacked s i scan.cstack) :
    (¬Closes s i ∧ ∃ vec cstack, (vec = scan.vec ∨ vec = scan.vec.set i 0) ∧
      visit s scan i = some { scan with vec := vec, cstack := cstack } ∧ Stacked s (i + 1) cstack) ∨
    Closes s i ∧ ∃ rest, visit s scan i = close scan rest i ∧ Stacked s (i + 1) rest := by
  have here : s[i]? = some s[i] := List.getElem?_eq_getElem inside
  rcases symbols s[i] (List.getElem_mem inside) with opens | closing
  · have notClosing : ¬Closes s i := by
      rintro ⟨closing, -⟩
      rw [here, opens] at closing
      exact absurd (Option.some.inj closing) (by decide)
    exact .inl ⟨notClosing, scan.vec, '(' :: scan.cstack, .inl rfl, visit_open inside opens stacked⟩
  · have iff := closes_iff symbols (here.trans (congrArg some closing))
    by_cases some_ : 0 < depth ')' (s.take i)
    · exact .inr ⟨iff.mpr some_, visit_matched inside closing some_ stacked⟩
    · refine .inl ⟨mt iff.mp some_, scan.vec.set i 0, [], .inr rfl, ?_⟩
      exact visit_unmatched inside closing (Nat.eq_zero_of_not_pos some_) stacked

/-! ### What is recorded -/

/-- Before round `i` nothing has been closed; or the first place is an `int`, and every later one
counts from there; or it is not, and every place counts anew. -/
inductive Recorded (s : List Char) (i : Nat) (scan : Scan) : Prop where
  | nothing (unclosed : ∀ j < i, ¬Closes s j) (zeros : ∀ p < s.length, scan.vec[p]? = some 0)
      (last : scan.last_close = -1) (max : scan.max_length = 0)
  | near (first : Nat) (isFirst : FirstClosed s first) (before : first < i)
      (small : first < 2 ^ 31) (last : scan.last_close = first) (two : scan.vec[first]? = some 2)
      (max : scan.max_length = 2 ∧ (∀ j < i, Closes s j → j = first) ∨
        scan.max_length = 4 ∧ ∃ j, first < j ∧ Closes s j)
  | far (first : Nat) (isFirst : FirstClosed s first) (before : first < i)
      (large : 2 ^ 31 ≤ first) (zeros : ∀ p < 2 ^ 31, scan.vec[p]? = some 0)
      (last : scan.last_close < 2 ^ 31) (max : scan.max_length = 2)

theorem getElem?_set_of_ne {vec : List Int} {p : Nat} {held value : Int} (other : p ≠ i)
    (is : vec[p]? = some held) : (vec.set i value)[p]? = some held := by
  rw [List.getElem?_set_ne other.symm, is]

/-- What is recorded survives a round that closes nothing. -/
theorem Recorded.keep {scan : Scan} {vec : List Int} {cstack : List Char}
    (recorded : Recorded s i scan) (notClosing : ¬Closes s i)
    (kept : vec = scan.vec ∨ vec = scan.vec.set i 0) :
    Recorded s (i + 1) { scan with vec := vec, cstack := cstack } := by
  have keeps {p : Nat} {held : Int} (is : scan.vec[p]? = some held) (zero : p = i → held = 0) :
      vec[p]? = some held := by
    rcases kept with rfl | rfl
    · exact is
    · by_cases here : p = i
      · obtain rfl := zero here
        subst here
        exact List.getElem?_set_self (List.getElem?_eq_some_iff.mp is).1
      · exact getElem?_set_of_ne here is
  have upTo {j : Nat} (before : j < i + 1) (closes : Closes s j) : j < i := by
    rcases Nat.lt_or_eq_of_le (Nat.le_of_lt_succ before) with earlier | rfl
    · exact earlier
    · exact absurd closes notClosing
  cases recorded with
  | nothing unclosed zeros last max =>
      exact .nothing (fun j before closes => unclosed j (upTo before closes) closes)
        (fun p inside => keeps (zeros p inside) fun _ => rfl) last max
  | near first isFirst before small last two max =>
      refine .near first isFirst (Nat.lt_succ_of_lt before) small last
        (keeps two fun same => absurd same before.ne) (max.imp ?_ id)
      rintro ⟨isTwo, only⟩
      exact ⟨isTwo, fun j earlier closes => only j (upTo earlier closes) closes⟩
  | far first isFirst before large zeros last max =>
      exact .far first isFirst (Nat.lt_succ_of_lt before) large
        (fun p below => keeps (zeros p below) fun _ => rfl) last max

include symbols in
/-- In a round that closes something the recorded length is four, or it is two. -/
theorem Recorded.close {scan : Scan} (recorded : Recorded s i scan) (closes : Closes s i)
    (rest : List Char) :
    ∃ after, close scan rest i = some after ∧ after.cstack = rest ∧ Recorded s (i + 1) after := by
  have inside : i < s.length := (List.getElem?_eq_some_iff.mp closes.1).1
  cases recorded with
  | nothing unclosed zeros last max =>
      have isFirst : FirstClosed s i := ⟨closes, unclosed⟩
      have inVec := (List.getElem?_eq_some_iff.mp (zeros i inside)).1
      have notPositive : ¬scan.last_close > 0 := by omega
      have longer : (2 : Int) > scan.max_length := by omega
      rw [LongestValidParentheses.close, count, if_neg notPositive]
      refine ⟨_, rfl, rfl, ?_⟩
      by_cases small : i < 2 ^ 31
      · refine .near i isFirst (Nat.lt_succ_self i) small (converted_natCast (by decide) small)
          (List.getElem?_set_self inVec) (.inl ⟨if_pos longer, fun j before other => ?_⟩)
        by_contra different
        exact unclosed j (by omega) other
      · refine .far i isFirst (Nat.lt_succ_self i) (not_lt.mp small) (fun p below => ?_) ?_
          (if_pos longer)
        · exact getElem?_set_of_ne (by omega) (zeros p (by omega))
        · dsimp only
          rw [converted]
          omega
  | near first isFirst before small last two max =>
      have positive : 0 < first := by
        rcases Nat.eq_zero_or_pos first with rfl | positive
        · exact absurd isFirst.closes (not_closes_zero symbols)
        · exact positive
      rw [LongestValidParentheses.close, count, if_pos (by omega), last, entry_natCast, two]
      refine ⟨_, rfl, rfl, ?_⟩
      refine .near first isFirst (Nat.lt_succ_of_lt before) small rfl
        (getElem?_set_of_ne before.ne two) (.inr ⟨?_, i, before, closes⟩)
      dsimp only
      rcases max with ⟨isTwo, -⟩ | ⟨isFour, -⟩
      · rw [isTwo]
        rfl
      · rw [isFour]
        rfl
  | far first isFirst before large zeros last max =>
      have counted : count scan i =
          some (2, if scan.last_close > 0 then scan.last_close else converted 32 i) := by
        rw [count]
        split
        next positive =>
          obtain ⟨p, place⟩ := Int.eq_ofNat_of_zero_le positive.le
          rw [place, entry_natCast, zeros p (by omega)]
          rfl
        next => rfl
      rw [LongestValidParentheses.close, counted]
      refine ⟨_, rfl, rfl, ?_⟩
      refine .far first isFirst (Nat.lt_succ_of_lt before) large (fun p below => ?_) ?_ ?_
      · exact getElem?_set_of_ne (by omega) (zeros p below)
      · dsimp only
        rw [converted]
        split <;> omega
      · dsimp only
        rw [max]
        rfl

include symbols in
theorem visit_records {scan : Scan} (inside : i < s.length) (stacked : Stacked s i scan.cstack)
    (recorded : Recorded s i scan) :
    ∃ after, visit s scan i = some after ∧ Stacked s (i + 1) after.cstack ∧
      Recorded s (i + 1) after := by
  rcases visit_cases symbols inside stacked with
    ⟨notClosing, vec, cstack, kept, returned, next⟩ | ⟨closes, rest, returned, next⟩
  · exact ⟨_, returned, next, recorded.keep notClosing kept⟩
  · obtain ⟨after, closed, is, recordedNext⟩ := recorded.close symbols closes rest
    exact ⟨after, returned.trans closed, is ▸ next, recordedNext⟩

theorem stacked_first {first : Char} {rest : List Char} (symbol : first = '(' ∨ first = ')') :
    Stacked (first :: rest) 1 [first] := by
  rcases symbol with rfl | rfl
  · exact ⟨[], rfl, by simp⟩
  · exact ⟨[')'], rfl, by simp⟩

/-! ### What is returned -/

/-- The cases of what is returned. -/
inductive Returned (s : List Char) (result : Int) : Prop where
  | nothing (unclosed : ∀ i, ¬Closes s i) (is : result = 0)
  | near (first : Nat) (isFirst : FirstClosed s first) (small : first < 2 ^ 31)
      (is : result = 2 ∧ (∀ i, Closes s i → i = first) ∨
        result = 4 ∧ ∃ i, first < i ∧ Closes s i)
  | far (first : Nat) (isFirst : FirstClosed s first) (large : 2 ^ 31 ≤ first) (is : result = 2)

include symbols in
theorem longestValidParentheses_returned :
    ∃ result, longestValidParentheses s = some result ∧ Returned s result := by
  cases s with
  | nil =>
      refine ⟨0, rfl, .nothing (fun i closes => ?_) rfl⟩
      cases closes.1
  | cons first rest =>
      obtain ⟨scan, returned, -, recorded⟩ := @forLoop_spec _ (visit (first :: rest)) 1
        ((first :: rest).length - 1) ⟨List.replicate (first :: rest).length 0, [first], -1, 0⟩
        (fun count scan => Stacked (first :: rest) (1 + count) scan.cstack ∧
          Recorded (first :: rest) (1 + count) scan)
        ⟨stacked_first (symbols first List.mem_cons_self), .nothing
          (fun j before closes => by
            obtain rfl : j = 0 := by omega
            exact not_closes_zero symbols closes)
          (fun p inside => by rw [List.getElem?_replicate, if_pos inside]) rfl rfl⟩
        (fun count below scan holds => by
          rw [← Nat.add_assoc]
          exact visit_records symbols (by omega) holds.1 holds.2)
      have all {j : Nat} (closes : Closes (first :: rest) j) :
          j < 1 + ((first :: rest).length - 1) := by
        have inside := (List.getElem?_eq_some_iff.mp closes.1).1
        omega
      refine ⟨scan.max_length, ?_, ?_⟩
      · rw [longestValidParentheses, returned]
        rfl
      · cases recorded with
        | nothing unclosed _ _ max =>
            exact .nothing (fun j closes => unclosed j (all closes) closes) max
        | near first isFirst _ small _ _ max =>
            refine .near first isFirst small (max.imp ?_ id)
            exact fun ⟨isTwo, only⟩ => ⟨isTwo, fun j closes => only j (all closes) closes⟩
        | far first isFirst _ large _ _ max => exact .far first isFirst large max

/-! ### The balanced parts -/

/-- The lengths of the balanced parts. -/
def partLengths (s : List Char) : Set Nat :=
  {length | ∃ part, part <:+: s ∧ Balanced parentheses part ∧ part.length = length}

theorem closes_at {front part back : List Char} (whole : s = front ++ part ++ back)
    (nonempty : part ≠ []) (balanced : Balanced parentheses part) :
    Closes s (front.length + part.length - 1) := by
  have positive := List.length_pos_iff.mpr nonempty
  obtain ⟨left, right, outer, inner, closes, -, -, is⟩ := balanced.exists_last_pair nonempty
  obtain ⟨rfl, -⟩ := (onePair right left).mp closes
  have place : front.length + part.length - 1 = (front ++ (outer ++ left :: inner)).length := by
    rw [is]
    simp only [List.length_append, List.length_cons, List.length_nil]
    omega
  have behind : s = front ++ (outer ++ left :: inner) ++ ')' :: back := by
    rw [whole, is]
    simp
  refine ⟨?_, part, nonempty, balanced, front, ?_⟩
  · rw [place, behind, List.getElem?_append_right (Nat.le_refl _), Nat.sub_self]
    rfl
  · rw [whole, show front.length + part.length - 1 + 1 = (front ++ part).length by
      rw [List.length_append]; omega, List.take_left]

theorem exists_part (closes : Closes s i) :
    ∃ part, part ≠ [] ∧ part <:+: s ∧ Balanced parentheses part := by
  obtain ⟨-, part, nonempty, balanced, atEnd⟩ := closes
  exact ⟨part, nonempty, atEnd.isInfix.trans (List.take_prefix _ s).isInfix, balanced⟩

/-- In a balanced part of more than two characters another parenthesis closes one before. -/
theorem two_close {part : List Char} (inside : part <:+: s) (balanced : Balanced parentheses part)
    (long : 2 < part.length) : ∃ i j, i < j ∧ Closes s i ∧ Closes s j := by
  have nonempty : part ≠ [] := List.ne_nil_of_length_pos (by omega)
  obtain ⟨front, back, whole⟩ := inside
  have last := closes_at whole.symm nonempty balanced
  obtain ⟨left, right, outer, inner, -, isOuter, isInner, is⟩ := balanced.exists_last_pair nonempty
  have size := congrArg List.length is
  simp only [List.length_append, List.length_cons, List.length_nil] at size
  by_cases empty : outer = []
  · have more : 0 < inner.length := by
      rw [empty, List.length_nil] at size
      omega
    refine ⟨_, _, ?_, @closes_at s (front ++ [left]) inner (right :: back) ?_
      (List.ne_nil_of_length_pos more) isInner, last⟩
    · rw [List.length_append, List.length_singleton]
      omega
    · rw [← whole, is, empty]
      simp
  · have more := List.length_pos_iff.mpr empty
    refine ⟨_, _, ?_, @closes_at s front outer (left :: (inner ++ [right]) ++ back) ?_ empty isOuter,
      last⟩
    · omega
    · rw [← whole, is]
      simp

theorem greatest_of_unclosed (unclosed : ∀ i, ¬Closes s i) : IsGreatest (partLengths s) 0 := by
  refine ⟨⟨[], List.nil_infix, .nil, rfl⟩, ?_⟩
  rintro length ⟨part, ⟨front, back, whole⟩, balanced, rfl⟩
  by_contra positive
  exact unclosed _ (closes_at whole.symm (List.ne_nil_of_length_pos (by omega)) balanced)

theorem greatest_of_single (closes : Closes s i) (single : ∀ j, Closes s j → j = i) :
    IsGreatest (partLengths s) 2 := by
  have short {part : List Char} (inside : part <:+: s) (balanced : Balanced parentheses part) :
      part.length ≤ 2 := by
    by_contra long
    obtain ⟨p, q, less, closesP, closesQ⟩ := two_close inside balanced (by omega)
    rw [single p closesP, single q closesQ] at less
    exact lt_irrefl i less
  constructor
  · obtain ⟨part, nonempty, inside, balanced⟩ := exists_part closes
    have positive := List.length_pos_iff.mpr nonempty
    have even := balanced.even_length
    have atMost := short inside balanced
    exact ⟨part, inside, balanced, by omega⟩
  · rintro length ⟨part, inside, balanced, rfl⟩
    exact short inside balanced

/-! ### Which strings are handled -/

/-- The length of a longest balanced part is returned. -/
def Right (s : List Char) : Prop :=
  ∃ result : Nat, longestValidParentheses s = some (result : Int) ∧
    IsGreatest (partLengths s) result

/-- At most one parenthesis is closed; or the longest part has four characters and the first place
that closes one is an `int`, or it has two and the place is not. -/
def Handled (s : List Char) : Prop :=
  (∀ i j, Closes s i → Closes s j → i = j) ∨
    ∃ first, FirstClosed s first ∧
      (first < 2 ^ 31 ∧ IsGreatest (partLengths s) 4 ∨
        2 ^ 31 ≤ first ∧ IsGreatest (partLengths s) 2)

theorem FirstClosed.unique {first other : Nat} (left : FirstClosed s first)
    (right : FirstClosed s other) : first = other := by
  rcases Nat.lt_trichotomy first other with less | same | greater
  · exact absurd left.closes (right.before first less)
  · exact same
  · exact absurd right.closes (left.before other greater)

/-- What is returned is right where at most one parenthesis is closed. -/
theorem Returned.right_of_single {value : Int} (returned : longestValidParentheses s = some value)
    (is : Returned s value) (single : ∀ i j, Closes s i → Closes s j → i = j) : Right s := by
  cases is with
  | nothing unclosed zero =>
      rw [zero] at returned
      exact ⟨0, returned, greatest_of_unclosed unclosed⟩
  | near first isFirst small is =>
      rcases is with ⟨two, -⟩ | ⟨-, other, later, closes⟩
      · rw [two] at returned
        exact ⟨2, returned, greatest_of_single isFirst.closes fun j closes =>
          single j first closes isFirst.closes⟩
      · exact absurd (single first other isFirst.closes closes) later.ne
  | far first isFirst large two =>
      rw [two] at returned
      exact ⟨2, returned, greatest_of_single isFirst.closes fun j closes =>
        single j first closes isFirst.closes⟩

/-- What is returned is four where some part has four characters and the first place is an `int`. -/
theorem Returned.eq_four {value : Int} {first : Nat} (is : Returned s value)
    (isFirst : FirstClosed s first) (small : first < 2 ^ 31) (four : 4 ∈ partLengths s) :
    value = 4 := by
  cases is with
  | nothing unclosed => exact absurd isFirst.closes (unclosed first)
  | near other isOther _ is =>
      rcases is with ⟨-, only⟩ | ⟨isFour, -⟩
      · obtain ⟨part, inside, balanced, length⟩ := four
        obtain ⟨p, q, less, closesP, closesQ⟩ := two_close inside balanced (by omega)
        rw [only p closesP, only q closesQ] at less
        exact absurd less (lt_irrefl other)
      · exact isFour
  | far other isOther large =>
      rw [← isFirst.unique isOther] at large
      omega

theorem Returned.eq_two {value : Int} {first : Nat} (is : Returned s value)
    (isFirst : FirstClosed s first) (large : 2 ^ 31 ≤ first) : value = 2 := by
  cases is with
  | nothing unclosed => exact absurd isFirst.closes (unclosed first)
  | near other isOther small =>
      rw [← isFirst.unique isOther] at small
      omega
  | far _ _ _ two => exact two

theorem handled_of_right {value : Int} (returned : longestValidParentheses s = some value)
    (is : Returned s value) (right : Right s) : Handled s := by
  obtain ⟨result, returned', greatest⟩ := right
  obtain rfl := Option.some.inj (returned.symm.trans returned')
  cases is with
  | nothing unclosed => exact .inl fun i j closes => absurd closes (unclosed i)
  | near first isFirst small is =>
      rcases is with ⟨-, only⟩ | ⟨four, -⟩
      · exact .inl fun i j left right => (only i left).trans (only j right).symm
      · obtain rfl : result = 4 := by omega
        exact .inr ⟨first, isFirst, .inl ⟨small, greatest⟩⟩
  | far first isFirst large two =>
      obtain rfl : result = 2 := by omega
      exact .inr ⟨first, isFirst, .inr ⟨large, greatest⟩⟩

include symbols in
theorem right_iff_handled : Right s ↔ Handled s := by
  obtain ⟨value, returned, is⟩ := longestValidParentheses_returned symbols
  constructor
  · exact handled_of_right returned is
  · rintro (single | ⟨first, isFirst, ⟨small, four⟩ | ⟨large, two⟩⟩)
    · exact is.right_of_single returned single
    · rw [is.eq_four isFirst small four.1] at returned
      exact ⟨4, returned, four⟩
    · rw [is.eq_two isFirst large] at returned
      exact ⟨2, returned, two⟩

theorem right_iff_handled_twoPairs : Right ['(', ')', '(', ')'] := by
  have symbols : ∀ symbol ∈ ['(', ')', '(', ')'], symbol = '(' ∨ symbol = ')' := by simp
  have two : Balanced parentheses ['(', ')'] := .pair rfl .nil .nil
  refine (right_iff_handled symbols).mpr (.inr ⟨1, ⟨?_, fun i below => ?_⟩, .inl ⟨by decide, ?_⟩⟩)
  · exact @closes_at _ [] ['(', ')'] ['(', ')'] rfl (by decide) two
  · obtain rfl : i = 0 := by omega
    exact not_closes_zero symbols
  · refine ⟨⟨_, List.infix_rfl, two.append two, rfl⟩, ?_⟩
    rintro length ⟨part, inside, -, rfl⟩
    exact inside.length_le

/-- The third of three pairs counts from the first one. -/
theorem not_right_threePairs : ¬Right ['(', ')', '(', ')', '(', ')'] := by
  rintro ⟨result, returned, greatest⟩
  have isFour : longestValidParentheses ['(', ')', '(', ')', '(', ')'] = some 4 := rfl
  rw [isFour] at returned
  have six : 6 ∈ partLengths ['(', ')', '(', ')', '(', ')'] :=
    ⟨_, List.infix_rfl, .pair rfl .nil (.pair rfl .nil (.pair rfl .nil .nil)), rfl⟩
  have atLeast := greatest.2 six
  have is := Option.some.inj returned
  omega

end LongestValidParentheses

end StdPrograms.Hobbies

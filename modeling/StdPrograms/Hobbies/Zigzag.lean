import StdPrograms.Foundation.CountedLoop
import StdPrograms.Foundation.UpAndDown

/-!
Contract: a text written down and up over rows.

Owns `convert` of `solution_6.cpp` and that it reads the rows of the text exactly where no position
leaves the type.

Does not own the characters.
-/

namespace StdPrograms.Hobbies

open StdPrograms.Foundation

namespace Zigzag

/-- The inner loop: the characters of row `i` from `j` on, behind `result`. -/
def rowLoop (s : List Char) (numRows i : Nat) : Nat → Bool → Nat → List Char → Option (List Char)
  | 0, _, _, _ => none
  | fuel + 1, flag, j, result =>
      match s[j]? with
      | none => some result
      | some char =>
          let result := result ++ [char]
          if i = 1 ∨ i = numRows then do
            let stride ← position 32 (2 * (numRows - 1))
            let j ← position 32 (j + stride)
            rowLoop s numRows i fuel flag j result
          else do
            let stride ← position 32 (2 * if flag then numRows - i else i - 1)
            let j ← position 32 (j + stride)
            rowLoop s numRows i fuel (!flag) j result

def convert (fuel : Nat) (s : List Char) (numRows : Int) : Option (List Char) :=
  if numRows < 2 then some s
  else
    signedLoop 32 1 numRows.toNat
      (fun result i => rowLoop s numRows.toNat i fuel true (i - 1) result) []

/-! ### Writing -/

variable {α β : Type} {top : Nat}

/-- One item after the other behind the row where the walker is. -/
def write (top : Nat) (rows : List (List α)) (walker : Walker) : List α → List (List α)
  | [] => rows
  | item :: rest =>
      write top (rows.modify walker.place (· ++ [item])) (walker.step top) rest

/-- The rows, after the items have been written down and up. -/
def zigzag (numRows : Nat) (items : List α) : List α :=
  (write (numRows - 1) (List.replicate numRows []) ⟨0, true⟩ items).flatten

/-- No position of the next character in a row leaves the type, nor the counter of the rows. -/
def Fits (length numRows : Nat) : Prop :=
  2 ≤ numRows → numRows < 2 ^ 31 - 1 ∧ ∀ q < length, again (numRows - 1) q < 2 ^ 31

theorem flatten_modify_perm {rows : List (List α)} {row : Nat} (inside : row < rows.length)
    (item : α) : ((rows.modify row (· ++ [item])).flatten).Perm (rows.flatten ++ [item]) := by
  induction rows generalizing row with
  | nil => exact absurd inside (Nat.not_lt_zero row)
  | cons first rest inductionHypothesis =>
      cases row with
      | zero =>
          rw [List.modify_zero_cons, List.flatten_cons, List.flatten_cons, List.append_assoc,
            List.append_assoc]
          exact List.perm_append_comm.append_left first
      | succ row =>
          rw [List.modify_succ_cons, List.flatten_cons, List.flatten_cons, List.append_assoc]
          exact (inductionHypothesis (Nat.lt_of_succ_lt_succ inside)).append_left first

/-- Every item is written once. -/
theorem write_perm {rows : List (List α)} {walker : Walker} (onRows : top < rows.length)
    (inside : walker.place ≤ top) (items : List α) :
    ((write top rows walker items).flatten).Perm (rows.flatten ++ items) := by
  induction items generalizing rows walker with
  | nil => rw [write, List.append_nil]
  | cons item rest inductionHypothesis =>
      have written := flatten_modify_perm (Nat.lt_of_le_of_lt inside onRows) item
      refine (inductionHypothesis (by rwa [List.length_modify]) (walker.step_place_le inside)).trans
        ((written.append_right rest).trans ?_)
      rw [List.append_assoc, List.singleton_append]

theorem zigzag_perm {numRows : Nat} (positive : 0 < numRows) (items : List α) :
    (zigzag numRows items).Perm items := by
  have onRows : numRows - 1 < (List.replicate numRows ([] : List α)).length := by
    rw [List.length_replicate]
    omega
  have whole := @write_perm _ _ _ ⟨0, true⟩ onRows (Nat.zero_le _) items
  rwa [List.flatten_replicate_nil, List.nil_append] at whole

theorem write_map (f : α → β) (rows : List (List α)) (walker : Walker) (items : List α) :
    write top (rows.map (List.map f)) walker (items.map f) =
      (write top rows walker items).map (List.map f) := by
  induction items generalizing rows walker with
  | nil => rfl
  | cons item rest inductionHypothesis =>
      rw [List.map_cons, write, write, ← inductionHypothesis]
      congr 1
      refine List.ext_getElem? fun row => ?_
      rw [List.getElem?_modify, List.getElem?_map, List.getElem?_map, List.getElem?_modify]
      cases rows[row]? with
      | none => rfl
      | some here =>
          by_cases same : walker.place = row
          · simp [same]
          · simp [same]

theorem zigzag_map (f : α → β) (numRows : Nat) (items : List α) :
    zigzag numRows (items.map f) = (zigzag numRows items).map f := by
  have mapped := @write_map _ _ (numRows - 1) f (List.replicate numRows []) ⟨0, true⟩ items
  rw [List.map_replicate, List.map_nil] at mapped
  rw [zigzag, mapped, zigzag, List.map_flatten]

/-- What is where follows from the positions alone. -/
theorem zigzag_positions (numRows : Nat) (items : List α) :
    (zigzag numRows (List.range items.length)).map (items[·]?) =
      (zigzag numRows items).map some := by
  rw [← zigzag_map, ← zigzag_map]
  congr 1
  exact List.ext_getElem (by simp) fun at_ inRange inItems => by simp

/-! ### The rows -/

/-- The items of a row; the first one comes after so many steps. -/
def inRow (top row : Nat) : Nat → List α → List α
  | _, [] => []
  | steps, item :: rest =>
      if placeAt top steps = row then item :: inRow top row (steps + 1) rest
      else inRow top row (steps + 1) rest

theorem write_getElem? (positive : 0 < top) {rows : List (List α)} {walker : Walker} {steps : Nat}
    (after : walker.After top steps) (items : List α) (row : Nat) :
    (write top rows walker items)[row]? = rows[row]?.map (· ++ inRow top row steps items) := by
  induction items generalizing rows walker steps with
  | nil => simp [write, inRow]
  | cons item rest inductionHypothesis =>
      rw [write, inductionHypothesis (after.step positive), List.getElem?_modify, after.place,
        inRow]
      by_cases here : placeAt top steps = row
      · simp [here, Function.comp_def]
      · simp [here]

/-- With one row nothing moves. -/
theorem zigzag_one (items : List α) : zigzag 1 items = items := by
  have written (row : List α) (rising : Bool) :
      write 0 [row] ⟨0, rising⟩ items = [row ++ items] := by
    induction items generalizing row rising with
    | nil => rw [write, List.append_nil]
    | cons item rest inductionHypothesis =>
        refine (inductionHypothesis (row ++ [item]) false).trans ?_
        rw [List.append_assoc, List.singleton_append]
  exact (congrArg List.flatten (written [] true)).trans (by simp)

theorem zigzag_eq {numRows : Nat} (two : 2 ≤ numRows) (items : List α) :
    zigzag numRows items =
      (List.range numRows).flatMap fun row => inRow (numRows - 1) row 0 items := by
  have positive : 0 < numRows - 1 := by omega
  have start : (⟨0, true⟩ : Walker).After (numRows - 1) 0 :=
    ⟨(placeAt_of_le positive (Nat.zero_le _)).symm, fun inner => absurd (Nat.zero_mod _) inner⟩
  rw [zigzag, List.flatMap]
  congr 1
  refine List.ext_getElem? fun row => ?_
  rw [write_getElem? positive start, List.getElem?_map]
  by_cases inside : row < numRows
  · simp [inside]
  · simp [inside]

theorem inRow_skip {row start stop : Nat} (later : start ≤ stop)
    (elsewhere : ∀ steps, start ≤ steps → steps < stop → placeAt top steps ≠ row)
    (items : List α) :
    inRow top row start (items.drop start) = inRow top row stop (items.drop stop) := by
  induction stop, later using Nat.le_induction with
  | base => rfl
  | succ stop later inductionHypothesis =>
      rw [inductionHypothesis fun steps from_ before => elsewhere steps from_ (by omega)]
      by_cases inside : stop < items.length
      · rw [List.drop_eq_getElem_cons inside, inRow, if_neg (elsewhere stop later (by omega))]
      · rw [List.drop_eq_nil_of_le (by omega), List.drop_eq_nil_of_le (by omega), inRow, inRow]

/-- Behind an item its row goes on where the walk comes again. -/
theorem inRow_again (positive : 0 < top) {items : List α} {j : Nat} {item : α}
    (here : items[j]? = some item) :
    inRow top (placeAt top j) j (items.drop j) =
      item :: inRow top (placeAt top j) (again top j) (items.drop (again top j)) := by
  obtain ⟨inside, rfl⟩ := List.getElem?_eq_some_iff.mp here
  rw [List.drop_eq_getElem_cons inside, inRow, if_pos rfl]
  congr 1
  exact inRow_skip (lt_again positive j)
    (fun steps later earlier => placeAt_ne positive later earlier) items

/-! ### One row -/

section

variable {s : List Char} {numRows j : Nat}

/-- In an inner row the flag is set on the way down. -/
def Facing (top j : Nat) (flag : Bool) : Prop :=
  j % top ≠ 0 → (flag = true ↔ j / top % 2 = 0)

/-- What is added leaves the type only where the sum does. -/
theorem position_add (j stride : Nat) (rest : Nat → Option β) :
    ((position 32 stride).bind fun stride => (position 32 (j + stride)).bind rest) =
      (position 32 (j + stride)).bind rest := by
  by_cases held : stride < 2 ^ 31
  · rw [position_of_lt held]
    rfl
  · rw [position_eq_none (Nat.le_of_not_lt held), position_eq_none (by omega)]
    rfl

theorem facing_stretch {stretch further : Nat} (inside : further < top) {flag : Bool} :
    Facing top (stretch * top + further) flag ↔
      (further ≠ 0 → (flag = true ↔ stretch % 2 = 0)) := by
  rw [Facing, stretch_mod stretch inside, stretch_div stretch inside]

/-- Both strides lead to the next character of the row. -/
theorem rowLoop_round (two : 2 ≤ numRows) {char : Char} (here : s[j]? = some char) {flag : Bool}
    (facing : Facing (numRows - 1) j flag) :
    ∃ flag', Facing (numRows - 1) (again (numRows - 1) j) flag' ∧ ∀ fuel result,
      rowLoop s numRows (placeAt (numRows - 1) j + 1) (fuel + 1) flag j result =
        (position 32 (again (numRows - 1) j)).bind fun next =>
          rowLoop s numRows (placeAt (numRows - 1) j + 1) fuel flag' next (result ++ [char]) := by
  obtain ⟨top, rfl⟩ := Nat.exists_eq_add_of_le' (Nat.le_of_lt two)
  rw [Nat.add_sub_cancel] at facing ⊢
  have positive : 0 < top := by omega
  obtain ⟨stretch, further, inside, rfl⟩ := exists_stretch positive j
  rw [facing_stretch inside] at facing
  have place := placeAt_stretch stretch inside
  by_cases outer : further = 0
  · refine ⟨flag, ?_, fun fuel result => ?_⟩
    · subst outer
      rw [again_stretch stretch inside, Nat.sub_zero, ← Nat.succ_mul, ← Nat.add_zero (_ * top),
        facing_stretch inside]
      exact fun inner => absurd rfl inner
    · have atEnd : placeAt top (stretch * top + further) + 1 = 1 ∨
          placeAt top (stretch * top + further) + 1 = top + 1 := by
        rw [place]
        split <;> omega
      rw [rowLoop, here]
      dsimp only
      rw [if_pos atEnd, again, stretch_mod stretch inside, outer, Nat.sub_zero]
      exact position_add _ _ _
  · refine ⟨!flag, ?_, fun fuel result => ?_⟩
    · rw [again_stretch stretch inside, facing_stretch (by omega)]
      have direction := facing outer
      cases flag <;> simp at direction ⊢ <;> omega
    · have between : ¬(placeAt top (stretch * top + further) + 1 = 1 ∨
          placeAt top (stretch * top + further) + 1 = top + 1) := by
        rw [place]
        split <;> omega
      have stride : (if flag then top + 1 - (placeAt top (stretch * top + further) + 1)
          else placeAt top (stretch * top + further) + 1 - 1) = top - further := by
        rw [place]
        simp only [facing outer]
        split <;> omega
      rw [rowLoop, here]
      dsimp only
      rw [if_neg between, stride, again, stretch_mod stretch inside]
      exact position_add _ _ _

variable (fits : ∀ q < s.length, again (numRows - 1) q < 2 ^ 31)

include fits in
theorem rowLoop_spec (two : 2 ≤ numRows) {flag : Bool} (facing : Facing (numRows - 1) j flag)
    {fuel : Nat} (enough : s.length - j < fuel) (result : List Char) :
    rowLoop s numRows (placeAt (numRows - 1) j + 1) fuel flag j result =
      some (result ++ inRow (numRows - 1) (placeAt (numRows - 1) j) j (s.drop j)) := by
  have positive : 0 < numRows - 1 := by omega
  induction fuel generalizing j flag result with
  | zero => exact absurd enough (Nat.not_lt_zero _)
  | succ fuel inductionHypothesis =>
      cases here : s[j]? with
      | none =>
          rw [rowLoop, here, List.drop_eq_nil_of_le (List.getElem?_eq_none_iff.mp here), inRow,
            List.append_nil]
      | some char =>
          obtain ⟨flag', facing', round⟩ := rowLoop_round two here facing
          have inside := (List.getElem?_eq_some_iff.mp here).1
          have further := lt_again positive j
          have later := inductionHypothesis facing' (by omega) (result ++ [char])
          rw [placeAt_again positive] at later
          rw [round, position_of_lt (fits j inside), Option.bind_some, later,
            inRow_again positive here, List.append_assoc, List.singleton_append]

/-- The row in which the position of a next character leaves the type. -/
theorem rowLoop_overflows (two : 2 ≤ numRows) {flag : Bool} (facing : Facing (numRows - 1) j flag)
    {q : Nat} (from_ : j ≤ q) (inside : q < s.length)
    (sameRow : placeAt (numRows - 1) q = placeAt (numRows - 1) j)
    (overflows : 2 ^ 31 ≤ again (numRows - 1) q) (fuel : Nat) (result : List Char) :
    rowLoop s numRows (placeAt (numRows - 1) j + 1) fuel flag j result = none := by
  have positive : 0 < numRows - 1 := by omega
  induction fuel generalizing j flag result with
  | zero => rfl
  | succ fuel inductionHypothesis =>
      have here := List.getElem?_eq_getElem (Nat.lt_of_le_of_lt from_ inside)
      obtain ⟨flag', facing', round⟩ := rowLoop_round two here facing
      rw [round]
      by_cases now : 2 ^ 31 ≤ again (numRows - 1) j
      · rw [position_eq_none now]
        rfl
      · have behind : again (numRows - 1) j ≤ q := by
          by_contra between
          have other : j ≠ q := by
            rintro rfl
            exact now overflows
          exact placeAt_ne positive (by omega) (Nat.lt_of_not_le between) sameRow
        have later := inductionHypothesis facing' behind
          (sameRow.trans (placeAt_again positive j).symm) (result ++ [s[j]])
        rw [placeAt_again positive] at later
        rw [position_of_lt (Nat.lt_of_not_le now), Option.bind_some, later]

/-! ### All rows -/

theorem facing_first {row : Nat} (inside : row ≤ top) : Facing top row true := by
  intro inner
  have below : row < top := by
    refine Nat.lt_of_le_of_ne inside ?_
    rintro rfl
    exact inner (Nat.mod_self row)
  rw [Nat.div_eq_of_lt below]
  exact iff_of_true rfl rfl

include fits in
theorem rows_spec (two : 2 ≤ numRows) {fuel : Nat} (enough : s.length < fuel) :
    forLoop 1 numRows (fun result i => rowLoop s numRows i fuel true (i - 1) result) [] =
      some (zigzag numRows s) := by
  have positive : 0 < numRows - 1 := by omega
  obtain ⟨final, returned, finalIs⟩ := @forLoop_spec _
    (fun result i => rowLoop s numRows i fuel true (i - 1) result) 1 numRows []
    (fun count result => result =
      (List.range count).flatMap fun row => inRow (numRows - 1) row 0 s) rfl (by
    rintro row below _ rfl
    have inside : row ≤ numRows - 1 := by omega
    have place := placeAt_of_le positive inside
    have read := rowLoop_spec fits two (facing_first inside) (by omega : s.length - row < fuel)
      ((List.range row).flatMap fun row => inRow (numRows - 1) row 0 s)
    rw [place] at read
    refine ⟨_, ?_, rfl⟩
    rw [Nat.add_sub_cancel_left, Nat.add_comm 1 row, read, List.range_succ, List.flatMap_append,
      List.flatMap_singleton]
    congr 2
    refine (inRow_skip (Nat.zero_le row) (fun steps _ before => ?_) s).symm
    rw [placeAt_of_le positive (by omega)]
    exact Nat.ne_of_lt before)
  rw [returned, finalIs, zigzag_eq two]

theorem rows_overflow (two : 2 ≤ numRows) {q : Nat} (inside : q < s.length)
    (overflows : 2 ^ 31 ≤ again (numRows - 1) q) (fuel : Nat) :
    signedLoop 32 1 numRows (fun result i => rowLoop s numRows i fuel true (i - 1) result) [] =
      none := by
  have positive : 0 < numRows - 1 := by omega
  have onRows := placeAt_le positive q
  have first := placeAt_of_le positive onRows
  have atMost := placeAt_le_self positive q
  refine forLoop_eq_none_of_le (show placeAt (numRows - 1) q + 1 ≤ numRows by omega) ?_
  refine (signedLoop_succ 32 1 (placeAt (numRows - 1) q) []).trans ?_
  have wrong (result : List Char) := rowLoop_overflows two (facing_first onRows) atMost inside
    first.symm overflows fuel result
  rw [first] at wrong
  simp [Nat.add_comm 1, wrong]

end

/-- The text is read row by row, each position once, where no next position leaves the type. -/
theorem convert_spec (s : List Char) {numRows : Nat} (positive : 0 < numRows)
    (inType : numRows < 2 ^ 31) :
    (Fits s.length numRows → ∀ fuel > s.length,
      convert fuel s numRows = some (zigzag numRows s)) ∧
    (¬Fits s.length numRows → ∀ fuel, convert fuel s numRows = none) ∧
    (zigzag numRows s).Perm s ∧
    ∃ positions : List Nat, positions.Perm (List.range s.length) ∧
      positions.map (s[·]?) = (zigzag numRows s).map some := by
  refine ⟨?_, ?_, zigzag_perm positive s, zigzag numRows (List.range s.length),
    zigzag_perm positive _, zigzag_positions numRows s⟩
  · intro fits fuel enough
    rw [convert]
    split
    next one =>
      obtain rfl : numRows = 1 := by omega
      rw [zigzag_one]
    next more =>
      have two : 2 ≤ numRows := by omega
      obtain ⟨counted, held⟩ := fits two
      rw [Int.toNat_natCast, signedLoop_eq (by omega)]
      exact rows_spec held two enough
  · intro unfit fuel
    rw [Fits, Classical.not_imp] at unfit
    obtain ⟨two, overflows⟩ := unfit
    rw [convert, if_neg (by omega), Int.toNat_natCast]
    by_cases counted : numRows < 2 ^ 31 - 1
    · have some_ : ∃ q < s.length, 2 ^ 31 ≤ again (numRows - 1) q := by
        by_contra none_
        exact overflows ⟨counted, fun q inside => by
          by_contra large
          exact none_ ⟨q, inside, Nat.le_of_not_lt large⟩⟩
      obtain ⟨q, inside, large⟩ := some_
      exact rows_overflow two inside large fuel
    · exact signedLoop_eq_none positive (by omega) []

theorem convert_spec_threeRows :
    (∀ fuel > 14, convert fuel "PAYPALISHIRING".toList 3 = some "PAHNAPLSIIGYIR".toList) ∧
      (zigzag 3 "PAYPALISHIRING".toList).Perm "PAYPALISHIRING".toList := by
  obtain ⟨read, -, perm, -⟩ :=
    convert_spec "PAYPALISHIRING".toList (by decide : 0 < 3) (by decide)
  exact ⟨read fun _ => by decide, perm⟩

/-- The counter of the rows leaves the type behind the last one. -/
theorem convert_fails :
    InSigned 32 (2 ^ 31 - 1) ∧ ∀ fuel, convert fuel ['A'] (2 ^ 31 - 1) = none := by
  refine ⟨by decide, fun fuel => ?_⟩
  rw [convert, if_neg (by norm_num)]
  exact signedLoop_eq_none (by decide) (by decide) []

end Zigzag

end StdPrograms.Hobbies

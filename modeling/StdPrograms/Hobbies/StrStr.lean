import StdPrograms.Foundation.Borders
import StdPrograms.Foundation.CountedLoop
import StdPrograms.Foundation.SignedInt

/-!
Contract: the search of a string in another one with a table of borders.

Owns `strStr` of `solution_28.cpp`: the inner loop that falls back to shorter borders, the table
that is built with it, the search that uses it, and that the first occurrence is found where
both lengths are of type `int`.

Does not own the reading of the strings.
-/

namespace StdPrograms.Hobbies

open StdPrograms.Foundation

namespace StrStr

/-- The inner loop of both loops. There is no result where an index is out of range, or while
the fuel does not last. -/
def fallBack (needle : List Char) (table : List Int) (c : Char) : Nat → Int → Option Int
  | 0, _ => none
  | fuel + 1, j =>
      if 0 ≤ j then do
        let d ← needle[j.toNat]?
        if c ≠ d then do
          let next ← table[j.toNat]?
          fallBack needle table c fuel next
        else some j
      else some j

/-- The body of the loop that fills the table. -/
def fillEntry (fuel : Nat) (needle : List Char) (state : Int × List Int) (i : Nat) :
    Option (Int × List Int) := do
  let c ← needle[i]?
  let j ← fallBack needle state.2 c fuel state.1
  if i + 1 < state.2.length then some (j + 1, state.2.set (i + 1) (j + 1)) else none

/-- The loop over the characters of `haystack` that are left. -/
def search (fuel : Nat) (needle : List Char) (table : List Int) (m : Int) :
    List Char → Int → Int → Option Int
  | [], _, _ => some (-1)
  | c :: rest, i, j => do
      let j ← fallBack needle table c fuel j
      let i ← signed 32 (i + 1)
      if j + 1 = m then some (i - (j + 1)) else search fuel needle table m rest i (j + 1)

/-- There is no result where the table would have a negative size. -/
def strStr (fuel : Nat) (haystack needle : List Char) : Option Int :=
  let m := converted 32 needle.length
  if m < 0 then none
  else do
    let state ← forLoop 0 (m - 1).toNat (fillEntry fuel needle) (-1, List.replicate m.toNat (-1))
    search fuel needle state.2 m haystack 0 0

/-! ### The table -/

variable {needle text : List Char} {table : List Int}

/-- The entries below the bound are the longest borders. -/
def Borders (needle : List Char) (table : List Int) (bound : Nat) : Prop :=
  ∀ q < bound, ∃ border, table[q]? = some border ∧ Longest needle (needle.take q) q border

/-- The inner loop comes to the longest start behind which the character follows. -/
theorem fallBack_spec {c : Char} {bound : Nat} (inside : bound ≤ needle.length)
    (borders : Borders needle table bound) {fuel : Nat} {j : Int} (lower : -1 ≤ j)
    (ends : 0 ≤ j → j.toNat < bound ∧ needle.take j.toNat <:+ text)
    (greatest : ∀ k < bound, needle.take k <:+ text → needle[k]? = some c → (k : Int) ≤ j)
    (enough : (j + 1).toNat < fuel) :
    ∃ found, fallBack needle table c fuel j = some found ∧
      Continues needle text bound c found := by
  induction fuel generalizing j with
  | zero => exact absurd enough (Nat.not_lt_zero _)
  | succ fuel inductionHypothesis =>
      rw [fallBack]
      by_cases nonneg : 0 ≤ j
      · obtain ⟨below, suffix⟩ := ends nonneg
        have within : j.toNat < needle.length := Nat.lt_of_lt_of_le below inside
        rw [if_pos nonneg, List.getElem?_eq_getElem within, Option.bind_eq_bind, Option.bind_some]
        by_cases same : c = needle[j.toNat]
        · refine ⟨j, if_neg (not_not_intro same), lower, ?_, greatest⟩
          intro _
          exact ⟨below, suffix, by rw [List.getElem?_eq_getElem within, same]⟩
        · obtain ⟨border, entry, longest⟩ := borders j.toNat below
          rw [if_pos same, entry, Option.bind_eq_bind, Option.bind_some]
          have shorter := longest.lt
          apply inductionHypothesis longest.lower
          · intro nonnegBorder
            obtain ⟨less, start⟩ := longest.ends nonnegBorder
            exact ⟨by omega, start.trans suffix⟩
          · intro k kBelow kSuffix next
            have atMost := greatest k kBelow kSuffix next
            have other : k ≠ j.toNat := by
              intro again
              rw [again, List.getElem?_eq_getElem within, Option.some.injEq] at next
              exact same next.symm
            exact longest.shorter (Nat.le_of_lt within) suffix (by omega) kSuffix
          · omega
      · refine ⟨j, if_neg nonneg, lower, ?_, greatest⟩
        intro negative
        exact absurd negative nonneg

/-- What the first loop has stored before a round. -/
structure Filled (needle : List Char) (i : Nat) (state : Int × List Int) : Prop where
  size : state.2.length = needle.length
  borders : Borders needle state.2 (i + 1)
  longest : Longest needle (needle.take i) i state.1

theorem fillEntry_spec {fuel i : Nat} {state : Int × List Int} (inside : i + 1 < needle.length)
    (enough : needle.length < fuel) (filled : Filled needle i state) :
    ∃ after, fillEntry fuel needle state i = some after ∧ Filled needle (i + 1) after := by
  obtain ⟨size, borders, longest⟩ := filled
  have within : i < needle.length := Nat.lt_of_succ_lt inside
  have upper := longest.lt
  obtain ⟨found, returned, continues⟩ := @fallBack_spec needle (needle.take i) state.2 needle[i] i
    (Nat.le_of_lt within) (fun q below => borders q (Nat.lt_succ_of_lt below)) fuel state.1
    longest.lower longest.ends (fun k below ends _ => longest.greatest k below ends) (by omega)
  have next := continues.longest (Nat.le_of_lt within)
  have grown : needle.take i ++ [needle[i]] = needle.take (i + 1) := by
    rw [List.take_add_one, List.getElem?_eq_getElem within]
    rfl
  rw [grown] at next
  refine ⟨(found + 1, state.2.set (i + 1) (found + 1)), ?_, ?_, ?_, next⟩
  · rw [fillEntry, List.getElem?_eq_getElem within, Option.bind_eq_bind, Option.bind_some,
      returned, Option.bind_eq_bind, Option.bind_some]
    exact if_pos (by omega)
  · rw [List.length_set, size]
  · intro q below
    by_cases last : q = i + 1
    · subst last
      exact ⟨found + 1, List.getElem?_set_self (by omega), next⟩
    · obtain ⟨border, entry, known⟩ := borders q (by omega)
      exact ⟨border, by rw [List.getElem?_set_ne (Ne.symm last), entry], known⟩

/-! ### The search -/

/-- The first occurrence, or `-1`. -/
def Finds (needle haystack : List Char) (answer : Int) : Prop :=
  (∃ i : Nat, answer = i ∧ OccursAt needle haystack i ∧ ∀ k < i, ¬OccursAt needle haystack k) ∨
    answer = -1 ∧ ∀ k, ¬OccursAt needle haystack k

theorem search_spec {fuel : Nat} (nonempty : needle ≠ [])
    (borders : Borders needle table needle.length) (enough : needle.length < fuel)
    {before rest : List Char} (counted : (before ++ rest).length < 2 ^ 31) {j : Int}
    (longest : Longest needle before needle.length j)
    (none : ∀ k, k + needle.length ≤ before.length → ¬OccursAt needle (before ++ rest) k) :
    ∃ answer, search fuel needle table needle.length rest before.length j = some answer ∧
      Finds needle (before ++ rest) answer := by
  induction rest generalizing before j with
  | nil =>
      refine ⟨-1, rfl, Or.inr ⟨rfl, ?_⟩⟩
      intro k occurs
      rw [List.append_nil] at none occurs
      exact none k ((occursAt_iff nonempty).mp occurs).1 occurs
  | cons c rest inductionHypothesis =>
      have upper := longest.lt
      obtain ⟨found, returned, continues⟩ := @fallBack_spec needle before table c needle.length
        (Nat.le_refl _) borders fuel j longest.lower longest.ends
        (fun k below ends _ => longest.greatest k below ends) (by omega)
      have next := continues.longest (Nat.le_refl _)
      have whole : before ++ c :: rest = (before ++ [c]) ++ rest := List.append_cons _ _ _
      have length : (before ++ [c]).length = before.length + 1 := by
        rw [List.length_append, List.length_singleton]
      have held : signed 32 (before.length + 1) = some ((before ++ [c]).length : Int) := by
        rw [length]
        apply signed_of_inSigned
        rw [whole, List.length_append, length] at counted
        unfold InSigned
        push_cast
        omega
      rw [search, returned, Option.bind_eq_bind, Option.bind_some, held, Option.bind_some]
      rw [whole] at counted none ⊢
      have start : ((before ++ [c]) ++ rest).take (before ++ [c]).length = before ++ [c] :=
        List.take_left
      by_cases all : found + 1 = needle.length
      · rw [if_pos all]
        have ends := next.isSuffix all
        have fits := ends.length_le
        refine ⟨_, rfl, Or.inl ⟨(before ++ [c]).length - needle.length, by omega, ?_, ?_⟩⟩
        · rw [occursAt_iff nonempty, Nat.sub_add_cancel fits, start]
          exact ⟨(List.prefix_append _ _).length_le, ends⟩
        · intro k below
          exact none k (by omega)
      · rw [if_neg all]
        apply inductionHypothesis counted (next.proper all)
        intro k upTo occurs
        by_cases last : k + needle.length = (before ++ [c]).length
        · have ends := ((occursAt_iff nonempty).mp occurs).2
          rw [last, start] at ends
          exact next.not_isSuffix all ends
        · exact none k (by omega) occurs

/-- The first occurrence is found where an `int` counts the characters of both strings. -/
theorem strStr_finds (haystack needle : List Char) (nonempty : needle ≠ [])
    (haystackCounted : haystack.length < 2 ^ 31) (needleCounted : needle.length < 2 ^ 31) :
    ∀ fuel > needle.length, ∃ answer,
      strStr fuel haystack needle = some answer ∧ Finds needle haystack answer := by
  intro fuel enough
  have positive := List.length_pos_iff.mpr nonempty
  have size : converted 32 needle.length = needle.length := by
    apply converted_of_inSigned (by decide)
    unfold InSigned
    omega
  have first : Filled needle 0 (-1, List.replicate needle.length (-1)) := by
    have border : Longest needle (needle.take 0) 0 (-1) :=
      ⟨le_refl _, fun negative => absurd negative (by decide),
        fun k below => absurd below (Nat.not_lt_zero k)⟩
    refine ⟨List.length_replicate, ?_, border⟩
    intro q below
    obtain rfl : q = 0 := by omega
    exact ⟨-1, by rw [List.getElem?_replicate, if_pos positive], border⟩
  obtain ⟨state, filled, -, borders, -⟩ := @forLoop_spec _ (fillEntry fuel needle) 0
    (needle.length - 1) (-1, List.replicate needle.length (-1)) (Filled needle) first (by
      intro count below before holds
      rw [Nat.zero_add]
      exact fillEntry_spec (by omega) enough holds)
  rw [Nat.sub_add_cancel positive] at borders
  have start : Longest needle [] needle.length 0 := by
    refine ⟨by decide, fun _ => ⟨positive, List.nil_suffix⟩, ?_⟩
    intro k below ends
    have short := ends.length_le
    rw [List.length_take, List.length_nil] at short
    omega
  obtain ⟨answer, returned, finds⟩ := @search_spec needle state.2 fuel nonempty borders enough []
    haystack haystackCounted 0 start (fun k upTo => by rw [List.length_nil] at upTo; omega)
  refine ⟨answer, ?_, finds⟩
  rw [strStr, size, if_neg (by omega), Int.toNat_natCast, show ((needle.length : Int) - 1).toNat =
    needle.length - 1 by omega, filled]
  exact returned

theorem strStr_finds_aab :
    ∃ answer, strStr 3 ['a', 'a', 'a', 'b'] ['a', 'b'] = some answer ∧
      Finds ['a', 'b'] ['a', 'a', 'a', 'b'] answer :=
  strStr_finds ['a', 'a', 'a', 'b'] ['a', 'b'] (by decide) (by decide) (by decide) 3 (by decide)

/-- The size of a longer needle is converted to zero, and the table has no entries. -/
theorem strStr_longNeedle {needle : List Char} (long : needle.length = 2 ^ 32) {first c : Char}
    (starts : needle[0]? = some first) (other : c ≠ first) (fuel : Nat) :
    strStr fuel [c] needle = none := by
  have size : converted 32 needle.length = 0 := by
    unfold converted
    omega
  have fails : fallBack needle [] c fuel 0 = none := by
    cases fuel with
    | zero => rfl
    | succ fuel =>
        rw [fallBack, if_pos (le_refl 0), Int.toNat_zero, starts]
        exact if_pos other
  rw [strStr, size]
  change search fuel needle [] 0 [c] 0 0 = none
  rw [search, fails]
  rfl

/-- `2 ^ 32` times the same character, searched in one other character. -/
theorem strStr_none :
    ∃ needle : List Char, needle ≠ [] ∧ ∀ fuel, strStr fuel ['b'] needle = none := by
  obtain ⟨size, sizeIs⟩ : ∃ size : Nat, size = 2 ^ 32 := ⟨_, rfl⟩
  have starts : (List.replicate size 'a')[0]? = some 'a' := by
    rw [List.getElem?_replicate, if_pos (by omega)]
  refine ⟨List.replicate size 'a', ?_, ?_⟩
  · intro empty
    rw [empty] at starts
    cases starts
  · intro fuel
    apply strStr_longNeedle _ starts (by decide)
    rw [List.length_replicate, sizeIs]

end StrStr

end StdPrograms.Hobbies

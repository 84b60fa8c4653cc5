import Mathlib.Data.List.Basic

/-!
Contract: the starts of a word on which a text ends.

Owns the longest such start below a bound, the starts that one more character leaves, the next
shorter start, and the places at which the word occurs.

Does not own any table.
-/

namespace StdPrograms.Foundation

variable {α : Type} {word text : List α} {bound : Nat} {c : α}

theorem take_succ_suffix_concat {k : Nat} (inside : k < word.length) :
    word.take (k + 1) <:+ text ++ [c] ↔ word[k]? = some c ∧ word.take k <:+ text := by
  rw [List.take_add_one, List.getElem?_eq_getElem inside, Option.toList_some,
    List.suffix_concat_iff, Option.some.injEq]
  constructor
  · rintro (empty | ⟨front, same, ends⟩)
    · exact absurd empty (List.append_ne_nil_of_right_ne_nil _ (List.cons_ne_nil _ _))
    · obtain ⟨rfl, last⟩ := List.append_inj' same rfl
      exact ⟨(List.cons.inj last).1, ends⟩
  · rintro ⟨rfl, ends⟩
    exact Or.inr ⟨word.take k, rfl, ends⟩

/-- The longest start of the word, shorter than the bound, on which the text ends; `-1` where
there is none. -/
structure Longest (word text : List α) (bound : Nat) (j : Int) : Prop where
  lower : -1 ≤ j
  ends : 0 ≤ j → j.toNat < bound ∧ word.take j.toNat <:+ text
  greatest : ∀ k < bound, word.take k <:+ text → (k : Int) ≤ j

theorem Longest.lt {j : Int} (longest : Longest word text bound j) : j < bound := by
  by_cases nonneg : 0 ≤ j
  · have below := (longest.ends nonneg).1
    omega
  · omega

/-- The longest of those behind which `c` follows in the word. -/
structure Continues (word text : List α) (bound : Nat) (c : α) (j : Int) : Prop where
  lower : -1 ≤ j
  ends : 0 ≤ j → j.toNat < bound ∧ word.take j.toNat <:+ text ∧ word[j.toNat]? = some c
  greatest : ∀ k < bound, word.take k <:+ text → word[k]? = some c → (k : Int) ≤ j

/-- One more character. -/
theorem Continues.longest {j : Int} (continues : Continues word text bound c j)
    (inside : bound ≤ word.length) : Longest word (text ++ [c]) (bound + 1) (j + 1) := by
  have lower := continues.lower
  refine ⟨by omega, ?_, ?_⟩
  · intro nonneg
    by_cases first : j = -1
    · subst first
      exact ⟨Nat.succ_pos bound, List.nil_suffix⟩
    · obtain ⟨below, ends, next⟩ := continues.ends (by omega)
      rw [show (j + 1).toNat = j.toNat + 1 by omega]
      exact ⟨Nat.succ_lt_succ below, (take_succ_suffix_concat (by omega)).mpr ⟨next, ends⟩⟩
  · intro k below ends
    cases k with
    | zero => omega
    | succ k =>
        obtain ⟨next, before⟩ := (take_succ_suffix_concat (by omega)).mp ends
        have least := continues.greatest k (by omega) before next
        omega

/-- The starts that are shorter than one on which the text ends. -/
theorem Longest.shorter {j : Nat} {border : Int} (longest : Longest word (word.take j) j border)
    (inside : j ≤ word.length) (ends : word.take j <:+ text) {k : Nat} (below : k < j)
    (other : word.take k <:+ text) : (k : Int) ≤ border := by
  apply longest.greatest k below
  apply List.suffix_of_suffix_length_le other ends
  rw [List.length_take, List.length_take]
  omega

section

variable {j : Int} (longest : Longest word text (word.length + 1) j)

include longest

theorem Longest.isSuffix (whole : j = word.length) : word <:+ text := by
  have ends := (longest.ends (by omega)).2
  rwa [whole, Int.toNat_natCast, List.take_length] at ends

/-- Where the whole word does not end, a proper start of it is longest. -/
theorem Longest.proper (part : j ≠ word.length) : Longest word text word.length j := by
  refine ⟨longest.lower, fun nonneg => ?_,
    fun k below => longest.greatest k (Nat.lt_succ_of_lt below)⟩
  obtain ⟨below, ends⟩ := longest.ends nonneg
  exact ⟨by omega, ends⟩

theorem Longest.not_isSuffix (part : j ≠ word.length) : ¬word <:+ text := by
  intro ends
  have below := longest.lt
  have least := longest.greatest word.length (Nat.lt_succ_self _) (by rwa [List.take_length])
  omega

end

/-! ### Occurrences -/

def OccursAt (word text : List α) (i : Nat) : Prop := word <+: text.drop i

theorem occursAt_iff (nonempty : word ≠ []) {i : Nat} :
    OccursAt word text i ↔
      i + word.length ≤ text.length ∧ word <:+ text.take (i + word.length) := by
  have positive := List.length_pos_iff.mpr nonempty
  constructor
  · intro occurs
    have inside := occurs.length_le
    rw [List.length_drop] at inside
    refine ⟨by omega, text.take i, ?_⟩
    rw [List.take_add, ← List.prefix_iff_eq_take.mp occurs]
  · rintro ⟨inside, front, same⟩
    have length := congrArg List.length same
    rw [List.length_append, List.length_take] at length
    have there := congrArg (List.drop i) same
    rw [List.drop_append_of_le_length (by omega), List.drop_of_length_le (by omega),
      List.nil_append, List.drop_take, Nat.add_sub_cancel_left] at there
    rw [OccursAt, there]
    exact List.take_prefix _ _

end StdPrograms.Foundation

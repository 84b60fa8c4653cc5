import Mathlib.Data.List.Basic
import Mathlib.Data.List.DropRight
import Mathlib.Data.List.Induction

/-!
Contract: words of a sequence, and joining them again.

A word is a non-empty run without separators. Owns cutting a sequence into its words,
appending words one by one behind a separator, trimming both ends, and the rule that
the words of joined words are these words.

Does not own any alphabet.
-/

namespace StdPrograms.Foundation

section Words

variable {α : Type} (separates : α → Bool)

/-- What stands between separators, as far as there is anything. -/
def words (items : List α) : List (List α) :=
  (items.splitOnP separates).filter fun word => !word.isEmpty

/-- The words one by one, with a separator in front of all but the first. -/
def joined (separator : α) (parts : List (List α)) : List α :=
  parts.foldl (fun result part => if result.isEmpty then part else result ++ separator :: part) []

/-- The items without those at both ends that are to be stripped. -/
def trim (stripped : α → Bool) (items : List α) : List α :=
  ((items.dropWhile stripped).reverse.dropWhile stripped).reverse

/-- Non-empty, and without a separator. -/
structure IsWord (word : List α) : Prop where
  nonempty : word ≠ []
  unseparated : ∀ item ∈ word, separates item = false

variable {separates} {separator : α} {parts : List (List α)}

theorem joined_from (result : List α) (started : result ≠ []) :
    parts.foldl (fun result part =>
        if result.isEmpty then part else result ++ separator :: part) result =
      result ++ parts.flatMap (separator :: ·) := by
  induction parts generalizing result with
  | nil => simp
  | cons part rest inductionHypothesis =>
      rw [List.foldl_cons, if_neg (by simpa using started), inductionHypothesis _ (by simp)]
      simp

theorem joined_cons {part : List α} (nonempty : part ≠ []) :
    joined separator (part :: parts) = part ++ parts.flatMap (separator :: ·) := by
  rw [joined, List.foldl_cons, if_pos (by simp)]
  exact joined_from part nonempty

theorem words_behind (first : List α) (unseparated : ∀ item ∈ first, separates item = false)
    (isSeparator : separates separator = true)
    (areWords : ∀ part ∈ parts, IsWord separates part) :
    (first ++ parts.flatMap (separator :: ·)).splitOnP separates = first :: parts := by
  induction parts generalizing first with
  | nil => simpa using List.splitOnP_eq_singleton unseparated
  | cons part rest inductionHypothesis =>
      rw [List.flatMap_cons, List.cons_append,
        List.splitOnP_append_cons_of_forall_mem unseparated separator isSeparator,
        inductionHypothesis part (areWords part (by simp)).unseparated
          fun other member => areWords other (by simp [member])]

/-- The words of joined words. -/
theorem words_joined (isSeparator : separates separator = true)
    (areWords : ∀ part ∈ parts, IsWord separates part) :
    words separates (joined separator parts) = parts := by
  cases parts with
  | nil => simp [words, joined]
  | cons part rest =>
      have isWord := areWords part (by simp)
      rw [joined_cons isWord.nonempty, words, words_behind part isWord.unseparated isSeparator
        fun other member => areWords other (by simp [member])]
      refine List.filter_eq_self.mpr fun other member => ?_
      simpa using (areWords other member).nonempty

/-! ### What joined words consist of -/

theorem mem_joined {item : α} (nonempty : ∀ part ∈ parts, part ≠ [])
    (member : item ∈ joined separator parts) :
    item = separator ∨ ∃ part ∈ parts, item ∈ part := by
  cases parts with
  | nil => cases member
  | cons part rest =>
      rw [joined_cons (nonempty part (by simp)), List.mem_append, List.mem_flatMap] at member
      rcases member with inFirst | ⟨other, otherMember, inOther⟩
      · exact .inr ⟨part, by simp, inFirst⟩
      · rcases List.mem_cons.mp inOther with isSeparator | inOther
        · exact .inl isSeparator
        · exact .inr ⟨other, by simp [otherMember], inOther⟩

theorem head?_joined {item : α} (nonempty : ∀ part ∈ parts, part ≠ [])
    (isHead : (joined separator parts).head? = some item) : ∃ part ∈ parts, item ∈ part := by
  cases parts with
  | nil => cases isHead
  | cons part rest =>
      have partNonempty := nonempty part (by simp)
      rw [joined_cons partNonempty, List.head?_append_of_ne_nil _ partNonempty] at isHead
      exact ⟨part, by simp, List.mem_of_head? isHead⟩

theorem getLast?_joined {item : α} (nonempty : ∀ part ∈ parts, part ≠ [])
    (isLast : (joined separator parts).getLast? = some item) : ∃ part ∈ parts, item ∈ part := by
  induction parts using List.reverseRecOn with
  | nil => cases isLast
  | append_singleton rest part _ =>
      have partNonempty := nonempty part (by simp)
      refine ⟨part, by simp, List.mem_of_getLast? ?_⟩
      rw [joined, List.foldl_append, List.foldl_cons, List.foldl_nil] at isLast
      split at isLast
      · exact isLast
      · rwa [List.getLast?_append_of_ne_nil _ (by simp), List.getLast?_cons_of_ne_nil partNonempty] at isLast

theorem dropWhile_eq_self {stripped : α → Bool} {items : List α}
    (head : ∀ item, items.head? = some item → stripped item = false) :
    items.dropWhile stripped = items := by
  cases items with
  | nil => rfl
  | cons first rest => exact List.dropWhile_cons_of_neg (by simp [head first rfl])

/-- Nothing is stripped where neither end is to be. -/
theorem trim_eq_self {stripped : α → Bool} {items : List α}
    (head : ∀ item, items.head? = some item → stripped item = false)
    (last : ∀ item, items.getLast? = some item → stripped item = false) :
    trim stripped items = items := by
  rw [trim, dropWhile_eq_self head, dropWhile_eq_self, List.reverse_reverse]
  intro item isHead
  exact last item (by rwa [List.head?_reverse] at isHead)

/-! ### Cutting at separators -/

theorem words_append_separator {front : List α}
    (unseparated : ∀ item ∈ front, separates item = false)
    (isSeparator : separates separator = true) (rest : List α) :
    words separates (front ++ separator :: rest) =
      (if front.isEmpty then [] else [front]) ++ words separates rest := by
  rw [words, List.splitOnP_append_cons_of_forall_mem unseparated separator isSeparator, words]
  cases front with
  | nil => rfl
  | cons => rfl

theorem words_append_separators {front : List α} (separators : ∀ item ∈ front, separates item = true)
    (rest : List α) : words separates (front ++ rest) = words separates rest := by
  induction front with
  | nil => rfl
  | cons item front inductionHypothesis =>
      have first := @words_append_separator _ separates item [] (by simp)
        (separators item (by simp)) (front ++ rest)
      exact first.trans (inductionHypothesis fun other member => separators other (by simp [member]))

theorem words_of_unseparated {items : List α}
    (unseparated : ∀ item ∈ items, separates item = false) :
    words separates items = if items.isEmpty then [] else [items] := by
  rw [words, List.splitOnP_eq_singleton unseparated]
  cases items with
  | nil => rfl
  | cons => rfl

/-- No word is empty. -/
theorem nil_not_mem_words (items : List α) : [] ∉ words separates items := by
  simp [words]

variable (separates) in
/-- What stands behind the last separator. -/
def unfinished (items : List α) : List α := items.rtakeWhile fun item => !separates item

theorem unfinished_append_separator (front rest : List α) (isSeparator : separates separator = true) :
    unfinished separates (front ++ separator :: rest) = unfinished separates rest := by
  induction rest using List.reverseRecOn with
  | nil =>
      rw [unfinished, List.rtakeWhile_concat_neg _ _ _ (by simp [isSeparator])]
      rfl
  | append_singleton rest last inductionHypothesis =>
      have layout : front ++ separator :: (rest ++ [last]) =
          (front ++ separator :: rest) ++ [last] := by
        simp
      rw [unfinished] at inductionHypothesis
      rw [layout, unfinished, List.rtakeWhile_concat, inductionHypothesis, unfinished, unfinished,
        List.rtakeWhile_concat]

theorem unfinished_append_separators {front : List α}
    (separators : ∀ item ∈ front, separates item = true) (rest : List α) :
    unfinished separates (front ++ rest) = unfinished separates rest := by
  induction front with
  | nil => rfl
  | cons item front inductionHypothesis =>
      rw [← inductionHypothesis fun other member => separators other (by simp [member])]
      exact unfinished_append_separator [] (front ++ rest) (separators item (by simp))

theorem unfinished_of_unseparated {items : List α}
    (unseparated : ∀ item ∈ items, separates item = false) :
    unfinished separates items = items :=
  List.rtakeWhile_eq_self_iff.mpr fun item member => by simp [unseparated item member]

theorem unfinished_eq_nil_iff {items : List α} :
    unfinished separates items = [] ↔
      ∀ item, items.getLast? = some item → separates item = true := by
  induction items using List.reverseRecOn with
  | nil => simp [unfinished]
  | append_singleton rest last _ =>
      rw [unfinished, List.rtakeWhile_concat]
      cases decided : separates last with
      | true => simp [decided]
      | false => simp [decided]

end Words

end StdPrograms.Foundation

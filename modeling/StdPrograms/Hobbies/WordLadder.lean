import StdPrograms.Foundation.BreadthFirst
import StdPrograms.Foundation.SignedInt

/-!
Contract: the shortest ladder from one word to another.

Owns `ladderLength` of `solution_127.cpp`, and that it returns the length of a shortest ladder
where the length of a word, the number of the words and every length of a ladder fit an `int`.

Does not own the hashing of words.
-/

namespace StdPrograms.Hobbies

open StdPrograms.Foundation

namespace WordLadder

abbrev Word := List Char

/-- The queue and the words that have not been in it. -/
structure Search where
  qs : List Word
  wordList : Finset Word

/-- Why the loops end before their last round. -/
inductive Stop where
  | found
  | undefined

/-- What `c` comes to, from `'a'` on. -/
def letters : List Char := (List.range' 97 26).map Char.ofNat

/-- The innermost loop's body. -/
def tryLetter (endWord s : Word) (j : Nat) (state : Search) (c : Char) : Except Stop Search :=
  match s[j]? with
  | none => .error .undefined
  | some old =>
      if old = c then .ok state
      else
        let s := s.set j c
        if s = endWord then .error .found
        else if s ∈ state.wordList then .ok ⟨state.qs ++ [s], state.wordList.erase s⟩
        else .ok state

def tryPosition (endWord s : Word) (state : Search) (j : Nat) : Except Stop Search :=
  letters.foldlM (tryLetter endWord s j) state

/-- The loop over `j`. -/
def expand (endWord s : Word) (n : Nat) (state : Search) : Except Stop Search :=
  (List.range n).foldlM (tryPosition endWord s) state

/-- The loop over `i`. -/
def level (endWord : Word) (n : Nat) : Nat → Search → Except Stop Search
  | 0, state => .ok state
  | count + 1, state =>
      match state.qs with
      | [] => .error .undefined
      | s :: qs => do
          let state ← expand endWord s n ⟨qs, state.wordList⟩
          level endWord n count state

/-- What follows a level: the function returns, or there is another round. -/
def proceed (next : Nat → Search → Option Nat) (steps : Nat) : Except Stop Search → Option Nat
  | .error .found => position 32 (steps + 1)
  | .error .undefined => none
  | .ok state => do
      let steps ← position 32 (steps + 1)
      next steps state

/-- The outer loop. -/
def search (endWord : Word) (n : Nat) : Nat → Nat → Search → Option Nat
  | 0, _, _ => none
  | fuel + 1, steps, state =>
      if state.qs = [] then some 0
      else
        proceed (search endWord n fuel) steps
          (level endWord n (converted 32 (state.qs.length : Int)).toNat state)

def ladderLength (fuel : Nat) (beginWord endWord : Word) (wordList : Finset Word) : Option Nat :=
  if wordList.card = 0 then some 0
  else
    search endWord (converted 32 (beginWord.length : Int)).toNat fuel 1
      ⟨[beginWord], wordList.erase beginWord⟩

/-! ### Ladders -/

/-- Two words that differ in exactly one letter. -/
def Differ (left right : Word) : Prop :=
  ∃ front a b back, left = front ++ a :: back ∧ right = front ++ b :: back ∧ a ≠ b

/-- Neighbours in the sequence differ in one letter, and those between the two ends are words. -/
def Ladder (beginWord endWord : Word) (wordList : Finset Word) (between : List Word) : Prop :=
  (beginWord :: (between ++ [endWord])).IsChain Differ ∧ ∀ word ∈ between, word ∈ wordList

/-- The number of words of a shortest ladder, or 0 where there is none. -/
def Shortest (beginWord endWord : Word) (wordList : Finset Word) (length : Nat) : Prop :=
  (∃ between, Ladder beginWord endWord wordList between ∧ length = between.length + 2 ∧
      ∀ other, Ladder beginWord endWord wordList other → between.length ≤ other.length) ∨
    length = 0 ∧ ∀ between, ¬Ladder beginWord endWord wordList between

def Lowercase (word : Word) : Prop := ∀ c ∈ word, 'a' ≤ c ∧ c ≤ 'z'

/-! ### One word -/

/-- What the innermost body comes to. -/
def change (s : Word) (j : Nat) (c : Char) : List Word :=
  if s[j]? = some c then [] else [s.set j c]

def changesAt (s : Word) (j : Nat) : List Word := letters.flatMap (change s j)

/-- What the two inner loops come to, in this order. -/
def neighbours (s : Word) : List Word := (List.range s.length).flatMap (changesAt s)

theorem mem_letters {c : Char} : c ∈ letters ↔ 'a' ≤ c ∧ c ≤ 'z' := by
  have codes : ∀ code ∈ List.range' 97 26, 'a' ≤ Char.ofNat code ∧ Char.ofNat code ≤ 'z' := by
    decide
  rw [letters, List.mem_map]
  constructor
  · rintro ⟨code, inRange, rfl⟩
    exact codes code inRange
  · rintro ⟨atLeast, atMost⟩
    refine ⟨c.toNat, ?_, Char.ofNat_toNat c⟩
    rw [List.mem_range'_1]
    have low : 'a'.toNat ≤ c.toNat := atLeast
    have high : c.toNat ≤ 'z'.toNat := atMost
    exact ⟨low, Nat.lt_succ_of_le high⟩

theorem mem_neighbours {s word : Word} :
    word ∈ neighbours s ↔
      ∃ j < s.length, ∃ c ∈ letters, s[j]? ≠ some c ∧ word = s.set j c := by
  simp only [neighbours, changesAt, List.mem_flatMap, List.mem_range, change]
  refine exists_congr fun j => and_congr_right fun _ => exists_congr fun c =>
    and_congr_right fun _ => ?_
  split
  next same => exact iff_of_false List.not_mem_nil fun both => both.1 same
  next other => rw [List.mem_singleton, and_iff_right other]

/-- Words of lowercase letters come up exactly if they differ in one of them. -/
theorem mem_neighbours_iff {s word : Word} (lowercase : Lowercase word) :
    word ∈ neighbours s ↔ Differ s word := by
  rw [mem_neighbours]
  constructor
  · rintro ⟨j, inside, c, -, other, rfl⟩
    refine ⟨s.take j, s[j], c, s.drop (j + 1), ?_, ?_, ?_⟩
    · rw [← List.drop_eq_getElem_cons inside, List.take_append_drop]
    · exact List.set_eq_take_append_cons_drop.trans (if_pos inside)
    · rintro same
      exact other (same ▸ List.getElem?_eq_getElem inside)
  · rintro ⟨front, a, b, back, rfl, rfl, different⟩
    refine ⟨front.length, by simp, b, mem_letters.mpr (lowercase b (by simp)), ?_, by simp⟩
    simpa using different

/-! ### One level -/

/-- All candidates in turn, unless the last word of the ladder is one of them. -/
def handle (endWord : Word) (state : Search) (candidates : List Word) : Except Stop Search :=
  if endWord ∈ candidates then .error .found
  else .ok ⟨state.qs ++ fresh candidates state.wordList, state.wordList \ candidates.toFinset⟩

theorem handle_nil (endWord : Word) (state : Search) : handle endWord state [] = .ok state := by
  rw [handle, if_neg List.not_mem_nil, fresh, List.append_nil, List.toFinset_nil,
    Finset.sdiff_empty]

theorem handle_append (endWord : Word) (state : Search) (front back : List Word) :
    handle endWord state (front ++ back) =
      (handle endWord state front).bind fun between => handle endWord between back := by
  by_cases inFront : endWord ∈ front
  · rw [handle, handle, if_pos inFront, if_pos (List.mem_append_left back inFront)]
    rfl
  by_cases inBack : endWord ∈ back
  · rw [handle, handle, if_neg inFront, if_pos (List.mem_append_right front inBack)]
    change _ = handle endWord _ back
    rw [handle, if_pos inBack]
  · rw [handle, handle, if_neg inFront, if_neg (by simp [inFront, inBack])]
    change _ = handle endWord _ back
    rw [handle, if_neg inBack, fresh_append, List.append_assoc, List.toFinset_append,
      ← Finset.sup_eq_union, ← sdiff_sdiff_left]

/-- A loop whose body handles candidates handles all of them. -/
theorem foldlM_handle {β : Type} {endWord : Word} {step : Search → β → Except Stop Search}
    {candidates : β → List Word} {items : List β}
    (each : ∀ item ∈ items, ∀ state, step state item = handle endWord state (candidates item))
    (state : Search) :
    items.foldlM step state = handle endWord state (items.flatMap candidates) := by
  induction items generalizing state with
  | nil => exact (handle_nil endWord state).symm
  | cons item items inductionHypothesis =>
      rw [List.foldlM_cons, List.flatMap_cons, handle_append, each item List.mem_cons_self]
      congr 1
      funext between
      exact inductionHypothesis (fun later member => each later (List.mem_cons_of_mem item member))
        between

theorem tryLetter_eq {endWord s : Word} {j : Nat} (inside : j < s.length) (state : Search)
    (c : Char) : tryLetter endWord s j state c = handle endWord state (change s j c) := by
  rw [tryLetter, List.getElem?_eq_getElem inside, change, List.getElem?_eq_getElem inside]
  dsimp only
  by_cases same : s[j] = c
  · rw [if_pos same, if_pos (congrArg some same), handle_nil]
  rw [if_neg same, if_neg (fun again => same (Option.some.inj again)), handle]
  by_cases last : s.set j c = endWord
  · rw [if_pos last, if_pos (by rw [last]; exact List.mem_singleton_self endWord)]
  · rw [if_neg last, if_neg (fun member => last (List.mem_singleton.mp member).symm), fresh,
      List.toFinset_cons, List.toFinset_nil, insert_empty_eq, Finset.sdiff_singleton_eq_erase]
    split
    next => rfl
    next missing => rw [fresh, List.append_nil, Finset.erase_eq_of_notMem missing]

theorem expand_eq (endWord s : Word) (state : Search) :
    expand endWord s s.length state = handle endWord state (neighbours s) := by
  refine foldlM_handle (fun j inRange between => ?_) state
  exact foldlM_handle (fun c _ between => tryLetter_eq (List.mem_range.mp inRange) between c)
    between

/-- The words that are in the queue when a level begins are handled in turn. -/
theorem level_eq {endWord : Word} {n : Nat} {queue : List Word}
    (lengths : ∀ word ∈ queue, word.length = n) (new : List Word) (wordList : Finset Word) :
    level endWord n queue.length ⟨queue ++ new, wordList⟩ =
      handle endWord ⟨new, wordList⟩ (queue.flatMap neighbours) := by
  induction queue generalizing new wordList with
  | nil => exact (handle_nil endWord _).symm
  | cons s queue inductionHypothesis =>
      have length := lengths s List.mem_cons_self
      rw [List.length_cons, level, List.flatMap_cons, handle_append]
      dsimp only [List.cons_append]
      rw [← length, expand_eq, handle, handle]
      split
      next => rfl
      next =>
        dsimp only
        rw [List.append_assoc]
        exact length ▸ inductionHypothesis
          (fun word member => lengths word (List.mem_cons_of_mem s member)) _ _

/-! ### All levels -/

section

variable {beginWord endWord : Word} {wordList : Finset Word}

/-- A word at a distance from the first one is a neighbour of the last one. -/
def Contact (beginWord endWord : Word) (wordList : Finset Word) (count : Nat) : Prop :=
  ∃ word, Walk Differ (wordList : Set Word) beginWord count word ∧ Differ word endWord

theorem contact_iff {count : Nat} :
    Contact beginWord endWord wordList count ↔
      ∃ between : List Word, between.length = count ∧
        Ladder beginWord endWord wordList between := by
  unfold Contact Ladder
  constructor
  · rintro ⟨word, walk, near⟩
    obtain ⟨between, length, chain, allWords, last⟩ := walk_iff_chain.mp walk
    refine ⟨between, length, ?_, allWords⟩
    rw [← List.cons_append, List.isChain_append]
    refine ⟨chain, .singleton endWord, fun x xLast y yFirst => ?_⟩
    rw [last, Option.mem_some_iff] at xLast
    obtain rfl := Option.mem_some_iff.mp yFirst
    exact xLast ▸ near
  · rintro ⟨between, length, chain, allWords⟩
    rw [← List.cons_append, List.isChain_append] at chain
    obtain ⟨word, wordIs⟩ : ∃ word, (beginWord :: between).getLast? = some word :=
      ⟨_, List.getLast?_eq_some_getLast (List.cons_ne_nil beginWord between)⟩
    exact ⟨word, walk_iff_chain.mpr ⟨between, length, chain.1, allWords, wordIs⟩,
      chain.2.2 word wordIs endWord rfl⟩

theorem shortest_of_contact {count : Nat} (contact : Contact beginWord endWord wordList count)
    (least : ∀ shorter < count, ¬Contact beginWord endWord wordList shorter) :
    Shortest beginWord endWord wordList (count + 2) := by
  obtain ⟨between, length, ladder⟩ := contact_iff.mp contact
  refine .inl ⟨between, ladder, by rw [length], fun other otherLadder => ?_⟩
  apply Nat.le_of_not_lt
  intro less
  exact least other.length (length ▸ less) (contact_iff.mpr ⟨other, rfl, otherLadder⟩)

theorem shortest_of_no_contact
    (never : ∀ count, ¬Contact beginWord endWord wordList count) :
    Shortest beginWord endWord wordList 0 :=
  .inr ⟨rfl, fun between ladder => never between.length (contact_iff.mpr ⟨between, rfl, ladder⟩)⟩

theorem Contact.nearest {count : Nat} (contact : Contact beginWord endWord wordList count) :
    ∃ nearest ≤ count, ∃ word,
      AtDistance Differ (wordList : Set Word) beginWord nearest word ∧ Differ word endWord := by
  obtain ⟨word, walk, near⟩ := contact
  obtain ⟨nearest, atMost, atNearest⟩ := exists_atDistance walk
  exact ⟨nearest, atMost, word, atNearest, near⟩

section

variable {distance : Nat} {queue : List Word} {left : Finset Word}
  (current : Level Differ wordList beginWord distance queue left)
  (least : ∀ shorter < distance, ¬Contact beginWord endWord wordList shorter)

include current least

/-- Behind an empty level there are no words. -/
theorem no_contact_of_empty (empty : queue = []) (count : Nat) :
    ¬Contact beginWord endWord wordList count := by
  intro contact
  obtain ⟨nearest, -, word, atNearest, near⟩ := contact.nearest
  by_cases behind : distance ≤ nearest
  · have nothing : ∀ word,
        ¬AtDistance Differ (wordList : Set Word) beginWord distance word := by
      intro word atDistance
      have member := current.mem_queue.mpr atDistance
      rw [empty] at member
      exact List.not_mem_nil member
    exact not_atDistance_of_empty nothing behind word atNearest
  · exact least nearest (Nat.lt_of_not_le behind) ⟨word, atNearest.1, near⟩

theorem no_contact_of_untouched (untouched : ¬∃ word ∈ queue, Differ word endWord) :
    ∀ shorter < distance + 1, ¬Contact beginWord endWord wordList shorter := by
  intro shorter less contact
  obtain ⟨nearest, atMost, word, atNearest, near⟩ := contact.nearest
  by_cases before : nearest < distance
  · exact least nearest before ⟨word, atNearest.1, near⟩
  · obtain rfl : nearest = distance := by omega
    exact untouched ⟨word, current.mem_queue.mpr atNearest, near⟩

end

/-- While there is something in the queue, as many words have been taken out as there are levels. -/
theorem search_spec {n fuel distance : Nat} {queue : List Word} {left : Finset Word}
    (lowercaseEnd : Lowercase endWord) (lowercase : ∀ word ∈ wordList, Lowercase word)
    (beginLength : beginWord.length = n) (lengths : ∀ word ∈ wordList, word.length = n)
    (counted : wordList.card + 2 < 2 ^ 31)
    (current : Level Differ wordList beginWord distance queue left)
    (least : ∀ shorter < distance, ¬Contact beginWord endWord wordList shorter)
    (room : queue.length + left.card ≤ wordList.card + 1)
    (taken : queue ≠ [] → distance + left.card ≤ wordList.card)
    (positive : 0 < fuel) (enough : queue ≠ [] → left.card + 1 < fuel) :
    ∃ result, search endWord n fuel (distance + 1) ⟨queue, left⟩ = some result ∧
      Shortest beginWord endWord wordList result := by
  induction fuel generalizing distance queue left with
  | zero => omega
  | succ fuel inductionHypothesis =>
      by_cases empty : queue = []
      · refine ⟨0, ?_, shortest_of_no_contact (no_contact_of_empty current least empty)⟩
        rw [search, if_pos empty]
      have size : (converted 32 (queue.length : Int)).toNat = queue.length := by
        have small : queue.length < 2 ^ 31 := by omega
        exact toNat_converted (Nat.zero_lt_succ 31) small
      have sameLength : ∀ word ∈ queue, word.length = n := by
        intro word member
        rcases walk_member (current.mem_queue.mp member).1 with rfl | inWords
        · exact beginLength
        · exact lengths word inWords
      have touches : endWord ∈ queue.flatMap neighbours ↔ ∃ word ∈ queue, Differ word endWord := by
        rw [List.mem_flatMap]
        exact exists_congr fun word => and_congr_right fun _ => mem_neighbours_iff lowercaseEnd
      have handled := @level_eq endWord n queue sameLength [] left
      rw [List.append_nil] at handled
      rw [search, if_neg empty, size, handled, handle]
      have within := taken empty
      by_cases touched : endWord ∈ queue.flatMap neighbours
      · obtain ⟨word, member, near⟩ := touches.mp touched
        rw [if_pos touched, proceed, position_of_lt (by omega)]
        exact ⟨distance + 2, rfl,
          shortest_of_contact ⟨word, (current.mem_queue.mp member).1, near⟩ least⟩
      have complete : ∀ place ∈ left,
          (place ∈ queue.flatMap neighbours ↔ ∃ before ∈ queue, Differ before place) := by
        intro place member
        rw [List.mem_flatMap]
        exact exists_congr fun before => and_congr_right fun _ =>
          mem_neighbours_iff (lowercase place (current.mem_left.mp member).1)
      have more := enough empty
      have sizes := card_fresh (queue.flatMap neighbours) left
      have shrinks : fresh (queue.flatMap neighbours) left ≠ [] →
          (left \ (queue.flatMap neighbours).toFinset).card + 1 ≤ left.card := by
        intro found
        have positive := List.length_pos_iff.mpr found
        omega
      rw [if_neg touched, proceed, position_of_lt (by omega), List.nil_append]
      refine @inductionHypothesis (distance + 1) (fresh (queue.flatMap neighbours) left)
        (left \ (queue.flatMap neighbours).toFinset) (current.next complete)
        (no_contact_of_untouched current least (mt touches.mpr touched)) (by omega) ?_
        (by omega) ?_
      · intro found
        have shrunk := shrinks found
        omega
      · intro found
        have shrunk := shrinks found
        omega

end

/-- With a limit on the number of the words, which also bounds the queue and the ladders. -/
theorem ladderLength_shortest {beginWord endWord : Word} {wordList : Finset Word} {fuel : Nat}
    (nonempty : wordList.Nonempty) (lowercaseEnd : Lowercase endWord)
    (lowercase : ∀ word ∈ wordList, Lowercase word)
    (lengths : ∀ word ∈ wordList, word.length = beginWord.length)
    (lengthCounted : beginWord.length < 2 ^ 31) (counted : wordList.card + 2 < 2 ^ 31)
    (enough : wordList.card + 1 < fuel) :
    ∃ result, ladderLength fuel beginWord endWord wordList = some result ∧
      Shortest beginWord endWord wordList result := by
  have size : (converted 32 (beginWord.length : Int)).toNat = beginWord.length :=
    toNat_converted (Nat.zero_lt_succ 31) lengthCounted
  have left : (wordList.erase beginWord).card ≤ wordList.card := Finset.card_erase_le
  rw [ladderLength, if_neg (Finset.card_ne_zero.mpr nonempty), size]
  refine search_spec lowercaseEnd lowercase rfl lengths counted
    (level_start Differ wordList beginWord) ?_ ?_ ?_ ?_ ?_
  · exact fun shorter less => absurd less (Nat.not_lt_zero shorter)
  · rw [List.length_singleton]
    omega
  · omega
  · omega
  · omega

theorem ladderLength_shortest_hot :
    (({['h', 'o', 't']} : Finset Word).Nonempty ∧ Lowercase ['c', 'o', 't']) ∧
      ∃ result, ladderLength 3 ['h', 'i', 't'] ['c', 'o', 't'] {['h', 'o', 't']} = some result ∧
        Shortest ['h', 'i', 't'] ['c', 'o', 't'] {['h', 'o', 't']} result := by
  have lowercase : Lowercase ['c', 'o', 't'] ∧ Lowercase ['h', 'o', 't'] := by
    simp [Lowercase]
  refine ⟨⟨Finset.singleton_nonempty _, lowercase.1⟩,
    ladderLength_shortest (Finset.singleton_nonempty _) lowercase.1 ?_ ?_ (by decide) (by decide)
      (by decide)⟩
  · exact fun word member => Finset.mem_singleton.mp member ▸ lowercase.2
  · exact fun word member => Finset.mem_singleton.mp member ▸ rfl

/-! ### Sizes that are no `int` -/

/-- No position is tried when the length of a word is negative as an `int`. -/
theorem ladderLength_of_longWord {beginWord : Word} (endWord : Word) {wordList : Finset Word}
    (fuel : Nat) (nonempty : wordList.Nonempty) (long : beginWord.length = 2 ^ 31) :
    ladderLength (fuel + 2) beginWord endWord wordList = some 0 := by
  have size : (converted 32 ((2 ^ 31 : Nat) : Int)).toNat = 0 := by decide
  have one : (converted 32 (([beginWord] : List Word).length : Int)).toNat = 1 := by
    rw [List.length_singleton]
    decide
  rw [ladderLength, if_neg (Finset.card_ne_zero.mpr nonempty), long, size, search,
    if_neg (List.cons_ne_nil beginWord []), one]
  rfl

/-- No word is taken from the queue when its size is negative as an `int`. -/
theorem search_of_longQueue (endWord : Word) (n fuel steps : Nat) {state : Search}
    (nonempty : state.qs ≠ []) (negative : converted 32 (state.qs.length : Int) ≤ 0) :
    search endWord n fuel steps state = none := by
  induction fuel generalizing steps with
  | zero => rfl
  | succ fuel inductionHypothesis =>
      rw [search, if_neg nonempty, Int.toNat_of_nonpos negative, level, proceed]
      by_cases small : steps + 1 < 2 ^ 31
      · rw [position_of_lt small]
        exact inductionHypothesis (steps + 1)
      · rw [position_eq_none (Nat.le_of_not_lt small)]
        rfl

theorem length_changesAt {s : Word} {j : Nat} (first : s[j]? = some 'a') :
    (changesAt s j).length = 25 := by
  have lengths : ∀ c, (change s j c).length = if 'a' = c then 0 else 1 := by
    intro c
    rw [change, first]
    by_cases same : 'a' = c
    · rw [if_pos same, if_pos (congrArg some same)]
      rfl
    · rw [if_neg same, if_neg (fun again => same (Option.some.inj again))]
      rfl
  rw [changesAt, List.length_flatMap, funext lengths]
  decide

theorem nodup_neighbours (s : Word) : (neighbours s).Nodup := by
  have changed : ∀ {j c word}, j < s.length → word ∈ change s j c →
      s[j]? ≠ some c ∧ word = s.set j c := by
    intro j c word _ member
    unfold change at member
    split at member
    next => exact absurd member List.not_mem_nil
    next other => exact ⟨other, List.mem_singleton.mp member⟩
  refine List.nodup_flatMap.mpr ⟨fun j inRange => List.nodup_flatMap.mpr ⟨?_, ?_⟩, ?_⟩
  · intro c _
    unfold change
    split
    next => exact List.nodup_nil
    next => exact List.nodup_singleton _
  · have distinct : letters.Nodup := by decide
    refine distinct.imp fun {c d} different word left right => different ?_
    have inside := List.mem_range.mp inRange
    have same := congrArg (·[j]?) ((changed inside left).2.symm.trans (changed inside right).2)
    simpa [inside] using same
  · refine List.nodup_range.pairwise_of_forall_ne fun j inJ k inK different word left right => ?_
    obtain ⟨c, -, leftChange⟩ := List.mem_flatMap.mp left
    obtain ⟨d, -, rightChange⟩ := List.mem_flatMap.mp right
    have inside := List.mem_range.mp inJ
    obtain ⟨other, leftIs⟩ := changed inside leftChange
    have same := congrArg (·[j]?)
      (leftIs.symm.trans (changed (List.mem_range.mp inK) rightChange).2)
    rw [List.getElem?_set_self inside, List.getElem?_set_ne (Ne.symm different)] at same
    exact other same.symm

theorem length_neighbours {s : Word} (uniform : ∀ c ∈ s, c = 'a') :
    (neighbours s).length = 25 * s.length := by
  have lengths : ∀ j ∈ List.range s.length, (changesAt s j).length = 25 := by
    intro j inRange
    have inside := List.mem_range.mp inRange
    apply length_changesAt
    rw [List.getElem?_eq_getElem inside, uniform _ (List.getElem_mem inside)]
  rw [neighbours, List.length_flatMap, List.map_congr_left lengths, List.map_const',
    List.length_range, List.sum_replicate_nat, Nat.mul_comm]

/-- All neighbours are queued, too many for their number to be positive as an `int`. -/
theorem ladderLength_of_manyWords {s endWord : Word} (fuel : Nat) (uniform : ∀ c ∈ s, c = 'a')
    (many : 2 ^ 31 ≤ 25 * s.length ∧ 25 * s.length ≤ 2 ^ 32) (apart : endWord ∉ neighbours s) :
    ladderLength fuel s endWord (neighbours s).toFinset = none := by
  have notOwn : s ∉ (neighbours s).toFinset := by
    intro member
    obtain ⟨j, inside, c, -, other, same⟩ := mem_neighbours.mp (List.mem_toFinset.mp member)
    apply other
    rw [same, List.getElem?_set_self inside]
  have card : (neighbours s).toFinset.card = 25 * s.length := by
    rw [List.toFinset_card_of_nodup (nodup_neighbours s), length_neighbours uniform]
  have queued := card_fresh (neighbours s) (neighbours s).toFinset
  rw [Finset.sdiff_self, Finset.card_empty, Nat.add_zero, card] at queued
  have size : (converted 32 (s.length : Int)).toNat = s.length := by
    have small : s.length < 2 ^ 31 := by omega
    exact toNat_converted (Nat.zero_lt_succ 31) small
  have one : (converted 32 (([s] : List Word).length : Int)).toNat = ([s] : List Word).length := by
    rw [List.length_singleton]
    decide
  have first := @level_eq endWord s.length [s] (fun word member => by
    rw [List.mem_singleton.mp member]) [] (neighbours s).toFinset
  rw [List.append_nil, List.flatMap_singleton, handle, if_neg apart, List.nil_append] at first
  rw [ladderLength, if_neg (by omega), Finset.erase_eq_of_notMem notOwn, size]
  cases fuel with
  | zero => rfl
  | succ fuel =>
      rw [search, if_neg (List.cons_ne_nil s []), one, first, proceed,
        position_of_lt (by decide)]
      apply search_of_longQueue
      · rw [← List.length_pos_iff, queued]
        omega
      · dsimp only
        rw [queued]
        change ((25 * s.length : Nat) + 2147483648 : Int) % 4294967296 - 2147483648 ≤ 0
        rw [← Int.sub_emod_right, Int.emod_eq_of_lt (by omega) (by omega)]
        omega

theorem differ_first (a b : Char) (different : a ≠ b) (back : Word) :
    Differ (a :: back) (b :: back) :=
  ⟨[], a, b, back, rfl, rfl, different⟩

/-- A word that is too long, and a queue of too many words. -/
theorem ladderLength_fails_on_long :
    (Ladder ('b' :: List.replicate (2 ^ 31 - 1) 'a') ('a' :: List.replicate (2 ^ 31 - 1) 'a')
        {'b' :: List.replicate (2 ^ 31 - 1) 'a'} [] ∧
      ∀ fuel, ladderLength (fuel + 2) ('b' :: List.replicate (2 ^ 31 - 1) 'a')
        ('a' :: List.replicate (2 ^ 31 - 1) 'a') {'b' :: List.replicate (2 ^ 31 - 1) 'a'} =
          some 0) ∧
      Ladder ('a' :: 'a' :: List.replicate (2 ^ 27 - 2) 'a')
        ('b' :: 'b' :: List.replicate (2 ^ 27 - 2) 'a')
        (neighbours ('a' :: 'a' :: List.replicate (2 ^ 27 - 2) 'a')).toFinset
        ['b' :: 'a' :: List.replicate (2 ^ 27 - 2) 'a'] ∧
      ∀ fuel, ladderLength fuel ('a' :: 'a' :: List.replicate (2 ^ 27 - 2) 'a')
        ('b' :: 'b' :: List.replicate (2 ^ 27 - 2) 'a')
        (neighbours ('a' :: 'a' :: List.replicate (2 ^ 27 - 2) 'a')).toFinset = none := by
  have different : 'a' ≠ 'b' := by decide
  have allA : ∀ c ∈ List.replicate (2 ^ 27 - 2) 'a', c = 'a' :=
    fun c member => List.eq_of_mem_replicate member
  have oneStep := differ_first 'a' 'b' different ('a' :: List.replicate (2 ^ 27 - 2) 'a')
  refine ⟨⟨⟨?_, fun word member => absurd member List.not_mem_nil⟩, fun fuel => ?_⟩,
    ⟨?_, fun word member => ?_⟩, fun fuel => ladderLength_of_manyWords fuel ?_ ?_ ?_⟩
  · exact List.isChain_pair.mpr (differ_first 'b' 'a' different.symm _)
  · apply ladderLength_of_longWord _ fuel (Finset.singleton_nonempty _)
    rw [List.length_cons, List.length_replicate]
    omega
  · refine .cons_cons oneStep (List.isChain_pair.mpr ?_)
    exact ⟨['b'], 'a', 'b', _, rfl, rfl, different⟩
  · rw [List.mem_singleton.mp member, List.mem_toFinset, mem_neighbours_iff]
    · exact oneStep
    · intro c isLetter
      have lowercase : ('a' ≤ 'a' ∧ 'a' ≤ 'z') ∧ 'a' ≤ 'b' ∧ 'b' ≤ 'z' := by decide
      rcases List.mem_cons.mp isLetter with rfl | later
      · exact lowercase.2
      rcases List.mem_cons.mp later with rfl | later
      · exact lowercase.1
      · exact allA c later ▸ lowercase.1
  · intro c isLetter
    rcases List.mem_cons.mp isLetter with rfl | later
    · rfl
    rcases List.mem_cons.mp later with rfl | later
    · rfl
    · exact allA c later
  · rw [List.length_cons, List.length_cons, List.length_replicate]
    omega
  · intro member
    obtain ⟨j, -, c, -, -, same⟩ := mem_neighbours.mp member
    cases j with
    | zero =>
        have second := congrArg (·[1]?) same
        exact absurd (Option.some.inj second) different.symm
    | succ j =>
        have first := congrArg (·[0]?) same
        exact absurd (Option.some.inj first) different.symm

end WordLadder

end StdPrograms.Hobbies

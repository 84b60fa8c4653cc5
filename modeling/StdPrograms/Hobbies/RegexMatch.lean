import StdPrograms.Foundation.Patterns
import StdPrograms.Foundation.SignedInt

/-!
Contract: the matchers of simple regular expressions.

Owns `match`, `matchStar`, `isMatch` and `isMatch2` of `solution_10.cpp`, the language of a
pattern as it is spelled, that the recursive matcher decides it where both lengths are of type
`int`, and the strings for which the second matcher goes on behind a repeated character that
has failed.

Does not own the general laws of pattern languages.
-/

namespace StdPrograms.Hobbies

open StdPrograms.Foundation

namespace RegexMatch

variable (s p : List Char)

mutual

/-- `match`. There is no result where an index is out of range or an `int` overflows, or while
the fuel does not last. -/
def matchFrom : Nat → Nat → Nat → Option Bool
  | 0, _, _ => none
  | fuel + 1, spos, ppos => do
      let ssize := converted 32 s.length
      let psize := converted 32 p.length
      if ppos = psize then return decide (spos = ssize)
      let last ← signed 32 (psize - 1)
      if ppos < last ∧ p[ppos + 1]? = some '*' then
        let behind ← position 32 (ppos + 2)
        matchStar fuel spos behind
      else if spos < s.length then
        let c ← p[ppos]?
        let d ← s[spos]?
        if c = '.' ∨ c = d then
          let snext ← position 32 (spos + 1)
          let pnext ← position 32 (ppos + 1)
          matchFrom fuel snext pnext
        else return false
      else return false

/-- The loop of `matchStar`; each round begins with the same `ppos`. -/
def matchStar : Nat → Nat → Nat → Option Bool
  | 0, _, _ => none
  | fuel + 1, spos, ppos => do
      let c ← p[ppos - 2]?
      let matched ← matchFrom fuel spos ppos
      if matched then return true
      if spos < s.length then
        let d ← s[spos]?
        let snext ← position 32 (spos + 1)
        if d = c ∨ c = '.' then matchStar fuel snext ppos
        else return false
      else return false

end

def isMatch (fuel : Nat) : Option Bool := matchFrom s p fuel 0 0

/-- The inner loop of `isMatch2`: whether it returns, and `j`. -/
def starRounds (fuel : Nat) (c : Char) (behind : List Char) : Nat → Nat → Option (Bool × Nat)
  | 0, _ => none
  | rounds + 1, j => do
      let matched ← isMatch (s.drop j) behind fuel
      if matched then return (true, j)
      if j < s.length then
        let d ← s[j]?
        let next ← position 32 (j + 1)
        if d = c ∨ c = '.' then starRounds fuel c behind rounds next
        else return (false, next)
      else return (false, j)

/-- The loop of `isMatch2`. -/
def loop2 (fuel : Nat) : Nat → Nat → Nat → Option Bool
  | 0, _, _ => none
  | rounds + 1, i, j =>
      if i < p.length then do
        let c ← p[i]?
        let (returned, j) ←
          if p[i + 1]? = some '*' then starRounds s fuel c (p.drop (i + 2)) (s.length + 1) j
          else some (false, j)
        if returned then return true
        if j < s.length ∧ (s[j]? = some c ∨ c = '.') then
          let inext ← position 32 (i + 1)
          let jnext ← position 32 (j + 1)
          loop2 fuel rounds inext jnext
        else return decide (i = p.length ∧ j = s.length)
      else some (decide (i = p.length ∧ j = s.length))

def isMatch2 (fuel : Nat) : Option Bool := loop2 s p fuel (p.length + 1) 0 0

/-! ### The language of a pattern -/

/-- `'.'` is for any character. -/
def Fits (c d : Char) : Prop := c = '.' ∨ c = d

/-- The items that a pattern is spelled with. -/
def items : List Char → List (Item Char)
  | [] => []
  | [c] => [.one c]
  | c :: d :: rest => if d = '*' then .star c :: items rest else .one c :: items (d :: rest)

/-- Each `'*'` follows another character. -/
def StarsFollow (p : List Char) : Prop :=
  ∀ i, p[i]? = some '*' → ∃ c, 0 < i ∧ p[i - 1]? = some c ∧ c ≠ '*'

/-- The whole string is in the language of the pattern. -/
def Matches (s p : List Char) : Prop := s ∈ Item.all Fits (items p)

variable {s p}

theorem items_drop_star {i : Nat} {c : Char} (first : p[i]? = some c)
    (second : p[i + 1]? = some '*') : items (p.drop i) = .star c :: items (p.drop (i + 2)) := by
  obtain ⟨inside, rfl⟩ := List.getElem?_eq_some_iff.mp first
  obtain ⟨insideNext, star⟩ := List.getElem?_eq_some_iff.mp second
  rw [List.drop_eq_getElem_cons inside, List.drop_eq_getElem_cons insideNext, items, if_pos star]

theorem items_drop_one {i : Nat} {c : Char} (first : p[i]? = some c)
    (second : p[i + 1]? ≠ some '*') : items (p.drop i) = .one c :: items (p.drop (i + 1)) := by
  obtain ⟨inside, rfl⟩ := List.getElem?_eq_some_iff.mp first
  rw [List.drop_eq_getElem_cons inside]
  by_cases insideNext : i + 1 < p.length
  · rw [List.getElem?_eq_getElem insideNext, Ne, Option.some.injEq] at second
    rw [List.drop_eq_getElem_cons insideNext, items, if_neg second]
  · rw [List.drop_of_length_le (by omega)]
    rfl

/-- A result that says whether something holds. -/
def Decides (result : Option Bool) (holds : Prop) : Prop :=
  ∃ answer, result = some answer ∧ (answer = true ↔ holds)

theorem decides_false {holds : Prop} (fails : ¬holds) : Decides (some false) holds :=
  ⟨false, rfl, iff_of_false Bool.false_ne_true fails⟩

theorem Decides.of_iff {result : Option Bool} {holds other : Prop} (decides : Decides result holds)
    (same : holds ↔ other) : Decides result other := by
  obtain ⟨answer, returned, correct⟩ := decides
  exact ⟨answer, returned, correct.trans same⟩

/-! ### `isMatch` -/

/-- With so much fuel `match` decides the language of what is left of the pattern. -/
def MatchWorks (s p : List Char) (fuel : Nat) : Prop :=
  ∀ spos ppos, spos ≤ s.length → ppos ≤ p.length → p[ppos]? ≠ some '*' →
    2 * (p.length - ppos) + (s.length - spos) < fuel →
      Decides (matchFrom s p fuel spos ppos) (Matches (s.drop spos) (p.drop ppos))

/-- With so much fuel `matchStar` does so with the repeated character before it. -/
def StarWorks (s p : List Char) (fuel : Nat) : Prop :=
  ∀ spos ppos c, spos ≤ s.length → ppos ≤ p.length → p[ppos]? ≠ some '*' →
    p[ppos - 2]? = some c → 2 * (p.length - ppos) + (s.length - spos) + 1 < fuel →
      Decides (matchStar s p fuel spos ppos)
        (s.drop spos ∈ Item.all Fits (.star c :: items (p.drop ppos)))

theorem size_converted {text : List Char} (counted : text.length < 2 ^ 31) :
    converted 32 text.length = text.length := by
  apply converted_of_inSigned (by decide)
  unfold InSigned
  omega

theorem not_star_after_star (stars : StarsFollow p) {i : Nat} (star : p[i]? = some '*') :
    p[i + 1]? ≠ some '*' := by
  intro again
  obtain ⟨c, -, before, other⟩ := stars (i + 1) again
  rw [Nat.add_sub_cancel, star, Option.some.injEq] at before
  exact other before.symm

theorem matchWorks_succ (sCounted : s.length < 2 ^ 31) (pCounted : p.length < 2 ^ 31)
    (stars : StarsFollow p) {fuel : Nat} (matchWorks : MatchWorks s p fuel)
    (starWorks : StarWorks s p fuel) : MatchWorks s p (fuel + 1) := by
  intro spos ppos sInside pInside notStar enough
  rw [matchFrom, size_converted sCounted, size_converted pCounted]
  by_cases atEnd : ppos = p.length
  · refine ⟨decide (spos = s.length), ?_, ?_⟩
    · rw [if_pos (by exact_mod_cast atEnd)]
      simp only [Nat.cast_inj]
      rfl
    · rw [decide_eq_true_iff, Matches, List.drop_of_length_le (Nat.le_of_eq atEnd.symm), items,
        Item.mem_all_nil, List.drop_eq_nil_iff]
      omega
  · have within : ppos < p.length := by omega
    have held : signed 32 ((p.length : Int) - 1) = some ((p.length : Int) - 1) := by
      apply signed_of_inSigned
      unfold InSigned
      omega
    rw [if_neg (by exact_mod_cast atEnd), held]
    dsimp only [Option.bind_eq_bind, Option.bind_some]
    have first := List.getElem?_eq_getElem within
    by_cases star : p[ppos + 1]? = some '*'
    · obtain ⟨insideNext, -⟩ := List.getElem?_eq_some_iff.mp star
      rw [if_pos ⟨by omega, star⟩, position_of_lt (by omega), Option.bind_some]
      refine (starWorks spos (ppos + 2) p[ppos] sInside (by omega)
        (not_star_after_star stars star) first (by omega)).of_iff ?_
      rw [Matches, items_drop_star first star]
    · rw [if_neg (fun both => star both.2), Matches, items_drop_one first star]
      by_cases inText : spos < s.length
      · have character := List.getElem?_eq_getElem inText
        have rest := List.drop_eq_getElem_cons inText
        rw [if_pos inText, first, character, Option.bind_some, Option.bind_some]
        by_cases fits : p[ppos] = '.' ∨ p[ppos] = s[spos]
        · rw [if_pos fits, position_of_lt (by omega), position_of_lt (by omega), Option.bind_some,
            Option.bind_some]
          refine (matchWorks (spos + 1) (ppos + 1) inText within star (by omega)).of_iff ?_
          rw [rest, Item.cons_mem_all_one]
          exact (and_iff_right fits).symm
        · rw [if_neg fits]
          apply decides_false
          rw [rest, Item.cons_mem_all_one]
          exact fun both => fits both.1
      · rw [if_neg inText, List.drop_of_length_le (Nat.le_of_not_lt inText)]
        exact decides_false Item.nil_notMem_all_one

theorem starWorks_succ (sCounted : s.length < 2 ^ 31) {fuel : Nat}
    (matchWorks : MatchWorks s p fuel) (starWorks : StarWorks s p fuel) :
    StarWorks s p (fuel + 1) := by
  intro spos ppos c sInside pInside notStar before enough
  obtain ⟨matched, returned, correct⟩ := matchWorks spos ppos sInside pInside notStar (by omega)
  rw [matchStar, before, Option.bind_eq_bind, Option.bind_some, returned]
  dsimp only [Option.bind_eq_bind, Option.bind_some]
  by_cases found : matched = true
  · rw [if_pos found]
    refine ⟨true, rfl, iff_of_true rfl ?_⟩
    rw [Item.mem_all_star]
    exact Or.inl (correct.mp found)
  · rw [if_neg found]
    have notNow : s.drop spos ∉ Item.all Fits (items (p.drop ppos)) :=
      fun member => found (correct.mpr member)
    by_cases inText : spos < s.length
    · rw [List.drop_eq_getElem_cons inText] at notNow ⊢
      rw [if_pos inText, List.getElem?_eq_getElem inText, position_of_lt (by omega),
        Option.bind_some, Option.bind_some]
      by_cases fits : s[spos] = c ∨ c = '.'
      · have fit : Fits c s[spos] := fits.symm.imp_right Eq.symm
        rw [if_pos fits]
        refine (starWorks (spos + 1) ppos c inText pInside notStar before (by omega)).of_iff ?_
        rw [Item.cons_mem_all_star, or_iff_right notNow, and_iff_right fit]
      · rw [if_neg fits]
        apply decides_false
        rw [Item.cons_mem_all_star, or_iff_right notNow]
        exact fun both => fits (both.1.symm.imp_left Eq.symm)
    · rw [List.drop_of_length_le (Nat.le_of_not_lt inText)] at notNow ⊢
      rw [if_neg inText]
      apply decides_false
      rwa [Item.nil_mem_all_star]

theorem works (sCounted : s.length < 2 ^ 31) (pCounted : p.length < 2 ^ 31)
    (stars : StarsFollow p) (fuel : Nat) : MatchWorks s p fuel ∧ StarWorks s p fuel := by
  induction fuel with
  | zero =>
      constructor
      · intro spos ppos _ _ _ enough
        exact absurd enough (Nat.not_lt_zero _)
      · intro spos ppos c _ _ _ _ enough
        exact absurd enough (Nat.not_lt_zero _)
  | succ fuel inductionHypothesis =>
      obtain ⟨matchWorks, starWorks⟩ := inductionHypothesis
      exact ⟨matchWorks_succ sCounted pCounted stars matchWorks starWorks,
        starWorks_succ sCounted matchWorks starWorks⟩

theorem isMatch_spec (stars : StarsFollow p) (sCounted : s.length < 2 ^ 31)
    (pCounted : p.length < 2 ^ 31) {fuel : Nat} (enough : 2 * p.length + s.length < fuel) :
    Decides (isMatch s p fuel) (Matches s p) := by
  have notStar : p[0]? ≠ some '*' := by
    intro star
    obtain ⟨c, positive, -⟩ := stars 0 star
    exact Nat.lt_irrefl 0 positive
  exact (works sCounted pCounted stars fuel).1 0 0 (Nat.zero_le _) (Nat.zero_le _) notStar enough

/-- Where an `int` counts the characters of both strings, the matcher decides the language. -/
theorem isMatch_decides (s p : List Char) (stars : StarsFollow p) (sCounted : s.length < 2 ^ 31)
    (pCounted : p.length < 2 ^ 31) :
    ∀ fuel > 2 * p.length + s.length, ∃ answer,
      isMatch s p fuel = some answer ∧ (answer = true ↔ Matches s p) :=
  fun _ enough => isMatch_spec stars sCounted pCounted enough

theorem starsFollow_aStar : StarsFollow ['a', '*'] := by
  intro i star
  match i with
  | 0 => cases star
  | 1 => exact ⟨'a', Nat.one_pos, rfl, by decide⟩
  | i + 2 => cases star

theorem isMatch_decides_aStar :
    ∃ answer, isMatch ['a', 'a'] ['a', '*'] 7 = some answer ∧
      (answer = true ↔ Matches ['a', 'a'] ['a', '*']) :=
  isMatch_decides ['a', 'a'] ['a', '*'] starsFollow_aStar (by decide) (by decide) 7 (by decide)

/-- The size of a longer string is converted to zero, and the string passes for an empty one. -/
theorem isMatch_longString :
    ∃ s : List Char, StarsFollow [] ∧ ¬Matches s [] ∧ ∀ fuel > 0, isMatch s [] fuel = some true := by
  obtain ⟨size, sizeIs⟩ : ∃ size : Nat, size = 2 ^ 32 := ⟨_, rfl⟩
  have length : (List.replicate size 'a').length = size := List.length_replicate
  have zero : converted 32 (List.replicate size 'a').length = 0 := by
    rw [length, sizeIs]
    rfl
  refine ⟨List.replicate size 'a', ?_, ?_, ?_⟩
  · intro i star
    cases star
  · intro matched
    rw [Matches, items, Item.mem_all_nil] at matched
    rw [matched, List.length_nil] at length
    omega
  · intro fuel positive
    obtain ⟨fuel, rfl⟩ := Nat.exists_eq_add_one_of_ne_zero (Nat.ne_of_gt positive)
    rw [isMatch, matchFrom, zero]
    rfl

/-! ### `isMatch2` -/

instance (c d : Char) : Decidable (Fits c d) := inferInstanceAs (Decidable (_ ∨ _))

/-- What is behind the first character that does not fit. -/
def skip (c : Char) (s : List Char) : List Char := (s.dropWhile fun d => decide (Fits c d)).drop 1

/-- A repeated character fails, and behind the first character that does not fit it a fitting
one and a `'*'` follow, as if the pattern were plain there. -/
def Derails : List (Item Char) → List Char → Prop
  | [], _ => False
  | .one c :: rest, s => ∃ d behind, s = d :: behind ∧ Fits c d ∧ Derails rest behind
  | .star c :: rest, s =>
      s ∉ Item.all Fits (.star c :: rest) ∧
        ∃ d behind, skip c s = d :: '*' :: behind ∧ Fits c d ∧
          (behind ∈ Item.all Fits rest ∨ Derails rest behind)

/-- What derails does not match. -/
theorem Derails.not_mem {rest : List (Item Char)} (derails : Derails rest s) :
    s ∉ Item.all Fits rest := by
  induction rest generalizing s with
  | nil => exact derails.elim
  | cons item rest inductionHypothesis =>
      cases item with
      | one c =>
          obtain ⟨d, behind, rfl, -, later⟩ := derails
          rw [Item.cons_mem_all_one]
          exact fun both => inductionHypothesis later both.2
      | star c => exact derails.1

theorem starsFollow_drop (stars : StarsFollow p) {i : Nat} (star : p[i + 1]? = some '*') :
    StarsFollow (p.drop (i + 2)) := by
  intro k again
  rw [List.getElem?_drop] at again
  obtain ⟨c, -, before, other⟩ := stars (i + 2 + k) again
  cases k with
  | zero =>
      rw [show i + 2 + 0 - 1 = i + 1 by omega, star, Option.some.injEq] at before
      exact absurd before.symm other
  | succ k =>
      refine ⟨c, Nat.succ_pos k, ?_, other⟩
      rw [List.getElem?_drop, ← before]
      congr 1

theorem skip_cons_of_fits {c d : Char} (fits : Fits c d) (rest : List Char) :
    skip c (d :: rest) = skip c rest := by
  rw [skip, List.dropWhile_cons_of_pos (by simpa using fits), skip]

theorem skip_cons_of_not_fits {c d : Char} (misfit : ¬Fits c d) (rest : List Char) :
    skip c (d :: rest) = rest := by
  rw [skip, List.dropWhile_cons_of_neg (by simpa using misfit)]
  rfl

/-- The inner loop returns where the repeated character and the rest match; otherwise it stops
behind the first character that does not fit. -/
theorem starRounds_spec (sCounted : s.length < 2 ^ 31) {fuel : Nat} {c : Char}
    {behind : List Char} (stars : StarsFollow behind) (counted : behind.length < 2 ^ 31)
    (enough : 2 * behind.length + s.length < fuel) {rounds j : Nat} (inside : j ≤ s.length)
    (last : s.length - j < rounds) :
    ∃ returned next, starRounds s fuel c behind rounds j = some (returned, next) ∧
      (returned = true ↔ s.drop j ∈ Item.all Fits (.star c :: items behind)) ∧
      (returned = false → next ≤ s.length ∧ s.drop next = skip c (s.drop j)) := by
  induction rounds generalizing j with
  | zero => exact absurd last (Nat.not_lt_zero _)
  | succ rounds inductionHypothesis =>
      have short : (s.drop j).length ≤ s.length := by
        rw [List.length_drop]
        omega
      obtain ⟨matched, returned, correct⟩ := @isMatch_spec (s.drop j) behind stars (by omega)
        counted fuel (by omega)
      rw [starRounds, returned]
      dsimp only [Option.bind_eq_bind, Option.bind_some]
      by_cases found : matched = true
      · rw [if_pos found]
        refine ⟨true, j, rfl, iff_of_true rfl ?_, fun fails => by cases fails⟩
        rw [Item.mem_all_star]
        exact Or.inl (correct.mp found)
      · rw [if_neg found]
        have notNow : s.drop j ∉ Item.all Fits (items behind) :=
          fun member => found (correct.mpr member)
        by_cases inText : j < s.length
        · rw [List.drop_eq_getElem_cons inText] at notNow ⊢
          rw [if_pos inText, List.getElem?_eq_getElem inText, position_of_lt (by omega),
            Option.bind_some, Option.bind_some]
          by_cases fits : s[j] = c ∨ c = '.'
          · have fit : Fits c s[j] := fits.symm.imp_right Eq.symm
            rw [if_pos fits]
            obtain ⟨answer, next, later, correctLater, stops⟩ :=
              @inductionHypothesis (j + 1) inText (by omega)
            refine ⟨answer, next, later, correctLater.trans ?_, fun fails => ?_⟩
            · rw [Item.cons_mem_all_star, or_iff_right notNow, and_iff_right fit]
            · rw [skip_cons_of_fits fit]
              exact stops fails
          · have misfit : ¬Fits c s[j] := fun fit => fits (fit.symm.imp_left Eq.symm)
            rw [if_neg fits]
            refine ⟨false, j + 1, rfl, iff_of_false Bool.false_ne_true ?_, fun _ => ⟨inText, ?_⟩⟩
            · rw [Item.cons_mem_all_star, or_iff_right notNow]
              exact fun both => misfit both.1
            · rw [skip_cons_of_not_fits misfit]
        · rw [List.drop_of_length_le (Nat.le_of_not_lt inText)] at notNow ⊢
          rw [if_neg inText]
          refine ⟨false, j, rfl, iff_of_false Bool.false_ne_true ?_, fun _ => ⟨inside, ?_⟩⟩
          · rwa [Item.nil_mem_all_star]
          · exact List.drop_of_length_le (Nat.le_of_not_lt inText)

theorem fits_star {d : Char} : Fits '*' d ↔ d = '*' := by
  constructor
  · rintro (dot | same)
    · exact absurd dot (by decide)
    · exact same.symm
  · intro same
    exact Or.inr same.symm

theorem derails_one_cons {c d : Char} {rest : List (Item Char)} {tail : List Char} :
    Derails (.one c :: rest) (d :: tail) ↔ Fits c d ∧ Derails rest tail := by
  constructor
  · rintro ⟨d', behind, same, fits, later⟩
    obtain ⟨rfl, rfl⟩ := List.cons.inj same
    exact ⟨fits, later⟩
  · rintro ⟨fits, later⟩
    exact ⟨d, tail, rfl, fits, later⟩

/-- Behind a repeated character that has failed, the `'*'` is a plain one. -/
theorem derails_star_iff {c d : Char} {rest : List (Item Char)} {tail : List Char}
    (fails : s ∉ Item.all Fits (.star c :: rest)) (stops : skip c s = d :: tail)
    (fits : Fits c d) :
    Derails (.star c :: rest) s ↔
      tail ∈ Item.all Fits (.one '*' :: rest) ∨ Derails (.one '*' :: rest) tail := by
  refine (and_iff_right fails).trans ?_
  rw [stops]
  cases tail with
  | nil =>
      apply iff_of_false
      · rintro ⟨d', behind, same, -⟩
        cases same
      · rintro (member | ⟨d', behind, same, -⟩)
        · exact Item.nil_notMem_all_one member
        · cases same
  | cons e tail =>
      rw [Item.cons_mem_all_one, derails_one_cons, fits_star]
      constructor
      · rintro ⟨d', behind, same, -, either⟩
        obtain ⟨-, rfl, rfl⟩ := same
        exact either.imp (And.intro rfl) (And.intro rfl)
      · rintro (⟨rfl, member⟩ | ⟨rfl, later⟩)
        · exact ⟨d, tail, rfl, fits, Or.inl member⟩
        · exact ⟨d, tail, rfl, fits, Or.inr later⟩

/-- The loop accepts what the rest of the pattern matches, and what derails on it. -/
def LoopWorks (s p : List Char) (fuel rounds : Nat) : Prop :=
  ∀ i j, i ≤ p.length → j ≤ s.length → p.length - i < rounds →
    Decides (loop2 s p fuel rounds i j)
      (Matches (s.drop j) (p.drop i) ∨ Derails (items (p.drop i)) (s.drop j))

/-- The rest of a round, behind the inner loop. -/
theorem plain_round (sCounted : s.length < 2 ^ 31) (pCounted : p.length < 2 ^ 31) {fuel rounds : Nat}
    (loopWorks : LoopWorks s p fuel rounds) {i j : Nat} {c : Char} (within : i < p.length)
    (last : p.length - i < rounds + 1) {holds : Prop}
    (goes : ∀ inText : j < s.length, Fits c s[j] →
      (Matches (s.drop (j + 1)) (p.drop (i + 1)) ∨
        Derails (items (p.drop (i + 1))) (s.drop (j + 1)) ↔ holds))
    (stops : (∀ inText : j < s.length, ¬Fits c s[j]) → ¬holds) :
    Decides
      (if j < s.length ∧ (s[j]? = some c ∨ c = '.') then do
        let inext ← position 32 (i + 1)
        let jnext ← position 32 (j + 1)
        loop2 s p fuel rounds inext jnext
      else return decide (i = p.length ∧ j = s.length)) holds := by
  have condition : ∀ inText : j < s.length, (s[j]? = some c ∨ c = '.') ↔ Fits c s[j] := by
    intro inText
    rw [List.getElem?_eq_getElem inText, Option.some.injEq]
    constructor
    · rintro (same | dot)
      · exact Or.inr same.symm
      · exact Or.inl dot
    · rintro (dot | same)
      · exact Or.inr dot
      · exact Or.inl same.symm
  by_cases fits : j < s.length ∧ (s[j]? = some c ∨ c = '.')
  · rw [if_pos fits, position_of_lt (by omega), position_of_lt (by omega)]
    exact (loopWorks (i + 1) (j + 1) within fits.1 (by omega)).of_iff
      (goes fits.1 ((condition fits.1).mp fits.2))
  · rw [if_neg fits, decide_eq_false (fun both => Nat.ne_of_lt within both.1)]
    exact decides_false (stops (fun inText fit => fits ⟨inText, (condition inText).mpr fit⟩))

/-- A character of the pattern without a `'*'` at a character that fits it. -/
theorem one_goes {c : Char} {rest : List (Item Char)} {j : Nat} (inText : j < s.length)
    (fits : Fits c s[j]) :
    s.drop (j + 1) ∈ Item.all Fits rest ∨ Derails rest (s.drop (j + 1)) ↔
      s.drop j ∈ Item.all Fits (.one c :: rest) ∨ Derails (.one c :: rest) (s.drop j) := by
  rw [List.drop_eq_getElem_cons inText, Item.cons_mem_all_one, derails_one_cons,
    and_iff_right fits, and_iff_right fits]

theorem one_stops {c : Char} {rest : List (Item Char)} {j : Nat}
    (misfits : ∀ inText : j < s.length, ¬Fits c s[j]) :
    ¬(s.drop j ∈ Item.all Fits (.one c :: rest) ∨ Derails (.one c :: rest) (s.drop j)) := by
  by_cases inText : j < s.length
  · rw [List.drop_eq_getElem_cons inText, Item.cons_mem_all_one, derails_one_cons, ← and_or_left]
    exact fun both => misfits inText both.1
  · rw [List.drop_of_length_le (Nat.le_of_not_lt inText)]
    rintro (member | ⟨d, behind, same, -⟩)
    · exact Item.nil_notMem_all_one member
    · cases same

/-- A repeated character that has failed, at a character that does not fit it. -/
theorem star_stops {c : Char} {rest : List (Item Char)} {text : List Char} {next : Nat}
    (there : s.drop next = skip c text)
    (misfits : ∀ inText : next < s.length, ¬Fits c s[next]) :
    ¬Derails (.star c :: rest) text := by
  rintro ⟨-, d, behind, same, fits, -⟩
  rw [← there] at same
  by_cases inText : next < s.length
  · rw [List.drop_eq_getElem_cons inText] at same
    exact misfits inText ((List.cons.inj same).1 ▸ fits)
  · rw [List.drop_of_length_le (Nat.le_of_not_lt inText)] at same
    cases same

theorem loopWorks_succ (sCounted : s.length < 2 ^ 31) (pCounted : p.length < 2 ^ 31)
    (stars : StarsFollow p) {fuel : Nat} (enough : 2 * p.length + s.length < fuel) {rounds : Nat}
    (loopWorks : LoopWorks s p fuel rounds) : LoopWorks s p fuel (rounds + 1) := by
  intro i j iInside jInside last
  rw [loop2]
  by_cases within : i < p.length
  · have first := List.getElem?_eq_getElem within
    rw [if_pos within, first, Option.bind_eq_bind, Option.bind_some]
    by_cases star : p[i + 1]? = some '*'
    · obtain ⟨insideNext, -⟩ := List.getElem?_eq_some_iff.mp star
      have shorter : (p.drop (i + 2)).length ≤ p.length := by
        rw [List.length_drop]
        omega
      obtain ⟨returned, next, ran, correct, stops⟩ := @starRounds_spec s sCounted fuel p[i]
        (p.drop (i + 2)) (starsFollow_drop stars star) (by omega) (by omega) (s.length + 1) j jInside
        (by omega)
      rw [if_pos star, ran, Matches, items_drop_star first star]
      dsimp only [Option.bind_eq_bind, Option.bind_some]
      cases returned with
      | true =>
          rw [if_pos rfl]
          exact ⟨true, rfl, iff_of_true rfl (Or.inl (correct.mp rfl))⟩
      | false =>
          have fails := correct.not.mp Bool.false_ne_true
          obtain ⟨nextInside, there⟩ := stops rfl
          rw [if_neg Bool.false_ne_true, or_iff_right fails]
          apply plain_round sCounted pCounted loopWorks within last
          · intro inText fits
            rw [List.drop_eq_getElem_cons inText] at there
            rw [derails_star_iff fails there.symm fits, Matches,
              items_drop_one star (not_star_after_star stars star)]
          · exact star_stops there
    · rw [if_neg star, Matches, items_drop_one first star]
      dsimp only [Option.bind_eq_bind, Option.bind_some]
      rw [if_neg Bool.false_ne_true]
      apply plain_round sCounted pCounted loopWorks within last
      · exact fun inText fits => one_goes inText fits
      · exact one_stops
  · have atEnd : i = p.length := Nat.le_antisymm iInside (Nat.le_of_not_lt within)
    rw [if_neg within, List.drop_of_length_le (Nat.le_of_not_lt within)]
    refine ⟨decide (i = p.length ∧ j = s.length), rfl, ?_⟩
    rw [decide_eq_true_iff, and_iff_right atEnd, Matches, items, Item.mem_all_nil,
      List.drop_eq_nil_iff]
    constructor
    · intro same
      exact Or.inl (Nat.le_of_eq same.symm)
    · rintro (upTo | none)
      · exact Nat.le_antisymm jInside upTo
      · exact none.elim

theorem isMatch2_spec (stars : StarsFollow p) (sCounted : s.length < 2 ^ 31)
    (pCounted : p.length < 2 ^ 31) {fuel : Nat} (enough : 2 * p.length + s.length < fuel) :
    Decides (isMatch2 s p fuel) (Matches s p ∨ Derails (items p) s) := by
  have loopWorks : ∀ rounds, LoopWorks s p fuel rounds := by
    intro rounds
    induction rounds with
    | zero =>
        intro i j _ _ last
        exact absurd last (Nat.not_lt_zero _)
    | succ rounds inductionHypothesis =>
        exact loopWorks_succ sCounted pCounted stars enough inductionHypothesis
  exact loopWorks (p.length + 1) 0 0 (Nat.zero_le _) (Nat.zero_le _) (Nat.lt_succ_self _)

/-- The matchers agree exactly where no repeated character derails the second one. -/
theorem isMatch2_eq_isMatch_iff (s p : List Char) (stars : StarsFollow p)
    (sCounted : s.length < 2 ^ 31) (pCounted : p.length < 2 ^ 31) :
    ∀ fuel > 2 * p.length + s.length,
      (isMatch s p fuel ≠ none ∧ isMatch2 s p fuel = isMatch s p fuel ↔ ¬Derails (items p) s) := by
  intro fuel enough
  obtain ⟨answer, returned, correct⟩ := isMatch_spec stars sCounted pCounted enough
  obtain ⟨answer2, returned2, correct2⟩ := isMatch2_spec stars sCounted pCounted enough
  rw [returned, returned2, and_iff_right (Option.some_ne_none answer), Option.some.injEq,
    Bool.eq_iff_iff, correct, correct2]
  constructor
  · intro same derails
    exact derails.not_mem (same.mp (Or.inr derails))
  · intro stays
    exact or_iff_left stays

theorem isMatch2_eq_isMatch_iff_aStar :
    isMatch ['a', 'a'] ['a', '*'] 7 ≠ none ∧
        isMatch2 ['a', 'a'] ['a', '*'] 7 = isMatch ['a', 'a'] ['a', '*'] 7 ↔
      ¬Derails (items ['a', '*']) ['a', 'a'] :=
  isMatch2_eq_isMatch_iff ['a', 'a'] ['a', '*'] starsFollow_aStar (by decide) (by decide) 7
    (by decide)

/-- `ba*` is matched by `a*`, with a plain `'*'` at its end. -/
theorem isMatch2_ne_isMatch :
    StarsFollow ['a', '*'] ∧ isMatch ['b', 'a', '*'] ['a', '*'] 8 = some false ∧
      isMatch2 ['b', 'a', '*'] ['a', '*'] 8 = some true :=
  ⟨starsFollow_aStar, by decide, by decide⟩

end RegexMatch

end StdPrograms.Hobbies

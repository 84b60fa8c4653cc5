import Mathlib.Data.List.Basic
import Mathlib.Logic.Function.Basic
import StdPrograms.Foundation.SignedInt

/-!
Contract: whether one string is another with its characters renamed.

Owns `isIsomorphic` of `solution_205.cpp`, with an index of type `int`, and that its two maps decide
whether some renaming, which gives no two characters one name, makes the second string of the first.

Does not own a second string that is shorter than the first, which is read behind its end.
-/

namespace StdPrograms.Hobbies

open StdPrograms.Foundation

namespace Isomorphic

variable {α : Type}

section Code

variable [DecidableEq α]

/-- One half of a round: the map with the entry, or nothing where it has another one. -/
def enter (map : α → Option α) (key value : α) : Option (α → Option α) :=
  match map key with
  | none => some (Function.update map key (some value))
  | some found => if found ≠ value then none else some map

/-- The loop from `i` on, where `rest` is what is left of `s`. The character `nul` is what is read
at the end of a string. -/
def scan (nul : α) (t : List α) : List α → Nat → (s2t t2s : α → Option α) → Option Bool
  | [], _, _, _ => some true
  | c :: rest, i, s2t, t2s => do
      let d ← if i = t.length then some nul else t[i]?
      match enter s2t c d with
      | none => return false
      | some s2t =>
          match enter t2s d c with
          | none => return false
          | some t2s =>
              let next ← position 32 (i + 1)
              scan nul t rest next s2t t2s

def isIsomorphic (nul : α) (s t : List α) : Option Bool :=
  scan nul t s 0 (fun _ => none) (fun _ => none)

end Code

/-! ### Renamings -/

/-- Pairs of which no two have one side in common and not the other. -/
def Matches (pairs : List (α × α)) : Prop :=
  ∀ left ∈ pairs, ∀ right ∈ pairs, left.1 = right.1 ↔ left.2 = right.2

/-- Some renaming, which gives no two characters of `s` one name, makes `t` of it. -/
def Renamed (s t : List α) : Prop :=
  ∃ name : α → α, (∀ c ∈ s, ∀ d ∈ s, name c = name d → c = d) ∧ s.map name = t

theorem matches_iff_renamed {s t : List α} (same : s.length = t.length) :
    Matches (s.zip t) ↔ Renamed s t := by
  classical
  constructor
  · intro all
    have paired {c : α} (member : c ∈ s) : ∃ d, (c, d) ∈ s.zip t := by
      obtain ⟨i, inside, rfl⟩ := List.getElem_of_mem member
      exact ⟨t[i], List.mem_iff_getElem.mpr ⟨i, by simp [← same, inside], List.getElem_zip⟩⟩
    let name (c : α) : α := if found : ∃ d, (c, d) ∈ s.zip t then found.choose else c
    have named {c : α} (member : c ∈ s) : (c, name c) ∈ s.zip t := by
      simp only [name, dif_pos (paired member)]
      exact (paired member).choose_spec
    refine ⟨name, ?_, ?_⟩
    · intro c inS d inS' equal
      exact (all _ (named inS) _ (named inS')).mpr equal
    · apply List.ext_getElem
      · rw [List.length_map, same]
      · intro i inside inside'
        rw [List.length_map] at inside
        rw [List.getElem_map]
        have here : (s[i], t[i]) ∈ s.zip t :=
          List.mem_iff_getElem.mpr ⟨i, by simp [← same, inside], List.getElem_zip⟩
        exact (all _ (named (List.getElem_mem inside)) _ here).mp rfl
  · rintro ⟨name, injective, rfl⟩
    have named : ∀ pair ∈ s.zip (s.map name), pair.1 ∈ s ∧ pair.2 = name pair.1 := by
      intro pair member
      obtain ⟨i, inside, rfl⟩ := List.getElem_of_mem member
      simp
    intro left inLeft right inRight
    obtain ⟨leftIn, leftIs⟩ := named left inLeft
    obtain ⟨rightIn, rightIs⟩ := named right inRight
    rw [leftIs, rightIs]
    exact ⟨congrArg name, injective _ leftIn _ rightIn⟩

/-! ### The loop -/

/-- The map holds exactly the pairs. -/
def Records (map : α → Option α) (pairs : List (α × α)) : Prop :=
  ∀ key value, map key = some value ↔ (key, value) ∈ pairs

/-- A pair can be added to others exactly if it matches them. -/
theorem matches_concat {pairs : List (α × α)} {c d : α} :
    Matches (pairs ++ [(c, d)]) ↔ Matches pairs ∧ ∀ pair ∈ pairs, pair.1 = c ↔ pair.2 = d := by
  constructor
  · intro all
    constructor
    · intro left inLeft right inRight
      exact all left (List.mem_append_left _ inLeft) right (List.mem_append_left _ inRight)
    · intro pair member
      exact all pair (List.mem_append_left _ member) (c, d) (by simp)
  · rintro ⟨all, new⟩ left inLeft right inRight
    rw [List.mem_append, List.mem_singleton] at inLeft inRight
    rcases inLeft with inLeft | rfl
    · rcases inRight with inRight | rfl
      · exact all left inLeft right inRight
      · exact new left inLeft
    · rcases inRight with inRight | rfl
      · rw [eq_comm, new right inRight, eq_comm]
      · exact iff_of_true rfl rfl

theorem Matches.of_append {pairs others : List (α × α)} (all : Matches (pairs ++ others)) :
    Matches pairs := fun left inLeft right inRight =>
  all left (List.mem_append_left _ inLeft) right (List.mem_append_left _ inRight)

variable [DecidableEq α]

/-- Half a round either adds the pair, or finds one with another value. -/
theorem enter_spec {map : α → Option α} {pairs : List (α × α)} (records : Records map pairs)
    (key value : α) :
    match enter map key value with
    | none => ∃ pair ∈ pairs, pair.1 = key ∧ pair.2 ≠ value
    | some after => Records after (pairs ++ [(key, value)]) ∧
        ∀ pair ∈ pairs, pair.1 = key → pair.2 = value := by
  unfold enter
  cases known : map key with
  | none =>
      have new : ∀ other, (key, other) ∉ pairs := by
        intro other member
        rw [(records key other).mpr member] at known
        exact nomatch known
      refine ⟨fun key' value' => ?_, ?_⟩
      · rw [List.mem_append, List.mem_singleton, Prod.mk.injEq]
        by_cases same : key' = key
        · subst same
          simp [new value', eq_comm]
        · rw [Function.update_of_ne same, records]
          simp [same]
      · rintro ⟨first, other⟩ member rfl
        exact absurd member (new other)
  | some found =>
      have member := (records key found).mp known
      dsimp only
      by_cases equal : found = value
      · subst equal
        rw [if_neg (by simp)]
        refine ⟨fun key' value' => ?_, ?_⟩
        · rw [records, List.mem_append, List.mem_singleton]
          exact (or_iff_left_of_imp fun same => same ▸ member).symm
        · rintro ⟨first, other⟩ inPairs rfl
          have again := (records first other).mpr inPairs
          exact Option.some.inj (again.symm.trans known)
      · rw [if_pos equal]
        exact ⟨_, member, rfl, equal⟩

theorem scan_spec {nul : α} {t : List α} {rest : List α} {s2t t2s : α → Option α}
    {done : List (α × α)} (forth : Records s2t done) (back : Records t2s (done.map Prod.swap))
    (all : Matches done) (enough : done.length + rest.length ≤ t.length)
    (small : done.length + rest.length < 2 ^ 31) :
    ∃ answer, scan nul t rest done.length s2t t2s = some answer ∧
      (answer = true ↔ Matches (done ++ rest.zip (t.drop done.length))) := by
  induction rest generalizing s2t t2s done with
  | nil =>
      refine ⟨true, rfl, iff_of_true rfl ?_⟩
      rwa [List.zip_nil_left, List.append_nil]
  | cons c rest inductionHypothesis =>
      rw [List.length_cons] at enough small
      have counted : position 32 (done.length + 1) = some (done.length + 1) :=
        position_of_lt (by omega)
      have inside : done.length < t.length := by omega
      rw [scan, if_neg (Nat.ne_of_lt inside), List.getElem?_eq_getElem inside,
        List.drop_eq_getElem_cons inside, List.zip_cons_cons, List.append_cons]
      generalize t[done.length] = d
      simp only [Option.bind_eq_bind, Option.bind_some]
      have first := enter_spec forth c d
      cases entered : enter s2t c d with
      | none =>
          rw [entered] at first
          obtain ⟨pair, member, same, differ⟩ := first
          refine ⟨false, rfl, iff_of_false Bool.false_ne_true fun whole => differ ?_⟩
          exact ((matches_concat.mp whole.of_append).2 pair member).mp same
      | some s2t' =>
          rw [entered] at first
          have second := enter_spec back d c
          dsimp only
          cases entered' : enter t2s d c with
          | none =>
              rw [entered'] at second
              obtain ⟨swapped, member, same, differ⟩ := second
              obtain ⟨pair, inDone, rfl⟩ := List.mem_map.mp member
              refine ⟨false, rfl, iff_of_false Bool.false_ne_true fun whole => differ ?_⟩
              exact ((matches_concat.mp whole.of_append).2 pair inDone).mpr same
          | some t2s' =>
              rw [entered'] at second
              have matched : Matches (done ++ [(c, d)]) := by
                refine matches_concat.mpr ⟨all, fun pair member => ⟨first.2 pair member, ?_⟩⟩
                exact second.2 pair.swap (List.mem_map_of_mem member)
              have later := @inductionHypothesis s2t' t2s' (done ++ [(c, d)]) first.1
                (by rw [List.map_append]; exact second.1) matched
                (by rw [List.length_append, List.length_singleton]; omega)
                (by rw [List.length_append, List.length_singleton]; omega)
              rw [List.length_append, List.length_singleton] at later
              dsimp only
              rw [counted, Option.bind_some]
              exact later

/-- Where the second string is not the shorter one, and the first one no longer than an `int`
counts, there is an answer: whether what the second one begins with is the first one renamed. -/
theorem isIsomorphic_renamed (nul : α) {s t : List α} (enough : s.length ≤ t.length)
    (small : s.length < 2 ^ 31) :
    ∃ answer, isIsomorphic nul s t = some answer ∧
      (answer = true ↔ Renamed s (t.take s.length)) := by
  have same : s.length = (t.take s.length).length := (List.length_take_of_le enough).symm
  have empty : Records (fun _ : α => none) [] := fun _ _ => by simp
  obtain ⟨answer, returned, decides⟩ := @scan_spec α _ nul t s _ _ [] empty empty
    (fun _ member => absurd member List.not_mem_nil) (by simpa using enough) (by simpa using small)
  refine ⟨answer, returned, ?_⟩
  rw [decides, ← matches_iff_renamed same, List.nil_append, List.length_nil, List.drop_zero,
    @List.zip_eq_zip_take_min α α s t, Nat.min_eq_left enough, List.take_length]

theorem isIsomorphic_renamed_egg :
    ∃ answer, isIsomorphic '\x00' ['e', 'g', 'g'] ['a', 'd', 'd'] = some answer ∧
      (answer = true ↔ Renamed ['e', 'g', 'g'] ['a', 'd', 'd']) :=
  isIsomorphic_renamed '\x00' (Nat.le_refl 3) (by decide)

end Isomorphic

end StdPrograms.Hobbies

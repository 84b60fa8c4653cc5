import Mathlib.Data.List.Induction
import Mathlib.Data.List.Nodup
import Mathlib.Logic.Function.Basic

/-!
Contract: a list of values put into a map one after the other, each under its key.

A later value takes the place of an earlier one with its key. Owns which value stands
under a key in the end, and when the map holds every value of a list whose values are
told apart by something other than their keys.

Does not own any map implementation.
-/

namespace StdPrograms.Foundation

section LastWins

variable {α κ : Type} [DecidableEq κ] (key : α → κ)

/-- The assignments `data[key(value)] = value`, in order. -/
def insertAll (data : κ → Option α) (values : List α) : κ → Option α :=
  values.foldl (fun data value => Function.update data (key value) (some value)) data

variable {key}

theorem insertAll_append (data : κ → Option α) (before after : List α) :
    insertAll key data (before ++ after) = insertAll key (insertAll key data before) after :=
  List.foldl_append

theorem insertAll_of_not_mem {data : κ → Option α} {values : List α} {k : κ}
    (absent : k ∉ values.map key) : insertAll key data values k = data k := by
  induction values generalizing data with
  | nil => rfl
  | cons value rest inductionHypothesis =>
      rw [List.map_cons, List.mem_cons, not_or] at absent
      change insertAll key (Function.update data (key value) (some value)) rest k = data k
      rw [inductionHypothesis absent.2, Function.update_of_ne absent.1]

/-- Under a key stands the last value that has it. -/
theorem insertAll_eq_some_iff {values : List α} {k : κ} {value : α} :
    insertAll key (fun _ => none) values k = some value ↔
      ∃ before after, values = before ++ value :: after ∧ key value = k ∧
        k ∉ after.map key := by
  constructor
  · intro stands
    induction values using List.reverseRecOn with
    | nil => cases stands
    | append_singleton init last inductionHypothesis =>
        rw [insertAll_append] at stands
        change Function.update (insertAll key (fun _ => none) init) (key last) (some last) k =
          some value at stands
        by_cases same : k = key last
        · rw [same, Function.update_self] at stands
          cases stands
          exact ⟨init, [], rfl, same.symm, List.not_mem_nil⟩
        · rw [Function.update_of_ne same] at stands
          obtain ⟨before, after, split, keyed, absent⟩ := inductionHypothesis stands
          refine ⟨before, after ++ [last], ?_, keyed, ?_⟩
          · rw [split, List.append_assoc]
            rfl
          · rw [List.map_append, List.mem_append, not_or]
            exact ⟨absent, fun member => same (List.mem_singleton.mp member)⟩
  · rintro ⟨before, after, split, keyed, absent⟩
    rw [split, insertAll_append]
    change insertAll key (Function.update _ (key value) (some value)) after k = some value
    rw [insertAll_of_not_mem absent, keyed, Function.update_self]

theorem mem_of_insertAll {values : List α} {k : κ} {value : α}
    (stands : insertAll key (fun _ => none) values k = some value) : value ∈ values := by
  obtain ⟨before, after, split, -, -⟩ := insertAll_eq_some_iff.mp stands
  rw [split]
  exact List.mem_append_right _ List.mem_cons_self

omit [DecidableEq κ] in
/-- Keys differ if none of them comes again behind its value. -/
theorem nodup_map_of_splits {values : List α}
    (once : ∀ before value after, values = before ++ value :: after →
      key value ∉ after.map key) : (values.map key).Nodup := by
  induction values with
  | nil => exact List.nodup_nil
  | cons head rest inductionHypothesis =>
      apply List.nodup_cons.mpr
      constructor
      · exact once [] head rest rfl
      · apply inductionHypothesis
        intro before value after split
        apply once (head :: before) value after
        rw [split]
        rfl

/-- The map holds every value exactly if no two keys are the same. -/
theorem insertAll_holds_self_iff {values : List α} (distinct : values.Nodup) :
    (∀ value ∈ values, ∃ k, insertAll key (fun _ => none) values k = some value) ↔
      (values.map key).Nodup := by
  constructor
  · intro holds
    apply nodup_map_of_splits
    intro before value after split
    have member : value ∈ values := by
      rw [split]
      exact List.mem_append_right _ List.mem_cons_self
    obtain ⟨k, stands⟩ := holds value member
    obtain ⟨before', after', split', keyed, absent⟩ := insertAll_eq_some_iff.mp stands
    rw [split] at split' distinct
    have apart := List.nodup_cons.mp (List.nodup_middle.mp distinct)
    rw [List.mem_append, not_or] at apart
    have same := (List.append_cons_inj_of_notMem apart.1.1 apart.1.2).mp split'
    rw [same.2.2, keyed]
    exact absent
  · intro unique value member
    obtain ⟨before, after, split⟩ := List.append_of_mem member
    refine ⟨key value, insertAll_eq_some_iff.mpr ⟨before, after, split, rfl, ?_⟩⟩
    rw [split, List.map_append, List.map_cons] at unique
    have apart := List.nodup_cons.mp (List.nodup_middle.mp unique)
    exact fun member => apart.1 (List.mem_append_right _ member)

/-- Values put in place of the ones that they stand for: the map holds those exactly if it
was given them, and no two keys are the same. -/
theorem insertAll_holds_iff {ι : Type} {identity : α → ι} {given values : List α}
    (same : given.map identity = values.map identity) (distinct : (values.map identity).Nodup) :
    (∀ value ∈ values, ∃ k, insertAll key (fun _ => none) given k = some value) ↔
      given = values ∧ (values.map key).Nodup := by
  have values_distinct : values.Nodup := List.Nodup.of_map identity distinct
  constructor
  · intro holds
    have equal : given = values := by
      have length : given.length = values.length := by
        rw [← List.length_map identity, same, List.length_map]
      have identities (index : Nat) (left : index < given.length) (right : index < values.length) :
          identity given[index] = identity values[index] := by
        have both := congrArg (fun list => list[index]?) same
        simpa [left, right] using both
      apply List.ext_getElem length
      intro index left right
      obtain ⟨k, stands⟩ := holds values[index] (List.getElem_mem right)
      obtain ⟨other, within, found⟩ := List.mem_iff_getElem.mp (mem_of_insertAll stands)
      have within' : other < values.length := by
        rw [← length]
        exact within
      have identified : identity values[other] = identity values[index] := by
        rw [← identities other within within', found]
      have alike : values[other] = values[index] :=
        List.inj_on_of_nodup_map distinct (List.getElem_mem within') (List.getElem_mem right)
          identified
      have position : other = index := values_distinct.getElem_inj_iff.mp alike
      subst position
      exact found
    subst equal
    exact ⟨rfl, (insertAll_holds_self_iff values_distinct).mp holds⟩
  · rintro ⟨rfl, unique⟩
    exact (insertAll_holds_self_iff values_distinct).mpr unique

end LastWins

end StdPrograms.Foundation

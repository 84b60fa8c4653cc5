import Mathlib.Data.List.Basic

/-!
Contract: bisections of an interval of indices.

Owns the index in the middle, what is read at a signed index, the intervals that come up on the
way to an index, and when the comparisons in their middles lead there.

Does not own any array.
-/

namespace StdPrograms.Foundation

/-- There is no element at a negative index. -/
def entry {α : Type} (elements : List α) (i : Int) : Option α :=
  if i < 0 then none else elements[i.toNat]?

section

variable {α : Type} {elements : List α} {i : Int}

theorem entry_natCast (elements : List α) (i : Nat) : entry elements i = elements[i]? := by
  rw [entry, if_neg (by omega), Int.toNat_natCast]

theorem exists_entry (above : 0 ≤ i) (below : i < elements.length) :
    ∃ value, entry elements i = some value := by
  refine ⟨elements[i.toNat], ?_⟩
  rw [entry, if_neg (by omega), List.getElem?_eq_getElem]

theorem inside_of_entry {value : α} (found : entry elements i = some value) :
    0 ≤ i ∧ i < elements.length := by
  unfold entry at found
  split at found
  next => cases found
  next nonneg =>
    obtain ⟨less, -⟩ := List.getElem?_eq_some_iff.mp found
    omega

theorem mem_of_entry {value : α} (found : entry elements i = some value) : value ∈ elements := by
  unfold entry at found
  split at found
  next => cases found
  next => exact List.mem_of_getElem? found

end

def middle (low high : Int) : Int := low + (high - low) / 2

theorem le_middle {low high : Int} (nonempty : low ≤ high) :
    low ≤ middle low high ∧ middle low high ≤ high := by
  unfold middle
  omega

theorem middle_lt {low high : Int} (more : low < high) :
    low ≤ middle low high ∧ middle low high < high := by
  unfold middle
  omega

/-- The second interval comes up when the first one is bisected on the way to the index. -/
inductive Window (index : Int) : Int → Int → Int → Int → Prop where
  | here (low high : Int) : Window index low high low high
  | right {low high left right : Int} (more : low < high) (less : middle low high < index)
      (rest : Window index (middle low high + 1) high left right) :
      Window index low high left right
  | left {low high left right : Int} (more : low < high) (less : index < middle low high)
      (rest : Window index low (middle low high - 1) left right) :
      Window index low high left right

section

variable {index low high left right : Int}

theorem Window.bounds (window : Window index low high left right) : low ≤ left ∧ right ≤ high := by
  induction window with
  | here => exact ⟨Int.le_refl _, Int.le_refl _⟩
  | right more _ _ inductionHypothesis =>
      have inside := middle_lt more
      omega
  | left more _ _ inductionHypothesis =>
      have inside := middle_lt more
      omega

theorem window_iff_of_not_lt (single : ¬low < high) :
    Window index low high left right ↔ left = low ∧ right = high := by
  constructor
  · intro window
    cases window with
    | here => exact ⟨rfl, rfl⟩
    | right more => exact absurd more single
    | left more => exact absurd more single
  · rintro ⟨rfl, rfl⟩
    exact .here left right

theorem window_iff_of_eq (found : middle low high = index) :
    Window index low high left right ↔ left = low ∧ right = high := by
  constructor
  · intro window
    cases window with
    | here => exact ⟨rfl, rfl⟩
    | right _ less => omega
    | left _ less => omega
  · rintro ⟨rfl, rfl⟩
    exact .here left right

theorem window_iff_of_lt (more : low < high) (less : middle low high < index) :
    Window index low high left right ↔
      (left = low ∧ right = high) ∨ Window index (middle low high + 1) high left right := by
  constructor
  · intro window
    cases window with
    | here => exact .inl ⟨rfl, rfl⟩
    | right _ _ rest => exact .inr rest
    | left _ greater => omega
  · rintro (⟨rfl, rfl⟩ | rest)
    · exact .here left right
    · exact .right more less rest

theorem window_iff_of_gt (more : low < high) (greater : index < middle low high) :
    Window index low high left right ↔
      (left = low ∧ right = high) ∨ Window index low (middle low high - 1) left right := by
  constructor
  · intro window
    cases window with
    | here => exact .inl ⟨rfl, rfl⟩
    | right _ less => omega
    | left _ _ rest => exact .inr rest
  · rintro (⟨rfl, rfl⟩ | rest)
    · exact .here left right
    · exact .left more greater rest

/-- In each middle on the way the comparison tells on which side the index is. -/
def Leads (less : Int → Prop) (index low high : Int) : Prop :=
  ∀ left right, Window index low high left right → left < right → middle left right ≠ index →
    (less (middle left right) ↔ middle left right < index)

variable {less : Int → Prop}

theorem leads_of_not_lt (single : ¬low < high) : Leads less index low high := by
  intro left right window more
  obtain ⟨rfl, rfl⟩ := (window_iff_of_not_lt single).mp window
  exact absurd more single

theorem leads_of_eq (found : middle low high = index) : Leads less index low high := by
  intro left right window _ different
  obtain ⟨rfl, rfl⟩ := (window_iff_of_eq found).mp window
  exact absurd found different

theorem leads_iff_of_lt (more : low < high) (before : middle low high < index) :
    Leads less index low high ↔
      less (middle low high) ∧ Leads less index (middle low high + 1) high := by
  constructor
  · intro leads
    refine ⟨(leads low high (.here low high) more (by omega)).mpr before, ?_⟩
    exact fun left right window => leads left right (.right more before window)
  · rintro ⟨here, rest⟩ left right window
    rcases (window_iff_of_lt more before).mp window with ⟨rfl, rfl⟩ | later
    · exact fun _ _ => iff_of_true here before
    · exact rest left right later

theorem leads_iff_of_gt (more : low < high) (beyond : index < middle low high) :
    Leads less index low high ↔
      ¬less (middle low high) ∧ Leads less index low (middle low high - 1) := by
  constructor
  · intro leads
    refine ⟨fun here => ?_, ?_⟩
    · have before := (leads low high (.here low high) more (by omega)).mp here
      omega
    · exact fun left right window => leads left right (.left more beyond window)
  · rintro ⟨here, rest⟩ left right window
    rcases (window_iff_of_gt more beyond).mp window with ⟨rfl, rfl⟩ | later
    · exact fun _ _ => iff_of_false here (by omega)
    · exact rest left right later

/-- A comparison that tells the side everywhere leads to the index. -/
theorem leads_of_forall
    (sides : ∀ i, low ≤ i → i ≤ high → i ≠ index → (less i ↔ i < index)) :
    Leads less index low high := by
  intro left right window more different
  have bounds := window.bounds
  have inside := middle_lt more
  exact sides _ (by omega) (by omega) different

end

end StdPrograms.Foundation

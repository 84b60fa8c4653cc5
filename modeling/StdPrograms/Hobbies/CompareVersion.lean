import StdPrograms.Foundation.PaddedLists
import StdPrograms.Foundation.Words
import StdPrograms.Ouou.Util.Functions

/-!
Contract: three comparisons of versions.

Owns `compareVersion` and `compareVersion2` of `solution_165.cpp`, `compareVersion` of
`solution_165.py`, and that all three compare the numbers of two versions.

The numbers and the positions are of any size. Does not own strings that are no versions.
-/

namespace StdPrograms.Hobbies

open StdPrograms.Foundation

namespace CompareVersion

/-! ### With a search -/

/-- `isspace` of ASCII. -/
def isspace (char : Char) : Bool :=
  char = ' ' || (9 ≤ char.toNat && char.toNat ≤ 13)

/-- The number at the front; none without a digit. -/
def leadingNumber (text : List Char) : Option Int :=
  let digits := text.takeWhile Char.isDigit
  if digits = [] then none else some (Nat.ofDigitChars 10 digits 0)

def stoi (text : List Char) : Option Int :=
  let text := text.dropWhile isspace
  if text.head? = some '-' then (leadingNumber text.tail).map (-·)
  else if text.head? = some '+' then leadingNumber text.tail
  else leadingNumber text

/-- `text.find(char, pos)`. -/
def find (text : List Char) (char : Char) (pos : Nat) : Option Nat :=
  ((text.drop pos).idxOf? char).map (pos + ·)

/-- `string(text, pos, count)`. -/
def substring (text : List Char) (pos count : Nat) : Option (List Char) :=
  if pos ≤ text.length then some ((text.drop pos).take count) else none

/-- The number from `op` on, and the next `op`; `npos` is none. -/
def field (version : List Char) : Option Nat → Option (Int × Option Nat)
  | none => some (0, none)
  | some op =>
      match find version '.' (op + 1) with
      | some p => do
          let v ← stoi (← substring version op (p - op + 1))
          return (v, some (p + 1))
      | none => do
          let v ← stoi (← substring version op version.length)
          return (v, none)

def compareLoop (version1 version2 : List Char) : Nat → Option Nat → Option Nat → Option Int
  | 0, _, _ => none
  | fuel + 1, op1, op2 =>
      if op1.any (· < version1.length) ∨ op2.any (· < version2.length) then do
        let (v1, op1) ← field version1 op1
        let (v2, op2) ← field version2 op2
        if v1 > v2 then return 1
        else if v1 < v2 then return -1
        else compareLoop version1 version2 fuel op1 op2
      else some 0

def compareVersion (fuel : Nat) (version1 version2 : List Char) : Option Int :=
  compareLoop version1 version2 fuel (some 0) (some 0)

/-! ### With two positions -/

/-- The inner loop: the number at a position, behind what has been read of it. -/
def scan (version : List Char) (v : Int) (i : Nat) : Int × Nat :=
  if inside : i < version.length then
    if version[i].isDigit then scan version (v * 10 + (version[i].toNat - '0'.toNat : Nat)) (i + 1)
    else (v, i)
  else (v, i)
termination_by version.length - i

def compareLoop2 (version1 version2 : List Char) : Nat → Nat → Nat → Option Int
  | 0, _, _ => none
  | fuel + 1, i, j =>
      if i < version1.length ∨ j < version2.length then
        let (v1, i) := scan version1 0 i
        let (v2, j) := scan version2 0 j
        if v1 < v2 then some (-1)
        else if v1 > v2 then some 1
        else compareLoop2 version1 version2 fuel (i + 1) (j + 1)
      else some 0

def compareVersion2 (fuel : Nat) (version1 version2 : List Char) : Option Int :=
  compareLoop2 version1 version2 fuel 0 0

/-! ### With lists -/

/-- `compareVersion` of `solution_165.py`. -/
def Python.compareVersion (version1 version2 : List Char) : Option Int := do
  let v1 ← (version1.splitOn '.').mapM Ouou.int
  let v2 ← (version2.splitOn '.').mapM Ouou.int
  let (v1, v2) :=
    if v1.length < v2.length then (v1 ++ List.replicate (v2.length - v1.length) 0, v2)
    else if v2.length < v1.length then (v1, v2 ++ List.replicate (v1.length - v2.length) 0)
    else (v1, v2)
  if v1 > v2 then return 1
  else if v1 < v2 then return -1
  else return 0

/-! ### Versions -/

structure IsGroup (group : List Char) : Prop where
  nonempty : group ≠ []
  digits : ∀ char ∈ group, char.isDigit = true

/-- At least one group of digits, and a dot in front of each other group. -/
structure IsVersion (version : List Char) (groups : List (List Char)) : Prop where
  nonempty : groups ≠ []
  areGroups : ∀ group ∈ groups, IsGroup group
  written : version = joined '.' groups

def number (group : List Char) : Int :=
  (Nat.ofDigitChars 10 group 0 : Nat)

variable {group rest version : List Char} {groups : List (List Char)}

theorem isGroup_iff : IsGroup group ↔ group ≠ [] ∧ ∀ char ∈ group, char.isDigit = true :=
  ⟨fun isGroup => ⟨isGroup.nonempty, isGroup.digits⟩, fun both => ⟨both.1, both.2⟩⟩

theorem IsGroup.notDigit (isGroup : IsGroup group) {char : Char} (other : char.isDigit = false) :
    char ∉ group := by
  intro member
  rw [isGroup.digits char member] at other
  cases other

theorem IsGroup.isWord (isGroup : IsGroup group) : IsWord (· == '.') group := by
  refine ⟨isGroup.nonempty, fun char member => ?_⟩
  rw [beq_eq_false_iff_ne]
  rintro rfl
  exact isGroup.notDigit rfl member

theorem takeWhile_group (isGroup : IsGroup group)
    (ended : ∀ char, rest.head? = some char → char.isDigit = false) :
    (group ++ rest).takeWhile Char.isDigit = group := by
  rw [List.takeWhile_append_of_pos isGroup.digits]
  cases rest with
  | nil => simp
  | cons char later =>
      rw [List.takeWhile_cons_of_neg (by simp [ended char rfl]), List.append_nil]

theorem not_isspace_of_isDigit {char : Char} (digit : char.isDigit = true) :
    isspace char = false := by
  rw [Char.isDigit_iff_toNat] at digit
  have lower : 48 ≤ char.toNat := digit.1
  have notBlank : char ≠ ' ' := by
    rintro rfl
    exact absurd lower (by decide)
  have notLow : ¬char.toNat ≤ 13 := by omega
  simp [isspace, notBlank, notLow]

theorem stoi_group (isGroup : IsGroup group)
    (ended : ∀ char, rest.head? = some char → char.isDigit = false) :
    stoi (group ++ rest) = some (number group) := by
  obtain ⟨first, others, rfl⟩ := List.exists_cons_of_ne_nil isGroup.nonempty
  have digit := isGroup.digits first List.mem_cons_self
  have noSign (sign : Char) (other : sign.isDigit = false) :
      (first :: others ++ rest).head? ≠ some sign := by
    rintro ⟨⟩
    rw [digit] at other
    cases other
  have front : (first :: others ++ rest).dropWhile isspace = first :: others ++ rest :=
    dropWhile_eq_self fun item isHead => by
      obtain rfl := Option.some.inj isHead
      exact not_isspace_of_isDigit digit
  rw [stoi, front, if_neg (noSign '-' rfl), if_neg (noSign '+' rfl), leadingNumber,
    takeWhile_group isGroup ended]
  rfl

/-! ### One round -/

/-- The groups are what is behind the position. -/
structure Ahead (version : List Char) (at_ : Nat) (groups : List (List Char)) : Prop where
  areGroups : ∀ group ∈ groups, IsGroup group
  written : version.drop at_ = joined '.' groups

theorem ended_of_groups (groups : List (List Char)) (char : Char)
    (isHead : (groups.flatMap ('.' :: ·)).head? = some char) : char.isDigit = false := by
  cases groups with
  | nil => cases isHead
  | cons group others =>
      obtain rfl : '.' = char := Option.some.inj isHead
      rfl

theorem Ahead.front {at_ : Nat} (ahead : Ahead version at_ (group :: groups)) :
    version.drop at_ = group ++ groups.flatMap ('.' :: ·) := by
  rw [ahead.written, joined_cons (ahead.areGroups group List.mem_cons_self).nonempty]

/-- Behind the dot the other groups follow; there may be no dot behind the last one. -/
theorem Ahead.tail {at_ : Nat} (ahead : Ahead version at_ (group :: groups)) :
    Ahead version (at_ + group.length + 1) groups := by
  refine ⟨fun other member => ahead.areGroups other (List.mem_cons_of_mem group member), ?_⟩
  rw [Nat.add_assoc, ← List.drop_drop, ahead.front, ← List.drop_drop, List.drop_left]
  cases groups with
  | nil => rfl
  | cons next others =>
      have isGroup := ahead.areGroups next (by simp)
      rw [joined_cons isGroup.nonempty]
      rfl

theorem Ahead.lt_length {at_ : Nat} (ahead : Ahead version at_ groups) :
    at_ < version.length ↔ groups ≠ [] := by
  rw [← not_iff_not, Nat.not_lt, ← List.drop_eq_nil_iff, ahead.written, not_not]
  cases groups with
  | nil => exact iff_of_true rfl rfl
  | cons group others =>
      have nonempty := (ahead.areGroups group List.mem_cons_self).nonempty
      rw [joined_cons nonempty]
      simp [nonempty]

/-- The text from the position on, or the end mark where nothing is left. -/
def AtField (version : List Char) : Option Nat → List (List Char) → Prop
  | none, groups => groups = []
  | some op, groups => groups ≠ [] ∧ Ahead version op groups

theorem AtField.any_lt {op : Option Nat} (atField : AtField version op groups) :
    op.any (· < version.length) = true ↔ groups ≠ [] := by
  cases op with
  | none =>
      obtain rfl : groups = [] := atField
      simp
  | some op => simpa using atField.2.lt_length

/-- The next dot is the one in front of the next group. -/
theorem find_spec {op : Nat} (isGroup : IsGroup group)
    (front : version.drop op = group ++ groups.flatMap ('.' :: ·)) :
    find version '.' (op + 1) = if groups = [] then none else some (op + group.length) := by
  obtain ⟨first, digits, rfl⟩ := List.exists_cons_of_ne_nil isGroup.nonempty
  have written : version.drop (op + 1) = digits ++ groups.flatMap ('.' :: ·) := by
    rw [← List.tail_drop, front]
    rfl
  have noDot : '.' ∉ digits := fun member =>
    isGroup.notDigit rfl (List.mem_cons_of_mem first member)
  have absent : digits.idxOf? '.' = none := List.idxOf?_eq_none_iff.mpr noDot
  rw [find, written, List.length_cons]
  cases groups with
  | nil => simp [noDot]
  | cons group others =>
      rw [List.idxOf?] at absent ⊢
      rw [List.findIdx?_append, absent]
      simp [List.findIdx?_cons, Nat.add_comm, Nat.add_left_comm]

theorem substring_spec {pos count : Nat} {text : List Char} (nonempty : text ≠ [])
    (written : version.drop pos = text) : substring version pos count = some (text.take count) := by
  have inside : pos < version.length := by
    by_contra outside
    exact nonempty (written.symm.trans (List.drop_eq_nil_of_le (Nat.le_of_not_lt outside)))
  rw [substring, if_pos inside.le, written]

theorem field_last {op : Nat} (isGroup : IsGroup group) (front : version.drop op = group) :
    field version (some op) = some (number group, none) := by
  have found := @find_spec group version [] op isGroup (by simpa using front)
  have read := @stoi_group group [] isGroup (ended_of_groups [])
  have whole : group.take version.length = group := by
    refine List.take_of_length_le ?_
    rw [← front, List.length_drop]
    exact Nat.sub_le _ op
  rw [List.append_nil] at read
  rw [field, found, if_pos rfl]
  dsimp only
  rw [substring_spec isGroup.nonempty front, whole]
  dsimp only [Option.bind_eq_bind, Option.bind_some]
  rw [read]
  rfl

/-- What is cut out ends with the dot, which is not read. -/
theorem field_next {op : Nat} {next : List Char} (isGroup : IsGroup group)
    (front : version.drop op = group ++ (next :: groups).flatMap ('.' :: ·)) :
    field version (some op) = some (number group, some (op + group.length + 1)) := by
  have read := @stoi_group group ['.'] isGroup (by simp)
  have cut : (group ++ (next :: groups).flatMap ('.' :: ·)).take (group.length + 1) =
      group ++ ['.'] := by
    rw [List.take_length_add_append]
    rfl
  rw [field, find_spec isGroup front, if_neg (List.cons_ne_nil _ _)]
  dsimp only
  rw [substring_spec (by simp [isGroup.nonempty]) front, Nat.add_sub_cancel_left, cut]
  dsimp only [Option.bind_eq_bind, Option.bind_some]
  rw [read]
  rfl

/-- The number of the first group, or zero. -/
theorem field_spec {op : Option Nat} (atField : AtField version op groups) :
    ∃ next, field version op = some ((groups.map number).headD 0, next) ∧
      AtField version next groups.tail := by
  cases op with
  | none =>
      obtain rfl : groups = [] := atField
      exact ⟨none, rfl, rfl⟩
  | some op =>
      obtain ⟨nonempty, ahead⟩ := atField
      obtain ⟨group, others, rfl⟩ := List.exists_cons_of_ne_nil nonempty
      have isGroup := ahead.areGroups group List.mem_cons_self
      have front := ahead.front
      cases others with
      | nil =>
          rw [List.flatMap_nil, List.append_nil] at front
          exact ⟨none, field_last isGroup front, rfl⟩
      | cons next more =>
          exact ⟨some (op + group.length + 1), field_next isGroup front, List.cons_ne_nil _ _,
            ahead.tail⟩

theorem scan_group {text : List Char} (digits : ∀ char ∈ text, char.isDigit = true)
    (ended : ∀ char, rest.head? = some char → char.isDigit = false) {at_ : Nat}
    (written : version.drop at_ = text ++ rest) (value : Nat) :
    scan version value at_ =
      (((Nat.ofDigitChars 10 text value : Nat) : Int), at_ + text.length) := by
  induction text generalizing at_ value with
  | nil =>
      rw [scan]
      split
      next inside =>
        rw [List.drop_eq_getElem_cons inside, List.nil_append] at written
        rw [if_neg (by simp [ended version[at_] (by rw [← written]; rfl)])]
        rfl
      next outside => rfl
  | cons char others inductionHypothesis =>
      have inside : at_ < version.length := by
        by_contra outside
        rw [List.drop_eq_nil_of_le (Nat.le_of_not_lt outside)] at written
        cases written
      rw [List.drop_eq_getElem_cons inside] at written
      obtain ⟨here, later⟩ := List.cons.inj written
      have digit := digits char List.mem_cons_self
      rw [scan, dif_pos inside, here, if_pos digit, Nat.ofDigitChars_cons, List.length_cons,
        Nat.mul_comm 10, Nat.add_comm others.length, ← Nat.add_assoc]
      exact inductionHypothesis
        (fun other member => digits other (List.mem_cons_of_mem char member)) later
        (value * 10 + (char.toNat - '0'.toNat))

theorem scan_spec {at_ : Nat} (ahead : Ahead version at_ groups) :
    ∃ next, scan version 0 at_ = ((groups.map number).headD 0, next) ∧
      Ahead version (next + 1) groups.tail := by
  cases groups with
  | nil =>
      have outside : ¬at_ < version.length := by
        rw [ahead.lt_length]
        simp
      refine ⟨at_, ?_, nofun, ?_⟩
      · rw [scan, dif_neg outside]
        rfl
      · exact List.drop_eq_nil_of_le (by omega)
  | cons group others =>
      refine ⟨at_ + group.length, ?_, ahead.tail⟩
      exact scan_group (ahead.areGroups group List.mem_cons_self).digits (ended_of_groups others)
        ahead.front 0

/-! ### The three comparisons -/

variable {version1 version2 : List Char} {groups1 groups2 : List (List Char)}

theorem compareLoop_spec {op1 op2 : Option Nat} (first : AtField version1 op1 groups1)
    (second : AtField version2 op2 groups2) {fuel : Nat}
    (enough : max groups1.length groups2.length < fuel) :
    compareLoop version1 version2 fuel op1 op2 =
      some (paddedThreeWay 0 (groups1.map number) (groups2.map number)) := by
  refine @loop_eq_paddedThreeWay Int _ 0 _ _ _ _ (compareLoop version1 version2)
    (fun op numbers => ∃ groups, numbers = groups.map number ∧ AtField version1 op groups)
    (fun op numbers => ∃ groups, numbers = groups.map number ∧ AtField version2 op groups)
    ?_ ?_ _ _ ⟨groups1, rfl, first⟩ ⟨groups2, rfl, second⟩ fuel (by simpa using enough)
  · rintro op1 op2 ⟨groups1, none1, first⟩ ⟨groups2, none2, second⟩ fuel
    obtain rfl := List.map_eq_nil_iff.mp none1.symm
    obtain rfl := List.map_eq_nil_iff.mp none2.symm
    rw [compareLoop, if_neg (by simp [first.any_lt, second.any_lt])]
  · rintro op1 op2 _ _ ⟨groups1, rfl, first⟩ ⟨groups2, rfl, second⟩ nonempty
    obtain ⟨next1, read1, atNext1⟩ := field_spec first
    obtain ⟨next2, read2, atNext2⟩ := field_spec second
    refine ⟨next1, next2, ⟨_, List.map_tail.symm, atNext1⟩,
      ⟨_, List.map_tail.symm, atNext2⟩, fun fuel => ?_⟩
    have running := nonempty.imp (fun some1 => first.any_lt.mpr (some1 ∘ List.map_eq_nil_iff.mpr))
      fun some2 => second.any_lt.mpr (some2 ∘ List.map_eq_nil_iff.mpr)
    rw [compareLoop, if_pos running, read1, read2]
    rfl

theorem compareLoop2_spec {i j : Nat} (first : Ahead version1 i groups1)
    (second : Ahead version2 j groups2) {fuel : Nat}
    (enough : max groups1.length groups2.length < fuel) :
    compareLoop2 version1 version2 fuel i j =
      some (paddedThreeWay 0 (groups1.map number) (groups2.map number)) := by
  refine @loop_eq_paddedThreeWay Int _ 0 _ _ _ _ (compareLoop2 version1 version2)
    (fun i numbers => ∃ groups, numbers = groups.map number ∧ Ahead version1 i groups)
    (fun j numbers => ∃ groups, numbers = groups.map number ∧ Ahead version2 j groups)
    ?_ ?_ _ _ ⟨groups1, rfl, first⟩ ⟨groups2, rfl, second⟩ fuel (by simpa using enough)
  · rintro i j ⟨groups1, none1, first⟩ ⟨groups2, none2, second⟩ fuel
    obtain rfl := List.map_eq_nil_iff.mp none1.symm
    obtain rfl := List.map_eq_nil_iff.mp none2.symm
    rw [compareLoop2, if_neg (by simp [first.lt_length, second.lt_length])]
  · rintro i j _ _ ⟨groups1, rfl, first⟩ ⟨groups2, rfl, second⟩ nonempty
    obtain ⟨next1, read1, ahead1⟩ := scan_spec first
    obtain ⟨next2, read2, ahead2⟩ := scan_spec second
    refine ⟨next1 + 1, next2 + 1, ⟨_, List.map_tail.symm, ahead1⟩,
      ⟨_, List.map_tail.symm, ahead2⟩, fun fuel => ?_⟩
    have running := nonempty.imp
      (fun some1 => first.lt_length.mpr (some1 ∘ List.map_eq_nil_iff.mpr))
      fun some2 => second.lt_length.mpr (some2 ∘ List.map_eq_nil_iff.mpr)
    rw [compareLoop2, if_pos running, read1, read2]
    dsimp only
    rcases lt_trichotomy ((groups1.map number).headD 0) ((groups2.map number).headD 0) with
      less | same | greater
    · rw [if_pos less, if_neg less.not_gt, if_pos less]
    · rw [same, if_neg (lt_irrefl _), if_neg (lt_irrefl _), if_neg (lt_irrefl _),
        if_neg (lt_irrefl _)]
    · rw [if_neg greater.not_gt, if_pos greater, if_pos greater]

theorem int_group (isGroup : IsGroup group) : Ouou.int group = some (number group) := by
  have noSign (sign : Char) (other : sign.isDigit = false) : group.head? ≠ some sign :=
    fun isHead => isGroup.notDigit other (List.mem_of_head? isHead)
  rw [Ouou.int, if_neg (noSign '-' rfl), if_neg (noSign '+' rfl),
    Ouou.intDigits_eq group true 0 isGroup.digits fun _ => isGroup.nonempty]
  rfl

theorem mapM_int_groups (areGroups : ∀ group ∈ groups, IsGroup group) :
    groups.mapM Ouou.int = some (groups.map number) := by
  induction groups with
  | nil => rfl
  | cons group others inductionHypothesis =>
      obtain ⟨isGroup, otherGroups⟩ := List.forall_mem_cons.mp areGroups
      rw [List.mapM_cons, int_group isGroup, inductionHypothesis otherGroups]
      rfl

theorem IsVersion.splitOn (isVersion : IsVersion version groups) :
    version.splitOn '.' = groups := by
  obtain ⟨group, others, rfl⟩ := List.exists_cons_of_ne_nil isVersion.nonempty
  obtain ⟨isGroup, otherGroups⟩ := List.forall_mem_cons.mp isVersion.areGroups
  rw [isVersion.written, joined_cons isGroup.nonempty, List.splitOn_eq_splitOnP]
  exact words_behind group isGroup.isWord.unseparated (beq_self_eq_true '.')
    fun other member => (otherGroups other member).isWord

theorem IsVersion.ahead (isVersion : IsVersion version groups) : Ahead version 0 groups :=
  ⟨isVersion.areGroups, isVersion.written⟩

theorem IsVersion.atField (isVersion : IsVersion version groups) :
    AtField version (some 0) groups :=
  ⟨isVersion.nonempty, isVersion.ahead⟩

/-- The shorter list is filled up. -/
theorem extended (v1 v2 : List Int) :
    (if v1.length < v2.length then (v1 ++ List.replicate (v2.length - v1.length) 0, v2)
      else if v2.length < v1.length then (v1, v2 ++ List.replicate (v1.length - v2.length) 0)
      else (v1, v2)) = (v1.rightpad v2.length 0, v2.rightpad v1.length 0) := by
  rw [List.rightpad, List.rightpad]
  split
  next shorter => rw [Nat.sub_eq_zero_of_le shorter.le, List.replicate_zero, List.append_nil]
  next notShorter =>
    rw [Nat.sub_eq_zero_of_le (Nat.le_of_not_lt notShorter), List.replicate_zero, List.append_nil]
    split
    next longer => rfl
    next notLonger =>
      rw [Nat.sub_eq_zero_of_le (Nat.le_of_not_lt notLonger), List.replicate_zero,
        List.append_nil]

theorem python_spec (first : IsVersion version1 groups1) (second : IsVersion version2 groups2) :
    Python.compareVersion version1 version2 =
      some (paddedThreeWay 0 (groups1.map number) (groups2.map number)) := by
  rw [Python.compareVersion, first.splitOn, second.splitOn, mapM_int_groups first.areGroups,
    mapM_int_groups second.areGroups]
  dsimp only [Option.bind_eq_bind, Option.bind_some]
  rw [extended, paddedThreeWay, threeWay]
  dsimp only
  split
  next greater => rfl
  next notGreater =>
    split
    next less => rfl
    next notLess => rfl

/-- The sign of the comparison in which missing numbers are zero. -/
theorem compareVersion_agree (first : IsVersion version1 groups1)
    (second : IsVersion version2 groups2) {fuel : Nat}
    (enough : max groups1.length groups2.length < fuel) :
    compareVersion fuel version1 version2 =
        some (paddedThreeWay 0 (groups1.map number) (groups2.map number)) ∧
      compareVersion2 fuel version1 version2 =
        some (paddedThreeWay 0 (groups1.map number) (groups2.map number)) ∧
      Python.compareVersion version1 version2 =
        some (paddedThreeWay 0 (groups1.map number) (groups2.map number)) :=
  ⟨compareLoop_spec first.atField second.atField enough,
    compareLoop2_spec first.ahead second.ahead enough, python_spec first second⟩

theorem compareVersion_agree_tenth :
    compareVersion 4 "1.010".toList "1.9.0".toList = some 1 ∧
      compareVersion2 4 "1.010".toList "1.9.0".toList = some 1 ∧
      Python.compareVersion "1.010".toList "1.9.0".toList = some 1 :=
  @compareVersion_agree _ _ ["1".toList, "010".toList] ["1".toList, "9".toList, "0".toList]
    ⟨by simp, by simp [isGroup_iff], rfl⟩ ⟨by simp, by simp [isGroup_iff], rfl⟩ 4 (by decide)

end CompareVersion

end StdPrograms.Hobbies

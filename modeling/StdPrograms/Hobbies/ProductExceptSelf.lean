import Mathlib.Algebra.BigOperators.Group.List.Basic
import StdPrograms.Foundation.CountedLoop

/-!
Contract: the products of all elements but one.

Owns the three versions of `productExceptSelf` in `solution_238.cpp`: with two arrays of products,
with one, and with one that a single loop fills from both ends; and that all return the same.

Does not own an array whose partial products leave the type.
-/

namespace StdPrograms.Hobbies

open StdPrograms.Foundation

namespace ProductExceptSelf

section Code

/-- `array[i] = left * right` -/
def assign (array : List Int) (i : Nat) (left right : Int) : Option (List Int) := do
  let product ← signed 32 (left * right)
  if i < array.length then return array.set i product else none

/-- `array[i] *= factor` -/
def scale (array : List Int) (i : Nat) (factor : Int) : Option (List Int) := do
  assign array i (← array[i]?) factor

def ascendRound (nums asscend : List Int) (i : Nat) : Option (List Int) := do
  assign asscend i (← asscend[i - 1]?) (← nums[i - 1]?)

/-- The first loop of the first two versions. -/
def ascendLoop (nums : List Int) : Option (List Int) :=
  signedLoop 32 1 (nums.length - 1) (ascendRound nums) (List.replicate nums.length 1)

def descendRound (nums descend : List Int) (round : Nat) : Option (List Int) :=
  let i := nums.length - 2 - round
  do assign descend i (← descend[i + 1]?) (← nums[i + 1]?)

def descendLoop (nums : List Int) : Option (List Int) :=
  forLoop 0 (nums.length - 1) (descendRound nums) (List.replicate nums.length 1)

def resultRound (asscend descend result : List Int) (i : Nat) : Option (List Int) := do
  let product ← signed 32 ((← asscend[i]?) * (← descend[i]?))
  return result ++ [product]

def productExceptSelf (nums : List Int) : Option (List Int) :=
  if nums.isEmpty then some []
  else do
    let asscend ← ascendLoop nums
    let descend ← descendLoop nums
    signedLoop 32 0 nums.length (resultRound asscend descend) []

/-- The second loop of the second version, with the product of the elements behind. -/
def productRound (nums : List Int) (state : List Int × Int) (round : Nat) :
    Option (List Int × Int) :=
  let (result, product) := state
  let i := nums.length - 1 - round
  do
    let result ← scale result i product
    let product ← signed 32 (product * (← nums[i]?))
    return (result, product)

def productExceptSelf2 (nums : List Int) : Option (List Int) := do
  let result ← ascendLoop nums
  let (result, _) ← forLoop 0 nums.length (productRound nums) (result, 1)
  return result

/-- The loop of the third version, with `ltor` and `rtol`. -/
def bothRound (nums : List Int) (state : List Int × Int × Int) (i : Nat) :
    Option (List Int × Int × Int) :=
  let (result, ltor, rtol) := state
  let other := nums.length - i - 1
  do
    let result ← scale result i ltor
    let ltor ← signed 32 (ltor * (← nums[i]?))
    let result ← scale result other rtol
    let rtol ← signed 32 (rtol * (← nums[nums.length - 1 - i]?))
    return (result, ltor, rtol)

def productExceptSelf3 (nums : List Int) : Option (List Int) := do
  let (result, _, _) ←
    signedLoop 32 0 nums.length (bothRound nums) (List.replicate nums.length 1, 1, 1)
  return result

end Code

/-! ### Arrays by their entries -/

/-- The array of a length with given entries. -/
def tabulate (n : Nat) (entry : Nat → Int) : List Int :=
  (List.range n).map entry

section

variable {n i : Nat} {entry other : Nat → Int}

theorem tabulate_congr (same : ∀ j < n, entry j = other j) : tabulate n entry = tabulate n other :=
  List.map_congr_left fun j member => same j (List.mem_range.mp member)

theorem tabulate_const (n : Nat) (value : Int) :
    List.replicate n value = tabulate n fun _ => value := by
  rw [tabulate, List.map_const', List.length_range]

theorem getElem?_tabulate (inside : i < n) : (tabulate n entry)[i]? = some (entry i) := by
  simp [tabulate, inside]

/-- One entry is replaced by a product. -/
theorem assign_tabulate {left right : Int} (inside : i < n) (held : InSigned 32 (left * right))
    (here : other i = left * right) (elsewhere : ∀ j < n, j ≠ i → other j = entry j) :
    assign (tabulate n entry) i left right = some (tabulate n other) := by
  have size : i < (tabulate n entry).length := by simpa [tabulate] using inside
  rw [assign, signed_of_inSigned held]
  dsimp only [Option.bind_eq_bind, Option.bind_some]
  rw [if_pos size]
  congr 1
  apply List.ext_getElem?
  intro j
  by_cases below : j < n
  · rw [getElem?_tabulate below, List.getElem?_set]
    split
    next same =>
      subst same
      simp [here]
    next different => rw [getElem?_tabulate below, elsewhere j below (Ne.symm different)]
  · rw [List.getElem?_eq_none (by simp [tabulate]; omega),
      List.getElem?_eq_none (by simp [tabulate]; omega)]

end

/-! ### Products -/

/-- The product of the elements before an index. -/
def before (nums : List Int) (i : Nat) : Int :=
  (nums.take i).prod

/-- The product of the elements from an index on. -/
def behind (nums : List Int) (i : Nat) : Int :=
  (nums.drop i).prod

/-- The products of all elements but one. -/
def allExcept (nums : List Int) : List Int :=
  (List.range nums.length).map fun i => (nums.eraseIdx i).prod

/-- The products from both ends are of the type, and so are the results. -/
structure Fits (nums : List Int) : Prop where
  length : InSigned 32 nums.length
  before : ∀ i ≤ nums.length, InSigned 32 (before nums i)
  behind : ∀ i ≤ nums.length, InSigned 32 (behind nums i)
  result : ∀ i < nums.length, InSigned 32 (ProductExceptSelf.before nums i *
    ProductExceptSelf.behind nums (i + 1))

variable {nums : List Int}

theorem before_succ {i : Nat} {num : Int} (found : nums[i]? = some num) :
    before nums (i + 1) = before nums i * num := by
  obtain ⟨inside, rfl⟩ := List.getElem?_eq_some_iff.mp found
  exact List.prod_take_succ nums i inside

theorem behind_eq {i : Nat} {num : Int} (found : nums[i]? = some num) :
    behind nums i = behind nums (i + 1) * num := by
  obtain ⟨inside, rfl⟩ := List.getElem?_eq_some_iff.mp found
  rw [behind, behind, List.drop_eq_getElem_cons inside, List.prod_cons, Int.mul_comm]

theorem allExcept_eq (nums : List Int) :
    allExcept nums = tabulate nums.length fun i => before nums i * behind nums (i + 1) := by
  apply tabulate_congr
  intro i _
  rw [List.eraseIdx_eq_take_drop_succ, List.prod_append]
  rfl

theorem Fits.small (fits : Fits nums) : nums.length < 2 ^ 31 := by
  have below := fits.length.2
  omega

theorem behind_length (nums : List Int) : behind nums nums.length = 1 := by
  rw [behind, List.drop_length, List.prod_nil]

/-! ### Two arrays -/

/-- The first array after so many rounds. -/
def ascended (nums : List Int) (count : Nat) : List Int :=
  tabulate nums.length fun j => if j ≤ count then before nums j else 1

theorem ascendRound_eq (fits : Fits nums) {count : Nat} (below : count + 1 < nums.length) :
    ascendRound nums (ascended nums count) (1 + count) = some (ascended nums (count + 1)) := by
  have found : nums[count]? = some nums[count] := List.getElem?_eq_getElem (by omega)
  have next := before_succ found
  rw [ascendRound, ascended, Nat.add_sub_cancel_left, getElem?_tabulate (by omega), found,
    if_pos (Nat.le_refl count)]
  dsimp only [Option.bind_eq_bind, Option.bind_some]
  apply assign_tabulate (by omega)
  · rw [← next]
    exact fits.before _ (by omega)
  · rw [if_pos (by omega), Nat.add_comm, next]
  · intro j _ other
    exact if_congr (by omega) rfl rfl

theorem ascendLoop_eq (fits : Fits nums) :
    ascendLoop nums = some (tabulate nums.length (before nums)) := by
  have small := fits.small
  have first : List.replicate nums.length 1 = ascended nums 0 := by
    rw [tabulate_const]
    apply tabulate_congr
    intro j _
    split
    next start => simp [before, Nat.le_zero.mp start]
    next => rfl
  obtain ⟨final, returned, finalIs⟩ := @forLoop_spec _ (ascendRound nums) 1 (nums.length - 1) _
    (fun count asscend => asscend = ascended nums count) first
    (fun count below asscend asscendIs => by
      subst asscendIs
      exact ⟨_, ascendRound_eq fits (by omega), rfl⟩)
  rw [ascendLoop, signedLoop_eq (by omega), returned, finalIs]
  congr 1
  apply tabulate_congr
  intro j inside
  exact if_pos (by omega)

/-- The second array after so many rounds. -/
def descended (nums : List Int) (count : Nat) : List Int :=
  tabulate nums.length fun j => if nums.length ≤ j + 1 + count then behind nums (j + 1) else 1

theorem descendRound_eq (fits : Fits nums) {count : Nat} (below : count + 1 < nums.length) :
    descendRound nums (descended nums count) count = some (descended nums (count + 1)) := by
  obtain ⟨i, iIs⟩ : ∃ i, nums.length - 2 - count = i := ⟨_, rfl⟩
  have found : nums[i + 1]? = some nums[i + 1] := List.getElem?_eq_getElem (by omega)
  have next := behind_eq found
  rw [descendRound, descended, iIs, getElem?_tabulate (by omega), found, if_pos (by omega)]
  dsimp only [Option.bind_eq_bind, Option.bind_some]
  apply assign_tabulate (by omega)
  · rw [← next]
    exact fits.behind _ (by omega)
  · rw [if_pos (by omega), next]
  · intro j _ other
    exact if_congr (by omega) rfl rfl

theorem descendLoop_eq (fits : Fits nums) :
    descendLoop nums = some (tabulate nums.length fun i => behind nums (i + 1)) := by
  have first : List.replicate nums.length 1 = descended nums 0 := by
    rw [tabulate_const]
    apply tabulate_congr
    intro j inside
    split
    next last =>
      have lastIs : j + 1 = nums.length := by omega
      rw [lastIs, behind_length]
    next => rfl
  obtain ⟨final, returned, finalIs⟩ := @forLoop_spec _ (descendRound nums) 0 (nums.length - 1) _
    (fun count descend => descend = descended nums count) first
    (fun count below descend descendIs => by
      subst descendIs
      rw [Nat.zero_add]
      exact ⟨_, descendRound_eq fits (by omega), rfl⟩)
  rw [descendLoop, returned, finalIs]
  congr 1
  apply tabulate_congr
  intro j inside
  exact if_pos (by omega)

theorem productExceptSelf_eq (fits : Fits nums) :
    productExceptSelf nums = some (allExcept nums) := by
  have small := fits.small
  rw [productExceptSelf]
  split
  next empty =>
    rw [List.isEmpty_iff.mp empty]
    rfl
  next =>
    rw [ascendLoop_eq fits, descendLoop_eq fits]
    dsimp only [Option.bind_eq_bind, Option.bind_some]
    obtain ⟨final, returned, finalIs⟩ := @forLoop_spec (List Int)
      (resultRound (tabulate nums.length (before nums))
        (tabulate nums.length fun i => behind nums (i + 1))) 0 nums.length []
      (fun count result => result = tabulate count fun i => before nums i * behind nums (i + 1)) rfl
      (fun count below result resultIs => by
        subst resultIs
        refine ⟨_, ?_, rfl⟩
        rw [resultRound, Nat.zero_add, getElem?_tabulate below, getElem?_tabulate below]
        dsimp only [Option.bind_eq_bind, Option.bind_some]
        rw [signed_of_inSigned (fits.result count below)]
        simp [tabulate, List.range_succ])
    rw [signedLoop_eq (by omega), returned, finalIs, allExcept_eq]

/-! ### One array -/

/-- The array and the product after so many rounds of the second loop. -/
def multiplied (nums : List Int) (count : Nat) : List Int × Int :=
  (tabulate nums.length fun j =>
    if nums.length ≤ j + count then before nums j * behind nums (j + 1) else before nums j,
    behind nums (nums.length - count))

theorem productRound_eq (fits : Fits nums) {count : Nat} (below : count < nums.length) :
    productRound nums (multiplied nums count) count = some (multiplied nums (count + 1)) := by
  obtain ⟨i, iIs⟩ : ∃ i, nums.length - 1 - count = i := ⟨_, rfl⟩
  have found : nums[i]? = some nums[i] := List.getElem?_eq_getElem (by omega)
  have next := behind_eq found
  have product : nums.length - count = i + 1 := by omega
  have productAfter : nums.length - (count + 1) = i := by omega
  have assigned := @assign_tabulate nums.length i
    (fun j => if nums.length ≤ j + count then before nums j * behind nums (j + 1)
      else before nums j)
    (fun j => if nums.length ≤ j + (count + 1) then before nums j * behind nums (j + 1)
      else before nums j) (before nums i) (behind nums (i + 1)) (by omega)
    (fits.result i (by omega)) (if_pos (by omega))
    (fun j _ other => if_congr (by omega) rfl rfl)
  rw [productRound, multiplied, multiplied]
  dsimp only
  rw [iIs, scale, getElem?_tabulate (by omega), found, product, productAfter, if_neg (by omega)]
  dsimp only [Option.bind_eq_bind, Option.bind_some]
  rw [assigned]
  dsimp only [Option.bind_some]
  rw [← next, signed_of_inSigned (fits.behind i (by omega))]
  rfl

theorem productExceptSelf2_eq (fits : Fits nums) :
    productExceptSelf2 nums = some (allExcept nums) := by
  have first : (tabulate nums.length (before nums), 1) = multiplied nums 0 := by
    rw [multiplied, Nat.sub_zero, behind_length]
    congr 1
    apply tabulate_congr
    intro j inside
    exact (if_neg (by omega)).symm
  obtain ⟨final, returned, finalIs⟩ := @forLoop_spec _ (productRound nums) 0 nums.length _
    (fun count state => state = multiplied nums count) first
    (fun count below state stateIs => by
      subst stateIs
      rw [Nat.zero_add]
      exact ⟨_, productRound_eq fits below, rfl⟩)
  rw [productExceptSelf2, ascendLoop_eq fits]
  dsimp only [Option.bind_eq_bind, Option.bind_some]
  rw [returned, finalIs, allExcept_eq]
  dsimp only [multiplied, Option.bind_some]
  congr 1
  apply tabulate_congr
  intro j inside
  exact if_pos (by omega)

/-! ### From both ends -/

/-- The array when so many products from the front and so many from the back are in it. -/
def filled (nums : List Int) (front back : Nat) : List Int :=
  tabulate nums.length fun j =>
    (if j < front then before nums j else 1) *
      if nums.length ≤ j + back then behind nums (j + 1) else 1

/-- The array and both products after so many rounds of the third loop. -/
def bothWays (nums : List Int) (count : Nat) : List Int × Int × Int :=
  (filled nums count count, before nums count, behind nums (nums.length - count))

/-- The entry at which the front arrives. -/
theorem scale_front (fits : Fits nums) {count : Nat} (below : count < nums.length) :
    scale (filled nums count count) count (before nums count) =
      some (filled nums (count + 1) count) := by
  rw [scale, filled, getElem?_tabulate below, if_neg (Nat.lt_irrefl count), Int.one_mul]
  dsimp only [Option.bind_eq_bind, Option.bind_some]
  apply assign_tabulate below
  · split
    next =>
      rw [Int.mul_comm]
      exact fits.result count below
    next =>
      rw [Int.one_mul]
      exact fits.before count below.le
  · rw [if_pos (Nat.lt_succ_self count), Int.mul_comm]
  · intro j _ other
    rw [if_congr (by omega : j < count + 1 ↔ j < count) rfl rfl]

/-- The entry at which the back arrives. -/
theorem scale_back (fits : Fits nums) {front count other : Nat}
    (otherIs : other + count + 1 = nums.length) :
    scale (filled nums front count) other (behind nums (other + 1)) =
      some (filled nums front (count + 1)) := by
  rw [scale, filled, getElem?_tabulate (by omega), if_neg (by omega : ¬nums.length ≤ other + count),
    Int.mul_one]
  dsimp only [Option.bind_eq_bind, Option.bind_some]
  apply assign_tabulate (by omega)
  · split
    next => exact fits.result other (by omega)
    next =>
      rw [Int.one_mul]
      exact fits.behind (other + 1) (by omega)
  · rw [if_pos (by omega : nums.length ≤ other + (count + 1))]
  · intro j _ different
    rw [if_congr (by omega : nums.length ≤ j + (count + 1) ↔ nums.length ≤ j + count) rfl rfl]

theorem bothRound_eq (fits : Fits nums) {count : Nat} (below : count < nums.length) :
    bothRound nums (bothWays nums count) count = some (bothWays nums (count + 1)) := by
  obtain ⟨other, otherIs⟩ : ∃ other, nums.length - count - 1 = other := ⟨_, rfl⟩
  have same : nums.length - 1 - count = other := by omega
  have ending : nums.length - count = other + 1 := by omega
  have endingAfter : nums.length - (count + 1) = other := by omega
  have found : nums[count]? = some nums[count] := List.getElem?_eq_getElem below
  have otherFound : nums[other]? = some nums[other] := List.getElem?_eq_getElem (by omega)
  have back := @scale_back nums fits (count + 1) count other (by omega)
  rw [bothRound, bothWays]
  dsimp only
  rw [scale_front fits below, otherIs, same, found, otherFound, ending]
  dsimp only [Option.bind_eq_bind, Option.bind_some]
  rw [← before_succ found, signed_of_inSigned (fits.before _ below)]
  dsimp only [Option.bind_some]
  rw [back]
  dsimp only [Option.bind_some]
  rw [← behind_eq otherFound, signed_of_inSigned (fits.behind other (by omega)), bothWays,
    endingAfter]
  rfl

theorem productExceptSelf3_eq (fits : Fits nums) :
    productExceptSelf3 nums = some (allExcept nums) := by
  have small := fits.small
  have first : (List.replicate nums.length 1, 1, 1) = bothWays nums 0 := by
    rw [bothWays, filled, Nat.sub_zero, behind_length, tabulate_const]
    congr 1
    apply tabulate_congr
    intro j inside
    rw [if_neg (Nat.not_lt_zero j), if_neg (by omega)]
    rfl
  obtain ⟨final, returned, finalIs⟩ := @forLoop_spec _ (bothRound nums) 0 nums.length _
    (fun count state => state = bothWays nums count) first
    (fun count below state stateIs => by
      subst stateIs
      rw [Nat.zero_add]
      exact ⟨_, bothRound_eq fits below, rfl⟩)
  rw [productExceptSelf3, signedLoop_eq (by omega), returned, finalIs, allExcept_eq]
  dsimp only [bothWays, filled, Option.bind_eq_bind, Option.bind_some]
  congr 1
  apply tabulate_congr
  intro j inside
  rw [if_pos inside, if_pos (by omega)]

/-- All three return the products of all elements but one. -/
theorem productExceptSelf_all (fits : Fits nums) :
    productExceptSelf nums = some (allExcept nums) ∧
      productExceptSelf2 nums = some (allExcept nums) ∧
      productExceptSelf3 nums = some (allExcept nums) :=
  ⟨productExceptSelf_eq fits, productExceptSelf2_eq fits, productExceptSelf3_eq fits⟩

theorem productExceptSelf_all_fourElements :
    productExceptSelf [1, 2, 3, 4] = some [24, 12, 8, 6] ∧
      productExceptSelf2 [1, 2, 3, 4] = some [24, 12, 8, 6] ∧
      productExceptSelf3 [1, 2, 3, 4] = some [24, 12, 8, 6] :=
  @productExceptSelf_all [1, 2, 3, 4] ⟨by decide, by decide, by decide, by decide⟩

end ProductExceptSelf

end StdPrograms.Hobbies

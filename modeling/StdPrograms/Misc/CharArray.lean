import Mathlib.Algebra.Group.Nat.Defs
import Mathlib.Data.List.Basic

/-!
Contract: the copies of arrays in `bits.cpp`.

Owns `EncodeCharArray` and `DecodeCharArray`, which are one loop with the two memories exchanged,
for elements of which size the assertion fails, for which the loop leaves the memories, and what it
copies otherwise.

A memory is the list of its bytes. `i` and `offset` are `int`s, and are not followed beyond that
range.
-/

namespace StdPrograms.Misc

namespace CharArray

/-- How a call goes wrong. -/
inductive CopyError where
  | assertion
  /-- `memcpy` reads or writes behind a memory. -/
  | overrun
  /-- A number leaves the range of an `int`. -/
  | overflow
deriving DecidableEq, Repr

section Code

variable {β : Type}

def memcpy (dest source : List β) (offset n : Nat) : Except CopyError (List β) :=
  if offset + n ≤ dest.length ∧ offset + n ≤ source.length then
    .ok (dest.take offset ++ (source.drop offset).take n ++ dest.drop (offset + n))
  else .error .overrun

/-- A number that is stored in an `int`. -/
def stored (value : Nat) : Except CopyError Nat :=
  if value < 2 ^ 31 then .ok value else .error .overflow

/-- `sizeof(int)`. -/
def dsize : Nat := 4

def step (ssize : Nat) : Nat := if dsize ≤ ssize then 1 else dsize / ssize

/-- The inner loop: the memory that is written to, and the offset behind it. -/
def copyParts (ssize : Nat) (positive : 0 < ssize) (source : List β) (j offset : Nat)
    (dest : List β) : Except CopyError (List β × Nat) :=
  if j < dsize then do
    let n := min (dsize - j) (step ssize * ssize)
    let dest ← memcpy dest source offset n
    let offset ← stored (offset + n)
    copyParts ssize positive source (j + ssize) offset dest
  else .ok (dest, offset)
termination_by dsize - j

theorem step_pos (ssize : Nat) (positive : 0 < ssize) : 0 < step ssize := by
  unfold step
  split
  next => exact Nat.one_pos
  next small => exact Nat.div_pos (Nat.le_of_not_le small) positive

/-- The outer loop. -/
def copyLoop (N ssize : Nat) (positive : 0 < ssize) (source : List β) (i offset : Nat)
    (dest : List β) : Except CopyError (List β) :=
  if i < N then do
    let (dest, offset) ← copyParts ssize positive source 0 offset dest
    let _ ← stored (i + step ssize)
    copyLoop N ssize positive source (i + step ssize) offset dest
  else .ok dest
termination_by N - i
decreasing_by
  have := step_pos ssize positive
  omega

/-- The assertion and the loop. -/
def copy (N ssize : Nat) (positive : 0 < ssize) (source dest : List β) :
    Except CopyError (List β) :=
  if dsize ≤ ssize ∨ dsize % ssize = 0 then copyLoop N ssize positive source 0 0 dest
  else .error .assertion

/-- From an array of `N` elements of `ssize` bytes into `out`. -/
def EncodeCharArray (N ssize : Nat) (positive : 0 < ssize) (out array : List β) :
    Except CopyError (List β) :=
  copy N ssize positive array out

def DecodeCharArray (N ssize : Nat) (positive : 0 < ssize) (input array : List β) :
    Except CopyError (List β) :=
  copy N ssize positive input array

end Code

variable {β : Type} {N ssize : Nat} {positive : 0 < ssize} {source dest : List β}

theorem stored_of_lt {value : Nat} (small : value < 2 ^ 31) : stored value = .ok value :=
  if_pos small

/-! ### Elements of at least four bytes -/

/-- The first bytes of one memory in front of the others of the other one. -/
def copied (source dest : List β) (offset : Nat) : List β := source.take offset ++ dest.drop offset

theorem memcpy_copied {offset n : Nat} (inSource : offset + n ≤ source.length)
    (inDest : offset + n ≤ dest.length) :
    memcpy (copied source dest offset) source offset n = .ok (copied source dest (offset + n)) := by
  have front : (source.take offset).length = offset := List.length_take_of_le (by omega)
  have length : (copied source dest offset).length = dest.length := by
    rw [copied, List.length_append, front, List.length_drop]
    omega
  rw [memcpy, if_pos ⟨by omega, inSource⟩, Except.ok.injEq]
  have before : (copied source dest offset).take offset = source.take offset := by
    rw [copied, List.take_append_of_le_length (by omega), List.take_take, Nat.min_self]
  have behind : (copied source dest offset).drop (offset + n) = dest.drop (offset + n) := by
    rw [copied, List.drop_append, front, List.drop_eq_nil_of_le (by omega), List.nil_append,
      List.drop_drop]
    congr 1
    omega
  rw [before, behind, copied, List.take_add]

theorem copyParts_large (large : dsize ≤ ssize) {offset : Nat} (small : source.length < 2 ^ 31)
    (inSource : offset + dsize ≤ source.length) (inDest : offset + dsize ≤ dest.length) :
    copyParts ssize positive source 0 offset (copied source dest offset) =
      .ok (copied source dest (offset + dsize), offset + dsize) := by
  have most : min (dsize - 0) (step ssize * ssize) = dsize := by
    rw [step, if_pos large, Nat.one_mul, Nat.sub_zero, Nat.min_eq_left large]
  rw [copyParts, if_pos (by decide)]
  dsimp only
  rw [most, memcpy_copied inSource inDest, stored_of_lt (by omega)]
  change copyParts ssize positive source (0 + ssize) (offset + dsize) _ = _
  rw [copyParts, if_neg (by omega)]

/-- Of every element four bytes are copied, and these lie one behind the other. -/
theorem copyLoop_large (large : dsize ≤ ssize) (small : source.length < 2 ^ 31) {i : Nat}
    (begun : i ≤ N) (inSource : N * dsize ≤ source.length) (inDest : N * dsize ≤ dest.length) :
    copyLoop N ssize positive source i (i * dsize) (copied source dest (i * dsize)) =
      .ok (copied source dest (N * dsize)) := by
  induction left : N - i generalizing i with
  | zero =>
      obtain rfl : i = N := by omega
      rw [copyLoop, if_neg (Nat.lt_irrefl i)]
  | succ left inductionHypothesis =>
      have next : i * dsize + dsize = (i + 1) * dsize := (Nat.succ_mul i dsize).symm
      have within : (i + 1) * dsize ≤ N * dsize := Nat.mul_le_mul_right dsize (by omega)
      have counted : i + 1 ≤ (i + 1) * dsize := Nat.le_mul_of_pos_right _ (by decide)
      have one : step ssize = 1 := if_pos large
      rw [copyLoop, if_pos (by omega), copyParts_large large small (by omega) (by omega), one,
        stored_of_lt (by omega), next]
      exact inductionHypothesis (by omega) (by omega)

/-! ### Smaller elements -/

theorem step_mul (small : ¬ dsize ≤ ssize) (divides : dsize % ssize = 0) :
    step ssize * ssize = dsize := by
  rw [step, if_neg small]
  exact Nat.div_mul_cancel (Nat.dvd_of_mod_eq_zero divides)

/-- Each part goes on to the end of an `int`, as if the parts before it had not been copied. -/
theorem copyParts_small (small : ¬ dsize ≤ ssize) (divides : dsize % ssize = 0)
    (bounded : source.length < 2 ^ 31) (j offset : Nat) (dest : List β) :
    copyParts ssize positive source j offset dest = .error .overrun ∨
      ∃ after beyond, copyParts ssize positive source j offset dest = .ok (after, beyond) ∧
        offset + (dsize - j) ≤ beyond ∧ (j < dsize → beyond ≤ source.length) := by
  induction left : dsize - j using Nat.strongRecOn generalizing j offset dest with
  | ind left inductionHypothesis =>
      subst left
      rw [copyParts]
      split
      next more =>
        have most : min (dsize - j) (step ssize * ssize) = dsize - j := by
          rw [step_mul small divides]
          omega
        dsimp only
        rw [most, memcpy]
        split
        next inside =>
          rw [stored_of_lt (by omega)]
          rcases inductionHypothesis _ (by omega) (j + ssize) (offset + (dsize - j)) _ rfl with
            overruns | ⟨after, beyond, looped, further, stays⟩
          · exact .inl overruns
          · refine .inr ⟨after, beyond, looped, by omega, fun _ => ?_⟩
            by_cases again : j + ssize < dsize
            · exact stays again
            · rw [copyParts, if_neg again] at looped
              cases looped
              exact inside.2
        next => exact .inl rfl
      next ended => exact .inr ⟨dest, offset, rfl, by omega, fun more => absurd more ended⟩

/-- More than four bytes are copied for four bytes of elements. -/
theorem copyParts_beyond (small : ¬ dsize ≤ ssize) (divides : dsize % ssize = 0)
    (bounded : source.length < 2 ^ 31) (offset : Nat) (dest : List β) :
    copyParts ssize positive source 0 offset dest = .error .overrun ∨
      ∃ after beyond, copyParts ssize positive source 0 offset dest = .ok (after, beyond) ∧
        offset + dsize < beyond ∧ beyond ≤ source.length := by
  have most : min (dsize - 0) (step ssize * ssize) = dsize := by
    rw [step_mul small divides]
    exact Nat.min_self dsize
  rw [copyParts, if_pos (by decide)]
  dsimp only
  rw [most, memcpy]
  split
  next inside =>
    rw [stored_of_lt (by omega)]
    rcases @copyParts_small _ _ positive _ small divides bounded (0 + ssize) (offset + dsize) _ with
      overruns | ⟨after, beyond, looped, further, stays⟩
    · exact .inl overruns
    · exact .inr ⟨after, beyond, looped, by omega, stays (by omega)⟩
  next => exact .inl rfl

/-- The loop needs more bytes than the elements have. -/
theorem copyLoop_small (small : ¬ dsize ≤ ssize) (divides : dsize % ssize = 0)
    (bounded : source.length < 2 ^ 31) (isSource : source.length = N * ssize) {i offset : Nat}
    (begun : i < N) (behind : i * ssize ≤ offset) (dest : List β) :
    copyLoop N ssize positive source i offset dest = .error .overrun := by
  induction left : N - i using Nat.strongRecOn generalizing i offset dest with
  | ind left inductionHypothesis =>
      subst left
      rw [copyLoop, if_pos begun]
      rcases @copyParts_beyond _ _ positive _ small divides bounded offset dest with
        overruns | ⟨after, beyond, looped, further, stays⟩
      · rw [overruns]
        rfl
      · have moves := step_pos ssize positive
        have elements : (i + step ssize) * ssize = i * ssize + dsize := by
          rw [Nat.add_mul, step_mul small divides]
        have more : i + step ssize < N := by
          by_contra last
          have whole := Nat.mul_le_mul_right ssize (Nat.le_of_not_lt last)
          omega
        have bytes : N ≤ N * ssize := Nat.le_mul_of_pos_right N positive
        rw [looped, stored_of_lt (by omega)]
        exact inductionHypothesis _ (by omega) more (by omega) after rfl

/-! ### Both calls -/

/-- What a call does with elements of this size, where they are large enough to be copied. -/
def outcome (ssize : Nat) (result : List β) : Except CopyError (List β) :=
  if dsize ≤ ssize then .ok result
  else if dsize % ssize = 0 then .error .overrun
  else .error .assertion

theorem copy_eq (nonempty : 0 < N) (small : N * ssize < 2 ^ 31)
    (isSource : source.length = N * ssize) (isDest : dest.length = N * ssize) :
    copy N ssize positive source dest = outcome ssize (copied source dest (N * dsize)) := by
  unfold copy outcome
  by_cases large : dsize ≤ ssize
  · have enough : N * dsize ≤ N * ssize := Nat.mul_le_mul_left N large
    have whole := @copyLoop_large β N ssize positive source dest large (by omega) 0 (Nat.zero_le N)
      (by omega) (by omega)
    rw [if_pos (.inl large), if_pos large]
    simpa [copied] using whole
  · rw [if_neg large]
    split
    next asserted =>
      have divides : dsize % ssize = 0 := asserted.resolve_left large
      rw [if_pos divides]
      exact copyLoop_small large divides (by omega) isSource nonempty (by simp) dest
    next failed => rw [if_neg fun divides => failed (.inr divides)]

end CharArray

end StdPrograms.Misc

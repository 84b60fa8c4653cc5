import Mathlib.Data.List.TakeWhile
import StdPrograms.Foundation.Numerals
import StdPrograms.Foundation.SignedInt

/-!
Contract: the integer at the front of a string.

Owns `myAtoi` of `solution_8.cpp`, the number that a string denotes, and for which strings this
number, brought into the range of an `int`, is returned.

Does not own characters that `isdigit` is not defined for.
-/

namespace StdPrograms.Hobbies

open StdPrograms.Foundation

namespace MyAtoi

/-- `"\r\n\t "` -/
def blanks : List Char := ['\r', '\n', '\t', ' ']

/-- `s.find_first_not_of(chars)`; `npos` is none. -/
def find_first_not_of (s chars : List Char) : Option Nat :=
  s.findIdx? fun char => !chars.contains char

/-- `s[j] - '0'` -/
def digit (char : Char) : Nat := char.toNat - '0'.toNat

/-- The loop from `j` on. The first number is how many characters may still be read. -/
def readLoop (s : List Char) : Nat → Nat → Int → Option Int
  | 0, _, v => some v
  | room + 1, j, v =>
      match s[j]? with
      | none => some v
      | some char =>
          if char.isDigit then do
            let v ← signed 64 (v * 10 + digit char)
            readLoop s room (j + 1) v
          else some v

def myAtoi (s : List Char) : Option Int :=
  match find_first_not_of s blanks with
  | none => some 0
  | some i => do
      let sign : Int := if s[i]? = some '-' then -1 else 1
      let i := if s[i]? = some '+' ∨ s[i]? = some '-' then i + 1 else i
      let v ← readLoop s 11 i 0
      let v ← signed 64 (v * sign)
      return if v > 2147483647 then 2147483647 else if v < -2147483648 then -2147483648 else v

/-! ### The number that is denoted -/

def body (s : List Char) : List Char := s.dropWhile blanks.contains

def sign (s : List Char) : Int := if (body s).head? = some '-' then -1 else 1

/-- The longest run of digits behind the sign. -/
def digits (s : List Char) : List Char :=
  (if (body s).head? = some '+' ∨ (body s).head? = some '-' then (body s).tail
    else body s).takeWhile Char.isDigit

def denoted (s : List Char) : Int := sign s * numeral 10 digit (digits s)

/-- Brought into the range of an `int`. -/
def clamped (value : Int) : Int := max (-2 ^ 31) (min value (2 ^ 31 - 1))

variable {s : List Char}

/-! ### What is read -/

theorem digit_lt {char : Char} (isDigit : char.isDigit = true) : digit char < 10 := by
  have bounds := Char.isDigit_iff_toNat.mp isDigit
  have upper : char.toNat ≤ 57 := bounds.2
  have zero : '0'.toNat = 48 := rfl
  rw [digit, zero]
  omega

theorem numeral_lt_pow {word : List Char} (areDigits : ∀ char ∈ word, char.isDigit = true) :
    numeral 10 digit word < 10 ^ word.length :=
  @numeral_lt _ _ _ {char : Char | char.isDigit = true} (fun _ => digit_lt) _ areDigits

theorem drop_of_find {i : Nat} (found : find_first_not_of s blanks = some i) :
    s.drop i = body s := by
  obtain ⟨-, isFirst⟩ := List.findIdx?_eq_some_iff_findIdx_eq.mp found
  rw [body, List.dropWhile_eq_drop_findIdx_not, isFirst]

theorem body_of_not_found (notFound : find_first_not_of s blanks = none) : body s = [] := by
  rw [body, List.dropWhile_eq_drop_findIdx_not, List.findIdx?_eq_none_iff_findIdx_eq.mp notFound,
    List.drop_length]

/-- Each digit in the room that is left comes behind the number read so far. -/
theorem readLoop_eq {room bits j v : Nat} (small : v < 10 ^ bits) (fits : bits + room ≤ 18) :
    readLoop s room j v =
      some (((((s.drop j).takeWhile Char.isDigit).take room).foldl
        (fun number char => 10 * number + digit char) v : Nat) : Int) := by
  induction room generalizing j v bits with
  | zero => rfl
  | succ room inductionHypothesis =>
      rw [readLoop]
      cases atJ : s[j]? with
      | none => rw [List.drop_eq_nil_of_le (List.getElem?_eq_none_iff.mp atJ)]; rfl
      | some char =>
          obtain ⟨inside, rfl⟩ := List.getElem?_eq_some_iff.mp atJ
          rw [List.drop_eq_getElem_cons inside]
          dsimp only
          split
          next isDigit =>
            have less := digit_lt isDigit
            have power : 10 ^ (bits + 1) ≤ 10 ^ 18 := Nat.pow_le_pow_right (by decide) (by omega)
            have next : 10 * v + digit s[j] < 10 ^ (bits + 1) := by
              rw [pow_succ]
              omega
            have held : InSigned 64 ((v : Int) * 10 + digit s[j]) := by
              constructor <;> omega
            rw [signed_of_inSigned held, List.takeWhile_cons_of_pos isDigit, List.take_succ_cons,
              List.foldl_cons, ← inductionHypothesis next (by omega)]
            dsimp only [Option.bind_eq_bind, Option.bind_some]
            congr 1
            push_cast
            ring
          next notDigit => rw [List.takeWhile_cons_of_neg notDigit]; rfl

/-! ### What is returned -/

theorem sign_cases (s : List Char) : sign s = 1 ∨ sign s = -1 := by
  rw [sign]
  split
  · exact .inr rfl
  · exact .inl rfl

theorem clamped_eq (value : Int) :
    (if value > 2147483647 then 2147483647 else if value < -2147483648 then -2147483648
      else value) = clamped value := by
  rw [clamped]
  split_ifs <;> omega

theorem taken_digits (s : List Char) : ∀ char ∈ (digits s).take 11, char.isDigit = true :=
  fun _ member => List.mem_takeWhile_imp (List.mem_of_mem_take member)

/-- Of the digits the first eleven are read. -/
theorem myAtoi_eq (s : List Char) :
    myAtoi s = some (clamped (sign s * numeral 10 digit ((digits s).take 11))) := by
  rw [myAtoi]
  cases found : find_first_not_of s blanks with
  | none =>
      have empty : digits s = [] := by
        rw [digits, body_of_not_found found]
        rfl
      rw [empty]
      simp [clamped, numeral_nil]
  | some i =>
      have behind := drop_of_find found
      have first : s[i]? = (body s).head? := by rw [← behind, List.head?_drop]
      obtain ⟨start, startIs⟩ : ∃ start, start =
        if s[i]? = some '+' ∨ s[i]? = some '-' then i + 1 else i := ⟨_, rfl⟩
      have here : (s.drop start).takeWhile Char.isDigit = digits s := by
        rw [startIs, digits, ← first, ← behind, List.tail_drop]
        split <;> rfl
      have small := numeral_lt_pow (taken_digits s)
      have power : 10 ^ ((digits s).take 11).length ≤ 10 ^ 11 :=
        Nat.pow_le_pow_right (by decide) (List.length_take_le 11 _)
      have read := @readLoop_eq s 11 0 start 0 (by decide) (by decide)
      rw [here, ← numeral, Nat.cast_zero] at read
      have held : InSigned 64 ((numeral 10 digit ((digits s).take 11) : Int) * sign s) := by
        rcases sign_cases s with is | is <;> rw [is] <;> constructor <;> omega
      dsimp only
      rw [← startIs, read, first, ← sign]
      dsimp only [Option.bind_eq_bind, Option.bind_some]
      rw [signed_of_inSigned held, Int.mul_comm, ← clamped_eq]
      rfl

/-- The last digits do not matter. -/
def Saturates (digits : List Char) (limit : Nat) : Prop :=
  digits.length ≤ 11 ∨ (∀ char ∈ digits, char = '0') ∨ digits.head? ≠ some '0' ∨
    ∃ rest, digits = '0' :: rest ∧ limit ≤ numeral 10 digit (rest.take 10)

/-- The greatest absolute value with the sign. -/
def limit (s : List Char) : Nat := if sign s = -1 then 2 ^ 31 else 2 ^ 31 - 1

theorem clamped_sign_mul (s : List Char) (number : Nat) :
    clamped (sign s * number) = sign s * (min number (limit s) : Nat) := by
  rw [clamped, limit]
  rcases sign_cases s with is | is <;> rw [is]
  · rw [if_neg (by decide)]
    omega
  · rw [if_pos rfl]
    omega

theorem digit_eq_zero_iff {char : Char} (isDigit : char.isDigit = true) :
    digit char = 0 ↔ char = '0' := by
  have bounds := Char.isDigit_iff_toNat.mp isDigit
  have lower : 48 ≤ char.toNat := bounds.1
  have zero : '0'.toNat = 48 := rfl
  rw [digit, zero]
  constructor
  · intro isZero
    exact Char.toNat_inj.mp (by omega)
  · rintro rfl
    rfl

/-- Eleven digits reach the limit without a zero in front, and with one as ten digits do. -/
theorem limit_le_taken_iff {first : Char} {rest : List Char} (isDigit : first.isDigit = true)
    (long : 10 ≤ rest.length) {limit : Nat} (small : limit ≤ 10 ^ 10) :
    limit ≤ numeral 10 digit ((first :: rest).take 11) ↔
      first ≠ '0' ∨ limit ≤ numeral 10 digit (rest.take 10) := by
  rw [List.take_succ_cons, numeral_cons, List.length_take_of_le long]
  by_cases isZero : first = '0'
  · rw [(digit_eq_zero_iff isDigit).mpr isZero, Nat.zero_mul, Nat.zero_add, or_iff_right]
    exact not_not_intro isZero
  · have positive : 0 < digit first := Nat.pos_of_ne_zero fun zero =>
      isZero ((digit_eq_zero_iff isDigit).mp zero)
    have scaled : 10 ^ 10 ≤ digit first * 10 ^ 10 := Nat.le_mul_of_pos_left _ positive
    exact iff_of_true (by omega) (.inl isZero)

theorem saturates_iff {word : List Char} (areDigits : ∀ char ∈ word, char.isDigit = true)
    {limit : Nat} (small : limit ≤ 10 ^ 10) :
    Saturates word limit ↔
      min (numeral 10 digit word) limit = min (numeral 10 digit (word.take 11)) limit := by
  by_cases short : word.length ≤ 11
  · rw [List.take_of_length_le short]
    exact iff_of_true (.inl short) rfl
  · have more : word.drop 11 ≠ [] := by
      rw [Ne, List.drop_eq_nil_iff]
      exact short
    have parts := @min_numeral_append_iff _ 10 digit limit (word.take 11) _ (by decide) more
    rw [List.take_append_drop] at parts
    rw [parts, Saturates, or_iff_right short, numeral_eq_zero_iff (by decide), or_comm]
    refine or_congr ?_ (forall₂_congr fun char member => ?_)
    · cases word with
      | nil => exact absurd (Nat.zero_le 11) short
      | cons first rest =>
          rw [List.length_cons] at short
          rw [limit_le_taken_iff (areDigits first List.mem_cons_self) (by omega) small]
          rw [List.head?_cons, Ne, Option.some.injEq]
          by_cases isZero : first = '0'
          · subst isZero
            refine or_congr Iff.rfl ⟨?_, fun reaches => ⟨rest, rfl, reaches⟩⟩
            rintro ⟨others, parts, reaches⟩
            obtain ⟨-, rfl⟩ := List.cons_eq_cons.mp parts
            exact reaches
          · exact iff_of_true (.inl isZero) (.inl isZero)
    · exact (digit_eq_zero_iff (areDigits char member)).symm

/-- The denoted number, in the range, is returned exactly where the last digits do not matter. -/
theorem myAtoi_iff (s : List Char) :
    myAtoi s = some (clamped (denoted s)) ↔ Saturates (digits s) (limit s) := by
  have areDigits : ∀ char ∈ digits s, char.isDigit = true := fun _ => List.mem_takeWhile_imp
  have small : limit s ≤ 10 ^ 10 := by
    rw [limit]
    split <;> decide
  rw [myAtoi_eq, denoted, clamped_sign_mul, clamped_sign_mul, Option.some.injEq,
    saturates_iff areDigits small]
  rcases sign_cases s with is | is <;> rw [is] <;> omega

/-- Eleven zeros hide the one behind them. -/
theorem myAtoi_fails :
    myAtoi "000000000001".toList ≠ some (clamped (denoted "000000000001".toList)) := by
  decide

end MyAtoi

end StdPrograms.Hobbies

import StdPrograms.Foundation.LittleEndian
import Mathlib.Algebra.Order.Floor.Div
import Mathlib.Logic.Function.Iterate

/-!
Contract: the cipher of `tea.cpp`.

Owns the sixteen rounds on a group of two words, the padding to whole groups with
the length in front, and the two laws that the packets rest on: a round is undone
by the round of the decipherer, and what was encoded is decoded to the input with
its padding.

Words are read from the buffer in the host's byte order. Does not own the buffers
of the caller.
-/

namespace StdPrograms.Release

open StdPrograms.Foundation

def CRYPTO_GROUP_SIZE : Nat := 8

/-- `key_`: four words. -/
@[ext] structure Key where
  a : UInt32
  b : UInt32
  c : UInt32
  d : UInt32
deriving DecidableEq

namespace Tea

/-! ### Rounds -/

def delta : UInt32 := 0x9E3779B9

/-- The variables of the two loops. -/
structure Rounds where
  y : UInt32
  z : UInt32
  sum : UInt32
deriving DecidableEq

/-- What a round adds to `y`. -/
def mixY (k : Key) (z sum : UInt32) : UInt32 :=
  (z <<< 4) + (k.a ^^^ z) + (sum ^^^ (z >>> 5)) + k.b

/-- What a round adds to `z`. -/
def mixZ (k : Key) (y sum : UInt32) : UInt32 :=
  (y <<< 4) + (k.c ^^^ y) + (sum ^^^ (y >>> 5)) + k.d

def encipherRound (k : Key) (v : Rounds) : Rounds :=
  let sum := v.sum + delta
  let y := v.y + mixY k v.z sum
  let z := v.z + mixZ k y sum
  { y := y, z := z, sum := sum }

def decipherRound (k : Key) (v : Rounds) : Rounds :=
  let z := v.z - mixZ k v.y v.sum
  let y := v.y - mixY k z v.sum
  let sum := v.sum - delta
  { y := y, z := z, sum := sum }

/-- `v[0]` and `v[1]`. -/
def encipher (k : Key) (v : UInt32 × UInt32) : UInt32 × UInt32 :=
  let rounds := (encipherRound k)^[16] { y := v.1, z := v.2, sum := 0 }
  (rounds.y, rounds.z)

def decipher (k : Key) (v : UInt32 × UInt32) : UInt32 × UInt32 :=
  let rounds := (decipherRound k)^[16] { y := v.1, z := v.2, sum := 0xe3779b90 }
  (rounds.y, rounds.z)

theorem decipherRound_encipherRound (k : Key) :
    Function.LeftInverse (decipherRound k) (encipherRound k) := by
  intro v
  simp only [decipherRound, encipherRound, UInt32.add_sub_cancel]

/-- The sum does not depend on the group. -/
theorem iterate_sum (k : Key) (rounds : Nat) (v : Rounds) :
    ((encipherRound k)^[rounds] v).sum = (fun sum => sum + delta)^[rounds] v.sum := by
  induction rounds generalizing v with
  | zero => rfl
  | succ rounds inductionHypothesis =>
      rw [Function.iterate_succ_apply, Function.iterate_succ_apply, inductionHypothesis]
      rfl

theorem sixteen_deltas : (fun sum => sum + delta)^[16] 0 = 0xe3779b90 := by
  decide +kernel

/-- Sixteen rounds back from the sum of sixteen rounds. -/
theorem decipher_encipher (k : Key) (v : UInt32 × UInt32) : decipher k (encipher k v) = v := by
  have sum : ((encipherRound k)^[16] { y := v.1, z := v.2, sum := 0 }).sum = 0xe3779b90 := by
    rw [iterate_sum]
    exact sixteen_deltas
  have undone := (decipherRound_encipherRound k).iterate 16 { y := v.1, z := v.2, sum := 0 }
  rw [decipher, encipher, ← sum]
  dsimp only
  rw [undone]

/-! ### Groups -/

/-- The word behind a pointer. -/
def word (p : Bytes) : UInt32 := UInt32.ofNat (ofLittleEndian (p.take 4))

def ofWord (value : UInt32) : Bytes := toLittleEndian 4 value.toNat

/-- The loop over the groups behind `p`. -/
def eachGroup (crypt : UInt32 × UInt32 → UInt32 × UInt32) : Nat → Bytes → Bytes
  | 0, _ => []
  | groups + 1, p =>
      let v := crypt (word p, word (p.drop 4))
      ofWord v.1 ++ (ofWord v.2 ++ eachGroup crypt groups (p.drop CRYPTO_GROUP_SIZE))

theorem eachGroup_succ (crypt : UInt32 × UInt32 → UInt32 × UInt32) (groups : Nat) (p : Bytes) :
    eachGroup crypt (groups + 1) p =
      ofWord (crypt (word p, word (p.drop 4))).1 ++
        (ofWord (crypt (word p, word (p.drop 4))).2 ++ eachGroup crypt groups (p.drop 8)) :=
  rfl

theorem eachGroup_length (crypt : UInt32 × UInt32 → UInt32 × UInt32) (groups : Nat) (p : Bytes) :
    (eachGroup crypt groups p).length = groups * 8 := by
  induction groups generalizing p with
  | zero => rfl
  | succ groups inductionHypothesis =>
      simp only [eachGroup_succ, ofWord, List.length_append, toLittleEndian_length,
        inductionHypothesis]
      omega

theorem word_ofWord (value : UInt32) (rest : Bytes) : word (ofWord value ++ rest) = value := by
  have below : value.toNat < modulus 4 := value.toNat_lt
  rw [word, ofWord, List.take_left' (toLittleEndian_length _ _), ofLittleEndian_toLittleEndian,
    Nat.mod_eq_of_lt below]
  exact UInt32.ofNat_toNat

theorem ofWord_word {p : Bytes} (long : 4 ≤ p.length) : ofWord (word p) = p.take 4 := by
  have length : (p.take 4).length = 4 := by
    rw [List.length_take]
    omega
  have below := ofLittleEndian_lt (p.take 4)
  rw [length] at below
  have value : (word p).toNat = ofLittleEndian (p.take 4) := by
    rw [word, UInt32.toNat_ofNat']
    exact Nat.mod_eq_of_lt below
  have bytes := toLittleEndian_ofLittleEndian (p.take 4)
  rw [length] at bytes
  rw [ofWord, value, bytes]

/-- Groups that were enciphered are deciphered. -/
theorem eachGroup_decipher (k : Key) (groups : Nat) (p rest : Bytes)
    (long : groups * 8 ≤ p.length) :
    eachGroup (decipher k) groups (eachGroup (encipher k) groups p ++ rest) =
      p.take (groups * 8) := by
  induction groups generalizing p with
  | zero => simp [eachGroup]
  | succ groups inductionHypothesis =>
      have later : groups * 8 ≤ (p.drop 8).length := by
        rw [List.length_drop]
        omega
      have total : (groups + 1) * 8 = 4 + (4 + groups * 8) := by omega
      generalize isGroup : encipher k (word p, word (p.drop 4)) = v
      have enciphered : eachGroup (encipher k) (groups + 1) p ++ rest =
          ofWord v.1 ++ (ofWord v.2 ++
            (eachGroup (encipher k) groups (p.drop 8) ++ rest)) := by
        rw [eachGroup_succ, isGroup]
        simp only [List.append_assoc]
      have skipFirst (back : Bytes) : (ofWord v.1 ++ back).drop 4 = back :=
        List.drop_left' (toLittleEndian_length _ _)
      have skipBoth (back : Bytes) : (ofWord v.1 ++ (ofWord v.2 ++ back)).drop 8 = back := by
        rw [← List.append_assoc]
        apply List.drop_left'
        rw [List.length_append, ofWord, ofWord, toLittleEndian_length, toLittleEndian_length]
      have undone : decipher k (v.1, v.2) = (word p, word (p.drop 4)) := by
        rw [← decipher_encipher k (word p, word (p.drop 4)), isGroup]
      rw [enciphered, eachGroup_succ, word_ofWord, skipFirst, word_ofWord, skipBoth, undone,
        inductionHypothesis _ later, ofWord_word (by omega), ofWord_word (by
          rw [List.length_drop]
          omega), total, List.take_add, List.take_add, List.drop_drop]

/-! ### Encoding -/

/-- What a call returns, and the bytes it leaves at the start of `outdata`. -/
structure Output where
  returned : Nat
  outdata : Bytes
deriving DecidableEq

/-- How many groups hold the input. -/
def groupsFor (inlen : Nat) : Nat := (inlen + (CRYPTO_GROUP_SIZE - 1)) / CRYPTO_GROUP_SIZE

def encode (key : Key) (indata : Bytes) (outlen : Nat) : Output :=
  let inlen := indata.length
  let groups := groupsFor inlen
  let needlen := groups * CRYPTO_GROUP_SIZE + 2
  if outlen < needlen then { returned := 0, outdata := [] }
  else
    let padded := indata ++ List.replicate (needlen - (inlen + 2)) 0
    { returned := needlen
      outdata := UInt8.ofNat (inlen / 256) :: UInt8.ofNat inlen ::
        eachGroup (encipher key) groups padded }

/-- A difference of `size_t`. -/
def sizeSub (left right : Nat) : Nat := (left + 2 ^ 64 - right) % 2 ^ 64

/-- Where fewer than two bytes are there, what is read of them decides nothing. -/
def decode (key : Key) (indata : Bytes) (outlen : Nat) : Output :=
  let needlen := (indata.headD 0).toNat * 256 + (indata.tail.headD 0).toNat
  if outlen < needlen then { returned := 0, outdata := [] }
  else if sizeSub indata.length 2 % CRYPTO_GROUP_SIZE ≠ 0 then { returned := 0, outdata := [] }
  else
    let groups := sizeSub indata.length 2 / CRYPTO_GROUP_SIZE
    { returned := needlen, outdata := eachGroup (decipher key) groups (indata.drop 2) }

theorem groupsFor_bounds (inlen : Nat) :
    inlen ≤ groupsFor inlen * CRYPTO_GROUP_SIZE ∧
      groupsFor inlen * CRYPTO_GROUP_SIZE < inlen + CRYPTO_GROUP_SIZE := by
  rw [groupsFor, show CRYPTO_GROUP_SIZE = 8 from rfl]
  omega

theorem encode_fits {key : Key} {indata : Bytes} {outlen : Nat}
    (fits : groupsFor indata.length * CRYPTO_GROUP_SIZE + 2 ≤ outlen) :
    encode key indata outlen =
      { returned := groupsFor indata.length * CRYPTO_GROUP_SIZE + 2
        outdata := UInt8.ofNat (indata.length / 256) :: UInt8.ofNat indata.length ::
          eachGroup (encipher key) (groupsFor indata.length)
            (indata ++ List.replicate
              (groupsFor indata.length * CRYPTO_GROUP_SIZE + 2 - (indata.length + 2)) 0) } := by
  rw [encode]
  dsimp only
  rw [if_neg (by omega)]

/-- As many bytes are left as the call returns. -/
theorem encode_length (key : Key) (indata : Bytes) (outlen : Nat) :
    (encode key indata outlen).outdata.length = (encode key indata outlen).returned := by
  rw [encode]
  dsimp only
  split
  · rfl
  · simp only [List.length_cons, eachGroup_length, CRYPTO_GROUP_SIZE]

/-- What was encoded is decoded, with the padding behind it. -/
theorem decode_encode (key : Key) {indata : Bytes} {outlen limit : Nat}
    (small : indata.length < 0x10000) (fits : groupsFor indata.length * 8 + 2 ≤ outlen)
    (fitsBack : indata.length ≤ limit) :
    decode key (encode key indata outlen).outdata limit =
      { returned := indata.length
        outdata := indata ++ List.replicate (groupsFor indata.length * 8 - indata.length) 0 } := by
  have size : CRYPTO_GROUP_SIZE = 8 := rfl
  obtain ⟨enough, close⟩ := groupsFor_bounds indata.length
  rw [encode_fits fits, decode]
  rw [size] at *
  generalize groupsFor indata.length = groups at *
  have padding : groups * 8 + 2 - (indata.length + 2) = groups * 8 - indata.length := by omega
  have length : (UInt8.ofNat (indata.length / 256)).toNat * 256 +
      (UInt8.ofNat indata.length).toNat = indata.length := by
    simp only [UInt8.toNat_ofNat']
    omega
  have payload : sizeSub (groups * 8 + 1 + 1) 2 = groups * 8 := by
    unfold sizeSub
    omega
  have whole : (indata ++ List.replicate (groups * 8 - indata.length) 0).length = groups * 8 := by
    rw [List.length_append, List.length_replicate]
    omega
  have undone := eachGroup_decipher key groups
    (indata ++ List.replicate (groups * 8 - indata.length) 0) [] (Nat.le_of_eq whole.symm)
  rw [List.append_nil, List.take_of_length_le (Nat.le_of_eq whole)] at undone
  simp only [List.headD_cons, List.tail_cons, List.length_cons, eachGroup_length, length,
    payload, padding, List.drop_succ_cons, List.drop_zero]
  rw [if_neg (by omega), if_neg (by omega), Nat.mul_div_cancel _ (by decide), undone]

/-- The groups that the code counts are as many as the input needs. -/
theorem groupsFor_eq_ceilDiv (inlen : Nat) : groupsFor inlen * 8 = 8 * (inlen ⌈/⌉ 8) := by
  rw [Nat.mul_comm, Nat.ceilDiv_eq_add_pred_div]
  rfl

/-- Both calls return their lengths, and the input comes back, where the two outputs hold
the padded input. -/
theorem decode_encode_returns (key : Key) {indata : Bytes} {outlen limit : Nat}
    (inlen : indata.length ≤ 65535) (room : 8 * (indata.length ⌈/⌉ 8) + 2 ≤ outlen)
    (roomBack : 8 * (indata.length ⌈/⌉ 8) ≤ limit) :
    (encode key indata outlen).returned = 8 * (indata.length ⌈/⌉ 8) + 2 ∧
      (decode key (encode key indata outlen).outdata limit).returned = indata.length ∧
      (decode key (encode key indata outlen).outdata limit).outdata.take indata.length =
        indata := by
  rw [← groupsFor_eq_ceilDiv] at *
  obtain ⟨enough, -⟩ := groupsFor_bounds indata.length
  have whole : indata.length ≤ groupsFor indata.length * 8 := enough
  rw [decode_encode key (by omega) room (by omega)]
  refine ⟨?_, rfl, List.take_left⟩
  rw [encode_fits room]
  rfl

/-- Three bytes need one group. -/
theorem decode_encode_returns_three :
    (encode ⟨1, 2, 3, 4⟩ [1, 2, 3] 10).returned = 10 ∧
      (decode ⟨1, 2, 3, 4⟩ (encode ⟨1, 2, 3, 4⟩ [1, 2, 3] 10).outdata 8).returned = 3 ∧
      (decode ⟨1, 2, 3, 4⟩ (encode ⟨1, 2, 3, 4⟩ [1, 2, 3] 10).outdata 8).outdata.take 3 =
        [1, 2, 3] :=
  decode_encode_returns ⟨1, 2, 3, 4⟩ (by decide) (by decide) (by decide)

/-! ### Hostile input -/

/-- The length in the first two bytes. -/
def declared (indata : Bytes) : Nat :=
  (indata.headD 0).toNat * 256 + (indata.tail.headD 0).toNat

/-- The call returns 0 or stays inside `outdata`, and it declares no more bytes than the
input has behind its length. -/
def Safe (indata : Bytes) (outlen : Nat) (output : Output) : Prop :=
  (output.returned = 0 ∨ output.outdata.length ≤ outlen) ∧
    output.returned ≤ indata.length - 2

theorem decode_refused {key : Key} {indata : Bytes} {outlen : Nat}
    (inlen : 2 ≤ indata.length) (addressable : indata.length < 2 ^ 64)
    (refused : outlen < declared indata ∨ (indata.length - 2) % CRYPTO_GROUP_SIZE ≠ 0) :
    decode key indata outlen = { returned := 0, outdata := [] } := by
  have payload : sizeSub indata.length 2 = indata.length - 2 := by
    unfold sizeSub
    omega
  rw [decode, payload]
  dsimp only
  by_cases small : outlen < declared indata
  · exact if_pos small
  · rw [← declared, if_neg small, if_pos (refused.resolve_left small)]

/-- Neither of the two checks looks at the room for the groups, or at how many bytes the
groups have. -/
theorem decode_accepted (key : Key) {indata : Bytes} {outlen : Nat}
    (inlen : 2 ≤ indata.length) (addressable : indata.length < 2 ^ 64)
    (room : declared indata ≤ outlen) (whole : (indata.length - 2) % CRYPTO_GROUP_SIZE = 0) :
    (decode key indata outlen).returned = declared indata ∧
      (decode key indata outlen).outdata.length = indata.length - 2 := by
  have payload : sizeSub indata.length 2 = indata.length - 2 := by
    unfold sizeSub
    omega
  rw [decode, payload]
  dsimp only
  rw [← declared, if_neg (by omega), if_neg (by omega)]
  refine ⟨rfl, ?_⟩
  rw [eachGroup_length]
  exact Nat.div_mul_cancel (Nat.dvd_of_mod_eq_zero whole)

theorem decode_safe_iff (key : Key) {indata : Bytes} (outlen : Nat)
    (inlen : 2 ≤ indata.length) (addressable : indata.length < 2 ^ 64) :
    Safe indata outlen (decode key indata outlen) ↔
      outlen < declared indata ∨ (indata.length - 2) % CRYPTO_GROUP_SIZE ≠ 0 ∨
        (declared indata = 0 ∨ indata.length - 2 ≤ outlen) ∧
          declared indata ≤ indata.length - 2 := by
  by_cases refused : outlen < declared indata ∨ (indata.length - 2) % CRYPTO_GROUP_SIZE ≠ 0
  · rw [decode_refused inlen addressable refused]
    constructor
    · intro _
      exact refused.imp_right .inl
    · intro _
      exact ⟨.inl rfl, Nat.zero_le _⟩
  · obtain ⟨room, whole⟩ := not_or.mp refused
    obtain ⟨returned, written⟩ := decode_accepted key inlen addressable
      (Nat.le_of_not_lt room) (not_not.mp whole)
    rw [Safe, returned, written, ← or_assoc, or_iff_right refused]

/-- One group behind its length. -/
theorem decode_safe_one_group :
    Safe [0, 8, 1, 2, 3, 4, 5, 6, 7, 8] 0x8000
        (decode ⟨1, 2, 3, 4⟩ [0, 8, 1, 2, 3, 4, 5, 6, 7, 8] 0x8000) ↔
      0x8000 < declared [0, 8, 1, 2, 3, 4, 5, 6, 7, 8] ∨
        ([0, 8, 1, 2, 3, 4, 5, 6, 7, 8].length - 2) % CRYPTO_GROUP_SIZE ≠ 0 ∨
        (declared [0, 8, 1, 2, 3, 4, 5, 6, 7, 8] = 0 ∨
            [0, 8, 1, 2, 3, 4, 5, 6, 7, 8].length - 2 ≤ 0x8000) ∧
          declared [0, 8, 1, 2, 3, 4, 5, 6, 7, 8] ≤ [0, 8, 1, 2, 3, 4, 5, 6, 7, 8].length - 2 :=
  decode_safe_iff ⟨1, 2, 3, 4⟩ 0x8000 (by decide) (by decide)

/-- Nine bytes are declared of one group. -/
theorem decode_nine_of_eight :
    ¬ Safe [0, 9, 1, 2, 3, 4, 5, 6, 7, 8] 0x8000
      (decode ⟨1, 2, 3, 4⟩ [0, 9, 1, 2, 3, 4, 5, 6, 7, 8] 0x8000) := by
  rintro ⟨-, declaresInput⟩
  have returned : (decode ⟨1, 2, 3, 4⟩ [0, 9, 1, 2, 3, 4, 5, 6, 7, 8] 0x8000).returned = 9 :=
    (decode_accepted ⟨1, 2, 3, 4⟩ (by decide) (by decide) (by decide) (by decide)).1
  rw [returned] at declaresInput
  exact absurd declaresInput (by decide)

end Tea

end StdPrograms.Release

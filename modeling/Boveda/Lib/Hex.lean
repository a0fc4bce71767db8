/-
# Hexadecimal texts

`encode` is `bytes.hex`, `decode` is `bytes.fromhex`: it takes upper and lower case
and skips white space between the bytes.  A text in lower case without white space is
the only one of its kind for its bytes (`encode_of_decode`).
-/

import Boveda.Lib.Bytes

namespace Boveda
namespace Lib
namespace Hex

/-- The digits of `bytes.hex`. -/
def digits : List Char :=
  ['0', '1', '2', '3', '4', '5', '6', '7', '8', '9', 'a', 'b', 'c', 'd', 'e', 'f']

/-- The digit of a number below 16. -/
def digitChar (n : ℕ) : Char := digits.getD n '0'

/-- The number that a digit stands for. -/
def digitVal (c : Char) : Option ℕ :=
  if '0' ≤ c ∧ c ≤ '9' then some (c.toNat - 48)
  else if 'a' ≤ c ∧ c ≤ 'f' then some (c.toNat - 87)
  else if 'A' ≤ c ∧ c ≤ 'F' then some (c.toNat - 55)
  else none

/-- White space of ASCII: the space and what is between `\t` and `\r`. -/
def isSpace (c : Char) : Bool := c == ' ' || ('\t' ≤ c && c ≤ '\r')

/-- `bytes.hex`. -/
def encode (bs : Bytes) : List Char :=
  bs.flatMap fun b => [digitChar (b.toNat / 16), digitChar (b.toNat % 16)]

/-- `bytes.fromhex`, `none` for `ValueError`. -/
def decode : List Char → Option Bytes
  | [] => some []
  | [c] => if isSpace c then some [] else none
  | c :: d :: rest =>
    if isSpace c then decode (d :: rest)
    else
      match digitVal c, digitVal d with
      | some hi, some lo => (decode rest).map (UInt8.ofNat (16 * hi + lo) :: ·)
      | _, _ => none

theorem digitVal_digitChar : ∀ n < 16, digitVal (digitChar n) = some n := by decide

theorem isSpace_digitChar : ∀ n < 16, isSpace (digitChar n) = false := by decide

theorem digitChar_of_mem : ∀ c ∈ digits, ∃ n < 16, c = digitChar n :=
  forall_mem_of_all (by decide)

theorem decode_digits {hi lo : ℕ} (hhi : hi < 16) (hlo : lo < 16) (rest : List Char) :
    decode (digitChar hi :: digitChar lo :: rest) =
      (decode rest).map (UInt8.ofNat (16 * hi + lo) :: ·) := by
  rw [decode, isSpace_digitChar hi hhi, digitVal_digitChar hi hhi, digitVal_digitChar lo hlo]
  rfl

/-- **The round trip** of bytes. -/
theorem decode_encode (bs : Bytes) : decode (encode bs) = some bs := by
  induction bs with
  | nil => rfl
  | cons b bs ih =>
    have hb := b.toNat_lt
    have hhi : b.toNat / 16 < 16 := by omega
    have hlo : b.toNat % 16 < 16 := by omega
    have hbyte : UInt8.ofNat (16 * (b.toNat / 16) + b.toNat % 16) = b := by
      rw [Nat.div_add_mod, UInt8.ofNat_toNat]
    show decode (digitChar _ :: digitChar _ :: encode bs) = _
    rw [decode_digits hhi hlo, ih, Option.map_some, hbyte]

theorem encode_injective : Function.Injective encode := fun a b h =>
  Option.some.inj ((decode_encode a).symm.trans (h ▸ decode_encode b))

/-- **The other round trip**, of an even number of digits in lower case. -/
theorem exists_encode_eq {n : ℕ} {cs : List Char} (hlen : cs.length = 2 * n)
    (hdigits : ∀ c ∈ cs, c ∈ digits) : ∃ bs, encode bs = cs := by
  induction n generalizing cs with
  | zero => exact ⟨[], (List.eq_nil_of_length_eq_zero hlen).symm⟩
  | succ n ih =>
    obtain ⟨c, d, rest, rfl⟩ : ∃ c d rest, cs = c :: d :: rest := by
      match cs with
      | c :: d :: rest => exact ⟨c, d, rest, rfl⟩
      | [c] =>
        rw [List.length_singleton] at hlen
        omega
      | [] => simp at hlen
    have hrest : rest.length = 2 * n := by
      simp only [List.length_cons] at hlen
      omega
    obtain ⟨bs, rfl⟩ := ih hrest fun c hc => hdigits c (by simp [hc])
    obtain ⟨hi, hhi, rfl⟩ := digitChar_of_mem c (hdigits c (by simp))
    obtain ⟨lo, hlo, rfl⟩ := digitChar_of_mem d (hdigits d (by simp))
    have hbyte : (UInt8.ofNat (16 * hi + lo)).toNat = 16 * hi + lo := by
      rw [UInt8.toNat_ofNat']
      omega
    refine ⟨UInt8.ofNat (16 * hi + lo) :: bs, ?_⟩
    show digitChar _ :: digitChar _ :: encode bs = _
    rw [hbyte, show (16 * hi + lo) / 16 = hi by omega, show (16 * hi + lo) % 16 = lo by omega]

end Hex
end Lib
end Boveda

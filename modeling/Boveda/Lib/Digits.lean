/-
# Decimal numbers of a fixed width

`fixed w n` is `n` in `w` decimal digits.  Texts of one width are in the order of their
numbers, and what follows them decides between equal ones (`fixed_append_lt_iff`), so a text
of such fields is compared field by field.
-/

import Mathlib.Tactic.Common
import Mathlib.Data.Nat.Notation
import Mathlib.Algebra.Order.Ring.Nat
import Mathlib.Data.Char
import Mathlib.Data.List.Lex

namespace Boveda
namespace Lib

namespace Digits

/-- A decimal digit. -/
def digitChar (d : ℕ) : Char := Char.ofNat ('0'.toNat + d)

/-- The last `w` decimal digits of `n`. -/
def fixed : ℕ → ℕ → List Char
  | 0, _ => []
  | w + 1, n => digitChar (n / 10 ^ w % 10) :: fixed w n

theorem digitChar_lt_iff : ∀ a < 10, ∀ b < 10, digitChar a < digitChar b ↔ a < b := by decide

theorem digitChar_inj : ∀ a < 10, ∀ b < 10, digitChar a = digitChar b ↔ a = b := by decide

/-- The first digit of a number decides, and then the others. -/
theorem digit_lt_iff {B a b r s : ℕ} (hr : r < B) (hs : s < B) :
    r + B * a < s + B * b ↔ a < b ∨ a = b ∧ r < s := by
  rcases lt_trichotomy a b with h | rfl | h
  · have := Nat.mul_le_mul_left B (Nat.succ_le_of_lt h)
    rw [Nat.mul_succ] at this
    omega
  · omega
  · have := Nat.mul_le_mul_left B (Nat.succ_le_of_lt h)
    rw [Nat.mul_succ] at this
    omega

theorem digit_eq_iff {B a b r s : ℕ} (hr : r < B) (hs : s < B) :
    r + B * a = s + B * b ↔ a = b ∧ r = s := by
  have hlt := digit_lt_iff (a := a) (b := b) hr hs
  have hgt := digit_lt_iff (a := b) (b := a) hs hr
  omega

/-- **Texts of one width are in the order of their numbers.** -/
theorem fixed_append_lt_iff (w n m : ℕ) (x y : List Char) :
    fixed w n ++ x < fixed w m ++ y ↔
      n % 10 ^ w < m % 10 ^ w ∨ n % 10 ^ w = m % 10 ^ w ∧ x < y := by
  induction w with
  | zero => simp [fixed, Nat.mod_one]
  | succ w ih =>
    have hdigit : ∀ k, k / 10 ^ w % 10 < 10 := fun k => Nat.mod_lt _ (by decide)
    have hrest : ∀ k, k % 10 ^ w < 10 ^ w := fun k => Nat.mod_lt _ (Nat.pow_pos (by decide))
    rw [fixed, fixed, List.cons_append, List.cons_append, List.cons_lt_cons_iff, ih,
      digitChar_lt_iff _ (hdigit n) _ (hdigit m), digitChar_inj _ (hdigit n) _ (hdigit m),
      Nat.mod_pow_succ, Nat.mod_pow_succ, digit_lt_iff (hrest n) (hrest m),
      digit_eq_iff (hrest n) (hrest m)]
    tauto

end Digits

end Lib
end Boveda

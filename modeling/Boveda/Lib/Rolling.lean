/-
# A hash that shifts

`rolled b g s l` shifts `s` by one digit of base `b` for each element of `l` and adds the
element's number.  The last `n` digits forget what lies further back than `n` elements
(`pow_dvd_rolled_append_iff`), and they are all that a mask of `n` ones looks at
(`land_two_pow_sub_one`).
-/

import Mathlib.Algebra.Ring.Divisibility.Basic
import Mathlib.Data.Int.Bitwise
import Mathlib.Data.Int.ModEq
import Mathlib.Data.List.Induction
import Mathlib.Tactic.Ring

namespace Boveda
namespace Lib

section

variable {α R : Type*} [CommRing R] (b : R) (g : α → R)

/-- What `s` becomes when the elements of a list are shifted in. -/
def rolled (s : R) (l : List α) : R := l.foldl (fun s a => s * b + g a) s

variable {b g} {s : R}

theorem rolled_append (xs ys : List α) :
    rolled b g s (xs ++ ys) = rolled b g (rolled b g s xs) ys := List.foldl_append

/-- What was there before is shifted by as many digits as there are elements. -/
theorem rolled_eq (l : List α) : rolled b g s l = s * b ^ l.length + rolled b g 0 l := by
  induction l using List.reverseRecOn with
  | nil => simp [rolled]
  | append_singleton l a ih =>
    have hlast : ∀ t : R, rolled b g t (l ++ [a]) = rolled b g t l * b + g a := fun t =>
      rolled_append l [a]
    rw [hlast, hlast, ih, List.length_append, List.length_singleton, pow_succ]
    ring

/-- **The last `n` digits forget** what lies further back than `n` elements. -/
theorem pow_dvd_rolled_append_iff (xs : List α) {ys : List α} {n : ℕ} (h : n ≤ ys.length) :
    b ^ n ∣ rolled b g s (xs ++ ys) ↔ b ^ n ∣ rolled b g 0 ys := by
  have hshift : b ^ n ∣ rolled b g s xs * b ^ ys.length := (pow_dvd_pow b h).mul_left _
  rw [rolled_append, rolled_eq ys]
  exact dvd_add_right hshift

end

/-! ### Masks -/

/-- A mask of `n` ones keeps the last `n` digits, also of a negative number. -/
theorem land_two_pow_sub_one (x : ℤ) (n : ℕ) : Int.land x (2 ^ n - 1) = x % 2 ^ n := by
  have hpos : 0 < 2 ^ n := Nat.two_pow_pos n
  have hmask : (2 ^ n - 1 : ℤ) = ((2 ^ n - 1 : ℕ) : ℤ) := by
    push_cast [Nat.one_le_two_pow]
    rfl
  rw [hmask]
  match x with
  | .ofNat m =>
    have hnat : m &&& (2 ^ n - 1) = m % 2 ^ n := Nat.and_two_pow_sub_one_eq_mod m n
    show ((m &&& (2 ^ n - 1) : ℕ) : ℤ) = (m : ℤ) % 2 ^ n
    rw [hnat]
    push_cast
    rfl
  | .negSucc m =>
    have hldiff : Nat.ldiff (2 ^ n - 1) m = 2 ^ n - (m % 2 ^ n + 1) := by
      refine Nat.eq_of_testBit_eq fun i => ?_
      rw [Nat.testBit_ldiff, Nat.testBit_two_pow_sub_succ (Nat.mod_lt m hpos),
        Nat.testBit_mod_two_pow, Nat.testBit_two_pow_sub_one]
      by_cases hi : i < n <;> simp [hi]
    have hlt : m % 2 ^ n + 1 ≤ 2 ^ n := Nat.mod_lt m hpos
    show ((Nat.ldiff (2 ^ n - 1) m : ℕ) : ℤ) = Int.negSucc m % 2 ^ n
    rw [hldiff, Int.negSucc_emod m (mod_cast hpos), Nat.cast_sub hlt]
    push_cast
    ring

end Lib
end Boveda

/-
# A loop that stops at a hit

`scan` goes through the elements at `i`, `i + 1`, … and folds them into a state; it stops
behind the first position at which `hit` holds of the state so far.  Without a hit it is
the fold, `after` (`scan_eq_none_iff`), and it finds one exactly if there is one.

Two scans whose states are related from the start, by a relation that the two steps keep
and under which they hit at the same positions, end at the same place (`scan_rel`).
-/

import Mathlib.Tactic.Common
import Mathlib.Data.Nat.Notation

namespace Boveda
namespace Lib

namespace Scan

variable {α σ τ : Type*}

section

variable (next : σ → α → σ) (hit : ℕ → σ → Bool) (elem : ℕ → α)

/-- The state after the `count` elements from position `i` on. -/
def after (s : σ) (i : ℕ) : ℕ → σ
  | 0 => s
  | count + 1 => next (after s i count) (elem (i + count))

/-- The loop over `count` positions from `i` on: the state at its end, and the position
behind the hit that ended it. -/
def scan : ℕ → ℕ → σ → σ × Option ℕ
  | 0, _, s => (s, none)
  | count + 1, i, s =>
    let s := next s (elem i)
    if hit i s then (s, some (i + 1)) else scan count (i + 1) s

end

variable {next : σ → α → σ} {hit : ℕ → σ → Bool} {elem : ℕ → α} {s : σ} {i count : ℕ}

/-! ### The fold -/

theorem after_add (m n : ℕ) : after next elem s i (m + n) =
    after next elem (after next elem s i m) (i + m) n := by
  induction n with
  | zero => rfl
  | succ n ih => rw [← Nat.add_assoc, after, ih, after, Nat.add_assoc]

/-- The first element. -/
theorem after_succ' (n : ℕ) : after next elem s i (n + 1) =
    after next elem (next s (elem i)) (i + 1) n := by
  rw [Nat.add_comm n 1, after_add]
  rfl

/-- Only the elements that are folded matter. -/
theorem after_congr {elem' : ℕ → α} (h : ∀ j, i ≤ j → j < i + count → elem j = elem' j) :
    after next elem s i count = after next elem' s i count := by
  induction count with
  | zero => rfl
  | succ count ih =>
    have hprefix := ih fun j hj hlt => h j hj (by omega)
    rw [after, after, hprefix, h (i + count) (by omega) (by omega)]

/-- The fold over a part of a list. -/
theorem after_getD {l : List α} {d : α} (h : i + count ≤ l.length) :
    after next (fun j => l.getD j d) s i count = ((l.drop i).take count).foldl next s := by
  induction count with
  | zero => simp [after]
  | succ count ih =>
    have hlt : i + count < l.length := by omega
    have hget : (l.drop i)[count]? = some (l.getD (i + count) d) := by
      rw [List.getElem?_drop, List.getD_eq_getElem?_getD, List.getElem?_eq_getElem hlt,
        Option.getD_some]
    rw [after, ih (by omega), List.take_add_one, hget, List.foldl_append]
    rfl

/-- The fold under two steps that keep a relation. -/
theorem after_rel {next' : τ → α → τ} {t : τ} {R : σ → τ → Prop} (hs : R s t)
    (hnext : ∀ s t a, R s t → R (next s a) (next' t a)) (count : ℕ) :
    R (after next elem s i count) (after next' elem t i count) := by
  induction count with
  | zero => exact hs
  | succ count ih => exact hnext _ _ _ ih

/-! ### The loop -/

theorem scan_bounds {b : ℕ} (h : (scan next hit elem count i s).2 = some b) :
    i < b ∧ b ≤ i + count := by
  induction count generalizing i s with
  | zero => exact absurd h (Option.some_ne_none b).symm
  | succ count ih =>
    rw [scan] at h
    split_ifs at h with hhit
    · obtain rfl := Option.some.inj h
      omega
    · have := ih h
      omega

/-- A loop goes on where a shorter one has found nothing. -/
theorem scan_add {t : σ} (m n : ℕ) (h : scan next hit elem m i s = (t, none)) :
    scan next hit elem (m + n) i s = scan next hit elem n (i + m) t := by
  induction m generalizing i s with
  | zero =>
    obtain rfl : s = t := (Prod.mk.inj h).1
    rw [Nat.zero_add, Nat.add_zero]
  | succ m ih =>
    rw [scan] at h
    rw [Nat.add_right_comm, scan]
    split_ifs at h ⊢ with hhit
    · exact absurd (Prod.mk.inj h).2 (Option.some_ne_none _)
    · rw [ih h, Nat.add_assoc, Nat.add_comm 1 m]

/-- **Without a hit** the loop is the fold. -/
theorem scan_eq_none_iff {t : σ} : scan next hit elem count i s = (t, none) ↔
    t = after next elem s i count ∧
      ∀ k < count, hit (i + k) (after next elem s i (k + 1)) = false := by
  induction count generalizing i s with
  | zero =>
    constructor
    · intro h
      exact ⟨(Prod.mk.inj h).1.symm, fun k hk => absurd hk (Nat.not_lt_zero k)⟩
    · rintro ⟨rfl, -⟩
      rfl
  | succ count ih =>
    have hstep : ∀ k, hit (i + 1 + k) (after next elem (next s (elem i)) (i + 1) (k + 1)) =
        hit (i + (k + 1)) (after next elem s i (k + 1 + 1)) := by
      intro k
      rw [← after_succ' (k + 1), Nat.add_assoc, Nat.add_comm 1 k]
    have hsplit : (∀ k < count + 1, hit (i + k) (after next elem s i (k + 1)) = false) ↔
        hit i (next s (elem i)) = false ∧ ∀ k < count,
          hit (i + 1 + k) (after next elem (next s (elem i)) (i + 1) (k + 1)) = false := by
      simp only [hstep]
      exact Nat.forall_lt_succ_left
    rw [scan, hsplit, after_succ']
    by_cases hhit : hit i (next s (elem i)) = true
    · simp [hhit]
    · rw [if_neg hhit, ih]
      simp [hhit]

/-- The loop finds nothing exactly if there is no hit. -/
theorem scan_snd_eq_none_iff : (scan next hit elem count i s).2 = none ↔
    ∀ k < count, hit (i + k) (after next elem s i (k + 1)) = false := by
  constructor
  · intro h
    exact (scan_eq_none_iff.1 (Prod.ext rfl h)).2
  · intro h
    rw [scan_eq_none_iff.2 ⟨rfl, h⟩]

/-- **Two loops side by side.** -/
theorem scan_rel {next' : τ → α → τ} {hit' : ℕ → τ → Bool} {t : τ} {R : σ → τ → Prop} (hs : R s t)
    (hnext : ∀ s t a, R s t → R (next s a) (next' t a))
    (hhit : ∀ i s t, R s t → hit i s = hit' i t) (count i : ℕ) :
    R (scan next hit elem count i s).1 (scan next' hit' elem count i t).1 ∧
      (scan next hit elem count i s).2 = (scan next' hit' elem count i t).2 := by
  induction count generalizing i s t with
  | zero => exact ⟨hs, rfl⟩
  | succ count ih =>
    have hR := hnext s t (elem i) hs
    rw [scan, scan, hhit i _ _ hR]
    split_ifs with h
    · exact ⟨hR, rfl⟩
    · exact ih hR (i + 1)

end Scan

end Lib
end Boveda

/-
# Work that is served in rounds

In each round some jobs arrive and the first `n` of those waiting are served.
`backlog` counts what waits at the end.  It is `0` exactly when no final stretch
of rounds brings more than it can serve, with what was waiting at the beginning
counted to the longest one (`backlog_eq_zero_iff`).  Two backlogs that start
apart end together exactly when the larger one runs empty on the way
(`backlog_eq_iff`).

The jobs themselves wait in a list, and a round takes its first `n`.  What is
counted of an initial part of the list is served as if it were alone
(`countP_drop_of_initial`).
-/

import Mathlib.Tactic.Common
import Mathlib.Data.List.Nodup
import Mathlib.Data.List.Count
import Mathlib.Algebra.BigOperators.Group.List.Basic
import Mathlib.Algebra.Order.Ring.Nat

namespace Boveda
namespace Lib

/-! ### Counting -/

/-- What waits after the rounds, when `a` waited before them and each round brings
as many as the list says and serves up to `n`. -/
def backlog (n : ℕ) : ℕ → List ℕ → ℕ
  | a, [] => a
  | a, f :: fs => backlog n (a + f - n) fs

theorem backlog_append (n a : ℕ) (fs : List ℕ) (f : ℕ) :
    backlog n a (fs ++ [f]) = backlog n a fs + f - n := by
  induction fs generalizing a with
  | nil => rfl
  | cons g fs ih => exact ih _

/-- **When everything is served.** -/
theorem backlog_eq_zero_iff (n a : ℕ) (fs : List ℕ) : backlog n a fs = 0 ↔
    a + fs.sum ≤ n * fs.length ∧ ∀ k, (fs.drop k).sum ≤ n * (fs.drop k).length := by
  induction fs generalizing a with
  | nil =>
    rw [backlog, List.sum_nil, List.length_nil, Nat.mul_zero, Nat.add_zero, Nat.le_zero]
    refine (and_iff_left fun k => ?_).symm
    rw [List.drop_nil, List.sum_nil]
    exact Nat.zero_le _
  | cons f fs ih =>
    rw [backlog, ih, List.sum_cons, List.length_cons, Nat.mul_succ]
    constructor
    · rintro ⟨hsum, hdrop⟩
      have hall := hdrop 0
      rw [List.drop_zero] at hall
      have hbound : a + (f + fs.sum) ≤ n * fs.length + n := by omega
      refine ⟨hbound, fun k => ?_⟩
      cases k with
      | zero =>
        rw [List.drop_zero, List.sum_cons, List.length_cons, Nat.mul_succ]
        omega
      | succ k => exact hdrop k
    · rintro ⟨hsum, hdrop⟩
      have hall := hdrop 1
      rw [List.drop_one, List.tail_cons] at hall
      exact ⟨by omega, fun k => hdrop (k + 1)⟩

/-- **When two backlogs meet**: from the start, or when all that waits in the
larger one is served in some round. -/
theorem backlog_eq_iff (n : ℕ) {a b : ℕ} (h : a ≤ b) (fs : List ℕ) :
    backlog n a fs = backlog n b fs ↔
      a = b ∨ ∃ j, j < fs.length ∧ b + (fs.take (j + 1)).sum ≤ n * (j + 1) := by
  induction fs generalizing a b with
  | nil =>
    rw [backlog, backlog]
    refine (or_iff_left ?_).symm
    rintro ⟨j, hj, -⟩
    exact Nat.not_lt_zero j hj
  | cons f fs ih =>
    rw [backlog, backlog, ih (by omega)]
    constructor
    · rintro (heq | ⟨j, hj, hsum⟩)
      · by_cases hle : b + f ≤ n
        · refine Or.inr ⟨0, Nat.zero_lt_succ _, ?_⟩
          rw [List.take_succ_cons, List.take_zero, List.sum_cons, List.sum_nil, Nat.mul_succ]
          omega
        · exact Or.inl (by omega)
      · refine Or.inr ⟨j + 1, Nat.succ_lt_succ hj, ?_⟩
        rw [List.take_succ_cons, List.sum_cons, Nat.mul_succ]
        omega
    · rintro (rfl | ⟨j, hj, hsum⟩)
      · exact Or.inl rfl
      · rw [List.take_succ_cons, List.sum_cons, Nat.mul_succ] at hsum
        by_cases hle : b + f ≤ n
        · exact Or.inl (by omega)
        · cases j with
          | zero =>
            rw [List.take_zero, List.sum_nil] at hsum
            omega
          | succ j =>
            exact Or.inr ⟨j, Nat.lt_of_succ_lt_succ hj, by omega⟩

/-! ### Lists of jobs -/

variable {α κ : Type*}

/-- What is counted is split in two. -/
theorem countP_split {p q t : α → Bool} {l : List α}
    (h : ∀ a ∈ l, (p a).toNat = (q a).toNat + (t a).toNat) :
    l.countP p = l.countP q + l.countP t := by
  induction l with
  | nil => rfl
  | cons a l ih =>
    have ha := h a (List.mem_cons_self ..)
    have hl := ih fun b hb => h b (List.mem_cons_of_mem _ hb)
    have hcount : ∀ f : α → Bool, (a :: l).countP f = l.countP f + (f a).toNat := by
      intro f
      rw [List.countP_cons]
      cases f a <;> rfl
    rw [hcount, hcount, hcount]
    omega

/-- Without its first `n` elements, a list without repetitions is what comes
after them. -/
theorem filter_notMem_take [DecidableEq κ] {key : α → κ} {l : List α} (hnd : (l.map key).Nodup)
    (n : ℕ) : l.filter (fun a => key a ∉ (l.take n).map key) = l.drop n := by
  have hsplit : ((l.take n).map key ++ (l.drop n).map key).Nodup := by
    rwa [← List.map_append, List.take_append_drop]
  obtain ⟨-, -, hdisj⟩ := List.nodup_append.1 hsplit
  have htake : (l.take n).filter (fun a => key a ∉ (l.take n).map key) = [] := by
    rw [List.filter_eq_nil_iff]
    intro a ha
    simp only [decide_not, Bool.not_eq_true', decide_eq_false_iff_not, not_not]
    exact List.mem_map_of_mem ha
  have hdrop : (l.drop n).filter (fun a => key a ∉ (l.take n).map key) = l.drop n := by
    rw [List.filter_eq_self]
    intro a ha
    simp only [decide_not, Bool.not_eq_true', decide_eq_false_iff_not]
    exact fun hmem => hdisj _ hmem _ (List.mem_map_of_mem ha) rfl
  calc l.filter (fun a => key a ∉ (l.take n).map key)
      = (l.take n ++ l.drop n).filter (fun a => key a ∉ (l.take n).map key) := by
        rw [List.take_append_drop]
    _ = l.drop n := by rw [List.filter_append, htake, hdrop, List.nil_append]

/-- Serving the first `n` jobs serves the first `n` of an initial part. -/
theorem countP_drop_of_initial {S : α → Bool} {l : List α}
    (hS : l.Pairwise fun a b => S b = true → S a = true) (n : ℕ) :
    (l.drop n).countP S = l.countP S - n := by
  induction l generalizing n with
  | nil => simp
  | cons a l ih =>
    obtain ⟨ha, hl⟩ := List.pairwise_cons.1 hS
    cases n with
    | zero => simp
    | succ n =>
      rw [List.drop_succ_cons, ih hl, List.countP_cons]
      cases hSa : S a with
      | true => simp
      | false =>
        have hnone : l.countP S = 0 := by
          rw [List.countP_eq_zero]
          intro b hb hSb
          rw [ha b hb hSb] at hSa
          cases hSa
        simp [hnone]

/-- A job that is served is served as well when some are not in the list. -/
theorem mem_take_filter {l : List α} {p : α → Bool} {m n : ℕ} {a : α} (ha : a ∈ l.take m)
    (hmn : m ≤ n) (hp : p a = true) : a ∈ (l.filter p).take n := by
  have hmem : a ∈ (l.take m).filter p := List.mem_filter.2 ⟨ha, hp⟩
  have hinit : (l.take m).filter p <+: l.filter p := (List.take_prefix m l).filter p
  have hlen : ((l.take m).filter p).length ≤ n :=
    calc ((l.take m).filter p).length ≤ (l.take m).length := List.length_filter_le ..
      _ ≤ m := List.length_take_le ..
      _ ≤ n := hmn
  rw [List.prefix_iff_eq_take.1 hinit] at hmem
  exact List.take_subset_take_left _ hlen hmem

/-- A job that is served has those before it served. -/
theorem mem_take_of_sublist {l : List α} (hnd : l.Nodup) {a b : α} (h : [a, b].Sublist l) {n : ℕ}
    (hb : b ∈ l.take n) : a ∈ l.take n := by
  rw [← List.take_append_drop n l] at h hnd
  obtain ⟨-, -, hdisj⟩ := List.nodup_append.1 hnd
  obtain ⟨l₁, l₂, heq, h₁, h₂⟩ := List.sublist_append_iff.1 h
  have hout : b ∉ l₂ := fun hmem => hdisj b hb b (h₂.subset hmem) rfl
  cases l₁ with
  | nil =>
    rw [List.nil_append] at heq
    exact absurd (heq ▸ List.mem_cons_of_mem a (List.mem_singleton_self b)) hout
  | cons c l₁ =>
    obtain rfl : a = c := (List.cons.inj heq).1
    exact h₁.subset (List.mem_cons_self ..)

end Lib
end Boveda

/-
# Jobs in an order, each with a number of tries

Jobs wait, and some of them come before others.  A round picks the first few of those that are
ready, and each that it picks has one try less.  `owed` is what the jobs of a kind can still take:
those that come no later than one of them.  What a round does to each job it does to the sum:
no round adds to it (`owed_map_le`), and one that picks a job of the kind takes something off
(`owed_map_lt`).  A round in which a job is ready picks it or one that comes no later
(`exists_mem_take`), so that a job cannot be ready more often than there are tries in front of
it.  Jobs that are level may be picked in any order.
-/

import Mathlib.Algebra.Order.BigOperators.Group.List
import Mathlib.Algebra.Order.Ring.Nat
import Mathlib.Data.List.Sort

namespace Boveda
namespace Lib

variable {α β : Type*}

/-- What the jobs of a kind have left. -/
def owed (left : α → ℕ) (p : α → Bool) (l : List α) : ℕ := ((l.filter p).map left).sum

theorem owed_append (left : α → ℕ) (p : α → Bool) (l m : List α) :
    owed left p (l ++ m) = owed left p l + owed left p m := by
  rw [owed, List.filter_append, List.map_append, List.sum_append]
  rfl

/-- With at most `b` tries for each job. -/
theorem owed_le {left : α → ℕ} {p : α → Bool} {b : ℕ} {l : List α} (h : ∀ a ∈ l, left a ≤ b) :
    owed left p l ≤ b * l.countP p := by
  have hle : ∀ n ∈ (l.filter p).map left, n ≤ b :=
    List.forall_mem_map.2 fun a ha => h a (List.mem_of_mem_filter ha)
  have hsum := List.sum_le_card_nsmul _ b hle
  rwa [List.length_map, Nat.nsmul_eq_mul, Nat.mul_comm, ← List.countP_eq_length_filter] at hsum

/-- A job has no more left than its kind. -/
theorem left_le_owed (left : α → ℕ) {p : α → Bool} {a : α} {l : List α} (ha : a ∈ l)
    (hp : p a = true) : left a ≤ owed left p l :=
  List.single_le_sum (fun _ _ => Nat.zero_le _) _
    (List.mem_map_of_mem (List.mem_filter.2 ⟨ha, hp⟩))

section Map

variable {left : α → ℕ} {left' : β → ℕ} {p : α → Bool} {p' : β → Bool} {f : α → β} {l : List α}

/-- The jobs of the kind, after something has been done to each. -/
theorem owed_map (hp : ∀ a ∈ l, p' (f a) = p a) :
    owed left' p' (l.map f) = owed (left' ∘ f) p l := by
  rw [owed, List.filter_map, List.map_map, owed]
  have hfilter : l.filter (p' ∘ f) = l.filter p := List.filter_congr hp
  rw [hfilter]

/-- **No job gets a try more** than `k`. -/
theorem owed_map_le_add {k : ℕ} (hp : ∀ a ∈ l, p' (f a) = p a)
    (h : ∀ a ∈ l, left' (f a) ≤ left a + k) :
    owed left' p' (l.map f) ≤ owed left p l + k * l.countP p := by
  rw [owed_map hp]
  induction l with
  | nil => exact Nat.zero_le _
  | cons a l ih =>
    have ha := h a (List.mem_cons_self ..)
    have hl := ih (fun b hb => hp b (List.mem_cons_of_mem _ hb))
      fun b hb => h b (List.mem_cons_of_mem _ hb)
    unfold owed at hl ⊢
    by_cases hkind : p a = true
    · rw [List.filter_cons_of_pos hkind, List.countP_cons_of_pos hkind, List.map_cons,
        List.map_cons, List.sum_cons, List.sum_cons, Nat.mul_succ, Function.comp_apply]
      omega
    · rwa [List.filter_cons_of_neg hkind, List.countP_cons_of_neg hkind]

theorem owed_map_le (hp : ∀ a ∈ l, p' (f a) = p a) (h : ∀ a ∈ l, left' (f a) ≤ left a) :
    owed left' p' (l.map f) ≤ owed left p l := by
  have hadd := owed_map_le_add (k := 0) hp h
  rwa [Nat.zero_mul, Nat.add_zero] at hadd

/-- **A job of the kind has a try less.** -/
theorem owed_map_lt (hp : ∀ a ∈ l, p' (f a) = p a) (h : ∀ a ∈ l, left' (f a) ≤ left a) {a : α}
    (ha : a ∈ l) (hkind : p a = true) (hlt : left' (f a) < left a) :
    owed left' p' (l.map f) < owed left p l := by
  rw [owed_map hp]
  exact List.sum_lt_sum _ _ (fun b hb => h b (List.mem_of_mem_filter hb))
    ⟨a, List.mem_filter.2 ⟨ha, hkind⟩, hlt⟩

end Map

/-- **A ready job, or one that comes no later, is picked.** -/
theorem exists_mem_take {r : α → α → Prop} [DecidableRel r] [Std.Total r] [IsTrans α r]
    {ready : List α} {a : α} (ha : a ∈ ready) {n : ℕ} (hn : 0 < n) :
    ∃ b ∈ (ready.insertionSort r).take n, r b a := by
  have hsorted := List.pairwise_insertionSort r ready
  have hmem : a ∈ ready.insertionSort r := (List.mem_insertionSort r).2 ha
  obtain ⟨n, rfl⟩ := Nat.exists_eq_succ_of_ne_zero hn.ne'
  cases hpicked : ready.insertionSort r with
  | nil =>
    rw [hpicked] at hmem
    cases hmem
  | cons b others =>
    rw [hpicked] at hmem hsorted
    refine ⟨b, List.mem_cons_self .., ?_⟩
    rcases List.mem_cons.1 hmem with rfl | hmem
    · exact (Std.Total.total a a).elim id id
    · exact List.rel_of_pairwise_cons hsorted hmem

end Lib
end Boveda

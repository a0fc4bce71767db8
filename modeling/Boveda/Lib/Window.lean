/-
# A window that slides over a history

A queue of times from which the oldest are taken off while they are before a cutoff, and
to which the newest are added.  As long as the times and the cutoffs do not decrease, the
queue has all of the history that any later cutoff can ask for (`Pruned`), so that
pruning it once more leaves exactly the history from the cutoff on
(`Pruned.dropWhile_eq_filter`).
-/

import Mathlib.Order.Lattice
import Mathlib.Data.List.TakeWhile

namespace Boveda
namespace Lib

section

variable {α : Type*} [LinearOrder α] {cutoff cutoff' t : α} {history queue : List α}

/-- The queue is a history without some of its oldest times, which are all before the
cutoff. -/
def Pruned (cutoff : α) (history queue : List α) : Prop :=
  ∃ dropped, history = dropped ++ queue ∧ ∀ d ∈ dropped, d < cutoff

theorem Pruned.refl (cutoff : α) (history : List α) : Pruned cutoff history history :=
  ⟨[], rfl, fun _ h => absurd h List.not_mem_nil⟩

theorem Pruned.mono (h : Pruned cutoff history queue) (hle : cutoff ≤ cutoff') :
    Pruned cutoff' history queue := by
  obtain ⟨dropped, heq, hlt⟩ := h
  exact ⟨dropped, heq, fun d hd => (hlt d hd).trans_le hle⟩

/-- The queue is pruned once more. -/
theorem Pruned.dropWhile (h : Pruned cutoff history queue) :
    Pruned cutoff history (queue.dropWhile fun s => s < cutoff) := by
  obtain ⟨dropped, rfl, hlt⟩ := h
  refine ⟨dropped ++ queue.takeWhile fun s => s < cutoff, ?_, fun d hd => ?_⟩
  · rw [List.append_assoc, List.takeWhile_append_dropWhile]
  · rcases List.mem_append.1 hd with hd | hd
    · exact hlt d hd
    · simpa using List.mem_takeWhile_imp hd

/-- A new time. -/
theorem Pruned.push (h : Pruned cutoff history queue) (t : α) :
    Pruned cutoff (history ++ [t]) (queue ++ [t]) := by
  obtain ⟨dropped, rfl, hlt⟩ := h
  exact ⟨dropped, List.append_assoc .., hlt⟩

/-- In a sorted list the times before a cutoff are the first ones. -/
theorem dropWhile_lt_eq_filter (hsorted : queue.Pairwise (· ≤ ·)) :
    (queue.dropWhile fun s => s < cutoff) = queue.filter fun s => cutoff ≤ s := by
  induction queue with
  | nil => rfl
  | cons s queue ih =>
    rw [List.pairwise_cons] at hsorted
    by_cases hs : s < cutoff
    · rw [List.dropWhile_cons_of_pos (by simpa using hs),
        List.filter_cons_of_neg (by simpa using hs), ih hsorted.2]
    · have hall : ∀ r ∈ s :: queue, decide (cutoff ≤ r) = true := by
        intro r hr
        rcases List.mem_cons.1 hr with rfl | hr
        · exact decide_eq_true (not_lt.1 hs)
        · exact decide_eq_true ((not_lt.1 hs).trans (hsorted.1 r hr))
      rw [List.dropWhile_cons_of_neg (by simpa using hs), List.filter_eq_self.2 hall]

/-- **A pruned queue has the whole window.** -/
theorem Pruned.dropWhile_eq_filter (h : Pruned cutoff history queue)
    (hsorted : history.Pairwise (· ≤ ·)) :
    (queue.dropWhile fun s => s < cutoff) = history.filter fun s => cutoff ≤ s := by
  obtain ⟨dropped, rfl, hlt⟩ := h
  have hnone : dropped.filter (fun s => decide (cutoff ≤ s)) = [] := by
    refine List.filter_eq_nil_iff.2 fun d hd => ?_
    simpa using hlt d hd
  rw [dropWhile_lt_eq_filter (List.pairwise_append.1 hsorted).2.1, List.filter_append, hnone,
    List.nil_append]

end

end Lib
end Boveda

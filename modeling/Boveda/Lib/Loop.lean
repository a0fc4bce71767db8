/-
# Loops that an exception can stop

A `for` of the code whose body can raise is `List.foldlM` in `Except σ σ`: an exception
carries the state it was raised in, and the rounds that follow are not made.  `ended`
is the state in which a loop ends, one way or the other.
-/

import Mathlib.Tactic.Common

namespace Boveda
namespace Lib

variable {σ ι β : Type*} {step : σ → ι → Except σ σ} {s : σ} {ls : List ι}

/-- The state at the end, finished or stopped. -/
def ended : Except σ σ → σ
  | .ok s => s
  | .error s => s

/-- What no round changes, no loop changes, stopped or not. -/
theorem ended_foldlM (g : σ → β) (h : ∀ s x, g (ended (step s x)) = g s) (ls : List ι) (s : σ) :
    g (ended (ls.foldlM step s)) = g s := by
  induction ls generalizing s with
  | nil => rfl
  | cons x ls ih =>
    have hx := h s x
    rw [List.foldlM_cons]
    cases hs : step s x with
    | error s' =>
      rw [hs] at hx
      exact hx
    | ok s' =>
      rw [hs] at hx
      exact (ih s').trans hx

/-- A loop in which no round raises. -/
theorem foldlM_eq_ok {f : σ → ι → σ} (h : ∀ x ∈ ls, ∀ s, step s x = .ok (f s x)) :
    ls.foldlM step s = .ok (ls.foldl f s) := by
  induction ls generalizing s with
  | nil => rfl
  | cons x ls ih =>
    rw [List.foldlM_cons, h x (List.mem_cons_self ..)]
    exact ih fun y hy => h y (List.mem_cons_of_mem _ hy)

/-- A loop in which some round raises. -/
theorem exists_foldlM_eq_error {x : ι} (hx : x ∈ ls) (h : ∀ s, ∃ s', step s x = .error s') :
    ∃ s', ls.foldlM step s = .error s' := by
  induction ls generalizing s with
  | nil => exact absurd hx List.not_mem_nil
  | cons y ls ih =>
    rw [List.foldlM_cons]
    rcases List.mem_cons.1 hx with rfl | hx
    · obtain ⟨s', hs'⟩ := h s
      exact ⟨s', by rw [hs']; rfl⟩
    · cases hs : step s y with
      | error s' => exact ⟨s', rfl⟩
      | ok s' => exact ih hx

end Lib
end Boveda

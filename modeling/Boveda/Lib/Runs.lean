/-
# Machines, their runs, and the two induction rules for them

A machine is a partial step function `step : σ → ε → Option σ`: an event `e`
is enabled in a state `s` when `step s e` is `some`.  Choices of the environment
(a scheduler, a network, a random source) are events, so every interleaving of
several parties is a list of events.

`Reach step ok s t` says that a run leads from `s` to `t` and that each of its
steps was taken in a state where its event meets `ok`; `Reachable` is the case
without a condition.  `Reach.invariant` is the induction that a safety proof
needs: what one admitted step preserves, a whole run preserves.

For a fixed list of events, `AllStates` is the conjunction of a property over
the states the list leads through, and `AllSteps` the conjunction of a
condition over its steps.  `allStates_iff_allSteps` turns a step lemma in both
directions (a good step keeps the invariant, a bad one breaks the property)
into an exact condition on whole runs.  `allSteps_cases` is the same for the
state in which a run ends, where what a bad step breaks stays broken.
`AllMoves` and `allMoves_iff_allSteps` are the same for a property of two
successive states.
-/

import Mathlib.Tactic.Common

namespace Boveda
namespace Lib

variable {σ ε : Type*} {step : σ → ε → Option σ}

/-- A run from `s`, each step of which meets `ok` where it is taken. -/
inductive Reach (step : σ → ε → Option σ) (ok : σ → ε → Prop) (s : σ) : σ → Prop
  | refl : Reach step ok s s
  | tail {t u : σ} {e : ε} : Reach step ok s t → ok t e → step t e = some u → Reach step ok s u

/-- A run from `s` under no condition. -/
abbrev Reachable (step : σ → ε → Option σ) (s t : σ) : Prop := Reach step (fun _ _ => True) s t

/-- **The invariant rule.**  What every admitted step preserves holds in every
state an admitted run reaches. -/
theorem Reach.invariant {ok : σ → ε → Prop} {I : σ → Prop} {s t : σ} (h : Reach step ok s t)
    (h₀ : I s) (hstep : ∀ t e u, I t → ok t e → step t e = some u → I u) : I t := by
  induction h with
  | refl => exact h₀
  | tail _ hok hs ih => exact hstep _ _ _ ih hok hs

/-- A weaker condition admits more runs. -/
theorem Reach.mono {ok ok' : σ → ε → Prop} {s t : σ} (h : Reach step ok s t)
    (hw : ∀ t e, ok t e → ok' t e) : Reach step ok' s t := by
  induction h with
  | refl => exact .refl
  | tail _ hok hs ih => exact ih.tail (hw _ _ hok) hs

/-- What holds at the end of a run, and of a state whenever it holds after a step from it,
holds all along. -/
theorem Reach.backward {P : σ → Prop} {s t : σ} (h : Reachable step s t)
    (hback : ∀ t e u, step t e = some u → P u → P t) (ht : P t) :
    Reach step (fun t _ => P t) s t := by
  induction h with
  | refl => exact .refl
  | tail _ _ hs ih =>
    have hbefore := hback _ _ _ hs ht
    exact (ih hbefore).tail hbefore hs

/-- A run continues a run. -/
theorem Reach.trans {ok : σ → ε → Prop} {r s t : σ} (hr : Reach step ok r s)
    (h : Reach step ok s t) : Reach step ok r t := by
  induction h with
  | refl => exact hr
  | tail _ hok hs ih => exact ih.tail hok hs

/-- The state after a list of events, `none` when one of them is not enabled. -/
def exec (step : σ → ε → Option σ) : σ → List ε → Option σ
  | s, [] => some s
  | s, e :: es => (step s e).bind fun t => exec step t es

/-- Events one after the other. -/
theorem exec_append {s t : σ} {es fs : List ε} (h : exec step s es = some t) :
    exec step s (es ++ fs) = exec step t fs := by
  induction es generalizing s with
  | nil => rw [List.nil_append, Option.some.inj h]
  | cons e es ih =>
    obtain ⟨u, hu, h⟩ := Option.bind_eq_some_iff.1 h
    rw [List.cons_append, exec, hu, Option.bind_some, ih h]

/-- The last of a list of events. -/
theorem step_of_exec {s t u : σ} {es : List ε} {e : ε} (ht : exec step s es = some t)
    (hu : exec step s (es ++ [e]) = some u) : step t e = some u := by
  rw [exec_append ht] at hu
  obtain ⟨v, hv, hu⟩ := Option.bind_eq_some_iff.1 hu
  rwa [← Option.some.inj hu]

/-- A list of events that executes continues a run. -/
theorem Reach.exec {r s t : σ} {es : List ε} (hr : Reachable step r s)
    (h : exec step s es = some t) : Reachable step r t := by
  induction es generalizing s with
  | nil => exact Option.some.inj h ▸ hr
  | cons e es ih =>
    obtain ⟨u, hu, h⟩ := Option.bind_eq_some_iff.1 h
    exact ih (hr.tail trivial hu) h

/-- A list of events that executes is a run. -/
theorem reachable_of_exec {s t : σ} {es : List ε} (h : exec step s es = some t) :
    Reachable step s t :=
  Reach.exec .refl h

/-- **Two machines side by side.**  If a relation holds between two states and every event
keeps it, or is enabled in neither, then the same events lead to related states, or to none
in both. -/
theorem exec_rel {τ : Type*} {step' : τ → ε → Option τ} {R : σ → τ → Prop}
    (hstep : ∀ s t e, R s t → Option.Rel R (step s e) (step' t e)) {s : σ} {t : τ} (h : R s t)
    (es : List ε) : Option.Rel R (exec step s es) (exec step' t es) := by
  induction es generalizing s t with
  | nil => exact .some h
  | cons e es ih =>
    have he := hstep s t e h
    rw [exec, exec]
    cases hs : step s e with
    | none =>
      rw [hs] at he
      cases ht : step' t e with
      | none => exact .none
      | some v =>
        rw [ht] at he
        cases he
    | some u =>
      rw [hs] at he
      cases ht : step' t e with
      | none =>
        rw [ht] at he
        cases he
      | some v =>
        rw [ht] at he
        cases he with
        | some huv => exact ih huv

/-- `P` in every state that the events lead through from `s`, the first
included; what follows an event that is not enabled is not reached. -/
def AllStates (step : σ → ε → Option σ) (P : σ → Prop) : σ → List ε → Prop
  | s, [] => P s
  | s, e :: es => P s ∧ ∀ t, step s e = some t → AllStates step P t es

/-- `ok` at every step that the events take from `s`. -/
def AllSteps (step : σ → ε → Option σ) (ok : σ → ε → Prop) : σ → List ε → Prop
  | _, [] => True
  | s, e :: es => ∀ t, step s e = some t → ok s e ∧ AllSteps step ok t es

instance AllStates.decidable (step : σ → ε → Option σ) (P : σ → Prop) [DecidablePred P] :
    ∀ (s : σ) (es : List ε), Decidable (AllStates step P s es)
  | s, [] => inferInstanceAs (Decidable (P s))
  | s, e :: es =>
    match h : step s e with
    | none => decidable_of_iff (P s) (by simp [AllStates, h])
    | some t =>
      have := AllStates.decidable step P t es
      decidable_of_iff (P s ∧ AllStates step P t es) (by simp [AllStates, h])

/-- **An exact condition on runs**, of runs that stay in `H`.  Let `I` be an invariant
under which `P` holds.  If a step that meets `ok` keeps `I`, and a step that does not meet
it ends outside `P`, then `P` holds along a run exactly when every step of the run meets
`ok`. -/
theorem allStates_iff_allSteps_of_allStates {I P H : σ → Prop} {ok : σ → ε → Prop}
    (hP : ∀ s, I s → P s) (hgood : ∀ s e t, I s → step s e = some t → H t → ok s e → I t)
    (hbad : ∀ s e t, I s → step s e = some t → ¬ ok s e → ¬ P t)
    {s : σ} (hs : I s) {es : List ε} (hH : AllStates step H s es) :
    AllStates step P s es ↔ AllSteps step ok s es := by
  induction es generalizing s with
  | nil => exact ⟨fun _ => trivial, fun _ => hP s hs⟩
  | cons e es ih =>
    have hhead : ∀ {Q : σ → Prop} {t : σ}, AllStates step Q t es → Q t := by
      intro Q t h
      cases es with
      | nil => exact h
      | cons _ _ => exact h.1
    constructor
    · rintro ⟨-, h⟩ t ht
      have hok : ok s e := by
        by_contra hno
        exact hbad s e t hs ht hno (hhead (h t ht))
      have hrest := hH.2 t ht
      exact ⟨hok, (ih (hgood s e t hs ht (hhead hrest) hok) hrest).1 (h t ht)⟩
    · refine fun h => ⟨hP s hs, fun t ht => ?_⟩
      obtain ⟨hok, hsteps⟩ := h t ht
      have hrest := hH.2 t ht
      exact (ih (hgood s e t hs ht (hhead hrest) hok) hrest).2 hsteps

theorem allStates_true (s : σ) (es : List ε) : AllStates step (fun _ => True) s es := by
  induction es generalizing s with
  | nil => trivial
  | cons e es ih => exact ⟨trivial, fun t _ => ih t⟩

/-- **An exact condition on runs.**  Let `I` be an invariant under which `P`
holds.  If a step that meets `ok` keeps `I`, and a step that does not meet it
ends outside `P`, then `P` holds along a run exactly when every step of the run
meets `ok`. -/
theorem allStates_iff_allSteps {I P : σ → Prop} {ok : σ → ε → Prop} (hP : ∀ s, I s → P s)
    (hgood : ∀ s e t, I s → step s e = some t → ok s e → I t)
    (hbad : ∀ s e t, I s → step s e = some t → ¬ ok s e → ¬ P t)
    {s : σ} (hs : I s) (es : List ε) : AllStates step P s es ↔ AllSteps step ok s es :=
  allStates_iff_allSteps_of_allStates hP (fun s e t hI hstep _ => hgood s e t hI hstep) hbad hs
    (allStates_true s es)

/-- **An exact condition on the end of a run.**  Let a step that meets `ok` keep the
invariant `I`, let one that does not meet it lead from `I` to `B`, and let every step keep
`B`.  Then a run ends in `I` if all of its steps meet `ok`, and in `B` otherwise. -/
theorem allSteps_cases {I B : σ → Prop} {ok : σ → ε → Prop}
    (hgood : ∀ s e t, I s → step s e = some t → ok s e → I t)
    (hbad : ∀ s e t, I s → step s e = some t → ¬ ok s e → B t)
    (hstay : ∀ s e t, B s → step s e = some t → B t)
    {s t : σ} (hs : I s) {es : List ε} (h : exec step s es = some t) :
    (AllSteps step ok s es ∧ I t) ∨ (¬ AllSteps step ok s es ∧ B t) := by
  induction es generalizing s with
  | nil =>
    obtain rfl := Option.some.inj h
    exact .inl ⟨trivial, hs⟩
  | cons e es ih =>
    obtain ⟨u, hu, hrest⟩ := Option.bind_eq_some_iff.1 h
    by_cases hok : ok s e
    · rcases ih (hgood s e u hs hu hok) hrest with ⟨hsteps, ht⟩ | ⟨hsteps, ht⟩
      · refine .inl ⟨fun v hv => ?_, ht⟩
        obtain rfl := Option.some.inj (hu.symm.trans hv)
        exact ⟨hok, hsteps⟩
      · exact .inr ⟨fun hall => hsteps (hall u hu).2, ht⟩
    · refine .inr ⟨fun hall => hok (hall u hu).1, ?_⟩
      exact (reachable_of_exec hrest).invariant (hbad s e u hs hu hok)
        fun v e' w hv _ hw => hstay v e' w hv hw

/-- `R` between any two successive states that the events lead through from `s`. -/
def AllMoves (step : σ → ε → Option σ) (R : σ → ε → σ → Prop) : σ → List ε → Prop
  | _, [] => True
  | s, e :: es => ∀ t, step s e = some t → R s e t ∧ AllMoves step R t es

/-- The move by which a run goes on after its events `es`. -/
theorem AllMoves.of_exec {R : σ → ε → σ → Prop} {s t u : σ} {es : List ε} {e : ε}
    (h : AllMoves step R s (es ++ [e])) (ht : exec step s es = some t) (hu : step t e = some u) :
    R t e u := by
  induction es generalizing s with
  | nil =>
    obtain rfl : s = t := Option.some.inj ht
    exact (h u hu).1
  | cons a es ih =>
    obtain ⟨v, hv, hrest⟩ := Option.bind_eq_some_iff.1 ht
    exact ih (h v hv).2 hrest

/-- **A condition on moves.**  If a step that meets `ok` keeps the invariant `I` and moves as
`R` says, then so does every move of a run whose steps meet `ok`. -/
theorem AllSteps.allMoves {I : σ → Prop} {R : σ → ε → σ → Prop} {ok : σ → ε → Prop}
    (hgood : ∀ s e t, I s → step s e = some t → ok s e → R s e t ∧ I t)
    {s : σ} (hs : I s) {es : List ε} (h : AllSteps step ok s es) : AllMoves step R s es := by
  induction es generalizing s with
  | nil => trivial
  | cons e es ih =>
    intro t ht
    obtain ⟨hok, hrest⟩ := h t ht
    obtain ⟨hR, hI⟩ := hgood s e t hs ht hok
    exact ⟨hR, ih hI hrest⟩

/-- **An exact condition on moves.**  If a step that meets `ok` keeps the
invariant `I` and moves as `R` says, and a step that does not meet it does not,
then every move of a run is as `R` says exactly when every step of the run meets
`ok`. -/
theorem allMoves_iff_allSteps {I : σ → Prop} {R : σ → ε → σ → Prop} {ok : σ → ε → Prop}
    (hgood : ∀ s e t, I s → step s e = some t → ok s e → R s e t ∧ I t)
    (hbad : ∀ s e t, I s → step s e = some t → ¬ ok s e → ¬ R s e t)
    {s : σ} (hs : I s) (es : List ε) : AllMoves step R s es ↔ AllSteps step ok s es := by
  refine ⟨fun h => ?_, AllSteps.allMoves hgood hs⟩
  induction es generalizing s with
  | nil => trivial
  | cons e es ih =>
    intro t ht
    obtain ⟨hR, hrest⟩ := h t ht
    have hok : ok s e := by
      by_contra hno
      exact hbad s e t hs ht hno hR
    exact ⟨hok, ih (hgood s e t hs ht hok).2 hrest⟩

end Lib
end Boveda

/-
# The cooldown of an open circuit

While a circuit is OPEN, calls that were admitted before end: `_record_success`,
`_record_failure` and the `finally` of `call` run, and find a state that they leave
as it is.  Only the admission in `call` ends OPEN, and it reads the clock first
(`Cooling.step`).  So from the moment a circuit opens no call is admitted before the
cooldown has passed (`no_call_passes_while_open`).
-/

import Boveda.Breaker.Circuit
import Mathlib.Tactic.Linarith

namespace Boveda
namespace Breaker

open Lib

/-- The call `c` passes the gate between two states: it goes on to its function. -/
def Passes (w w' : World) (c : ℕ) : Prop :=
  (∃ a, w'.calls c = .executing a) ∧ ¬ ∃ a, w.calls c = .executing a

/-- The circuit has been OPEN since `t`, or the cooldown that began at `t` is over. -/
def Cooling (cfg : CircuitBreakerConfig) (t : ℚ) (w : World) : Prop :=
  w.breaker.state = .opened ∧ w.breaker.openedAt = t ∨ t + cfg.cooldownSeconds ≤ w.clock

variable {cfg : CircuitBreakerConfig} {now t : ℚ} {b : CircuitBreaker} {w w' : World} {e : Event}

namespace CircuitBreaker

/-- An OPEN circuit rejects every call before its cooldown is over. -/
theorem admission_of_opened (hs : b.state = .opened) (h : now < b.openedAt + cfg.cooldownSeconds) :
    ∃ error, b.admission cfg now = (b, .error error) := by
  have hcool : ¬ cfg.cooldownSeconds ≤ now - b.openedAt := by linarith
  exact ⟨_, if_pos ⟨hs, hcool⟩⟩

theorem recordSuccess_of_opened (hs : b.state = .opened) : b.recordSuccess cfg = b := by
  unfold recordSuccess
  rw [hs]

theorem recordFailure_of_opened (hs : b.state = .opened) : b.recordFailure cfg now = b := by
  unfold recordFailure
  rw [hs]

theorem release_of_opened (hs : b.state = .opened) : b.release now = b :=
  if_neg fun h => by
    rw [hs] at h
    cases h.1

/-- Whatever opens a circuit writes down when. -/
theorem openedAt_recordFailure (hs : b.state ≠ .opened)
    (h : (b.recordFailure cfg now).state = .opened) :
    (b.recordFailure cfg now).openedAt = now := by
  unfold recordFailure at h ⊢
  cases hst : b.state with
  | halfOpen => rfl
  | opened => exact absurd hst hs
  | closed =>
    rw [hst] at h
    dsimp only at h ⊢
    split_ifs at h ⊢ with hfull
    rfl

theorem openedAt_release (hs : b.state ≠ .opened) (h : (b.release now).state = .opened) :
    (b.release now).openedAt = now := by
  unfold release at h ⊢
  split_ifs at h ⊢
  · rfl
  · exact absurd h hs

theorem recordSuccess_not_opened (hs : b.state ≠ .opened) :
    (b.recordSuccess cfg).state ≠ .opened := by
  unfold recordSuccess
  cases hst : b.state with
  | halfOpen =>
    dsimp only
    split_ifs <;> exact CircuitState.noConfusion
  | closed => exact CircuitState.noConfusion
  | opened => exact absurd hst hs

theorem admission_not_opened (hs : b.state ≠ .opened) :
    (b.admission cfg now).1.state ≠ .opened := by
  rw [admission, if_neg (fun h => hs h.1), if_neg hs]
  dsimp only
  split_ifs <;> exact hs

end CircuitBreaker

/-- The clock goes on. -/
theorem clock_step (hfree : Free w) (h : step cfg w e = some w') :
    w.clock ≤ e.now ∧ w'.clock = e.now := by
  have hclock : w.clock ≤ e.now := by
    by_contra hback
    rw [step, if_neg hback] at h
    cases h
  refine ⟨hclock, ?_⟩
  cases hfree.moves h with
  | start _ _ =>
    simp only [runSection]
    split <;> rfl
  | _ => rfl

/-- A call that goes on to something else than its function passes no gate. -/
theorem not_passes_goto {c d : ℕ} {p : Phase} (hcalls : w'.calls = w.calls)
    (hp : ∀ a, p ≠ .executing a) : ¬ Passes w (w'.goto c p) d := by
  rintro ⟨⟨a, ha⟩, hno⟩
  have ha : Function.update w'.calls c p d = .executing a := ha
  rw [hcalls] at ha
  by_cases hd : d = c
  · rw [hd, Function.update_self] at ha
    exact hp a ha
  · rw [Function.update_of_ne hd] at ha
    exact hno ⟨a, ha⟩

/-- **One step** while the circuit cools down, or later. -/
theorem Cooling.step (hfree : Free w) (h : Cooling cfg t w) (hs : step cfg w e = some w') :
    Cooling cfg t w' ∧ ∀ c, Passes w w' c → t + cfg.cooldownSeconds ≤ e.now := by
  obtain ⟨hclock, hclock'⟩ := clock_step hfree hs
  by_cases hover : t + cfg.cooldownSeconds ≤ e.now
  · exact ⟨.inr (hclock' ▸ hover), fun _ _ => hover⟩
  obtain ⟨hopen, rfl⟩ : w.breaker.state = .opened ∧ w.breaker.openedAt = t :=
    h.resolve_right fun hle => hover (hle.trans hclock)
  -- the section leaves the breaker as it is, and the call has no function to go on to
  have hkeeps : w'.breaker = w.breaker ∧ ∀ c, ¬ Passes w w' c := by
    cases hfree.moves hs with
    | start _ _ =>
      obtain ⟨error, hadm⟩ := CircuitBreaker.admission_of_opened hopen (not_le.1 hover)
      simp only [runSection, hadm]
      exact ⟨rfl, fun c => not_passes_goto rfl fun _ => Phase.noConfusion⟩
    | succeed _ _ =>
      exact ⟨CircuitBreaker.recordSuccess_of_opened hopen,
        fun c => not_passes_goto rfl fun _ => Phase.noConfusion⟩
    | fail _ _ =>
      exact ⟨CircuitBreaker.recordFailure_of_opened hopen,
        fun c => not_passes_goto rfl fun _ => Phase.noConfusion⟩
    | release _ _ =>
      exact ⟨CircuitBreaker.release_of_opened hopen,
        fun c => not_passes_goto rfl fun _ => Phase.noConfusion⟩
    | cancel _ _ => exact ⟨rfl, fun c => not_passes_goto rfl fun _ => Phase.noConfusion⟩
  obtain ⟨hbreaker, hpasses⟩ := hkeeps
  exact ⟨.inl ⟨hbreaker ▸ hopen, hbreaker ▸ rfl⟩, fun c hc => absurd hc (hpasses c)⟩

/-- A circuit that opens cools down from then on. -/
theorem cooling_of_opens (hfree : Free w) (hs : step cfg w e = some w')
    (hbefore : w.breaker.state ≠ .opened) (hafter : w'.breaker.state = .opened) :
    Cooling cfg e.now w' := by
  refine .inl ⟨hafter, ?_⟩
  cases hfree.moves hs with
  | start _ _ =>
    have hadm : (w.breaker.admission cfg e.now).1.state ≠ .opened :=
      CircuitBreaker.admission_not_opened hbefore
    simp only [runSection] at hafter
    split at hafter <;> next heq => exact absurd hafter (by rw [heq] at hadm; exact hadm)
  | succeed _ _ => exact absurd hafter (CircuitBreaker.recordSuccess_not_opened hbefore)
  | fail _ _ => exact CircuitBreaker.openedAt_recordFailure hbefore hafter
  | release _ _ => exact CircuitBreaker.openedAt_release hbefore hafter
  | cancel _ _ => exact absurd hafter hbefore

/-- **No call passes an open circuit.**  When a step at time `t` has opened the circuit,
every call that is admitted later, whatever becomes of the calls in flight, is admitted
no earlier than `t` and the cooldown. -/
theorem no_call_passes_while_open {w₀ w₁ w₂ w₃ : World} {f : Event} {c : ℕ}
    (hreach : Reachable (step cfg) .init w₀) (hopens : step cfg w₀ e = some w₁)
    (hbefore : w₀.breaker.state ≠ .opened) (hafter : w₁.breaker.state = .opened)
    (hlater : Reachable (step cfg) w₁ w₂) (hs : step cfg w₂ f = some w₃) (hc : Passes w₂ w₃ c) :
    e.now + cfg.cooldownSeconds ≤ f.now := by
  have hfree : Free w₀ := hreach.invariant free_init fun _ _ _ hw _ h => hw.step h
  obtain ⟨hfree₂, hcooling⟩ : Free w₂ ∧ Cooling cfg e.now w₂ :=
    hlater.invariant (I := fun w => Free w ∧ Cooling cfg e.now w)
      ⟨hfree.step hopens, cooling_of_opens hfree hopens hbefore hafter⟩
      fun _ _ _ hI _ h => ⟨hI.1.step h, (hI.2.step hI.1 h).1⟩
  exact (hcooling.step hfree₂ hs).2 c hc

/-- A circuit that opens at the first failure, for ten seconds. -/
def brief : CircuitBreakerConfig := { failureThreshold := 1, cooldownSeconds := 10 }

/-- Two calls are under way when the failure of the first opens the circuit; the other
returns, and after the cooldown a third is made. -/
def briefRun : List Event :=
  [⟨.start, 0, 1⟩, ⟨.start, 1, 2⟩, ⟨.fail, 0, 3⟩, ⟨.succeed, 1, 4⟩, ⟨.start, 2, 15⟩]

/-- The third call is admitted, and comes late enough. -/
theorem no_call_passes_while_open_brief : ∃ w₂ w₃ : World,
    step brief w₂ ⟨.start, 2, 15⟩ = some w₃ ∧ Passes w₂ w₃ 2 ∧
      (3 : ℚ) + brief.cooldownSeconds ≤ 15 := by
  obtain ⟨w₀, h₀, hs₀⟩ := Option.map_eq_some_iff.1 (show (exec (step brief) .init
    (briefRun.take 2)).map (fun w => w.breaker.state) = some .closed by decide +kernel)
  obtain ⟨w₁, h₁, hs₁⟩ := Option.map_eq_some_iff.1 (show (exec (step brief) .init
    (briefRun.take 3)).map (fun w => w.breaker.state) = some .opened by decide +kernel)
  obtain ⟨w₂, h₂, hc₂⟩ := Option.map_eq_some_iff.1 (show (exec (step brief) .init
    (briefRun.take 4)).map (fun w => w.calls 2) = some .idle by decide +kernel)
  obtain ⟨w₃, h₃, hc₃⟩ := Option.map_eq_some_iff.1 (show (exec (step brief) .init
    (briefRun.take 5)).map (fun w => w.calls 2) = some (.executing (.canary 1)) by decide +kernel)
  have hopens : step brief w₀ ⟨.fail, 0, 3⟩ = some w₁ := step_of_exec h₀ h₁
  have hreturns : step brief w₁ ⟨.succeed, 1, 4⟩ = some w₂ := step_of_exec h₁ h₂
  have hstarts : step brief w₂ ⟨.start, 2, 15⟩ = some w₃ := step_of_exec h₂ h₃
  have hpasses : Passes w₂ w₃ 2 := by
    refine ⟨⟨_, hc₃⟩, ?_⟩
    rintro ⟨a, ha⟩
    rw [hc₂] at ha
    cases ha
  exact ⟨w₂, w₃, hstarts, hpasses, no_call_passes_while_open (reachable_of_exec h₀) hopens
    (by rw [hs₀]; exact CircuitState.noConfusion) hs₁ (Reach.refl.tail trivial hreturns) hstarts
    hpasses⟩

end Breaker
end Boveda

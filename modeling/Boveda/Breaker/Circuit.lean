/-
# The circuit breaker

`src/boveda/circuit_breaker.py`, class `CircuitBreaker`.  A breaker guards one
destination: it is `CLOSED` in normal operation, `OPEN` after too many failures
in a rolling window, and `HALF_OPEN` when a cooldown has passed and a probe, the
canary, may be sent.  Any number of `call`s run concurrently.

Each of the four `async with self._lock` blocks is a section: the admission in
`call`, `_record_success`, `_record_failure` and the `finally` of `call`.  The
model has the lock, and a call that finds it taken waits for it and can be
cancelled there.  No section contains an `await`, so the step that takes the
lock also gives it back; that no call ever waits is `Free.step`, not an
assumption.

The clock is `time.monotonic()`, read by each section; an event carries the
reading, and readings do not decrease.  `period`, `lastSetter` and
`probeSuccesses` are history variables, which no step reads.
-/

import Boveda.Lib.Runs
import Mathlib.Algebra.Order.Ring.Rat
import Mathlib.Logic.Function.Basic

namespace Boveda
namespace Breaker

open Lib

/-- `CircuitState`. -/
inductive CircuitState
  | closed | opened | halfOpen
  deriving DecidableEq, Repr

/-- `CircuitBreakerConfig`; times in seconds. -/
structure CircuitBreakerConfig where
  failureThreshold : ℤ := 3
  failureWindowSeconds : ℚ := 30
  cooldownSeconds : ℚ := 60
  halfOpenSuccessThreshold : ℤ := 1

/-- The fields of a `CircuitBreaker` that its methods write. -/
structure CircuitBreaker where
  state : CircuitState := .closed
  failureTimestamps : List ℚ := []
  openedAt : ℚ := 0
  consecutiveSuccesses : ℕ := 0
  canaryInFlight : Bool := false
  deriving DecidableEq, Repr

/-- `CircuitBreakerOpenError`: the rest of the cooldown, or a canary in transit. -/
inductive CircuitBreakerOpenError
  | cooldown (remaining : ℚ)
  | canaryInTransit
  deriving DecidableEq, Repr

namespace CircuitBreaker

/-- The transition by cooldown, OPEN to HALF_OPEN. -/
def toHalfOpen (b : CircuitBreaker) : CircuitBreaker :=
  { b with state := .halfOpen, consecutiveSuccesses := 0, canaryInFlight := false }

/-- The admission in `call`: the error it raises, or `canary_claimed`. -/
def admission (cfg : CircuitBreakerConfig) (now : ℚ) (b : CircuitBreaker) :
    CircuitBreaker × Except CircuitBreakerOpenError Bool :=
  if b.state = .opened ∧ ¬ cfg.cooldownSeconds ≤ now - b.openedAt then
    (b, .error (.cooldown (cfg.cooldownSeconds - (now - b.openedAt))))
  else
    let b := if b.state = .opened then b.toHalfOpen else b
    if b.state = .halfOpen then
      if b.canaryInFlight then (b, .error .canaryInTransit)
      else ({ b with canaryInFlight := true }, .ok true)
    else (b, .ok false)

/-- `_record_success`. -/
def recordSuccess (cfg : CircuitBreakerConfig) (b : CircuitBreaker) : CircuitBreaker :=
  match b.state with
  | .halfOpen =>
    let b := { b with
      canaryInFlight := false
      consecutiveSuccesses := b.consecutiveSuccesses + 1 }
    if cfg.halfOpenSuccessThreshold ≤ b.consecutiveSuccesses then
      { b with state := .closed, failureTimestamps := [], consecutiveSuccesses := 0 }
    else b
  | .closed => { b with failureTimestamps := [] }
  | .opened => b

/-- `_record_failure`. -/
def recordFailure (cfg : CircuitBreakerConfig) (now : ℚ) (b : CircuitBreaker) : CircuitBreaker :=
  match b.state with
  | .halfOpen =>
    { b with canaryInFlight := false, state := .opened, openedAt := now, consecutiveSuccesses := 0 }
  | .closed =>
    let cutoff := now - cfg.failureWindowSeconds
    let b := { b with
      failureTimestamps := b.failureTimestamps.dropWhile (fun t => t < cutoff) ++ [now] }
    if cfg.failureThreshold ≤ b.failureTimestamps.length then
      { b with state := .opened, openedAt := now }
    else b
  | .opened => b

/-- The `finally` of `call`, entered when `canary_claimed` is still set. -/
def release (now : ℚ) (b : CircuitBreaker) : CircuitBreaker :=
  if b.state = .halfOpen ∧ b.canaryInFlight then
    { b with canaryInFlight := false, state := .opened, openedAt := now }
  else b

end CircuitBreaker

/-! ### Calls -/

/-- How a call was admitted: while the circuit was CLOSED, or as a canary, after
the `period`-th transition from OPEN to HALF_OPEN. -/
inductive Admission
  | closed
  | canary (period : ℕ)
  deriving DecidableEq, Repr

/-- The local `canary_claimed` of an admitted call. -/
def Admission.claimed : Admission → Bool
  | .closed => false
  | .canary _ => true

/-- The blocks that `async with self._lock` guards. -/
inductive Section
  | admission
  | recordSuccess (a : Admission)
  | recordFailure (a : Admission)
  | release (a : Admission)
  deriving DecidableEq, Repr

/-- How a call ended. -/
inductive Outcome
  | returned
  | raised
  | rejected (e : CircuitBreakerOpenError)
  | cancelled
  deriving DecidableEq, Repr

/-- Where a `call` stands: `executing` is the `await func(…)`. -/
inductive Phase
  | idle
  | waiting (s : Section)
  | executing (a : Admission)
  | ended (o : Outcome)
  deriving DecidableEq, Repr

/-- A breaker, its lock and its calls. -/
structure World where
  breaker : CircuitBreaker := {}
  locked : Bool := false
  calls : ℕ → Phase := fun _ => .idle
  clock : ℚ := 0
  /-- How often the circuit went from OPEN to HALF_OPEN. -/
  period : ℕ := 0
  /-- The call that last set `canary_in_flight`. -/
  lastSetter : Option ℕ := none
  /-- The canaries of this period that have succeeded. -/
  probeSuccesses : ℕ := 0

/-- A new breaker, before the first call. -/
def World.init : World := {}

/-- What happens to a call: it is made, it gets the lock it waits for, its
function returns or raises, or it is cancelled. -/
inductive Act
  | start | resume | succeed | fail | cancel
  deriving DecidableEq, Repr

/-- An act of one call, at a reading of the clock. -/
structure Event where
  act : Act
  call : ℕ
  now : ℚ

/-- The call `c` is now at `p`. -/
def World.goto (c : ℕ) (p : Phase) (w : World) : World :=
  { w with calls := Function.update w.calls c p }

/-- A section, and what the call does after it. -/
def runSection (cfg : CircuitBreakerConfig) (now : ℚ) (c : ℕ) : Section → World → World
  | .admission, w =>
    match w.breaker.admission cfg now with
    | (b, .error e) => { w with breaker := b }.goto c (.ended (.rejected e))
    | (b, .ok false) => { w with breaker := b }.goto c (.executing .closed)
    | (b, .ok true) =>
      let fresh : Bool := w.breaker.state = .opened
      let period := if fresh then w.period + 1 else w.period
      { w with
        breaker := b
        period := period
        probeSuccesses := if fresh then 0 else w.probeSuccesses
        lastSetter := some c }.goto c (.executing (.canary period))
  | .recordSuccess a, w =>
    { w with
      breaker := w.breaker.recordSuccess cfg
      probeSuccesses :=
        if a = Admission.canary w.period then w.probeSuccesses + 1 else w.probeSuccesses }.goto c
      (.ended .returned)
  | .recordFailure _, w =>
    { w with breaker := w.breaker.recordFailure cfg now }.goto c (.ended .raised)
  | .release _, w => { w with breaker := w.breaker.release now }.goto c (.ended .cancelled)

/-- `async with self._lock`: a call that finds the lock taken waits for it. -/
def enter (cfg : CircuitBreakerConfig) (now : ℚ) (c : ℕ) (s : Section) (w : World) : World :=
  if w.locked then w.goto c (.waiting s)
  else { runSection cfg now c s { w with locked := true } with locked := false }

/-- The `finally` of a call that neither succeeded nor failed. -/
def leave (cfg : CircuitBreakerConfig) (now : ℚ) (c : ℕ) (a : Admission) (w : World) : World :=
  if a.claimed then enter cfg now c (.release a) w else w.goto c (.ended .cancelled)

/-- A call that is cancelled where it stands. -/
def cancel (cfg : CircuitBreakerConfig) (now : ℚ) (c : ℕ) (w : World) : Option World :=
  match w.calls c with
  | .executing a => some (leave cfg now c a w)
  | .waiting (.recordSuccess a) => some (leave cfg now c a w)
  | .waiting (.recordFailure a) => some (leave cfg now c a w)
  | .waiting .admission => some (w.goto c (.ended .cancelled))
  | .waiting (.release _) => some (w.goto c (.ended .cancelled))
  | _ => none

/-- An act of one call, at the clock's reading. -/
def act (cfg : CircuitBreakerConfig) (now : ℚ) (c : ℕ) (w : World) : Act → Option World
  | .start =>
    match w.calls c with
    | .idle => some (enter cfg now c .admission w)
    | _ => none
  | .resume =>
    match w.calls c with
    | .waiting s => if w.locked then none else some (enter cfg now c s w)
    | _ => none
  | .succeed =>
    match w.calls c with
    | .executing a => some (enter cfg now c (.recordSuccess a) w)
    | _ => none
  | .fail =>
    match w.calls c with
    | .executing a => some (enter cfg now c (.recordFailure a) w)
    | _ => none
  | .cancel => cancel cfg now c w

/-- One event, `none` when it is not the turn of its call or the clock would go
back. -/
def step (cfg : CircuitBreakerConfig) (w : World) (e : Event) : Option World :=
  if w.clock ≤ e.now then act cfg e.now e.call { w with clock := e.now } e.act else none

/-! ### The lock is free whenever a call is scheduled -/

/-- No call holds the lock or waits for it. -/
structure Free (w : World) : Prop where
  unlocked : w.locked = false
  nobody : ∀ c s, w.calls c ≠ .waiting s

theorem free_init : Free World.init := ⟨rfl, fun _ _ h => nomatch h⟩

theorem Free.goto {w : World} (hw : Free w) (c : ℕ) {p : Phase} (hp : ∀ s, p ≠ .waiting s) :
    Free (w.goto c p) := by
  refine ⟨hw.unlocked, fun d s => ?_⟩
  show Function.update w.calls c p d ≠ _
  rcases eq_or_ne d c with rfl | hd
  · rw [Function.update_self]
    exact hp s
  · rw [Function.update_of_ne hd]
    exact hw.nobody d s

/-- A call that finds the lock free does not wait. -/
theorem enter_of_free {cfg : CircuitBreakerConfig} {now : ℚ} {c : ℕ} {s : Section} {w : World}
    (hw : w.locked = false) : enter cfg now c s w = runSection cfg now c s w := by
  obtain ⟨b, l, calls, clock, period, setter, probes⟩ := w
  subst hw
  cases s <;> simp only [enter, runSection, World.goto, Bool.false_eq_true, if_false]
  split <;> rfl

theorem Free.runSection {w : World} (hw : Free w) (cfg : CircuitBreakerConfig) (now : ℚ) (c : ℕ)
    (s : Section) : Free (runSection cfg now c s w) := by
  have hgoto : ∀ (w' : World) (p : Phase), w'.locked = w.locked → w'.calls = w.calls →
      (∀ s, p ≠ .waiting s) → Free (w'.goto c p) := fun w' p hl hc hp =>
    Free.goto ⟨hl.trans hw.unlocked, hc ▸ hw.nobody⟩ c hp
  cases s <;> simp only [Breaker.runSection]
  · split <;> exact hgoto _ _ rfl rfl fun _ h => nomatch h
  all_goals exact hgoto _ _ rfl rfl fun _ h => nomatch h

/-- What a call does in one step, when nobody holds the lock or waits for it. -/
inductive Moves (cfg : CircuitBreakerConfig) (w : World) (e : Event) : World → Prop
  | start : e.act = .start → w.calls e.call = .idle →
      Moves cfg w e (runSection cfg e.now e.call .admission { w with clock := e.now })
  | succeed {a : Admission} : e.act = .succeed → w.calls e.call = .executing a →
      Moves cfg w e (runSection cfg e.now e.call (.recordSuccess a) { w with clock := e.now })
  | fail {a : Admission} : e.act = .fail → w.calls e.call = .executing a →
      Moves cfg w e (runSection cfg e.now e.call (.recordFailure a) { w with clock := e.now })
  | release {p : ℕ} : e.act = .cancel → w.calls e.call = .executing (.canary p) →
      Moves cfg w e (runSection cfg e.now e.call (.release (.canary p)) { w with clock := e.now })
  | cancel : e.act = .cancel → w.calls e.call = .executing .closed →
      Moves cfg w e ({ w with clock := e.now }.goto e.call (.ended .cancelled))

/-- **The lock never delays a call**: each step is one section, run at once. -/
theorem Free.moves {cfg : CircuitBreakerConfig} {w w' : World} {e : Event} (hw : Free w)
    (h : step cfg w e = some w') : Moves cfg w e w' := by
  have hfree : ({ w with clock := e.now } : World).locked = false := hw.unlocked
  unfold step at h
  split_ifs at h with hclock
  unfold act at h
  cases hact : e.act with
  | start =>
    simp only [hact] at h
    split at h
    · rename_i hc
      obtain rfl := Option.some.inj h
      rw [enter_of_free hfree]
      exact .start hact hc
    · cases h
  | resume =>
    simp only [hact] at h
    split at h
    · rename_i s hc
      exact absurd hc (hw.nobody e.call s)
    · cases h
  | succeed =>
    simp only [hact] at h
    split at h
    · rename_i a hc
      obtain rfl := Option.some.inj h
      rw [enter_of_free hfree]
      exact .succeed hact hc
    · cases h
  | fail =>
    simp only [hact] at h
    split at h
    · rename_i a hc
      obtain rfl := Option.some.inj h
      rw [enter_of_free hfree]
      exact .fail hact hc
    · cases h
  | cancel =>
    simp only [hact, Breaker.cancel] at h
    split at h
    · rename_i a hc
      obtain rfl := Option.some.inj h
      cases a with
      | closed => exact .cancel hact hc
      | canary p =>
        simp only [leave, Admission.claimed, if_true, enter_of_free hfree]
        exact .release hact hc
    iterate 4
      · rename_i hc
        exact absurd hc (hw.nobody e.call _)
    · cases h

theorem Free.step {cfg : CircuitBreakerConfig} {w w' : World} {e : Event} (hw : Free w)
    (h : step cfg w e = some w') : Free w' := by
  have hw' : Free { w with clock := e.now } := ⟨hw.unlocked, hw.nobody⟩
  cases hw.moves h with
  | cancel => exact hw'.goto _ fun _ h => nomatch h
  | _ => exact hw'.runSection cfg _ _ _

end Breaker
end Boveda

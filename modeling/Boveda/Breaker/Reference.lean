/-
# Calls one after the other, and the machine they follow

When no two calls overlap, `call` is one function of the breaker
(`CircuitBreaker.call`; `exec_alone` finds it in the concurrent model).  What it is for
is then a machine of three states that keeps every failure since the last success or
closing, and looks at the window whenever it has to decide (`Reference`).  The breaker
keeps only a part of these failures, from which the oldest are taken off before each
new one is written down; that this part is always enough is `Follows`, an invariant of
`Boveda.Lib.Window` in CLOSED, and `calls_follow_reference` says that no sequence of
calls tells the two apart.

A failure is written down after the purge, so it counts itself even when the window is
negative and the interval that ends at it is empty (`calls_leave_claimed`); with a
window of zero or more nothing depends on this (`counted_eq_claimed`).
-/

import Boveda.Breaker.Circuit
import Boveda.Lib.Window
import Mathlib.Tactic.Linarith

namespace Boveda
namespace Breaker

open Lib

/-- How the function of a call ends. -/
inductive Ending
  | returns | raises | cancelled
  deriving DecidableEq, Repr

/-- The clock when a call is made and when its function ends, and how it ends. -/
structure Invocation where
  startedAt : ℚ
  endedAt : ℚ
  ending : Ending

/-- The readings of the clock, in the order of the calls. -/
def readings (is : List Invocation) : List ℚ := is.flatMap fun i => [i.startedAt, i.endedAt]

/-- The `try` of `call`, once its function has ended. -/
def Ending.record (cfg : CircuitBreakerConfig) (now : ℚ) (canaryClaimed : Bool)
    (b : CircuitBreaker) : Ending → CircuitBreaker
  | .returns => b.recordSuccess cfg
  | .raises => b.recordFailure cfg now
  | .cancelled => if canaryClaimed then b.release now else b

namespace CircuitBreaker

/-- `call` with no other call under way: the error it is rejected with, or how the
function ends that it invokes. -/
def call (cfg : CircuitBreakerConfig) (i : Invocation) (b : CircuitBreaker) :
    CircuitBreaker × Except CircuitBreakerOpenError Ending :=
  match b.admission cfg i.startedAt with
  | (b, .error e) => (b, .error e)
  | (b, .ok canaryClaimed) => (i.ending.record cfg i.endedAt canaryClaimed b, .ok i.ending)

/-- Calls one after the other: after each, the breaker and what became of the call. -/
def calls (cfg : CircuitBreakerConfig) (b : CircuitBreaker) :
    List Invocation → List (CircuitBreaker × Except CircuitBreakerOpenError Ending)
  | [] => []
  | i :: is => b.call cfg i :: (b.call cfg i).1.calls cfg is

end CircuitBreaker

/-! ### The reference machine -/

/-- CLOSED with the failures since the last success or closing, OPEN since a time, or
HALF_OPEN after some successes. -/
inductive Reference
  | closed (failures : List ℚ)
  | opened (since : ℚ)
  | halfOpen (successes : ℕ)
  deriving DecidableEq, Repr

/-- `s` lies in `[t - window, t]`. -/
def InWindow (cfg : CircuitBreakerConfig) (t s : ℚ) : Prop :=
  t - cfg.failureWindowSeconds ≤ s ∧ s ≤ t

instance (cfg : CircuitBreakerConfig) (t s : ℚ) : Decidable (InWindow cfg t s) :=
  inferInstanceAs (Decidable (_ ∧ _))

/-- A way to count a failure at `t` and the failures before it. -/
abbrev Count := CircuitBreakerConfig → List ℚ → ℚ → ℕ

/-- The failures, the last one included, that lie in the window. -/
def claimed : Count := fun cfg failures t =>
  ((failures ++ [t]).filter fun s => InWindow cfg t s).length

/-- The last failure, and the earlier ones that lie in the window. -/
def counted : Count := fun cfg failures t =>
  (failures.filter fun s => InWindow cfg t s).length + 1

namespace Reference

/-- A probe after some successes. -/
def probe (cfg : CircuitBreakerConfig) (i : Invocation) (successes : ℕ) : Reference :=
  match i.ending with
  | .returns =>
    if cfg.halfOpenSuccessThreshold ≤ successes + 1 then .closed [] else .halfOpen (successes + 1)
  | .raises => .opened i.endedAt
  | .cancelled => .opened i.endedAt

/-- What a call does to the machine, and what becomes of the call. -/
def call (count : Count) (cfg : CircuitBreakerConfig) (i : Invocation) :
    Reference → Reference × Except CircuitBreakerOpenError Ending
  | .closed failures =>
    (match i.ending with
      | .returns => .closed []
      | .raises =>
        if cfg.failureThreshold ≤ count cfg failures i.endedAt then .opened i.endedAt
        else .closed (failures ++ [i.endedAt])
      | .cancelled => .closed failures,
      .ok i.ending)
  | .opened since =>
    if i.startedAt < since + cfg.cooldownSeconds then
      (.opened since, .error (.cooldown (since + cfg.cooldownSeconds - i.startedAt)))
    else (probe cfg i 0, .ok i.ending)
  | .halfOpen successes => (probe cfg i successes, .ok i.ending)

/-- Calls one after the other. -/
def calls (count : Count) (cfg : CircuitBreakerConfig) (r : Reference) :
    List Invocation → List (Reference × Except CircuitBreakerOpenError Ending)
  | [] => []
  | i :: is => r.call count cfg i :: (r.call count cfg i).1.calls count cfg is

end Reference

/-- The breaker is in the state of the reference; of the failures it has the last ones. -/
def Matches (b : CircuitBreaker) : Reference → Prop
  | .closed failures => b.state = .closed ∧ b.failureTimestamps <:+ failures
  | .opened since => b.state = .opened ∧ b.openedAt = since
  | .halfOpen successes => b.state = .halfOpen ∧ b.consecutiveSuccesses = successes

/-- After a call: the same state and the same fate of the call, and a history within
the threshold. -/
structure Agrees (cfg : CircuitBreakerConfig)
    (code : CircuitBreaker × Except CircuitBreakerOpenError Ending)
    (reference : Reference × Except CircuitBreakerOpenError Ending) : Prop where
  state : Matches code.1 reference.1
  fate : code.2 = reference.2
  bounded : (code.1.failureTimestamps.length : ℤ) ≤ cfg.failureThreshold

/-! ### The simulation -/

/-- The breaker follows the reference at `now`: in CLOSED the failures are in order and
the deque has those that a later window can see, and is not full. -/
def Follows (cfg : CircuitBreakerConfig) (now : ℚ) (b : CircuitBreaker) : Reference → Prop
  | .closed failures => b.state = .closed ∧ failures.Pairwise (· ≤ ·) ∧ (∀ s ∈ failures, s ≤ now) ∧
      Pruned (now - cfg.failureWindowSeconds) failures b.failureTimestamps ∧
      (b.failureTimestamps.length : ℤ) < cfg.failureThreshold
  | .opened since => b.state = .opened ∧ b.openedAt = since ∧
      (b.failureTimestamps.length : ℤ) ≤ cfg.failureThreshold
  | .halfOpen successes => b.state = .halfOpen ∧ b.canaryInFlight = false ∧
      b.consecutiveSuccesses = successes ∧
      (b.failureTimestamps.length : ℤ) ≤ cfg.failureThreshold

variable {cfg : CircuitBreakerConfig} {now t : ℚ} {b : CircuitBreaker} {r : Reference}
  {i : Invocation} {is : List Invocation}

/-- A closed circuit with an empty history. -/
theorem follows_empty (h1 : 1 ≤ cfg.failureThreshold) (hs : b.state = .closed)
    (hempty : b.failureTimestamps = []) : Follows cfg now b (.closed []) := by
  refine ⟨hs, List.Pairwise.nil, fun _ hmem => absurd hmem List.not_mem_nil, ?_, ?_⟩
  · rw [hempty]
    exact Pruned.refl _ _
  · rw [hempty]
    exact Int.lt_of_lt_of_le Int.zero_lt_one h1

theorem Follows.matches (h : Follows cfg now b r) : Matches b r := by
  cases r with
  | closed failures =>
    obtain ⟨hs, -, -, ⟨dropped, heq, -⟩, -⟩ := h
    exact ⟨hs, dropped, heq.symm⟩
  | opened since => exact ⟨h.1, h.2.1⟩
  | halfOpen successes => exact ⟨h.1, h.2.2.1⟩

theorem Follows.bounded (h : Follows cfg now b r) :
    (b.failureTimestamps.length : ℤ) ≤ cfg.failureThreshold := by
  cases r with
  | closed failures => exact h.2.2.2.2.le
  | opened since => exact h.2.2
  | halfOpen successes => exact h.2.2.2

theorem Follows.later (h : Follows cfg now b r) (hle : now ≤ t) : Follows cfg t b r := by
  cases r with
  | closed failures =>
    obtain ⟨hs, hsorted, hpast, hpruned, hlt⟩ := h
    exact ⟨hs, hsorted, fun s hmem => (hpast s hmem).trans hle, hpruned.mono (by linarith), hlt⟩
  | opened since => exact h
  | halfOpen successes => exact h

/-- The purge leaves the failures of the window. -/
theorem purge_eq_filter {failures : List ℚ} (hsorted : failures.Pairwise (· ≤ ·))
    (hpast : ∀ s ∈ failures, s ≤ t)
    (hpruned : Pruned (t - cfg.failureWindowSeconds) failures b.failureTimestamps) :
    (b.failureTimestamps.dropWhile fun s => s < t - cfg.failureWindowSeconds) =
      failures.filter fun s => InWindow cfg t s := by
  rw [hpruned.dropWhile_eq_filter hsorted]
  refine List.filter_congr fun s hs => ?_
  simp [InWindow, hpast s hs]

/-- **A failure in CLOSED.**  The deque has as many entries as the reference counts. -/
theorem Follows.recordFailure {failures : List ℚ} (h : Follows cfg t b (.closed failures)) :
    Follows cfg t (b.recordFailure cfg t)
      (if cfg.failureThreshold ≤ counted cfg failures t then .opened t
        else .closed (failures ++ [t])) := by
  obtain ⟨hs, hsorted, hpast, hpruned, hlt⟩ := h
  have hpurge := purge_eq_filter hsorted hpast hpruned
  have hlength : ((b.failureTimestamps.dropWhile fun s => s < t - cfg.failureWindowSeconds) ++
      [t]).length = counted cfg failures t := by
    rw [hpurge, List.length_append, List.length_singleton, counted]
  have hshort := (List.dropWhile_sublist (l := b.failureTimestamps)
    fun s => decide (s < t - cfg.failureWindowSeconds)).length_le
  simp only [CircuitBreaker.recordFailure, hs, hlength]
  by_cases hfull : cfg.failureThreshold ≤ counted cfg failures t
  · rw [if_pos hfull, if_pos hfull]
    refine ⟨rfl, rfl, ?_⟩
    simp only [List.length_append, List.length_singleton]
    omega
  · rw [if_neg hfull, if_neg hfull]
    refine ⟨rfl, ?_, ?_, hpruned.dropWhile.push t, ?_⟩
    · rw [List.pairwise_append]
      exact ⟨hsorted, List.pairwise_singleton _ _, fun s hmem u hu => by
        rw [List.mem_singleton.1 hu]
        exact hpast s hmem⟩
    · intro s hmem
      rcases List.mem_append.1 hmem with hmem | hmem
      · exact hpast s hmem
      · exact (List.mem_singleton.1 hmem).le
    · show ((_ : List ℚ).length : ℤ) < _
      rw [hlength]
      exact not_le.1 hfull

/-- A canary in HALF_OPEN, that has been admitted and ends. -/
theorem follows_probe (h1 : 1 ≤ cfg.failureThreshold) {successes : ℕ}
    (hs : b.state = .halfOpen) (hn : b.consecutiveSuccesses = successes)
    (hlen : (b.failureTimestamps.length : ℤ) ≤ cfg.failureThreshold) (hflag : b.canaryInFlight) :
    Follows cfg i.endedAt (i.ending.record cfg i.endedAt true b)
      (Reference.probe cfg i successes) := by
  cases hending : i.ending with
  | returns =>
    simp only [Ending.record, Reference.probe, hending, CircuitBreaker.recordSuccess, hs, hn]
    push_cast
    split_ifs with hth
    · exact follows_empty h1 rfl rfl
    · exact ⟨rfl, rfl, rfl, hlen⟩
  | raises =>
    simp only [Ending.record, Reference.probe, hending, CircuitBreaker.recordFailure, hs]
    exact ⟨rfl, rfl, hlen⟩
  | cancelled =>
    simp only [Ending.record, Reference.probe, hending, CircuitBreaker.release, hs, hflag, and_self,
      if_true]
    exact ⟨rfl, rfl, hlen⟩

/-- **One call** keeps the breaker with the reference. -/
theorem Follows.call (h1 : 1 ≤ cfg.failureThreshold) (h : Follows cfg i.startedAt b r)
    (hclock : i.startedAt ≤ i.endedAt) :
    Follows cfg i.endedAt (b.call cfg i).1 (r.call counted cfg i).1 ∧
      (b.call cfg i).2 = (r.call counted cfg i).2 := by
  cases r with
  | closed failures =>
    have hadm : b.admission cfg i.startedAt = (b, .ok false) := by
      simp [CircuitBreaker.admission, h.1]
    have h := h.later hclock
    rw [CircuitBreaker.call, hadm]
    refine ⟨?_, rfl⟩
    cases hending : i.ending with
    | returns =>
      simp only [Ending.record, CircuitBreaker.recordSuccess, h.1, Reference.call, hending]
      exact follows_empty h1 rfl rfl
    | raises =>
      simp only [Ending.record, Reference.call, hending]
      exact h.recordFailure
    | cancelled =>
      simp only [Ending.record, Reference.call, hending]
      exact h
  | opened since =>
    obtain ⟨hs, rfl, hlen⟩ := h
    by_cases hcool : i.startedAt < b.openedAt + cfg.cooldownSeconds
    · have hno : ¬ cfg.cooldownSeconds ≤ i.startedAt - b.openedAt := by linarith
      simp only [CircuitBreaker.call, Reference.call, CircuitBreaker.admission,
        if_pos (And.intro hs hno), if_pos hcool]
      refine ⟨⟨hs, rfl, hlen⟩, ?_⟩
      congr 2
      linarith
    · have hyes : cfg.cooldownSeconds ≤ i.startedAt - b.openedAt := by linarith
      have hadm : b.admission cfg i.startedAt =
          ({ b.toHalfOpen with canaryInFlight := true }, .ok true) := by
        simp [CircuitBreaker.admission, CircuitBreaker.toHalfOpen, hs, hyes]
      rw [CircuitBreaker.call, hadm, Reference.call, if_neg hcool]
      exact ⟨follows_probe h1 rfl rfl hlen rfl, rfl⟩
  | halfOpen successes =>
    obtain ⟨hs, hflag, hn, hlen⟩ := h
    have hadm : b.admission cfg i.startedAt = ({ b with canaryInFlight := true }, .ok true) := by
      simp [CircuitBreaker.admission, hs, hflag]
    rw [CircuitBreaker.call, hadm, Reference.call]
    exact ⟨follows_probe h1 hs hn hlen rfl, rfl⟩

/-- **Calls one after the other** keep the breaker with the reference. -/
theorem Follows.calls (h1 : 1 ≤ cfg.failureThreshold) (h : Follows cfg now b r)
    (hclock : (now :: readings is).Pairwise (· ≤ ·)) :
    List.Forall₂ (Agrees cfg) (b.calls cfg is) (r.calls counted cfg is) := by
  induction is generalizing now b r with
  | nil => exact .nil
  | cons i is ih =>
    simp only [readings, List.flatMap_cons, List.cons_append, List.nil_append] at hclock
    obtain ⟨hnow, hstarted⟩ := List.pairwise_cons.1 hclock
    obtain ⟨hafter, hended⟩ := List.pairwise_cons.1 hstarted
    have hstart : now ≤ i.startedAt := hnow _ (List.mem_cons_self ..)
    have hends : i.startedAt ≤ i.endedAt := hafter _ (List.mem_cons_self ..)
    obtain ⟨hnext, hfate⟩ := (h.later hstart).call h1 hends
    exact .cons ⟨hnext.matches, hfate, hnext.bounded⟩ (ih hnext hended)

/-- **The breaker behaves as the reference machine.**  After each of any calls, one after
the other at nondecreasing times, the breaker is CLOSED, OPEN since the same time or
HALF_OPEN with as many successes as the reference; the call was rejected by both, with
the same rest of the cooldown, or by none; and the history is within the threshold. -/
theorem calls_follow_reference (cfg : CircuitBreakerConfig) (is : List Invocation)
    (h1 : 1 ≤ cfg.failureThreshold) (hclock : (readings is).Pairwise (· ≤ ·)) :
    List.Forall₂ (Agrees cfg) (CircuitBreaker.calls cfg {} is)
      (Reference.calls counted cfg (.closed []) is) := by
  cases is with
  | nil => exact .nil
  | cons i is =>
    have hstart : Follows cfg i.startedAt {} (.closed []) := follows_empty h1 rfl rfl
    refine hstart.calls h1 (List.pairwise_cons.2 ⟨fun t ht => ?_, hclock⟩)
    simp only [readings, List.flatMap_cons, List.cons_append, List.nil_append] at hclock ht
    rcases List.mem_cons.1 ht with rfl | ht
    · exact le_rfl
    · exact (List.pairwise_cons.1 hclock).1 t ht

/-- Where the calls are that went through, were rejected, failed and probed, of a breaker
that opens at the second failure. -/
def outage : List Invocation :=
  [⟨0, 1, .raises⟩, ⟨2, 3, .cancelled⟩, ⟨4, 5, .raises⟩, ⟨6, 6, .returns⟩, ⟨70, 71, .cancelled⟩,
    ⟨140, 141, .returns⟩]

theorem calls_follow_reference_outage :
    List.Forall₂ (Agrees { failureThreshold := 2 })
      (CircuitBreaker.calls { failureThreshold := 2 } {} outage)
      (Reference.calls counted { failureThreshold := 2 } (.closed []) outage) :=
  calls_follow_reference _ outage (by decide) (by decide +kernel)

/-- With a window of zero or more a failure lies in its own window. -/
theorem counted_eq_claimed (hwindow : 0 ≤ cfg.failureWindowSeconds) (failures : List ℚ) (t : ℚ) :
    counted cfg failures t = claimed cfg failures t := by
  have hself : InWindow cfg t t := ⟨by linarith, le_rfl⟩
  simp [counted, claimed, List.filter_append, hself]

/-- **A negative window does not keep a breaker closed**: the interval that ends at the
failure is empty, and the breaker opens. -/
theorem calls_leave_claimed : ¬ ∀ (cfg : CircuitBreakerConfig) (is : List Invocation),
    1 ≤ cfg.failureThreshold → 1 ≤ cfg.halfOpenSuccessThreshold →
    (readings is).Pairwise (· ≤ ·) →
    List.Forall₂ (Agrees cfg) (CircuitBreaker.calls cfg {} is)
      (Reference.calls claimed cfg (.closed []) is) := by
  intro h
  have hall := h { failureThreshold := 1, failureWindowSeconds := -1 } [⟨0, 1, .raises⟩]
    (by decide) (by decide) (by decide +kernel)
  obtain ⟨hhead, -⟩ := List.forall₂_cons.1 hall
  have hstays : (Reference.call claimed { failureThreshold := 1, failureWindowSeconds := -1 }
      ⟨0, 1, .raises⟩ (.closed [])).1 = .closed [1] := by decide +kernel
  have hstate := hhead.state
  rw [hstays] at hstate
  exact absurd hstate.1 (by decide +kernel)

/-! ### In the concurrent model -/

/-- What happens to a call whose function ends so. -/
def Ending.act : Ending → Act
  | .returns => .succeed
  | .raises => .fail
  | .cancelled => .cancel

/-- How a call ends, by what became of it. -/
def outcome : Except CircuitBreakerOpenError Ending → Outcome
  | .error e => .rejected e
  | .ok .returns => .returned
  | .ok .raises => .raised
  | .ok .cancelled => .cancelled

/-- The events of the call `c`, from its start to its end. -/
def events (c : ℕ) (i : Invocation) : Except CircuitBreakerOpenError Ending → List Event
  | .error _ => [⟨.start, c, i.startedAt⟩]
  | .ok ending => [⟨.start, c, i.startedAt⟩, ⟨ending.act, c, i.endedAt⟩]

/-- The events of calls one after the other, numbered from `c`. -/
def schedule (cfg : CircuitBreakerConfig) (c : ℕ) (b : CircuitBreaker) :
    List Invocation → List Event
  | [] => []
  | i :: is => events c i (b.call cfg i).2 ++ schedule cfg (c + 1) (b.call cfg i).1 is

variable {w : World} {c : ℕ}

/-- What is left by one call from start to end. -/
structure Leaves (c : ℕ) (w : World) (t : ℚ)
    (r : CircuitBreaker × Except CircuitBreakerOpenError Ending) (w' : World) : Prop where
  free : Free w'
  breaker : w'.breaker = r.1
  clock : w'.clock ≤ t
  ended : w'.calls c = .ended (outcome r.2)
  others : ∀ d, d ≠ c → w'.calls d = w.calls d

/-- A call is made. -/
theorem step_start (cfg : CircuitBreakerConfig) (hfree : Free w) (hidle : w.calls c = .idle)
    (hclock : w.clock ≤ now) : step cfg w ⟨.start, c, now⟩ =
      some (runSection cfg now c .admission { w with clock := now }) := by
  rw [step, if_pos hclock, act, hidle]
  simp only [Option.some.injEq]
  exact enter_of_free hfree.unlocked

/-- The function of a call ends. -/
theorem step_end (cfg : CircuitBreakerConfig) {a : Admission} (hfree : Free w)
    (hc : w.calls c = .executing a) (hclock : w.clock ≤ now) (ending : Ending) :
    ∃ w', step cfg w ⟨ending.act, c, now⟩ = some w' ∧
      Leaves c w now (ending.record cfg now a.claimed w.breaker, .ok ending) w' := by
  have hunlocked : ({ w with clock := now } : World).locked = false := hfree.unlocked
  have hleaves : ∀ w', Free w' → w'.breaker = ending.record cfg now a.claimed w.breaker →
      w'.clock = now → w'.calls = Function.update w.calls c (.ended (outcome (.ok ending))) →
      Leaves c w now (ending.record cfg now a.claimed w.breaker, .ok ending) w' := by
    intro w' hfree' hbreaker hnow hcalls
    refine ⟨hfree', hbreaker, hnow.le, ?_, fun d hd => ?_⟩
    · rw [hcalls, Function.update_self]
    · rw [hcalls, Function.update_of_ne hd]
  cases ending with
  | returns =>
    have hs : step cfg w ⟨.succeed, c, now⟩ =
        some (runSection cfg now c (.recordSuccess a) { w with clock := now }) := by
      rw [step, if_pos hclock, act, hc]
      simp only [enter_of_free hunlocked]
    exact ⟨_, hs, hleaves _ (hfree.step hs) rfl rfl rfl⟩
  | raises =>
    have hs : step cfg w ⟨.fail, c, now⟩ =
        some (runSection cfg now c (.recordFailure a) { w with clock := now }) := by
      rw [step, if_pos hclock, act, hc]
      simp only [enter_of_free hunlocked]
    exact ⟨_, hs, hleaves _ (hfree.step hs) rfl rfl rfl⟩
  | cancelled =>
    have hs : step cfg w ⟨.cancel, c, now⟩ =
        some (leave cfg now c a { w with clock := now }) := by
      rw [step, if_pos hclock, act, cancel, hc]
    refine ⟨_, hs, ?_⟩
    have hfree' := hfree.step hs
    cases a with
    | closed => exact hleaves _ hfree' rfl rfl rfl
    | canary p =>
      rw [leave, Admission.claimed, if_pos rfl, enter_of_free hunlocked] at hfree' ⊢
      exact hleaves _ hfree' rfl rfl rfl

/-- **A call alone** does in the concurrent model what `call` says. -/
theorem exec_alone (cfg : CircuitBreakerConfig) (hfree : Free w) (hidle : w.calls c = .idle)
    (hclock : w.clock ≤ i.startedAt) (hends : i.startedAt ≤ i.endedAt) :
    ∃ w', exec (step cfg) w (events c i (w.breaker.call cfg i).2) = some w' ∧
      Leaves c w i.endedAt (w.breaker.call cfg i) w' := by
  have hstart := step_start cfg hfree hidle hclock
  have hfree' := hfree.step hstart
  simp only [runSection] at hstart hfree'
  rw [CircuitBreaker.call]
  generalize w.breaker.admission cfg i.startedAt = r at hstart hfree'
  obtain ⟨b, error | canaryClaimed⟩ := r
  · refine ⟨_, by rw [events, exec, hstart, Option.bind_some, exec], hfree', rfl, hends, ?_, ?_⟩
    · exact Function.update_self ..
    · exact fun d hd => Function.update_of_ne hd _ _
  · have hexecutes : ∀ w₁ : World, step cfg w ⟨.start, c, i.startedAt⟩ = some w₁ → Free w₁ →
        ∀ a : Admission, w₁.breaker = b → w₁.clock = i.startedAt → a.claimed = canaryClaimed →
        w₁.calls = Function.update w.calls c (.executing a) →
        ∃ w', exec (step cfg) w (events c i (.ok i.ending)) = some w' ∧
          Leaves c w i.endedAt (i.ending.record cfg i.endedAt canaryClaimed b, .ok i.ending)
            w' := by
      rintro w₁ hw₁ hfree₁ a rfl hnow rfl hcalls
      have hc : w₁.calls c = .executing a := by rw [hcalls, Function.update_self]
      obtain ⟨w', hend, hleaves⟩ :=
        step_end cfg hfree₁ hc (show w₁.clock ≤ i.endedAt from hnow ▸ hends) i.ending
      refine ⟨w', ?_, hleaves.free, hleaves.breaker, hleaves.clock, hleaves.ended, fun d hd => ?_⟩
      · rw [events, exec, hw₁, Option.bind_some, exec, hend, Option.bind_some, exec]
      · rw [hleaves.others d hd, hcalls, Function.update_of_ne hd]
    cases canaryClaimed with
    | false => exact hexecutes _ hstart hfree' .closed rfl rfl rfl rfl
    | true => exact hexecutes _ hstart hfree' (.canary _) rfl rfl rfl rfl

/-- **Calls one after the other** do in the concurrent model what `calls` says: the
breaker is the last of them, and each call ends as there. -/
theorem exec_schedule (hfree : Free w) (hidle : ∀ d, c ≤ d → w.calls d = .idle)
    (hclock : (w.clock :: readings is).Pairwise (· ≤ ·)) :
    ∃ w', exec (step cfg) w (schedule cfg c w.breaker is) = some w' ∧
      w'.breaker = ((w.breaker.calls cfg is).map Prod.fst).getLastD w.breaker ∧
      (List.range' c is.length).map w'.calls =
        (w.breaker.calls cfg is).map (fun r => .ended (outcome r.2)) ∧
      ∀ d, d < c → w'.calls d = w.calls d := by
  induction is generalizing w c with
  | nil => exact ⟨w, rfl, rfl, rfl, fun _ _ => rfl⟩
  | cons i is ih =>
    simp only [readings, List.flatMap_cons, List.cons_append, List.nil_append] at hclock
    obtain ⟨hnow, hstarted⟩ := List.pairwise_cons.1 hclock
    obtain ⟨hafter, hended⟩ := List.pairwise_cons.1 hstarted
    obtain ⟨w₁, hw₁, hleaves⟩ := exec_alone cfg hfree (hidle c le_rfl)
      (hnow _ (List.mem_cons_self ..)) (hafter _ (List.mem_cons_self ..))
    obtain ⟨w', hw', hbreaker, hcalls, hothers⟩ := ih (w := w₁) (c := c + 1) hleaves.free
      (fun d hd => (hleaves.others d (by omega)).trans (hidle d (by omega)))
      (List.pairwise_cons.2 ⟨fun t ht => hleaves.clock.trans ((List.pairwise_cons.1 hended).1 t ht),
        (List.pairwise_cons.1 hended).2⟩)
    rw [hleaves.breaker] at hw' hbreaker hcalls
    refine ⟨w', by rw [schedule, exec_append hw₁, hw'], ?_, ?_, fun d hd => ?_⟩
    · rw [hbreaker, CircuitBreaker.calls, List.map_cons, List.getLastD_cons]
    · rw [CircuitBreaker.calls, List.length_cons, List.range'_succ, List.map_cons, List.map_cons,
        hcalls, hothers c (by omega), hleaves.ended]
    · rw [hothers d (by omega), hleaves.others d (by omega)]

end Breaker
end Boveda

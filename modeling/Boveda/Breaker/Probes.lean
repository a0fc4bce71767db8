/-
# Probes of a half-open circuit

In HALF_OPEN one canary may be in flight.  `_record_success` and
`_record_failure` act on the state they find, whoever calls them: a slow call
that was admitted while the circuit was CLOSED can return or raise in HALF_OPEN,
and is then taken for the probe.  It clears `canary_in_flight` while the canary
still executes, so that a second canary is admitted (`two_canaries`), and it
closes or re-opens the circuit (`stale_success_closes`).  As long as no such call
ends in HALF_OPEN there is one canary at most, and only the canaries of the
period decide what becomes of the circuit (`ownProbes_iff`).

What holds without any condition is that the flag is never left behind: it is
set only in HALF_OPEN, while the call that set it executes its function, and
that call clears it however it ends (`flag_has_probe`).
-/

import Boveda.Breaker.Circuit

namespace Boveda
namespace Breaker

open Lib

/-- What the admission in `call` does, by the state it finds. -/
inductive Admits (cfg : CircuitBreakerConfig) (now : ℚ) (b : CircuitBreaker) :
    CircuitBreaker × Except CircuitBreakerOpenError Bool → Prop
  | rejected {e : CircuitBreakerOpenError} :
      b.state = .opened ∨ b.state = .halfOpen ∧ b.canaryInFlight = true →
      Admits cfg now b (b, .error e)
  | closed : b.state = .closed → Admits cfg now b (b, .ok false)
  | cooledDown : b.state = .opened →
      Admits cfg now b ({ b.toHalfOpen with canaryInFlight := true }, .ok true)
  | halfOpen : b.state = .halfOpen → b.canaryInFlight = false →
      Admits cfg now b ({ b with canaryInFlight := true }, .ok true)

theorem admits (cfg : CircuitBreakerConfig) (now : ℚ) (b : CircuitBreaker) :
    Admits cfg now b (b.admission cfg now) := by
  cases hs : b.state with
  | closed =>
    rw [show b.admission cfg now = (b, .ok false) by simp [CircuitBreaker.admission, hs]]
    exact .closed hs
  | opened =>
    by_cases hcool : cfg.cooldownSeconds ≤ now - b.openedAt
    · rw [show b.admission cfg now = ({ b.toHalfOpen with canaryInFlight := true }, .ok true) by
        simp [CircuitBreaker.admission, CircuitBreaker.toHalfOpen, hs, hcool]]
      exact .cooledDown hs
    · rw [CircuitBreaker.admission, if_pos ⟨hs, hcool⟩]
      exact .rejected (.inl hs)
  | halfOpen =>
    cases hf : b.canaryInFlight with
    | true =>
      rw [show b.admission cfg now = (b, .error .canaryInTransit) by
        simp [CircuitBreaker.admission, hs, hf]]
      exact .rejected (.inr ⟨hs, hf⟩)
    | false =>
      rw [show b.admission cfg now = ({ b with canaryInFlight := true }, .ok true) by
        simp [CircuitBreaker.admission, hs, hf]]
      exact .halfOpen hs hf

theorem goto_calls (w : World) (c : ℕ) (p : Phase) (d : ℕ) :
    (w.goto c p).calls d = if d = c then p else w.calls d :=
  Function.update_apply ..

/-! ### The flag and its call -/

/-- The call executes its function as a canary. -/
def Probing (w : World) (c : ℕ) : Prop := ∃ p, w.calls c = .executing (.canary p)

/-- `canary_in_flight` is set only in HALF_OPEN, while the call that last set it
executes its function. -/
def FlagHeld (w : World) : Prop :=
  w.breaker.canaryInFlight = true → w.breaker.state = .halfOpen ∧
    ∃ c, w.lastSetter = some c ∧ Probing w c

/-- The circuit rejects every call, now and later, and no canary is left that
could end. -/
def Wedged (cfg : CircuitBreakerConfig) (w : World) : Prop :=
  w.breaker.state = .halfOpen ∧ (∀ now, ∃ e, (w.breaker.admission cfg now).2 = .error e) ∧
    ∀ c, ¬ Probing w c

namespace CircuitBreaker

variable {cfg : CircuitBreakerConfig} {now : ℚ} {b : CircuitBreaker}

/-- Recording a success clears the flag, or finds another state than HALF_OPEN. -/
theorem recordSuccess_flag (h : b.canaryInFlight = true → b.state = .halfOpen) :
    (b.recordSuccess cfg).canaryInFlight = false := by
  unfold recordSuccess
  cases hs : b.state with
  | halfOpen =>
    dsimp only
    split_ifs <;> rfl
  | closed => simpa [hs] using h
  | opened => simpa [hs] using h

theorem recordFailure_flag (h : b.canaryInFlight = true → b.state = .halfOpen) :
    (b.recordFailure cfg now).canaryInFlight = false := by
  unfold recordFailure
  cases hs : b.state with
  | halfOpen => rfl
  | closed =>
    dsimp only
    split_ifs <;> simpa [hs] using h
  | opened => simpa [hs] using h

theorem release_flag (h : b.canaryInFlight = true → b.state = .halfOpen) :
    (b.release now).canaryInFlight = false := by
  unfold release
  split_ifs with hf
  · rfl
  · by_contra hne
    have hflag : b.canaryInFlight = true := by simpa using hne
    exact hf ⟨h hflag, hflag⟩

end CircuitBreaker

theorem flagHeld_init : FlagHeld World.init := fun h => nomatch h

/-- **One step** keeps the flag with its call. -/
theorem FlagHeld.step {cfg : CircuitBreakerConfig} {w w' : World} {e : Event} (hfree : Free w)
    (hw : FlagHeld w) (h : step cfg w e = some w') : FlagHeld w' := by
  have hstate : w.breaker.canaryInFlight = true → w.breaker.state = .halfOpen := fun hf => (hw hf).1
  cases hfree.moves h with
  | start _ hidle =>
    -- an idle call is none of the canaries
    have hother : ∀ (w' : World) p, w'.calls = w.calls → ∀ c, Probing w c →
        Probing (w'.goto e.call p) c := by
      rintro w' p hcalls c ⟨q, hq⟩
      refine ⟨q, ?_⟩
      rw [goto_calls, if_neg (by rintro rfl; simp [hidle] at hq), hcalls, hq]
    simp only [runSection]
    have hadm := admits cfg e.now w.breaker
    generalize w.breaker.admission cfg e.now = r at hadm
    cases hadm with
    | rejected _ =>
      intro hf
      obtain ⟨hs, c, hc, hp⟩ := hw hf
      exact ⟨hs, c, hc, hother _ _ rfl c hp⟩
    | closed hs =>
      intro hf
      have := hstate hf
      rw [hs] at this
      cases this
    | cooledDown _ => exact fun _ => ⟨rfl, e.call, rfl, _, Function.update_self ..⟩
    | halfOpen hs _ => exact fun _ => ⟨hs, e.call, rfl, _, Function.update_self ..⟩
  | succeed _ _ =>
    intro hf
    have : (w.breaker.recordSuccess cfg).canaryInFlight = false :=
      CircuitBreaker.recordSuccess_flag hstate
    exact absurd hf (by simpa [runSection, World.goto] using this)
  | fail _ _ =>
    intro hf
    have : (w.breaker.recordFailure cfg e.now).canaryInFlight = false :=
      CircuitBreaker.recordFailure_flag hstate
    exact absurd hf (by simpa [runSection, World.goto] using this)
  | release _ _ =>
    intro hf
    have : (w.breaker.release e.now).canaryInFlight = false :=
      CircuitBreaker.release_flag hstate
    exact absurd hf (by simpa [runSection, World.goto] using this)
  | cancel _ hc =>
    intro hf
    obtain ⟨hs, c, hset, p, hp⟩ := hw hf
    refine ⟨hs, c, hset, p, ?_⟩
    rw [goto_calls, if_neg (by rintro rfl; simp [hc] at hp), hp]

/-- Every way in which the call can end clears the flag. -/
def ReleasedBy (cfg : CircuitBreakerConfig) (w : World) (c : ℕ) : Prop :=
  ∀ a ∈ [Act.succeed, .fail, .cancel], ∀ now, w.clock ≤ now →
    ∃ w', step cfg w ⟨a, c, now⟩ = some w' ∧ w'.breaker.canaryInFlight = false

theorem releasedBy_of_flagHeld {cfg : CircuitBreakerConfig} {w : World} (hfree : Free w)
    (hw : FlagHeld w) {c : ℕ} (hc : Probing w c) : ReleasedBy cfg w c := by
  obtain ⟨p, hp⟩ := hc
  have hstate : w.breaker.canaryInFlight = true → w.breaker.state = .halfOpen := fun hf => (hw hf).1
  have hlock : ∀ now, ({ w with clock := now } : World).locked = false := fun _ => hfree.unlocked
  intro a ha now hclock
  simp only [List.mem_cons, List.not_mem_nil, or_false] at ha
  rcases ha with rfl | rfl | rfl
  · refine ⟨runSection cfg now c (.recordSuccess (.canary p)) { w with clock := now }, ?_,
      CircuitBreaker.recordSuccess_flag hstate⟩
    simp only [Breaker.step, if_pos hclock, act, hp, enter_of_free (hlock now)]
  · refine ⟨runSection cfg now c (.recordFailure (.canary p)) { w with clock := now }, ?_,
      CircuitBreaker.recordFailure_flag hstate⟩
    simp only [Breaker.step, if_pos hclock, act, hp, enter_of_free (hlock now)]
  · refine ⟨runSection cfg now c (.release (.canary p)) { w with clock := now }, ?_,
      CircuitBreaker.release_flag hstate⟩
    simp only [Breaker.step, if_pos hclock, act, cancel, leave, Admission.claimed, hp,
      enter_of_free (hlock now), if_true]

/-- **A set flag has its canary.**  Whatever returns, raises and is cancelled, and
in whatever order, `canary_in_flight` is set only in HALF_OPEN and while the call
that last set it executes; however that call ends, the flag is cleared.  So the
circuit never rejects every call with no canary left. -/
theorem flag_has_probe (cfg : CircuitBreakerConfig) {w : World}
    (h : Reachable (step cfg) .init w) :
    (w.breaker.canaryInFlight = true → w.breaker.state = .halfOpen ∧
      ∃ c, w.lastSetter = some c ∧ Probing w c ∧ ReleasedBy cfg w c) ∧ ¬ Wedged cfg w := by
  obtain ⟨hfree, hw⟩ : Free w ∧ FlagHeld w :=
    h.invariant (I := fun w => Free w ∧ FlagHeld w) ⟨free_init, flagHeld_init⟩
      fun _ _ _ hI _ hs => ⟨hI.1.step hs, hI.2.step hI.1 hs⟩
  refine ⟨fun hf => ?_, ?_⟩
  · obtain ⟨hs, c, hc, hp⟩ := hw hf
    exact ⟨hs, c, hc, hp, releasedBy_of_flagHeld hfree hw hp⟩
  · rintro ⟨hs, hall, hnone⟩
    obtain ⟨e, he⟩ := hall 0
    cases hf : w.breaker.canaryInFlight with
    | true =>
      obtain ⟨-, c, -, hp⟩ := hw hf
      exact hnone c hp
    | false => simp [CircuitBreaker.admission, hs, hf] at he

/-- A circuit that opens at the first failure and is probed at once. -/
def eager : CircuitBreakerConfig := { failureThreshold := 1, cooldownSeconds := 0 }

/-- A failure opens the circuit, and the next call is a canary. -/
def toCanary : List Event := [⟨.start, 0, 1⟩, ⟨.fail, 0, 2⟩, ⟨.start, 1, 3⟩]

/-- A state with a set flag is reached. -/
theorem flag_has_probe_eager : ∃ w, w.breaker.canaryInFlight = true ∧
    (∃ c, w.lastSetter = some c ∧ Probing w c) ∧ ¬ Wedged eager w := by
  have hrun : (exec (step eager) .init toCanary).map (fun w => w.breaker.canaryInFlight) =
      some true := by decide +kernel
  obtain ⟨w, hw, hf⟩ := Option.map_eq_some_iff.1 hrun
  obtain ⟨hflag, hwedged⟩ := flag_has_probe eager (reachable_of_exec hw)
  obtain ⟨-, c, hc, hp, -⟩ := hflag hf
  exact ⟨w, hf, ⟨c, hc, hp⟩, hwedged⟩

/-! ### One canary at a time -/

/-- No call that was admitted while CLOSED returns or raises while a canary is in
flight. -/
def Undisturbed (w : World) (e : Event) : Prop :=
  w.breaker.state = .halfOpen → w.breaker.canaryInFlight = true →
    w.calls e.call = .executing .closed → e.act ≠ .succeed ∧ e.act ≠ .fail

/-- Every executing canary is the one that the flag stands for. -/
structure Sole (w : World) : Prop where
  free : Free w
  canary : ∀ c p, w.calls c = .executing (.canary p) → w.breaker.state = .halfOpen ∧
    w.breaker.canaryInFlight = true ∧ w.lastSetter = some c ∧ p = w.period

theorem sole_init : Sole .init := ⟨free_init, fun _ _ h => nomatch h⟩

/-- A canary after one call has moved is that call or was a canary before. -/
theorem canary_goto {w : World} {c d q : ℕ} {p : Phase}
    (h : (w.goto c p).calls d = .executing (.canary q)) :
    d = c ∧ p = .executing (.canary q) ∨ d ≠ c ∧ w.calls d = .executing (.canary q) := by
  rw [goto_calls] at h
  split_ifs at h with hd
  · exact .inl ⟨hd, h⟩
  · exact .inr ⟨hd, h⟩

/-- Beside a call that records its outcome there is no canary. -/
theorem Sole.alone {w : World} {e : Event} (hw : Sole w) (hok : Undisturbed w e) {a : Admission}
    (ha : e.act = .succeed ∨ e.act = .fail ∨ ∃ p, a = .canary p)
    (hc : w.calls e.call = .executing a) {d q : ℕ} (hd : d ≠ e.call) :
    w.calls d ≠ .executing (.canary q) := by
  intro hq
  obtain ⟨hs, hf, hset, -⟩ := hw.canary d q hq
  cases a with
  | canary p =>
    obtain ⟨-, -, hset', -⟩ := hw.canary e.call p hc
    rw [hset] at hset'
    exact hd (Option.some.inj hset')
  | closed =>
    obtain ⟨hsucc, hfail⟩ := hok hs hf hc
    rcases ha with ha | ha | ⟨p, hp⟩
    · exact hsucc ha
    · exact hfail ha
    · cases hp

/-- **One step** keeps the canary alone, if no stale call disturbs it. -/
theorem Sole.step {cfg : CircuitBreakerConfig} {w w' : World} {e : Event} (hw : Sole w)
    (hok : Undisturbed w e) (h : step cfg w e = some w') : Sole w' := by
  refine ⟨hw.free.step h, ?_⟩
  cases hw.free.moves h with
  | start _ _ =>
    have hadm := admits cfg e.now w.breaker
    simp only [runSection]
    generalize w.breaker.admission cfg e.now = r at hadm
    cases hadm with
    | rejected _ =>
      intro d q hd
      rcases canary_goto hd with ⟨-, hp⟩ | ⟨-, hd⟩
      · cases hp
      · exact hw.canary d q hd
    | closed _ =>
      intro d q hd
      rcases canary_goto hd with ⟨-, hp⟩ | ⟨-, hd⟩
      · cases hp
      · exact hw.canary d q hd
    | cooledDown hs =>
      intro d q hd
      rcases canary_goto hd with ⟨rfl, hp⟩ | ⟨-, hd⟩
      · cases hp
        exact ⟨rfl, rfl, rfl, rfl⟩
      · have := (hw.canary d q hd).1
        rw [hs] at this
        cases this
    | halfOpen hs hf =>
      intro d q hd
      rcases canary_goto hd with ⟨rfl, hp⟩ | ⟨-, hd⟩
      · cases hp
        exact ⟨hs, rfl, rfl, rfl⟩
      · have := (hw.canary d q hd).2.1
        rw [hf] at this
        cases this
  | succeed ha hc =>
    intro d q hd
    rcases canary_goto hd with ⟨-, hp⟩ | ⟨hne, hd⟩
    · cases hp
    · exact absurd hd (hw.alone hok (.inl ha) hc hne)
  | fail ha hc =>
    intro d q hd
    rcases canary_goto hd with ⟨-, hp⟩ | ⟨hne, hd⟩
    · cases hp
    · exact absurd hd (hw.alone hok (.inr (.inl ha)) hc hne)
  | release _ hc =>
    intro d q hd
    rcases canary_goto hd with ⟨-, hp⟩ | ⟨hne, hd⟩
    · cases hp
    · exact absurd hd (hw.alone hok (.inr (.inr ⟨_, rfl⟩)) hc hne)
  | cancel _ _ =>
    intro d q hd
    rcases canary_goto hd with ⟨-, hp⟩ | ⟨-, hd⟩
    · cases hp
    · exact hw.canary d q hd

/-- No two calls execute as canaries. -/
def AtMostOneCanary (w : World) : Prop := ∀ c d, Probing w c → Probing w d → c = d

/-- **One canary at a time.**  In every run in which no call that was admitted
while CLOSED returns or raises while a canary is in flight, at most one canary
executes its function. -/
theorem atMostOneCanary_of_undisturbed (cfg : CircuitBreakerConfig) {w : World}
    (h : Reach (step cfg) Undisturbed .init w) : AtMostOneCanary w := by
  have hw : Sole w := h.invariant sole_init fun _ _ _ hI hok hs => hI.step hok hs
  rintro c d ⟨p, hc⟩ ⟨q, hd⟩
  have hset := (hw.canary c p hc).2.2.1
  rw [(hw.canary d q hd).2.2.1] at hset
  exact (Option.some.inj hset).symm

/-- A run without a disturbance that has a canary. -/
theorem atMostOneCanary_eager : ∃ w, Probing w 1 ∧ AtMostOneCanary w := by
  have hrun : (exec (step eager) .init toCanary).map (fun w => w.calls 1) =
      some (.executing (.canary 1)) := by decide +kernel
  obtain ⟨w, hw, hc⟩ := Option.map_eq_some_iff.1 hrun
  obtain ⟨w₁, h₁, hrest⟩ := Option.bind_eq_some_iff.1 hw
  obtain ⟨w₂, h₂, hrest⟩ := Option.bind_eq_some_iff.1 hrest
  obtain ⟨w₃, h₃, hrest⟩ := Option.bind_eq_some_iff.1 hrest
  obtain rfl := Option.some.inj hrest
  -- the circuit is CLOSED for two steps, and OPEN when the canary comes
  have hs₁ : w₁.breaker.state = .closed := by
    have : (step eager .init ⟨.start, 0, 1⟩).map (fun w => w.breaker.state) = some .closed := by
      decide +kernel
    rw [h₁] at this
    exact Option.some.inj this
  have hs₂ : w₂.breaker.state = .opened := by
    have : (exec (step eager) .init (toCanary.take 2)).map (fun w => w.breaker.state) =
        some .opened := by decide +kernel
    simp only [toCanary, List.take, exec, h₁, h₂, Option.bind_some] at this
    exact Option.some.inj this
  have hreach₁ : Reach (step eager) Undisturbed .init w₁ :=
    Reach.refl.tail (fun h => absurd h (by decide)) h₁
  have hreach := (hreach₁.tail (fun h => by simp [hs₁] at h) h₂).tail
    (fun h => by simp [hs₂] at h) h₃
  exact ⟨w₃, ⟨1, hc⟩, atMostOneCanary_of_undisturbed eager hreach⟩

/-- With the default thresholds: three calls fail and open the circuit while a
fourth one is slow; after the cooldown a canary is sent, the slow call fails and
re-opens the circuit, and after a second cooldown another canary is sent. -/
def staleFailure : List Event :=
  [⟨.start, 0, 0⟩, ⟨.start, 1, 0⟩, ⟨.start, 2, 0⟩, ⟨.start, 3, 0⟩, ⟨.fail, 1, 1⟩, ⟨.fail, 2, 1⟩,
    ⟨.fail, 3, 1⟩, ⟨.start, 4, 61⟩, ⟨.fail, 0, 62⟩, ⟨.start, 5, 122⟩]

/-- **Two canaries execute at once.** -/
theorem two_canaries : ∃ w, Reachable (step {}) .init w ∧ ¬ AtMostOneCanary w := by
  have hrun : (exec (step {}) .init staleFailure).map (fun w => (w.calls 4, w.calls 5)) =
      some (.executing (.canary 1), .executing (.canary 2)) := by decide +kernel
  obtain ⟨w, hw, hcalls⟩ := Option.map_eq_some_iff.1 hrun
  obtain ⟨h4, h5⟩ := Prod.mk.inj hcalls
  exact ⟨w, reachable_of_exec hw, fun h => absurd (h 4 5 ⟨1, h4⟩ ⟨2, h5⟩) (by decide)⟩

/-! ### What moves a half-open circuit -/

/-- No call that was admitted while CLOSED returns or raises in HALF_OPEN. -/
def NoStale (w : World) (e : Event) : Prop :=
  w.breaker.state = .halfOpen → w.calls e.call = .executing .closed →
    e.act ≠ .succeed ∧ e.act ≠ .fail

theorem NoStale.undisturbed {w : World} {e : Event} (h : NoStale w e) : Undisturbed w e :=
  fun hs _ => h hs

/-- The circuit leaves HALF_OPEN because of the canaries of its period, and no
other call changes it. -/
structure OwnProbes (cfg : CircuitBreakerConfig) (w : World) (e : Event) (w' : World) : Prop where
  closes : w.breaker.state = .halfOpen → w'.breaker.state = .closed →
    cfg.halfOpenSuccessThreshold ≤ w'.probeSuccesses
  opens : w.breaker.state = .halfOpen → w'.breaker.state = .opened →
    (e.act = .fail ∨ e.act = .cancel) ∧ w.calls e.call = .executing (.canary w.period)
  others : w.breaker.state = .halfOpen → ∀ a, w.calls e.call = .executing a →
    a ≠ .canary w.period → w'.breaker = w.breaker

/-- In HALF_OPEN the breaker counts the successes of the canaries of the period. -/
structure Counted (w : World) : Prop where
  sole : Sole w
  count : w.breaker.state = .halfOpen → w.breaker.consecutiveSuccesses = w.probeSuccesses

theorem counted_init : Counted .init := ⟨sole_init, fun h => nomatch h⟩

/-- A step from another state than HALF_OPEN has nothing to answer for. -/
theorem OwnProbes.of_ne {cfg : CircuitBreakerConfig} {w w' : World} {e : Event}
    (h : w.breaker.state ≠ .halfOpen) : OwnProbes cfg w e w' :=
  ⟨fun hs => absurd hs h, fun hs => absurd hs h, fun hs => absurd hs h⟩

theorem OwnProbes.of_eq {cfg : CircuitBreakerConfig} {w w' : World} {e : Event}
    (h : w'.breaker = w.breaker) : OwnProbes cfg w e w' := by
  refine ⟨fun hs hc => ?_, fun hs ho => ?_, fun _ _ _ _ => h⟩
  · rw [h, hs] at hc
    cases hc
  · rw [h, hs] at ho
    cases ho

/-- An admission moves as it should, as the call was not there before. -/
theorem Counted.admission {cfg : CircuitBreakerConfig} {w : World} {e : Event} (hw : Counted w)
    (hidle : w.calls e.call = .idle) :
    let w' := runSection cfg e.now e.call .admission { w with clock := e.now }
    OwnProbes cfg w e w' ∧
      (w'.breaker.state = .halfOpen → w'.breaker.consecutiveSuccesses = w'.probeSuccesses) := by
  have hadm := admits cfg e.now w.breaker
  simp only [runSection]
  generalize w.breaker.admission cfg e.now = r at hadm
  cases hadm with
  | rejected _ => exact ⟨.of_eq rfl, hw.count⟩
  | closed _ => exact ⟨.of_eq rfl, hw.count⟩
  | cooledDown hs =>
    refine ⟨.of_ne (by simp [hs]), fun _ => ?_⟩
    simp [World.goto, CircuitBreaker.toHalfOpen, hs]
  | halfOpen hs _ =>
    refine ⟨⟨fun _ h => ?_, fun _ h => ?_, fun _ a hc => ?_⟩, fun h => ?_⟩
    · exact absurd (h.symm.trans hs) (by decide)
    · exact absurd (h.symm.trans hs) (by decide)
    · rw [hidle] at hc
      cases hc
    · simpa [World.goto, hs] using hw.count hs

/-- A call that ends in HALF_OPEN is a canary of the period, unless it is stale. -/
theorem Counted.own {w : World} {e : Event} (hw : Counted w) (hok : NoStale w e)
    (hact : e.act = .succeed ∨ e.act = .fail) (hs : w.breaker.state = .halfOpen) {a : Admission}
    (hc : w.calls e.call = .executing a) : a = .canary w.period := by
  cases a with
  | canary p => rw [(hw.sole.canary _ _ hc).2.2.2]
  | closed =>
    obtain ⟨hsucc, hfail⟩ := hok hs hc
    rcases hact with h | h
    · exact absurd h hsucc
    · exact absurd h hfail

/-- **One step** without a stale outcome moves the circuit as its probes say. -/
theorem Counted.step {cfg : CircuitBreakerConfig} {w w' : World} {e : Event} (hw : Counted w)
    (hok : NoStale w e) (h : step cfg w e = some w') : OwnProbes cfg w e w' ∧ Counted w' := by
  suffices hmain : OwnProbes cfg w e w' ∧
      (w'.breaker.state = .halfOpen → w'.breaker.consecutiveSuccesses = w'.probeSuccesses) from
    ⟨hmain.1, hw.sole.step hok.undisturbed h, hmain.2⟩
  cases hw.sole.free.moves h with
  | start _ hidle => exact hw.admission hidle
  | @succeed a hact hc =>
    cases hs : w.breaker.state with
    | halfOpen =>
      obtain rfl := hw.own hok (.inl hact) hs hc
      have hcount := hw.count hs
      simp only [runSection, World.goto, CircuitBreaker.recordSuccess, hs, if_true]
      split_ifs with hth
      · refine ⟨⟨fun _ _ => ?_, fun _ h => CircuitState.noConfusion h, fun _ b hb hne => ?_⟩,
          fun h => h.elim⟩
        · simpa [hcount] using hth
        · exact absurd (Phase.executing.inj (hb.symm.trans hc)) hne
      · refine ⟨⟨fun _ h => CircuitState.noConfusion h, fun _ h => CircuitState.noConfusion h, fun _ b hb hne => ?_⟩,
          fun _ => ?_⟩
        · exact absurd (Phase.executing.inj (hb.symm.trans hc)) hne
        · simp [hcount]
    | closed =>
      refine ⟨.of_ne (by simp [hs]), fun h => ?_⟩
      simp [runSection, World.goto, CircuitBreaker.recordSuccess, hs] at h
    | opened =>
      refine ⟨.of_ne (by simp [hs]), fun h => ?_⟩
      simp [runSection, World.goto, CircuitBreaker.recordSuccess, hs] at h
  | @fail a hact hc =>
    cases hs : w.breaker.state with
    | halfOpen =>
      obtain rfl := hw.own hok (.inr hact) hs hc
      simp only [runSection, World.goto, CircuitBreaker.recordFailure, hs]
      refine ⟨⟨fun _ h => CircuitState.noConfusion h, fun _ _ => ⟨.inl hact, hc⟩, fun _ b hb hne => ?_⟩,
        fun h => CircuitState.noConfusion h⟩
      exact absurd (Phase.executing.inj (hb.symm.trans hc)) hne
    | closed =>
      refine ⟨.of_ne (by simp [hs]), fun h => ?_⟩
      simp only [runSection, World.goto, CircuitBreaker.recordFailure, hs] at h
      split_ifs at h
    | opened =>
      refine ⟨.of_ne (by simp [hs]), fun h => ?_⟩
      simp [runSection, World.goto, CircuitBreaker.recordFailure, hs] at h
  | @release p hact hc =>
    obtain ⟨hs, hf, -, rfl⟩ := hw.sole.canary _ _ hc
    simp only [runSection, World.goto, CircuitBreaker.release, hs, hf, and_self, if_true]
    refine ⟨⟨fun _ h => CircuitState.noConfusion h, fun _ _ => ⟨.inr hact, hc⟩, fun _ b hb hne => ?_⟩,
      fun h => CircuitState.noConfusion h⟩
    exact absurd (Phase.executing.inj (hb.symm.trans hc)) hne
  | cancel _ _ => exact ⟨.of_eq rfl, hw.count⟩

/-- **A stale outcome in HALF_OPEN changes the circuit.** -/
theorem stale_changes {cfg : CircuitBreakerConfig} {w w' : World} {e : Event} (hfree : Free w)
    (h : step cfg w e = some w') (hstale : ¬ NoStale w e) : ¬ OwnProbes cfg w e w' := by
  intro hown
  simp only [NoStale, not_forall] at hstale
  obtain ⟨hs, hc, hact⟩ := hstale
  have hsame := hown.others hs _ hc (by simp)
  have hstate : w'.breaker.state = .halfOpen := by rw [hsame, hs]
  cases hfree.moves h with
  | start ha _ => simp [ha] at hact
  | succeed _ _ =>
    simp only [runSection, World.goto, CircuitBreaker.recordSuccess, hs] at hsame hstate
    split_ifs at hsame hstate
    have := congrArg CircuitBreaker.consecutiveSuccesses hsame
    simp at this
  | fail _ _ =>
    simp [runSection, World.goto, CircuitBreaker.recordFailure, hs] at hstate
  | release ha _ => simp [ha] at hact
  | cancel ha _ => simp [ha] at hact

/-- **Exactly when a half-open circuit obeys its own probes.**  Along a run, the
circuit goes from HALF_OPEN to CLOSED only after `half_open_success_threshold`
successes of canaries of the period, to OPEN only when such a canary failed or
was cancelled, and changes with no other call, exactly when no call that was
admitted while CLOSED returns or raises in HALF_OPEN. -/
theorem ownProbes_iff (cfg : CircuitBreakerConfig) (es : List Event) :
    AllMoves (step cfg) (OwnProbes cfg) .init es ↔ AllSteps (step cfg) NoStale .init es := by
  refine allMoves_iff_allSteps (I := Counted) ?_ ?_ counted_init es
  · exact fun _ _ _ hw h hok => hw.step hok h
  · exact fun _ _ _ hw h hok => stale_changes hw.sole.free h hok

/-- The slow call of `staleFailure` returns instead, while the canary executes. -/
def staleSuccess : List Event := staleFailure.take 8 ++ [⟨.succeed, 0, 62⟩]

/-- **The circuit closes without a probe**, as a call from before returns. -/
theorem stale_success_closes : ¬ AllMoves (step {}) (OwnProbes {}) .init staleSuccess := by
  intro h
  have hrun : (exec (step {}) .init (staleFailure.take 8)).map (fun w =>
      (w.breaker.state, (step {} w ⟨.succeed, 0, 62⟩).map fun w' =>
        (w'.breaker.state, w'.probeSuccesses))) = some (.halfOpen, some (.closed, 0)) := by
    decide +kernel
  obtain ⟨w, hw, hrest⟩ := Option.map_eq_some_iff.1 hrun
  obtain ⟨hs, hnext⟩ := Prod.mk.inj hrest
  obtain ⟨w', hw', hclosed⟩ := Option.map_eq_some_iff.1 hnext
  obtain ⟨hs', hprobes⟩ := Prod.mk.inj hclosed
  have hth := (h.of_exec hw hw').closes hs hs'
  rw [hprobes] at hth
  exact absurd hth (by decide)

end Breaker
end Boveda

/-
# The router and its breakers

`MultiCloudStorageRouter.upload_chunk` of `src/boveda/circuit_breaker.py`, with the two
circuit breakers it calls and the outbox it falls back to.  An upload is a call of the
primary breaker, then one of the secondary breaker, then an `enqueue_chunk`; what lies
between two of them suspends nowhere, and so belongs to the step that ends the first.

The components are those of `Boveda.Breaker.Circuit` and `Boveda.Outbox.Queue`, and every
run of the whole is a run of each of them (`refines`): what holds of a breaker under any
calls, or of the outbox whatever the clouds refuse, holds here.  Beside that the uploads are
linked: an uploader is called only behind an admission of its breaker, the secondary cloud
only after the primary, and the outbox only after both.
-/

import Boveda.Breaker.Circuit
import Boveda.Outbox.Effects
import Mathlib.Tactic.Linarith

namespace Boveda
namespace Router

open Lib
open Breaker (CircuitBreakerConfig CircuitBreakerOpenError Act Phase)
open Outbox (Chunk ChunkId Upload)

/-- The configurations of the breakers, and the surroundings of the outbox. -/
structure Config where
  primary : CircuitBreakerConfig
  secondary : CircuitBreakerConfig
  setting : Outbox.Setting

/-- The breakers and the outbox.  Upload `u` is call `u` of either breaker. -/
structure World where
  primary : Breaker.World
  secondary : Breaker.World
  outbox : Outbox.World

/-- A new router over an empty outbox. -/
def World.init : World := ⟨.init, .init, .init⟩

/-- What happens next: an upload is made; a call of a breaker goes on; or the outbox takes a
step.  `now` is what `time.monotonic()` reads, `later` what it reads again if the upload comes
to the secondary breaker, and `id` what `uuid4` gives if it comes to the outbox. -/
inductive Event
  | uploadChunk (u : ℕ) (ch : Chunk) (now later : ℚ) (id : ChunkId)
  | primary (a : Act) (u : ℕ) (now later : ℚ) (id : ChunkId)
  | secondary (a : Act) (u : ℕ) (now : ℚ) (id : ChunkId)
  | store (e : Outbox.Event)

section

variable (C : Config)

/-- A step of the outbox. -/
def store (w : World) (e : Outbox.Event) : Option World :=
  (Outbox.step C.setting w.outbox e).map fun outbox => { w with outbox }

/-- `upload_chunk` behind the call of the secondary breaker. -/
def afterSecondary (u : ℕ) (id : ChunkId) (w : World) : Option World :=
  match w.secondary.calls u with
  | .ended .returned => store C w (.uploaderAccepts u)
  | .ended .raised | .ended (.rejected _) => store C w (.secondaryRefuses u id)
  | .ended .cancelled => store C w (.stopUpload u)
  | _ => some w

/-- An act of the call of the secondary breaker, and what the upload does then. -/
def stepSecondary (a : Act) (u : ℕ) (now : ℚ) (id : ChunkId) (w : World) : Option World :=
  (Breaker.step C.secondary w.secondary ⟨a, u, now⟩).bind fun secondary =>
    afterSecondary C u id { w with secondary }

/-- `upload_chunk` behind the call of the primary breaker. -/
def afterPrimary (u : ℕ) (later : ℚ) (id : ChunkId) (w : World) : Option World :=
  match w.primary.calls u with
  | .ended .returned => store C w (.uploaderAccepts u)
  | .ended .raised | .ended (.rejected _) =>
    (store C w (.primaryRefuses u)).bind (stepSecondary C .start u later id)
  | .ended .cancelled => store C w (.stopUpload u)
  | _ => some w

/-- An act of the call of the primary breaker, and what the upload does then. -/
def stepPrimary (a : Act) (u : ℕ) (now later : ℚ) (id : ChunkId) (w : World) : Option World :=
  (Breaker.step C.primary w.primary ⟨a, u, now⟩).bind fun primary =>
    afterPrimary C u later id { w with primary }

/-- The clock has not gone back. -/
def World.clocked (w : World) (now : ℚ) : Bool :=
  w.primary.clock ≤ now ∧ w.secondary.clock ≤ now

/-- An event of the outbox that is not up to a call of a breaker: a drain, an upload of
another process, or one of this router that has come to the outbox. -/
def World.outside (w : World) (e : Outbox.Event) : Bool :=
  match e.party with
  | .inr _ => true
  | .inl u =>
    match w.primary.calls u, w.outbox.uploads u with
    | .idle, _ => true
    | _, .primary _ | _, .secondary _ => false
    | _, _ => true

/-- One step. -/
def step (w : World) : Event → Option World
  | .uploadChunk u ch now later id =>
    if w.clocked now ∧ now ≤ later then
      (store C w (.uploadChunk u ch)).bind (stepPrimary C .start u now later id)
    else none
  | .primary a u now later id =>
    if w.clocked now ∧ now ≤ later ∧ a ≠ .start then stepPrimary C a u now later id w else none
  | .secondary a u now id =>
    if w.clocked now ∧ a ≠ .start then stepSecondary C a u now id w else none
  | .store e => if w.outside e then store C w e else none

end

/-! ### The call of a breaker -/

/-- What a breaker answers to a call: `CircuitBreakerOpenError`, or that it may go on. -/
def rejects (cfg : CircuitBreakerConfig) (now : ℚ) (b : Breaker.World) : Bool :=
  (b.breaker.admission cfg now).2.isOk = false

/-- An act takes a call from one phase to the next. -/
inductive Goes (cfg : CircuitBreakerConfig) (now : ℚ) (b : Breaker.World) :
    Phase → Act → Phase → Prop
  | rejected (error : CircuitBreakerOpenError) :
      rejects cfg now b = true → Goes cfg now b .idle .start (.ended (.rejected error))
  | admitted (a : Breaker.Admission) :
      rejects cfg now b = false → Goes cfg now b .idle .start (.executing a)
  | succeed (a : Breaker.Admission) : Goes cfg now b (.executing a) .succeed (.ended .returned)
  | fail (a : Breaker.Admission) : Goes cfg now b (.executing a) .fail (.ended .raised)
  | cancel (a : Breaker.Admission) : Goes cfg now b (.executing a) .cancel (.ended .cancelled)

variable {cfg : CircuitBreakerConfig} {b b' : Breaker.World} {a : Act} {u : ℕ} {now later : ℚ}

/-- **One act** of a call, when nobody waits for the lock. -/
theorem goes_of_step (hfree : Breaker.Free b) (h : Breaker.step cfg b ⟨a, u, now⟩ = some b') :
    ∃ p, Goes cfg now b (b.calls u) a p ∧ b'.calls = Function.update b.calls u p := by
  generalize hcall : (⟨a, u, now⟩ : Breaker.Event) = e at h
  cases hfree.moves h with
  | start hact hidle =>
    subst hcall
    obtain rfl : a = .start := hact
    rw [show b.calls u = .idle from hidle]
    cases hadm : b.breaker.admission cfg now with
    | mk breaker result =>
      simp only [Breaker.runSection, hadm]
      cases result with
      | error error => exact ⟨_, .rejected error (by rw [rejects, hadm]; rfl), rfl⟩
      | ok claimed =>
        have hok : rejects cfg now b = false := by rw [rejects, hadm]; rfl
        cases claimed with
        | false => exact ⟨_, .admitted _ hok, rfl⟩
        | true => exact ⟨_, .admitted _ hok, rfl⟩
  | succeed hact hexec =>
    subst hcall
    obtain rfl : a = .succeed := hact
    rw [show b.calls u = _ from hexec]
    exact ⟨_, .succeed _, rfl⟩
  | fail hact hexec =>
    subst hcall
    obtain rfl : a = .fail := hact
    rw [show b.calls u = _ from hexec]
    exact ⟨_, .fail _, rfl⟩
  | release hact hexec =>
    subst hcall
    obtain rfl : a = .cancel := hact
    rw [show b.calls u = _ from hexec]
    exact ⟨_, .cancel _, rfl⟩
  | cancel hact hexec =>
    subst hcall
    obtain rfl : a = .cancel := hact
    rw [show b.calls u = _ from hexec]
    exact ⟨_, .cancel _, rfl⟩

/-- An act whose turn it is is a step. -/
theorem isSome_step (hclock : b.clock ≤ now)
    (h : (b.calls u = .idle ∧ a = .start) ∨
      ((∃ adm, b.calls u = .executing adm) ∧ (a = .succeed ∨ a = .fail ∨ a = .cancel))) :
    ∃ b', Breaker.step cfg b ⟨a, u, now⟩ = some b' := by
  unfold Breaker.step
  rw [if_pos hclock]
  rcases h with ⟨hidle, rfl⟩ | ⟨⟨adm, hexec⟩, rfl | rfl | rfl⟩
  · exact ⟨_, by simp only [Breaker.act, hidle]; rfl⟩
  · exact ⟨_, by simp only [Breaker.act, hexec]; rfl⟩
  · exact ⟨_, by simp only [Breaker.act, hexec]; rfl⟩
  · exact ⟨_, by simp only [Breaker.act, Breaker.cancel, hexec]; rfl⟩

/-! ### The uploads of the outbox -/

/-- An event takes an upload from one position to the next. -/
inductive Moves : Upload → Outbox.Event → Upload → Prop
  | uploadChunk (u : ℕ) (ch : Chunk) : Moves .idle (.uploadChunk u ch) (.primary ch)
  | enqueueChunk (u : ℕ) (ch : Chunk) (id : ChunkId) :
      Moves .idle (.enqueueChunk u ch id) (.staging ch id)
  | primaryAccepts (u : ℕ) (ch : Chunk) :
      Moves (.primary ch) (.uploaderAccepts u) (.returned ch .primary)
  | secondaryAccepts (u : ℕ) (ch : Chunk) :
      Moves (.secondary ch) (.uploaderAccepts u) (.returned ch .secondary)
  | primaryRefuses (u : ℕ) (ch : Chunk) : Moves (.primary ch) (.primaryRefuses u) (.secondary ch)
  | secondaryRefuses (u : ℕ) (ch : Chunk) (id : ChunkId) :
      Moves (.secondary ch) (.secondaryRefuses u id) (.staging ch id)
  | stageFile (u : ℕ) (ch : Chunk) (id : ChunkId) :
      Moves (.staging ch id) (.stageFile u) (.inserting ch id)
  | abandonFile (u : ℕ) (ch : Chunk) (id : ChunkId) (left : Option Bytes) :
      Moves (.staging ch id) (.abandonFile u left) .stopped
  | insertRow (u : ℕ) (ch : Chunk) (id : ChunkId) (now : Outbox.Time) :
      Moves (.inserting ch id) (.insertRow u now) (.committed ch id)
  | insertFails (u : ℕ) (ch : Chunk) (id : ChunkId) (committed unlinked : Bool)
      (now : Outbox.Time) :
      Moves (.inserting ch id) (.insertFails u committed unlinked now) .stopped
  | enqueued (u : ℕ) (ch : Chunk) (id : ChunkId) :
      Moves (.committed ch id) (.enqueued u) (.returned ch (.outbox id))
  | stopPrimary (u : ℕ) (ch : Chunk) : Moves (.primary ch) (.stopUpload u) .stopped
  | stopSecondary (u : ℕ) (ch : Chunk) : Moves (.secondary ch) (.stopUpload u) .stopped
  | stopInserting (u : ℕ) (ch : Chunk) (id : ChunkId) :
      Moves (.inserting ch id) (.stopUpload u) .stopped
  | stopCommitted (u : ℕ) (ch : Chunk) (id : ChunkId) :
      Moves (.committed ch id) (.stopUpload u) .stopped

variable {S : Outbox.Setting} {o o' : Outbox.World} {e : Outbox.Event}

/-- A step of an upload moves that upload. -/
theorem moves_of_stepUpload {p : Upload} (h : Outbox.stepUpload S o u p e = some o') :
    ∃ q, Moves p e q ∧ o'.uploads = Function.update o.uploads u q := by
  unfold Outbox.stepUpload Outbox.World.draw at h
  cases e with
  | uploadChunk v ch =>
    dsimp only at h
    split at h <;> cases h
    exact ⟨_, .uploadChunk v ch, rfl⟩
  | enqueueChunk v ch id =>
    dsimp only at h
    split at h <;> try cases h
    split_ifs at h <;> cases h
    exact ⟨_, .enqueueChunk v ch id, rfl⟩
  | uploaderAccepts v =>
    dsimp only at h
    split at h <;> cases h
    · exact ⟨_, .primaryAccepts v _, rfl⟩
    · exact ⟨_, .secondaryAccepts v _, rfl⟩
  | primaryRefuses v =>
    dsimp only at h
    split at h <;> cases h
    exact ⟨_, .primaryRefuses v _, rfl⟩
  | secondaryRefuses v id =>
    dsimp only at h
    split at h <;> try cases h
    split_ifs at h <;> cases h
    exact ⟨_, .secondaryRefuses v _ id, rfl⟩
  | stageFile v =>
    dsimp only at h
    split at h <;> try cases h
    split_ifs at h
    cases h
    exact ⟨_, .stageFile v _ _, rfl⟩
  | abandonFile v left =>
    dsimp only at h
    split at h <;> cases h
    exact ⟨_, .abandonFile v _ _ left, rfl⟩
  | insertRow v now =>
    dsimp only at h
    split at h <;> try cases h
    obtain ⟨o₁, h₁, rfl⟩ := Option.map_eq_some_iff.1 h
    refine ⟨_, .insertRow v _ _ now, ?_⟩
    rw [← (Outbox.World.files_insertRow h₁).2.1]
    rfl
  | insertFails v committed unlinked now =>
    dsimp only at h
    split at h <;> try cases h
    obtain ⟨o₁, h₁, rfl⟩ := Option.map_eq_some_iff.1 h
    refine ⟨_, .insertFails v _ _ committed unlinked now, ?_⟩
    have huploads : o₁.uploads = o.uploads := by
      cases committed with
      | true => exact (Outbox.World.files_insertRow h₁).2.1
      | false => exact congrArg Outbox.World.uploads (Option.some.inj h₁).symm
    rw [← huploads]
    cases unlinked <;> rfl
  | enqueued v =>
    dsimp only at h
    split at h <;> cases h
    exact ⟨_, .enqueued v _ _, rfl⟩
  | stopUpload v =>
    dsimp only at h
    split at h <;> cases h
    · exact ⟨_, .stopPrimary v _, rfl⟩
    · exact ⟨_, .stopSecondary v _, rfl⟩
    · exact ⟨_, .stopInserting v _ _, rfl⟩
    · exact ⟨_, .stopCommitted v _ _, rfl⟩
  | _ => cases h

/-- A step of a drain moves no upload. -/
theorem uploads_of_stepDrain {d : ℕ} {stage : Outbox.Stage} {item : Outbox.Item}
    {rest : List Outbox.Item} {n : ℕ}
    (h : Outbox.stepDrain S o d stage item rest n e = some o') : o'.uploads = o.uploads := by
  unfold Outbox.stepDrain at h
  cases e with
  | readFile v =>
    dsimp only at h
    split at h <;> try cases h
    split at h <;> cases h <;> rfl
  | markFails v committed now =>
    dsimp only at h
    split at h <;> cases h
    cases committed <;> rfl
  | stopDrain v =>
    cases h
    rfl
  | _ =>
    dsimp only at h
    first
      | cases h
      | (split at h <;> cases h; rfl)

/-- **One step of the outbox** moves the upload that it is about, and no other. -/
theorem moves_of_step (h : Outbox.step S o e = some o') :
    (∃ u q, e.party = .inl u ∧ Moves (o.uploads u) e q ∧
        o'.uploads = Function.update o.uploads u q) ∨
      ((∃ d, e.party = .inr d) ∧ o'.uploads = o.uploads) := by
  unfold Outbox.step at h
  split at h
  · next u hparty =>
    obtain ⟨q, hmoves, huploads⟩ := moves_of_stepUpload h
    exact .inl ⟨u, q, hparty, hmoves, huploads⟩
  · next d hparty =>
    refine .inr ⟨⟨d, hparty⟩, ?_⟩
    split at h
    · split at h
      · cases h
        rfl
      · cases h
    · exact uploads_of_stepDrain h
    · cases h

/-! ### The cascade -/

/-- A call that its breaker rejected, or whose uploader raised. -/
inductive Refused : Phase → Prop
  | raised : Refused (.ended .raised)
  | rejected (error : CircuitBreakerOpenError) : Refused (.ended (.rejected error))

/-- An upload that has come to the outbox. -/
inductive InOutbox : Upload → Prop
  | staging (ch : Chunk) (id : ChunkId) : InOutbox (.staging ch id)
  | inserting (ch : Chunk) (id : ChunkId) : InOutbox (.inserting ch id)
  | committed (ch : Chunk) (id : ChunkId) : InOutbox (.committed ch id)
  | returned (ch : Chunk) (id : ChunkId) : InOutbox (.returned ch (.outbox id))
  | stopped : InOutbox .stopped

/-- **The cascade**: how the calls of the two breakers and the position of an upload belong
together.  The first case is that of an upload that this router has not been given. -/
inductive Linked : Phase → Phase → Upload → Prop
  | other (up : Upload) : Linked .idle .idle up
  | atPrimary (a : Breaker.Admission) (ch : Chunk) : Linked (.executing a) .idle (.primary ch)
  | byPrimary (ch : Chunk) : Linked (.ended .returned) .idle (.returned ch .primary)
  | leftPrimary : Linked (.ended .cancelled) .idle .stopped
  | atSecondary {p : Phase} (a : Breaker.Admission) (ch : Chunk) :
      Refused p → Linked p (.executing a) (.secondary ch)
  | bySecondary {p : Phase} (ch : Chunk) :
      Refused p → Linked p (.ended .returned) (.returned ch .secondary)
  | leftSecondary {p : Phase} : Refused p → Linked p (.ended .cancelled) .stopped
  | degraded {p q : Phase} {up : Upload} : Refused p → Refused q → InOutbox up → Linked p q up

/-- An upload of the router. -/
def World.LinkedAt (w : World) (u : ℕ) : Prop :=
  Linked (w.primary.calls u) (w.secondary.calls u) (w.outbox.uploads u)

/-- Nobody waits for the lock of a breaker, and the uploads other than `u` are linked. -/
structure GoodBut (u : ℕ) (w : World) : Prop where
  primary : Breaker.Free w.primary
  secondary : Breaker.Free w.secondary
  linked : ∀ v, v ≠ u → w.LinkedAt v

/-- Nobody waits for the lock of a breaker, and the uploads are linked. -/
structure Good (w : World) : Prop where
  primary : Breaker.Free w.primary
  secondary : Breaker.Free w.secondary
  linked : ∀ v, w.LinkedAt v

theorem InOutbox.moves {p q : Upload} (hp : InOutbox p) (h : Moves p e q) : InOutbox q := by
  cases h with
  | stageFile => exact .inserting _ _
  | insertRow => exact .committed _ _
  | enqueued => exact .returned _ _
  | abandonFile | insertFails | stopInserting | stopCommitted => exact .stopped
  | _ => cases hp

section

variable {C : Config} {w w' : World} {ch : Chunk} {id : ChunkId}

theorem good_init : Good .init where
  primary := Breaker.free_init
  secondary := Breaker.free_init
  linked _ := .other _

theorem Good.but (hw : Good w) (u : ℕ) : GoodBut u w :=
  ⟨hw.primary, hw.secondary, fun v _ => hw.linked v⟩

theorem GoodBut.good (hw : GoodBut u w) (hu : w.LinkedAt u) : Good w where
  primary := hw.primary
  secondary := hw.secondary
  linked v := by
    rcases eq_or_ne v u with rfl | hv
    · exact hu
    · exact hw.linked v hv

/-- A step of the outbox for the upload `u`. -/
theorem GoodBut.store (hw : GoodBut u w) (hparty : e.party = .inl u)
    (h : store C w e = some w') :
    GoodBut u w' ∧ w'.primary = w.primary ∧ w'.secondary = w.secondary ∧
      Moves (w.outbox.uploads u) e (w'.outbox.uploads u) := by
  obtain ⟨o, ho, rfl⟩ := Option.map_eq_some_iff.1 h
  rcases moves_of_step ho with ⟨v, q, hv, hmoves, huploads⟩ | ⟨⟨d, hd⟩, -⟩
  · obtain rfl : v = u := Sum.inl.inj (hv.symm.trans hparty)
    refine ⟨⟨hw.primary, hw.secondary, fun v' hv' => ?_⟩, rfl, rfl, ?_⟩
    · have hlinked := hw.linked v' hv'
      unfold World.LinkedAt at hlinked ⊢
      rwa [huploads, Function.update_of_ne hv']
    · rwa [huploads, Function.update_self]
  · rw [hparty] at hd
    cases hd

/-- An act of the call `u` of the secondary breaker. -/
theorem GoodBut.actSecondary (hw : GoodBut u w) {b : Breaker.World}
    (h : Breaker.step cfg w.secondary ⟨a, u, now⟩ = some b) :
    GoodBut u { w with secondary := b } ∧
      Goes cfg now w.secondary (w.secondary.calls u) a (b.calls u) := by
  obtain ⟨p, hgoes, hcalls⟩ := goes_of_step hw.secondary h
  refine ⟨⟨hw.primary, hw.secondary.step h, fun v hv => ?_⟩, ?_⟩
  · have hlinked := hw.linked v hv
    unfold World.LinkedAt at hlinked ⊢
    dsimp only
    rwa [hcalls, Function.update_of_ne hv]
  · rwa [hcalls, Function.update_self]

/-- An act of the call `u` of the primary breaker. -/
theorem GoodBut.actPrimary (hw : GoodBut u w) {b : Breaker.World}
    (h : Breaker.step cfg w.primary ⟨a, u, now⟩ = some b) :
    GoodBut u { w with primary := b } ∧
      Goes cfg now w.primary (w.primary.calls u) a (b.calls u) := by
  obtain ⟨p, hgoes, hcalls⟩ := goes_of_step hw.primary h
  refine ⟨⟨hw.primary.step h, hw.secondary, fun v hv => ?_⟩, ?_⟩
  · have hlinked := hw.linked v hv
    unfold World.LinkedAt at hlinked ⊢
    dsimp only
    rwa [hcalls, Function.update_of_ne hv]
  · rwa [hcalls, Function.update_self]

/-- A step of the outbox that links the upload `u`. -/
theorem GoodBut.settle (hw : GoodBut u w) (hparty : e.party = .inl u)
    (hq : ∀ q, Moves (w.outbox.uploads u) e q →
      Linked (w.primary.calls u) (w.secondary.calls u) q)
    (h : Router.store C w e = some w') : Good w' := by
  obtain ⟨hw', hprimary, hsecondary, hmoves⟩ := hw.store hparty h
  refine hw'.good ?_
  unfold World.LinkedAt
  rw [hprimary, hsecondary]
  exact hq _ hmoves

/-- An act of the secondary call of an upload that the primary cloud has refused. -/
theorem GoodBut.stepSecondary (hw : GoodBut u w) (hu : w.outbox.uploads u = .secondary ch)
    (hp : Refused (w.primary.calls u)) (h : stepSecondary C a u now id w = some w') : Good w' := by
  obtain ⟨b, hb, h⟩ := Option.bind_eq_some_iff.1 h
  obtain ⟨hw, hgoes⟩ := hw.actSecondary hb
  unfold afterSecondary at h
  dsimp only at h
  generalize w.secondary.calls u = before at hgoes
  cases hcall : b.calls u with
  | idle | waiting =>
    rw [hcall] at hgoes
    cases hgoes
  | executing adm =>
    rw [hcall] at h
    obtain rfl := Option.some.inj h
    refine hw.good ?_
    unfold World.LinkedAt
    dsimp only
    rw [hcall, hu]
    exact .atSecondary adm ch hp
  | ended outcome =>
    have hsettle {e : Outbox.Event} (hparty : e.party = .inl u)
        (hq : ∀ q, Moves (.secondary ch) e q →
          Linked (w.primary.calls u) (.ended outcome) q)
        (h : Router.store C { w with secondary := b } e = some w') : Good w' :=
      hw.settle hparty (fun q hmoves => hcall ▸ hq q (hu ▸ hmoves)) h
    rw [hcall] at h
    cases outcome with
    | returned =>
      refine hsettle rfl (fun q hq => ?_) h
      cases hq
      exact .bySecondary ch hp
    | raised =>
      refine hsettle rfl (fun q hq => ?_) h
      cases hq
      exact .degraded hp .raised (.staging ch id)
    | rejected error =>
      refine hsettle rfl (fun q hq => ?_) h
      cases hq
      exact .degraded hp (.rejected error) (.staging ch id)
    | cancelled =>
      refine hsettle rfl (fun q hq => ?_) h
      cases hq
      exact .leftSecondary hp

/-- What `upload_chunk` does behind a call of the primary breaker that was refused. -/
theorem GoodBut.failover (hw : GoodBut u w) (hu : w.outbox.uploads u = .primary ch)
    (hp : Refused (w.primary.calls u))
    (h : (Router.store C w (.primaryRefuses u)).bind (Router.stepSecondary C a u now id) =
      some w') : Good w' := by
  obtain ⟨w₁, hstore, h⟩ := Option.bind_eq_some_iff.1 h
  obtain ⟨hw₁, hprimary, -, hmoves⟩ := hw.store rfl hstore
  have hu₁ : w₁.outbox.uploads u = .secondary ch := by
    rw [hu] at hmoves
    generalize w₁.outbox.uploads u = up at hmoves
    cases hmoves
    rfl
  exact hw₁.stepSecondary hu₁ (hprimary ▸ hp) h

/-- An act of the primary call of an upload. -/
theorem GoodBut.stepPrimary (hw : GoodBut u w) (hu : w.outbox.uploads u = .primary ch)
    (hs : w.secondary.calls u = .idle) (h : stepPrimary C a u now later id w = some w') :
    Good w' := by
  obtain ⟨b, hb, h⟩ := Option.bind_eq_some_iff.1 h
  obtain ⟨hw, hgoes⟩ := hw.actPrimary hb
  unfold afterPrimary at h
  dsimp only at h
  generalize w.primary.calls u = before at hgoes
  cases hcall : b.calls u with
  | idle | waiting =>
    rw [hcall] at hgoes
    cases hgoes
  | executing adm =>
    rw [hcall] at h
    obtain rfl := Option.some.inj h
    refine hw.good ?_
    unfold World.LinkedAt
    dsimp only
    rw [hcall, hu, hs]
    exact .atPrimary adm ch
  | ended outcome =>
    have hsettle {e : Outbox.Event} (hparty : e.party = .inl u)
        (hq : ∀ q, Moves (.primary ch) e q → Linked (.ended outcome) .idle q)
        (h : Router.store C { w with primary := b } e = some w') : Good w' :=
      hw.settle hparty (fun q hmoves => hcall ▸ hs ▸ hq q (hu ▸ hmoves)) h
    cases outcome with
    | returned =>
      rw [hcall] at h
      refine hsettle rfl (fun q hq => ?_) h
      cases hq
      exact .byPrimary ch
    | raised =>
      rw [hcall] at h
      exact hw.failover hu (by dsimp only; rw [hcall]; exact .raised) h
    | rejected error =>
      rw [hcall] at h
      exact hw.failover hu (by dsimp only; rw [hcall]; exact .rejected error) h
    | cancelled =>
      rw [hcall] at h
      refine hsettle rfl (fun q hq => ?_) h
      cases hq
      exact .leftPrimary

/-- Only an executing call goes on. -/
theorem executing_of_goes {b : Breaker.World} {p q : Phase} (h : Goes cfg now b p a q)
    (ha : a ≠ .start) : ∃ adm, p = .executing adm := by
  cases h with
  | rejected | admitted => exact absurd rfl ha
  | succeed adm | fail adm | cancel adm => exact ⟨adm, rfl⟩

theorem exists_goes {b b' : Breaker.World} (hfree : Breaker.Free b) (ha : a ≠ .start)
    (h : Breaker.step cfg b ⟨a, u, now⟩ = some b') : ∃ adm, b.calls u = .executing adm := by
  obtain ⟨p, hgoes, -⟩ := goes_of_step hfree h
  exact executing_of_goes hgoes ha

/-- A step of the outbox that is not up to a call of a breaker. -/
theorem Good.outside (hw : Good w) (houtside : w.outside e = true)
    (h : Router.store C w e = some w') : Good w' := by
  obtain ⟨o, ho, rfl⟩ := Option.map_eq_some_iff.1 h
  refine ⟨hw.primary, hw.secondary, fun v => ?_⟩
  have hlinked := hw.linked v
  unfold World.LinkedAt at hlinked ⊢
  dsimp only
  rcases moves_of_step ho with ⟨u, q, hparty, hmoves, huploads⟩ | ⟨-, huploads⟩
  · rcases eq_or_ne v u with rfl | hv
    · rw [huploads, Function.update_self]
      unfold World.outside at houtside
      rw [hparty] at houtside
      dsimp only at houtside
      generalize w.primary.calls v = p, w.secondary.calls v = s, w.outbox.uploads v = up at *
      cases hlinked with
      | other => exact .other q
      | atPrimary => cases houtside
      | atSecondary _ _ hp => cases hp <;> cases houtside
      | byPrimary | bySecondary | leftPrimary | leftSecondary => cases hmoves
      | degraded hp hq hup => exact .degraded hp hq (hup.moves hmoves)
    · rwa [huploads, Function.update_of_ne hv]
  · rwa [huploads]

/-- **One step** keeps the uploads linked. -/
theorem Good.step {e : Event} (hw : Good w) (h : step C w e = some w') : Good w' := by
  cases e with
  | uploadChunk u ch now later id =>
    unfold Router.step at h
    dsimp only at h
    split_ifs at h
    obtain ⟨w₁, hstore, h⟩ := Option.bind_eq_some_iff.1 h
    obtain ⟨hw₁, -, hsecondary, hmoves⟩ := (hw.but u).store rfl hstore
    have hlinked := hw.linked u
    unfold World.LinkedAt at hlinked
    generalize w.primary.calls u = p, hidle : w.secondary.calls u = s,
      w.outbox.uploads u = up, hu₁ : w₁.outbox.uploads u = up₁ at hlinked hmoves
    cases hmoves
    cases hlinked with
    | other => exact hw₁.stepPrimary hu₁ (hsecondary ▸ hidle) h
    | degraded _ _ hup => cases hup
  | primary a u now later id =>
    unfold Router.step at h
    dsimp only at h
    split_ifs at h with hok
    obtain ⟨b, hb, -⟩ := Option.bind_eq_some_iff.1 h
    obtain ⟨adm, hexec⟩ := exists_goes hw.primary hok.2.2 hb
    have hlinked := hw.linked u
    unfold World.LinkedAt at hlinked
    generalize hup : w.outbox.uploads u = up, hs : w.secondary.calls u = s at hlinked
    rw [hexec] at hlinked
    cases hlinked with
    | atPrimary adm ch => exact (hw.but u).stepPrimary hup hs h
    | atSecondary _ _ hp | bySecondary _ hp | leftSecondary hp | degraded hp => cases hp
  | secondary a u now id =>
    unfold Router.step at h
    dsimp only at h
    split_ifs at h with hok
    obtain ⟨b, hb, -⟩ := Option.bind_eq_some_iff.1 h
    obtain ⟨adm, hexec⟩ := exists_goes hw.secondary hok.2 hb
    have hlinked := hw.linked u
    unfold World.LinkedAt at hlinked
    generalize hp : w.primary.calls u = p, hup : w.outbox.uploads u = up at hlinked
    rw [hexec] at hlinked
    cases hlinked with
    | atSecondary adm ch hrefused => exact (hw.but u).stepSecondary hup (hp ▸ hrefused) h
    | degraded _ hq _ => cases hq
  | store e =>
    unfold Router.step at h
    dsimp only at h
    split_ifs at h with houtside
    exact hw.outside houtside h

/-! ### The components -/

/-- The router is a run of each of its components. -/
structure Refines (C : Config) (w : World) : Prop where
  primary : Reachable (Breaker.step C.primary) .init w.primary
  secondary : Reachable (Breaker.step C.secondary) .init w.secondary
  outbox : Reachable (Outbox.step C.setting) .init w.outbox

theorem Refines.store {e : Outbox.Event} (hw : Refines C w) (h : Router.store C w e = some w') :
    Refines C w' := by
  obtain ⟨o, ho, rfl⟩ := Option.map_eq_some_iff.1 h
  exact ⟨hw.primary, hw.secondary, hw.outbox.tail trivial ho⟩

theorem Refines.stepSecondary (hw : Refines C w) (h : stepSecondary C a u now id w = some w') :
    Refines C w' := by
  obtain ⟨b, hb, h⟩ := Option.bind_eq_some_iff.1 h
  have hw₁ : Refines C { w with secondary := b } :=
    ⟨hw.primary, hw.secondary.tail trivial hb, hw.outbox⟩
  unfold afterSecondary at h
  split at h
  · exact hw₁.store h
  · exact hw₁.store h
  · exact hw₁.store h
  · exact hw₁.store h
  · exact Option.some.inj h ▸ hw₁

theorem Refines.failover (hw : Refines C w)
    (h : (Router.store C w (.primaryRefuses u)).bind (Router.stepSecondary C a u now id) =
      some w') : Refines C w' := by
  obtain ⟨w₁, hstore, h⟩ := Option.bind_eq_some_iff.1 h
  exact (hw.store hstore).stepSecondary h

theorem Refines.stepPrimary (hw : Refines C w) (h : stepPrimary C a u now later id w = some w') :
    Refines C w' := by
  obtain ⟨b, hb, h⟩ := Option.bind_eq_some_iff.1 h
  have hw₁ : Refines C { w with primary := b } :=
    ⟨hw.primary.tail trivial hb, hw.secondary, hw.outbox⟩
  unfold afterPrimary at h
  split at h
  · exact hw₁.store h
  · exact hw₁.failover h
  · exact hw₁.failover h
  · exact hw₁.store h
  · exact Option.some.inj h ▸ hw₁

theorem Refines.step {e : Event} (hw : Refines C w) (h : step C w e = some w') :
    Refines C w' := by
  cases e with
  | uploadChunk u ch now later id =>
    unfold Router.step at h
    dsimp only at h
    split_ifs at h
    obtain ⟨w₁, hstore, h⟩ := Option.bind_eq_some_iff.1 h
    exact (hw.store hstore).stepPrimary h
  | primary a u now later id =>
    unfold Router.step at h
    dsimp only at h
    split_ifs at h
    exact hw.stepPrimary h
  | secondary a u now id =>
    unfold Router.step at h
    dsimp only at h
    split_ifs at h
    exact hw.stepSecondary h
  | store e =>
    unfold Router.step at h
    dsimp only at h
    split_ifs at h
    exact hw.store h

theorem good_of_reachable (h : Reachable (step C) .init w) : Good w :=
  h.invariant good_init fun _ _ _ hw _ hs => hw.step hs

/-- **The router is its components, in cascade.**  Every run of the router is a run of either
breaker and of the outbox, and in every state it reaches each upload stands where the
cascade has it: at a cloud as long as the call of its breaker executes, at the secondary
only after the primary has refused, and in the outbox only after both have. -/
theorem cascades (C : Config) (h : Reachable (step C) .init w) :
    Refines C w ∧ ∀ u, w.LinkedAt u :=
  ⟨h.invariant ⟨.refl, .refl, .refl⟩ fun _ _ _ hw _ hs => hw.step hs,
    (good_of_reachable h).linked⟩

end

/-- Breakers that open at the first failure. -/
def frail : Config where
  primary := { failureThreshold := 1 }
  secondary := { failureThreshold := 1 }
  setting := { utc := id, keyTag := fun _ => "0123456789abcdef" }

def sample : Chunk := ⟨"tenant-1", "chunks/a.bin", [1, 2, 3]⟩

/-- An upload that the primary cloud fails and the secondary cloud takes. -/
def failsOver : List Event :=
  [.uploadChunk 0 sample 1 1 7, .primary .fail 0 2 3 7, .secondary .succeed 0 4 7]

def failedOver : World := (exec (step frail) .init failsOver).getD .init

theorem reachable_failedOver : Reachable (step frail) .init failedOver :=
  have hrun : exec (step frail) .init failsOver = some failedOver := rfl
  reachable_of_exec hrun

theorem cascades_failedOver :
    failedOver.outbox.uploads 0 = .returned sample .secondary ∧
      failedOver.primary.breaker.state = .opened ∧
      Refines frail failedOver ∧ ∀ u, failedOver.LinkedAt u :=
  ⟨by decide, by decide, cascades frail reachable_failedOver⟩

end Router
end Boveda

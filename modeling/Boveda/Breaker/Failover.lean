/-
# Failover

What becomes of an upload of the router in one step, whatever its uploader does and whatever
state the breakers are in: no upload is stuck, and one that a breaker rejects is at the next
store in the same step (`goesOn`).  The uploads that the cascade of `Boveda.Breaker.Router`
puts at a cloud are at the mercy of its uploader alone, and those it puts into the outbox at
that of the disk and the database.
-/

import Boveda.Breaker.Cooldown
import Boveda.Breaker.Router
import Boveda.Outbox.NoLoss

namespace Boveda
namespace Router

open Lib
open Breaker (CircuitBreakerConfig Act Phase)
open Outbox (Chunk ChunkId Upload)

section

variable {C : Config} {w w' : World} {a : Act} {u : ℕ} {now later : ℚ} {ch : Chunk} {id : ChunkId}

/-- Where an upload goes that the primary cloud has refused. -/
def World.failover (C : Config) (w : World) (ch : Chunk) (later : ℚ) (id : ChunkId) : Upload :=
  if rejects C.secondary later w.secondary then .staging ch id else .secondary ch

/-- An act is a step, and takes the upload to a position. -/
def Becomes (C : Config) (w : World) (e : Event) (u : ℕ) (p : Upload) : Prop :=
  ∃ w', step C w e = some w' ∧ w'.outbox.uploads u = p

/-- What becomes of an upload, whatever its uploader does, and in the outbox whatever becomes
of its file and its row. -/
structure GoesOn (C : Config) (w : World) (now later : ℚ) (id : ChunkId) : Prop where
  uploadChunk : ∀ u ch, w.outbox.uploads u = .idle →
    Becomes C w (.uploadChunk u ch now later id) u
      (if rejects C.primary now w.primary then w.failover C ch later id else .primary ch)
  primary : ∀ u ch adm, w.primary.calls u = .executing adm → w.outbox.uploads u = .primary ch →
    Becomes C w (.primary .succeed u now later id) u (.returned ch .primary) ∧
      Becomes C w (.primary .fail u now later id) u (w.failover C ch later id) ∧
      Becomes C w (.primary .cancel u now later id) u .stopped
  secondary : ∀ u ch adm, w.secondary.calls u = .executing adm →
    w.outbox.uploads u = .secondary ch →
    Becomes C w (.secondary .succeed u now id) u (.returned ch .secondary) ∧
      Becomes C w (.secondary .fail u now id) u (.staging ch id) ∧
      Becomes C w (.secondary .cancel u now id) u .stopped
  staging : ∀ u ch drawn, w.outbox.uploads u = .staging ch drawn →
    Becomes C w (.store (.stageFile u)) u (.inserting ch drawn) ∧
      ∀ left, Becomes C w (.store (.abandonFile u left)) u .stopped
  inserting : ∀ u ch drawn, w.outbox.uploads u = .inserting ch drawn → ∀ time,
    Becomes C w (.store (.insertRow u time)) u (.committed ch drawn) ∧
      (∀ committed unlinked,
        Becomes C w (.store (.insertFails u committed unlinked time)) u .stopped) ∧
      Becomes C w (.store (.stopUpload u)) u .stopped
  committed : ∀ u ch drawn, w.outbox.uploads u = .committed ch drawn →
    Becomes C w (.store (.enqueued u)) u (.returned ch (.outbox drawn)) ∧
      Becomes C w (.store (.stopUpload u)) u .stopped

/-- What the outbox does with the events that end a call of a breaker. -/
theorem store_uploadChunk (hu : w.outbox.uploads u = .idle) :
    store C w (.uploadChunk u ch) =
      some { w with outbox := w.outbox.setUpload u (.primary ch) } := by
  simp only [store, Outbox.step, Outbox.Event.party, Outbox.stepUpload, hu]
  rfl

theorem store_primaryRefuses (hu : w.outbox.uploads u = .primary ch) :
    store C w (.primaryRefuses u) =
      some { w with outbox := w.outbox.setUpload u (.secondary ch) } := by
  simp only [store, Outbox.step, Outbox.Event.party, Outbox.stepUpload, hu]
  rfl

theorem exists_secondaryRefuses (hid : id ∉ w.outbox.used)
    (hu : w.outbox.uploads u = .secondary ch) :
    ∃ w', store C w (.secondaryRefuses u id) = some w' ∧ w'.outbox.uploads u = .staging ch id := by
  simp only [store, Outbox.step, Outbox.Event.party, Outbox.stepUpload, hu, Outbox.World.draw,
    if_neg hid]
  exact ⟨_, rfl, Function.update_self ..⟩

theorem exists_uploaderAccepts {dest : Outbox.StorageDestination}
    (hu : (w.outbox.uploads u = .primary ch ∧ dest = .primary) ∨
      (w.outbox.uploads u = .secondary ch ∧ dest = .secondary)) :
    ∃ w', store C w (.uploaderAccepts u) = some w' ∧
      w'.outbox.uploads u = .returned ch dest := by
  rcases hu with ⟨hu, rfl⟩ | ⟨hu, rfl⟩
  · simp only [store, Outbox.step, Outbox.Event.party, Outbox.stepUpload, hu]
    exact ⟨_, rfl, Function.update_self ..⟩
  · simp only [store, Outbox.step, Outbox.Event.party, Outbox.stepUpload, hu]
    exact ⟨_, rfl, Function.update_self ..⟩

theorem exists_stopUpload
    (hu : w.outbox.uploads u = .primary ch ∨ w.outbox.uploads u = .secondary ch) :
    ∃ w', store C w (.stopUpload u) = some w' ∧ w'.outbox.uploads u = .stopped := by
  rcases hu with hu | hu
  · simp only [store, Outbox.step, Outbox.Event.party, Outbox.stepUpload, hu]
    exact ⟨_, rfl, Function.update_self ..⟩
  · simp only [store, Outbox.step, Outbox.Event.party, Outbox.stepUpload, hu]
    exact ⟨_, rfl, Function.update_self ..⟩

/-- The act of a call whose turn it is: the first, or one of the three ends. -/
def Turn (p : Phase) (a : Act) : Prop :=
  (p = .idle ∧ a = .start) ∨ ((∃ adm, p = .executing adm) ∧
    (a = .succeed ∨ a = .fail ∨ a = .cancel))

/-- Where an upload is behind a call of the secondary breaker. -/
def behindSecondary (ch : Chunk) (id : ChunkId) : Phase → Upload
  | .ended .returned => .returned ch .secondary
  | .ended .raised | .ended (.rejected _) => .staging ch id
  | .ended .cancelled => .stopped
  | _ => .secondary ch

theorem exists_afterSecondary (hid : id ∉ w.outbox.used)
    (hu : w.outbox.uploads u = .secondary ch) :
    ∃ w', afterSecondary C u id w = some w' ∧
      w'.outbox.uploads u = behindSecondary ch id (w.secondary.calls u) := by
  unfold afterSecondary behindSecondary
  cases w.secondary.calls u with
  | idle | waiting | executing => exact ⟨w, rfl, hu⟩
  | ended outcome =>
    cases outcome with
    | raised | rejected => exact exists_secondaryRefuses hid hu
    | returned => exact exists_uploaderAccepts (.inr ⟨hu, rfl⟩)
    | cancelled => exact exists_stopUpload (.inr hu)

/-- An act of the secondary call, and where the upload is behind it. -/
theorem exists_stepSecondary (hfree : Breaker.Free w.secondary) (hclock : w.secondary.clock ≤ now)
    (hid : id ∉ w.outbox.used) (hu : w.outbox.uploads u = .secondary ch)
    (hturn : Turn (w.secondary.calls u) a) :
    ∃ w' p, stepSecondary C a u now id w = some w' ∧
      Goes C.secondary now w.secondary (w.secondary.calls u) a p ∧
      w'.outbox.uploads u = behindSecondary ch id p := by
  obtain ⟨b, hb⟩ : ∃ b, Breaker.step C.secondary w.secondary ⟨a, u, now⟩ = some b :=
    isSome_step hclock hturn
  obtain ⟨p, hgoes, hcalls⟩ := goes_of_step hfree hb
  have hcall : b.calls u = p := by rw [hcalls, Function.update_self]
  obtain ⟨w', hafter, hup⟩ : ∃ w', afterSecondary C u id { w with secondary := b } = some w' ∧
      w'.outbox.uploads u = behindSecondary ch id (b.calls u) := exists_afterSecondary hid hu
  refine ⟨w', p, ?_, hgoes, hcall ▸ hup⟩
  rw [stepSecondary, hb, Option.bind_some]
  exact hafter

/-- Behind a call of the primary breaker that was refused. -/
theorem exists_failover (hfree : Breaker.Free w.secondary) (hclock : w.secondary.clock ≤ later)
    (hid : id ∉ w.outbox.used) (hu : w.outbox.uploads u = .primary ch)
    (hidle : w.secondary.calls u = .idle) :
    ∃ w', (store C w (.primaryRefuses u)).bind (stepSecondary C .start u later id) = some w' ∧
      w'.outbox.uploads u = w.failover C ch later id := by
  rw [store_primaryRefuses hu, Option.bind_some]
  obtain ⟨w', p, hstep, hgoes, hup⟩ :=
    exists_stepSecondary (C := C) (w := { w with outbox := w.outbox.setUpload u (.secondary ch) })
      hfree hclock hid (Function.update_self ..) (.inl ⟨hidle, rfl⟩)
  refine ⟨w', hstep, hup.trans ?_⟩
  rw [hidle] at hgoes
  unfold World.failover
  cases hgoes with
  | rejected _ hrejects => exact (if_pos hrejects).symm
  | admitted _ hadmits => exact (if_neg (Bool.not_eq_true _ ▸ hadmits)).symm

/-- Where an upload is behind a call of the primary breaker. -/
def World.behindPrimary (C : Config) (w : World) (ch : Chunk) (later : ℚ) (id : ChunkId) :
    Phase → Upload
  | .ended .returned => .returned ch .primary
  | .ended .raised | .ended (.rejected _) => w.failover C ch later id
  | .ended .cancelled => .stopped
  | _ => .primary ch

/-- An act of the primary call, and where the upload is behind it. -/
theorem exists_stepPrimary (hw : GoodBut u w) (hclock : w.clocked now = true) (hlater : now ≤ later)
    (hid : id ∉ w.outbox.used) (hu : w.outbox.uploads u = .primary ch)
    (hidle : w.secondary.calls u = .idle) (hturn : Turn (w.primary.calls u) a) :
    ∃ w' p, stepPrimary C a u now later id w = some w' ∧
      Goes C.primary now w.primary (w.primary.calls u) a p ∧
      w'.outbox.uploads u = w.behindPrimary C ch later id p := by
  obtain ⟨hclock₁, hclock₂⟩ := of_decide_eq_true hclock
  obtain ⟨b, hb⟩ : ∃ b, Breaker.step C.primary w.primary ⟨a, u, now⟩ = some b :=
    isSome_step hclock₁ hturn
  obtain ⟨p, hgoes, hcalls⟩ := goes_of_step hw.primary hb
  have hcall : b.calls u = p := by rw [hcalls, Function.update_self]
  have hafter : ∃ w', afterPrimary C u later id { w with primary := b } = some w' ∧
      w'.outbox.uploads u = w.behindPrimary C ch later id p := by
    unfold afterPrimary World.behindPrimary
    dsimp only
    rw [hcall]
    cases p with
    | idle | waiting | executing => exact ⟨_, rfl, hu⟩
    | ended outcome =>
      cases outcome with
      | raised | rejected => exact exists_failover hw.secondary (hclock₂.trans hlater) hid hu hidle
      | returned => exact exists_uploaderAccepts (.inl ⟨hu, rfl⟩)
      | cancelled => exact exists_stopUpload (.inl hu)
  obtain ⟨w', hafter, hup⟩ := hafter
  refine ⟨w', p, ?_, hgoes, hup⟩
  rw [stepPrimary, hb, Option.bind_some]
  exact hafter

/-- What becomes of an upload that is at the primary cloud. -/
theorem Good.becomes_primary (hw : Good w) (hclock : w.clocked now = true) (hlater : now ≤ later)
    (hid : id ∉ w.outbox.used) {adm : Breaker.Admission}
    (hexec : w.primary.calls u = .executing adm) (hu : w.outbox.uploads u = .primary ch)
    (ha : a = .succeed ∨ a = .fail ∨ a = .cancel) {up : Upload}
    (hup : ∀ p, Goes C.primary now w.primary (.executing adm) a p →
      w.behindPrimary C ch later id p = up) : Becomes C w (.primary a u now later id) u up := by
  have hidle : w.secondary.calls u = .idle := by
    have hlinked := hw.linked u
    unfold World.LinkedAt at hlinked
    rw [hexec, hu] at hlinked
    generalize w.secondary.calls u = s at hlinked
    cases hlinked with
    | atPrimary => rfl
    | degraded hp => cases hp
  obtain ⟨w', p, hstep, hgoes, hw'⟩ := exists_stepPrimary (C := C) (hw.but u) hclock hlater hid hu
    hidle
    (.inr ⟨⟨adm, hexec⟩, ha⟩)
  rw [hexec] at hgoes
  refine ⟨w', ?_, hw'.trans (hup p hgoes)⟩
  have hstart : a ≠ .start := by rcases ha with rfl | rfl | rfl <;> exact Act.noConfusion
  rw [Router.step, if_pos ⟨hclock, hlater, hstart⟩]
  exact hstep

/-- What becomes of an upload that is at the secondary cloud. -/
theorem Good.becomes_secondary (hw : Good w) (hclock : w.clocked now = true)
    (hid : id ∉ w.outbox.used) {adm : Breaker.Admission}
    (hexec : w.secondary.calls u = .executing adm) (hu : w.outbox.uploads u = .secondary ch)
    (ha : a = .succeed ∨ a = .fail ∨ a = .cancel) {up : Upload}
    (hup : ∀ p, Goes C.secondary now w.secondary (.executing adm) a p →
      behindSecondary ch id p = up) : Becomes C w (.secondary a u now id) u up := by
  obtain ⟨w', p, hstep, hgoes, hw'⟩ := exists_stepSecondary (C := C) hw.secondary
    (of_decide_eq_true hclock).2 hid hu (.inr ⟨⟨adm, hexec⟩, ha⟩)
  rw [hexec] at hgoes
  refine ⟨w', ?_, hw'.trans (hup p hgoes)⟩
  have hstart : a ≠ .start := by rcases ha with rfl | rfl | rfl <;> exact Act.noConfusion
  rw [Router.step, if_pos ⟨hclock, hstart⟩]
  exact hstep

/-- What becomes of a new upload. -/
theorem Good.becomes_uploadChunk (hw : Good w) (hclock : w.clocked now = true)
    (hlater : now ≤ later) (hid : id ∉ w.outbox.used) (hu : w.outbox.uploads u = .idle) :
    Becomes C w (.uploadChunk u ch now later id) u
      (if rejects C.primary now w.primary then w.failover C ch later id else .primary ch) := by
  obtain ⟨hprimary, hsecondary⟩ : w.primary.calls u = .idle ∧ w.secondary.calls u = .idle := by
    have hlinked := hw.linked u
    unfold World.LinkedAt at hlinked
    rw [hu] at hlinked
    generalize w.primary.calls u = p, w.secondary.calls u = s at hlinked
    cases hlinked with
    | other => exact ⟨rfl, rfl⟩
    | degraded _ _ hup => cases hup
  have hstore : store C w (.uploadChunk u ch) =
      some { w with outbox := w.outbox.setUpload u (.primary ch) } := store_uploadChunk hu
  obtain ⟨hw₁, -, -, -⟩ := (hw.but u).store rfl hstore
  obtain ⟨w', p, hstep, hgoes, hw'⟩ := exists_stepPrimary (C := C) hw₁ hclock hlater hid
    (Function.update_self ..) hsecondary (.inl ⟨hprimary, rfl⟩)
  refine ⟨w', ?_, hw'.trans ?_⟩
  · rw [Router.step, if_pos ⟨hclock, hlater⟩, hstore, Option.bind_some]
    exact hstep
  · dsimp only at hgoes
    rw [hprimary] at hgoes
    cases hgoes with
    | rejected _ hrejects => exact (if_pos hrejects).symm
    | admitted _ hadmits => exact (if_neg (Bool.not_eq_true _ ▸ hadmits)).symm

/-- What becomes of an upload in the outbox in a step of its own. -/
theorem becomes_store {e : Outbox.Event} {up : Upload} (hparty : e.party = .inl u)
    (hup : ∀ ch, w.outbox.uploads u ≠ .primary ch ∧ w.outbox.uploads u ≠ .secondary ch)
    (hstep : ∃ o, Outbox.stepUpload C.setting w.outbox u (w.outbox.uploads u) e = some o ∧
      o.uploads u = up) : Becomes C w (.store e) u up := by
  obtain ⟨o, hstep, ho⟩ := hstep
  have houtside : w.outside e = true := by
    unfold World.outside
    rw [hparty]
    dsimp only
    split
    · rfl
    · next h _ => exact absurd h (hup _).1
    · next h _ => exact absurd h (hup _).2
    · rfl
  refine ⟨{ w with outbox := o }, ?_, ho⟩
  simp only [Router.step, houtside, if_true, store, Outbox.step, hparty, hstep, Option.map_some]

/-- The outbox of the router keeps its accounts. -/
theorem accounts_of_reachable (h : Reachable (step C) .init w) :
    Outbox.Base C.setting w.outbox ∧ Outbox.Unwritten w.outbox := by
  refine (cascades C h).1.outbox.invariant
    (I := fun o => Outbox.Base C.setting o ∧ Outbox.Unwritten o)
    ⟨Outbox.base_init _, fun _ _ hnone => by cases hnone⟩ fun o e o' ho _ hs => ?_
  have heffect := Outbox.step_effect hs
  exact ⟨ho.1.step heffect, ho.2.step ho.1 heffect⟩

theorem becomes_staging (h : Reachable (step C) .init w) {drawn : ChunkId}
    (hu : w.outbox.uploads u = .staging ch drawn) :
    Becomes C w (.store (.stageFile u)) u (.inserting ch drawn) ∧
      ∀ left, Becomes C w (.store (.abandonFile u left)) u .stopped := by
  obtain ⟨-, hunwritten⟩ := accounts_of_reachable h
  have hfile : w.outbox.files (C.setting.stagedPath drawn ch.storageKey) = none := by
    by_contra hne
    obtain ⟨content, hcontent⟩ := Option.ne_none_iff_exists'.1 hne
    exact (hunwritten _ content hcontent).2 u ch hu
  refine ⟨becomes_store rfl (by simp [hu]) ?_, fun left => becomes_store rfl (by simp [hu]) ?_⟩
  · simp only [Outbox.stepUpload, hu, if_pos hfile]
    exact ⟨_, rfl, Function.update_self ..⟩
  · simp only [Outbox.stepUpload, hu]
    exact ⟨_, rfl, Function.update_self ..⟩

theorem becomes_inserting (h : Reachable (step C) .init w) {drawn : ChunkId}
    (hu : w.outbox.uploads u = .inserting ch drawn) (time : Outbox.Time) :
    Becomes C w (.store (.insertRow u time)) u (.committed ch drawn) ∧
      (∀ committed unlinked,
        Becomes C w (.store (.insertFails u committed unlinked time)) u .stopped) ∧
      Becomes C w (.store (.stopUpload u)) u .stopped := by
  obtain ⟨hbase, -⟩ := accounts_of_reachable h
  have hrow : w.outbox.rows.find? (C.setting.newRow time drawn ch).id = none :=
    (hbase.draft u ch drawn (by rw [hu]; rfl)).2
  have hinsert : w.outbox.insertRow (C.setting.newRow time drawn ch) =
      some { w.outbox with rows := w.outbox.rows.insert _ hrow } := dif_pos hrow
  have hup : ∀ ch', w.outbox.uploads u ≠ .primary ch' ∧ w.outbox.uploads u ≠ .secondary ch' := by
    simp [hu]
  refine ⟨becomes_store rfl hup ?_, fun committed unlinked => becomes_store rfl hup ?_,
    becomes_store rfl hup ?_⟩
  · simp only [Outbox.stepUpload, hu, hinsert]
    exact ⟨_, rfl, Function.update_self ..⟩
  · cases committed with
    | true =>
      simp only [Outbox.stepUpload, hu, if_true, hinsert]
      exact ⟨_, rfl, Function.update_self ..⟩
    | false =>
      simp only [Outbox.stepUpload, hu, Bool.false_eq_true, if_false]
      exact ⟨_, rfl, Function.update_self ..⟩
  · simp only [Outbox.stepUpload, hu]
    exact ⟨_, rfl, Function.update_self ..⟩

theorem becomes_committed {drawn : ChunkId} (hu : w.outbox.uploads u = .committed ch drawn) :
    Becomes C w (.store (.enqueued u)) u (.returned ch (.outbox drawn)) ∧
      Becomes C w (.store (.stopUpload u)) u .stopped := by
  refine ⟨becomes_store rfl (by simp [hu]) ?_, becomes_store rfl (by simp [hu]) ?_⟩
  · simp only [Outbox.stepUpload, hu]
    exact ⟨_, rfl, Function.update_self ..⟩
  · simp only [Outbox.stepUpload, hu]
    exact ⟨_, rfl, Function.update_self ..⟩

/-- **No upload is stuck.**  In every state that the router reaches, an upload can be made,
and whatever the uploader that holds an upload does (return, raise or be cancelled), the
upload goes on: it returns, or it goes to the next store that takes it, past a cloud whose
breaker rejects it.  In the outbox it goes on to its row and returns, or stops where its file
or its row fails. -/
theorem goesOn (C : Config) (h : Reachable (step C) .init w) (hclock : w.clocked now = true)
    (hlater : now ≤ later) (hid : id ∉ w.outbox.used) : GoesOn C w now later id := by
  have hw := good_of_reachable h
  refine ⟨fun u ch hu => hw.becomes_uploadChunk hclock hlater hid hu,
    fun u ch adm hexec hu => ⟨?_, ?_, ?_⟩, fun u ch adm hexec hu => ⟨?_, ?_, ?_⟩,
    fun u ch drawn hu => becomes_staging h hu,
    fun u ch drawn hu time => becomes_inserting h hu time,
    fun u ch drawn hu => becomes_committed hu⟩
  · exact hw.becomes_primary hclock hlater hid hexec hu (.inl rfl) fun p hp => by cases hp; rfl
  · exact hw.becomes_primary hclock hlater hid hexec hu (.inr (.inl rfl)) fun p hp => by
      cases hp; rfl
  · exact hw.becomes_primary hclock hlater hid hexec hu (.inr (.inr rfl)) fun p hp => by
      cases hp; rfl
  · exact hw.becomes_secondary hclock hid hexec hu (.inl rfl) fun p hp => by cases hp; rfl
  · exact hw.becomes_secondary hclock hid hexec hu (.inr (.inl rfl)) fun p hp => by cases hp; rfl
  · exact hw.becomes_secondary hclock hid hexec hu (.inr (.inr rfl)) fun p hp => by cases hp; rfl

end

/-- The next upload goes to the secondary cloud at once. -/
theorem goesOn_failedOver :
    Becomes frail failedOver (.uploadChunk 1 sample 5 6 8) 1 (.secondary sample) := by
  have hgoesOn : GoesOn frail failedOver 5 6 8 :=
    goesOn frail reachable_failedOver (by decide) (by decide) (by decide)
  have hrejects : rejects frail.primary 5 failedOver.primary = true := by
    have hcooling : (5 : ℚ) <
        failedOver.primary.breaker.openedAt + frail.primary.cooldownSeconds := by
      show (5 : ℚ) < 2 + 60
      norm_num
    obtain ⟨error, hadm⟩ := Breaker.CircuitBreaker.admission_of_opened rfl hcooling
    rw [rejects, hadm]
    rfl
  have hadmits : rejects frail.secondary 6 failedOver.secondary = false := by decide
  have hbecomes := hgoesOn.uploadChunk 1 sample rfl
  rwa [if_pos hrejects, World.failover, hadmits, if_neg Bool.false_ne_true] at hbecomes

end Router
end Boveda

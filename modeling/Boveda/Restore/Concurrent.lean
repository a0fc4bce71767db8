/-
# Backups at the same time

Any number of `backup` commands on one catalog and one bucket at once, each with its own
`streaming_pipeline` (`Boveda.Pipeline.Streaming`) and for each chunk its own
`upload_callback`, step by step (`Boveda.Catalog.Faults`); purges and the transactions of
retention in between; and every call may fail.  A process that dies is one that takes no
further step.

`Inv` is what holds of every interleaving.  Backups do not get in each other's way since no
two blocks have one hash: a payload names its place (`Dedup.place_of_payload`), and SHA-256
is taken not to collide on the payloads that are made.
-/

import Boveda.Catalog.Faults
import Boveda.Pipeline.Dedup
import Boveda.Pipeline.Tasks
import Boveda.Restore.Archive
import Mathlib.Data.Nat.Pairing

namespace Boveda
namespace Concurrent

open Lib Crypto Pipeline Restore
open Catalog (Snapshot SnapshotChunk Call UploadPc Estado Time DbError insertSnapshot setEstado
  storageKeyOf linksOf SameButEstado)
open Faults (call? linkOf)
open Archive (restore download)
open Rotation (masterSalt)

/-! ### The system -/

/-- What a `backup` has drawn and read: its row, the DEK, the nonces, and the output of its
subprocess. -/
structure Job where
  snapshot : Snapshot
  dek : Bytes
  nonceGen : NonceGenerator
  data : Bytes

/-- The libraries, `GEAR_TABLE`, and the backups. -/
structure Plan where
  primitives : Primitives
  gear : UInt8 → ℕ
  job : ℕ → Job

/-- The pipeline of a backup, for a step in which its `upload_callback` raises, or not. -/
def Plan.setting (S : Plan) (b : ℕ) (raises : Bool) : Setting where
  primitives := S.primitives
  gear := S.gear
  dek := (S.job b).dek
  snapshotId := (S.job b).snapshot.id
  raises _ := raises

/-- The `upload_callback` of a block. -/
def Plan.callOf (S : Plan) (b : ℕ) (block : Sealed) : Call where
  snapshotId := (S.job b).snapshot.id
  seq := block.seq
  payload := block.payload
  cHash := block.hash

/-- Where a `backup` stands. -/
inductive Backup
  | notBegun
  | streaming (s : State)
  /-- It has written the `estado` with which its pipeline has ended. -/
  | concluded (s : State)

/-- Its pipeline. -/
def Backup.state? : Backup → Option State
  | .notBegun => none
  | .streaming s | .concluded s => some s

/-- The catalog and the bucket, with the uploads and the purges that are under way, and the
backups.  The `upload_callback` of the `k`-th chunk of backup `b` is upload `Nat.pair b k`. -/
structure World where
  shared : Faults.World
  backups : ℕ → Backup

/-- After `init`. -/
def World.init (passphrase salt : String) : World where
  shared := { Faults.World.init with cat := (Rotation.World.init passphrase salt).cat }
  backups _ := .notBegun

/-- The steps of an `upload_callback`. -/
inductive Stretch
  | prepare (now : Time)
  | put
  | link (now : Time)
  | prepareRaises
  | putRaises (stored : Bool)
  | linkRaises

/-- As steps of upload `i`. -/
def Stretch.event (i : ℕ) (call : Call) : Stretch → Faults.Event
  | .prepare now => .base (.prepare i call now)
  | .put => .base (.put i)
  | .link now => .base (.link i now)
  | .prepareRaises => .prepareRaises i call
  | .putRaises stored => .putRaises i stored
  | .linkRaises => .linkRaises i

/-- The steps of purges, and the transactions on snapshots other than those of `backup`. -/
def isRetention : Faults.Event → Bool
  | .base (.setEstado _ estado) => estado ≠ .completed
  | .base (.purgeSnapshot ..) | .base (.claim ..) | .base (.delete _) | .base (.confirm _)
  | .deleteRaises .. | .revert _ => true
  | _ => false

/-- What may happen next. -/
inductive Event
  | begins (b : ℕ)
  | pipeline (b : ℕ) (e : Pipeline.Event)
  | callback (b k : ℕ) (e : Stretch)
  | concludes (b : ℕ)
  | retention (e : Faults.Event)

/-- What has become of an `upload_callback` that is over: whether it has raised. -/
def verdict : UploadPc → Option Bool
  | .returned _ => some false
  | .raised _ => some true
  | _ => none

/-- A step of the pipeline of a backup: a `do_upload` goes on after its `upload_callback`
when that is over. -/
def pipelineStep (S : Plan) (uploads : ℕ → UploadPc) (b : ℕ) (s : State) :
    Pipeline.Event → Option State
  | .upload k .finished =>
    (verdict (uploads (Nat.pair b k))).bind fun raises =>
      Pipeline.step (S.setting b raises) s (.upload k .finished)
  | e => Pipeline.step (S.setting b false) s e

/-- One step, `none` when it is not the turn of its party. -/
def step (S : Plan) (w : World) : Event → Option World
  | .begins b =>
    match w.backups b with
    | .notBegun =>
      match insertSnapshot { (S.job b).snapshot with estado := .running } w.shared.cat with
      | .error _ => none
      | .ok cat => some {
          shared := { w.shared with cat }
          backups := Function.update w.backups b
            (.streaming (.init (S.job b).data (S.job b).nonceGen)) }
    | _ => none
  | .pipeline b e =>
    match w.backups b with
    | .streaming s => (pipelineStep S w.shared.uploads b s e).map fun s =>
        { w with backups := Function.update w.backups b (.streaming s) }
    | _ => none
  | .callback b k e =>
    -- a thread with a transaction may outlive the pipeline
    ((w.backups b).state?.bind fun s => s.tasks[k]?).bind fun task =>
      if task.status = .calling then
        (Faults.step w.shared (e.event (Nat.pair b k) (S.callOf b task.block))).map fun shared =>
          { w with shared }
      else none
  | .concludes b =>
    match w.backups b with
    | .streaming s =>
      if s.ending.isSome then
        some {
          shared := { w.shared with
            cat := setEstado (S.job b).snapshot.id s.estado w.shared.cat }
          backups := Function.update w.backups b (.concluded s) }
      else none
    | _ => none
  | .retention e =>
    if isRetention e then (Faults.step w.shared e).map fun shared => { w with shared } else none

/-- SHA-256 has not collided on what has been sealed so far. -/
def NoCollision (w : World) : Prop :=
  ∀ b b' s s' task task', (w.backups b).state? = some s → (w.backups b').state? = some s' →
    task ∈ s.tasks → task' ∈ s'.tasks → task.block.hash = task'.block.hash →
      task.block.payload = task'.block.payload

/-- What a step of its pipeline does. -/
theorem pipelineStep_eq {S : Plan} {uploads : ℕ → UploadPc} {b : ℕ} {s s' : State}
    {e : Pipeline.Event} (h : pipelineStep S uploads b s e = some s') :
    ∃ raises, Pipeline.step (S.setting b raises) s e = some s' ∧
      (∀ k, e = .upload k .finished → verdict (uploads (Nat.pair b k)) = some raises) ∧
      (raises = true → ∃ k, e = .upload k .finished) := by
  unfold pipelineStep at h
  split at h
  · next k =>
    obtain ⟨raises, hverdict, h⟩ := Option.bind_eq_some_iff.1 h
    refine ⟨raises, h, fun k' he => ?_, fun _ => ⟨k, rfl⟩⟩
    obtain ⟨rfl, -⟩ := Pipeline.Event.upload.inj he
    exact hverdict
  · next hne => exact ⟨false, h, fun k he => absurd he (hne k), fun he => nomatch he⟩

/-- The backup that an event moves. -/
def Event.backup? : Event → Option ℕ
  | .begins b | .pipeline b _ | .concludes b => some b
  | .callback .. | .retention _ => none

/-- How a backup moves. -/
inductive Moves (S : Plan) (uploads : ℕ → UploadPc) (b : ℕ) : Backup → Backup → Prop
  | begins : Moves S uploads b .notBegun
      (.streaming (.init (S.job b).data (S.job b).nonceGen))
  | pipeline {s s' : State} {e : Pipeline.Event} : pipelineStep S uploads b s e = some s' →
    Moves S uploads b (.streaming s) (.streaming s')
  | concludes {s : State} : Moves S uploads b (.streaming s) (.concluded s)

/-- **What a step does to the backups.** -/
theorem backups_of_step {S : Plan} {w w' : World} {e : Event} (h : step S w e = some w') :
    w'.backups = w.backups ∨ ∃ b backup, e.backup? = some b ∧
      Moves S w.shared.uploads b (w.backups b) backup ∧
        w'.backups = Function.update w.backups b backup := by
  cases e with
  | begins b =>
    dsimp only [step] at h
    split at h
    · next hb =>
      split at h
      · cases h
      · obtain rfl := Option.some.inj h
        exact .inr ⟨b, _, rfl, hb ▸ .begins, rfl⟩
    · cases h
  | pipeline b e =>
    dsimp only [step] at h
    split at h
    · next hb =>
      obtain ⟨s', hstep, rfl⟩ := Option.map_eq_some_iff.1 h
      exact .inr ⟨b, _, rfl, hb ▸ .pipeline hstep, rfl⟩
    · cases h
  | callback b k e =>
    obtain ⟨t, -, h⟩ := Option.bind_eq_some_iff.1 h
    split_ifs at h
    obtain ⟨shared, -, rfl⟩ := Option.map_eq_some_iff.1 h
    exact .inl rfl
  | concludes b =>
    dsimp only [step] at h
    split at h
    · next hb =>
      split_ifs at h
      obtain rfl := Option.some.inj h
      exact .inr ⟨b, _, rfl, hb ▸ .concludes, rfl⟩
    · cases h
  | retention e =>
    dsimp only [step] at h
    split_ifs at h
    obtain ⟨shared, -, rfl⟩ := Option.map_eq_some_iff.1 h
    exact .inl rfl

/-- A backup keeps what it has sealed. -/
theorem Moves.tasks {S : Plan} {uploads : ℕ → UploadPc} {b : ℕ} {backup backup' : Backup}
    (h : Moves S uploads b backup backup') {s : State} {task : UploadTask}
    (hs : backup.state? = some s) (hmem : task ∈ s.tasks) :
    ∃ s', backup'.state? = some s' ∧ ∃ task' ∈ s'.tasks, task'.block = task.block := by
  cases h with
  | begins => cases hs
  | pipeline hstep =>
    obtain rfl := Option.some.inj hs
    obtain ⟨raises, hstep, -⟩ := pipelineStep_eq hstep
    exact ⟨_, rfl, block_of_step hstep hmem⟩
  | concludes => exact ⟨s, hs, task, hmem, rfl⟩

theorem tasks_of_step {S : Plan} {w w' : World} {e : Event} (h : step S w e = some w') {b : ℕ}
    {s : State} {task : UploadTask} (hs : (w.backups b).state? = some s) (hmem : task ∈ s.tasks) :
    ∃ s', (w'.backups b).state? = some s' ∧ ∃ task' ∈ s'.tasks, task'.block = task.block := by
  rcases backups_of_step h with hsame | ⟨b₀, backup, -, hmoves, hbackups⟩
  · exact ⟨s, by rw [hsame, hs], task, hmem, rfl⟩
  · rw [hbackups]
    rcases eq_or_ne b b₀ with rfl | hne
    · rw [Function.update_self]
      exact hmoves.tasks hs hmem
    · rw [Function.update_of_ne hne]
      exact ⟨s, hs, task, hmem, rfl⟩

/-- **A state in which nothing has collided** comes after such states only. -/
theorem noCollision_of_step {S : Plan} {w w' : World} {e : Event} (h : step S w e = some w')
    (hno : NoCollision w') : NoCollision w := by
  intro b b' s s' task task' hs hs' hmem hmem' heq
  obtain ⟨t, ht, u, hu, hblock⟩ := tasks_of_step h hs hmem
  obtain ⟨t', ht', u', hu', hblock'⟩ := tasks_of_step h hs' hmem'
  rw [← hblock, ← hblock'] at heq ⊢
  exact hno b b' t t' u u' ht ht' hu hu' heq

/-! ### What the shared part leaves of a snapshot -/

/-- What a step other than the insertion of a snapshot leaves: no row is new, a row changes in
`estado` only, and as long as it is there it keeps its links. -/
structure Leaves (e : Faults.Event) (c c' : Catalog) : Prop where
  configuracion : c'.configuracion = c.configuracion
  row : ∀ id row', c'.snapshots.find? id = some row' → ∃ row, c.snapshots.find? id = some row ∧
    SameButEstado row row' ∧ (row'.estado = row.estado ∨ e = .base (.setEstado id row'.estado))
  links : ∀ id, (c'.snapshots.find? id).isSome = true →
    ∀ l ∈ c.snapshotChunks.rows, l.snapshotId = id → l ∈ c'.snapshotChunks.rows

/-- A step that does not write to `snapshots`. -/
theorem Leaves.of_eq {e : Faults.Event} {c c' : Catalog}
    (hconf : c'.configuracion = c.configuracion)
    (hsnaps : c'.snapshots = c.snapshots)
    (hlinks : ∀ l ∈ c.snapshotChunks.rows, l ∈ c'.snapshotChunks.rows) : Leaves e c c' where
  configuracion := hconf
  row _ row' hrow := ⟨row', hsnaps ▸ hrow, rfl, .inl rfl⟩
  links _ _ l hl _ := hlinks l hl

/-- A purge writes to `chunk_pool` only. -/
theorem Leaves.of_frame {e : Faults.Event} {c c' : Catalog}
    (h : ∀ {α : Type} {g : Catalog → α}, (∀ c chunkPool, g { c with chunkPool } = g c) →
      g c' = g c) : Leaves e c c' :=
  .of_eq (h fun _ _ => rfl) (h fun _ _ => rfl) fun l hl => by
    have hsame : c'.snapshotChunks = c.snapshotChunks := h fun _ _ => rfl
    rwa [hsame]

theorem leaves_of_step {w w' : Faults.World} {e : Faults.Event} (h : Faults.step w e = some w')
    (he : ∀ s, e ≠ .base (.insertSnapshot s)) : Leaves e w.cat w'.cat := by
  cases e with
  | base e =>
    obtain ⟨b, hb, rfl⟩ := Option.map_eq_some_iff.1 h
    cases e with
    | insertSnapshot s => exact absurd rfl (he s)
    | setEstado id estado =>
      obtain rfl := Option.some.inj hb
      refine ⟨rfl, fun k row' hrow => ?_, fun _ _ l hl _ => hl⟩
      have hrow := (Catalog.find?_setEstado id estado w.cat k).symm.trans hrow
      split_ifs at hrow with hid
      · obtain ⟨row, hfind, rfl⟩ := Option.map_eq_some_iff.1 hrow
        exact ⟨row, hfind, rfl, .inr (by rw [hid])⟩
      · exact ⟨row', hrow, rfl, .inl rfl⟩
    | purgeSnapshot id now =>
      obtain rfl := Option.some.inj hb
      obtain ⟨hconf, hrow⟩ := Catalog.purgeSnapshot_frame now id w.cat
      refine ⟨hconf, fun k row' hk => ⟨row', (hrow k row' hk).1, rfl, .inl rfl⟩,
        fun k hk l hl hid => ?_⟩
      obtain ⟨row', hk⟩ := Option.isSome_iff_exists.1 hk
      have hmem : l ∈ linksOf w.cat k := Catalog.mem_linksOf.2 ⟨hl, hid⟩
      rw [← (hrow k row' hk).2] at hmem
      exact (Catalog.mem_linksOf.1 hmem).1
    | prepare i call now =>
      simp only [Catalog.step] at hb
      split at hb
      · split at hb <;> obtain rfl := Option.some.inj hb
        · exact .of_eq rfl rfl fun _ => id
        · next hp =>
          obtain ⟨-, -, hlinks, hsnaps⟩ := Catalog.dbCheckAndPrepare_ok hp
          exact .of_eq (Catalog.configuracion_dbCheckAndPrepare hp) hsnaps fun l hl => by
            dsimp only
            rwa [hlinks]
      · cases hb
    | put =>
      simp only [Catalog.step] at hb
      split at hb
      · obtain rfl := Option.some.inj hb
        exact .of_eq rfl rfl fun _ => id
      · cases hb
    | link i now =>
      simp only [Catalog.step] at hb
      split at hb
      · split at hb <;> obtain rfl := Option.some.inj hb
        · exact .of_eq rfl rfl fun _ => id
        · next hs =>
          obtain ⟨hsnaps, hconf, hlinks⟩ := Catalog.saveChunkRef_frame hs
          exact .of_eq hconf hsnaps fun l hl => by
            dsimp only
            rw [hlinks]
            exact List.mem_append_left _ hl
      · cases hb
    | claim j n =>
      simp only [Catalog.step] at hb
      split at hb
      · obtain rfl := Option.some.inj hb
        exact .of_frame fun hg => Catalog.purgePhase1_frame hg n w.cat
      · cases hb
    | delete =>
      simp only [Catalog.step] at hb
      split at hb
      · obtain rfl := Option.some.inj hb
        exact .of_eq rfl rfl fun _ => id
      · cases hb
    | confirm j =>
      simp only [Catalog.step] at hb
      split at hb
      · next batch hj =>
        obtain rfl := Option.some.inj hb
        refine .of_frame fun hg => ?_
        dsimp only
        cases hp : Catalog.purgePhase2 (batch.map Prod.fst) w.cat with
        | error e => rfl
        | ok c => exact Catalog.purgePhase2_frame hg hp
      · cases hb
  | prepareRaises | putRaises | linkRaises | deleteRaises =>
    simp only [Faults.step] at h
    split at h
    · obtain rfl := Option.some.inj h
      exact .of_eq rfl rfl fun _ => id
    · cases h
  | revert =>
    simp only [Faults.step] at h
    split at h
    · cases h
    · obtain rfl := Option.some.inj h
      exact .of_frame fun hg => Catalog.purgeRevert_frame hg _ _

/-! ### The invariant -/

/-- Where an `upload_callback` can stand, given what its `do_upload` makes of it. -/
def Agrees (S : Plan) (b : ℕ) : Option UploadTask → UploadPc → Prop
  | none, pc => pc = .idle
  | some task, pc =>
    match task.status with
    | .created | .skipped => pc = .idle
    | .calling => ∀ call, call? pc = some call → call = S.callOf b task.block
    | .returned => pc = .returned (S.callOf b task.block)
    | .raised => pc = .raised (S.callOf b task.block)

/-- The run of a pipeline: with no `upload_callback` that has raised, it is one by itself. -/
def Ran (S : Plan) (b : ℕ) (s : State) : Prop :=
  (∃ task ∈ s.tasks, task.status = .raised) ∨
    Runs (S.setting b false) (S.job b).data (S.job b).nonceGen s

/-- What the catalog says of the snapshot of a backup. -/
structure Recorded (S : Plan) (b : ℕ) (backup : Backup) (row : Snapshot) : Prop where
  same : SameButEstado (S.job b).snapshot row
  begun : backup ≠ .notBegun
  completed : row.estado = .completed → ∃ s, backup = .concluded s ∧ s.estado = .completed

/-- **What holds of backups side by side.** -/
structure Inv (S : Plan) (salt : String) (shared : Faults.World) (backups : ℕ → Backup) :
    Prop where
  ok : shared.Ok
  salt : masterSalt shared.cat = some salt
  numbered : ∀ b s, (backups b).state? = some s →
    Numbered S.primitives (S.job b).dek (S.job b).snapshot.id s
  ran : ∀ b s, (backups b).state? = some s → Ran S b s
  agrees : ∀ b k, Agrees S b ((backups b).state?.bind fun s => s.tasks[k]?)
    (shared.uploads (Nat.pair b k))
  recorded : ∀ b row, shared.cat.snapshots.find? (S.job b).snapshot.id = some row →
    Recorded S b (backups b) row
  links : ∀ b k call, shared.uploads (Nat.pair b k) = .returned call →
    (shared.cat.snapshots.find? (S.job b).snapshot.id).isSome = true →
      linkOf call ∈ shared.cat.snapshotChunks.rows

variable {S : Plan} {salt : String} {shared shared' : Faults.World} {backups : ℕ → Backup}

theorem inv_init (S : Plan) (passphrase salt : String) :
    Inv S salt (World.init passphrase salt).shared fun _ => .notBegun where
  ok := Faults.inv_init.catalog (.frame Catalog.RefCountInv.empty rfl rfl)
  salt := rfl
  numbered _ _ h := nomatch h
  ran _ _ h := nomatch h
  agrees _ _ := rfl
  recorded _ _ h := nomatch h
  links _ _ _ h := nomatch h

/-! ### The steps of a backup -/

theorem sameButEstado_trans {a b c : Snapshot} (h : SameButEstado a b) (h' : SameButEstado b c) :
    SameButEstado a c := by
  unfold SameButEstado at h h' ⊢
  rw [← h, ← h']

theorem masterSalt_congr {c c' : Catalog} (h : c'.configuracion = c.configuracion) :
    masterSalt c' = masterSalt c := by
  rw [masterSalt, masterSalt, h]

/-- The state of the backup that has moved, and of the others. -/
theorem state_update {b b' : ℕ} {backup : Backup} {s : State}
    (h : (Function.update backups b backup b').state? = some s) :
    b' = b ∧ backup.state? = some s ∨ b' ≠ b ∧ (backups b').state? = some s := by
  rcases eq_or_ne b' b with rfl | hne
  · rw [Function.update_self] at h
    exact .inl ⟨rfl, h⟩
  · rw [Function.update_of_ne hne] at h
    exact .inr ⟨hne, h⟩

/-- **A backup begins**: its row is `RUNNING`, and it has uploaded nothing. -/
theorem Inv.begins (hids : Function.Injective fun b => (S.job b).snapshot.id) {b : ℕ}
    (hw : Inv S salt shared backups) (hb : backups b = .notBegun) {cat : Catalog}
    (hins : insertSnapshot { (S.job b).snapshot with estado := .running } shared.cat = .ok cat) :
    Inv S salt { shared with cat } (Function.update backups b
      (.streaming (.init (S.job b).data (S.job b).nonceGen))) := by
  obtain ⟨-, hfind, hpool, hlinks⟩ := Catalog.insertSnapshot_ok hins
  have hconf : cat.configuracion = shared.cat.configuracion := by
    unfold insertSnapshot at hins
    split_ifs at hins
    rw [← Except.ok.inj hins]
  -- the other snapshots have the rows that they had
  have hother : ∀ b', b' ≠ b → cat.snapshots.find? (S.job b').snapshot.id =
      shared.cat.snapshots.find? (S.job b').snapshot.id := fun b' hne =>
    (hfind _).trans (if_neg fun he => hne (hids he).symm)
  refine ⟨Faults.Inv.catalog hw.ok (.frame hw.ok.coherent hpool hlinks),
    (masterSalt_congr hconf).trans hw.salt, fun b' s hs => ?_, fun b' s hs => ?_, fun b' k => ?_,
    fun b' row hrow => ?_, fun b' k call hk hrow => ?_⟩
  · rcases state_update hs with ⟨rfl, hs⟩ | ⟨-, hs⟩
    · obtain rfl := Option.some.inj hs
      exact numbered_init ..
    · exact hw.numbered b' s hs
  · rcases state_update hs with ⟨rfl, hs⟩ | ⟨-, hs⟩
    · obtain rfl := Option.some.inj hs
      exact .inr .refl
    · exact hw.ran b' s hs
  · have hagrees := hw.agrees b' k
    rcases eq_or_ne b' b with rfl | hne
    · rw [hb] at hagrees
      rw [Function.update_self]
      exact hagrees
    · rw [Function.update_of_ne hne]
      exact hagrees
  · rcases eq_or_ne b' b with rfl | hne
    · obtain rfl := Option.some.inj (((hfind _).trans (if_pos rfl)).symm.trans hrow)
      rw [Function.update_self]
      exact ⟨rfl, Backup.noConfusion, fun he => by cases he⟩
    · rw [Function.update_of_ne hne]
      exact hw.recorded b' row ((hother b' hne).symm.trans hrow)
  · rcases eq_or_ne b' b with rfl | hne
    · have hagrees := hw.agrees b' k
      rw [hb] at hagrees
      cases hagrees.symm.trans hk
    · show _ ∈ cat.snapshotChunks.rows
      rw [hlinks]
      exact hw.links b' k call hk (by rw [← hother b' hne]; exact hrow)

/-- **The pipeline of a backup** runs as it would alone, until an `upload_callback` raises. -/
theorem Ran.step {uploads : ℕ → UploadPc} {b : ℕ} {s s' : State} {e : Pipeline.Event}
    (hs : Ran S b s) (h : pipelineStep S uploads b s e = some s') : Ran S b s' := by
  obtain ⟨raises, hstep, -, hfinished⟩ := pipelineStep_eq h
  rcases hs with hraised | hrun
  · exact .inl (raised_of_step hstep hraised)
  · cases raises with
    | false => exact .inr (hrun.tail trivial hstep)
    | true =>
      obtain ⟨k, rfl⟩ := hfinished rfl
      unfold Pipeline.step at hstep
      split_ifs at hstep
      obtain ⟨task, hk, hstep⟩ := Option.bind_eq_some_iff.1 hstep
      dsimp only [doUpload] at hstep
      split_ifs at hstep with hcalling hraises
      · cases hstep
        exact .inl ⟨_, List.mem_set (List.getElem?_eq_some_iff.1 hk).1 _, rfl⟩
      · exact absurd rfl hraises

/-- What a `do_upload` makes of its call, after a step of the pipeline. -/
theorem Agrees.step {b k : ℕ} {raises : Bool} {e : Pipeline.Event} {pc : UploadPc}
    {task task' : Option UploadTask} (h : TaskStep (S.setting b raises) e k task task')
    (hverdict : e = .upload k .finished → verdict pc = some raises) (hpc : Agrees S b task pc) :
    Agrees S b task' pc := by
  cases h with
  | absent => exact hpc
  | created => exact hpc
  | kept hblock hstatus =>
    simp only [Agrees] at hpc ⊢
    rwa [hstatus, hblock]
  | calling hcreated =>
    simp only [Agrees] at hpc
    rw [hcreated] at hpc
    obtain rfl : pc = .idle := hpc
    exact fun call hcall => nomatch hcall
  | skipped hcreated =>
    simp only [Agrees] at hpc
    rw [hcreated] at hpc
    exact hpc
  | @returned task he hcalling hraises =>
    simp only [Agrees] at hpc
    rw [hcalling] at hpc
    have hraises : raises = false := hraises
    have hverdict := hverdict he
    rw [hraises] at hverdict
    cases pc with
    | returned call => exact congrArg UploadPc.returned (hpc call rfl)
    | _ => cases hverdict
  | @raised task he hcalling hraises =>
    simp only [Agrees] at hpc
    rw [hcalling] at hpc
    have hraises : raises = true := hraises
    have hverdict := hverdict he
    rw [hraises] at hverdict
    cases pc with
    | raised call => exact congrArg UploadPc.raised (hpc call rfl)
    | _ => cases hverdict

/-- **Its pipeline goes on.** -/
theorem Inv.pipeline {b : ℕ} {s s' : State} {e : Pipeline.Event}
    (hw : Inv S salt shared backups) (hb : backups b = .streaming s)
    (h : pipelineStep S shared.uploads b s e = some s') :
    Inv S salt shared (Function.update backups b (.streaming s')) := by
  have hs : (backups b).state? = some s := by rw [hb]; rfl
  obtain ⟨raises, hstep, hverdict, -⟩ := pipelineStep_eq h
  refine ⟨hw.ok, hw.salt, fun b' t ht => ?_, fun b' t ht => ?_, fun b' k => ?_,
    fun b' row hrow => ?_, hw.links⟩
  · rcases state_update ht with ⟨rfl, hnew⟩ | ⟨-, ht⟩
    · obtain rfl := Option.some.inj hnew
      exact Numbered.step (S := S.setting b' raises) (hw.numbered b' s hs) hstep
    · exact hw.numbered b' t ht
  · rcases state_update ht with ⟨rfl, hnew⟩ | ⟨-, ht⟩
    · obtain rfl := Option.some.inj hnew
      exact (hw.ran b' s hs).step h
    · exact hw.ran b' t ht
  · have hagrees := hw.agrees b' k
    rcases eq_or_ne b' b with rfl | hne
    · rw [hs] at hagrees
      rw [Function.update_self]
      exact hagrees.step (taskStep_of_step hstep k) (hverdict k)
    · rw [Function.update_of_ne hne]
      exact hagrees
  · have hrecorded := hw.recorded b' row hrow
    rcases eq_or_ne b' b with rfl | hne
    · rw [Function.update_self]
      refine ⟨hrecorded.same, Backup.noConfusion, fun he => ?_⟩
      -- its row is not `COMPLETED` before its pipeline is over
      obtain ⟨t, ht, -⟩ := hrecorded.completed he
      cases hb.symm.trans ht
    · rw [Function.update_of_ne hne]
      exact hrecorded

/-- **A backup concludes**: it writes the `estado` with which its pipeline has ended. -/
theorem Inv.concludes (hids : Function.Injective fun b => (S.job b).snapshot.id) {b : ℕ}
    {s : State} (hw : Inv S salt shared backups) (hb : backups b = .streaming s) :
    Inv S salt { shared with cat := setEstado (S.job b).snapshot.id s.estado shared.cat }
      (Function.update backups b (.concluded s)) := by
  have hstate : ∀ b', (Function.update backups b (.concluded s) b').state? =
      (backups b').state? := by
    intro b'
    rcases eq_or_ne b' b with rfl | hne
    · rw [Function.update_self, hb]
      rfl
    · rw [Function.update_of_ne hne]
  refine ⟨Faults.Inv.catalog hw.ok (.frame hw.ok.coherent rfl rfl), hw.salt,
    fun b' t ht => hw.numbered b' t ((hstate b').symm.trans ht),
    fun b' t ht => hw.ran b' t ((hstate b').symm.trans ht),
    fun b' k => by rw [hstate]; exact hw.agrees b' k, fun b' row hrow => ?_,
    fun b' k call hk hrow => hw.links b' k call hk ?_⟩
  · have hrow := (Catalog.find?_setEstado _ s.estado shared.cat _).symm.trans hrow
    split_ifs at hrow with hid
    · obtain rfl := hids hid
      obtain ⟨row, hfind, rfl⟩ := Option.map_eq_some_iff.1 hrow
      rw [Function.update_self]
      exact ⟨(hw.recorded b row hfind).same, Backup.noConfusion, fun he => ⟨s, rfl, he⟩⟩
    · have hne : b' ≠ b := fun he => hid (by rw [he])
      rw [Function.update_of_ne hne]
      exact hw.recorded b' row hrow
  · have hrow : ((setEstado (S.job b).snapshot.id s.estado shared.cat).snapshots.find?
        (S.job b').snapshot.id).isSome = true := hrow
    rw [Catalog.find?_setEstado] at hrow
    split_ifs at hrow with hid
    · rwa [Option.isSome_map] at hrow
    · exact hrow

/-! ### The steps of the shared part -/

/-- Where a call comes from. -/
theorem Agrees.call {b : ℕ} {task : Option UploadTask} {pc : UploadPc} {call : Call}
    (h : Agrees S b task pc) (hcall : call? pc = some call) :
    ∃ t, task = some t ∧ call = S.callOf b t.block := by
  cases task with
  | none =>
    obtain rfl : pc = .idle := h
    cases hcall
  | some task =>
    refine ⟨task, rfl, ?_⟩
    simp only [Agrees] at h
    cases hstatus : task.status with
    | created | skipped =>
      rw [hstatus] at h
      obtain rfl : pc = .idle := h
      cases hcall
    | calling =>
      rw [hstatus] at h
      exact h call hcall
    | returned =>
      rw [hstatus] at h
      obtain rfl : pc = .returned (S.callOf b task.block) := h
      exact (Option.some.inj hcall).symm
    | raised =>
      rw [hstatus] at h
      obtain rfl : pc = .raised (S.callOf b task.block) := h
      exact (Option.some.inj hcall).symm

/-- The task of a call. -/
theorem Inv.call (hw : Inv S salt shared backups) {b k : ℕ} {call : Call}
    (hcall : call? (shared.uploads (Nat.pair b k)) = some call) :
    ∃ s task, (backups b).state? = some s ∧ s.tasks[k]? = some task ∧
      call = S.callOf b task.block := by
  obtain ⟨task, htask, rfl⟩ := (hw.agrees b k).call hcall
  obtain ⟨s, hs, htask⟩ := Option.bind_eq_some_iff.1 htask
  exact ⟨s, task, hs, htask, rfl⟩

/-- **A step of an upload or of retention**, as far as the backups see it. -/
theorem Inv.goes (hw : Inv S salt shared backups) {e : Faults.Event}
    (h : Faults.step shared e = some shared') (hdistinct : Faults.Distinct shared e)
    (hins : ∀ s, e ≠ .base (.insertSnapshot s))
    (hset : ∀ id, e ≠ .base (.setEstado id .completed))
    (hagrees : ∀ b k, Agrees S b ((backups b).state?.bind fun s => s.tasks[k]?)
      (shared'.uploads (Nat.pair b k))) : Inv S salt shared' backups := by
  have hleaves := leaves_of_step h hins
  refine ⟨hw.ok.step hdistinct h, (masterSalt_congr hleaves.configuracion).trans hw.salt,
    hw.numbered, hw.ran, hagrees, fun b row' hrow' => ?_, fun b k call hk hrow' => ?_⟩
  · obtain ⟨row, hrow, hsame, hestado⟩ := hleaves.row _ row' hrow'
    obtain ⟨hjob, hbegun, hcompleted⟩ := hw.recorded b row hrow
    refine ⟨sameButEstado_trans hjob hsame, hbegun, fun he => ?_⟩
    rcases hestado with hestado | rfl
    · exact hcompleted (hestado.symm.trans he)
    · exact absurd (congrArg (fun estado => Faults.Event.base (.setEstado _ estado)) he) (hset _)
  · rcases Faults.link_of_returned h hk with hold | hnew
    · obtain ⟨row', hrow'⟩ := Option.isSome_iff_exists.1 hrow'
      obtain ⟨row, hrow, -⟩ := hleaves.row _ row' hrow'
      obtain ⟨s, task, -, -, rfl⟩ := hw.call (by rw [hold]; rfl)
      exact hleaves.links _ (Option.isSome_iff_exists.2 ⟨row', hrow'⟩) _
        (hw.links b k _ hold (Option.isSome_iff_exists.2 ⟨row, hrow⟩)) rfl
    · exact hnew

/-- **Each upload has a hash of its own**: a payload names its backup and its number. -/
theorem Inv.distinct (hA : S.primitives.aead.Correct) (hAad : S.primitives.aead.RejectsOtherAad)
    (hids : Function.Injective fun b => (S.job b).snapshot.id)
    (hw : Inv S salt shared backups) (hno : NoCollision ⟨shared, backups⟩) {b k : ℕ} {s : State}
    {task : UploadTask} (hs : (backups b).state? = some s) (hk : s.tasks[k]? = some task)
    (hidle : shared.uploads (Nat.pair b k) = .idle) :
    Faults.Unused shared.uploads task.block.hash := by
  intro i call hi heq
  rw [← Nat.pair_unpair i] at hi
  obtain ⟨s', task', hs', hk', rfl⟩ := hw.call hi
  have hpayload := hno _ _ _ _ _ _ hs' hs (List.mem_of_getElem? hk') (List.mem_of_getElem? hk) heq
  obtain ⟨chunk, hseals⟩ := (hw.numbered _ _ hs).tasks k task hk
  obtain ⟨chunk', hseals'⟩ := (hw.numbered _ _ hs').tasks _ task' hk'
  obtain ⟨hid, hnumber⟩ := Dedup.place_of_payload hA hAad hseals' hseals hpayload
  rw [hids hid, hnumber, hidle] at hi
  cases hi

theorem upload?_event (e : Stretch) (i : ℕ) (call : Call) : (e.event i call).upload? = some i := by
  cases e <;> rfl

theorem begins_event {e : Stretch} {i i' : ℕ} {call call' : Call}
    (h : (e.event i call).begins = some (i', call')) : i' = i ∧ call' = call := by
  cases e with
  | prepare | prepareRaises =>
    obtain ⟨rfl, rfl⟩ := Prod.mk.inj (Option.some.inj h)
    exact ⟨rfl, rfl⟩
  | _ => cases h

/-- **An `upload_callback` goes on.** -/
theorem Inv.callback (hA : S.primitives.aead.Correct) (hAad : S.primitives.aead.RejectsOtherAad)
    (hids : Function.Injective fun b => (S.job b).snapshot.id)
    (hw : Inv S salt shared backups) (hno : NoCollision ⟨shared, backups⟩) {b k : ℕ} {s : State}
    {task : UploadTask} (hs : (backups b).state? = some s) (hk : s.tasks[k]? = some task)
    (hcalling : task.status = .calling) {e : Stretch}
    (h : Faults.step shared (e.event (Nat.pair b k) (S.callOf b task.block)) = some shared') :
    Inv S salt shared' backups := by
  refine hw.goes h (fun i call hbegins => ?_) (fun s he => ?_) (fun id he => ?_) fun b' k' => ?_
  · have hidle := Faults.idle_of_step h hbegins
    obtain ⟨rfl, rfl⟩ := begins_event hbegins
    exact hw.distinct hA hAad hids hno hs hk hidle
  · cases (upload?_event e _ _).symm.trans (congrArg Faults.Event.upload? he)
  · cases (upload?_event e _ _).symm.trans (congrArg Faults.Event.upload? he)
  · have hagrees := hw.agrees b' k'
    by_cases hplace : b' = b ∧ k' = k
    · obtain ⟨rfl, rfl⟩ := hplace
      rw [hs, Option.bind_some, hk] at hagrees ⊢
      simp only [Agrees, hcalling] at hagrees ⊢
      intro call hcall
      rcases Faults.call_of_step h hcall with hold | ⟨hbegins, -⟩
      · exact hagrees call hold
      · exact (begins_event hbegins).2
    · rw [Faults.uploads_of_step h]
      · exact hagrees
      · rw [upload?_event]
        intro he
        obtain ⟨rfl, rfl⟩ := Nat.pair_eq_pair.1 (Option.some.inj he)
        exact hplace ⟨rfl, rfl⟩

theorem upload?_of_isRetention {e : Faults.Event} (he : isRetention e = true) :
    e.upload? = none ∧ e.begins = none := by
  cases e with
  | base e => cases e <;> first | exact ⟨rfl, rfl⟩ | cases he
  | deleteRaises | revert => exact ⟨rfl, rfl⟩
  | prepareRaises | putRaises | linkRaises => cases he

/-- **A step of retention** is no step of an upload. -/
theorem Inv.retention (hw : Inv S salt shared backups) {e : Faults.Event}
    (he : isRetention e = true) (h : Faults.step shared e = some shared') :
    Inv S salt shared' backups := by
  obtain ⟨hupload, hbegins⟩ := upload?_of_isRetention he
  refine hw.goes h (fun i call hb => nomatch hbegins.symm.trans hb) (fun s hs => ?_)
    (fun id hs => ?_) fun b k => ?_
  · subst hs
    cases he
  · subst hs
    cases he
  · rw [Faults.uploads_of_step h (by rw [hupload]; exact nofun)]
    exact hw.agrees b k

/-- **One step.** -/
theorem Inv.step (hA : S.primitives.aead.Correct) (hAad : S.primitives.aead.RejectsOtherAad)
    (hids : Function.Injective fun b => (S.job b).snapshot.id) {w w' : World} {e : Event}
    (hw : Inv S salt w.shared w.backups) (hno : NoCollision w)
    (h : step S w e = some w') : Inv S salt w'.shared w'.backups := by
  cases e with
  | begins b =>
    dsimp only [Concurrent.step] at h
    split at h
    · next hb =>
      split at h
      · cases h
      · next hins =>
        obtain rfl := Option.some.inj h
        exact hw.begins hids hb hins
    · cases h
  | pipeline b e =>
    dsimp only [Concurrent.step] at h
    split at h
    · next hb =>
      obtain ⟨s', hs', rfl⟩ := Option.map_eq_some_iff.1 h
      exact hw.pipeline hb hs'
    · cases h
  | callback b k e =>
    dsimp only [Concurrent.step] at h
    obtain ⟨task, htask, h⟩ := Option.bind_eq_some_iff.1 h
    obtain ⟨s, hs, hk⟩ := Option.bind_eq_some_iff.1 htask
    split_ifs at h with hcalling
    obtain ⟨shared, hshared, rfl⟩ := Option.map_eq_some_iff.1 h
    exact hw.callback hA hAad hids hno hs hk hcalling hshared
  | concludes b =>
    dsimp only [Concurrent.step] at h
    split at h
    · next hb =>
      split_ifs at h
      obtain rfl := Option.some.inj h
      exact hw.concludes hids hb
    · cases h
  | retention e =>
    dsimp only [Concurrent.step] at h
    split_ifs at h with he
    obtain ⟨shared, hshared, rfl⟩ := Option.map_eq_some_iff.1 h
    exact hw.retention he hshared

end Concurrent
end Boveda

/-
# Backups side by side

What the interleavings of `Boveda.Restore.Concurrent` come to
(`restores_of_completed`): a snapshot whose row says COMPLETED, and of which no
`upload_callback` has raised, is restored to exactly what its own subprocess has put out.

The pipeline of the backup has then run as it would alone, so that its blocks are the chunks
of the output.  Each has its link and its object, and no link of the snapshot is from elsewhere.
-/

import Boveda.Restore.Concurrent

namespace Boveda
namespace Concurrent

open Lib Crypto Pipeline Restore
open Catalog (Snapshot SnapshotChunk storageKeyOf linksOf)
open Faults (call? linkOf)
open Archive (restore download)

variable {S : Plan} {salt : String} {shared : Faults.World} {backups : ℕ → Backup}

/-! ### A backup that is completed -/

/-- What a backup that has concluded `COMPLETED` leaves behind. -/
structure Uploaded (S : Plan) (shared : Faults.World) (b : ℕ) (uploaded : List Sealed) :
    Prop where
  sealed : sealAll S.primitives (S.job b).dek (S.job b).snapshot.id 0 (S.job b).nonceGen
    (chunksOf S.gear (S.job b).data) = some uploaded
  returned : ∀ block ∈ uploaded, ∃ k, shared.uploads (Nat.pair b k) = .returned (S.callOf b block)
  called : ∀ k call, shared.uploads (Nat.pair b k) = .returned call →
    ∃ block ∈ uploaded, call = S.callOf b block

/-- When no `upload_callback` has raised, its pipeline has run as it would alone. -/
theorem Inv.uploaded (hw : Inv S salt shared backups) {b : ℕ} {s : State}
    (hb : backups b = .concluded s) (hestado : s.estado = .completed)
    (hraised : ∀ k call, shared.uploads (Nat.pair b k) ≠ .raised call) :
    Uploaded S shared b s.uploaded := by
  have hs : (backups b).state? = some s := by rw [hb]; rfl
  have hagrees : ∀ k task, s.tasks[k]? = some task →
      Agrees S b (some task) (shared.uploads (Nat.pair b k)) := by
    intro k task hk
    have h := hw.agrees b k
    rwa [hs, Option.bind_some, hk] at h
  have hrun : Runs (S.setting b false) (S.job b).data (S.job b).nonceGen s := by
    refine (hw.ran b s hs).resolve_left ?_
    rintro ⟨task, hmem, hstatus⟩
    obtain ⟨k, hk⟩ := List.mem_iff_getElem?.1 hmem
    have h := hagrees k task hk
    simp only [Agrees, hstatus] at h
    exact hraised k _ h
  have hreturned := returned_of_completed hrun hestado fun _ _ => rfl
  refine ⟨(uploaded_of_completed hrun hestado fun _ _ => rfl).2, fun block hmem => ?_,
    fun k call hk => ?_⟩
  · obtain ⟨task, htask, rfl⟩ := List.mem_map.1 hmem
    obtain ⟨k, hk⟩ := List.mem_iff_getElem?.1 (List.mem_filter.1 htask).1
    have h := hagrees k task hk
    simp only [Agrees, hreturned task (List.mem_of_getElem? hk)] at h
    exact ⟨k, h⟩
  · obtain ⟨s', task, hs', hk', rfl⟩ := hw.call (by rw [hk]; rfl)
    obtain rfl := Option.some.inj (hs.symm.trans hs')
    have hmem := List.mem_of_getElem? hk'
    exact ⟨task.block,
      List.mem_map_of_mem (List.mem_filter.2 ⟨hmem, by simp [hreturned task hmem]⟩), rfl⟩

/-- **The links of a backup** are those of its blocks, in some order. -/
theorem Inv.bloquesOf_perm (hids : Function.Injective fun b => (S.job b).snapshot.id)
    (hw : Inv S salt shared backups) {b : ℕ} {uploaded : List Sealed}
    (hup : Uploaded S shared b uploaded)
    (hrow : (shared.cat.snapshots.find? (S.job b).snapshot.id).isSome = true) :
    (bloquesOf shared.cat (S.job b).snapshot.id).Perm (uploaded.map bloqueOf) := by
  have hok : Faults.Inv shared.cat shared.s3 shared.uploads shared.purges := hw.ok
  -- the link of a block, and the row that is read for a link
  let link (block : Sealed) : SnapshotChunk := linkOf (S.callOf b block)
  have hmem : ∀ l, l ∈ linksOf shared.cat (S.job b).snapshot.id ↔ l ∈ uploaded.map link := by
    intro l
    rw [Catalog.mem_linksOf, List.mem_map]
    constructor
    · rintro ⟨hl, hid⟩
      obtain ⟨i, call, hi, rfl⟩ := hok.linked l hl
      rw [← Nat.pair_unpair i] at hi
      obtain ⟨s, task, -, -, hcall⟩ := hw.call (by rw [hi]; rfl)
      have hsnapshot : (S.job (Nat.unpair i).1).snapshot.id = (S.job b).snapshot.id := by
        rw [← hid, hcall]
        rfl
      have hbackup : (Nat.unpair i).1 = b := hids hsnapshot
      rw [hbackup] at hi
      obtain ⟨block, hblock, rfl⟩ := hup.called _ _ hi
      exact ⟨block, hblock, rfl⟩
    · rintro ⟨block, hblock, rfl⟩
      obtain ⟨k, hk⟩ := hup.returned block hblock
      exact ⟨hw.links b k _ hk hrow, rfl⟩
  have hseq : (uploaded.map Sealed.seq).Nodup := by
    rw [map_seq_sealAll hup.sealed]
    exact List.nodup_range'
  have hlinks : (linksOf shared.cat (S.job b).snapshot.id).Perm (uploaded.map link) := by
    refine (List.perm_ext_iff_of_nodup ?_ ?_).2 hmem
    · exact (Catalog.nodup_filter_pk shared.cat _).of_map _
    · refine List.Nodup.of_map (fun l => l.chunkSeq.toNat) ?_
      have hcomp : (fun l : SnapshotChunk => l.chunkSeq.toNat) ∘ link = Sealed.seq := rfl
      rwa [List.map_map, hcomp]
  rw [Archive.bloquesOf_eq hok.coherent hok.keys]
  refine (hlinks.map _).trans (.of_eq ?_)
  rw [List.map_map]
  rfl

/-- The object of a block is its payload. -/
theorem Inv.download (hw : Inv S salt shared backups) {b : ℕ} {uploaded : List Sealed}
    (hup : Uploaded S shared b uploaded)
    (hrow : (shared.cat.snapshots.find? (S.job b).snapshot.id).isSome = true) {block : Sealed}
    (hblock : block ∈ uploaded) :
    download shared.s3 (storageKeyOf block.hash) = .ok block.payload := by
  have hok : Faults.Inv shared.cat shared.s3 shared.uploads shared.purges := hw.ok
  obtain ⟨k, hk⟩ := hup.returned block hblock
  have hlink := hw.links b k _ hk hrow
  have hobject : shared.s3 (storageKeyOf block.hash) = some block.payload :=
    hok.stored _ _ (.inr ⟨hk, Catalog.linkCount_pos.2 ⟨_, hlink, rfl⟩⟩)
  unfold Archive.download
  rw [hobject]

/-! ### Every interleaving -/

theorem inv_of_reachable (hA : S.primitives.aead.Correct)
    (hAad : S.primitives.aead.RejectsOtherAad)
    (hids : Function.Injective fun b => (S.job b).snapshot.id) (passphrase salt : String)
    {w : World} (hreach : Reachable (step S) (World.init passphrase salt) w)
    (hno : NoCollision w) : Inv S salt w.shared w.backups :=
  (hreach.backward (fun _ _ _ => noCollision_of_step) hno).invariant
    (I := fun w => Inv S salt w.shared w.backups) (inv_init S passphrase salt)
    fun _ _ _ hw hno hstep => hw.step hA hAad hids hno hstep

/-- **A snapshot that is `COMPLETED` is restored to its own output.**  Let any number of
backups run side by side, with ids of their own, with retention runs and purges in between;
let calls fail and processes die.  In every state, whatever the row of a backup has gone
through, when it is `COMPLETED` and none of its `upload_callback`s has raised, `restore` with
the passphrase of the archive returns and has written what the subprocess of this backup has
put out. -/
theorem restores_of_completed (S : Plan) (Z : StreamWriter) (hA : S.primitives.aead.Correct)
    (hAad : S.primitives.aead.RejectsOtherAad) (hZ : Z.WritesFrames S.primitives.compress)
    (deriveKek : String → String → Except String Bytes) (passphrase salt : String) {kek : Bytes}
    (hkek : deriveKek passphrase salt = .ok kek)
    (hids : Function.Injective fun b => (S.job b).snapshot.id) {b : ℕ}
    (hwraps : Rotation.Wraps S.primitives.aead kek (S.job b).dek (S.job b).snapshot)
    {w : World} (hreach : Reachable (step S) (World.init passphrase salt) w)
    (hno : NoCollision w) {row : Snapshot}
    (hrow : w.shared.cat.snapshots.find? (S.job b).snapshot.id = some row)
    (hestado : row.estado = .completed)
    (hraised : ∀ k call, w.shared.uploads (Nat.pair b k) ≠ .raised call) :
    ∃ writes, restore S.primitives Z deriveKek passphrase (download w.shared.s3) w.shared.cat
      (S.job b).snapshot.id = (some writes, .restored) ∧ writes.flatten = (S.job b).data := by
  have hw := inv_of_reachable hA hAad hids passphrase salt hreach hno
  obtain ⟨hsame, -, hcompleted⟩ := hw.recorded b row hrow
  obtain ⟨s, hb, hs⟩ := hcompleted hestado
  have hup := hw.uploaded hb hs hraised
  have hsome : (w.shared.cat.snapshots.find? (S.job b).snapshot.id).isSome = true := by
    rw [hrow]
    rfl
  have hrowWraps : Rotation.Wraps S.primitives.aead kek (S.job b).dek row := by
    rw [← hsame] at hwraps
    exact hwraps
  exact Archive.restore_of_perm (S := S.setting b false) hA hZ hrow hestado hw.salt hkek
    hrowWraps hup.sealed (hw.bloquesOf_perm hids hup hsome)
    fun block hblock => hw.download hup hsome hblock

/-! ### One of two backups -/

theorem backups_of_exec {w w' : World} {events : List Event}
    (h : exec (step S) w events = some w') {b : ℕ} (hb : ∀ e ∈ events, e.backup? ≠ some b) :
    w'.backups b = w.backups b := by
  induction events generalizing w with
  | nil => rw [Option.some.inj h]
  | cons e events ih =>
    obtain ⟨u, hu, h⟩ := Option.bind_eq_some_iff.1 h
    rw [ih h fun e he => hb e (.tail _ he)]
    rcases backups_of_step hu with hsame | ⟨b₀, backup, he, -, hbackups⟩
    · rw [hsame]
    · have hne : b ≠ b₀ := by
        rintro rfl
        exact hb e (.head _) he
      rw [hbackups, Function.update_of_ne hne]

/-- A run of its pipeline alone, as long as nothing is uploaded. -/
theorem reach_of_runs {b : ℕ} {data : Bytes} {nonceGen : NonceGenerator} {s : State}
    (hrun : Runs (S.setting b false) data nonceGen s) (htasks : s.tasks = []) {w : World}
    (hb : w.backups b = .streaming (.init data nonceGen)) :
    Reachable (step S) w { w with backups := Function.update w.backups b (.streaming s) } := by
  induction hrun with
  | refl =>
    rw [← hb, Function.update_eq_self]
    exact .refl
  | @tail t u e _ _ hstep ih =>
    have hbefore : t.tasks = [] := by
      refine List.eq_nil_iff_forall_not_mem.2 fun task hmem => ?_
      obtain ⟨task', hmem', -⟩ := block_of_step hstep hmem
      rw [htasks] at hmem'
      cases hmem'
    have hpipeline : pipelineStep S w.shared.uploads b t e = some u := by
      unfold pipelineStep
      split
      · next k =>
        unfold Pipeline.step at hstep
        split_ifs at hstep
        obtain ⟨task, hk, -⟩ := Option.bind_eq_some_iff.1 hstep
        rw [hbefore] at hk
        cases hk
      · exact hstep
    refine (ih hbefore).tail (e := .pipeline b e) trivial ?_
    dsimp only [step]
    rw [Function.update_self]
    dsimp only
    rw [hpipeline, Option.map_some, Function.update_idem]

/-- Two backups of one byte each. -/
def smallPlan : Plan where
  primitives := clearPrimitives
  gear _ := 0
  job b :=
    let id := String.ofList (List.replicate (b + 1) 's')
    { snapshot := Rotation.newSnapshot (Catalog.runningSnapshot id)
        (generateDekForSnapshot clearAead (utf8 ("old" ++ "c2FsdA==")) id [7] [0])
      dek := [7]
      nonceGen := smallNonces
      data := [1] }

/-- Both have begun. -/
def smallBegun : World :=
  (exec (step smallPlan) (World.init "old" "c2FsdA==") [.begins 0, .begins 1]).getD
    (World.init "old" "c2FsdA==")

/-- The first one has read its output. -/
def smallRead : World :=
  { smallBegun with
    backups := Function.update smallBegun.backups 0
      (.streaming { State.init [] smallNonces with reader := .putting {} true [1] [] }) }

/-- What the first one does, with a purge beside it. -/
def smallRun : List Event :=
  [.pipeline 0 (.reader .put), .pipeline 0 (.writer .get), .pipeline 0 (.reader (.resumed false)),
    .pipeline 0 (.writer (.resumed false)), .pipeline 0 (.writer .acquired),
    .pipeline 0 (.upload 0 .started), .callback 0 0 (.prepare 0),
    .retention (.base (.claim 0 500)), .callback 0 0 .put, .callback 0 0 (.link 0),
    .pipeline 0 (.upload 0 .finished), .pipeline 0 (.upload 0 .discarded),
    .pipeline 0 (.reader .put), .pipeline 0 (.reader (.resumed false)),
    .pipeline 0 (.reader (.exited 0)), .pipeline 0 (.writer .get),
    .pipeline 0 (.writer (.resumed false)), .pipeline 0 .wake, .concludes 0]

/-- The first is restored while the second still runs. -/
theorem restores_of_completed_small : ∃ w : World, ∃ writes,
    (w.shared.cat.snapshots.find? "ss").map Snapshot.estado = some .running ∧
    restore clearPrimitives clearWriter Archive.smallKdf "old" (download w.shared.s3) w.shared.cat
      "s" = (some writes, .restored) ∧ writes.flatten = [1] := by
  have hbegun : exec (step smallPlan) (World.init "old" "c2FsdA==") [.begins 0, .begins 1] =
      some smallBegun := rfl
  have hread : Reachable (step smallPlan) (World.init "old" "c2FsdA==") smallRead :=
    (reachable_of_exec hbegun).trans (reach_of_runs
      (runs_short (smallPlan.setting 0 false) [1] smallNonces (by simp)
        (by unfold minChunkSize; decide) (by unfold ioReadSize; decide)) rfl rfl)
  have hexec : (exec (step smallPlan) smallRead smallRun).map (fun w =>
      ((w.backups 0).state?.map (fun s => s.tasks.length),
        (w.backups 1).state?.map (fun s => s.tasks.length),
        verdict (w.shared.uploads (Nat.pair 0 0)),
        (w.shared.cat.snapshots.find? "s").map Snapshot.estado,
        (w.shared.cat.snapshots.find? "ss").map Snapshot.estado)) =
      some (some 1, some 0, some false, some .completed, some .running) := by decide +kernel
  obtain ⟨w, hexec, hw⟩ := Option.map_eq_some_iff.1 hexec
  simp only [Prod.mk.injEq] at hw
  obtain ⟨hfirst, hsecond, hverdict, hrow, hrunning⟩ := hw
  have hreach := hread.exec hexec
  obtain ⟨s, hs, hlength⟩ := Option.map_eq_some_iff.1 hfirst
  obtain ⟨row, hrow, hestado⟩ := Option.map_eq_some_iff.1 hrow
  -- one block has been sealed
  have hplace : ∀ b s' k task, (w.backups b).state? = some s' → s'.tasks[k]? = some task →
      b = 0 ∧ k = 0 := by
    intro b s' k task hs' hk
    have hlt : k < s'.tasks.length := (List.getElem?_eq_some_iff.1 hk).1
    have hb : b = 0 := by
      by_contra hb
      by_cases hb' : b = 1
      · rw [hb'] at hs'
        rw [hs'] at hsecond
        have hempty : s'.tasks.length = 0 := Option.some.inj hsecond
        omega
      · have hother : w.backups b = smallBegun.backups b :=
          (backups_of_exec hexec (by simp [smallRun, Event.backup?, Ne.symm hb])).trans
            (Function.update_of_ne hb _ _)
        have hnotBegun := backups_of_exec hbegun (b := b)
          (by simp [Event.backup?, Ne.symm hb, Ne.symm hb'])
        rw [hother, hnotBegun] at hs'
        cases hs'
    rw [hb, hs] at hs'
    obtain rfl := Option.some.inj hs'
    have hlength : s.tasks.length = 1 := hlength
    refine ⟨hb, ?_⟩
    omega
  have hno : NoCollision w := by
    intro b b' t t' task task' ht ht' hmem hmem' _
    obtain ⟨k, hk⟩ := List.mem_iff_getElem?.1 hmem
    obtain ⟨k', hk'⟩ := List.mem_iff_getElem?.1 hmem'
    obtain ⟨rfl, rfl⟩ := hplace b t k task ht hk
    obtain ⟨rfl, rfl⟩ := hplace b' t' k' task' ht' hk'
    obtain rfl := Option.some.inj (ht.symm.trans ht')
    rw [Option.some.inj (hk.symm.trans hk')]
  have hids : Function.Injective fun b => (smallPlan.job b).snapshot.id := by
    intro b b' h
    have hlength := congrArg (fun id : String => id.toList.length) h
    simpa [smallPlan, Rotation.newSnapshot, Catalog.runningSnapshot] using hlength
  have hinv := inv_of_reachable clearAead_correct clearAead_rejectsOtherAad hids "old" "c2FsdA=="
    hreach hno
  obtain ⟨writes, hrestore, hdata⟩ := restores_of_completed smallPlan clearWriter
    clearAead_correct clearAead_rejectsOtherAad clearWriter_writesFrames Archive.smallKdf "old"
    "c2FsdA==" rfl hids (b := 0) (Rotation.wraps_newSnapshot _ _ _ _) hreach hno hrow hestado
    fun k call hraised => by
      obtain ⟨t, task, ht, hk, -⟩ := hinv.call (by rw [hraised]; rfl)
      obtain ⟨-, rfl⟩ := hplace 0 t k task ht hk
      rw [hraised] at hverdict
      cases hverdict
  exact ⟨w, writes, hrunning, hrestore, hdata⟩

end Concurrent
end Boveda

/-
# When the commands keep to `VALID_TRANSITIONS`

Two commits of a backup do not look at what they overwrite.  `COMPLETED` is written
over the `FAILED` of a cleanup that has taken the running backup for a dead one, and
the exception handlers write `FAILED` over the `COMPLETED` that the same backup has
committed, when what raises comes after it: `click.echo`, the webhook or the purge.
Along a run of any number of commands side by side, the states of every snapshot are
steps of the table exactly when no commit does so (`moves_iff_onTime`).
-/

import Boveda.Lifecycle.Turns

namespace Boveda
namespace Lifecycle

open Lib Catalog

/-! ### Steps of a backup -/

/-- Whether a backup that holds its snapshot has committed `COMPLETED`. -/
def BackupPhase.progress : BackupPhase → Option Bool
  | .start => none
  | .running => some false
  | .streamed => some false
  | .completed => some true
  | .handler _ committed => some committed
  | .reported committed held => if held then some committed else none
  | .purging committed held _ => if held then some committed else none
  | .outer _ _ committed held => if held then some committed else none
  | .closed => none

/-- The purge that a backup is in. -/
def BackupPhase.purge : BackupPhase → Retention.Phase
  | .purging _ _ phase => phase
  | _ => .start

/-- A commit of `COMPLETED` finds its snapshot still `RUNNING`, and a commit of
`FAILED` is not one of a backup that has committed `COMPLETED`. -/
def InTime (σ : Estados) (b : Backup) : BackupEvent → Prop
  | .complete _ => σ b.id = some .running
  | .fail => b.phase.progress ≠ some true
  | _ => True

/-- What a step of a backup does to the states. -/
inductive BackupTurn (σ : Estados) (used : List String) (b : Backup) :
    BackupEvent → Estados → Backup → Prop
  | idle {e : BackupEvent} {b' : Backup} : InTime σ b e → drawn e = [] → b'.id = b.id →
      (∀ c ∈ b'.phase.progress, c ∈ b.phase.progress) → b'.phase.purge = .start →
      BackupTurn σ used b e σ b'
  | create {s : Snapshot} : s.id ∉ used → s.estado = .running →
      BackupTurn σ used b (.create s) (Function.update σ s.id (some .running)) ⟨s.id, .running⟩
  | complete {now : Time} : b.phase.progress = some false →
      BackupTurn σ used b (.complete now) (overwrite σ b.id .completed)
        { b with phase := .completed }
  | fail {c : Bool} {b' : Backup} : b.phase.progress = some c → b'.id = b.id →
      (∀ c' ∈ b'.phase.progress, c' = c) → b'.phase.purge = .start →
      BackupTurn σ used b .fail (overwrite σ b.id .failed) b'
  | purge {e : Retention.Event} {σ' : Estados} {b' : Backup} {phase' : Retention.Phase} :
      Turn σ b.phase.purge σ' phase' → b'.id = b.id →
      (∀ c ∈ b'.phase.progress, c ∈ b.phase.progress) →
      b'.phase.purge = phase' ∨ b'.phase.purge = .start →
      BackupTurn σ used b (.purge e) σ' b'

theorem progress_afterPurge (before phase' : Retention.Phase) (e : Retention.Event)
    (committed held : Bool) : (afterPurge before e committed held phase').progress =
      (BackupPhase.purging committed held before).progress ∨
      (afterPurge before e committed held phase').progress = none := by
  cases phase' <;> simp [afterPurge, BackupPhase.progress]

theorem purge_afterPurge {before phase' : Retention.Phase} {e : Retention.Event}
    {committed held : Bool} : (afterPurge before e committed held phase').purge = phase' ∨
      (afterPurge before e committed held phase').purge = .start := by
  cases phase' <;> simp [afterPurge, BackupPhase.purge]

theorem estados_setCompleted (id : String) (now : Time) (c : Catalog) :
    estados (setCompleted id now c) = overwrite (estados c) id .completed :=
  estados_updateSnapshots id (f := fun s =>
    { s with estado := .completed, completedAt := some now }) (fun _ => rfl) c

/-- **A step of a backup**, as far as the states go. -/
theorem backupTurn_of_step {used : List String} {w w' : Store} {b b' : Backup} {e : BackupEvent}
    (h : b.step used w e = some (w', b')) :
    BackupTurn (estados w.cat) used b e (estados w'.cat) b' := by
  obtain ⟨id, phase⟩ := b
  cases e with
  | create s =>
    cases phase <;> try cases h
    dsimp only [Backup.step] at h
    split_ifs at h with hs
    cases hcat : insertSnapshot s w.cat with
    | error e => simp only [hcat, reduceCtorEq] at h
    | ok cat =>
      simp only [hcat] at h
      obtain ⟨rfl, rfl⟩ := Prod.mk.inj (Option.some.inj h)
      rw [(estados_insertSnapshot hcat).2, hs.1]
      exact .create hs.2 hs.1
  | prepare now cHash payloadLen =>
    cases phase <;> try cases h
    dsimp only [Backup.step] at h
    split at h
    · rename_i hcat
      obtain ⟨rfl, rfl⟩ := Prod.mk.inj (Option.some.inj h)
      rw [estados_congr (dbCheckAndPrepare_ok hcat).2.2.2]
      exact .idle trivial rfl rfl (fun _ hc => hc) rfl
    · cases h
  | put key payload =>
    cases phase <;> try cases h
    exact .idle trivial rfl rfl (fun _ hc => hc) rfl
  | link now seq cHash =>
    cases phase <;> try cases h
    dsimp only [Backup.step] at h
    split at h
    · rename_i hcat
      obtain ⟨rfl, rfl⟩ := Prod.mk.inj (Option.some.inj h)
      obtain ⟨-, -, -, -, hsnaps⟩ := insertSnapshotChunk_ok hcat
      rw [estados_congr hsnaps]
      exact .idle trivial rfl rfl (fun _ hc => hc) rfl
    · cases h
  | streamReturns =>
    cases phase <;> try cases h
    exact .idle trivial rfl rfl (fun _ hc => hc) rfl
  | complete now =>
    cases phase <;> try cases h
    dsimp only [Backup.step] at h
    split_ifs at h
    obtain ⟨rfl, rfl⟩ := Prod.mk.inj (Option.some.inj h)
    rw [estados_setCompleted]
    exact .complete rfl
  | report =>
    cases phase <;> try cases h
    · exact .idle trivial rfl rfl (fun _ hc => hc) rfl
    · exact .idle trivial rfl rfl (fun _ hc => hc) rfl
  | fail =>
    cases phase <;> try cases h
    · rename_i error committed
      rw [estados_setFailure]
      refine .fail (c := committed) rfl rfl (fun c hc => ?_) rfl
      dsimp only [BackupPhase.progress] at hc
      split_ifs at hc
      · exact (Option.some.inj hc).symm
      · cases hc
    · rename_i error clean committed held
      dsimp only [Backup.step] at h
      cases held with
      | true =>
        rw [if_pos rfl] at h
        split_ifs at h
        obtain ⟨rfl, rfl⟩ := Prod.mk.inj (Option.some.inj h)
        rw [estados_setFailure]
        exact .fail (c := committed) rfl rfl (fun c hc => absurd hc (Option.not_mem_none c)) rfl
      | false =>
        rw [if_neg Bool.false_ne_true] at h
        obtain ⟨rfl, rfl⟩ := Prod.mk.inj (Option.some.inj h)
        exact .idle (fun h => Option.some_ne_none _ h.symm) rfl rfl (fun _ hc => hc) rfl
  | commitRaises error =>
    cases phase <;> try cases h
    exact .idle trivial rfl rfl (fun _ hc => hc) rfl
  | purge e =>
    cases phase <;> try cases h
    rename_i committed held phase
    obtain ⟨⟨w₁, phase'⟩, hstep, heq⟩ := Option.map_eq_some_iff.1 h
    obtain ⟨rfl, rfl⟩ := Prod.mk.inj heq
    refine .purge (turn_of_step hstep) rfl (fun c hc => ?_) purge_afterPurge
    rcases progress_afterPurge phase phase' e committed held with h | h
    · rwa [h] at hc
    · rw [h] at hc
      cases hc
  | raises error =>
    cases phase <;> try cases h
    · exact .idle trivial rfl rfl (fun c hc => absurd hc (Option.not_mem_none c)) rfl
    · exact .idle trivial rfl rfl (fun _ hc => hc) rfl
    · exact .idle trivial rfl rfl (fun _ hc => hc) rfl
    · exact .idle trivial rfl rfl (fun _ hc => hc) rfl
    · exact .idle trivial rfl rfl (fun _ hc => hc) rfl
    · exact .idle trivial rfl rfl (fun _ hc => hc) rfl
    · exact .idle trivial rfl rfl (fun c hc => absurd hc (Option.not_mem_none c)) rfl

/-! ### The invariant -/

/-- The states of the snapshot of a backup, before and after it commits `COMPLETED`. -/
def Expected : Bool → Estado → Prop
  | false, e => e = .running ∨ e = .failed
  | true, e => e = .completed

/-- The snapshot of a backup is as the backup has left it, or a cleanup. -/
def Sound (σ : Estados) (b : Backup) : Prop :=
  ∀ c ∈ b.phase.progress, ∃ e, σ b.id = some e ∧ Expected c e

/-- What every run keeps, as long as its commits are in time. -/
structure Inv (w : World) : Prop where
  covers : ∀ id e, estados w.store.cat id = some e → id ∈ w.used
  sound : ∀ n, Sound (estados w.store.cat) (w.backups n)
  distinct : ∀ n m, n ≠ m → (w.backups n).phase.progress.isSome →
    (w.backups m).phase.progress.isSome → (w.backups n).id ≠ (w.backups m).id
  called : ∀ n, Tame (estados w.store.cat) w.used (w.backups n).phase.purge
  alone : ∀ n, Tame (estados w.store.cat) w.used (w.purges n)

theorem inv_init (w : Store) : Inv (.init w) where
  covers id e h := by
    obtain ⟨s, hs, -⟩ := Option.map_eq_some_iff.1 h
    rw [← Table.key_of_find? hs]
    exact List.mem_map_of_mem (Table.mem_of_find? hs)
  sound _ := nofun
  distinct _ _ _ := nofun
  called _ := Tame.start
  alone _ := Tame.start

/-- A backup's snapshot is not in a purge. -/
theorem Expected.not_inPurge {c : Bool} {e : Estado} (h : Expected c e) : ¬ InPurge e := by
  cases c with
  | false => rcases h with rfl | rfl <;> simp [InPurge]
  | true =>
    obtain rfl : e = .completed := h
    simp [InPurge]

/-- A backup that still has a snapshot has had one. -/
theorem isSome_of_subset {p q : Option Bool} (h : ∀ c ∈ p, c ∈ q) (hp : p.isSome) : q.isSome := by
  obtain ⟨c, rfl⟩ := Option.isSome_iff_exists.1 hp
  rw [h c rfl]
  rfl

/-- What is said of all backups holds after a step of one of them. -/
theorem forall_update {P : Backup → Prop} {backups : ℕ → Backup} {n : ℕ} {b : Backup} (hb : P b)
    (h : ∀ m, m ≠ n → P (backups m)) (m : ℕ) : P (Function.update backups n b m) := by
  by_cases hm : m = n
  · subst hm
    rwa [Function.update_self]
  · rw [Function.update_of_ne hm]
    exact h m hm

/-- A backup does not see what is written about another snapshot. -/
theorem Sound.overwrite {σ : Estados} {b : Backup} {id : String} {e : Estado} (h : Sound σ b)
    (hne : b.phase.progress.isSome → id ≠ b.id) : Sound (overwrite σ id e) b := by
  intro c hc
  obtain ⟨e₀, h₀, hexp⟩ := h c hc
  rw [overwrite_of_ne (hne (hc ▸ rfl))]
  exact ⟨e₀, h₀, hexp⟩

/-- A backup does not see a step of a purge. -/
theorem Sound.turn {σ σ' : Estados} {used : List String} {phase phase' : Retention.Phase}
    {b : Backup} (h : Sound σ b) (hturn : Turn σ phase σ' phase') (hphase : Tame σ used phase) :
    Sound σ' b := by
  intro c hc
  obtain ⟨e, he, hexp⟩ := h c hc
  exact ⟨e, hturn.other hphase he hexp.not_inPurge, hexp⟩

section

variable {w : World} {σ' : Estados} {n : ℕ} {e : BackupEvent} {b' : Backup} {store : Store}

/-- What the step of one backup has to keep. -/
theorem Inv.of_backup {used' : List String} (hw : Inv w) (hσ : estados store.cat = σ')
    (hcovers : ∀ id e, σ' id = some e → id ∈ used')
    (hkeep : ∀ id ∈ w.used, Keeps (estados w.store.cat) σ' id) (hused : w.used ⊆ used')
    (hsound : Sound σ' b') (hothers : ∀ m, m ≠ n → Sound σ' (w.backups m))
    (hdistinct : ∀ m, m ≠ n → b'.phase.progress.isSome →
      (w.backups m).phase.progress.isSome → b'.id ≠ (w.backups m).id)
    (htame : Tame σ' used' b'.phase.purge) :
    Inv { w with store, used := used', backups := Function.update w.backups n b' } := by
  refine ⟨hσ ▸ hcovers, ?_, fun i j hij => ?_, ?_, fun m => ?_⟩
  · exact forall_update (P := Sound (estados store.cat)) (hσ ▸ hsound) (hσ ▸ hothers)
  · show (Function.update w.backups n b' i).phase.progress.isSome →
      (Function.update w.backups n b' j).phase.progress.isSome →
        (Function.update w.backups n b' i).id ≠ (Function.update w.backups n b' j).id
    by_cases hi : i = n
    · subst hi
      rw [Function.update_self, Function.update_of_ne (Ne.symm hij)]
      exact hdistinct j (Ne.symm hij)
    · rw [Function.update_of_ne hi]
      by_cases hj : j = n
      · subst hj
        rw [Function.update_self]
        exact fun hpi hpb => (hdistinct i hi hpb hpi).symm
      · rw [Function.update_of_ne hj]
        exact hw.distinct i j hij
  · exact forall_update (P := fun b => Tame (estados store.cat) used' b.phase.purge) (hσ ▸ htame)
      fun m _ => hσ ▸ (hw.called m).frame hkeep hused
  · exact hσ ▸ (hw.alone m).frame hkeep hused

/-- The world after a step of a backup. -/
def World.afterBackup (w : World) (n : ℕ) (e : BackupEvent) (store : Store) (b' : Backup) : World :=
  { w with store, used := drawn e ++ w.used, backups := Function.update w.backups n b' }

/-- A step that writes nothing about the snapshots. -/
theorem Inv.idle (hw : Inv w) (hσ : estados store.cat = estados w.store.cat) (hdrawn : drawn e = [])
    (hid : b'.id = (w.backups n).id)
    (hprogress : ∀ c ∈ b'.phase.progress, c ∈ (w.backups n).phase.progress)
    (hpurge : b'.phase.purge = .start) : Inv (w.afterBackup n e store b') := by
  rw [World.afterBackup, hdrawn, List.nil_append]
  refine hw.of_backup hσ hw.covers (fun _ _ e' h' => ⟨e', h', fun h => h, fun h => h⟩)
    (List.Subset.refl _) (fun c hc => ?_) (fun m _ => hw.sound m) (fun m hm hb hpm => ?_)
    (hpurge ▸ Tame.start)
  · rw [hid]
    exact hw.sound n c (hprogress c hc)
  · rw [hid]
    exact hw.distinct n m (Ne.symm hm) (isSome_of_subset hprogress hb) hpm

/-- A new snapshot. -/
theorem Inv.create {s : Snapshot} (hw : Inv w) (hfresh : s.id ∉ w.used)
    (hσ : estados store.cat = Function.update (estados w.store.cat) s.id (some .running)) :
    Moves (estados w.store.cat) (estados store.cat) ∧
      Inv (w.afterBackup n (.create s) store ⟨s.id, .running⟩) := by
  have hother {k : String} (hk : k ∈ w.used) :
      Function.update (estados w.store.cat) s.id (some .running) k = estados w.store.cat k := by
    refine Function.update_of_ne ?_ _ _
    rintro rfl
    exact hfresh hk
  refine ⟨fun k e e' he he' => ?_, hw.of_backup hσ (fun k e' he' => ?_) (fun k hk e' he' => ?_)
    (List.subset_append_right _ _) (fun c hc => ?_) (fun m _ c hc => ?_) (fun m _ _ hpm => ?_)
    Tame.start⟩
  · rw [hσ, hother (hw.covers k e he)] at he'
    exact Or.inl (Option.some.inj (he'.symm.trans he))
  · by_cases hk : k = s.id
    · exact List.mem_append_left _ (by rw [hk]; exact List.mem_singleton_self _)
    · rw [Function.update_of_ne hk] at he'
      exact List.mem_append_right _ (hw.covers k e' he')
  · rw [hother hk] at he'
    exact ⟨e', he', fun h => h, fun h => h⟩
  · obtain rfl := Option.some.inj hc
    exact ⟨.running, Function.update_self .., Or.inl rfl⟩
  · obtain ⟨e₀, he₀, hexp⟩ := hw.sound m c hc
    exact ⟨e₀, (hother (hw.covers _ e₀ he₀)).trans he₀, hexp⟩
  · obtain ⟨c, hc⟩ := Option.isSome_iff_exists.1 hpm
    obtain ⟨e₀, he₀, -⟩ := hw.sound m c hc
    intro hid
    have hmem := hw.covers _ e₀ he₀
    rw [← hid] at hmem
    exact hfresh hmem

/-- A commit on the snapshot of the backup, from `e₀` to `e₁`. -/
theorem Inv.commit {e₀ e₁ : Estado} (hw : Inv w) (h₀ : estados w.store.cat (w.backups n).id = some e₀)
    (hlive : (w.backups n).phase.progress.isSome) (hin : ¬ InPurge e₀)
    (hne : e₁ ≠ .expired) (htable : e₁ = e₀ ∨ e₁ ∈ validTransitions e₀)
    (hσ : estados store.cat = overwrite (estados w.store.cat) (w.backups n).id e₁)
    (hdrawn : drawn e = []) (hid : b'.id = (w.backups n).id)
    (hexpected : ∀ c ∈ b'.phase.progress, Expected c e₁) (hpurge : b'.phase.purge = .start) :
    Moves (estados w.store.cat) (estados store.cat) ∧ Inv (w.afterBackup n e store b') := by
  have hothers : ∀ m, m ≠ n → (w.backups m).phase.progress.isSome →
      (w.backups n).id ≠ (w.backups m).id := fun m hm => hw.distinct n m (Ne.symm hm) hlive
  rw [World.afterBackup, hdrawn, List.nil_append]
  refine ⟨hσ ▸ Moves.overwrite fun e h => ?_, hw.of_backup hσ (fun k e' he' => ?_)
    (fun k _ => Keeps.overwrite hne (fun e h hpurging => ?_) k) (List.Subset.refl _) (fun c hc => ?_)
    (fun m hm => (hw.sound m).overwrite (hothers m hm)) (fun m hm _ => hid ▸ hothers m hm)
    (hpurge ▸ Tame.start)⟩
  · obtain rfl := Option.some.inj (h.symm.trans h₀)
    exact htable
  · obtain ⟨e, h, -⟩ := overwrite_eq_some he'
    exact hw.covers k e h
  · obtain rfl := Option.some.inj (h.symm.trans h₀)
    exact absurd hpurging hin
  · rw [hid]
    exact ⟨e₁, overwrite_self h₀, hexpected c hc⟩

/-- A step of the purge that the backup has called. -/
theorem Inv.turn {phase' : Retention.Phase} (hw : Inv w)
    (hturn : Turn (estados w.store.cat) (w.backups n).phase.purge (estados store.cat) phase')
    (hdrawn : drawn e = []) (hid : b'.id = (w.backups n).id)
    (hprogress : ∀ c ∈ b'.phase.progress, c ∈ (w.backups n).phase.progress)
    (hpurge : b'.phase.purge = phase' ∨ b'.phase.purge = .start) :
    Moves (estados w.store.cat) (estados store.cat) ∧ Inv (w.afterBackup n e store b') := by
  have hphase := hw.called n
  rw [World.afterBackup, hdrawn, List.nil_append]
  refine ⟨hturn.moves hphase, hw.of_backup rfl (fun k e' he' => ?_) (fun k _ => hturn.keeps k)
    (List.Subset.refl _) (fun c hc => ?_) (fun m _ => (hw.sound m).turn hturn hphase)
    (fun m hm hb hpm => ?_) ?_⟩
  · obtain ⟨e₀, h₀, -⟩ := hturn.keeps k e' he'
    exact hw.covers k e₀ h₀
  · rw [hid]
    exact (hw.sound n).turn hturn hphase c (hprogress c hc)
  · rw [hid]
    exact hw.distinct n m (Ne.symm hm) (isSome_of_subset hprogress hb) hpm
  · rcases hpurge with hpurge | hpurge
    · rw [hpurge]
      exact hturn.tame hphase hw.covers
    · rw [hpurge]
      exact Tame.start

/-- **A backup whose commits are in time** keeps to the table. -/
theorem Inv.backup (hw : Inv w)
    (h : BackupTurn (estados w.store.cat) w.used (w.backups n) e σ' b')
    (hσ : estados store.cat = σ') (hok : InTime (estados w.store.cat) (w.backups n) e) :
    Moves (estados w.store.cat) (estados store.cat) ∧ Inv (w.afterBackup n e store b') := by
  cases h with
  | idle _ hdrawn hid hprogress hpurge =>
    exact ⟨hσ.symm ▸ Moves.refl _, hw.idle hσ hdrawn hid hprogress hpurge⟩
  | create hfresh _ => exact hw.create hfresh hσ
  | complete hprogress =>
    refine hw.commit hok (hprogress ▸ rfl) (by simp [InPurge]) (by decide)
      (Or.inr (by decide)) hσ rfl rfl (fun c hc => ?_) rfl
    obtain rfl := Option.some.inj hc
    rfl
  | @fail c b' hprogress hid hsub hpurge =>
    -- in time, so that `COMPLETED` has not been committed
    obtain rfl : c = false := by
      cases c with
      | false => rfl
      | true => exact absurd hprogress hok
    obtain ⟨e₀, h₀, hexp⟩ := hw.sound n false hprogress
    refine hw.commit h₀ (hprogress ▸ rfl) hexp.not_inPurge (by decide) ?_ hσ rfl hid
      (fun c hc => ?_) hpurge
    · rcases hexp with rfl | rfl <;> decide
    · obtain rfl := hsub c hc
      exact Or.inr rfl
  | purge hturn hid hprogress hpurge => exact hw.turn (hσ ▸ hturn) rfl hid hprogress hpurge

end

/-! ### Runs -/

/-- Every commit of a backup is in time. -/
def OnTime (w : World) : Event → Prop
  | .backup n e => InTime (estados w.store.cat) (w.backups n) e
  | _ => True

theorem estados_cleanup (c : Catalog) (id : String) :
    estados (cleanupInProgressSnapshots c) id =
      (estados c id).map fun e => if e = .running then .failed else e := by
  unfold estados cleanupInProgressSnapshots updateSnapshots
  rw [Table.find?_update, Option.map_map, Option.map_map]
  congr 1
  funext s
  by_cases hs : s.estado = .running <;> simp [hs]

/-- A cleanup takes `RUNNING` to `FAILED`, and writes nothing else. -/
theorem Inv.cleanup {w : World} (hw : Inv w) :
    Moves (estados w.store.cat) (estados (cleanupInProgressSnapshots w.store.cat)) ∧
      Inv { w with store := { w.store with cat := cleanupInProgressSnapshots w.store.cat } } := by
  have hσ := estados_cleanup w.store.cat
  have hkeep : ∀ id, Keeps (estados w.store.cat)
      (estados (cleanupInProgressSnapshots w.store.cat)) id := by
    intro id e' he'
    rw [hσ] at he'
    obtain ⟨e₀, h₀, rfl⟩ := Option.map_eq_some_iff.1 he'
    refine ⟨e₀, h₀, ?_⟩
    split_ifs with hrun
    · simp [hrun, InPurge]
    · exact ⟨fun h => h, fun h => h⟩
  refine ⟨fun id e e' he he' => ?_, fun id e' he' => ?_, fun m c hc => ?_, hw.distinct,
    fun m => (hw.called m).frame (fun id _ => hkeep id) (List.Subset.refl _),
    fun m => (hw.alone m).frame (fun id _ => hkeep id) (List.Subset.refl _)⟩
  · rw [hσ, he] at he'
    have heq := Option.some.inj he'
    dsimp only at heq
    split_ifs at heq with hrun
    · subst heq hrun
      exact Or.inr (by decide)
    · exact Or.inl heq.symm
  · obtain ⟨e₀, h₀, -⟩ := hkeep id e' he'
    exact hw.covers id e₀ h₀
  · obtain ⟨e₀, h₀, hexp⟩ := hw.sound m c hc
    refine ⟨_, (hσ _).trans (congrArg _ h₀), ?_⟩
    cases c with
    | false => rcases hexp with rfl | rfl <;> exact Or.inr rfl
    | true =>
      obtain rfl : e₀ = .completed := hexp
      rfl

/-- **A step in time** keeps to the table. -/
theorem Inv.step {w w' : World} {e : Event} (hw : Inv w) (h : step w e = some w')
    (hok : OnTime w e) : Moves (estados w.store.cat) (estados w'.store.cat) ∧ Inv w' := by
  cases e with
  | backup n e =>
    obtain ⟨⟨store, b'⟩, hstep, rfl⟩ := Option.map_eq_some_iff.1 h
    exact hw.backup (backupTurn_of_step hstep) rfl hok
  | purge n e =>
    obtain ⟨⟨store, phase⟩, hstep, rfl⟩ := Option.map_eq_some_iff.1 h
    have hturn := turn_of_step hstep
    have hphase := hw.alone n
    refine ⟨hturn.moves hphase, fun id e' he' => ?_, fun m => (hw.sound m).turn hturn hphase,
      hw.distinct, fun m => (hw.called m).frame (fun id _ => hturn.keeps id)
        (List.Subset.refl _), fun m => ?_⟩
    · obtain ⟨e₀, h₀, -⟩ := hturn.keeps id e' he'
      exact hw.covers id e₀ h₀
    · show Tame (estados store.cat) w.used (Function.update w.purges n phase m)
      by_cases hm : m = n
      · subst hm
        rw [Function.update_self]
        exact hturn.tame hphase hw.covers
      · rw [Function.update_of_ne hm]
        exact (hw.alone m).frame (fun id _ => hturn.keeps id) (List.Subset.refl _)
  | cleanup =>
    obtain rfl := Option.some.inj h
    exact hw.cleanup

/-- **A commit that comes too late** leaves the table. -/
theorem Inv.late {w w' : World} {e : Event} (hw : Inv w) (h : Lifecycle.step w e = some w')
    (hlate : ¬ OnTime w e) : ¬ Moves (estados w.store.cat) (estados w'.store.cat) := by
  cases e with
  | backup n e =>
    obtain ⟨⟨store, b'⟩, hstep, rfl⟩ := Option.map_eq_some_iff.1 h
    have hturn := backupTurn_of_step hstep
    show ¬ Moves (estados w.store.cat) (estados store.cat)
    generalize estados store.cat = σ' at hturn
    cases hturn with
    | idle hok => exact absurd hok hlate
    | create => exact absurd trivial hlate
    | purge => exact absurd trivial hlate
    | complete hprogress =>
      -- a cleanup has been there
      obtain ⟨e₀, h₀, rfl | rfl⟩ := hw.sound n false hprogress
      · exact absurd h₀ hlate
      · intro hmoves
        have := hmoves _ _ _ h₀ (overwrite_self h₀)
        simp [validTransitions] at this
    | fail =>
      have hcommitted : (w.backups n).phase.progress = some true := by
        by_contra hne
        exact hlate hne
      obtain ⟨e₀, h₀, rfl⟩ := hw.sound n true hcommitted
      intro hmoves
      have := hmoves _ _ _ h₀ (overwrite_self h₀)
      simp [validTransitions] at this
  | purge n e => exact absurd trivial hlate
  | cleanup => exact absurd trivial hlate

/-- **Exactly when the commands keep to `VALID_TRANSITIONS`.**  From any catalog, with
any number of commands side by side and any call raising, the states of each snapshot
are steps of the table along a run exactly when every commit of `COMPLETED` finds its
snapshot still `RUNNING`, and no handler of a backup that has committed `COMPLETED`
commits. -/
theorem moves_iff_onTime (w₀ : Store) (es : List Event) :
    AllMoves step (fun w _ w' => Moves (estados w.store.cat) (estados w'.store.cat))
      (.init w₀) es ↔ AllSteps step OnTime (.init w₀) es :=
  allMoves_iff_allSteps (I := Inv) (fun _ _ _ hw h hok => hw.step h hok)
    (fun _ _ _ hw h hlate => hw.late h hlate) (inv_init w₀) es

/-- A backup of an empty stream whose standard output has been closed. -/
def echoRaises : List Event :=
  [.backup 0 (.create (runningSnapshot "snap-1")), .backup 0 .streamReturns,
    .backup 0 (.complete 0), .backup 0 (.raises "[Errno 32] Broken pipe")]

/-- **A `COMPLETED` snapshot becomes `FAILED`** when `click.echo` raises. -/
theorem not_moves_echoRaises : ¬ AllMoves step
    (fun w _ w' => Moves (estados w.store.cat) (estados w'.store.cat)) (.init Store.init)
      (echoRaises ++ [.backup 0 .fail]) := by
  intro h
  have hrun : (exec step (.init Store.init) echoRaises).map (fun w =>
      (estados w.store.cat "snap-1", (step w (.backup 0 .fail)).map fun w' =>
        estados w'.store.cat "snap-1")) = some (some .completed, some (some .failed)) := by decide
  obtain ⟨w, hw, hrest⟩ := Option.map_eq_some_iff.1 hrun
  obtain ⟨hcompleted, hnext⟩ := Prod.mk.inj hrest
  obtain ⟨w', hw', hfailed⟩ := Option.map_eq_some_iff.1 hnext
  have hmove := h.of_exec hw hw' _ _ _ hcompleted hfailed
  exact absurd hmove (by decide)

end Lifecycle
end Boveda

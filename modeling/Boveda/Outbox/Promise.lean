/-
# The promise of `enqueue_chunk`

At the end of a run the file and the row of a call are there if it has returned, and gone if
not, just when the run was undisturbed (`kept_iff`).  An undisturbed run keeps `Sound`, which
says for each place of the two parties what is in the directory and in the table.  A step that
disturbs it leaves a file or a row that nobody removes (`LeavesFile`, `LeavesRow`).
-/

import Boveda.Outbox.Enqueue

namespace Boveda
namespace Enqueue

open Lib Outbox

section

variable (S : Setting) (c : Call)

/-- What the thread has made of the file. -/
def FileSound (s : State) : Prop :=
  match s.worker with
  | .absent | .queued | .failed | .dropped => s.files (c.stagedPath S) = c.files (c.stagedPath S)
  | .opened | .removing =>
    c.files (c.stagedPath S) = none ∧ s.files (c.stagedPath S) ≠ none
  | .written =>
    c.files (c.stagedPath S) = none ∧ s.files (c.stagedPath S) = some c.chunk.payload
  | .succeeded =>
    c.files (c.stagedPath S) = none ∧ s.files (c.stagedPath S) =
      match s.phase with
      | .raised _ => none
      | _ => some c.chunk.payload

/-- What the coroutine has made of the row. -/
def RowSound (s : State) : Prop :=
  match s.phase with
  | .returned => ∃ now, s.rows.find? c.id = some (S.newRow now c.id c.chunk)
  | .committing r => (∃ now, r = S.newRow now c.id c.chunk) ∧
      s.rows.find? c.id = c.rows.find? c.id ∧ c.rows.find? c.id = none
  | _ => s.rows.find? c.id = c.rows.find? c.id

/-- The coroutine starts the thread, and goes on when it has succeeded. -/
def PhaseSound (s : State) : Prop :=
  match s.phase with
  | .created => s.worker = .absent
  | .inserting | .committing _ | .undoing | .returned => s.worker = .succeeded
  | _ => True

/-- The invariant of undisturbed runs. -/
structure Sound (s : State) : Prop where
  file : FileSound S c s
  row : RowSound S c s
  phase : PhaseSound s

/-- Nobody removes the file any more. -/
def LeavesFile (s : State) : Prop :=
  s.files (c.stagedPath S) ≠ c.files (c.stagedPath S) ∧
    ((s.phase = .writing ∧ s.worker = .failed) ∨
      ((∃ exc, s.phase = .raised exc) ∧ ¬ s.worker.Running))

/-- The row is there, and the call does not return. -/
def LeavesRow (s : State) : Prop :=
  s.rows.find? c.id ≠ c.rows.find? c.id ∧ (s.phase = .undoing ∨ ∃ exc, s.phase = .raised exc)

end

variable {S : Setting} {c : Call} {s t : State}

theorem sound_start : Sound S c c.start := ⟨rfl, rfl, rfl⟩

theorem find?_insertRow {rows rows' : Table Row Row.id} {r : Row}
    (h : insertRow rows r = some rows') : rows.find? r.id = none ∧ rows'.find? r.id = some r := by
  unfold insertRow at h
  split_ifs at h with hnone
  obtain rfl := Option.some.inj h
  exact ⟨hnone, by rw [Table.find?_insert, if_pos rfl]⟩

/-- A sound state whose two parties are over keeps the promise. -/
theorem Sound.kept (h : Sound S c s) (hover : s.Over) : Kept S c s := by
  obtain ⟨hfile, hrow, hphase⟩ := h
  obtain ⟨hreturned | ⟨exc, hraised⟩, hworker⟩ := hover
  · simp only [RowSound, PhaseSound, hreturned] at hrow hphase
    simp only [FileSound, hphase, hreturned] at hfile
    obtain ⟨now, hrow⟩ := hrow
    exact ⟨fun _ => ⟨now, hrow, hfile.2⟩, fun hne => absurd hreturned hne⟩
  · simp only [RowSound, hraised] at hrow
    refine ⟨fun hreturned => absurd (hraised.symm.trans hreturned) Phase.noConfusion,
      fun _ => ⟨?_, hrow⟩⟩
    simp only [FileSound, hraised] at hfile
    cases hw : s.worker with
    | queued | opened | written | removing => exact absurd (by rw [hw]; trivial) hworker
    | succeeded =>
      simp only [hw] at hfile
      exact hfile.2.trans hfile.1.symm
    | absent | failed | dropped => simpa only [hw] using hfile

theorem LeavesFile.not_kept (h : LeavesFile S c s) (hover : s.Over) : ¬ Kept S c s := by
  intro hkept
  obtain ⟨hfile, ⟨hphase, -⟩ | ⟨⟨exc, hphase⟩, -⟩⟩ := h
  · obtain ⟨hreturned | ⟨exc, hraised⟩, -⟩ := hover
    · rw [hphase] at hreturned
      cases hreturned
    · rw [hphase] at hraised
      cases hraised
  · exact hfile (hkept.2 (by rw [hphase]; exact Phase.noConfusion)).1

theorem LeavesRow.not_kept (h : LeavesRow c s) : ¬ Kept S c s := by
  intro hkept
  obtain ⟨hrow, hphase | ⟨exc, hphase⟩⟩ := h
  all_goals exact hrow (hkept.2 (by rw [hphase]; exact Phase.noConfusion)).2

theorem files_setFile (content : Option Bytes) :
    (s.setFile S c content).files (c.stagedPath S) = content := Function.update_self ..

/-- What the thread leaves alone. -/
theorem eq_of_thread {e : Event} (hstep : step S c s e = some t) (he : e.OfThread) :
    s.worker.Running ∧ t.phase = s.phase ∧ t.rows = s.rows := by
  cases e with
  | opens =>
    simp only [step] at hstep
    split at hstep
    · next hw =>
      split_ifs at hstep
      obtain rfl := Option.some.inj hstep
      exact ⟨by rw [hw]; trivial, rfl, rfl⟩
    · cases hstep
  | openFails | writes | writeFails | syncs | syncFails | removes | removeFails =>
    simp only [step] at hstep
    split at hstep <;> cases hstep
    next hw => exact ⟨by rw [hw]; trivial, rfl, rfl⟩
  | dropped =>
    simp only [step] at hstep
    split at hstep <;> cases hstep
    next hw _ => exact ⟨by rw [hw]; trivial, rfl, rfl⟩
  | _ => exact he.elim

/-- What the others leave alone. -/
theorem eq_of_others {rows : Table Row Row.id} {files : StagedPath → Option Bytes}
    (hstep : step S c s (.others rows files) = some t) :
    t.phase = s.phase ∧ t.worker = s.worker ∧ t.rows.find? c.id = s.rows.find? c.id ∧
      t.files (c.stagedPath S) = s.files (c.stagedPath S) := by
  simp only [step] at hstep
  split_ifs at hstep with hothers
  obtain rfl := Option.some.inj hstep
  exact ⟨rfl, rfl, hothers⟩

/-- The thread runs while the coroutine waits for it, or has been cancelled. -/
theorem Sound.attended (h : Sound S c s) (hrunning : s.worker.Running) :
    s.phase = .writing ∨ ∃ exc, s.phase = .raised exc := by
  have hphase := h.phase
  unfold PhaseSound at hphase
  cases hs : s.phase with
  | writing => exact .inl rfl
  | raised exc => exact .inr ⟨exc, rfl⟩
  | _ =>
    simp only [hs] at hphase
    rw [hphase] at hrunning
    exact hrunning.elim

/-- **An undisturbed step of the thread.** -/
theorem Sound.next_thread {e : Event} (h : Sound S c s) (hok : Undisturbed s e)
    (hstep : step S c s e = some t) (he : e.OfThread) : Sound S c t := by
  have hfile := h.file
  obtain ⟨hrunning, hphase, hrows⟩ := eq_of_thread hstep he
  refine ⟨?_, ?_, ?_⟩
  · cases e with
    | opens =>
      simp only [step] at hstep
      split at hstep
      · next hw =>
        split_ifs at hstep with hnone
        obtain rfl := Option.some.inj hstep
        simp only [FileSound, hw] at hfile
        refine ⟨hfile ▸ hnone, ?_⟩
        rw [files_setFile]
        exact Option.some_ne_none _
      · cases hstep
    | openFails =>
      simp only [step] at hstep
      split at hstep <;> cases hstep
      next hw => simpa only [FileSound, hw] using hfile
    | writes =>
      simp only [step] at hstep
      split at hstep <;> cases hstep
      next hw =>
        simp only [FileSound, hw] at hfile
        exact ⟨hfile.1, files_setFile _⟩
    | writeFails length =>
      simp only [step] at hstep
      split at hstep <;> cases hstep
      next hw =>
        simp only [FileSound, hw] at hfile
        refine ⟨hfile.1, ?_⟩
        rw [files_setFile]
        exact Option.some_ne_none _
    | syncs =>
      simp only [step] at hstep
      split at hstep <;> cases hstep
      next hw =>
        simp only [FileSound, hw] at hfile
        refine ⟨hfile.1, ?_⟩
        cases hs : s.phase with
        | raised exc => exact absurd hs (hok exc)
        | _ => exact hfile.2
    | syncFails =>
      simp only [step] at hstep
      split at hstep <;> cases hstep
      next hw =>
        simp only [FileSound, hw] at hfile
        refine ⟨hfile.1, ?_⟩
        rw [hfile.2]
        exact Option.some_ne_none _
    | removes =>
      simp only [step] at hstep
      split at hstep <;> cases hstep
      next hw =>
        simp only [FileSound, hw] at hfile
        exact (files_setFile _).trans hfile.1.symm
    | removeFails => exact hok.elim
    | dropped =>
      simp only [step] at hstep
      split at hstep <;> cases hstep
      next hw _ => simpa only [FileSound, hw] using hfile
    | _ => exact he.elim
  · have hrow := h.row
    unfold RowSound at hrow ⊢
    rwa [hphase, hrows]
  · unfold PhaseSound
    obtain hs | ⟨exc, hs⟩ := h.attended hrunning <;> rw [hphase, hs]
    all_goals trivial

/-- The coroutine raises before the thread runs, and may leave a work item. -/
theorem Sound.raise (h : Sound S c s) (hs : s.phase = .created) (exc : Failure) {worker : Worker}
    (hw : worker = .queued ∨ worker = s.worker) :
    Sound S c { s with phase := .raised exc, worker := worker } := by
  obtain ⟨hfile, hrow, hphase⟩ := h
  simp only [RowSound, PhaseSound, hs] at hrow hphase
  simp only [FileSound, hphase] at hfile
  rw [hphase] at hw
  refine ⟨?_, hrow, trivial⟩
  rcases hw with rfl | rfl <;> exact hfile

/-- A step of the coroutine behind the `await`, other than its last one. -/
theorem Sound.coroutine (h : Sound S c s) (hsucceeded : s.worker = .succeeded)
    (hs : ∀ exc, s.phase ≠ .raised exc) (ht : ∀ exc, t.phase ≠ .raised exc)
    (hworker : t.worker = s.worker) (hfiles : t.files = s.files) (hrow : RowSound S c t)
    (hcreated : t.phase ≠ .created) : Sound S c t := by
  refine ⟨?_, hrow, ?_⟩
  · have hfile := h.file
    simp only [FileSound, hworker, hsucceeded, hfiles] at hfile ⊢
    refine ⟨hfile.1, ?_⟩
    cases hsp : s.phase with
    | raised exc => exact absurd hsp (hs exc)
    | _ =>
      cases htp : t.phase with
      | raised exc => exact absurd htp (ht exc)
      | _ => exact hfile.2
  · unfold PhaseSound
    cases htp : t.phase with
    | created => exact absurd htp hcreated
    | writing | raised => trivial
    | _ => exact hworker.trans hsucceeded

/-- **An undisturbed step.** -/
theorem Sound.next {e : Event} (h : Sound S c s) (hok : Undisturbed s e)
    (hstep : step S c s e = some t) : Sound S c t := by
  have hfile := h.file
  have hrow := h.row
  have hphase := h.phase
  cases e with
  | starts =>
    simp only [step] at hstep
    split at hstep <;> cases hstep
    next hs =>
      simp only [RowSound, PhaseSound, hs] at hrow hphase
      simp only [FileSound, hphase] at hfile
      exact ⟨hfile, hrow, trivial⟩
  | startFails queued =>
    simp only [step] at hstep
    split at hstep <;> cases hstep
    next hs =>
      refine h.raise hs .start ?_
      cases queued
      · exact .inr rfl
      · exact .inl rfl
  | resumes =>
    simp only [step] at hstep
    split at hstep <;> cases hstep
    · next hs hw =>
      simp only [RowSound, hs] at hrow
      exact h.coroutine hw (by simp [hs]) (by simp) rfl rfl hrow Phase.noConfusion
    · next hs hw =>
      -- what the thread has raised is raised here
      simp only [FileSound, RowSound, hs, hw] at hfile hrow
      exact ⟨by simpa only [FileSound, hw] using hfile, hrow, trivial⟩
  | cancel =>
    simp only [step] at hstep
    split at hstep <;> cases hstep
    · next hs => exact h.raise hs .cancelled (.inr rfl)
    · next hs =>
      simp only [RowSound, hs] at hrow
      refine ⟨?_, hrow, trivial⟩
      simp only [FileSound] at hfile ⊢
      cases hw : s.worker with
      | succeeded => exact absurd hw hok
      | _ => simpa only [hw] using hfile
  | inserts now =>
    simp only [step] at hstep
    split at hstep
    · next hs =>
      split_ifs at hstep with hnone
      obtain rfl := Option.some.inj hstep
      simp only [RowSound, PhaseSound, hs] at hrow hphase
      exact h.coroutine hphase (by simp [hs]) (by simp) rfl rfl ⟨⟨now, rfl⟩, hrow, hrow ▸ hnone⟩
        Phase.noConfusion
    · cases hstep
  | insertFails =>
    simp only [step] at hstep
    split at hstep <;> cases hstep
    next hs =>
      simp only [RowSound, PhaseSound, hs] at hrow hphase
      exact h.coroutine hphase (by simp [hs]) (by simp) rfl rfl hrow Phase.noConfusion
  | commits =>
    simp only [step] at hstep
    split at hstep
    · next r hs =>
      obtain ⟨rows, hinsert, rfl⟩ := Option.map_eq_some_iff.1 hstep
      simp only [RowSound, PhaseSound, hs] at hrow hphase
      obtain ⟨⟨now, rfl⟩, -⟩ := hrow
      exact h.coroutine hphase (by simp [hs]) (by simp) rfl rfl
        ⟨now, (find?_insertRow hinsert).2⟩ Phase.noConfusion
    · cases hstep
  | commitFails durable =>
    obtain rfl : durable = false := hok
    simp only [step, Bool.false_eq_true, if_false] at hstep
    split at hstep <;> cases hstep
    next r hs =>
      simp only [RowSound, PhaseSound, hs] at hrow hphase
      exact h.coroutine hphase (by simp [hs]) (by simp) rfl rfl hrow.2.1 Phase.noConfusion
  | unlinks =>
    simp only [step] at hstep
    split at hstep <;> cases hstep
    next hs =>
      simp only [FileSound, RowSound, PhaseSound, hs] at hfile hrow hphase
      simp only [hphase] at hfile
      refine ⟨?_, hrow, trivial⟩
      simp only [FileSound, State.setFile, hphase]
      exact ⟨hfile.1, files_setFile _⟩
  | unlinkFails => exact hok.elim
  | others rows files =>
    obtain ⟨hphase', hworker, hrows, hfiles⟩ := eq_of_others hstep
    refine ⟨?_, ?_, ?_⟩
    · unfold FileSound at hfile ⊢
      rwa [hworker, hphase', hfiles]
    · unfold RowSound at hrow ⊢
      rwa [hphase', hrows]
    · unfold PhaseSound at hphase ⊢
      rwa [hphase', hworker]
  | _ => exact h.next_thread hok hstep trivial

/-- A payload for which nobody cares is left behind. -/
theorem leavesFile_of_payload
    (hfile : c.files (c.stagedPath S) = none ∧ s.files (c.stagedPath S) = some c.chunk.payload)
    (hphase : ∃ exc, s.phase = .raised exc) (hw : ¬ s.worker.Running) : LeavesFile S c s := by
  refine ⟨?_, .inr ⟨hphase, hw⟩⟩
  rw [hfile.2, hfile.1]
  exact Option.some_ne_none _

/-- What a step leaves behind that is not undisturbed. -/
theorem Sound.leaves {e : Event} (h : Sound S c s) (hdisturbed : ¬ Undisturbed s e)
    (hstep : step S c s e = some t) : LeavesFile S c t ∨ LeavesRow c t := by
  have hfile := h.file
  have hphase := h.phase
  cases e with
  | cancel =>
    have hw : s.worker = .succeeded := not_not.1 hdisturbed
    simp only [step] at hstep
    split at hstep <;> cases hstep
    · next hs =>
      simp only [PhaseSound, hs, hw] at hphase
      cases hphase
    · next hs =>
      simp only [FileSound, hw, hs] at hfile
      exact .inl (leavesFile_of_payload hfile ⟨_, rfl⟩ (by rw [hw]; exact id))
  | syncs =>
    have hs : ∃ exc, s.phase = .raised exc := by
      by_contra hnone
      exact hdisturbed fun exc hexc => hnone ⟨exc, hexc⟩
    simp only [step] at hstep
    split at hstep <;> cases hstep
    next hw =>
      simp only [FileSound, hw] at hfile
      exact .inl (leavesFile_of_payload hfile hs id)
  | removeFails =>
    simp only [step] at hstep
    split at hstep <;> cases hstep
    next hw =>
      simp only [FileSound, hw] at hfile
      refine .inl ⟨by rw [hfile.1]; exact hfile.2, ?_⟩
      rcases h.attended (by rw [hw]; trivial) with hs | hs
      · exact .inl ⟨hs, rfl⟩
      · exact .inr ⟨hs, id⟩
  | unlinkFails =>
    simp only [step] at hstep
    split at hstep <;> cases hstep
    next hs =>
      simp only [FileSound, PhaseSound, hs] at hfile hphase
      simp only [hphase] at hfile
      exact .inl (leavesFile_of_payload hfile ⟨_, rfl⟩ (by rw [hphase]; exact id))
  | commitFails durable =>
    obtain rfl : durable = true := Bool.not_eq_false _ ▸ hdisturbed
    have hrow := h.row
    simp only [step, if_true] at hstep
    split at hstep
    · next r hs =>
      obtain ⟨rows, hinsert, rfl⟩ := Option.map_eq_some_iff.1 hstep
      simp only [RowSound, hs] at hrow
      obtain ⟨⟨now, rfl⟩, -, hnone⟩ := hrow
      refine .inr ⟨?_, .inl rfl⟩
      rw [show rows.find? c.id = _ from (find?_insertRow hinsert).2, hnone]
      exact Option.some_ne_none _
    · cases hstep
  | _ => exact absurd trivial hdisturbed

/-- A file that is left behind stays. -/
theorem LeavesFile.next {e : Event} (h : LeavesFile S c s) (hstep : step S c s e = some t) :
    LeavesFile S c t := by
  obtain ⟨hfile, hover⟩ := h
  cases e with
  | others rows files =>
    obtain ⟨hphase, hworker, -, hfiles⟩ := eq_of_others hstep
    unfold LeavesFile
    rw [hphase, hworker, hfiles]
    exact ⟨hfile, hover⟩
  | cancel =>
    rcases hover with ⟨hs, hw⟩ | ⟨⟨exc, hs⟩, -⟩ <;> simp only [step, hs, reduceCtorEq] at hstep
    obtain rfl := Option.some.inj hstep
    exact ⟨hfile, .inr ⟨⟨_, rfl⟩, by rw [hw]; exact id⟩⟩
  | resumes =>
    rcases hover with ⟨hs, hw⟩ | ⟨⟨exc, hs⟩, -⟩ <;> simp only [step, hs, reduceCtorEq] at hstep
    simp only [hw] at hstep
    obtain rfl := Option.some.inj hstep
    exact ⟨hfile, .inr ⟨⟨_, rfl⟩, id⟩⟩
  | opens | openFails | writes | writeFails | syncs | syncFails | removes | removeFails | dropped =>
    -- the thread has no step to take
    have hrunning := (eq_of_thread hstep trivial).1
    rcases hover with ⟨-, hw⟩ | ⟨-, hw⟩
    · rw [hw] at hrunning
      exact hrunning.elim
    · exact absurd hrunning hw
  | _ => rcases hover with ⟨hs, -⟩ | ⟨⟨exc, hs⟩, -⟩ <;> simp only [step, hs, reduceCtorEq] at hstep

/-- So does a row. -/
theorem LeavesRow.next {e : Event} (h : LeavesRow c s) (hstep : step S c s e = some t) :
    LeavesRow c t := by
  obtain ⟨hrow, hphase⟩ := h
  cases e with
  | others rows files =>
    obtain ⟨hphase', -, hrows, -⟩ := eq_of_others hstep
    unfold LeavesRow
    rw [hphase', hrows]
    exact ⟨hrow, hphase⟩
  | opens | openFails | writes | writeFails | syncs | syncFails | removes | removeFails | dropped =>
    obtain ⟨-, hphase', hrows⟩ := eq_of_thread hstep trivial
    unfold LeavesRow
    rw [hphase', hrows]
    exact ⟨hrow, hphase⟩
  | unlinks | unlinkFails =>
    rcases hphase with hs | ⟨exc, hs⟩ <;> simp only [step, hs, reduceCtorEq] at hstep
    obtain rfl := Option.some.inj hstep
    exact ⟨hrow, .inr ⟨_, rfl⟩⟩
  | _ => rcases hphase with hs | ⟨exc, hs⟩ <;> simp only [step, hs, reduceCtorEq] at hstep

/-- **The promise is kept** at the end of an undisturbed run, and of no other: it is broken by
a cancellation once the file is written, by the thread of a call that has raised when it
writes the file, by a file that cannot be removed and by a commit that is not reported. -/
theorem kept_iff (S : Setting) (c : Call) {es : List Event} {t : State}
    (hrun : exec (step S c) c.start es = some t) (hover : t.Over) :
    Kept S c t ↔ AllSteps (step S c) Undisturbed c.start es := by
  have hcases := allSteps_cases (I := Sound S c) (B := fun s => LeavesFile S c s ∨ LeavesRow c s)
    (fun s e t hs hstep hok => hs.next hok hstep)
    (fun s e t hs hstep hno => hs.leaves hno hstep)
    (fun s e t hs hstep => hs.imp (fun h => h.next hstep) fun h => h.next hstep)
    sound_start hrun
  rcases hcases with ⟨hsteps, ht⟩ | ⟨hsteps, ht⟩
  · exact iff_of_true (ht.kept hover) hsteps
  · exact iff_of_false (ht.elim (fun h => h.not_kept hover) fun h => h.not_kept) hsteps

/-- A call for tests, with nothing there before it. -/
def firstCall : Call where
  chunk := ⟨"tenant-1", "manifests/1", [1, 2, 3]⟩
  id := 7
  rows := .empty
  files _ := none

/-- A setting for tests. -/
def utcSetting : Setting := { utc := id, keyTag := id }

/-- Nothing goes wrong. -/
def enqueued : List Event := [.starts, .opens, .writes, .syncs, .resumes, .inserts 0, .commits]

theorem allSteps_enqueued :
    ∃ t, exec (step utcSetting firstCall) firstCall.start enqueued = some t ∧
      Kept utcSetting firstCall t ∧
      AllSteps (step utcSetting firstCall) Undisturbed firstCall.start enqueued := by
  have hend : ∃ t, exec (step utcSetting firstCall) firstCall.start enqueued = some t ∧ t.Over ∧
      Kept utcSetting firstCall t :=
    ⟨_, rfl, ⟨.inl rfl, id⟩, fun _ => ⟨0, by decide, by decide⟩, fun hne => absurd rfl hne⟩
  obtain ⟨t, hrun, hover, hkept⟩ := hend
  exact ⟨t, hrun, hkept, (kept_iff utcSetting firstCall hrun hover).1 hkept⟩

/-- The task is cancelled while the thread writes. -/
def cancelledEarly : List Event := [.starts, .opens, .writes, .cancel, .syncs]

/-- The file is left behind. -/
theorem not_kept_cancelledEarly : ¬ ∀ (S : Setting) (c : Call) (es : List Event) (t : State),
    exec (step S c) c.start es = some t → t.Over → Kept S c t := by
  intro h
  have hkept := h utcSetting firstCall cancelledEarly _ rfl ⟨.inr ⟨_, rfl⟩, id⟩
  exact absurd (hkept.2 (by decide)).1 (by decide)

end Enqueue
end Boveda

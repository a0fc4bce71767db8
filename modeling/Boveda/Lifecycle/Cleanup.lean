/-
# The cleanup of interrupted snapshots

`cleanup_in_progress_snapshots` and `abort_multipart_upload` (`src/boveda/storage.py`).
The loop asks the object store to abort the upload of each snapshot that is `RUNNING`,
marks it `FAILED` in the session, and one commit ends it.  `abort_multipart_upload`
logs a `ClientError` and goes on; a connection error, which `upload_part` next to it
takes for one that may pass, leaves it and the loop, and with it the marks of every
snapshot, those before it included (`cleanup_stops`).  So the snapshots are cleaned up
exactly when no abort that is asked for finds the store out of reach (`cleanedUp_iff`).
-/

import Boveda.Lifecycle.Commands
import Boveda.Lib.Loop

namespace Boveda
namespace Lifecycle

open Lib Catalog

/-- What `s3_client.abort_multipart_upload` comes to: it returns, or raises `ClientError`,
or `EndpointConnectionError` or `ConnectionError`. -/
inductive AbortReply
  | aborted | clientError | connectionError
  deriving DecidableEq, Repr

/-- A session, and the calls of `s3_client.abort_multipart_upload` so far, with their `Key`
and `UploadId`. -/
structure Cleanup where
  session : Session
  calls : List (String × String) := []

/-- `abort_multipart_upload`. -/
def abortMultipartUpload (reply : AbortReply) (key uploadId : String) (w : Cleanup) :
    Except Cleanup Cleanup :=
  let w := { w with calls := w.calls ++ [(key, uploadId)] }
  match reply with
  | .aborted => .ok w
  | .clientError => .ok w
  | .connectionError => .error w

/-- `f"snapshots/{snap.id}/data"`. -/
def multipartKey (id : String) : String := "snapshots/" ++ id ++ "/data"

/-- `if snap.multipart_upload_id:`, which takes an empty text for none. -/
def uploadIdOf (snap : Snapshot) : Option String :=
  snap.multipartUploadId.filter fun uploadId => uploadId ≠ ""

/-- What the cleanup writes into a row. -/
def interrupted (snap : Snapshot) : Snapshot :=
  { snap with
    estado := .failed
    errorDetail := some "Proceso interrumpido abruptamente (crash/OOM kill previo)" }

/-- The row of a snapshot in the session. -/
def interruptRow (w : Cleanup) (snap : Snapshot) : Cleanup :=
  { w with session := { w.session with
      pending := updateSnapshots (fun s => s.id = snap.id) interrupted (fun _ => rfl)
        w.session.pending } }

/-- One round of the loop. -/
def cleanupRound (replies : String → AbortReply) (w : Cleanup) (snap : Snapshot) :
    Except Cleanup Cleanup :=
  match uploadIdOf snap with
  | none => .ok (interruptRow w snap)
  | some uploadId =>
    match abortMultipartUpload (replies snap.id) (multipartKey snap.id) uploadId w with
    | .error w => .error w
    | .ok w => .ok (interruptRow w snap)

/-- `cleanup_in_progress_snapshots`, with what the store replies about each snapshot. -/
def cleanup (replies : String → AbortReply) (c : Catalog) : Except Cleanup Cleanup :=
  let stale := c.snapshots.rows.filter fun snap => snap.estado = .running
  match stale.foldlM (cleanupRound replies) ⟨.begin c, []⟩ with
  | .error w => .error w
  | .ok w => .ok { w with session := w.session.commit }

/-- What the cleanup of a catalog is to leave: each `RUNNING` snapshot is `FAILED`, with
an `error_detail`, every other one is as it was, and the upload of each that has one was
to be aborted. -/
structure CleanedUp (c : Catalog) (w : Cleanup) : Prop where
  notRunning : ∀ s ∈ w.session.close.snapshots.rows, s.estado ≠ .running
  rows : w.session.close.snapshots.rows =
    c.snapshots.rows.map fun s => if s.estado = .running then interrupted s else s
  attempted : ∀ s ∈ c.snapshots.rows, s.estado = .running → ∀ uploadId ∈ uploadIdOf s,
    (multipartKey s.id, uploadId) ∈ w.calls

/-- The store can be reached for the upload of the snapshot, if it has one. -/
def Answers (replies : String → AbortReply) (snap : Snapshot) : Prop :=
  (uploadIdOf snap).isSome → replies snap.id ≠ .connectionError

variable {replies : String → AbortReply} {c : Catalog} {w : Cleanup} {snap : Snapshot}

/-- The call that a round makes, and its row. -/
def cleanRow (w : Cleanup) (snap : Snapshot) : Cleanup :=
  interruptRow { w with
    calls := w.calls ++ ((uploadIdOf snap).map fun u => (multipartKey snap.id, u)).toList } snap

theorem cleanupRound_ok (h : Answers replies snap) (w : Cleanup) :
    cleanupRound replies w snap = .ok (cleanRow w snap) := by
  unfold cleanupRound cleanRow
  cases hid : uploadIdOf snap with
  | none => simp
  | some uploadId =>
    have hreply := h (by rw [hid]; rfl)
    cases hr : replies snap.id with
    | aborted => rfl
    | clientError => rfl
    | connectionError => exact absurd hr hreply

theorem cleanupRound_error (h : ¬ Answers replies snap) (w : Cleanup) :
    ∃ w', cleanupRound replies w snap = .error w' := by
  simp only [Answers, Classical.not_imp, not_not] at h
  obtain ⟨hid, hreply⟩ := h
  obtain ⟨uploadId, hid⟩ := Option.isSome_iff_exists.1 hid
  unfold cleanupRound
  rw [hid]
  simp only [abortMultipartUpload, hreply]
  exact ⟨_, rfl⟩

/-- No round writes to the file. -/
theorem persisted_cleanupRound (replies : String → AbortReply) (w : Cleanup) (snap : Snapshot) :
    (ended (cleanupRound replies w snap)).session.persisted = w.session.persisted := by
  by_cases h : Answers replies snap
  · rw [cleanupRound_ok h]
    rfl
  · unfold cleanupRound
    split
    · rfl
    · unfold abortMultipartUpload
      split <;> next heq => split at heq <;> cases heq <;> rfl

/-- **A connection error stops the cleanup**, and the file is as it was. -/
theorem cleanup_stops (replies : String → AbortReply) (hsnap : snap ∈ c.snapshots.rows)
    (hrun : snap.estado = .running) (h : ¬ Answers replies snap) :
    ∃ w, cleanup replies c = .error w ∧ w.session.close = c := by
  have hstale : snap ∈ c.snapshots.rows.filter fun s => s.estado = .running :=
    List.mem_filter.2 ⟨hsnap, decide_eq_true hrun⟩
  obtain ⟨w, hw⟩ : ∃ w, (c.snapshots.rows.filter fun s => s.estado = .running).foldlM
      (cleanupRound replies) ⟨.begin c, []⟩ = .error w :=
    exists_foldlM_eq_error hstale (cleanupRound_error h)
  have hpersisted := ended_foldlM (fun w : Cleanup => w.session.persisted)
    (persisted_cleanupRound replies) (c.snapshots.rows.filter fun s => s.estado = .running)
    ⟨.begin c, []⟩
  rw [hw] at hpersisted
  exact ⟨w, by rw [cleanup, hw], hpersisted⟩

/-- The rows that the loop leaves in the session. -/
theorem rows_foldl_cleanRow (ls : List Snapshot) (w : Cleanup) :
    (ls.foldl cleanRow w).session.pending.snapshots.rows =
      w.session.pending.snapshots.rows.map fun s =>
        if s.id ∈ ls.map Snapshot.id then interrupted s else s := by
  induction ls generalizing w with
  | nil => simp
  | cons snap ls ih =>
    have hrow : (cleanRow w snap).session.pending.snapshots.rows =
        w.session.pending.snapshots.rows.map fun s =>
          if s.id = snap.id then interrupted s else s := by
      simp [cleanRow, interruptRow, updateSnapshots, Table.update]
    rw [List.foldl_cons, ih, hrow, List.map_map]
    refine List.map_congr_left fun s _ => ?_
    simp only [Function.comp_apply, List.map_cons, List.mem_cons]
    by_cases hs : s.id = snap.id
    · rw [if_pos hs, if_pos (Or.inl hs)]
      exact ite_id (interrupted s)
    · rw [if_neg hs]
      simp only [hs, false_or]

/-- The calls that the loop makes. -/
theorem mem_calls_foldl_cleanRow {ls : List Snapshot} {call : String × String} (w : Cleanup) :
    call ∈ (ls.foldl cleanRow w).calls ↔ call ∈ w.calls ∨
      ∃ s ∈ ls, ∃ uploadId ∈ uploadIdOf s, (multipartKey s.id, uploadId) = call := by
  induction ls generalizing w with
  | nil => simp
  | cons snap ls ih =>
    rw [List.foldl_cons, ih]
    simp [cleanRow, interruptRow, or_assoc]

/-- A row has the id of a `RUNNING` one exactly when it is `RUNNING` itself. -/
theorem mem_staleIds {s : Snapshot} (hs : s ∈ c.snapshots.rows) :
    s.id ∈ (c.snapshots.rows.filter fun r => r.estado = .running).map Snapshot.id ↔
      s.estado = .running := by
  simp only [List.mem_map, List.mem_filter, decide_eq_true_eq]
  constructor
  · rintro ⟨r, ⟨hr, hrun⟩, hid⟩
    have hfind := Table.find?_of_mem hr
    rw [hid, Table.find?_of_mem hs] at hfind
    exact Option.some.inj hfind ▸ hrun
  · exact fun hrun => ⟨s, ⟨hs, hrun⟩, rfl⟩

/-- **When no connection error comes up** the cleanup returns, and its one commit is that
of `cleanupInProgressSnapshots`. -/
theorem cleanup_returns (h : ∀ s ∈ c.snapshots.rows, s.estado = .running → Answers replies s) :
    ∃ w, cleanup replies c = .ok w ∧ CleanedUp c w ∧
      w.session.close.snapshots.rows = (cleanupInProgressSnapshots c).snapshots.rows := by
  have hloop := foldlM_eq_ok (s := (⟨.begin c, []⟩ : Cleanup)) fun s hs =>
    cleanupRound_ok (h s (List.mem_filter.1 hs).1 (of_decide_eq_true (List.mem_filter.1 hs).2))
  have hrows : ((c.snapshots.rows.filter fun r => r.estado = .running).foldl cleanRow
      ⟨.begin c, []⟩).session.pending.snapshots.rows =
        c.snapshots.rows.map fun s => if s.estado = .running then interrupted s else s := by
    rw [rows_foldl_cleanRow]
    exact List.map_congr_left fun s hs => if_congr (mem_staleIds hs) rfl rfl
  refine ⟨_, by rw [cleanup, hloop], ⟨fun s hs => ?_, ?_, fun s hs hrun uploadId hid => ?_⟩, ?_⟩
  · rw [Session.close, Session.commit, hrows] at hs
    obtain ⟨r, -, rfl⟩ := List.mem_map.1 hs
    split_ifs with hrun
    · exact Estado.noConfusion
    · exact hrun
  · rw [Session.close, Session.commit, hrows]
  · rw [mem_calls_foldl_cleanRow]
    exact .inr ⟨s, List.mem_filter.2 ⟨hs, decide_eq_true hrun⟩, uploadId, hid, rfl⟩
  · rw [Session.close, Session.commit, hrows]
    simp [cleanupInProgressSnapshots, updateSnapshots, Table.update, interrupted]

/-- **Exactly when the interrupted snapshots are cleaned up**: the store can be reached
for each of them that has an upload. -/
theorem cleanedUp_iff (replies : String → AbortReply) (c : Catalog) :
    CleanedUp c (ended (cleanup replies c)) ↔
      ∀ s ∈ c.snapshots.rows, s.estado = .running → Answers replies s := by
  constructor
  · intro h s hs hrun
    by_contra hno
    obtain ⟨w, hw, hclosed⟩ := cleanup_stops replies hs hrun hno
    rw [hw] at h
    have hstill := h.notRunning
    simp only [ended, hclosed] at hstill
    exact hstill s hs hrun
  · intro h
    obtain ⟨w, hw, hclean, -⟩ := cleanup_returns h
    rw [hw]
    exact hclean

/-- Two backups that were interrupted, the second with an upload. -/
def interruptedTwice : Catalog :=
  { Catalog.empty with
    snapshots := ⟨[runningSnapshot "snap-1",
      { runningSnapshot "snap-2" with multipartUploadId := some "up-2" }], by decide⟩ }

/-- **One abort that finds no connection leaves every snapshot `RUNNING`.** -/
theorem not_cleanedUp_interruptedTwice : ¬ CleanedUp interruptedTwice
    (ended (cleanup (fun _ => .connectionError) interruptedTwice)) := by
  intro h
  have hmem : { runningSnapshot "snap-2" with multipartUploadId := some "up-2" } ∈
      interruptedTwice.snapshots.rows := by decide +kernel
  obtain ⟨w, hw, hclosed⟩ := cleanup_stops (fun _ => .connectionError) hmem rfl
    fun hanswers => hanswers (by decide +kernel) rfl
  rw [hw] at h
  have hstill := h.notRunning
  simp only [ended, hclosed] at hstill
  exact hstill _ hmem rfl

end Lifecycle
end Boveda

/-
# The commands that write the state of a snapshot

`backup` of `src/boveda/cli.py`, `purge_expired_snapshots`
(`Boveda.Retention.Purge`), which a backup also calls at its end, and
`cleanup_in_progress_snapshots` of `src/boveda/storage.py`.  Any number of them run
side by side over one catalog.  A step is one committed transaction or one call,
and every call may raise instead of returning.

| phase of a backup | what comes next |
| --- | --- |
| `start` | the commit of the new snapshot, `RUNNING` |
| `running` | `asyncio.run(run_pipeline())`, with the transactions of its blocks |
| `streamed` | the commit of `COMPLETED` |
| `completed` | `click.echo` and the webhook |
| `handler` | the `except` around them: `rollback`, `get` and the commit of `FAILED` |
| `reported` | its `click.echo` and its webhook |
| `purging` | `purge_expired_snapshots` |
| `outer` | the `except` of the command: its commit of `FAILED` |
| `closed` | `session.close()` |

A process that is killed takes no further step.  With the `begin` listener of
`get_engine` the first transaction of a block always raises
(`uploadCallback_getEngine`); the steps `prepare`, `put` and `link` are there for
what the pipeline is meant to do.
-/

import Boveda.Lib.Runs
import Boveda.Lifecycle.Fsm

namespace Boveda
namespace Lifecycle

open Lib Catalog

/-- `cleanup_in_progress_snapshots`, when no call of it raises. -/
def cleanupInProgressSnapshots (c : Catalog) : Catalog :=
  updateSnapshots (fun snap => snap.estado = .running)
    (fun snap => { snap with
      estado := .failed
      errorDetail := some "Proceso interrumpido abruptamente (crash/OOM kill previo)" })
    (fun _ => rfl) c

/-- What a backup commits when its pipeline has returned. -/
def setCompleted (id : String) (now : Time) (c : Catalog) : Catalog :=
  updateSnapshots (fun s => s.id = id)
    (fun s => { s with estado := .completed, completedAt := some now }) (fun _ => rfl) c

/-- Where a backup stands.  `committed` says whether it has committed `COMPLETED`,
`held` whether its variable `snapshot` is still an object, and `clean` whether its
session can commit without a `rollback`. -/
inductive BackupPhase
  | start
  | running
  | streamed
  | completed
  | handler (error : String) (committed : Bool)
  | reported (committed held : Bool)
  | purging (committed held : Bool) (phase : Retention.Phase)
  | outer (error : String) (clean committed held : Bool)
  | closed
  deriving DecidableEq, Repr

/-- A run of `backup`. -/
structure Backup where
  id : String := ""
  phase : BackupPhase := .start

/-- The steps of a backup. -/
inductive BackupEvent
  | create (s : Snapshot)
  | prepare (now : Time) (cHash : String) (payloadLen : ℤ)
  | put (key : String) (payload : Bytes)
  | link (now : Time) (seq : ℤ) (cHash : String)
  | streamReturns
  | complete (now : Time)
  | report
  | fail
  | commitRaises (error : String)
  | purge (e : Retention.Event)
  | raises (error : String)

/-- The text of the exception that a purge lets out. -/
def raisedText : Retention.Event → String
  | .raises error => error
  | _ => ""

/-- After the step of a purge that a backup has called. -/
def afterPurge (before : Retention.Phase) (e : Retention.Event) (committed held : Bool) :
    Retention.Phase → BackupPhase
  | .returned => .closed
  -- what raises at the head of the loop is the commit of `PURGING`
  | .raised => .outer (raisedText e) (match before with | .next _ _ => false | _ => true)
      committed held
  | phase => .purging committed held phase

/-- `backup`, step by step.  `uuid.uuid4()` draws no id of `used`. -/
def Backup.step (used : List String) (w : Store) (b : Backup) : BackupEvent → Option (Store × Backup)
  | .create s =>
    match b.phase with
    | .start =>
      if s.estado = .running ∧ s.id ∉ used then
        match insertSnapshot s w.cat with
        | .ok cat => some ({ w with cat }, ⟨s.id, .running⟩)
        | .error _ => none
      else none
    | _ => none
  | .prepare now cHash payloadLen =>
    match b.phase, dbCheckAndPrepare now cHash payloadLen w.cat with
    | .running, .ok (cat, _, _) => some ({ w with cat }, b)
    | _, _ => none
  | .put key payload =>
    match b.phase with
    | .running => some ({ w with s3 := putObject key payload w.s3 }, b)
    | _ => none
  | .link now seq cHash =>
    match b.phase, saveChunkRef now b.id seq cHash w.cat with
    | .running, .ok cat => some ({ w with cat }, b)
    | _, _ => none
  | .streamReturns =>
    match b.phase with
    | .running => some (w, { b with phase := .streamed })
    | _ => none
  | .complete now =>
    match b.phase with
    | .streamed =>
      -- a row that is gone is a `StaleDataError`
      if (w.cat.snapshots.find? b.id).isSome then
        some ({ w with cat := setCompleted b.id now w.cat }, { b with phase := .completed })
      else none
    | _ => none
  | .report =>
    match b.phase with
    | .completed => some (w, { b with phase := .purging true true .start })
    | .reported committed held => some (w, { b with phase := .purging committed held .start })
    | _ => none
  | .fail =>
    match b.phase with
    | .handler error committed =>
      some ({ w with cat := Retention.setFailure b.id .failed error w.cat },
        { b with phase := .reported committed (w.cat.snapshots.find? b.id).isSome })
    | .outer error clean _ held =>
      if held then
        if clean ∧ (w.cat.snapshots.find? b.id).isSome then
          some ({ w with cat := Retention.setFailure b.id .failed error w.cat },
            { b with phase := .closed })
        else none
      else some (w, { b with phase := .closed })
    | _ => none
  | .commitRaises error =>
    match b.phase with
    | .handler _ committed => some (w, { b with phase := .outer error false committed true })
    | _ => none
  | .purge e =>
    match b.phase with
    | .purging committed held phase =>
      (Retention.step w phase e).map fun (w', phase') =>
        (w', { b with phase := afterPurge phase e committed held phase' })
    | _ => none
  | .raises error =>
    match b.phase with
    | .start => some (w, { b with phase := .closed })
    | .running => some (w, { b with phase := .handler error false })
    | .streamed => some (w, { b with phase := .handler error false })
    | .completed => some (w, { b with phase := .handler error true })
    | .handler _ committed => some (w, { b with phase := .outer error true committed true })
    | .reported committed held => some (w, { b with phase := .outer error true committed held })
    | .outer _ _ _ _ => some (w, { b with phase := .closed })
    | .purging _ _ _ => none
    | .closed => none

/-- The commands of a catalog.  `used` are the ids that it has held. -/
structure World where
  store : Store
  used : List String
  backups : ℕ → Backup
  purges : ℕ → Retention.Phase

/-- A catalog before any command. -/
def World.init (w : Store) : World where
  store := w
  used := w.cat.snapshots.rows.map Snapshot.id
  backups _ := {}
  purges _ := .start

/-- A step of one of the commands. -/
inductive Event
  | backup (n : ℕ) (e : BackupEvent)
  | purge (n : ℕ) (e : Retention.Event)
  | cleanup

/-- The ids that a step draws. -/
def drawn : BackupEvent → List String
  | .create s => [s.id]
  | _ => []

/-- One step of one command. -/
def step (w : World) : Event → Option World
  | .backup n e =>
    ((w.backups n).step w.used w.store e).map fun (store, b) =>
      { w with
        store
        used := drawn e ++ w.used
        backups := Function.update w.backups n b }
  | .purge n e =>
    (Retention.step w.store (w.purges n) e).map fun (store, phase) =>
      { w with store, purges := Function.update w.purges n phase }
  | .cleanup =>
    some { w with store := { w.store with cat := cleanupInProgressSnapshots w.store.cat } }

end Lifecycle
end Boveda

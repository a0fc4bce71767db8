/-
# `purge_expired_snapshots`

`src/boveda/retention.py`.  The run of the function is a state machine: between
two steps it has committed or called the object store, and the phase says where
it stands.  A session begins its transactions with `BEGIN IMMEDIATE`, so that
what it reads and what it commits is one step.

| phase | what comes next |
| --- | --- |
| `start` | the `SELECT` of the expired snapshots, and the commit of the first `PURGING` |
| `next` | the commit of the next `PURGING` |
| `unlink` | the links and the snapshot are deleted |
| `twoPhase` | phase 1 of `execute_two_phase_purge` |
| `deleting` | the call of `delete_objects_callback` |
| `confirm`, `revert` | phase 2 |
| `failed` | the exception handler of the loop |
| `logging` | its `log.error` |

Every call may raise, and what SQLite or SQLAlchemy refuses does raise: the step
itself is then not possible.
-/

import Boveda.Catalog.History

namespace Boveda
namespace Retention

open Lib Catalog

/-- The default of `batch_size`. -/
def batchSize : ℕ := 500

/-- `str(e)[:500]`. -/
def errorText (error : String) : String := String.ofList (error.toList.take 500)

/-- `SELECT … FROM snapshots WHERE estado = 'EXPIRED'`. -/
def expiredIds (c : Catalog) : List String :=
  (c.snapshots.rows.filter fun s => s.estado = .expired).map Snapshot.id

/-- What an exception handler commits on a snapshot. -/
def setFailure (id : String) (estado : Estado) (error : String) (c : Catalog) : Catalog :=
  updateSnapshots (fun s => s.id = id)
    (fun s => { s with estado, errorDetail := some (errorText error) }) (fun _ => rfl) c

/-- Where a run stands.  A batch is a list of hashes and storage keys, `rest` the
expired snapshots that are still to come. -/
inductive Phase
  | start
  | next (id : String) (rest : List String)
  | unlink (id : String) (rest : List String)
  | twoPhase (id : String) (rest : List String)
  | deleting (batch : List (String × String)) (id : String) (rest : List String)
  | confirm (batch : List (String × String)) (id : String) (rest : List String)
  | revert (batch : List (String × String)) (id : String) (rest : List String)
  | failed (error : String) (unlinked : Bool) (id : String) (rest : List String)
  | logging (rest : List String)
  | returned
  | raised
  deriving DecidableEq, Repr

/-- The steps of a run. -/
inductive Event
  | select
  | mark
  | unlink (now : Time)
  | claim
  | deleteReturns
  | deleteRaises (removed : List String)
  | confirm
  | revert
  | recover
  | log
  | raises (error : String)
  deriving DecidableEq, Repr

/-- The head of `for snap in expired`. -/
def loop : List String → Phase
  | [] => .returned
  | id :: rest => .next id rest

/-- `purge_expired_snapshots`, step by step. -/
def step (w : Store) : Phase → Event → Option (Store × Phase)
  | .start, .select =>
    match expiredIds w.cat with
    | [] => some (w, .returned)
    | id :: rest => some ({ w with cat := setEstado id .purging w.cat }, .unlink id rest)
  | .start, .raises _ => some (w, .raised)
  | .next id rest, .mark =>
    -- a row that is gone is a `StaleDataError`, outside the `try`
    if (w.cat.snapshots.find? id).isSome then
      some ({ w with cat := setEstado id .purging w.cat }, .unlink id rest)
    else none
  | .next _ _, .raises _ => some (w, .raised)
  | .unlink id rest, .unlink now =>
    -- `snap.id` is read again after the commit
    if (w.cat.snapshots.find? id).isSome then
      match purgeSnapshot now id w.cat with
      | .ok cat => some ({ w with cat }, .twoPhase id rest)
      | .error _ => none
    else none
  | .unlink id rest, .raises error => some (w, .failed error false id rest)
  | .twoPhase id rest, .claim =>
    let (batch, cat) := purgePhase1 batchSize w.cat
    if batch.isEmpty then some (w, loop rest) else some ({ w with cat }, .deleting batch id rest)
  | .twoPhase id rest, .raises error => some (w, .failed error true id rest)
  | .deleting batch id rest, .deleteReturns =>
    some ({ w with s3 := (deleteObjectsS3 .returns (batch.map Prod.snd) w.s3).1 },
      .confirm batch id rest)
  | .deleting batch id rest, .deleteRaises removed =>
    some ({ w with s3 := (deleteObjectsS3 (.raises removed) (batch.map Prod.snd) w.s3).1 },
      .revert batch id rest)
  | .confirm batch _ rest, .confirm =>
    match purgePhase2 (batch.map Prod.fst) w.cat with
    | .ok cat => some ({ w with cat }, loop rest)
    | .error _ => none
  | .confirm _ id rest, .raises error => some (w, .failed error true id rest)
  | .revert batch _ rest, .revert =>
    some ({ w with cat := purgeRevert (batch.map Prod.fst) w.cat }, loop rest)
  | .revert _ id rest, .raises error => some (w, .failed error true id rest)
  | .failed error unlinked id rest, .recover =>
    if (w.cat.snapshots.find? id).isSome then
      some ({ w with cat := setFailure id .purgeFailed error w.cat }, .logging rest)
    -- the object of a snapshot that the run has deleted itself still has its id
    else if unlinked then some (w, .logging rest) else none
  | .failed _ _ _ _, .raises _ => some (w, .raised)
  | .logging rest, .log => some (w, loop rest)
  | .logging _, .raises _ => some (w, .raised)
  | _, _ => none

/-- The keys that a step passes to `delete_objects_callback`. -/
def keysPassed : Phase → Event → List String
  | .deleting batch _ _, .deleteReturns => batch.map Prod.snd
  | .deleting batch _ _, .deleteRaises _ => batch.map Prod.snd
  | _, _ => []

/-- A run, with the keys that it has passed to the callback. -/
structure Process where
  store : Store
  phase : Phase := .start
  passed : List String := []

/-- One step of a run by itself. -/
def Process.step (p : Process) (e : Event) : Option Process :=
  (Retention.step p.store p.phase e).map fun (store, phase) =>
    ⟨store, phase, p.passed ++ keysPassed p.phase e⟩

/-- No call raises. -/
def Event.Smooth : Event → Prop
  | .raises _ => False
  | .deleteRaises _ => False
  | _ => True

end Retention
end Boveda

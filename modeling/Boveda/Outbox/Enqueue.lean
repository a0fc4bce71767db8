/-
# A call of `enqueue_chunk` and its thread

`enqueue_chunk` of `src/boveda/storage.py` has one `await`, for the thread that runs
`_write_staged_file`, and then inserts a row without interruption.  `Boveda.Outbox.Queue`
takes the file and the row as one step each; here the coroutine and its thread are two
parties, every operation of theirs may fail, and the coroutine may be cancelled.

| source | here |
| --- | --- |
| `os.open`, with `O_EXCL` | `opens`, `openFails` |
| `f.write`, `f.flush` | `writes`, `writeFails` |
| `os.fsync` and the end of the `with` | `syncs`, `syncFails` |
| `except Exception` of `_write_staged_file` | `removes`, `removeFails` |
| `await asyncio.to_thread` | `starts`, `startFails`, `dropped`, `resumes`, `cancel` |
| `connect`, `BEGIN IMMEDIATE`, `INSERT` | `inserts`, `insertFails` |
| `conn.commit()` | `commits`, `commitFails` |
| `except Exception` of `enqueue_chunk` | `unlinks`, `unlinkFails` |

Neither handler is reached by `CancelledError`, and a cancellation does not stop the thread.
`Kept` is the promise that a file and a row of the call are there just when it returns.
-/

import Boveda.Outbox.Queue

namespace Boveda
namespace Enqueue

open Lib Outbox

/-- A call: its chunk, the id that `uuid4` gives it, and the table and the staging directory
as it finds them. -/
structure Call where
  chunk : Chunk
  id : ChunkId
  rows : Table Row Row.id
  files : StagedPath → Option Bytes

/-- What `enqueue_chunk` raises. -/
inductive Failure
  /-- What `asyncio.to_thread` has raised at the call of `submit`. -/
  | start
  /-- What `_write_staged_file` has raised. -/
  | write
  /-- What the transaction, or `unlink` after it, has raised. -/
  | insert
  | cancelled
  deriving DecidableEq

/-- Where the coroutine stands. -/
inductive Phase
  | created
  /-- At `await asyncio.to_thread`. -/
  | writing
  /-- Before the `INSERT`. -/
  | inserting
  /-- Between the `INSERT` and `conn.commit()`. -/
  | committing (r : Row)
  /-- In `except Exception`. -/
  | undoing
  | returned
  | raised (exc : Failure)
  deriving DecidableEq

/-- Where the thread stands. -/
inductive Worker
  | absent
  /-- Among the work items of the executor. -/
  | queued
  | opened
  | written
  /-- In `except Exception`. -/
  | removing
  | succeeded
  | failed
  /-- A work item that was cancelled before its turn. -/
  | dropped
  deriving DecidableEq

/-- The two parties of a call, the table and the staging directory. -/
structure State where
  phase : Phase
  worker : Worker
  rows : Table Row Row.id
  files : StagedPath → Option Bytes

/-- What happens next. -/
inductive Event
  | starts
  /-- `queued` if `submit` has put the work item into the queue before it raises, as it has
  when a new thread cannot be started: a thread that is there takes the item all the same. -/
  | startFails (queued : Bool)
  | opens
  | openFails
  | writes
  /-- After that many bytes. -/
  | writeFails (length : ℕ)
  | syncs
  | syncFails
  | removes
  | removeFails
  | dropped
  | resumes
  | cancel
  | inserts (now : Time)
  | insertFails
  | commits
  /-- `durable` if the transaction has been committed nevertheless. -/
  | commitFails (durable : Bool)
  | unlinks
  | unlinkFails
  /-- The others leave the file and the row of the call alone. -/
  | others (rows : Table Row Row.id) (files : StagedPath → Option Bytes)

/-- `INSERT INTO outbox_chunks`; `none` is a conflict of primary keys. -/
def insertRow (rows : Table Row Row.id) (r : Row) : Option (Table Row Row.id) :=
  if h : rows.find? r.id = none then some (rows.insert r h) else none

section

variable (S : Setting) (c : Call)

/-- `staged_path`. -/
def Call.stagedPath : StagedPath := S.stagedPath c.id c.chunk.storageKey

/-- Before the call runs. -/
def Call.start : State := ⟨.created, .absent, c.rows, c.files⟩

/-- The staging file has this content, or is gone. -/
def State.setFile (s : State) (content : Option Bytes) : State :=
  { s with files := Function.update s.files (c.stagedPath S) content }

/-- One step of the coroutine, of its thread or of the others. -/
def step (s : State) : Event → Option State
  | .starts =>
    match s.phase with
    | .created =>
      some { s with
        phase := .writing
        worker := .queued }
    | _ => none
  | .startFails queued =>
    match s.phase with
    | .created =>
      some { s with
        phase := .raised .start
        worker := if queued then .queued else s.worker }
    | _ => none
  | .opens =>
    match s.worker with
    | .queued =>
      if s.files (c.stagedPath S) = none then
        some { s.setFile S c (some []) with worker := .opened }
      else none
    | _ => none
  | .openFails =>
    match s.worker with
    | .queued => some { s with worker := .failed }
    | _ => none
  | .writes =>
    match s.worker with
    | .opened => some { s.setFile S c (some c.chunk.payload) with worker := .written }
    | _ => none
  | .writeFails length =>
    match s.worker with
    | .opened =>
      some { s.setFile S c (some (c.chunk.payload.take length)) with worker := .removing }
    | _ => none
  | .syncs =>
    match s.worker with
    | .written => some { s with worker := .succeeded }
    | _ => none
  | .syncFails =>
    match s.worker with
    | .written => some { s with worker := .removing }
    | _ => none
  | .removes =>
    match s.worker with
    | .removing => some { s.setFile S c none with worker := .failed }
    | _ => none
  | .removeFails =>
    match s.worker with
    | .removing => some { s with worker := .failed }
    | _ => none
  -- the executor looks at a cancelled work item before it runs it
  | .dropped =>
    match s.worker, s.phase with
    | .queued, .raised .cancelled => some { s with worker := .dropped }
    | _, _ => none
  | .resumes =>
    match s.phase, s.worker with
    | .writing, .succeeded => some { s with phase := .inserting }
    | .writing, .failed => some { s with phase := .raised .write }
    | _, _ => none
  | .cancel =>
    match s.phase with
    | .created | .writing => some { s with phase := .raised .cancelled }
    | _ => none
  | .inserts now =>
    match s.phase with
    | .inserting =>
      if s.rows.find? c.id = none then
        some { s with phase := .committing (S.newRow now c.id c.chunk) }
      else none
    | _ => none
  -- the end of the `with` rolls back
  | .insertFails =>
    match s.phase with
    | .inserting => some { s with phase := .undoing }
    | _ => none
  | .commits =>
    match s.phase with
    | .committing r => (insertRow s.rows r).map fun rows => { s with rows, phase := .returned }
    | _ => none
  | .commitFails durable =>
    match s.phase with
    | .committing r =>
      if durable then (insertRow s.rows r).map fun rows => { s with rows, phase := .undoing }
      else some { s with phase := .undoing }
    | _ => none
  | .unlinks =>
    match s.phase with
    | .undoing => some { s.setFile S c none with phase := .raised .insert }
    | _ => none
  | .unlinkFails =>
    match s.phase with
    | .undoing => some { s with phase := .raised .insert }
    | _ => none
  | .others rows files =>
    if rows.find? c.id = s.rows.find? c.id ∧
        files (c.stagedPath S) = s.files (c.stagedPath S) then
      some { s with rows, files }
    else none

/-- The thread has steps to take. -/
def Worker.Running : Worker → Prop
  | .queued | .opened | .written | .removing => True
  | _ => False

/-- The steps of the thread. -/
def Event.OfThread : Event → Prop
  | .opens | .openFails | .writes | .writeFails _ | .syncs | .syncFails | .removes | .removeFails
  | .dropped => True
  | _ => False

/-- The call has returned or raised, and its thread has finished. -/
def State.Over (s : State) : Prop :=
  (s.phase = .returned ∨ ∃ exc, s.phase = .raised exc) ∧ ¬ s.worker.Running

/-- **The promise.**  If the call has returned, its row is there and names a file with the
payload; if not, its file and its row are as the call has found them. -/
def Kept (s : State) : Prop :=
  (s.phase = .returned → ∃ now, s.rows.find? c.id = some (S.newRow now c.id c.chunk) ∧
    s.files (S.newRow now c.id c.chunk).payloadEncryptedPath = some c.chunk.payload) ∧
  (s.phase ≠ .returned → s.files (c.stagedPath S) = c.files (c.stagedPath S) ∧
    s.rows.find? c.id = c.rows.find? c.id)

/-- The call is not cancelled once its thread has written the file, nor does the thread of a
call that has raised write it; what has to be removed is removed, and what is committed is
reported so. -/
def Undisturbed (s : State) : Event → Prop
  | .cancel => s.worker ≠ .succeeded
  | .syncs => ∀ exc, s.phase ≠ .raised exc
  | .removeFails | .unlinkFails => False
  | .commitFails durable => durable = false
  | _ => True

end

end Enqueue
end Boveda

/-
# The transactional outbox

`src/boveda/storage.py` (`TransactionalOutbox.enqueue_chunk`,
`drain_outbox_queue`) and `MultiCloudStorageRouter.upload_chunk` of
`src/boveda/circuit_breaker.py`.  A chunk that neither cloud accepts is written
to a staging file and registered in the table `outbox_chunks`; a drain claims
rows, uploads the staged files, marks the rows `PROCESSED` and removes the files.

Any number of uploads and drains run side by side, in one process or in several.
A step is one committed transaction, one operation on a file, or one call to an
uploader with its outcome, so that a crash is a party that takes no further
step (`stopUpload`, `stopDrain`), and so is a cancellation.  Files are written
with `fsync` and rows are committed; both survive.

| source | steps |
| --- | --- |
| `upload_chunk` | `uploadChunk`, `uploaderAccepts`, `primaryRefuses`, `secondaryRefuses` |
| `enqueue_chunk` | `enqueueChunk`, `stageFile`, `abandonFile`, `insertRow`, `insertFails`, `enqueued` |
| `drain_outbox_queue`, claim | `claim` |
| … for each row | `readFile`, `drainAccepts`, `markProcessed`, `unlinkFile` |
| … and what may raise | `readFails`, `drainRefuses`, `markFails`, `unlinkFails`, then `recordFailure` |

What a `CircuitBreaker` adds to an upload is a further reason to refuse it
(`Boveda.Breaker.Circuit`).  `used` and `accepted` are history variables.
-/

import Boveda.Lib.Bytes
import Boveda.Lib.Runs
import Boveda.Lib.Table
import Mathlib.Data.List.Sort
import Mathlib.Data.Prod.Lex
import Mathlib.Logic.Function.Basic
import Mathlib.Tactic.Simps.Basic

namespace Boveda
namespace Outbox

open Lib

/-- `str(uuid.uuid4())`. -/
abbrev ChunkId := ℕ

/-- Milliseconds. -/
abbrev Time := ℕ

/-- What a caller wants stored. -/
structure Chunk where
  tenantId : String
  storageKey : String
  payload : Bytes
  deriving DecidableEq, Repr

/-- The name of a staging file, `{chunk_id}_{sha256(storage_key)[:16]}.enc`. -/
structure StagedPath where
  chunkId : ChunkId
  keyTag : String
  deriving DecidableEq, Repr

/-- `OutboxChunkState`. -/
inductive OutboxChunkState
  | pending | draining | processed | deadLetter
  deriving DecidableEq, Repr

/-- A timestamp as text, `YYYY-MM-DD HH:MM:SS` with or without `.SSS`. -/
structure Stamp where
  seconds : ℤ
  millis : Option ℕ
  deriving DecidableEq, Repr

/-- The order of such texts: of two with the same second, the one without a
fraction is a prefix of the other. -/
def Stamp.le (a b : Stamp) : Bool :=
  if a.seconds = b.seconds then
    match a.millis, b.millis with
    | none, _ => true
    | some _, none => false
    | some m, some n => m ≤ n
  else a.seconds < b.seconds

/-- The place of a text in the order. -/
def Stamp.rank (a : Stamp) : ℤ ×ₗ ℕ := toLex (a.seconds, a.millis.elim 0 Nat.succ)

theorem Stamp.le_iff {a b : Stamp} : a.le b = true ↔ a.rank ≤ b.rank := by
  rw [rank, rank, Prod.Lex.toLex_le_toLex, le]
  split_ifs with h
  · cases a.millis <;> cases b.millis <;> simp [h]
  · simp [h]

theorem Stamp.rank_injective : Function.Injective Stamp.rank := by
  rintro ⟨s, m⟩ ⟨t, n⟩ h
  obtain ⟨rfl, hmillis⟩ := Prod.mk.inj (toLex.injective h)
  cases m <;> cases n <;> simp_all

theorem Stamp.le_total (a b : Stamp) : a.le b = true ∨ b.le a = true := by
  rw [le_iff, le_iff]
  exact Std.Total.total a.rank b.rank

theorem Stamp.le_trans {a b c : Stamp} (hab : a.le b = true) (hbc : b.le c = true) :
    a.le c = true :=
  le_iff.2 ((le_iff.1 hab).trans (le_iff.1 hbc))

theorem Stamp.le_antisymm {a b : Stamp} (hab : a.le b = true) (hba : b.le a = true) : a = b :=
  rank_injective ((le_iff.1 hab).antisymm (le_iff.1 hba))

/-- A row of `outbox_chunks`. -/
structure Row where
  id : ChunkId
  tenantId : String
  storageKey : String
  payloadEncryptedPath : StagedPath
  state : OutboxChunkState := .pending
  attempts : ℕ := 0
  lastError : Option String := none
  createdAt : Stamp
  updatedAt : Stamp
  processedAt : Option Stamp := none
  nextRetryAt : Stamp
  deriving DecidableEq, Repr

/-- The columns that a drain selects. -/
structure Item where
  id : ChunkId
  tenantId : String
  storageKey : String
  path : StagedPath
  attempts : ℕ
  deriving DecidableEq, Repr

/-- The order in which SQLite reads the rows.  It is up to the plan of a query, which has the
index `(state, next_retry_at)` to choose. -/
structure Scan where
  read : Time → List Row → List Row
  perm : ∀ now rows, (read now rows).Perm rows

/-- In the order of their insertion. -/
def Scan.table : Scan := ⟨fun _ rows => rows, fun _ _ => .refl _⟩

/-- What the surroundings decide: what SQLite's modifier `'utc'` makes of the
current time, the tag of a storage key, and how SQLite reads the rows. -/
structure Setting where
  utc : Time → Time
  keyTag : String → String
  scan : Scan := .table

namespace Setting

variable (S : Setting)

/-- `strftime('%Y-%m-%d %H:%M:%f', 'now', 'utc')`. -/
def strftime (now : Time) : Stamp := ⟨(S.utc now / 1000 : ℕ), some (S.utc now % 1000)⟩

/-- `datetime('now', '… seconds')`. -/
def datetime (_ : Setting) (now : Time) (seconds : ℤ) : Stamp := ⟨(now / 1000 : ℕ) + seconds, none⟩

/-- The staging file of a chunk. -/
def stagedPath (id : ChunkId) (storageKey : String) : StagedPath := ⟨id, S.keyTag storageKey⟩

/-- The row that `enqueue_chunk` inserts. -/
def newRow (now : Time) (id : ChunkId) (ch : Chunk) : Row where
  id := id
  tenantId := ch.tenantId
  storageKey := ch.storageKey
  payloadEncryptedPath := S.stagedPath id ch.storageKey
  createdAt := S.strftime now
  updatedAt := S.strftime now
  nextRetryAt := S.strftime now

/-- The `WHERE` of a claim. -/
def claimable (now : Time) (r : Row) : Bool :=
  (r.state = .pending ∧ r.nextRetryAt.le (S.strftime now)) ∨
    (r.state = .draining ∧ r.updatedAt.le (S.datetime now (-(15 * 60))))

/-- `ORDER BY created_at ASC LIMIT :limit`; a negative limit is none.  Rows of one `created_at`
come as they are read. -/
def selectRows (now : Time) (limit : ℤ) (rows : List Row) : List Row :=
  let found := (S.scan.read now rows).filter (S.claimable now)
  let sorted := found.insertionSort fun a b => a.createdAt.le b.createdAt
  if limit < 0 then sorted else sorted.take limit.toNat

/-- The `UPDATE` of a claim. -/
def claimRow (now : Time) (r : Row) : Row :=
  { r with state := .draining, updatedAt := S.strftime now }

/-- The `UPDATE` after an upload. -/
def processRow (now : Time) (r : Row) : Row :=
  { r with
    state := .processed
    processedAt := some (S.strftime now)
    updatedAt := S.strftime now }

/-- `new_state`. -/
def newState (newAttempts : ℕ) : OutboxChunkState :=
  if 10 ≤ newAttempts then .deadLetter else .pending

/-- The `UPDATE` of the failure handler, which knows the `attempts` of the claim. -/
def failRow (now : Time) (attempts : ℕ) (err : String) (r : Row) : Row :=
  let newAttempts := attempts + 1
  let backoffSec := min 3600 (2 ^ newAttempts)
  { r with
    state := newState newAttempts
    attempts := newAttempts
    lastError := some err
    nextRetryAt := S.datetime now backoffSec
    updatedAt := S.strftime now }

theorem claimRow_id (now : Time) (r : Row) : (S.claimRow now r).id = r.id := rfl

theorem processRow_id (now : Time) (r : Row) : (S.processRow now r).id = r.id := rfl

theorem failRow_id (now : Time) (attempts : ℕ) (err : String) (r : Row) :
    (S.failRow now attempts err r).id = r.id := rfl

end Setting

/-- The columns that a drain selects, of a row. -/
def Row.item (r : Row) : Item :=
  ⟨r.id, r.tenantId, r.storageKey, r.payloadEncryptedPath, r.attempts⟩

/-- Where an `upload_chunk` ended, with the result of `enqueue_chunk`. -/
inductive StorageDestination
  | primary
  | secondary
  | outbox (chunkId : ChunkId)
  deriving DecidableEq, Repr

/-- Where an `upload_chunk` or an `enqueue_chunk` stands.  `staging` is the thread
that writes the file. -/
inductive Upload
  | idle
  | primary (ch : Chunk)
  | secondary (ch : Chunk)
  | staging (ch : Chunk) (id : ChunkId)
  | inserting (ch : Chunk) (id : ChunkId)
  | committed (ch : Chunk) (id : ChunkId)
  | returned (ch : Chunk) (dest : StorageDestination)
  | stopped
  deriving DecidableEq, Repr

/-- What a drain does to the first of its rows. -/
inductive Stage
  | opening
  | uploading (payload : Bytes)
  | marking
  | unlinking
  | failing
  deriving DecidableEq, Repr

/-- Where a `drain_outbox_queue` stands, with its rows and `processed_count`. -/
inductive Drain
  | idle
  | working (stage : Stage) (item : Item) (rest : List Item) (processedCount : ℕ)
  | returned (processedCount : ℕ)
  | stopped
  deriving DecidableEq, Repr

/-- The next row of a drain. -/
def Drain.next (rest : List Item) (processedCount : ℕ) : Drain :=
  match rest with
  | [] => .returned processedCount
  | item :: rest => .working .opening item rest processedCount

/-- Who gave a chunk to an uploader: an `upload_chunk`, or a drain for a row. -/
inductive Origin
  | upload (u : ℕ)
  | row (id : ChunkId)
  deriving DecidableEq, Repr

/-- The table, the staging directory, and every upload and drain. -/
structure World where
  rows : Table Row Row.id
  files : StagedPath → Option Bytes
  uploads : ℕ → Upload
  drains : ℕ → Drain
  /-- The ids that `uuid4` has given. -/
  used : List ChunkId
  /-- The calls of an uploader that returned normally. -/
  accepted : List (Origin × Chunk)

/-- After `init_outbox_schema`. -/
def World.init : World := ⟨.empty, fun _ => none, fun _ => .idle, fun _ => .idle, [], []⟩

namespace World

variable (w : World)

/-- The upload `u` is now at `p`. -/
@[simps] def setUpload (u : ℕ) (p : Upload) : World := { w with uploads := Function.update w.uploads u p }

/-- The drain `d` is now at `p`. -/
@[simps] def setDrain (d : ℕ) (p : Drain) : World := { w with drains := Function.update w.drains d p }

/-- The file `path` has this content, or is gone. -/
@[simps] def setFile (path : StagedPath) (content : Option Bytes) : World :=
  { w with files := Function.update w.files path content }

/-- `UPDATE outbox_chunks SET … WHERE p`. -/
@[simps] def updateRows (p : Row → Bool) (f : Row → Row) (hf : ∀ r, (f r).id = r.id) : World :=
  { w with rows := w.rows.update p f hf }

/-- `INSERT INTO outbox_chunks`; `none` is a conflict of primary keys. -/
def insertRow (r : Row) : Option World :=
  if h : w.rows.find? r.id = none then some { w with rows := w.rows.insert r h } else none

/-- An uploader has returned normally. -/
@[simps] def accept (o : Origin) (ch : Chunk) : World := { w with accepted := (o, ch) :: w.accepted }

/-- `uuid4` gives an id, which it has not given before. -/
def draw (id : ChunkId) : Option World :=
  if id ∈ w.used then none else some { w with used := id :: w.used }

end World

/-- What happens next. -/
inductive Event
  | uploadChunk (u : ℕ) (ch : Chunk)
  | enqueueChunk (u : ℕ) (ch : Chunk) (id : ChunkId)
  | uploaderAccepts (u : ℕ)
  | primaryRefuses (u : ℕ)
  | secondaryRefuses (u : ℕ) (id : ChunkId)
  | stageFile (u : ℕ)
  | abandonFile (u : ℕ) (left : Option Bytes)
  | insertRow (u : ℕ) (now : Time)
  | insertFails (u : ℕ) (committed unlinked : Bool) (now : Time)
  | enqueued (u : ℕ)
  | stopUpload (u : ℕ)
  | claim (d : ℕ) (maxItems : ℤ) (now : Time)
  | readFile (d : ℕ)
  | readFails (d : ℕ)
  | drainAccepts (d : ℕ)
  | drainRefuses (d : ℕ)
  | markProcessed (d : ℕ) (now : Time)
  | markFails (d : ℕ) (committed : Bool) (now : Time)
  | unlinkFile (d : ℕ)
  | unlinkFails (d : ℕ)
  | recordFailure (d : ℕ) (err : String) (now : Time)
  | stopDrain (d : ℕ)

variable (S : Setting)

/-- `SELECT` and `UPDATE` of a claim, in one transaction. -/
def claim (d : ℕ) (maxItems : ℤ) (now : Time) (w : World) : World :=
  let rows := S.selectRows now maxItems w.rows.rows
  (w.updateRows (fun r => r.id ∈ rows.map Row.id) (S.claimRow now)
    (S.claimRow_id now)).setDrain d (.next (rows.map Row.item) 0)

theorem claim_rows (d : ℕ) (maxItems : ℤ) (now : Time) (w : World) :
    (claim S d maxItems now w).rows =
      (w.updateRows (fun r => r.id ∈ (S.selectRows now maxItems w.rows.rows).map Row.id)
        (S.claimRow now) (S.claimRow_id now)).rows := rfl

/-- A step of an `upload_chunk` or `enqueue_chunk`. -/
def stepUpload (w : World) (u : ℕ) (p : Upload) : Event → Option World
  | .uploadChunk _ ch =>
    match p with
    | .idle => some (w.setUpload u (.primary ch))
    | _ => none
  | .enqueueChunk _ ch id =>
    match p with
    | .idle => (w.draw id).map fun w => w.setUpload u (.staging ch id)
    | _ => none
  | .uploaderAccepts _ =>
    match p with
    | .primary ch => some ((w.accept (.upload u) ch).setUpload u (.returned ch .primary))
    | .secondary ch => some ((w.accept (.upload u) ch).setUpload u (.returned ch .secondary))
    | _ => none
  | .primaryRefuses _ =>
    match p with
    | .primary ch => some (w.setUpload u (.secondary ch))
    | _ => none
  | .secondaryRefuses _ id =>
    match p with
    | .secondary ch => (w.draw id).map fun w => w.setUpload u (.staging ch id)
    | _ => none
  | .stageFile _ =>
    match p with
    | .staging ch id =>
      -- `O_EXCL`: the file must not exist
      if w.files (S.stagedPath id ch.storageKey) = none then
        some ((w.setFile (S.stagedPath id ch.storageKey) (some ch.payload)).setUpload u
          (.inserting ch id))
      else none
    | _ => none
  | .abandonFile _ left =>
    match p with
    | .staging ch id =>
      some ((w.setFile (S.stagedPath id ch.storageKey) left).setUpload u .stopped)
    | _ => none
  | .insertRow _ now =>
    match p with
    | .inserting ch id =>
      (w.insertRow (S.newRow now id ch)).map fun w => w.setUpload u (.committed ch id)
    | _ => none
  | .insertFails _ committed unlinked now =>
    match p with
    | .inserting ch id =>
      (if committed then w.insertRow (S.newRow now id ch) else some w).map fun w =>
        (if unlinked then w.setFile (S.stagedPath id ch.storageKey) none else w).setUpload u
          .stopped
    | _ => none
  | .enqueued _ =>
    match p with
    | .committed ch id => some (w.setUpload u (.returned ch (.outbox id)))
    | _ => none
  | .stopUpload _ =>
    match p with
    | .primary _ | .secondary _ | .inserting _ _ | .committed _ _ => some (w.setUpload u .stopped)
    | _ => none
  | _ => none

/-- A step of a `drain_outbox_queue` on the first of its rows. -/
def stepDrain (w : World) (d : ℕ) (stage : Stage) (item : Item) (rest : List Item) (n : ℕ) :
    Event → Option World
  | .readFile _ =>
    match stage with
    | .opening =>
      match w.files item.path with
      | some payload => some (w.setDrain d (.working (.uploading payload) item rest n))
      | none => some (w.setDrain d (.working .failing item rest n))
    | _ => none
  | .readFails _ =>
    match stage with
    | .opening => some (w.setDrain d (.working .failing item rest n))
    | _ => none
  | .drainAccepts _ =>
    match stage with
    | .uploading payload =>
      some ((w.accept (.row item.id) ⟨item.tenantId, item.storageKey, payload⟩).setDrain d
        (.working .marking item rest n))
    | _ => none
  | .drainRefuses _ =>
    match stage with
    | .uploading _ => some (w.setDrain d (.working .failing item rest n))
    | _ => none
  | .markProcessed _ now =>
    match stage with
    | .marking =>
      some ((w.updateRows (fun r => r.id = item.id) (S.processRow now)
        (S.processRow_id now)).setDrain d (.working .unlinking item rest n))
    | _ => none
  | .markFails _ committed now =>
    match stage with
    | .marking =>
      some ((if committed then
        w.updateRows (fun r => r.id = item.id) (S.processRow now) (S.processRow_id now)
        else w).setDrain d (.working .failing item rest n))
    | _ => none
  | .unlinkFile _ =>
    match stage with
    | .unlinking => some ((w.setFile item.path none).setDrain d (.next rest (n + 1)))
    | _ => none
  | .unlinkFails _ =>
    match stage with
    | .unlinking => some (w.setDrain d (.working .failing item rest n))
    | _ => none
  | .recordFailure _ err now =>
    match stage with
    | .failing =>
      some ((w.updateRows (fun r => r.id = item.id) (S.failRow now item.attempts err)
        (S.failRow_id now item.attempts err)).setDrain d (.next rest n))
    | _ => none
  | .stopDrain _ => some (w.setDrain d .stopped)
  | _ => none

/-- The party that an event is about. -/
def Event.party : Event → ℕ ⊕ ℕ
  | .uploadChunk u _ | .enqueueChunk u _ _ | .uploaderAccepts u | .primaryRefuses u
  | .secondaryRefuses u _ | .stageFile u | .abandonFile u _ | .insertRow u _ | .insertFails u _ _ _
  | .enqueued u | .stopUpload u => .inl u
  | .claim d _ _ | .readFile d | .readFails d | .drainAccepts d | .drainRefuses d
  | .markProcessed d _ | .markFails d _ _ | .unlinkFile d | .unlinkFails d | .recordFailure d _ _
  | .stopDrain d => .inr d

/-- One step, `none` when it is not the turn of its party. -/
def step (w : World) (e : Event) : Option World :=
  match e.party with
  | .inl u => stepUpload S w u (w.uploads u) e
  | .inr d =>
    match w.drains d with
    | .idle =>
      match e with
      | .claim _ maxItems now => some (claim S d maxItems now w)
      | _ => none
    | .working stage item rest n => stepDrain S w d stage item rest n e
    | _ => none

end Outbox
end Boveda

/-
# The streaming pipeline

`streaming_pipeline` (`src/boveda/engine.py`) runs three kinds of tasks at once:

* `read_source` reads the output of a subprocess, cuts it and puts the chunks
  into a queue, with `None` at the end;
* `compress_encrypt_upload` gets them from the queue, seals them and starts an
  upload for each;
* `do_upload` calls `upload_callback` for one sealed chunk.

They share the queue, the semaphore that bounds the uploads, and `shutdown_event`,
which only an upload that has failed sets.  A task runs from one `await` to the
next without interruption.  So the machine here has one event for each stretch
between two `await`s, and a list of events is an interleaving.  It stops where
`streaming_pipeline` returns or raises.

Where a task waits for an operation or for `shutdown_event`, whichever comes
first, both may be over by the time it goes on; its event says whether the wait
for `shutdown_event` is among what is over (`waited`).
-/

import Boveda.Lib.Runs
import Boveda.Catalog.Schema
import Boveda.Pipeline.FastCDC
import Boveda.Pipeline.Seal

namespace Boveda
namespace Pipeline

open Lib Crypto

/-- `PIPELINE_QUEUE_MAXSIZE`. -/
def pipelineQueueMaxsize : ℕ := 1

/-- `MAX_CONCURRENT_UPLOADS`. -/
def maxConcurrentUploads : ℕ := 1

/-- `io_read_size`, 512 KiB. -/
@[irreducible] def ioReadSize : ℕ := 512 * 1024

/-! ### The state -/

/-- Where `read_source` stands. -/
inductive Reader
  | spawning
  | reading (fastcdc : Streamer)
  /-- `put_task` waits for room for `chunk`; `chunks` are still to come. -/
  | putting (fastcdc : Streamer) (isEof : Bool) (chunk : Bytes) (chunks : List Bytes)
  /-- `put_task` is over. -/
  | put (fastcdc : Streamer) (isEof : Bool) (chunks : List Bytes)
  | puttingSentinel
  | putSentinel
  /-- `await proc.wait()`. -/
  | waiting
  | returned
  | raised
  deriving DecidableEq

/-- Where `compress_encrypt_upload` stands. -/
inductive Writer
  | getting
  /-- `get_task` is over. -/
  | got (item : Option Bytes)
  /-- `await upload_semaphore.acquire()`. -/
  | acquiring (block : Sealed)
  /-- `await asyncio.gather(*background_tasks)`. -/
  | gathering
  | returned
  | raised
  deriving DecidableEq

/-- What has become of a `do_upload`. -/
inductive UploadStatus
  | created
  | calling
  | returned
  /-- `upload_callback` has raised. -/
  | raised
  /-- `shutdown_event` was set before the call. -/
  | skipped
  deriving DecidableEq

/-- The task is over. -/
def UploadStatus.done : UploadStatus → Bool
  | .created | .calling => false
  | .returned | .raised | .skipped => true

/-- A task that runs `do_upload`. -/
structure UploadTask where
  block : Sealed
  status : UploadStatus := .created
  /-- It is in `background_tasks`. -/
  background : Bool := true
  /-- It is an argument of `gather`. -/
  gathered : Bool := false
  deriving DecidableEq

/-- How `streaming_pipeline` ends. -/
inductive Ending
  | returned
  | raised
  deriving DecidableEq

/-- The state of all tasks and of what they share. -/
structure State where
  /-- What the subprocess has still to output. -/
  remaining : Bytes
  reader : Reader := .spawning
  queue : List (Option Bytes) := []
  writer : Writer := .getting
  chunkSeq : ℕ := 0
  nonceGen : NonceGenerator
  uploadSemaphore : ℕ := maxConcurrentUploads
  tasks : List UploadTask := []
  shutdownEvent : Bool := false
  ending : Option Ending := none

/-- The tasks have been created, for a subprocess that outputs `data`. -/
def State.init (data : Bytes) (nonceGen : NonceGenerator) : State :=
  { remaining := data, nonceGen }

/-- The calls of `upload_callback` that have returned normally. -/
def State.uploaded (s : State) : List Sealed :=
  (s.tasks.filter fun task => task.status = .returned).map UploadTask.block

/-- The `estado` that the backup leaves: `COMPLETED` when the pipeline returns,
`FAILED` when it raises. -/
def State.estado (s : State) : Catalog.Estado :=
  match s.ending with
  | none => .running
  | some .returned => .completed
  | some .raised => .failed

/-! ### `read_source` -/

/-- What may happen to `read_source`. -/
inductive ReaderEvent
  | spawned
  /-- `read` returns that many bytes, 0 at the end. -/
  | read (count : ℕ)
  /-- The subprocess cannot be started, or cannot be read. -/
  | failed
  | put
  | resumed (waited : Bool)
  | exited (returncode : ℤ)

/-- After the `while` loop: the sentinel, unless the pipeline is shutting down. -/
def Reader.afterLoop (shutdownEvent : Bool) : Reader :=
  if shutdownEvent then .waiting else .puttingSentinel

/-- In the `for` loop, before the next of the `chunks`. -/
def Reader.next (shutdownEvent isEof : Bool) (fastcdc : Streamer) : List Bytes → Reader
  | chunk :: chunks => .putting fastcdc isEof chunk chunks
  | [] => if isEof || shutdownEvent then .afterLoop shutdownEvent else .reading fastcdc

/-- The exit codes of a subprocess that are no errors: 0, and those of SIGPIPE. -/
def exitsNormally (returncode : ℤ) : Bool :=
  returncode = 0 || returncode = -13 || returncode = 109 || returncode = 141

/-- `read_source`. -/
def readSource (gear : UInt8 → ℕ) (s : State) : ReaderEvent → Option State
  | .spawned =>
    match s.reader with
    | .spawning => some { s with reader := .reading {} }
    | _ => none
  | .read count =>
    match s.reader with
    | .reading fastcdc =>
      if count ≤ min ioReadSize s.remaining.length ∧ (count = 0 → s.remaining = []) then
        let isEof := count == 0
        let (chunks, fastcdc) := fastcdc.feed gear (s.remaining.take count) isEof
        some { s with
          remaining := s.remaining.drop count
          reader := .next s.shutdownEvent isEof fastcdc chunks }
      else none
    | _ => none
  | .failed =>
    match s.reader with
    | .spawning | .reading _ => some { s with reader := .raised }
    | _ => none
  | .put =>
    if s.queue.length < pipelineQueueMaxsize then
      match s.reader with
      | .putting fastcdc isEof chunk chunks =>
        some { s with
          queue := s.queue ++ [some chunk]
          reader := .put fastcdc isEof chunks }
      | .puttingSentinel =>
        some { s with
          queue := s.queue ++ [none]
          reader := .putSentinel }
      | _ => none
    else none
  | .resumed waited =>
    if waited && !s.shutdownEvent then none
    else
      match s.reader, waited with
      | .putting fastcdc isEof _ _, true | .put fastcdc isEof _, true =>
        some { s with reader := .next s.shutdownEvent isEof fastcdc [] }
      | .put fastcdc isEof chunks, false =>
        some { s with reader := .next s.shutdownEvent isEof fastcdc chunks }
      | .puttingSentinel, true | .putSentinel, _ => some { s with reader := .waiting }
      | _, _ => none
  | .exited returncode =>
    match s.reader with
    | .waiting =>
      if !exitsNormally returncode && !s.shutdownEvent then some { s with reader := .raised }
      else some { s with reader := .returned }
    | _ => none

/-! ### `compress_encrypt_upload` -/

/-- What may happen to `compress_encrypt_upload`. -/
inductive WriterEvent
  | get
  | resumed (waited : Bool)
  | acquired
  | gathered

/-- After the `while` loop: `gather`, unless `background_tasks` is empty. -/
def State.afterLoop (s : State) : State :=
  if s.tasks.any UploadTask.background then
    { s with
      tasks := s.tasks.map fun task => { task with gathered := task.background }
      writer := .gathering }
  else { s with writer := .returned }

/-- `compress_encrypt_upload`. -/
def compressEncryptUpload (P : Primitives) (dek : Bytes) (snapshotId : String) (s : State) :
    WriterEvent → Option State
  | .get =>
    match s.writer, s.queue with
    | .getting, item :: queue =>
      some { s with
        queue
        writer := .got item }
    | _, _ => none
  | .resumed waited =>
    if waited && !s.shutdownEvent then none
    else
      match s.writer, waited with
      | .getting, true | .got _, true | .got none, false => some s.afterLoop
      | .got (some chunk), false =>
        match sealChunk P dek snapshotId s.chunkSeq s.nonceGen chunk with
        | none => some { s with writer := .raised }
        | some (block, nonceGen) =>
          some { s with
            nonceGen
            writer := .acquiring block }
      | _, _ => none
  | .acquired =>
    match s.writer with
    | .acquiring block =>
      if 0 < s.uploadSemaphore then
        some { s with
          uploadSemaphore := s.uploadSemaphore - 1
          tasks := s.tasks ++ [{ block }]
          chunkSeq := s.chunkSeq + 1
          writer := .getting }
      else none
    | _ => none
  | .gathered =>
    match s.writer with
    | .gathering =>
      if s.tasks.any fun task => task.gathered && !task.status.done then none
      else if s.tasks.any fun task => task.gathered && task.status = .raised then
        some { s with
          shutdownEvent := true
          writer := .raised }
      else some { s with writer := .returned }
    | _ => none

/-! ### `do_upload` -/

/-- What may happen to a `do_upload`. -/
inductive UploadEvent
  | started
  /-- `upload_callback` is over. -/
  | finished
  /-- The done-callback takes the task out of `background_tasks`. -/
  | discarded

/-- The task goes on. -/
def State.setStatus (s : State) (k : ℕ) (task : UploadTask) (status : UploadStatus) : State :=
  { s with tasks := s.tasks.set k { task with status } }

/-- The task is over, and has released the semaphore. -/
def State.endTask (s : State) (k : ℕ) (task : UploadTask) (status : UploadStatus) : State :=
  { s.setStatus k task status with uploadSemaphore := s.uploadSemaphore + 1 }

/-- `do_upload`, the `k`-th one.  `raises` says for which `seq` the call of
`upload_callback` raises. -/
def doUpload (raises : ℕ → Bool) (s : State) (k : ℕ) (task : UploadTask) :
    UploadEvent → Option State
  | .started =>
    if task.status = .created then
      if s.shutdownEvent then some (s.endTask k task .skipped)
      else some (s.setStatus k task .calling)
    else none
  | .finished =>
    if task.status = .calling then
      if raises task.block.seq then
        some { s.endTask k task .raised with shutdownEvent := true }
      else some (s.endTask k task .returned)
    else none
  | .discarded =>
    if task.status.done && task.background then
      some { s with tasks := s.tasks.set k { task with background := false } }
    else none

/-! ### `streaming_pipeline` -/

/-- `streaming_pipeline` wakes when both tasks are over or one has raised.  What a
task has raised is not looked at when `shutdown_event` is set. -/
def streamingPipeline (s : State) : Option State :=
  if s.reader = .raised ∨ s.writer = .raised ∨ (s.reader = .returned ∧ s.writer = .returned) then
    if s.shutdownEvent then some { s with ending := some .returned }
    else if s.reader = .raised ∨ s.writer = .raised then some { s with ending := some .raised }
    else some { s with ending := some .returned }
  else none

/-- What may happen next. -/
inductive Event
  | reader (e : ReaderEvent)
  | writer (e : WriterEvent)
  | upload (k : ℕ) (e : UploadEvent)
  | wake

/-- What a run of the pipeline depends on: the libraries, `GEAR_TABLE`, the DEK, the
id of the snapshot, and the calls of `upload_callback` that raise. -/
structure Setting where
  primitives : Primitives
  gear : UInt8 → ℕ
  dek : Bytes
  snapshotId : String
  raises : ℕ → Bool

/-- One step of the pipeline. -/
def step (S : Setting) (s : State) (e : Event) : Option State :=
  if s.ending.isSome then none
  else
    match e with
    | .reader e => readSource S.gear s e
    | .writer e => compressEncryptUpload S.primitives S.dek S.snapshotId s e
    | .upload k e => s.tasks[k]?.bind fun task => doUpload S.raises s k task e
    | .wake => streamingPipeline s

/-- Everything has been read, and `upload_callback` has returned normally for the
chunks `0`, …, `n - 1` of `data`, once each. -/
def State.Complete (gear : UInt8 → ℕ) (data : Bytes) (s : State) : Prop :=
  s.remaining = [] ∧ s.uploaded.map Sealed.seq = List.range (chunksOf gear data).length

end Pipeline
end Boveda

/-
# A dump as a stream of blocks

`stream_subprocess_with_watchdog` of `src/boveda/connectors.py`.  The generator stands
at an `await` or at a `yield`, and what happens there is an event: of the consumer
(`__anext__`, `aclose`, a cancellation), of the child or of the clock.  The code between
two such points runs without interruption and is one step.

| source | here |
| --- | --- |
| the head of `while True` | `loopTop` |
| what follows the loop | `afterLoop`, `afterWait` |
| `except Exception` | `handle` |
| `finally` | the phase `draining` |

An undisturbed run hands on what the child writes in blocks of `chunk_size`, and ends:
`streams`.  The accumulator is never full at a `read`, so that no request is for zero
bytes, which would look like the end of the output.
-/

import Boveda.Lib.Bytes
import Boveda.Lib.Runs

namespace Boveda
namespace Connectors

open Lib

/-- The arguments that the loop reads; the timeouts are in milliseconds. -/
structure Setting where
  chunkSize : ℕ
  startupTimeout : ℕ := 30000
  inactivityTimeout : ℕ := 60000

/-- How the generator ends. -/
inductive Ending
  | returned
  /-- `StreamingTimeoutError`, after that many milliseconds. -/
  | timedOut (timeout : ℕ)
  /-- `DatabaseConnectorError`, with the exit code of the child. -/
  | failed (returncode : ℤ)
  /-- The child could not be started. -/
  | spawnError
  | readError
  /-- What the consumer has thrown in. -/
  | thrown
  /-- `GeneratorExit`. -/
  | closed
  /-- `CancelledError`. -/
  | cancelled
  deriving DecidableEq

/-- Where the generator stands. -/
inductive Phase
  | created
  /-- At `await asyncio.create_subprocess_exec`. -/
  | spawning
  /-- At `await asyncio.wait_for(proc.stdout.read(request), timeout)`. -/
  | reading (request timeout : ℕ)
  /-- At the `yield` in the loop. -/
  | yielding
  /-- At the `yield` after the loop. -/
  | yieldingLast
  /-- At `await proc.wait()`. -/
  | waiting
  /-- At `await asyncio.wait_for(proc.wait(), timeout=3.0)`, after `terminate`. -/
  | terminating (exc : Ending)
  /-- At `await proc.wait()`, after `kill`. -/
  | killing (exc : Ending)
  /-- At `await drain_task`. -/
  | draining (ending : Ending)
  | ended (ending : Ending)
  deriving DecidableEq

/-- The child.  `proc.returncode` is there once it has exited. -/
inductive Child
  | absent
  | running
  /-- `terminate` or `kill` has been called. -/
  | signalled
  | exited (returncode : ℤ)
  deriving DecidableEq

/-- The generator and its child.  `received` is all that `read` has returned. -/
structure State where
  phase : Phase := .created
  /-- `shutdown_event.is_set()`. -/
  shutdown : Bool := false
  child : Child := .absent
  firstChunkReceived : Bool := false
  accumulated : Bytes := []
  received : Bytes := []
  yielded : List Bytes := []
  deriving DecidableEq

/-- What may happen next. -/
inductive Event
  /-- The consumer asks for a block. -/
  | anext
  | aclose
  | athrow
  /-- The task that runs the generator is cancelled at its `await`. -/
  | cancel
  | shutdown
  | spawned
  | spawnFails
  /-- `read` returns; nothing is the end of the output. -/
  | read (chunk : Bytes)
  | readFails
  | timeout
  | childExits (returncode : ℤ)
  /-- `proc.wait()` returns. -/
  | waited
  /-- `drain_task` is over. -/
  | drained

/-- `proc.returncode == -signal.SIGPIPE`. -/
def isSigpipe (returncode : ℤ) : Bool := returncode == -13

section

variable (P : Setting)

/-- What follows the loop, up to the next suspension. -/
def afterLoop (s : State) : State :=
  if s.accumulated ≠ [] then
    { s with
      phase := .yieldingLast
      yielded := s.yielded ++ [s.accumulated] }
  else { s with phase := .waiting }

/-- The head of the loop. -/
def loopTop (s : State) : State :=
  if s.shutdown then afterLoop s
  else
    let currentTimeout := if s.firstChunkReceived then P.inactivityTimeout else P.startupTimeout
    { s with phase := .reading (P.chunkSize - s.accumulated.length) currentTimeout }

/-- `accumulated.extend(chunk)`. -/
def extend (s : State) (chunk : Bytes) : State :=
  { s with
    firstChunkReceived := true
    accumulated := s.accumulated ++ chunk
    received := s.received ++ chunk }

/-- `yield bytes(accumulated[:chunk_size])`. -/
def yieldBlock (s : State) : State :=
  { s with
    phase := .yielding
    yielded := s.yielded ++ [s.accumulated.take P.chunkSize] }

/-- The rest of the loop, with what `read` has returned. -/
def afterRead (s : State) (chunk : Bytes) : State :=
  if chunk = [] then afterLoop s
  else if P.chunkSize ≤ (extend s chunk).accumulated.length then yieldBlock P (extend s chunk)
  else loopTop P (extend s chunk)

/-- `except Exception`, with `returncode` still `None` of a child that runs. -/
def handle (s : State) (exc : Ending) : State :=
  if s.child = .running then
    { s with
      child := .signalled
      phase := .terminating exc }
  else { s with phase := .draining exc }

/-- What follows `await proc.wait()`. -/
def afterWait (s : State) (returncode : ℤ) : State :=
  if returncode ≠ 0 ∧ s.shutdown = false ∧ isSigpipe returncode = false then
    handle s (.failed returncode)
  else { s with phase := .draining .returned }

/-- One step of the generator, of its consumer or of the child. -/
def step (s : State) : Event → Option State
  | .anext =>
    match s.phase with
    | .created => some { s with phase := .spawning }
    | .yielding => some (loopTop P { s with accumulated := s.accumulated.drop P.chunkSize })
    | .yieldingLast => some { s with phase := .waiting }
    | _ => none
  | .aclose =>
    match s.phase with
    | .created => some { s with phase := .ended .closed }
    -- `GeneratorExit` is no `Exception`
    | .yielding | .yieldingLast => some { s with phase := .draining .closed }
    | _ => none
  | .athrow =>
    match s.phase with
    | .created => some { s with phase := .ended .thrown }
    | .yielding | .yieldingLast => some (handle s .thrown)
    | _ => none
  | .cancel =>
    match s.phase with
    -- `create_subprocess_exec` kills what it has started
    | .spawning =>
      some { s with
        child := .signalled
        phase := .ended .cancelled }
    -- nor is `CancelledError`
    | .reading .. | .waiting | .terminating _ | .killing _ =>
      some { s with phase := .draining .cancelled }
    | .draining ending => some { s with phase := .ended ending }
    | _ => none
  | .shutdown => some { s with shutdown := true }
  | .spawned =>
    match s.phase with
    | .spawning => some (loopTop P { s with child := .running })
    | _ => none
  | .spawnFails =>
    match s.phase with
    | .spawning => some { s with phase := .ended .spawnError }
    | _ => none
  | .read chunk =>
    match s.phase with
    | .reading request _ => if chunk.length ≤ request then some (afterRead P s chunk) else none
    | _ => none
  | .readFails =>
    match s.phase with
    | .reading .. => some (handle s .readError)
    | _ => none
  | .timeout =>
    match s.phase with
    | .reading _ timeout => some (handle s (.timedOut timeout))
    | .terminating exc =>
      -- `kill` of a child that is gone raises `ProcessLookupError`, which is suppressed
      if s.child = .signalled then some { s with phase := .killing exc }
      else some { s with phase := .draining exc }
    | _ => none
  | .childExits returncode =>
    match s.child with
    | .running | .signalled => some { s with child := .exited returncode }
    | _ => none
  | .waited =>
    match s.child, s.phase with
    | .exited returncode, .waiting => some (afterWait s returncode)
    | .exited _, .terminating exc | .exited _, .killing exc =>
      some { s with phase := .draining exc }
    | _, _ => none
  | .drained =>
    match s.phase with
    | .draining ending => some { s with phase := .ended ending }
    | _ => none

end

end Connectors
end Boveda

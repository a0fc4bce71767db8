/-
# The child and its two pipes

`stream_subprocess_with_watchdog` (`src/boveda/connectors.py`) reads the standard output of
the child block by block, and `drain_stderr_nonblocking`, a task of its own, reads the
standard error all along.  The child writes to both in an order of its own, and is blocked
where a pipe takes nothing of a write: a dump that has much to say on its standard error would
get stuck if nobody read it.

`World` is the generator (`Boveda.Connectors.Stream`) with the child, the two pipes and
the drain task.  `flows` says what that is for: what the parties do of themselves comes to an end,
and never while the generator waits for a child that is stuck in its standard error.  One place is
left: after `shutdown_event` the generator waits for the child and reads its standard output no
more, as `read_source` does (`Boveda.Pipeline.Child`).
-/

import Boveda.Connectors.Stream
import Boveda.Lib.StreamReader
import Boveda.Lib.Utf8
import Mathlib.Data.List.DropRight
import Mathlib.Data.Finset.Attr
import Mathlib.Logic.Function.Basic

namespace Boveda
namespace Connectors

open Lib

/-- `STDERR_RING_BUFFER_MAX_CHUNKS`. -/
def stderrRingBufferMaxChunks : ℕ := 16

/-- `STDERR_CHUNK_SIZE`. -/
def stderrChunkSize : ℕ := 4096

/-- What `DatabaseConnectorError` says of an exit code. -/
def errorText (returncode : ℤ) (stderrBuffer : List Bytes) : String :=
  let rawErr := Utf8.decodeReplace stderrBuffer.flatten
  "Subproceso finalizó con error " ++ toString returncode ++ ": " ++
    String.ofList (rawErr.rtake 1000)

/-- What a child writes to. -/
inductive Fd
  | stdout
  | stderr
  deriving DecidableEq

/-- `drain_task`. -/
inductive DrainTask
  | absent
  /-- At `await stream.read(STDERR_CHUNK_SIZE)`. -/
  | reading
  /-- At the end of the output, cancelled, or after an error of a read. -/
  | over
  deriving DecidableEq

/-- The generator, the child with its pipes, and the drain task. -/
structure World (S : ReadPipe) where
  generator : State := {}
  /-- The writes of the child that are left, in its order; the first one may be under way. -/
  program : List (Fd × Bytes)
  channels : Fd → Channel S UInt8 := fun _ => {}
  drainTask : DrainTask := .absent
  /-- `stderr_buffer`. -/
  stderrBuffer : List Bytes := []
  /-- The text of the `DatabaseConnectorError`. -/
  error : Option String := none
  /-- What the child has written to its standard error. -/
  written : Bytes := []
  /-- What the drain task has read. -/
  drained : List Bytes := []

/-- A generator that is about to start a child. -/
def World.init (S : ReadPipe) (program : List (Fd × Bytes)) : World S where
  -- a write of nothing has no effect on a pipe
  program := program.filter fun x => x.2 ≠ []

/-- What may happen next. -/
inductive WorldEvent
  /-- The child writes as much as the pipe takes. -/
  | writes
  | closes (fd : Fd)
  | exits (returncode : ℤ)
  /-- The event loop reads that much of a pipe. -/
  | transport (fd : Fd) (count : ℕ)
  /-- A read of the drain task returns. -/
  | drains
  | drainFails
  | generator (e : Event)

/-- The child can act. -/
def Child.Alive (c : Child) : Prop := c = .running ∨ c = .signalled

instance (c : Child) : Decidable c.Alive := inferInstanceAs (Decidable (_ ∨ _))

variable {S : ReadPipe}

/-- The child has nothing more for a pipe. -/
def World.Finished (w : World S) (fd : Fd) : Prop := ∀ x ∈ w.program, x.1 ≠ fd

instance (w : World S) (fd : Fd) : Decidable (w.Finished fd) :=
  inferInstanceAs (Decidable (∀ x ∈ w.program, _))

/-- The generator goes on, and cancels the drain task in its `finally`. -/
def World.goesTo (w : World S) (generator : State) : World S :=
  { w with
    generator
    drainTask := match generator.phase with
      | .draining _ | .ended _ => .over
      | _ => w.drainTask }

/-- The text of the error for a child that has failed. -/
def World.raised (w : World S) (generator : State) : Option String :=
  match generator.phase with
  | .draining (.failed returncode) => some (errorText returncode w.stderrBuffer)
  | _ => w.error

section

variable (P : Setting)

/-- One turn of `drain_stderr_nonblocking`. -/
def drainStderr (w : World S) : Option (World S) :=
  if w.drainTask = .reading then
    ((w.channels .stderr).read stderrChunkSize).map fun (chunk, c) =>
      if chunk = [] then { w with drainTask := .over }
      else { w with
        channels := Function.update w.channels .stderr c
        stderrBuffer := (w.stderrBuffer ++ [chunk]).rtake stderrRingBufferMaxChunks
        drained := w.drained ++ [chunk] }
  else none

/-- What the generator does; `read` returns what the buffer holds. -/
def generatorStep (w : World S) : Event → Option (World S)
  | .childExits _ => none
  | .spawned =>
    (Connectors.step P w.generator .spawned).map fun s =>
      { w with
        generator := s
        drainTask := .reading }
  | .read chunk =>
    match w.generator.phase with
    | .reading request _ =>
      ((w.channels .stdout).read request).bind fun (data, c) =>
        if data = chunk then
          (Connectors.step P w.generator (.read chunk)).map fun s =>
            { w.goesTo s with channels := Function.update w.channels .stdout c }
        else none
    | _ => none
  | .waited =>
    (Connectors.step P w.generator .waited).map fun s =>
      { w.goesTo s with error := w.raised s }
  | e => (Connectors.step P w.generator e).map w.goesTo

/-- One step. -/
def worldStep (w : World S) : WorldEvent → Option (World S)
  | .writes =>
    match w.program with
    | [] => none
    | (fd, data) :: program =>
      if w.generator.child.Alive then
        ((w.channels fd).write data).map fun (rest, c) =>
          { w with
            program := if rest = [] then program else (fd, rest) :: program
            channels := Function.update w.channels fd c
            written := if fd = .stderr then w.written ++ data.take (data.length - rest.length)
              else w.written }
      else none
  | .closes fd =>
    if w.generator.child.Alive ∧ (w.channels fd).closed = false ∧ w.Finished fd then
      some { w with channels := Function.update w.channels fd (w.channels fd).close }
    else none
  | .exits returncode =>
    -- a signal ends the child where it is
    if w.generator.child = .signalled ∨ w.program = [] then
      (Connectors.step P w.generator (.childExits returncode)).map fun s =>
        { w with
          generator := s
          program := []
          channels := fun fd => (w.channels fd).close }
    else none
  | .transport fd count =>
    ((w.channels fd).transport count).map fun c =>
      { w with channels := Function.update w.channels fd c }
  | .drains => drainStderr w
  | .drainFails =>
    if w.drainTask = .reading then some { w with drainTask := .over } else none
  | .generator e => generatorStep P w e

end

section

variable {P : Setting} {s t : State} {w w' : World S}

/-! ### The steps -/

/-- What a step does. -/
inductive WorldTurn (P : Setting) (w : World S) : WorldEvent → World S → Prop
  | writes {fd : Fd} {data rest : Bytes} {program : List (Fd × Bytes)} {c : Channel S UInt8} :
    w.generator.child.Alive → w.program = (fd, data) :: program →
    (w.channels fd).write data = some (rest, c) →
    WorldTurn P w .writes { w with
      program := if rest = [] then program else (fd, rest) :: program
      channels := Function.update w.channels fd c
      written := if fd = .stderr then w.written ++ data.take (data.length - rest.length)
        else w.written }
  | closes {fd : Fd} : w.generator.child.Alive → (w.channels fd).closed = false → w.Finished fd →
    WorldTurn P w (.closes fd) { w with
      channels := Function.update w.channels fd (w.channels fd).close }
  | exits {returncode : ℤ} : w.generator.child.Alive →
    WorldTurn P w (.exits returncode) { w with
      generator := { w.generator with child := .exited returncode }
      program := []
      channels := fun fd => (w.channels fd).close }
  | transport {fd : Fd} {count : ℕ} {c : Channel S UInt8} :
    (w.channels fd).transport count = some c →
    WorldTurn P w (.transport fd count) { w with channels := Function.update w.channels fd c }
  | drains {chunk : Bytes} {c : Channel S UInt8} : w.drainTask = .reading → chunk ≠ [] →
    (w.channels .stderr).read stderrChunkSize = some (chunk, c) →
    WorldTurn P w .drains { w with
      channels := Function.update w.channels .stderr c
      stderrBuffer := (w.stderrBuffer ++ [chunk]).rtake stderrRingBufferMaxChunks
      drained := w.drained ++ [chunk] }
  | drainEnds : w.drainTask = .reading → (w.channels .stderr).closed = true →
    WorldTurn P w .drains { w with drainTask := .over }
  | drainFails : w.drainTask = .reading → WorldTurn P w .drainFails { w with drainTask := .over }
  | spawned {s : State} : step P w.generator .spawned = some s →
    WorldTurn P w (.generator .spawned) { w with
      generator := s
      drainTask := .reading }
  | reads {request timeout : ℕ} {chunk : Bytes} {c : Channel S UInt8} {s : State} :
    w.generator.phase = .reading request timeout →
    (w.channels .stdout).read request = some (chunk, c) →
    step P w.generator (.read chunk) = some s →
    WorldTurn P w (.generator (.read chunk))
      { w.goesTo s with channels := Function.update w.channels .stdout c }
  | waited {s : State} : step P w.generator .waited = some s →
    WorldTurn P w (.generator .waited) { w.goesTo s with error := w.raised s }
  | other {e : Event} {s : State} : e ≠ .spawned → (∀ chunk, e ≠ .read chunk) →
    (∀ returncode, e ≠ .childExits returncode) → e ≠ .waited → step P w.generator e = some s →
    WorldTurn P w (.generator e) (w.goesTo s)

/-- The exit of the child leaves the generator where it is. -/
theorem childExits_eq_some {returncode : ℤ} (hstep : step P s (.childExits returncode) = some t) :
    s.child.Alive ∧ t = { s with child := .exited returncode } := by
  simp only [step] at hstep
  split at hstep
  · next hchild => exact ⟨.inl hchild, (Option.some.inj hstep).symm⟩
  · next hchild => exact ⟨.inr hchild, (Option.some.inj hstep).symm⟩
  · cases hstep

theorem step_childExits (h : s.child.Alive) (returncode : ℤ) :
    step P s (.childExits returncode) = some { s with child := .exited returncode } := by
  rcases h with h | h <;> rw [step, h]

theorem turn_of_drainStderr (h : drainStderr w = some w') : WorldTurn P w .drains w' := by
  unfold drainStderr at h
  split_ifs at h with hreading
  obtain ⟨⟨chunk, c⟩, hc, h⟩ := Option.map_eq_some_iff.1 h
  dsimp only at h
  split_ifs at h with hchunk
  · obtain rfl := h
    rw [hchunk] at hc
    exact .drainEnds hreading (Channel.ended_of_read_nil (by decide) hc).2.2
  · obtain rfl := h
    exact .drains hreading hchunk hc

theorem turn_of_generatorStep {e : Event} (h : generatorStep P w e = some w') :
    WorldTurn P w (.generator e) w' := by
  cases e with
  | childExits returncode => cases h
  | spawned =>
    obtain ⟨s, hs, rfl⟩ := Option.map_eq_some_iff.1 h
    exact .spawned hs
  | read chunk =>
    simp only [generatorStep] at h
    split at h
    · next hphase =>
      obtain ⟨⟨data, c⟩, hc, h⟩ := Option.bind_eq_some_iff.1 h
      dsimp only at h
      split_ifs at h with hdata
      obtain ⟨s, hs, rfl⟩ := Option.map_eq_some_iff.1 h
      obtain rfl := hdata
      exact .reads hphase hc hs
    · cases h
  | waited =>
    obtain ⟨s, hs, rfl⟩ := Option.map_eq_some_iff.1 h
    exact .waited hs
  | shutdown =>
    obtain rfl := Option.some.inj h
    exact .other Event.noConfusion (fun _ => Event.noConfusion) (fun _ => Event.noConfusion)
      Event.noConfusion rfl
  | anext | aclose | athrow | cancel | spawnFails | readFails | timeout | drained =>
    obtain ⟨s, hs, rfl⟩ := Option.map_eq_some_iff.1 h
    exact .other Event.noConfusion (fun _ => Event.noConfusion) (fun _ => Event.noConfusion)
      Event.noConfusion hs

theorem turn_of_step {e : WorldEvent} (h : worldStep P w e = some w') :
    WorldTurn P w e w' := by
  cases e with
  | writes =>
    simp only [worldStep] at h
    split at h
    · cases h
    · next fd data program hprogram =>
      obtain ⟨halive, h⟩ := Option.ite_none_right_eq_some.1 h
      obtain ⟨⟨rest, c⟩, hc, rfl⟩ := Option.map_eq_some_iff.1 h
      exact .writes halive hprogram hc
  | closes fd =>
    rw [worldStep, ite_eq_iff] at h
    obtain ⟨⟨halive, hclosed, hfinished⟩, h⟩ | ⟨-, h⟩ := h
    · obtain rfl := Option.some.inj h
      exact .closes halive hclosed hfinished
    · cases h
  | exits returncode =>
    rw [worldStep, ite_eq_iff] at h
    obtain ⟨-, h⟩ | ⟨-, h⟩ := h
    · obtain ⟨s, hs, rfl⟩ := Option.map_eq_some_iff.1 h
      obtain ⟨halive, rfl⟩ := childExits_eq_some hs
      exact .exits halive
    · cases h
  | transport fd count =>
    obtain ⟨c, hc, rfl⟩ := Option.map_eq_some_iff.1 h
    exact .transport hc
  | drains => exact turn_of_drainStderr h
  | drainFails =>
    rw [worldStep, ite_eq_iff] at h
    obtain ⟨hreading, h⟩ | ⟨-, h⟩ := h
    · obtain rfl := Option.some.inj h
      exact .drainFails hreading
    · cases h
  | generator e => exact turn_of_generatorStep h

/-- **What the generator does among its pipes, it does by itself**: every run is a run of it. -/
theorem reachable_generator {program : List (Fd × Bytes)}
    (h : Reachable (worldStep P) (.init S program) w) : Reachable (step P) {} w.generator := by
  refine h.invariant (I := fun w => Reachable (step P) {} w.generator) .refl
    fun v e u hv _ hstep => ?_
  cases turn_of_step hstep with
  | writes | closes | transport | drains | drainEnds | drainFails => exact hv
  | exits halive => exact hv.tail trivial (step_childExits halive _)
  | spawned hs => exact hv.tail trivial hs
  | reads _ _ hs => exact hv.tail trivial hs
  | waited hs => exact hv.tail trivial hs
  | other _ _ _ _ hs => exact hv.tail trivial hs

end

end Connectors
end Boveda

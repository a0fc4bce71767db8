/-
# What an error says of the standard error

`stream_subprocess_with_watchdog` keeps the last 16 reads of the standard error in a
`deque`, and a `DatabaseConnectorError` for an exit code ends with the last 1000 characters of
them.  The drain task may be behind at that moment, and a read may be short: `reported` says
what is left of the standard error in every state, and how much of it there is.
-/

import Boveda.Connectors.Flow
import Mathlib.Algebra.Order.BigOperators.Group.List

namespace Boveda
namespace Connectors

open Lib

/-- The generator has cancelled the drain task. -/
def Phase.Over : Phase → Prop
  | .draining _ | .ended _ => True
  | _ => False

/-- The generator is about to raise the error for an exit code, or has raised it. -/
def Phase.Failing (returncode : ℤ) : Phase → Prop
  | .terminating exc | .killing exc | .draining exc | .ended exc => exc = .failed returncode
  | _ => False

variable {S : ReadPipe}

/-- What is kept of the standard error, and what has become of it. -/
structure Told (w : World S) : Prop where
  ok : (w.channels .stderr).Ok
  kept : w.stderrBuffer = w.drained.rtake stderrRingBufferMaxChunks
  short : ∀ chunk ∈ w.drained, chunk.length ≤ stderrChunkSize
  whole : w.drained.flatten ++ (w.channels .stderr).content = w.written
  drainEnded : w.generator.phase.Over → w.drainTask = .over
  error : ∀ returncode, w.generator.phase.Failing returncode →
    w.generator.phase.Over ∧ w.error = some (errorText returncode w.stderrBuffer)

/-- What is said of the standard error. -/
structure Reported (w : World S) : Prop where
  /-- What is kept stands right before what has not been read yet. -/
  piece : ∃ before, before ++ w.stderrBuffer.flatten ++ (w.channels .stderr).content = w.written
  bounded : w.stderrBuffer.flatten.length ≤ stderrRingBufferMaxChunks * stderrChunkSize
  buffered : (w.channels .stderr).buffer.length ≤ 2 * S.limit + S.readMax
  /-- The error for an exit code is about it. -/
  error : ∀ returncode, w.generator.phase = .ended (.failed returncode) →
    w.error = some (errorText returncode w.stderrBuffer)

section

variable {P : Setting} {s t : State} {w w' : World S}

theorem over_of_step {e : Event} (hs : s.phase.Over) (hstep : step P s e = some t) :
    t.phase.Over := by
  cases e with
  | shutdown =>
    obtain rfl := Option.some.inj hstep
    exact hs
  | childExits returncode =>
    obtain ⟨-, rfl⟩ := childExits_eq_some hstep
    exact hs
  | drained =>
    simp only [step] at hstep
    split at hstep
    · obtain rfl := Option.some.inj hstep
      trivial
    · cases hstep
  | cancel =>
    simp only [step] at hstep
    split at hstep
    all_goals first
      | (obtain rfl := Option.some.inj hstep; trivial)
      | cases hstep
  | anext | aclose | athrow | spawned | spawnFails | read _ | readFails | timeout | waited =>
    simp only [step] at hstep
    split at hstep
    all_goals first
      | (next hphase => rw [hphase] at hs; exact hs.elim)
      | cases hstep

theorem not_failing_afterLoop (returncode : ℤ) : ¬ (afterLoop s).phase.Failing returncode := by
  unfold afterLoop
  split_ifs <;> exact id

theorem not_failing_loopTop (returncode : ℤ) : ¬ (loopTop P s).phase.Failing returncode := by
  by_cases hshutdown : s.shutdown = true
  · rw [loopTop, if_pos hshutdown]
    exact not_failing_afterLoop returncode
  · rw [loopTop, if_neg hshutdown]
    exact id

theorem not_failing_afterRead (returncode : ℤ) (chunk : Bytes) :
    ¬ (afterRead P s chunk).phase.Failing returncode := by
  unfold afterRead
  split_ifs
  · exact not_failing_afterLoop returncode
  · exact id
  · exact not_failing_loopTop returncode

theorem failing_handle {exc : Ending} {returncode : ℤ}
    (h : (handle s exc).phase.Failing returncode) : exc = .failed returncode := by
  unfold handle at h
  split_ifs at h <;> exact h

/-- The generator comes to fail for an exit code by hearing of it. -/
theorem failing_of_step {e : Event} {returncode : ℤ} (hstep : step P s e = some t)
    (ht : t.phase.Failing returncode) : s.phase.Failing returncode ∨
      e = .waited ∧ t.phase = .draining (.failed returncode) := by
  cases e with
  | shutdown =>
    obtain rfl := Option.some.inj hstep
    exact .inl ht
  | childExits returncode =>
    obtain ⟨-, rfl⟩ := childExits_eq_some hstep
    exact .inl ht
  | waited =>
    simp only [step] at hstep
    split at hstep
    · next code hchild hphase =>
      obtain rfl := Option.some.inj hstep
      have hdone : s.child ≠ .running := by
        rw [hchild]
        exact Child.noConfusion
      unfold afterWait at ht ⊢
      split_ifs at ht ⊢
      · have hcode := failing_handle ht
        rw [handle, if_neg hdone, hcode]
        exact .inr ⟨rfl, rfl⟩
      · cases ht
    · next hphase =>
      obtain rfl := Option.some.inj hstep
      rw [hphase]
      exact .inl ht
    · next hphase =>
      obtain rfl := Option.some.inj hstep
      rw [hphase]
      exact .inl ht
    · cases hstep
  | timeout =>
    simp only [step] at hstep
    split at hstep
    · obtain rfl := Option.some.inj hstep
      cases failing_handle ht
    · next hphase =>
      rw [hphase]
      split_ifs at hstep <;> (obtain rfl := Option.some.inj hstep; exact .inl ht)
    · cases hstep
  | anext =>
    simp only [step] at hstep
    split at hstep
    · obtain rfl := Option.some.inj hstep
      exact ht.elim
    · obtain rfl := Option.some.inj hstep
      exact absurd ht (not_failing_loopTop returncode)
    · obtain rfl := Option.some.inj hstep
      exact ht.elim
    · cases hstep
  | spawned =>
    simp only [step] at hstep
    split at hstep
    · obtain rfl := Option.some.inj hstep
      exact absurd ht (not_failing_loopTop returncode)
    · cases hstep
  | read chunk =>
    simp only [step] at hstep
    split at hstep
    · split_ifs at hstep
      obtain rfl := Option.some.inj hstep
      exact absurd ht (not_failing_afterRead returncode chunk)
    · cases hstep
  | athrow | readFails =>
    simp only [step] at hstep
    split at hstep
    all_goals first
      | (obtain rfl := Option.some.inj hstep; cases failing_handle ht)
      | (obtain rfl := Option.some.inj hstep; cases ht)
      | cases hstep
  | aclose | cancel | spawnFails | drained =>
    simp only [step] at hstep
    split at hstep
    all_goals first
      | (next hphase => obtain rfl := Option.some.inj hstep; rw [hphase]; exact .inl ht)
      | (obtain rfl := Option.some.inj hstep; cases ht)
      | cases hstep

theorem told_init (S : ReadPipe) (program : List (Fd × Bytes)) : Told (.init S program) where
  ok := Channel.ok_empty
  kept := rfl
  short _ h := nomatch h
  whole := rfl
  drainEnded h := h.elim
  error _ h := h.elim

/-- The last `n` after one more. -/
theorem rtake_append_rtake {α : Type*} (l : List α) (a : α) (n : ℕ) :
    (l.rtake n ++ [a]).rtake n = (l ++ [a]).rtake n := by
  cases n with
  | zero => rw [List.rtake_zero, List.rtake_zero]
  | succ n =>
    rw [List.rtake_concat_succ, List.rtake_concat_succ]
    simp only [List.rtake_eq_reverse_take_reverse, List.reverse_reverse, List.take_take,
      Nat.min_eq_left (Nat.le_succ n)]

theorem not_over_loopTop : ¬ (loopTop P s).phase.Over := by
  by_cases hshutdown : s.shutdown = true
  · rw [loopTop, if_pos hshutdown]
    unfold afterLoop
    split_ifs <;> exact id
  · rw [loopTop, if_neg hshutdown]
    exact id

theorem spawned_eq_some (hstep : step P s .spawned = some t) :
    t = loopTop P { s with child := .running } := by
  simp only [step] at hstep
  split at hstep
  · exact (Option.some.inj hstep).symm
  · cases hstep

theorem drainTask_goesTo (h : s.phase.Over) : (w.goesTo s).drainTask = .over := by
  unfold World.goesTo
  dsimp only
  split
  · rfl
  · rfl
  · next hdraining hended =>
    unfold Phase.Over at h
    split at h
    · next hphase => exact absurd hphase (hdraining _)
    · next hphase => exact absurd hphase (hended _)
    · exact h.elim

theorem Told.goesTo {e : Event} (hw : Told w) (hwaited : e ≠ .waited)
    (hstep : step P w.generator e = some s) : Told (w.goesTo s) where
  ok := hw.ok
  kept := hw.kept
  short := hw.short
  whole := hw.whole
  drainEnded h := drainTask_goesTo h
  error returncode h := by
    have hfailing := (failing_of_step hstep h).resolve_right fun hw => hwaited hw.1
    obtain ⟨hover, hraw⟩ := hw.error returncode hfailing
    exact ⟨over_of_step hover hstep, hraw⟩

/-- A channel changes, and of the standard error nothing is lost. -/
theorem Told.setChannel (hw : Told w) {fd : Fd} {c : Channel S UInt8}
    {program : List (Fd × Bytes)} {written : Bytes} (hok : fd = .stderr → c.Ok)
    (hwhole : fd = .stderr → w.drained.flatten ++ c.content = written)
    (hsame : fd = .stdout → written = w.written) :
    Told { w with program, channels := Function.update w.channels fd c, written } := by
  cases fd with
  | stdout =>
    have hchannel : Function.update w.channels .stdout c .stderr = w.channels .stderr :=
      Function.update_of_ne Fd.noConfusion ..
    obtain rfl := hsame rfl
    exact ⟨hchannel ▸ hw.ok, hw.kept, hw.short, hchannel ▸ hw.whole, hw.drainEnded, hw.error⟩
  | stderr =>
    have hchannel : Function.update w.channels .stderr c .stderr = c := Function.update_self ..
    exact ⟨hchannel.symm ▸ hok rfl, hw.kept, hw.short, hchannel.symm ▸ hwhole rfl, hw.drainEnded,
      hw.error⟩

/-- **One step.** -/
theorem Told.step {e : WorldEvent} (hw : Told w) (hstep : worldStep P w e = some w') :
    Told w' := by
  cases turn_of_step hstep with
  | @writes fd data rest program c _ _ hc =>
    refine hw.setChannel (by rintro rfl; exact hw.ok.write hc) ?_ (by rintro rfl; rfl)
    rintro rfl
    rw [if_pos rfl, Channel.content_write hc, ← List.append_assoc, hw.whole]
  | @closes fd _ _ _ =>
    exact hw.setChannel (by rintro rfl; exact hw.ok.close) (by rintro rfl; exact hw.whole)
      fun _ => rfl
  | @exits returncode halive =>
    exact ⟨hw.ok.close, hw.kept, hw.short, hw.whole, hw.drainEnded, hw.error⟩
  | @transport fd count c hc =>
    refine hw.setChannel (by rintro rfl; exact hw.ok.transport hc) ?_ fun _ => rfl
    rintro rfl
    rw [Channel.content_transport hc, hw.whole]
  | @drains chunk c hreading hchunk hc =>
    have hover (h : w.generator.phase.Over) : False := by
      have hdone := hw.drainEnded h
      rw [hreading] at hdone
      cases hdone
    have hsame : Function.update w.channels .stderr c .stderr = c := Function.update_self ..
    refine ⟨hsame ▸ hw.ok.read hc, ?_, ?_, ?_, fun h => (hover h).elim,
      fun rc h => (hover (hw.error rc h).1).elim⟩
    · show (w.stderrBuffer ++ [chunk]).rtake _ = _
      rw [hw.kept, rtake_append_rtake]
    · refine List.forall_mem_append.2 ⟨hw.short, List.forall_mem_singleton.2 ?_⟩
      obtain ⟨-, rfl, -⟩ | ⟨-, rfl, -⟩ := Channel.read_eq_some hc
      · exact List.length_take_le ..
      · exact Nat.zero_le _
    · show (w.drained ++ [chunk]).flatten ++
        (Function.update w.channels .stderr c .stderr).content = w.written
      rw [hsame, List.flatten_append, List.flatten_singleton, List.append_assoc,
        Channel.content_read hc, hw.whole]
  | drainEnds _ _ => exact ⟨hw.ok, hw.kept, hw.short, hw.whole, fun _ => rfl, hw.error⟩
  | drainFails _ => exact ⟨hw.ok, hw.kept, hw.short, hw.whole, fun _ => rfl, hw.error⟩
  | @spawned g hg =>
    obtain rfl := spawned_eq_some hg
    exact ⟨hw.ok, hw.kept, hw.short, hw.whole, fun h => absurd h not_over_loopTop,
      fun rc h => absurd h (not_failing_loopTop rc)⟩
  | @reads request timeout chunk c g hphase hc hg =>
    exact (hw.goesTo Event.noConfusion hg).setChannel Fd.noConfusion Fd.noConfusion fun _ => rfl
  | @waited g hg =>
    refine ⟨hw.ok, hw.kept, hw.short, hw.whole, fun h => drainTask_goesTo h,
      fun returncode h => ?_⟩
    rcases failing_of_step hg h with hfailing | ⟨-, hphase⟩
    · obtain ⟨hover, hraw⟩ := hw.error returncode hfailing
      refine ⟨over_of_step hover hg, ?_⟩
      show w.raised g = _
      unfold World.raised
      split
      · next hphase =>
        have hcode : Ending.failed _ = .failed returncode :=
          (hphase ▸ h : (Phase.draining _).Failing returncode)
        rw [Ending.failed.inj hcode]
        rfl
      · exact hraw
    · refine ⟨hphase ▸ trivial, ?_⟩
      show w.raised g = _
      rw [World.raised, hphase]
      rfl
  | @other e g hspawned hread hexits hwaited hg => exact hw.goesTo hwaited hg

/-- **What an error says of the standard error**: a piece of what the child has written to it,
of at most 64 KiB, right before what nobody has read. -/
theorem reported (program : List (Fd × Bytes))
    (h : Reachable (worldStep P) (.init S program) w) : Reported w := by
  have hw : Told w := h.invariant (told_init S program) fun _ _ _ hw _ hs => hw.step hs
  have hsplit : (w.drained.rdrop stderrRingBufferMaxChunks).flatten ++ w.stderrBuffer.flatten =
      w.drained.flatten := by
    rw [hw.kept, ← List.flatten_append]
    exact congrArg List.flatten (List.take_append_drop ..)
  refine ⟨⟨_, by rw [hsplit, hw.whole]⟩, ?_, hw.ok.bounded, fun returncode hphase => ?_⟩
  · have hshort : ∀ chunk ∈ w.stderrBuffer, chunk.length ≤ stderrChunkSize := fun chunk hmem =>
      hw.short chunk (List.mem_of_mem_drop (hw.kept ▸ hmem : chunk ∈ w.drained.rtake _))
    have hcount : w.stderrBuffer.length ≤ stderrRingBufferMaxChunks := by
      rw [hw.kept, List.rtake, List.length_drop]
      omega
    rw [List.length_flatten]
    refine (List.sum_le_card_nsmul _ _ (List.forall_mem_map.2 hshort)).trans ?_
    rw [List.length_map, Nat.nsmul_eq_mul]
    exact Nat.mul_le_mul_right _ hcount
  · exact (hw.error returncode (hphase ▸ rfl)).2

end

/-- What has been written as UTF-8 can be read in the error. -/
theorem errorText_of_utf8 {returncode : ℤ} {stderrBuffer : List Bytes} {text : List Char}
    (h : stderrBuffer.flatten = text.flatMap String.utf8EncodeChar) :
    errorText returncode stderrBuffer = "Subproceso finalizó con error " ++ toString returncode ++
      ": " ++ String.ofList (text.rtake 1000) := by
  unfold errorText
  rw [h, Utf8.decodeReplace_flatMap]

/-- A child that writes two bytes and complains. -/
def failingProgram : List (Fd × Bytes) :=
  [(.stdout, [1, 2]), (.stderr, "no existe".toList.flatMap String.utf8EncodeChar)]

/-- It exits, and the generator fails. -/
def failingWorld : List WorldEvent :=
  [.generator .anext, .generator .spawned, .writes, .writes, .transport .stderr 9,
    .transport .stdout 2, .drains, .generator (.read [1, 2]), .exits 1, .generator (.read []),
    .generator .anext, .generator .waited, .generator .drained]

/-- What it has complained of is what is kept and what the error says. -/
theorem reported_failingWorld : ∃ w,
    exec (worldStep { chunkSize := 4 }) (.init .linux failingProgram) failingWorld = some w ∧
    w.generator.phase = .ended (.failed 1) ∧
    w.error = some "Subproceso finalizó con error 1: no existe" ∧ Reported w := by
  obtain ⟨w, hexec, hphase, hkept⟩ : ∃ w,
      exec (worldStep { chunkSize := 4 }) (.init .linux failingProgram) failingWorld = some w ∧
      w.generator.phase = .ended (.failed 1) ∧
      w.stderrBuffer = ["no existe".toList.flatMap String.utf8EncodeChar] := ⟨_, rfl, rfl, rfl⟩
  have hreported : Reported w := reported _ (reachable_of_exec hexec)
  have htext : errorText 1 w.stderrBuffer = "Subproceso finalizó con error " ++ toString (1 : ℤ) ++
      ": " ++ String.ofList ("no existe".toList.rtake 1000) :=
    errorText_of_utf8 (by rw [hkept, List.flatten_singleton])
  refine ⟨w, hexec, hphase, ?_, hreported⟩
  rw [hreported.error 1 hphase, htext]
  decide

end Connectors
end Boveda

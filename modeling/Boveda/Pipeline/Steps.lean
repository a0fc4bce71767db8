/-
# What a step of the pipeline does

For each of the three kinds of tasks, what its step function does, transition by
transition: `ReaderStep`, `WriterStep` and `UploadStep`.  What is proved of the
pipeline is proved of these, so that the branches of `readSource`,
`compressEncryptUpload` and `doUpload` are gone through once.
-/

import Boveda.Pipeline.Streaming

namespace Boveda
namespace Pipeline

open Lib Crypto

variable {S : Setting} {s s' : State}

/-! ### The reader -/

/-- What a step of `read_source` does. -/
inductive ReaderStep (gear : UInt8 → ℕ) (s : State) : State → Prop
  | spawned : s.reader = .spawning → ReaderStep gear s { s with reader := .reading {} }
  | read {fastcdc : Streamer} (count : ℕ) : s.reader = .reading fastcdc →
    (count = 0 → s.remaining = []) → ReaderStep gear s { s with
      remaining := s.remaining.drop count
      reader := .next s.shutdownEvent (count == 0)
        (fastcdc.feed gear (s.remaining.take count) (count == 0)).2
        (fastcdc.feed gear (s.remaining.take count) (count == 0)).1 }
  | putChunk {fastcdc : Streamer} {isEof : Bool} {chunk : Bytes} {chunks : List Bytes} :
    s.reader = .putting fastcdc isEof chunk chunks → ReaderStep gear s { s with
      queue := s.queue ++ [some chunk]
      reader := .put fastcdc isEof chunks }
  | putSentinel : s.reader = .puttingSentinel → ReaderStep gear s { s with
      queue := s.queue ++ [none]
      reader := .putSentinel }
  | resumed {fastcdc : Streamer} {isEof : Bool} {chunks : List Bytes} :
    s.reader = .put fastcdc isEof chunks →
      ReaderStep gear s { s with reader := .next s.shutdownEvent isEof fastcdc chunks }
  | resumedSentinel : s.reader = .putSentinel → ReaderStep gear s { s with reader := .waiting }
  | interrupted : s.shutdownEvent = true → ReaderStep gear s { s with reader := .waiting }
  | exited : s.reader = .waiting → ReaderStep gear s { s with reader := .returned }
  | raised : ReaderStep gear s { s with reader := .raised }

theorem readerStep_of_readSource {gear : UInt8 → ℕ} {e : ReaderEvent}
    (h : readSource gear s e = some s') : ReaderStep gear s s' := by
  cases e with
  | spawned =>
    dsimp only [readSource] at h
    split at h
    · next hr => cases h; exact .spawned hr
    · cases h
  | read count =>
    dsimp only [readSource] at h
    split at h
    · next fastcdc hr =>
      split_ifs at h with hcount
      cases h
      exact .read count hr hcount.2
    · cases h
  | failed =>
    dsimp only [readSource] at h
    split at h <;> cases h <;> exact .raised
  | put =>
    dsimp only [readSource] at h
    split_ifs at h
    split at h
    · next hr => cases h; exact .putChunk hr
    · next hr => cases h; exact .putSentinel hr
    · cases h
  | resumed waited =>
    dsimp only [readSource] at h
    split_ifs at h with hw
    have hshut : waited = true → s.shutdownEvent = true := by
      rintro rfl
      simpa using hw
    have hnext : ∀ isEof fastcdc, s.shutdownEvent = true →
        Reader.next s.shutdownEvent isEof fastcdc [] = .waiting := fun isEof fastcdc ht => by
      simp [Reader.next, Reader.afterLoop, ht]
    split at h
    · cases h
      rw [hnext _ _ (hshut rfl)]
      exact .interrupted (hshut rfl)
    · cases h
      rw [hnext _ _ (hshut rfl)]
      exact .interrupted (hshut rfl)
    · next hr => cases h; exact .resumed hr
    · cases h
      exact .interrupted (hshut rfl)
    · next hr => cases h; exact .resumedSentinel hr
    · cases h
  | exited returncode =>
    dsimp only [readSource] at h
    split at h
    · next hr =>
      split_ifs at h
      · cases h; exact .raised
      · cases h; exact .exited hr
    · cases h

/-- `read_source` changes nothing but the queue and what it has to itself. -/
theorem ReaderStep.frame {gear : UInt8 → ℕ} (h : ReaderStep gear s s') :
    ∃ remaining reader queue, s' = { s with remaining, reader, queue } := by
  cases h <;> exact ⟨_, _, _, rfl⟩

/-! ### The writer -/

/-- What a step of `compress_encrypt_upload` does. -/
inductive WriterStep (S : Setting) (s : State) : State → Prop
  | get {item : Option Bytes} {queue : List (Option Bytes)} : s.writer = .getting →
    s.queue = item :: queue → WriterStep S s { s with
      queue
      writer := .got item }
  | leaves : s.writer = .got none ∨ s.shutdownEvent = true → WriterStep S s s.afterLoop
  | sealed {chunk : Bytes} {block : Sealed} {nonceGen : NonceGenerator} :
    s.writer = .got (some chunk) →
    sealChunk S.primitives S.dek S.snapshotId s.chunkSeq s.nonceGen chunk =
      some (block, nonceGen) → WriterStep S s { s with
        nonceGen
        writer := .acquiring block }
  | unsealed {chunk : Bytes} : s.writer = .got (some chunk) →
    WriterStep S s { s with writer := .raised }
  | acquired {block : Sealed} : s.writer = .acquiring block → WriterStep S s { s with
      uploadSemaphore := s.uploadSemaphore - 1
      tasks := s.tasks ++ [{ block }]
      chunkSeq := s.chunkSeq + 1
      writer := .getting }
  | gathered : s.writer = .gathering →
    (∀ task ∈ s.tasks, task.gathered = true → task.status.done = true) →
      WriterStep S s { s with writer := .returned }
  | failed {task : UploadTask} : s.writer = .gathering → task ∈ s.tasks → task.status = .raised →
    WriterStep S s { s with
      shutdownEvent := true
      writer := .raised }

theorem writerStep_of_compressEncryptUpload {e : WriterEvent}
    (h : compressEncryptUpload S.primitives S.dek S.snapshotId s e = some s') :
    WriterStep S s s' := by
  cases e with
  | get =>
    dsimp only [compressEncryptUpload] at h
    split at h
    · next hw hq => cases h; exact .get hw hq
    · cases h
  | resumed waited =>
    dsimp only [compressEncryptUpload] at h
    split_ifs at h with hw
    have hshut : waited = true → s.shutdownEvent = true := by
      rintro rfl
      simpa using hw
    split at h
    · cases h; exact .leaves (.inr (hshut rfl))
    · cases h; exact .leaves (.inr (hshut rfl))
    · next hr => cases h; exact .leaves (.inl hr)
    · next hr =>
      split at h
      · cases h; exact .unsealed hr
      · next hseal => cases h; exact .sealed hr hseal
    · cases h
  | acquired =>
    dsimp only [compressEncryptUpload] at h
    split at h
    · next hr =>
      split_ifs at h
      cases h
      exact .acquired hr
    · cases h
  | gathered =>
    dsimp only [compressEncryptUpload] at h
    split at h
    · next hr =>
      split_ifs at h with hdone hraised
      · obtain ⟨task, hmem, htask⟩ := List.any_eq_true.1 hraised
        cases h
        refine .failed hr hmem ?_
        simpa using (Bool.and_eq_true_iff.1 htask).2
      · cases h
        refine .gathered hr fun task hmem hg => ?_
        have hnot : ¬ (task.gathered && !task.status.done) = true := fun ht =>
          hdone (List.any_eq_true.2 ⟨task, hmem, ht⟩)
        simpa [hg] using hnot
    · cases h

/-- `compress_encrypt_upload` does not touch the reader, nor end the pipeline. -/
theorem WriterStep.frame (h : WriterStep S s s') :
    s'.remaining = s.remaining ∧ s'.reader = s.reader ∧ s'.ending = s.ending := by
  cases h with
  | leaves =>
    unfold State.afterLoop
    split_ifs <;> exact ⟨rfl, rfl, rfl⟩
  | _ => exact ⟨rfl, rfl, rfl⟩

/-- What `afterLoop` does to the tasks. -/
theorem map_block_afterLoop (s : State) :
    s.afterLoop.tasks.map UploadTask.block = s.tasks.map UploadTask.block := by
  unfold State.afterLoop
  split_ifs
  · simp [Function.comp_def]
  · rfl

theorem writer_afterLoop (s : State) :
    s.afterLoop.writer = .gathering ∨ s.afterLoop.writer = .returned := by
  unfold State.afterLoop
  split_ifs
  · exact .inl rfl
  · exact .inr rfl

/-! ### The uploads -/

/-- What a step of a `do_upload` does to its task and to `shutdown_event`. -/
inductive UploadStep (raises : ℕ → Bool) (shutdownEvent : Bool) (task : UploadTask) :
    UploadTask → Bool → Prop
  | skipped : task.status = .created → shutdownEvent = true →
    UploadStep raises shutdownEvent task { task with status := .skipped } shutdownEvent
  | calling : task.status = .created →
    UploadStep raises shutdownEvent task { task with status := .calling } shutdownEvent
  | raised : task.status = .calling → raises task.block.seq = true →
    UploadStep raises shutdownEvent task { task with status := .raised } true
  | returned : task.status = .calling → raises task.block.seq = false →
    UploadStep raises shutdownEvent task { task with status := .returned } shutdownEvent
  | discarded : task.status.done = true →
    UploadStep raises shutdownEvent task { task with background := false } shutdownEvent

theorem uploadStep_of_doUpload {raises : ℕ → Bool} {k : ℕ} {task : UploadTask} {e : UploadEvent}
    (h : doUpload raises s k task e = some s') :
    ∃ task' shutdownEvent uploadSemaphore,
      UploadStep raises s.shutdownEvent task task' shutdownEvent ∧ s' = { s with
        uploadSemaphore
        tasks := s.tasks.set k task'
        shutdownEvent } := by
  cases e with
  | started =>
    dsimp only [doUpload] at h
    split_ifs at h with hcreated hshut
    · cases h; exact ⟨_, _, _, .skipped hcreated hshut, rfl⟩
    · cases h; exact ⟨_, _, _, .calling hcreated, rfl⟩
  | finished =>
    dsimp only [doUpload] at h
    split_ifs at h with hcalling hraises
    · cases h; exact ⟨_, _, _, .raised hcalling hraises, rfl⟩
    · cases h; exact ⟨_, _, _, .returned hcalling (Bool.eq_false_iff.2 hraises), rfl⟩
  | discarded =>
    dsimp only [doUpload] at h
    split_ifs at h with hdone
    cases h
    exact ⟨_, _, _, .discarded (Bool.and_eq_true_iff.1 hdone).1, rfl⟩

theorem UploadStep.block_eq {raises : ℕ → Bool} {shutdownEvent shutdownEvent' : Bool}
    {task task' : UploadTask} (h : UploadStep raises shutdownEvent task task' shutdownEvent') :
    task'.block = task.block := by
  cases h <;> rfl

/-- A task that goes on is still about its block. -/
theorem map_block_set {tasks : List UploadTask} {k : ℕ} {task task' : UploadTask}
    (hk : tasks[k]? = some task) (hblock : task'.block = task.block) :
    (tasks.set k task').map UploadTask.block = tasks.map UploadTask.block := by
  rw [List.map_set, hblock]
  refine List.ext_getElem? fun i => ?_
  rw [List.getElem?_set, List.getElem?_map]
  split_ifs with h₁ h₂
  · subst h₁
    rw [hk]
    rfl
  · subst h₁
    rw [List.length_map] at h₂
    rw [List.getElem?_eq_none (by omega)]
    rfl
  · rfl

/-! ### The pipeline -/

/-- A pipeline that returns while `shutdown_event` is not set. -/
theorem streamingPipeline_eq (h : streamingPipeline s = some s') (hs : s.shutdownEvent = false) :
    ∃ ending, s' = { s with ending := some ending } ∧
      (ending = .returned → s.reader = .returned ∧ s.writer = .returned) := by
  unfold streamingPipeline at h
  split_ifs at h with hwake hshut hraised
  · rw [hs] at hshut
    cases hshut
  · cases h
    exact ⟨.raised, rfl, fun hr => (nomatch hr)⟩
  · cases h
    refine ⟨.returned, rfl, fun _ => ?_⟩
    rcases hwake with hr | hw | hboth
    · exact absurd (.inl hr) hraised
    · exact absurd (.inr hw) hraised
    · exact hboth

end Pipeline
end Boveda

/-
# The uploads of a pipeline, one by one

What a step of the pipeline does to the `k`-th `do_upload` (`TaskStep`), and that the blocks
are numbered as their tasks are (`Numbered`).  Neither asks whether an upload raises; so both
hold of a pipeline whose `upload_callback` is a part of a larger system, which decides from
one step to the next what becomes of a call (`Boveda.Restore.Concurrent`).
-/

import Boveda.Pipeline.Completion

namespace Boveda
namespace Pipeline

open Lib Crypto

variable {S : Setting} {s s' : State} {e : Event}

/-- What a step does to the `k`-th task. -/
inductive TaskStep (S : Setting) (e : Event) (k : ℕ) : Option UploadTask → Option UploadTask → Prop
  | absent : TaskStep S e k none none
  | created {block : Sealed} : TaskStep S e k none (some { block })
  | kept {task task' : UploadTask} : task'.block = task.block → task'.status = task.status →
    TaskStep S e k (some task) (some task')
  | calling {task : UploadTask} : task.status = .created →
    TaskStep S e k (some task) (some { task with status := .calling })
  | skipped {task : UploadTask} : task.status = .created →
    TaskStep S e k (some task) (some { task with status := .skipped })
  | returned {task : UploadTask} : e = .upload k .finished → task.status = .calling →
    S.raises task.block.seq = false →
    TaskStep S e k (some task) (some { task with status := .returned })
  | raised {task : UploadTask} : e = .upload k .finished → task.status = .calling →
    S.raises task.block.seq = true →
    TaskStep S e k (some task) (some { task with status := .raised })

theorem TaskStep.refl (k : ℕ) (task : Option UploadTask) : TaskStep S e k task task := by
  cases task with
  | none => exact .absent
  | some task => exact .kept rfl rfl

/-- What a step of a `do_upload` does to its task. -/
theorem taskStep_of_doUpload {k : ℕ} {task : UploadTask} {e : UploadEvent}
    (hk : s.tasks[k]? = some task) (h : doUpload S.raises s k task e = some s') (i : ℕ) :
    TaskStep S (.upload k e) i s.tasks[i]? s'.tasks[i]? := by
  have hset : ∀ task', TaskStep S (.upload k e) k (some task) (some task') →
      TaskStep S (.upload k e) i s.tasks[i]? (s.tasks.set k task')[i]? := by
    intro task' htask
    by_cases hi : k = i
    · subst hi
      rw [List.getElem?_set_self (List.getElem?_eq_some_iff.1 hk).1, hk]
      exact htask
    · rw [List.getElem?_set_ne hi]
      exact .refl i _
  cases e with
  | started =>
    dsimp only [doUpload] at h
    split_ifs at h with hcreated <;> cases h
    · exact hset _ (.skipped hcreated)
    · exact hset _ (.calling hcreated)
  | finished =>
    dsimp only [doUpload] at h
    split_ifs at h with hcalling hraises <;> cases h
    · exact hset _ (.raised rfl hcalling hraises)
    · exact hset _ (.returned rfl hcalling (Bool.eq_false_iff.2 hraises))
  | discarded =>
    dsimp only [doUpload] at h
    split_ifs at h
    cases h
    exact hset _ (.kept rfl rfl)

/-- **What a step does to a task.** -/
theorem taskStep_of_step (h : step S s e = some s') (k : ℕ) :
    TaskStep S e k s.tasks[k]? s'.tasks[k]? := by
  unfold step at h
  split_ifs at h
  cases e with
  | reader e =>
    obtain ⟨remaining, reader, queue, rfl⟩ := (readerStep_of_readSource h).frame
    exact .refl k _
  | writer e =>
    cases writerStep_of_compressEncryptUpload h with
    | leaves =>
      unfold State.afterLoop
      split_ifs
      · rw [List.getElem?_map]
        cases s.tasks[k]? with
        | none => exact .absent
        | some task => exact .kept rfl rfl
      · exact .refl k _
    | acquired =>
      dsimp only
      rw [List.getElem?_append]
      split_ifs with hlt
      · exact .refl k _
      · rw [List.getElem?_eq_none (Nat.not_lt.1 hlt), List.getElem?_singleton]
        split_ifs
        · exact .created
        · exact .absent
    | _ => exact .refl k _
  | upload i e =>
    obtain ⟨task, hi, h⟩ := Option.bind_eq_some_iff.1 h
    exact taskStep_of_doUpload hi h k
  | wake =>
    dsimp only [streamingPipeline] at h
    split_ifs at h <;> cases h <;> exact .refl k _

/-- A task keeps its block. -/
theorem block_of_step (h : step S s e = some s') {task : UploadTask} (hmem : task ∈ s.tasks) :
    ∃ task' ∈ s'.tasks, task'.block = task.block := by
  obtain ⟨k, hk⟩ := List.mem_iff_getElem?.1 hmem
  have htask := taskStep_of_step h k
  rw [hk] at htask
  revert htask
  generalize hk' : s'.tasks[k]? = o
  intro htask
  cases htask with
  | kept hblock => exact ⟨_, List.mem_of_getElem? hk', hblock⟩
  | calling | skipped | returned | raised => exact ⟨_, List.mem_of_getElem? hk', rfl⟩

/-- An upload that has raised stays so. -/
theorem raised_of_step (h : step S s e = some s') (hs : ∃ task ∈ s.tasks, task.status = .raised) :
    ∃ task ∈ s'.tasks, task.status = .raised := by
  obtain ⟨task, hmem, hraised⟩ := hs
  obtain ⟨k, hk⟩ := List.mem_iff_getElem?.1 hmem
  have htask := taskStep_of_step h k
  rw [hk] at htask
  revert htask
  generalize hk' : s'.tasks[k]? = o
  intro htask
  cases htask with
  | kept _ hstatus => exact ⟨_, List.mem_of_getElem? hk', hstatus.trans hraised⟩
  | calling hs | skipped hs | returned _ hs | raised _ hs => cases hraised.symm.trans hs

/-! ### Numbers -/

/-- The `k`-th task has a block with the number `k`, and the block that waits for its task
has the next one. -/
structure Numbered (P : Primitives) (dek : Bytes) (snapshotId : String) (s : State) : Prop where
  count : s.chunkSeq = s.tasks.length
  tasks : ∀ k task, s.tasks[k]? = some task → ∃ chunk, Seals P dek snapshotId k chunk task.block
  acquiring : ∀ block, s.writer = .acquiring block →
    ∃ chunk, Seals P dek snapshotId s.chunkSeq chunk block

theorem numbered_init (P : Primitives) (dek : Bytes) (snapshotId : String) (data : Bytes)
    (nonceGen : NonceGenerator) : Numbered P dek snapshotId (.init data nonceGen) where
  count := rfl
  tasks _ _ h := nomatch h
  acquiring _ h := nomatch h

variable {P : Primitives} {dek : Bytes} {snapshotId : String}

/-- The writer has no block in hand, and the tasks have the blocks that they had. -/
theorem Numbered.of_map_block (hs : Numbered P dek snapshotId s) (hseq : s'.chunkSeq = s.chunkSeq)
    (hblocks : s'.tasks.map UploadTask.block = s.tasks.map UploadTask.block)
    (hwriter : ∀ block, s'.writer = .acquiring block → s.writer = .acquiring block) :
    Numbered P dek snapshotId s' := by
  refine ⟨?_, fun k task hk => ?_, fun block hb => ?_⟩
  · rw [hseq, hs.count]
    simpa using (congrArg List.length hblocks).symm
  · have hk' : (s'.tasks.map UploadTask.block)[k]? = some task.block := by
      rw [List.getElem?_map, hk]
      rfl
    rw [hblocks, List.getElem?_map] at hk'
    obtain ⟨task₀, hk₀, hblock⟩ := Option.map_eq_some_iff.1 hk'
    exact hblock ▸ hs.tasks k task₀ hk₀
  · rw [hseq]
    exact hs.acquiring block (hwriter block hb)

/-- **One step**, whatever it is. -/
theorem Numbered.step (hs : Numbered S.primitives S.dek S.snapshotId s)
    (h : step S s e = some s') : Numbered S.primitives S.dek S.snapshotId s' := by
  unfold Pipeline.step at h
  split_ifs at h
  cases e with
  | reader e =>
    obtain ⟨remaining, reader, queue, rfl⟩ := (readerStep_of_readSource h).frame
    exact hs.of_map_block rfl rfl fun _ => id
  | writer e =>
    cases writerStep_of_compressEncryptUpload h with
    | leaves =>
      refine hs.of_map_block ?_ (map_block_afterLoop s) fun block hb => ?_
      · unfold State.afterLoop
        split_ifs <;> rfl
      · rcases writer_afterLoop s with hw | hw <;> cases hw.symm.trans hb
    | sealed _ hseal =>
      refine ⟨hs.count, hs.tasks, fun block hb => ?_⟩
      obtain rfl := Writer.acquiring.inj hb
      exact ⟨_, seals_sealChunk hseal⟩
    | @acquired block hw =>
      refine ⟨?_, fun k task hk => ?_, fun _ hb => nomatch hb⟩
      · rw [List.length_append, List.length_singleton, hs.count]
      · dsimp only at hk
        rw [List.getElem?_append] at hk
        split_ifs at hk with hlt
        · exact hs.tasks k task hk
        · obtain ⟨hle, hget⟩ := List.getElem?_eq_some_iff.1 hk
          have hk0 : k - s.tasks.length = 0 := by simpa using hle
          have hkey : k = s.chunkSeq := by
            rw [hs.count]
            omega
          have htask : task.block = block := by
            rw [← hget]
            simp [hk0]
          rw [htask, hkey]
          exact hs.acquiring _ hw
    | _ => exact hs.of_map_block rfl rfl fun _ hb => nomatch hb
  | upload k e =>
    obtain ⟨task, hk, h⟩ := Option.bind_eq_some_iff.1 h
    obtain ⟨task', shutdownEvent, sem, hstep, rfl⟩ := uploadStep_of_doUpload h
    exact hs.of_map_block rfl (map_block_set hk hstep.block_eq) fun _ => id
  | wake =>
    dsimp only [streamingPipeline] at h
    split_ifs at h <;> cases h <;> exact hs.of_map_block rfl rfl fun _ => id

/-! ### A pipeline that returns -/

/-- When no upload has raised, a pipeline that returns leaves no upload open. -/
theorem returned_of_completed {data : Bytes} {nonceGen : NonceGenerator}
    (hrun : Runs S data nonceGen s) (hestado : s.estado = .completed)
    (hraises : ∀ i < (chunksOf S.gear data).length, S.raises i = false) :
    ∀ task ∈ s.tasks, task.status = .returned := by
  have hinv : Inv S data nonceGen s := hrun.invariant (inv_init S data nonceGen)
    fun t e u ht _ hstep => inv_step hraises ht hstep
  intro task hmem
  have hdone := hinv.uploads.returned (hinv.ended (estado_completed hestado)).2 task hmem
  have hhealthy := hinv.uploads.healthy task hmem
  cases hstatus : task.status with
  | created | calling => rw [hstatus] at hdone; cases hdone
  | returned => rfl
  | raised => exact absurd hstatus hhealthy.ne_raised
  | skipped => exact absurd hstatus hhealthy.ne_skipped

end Pipeline
end Boveda

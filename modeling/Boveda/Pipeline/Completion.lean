/-
# What a backup that says COMPLETED has uploaded

While no upload raises, no chunk is lost (`Progress`) and the writer waits for every
upload (`Uploads`); so the pipeline returns only after everything has been uploaded
(`uploaded_of_completed`).

An upload that raises does set `shutdown_event`, and that is what loses its
error: `streaming_pipeline` returns normally when the event is set.  A backup that
says COMPLETED is complete exactly when no upload has raised
(`complete_iff_noneRaises`).
-/

import Boveda.Pipeline.Progress

namespace Boveda
namespace Pipeline

open Lib Crypto

variable {S : Setting} {data : Bytes} {nonceGen : NonceGenerator} {s s' : State}

/-! ### The uploads -/

/-- A task as long as nothing fails: it leaves `background_tasks` only when it is over. -/
structure UploadTask.Healthy (task : UploadTask) : Prop where
  ne_raised : task.status ≠ .raised
  ne_skipped : task.status ≠ .skipped
  done : task.background = false → task.status.done = true

theorem UploadStep.healthy {raises : ℕ → Bool} {task task' : UploadTask} {shutdownEvent : Bool}
    (h : UploadStep raises false task task' shutdownEvent) (hraises : raises task.block.seq = false)
    (ht : task.Healthy) : task'.Healthy ∧ shutdownEvent = false := by
  obtain ⟨h₁, h₂, h₃⟩ := ht
  cases h with
  | skipped _ hshut => cases hshut
  | calling hcreated =>
    refine ⟨⟨by simp, by simp, fun hb => ?_⟩, rfl⟩
    have := h₃ hb
    rw [hcreated] at this
    cases this
  | raised _ hr => rw [hraises] at hr; cases hr
  | returned => exact ⟨⟨by simp, by simp, fun _ => rfl⟩, rfl⟩
  | discarded hdone => exact ⟨⟨h₁, h₂, fun _ => hdone⟩, rfl⟩

/-- The uploads as long as nothing fails: `gather` waits for all that are not over,
and the writer returns when all are. -/
structure Uploads (s : State) : Prop where
  healthy : ∀ task ∈ s.tasks, task.Healthy
  gathering : s.writer = .gathering → ∀ task ∈ s.tasks,
    task.background = true → task.gathered = true
  returned : s.writer = .returned → ∀ task ∈ s.tasks, task.status.done = true

theorem WriterStep.uploads (h : WriterStep S s s') (hs : s.shutdownEvent = false)
    (hu : Uploads s) : Uploads s' ∧ s'.shutdownEvent = false := by
  obtain ⟨hhealthy, hgathering, hreturned⟩ := hu
  cases h with
  | get => exact ⟨⟨hhealthy, fun h => (nomatch h), fun h => (nomatch h)⟩, hs⟩
  | leaves =>
    unfold State.afterLoop
    split_ifs with hany
    · refine ⟨⟨fun task hmem => ?_, fun _ task hmem hb => ?_, fun h => (nomatch h)⟩, hs⟩
      · obtain ⟨t, ht, rfl⟩ := List.mem_map.1 hmem
        obtain ⟨h₁, h₂, h₃⟩ := hhealthy t ht
        exact ⟨h₁, h₂, h₃⟩
      · obtain ⟨t, ht, rfl⟩ := List.mem_map.1 hmem
        exact hb
    · refine ⟨⟨hhealthy, fun h => (nomatch h), fun _ task hmem => ?_⟩, hs⟩
      refine (hhealthy task hmem).done (Bool.eq_false_iff.2 fun hb => ?_)
      exact hany (List.any_eq_true.2 ⟨task, hmem, hb⟩)
  | sealed => exact ⟨⟨hhealthy, fun h => (nomatch h), fun h => (nomatch h)⟩, hs⟩
  | unsealed => exact ⟨⟨hhealthy, fun h => (nomatch h), fun h => (nomatch h)⟩, hs⟩
  | acquired =>
    refine ⟨⟨fun task hmem => ?_, fun h => (nomatch h), fun h => (nomatch h)⟩, hs⟩
    rcases List.mem_append.1 hmem with hmem | hmem
    · exact hhealthy task hmem
    · obtain rfl := List.mem_singleton.1 hmem
      exact ⟨by simp, by simp, fun h => (nomatch h)⟩
  | gathered hw hdone =>
    refine ⟨⟨hhealthy, fun h => (nomatch h), fun _ task hmem => ?_⟩, hs⟩
    by_cases hb : task.background = true
    · exact hdone task hmem (hgathering hw task hmem hb)
    · exact (hhealthy task hmem).done (Bool.eq_false_iff.2 hb)
  | failed _ hmem hraised => exact absurd hraised (hhealthy _ hmem).ne_raised

theorem UploadStep.uploads {raises : ℕ → Bool} {task task' : UploadTask} {k uploadSemaphore : ℕ}
    {shutdownEvent : Bool} (h : UploadStep raises false task task' shutdownEvent)
    (hraises : raises task.block.seq = false) (hk : s.tasks[k]? = some task) (hu : Uploads s) :
    Uploads { s with
      uploadSemaphore
      tasks := s.tasks.set k task'
      shutdownEvent } := by
  have hmem := List.mem_of_getElem? hk
  refine ⟨fun t ht => ?_, fun hw t ht hb => ?_, fun hw t ht => ?_⟩
  · rcases List.mem_or_eq_of_mem_set ht with ht | rfl
    · exact hu.healthy t ht
    · exact (h.healthy hraises (hu.healthy task hmem)).1
  · rcases List.mem_or_eq_of_mem_set ht with ht | rfl
    · exact hu.gathering hw t ht hb
    · have hg := hu.gathering hw task hmem
      cases h with
      | skipped | calling | raised | returned => exact hg hb
      | discarded => cases hb
  · rcases List.mem_or_eq_of_mem_set ht with ht | rfl
    · exact hu.returned hw t ht
    · have hdone := hu.returned hw task hmem
      cases h with
      | skipped | raised | returned => rfl
      | calling hcreated => rw [hcreated] at hdone; cases hdone
      | discarded => exact hdone

/-! ### The whole pipeline -/

/-- **The invariant of a run in which nothing fails.** -/
structure Inv (S : Setting) (data : Bytes) (nonceGen : NonceGenerator) (s : State) : Prop where
  shutdownEvent : s.shutdownEvent = false
  progress : ∃ consumed chunks rest sent, Progress S data nonceGen s consumed chunks rest sent
  uploads : Uploads s
  ended : s.ending = some .returned → s.reader = .returned ∧ s.writer = .returned

theorem inv_init (S : Setting) (data : Bytes) (nonceGen : NonceGenerator) :
    Inv S data nonceGen (.init data nonceGen) := by
  refine ⟨rfl, ⟨[], [], chunksOf S.gear data, false, rfl, ⟨rfl, rfl⟩, rfl, rfl, fun later => ?_⟩,
    ⟨fun _ h => (nomatch h), fun h => (nomatch h), fun h => (nomatch h)⟩, fun h => (nomatch h)⟩
  simp [State.made, State.init]

/-- **One step** of a run in which no chunk's upload raises. -/
theorem inv_step (hraises : ∀ i < (chunksOf S.gear data).length, S.raises i = false) {e : Event}
    (hi : Inv S data nonceGen s) (h : step S s e = some s') : Inv S data nonceGen s' := by
  obtain ⟨hshut, ⟨consumed, chunks, rest, sent, hp⟩, hu, hended⟩ := hi
  unfold step at h
  split_ifs at h with hend
  rw [Option.isSome_iff_ne_none, not_not] at hend
  cases e with
  | reader e =>
    have hstep := readerStep_of_readSource h
    have hprogress := hstep.progress hshut hp
    obtain ⟨remaining, reader, queue, rfl⟩ := hstep.frame
    exact ⟨hshut, ⟨consumed, hprogress⟩, ⟨hu.healthy, hu.gathering, hu.returned⟩,
      fun hr => absurd (hend.symm.trans hr) (by simp)⟩
  | writer e =>
    have hstep := writerStep_of_compressEncryptUpload h
    obtain ⟨consumed', chunks', hprogress⟩ := hstep.progress hshut hp
    obtain ⟨hu', hshut'⟩ := hstep.uploads hshut hu
    refine ⟨hshut', ⟨consumed', chunks', rest, sent, hprogress⟩, hu', fun hr => ?_⟩
    rw [hstep.frame.2.2, hend] at hr
    cases hr
  | upload k e =>
    obtain ⟨task, hk, h⟩ := Option.bind_eq_some_iff.1 h
    obtain ⟨task', shutdownEvent, sem, hstep, rfl⟩ := uploadStep_of_doUpload h
    have hmem := List.mem_of_getElem? hk
    have hseq := hraises _ (hp.seq_lt hmem)
    rw [hshut] at hstep
    refine ⟨(hstep.healthy hseq (hu.healthy task hmem)).2, ⟨consumed, chunks, rest, sent, ?_⟩,
      hstep.uploads hseq hk hu, fun hr => absurd (hend.symm.trans hr) (by simp)⟩
    have hblock := map_block_set hk hstep.block_eq
    refine ⟨hp.split, hp.reader, hp.writer, ?_, ?_⟩
    · rw [List.length_set]
      exact hp.chunkSeq
    · simp only [State.made, hblock]
      exact hp.sealing
  | wake =>
    obtain ⟨ending, rfl, hboth⟩ := streamingPipeline_eq h hshut
    refine ⟨hshut, ⟨consumed, chunks, rest, sent, ?_⟩,
      ⟨hu.healthy, hu.gathering, hu.returned⟩, fun hr => hboth (Option.some.inj hr)⟩
    exact ⟨hp.split, hp.reader, hp.writer, hp.chunkSeq, hp.sealing⟩

/-- A run of the pipeline on a subprocess that outputs `data`, with the nonces of
`nonceGen`. -/
abbrev Runs (S : Setting) (data : Bytes) (nonceGen : NonceGenerator) (s : State) : Prop :=
  Reachable (step S) (.init data nonceGen) s

theorem estado_completed {s : State} (h : s.estado = .completed) : s.ending = some .returned := by
  unfold State.estado at h
  split at h
  · cases h
  · assumption
  · cases h

/-- **A pipeline that returns after no upload has raised** has read everything, and has
uploaded what its chunks are sealed to. -/
theorem uploaded_of_completed (hrun : Runs S data nonceGen s) (hestado : s.estado = .completed)
    (hraises : ∀ i < (chunksOf S.gear data).length, S.raises i = false) :
    s.remaining = [] ∧ sealAll S.primitives S.dek S.snapshotId 0 nonceGen (chunksOf S.gear data) =
      some s.uploaded := by
  have hinv : Inv S data nonceGen s := hrun.invariant (inv_init S data nonceGen)
    fun t e u ht _ hstep => inv_step hraises ht hstep
  obtain ⟨-, ⟨consumed, chunks, rest, sent, hp⟩, hu, hended⟩ := hinv
  obtain ⟨hreader, hwriter⟩ := hended (estado_completed hestado)
  have hr := hp.reader
  rw [hreader] at hr
  obtain ⟨⟨hremaining, rfl⟩, -⟩ := hr
  have hw := hp.writer
  rw [hwriter] at hw
  obtain ⟨rfl, -⟩ := hw
  have hall : s.uploaded = s.made := by
    rw [State.made, hwriter, List.append_nil, State.uploaded]
    refine congrArg _ (List.filter_eq_self.2 fun task hmem => ?_)
    obtain ⟨h₁, h₂, -⟩ := hu.healthy task hmem
    have hdone := hu.returned hwriter task hmem
    cases hstatus : task.status <;> rw [hstatus] at hdone h₁ h₂ <;> simp_all [UploadStatus.done]
  have hsplit := hp.split
  rw [List.append_nil, List.append_nil] at hsplit
  rw [hall, ← hsplit]
  exact ⟨hremaining, hp.sealAll_consumed⟩

/-- Whatever fails, an upload whose call raises does not return. -/
theorem returned_step {e : Event} (h : step S s e = some s')
    (hs : ∀ task ∈ s.tasks, task.status = .returned → S.raises task.block.seq = false) :
    ∀ task ∈ s'.tasks, task.status = .returned → S.raises task.block.seq = false := by
  unfold step at h
  split_ifs at h
  cases e with
  | reader e =>
    obtain ⟨remaining, reader, queue, rfl⟩ := (readerStep_of_readSource h).frame
    exact hs
  | writer e =>
    cases writerStep_of_compressEncryptUpload h with
    | leaves =>
      unfold State.afterLoop
      split_ifs
      · intro task hmem hret
        obtain ⟨t, ht, rfl⟩ := List.mem_map.1 hmem
        exact hs t ht hret
      · exact hs
    | acquired =>
      intro task hmem hret
      rcases List.mem_append.1 hmem with hmem | hmem
      · exact hs task hmem hret
      · obtain rfl := List.mem_singleton.1 hmem
        cases hret
    | _ => exact hs
  | upload k e =>
    obtain ⟨task, hk, h⟩ := Option.bind_eq_some_iff.1 h
    obtain ⟨task', shutdownEvent, sem, hstep, rfl⟩ := uploadStep_of_doUpload h
    intro t ht hret
    rcases List.mem_or_eq_of_mem_set ht with ht | rfl
    · exact hs t ht hret
    · cases hstep with
      | skipped | calling | raised => cases hret
      | returned _ hraises => exact hraises
      | discarded => exact hs task (List.mem_of_getElem? hk) hret
  | wake =>
    dsimp only [streamingPipeline] at h
    split_ifs at h <;> cases h <;> exact hs

/-- **A backup that says COMPLETED is complete exactly when no upload has raised.**
Whatever the interleaving: when `streaming_pipeline` returns, everything has been read
and `upload_callback` has returned normally for every chunk, once, if and only if no
call for one of the chunks raises. -/
theorem complete_iff_noneRaises (S : Setting) (data : Bytes) (nonceGen : NonceGenerator)
    {s : State} (hrun : Runs S data nonceGen s) (hestado : s.estado = .completed) :
    s.Complete S.gear data ↔ ∀ i < (chunksOf S.gear data).length, S.raises i = false := by
  constructor
  · rintro ⟨-, huploaded⟩ i hi
    have hmem : i ∈ s.uploaded.map Sealed.seq := huploaded ▸ List.mem_range.2 hi
    obtain ⟨block, hblock, rfl⟩ := List.mem_map.1 hmem
    obtain ⟨task, htask, rfl⟩ := List.mem_map.1 hblock
    obtain ⟨htask, hret⟩ := List.mem_filter.1 htask
    have hreturned : ∀ task ∈ s.tasks, task.status = .returned → S.raises task.block.seq = false :=
      hrun.invariant (I := fun s => ∀ task ∈ s.tasks, task.status = .returned →
        S.raises task.block.seq = false) (fun _ h => (nomatch h))
        fun _ _ _ ht _ hstep => returned_step hstep ht
    exact hreturned task htask (by simpa using hret)
  · intro hraises
    obtain ⟨hremaining, hseal⟩ := uploaded_of_completed hrun hestado hraises
    refine ⟨hremaining, ?_⟩
    rw [map_seq_sealAll hseal, List.range_eq_range']

/-! ### An output of one byte -/

/-- The reading of an output that is shorter than a chunk. -/
theorem runs_short (S : Setting) (data : Bytes) (nonceGen : NonceGenerator) (hne : data ≠ [])
    (hlen : data.length < minChunkSize) (hio : data.length ≤ ioReadSize) :
    Runs S data nonceGen
      { State.init [] nonceGen with reader := .putting {} true data [] } := by
  have hcut : firstCut S.gear data = none := if_pos hlen
  have hpos : data.length ≠ 0 := fun h => hne (List.length_eq_zero_iff.1 h)
  have hread : ∀ fastcdc : Streamer, fastcdc.Ok S.gear → fastcdc.buffer = data →
      fastcdc.feed S.gear [] true = ([data], {}) := by
    intro fastcdc hok hbuf
    have happ := hok.append []
    rw [Streamer.feed]
    rw [List.append_nil] at happ ⊢
    rw [feedLoop_of_none_true happ (hbuf.symm ▸ hcut) (hbuf.symm ▸ hne), hbuf]
  have hfresh : Streamer.Ok S.gear {} := Streamer.ok_fresh []
  obtain ⟨h₁, h₂, h₃⟩ := feed_false hfresh data
  rw [List.nil_append, Cutter.drain_of_none (C := cutter S.gear) hcut] at h₁ h₂
  have hspawn : step S (.init data nonceGen) (.reader .spawned) =
      some { State.init data nonceGen with reader := .reading {} } := rfl
  have hfirst : step S { State.init data nonceGen with reader := .reading {} }
      (.reader (.read data.length)) =
        some { State.init [] nonceGen with
          reader := .reading (Streamer.feed S.gear {} data false).2 } := by
    have hcount : (data.length == 0) = false := by simpa using hpos
    simp [step, readSource, State.init, hio, hpos, hcount, h₁, Reader.next]
  have hsecond : step S
      { State.init [] nonceGen with reader := .reading (Streamer.feed S.gear {} data false).2 }
      (.reader (.read 0)) =
        some { State.init [] nonceGen with reader := .putting {} true data [] } := by
    simp [step, readSource, State.init, hread _ h₃ h₂, Reader.next]
  exact ((Reach.refl.tail trivial hspawn).tail trivial hfirst).tail trivial hsecond

/-- The setting of the examples. -/
def smallSetting (raises : ℕ → Bool) : Setting :=
  ⟨clearPrimitives, fun _ => 0, [7], "snap-1", raises⟩

/-- A run on an output of one byte, up to the end of the upload. -/
def smallEvents : List Event :=
  [.reader .put, .writer .get, .reader (.resumed false), .writer (.resumed false),
    .writer .acquired, .upload 0 .started, .upload 0 .finished, .upload 0 .discarded]

/-- What the run of the two examples goes through. -/
theorem runs_small {α : Type} (raises : ℕ → Bool) (events : List Event) (f : State → α) (a : α)
    (h : (exec (step (smallSetting raises))
      { State.init [] smallNonces with reader := .putting {} true [1] [] } events).map f = some a) :
    ∃ s, Runs (smallSetting raises) [1] smallNonces s ∧ f s = a := by
  obtain ⟨s, hexec, hf⟩ := Option.map_eq_some_iff.1 h
  have hshort := runs_short (smallSetting raises) [1] smallNonces (by simp)
    (by unfold minChunkSize; decide) (by unfold ioReadSize; decide)
  exact ⟨s, Reach.exec hshort hexec, hf⟩

/-- The upload succeeds, and the backup is complete. -/
theorem complete_iff_noneRaises_small : ∃ s, Runs (smallSetting fun _ => false) [1] smallNonces s ∧
    s.estado = .completed ∧ (s.Complete (smallSetting fun _ => false).gear [1] ↔
      ∀ i < (chunksOf (smallSetting fun _ => false).gear [1]).length,
        (smallSetting fun _ => false).raises i = false) := by
  obtain ⟨s, hrun, hestado⟩ := runs_small (fun _ => false)
    (smallEvents ++ [.reader .put, .reader (.resumed false), .reader (.exited 0),
      .writer .get, .writer (.resumed false), .wake])
    State.estado .completed (by decide +kernel)
  exact ⟨s, hrun, hestado, complete_iff_noneRaises _ [1] smallNonces hrun hestado⟩

/-- **An upload that raises is lost**: the only chunk is not uploaded, and the
backup says COMPLETED. -/
theorem completed_of_raised : ∃ s, Runs (smallSetting fun _ => true) [1] smallNonces s ∧
    s.estado = .completed ∧ ¬ s.Complete (smallSetting fun _ => true).gear [1] := by
  obtain ⟨s, hrun, hs⟩ := runs_small (fun _ => true)
    (smallEvents ++ [.reader (.resumed true), .reader (.exited 0), .writer (.resumed true), .wake])
    (fun s => (s.estado, s.uploaded)) (.completed, []) (by decide +kernel)
  obtain ⟨hestado, huploaded⟩ := Prod.mk.inj hs
  refine ⟨s, hrun, hestado, fun hcomplete => ?_⟩
  have hlength := congrArg List.length hcomplete.2
  rw [huploaded, List.map_nil, List.length_range, List.length_nil] at hlength
  have hflatten : (chunksOf (smallSetting fun _ => true).gear [1]).flatten = [1] :=
    flatten_chunksOf [1]
  rw [List.length_eq_zero_iff.1 hlength.symm] at hflatten
  cases hflatten

end Pipeline
end Boveda

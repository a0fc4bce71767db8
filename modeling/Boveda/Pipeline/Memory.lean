/-
# The memory of the pipeline

The pipeline holds chunks in many places: the buffer of the streamer, the queue,
the variables of the two coroutines and the arguments of the uploads that are under
way.  `Footprint` is the pipeline together with these variables; what it holds in
any state that any interleaving reaches is less than `memoryBound`, a number that
does not depend on the stream (`memory_bounded`).

The libraries enter with what they document of lengths: `ZSTD_compressBound` and the
16 bytes that AES-GCM appends.
-/

import Boveda.Pipeline.Completion
import Boveda.Pipeline.Sizes
import Mathlib.Algebra.Order.BigOperators.Group.List

namespace Boveda
namespace Pipeline

open Lib Crypto

/-! ### What the coroutines hold -/

/-- The variables of the two coroutines that hold bytes of the stream.  A variable
keeps its value until it is assigned again, also while its coroutine waits. -/
structure Locals where
  /-- `raw_bytes` of `read_source`. -/
  rawBytes : Bytes := []
  /-- `fastcdc._buffer`. -/
  buffer : Bytes := []
  /-- `chunk` of `read_source`, which `put_task` holds as well. -/
  yielded : Bytes := []
  /-- `chunk` of `compress_encrypt_upload`. -/
  chunk : Bytes := []
  compressed : Bytes := []
  ciphertext : Bytes := []
  finalPayload : Bytes := []

/-- The variables of `read_source` where it stands.  `feed` is a generator, so the
chunks that are still to come are still in the buffer. -/
def Locals.atReader (l : Locals) : Reader → Locals
  | .reading fastcdc => { l with buffer := fastcdc.buffer }
  | .putting fastcdc _ chunk chunks =>
    { l with
      buffer := chunks.flatten ++ fastcdc.buffer
      yielded := chunk }
  | .put fastcdc _ chunks => { l with buffer := chunks.flatten ++ fastcdc.buffer }
  | _ => l

/-- The variables of `compress_encrypt_upload` once it has sealed a chunk, or failed
to. -/
def Locals.atWriter (P : Primitives) (l : Locals) : Writer → Writer → Locals
  | .got (some chunk), .acquiring block =>
    { l with
      chunk
      compressed := P.compress chunk
      ciphertext := block.payload.drop 26
      finalPayload := block.payload }
  | .got (some chunk), .raised =>
    { l with
      chunk
      compressed := P.compress chunk }
  | _, _ => l

/-- The variables after a step from `s` to `s'`. -/
def Locals.update (P : Primitives) (l : Locals) (s s' : State) : Event → Locals
  | .reader (.read count) => { l with rawBytes := s.remaining.take count }.atReader s'.reader
  | .reader _ => l.atReader s'.reader
  | .writer _ => l.atWriter P s.writer s'.writer
  | _ => l

/-- The pipeline and the variables of its coroutines. -/
structure Footprint where
  state : State
  locals : Locals := {}

/-- One step of the pipeline. -/
def Footprint.step (S : Setting) (f : Footprint) (e : Event) : Option Footprint :=
  (Pipeline.step S f.state e).map fun s => ⟨s, f.locals.update S.primitives f.state s e⟩

/-- Before the first step. -/
def Footprint.init (data : Bytes) (nonceGen : NonceGenerator) : Footprint :=
  { state := .init data nonceGen }

/-! ### What is counted -/

/-- The calls of `upload_callback` that are under way. -/
def State.calling (s : State) : ℕ := s.tasks.countP fun task => task.status = .calling

/-- The tasks that have a place of the semaphore. -/
def State.active (s : State) : ℕ := s.tasks.countP fun task => !task.status.done

/-- The tasks whose exception keeps their frame alive. -/
def State.failed (s : State) : ℕ := s.tasks.countP fun task => task.status = .raised

/-- The task holds its payload: it is not over, or its exception holds its frame. -/
def UploadTask.holds (task : UploadTask) : Bool := !task.status.done || task.status = .raised

/-- The bytes of an entry of the queue. -/
def itemLength (item : Option Bytes) : ℕ := (item.getD []).length

/-- The bytes that `get_task` holds. -/
def Writer.gotLength : Writer → ℕ
  | .got item => itemLength item
  | _ => 0

/-- The raw bytes of the stream that the pipeline holds. -/
def Footprint.heldRaw (f : Footprint) : ℕ :=
  f.locals.rawBytes.length + f.locals.buffer.length + f.locals.yielded.length +
    (f.state.queue.map itemLength).sum + f.state.writer.gotLength + f.locals.chunk.length

/-- The compressed and encrypted bytes that the pipeline holds. -/
def Footprint.heldEncrypted (f : Footprint) : ℕ :=
  f.locals.compressed.length + f.locals.ciphertext.length + f.locals.finalPayload.length +
    ((f.state.tasks.filter UploadTask.holds).map fun task => task.block.payload.length).sum

/-- All of them. -/
def Footprint.held (f : Footprint) : ℕ := f.heldRaw + f.heldEncrypted

/-- `ZSTD_compressBound`. -/
def compressBound (n : ℕ) : ℕ := n + n / 256 + if n < 131072 then (131072 - n) / 2048 else 0

/-- What a chunk can be compressed to. -/
def compressedMax : ℕ := maxChunkSize + maxChunkSize / 256 + 64

/-- What a block can be: header, compressed chunk and tag. -/
def payloadMax : ℕ := 26 + (compressedMax + 16)

/-- What the pipeline can hold. -/
def memoryBound : ℕ :=
  (ioReadSize + (maxChunkSize + ioReadSize) + maxChunkSize + pipelineQueueMaxsize * maxChunkSize +
    maxChunkSize + maxChunkSize) +
  (compressedMax + payloadMax + payloadMax + 2 * maxConcurrentUploads * payloadMax)

theorem compressBound_le {n : ℕ} (h : n ≤ maxChunkSize) : compressBound n ≤ compressedMax := by
  have hdiv : n / 256 ≤ maxChunkSize / 256 := Nat.div_le_div_right h
  unfold compressBound compressedMax
  split_ifs <;> omega

/-! ### The reader -/

section

variable {gear : UInt8 → ℕ}

/-- What a call of `feed` has cut and not yet yielded, and what it leaves. -/
structure Streamer.Bounded (gear : UInt8 → ℕ) (fastcdc : Streamer) (isEof : Bool)
    (chunks : List Bytes) : Prop where
  chunk : ∀ c ∈ chunks, c.length ≤ maxChunkSize
  total : chunks.flatten.length + fastcdc.buffer.length < maxChunkSize + ioReadSize
  later : isEof = false → fastcdc.Ok gear ∧ fastcdc.buffer.length < maxChunkSize

/-- What `read_source` holds where it stands. -/
def Reader.Bounded (gear : UInt8 → ℕ) : Reader → Prop
  | .reading fastcdc => fastcdc.Ok gear ∧ fastcdc.buffer.length < maxChunkSize
  | .putting fastcdc isEof chunk chunks =>
    chunk.length ≤ maxChunkSize ∧ fastcdc.Bounded gear isEof chunks
  | .put fastcdc isEof chunks => fastcdc.Bounded gear isEof chunks
  | _ => True

/-- What the variables of `read_source` hold. -/
structure Locals.ReaderBounded (l : Locals) : Prop where
  rawBytes : l.rawBytes.length ≤ ioReadSize
  buffer : l.buffer.length < maxChunkSize + ioReadSize
  yielded : l.yielded.length ≤ maxChunkSize

theorem ioReadSize_pos : 0 < ioReadSize := by
  unfold ioReadSize
  decide

/-- **A call of `feed`** cuts small chunks and leaves a small buffer. -/
theorem Streamer.bounded_feed {s : Streamer} (hs : s.Ok gear)
    (hlen : s.buffer.length < maxChunkSize) {data : Bytes} (hdata : data.length ≤ ioReadSize)
    (isEof : Bool) : (s.feed gear data isEof).2.Bounded gear isEof (s.feed gear data isEof).1 where
  chunk _ hc := length_le_of_mem_feed hs hc
  total := by
    rw [length_feed]
    omega
  later heof := by
    subst heof
    obtain ⟨-, hbuf, hok⟩ := feed_false hs data
    exact ⟨hok, hbuf ▸ length_lt_drain_snd _⟩

theorem Streamer.Bounded.tail {fastcdc : Streamer} {isEof : Bool} {chunk : Bytes}
    {chunks : List Bytes} (h : fastcdc.Bounded gear isEof (chunk :: chunks)) :
    fastcdc.Bounded gear isEof chunks where
  chunk c hc := h.chunk c (List.mem_cons_of_mem _ hc)
  total := by
    have := h.total
    rw [List.flatten_cons, List.length_append] at this
    omega
  later := h.later

/-- The next thing that `read_source` does with what it has cut. -/
theorem Streamer.Bounded.next {fastcdc : Streamer} {isEof : Bool} {chunks : List Bytes}
    (h : fastcdc.Bounded gear isEof chunks) (shutdownEvent : Bool) :
    (Reader.next shutdownEvent isEof fastcdc chunks).Bounded gear := by
  cases chunks with
  | cons chunk chunks => exact ⟨h.chunk chunk (List.mem_cons_self ..), h.tail⟩
  | nil =>
    unfold Reader.next Reader.afterLoop
    split_ifs with hend
    · trivial
    · trivial
    · rw [Bool.not_eq_true, Bool.or_eq_false_iff] at hend
      exact h.later hend.1

/-- `read_source` reads at most `io_read_size` bytes at once. -/
theorem count_le_of_read {s s' : State} {count : ℕ}
    (h : readSource gear s (.read count) = some s') : count ≤ ioReadSize := by
  dsimp only [readSource] at h
  split at h
  · split_ifs at h with hcount
    exact hcount.1.trans (min_le_left _ _)
  · cases h

/-- What a step of `read_source` takes from the subprocess and gives to the queue. -/
structure Moves (s s' : State) : Prop where
  remaining : ∃ count ≤ ioReadSize, s'.remaining = s.remaining.drop count
  queue : s'.queue = s.queue ∨
    s.queue.length < pipelineQueueMaxsize ∧ ∃ item, s'.queue = s.queue ++ [item]

theorem Moves.stays {s s' : State} (hrem : s'.remaining = s.remaining)
    (hqueue : s'.queue = s.queue) : Moves s s' :=
  ⟨⟨0, Nat.zero_le _, hrem⟩, .inl hqueue⟩

theorem moves_readSource {s s' : State} {e : ReaderEvent} (h : readSource gear s e = some s') :
    Moves s s' := by
  cases e with
  | read count =>
    have hcount := count_le_of_read h
    dsimp only [readSource] at h
    split at h
    · split_ifs at h
      cases h
      exact ⟨⟨count, hcount, rfl⟩, .inl rfl⟩
    · cases h
  | put =>
    dsimp only [readSource] at h
    split_ifs at h with hroom
    split at h <;> cases h <;> exact ⟨⟨0, Nat.zero_le _, rfl⟩, .inr ⟨hroom, _, rfl⟩⟩
  | spawned =>
    dsimp only [readSource] at h
    split at h <;> cases h
    exact .stays rfl rfl
  | failed =>
    dsimp only [readSource] at h
    split at h <;> cases h <;> exact .stays rfl rfl
  | resumed waited =>
    dsimp only [readSource] at h
    split_ifs at h
    split at h <;> cases h <;> exact .stays rfl rfl
  | exited returncode =>
    dsimp only [readSource] at h
    split at h
    · split_ifs at h <;> cases h <;> exact .stays rfl rfl
    · cases h

/-- **The reader stays small.** -/
theorem ReaderStep.bounded {s s' : State} (h : ReaderStep gear s s') (hmoves : Moves s s')
    (hs : s.reader.Bounded gear) : s'.reader.Bounded gear := by
  cases h with
  | spawned hr => exact ⟨Streamer.ok_fresh [], Nat.lt_of_lt_of_le minChunkSize_pos
      minChunkSize_le_maxChunkSize⟩
  | read count hr hend =>
    rw [hr] at hs
    obtain ⟨count', hcount', hdrop⟩ := hmoves.remaining
    have hlen : (s.remaining.take count).length ≤ ioReadSize := by
      have := congrArg List.length hdrop
      rw [List.length_drop, List.length_drop] at this
      rw [List.length_take]
      omega
    exact (Streamer.bounded_feed hs.1 hs.2 hlen _).next _
  | putChunk hr =>
    rw [hr] at hs
    exact hs.2
  | putSentinel hr => trivial
  | resumed hr =>
    rw [hr] at hs
    exact Streamer.Bounded.next hs _
  | resumedSentinel hr => trivial
  | interrupted hshut => trivial
  | exited hr => trivial
  | raised => trivial

/-- The variables of `read_source` hold what it stands at. -/
theorem Locals.ReaderBounded.atReader {l : Locals} (hl : l.ReaderBounded) {r : Reader}
    (hr : r.Bounded gear) : (l.atReader r).ReaderBounded := by
  cases r with
  | reading fastcdc =>
    have := ioReadSize_pos
    exact ⟨hl.rawBytes, Nat.lt_add_right _ hr.2, hl.yielded⟩
  | putting fastcdc isEof chunk chunks =>
    exact ⟨hl.rawBytes, (List.length_append).trans_lt hr.2.total, hr.1⟩
  | put fastcdc isEof chunks =>
    exact ⟨hl.rawBytes, (List.length_append).trans_lt hr.total, hl.yielded⟩
  | _ => exact hl

/-- The writer leaves the variables of `read_source` alone. -/
theorem Locals.ReaderBounded.atWriter {l : Locals} (hl : l.ReaderBounded) (P : Primitives)
    (w w' : Writer) : (l.atWriter P w w').ReaderBounded := by
  unfold Locals.atWriter
  split <;> exact ⟨hl.rawBytes, hl.buffer, hl.yielded⟩

/-! ### The queue and the writer -/

/-- What the queue and `compress_encrypt_upload` hold. -/
structure WriterBounded (s : State) (l : Locals) : Prop where
  length : s.queue.length ≤ pipelineQueueMaxsize
  queue : ∀ item ∈ s.queue, itemLength item ≤ maxChunkSize
  got : s.writer.gotLength ≤ maxChunkSize
  block : ∀ block, s.writer = .acquiring block → block.payload.length ≤ payloadMax
  tasks : ∀ task ∈ s.tasks, task.block.payload.length ≤ payloadMax
  chunk : l.chunk.length ≤ maxChunkSize
  compressed : l.compressed.length ≤ compressedMax
  ciphertext : l.ciphertext.length ≤ payloadMax
  finalPayload : l.finalPayload.length ≤ payloadMax

theorem ReaderStep.writerBounded {s s' : State} {l l' : Locals} (h : ReaderStep gear s s')
    (hmoves : Moves s s') (hr : s.reader.Bounded gear) (hs : WriterBounded s l)
    (hl : ∃ rawBytes buffer yielded, l' = { l with rawBytes, buffer, yielded }) :
    WriterBounded s' l' := by
  have hlength : s'.queue.length ≤ pipelineQueueMaxsize := by
    rcases hmoves.queue with heq | ⟨hroom, item, heq⟩
    · rw [heq]
      exact hs.length
    · rw [heq, List.length_append]
      exact hroom
  have hqueue : ∀ item ∈ s'.queue, itemLength item ≤ maxChunkSize := by
    cases h with
    | @putChunk fastcdc isEof chunk chunks hput =>
      intro item hitem
      rcases List.mem_append.1 hitem with hold | hnew
      · exact hs.queue item hold
      · rw [hput] at hr
        rw [List.mem_singleton.1 hnew]
        exact hr.1
    | putSentinel hput =>
      intro item hitem
      rcases List.mem_append.1 hitem with hold | hnew
      · exact hs.queue item hold
      · rw [List.mem_singleton.1 hnew]
        exact Nat.zero_le _
    | _ => exact hs.queue
  obtain ⟨remaining, reader, queue, rfl⟩ := h.frame
  obtain ⟨rawBytes, buffer, yielded, rfl⟩ := hl
  exact ⟨hlength, hqueue, hs.got, hs.block, hs.tasks, hs.chunk, hs.compressed, hs.ciphertext,
    hs.finalPayload⟩

end

section

variable {S : Setting}

/-- What the libraries document of lengths. -/
structure Setting.Lengths (S : Setting) : Prop where
  compress : ∀ chunk, (S.primitives.compress chunk).length ≤ compressBound chunk.length
  encrypt : ∀ key nonce data aad,
    (S.primitives.aead.encrypt key nonce data aad).length = data.length + 16

/-- A block is little longer than its chunk. -/
theorem Setting.Lengths.payload (hS : S.Lengths) {chunkSeq : ℕ}
    {nonceGen nonceGen' : NonceGenerator} {chunk : Bytes} {block : Sealed}
    (hlen : chunk.length ≤ maxChunkSize)
    (h : sealChunk S.primitives S.dek S.snapshotId chunkSeq nonceGen chunk =
      some (block, nonceGen')) : block.payload.length ≤ payloadMax := by
  obtain ⟨nonce, header, -, hheader, -, -, hpayload⟩ := seals_sealChunk h
  have hcompress := (hS.compress chunk).trans (compressBound_le hlen)
  rw [hpayload, List.length_append, length_createChunkHeader hheader, hS.encrypt, payloadMax]
  omega

/-- The writer seals nothing in a step to any other place. -/
theorem Locals.atWriter_eq (P : Primitives) (l : Locals) (w : Writer) {w' : Writer}
    (hblock : ∀ block, w' ≠ .acquiring block) (hraised : w' ≠ .raised) :
    l.atWriter P w w' = l := by
  unfold Locals.atWriter
  split
  · exact absurd rfl (hblock _)
  · exact absurd rfl hraised
  · rfl

/-- The writer goes on with the same queue and the same blocks. -/
theorem WriterBounded.goes {s s' : State} {l : Locals} (hs : WriterBounded s l)
    (hqueue : s'.queue = s.queue)
    (htasks : ∀ task ∈ s'.tasks, task.block.payload.length ≤ payloadMax)
    (hgot : s'.writer.gotLength = 0) (hblock : ∀ block, s'.writer ≠ .acquiring block) :
    WriterBounded s' l where
  length := hqueue ▸ hs.length
  queue := hqueue ▸ hs.queue
  got := hgot ▸ Nat.zero_le _
  block b hb := absurd hb (hblock b)
  tasks := htasks
  chunk := hs.chunk
  compressed := hs.compressed
  ciphertext := hs.ciphertext
  finalPayload := hs.finalPayload

/-- **The writer stays small.** -/
theorem WriterStep.bounded (hS : S.Lengths) {s s' : State} {l : Locals} (h : WriterStep S s s')
    (hs : WriterBounded s l) : WriterBounded s' (l.atWriter S.primitives s.writer s'.writer) := by
  cases h with
  | @get item queue hw hq =>
    have hmem : ∀ i ∈ queue, i ∈ s.queue := fun i hi => hq ▸ List.mem_cons_of_mem _ hi
    have hlen : queue.length ≤ pipelineQueueMaxsize :=
      (Nat.le_succ _).trans ((congrArg List.length hq).symm.trans_le hs.length)
    rw [Locals.atWriter_eq _ _ _ (fun block hb => by cases hb) (fun hb => by cases hb)]
    exact ⟨hlen, fun i hi => hs.queue i (hmem i hi), hs.queue item (hq ▸ List.mem_cons_self ..),
      (fun block hb => by cases hb), hs.tasks, hs.chunk, hs.compressed, hs.ciphertext,
      hs.finalPayload⟩
  | leaves hw =>
    have htasks : ∀ task ∈ s.afterLoop.tasks, task.block.payload.length ≤ payloadMax := by
      intro task htask
      have hblock := List.mem_map_of_mem (f := UploadTask.block) htask
      rw [map_block_afterLoop] at hblock
      obtain ⟨task', htask', heq⟩ := List.mem_map.1 hblock
      exact heq ▸ hs.tasks task' htask'
    have hqueue : s.afterLoop.queue = s.queue := by
      unfold State.afterLoop
      split_ifs <;> rfl
    rcases writer_afterLoop s with hwriter | hwriter
    · rw [Locals.atWriter_eq _ _ _ (by simp [hwriter]) (by simp [hwriter])]
      exact hs.goes hqueue htasks (by rw [hwriter]; rfl) (by simp [hwriter])
    · rw [Locals.atWriter_eq _ _ _ (by simp [hwriter]) (by simp [hwriter])]
      exact hs.goes hqueue htasks (by rw [hwriter]; rfl) (by simp [hwriter])
  | @sealed chunk block nonceGen hw hseal =>
    have hlen : chunk.length ≤ maxChunkSize := by
      have := hs.got
      rwa [hw] at this
    have hpayload := hS.payload hlen hseal
    rw [hw]
    refine ⟨hs.length, hs.queue, Nat.zero_le _, ?_, hs.tasks, hlen,
      (hS.compress chunk).trans (compressBound_le hlen), ?_, hpayload⟩
    · intro block' hb
      cases hb
      exact hpayload
    · exact (List.length_drop ..).trans_le ((Nat.sub_le _ _).trans hpayload)
  | @unsealed chunk hw =>
    have hlen : chunk.length ≤ maxChunkSize := by
      have := hs.got
      rwa [hw] at this
    rw [hw]
    exact ⟨hs.length, hs.queue, Nat.zero_le _, (fun block hb => by cases hb), hs.tasks, hlen,
      (hS.compress chunk).trans (compressBound_le hlen), hs.ciphertext, hs.finalPayload⟩
  | @acquired block hw =>
    rw [Locals.atWriter_eq _ _ _ (fun block hb => by cases hb) (fun hb => by cases hb)]
    refine hs.goes rfl (fun task htask => ?_) rfl (fun block hb => by cases hb)
    rcases List.mem_append.1 htask with hold | hnew
    · exact hs.tasks task hold
    · rw [List.mem_singleton.1 hnew]
      exact hs.block block hw
  | gathered hw hdone =>
    rw [Locals.atWriter_eq _ _ _ (fun block hb => by cases hb) (fun hb => by cases hb)]
    exact hs.goes rfl hs.tasks rfl (fun block hb => by cases hb)
  | failed hw hmem hraised =>
    rw [hw]
    exact hs.goes rfl hs.tasks rfl (fun block hb => by cases hb)

/-! ### The semaphore -/

/-- The semaphore bounds the uploads, and after one has failed none is started. -/
structure Slots (s : State) : Prop where
  active : s.uploadSemaphore + s.active = maxConcurrentUploads
  failed : s.shutdownEvent = false → s.failed = 0
  calling : s.calling + s.failed ≤ maxConcurrentUploads

/-- A call that is under way has a place of the semaphore. -/
theorem calling_le_active (s : State) : s.calling ≤ s.active :=
  List.countP_mono_left fun task _ h => by
    rw [of_decide_eq_true h]
    rfl

/-- What the step of one task does to a count. -/
theorem countP_set_task {tasks : List UploadTask} {k : ℕ} {task : UploadTask}
    (task' : UploadTask) (p : UploadTask → Bool) (hk : tasks[k]? = some task) :
    (tasks.set k task').countP p + (if p task then 1 else 0) =
      tasks.countP p + if p task' then 1 else 0 := by
  obtain ⟨hlt, hget⟩ := List.getElem?_eq_some_iff.1 hk
  have hle : (if p task = true then 1 else 0) ≤ tasks.countP p := by
    split_ifs with hp
    · exact List.countP_pos_iff.2 ⟨task, List.mem_of_getElem? hk, hp⟩
    · exact Nat.zero_le _
  rw [List.countP_set hlt, hget]
  omega

/-- The counts after the step of one task. -/
theorem counts_set {s : State} (s' : State) {k : ℕ} {task task' : UploadTask}
    (hk : s.tasks[k]? = some task) (htasks : s'.tasks = s.tasks.set k task') :
    s'.active + (if task.status.done then 0 else 1) =
        s.active + (if task'.status.done then 0 else 1) ∧
      s'.calling + (if task.status = .calling then 1 else 0) =
        s.calling + (if task'.status = .calling then 1 else 0) ∧
      s'.failed + (if task.status = .raised then 1 else 0) =
        s.failed + (if task'.status = .raised then 1 else 0) := by
  unfold State.active State.calling State.failed
  rw [htasks]
  have hactive := countP_set_task task' (fun t => !t.status.done) hk
  have hcalling := countP_set_task task' (fun t => t.status = .calling) hk
  have hfailed := countP_set_task task' (fun t => t.status = .raised) hk
  refine ⟨?_, by simpa using hcalling, by simpa using hfailed⟩
  cases htask : task.status.done <;> cases htask' : task'.status.done <;>
    simpa [htask, htask'] using hactive

theorem slots_doUpload {raises : ℕ → Bool} {s s' : State} {k : ℕ} {task : UploadTask}
    {e : UploadEvent} (hk : s.tasks[k]? = some task) (h : doUpload raises s k task e = some s')
    (hs : Slots s) : Slots s' := by
  obtain ⟨hactive, hfailed, hcalling⟩ := hs
  have hle := calling_le_active s
  cases e with
  | started =>
    dsimp only [doUpload] at h
    split_ifs at h with hcreated hshut
    · cases h
      obtain ⟨h₁, h₂, h₃⟩ := counts_set (s.endTask k task .skipped) hk rfl
      simp only [hcreated, UploadStatus.done, reduceCtorEq, if_true, if_false] at h₁ h₂ h₃
      refine ⟨?_, fun hnot => ?_, by omega⟩
      · show s.uploadSemaphore + 1 + _ = _
        omega
      · have hnot : s.shutdownEvent = false := hnot
        rw [hnot] at hshut
        cases hshut
    · -- a call starts: nothing has failed yet, and it had its place already
      have hnone := hfailed (Bool.eq_false_iff.2 hshut)
      cases h
      obtain ⟨h₁, h₂, h₃⟩ := counts_set (s.setStatus k task .calling) hk rfl
      simp only [hcreated, UploadStatus.done, reduceCtorEq, if_true, if_false] at h₁ h₂ h₃
      have hle' := calling_le_active (s.setStatus k task .calling)
      refine ⟨?_, fun _ => by omega, by omega⟩
      show s.uploadSemaphore + _ = _
      omega
  | finished =>
    dsimp only [doUpload] at h
    split_ifs at h with hst hraises
    · cases h
      obtain ⟨h₁, h₂, h₃⟩ := counts_set
        { s.endTask k task .raised with shutdownEvent := true } hk rfl
      simp only [hst, UploadStatus.done, reduceCtorEq, if_true, if_false] at h₁ h₂ h₃
      refine ⟨?_, fun hnot => ?_, by omega⟩
      · show s.uploadSemaphore + 1 + _ = _
        omega
      · cases hnot
    · cases h
      obtain ⟨h₁, h₂, h₃⟩ := counts_set (s.endTask k task .returned) hk rfl
      simp only [hst, UploadStatus.done, reduceCtorEq, if_true, if_false] at h₁ h₂ h₃
      refine ⟨?_, fun hnot => ?_, by omega⟩
      · show s.uploadSemaphore + 1 + _ = _
        omega
      · have := hfailed hnot
        omega
  | discarded =>
    dsimp only [doUpload] at h
    split_ifs at h
    cases h
    obtain ⟨h₁, h₂, h₃⟩ := counts_set
      { s with tasks := s.tasks.set k { task with background := false } } hk rfl
    have h₁ := Nat.add_right_cancel h₁
    have h₂ := Nat.add_right_cancel h₂
    have h₃ := Nat.add_right_cancel h₃
    refine ⟨?_, fun hnot => ?_, by omega⟩
    · show s.uploadSemaphore + _ = _
      omega
    · have := hfailed hnot
      omega

/-- Steps that leave the tasks alone, or only say which of them are gathered. -/
theorem Slots.congr {s s' : State} (hs : Slots s)
    (htasks : s'.tasks.map UploadTask.status = s.tasks.map UploadTask.status)
    (hsem : s'.uploadSemaphore = s.uploadSemaphore)
    (hshut : s'.shutdownEvent = false → s.shutdownEvent = false) : Slots s' := by
  have hcount : ∀ p : UploadStatus → Bool, s'.tasks.countP (fun task => p task.status) =
      s.tasks.countP fun task => p task.status := fun p => by
    have h := congrArg (List.countP p) htasks
    rwa [List.countP_map, List.countP_map] at h
  have hactive : s'.active = s.active := hcount fun st => !st.done
  have hcalling : s'.calling = s.calling := hcount fun st => st = .calling
  have hfailed : s'.failed = s.failed := hcount fun st => st = .raised
  refine ⟨?_, fun h => ?_, ?_⟩
  · rw [hsem, hactive]
    exact hs.active
  · rw [hfailed]
    exact hs.failed (hshut h)
  · rw [hcalling, hfailed]
    exact hs.calling

/-- A new task takes a place of the semaphore. -/
theorem Slots.acquired {s s' : State} (hs : Slots s) (hpos : 0 < s.uploadSemaphore)
    {task : UploadTask} (hcreated : task.status = .created)
    (htasks : s'.tasks = s.tasks ++ [task])
    (hsem : s'.uploadSemaphore = s.uploadSemaphore - 1)
    (hshut : s'.shutdownEvent = s.shutdownEvent) : Slots s' := by
  have hcount : ∀ p : UploadTask → Bool,
      s'.tasks.countP p = s.tasks.countP p + if p task then 1 else 0 :=
    fun p => by rw [htasks, List.countP_append, List.countP_singleton]
  have hactive : s'.active = s.active + 1 := by
    rw [State.active, hcount, hcreated]
    rfl
  have hcalling : s'.calling = s.calling := by
    rw [State.calling, hcount, hcreated]
    rfl
  have hfailed : s'.failed = s.failed := by
    rw [State.failed, hcount, hcreated]
    rfl
  refine ⟨?_, fun h => ?_, ?_⟩
  · have := hs.active
    omega
  · rw [hfailed]
    exact hs.failed (hshut ▸ h)
  · rw [hcalling, hfailed]
    exact hs.calling

theorem map_status_afterLoop (s : State) :
    s.afterLoop.tasks.map UploadTask.status = s.tasks.map UploadTask.status := by
  unfold State.afterLoop
  split_ifs
  · simp [Function.comp_def]
  · rfl

theorem slots_compressEncryptUpload {P : Primitives} {dek : Bytes} {snapshotId : String}
    {s s' : State} {e : WriterEvent} (h : compressEncryptUpload P dek snapshotId s e = some s')
    (hs : Slots s) : Slots s' := by
  cases e with
  | get =>
    dsimp only [compressEncryptUpload] at h
    split at h <;> cases h
    exact hs.congr rfl rfl id
  | resumed waited =>
    have hloop : Slots s.afterLoop := by
      refine hs.congr (map_status_afterLoop s) ?_ ?_ <;> unfold State.afterLoop <;> split_ifs
      · rfl
      · rfl
      · exact id
      · exact id
    dsimp only [compressEncryptUpload] at h
    split_ifs at h
    split at h
    · cases h; exact hloop
    · cases h; exact hloop
    · cases h; exact hloop
    · split at h <;> cases h <;> exact hs.congr rfl rfl id
    · cases h
  | acquired =>
    dsimp only [compressEncryptUpload] at h
    split at h
    · split_ifs at h with hpos
      cases h
      exact hs.acquired hpos rfl rfl rfl rfl
    · cases h
  | gathered =>
    dsimp only [compressEncryptUpload] at h
    split at h
    · split_ifs at h
      · cases h
        exact hs.congr rfl rfl (fun h => by cases h)
      · cases h
        exact hs.congr rfl rfl id
    · cases h

/-! ### All steps -/

/-- What holds of the pipeline and its variables in every state. -/
structure Footprint.Bounded (gear : UInt8 → ℕ) (f : Footprint) : Prop where
  reader : f.state.reader.Bounded gear
  readerLocals : f.locals.ReaderBounded
  writer : WriterBounded f.state f.locals
  slots : Slots f.state

theorem Footprint.bounded_init (gear : UInt8 → ℕ) (data : Bytes) (nonceGen : NonceGenerator) :
    (Footprint.init data nonceGen).Bounded gear where
  reader := trivial
  readerLocals := ⟨Nat.zero_le _, Nat.lt_add_left _ ioReadSize_pos, Nat.zero_le _⟩
  writer := ⟨Nat.zero_le _, fun _ h => absurd h List.not_mem_nil, Nat.zero_le _,
    (fun block hb => by cases hb), fun _ h => absurd h List.not_mem_nil, Nat.zero_le _,
    Nat.zero_le _, Nat.zero_le _, Nat.zero_le _⟩
  slots := ⟨rfl, fun _ => rfl, Nat.zero_le _⟩

theorem Locals.atReader_frame (l : Locals) (r : Reader) :
    ∃ buffer yielded, l.atReader r = { l with buffer, yielded } := by
  cases r <;> exact ⟨_, _, rfl⟩

/-- The reader changes only its own variables. -/
theorem Locals.update_reader (P : Primitives) (l : Locals) (s s' : State) (e : ReaderEvent) :
    ∃ rawBytes buffer yielded,
      l.update P s s' (.reader e) = { l with rawBytes, buffer, yielded } := by
  cases e with
  | read count =>
    obtain ⟨buffer, yielded, h⟩ :=
      Locals.atReader_frame { l with rawBytes := s.remaining.take count } s'.reader
    exact ⟨_, buffer, yielded, h⟩
  | _ =>
    obtain ⟨buffer, yielded, h⟩ := l.atReader_frame s'.reader
    exact ⟨l.rawBytes, buffer, yielded, h⟩

/-- **A step keeps everything small.** -/
theorem Footprint.Bounded.step (hS : S.Lengths) {f f' : Footprint} {e : Event}
    (hf : f.Bounded S.gear) (h : f.step S e = some f') : f'.Bounded S.gear := by
  obtain ⟨s', hs', rfl⟩ := Option.map_eq_some_iff.1 h
  obtain ⟨hreader, hlocals, hwriter, hslots⟩ := hf
  unfold Pipeline.step at hs'
  split_ifs at hs'
  cases e with
  | reader e =>
    have hstep := readerStep_of_readSource hs'
    have hmoves := moves_readSource hs'
    have hbounded := hstep.bounded hmoves hreader
    refine ⟨hbounded, ?_, hstep.writerBounded hmoves hreader hwriter (Locals.update_reader ..), ?_⟩
    · cases e with
      | read count =>
        have hraw : (f.state.remaining.take count).length ≤ ioReadSize :=
          (List.length_take_le ..).trans (count_le_of_read hs')
        have hl : Locals.ReaderBounded
            { f.locals with rawBytes := f.state.remaining.take count } :=
          ⟨hraw, hlocals.buffer, hlocals.yielded⟩
        exact hl.atReader hbounded
      | _ => exact hlocals.atReader hbounded
    · obtain ⟨remaining, reader, queue, rfl⟩ := hstep.frame
      exact hslots.congr rfl rfl id
  | writer e =>
    have hstep := writerStep_of_compressEncryptUpload hs'
    obtain ⟨-, hr, -⟩ := hstep.frame
    refine ⟨?_, ?_, hstep.bounded hS hwriter, slots_compressEncryptUpload hs' hslots⟩
    · show s'.reader.Bounded S.gear
      rw [hr]
      exact hreader
    · exact hlocals.atWriter S.primitives f.state.writer s'.writer
  | upload k e =>
    obtain ⟨task, hk, hdo⟩ := Option.bind_eq_some_iff.1 hs'
    have hslots' := slots_doUpload hk hdo hslots
    obtain ⟨task', shutdownEvent, uploadSemaphore, hstep, rfl⟩ := uploadStep_of_doUpload hdo
    refine ⟨hreader, hlocals, ?_, hslots'⟩
    refine ⟨hwriter.length, hwriter.queue, hwriter.got, hwriter.block, fun t ht => ?_,
      hwriter.chunk, hwriter.compressed, hwriter.ciphertext, hwriter.finalPayload⟩
    rcases List.mem_or_eq_of_mem_set ht with hold | rfl
    · exact hwriter.tasks t hold
    · rw [hstep.block_eq]
      exact hwriter.tasks task (List.mem_of_getElem? hk)
  | wake =>
    have hframe : ∃ ending, s' = { f.state with ending } := by
      dsimp only [streamingPipeline] at hs'
      split_ifs at hs' <;> cases hs' <;> exact ⟨_, rfl⟩
    obtain ⟨ending, rfl⟩ := hframe
    exact ⟨hreader, hlocals, ⟨hwriter.length, hwriter.queue, hwriter.got, hwriter.block,
      hwriter.tasks, hwriter.chunk, hwriter.compressed, hwriter.ciphertext, hwriter.finalPayload⟩,
      hslots.congr rfl rfl id⟩

/-- The tasks that hold a block are under way or have failed. -/
theorem countP_holds_le (s : State) : s.tasks.countP UploadTask.holds ≤ s.active + s.failed := by
  unfold State.active State.failed
  induction s.tasks with
  | nil => exact le_rfl
  | cons task tasks ih =>
    rw [List.countP_cons, List.countP_cons, List.countP_cons]
    have hone : (if task.holds then 1 else 0) ≤ (if !task.status.done then 1 else 0) +
        if decide (task.status = .raised) then 1 else 0 := by
      unfold UploadTask.holds
      cases task.status <;> decide
    omega

/-- The blocks that the tasks hold are few. -/
theorem heldByTasks_le {s : State} (hslots : Slots s)
    (htasks : ∀ task ∈ s.tasks, task.block.payload.length ≤ payloadMax) :
    ((s.tasks.filter UploadTask.holds).map fun task => task.block.payload.length).sum ≤
      2 * maxConcurrentUploads * payloadMax := by
  have hcount : (s.tasks.filter UploadTask.holds).length ≤ 2 * maxConcurrentUploads := by
    have := countP_holds_le s
    have := hslots.active
    have := hslots.calling
    rw [← List.countP_eq_length_filter]
    omega
  refine (List.sum_le_card_nsmul _ payloadMax fun n hn => ?_).trans ?_
  · obtain ⟨task, htask, rfl⟩ := List.mem_map.1 hn
    exact htasks task (List.mem_filter.1 htask).1
  · rw [List.length_map]
    exact Nat.mul_le_mul_right _ hcount

/-- The chunks that the queue holds are few. -/
theorem heldByQueue_le {s : State} {l : Locals} (h : WriterBounded s l) :
    (s.queue.map itemLength).sum ≤ pipelineQueueMaxsize * maxChunkSize := by
  refine (List.sum_le_card_nsmul _ maxChunkSize fun n hn => ?_).trans ?_
  · obtain ⟨item, hitem, rfl⟩ := List.mem_map.1 hn
    exact h.queue item hitem
  · rw [List.length_map]
    exact Nat.mul_le_mul_right _ h.length

/-- What is held where everything is small. -/
theorem Footprint.Bounded.held_lt {gear : UInt8 → ℕ} {f : Footprint} (h : f.Bounded gear) :
    f.held < memoryBound := by
  have htasks := heldByTasks_le h.slots h.writer.tasks
  have hqueue := heldByQueue_le h.writer
  obtain ⟨-, ⟨hraw, hbuffer, hyielded⟩, ⟨-, -, hgot, -, -, hchunk, hcompressed, hciphertext,
    hpayload⟩, -⟩ := h
  unfold Footprint.held Footprint.heldRaw Footprint.heldEncrypted memoryBound
  omega

/-- Every run of the pipeline is a run of its footprint. -/
theorem Footprint.reachable_of_runs {data : Bytes} {nonceGen : NonceGenerator} {s : State}
    (h : Runs S data nonceGen s) :
    ∃ locals, Reachable (Footprint.step S) (.init data nonceGen) ⟨s, locals⟩ := by
  induction h with
  | refl => exact ⟨{}, .refl⟩
  | tail _ _ hstep ih =>
    obtain ⟨locals, hreach⟩ := ih
    exact ⟨_, hreach.tail trivial (Option.map_eq_some_iff.2 ⟨_, hstep, rfl⟩)⟩

theorem Footprint.bounded_of_reachable (hS : S.Lengths) {data : Bytes} {nonceGen : NonceGenerator}
    {f : Footprint} (h : Reachable (Footprint.step S) (.init data nonceGen) f) :
    f.Bounded S.gear :=
  h.invariant (Footprint.bounded_init S.gear data nonceGen) fun _ _ _ hf _ hs => hf.step hS hs

/-- **The memory of the pipeline is bounded.**  Whatever the subprocess outputs and
however the tasks interleave, no more than `MAX_CONCURRENT_UPLOADS` callbacks run, the
queue has no more than `PIPELINE_QUEUE_MAXSIZE` entries, the buffer of FastCDC is
shorter than `MAX_CHUNK_SIZE` when `feed` is called and shorter than that and one read
while it runs, and all that is held is less than `memoryBound`. -/
theorem memory_bounded (S : Setting) (hS : S.Lengths) (data : Bytes) (nonceGen : NonceGenerator)
    {f : Footprint} (h : Reachable (Footprint.step S) (.init data nonceGen) f) :
    f.state.calling ≤ maxConcurrentUploads ∧ f.state.queue.length ≤ pipelineQueueMaxsize ∧
      (∀ fastcdc, f.state.reader = .reading fastcdc → fastcdc.buffer.length < maxChunkSize ∧
        ∀ read : Bytes, read.length ≤ ioReadSize →
          (fastcdc.buffer ++ read).length < maxChunkSize + ioReadSize) ∧
      f.locals.buffer.length < maxChunkSize + ioReadSize ∧ f.held < memoryBound := by
  have hf := Footprint.bounded_of_reachable hS h
  refine ⟨?_, hf.writer.length, fun fastcdc hr => ?_, hf.readerLocals.buffer, hf.held_lt⟩
  · have := calling_le_active f.state
    have := hf.slots.active
    omega
  · have hreader := hf.reader
    rw [hr] at hreader
    obtain ⟨-, hlen⟩ := hreader
    refine ⟨hlen, fun read hread => ?_⟩
    rw [List.length_append]
    omega

end

/-- Libraries for the example: the data with a tag of zeros, and no compression. -/
def taggedSetting : Setting where
  primitives :=
    { aead :=
        { encrypt := fun _ _ data _ => data ++ List.replicate 16 0
          decrypt := fun _ _ ciphertext _ => some (ciphertext.take (ciphertext.length - 16)) }
      sha256 := fun _ => ""
      compress := id }
  gear := fun _ => 0
  dek := []
  snapshotId := "snap-1"
  raises := fun _ => false

theorem lengths_taggedSetting : taggedSetting.Lengths where
  compress chunk := by
    show chunk.length ≤ compressBound chunk.length
    unfold compressBound
    omega
  encrypt _ _ _ _ := List.length_append

/-- The only chunk is being uploaded, and its task holds a block of 43 bytes. -/
theorem memory_bounded_uploading : ∃ f : Footprint,
    Reachable (Footprint.step taggedSetting) (.init [1] smallNonces) f ∧ f.state.calling = 1 ∧
      (f.state.tasks.filter UploadTask.holds).map (fun task => task.block.payload.length) = [43] ∧
      f.held < memoryBound := by
  have hshort := runs_short taggedSetting [1] smallNonces (by simp)
    (by unfold minChunkSize; decide) (by unfold ioReadSize; decide)
  obtain ⟨locals, hreach⟩ := Footprint.reachable_of_runs hshort
  have h := Reach.exec hreach (show exec _ _ (smallEvents.take 6) = some _ from rfl)
  exact ⟨_, h, rfl, rfl, (memory_bounded _ lengths_taggedSetting [1] smallNonces h).2.2.2.2⟩

end Pipeline
end Boveda

/-
# Where the chunks are

While nothing fails, the chunks of the output are at every moment split into those
that have been sealed, those in the queue and those that have still to be put, with
the sentinel behind them all (`Progress`).  No step of the reader or of the writer
loses one (`ReaderStep.progress`, `WriterStep.progress`).
-/

import Boveda.Pipeline.Steps

namespace Boveda
namespace Pipeline

open Lib Crypto

section

variable (gear : UInt8 → ℕ) (remaining : Bytes)

/-- The chunks that `feed` has still to yield, once what `remaining` says has been
read. -/
def Streamer.Owes (fastcdc : Streamer) (isEof : Bool) (later : List Bytes) : Prop :=
  if isEof then remaining = [] ∧ later = []
  else fastcdc.Ok gear ∧ later = (cutter gear).finish (fastcdc.buffer ++ remaining)

/-- The chunks that `read_source` has still to put, and whether it has put the
sentinel. -/
def Reader.Owes (rest : List Bytes) (sent : Bool) : Reader → Prop
  | .spawning => rest = chunksOf gear remaining ∧ sent = false
  | .reading fastcdc => fastcdc.Owes gear remaining false rest ∧ sent = false
  | .putting fastcdc isEof chunk chunks =>
    (∃ later, fastcdc.Owes gear remaining isEof later ∧ rest = chunk :: (chunks ++ later)) ∧
      sent = false
  | .put fastcdc isEof chunks =>
    (∃ later, fastcdc.Owes gear remaining isEof later ∧ rest = chunks ++ later) ∧ sent = false
  | .puttingSentinel => (remaining = [] ∧ rest = []) ∧ sent = false
  | .putSentinel | .waiting | .returned => (remaining = [] ∧ rest = []) ∧ sent = true
  | .raised => True

end

/-- The sentinel, behind the chunks. -/
def sentinel (sent : Bool) : List (Option Bytes) := if sent then [none] else []

/-- The chunks between the two tasks, with the sentinel when it has been put. -/
def Writer.Holds (queue : List (Option Bytes)) (chunks : List Bytes) (sent : Bool) :
    Writer → Prop
  | .getting | .acquiring _ => queue = chunks.map some ++ sentinel sent
  | .got item => item :: queue = chunks.map some ++ sentinel sent
  | .gathering | .returned => chunks = [] ∧ sent = true
  | .raised => True

/-- The blocks that have been sealed. -/
def State.made (s : State) : List Sealed :=
  s.tasks.map UploadTask.block ++ match s.writer with
    | .acquiring block => [block]
    | _ => []

variable {S : Setting} {data : Bytes} {nonceGen : NonceGenerator} {s s' : State}

/-- Where the chunks of `data` are: `consumed` have been sealed, `chunks` are between
the two tasks, and `rest` are still to be put. -/
structure Progress (S : Setting) (data : Bytes) (nonceGen : NonceGenerator) (s : State)
    (consumed chunks rest : List Bytes) (sent : Bool) : Prop where
  split : consumed ++ (chunks ++ rest) = chunksOf S.gear data
  reader : s.reader.Owes S.gear s.remaining rest sent
  writer : s.writer.Holds s.queue chunks sent
  chunkSeq : s.chunkSeq = s.tasks.length
  sealing : ∀ later, sealAll S.primitives S.dek S.snapshotId 0 nonceGen (consumed ++ later) =
    (sealAll S.primitives S.dek S.snapshotId s.made.length s.nonceGen later).map (s.made ++ ·)

/-! ### The reader -/

theorem Streamer.owes_next {gear : UInt8 → ℕ} {remaining : Bytes} {fastcdc : Streamer}
    {isEof : Bool} {later : List Bytes} (h : fastcdc.Owes gear remaining isEof later) (chunks : List Bytes) :
    (Reader.next false isEof fastcdc chunks).Owes gear remaining (chunks ++ later) false := by
  rcases chunks with - | ⟨chunk, chunks⟩
  · cases isEof <;> exact ⟨h, rfl⟩
  · exact ⟨⟨later, h, rfl⟩, rfl⟩

/-- **A read** yields the chunks that are complete, and owes the others. -/
theorem Streamer.owes_feed {gear : UInt8 → ℕ} {remaining : Bytes} {fastcdc : Streamer}
    {rest : List Bytes} (h : fastcdc.Owes gear remaining false rest) {count : ℕ}
    (hcount : count = 0 → remaining = []) :
    ∃ later, (fastcdc.feed gear (remaining.take count) (count == 0)).2.Owes gear
        (remaining.drop count) (count == 0) later ∧
      rest = (fastcdc.feed gear (remaining.take count) (count == 0)).1 ++ later := by
  obtain ⟨hok, rfl⟩ := h
  by_cases h0 : count = 0
  · subst h0
    obtain rfl := hcount rfl
    refine ⟨[], ⟨rfl, rfl⟩, ?_⟩
    have hfeed := feed_true hok []
    simpa using hfeed.symm
  · have hne : (count == 0) = false := by simpa using h0
    obtain ⟨h₁, h₂, h₃⟩ := feed_false hok (remaining.take count)
    rw [hne]
    refine ⟨_, ⟨h₃, rfl⟩, ?_⟩
    rw [h₁, h₂, ← Cutter.finish_append, List.append_assoc, List.take_append_drop]

/-- A chunk or the sentinel that is put is behind what the queue holds. -/
theorem Writer.Holds.putChunk {w : Writer} {queue : List (Option Bytes)} {chunks : List Bytes}
    (h : w.Holds queue chunks false) (chunk : Bytes) :
    w.Holds (queue ++ [some chunk]) (chunks ++ [chunk]) false := by
  cases w with
  | getting | acquiring => simpa [Writer.Holds, sentinel] using h
  | got item =>
    have hitem : item :: queue = chunks.map some ++ sentinel false := h
    show (item :: queue) ++ [some chunk] = _
    rw [hitem]
    simp [sentinel]
  | gathering | returned => cases h.2
  | raised => trivial

theorem Writer.Holds.putSentinel {w : Writer} {queue : List (Option Bytes)} {chunks : List Bytes}
    (h : w.Holds queue chunks false) : w.Holds (queue ++ [none]) chunks true := by
  cases w with
  | getting | acquiring => simpa [Writer.Holds, sentinel] using h
  | got item =>
    have hitem : item :: queue = chunks.map some ++ sentinel false := h
    show (item :: queue) ++ [none] = _
    rw [hitem]
    simp [sentinel]
  | gathering | returned => cases h.2
  | raised => trivial

/-- **A step of the reader** loses no chunk. -/
theorem ReaderStep.progress {consumed chunks rest : List Bytes} {sent : Bool}
    (h : ReaderStep S.gear s s') (hs : s.shutdownEvent = false)
    (hp : Progress S data nonceGen s consumed chunks rest sent) :
    ∃ chunks' rest' sent', Progress S data nonceGen s' consumed chunks' rest' sent' := by
  obtain ⟨hsplit, hreader, hwriter, hseq, hsealing⟩ := hp
  cases h with
  | spawned hr =>
    rw [hr] at hreader
    obtain ⟨rfl, rfl⟩ := hreader
    refine ⟨chunks, _, false, hsplit, ⟨⟨Streamer.ok_fresh [], ?_⟩, rfl⟩, hwriter, hseq, hsealing⟩
    exact chunksOf_eq s.remaining
  | read count hr hcount =>
    rw [hr] at hreader
    obtain ⟨howes, rfl⟩ := hreader
    obtain ⟨later, hlater, rfl⟩ := Streamer.owes_feed howes hcount
    refine ⟨chunks, _, false, hsplit, ?_, hwriter, hseq, hsealing⟩
    rw [hs]
    exact Streamer.owes_next hlater _
  | @putChunk fastcdc isEof chunk cs hr =>
    rw [hr] at hreader
    obtain ⟨⟨later, howes, rfl⟩, rfl⟩ := hreader
    refine ⟨chunks ++ [chunk], cs ++ later, false, ?_, ⟨⟨later, howes, rfl⟩, rfl⟩,
      hwriter.putChunk chunk, hseq, hsealing⟩
    rw [List.append_assoc, List.singleton_append]
    exact hsplit
  | putSentinel hr =>
    rw [hr] at hreader
    obtain ⟨hdone, rfl⟩ := hreader
    exact ⟨chunks, rest, true, hsplit, ⟨hdone, rfl⟩, hwriter.putSentinel, hseq, hsealing⟩
  | resumed hr =>
    rw [hr] at hreader
    obtain ⟨⟨later, howes, rfl⟩, rfl⟩ := hreader
    refine ⟨chunks, _, false, hsplit, ?_, hwriter, hseq, hsealing⟩
    rw [hs]
    exact Streamer.owes_next howes _
  | resumedSentinel hr =>
    rw [hr] at hreader
    exact ⟨chunks, rest, sent, hsplit, hreader, hwriter, hseq, hsealing⟩
  | interrupted hshut => rw [hs] at hshut; cases hshut
  | exited hr =>
    rw [hr] at hreader
    exact ⟨chunks, rest, sent, hsplit, hreader, hwriter, hseq, hsealing⟩
  | raised => exact ⟨chunks, rest, sent, hsplit, trivial, hwriter, hseq, hsealing⟩

/-! ### The writer -/

/-- The first item of the queue is a chunk, or the sentinel behind the last one. -/
theorem some_cons_eq {chunk : Bytes} {queue : List (Option Bytes)} {chunks : List Bytes}
    {sent : Bool} (h : some chunk :: queue = chunks.map some ++ sentinel sent) :
    ∃ chunks', chunks = chunk :: chunks' ∧ queue = chunks'.map some ++ sentinel sent := by
  cases chunks with
  | nil => cases sent <;> simp [sentinel] at h
  | cons c cs =>
    obtain ⟨hc, hq⟩ := List.cons.inj h
    obtain rfl := Option.some.inj hc
    exact ⟨cs, rfl, hq⟩

theorem none_cons_eq {queue : List (Option Bytes)} {chunks : List Bytes} {sent : Bool}
    (h : none :: queue = chunks.map some ++ sentinel sent) : chunks = [] ∧ sent = true := by
  cases chunks with
  | nil =>
    cases sent with
    | false => simp [sentinel] at h
    | true => exact ⟨rfl, rfl⟩
  | cons c cs => simp at h

/-- **A step of the writer** loses no chunk. -/
theorem WriterStep.progress {consumed chunks rest : List Bytes} {sent : Bool}
    (h : WriterStep S s s') (hs : s.shutdownEvent = false)
    (hp : Progress S data nonceGen s consumed chunks rest sent) :
    ∃ consumed' chunks', Progress S data nonceGen s' consumed' chunks' rest sent := by
  obtain ⟨hsplit, hreader, hwriter, hseq, hsealing⟩ := hp
  cases h with
  | get hw hq =>
    rw [hw, hq] at hwriter
    refine ⟨consumed, chunks, hsplit, hreader, hwriter, hseq, ?_⟩
    simpa only [State.made, hw] using hsealing
  | leaves hover =>
    have hw : s.writer = .got none := hover.resolve_right (by simp [hs])
    rw [hw] at hwriter
    have hend := none_cons_eq hwriter
    have hmade : s.afterLoop.made = s.made := by
      rw [State.made, State.made, map_block_afterLoop, hw]
      rcases writer_afterLoop s with h | h <;> rw [h]
    obtain ⟨h₁, h₂, -⟩ := (WriterStep.leaves (S := S) hover).frame
    have hfields : s.afterLoop.chunkSeq = s.chunkSeq ∧ s.afterLoop.nonceGen = s.nonceGen := by
      unfold State.afterLoop
      split_ifs <;> exact ⟨rfl, rfl⟩
    obtain ⟨h₃, h₄⟩ := hfields
    refine ⟨consumed, chunks, hsplit, by rw [h₁, h₂]; exact hreader, ?_, ?_, ?_⟩
    · rcases writer_afterLoop s with h | h <;> rw [h] <;> exact hend
    · have hlen := congrArg List.length (map_block_afterLoop s)
      rw [List.length_map, List.length_map] at hlen
      rw [h₃, hlen, hseq]
    · rw [hmade, h₄]
      exact hsealing
  | @sealed chunk block gen hw hseal =>
    rw [hw] at hwriter
    obtain ⟨chunks', rfl, hq⟩ := some_cons_eq hwriter
    have hmade : s.made = s.tasks.map UploadTask.block := by
      rw [State.made, hw]
      exact List.append_nil _
    refine ⟨consumed ++ [chunk], chunks', by simpa using hsplit, hreader, hq, hseq, fun later => ?_⟩
    have hnext := hsealing (chunk :: later)
    rw [hmade, List.length_map, ← hseq, sealAll_cons hseal, Option.map_map] at hnext
    rw [List.append_assoc, List.singleton_append, hnext]
    simp [State.made, ← hseq, Function.comp_def]
  | unsealed hw =>
    refine ⟨consumed, chunks, hsplit, hreader, trivial, hseq, ?_⟩
    simpa only [State.made, hw] using hsealing
  | acquired hw =>
    rw [hw] at hwriter
    refine ⟨consumed, chunks, hsplit, hreader, hwriter, by simp [hseq], ?_⟩
    simpa [State.made, hw] using hsealing
  | gathered hw =>
    rw [hw] at hwriter
    refine ⟨consumed, chunks, hsplit, hreader, hwriter, hseq, ?_⟩
    simpa only [State.made, hw] using hsealing
  | failed hw =>
    refine ⟨consumed, chunks, hsplit, hreader, trivial, hseq, ?_⟩
    simpa only [State.made, hw] using hsealing

/-! ### What has been sealed -/

/-- What has been sealed are the blocks of the chunks consumed. -/
theorem Progress.sealAll_consumed {consumed chunks rest : List Bytes} {sent : Bool}
    (hp : Progress S data nonceGen s consumed chunks rest sent) :
    sealAll S.primitives S.dek S.snapshotId 0 nonceGen consumed = some s.made := by
  have h := hp.sealing []
  rw [List.append_nil] at h
  simpa [sealAll] using h

/-- An upload is one of a chunk of the output. -/
theorem Progress.seq_lt {consumed chunks rest : List Bytes} {sent : Bool}
    (hp : Progress S data nonceGen s consumed chunks rest sent) {task : UploadTask}
    (hmem : task ∈ s.tasks) : task.block.seq < (chunksOf S.gear data).length := by
  have hblock : task.block.seq ∈ s.made.map Sealed.seq :=
    List.mem_map_of_mem (List.mem_append_left _ (List.mem_map_of_mem hmem))
  rw [map_seq_sealAll hp.sealAll_consumed, List.mem_range'_1] at hblock
  rw [← hp.split, List.length_append]
  omega

end Pipeline
end Boveda

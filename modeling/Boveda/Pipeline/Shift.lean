/-
# Chunks after an insertion or a deletion

Two streams that end alike, `p ++ s` and `q ++ s`, are cut alike from their first
common cut in `s` on (`chunks_eq_of_commonCut`): what a change in front of `s` does
to the chunks ends there.  `FastCDCStreamer` drops its offset and its fingerprint at
every cut, so the chunks after a cut are those of the bytes after it, whatever stood
before and however the stream was read (`CutAt.eq_chunksOf`).
-/

import Boveda.Pipeline.Partition

namespace Boveda
namespace Pipeline

open Lib

/-- There is a cut after `n` bytes, and `rest` are the chunks from there on. -/
def CutAt (chunks : List Bytes) (n : ℕ) (rest : List Bytes) : Prop :=
  ∃ before, chunks = before ++ rest ∧ before.flatten.length = n

variable {gear : UInt8 → ℕ} {p q s : Bytes}

/-- The chunks after a cut are those of the bytes after it. -/
theorem CutAt.eq_chunksOf {data : Bytes} {n : ℕ} {rest : List Bytes}
    (h : CutAt (chunksOf gear data) n rest) : rest = chunksOf gear (data.drop n) := by
  obtain ⟨before, hchunks, rfl⟩ := h
  rw [chunksOf_eq] at hchunks ⊢
  exact Cutter.finish_eq_append hchunks

/-- **Common cuts.**  Two streams that end alike have the same chunks from a cut on
that both have at the same place of what they share, however they are fed. -/
theorem chunks_eq_of_commonCut {pieces pieces' : List Bytes} {last last' : Bytes}
    (hp : pieces.flatten ++ last = p ++ s) (hq : pieces'.flatten ++ last' = q ++ s) {k : ℕ}
    {rest rest' : List Bytes}
    (h : CutAt (Streamer.feedAll gear {} pieces last) (p.length + k) rest)
    (h' : CutAt (Streamer.feedAll gear {} pieces' last') (q.length + k) rest') : rest = rest' := by
  rw [(feedAll_eq_chunksOf gear pieces last).1, hp] at h
  rw [(feedAll_eq_chunksOf gear pieces' last').1, hq] at h'
  rw [h.eq_chunksOf, h'.eq_chunksOf, List.drop_length_add_append, List.drop_length_add_append]

/-! ### A stream and what an insertion makes of it -/

/-- Where every fingerprint is zero, the first boundary is the first offset. -/
theorem firstCut_zero {data : Bytes} (h : minChunkSize < data.length) :
    firstCut (fun _ => 0) data = some (minChunkSize + 1) := by
  have hlt := minChunkSize_lt_maxChunkSize
  obtain ⟨n, hn⟩ : ∃ n, min data.length maxChunkSize - minChunkSize = n + 1 :=
    Nat.exists_eq_succ_of_ne_zero (by omega)
  have hroll : roll (fun _ => 0) 0 (data.getD minChunkSize 0) = 0 := by simp [roll]
  have hbound : isBoundary minChunkSize 0 = true := by
    unfold isBoundary
    split_ifs <;> rfl
  rw [firstCut, if_neg (by omega), hn, scan, hroll, hbound]
  rfl

/-- One byte is one chunk. -/
theorem chunksOf_singleton (b : UInt8) : chunksOf gear [b] = [[b]] := by
  have hshort : [b].length < minChunkSize := by
    rw [List.length_singleton]
    unfold minChunkSize
    decide
  rw [chunksOf_eq]
  exact Cutter.finish_of_none (C := cutter gear) (if_pos hshort) (List.cons_ne_nil b [])

/-- A chunk's worth of zeros is cut off in front of a byte. -/
theorem chunksOf_zeros : chunksOf (fun _ => 0) (List.replicate (minChunkSize + 1) 0 ++ [7]) =
    [List.replicate (minChunkSize + 1) 0, [7]] := by
  have hlen : (List.replicate (minChunkSize + 1) (0 : UInt8)).length = minChunkSize + 1 :=
    List.length_replicate
  have hcut : firstCut (fun _ => 0) (List.replicate (minChunkSize + 1) 0 ++ [7]) =
      some (minChunkSize + 1) :=
    firstCut_zero (by rw [List.length_append, hlen]; omega)
  rw [chunksOf_eq, Cutter.finish_of_some (C := cutter _) hcut, List.take_left' hlen,
    List.drop_left' hlen, ← chunksOf_eq, chunksOf_singleton]

/-- A chunk's worth of zeros inserted in front of a byte, and the byte alone: both
streams have a cut in front of it. -/
theorem chunks_eq_of_insertion : ∃ rest rest' : List Bytes, rest ≠ [] ∧
    CutAt (Streamer.feedAll (fun _ => 0) {} [] (List.replicate (minChunkSize + 1) 0 ++ [7]))
      ((List.replicate (minChunkSize + 1) (0 : UInt8)).length + 0) rest ∧
    CutAt (Streamer.feedAll (fun _ => 0) {} [[]] [7]) (([] : Bytes).length + 0) rest' ∧
    rest = rest' := by
  have h : CutAt (Streamer.feedAll (fun _ => 0) {} [] (List.replicate (minChunkSize + 1) 0 ++ [7]))
      ((List.replicate (minChunkSize + 1) (0 : UInt8)).length + 0) [[7]] := by
    rw [(feedAll_eq_chunksOf _ [] _).1]
    exact ⟨[List.replicate (minChunkSize + 1) 0], chunksOf_zeros, by simp⟩
  have h' : CutAt (Streamer.feedAll (fun _ => 0) {} [[]] [7]) (([] : Bytes).length + 0) [[7]] := by
    rw [(feedAll_eq_chunksOf _ [[]] _).1]
    exact ⟨[], chunksOf_singleton 7, rfl⟩
  have hp : ([] : List Bytes).flatten ++ (List.replicate (minChunkSize + 1) 0 ++ [7]) =
      List.replicate (minChunkSize + 1) (0 : UInt8) ++ [7] := List.nil_append _
  have hq : ([[]] : List Bytes).flatten ++ [7] = [] ++ [(7 : UInt8)] := List.nil_append _
  exact ⟨[[7]], [[7]], List.cons_ne_nil _ _, h, h', chunks_eq_of_commonCut hp hq h h'⟩

end Pipeline
end Boveda

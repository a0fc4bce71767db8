/-
# The chunks of a partitioned stream

`FastCDCStreamer` carries its buffer, the offset it has scanned and the rolling
fingerprint from one call of `feed` to the next.  None of it shows in the chunks:
however a stream is split into calls, they are those of a single call with the
whole stream (`feedAll_eq_chunksOf`).

Those are the chunks of the reference chunker (`chunksOf_eq_referenceChunks`),
which keeps nothing between chunks.  It starts each one with a zero fingerprint
at `MIN_CHUNK_SIZE` and ends it after the first offset whose fingerprint passes
its mask, after `MAX_CHUNK_SIZE` bytes or with the stream.
-/

import Boveda.Pipeline.FastCDC

namespace Boveda
namespace Pipeline

open Lib

section

variable (gear : UInt8 → ℕ)

/-- What the calls of `feed` yield together: `last` comes with `is_eof`, and each
iterator is consumed before the next call. -/
def Streamer.feedAll (s : Streamer) : List Bytes → Bytes → List Bytes
  | [], last => (s.feed gear last true).1
  | piece :: pieces, last =>
    let (chunks, s') := s.feed gear piece false
    chunks ++ s'.feedAll pieces last

/-- The fingerprint of the bytes from `MIN_CHUNK_SIZE` up to offset `i`. -/
def fingerprintAt (data : Bytes) (i : ℕ) : ℕ :=
  ((data.take (i + 1)).drop minChunkSize).foldl (roll gear) 0

/-- The offsets after which a chunk may end, in the order of the scan. -/
def scannedOffsets (data : Bytes) : List ℕ :=
  List.range' minChunkSize (min data.length maxChunkSize - minChunkSize)

/-- The length of the first chunk of `data`. -/
def referenceCut (data : Bytes) : ℕ :=
  (((scannedOffsets data).find? fun i => isBoundary i (fingerprintAt gear data i)).map
    (· + 1)).getD (min data.length maxChunkSize)

variable {gear}

theorem maxChunkSize_pos : 0 < maxChunkSize :=
  Nat.lt_of_lt_of_le minChunkSize_pos minChunkSize_le_maxChunkSize

theorem referenceCut_pos {data : Bytes} (h : data ≠ []) : 0 < referenceCut gear data := by
  have hmin : 0 < min data.length maxChunkSize := lt_min (List.length_pos_iff.2 h) maxChunkSize_pos
  unfold referenceCut
  cases (scannedOffsets data).find? fun i => isBoundary i (fingerprintAt gear data i) with
  | some i => exact Nat.succ_pos i
  | none => exact hmin

variable (gear)

/-- The reference chunker. -/
def referenceChunks (data : Bytes) : List Bytes :=
  if _h : data = [] then []
  else data.take (referenceCut gear data) :: referenceChunks (data.drop (referenceCut gear data))
termination_by data.length
decreasing_by
  have : 0 < referenceCut gear data := referenceCut_pos _h
  have := List.length_pos_iff.2 _h
  rw [List.length_drop]
  omega

variable {gear}

/-! ### One chunk -/

/-- The fingerprint rolls over the bytes one by one. -/
theorem fingerprintAt_succ {data : Bytes} {i : ℕ} (hmin : minChunkSize ≤ i + 1)
    (hi : i + 1 < data.length) : fingerprintAt gear data (i + 1) =
      roll gear (fingerprintAt gear data i) (data.getD (i + 1) 0) := by
  have hlen : minChunkSize ≤ (data.take (i + 1)).length := by rw [List.length_take]; omega
  have hget : data.getD (i + 1) 0 = data[i + 1] := by
    rw [List.getD_eq_getElem?_getD, List.getElem?_eq_getElem hi, Option.getD_some]
  rw [fingerprintAt, fingerprintAt, List.take_succ_eq_append_getElem hi,
    List.drop_append_of_le_length hlen, List.foldl_append, hget]
  rfl

/-- The scan tests the fingerprints of the offsets in turn. -/
theorem scan_eq_find? {data : Bytes} {n i fp : ℕ} (hmin : minChunkSize ≤ i)
    (hn : i + n ≤ data.length)
    (hfp : roll gear fp (data.getD i 0) = fingerprintAt gear data i) :
    (scan gear data n i fp).2 =
      ((List.range' i n).find? fun i => isBoundary i (fingerprintAt gear data i)).map (· + 1) := by
  induction n generalizing i fp with
  | zero => rfl
  | succ n ih =>
    rw [scan, List.range'_succ, List.find?_cons, hfp]
    cases hb : isBoundary i (fingerprintAt gear data i) with
    | true => rfl
    | false =>
      simp only [Bool.false_eq_true, if_false]
      cases n with
      | zero => rfl
      | succ n => exact ih (by omega) (by omega) (fingerprintAt_succ (by omega) (by omega)).symm

/-- The first byte that is scanned meets a zero fingerprint. -/
theorem fingerprintAt_minChunkSize {data : Bytes} (h : minChunkSize < data.length) :
    roll gear 0 (data.getD minChunkSize 0) = fingerprintAt gear data minChunkSize := by
  have hget : data.getD minChunkSize 0 = data[minChunkSize] := by
    rw [List.getD_eq_getElem?_getD, List.getElem?_eq_getElem h, Option.getD_some]
  have hdrop : (data.take (minChunkSize + 1)).drop minChunkSize = [data[minChunkSize]] := by
    rw [List.take_succ_eq_append_getElem h,
      List.drop_left' (by rw [List.length_take]; omega)]
  rw [fingerprintAt, hdrop, hget]
  rfl

/-- The first boundary of the buffer is the first offset that passes. -/
theorem scan_minChunkSize (data : Bytes) :
    (scan gear data (min data.length maxChunkSize - minChunkSize) minChunkSize 0).2 =
      ((scannedOffsets data).find? fun i => isBoundary i (fingerprintAt gear data i)).map
        (· + 1) := by
  unfold scannedOffsets
  by_cases h : minChunkSize < data.length
  · exact scan_eq_find? le_rfl (by omega) (fingerprintAt_minChunkSize h)
  · have hnone : min data.length maxChunkSize - minChunkSize = 0 := by omega
    rw [hnone]
    rfl

theorem scannedOffsets_of_short {data : Bytes} (h : data.length < minChunkSize) :
    scannedOffsets data = [] := by
  have hnone : min data.length maxChunkSize - minChunkSize = 0 := by omega
  rw [scannedOffsets, hnone]
  rfl

/-- The streamer cuts where the reference does. -/
theorem referenceCut_of_some {data : Bytes} {n : ℕ} (h : firstCut gear data = some n) :
    referenceCut gear data = n := by
  unfold firstCut at h
  rw [scan_minChunkSize] at h
  unfold referenceCut
  generalize ((scannedOffsets data).find? fun i =>
    isBoundary i (fingerprintAt gear data i)).map (· + 1) = found at h ⊢
  split_ifs at h with hshort hmax
  · cases found with
    | some m => exact Option.some.inj h
    | none => exact (min_eq_right hmax).trans (Option.some.inj h)
  · rw [Option.or_none] at h
    rw [h, Option.getD_some]

/-- Where the streamer waits for more, the reference ends with the stream. -/
theorem referenceCut_of_none {data : Bytes} (h : firstCut gear data = none) :
    referenceCut gear data = data.length := by
  have hle := minChunkSize_le_maxChunkSize
  unfold firstCut at h
  rw [scan_minChunkSize] at h
  unfold referenceCut
  split_ifs at h with hshort hmax
  · rw [scannedOffsets_of_short hshort, List.find?_nil, Option.map_none, Option.getD_none]
    exact min_eq_left (by omega)
  · rw [Option.or_eq_none_iff] at h
    cases h.2
  · rw [Option.or_none] at h
    rw [h, Option.getD_none]
    exact min_eq_left (by omega)

/-! ### All chunks -/

/-- **The streamer is the reference chunker**, on a stream fed at once. -/
theorem chunksOf_eq_referenceChunks (data : Bytes) :
    chunksOf gear data = referenceChunks gear data := by
  rw [chunksOf_eq]
  induction data using referenceChunks.induct gear with
  | case1 =>
    rw [referenceChunks, dif_pos rfl]
    exact Cutter.finish_nil
  | case2 data hne ih =>
    rw [referenceChunks, dif_neg hne]
    cases hcut : firstCut gear data with
    | some n =>
      rw [referenceCut_of_some hcut] at ih ⊢
      rw [Cutter.finish_of_some (C := cutter gear) hcut, ih]
    | none =>
      rw [referenceCut_of_none hcut, List.take_length, List.drop_length, referenceChunks,
        dif_pos rfl]
      exact Cutter.finish_of_none (C := cutter gear) hcut hne

/-- What a streamer in any state yields is made of its buffer and the pieces. -/
theorem Streamer.feedAll_eq {s : Streamer} (hs : s.Ok gear) (pieces : List Bytes) (last : Bytes) :
    s.feedAll gear pieces last = (cutter gear).finish (s.buffer ++ (pieces.flatten ++ last)) := by
  induction pieces generalizing s with
  | nil => exact feed_true hs last
  | cons piece pieces ih =>
    obtain ⟨hchunks, hbuf, hok⟩ := feed_false hs piece
    have hrest := ih hok
    rw [hbuf] at hrest
    show (s.feed gear piece false).1 ++ (s.feed gear piece false).2.feedAll gear pieces last = _
    rw [hrest, hchunks, List.flatten_cons, List.append_assoc, ← List.append_assoc s.buffer]
    exact (Cutter.finish_append (s.buffer ++ piece) (pieces.flatten ++ last)).symm

/-- The reads of a source are such a partition, with an empty last piece. -/
theorem chunksOfReads_eq_feedAll (s : Streamer) (reads : List Bytes) :
    chunksOfReads gear s reads = s.feedAll gear reads [] := by
  induction reads generalizing s with
  | nil => rfl
  | cons read reads ih => exact congrArg _ (ih (s.feed gear read false).2)

/-- **The chunks of a stream do not depend on how it is fed**: those of any
partition into calls, empty pieces included, are those of a single call, and they
are the reference chunker's. -/
theorem feedAll_eq_chunksOf (gear : UInt8 → ℕ) (pieces : List Bytes) (last : Bytes) :
    Streamer.feedAll gear {} pieces last = chunksOf gear (pieces.flatten ++ last) ∧
      chunksOf gear (pieces.flatten ++ last) = referenceChunks gear (pieces.flatten ++ last) := by
  refine ⟨?_, chunksOf_eq_referenceChunks _⟩
  rw [Streamer.feedAll_eq (Streamer.ok_fresh []), chunksOf_eq]
  rfl

end

end Pipeline
end Boveda

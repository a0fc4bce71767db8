/-
# The sizes of the chunks

What `FastCDCStreamer.feed` promises of the chunks that it yields and of the buffer
that it keeps, however a stream is split into calls (`feedAll_chunks`).  The loop of
`feed` takes a chunk off its buffer in every round but the last, so that it ends
after at most as many rounds as the buffer has bytes, and one (`feedRounds_eq`).
-/

import Boveda.Pipeline.Partition

namespace Boveda
namespace Pipeline

open Lib

section

variable (gear : UInt8 → ℕ)

/-- The `while` loop of `feed`, given up after some rounds. -/
def feedRounds (isEof : Bool) : ℕ → Streamer → Option (List Bytes × Streamer)
  | 0, _ => none
  | rounds + 1, s =>
    if s.buffer = [] then some ([], s)
    else
      match findFastcdcBoundaryRolling gear s.buffer s.scannedOffset s.buffer.length s.fingerprint
          isEof with
      | (boundary, fingerprint, newScanned) =>
        if boundary = 0 then some ([], { s with scannedOffset := newScanned, fingerprint })
        else
          let chunk := s.buffer.take boundary
          let s' : Streamer := { buffer := s.buffer.drop boundary }
          if ¬ isEof ∧ s'.buffer.length < minChunkSize then some ([chunk], s')
          else (feedRounds isEof rounds s').map fun (chunks, s'') => (chunk :: chunks, s'')

/-- The streamer after some calls of `feed` that are not the last. -/
def Streamer.afterFeeds (s : Streamer) (pieces : List Bytes) : Streamer :=
  pieces.foldl (fun s piece => (s.feed gear piece false).2) s

variable {gear}

/-! ### One call -/

theorem length_lt_of_firstCut_eq_none {buf : Bytes} (h : firstCut gear buf = none) :
    buf.length < maxChunkSize := by
  have := minChunkSize_le_maxChunkSize
  unfold firstCut at h
  split_ifs at h with hshort hmax
  · omega
  · rw [Option.or_eq_none_iff] at h
    cases h.2
  · omega

theorem length_le_of_mem_drain {data c : Bytes} (h : c ∈ ((cutter gear).drain data).1) :
    c.length ≤ maxChunkSize := by
  obtain ⟨t, n, hcut, rfl⟩ := Cutter.exists_cut_of_mem_drain h
  have := (firstCut_bounds gear hcut).2
  rw [List.length_take]
  omega

theorem length_lt_drain_snd (data : Bytes) :
    ((cutter gear).drain data).2.length < maxChunkSize :=
  length_lt_of_firstCut_eq_none (Cutter.cut_drain_snd (C := cutter gear) data)

theorem length_le_of_mem_finish {data c : Bytes} (h : c ∈ (cutter gear).finish data) :
    c.length ≤ maxChunkSize := by
  rcases List.mem_append.1 h with h | h
  · exact length_le_of_mem_drain h
  · split_ifs at h
    · cases h
    · rw [List.mem_singleton.1 h]
      exact (length_lt_drain_snd _).le

/-- No byte is lost in the loop of `feed`. -/
theorem flatten_feedLoop (isEof : Bool) (s : Streamer) :
    (feedLoop gear isEof s).1.flatten ++ (feedLoop gear isEof s).2.buffer = s.buffer := by
  induction s using feedLoop.induct gear isEof with
  | case1 s hnil => rw [feedLoop_nil hnil]; rfl
  | case2 s hne fp scanned hfind =>
    rw [feedLoop, dif_neg hne, hfind]
    rfl
  | case3 s hne boundary fp scanned hfind hb s' hshort =>
    rw [feedLoop, dif_neg hne, hfind]
    simp only [hb, dite_false]
    rw [if_pos hshort]
    simp
  | case4 s hne boundary fp scanned hfind hb s' hlong chunks s'' heq ih =>
    rw [feedLoop, dif_neg hne, hfind]
    simp only [hb, dite_false]
    rw [if_neg hlong, List.flatten_cons, List.append_assoc, ih]
    exact List.take_append_drop boundary s.buffer

/-- The lengths of what a call of `feed` yields and of what it leaves in the buffer. -/
theorem length_feed (s : Streamer) (data : Bytes) (isEof : Bool) :
    (s.feed gear data isEof).1.flatten.length + (s.feed gear data isEof).2.buffer.length =
      s.buffer.length + data.length := by
  rw [← List.length_append, ← List.length_append]
  exact congrArg List.length (flatten_feedLoop isEof _)

theorem length_le_of_mem_feed {s : Streamer} (hs : s.Ok gear) {data c : Bytes} {isEof : Bool}
    (h : c ∈ (s.feed gear data isEof).1) : c.length ≤ maxChunkSize := by
  cases isEof with
  | false =>
    rw [(feed_false hs data).1] at h
    exact length_le_of_mem_drain h
  | true =>
    rw [feed_true hs data] at h
    exact length_le_of_mem_finish h

/-! ### All calls -/

/-- **The loop of `feed` ends.** -/
theorem feedRounds_eq (isEof : Bool) (s : Streamer) : ∀ rounds, s.buffer.length < rounds →
    feedRounds gear isEof rounds s = some (feedLoop gear isEof s) := by
  induction s using feedLoop.induct gear isEof with
  | case1 s hnil =>
    rintro (_ | rounds) h
    · cases h
    · rw [feedRounds, if_pos hnil, feedLoop_nil hnil]
  | case2 s hne fp scanned hfind =>
    rintro (_ | rounds) h
    · cases h
    · rw [feedRounds, if_neg hne, feedLoop, dif_neg hne, hfind]
      rfl
  | case3 s hne boundary fp scanned hfind hb s' hshort =>
    rintro (_ | rounds) h
    · cases h
    · rw [feedRounds, if_neg hne, feedLoop, dif_neg hne, hfind]
      simp only [hb, dite_false, if_false]
      rw [if_pos hshort, if_pos hshort]
  | case4 s hne boundary fp scanned hfind hb s' hlong chunks s'' heq ih =>
    rintro (_ | rounds) h
    · cases h
    · have hpos := List.length_pos_iff.2 hne
      have hshorter : (s.buffer.drop boundary).length < rounds := by
        rw [List.length_drop]
        omega
      rw [feedRounds, if_neg hne, feedLoop, dif_neg hne, hfind]
      simp only [hb, dite_false, if_false]
      rw [if_neg hlong, if_neg hlong, ih rounds hshorter]
      rfl

/-- What the calls before the last leave in the buffer is where the last call starts. -/
theorem Streamer.afterFeeds_ok {s : Streamer} (hs : s.Ok gear)
    (hlen : s.buffer.length < maxChunkSize) (pieces : List Bytes) :
    (s.afterFeeds gear pieces).Ok gear ∧
      (s.afterFeeds gear pieces).buffer.length < maxChunkSize := by
  induction pieces generalizing s with
  | nil => exact ⟨hs, hlen⟩
  | cons piece pieces ih =>
    obtain ⟨-, hbuf, hok⟩ := feed_false hs piece
    exact ih hok (hbuf ▸ length_lt_drain_snd _)

/-- The last call leaves nothing. -/
theorem buffer_feed_true {s : Streamer} (hs : s.Ok gear) (data : Bytes) :
    (s.feed gear data true).2.buffer = [] := by
  have hlen : (s.feed gear data true).1.flatten.length + (s.feed gear data true).2.buffer.length =
      s.buffer.length + data.length := length_feed s data true
  rw [feed_true hs data, Cutter.flatten_finish, List.length_append] at hlen
  exact List.length_eq_zero_iff.1 (by omega)

/-- **The chunks of a stream**, whatever its bytes and however it is fed. -/
theorem feedAll_chunks (gear : UInt8 → ℕ) (pieces : List Bytes) (last : Bytes) :
    (Streamer.feedAll gear {} pieces last).flatten = pieces.flatten ++ last ∧
      (∀ chunk ∈ Streamer.feedAll gear {} pieces last,
        chunk ≠ [] ∧ chunk.length ≤ maxChunkSize) ∧
      (∀ chunk ∈ (Streamer.feedAll gear {} pieces last).dropLast,
        minChunkSize < chunk.length) ∧
      (((({} : Streamer).afterFeeds gear pieces).feed gear last true).2.buffer = []) ∧
      (∀ fed, fed <+: pieces →
        (({} : Streamer).afterFeeds gear fed).buffer.length < maxChunkSize) ∧
      ∀ (s : Streamer) (data : Bytes) (isEof : Bool), ∃ rounds,
        feedRounds gear isEof rounds { s with buffer := s.buffer ++ data } =
          some (s.feed gear data isEof) := by
  have hfresh : Streamer.Ok gear {} := Streamer.ok_fresh []
  have hchunks : Streamer.feedAll gear {} pieces last =
      (cutter gear).finish (pieces.flatten ++ last) := Streamer.feedAll_eq hfresh pieces last
  have hfed := Streamer.afterFeeds_ok hfresh maxChunkSize_pos
  refine ⟨?_, fun chunk hchunk => ⟨?_, ?_⟩, fun chunk hchunk => ?_,
    buffer_feed_true (hfed pieces).1 last, fun fed _ => (hfed fed).2,
    fun s data isEof => ⟨_, feedRounds_eq isEof _ _ (Nat.lt_succ_self _)⟩⟩
  · rw [hchunks, Cutter.flatten_finish]
  · rw [hchunks] at hchunk
    exact Cutter.ne_nil_of_mem_finish hchunk
  · rw [hchunks] at hchunk
    exact length_le_of_mem_finish hchunk
  · rw [hchunks] at hchunk
    obtain ⟨t, n, hcut, rfl⟩ := Cutter.exists_cut_of_mem_dropLast_finish hchunk
    have hbounds := firstCut_bounds gear hcut
    rw [List.length_take]
    omega

end

end Pipeline
end Boveda

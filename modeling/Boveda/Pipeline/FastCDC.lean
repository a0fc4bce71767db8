/-
# FastCDC

`src/boveda/fastcdc.py`.  `FastCDCStreamer.feed` appends what has been read to a
buffer and cuts chunks off its front.  It remembers how far it has scanned the
buffer and the fingerprint it has reached there, so that no byte is scanned
twice (`Streamer.Ok`).

`cutter` says where the first chunk of a buffer ends, without the memory; the
streamer cuts as it does (`find_spec`), so the chunks of a stream do not depend
on how it was read (`chunksOfReads_flatten`).

`GEAR_TABLE` is derived from SHA-256; here it is the parameter `gear`.
-/

import Boveda.Lib.Bytes
import Boveda.Lib.Cutter

namespace Boveda
namespace Pipeline

open Lib

/-- `MIN_CHUNK_SIZE`, 1 MiB. -/
@[irreducible] def minChunkSize : ℕ := 1 * 1024 * 1024

/-- `AVG_CHUNK_SIZE`, 2 MiB. -/
@[irreducible] def avgChunkSize : ℕ := 2 * 1024 * 1024

/-- `MAX_CHUNK_SIZE`, 4 MiB. -/
@[irreducible] def maxChunkSize : ℕ := 4 * 1024 * 1024

/-- `MASK_STRICT`, for offsets below `AVG_CHUNK_SIZE`. -/
def maskStrict : ℕ := 0x003FFFFF

/-- `MASK_LAX`, for the others. -/
def maskLax : ℕ := 0x000FFFFF

section

variable (gear : UInt8 → ℕ)

/-- The next fingerprint, a 64-bit number. -/
def roll (fingerprint : ℕ) (b : UInt8) : ℕ :=
  ((fingerprint <<< 1) + gear b) &&& 0xFFFFFFFFFFFFFFFF

/-- Whether a chunk may end after offset `i`. -/
def isBoundary (i fingerprint : ℕ) : Bool :=
  if i < avgChunkSize then fingerprint &&& maskStrict == 0 else fingerprint &&& maskLax == 0

/-- The loop `for i in range(i, i + count)`: the fingerprint at its end and the
boundary that ended it. -/
def scan (buf : Bytes) : ℕ → ℕ → ℕ → ℕ × Option ℕ
  | 0, _, fingerprint => (fingerprint, none)
  | count + 1, i, fingerprint =>
    let fingerprint := roll gear fingerprint (buf.getD i 0)
    if isBoundary i fingerprint then (fingerprint, some (i + 1))
    else scan buf count (i + 1) fingerprint

/-- `find_fastcdc_boundary_rolling`: boundary (0 for none), fingerprint, and how
far the buffer has been scanned. -/
def findFastcdcBoundaryRolling (buf : Bytes) (startOffset maxOffset fingerprint : ℕ)
    (isEof : Bool) : ℕ × ℕ × ℕ :=
  if buf.length < minChunkSize then (if isEof then buf.length else 0, fingerprint, 0)
  else
    let scanLimit := min (min buf.length maxOffset) maxChunkSize
    let startScan := max minChunkSize startOffset
    match scan gear buf (scanLimit - startScan) startScan fingerprint with
    | (fingerprint, some b) => (b, fingerprint, b)
    | (fingerprint, none) =>
      if maxChunkSize ≤ scanLimit then (maxChunkSize, fingerprint, maxChunkSize)
      else if isEof ∧ 0 < buf.length then (buf.length, fingerprint, buf.length)
      else (0, fingerprint, scanLimit)

/-- `find_fastcdc_boundary`: the boundary of a scan that begins with no fingerprint. -/
def findFastcdcBoundary (buf : Bytes) (startOffset maxOffset : ℕ) (isEof : Bool) : ℕ :=
  (findFastcdcBoundaryRolling gear buf startOffset maxOffset 0 isEof).1

/-- `FastCDCStreamer`. -/
structure Streamer where
  buffer : Bytes := []
  scannedOffset : ℕ := 0
  fingerprint : ℕ := 0
  deriving DecidableEq, Repr

/-- The `while` loop of `feed`. -/
def feedLoop (isEof : Bool) (s : Streamer) : List Bytes × Streamer :=
  if _h : s.buffer = [] then ([], s)
  else
    match findFastcdcBoundaryRolling gear s.buffer s.scannedOffset s.buffer.length s.fingerprint
        isEof with
    | (boundary, fingerprint, newScanned) =>
      if _hb : boundary = 0 then ([], { s with scannedOffset := newScanned, fingerprint })
      else
        let chunk := s.buffer.take boundary
        let s' : Streamer := { buffer := s.buffer.drop boundary }
        if ¬ isEof ∧ s'.buffer.length < minChunkSize then ([chunk], s')
        else
          let (chunks, s'') := feedLoop isEof s'
          (chunk :: chunks, s'')
termination_by s.buffer.length
decreasing_by
  have := List.length_pos_iff.2 _h
  simp only [List.length_drop]
  omega

/-- `FastCDCStreamer.feed`, iterated to its end. -/
def Streamer.feed (s : Streamer) (data : Bytes) (isEof : Bool) : List Bytes × Streamer :=
  feedLoop gear isEof { s with buffer := s.buffer ++ data }

/-- The chunks that a source yields when its output is read piece by piece; the
read that finds the end is empty. -/
def chunksOfReads (s : Streamer) : List Bytes → List Bytes
  | [] => (s.feed gear [] true).1
  | read :: reads =>
    let (chunks, s') := s.feed gear read false
    chunks ++ chunksOfReads s' reads

/-- The FastCDC chunks of a stream, read at once. -/
def chunksOf (data : Bytes) : List Bytes := (({} : Streamer).feed gear data true).1

/-! ### The scan -/

theorem scan_add (buf : Bytes) (m n i fp : ℕ) : scan gear buf (m + n) i fp =
    match scan gear buf m i fp with
    | (fp', none) => scan gear buf n (i + m) fp'
    | found => found := by
  induction m generalizing i fp with
  | zero => simp [scan]
  | succ m ih =>
    rw [Nat.succ_add, scan, scan]
    by_cases hb : isBoundary i (roll gear fp (buf.getD i 0)) = true
    · simp only [hb, if_true]
    · simp only [hb, ih]
      rw [Nat.add_assoc, Nat.add_comm 1 m]
      rfl

/-- What lies behind the scanned bytes does not matter. -/
theorem scan_append (buf t : Bytes) (n i fp : ℕ) (h : i + n ≤ buf.length) :
    scan gear (buf ++ t) n i fp = scan gear buf n i fp := by
  induction n generalizing i fp with
  | zero => rfl
  | succ n ih =>
    have hget : (buf ++ t).getD i 0 = buf.getD i 0 := by
      rw [List.getD_eq_getElem?_getD, List.getD_eq_getElem?_getD,
        List.getElem?_append_left (by omega)]
    rw [scan, scan, hget]
    split
    · rfl
    · exact ih (i + 1) _ (by omega)

theorem scan_bounds {buf : Bytes} {n i fp b : ℕ} (h : (scan gear buf n i fp).2 = some b) :
    i < b ∧ b ≤ i + n := by
  induction n generalizing i fp with
  | zero => cases h
  | succ n ih =>
    rw [scan] at h
    split at h
    · obtain rfl := Option.some.inj h
      omega
    · have := ih h
      omega

/-! ### Where the first chunk ends -/

/-- The first boundary of a buffer that has not been scanned yet. -/
def firstCut (buf : Bytes) : Option ℕ :=
  if buf.length < minChunkSize then none
  else (scan gear buf (min buf.length maxChunkSize - minChunkSize) minChunkSize 0).2.or
    (if maxChunkSize ≤ buf.length then some maxChunkSize else none)

theorem minChunkSize_pos : 0 < minChunkSize := by
  unfold minChunkSize
  decide

theorem minChunkSize_lt_maxChunkSize : minChunkSize < maxChunkSize := by
  unfold minChunkSize maxChunkSize
  decide

theorem minChunkSize_le_maxChunkSize : minChunkSize ≤ maxChunkSize :=
  minChunkSize_lt_maxChunkSize.le

/-- From the average size on, more has been scanned than a mask has digits. -/
theorem minChunkSize_add_lt_avgChunkSize : minChunkSize + 22 < avgChunkSize := by
  unfold minChunkSize avgChunkSize
  decide

theorem avgChunkSize_lt_maxChunkSize : avgChunkSize < maxChunkSize := by
  unfold avgChunkSize maxChunkSize
  decide

theorem firstCut_bounds {buf : Bytes} {n : ℕ} (h : firstCut gear buf = some n) :
    minChunkSize < n ∧ n ≤ min buf.length maxChunkSize := by
  have hlt := minChunkSize_lt_maxChunkSize
  unfold firstCut at h
  split_ifs at h with hlen hmax
  · cases hs : (scan gear buf (min buf.length maxChunkSize - minChunkSize) minChunkSize 0).2 with
    | some b =>
      have := scan_bounds gear hs
      rw [hs, Option.some_or] at h
      obtain rfl := Option.some.inj h
      omega
    | none =>
      rw [hs, Option.none_or] at h
      obtain rfl := Option.some.inj h
      omega
  · rw [Option.or_none] at h
    have := scan_bounds gear h
    omega

/-- **More data does not move the first boundary.** -/
theorem firstCut_append {buf : Bytes} {n : ℕ} (t : Bytes) (h : firstCut gear buf = some n) :
    firstCut gear (buf ++ t) = some n := by
  have hle := minChunkSize_le_maxChunkSize
  unfold firstCut at h ⊢
  split_ifs at h with hlen hmax
  · have happ : maxChunkSize ≤ (buf ++ t).length := by rw [List.length_append]; omega
    have hmin : ¬ (buf ++ t).length < minChunkSize := by omega
    rw [min_eq_right hmax] at h
    rw [if_neg hmin, if_pos happ, min_eq_right happ, scan_append gear buf t _ _ _ (by omega)]
    exact h
  · rw [Option.or_none] at h
    have hmin : ¬ (buf ++ t).length < minChunkSize := by rw [List.length_append]; omega
    obtain ⟨k, hk⟩ := Nat.exists_eq_add_of_le
      (show min buf.length maxChunkSize - minChunkSize ≤
        min (buf ++ t).length maxChunkSize - minChunkSize by rw [List.length_append]; omega)
    rw [if_neg hmin, hk, scan_add, scan_append gear buf t _ _ _ (by omega)]
    generalize scan gear buf (min buf.length maxChunkSize - minChunkSize) minChunkSize 0 = r at h ⊢
    obtain ⟨fp, o⟩ := r
    cases h
    rfl

theorem length_drop_lt {buf : Bytes} {n : ℕ} (h : firstCut gear buf = some n) :
    (buf.drop n).length < buf.length := by
  have := firstCut_bounds gear h
  have := minChunkSize_pos
  rw [List.length_drop]
  omega

/-- FastCDC cuts a stream as it arrives. -/
def cutter : Cutter UInt8 where
  cut := firstCut gear
  pos h := Nat.zero_lt_of_lt (firstCut_bounds gear h).1
  le h := (firstCut_bounds gear h).2.trans (min_le_left _ _)
  stable t h := firstCut_append gear t h

/-! ### The streamer -/

/-- The streamer has scanned its buffer up to `scannedOffset` without finding a
boundary, and `fingerprint` is where the scan stands. -/
structure Streamer.Ok (s : Streamer) : Prop where
  scanned : s.scannedOffset ≤ min s.buffer.length maxChunkSize
  resume : scan gear s.buffer (max minChunkSize s.scannedOffset - minChunkSize) minChunkSize 0 =
    (s.fingerprint, none)

variable {gear}

theorem Streamer.ok_fresh (buffer : Bytes) : Streamer.Ok gear { buffer } := by
  refine ⟨Nat.zero_le _, ?_⟩
  rw [max_eq_left (Nat.zero_le _), Nat.sub_self]
  rfl

theorem Streamer.Ok.append {s : Streamer} (hs : s.Ok gear) (data : Bytes) :
    Streamer.Ok gear { s with buffer := s.buffer ++ data } := by
  have h := hs.scanned
  refine ⟨by simp only [List.length_append]; omega, ?_⟩
  rw [← hs.resume]
  by_cases hm : s.scannedOffset ≤ minChunkSize
  · simp only [max_eq_left hm, Nat.sub_self]
    rfl
  · have hmax : max minChunkSize s.scannedOffset = s.scannedOffset := max_eq_right (by omega)
    exact scan_append gear _ _ _ _ _ (by rw [hmax]; omega)

/-- A buffer that has been scanned to its end. -/
theorem Streamer.ok_of_scan {buffer : Bytes} {fp : ℕ} (hlong : minChunkSize ≤ buffer.length)
    (hfits : buffer.length ≤ maxChunkSize)
    (h : scan gear buffer (buffer.length - minChunkSize) minChunkSize 0 = (fp, none)) :
    Streamer.Ok gear ⟨buffer, buffer.length, fp⟩ := by
  refine ⟨le_min le_rfl hfits, ?_⟩
  rw [← max_eq_right hlong] at h
  exact h

/-- The scan of the whole buffer goes on with the loop of the next call. -/
theorem Streamer.Ok.scan_eq {s : Streamer} (hs : s.Ok gear) :
    scan gear s.buffer (min s.buffer.length maxChunkSize - minChunkSize) minChunkSize 0 =
      scan gear s.buffer (min s.buffer.length maxChunkSize - max minChunkSize s.scannedOffset)
        (max minChunkSize s.scannedOffset) s.fingerprint := by
  have hscanned := hs.scanned
  have hsplit : min s.buffer.length maxChunkSize - minChunkSize =
      (max minChunkSize s.scannedOffset - minChunkSize) +
        (min s.buffer.length maxChunkSize - max minChunkSize s.scannedOffset) := by omega
  have hstart : minChunkSize + (max minChunkSize s.scannedOffset - minChunkSize) =
      max minChunkSize s.scannedOffset := by omega
  rw [hsplit, scan_add, hs.resume, hstart]

/-- **One call to `find_fastcdc_boundary_rolling`** finds the first boundary of
the buffer, the end of the buffer when the stream is over, or else has scanned
all there is. -/
theorem find_spec {s : Streamer} (hs : s.Ok gear) (isEof : Bool) :
    let r := findFastcdcBoundaryRolling gear s.buffer s.scannedOffset s.buffer.length s.fingerprint
      isEof
    (∀ n, firstCut gear s.buffer = some n → r.1 = n) ∧
      (firstCut gear s.buffer = none → r.1 = (if isEof then s.buffer.length else 0) ∧
        (isEof = false → Streamer.Ok gear ⟨s.buffer, r.2.2, r.2.1⟩)) := by
  intro r
  have hle := minChunkSize_le_maxChunkSize
  have hscanned := hs.scanned
  have hr : r = findFastcdcBoundaryRolling gear s.buffer s.scannedOffset s.buffer.length
    s.fingerprint isEof := rfl
  unfold findFastcdcBoundaryRolling at hr
  unfold firstCut
  by_cases hlen : s.buffer.length < minChunkSize
  · rw [if_pos hlen] at hr
    rw [if_pos hlen, hr]
    constructor
    · rintro n ⟨⟩
    · refine fun _ => ⟨rfl, fun _ => ⟨Nat.zero_le _, ?_⟩⟩
      rw [← hs.resume, max_eq_left (Nat.zero_le _), max_eq_left (by omega)]
  · rw [if_neg hlen, min_self] at hr
    rw [if_neg hlen]
    -- the whole scan is what has been scanned before and the loop of this call
    simp only [← hs.scan_eq] at hr
    cases hf : scan gear s.buffer (min s.buffer.length maxChunkSize - minChunkSize)
        minChunkSize 0 with
    | mk fp o =>
      rw [hf] at hr
      cases o with
      | some b =>
        rw [hr]
        constructor
        · exact fun n hn => Option.some.inj hn
        · rintro ⟨⟩
      | none =>
        by_cases hmax : maxChunkSize ≤ s.buffer.length
        · simp only [min_eq_right hmax, le_refl, if_true] at hr
          rw [hr, if_pos hmax]
          constructor
          · exact fun n hn => Option.some.inj hn
          · rintro ⟨⟩
        · have hmin : min s.buffer.length maxChunkSize = s.buffer.length := min_eq_left (by omega)
          have hpos : 0 < s.buffer.length := by
            have := minChunkSize_pos
            omega
          simp only [hmin, hmax, if_false, hpos, and_true] at hr
          rw [if_neg hmax, hr]
          constructor
          · rintro n ⟨⟩
          refine fun _ => ⟨?_, ?_⟩
          · cases isEof <;> rfl
          · rintro rfl
            rw [hmin] at hf
            exact Streamer.ok_of_scan (by omega) (by omega) hf

theorem feedLoop_nil {isEof : Bool} {s : Streamer} (h : s.buffer = []) :
    feedLoop gear isEof s = ([], s) := by
  rw [feedLoop, dif_pos h]

/-- One round of the loop, when the buffer has a boundary. -/
theorem feedLoop_of_some {s : Streamer} (hs : s.Ok gear) {n : ℕ}
    (h : firstCut gear s.buffer = some n) (isEof : Bool) :
    feedLoop gear isEof s =
      (s.buffer.take n :: (feedLoop gear isEof { buffer := s.buffer.drop n }).1,
        (feedLoop gear isEof { buffer := s.buffer.drop n }).2) := by
  have hpos : n ≠ 0 := by
    have := firstCut_bounds gear h
    have := minChunkSize_pos
    omega
  have hne : s.buffer ≠ [] := by
    intro hnil
    have := firstCut_bounds gear h
    rw [hnil, List.length_nil] at this
    omega
  have hfind := (find_spec hs isEof).1 n h
  rw [feedLoop, dif_neg hne]
  generalize findFastcdcBoundaryRolling gear s.buffer s.scannedOffset s.buffer.length s.fingerprint
    isEof = r at hfind
  obtain ⟨boundary, fp, newScanned⟩ := r
  obtain rfl : boundary = n := hfind
  simp only [hpos, dite_false]
  split_ifs with hshort
  · -- the loop stops early where another round would find the buffer too short
    obtain ⟨heof, hlen⟩ := hshort
    obtain rfl : isEof = false := by simpa using heof
    by_cases hnil : s.buffer.drop boundary = []
    · rw [feedLoop_nil hnil]
    · have hnone : findFastcdcBoundaryRolling gear (s.buffer.drop boundary) 0
          (s.buffer.drop boundary).length 0 false = (0, 0, 0) := if_pos hlen
      rw [feedLoop, dif_neg hnil]
      simp only [hnone, dite_true]
  · rfl

/-- The last round of the loop, when more may arrive. -/
theorem feedLoop_of_none_false {s : Streamer} (hs : s.Ok gear)
    (h : firstCut gear s.buffer = none) : ∃ s' : Streamer, feedLoop gear false s = ([], s') ∧
      s'.buffer = s.buffer ∧ s'.Ok gear := by
  by_cases hne : s.buffer = []
  · exact ⟨s, feedLoop_nil hne, rfl, hs⟩
  · obtain ⟨hfind, hok⟩ := (find_spec hs false).2 h
    rw [feedLoop, dif_neg hne]
    generalize findFastcdcBoundaryRolling gear s.buffer s.scannedOffset s.buffer.length
      s.fingerprint false = r at hfind hok
    obtain ⟨boundary, fp, newScanned⟩ := r
    obtain rfl : boundary = 0 := hfind
    exact ⟨⟨s.buffer, newScanned, fp⟩, by simp only [dite_true], rfl, hok rfl⟩

/-- The last rounds of the loop, when the stream is over. -/
theorem feedLoop_of_none_true {s : Streamer} (hs : s.Ok gear)
    (h : firstCut gear s.buffer = none) (hne : s.buffer ≠ []) :
    feedLoop gear true s = ([s.buffer], {}) := by
  have hfind := ((find_spec hs true).2 h).1
  have hpos : s.buffer.length ≠ 0 := fun h0 => hne (List.length_eq_zero_iff.1 h0)
  rw [feedLoop, dif_neg hne]
  generalize findFastcdcBoundaryRolling gear s.buffer s.scannedOffset s.buffer.length
    s.fingerprint true = r at hfind
  obtain ⟨boundary, fp, newScanned⟩ := r
  obtain rfl : boundary = s.buffer.length := hfind
  simp only [hpos, dite_false, List.take_length, List.drop_length]
  rw [feedLoop_nil rfl]
  simp

/-- **A call to `feed` while more may arrive** yields the chunks that are complete. -/
theorem feed_false {s : Streamer} (hs : s.Ok gear) (data : Bytes) :
    (s.feed gear data false).1 = ((cutter gear).drain (s.buffer ++ data)).1 ∧
      (s.feed gear data false).2.buffer = ((cutter gear).drain (s.buffer ++ data)).2 ∧
      (s.feed gear data false).2.Ok gear := by
  suffices h : ∀ (k : ℕ) (s : Streamer), s.buffer.length = k → s.Ok gear →
      (feedLoop gear false s).1 = ((cutter gear).drain s.buffer).1 ∧
        (feedLoop gear false s).2.buffer = ((cutter gear).drain s.buffer).2 ∧
        (feedLoop gear false s).2.Ok gear from h _ _ rfl (hs.append data)
  intro k
  induction k using Nat.strong_induction_on with
  | _ k ih =>
    rintro s rfl hs
    cases hcut : firstCut gear s.buffer with
    | none =>
      obtain ⟨s', hloop, hbuf, hok⟩ := feedLoop_of_none_false hs hcut
      rw [hloop, Cutter.drain_of_none (C := cutter gear) hcut]
      exact ⟨rfl, hbuf, hok⟩
    | some n =>
      obtain ⟨h₁, h₂, h₃⟩ := ih (s.buffer.drop n).length
        (length_drop_lt gear hcut) { buffer := s.buffer.drop n } rfl (Streamer.ok_fresh _)
      rw [feedLoop_of_some hs hcut, Cutter.drain_of_some (C := cutter gear) hcut]
      exact ⟨congrArg _ h₁, h₂, h₃⟩

/-- **The call to `feed` at the end of the stream** yields all that is left. -/
theorem feed_true {s : Streamer} (hs : s.Ok gear) (data : Bytes) :
    (s.feed gear data true).1 = (cutter gear).finish (s.buffer ++ data) := by
  suffices h : ∀ (k : ℕ) (s : Streamer), s.buffer.length = k → s.Ok gear →
      (feedLoop gear true s).1 = (cutter gear).finish s.buffer from h _ _ rfl (hs.append data)
  intro k
  induction k using Nat.strong_induction_on with
  | _ k ih =>
    rintro s rfl hs
    cases hcut : firstCut gear s.buffer with
    | none =>
      by_cases hne : s.buffer = []
      · rw [feedLoop_nil hne, hne, Cutter.finish_nil]
      · rw [feedLoop_of_none_true hs hcut hne, Cutter.finish_of_none (C := cutter gear) hcut hne]
    | some n =>
      have h₁ := ih (s.buffer.drop n).length
        (length_drop_lt gear hcut) { buffer := s.buffer.drop n } rfl (Streamer.ok_fresh _)
      rw [feedLoop_of_some hs hcut, Cutter.finish_of_some (C := cutter gear) hcut]
      exact congrArg _ h₁

/-- **The chunks do not depend on the reads.** -/
theorem chunksOfReads_eq (reads : List Bytes) {s : Streamer} (hs : s.Ok gear) :
    chunksOfReads gear s reads = (cutter gear).finish (s.buffer ++ reads.flatten) := by
  induction reads generalizing s with
  | nil => exact feed_true hs []
  | cons read reads ih =>
    obtain ⟨h₁, h₂, h₃⟩ := feed_false hs read
    have hih := ih h₃
    rw [h₂] at hih
    show (s.feed gear read false).1 ++ chunksOfReads gear (s.feed gear read false).2 reads = _
    rw [hih, h₁, List.flatten_cons, ← List.append_assoc]
    exact (Cutter.finish_append (s.buffer ++ read) reads.flatten).symm

theorem chunksOf_eq (data : Bytes) : chunksOf gear data = (cutter gear).finish data :=
  feed_true (Streamer.ok_fresh []) data

/-- However a stream is read, its source yields the same chunks. -/
theorem chunksOfReads_flatten (reads : List Bytes) :
    chunksOfReads gear {} reads = chunksOf gear reads.flatten := by
  rw [chunksOfReads_eq reads (Streamer.ok_fresh []), chunksOf_eq]
  rfl

/-- The chunks of a stream make it up. -/
theorem flatten_chunksOf (data : Bytes) : (chunksOf gear data).flatten = data := by
  rw [chunksOf_eq, Cutter.flatten_finish]

end

end Pipeline
end Boveda

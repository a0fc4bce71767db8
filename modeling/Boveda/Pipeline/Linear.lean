/-
# No byte is scanned twice

`FastCDCStreamer` scans its buffer in linear time, says `src/boveda/fastcdc.py`: a call of
`feed` that finds no boundary remembers how far it has come, and the next one goes on from
there.  Here the rounds of `for i in range(start_scan, scan_limit)` are counted, in all the
calls of `find_fastcdc_boundary_rolling` that the calls of `feed` make.

A chunk costs one round for each of its bytes from `MIN_CHUNK_SIZE` on, and nothing else is
paid, however the stream is split into calls (`feedAllSteps_eq`).  What has been paid for the
buffer so far is the credit that carries the induction (`Streamer.paid`).
-/

import Boveda.Pipeline.Partition
import Mathlib.Algebra.Order.BigOperators.Group.List

namespace Boveda
namespace Pipeline

open Lib

section

variable (gear : UInt8 → ℕ)

/-! ### Rounds -/

/-- The rounds of `scan`. -/
def scanSteps (buf : Bytes) : ℕ → ℕ → ℕ → ℕ
  | 0, _, _ => 0
  | count + 1, i, fingerprint =>
    let fingerprint := roll gear fingerprint (buf.getD i 0)
    if isBoundary i fingerprint then 1 else scanSteps buf count (i + 1) fingerprint + 1

/-- The rounds of `find_fastcdc_boundary_rolling`. -/
def findSteps (buf : Bytes) (startOffset maxOffset fingerprint : ℕ) : ℕ :=
  if buf.length < minChunkSize then 0
  else
    let scanLimit := min (min buf.length maxOffset) maxChunkSize
    let startScan := max minChunkSize startOffset
    scanSteps gear buf (scanLimit - startScan) startScan fingerprint

/-- The rounds of all the scans in the `while` loop of `feed`. -/
def feedLoopSteps (isEof : Bool) (s : Streamer) : ℕ :=
  if _h : s.buffer = [] then 0
  else
    let steps := findSteps gear s.buffer s.scannedOffset s.buffer.length s.fingerprint
    let boundary := (findFastcdcBoundaryRolling gear s.buffer s.scannedOffset s.buffer.length
      s.fingerprint isEof).1
    if _hb : boundary = 0 then steps
    else
      let s' : Streamer := { buffer := s.buffer.drop boundary }
      if ¬ isEof ∧ s'.buffer.length < minChunkSize then steps
      else steps + feedLoopSteps isEof s'
termination_by s.buffer.length
decreasing_by
  have := List.length_pos_iff.2 _h
  simp only [List.length_drop]
  omega

/-- The rounds in a call of `feed`. -/
def Streamer.feedSteps (s : Streamer) (data : Bytes) (isEof : Bool) : ℕ :=
  feedLoopSteps gear isEof { s with buffer := s.buffer ++ data }

/-- The rounds in all the calls of `feed`, the last with `is_eof`. -/
def Streamer.feedAllSteps (s : Streamer) : List Bytes → Bytes → ℕ
  | [], last => s.feedSteps gear last true
  | piece :: pieces, last =>
    s.feedSteps gear piece false + (s.feed gear piece false).2.feedAllSteps pieces last

/-- The rounds that have been paid for the buffer. -/
def Streamer.paid (s : Streamer) : ℕ := max minChunkSize s.scannedOffset - minChunkSize

/-- What a chunk costs. -/
def price (chunk : Bytes) : ℕ := chunk.length - minChunkSize

variable {gear}

/-! ### One scan -/

theorem scanSteps_of_some {buf : Bytes} {n i fp b : ℕ}
    (h : (scan gear buf n i fp).2 = some b) : scanSteps gear buf n i fp = b - i := by
  induction n generalizing i fp with
  | zero => cases h
  | succ n ih =>
    rw [scan] at h
    rw [scanSteps]
    split at h
    · next hb =>
      obtain rfl := Option.some.inj h
      rw [if_pos hb, Nat.add_sub_cancel_left]
    · next hb =>
      have hbounds := scan_bounds gear h
      rw [if_neg hb, ih h]
      omega

theorem scanSteps_of_none {buf : Bytes} {n i fp : ℕ} (h : (scan gear buf n i fp).2 = none) :
    scanSteps gear buf n i fp = n := by
  induction n generalizing i fp with
  | zero => rfl
  | succ n ih =>
    rw [scan] at h
    rw [scanSteps]
    split at h
    · cases h
    · next hb => rw [if_neg hb, ih h]

/-- **A call that finds the boundary** has paid for the chunk. -/
theorem findSteps_of_some {s : Streamer} (hs : s.Ok gear) {n : ℕ}
    (h : firstCut gear s.buffer = some n) :
    findSteps gear s.buffer s.scannedOffset s.buffer.length s.fingerprint + s.paid =
      n - minChunkSize := by
  have hscan := hs.scan_eq
  have hscanned := hs.scanned
  have hle := minChunkSize_le_maxChunkSize
  unfold firstCut at h
  unfold findSteps Streamer.paid
  split_ifs at h with hlen hmax
  · rw [if_neg hlen, min_self]
    rw [hscan] at h
    cases hrest : (scan gear s.buffer
        (min s.buffer.length maxChunkSize - max minChunkSize s.scannedOffset)
        (max minChunkSize s.scannedOffset) s.fingerprint).2 with
    | some b =>
      have hbounds := scan_bounds gear hrest
      rw [hrest, Option.some_or] at h
      obtain rfl := Option.some.inj h
      rw [scanSteps_of_some hrest]
      omega
    | none =>
      rw [hrest, Option.none_or] at h
      obtain rfl := Option.some.inj h
      rw [scanSteps_of_none hrest]
      omega
  · rw [if_neg hlen, min_self]
    rw [hscan, Option.or_none] at h
    have hbounds := scan_bounds gear h
    rw [scanSteps_of_some h]
    omega

/-- A call that finds none has paid for the whole buffer. -/
theorem findSteps_of_none {s : Streamer} (hs : s.Ok gear) (h : firstCut gear s.buffer = none) :
    findSteps gear s.buffer s.scannedOffset s.buffer.length s.fingerprint + s.paid =
      price s.buffer := by
  have hscan := hs.scan_eq
  have hscanned := hs.scanned
  have hle := minChunkSize_le_maxChunkSize
  unfold firstCut at h
  unfold findSteps Streamer.paid price
  split_ifs at h with hlen hmax
  · rw [if_pos hlen]
    omega
  · rw [Option.or_eq_none_iff] at h
    cases h.2
  · rw [if_neg hlen, min_self]
    rw [hscan, Option.or_none] at h
    rw [scanSteps_of_none h]
    omega

/-- How far a call has scanned that finds none. -/
theorem scanned_of_none {s : Streamer} (hs : s.Ok gear) (h : firstCut gear s.buffer = none) :
    max minChunkSize (findFastcdcBoundaryRolling gear s.buffer s.scannedOffset s.buffer.length
      s.fingerprint false).2.2 - minChunkSize = price s.buffer := by
  have hscan := hs.scan_eq
  have hle := minChunkSize_le_maxChunkSize
  unfold firstCut at h
  unfold findFastcdcBoundaryRolling price
  split_ifs at h with hlen hmax
  · rw [if_pos hlen]
    dsimp only
    omega
  · rw [Option.or_eq_none_iff] at h
    cases h.2
  · rw [Option.or_none, hscan] at h
    rw [if_neg hlen, min_self]
    dsimp only
    cases hrest : scan gear s.buffer
        (min s.buffer.length maxChunkSize - max minChunkSize s.scannedOffset)
        (max minChunkSize s.scannedOffset) s.fingerprint with
    | mk fp found =>
      rw [hrest] at h
      obtain rfl : found = none := h
      dsimp only
      rw [if_neg (by omega), if_neg (fun hand => Bool.false_ne_true hand.1)]
      dsimp only
      omega

/-! ### One call of `feed` -/

theorem feedLoopSteps_nil {isEof : Bool} {s : Streamer} (h : s.buffer = []) :
    feedLoopSteps gear isEof s = 0 := by
  rw [feedLoopSteps, dif_pos h]

/-- A buffer that is too short costs nothing. -/
theorem feedLoopSteps_of_short {s : Streamer} (h : s.buffer.length < minChunkSize) :
    feedLoopSteps gear false s = 0 := by
  by_cases hnil : s.buffer = []
  · exact feedLoopSteps_nil hnil
  · have hfind : findFastcdcBoundaryRolling gear s.buffer s.scannedOffset s.buffer.length
        s.fingerprint false = (0, s.fingerprint, 0) := if_pos h
    rw [feedLoopSteps, dif_neg hnil]
    dsimp only
    rw [hfind, dif_pos rfl, findSteps, if_pos h]

/-- One round of the loop, when the buffer has a boundary. -/
theorem feedLoopSteps_of_some {s : Streamer} (hs : s.Ok gear) {n : ℕ}
    (h : firstCut gear s.buffer = some n) (isEof : Bool) :
    feedLoopSteps gear isEof s =
      findSteps gear s.buffer s.scannedOffset s.buffer.length s.fingerprint +
        feedLoopSteps gear isEof { buffer := s.buffer.drop n } := by
  have hbounds := firstCut_bounds gear h
  have hne : s.buffer ≠ [] := by
    intro hnil
    rw [hnil, List.length_nil] at hbounds
    omega
  have hfind := (find_spec hs isEof).1 n h
  rw [feedLoopSteps, dif_neg hne]
  dsimp only at hfind ⊢
  rw [hfind, dif_neg (by omega)]
  split_ifs with hshort
  · obtain ⟨heof, hlen⟩ := hshort
    obtain rfl : isEof = false := by simpa using heof
    rw [feedLoopSteps_of_short hlen, Nat.add_zero]
  · rfl

/-- The last round. -/
theorem feedLoopSteps_of_none {s : Streamer} (hs : s.Ok gear) (h : firstCut gear s.buffer = none)
    (hne : s.buffer ≠ []) (isEof : Bool) : feedLoopSteps gear isEof s =
      findSteps gear s.buffer s.scannedOffset s.buffer.length s.fingerprint := by
  have hfind := ((find_spec hs isEof).2 h).1
  have hpos := List.length_pos_iff.2 hne
  rw [feedLoopSteps, dif_neg hne]
  dsimp only at hfind ⊢
  cases isEof with
  | false => rw [hfind, if_neg Bool.false_ne_true, dif_pos rfl]
  | true =>
    rw [hfind, if_pos rfl, dif_neg (by omega), if_neg (fun hand => hand.1 rfl), List.drop_length,
      feedLoopSteps_nil rfl, Nat.add_zero]

theorem paid_fresh (buffer : Bytes) : Streamer.paid { buffer } = 0 := by
  rw [Streamer.paid, max_eq_left (Nat.zero_le _), Nat.sub_self]

/-- **One call of `feed`** pays for the chunks that it yields, with what was paid before, and
the rest for what it leaves. -/
theorem feedLoopSteps_eq {s : Streamer} (hs : s.Ok gear) (isEof : Bool) :
    feedLoopSteps gear isEof s + s.paid =
      ((feedLoop gear isEof s).1.map price).sum + (feedLoop gear isEof s).2.paid := by
  generalize hk : s.buffer.length = k
  induction k using Nat.strong_induction_on generalizing s with
  | _ k ih =>
    subst hk
    cases hcut : firstCut gear s.buffer with
    | some n =>
      have hfound := findSteps_of_some hs hcut
      have hrest := ih _ (length_drop_lt gear hcut)
        (Streamer.ok_fresh (s.buffer.drop n)) rfl
      have hpaid := paid_fresh (s.buffer.drop n)
      have hprice : price (s.buffer.take n) = n - minChunkSize := by
        have hbounds := firstCut_bounds gear hcut
        rw [price, List.length_take]
        omega
      rw [feedLoopSteps_of_some hs hcut, feedLoop_of_some hs hcut]
      dsimp only
      rw [List.map_cons, List.sum_cons, hprice]
      omega
    | none =>
      by_cases hne : s.buffer = []
      · rw [feedLoopSteps_nil hne, feedLoop_nil hne]
        rfl
      · have hpaid := findSteps_of_none hs hcut
        rw [feedLoopSteps_of_none hs hcut hne]
        cases isEof with
        | true =>
          rw [feedLoop_of_none_true hs hcut hne, hpaid, List.map_singleton, List.sum_singleton,
            paid_fresh, Nat.add_zero]
        | false =>
          have hfind := ((find_spec hs false).2 hcut).1
          have hscanned := scanned_of_none hs hcut
          rw [feedLoop, dif_neg hne, hpaid, ← hscanned]
          dsimp only
          rw [dif_pos (by rw [hfind]; rfl), List.map_nil, List.sum_nil, Nat.zero_add,
            Streamer.paid]

/-! ### All calls -/

/-- The last call leaves nothing that was paid for. -/
theorem paid_feedLoop_true {s : Streamer} (hs : s.Ok gear) :
    (feedLoop gear true s).2.paid = 0 := by
  generalize hk : s.buffer.length = k
  induction k using Nat.strong_induction_on generalizing s with
  | _ k ih =>
    subst hk
    cases hcut : firstCut gear s.buffer with
    | some n =>
      rw [feedLoop_of_some hs hcut]
      exact ih _ (length_drop_lt gear hcut) (Streamer.ok_fresh (s.buffer.drop n)) rfl
    | none =>
      by_cases hne : s.buffer = []
      · have hscanned := hs.scanned
        rw [hne, List.length_nil] at hscanned
        rw [feedLoop_nil hne, Streamer.paid]
        dsimp only
        omega
      · rw [feedLoop_of_none_true hs hcut hne]
        exact paid_fresh []

/-- **All calls** pay for the chunks that they yield. -/
theorem feedAllSteps_add_paid {s : Streamer} (hs : s.Ok gear) (pieces : List Bytes) (last : Bytes) :
    s.feedAllSteps gear pieces last + s.paid = ((s.feedAll gear pieces last).map price).sum := by
  induction pieces generalizing s with
  | nil =>
    have hcall := feedLoopSteps_eq (hs.append last) true
    rw [paid_feedLoop_true (hs.append last), Nat.add_zero] at hcall
    exact hcall
  | cons piece pieces ih =>
    have hcall : s.feedSteps gear piece false + s.paid =
        ((s.feed gear piece false).1.map price).sum + (s.feed gear piece false).2.paid :=
      feedLoopSteps_eq (hs.append piece) false
    have hrest := ih (feed_false hs piece).2.2
    show s.feedSteps gear piece false + (s.feed gear piece false).2.feedAllSteps gear pieces last +
      s.paid = (((s.feed gear piece false).1 ++
        (s.feed gear piece false).2.feedAll gear pieces last).map price).sum
    rw [List.map_append, List.sum_append]
    omega

theorem sum_price_le (chunks : List Bytes) : (chunks.map price).sum ≤ chunks.flatten.length := by
  rw [List.length_flatten]
  exact List.sum_le_sum fun chunk _ => Nat.sub_le chunk.length minChunkSize

/-- **Every byte is scanned at most once.**  However a stream is split into calls of `feed`, the
scans of all the calls take together one round for each byte of a chunk from `MIN_CHUNK_SIZE` on,
which depends on the stream alone and is at most its length. -/
theorem feedAllSteps_eq (gear : UInt8 → ℕ) (pieces : List Bytes) (last : Bytes) :
    Streamer.feedAllSteps gear {} pieces last =
        ((chunksOf gear (pieces.flatten ++ last)).map price).sum ∧
      Streamer.feedAllSteps gear {} pieces last ≤ (pieces.flatten ++ last).length := by
  have hfresh : Streamer.Ok gear {} := Streamer.ok_fresh []
  have hchunks : Streamer.feedAll gear {} pieces last = chunksOf gear (pieces.flatten ++ last) := by
    rw [Streamer.feedAll_eq hfresh, chunksOf_eq]
    rfl
  have hsteps := feedAllSteps_add_paid hfresh pieces last
  rw [hchunks, paid_fresh, Nat.add_zero] at hsteps
  refine ⟨hsteps, hsteps.trans_le ?_⟩
  have hle := sum_price_le (chunksOf gear (pieces.flatten ++ last))
  rwa [flatten_chunksOf] at hle

end

end Pipeline
end Boveda

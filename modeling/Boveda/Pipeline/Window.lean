/-
# What a cut depends on

`find_fastcdc_boundary_rolling` goes on where an earlier call has stopped, with its offset
and its fingerprint.  A chunk in progress is what `resume` makes of an empty buffer, in
any number of calls between which any bytes arrive; what `FastCDCStreamer` holds between
two calls is one (`InProgress.feed`).

However it was scanned, the fingerprint behind offset `i` is that of one scan from
`MIN_CHUNK_SIZE` to `i` (`Scanned`), and the mask looks at so few of its digits that they
are those of the last 22 or 20 bytes alone (`cutsAfter_iff`).  The same scan with a
fingerprint that is never masked goes side by side with it (`Beside`), so the mask of 64
bits decides nothing.
-/

import Boveda.Lib.Runs
import Boveda.Pipeline.Boundary

namespace Boveda
namespace Pipeline

open Lib

variable {gear : UInt8 → ℕ}

/-! ### A chunk in progress -/

/-- What happens to a chunk in progress. -/
inductive ScanEvent
  | arrive (data : Bytes)
  | call (maxOffset : ℕ) (isEof : Bool)

/-- `none` is a call that ends the chunk, or one that does not go on with the scan: with a
`max_offset` that has been passed. -/
def Arithmetic.resume (A : Arithmetic gear ℕ) (s : Streamer) : ScanEvent → Option Streamer
  | .arrive data => some { s with buffer := s.buffer ++ data }
  | .call maxOffset isEof =>
    if s.scannedOffset ≤ maxOffset then
      match A.find s.buffer s.scannedOffset maxOffset s.fingerprint isEof with
      | (0, fingerprint, newScanned) => some ⟨s.buffer, newScanned, fingerprint⟩
      | (_ + 1, _, _) => none
    else none

/-- The loop of a call comes to offset `i`, with `fingerprint` before the byte there. -/
structure Arithmetic.Looks (A : Arithmetic gear ℕ) (s : Streamer) (maxOffset i fingerprint : ℕ) :
    Prop where
  long : minChunkSize ≤ s.buffer.length
  start_le : max minChunkSize s.scannedOffset ≤ i
  lt_limit : i < min (min s.buffer.length maxOffset) maxChunkSize
  reached : Scan.scan A.next A.isBoundary (fun j => s.buffer.getD j 0)
    (i - max minChunkSize s.scannedOffset) (max minChunkSize s.scannedOffset) s.fingerprint =
      (fingerprint, none)

/-- The decision of the loop to cut after offset `i`. -/
def Arithmetic.cutsAfter (A : Arithmetic gear ℕ) (buf : Bytes) (i fingerprint : ℕ) : Bool :=
  A.isBoundary i (A.next fingerprint (buf.getD i 0))

/-- The arithmetic without the mask of 64 bits. -/
def unmasked (gear : UInt8 → ℕ) : Arithmetic gear ℕ where
  next fingerprint b := (fingerprint <<< 1) + gear b
  isBoundary := isBoundary
  value := Nat.cast
  value_next f b := by
    rw [Nat.shiftLeft_eq]
    push_cast
    rfl
  isBoundary_iff := isBoundary_iff_dvd

variable {A B : Arithmetic gear ℕ} {s t : Streamer} {maxOffset i fingerprint fp₀ : ℕ}

/-- A cut is what the call returns. -/
theorem Arithmetic.Looks.find_eq (h : A.Looks s maxOffset i fingerprint) (isEof : Bool)
    (hcut : A.cutsAfter s.buffer i fingerprint = true) :
    A.find s.buffer s.scannedOffset maxOffset s.fingerprint isEof =
      (i + 1, A.next fingerprint (s.buffer.getD i 0), i + 1) := by
  have hstart := h.start_le
  have hlimit := h.lt_limit
  obtain ⟨n, hn⟩ : ∃ n, min (min s.buffer.length maxOffset) maxChunkSize -
      max minChunkSize s.scannedOffset = i - max minChunkSize s.scannedOffset + (n + 1) :=
    ⟨min (min s.buffer.length maxOffset) maxChunkSize - i - 1, by omega⟩
  have hi : max minChunkSize s.scannedOffset + (i - max minChunkSize s.scannedOffset) = i := by
    omega
  have hscan : Scan.scan A.next A.isBoundary (fun j => s.buffer.getD j 0)
      (min (min s.buffer.length maxOffset) maxChunkSize - max minChunkSize s.scannedOffset)
      (max minChunkSize s.scannedOffset) s.fingerprint =
        (A.next fingerprint (s.buffer.getD i 0), some (i + 1)) := by
    rw [hn, Scan.scan_add _ _ h.reached, hi]
    exact if_pos hcut
  rw [A.find_of_long _ isEof h.long rfl rfl, hscan]

/-! ### One scan -/

/-- The scan is where one call would have come that began at `MIN_CHUNK_SIZE`. -/
structure Arithmetic.Scanned (A : Arithmetic gear ℕ) (fp₀ : ℕ) (s : Streamer) : Prop where
  scanned : s.scannedOffset ≤ min s.buffer.length maxChunkSize
  fingerprint : s.fingerprint = Scan.after A.next (fun j => s.buffer.getD j 0) fp₀ minChunkSize
    (max minChunkSize s.scannedOffset - minChunkSize)

/-- A call that finds no boundary: the buffer is short, or it has been scanned to the
limit. -/
theorem Arithmetic.cases_of_find_zero {buf : Bytes} {start f f' n : ℕ} {isEof : Bool}
    (h : A.find buf start maxOffset f isEof = (0, f', n)) :
    (buf.length < minChunkSize ∧ f' = f ∧ n = 0) ∨
      (minChunkSize ≤ buf.length ∧ n = min (min buf.length maxOffset) maxChunkSize ∧
        f' = Scan.after A.next (fun j => buf.getD j 0) f (max minChunkSize start)
          (n - max minChunkSize start)) := by
  have hpos := minChunkSize_pos
  have hlt := minChunkSize_lt_maxChunkSize
  rcases Nat.lt_or_ge buf.length minChunkSize with hshort | hlong
  · rw [find, if_pos hshort] at h
    obtain ⟨-, hrest⟩ := Prod.mk.inj h
    obtain ⟨hf, hn⟩ := Prod.mk.inj hrest
    exact .inl ⟨hshort, hf.symm, hn.symm⟩
  · rw [A.find_of_long f isEof hlong rfl rfl] at h
    refine .inr ⟨hlong, ?_⟩
    cases hscan : Scan.scan A.next A.isBoundary (fun i => buf.getD i 0)
        (min (min buf.length maxOffset) maxChunkSize - max minChunkSize start)
        (max minChunkSize start) f with
    | mk fp o =>
      rw [hscan] at h
      cases o with
      | some b =>
        have hbounds := Scan.scan_bounds (congrArg Prod.snd hscan)
        have hzero : b = 0 := (Prod.mk.inj h).1
        omega
      | none =>
        have hfp := (Scan.scan_eq_none_iff.1 hscan).1
        split_ifs at h with hfull heof
        · have hzero : maxChunkSize = 0 := (Prod.mk.inj h).1
          omega
        · have hzero : buf.length = 0 := (Prod.mk.inj h).1
          omega
        · obtain ⟨-, hrest⟩ := Prod.mk.inj h
          obtain ⟨rfl, rfl⟩ := Prod.mk.inj hrest
          exact ⟨rfl, hfp⟩

/-- **One step** keeps the scan where one call would have come. -/
theorem Arithmetic.Scanned.step (h : A.Scanned fp₀ s) {e : ScanEvent} (hs : A.resume s e = some t) :
    A.Scanned fp₀ t := by
  have hscanned := h.scanned
  have hfp := h.fingerprint
  cases e with
  | arrive data =>
    obtain rfl := Option.some.inj hs
    refine ⟨?_, hfp.trans ?_⟩
    · simp only [List.length_append]
      omega
    · -- the bytes that have arrived lie behind the ones that have been scanned
      refine Scan.after_congr fun j hj hlt => ?_
      rw [List.getD_eq_getElem?_getD, List.getD_eq_getElem?_getD,
        List.getElem?_append_left (by omega)]
  | call maxOffset isEof =>
    rw [resume] at hs
    split_ifs at hs with hpassed
    cases hfind : A.find s.buffer s.scannedOffset maxOffset s.fingerprint isEof with
    | mk boundary rest =>
      obtain ⟨f', n⟩ := rest
      rw [hfind] at hs
      cases boundary with
      | succ b => cases hs
      | zero =>
        obtain rfl := Option.some.inj hs
        rcases A.cases_of_find_zero hfind with ⟨hshort, rfl, rfl⟩ | ⟨hlong, hn, hf'⟩
        · have hnothing : max minChunkSize s.scannedOffset = max minChunkSize 0 := by omega
          rw [hnothing] at hfp
          exact ⟨Nat.zero_le _, hfp⟩
        · refine ⟨show n ≤ min s.buffer.length maxChunkSize by omega, ?_⟩
          have hcount : max minChunkSize n - minChunkSize =
              (max minChunkSize s.scannedOffset - minChunkSize) +
                (n - max minChunkSize s.scannedOffset) := by omega
          have hstart : minChunkSize + (max minChunkSize s.scannedOffset - minChunkSize) =
              max minChunkSize s.scannedOffset := by omega
          show f' = Scan.after A.next (fun j => s.buffer.getD j 0) fp₀ minChunkSize
            (max minChunkSize n - minChunkSize)
          rw [hf', hcount, Scan.after_add, hstart, ← hfp]

/-- **A whole run** keeps it. -/
theorem Arithmetic.scanned_of_exec {events : List ScanEvent}
    (h : exec A.resume ⟨[], 0, fp₀⟩ events = some s) : A.Scanned fp₀ s := by
  refine (reachable_of_exec h).invariant ⟨Nat.zero_le _, ?_⟩ fun _ _ _ hs _ ht => hs.step ht
  rw [max_eq_left (Nat.zero_le _), Nat.sub_self]
  rfl

/-! ### The streamer -/

/-- Some calls and arrivals make this state. -/
def InProgress (gear : UInt8 → ℕ) (s : Streamer) : Prop :=
  ∃ events, exec (uint64 gear).resume ⟨[], 0, 0⟩ events = some s

theorem InProgress.step (h : InProgress gear s) {e : ScanEvent}
    (ht : (uint64 gear).resume s e = some t) : InProgress gear t := by
  obtain ⟨events, hs⟩ := h
  refine ⟨events ++ [e], ?_⟩
  rw [exec_append hs, exec, ht]
  rfl

/-- What is left behind a cut is a chunk in progress, not yet scanned. -/
theorem inProgress_fresh (buffer : Bytes) : InProgress gear { buffer } :=
  ⟨[.arrive buffer], rfl⟩

/-- **The loop of `feed`** makes calls that go on with the scan, until the chunk is cut. -/
theorem InProgress.feedLoop (h : InProgress gear s) (isEof : Bool) :
    InProgress gear (feedLoop gear isEof s).2 := by
  induction s using feedLoop.induct gear isEof with
  | case1 s hnil =>
    rw [feedLoop_nil hnil]
    exact h
  | case2 s hne fingerprint newScanned hfind =>
    obtain ⟨events, hs⟩ := h
    have hpassed : s.scannedOffset ≤ s.buffer.length :=
      (Arithmetic.scanned_of_exec hs).scanned.trans (min_le_left _ _)
    have hcall : (uint64 gear).resume s (.call s.buffer.length isEof) =
        some ⟨s.buffer, newScanned, fingerprint⟩ := by
      rw [Arithmetic.resume, if_pos hpassed, find_uint64, hfind]
    rw [Pipeline.feedLoop, dif_neg hne, hfind]
    simp only [dite_true]
    exact InProgress.step ⟨events, hs⟩ hcall
  | case3 s hne boundary fingerprint newScanned hfind hcut s' hshort =>
    rw [Pipeline.feedLoop, dif_neg hne, hfind]
    simp only [hcut, dite_false]
    rw [if_pos hshort]
    exact inProgress_fresh _
  | case4 s hne boundary fingerprint newScanned hfind hcut s' hshort chunks s'' hrest ih =>
    rw [Pipeline.feedLoop, dif_neg hne, hfind]
    simp only [hcut, dite_false]
    rw [if_neg hshort]
    exact ih (inProgress_fresh _)

/-- **A streamer holds a chunk in progress**, whatever it is fed. -/
theorem InProgress.feed (h : InProgress gear s) (data : Bytes) (isEof : Bool) :
    InProgress gear (s.feed gear data isEof).2 :=
  InProgress.feedLoop (h.step (e := .arrive data) rfl) isEof

/-! ### The window -/

/-- The `n` bytes that end at offset `i`. -/
def lastBytes (n : ℕ) (buf : Bytes) (i : ℕ) : Bytes := (buf.drop (i + 1 - n)).take n

/-- Bytes that make a number that ends in `n` zeros. -/
def EndsInZeros (gear : UInt8 → ℕ) (n : ℕ) (bytes : Bytes) : Prop :=
  (2 : ℤ) ^ n ∣ shiftedIn gear 0 bytes

/-- The fingerprint of the decision is the one of all bytes from `MIN_CHUNK_SIZE` on. -/
theorem Arithmetic.Looks.next_eq (h : A.Looks s maxOffset i fingerprint) (hs : A.Scanned fp₀ s) :
    A.next fingerprint (s.buffer.getD i 0) =
      Scan.after A.next (fun j => s.buffer.getD j 0) fp₀ minChunkSize (i + 1 - minChunkSize) := by
  have hstart := h.start_le
  have hfp := (Scan.scan_eq_none_iff.1 h.reached).1
  have hcount : i + 1 - minChunkSize = (max minChunkSize s.scannedOffset - minChunkSize) +
      (i - max minChunkSize s.scannedOffset) + 1 := by omega
  have hresume : minChunkSize + (max minChunkSize s.scannedOffset - minChunkSize) =
      max minChunkSize s.scannedOffset := by omega
  have hi : minChunkSize + ((max minChunkSize s.scannedOffset - minChunkSize) +
      (i - max minChunkSize s.scannedOffset)) = i := by omega
  rw [hcount, Scan.after, hi, Scan.after_add, hresume, ← hs.fingerprint, ← hfp]

/-- **The decision sees a window.**  Behind as many bytes of the scan as the mask has ones,
nothing else matters. -/
theorem Arithmetic.Looks.cutsAfter_iff (h : A.Looks s maxOffset i fingerprint)
    (hs : A.Scanned fp₀ s) (hwindow : minChunkSize + maskBits i ≤ i + 1) :
    A.cutsAfter s.buffer i fingerprint = true ↔
      EndsInZeros gear (maskBits i) (lastBytes (maskBits i) s.buffer i) := by
  have hlimit := h.lt_limit
  have hsplit : (s.buffer.drop minChunkSize).take (i + 1 - minChunkSize) =
      (s.buffer.drop minChunkSize).take (i + 1 - maskBits i - minChunkSize) ++
        lastBytes (maskBits i) s.buffer i := by
    have hcount : i + 1 - minChunkSize = (i + 1 - maskBits i - minChunkSize) + maskBits i := by
      omega
    have hdrop : minChunkSize + (i + 1 - maskBits i - minChunkSize) = i + 1 - maskBits i := by
      omega
    rw [hcount, List.take_add, List.drop_drop, hdrop, lastBytes]
  have hlength : maskBits i ≤ (lastBytes (maskBits i) s.buffer i).length := by
    rw [lastBytes, List.length_take, List.length_drop]
    omega
  rw [cutsAfter, h.next_eq hs, A.isBoundary_after _ (by omega), hsplit,
    pow_dvd_rolled_append_iff _ hlength]
  rfl

/-! ### Without the mask of 64 bits -/

/-- Two scans that stand at one place, with fingerprints that agree modulo `2 ^ 64`. -/
structure Beside (A B : Arithmetic gear ℕ) (s t : Streamer) : Prop where
  buffer : s.buffer = t.buffer
  scannedOffset : s.scannedOffset = t.scannedOffset
  value : A.value s.fingerprint ≡ B.value t.fingerprint [ZMOD 2 ^ 64]

/-- **One step** of both. -/
theorem Beside.resume (h : Beside A B s t) (e : ScanEvent) :
    Option.Rel (Beside A B) (A.resume s e) (B.resume t e) := by
  obtain ⟨buffer, scannedOffset, f⟩ := s
  obtain ⟨buffer', scannedOffset', g⟩ := t
  obtain ⟨rfl, rfl, hvalue⟩ := h
  cases e with
  | arrive data => exact .some ⟨rfl, rfl, hvalue⟩
  | call maxOffset isEof =>
    rw [Arithmetic.resume, Arithmetic.resume]
    split_ifs with hpassed
    · obtain ⟨hboundary, hvalue', hscanned⟩ :=
        A.find_rel B hvalue buffer scannedOffset maxOffset isEof
      dsimp only at hboundary hvalue' hscanned ⊢
      generalize A.find buffer scannedOffset maxOffset f isEof = r at *
      generalize B.find buffer scannedOffset maxOffset g isEof = r' at *
      obtain ⟨boundary, f', n⟩ := r
      obtain ⟨boundary', g', n'⟩ := r'
      obtain rfl : boundary = boundary' := hboundary
      cases boundary with
      | zero => exact .some ⟨rfl, hscanned, hvalue'⟩
      | succ b => exact .none
    · exact .none

/-- The loop of a call comes to the same offsets, and decides the same there. -/
theorem Beside.looks (h : Beside A B s t) (hi : A.Looks s maxOffset i fingerprint) :
    ∃ fingerprint', B.Looks t maxOffset i fingerprint' ∧
      B.cutsAfter t.buffer i fingerprint' = A.cutsAfter s.buffer i fingerprint := by
  obtain ⟨buffer, scannedOffset, f⟩ := s
  obtain ⟨buffer', scannedOffset', g⟩ := t
  obtain ⟨rfl, rfl, hvalue⟩ := h
  obtain ⟨hvalue', hfound⟩ := A.scan_rel B hvalue (fun j => buffer.getD j 0)
    (i - max minChunkSize scannedOffset) (max minChunkSize scannedOffset)
  rw [hi.reached] at hvalue' hfound
  refine ⟨_, ⟨hi.long, hi.start_le, hi.lt_limit, Prod.ext rfl hfound.symm⟩, ?_⟩
  exact (A.isBoundary_eq B i (A.next_rel B _ hvalue')).symm

/-- **Cut points are defined by content.**  However a chunk in progress was scanned, and
with whatever fingerprint the scan began, the decision to cut after an offset depends on
22 or 20 bytes alone; and with a fingerprint that is never masked the same events lead to
the same offset and the same decision. -/
theorem cut_depends_on_window (fp₀ : ℕ) (events : List ScanEvent) {s : Streamer}
    (hs : exec (uint64 gear).resume ⟨[], 0, fp₀⟩ events = some s) {maxOffset i fingerprint : ℕ}
    (hi : (uint64 gear).Looks s maxOffset i fingerprint) :
    (minChunkSize + 21 ≤ i → i < avgChunkSize →
        ((uint64 gear).cutsAfter s.buffer i fingerprint = true ↔
          EndsInZeros gear 22 (lastBytes 22 s.buffer i))) ∧
      (avgChunkSize ≤ i →
        ((uint64 gear).cutsAfter s.buffer i fingerprint = true ↔
          EndsInZeros gear 20 (lastBytes 20 s.buffer i))) ∧
      ∃ t fingerprint', exec (unmasked gear).resume ⟨[], 0, fp₀⟩ events = some t ∧
        t.buffer = s.buffer ∧ (unmasked gear).Looks t maxOffset i fingerprint' ∧
        (unmasked gear).cutsAfter t.buffer i fingerprint' =
          (uint64 gear).cutsAfter s.buffer i fingerprint := by
  have hscanned := Arithmetic.scanned_of_exec hs
  refine ⟨fun hmin havg => ?_, fun havg => ?_, ?_⟩
  · have hbits : maskBits i = 22 := if_pos havg
    have hcuts := hi.cutsAfter_iff hscanned (by omega)
    rwa [hbits] at hcuts
  · have hbits : maskBits i = 20 := if_neg (Nat.not_lt.2 havg)
    have hmin := minChunkSize_add_lt_avgChunkSize
    have hcuts := hi.cutsAfter_iff hscanned (by omega)
    rwa [hbits] at hcuts
  · have hbeside := exec_rel (R := Beside (uint64 gear) (unmasked gear))
      (fun _ _ e h => h.resume e) (t := ⟨[], 0, fp₀⟩) ⟨rfl, rfl, rfl⟩ events
    rw [hs] at hbeside
    cases ht : exec (unmasked gear).resume ⟨[], 0, fp₀⟩ events with
    | none =>
      rw [ht] at hbeside
      cases hbeside
    | some t =>
      rw [ht] at hbeside
      cases hbeside with
      | some h =>
        obtain ⟨fingerprint', hlooks, hcuts⟩ := h.looks hi
        exact ⟨t, fingerprint', rfl, h.buffer.symm, hlooks, hcuts⟩

/-- A table of ones: the fingerprint is odd, and the scan goes through. -/
theorem looks_ones {i : ℕ} (hmin : minChunkSize ≤ i) (havg : i ≤ avgChunkSize) :
    ∃ fingerprint, (uint64 fun _ => 1).Looks ⟨List.replicate (avgChunkSize + 1) 0, 0, 0⟩
      (avgChunkSize + 1) i fingerprint := by
  have hodd : ∀ j fp b, isBoundary j (roll (fun _ => 1) fp b) = false := by
    intro j fp b
    rw [Bool.eq_false_iff, Ne, isBoundary_iff_dvd]
    intro hdvd
    have htwo : (2 : ℤ) ∣ 2 ^ maskBits j := by
      refine dvd_pow_self 2 ?_
      unfold maskBits
      split_ifs <;> omega
    have heven := htwo.trans hdvd
    rw [roll_eq] at heven
    omega
  have hmax := avgChunkSize_lt_maxChunkSize
  have hlen : (List.replicate (avgChunkSize + 1) (0 : UInt8)).length = avgChunkSize + 1 :=
    List.length_replicate
  refine ⟨_, ⟨?_, ?_, ?_, Scan.scan_eq_none_iff.2 ⟨rfl, fun k _ => hodd _ _
    ((List.replicate (avgChunkSize + 1) 0).getD (max minChunkSize 0 + k) 0)⟩⟩⟩
  · show minChunkSize ≤ (List.replicate (avgChunkSize + 1) (0 : UInt8)).length
    omega
  · show max minChunkSize 0 ≤ i
    omega
  · show i < min (min (List.replicate (avgChunkSize + 1) (0 : UInt8)).length (avgChunkSize + 1))
      maxChunkSize
    omega

/-- The first offset with a whole window in front of it, and the first of the others. -/
theorem cut_depends_on_window_ones : ∃ fingerprint fingerprint' : ℕ,
    ((uint64 fun _ => 1).cutsAfter (List.replicate (avgChunkSize + 1) 0) (minChunkSize + 21)
        fingerprint = true ↔ EndsInZeros (fun _ => 1) 22
          (lastBytes 22 (List.replicate (avgChunkSize + 1) 0) (minChunkSize + 21))) ∧
      ((uint64 fun _ => 1).cutsAfter (List.replicate (avgChunkSize + 1) 0) avgChunkSize
        fingerprint' = true ↔ EndsInZeros (fun _ => 1) 20
          (lastBytes 20 (List.replicate (avgChunkSize + 1) 0) avgChunkSize)) := by
  have hlt : minChunkSize + 21 < avgChunkSize := by
    have := minChunkSize_add_lt_avgChunkSize
    omega
  have hrun : exec (uint64 fun _ => 1).resume ⟨[], 0, 0⟩
      [.arrive (List.replicate (avgChunkSize + 1) 0)] =
        some ⟨List.replicate (avgChunkSize + 1) 0, 0, 0⟩ := rfl
  obtain ⟨fingerprint, hearly⟩ := looks_ones (Nat.le_add_right minChunkSize 21) hlt.le
  obtain ⟨fingerprint', hlate⟩ := looks_ones (i := avgChunkSize) (by omega) le_rfl
  exact ⟨fingerprint, fingerprint', (cut_depends_on_window 0 _ hrun hearly).1 le_rfl hlt,
    (cut_depends_on_window 0 _ hrun hlate).2.1 le_rfl⟩

end Pipeline
end Boveda

/-
# What one call may return

`find_fastcdc_boundary_rolling` and `find_fastcdc_boundary` of `src/boveda/fastcdc.py`,
called with any buffer, offsets and fingerprint.  A fingerprint is masked to 64 bits only
when the first byte is added, so the one that a caller hands in may be any integer of
Python, also a negative one: `Arithmetic` is the arithmetic of the loop over a type of
fingerprints, `uint64` the one of `findFastcdcBoundaryRolling` and `integers` the one over
all integers.

The boundary is within the bounds of a chunk, except that the last `return` before the
end, which the source comments as the one for what is left between `MIN_CHUNK_SIZE` and
`MAX_CHUNK_SIZE`, looks at neither bound: with a `max_offset` below `MAX_CHUNK_SIZE` it
returns a buffer of any length whole (`allowed_iff`).  `FastCDCStreamer` hands in the
length of its buffer and does not come there (`Arithmetic.allowed_find_length`).
-/

import Boveda.Lib.Rolling
import Boveda.Lib.Scan
import Boveda.Pipeline.FastCDC

namespace Boveda
namespace Pipeline

open Lib

/-! ### The arithmetic of the loop -/

/-- How many of the last digits the mask at offset `i` looks at. -/
def maskBits (i : ℕ) : ℕ := if i < avgChunkSize then 22 else 20

/-- Fingerprints, the step of the loop and its test: modulo `2 ^ 64` a step is the shift
and the addition of the source, and the test is for as many zeros as the mask has ones. -/
structure Arithmetic (gear : UInt8 → ℕ) (F : Type) where
  next : F → UInt8 → F
  isBoundary : ℕ → F → Bool
  value : F → ℤ
  value_next : ∀ f b, value (next f b) ≡ value f * 2 + gear b [ZMOD 2 ^ 64]
  isBoundary_iff : ∀ i f, isBoundary i f = true ↔ (2 : ℤ) ^ maskBits i ∣ value f

variable {gear : UInt8 → ℕ} {F : Type}

/-- `find_fastcdc_boundary_rolling` over an arithmetic. -/
def Arithmetic.find (A : Arithmetic gear F) (buf : Bytes) (startOffset maxOffset : ℕ)
    (fingerprint : F) (isEof : Bool) : ℕ × F × ℕ :=
  if buf.length < minChunkSize then (if isEof then buf.length else 0, fingerprint, 0)
  else
    let scanLimit := min (min buf.length maxOffset) maxChunkSize
    let startScan := max minChunkSize startOffset
    match Scan.scan A.next A.isBoundary (fun i => buf.getD i 0) (scanLimit - startScan) startScan
        fingerprint with
    | (fingerprint, some b) => (b, fingerprint, b)
    | (fingerprint, none) =>
      if maxChunkSize ≤ scanLimit then (maxChunkSize, fingerprint, maxChunkSize)
      else if isEof ∧ 0 < buf.length then (buf.length, fingerprint, buf.length)
      else (0, fingerprint, scanLimit)

theorem two_pow_maskBits_dvd (i : ℕ) : (2 : ℤ) ^ maskBits i ∣ 2 ^ 64 := by
  refine pow_dvd_pow 2 ?_
  unfold maskBits
  split_ifs <;> omega

/-- The test of the source, read as divisibility. -/
theorem isBoundary_iff_dvd (i fingerprint : ℕ) :
    isBoundary i fingerprint = true ↔ (2 : ℤ) ^ maskBits i ∣ fingerprint := by
  have hmask (n : ℕ) : fingerprint &&& (2 ^ n - 1) = 0 ↔ (2 : ℤ) ^ n ∣ fingerprint := by
    rw [Nat.and_two_pow_sub_one_eq_mod, ← Nat.dvd_iff_mod_eq_zero]
    exact_mod_cast Iff.rfl
  unfold isBoundary maskBits
  split_ifs
  · rw [beq_iff_eq]
    exact hmask 22
  · rw [beq_iff_eq]
    exact hmask 20

/-- The step of the source, read as a remainder. -/
theorem roll_eq (fingerprint : ℕ) (b : UInt8) :
    roll gear fingerprint b = (fingerprint * 2 + gear b) % 2 ^ 64 := by
  rw [roll, Nat.shiftLeft_eq]
  exact Nat.and_two_pow_sub_one_eq_mod _ 64

/-- The arithmetic of `roll`. -/
def uint64 (gear : UInt8 → ℕ) : Arithmetic gear ℕ where
  next := roll gear
  isBoundary := isBoundary
  value := Nat.cast
  value_next f b := by
    rw [roll_eq]
    push_cast
    exact Int.mod_modEq ..
  isBoundary_iff := isBoundary_iff_dvd

/-- The same over the integers of Python, whose `&` goes by two's complement. -/
def integers (gear : UInt8 → ℕ) : Arithmetic gear ℤ where
  next fingerprint b := Int.land ((fingerprint <<< 1) + gear b) 0xFFFFFFFFFFFFFFFF
  isBoundary i fingerprint :=
    if i < avgChunkSize then Int.land fingerprint maskStrict == 0
    else Int.land fingerprint maskLax == 0
  value := id
  value_next f b := by
    have hshift : f <<< (1 : ℤ) = f * 2 := by
      rw [← Nat.cast_one, Int.shiftLeft_eq_mul_pow, pow_one, Nat.cast_two]
    have hland : Int.land ((f <<< 1) + gear b) 0xFFFFFFFFFFFFFFFF = (f * 2 + gear b) % 2 ^ 64 := by
      rw [hshift]
      exact land_two_pow_sub_one _ 64
    exact hland ▸ Int.mod_modEq ..
  isBoundary_iff i f := by
    have hmask (n : ℕ) : Int.land f (2 ^ n - 1) = 0 ↔ (2 : ℤ) ^ n ∣ f := by
      rw [land_two_pow_sub_one, Int.dvd_iff_emod_eq_zero]
    unfold maskBits
    split_ifs
    · rw [beq_iff_eq]
      exact hmask 22
    · rw [beq_iff_eq]
      exact hmask 20

theorem libScan_eq_scan (buf : Bytes) (count i fp : ℕ) :
    Scan.scan (roll gear) isBoundary (fun i => buf.getD i 0) count i fp =
      scan gear buf count i fp := by
  induction count generalizing i fp with
  | zero => rfl
  | succ count ih => rw [Scan.scan, scan, ih]

/-- Over natural numbers the general function is `findFastcdcBoundaryRolling`. -/
theorem find_uint64 (buf : Bytes) (startOffset maxOffset fingerprint : ℕ) (isEof : Bool) :
    (uint64 gear).find buf startOffset maxOffset fingerprint isEof =
      findFastcdcBoundaryRolling gear buf startOffset maxOffset fingerprint isEof := by
  unfold Arithmetic.find findFastcdcBoundaryRolling
  simp only [uint64, libScan_eq_scan]
  by_cases hshort : buf.length < minChunkSize
  · rw [if_pos hshort, if_pos hshort]
  · rw [if_neg hshort, if_neg hshort]
    generalize scan gear buf _ _ fingerprint = r
    obtain ⟨fp, _ | b⟩ := r
    · rfl
    · rfl

/-! ### Two arithmetics side by side -/

variable (A : Arithmetic gear F)

/-- The mask of the test does not show what is left of 64 digits. -/
theorem Arithmetic.isBoundary_eq {G : Type} (B : Arithmetic gear G) {f : F} {g : G} (i : ℕ)
    (h : A.value f ≡ B.value g [ZMOD 2 ^ 64]) : A.isBoundary i f = B.isBoundary i g := by
  rw [Bool.eq_iff_iff, A.isBoundary_iff, B.isBoundary_iff]
  exact (h.of_dvd (two_pow_maskBits_dvd i)).dvd_iff

theorem Arithmetic.next_rel {G : Type} (B : Arithmetic gear G) {f : F} {g : G} (b : UInt8)
    (h : A.value f ≡ B.value g [ZMOD 2 ^ 64]) :
    A.value (A.next f b) ≡ B.value (B.next g b) [ZMOD 2 ^ 64] :=
  (A.value_next f b).trans (((h.mul_right 2).add_right _).trans (B.value_next g b).symm)

/-- The loop and its two results. -/
theorem Arithmetic.scan_rel {G : Type} (B : Arithmetic gear G) {f : F} {g : G}
    (h : A.value f ≡ B.value g [ZMOD 2 ^ 64]) (elem : ℕ → UInt8) (count i : ℕ) :
    A.value (Scan.scan A.next A.isBoundary elem count i f).1 ≡
        B.value (Scan.scan B.next B.isBoundary elem count i g).1 [ZMOD 2 ^ 64] ∧
      (Scan.scan A.next A.isBoundary elem count i f).2 =
        (Scan.scan B.next B.isBoundary elem count i g).2 :=
  Scan.scan_rel (R := fun f g => A.value f ≡ B.value g [ZMOD 2 ^ 64]) h
    (fun _ _ b hfg => A.next_rel B b hfg) (fun i _ _ hfg => A.isBoundary_eq B i hfg) count i

/-- A call on a buffer that is not short. -/
theorem Arithmetic.find_of_long {buf : Bytes} {startOffset maxOffset start limit : ℕ} (f : F)
    (isEof : Bool) (hlong : minChunkSize ≤ buf.length)
    (hstart : start = max minChunkSize startOffset)
    (hlimit : limit = min (min buf.length maxOffset) maxChunkSize) :
    A.find buf startOffset maxOffset f isEof =
      match Scan.scan A.next A.isBoundary (fun i => buf.getD i 0) (limit - start) start f with
      | (fingerprint, some b) => (b, fingerprint, b)
      | (fingerprint, none) =>
        if maxChunkSize ≤ limit then (maxChunkSize, fingerprint, maxChunkSize)
        else if isEof ∧ 0 < buf.length then (buf.length, fingerprint, buf.length)
        else (0, fingerprint, limit) := by
  rw [hstart, hlimit]
  exact if_neg (Nat.not_lt.2 hlong)

/-- One call. -/
theorem Arithmetic.find_rel {G : Type} (B : Arithmetic gear G) {f : F} {g : G}
    (h : A.value f ≡ B.value g [ZMOD 2 ^ 64]) (buf : Bytes) (startOffset maxOffset : ℕ)
    (isEof : Bool) :
    (A.find buf startOffset maxOffset f isEof).1 = (B.find buf startOffset maxOffset g isEof).1 ∧
      A.value (A.find buf startOffset maxOffset f isEof).2.1 ≡
        B.value (B.find buf startOffset maxOffset g isEof).2.1 [ZMOD 2 ^ 64] ∧
      (A.find buf startOffset maxOffset f isEof).2.2 =
        (B.find buf startOffset maxOffset g isEof).2.2 := by
  rcases Nat.lt_or_ge buf.length minChunkSize with hshort | hlong
  · rw [find, find, if_pos hshort, if_pos hshort]
    exact ⟨rfl, h, rfl⟩
  · rw [A.find_of_long f isEof hlong rfl rfl, B.find_of_long g isEof hlong rfl rfl]
    obtain ⟨hvalue, hfound⟩ := A.scan_rel B h (fun i => buf.getD i 0)
      (min (min buf.length maxOffset) maxChunkSize - max minChunkSize startOffset)
      (max minChunkSize startOffset)
    generalize Scan.scan A.next A.isBoundary (fun i => buf.getD i 0) _ _ f = r at hvalue hfound ⊢
    generalize Scan.scan B.next B.isBoundary (fun i => buf.getD i 0) _ _ g = r' at hvalue hfound ⊢
    obtain ⟨f', o⟩ := r
    obtain ⟨g', o'⟩ := r'
    obtain rfl : o = o' := hfound
    cases o with
    | some b => exact ⟨rfl, hvalue, rfl⟩
    | none =>
      split_ifs
      · exact ⟨rfl, hvalue, rfl⟩
      · exact ⟨rfl, hvalue, rfl⟩
      · exact ⟨rfl, hvalue, rfl⟩

/-- A fingerprint of any size is as good as its last 64 binary digits. -/
theorem find_integers (buf : Bytes) (startOffset maxOffset : ℕ) (fingerprint : ℤ) (isEof : Bool) :
    ((integers gear).find buf startOffset maxOffset fingerprint isEof).1 =
      (findFastcdcBoundaryRolling gear buf startOffset maxOffset
        (fingerprint % 2 ^ 64).toNat isEof).1 := by
  have hmod : ((fingerprint % 2 ^ 64).toNat : ℤ) = fingerprint % 2 ^ 64 :=
    Int.toNat_of_nonneg (Int.emod_nonneg _ (by decide))
  have hvalue : (integers gear).value fingerprint ≡
      (uint64 gear).value (fingerprint % 2 ^ 64).toNat [ZMOD 2 ^ 64] := by
    show fingerprint ≡ ((fingerprint % 2 ^ 64).toNat : ℤ) [ZMOD 2 ^ 64]
    rw [hmod]
    exact (Int.mod_modEq ..).symm
  rw [← find_uint64]
  exact ((integers gear).find_rel (uint64 gear) hvalue buf startOffset maxOffset isEof).1

/-! ### Where the loop stops -/

/-- The bytes shifted into a fingerprint, all digits kept. -/
abbrev shiftedIn (gear : UInt8 → ℕ) (fingerprint : ℤ) (bytes : Bytes) : ℤ :=
  rolled 2 (fun b => (gear b : ℤ)) fingerprint bytes

/-- There is a hit between two offsets, for a scan that begins at the first of them with
`fingerprint`: an offset where the bytes so far, shifted into the fingerprint, make a
number that ends in the zeros of the mask. -/
def HasHit (gear : UInt8 → ℕ) (buf : Bytes) (start limit : ℕ) (fingerprint : ℤ) : Prop :=
  ∃ i, start ≤ i ∧ i < limit ∧
    (2 : ℤ) ^ maskBits i ∣ shiftedIn gear fingerprint ((buf.drop start).take (i + 1 - start))

/-- **What the loop computes**, modulo `2 ^ 64`: the bytes shifted into the fingerprint
that it began with. -/
theorem Arithmetic.value_after {buf : Bytes} {start count : ℕ} (f : F)
    (h : start + count ≤ buf.length) :
    A.value (Scan.after A.next (fun i => buf.getD i 0) f start count) ≡
      shiftedIn gear (A.value f) ((buf.drop start).take count) [ZMOD 2 ^ 64] := by
  have hfold : Scan.after (fun z b => z * 2 + (gear b : ℤ)) (fun i => buf.getD i 0) (A.value f)
      start count = shiftedIn gear (A.value f) ((buf.drop start).take count) := Scan.after_getD h
  rw [← hfold]
  refine Scan.after_rel (R := fun f z => A.value f ≡ z [ZMOD 2 ^ 64]) rfl ?_ count
  intro f z b hfz
  exact (A.value_next f b).trans ((hfz.mul_right 2).add_right _)

/-- The test of the loop at an offset. -/
theorem Arithmetic.isBoundary_after {buf : Bytes} {start count i : ℕ} (f : F)
    (h : start + count ≤ buf.length) :
    A.isBoundary i (Scan.after A.next (fun i => buf.getD i 0) f start count) = true ↔
      (2 : ℤ) ^ maskBits i ∣ shiftedIn gear (A.value f) ((buf.drop start).take count) := by
  rw [A.isBoundary_iff]
  exact ((A.value_after f h).of_dvd (two_pow_maskBits_dvd i)).dvd_iff

/-- The loop finds a boundary exactly if there is a hit. -/
theorem Arithmetic.scan_eq_none_iff {buf : Bytes} {limit : ℕ} (start : ℕ) (f : F)
    (h : limit ≤ buf.length) :
    (Scan.scan A.next A.isBoundary (fun i => buf.getD i 0) (limit - start) start f).2 = none ↔
      ¬ HasHit gear buf start limit (A.value f) := by
  have htest : ∀ k < limit - start, (A.isBoundary (start + k)
      (Scan.after A.next (fun i => buf.getD i 0) f start (k + 1)) = false ↔
        ¬ (2 : ℤ) ^ maskBits (start + k) ∣
          shiftedIn gear (A.value f) ((buf.drop start).take (k + 1))) := by
    intro k hk
    rw [← A.isBoundary_after f (by omega), Bool.not_eq_true]
  rw [Scan.scan_snd_eq_none_iff]
  constructor
  · rintro hnone ⟨i, hstart, hlimit, hhit⟩
    obtain ⟨k, rfl⟩ := Nat.exists_eq_add_of_le hstart
    have hk : start + k + 1 - start = k + 1 := by omega
    rw [hk] at hhit
    exact (htest k (by omega)).1 (hnone k (by omega)) hhit
  · intro hno k hk
    refine (htest k hk).2 fun hhit => hno ⟨start + k, by omega, by omega, ?_⟩
    have hk' : start + k + 1 - start = k + 1 := by omega
    rwa [hk']

/-! ### What is returned -/

/-- What a boundary of a buffer may be. -/
def Allowed (buf : Bytes) (isEof : Bool) (b : ℕ) : Prop :=
  b = 0 ∨ (1 ≤ b ∧ b ≤ min buf.length maxChunkSize ∧ (isEof = false → minChunkSize ≤ b))

/-- What a call on a buffer that is not short returns as boundary. -/
theorem Arithmetic.find_cases {buf : Bytes} (startOffset maxOffset : ℕ) {start limit : ℕ} (f : F)
    (isEof : Bool) (hlong : minChunkSize ≤ buf.length)
    (hstart : start = max minChunkSize startOffset)
    (hlimit : limit = min (min buf.length maxOffset) maxChunkSize) :
    (HasHit gear buf start limit (A.value f) ∧
        start < (A.find buf startOffset maxOffset f isEof).1 ∧
        (A.find buf startOffset maxOffset f isEof).1 ≤ limit) ∨
      (¬ HasHit gear buf start limit (A.value f) ∧
        (A.find buf startOffset maxOffset f isEof).1 = if maxChunkSize ≤ limit then maxChunkSize
          else if isEof = true ∧ 0 < buf.length then buf.length else 0) := by
  have hnone := A.scan_eq_none_iff start f (show limit ≤ buf.length by omega)
  rw [A.find_of_long f isEof hlong hstart hlimit]
  cases hscan : Scan.scan A.next A.isBoundary (fun i => buf.getD i 0) (limit - start) start f with
  | mk fp o =>
    rw [hscan] at hnone
    cases o with
    | some b =>
      have hbounds := Scan.scan_bounds (congrArg Prod.snd hscan)
      have hhit : HasHit gear buf start limit (A.value f) := by
        by_contra hno
        exact absurd (hnone.2 hno) (Option.some_ne_none b)
      refine .inl ⟨hhit, hbounds.1, ?_⟩
      show b ≤ limit
      omega
    | none =>
      refine .inr ⟨hnone.1 rfl, ?_⟩
      split_ifs <;> rfl

/-- A short buffer is kept, or returned whole at the end. -/
theorem Arithmetic.allowed_find_of_short {buf : Bytes} (startOffset maxOffset : ℕ) (f : F)
    (isEof : Bool) (hshort : buf.length < minChunkSize) :
    Allowed buf isEof (A.find buf startOffset maxOffset f isEof).1 := by
  have hle := minChunkSize_le_maxChunkSize
  have hfind : (A.find buf startOffset maxOffset f isEof).1 =
      if isEof then buf.length else 0 := by rw [find, if_pos hshort]
  rw [hfind]
  cases isEof with
  | false => exact .inl rfl
  | true =>
    rcases Nat.eq_zero_or_pos buf.length with hzero | hone
    · exact .inl hzero
    · refine .inr ⟨hone, ?_, fun h => absurd h Bool.noConfusion⟩
      show buf.length ≤ min buf.length maxChunkSize
      omega

/-- **The boundary of one call.**  It is out of bounds exactly if the call is the last
one, on a buffer above `MAX_CHUNK_SIZE` of which it scans less, and has no hit. -/
theorem Arithmetic.allowed_find_iff (buf : Bytes) (startOffset maxOffset : ℕ) (f : F)
    (isEof : Bool) : Allowed buf isEof (A.find buf startOffset maxOffset f isEof).1 ↔
      (isEof = true → maxChunkSize < buf.length → maxOffset < maxChunkSize →
        HasHit gear buf (max minChunkSize startOffset) maxOffset (A.value f)) := by
  have hpos := minChunkSize_pos
  have hlt := minChunkSize_lt_maxChunkSize
  rcases Nat.lt_or_ge buf.length minChunkSize with hshort | hlong
  · exact iff_of_true (A.allowed_find_of_short startOffset maxOffset f isEof hshort)
      fun _ hmore => absurd hmore (by omega)
  · rcases A.find_cases startOffset maxOffset f isEof hlong rfl rfl with
      ⟨hhit, hb, hb'⟩ | ⟨hno, hb⟩
    · refine iff_of_true (.inr ⟨?_, ?_, fun _ => ?_⟩) fun _ hmore hmax => ?_
      · omega
      · omega
      · omega
      · rwa [show min (min buf.length maxOffset) maxChunkSize = maxOffset by omega] at hhit
    · rw [hb]
      unfold Allowed
      split_ifs with hfull heof
      · refine iff_of_true (.inr ⟨?_, ?_, fun _ => ?_⟩) fun _ _ hmax => ?_
        · omega
        · omega
        · omega
        · omega
      · -- the whole rest, however long
        by_cases hfits : buf.length ≤ maxChunkSize
        · refine iff_of_true (.inr ⟨heof.2, ?_, fun h => ?_⟩) fun _ hlong => ?_
          · omega
          · simp [heof.1] at h
          · omega
        · have hlimit : min (min buf.length maxOffset) maxChunkSize = maxOffset := by omega
          rw [hlimit] at hno
          refine iff_of_false ?_ fun h => hno (h heof.1 (by omega) (by omega))
          omega
      · refine iff_of_true (.inl rfl) fun heof' => ?_
        exact absurd ⟨heof', by omega⟩ heof

/-- A caller that has the whole buffer scanned gets a boundary within the bounds. -/
theorem Arithmetic.allowed_find_length (buf : Bytes) (startOffset : ℕ) (f : F) (isEof : Bool) :
    Allowed buf isEof (A.find buf startOffset buf.length f isEof).1 := by
  rw [A.allowed_find_iff]
  intro _ hlong hmax
  omega

/-- **When the two functions keep the bounds**, for every buffer, offsets and
fingerprint. -/
theorem allowed_iff (gear : UInt8 → ℕ) (buf : Bytes) (startOffset maxOffset : ℕ)
    (fingerprint : ℤ) (isEof : Bool) :
    (Allowed buf isEof ((integers gear).find buf startOffset maxOffset fingerprint isEof).1 ↔
        (isEof = true → maxChunkSize < buf.length → maxOffset < maxChunkSize →
          HasHit gear buf (max minChunkSize startOffset) maxOffset fingerprint)) ∧
      (Allowed buf isEof (findFastcdcBoundary gear buf startOffset maxOffset isEof) ↔
        (isEof = true → maxChunkSize < buf.length → maxOffset < maxChunkSize →
          HasHit gear buf (max minChunkSize startOffset) maxOffset 0)) := by
  refine ⟨(integers gear).allowed_find_iff buf startOffset maxOffset fingerprint isEof, ?_⟩
  rw [findFastcdcBoundary, ← find_uint64]
  exact (uint64 gear).allowed_find_iff buf startOffset maxOffset 0 isEof

/-- One byte above `MAX_CHUNK_SIZE`, of which the last call scans nothing: it is one
chunk, whatever the table. -/
theorem not_allowed_oneByteMore : ¬ ∃ gear : UInt8 → ℕ,
    Allowed (List.replicate (maxChunkSize + 1) 0) true
      (findFastcdcBoundary gear (List.replicate (maxChunkSize + 1) 0) 0 minChunkSize true) := by
  rintro ⟨gear, hallowed⟩
  have hlong : maxChunkSize < (List.replicate (maxChunkSize + 1) (0 : UInt8)).length := by
    rw [List.length_replicate]
    omega
  have hnone : ¬ HasHit gear (List.replicate (maxChunkSize + 1) 0) (max minChunkSize 0)
      minChunkSize 0 := by
    rintro ⟨i, hstart, hlimit, -⟩
    omega
  rw [findFastcdcBoundary, ← find_uint64, (uint64 gear).allowed_find_iff] at hallowed
  exact hnone (hallowed rfl hlong minChunkSize_lt_maxChunkSize)

end Pipeline
end Boveda

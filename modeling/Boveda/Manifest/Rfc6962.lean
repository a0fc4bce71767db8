/-
# The root and the Merkle Tree Hash of RFC 6962

`compute_merkle_root` of `src/boveda/manifest.py` has the two prefixes of RFC 6962 but
builds the tree by levels, where an odd last node is hashed with itself.  RFC 6962
splits the list at the largest power of two below its length and hashes no node twice.

The two trees are one when no level above the leaves is odd, which is when the number
of chunks is a power of two.  For every other number the roots differ, unless SHA-256
has a collision among what the two computations hash (`root_is_mth_iff`).
-/

import Boveda.Lib.SplitTree
import Boveda.Manifest.Merkle

namespace Boveda
namespace Manifest

open Lib

section

variable (sha256 : Bytes → Bytes)

/-- The Merkle Tree Hash: of no entry `SHA-256()`, of one `SHA-256(0x00 || d)`, of more
`SHA-256(0x01 || MTH(D[0:k]) || MTH(D[k:n]))`. -/
def merkleTreeHash (entries : List Bytes) : Bytes :=
  Merkle.foldSplit (sha256 []) (fun d => sha256 (0x00 :: d)) (nodeHash sha256) entries

/-- All that `sha256` is given in `MTH`. -/
def mthInputs (entries : List Bytes) : List Bytes :=
  (Merkle.foldSplit (sha256 [], [[]]) (fun d => (sha256 (0x00 :: d), [0x00 :: d]))
    (loggedNode sha256) entries).2

end

/-! ### The decoded hashes -/

section

variable {sha256 : Bytes → Bytes} {chunkHashes : List String} {raws : List Bytes}

theorem eq_cons_of_mapM {h : String} (hraws : (h :: chunkHashes).mapM bytesFromHex = some raws) :
    ∃ raw rest, bytesFromHex h = some raw ∧ chunkHashes.mapM bytesFromHex = some rest ∧
      raws = raw :: rest := by
  rw [List.mapM_cons] at hraws
  obtain ⟨raw, hraw, hraws⟩ := Option.bind_eq_some_iff.1 hraws
  obtain ⟨rest, hrest, hraws⟩ := Option.bind_eq_some_iff.1 hraws
  exact ⟨raw, rest, hraw, hrest, (Option.some.inj hraws).symm⟩

theorem eq_nil_of_mapM (hraws : ([] : List String).mapM bytesFromHex = some raws) : raws = [] :=
  (Option.some.inj hraws).symm

theorem length_of_mapM (hraws : chunkHashes.mapM bytesFromHex = some raws) :
    raws.length = chunkHashes.length := by
  induction chunkHashes generalizing raws with
  | nil => rw [eq_nil_of_mapM hraws, List.length_nil, List.length_nil]
  | cons h chunkHashes ih =>
    obtain ⟨raw, rest, -, hrest, rfl⟩ := eq_cons_of_mapM hraws
    rw [List.length_cons, ih hrest, List.length_cons]

/-- What is computed of each hash is computed of its bytes. -/
theorem filterMap_of_mapM {α : Type*} (f : Bytes → α)
    (hraws : chunkHashes.mapM bytesFromHex = some raws) :
    chunkHashes.filterMap (fun h => (bytesFromHex h).map f) = raws.map f := by
  induction chunkHashes generalizing raws with
  | nil => rw [eq_nil_of_mapM hraws]; rfl
  | cons h chunkHashes ih =>
    obtain ⟨raw, rest, hraw, hrest, rfl⟩ := eq_cons_of_mapM hraws
    simp [hraw, ih hrest]

theorem mapM_hexdigest (raws : List Bytes) :
    (raws.map hexdigest).mapM bytesFromHex = some raws := by
  induction raws with
  | nil => rfl
  | cons raw raws ih =>
    rw [List.map_cons, List.mapM_cons, bytesFromHex_hexdigest, ih]
    rfl

theorem mapM_leafHash_of_mapM (hraws : chunkHashes.mapM bytesFromHex = some raws) :
    chunkHashes.mapM (leafHash sha256) = some (raws.map fun raw => sha256 (0x00 :: raw)) := by
  induction chunkHashes generalizing raws with
  | nil => rw [eq_nil_of_mapM hraws]; rfl
  | cons h chunkHashes ih =>
    obtain ⟨raw, rest, hraw, hrest, rfl⟩ := eq_cons_of_mapM hraws
    simp [leafHash, hraw, ih hrest]

theorem eq_nil_iff_of_mapM (hraws : chunkHashes.mapM bytesFromHex = some raws) :
    chunkHashes = [] ↔ raws = [] := by
  rw [← List.length_eq_zero_iff, ← length_of_mapM hraws, List.length_eq_zero_iff]

/-- The case and the spaces of the digits do not matter. -/
theorem computeMerkleRoot_of_mapM (hraws : chunkHashes.mapM bytesFromHex = some raws) :
    computeMerkleRoot sha256 chunkHashes = computeMerkleRoot sha256 (raws.map hexdigest) := by
  have hnil : chunkHashes = [] ↔ raws.map hexdigest = [] :=
    (eq_nil_iff_of_mapM hraws).trans List.map_eq_nil_iff.symm
  simp only [computeMerkleRoot, mapM_leafHash_of_mapM hraws, mapM_leafHash, hnil]

theorem shaInputs_of_mapM (hraws : chunkHashes.mapM bytesFromHex = some raws) :
    shaInputs sha256 chunkHashes = shaInputs sha256 (raws.map hexdigest) := by
  have hnil : chunkHashes = [] ↔ raws.map hexdigest = [] :=
    (eq_nil_iff_of_mapM hraws).trans List.map_eq_nil_iff.symm
  simp only [shaInputs, filterMap_of_mapM _ hraws, filterMap_of_mapM _ (mapM_hexdigest raws), hnil]

/-! ### The two roots -/

variable (hlen : ∀ bs, (sha256 bs).length = 32)

theorem merkleTreeHash_eq (h : raws ≠ []) :
    merkleTreeHash sha256 raws = (hashing hlen).digest (Merkle.splitTree raws h) :=
  Merkle.foldSplit_eq_eval _ _ _ raws h

theorem mthInputs_eq (h : raws ≠ []) :
    mthInputs sha256 raws = (hashing hlen).inputs (Merkle.splitTree raws h) := by
  rw [mthInputs, Merkle.foldSplit_eq_eval _ _ _ raws h, eval_loggedNode hlen]

include hlen in
/-- Over a power of two the roots are equal, whatever the hash. -/
theorem computeMerkleRoot_eq_mth {depth : ℕ} (hdepth : raws.length = 2 ^ depth) :
    computeMerkleRoot sha256 (raws.map hexdigest) =
      some (hexdigest (merkleTreeHash sha256 raws)) := by
  have hne : raws ≠ [] := List.ne_nil_of_length_pos (hdepth ▸ Nat.two_pow_pos depth)
  have htrees := (Merkle.trees_eq_splitTree_iff hne).2 ⟨depth, hdepth⟩
  rw [computeMerkleRoot_eq hlen htrees, merkleTreeHash_eq hlen hne]

include hlen in
/-- Equal roots are those of one tree. -/
theorem exists_depth_of_computeMerkleRoot (hne : raws ≠ [])
    (hfree : ∀ a ∈ shaInputs sha256 (raws.map hexdigest), ∀ b ∈ mthInputs sha256 raws,
      sha256 a = sha256 b → a = b)
    (h : computeMerkleRoot sha256 (raws.map hexdigest) =
      some (hexdigest (merkleTreeHash sha256 raws))) :
    ∃ depth, raws.length = 2 ^ depth := by
  obtain ⟨t, ht⟩ := Merkle.exists_trees_eq hne
  rw [computeMerkleRoot_eq hlen ht, merkleTreeHash_eq hlen hne] at h
  rw [shaInputs_eq hlen ht, mthInputs_eq hlen hne] at hfree
  have htree := (hashing hlen).digest_injective hfree (hexdigest_injective (Option.some.inj h))
  rw [htree] at ht
  exact (Merkle.trees_eq_splitTree_iff hne).1 ht

include hlen in
/-- **The root is that of RFC 6962 for the powers of two alone**, and for no chunk
at all. -/
theorem root_is_mth_iff (hraws : chunkHashes.mapM bytesFromHex = some raws)
    (hfree : ∀ a ∈ shaInputs sha256 chunkHashes, ∀ b ∈ mthInputs sha256 raws,
      sha256 a = sha256 b → a = b) :
    computeMerkleRoot sha256 chunkHashes = some (hexdigest (merkleTreeHash sha256 raws)) ↔
      chunkHashes.length = 0 ∨ ∃ depth, chunkHashes.length = 2 ^ depth := by
  rw [computeMerkleRoot_of_mapM hraws, ← length_of_mapM hraws]
  rw [shaInputs_of_mapM hraws] at hfree
  constructor
  · intro h
    by_cases hne : raws = []
    · exact .inl (hne ▸ rfl)
    · exact .inr (exists_depth_of_computeMerkleRoot hlen hne hfree h)
  · rintro (hzero | ⟨depth, hdepth⟩)
    · rw [List.eq_nil_of_length_eq_zero hzero, merkleTreeHash, Merkle.foldSplit]
      rfl
    · exact computeMerkleRoot_eq_mth hlen hdepth

end

/-- A hash for tests, the bytes as one number. -/
def numberHash (bs : Bytes) : Bytes :=
  BigEndian.encode 32 (bs.foldl (fun acc b => acc * 257 + b.toNat + 1) 0)

theorem length_numberHash (bs : Bytes) : (numberHash bs).length = 32 :=
  BigEndian.length_encode 32 _

theorem splitTree_threeChunks : Merkle.splitTree threeChunks (by decide) =
    .node (.node (.leaf (List.replicate 32 1)) (.leaf (List.replicate 32 2)))
      (.leaf (List.replicate 32 3)) := by
  have hthree : Merkle.splitPoint 3 = 2 := by decide
  have htwo : Merkle.splitPoint 2 = 1 := by decide
  simp only [threeChunks, Merkle.splitTree, List.length_cons, List.length_nil, Nat.reduceAdd,
    hthree, htwo, List.take_succ_cons, List.take_zero, List.drop_succ_cons, List.drop_zero]

/-- A hash for tests has no collision in the two computations over three chunks. -/
theorem threeChunks_free : ∀ a ∈ shaInputs numberHash (threeChunks.map hexdigest),
    ∀ b ∈ mthInputs numberHash threeChunks, numberHash a = numberHash b → a = b := by
  rw [shaInputs_eq length_numberHash trees_threeChunks,
    mthInputs_eq length_numberHash (by decide), splitTree_threeChunks]
  decide +kernel

theorem root_is_mth_threeChunks :
    computeMerkleRoot numberHash (threeChunks.map hexdigest) =
        some (hexdigest (merkleTreeHash numberHash threeChunks)) ↔
      (threeChunks.map hexdigest).length = 0 ∨
        ∃ depth, (threeChunks.map hexdigest).length = 2 ^ depth :=
  root_is_mth_iff length_numberHash (mapM_hexdigest threeChunks) threeChunks_free

/-- Three chunks have another root than by RFC 6962. -/
theorem not_root_is_mth : ¬ ∀ sha256 : Bytes → Bytes, (∀ bs, (sha256 bs).length = 32) →
    ∀ (chunkHashes : List String) (raws : List Bytes), (∀ h ∈ chunkHashes, IsHexDigest h) →
    chunkHashes.mapM bytesFromHex = some raws →
    (∀ a ∈ shaInputs sha256 chunkHashes, ∀ b ∈ mthInputs sha256 raws,
      sha256 a = sha256 b → a = b) →
    computeMerkleRoot sha256 chunkHashes = some (hexdigest (merkleTreeHash sha256 raws)) := by
  intro h
  have hroot := h numberHash length_numberHash _ _ isHexDigest_threeChunks
    (mapM_hexdigest threeChunks) threeChunks_free
  obtain ⟨depth, hdepth⟩ := exists_depth_of_computeMerkleRoot length_numberHash
    (show threeChunks ≠ [] by decide) threeChunks_free hroot
  have hthree : 2 ^ depth = 3 := hdepth.symm
  match depth with
  | 0 => exact absurd hthree (by decide)
  | depth + 1 =>
    rw [Nat.pow_succ] at hthree
    omega

end Manifest
end Boveda

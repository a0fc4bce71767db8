/-
# The Merkle root of a manifest

`compute_merkle_root` of `src/boveda/manifest.py`.  A leaf is hashed behind a byte
`0x00` and an inner node behind `0x01`, as in RFC 6962, but an odd last node is
paired with itself, which RFC 6962 never does.

So a root is not that of one list: it is the root of every list that has the same
leaves once the odd levels have repeated their last block (`padded`).  Without
collisions of SHA-256 these are all: `root_determines_iff`.
-/

import Boveda.Lib.Hex
import Boveda.Lib.Merkle
import Mathlib.Data.List.Basic

namespace Boveda
namespace Manifest

open Lib

/-- `bytes.fromhex(h)`. -/
def bytesFromHex (h : String) : Option Bytes := Hex.decode h.toList

section

variable (sha256 : Bytes → Bytes)

/-- `hashlib.sha256(b"\x00" + bytes.fromhex(h)).digest()`. -/
def leafHash (h : String) : Option Bytes :=
  (bytesFromHex h).map fun raw => sha256 (0x00 :: raw)

/-- `hashlib.sha256(b"\x01" + left + right).digest()`. -/
def nodeHash (left right : Bytes) : Bytes := sha256 (0x01 :: (left ++ right))

/-- `compute_merkle_root`, `none` when a hash is not hexadecimal. -/
def computeMerkleRoot (chunkHashes : List String) : Option String :=
  if chunkHashes = [] then some (String.ofList (Hex.encode (sha256 [])))
  else do
    let leaves ← chunkHashes.mapM (leafHash sha256)
    let root ← (Merkle.climb (nodeHash sha256) leaves).head?
    return String.ofList (Hex.encode root)

/-- An inner node together with all that `sha256` was given for it. -/
def loggedNode (left right : Bytes × List Bytes) : Bytes × List Bytes :=
  (nodeHash sha256 left.1 right.1, (0x01 :: (left.1 ++ right.1)) :: (left.2 ++ right.2))

/-- All that `sha256` is given in `compute_merkle_root`. -/
def shaInputs (chunkHashes : List String) : List Bytes :=
  if chunkHashes = [] then [[]]
  else
    let leaves := chunkHashes.filterMap fun h =>
      (bytesFromHex h).map fun raw => (sha256 (0x00 :: raw), [0x00 :: raw])
    (Merkle.climb (loggedNode sha256) leaves).flatMap (·.2)

end

/-- What `hexdigest` returns: 64 digits in lower case. -/
def IsHexDigest (h : String) : Prop := h.toList.length = 64 ∧ h.toList.all (· ∈ Hex.digits)

instance : DecidablePred IsHexDigest := fun _ => inferInstanceAs (Decidable (_ ∧ _))

/-- The text of a digest. -/
def hexdigest (raw : Bytes) : String := String.ofList (Hex.encode raw)

theorem hexdigest_injective : Function.Injective hexdigest := fun _ _ h =>
  Hex.encode_injective (String.ofList_injective h)

theorem IsHexDigest.exists_hexdigest {h : String} (hh : IsHexDigest h) :
    ∃ raw, hexdigest raw = h := by
  have hdigits : ∀ c ∈ h.toList, c ∈ Hex.digits := fun c hc =>
    of_decide_eq_true (List.all_eq_true.1 hh.2 c hc)
  obtain ⟨raw, hraw⟩ := Hex.exists_encode_eq (n := 32) hh.1 hdigits
  exact ⟨raw, by rw [hexdigest, hraw, String.ofList_toList]⟩

@[simp] theorem bytesFromHex_hexdigest (raw : Bytes) : bytesFromHex (hexdigest raw) = some raw := by
  rw [bytesFromHex, hexdigest, String.toList_ofList, Hex.decode_encode]

theorem exists_map_hexdigest {chunkHashes : List String} (h : ∀ x ∈ chunkHashes, IsHexDigest x) :
    ∃ raws : List Bytes, raws.map hexdigest = chunkHashes := by
  induction chunkHashes with
  | nil => exact ⟨[], rfl⟩
  | cons x chunkHashes ih =>
    obtain ⟨raw, rfl⟩ := (h x (List.mem_cons_self ..)).exists_hexdigest
    obtain ⟨raws, rfl⟩ := ih fun y hy => h y (List.mem_cons_of_mem _ hy)
    exact ⟨raw :: raws, rfl⟩

section

variable {sha256 : Bytes → Bytes} (hlen : ∀ bs, (sha256 bs).length = 32)

/-- Every list of hexadecimal hashes has a root. -/
theorem exists_computeMerkleRoot {chunkHashes : List String}
    (h : ∀ x ∈ chunkHashes, bytesFromHex x ≠ none) :
    ∃ root, computeMerkleRoot sha256 chunkHashes = some root := by
  by_cases hne : chunkHashes = []
  · exact ⟨_, if_pos hne⟩
  have hleaves : ∃ leaves, chunkHashes.mapM (leafHash sha256) = some leaves ∧
      leaves.length = chunkHashes.length := by
    clear hne
    induction chunkHashes with
    | nil => exact ⟨[], rfl, rfl⟩
    | cons x chunkHashes ih =>
      obtain ⟨raw, hraw⟩ := Option.ne_none_iff_exists'.1 (h x (List.mem_cons_self ..))
      obtain ⟨leaves, hleaves, hlength⟩ := ih fun y hy => h y (List.mem_cons_of_mem _ hy)
      exact ⟨sha256 (0x00 :: raw) :: leaves, by simp [leafHash, hraw, hleaves], by simp [hlength]⟩
  obtain ⟨leaves, hleaves, hlength⟩ := hleaves
  have hleaves_ne : leaves ≠ [] := by
    rintro rfl
    exact hne (List.eq_nil_of_length_eq_zero hlength.symm)
  obtain ⟨root, hroot⟩ := Merkle.exists_climb_eq (nodeHash sha256) hleaves_ne
  refine ⟨String.ofList (Hex.encode root), ?_⟩
  rw [computeMerkleRoot, if_neg hne, hleaves, Option.bind_eq_bind, Option.bind_some, hroot]
  rfl

/-- SHA-256 on the leaves and on the nodes of the tree. -/
def hashing : Merkle.Hashing Bytes Bytes Bytes where
  hash := sha256
  leafInput raw := 0x00 :: raw
  nodeInput left right := 0x01 :: (left ++ right)
  leafInput_injective _ _ h := (List.cons.inj h).2
  nodeInput_injective h :=
    List.append_inj (List.cons.inj h).2 ((hlen _).trans (hlen _).symm)
  leafInput_ne_nodeInput _ _ _ h := absurd (List.cons.inj h).1 (by decide)

theorem eval_loggedNode (t : Merkle.Tree Bytes) :
    t.eval (fun raw => (sha256 (0x00 :: raw), [0x00 :: raw])) (loggedNode sha256) =
      ((hashing hlen).digest t, (hashing hlen).inputs t) := by
  induction t with
  | leaf raw => rfl
  | node left right hl hr =>
    rw [Merkle.Tree.eval, hl, hr]
    rfl

variable {raws raws' : List Bytes}

theorem mapM_leafHash : (raws.map hexdigest).mapM (leafHash sha256) =
    some (raws.map fun raw => sha256 (0x00 :: raw)) := by
  induction raws with
  | nil => rfl
  | cons raw raws ih => simp [leafHash, ih]

/-- An odd number of chunks may as well repeat the last one. -/
theorem computeMerkleRoot_append_last {last : Bytes} (hodd : raws.length % 2 = 1)
    (hmore : 1 < raws.length) (hlast : raws.getLast? = some last) :
    computeMerkleRoot sha256 ((raws ++ [last]).map hexdigest) =
      computeMerkleRoot sha256 (raws.map hexdigest) := by
  have hne : raws ≠ [] := List.ne_nil_of_length_pos (Nat.zero_lt_of_lt hmore)
  have hclimb : Merkle.climb (nodeHash sha256)
      ((raws.map fun raw => sha256 (0x00 :: raw)) ++ [sha256 (0x00 :: last)]) =
        Merkle.climb (nodeHash sha256) (raws.map fun raw => sha256 (0x00 :: raw)) := by
    refine Merkle.climb_append_last _ ?_ ?_ ?_
    · rwa [List.length_map]
    · rwa [List.length_map]
    · rw [List.getLast?_map, hlast, Option.map_some]
  rw [computeMerkleRoot, computeMerkleRoot, if_neg (by simp), if_neg (by simpa using hne),
    mapM_leafHash, mapM_leafHash, Option.bind_eq_bind, Option.bind_some, Option.bind_some,
    List.map_append, List.map_singleton, hclimb]

theorem map_hexdigest_ne_nil {t : Merkle.Tree Bytes} (ht : Merkle.trees raws = [t]) :
    raws.map hexdigest ≠ [] := by
  intro hnil
  rw [List.map_eq_nil_iff.1 hnil, Merkle.trees_nil] at ht
  cases ht

/-- The root is the hash of the tree over the chunks. -/
theorem computeMerkleRoot_eq {t : Merkle.Tree Bytes} (ht : Merkle.trees raws = [t]) :
    computeMerkleRoot sha256 (raws.map hexdigest) = some (hexdigest ((hashing hlen).digest t)) := by
  have hne := map_hexdigest_ne_nil ht
  rw [computeMerkleRoot, if_neg hne, mapM_leafHash, Option.bind_eq_bind, Option.bind_some,
    Merkle.climb_eq_eval, ht]
  rfl

theorem shaInputs_eq {t : Merkle.Tree Bytes} (ht : Merkle.trees raws = [t]) :
    shaInputs sha256 (raws.map hexdigest) = (hashing hlen).inputs t := by
  have hne := map_hexdigest_ne_nil ht
  have hleaves : ((raws.map hexdigest).filterMap fun h =>
      (bytesFromHex h).map fun raw => (sha256 (0x00 :: raw), [0x00 :: raw])) =
        raws.map fun raw => (sha256 (0x00 :: raw), [0x00 :: raw]) := by
    rw [List.filterMap_map]
    simp
  rw [shaInputs, if_neg hne, hleaves]
  dsimp only
  rw [Merkle.climb_eq_eval, ht, List.map_singleton, eval_loggedNode hlen,
    List.flatMap_singleton]

theorem mem_shaInputs_nil : [] ∈ shaInputs sha256 (([] : List Bytes).map hexdigest) :=
  List.mem_singleton_self _

include hlen in
/-- The root of no chunk at all is that of no tree. -/
theorem computeMerkleRoot_ne_nil {t : Merkle.Tree Bytes} (ht : Merkle.trees raws = [t])
    (hfree : ∀ a ∈ shaInputs sha256 (raws.map hexdigest), sha256 a = sha256 [] → a = []) :
    computeMerkleRoot sha256 (raws.map hexdigest) ≠ computeMerkleRoot sha256 [] := by
  intro h
  rw [computeMerkleRoot_eq hlen ht, computeMerkleRoot, if_pos rfl] at h
  have hdigest := hexdigest_injective (Option.some.inj h)
  rw [Merkle.Hashing.digest_eq_hash] at hdigest
  have hnil := hfree _ (shaInputs_eq hlen ht ▸ Merkle.Hashing.input_mem_inputs t) hdigest
  cases t <;> cases hnil

include hlen in
/-- **Equal roots** are the roots of one tree. -/
theorem computeMerkleRoot_eq_iff
    (hfree : ∀ a ∈ shaInputs sha256 (raws.map hexdigest),
      ∀ b ∈ shaInputs sha256 (raws'.map hexdigest), sha256 a = sha256 b → a = b) :
    computeMerkleRoot sha256 (raws.map hexdigest) =
      computeMerkleRoot sha256 (raws'.map hexdigest) ↔
    Merkle.trees raws = Merkle.trees raws' := by
  by_cases hraws : raws = []
  · subst hraws
    by_cases hraws' : raws' = []
    · simp [hraws']
    obtain ⟨u, hu⟩ := Merkle.exists_trees_eq hraws'
    refine iff_of_false (fun h => computeMerkleRoot_ne_nil hlen hu (fun b hb hsha => ?_) h.symm) ?_
    · exact (hfree _ mem_shaInputs_nil b hb hsha.symm).symm
    · rw [Merkle.trees_nil, hu]
      exact (List.cons_ne_nil _ _).symm
  obtain ⟨t, ht⟩ := Merkle.exists_trees_eq hraws
  by_cases hraws' : raws' = []
  · subst hraws'
    refine iff_of_false (computeMerkleRoot_ne_nil hlen ht fun a ha => ?_) ?_
    · exact hfree a ha _ mem_shaInputs_nil
    · rw [Merkle.trees_nil, ht]
      exact List.cons_ne_nil _ _
  obtain ⟨u, hu⟩ := Merkle.exists_trees_eq hraws'
  rw [computeMerkleRoot_eq hlen ht, computeMerkleRoot_eq hlen hu, ht, hu]
  rw [shaInputs_eq hlen ht, shaInputs_eq hlen hu] at hfree
  refine ⟨fun h => ?_, fun h => by rw [List.singleton_inj.1 h]⟩
  have hdigest := hexdigest_injective (Option.some.inj h)
  rw [(hashing hlen).digest_injective hfree hdigest]

include hlen in
/-- **What a root determines.**  Equal roots come from equal lists just when the lists
do not become equal once the odd levels have repeated their last block. -/
theorem root_determines_iff {xs ys : List String} (hxs : ∀ x ∈ xs, IsHexDigest x)
    (hys : ∀ y ∈ ys, IsHexDigest y)
    (hfree : ∀ a ∈ shaInputs sha256 xs, ∀ b ∈ shaInputs sha256 ys,
      sha256 a = sha256 b → a = b) :
    (computeMerkleRoot sha256 xs = computeMerkleRoot sha256 ys → xs = ys) ↔
      (Merkle.padded xs = Merkle.padded ys → xs = ys) := by
  obtain ⟨raws, rfl⟩ := exists_map_hexdigest hxs
  obtain ⟨raws', rfl⟩ := exists_map_hexdigest hys
  have hmap := List.map_injective_iff.2 hexdigest_injective
  rw [computeMerkleRoot_eq_iff hlen hfree, Merkle.trees_eq_iff, Merkle.padded_map,
    Merkle.padded_map, hmap.eq_iff, hmap.eq_iff]

end

/-- A hash for tests, the first 32 bytes. -/
def firstBytes (bs : Bytes) : Bytes := (bs ++ List.replicate 32 0).take 32

theorem length_firstBytes (bs : Bytes) : (firstBytes bs).length = 32 := by
  simp [firstBytes]

/-- Three chunks for tests. -/
def threeChunks : List Bytes := [List.replicate 32 1, List.replicate 32 2, List.replicate 32 3]

theorem trees_threeChunks : Merkle.trees threeChunks =
    [.node (.node (.leaf (List.replicate 32 1)) (.leaf (List.replicate 32 2)))
      (.node (.leaf (List.replicate 32 3)) (.leaf (List.replicate 32 3)))] := by
  rw [Merkle.trees, Merkle.climb_of_lt _ (by decide), Merkle.climb_of_lt _ (by decide),
    Merkle.climb_of_le _ (by decide)]
  rfl

theorem trees_append_last : Merkle.trees (threeChunks ++ [List.replicate 32 3]) =
    Merkle.trees threeChunks :=
  (congrArg _ (List.map_append ..)).trans
    (Merkle.climb_append_last _ (by decide) (by decide) rfl)

theorem trees_two : Merkle.trees (threeChunks.take 2) =
    [.node (.leaf (List.replicate 32 1)) (.leaf (List.replicate 32 2))] := by
  rw [Merkle.trees, Merkle.climb_of_lt _ (by decide), Merkle.climb_of_le _ (by decide)]
  rfl

theorem isHexDigest_threeChunks : ∀ x ∈ threeChunks.map hexdigest, IsHexDigest x := by
  decide

theorem root_determines_two :
    (computeMerkleRoot firstBytes (threeChunks.map hexdigest) =
        computeMerkleRoot firstBytes ((threeChunks.take 2).map hexdigest) →
      threeChunks.map hexdigest = (threeChunks.take 2).map hexdigest) ↔
    (Merkle.padded (threeChunks.map hexdigest) =
        Merkle.padded ((threeChunks.take 2).map hexdigest) →
      threeChunks.map hexdigest = (threeChunks.take 2).map hexdigest) := by
  refine root_determines_iff length_firstBytes isHexDigest_threeChunks (by decide) ?_
  rw [shaInputs_eq length_firstBytes trees_threeChunks, shaInputs_eq length_firstBytes trees_two]
  decide

/-- Three chunks and the same three with the last once more have one root. -/
theorem not_root_determines : ¬ ∀ sha256 : Bytes → Bytes, (∀ bs, (sha256 bs).length = 32) →
    ∀ xs ys : List String, (∀ x ∈ xs, IsHexDigest x) → (∀ y ∈ ys, IsHexDigest y) →
    (∀ a ∈ shaInputs sha256 xs, ∀ b ∈ shaInputs sha256 ys, sha256 a = sha256 b → a = b) →
    computeMerkleRoot sha256 xs = computeMerkleRoot sha256 ys → xs = ys := by
  intro h
  have hroots : computeMerkleRoot firstBytes ((threeChunks ++ [List.replicate 32 3]).map hexdigest)
      = computeMerkleRoot firstBytes (threeChunks.map hexdigest) :=
    computeMerkleRoot_append_last (by decide) (by decide) rfl
  have hfree : ∀ a ∈ shaInputs firstBytes ((threeChunks ++ [List.replicate 32 3]).map hexdigest),
      ∀ b ∈ shaInputs firstBytes (threeChunks.map hexdigest),
        firstBytes a = firstBytes b → a = b := by
    rw [shaInputs_eq length_firstBytes trees_threeChunks,
      shaInputs_eq length_firstBytes (trees_append_last.trans trees_threeChunks)]
    decide
  have heq := h firstBytes length_firstBytes _ _ (by decide) isHexDigest_threeChunks hfree hroots
  exact absurd (congrArg List.length heq) (by decide)

end Manifest
end Boveda

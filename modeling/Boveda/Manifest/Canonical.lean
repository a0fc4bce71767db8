/-
# The signed manifest

`create_canonical_manifest_json`, `sign_manifest_ed25519` and
`verify_manifest_signature` of `src/boveda/manifest.py`.

The text of a manifest determines all of its fields (`createCanonicalManifestJson_injective`),
so a signature under an ideal Ed25519 is one of a single manifest
(`verifyManifestSignature_iff`).
-/

import Boveda.Lib.Json
import Boveda.Crypto.Signature
import Boveda.Manifest.Merkle
import Mathlib.Data.List.Lex
import Mathlib.Data.List.Sort

namespace Boveda
namespace Manifest

open Lib Crypto

/-- The arguments of `create_canonical_manifest_json`. -/
structure ManifestArgs where
  snapshotId : String
  timestampIso : String
  tipo : String
  source : String
  chunkHashes : List String
  totalSizeBytes : ℤ
  parentSnapshotId : Option String := none
  parentManifestHash : Option String := none

/-- A string or `None`. -/
def optJson : Option String → Json
  | some s => .ofString s
  | none => .null

/-- `manifest_dict`. -/
def manifestDict (m : ManifestArgs) (merkleRoot : String) : List (List ℕ × Json) :=
  [(Json.codePoints "chunk_hashes", .arr (m.chunkHashes.map Json.ofString)),
    (Json.codePoints "merkle_root", Json.ofString merkleRoot),
    (Json.codePoints "parent_manifest_hash", optJson m.parentManifestHash),
    (Json.codePoints "parent_snapshot_id", optJson m.parentSnapshotId),
    (Json.codePoints "snapshot_id", Json.ofString m.snapshotId),
    (Json.codePoints "source", Json.ofString m.source),
    (Json.codePoints "timestamp", Json.ofString m.timestampIso),
    (Json.codePoints "total_chunks", .int m.chunkHashes.length),
    (Json.codePoints "total_size_bytes", .int m.totalSizeBytes),
    (Json.codePoints "type", Json.ofString m.tipo),
    (Json.codePoints "version", Json.ofString "1.0")]

/-- `sort_keys`. -/
def sortKeys (fields : List (List ℕ × Json)) : List (List ℕ × Json) :=
  fields.insertionSort fun a b => a.1 ≤ b.1

/-- `create_canonical_manifest_json`, `none` for `ValueError`: a hash is not hexadecimal,
or a number is too long. -/
def createCanonicalManifestJson (sha256 : Bytes → Bytes) (m : ManifestArgs) : Option Bytes := do
  let merkleRoot ← computeMerkleRoot sha256 m.chunkHashes
  let canonicalJsonStr ← Json.dumps (.obj (sortKeys (manifestDict m merkleRoot)))
  return utf8 (String.ofList canonicalJsonStr)

/-- `sign_manifest_ed25519`, `none` for `ValueError`. -/
def signManifestEd25519 (E : Ed25519) (canonicalManifestBytes : Bytes) (privateKeyB64 : String) :
    Option String := do
  let rawPriv ← b64decode privateKeyB64
  guard (rawPriv.length = 32)
  return b64encode (E.sign rawPriv canonicalManifestBytes)

/-- `verify_manifest_signature`. -/
def verifyManifestSignature (E : Ed25519) (canonicalManifestBytes : Bytes)
    (signatureB64 publicKeyB64 : String) : Bool :=
  match b64decode publicKeyB64, b64decode signatureB64 with
  | some rawPub, some rawSig =>
    rawPub.length = 32 && E.verify rawPub rawSig canonicalManifestBytes
  | _, _ => false

theorem optJson_injective : Function.Injective optJson := by
  intro a b h
  cases a <;> cases b
  · rfl
  · cases h
  · cases h
  · exact congrArg some (Json.ofString_injective h)

/-- The keys are sorted as they stand. -/
theorem sortKeys_manifestDict (m : ManifestArgs) (merkleRoot : String) :
    sortKeys (manifestDict m merkleRoot) = manifestDict m merkleRoot := by
  refine List.Pairwise.insertionSort_eq ?_
  have hkeys : ((manifestDict m merkleRoot).map (·.1)).Pairwise (· ≤ ·) := by
    show List.Pairwise (· ≤ ·) (["chunk_hashes", "merkle_root", "parent_manifest_hash",
      "parent_snapshot_id", "snapshot_id", "source", "timestamp", "total_chunks",
      "total_size_bytes", "type", "version"].map Json.codePoints)
    decide
  exact List.pairwise_map.1 hkeys

/-- What holds of the strings, of `null` and of the two numbers holds of a manifest. -/
theorem manifestDict_all {m : ManifestArgs} {root : String} {p : Json → Bool}
    (hstr : ∀ s : String, p (Json.ofString s)) (hnull : p .null)
    (hchunks : p (.int m.chunkHashes.length)) (hsize : p (.int m.totalSizeBytes)) :
    (Json.obj (manifestDict m root)).all p := by
  have hopt (s : Option String) : (optJson s).all p := by
    cases s with
    | none => exact hnull
    | some s => exact hstr s
  have hhashes (hashes : List String) : (Json.arr (hashes.map Json.ofString)).all p := by
    induction hashes with
    | nil => rfl
    | cons h hashes ih => exact Bool.and_eq_true_iff.2 ⟨hstr h, ih⟩
  have hstring (s : String) : (Json.ofString s).all p := hstr s
  have hchunks : (Json.int m.chunkHashes.length).all p := hchunks
  have hsize : (Json.int m.totalSizeBytes).all p := hsize
  show Json.allFields p (manifestDict m root)
  simp only [manifestDict, Json.allFields, Json.allField_of_all hstr _ (hhashes _),
    Json.allField_of_all hstr _ (hopt _), Json.allField_of_all hstr _ (hstring _),
    Json.allField_of_all hstr _ hchunks, Json.allField_of_all hstr _ hsize, Bool.and_self]

/-- A manifest has neither fractions nor surrogates. -/
theorem manifestDict_plain (m : ManifestArgs) (root : String) :
    (Json.obj (manifestDict m root)).all Json.plain :=
  manifestDict_all Json.ofString_plain rfl rfl rfl

theorem manifestDict_injective {m m' : ManifestArgs} {root root' : String}
    (h : manifestDict m root = manifestDict m' root') : m = m' := by
  simp only [manifestDict, List.cons.injEq, Prod.mk.injEq, true_and, and_true, Json.arr.injEq,
    Json.int.injEq] at h
  obtain ⟨hhashes, -, hmanifest, hparent, hid, hsource, htime, -, hsize, htipo⟩ := h
  cases m
  cases m'
  rw [ManifestArgs.mk.injEq]
  exact ⟨Json.ofString_injective hid, Json.ofString_injective htime, Json.ofString_injective htipo,
    Json.ofString_injective hsource, List.map_injective_iff.2 Json.ofString_injective hhashes,
    hsize, optJson_injective hparent, optJson_injective hmanifest⟩

variable {sha256 : Bytes → Bytes} {m m' : ManifestArgs} {bytes bytes' : Bytes}

/-- What the bytes of a manifest are. -/
theorem exists_dumps_of_create (h : createCanonicalManifestJson sha256 m = some bytes) :
    ∃ root text, (Json.obj (manifestDict m root)).dumps = some text ∧
      bytes = utf8 (String.ofList text) := by
  obtain ⟨root, -, h⟩ := Option.bind_eq_some_iff.1 h
  obtain ⟨text, htext, h⟩ := Option.bind_eq_some_iff.1 h
  rw [sortKeys_manifestDict] at htext
  exact ⟨root, text, htext, (Option.some.inj h).symm⟩

/-- **The bytes of a manifest determine its fields.** -/
theorem createCanonicalManifestJson_injective
    (h : createCanonicalManifestJson sha256 m = some bytes)
    (h' : createCanonicalManifestJson sha256 m' = some bytes) : m = m' := by
  obtain ⟨root, text, htext, rfl⟩ := exists_dumps_of_create h
  obtain ⟨root', text', htext', heq⟩ := exists_dumps_of_create h'
  obtain rfl := String.ofList_injective (utf8_injective heq)
  have hdict := Json.dumps_injective (manifestDict_plain m root) (manifestDict_plain m' root')
    htext htext'
  exact manifestDict_injective (Json.obj.inj hdict)

/-- **A signature is one of a single manifest.** -/
theorem verifyManifestSignature_iff {E : Ed25519} (hE : E.Ideal) {rawPriv : Bytes}
    {privateKeyB64 publicKeyB64 : String} (hpriv : b64decode privateKeyB64 = some rawPriv)
    (hlen : rawPriv.length = 32) (hpub : b64decode publicKeyB64 = some (E.publicKey rawPriv))
    (h : createCanonicalManifestJson sha256 m = some bytes)
    (h' : createCanonicalManifestJson sha256 m' = some bytes') :
    ∃ signature, signManifestEd25519 E bytes privateKeyB64 = some signature ∧
      (verifyManifestSignature E bytes' signature publicKeyB64 = true ↔ m = m') := by
  refine ⟨b64encode (E.sign rawPriv bytes), ?_, ?_⟩
  · rw [signManifestEd25519, hpriv]
    simp [hlen]
  · rw [verifyManifestSignature, hpub, b64decode_b64encode]
    dsimp only
    rw [E.length_publicKey, decide_eq_true rfl, Bool.true_and, hE _ _ _ hlen]
    refine ⟨fun heq => ?_, fun heq => ?_⟩
    · subst heq
      exact createCanonicalManifestJson_injective h h'
    · subst heq
      exact Option.some.inj (h'.symm.trans h)

/-- A manifest of hexadecimal hashes has its bytes. -/
theorem exists_createCanonicalManifestJson (hhashes : ∀ x ∈ m.chunkHashes, bytesFromHex x ≠ none)
    (hchunks : Json.Short m.chunkHashes.length) (hsize : Json.Short m.totalSizeBytes) :
    ∃ bytes, createCanonicalManifestJson sha256 m = some bytes := by
  obtain ⟨root, hroot⟩ : ∃ root, computeMerkleRoot sha256 m.chunkHashes = some root :=
    exists_computeMerkleRoot hhashes
  have hdumps : (Json.obj (manifestDict m root)).all Json.writable :=
    manifestDict_all (fun _ => rfl) rfl (decide_eq_true hchunks) (decide_eq_true hsize)
  rw [createCanonicalManifestJson, hroot, Option.bind_eq_bind, Option.bind_some,
    sortKeys_manifestDict, Json.dumps, if_pos hdumps]
  exact ⟨_, rfl⟩

theorem openEd25519_ideal : openEd25519.Ideal := by
  intro sk message message' _
  have hverify := beq_iff_eq (a := openEd25519.sign sk message)
    (b := openEd25519.publicKey sk ++ message')
  exact hverify.trans ⟨fun h => (List.append_cancel_left h).symm, fun h => h ▸ rfl⟩

/-- A manifest of three chunks. -/
def threeChunksManifest : ManifestArgs where
  snapshotId := "snap-123"
  timestampIso := "2026-08-31T12:00:00Z"
  tipo := "DIARIO"
  source := "db-prod"
  chunkHashes := threeChunks.map hexdigest
  totalSizeBytes := 1024

theorem verifyManifestSignature_threeChunks : ∃ bytes bytes' signature,
    createCanonicalManifestJson firstBytes threeChunksManifest = some bytes ∧
    createCanonicalManifestJson firstBytes { threeChunksManifest with source := "\"db\"" } =
      some bytes' ∧
    signManifestEd25519 openEd25519 bytes (b64encode (List.replicate 32 7)) = some signature ∧
    (verifyManifestSignature openEd25519 bytes' signature
        (b64encode (openEd25519.publicKey (List.replicate 32 7))) = true ↔
      threeChunksManifest = { threeChunksManifest with source := "\"db\"" }) := by
  have hhex : ∀ x ∈ threeChunks.map hexdigest, bytesFromHex x ≠ none := by
    intro x hx
    obtain ⟨raw, -, rfl⟩ := List.mem_map.1 hx
    simp
  have hchunks : Json.Short (threeChunks.map hexdigest).length :=
    Json.short_of_lt (show 3 < 10 ^ 1 by decide) (by decide)
  have hsize : Json.Short 1024 := Json.short_of_lt (show 1024 < 10 ^ 4 by decide) (by decide)
  obtain ⟨bytes, h⟩ : ∃ bytes,
      createCanonicalManifestJson firstBytes threeChunksManifest = some bytes :=
    exists_createCanonicalManifestJson hhex hchunks hsize
  obtain ⟨bytes', h'⟩ : ∃ bytes', createCanonicalManifestJson firstBytes
      { threeChunksManifest with source := "\"db\"" } = some bytes' :=
    exists_createCanonicalManifestJson hhex hchunks hsize
  obtain ⟨signature, hsign, hverify⟩ := verifyManifestSignature_iff openEd25519_ideal
    (b64decode_b64encode (List.replicate 32 7)) (by decide) (b64decode_b64encode _) h h'
  exact ⟨bytes, bytes', signature, h, h', hsign, hverify⟩

end Manifest
end Boveda

/-
# The canonical manifest and RFC 8785

`create_canonical_manifest_json` of `src/boveda/manifest.py` promises the JSON
Canonicalization Scheme.  It sorts the keys and leaves out the spaces, and calls
`json.dumps` with the default `ensure_ascii`, which writes `\u00e9` where the scheme
writes the letter itself.

The bytes are those of RFC 8785 just when the strings of the manifest are of ASCII
without DEL (`writesJcs_iff`).  Its hexadecimal hashes always are.
-/

import Boveda.Lib.Jcs
import Boveda.Manifest.Canonical

namespace Boveda
namespace Manifest

open Lib Crypto

/-- ASCII without DEL. -/
def AsciiText (s : String) : Prop := ∀ c ∈ s.toList, Jcs.IsAscii c

instance : DecidablePred AsciiText := fun s => List.decidableBAll Jcs.IsAscii s.toList

/-- The texts of a manifest that are not hashes of chunks. -/
def ManifestArgs.texts (m : ManifestArgs) : List String :=
  [m.snapshotId, m.timestampIso, m.tipo, m.source] ++ m.parentSnapshotId.toList ++
    m.parentManifestHash.toList

/-- The bytes of the manifest are its serialization by RFC 8785. -/
def WritesJcs (sha256 : Bytes → Bytes) (m : ManifestArgs) : Prop :=
  ∃ merkleRoot text, computeMerkleRoot sha256 m.chunkHashes = some merkleRoot ∧
    Jcs.serialize (.obj (manifestDict m merkleRoot)) = some text ∧
    createCanonicalManifestJson sha256 m = some (utf8 (String.ofList text))

/-! ### What is ASCII -/

theorem isAscii_of_digitVal {c : Char} {n : ℕ} (h : Hex.digitVal c = some n) : Jcs.IsAscii c := by
  have hle (d : Char) (hd : c ≤ d) (hascii : Jcs.IsAscii d) : Jcs.IsAscii c :=
    Nat.lt_of_le_of_lt (Char.le_def.1 hd) hascii
  unfold Hex.digitVal at h
  split_ifs at h with hdec hlow hup
  · exact hle '9' hdec.2 (by decide)
  · exact hle 'f' hlow.2 (by decide)
  · exact hle 'F' hup.2 (by decide)

theorem isAscii_of_isSpace {c : Char} (h : Hex.isSpace c) : Jcs.IsAscii c := by
  rcases Bool.or_eq_true_iff.1 h with h | h
  · rw [eq_of_beq h]
    decide
  · have hle : c ≤ '\r' := of_decide_eq_true (Bool.and_eq_true_iff.1 h).2
    exact Nat.lt_of_le_of_lt (Char.le_def.1 hle) (by decide)

/-- What is read as hexadecimal is of ASCII. -/
theorem isAscii_of_decode {text : List Char} {raw : Bytes} (h : Hex.decode text = some raw) :
    ∀ c ∈ text, Jcs.IsAscii c := by
  induction text using Hex.decode.induct generalizing raw with
  | case1 => exact fun c hc => absurd hc List.not_mem_nil
  | case2 c hspace => exact List.forall_mem_singleton.2 (isAscii_of_isSpace hspace)
  | case3 c hspace =>
    rw [Hex.decode, if_neg hspace] at h
    cases h
  | case4 c d rest hspace ih =>
    rw [Hex.decode, if_pos hspace] at h
    exact List.forall_mem_cons.2 ⟨isAscii_of_isSpace hspace, ih h⟩
  | case5 c d rest hspace hi lo hlo hhi ih =>
    rw [Hex.decode, if_neg hspace, hhi, hlo] at h
    obtain ⟨raw', hraw, -⟩ := Option.map_eq_some_iff.1 h
    exact List.forall_mem_cons.2 ⟨isAscii_of_digitVal hhi,
      List.forall_mem_cons.2 ⟨isAscii_of_digitVal hlo, ih hraw⟩⟩
  | case6 c d rest hspace hnone =>
    rw [Hex.decode, if_neg hspace] at h
    split at h
    · next hi lo hhi hlo => exact (hnone hi lo hhi hlo).elim
    · cases h

theorem asciiText_of_bytesFromHex {h : String} (hh : bytesFromHex h ≠ none) : AsciiText h := by
  obtain ⟨raw, hraw⟩ := Option.ne_none_iff_exists'.1 hh
  exact isAscii_of_decode hraw

theorem asciiText_hexdigest (raw : Bytes) : AsciiText (hexdigest raw) :=
  asciiText_of_bytesFromHex (by simp)

theorem asciiText_of_computeMerkleRoot {sha256 : Bytes → Bytes} {chunkHashes : List String}
    {root : String} (h : computeMerkleRoot sha256 chunkHashes = some root) : AsciiText root := by
  unfold computeMerkleRoot at h
  split_ifs at h
  · rw [← Option.some.inj h]
    exact asciiText_hexdigest _
  · obtain ⟨leaves, -, h⟩ := Option.bind_eq_some_iff.1 h
    obtain ⟨raw, -, h⟩ := Option.bind_eq_some_iff.1 h
    rw [← Option.some.inj h]
    exact asciiText_hexdigest raw

/-! ### The manifest -/

variable {sha256 : Bytes → Bytes} {m : ManifestArgs} {root : String}

/-- The keys stand in the order of RFC 8785. -/
theorem sortFields_manifestDict (m : ManifestArgs) (root : String) :
    Jcs.sortFields (manifestDict m root) = manifestDict m root := by
  refine List.Pairwise.insertionSort_eq ?_
  have hkeys : ((manifestDict m root).map fun field => field.1.flatMap Json.units).Pairwise
      (· ≤ ·) := by
    show List.Pairwise (· ≤ ·) (["chunk_hashes", "merkle_root", "parent_manifest_hash",
      "parent_snapshot_id", "snapshot_id", "source", "timestamp", "total_chunks",
      "total_size_bytes", "type", "version"].map fun key => (Json.codePoints key).flatMap Json.units)
    decide
  exact List.pairwise_map.1 hkeys

theorem sorted_optJson (s : Option String) : Jcs.sorted (optJson s) = optJson s := by
  cases s <;> rfl

theorem sortedItems_hashes (hashes : List String) :
    Jcs.sortedItems (hashes.map Json.ofString) = hashes.map Json.ofString := by
  induction hashes with
  | nil => rfl
  | cons h hashes ih => exact congrArg (_ :: ·) ih

theorem sorted_manifestDict (m : ManifestArgs) (root : String) :
    Jcs.sorted (.obj (manifestDict m root)) = .obj (manifestDict m root) := by
  have hfields : Jcs.sortedFields (manifestDict m root) = manifestDict m root := by
    have hstring (s : String) : Jcs.sorted (Json.ofString s) = Json.ofString s := rfl
    have hint (n : ℤ) : Jcs.sorted (.int n) = .int n := rfl
    have harr : Jcs.sorted (.arr (m.chunkHashes.map Json.ofString)) =
        .arr (m.chunkHashes.map Json.ofString) := congrArg _ (sortedItems_hashes m.chunkHashes)
    simp only [manifestDict, Jcs.sortedFields, Jcs.sortedField, hstring, hint, harr,
      sorted_optJson]
  rw [Jcs.sorted, hfields, sortFields_manifestDict]

theorem ascii_optJson {s : Option String} :
    (optJson s).all Jcs.ascii ↔ ∀ t ∈ s.toList, AsciiText t := by
  cases s with
  | none => exact iff_of_true rfl fun t ht => absurd ht List.not_mem_nil
  | some s =>
    rw [Option.toList_some, List.forall_mem_singleton]
    exact Jcs.ascii_ofString

theorem ascii_hashes {hashes : List String} (h : ∀ x ∈ hashes, bytesFromHex x ≠ none) :
    (Json.arr (hashes.map Json.ofString)).all Jcs.ascii := by
  induction hashes with
  | nil => rfl
  | cons x hashes ih =>
    have hx := Jcs.ascii_ofString.2 (asciiText_of_bytesFromHex (h x (List.mem_cons_self ..)))
    exact Bool.and_eq_true_iff.2 ⟨hx, ih fun y hy => h y (List.mem_cons_of_mem _ hy)⟩

/-- The strings of a manifest are its texts, besides the keys and the hashes. -/
theorem ascii_manifestDict (hhashes : ∀ x ∈ m.chunkHashes, bytesFromHex x ≠ none)
    (hroot : computeMerkleRoot sha256 m.chunkHashes = some root) :
    (Json.obj (manifestDict m root)).all Jcs.ascii ↔ ∀ s ∈ m.texts, AsciiText s := by
  have hkey : ∀ key ∈ ["chunk_hashes", "merkle_root", "parent_manifest_hash",
      "parent_snapshot_id", "snapshot_id", "source", "timestamp", "total_chunks",
      "total_size_bytes", "type", "version"], Jcs.ascii (.str (Json.codePoints key)) = true := by
    decide
  have hstring (s : String) : (Json.ofString s).all Jcs.ascii ↔ AsciiText s := Jcs.ascii_ofString
  have hint (n : ℤ) : (Json.int n).all Jcs.ascii = true := rfl
  have hdigest := (hstring root).2 (asciiText_of_computeMerkleRoot hroot)
  have hversion : (Json.ofString "1.0").all Jcs.ascii = true := by decide
  simp only [List.forall_mem_cons] at hkey
  show Json.allFields Jcs.ascii (manifestDict m root) = true ↔ _
  simp only [manifestDict, Json.allFields, Json.allField, hkey, hint, hdigest, hversion,
    ascii_hashes hhashes, Bool.true_and, Bool.and_true, Bool.and_eq_true_iff, hstring,
    ascii_optJson, ManifestArgs.texts, List.forall_mem_append, List.forall_mem_cons]
  constructor
  · rintro ⟨hmanifest, hparent, hid, hsource, htime, htipo⟩
    exact ⟨⟨⟨hid, htime, htipo, hsource, fun s hs => absurd hs List.not_mem_nil⟩, hparent⟩,
      hmanifest⟩
  · rintro ⟨⟨⟨hid, htime, htipo, hsource, -⟩, hparent⟩, hmanifest⟩
    exact ⟨hmanifest, hparent, hid, hsource, htime, htipo⟩

/-- Numbers below `2 ^ 53` are short. -/
theorem short_of_natAbs_lt {n : ℤ} (h : n.natAbs < 2 ^ 53) : Json.Short n :=
  Json.short_of_lt (h.trans (show 2 ^ 53 < 10 ^ 16 by decide)) (by decide)

theorem serializable_manifestDict (hsize : m.totalSizeBytes.natAbs < 2 ^ 53) :
    (Json.obj (manifestDict m root)).all Jcs.serializable ↔ m.chunkHashes.length < 2 ^ 53 := by
  constructor
  · intro h
    have hfields : Json.allFields Jcs.serializable (manifestDict m root) = true := h
    have hcount : (Json.int m.chunkHashes.length).all Jcs.serializable = true := by
      simp only [manifestDict, Json.allFields, Json.allField, Bool.and_eq_true_iff] at hfields
      exact hfields.2.2.2.2.2.2.2.1.2
    exact of_decide_eq_true hcount
  · exact fun h =>
      manifestDict_all Json.ofString_plain rfl (decide_eq_true h) (decide_eq_true hsize)

/-- What `create_canonical_manifest_json` returns is the text of `json.dumps`. -/
theorem createCanonicalManifestJson_eq
    (hroot : computeMerkleRoot sha256 m.chunkHashes = some root)
    (hsize : m.totalSizeBytes.natAbs < 2 ^ 53) (hchunks : m.chunkHashes.length < 2 ^ 53) :
    createCanonicalManifestJson sha256 m =
      some (utf8 (String.ofList (Json.obj (manifestDict m root)).text)) := by
  have hdumps : (Json.obj (manifestDict m root)).all Json.writable :=
    manifestDict_all (fun _ => rfl) rfl (decide_eq_true (short_of_natAbs_lt hchunks))
      (decide_eq_true (short_of_natAbs_lt hsize))
  rw [createCanonicalManifestJson, hroot, Option.bind_eq_bind, Option.bind_some,
    sortKeys_manifestDict, Json.dumps, if_pos hdumps]
  rfl

/-- The canonical text has been written without an escape that RFC 8785 forbids. -/
theorem texts_of_writesJcs (hhashes : ∀ x ∈ m.chunkHashes, bytesFromHex x ≠ none)
    (hsize : m.totalSizeBytes.natAbs < 2 ^ 53) (h : WritesJcs sha256 m) :
    (∀ s ∈ m.texts, AsciiText s) ∧ m.chunkHashes.length < 2 ^ 53 := by
  obtain ⟨root, text, hroot, htext, hbytes⟩ := h
  unfold Jcs.serialize at htext
  split_ifs at htext with hserial
  have hchunks := (serializable_manifestDict hsize).1 hserial
  rw [sorted_manifestDict] at htext
  rw [createCanonicalManifestJson_eq hroot hsize hchunks, ← Option.some.inj htext] at hbytes
  have hsame := String.ofList_injective (utf8_injective (Option.some.inj hbytes))
  have hascii := (Jcs.text_eq_iff (manifestDict_plain m root)).1 hsame
  exact ⟨(ascii_manifestDict hhashes hroot).1 hascii, hchunks⟩

/-- **The bytes of a manifest are those of RFC 8785 for ASCII alone.** -/
theorem writesJcs_iff (hhashes : ∀ x ∈ m.chunkHashes, bytesFromHex x ≠ none)
    (hsize : m.totalSizeBytes.natAbs < 2 ^ 53) :
    WritesJcs sha256 m ↔ (∀ s ∈ m.texts, AsciiText s) ∧ m.chunkHashes.length < 2 ^ 53 := by
  constructor
  · exact texts_of_writesJcs hhashes hsize
  · rintro ⟨htexts, hchunks⟩
    obtain ⟨root, hroot⟩ : ∃ root, computeMerkleRoot sha256 m.chunkHashes = some root :=
      exists_computeMerkleRoot hhashes
    have hascii := (ascii_manifestDict hhashes hroot).2 htexts
    refine ⟨root, (Json.obj (manifestDict m root)).text, hroot, ?_,
      createCanonicalManifestJson_eq hroot hsize hchunks⟩
    rw [Jcs.serialize, if_pos ((serializable_manifestDict hsize).2 hchunks), sorted_manifestDict,
      Jcs.text_of_ascii _ hascii]

theorem writesJcs_threeChunks : WritesJcs firstBytes threeChunksManifest ↔
    (∀ s ∈ threeChunksManifest.texts, AsciiText s) ∧
      threeChunksManifest.chunkHashes.length < 2 ^ 53 := by
  refine writesJcs_iff (fun x hx => ?_) (by decide)
  obtain ⟨raw, -, rfl⟩ := List.mem_map.1 hx
  simp

/-- A manifest of a database whose name has an accent. -/
def accentManifest : ManifestArgs where
  snapshotId := "snap-123"
  timestampIso := "2026-08-31T12:00:00Z"
  tipo := "DIARIO"
  source := "bóveda"
  chunkHashes := []
  totalSizeBytes := 0

/-- The accent is escaped, which RFC 8785 forbids. -/
theorem not_writesJcs_accent : ¬ ∀ sha256 : Bytes → Bytes, ∀ m : ManifestArgs,
    (∀ x ∈ m.chunkHashes, IsHexDigest x) → 0 ≤ m.totalSizeBytes →
    m.totalSizeBytes < 2 ^ 53 → WritesJcs sha256 m := by
  intro h
  have hwrites := h firstBytes accentManifest (by decide) (by decide) (by decide)
  obtain ⟨htexts, -⟩ := texts_of_writesJcs (by decide) (by decide) hwrites
  exact absurd (htexts "bóveda" (by decide)) (by decide)

end Manifest
end Boveda

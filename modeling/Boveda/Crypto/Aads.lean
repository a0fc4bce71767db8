/-
# The three additional data

`create_aad`, `create_invariant_aad` and `create_tenant_aad` of
`src/boveda/crypto.py`.  The first stands on a header of 26 bytes, the other two on
one of 30, and the id follows without a separator.

The version tells the two headers apart, their widths where the id begins, and the
id is what is left: the bytes determine the call (`aad_determines`).

| bytes | field of `create_chunk_header_v2` |
| --- | --- |
| 0–4 | magic, `BVPM` |
| 4–6 | version, 2 |
| 6–10 | `chunk_seq` |
| 10–14 | `raw_len` |
| 14–18 | `ciphertext_len` |
| 18–30 | nonce |
-/

import Boveda.Crypto.Chunk

namespace Boveda
namespace Aads

open Lib Crypto

/-- `create_chunk_header_v2`; `none` is the `struct.error` of a number that does not
fit its field. -/
def createChunkHeaderV2 (chunkSeq : ℕ) (nonce : Bytes) (rawLen ciphertextLen : ℕ) : Option Bytes :=
  if chunkSeq < 2 ^ 32 ∧ rawLen < 2 ^ 32 ∧ ciphertextLen < 2 ^ 32 then
    some (magic ++ (BigEndian.encode 2 2 ++ (BigEndian.encode 4 chunkSeq ++
      (BigEndian.encode 4 rawLen ++ (BigEndian.encode 4 ciphertextLen ++ pack12s nonce)))))
  else none

/-- `create_invariant_aad`. -/
def createInvariantAad (header : Bytes) : Bytes := header

/-- `create_tenant_aad`. -/
def createTenantAad (header : Bytes) (tenantId : String) : Bytes := header ++ utf8 tenantId

/-- The two bytes of the version. -/
def versionField (header : Bytes) : Bytes := (header.drop 4).take 2

/-! ### The calls -/

/-- A call that makes an AAD, with the arguments of its header. -/
inductive AadCall
  | aad (chunkSeq : ℕ) (nonce : Bytes) (ciphertextLen : ℕ) (snapshotId : String)
  | invariantAad (chunkSeq : ℕ) (nonce : Bytes) (rawLen ciphertextLen : ℕ)
  | tenantAad (chunkSeq : ℕ) (nonce : Bytes) (rawLen ciphertextLen : ℕ) (tenantId : String)

namespace AadCall

/-- The AAD, `none` when the header is not made. -/
def bytes : AadCall → Option Bytes
  | aad chunkSeq nonce ciphertextLen snapshotId =>
    (createChunkHeader chunkSeq nonce ciphertextLen).map fun h => createAad h snapshotId
  | invariantAad chunkSeq nonce rawLen ciphertextLen =>
    (createChunkHeaderV2 chunkSeq nonce rawLen ciphertextLen).map createInvariantAad
  | tenantAad chunkSeq nonce rawLen ciphertextLen tenantId =>
    (createChunkHeaderV2 chunkSeq nonce rawLen ciphertextLen).map fun g =>
      createTenantAad g tenantId

/-- The nonce. -/
def nonce : AadCall → Bytes
  | aad _ nonce _ _ | invariantAad _ nonce _ _ | tenantAad _ nonce _ _ _ => nonce

/-- A tenant has a name. -/
def Named : AadCall → Prop
  | tenantAad _ _ _ _ tenantId => tenantId ≠ ""
  | _ => True

/-- The version of the header that a call makes. -/
def version : AadCall → ℕ
  | aad .. => 1
  | invariantAad .. | tenantAad .. => 2

end AadCall

/-! ### The headers -/

variable {chunkSeq chunkSeq' rawLen rawLen' ciphertextLen ciphertextLen' : ℕ}
  {nonce nonce' header : Bytes}

theorem length_createChunkHeaderV2
    (h : createChunkHeaderV2 chunkSeq nonce rawLen ciphertextLen = some header) :
    header.length = 30 := by
  unfold createChunkHeaderV2 at h
  split_ifs at h
  obtain rfl := Option.some.inj h
  simp [magic, length_pack12s]

/-- A header of version 1 determines its fields. -/
theorem createChunkHeader_inj (hn : nonce.length = 12) (hn' : nonce'.length = 12)
    (h : createChunkHeader chunkSeq nonce ciphertextLen = some header)
    (h' : createChunkHeader chunkSeq' nonce' ciphertextLen' = some header) :
    chunkSeq = chunkSeq' ∧ nonce = nonce' ∧ ciphertextLen = ciphertextLen' := by
  have hparse := (parse_createChunkHeader h hn).symm.trans (parse_createChunkHeader h' hn')
  simpa using hparse

/-- A header of version 2 determines its fields. -/
theorem createChunkHeaderV2_inj (hn : nonce.length = 12) (hn' : nonce'.length = 12)
    (h : createChunkHeaderV2 chunkSeq nonce rawLen ciphertextLen = some header)
    (h' : createChunkHeaderV2 chunkSeq' nonce' rawLen' ciphertextLen' = some header) :
    chunkSeq = chunkSeq' ∧ nonce = nonce' ∧ rawLen = rawLen' ∧
      ciphertextLen = ciphertextLen' := by
  unfold createChunkHeaderV2 at h h'
  split_ifs at h h' with hfit hfit'
  obtain ⟨hseq, hraw, hct⟩ := hfit
  obtain ⟨hseq', hraw', hct'⟩ := hfit'
  have heq := (Option.some.inj h).trans (Option.some.inj h').symm
  rw [pack12s_of_length hn, pack12s_of_length hn'] at heq
  have hwidth (a b : ℕ) : (BigEndian.encode 4 a).length = (BigEndian.encode 4 b).length := by
    rw [BigEndian.length_encode, BigEndian.length_encode]
  -- the fields, one after the other
  have hbody := List.append_cancel_left (List.append_cancel_left heq)
  obtain ⟨hseqs, hbody⟩ := List.append_inj hbody (hwidth ..)
  obtain ⟨hraws, hbody⟩ := List.append_inj hbody (hwidth ..)
  obtain ⟨hcts, hnonces⟩ := List.append_inj hbody (hwidth ..)
  exact ⟨BigEndian.encode_inj hseq hseq' hseqs, hnonces, BigEndian.encode_inj hraw hraw' hraws,
    BigEndian.encode_inj hct hct' hcts⟩

theorem versionField_v1 (h : createChunkHeader chunkSeq nonce ciphertextLen = some header) :
    versionField header = BigEndian.encode 2 1 := by
  unfold createChunkHeader at h
  split_ifs at h
  obtain rfl := Option.some.inj h
  rw [versionField, List.drop_left' (show magic.length = 4 from rfl),
    List.take_left' (BigEndian.length_encode 2 1)]

theorem versionField_v2
    (h : createChunkHeaderV2 chunkSeq nonce rawLen ciphertextLen = some header) :
    versionField header = BigEndian.encode 2 2 := by
  unfold createChunkHeaderV2 at h
  split_ifs at h
  obtain rfl := Option.some.inj h
  rw [versionField, List.drop_left' (show magic.length = 4 from rfl),
    List.take_left' (BigEndian.length_encode 2 2)]

/-- What follows a header leaves its version where it is. -/
theorem versionField_append (h : 6 ≤ header.length) (rest : Bytes) :
    versionField (header ++ rest) = versionField header := by
  have hdrop : 2 ≤ (header.drop 4).length := by
    rw [List.length_drop]
    omega
  rw [versionField, versionField, List.drop_append_of_le_length (by omega),
    List.take_append_of_le_length hdrop]

/-! ### The data -/

namespace AadCall

variable {c : AadCall} {bs : Bytes}

/-- The version stands in the AAD. -/
theorem versionField_bytes (h : c.bytes = some bs) :
    versionField bs = BigEndian.encode 2 c.version := by
  cases c with
  | aad chunkSeq nonce ciphertextLen snapshotId =>
    obtain ⟨header, hheader, rfl⟩ := Option.map_eq_some_iff.1 h
    have hlen := length_createChunkHeader hheader
    exact (versionField_append (by omega) _).trans (versionField_v1 hheader)
  | invariantAad chunkSeq nonce rawLen ciphertextLen =>
    obtain ⟨header, hheader, rfl⟩ := Option.map_eq_some_iff.1 h
    exact versionField_v2 hheader
  | tenantAad chunkSeq nonce rawLen ciphertextLen tenantId =>
    obtain ⟨header, hheader, rfl⟩ := Option.map_eq_some_iff.1 h
    have hlen := length_createChunkHeaderV2 hheader
    exact (versionField_append (by omega) _).trans (versionField_v2 hheader)

theorem version_eq {c' : AadCall} (h : c.bytes = some bs) (h' : c'.bytes = some bs) :
    c.version = c'.version := by
  have hfit (d : AadCall) : d.version < 256 ^ 2 := by cases d <;> simp [version]
  exact BigEndian.encode_inj (hfit c) (hfit c')
    ((versionField_bytes h).symm.trans (versionField_bytes h'))

/-- An AAD of a tenant with a name is longer than a header. -/
theorem invariantAad_ne_tenantAad {tenantId : String} (hne : tenantId ≠ "")
    (h : (invariantAad chunkSeq nonce rawLen ciphertextLen).bytes = some bs)
    (h' : (tenantAad chunkSeq' nonce' rawLen' ciphertextLen' tenantId).bytes = some bs) :
    False := by
  obtain ⟨header, hheader, rfl⟩ := Option.map_eq_some_iff.1 h
  obtain ⟨header', hheader', heq⟩ := Option.map_eq_some_iff.1 h'
  have hlen := congrArg List.length heq
  rw [createTenantAad, createInvariantAad, List.length_append, length_createChunkHeaderV2 hheader,
    length_createChunkHeaderV2 hheader'] at hlen
  have hnil : utf8 tenantId = utf8 "" := List.eq_nil_of_length_eq_zero (by omega)
  exact hne (utf8_injective hnil)

end AadCall

/-- **An AAD determines the call that made it**: the function, the fields of the header
and the id. -/
theorem aad_determines {c c' : AadCall} {bs : Bytes} (hn : c.nonce.length = 12)
    (hn' : c'.nonce.length = 12) (hnamed : c.Named) (hnamed' : c'.Named)
    (h : c.bytes = some bs) (h' : c'.bytes = some bs) : c = c' := by
  have hversion := AadCall.version_eq h h'
  cases c with
  | aad chunkSeq nonce ciphertextLen snapshotId =>
    cases c' with
    | aad chunkSeq' nonce' ciphertextLen' snapshotId' =>
      obtain ⟨header, hheader, rfl⟩ := Option.map_eq_some_iff.1 h
      obtain ⟨header', hheader', heq⟩ := Option.map_eq_some_iff.1 h'
      have hlen := (length_createChunkHeader hheader).trans (length_createChunkHeader hheader').symm
      obtain ⟨rfl, rfl⟩ := createAad_inj hlen heq.symm
      obtain ⟨rfl, rfl, rfl⟩ := createChunkHeader_inj hn hn' hheader hheader'
      rfl
    | invariantAad => cases hversion
    | tenantAad => cases hversion
  | invariantAad chunkSeq nonce rawLen ciphertextLen =>
    cases c' with
    | aad => cases hversion
    | invariantAad chunkSeq' nonce' rawLen' ciphertextLen' =>
      obtain ⟨header, hheader, rfl⟩ := Option.map_eq_some_iff.1 h
      obtain ⟨header', hheader', rfl⟩ := Option.map_eq_some_iff.1 h'
      obtain ⟨rfl, rfl, rfl, rfl⟩ := createChunkHeaderV2_inj hn hn' hheader hheader'
      rfl
    | tenantAad => exact (AadCall.invariantAad_ne_tenantAad hnamed' h h').elim
  | tenantAad chunkSeq nonce rawLen ciphertextLen tenantId =>
    cases c' with
    | aad => cases hversion
    | invariantAad => exact (AadCall.invariantAad_ne_tenantAad hnamed h' h).elim
    | tenantAad chunkSeq' nonce' rawLen' ciphertextLen' tenantId' =>
      obtain ⟨header, hheader, rfl⟩ := Option.map_eq_some_iff.1 h
      obtain ⟨header', hheader', heq⟩ := Option.map_eq_some_iff.1 h'
      have hlen :=
        (length_createChunkHeaderV2 hheader).trans (length_createChunkHeaderV2 hheader').symm
      obtain ⟨rfl, rfl⟩ := createAad_inj hlen heq.symm
      obtain ⟨rfl, rfl, rfl, rfl⟩ := createChunkHeaderV2_inj hn hn' hheader hheader'
      rfl

/-- A call for a tenant. -/
def tenantCall : AadCall := .tenantAad 1 (List.replicate 12 7) 10 26 "pyme"

theorem aad_determines_pyme : ∃ bs, tenantCall.bytes = some bs ∧
    tenantCall = .tenantAad 1 (List.replicate 12 7) 10 26 ("py" ++ "me") :=
  ⟨_, rfl, aad_determines (c := tenantCall) rfl rfl (show "pyme" ≠ "" by decide)
    (show "py" ++ "me" ≠ "" by decide) rfl rfl⟩

end Aads
end Boveda

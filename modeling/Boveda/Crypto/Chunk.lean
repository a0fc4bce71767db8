/-
# The binary format of a chunk

`src/boveda/crypto.py`.  What is stored of a chunk is a header of 26 bytes and
the ciphertext with its tag.  The AAD of the ciphertext is the header and the id
of the snapshot, so that a payload is good for one place of one snapshot.

`parse_chunk_header` accepts what `create_chunk_header` makes and nothing else
(`parse_accepts_image`).

| bytes | field |
| --- | --- |
| 0–4 | magic, `BVPM` |
| 4–6 | version, 1 |
| 6–10 | `chunk_seq` |
| 10–22 | nonce |
| 22–26 | `ciphertext_len` |
-/

import Boveda.Crypto.Envelope

namespace Boveda
namespace Crypto

open Lib

/-! ### Nonces -/

/-- `NonceGenerator`, with the prefix that it has drawn. -/
structure NonceGenerator where
  sessionPrefix : Bytes
  counter : ℕ := 0
  length_sessionPrefix : sessionPrefix.length = 4

/-- `next`: the nonce, and the generator after it; `none` is `OverflowError`. -/
def NonceGenerator.next (g : NonceGenerator) : Option (Bytes × NonceGenerator) :=
  if 2 ^ 64 ≤ g.counter then none
  else some (g.sessionPrefix ++ BigEndian.encode 8 g.counter, { g with counter := g.counter + 1 })

theorem NonceGenerator.length_next {g g' : NonceGenerator} {nonce : Bytes}
    (h : g.next = some (nonce, g')) : nonce.length = 12 := by
  unfold next at h
  split_ifs at h
  obtain rfl := (Prod.mk.inj (Option.some.inj h)).1
  simp [g.length_sessionPrefix]

theorem NonceGenerator.next_some {g g' : NonceGenerator} {nonce : Bytes}
    (h : g.next = some (nonce, g')) : g.counter < 2 ^ 64 ∧
      nonce = g.sessionPrefix ++ BigEndian.encode 8 g.counter ∧
      g' = { g with counter := g.counter + 1 } := by
  unfold next at h
  split_ifs at h with hlt
  obtain ⟨rfl, rfl⟩ := Prod.mk.inj (Option.some.inj h)
  exact ⟨Nat.not_le.1 hlt, rfl, rfl⟩

/-! ### The header -/

/-- `b"BVPM"`. -/
def magic : Bytes := [0x42, 0x56, 0x50, 0x4D]

/-- The format `12s`: cut or padded with zeros. -/
def pack12s (bs : Bytes) : Bytes := (bs ++ List.replicate 12 0).take 12

/-- `create_chunk_header`; `none` is the `struct.error` of a number that does not
fit its field. -/
def createChunkHeader (chunkSeq : ℕ) (nonce : Bytes) (ciphertextLen : ℕ) : Option Bytes :=
  if chunkSeq < 2 ^ 32 ∧ ciphertextLen < 2 ^ 32 then
    some (magic ++ (BigEndian.encode 2 1 ++ (BigEndian.encode 4 chunkSeq ++
      (pack12s nonce ++ BigEndian.encode 4 ciphertextLen))))
  else none

/-- `parse_chunk_header`, with the text of its `ValueError`. -/
def parseChunkHeader (header : Bytes) : Except String (ℕ × Bytes × ℕ) :=
  if header.length ≠ 26 then .error "Invalid header length"
  else if header.take 4 ≠ magic then .error "Invalid magic bytes"
  else if BigEndian.decode ((header.drop 4).take 2) ≠ 1 then .error "Unsupported version"
  else .ok (BigEndian.decode ((header.drop 6).take 4), (header.drop 10).take 12,
    BigEndian.decode ((header.drop 22).take 4))

/-- `create_aad`. -/
def createAad (header : Bytes) (snapshotId : String) : Bytes := header ++ utf8 snapshotId

theorem length_pack12s (bs : Bytes) : (pack12s bs).length = 12 := by
  simp [pack12s]

theorem pack12s_of_length {bs : Bytes} (h : bs.length = 12) : pack12s bs = bs := by
  rw [pack12s, ← h, List.take_left]

variable {chunkSeq ciphertextLen : ℕ} {nonce header : Bytes}

theorem length_createChunkHeader
    (h : createChunkHeader chunkSeq nonce ciphertextLen = some header) : header.length = 26 := by
  unfold createChunkHeader at h
  split_ifs at h
  obtain rfl := Option.some.inj h
  simp [magic, length_pack12s]

/-- **The header round trip.**  What `create_chunk_header` has packed,
`parse_chunk_header` reads. -/
theorem parse_createChunkHeader
    (h : createChunkHeader chunkSeq nonce ciphertextLen = some header) (hn : nonce.length = 12) :
    parseChunkHeader header = .ok (chunkSeq, nonce, ciphertextLen) := by
  have hlen := length_createChunkHeader h
  unfold createChunkHeader at h
  split_ifs at h with hfit
  obtain rfl := Option.some.inj h
  rw [pack12s_of_length hn] at hlen ⊢
  have hver : BigEndian.decode (BigEndian.encode 2 1) = 1 := BigEndian.decode_encode (by decide)
  have hseq : BigEndian.decode (BigEndian.encode 4 chunkSeq) = chunkSeq :=
    BigEndian.decode_encode hfit.1
  have hct : BigEndian.decode (BigEndian.encode 4 ciphertextLen) = ciphertextLen :=
    BigEndian.decode_encode hfit.2
  -- the fields, one after the other
  generalize hr₃ : nonce ++ BigEndian.encode 4 ciphertextLen = r₃ at hlen ⊢
  generalize hr₂ : BigEndian.encode 4 chunkSeq ++ r₃ = r₂ at hlen ⊢
  generalize hr₁ : BigEndian.encode 2 1 ++ r₂ = r₁ at hlen ⊢
  have h0 : (magic ++ r₁).take 4 = magic := List.take_left' rfl
  have h4 : (magic ++ r₁).drop 4 = r₁ := List.drop_left' rfl
  have h6 : (magic ++ r₁).drop 6 = r₂ := by
    rw [← List.drop_drop (i := 2) (j := 4), h4, ← hr₁,
      List.drop_left' (BigEndian.length_encode 2 1)]
  have h10 : (magic ++ r₁).drop 10 = r₃ := by
    rw [← List.drop_drop (i := 4) (j := 6), h6, ← hr₂,
      List.drop_left' (BigEndian.length_encode 4 _)]
  have h22 : (magic ++ r₁).drop 22 = BigEndian.encode 4 ciphertextLen := by
    rw [← List.drop_drop (i := 12) (j := 10), h10, ← hr₃, List.drop_left' hn]
  have ht₁ : r₁.take 2 = BigEndian.encode 2 1 := hr₁ ▸ List.take_left' (BigEndian.length_encode 2 1)
  have ht₂ : r₂.take 4 = BigEndian.encode 4 chunkSeq :=
    hr₂ ▸ List.take_left' (BigEndian.length_encode 4 _)
  have ht₃ : r₃.take 12 = nonce := hr₃ ▸ List.take_left' hn
  have ht₄ : (BigEndian.encode 4 ciphertextLen).take 4 = BigEndian.encode 4 ciphertextLen :=
    List.take_of_length_le (BigEndian.length_encode 4 _).le
  unfold parseChunkHeader
  rw [if_neg (not_not.2 hlen), if_neg (not_not.2 h0), h4, h6, h10, h22, ht₁, ht₂,
    ht₃, ht₄, hver, hseq, hct, if_neg (not_not.2 rfl)]

/-- The texts of the `ValueError`s. -/
theorem parseChunkHeader_error {text : String} (h : parseChunkHeader header = .error text) :
    text ∈ ["Invalid header length", "Invalid magic bytes", "Unsupported version"] := by
  unfold parseChunkHeader at h
  split_ifs at h
  all_goals
    obtain rfl := Except.error.inj h
    decide

/-- The number of a field is packed to the bytes of the field. -/
theorem encode_decode_field (hlen : header.length = 26) {i w : ℕ} (hw : i + w ≤ 26) :
    BigEndian.encode w (BigEndian.decode ((header.drop i).take w)) = (header.drop i).take w := by
  have hwidth : ((header.drop i).take w).length = w := by
    rw [List.length_take, List.length_drop]
    omega
  have hround := BigEndian.encode_decode ((header.drop i).take w)
  rwa [hwidth] at hround

/-- A field that is a number fits its width. -/
theorem decode_field_lt (i w : ℕ) : BigEndian.decode ((header.drop i).take w) < 256 ^ w := by
  have hwidth : ((header.drop i).take w).length ≤ w := List.length_take_le w _
  exact (BigEndian.decode_lt _).trans_le (Nat.pow_le_pow_right (by decide) hwidth)

/-- What `parse_chunk_header` has read, `create_chunk_header` packs to the same bytes. -/
theorem create_parseChunkHeader
    (h : parseChunkHeader header = .ok (chunkSeq, nonce, ciphertextLen)) :
    createChunkHeader chunkSeq nonce ciphertextLen = some header := by
  unfold parseChunkHeader at h
  split_ifs at h with hlen hmagic hver
  rw [not_not] at hlen hmagic hver
  obtain ⟨rfl, hrest⟩ := Prod.mk.inj (Except.ok.inj h)
  obtain ⟨rfl, rfl⟩ := Prod.mk.inj hrest
  have hversion : BigEndian.encode 2 1 = (header.drop 4).take 2 := by
    rw [← hver, encode_decode_field hlen (by decide)]
  have hnonce : ((header.drop 10).take 12).length = 12 := by
    rw [List.length_take, List.length_drop]
    omega
  have hlast : (header.drop 22).take 4 = header.drop 22 := by
    refine List.take_of_length_le ?_
    rw [List.length_drop]
    omega
  -- the fields, one after the other, are the header
  have hsplit (i w : ℕ) : (header.drop i).take w ++ header.drop (i + w) = header.drop i := by
    rw [← List.drop_drop, List.take_append_drop]
  unfold createChunkHeader
  rw [if_pos ⟨decode_field_lt 6 4, decode_field_lt 22 4⟩, pack12s_of_length hnonce, hversion,
    encode_decode_field hlen (by decide), encode_decode_field hlen (by decide), hlast,
    hsplit 10 12, hsplit 6 4, hsplit 4 2, ← hmagic, List.take_append_drop]

/-- **A header is refused exactly if `create_chunk_header` makes it from nothing.** -/
theorem parseChunkHeader_error_iff :
    (∃ text, parseChunkHeader header = .error text) ↔
      ¬ ∃ chunkSeq nonce ciphertextLen,
        createChunkHeader chunkSeq nonce ciphertextLen = some header := by
  constructor
  · rintro ⟨text, htext⟩ ⟨chunkSeq, nonce, ciphertextLen, hcreate⟩
    -- a nonce of another length is packed as one of twelve bytes
    have hpack : createChunkHeader chunkSeq (pack12s nonce) ciphertextLen = some header := by
      rw [← hcreate, createChunkHeader, createChunkHeader,
        pack12s_of_length (length_pack12s nonce)]
    rw [parse_createChunkHeader hpack (length_pack12s nonce)] at htext
    cases htext
  · intro hnone
    match hparse : parseChunkHeader header with
    | .error text => exact ⟨text, rfl⟩
    | .ok (chunkSeq, nonce, ciphertextLen) =>
      exact absurd ⟨chunkSeq, nonce, ciphertextLen, create_parseChunkHeader hparse⟩ hnone

/-- **`parse_chunk_header` accepts the image of `create_chunk_header`**: each undoes the
other, and every other byte string is refused with one of the three texts. -/
theorem parse_accepts_image :
    (∀ chunkSeq nonce ciphertextLen, chunkSeq < 2 ^ 32 → ciphertextLen < 2 ^ 32 →
        nonce.length = 12 → ∃ header, createChunkHeader chunkSeq nonce ciphertextLen = some header ∧
          parseChunkHeader header = .ok (chunkSeq, nonce, ciphertextLen)) ∧
      (∀ header chunkSeq nonce ciphertextLen,
        parseChunkHeader header = .ok (chunkSeq, nonce, ciphertextLen) →
          createChunkHeader chunkSeq nonce ciphertextLen = some header) ∧
      ∀ header, (¬ ∃ chunkSeq nonce ciphertextLen,
          createChunkHeader chunkSeq nonce ciphertextLen = some header) →
        ∃ text ∈ ["Invalid header length", "Invalid magic bytes", "Unsupported version"],
          parseChunkHeader header = .error text := by
  refine ⟨fun chunkSeq nonce ciphertextLen hseq hct hn => ?_,
    fun header chunkSeq nonce ciphertextLen => create_parseChunkHeader, fun header hnone => ?_⟩
  · obtain ⟨header, hcreate⟩ : ∃ header,
        createChunkHeader chunkSeq nonce ciphertextLen = some header := ⟨_, if_pos ⟨hseq, hct⟩⟩
    exact ⟨header, hcreate, parse_createChunkHeader hcreate hn⟩
  · obtain ⟨text, htext⟩ := parseChunkHeader_error_iff.2 hnone
    exact ⟨text, parseChunkHeader_error htext, htext⟩

/-- The header of a first chunk, its bytes, and no bytes. -/
theorem parse_accepts_image_firstChunk :
    (∃ header, createChunkHeader 0 (List.replicate 12 7) 1024 = some header ∧
        parseChunkHeader header = .ok (0, List.replicate 12 7, 1024)) ∧
      createChunkHeader 0 (List.replicate 12 7) 1024 =
        some (magic ++ [0, 1, 0, 0, 0, 0] ++ List.replicate 12 7 ++ [0, 0, 4, 0]) ∧
      ∃ text ∈ ["Invalid header length", "Invalid magic bytes", "Unsupported version"],
        parseChunkHeader [] = .error text :=
  ⟨parse_accepts_image.1 0 (List.replicate 12 7) 1024 (by decide) (by decide) rfl,
    parse_accepts_image.2.1 _ 0 (List.replicate 12 7) 1024 (by decide),
    parse_accepts_image.2.2 [] (parseChunkHeader_error_iff.1 ⟨_, rfl⟩)⟩

/-- A header and an id are recovered from the AAD they make. -/
theorem createAad_inj {header' : Bytes} {id id' : String} (hl : header.length = header'.length)
    (h : createAad header id = createAad header' id') : header = header' ∧ id = id' := by
  obtain ⟨hh, hid⟩ := List.append_inj h hl
  exact ⟨hh, utf8_injective hid⟩

end Crypto
end Boveda

/-
# Sealing a chunk

The body of the loop of `compress_encrypt_upload` (`src/boveda/engine.py`): a
chunk is compressed, encrypted under the DEK of its snapshot with a header that
says which chunk it is, and hashed.  The libraries are the parameter
`Primitives`.
-/

import Boveda.Crypto.Chunk

namespace Boveda
namespace Pipeline

open Lib Crypto

/-- The libraries that a backup uses: AES-GCM, `hashlib.sha256(…).hexdigest()` and
`ZstdCompressor.compress`. -/
structure Primitives where
  aead : Aead
  sha256 : Bytes → String
  compress : Bytes → Bytes

/-- The arguments of `upload_callback`. -/
structure Sealed where
  seq : ℕ
  payload : Bytes
  hash : String
  deriving DecidableEq, Repr

section

variable (P : Primitives) (dek : Bytes) (snapshotId : String)

/-- The body of the loop, from `cctx.compress` to `chunk_hash`; `none` when a
number does not fit its field. -/
def sealChunk (chunkSeq : ℕ) (nonceGen : NonceGenerator) (chunk : Bytes) :
    Option (Sealed × NonceGenerator) := do
  let compressed := P.compress chunk
  let (nonce, nonceGen) ← nonceGen.next
  let header ← createChunkHeader chunkSeq nonce (compressed.length + 16)
  let aad := createAad header snapshotId
  let ciphertext := P.aead.encrypt dek nonce compressed aad
  let finalPayload := header ++ ciphertext
  return (⟨chunkSeq, finalPayload, P.sha256 finalPayload⟩, nonceGen)

/-- The loop: the chunks are numbered as they come. -/
def sealAll : ℕ → NonceGenerator → List Bytes → Option (List Sealed)
  | _, _, [] => some []
  | chunkSeq, nonceGen, chunk :: chunks => do
    let (block, nonceGen) ← sealChunk P dek snapshotId chunkSeq nonceGen chunk
    let blocks ← sealAll (chunkSeq + 1) nonceGen chunks
    return block :: blocks

/-- The block is the sealed form of the chunk at its place. -/
def Seals (chunkSeq : ℕ) (chunk : Bytes) (block : Sealed) : Prop :=
  ∃ nonce header, nonce.length = 12 ∧
    createChunkHeader chunkSeq nonce ((P.compress chunk).length + 16) = some header ∧
    block.seq = chunkSeq ∧ block.hash = P.sha256 block.payload ∧
    block.payload =
      header ++ P.aead.encrypt dek nonce (P.compress chunk) (createAad header snapshotId)

variable {P dek snapshotId}

theorem seals_sealChunk {chunkSeq : ℕ} {nonceGen nonceGen' : NonceGenerator} {chunk : Bytes}
    {block : Sealed}
    (h : sealChunk P dek snapshotId chunkSeq nonceGen chunk = some (block, nonceGen')) :
    Seals P dek snapshotId chunkSeq chunk block := by
  obtain ⟨⟨nonce, g⟩, hnonce, h⟩ := Option.bind_eq_some_iff.1 h
  obtain ⟨header, hheader, h⟩ := Option.bind_eq_some_iff.1 h
  obtain ⟨rfl, -⟩ := Prod.mk.inj (Option.some.inj h)
  exact ⟨nonce, header, NonceGenerator.length_next hnonce, hheader, rfl, rfl, rfl⟩

/-- **Every chunk of a stream is sealed at its own place.** -/
theorem seals_sealAll {chunkSeq : ℕ} {nonceGen : NonceGenerator} {chunks : List Bytes}
    {blocks : List Sealed}
    (h : sealAll P dek snapshotId chunkSeq nonceGen chunks = some blocks) :
    blocks.length = chunks.length ∧ ∀ i chunk block, chunks[i]? = some chunk →
      blocks[i]? = some block → Seals P dek snapshotId (chunkSeq + i) chunk block := by
  induction chunks generalizing chunkSeq nonceGen blocks with
  | nil =>
    obtain rfl := Option.some.inj h
    simp
  | cons c cs ih =>
    obtain ⟨⟨b, g⟩, hb, h⟩ := Option.bind_eq_some_iff.1 h
    obtain ⟨bs, hbs, h⟩ := Option.bind_eq_some_iff.1 h
    obtain rfl := Option.some.inj h
    obtain ⟨hlen, hseals⟩ := ih hbs
    refine ⟨congrArg Nat.succ hlen, fun i chunk block hc hblock => ?_⟩
    cases i with
    | zero =>
      obtain rfl := Option.some.inj hc
      obtain rfl := Option.some.inj hblock
      exact seals_sealChunk hb
    | succ i =>
      rw [← Nat.succ_add_eq_add_succ]
      exact hseals i chunk block hc hblock

/-- One round of the loop. -/
theorem sealAll_cons {chunkSeq : ℕ} {nonceGen nonceGen' : NonceGenerator} {chunk : Bytes}
    {block : Sealed}
    (h : sealChunk P dek snapshotId chunkSeq nonceGen chunk = some (block, nonceGen'))
    (chunks : List Bytes) : sealAll P dek snapshotId chunkSeq nonceGen (chunk :: chunks) =
      (sealAll P dek snapshotId (chunkSeq + 1) nonceGen' chunks).map (block :: ·) := by
  rw [sealAll, h, Option.map_eq_bind]
  rfl

/-- The blocks are numbered as the chunks. -/
theorem map_seq_sealAll {chunkSeq : ℕ} {nonceGen : NonceGenerator} {chunks : List Bytes}
    {blocks : List Sealed}
    (h : sealAll P dek snapshotId chunkSeq nonceGen chunks = some blocks) :
    blocks.map Sealed.seq = List.range' chunkSeq chunks.length := by
  induction chunks generalizing chunkSeq nonceGen blocks with
  | nil =>
    obtain rfl := Option.some.inj h
    rfl
  | cons c cs ih =>
    obtain ⟨⟨b, g⟩, hb, h⟩ := Option.bind_eq_some_iff.1 h
    obtain ⟨bs, hbs, h⟩ := Option.bind_eq_some_iff.1 h
    obtain rfl := Option.some.inj h
    obtain ⟨-, -, -, -, hseq, -⟩ := seals_sealChunk hb
    rw [List.map_cons, hseq, ih hbs, List.length_cons, List.range'_succ]

end

/-- Libraries for examples: AES-GCM in clear, a digest that is the text itself, and
no compression. -/
def clearPrimitives : Primitives where
  aead := clearAead
  sha256 bs := String.ofList (bs.map fun b => Char.ofNat b.toNat)
  compress := id

/-- The nonces of the examples. -/
def smallNonces : NonceGenerator := ⟨[0, 0, 0, 0], 0, rfl⟩

end Pipeline
end Boveda

/-
# Restoring what an adversary serves

The object store answers as it likes, and so do the hash, key and sequence
columns of the blocks; only the keys are out of reach.  The row of the snapshot is
the program's own: what it wraps is the DEK of the backup, under whatever KEK a
rotation has wrapped it last (`OpensToItsDek`).  AES-GCM is ideal: of what the store
answers, it accepts under the DEK of a backup only what has been encrypted under that
DEK (`Unforged`), which are the chunks of the backups with it (`Backup.Encrypts`).

Whatever is served, every `write` of a restore is the original chunk of the
block consumed (`restore_genuine`): the AAD ties a ciphertext to a header and a
snapshot, the header to a place, and the loop compares the place.
-/

import Boveda.Restore.Blocks

namespace Boveda
namespace Restore

open Lib Crypto Pipeline
open Catalog (Snapshot storageKeyOf)

/-- A backup that has been made: its chunks, and the blocks they were sealed to. -/
structure Backup (P : Primitives) where
  id : String
  dek : Bytes
  nonceGen : NonceGenerator
  chunks : List Bytes
  blocks : List Sealed
  sealAll_eq : sealAll P dek id 0 nonceGen chunks = some blocks

/-- The backups that have been made, under different ids. -/
abbrev History (P : Primitives) := Table (Backup P) Backup.id

variable {P : Primitives}

/-- The call `encrypt(nonce, data, aad)` that a backup has made for one of its
chunks, with its result. -/
def Backup.Encrypts (b : Backup P) (nonce aad ciphertext data : Bytes) : Prop :=
  ∃ i chunk block header, b.chunks[i]? = some chunk ∧ b.blocks[i]? = some block ∧
    createChunkHeader i nonce ((P.compress chunk).length + 16) = some header ∧
    nonce.length = 12 ∧ block.payload = header ++ ciphertext ∧
    aad = createAad header b.id ∧ data = P.compress chunk ∧
    ciphertext = P.aead.encrypt b.dek nonce data aad

/-- **No answer is forged.**  The nonce of an answer of the store is in its header,
its AAD is the header with the id of the snapshot; when it decrypts with these under
the DEK of the snapshot's backup, a backup with that DEK has encrypted it. -/
def Unforged (history : History P) (id : String) (download : ℕ → String → Except String Bytes) :
    Prop :=
  ∀ k key raw, download k key = .ok raw → ∀ b ∈ history.rows, b.id = id →
    ∀ cSeq nonce len data, parseChunkHeader (raw.take 26) = .ok (cSeq, nonce, len) →
      P.aead.decrypt b.dek nonce (raw.drop 26) (createAad (raw.take 26) id) = some data →
        ∃ b' ∈ history.rows, b'.dek = b.dek ∧
          b'.Encrypts nonce (createAad (raw.take 26) id) (raw.drop 26) data

/-- **A block sent back is no forgery**: with what its header says, a backup has
encrypted it. -/
theorem Backup.encrypts_of_mem_blocks (hA : P.aead.Correct) (b : Backup P) {block : Sealed}
    (hmem : block ∈ b.blocks) {cSeq : ℕ} {nonce : Bytes} {len : ℕ} {data : Bytes}
    (hparse : parseChunkHeader (block.payload.take 26) = .ok (cSeq, nonce, len))
    (hdec : P.aead.decrypt b.dek nonce (block.payload.drop 26)
      (createAad (block.payload.take 26) b.id) = some data) :
    b.Encrypts nonce (createAad (block.payload.take 26) b.id) (block.payload.drop 26) data := by
  obtain ⟨hlength, hseals⟩ := seals_sealAll b.sealAll_eq
  obtain ⟨i, hi⟩ := List.mem_iff_getElem?.1 hmem
  obtain ⟨chunk, hchunk⟩ : ∃ chunk, b.chunks[i]? = some chunk :=
    ⟨_, List.getElem?_eq_getElem (hlength ▸ (List.getElem?_eq_some_iff.1 hi).1)⟩
  obtain ⟨nonce', header, hn, hheader, -, -, hpayload⟩ := hseals i chunk block hchunk hi
  rw [Nat.zero_add] at hheader
  have hlen := length_createChunkHeader hheader
  have htake : block.payload.take 26 = header := by rw [hpayload, List.take_left' hlen]
  have hdrop : block.payload.drop 26 =
      P.aead.encrypt b.dek nonce' (P.compress chunk) (createAad header b.id) := by
    rw [hpayload, List.drop_left' hlen]
  rw [htake, parse_createChunkHeader hheader hn] at hparse
  -- The nonce of the header is the one the block has been encrypted with.
  obtain rfl : nonce' = nonce := congrArg (fun p => p.2.1) (Except.ok.inj hparse)
  rw [htake, hdrop] at hdec
  rw [htake, hdrop]
  obtain rfl : P.compress chunk = data := Option.some.inj ((hA ..).symm.trans hdec)
  exact ⟨i, chunk, block, header, hchunk, hi, hheader, hn, hpayload, rfl, rfl, rfl⟩

/-- What the row of a snapshot opens to under a KEK, if it opens, is the DEK of the
snapshot's backup. -/
def OpensToItsDek (history : History P) (kek : Bytes) (snapshot : Snapshot) : Prop :=
  ∀ dek, unwrapDek P.aead kek snapshot.encryptedDek snapshot.dekNonce snapshot.dekTag
    snapshot.id = some dek → ∃ b ∈ history.rows, b.id = snapshot.id ∧ b.dek = dek

/-- The original chunk with a number, of the backup with an id. -/
def originalChunk (history : History P) (id : String) (seq : ℤ) : Option Bytes :=
  (history.find? id).bind fun b => if seq < 0 then none else b.chunks[seq.toNat]?

/-- **What passes the checks is an original chunk** of the very snapshot, and of
the very place. -/
theorem checkBloque_genuine {history : History P} {b : Backup P} (hb : b ∈ history.rows)
    {download : ℕ → String → Except String Bytes} (hanswers : Unforged history b.id download)
    {bloque : Bloque} {k : ℕ} {key : String} {raw plaintext : Bytes}
    (hraw : download k key = .ok raw)
    (h : checkBloque P b.dek b.id bloque raw = .ok plaintext) :
    ∃ chunk, plaintext = P.compress chunk ∧
      originalChunk history b.id bloque.chunkSeq = some chunk := by
  obtain ⟨cSeq, nonce, len, hlen, -, hparse, hseq, hdec⟩ := checkBloque_ok h
  obtain ⟨b', hb', -, i, chunk, block, header, hchunk, -, hheader, hn, -, haad, hdata, -⟩ :=
    hanswers k key raw hraw b hb rfl cSeq nonce len plaintext hparse hdec
  have htake : (raw.take 26).length = header.length := by
    rw [length_createChunkHeader hheader, List.length_take]
    omega
  obtain ⟨heq, hid⟩ := createAad_inj htake haad
  rw [heq, parse_createChunkHeader hheader hn] at hparse
  have hi : i = cSeq := congrArg Prod.fst (Except.ok.inj hparse)
  refine ⟨chunk, hdata, ?_⟩
  rw [originalChunk, hid, Table.find?_of_mem hb', ← hseq, ← hi]
  simpa using hchunk

/-- At every point, what has been written is made up of the original chunks of
the blocks consumed so far, the first ones of the list. -/
def Genuine (history : History P) (id : String) (bloques : List Bloque) (writes : List Bytes) :
    Prop :=
  ∃ (consumed : List Bloque) (originals : List Bytes), consumed <+: bloques ∧
    consumed.map (fun bloque => originalChunk history id bloque.chunkSeq) = originals.map some ∧
    ∀ k, (writes.take k).flatten = (originals.take k).flatten

theorem genuine_nil (history : History P) (id : String) (bloques : List Bloque) :
    Genuine history id bloques [] :=
  ⟨[], [], List.nil_prefix, rfl, fun _ => rfl⟩

/-- Writes that are, one by one, the original chunks of the blocks consumed. -/
theorem genuine_of_forall₂ {history : History P} {id : String} {bloques consumed : List Bloque}
    {writes : List Bytes} (hpre : consumed <+: bloques)
    (hall : List.Forall₂ (fun bloque chunk =>
      originalChunk history id bloque.chunkSeq = some chunk) consumed writes) :
    Genuine history id bloques writes := by
  refine ⟨consumed, writes, hpre, ?_, fun _ => rfl⟩
  rw [← List.forall₂_eq_eq_eq, List.forall₂_map_left_iff, List.forall₂_map_right_iff]
  exact hall

/-- A `flush` that writes nothing. -/
theorem Genuine.append_nil {history : History P} {id : String} {bloques : List Bloque}
    {writes : List Bytes} (h : Genuine history id bloques writes) :
    Genuine history id bloques (writes ++ [[]]) := by
  obtain ⟨consumed, originals, hpre, horig, hk⟩ := h
  refine ⟨consumed, originals, hpre, horig, fun k => ?_⟩
  have hflush : ∀ j, (([[]] : List Bytes).take j).flatten = [] := fun j => by cases j <;> simp
  rw [List.take_append, List.flatten_append, hflush, List.append_nil, hk]

/-- **Nothing foreign is ever written.**  Whatever the object store answers and
whatever the columns of the blocks say, at every point of a restore, which may
yet return or raise, the output is what the original chunks of the blocks
consumed so far make up: each consumed block, with `chunk_seq` `i`, has
contributed chunk `i` of the backup of this snapshot. -/
theorem restore_genuine (P : Primitives) (Z : StreamWriter) (history : History P) (kek : Bytes)
    (hZ : Z.WritesFrames P.compress) (snapshot : Snapshot)
    (hrow : OpensToItsDek history kek snapshot) (bloques : Bloques)
    (download : ℕ → String → Except String Bytes)
    (hanswers : Unforged history snapshot.id download) :
    Genuine history snapshot.id bloques.inOrder
      (restoreSnapshot P Z snapshot kek bloques download).1 := by
  unfold restoreSnapshot
  split_ifs with hestado
  · exact genuine_nil _ _ _
  · cases hdek : unwrapDek P.aead kek snapshot.encryptedDek snapshot.dekNonce snapshot.dekTag
      snapshot.id with
    | none => exact genuine_nil _ _ _
    | some dek =>
      obtain ⟨b, hb, hid, rfl⟩ := hrow dek hdek
      rw [← hid] at hanswers ⊢
      obtain ⟨Ready, hinit, hwrite, hflush⟩ := hZ
      obtain ⟨consumed, hpre, hall, hend⟩ := restoreLoop_sound (P := P) (Z := Z) hwrite
        download bloques.inOrder (fun bloque _ _ _ hraw _ hok =>
          checkBloque_genuine hb hanswers hraw hok) 0 hinit
      have hgenuine := genuine_of_forall₂ hpre hall
      simp only
      generalize restoreLoop P Z b.dek b.id download 0 Z.init bloques.inOrder = r at hend hgenuine
      obtain ⟨outs, e | dctx⟩ := r
      · exact hgenuine
      · simp only [hflush dctx (hend dctx rfl)]
        exact hgenuine.append_nil

/-! ### One backup, and a store that plays tricks -/

/-- The backup of `smallSnapshot`. -/
def smallBackup : Backup clearPrimitives :=
  ⟨smallSnapshot.id, [7], smallNonces, [[1], [2]], smallBlocks, by decide⟩

/-- It is the only one. -/
def smallHistory : History clearPrimitives := ⟨[smallBackup], by decide⟩

/-- A store that answers every request with the payload of the first block. -/
def replayedDownload (_ : ℕ) (_ : String) : Except String Bytes :=
  .ok ((smallBlocks.map Sealed.payload).headD [])

theorem opensToItsDek_small : OpensToItsDek smallHistory [9] smallSnapshot := by
  intro dek hdek
  obtain rfl := Option.some.inj (unwrapDek_smallSnapshot.symm.trans hdek)
  exact ⟨smallBackup, List.mem_singleton_self _, rfl, rfl⟩

theorem unforged_replayedDownload : Unforged smallHistory smallSnapshot.id replayedDownload := by
  rintro k key raw hraw b hb - cSeq nonce len data hparse hdec
  obtain rfl := Except.ok.inj hraw
  obtain rfl := List.mem_singleton.1 hb
  have hmem : smallBlocks[0] ∈ smallBackup.blocks := List.getElem_mem _
  exact ⟨smallBackup, List.mem_singleton_self _, rfl,
    smallBackup.encrypts_of_mem_blocks clearAead_correct hmem hparse hdec⟩

/-- The catalog has both blocks, and the store answers every request with the
payload of the first one. -/
theorem restore_genuine_small : Genuine smallHistory smallSnapshot.id
    (Bloques.list (smallBlocks.map bloqueOf)).inOrder
    (restoreSnapshot clearPrimitives clearWriter smallSnapshot [9]
      (.list (smallBlocks.map bloqueOf)) replayedDownload).1 :=
  restore_genuine clearPrimitives clearWriter smallHistory [9] clearWriter_writesFrames
    smallSnapshot opensToItsDek_small _ replayedDownload unforged_replayedDownload

end Restore
end Boveda

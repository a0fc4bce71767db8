/-
# Restoring a snapshot

`restore_snapshot` (`src/boveda/restore.py`).  The blocks of a snapshot are
downloaded one after the other, checked one by one (length, SHA-256, header,
sequence number, GCM tag), decrypted, and written through one zstd decompressor
for the whole snapshot.

What a restore writes is a list, one entry for each `write` of the decompressor
that has been made, whether the restore returns or raises: the output at any
point is what a prefix of that list makes up.  `restoreLoop_sound` says what is
written when the checks let only certain plaintexts through, and
`restoreLoop_complete` what is written when all checks pass.
-/

import Boveda.Pipeline.Seal
import Boveda.Catalog.Transactions

namespace Boveda
namespace Restore

open Lib Crypto Pipeline
open Catalog (Snapshot storageKeyOf)

/-- `ZstdDecompressor().stream_writer(output)`.  A `write` emits bytes and either
goes on or raises. -/
structure StreamWriter where
  State : Type
  init : State
  write : State → Bytes → Bytes × Except String State
  flush : State → Bytes × Except String Unit

/-- Fed complete frames, the writer emits each one's content when it is written. -/
def StreamWriter.WritesFrames (Z : StreamWriter) (compress : Bytes → Bytes) : Prop :=
  ∃ Ready : Z.State → Prop, Ready Z.init ∧
    (∀ s chunk, Ready s → ∃ s', Z.write s (compress chunk) = (chunk, .ok s') ∧ Ready s') ∧
    ∀ s, Ready s → Z.flush s = ([], .ok ())

/-- A `Bloque`, as far as a restore reads it. -/
structure Bloque where
  chunkSeq : ℤ
  hashSha256 : String
  storageKey : String
  deriving DecidableEq, Repr

/-- The argument `bloques`: a `list` or another iterable. -/
inductive Bloques
  | list (bloques : List Bloque)
  | iterable (bloques : List Bloque)

/-- The blocks of the argument. -/
def Bloques.toList : Bloques → List Bloque
  | .list bloques => bloques
  | .iterable bloques => bloques

/-- `bloque_iter`: a list is sorted by `chunk_seq`, another iterable is consumed
as it comes. -/
def Bloques.inOrder : Bloques → List Bloque
  | .list bloques => bloques.mergeSort fun a b => a.chunkSeq ≤ b.chunkSeq
  | .iterable bloques => bloques

/-- What `restore_snapshot` raises: its own errors, and those of the decompressor
and of `download_callback`. -/
inductive RestoreException
  | restoreError (message : String)
  | integrityError (message : String)
  | zstdError (message : String)
  | download (message : String)
  deriving DecidableEq, Repr

section

variable (P : Primitives) (Z : StreamWriter)

/-- The checks of the loop, on what has been downloaded for a block. -/
def checkBloque (dek : Bytes) (snapshotId : String) (bloque : Bloque) (raw : Bytes) :
    Except RestoreException Bytes :=
  let seq := bloque.chunkSeq
  let size := raw.length
  if size < 26 then
    .error (.integrityError s!"Chunk {seq} truncado (tamaño {size} < 26 bytes)")
  else if P.sha256 raw ≠ bloque.hashSha256 then
    .error (.integrityError s!"SHA-256 mismatch en chunk {seq}")
  else
    let header := raw.take 26
    match parseChunkHeader header with
    | .error e => .error (.integrityError s!"Error parseando header de chunk {seq}: {e}")
    | .ok (cSeq, nonce, _) =>
      if (cSeq : ℤ) ≠ seq then
        .error (.integrityError s!"Mismatch de secuencia: {cSeq} != {seq}")
      else
        let ciphertext := raw.drop 26
        let aad := createAad header snapshotId
        match P.aead.decrypt dek nonce ciphertext aad with
        | none => .error (.integrityError s!"Fallo de autenticación GCM en chunk {seq}")
        | some plaintext => .ok plaintext

/-- The loop of `restore_snapshot`.  The `k`-th call of `download_callback` may
answer as it likes. -/
def restoreLoop (dek : Bytes) (snapshotId : String) (download : ℕ → String → Except String Bytes) :
    ℕ → Z.State → List Bloque → List Bytes × Except RestoreException Z.State
  | _, dctx, [] => ([], .ok dctx)
  | k, dctx, bloque :: bloques =>
    match download k bloque.storageKey with
    | .error e => ([], .error (.download e))
    | .ok raw =>
      match checkBloque P dek snapshotId bloque raw with
      | .error e => ([], .error e)
      | .ok plaintext =>
        match Z.write dctx plaintext with
        | (out, .error e) => ([out], .error (.zstdError e))
        | (out, .ok dctx) =>
          let (outs, result) := restoreLoop dek snapshotId download (k + 1) dctx bloques
          (out :: outs, result)

/-- `restore_snapshot`: the writes to `output`, and how it ends. -/
def restoreSnapshot (snapshot : Snapshot) (kek : Bytes) (bloques : Bloques)
    (download : ℕ → String → Except String Bytes) : List Bytes × Except RestoreException Unit :=
  if snapshot.estado ≠ .completed then ([], .error (.restoreError "Snapshot no está COMPLETED"))
  else
    match unwrapDek P.aead kek snapshot.encryptedDek snapshot.dekNonce snapshot.dekTag
        snapshot.id with
    | none => ([], .error (.integrityError
        "Error al descifrar DEK: tag inválido o snapshot adulterado"))
    | some dek =>
      match restoreLoop P Z dek snapshot.id download 0 Z.init bloques.inOrder with
      | (outs, .error e) => (outs, .error e)
      | (outs, .ok dctx) =>
        match Z.flush dctx with
        | (out, .error e) => (outs ++ [out], .error (.zstdError e))
        | (out, .ok ()) => (outs ++ [out], .ok ())

end

/-! ### One block -/

variable {P : Primitives} {Z : StreamWriter} {dek : Bytes} {snapshotId : String}

/-- **What passes the checks** has been decrypted under the DEK with the header
and the id as AAD, and its header carries the number of the block. -/
theorem checkBloque_ok {bloque : Bloque} {raw plaintext : Bytes}
    (h : checkBloque P dek snapshotId bloque raw = .ok plaintext) :
    ∃ cSeq nonce len, 26 ≤ raw.length ∧ P.sha256 raw = bloque.hashSha256 ∧
      parseChunkHeader (raw.take 26) = .ok (cSeq, nonce, len) ∧ (cSeq : ℤ) = bloque.chunkSeq ∧
      P.aead.decrypt dek nonce (raw.drop 26) (createAad (raw.take 26) snapshotId) =
        some plaintext := by
  unfold checkBloque at h
  dsimp only at h
  split_ifs at h with hlen hsha
  split at h
  · cases h
  · next cSeq nonce len hparse =>
    split_ifs at h with hseq
    split at h
    · cases h
    · next pt hdec =>
      obtain rfl := Except.ok.inj h
      exact ⟨cSeq, nonce, len, not_lt.1 hlen, not_not.1 hsha, hparse, not_not.1 hseq, hdec⟩

/-- The row that `upload_callback` records for a block, with its storage key. -/
def bloqueOf (block : Sealed) : Bloque := ⟨block.seq, block.hash, storageKeyOf block.hash⟩

/-- **A sealed block passes its checks.** -/
theorem checkBloque_seals (hA : P.aead.Correct) {chunkSeq : ℕ} {chunk : Bytes} {block : Sealed}
    (h : Seals P dek snapshotId chunkSeq chunk block) :
    checkBloque P dek snapshotId (bloqueOf block) block.payload = .ok (P.compress chunk) := by
  obtain ⟨nonce, header, hn, hheader, hseq, hhash, hpayload⟩ := h
  have hlen := length_createChunkHeader hheader
  have htake : block.payload.take 26 = header := by rw [hpayload, List.take_left' hlen]
  have hdrop : block.payload.drop 26 =
      P.aead.encrypt dek nonce (P.compress chunk) (createAad header snapshotId) := by
    rw [hpayload, List.drop_left' hlen]
  have hsize : ¬ block.payload.length < 26 := by
    rw [hpayload, List.length_append, hlen]
    omega
  have hparse := parse_createChunkHeader hheader hn
  have hdec := hA dek nonce (P.compress chunk) (createAad header snapshotId)
  have hsha : ¬ P.sha256 block.payload ≠ (bloqueOf block).hashSha256 := not_not.2 hhash.symm
  unfold checkBloque
  rw [if_neg hsize, if_neg hsha]
  simp only [htake, hdrop, hparse, bloqueOf, hseq, hdec]
  exact if_neg (not_not.2 rfl)

/-! ### The loop -/

variable {download : ℕ → String → Except String Bytes}

/-- **What a restore writes**, when of what the store answers only complete frames
pass the checks: the contents of the frames of the blocks consumed, in order, up
to where it ends. -/
theorem restoreLoop_sound {Ready : Z.State → Prop} {Origin : Bloque → Bytes → Prop}
    (hwrite : ∀ s chunk, Ready s → ∃ s', Z.write s (P.compress chunk) = (chunk, .ok s') ∧ Ready s')
    (download : ℕ → String → Except String Bytes) (bloques : List Bloque)
    (hcheck : ∀ bloque ∈ bloques, ∀ k raw, download k bloque.storageKey = .ok raw →
      ∀ plaintext, checkBloque P dek snapshotId bloque raw = .ok plaintext →
        ∃ chunk, plaintext = P.compress chunk ∧ Origin bloque chunk)
    (k : ℕ) {dctx : Z.State} (hready : Ready dctx) :
    ∃ consumed, consumed <+: bloques ∧
      List.Forall₂ Origin consumed (restoreLoop P Z dek snapshotId download k dctx bloques).1 ∧
      ∀ s, (restoreLoop P Z dek snapshotId download k dctx bloques).2 = .ok s → Ready s := by
  induction bloques generalizing k dctx with
  | nil =>
    refine ⟨[], List.prefix_refl [], .nil, fun s hs => ?_⟩
    obtain rfl := Except.ok.inj hs
    exact hready
  | cons bloque bloques ih =>
    rw [restoreLoop]
    cases hdown : download k bloque.storageKey with
    | error e => exact ⟨[], List.nil_prefix, .nil, fun s hs => (nomatch hs)⟩
    | ok raw =>
      cases hpt : checkBloque P dek snapshotId bloque raw with
      | error e =>
        simp only [hpt]
        exact ⟨[], List.nil_prefix, .nil, fun s hs => (nomatch hs)⟩
      | ok plaintext =>
        obtain ⟨chunk, rfl, horigin⟩ := hcheck bloque (List.mem_cons_self ..) k raw hdown
          plaintext hpt
        obtain ⟨s', hw, hready'⟩ := hwrite dctx chunk hready
        simp only [hpt, hw]
        obtain ⟨consumed, hpre, hall, hend⟩ :=
          ih (fun b hb => hcheck b (List.mem_cons_of_mem _ hb)) (k + 1) hready'
        exact ⟨bloque :: consumed, List.cons_prefix_cons.2 ⟨rfl, hpre⟩, .cons horigin hall, hend⟩

/-- When every block passes its checks with a complete frame, the loop goes
through all of them. -/
theorem restoreLoop_complete {Ready : Z.State → Prop} {content : Bloque → Bytes}
    (hwrite : ∀ s chunk, Ready s → ∃ s', Z.write s (P.compress chunk) = (chunk, .ok s') ∧ Ready s')
    {bloques : List Bloque}
    (hcheck : ∀ bloque ∈ bloques, ∀ k, ∃ raw, download k bloque.storageKey = .ok raw ∧
      checkBloque P dek snapshotId bloque raw = .ok (P.compress (content bloque)))
    (k : ℕ) {dctx : Z.State} (hready : Ready dctx) :
    ∃ s, restoreLoop P Z dek snapshotId download k dctx bloques =
      (bloques.map content, .ok s) ∧ Ready s := by
  induction bloques generalizing k dctx with
  | nil => exact ⟨dctx, rfl, hready⟩
  | cons bloque bloques ih =>
    obtain ⟨raw, hdown, hpt⟩ := hcheck bloque (List.mem_cons_self ..) k
    obtain ⟨s', hw, hready'⟩ := hwrite dctx (content bloque) hready
    obtain ⟨s, hloop, hs⟩ := ih (fun b hb => hcheck b (List.mem_cons_of_mem _ hb)) (k + 1) hready'
    refine ⟨s, ?_, hs⟩
    rw [restoreLoop, hdown]
    simp only [hpt, hw, hloop]
    rfl

end Restore
end Boveda

/-
# An archive over its whole life

The commands of `src/boveda/cli.py` on one catalog and one bucket, one after the other:
backups, retention runs and purges (`Boveda.Catalog.History`), rotations of the KEK
(`rotate-kek`), and at any time `restore`.

`restores_of_backedUp` is what they are for.  A backup in which no upload has raised
can be restored, to exactly the bytes that its subprocess has output, in every later
state in which its row is `COMPLETED`: after other backups that share blocks with it,
after retention and purges of others, and after rotations, with the passphrase of the
last one.

| what the proof carries | module |
| --- | --- |
| the rows have their objects, and no others are there | `Boveda.Catalog.Failures` |
| an object is the payload of a block with its hash | `Boveda.Catalog.Contents` |
| the links and the row of the snapshot stay | `Boveda.Catalog.Frames` |
| the DEK is wrapped under the KEK of the last rotation | `Boveda.Crypto.Rotation` |
| the blocks decrypt to the chunks of the output | `Boveda.Pipeline.Completion` |
-/

import Boveda.Catalog.Contents
import Boveda.Catalog.Frames
import Boveda.Crypto.Rollback
import Boveda.Restore.RoundTrip
import Boveda.Restore.Verify

namespace Boveda
namespace Archive

open Lib Crypto Pipeline Restore
open Catalog (Snapshot SnapshotChunk ChunkPool Store Block Op perform ObjectStore storageKeyOf
  linksOf FailsCleanly Mirrored Settled Contents)
open Rotation (masterSalt)

/-! ### The commands -/

/-- How `restore` ends. -/
inductive RestoreReport
  | notCompleted
  | noSalt
  | failed (error : String)
  | restored
  deriving DecidableEq, Repr

/-- The line that it prints. -/
def RestoreReport.line (snapshotId out : String) : RestoreReport → String
  | .notCompleted => s!"Error: Snapshot {snapshotId} no existe o no está COMPLETED."
  | .noSalt => "Error: master_salt no encontrado en la base de datos."
  | .failed error => s!"Error durante la restauración: {error}"
  | .restored => s!"Snapshot {snapshotId} restaurado exitosamente en {out}"

/-- `str(e)`. -/
def message : RestoreException → String
  | .restoreError message | .integrityError message | .zstdError message | .download message =>
    message

/-- `restore`, with the passphrase that is typed: what it writes to `out`, if it opens the
file, and how it ends. -/
def restore (P : Primitives) (Z : StreamWriter) (deriveKek : String → String → Except String Bytes)
    (passphrase : String) (objects : String → Except String Bytes) (c : Catalog)
    (snapshotId : String) : Option (List Bytes) × RestoreReport :=
  match c.snapshots.find? snapshotId with
  | none => (none, .notCompleted)
  | some snapshot =>
    if snapshot.estado ≠ .completed then (none, .notCompleted)
    else
      match masterSalt c with
      | none => (none, .noSalt)
      | some salt =>
        match deriveKek passphrase salt with
        | .error e => (none, .failed e)
        | .ok kek =>
          let bloques := (bloquesOf c snapshotId).mergeSort fun a b => a.chunkSeq ≤ b.chunkSeq
          match restoreSnapshot P Z snapshot kek (.list bloques) fun _ key => objects key with
          | (writes, .error e) => (some writes, .failed (message e))
          | (writes, .ok ()) => (some writes, .restored)

/-- `download_from_s3`, from a bucket that answers. -/
def download (s3 : ObjectStore) (key : String) : Except String Bytes :=
  match s3 key with
  | some raw => .ok raw
  | none => .error "NoSuchKey"

/-- The catalog with its bucket, and the passphrase of the last rotation that has
committed (of `init`, before the first one). -/
structure World where
  store : Store
  passphrase : String

/-- After `init`. -/
def World.init (passphrase salt : String) : World where
  store := { cat := (Rotation.World.init passphrase salt).cat, s3 := fun _ => none }
  passphrase := passphrase

/-- What is done to an archive. -/
inductive Action
  | command (op : Op)
  | rotateKek (cmd : Rotation.Command)

/-- The id of the snapshot that an action inserts. -/
def Action.inserts : Action → Option String
  | .command op => op.inserts
  | .rotateKek _ => none

/-- After a `rotate-kek`, given what it leaves in the catalog and whether it has committed. -/
def World.rotated (w : World) (cmd : Rotation.Command) (r : Catalog × Option ℕ) : World where
  store := { w.store with cat := r.1 }
  passphrase := if r.2.isSome then cmd.newPassphrase else w.passphrase

/-- An action is one step. -/
def step (A : Aead) (deriveKek : String → String → Except String Bytes) (w : World) :
    Action → Option World
  | .command op => some { w with store := perform w.store op }
  | .rotateKek cmd => some (w.rotated cmd
      (Rotation.rotateKek A (fun p salt => (deriveKek p salt).toOption) cmd w.store.cat))

/-- The KEK of the last rotation. -/
def World.HasKek (deriveKek : String → String → Except String Bytes) (w : World) (kek : Bytes) :
    Prop :=
  ∃ salt, masterSalt w.store.cat = some salt ∧ deriveKek w.passphrase salt = .ok kek

/-! ### What is assumed of the actions -/

/-- The blocks that are ever made, as far as SHA-256 tells them apart. -/
structure Hashes (P : Primitives) (B : Block → Prop) : Prop where
  hash : ∀ b, B b → b.cHash = P.sha256 b.payload
  inj : ∀ b b', B b → B b' → P.sha256 b.payload = P.sha256 b'.payload → b.payload = b'.payload

/-- No call is half done when it raises, the blocks are among those of `B`, and only a backup
writes `COMPLETED`. -/
def Clean (B : Block → Prop) (w : World) : Action → Prop
  | .command op =>
    FailsCleanly w.store op ∧ (∀ b ∈ op.blocks, B b) ∧ ∀ id, op ≠ .setEstado id .completed
  | .rotateKek _ => True

/-- A backup of `data` in which no upload has raised: its pipeline has returned, `blocks` are
what it has uploaded, and the row `s` has the DEK wrapped under `kek`. -/
structure BackedUp (S : Setting) (kek data : Bytes) (s : Snapshot) (blocks : List Block) :
    Prop where
  run : ∃ nonceGen st, Runs S data nonceGen st ∧ st.estado = .completed ∧
    blocks.map (fun b => (b.payload, b.cHash)) = st.uploaded.map fun b => (b.payload, b.hash)
  raises : ∀ i < (chunksOf S.gear data).length, S.raises i = false
  sound : ∀ b ∈ blocks, b.Sound
  id : S.snapshotId = s.id
  wraps : Rotation.Wraps S.primitives.aead kek S.dek s

/-! ### What every action keeps -/

/-- The archive between two actions. -/
structure Healthy (B : Block → Prop) (w : World) : Prop where
  settled : Settled w.store.cat
  mirrored : Mirrored w.store
  contents : Contents B w.store

/-- A snapshot that has been backed up, as long as its row is there. -/
structure Kept (A : Aead) (deriveKek : String → String → Except String Bytes) (id : String)
    (dek : Bytes) (links : List SnapshotChunk) (w : World) : Prop where
  wraps : ∀ row, w.store.cat.snapshots.find? id = some row → row.estado = .completed →
    ∃ kek, w.HasKek deriveKek kek ∧ Rotation.Wraps A kek dek row
  links : (w.store.cat.snapshots.find? id).isSome = true → linksOf w.store.cat id = links

variable {A : Aead} {deriveKek : String → String → Except String Bytes} {B : Block → Prop}
  {w w' : World}

theorem healthy_init (passphrase salt : String) : Healthy B (World.init passphrase salt) where
  settled := Catalog.settled_empty.frame rfl rfl fun _ h => h
  mirrored _ := rfl
  contents _ _ h := nomatch h

theorem toOption_eq_some {ε α : Type*} {x : Except ε α} {a : α} (h : x.toOption = some a) :
    x = .ok a := by
  cases x with
  | error e => cases h
  | ok b => rw [Option.some.inj h]

theorem Healthy.command (hw : Healthy B w) {op : Op} (hop : Clean B w (.command op)) :
    Healthy B { w with store := perform w.store op } := by
  obtain ⟨hclean, hblocks, -⟩ := hop
  obtain ⟨hsettled, hmirrored⟩ := Catalog.failureRule_backed.stepRule.perform hw.settled hw.mirrored
    hclean
  exact ⟨hsettled, hmirrored, ((Catalog.stepRule_contents B).perform hw.settled hw.contents
    (Catalog.opOk_of_forall hblocks)).2⟩

/-- **A rotation leaves the chunks and the links alone**, and deletes no snapshot. -/
theorem rotated_frame {deriveKek : String → String → Option Bytes} {cmd : Rotation.Command}
    {c : Catalog} {r : Catalog × Option ℕ} (h : Rotation.CommandEffect A deriveKek cmd c r) :
    r.1.chunkPool = c.chunkPool ∧ r.1.snapshotChunks = c.snapshotChunks ∧
      ∀ id, (c.snapshots.find? id).isSome = true → (r.1.snapshots.find? id).isSome = true := by
  cases h with
  | unchanged => exact ⟨rfl, rfl, fun _ h => h⟩
  | rotated _ _ _ hrot _ hsame =>
    refine ⟨hsame.chunkPool, hsame.snapshotChunks, fun id hid => ?_⟩
    rw [Option.isSome_iff_ne_none] at hid ⊢
    exact fun hnone => hid ((Rotation.rotateKekInDatabase_some hrot).1.1 hnone)

theorem Healthy.rotateKek (hw : Healthy B w) {deriveKek : String → String → Option Bytes}
    {cmd : Rotation.Command} {r : Catalog × Option ℕ}
    (h : Rotation.CommandEffect A deriveKek cmd w.store.cat r) : Healthy B (w.rotated cmd r) := by
  obtain ⟨hpool, hlinks, hsnaps⟩ := rotated_frame h
  refine ⟨hw.settled.frame hpool hlinks hsnaps, fun h => ?_, hw.contents⟩
  show (w.store.s3 (storageKeyOf h)).isSome = (r.1.chunkPool.find? h).isSome
  rw [hpool]
  exact hw.mirrored h

theorem Healthy.step (hw : Healthy B w) {e : Action} (he : Clean B w e)
    (h : step A deriveKek w e = some w') : Healthy B w' := by
  cases e with
  | command op =>
    obtain rfl := Option.some.inj h
    exact hw.command he
  | rotateKek cmd =>
    obtain rfl := Option.some.inj h
    exact hw.rotateKek (Rotation.commandEffect A _ cmd w.store.cat)

/-- **A snapshot stays as it was backed up**: its links, and its DEK under the KEK in force. -/
theorem Kept.step {id : String} {dek : Bytes} {links : List SnapshotChunk} (hA : A.Correct)
    (hR : A.RejectsOtherKeys) (hk : Kept A deriveKek id dek links w) {e : Action}
    (he : Clean B w e) (hid : e.inserts ≠ some id) (h : step A deriveKek w e = some w') :
    Kept A deriveKek id dek links w' := by
  cases e with
  | command op =>
    obtain rfl := Option.some.inj h
    obtain ⟨hconf, hframe⟩ := Catalog.perform_frame w.store op
    obtain ⟨hrow, hlinks⟩ := hframe id hid
    refine ⟨fun row hfind hestado => ?_, fun hsome => (hlinks hsome).trans (hk.links ?_)⟩
    · obtain ⟨row₀, hfind₀, hsame, hcase⟩ := hrow row hfind
      have hestado₀ : row₀.estado = .completed := by
        rcases hcase with hcase | rfl
        · exact hcase.symm.trans hestado
        · exact absurd (congrArg (Op.setEstado id) hestado) (he.2.2 id)
      obtain ⟨kek, ⟨salt, hsalt, hkek⟩, hwraps⟩ := hk.wraps row₀ hfind₀ hestado₀
      refine ⟨kek, ⟨salt, ?_, hkek⟩, ?_⟩
      · show masterSalt (perform w.store op).cat = _
        rw [masterSalt, hconf]
        exact hsalt
      · have hrow₀ : row = row₀ := by
          rw [← hsame, hestado₀, ← hestado]
        exact hrow₀ ▸ hwraps
    · obtain ⟨row, hfind⟩ := Option.isSome_iff_exists.1 hsome
      obtain ⟨row₀, hfind₀, -⟩ := hrow row hfind
      rw [hfind₀]
      rfl
  | rotateKek cmd =>
    obtain rfl := Option.some.inj h
    have heffect := Rotation.commandEffect A (fun p salt => (deriveKek p salt).toOption) cmd
      w.store.cat
    revert heffect
    generalize Rotation.rotateKek A (fun p salt => (deriveKek p salt).toOption) cmd
      w.store.cat = r
    intro heffect
    cases heffect with
    | unchanged => exact ⟨hk.wraps, hk.links⟩
    | @rotated salt oldKek newKek c' n hsalt hold hnew hrot hsalt' hsame =>
      obtain ⟨hnone, hrows⟩ := Rotation.rotateKekInDatabase_some hrot (k := id)
      refine ⟨fun row hfind hestado => ?_, fun hsome => ?_⟩
      · have hfind : c'.snapshots.find? id = some row := hfind
        cases hfind₀ : w.store.cat.snapshots.find? id with
        | none =>
          rw [hnone.2 hfind₀] at hfind
          cases hfind
        | some row₀ =>
          obtain ⟨hre, hkeep⟩ := hrows row₀ hfind₀
          by_cases hsel : row₀.estado = .completed ∨ row₀.estado = .expired
          · obtain ⟨rawDek, nonce, hopen, hrow⟩ := hre hsel
            obtain rfl := Option.some.inj (hrow.symm.trans hfind)
            obtain ⟨kek, -, hwraps⟩ := hk.wraps row₀ hfind₀ hestado
            rw [hwraps.unique hA hR hopen]
            exact ⟨newKek, ⟨cmd.newSalt, hsalt', toOption_eq_some hnew⟩,
              Rotation.wraps_rewrap newKek nonce _ row₀⟩
          · obtain rfl := Option.some.inj ((hkeep hsel).symm.trans hfind)
            exact absurd (Or.inl hestado) hsel
      · have hsome₀ : (w.store.cat.snapshots.find? id).isSome = true := by
          rw [Option.isSome_iff_ne_none] at hsome ⊢
          exact fun h => hsome (hnone.2 h)
        exact (Catalog.linksOf_congr hsame.snapshotChunks id).trans (hk.links hsome₀)

/-! ### The backup -/

/-- The links that a backup records. -/
def linksFor (id : String) (blocks : List Block) : List SnapshotChunk :=
  (blocks.zipIdx 0).map fun e => ⟨id, e.2, e.1.cHash⟩

/-- **What a backup leaves**: its row, `COMPLETED`, and one link for each block. -/
theorem kept_backup {s : Snapshot} {blocks : List Block} {kek dek : Bytes} (hw : Healthy B w)
    (hfresh : w.store.cat.snapshots.find? s.id = none) (hsound : ∀ b ∈ blocks, b.Sound)
    (hkek : w.HasKek deriveKek kek) (hwraps : Rotation.Wraps A kek dek s) :
    Kept A deriveKek s.id dek (linksFor s.id blocks)
      { w with store := perform w.store (.backup s blocks .completed) } := by
  obtain ⟨salt, hsalt, hkek⟩ := hkek
  obtain ⟨hrow, hlinks⟩ := Catalog.backup_own hw.settled hfresh hsound .completed
  refine ⟨fun row hfind _ => ⟨kek, ⟨salt, ?_, hkek⟩, ?_⟩, fun _ => hlinks⟩
  · show masterSalt (perform w.store (.backup s blocks .completed)).cat = _
    rw [masterSalt, (Catalog.perform_frame w.store (.backup s blocks .completed)).1]
    exact hsalt
  · obtain rfl := Option.some.inj (hrow.symm.trans hfind)
    exact hwraps

/-! ### The restore -/

/-- What `restore` finds for the links of a snapshot. -/
theorem bloquesOf_eq {c : Catalog} (hc : Catalog.RefCountInv c)
    (hkeys : ∀ h r, c.chunkPool.find? h = some r → r.storageKey = storageKeyOf h) (id : String) :
    bloquesOf c id = (linksOf c id).map fun l =>
      ⟨l.chunkSeq, l.chunkHash, storageKeyOf l.chunkHash⟩ := by
  refine List.map_congr_left fun l hl => ?_
  obtain ⟨r, -, hr, -⟩ := hc.exists_row (List.mem_filter.1 hl).1
  simp [hr, hkeys _ r hr]

/-- The blocks that `restore` finds for the links of a backup are those it has uploaded. -/
theorem bloquesOf_linksFor {c : Catalog} (hc : Settled c) {id : String} {blocks : List Block}
    (hlinks : linksOf c id = linksFor id blocks) {uploaded : List Sealed}
    (hseq : uploaded.map Sealed.seq = List.range' 0 uploaded.length)
    (hblocks : blocks.map (fun b => (b.payload, b.cHash)) =
      uploaded.map fun b => (b.payload, b.hash)) :
    bloquesOf c id = uploaded.map bloqueOf := by
  have hlen : blocks.length = uploaded.length := by simpa using congrArg List.length hblocks
  rw [bloquesOf_eq hc.coherent hc.keys, hlinks, linksFor, List.map_map]
  refine List.ext_getElem (by simp [hlen]) fun i h₁ h₂ => ?_
  have hi : i < uploaded.length := by simpa using h₂
  have hhash : blocks[i].cHash = uploaded[i].hash := by
    have := List.getElem_of_eq hblocks (i := i) (by simpa [hlen] using hi)
    simp only [List.getElem_map] at this
    exact (Prod.mk.inj this).2
  have hnum : uploaded[i].seq = i := by
    have := List.getElem_of_eq hseq (i := i) (by simpa using hi)
    simpa using this
  simp [bloqueOf, hhash, hnum]

/-- **What `restore` needs**: the DEK of the row under the KEK of the passphrase, the blocks of
the output in any order, and their objects. -/
theorem restore_of_perm {S : Setting} {Z : StreamWriter} (hA : S.primitives.aead.Correct)
    (hZ : Z.WritesFrames S.primitives.compress) {c : Catalog} {s3 : ObjectStore}
    {passphrase salt id : String} {kek data : Bytes} {nonceGen : NonceGenerator}
    {uploaded : List Sealed} {row : Snapshot} (hrow : c.snapshots.find? id = some row)
    (hestado : row.estado = .completed) (hsalt : masterSalt c = some salt)
    (hkek : deriveKek passphrase salt = .ok kek)
    (hwraps : Rotation.Wraps S.primitives.aead kek S.dek row)
    (hseal : sealAll S.primitives S.dek id 0 nonceGen (chunksOf S.gear data) = some uploaded)
    (hbloques : (bloquesOf c id).Perm (uploaded.map bloqueOf))
    (hstore : ∀ block ∈ uploaded, download s3 (storageKeyOf block.hash) = .ok block.payload) :
    ∃ writes, restore S.primitives Z deriveKek passphrase (download s3) c id =
      (some writes, .restored) ∧ writes.flatten = data := by
  have hrowid : row.id = id := Table.key_of_find? hrow
  have hperm : ((bloquesOf c id).mergeSort fun a b => a.chunkSeq ≤ b.chunkSeq).Perm
      (uploaded.map bloqueOf) := (List.mergeSort_perm _ _).trans hbloques
  have hrows : ∀ bloque ∈ (bloquesOf c id).mergeSort fun a b => a.chunkSeq ≤ b.chunkSeq,
      ∃ block ∈ uploaded, bloque = bloqueOf block := by
    intro bloque hb
    obtain ⟨block, hmem, rfl⟩ := List.mem_map.1 (hperm.mem_iff.1 hb)
    exact ⟨block, hmem, rfl⟩
  have horder : (Bloques.list ((bloquesOf c id).mergeSort
      fun a b => a.chunkSeq ≤ b.chunkSeq)).inOrder.map (contentOf (chunksOf S.gear data)) =
        chunksOf S.gear data :=
    inOrder_of_perm hseal hperm
  have hsnap : restoreSnapshot S.primitives Z row kek
      (.list ((bloquesOf c id).mergeSort fun a b => a.chunkSeq ≤ b.chunkSeq))
      (fun _ key => download s3 key) = _ :=
    restoreSnapshot_of_blocks hA hZ hestado (hwraps.unwrap hA)
      (by rw [hrowid]; exact hseal) (fun block hmem _ => hstore block hmem) hrows
  rw [horder] at hsnap
  refine ⟨chunksOf S.gear data ++ [[]], ?_, by simp [flatten_chunksOf]⟩
  unfold restore
  simp only [hrow, hestado, hsalt, hkek, hsnap]
  rfl

/-- **A snapshot that has been kept is restored.** -/
theorem restore_kept {S : Setting} {Z : StreamWriter} (hA : S.primitives.aead.Correct)
    (hZ : Z.WritesFrames S.primitives.compress) (hB : Hashes S.primitives B) {kek data : Bytes}
    {s : Snapshot} {blocks : List Block} (hbacked : BackedUp S kek data s blocks)
    (hblocks : ∀ b ∈ blocks, B b) (hw : Healthy B w)
    (hk : Kept S.primitives.aead deriveKek s.id S.dek (linksFor s.id blocks) w) {row : Snapshot}
    (hrow : w.store.cat.snapshots.find? s.id = some row) (hestado : row.estado = .completed) :
    ∃ writes, restore S.primitives Z deriveKek w.passphrase (download w.store.s3) w.store.cat s.id =
      (some writes, .restored) ∧ writes.flatten = data := by
  obtain ⟨⟨nonceGen, st, hrun, hst, huploaded⟩, hraises, -, hid, -⟩ := hbacked
  obtain ⟨-, hseal⟩ := uploaded_of_completed hrun hst hraises
  have hseq := map_seq_sealAll hseal
  rw [← (seals_sealAll hseal).1] at hseq
  have hlinks : linksOf w.store.cat s.id = linksFor s.id blocks := hk.links (by rw [hrow]; rfl)
  have hbloques := bloquesOf_linksFor hw.settled hlinks hseq huploaded
  obtain ⟨kek', ⟨salt, hsalt, hkek⟩, hwraps⟩ := hk.wraps row hrow hestado
  refine restore_of_perm hA hZ hrow hestado hsalt hkek hwraps (by rw [← hid]; exact hseal)
    (.of_eq hbloques) fun block hmem => ?_
  -- an object is the payload of a block with its hash, and so of this one
  obtain ⟨b, hb, hpair⟩ := List.mem_map.1 (huploaded.symm ▸ List.mem_map_of_mem hmem :
    (block.payload, block.hash) ∈ blocks.map fun b => (b.payload, b.cHash))
  obtain ⟨hpayload, hhash⟩ := Prod.mk.inj hpair
  obtain ⟨l, hl, hlink⟩ := List.mem_map.1 (hbloques.symm ▸ List.mem_map_of_mem hmem :
    bloqueOf block ∈ bloquesOf w.store.cat s.id)
  obtain ⟨r, -, hr, -⟩ := hw.settled.coherent.exists_row (List.mem_filter.1 hl).1
  have hlhash : l.chunkHash = block.hash := congrArg Bloque.hashSha256 hlink
  have hsome := hw.mirrored block.hash
  rw [← hlhash, hr, hlhash] at hsome
  obtain ⟨raw, hraw⟩ := Option.isSome_iff_exists.1 hsome
  obtain ⟨b', hb', hhash', hpayload'⟩ := hw.contents block.hash raw hraw
  have hsame : b'.payload = b.payload := by
    refine hB.inj b' b hb' (hblocks b hb) ?_
    rw [← hB.hash b' hb', ← hB.hash b (hblocks b hb), hhash', hhash]
  rw [download, hraw, ← hpayload', hsame, hpayload]

/-! ### Every run -/

/-- **What has been backed up is restored from any later state.**  Take an archive in any
state that actions lead to from `init`, a new snapshot, and a backup of the bytes `data`,
under the passphrase in force, in which no upload raises.  Whatever is done afterwards
(backups that share blocks with it, retention and purges, rotations), as long as the row of
the snapshot is `COMPLETED`, `restore` with the passphrase in force returns and has written
`data`. -/
theorem restores_of_backedUp (S : Setting) (Z : StreamWriter)
    (hA : S.primitives.aead.Correct) (hR : S.primitives.aead.RejectsOtherKeys)
    (hZ : Z.WritesFrames S.primitives.compress)
    (deriveKek : String → String → Except String Bytes) (B : Block → Prop)
    (hB : Hashes S.primitives B) (passphrase salt : String) {w₀ w₁ w : World}
    (hbefore : Reach (step S.primitives.aead deriveKek) (Clean B) (World.init passphrase salt) w₀)
    {s : Snapshot} {blocks : List Block} {kek data : Bytes}
    (hfresh : w₀.store.cat.snapshots.find? s.id = none) (hkek : w₀.HasKek deriveKek kek)
    (hbacked : BackedUp S kek data s blocks)
    (hclean : Clean B w₀ (.command (.backup s blocks .completed)))
    (hbackup : step S.primitives.aead deriveKek w₀ (.command (.backup s blocks .completed)) =
      some w₁)
    (hafter : Reach (step S.primitives.aead deriveKek)
      (fun w e => Clean B w e ∧ e.inserts ≠ some s.id) w₁ w)
    {row : Snapshot} (hrow : w.store.cat.snapshots.find? s.id = some row)
    (hestado : row.estado = .completed) :
    ∃ writes, restore S.primitives Z deriveKek w.passphrase (download w.store.s3) w.store.cat s.id =
      (some writes, .restored) ∧ writes.flatten = data := by
  have hw₀ : Healthy B w₀ := hbefore.invariant (healthy_init passphrase salt)
    fun _ _ _ hw he hstep => hw.step he hstep
  obtain rfl := Option.some.inj hbackup
  have hw₁ := hw₀.command hclean
  have hk₁ := kept_backup hw₀ hfresh hbacked.sound hkek hbacked.wraps
  obtain ⟨hw, hk⟩ := hafter.invariant
    (I := fun w => Healthy B w ∧
      Kept S.primitives.aead deriveKek s.id S.dek (linksFor s.id blocks) w) ⟨hw₁, hk₁⟩
    fun _ _ _ hw he hstep => ⟨hw.1.step he.1 hstep, hw.2.step hA hR he.1 he.2 hstep⟩
  exact restore_kept hA hZ hB hbacked hclean.2.1 hw hk hrow hestado

/-! ### A backup, a rotation and a purge -/

/-- A derivation for examples. -/
def smallKdf (passphrase salt : String) : Except String Bytes := .ok (utf8 (passphrase ++ salt))

/-- The row of the backup. -/
def smallRow : Snapshot :=
  Rotation.newSnapshot (Catalog.runningSnapshot "snap-1")
    (generateDekForSnapshot clearAead (utf8 ("old" ++ "c2FsdA==")) "snap-1" [7] [0])

/-- Its blocks. -/
def smallUploads : List Block :=
  (smallBlocks.take 1).map fun b => { payload := b.payload, cHash := b.hash, now := 0 }

/-- What is done after it. -/
def smallRotation : Rotation.Command where
  oldPassphrase := "old"
  newPassphrase := "new"
  salt _ := 0
  draws _ := ([8], [1])
  raises _ := false

/-- The archive after the backup, and after the rotation and the purge. -/
def smallWorld : World × World :=
  let w := { World.init "old" "c2FsdA==" with
    store := perform (World.init "old" "c2FsdA==").store
      (.backup smallRow smallUploads .completed) }
  let w' := w.rotated smallRotation
    (Rotation.rotateKek clearAead (fun p salt => (smallKdf p salt).toOption) smallRotation
      w.store.cat)
  (w, { w' with store := perform w'.store (.executeTwoPhasePurge 500 .returns) })

/-- There is one block. -/
theorem eq_of_mem_smallUploads {b b' : Block} (hb : b ∈ smallUploads) (hb' : b' ∈ smallUploads) :
    b = b' := by
  have hlen : smallUploads.length = 1 := by decide +kernel
  obtain ⟨a, ha⟩ := List.length_eq_one_iff.1 hlen
  rw [ha, List.mem_singleton] at hb hb'
  rw [hb, hb']

theorem hashes_smallUploads : Hashes clearPrimitives (· ∈ smallUploads) where
  hash b hb := by
    obtain ⟨block, hmem, rfl⟩ := List.mem_map.1 hb
    have h : ∀ block ∈ smallBlocks, block.hash = clearPrimitives.sha256 block.payload := by
      decide +kernel
    exact h block (List.mem_of_mem_take hmem)
  inj b b' hb hb' _ := by rw [eq_of_mem_smallUploads hb hb']

theorem backedUp_small : BackedUp (smallSetting fun _ => false) (utf8 ("old" ++ "c2FsdA==")) [1]
    smallRow smallUploads := by
  obtain ⟨s, hrun, hs⟩ := runs_small (fun _ => false)
    (smallEvents ++ [.reader .put, .reader (.resumed false), .reader (.exited 0),
      .writer .get, .writer (.resumed false), .wake])
    (fun s => (s.estado, s.uploaded)) (.completed, smallBlocks.take 1) (by decide +kernel)
  obtain ⟨hestado, huploaded⟩ := Prod.mk.inj hs
  refine ⟨⟨smallNonces, s, hrun, hestado, ?_⟩, fun _ _ => rfl, ?_, rfl,
    Rotation.wraps_newSnapshot _ _ _ _⟩
  · rw [huploaded, smallUploads, List.map_map]
    rfl
  · intro b hb
    obtain ⟨block, -, rfl⟩ := List.mem_map.1 hb
    exact ⟨rfl, rfl⟩

/-- An output of one byte, restored after a rotation with the new passphrase. -/
theorem restores_of_backedUp_small : ∃ writes,
    restore clearPrimitives clearWriter smallKdf "new" (download smallWorld.2.store.s3)
      smallWorld.2.store.cat "snap-1" = (some writes, .restored) ∧ writes.flatten = [1] := by
  have hpass : smallWorld.2.passphrase = "new" := by decide +kernel
  have hrow : (smallWorld.2.store.cat.snapshots.find? "snap-1").map Snapshot.estado =
      some .completed := by decide +kernel
  obtain ⟨row, hrow, hestado⟩ := Option.map_eq_some_iff.1 hrow
  have hkek : (World.init "old" "c2FsdA==").HasKek smallKdf (utf8 ("old" ++ "c2FsdA==")) :=
    ⟨"c2FsdA==", rfl, rfl⟩
  have hclean : Clean (· ∈ smallUploads) (World.init "old" "c2FsdA==")
      (.command (.backup smallRow smallUploads .completed)) := by
    refine ⟨fun c _ => ?_, fun b hb => hb, fun id h => (nomatch h)⟩
    have halong : ∀ {bs : List Block} {seq : ℕ} {w : Store}, (∀ b ∈ bs, b.put = .returns) →
        Catalog.Along Catalog.PutsCleanly smallRow.id seq bs w := by
      intro bs
      induction bs with
      | nil => exact fun _ => trivial
      | cons b bs ih =>
        exact fun h => ⟨fun _ => by simp [h b], fun w' _ => ih fun b hb => h b (by simp [hb])⟩
    refine halong fun b hb => ?_
    obtain ⟨block, -, rfl⟩ := List.mem_map.1 hb
    rfl
  have hrotated : Reach (step clearAead smallKdf)
      (fun w e => Clean (· ∈ smallUploads) w e ∧ e.inserts ≠ some "snap-1") smallWorld.1
      (smallWorld.1.rotated smallRotation (Rotation.rotateKek clearAead
        (fun p salt => (smallKdf p salt).toOption) smallRotation smallWorld.1.store.cat)) :=
    Reach.refl.tail (e := .rotateKek smallRotation) ⟨trivial, fun h => (nomatch h)⟩ rfl
  have hafter : Reach (step clearAead smallKdf)
      (fun w e => Clean (· ∈ smallUploads) w e ∧ e.inserts ≠ some "snap-1") smallWorld.1
      smallWorld.2 :=
    hrotated.tail (e := .command (.executeTwoPhasePurge 500 .returns))
      ⟨⟨fun _ _ => Or.inl rfl, fun b hb => (nomatch hb), fun id h => (nomatch h)⟩,
        fun h => (nomatch h)⟩ rfl
  have hbackup : step clearAead smallKdf (World.init "old" "c2FsdA==")
      (.command (.backup smallRow smallUploads .completed)) = some smallWorld.1 := rfl
  have h := restores_of_backedUp (smallSetting fun _ => false) clearWriter clearAead_correct
    clearAead_rejectsOtherKeys clearWriter_writesFrames smallKdf (· ∈ smallUploads)
    hashes_smallUploads "old" "c2FsdA==" .refl (s := smallRow) rfl hkek backedUp_small hclean
    hbackup hafter hrow hestado
  rw [hpass] at h
  exact h

end Archive
end Boveda

/-
# `verify --quick`

`src/boveda/cli.py`.  The option asks the bucket for the length of each object and compares
it with `size_encrypted`, to which the 26 bytes of the header are added.  The column was
written by the upload that made the pool row, perhaps of another snapshot, so what the
comparison is worth is a matter of the whole history: `verifyQuick_verified_iff` says that
it accepts exactly the lengths of the payloads that were uploaded, and
`verifyQuick_of_verifyFull` that it accepts whatever `verify --full` does.
-/

import Boveda.Restore.Archive

namespace Boveda
namespace Restore

open Lib Crypto Pipeline
open Catalog (Snapshot SnapshotChunk ChunkPool Store Block Op stepOp storageKeyOf linksOf Sizes
  Settled)
open Rotation (masterSalt)
open Archive (Hashes)

/-! ### The command -/

/-- What the command reports. -/
inductive QuickReport
  | notCompleted
  | noBloques
  | noBucket
  | wrongSize (storageKey : String)
  | failedHead (storageKey error : String)
  | internal (error : String)
  | verified
  deriving DecidableEq, Repr

/-- The lines that it prints. -/
def QuickReport.lines (snapshotId : String) : QuickReport → List String
  | .notCompleted => [s!"Error: Snapshot {snapshotId} no existe o no está COMPLETED."]
  | .noBloques => ["Error: El snapshot no tiene bloques asociados."]
  | .noBucket => ["Error: S3_BUCKET no configurado en entorno."]
  | .wrongSize storageKey => [s!"❌ Discrepancia de tamaño en {storageKey}",
      s!"❌ Snapshot {snapshotId} está corrupto."]
  | .failedHead storageKey error => [s!"❌ Fallo HEAD {storageKey}: {error}",
      s!"❌ Snapshot {snapshotId} está corrupto."]
  | .internal error => [s!"Error interno durante verificación: {error}"]
  | .verified => [s!"✅ Integridad verificada exitosamente para {snapshotId}"]

/-- `b.storage_key` and `b.size_encrypted`: those of the pool row, and empty or 0 when there is
none. -/
def sizeOf (c : Catalog) (b : SnapshotChunk) : String × ℤ :=
  (((c.chunkPool.find? b.chunkHash).map ChunkPool.storageKey).getD "",
    ((c.chunkPool.find? b.chunkHash).map ChunkPool.sizeEncrypted).getD 0)

/-- The blocks of a snapshot. -/
def sizesOf (c : Catalog) (snapshotId : String) : List (String × ℤ) :=
  (linksOf c snapshotId).map (sizeOf c)

/-- The loop over the blocks, given the `ContentLength` that `head_object` answers. -/
def quickLoop (heads : String → Except String ℕ) : List (String × ℤ) → QuickReport
  | [] => .verified
  | (storageKey, sizeEncrypted) :: bloques =>
    match heads storageKey with
    | .error e => .failedHead storageKey e
    | .ok contentLength =>
      let expectedSize := sizeEncrypted + 26
      if (contentLength : ℤ) ≠ expectedSize then .wrongSize storageKey
      else quickLoop heads bloques

/-- `verify --quick`.  With `--full` besides, a passphrase is asked for; its KEK is derived and
not used, and the objects are looked at as without `--full`. -/
def verifyQuick (deriveKek : String → String → Except String Bytes) (bucket full : Option String)
    (heads : String → Except String ℕ) (c : Catalog) (snapshotId : String) : QuickReport :=
  match c.snapshots.find? snapshotId with
  | none => .notCompleted
  | some snapshot =>
    if snapshot.estado ≠ .completed then .notCompleted
    else if (sizesOf c snapshotId).isEmpty then .noBloques
    else if (bucket.getD "").isEmpty then .noBucket
    else
      match full, masterSalt c with
      | some passphrase, some salt =>
        match deriveKek passphrase salt with
        | .error e => .internal e
        | .ok _kek => quickLoop heads (sizesOf c snapshotId)
      | _, _ => quickLoop heads (sizesOf c snapshotId)

/-! ### What it accepts -/

variable {heads : String → Except String ℕ} {c : Catalog} {snapshotId : String}
  {bucket : Option String} {deriveKek : String → String → Except String Bytes}

theorem quickLoop_verified {bloques : List (String × ℤ)} : quickLoop heads bloques = .verified ↔
    ∀ b ∈ bloques, ∃ n : ℕ, heads b.1 = .ok n ∧ (n : ℤ) = b.2 + 26 := by
  induction bloques with
  | nil => simp [quickLoop]
  | cons b bloques ih =>
    obtain ⟨storageKey, sizeEncrypted⟩ := b
    rw [quickLoop]
    cases hhead : heads storageKey with
    | error e => simp [hhead]
    | ok n =>
      by_cases hn : (n : ℤ) = sizeEncrypted + 26
      · simp [hhead, hn, ih]
      · simp [hhead, hn]

/-- What both modes look at before the blocks. -/
structure Verifiable (bucket : Option String) (c : Catalog) (snapshotId : String) : Prop where
  completed : ∃ snapshot, c.snapshots.find? snapshotId = some snapshot ∧
    snapshot.estado = .completed
  bloques : linksOf c snapshotId ≠ []
  bucket : bucket.getD "" ≠ ""

theorem sizesOf_isEmpty : (sizesOf c snapshotId).isEmpty = true ↔ linksOf c snapshotId = [] := by
  rw [List.isEmpty_iff, sizesOf, List.map_eq_nil_iff]

theorem verifyQuick_verified : verifyQuick deriveKek bucket none heads c snapshotId = .verified ↔
    Verifiable bucket c snapshotId ∧ quickLoop heads (sizesOf c snapshotId) = .verified := by
  unfold verifyQuick
  constructor
  · intro h
    split at h
    · cases h
    · next snapshot hfind =>
      split_ifs at h with hestado hempty hbucket
      exact ⟨⟨⟨snapshot, hfind, not_not.1 hestado⟩, fun hnil => hempty (sizesOf_isEmpty.2 hnil),
        fun hb => hbucket (String.isEmpty_iff.2 hb)⟩, h⟩
  · rintro ⟨⟨⟨snapshot, hfind, hestado⟩, hbloques, hbucket⟩, hloop⟩
    simp only [hfind]
    rw [if_neg (not_not.2 hestado), if_neg fun h => hbloques (sizesOf_isEmpty.1 h),
      if_neg fun h => hbucket (String.isEmpty_iff.1 h)]
    exact hloop

/-- `verify --full` looks at the same things before the blocks. -/
theorem verifiable_of_verifyFull {P : Primitives} {passphrase : String}
    {objects : String → Except String Bytes}
    (h : verifyFull P deriveKek bucket passphrase objects c snapshotId = .verified) :
    Verifiable bucket c snapshotId := by
  unfold verifyFull at h
  split at h
  · cases h
  · next snapshot hfind =>
    split_ifs at h with hestado hempty hbucket
    refine ⟨⟨snapshot, hfind, not_not.1 hestado⟩, fun hnil => hempty ?_,
      fun hb => hbucket (String.isEmpty_iff.2 hb)⟩
    rw [List.isEmpty_iff, bloquesOf, List.map_eq_nil_iff]
    exact hnil

/-! ### Every run -/

/-- The archive between two actions, whatever has failed: its catalog is settled, and its
sizes are those of blocks. -/
structure Sized (B : Block → Prop) (w : Archive.World) : Prop where
  settled : Settled w.store.cat
  sizes : Sizes B w.store

/-- The blocks of an action. -/
def blocksOf : Archive.Action → List Block
  | .command op => op.blocks
  | .rotateKek _ => []

theorem Sized.step {B : Block → Prop} {A : Aead} {w w' : Archive.World} (hw : Sized B w)
    {e : Archive.Action} (he : ∀ b ∈ blocksOf e, B b) (h : Archive.step A deriveKek w e = some w') :
    Sized B w' := by
  cases e with
  | command op =>
    obtain rfl := Option.some.inj h
    obtain ⟨hsettled, hsizes⟩ := (Catalog.stepRule_sizes B).perform hw.settled hw.sizes
      (Catalog.opOk_of_forall he)
    exact ⟨hsettled, hsizes⟩
  | rotateKek cmd =>
    obtain rfl := Option.some.inj h
    obtain ⟨hpool, hlinks, hsnaps⟩ := Archive.rotated_frame
      (Rotation.commandEffect A (fun p salt => (deriveKek p salt).toOption) cmd w.store.cat)
    exact ⟨hw.settled.frame hpool hlinks hsnaps, fun h r hr => hw.sizes h r (hpool ▸ hr)⟩

theorem sized_init (B : Block → Prop) (passphrase salt : String) :
    Sized B (Archive.World.init passphrase salt) where
  settled := Catalog.settled_empty.frame rfl rfl fun _ h => h
  sizes _ _ h := nomatch h

/-- The length that is expected of the object of a block is that of its payload. -/
theorem Sized.sizeOf {P : Primitives} {B : Block → Prop} (hB : Hashes P B) {w : Archive.World}
    (hw : Sized B w) {l : SnapshotChunk} (hl : l ∈ linksOf w.store.cat snapshotId) :
    (sizeOf w.store.cat l).1 = storageKeyOf l.chunkHash ∧ (∃ b, B b ∧ b.cHash = l.chunkHash) ∧
      ∀ b, B b → b.cHash = l.chunkHash → (sizeOf w.store.cat l).2 + 26 = b.payload.length := by
  obtain ⟨r, -, hr, -⟩ := hw.settled.coherent.exists_row (List.mem_filter.1 hl).1
  obtain ⟨b, hb, hhash, hsize⟩ := hw.sizes _ r hr
  refine ⟨?_, ⟨b, hb, hhash⟩, fun b' hb' hhash' => ?_⟩
  · simp [Restore.sizeOf, hr, hw.settled.keys _ r hr]
  · have hsame : b'.payload = b.payload := by
      refine hB.inj b' b hb' hb ?_
      rw [← hB.hash b' hb', ← hB.hash b hb, hhash, hhash']
    simp [Restore.sizeOf, hr, hsize, hsame]

/-- **What `verify --quick` accepts.**  In every state that actions lead to from `init`,
whatever has failed, it verifies a `COMPLETED` snapshot exactly when the bucket answers, for
each of its blocks, the length of the payloads that were uploaded under the hash of the block. -/
theorem verifyQuick_verified_iff (P : Primitives) (B : Block → Prop) (hB : Hashes P B)
    (deriveKek : String → String → Except String Bytes) (passphrase salt : String)
    {w : Archive.World}
    (hrun : Reach (Archive.step P.aead deriveKek) (fun _ e => ∀ b ∈ blocksOf e, B b)
      (Archive.World.init passphrase salt) w)
    (bucket : Option String) (heads : String → Except String ℕ) (snapshotId : String) :
    verifyQuick deriveKek bucket none heads w.store.cat snapshotId = .verified ↔
      Verifiable bucket w.store.cat snapshotId ∧
        ∀ l ∈ linksOf w.store.cat snapshotId, ∀ b, B b → b.cHash = l.chunkHash →
          heads (storageKeyOf l.chunkHash) = .ok b.payload.length := by
  have hw : Sized B w := hrun.invariant (sized_init B passphrase salt)
    fun _ _ _ hw he hstep => hw.step he hstep
  rw [verifyQuick_verified, quickLoop_verified, sizesOf, List.forall_mem_map]
  refine and_congr_right fun _ => forall₂_congr fun l hl => ?_
  obtain ⟨hkey, ⟨b, hb, hhash⟩, hlen⟩ := hw.sizeOf hB hl
  rw [hkey]
  constructor
  · rintro ⟨n, hn, hsize⟩ b' hb' hhash'
    rw [hn, Int.ofNat_inj.1 (hsize.trans (hlen b' hb' hhash'))]
  · exact fun h => ⟨b.payload.length, h b hb hhash, (hlen b hb hhash).symm⟩

open Archive (smallWorld smallUploads smallKdf smallRotation hashes_smallUploads) in
/-- The archive after a backup, a rotation and a purge. -/
theorem reach_smallWorld : Reach (Archive.step clearAead smallKdf)
    (fun _ e => ∀ b ∈ blocksOf e, b ∈ smallUploads) (Archive.World.init "old" "c2FsdA==")
    smallWorld.2 := by
  have hbackup : Reach (Archive.step clearAead smallKdf)
      (fun _ e => ∀ b ∈ blocksOf e, b ∈ smallUploads) (Archive.World.init "old" "c2FsdA==")
      smallWorld.1 :=
    Reach.refl.tail (e := .command (.backup Archive.smallRow smallUploads .completed))
      (fun b hb => hb) rfl
  have hrotated : Reach (Archive.step clearAead smallKdf)
      (fun _ e => ∀ b ∈ blocksOf e, b ∈ smallUploads) (Archive.World.init "old" "c2FsdA==")
      (smallWorld.1.rotated smallRotation (Rotation.rotateKek clearAead
        (fun p salt => (smallKdf p salt).toOption) smallRotation smallWorld.1.store.cat)) :=
    hbackup.tail (e := .rotateKek smallRotation) (fun b hb => (nomatch hb)) rfl
  exact hrotated.tail (e := .command (.executeTwoPhasePurge 500 .returns))
    (fun b hb => (nomatch hb)) rfl

open Archive (smallWorld smallUploads smallKdf) in
/-- There, for a bucket that answers 120. -/
theorem verifyQuick_verified_iff_small :
    verifyQuick smallKdf (some "bucket") none (fun _ => .ok 120) smallWorld.2.store.cat "snap-1" =
        .verified ↔
      Verifiable (some "bucket") smallWorld.2.store.cat "snap-1" ∧
        ∀ l ∈ linksOf smallWorld.2.store.cat "snap-1", ∀ b ∈ smallUploads,
          b.cHash = l.chunkHash → (.ok 120 : Except String ℕ) = .ok b.payload.length :=
  verifyQuick_verified_iff clearPrimitives (· ∈ smallUploads) Archive.hashes_smallUploads smallKdf
    "old" "c2FsdA==" reach_smallWorld (some "bucket") (fun _ => .ok 120) "snap-1"

/-- **What `verify --full` accepts, `verify --quick` accepts**, in every state that actions
lead to from `init`, as long as what is served has the SHA-256 of no block but itself. -/
theorem verifyQuick_of_verifyFull (P : Primitives) (B : Block → Prop) (hB : Hashes P B)
    (deriveKek : String → String → Except String Bytes) (passphrase salt typed : String)
    {w : Archive.World}
    (hrun : Reach (Archive.step P.aead deriveKek) (fun _ e => ∀ b ∈ blocksOf e, B b)
      (Archive.World.init passphrase salt) w)
    (bucket : Option String) (objects : String → Except String Bytes) (snapshotId : String)
    (hserved : ∀ key raw b, objects key = .ok raw → B b → P.sha256 raw = P.sha256 b.payload →
      raw = b.payload)
    (hfull : verifyFull P deriveKek bucket typed objects w.store.cat snapshotId = .verified) :
    verifyQuick deriveKek bucket none (fun key => (objects key).map List.length) w.store.cat
      snapshotId = .verified := by
  have hw : Sized B w := hrun.invariant (sized_init B passphrase salt)
    fun _ _ _ hw he hstep => hw.step he hstep
  have hloop := verifyLoop_verified.1 (verifyFull_verified hfull).2
  rw [verifyQuick_verified, quickLoop_verified, sizesOf, List.forall_mem_map]
  refine ⟨verifiable_of_verifyFull hfull, fun l hl => ?_⟩
  obtain ⟨hkey, ⟨b, hb, hhash⟩, hlen⟩ := hw.sizeOf hB hl
  -- the object has the hash of the row, and so it is the payload of the block
  obtain ⟨raw, hraw, hsha⟩ := hloop _ (List.mem_map_of_mem hl)
  have hraw : objects (sizeOf w.store.cat l).1 = .ok raw := hraw
  have hsame : raw = b.payload := by
    refine hserved _ raw b hraw hb ?_
    rw [hsha, ← hB.hash b hb, hhash]
  refine ⟨raw.length, by rw [hraw]; rfl, ?_⟩
  rw [hsame]
  exact (hlen b hb hhash).symm

open Archive (smallWorld smallUploads smallKdf) in
/-- There, for the bucket of `smallDownload`. -/
theorem verifyQuick_of_verifyFull_small :
    verifyQuick smallKdf (some "bucket") none (fun key => (smallDownload 0 key).map List.length)
      smallWorld.2.store.cat "snap-1" = .verified := by
  have hblocks : ∀ block ∈ smallBlocks, ∀ block' ∈ smallBlocks,
      clearPrimitives.sha256 block.payload = clearPrimitives.sha256 block'.payload →
        block.payload = block'.payload := by decide +kernel
  refine verifyQuick_of_verifyFull clearPrimitives (· ∈ smallUploads) Archive.hashes_smallUploads
    smallKdf "old" "c2FsdA==" "new" reach_smallWorld (some "bucket") (smallDownload 0) "snap-1"
    (fun key raw b hraw hb hsha => ?_) (by decide +kernel)
  obtain ⟨block', hmem', rfl⟩ := List.mem_map.1 hb
  unfold smallDownload at hraw
  split at hraw
  · next block hfind =>
    obtain rfl := Except.ok.inj hraw
    exact hblocks block (List.mem_of_find?_eq_some hfind) block' (List.mem_of_mem_take hmem') hsha
  · cases hraw

end Restore
end Boveda

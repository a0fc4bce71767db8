/-
# `verify --full`

`src/boveda/cli.py`.  The option is there to download a snapshot and validate its
cryptography; what it does with the blocks is to compare the SHA-256 of each object
with the hash of its row.  It asks for the passphrase and derives the KEK, and then
makes no use of it: `verifyFull_passphrase`.

`restore_snapshot` makes the same comparison, and besides unwraps the DEK, reads each
header, compares the sequence numbers, checks the GCM tags and writes through one zstd
decompressor.  `verifiedRestores_iff` says that a verified snapshot is restored
exactly when these other checks pass (`Decryptable`), and `not_verifiedRestores_small`
is a wrong passphrase: verified, and not restored.
-/

import Boveda.Crypto.Rotation
import Boveda.Restore.Blocks

namespace Boveda
namespace Restore

open Lib Crypto Pipeline
open Catalog (Snapshot SnapshotChunk ChunkPool)
open Rotation (masterSalt)

/-! ### The command -/

/-- `session.query(Bloque).filter_by(snapshot_id=…).all()`; the storage key is that of the
pool row, and empty when there is none. -/
def bloquesOf (c : Catalog) (snapshotId : String) : List Bloque :=
  (c.snapshotChunks.rows.filter fun l => l.snapshotId = snapshotId).map fun l =>
    ⟨l.chunkSeq, l.chunkHash, ((c.chunkPool.find? l.chunkHash).map ChunkPool.storageKey).getD ""⟩

/-- What the command reports. -/
inductive Report
  | notCompleted
  | noBloques
  | noBucket
  | corruptHash (storageKey : String)
  | failedGet (storageKey error : String)
  | internal (error : String)
  | verified
  deriving DecidableEq, Repr

/-- The lines that it prints. -/
def Report.lines (snapshotId : String) : Report → List String
  | .notCompleted => [s!"Error: Snapshot {snapshotId} no existe o no está COMPLETED."]
  | .noBloques => ["Error: El snapshot no tiene bloques asociados."]
  | .noBucket => ["Error: S3_BUCKET no configurado en entorno."]
  | .corruptHash storageKey => [s!"❌ Hash corrupto en {storageKey} (Bit-rot detectado)",
      s!"❌ Snapshot {snapshotId} está corrupto."]
  | .failedGet storageKey error => [s!"❌ Fallo GET {storageKey}: {error}",
      s!"❌ Snapshot {snapshotId} está corrupto."]
  | .internal error => [s!"Error interno durante verificación: {error}"]
  | .verified => [s!"✅ Integridad verificada exitosamente para {snapshotId}"]

section

variable (P : Primitives) (deriveKek : String → String → Except String Bytes)

/-- The loop over the blocks. -/
def verifyLoop (objects : String → Except String Bytes) : List Bloque → Report
  | [] => .verified
  | b :: bloques =>
    match objects b.storageKey with
    | .error e => .failedGet b.storageKey e
    | .ok payload =>
      if P.sha256 payload ≠ b.hashSha256 then .corruptHash b.storageKey
      else verifyLoop objects bloques

/-- `verify --full`, with the environment variable `S3_BUCKET` and the passphrase that is
typed.  Passing it on to `derive_kek` can raise; the KEK itself is not used. -/
def verifyFull (bucket : Option String) (passphrase : String)
    (objects : String → Except String Bytes) (c : Catalog) (snapshotId : String) : Report :=
  match c.snapshots.find? snapshotId with
  | none => .notCompleted
  | some snapshot =>
    if snapshot.estado ≠ .completed then .notCompleted
    else if (bloquesOf c snapshotId).isEmpty then .noBloques
    else if (bucket.getD "").isEmpty then .noBucket
    else
      match masterSalt c with
      | none => verifyLoop P objects (bloquesOf c snapshotId)
      | some salt =>
        match deriveKek passphrase salt with
        | .error e => .internal e
        | .ok _kek => verifyLoop P objects (bloquesOf c snapshotId)

variable (Z : StreamWriter)

/-- A snapshot that `verify --full` reports as verified is restored, with the KEK of the same
passphrase, from the same blocks and objects. -/
def VerifiedRestores (bucket : Option String) (passphrase : String)
    (objects : String → Except String Bytes) (c : Catalog) (snapshotId : String) : Prop :=
  verifyFull P deriveKek bucket passphrase objects c snapshotId = .verified →
    ∀ snapshot salt kek, c.snapshots.find? snapshotId = some snapshot →
      masterSalt c = some salt → deriveKek passphrase salt = .ok kek →
      (restoreSnapshot P Z snapshot kek (.list (bloquesOf c snapshotId))
        fun _ key => objects key).2 = .ok ()

/-! ### What only a restore checks -/

/-- The object of a block has a header of the right number, and its ciphertext is
authentic for the DEK, the header and the snapshot. -/
def Opens (dek : Bytes) (snapshotId : String) (bloque : Bloque) (raw plaintext : Bytes) : Prop :=
  26 ≤ raw.length ∧ ∃ cSeq nonce len, parseChunkHeader (raw.take 26) = .ok (cSeq, nonce, len) ∧
    (cSeq : ℤ) = bloque.chunkSeq ∧
    P.aead.decrypt dek nonce (raw.drop 26) (createAad (raw.take 26) snapshotId) = some plaintext

/-- The decompressor takes these writes and the flush. -/
inductive Accepts : Z.State → List Bytes → Prop
  | flush {s : Z.State} {out : Bytes} : Z.flush s = (out, .ok ()) → Accepts s []
  | write {s s' : Z.State} {plaintext out : Bytes} {plaintexts : List Bytes} :
    Z.write s plaintext = (out, .ok s') → Accepts s' plaintexts →
    Accepts s (plaintext :: plaintexts)

/-- The KEK opens the wrapped DEK, the DEK each object, at its place, and what comes out
in the order of the blocks can be decompressed. -/
def Decryptable (snapshot : Snapshot) (kek : Bytes) (bloques : Bloques)
    (objects : String → Except String Bytes) : Prop :=
  ∃ dek plaintexts, unwrapDek P.aead kek snapshot.encryptedDek snapshot.dekNonce snapshot.dekTag
      snapshot.id = some dek ∧
    List.Forall₂ (fun bloque plaintext => ∃ raw, objects bloque.storageKey = .ok raw ∧
      Opens P dek snapshot.id bloque raw plaintext) bloques.inOrder plaintexts ∧
    Accepts Z Z.init plaintexts

end

variable {P : Primitives} {Z : StreamWriter} {deriveKek : String → String → Except String Bytes}
  {objects : String → Except String Bytes} {dek : Bytes} {snapshotId : String} {bloque : Bloque}
  {bloques : List Bloque} {raw plaintext : Bytes} {c : Catalog} {bucket : Option String}
  {passphrase : String}

/-- **A verified list of blocks** is one whose objects have the hashes of their rows. -/
theorem verifyLoop_verified : verifyLoop P objects bloques = .verified ↔
    ∀ b ∈ bloques, ∃ payload, objects b.storageKey = .ok payload ∧
      P.sha256 payload = b.hashSha256 := by
  induction bloques with
  | nil => simp [verifyLoop]
  | cons b bloques ih =>
    rw [verifyLoop]
    cases hget : objects b.storageKey with
    | error e => simp [hget]
    | ok payload =>
      by_cases hhash : P.sha256 payload = b.hashSha256
      · simp [hget, hhash, ih]
      · simp [hget, hhash]

/-- What the report of a verified snapshot says. -/
theorem verifyFull_verified
    (h : verifyFull P deriveKek bucket passphrase objects c snapshotId = .verified) :
    (∀ snapshot, c.snapshots.find? snapshotId = some snapshot → snapshot.estado = .completed) ∧
      verifyLoop P objects (bloquesOf c snapshotId) = .verified := by
  unfold verifyFull at h
  split at h
  · cases h
  · next snapshot hfind =>
    split_ifs at h with hestado hempty hbucket
    refine ⟨fun s hs => ?_, ?_⟩
    · rw [hfind] at hs
      exact Option.some.inj hs ▸ not_not.1 hestado
    · split at h
      · exact h
      · split at h
        · cases h
        · exact h

/-- **The passphrase makes no difference** to the report, as long as a KEK can be derived
from it. -/
theorem verifyFull_passphrase {passphrase' : String}
    (h : ∀ salt, masterSalt c = some salt → ∃ kek kek', deriveKek passphrase salt = .ok kek ∧
      deriveKek passphrase' salt = .ok kek') :
    verifyFull P deriveKek bucket passphrase objects c snapshotId =
      verifyFull P deriveKek bucket passphrase' objects c snapshotId := by
  unfold verifyFull
  cases hsalt : masterSalt c with
  | none => rfl
  | some salt =>
    obtain ⟨kek, kek', hkek, hkek'⟩ := h salt hsalt
    simp only [hkek, hkek']

/-- The checks of a restore, apart from the hash. -/
theorem checkBloque_ok_iff (hhash : P.sha256 raw = bloque.hashSha256) :
    checkBloque P dek snapshotId bloque raw = .ok plaintext ↔
      Opens P dek snapshotId bloque raw plaintext := by
  constructor
  · intro h
    obtain ⟨cSeq, nonce, len, hlen, -, hparse, hseq, hdec⟩ := checkBloque_ok h
    exact ⟨hlen, cSeq, nonce, len, hparse, hseq, hdec⟩
  · rintro ⟨hlen, cSeq, nonce, len, hparse, hseq, hdec⟩
    unfold checkBloque
    rw [if_neg (not_lt.2 hlen), if_neg (not_not.2 hhash)]
    simp only [hparse, hdec, hseq, ne_eq, not_true_eq_false, if_false]

/-- One round of the loop, for a block whose object is there. -/
theorem exists_restoreLoop_cons {k : ℕ} {s s' : Z.State}
    (hget : objects bloque.storageKey = .ok raw) :
    (∃ outs, restoreLoop P Z dek snapshotId (fun _ key => objects key) k s (bloque :: bloques) =
        (outs, .ok s')) ↔
      ∃ plaintext o s₁ outs, checkBloque P dek snapshotId bloque raw = .ok plaintext ∧
        Z.write s plaintext = (o, .ok s₁) ∧
        restoreLoop P Z dek snapshotId (fun _ key => objects key) (k + 1) s₁ bloques =
          (outs, .ok s') := by
  rw [restoreLoop]
  simp only [hget]
  cases hcheck : checkBloque P dek snapshotId bloque raw with
  | error e => simp
  | ok plaintext =>
    cases hwrite : Z.write s plaintext with
    | mk o r =>
      cases r with
      | error e => simp [hwrite]
      | ok s₁ => simp [hwrite, Prod.ext_iff]

/-- **The loop of a restore and its flush**, over blocks whose objects have the right
hashes: they get to the end exactly when every object opens and the decompressor accepts
what comes out. -/
theorem restoreLoop_flush_iff (dek : Bytes) (snapshotId : String)
    (hhash : ∀ b ∈ bloques, ∃ payload, objects b.storageKey = .ok payload ∧
      P.sha256 payload = b.hashSha256) (k : ℕ) (s : Z.State) :
    (∃ outs s' out, restoreLoop P Z dek snapshotId (fun _ key => objects key) k s bloques =
        (outs, .ok s') ∧ Z.flush s' = (out, .ok ())) ↔
      ∃ plaintexts, List.Forall₂ (fun bloque plaintext => ∃ raw,
          objects bloque.storageKey = .ok raw ∧ Opens P dek snapshotId bloque raw plaintext)
          bloques plaintexts ∧ Accepts Z s plaintexts := by
  induction bloques generalizing k s with
  | nil =>
    constructor
    · rintro ⟨outs, s', out, hloop, hflush⟩
      obtain rfl : s = s' := Except.ok.inj (Prod.mk.inj hloop).2
      exact ⟨[], .nil, .flush hflush⟩
    · rintro ⟨plaintexts, hall, haccepts⟩
      cases hall
      cases haccepts with
      | flush hflush => exact ⟨[], s, _, rfl, hflush⟩
  | cons b bloques ih =>
    obtain ⟨raw, hget, hsha⟩ := hhash b (List.mem_cons_self ..)
    have hrest := ih fun b' hb' => hhash b' (List.mem_cons_of_mem _ hb')
    constructor
    · rintro ⟨outs, s', out, hloop, hflush⟩
      obtain ⟨plaintext, o, s₁, outs', hcheck, hwrite, hloop'⟩ :=
        (exists_restoreLoop_cons hget).1 ⟨outs, hloop⟩
      obtain ⟨plaintexts, hall, haccepts⟩ := (hrest (k + 1) s₁).1 ⟨outs', s', out, hloop', hflush⟩
      exact ⟨plaintext :: plaintexts,
        .cons ⟨raw, hget, (checkBloque_ok_iff hsha).1 hcheck⟩ hall, .write hwrite haccepts⟩
    · rintro ⟨plaintexts, hall, haccepts⟩
      cases hall with
      | @cons _ plaintext _ plaintexts hopens hall =>
        obtain ⟨raw', hget', hopens⟩ := hopens
        obtain rfl := Except.ok.inj (hget.symm.trans hget')
        cases haccepts with
        | @write _ s₁ _ o _ hwrite haccepts =>
          obtain ⟨outs', s', out, hloop', hflush⟩ :=
            (hrest (k + 1) s₁).2 ⟨plaintexts, hall, haccepts⟩
          obtain ⟨outs, hloop⟩ := (exists_restoreLoop_cons hget).2
            ⟨plaintext, o, s₁, outs', (checkBloque_ok_iff hsha).2 hopens, hwrite, hloop'⟩
          exact ⟨outs, s', out, hloop, hflush⟩

/-- **A restore of verified blocks** raises no error exactly when they can be decrypted. -/
theorem restoreSnapshot_ok_iff {snapshot : Snapshot} {kek : Bytes}
    (hestado : snapshot.estado = .completed)
    (hhash : ∀ b ∈ bloques, ∃ payload, objects b.storageKey = .ok payload ∧
      P.sha256 payload = b.hashSha256) :
    (restoreSnapshot P Z snapshot kek (.list bloques) fun _ key => objects key).2 = .ok () ↔
      Decryptable P Z snapshot kek (.list bloques) objects := by
  have hsorted : ∀ b ∈ (Bloques.list bloques).inOrder, ∃ payload,
      objects b.storageKey = .ok payload ∧ P.sha256 payload = b.hashSha256 :=
    fun b hb => hhash b ((inOrder_perm (.list bloques)).mem_iff.1 hb)
  have hloop := fun dek => restoreLoop_flush_iff dek snapshot.id hsorted 0 Z.init
  unfold restoreSnapshot Decryptable
  rw [if_neg (not_not.2 hestado)]
  cases hdek : unwrapDek P.aead kek snapshot.encryptedDek snapshot.dekNonce snapshot.dekTag
      snapshot.id with
  | none => simp
  | some dek =>
    simp only [Option.some.injEq, exists_and_left, exists_eq_left']
    rw [← hloop dek]
    generalize restoreLoop P Z dek snapshot.id (fun _ key => objects key) 0 Z.init
      (Bloques.list bloques).inOrder = r
    obtain ⟨outs, e | s⟩ := r
    · simp
    · cases hflush : Z.flush s with
      | mk out r =>
        cases r <;> simp [hflush]

/-- **Exactly when a verified snapshot is restored**: when the checks pass that only a
restore makes. -/
theorem verifiedRestores_iff (P : Primitives) (deriveKek : String → String → Except String Bytes)
    (Z : StreamWriter) (bucket : Option String) (passphrase : String)
    (objects : String → Except String Bytes) (c : Catalog) (snapshotId : String) :
    VerifiedRestores P deriveKek Z bucket passphrase objects c snapshotId ↔
      (verifyFull P deriveKek bucket passphrase objects c snapshotId = .verified →
        ∀ snapshot salt kek, c.snapshots.find? snapshotId = some snapshot →
          masterSalt c = some salt → deriveKek passphrase salt = .ok kek →
          Decryptable P Z snapshot kek (.list (bloquesOf c snapshotId)) objects) := by
  refine forall_congr' fun hverified => ?_
  obtain ⟨hestado, hloop⟩ := verifyFull_verified hverified
  refine forall_congr' fun snapshot => forall_congr' fun salt => forall_congr' fun kek => ?_
  refine forall_congr' fun hfind => forall_congr' fun _ => forall_congr' fun _ => ?_
  exact restoreSnapshot_ok_iff (hestado snapshot hfind) (verifyLoop_verified.1 hloop)

/-- The catalog after the backup of two chunks. -/
def smallCatalog : Catalog where
  snapshots := Table.empty.insert smallSnapshot rfl
  chunkPool := ⟨smallBlocks.map fun block =>
    { Catalog.newPool 0 block.hash block.payload.length with refCount := 1 }, by decide +kernel⟩
  snapshotChunks := ⟨smallBlocks.map fun block => ⟨"snap-1", block.seq, block.hash⟩,
    by decide +kernel⟩
  configuracion := Table.empty.insert ⟨"master_salt", "salt"⟩ rfl

/-- A derivation that knows one passphrase. -/
def smallKek (passphrase _salt : String) : Except String Bytes :=
  if passphrase = "good" then .ok [9] else .ok [8]

/-- **A wrong passphrase is verified**, and with it the snapshot cannot be restored. -/
theorem not_verifiedRestores_small : ¬ VerifiedRestores clearPrimitives smallKek clearWriter
    (some "bucket") "wrong" (smallDownload 0) smallCatalog "snap-1" := by
  intro h
  have hverified : verifyFull clearPrimitives smallKek (some "bucket") "wrong" (smallDownload 0)
      smallCatalog "snap-1" = .verified := by decide +kernel
  have hrestored := h hverified smallSnapshot "salt" [8] rfl rfl rfl
  exact absurd hrestored (by decide +kernel)

end Restore
end Boveda

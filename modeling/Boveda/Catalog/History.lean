/-
# Backups and retention runs one after the other, with failures

No two commands overlap, but every call to the bucket may fail: a `put_object`
raises, whether or not the object was stored, and a `delete_objects` raises
after any of its keys were removed.  An `Op` is a whole backup, up to its first
block that fails, a whole `execute_two_phase_purge`, or a transaction on a
snapshot; the states between two of them are those in which nothing is in
flight.

In all of these states the catalog is `Settled`: the counts are right and no row
is claimed.  What an upload and a purge do to a settled catalog, whatever fails,
is `Block.upload_spec` and `executeTwoPhasePurge_spec`.  What fails makes a
difference to the objects and to the rows without links; that is the subject of
`Boveda.Catalog.Failures`.
-/

import Boveda.Lib.Runs
import Boveda.Catalog.Upload

namespace Boveda
namespace Catalog

open Lib

/-! ### Calls that may fail -/

/-- What becomes of a `put_object`, after its retries. -/
inductive PutOutcome
  | returns
  | raises (stored : Bool)
  deriving DecidableEq, Repr

/-- What becomes of a `delete_objects`, after its retries. -/
inductive DeleteOutcome
  | returns
  | raises (removed : List String)
  deriving DecidableEq, Repr

/-- Whether S3 removes the key, if it is asked to. -/
def DeleteOutcome.removes : DeleteOutcome → String → Bool
  | .returns, _ => true
  | .raises removed, key => key ∈ removed

/-- `upload_to_s3`. -/
def uploadToS3 (o : PutOutcome) (key : String) (payload : Bytes) (s3 : ObjectStore) :
    ObjectStore × Except UploadError Unit :=
  match o with
  | .returns => (putObject key payload s3, .ok ())
  | .raises stored =>
    (if stored then putObject key payload s3 else s3, .error (.s3 "put_object"))

/-- `delete_objects_s3`. -/
def deleteObjectsS3 (o : DeleteOutcome) (keys : List String) (s3 : ObjectStore) :
    ObjectStore × Except UploadError Unit :=
  match o with
  | .returns => (deleteObjects keys s3, .ok ())
  | .raises removed =>
    (deleteObjects (keys.filter (DeleteOutcome.raises removed).removes) s3,
      .error (.s3 "delete_objects"))

/-! ### Operations -/

/-- A block of a backup, and what happens to its upload. -/
structure Block where
  payload : Bytes
  cHash : String
  now : Time
  put : PutOutcome := .returns
  refError : Option DbError := none

/-- The `upload_callback` of a block. -/
def Block.upload (b : Block) (id : String) (seq : ℕ) (w : Store) :
    Store × Except UploadError Unit :=
  uploadCallback .plain (uploadToS3 b.put) b.refError b.now id seq b.payload b.cHash w

/-- The uploads of a backup, in order and up to the first that raises. -/
def uploadAll (id : String) : ℕ → List Block → Store → Store
  | _, [], w => w
  | seq, b :: bs, w =>
    match b.upload id seq w with
    | (w', .ok ()) => uploadAll id (seq + 1) bs w'
    | (w', .error _) => w'

/-- `backup`: the snapshot, its blocks, and the `estado` it ends with, which is
a matter of the pipeline (`Boveda.Pipeline.Streaming`). -/
def backup (s : Snapshot) (blocks : List Block) (estado : Estado) (w : Store) : Store :=
  match insertSnapshot s w.cat with
  | .error _ => w
  | .ok cat =>
    let w' := uploadAll s.id 0 blocks ⟨cat, w.s3⟩
    { w' with cat := setEstado s.id estado w'.cat }

/-- `execute_two_phase_purge`, with `purged_count`. -/
def executeTwoPhasePurge (batchSize : ℕ) (o : DeleteOutcome) (w : Store) :
    Store × Except DbError ℕ :=
  let (batch, cat) := purgePhase1 batchSize w.cat
  if batch.isEmpty then (w, .ok 0)
  else
    match deleteObjectsS3 o (batch.map Prod.snd) w.s3 with
    | (s3, .ok ()) =>
      match purgePhase2 (batch.map Prod.fst) cat with
      | .ok cat' => (⟨cat', s3⟩, .ok batch.length)
      | .error e => (⟨cat, s3⟩, .error e)
    | (s3, .error _) => (⟨purgeRevert (batch.map Prod.fst) cat, s3⟩, .ok 0)

/-- The operations of a history. -/
inductive Op
  | backup (s : Snapshot) (blocks : List Block) (estado : Estado)
  | setEstado (id : String) (estado : Estado)
  | purgeSnapshot (id : String) (now : Time)
  | executeTwoPhasePurge (batchSize : ℕ) (o : DeleteOutcome)

/-- The store after an operation. -/
def perform (w : Store) : Op → Store
  | .backup s blocks estado => backup s blocks estado w
  | .setEstado id estado => { w with cat := setEstado id estado w.cat }
  | .purgeSnapshot id now => { w with cat := orUnchanged w.cat (purgeSnapshot now id w.cat) }
  | .executeTwoPhasePurge n o => (executeTwoPhasePurge n o w).1

/-- An operation is one step. -/
def stepOp (w : Store) (op : Op) : Option Store := some (perform w op)

/-- Before the first command. -/
def Store.init : Store := ⟨empty, fun _ => none⟩

/-! ### What always holds between operations -/

/-- The catalog when nothing is in flight. -/
structure Settled (c : Catalog) : Prop where
  coherent : RefCountInv c
  keys : ∀ h r, c.chunkPool.find? h = some r → r.storageKey = storageKeyOf h
  unclaimed : ∀ h r, c.chunkPool.find? h = some r → r.state = .active ∨ r.state = .pendingDelete
  owned : ∀ l ∈ c.snapshotChunks.rows, (c.snapshots.find? l.snapshotId).isSome = true

theorem settled_empty : Settled empty where
  coherent := RefCountInv.empty
  keys _ _ h := nomatch h
  unclaimed _ _ h := nomatch h
  owned _ h := nomatch h

namespace Settled

variable {c c' : Catalog}

/-- A statement that leaves both tables of chunks alone and deletes no snapshot. -/
theorem frame (hc : Settled c) (hp : c'.chunkPool = c.chunkPool)
    (hl : c'.snapshotChunks = c.snapshotChunks)
    (hs : ∀ id, (c.snapshots.find? id).isSome = true → (c'.snapshots.find? id).isSome = true) :
    Settled c' where
  coherent := hc.coherent.frame hp hl
  keys := hp ▸ hc.keys
  unclaimed := hp ▸ hc.unclaimed
  owned l hmem := hs _ (hc.owned l (hl ▸ hmem))

theorem setEstado (hc : Settled c) (id : String) (estado : Estado) :
    Settled (Catalog.setEstado id estado c) := by
  refine hc.frame rfl rfl fun k hk => ?_
  rw [find?_setEstado]
  split_ifs
  · rwa [Option.isSome_map]
  · exact hk

theorem insertSnapshot {s : Snapshot} (hc : Settled c)
    (h : Catalog.insertSnapshot s c = .ok c') : Settled c' := by
  obtain ⟨-, hfind, hp, hl⟩ := insertSnapshot_ok h
  refine hc.frame hp hl fun k hk => ?_
  rw [hfind]
  split_ifs
  · rfl
  · exact hk

/-- One link less: the row stays, `ACTIVE` or, after its last link, `PENDING_DELETE`. -/
theorem deleteSnapshotChunk (hc : Settled c) (now : Time) {l : SnapshotChunk}
    (hl : l ∈ c.snapshotChunks.rows) : Settled (Catalog.deleteSnapshotChunk now c l) := by
  have hrows := RowsFrom.deleteSnapshotChunk now c l
  exact ⟨hc.coherent.deleteSnapshotChunk now hl, hrows.keys hc.keys,
    hrows.state (Q := fun st => st = .active ∨ st = .pendingDelete) (Or.inr rfl) hc.unclaimed,
    fun a ha => hc.owned a (Table.mem_delete.1 ha).1⟩

/-- Unlinking a snapshot and deleting its row, for any property of the catalog
that the deletion of one link keeps. -/
theorem purgeSnapshot_rule {J : Catalog → Prop} {now : Time} {id : String} (hc : Settled c)
    (hJ : J c)
    (hstep : ∀ c l, l ∈ c.snapshotChunks.rows → Settled c → J c →
      J (Catalog.deleteSnapshotChunk now c l))
    (hframe : ∀ c c' : Catalog, c'.chunkPool = c.chunkPool →
      c'.snapshotChunks = c.snapshotChunks → J c → J c')
    (h : Catalog.purgeSnapshot now id c = .ok c') : Settled c' ∧ J c' := by
  have hbulk : ∀ c p, Settled c ∧ J c → Settled (deleteSnapshotChunks now p c) ∧
      J (deleteSnapshotChunks now p c) := fun c p hcJ =>
    foldl_deleteSnapshotChunk (I := fun c => Settled c ∧ J c)
      (fun _ _ hl hc => ⟨hc.1.deleteSnapshotChunk now hl, hstep _ _ hl hc.1 hc.2⟩) _ c
      (nodup_filter_pk c p) (fun _ hl => (List.mem_filter.1 hl).1) hcJ
  unfold Catalog.purgeSnapshot deleteSnapshot at h
  have hc' := hbulk c (fun l => l.snapshotId = id) ⟨hc, hJ⟩
  split at h
  · exact Except.ok.inj h ▸ hc'
  · split at h
    · cases h
    · obtain rfl := Except.ok.inj h
      have hc'' := hbulk _ (fun l => l.snapshotId = id) hc'
      refine ⟨⟨hc''.1.coherent.frame rfl rfl, hc''.1.keys, hc''.1.unclaimed, fun l hl => ?_⟩,
        hframe (deleteSnapshotChunks now _ (deleteSnapshotChunks now _ c)) _ rfl rfl hc''.2⟩
      -- the links of the deleted snapshot are gone, those of the others keep theirs
      have hne : l.snapshotId ≠ id := by simpa using ((mem_deleteSnapshotChunks _ _ _ l).1 hl).2
      obtain ⟨s, hs⟩ := Option.isSome_iff_exists.1 (hc''.1.owned l hl)
      have hid : s.id ≠ id := (Table.key_of_find? hs).symm ▸ hne
      simp [Table.find?_delete, hs, Option.filter_some, hid]

end Settled

/-! ### What a purge does -/

/-- Phase 2 finds nothing that its guard or a trigger would refuse. -/
theorem purgePhase2_isOk {c : Catalog} (hc : RefCountInv c) (hs : List String) :
    ∃ c', purgePhase2 hs c = .ok c' := by
  induction hs generalizing c with
  | nil => exact ⟨c, rfl⟩
  | cons h hs ih =>
    have h₁ : ∃ c₁, deletePurged c h = .ok c₁ := by
      unfold deletePurged deleteChunkPool
      split
      · next e he =>
        obtain ⟨r, hr, hre⟩ := List.exists_of_findSome?_eq_some he
        obtain ⟨hmem, hp⟩ := List.mem_filter.1 hr
        simp only [decide_eq_true_eq] at hp
        obtain ⟨-, hst, href⟩ := hp
        have hlinks : c.linkCount r.hashSha256 = 0 := by
          have := hc.refCount_eq hmem
          omega
        have hany : (c.snapshotChunks.rows.any fun l => l.chunkHash == r.hashSha256) = false := by
          rw [List.any_eq_false]
          intro l hl
          simpa using linkCount_eq_zero.1 hlinks l hl
        simp [trgChunkPoolPreventActiveDelete, restrictChunkHash, hst, href, hany] at hre
      · exact ⟨_, rfl⟩
    obtain ⟨c₁, h₁⟩ := h₁
    have hc₁ : RefCountInv c₁ := hc.deleteChunkPool h₁
    obtain ⟨c', hc'⟩ := ih hc₁
    refine ⟨c', ?_⟩
    rw [purgePhase2, List.foldlM_cons, h₁]
    exact hc'

/-- Which objects a call to `delete_objects_s3` removes. -/
theorem deleteObjectsS3_apply (o : DeleteOutcome) (keys : List String) (s3 : ObjectStore)
    (key : String) : (deleteObjectsS3 o keys s3).1 key =
      if key ∈ keys ∧ o.removes key then none else s3 key := by
  cases o with
  | returns => simp [deleteObjectsS3, deleteObjects, DeleteOutcome.removes]
  | raises removed => simp [deleteObjectsS3, deleteObjects]

/-- The rows of a claimed batch were orphans. -/
theorem mem_chunksToPurge {c : Catalog} (hc : Settled c) {n : ℕ} {e : String × String}
    (he : e ∈ chunksToPurge n c) : e.2 = storageKeyOf e.1 ∧ ∃ r, c.chunkPool.find? e.1 = some r ∧
      r.refCount = 0 ∧ r.state = .pendingDelete := by
  obtain ⟨r, hr, hkey, href, hst⟩ := (purgePhase1_spec n c).1 e.1 e.2 he
  exact ⟨hkey.symm.trans (hc.keys _ r hr), r, hr, href, hst⟩

/-- The reversion undoes the claim of an orphan. -/
theorem reverted_marked {r : ChunkPool} (href : r.refCount = 0) (hst : r.state = .pendingDelete) :
    reverted (marked r) = r := by
  cases r
  simp_all [marked, reverted, setState]

/-- **What a whole purge does.**  When `delete_objects` returns, the batch goes
from the catalog; when it raises, the catalog is as it was.  The bucket loses
what S3 removed of the batch. -/
theorem executeTwoPhasePurge_spec {w : Store} (hc : Settled w.cat) (n : ℕ) (o : DeleteOutcome) :
    let batch := chunksToPurge n w.cat
    let w' := (executeTwoPhasePurge n o w).1
    (∀ k, w'.cat.chunkPool.find? k = if k ∈ batch.map Prod.fst ∧ o = .returns then none
      else w.cat.chunkPool.find? k) ∧
      w'.cat.snapshotChunks = w.cat.snapshotChunks ∧ w'.cat.snapshots = w.cat.snapshots ∧
      RefCountInv w'.cat ∧
      ∀ key, w'.s3 key = if key ∈ batch.map Prod.snd ∧ o.removes key then none else w.s3 key := by
  intro batch w'
  obtain ⟨-, hfind₁, hlinks₁, hsnaps₁⟩ := purgePhase1_spec n w.cat
  have hinv₁ : RefCountInv (purgePhase1 n w.cat).2 := hc.coherent.purgePhase1 n
  have horphan : ∀ k ∈ batch.map Prod.fst, ∃ r, w.cat.chunkPool.find? k = some r ∧
      r.refCount = 0 ∧ r.state = .pendingDelete := by
    intro k hk
    obtain ⟨e, he, rfl⟩ := List.mem_map.1 hk
    exact (mem_chunksToPurge hc he).2
  have hw' : w' = (executeTwoPhasePurge n o w).1 := rfl
  have hs3 := deleteObjectsS3_apply o (batch.map Prod.snd) w.s3
  unfold executeTwoPhasePurge at hw'
  simp only [show (purgePhase1 n w.cat).1 = batch from rfl] at hw' hfind₁
  by_cases hempty : batch.isEmpty = true
  · rw [List.isEmpty_iff] at hempty
    simp only [hempty, List.isEmpty_nil, if_true] at hw'
    simp [hw', hempty, hc.coherent]
  · simp only [hempty] at hw'
    cases o with
    | returns =>
      obtain ⟨c₂, h₂⟩ := purgePhase2_isOk hinv₁ (batch.map Prod.fst)
      obtain ⟨hfind₂, hlinks₂, hsnaps₂⟩ := purgePhase2_ok h₂
      simp only [deleteObjectsS3, h₂] at hw'
      rw [hw']
      refine ⟨fun k => ?_, hlinks₂.trans hlinks₁, hsnaps₂.trans hsnaps₁, hinv₁.purgePhase2 h₂, hs3⟩
      show c₂.chunkPool.find? k = _
      rw [hfind₂, hfind₁]
      by_cases hk : k ∈ batch.map Prod.fst
      · obtain ⟨r, hr, href, hst⟩ := horphan k hk
        simp [hk, hr, marked, setState, href, kept, Option.filter_some]
      · simp [hk]
    | raises removed =>
      obtain ⟨hfind₂, hlinks₂, hsnaps₂⟩ := purgeRevert_spec (batch.map Prod.fst)
        (purgePhase1 n w.cat).2
      simp only [deleteObjectsS3] at hw'
      rw [hw']
      refine ⟨fun k => ?_, hlinks₂.trans hlinks₁, hsnaps₂.trans hsnaps₁,
        hinv₁.purgeRevert _, hs3⟩
      show (purgeRevert _ _).chunkPool.find? k = _
      rw [hfind₂, hfind₁]
      by_cases hk : k ∈ batch.map Prod.fst
      · obtain ⟨r, hr, href, hst⟩ := horphan k hk
        simp [hk, hr, reverted_marked href hst]
      · simp [hk]

/-! ### What an upload does -/

/-- The first transaction of an upload goes through, and asks for a `put` when
the hash is new. -/
theorem Settled.dbCheckAndPrepare {c : Catalog} (hc : Settled c) (now : Time) (h : String) (n : ℤ) :
    ∃ c₁ r, Catalog.dbCheckAndPrepare now h n c =
        .ok (c₁, storageKeyOf h, decide (c.chunkPool.find? h = none)) ∧
      c₁.chunkPool.find? h = some r ∧ r.state = .active ∧
      (∀ k, k ≠ h → c₁.chunkPool.find? k = c.chunkPool.find? k) ∧
      c₁.snapshotChunks = c.snapshotChunks ∧ c₁.snapshots = c.snapshots ∧ Settled c₁ := by
  obtain ⟨c₁, key, up, h₁⟩ := dbCheckAndPrepare_isOk (fun r hr => hc.keys _ r
    (Table.find?_of_mem hr)) now h n
  obtain ⟨⟨r, hr, rfl, hcase⟩, hother, hlinks, hsnaps⟩ := dbCheckAndPrepare_ok h₁
  have hrow : r.storageKey = storageKeyOf h ∧ r.state = .active ∧
      up = decide (c.chunkPool.find? h = none) := by
    rcases hcase with ⟨hnone, rfl, rfl⟩ | ⟨r₀, hr₀, rfl, rfl⟩
    · exact ⟨rfl, rfl, by simp [hnone]⟩
    · have hst := hc.unclaimed h r₀ hr₀
      refine ⟨(reactivate_storageKey r₀).trans (hc.keys h r₀ hr₀), reactivate_state ?_, ?_⟩
      · rcases hst with hst | hst <;> simp [hst]
      · rcases hst with hst | hst <;> simp [hst, hr₀]
  obtain ⟨hkey, hact, rfl⟩ := hrow
  refine ⟨c₁, r, hkey ▸ h₁, hr, hact, hother, hlinks, hsnaps,
    hc.coherent.dbCheckAndPrepare h₁, fun k r' hr' => ?_, fun k r' hr' => ?_, fun l hl => ?_⟩
  · by_cases hk : k = h
    · subst hk
      rw [hr] at hr'
      exact Option.some.inj hr' ▸ hkey
    · exact hc.keys k r' (hother k hk ▸ hr')
  · by_cases hk : k = h
    · subst hk
      rw [hr] at hr'
      exact Or.inl (Option.some.inj hr' ▸ hact)
    · exact hc.unclaimed k r' (hother k hk ▸ hr')
  · rw [hsnaps]
    exact hc.owned l (hlinks ▸ hl)

/-- The second transaction of an upload keeps the catalog settled. -/
theorem Settled.saveChunkRef {c c' : Catalog} (hc : Settled c) {now : Time} {id : String} {seq : ℤ}
    {h : String} (hs : Catalog.saveChunkRef now id seq h c = .ok c')
    (hid : (c.snapshots.find? id).isSome = true) : Settled c' := by
  obtain ⟨-, hfind, -, hmem, hsnaps⟩ := insertSnapshotChunk_ok hs
  have hrows := RowsFrom.insertSnapshotChunk hs
  refine ⟨hc.coherent.insertSnapshotChunk hs, hrows.keys hc.keys,
    hrows.state (Q := fun st => st = .active ∨ st = .pendingDelete) (Or.inl rfl) hc.unclaimed,
    fun l hl => ?_⟩
  rw [hsnaps]
  rcases (hmem l).1 hl with hl | rfl
  · exact hc.owned l hl
  · exact hid

/-- The catalog between two uploads of a backup: its snapshot is there, and no
block has a number from `seq` on. -/
structure InBackup (id : String) (seq : ℕ) (c : Catalog) : Prop where
  settled : Settled c
  running : (c.snapshots.find? id).isSome = true
  unused : ∀ k : ℕ, seq ≤ k → c.snapshotChunks.find? (id, k) = none

/-- The upload of a block raises after its first transaction. -/
def Block.Fails (b : Block) (c : Catalog) : Prop :=
  c.chunkPool.find? b.cHash = none ∧ b.put ≠ .returns ∨ b.refError.isSome = true

/-- The bucket after the upload of a block. -/
def Block.s3After (b : Block) (w : Store) : ObjectStore :=
  if w.cat.chunkPool.find? b.cHash = none then
    (uploadToS3 b.put (storageKeyOf b.cHash) b.payload w.s3).1
  else w.s3

/-- **What an upload does.**  Its first transaction always goes through and
leaves the chunk `ACTIVE`, linked or not; the second one goes through unless the
upload fails before it. -/
theorem Block.upload_spec {w : Store} {id : String} {seq : ℕ} (hw : InBackup id seq w.cat)
    (b : Block) : ∃ c₁ r, c₁.chunkPool.find? b.cHash = some r ∧ r.state = .active ∧
      (∀ k, k ≠ b.cHash → c₁.chunkPool.find? k = w.cat.chunkPool.find? k) ∧
      c₁.snapshotChunks = w.cat.snapshotChunks ∧ Settled c₁ ∧
      (b.Fails w.cat → ∃ e, b.upload id seq w = (⟨c₁, b.s3After w⟩, .error e)) ∧
      (¬ b.Fails w.cat → ∃ c₂, b.upload id seq w = (⟨c₂, b.s3After w⟩, .ok ()) ∧
        Catalog.saveChunkRef b.now id seq b.cHash c₁ = .ok c₂ ∧ InBackup id (seq + 1) c₂) := by
  obtain ⟨c₁, r, h₁, hr, hact, hother, hlinks, hsnaps, hc₁⟩ :=
    hw.settled.dbCheckAndPrepare b.now b.cHash b.payload.length
  have hrunning : (c₁.snapshots.find? id).isSome = true := hsnaps ▸ hw.running
  refine ⟨c₁, r, hr, hact, hother, hlinks, hc₁, fun hf => ?_, fun hf => ?_⟩
  · unfold Block.upload uploadCallback Block.s3After
    simp only [immediateTransaction_plain, h₁]
    by_cases hnew : w.cat.chunkPool.find? b.cHash = none
    · cases hput : b.put with
      | returns =>
        have hre : b.refError.isSome = true := by simpa [Block.Fails, hput] using hf
        obtain ⟨e, he⟩ := Option.isSome_iff_exists.1 hre
        exact ⟨.db e, by simp [hnew, uploadToS3, he]⟩
      | raises stored => exact ⟨.s3 "put_object", by simp [hnew, uploadToS3]⟩
    · have hre : b.refError.isSome = true := by simpa [Block.Fails, hnew] using hf
      obtain ⟨e, he⟩ := Option.isSome_iff_exists.1 hre
      exact ⟨.db e, by simp [hnew, he]⟩
  · obtain ⟨c₂, h₂⟩ := saveChunkRef_isOk (hlinks ▸ hw.unused seq le_rfl) hrunning
      (by rw [hr]; rfl) b.now
    obtain ⟨-, -, -, hmem, hsnaps₂⟩ := insertSnapshotChunk_ok h₂
    have hre : b.refError = none := by
      by_contra hne
      exact hf (Or.inr (Option.isSome_iff_ne_none.2 hne))
    refine ⟨c₂, ?_, h₂, hc₁.saveChunkRef h₂ hrunning, hsnaps₂ ▸ hrunning, fun k hk => ?_⟩
    · unfold Block.upload uploadCallback Block.s3After
      simp only [immediateTransaction_plain, h₁, hre, h₂]
      by_cases hnew : w.cat.chunkPool.find? b.cHash = none
      · have hput : b.put = .returns := by
          by_contra hne
          exact hf (Or.inl ⟨hnew, hne⟩)
        simp [hnew, hput, uploadToS3]
      · simp [hnew]
    · rw [Table.find?_eq_none]
      intro l hl hpk
      rcases (hmem l).1 hl with hl | rfl
      · exact Table.find?_eq_none.1 (hw.unused k (Nat.le_of_succ_le hk)) l (hlinks ▸ hl) hpk
      · have : (seq : ℤ) = k := congrArg Prod.snd hpk
        omega

end Catalog
end Boveda

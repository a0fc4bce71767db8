/-
# The transactions of backup and retention

`src/boveda/cli.py` (`_db_check_and_prepare`, `_save_chunk_ref`) and
`src/boveda/retention.py` (`execute_two_phase_purge`).  An upload of a block is
two transactions with a `put` to the object store between them; a purge is two
transactions with a `delete_objects` between them.  This file has the bodies of
the four transactions; what opens them is in `Boveda.Catalog.Upload`.

A transaction that touches the rows of a list of hashes, one statement a hash,
is described row by row: `find?_foldl` says that a hash sees its own statement
once, however often it is listed, when the statement is idempotent.
-/

import Boveda.Catalog.Schema
import Mathlib.Logic.Function.Basic

namespace Boveda
namespace Catalog

open Lib

/-! ### Sessions -/

/-- A session: the rows as the open transaction has them, and as the file has them. -/
structure Session where
  pending : Catalog
  persisted : Catalog

/-- `Session()`. -/
def Session.begin (c : Catalog) : Session := ⟨c, c⟩

/-- `session.commit()`. -/
def Session.commit (s : Session) : Session := ⟨s.pending, s.pending⟩

/-- `session.close()`: what has not been committed is rolled back. -/
def Session.close (s : Session) : Catalog := s.persisted

/-! ### The object store -/

/-- The objects of a bucket, by key. -/
abbrev ObjectStore := String → Option Bytes

/-- `put_object`, when it succeeds. -/
def putObject (key : String) (payload : Bytes) (s3 : ObjectStore) : ObjectStore :=
  Function.update s3 key (some payload)

/-- `delete_objects`, when it succeeds. -/
def deleteObjects (keys : List String) (s3 : ObjectStore) : ObjectStore :=
  fun key => if key ∈ keys then none else s3 key

/-! ### `upload_callback` -/

/-- `f"chunks/{c_hash}.bin"`. -/
def storageKeyOf (cHash : String) : String := "chunks/" ++ cHash ++ ".bin"

/-- The `chunk_pool` row of a new block; 26 bytes of the payload are its header. -/
def newPool (now : Time) (cHash : String) (payloadLen : ℤ) : ChunkPool where
  hashSha256 := cHash
  storageKey := storageKeyOf cHash
  sizeCompressed := payloadLen - 26
  sizeEncrypted := payloadLen - 26
  refCount := 0
  state := .active
  lastReferencedAt := now

/-- What `_db_check_and_prepare` writes into a row that a purge has scheduled. -/
def reactivate (r : ChunkPool) : ChunkPool :=
  if r.state = .pendingDelete ∨ r.state = .purgingS3 then
    { r with state := .active, purgeScheduledAt := none }
  else r

/-- `_db_check_and_prepare`: the storage key of the block, and whether the
caller has to upload it. -/
def dbCheckAndPrepare (now : Time) (cHash : String) (payloadLen : ℤ) (c : Catalog) :
    Except DbError (Catalog × String × Bool) :=
  match c.chunkPool.find? cHash with
  | none => do
    let c' ← insertChunkPool (newPool now cHash payloadLen) c
    return (c', storageKeyOf cHash, true)
  | some poolEntry =>
    let needsReupload := decide (poolEntry.state = .purgingS3)
    let c' := updateChunkPool (fun r => r.hashSha256 = cHash) reactivate
      (fun r => by unfold reactivate; split_ifs <;> rfl) c
    .ok (c', poolEntry.storageKey, needsReupload)

/-- `_save_chunk_ref`. -/
def saveChunkRef (now : Time) (snapshotId : String) (seq : ℤ) (cHash : String) (c : Catalog) :
    Except DbError Catalog :=
  insertSnapshotChunk now ⟨snapshotId, seq, cHash⟩ c

/-- **What the first transaction of an upload does.**  It makes the row of a
new block, or reactivates the row there is; only a new row and a row that a
purge has claimed ask for an upload. -/
theorem dbCheckAndPrepare_ok {now : Time} {h : String} {n : ℤ} {c c' : Catalog} {key : String}
    {up : Bool} (hok : dbCheckAndPrepare now h n c = .ok (c', key, up)) :
    (∃ r, c'.chunkPool.find? h = some r ∧ r.storageKey = key ∧
      ((c.chunkPool.find? h = none ∧ r = newPool now h n ∧ up = true) ∨
        ∃ r₀, c.chunkPool.find? h = some r₀ ∧ r = reactivate r₀ ∧
          up = decide (r₀.state = .purgingS3))) ∧
      (∀ k, k ≠ h → c'.chunkPool.find? k = c.chunkPool.find? k) ∧
      c'.snapshotChunks = c.snapshotChunks ∧ c'.snapshots = c.snapshots := by
  unfold dbCheckAndPrepare at hok
  cases hf : c.chunkPool.find? h with
  | none =>
    simp only [hf] at hok
    cases hins : insertChunkPool (newPool now h n) c with
    | error e => simp [hins, bind, Except.bind] at hok
    | ok c₁ =>
      simp only [hins, bind, Except.bind, pure, Except.pure, Except.ok.injEq, Prod.mk.injEq] at hok
      obtain ⟨rfl, rfl, rfl⟩ := hok
      obtain ⟨-, hfind, hlinks, hsnaps⟩ := insertChunkPool_ok hins
      refine ⟨⟨newPool now h n, ?_, rfl, Or.inl ⟨rfl, rfl, rfl⟩⟩, fun k hk => ?_, hlinks, hsnaps⟩
      · simp [hfind, newPool]
      · simp [hfind, newPool, Ne.symm hk]
  | some r₀ =>
    simp only [hf, Except.ok.injEq, Prod.mk.injEq] at hok
    obtain ⟨rfl, rfl, rfl⟩ := hok
    have hfind := fun k => Table.find?_update_key c.chunkPool h k reactivate
      fun r => by unfold reactivate; split_ifs <;> rfl
    refine ⟨⟨reactivate r₀, ?_, ?_, Or.inr ⟨r₀, rfl, rfl, rfl⟩⟩, fun k hk => ?_, rfl, rfl⟩
    · have := hfind h
      rw [hf] at this
      simpa [updateChunkPool] using this
    · unfold reactivate
      split_ifs <;> rfl
    · have := hfind k
      simpa [updateChunkPool, Ne.symm hk] using this

/-- A storage key names its hash. -/
theorem storageKeyOf_injective : Function.Injective storageKeyOf := by
  intro h k heq
  have := congrArg String.toList heq
  simp only [storageKeyOf, String.toList_append, List.append_cancel_right_eq,
    List.append_cancel_left_eq] at this
  exact String.toList_injective this

/-! ### `execute_two_phase_purge` -/

/-- The rows that phase 1 selects: `ref_count = 0` and `PENDING_DELETE`, at most
`batch_size` of them. -/
def orphans (batchSize : ℕ) (c : Catalog) : List ChunkPool :=
  (c.chunkPool.rows.filter fun r => r.refCount = 0 ∧ r.state = .pendingDelete).take batchSize

/-- Hash and storage key of the selected rows. -/
def chunksToPurge (batchSize : ℕ) (c : Catalog) : List (String × String) :=
  (orphans batchSize c).map fun r => (r.hashSha256, r.storageKey)

/-- `SET state = …`. -/
def setState (st : ChunkState) (r : ChunkPool) : ChunkPool := { r with state := st }

theorem payload_setState (st : ChunkState) (r : ChunkPool) : (setState st r).payload = r.payload :=
  rfl

/-- Phase 1, for one hash. -/
def markPurging (c : Catalog) (h : String) : Catalog :=
  updateChunkPool (fun r => r.hashSha256 = h ∧ r.refCount = 0) (setState .purgingS3)
    (payload_setState _) c

/-- Phase 1: the claimed batch, and the catalog after the commit. -/
def purgePhase1 (batchSize : ℕ) (c : Catalog) : List (String × String) × Catalog :=
  (chunksToPurge batchSize c, ((chunksToPurge batchSize c).map Prod.fst).foldl markPurging c)

/-- Phase 2 after a successful call to the object store, for one hash. -/
def deletePurged (c : Catalog) (h : String) : Except DbError Catalog :=
  deleteChunkPool (fun r => r.hashSha256 = h ∧ r.state = .purgingS3 ∧ r.refCount = 0) c

/-- Phase 2 after a successful call to the object store. -/
def purgePhase2 (hashes : List String) (c : Catalog) : Except DbError Catalog :=
  hashes.foldlM deletePurged c

/-- Phase 2 after a failed call to the object store, for one hash. -/
def revertPurging (c : Catalog) (h : String) : Catalog :=
  updateChunkPool (fun r => r.hashSha256 = h ∧ r.state = .purgingS3) (setState .pendingDelete)
    (payload_setState _) c

/-- Phase 2 after a failed call to the object store. -/
def purgeRevert (hashes : List String) (c : Catalog) : Catalog := hashes.foldl revertPurging c

/-- `UPDATE snapshots SET estado = … WHERE id = …`. -/
def setEstado (id : String) (estado : Estado) (c : Catalog) : Catalog :=
  updateSnapshots (fun s => s.id = id) (fun s => { s with estado }) (fun _ => rfl) c

theorem find?_setEstado (id : String) (estado : Estado) (c : Catalog) (k : String) :
    (setEstado id estado c).snapshots.find? k =
      if id = k then (c.snapshots.find? k).map fun s => { s with estado }
      else c.snapshots.find? k :=
  Table.find?_update_key c.snapshots id k (fun s => { s with estado }) fun _ => rfl

/-- A snapshot that has just been created. -/
def runningSnapshot (id : String) : Snapshot where
  id := id
  timestamp := 0
  tipo := "DIARIO"
  estado := .running
  sourceType := "cmd"
  sourceIdentifier := "db-prod"
  encryptedDek := []
  dekNonce := []
  dekTag := []

/-- The transaction of `purge_expired_snapshots` that unlinks a snapshot and
deletes its row. -/
def purgeSnapshot (now : Time) (id : String) (c : Catalog) : Except DbError Catalog :=
  deleteSnapshot now id (deleteSnapshotChunks now (fun l => l.snapshotId = id) c)

/-- What phase 1 does to a row of its batch. -/
def marked (r : ChunkPool) : ChunkPool := if r.refCount = 0 then setState .purgingS3 r else r

/-- What the reversion does to a row of its batch. -/
def reverted (r : ChunkPool) : ChunkPool :=
  if r.state = .purgingS3 then setState .pendingDelete r else r

/-- The rows that phase 2 leaves. -/
def kept (r : ChunkPool) : Bool := !decide (r.state = .purgingS3 ∧ r.refCount = 0)

/-- **A statement for each hash of a list**, each of which acts by `F` on the
row of its own hash: the row of `k` has met `F` when `k` is listed. -/
theorem find?_foldl {step : Catalog → String → Catalog} {F : Option ChunkPool → Option ChunkPool}
    (hF : ∀ o, F (F o) = F o)
    (hstep : ∀ c h k, (step c h).chunkPool.find? k =
      if h = k then F (c.chunkPool.find? k) else c.chunkPool.find? k)
    (hs : List String) (c : Catalog) (k : String) :
    (hs.foldl step c).chunkPool.find? k =
      if k ∈ hs then F (c.chunkPool.find? k) else c.chunkPool.find? k := by
  induction hs generalizing c with
  | nil => simp
  | cons h hs ih =>
    rw [List.foldl_cons, ih, hstep]
    by_cases hk : h = k
    · by_cases hm : k ∈ hs <;> simp [hk, hm, hF]
    · by_cases hm : k ∈ hs <;> simp [hk, hm, Ne.symm hk]

/-- A statement for each hash of a list leaves alone what each one leaves alone. -/
theorem foldl_frame {α : Type*} (step : Catalog → String → Catalog) (g : Catalog → α)
    (hstep : ∀ c h, g (step c h) = g c) (hs : List String) (c : Catalog) :
    g (hs.foldl step c) = g c := by
  induction hs generalizing c with
  | nil => rfl
  | cons h hs ih => rw [List.foldl_cons, ih, hstep]

theorem find?_markPurging (c : Catalog) (h k : String) :
    (markPurging c h).chunkPool.find? k =
      if h = k then (c.chunkPool.find? k).map marked else c.chunkPool.find? k := by
  rw [markPurging, find?_updateChunkPool]
  cases hk : c.chunkPool.find? k with
  | none => simp
  | some r =>
    have hkey := Table.key_of_find? hk
    by_cases hh : h = k
    · simp [hh, hkey, marked]
    · simp [hh, hkey, Ne.symm hh]

theorem find?_revertPurging (c : Catalog) (h k : String) :
    (revertPurging c h).chunkPool.find? k =
      if h = k then (c.chunkPool.find? k).map reverted else c.chunkPool.find? k := by
  rw [revertPurging, find?_updateChunkPool]
  cases hk : c.chunkPool.find? k with
  | none => simp
  | some r =>
    have hkey := Table.key_of_find? hk
    by_cases hh : h = k
    · simp [hh, hkey, reverted]
    · simp [hh, hkey, Ne.symm hh]

theorem marked_marked (r : ChunkPool) : marked (marked r) = marked r := by
  by_cases h : r.refCount = 0 <;> simp [marked, setState, h]

theorem reverted_reverted (r : ChunkPool) : reverted (reverted r) = reverted r := by
  by_cases h : r.state = .purgingS3 <;> simp [reverted, setState, h]

/-- **What phase 1 does.**  Every hash of the batch had an orphaned row, and
exactly the rows of the batch change. -/
theorem purgePhase1_spec (n : ℕ) (c : Catalog) :
    (∀ h key, (h, key) ∈ (purgePhase1 n c).1 → ∃ r, c.chunkPool.find? h = some r ∧
      r.storageKey = key ∧ r.refCount = 0 ∧ r.state = .pendingDelete) ∧
      (∀ k, (purgePhase1 n c).2.chunkPool.find? k =
        if k ∈ (purgePhase1 n c).1.map Prod.fst then (c.chunkPool.find? k).map marked
        else c.chunkPool.find? k) ∧
      (purgePhase1 n c).2.snapshotChunks = c.snapshotChunks ∧
      (purgePhase1 n c).2.snapshots = c.snapshots := by
  refine ⟨fun h key hmem => ?_, fun k => ?_, ?_, ?_⟩
  · simp only [purgePhase1, chunksToPurge, orphans, List.mem_map, Prod.mk.injEq] at hmem
    obtain ⟨r, hr, rfl, rfl⟩ := hmem
    have hr' := List.mem_filter.1 (List.mem_of_mem_take hr)
    have hstate : r.refCount = 0 ∧ r.state = .pendingDelete := by simpa using hr'.2
    exact ⟨r, Table.find?_of_mem hr'.1, rfl, hstate⟩
  · exact find?_foldl (F := Option.map marked) (fun o => by cases o <;> simp [marked_marked])
      find?_markPurging _ c k
  · exact foldl_frame markPurging Catalog.snapshotChunks (fun _ _ => rfl) _ c
  · exact foldl_frame markPurging Catalog.snapshots (fun _ _ => rfl) _ c

theorem purgeRevert_spec (hs : List String) (c : Catalog) :
    (∀ k, (purgeRevert hs c).chunkPool.find? k =
      if k ∈ hs then (c.chunkPool.find? k).map reverted else c.chunkPool.find? k) ∧
      (purgeRevert hs c).snapshotChunks = c.snapshotChunks ∧
      (purgeRevert hs c).snapshots = c.snapshots :=
  ⟨fun k => find?_foldl (F := Option.map reverted)
      (fun o => by cases o <;> simp [reverted_reverted]) find?_revertPurging hs c k,
    foldl_frame revertPurging Catalog.snapshotChunks (fun _ _ => rfl) hs c,
    foldl_frame revertPurging Catalog.snapshots (fun _ _ => rfl) hs c⟩

theorem deletePurged_ok {c c' : Catalog} {h : String} (hok : deletePurged c h = .ok c') :
    (∀ k, c'.chunkPool.find? k =
      if h = k then (c.chunkPool.find? k).filter kept else c.chunkPool.find? k) ∧
      c'.snapshotChunks = c.snapshotChunks ∧ c'.snapshots = c.snapshots := by
  obtain ⟨hfind, -, hlinks, hsnaps⟩ := deleteChunkPool_ok hok
  refine ⟨fun k => ?_, hlinks, hsnaps⟩
  rw [hfind]
  cases hk : c.chunkPool.find? k with
  | none => simp
  | some r =>
    have hkey := Table.key_of_find? hk
    by_cases hh : h = k
    · simp [hh, hkey, kept, Option.filter_some]
    · simp [hh, hkey, Ne.symm hh, Option.filter_some]

/-- **What phase 2 does** when the object store reported success: the rows of
the batch that are still claimed and unreferenced go, the others stay. -/
theorem purgePhase2_ok {hs : List String} {c c' : Catalog} (hok : purgePhase2 hs c = .ok c') :
    (∀ k, c'.chunkPool.find? k =
      if k ∈ hs then (c.chunkPool.find? k).filter kept else c.chunkPool.find? k) ∧
      c'.snapshotChunks = c.snapshotChunks ∧ c'.snapshots = c.snapshots := by
  induction hs generalizing c with
  | nil =>
    obtain rfl : c = c' := by simpa [purgePhase2, pure, Except.pure] using hok
    simp
  | cons h hs ih =>
    simp only [purgePhase2, List.foldlM_cons] at hok
    cases h₁ : deletePurged c h with
    | error e => simp [h₁, bind, Except.bind] at hok
    | ok c₁ =>
      simp only [h₁, bind, Except.bind] at hok
      obtain ⟨hfind, hlinks, hsnaps⟩ := deletePurged_ok h₁
      obtain ⟨hfind', hlinks', hsnaps'⟩ := ih hok
      refine ⟨fun k => ?_, hlinks'.trans hlinks, hsnaps'.trans hsnaps⟩
      rw [hfind', hfind]
      by_cases hk : h = k
      · by_cases hm : k ∈ hs <;> simp [hk, hm, Option.filter_filter]
      · by_cases hm : k ∈ hs <;> simp [hk, hm, Ne.symm hk]

/-! ### Where the rows come from -/

/-- Every row comes from an old one, with its storage key, and its state is the
old one or `st`. -/
def RowsFrom (st : ChunkState) (c c' : Catalog) : Prop :=
  ∀ k r, c'.chunkPool.find? k = some r → ∃ r₀, c.chunkPool.find? k = some r₀ ∧
    r.storageKey = r₀.storageKey ∧ (r.state = st ∨ r.state = r₀.state)

namespace RowsFrom

variable {st : ChunkState} {c c' : Catalog}

theorem keys (h : RowsFrom st c c')
    (hkeys : ∀ k r, c.chunkPool.find? k = some r → r.storageKey = storageKeyOf k) (k : String)
    (r : ChunkPool) (hr : c'.chunkPool.find? k = some r) : r.storageKey = storageKeyOf k := by
  obtain ⟨r₀, hr₀, hkey, -⟩ := h k r hr
  exact hkey.trans (hkeys k r₀ hr₀)

theorem state (h : RowsFrom st c c') {Q : ChunkState → Prop} (hst : Q st)
    (hQ : ∀ k r, c.chunkPool.find? k = some r → Q r.state) (k : String) (r : ChunkPool)
    (hr : c'.chunkPool.find? k = some r) : Q r.state := by
  obtain ⟨r₀, hr₀, -, hs | hs⟩ := h k r hr
  · exact hs ▸ hst
  · exact hs ▸ hQ k r₀ hr₀

theorem insertSnapshotChunk {now : Time} {l : SnapshotChunk}
    (h : Catalog.insertSnapshotChunk now l c = .ok c') : RowsFrom .active c c' := by
  obtain ⟨-, hfind, -⟩ := insertSnapshotChunk_ok h
  intro k r hr
  rw [hfind] at hr
  split_ifs at hr
  · obtain ⟨r₀, hr₀, rfl⟩ := Option.map_eq_some_iff.1 hr
    exact ⟨r₀, hr₀, rfl, Or.inl rfl⟩
  · exact ⟨r, hr, rfl, Or.inr rfl⟩

theorem deleteSnapshotChunk (now : Time) (c : Catalog) (l : SnapshotChunk) :
    RowsFrom .pendingDelete c (Catalog.deleteSnapshotChunk now c l) := by
  intro k r hr
  rw [find?_deleteSnapshotChunk] at hr
  split_ifs at hr
  · obtain ⟨r₀, hr₀, rfl⟩ := Option.map_eq_some_iff.1 hr
    refine ⟨r₀, hr₀, rfl, ?_⟩
    by_cases h1 : r₀.refCount - 1 = 0 <;> simp [trgSnapshotChunksAfterDelete, h1]
  · exact ⟨r, hr, rfl, Or.inr rfl⟩

theorem purgePhase1 (n : ℕ) (c : Catalog) : RowsFrom .purgingS3 c (Catalog.purgePhase1 n c).2 := by
  intro k r hr
  rw [(purgePhase1_spec n c).2.1] at hr
  split_ifs at hr
  · obtain ⟨r₀, hr₀, rfl⟩ := Option.map_eq_some_iff.1 hr
    refine ⟨r₀, hr₀, ?_⟩
    unfold marked setState
    split_ifs <;> simp
  · exact ⟨r, hr, rfl, Or.inr rfl⟩

theorem purgePhase2 {hs : List String} (h : Catalog.purgePhase2 hs c = .ok c') :
    RowsFrom .purgingS3 c c' := by
  intro k r hr
  rw [(purgePhase2_ok h).1] at hr
  split_ifs at hr
  · exact ⟨r, (Option.filter_eq_some_iff.1 hr).1, rfl, Or.inr rfl⟩
  · exact ⟨r, hr, rfl, Or.inr rfl⟩

end RowsFrom

end Catalog
end Boveda

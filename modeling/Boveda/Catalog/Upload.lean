/-
# The upload of one block

`upload_callback` of the `backup` command (`src/boveda/cli.py`), with the
sessions it opens (`get_engine` and `init_db`, `src/boveda/database.py`) and the
object store.

A SQLAlchemy session begins a transaction at its first statement and calls the
engine's `begin` listeners; `get_engine` registers `do_begin`, which issues
`BEGIN IMMEDIATE`.  Both transactions of `upload_callback` then issue a
`BEGIN IMMEDIATE` of their own, and SQLite refuses a `BEGIN` inside an open
transaction: over the engine of `get_engine` the callback always raises
(`uploadCallback_getEngine`).  Over an engine without the listener
(`Engine.plain`) the two transactions do what they are meant to do
(`uploadCallback_plain`), which is what `Boveda.Catalog.Interleaving` and
`Boveda.Catalog.History` build on.
-/

import Boveda.Catalog.RefCount

namespace Boveda
namespace Catalog

open Lib

/-- The catalog and the bucket. -/
structure Store where
  cat : Catalog
  s3 : ObjectStore

/-! ### Sessions -/

/-- A connection of the `sqlite3` driver, as far as transactions go. -/
structure Connection where
  inTransaction : Bool
  deriving DecidableEq, Repr

/-- The statement `BEGIN IMMEDIATE`, by an idle writer. -/
def beginImmediate (conn : Connection) : Except DbError Connection :=
  if conn.inTransaction then
    .error (.operational "cannot start a transaction within a transaction")
  else .ok ⟨true⟩

/-- An engine, as far as its `begin` listeners go. -/
structure Engine where
  onBegin : List (Connection → Except DbError Connection)

/-- `do_begin`. -/
def doBegin (conn : Connection) : Except DbError Connection := beginImmediate conn

/-- `get_engine`. -/
def getEngine : Engine := ⟨[doBegin]⟩

/-- An engine without listeners. -/
def Engine.plain : Engine := ⟨[]⟩

/-- The first statement of a session: the connection is idle, and the listeners
of `begin` are called in order. -/
def Engine.autobegin (e : Engine) : Except DbError Connection :=
  e.onBegin.foldlM (fun conn listener => listener conn) ⟨false⟩

/-- `with local_session: local_session.execute(text("BEGIN IMMEDIATE")); …; commit()`.
A failure rolls back, so it leaves the catalog to the caller as it was. -/
def immediateTransaction {α : Type} (e : Engine) (body : Catalog → Except DbError α)
    (c : Catalog) : Except DbError α := do
  let conn ← e.autobegin
  let _ ← beginImmediate conn
  body c

/-! ### `upload_callback` -/

/-- What `upload_callback` raises. -/
inductive UploadError
  | db (e : DbError)
  | s3 (message : String)
  deriving DecidableEq, Repr

/-- `upload_callback`, given what `upload_to_s3` does and an error that the
second transaction may meet outside the catalog (a lock timeout).  The first
component is what is left in the catalog and the bucket, also by an exception. -/
def uploadCallback (e : Engine)
    (uploadToS3 : String → Bytes → ObjectStore → ObjectStore × Except UploadError Unit)
    (refError : Option DbError) (now : Time) (snapshotId : String) (seq : ℤ) (payload : Bytes)
    (cHash : String) (w : Store) : Store × Except UploadError Unit :=
  match immediateTransaction e (dbCheckAndPrepare now cHash payload.length) w.cat with
  | .error err => (w, .error (.db err))
  | .ok (cat, storageKey, isNew) =>
    let (s3, put) := if isNew then uploadToS3 storageKey payload w.s3 else (w.s3, .ok ())
    match put with
    | .error err => (⟨cat, s3⟩, .error err)
    | .ok () =>
      match refError with
      | some err => (⟨cat, s3⟩, .error (.db err))
      | none =>
        match immediateTransaction e (saveChunkRef now snapshotId seq cHash) cat with
        | .error err => (⟨cat, s3⟩, .error (.db err))
        | .ok cat' => (⟨cat', s3⟩, .ok ())

/-- `upload_to_s3`, when the `put` succeeds. -/
def uploadOk (key : String) (payload : Bytes) (s3 : ObjectStore) :
    ObjectStore × Except UploadError Unit :=
  (putObject key payload s3, .ok ())

/-- The store before an upload: the deduplicated rows have their objects, the
snapshot is there and `RUNNING`, and `seq` is unused. -/
structure UploadPre (snapshotId : String) (seq : ℤ) (w : Store) : Prop where
  keys : ∀ r ∈ w.cat.chunkPool.rows, r.storageKey = storageKeyOf r.hashSha256
  stored : ∀ r ∈ w.cat.chunkPool.rows, r.state = .active ∨ r.state = .pendingDelete →
    (w.s3 r.storageKey).isSome = true
  known : ∀ r ∈ w.cat.chunkPool.rows, r.state ≠ .corrupt
  running : ∃ s, w.cat.snapshots.find? snapshotId = some s ∧ s.estado = .running
  unused : w.cat.snapshotChunks.find? (snapshotId, seq) = none

/-- The store after an upload: the chunk is `ACTIVE` with one more reference and
its object, the snapshot has the block, and nothing else has changed. -/
structure UploadPost (snapshotId : String) (seq : ℤ) (cHash : String) (w w' : Store) : Prop where
  chunk : ∃ r, w'.cat.chunkPool.find? cHash = some r ∧ r.state = .active ∧
    r.refCount = ((w.cat.chunkPool.find? cHash).elim 0 ChunkPool.refCount) + 1 ∧
    (w'.s3 r.storageKey).isSome = true
  link : ∀ l, l ∈ w'.cat.snapshotChunks.rows ↔
    l ∈ w.cat.snapshotChunks.rows ∨ l = ⟨snapshotId, seq, cHash⟩
  otherChunks : ∀ k, k ≠ cHash → w'.cat.chunkPool.find? k = w.cat.chunkPool.find? k
  snapshots : w'.cat.snapshots = w.cat.snapshots

theorem immediateTransaction_getEngine {α : Type} (body : Catalog → Except DbError α)
    (c : Catalog) : immediateTransaction getEngine body c =
      .error (.operational "cannot start a transaction within a transaction") := rfl

@[simp] theorem immediateTransaction_plain {α : Type} (body : Catalog → Except DbError α)
    (c : Catalog) : immediateTransaction .plain body c = body c := rfl

/-- A row that `reactivate` has met is `ACTIVE` unless it is `CORRUPT`. -/
theorem reactivate_state {r : ChunkPool} (h : r.state ≠ .corrupt) :
    (reactivate r).state = .active := by
  unfold reactivate
  split_ifs with hs
  · rfl
  · cases hst : r.state <;> simp_all

theorem reactivate_refCount (r : ChunkPool) : (reactivate r).refCount = r.refCount := by
  unfold reactivate
  split_ifs <;> rfl

theorem reactivate_storageKey (r : ChunkPool) : (reactivate r).storageKey = r.storageKey := by
  unfold reactivate
  split_ifs <;> rfl

/-- A row whose hash is new finds its storage key free. -/
theorem dbCheckAndPrepare_isOk {c : Catalog}
    (hkeys : ∀ r ∈ c.chunkPool.rows, r.storageKey = storageKeyOf r.hashSha256) (now : Time)
    (h : String) (n : ℤ) : ∃ c' key up, dbCheckAndPrepare now h n c = .ok (c', key, up) := by
  unfold dbCheckAndPrepare
  cases hf : c.chunkPool.find? h with
  | some r => exact ⟨_, _, _, rfl⟩
  | none =>
    have hfree : ¬ (c.chunkPool.rows.any fun a => a.storageKey == storageKeyOf h) = true := by
      rw [List.any_eq_true]
      rintro ⟨a, ha, hkey⟩
      rw [beq_iff_eq, hkeys a ha] at hkey
      exact Table.find?_eq_none.1 hf a ha (storageKeyOf_injective hkey)
    have hins : insertChunkPool (newPool now h n) c =
        .ok { c with chunkPool := c.chunkPool.insert (newPool now h n) hf } := by
      unfold insertChunkPool
      rw [dif_pos (show c.chunkPool.find? (newPool now h n).hashSha256 = none from hf),
        if_neg (by exact hfree)]
    exact ⟨_, _, _, by simp only [hins]; rfl⟩

/-- The second transaction goes through when the block is new and both rows it
refers to are there. -/
theorem saveChunkRef_isOk {c : Catalog} {snapshotId cHash : String} {seq : ℤ}
    (hunused : c.snapshotChunks.find? (snapshotId, seq) = none)
    (hsnap : (c.snapshots.find? snapshotId).isSome = true)
    (hchunk : (c.chunkPool.find? cHash).isSome = true) (now : Time) :
    ∃ c', saveChunkRef now snapshotId seq cHash c = .ok c' := by
  unfold saveChunkRef insertSnapshotChunk
  rw [dif_pos (show c.snapshotChunks.find? (SnapshotChunk.pk ⟨snapshotId, seq, cHash⟩) = none from
    hunused), if_pos ⟨hsnap, hchunk⟩]
  exact ⟨_, rfl⟩

/-- **The two transactions do their work** when they are let in: over an engine
without the `begin` listener the callback returns and meets `UploadPost`, in
each of its four entry cases. -/
theorem uploadCallback_plain {w : Store} {snapshotId : String} {seq : ℤ}
    (hpre : UploadPre snapshotId seq w) (now : Time) (payload : Bytes) (cHash : String) :
    ∃ w', uploadCallback .plain uploadOk none now snapshotId seq payload cHash w = (w', .ok ()) ∧
      UploadPost snapshotId seq cHash w w' := by
  obtain ⟨c₁, key, up, h₁⟩ := dbCheckAndPrepare_isOk hpre.keys now cHash payload.length
  obtain ⟨⟨r, hr, hkey, hcase⟩, hother, hlinks, hsnaps⟩ := dbCheckAndPrepare_ok h₁
  obtain ⟨s, hs, -⟩ := hpre.running
  obtain ⟨c₂, h₂⟩ := saveChunkRef_isOk (c := c₁) (by rw [hlinks]; exact hpre.unused)
    (by rw [hsnaps, hs]; rfl) (by rw [hr]; rfl) now
  obtain ⟨-, hfind₂, -, hmem₂, hsnaps₂⟩ := insertSnapshotChunk_ok h₂
  let s3' := if up then putObject key payload w.s3 else w.s3
  refine ⟨⟨c₂, s3'⟩, ?_, ?_, fun l => ?_, fun k hk => ?_, hsnaps₂.trans hsnaps⟩
  · unfold uploadCallback
    simp only [immediateTransaction_plain, h₁]
    cases up <;> simp [uploadOk, h₂, s3']
  · refine ⟨trgSnapshotChunksAfterInsert now r, ?_, rfl, ?_, ?_⟩
    · rw [hfind₂, if_pos rfl, hr]
      rfl
    · rcases hcase with ⟨hnone, rfl, -⟩ | ⟨r₀, hr₀, rfl, -⟩
      · rw [hnone]
        rfl
      · simp [hr₀, trgSnapshotChunksAfterInsert, reactivate_refCount]
    · show (s3' r.storageKey).isSome = true
      rw [hkey]
      rcases hcase with ⟨-, -, rfl⟩ | ⟨r₀, hr₀, rfl, rfl⟩
      · simp [s3', putObject]
      · by_cases hp : r₀.state = .purgingS3
        · simp [s3', putObject, hp]
        · have hmem := Table.mem_of_find? hr₀
          have hst : r₀.state = .active ∨ r₀.state = .pendingDelete := by
            have := hpre.known r₀ hmem
            cases hst : r₀.state <;> simp_all
          have := hpre.stored r₀ hmem hst
          rw [reactivate_storageKey] at hkey
          simpa [s3', hp, ← hkey] using this
  · rw [hmem₂, hlinks]
  · show c₂.chunkPool.find? k = _
    rw [hfind₂, if_neg (Ne.symm hk), hother k hk]

/-- **`upload_callback` always raises.**  The `BEGIN IMMEDIATE` of its first
transaction finds the one that the listener of `get_engine` has just issued:
whatever the store, the block and the behaviour of the bucket, the call raises
and leaves the store as it was. -/
theorem uploadCallback_getEngine
    (uploadToS3 : String → Bytes → ObjectStore → ObjectStore × Except UploadError Unit)
    (refError : Option DbError) (now : Time) (snapshotId : String) (seq : ℤ) (payload : Bytes)
    (cHash : String) (w : Store) :
    uploadCallback getEngine uploadToS3 refError now snapshotId seq payload cHash w =
      (w, .error (.db (.operational "cannot start a transaction within a transaction"))) := by
  unfold uploadCallback
  rw [immediateTransaction_getEngine]

/-- **No upload meets its purpose**, whatever the store, the snapshot, the block
and the time, even when the `put` succeeds. -/
theorem uploadCallback_never_post (now : Time) (snapshotId : String) (seq : ℤ) (payload : Bytes)
    (cHash : String) (w : Store) :
    ¬ ∃ w', uploadCallback getEngine uploadOk none now snapshotId seq payload cHash w =
        (w', .ok ()) ∧ UploadPost snapshotId seq cHash w w' := by
  rintro ⟨w', h, -⟩
  rw [uploadCallback_getEngine] at h
  cases congrArg Prod.snd h

/-- The store at the first block of the first backup. -/
def firstBackup : Store where
  cat := { empty with snapshots := Table.empty.insert (runningSnapshot "snap-1") rfl }
  s3 _ := none

/-- The first block of the first backup meets every assumption on an upload, and
its upload raises. -/
theorem uploadCallback_firstBackup : UploadPre "snap-1" 0 firstBackup ∧
    ¬ ∃ w', uploadCallback getEngine uploadOk none 0 "snap-1" 0 [1] "ab" firstBackup =
        (w', .ok ()) ∧ UploadPost "snap-1" 0 "ab" firstBackup w' := by
  refine ⟨⟨?_, ?_, ?_, ⟨_, rfl, rfl⟩, rfl⟩, ?_⟩
  · simp [firstBackup, empty, Table.empty]
  · simp [firstBackup, empty, Table.empty]
  · simp [firstBackup, empty, Table.empty]
  · rintro ⟨w', h, -⟩
    cases congrArg Prod.snd h

end Catalog
end Boveda

/-
# The catalog: tables, foreign keys and triggers

`src/boveda/database.py`.  The catalog is an SQLite database with the tables
`snapshots`, `chunk_pool` (one row per physical block in the object store),
`snapshot_chunks` (one row per block of a snapshot) and `configuracion`.  Every
definition below is one SQL statement: it either fails with a `DbError` and
changes nothing, or returns the catalog with the effects of its triggers and
foreign-key actions (`PRAGMA foreign_keys=ON`, triggers row by row).

| trigger of `TRIGGERS_DDL` | here |
| --- | --- |
| `trg_snapshot_chunks_after_insert` | `trgSnapshotChunksAfterInsert` |
| `trg_snapshot_chunks_after_delete` | `trgSnapshotChunksAfterDelete` |
| `trg_snapshot_chunks_prevent_update` | `updateSnapshotChunks` |
| `trg_snapshots_prevent_unauthorized_delete` | `trgSnapshotsPreventUnauthorizedDelete` |
| `trg_chunk_pool_prevent_payload_mutation` | `updateChunkPoolPayload` |
| `trg_chunk_pool_prevent_active_delete` | `trgChunkPoolPreventActiveDelete` |

`trg_snapshots_prevent_tamper` is about `UPDATE`s of identity columns, which
`updateSnapshots` excludes by the type of its assignment.

Times are milliseconds, read from the clock by the statement that needs one.
-/

import Boveda.Lib.Bytes
import Boveda.Lib.Table
import Mathlib.Data.Int.Notation
import Mathlib.Algebra.Order.Ring.Int

namespace Boveda
namespace Catalog

open Lib

/-- Milliseconds. -/
abbrev Time := ℕ

/-- The values of `snapshots.estado` that the program writes or tests. -/
inductive Estado
  | pending | running | completed | failed | expired | purging | purgeFailed | cleanup | purged
  deriving DecidableEq, Repr

/-- `ChunkState`. -/
inductive ChunkState
  | active | pendingDelete | purgingS3 | corrupt
  deriving DecidableEq, Repr

/-- A row of `snapshots`. -/
structure Snapshot where
  id : String
  timestamp : Time
  tipo : String
  estado : Estado
  sourceType : String
  sourceIdentifier : String
  encryptedDek : Bytes
  dekNonce : Bytes
  dekTag : Bytes
  multipartUploadId : Option String := none
  errorDetail : Option String := none
  completedAt : Option Time := none
  deriving DecidableEq, Repr

/-- The columns that `trg_snapshots_prevent_tamper` guards. -/
def Snapshot.identity (s : Snapshot) : String × Time × String × String × String :=
  (s.id, s.timestamp, s.tipo, s.sourceType, s.sourceIdentifier)

/-- A row of `chunk_pool`. -/
structure ChunkPool where
  hashSha256 : String
  storageKey : String
  sizeCompressed : ℤ
  sizeEncrypted : ℤ
  refCount : ℤ := 0
  state : ChunkState := .active
  lastReferencedAt : Time
  purgeScheduledAt : Option Time := none
  deriving DecidableEq, Repr

/-- The columns that `trg_chunk_pool_prevent_payload_mutation` guards. -/
def ChunkPool.payload (r : ChunkPool) : String × String × ℤ × ℤ :=
  (r.hashSha256, r.storageKey, r.sizeCompressed, r.sizeEncrypted)

/-- A row of `snapshot_chunks`. -/
structure SnapshotChunk where
  snapshotId : String
  chunkSeq : ℤ
  chunkHash : String
  deriving DecidableEq, Repr

/-- The primary key of `snapshot_chunks`. -/
def SnapshotChunk.pk (l : SnapshotChunk) : String × ℤ := (l.snapshotId, l.chunkSeq)

/-- A row of `configuracion`. -/
structure Configuracion where
  clave : String
  valor : String
  deriving DecidableEq, Repr

end Catalog

open Catalog Lib in
/-- The database. -/
structure Catalog where
  snapshots : Table Snapshot Snapshot.id
  chunkPool : Table ChunkPool ChunkPool.hashSha256
  snapshotChunks : Table SnapshotChunk SnapshotChunk.pk
  configuracion : Table Configuracion Configuracion.clave

namespace Catalog

open Lib

/-- What SQLite answers to a statement it refuses. -/
inductive DbError
  | unique (columns : String)
  | foreignKey
  | raiseAbort (message : String)
  | operational (message : String)
  deriving DecidableEq, Repr

/-- The tables as `Base.metadata.create_all` makes them. -/
def empty : Catalog := ⟨.empty, .empty, .empty, .empty⟩

/-- The number of `snapshot_chunks` rows with hash `h`. -/
def linkCount (c : Catalog) (h : String) : ℕ :=
  c.snapshotChunks.rows.countP fun l => l.chunkHash = h

theorem linkCount_pos {c : Catalog} {h : String} :
    0 < c.linkCount h ↔ ∃ l ∈ c.snapshotChunks.rows, l.chunkHash = h := by
  simp [linkCount, List.countP_pos_iff]

theorem linkCount_eq_zero {c : Catalog} {h : String} :
    c.linkCount h = 0 ↔ ∀ l ∈ c.snapshotChunks.rows, l.chunkHash ≠ h := by
  simp [linkCount, List.countP_eq_zero]

/-! ### `snapshots` -/

/-- `INSERT INTO snapshots`. -/
def insertSnapshot (s : Snapshot) (c : Catalog) : Except DbError Catalog :=
  if h : c.snapshots.find? s.id = none then .ok { c with snapshots := c.snapshots.insert s h }
  else .error (.unique "snapshots.id")

theorem id_of_identity {s s' : Snapshot} (h : s.identity = s'.identity) : s.id = s'.id :=
  congrArg Prod.fst h

/-- `UPDATE snapshots SET … WHERE p`, for an assignment that names no identity
column, so that `trg_snapshots_prevent_tamper` does not fire. -/
def updateSnapshots (p : Snapshot → Bool) (f : Snapshot → Snapshot)
    (hf : ∀ s, (f s).identity = s.identity) (c : Catalog) : Catalog :=
  { c with snapshots := c.snapshots.update p f fun s => id_of_identity (hf s) }

/-! ### `chunk_pool` -/

/-- `INSERT INTO chunk_pool`, with its primary key and the `UNIQUE` key. -/
def insertChunkPool (r : ChunkPool) (c : Catalog) : Except DbError Catalog :=
  if h : c.chunkPool.find? r.hashSha256 = none then
    if c.chunkPool.rows.any fun a => a.storageKey == r.storageKey then
      .error (.unique "chunk_pool.storage_key")
    else .ok { c with chunkPool := c.chunkPool.insert r h }
  else .error (.unique "chunk_pool.hash_sha256")

theorem hash_of_payload {r r' : ChunkPool} (h : r.payload = r'.payload) :
    r.hashSha256 = r'.hashSha256 := congrArg Prod.fst h

/-- `UPDATE chunk_pool SET … WHERE p`, for an assignment that names no payload
column. -/
def updateChunkPool (p : ChunkPool → Bool) (f : ChunkPool → ChunkPool)
    (hf : ∀ r, (f r).payload = r.payload) (c : Catalog) : Catalog :=
  { c with chunkPool := c.chunkPool.update p f fun r => hash_of_payload (hf r) }

/-- `UPDATE chunk_pool SET … WHERE p`, for an assignment that names a payload
column: `trg_chunk_pool_prevent_payload_mutation` refuses the first row. -/
def updateChunkPoolPayload (p : ChunkPool → Bool) (c : Catalog) : Except DbError Catalog :=
  if c.chunkPool.rows.any p then
    .error (.raiseAbort "INVARIANTE_VIOLADA: Los metadatos del chunk son inmutables.")
  else .ok c

/-- `trg_chunk_pool_prevent_active_delete`. -/
def trgChunkPoolPreventActiveDelete (r : ChunkPool) : Option DbError :=
  if 0 < r.refCount ∨ r.state = .active then
    some (.raiseAbort
      "INVARIANTE_VIOLADA: Prohibido eliminar chunk activo o con ref_count > 0.")
  else none

/-- The `ON DELETE RESTRICT` of `snapshot_chunks.chunk_hash`. -/
def restrictChunkHash (c : Catalog) (r : ChunkPool) : Option DbError :=
  if c.snapshotChunks.rows.any fun l => l.chunkHash == r.hashSha256 then some .foreignKey else none

/-- `DELETE FROM chunk_pool WHERE p`: the first refused row aborts the statement. -/
def deleteChunkPool (p : ChunkPool → Bool) (c : Catalog) : Except DbError Catalog :=
  match (c.chunkPool.rows.filter p).findSome? fun r =>
      (trgChunkPoolPreventActiveDelete r).or (restrictChunkHash c r) with
  | some e => .error e
  | none => .ok { c with chunkPool := c.chunkPool.delete p }

/-! ### `snapshot_chunks` -/

/-- `trg_snapshot_chunks_after_insert`, on the row of the linked chunk. -/
def trgSnapshotChunksAfterInsert (now : Time) (r : ChunkPool) : ChunkPool :=
  { r with
    refCount := r.refCount + 1
    state := .active
    lastReferencedAt := now
    purgeScheduledAt := none }

/-- `trg_snapshot_chunks_after_delete`, on the row of the linked chunk.  The
right-hand sides read the row as it was before the `UPDATE`. -/
def trgSnapshotChunksAfterDelete (now : Time) (r : ChunkPool) : ChunkPool :=
  { r with
    refCount := if 0 < r.refCount then r.refCount - 1 else 0
    state := if r.refCount - 1 = 0 then .pendingDelete else r.state
    purgeScheduledAt := if r.refCount - 1 = 0 then some now else r.purgeScheduledAt }

/-- `INSERT INTO snapshot_chunks`: primary key, both foreign keys, then the
trigger. -/
def insertSnapshotChunk (now : Time) (l : SnapshotChunk) (c : Catalog) : Except DbError Catalog :=
  if h : c.snapshotChunks.find? l.pk = none then
    if (c.snapshots.find? l.snapshotId).isSome ∧ (c.chunkPool.find? l.chunkHash).isSome then
      .ok { c with
        snapshotChunks := c.snapshotChunks.insert l h
        chunkPool := c.chunkPool.update (fun r => r.hashSha256 = l.chunkHash)
          (trgSnapshotChunksAfterInsert now) fun _ => rfl }
    else .error .foreignKey
  else .error (.unique "snapshot_chunks.snapshot_id, snapshot_chunks.chunk_seq")

/-- `UPDATE snapshot_chunks WHERE p`: refused by
`trg_snapshot_chunks_prevent_update` at the first row. -/
def updateSnapshotChunks (p : SnapshotChunk → Bool) (c : Catalog) : Except DbError Catalog :=
  if c.snapshotChunks.rows.any p then
    .error (.raiseAbort
      "INVARIANTE_VIOLADA: Los enlaces de snapshot_chunks son estrictamente inmutables.")
  else .ok c

/-- The deletion of one row of `snapshot_chunks`, with its trigger. -/
def deleteSnapshotChunk (now : Time) (c : Catalog) (l : SnapshotChunk) : Catalog :=
  { c with
    snapshotChunks := c.snapshotChunks.delete fun a => a.pk = l.pk
    chunkPool := c.chunkPool.update (fun r => r.hashSha256 = l.chunkHash)
      (trgSnapshotChunksAfterDelete now) fun _ => rfl }

/-- `DELETE FROM snapshot_chunks WHERE p`, one row after the other. -/
def deleteSnapshotChunks (now : Time) (p : SnapshotChunk → Bool) (c : Catalog) : Catalog :=
  (c.snapshotChunks.rows.filter p).foldl (deleteSnapshotChunk now) c

/-- `trg_snapshots_prevent_unauthorized_delete`. -/
def trgSnapshotsPreventUnauthorizedDelete (s : Snapshot) : Option DbError :=
  if s.estado = .completed ∨ s.estado = .running then
    some (.raiseAbort ("INVARIANTE_VIOLADA: Prohibido eliminar snapshots activos o completados " ++
      "sin proceso formal de retención."))
  else none

/-- `DELETE FROM snapshots WHERE id = …`: the trigger, then the
`ON DELETE CASCADE` of `snapshot_chunks.snapshot_id`. -/
def deleteSnapshot (now : Time) (id : String) (c : Catalog) : Except DbError Catalog :=
  match c.snapshots.find? id with
  | none => .ok c
  | some s =>
    match trgSnapshotsPreventUnauthorizedDelete s with
    | some e => .error e
    | none =>
      let c' := deleteSnapshotChunks now (fun l => l.snapshotId = id) c
      .ok { c' with snapshots := c'.snapshots.delete fun a => a.id = id }

/-! ### What a statement does to a chunk

A chunk is seen through its `chunk_pool` row and the number of its links; each
statement is described by what it does to the two. -/

theorem insertSnapshot_ok {s : Snapshot} {c c' : Catalog} (h : insertSnapshot s c = .ok c') :
    c.snapshots.find? s.id = none ∧
      (∀ k, c'.snapshots.find? k = if s.id = k then some s else c.snapshots.find? k) ∧
      c'.chunkPool = c.chunkPool ∧ c'.snapshotChunks = c.snapshotChunks := by
  unfold insertSnapshot at h
  split_ifs at h with hn
  obtain rfl := Except.ok.inj h
  exact ⟨hn, Table.find?_insert _ _ hn, rfl, rfl⟩

theorem insertChunkPool_ok {r : ChunkPool} {c c' : Catalog} (h : insertChunkPool r c = .ok c') :
    c.chunkPool.find? r.hashSha256 = none ∧ (∀ k, c'.chunkPool.find? k =
      if r.hashSha256 = k then some r else c.chunkPool.find? k) ∧
      c'.snapshotChunks = c.snapshotChunks ∧ c'.snapshots = c.snapshots := by
  unfold insertChunkPool at h
  split_ifs at h with hn hk
  obtain rfl := Except.ok.inj h
  exact ⟨hn, Table.find?_insert _ _ hn, rfl, rfl⟩

theorem find?_updateChunkPool (p : ChunkPool → Bool) (f : ChunkPool → ChunkPool)
    (hf : ∀ r, (f r).payload = r.payload) (c : Catalog) (k : String) :
    (updateChunkPool p f hf c).chunkPool.find? k =
      (c.chunkPool.find? k).map fun r => if p r then f r else r :=
  Table.find?_update _ _ _ (fun r => hash_of_payload (hf r)) k

theorem insertSnapshotChunk_ok {now : Time} {l : SnapshotChunk} {c c' : Catalog}
    (h : insertSnapshotChunk now l c = .ok c') :
    (∃ r, c.chunkPool.find? l.chunkHash = some r) ∧ (∀ k, c'.chunkPool.find? k =
      if l.chunkHash = k then (c.chunkPool.find? k).map (trgSnapshotChunksAfterInsert now)
      else c.chunkPool.find? k) ∧
      (∀ k, c'.linkCount k = c.linkCount k + if l.chunkHash = k then 1 else 0) ∧
      (∀ a, a ∈ c'.snapshotChunks.rows ↔ a ∈ c.snapshotChunks.rows ∨ a = l) ∧
      c'.snapshots = c.snapshots := by
  unfold insertSnapshotChunk at h
  split_ifs at h with hn hfk
  obtain rfl := Except.ok.inj h
  refine ⟨Option.isSome_iff_exists.1 hfk.2,
    fun k => Table.find?_update_key _ _ _ (trgSnapshotChunksAfterInsert now) fun _ => rfl,
    fun k => ?_, fun _ => Table.mem_insert hn, rfl⟩
  simp [linkCount, Table.countP_insert]

theorem find?_deleteSnapshotChunk (now : Time) (c : Catalog) (l : SnapshotChunk) (k : String) :
    (deleteSnapshotChunk now c l).chunkPool.find? k =
      if l.chunkHash = k then (c.chunkPool.find? k).map (trgSnapshotChunksAfterDelete now)
      else c.chunkPool.find? k :=
  Table.find?_update_key _ _ _ (trgSnapshotChunksAfterDelete now) fun _ => rfl

theorem linkCount_deleteSnapshotChunk (now : Time) {c : Catalog} {l : SnapshotChunk}
    (hl : l ∈ c.snapshotChunks.rows) (k : String) :
    (deleteSnapshotChunk now c l).linkCount k + (if l.chunkHash = k then 1 else 0) =
      c.linkCount k := by
  simpa [linkCount, deleteSnapshotChunk] using
    Table.countP_delete_key c.snapshotChunks (Table.find?_of_mem hl) fun a => a.chunkHash = k

theorem deleteChunkPool_ok {p : ChunkPool → Bool} {c c' : Catalog}
    (h : deleteChunkPool p c = .ok c') :
    (∀ k, c'.chunkPool.find? k = (c.chunkPool.find? k).filter fun r => !p r) ∧
      (∀ r ∈ c.chunkPool.rows, p r = true → c.linkCount r.hashSha256 = 0) ∧
      c'.snapshotChunks = c.snapshotChunks ∧ c'.snapshots = c.snapshots := by
  unfold deleteChunkPool at h
  split at h
  · cases h
  · rename_i hnone
    obtain rfl := Except.ok.inj h
    refine ⟨Table.find?_delete _ _, fun r hr hp => ?_, rfl, rfl⟩
    have := List.findSome?_eq_none_iff.1 hnone r (List.mem_filter.2 ⟨hr, hp⟩)
    rw [Option.or_eq_none_iff] at this
    have hres := this.2
    unfold restrictChunkHash at hres
    split_ifs at hres with hany
    rw [linkCount_eq_zero]
    intro l hl heq
    exact hany (List.any_eq_true.2 ⟨l, hl, by simp [heq]⟩)

end Catalog
end Boveda

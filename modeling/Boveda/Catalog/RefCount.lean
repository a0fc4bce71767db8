/-
# The reference counts of the catalog

The triggers of `src/boveda/database.py` maintain `chunk_pool.ref_count` and the
purge cycle `ACTIVE → PENDING_DELETE → PURGING_S3`.  `CellOk` is what they keep
of one chunk, seen as its `chunk_pool` row and the number of its links; it is
stronger than the four facts a reader of the schema expects
(`RefCountInv.refCount_eq` and the lemmas after it), as it has to say that a
chunk with links is `ACTIVE` to be inductive.

Every statement of the program keeps `CellOk` (`RefCountInv.insertSnapshotChunk`
and its neighbours), and so does every sequence of its catalog operations
(`refCountInv_apply`).  A bulk or cascaded `DELETE` fires its trigger row by
row, so the invariant also holds between two rows of one statement, and the zero
floor of `trg_snapshot_chunks_after_delete` is dead code (`RefCountInv.floorUnused`).
-/

import Boveda.Catalog.Transactions

namespace Boveda
namespace Catalog

open Lib

/-- A row of `chunk_pool` that fits a chunk with `n` links. -/
structure RowOk (r : ChunkPool) (n : ℕ) : Prop where
  refCount : r.refCount = n
  active : 0 < n → r.state = .active
  scheduled : r.state = .pendingDelete ∨ r.state = .purgingS3 → r.purgeScheduledAt.isSome = true

/-- What the catalog knows of one chunk is coherent. -/
def CellOk : Option ChunkPool → ℕ → Prop
  | none, n => n = 0
  | some r, n => RowOk r n

/-- Every chunk is coherent. -/
def RefCountInv (c : Catalog) : Prop := ∀ h, CellOk (c.chunkPool.find? h) (c.linkCount h)

/-- In a bulk or cascaded `DELETE FROM snapshot_chunks`, and so in the deletion
of one row, each row that is reached has a chunk with a positive `ref_count`. -/
def FloorUnused (c : Catalog) : Prop :=
  ∀ now p ls l rest, c.snapshotChunks.rows.filter p = ls ++ l :: rest →
    ∃ r, (ls.foldl (deleteSnapshotChunk now) c).chunkPool.find? l.chunkHash = some r ∧
      0 < r.refCount

/-! ### One row -/

theorem RowOk.afterInsert {r : ChunkPool} {n : ℕ} (h : RowOk r n) (now : Time) :
    RowOk (trgSnapshotChunksAfterInsert now r) (n + 1) where
  refCount := by simp [trgSnapshotChunksAfterInsert, h.refCount]
  active _ := rfl
  scheduled hs := by simp [trgSnapshotChunksAfterInsert] at hs

theorem RowOk.afterDelete {r : ChunkPool} {n : ℕ} (h : RowOk r (n + 1)) (now : Time) :
    RowOk (trgSnapshotChunksAfterDelete now r) n := by
  have href := h.refCount
  have hact := h.active (Nat.succ_pos n)
  have hpos : 0 < r.refCount := by omega
  rcases Nat.eq_zero_or_pos n with rfl | hn
  · have h1 : r.refCount - 1 = 0 := by omega
    exact ⟨by simp [trgSnapshotChunksAfterDelete, hpos, h1], fun h0 => absurd h0 (by omega),
      fun _ => by simp [trgSnapshotChunksAfterDelete, h1]⟩
  · have h1 : ¬ r.refCount - 1 = 0 := by omega
    refine ⟨by simp [trgSnapshotChunksAfterDelete, hpos]; omega,
      fun _ => by simp [trgSnapshotChunksAfterDelete, h1, hact], fun hs => ?_⟩
    simp [trgSnapshotChunksAfterDelete, h1, hact] at hs

theorem RowOk.reactivate {r : ChunkPool} {n : ℕ} (h : RowOk r n) : RowOk (reactivate r) n := by
  unfold Catalog.reactivate
  split_ifs with hs
  · exact ⟨h.refCount, fun _ => rfl, fun hst => by simp at hst⟩
  · exact h

theorem RowOk.marked {r : ChunkPool} {n : ℕ} (h : RowOk r n)
    (hst : r.refCount = 0 → r.state = .pendingDelete) : RowOk (marked r) n := by
  unfold Catalog.marked
  split_ifs with h0
  · have hn : n = 0 := by have := h.refCount; omega
    exact ⟨h.refCount, fun hpos => absurd hpos (by omega), fun _ => h.scheduled (Or.inl (hst h0))⟩
  · exact h

theorem RowOk.reverted {r : ChunkPool} {n : ℕ} (h : RowOk r n) : RowOk (reverted r) n := by
  unfold Catalog.reverted
  split_ifs with hs
  · refine ⟨h.refCount, fun hpos => ?_, fun _ => h.scheduled (Or.inr hs)⟩
    have := h.active hpos
    simp [hs] at this
  · exact h

theorem rowOk_new {r : ChunkPool} (href : r.refCount = 0) (hst : r.state = .active) : RowOk r 0 :=
  ⟨by simpa using href, fun h0 => absurd h0 (lt_irrefl 0), fun hs => by simp [hst] at hs⟩

/-! ### One statement -/

namespace RefCountInv

variable {c c' : Catalog}

theorem empty : RefCountInv Catalog.empty := fun _ => rfl

/-- A statement that touches neither table keeps the invariant. -/
theorem frame (hc : RefCountInv c) (hp : c'.chunkPool = c.chunkPool)
    (hl : c'.snapshotChunks = c.snapshotChunks) : RefCountInv c' := by
  intro h
  have := hc h
  rwa [linkCount, hp, hl]

theorem insertChunkPool {r : ChunkPool} (hc : RefCountInv c) (href : r.refCount = 0)
    (hst : r.state = .active) (h : Catalog.insertChunkPool r c = .ok c') : RefCountInv c' := by
  obtain ⟨hnone, hfind, hlinks, -⟩ := insertChunkPool_ok h
  intro k
  have hk := hc k
  rw [hfind, linkCount, hlinks]
  split_ifs with heq
  · subst heq
    rw [hnone] at hk
    have h0 : c.linkCount r.hashSha256 = 0 := hk
    rw [linkCount] at h0
    rw [h0]
    exact rowOk_new href hst
  · exact hk

/-- A change of rows, each of which stays coherent, keeps the invariant. -/
theorem of_find? {F : String → Option ChunkPool → Option ChunkPool} (hc : RefCountInv c)
    (hl : c'.snapshotChunks = c.snapshotChunks)
    (hfind : ∀ k, c'.chunkPool.find? k = F k (c.chunkPool.find? k))
    (hF : ∀ k, CellOk (c.chunkPool.find? k) (c.linkCount k) →
      CellOk (F k (c.chunkPool.find? k)) (c.linkCount k)) : RefCountInv c' := by
  intro k
  rw [hfind, linkCount, hl]
  exact hF k (hc k)

theorem insertSnapshotChunk {now : Time} {l : SnapshotChunk} (hc : RefCountInv c)
    (h : Catalog.insertSnapshotChunk now l c = .ok c') : RefCountInv c' := by
  obtain ⟨⟨r, hr⟩, hfind, hcount, -, -⟩ := insertSnapshotChunk_ok h
  intro k
  have hk := hc k
  rw [hfind, hcount]
  split_ifs with heq
  · subst heq
    rw [hr] at hk ⊢
    exact hk.afterInsert now
  · exact hk

/-- The row of a linked chunk, and what the delete trigger finds there. -/
theorem exists_row (hc : RefCountInv c) {l : SnapshotChunk} (hl : l ∈ c.snapshotChunks.rows) :
    ∃ r n, c.chunkPool.find? l.chunkHash = some r ∧ c.linkCount l.chunkHash = n + 1 ∧
      RowOk r (n + 1) := by
  have hpos : 0 < c.linkCount l.chunkHash := linkCount_pos.2 ⟨l, hl, rfl⟩
  obtain ⟨n, hn⟩ := Nat.exists_eq_add_of_lt hpos
  rw [Nat.zero_add] at hn
  have hk := hc l.chunkHash
  rw [hn] at hk
  cases hf : c.chunkPool.find? l.chunkHash with
  | none =>
    rw [hf] at hk
    exact absurd hk (Nat.succ_ne_zero n)
  | some r =>
    rw [hf] at hk
    exact ⟨r, n, rfl, hn, hk⟩

theorem deleteSnapshotChunk {l : SnapshotChunk} (hc : RefCountInv c) (now : Time)
    (hl : l ∈ c.snapshotChunks.rows) : RefCountInv (Catalog.deleteSnapshotChunk now c l) := by
  intro k
  have hcount := linkCount_deleteSnapshotChunk now hl k
  rw [find?_deleteSnapshotChunk]
  split_ifs with heq
  · subst heq
    obtain ⟨r, n, hr, hn, hrow⟩ := hc.exists_row hl
    rw [if_pos rfl, hn] at hcount
    rw [hr, Nat.succ.inj hcount]
    exact hrow.afterDelete now
  · rw [if_neg heq, Nat.add_zero] at hcount
    rw [hcount]
    exact hc k

end RefCountInv

/-- **A bulk delete is a sequence of row deletes**, each of a row that is still
there: what one of them keeps, every initial part of the statement keeps. -/
theorem foldl_deleteSnapshotChunk {I : Catalog → Prop} {now : Time}
    (hI : ∀ c l, l ∈ c.snapshotChunks.rows → I c → I (deleteSnapshotChunk now c l)) :
    ∀ (ls : List SnapshotChunk) (c : Catalog), (ls.map SnapshotChunk.pk).Nodup →
      (∀ l ∈ ls, l ∈ c.snapshotChunks.rows) → I c → I (ls.foldl (deleteSnapshotChunk now) c)
  | [], _, _, _, hc => hc
  | l :: ls, c, hnd, hmem, hc => by
      obtain ⟨hl, hnd'⟩ := List.nodup_cons.1 hnd
      refine foldl_deleteSnapshotChunk hI ls _ hnd' (fun a ha => ?_)
        (hI c l (hmem l (List.mem_cons_self ..)) hc)
      refine Table.mem_delete.2 ⟨hmem a (List.mem_cons_of_mem _ ha), ?_⟩
      have : a.pk ≠ l.pk := fun he => hl (he ▸ List.mem_map_of_mem ha)
      simpa using this

/-- The rows that a bulk delete goes through have different keys. -/
theorem nodup_filter_pk (c : Catalog) (p : SnapshotChunk → Bool) :
    ((c.snapshotChunks.rows.filter p).map SnapshotChunk.pk).Nodup :=
  c.snapshotChunks.nodup.sublist (List.filter_sublist.map _)

/-- The links that row deletes leave. -/
theorem mem_foldl_deleteSnapshotChunk (now : Time) (ls : List SnapshotChunk) (c : Catalog)
    (a : SnapshotChunk) : a ∈ (ls.foldl (deleteSnapshotChunk now) c).snapshotChunks.rows ↔
      a ∈ c.snapshotChunks.rows ∧ a.pk ∉ ls.map SnapshotChunk.pk := by
  induction ls generalizing c with
  | nil => simp
  | cons l ls ih =>
    rw [List.foldl_cons, ih, deleteSnapshotChunk, Table.mem_delete]
    simp [and_assoc]

/-- The links that a bulk delete leaves. -/
theorem mem_deleteSnapshotChunks (now : Time) (p : SnapshotChunk → Bool) (c : Catalog)
    (a : SnapshotChunk) : a ∈ (deleteSnapshotChunks now p c).snapshotChunks.rows ↔
      a ∈ c.snapshotChunks.rows ∧ p a = false := by
  rw [deleteSnapshotChunks, mem_foldl_deleteSnapshotChunk]
  refine and_congr_right fun ha => ⟨fun h => ?_, fun h hmem => ?_⟩
  · by_contra hp
    exact h (List.mem_map_of_mem (List.mem_filter.2 ⟨ha, by simpa using hp⟩))
  · obtain ⟨b, hb, hpk⟩ := List.mem_map.1 hmem
    obtain ⟨hb, hpb⟩ := List.mem_filter.1 hb
    have hba : b = a := List.inj_on_of_nodup_map c.snapshotChunks.nodup hb ha hpk
    rw [hba, h] at hpb
    cases hpb

namespace RefCountInv

variable {c c' : Catalog}

theorem deleteSnapshotChunks (hc : RefCountInv c) (now : Time) (p : SnapshotChunk → Bool) :
    RefCountInv (Catalog.deleteSnapshotChunks now p c) :=
  foldl_deleteSnapshotChunk (fun _ _ hl h => h.deleteSnapshotChunk now hl) _ c
    (nodup_filter_pk c p) (fun _ hl => (List.mem_filter.1 hl).1) hc

theorem deleteSnapshot {now : Time} {id : String} (hc : RefCountInv c)
    (h : Catalog.deleteSnapshot now id c = .ok c') : RefCountInv c' := by
  unfold Catalog.deleteSnapshot at h
  split at h
  · exact Except.ok.inj h ▸ hc
  · split at h
    · cases h
    · obtain rfl := Except.ok.inj h
      exact (hc.deleteSnapshotChunks now _).frame rfl rfl

theorem deleteChunkPool {p : ChunkPool → Bool} (hc : RefCountInv c)
    (h : Catalog.deleteChunkPool p c = .ok c') : RefCountInv c' := by
  obtain ⟨hfind, hzero, hlinks, -⟩ := deleteChunkPool_ok h
  refine hc.of_find? (F := fun _ o => o.filter fun r => !p r) hlinks hfind fun k hk => ?_
  cases hf : c.chunkPool.find? k with
  | none => rwa [hf] at hk
  | some r =>
    rw [hf] at hk
    by_cases hp : p r = true
    · have h0 := hzero r (Table.mem_of_find? hf) hp
      rw [Table.key_of_find? hf] at h0
      simpa [Option.filter_some, hp, CellOk] using h0
    · simpa [Option.filter_some, hp] using hk

theorem dbCheckAndPrepare {now : Time} {h : String} {n : ℤ} {key : String} {up : Bool}
    (hc : RefCountInv c) (hok : Catalog.dbCheckAndPrepare now h n c = .ok (c', key, up)) :
    RefCountInv c' := by
  obtain ⟨⟨r, hr, -, hcase⟩, hother, hlinks, -⟩ := dbCheckAndPrepare_ok hok
  intro k
  have hk := hc k
  rw [linkCount, hlinks]
  by_cases heq : k = h
  · subst heq
    rw [hr]
    rcases hcase with ⟨hnone, rfl, -⟩ | ⟨r₀, hr₀, rfl, -⟩
    · rw [hnone] at hk
      have h0 : c.linkCount k = 0 := hk
      rw [linkCount] at h0
      rw [h0]
      exact rowOk_new rfl rfl
    · rw [hr₀] at hk
      exact hk.reactivate
  · rw [hother k heq]
    exact hk

theorem purgePhase1 (hc : RefCountInv c) (n : ℕ) : RefCountInv (Catalog.purgePhase1 n c).2 := by
  obtain ⟨hbatch, hfind, hlinks, -⟩ := purgePhase1_spec n c
  intro k
  have hk := hc k
  rw [hfind, linkCount, hlinks]
  split_ifs with hmem
  · obtain ⟨⟨h, key⟩, hhk, rfl⟩ := List.mem_map.1 hmem
    obtain ⟨r, hr, -, -, hst⟩ := hbatch h key hhk
    rw [hr] at hk ⊢
    exact hk.marked fun _ => hst
  · exact hk

theorem purgeRevert (hc : RefCountInv c) (hs : List String) :
    RefCountInv (Catalog.purgeRevert hs c) := by
  obtain ⟨hfind, hlinks, -⟩ := purgeRevert_spec hs c
  intro k
  have hk := hc k
  rw [hfind, linkCount, hlinks]
  split_ifs
  · cases hf : c.chunkPool.find? k with
    | none => rwa [hf] at hk
    | some r =>
      rw [hf] at hk
      exact hk.reverted
  · exact hk

theorem purgePhase2 {hs : List String} (hc : RefCountInv c)
    (h : Catalog.purgePhase2 hs c = .ok c') : RefCountInv c' := by
  induction hs generalizing c with
  | nil => exact (show c = c' by simpa [Catalog.purgePhase2, pure, Except.pure] using h) ▸ hc
  | cons k ks ih =>
    simp only [Catalog.purgePhase2, List.foldlM_cons] at h
    cases h₁ : deletePurged c k with
    | error e => simp [h₁, bind, Except.bind] at h
    | ok c₁ =>
      simp only [h₁, bind, Except.bind] at h
      exact ih (hc.deleteChunkPool h₁) h

/-! ### What the invariant says of the tables -/

/-- The row found in the table, with the count of its links. -/
theorem rowOk (hc : RefCountInv c) {r : ChunkPool} (hr : r ∈ c.chunkPool.rows) :
    RowOk r (c.linkCount r.hashSha256) := by
  have := hc r.hashSha256
  rwa [Table.find?_of_mem hr] at this

theorem refCount_eq (hc : RefCountInv c) {r : ChunkPool} (hr : r ∈ c.chunkPool.rows) :
    r.refCount = c.linkCount r.hashSha256 := (hc.rowOk hr).refCount

theorem hash_exists (hc : RefCountInv c) {l : SnapshotChunk} (hl : l ∈ c.snapshotChunks.rows) :
    ∃ r ∈ c.chunkPool.rows, r.hashSha256 = l.chunkHash := by
  obtain ⟨r, -, hr, -, -⟩ := hc.exists_row hl
  exact ⟨r, Table.mem_of_find? hr, Table.key_of_find? hr⟩

theorem active_of_pos (hc : RefCountInv c) {r : ChunkPool} (hr : r ∈ c.chunkPool.rows)
    (hpos : 0 < r.refCount) : r.state = .active :=
  (hc.rowOk hr).active (by have := hc.refCount_eq hr; omega)

theorem unreferenced_of_scheduled (hc : RefCountInv c) {r : ChunkPool} (hr : r ∈ c.chunkPool.rows)
    (hst : r.state = .pendingDelete ∨ r.state = .purgingS3) :
    r.refCount = 0 ∧ r.purgeScheduledAt.isSome = true := by
  refine ⟨?_, (hc.rowOk hr).scheduled hst⟩
  by_contra hne
  have hact := hc.active_of_pos hr (by have := hc.refCount_eq hr; omega)
  simp [hact] at hst

/-- **The zero floor is dead code.** -/
theorem floorUnused (hc : RefCountInv c) : FloorUnused c := by
  intro now p ls l rest hsplit
  have hnd := nodup_filter_pk c p
  rw [hsplit, List.map_append, List.nodup_append] at hnd
  obtain ⟨hnd, -, hdisj⟩ := hnd
  have hmem : ∀ a ∈ ls ++ l :: rest, a ∈ c.snapshotChunks.rows := fun a ha =>
    (List.mem_filter.1 (hsplit ▸ ha)).1
  have hinv : RefCountInv (ls.foldl (Catalog.deleteSnapshotChunk now) c) :=
    foldl_deleteSnapshotChunk (fun _ _ hl h => h.deleteSnapshotChunk now hl) ls c hnd
      (fun a ha => hmem a (List.mem_append_left _ ha)) hc
  have hl : l ∈ (ls.foldl (Catalog.deleteSnapshotChunk now) c).snapshotChunks.rows := by
    rw [mem_foldl_deleteSnapshotChunk]
    refine ⟨hmem l (List.mem_append_right _ (List.mem_cons_self ..)), fun hpk => ?_⟩
    exact hdisj _ hpk _ (List.mem_map_of_mem (List.mem_cons_self ..)) rfl
  obtain ⟨r, n, hr, -, hrow⟩ := hinv.exists_row hl
  exact ⟨r, hr, by rw [hrow.refCount]; omega⟩

end RefCountInv

/-! ### Every sequence of operations -/

/-- The catalog operations of the program, and attempts at what the schema
forbids. -/
inductive CatalogOp
  | insertSnapshot (s : Snapshot)
  | setEstado (id : String) (estado : Estado)
  | insertChunk (hash storageKey : String) (size : ℤ) (now : Time)
  | dbCheckAndPrepare (hash : String) (payloadLen : ℤ) (now : Time)
  | saveChunkRef (snapshotId : String) (seq : ℤ) (hash : String) (now : Time)
  | deleteLink (snapshotId : String) (seq : ℤ) (now : Time)
  | deleteLinks (p : SnapshotChunk → Bool) (now : Time)
  | deleteSnapshot (id : String) (now : Time)
  | purgePhase1 (batchSize : ℕ)
  | purgePhase2 (hashes : List String)
  | purgeRevert (hashes : List String)
  | deleteChunks (p : ChunkPool → Bool)
  | updateChunkPayload (p : ChunkPool → Bool)
  | updateLinks (p : SnapshotChunk → Bool)

/-- The row of `CatalogOp.insertChunk`: `ref_count` 0 and `ACTIVE`. -/
def freshChunk (hash storageKey : String) (size : ℤ) (now : Time) : ChunkPool where
  hashSha256 := hash
  storageKey := storageKey
  sizeCompressed := size
  sizeEncrypted := size
  lastReferencedAt := now

/-- A refused statement leaves the catalog as it was. -/
def orUnchanged (c : Catalog) : Except DbError Catalog → Catalog
  | .ok c' => c'
  | .error _ => c

/-- The catalog after one operation. -/
def apply (c : Catalog) : CatalogOp → Catalog
  | .insertSnapshot s => orUnchanged c (insertSnapshot s c)
  | .setEstado id estado => setEstado id estado c
  | .insertChunk hash key size now =>
    orUnchanged c (insertChunkPool (freshChunk hash key size now) c)
  | .dbCheckAndPrepare hash n now =>
    orUnchanged c ((dbCheckAndPrepare now hash n c).map Prod.fst)
  | .saveChunkRef id seq hash now => orUnchanged c (saveChunkRef now id seq hash c)
  | .deleteLink id seq now => deleteSnapshotChunks now (fun l => l.pk = (id, seq)) c
  | .deleteLinks p now => deleteSnapshotChunks now p c
  | .deleteSnapshot id now => orUnchanged c (deleteSnapshot now id c)
  | .purgePhase1 n => (purgePhase1 n c).2
  | .purgePhase2 hs => orUnchanged c (purgePhase2 hs c)
  | .purgeRevert hs => purgeRevert hs c
  | .deleteChunks p => orUnchanged c (deleteChunkPool p c)
  | .updateChunkPayload p => orUnchanged c (updateChunkPoolPayload p c)
  | .updateLinks p => orUnchanged c (updateSnapshotChunks p c)

theorem RefCountInv.orUnchanged {c : Catalog} {r : Except DbError Catalog} (hc : RefCountInv c)
    (h : ∀ c', r = .ok c' → RefCountInv c') : RefCountInv (orUnchanged c r) := by
  cases r with
  | error _ => exact hc
  | ok c' => exact h c' rfl

/-- **One operation keeps the invariant**, refused or not. -/
theorem refCountInv_apply {c : Catalog} (hc : RefCountInv c) (op : CatalogOp) :
    RefCountInv (apply c op) := by
  cases op with
  | insertSnapshot s =>
    refine hc.orUnchanged fun c' h => ?_
    obtain ⟨-, -, hp, hl⟩ := insertSnapshot_ok h
    exact hc.frame hp hl
  | setEstado id estado => exact hc.frame rfl rfl
  | insertChunk hash key size now =>
    exact hc.orUnchanged fun _ h => hc.insertChunkPool rfl rfl h
  | dbCheckAndPrepare hash n now =>
    refine hc.orUnchanged fun c' h => ?_
    cases hp : dbCheckAndPrepare now hash n c with
    | error e => simp [hp, Except.map] at h
    | ok t =>
      obtain ⟨c₁, key, up⟩ := t
      rw [hp] at h
      exact Except.ok.inj h ▸ hc.dbCheckAndPrepare hp
  | saveChunkRef id seq hash now => exact hc.orUnchanged fun _ h => hc.insertSnapshotChunk h
  | deleteLink id seq now => exact hc.deleteSnapshotChunks now _
  | deleteLinks p now => exact hc.deleteSnapshotChunks now p
  | deleteSnapshot id now => exact hc.orUnchanged fun _ h => hc.deleteSnapshot h
  | purgePhase1 n => exact hc.purgePhase1 n
  | purgePhase2 hs => exact hc.orUnchanged fun _ h => hc.purgePhase2 h
  | purgeRevert hs => exact hc.purgeRevert hs
  | deleteChunks p => exact hc.orUnchanged fun _ h => hc.deleteChunkPool h
  | updateChunkPayload p =>
    refine hc.orUnchanged fun c' h => ?_
    unfold updateChunkPoolPayload at h
    split_ifs at h
    exact Except.ok.inj h ▸ hc
  | updateLinks p =>
    refine hc.orUnchanged fun c' h => ?_
    unfold updateSnapshotChunks at h
    split_ifs at h
    exact Except.ok.inj h ▸ hc

/-- Every sequence of operations keeps the invariant. -/
theorem refCountInv_foldl {c : Catalog} (hc : RefCountInv c) (ops : List CatalogOp) :
    RefCountInv (ops.foldl apply c) := by
  induction ops generalizing c with
  | nil => exact hc
  | cons op ops ih => exact ih (refCountInv_apply hc op)

/-- **The reference counts are right in every reachable catalog.**  From the
empty catalog, whatever the operations: `ref_count` is the number of links,
every link has its chunk, a referenced chunk is `ACTIVE`, a chunk in the purge
cycle is unreferenced and scheduled, and the delete trigger never needs its
floor. -/
theorem catalog_coherent (ops : List CatalogOp) :
    let c := ops.foldl apply empty
    (∀ r ∈ c.chunkPool.rows, r.refCount = c.linkCount r.hashSha256) ∧
      (∀ l ∈ c.snapshotChunks.rows, ∃ r ∈ c.chunkPool.rows, r.hashSha256 = l.chunkHash) ∧
      (∀ r ∈ c.chunkPool.rows, 0 < r.refCount → r.state = .active) ∧
      (∀ r ∈ c.chunkPool.rows, r.state = .pendingDelete ∨ r.state = .purgingS3 →
        r.refCount = 0 ∧ r.purgeScheduledAt.isSome = true) ∧
      FloorUnused c := by
  have hc : RefCountInv (ops.foldl apply empty) := refCountInv_foldl RefCountInv.empty ops
  exact ⟨fun r hr => hc.refCount_eq hr, fun l hl => hc.hash_exists hl,
    fun r hr => hc.active_of_pos hr, fun r hr => hc.unreferenced_of_scheduled hr, hc.floorUnused⟩

end Catalog
end Boveda

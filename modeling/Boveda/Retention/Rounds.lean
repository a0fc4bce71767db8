/-
# One round of a purge, and all of them

What `purge_expired_snapshots` does for one expired snapshot when nothing fails:
the links go, the rows of chunks that lose their last link wait for deletion
(`Unlinks`), and the first `batch_size` of the rows that wait are deleted, here and
in the object store (`twoPhase_spec`).  A table keeps the order of its rows, so
that what is selected first is what has been inserted first.

`Rounds` are the rounds of a whole run.  After them the links and the snapshots of
those that had expired are gone, some rows that wait are gone, and nothing else
has happened (`rounds_after`).
-/

import Boveda.Lib.Backlog
import Boveda.Retention.Purge

namespace Boveda
namespace Retention

open Lib Catalog

/-! ### Unlinking a snapshot -/

/-- The row of a chunk whose links have gone from `n` to `m`. -/
def unlinkedRow (now : Time) (n m : ℕ) (r : ChunkPool) : ChunkPool :=
  if m = n then r
  else { r with
    refCount := m
    state := if m = 0 then .pendingDelete else r.state
    purgeScheduledAt := if m = 0 then some now else r.purgeScheduledAt }

@[simp] theorem payload_unlinkedRow (now : Time) (n m : ℕ) (r : ChunkPool) :
    (unlinkedRow now n m r).payload = r.payload := by
  unfold unlinkedRow
  split_ifs <;> rfl

@[simp] theorem hash_unlinkedRow (now : Time) (n m : ℕ) (r : ChunkPool) :
    (unlinkedRow now n m r).hashSha256 = r.hashSha256 :=
  hash_of_payload (payload_unlinkedRow now n m r)

/-- What the trigger does to a row that has lost links before. -/
theorem trg_unlinkedRow {now : Time} {n m : ℕ} {r : ChunkPool} (hm : m + 1 ≤ n)
    (href : (unlinkedRow now n (m + 1) r).refCount = (m + 1 : ℕ)) :
    trgSnapshotChunksAfterDelete now (unlinkedRow now n (m + 1) r) = unlinkedRow now n m r := by
  have hpos : (0 : ℤ) < ((m + 1 : ℕ) : ℤ) := by omega
  have hsub : ((m + 1 : ℕ) : ℤ) - 1 = m := by omega
  have hzero : ((m : ℤ) = 0) = (m = 0) := by simp
  have hne : ¬ m = n := by omega
  have hold : (unlinkedRow now n (m + 1) r).state = r.state ∧
      (unlinkedRow now n (m + 1) r).purgeScheduledAt = r.purgeScheduledAt := by
    unfold unlinkedRow
    by_cases h : m + 1 = n
    · rw [if_pos h]
      exact ⟨rfl, rfl⟩
    · simp only [if_neg h, Nat.succ_ne_zero m, if_false, and_self]
  unfold trgSnapshotChunksAfterDelete
  rw [href, if_pos hpos, hsub, hold.1, hold.2]
  simp only [hzero, unlinkedRow, hne, if_false]
  split_ifs <;> rfl

/-- What becomes of a catalog when a snapshot is unlinked and deleted. -/
structure Unlinks (now : Time) (id : String) (c c' : Catalog) : Prop where
  coherent : RefCountInv c'
  snapshots : c'.snapshots.rows = c.snapshots.rows.filter fun s => s.id ≠ id
  links : c'.snapshotChunks.rows = c.snapshotChunks.rows.filter fun l => l.snapshotId ≠ id
  rows : c'.chunkPool.rows = c.chunkPool.rows.map fun r =>
    unlinkedRow now (c.linkCount r.hashSha256) (c'.linkCount r.hashSha256) r

/-- The rows, while links of `c` are being deleted. -/
structure Unlinking (now : Time) (c d : Catalog) : Prop where
  coherent : RefCountInv d
  fewer : ∀ h, d.linkCount h ≤ c.linkCount h
  rows : d.chunkPool.rows = c.chunkPool.rows.map fun r =>
    unlinkedRow now (c.linkCount r.hashSha256) (d.linkCount r.hashSha256) r

theorem Unlinking.refl {now : Time} {c : Catalog} (hc : RefCountInv c) : Unlinking now c c := by
  refine ⟨hc, fun _ => le_rfl, ?_⟩
  simp [unlinkedRow]

/-- One link less. -/
theorem Unlinking.step {now : Time} {c d : Catalog} {l : SnapshotChunk}
    (hl : l ∈ d.snapshotChunks.rows) (h : Unlinking now c d) :
    Unlinking now c (deleteSnapshotChunk now d l) := by
  have hcount := linkCount_deleteSnapshotChunk now hl
  refine ⟨h.coherent.deleteSnapshotChunk now hl, fun k => ?_, ?_⟩
  · have := h.fewer k
    have := hcount k
    omega
  · show (d.chunkPool.rows.map fun r => if decide (r.hashSha256 = l.chunkHash) then
      trgSnapshotChunksAfterDelete now r else r) = _
    rw [h.rows, List.map_map]
    refine List.map_congr_left fun r hr => ?_
    have hmem : unlinkedRow now (c.linkCount r.hashSha256) (d.linkCount r.hashSha256) r ∈
        d.chunkPool.rows := h.rows ▸ List.mem_map_of_mem hr
    have href := h.coherent.refCount_eq hmem
    have hch := hcount r.hashSha256
    have hle := h.fewer r.hashSha256
    rw [hash_unlinkedRow] at href
    simp only [Function.comp_apply, hash_unlinkedRow, decide_eq_true_eq]
    by_cases hk : r.hashSha256 = l.chunkHash
    · rw [if_pos hk.symm] at hch
      rw [if_pos hk, ← hch]
      rw [← hch] at href hle
      exact trg_unlinkedRow hle href
    · rw [if_neg (Ne.symm hk), Nat.add_zero] at hch
      rw [if_neg hk, hch]

/-- Deleting rows one by one is filtering them out. -/
theorem rows_foldl_deleteSnapshotChunk (now : Time) (ls : List SnapshotChunk) (c : Catalog) :
    (ls.foldl (deleteSnapshotChunk now) c).snapshotChunks.rows =
      c.snapshotChunks.rows.filter fun a => a.pk ∉ ls.map SnapshotChunk.pk := by
  induction ls generalizing c with
  | nil => simp
  | cons l ls ih =>
    rw [List.foldl_cons, ih]
    show (c.snapshotChunks.rows.filter _).filter _ = _
    rw [List.filter_filter]
    refine List.filter_congr fun a _ => ?_
    by_cases h : a.pk = l.pk <;> simp [h]

theorem rows_deleteSnapshotChunks (now : Time) (p : SnapshotChunk → Bool) (c : Catalog) :
    (deleteSnapshotChunks now p c).snapshotChunks.rows =
      c.snapshotChunks.rows.filter fun a => !p a := by
  rw [deleteSnapshotChunks, rows_foldl_deleteSnapshotChunk]
  refine List.filter_congr fun a ha => ?_
  have hmem := mem_deleteSnapshotChunks now p c a
  rw [deleteSnapshotChunks, mem_foldl_deleteSnapshotChunk] at hmem
  have hiff := (and_congr_right_iff.1 hmem) ha
  cases hp : p a <;> simpa [hp] using hiff

/-- **Unlinking goes through**, as a snapshot that is `PURGING` may be deleted. -/
theorem purgeSnapshot_unlinks {c : Catalog} (hc : RefCountInv c) {id : String} {s : Snapshot}
    (hs : c.snapshots.find? id = some s) (now : Time) :
    ∃ c', purgeSnapshot now id (setEstado id .purging c) = .ok c' ∧ Unlinks now id c c' := by
  let cm := setEstado id .purging c
  let d := deleteSnapshotChunks now (fun l => l.snapshotId = id) cm
  have hcm : RefCountInv cm := hc.frame rfl rfl
  have hd : Unlinking now cm d := foldl_deleteSnapshotChunk (fun _ _ hl h => h.step hl) _ cm
    (nodup_filter_pk cm _) (fun _ hl => (List.mem_filter.1 hl).1) (Unlinking.refl hcm)
  have hlinks : d.snapshotChunks.rows = c.snapshotChunks.rows.filter fun l => l.snapshotId ≠ id :=
    (rows_deleteSnapshotChunks now (fun l => l.snapshotId = id) cm).trans
      (List.filter_congr fun l _ => by simp)
  have hsnaps : d.snapshots = cm.snapshots :=
    foldl_deleteSnapshotChunk (I := fun e => e.snapshots = cm.snapshots) (fun _ _ _ h => h) _ cm
      (nodup_filter_pk cm _) (fun _ hl => (List.mem_filter.1 hl).1) rfl
  have hfind : d.snapshots.find? id = some { s with estado := .purging } := by
    rw [hsnaps, find?_setEstado, if_pos rfl, hs]
    rfl
  -- the cascade finds no link
  have hcascade : deleteSnapshotChunks now (fun l => l.snapshotId = id) d = d := by
    have hnone : d.snapshotChunks.rows.filter (fun l => decide (l.snapshotId = id)) = [] := by
      rw [hlinks, List.filter_filter, List.filter_eq_nil_iff]
      intro l _
      simp
    rw [deleteSnapshotChunks, hnone]
    rfl
  have htrg : trgSnapshotsPreventUnauthorizedDelete { s with estado := Estado.purging } = none := by
    simp [trgSnapshotsPreventUnauthorizedDelete]
  refine ⟨{ d with snapshots := d.snapshots.delete fun a => a.id = id }, ?_, ?_⟩
  · show deleteSnapshot now id d = _
    unfold deleteSnapshot
    rw [hfind]
    simp only [htrg, hcascade]
  · refine ⟨hd.coherent.frame rfl rfl, ?_, hlinks, hd.rows⟩
    show d.snapshots.rows.filter _ = _
    rw [hsnaps]
    show (c.snapshots.rows.map _).filter _ = _
    rw [List.filter_map]
    have hid : ((fun a : Snapshot => !decide (a.id = id)) ∘ fun s =>
        if decide (s.id = id) then { s with estado := Estado.purging } else s) =
        fun s => decide (s.id ≠ id) := by
      funext a
      by_cases h : a.id = id <;> simp [h]
    rw [hid]
    refine (List.map_congr_left (g := fun a => a) fun a ha => ?_).trans (List.map_id' _)
    have hne : ¬ a.id = id := by simpa using (List.mem_filter.1 ha).2
    simp [hne]

/-! ### The two phases -/

/-- A row that phase 1 selects. -/
def isOrphan (r : ChunkPool) : Bool := r.refCount = 0 ∧ r.state = .pendingDelete

theorem isOrphan_iff {r : ChunkPool} :
    isOrphan r = true ↔ r.refCount = 0 ∧ r.state = .pendingDelete := by
  simp [isOrphan]

/-- The hashes of a batch are those of its rows. -/
theorem fst_chunksToPurge (n : ℕ) (c : Catalog) : (chunksToPurge n c).map Prod.fst =
    ((c.chunkPool.rows.filter isOrphan).take n).map ChunkPool.hashSha256 := by
  simp only [chunksToPurge, List.map_map]
  rfl

theorem rows_foldl_markPurging (hs : List String) (c : Catalog) :
    (hs.foldl markPurging c).chunkPool.rows =
      c.chunkPool.rows.map fun r => if r.hashSha256 ∈ hs then marked r else r := by
  induction hs generalizing c with
  | nil => simp
  | cons h hs ih =>
    rw [List.foldl_cons, ih]
    show (c.chunkPool.rows.map _).map _ = _
    rw [List.map_map]
    refine List.map_congr_left fun r _ => ?_
    have hhash : (marked r).hashSha256 = r.hashSha256 := by
      unfold marked
      split_ifs <;> rfl
    have hone : (if decide (r.hashSha256 = h ∧ r.refCount = 0) then setState .purgingS3 r else r) =
        if r.hashSha256 = h then marked r else r := by
      by_cases hk : r.hashSha256 = h <;> by_cases h0 : r.refCount = 0 <;> simp [hk, h0, marked]
    rw [Function.comp_apply, hone]
    by_cases hk : r.hashSha256 = h
    · subst hk
      by_cases hm : r.hashSha256 ∈ hs <;> simp [hhash, marked_marked, hm]
    · by_cases hm : r.hashSha256 ∈ hs <;> simp [hk, hm]

theorem rows_purgePhase2 {hs : List String} {c c' : Catalog} (h : purgePhase2 hs c = .ok c') :
    c'.chunkPool.rows = c.chunkPool.rows.filter fun r => !(decide (r.hashSha256 ∈ hs) && !kept r) := by
  induction hs generalizing c with
  | nil =>
    obtain rfl : c = c' := by simpa [purgePhase2, pure, Except.pure] using h
    simp
  | cons k ks ih =>
    simp only [purgePhase2, List.foldlM_cons] at h
    cases h₁ : deletePurged c k with
    | error e => simp [h₁, bind, Except.bind] at h
    | ok c₁ =>
      simp only [h₁, bind, Except.bind] at h
      have hrows : c₁.chunkPool.rows = c.chunkPool.rows.filter fun r =>
          !decide (r.hashSha256 = k ∧ r.state = .purgingS3 ∧ r.refCount = 0) := by
        unfold deletePurged deleteChunkPool at h₁
        split at h₁
        · cases h₁
        · exact Except.ok.inj h₁ ▸ rfl
      rw [ih h, hrows, List.filter_filter]
      refine List.filter_congr fun r _ => ?_
      by_cases hk : r.hashSha256 = k
      · subst hk
        by_cases hm : r.hashSha256 ∈ ks <;> simp [hm, kept]
      · by_cases hm : r.hashSha256 ∈ ks <;> simp [hk, hm]

/-- **What a purge does when nothing fails.**  The first `n` of the rows that wait
go, in the order of the table. -/
theorem twoPhase_spec {c : Catalog} (hc : RefCountInv c) (n : ℕ) :
    ∃ c', purgePhase2 ((chunksToPurge n c).map Prod.fst) (purgePhase1 n c).2 = .ok c' ∧
      RefCountInv c' ∧ c'.snapshots = c.snapshots ∧ c'.snapshotChunks = c.snapshotChunks ∧
      c'.chunkPool.rows = c.chunkPool.rows.filter (fun r =>
        r.hashSha256 ∉ (chunksToPurge n c).map Prod.fst) ∧
      c'.chunkPool.rows.filter isOrphan = (c.chunkPool.rows.filter isOrphan).drop n := by
  obtain ⟨hbatch, -, hlinks₁, hsnaps₁⟩ := purgePhase1_spec n c
  have hc₁ := hc.purgePhase1 n
  obtain ⟨c', hc'⟩ := purgePhase2_isOk hc₁ ((chunksToPurge n c).map Prod.fst)
  obtain ⟨-, hlinks₂, hsnaps₂⟩ := purgePhase2_ok hc'
  have hrows : c'.chunkPool.rows = c.chunkPool.rows.filter (fun r =>
      r.hashSha256 ∉ (chunksToPurge n c).map Prod.fst) := by
    rw [rows_purgePhase2 hc']
    show (((chunksToPurge n c).map Prod.fst).foldl markPurging c).chunkPool.rows.filter _ = _
    rw [rows_foldl_markPurging, List.filter_map]
    have hkeep : ∀ r ∈ c.chunkPool.rows, ((fun r : ChunkPool =>
        !(decide (r.hashSha256 ∈ (chunksToPurge n c).map Prod.fst) && !kept r)) ∘ fun r =>
          if r.hashSha256 ∈ (chunksToPurge n c).map Prod.fst then marked r else r) r =
          decide (r.hashSha256 ∉ (chunksToPurge n c).map Prod.fst) := by
      intro r hr
      by_cases hmem : r.hashSha256 ∈ (chunksToPurge n c).map Prod.fst
      · obtain ⟨e, he, heq⟩ := List.mem_map.1 hmem
        obtain ⟨r₀, hr₀, -, href, -⟩ := hbatch e.1 e.2 he
        rw [heq, Table.find?_of_mem hr] at hr₀
        obtain rfl := Option.some.inj hr₀
        simp [hmem, marked, href, setState, kept]
      · simp [hmem]
    rw [List.filter_congr hkeep]
    refine (List.map_congr_left (g := fun a => a) fun r hr => ?_).trans (List.map_id' _)
    have hmem : r.hashSha256 ∉ (chunksToPurge n c).map Prod.fst := by
      simpa using (List.mem_filter.1 hr).2
    simp only [hmem, if_false]
  refine ⟨c', hc', hc₁.purgePhase2 hc', hsnaps₂.trans hsnaps₁, hlinks₂.trans hlinks₁, hrows, ?_⟩
  have hnd : ((c.chunkPool.rows.filter isOrphan).map ChunkPool.hashSha256).Nodup :=
    c.chunkPool.nodup.sublist (List.filter_sublist.map _)
  rw [hrows, fst_chunksToPurge, List.filter_comm]
  exact filter_notMem_take hnd n

/-! ### Rounds -/

/-- One round: `id` is unlinked, and `batch` is what phase 1 claims then. -/
def Round (w : Store) (id : String) (w' : Store) (batch : List (String × String)) : Prop :=
  ∃ now cat, purgeSnapshot now id (setEstado id .purging w.cat) = .ok cat ∧
    batch = chunksToPurge batchSize cat ∧
    purgePhase2 (batch.map Prod.fst) (purgePhase1 batchSize cat).2 = .ok w'.cat ∧
    w'.s3 = deleteObjects (batch.map Prod.snd) w.s3

/-- The rounds of a run for the snapshots `ids`, with the keys they delete. -/
inductive Rounds (w : Store) : List String → Store → List String → Prop
  | nil : Rounds w [] w []
  | snoc {ids : List String} {w₁ w₂ : Store} {keys : List String} {id : String}
    {batch : List (String × String)} : Rounds w ids w₁ keys → Round w₁ id w₂ batch →
      Rounds w (ids ++ [id]) w₂ (keys ++ batch.map Prod.snd)

/-- What a round does to the tables. -/
theorem Round.spec {w w' : Store} {id : String} {batch : List (String × String)} {s : Snapshot}
    (h : Round w id w' batch) (hc : RefCountInv w.cat) (hs : w.cat.snapshots.find? id = some s) :
    ∃ now cat, Unlinks now id w.cat cat ∧ batch = chunksToPurge batchSize cat ∧
      RefCountInv w'.cat ∧ w'.cat.snapshots = cat.snapshots ∧
      w'.cat.snapshotChunks = cat.snapshotChunks ∧
      w'.cat.chunkPool.rows = cat.chunkPool.rows.filter (fun r =>
        r.hashSha256 ∉ batch.map Prod.fst) ∧
      w'.cat.chunkPool.rows.filter isOrphan =
        (cat.chunkPool.rows.filter isOrphan).drop batchSize := by
  obtain ⟨now, cat, hcat, rfl, hphase2, -⟩ := h
  obtain ⟨cat', hcat', hunlinks⟩ := purgeSnapshot_unlinks hc hs now
  obtain rfl := Except.ok.inj (hcat.symm.trans hcat')
  obtain ⟨c', hc', hspec⟩ := twoPhase_spec hunlinks.coherent batchSize
  obtain rfl := Except.ok.inj (hphase2.symm.trans hc')
  exact ⟨now, cat, hunlinks, rfl, hspec⟩

/-- Unlinking leaves the hashes of the table alone. -/
theorem Unlinks.hashes {now : Time} {id : String} {c c' : Catalog} (h : Unlinks now id c c') :
    c'.chunkPool.rows.map ChunkPool.hashSha256 = c.chunkPool.rows.map ChunkPool.hashSha256 := by
  rw [h.rows, List.map_map]
  exact List.map_congr_left fun r _ => hash_unlinkedRow ..

/-- Links that are filtered out are not counted. -/
theorem linkCount_le_of_filter {c c' : Catalog} {p : SnapshotChunk → Bool}
    (h : c'.snapshotChunks.rows = c.snapshotChunks.rows.filter p) (k : String) :
    c'.linkCount k ≤ c.linkCount k := by
  rw [linkCount, linkCount, h]
  exact List.filter_sublist.countP_le

/-- Losing links twice is losing them. -/
theorem unlinkedRow_unlinkedRow (now now' : Time) {n m k : ℕ} (hm : m ≤ n) (hk : k ≤ m)
    (r : ChunkPool) : ∃ t, unlinkedRow now' m k (unlinkedRow now n m r) = unlinkedRow t n k r := by
  by_cases hkm : k = m
  · subst hkm
    exact ⟨now, if_pos rfl⟩
  · refine ⟨now', ?_⟩
    have hm0 : ¬ m = 0 := by omega
    have hkn : ¬ k = n := by omega
    unfold unlinkedRow
    rw [if_neg hkm, if_neg hkn]
    by_cases hmn : m = n
    · rw [if_pos hmn]
    · simp only [if_neg hmn, hm0, if_false]

/-- What has become of a store after the rounds for `ids`, in which the rows of
`purged` have been deleted. -/
structure After (w₀ : Store) (ids keys purged : List String) (w : Store) : Prop where
  coherent : RefCountInv w.cat
  snapshots : w.cat.snapshots.rows = w₀.cat.snapshots.rows.filter fun s => s.id ∉ ids
  links : w.cat.snapshotChunks.rows =
    w₀.cat.snapshotChunks.rows.filter fun l => l.snapshotId ∉ ids
  hashes : w.cat.chunkPool.rows.map ChunkPool.hashSha256 =
    (w₀.cat.chunkPool.rows.map ChunkPool.hashSha256).filter fun h => h ∉ purged
  row : ∀ r ∈ w.cat.chunkPool.rows, ∃ r₀ ∈ w₀.cat.chunkPool.rows, ∃ now,
    r = unlinkedRow now (w₀.cat.linkCount r.hashSha256) (w.cat.linkCount r.hashSha256) r₀
  waited : ∀ r₀ ∈ w₀.cat.chunkPool.rows, r₀.hashSha256 ∈ purged →
    w.cat.linkCount r₀.hashSha256 = 0 ∧
      (0 < w₀.cat.linkCount r₀.hashSha256 ∨ isOrphan r₀ = true)
  passed : ∀ key, key ∈ keys ↔
    ∃ r₀ ∈ w₀.cat.chunkPool.rows, r₀.hashSha256 ∈ purged ∧ r₀.storageKey = key
  s3 : w.s3 = deleteObjects keys w₀.s3

theorem After.refl {w : Store} (hc : RefCountInv w.cat) : After w [] [] [] w where
  coherent := hc
  snapshots := by simp
  links := by simp
  hashes := by simp
  row r hr := ⟨r, hr, 0, by simp [unlinkedRow]⟩
  waited _ _ h := by simp at h
  passed := by simp
  s3 := rfl

namespace After

variable {w₀ w : Store} {ids keys purged : List String}

theorem linkCount_le (h : After w₀ ids keys purged w) (k : String) :
    w.cat.linkCount k ≤ w₀.cat.linkCount k := linkCount_le_of_filter h.links k

/-- The row that a row comes from. -/
theorem row_of_mem (h : After w₀ ids keys purged w) {r₀ r : ChunkPool}
    (hr₀ : r₀ ∈ w₀.cat.chunkPool.rows) (hr : r ∈ w.cat.chunkPool.rows)
    (hhash : r.hashSha256 = r₀.hashSha256) : ∃ now,
      r = unlinkedRow now (w₀.cat.linkCount r₀.hashSha256) (w.cat.linkCount r₀.hashSha256) r₀ := by
  obtain ⟨r₁, hr₁, now, heq⟩ := h.row r hr
  have hsame : r₁.hashSha256 = r₀.hashSha256 := by
    rw [← hhash, heq, hash_unlinkedRow]
  obtain rfl : r₁ = r₀ := List.inj_on_of_nodup_map w₀.cat.chunkPool.nodup hr₁ hr₀ hsame
  rw [hhash] at heq
  exact ⟨now, heq⟩

/-- A row is there as long as it has not been deleted. -/
theorem find?_isSome (h : After w₀ ids keys purged w) {r₀ : ChunkPool}
    (hr₀ : r₀ ∈ w₀.cat.chunkPool.rows) :
    (w.cat.chunkPool.find? r₀.hashSha256).isSome = true ↔ r₀.hashSha256 ∉ purged := by
  have hmem : r₀.hashSha256 ∈ w.cat.chunkPool.rows.map ChunkPool.hashSha256 ↔
      r₀.hashSha256 ∉ purged := by
    rw [h.hashes]
    simpa using fun _ => ⟨r₀, hr₀, rfl⟩
  rw [← hmem, List.mem_map]
  constructor
  · intro hsome
    obtain ⟨r, hr⟩ := Option.isSome_iff_exists.1 hsome
    exact ⟨r, Table.mem_of_find? hr, Table.key_of_find? hr⟩
  · rintro ⟨r, hr, hhash⟩
    rw [← hhash, Table.find?_of_mem hr]
    rfl

/-- **A chunk that is still linked** has lost nothing but links. -/
theorem find?_linked (h : After w₀ ids keys purged w) (hc : RefCountInv w₀.cat) {r₀ : ChunkPool}
    (hr₀ : r₀ ∈ w₀.cat.chunkPool.rows) (hpos : 0 < w.cat.linkCount r₀.hashSha256) :
    w.cat.chunkPool.find? r₀.hashSha256 =
      some { r₀ with refCount := w.cat.linkCount r₀.hashSha256 } := by
  have hkept : r₀.hashSha256 ∉ purged := by
    intro hmem
    have := (h.waited r₀ hr₀ hmem).1
    omega
  obtain ⟨r, hr⟩ := Option.isSome_iff_exists.1 ((h.find?_isSome hr₀).2 hkept)
  obtain ⟨now, heq⟩ := h.row_of_mem hr₀ (Table.mem_of_find? hr) (Table.key_of_find? hr)
  rw [hr, heq]
  unfold unlinkedRow
  split_ifs with hsame h0
  · rw [hsame, ← hc.refCount_eq hr₀]
  · omega
  · rfl

/-- The rows of a batch, where they come from. -/
theorem mem_batch (h : After w₀ ids keys purged w) {now : Time} {id : String} {c : Catalog}
    (hun : Unlinks now id w.cat c) {e : String × String} (he : e ∈ chunksToPurge batchSize c) :
    ∃ r₀ ∈ w₀.cat.chunkPool.rows, r₀.hashSha256 = e.1 ∧ r₀.storageKey = e.2 ∧
      c.linkCount e.1 = 0 ∧ (0 < w₀.cat.linkCount e.1 ∨ isOrphan r₀ = true) := by
  obtain ⟨r, hr, hkey, href, hst⟩ := (purgePhase1_spec batchSize c).1 e.1 e.2 he
  have hmem := Table.mem_of_find? hr
  have hhash := Table.key_of_find? hr
  obtain ⟨r₁, hr₁, heq₁⟩ := List.mem_map.1 (hun.rows ▸ hmem)
  obtain ⟨r₀, hr₀, t, heq₀⟩ := h.row r₁ hr₁
  have hzero : c.linkCount e.1 = 0 := by
    have := hun.coherent.refCount_eq hmem
    rw [hhash, href] at this
    omega
  have h₁ : r₁.hashSha256 = e.1 := by rw [← hhash, ← heq₁, hash_unlinkedRow]
  have h₀ : r₀.hashSha256 = e.1 := by rw [← h₁, heq₀, hash_unlinkedRow]
  have hpay : r₀.payload = r.payload := by
    rw [← heq₁, payload_unlinkedRow, heq₀, payload_unlinkedRow]
  refine ⟨r₀, hr₀, h₀, (congrArg (fun p => p.2.1) hpay).trans hkey, hzero, ?_⟩
  -- a chunk that had no link from the start has waited from the start
  refine or_iff_not_imp_left.2 fun hpos => ?_
  have hn : w₀.cat.linkCount e.1 = 0 := by omega
  have hn₁ : w.cat.linkCount e.1 = 0 := by
    have := h.linkCount_le e.1
    omega
  rw [h₁, hzero, hn₁] at heq₁
  rw [h₁, hn, hn₁] at heq₀
  have hsame : r₀ = r := by
    rw [unlinkedRow, if_pos rfl] at heq₁ heq₀
    exact heq₀.symm.trans heq₁
  exact isOrphan_iff.2 (hsame ▸ ⟨href, hst⟩)

/-- **One round more.** -/
theorem snoc (h : After w₀ ids keys purged w) {w' : Store} {id : String}
    {batch : List (String × String)} {s : Snapshot} (hround : Round w id w' batch)
    (hs : w.cat.snapshots.find? id = some s) :
    After w₀ (ids ++ [id]) (keys ++ batch.map Prod.snd) (purged ++ batch.map Prod.fst) w' := by
  obtain ⟨now, cat, hun, hbatch, hc', hsnaps', hlinks', hrows', -⟩ := hround.spec h.coherent hs
  obtain ⟨-, -, -, -, -, hs3⟩ := hround
  have hcount : ∀ k, w'.cat.linkCount k = cat.linkCount k := fun k => by
    rw [linkCount, linkCount, hlinks']
  have hle : ∀ k, cat.linkCount k ≤ w.cat.linkCount k := linkCount_le_of_filter hun.links
  have horigin := fun e he => h.mem_batch hun (e := e) (hbatch ▸ he)
  refine ⟨hc', ?_, ?_, ?_, fun r hr => ?_, fun r₀ hr₀ hmem => ?_, fun key => ?_, ?_⟩
  · rw [hsnaps', hun.snapshots, h.snapshots, List.filter_filter]
    refine List.filter_congr fun a _ => ?_
    by_cases ha : a.id = id <;> simp [ha]
  · rw [hlinks', hun.links, h.links, List.filter_filter]
    refine List.filter_congr fun a _ => ?_
    by_cases ha : a.snapshotId = id <;> simp [ha]
  · have hfilter : (cat.chunkPool.rows.filter fun r =>
        r.hashSha256 ∉ batch.map Prod.fst).map ChunkPool.hashSha256 =
        (cat.chunkPool.rows.map ChunkPool.hashSha256).filter fun k => k ∉ batch.map Prod.fst := by
      rw [List.filter_map]
      rfl
    rw [hrows', hfilter, hun.hashes, h.hashes, List.filter_filter]
    refine List.filter_congr fun k _ => ?_
    by_cases hk : k ∈ purged <;> simp [hk]
  · rw [hrows'] at hr
    obtain ⟨r₁, hr₁, rfl⟩ := List.mem_map.1 (hun.rows ▸ (List.mem_filter.1 hr).1)
    obtain ⟨r₀, hr₀, t, heq₀⟩ := h.row r₁ hr₁
    have h₀ : r₀.hashSha256 = r₁.hashSha256 := by rw [heq₀, hash_unlinkedRow]
    obtain ⟨t', ht'⟩ := unlinkedRow_unlinkedRow t now
      (h.linkCount_le r₁.hashSha256) (hle r₁.hashSha256) r₀
    refine ⟨r₀, hr₀, t', ?_⟩
    rw [hash_unlinkedRow, hcount, ← ht', ← heq₀]
  · rw [hcount]
    rcases List.mem_append.1 hmem with hold | hnew
    · obtain ⟨hzero, hor⟩ := h.waited r₀ hr₀ hold
      have := hle r₀.hashSha256
      exact ⟨by omega, hor⟩
    · obtain ⟨e, he, heq⟩ := List.mem_map.1 hnew
      obtain ⟨r₁, hr₁, hhash, -, hzero, hor⟩ := horigin e he
      obtain rfl : r₁ = r₀ :=
        List.inj_on_of_nodup_map w₀.cat.chunkPool.nodup hr₁ hr₀ (hhash.trans heq)
      rw [heq] at hzero hor
      exact ⟨hzero, hor⟩
  · rw [List.mem_append, h.passed, List.mem_map]
    constructor
    · rintro (⟨r₀, hr₀, hmem, hkey⟩ | ⟨e, he, hkey⟩)
      · exact ⟨r₀, hr₀, List.mem_append_left _ hmem, hkey⟩
      · obtain ⟨r₀, hr₀, hhash, hkey', -⟩ := horigin e he
        exact ⟨r₀, hr₀, List.mem_append_right _ (hhash ▸ List.mem_map_of_mem he), hkey'.trans hkey⟩
    · rintro ⟨r₀, hr₀, hmem, hkey⟩
      rcases List.mem_append.1 hmem with hold | hnew
      · exact Or.inl ⟨r₀, hr₀, hold, hkey⟩
      · obtain ⟨e, he, heq⟩ := List.mem_map.1 hnew
        obtain ⟨r₁, hr₁, hhash, hkey', -⟩ := horigin e he
        obtain rfl : r₁ = r₀ :=
          List.inj_on_of_nodup_map w₀.cat.chunkPool.nodup hr₁ hr₀ (hhash.trans heq)
        exact Or.inr ⟨e, he, hkey'.symm.trans hkey⟩
  · rw [hs3, h.s3]
    funext key
    by_cases hk : key ∈ keys <;> by_cases hb : key ∈ batch.map Prod.snd <;>
      simp [deleteObjects, hk, hb]

end After

/-! ### All rounds -/

/-- A snapshot that has not had its round is as it was. -/
theorem After.find?_snapshot {w₀ w : Store} {ids keys purged : List String}
    (h : After w₀ ids keys purged w) {id : String} (hid : id ∉ ids) :
    w.cat.snapshots.find? id = w₀.cat.snapshots.find? id := by
  unfold Table.find?
  rw [h.snapshots, List.find?_filter]
  congr 1
  funext s
  by_cases hs : s.id = id
  · subst hs
    simp [hid]
  · simp [hs]

/-- A snapshot that has had its round is gone. -/
theorem After.find?_snapshot_of_mem {w₀ w : Store} {ids keys purged : List String}
    (h : After w₀ ids keys purged w) {id : String} (hid : id ∈ ids) :
    w.cat.snapshots.find? id = none := by
  rw [Table.find?_eq_none, h.snapshots]
  rintro s hs rfl
  have := (List.mem_filter.1 hs).2
  simp [hid] at this

/-- **The rule for the rounds of a run.**  What a round keeps, knowing what the
rounds before it have done, all rounds keep. -/
theorem rounds_rule {w₀ w : Store} {ids keys : List String}
    {J : List String → List String → Store → Prop} (hc : RefCountInv w₀.cat)
    (h : Rounds w₀ ids w keys) (hnd : ids.Nodup)
    (hids : ∀ id ∈ ids, (w₀.cat.snapshots.find? id).isSome = true) (hnil : J [] [] w₀)
    (hsnoc : ∀ ids keys purged w id w' batch s, After w₀ ids keys purged w →
      w.cat.snapshots.find? id = some s → Round w id w' batch → J ids purged w →
        J (ids ++ [id]) (purged ++ batch.map Prod.fst) w') :
    ∃ purged, After w₀ ids keys purged w ∧ J ids purged w := by
  induction h with
  | nil => exact ⟨[], .refl hc, hnil⟩
  | snoc hrounds hround ih =>
    obtain ⟨hnd', -, hdisj⟩ := List.nodup_append.1 hnd
    obtain ⟨purged, hafter, hJ⟩ := ih hnd' fun i hi => hids i (List.mem_append_left _ hi)
    obtain ⟨s, hs⟩ := Option.isSome_iff_exists.1
      (hids _ (List.mem_append_right _ (List.mem_singleton_self _)))
    rw [← hafter.find?_snapshot fun hmem => hdisj _ hmem _ (List.mem_singleton_self _) rfl] at hs
    exact ⟨_, hafter.snoc hround hs, hsnoc _ _ _ _ _ _ _ s hafter hs hround hJ⟩

/-- **What the rounds of a run do.** -/
theorem rounds_after {w₀ w : Store} {ids keys : List String} (hc : RefCountInv w₀.cat)
    (h : Rounds w₀ ids w keys) (hnd : ids.Nodup)
    (hids : ∀ id ∈ ids, (w₀.cat.snapshots.find? id).isSome = true) :
    ∃ purged, After w₀ ids keys purged w := by
  obtain ⟨purged, hafter, -⟩ := rounds_rule (J := fun _ _ _ => True) hc h hnd hids trivial
    fun _ _ _ _ _ _ _ _ _ _ _ _ => trivial
  exact ⟨purged, hafter⟩

/-- The expired snapshots are different rows of the catalog. -/
theorem nodup_expiredIds (c : Catalog) : (expiredIds c).Nodup :=
  c.snapshots.nodup.sublist (List.filter_sublist.map _)

theorem isSome_of_mem_expiredIds {c : Catalog} {id : String} (h : id ∈ expiredIds c) :
    (c.snapshots.find? id).isSome = true := by
  obtain ⟨s, hs, rfl⟩ := List.mem_map.1 h
  rw [Table.find?_of_mem (List.mem_filter.1 hs).1]
  rfl

/-- The rounds that a run has made so far. -/
theorem after_of_expired {w₀ w : Store} {done rest keys : List String} (hc : RefCountInv w₀.cat)
    (h : Rounds w₀ done w keys) (hsplit : expiredIds w₀.cat = done ++ rest) :
    ∃ purged, After w₀ done keys purged w := by
  have hnd := nodup_expiredIds w₀.cat
  rw [hsplit] at hnd
  exact rounds_after hc h (List.nodup_append.1 hnd).1 fun id hid =>
    isSome_of_mem_expiredIds (hsplit ▸ List.mem_append_left _ hid)

end Retention
end Boveda

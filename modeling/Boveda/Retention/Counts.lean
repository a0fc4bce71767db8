/-
# How many rows wait

A round brings the chunks whose last link it removes (`freedBy`) to the rows that
wait, and serves the first `batch_size` of them.  So the rows that wait after all
rounds are a backlog (`rounds_count`), of the whole table or of any initial part of
it, as what has been inserted first is served first (`purged_before`).
-/

import Boveda.Retention.Stages
import Mathlib.Data.List.Dedup

namespace Boveda
namespace Retention

open Lib Catalog

/-- The chunks that lose their last link with the snapshot `id`. -/
def freedBy (links : List SnapshotChunk) (id : String) : List String :=
  ((links.filter fun l => l.snapshotId = id).map SnapshotChunk.chunkHash).dedup.filter fun h =>
    links.all fun l => decide (l.chunkHash = h → l.snapshotId = id)

/-- How many chunks of `S` lose their last link with each of the snapshots `ids`,
unlinked in this order. -/
def freedCounts (S : String → Bool) : List SnapshotChunk → List String → List ℕ
  | _, [] => []
  | links, id :: ids =>
    (freedBy links id).countP S :: freedCounts S (links.filter fun l => l.snapshotId ≠ id) ids

/-- The rows of `S` that phase 1 would select. -/
def waiting (S : String → Bool) (c : Catalog) : ℕ :=
  c.chunkPool.rows.countP fun r => S r.hashSha256 && isOrphan r

/-- `S` is an initial part of the table. -/
def Initial (S : String → Bool) (c : Catalog) : Prop :=
  (c.chunkPool.rows.map ChunkPool.hashSha256).Pairwise fun h k => S k = true → S h = true

theorem mem_freedBy {links : List SnapshotChunk} {id h : String} : h ∈ freedBy links id ↔
    (∃ l ∈ links, l.snapshotId = id ∧ l.chunkHash = h) ∧
      ∀ l ∈ links, l.chunkHash = h → l.snapshotId = id := by
  simp [freedBy, and_assoc, imp_iff_not_or]

theorem nodup_freedBy (links : List SnapshotChunk) (id : String) : (freedBy links id).Nodup :=
  (List.nodup_dedup _).filter _

theorem freedCounts_append (S : String → Bool) (links : List SnapshotChunk) (ids : List String)
    (id : String) : freedCounts S links (ids ++ [id]) = freedCounts S links ids ++
      [(freedBy (links.filter fun l => l.snapshotId ∉ ids) id).countP S] := by
  induction ids generalizing links with
  | nil => simp [freedCounts]
  | cons i ids ih =>
    rw [List.cons_append, freedCounts, ih, List.filter_filter, freedCounts]
    have hfilter : (links.filter fun l => decide (l.snapshotId ∉ ids) && decide (l.snapshotId ≠ i)) =
        links.filter fun l => l.snapshotId ∉ i :: ids := by
      refine List.filter_congr fun l _ => ?_
      by_cases h : l.snapshotId = i <;> simp [h]
    rw [hfilter]
    rfl

/-! ### One round -/

/-- The chunks that a round frees are those that lose all their links in it. -/
theorem mem_freedBy_iff {c c' : Catalog} {now : Time} {id : String} (h : Unlinks now id c c')
    (k : String) : k ∈ freedBy c.snapshotChunks.rows id ↔
      0 < c.linkCount k ∧ c'.linkCount k = 0 := by
  rw [mem_freedBy, linkCount_pos, linkCount_eq_zero, h.links]
  constructor
  · rintro ⟨⟨l, hl, -, hhash⟩, hall⟩
    refine ⟨⟨l, hl, hhash⟩, fun a ha hhash => ?_⟩
    obtain ⟨hmem, hne⟩ := List.mem_filter.1 ha
    simp [hall a hmem hhash] at hne
  · rintro ⟨⟨l, hl, hhash⟩, hnone⟩
    have hall : ∀ a ∈ c.snapshotChunks.rows, a.chunkHash = k → a.snapshotId = id := by
      intro a ha hk
      by_contra hne
      exact hnone a (List.mem_filter.2 ⟨ha, by simpa using hne⟩) hk
    exact ⟨⟨l, hl, hall l hl hhash, hhash⟩, hall⟩

/-- The freed chunks of a table, counted as rows. -/
theorem countP_freedBy {c : Catalog} (hc : RefCountInv c) (S : String → Bool) (id : String) :
    (c.chunkPool.rows.countP fun r =>
      S r.hashSha256 && decide (r.hashSha256 ∈ freedBy c.snapshotChunks.rows id)) =
      (freedBy c.snapshotChunks.rows id).countP S := by
  have hperm : ((c.chunkPool.rows.filter fun r =>
      r.hashSha256 ∈ freedBy c.snapshotChunks.rows id).map ChunkPool.hashSha256).Perm
      (freedBy c.snapshotChunks.rows id) := by
    refine (List.perm_ext_iff_of_nodup (c.chunkPool.nodup.sublist (List.filter_sublist.map _))
      (nodup_freedBy _ _)).2 fun h => ?_
    rw [List.mem_map]
    constructor
    · rintro ⟨r, hr, rfl⟩
      simpa using (List.mem_filter.1 hr).2
    · intro hmem
      obtain ⟨l, hl, -, hhash⟩ := (mem_freedBy.1 hmem).1
      obtain ⟨r, hr, hrh⟩ := hc.hash_exists hl
      have hrow : r.hashSha256 = h := hrh.trans hhash
      exact ⟨r, List.mem_filter.2 ⟨hr, by simpa [hrow] using hmem⟩, hrow⟩
  rw [← hperm.countP_eq, List.countP_map, List.countP_filter]
  rfl

/-- **Unlinking brings the freed chunks.** -/
theorem waiting_unlinks {c c' : Catalog} {now : Time} {id : String} (hc : RefCountInv c)
    (h : Unlinks now id c c') (S : String → Bool) :
    waiting S c' = waiting S c + (freedBy c.snapshotChunks.rows id).countP S := by
  rw [waiting, h.rows, List.countP_map, ← countP_freedBy hc S id]
  refine countP_split fun r hr => ?_
  have href := hc.refCount_eq hr
  have hle : c'.linkCount r.hashSha256 ≤ c.linkCount r.hashSha256 :=
    linkCount_le_of_filter h.links _
  have hmem := mem_freedBy_iff h r.hashSha256
  simp only [Function.comp_apply, hash_unlinkedRow, hmem]
  by_cases hsame : c'.linkCount r.hashSha256 = c.linkCount r.hashSha256
  · -- no link of the chunk goes
    have hnot : ¬ (0 < c.linkCount r.hashSha256 ∧ c'.linkCount r.hashSha256 = 0) := by omega
    simp [unlinkedRow, hsame]
    omega
  · have hold : isOrphan r = false := by
      rw [Bool.eq_false_iff, Ne, isOrphan_iff]
      omega
    by_cases hzero : c'.linkCount r.hashSha256 = 0
    · have hpos : 0 < c.linkCount r.hashSha256 := by omega
      have hnew : isOrphan (unlinkedRow now (c.linkCount r.hashSha256)
          (c'.linkCount r.hashSha256) r) = true := by
        rw [isOrphan_iff, unlinkedRow, if_neg hsame]
        simp [hzero]
      rw [hnew, hold]
      simp [hzero, hpos]
    · have hnew : isOrphan (unlinkedRow now (c.linkCount r.hashSha256)
          (c'.linkCount r.hashSha256) r) = false := by
        rw [Bool.eq_false_iff, Ne, isOrphan_iff, unlinkedRow, if_neg hsame]
        simp [hzero]
      rw [hnew, hold]
      simp [hzero]

/-- An initial part of a table stays one, as rows are only changed or deleted. -/
theorem Initial.pairwise {S : String → Bool} {c : Catalog} (hS : Initial S c)
    {rows : List ChunkPool} (hrows : (rows.map ChunkPool.hashSha256).Sublist
      (c.chunkPool.rows.map ChunkPool.hashSha256)) :
    rows.Pairwise fun r r' => S r'.hashSha256 = true → S r.hashSha256 = true :=
  List.pairwise_map.1 (hS.sublist hrows)

/-- The rows that wait, counted among those that phase 1 would select. -/
theorem waiting_eq_countP (S : String → Bool) (c : Catalog) : waiting S c =
    (c.chunkPool.rows.filter isOrphan).countP fun r => S r.hashSha256 := by
  rw [waiting, List.countP_filter]

/-! ### All rounds -/

/-- What the rounds for `ids` have done to the rows that wait. -/
structure Served (w₀ : Store) (ids purged : List String) (w : Store) : Prop where
  waiting : ∀ S, Initial S w₀.cat → waiting S w.cat =
    backlog batchSize (waiting S w₀.cat) (freedCounts S w₀.cat.snapshotChunks.rows ids)
  before : ∀ y ∈ w₀.cat.chunkPool.rows, ∀ x ∈ w₀.cat.chunkPool.rows, isOrphan y = true →
    [y.hashSha256, x.hashSha256].Sublist (w₀.cat.chunkPool.rows.map ChunkPool.hashSha256) →
      x.hashSha256 ∈ purged → y.hashSha256 ∈ purged

/-- A row that waits from the beginning keeps waiting until it is deleted. -/
theorem After.isOrphan {w₀ w : Store} {ids keys purged : List String}
    (h : After w₀ ids keys purged w) (hc : RefCountInv w₀.cat) {y r : ChunkPool}
    (hy : y ∈ w₀.cat.chunkPool.rows) (hw : isOrphan y = true) (hr : r ∈ w.cat.chunkPool.rows)
    (hhash : r.hashSha256 = y.hashSha256) : r = y := by
  have href := hc.refCount_eq hy
  rw [isOrphan_iff] at hw
  have hle := h.linkCount_le y.hashSha256
  have h₀ : w₀.cat.linkCount y.hashSha256 = 0 := by omega
  obtain ⟨now, heq⟩ := h.row_of_mem hy hr hhash
  rw [heq, unlinkedRow, if_pos (by omega)]

/-- **One round more:** the rows that wait are a backlog, and each round serves it. -/
theorem Served.waiting_snoc {w₀ w w' : Store} {ids keys purged : List String} {id : String}
    {batch : List (String × String)} {s : Snapshot} (hafter : After w₀ ids keys purged w)
    (hs : w.cat.snapshots.find? id = some s) (hround : Round w id w' batch)
    (h : Served w₀ ids purged w) {S : String → Bool} (hS : Initial S w₀.cat) :
    Retention.waiting S w'.cat = backlog batchSize (Retention.waiting S w₀.cat)
      (freedCounts S w₀.cat.snapshotChunks.rows (ids ++ [id])) := by
  obtain ⟨now, cat, hun, -, -, -, -, -, hdrop⟩ := hround.spec hafter.coherent hs
  have hsub : ((cat.chunkPool.rows.filter isOrphan).map ChunkPool.hashSha256).Sublist
      (w₀.cat.chunkPool.rows.map ChunkPool.hashSha256) := by
    refine (List.filter_sublist.map _).trans ?_
    rw [hun.hashes, hafter.hashes]
    exact List.filter_sublist
  rw [waiting_eq_countP, hdrop, countP_drop_of_initial (hS.pairwise hsub), ← waiting_eq_countP,
    waiting_unlinks hafter.coherent hun, h.waiting S hS, hafter.links, freedCounts_append,
    backlog_append]

/-- A row that waits from the beginning still waits when the next snapshot has been
unlinked. -/
theorem After.isOrphan_unlinks {w₀ w : Store} {ids keys purged : List String}
    (h : After w₀ ids keys purged w) (hc : RefCountInv w₀.cat) {now : Time} {id : String}
    {c : Catalog} (hun : Unlinks now id w.cat c) {y r : ChunkPool}
    (hy : y ∈ w₀.cat.chunkPool.rows) (hw : Retention.isOrphan y = true)
    (hr : r ∈ c.chunkPool.rows) (hhash : r.hashSha256 = y.hashSha256) :
    Retention.isOrphan r = true := by
  obtain ⟨r₁, hr₁, heq⟩ := List.mem_map.1 (hun.rows ▸ hr)
  have hr₁y : r₁.hashSha256 = y.hashSha256 := by rw [← hhash, ← heq, hash_unlinkedRow]
  obtain rfl := h.isOrphan hc hy hw hr₁ hr₁y
  have href := h.coherent.refCount_eq hr₁
  have hzero := (isOrphan_iff.1 hw).1
  have hle : c.linkCount r₁.hashSha256 ≤ w.cat.linkCount r₁.hashSha256 :=
    linkCount_le_of_filter hun.links _
  rw [unlinkedRow, if_pos (by omega)] at heq
  exact heq ▸ hw

/-- Two rows that are there and wait are selected in their order. -/
theorem sublist_orphans {c : Catalog} {y : String} {rx : ChunkPool}
    (hrx : rx ∈ c.chunkPool.rows) (hrxw : isOrphan rx = true)
    (hy : ∀ r ∈ c.chunkPool.rows, r.hashSha256 = y → isOrphan r = true)
    (hsub : [y, rx.hashSha256].Sublist (c.chunkPool.rows.map ChunkPool.hashSha256)) :
    [y, rx.hashSha256].Sublist
      ((c.chunkPool.rows.filter isOrphan).map ChunkPool.hashSha256) := by
  obtain ⟨l, hl, hmap⟩ := List.sublist_map_iff.1 hsub
  obtain ⟨ry, rx', rfl⟩ : ∃ ry rx', l = [ry, rx'] := List.length_eq_two.1 (by
    have := congrArg List.length hmap
    simpa using this.symm)
  obtain ⟨hry, hrx'⟩ : y = ry.hashSha256 ∧ rx.hashSha256 = rx'.hashSha256 := by
    simpa using hmap
  obtain rfl : rx' = rx :=
    List.inj_on_of_nodup_map c.chunkPool.nodup (hl.subset (by simp)) hrx hrx'.symm
  have hryw := hy ry (hl.subset (by simp)) hry.symm
  have hfilter := (hl.filter isOrphan).map ChunkPool.hashSha256
  rw [List.filter_cons_of_pos hryw, List.filter_cons_of_pos hrxw, List.filter_nil] at hfilter
  rwa [hmap]

/-- **One round more:** the rows that wait are served in the order of the table. -/
theorem Served.before_snoc {w₀ w w' : Store} {ids keys purged : List String} {id : String}
    {batch : List (String × String)} {s : Snapshot} (hc : RefCountInv w₀.cat)
    (hafter : After w₀ ids keys purged w) (hs : w.cat.snapshots.find? id = some s)
    (hround : Round w id w' batch) (h : Served w₀ ids purged w) {y x : ChunkPool}
    (hy : y ∈ w₀.cat.chunkPool.rows) (hx : x ∈ w₀.cat.chunkPool.rows)
    (hwait : isOrphan y = true) (hyx : [y.hashSha256, x.hashSha256].Sublist
      (w₀.cat.chunkPool.rows.map ChunkPool.hashSha256))
    (hmem : x.hashSha256 ∈ purged ++ batch.map Prod.fst) :
    y.hashSha256 ∈ purged ++ batch.map Prod.fst := by
  obtain ⟨now, cat, hun, hbatch, -⟩ := hround.spec hafter.coherent hs
  rcases List.mem_append.1 hmem with hold | hnew
  · exact List.mem_append_left _ (h.before y hy x hx hwait hyx hold)
  · by_cases hpy : y.hashSha256 ∈ purged
    · exact List.mem_append_left _ hpy
    refine List.mem_append_right _ ?_
    rw [hbatch, fst_chunksToPurge, List.map_take] at hnew ⊢
    have hnd : ((cat.chunkPool.rows.filter isOrphan).map ChunkPool.hashSha256).Nodup :=
      cat.chunkPool.nodup.sublist (List.filter_sublist.map _)
    refine mem_take_of_sublist hnd ?_ hnew
    obtain ⟨rx, hrx, hrxh⟩ := List.mem_map.1 (List.mem_of_mem_take hnew)
    obtain ⟨hrx, hrxw⟩ := List.mem_filter.1 hrx
    -- both rows are there, in their old order
    have hpx : x.hashSha256 ∉ purged := by
      have hin : x.hashSha256 ∈ cat.chunkPool.rows.map ChunkPool.hashSha256 :=
        hrxh ▸ List.mem_map_of_mem hrx
      rw [hun.hashes, hafter.hashes] at hin
      simpa using (List.mem_filter.1 hin).2
    have hcat : [y.hashSha256, x.hashSha256].Sublist
        (cat.chunkPool.rows.map ChunkPool.hashSha256) := by
      have hsub := hyx.filter fun k => k ∉ purged
      rw [hun.hashes, hafter.hashes]
      simpa [hpx, hpy] using hsub
    rw [← hrxh] at hcat ⊢
    exact sublist_orphans hrx hrxw
      (fun r hr hhash => hafter.isOrphan_unlinks hc hun hy hwait hr hhash) hcat

/-- **What waits after all rounds.** -/
theorem rounds_served {w₀ w : Store} {done rest keys : List String} (hc : RefCountInv w₀.cat)
    (h : Rounds w₀ done w keys) (hsplit : expiredIds w₀.cat = done ++ rest) :
    ∃ purged, After w₀ done keys purged w ∧ Served w₀ done purged w := by
  have hnd := nodup_expiredIds w₀.cat
  rw [hsplit] at hnd
  refine rounds_rule (J := Served w₀) hc h (List.nodup_append.1 hnd).1
    (fun id hid => isSome_of_mem_expiredIds (hsplit ▸ List.mem_append_left _ hid)) ?_ ?_
  · exact ⟨fun S _ => rfl, fun _ _ _ _ _ _ hmem => nomatch hmem⟩
  · exact fun _ _ _ _ _ _ _ s hafter hs hround hJ =>
      ⟨fun _ hS => hJ.waiting_snoc hafter hs hround hS,
        fun _ hy _ hx hwait hyx hmem => hJ.before_snoc hc hafter hs hround hy hx hwait hyx hmem⟩

end Retention
end Boveda

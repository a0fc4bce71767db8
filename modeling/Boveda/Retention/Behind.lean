/-
# Two purges, one behind the other

Two stores that differ in rows only that wait for deletion in one of them and are
gone in the other, with their objects (`Behind`), keep doing so when both purge the
same snapshots (`Behind.rounds`): what the one has ahead it has served before, and
what both still have is served in the same order.  They are the same, but for the
times at which a deletion has been scheduled, when as many rows wait in both
(`Behind.same_iff`).
-/

import Boveda.Retention.Counts
import Mathlib.Data.List.Induction

namespace Boveda
namespace Retention

open Lib Catalog

/-- A row, but for the time at which its deletion has been scheduled. -/
def unstamped (r : ChunkPool) : ChunkPool := { r with purgeScheduledAt := none }

@[simp] theorem isOrphan_unstamped (r : ChunkPool) : isOrphan (unstamped r) = isOrphan r := rfl

@[simp] theorem hash_unstamped (r : ChunkPool) : (unstamped r).hashSha256 = r.hashSha256 := rfl

/-- The same snapshots, links, `chunk_pool` rows and objects, but for the times at
which a deletion has been scheduled. -/
structure Same (w w' : Store) : Prop where
  snapshots : w.cat.snapshots.rows = w'.cat.snapshots.rows
  links : w.cat.snapshotChunks.rows = w'.cat.snapshotChunks.rows
  chunkPool : w.cat.chunkPool.rows.map unstamped = w'.cat.chunkPool.rows.map unstamped
  s3 : w.s3 = w'.s3

/-- The store `b` is as `a`, but for rows of `G` that wait in `b` and that are gone
in `a`. -/
structure Behind (G : String → Bool) (a b : Store) : Prop where
  left : RefCountInv a.cat
  right : RefCountInv b.cat
  snapshots : a.cat.snapshots.rows = b.cat.snapshots.rows
  links : a.cat.snapshotChunks.rows = b.cat.snapshotChunks.rows
  rows : a.cat.chunkPool.rows.map unstamped =
    (b.cat.chunkPool.rows.filter fun r => !G r.hashSha256).map unstamped
  waits : ∀ r ∈ b.cat.chunkPool.rows, G r.hashSha256 = true → isOrphan r = true
  s3 : a.s3 = deleteObjects
    ((b.cat.chunkPool.rows.filter fun r => G r.hashSha256).map ChunkPool.storageKey) b.s3

/-! ### Objects -/

theorem deleteObjects_nil (s3 : ObjectStore) : deleteObjects [] s3 = s3 := by
  funext key
  simp [deleteObjects]

theorem deleteObjects_append (keys keys' : List String) (s3 : ObjectStore) :
    deleteObjects keys (deleteObjects keys' s3) = deleteObjects (keys ++ keys') s3 := by
  funext key
  by_cases h : key ∈ keys <;> by_cases h' : key ∈ keys' <;> simp [deleteObjects, h, h']

theorem deleteObjects_congr {keys keys' : List String} (h : ∀ key, key ∈ keys ↔ key ∈ keys')
    (s3 : ObjectStore) : deleteObjects keys s3 = deleteObjects keys' s3 := by
  funext key
  simp only [deleteObjects, h key]

theorem Behind.refl {w : Store} (hc : RefCountInv w.cat) : Behind (fun _ => false) w w where
  left := hc
  right := hc
  snapshots := rfl
  links := rfl
  rows := by simp
  waits _ _ h := nomatch h
  s3 := by simp [deleteObjects_nil]

/-! ### Unlinking -/

/-- Losing links does not depend on the times. -/
theorem unstamped_unlinkedRow (now now' : Time) (n m : ℕ) (r : ChunkPool) :
    unstamped (unlinkedRow now n m r) = unstamped (unlinkedRow now' n m (unstamped r)) := by
  unfold unlinkedRow
  split_ifs <;> rfl

/-- A row that waits has no link to lose. -/
theorem Unlinks.isOrphan {now : Time} {id : String} {c c' : Catalog} (h : Unlinks now id c c')
    (hc : RefCountInv c) {r : ChunkPool} (hr : r ∈ c.chunkPool.rows) (hw : isOrphan r = true) :
    unlinkedRow now (c.linkCount r.hashSha256) (c'.linkCount r.hashSha256) r = r := by
  have href := hc.refCount_eq hr
  have hzero := (isOrphan_iff.1 hw).1
  have hle : c'.linkCount r.hashSha256 ≤ c.linkCount r.hashSha256 :=
    linkCount_le_of_filter h.links _
  rw [unlinkedRow, if_pos (by omega)]

/-- The rows of some chunks after they have lost links. -/
theorem Unlinks.filter {now : Time} {id : String} {c c' : Catalog} (h : Unlinks now id c c')
    (G : String → Bool) : c'.chunkPool.rows.filter (fun r => G r.hashSha256) =
      (c.chunkPool.rows.filter fun r => G r.hashSha256).map fun r =>
        unlinkedRow now (c.linkCount r.hashSha256) (c'.linkCount r.hashSha256) r := by
  rw [h.rows, List.filter_map]
  congr 1
  refine List.filter_congr fun r _ => ?_
  rw [Function.comp_apply, hash_unlinkedRow]

/-- **Both unlink a snapshot.** -/
theorem Behind.unlinks {G : String → Bool} {a b : Store} {now now' : Time} {id : String}
    {c d : Catalog} (h : Behind G a b) (hc : Unlinks now id a.cat c)
    (hd : Unlinks now' id b.cat d) : Behind G ⟨c, a.s3⟩ ⟨d, b.s3⟩ := by
  have hlinks : c.snapshotChunks.rows = d.snapshotChunks.rows := by
    rw [hc.links, hd.links, h.links]
  have hbefore : ∀ k, a.cat.linkCount k = b.cat.linkCount k := fun k => by
    rw [linkCount, linkCount, h.links]
  have hafter : ∀ k, c.linkCount k = d.linkCount k := fun k => by
    rw [linkCount, linkCount, hlinks]
  refine ⟨hc.coherent, hd.coherent, ?_, hlinks, ?_, fun r hr hG => ?_, ?_⟩
  · show c.snapshots.rows = d.snapshots.rows
    rw [hc.snapshots, hd.snapshots, h.snapshots]
  · -- both rows lose the same links
    let lose (r : ChunkPool) : ChunkPool := unstamped
      (unlinkedRow 0 (b.cat.linkCount r.hashSha256) (d.linkCount r.hashSha256) r)
    have hleft : c.chunkPool.rows.map unstamped =
        (a.cat.chunkPool.rows.map unstamped).map lose := by
      rw [hc.rows, List.map_map, List.map_map]
      refine List.map_congr_left fun r _ => ?_
      rw [Function.comp_apply, hbefore, hafter]
      exact unstamped_unlinkedRow ..
    have hright : (d.chunkPool.rows.filter fun r => !G r.hashSha256).map unstamped =
        ((b.cat.chunkPool.rows.filter fun r => !G r.hashSha256).map unstamped).map lose := by
      rw [hd.filter fun k => !G k, List.map_map, List.map_map]
      exact List.map_congr_left fun r _ => unstamped_unlinkedRow ..
    show c.chunkPool.rows.map unstamped =
      (d.chunkPool.rows.filter fun r => !G r.hashSha256).map unstamped
    rw [hleft, hright, h.rows]
  · obtain ⟨r₀, hr₀, rfl⟩ := List.mem_map.1 (hd.rows ▸ hr)
    rw [hash_unlinkedRow] at hG
    have hw := h.waits r₀ hr₀ hG
    rwa [hd.isOrphan h.right hr₀ hw]
  · show a.s3 = deleteObjects ((d.chunkPool.rows.filter _).map _) b.s3
    rw [h.s3, hd.filter G, List.map_map]
    congr 1
    exact List.map_congr_left fun r _ =>
      (congrArg (fun p => p.2.1) (payload_unlinkedRow now' _ _ r)).symm

/-! ### The two phases -/

/-- The rows that phase 1 selects. -/
def firstOrphans (n : ℕ) (w : Store) : List ChunkPool :=
  (w.cat.chunkPool.rows.filter isOrphan).take n

/-- What the two phases do with a batch of at most `n` rows. -/
structure Purges (n : ℕ) (w w' : Store) : Prop where
  coherent : RefCountInv w'.cat
  snapshots : w'.cat.snapshots.rows = w.cat.snapshots.rows
  links : w'.cat.snapshotChunks.rows = w.cat.snapshotChunks.rows
  rows : w'.cat.chunkPool.rows = w.cat.chunkPool.rows.filter fun r =>
    r.hashSha256 ∉ (firstOrphans n w).map ChunkPool.hashSha256
  s3 : w'.s3 = deleteObjects ((firstOrphans n w).map ChunkPool.storageKey) w.s3

theorem Purges.zero {w : Store} (hc : RefCountInv w.cat) : Purges 0 w w where
  coherent := hc
  snapshots := rfl
  links := rfl
  rows := by simp [firstOrphans]
  s3 := by simp [firstOrphans, deleteObjects_nil]

theorem fst_eq_firstOrphans (n : ℕ) (w : Store) : (chunksToPurge n w.cat).map Prod.fst =
    (firstOrphans n w).map ChunkPool.hashSha256 := fst_chunksToPurge n w.cat

theorem snd_eq_firstOrphans (n : ℕ) (w : Store) : (chunksToPurge n w.cat).map Prod.snd =
    (firstOrphans n w).map ChunkPool.storageKey := by
  simp only [chunksToPurge, List.map_map]
  rfl

/-- A round unlinks its snapshot and purges a batch. -/
theorem Round.purges {w w' : Store} {id : String} {batch : List (String × String)} {s : Snapshot}
    (h : Round w id w' batch) (hc : RefCountInv w.cat) (hs : w.cat.snapshots.find? id = some s) :
    ∃ now c, Unlinks now id w.cat c ∧ Purges batchSize ⟨c, w.s3⟩ w' := by
  obtain ⟨now, c, hun, hbatch, hc', hsnaps, hlinks, hrows, -⟩ := h.spec hc hs
  obtain ⟨-, -, -, -, -, hs3⟩ := h
  refine ⟨now, c, hun, hc', congrArg Table.rows hsnaps, congrArg Table.rows hlinks, ?_, ?_⟩
  · rw [hrows, hbatch]
    rw [← fst_eq_firstOrphans]
  · rw [hs3, hbatch, ← snd_eq_firstOrphans]

/-- The first of the rows that wait in a store and are not of `G`. -/
def leftOrphans (G : String → Bool) (n : ℕ) (w : Store) : List ChunkPool :=
  ((w.cat.chunkPool.rows.filter isOrphan).filter fun r => !G r.hashSha256).take n

/-- A batch is made of rows that wait. -/
theorem mem_firstOrphans {n : ℕ} {w : Store} {r : ChunkPool} (h : r ∈ firstOrphans n w) :
    r ∈ w.cat.chunkPool.rows ∧ isOrphan r = true :=
  List.mem_filter.1 (List.mem_of_mem_take h)

theorem mem_leftOrphans {G : String → Bool} {n : ℕ} {w : Store} {r : ChunkPool}
    (h : r ∈ leftOrphans G n w) : r ∈ w.cat.chunkPool.rows ∧ isOrphan r = true :=
  List.mem_filter.1 (List.mem_filter.1 (List.mem_of_mem_take h)).1

/-- A row is of a batch when its hash is. -/
theorem hash_mem_batch {w : Store} {batch : List ChunkPool} {r : ChunkPool}
    (hbatch : ∀ x ∈ batch, x ∈ w.cat.chunkPool.rows) (hr : r ∈ w.cat.chunkPool.rows) :
    r.hashSha256 ∈ batch.map ChunkPool.hashSha256 ↔ r ∈ batch := by
  refine ⟨fun h => ?_, List.mem_map_of_mem⟩
  obtain ⟨x, hx, hhash⟩ := List.mem_map.1 h
  exact List.inj_on_of_nodup_map w.cat.chunkPool.nodup (hbatch x hx) hr hhash ▸ hx

section

variable {G : String → Bool} {a b a' b' : Store} {n m : ℕ}

/-- What is ahead takes the first of the rows that both still have. -/
theorem Behind.map_firstOrphans {β : Type*} {f : ChunkPool → β} (h : Behind G a b) (n : ℕ)
    (hf : ∀ r, f (unstamped r) = f r) : (firstOrphans n a).map f = (leftOrphans G n b).map f := by
  have hmap : ∀ l : List ChunkPool, l.map f = (l.map unstamped).map f := fun l => by
    rw [List.map_map]
    exact List.map_congr_left fun r _ => (hf r).symm
  have hfilter : ∀ l : List ChunkPool,
      (l.filter isOrphan).map unstamped = (l.map unstamped).filter isOrphan := fun l => by
    rw [List.filter_map]
    rfl
  have hrows : (a.cat.chunkPool.rows.filter isOrphan).map unstamped =
      ((b.cat.chunkPool.rows.filter isOrphan).filter fun r => !G r.hashSha256).map unstamped := by
    rw [List.filter_comm, hfilter, hfilter, h.rows]
  rw [hmap, firstOrphans, List.map_take, hrows, ← List.map_take, ← hmap, leftOrphans]

/-- What is served behind, if it is still there ahead, is served there as well. -/
theorem mem_leftOrphans_of_mem {w : Store} {r : ChunkPool} (hmn : m ≤ n)
    (hr : r ∈ firstOrphans m w) (hG : G r.hashSha256 = false) : r ∈ leftOrphans G n w :=
  mem_take_filter hr hmn (by rw [hG]; rfl)

theorem hash_mem_firstOrphans {w : Store} {m : ℕ} {r : ChunkPool} (hr : r ∈ w.cat.chunkPool.rows) :
    r.hashSha256 ∈ (firstOrphans m w).map ChunkPool.hashSha256 ↔ r ∈ firstOrphans m w :=
  hash_mem_batch (fun _ hx => (mem_firstOrphans hx).1) hr

theorem hash_mem_leftOrphans {w : Store} {n : ℕ} {r : ChunkPool} (hr : r ∈ w.cat.chunkPool.rows) :
    r.hashSha256 ∈ (leftOrphans G n w).map ChunkPool.hashSha256 ↔ r ∈ leftOrphans G n w :=
  hash_mem_batch (fun _ hx => (mem_leftOrphans hx).1) hr

/-- The rows that are left when both purge a batch. -/
theorem Behind.rows_purges (h : Behind G a b) (hmn : m ≤ n) (ha : Purges n a a')
    (hb : Purges m b b') : a'.cat.chunkPool.rows.map unstamped =
      (b'.cat.chunkPool.rows.filter fun r => !(G r.hashSha256 ||
        decide (r.hashSha256 ∈ (leftOrphans G n b).map ChunkPool.hashSha256))).map unstamped := by
  have hkeep : ∀ hs : List String, (a.cat.chunkPool.rows.filter fun r =>
      r.hashSha256 ∉ hs).map unstamped =
      (a.cat.chunkPool.rows.map unstamped).filter fun r => r.hashSha256 ∉ hs := fun hs => by
    rw [List.filter_map]
    rfl
  have hback : ∀ hs : List String, ((b.cat.chunkPool.rows.filter fun r =>
      !G r.hashSha256).map unstamped).filter (fun r => r.hashSha256 ∉ hs) =
      ((b.cat.chunkPool.rows.filter fun r => !G r.hashSha256).filter fun r =>
        r.hashSha256 ∉ hs).map unstamped := fun hs => by
    rw [List.filter_map]
    rfl
  rw [ha.rows, hkeep, h.map_firstOrphans n fun _ => rfl, h.rows, hback, hb.rows,
    List.filter_filter, List.filter_filter]
  congr 1
  refine List.filter_congr fun r hr => ?_
  -- a row that both have and that is not served ahead is not served behind
  have hserved : G r.hashSha256 = false →
      r.hashSha256 ∈ (firstOrphans m b).map ChunkPool.hashSha256 →
        r.hashSha256 ∈ (leftOrphans G n b).map ChunkPool.hashSha256 := fun hG hmem =>
    (hash_mem_leftOrphans hr).2
      (mem_leftOrphans_of_mem hmn ((hash_mem_firstOrphans hr).1 hmem) hG)
  cases hG : G r.hashSha256 with
  | true => simp
  | false =>
    by_cases hmem : r.hashSha256 ∈ (firstOrphans m b).map ChunkPool.hashSha256
    · simp [-List.mem_map, hmem, hserved hG hmem]
    · simp [-List.mem_map, hmem]

/-- The keys of the rows that are gone ahead are those of the rows that are gone behind
and of the rows that wait there. -/
theorem mem_keys_purges (hmn : m ≤ n) (hb : Purges m b b') (key : String) :
    (key ∈ (leftOrphans G n b).map ChunkPool.storageKey ∨
      key ∈ (b.cat.chunkPool.rows.filter fun r => G r.hashSha256).map ChunkPool.storageKey) ↔
    (key ∈ (b'.cat.chunkPool.rows.filter fun r => G r.hashSha256 ||
      decide (r.hashSha256 ∈ (leftOrphans G n b).map ChunkPool.hashSha256)).map
        ChunkPool.storageKey ∨ key ∈ (firstOrphans m b).map ChunkPool.storageKey) := by
  rw [hb.rows]
  constructor
  · intro hkey
    obtain ⟨r, hr, hgone, rfl⟩ : ∃ r ∈ b.cat.chunkPool.rows,
        (G r.hashSha256 = true ∨ r ∈ leftOrphans G n b) ∧ r.storageKey = key := by
      rcases hkey with hkey | hkey
      · obtain ⟨r, hr, rfl⟩ := List.mem_map.1 hkey
        exact ⟨r, (mem_leftOrphans hr).1, Or.inr hr, rfl⟩
      · obtain ⟨r, hr, rfl⟩ := List.mem_map.1 hkey
        obtain ⟨hr, hG⟩ := List.mem_filter.1 hr
        exact ⟨r, hr, Or.inl hG, rfl⟩
    by_cases hmem : r ∈ firstOrphans m b
    · exact Or.inr (List.mem_map_of_mem hmem)
    · refine Or.inl (List.mem_map_of_mem (List.mem_filter.2 ⟨List.mem_filter.2 ⟨hr, ?_⟩, ?_⟩))
      · rwa [decide_eq_true_eq, hash_mem_firstOrphans hr]
      · rwa [Bool.or_eq_true, decide_eq_true_eq, hash_mem_leftOrphans hr]
  · rintro (hkey | hkey)
    · obtain ⟨r, hr, rfl⟩ := List.mem_map.1 hkey
      obtain ⟨hr, hgone⟩ := List.mem_filter.1 hr
      have hr := (List.mem_filter.1 hr).1
      rw [Bool.or_eq_true, decide_eq_true_eq, hash_mem_leftOrphans hr] at hgone
      rcases hgone with hG | hmem
      · exact Or.inr (List.mem_map_of_mem (List.mem_filter.2 ⟨hr, hG⟩))
      · exact Or.inl (List.mem_map_of_mem hmem)
    · obtain ⟨r, hr, rfl⟩ := List.mem_map.1 hkey
      cases hG : G r.hashSha256 with
      | true =>
        exact Or.inr (List.mem_map_of_mem (List.mem_filter.2 ⟨(mem_firstOrphans hr).1, hG⟩))
      | false => exact Or.inl (List.mem_map_of_mem (mem_leftOrphans_of_mem hmn hr hG))

/-- **Both purge a batch**, the one that is behind no larger one. -/
theorem Behind.purges (h : Behind G a b) (hmn : m ≤ n) (ha : Purges n a a') (hb : Purges m b b') :
    Behind (fun k => G k || decide (k ∈ (leftOrphans G n b).map ChunkPool.hashSha256)) a' b' := by
  refine ⟨ha.coherent, hb.coherent, ?_, ?_, h.rows_purges hmn ha hb, fun r hr hG => ?_, ?_⟩
  · rw [ha.snapshots, hb.snapshots, h.snapshots]
  · rw [ha.links, hb.links, h.links]
  · rw [hb.rows] at hr
    have hr := (List.mem_filter.1 hr).1
    rw [Bool.or_eq_true, decide_eq_true_eq] at hG
    exact hG.elim (h.waits r hr) fun hmem => (mem_leftOrphans ((hash_mem_leftOrphans hr).1 hmem)).2
  · rw [ha.s3, hb.s3, h.s3, h.map_firstOrphans n fun _ => rfl, deleteObjects_append,
      deleteObjects_append]
    refine deleteObjects_congr (fun key => ?_) b.s3
    rw [List.mem_append, List.mem_append]
    exact mem_keys_purges hmn hb key

/-! ### Rounds -/

/-- **Both make a round.** -/
theorem Behind.round {id : String} {batch batch' : List (String × String)} {s : Snapshot}
    (h : Behind G a b) (ha : Round a id a' batch) (hb : Round b id b' batch')
    (hs : b.cat.snapshots.find? id = some s) : ∃ G', Behind G' a' b' := by
  have hs' : a.cat.snapshots.find? id = some s := by
    rw [← hs, Table.find?, Table.find?, h.snapshots]
  obtain ⟨now, c, hc, hpurge⟩ := ha.purges h.left hs'
  obtain ⟨now', d, hd, hpurge'⟩ := hb.purges h.right hs
  exact ⟨_, (h.unlinks hc hd).purges le_rfl hpurge hpurge'⟩

end

/-- No rounds change nothing. -/
theorem Rounds.of_nil {w w' : Store} {keys : List String} (h : Rounds w [] w' keys) : w' = w := by
  generalize hids : ([] : List String) = ids at h
  cases h with
  | nil => rfl
  | snoc => simp at hids

/-- The last of some rounds. -/
theorem Rounds.of_snoc {w w' : Store} {ids keys : List String} {id : String}
    (h : Rounds w (ids ++ [id]) w' keys) : ∃ w₁ keys₁ batch,
      Rounds w ids w₁ keys₁ ∧ Round w₁ id w' batch := by
  generalize hids : ids ++ [id] = all at h
  cases h with
  | nil => simp at hids
  | snoc hrounds hround =>
    obtain ⟨rfl, hid⟩ := List.append_inj' hids rfl
    obtain rfl := (List.cons.inj hid).1
    exact ⟨_, _, _, hrounds, hround⟩

/-- Rounds after rounds. -/
theorem Rounds.append {w w₁ w' : Store} {ids ids' keys keys' : List String}
    (h : Rounds w ids w₁ keys) (h' : Rounds w₁ ids' w' keys') :
    Rounds w (ids ++ ids') w' (keys ++ keys') := by
  induction h' with
  | nil => simpa using h
  | snoc _ hround ih =>
    rw [← List.append_assoc, ← List.append_assoc]
    exact ih.snoc hround

/-- The first of some rounds, and the others. -/
theorem Rounds.split {w w' : Store} {ids ids' keys : List String}
    (h : Rounds w (ids ++ ids') w' keys) : ∃ w₁ keys₁ keys₂,
      Rounds w ids w₁ keys₁ ∧ Rounds w₁ ids' w' keys₂ := by
  induction ids' using List.reverseRecOn generalizing w' keys with
  | nil =>
    rw [List.append_nil] at h
    exact ⟨w', keys, [], h, .nil⟩
  | append_singleton ids' id ih =>
    rw [← List.append_assoc] at h
    obtain ⟨w₂, keys₂, batch, hrounds, hround⟩ := h.of_snoc
    obtain ⟨w₁, keys₁, keys', h₁, h₂⟩ := ih hrounds
    exact ⟨w₁, keys₁, _, h₁, h₂.snoc hround⟩

/-- **Both make their rounds.** -/
theorem Behind.rounds {G : String → Bool} {a b a' b' : Store} {ids keys keys' : List String}
    (h : Behind G a b) (ha : Rounds a ids a' keys) (hb : Rounds b ids b' keys') (hnd : ids.Nodup)
    (hids : ∀ id ∈ ids, (b.cat.snapshots.find? id).isSome = true) : ∃ G', Behind G' a' b' := by
  induction hb generalizing a' keys with
  | nil => exact ⟨G, ha.of_nil ▸ h⟩
  | @snoc ids b₁ b' keys' id batch hrounds hround ih =>
    obtain ⟨a₁, keys₁, batch', ha₁, hround'⟩ := ha.of_snoc
    obtain ⟨hnd', -, hdisj⟩ := List.nodup_append.1 hnd
    have hids' : ∀ i ∈ ids, (b.cat.snapshots.find? i).isSome = true := fun i hi =>
      hids i (List.mem_append_left _ hi)
    obtain ⟨G₁, h₁⟩ := ih ha₁ hnd' hids'
    obtain ⟨purged, hafter⟩ := rounds_after h.right hrounds hnd' hids'
    obtain ⟨s, hs⟩ := Option.isSome_iff_exists.1
      (hids id (List.mem_append_right _ (List.mem_singleton_self _)))
    rw [← hafter.find?_snapshot fun hmem => hdisj _ hmem _ (List.mem_singleton_self _) rfl] at hs
    exact h₁.round hround' hround hs

/-! ### Catching up -/

/-- The rows that wait, whatever their chunks. -/
def waitingRows (c : Catalog) : ℕ := waiting (fun _ => true) c

theorem waitingRows_eq (c : Catalog) : waitingRows c = c.chunkPool.rows.countP isOrphan := rfl

/-- What is ahead has fewer rows that wait, by those of `G`. -/
theorem Behind.waitingRows {G : String → Bool} {a b : Store} (h : Behind G a b) :
    waitingRows b.cat = waitingRows a.cat +
      (b.cat.chunkPool.rows.filter fun r => G r.hashSha256).length := by
  have hleft : a.cat.chunkPool.rows.countP isOrphan =
      (b.cat.chunkPool.rows.filter fun r => !G r.hashSha256).countP isOrphan := by
    have hmap : ∀ l : List ChunkPool, l.countP isOrphan = (l.map unstamped).countP isOrphan :=
      fun l => by
        rw [List.countP_map]
        rfl
    rw [hmap, h.rows, ← hmap]
  have hwaits : (b.cat.chunkPool.rows.filter fun r => G r.hashSha256).countP isOrphan =
      (b.cat.chunkPool.rows.filter fun r => G r.hashSha256).length := by
    rw [List.countP_eq_length]
    intro r hr
    exact h.waits r (List.mem_filter.1 hr).1 (List.mem_filter.1 hr).2
  rw [waitingRows_eq, waitingRows_eq, hleft, ← hwaits, List.countP_filter, List.countP_filter]
  refine countP_split fun r _ => ?_
  cases G r.hashSha256 <;> cases isOrphan r <;> rfl

/-- **When they are the same.** -/
theorem Behind.same_iff {G : String → Bool} {a b : Store} (h : Behind G a b) :
    Same a b ↔ Retention.waitingRows a.cat = Retention.waitingRows b.cat := by
  constructor
  · intro hsame
    have hcount := congrArg (List.countP isOrphan) hsame.chunkPool
    rw [List.countP_map, List.countP_map] at hcount
    exact hcount
  · intro heq
    have hlen := h.waitingRows
    have hnone : b.cat.chunkPool.rows.filter (fun r => G r.hashSha256) = [] :=
      List.eq_nil_of_length_eq_zero (by omega)
    refine ⟨h.snapshots, h.links, ?_, ?_⟩
    · rw [h.rows, List.filter_eq_self.2 fun r hr => ?_]
      have := List.filter_eq_nil_iff.1 hnone r hr
      simpa using this
    · rw [h.s3, hnone, List.map_nil, deleteObjects_nil]

end Retention
end Boveda

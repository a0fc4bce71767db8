/-
# What a purge leaves behind

`execute_two_phase_purge` is called once for each expired snapshot and deletes
`batch_size` chunks at most, so a purge of snapshots with more chunks than that
leaves some of them behind (`not_purged_large`).  A run in which no call raises
deletes all the chunks that it unlinks exactly when its rounds keep up with them
(`purged_iff_keepsUp`): the last `j` snapshots free no more than `j` batches, and
all of them together with the rows that already wait in front no more than all
batches.
-/

import Boveda.Retention.Counts
import Mathlib.Data.List.DropRight

namespace Boveda
namespace Retention

open Lib Catalog

/-- The chunk of a row is linked, by expired snapshots only. -/
def isFreed (c : Catalog) (r : ChunkPool) : Bool :=
  decide (0 < c.linkCount r.hashSha256) &&
    c.snapshotChunks.rows.all fun l => decide (l.chunkHash = r.hashSha256 →
      l.snapshotId ∈ expiredIds c)

/-- The rows up to the last one whose chunk a purge unlinks. -/
def upToLastFreed (c : Catalog) : List ChunkPool :=
  c.chunkPool.rows.rdropWhile fun r => !isFreed c r

/-- How many chunks lose their last link with each of the expired snapshots. -/
def freed (c : Catalog) : List ℕ :=
  freedCounts (fun _ => true) c.snapshotChunks.rows (expiredIds c)

/-- The batches of a purge are enough for the chunks it unlinks and for the rows
that wait in front of them. -/
structure KeepsUp (c : Catalog) : Prop where
  total : (upToLastFreed c).countP isOrphan + (freed c).sum ≤ batchSize * (freed c).length
  tails : ∀ k, ((freed c).drop k).sum ≤ batchSize * ((freed c).drop k).length

/-- A purge that has led from `w₀` to `p` has done its work: the expired snapshots
and their links are gone, a chunk that has lost its links is gone and its key has
been passed to the callback, and of a chunk that is still linked nothing but the
count of its links has changed, and its key has not been passed. -/
structure Purged (w₀ : Store) (p : Process) : Prop where
  snapshots : ∀ id ∈ expiredIds w₀.cat, p.store.cat.snapshots.find? id = none
  links : ∀ l ∈ p.store.cat.snapshotChunks.rows, l.snapshotId ∉ expiredIds w₀.cat
  unlinked : ∀ r ∈ w₀.cat.chunkPool.rows, 0 < w₀.cat.linkCount r.hashSha256 →
    p.store.cat.linkCount r.hashSha256 = 0 →
      p.store.cat.chunkPool.find? r.hashSha256 = none ∧ r.storageKey ∈ p.passed
  linked : ∀ r ∈ w₀.cat.chunkPool.rows, 0 < p.store.cat.linkCount r.hashSha256 →
    p.store.cat.chunkPool.find? r.hashSha256 =
        some { r with refCount := p.store.cat.linkCount r.hashSha256 } ∧
      r.storageKey ∉ p.passed

/-- The `UNIQUE` of `chunk_pool.storage_key`. -/
def UniqueKeys (c : Catalog) : Prop :=
  ∀ r ∈ c.chunkPool.rows, ∀ r' ∈ c.chunkPool.rows, r.storageKey = r'.storageKey → r = r'

/-! ### The rows in front -/

theorem isFreed_iff {c : Catalog} {r : ChunkPool} : isFreed c r = true ↔
    0 < c.linkCount r.hashSha256 ∧ ∀ l ∈ c.snapshotChunks.rows, l.chunkHash = r.hashSha256 →
      l.snapshotId ∈ expiredIds c := by
  simp [isFreed, imp_iff_not_or]

/-- The rows in front are an initial part of the table. -/
theorem upToLastFreed_append (c : Catalog) : ∃ rest, c.chunkPool.rows = upToLastFreed c ++ rest ∧
    ∀ r ∈ rest, isFreed c r = false := by
  refine ⟨c.chunkPool.rows.rtakeWhile fun r => !isFreed c r,
    (List.rdropWhile_append_rtakeWhile ..).symm, fun r hr => ?_⟩
  simpa using List.mem_rtakeWhile_imp hr

theorem mem_rows_of_upToLastFreed {c : Catalog} {r : ChunkPool} (hr : r ∈ upToLastFreed c) :
    r ∈ c.chunkPool.rows := by
  obtain ⟨rest, hrows, -⟩ := upToLastFreed_append c
  exact hrows ▸ List.mem_append_left _ hr

/-- A row in front that is not freed stands before one that is. -/
theorem exists_freed_after {c : Catalog} {y : ChunkPool} (hy : y ∈ upToLastFreed c)
    (hnot : isFreed c y = false) : ∃ x ∈ c.chunkPool.rows, isFreed c x = true ∧
      [y.hashSha256, x.hashSha256].Sublist (c.chunkPool.rows.map ChunkPool.hashSha256) := by
  obtain ⟨rest, hrows, -⟩ := upToLastFreed_append c
  have hne : upToLastFreed c ≠ [] := List.ne_nil_of_mem hy
  -- the last row in front is freed
  have hlast : isFreed c ((upToLastFreed c).getLast hne) = true := by
    have := List.rdropWhile_last_not (fun r => !isFreed c r) c.chunkPool.rows hne
    rw [Bool.not_eq_true, Bool.not_eq_false'] at this
    exact this
  have hx : (upToLastFreed c).getLast hne ∈ c.chunkPool.rows :=
    mem_rows_of_upToLastFreed (List.getLast_mem hne)
  have hsplit := List.dropLast_append_getLast hne
  generalize (upToLastFreed c).getLast hne = x at hlast hx hsplit
  have hybefore : y ∈ (upToLastFreed c).dropLast := by
    rw [← hsplit, List.mem_append, List.mem_singleton] at hy
    refine hy.resolve_right ?_
    rintro rfl
    rw [hnot] at hlast
    cases hlast
  refine ⟨x, hx, hlast, ?_⟩
  rw [hrows, ← hsplit]
  have hpair : [y, x].Sublist ((upToLastFreed c).dropLast ++ [x]) :=
    (List.singleton_sublist.2 hybefore).append (List.Sublist.refl [x])
  exact (hpair.trans (List.sublist_append_left _ rest)).map ChunkPool.hashSha256

/-- Whether a chunk is one of the rows in front. -/
def inFront (c : Catalog) (h : String) : Bool := h ∈ (upToLastFreed c).map ChunkPool.hashSha256

/-- The rows behind have other hashes. -/
theorem inFront_eq_false {c : Catalog} {rest : List ChunkPool}
    (hrows : c.chunkPool.rows = upToLastFreed c ++ rest) {r : ChunkPool} (hr : r ∈ rest) :
    inFront c r.hashSha256 = false := by
  have hnd := c.chunkPool.nodup
  rw [hrows, List.map_append, List.nodup_append] at hnd
  rw [inFront, decide_eq_false_iff_not]
  exact fun hmem => hnd.2.2 _ hmem _ (List.mem_map_of_mem hr) rfl

theorem inFront_of_mem {c : Catalog} {r : ChunkPool} (hr : r ∈ upToLastFreed c) :
    inFront c r.hashSha256 = true := by
  rw [inFront, decide_eq_true_eq]
  exact List.mem_map_of_mem hr

theorem initial_inFront (c : Catalog) : Initial (inFront c) c := by
  obtain ⟨rest, hrows, -⟩ := upToLastFreed_append c
  have hfront : ∀ h ∈ (upToLastFreed c).map ChunkPool.hashSha256, inFront c h = true := by
    intro h hh
    rwa [inFront, decide_eq_true_eq]
  unfold Initial
  rw [hrows, List.map_append, List.pairwise_append]
  refine ⟨?_, ?_, fun h hh k _ _ => hfront h hh⟩
  · exact List.Pairwise.imp_of_mem (fun hh _ _ _ => hfront _ hh)
      (List.pairwise_of_forall (R := fun _ _ => True) fun _ _ => trivial)
  · refine List.Pairwise.imp_of_mem (fun _ hk _ htrue => ?_)
      (List.pairwise_of_forall (R := fun _ _ => True) fun _ _ => trivial)
    obtain ⟨r, hr, rfl⟩ := List.mem_map.1 hk
    rw [inFront_eq_false hrows hr] at htrue
    cases htrue

theorem waiting_inFront (c : Catalog) :
    waiting (inFront c) c = (upToLastFreed c).countP isOrphan := by
  obtain ⟨rest, hrows, -⟩ := upToLastFreed_append c
  have hfront : (upToLastFreed c).countP (fun r => inFront c r.hashSha256 && isOrphan r) =
      (upToLastFreed c).countP isOrphan :=
    List.countP_congr fun r hr => by rw [inFront_of_mem hr, Bool.true_and]
  have hrest : rest.countP (fun r => inFront c r.hashSha256 && isOrphan r) = 0 := by
    rw [List.countP_eq_zero]
    intro r hr
    rw [inFront_eq_false hrows hr]
    simp
  rw [waiting, hrows, List.countP_append, hfront, hrest, Nat.add_zero]

/-- A chunk whose links are all of expired snapshots is freed, and its row is in
front. -/
theorem inFront_of_links {c : Catalog} (hc : RefCountInv c) {h : String}
    (hlink : ∃ l ∈ c.snapshotChunks.rows, l.chunkHash = h)
    (hall : ∀ l ∈ c.snapshotChunks.rows, l.chunkHash = h → l.snapshotId ∈ expiredIds c) :
    inFront c h = true := by
  obtain ⟨l, hl, rfl⟩ := hlink
  obtain ⟨r, hr, hhash⟩ := hc.hash_exists hl
  have hfreed : isFreed c r = true :=
    isFreed_iff.2 ⟨linkCount_pos.2 ⟨l, hl, hhash.symm⟩, hhash ▸ hall⟩
  obtain ⟨rest, hrows, hrest⟩ := upToLastFreed_append c
  rw [hrows] at hr
  rcases List.mem_append.1 hr with hfront | hbehind
  · exact hhash ▸ inFront_of_mem hfront
  · rw [hrest r hbehind] at hfreed
    cases hfreed

/-- Counting the freed chunks of a set that has them all is counting them all. -/
theorem freedCounts_congr {S : String → Bool} {links : List SnapshotChunk} {ids : List String}
    (hS : ∀ h, (∃ l ∈ links, l.chunkHash = h) →
      (∀ l ∈ links, l.chunkHash = h → l.snapshotId ∈ ids) → S h = true) :
    freedCounts S links ids = freedCounts (fun _ => true) links ids := by
  induction ids generalizing links with
  | nil => rfl
  | cons id ids ih =>
    rw [freedCounts, freedCounts]
    have hhead : (freedBy links id).countP S = (freedBy links id).countP fun _ => true := by
      refine List.countP_congr fun h hh => ?_
      obtain ⟨⟨l, hl, -, hhash⟩, hall⟩ := mem_freedBy.1 hh
      rw [hS h ⟨l, hl, hhash⟩ fun a ha hah => hall a ha hah ▸ List.mem_cons_self ..]
    rw [hhead, ih]
    rintro h ⟨l, hl, hhash⟩ hall
    refine hS h ⟨l, (List.mem_filter.1 hl).1, hhash⟩ fun a ha hah => ?_
    by_cases hid : a.snapshotId = id
    · exact hid ▸ List.mem_cons_self ..
    · exact List.mem_cons_of_mem _ (hall a (List.mem_filter.2 ⟨ha, by simpa using hid⟩) hah)

/-- **The rounds keep up** exactly when nothing in front waits at the end. -/
theorem keepsUp_iff {c : Catalog} (hc : RefCountInv c) : KeepsUp c ↔
    backlog batchSize (waiting (inFront c) c)
      (freedCounts (inFront c) c.snapshotChunks.rows (expiredIds c)) = 0 := by
  rw [waiting_inFront, freedCounts_congr fun h hlink hall => inFront_of_links hc hlink hall,
    backlog_eq_zero_iff]
  exact ⟨fun h => ⟨h.total, h.tails⟩, fun h => ⟨h.1, h.2⟩⟩

/-! ### What a purge does -/

section

variable {w₀ : Store} {p : Process} {purged : List String}

/-- What a purge does in any case. -/
theorem purged_frame (hc : RefCountInv w₀.cat) (hkeys : UniqueKeys w₀.cat)
    (h : After w₀ (expiredIds w₀.cat) p.passed purged p.store) :
    (∀ id ∈ expiredIds w₀.cat, p.store.cat.snapshots.find? id = none) ∧
      (∀ l ∈ p.store.cat.snapshotChunks.rows, l.snapshotId ∉ expiredIds w₀.cat) ∧
      ∀ r ∈ w₀.cat.chunkPool.rows, 0 < p.store.cat.linkCount r.hashSha256 →
        p.store.cat.chunkPool.find? r.hashSha256 =
            some { r with refCount := p.store.cat.linkCount r.hashSha256 } ∧
          r.storageKey ∉ p.passed := by
  refine ⟨fun id hid => h.find?_snapshot_of_mem hid, fun l hl => ?_, fun r hr hpos =>
    ⟨h.find?_linked hc hr hpos, fun hmem => ?_⟩⟩
  · rw [h.links] at hl
    simpa using (List.mem_filter.1 hl).2
  · obtain ⟨r', hr', hpurged, hkey⟩ := (h.passed _).1 hmem
    obtain rfl := hkeys r' hr' r hr hkey
    have := (h.waited r' hr' hpurged).1
    omega

/-- A chunk loses its links exactly when they are all of expired snapshots. -/
theorem linkCount_eq_zero_of_isFreed
    (h : After w₀ (expiredIds w₀.cat) p.passed purged p.store) {r : ChunkPool}
    (hr : isFreed w₀.cat r = true) : p.store.cat.linkCount r.hashSha256 = 0 := by
  rw [linkCount_eq_zero, h.links]
  intro l hl hhash
  obtain ⟨hmem, hne⟩ := List.mem_filter.1 hl
  have := (isFreed_iff.1 hr).2 l hmem hhash
  simp [this] at hne

/-- When the rounds keep up, no unlinked chunk is left. -/
theorem mem_purged_of_keepsUp (hc : RefCountInv w₀.cat) (hkeep : KeepsUp w₀.cat)
    (h : After w₀ (expiredIds w₀.cat) p.passed purged p.store)
    (hserved : Served w₀ (expiredIds w₀.cat) purged p.store) {r : ChunkPool}
    (hr : r ∈ w₀.cat.chunkPool.rows) (hpos : 0 < w₀.cat.linkCount r.hashSha256)
    (hzero : p.store.cat.linkCount r.hashSha256 = 0) : r.hashSha256 ∈ purged := by
  by_contra hnot
  obtain ⟨r', hr'⟩ := Option.isSome_iff_exists.1 ((h.find?_isSome hr).2 hnot)
  have hmem := Table.mem_of_find? hr'
  have hhash := Table.key_of_find? hr'
  obtain ⟨now, heq⟩ := h.row_of_mem hr hmem hhash
  have horphan : isOrphan r' = true := by
    rw [isOrphan_iff, heq, hzero, unlinkedRow, if_neg (by omega)]
    exact ⟨rfl, rfl⟩
  have hfront : inFront w₀.cat r'.hashSha256 = true := by
    rw [hhash]
    obtain ⟨l, hl, hlh⟩ := linkCount_pos.1 hpos
    refine inFront_of_links hc ⟨l, hl, hlh⟩ fun a ha hah => ?_
    by_contra hid
    refine linkCount_eq_zero.1 hzero a ?_ hah
    rw [h.links]
    exact List.mem_filter.2 ⟨ha, by simpa using hid⟩
  have hwait := hserved.waiting _ (initial_inFront w₀.cat)
  rw [(keepsUp_iff hc).1 hkeep, waiting, List.countP_eq_zero] at hwait
  exact hwait r' hmem (by rw [hfront, horphan]; rfl)

/-- A purge that leaves no unlinked chunk has kept up. -/
theorem keepsUp_of_purged (hc : RefCountInv w₀.cat)
    (h : After w₀ (expiredIds w₀.cat) p.passed purged p.store)
    (hserved : Served w₀ (expiredIds w₀.cat) purged p.store) (hp : Purged w₀ p) :
    KeepsUp w₀.cat := by
  rw [keepsUp_iff hc, ← hserved.waiting _ (initial_inFront w₀.cat), waiting, List.countP_eq_zero]
  -- a row in front that still waits keeps the last freed row waiting behind it
  intro r hr hwait
  obtain ⟨hfront, horphan⟩ := Bool.and_eq_true_iff.1 hwait
  obtain ⟨y, hy, hhash⟩ := List.mem_map.1 (of_decide_eq_true hfront)
  have hy₀ : y ∈ w₀.cat.chunkPool.rows := mem_rows_of_upToLastFreed hy
  have hgone : ∀ x, isFreed w₀.cat x = true → x ∈ w₀.cat.chunkPool.rows →
      x.hashSha256 ∈ purged := by
    intro x hx hx₀
    obtain ⟨hnone, -⟩ := hp.unlinked x hx₀ (isFreed_iff.1 hx).1 (linkCount_eq_zero_of_isFreed h hx)
    by_contra hnot
    rw [← h.find?_isSome hx₀, hnone] at hnot
    cases hnot
  have hyleft : y.hashSha256 ∉ purged := by
    rw [← h.find?_isSome hy₀, hhash, Table.find?_of_mem hr]
    rfl
  have hzero : p.store.cat.linkCount y.hashSha256 = 0 := by
    have := h.coherent.refCount_eq hr
    rw [(isOrphan_iff.1 horphan).1, ← hhash] at this
    omega
  have hunlinked : w₀.cat.linkCount y.hashSha256 = 0 := by
    by_contra hpos
    obtain ⟨hnone, -⟩ := hp.unlinked y hy₀ (by omega) hzero
    rw [hhash, Table.find?_of_mem hr] at hnone
    cases hnone
  have hyorphan : isOrphan y = true := by
    obtain ⟨now, heq⟩ := h.row_of_mem hy₀ hr hhash.symm
    rw [unlinkedRow, if_pos (hzero.trans hunlinked.symm)] at heq
    exact heq ▸ horphan
  have hynot : isFreed w₀.cat y = false := by
    rw [Bool.eq_false_iff, Ne, isFreed_iff]
    omega
  obtain ⟨x, hx₀, hlast, hsub⟩ := exists_freed_after hy hynot
  exact hyleft (hserved.before y hy₀ x hx₀ hyorphan hsub (hgone x hlast hx₀))

end

/-- **When a purge deletes all that it unlinks.**  From a catalog with coherent
reference counts, a run in which no call raises leaves no expired snapshot, no link
of one and no chunk that has lost its links, and touches no chunk that is still
linked, exactly when its rounds keep up with the chunks they unlink. -/
theorem purged_iff_keepsUp {w₀ : Store} (hc : RefCountInv w₀.cat) (hkeys : UniqueKeys w₀.cat)
    {p : Process} (h : Reach Process.step (fun _ e => e.Smooth) ⟨w₀, .start, []⟩ p)
    (hreturned : p.phase = .returned) : Purged w₀ p ↔ KeepsUp w₀.cat := by
  obtain ⟨purged, hafter, hserved⟩ := rounds_served hc (rounds_of_returned h hreturned)
    (List.append_nil _).symm
  obtain ⟨hsnaps, hlinks, hlinked⟩ := purged_frame hc hkeys hafter
  refine ⟨keepsUp_of_purged hc hafter hserved, fun hkeep =>
    ⟨hsnaps, hlinks, fun r hr hpos hzero => ?_, hlinked⟩⟩
  have hmem := mem_purged_of_keepsUp hc hkeep hafter hserved hr hpos hzero
  refine ⟨?_, (hafter.passed _).2 ⟨r, hr, hmem, rfl⟩⟩
  rw [← Option.not_isSome_iff_eq_none, hafter.find?_isSome hr]
  exact not_not.2 hmem

/-- A catalog is coherent when its rows are and each of its links has a row. -/
theorem refCountInv_of_rows {c : Catalog}
    (hrows : ∀ r ∈ c.chunkPool.rows, RowOk r (c.linkCount r.hashSha256))
    (hlinks : ∀ l ∈ c.snapshotChunks.rows, ∃ r ∈ c.chunkPool.rows, r.hashSha256 = l.chunkHash) :
    RefCountInv c := by
  intro h
  cases hr : c.chunkPool.find? h with
  | some r =>
    obtain rfl := Table.key_of_find? hr
    exact hrows r (Table.mem_of_find? hr)
  | none =>
    refine linkCount_eq_zero.2 fun l hl hhash => ?_
    obtain ⟨r, hr', hkey⟩ := hlinks l hl
    exact Table.find?_eq_none.1 hr r hr' (hkey.trans hhash)

/-! ### Two expired snapshots that share their chunks -/

/-- The row of a chunk with `refCount` links. -/
def sharedRow (h : String) (refCount : ℤ) : ChunkPool where
  hashSha256 := h
  storageKey := storageKeyOf h
  sizeCompressed := 1
  sizeEncrypted := 29
  refCount := refCount
  lastReferencedAt := 0

/-- Two expired snapshots share a chunk, the second of them shares another one with a
snapshot that is kept, and the first has a chunk of its own. -/
def sharedStore : Store where
  cat :=
    { snapshots := ⟨[{ runningSnapshot "snap-1" with estado := .expired },
        { runningSnapshot "snap-2" with estado := .expired },
        { runningSnapshot "snap-3" with estado := .completed }], by decide⟩
      chunkPool := ⟨[sharedRow "own" 1, sharedRow "both" 2, sharedRow "kept" 2], by decide⟩
      snapshotChunks := ⟨[⟨"snap-1", 0, "own"⟩, ⟨"snap-1", 1, "both"⟩, ⟨"snap-2", 0, "both"⟩,
        ⟨"snap-2", 1, "kept"⟩, ⟨"snap-3", 0, "kept"⟩], by decide⟩
      configuracion := .empty }
  s3 _ := none

theorem refCountInv_sharedStore : RefCountInv sharedStore.cat := by
  have hactive (h : String) (n : ℕ) : RowOk (sharedRow h n) n :=
    ⟨rfl, fun _ => rfl, fun hst => by cases hst with | inl h => cases h | inr h => cases h⟩
  refine refCountInv_of_rows (fun r hr => ?_) (by decide)
  simp only [sharedStore, List.mem_cons, List.not_mem_nil, or_false] at hr
  rcases hr with rfl | rfl | rfl
  · exact hactive "own" 1
  · exact hactive "both" 2
  · exact hactive "kept" 2

theorem uniqueKeys_sharedStore : UniqueKeys sharedStore.cat := by
  unfold UniqueKeys
  decide

/-- The first round frees the chunk of the first snapshot, and the second the one that they
share. -/
theorem keepsUp_sharedStore : KeepsUp sharedStore.cat := by
  have hfreed : freed sharedStore.cat = [1, 1] := by decide
  refine ⟨by rw [hfreed]; decide, fun k => ?_⟩
  rw [hfreed]
  rcases k with _ | _ | k
  · decide
  · decide
  · simp

theorem purged_sharedStore : ∃ p, p.phase = .returned ∧ Purged sharedStore p := by
  obtain ⟨p, hp, hreturned⟩ := exists_returned refCountInv_sharedStore
  exact ⟨p, hreturned, (purged_iff_keepsUp refCountInv_sharedStore uniqueKeys_sharedStore hp
    hreturned).2 keepsUp_sharedStore⟩

/-! ### One snapshot with many chunks -/

/-- The hashes of the example. -/
def chunkName (i : ℕ) : String := String.ofList (List.replicate i 'a')

theorem chunkName_injective : Function.Injective chunkName := by
  intro i j h
  have := congrArg List.length (String.ofList_injective h)
  simpa using this

/-- The row of a chunk with one link. -/
def linkedRow (i : ℕ) : ChunkPool where
  hashSha256 := chunkName i
  storageKey := storageKeyOf (chunkName i)
  sizeCompressed := 1
  sizeEncrypted := 1
  refCount := 1
  lastReferencedAt := 0

/-- Its link. -/
def linkOf (i : ℕ) : SnapshotChunk := ⟨"snap-1", i, chunkName i⟩

/-- One expired snapshot with `n` chunks. -/
def expiredCatalog (n : ℕ) : Catalog where
  snapshots := ⟨[{ runningSnapshot "snap-1" with estado := .expired }], List.nodup_singleton _⟩
  chunkPool := ⟨(List.range n).map linkedRow, by
    rw [List.map_map]
    exact List.nodup_range.map chunkName_injective⟩
  snapshotChunks := ⟨(List.range n).map linkOf, by
    rw [List.map_map]
    exact List.nodup_range.map fun i j h => Int.ofNat.inj (congrArg Prod.snd h)⟩
  configuracion := .empty

theorem linkCount_expiredCatalog {n i : ℕ} (hi : i < n) :
    (expiredCatalog n).linkCount (chunkName i) = 1 := by
  have hone := List.count_eq_one_of_mem List.nodup_range (List.mem_range.2 hi)
  rw [linkCount, expiredCatalog, List.countP_map, ← hone, List.count]
  refine List.countP_congr fun j _ => ?_
  simp [linkOf, chunkName_injective.eq_iff]

theorem refCountInv_expiredCatalog (n : ℕ) : RefCountInv (expiredCatalog n) := by
  refine refCountInv_of_rows (fun r hr => ?_) fun l hl => ?_
  · obtain ⟨i, hi, rfl⟩ := List.mem_map.1 hr
    show RowOk _ ((expiredCatalog n).linkCount (chunkName i))
    rw [linkCount_expiredCatalog (List.mem_range.1 hi)]
    exact ⟨rfl, fun _ => rfl, fun hst => by cases hst with | inl h => cases h | inr h => cases h⟩
  · obtain ⟨i, hi, rfl⟩ := List.mem_map.1 hl
    exact ⟨linkedRow i, List.mem_map_of_mem hi, rfl⟩

theorem uniqueKeys_expiredCatalog (n : ℕ) : UniqueKeys (expiredCatalog n) := by
  intro r hr r' hr' h
  obtain ⟨i, -, rfl⟩ := List.mem_map.1 hr
  obtain ⟨j, -, rfl⟩ := List.mem_map.1 hr'
  obtain rfl : i = j := chunkName_injective (storageKeyOf_injective h)
  rfl

/-- Its only round frees all the chunks. -/
theorem freed_expiredCatalog (n : ℕ) : freed (expiredCatalog n) = [n] := by
  have hids : expiredIds (expiredCatalog n) = ["snap-1"] := rfl
  have hall : ∀ r ∈ (expiredCatalog n).chunkPool.rows,
      r.hashSha256 ∈ freedBy (expiredCatalog n).snapshotChunks.rows "snap-1" := by
    intro r hr
    obtain ⟨i, hi, rfl⟩ := List.mem_map.1 hr
    refine mem_freedBy.2 ⟨⟨linkOf i, List.mem_map_of_mem hi, rfl, rfl⟩, ?_⟩
    intro l hl _
    obtain ⟨j, -, rfl⟩ := List.mem_map.1 hl
    rfl
  have hcount : (expiredCatalog n).chunkPool.rows.countP (fun r =>
      true && decide (r.hashSha256 ∈ freedBy (expiredCatalog n).snapshotChunks.rows "snap-1")) =
      (expiredCatalog n).chunkPool.rows.length := by
    rw [List.countP_eq_length]
    intro r hr
    simpa using hall r hr
  rw [freed, hids, freedCounts, freedCounts, ← countP_freedBy (refCountInv_expiredCatalog n), hcount]
  simp [expiredCatalog]

/-- The store before the purge. -/
def expiredStore (n : ℕ) : Store := ⟨expiredCatalog n, fun _ => none⟩

theorem refCountInv_expiredStore (n : ℕ) : RefCountInv (expiredStore n).cat :=
  refCountInv_expiredCatalog n

theorem uniqueKeys_expiredStore (n : ℕ) : UniqueKeys (expiredStore n).cat :=
  uniqueKeys_expiredCatalog n

/-- A purge of it can run to its end. -/
theorem exists_returned_expired (n : ℕ) : ∃ p,
    Reach Process.step (fun _ e => e.Smooth) ⟨expiredStore n, .start, []⟩ p ∧
      p.phase = .returned :=
  exists_returned (refCountInv_expiredStore n)

/-- It does not keep up when they are more than a batch. -/
theorem not_keepsUp_expired (n : ℕ) (hn : batchSize < n) : ¬ KeepsUp (expiredStore n).cat := by
  intro h
  have htotal := h.total
  rw [show freed (expiredStore n).cat = [n] from freed_expiredCatalog n, List.sum_singleton,
    List.length_singleton, mul_one] at htotal
  exact absurd (le_trans (Nat.le_add_left ..) htotal) (not_le.2 hn)

theorem not_purged_of_lt (n : ℕ) (hn : batchSize < n) : ∃ p : Process,
    RefCountInv (expiredStore n).cat ∧ UniqueKeys (expiredStore n).cat ∧
      Reach Process.step (fun _ e => e.Smooth) ⟨expiredStore n, .start, []⟩ p ∧
      p.phase = .returned ∧ ¬ Purged (expiredStore n) p := by
  have hc := refCountInv_expiredStore n
  obtain ⟨p, hp, hreturned⟩ := exists_returned_expired n
  obtain ⟨purged, hafter, hserved⟩ := rounds_served hc (rounds_of_returned hp hreturned)
    (List.append_nil _).symm
  exact ⟨p, hc, uniqueKeys_expiredStore n, hp, hreturned, fun hpurged =>
    not_keepsUp_expired n hn (keepsUp_of_purged hc hafter hserved hpurged)⟩

/-- **A chunk stays behind** when a snapshot has more chunks than a batch. -/
theorem not_purged_large : ∃ p : Process,
    RefCountInv (expiredStore 501).cat ∧ UniqueKeys (expiredStore 501).cat ∧
      Reach Process.step (fun _ e => e.Smooth) ⟨expiredStore 501, .start, []⟩ p ∧
      p.phase = .returned ∧ ¬ Purged (expiredStore 501) p :=
  not_purged_of_lt 501 (Nat.lt_succ_self 500)

end Retention
end Boveda

/-
# A purge after a crash

The process of `purge_expired_snapshots` may die between any two commits, and in
the middle of the call of the object store.  `PURGING` and `PURGING_S3` are
committed before the work that they announce, and no run selects them again, so a
crash behind one of these commits is never made good (`not_recovers_marked`).  What
a crash between the deletion of the links and phase 1 leaves to do is done by a
later round if there is one with room for it.  `recovers_iff` says at which points
a second run does the work of the first one.
-/

import Boveda.Retention.Behind
import Boveda.Retention.Expiry

namespace Boveda
namespace Retention

open Lib Catalog

/-- No snapshot is `PURGING`, and no row is `PURGING_S3`. -/
structure Clean (c : Catalog) : Prop where
  snapshots : ∀ s ∈ c.snapshots.rows, s.estado ≠ .purging
  chunkPool : ∀ r ∈ c.chunkPool.rows, r.state ≠ .purgingS3

/-- What is left when the process of a run dies.  During the call of the object
store some of the keys may be gone already. -/
def crash (p : Process) (removed : List String) : Store :=
  match p.phase with
  | .deleting batch _ _ =>
    { p.store with s3 := (deleteObjectsS3 (.raises removed) (batch.map Prod.snd) p.store.s3).1 }
  | _ => p.store

/-- A run from `w` in which no call raises ends as one from `w₀` does, with nothing
in the middle of a purge. -/
def Recovers (w₀ w : Store) : Prop :=
  ∀ u q : Process, Reach Process.step (fun _ e => e.Smooth) ⟨w₀, .start, []⟩ u →
    u.phase = .returned → Reach Process.step (fun _ e => e.Smooth) ⟨w, .start, []⟩ q →
      q.phase = .returned → Same u.store q.store ∧ Clean q.store.cat

/-- Nothing waits, or one of the rounds that are still to come has room for all
that waits then. -/
def CatchesUp (c : Catalog) : Prop :=
  waitingRows c = 0 ∨ ∃ j, j < (freed c).length ∧
    waitingRows c + ((freed c).take (j + 1)).sum ≤ batchSize * (j + 1)

/-- The process dies before its first commit, between two rounds or at its end, or
between the unlinking of a snapshot and phase 1 with room for what waits. -/
def DiesBetween (p : Process) : Prop :=
  match p.phase with
  | .start | .next _ _ | .returned => True
  | .twoPhase _ _ => CatchesUp p.store.cat
  | _ => False

/-! ### Rows that stay -/

theorem expiredIds_of_filter {c c' : Catalog} {p : String → Bool}
    (h : c'.snapshots.rows = c.snapshots.rows.filter fun s => p s.id) :
    expiredIds c' = (expiredIds c).filter p := by
  rw [expiredIds, h, expiredIds, List.filter_map, List.filter_comm]
  rfl

/-- A snapshot in another state is not one of the expired ones. -/
theorem notMem_expiredIds {c : Catalog} {s : Snapshot} (hs : s ∈ c.snapshots.rows)
    (hst : s.estado ≠ .expired) : s.id ∉ expiredIds c := by
  intro hmem
  obtain ⟨s', hs', hid⟩ := List.mem_map.1 hmem
  obtain ⟨hs', hexp⟩ := List.mem_filter.1 hs'
  obtain rfl := List.inj_on_of_nodup_map c.snapshots.nodup hs' hs hid
  exact hst (of_decide_eq_true hexp)

/-- A row that is being deleted has no links. -/
theorem linkCount_of_purgingS3 {c : Catalog} (hc : RefCountInv c) {r : ChunkPool}
    (hr : r ∈ c.chunkPool.rows) (hst : r.state = .purgingS3) : c.linkCount r.hashSha256 = 0 := by
  have href := hc.refCount_eq hr
  have hzero := (hc.unreferenced_of_scheduled hr (Or.inr hst)).1
  omega

/-- Losing links does not announce a deletion. -/
theorem state_of_unlinkedRow {now : Time} {n m : ℕ} {r : ChunkPool}
    (h : (unlinkedRow now n m r).state = .purgingS3) : r.state = .purgingS3 := by
  unfold unlinkedRow at h
  split_ifs at h with hsame hzero
  · exact h
  · exact h

section

variable {w₀ w : Store} {done rest keys purged : List String}

/-- The expired snapshots that are still to come. -/
theorem After.expiredIds (h : After w₀ done keys purged w)
    (hsplit : expiredIds w₀.cat = done ++ rest) : expiredIds w.cat = rest := by
  have hnd := nodup_expiredIds w₀.cat
  rw [hsplit] at hnd
  obtain ⟨-, -, hdisj⟩ := List.nodup_append.1 hnd
  rw [expiredIds_of_filter (p := fun id => id ∉ done) h.snapshots, hsplit, List.filter_append]
  have hdone : done.filter (fun id => decide (id ∉ done)) = [] := by
    simp [List.filter_eq_nil_iff]
  have hrest : rest.filter (fun id => decide (id ∉ done)) = rest := by
    rw [List.filter_eq_self]
    intro id hid
    rw [decide_eq_true_eq]
    exact fun hmem => hdisj id hmem id hid rfl
  rw [hdone, hrest, List.nil_append]

/-- The rounds of expired snapshots leave what is in the middle of a purge. -/
theorem After.clean_iff (h : After w₀ done keys purged w) (hc : RefCountInv w₀.cat)
    (hdone : ∀ id ∈ done, id ∈ Retention.expiredIds w₀.cat) : Clean w.cat ↔ Clean w₀.cat := by
  constructor
  · intro hclean
    refine ⟨fun s hs hst => ?_, fun r hr hst => ?_⟩
    · refine hclean.snapshots s ?_ hst
      rw [h.snapshots]
      refine List.mem_filter.2 ⟨hs, decide_eq_true fun hmem => ?_⟩
      exact notMem_expiredIds hs (by simp [hst]) (hdone _ hmem)
    · have hlinks := linkCount_of_purgingS3 hc hr hst
      have hleft : r.hashSha256 ∉ purged := by
        intro hmem
        rcases (h.waited r hr hmem).2 with hpos | horphan
        · omega
        · rw [isOrphan_iff, hst] at horphan
          cases horphan.2
      obtain ⟨r', hr'⟩ := Option.isSome_iff_exists.1 ((h.find?_isSome hr).2 hleft)
      obtain ⟨now, heq⟩ := h.row_of_mem hr (Table.mem_of_find? hr') (Table.key_of_find? hr')
      have hle := h.linkCount_le r.hashSha256
      rw [unlinkedRow, if_pos (by omega)] at heq
      exact hclean.chunkPool r (heq ▸ Table.mem_of_find? hr') hst
  · intro hclean
    refine ⟨fun s hs => ?_, fun r hr hst => ?_⟩
    · rw [h.snapshots] at hs
      exact hclean.snapshots s (List.mem_filter.1 hs).1
    · obtain ⟨r₀, hr₀, now, heq⟩ := h.row r hr
      exact hclean.chunkPool r₀ hr₀ (state_of_unlinkedRow (heq ▸ hst))

end

/-- Unlinking leaves what is in the middle of another purge. -/
theorem Unlinks.clean_iff {now : Time} {id : String} {c c' : Catalog} (h : Unlinks now id c c')
    (hc : RefCountInv c) (hid : id ∈ expiredIds c) : Clean c' ↔ Clean c := by
  constructor
  · intro hclean
    refine ⟨fun s hs hst => hclean.snapshots s ?_ hst, fun r hr hst => ?_⟩
    · rw [h.snapshots]
      refine List.mem_filter.2 ⟨hs, decide_eq_true ?_⟩
      rintro rfl
      exact notMem_expiredIds hs (by simp [hst]) hid
    · have hlinks := linkCount_of_purgingS3 hc hr hst
      have hle : c'.linkCount r.hashSha256 ≤ c.linkCount r.hashSha256 :=
        linkCount_le_of_filter h.links _
      have hmem : unlinkedRow now (c.linkCount r.hashSha256) (c'.linkCount r.hashSha256) r ∈
          c'.chunkPool.rows := h.rows ▸ List.mem_map_of_mem hr
      rw [unlinkedRow, if_pos (by omega)] at hmem
      exact hclean.chunkPool r hmem hst
  · intro hclean
    refine ⟨fun s hs => ?_, fun r hr hst => ?_⟩
    · rw [h.snapshots] at hs
      exact hclean.snapshots s (List.mem_filter.1 hs).1
    · obtain ⟨r₀, hr₀, rfl⟩ := List.mem_map.1 (h.rows ▸ hr)
      exact hclean.chunkPool r₀ hr₀ (state_of_unlinkedRow hst)

/-! ### How many rows wait -/

/-- What waits after the rounds of a run. -/
theorem waitingRows_rounds {w₀ w : Store} {done rest keys : List String} (hc : RefCountInv w₀.cat)
    (h : Rounds w₀ done w keys) (hsplit : expiredIds w₀.cat = done ++ rest) :
    waitingRows w.cat = backlog batchSize (waitingRows w₀.cat)
      (freedCounts (fun _ => true) w₀.cat.snapshotChunks.rows done) := by
  obtain ⟨purged, -, hserved⟩ := rounds_served hc h hsplit
  exact hserved.waiting _ (List.pairwise_of_forall fun _ _ => fun _ => rfl)

/-- A batch leaves the other rows. -/
theorem Purges.waitingRows {n : ℕ} {w w' : Store} (h : Purges n w w') :
    waitingRows w'.cat = waitingRows w.cat - n := by
  have hnd : ((w.cat.chunkPool.rows.filter isOrphan).map ChunkPool.hashSha256).Nodup :=
    w.cat.chunkPool.nodup.sublist (List.filter_sublist.map _)
  rw [waitingRows_eq, waitingRows_eq, List.countP_eq_length_filter, h.rows, List.filter_comm,
    firstOrphans, filter_notMem_take hnd, List.length_drop, List.countP_eq_length_filter]

/-! ### The second run -/

/-- A run leaves what was in the middle of a purge before it. -/
theorem clean_iff_of_returned {w : Store} {q : Process} (hc : RefCountInv w.cat)
    (h : Reach Process.step (fun _ e => e.Smooth) ⟨w, .start, []⟩ q)
    (hreturned : q.phase = .returned) : Clean q.store.cat ↔ Clean w.cat := by
  obtain ⟨purged, hafter⟩ := after_of_expired hc (rounds_of_returned h hreturned)
    (List.append_nil _).symm
  exact hafter.clean_iff hc fun id hid => hid

/-- What a crash leaves in the middle of a purge stays there. -/
theorem clean_of_recovers {w₀ w : Store} (hc₀ : RefCountInv w₀.cat) (hc : RefCountInv w.cat)
    (h : Recovers w₀ w) : Clean w.cat := by
  obtain ⟨u, hu, hureturned⟩ := exists_returned hc₀
  obtain ⟨q, hq, hqreturned⟩ := exists_returned hc
  exact (clean_iff_of_returned hc hq hqreturned).1 (h u q hu hureturned hq hqreturned).2

section

variable {w₀ w : Store} {done rest keys : List String}

/-- **A crash between two rounds** is made good. -/
theorem recovers_of_rounds (hc : RefCountInv w₀.cat) (hrounds : Rounds w₀ done w keys)
    (hsplit : expiredIds w₀.cat = done ++ rest) : Recovers w₀ w ↔ Clean w₀.cat := by
  obtain ⟨purged, hafter⟩ := after_of_expired hc hrounds hsplit
  have hrest := hafter.expiredIds hsplit
  have hclean := hafter.clean_iff hc fun id hid => hsplit ▸ List.mem_append_left _ hid
  refine ⟨fun h => hclean.1 (clean_of_recovers hc hafter.coherent h),
    fun h u q hu hureturned hq hqreturned => ⟨?_, ?_⟩⟩
  · -- the rounds of the second run come after those of the first one
    have hu := rounds_of_returned hu hureturned
    have hq := hrounds.append (rounds_of_returned hq hqreturned)
    rw [hrest, ← hsplit] at hq
    obtain ⟨G, hbehind⟩ := (Behind.refl hc).rounds hu hq (nodup_expiredIds _)
      fun id hid => isSome_of_mem_expiredIds hid
    have hall := (List.append_nil (expiredIds w₀.cat)).symm
    rw [hbehind.same_iff, waitingRows_rounds hc hu hall, waitingRows_rounds hc hq hall]
  · exact (clean_iff_of_returned hafter.coherent hq hqreturned).2 (hclean.2 h)

/-- The unlinking of the next snapshot. -/
theorem unlinks_of_purgeSnapshot {id : String} {now : Time} {cat : Catalog}
    (hc : RefCountInv w₀.cat) (hrounds : Rounds w₀ done w keys)
    (hsplit : expiredIds w₀.cat = done ++ id :: rest)
    (hcat : purgeSnapshot now id (setEstado id .purging w.cat) = .ok cat) :
    Unlinks now id w.cat cat := by
  obtain ⟨purged, hafter⟩ := after_of_expired hc hrounds hsplit
  have hid : id ∈ expiredIds w.cat := hafter.expiredIds hsplit ▸ List.mem_cons_self ..
  obtain ⟨s, hs⟩ := Option.isSome_iff_exists.1 (isSome_of_mem_expiredIds hid)
  obtain ⟨cat', hcat', hun⟩ := purgeSnapshot_unlinks hafter.coherent hs now
  obtain rfl := Except.ok.inj (hcat.symm.trans hcat')
  exact hun

/-- What an uninterrupted run and the second one end with, after a crash before
phase 1. -/
theorem same_iff_catchesUp {u q : Store} {id : String} {now : Time} {cat : Catalog}
    {keysU keysQ : List String} (hc : RefCountInv w₀.cat) (hrounds : Rounds w₀ done w keys)
    (hsplit : expiredIds w₀.cat = done ++ id :: rest) (hun : Unlinks now id w.cat cat)
    (hrest : expiredIds cat = rest) (hu : Rounds w₀ (expiredIds w₀.cat) u keysU)
    (hq : Rounds ⟨cat, w.s3⟩ (expiredIds cat) q keysQ) : Same u q ↔ CatchesUp cat := by
  -- the uninterrupted run, cut at the round of `id`
  rw [hsplit] at hu
  obtain ⟨w₁, _, keys₂, h₁, h₂⟩ := hu.split
  obtain ⟨w₂, _, _, hone, h₃⟩ := Rounds.split (show Rounds w₁ ([id] ++ rest) u keys₂ from h₂)
  obtain ⟨w₁, _, _, hnil, hround⟩ := Rounds.of_snoc (show Rounds _ ([] ++ [id]) w₂ _ from hone)
  obtain rfl := hnil.of_nil
  have hnd := nodup_expiredIds w₀.cat
  rw [hsplit] at hnd
  obtain ⟨G, hbehind⟩ := (Behind.refl hc).rounds h₁ hrounds (List.nodup_append.1 hnd).1
    fun i hi => isSome_of_mem_expiredIds (hsplit ▸ List.mem_append_left _ hi)
  obtain ⟨purged, hafter⟩ := after_of_expired hc h₁ hsplit
  have hidw₁ : id ∈ expiredIds w₁.cat := hafter.expiredIds hsplit ▸ List.mem_cons_self ..
  obtain ⟨s, hs⟩ := Option.isSome_iff_exists.1 (isSome_of_mem_expiredIds hidw₁)
  obtain ⟨now₁, c₁, hun₁, hpurge⟩ := hround.purges hbehind.left hs
  have hbehind₁ := hbehind.unlinks hun₁ hun
  have hbehind₂ := hbehind₁.purges (Nat.zero_le batchSize) hpurge (Purges.zero hbehind₁.right)
  -- the rounds after it, of both
  have hrest₂ : expiredIds w₂.cat = rest := by
    rw [← hrest, expiredIds, expiredIds, hbehind₂.snapshots]
  rw [hrest] at hq
  obtain ⟨G', hend⟩ := hbehind₂.rounds h₃ hq (hrest ▸ nodup_expiredIds cat)
    fun i hi => isSome_of_mem_expiredIds (c := cat) (hrest.symm ▸ hi)
  -- how many rows wait
  have hwait : waitingRows c₁ = waitingRows cat := by
    have hw : waitingRows w₁.cat = waitingRows w.cat := by
      rw [waitingRows_rounds hc h₁ hsplit, waitingRows_rounds hc hrounds hsplit]
    have hleft := waiting_unlinks hbehind.left hun₁ fun _ => true
    have hright := waiting_unlinks hbehind.right hun fun _ => true
    rw [hbehind.links] at hleft
    exact hleft.trans ((congrArg (· + _) hw).trans hright.symm)
  have hpurged : waitingRows w₂.cat = waitingRows cat - batchSize := by
    rw [hpurge.waitingRows, ← hwait]
  rw [hend.same_iff, waitingRows_rounds hbehind₂.left h₃ (hrest₂.trans (List.append_nil _).symm),
    waitingRows_rounds hbehind₂.right hq (hrest.trans (List.append_nil _).symm), hpurged,
    hbehind₂.links, backlog_eq_iff batchSize (Nat.sub_le _ _), CatchesUp, freed, hrest]
  have hpos : 0 < batchSize := by decide
  refine or_congr_left ?_
  omega

/-- **A crash before phase 1** is made good when a later round has room for what it
leaves. -/
theorem recovers_of_unlinked {id : String} {now : Time} {cat : Catalog} (hc : RefCountInv w₀.cat)
    (hrounds : Rounds w₀ done w keys) (hsplit : expiredIds w₀.cat = done ++ id :: rest)
    (hcat : purgeSnapshot now id (setEstado id .purging w.cat) = .ok cat) :
    Recovers w₀ ⟨cat, w.s3⟩ ↔ Clean w₀.cat ∧ CatchesUp cat := by
  obtain ⟨purged, hafter⟩ := after_of_expired hc hrounds hsplit
  have hids := hafter.expiredIds hsplit
  have hdone : ∀ i ∈ done, i ∈ expiredIds w₀.cat := fun i hi =>
    hsplit ▸ List.mem_append_left _ hi
  have hidw : id ∈ expiredIds w.cat := hids ▸ List.mem_cons_self ..
  have hun := unlinks_of_purgeSnapshot hc hrounds hsplit hcat
  have hclean : Clean cat ↔ Clean w₀.cat :=
    (hun.clean_iff hafter.coherent hidw).trans (hafter.clean_iff hc hdone)
  have hrest : expiredIds cat = rest := by
    have hnd := nodup_expiredIds w.cat
    rw [expiredIds_of_filter (p := fun i => i ≠ id) hun.snapshots, hids]
    rw [hids] at hnd
    have hnew := (List.nodup_cons.1 hnd).1
    rw [List.filter_cons_of_neg (by simp), List.filter_eq_self]
    intro i hi
    rw [decide_eq_true_eq]
    rintro rfl
    exact hnew hi
  have hcrash : RefCountInv (Store.cat ⟨cat, w.s3⟩) := hun.coherent
  refine ⟨fun h => ?_, fun ⟨hw₀, hcatch⟩ u q hu hureturned hq hqreturned => ?_⟩
  · obtain ⟨u, hu, hureturned⟩ := exists_returned hc
    obtain ⟨q, hq, hqreturned⟩ := exists_returned hcrash
    exact ⟨hclean.1 (clean_of_recovers hc hcrash h),
      (same_iff_catchesUp hc hrounds hsplit hun hrest (rounds_of_returned hu hureturned)
        (rounds_of_returned hq hqreturned)).1 (h u q hu hureturned hq hqreturned).1⟩
  · exact ⟨(same_iff_catchesUp hc hrounds hsplit hun hrest (rounds_of_returned hu hureturned)
        (rounds_of_returned hq hqreturned)).2 hcatch,
      (clean_iff_of_returned hcrash hq hqreturned).2 (hclean.2 hw₀)⟩

/-- **A crash behind a commit that announces work** is not made good. -/
theorem not_recovers_marked (hc : RefCountInv w₀.cat) (hw : RefCountInv w.cat)
    (hmid : ¬ Clean w.cat) : ¬ Recovers w₀ w :=
  fun h => hmid (clean_of_recovers hc hw h)

end

/-- The snapshot whose purge has been announced. -/
theorem not_clean_setEstado {c : Catalog} {id : String} (hid : id ∈ expiredIds c) :
    ¬ Clean (setEstado id .purging c) := by
  obtain ⟨s, hs⟩ := Option.isSome_iff_exists.1 (isSome_of_mem_expiredIds hid)
  have hfind : (setEstado id .purging c).snapshots.find? id = some { s with estado := .purging } := by
    rw [find?_setEstado, if_pos rfl, hs]
    rfl
  exact fun h => h.snapshots _ (Table.mem_of_find? hfind) rfl

/-- The rows whose deletion has been announced. -/
theorem not_clean_purgePhase1 {c : Catalog} {n : ℕ} (hne : chunksToPurge n c ≠ []) :
    ¬ Clean (purgePhase1 n c).2 := by
  obtain ⟨⟨h, key⟩, hmem⟩ := List.exists_mem_of_ne_nil _ hne
  obtain ⟨hbatch, hfind, -, -⟩ := purgePhase1_spec n c
  obtain ⟨r, hr, -, href, -⟩ := hbatch h key hmem
  have hmarked := hfind h
  have hlisted : h ∈ (purgePhase1 n c).1.map Prod.fst := List.mem_map_of_mem hmem
  rw [if_pos hlisted, hr, Option.map_some, marked, if_pos href] at hmarked
  exact fun hclean => hclean.chunkPool _ (Table.mem_of_find? hmarked) rfl

/-- **When a second run makes a crash good.**  The process of a run in which no call
raises dies anywhere.  The second run ends as an uninterrupted one, with nothing in
the middle of a purge, exactly when nothing was before, and the process dies outside
a round, or in one behind the unlinking and before phase 1 with room for what waits. -/
theorem recovers_iff {w₀ : Store} (hc : RefCountInv w₀.cat) {p : Process}
    (h : Reach Process.step (fun _ e => e.Smooth) ⟨w₀, .start, []⟩ p) (removed : List String) :
    Recovers w₀ (crash p removed) ↔ Clean w₀.cat ∧ DiesBetween p := by
  have hstage := stage_of_reach h
  -- what a round has announced is never made good
  have hnever : ∀ {w : Store}, RefCountInv w.cat → ¬ Clean w.cat →
      (Recovers w₀ w ↔ Clean w₀.cat ∧ False) := fun hw hmid =>
    iff_of_false (not_recovers_marked hc hw hmid) fun h => h.2
  cases hstage with
  | start =>
    show Recovers w₀ w₀ ↔ Clean w₀.cat ∧ True
    rw [and_true]
    exact recovers_of_rounds hc .nil (List.nil_append _).symm
  | @next done rest keys id w hsplit hrounds =>
    show Recovers w₀ w ↔ Clean w₀.cat ∧ True
    rw [and_true]
    exact recovers_of_rounds hc hrounds hsplit
  | unlink hsplit hrounds =>
    obtain ⟨purged, hafter⟩ := after_of_expired hc hrounds hsplit
    exact hnever (hafter.coherent.frame rfl rfl)
      (not_clean_setEstado (hafter.expiredIds hsplit ▸ List.mem_cons_self ..))
  | twoPhase hsplit hrounds hcat => exact recovers_of_unlinked hc hrounds hsplit hcat
  | deleting hsplit hrounds hcat hne =>
    exact hnever ((unlinks_of_purgeSnapshot hc hrounds hsplit hcat).coherent.purgePhase1 batchSize)
      (not_clean_purgePhase1 hne)
  | confirm hsplit hrounds hcat hne =>
    exact hnever ((unlinks_of_purgeSnapshot hc hrounds hsplit hcat).coherent.purgePhase1 batchSize)
      (not_clean_purgePhase1 hne)
  | @returned keys w hrounds =>
    show Recovers w₀ w ↔ Clean w₀.cat ∧ True
    rw [and_true]
    exact recovers_of_rounds hc hrounds (List.append_nil _).symm

/-! ### A crash behind the first commit -/

/-- A run that has announced the purge of its only snapshot. -/
def announced : Process where
  store := ⟨setEstado "snap-1" .purging (expiredStore 1).cat, (expiredStore 1).s3⟩
  phase := .unlink "snap-1" []

theorem reach_announced :
    Reach Process.step (fun _ e => e.Smooth) ⟨expiredStore 1, .start, []⟩ announced :=
  Reach.refl.tail (e := Event.select) trivial rfl

/-- The condition of the theorem at this crash. -/
theorem recovers_iff_announced : Recovers (expiredStore 1) (crash announced []) ↔
    Clean (expiredStore 1).cat ∧ DiesBetween announced :=
  recovers_iff (refCountInv_expiredStore 1) reach_announced []

/-- **The snapshot stays `PURGING`** when the process dies behind the commit that
announces its purge. -/
theorem not_recovers_announced : RefCountInv (expiredStore 1).cat ∧ Clean (expiredStore 1).cat ∧
    Reach Process.step (fun _ e => e.Smooth) ⟨expiredStore 1, .start, []⟩ announced ∧
      ¬ Recovers (expiredStore 1) (crash announced []) := by
  have hc := refCountInv_expiredStore 1
  refine ⟨hc, ⟨?_, ?_⟩, reach_announced, ?_⟩
  · intro s hs
    obtain rfl := List.mem_singleton.1 hs
    exact Estado.noConfusion
  · intro r hr
    obtain ⟨i, -, rfl⟩ := List.mem_map.1 hr
    exact ChunkState.noConfusion
  · exact not_recovers_marked hc (hc.frame rfl rfl)
      (not_clean_setEstado (c := (expiredStore 1).cat) (List.mem_singleton_self "snap-1"))

end Retention
end Boveda

/-
# What happens to a batch while its objects are deleted

`execute_two_phase_purge` (`src/boveda/retention.py`) claims a batch, calls S3 without a
transaction, and comes back to a catalog in which any other transactions have been
made: links, unlinkings, uploads that reactivate a row, other purges.  The list it
comes back with is stale, and the second phase goes by the row: it deletes, or puts
back, what is `PURGING_S3`.

A row that has moved on, reactivated or linked again, is `ACTIVE` then and is left
alone, unless it has been unlinked again and claimed by another purge: this claim the
second phase takes for its own.  `overlap_iff` says that nothing else can go wrong, in
any interleaving, and `not_keeps_takenOver` is a run in which it does.  Where no first phase
claims a chunk that has moved on under a waiting purge, as when purges run one after the
other, nothing goes wrong at all (`keeps_of_claimsFresh`).
-/

import Boveda.Catalog.History

namespace Boveda
namespace Overlap

open Lib Catalog

/-! ### Purges and everything else -/

/-- Where an `execute_two_phase_purge` stands. -/
inductive Phase
  | idle
  | deleting (batch : List (String × String))
  | finished
  deriving DecidableEq, Repr

/-- The catalog and the purges.  `moved j h` says that the chunk `h` has been reactivated
or linked since the first phase of the purge `j`; no step reads it. -/
structure World where
  cat : Catalog
  purges : ℕ → Phase := fun _ => .idle
  moved : ℕ → String → Bool := fun _ _ => false

/-- After `init_db`. -/
def World.init : World := { cat := empty }

/-- The two phases of a purge, the second after a callback that has returned or raised,
and any other transaction. -/
inductive Event
  | claim (j : ℕ) (batchSize : ℕ)
  | returned (j : ℕ)
  | raised (j : ℕ)
  | other (op : CatalogOp)

/-- A transaction has set the row of a chunk back to `ACTIVE`. -/
def reactivated (c c' : Catalog) (h : String) : Bool :=
  match c.chunkPool.find? h, c'.chunkPool.find? h with
  | some r, some r' => r.state ≠ .active ∧ r'.state = .active
  | _, _ => false

/-- A transaction has linked a chunk. -/
def relinked (c c' : Catalog) (h : String) : Bool := c.linkCount h < c'.linkCount h

/-- The catalog after a transaction, and what it has done to the chunks. -/
def World.commit (c : Catalog) (w : World) : World :=
  { w with
    cat := c
    moved := fun j h => w.moved j h || reactivated w.cat c h || relinked w.cat c h }

/-- One step, `none` when it is not the turn of its purge. -/
def step (w : World) : Event → Option World
  | .claim j batchSize =>
    match w.purges j with
    | .idle =>
      let (batch, cat) := purgePhase1 batchSize w.cat
      let phase := if batch.isEmpty then .finished else .deleting batch
      some { w.commit cat with
        purges := Function.update w.purges j phase
        moved := Function.update (w.commit cat).moved j fun _ => false }
    | _ => none
  | .returned j =>
    match w.purges j with
    | .deleting batch =>
      some { w.commit (orUnchanged w.cat (purgePhase2 (batch.map Prod.fst) w.cat)) with
        purges := Function.update w.purges j .finished }
    | _ => none
  | .raised j =>
    match w.purges j with
    | .deleting batch =>
      some { w.commit (purgeRevert (batch.map Prod.fst) w.cat) with
        purges := Function.update w.purges j .finished }
    | _ => none
  | .other op => some (w.commit (apply w.cat op))

/-! ### What a second phase is to do -/

/-- A second phase after a callback that has returned: it deletes rows of its batch that
are claimed and unreferenced and have not moved on, and changes nothing else. -/
structure Deletes (hashes : List String) (moved : String → Bool) (c c' : Catalog) : Prop where
  deleted : ∀ h r, c.chunkPool.find? h = some r → c'.chunkPool.find? h = none →
    h ∈ hashes ∧ r.state = .purgingS3 ∧ r.refCount = 0 ∧ moved h = false
  others : ∀ h, c'.chunkPool.find? h = none ∨ c'.chunkPool.find? h = c.chunkPool.find? h
  snapshotChunks : c'.snapshotChunks = c.snapshotChunks
  snapshots : c'.snapshots = c.snapshots

/-- A second phase after a callback that has raised: it sets rows of its batch that are
claimed to `PENDING_DELETE`, and changes nothing else. -/
structure Reverts (hashes : List String) (c c' : Catalog) : Prop where
  rows : ∀ h, c'.chunkPool.find? h = c.chunkPool.find? h ∨ ∃ r, h ∈ hashes ∧
    c.chunkPool.find? h = some r ∧ r.state = .purgingS3 ∧
    c'.chunkPool.find? h = some { r with state := .pendingDelete }
  snapshotChunks : c'.snapshotChunks = c.snapshotChunks
  snapshots : c'.snapshots = c.snapshots

/-- The second phases do what they are to do. -/
def Keeps (w : World) (e : Event) (w' : World) : Prop :=
  match e with
  | .returned j => ∀ batch, w.purges j = .deleting batch →
      Deletes (batch.map Prod.fst) (w.moved j) w.cat w'.cat
  | .raised j => ∀ batch, w.purges j = .deleting batch →
      Reverts (batch.map Prod.fst) w.cat w'.cat
  | _ => True

/-- No row of the batch that has moved on since its claim is claimed again when the
callback returns. -/
def NotTakenOver (w : World) (e : Event) : Prop :=
  match e with
  | .returned j => ∀ batch, w.purges j = .deleting batch → ∀ h ∈ batch.map Prod.fst,
      w.moved j h = true → ∀ r, w.cat.chunkPool.find? h = some r →
        ¬ (r.state = .purgingS3 ∧ r.refCount = 0)
  | _ => True

variable {w w' : World} {e : Event} {c c' : Catalog} {hashes : List String} {h : String}

/-- **One step keeps the counts right.** -/
theorem refCountInv_step (hw : RefCountInv w.cat) (hs : step w e = some w') :
    RefCountInv w'.cat := by
  cases e with
  | claim j n =>
    simp only [step] at hs
    split at hs
    · obtain rfl := Option.some.inj hs
      exact hw.purgePhase1 n
    · cases hs
  | returned j =>
    simp only [step] at hs
    split at hs
    · obtain rfl := Option.some.inj hs
      exact hw.orUnchanged fun _ hok => hw.purgePhase2 hok
    · cases hs
  | raised j =>
    simp only [step] at hs
    split at hs
    · obtain rfl := Option.some.inj hs
      exact hw.purgeRevert _
    · cases hs
  | other op =>
    obtain rfl := Option.some.inj hs
    exact refCountInv_apply hw op

/-- The rows that phase 2 deletes. -/
theorem purgePhase2_deletes (hok : purgePhase2 hashes c = .ok c') {r : ChunkPool}
    (hr : c.chunkPool.find? h = some r) : c'.chunkPool.find? h = none ↔
      h ∈ hashes ∧ r.state = .purgingS3 ∧ r.refCount = 0 := by
  rw [(purgePhase2_ok hok).1, hr]
  by_cases hmem : h ∈ hashes
  · simp [hmem, Option.filter_some, kept]
  · simp [hmem]

/-- **A second phase after a failed call** only puts back what is claimed. -/
theorem reverts_purgeRevert (hashes : List String) (c : Catalog) :
    Reverts hashes c (purgeRevert hashes c) := by
  obtain ⟨hfind, hlinks, hsnaps⟩ := purgeRevert_spec hashes c
  refine ⟨fun h => ?_, hlinks, hsnaps⟩
  rw [hfind]
  cases hr : c.chunkPool.find? h with
  | none => simp
  | some r =>
    by_cases hmem : h ∈ hashes
    · by_cases hst : r.state = .purgingS3
      · exact .inr ⟨r, hmem, rfl, hst, by simp [hmem, reverted, hst, setState]⟩
      · exact .inl (by simp [hmem, reverted, hst])
    · exact .inl (by simp [hmem])

/-- **A second phase that takes over no claim** deletes what it is to delete. -/
theorem deletes_purgePhase2 {moved : String → Bool} (hok : purgePhase2 hashes c = .ok c')
    (hmoved : ∀ h ∈ hashes, moved h = true → ∀ r, c.chunkPool.find? h = some r →
      ¬ (r.state = .purgingS3 ∧ r.refCount = 0)) : Deletes hashes moved c c' := by
  obtain ⟨hfind, hlinks, hsnaps⟩ := purgePhase2_ok hok
  refine ⟨fun h r hr hgone => ?_, fun h => ?_, hlinks, hsnaps⟩
  · obtain ⟨hmem, hst, href⟩ := (purgePhase2_deletes hok hr).1 hgone
    refine ⟨hmem, hst, href, ?_⟩
    by_contra hm
    exact hmoved h hmem (by simpa using hm) r hr ⟨hst, href⟩
  · rw [hfind]
    cases c.chunkPool.find? h with
    | none => simp
    | some r =>
      split_ifs
      · by_cases hk : kept r = true
        · exact .inr (by simp [Option.filter_some, hk])
        · exact .inl (by simp [Option.filter_some, hk])
      · exact .inr rfl

/-- **One step that takes over no claim** is as it is to be. -/
theorem keeps_of_notTakenOver (hw : RefCountInv w.cat) (hs : step w e = some w')
    (hok : NotTakenOver w e) : Keeps w e w' := by
  cases e with
  | claim j n => trivial
  | other op => trivial
  | returned j =>
    intro batch hj
    obtain ⟨c', hc'⟩ := purgePhase2_isOk hw (batch.map Prod.fst)
    simp only [step, hj, hc', orUnchanged] at hs
    obtain rfl := Option.some.inj hs
    exact deletes_purgePhase2 hc' (hok batch hj)
  | raised j =>
    intro batch hj
    simp only [step, hj] at hs
    obtain rfl := Option.some.inj hs
    exact reverts_purgeRevert _ _

/-- **Exactly when the second phases do what they are to do**, in any interleaving: when
none of them finds a row of its batch that has moved on since its claim and has been
claimed again. -/
theorem overlap_iff (es : List Event) :
    AllMoves step Keeps World.init es ↔ AllSteps step NotTakenOver World.init es := by
  refine allMoves_iff_allSteps (I := fun w => RefCountInv w.cat) ?_ ?_ RefCountInv.empty es
  · exact fun w e w' hw hs hok => ⟨keeps_of_notTakenOver hw hs hok, refCountInv_step hw hs⟩
  · intro w e w' hw hs hok hkeeps
    cases e with
    | claim j n => exact hok trivial
    | raised j => exact hok trivial
    | other op => exact hok trivial
    | returned j =>
      refine hok fun batch hj h hmem hmoved r hr hclaimed => ?_
      obtain ⟨c', hc'⟩ := purgePhase2_isOk hw (batch.map Prod.fst)
      simp only [step, hj, hc', orUnchanged] at hs
      obtain rfl := Option.some.inj hs
      have hgone : c'.chunkPool.find? h = none :=
        (purgePhase2_deletes hc' hr).2 ⟨hmem, hclaimed.1, hclaimed.2⟩
      have hstays := ((hkeeps batch hj).deleted h r hr hgone).2.2.2
      rw [hmoved] at hstays
      cases hstays

/-- A snapshot with one block, and what it takes to unlink it again. -/
def linkedAndUnlinked (id : String) : List Event :=
  [.other (.insertSnapshot (runningSnapshot id)), .other (.dbCheckAndPrepare "ab" 30 0),
    .other (.saveChunkRef id 0 "ab" 1), .other (.deleteLink id 0 2)]

/-- A purge claims the chunk of a snapshot that is gone.  While S3 deletes its object, another
snapshot links it, is unlinked, and another purge claims it. -/
def takenOver : List Event :=
  linkedAndUnlinked "snap-1" ++ .claim 0 500 :: linkedAndUnlinked "snap-2" ++ [.claim 1 500]

/-- **A second phase takes the claim of another purge for its own**: the first purge deletes
the row, which was linked in between, while the other one has yet to delete the object. -/
theorem not_keeps_takenOver : ¬ AllMoves step Keeps World.init (takenOver ++ [.returned 0]) := by
  intro h
  obtain ⟨w, hw, hbefore⟩ := Option.map_eq_some_iff.1 (show (exec step World.init takenOver).map
      (fun w => (w.purges 0, w.cat.chunkPool.find? "ab" |>.isSome, w.moved 0 "ab")) =
    some (.deleting [("ab", "chunks/ab.bin")], true, true) by decide +kernel)
  obtain ⟨w', hw', hgone⟩ := Option.map_eq_some_iff.1 (show (exec step World.init
      (takenOver ++ [.returned 0])).map (fun w => w.cat.chunkPool.find? "ab") = some none by
    decide +kernel)
  obtain ⟨hphase, hrest⟩ := Prod.mk.inj hbefore
  obtain ⟨hrow, hmoved⟩ := Prod.mk.inj hrest
  obtain ⟨r, hr⟩ := Option.isSome_iff_exists.1 hrow
  have hkeeps := h.of_exec hw (step_of_exec hw hw') _ hphase
  have hstays := (hkeeps.deleted "ab" r hr hgone).2.2.2
  rw [hmoved] at hstays
  cases hstays

/-! ### Where a second claim comes from -/

/-- A transaction that claims no other chunks than these. -/
def ClaimsOnly (hashes : List String) (c c' : Catalog) : Prop :=
  ∀ h r', c'.chunkPool.find? h = some r' → r'.state = .purgingS3 →
    h ∈ hashes ∨ ∃ r, c.chunkPool.find? h = some r ∧ r.state = .purgingS3

namespace ClaimsOnly

theorem of_find? (h : ∀ k r', c'.chunkPool.find? k = some r' → r'.state = .purgingS3 →
    c.chunkPool.find? k = some r') : ClaimsOnly hashes c c' :=
  fun k r' hr' hs => .inr ⟨r', h k r' hr' hs, hs⟩

theorem of_eq (h : c'.chunkPool = c.chunkPool) : ClaimsOnly hashes c c' :=
  .of_find? fun _ _ hr' _ => h ▸ hr'

theorem of_rowsFrom {st : ChunkState} (h : RowsFrom st c c') (hst : st ≠ .purgingS3) :
    ClaimsOnly hashes c c' := by
  intro k r' hr' hs
  obtain ⟨r, hr, -, hst' | hsame⟩ := h k r' hr'
  · exact absurd (hst'.symm.trans hs) hst
  · exact .inr ⟨r, hr, hsame ▸ hs⟩

/-- A refused statement claims nothing. -/
theorem orUnchanged {result : Except DbError Catalog}
    (h : ∀ c', result = .ok c' → ClaimsOnly hashes c c') :
    ClaimsOnly hashes c (Catalog.orUnchanged c result) := by
  cases result with
  | error _ => exact .of_eq rfl
  | ok c' => exact h c' rfl

theorem trans {c'' : Catalog} (h : ClaimsOnly [] c c') (h' : ClaimsOnly [] c' c'') :
    ClaimsOnly [] c c'' := by
  intro k r'' hr'' hs
  obtain hmem | ⟨r', hr', hs'⟩ := h' k r'' hr'' hs
  · cases hmem
  · exact h k r' hr' hs'

theorem mono (h : ClaimsOnly [] c c') : ClaimsOnly hashes c c' :=
  fun k r' hr' hs => .inr ((h k r' hr' hs).resolve_left List.not_mem_nil)

theorem deleteSnapshotChunks (now : Time) (p : SnapshotChunk → Bool) (c : Catalog) :
    ClaimsOnly [] c (Catalog.deleteSnapshotChunks now p c) := by
  unfold Catalog.deleteSnapshotChunks
  generalize c.snapshotChunks.rows.filter p = ls
  induction ls generalizing c with
  | nil => exact .of_eq rfl
  | cons l ls ih =>
    have hone : ClaimsOnly [] c (deleteSnapshotChunk now c l) :=
      .of_rowsFrom (RowsFrom.deleteSnapshotChunk now c l) (by decide)
    exact hone.trans (ih _)

theorem deleteSnapshot {now : Time} {id : String}
    (hok : Catalog.deleteSnapshot now id c = .ok c') : ClaimsOnly [] c c' := by
  unfold Catalog.deleteSnapshot at hok
  split at hok
  · exact Except.ok.inj hok ▸ .of_eq rfl
  · split at hok
    · cases hok
    · obtain rfl := Except.ok.inj hok
      exact ClaimsOnly.deleteSnapshotChunks now _ c

theorem dbCheckAndPrepare {now : Time} {n : ℤ} {key : String} {up : Bool}
    (hok : Catalog.dbCheckAndPrepare now h n c = .ok (c', key, up)) : ClaimsOnly [] c c' := by
  obtain ⟨⟨r, hr, -, hcase⟩, hother, -⟩ := dbCheckAndPrepare_ok hok
  refine .of_find? fun k r' hr' hs => ?_
  by_cases hk : k = h
  · obtain rfl : r = r' := Option.some.inj (hr.symm.trans (hk ▸ hr'))
    rcases hcase with ⟨-, rfl, -⟩ | ⟨r₀, -, rfl, -⟩
    · cases hs
    · unfold reactivate at hs
      split_ifs at hs with hst
      exact absurd (.inr hs) hst
  · exact hother k hk ▸ hr'

theorem purgePhase1 (n : ℕ) (c : Catalog) :
    ClaimsOnly ((Catalog.purgePhase1 n c).1.map Prod.fst) c (Catalog.purgePhase1 n c).2 := by
  intro k r' hr' hs
  rw [(purgePhase1_spec n c).2.1] at hr'
  split_ifs at hr' with hmem
  · exact .inl hmem
  · exact .inr ⟨r', hr', hs⟩

theorem purgePhase2 (hok : Catalog.purgePhase2 hashes c = .ok c') : ClaimsOnly [] c c' := by
  refine .of_find? fun k r' hr' _ => ?_
  rw [(purgePhase2_ok hok).1] at hr'
  split_ifs at hr'
  · exact (Option.filter_eq_some_iff.1 hr').1
  · exact hr'

theorem purgeRevert (hashes : List String) (c : Catalog) :
    ClaimsOnly [] c (Catalog.purgeRevert hashes c) := by
  intro k r' hr' hs
  rcases (reverts_purgeRevert hashes c).rows k with hsame | ⟨r, -, -, -, hreverted⟩
  · exact .inr ⟨r', hsame ▸ hr', hs⟩
  · rw [hreverted] at hr'
    rw [← Option.some.inj hr'] at hs
    cases hs

end ClaimsOnly

/-- The chunks that a transaction claims. -/
def claimedBy (c : Catalog) : CatalogOp → List String
  | .purgePhase1 n => (purgePhase1 n c).1.map Prod.fst
  | _ => []

/-- **A chunk is claimed by a first phase** and by no other transaction. -/
theorem claimsOnly_apply (c : Catalog) (op : CatalogOp) :
    ClaimsOnly (claimedBy c op) c (apply c op) := by
  cases op with
  | insertSnapshot s => exact .orUnchanged fun c' h => .of_eq (insertSnapshot_ok h).2.2.1
  | setEstado id estado => exact .of_eq rfl
  | insertChunk hash key size now =>
    refine .orUnchanged fun c' h => .of_find? fun k r' hr' hs => ?_
    rw [(insertChunkPool_ok h).2.1] at hr'
    split_ifs at hr'
    · rw [← Option.some.inj hr'] at hs
      cases hs
    · exact hr'
  | dbCheckAndPrepare hash n now =>
    refine .orUnchanged fun c' h => ?_
    cases hp : dbCheckAndPrepare now hash n c with
    | error e =>
      rw [hp] at h
      cases h
    | ok t =>
      obtain ⟨c₁, key, up⟩ := t
      rw [hp] at h
      obtain rfl : c₁ = c' := Except.ok.inj h
      exact ClaimsOnly.dbCheckAndPrepare hp
  | saveChunkRef id seq hash now =>
    exact .orUnchanged fun c' h => .of_rowsFrom (RowsFrom.insertSnapshotChunk h) (by decide)
  | deleteLink id seq now => exact .deleteSnapshotChunks now _ c
  | deleteLinks p now => exact .deleteSnapshotChunks now p c
  | deleteSnapshot id now =>
    exact .orUnchanged fun c' h => .deleteSnapshot h
  | purgePhase1 n => exact .purgePhase1 n c
  | purgePhase2 hs => exact .orUnchanged fun c' h => .purgePhase2 h
  | purgeRevert hs => exact .purgeRevert hs c
  | deleteChunks p =>
    refine .orUnchanged fun c' h => .of_find? fun k r' hr' _ => ?_
    rw [(deleteChunkPool_ok h).1] at hr'
    exact (Option.filter_eq_some_iff.1 hr').1
  | updateChunkPayload p =>
    refine .orUnchanged fun c' h => ?_
    unfold updateChunkPoolPayload at h
    split_ifs at h
    exact Except.ok.inj h ▸ .of_eq rfl
  | updateLinks p =>
    refine .orUnchanged fun c' h => ?_
    unfold updateSnapshotChunks at h
    split_ifs at h
    exact Except.ok.inj h ▸ .of_eq rfl

/-- The chunks that a step claims. -/
def claimedNow (w : World) : Event → List String
  | .claim _ n => claimedBy w.cat (.purgePhase1 n)
  | .other op => claimedBy w.cat op
  | _ => []

/-- A first phase claims no chunk that has moved on while another purge with it in its batch
waits for S3. -/
def ClaimsFresh (w : World) (e : Event) : Prop :=
  ∀ h ∈ claimedNow w e, ∀ j batch, w.purges j = .deleting batch → h ∈ batch.map Prod.fst →
    w.moved j h = false

/-- No chunk that has moved on while its purge waits is claimed. -/
def Fresh (w : World) : Prop :=
  ∀ j batch, w.purges j = .deleting batch → ∀ h ∈ batch.map Prod.fst, w.moved j h = true →
    ∀ r, w.cat.chunkPool.find? h = some r → r.state ≠ .purgingS3

theorem fresh_init : Fresh World.init := fun _ _ hj => nomatch hj

/-- A linked chunk is not claimed. -/
theorem ne_purgingS3_of_relinked (hc : RefCountInv c') (hlinked : relinked c c' h = true)
    {r : ChunkPool} (hr : c'.chunkPool.find? h = some r) : r.state ≠ .purgingS3 := by
  have hrow : RowOk r (c'.linkCount h) := by
    have hcell := hc h
    rwa [hr] at hcell
  have hlinks : 0 < c'.linkCount h := Nat.zero_lt_of_lt (of_decide_eq_true hlinked)
  rw [hrow.active hlinks]
  decide

/-- **One transaction.** -/
theorem Fresh.commit (hw : Fresh w) (hc : RefCountInv c) (honly : ClaimsOnly hashes w.cat c)
    (hfresh : ∀ h ∈ hashes, ∀ j batch, w.purges j = .deleting batch → h ∈ batch.map Prod.fst →
      w.moved j h = false) : Fresh (w.commit c) := by
  intro j batch hj h hmem hmoved r hr hs
  have hcauses : (w.moved j h = true ∨ reactivated w.cat c h = true) ∨
      relinked w.cat c h = true := by
    simpa [World.commit] using hmoved
  rcases hcauses with (hbefore | hreactivated) | hlinked
  · rcases honly h r hr hs with hclaimed | ⟨r₀, hr₀, hs₀⟩
    · rw [hfresh h hclaimed j batch hj hmem] at hbefore
      cases hbefore
    · exact hw j batch hj h hmem hbefore r₀ hr₀ hs₀
  · have hactive : r.state = .active := by
      unfold reactivated at hreactivated
      rw [show c.chunkPool.find? h = some r from hr] at hreactivated
      cases hr₀ : w.cat.chunkPool.find? h with
      | none => simp [hr₀] at hreactivated
      | some r₀ =>
        simp only [hr₀, decide_eq_true_eq] at hreactivated
        exact hreactivated.2
    rw [hactive] at hs
    cases hs
  · exact ne_purgingS3_of_relinked hc hlinked hr hs

/-- A purge that is not waiting. -/
theorem Fresh.finish (hw : Fresh w) (j : ℕ) :
    Fresh { w with purges := Function.update w.purges j .finished } := by
  intro k batch hk
  by_cases hkj : k = j
  · subst hkj
    simp at hk
  · exact hw k batch (by simpa [hkj] using hk)

/-- **One step that claims no chunk of a waiting purge which has moved on.** -/
theorem Fresh.step (hw : Fresh w) (hc : RefCountInv w.cat) (hok : ClaimsFresh w e)
    (hs : step w e = some w') : Fresh w' := by
  have hc' := refCountInv_step hc hs
  cases e with
  | claim j n =>
    simp only [Overlap.step] at hs
    split at hs
    · obtain rfl := Option.some.inj hs
      have hcommit : Fresh (w.commit (purgePhase1 n w.cat).2) :=
        hw.commit hc' (.purgePhase1 n w.cat) hok
      intro k batch hk h hmem hmoved
      by_cases hkj : k = j
      · subst hkj
        simp at hmoved
      · exact hcommit k batch (by simpa [hkj, World.commit] using hk) h hmem
          (by simpa [hkj] using hmoved)
    · cases hs
  | returned j =>
    simp only [Overlap.step] at hs
    split at hs
    · obtain rfl := Option.some.inj hs
      exact (hw.commit hc' (.orUnchanged fun _ h => .purgePhase2 h) (by simp)).finish j
    · cases hs
  | raised j =>
    simp only [Overlap.step] at hs
    split at hs
    · obtain rfl := Option.some.inj hs
      exact (hw.commit hc' (.purgeRevert _ _) (by simp)).finish j
    · cases hs
  | other op =>
    obtain rfl := Option.some.inj hs
    exact hw.commit hc' (claimsOnly_apply w.cat op) hok

/-- **Purges whose claims do not meet** do what they are to do. -/
theorem keeps_of_claimsFresh {es : List Event} (h : AllSteps step ClaimsFresh World.init es) :
    AllMoves step Keeps World.init es := by
  refine h.allMoves (I := fun w => RefCountInv w.cat ∧ Fresh w) ?_ ⟨RefCountInv.empty, fresh_init⟩
  rintro w e w' ⟨hc, hfresh⟩ hs hok
  refine ⟨keeps_of_notTakenOver hc hs ?_, refCountInv_step hc hs, hfresh.step hc hok hs⟩
  cases e with
  | returned j =>
    exact fun batch hj h hmem hmoved r hr hclaimed =>
      hfresh j batch hj h hmem hmoved r hr hclaimed.1
  | _ => trivial

end Overlap
end Boveda

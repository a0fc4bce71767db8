/-
# Uploads and purges side by side, when calls fail

The machine of `Boveda.Catalog.Interleaving`, in which now every call may fail, on its own
and at any point: either transaction of an `upload_callback` and its `put_object`, and the
`delete_objects` of a purge, which then reverts its batch in a transaction of its own
(`execute_two_phase_purge`, `src/boveda/retention.py`).

Whether a link can dangle is then a matter of the hashes alone (`noDangling_iff`).  As long
as no two uploads are called with one hash, nothing that is interleaved and nothing that
fails leaves a link without its object; two uploads with one hash are enough for a link that
dangles, even when nothing fails.

What carries the first half is `Inv`.  A hash belongs to the upload that was called with it,
and while this upload is under way the row of the hash is `ACTIVE` and has no link; so no
purge selects it.
-/

import Boveda.Catalog.History
import Boveda.Catalog.Interleaving

namespace Boveda
namespace Faults

open Lib Catalog

/-- The catalog, the bucket, every upload and purge, and for each purge whose
`delete_objects` has raised the hashes that it has still to revert. -/
structure World extends Catalog.World where
  reverting : ℕ → List String

/-- Nothing has happened. -/
def World.init : World := ⟨.init, fun _ => []⟩

/-- The steps of backups and retention runs, and their failures. -/
inductive Event
  | base (e : Catalog.Event)
  /-- `_db_check_and_prepare` raises. -/
  | prepareRaises (i : ℕ) (call : Call)
  | putRaises (i : ℕ) (stored : Bool)
  /-- `_save_chunk_ref` raises, for a reason of its own. -/
  | linkRaises (i : ℕ)
  | deleteRaises (j : ℕ) (removed : List String)
  | revert (j : ℕ)

/-- One step, `none` when it is not the turn of its upload or purge. -/
def step (w : World) : Event → Option World
  | .base e => (Catalog.step w.toWorld e).map fun b => { w with toWorld := b }
  | .prepareRaises i call =>
    match w.uploads i with
    | .idle => some { w with uploads := Function.update w.uploads i (.raised call) }
    | _ => none
  | .putRaises i stored =>
    match w.uploads i with
    | .putting call storageKey =>
      some { w with
        s3 := (uploadToS3 (.raises stored) storageKey call.payload w.s3).1
        uploads := Function.update w.uploads i (.raised call) }
    | _ => none
  | .linkRaises i =>
    match w.uploads i with
    | .linking call => some { w with uploads := Function.update w.uploads i (.raised call) }
    | _ => none
  | .deleteRaises j removed =>
    match w.purges j with
    | .deleting batch =>
      some { w with
        s3 := (deleteObjectsS3 (.raises removed) (batch.map Prod.snd) w.s3).1
        purges := Function.update w.purges j .finished
        reverting := Function.update w.reverting j (batch.map Prod.fst) }
    | _ => none
  | .revert j =>
    match w.reverting j with
    | [] => none
    | hashes =>
      some { w with
        cat := purgeRevert hashes w.cat
        reverting := Function.update w.reverting j [] }

/-- The call of an upload that has begun. -/
def call? : UploadPc → Option Call
  | .idle => none
  | .putting call _ | .linking call | .returned call | .raised call => some call

/-- The `snapshot_chunks` row of a call. -/
def linkOf (call : Call) : SnapshotChunk := ⟨call.snapshotId, call.seq, call.cHash⟩

/-- No upload has been called with the hash. -/
def Unused (uploads : ℕ → UploadPc) (h : String) : Prop :=
  ∀ i call, call? (uploads i) = some call → call.cHash ≠ h

/-- The upload that begins, and its call. -/
def Event.begins : Event → Option (ℕ × Call)
  | .base (.prepare i call _) | .prepareRaises i call => some (i, call)
  | _ => none

/-- The upload that the event is about. -/
def Event.upload? : Event → Option ℕ
  | .base (.prepare i ..) | .base (.put i) | .base (.link i _) | .prepareRaises i _
  | .putRaises i _ | .linkRaises i => some i
  | _ => none

/-- An upload is called with a hash that no upload has been called with. -/
def Distinct (w : World) (e : Event) : Prop :=
  ∀ i call, e.begins = some (i, call) → Unused w.uploads call.cHash

/-- The uploads are called with these arguments. -/
def Follows (calls : ℕ → Call) (_ : World) (e : Event) : Prop :=
  ∀ i call, e.begins = some (i, call) → call = calls i

/-! ### What retention leaves -/

/-- What a transaction that is not one of an upload leaves: no row and no link is new, and a
row that is `ACTIVE` and has no link stays. -/
structure Retains (c c' : Catalog) : Prop where
  coherent : RefCountInv c'
  rows : ∀ h r, c'.chunkPool.find? h = some r →
    ∃ r₀, c.chunkPool.find? h = some r₀ ∧ r.storageKey = r₀.storageKey
  active : ∀ h r, c.chunkPool.find? h = some r → r.state = .active → c.linkCount h = 0 →
    ∃ r', c'.chunkPool.find? h = some r' ∧ r'.state = .active
  links : ∀ l ∈ c'.snapshotChunks.rows, l ∈ c.snapshotChunks.rows

namespace Retains

variable {c c' c'' : Catalog}

theorem trans (h : Retains c c') (h' : Retains c' c'') : Retains c c'' where
  coherent := h'.coherent
  rows k r hr := by
    obtain ⟨r₁, hr₁, hkey₁⟩ := h'.rows k r hr
    obtain ⟨r₀, hr₀, hkey₀⟩ := h.rows k r₁ hr₁
    exact ⟨r₀, hr₀, hkey₁.trans hkey₀⟩
  active k r hr hact hlinks := by
    obtain ⟨r₁, hr₁, hact₁⟩ := h.active k r hr hact hlinks
    refine h'.active k r₁ hr₁ hact₁ (linkCount_eq_zero.2 fun l hl => ?_)
    exact linkCount_eq_zero.1 hlinks l (h.links l hl)
  links l hl := h.links l (h'.links l hl)

theorem linkCount_eq_zero (h : Retains c c') {k : String} (hlinks : c.linkCount k = 0) :
    c'.linkCount k = 0 :=
  Catalog.linkCount_eq_zero.2 fun l hl => Catalog.linkCount_eq_zero.1 hlinks l (h.links l hl)

/-- A transaction that changes neither `chunk_pool` nor the links. -/
theorem frame (hc : RefCountInv c) (hp : c'.chunkPool = c.chunkPool)
    (hl : c'.snapshotChunks = c.snapshotChunks) : Retains c c' where
  coherent := hc.frame hp hl
  rows _ r hr := ⟨r, hp ▸ hr, rfl⟩
  active _ r hr hact _ := ⟨r, hp ▸ hr, hact⟩
  links _ hmem := hl ▸ hmem

/-- The unlinking of a snapshot, one link after the other. -/
theorem deleteSnapshotChunk (hc : RefCountInv c) (now : Time) {l : SnapshotChunk}
    (hl : l ∈ c.snapshotChunks.rows) : Retains c (Catalog.deleteSnapshotChunk now c l) where
  coherent := hc.deleteSnapshotChunk now hl
  rows _ r hr := (RowsFrom.deleteSnapshotChunk now c l _ r hr).imp fun _ h => ⟨h.1, h.2.1⟩
  active k r hr hact hlinks := by
    have hne : l.chunkHash ≠ k := Catalog.linkCount_eq_zero.1 hlinks l hl
    exact ⟨r, by rw [find?_deleteSnapshotChunk, if_neg hne, hr], hact⟩
  links a ha := (Table.mem_delete.1 ha).1

theorem deleteSnapshotChunks (hc : RefCountInv c) (now : Time) (p : SnapshotChunk → Bool) :
    Retains c (Catalog.deleteSnapshotChunks now p c) :=
  foldl_deleteSnapshotChunk (I := Retains c)
    (fun _ _ hl h => h.trans (.deleteSnapshotChunk h.coherent now hl)) _ c
    (nodup_filter_pk c p) (fun _ hl => (List.mem_filter.1 hl).1) (.frame hc rfl rfl)

theorem purgeSnapshot (hc : RefCountInv c) {now : Time} {id : String}
    (h : Catalog.purgeSnapshot now id c = .ok c') : Retains c c' := by
  unfold Catalog.purgeSnapshot deleteSnapshot at h
  have h₁ := Retains.deleteSnapshotChunks hc now fun l => l.snapshotId = id
  split at h
  · exact Except.ok.inj h ▸ h₁
  · split at h
    · cases h
    · obtain rfl := Except.ok.inj h
      have h₂ := h₁.trans (.deleteSnapshotChunks h₁.coherent now fun l => l.snapshotId = id)
      exact h₂.trans (.frame h₂.coherent rfl rfl)

/-- **The first transaction of a purge** selects no row that is `ACTIVE`. -/
theorem purgePhase1 (hc : RefCountInv c) (n : ℕ) : Retains c (Catalog.purgePhase1 n c).2 := by
  obtain ⟨hbatch, hfind, hlinks, -⟩ := purgePhase1_spec n c
  refine ⟨hc.purgePhase1 n, fun k r hr => (RowsFrom.purgePhase1 n c k r hr).imp fun _ h =>
    ⟨h.1, h.2.1⟩, fun k r hr hact _ => ⟨r, ?_, hact⟩, fun l hl => hlinks ▸ hl⟩
  rw [hfind, if_neg, hr]
  intro hmem
  obtain ⟨⟨h, key⟩, he, rfl⟩ := List.mem_map.1 hmem
  obtain ⟨r', hr', -, -, hst⟩ := hbatch h key he
  rw [Option.some.inj (hr.symm.trans hr'), hst] at hact
  cases hact

/-- The second transaction takes off no row that is `ACTIVE`. -/
theorem purgePhase2 (hc : RefCountInv c) {hs : List String}
    (h : Catalog.purgePhase2 hs c = .ok c') : Retains c c' := by
  obtain ⟨hfind, hlinks, -⟩ := purgePhase2_ok h
  refine ⟨hc.purgePhase2 h, fun k r hr => (RowsFrom.purgePhase2 h k r hr).imp fun _ h =>
    ⟨h.1, h.2.1⟩, fun k r hr hact _ => ⟨r, ?_, hact⟩, fun l hl => hlinks ▸ hl⟩
  have hkept : kept r = true := by simp [kept, hact]
  rw [hfind, hr, Option.filter_some, if_pos hkept, ite_self]

/-- The reversion changes no row that is `ACTIVE`. -/
theorem purgeRevert (hc : RefCountInv c) (hs : List String) :
    Retains c (Catalog.purgeRevert hs c) := by
  obtain ⟨hfind, hlinks, -⟩ := purgeRevert_spec hs c
  refine ⟨hc.purgeRevert hs, fun k r hr => ?_, fun k r hr hact _ => ⟨r, ?_, hact⟩,
    fun l hl => hlinks ▸ hl⟩
  · rw [hfind] at hr
    split_ifs at hr
    · obtain ⟨r₀, hr₀, rfl⟩ := Option.map_eq_some_iff.1 hr
      refine ⟨r₀, hr₀, ?_⟩
      unfold reverted
      split_ifs <;> rfl
    · exact ⟨r, hr, rfl⟩
  · have hsame : reverted r = r := if_neg (by simp [hact])
    rw [hfind, hr, Option.map_some, hsame, ite_self]

theorem orUnchanged (hc : RefCountInv c) {r : Except DbError Catalog}
    (h : ∀ c', r = .ok c' → Retains c c') : Retains c (Catalog.orUnchanged c r) := by
  cases r with
  | error e => exact .frame hc rfl rfl
  | ok c' => exact h c' rfl

end Retains

/-! ### The invariant -/

/-- An upload that is over. -/
def Over : UploadPc → Prop
  | .returned _ | .raised _ => True
  | _ => False

/-- What holds as long as no two uploads are called with one hash. -/
structure Inv (cat : Catalog) (s3 : ObjectStore) (uploads : ℕ → UploadPc) (purges : ℕ → PurgePc) :
    Prop where
  coherent : RefCountInv cat
  keys : ∀ h r, cat.chunkPool.find? h = some r → r.storageKey = storageKeyOf h
  owned : ∀ h r, cat.chunkPool.find? h = some r →
    ∃ i call, call? (uploads i) = some call ∧ call.cHash = h
  unique : ∀ i k call call', call? (uploads i) = some call → call? (uploads k) = some call' →
    call.cHash = call'.cHash → i = k
  linked : ∀ l ∈ cat.snapshotChunks.rows,
    ∃ i call, uploads i = .returned call ∧ l = linkOf call
  active : ∀ i call, (∃ key, uploads i = .putting call key) ∨ uploads i = .linking call →
    ∃ r, cat.chunkPool.find? call.cHash = some r ∧ r.state = .active
  putKey : ∀ i call key, uploads i = .putting call key → key = storageKeyOf call.cHash
  stored : ∀ i call, uploads i = .linking call ∨
    uploads i = .returned call ∧ 0 < cat.linkCount call.cHash →
      s3 (storageKeyOf call.cHash) = some call.payload
  deleting : ∀ j batch, purges j = .deleting batch → ∀ e ∈ batch,
    e.2 = storageKeyOf e.1 ∧ cat.linkCount e.1 = 0 ∧
      ∃ i call, call? (uploads i) = some call ∧ call.cHash = e.1 ∧ Over (uploads i)

theorem inv_init : Inv empty (fun _ => none) (fun _ => .idle) (fun _ => .idle) where
  coherent := RefCountInv.empty
  keys _ _ h := nomatch h
  owned _ _ h := nomatch h
  unique _ _ _ _ h := nomatch h
  linked _ h := nomatch h
  active _ _ h := by rcases h with ⟨_, h⟩ | h <;> cases h
  putKey _ _ _ h := nomatch h
  stored _ _ h := by rcases h with h | ⟨h, -⟩ <;> cases h
  deleting _ _ h := nomatch h

variable {cat c : Catalog} {s3 s3' : ObjectStore} {uploads : ℕ → UploadPc} {purges : ℕ → PurgePc}

/-- **No link dangles**, and its object is what its upload was given. -/
theorem Inv.noDangling (hw : Inv cat s3 uploads purges) :
    NoDangling ⟨cat, s3, uploads, purges⟩ := by
  intro l hl
  obtain ⟨i, call, hi, rfl⟩ := hw.linked l hl
  obtain ⟨r, n, hr, hn, -⟩ := hw.coherent.exists_row hl
  have hobject := hw.stored i call (.inr ⟨hi, by
    have hn : cat.linkCount call.cHash = n + 1 := hn
    omega⟩)
  exact ⟨r, hr, by rw [hw.keys _ r hr]; exact Option.isSome_iff_exists.2 ⟨_, hobject⟩⟩

/-- The links of a hash whose upload has not returned. -/
theorem Inv.linkCount_eq_zero (hw : Inv cat s3 uploads purges) {i : ℕ} {call : Call}
    (hi : call? (uploads i) = some call) (hne : uploads i ≠ .returned call) :
    cat.linkCount call.cHash = 0 := by
  refine Catalog.linkCount_eq_zero.2 fun l hl heq => ?_
  obtain ⟨k, call', hk, rfl⟩ := hw.linked l hl
  have hk' : call? (uploads k) = some call' := by rw [hk]; rfl
  obtain rfl := hw.unique k i call' call hk' hi heq
  rw [hk] at hi hne
  exact hne (congrArg UploadPc.returned (Option.some.inj hi))

/-- A hash that no upload has been called with has no row. -/
theorem Inv.find?_eq_none (hw : Inv cat s3 uploads purges) {h : String} (hnew : Unused uploads h) :
    cat.chunkPool.find? h = none := by
  refine Option.eq_none_iff_forall_ne_some.2 fun r hr => ?_
  obtain ⟨i, call, hi, rfl⟩ := hw.owned h r hr
  exact hnew i call hi rfl

/-- **A transaction of retention.** -/
theorem Inv.catalog (hw : Inv cat s3 uploads purges) {c : Catalog} (hc : Retains cat c) :
    Inv c s3 uploads purges where
  coherent := hc.coherent
  keys h r hr := by
    obtain ⟨r₀, hr₀, hkey⟩ := hc.rows h r hr
    exact hkey.trans (hw.keys h r₀ hr₀)
  owned h r hr := by
    obtain ⟨r₀, hr₀, -⟩ := hc.rows h r hr
    exact hw.owned h r₀ hr₀
  unique := hw.unique
  linked l hl := hw.linked l (hc.links l hl)
  active i call hi := by
    obtain ⟨r, hr, hact⟩ := hw.active i call hi
    refine hc.active _ r hr hact (hw.linkCount_eq_zero (i := i) ?_ ?_)
    · rcases hi with ⟨key, hi⟩ | hi <;> rw [hi] <;> rfl
    · rcases hi with ⟨key, hi⟩ | hi <;> rw [hi] <;> exact UploadPc.noConfusion
  putKey := hw.putKey
  stored i call hi := by
    refine hw.stored i call (hi.imp_right (And.imp_right fun hpos => ?_))
    by_contra hzero
    have := hc.linkCount_eq_zero (Nat.eq_zero_of_not_pos hzero)
    omega
  deleting j batch hj e he := by
    obtain ⟨hkey, hlinks, hown⟩ := hw.deleting j batch hj e he
    exact ⟨hkey, hc.linkCount_eq_zero hlinks, hown⟩

/-! ### One step of an upload -/

section Steps

variable {i : ℕ} {call : Call} {pc : UploadPc}

/-- The call of every upload, when one goes on with its own. -/
theorem call?_update (h : call? pc = call? (uploads i)) (k : ℕ) :
    call? (Function.update uploads i pc k) = call? (uploads k) := by
  rcases eq_or_ne k i with rfl | hne
  · rw [Function.update_self, h]
  · rw [Function.update_of_ne hne]

/-- The calls, when an upload begins. -/
theorem call?_begin (hpc : call? pc = some call) {k : ℕ} {call' : Call}
    (h : call? (Function.update uploads i pc k) = some call') :
    k = i ∧ call' = call ∨ k ≠ i ∧ call? (uploads k) = some call' := by
  rcases eq_or_ne k i with rfl | hne
  · rw [Function.update_self, hpc] at h
    exact .inl ⟨rfl, (Option.some.inj h).symm⟩
  · rw [Function.update_of_ne hne] at h
    exact .inr ⟨hne, h⟩

/-- **An upload begins**, with a hash that no upload has been called with: its row is new, or
it has raised at once. -/
theorem Inv.begins (hw : Inv cat s3 uploads purges) (hi : uploads i = .idle)
    (hnew : Unused uploads call.cHash)
    (hpc : call? pc = some call) (hcoherent : RefCountInv c)
    (hlinks : c.snapshotChunks = cat.snapshotChunks)
    (hrows : ∀ h, h ≠ call.cHash → c.chunkPool.find? h = cat.chunkPool.find? h)
    (hrow : ∀ r, c.chunkPool.find? call.cHash = some r →
      r.storageKey = storageKeyOf call.cHash ∧ r.state = .active)
    (hcase : (∃ r, c.chunkPool.find? call.cHash = some r) ∧
      pc = .putting call (storageKeyOf call.cHash) ∨ pc = .raised call) :
    Inv c s3 (Function.update uploads i pc) purges := by
  have hcount : ∀ h, c.linkCount h = cat.linkCount h := fun h => by
    rw [linkCount, linkCount, hlinks]
  -- an upload that had begun is another one, and its hash is another one
  have hother : ∀ {k call'}, call? (uploads k) = some call' → k ≠ i ∧ call'.cHash ≠ call.cHash :=
    fun {k call'} hk => ⟨fun he => (by rw [he, hi] at hk; cases hk), hnew k call' hk⟩
  have hkeep : ∀ {k call'}, call? (uploads k) = some call' →
      Function.update uploads i pc k = uploads k := fun hk =>
    Function.update_of_ne (hother hk).1 _ _
  refine ⟨hcoherent, fun h r hr => ?_, fun h r hr => ?_, fun k k' call' call'' hk hk' heq => ?_,
    fun l hl => ?_, fun k call' hk => ?_, fun k call' key hk => ?_, fun k call' hk => ?_,
    fun j batch hj e he => ?_⟩
  · by_cases hh : h = call.cHash
    · subst hh
      exact (hrow r hr).1
    · exact hw.keys h r ((hrows h hh).symm.trans hr)
  · by_cases hh : h = call.cHash
    · exact ⟨i, call, by rw [Function.update_self, hpc], hh.symm⟩
    · obtain ⟨k, call', hk, rfl⟩ := hw.owned h r ((hrows h hh).symm.trans hr)
      exact ⟨k, call', by rw [hkeep hk, hk], rfl⟩
  · rcases call?_begin hpc hk with ⟨rfl, rfl⟩ | ⟨-, hold⟩
    · rcases call?_begin hpc hk' with ⟨rfl, -⟩ | ⟨-, hold'⟩
      · rfl
      · exact absurd heq.symm (hother hold').2
    · rcases call?_begin hpc hk' with ⟨-, rfl⟩ | ⟨-, hold'⟩
      · exact absurd heq (hother hold).2
      · exact hw.unique k k' call' call'' hold hold' heq
  · obtain ⟨k, call', hk, rfl⟩ := hw.linked l (hlinks ▸ hl)
    have hcall : call? (uploads k) = some call' := by rw [hk]; rfl
    exact ⟨k, call', by rw [hkeep hcall, hk], rfl⟩
  · rcases eq_or_ne k i with rfl | hne
    · rw [Function.update_self] at hk
      rcases hcase with ⟨⟨r, hr⟩, rfl⟩ | rfl
      · rcases hk with ⟨key, hk⟩ | hk
        · obtain ⟨rfl, -⟩ := UploadPc.putting.inj hk
          exact ⟨r, hr, (hrow r hr).2⟩
        · cases hk
      · rcases hk with ⟨key, hk⟩ | hk <;> cases hk
    · rw [Function.update_of_ne hne] at hk
      obtain ⟨r, hr, hact⟩ := hw.active k call' hk
      refine ⟨r, (hrows _ ?_).trans hr, hact⟩
      rcases hk with ⟨key, hk⟩ | hk <;> exact hnew k call' (by rw [hk]; rfl)
  · rcases eq_or_ne k i with rfl | hne
    · rw [Function.update_self] at hk
      rcases hcase with ⟨-, rfl⟩ | rfl
      · obtain ⟨rfl, rfl⟩ := UploadPc.putting.inj hk
        rfl
      · cases hk
    · rw [Function.update_of_ne hne] at hk
      exact hw.putKey k call' key hk
  · rcases eq_or_ne k i with rfl | hne
    · rw [Function.update_self] at hk
      rcases hcase with ⟨-, rfl⟩ | rfl <;> rcases hk with hk | ⟨hk, -⟩ <;> cases hk
    · rw [Function.update_of_ne hne] at hk
      exact hw.stored k call' (hk.imp_right (And.imp_right fun hpos => (hcount _).symm ▸ hpos))
  · obtain ⟨hkey, hzero, k, call', hk, hhash, hover⟩ := hw.deleting j batch hj e he
    exact ⟨hkey, (hcount _).trans hzero, k, call', by rw [hkeep hk, hk], hhash,
      by rw [hkeep hk]; exact hover⟩

/-- **An upload that is under way goes on**, or raises: it may have written its own object. -/
theorem Inv.goes (hw : Inv cat s3 uploads purges) (hi : call? (uploads i) = some call)
    (hunder : ¬ Over (uploads i))
    (hcase : pc = .raised call ∨
      pc = .linking call ∧ s3' (storageKeyOf call.cHash) = some call.payload)
    (hs3 : ∀ key, key ≠ storageKeyOf call.cHash → s3' key = s3 key) :
    Inv cat s3' (Function.update uploads i pc) purges := by
  have hpc : call? pc = call? (uploads i) := by
    rcases hcase with rfl | ⟨rfl, -⟩ <;> exact hi.symm
  have hcalls := call?_update hpc
  have hkeep : ∀ {k}, Over (uploads k) → Function.update uploads i pc k = uploads k := by
    intro k hk
    refine Function.update_of_ne (fun he => hunder ?_) _ _
    rwa [he] at hk
  have hrow : ∃ r, cat.chunkPool.find? call.cHash = some r ∧ r.state = .active := by
    refine hw.active i call ?_
    cases hpc₀ : uploads i with
    | idle => rw [hpc₀] at hi; cases hi
    | putting call' key => rw [hpc₀] at hi; cases hi; exact .inl ⟨key, rfl⟩
    | linking call' => rw [hpc₀] at hi; cases hi; exact .inr rfl
    | returned call' => exact absurd (by rw [hpc₀]; trivial) hunder
    | raised call' => exact absurd (by rw [hpc₀]; trivial) hunder
  refine ⟨hw.coherent, hw.keys, fun h r hr => ?_, fun k k' call' call'' hk hk' heq => ?_,
    fun l hl => ?_, fun k call' hk => ?_, fun k call' key hk => ?_, fun k call' hk => ?_,
    fun j batch hj e he => ?_⟩
  · obtain ⟨k, call', hk, rfl⟩ := hw.owned h r hr
    exact ⟨k, call', (hcalls k).trans hk, rfl⟩
  · exact hw.unique k k' call' call'' ((hcalls k).symm.trans hk) ((hcalls k').symm.trans hk') heq
  · obtain ⟨k, call', hk, rfl⟩ := hw.linked l hl
    exact ⟨k, call', by rw [hkeep (by rw [hk]; trivial), hk], rfl⟩
  · rcases eq_or_ne k i with rfl | hne
    · rw [Function.update_self] at hk
      rcases hcase with rfl | ⟨rfl, -⟩ <;> rcases hk with ⟨key, hk⟩ | hk <;> cases hk
      exact hrow
    · rw [Function.update_of_ne hne] at hk
      exact hw.active k call' hk
  · rcases eq_or_ne k i with rfl | hne
    · rw [Function.update_self] at hk
      rcases hcase with rfl | ⟨rfl, -⟩ <;> cases hk
    · rw [Function.update_of_ne hne] at hk
      exact hw.putKey k call' key hk
  · rcases eq_or_ne k i with rfl | hne
    · rw [Function.update_self] at hk
      rcases hcase with rfl | ⟨rfl, hobject⟩ <;> rcases hk with hk | ⟨hk, -⟩ <;> cases hk
      exact hobject
    · rw [Function.update_of_ne hne] at hk
      refine (hs3 _ fun he => hne ?_).trans (hw.stored k call' hk)
      refine hw.unique k i call' call ?_ hi (storageKeyOf_injective he)
      rcases hk with hk | ⟨hk, -⟩ <;> rw [hk] <;> rfl
  · obtain ⟨hkey, hzero, k, call', hk, hhash, hover⟩ := hw.deleting j batch hj e he
    exact ⟨hkey, hzero, k, call', (hcalls k).trans hk, hhash, by rw [hkeep hover]; exact hover⟩

/-- **An upload returns**: its link is the first of its hash. -/
theorem Inv.link {now : Time} (hw : Inv cat s3 uploads purges) (hi : uploads i = .linking call)
    (h : saveChunkRef now call.snapshotId call.seq call.cHash cat = .ok c) :
    Inv c s3 (Function.update uploads i (.returned call)) purges := by
  obtain ⟨-, hfind, hcount, hmem, -⟩ := insertSnapshotChunk_ok h
  have hrows := RowsFrom.insertSnapshotChunk h
  have hi' : call? (uploads i) = some call := by rw [hi]; rfl
  have hcalls (k : ℕ) : call? (Function.update uploads i (.returned call) k) = call? (uploads k) :=
    call?_update (by rw [hi]; rfl) k
  have hkeep : ∀ {k}, Over (uploads k) →
      Function.update uploads i (.returned call) k = uploads k := by
    intro k hk
    refine Function.update_of_ne (fun he => ?_) _ _
    rw [he, hi] at hk
    exact hk
  -- the hash of another upload is another one
  have hother : ∀ {k call'}, k ≠ i → call? (uploads k) = some call' →
      call.cHash ≠ call'.cHash := fun {k call'} hne hk heq =>
    hne (hw.unique k i call' call hk hi' heq.symm)
  refine ⟨hw.coherent.insertSnapshotChunk h, hrows.keys hw.keys, fun h' r hr => ?_,
    fun k k' call' call'' hk hk' heq => ?_, fun l hl => ?_, fun k call' hk => ?_,
    fun k call' key hk => ?_, fun k call' hk => ?_, fun j batch hj e he => ?_⟩
  · obtain ⟨r₀, hr₀, -⟩ := hrows h' r hr
    obtain ⟨k, call', hk, rfl⟩ := hw.owned h' r₀ hr₀
    exact ⟨k, call', (hcalls k).trans hk, rfl⟩
  · exact hw.unique k k' call' call'' ((hcalls k).symm.trans hk) ((hcalls k').symm.trans hk') heq
  · rcases (hmem l).1 hl with hl | rfl
    · obtain ⟨k, call', hk, rfl⟩ := hw.linked l hl
      exact ⟨k, call', by rw [hkeep (by rw [hk]; trivial), hk], rfl⟩
    · exact ⟨i, call, Function.update_self .., rfl⟩
  · rcases eq_or_ne k i with rfl | hne
    · rw [Function.update_self] at hk
      rcases hk with ⟨key, hk⟩ | hk <;> cases hk
    · rw [Function.update_of_ne hne] at hk
      obtain ⟨r, hr, hact⟩ := hw.active k call' hk
      refine ⟨r, ((hfind _).trans (if_neg (hother hne ?_))).trans hr, hact⟩
      rcases hk with ⟨key, hk⟩ | hk <;> rw [hk] <;> rfl
  · rcases eq_or_ne k i with rfl | hne
    · rw [Function.update_self] at hk
      cases hk
    · rw [Function.update_of_ne hne] at hk
      exact hw.putKey k call' key hk
  · rcases eq_or_ne k i with rfl | hne
    · rw [Function.update_self] at hk
      rcases hk with hk | ⟨hk, -⟩ <;> cases hk
      exact hw.stored k call (.inl hi)
    · rw [Function.update_of_ne hne] at hk
      refine hw.stored k call' (hk.imp_right fun ⟨hk, hpos⟩ => ⟨hk, ?_⟩)
      have hcall : call? (uploads k) = some call' := by rw [hk]; rfl
      have hne' := hother hne hcall
      have hpos : 0 < c.linkCount call'.cHash := hpos
      rwa [hcount, if_neg hne', Nat.add_zero] at hpos
  · obtain ⟨hkey, hzero, k, call', hk, hhash, hover⟩ := hw.deleting j batch hj e he
    have hne : k ≠ i := by
      rintro rfl
      rw [hi] at hover
      exact hover
    have hne' : call.cHash ≠ e.1 := hhash ▸ hother hne hk
    refine ⟨hkey, ?_, k, call', (hcalls k).trans hk, hhash, by rw [hkeep hover]; exact hover⟩
    show c.linkCount e.1 = 0
    rw [hcount, if_neg hne', hzero]

end Steps

/-! ### One step of a purge -/

/-- **A purge claims** rows whose uploads are over. -/
theorem Inv.claims (hw : Inv cat s3 uploads purges) (j n : ℕ) :
    Inv (purgePhase1 n cat).2 s3 uploads (Function.update purges j
      (if (purgePhase1 n cat).1.isEmpty then .finished
        else .deleting (purgePhase1 n cat).1)) := by
  have hc := hw.catalog (Retains.purgePhase1 hw.coherent n)
  have hretains := Retains.purgePhase1 hw.coherent n
  refine ⟨hc.coherent, hc.keys, hc.owned, hc.unique, hc.linked, hc.active, hc.putKey, hc.stored,
    fun k batch hk e he => ?_⟩
  rcases eq_or_ne k j with rfl | hne
  · rw [Function.update_self] at hk
    split_ifs at hk
    obtain rfl := PurgePc.deleting.inj hk
    obtain ⟨r, hr, hkey, href, hst⟩ := (purgePhase1_spec n cat).1 e.1 e.2 he
    have hzero : cat.linkCount e.1 = 0 := by
      have hcell := hw.coherent e.1
      rw [hr] at hcell
      have := hcell.refCount
      omega
    obtain ⟨i, call, hi, hhash⟩ := hw.owned e.1 r hr
    refine ⟨hkey.symm.trans (hw.keys e.1 r hr), hretains.linkCount_eq_zero hzero, i, call, hi,
      hhash, ?_⟩
    -- the row of an upload that is under way is `ACTIVE`
    have hactive : ¬ ((∃ key, uploads i = .putting call key) ∨ uploads i = .linking call) := by
      intro hunder
      obtain ⟨r', hr', hact⟩ := hw.active i call hunder
      rw [hhash] at hr'
      rw [Option.some.inj (hr'.symm.trans hr), hst] at hact
      cases hact
    cases hpc : uploads i with
    | idle => rw [hpc] at hi; cases hi
    | putting call' key =>
      rw [hpc] at hi hactive
      cases hi
      exact hactive (.inl ⟨key, rfl⟩)
    | linking call' =>
      rw [hpc] at hi hactive
      cases hi
      exact hactive (.inr rfl)
    | returned | raised => trivial
  · rw [Function.update_of_ne hne] at hk
    exact hc.deleting k batch hk e he

/-- **A purge deletes** objects that no link needs, all of them or some. -/
theorem Inv.deletes (hw : Inv cat s3 uploads purges) {j : ℕ} {batch : List (String × String)}
    {pc : PurgePc} (hj : purges j = .deleting batch) (hpc : ∀ b, pc ≠ .deleting b)
    (hs3 : ∀ key, key ∉ batch.map Prod.snd → s3' key = s3 key) :
    Inv cat s3' uploads (Function.update purges j pc) := by
  refine ⟨hw.coherent, hw.keys, hw.owned, hw.unique, hw.linked, hw.active, hw.putKey,
    fun k call hk => (hs3 _ fun hmem => ?_).trans (hw.stored k call hk), fun k b hk e he => ?_⟩
  · obtain ⟨e, he, hkey⟩ := List.mem_map.1 hmem
    obtain ⟨hekey, hzero, i, call', hi, hhash, hover⟩ := hw.deleting j batch hj e he
    have hhash' : call'.cHash = call.cHash := hhash.trans (storageKeyOf_injective (hekey ▸ hkey))
    rcases hk with hk | ⟨-, hpos⟩
    · obtain rfl := hw.unique i k call' call hi (by rw [hk]; rfl) hhash'
      rw [hk] at hover
      exact hover
    · rw [← hhash', hhash] at hpos
      omega
  · rcases eq_or_ne k j with rfl | hne
    · rw [Function.update_self] at hk
      exact absurd hk (hpc b)
    · rw [Function.update_of_ne hne] at hk
      exact hw.deleting k b hk e he

/-- A purge that goes on without deleting anything. -/
theorem Inv.setPurge (hw : Inv cat s3 uploads purges) (j : ℕ) {pc : PurgePc}
    (hpc : ∀ b, pc ≠ .deleting b) : Inv cat s3 uploads (Function.update purges j pc) := by
  refine ⟨hw.coherent, hw.keys, hw.owned, hw.unique, hw.linked, hw.active, hw.putKey, hw.stored,
    fun k b hk e he => ?_⟩
  rcases eq_or_ne k j with rfl | hne
  · rw [Function.update_self] at hk
    exact absurd hk (hpc b)
  · rw [Function.update_of_ne hne] at hk
    exact hw.deleting k b hk e he

/-! ### Every run -/

/-- The invariant, of a state. -/
def World.Ok (w : World) : Prop := Inv w.cat w.s3 w.uploads w.purges

/-- **One step in which nothing fails.** -/
theorem World.Ok.base {w : World} {b : Catalog.World} (hw : w.Ok) {e : Catalog.Event}
    (he : Distinct w (.base e)) (h : Catalog.step w.toWorld e = some b) :
    Inv b.cat b.s3 b.uploads b.purges := by
  have hw : Inv w.cat w.s3 w.uploads w.purges := hw
  cases e with
  | insertSnapshot s =>
    obtain rfl := Option.some.inj h
    refine hw.catalog (.orUnchanged hw.coherent fun c hs => ?_)
    obtain ⟨-, -, hp, hl⟩ := insertSnapshot_ok hs
    exact .frame hw.coherent hp hl
  | setEstado id estado =>
    obtain rfl := Option.some.inj h
    exact hw.catalog (.frame hw.coherent rfl rfl)
  | purgeSnapshot id now =>
    obtain rfl := Option.some.inj h
    exact hw.catalog (.orUnchanged hw.coherent fun c hp => .purgeSnapshot hw.coherent hp)
  | prepare i call now =>
    simp only [Catalog.step] at h
    split at h
    · next hi =>
      have he := he i call rfl
      have hnone := hw.find?_eq_none he
      split at h
      · obtain rfl := Option.some.inj h
        exact hw.begins hi he rfl hw.coherent rfl (fun _ _ => rfl)
          (fun r hr => by cases hnone.symm.trans hr) (.inr rfl)
      · next c key up hp =>
        obtain rfl := Option.some.inj h
        obtain ⟨⟨r, hr, rfl, hcase⟩, hother, hlinks, -⟩ := dbCheckAndPrepare_ok hp
        rcases hcase with ⟨-, rfl, rfl⟩ | ⟨r₀, hr₀, -⟩
        · refine hw.begins hi he rfl (hw.coherent.dbCheckAndPrepare hp) hlinks hother
            (fun r' hr' => ?_) (.inl ⟨⟨_, hr⟩, rfl⟩)
          rw [← Option.some.inj (hr.symm.trans hr')]
          exact ⟨rfl, rfl⟩
        · cases hnone.symm.trans hr₀
    · cases h
  | put i =>
    simp only [Catalog.step] at h
    split at h
    · next call key hi =>
      obtain rfl := Option.some.inj h
      obtain rfl := hw.putKey i call key hi
      exact hw.goes (by rw [hi]; rfl) (by rw [hi]; exact id)
        (.inr ⟨rfl, Function.update_self ..⟩) fun key hne => Function.update_of_ne hne _ _
    · cases h
  | link i now =>
    simp only [Catalog.step] at h
    split at h
    · next call hi =>
      split at h
      · obtain rfl := Option.some.inj h
        exact hw.goes (by rw [hi]; rfl) (by rw [hi]; exact id) (.inl rfl) fun _ _ => rfl
      · next c hs =>
        obtain rfl := Option.some.inj h
        exact hw.link hi hs
    · cases h
  | claim j n =>
    simp only [Catalog.step] at h
    split at h
    · obtain rfl := Option.some.inj h
      exact hw.claims j n
    · cases h
  | delete j =>
    simp only [Catalog.step] at h
    split at h
    · next batch hj =>
      obtain rfl := Option.some.inj h
      exact hw.deletes hj (fun _ => PurgePc.noConfusion) fun key hkey => if_neg hkey
    · cases h
  | confirm j =>
    simp only [Catalog.step] at h
    split at h
    · next batch hj =>
      obtain rfl := Option.some.inj h
      exact (hw.catalog (.orUnchanged hw.coherent fun c hp =>
        .purgePhase2 hw.coherent hp)).setPurge j fun _ => PurgePc.noConfusion
    · cases h

/-- **One step.** -/
theorem World.Ok.step {w w' : World} (hw : w.Ok) {e : Event} (he : Distinct w e)
    (h : step w e = some w') : w'.Ok := by
  cases e with
  | base e =>
    obtain ⟨b, hb, rfl⟩ := Option.map_eq_some_iff.1 h
    exact hw.base he hb
  | prepareRaises i call =>
    simp only [Faults.step] at h
    split at h
    · next hi =>
      obtain rfl := Option.some.inj h
      have he := he i call rfl
      have hnone := Inv.find?_eq_none hw he
      exact Inv.begins hw hi he rfl hw.coherent rfl (fun _ _ => rfl)
        (fun r hr => by cases hnone.symm.trans hr) (.inr rfl)
    · cases h
  | putRaises i stored =>
    simp only [Faults.step] at h
    split at h
    · next call key hi =>
      obtain rfl := Option.some.inj h
      obtain rfl := hw.putKey i call key hi
      refine Inv.goes hw (by rw [hi]; rfl) (by rw [hi]; exact id) (.inl rfl) fun key hne => ?_
      cases stored with
      | true => exact Function.update_of_ne hne _ _
      | false => rfl
    · cases h
  | linkRaises i =>
    simp only [Faults.step] at h
    split at h
    · next call hi =>
      obtain rfl := Option.some.inj h
      exact Inv.goes hw (by rw [hi]; rfl) (by rw [hi]; exact id) (.inl rfl) fun _ _ => rfl
    · cases h
  | deleteRaises j removed =>
    simp only [Faults.step] at h
    split at h
    · next batch hj =>
      obtain rfl := Option.some.inj h
      refine Inv.deletes hw hj (fun _ => PurgePc.noConfusion) fun key hkey => ?_
      dsimp only
      rw [deleteObjectsS3_apply, if_neg fun hmem => hkey hmem.1]
    · cases h
  | revert j =>
    simp only [Faults.step] at h
    split at h
    · cases h
    · obtain rfl := Option.some.inj h
      exact Inv.catalog hw (.purgeRevert hw.coherent _)

/-! ### Calls -/

/-- What a step does to the uploads. -/
inductive UploadsStep (w : World) (e : Event) (w' : World) : Prop
  | same : e.upload? = none → e.begins = none → w'.uploads = w.uploads → UploadsStep w e w'
  | begins {i : ℕ} {call : Call} {pc : UploadPc} : e.upload? = some i →
    e.begins = some (i, call) → w.uploads i = .idle → call? pc = some call →
    (∀ call', pc ≠ .returned call') → w'.uploads = Function.update w.uploads i pc →
      UploadsStep w e w'
  | goes {i : ℕ} {pc : UploadPc} : e.upload? = some i → e.begins = none →
    call? pc = call? (w.uploads i) →
    (∀ call, pc = .returned call → linkOf call ∈ w'.cat.snapshotChunks.rows) →
    w'.uploads = Function.update w.uploads i pc → UploadsStep w e w'

theorem uploadsStep_of_step {w w' : World} {e : Event} (h : step w e = some w') :
    UploadsStep w e w' := by
  cases e with
  | base e =>
    obtain ⟨b, hb, rfl⟩ := Option.map_eq_some_iff.1 h
    cases e with
    | insertSnapshot | setEstado | purgeSnapshot =>
      obtain rfl := Option.some.inj hb
      exact .same rfl rfl rfl
    | prepare i call now =>
      simp only [Catalog.step] at hb
      split at hb
      · next hi =>
        split at hb
        · obtain rfl := Option.some.inj hb
          exact .begins rfl rfl hi rfl (fun _ => UploadPc.noConfusion) rfl
        · next c key up hp =>
          obtain rfl := Option.some.inj hb
          exact .begins rfl rfl hi (by cases up <;> rfl)
            (by cases up <;> exact fun _ => UploadPc.noConfusion) rfl
      · cases hb
    | put i =>
      simp only [Catalog.step] at hb
      split at hb
      · next hi =>
        obtain rfl := Option.some.inj hb
        exact .goes rfl rfl (by rw [hi]; rfl) (fun _ he => by cases he) rfl
      · cases hb
    | link i now =>
      simp only [Catalog.step] at hb
      split at hb
      · next hi =>
        split at hb
        · obtain rfl := Option.some.inj hb
          exact .goes rfl rfl (by rw [hi]; rfl) (fun _ he => by cases he) rfl
        · next c hs =>
          obtain rfl := Option.some.inj hb
          refine .goes rfl rfl (by rw [hi]; rfl) (fun call' he => ?_) rfl
          obtain rfl := UploadPc.returned.inj he
          exact ((insertSnapshotChunk_ok hs).2.2.2.1 _).2 (.inr rfl)
      · cases hb
    | claim | delete | confirm =>
      simp only [Catalog.step] at hb
      split at hb
      · obtain rfl := Option.some.inj hb
        exact .same rfl rfl rfl
      · cases hb
  | prepareRaises i call =>
    simp only [step] at h
    split at h
    · next hi =>
      obtain rfl := Option.some.inj h
      exact .begins rfl rfl hi rfl (fun _ => UploadPc.noConfusion) rfl
    · cases h
  | putRaises | linkRaises =>
    simp only [step] at h
    split at h
    · next hi =>
      obtain rfl := Option.some.inj h
      exact .goes rfl rfl (by rw [hi]; rfl) (fun _ he => by cases he) rfl
    · cases h
  | deleteRaises =>
    simp only [step] at h
    split at h
    · obtain rfl := Option.some.inj h
      exact .same rfl rfl rfl
    · cases h
  | revert =>
    simp only [step] at h
    split at h
    · cases h
    · obtain rfl := Option.some.inj h
      exact .same rfl rfl rfl

/-- **Where a call comes from**: it was there, or the upload has just begun with it. -/
theorem call_of_step {w w' : World} {e : Event} (h : step w e = some w') {k : ℕ} {call : Call}
    (hk : call? (w'.uploads k) = some call) : call? (w.uploads k) = some call ∨
      e.begins = some (k, call) ∧ w.uploads k = .idle := by
  cases uploadsStep_of_step h with
  | same _ _ hsame => exact .inl (hsame ▸ hk)
  | begins _ hbegins hi hpc _ hsame =>
    rw [hsame] at hk
    rcases call?_begin hpc hk with ⟨rfl, rfl⟩ | ⟨-, hold⟩
    · exact .inr ⟨hbegins, hi⟩
    · exact .inl hold
  | goes _ _ hpc _ hsame =>
    rw [hsame] at hk
    exact .inl ((call?_update hpc k).symm.trans hk)

/-- Only an upload that has not begun begins. -/
theorem idle_of_step {w w' : World} {e : Event} (h : step w e = some w') {i : ℕ} {call : Call}
    (he : e.begins = some (i, call)) : w.uploads i = .idle := by
  cases uploadsStep_of_step h with
  | same _ hnone => cases hnone.symm.trans he
  | begins _ hbegins hi =>
    obtain ⟨rfl, -⟩ := Prod.mk.inj (Option.some.inj (hbegins.symm.trans he))
    exact hi
  | goes _ hnone => cases hnone.symm.trans he

/-- The other uploads stay where they are. -/
theorem uploads_of_step {w w' : World} {e : Event} (h : step w e = some w') {k : ℕ}
    (hk : e.upload? ≠ some k) : w'.uploads k = w.uploads k := by
  cases uploadsStep_of_step h with
  | same _ _ hsame => rw [hsame]
  | begins hi _ _ _ _ hsame | goes hi _ _ _ hsame =>
    rw [hsame]
    exact Function.update_of_ne (fun he => hk (by rw [hi, he])) _ _

/-- An upload that returns has just recorded its link. -/
theorem link_of_returned {w w' : World} {e : Event} (h : step w e = some w') {k : ℕ} {call : Call}
    (hk : w'.uploads k = .returned call) : w.uploads k = .returned call ∨
      linkOf call ∈ w'.cat.snapshotChunks.rows := by
  by_cases hupload : e.upload? = some k
  · cases uploadsStep_of_step h with
    | same hnone => cases hnone.symm.trans hupload
    | begins hi _ _ _ hpc hsame =>
      obtain rfl := Option.some.inj (hi.symm.trans hupload)
      rw [hsame, Function.update_self] at hk
      exact absurd hk (hpc call)
    | goes hi _ _ hpc hsame =>
      obtain rfl := Option.some.inj (hi.symm.trans hupload)
      rw [hsame, Function.update_self] at hk
      exact .inr (hpc call hk)
  · exact .inl ((uploads_of_step h hupload).symm.trans hk)

/-- The uploads have been called with these arguments. -/
def Called (calls : ℕ → Call) (w : World) : Prop :=
  ∀ i call, call? (w.uploads i) = some call → call = calls i

theorem Called.step {calls : ℕ → Call} {w w' : World} {e : Event} (hw : Called calls w)
    (he : Follows calls w e) (h : step w e = some w') : Called calls w' := by
  intro i call hi
  rcases call_of_step h hi with hi | ⟨hbegins, -⟩
  · exact hw i call hi
  · exact he i call hbegins

/-- When no two uploads have one hash, each begins with a hash of its own. -/
theorem Called.distinct {calls : ℕ → Call} {w w' : World} {e : Event} (hw : Called calls w)
    (hcalls : Function.Injective fun i => (calls i).cHash) (he : Follows calls w e)
    (h : Faults.step w e = some w') : Distinct w e := by
  intro i call hbegins k call' hk heq
  have hidle := idle_of_step h hbegins
  obtain rfl := he i call hbegins
  obtain rfl := hw k call' hk
  obtain rfl := hcalls heq
  rw [hidle] at hk
  cases hk

/-- What the catalog makes of two uploads with one hash: the first makes the row, the second
finds it and need not `put`. -/
theorem exists_prepared (call call' : Call) (heq : call.cHash = call'.cHash) :
    ∃ c₁ c₂ c₃ c₄ key₂ key₃,
      insertSnapshot (runningSnapshot call'.snapshotId) empty = .ok c₁ ∧
      dbCheckAndPrepare 0 call.cHash call.payload.length c₁ = .ok (c₂, key₂, true) ∧
      dbCheckAndPrepare 0 call'.cHash call'.payload.length c₂ = .ok (c₃, key₃, false) ∧
      saveChunkRef 0 call'.snapshotId call'.seq call'.cHash c₃ = .ok c₄ ∧
      linkOf call' ∈ c₄.snapshotChunks.rows := by
  obtain ⟨c₁, h₁⟩ : ∃ c₁, insertSnapshot (runningSnapshot call'.snapshotId) empty = .ok c₁ :=
    ⟨_, rfl⟩
  obtain ⟨-, hsnaps₁, hpool₁, hlinks₁⟩ := insertSnapshot_ok h₁
  have hnone₁ : ∀ h, c₁.chunkPool.find? h = none := fun h => by rw [hpool₁]; rfl
  -- the first upload makes the row
  obtain ⟨c₂, key₂, up₂, h₂⟩ := dbCheckAndPrepare_isOk (c := c₁)
    (fun r hr => nomatch (hnone₁ _).symm.trans (Table.find?_of_mem hr)) 0 call.cHash
    call.payload.length
  obtain ⟨⟨r₂, hr₂, -, hcase₂⟩, hother₂, hlinks₂, hsnaps₂⟩ := dbCheckAndPrepare_ok h₂
  obtain ⟨-, rfl, rfl⟩ := hcase₂.resolve_right fun ⟨r, hr, _⟩ => nomatch (hnone₁ _).symm.trans hr
  -- the second finds it
  obtain ⟨c₃, key₃, up₃, h₃⟩ := dbCheckAndPrepare_isOk (c := c₂) (fun r hr => by
    have hfind := Table.find?_of_mem hr
    by_cases hh : r.hashSha256 = call.cHash
    · rw [hh] at hfind
      rw [Option.some.inj (hfind.symm.trans hr₂)]
      rfl
    · exact nomatch (hnone₁ _).symm.trans ((hother₂ _ hh).symm.trans hfind)) 0 call'.cHash
    call'.payload.length
  obtain ⟨⟨r₃, hr₃, -, hcase₃⟩, -, hlinks₃, hsnaps₃⟩ := dbCheckAndPrepare_ok h₃
  have hup₃ : up₃ = false := by
    rw [← heq, hr₂] at hcase₃
    rcases hcase₃ with ⟨hnone, -⟩ | ⟨r, hr, -, hup⟩
    · cases hnone
    · rw [hup, ← Option.some.inj hr]
      rfl
  subst hup₃
  -- and links it
  have hempty : c₃.snapshotChunks = empty.snapshotChunks := hlinks₃.trans (hlinks₂.trans hlinks₁)
  have hunused : c₃.snapshotChunks.find? (call'.snapshotId, call'.seq) = none := by
    rw [hempty]
    rfl
  have hsnap : (c₃.snapshots.find? call'.snapshotId).isSome = true := by
    rw [hsnaps₃, hsnaps₂, hsnaps₁]
    exact congrArg Option.isSome (if_pos rfl)
  obtain ⟨c₄, h₄⟩ := saveChunkRef_isOk hunused hsnap (Option.isSome_iff_exists.2 ⟨_, hr₃⟩) 0
  obtain ⟨-, -, -, hmem, -⟩ := insertSnapshotChunk_ok h₄
  exact ⟨c₁, c₂, c₃, c₄, key₂, key₃, h₁, h₂, h₃, h₄, (hmem _).2 (.inr rfl)⟩

/-- **Two uploads with one hash** are enough for a link that dangles: the second finds the row
of the first, and links it before the first has `put` the object. -/
theorem exists_dangling {calls : ℕ → Call} {i j : ℕ} (hne : i ≠ j)
    (heq : (calls i).cHash = (calls j).cHash) :
    ∃ w, Reach step (Follows calls) World.init w ∧ ¬ NoDangling w.toWorld := by
  obtain ⟨c₁, c₂, c₃, c₄, key₂, key₃, h₁, h₂, h₃, h₄, hlink⟩ :=
    exists_prepared (calls i) (calls j) heq
  have hfollows : ∀ w now k, Follows calls w (.base (.prepare k (calls k) now)) := by
    intro w now k i' call' hbegins
    obtain ⟨rfl, rfl⟩ := Prod.mk.inj (Option.some.inj hbegins)
    rfl
  have hothers : ∀ w e, e.begins = none → Follows calls w e := fun _ _ hnone _ _ hbegins =>
    nomatch hnone.symm.trans hbegins
  have hs₁ : step .init (.base (.insertSnapshot (runningSnapshot (calls j).snapshotId))) =
      some { World.init with cat := c₁ } := by
    simp only [step, Catalog.step, World.init, Catalog.World.init, h₁, orUnchanged,
      Option.map_some]
  have hs₂ : step { World.init with cat := c₁ } (.base (.prepare i (calls i) 0)) =
      some { World.init with
        cat := c₂
        uploads := Function.update (fun _ => .idle) i (.putting (calls i) key₂) } := by
    simp only [step, Catalog.step, World.init, Catalog.World.init, h₂, Option.map_some]
    rfl
  have hs₃ : step { World.init with
        cat := c₂
        uploads := Function.update (fun _ => .idle) i (.putting (calls i) key₂) }
      (.base (.prepare j (calls j) 0)) = some { World.init with
        cat := c₃
        uploads := Function.update (Function.update (fun _ => .idle) i (.putting (calls i) key₂)) j
          (.linking (calls j)) } := by
    simp only [step, Catalog.step, Function.update_of_ne hne.symm, h₃, Option.map_some]
    rfl
  have hs₄ : step { World.init with
        cat := c₃
        uploads := Function.update (Function.update (fun _ => .idle) i (.putting (calls i) key₂)) j
          (.linking (calls j)) } (.base (.link j 0)) = some { World.init with
        cat := c₄
        uploads := Function.update (Function.update (fun _ => .idle) i (.putting (calls i) key₂)) j
          (.returned (calls j)) } := by
    simp only [step, Catalog.step, Function.update_self, h₄, Option.map_some,
      Function.update_idem]
  refine ⟨_, (((Reach.refl.tail (hothers _ _ rfl) hs₁).tail (hfollows _ _ _) hs₂).tail
    (hfollows _ _ _) hs₃).tail (hothers _ _ rfl) hs₄, fun hno => ?_⟩
  obtain ⟨r, -, hobject⟩ := hno (linkOf (calls j)) hlink
  cases hobject

/-- **Links dangle only through coinciding hashes.**  Let the uploads be called with `calls`.
No interleaving of their steps with purges, no failure of any call and no process that dies
leaves a link whose chunk has no object, if and only if no two calls have the same hash. -/
theorem noDangling_iff (calls : ℕ → Call) :
    (∀ w, Reach step (Follows calls) World.init w → NoDangling w.toWorld) ↔
      Function.Injective fun i => (calls i).cHash := by
  constructor
  · intro hall i j heq
    by_contra hne
    obtain ⟨w, hreach, hdangles⟩ := exists_dangling hne heq
    exact hdangles (hall w hreach)
  · intro hcalls w hreach
    have hinv := hreach.invariant (I := fun w => w.Ok ∧ Called calls w)
      ⟨inv_init, fun _ _ h => nomatch h⟩ fun _ _ _ hw he hstep =>
        ⟨hw.1.step (hw.2.distinct hcalls he hstep) hstep, hw.2.step he hstep⟩
    exact Inv.noDangling hinv.1

end Faults
end Boveda

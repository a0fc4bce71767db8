/-
# Uploads and purges side by side

Any number of backups and retention runs share one catalog and one bucket.  An
upload (`upload_callback`, `src/boveda/cli.py`) is a transaction, a `put` when
the transaction asks for one, and a second transaction; a purge
(`execute_two_phase_purge`, `src/boveda/retention.py`) is a transaction that
claims a batch, a `delete_objects`, and a second transaction.  The calls to the
bucket are outside any transaction, and all succeed.  `step` is one of these
steps, or one of the transactions that create, re-state and unlink a snapshot.

A link dangles when its chunk has no object.  The protocol does not exclude it
(`reachable_dangling`): a second upload of a hash finds the row `ACTIVE` and
links it while the first one has yet to `put`; a `put` into a row that a purge
has claimed is overtaken by the `delete_objects` of the purge; a link can be
inserted while the chunk is claimed.  `Orderly` excludes these three, step by
step, and nothing else, and then no link ever dangles (`no_dangling_of_orderly`).

The proof looks at one hash at a time.  `Safe` relates the five things that
matter about it: its row, the number of its links, whether it has an object,
whether some upload has yet to `put` it and whether some purge has yet to delete
it.
-/

import Boveda.Lib.Runs
import Boveda.Catalog.Upload

namespace Boveda
namespace Catalog

open Lib

/-- The arguments of an `upload_callback`. -/
structure Call where
  snapshotId : String
  seq : ℤ
  payload : Bytes
  cHash : String

/-- Where an `upload_callback` stands. -/
inductive UploadPc
  | idle
  | putting (call : Call) (storageKey : String)
  | linking (call : Call)
  | returned (call : Call)
  | raised (call : Call)

/-- Where an `execute_two_phase_purge` stands. -/
inductive PurgePc
  | idle
  | deleting (batch : List (String × String))
  | confirming (batch : List (String × String))
  | finished

/-- The catalog, the bucket, and every upload and purge. -/
structure World where
  cat : Catalog
  s3 : ObjectStore
  uploads : ℕ → UploadPc
  purges : ℕ → PurgePc

/-- Nothing has happened. -/
def World.init : World := ⟨empty, fun _ => none, fun _ => .idle, fun _ => .idle⟩

/-- The steps of backups and retention runs. -/
inductive Event
  | insertSnapshot (s : Snapshot)
  | setEstado (id : String) (estado : Estado)
  | purgeSnapshot (id : String) (now : Time)
  | prepare (i : ℕ) (call : Call) (now : Time)
  | put (i : ℕ)
  | link (i : ℕ) (now : Time)
  | claim (j : ℕ) (batchSize : ℕ)
  | delete (j : ℕ)
  | confirm (j : ℕ)

/-- One step, `none` when it is not the turn of its upload or purge. -/
def step (w : World) : Event → Option World
  | .insertSnapshot s => some { w with cat := orUnchanged w.cat (insertSnapshot s w.cat) }
  | .setEstado id estado => some { w with cat := setEstado id estado w.cat }
  | .purgeSnapshot id now => some { w with cat := orUnchanged w.cat (purgeSnapshot now id w.cat) }
  | .prepare i call now =>
    match w.uploads i with
    | .idle =>
      match dbCheckAndPrepare now call.cHash call.payload.length w.cat with
      | .error _ => some { w with uploads := Function.update w.uploads i (.raised call) }
      | .ok (cat, storageKey, isNew) =>
        let pc := if isNew then .putting call storageKey else .linking call
        some { w with cat, uploads := Function.update w.uploads i pc }
    | _ => none
  | .put i =>
    match w.uploads i with
    | .putting call storageKey =>
      some { w with
        s3 := putObject storageKey call.payload w.s3
        uploads := Function.update w.uploads i (.linking call) }
    | _ => none
  | .link i now =>
    match w.uploads i with
    | .linking call =>
      match saveChunkRef now call.snapshotId call.seq call.cHash w.cat with
      | .error _ => some { w with uploads := Function.update w.uploads i (.raised call) }
      | .ok cat => some { w with cat, uploads := Function.update w.uploads i (.returned call) }
    | _ => none
  | .claim j batchSize =>
    match w.purges j with
    | .idle =>
      let (batch, cat) := purgePhase1 batchSize w.cat
      let pc := if batch.isEmpty then .finished else .deleting batch
      some { w with cat, purges := Function.update w.purges j pc }
    | _ => none
  | .delete j =>
    match w.purges j with
    | .deleting batch =>
      some { w with
        s3 := deleteObjects (batch.map Prod.snd) w.s3
        purges := Function.update w.purges j (.confirming batch) }
    | _ => none
  | .confirm j =>
    match w.purges j with
    | .confirming batch =>
      some { w with
        cat := orUnchanged w.cat (purgePhase2 (batch.map Prod.fst) w.cat)
        purges := Function.update w.purges j .finished }
    | _ => none

/-- Every link has a chunk whose object is in the bucket. -/
def NoDangling (w : World) : Prop :=
  ∀ l ∈ w.cat.snapshotChunks.rows, ∃ r, w.cat.chunkPool.find? l.chunkHash = some r ∧
    (w.s3 r.storageKey).isSome = true

/-- An upload that has been told to `put` the hash and has not done it yet. -/
def UploadPc.Puts : UploadPc → String → Prop
  | .putting call _, h => call.cHash = h
  | _, _ => False

/-- A purge that has claimed the hash and has not deleted its object yet. -/
def PurgePc.Deletes : PurgePc → String → Prop
  | .deleting batch, h => h ∈ batch.map Prod.fst
  | _, _ => False

/-- Some upload has yet to `put` the hash. -/
def Putting (uploads : ℕ → UploadPc) (h : String) : Prop := ∃ i, (uploads i).Puts h

/-- Some purge has yet to delete the object of the hash. -/
def Deleting (purges : ℕ → PurgePc) (h : String) : Prop := ∃ j, (purges j).Deletes h

/-- The step does not overtake another one on the same hash: a block is linked
only when no upload has yet to `put` it and no purge has claimed it, and it is
`put` only when no purge has yet to delete it. -/
def Orderly (w : World) : Event → Prop
  | .link i _ => ∀ call, w.uploads i = .linking call → ¬ Putting w.uploads call.cHash ∧
      ∀ r, w.cat.chunkPool.find? call.cHash = some r → r.state ≠ .purgingS3
  | .put i => ∀ call key, w.uploads i = .putting call key → ¬ Deleting w.purges call.cHash
  | _ => True

/-! ### One hash -/

/-- What an orderly run keeps of a hash: its row, the number of its links, its
object, an outstanding `put` and an outstanding `delete_objects`. -/
structure Safe (row : Option ChunkPool) (links : ℕ) (object putting deleting : Prop) : Prop where
  awaited : putting → links = 0 ∧ ∃ r, row = some r ∧ r.state = .active
  stored : ∀ r, row = some r → r.state = .active ∨ r.state = .pendingDelete → object ∨ putting
  claimed : deleting → links = 0 ∧ ∀ r, row = some r → r.state = .purgingS3 ∨ putting

namespace Safe

variable {row row' : Option ChunkPool} {n : ℕ} {object putting deleting : Prop} {r : ChunkPool}

/-- A chunk without a row. -/
theorem none (hp : ¬ putting) (hd : deleting → n = 0) :
    Safe Option.none n object putting deleting :=
  ⟨fun h => absurd h hp, fun _ h => (nomatch h), fun h => ⟨hd h, fun _ h => (nomatch h)⟩⟩

/-- The first transaction of an upload that has to `put`. -/
theorem prepare_put (hn : n = 0) (hr : r.state = .active) (hp : putting) :
    Safe (some r) n object putting deleting :=
  ⟨fun _ => ⟨hn, r, rfl, hr⟩, fun _ _ _ => Or.inr hp, fun _ => ⟨hn, fun _ _ => Or.inr hp⟩⟩

/-- The first transaction of an upload that reuses a stored chunk. -/
theorem prepare_reuse {r₀ : ChunkPool} (h : Safe (some r₀) n object putting deleting)
    (hst : r₀.state = .active ∨ r₀.state = .pendingDelete) (hr : r.state = .active) :
    Safe (some r) n object putting deleting := by
  refine ⟨fun hp => ⟨(h.awaited hp).1, r, rfl, hr⟩, fun _ _ _ => h.stored r₀ rfl hst,
    fun hd => ⟨(h.claimed hd).1, fun _ _ => Or.inr ?_⟩⟩
  rcases (h.claimed hd).2 r₀ rfl with hs | hp
  · rcases hst with hst | hst <;> simp [hs] at hst
  · exact hp

/-- A `put`, when no purge has yet to delete the object. -/
theorem put (h : Safe row n object putting deleting) (hd : ¬ deleting) {object' putting' : Prop}
    (ho : object') (hp : putting' → putting) : Safe row n object' putting' deleting :=
  ⟨fun hp' => h.awaited (hp hp'), fun _ _ _ => Or.inl ho, fun hd' => absurd hd' hd⟩

/-- A new link, when the chunk is neither being `put` nor claimed. -/
theorem link (h : Safe (some r) n object putting deleting) (hp : ¬ putting)
    (hst : r.state = .active ∨ r.state = .pendingDelete) (now : Time) :
    Safe (some (trgSnapshotChunksAfterInsert now r)) (n + 1) object putting deleting := by
  have hd : ¬ deleting := by
    intro hd
    rcases (h.claimed hd).2 r rfl with hs | hp'
    · rcases hst with hst | hst <;> simp [hs] at hst
    · exact hp hp'
  exact ⟨fun hp' => absurd hp' hp, fun _ _ _ => h.stored r rfl hst, fun hd' => absurd hd' hd⟩

/-- One link less: an unclaimed chunk that no upload is about to `put`. -/
theorem unlink (h : Safe (some r) (n + 1) object putting deleting) (hr : r.state = .active)
    (now : Time) :
    Safe (some (trgSnapshotChunksAfterDelete now r)) n object putting deleting :=
  ⟨fun hp => absurd (h.awaited hp).1 (Nat.succ_ne_zero n), fun _ _ _ => h.stored r rfl (Or.inl hr),
    fun hd => absurd (h.claimed hd).1 (Nat.succ_ne_zero n)⟩

/-- A claimed row. -/
theorem claim (h : Safe (some r) n object putting deleting) (hn : n = 0)
    (hst : r.state = .pendingDelete) {deleting' : Prop} {r' : ChunkPool}
    (hr' : r'.state = .purgingS3) : Safe (some r') n object putting deleting' := by
  have hp : ¬ putting := by
    intro hp
    obtain ⟨-, a, ha, hact⟩ := h.awaited hp
    rw [← Option.some.inj ha, hst] at hact
    cases hact
  refine ⟨fun hp' => absurd hp' hp, fun a ha hs => ?_,
    fun _ => ⟨hn, fun a ha => Or.inl (Option.some.inj ha ▸ hr')⟩⟩
  rw [← Option.some.inj ha, hr'] at hs
  rcases hs with hs | hs <;> cases hs

/-- The object goes, as the claiming purge deletes it. -/
theorem delete (h : Safe row n object putting deleting) (hd : deleting) {object' deleting' : Prop} :
    Safe row n object' putting deleting' := by
  refine ⟨h.awaited, fun r hr hst => Or.inr ?_, fun _ => h.claimed hd⟩
  rcases (h.claimed hd).2 r hr with hs | hp
  · rcases hst with hst | hst <;> simp [hs] at hst
  · exact hp

/-- What is not about the row may change as long as it says no more. -/
theorem mono (h : Safe row n object putting deleting) {object' deleting' : Prop}
    (ho : object → object') (hd : deleting' → deleting) :
    Safe row n object' putting deleting' :=
  ⟨h.awaited, fun r hr hst => (h.stored r hr hst).imp_left ho, fun hd' => h.claimed (hd hd')⟩

/-- The outstanding `put`s count only as to whether there is one. -/
theorem congr (h : Safe row n object putting deleting) {putting' : Prop}
    (hp : putting ↔ putting') : Safe row n object putting' deleting := propext hp ▸ h

/-- The second transaction of a purge takes off a row that is `PURGING_S3`. -/
theorem confirm (h : Safe row n object putting deleting) :
    Safe (row.filter kept) n object putting deleting := by
  cases hrow : row with
  | none => simpa [hrow] using h
  | some r =>
    subst hrow
    by_cases hk : kept r = true
    · simpa [Option.filter_some, hk] using h
    · have hst : r.state = .purgingS3 := by
        have : r.state = .purgingS3 ∧ r.refCount = 0 := by simpa [kept] using hk
        exact this.1
      have hp : ¬ putting := by
        intro hp
        obtain ⟨-, a, ha, hact⟩ := h.awaited hp
        rw [← Option.some.inj ha, hst] at hact
        cases hact
      simpa [Option.filter_some, hk] using none hp fun hd => (h.claimed hd).1

end Safe

/-! ### Every hash -/

/-- The storage key that an upload has to `put` is that of its hash. -/
def UploadPc.KeyOk : UploadPc → Prop
  | .putting call key => key = storageKeyOf call.cHash
  | _ => True

/-- The storage keys that a purge has to delete are those of its hashes. -/
def PurgePc.KeyOk : PurgePc → Prop
  | .deleting batch => ∀ e ∈ batch, e.2 = storageKeyOf e.1
  | _ => True

/-- What an orderly run keeps of the whole system. -/
structure Inv (w : World) : Prop where
  coherent : RefCountInv w.cat
  keys : ∀ h r, w.cat.chunkPool.find? h = some r → r.storageKey = storageKeyOf h
  known : ∀ h r, w.cat.chunkPool.find? h = some r → r.state ≠ .corrupt
  putKeys : ∀ i, (w.uploads i).KeyOk
  deleteKeys : ∀ j, (w.purges j).KeyOk
  safe : ∀ h, Safe (w.cat.chunkPool.find? h) (w.cat.linkCount h)
    ((w.s3 (storageKeyOf h)).isSome = true) (Putting w.uploads h) (Deleting w.purges h)

theorem inv_init : Inv World.init where
  coherent := RefCountInv.empty
  keys _ _ h := nomatch h
  known _ _ h := nomatch h
  putKeys _ := trivial
  deleteKeys _ := trivial
  safe _ := .none (fun ⟨_, h⟩ => h) fun _ => rfl

/-- A linked chunk has a row, which is `ACTIVE`. -/
theorem Inv.row_of_link {w : World} (hw : Inv w) {l : SnapshotChunk}
    (hl : l ∈ w.cat.snapshotChunks.rows) : ∃ r n, w.cat.chunkPool.find? l.chunkHash = some r ∧
      w.cat.linkCount l.chunkHash = n + 1 ∧ r.state = .active := by
  obtain ⟨r, n, hr, hn, hrow⟩ := hw.coherent.exists_row hl
  exact ⟨r, n, hr, hn, hrow.active (Nat.succ_pos n)⟩

/-- **No link dangles** under the invariant: its chunk is `ACTIVE`, so it has its
object or an upload that has yet to `put` it, and such an upload excludes links. -/
theorem Inv.noDangling {w : World} (hw : Inv w) : NoDangling w := by
  intro l hl
  obtain ⟨r, n, hr, hn, hact⟩ := hw.row_of_link hl
  have hsafe := hw.safe l.chunkHash
  refine ⟨r, hr, ?_⟩
  rw [hw.keys _ r hr]
  refine (hsafe.stored r hr (Or.inl hact)).resolve_right fun hp => ?_
  have := (hsafe.awaited hp).1
  omega

/-- A transaction that changes neither `chunk_pool` nor the links. -/
theorem Inv.frame {w : World} (hw : Inv w) {c : Catalog} (hp : c.chunkPool = w.cat.chunkPool)
    (hl : c.snapshotChunks = w.cat.snapshotChunks) : Inv { w with cat := c } where
  coherent := hw.coherent.frame hp hl
  keys := hp ▸ hw.keys
  known := hp ▸ hw.known
  putKeys := hw.putKeys
  deleteKeys := hw.deleteKeys
  safe h := by
    have := hw.safe h
    rw [linkCount] at this
    simpa only [linkCount, hp, hl] using this

/-- The unlinking of a snapshot, one link after the other. -/
theorem Inv.deleteSnapshotChunk {w : World} (hw : Inv w) (now : Time) {l : SnapshotChunk}
    (hl : l ∈ w.cat.snapshotChunks.rows) :
    Inv { w with cat := Catalog.deleteSnapshotChunk now w.cat l } := by
  obtain ⟨r, n, hr, hn, hact⟩ := hw.row_of_link hl
  have hfind := find?_deleteSnapshotChunk now w.cat l
  have hrows := RowsFrom.deleteSnapshotChunk now w.cat l
  refine ⟨hw.coherent.deleteSnapshotChunk now hl, hrows.keys hw.keys,
    hrows.state (Q := (· ≠ .corrupt)) ChunkState.noConfusion hw.known, hw.putKeys, hw.deleteKeys,
    fun k => ?_⟩
  have hcount := linkCount_deleteSnapshotChunk now hl k
  have hsafe := hw.safe k
  show Safe ((Catalog.deleteSnapshotChunk now w.cat l).chunkPool.find? k) _ _ _ _
  rw [hfind]
  by_cases hk : l.chunkHash = k
  · subst hk
    rw [if_pos rfl, hn] at hcount
    rw [hr, hn] at hsafe
    rw [if_pos rfl, hr, Nat.succ.inj hcount]
    exact hsafe.unlink hact now
  · rw [if_neg hk, Nat.add_zero] at hcount
    rw [if_neg hk, hcount]
    exact hsafe

theorem Inv.deleteSnapshotChunks {w : World} (hw : Inv w) (now : Time)
    (p : SnapshotChunk → Bool) : Inv { w with cat := Catalog.deleteSnapshotChunks now p w.cat } :=
  foldl_deleteSnapshotChunk (I := fun c => Inv { w with cat := c })
    (fun _ _ hl hc => hc.deleteSnapshotChunk now hl) _ w.cat (nodup_filter_pk w.cat p)
    (fun _ hl => (List.mem_filter.1 hl).1) hw

theorem Inv.purgeSnapshot {w : World} (hw : Inv w) {now : Time} {id : String} {c : Catalog}
    (h : Catalog.purgeSnapshot now id w.cat = .ok c) : Inv { w with cat := c } := by
  unfold Catalog.purgeSnapshot deleteSnapshot at h
  have hw' := hw.deleteSnapshotChunks now fun l => l.snapshotId = id
  split at h
  · exact Except.ok.inj h ▸ hw'
  · split at h
    · cases h
    · obtain rfl := Except.ok.inj h
      exact (hw'.deleteSnapshotChunks now fun l => l.snapshotId = id).frame rfl rfl

/-! ### One step of an upload -/

section Steps

variable {w : World} {i j : ℕ} {call : Call} {now : Time} {c : Catalog}

/-- What holds of every party still holds when one of them moves. -/
theorem forall_update {α : Type*} {f : ℕ → α} {a : α} {P : α → Prop} (ha : P a)
    (h : ∀ k, P (f k)) : ∀ k, P (Function.update f i a k) :=
  (Function.forall_update_iff f fun _ a => P a).2 ⟨ha, fun k _ => h k⟩

/-- A party that does not meet `P`, neither before nor after, does not matter to
whether some party meets it. -/
theorem exists_update {α : Type*} {f : ℕ → α} {a : α} {P : α → Prop} (hi : ¬ P (f i)) (ha : ¬ P a) :
    (∃ k, P (Function.update f i a k)) ↔ ∃ k, P (f k) := by
  rw [Function.exists_update_iff f fun _ a => P a, or_iff_right ha]
  constructor
  · rintro ⟨k, -, hk⟩
    exact ⟨k, hk⟩
  · rintro ⟨k, hk⟩
    exact ⟨k, fun hki => hi (hki ▸ hk), hk⟩

/-- A party that no longer meets `P` can only take it away. -/
theorem exists_update_imp {α : Type*} {f : ℕ → α} {a : α} {P : α → Prop} (ha : ¬ P a)
    (h : ∃ k, P (Function.update f i a k)) : ∃ k, P (f k) := by
  rw [Function.exists_update_iff f fun _ a => P a, or_iff_right ha] at h
  obtain ⟨k, -, hk⟩ := h
  exact ⟨k, hk⟩

theorem putting_update {f : ℕ → UploadPc} {pc : UploadPc} {h : String} (hi : ¬ (f i).Puts h)
    (hpc : ¬ pc.Puts h) : Putting (Function.update f i pc) h ↔ Putting f h :=
  exists_update (P := fun a => UploadPc.Puts a h) hi hpc

theorem putting_of_update {f : ℕ → UploadPc} {pc : UploadPc} {h : String} (hpc : ¬ pc.Puts h)
    (hp : Putting (Function.update f i pc) h) : Putting f h :=
  exists_update_imp (P := fun a => UploadPc.Puts a h) hpc hp

theorem deleting_of_update {f : ℕ → PurgePc} {pc : PurgePc} {h : String} (hpc : ¬ pc.Deletes h)
    (hd : Deleting (Function.update f j pc) h) : Deleting f h :=
  exists_update_imp (P := fun a => PurgePc.Deletes a h) hpc hd

/-- The first transaction of an upload. -/
theorem Inv.prepare {n : ℤ} {key : String} {up : Bool} (hw : Inv w) (hi : w.uploads i = .idle)
    (h : dbCheckAndPrepare now call.cHash n w.cat = .ok (c, key, up)) :
    Inv { w with
      cat := c
      uploads := Function.update w.uploads i
        (if up then .putting call key else .linking call) } := by
  obtain ⟨⟨r, hr, hkey, hcase⟩, hother, hlinks, -⟩ := dbCheckAndPrepare_ok h
  have hidle : ∀ k, ¬ (w.uploads i).Puts k := fun k => by simp [hi, UploadPc.Puts]
  have hrkey : r.storageKey = storageKeyOf call.cHash := by
    rcases hcase with ⟨-, rfl, -⟩ | ⟨r₀, hr₀, rfl, -⟩
    · rfl
    · rw [reactivate_storageKey]
      exact hw.keys _ r₀ hr₀
  have hract : r.state = .active := by
    rcases hcase with ⟨-, rfl, -⟩ | ⟨r₀, hr₀, rfl, -⟩
    · rfl
    · exact reactivate_state (hw.known _ r₀ hr₀)
  refine ⟨hw.coherent.dbCheckAndPrepare h, fun k r' hr' => ?_, fun k r' hr' => ?_,
    forall_update (P := UploadPc.KeyOk) ?_ hw.putKeys, hw.deleteKeys, fun k => ?_⟩
  · by_cases hk : k = call.cHash
    · subst hk
      rw [hr] at hr'
      exact Option.some.inj hr' ▸ hrkey
    · exact hw.keys k r' (hother k hk ▸ hr')
  · by_cases hk : k = call.cHash
    · subst hk
      rw [hr] at hr'
      rw [← Option.some.inj hr', hract]
      exact ChunkState.noConfusion
    · exact hw.known k r' (hother k hk ▸ hr')
  · cases up
    · trivial
    · exact hkey ▸ hrkey
  · have hsafe := hw.safe k
    have hcell := hw.coherent k
    have hcount : c.linkCount k = w.cat.linkCount k := by rw [linkCount, linkCount, hlinks]
    show Safe (c.chunkPool.find? k) (c.linkCount k) _ _ _
    rw [hcount]
    by_cases hk : k = call.cHash
    · subst hk
      rw [hr]
      cases hup : up with
      | true =>
        refine .prepare_put ?_ hract ⟨i, by simp [UploadPc.Puts]⟩
        rcases hcase with ⟨hnone, -, -⟩ | ⟨r₀, hr₀, -, hst⟩
        · rwa [hnone] at hcell
        · rw [hr₀] at hcell
          rw [hup, eq_comm, decide_eq_true_iff] at hst
          by_contra hne
          have := hcell.active (Nat.pos_of_ne_zero hne)
          simp [hst] at this
      | false =>
        rcases hcase with ⟨-, -, hst⟩ | ⟨r₀, hr₀, -, hst⟩
        · simp [hup] at hst
        · rw [hup, eq_comm, decide_eq_false_iff_not] at hst
          rw [hr₀] at hsafe
          have hst₀ : r₀.state = .active ∨ r₀.state = .pendingDelete := by
            have := hw.known _ r₀ hr₀
            cases hs : r₀.state <;> simp_all
          refine (hsafe.prepare_reuse hst₀ hract).congr ?_
          exact (putting_update (hidle _) (by simp [UploadPc.Puts])).symm
    · rw [hother k hk]
      refine hsafe.congr (putting_update (hidle _) ?_).symm
      cases up <;> simp [UploadPc.Puts, Ne.symm hk]

/-- The `put` of an upload, when no purge has yet to delete the object. -/
theorem Inv.put {key : String} (hw : Inv w) (hi : w.uploads i = .putting call key)
    (hok : ¬ Deleting w.purges call.cHash) :
    Inv { w with
      s3 := putObject key call.payload w.s3
      uploads := Function.update w.uploads i (.linking call) } := by
  have hkey : key = storageKeyOf call.cHash := by
    have := hw.putKeys i
    rwa [hi] at this
  refine ⟨hw.coherent, hw.keys, hw.known, forall_update (P := UploadPc.KeyOk) trivial hw.putKeys,
    hw.deleteKeys, fun k => ?_⟩
  have hsafe := hw.safe k
  by_cases hk : k = call.cHash
  · subst hk
    refine hsafe.put hok ?_ (putting_of_update (by simp [UploadPc.Puts]))
    simp [putObject, hkey]
  · have hne : storageKeyOf k ≠ key := fun he => hk (storageKeyOf_injective (he.trans hkey))
    refine (hsafe.mono (fun ho => ?_) id).congr (putting_update ?_ ?_).symm
    · simpa [putObject, Function.update_of_ne hne] using ho
    · simp [hi, UploadPc.Puts, Ne.symm hk]
    · simp [UploadPc.Puts]

/-- An upload without an outstanding `put` that returns or raises. -/
theorem Inv.setUpload {pc : UploadPc} (hw : Inv w) (hi : ∀ k, ¬ (w.uploads i).Puts k)
    (hpc : ∀ k, ¬ pc.Puts k) (hkey : pc.KeyOk) :
    Inv { w with uploads := Function.update w.uploads i pc } :=
  ⟨hw.coherent, hw.keys, hw.known, forall_update (P := UploadPc.KeyOk) hkey hw.putKeys,
    hw.deleteKeys, fun k => (hw.safe k).congr (putting_update (hi k) (hpc k)).symm⟩

/-- The second transaction of an upload, when the chunk is neither being `put`
nor claimed. -/
theorem Inv.link {sid : String} {seq : ℤ} {h : String} (hw : Inv w)
    (hput : ¬ Putting w.uploads h)
    (hst : ∀ r, w.cat.chunkPool.find? h = some r → r.state ≠ .purgingS3)
    (hs : saveChunkRef now sid seq h w.cat = .ok c) : Inv { w with cat := c } := by
  obtain ⟨⟨r, hr⟩, hfind, hcount, -, -⟩ := insertSnapshotChunk_ok hs
  have hr : w.cat.chunkPool.find? h = some r := hr
  have hrows := RowsFrom.insertSnapshotChunk hs
  refine ⟨hw.coherent.insertSnapshotChunk hs, hrows.keys hw.keys,
    hrows.state (Q := (· ≠ .corrupt)) ChunkState.noConfusion hw.known, hw.putKeys, hw.deleteKeys,
    fun k => ?_⟩
  have hsafe := hw.safe k
  show Safe (c.chunkPool.find? k) (c.linkCount k) _ _ _
  rw [hfind, hcount]
  by_cases hk : h = k
  · subst hk
    rw [if_pos rfl, if_pos rfl, hr]
    rw [hr] at hsafe
    refine hsafe.link hput ?_ now
    have h₁ := hst r hr
    have h₂ := hw.known h r hr
    cases hs' : r.state <;> simp_all
  · rw [if_neg hk, if_neg hk]
    exact hsafe

/-- The first transaction of a purge. -/
theorem Inv.claim (hw : Inv w) (n : ℕ) :
    Inv { w with
      cat := (purgePhase1 n w.cat).2
      purges := Function.update w.purges j
        (if (purgePhase1 n w.cat).1.isEmpty then .finished
          else .deleting (purgePhase1 n w.cat).1) } := by
  obtain ⟨hbatch, hfind, hlinks, -⟩ := purgePhase1_spec n w.cat
  have hrows := RowsFrom.purgePhase1 n w.cat
  refine ⟨hw.coherent.purgePhase1 n, hrows.keys hw.keys,
    hrows.state (Q := (· ≠ .corrupt)) ChunkState.noConfusion hw.known, hw.putKeys,
    forall_update (P := PurgePc.KeyOk) ?_ hw.deleteKeys, fun k => ?_⟩
  · split
    · trivial
    · intro e he
      obtain ⟨r, hr, hkey, -, -⟩ := hbatch e.1 e.2 he
      exact hkey ▸ hw.keys e.1 r hr
  · have hsafe := hw.safe k
    have hcell := hw.coherent k
    show Safe ((purgePhase1 n w.cat).2.chunkPool.find? k) ((purgePhase1 n w.cat).2.linkCount k)
      _ _ _
    have hcount : (purgePhase1 n w.cat).2.linkCount k = w.cat.linkCount k := by
      rw [linkCount, linkCount, hlinks]
    rw [hfind, hcount]
    by_cases hmem : k ∈ (purgePhase1 n w.cat).1.map Prod.fst
    · rw [if_pos hmem]
      obtain ⟨⟨h, key⟩, hhk, rfl⟩ := List.mem_map.1 hmem
      obtain ⟨r, hr, -, href, hst⟩ := hbatch h key hhk
      rw [hr] at hsafe hcell ⊢
      refine hsafe.claim ?_ hst (by simp [marked, setState, href])
      have := hcell.refCount
      omega
    · rw [if_neg hmem]
      refine hsafe.mono id (deleting_of_update ?_)
      split
      · exact id
      · exact hmem

/-- The `delete_objects` of a purge. -/
theorem Inv.delete {batch : List (String × String)} (hw : Inv w)
    (hj : w.purges j = .deleting batch) :
    Inv { w with
      s3 := deleteObjects (batch.map Prod.snd) w.s3
      purges := Function.update w.purges j (.confirming batch) } := by
  have hkeys : ∀ e ∈ batch, e.2 = storageKeyOf e.1 := by
    have := hw.deleteKeys j
    rwa [hj] at this
  refine ⟨hw.coherent, hw.keys, hw.known, hw.putKeys,
    forall_update (P := PurgePc.KeyOk) trivial hw.deleteKeys, fun k => ?_⟩
  have hsafe := hw.safe k
  by_cases hmem : k ∈ batch.map Prod.fst
  · exact hsafe.delete ⟨j, by simpa [hj, PurgePc.Deletes] using hmem⟩
  · refine hsafe.mono (fun ho => ?_) (deleting_of_update (by simp [PurgePc.Deletes]))
    have hnot : storageKeyOf k ∉ batch.map Prod.snd := by
      intro hk
      obtain ⟨e, he, hek⟩ := List.mem_map.1 hk
      rw [hkeys e he] at hek
      exact hmem (storageKeyOf_injective hek ▸ List.mem_map_of_mem he)
    simpa [deleteObjects, hnot] using ho

/-- The second transaction of a purge. -/
theorem Inv.confirm {hs : List String} (hw : Inv w) (h : purgePhase2 hs w.cat = .ok c) :
    Inv { w with cat := c } := by
  obtain ⟨hfind, hlinks, -⟩ := purgePhase2_ok h
  have hrows := RowsFrom.purgePhase2 h
  refine ⟨hw.coherent.purgePhase2 h, hrows.keys hw.keys,
    hrows.state (Q := (· ≠ .corrupt)) ChunkState.noConfusion hw.known, hw.putKeys, hw.deleteKeys,
    fun k => ?_⟩
  have hsafe := hw.safe k
  have hcount : c.linkCount k = w.cat.linkCount k := by rw [linkCount, linkCount, hlinks]
  show Safe (c.chunkPool.find? k) (c.linkCount k) _ _ _
  rw [hfind, hcount]
  split_ifs
  · exact hsafe.confirm
  · exact hsafe

/-- A purge that has nothing to delete before and after. -/
theorem Inv.setPurge {pc : PurgePc} (hw : Inv w) (hpc : ∀ k, ¬ pc.Deletes k) (hkey : pc.KeyOk) :
    Inv { w with purges := Function.update w.purges j pc } :=
  ⟨hw.coherent, hw.keys, hw.known, hw.putKeys,
    forall_update (P := PurgePc.KeyOk) hkey hw.deleteKeys,
    fun k => (hw.safe k).mono id (deleting_of_update (hpc k))⟩

end Steps

/-! ### Every run -/

/-- **One orderly step keeps the invariant.** -/
theorem inv_step (w : World) (e : Event) (w' : World) (hw : Inv w) (hok : Orderly w e)
    (h : step w e = some w') : Inv w' := by
  cases e with
  | insertSnapshot s =>
    obtain rfl := Option.some.inj h
    cases hs : insertSnapshot s w.cat with
    | error e => exact hw
    | ok c =>
      obtain ⟨-, -, hp, hl⟩ := insertSnapshot_ok hs
      exact hw.frame hp hl
  | setEstado id estado =>
    obtain rfl := Option.some.inj h
    exact hw.frame rfl rfl
  | purgeSnapshot id now =>
    obtain rfl := Option.some.inj h
    cases hp : purgeSnapshot now id w.cat with
    | error e => exact hw
    | ok c => exact hw.purgeSnapshot hp
  | prepare i call now =>
    simp only [step] at h
    split at h
    · next hi =>
      split at h
      · obtain rfl := Option.some.inj h
        exact hw.setUpload (by simp [hi, UploadPc.Puts]) (by simp [UploadPc.Puts]) trivial
      · next c key up hp =>
        obtain rfl := Option.some.inj h
        exact hw.prepare hi hp
    · cases h
  | put i =>
    simp only [step] at h
    split at h
    · next call key hi =>
      obtain rfl := Option.some.inj h
      exact hw.put hi (hok call key hi)
    · cases h
  | link i now =>
    simp only [step] at h
    split at h
    · next call hi =>
      have hidle : ∀ k, ¬ (w.uploads i).Puts k := by simp [hi, UploadPc.Puts]
      obtain ⟨hput, hst⟩ := hok call hi
      split at h
      · obtain rfl := Option.some.inj h
        exact hw.setUpload hidle (by simp [UploadPc.Puts]) trivial
      · next c hs =>
        obtain rfl := Option.some.inj h
        exact (hw.link hput hst hs).setUpload hidle (by simp [UploadPc.Puts]) trivial
    · cases h
  | claim j n =>
    simp only [step] at h
    split at h
    · obtain rfl := Option.some.inj h
      exact hw.claim n
    · cases h
  | delete j =>
    simp only [step] at h
    split at h
    · next batch hj =>
      obtain rfl := Option.some.inj h
      exact hw.delete hj
    · cases h
  | confirm j =>
    simp only [step] at h
    split at h
    · next batch hj =>
      obtain rfl := Option.some.inj h
      have hset : Inv { w with purges := Function.update w.purges j .finished } :=
        hw.setPurge (by simp [PurgePc.Deletes]) trivial
      cases hp : purgePhase2 (batch.map Prod.fst) w.cat with
      | error e => exact hset
      | ok c => exact hset.confirm (w := { w with purges := _ }) hp
    · cases h

/-- **Orderly runs never dangle**: whatever the number of uploads and purges and
the order of their steps, a run that overtakes nothing leads only to catalogs
whose links all have their objects. -/
theorem no_dangling_of_orderly {w : World} (h : Reach step Orderly World.init w) :
    NoDangling w :=
  (h.invariant inv_init inv_step).noDangling

/-- The first block of a backup. -/
def firstCall : Call := ⟨"snap-1", 0, [1], "ab"⟩

/-- The first block of another backup, with the same content. -/
def secondCall : Call := ⟨"snap-2", 0, [1], "ab"⟩

/-- A block may be linked that is `ACTIVE`, and that no upload has yet to `put`. -/
theorem orderly_link {w : World} {i : ℕ} (call : Call) {now : Time}
    (hi : w.uploads i = .linking call)
    (hrow : (w.cat.chunkPool.find? call.cHash).map ChunkPool.state = some .active)
    (hputs : ∀ k, ¬ (w.uploads k).Puts call.cHash) : Orderly w (.link i now) := by
  intro call' hcall
  obtain rfl := UploadPc.linking.inj (hi.symm.trans hcall)
  refine ⟨fun ⟨k, hk⟩ => hputs k hk, fun r hr hclaimed => ?_⟩
  rw [hr, Option.map_some, hclaimed] at hrow
  cases hrow

/-- A block has been uploaded and linked, its snapshot purged, and the block claimed, deleted and
confirmed. -/
theorem exists_orderly_purged : ∃ s3 uploads purges, Reach step Orderly World.init
    ⟨empty, s3, uploads, purges⟩ ∧ uploads 1 = .idle ∧ (∀ k, ¬ (uploads k).Puts "ab") ∧
      ∀ k, ¬ (purges k).Deletes "ab" := by
  have h₁ : Reach step Orderly World.init _ :=
    .tail .refl (e := .insertSnapshot (runningSnapshot "snap-1")) trivial rfl
  have h₂ : Reach step Orderly World.init _ := h₁.tail (e := .prepare 0 firstCall 0) trivial rfl
  have h₃ : Reach step Orderly World.init _ :=
    h₂.tail (e := .put 0) (fun _ _ _ ⟨_, hj⟩ => hj) rfl
  have h₄ : Reach step Orderly World.init _ :=
    h₃.tail (e := .link 0 0) (orderly_link firstCall rfl rfl fun k hk => by
      by_cases h0 : k = 0 <;> simp [h0, UploadPc.Puts, World.init] at hk) rfl
  have h₅ : Reach step Orderly World.init _ :=
    h₄.tail (e := .setEstado "snap-1" .purging) trivial rfl
  have h₆ : Reach step Orderly World.init _ :=
    h₅.tail (e := .purgeSnapshot "snap-1" 1) trivial rfl
  have h₇ : Reach step Orderly World.init _ := h₆.tail (e := .claim 0 10) trivial rfl
  have h₈ : Reach step Orderly World.init _ := h₇.tail (e := .delete 0) trivial rfl
  have h₉ : Reach step Orderly World.init _ := h₈.tail (e := .confirm 0) trivial rfl
  refine ⟨_, _, _, h₉, rfl, fun k hk => ?_, fun k hk => ?_⟩
  · by_cases h0 : k = 0 <;> simp [h0, UploadPc.Puts, World.init] at hk
  · by_cases h0 : k = 0 <;> simp [h0, PurgePc.Deletes, World.init] at hk

/-- After that another backup uploads the block again, which has to be `put` once more. -/
theorem no_dangling_of_uploadedAgain : ∃ w, Reach step Orderly World.init w ∧
    w.cat.snapshotChunks.rows = [⟨"snap-2", 0, "ab"⟩] ∧ NoDangling w := by
  obtain ⟨s3, uploads, purges, h, hidle, hputs, hdeletes⟩ := exists_orderly_purged
  have h₁ : Reach step Orderly World.init _ :=
    h.tail (e := .insertSnapshot (runningSnapshot "snap-2")) trivial rfl
  have h₂ : Reach step Orderly World.init _ :=
    h₁.tail (e := .prepare 1 secondCall 2) trivial (by simp only [step, hidle]; rfl)
  have h₃ : Reach step Orderly World.init _ :=
    h₂.tail (e := .put 1) (fun call key hcall ⟨k, hk⟩ => hdeletes k (by
      dsimp only at hcall
      rw [Function.update_self, if_pos rfl] at hcall
      obtain ⟨rfl, -⟩ := UploadPc.putting.inj hcall
      exact hk)) (by simp only [step, Function.update_self]; rfl)
  have h₄ : Reach step Orderly World.init _ :=
    h₃.tail (e := .link 1 2)
      (orderly_link secondCall (by simp only [Function.update_self]) rfl fun k => by
        dsimp only
        rw [Function.update_idem]
        refine forall_update (P := fun pc => ¬ UploadPc.Puts pc "ab") ?_ hputs k
        exact id)
      (by simp only [step, Function.update_self]; rfl)
  exact ⟨_, h₄, rfl, no_dangling_of_orderly h₄⟩

/-- Two uploads of one new hash, the second of which overtakes the first. -/
def overtakingRun : List Event :=
  [.insertSnapshot (runningSnapshot "snap-1"), .insertSnapshot (runningSnapshot "snap-2"),
    .prepare 0 firstCall 0, .prepare 1 secondCall 0, .link 1 0]

/-- **The protocol as it stands lets a link dangle.**  The second upload finds
the row `ACTIVE`, does not `put`, and links a block that the first upload has
yet to `put`. -/
theorem reachable_dangling : ∃ w, Reachable step World.init w ∧ ¬ NoDangling w := by
  have hrun : (exec step World.init overtakingRun).map (fun w => (w.cat.snapshotChunks.rows,
      (w.cat.chunkPool.find? "ab").map fun r => w.s3 r.storageKey)) =
        some ([⟨"snap-2", 0, "ab"⟩], some none) := rfl
  obtain ⟨w, hw, heq⟩ := Option.map_eq_some_iff.1 hrun
  obtain ⟨hlinks, hrow⟩ := Prod.mk.inj heq
  obtain ⟨r, hr, hkey⟩ := Option.map_eq_some_iff.1 hrow
  refine ⟨w, reachable_of_exec hw, fun hno => ?_⟩
  obtain ⟨r', hr', hstored⟩ := hno ⟨"snap-2", 0, "ab"⟩ (by simp [hlinks])
  obtain rfl := Option.some.inj (hr.symm.trans hr')
  simp [hkey] at hstored

end Catalog
end Boveda

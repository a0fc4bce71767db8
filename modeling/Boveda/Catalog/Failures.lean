/-
# What a failed call leaves behind

Two properties of the states between operations, and for each the exact
condition on a history under which it holds in all of them.

| property | of every row | holds as long as |
| --- | --- | --- |
| `Backed` | its object is in the bucket | `FailsCleanly`: a `put` that raises has stored the object, a `delete_objects` that raises has removed none |
| `Reclaimable` | linked or `PENDING_DELETE` | `FailsLinked`: an upload that raises after its first transaction is of a linked chunk |

The pool row is committed as `ACTIVE` before the `put` and nothing takes it back
when the `put` or the second transaction fails (`_db_check_and_prepare`), and
the reversion of a purge puts back every row of its batch, those included whose
object is gone (`execute_two_phase_purge`).
-/

import Boveda.Catalog.History

namespace Boveda
namespace Catalog

open Lib

/-! ### The uploads of one backup -/

/-- `ok` for every block of a backup that is reached, in the store it is reached in. -/
def Along (ok : Store → Block → Prop) (id : String) : ℕ → List Block → Store → Prop
  | _, [], _ => True
  | seq, b :: bs, w => ok w b ∧
      ∀ w', b.upload id seq w = (w', .ok ()) → Along ok id (seq + 1) bs w'

/-- **The rule for the uploads of a backup.**  If an upload that meets `ok` keeps
`J`, and one that does not meet it raises and ends outside `P`, then the whole
backup keeps `J` or ends outside `P`, according to `Along`. -/
theorem uploadAll_rule {J P : Store → Prop} {ok : Store → Block → Prop} {id : String}
    (hgood : ∀ seq w b, InBackup id seq w.cat → J w → ok w b → J (b.upload id seq w).1)
    (hbad : ∀ seq w b, InBackup id seq w.cat → J w → ¬ ok w b → b.Fails w.cat ∧
      ¬ P (b.upload id seq w).1)
    {seq : ℕ} {w : Store} (bs : List Block) (hw : InBackup id seq w.cat) (hJ : J w) :
    Settled (uploadAll id seq bs w).cat ∧
      (Along ok id seq bs w → J (uploadAll id seq bs w)) ∧
      (¬ Along ok id seq bs w → ¬ P (uploadAll id seq bs w)) := by
  induction bs generalizing seq w with
  | nil => exact ⟨hw.settled, fun _ => hJ, fun h => absurd trivial h⟩
  | cons b bs ih =>
    obtain ⟨c₁, r, -, -, -, -, hc₁, hfails, hgoes⟩ := b.upload_spec hw
    by_cases hf : b.Fails w.cat
    · obtain ⟨e, he⟩ := hfails hf
      have hall : uploadAll id seq (b :: bs) w = (b.upload id seq w).1 := by
        rw [uploadAll, he]
      have halong : Along ok id seq (b :: bs) w ↔ ok w b := by
        simp [Along, he]
      rw [hall, halong]
      exact ⟨by rw [he]; exact hc₁, hgood seq w b hw hJ, fun hno => (hbad seq w b hw hJ hno).2⟩
    · obtain ⟨c₂, hup, -, hc₂⟩ := hgoes hf
      have hok : ok w b := by
        by_contra hno
        exact hf (hbad seq w b hw hJ hno).1
      have hall : uploadAll id seq (b :: bs) w = uploadAll id (seq + 1) bs ⟨c₂, b.s3After w⟩ := by
        rw [uploadAll, hup]
      have halong : Along ok id seq (b :: bs) w ↔
          Along ok id (seq + 1) bs ⟨c₂, b.s3After w⟩ := by
        simp [Along, hup, hok]
      have hJ' := hgood seq w b hw hJ hok
      rw [hup] at hJ'
      rw [hall, halong]
      exact ih hc₂ hJ'

/-- A snapshot that has just been inserted has no block. -/
theorem InBackup.start {s : Snapshot} {c c' : Catalog} (hc : Settled c)
    (h : insertSnapshot s c = .ok c') : InBackup s.id 0 c' := by
  obtain ⟨hn, hfind, -, hlinks⟩ := insertSnapshot_ok h
  refine ⟨hc.insertSnapshot h, by simp [hfind],
    fun k _ => Table.find?_eq_none.2 fun l hl hpk => ?_⟩
  have hid : l.snapshotId = s.id := congrArg Prod.fst hpk
  have := hc.owned l (hlinks ▸ hl)
  rw [hid, hn] at this
  cases this

/-! ### Whole histories -/

/-- A condition on each upload and each purge of an operation. -/
def OpOk (okBlock : Store → Block → Prop) (okPurge : Store → ℕ → DeleteOutcome → Prop)
    (w : Store) : Op → Prop
  | .backup s blocks _ =>
    ∀ c, insertSnapshot s w.cat = .ok c → Along okBlock s.id 0 blocks ⟨c, w.s3⟩
  | .executeTwoPhasePurge n o => okPurge w n o
  | _ => True

/-- What has to be shown of an invariant `J`, a property `P` and the conditions
on an upload and on a purge for the conditions to be the exact ones.  `J` and
`P` are about the chunks, the links and the bucket. -/
structure FailureRule (J P : Store → Prop) (okBlock : Store → Block → Prop)
    (okPurge : Store → ℕ → DeleteOutcome → Prop) : Prop where
  init : J Store.init
  frame : ∀ c c' s3, J ⟨c, s3⟩ → c'.chunkPool = c.chunkPool →
    c'.snapshotChunks = c.snapshotChunks → J ⟨c', s3⟩
  frameProp : ∀ c c' s3, P ⟨c, s3⟩ → c'.chunkPool = c.chunkPool →
    c'.snapshotChunks = c.snapshotChunks → P ⟨c', s3⟩
  holds : ∀ w, Settled w.cat → J w → P w
  upload : ∀ id seq w b, InBackup id seq w.cat → J w → okBlock w b → J (b.upload id seq w).1
  uploadBad : ∀ id seq w b, InBackup id seq w.cat → J w → ¬ okBlock w b →
    b.Fails w.cat ∧ ¬ P (b.upload id seq w).1
  unlink : ∀ now c s3 l, l ∈ c.snapshotChunks.rows → Settled c → J ⟨c, s3⟩ →
    J ⟨deleteSnapshotChunk now c l, s3⟩
  purge : ∀ w n o, Settled w.cat → J w → okPurge w n o → J (executeTwoPhasePurge n o w).1
  purgeBad : ∀ w n o, Settled w.cat → J w → ¬ okPurge w n o →
    ¬ P (executeTwoPhasePurge n o w).1

/-- A purge leaves the catalog settled. -/
theorem settled_executeTwoPhasePurge {w : Store} (hc : Settled w.cat) (n : ℕ)
    (o : DeleteOutcome) : Settled (executeTwoPhasePurge n o w).1.cat := by
  obtain ⟨hfind, hlinks, hsnaps, hinv, -⟩ := executeTwoPhasePurge_spec hc n o
  have hold : ∀ k r, (executeTwoPhasePurge n o w).1.cat.chunkPool.find? k = some r →
      w.cat.chunkPool.find? k = some r := by
    intro k r hr
    rw [hfind] at hr
    split_ifs at hr
    exact hr
  exact ⟨hinv, fun k r hr => hc.keys k r (hold k r hr),
    fun k r hr => hc.unclaimed k r (hold k r hr), fun l hl => hsnaps ▸ hc.owned l (hlinks ▸ hl)⟩

/-- **The rule for histories.**  Under a `FailureRule`, the property holds
between all operations of a history exactly when every operation meets the
condition. -/
theorem FailureRule.allStates_iff {J P : Store → Prop} {okBlock : Store → Block → Prop}
    {okPurge : Store → ℕ → DeleteOutcome → Prop} (h : FailureRule J P okBlock okPurge)
    (ops : List Op) : AllStates stepOp P Store.init ops ↔
      AllSteps stepOp (OpOk okBlock okPurge) Store.init ops := by
  have hinsert : ∀ {w : Store} {s c}, J w → insertSnapshot s w.cat = .ok c → J ⟨c, w.s3⟩ := by
    intro w s c hJ hs
    obtain ⟨-, -, hp, hl⟩ := insertSnapshot_ok hs
    exact h.frame w.cat c w.s3 hJ hp hl
  refine allStates_iff_allSteps (I := fun w => Settled w.cat ∧ J w)
    (fun w hw => h.holds w hw.1 hw.2) (fun w op w' hw hstep hok => ?_) (fun w op w' hw hstep hok => ?_)
    ⟨settled_empty, h.init⟩ ops
  · obtain rfl := Option.some.inj hstep
    obtain ⟨hc, hJ⟩ := hw
    cases op with
    | backup s bs estado =>
      simp only [perform, backup]
      cases hs : insertSnapshot s w.cat with
      | error e => exact ⟨hc, hJ⟩
      | ok c =>
        have hin := InBackup.start hc hs
        have hJ₀ : J ⟨c, w.s3⟩ := hinsert hJ hs
        obtain ⟨hc', hJ', -⟩ := uploadAll_rule (h.upload s.id) (h.uploadBad s.id) bs hin hJ₀
        exact ⟨hc'.setEstado s.id estado, h.frame _ _ _ (hJ' (hok c hs)) rfl rfl⟩
    | setEstado id estado => exact ⟨hc.setEstado id estado, h.frame _ _ _ hJ rfl rfl⟩
    | purgeSnapshot id now =>
      simp only [perform]
      cases hp : purgeSnapshot now id w.cat with
      | error e => exact ⟨hc, hJ⟩
      | ok c =>
        exact hc.purgeSnapshot_rule (J := fun c => J ⟨c, w.s3⟩) hJ
          (fun c l hl hc hJ => h.unlink now c w.s3 l hl hc hJ)
          (fun c c' hp hl hJ => h.frame c c' w.s3 hJ hp hl) hp
    | executeTwoPhasePurge n o =>
      exact ⟨settled_executeTwoPhasePurge hc n o, h.purge w n o hc hJ hok⟩
  · obtain rfl := Option.some.inj hstep
    obtain ⟨hc, hJ⟩ := hw
    cases op with
    | backup s bs estado =>
      simp only [OpOk, not_forall] at hok
      obtain ⟨c, hs, hno⟩ := hok
      have hin := InBackup.start hc hs
      have hJ₀ : J ⟨c, w.s3⟩ := hinsert hJ hs
      simp only [perform, backup, hs]
      exact fun hP => (uploadAll_rule (h.upload s.id) (h.uploadBad s.id) bs hin hJ₀).2.2 hno
        (h.frameProp _ _ _ hP rfl rfl)
    | setEstado id estado => exact absurd trivial hok
    | purgeSnapshot id now => exact absurd trivial hok
    | executeTwoPhasePurge n o => exact h.purgeBad w n o hc hJ hok

/-! ### Objects -/

/-- Every row that a later backup may reuse has its object, and so has every
link. -/
structure Backed (w : Store) : Prop where
  stored : ∀ r ∈ w.cat.chunkPool.rows, r.state = .active ∨ r.state = .pendingDelete →
    (w.s3 r.storageKey).isSome = true
  links : ∀ l ∈ w.cat.snapshotChunks.rows, ∃ r ∈ w.cat.chunkPool.rows,
    r.hashSha256 = l.chunkHash ∧ (w.s3 r.storageKey).isSome = true

/-- A `put` that is made either stores the object or is not known to have failed. -/
def PutsCleanly (w : Store) (b : Block) : Prop :=
  w.cat.chunkPool.find? b.cHash = none → b.put ≠ .raises false

/-- A `delete_objects` that raises has removed no object of its batch. -/
def DeletesCleanly (w : Store) (n : ℕ) (o : DeleteOutcome) : Prop :=
  ∀ e ∈ chunksToPurge n w.cat, o = .returns ∨ o.removes e.2 = false

/-- The condition for `Backed`. -/
def FailsCleanly : Store → Op → Prop := OpOk PutsCleanly DeletesCleanly

/-- The bucket holds the objects of the rows and no others. -/
def Mirrored (w : Store) : Prop :=
  ∀ h, (w.s3 (storageKeyOf h)).isSome = (w.cat.chunkPool.find? h).isSome

theorem Mirrored.backed {w : Store} (hw : Mirrored w) (hc : Settled w.cat) : Backed w := by
  have hstored : ∀ h r, w.cat.chunkPool.find? h = some r → (w.s3 r.storageKey).isSome = true := by
    intro h r hr
    rw [hc.keys h r hr, hw h, hr]
    rfl
  constructor
  · intro r hr _
    exact hstored _ r (Table.find?_of_mem hr)
  · intro l hl
    obtain ⟨r, hr, hhash⟩ := hc.coherent.hash_exists hl
    exact ⟨r, hr, hhash, hstored _ r (Table.find?_of_mem hr)⟩

/-- A row without its object. -/
theorem not_backed {w : Store} {h : String} {r : ChunkPool} (hc : Settled w.cat)
    (hr : w.cat.chunkPool.find? h = some r) (hs : (w.s3 (storageKeyOf h)).isSome = false) :
    ¬ Backed w := by
  intro hB
  have := hB.stored r (Table.mem_of_find? hr) (hc.unclaimed h r hr)
  rw [hc.keys h r hr, hs] at this
  cases this

/-- The bucket after an upload, seen from one hash. -/
theorem Block.isSome_s3After (b : Block) (w : Store) (h : String) :
    (b.s3After w (storageKeyOf h)).isSome =
      if h = b.cHash ∧ w.cat.chunkPool.find? b.cHash = none ∧ b.put ≠ .raises false then true
      else (w.s3 (storageKeyOf h)).isSome := by
  unfold Block.s3After
  by_cases hnew : w.cat.chunkPool.find? b.cHash = none
  · by_cases hh : h = b.cHash
    · subst hh
      cases hput : b.put with
      | returns => simp [hnew, uploadToS3, putObject]
      | raises stored => cases stored <;> simp [hnew, uploadToS3, putObject]
    · have hne : storageKeyOf h ≠ storageKeyOf b.cHash := fun he => hh (storageKeyOf_injective he)
      cases hput : b.put with
      | returns => simp [hnew, hh, uploadToS3, putObject, Function.update_of_ne hne]
      | raises stored =>
        cases stored <;> simp [hnew, hh, uploadToS3, putObject, Function.update_of_ne hne]
  · simp [hnew]

/-- The catalog after an upload, seen from the rows there are. -/
theorem Block.isSome_find?_upload {w : Store} {id : String} {seq : ℕ}
    (hw : InBackup id seq w.cat) (b : Block) :
    (b.upload id seq w).1.s3 = b.s3After w ∧ ∀ h,
      ((b.upload id seq w).1.cat.chunkPool.find? h).isSome =
        (decide (h = b.cHash) || (w.cat.chunkPool.find? h).isSome) := by
  obtain ⟨c₁, r, hr, -, hother, -, -, hfails, hgoes⟩ := b.upload_spec hw
  have h₁ : ∀ h, (c₁.chunkPool.find? h).isSome =
      (decide (h = b.cHash) || (w.cat.chunkPool.find? h).isSome) := by
    intro h
    by_cases hh : h = b.cHash
    · simp [hh, hr]
    · simp [hh, hother h hh]
  by_cases hf : b.Fails w.cat
  · obtain ⟨e, he⟩ := hfails hf
    rw [he]
    exact ⟨rfl, h₁⟩
  · obtain ⟨c₂, hup, h₂, -⟩ := hgoes hf
    obtain ⟨-, hfind, -⟩ := insertSnapshotChunk_ok h₂
    rw [hup]
    refine ⟨rfl, fun h => ?_⟩
    rw [hfind, ← h₁]
    split_ifs
    · exact Option.isSome_map
    · rfl

theorem failureRule_backed : FailureRule Mirrored Backed PutsCleanly DeletesCleanly where
  init _ := rfl
  frame _ _ _ hJ hp _ h := by
    rw [hp]
    exact hJ h
  frameProp _ _ _ hP hp hl := ⟨by rw [hp]; exact hP.stored, by rw [hp, hl]; exact hP.links⟩
  holds _ hc hJ := hJ.backed hc
  upload id seq w b hin hJ hok h := by
    obtain ⟨hs3, hfind⟩ := Block.isSome_find?_upload hin b
    rw [hs3, hfind, b.isSome_s3After, hJ h]
    by_cases hh : h = b.cHash
    · by_cases hnew : w.cat.chunkPool.find? b.cHash = none
      · simp [hh, hnew, hok hnew]
      · simp [hh, hnew, Option.isSome_iff_ne_none]
    · simp [hh]
  uploadBad id seq w b hin hJ hok := by
    obtain ⟨hnew, hput⟩ : w.cat.chunkPool.find? b.cHash = none ∧ b.put = .raises false := by
      simpa [PutsCleanly] using hok
    have hf : b.Fails w.cat := Or.inl ⟨hnew, by simp [hput]⟩
    obtain ⟨c₁, r, hr, -, -, -, hc₁, hfails, -⟩ := b.upload_spec hin
    obtain ⟨e, he⟩ := hfails hf
    refine ⟨hf, ?_⟩
    rw [he]
    refine not_backed hc₁ hr ?_
    rw [b.isSome_s3After, hJ, hnew]
    simp [hput]
  unlink now c s3 l hl hc hJ h := by
    show (s3 (storageKeyOf h)).isSome = _
    rw [find?_deleteSnapshotChunk, hJ h]
    split_ifs
    · exact Option.isSome_map.symm
    · rfl
  purge w n o hc hJ hok h := by
    obtain ⟨hfind, -, -, -, hs3⟩ := executeTwoPhasePurge_spec hc n o
    rw [hfind, hs3]
    have hmem : storageKeyOf h ∈ (chunksToPurge n w.cat).map Prod.snd ↔
        h ∈ (chunksToPurge n w.cat).map Prod.fst := by
      simp only [List.mem_map]
      refine exists_congr fun e => and_congr_right fun he => ?_
      rw [(mem_chunksToPurge hc he).1]
      exact storageKeyOf_injective.eq_iff
    by_cases hb : h ∈ (chunksToPurge n w.cat).map Prod.fst
    · obtain ⟨e, he, rfl⟩ := List.mem_map.1 hb
      rcases hok e he with rfl | hno
      · simp [hmem, hb, DeleteOutcome.removes]
      · rw [(mem_chunksToPurge hc he).1] at hno
        have ho : o ≠ .returns := by
          rintro rfl
          cases hno
        simp [hno, ho, hJ e.1]
    · simp only [hmem, hb, false_and, if_false]
      exact hJ h
  purgeBad w n o hc hJ hok := by
    obtain ⟨e, he, ho, hrem⟩ : ∃ e ∈ chunksToPurge n w.cat, o ≠ .returns ∧
        o.removes e.2 = true := by
      simpa [DeletesCleanly] using hok
    obtain ⟨hfind, -, -, -, hs3⟩ := executeTwoPhasePurge_spec hc n o
    obtain ⟨hkey, r, hr, -, -⟩ := mem_chunksToPurge hc he
    refine not_backed (h := e.1) (r := r) (settled_executeTwoPhasePurge hc n o) ?_ ?_
    · rw [hfind]
      simp [ho, hr]
    · rw [hs3, ← hkey]
      simp only [List.mem_map_of_mem (f := Prod.snd) he, hrem, and_self, if_true]
      rfl

/-- **When every reusable row has its object.**  In a history from the empty
catalog, every row that is `ACTIVE` or `PENDING_DELETE` between two operations
has its object exactly when no call that raised was half done: no `put` of a
new block failed to store it, and no failed `delete_objects` removed anything. -/
theorem backed_iff_failsCleanly (ops : List Op) : AllStates stepOp Backed Store.init ops ↔
    AllSteps stepOp FailsCleanly Store.init ops :=
  failureRule_backed.allStates_iff ops

/-- A block whose `put` raises and stores nothing. -/
def lostBlock : Block := { payload := [1], cHash := "ab", now := 0, put := .raises false }

/-- A backup of one such block. -/
def failedPut : List Op := [.backup (runningSnapshot "snap-1") [lostBlock] .failed]

/-- A backup, its expiry, and a purge whose `delete_objects` raises when the
object is gone. -/
def failedDelete : List Op :=
  [.backup (runningSnapshot "snap-1") [{ lostBlock with put := .returns }] .completed,
    .setEstado "snap-1" .purging, .purgeSnapshot "snap-1" 1,
    .executeTwoPhasePurge 500 (.raises ["chunks/ab.bin"])]

/-- **A failed call can leave a reusable row without its object**: the row of a
block whose `put` failed stays `ACTIVE`, and a row whose object a failed
`delete_objects` removed goes back to `PENDING_DELETE`. -/
theorem not_backed_of_failure : ¬ AllStates stepOp Backed Store.init failedPut ∧
    ¬ AllStates stepOp Backed Store.init failedDelete := by
  constructor
  · rintro ⟨-, h⟩
    have := (h _ rfl).stored _ (List.mem_singleton_self _) (Or.inl rfl)
    cases this
  · rintro ⟨-, h⟩
    have h₄ := (((h _ rfl).2 _ rfl).2 _ rfl).2 _ rfl
    have := h₄.stored _ (List.mem_singleton_self _) (Or.inr rfl)
    cases this

/-! ### Rows without links -/

/-- Every row without a link is `PENDING_DELETE`, so that a purge can select it. -/
def Reclaimable (w : Store) : Prop :=
  ∀ r ∈ w.cat.chunkPool.rows, w.cat.linkCount r.hashSha256 = 0 → r.state = .pendingDelete

/-- An upload that raises after its first transaction is of a linked chunk. -/
def LinkedIfFails (w : Store) (b : Block) : Prop := b.Fails w.cat → 0 < w.cat.linkCount b.cHash

/-- The condition for `Reclaimable`. -/
def FailsLinked : Store → Op → Prop := OpOk LinkedIfFails fun _ _ _ => True

theorem reclaimable_iff {w : Store} : Reclaimable w ↔ ∀ h r, w.cat.chunkPool.find? h = some r →
    w.cat.linkCount h = 0 → r.state = .pendingDelete := by
  constructor
  · intro hw h r hr hn
    exact hw r (Table.mem_of_find? hr) (by rwa [Table.key_of_find? hr])
  · intro hw r hr hn
    exact hw _ r (Table.find?_of_mem hr) hn

theorem failureRule_reclaimable :
    FailureRule Reclaimable Reclaimable LinkedIfFails fun _ _ _ => True where
  init _ hr := nomatch hr
  frame _ _ _ hJ hp hl := by
    unfold Reclaimable linkCount at hJ ⊢
    rwa [hp, hl]
  frameProp _ _ _ hJ hp hl := by
    unfold Reclaimable linkCount at hJ ⊢
    rwa [hp, hl]
  holds _ _ hJ := hJ
  upload id seq w b hin hJ hok := by
    obtain ⟨c₁, r, hr, -, hother, hlinks, -, hfails, hgoes⟩ := b.upload_spec hin
    have hcount₁ : ∀ h, c₁.linkCount h = w.cat.linkCount h := fun h => by
      rw [linkCount, linkCount, hlinks]
    rw [reclaimable_iff] at hJ ⊢
    by_cases hf : b.Fails w.cat
    · obtain ⟨e, he⟩ := hfails hf
      rw [he]
      intro h r' hr' hn
      rw [hcount₁] at hn
      by_cases hh : h = b.cHash
      · exact absurd (hok hf) (by simp [← hh, hn])
      · exact hJ h r' (hother h hh ▸ hr') hn
    · obtain ⟨c₂, hup, h₂, -⟩ := hgoes hf
      obtain ⟨-, hfind, hcount, -, -⟩ := insertSnapshotChunk_ok h₂
      rw [hup]
      intro h r' hr' hn
      have hh : b.cHash ≠ h := by
        rintro rfl
        rw [hcount, if_pos rfl] at hn
        cases hn
      rw [hcount, if_neg hh, Nat.add_zero, hcount₁] at hn
      rw [hfind, if_neg hh, hother h (Ne.symm hh)] at hr'
      exact hJ h r' hr' hn
  uploadBad id seq w b hin hJ hok := by
    obtain ⟨hf, hn⟩ : b.Fails w.cat ∧ w.cat.linkCount b.cHash = 0 := by
      simpa [LinkedIfFails] using hok
    obtain ⟨c₁, r, hr, hact, -, hlinks, -, hfails, -⟩ := b.upload_spec hin
    obtain ⟨e, he⟩ := hfails hf
    refine ⟨hf, fun hP => ?_⟩
    rw [he, reclaimable_iff] at hP
    have := hP b.cHash r hr (by rwa [linkCount, hlinks])
    simp [hact] at this
  unlink now c s3 l hl hc hJ := by
    rw [reclaimable_iff] at hJ ⊢
    obtain ⟨r, n, hr, hn, hrow⟩ := hc.coherent.exists_row hl
    have hcount := linkCount_deleteSnapshotChunk now hl
    intro h r' hr' h0
    have hch := hcount h
    rw [find?_deleteSnapshotChunk] at hr'
    by_cases hh : l.chunkHash = h
    · subst hh
      rw [if_pos rfl, hr] at hr'
      rw [if_pos rfl, hn, h0] at hch
      have href := hrow.refCount
      rw [← hch] at href
      obtain rfl := Option.some.inj hr'
      simp [trgSnapshotChunksAfterDelete, href]
    · rw [if_neg hh] at hr' hch
      exact hJ h r' hr' (hch ▸ h0)
  purge w n o hc hJ _ := by
    obtain ⟨hfind, hlinks, -, -, -⟩ := executeTwoPhasePurge_spec hc n o
    rw [reclaimable_iff] at hJ ⊢
    intro h r hr hn
    rw [hfind] at hr
    split_ifs at hr
    exact hJ h r hr (by rwa [linkCount, ← hlinks])
  purgeBad _ _ _ _ _ hok := absurd trivial hok

/-- **When every row without a link can be reclaimed.**  In a history from the
empty catalog, every row without a link is `PENDING_DELETE` between any two
operations exactly when each upload that raised after its first transaction,
at the `put` or at the second transaction, was of a chunk with links. -/
theorem reclaimable_iff_failsLinked (ops : List Op) :
    AllStates stepOp Reclaimable Store.init ops ↔ AllSteps stepOp FailsLinked Store.init ops :=
  failureRule_reclaimable.allStates_iff ops

/-- **A failed upload can leave a row that nothing reclaims**: it stays
`ACTIVE` without a link. -/
theorem not_reclaimable_of_failedPut : ¬ AllStates stepOp Reclaimable Store.init failedPut := by
  rintro ⟨-, h⟩
  have := h _ rfl _ (List.mem_singleton_self _) rfl
  cases this

end Catalog
end Boveda

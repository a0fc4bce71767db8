/-
# What the objects and the sizes are

A row of `chunk_pool` and the object under its key come from blocks: the object is
the payload of some block with the hash of the row (`Contents`), and `size_encrypted`
is the length of some such payload without its header (`Sizes`).  Both hold in every
state of a history, whatever fails; `Mirrored`, of `Boveda.Catalog.Failures`, holds as
long as calls fail cleanly.

`StepRule` is what has to be shown of a property for every operation to keep it.
-/

import Boveda.Catalog.Failures

namespace Boveda
namespace Catalog

open Lib

/-! ### The rule for one operation -/

/-- What keeps `J` under a condition on the uploads and one on the purges. -/
structure StepRule (J : Store → Prop) (okBlock : Store → Block → Prop)
    (okPurge : Store → ℕ → DeleteOutcome → Prop) : Prop where
  frame : ∀ c c' s3, J ⟨c, s3⟩ → c'.chunkPool = c.chunkPool →
    c'.snapshotChunks = c.snapshotChunks → J ⟨c', s3⟩
  upload : ∀ id seq w b, InBackup id seq w.cat → J w → okBlock w b → J (b.upload id seq w).1
  unlink : ∀ now c s3 l, l ∈ c.snapshotChunks.rows → Settled c → J ⟨c, s3⟩ →
    J ⟨deleteSnapshotChunk now c l, s3⟩
  purge : ∀ w n o, Settled w.cat → J w → okPurge w n o → J (executeTwoPhasePurge n o w).1

variable {J : Store → Prop} {okBlock : Store → Block → Prop}
  {okPurge : Store → ℕ → DeleteOutcome → Prop}

theorem FailureRule.stepRule {P : Store → Prop} (h : FailureRule J P okBlock okPurge) :
    StepRule J okBlock okPurge where
  frame := h.frame
  upload := h.upload
  unlink := h.unlink
  purge := h.purge

/-- The uploads of a backup. -/
theorem StepRule.uploadAll (h : StepRule J okBlock okPurge) {id : String} {seq : ℕ}
    {bs : List Block} {w : Store} (hw : InBackup id seq w.cat) (hJ : J w)
    (hok : Along okBlock id seq bs w) :
    Settled (uploadAll id seq bs w).cat ∧ J (uploadAll id seq bs w) := by
  induction bs generalizing seq w with
  | nil => exact ⟨hw.settled, hJ⟩
  | cons b bs ih =>
    obtain ⟨c₁, r, -, -, -, -, hc₁, hfails, hgoes⟩ := b.upload_spec hw
    have hJ' := h.upload id seq w b hw hJ hok.1
    rw [Catalog.uploadAll]
    by_cases hf : b.Fails w.cat
    · obtain ⟨e, he⟩ := hfails hf
      rw [he] at hJ' ⊢
      exact ⟨hc₁, hJ'⟩
    · obtain ⟨c₂, hup, -, hc₂⟩ := hgoes hf
      have hrest := hok.2 _ hup
      rw [hup] at hJ' ⊢
      exact ih hc₂ hJ' hrest

/-- **The rule for one operation.** -/
theorem StepRule.perform (h : StepRule J okBlock okPurge) {w : Store} (hc : Settled w.cat)
    (hJ : J w) {op : Op} (hok : OpOk okBlock okPurge w op) :
    Settled (perform w op).cat ∧ J (perform w op) := by
  cases op with
  | backup s bs estado =>
    simp only [Catalog.perform, backup]
    cases hs : insertSnapshot s w.cat with
    | error e => exact ⟨hc, hJ⟩
    | ok c =>
      obtain ⟨-, -, hp, hl⟩ := insertSnapshot_ok hs
      obtain ⟨hc', hJ'⟩ := h.uploadAll (InBackup.start hc hs) (h.frame w.cat c w.s3 hJ hp hl)
        (hok c hs)
      exact ⟨hc'.setEstado s.id estado, h.frame _ _ _ hJ' rfl rfl⟩
  | setEstado id estado => exact ⟨hc.setEstado id estado, h.frame _ _ _ hJ rfl rfl⟩
  | purgeSnapshot id now =>
    simp only [Catalog.perform]
    cases hp : purgeSnapshot now id w.cat with
    | error e => exact ⟨hc, hJ⟩
    | ok c =>
      exact hc.purgeSnapshot_rule (J := fun c => J ⟨c, w.s3⟩) hJ
        (fun c l hl hc hJ => h.unlink now c w.s3 l hl hc hJ)
        (fun c c' hp hl hJ => h.frame c c' w.s3 hJ hp hl) hp
  | executeTwoPhasePurge n o =>
    exact ⟨settled_executeTwoPhasePurge hc n o, h.purge w n o hc hJ hok⟩

/-- The blocks of an operation. -/
def Op.blocks : Op → List Block
  | .backup _ bs _ => bs
  | _ => []

theorem along_of_forall {B : Block → Prop} {id : String} {seq : ℕ} {bs : List Block} {w : Store}
    (h : ∀ b ∈ bs, B b) : Along (fun _ b => B b) id seq bs w := by
  induction bs generalizing seq w with
  | nil => trivial
  | cons b bs ih =>
    exact ⟨h b (List.mem_cons_self ..), fun w' _ => ih fun b hb => h b (List.mem_cons_of_mem _ hb)⟩

/-- The condition that the blocks are among those of `B`. -/
theorem opOk_of_forall {B : Block → Prop} {w : Store} {op : Op} (h : ∀ b ∈ op.blocks, B b) :
    OpOk (fun _ b => B b) (fun _ _ _ => True) w op := by
  cases op with
  | backup s bs estado => exact fun c _ => along_of_forall h
  | setEstado => trivial
  | purgeSnapshot => trivial
  | executeTwoPhasePurge => trivial

/-! ### Objects -/

/-- Every object of a chunk is the payload of a block with its hash. -/
def Contents (B : Block → Prop) (w : Store) : Prop :=
  ∀ h raw, w.s3 (storageKeyOf h) = some raw → ∃ b, B b ∧ b.cHash = h ∧ b.payload = raw

/-- An upload leaves the bucket as it was, or with the payload of the block. -/
theorem Block.upload_s3 {w : Store} {id : String} {seq : ℕ} (hw : InBackup id seq w.cat)
    (b : Block) : (b.upload id seq w).1.s3 = w.s3 ∨
      (b.upload id seq w).1.s3 = putObject (storageKeyOf b.cHash) b.payload w.s3 := by
  rw [(Block.isSome_find?_upload hw b).1, Block.s3After]
  split_ifs
  · cases b.put with
    | returns => exact Or.inr rfl
    | raises stored =>
      cases stored with
      | true => exact Or.inr rfl
      | false => exact Or.inl rfl
  · exact Or.inl rfl

theorem stepRule_contents (B : Block → Prop) :
    StepRule (Contents B) (fun _ b => B b) fun _ _ _ => True where
  frame _ _ _ hJ _ _ := hJ
  upload id seq w b hw hJ hb h raw hraw := by
    rcases b.upload_s3 hw with hs3 | hs3
    · exact hJ h raw (hs3 ▸ hraw)
    · rw [hs3, putObject] at hraw
      by_cases hh : h = b.cHash
      · subst hh
        rw [Function.update_self] at hraw
        exact ⟨b, hb, rfl, Option.some.inj hraw⟩
      · rw [Function.update_of_ne fun he => hh (storageKeyOf_injective he)] at hraw
        exact hJ h raw hraw
  unlink _ _ _ _ _ _ hJ := hJ
  purge w n o hc hJ _ h raw hraw := by
    rw [(executeTwoPhasePurge_spec hc n o).2.2.2.2] at hraw
    split_ifs at hraw
    exact hJ h raw hraw

/-! ### Sizes -/

/-- The sizes of every row are those of a block with its hash; 26 bytes of a payload are
its header. -/
def Sizes (B : Block → Prop) (w : Store) : Prop :=
  ∀ h r, w.cat.chunkPool.find? h = some r → ∃ b, B b ∧ b.cHash = h ∧
    r.sizeEncrypted = b.payload.length - 26

/-- Every row has the sizes of an old one. -/
theorem Sizes.of_rows {B : Block → Prop} {w w' : Store} (hw : Sizes B w)
    (h : ∀ k r, w'.cat.chunkPool.find? k = some r → ∃ r₀, w.cat.chunkPool.find? k = some r₀ ∧
      r.sizeEncrypted = r₀.sizeEncrypted) : Sizes B w' := by
  intro k r hr
  obtain ⟨r₀, hr₀, hsize⟩ := h k r hr
  obtain ⟨b, hb, hk, hb'⟩ := hw k r₀ hr₀
  exact ⟨b, hb, hk, hsize.trans hb'⟩

/-- A row after an upload is an old one, as far as its size goes, or that of the block. -/
theorem Block.upload_sizes (b : Block) (id : String) (seq : ℕ) (w : Store) (k : String)
    (r : ChunkPool) (hr : (b.upload id seq w).1.cat.chunkPool.find? k = some r) :
    (∃ r₀, w.cat.chunkPool.find? k = some r₀ ∧ r.sizeEncrypted = r₀.sizeEncrypted) ∨
      k = b.cHash ∧ r.sizeEncrypted = b.payload.length - 26 := by
  have hprepare : ∀ {c₁ : Catalog} {key : String} {up : Bool},
      dbCheckAndPrepare b.now b.cHash b.payload.length w.cat = .ok (c₁, key, up) →
      ∀ r, c₁.chunkPool.find? k = some r →
        (∃ r₀, w.cat.chunkPool.find? k = some r₀ ∧ r.sizeEncrypted = r₀.sizeEncrypted) ∨
          k = b.cHash ∧ r.sizeEncrypted = b.payload.length - 26 := by
    intro c₁ key up h₁ r hr
    obtain ⟨⟨r₁, hr₁, -, hcase⟩, hother, -, -⟩ := dbCheckAndPrepare_ok h₁
    by_cases hk : k = b.cHash
    · subst hk
      obtain rfl := Option.some.inj (hr₁.symm.trans hr)
      rcases hcase with ⟨-, rfl, -⟩ | ⟨r₀, hr₀, rfl, -⟩
      · exact Or.inr ⟨rfl, rfl⟩
      · refine Or.inl ⟨r₀, hr₀, ?_⟩
        unfold reactivate
        split_ifs <;> rfl
    · exact Or.inl ⟨r, hother k hk ▸ hr, rfl⟩
  unfold Block.upload uploadCallback at hr
  simp only [immediateTransaction_plain] at hr
  cases h₁ : dbCheckAndPrepare b.now b.cHash b.payload.length w.cat with
  | error e =>
    rw [h₁] at hr
    exact Or.inl ⟨r, hr, rfl⟩
  | ok res =>
    obtain ⟨c₁, key, up⟩ := res
    rw [h₁] at hr
    dsimp only at hr
    revert hr
    generalize (if up = true then uploadToS3 b.put key b.payload w.s3 else (w.s3, .ok ())) = put
    obtain ⟨s3, e | -⟩ := put
    · exact hprepare h₁ r
    · cases b.refError with
      | some e => exact hprepare h₁ r
      | none =>
        cases h₂ : saveChunkRef b.now id seq b.cHash c₁ with
        | error e => exact hprepare h₁ r
        | ok c₂ =>
          intro hr
          obtain ⟨-, hfind, -⟩ := insertSnapshotChunk_ok h₂
          have hr := (hfind k).symm.trans hr
          split_ifs at hr
          · obtain ⟨r₀, hr₀, rfl⟩ := Option.map_eq_some_iff.1 hr
            exact hprepare h₁ r₀ hr₀
          · exact hprepare h₁ r hr

theorem stepRule_sizes (B : Block → Prop) :
    StepRule (Sizes B) (fun _ b => B b) fun _ _ _ => True where
  frame _ _ _ hJ hp _ h r hr := hJ h r (hp ▸ hr)
  upload id seq w b _ hJ hb k r hr := by
    rcases b.upload_sizes id seq w k r hr with ⟨r₀, hr₀, hsize⟩ | ⟨rfl, hsize⟩
    · obtain ⟨b', hb', hk, hb''⟩ := hJ k r₀ hr₀
      exact ⟨b', hb', hk, hsize.trans hb''⟩
    · exact ⟨b, hb, rfl, hsize⟩
  unlink now c s3 l _ _ hJ := by
    refine hJ.of_rows fun k r hr => ?_
    have hr := (find?_deleteSnapshotChunk now c l k).symm.trans hr
    split_ifs at hr
    · obtain ⟨r₀, hr₀, rfl⟩ := Option.map_eq_some_iff.1 hr
      exact ⟨r₀, hr₀, rfl⟩
    · exact ⟨r, hr, rfl⟩
  purge w n o hc hJ _ := by
    refine hJ.of_rows fun k r hr => ?_
    rw [(executeTwoPhasePurge_spec hc n o).1] at hr
    split_ifs at hr
    exact ⟨r, hr, rfl⟩

end Catalog
end Boveda

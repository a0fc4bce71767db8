/-
# What an operation leaves alone

The operations of `Boveda.Catalog.History`, seen from a snapshot they are not about.
`perform_frame` is the frame of a whole operation: as long as the row of a snapshot
is in the catalog, no backup of another one, no retention run and no purge changes
its links or anything of its row but the `estado`; and no operation writes to
`configuracion`.

`links_uploadAll` is about the snapshot of the backup itself: the links that it
has when none of its uploads raises.
-/

import Boveda.Catalog.Failures

namespace Boveda
namespace Catalog

open Lib

/-- The rows of `snapshot_chunks` of one snapshot. -/
def linksOf (c : Catalog) (id : String) : List SnapshotChunk :=
  c.snapshotChunks.rows.filter fun l => l.snapshotId = id

theorem mem_linksOf {c : Catalog} {id : String} {l : SnapshotChunk} :
    l ∈ linksOf c id ↔ l ∈ c.snapshotChunks.rows ∧ l.snapshotId = id := by
  simp [linksOf]

theorem linksOf_congr {c c' : Catalog} (h : c'.snapshotChunks = c.snapshotChunks) (id : String) :
    linksOf c' id = linksOf c id := by
  rw [linksOf, linksOf, h]

/-! ### Uploads -/

theorem configuracion_dbCheckAndPrepare {now : Time} {h key : String} {n : ℤ} {up : Bool}
    {c c' : Catalog} (hok : dbCheckAndPrepare now h n c = .ok (c', key, up)) :
    c'.configuracion = c.configuracion := by
  unfold dbCheckAndPrepare at hok
  split at hok
  · cases hins : insertChunkPool (newPool now h n) c with
    | error e => simp [hins, bind, Except.bind] at hok
    | ok c₁ =>
      simp only [hins, bind, Except.bind, pure, Except.pure, Except.ok.injEq, Prod.mk.injEq] at hok
      unfold insertChunkPool at hins
      split_ifs at hins
      obtain rfl := Except.ok.inj hins
      rw [← hok.1]
  · rw [← (Prod.mk.inj (Except.ok.inj hok)).1]
    rfl

theorem saveChunkRef_frame {now : Time} {id h : String} {seq : ℤ} {c c' : Catalog}
    (hok : saveChunkRef now id seq h c = .ok c') : c'.snapshots = c.snapshots ∧
      c'.configuracion = c.configuracion ∧
      c'.snapshotChunks.rows = c.snapshotChunks.rows ++ [⟨id, seq, h⟩] := by
  unfold saveChunkRef insertSnapshotChunk at hok
  split_ifs at hok
  obtain rfl := Except.ok.inj hok
  exact ⟨rfl, rfl, rfl⟩

/-- **What an upload leaves alone**: the snapshots, the configuration, and all links
but the one that it adds when it returns. -/
theorem Block.upload_frame (b : Block) (id : String) (seq : ℕ) (w : Store) :
    (b.upload id seq w).1.cat.snapshots = w.cat.snapshots ∧
      (b.upload id seq w).1.cat.configuracion = w.cat.configuracion ∧
      (b.upload id seq w).1.cat.snapshotChunks.rows = w.cat.snapshotChunks.rows ++
        match (b.upload id seq w).2 with
        | .ok () => [⟨id, seq, b.cHash⟩]
        | .error _ => [] := by
  have hprepare : ∀ {c' : Catalog} {key : String} {up : Bool},
      dbCheckAndPrepare b.now b.cHash b.payload.length w.cat = .ok (c', key, up) →
        c'.snapshots = w.cat.snapshots ∧ c'.configuracion = w.cat.configuracion ∧
          c'.snapshotChunks = w.cat.snapshotChunks := by
    intro c' key up h
    obtain ⟨-, -, hlinks, hsnaps⟩ := dbCheckAndPrepare_ok h
    exact ⟨hsnaps, configuracion_dbCheckAndPrepare h, hlinks⟩
  unfold Block.upload uploadCallback
  simp only [immediateTransaction_plain]
  cases h₁ : dbCheckAndPrepare b.now b.cHash b.payload.length w.cat with
  | error e => simp
  | ok r =>
    obtain ⟨c₁, key, up⟩ := r
    obtain ⟨hsnaps, hconf, hlinks⟩ := hprepare h₁
    dsimp only
    generalize (if up = true then uploadToS3 b.put key b.payload w.s3 else (w.s3, .ok ())) = r
    obtain ⟨s3, e | -⟩ := r
    · exact ⟨hsnaps, hconf, by simp [hlinks]⟩
    · cases hre : b.refError with
      | some e => exact ⟨hsnaps, hconf, by simp [hlinks]⟩
      | none =>
        cases h₂ : saveChunkRef b.now id seq b.cHash c₁ with
        | error e => exact ⟨hsnaps, hconf, by simp [hlinks]⟩
        | ok c₂ =>
          obtain ⟨hsnaps₂, hconf₂, hlinks₂⟩ := saveChunkRef_frame h₂
          exact ⟨hsnaps₂.trans hsnaps, hconf₂.trans hconf, by simp [hlinks₂, hlinks]⟩

theorem uploadAll_frame (id : String) (seq : ℕ) (bs : List Block) (w : Store) :
    (uploadAll id seq bs w).cat.snapshots = w.cat.snapshots ∧
      (uploadAll id seq bs w).cat.configuracion = w.cat.configuracion ∧
      ∀ id', id' ≠ id → linksOf (uploadAll id seq bs w).cat id' = linksOf w.cat id' := by
  induction bs generalizing seq w with
  | nil => exact ⟨rfl, rfl, fun _ _ => rfl⟩
  | cons b bs ih =>
    have hb := b.upload_frame id seq w
    rw [uploadAll]
    revert hb
    generalize b.upload id seq w = r
    obtain ⟨w', e | -⟩ := r
    · rintro ⟨hsnaps, hconf, hlinks⟩
      exact ⟨hsnaps, hconf, fun id' _ => congrArg (List.filter _) (by simpa using hlinks)⟩
    · rintro ⟨hsnaps, hconf, hlinks⟩
      obtain ⟨hsnaps', hconf', hlinks'⟩ := ih (seq + 1) w'
      refine ⟨hsnaps'.trans hsnaps, hconf'.trans hconf, fun id' hne => (hlinks' id' hne).trans ?_⟩
      have := congrArg (List.filter fun l => l.snapshotId = id') hlinks
      simpa [linksOf, hne.symm] using this

/-- What nothing raises on. -/
def Block.Sound (b : Block) : Prop := b.put = .returns ∧ b.refError = none

theorem Block.Sound.not_fails {b : Block} (h : b.Sound) (c : Catalog) : ¬ b.Fails c := by
  simp [Block.Fails, h.1, h.2]

/-- **The links of a backup in which no upload raises**: one for each block, in
order. -/
theorem links_uploadAll {id : String} {seq : ℕ} {bs : List Block} (hbs : ∀ b ∈ bs, b.Sound)
    {w : Store} (hw : InBackup id seq w.cat) :
    linksOf (uploadAll id seq bs w).cat id =
      linksOf w.cat id ++ (bs.zipIdx seq).map fun e => ⟨id, e.2, e.1.cHash⟩ := by
  induction bs generalizing seq w with
  | nil => simp [uploadAll]
  | cons b bs ih =>
    obtain ⟨c₁, r, -, -, -, -, -, -, hgoes⟩ := b.upload_spec hw
    obtain ⟨c₂, hup, -, hc₂⟩ := hgoes ((hbs b (List.mem_cons_self ..)).not_fails _)
    obtain ⟨-, -, hlinks⟩ := b.upload_frame id seq w
    rw [hup] at hlinks
    rw [uploadAll, hup]
    simp only
    rw [ih (fun b hb => hbs b (List.mem_cons_of_mem _ hb)) hc₂, linksOf, hlinks]
    simp [linksOf]

/-! ### Retention -/

/-- Deleting links of other snapshots. -/
theorem foldl_deleteSnapshotChunk_frame (now : Time) (ls : List SnapshotChunk) (c : Catalog) :
    (ls.foldl (deleteSnapshotChunk now) c).snapshots = c.snapshots ∧
      (ls.foldl (deleteSnapshotChunk now) c).configuracion = c.configuracion ∧
      ∀ id, (∀ l ∈ ls, l.snapshotId ≠ id) →
        linksOf (ls.foldl (deleteSnapshotChunk now) c) id = linksOf c id := by
  induction ls generalizing c with
  | nil => exact ⟨rfl, rfl, fun _ _ => rfl⟩
  | cons l ls ih =>
    obtain ⟨hsnaps, hconf, hlinks⟩ := ih (deleteSnapshotChunk now c l)
    refine ⟨hsnaps, hconf, fun id hne => ?_⟩
    rw [List.foldl_cons, hlinks id fun a ha => hne a (List.mem_cons_of_mem _ ha)]
    show (List.filter (fun a => !decide (a.pk = l.pk)) c.snapshotChunks.rows).filter _ = _
    rw [List.filter_filter]
    refine List.filter_congr fun a _ => ?_
    by_cases ha : a.snapshotId = id
    · have hpk : a.pk ≠ l.pk := fun hpk =>
        hne l (List.mem_cons_self ..) ((congrArg Prod.fst hpk).symm.trans ha)
      simp [ha, hpk]
    · simp [ha]

theorem deleteSnapshotChunks_frame (now : Time) (id : String) (c : Catalog) :
    let c' := deleteSnapshotChunks now (fun l => l.snapshotId = id) c
    c'.snapshots = c.snapshots ∧ c'.configuracion = c.configuracion ∧
      ∀ id', id' ≠ id → linksOf c' id' = linksOf c id' := by
  obtain ⟨hsnaps, hconf, hlinks⟩ := foldl_deleteSnapshotChunk_frame now
    (c.snapshotChunks.rows.filter fun l => l.snapshotId = id) c
  refine ⟨hsnaps, hconf, fun id' hne => hlinks id' fun l hl => ?_⟩
  have : l.snapshotId = id := by simpa using (List.mem_filter.1 hl).2
  exact this ▸ hne.symm

/-- A retention run on one snapshot: the others keep their rows and their links, and
its own row, if it is still there, has never been touched. -/
theorem purgeSnapshot_frame (now : Time) (id : String) (c : Catalog) :
    let c' := orUnchanged c (purgeSnapshot now id c)
    c'.configuracion = c.configuracion ∧
      ∀ id' row, c'.snapshots.find? id' = some row →
        c.snapshots.find? id' = some row ∧ linksOf c' id' = linksOf c id' := by
  dsimp only
  cases h : purgeSnapshot now id c with
  | error e => exact ⟨rfl, fun _ _ hrow => ⟨hrow, rfl⟩⟩
  | ok c₃ =>
    show c₃.configuracion = _ ∧ ∀ id' row, c₃.snapshots.find? id' = _ → _
    obtain ⟨hsnaps₁, hconf₁, hlinks₁⟩ := deleteSnapshotChunks_frame now id c
    unfold purgeSnapshot deleteSnapshot at h
    revert h hsnaps₁ hconf₁ hlinks₁
    generalize deleteSnapshotChunks now (fun l => l.snapshotId = id) c = c₁
    intro h hsnaps₁ hconf₁ hlinks₁
    obtain ⟨hsnaps₂, hconf₂, hlinks₂⟩ := deleteSnapshotChunks_frame now id c₁
    split at h
    · next hnone =>
      obtain rfl := Except.ok.inj h
      refine ⟨hconf₁, fun id' row hrow => ?_⟩
      have hne : id' ≠ id := by
        rintro rfl
        rw [hnone] at hrow
        cases hrow
      exact ⟨hsnaps₁ ▸ hrow, hlinks₁ id' hne⟩
    · split at h
      · cases h
      · obtain rfl := Except.ok.inj h
        refine ⟨hconf₂.trans hconf₁, fun id' row hrow => ?_⟩
        -- the row of `id` is gone
        have hrow := (Table.find?_delete _ _ _).symm.trans hrow
        obtain ⟨hrow, hid⟩ := Option.filter_eq_some_iff.1 hrow
        have hne : id' ≠ id := by
          rw [← Table.key_of_find? hrow]
          simpa using hid
        exact ⟨by rw [← hsnaps₁, ← hsnaps₂]; exact hrow, (hlinks₂ id' hne).trans (hlinks₁ id' hne)⟩

/-! ### Purges -/

section

variable {α : Type*} {g : Catalog → α}

/-- A purge writes to `chunk_pool` only: its first transaction, -/
theorem purgePhase1_frame (hg : ∀ c chunkPool, g { c with chunkPool } = g c) (n : ℕ)
    (c : Catalog) : g (purgePhase1 n c).2 = g c :=
  foldl_frame markPurging g (fun c _ => hg c _) _ c

/-- its reversion, -/
theorem purgeRevert_frame (hg : ∀ c chunkPool, g { c with chunkPool } = g c) (hs : List String)
    (c : Catalog) : g (purgeRevert hs c) = g c :=
  foldl_frame revertPurging g (fun c _ => hg c _) hs c

/-- its second transaction, -/
theorem purgePhase2_frame (hg : ∀ c chunkPool, g { c with chunkPool } = g c) {hs : List String}
    {c c' : Catalog} (hok : purgePhase2 hs c = .ok c') : g c' = g c := by
  induction hs generalizing c with
  | nil => rw [show c = c' from Except.ok.inj hok]
  | cons h hs ih =>
    simp only [purgePhase2, List.foldlM_cons] at hok
    cases h₁ : deletePurged c h with
    | error e => simp [h₁, bind, Except.bind] at hok
    | ok c₁ =>
      simp only [h₁, bind, Except.bind] at hok
      rw [ih hok]
      unfold deletePurged deleteChunkPool at h₁
      split at h₁
      · cases h₁
      · rw [← Except.ok.inj h₁, hg]

/-- and as a whole. -/
theorem executeTwoPhasePurge_frame (hg : ∀ c chunkPool, g { c with chunkPool } = g c) (n : ℕ)
    (o : DeleteOutcome) (w : Store) : g (executeTwoPhasePurge n o w).1.cat = g w.cat := by
  have hmark := purgePhase1_frame hg n w.cat
  unfold executeTwoPhasePurge
  unfold purgePhase1 at hmark ⊢
  by_cases hempty : (chunksToPurge n w.cat).isEmpty = true
  · simp only [hempty, if_true]
  · simp only [hempty]
    generalize deleteObjectsS3 o ((chunksToPurge n w.cat).map Prod.snd) w.s3 = r
    obtain ⟨s3, e | -⟩ := r
    · exact (purgeRevert_frame hg _ _).trans hmark
    · cases h : purgePhase2 ((chunksToPurge n w.cat).map Prod.fst)
        (((chunksToPurge n w.cat).map Prod.fst).foldl markPurging w.cat) with
      | error e =>
        dsimp only
        exact hmark
      | ok c' =>
        dsimp only
        exact (purgePhase2_frame hg h).trans hmark

end

/-! ### Whole operations -/

/-- The id of the snapshot that an operation inserts. -/
def Op.inserts : Op → Option String
  | .backup s _ _ => some s.id
  | _ => none

/-- Two rows of a snapshot that differ in `estado` only. -/
def SameButEstado (s s' : Snapshot) : Prop := { s' with estado := s.estado } = s

/-- What an operation other than its own backup leaves of a snapshot. -/
structure Op.Keeps (op : Op) (id : String) (c c' : Catalog) : Prop where
  row : ∀ s', c'.snapshots.find? id = some s' → ∃ s, c.snapshots.find? id = some s ∧
    SameButEstado s s' ∧ (s'.estado = s.estado ∨ op = .setEstado id s'.estado)
  links : (c'.snapshots.find? id).isSome = true → linksOf c' id = linksOf c id

/-- **What an operation leaves alone.**  A snapshot that it does not insert keeps its
links and all of its row but the `estado`, as long as the row is there. -/
theorem perform_frame (w : Store) (op : Op) :
    (perform w op).cat.configuracion = w.cat.configuracion ∧
      ∀ id, op.inserts ≠ some id → op.Keeps id w.cat (perform w op).cat := by
  cases op with
  | backup s bs estado =>
    simp only [perform, backup]
    cases hs : insertSnapshot s w.cat with
    | error e => exact ⟨rfl, fun id _ => ⟨fun s' hs' => ⟨s', hs', rfl, Or.inl rfl⟩, fun _ => rfl⟩⟩
    | ok c =>
      obtain ⟨-, hfind, -, hlinks⟩ := insertSnapshot_ok hs
      have hconf : c.configuracion = w.cat.configuracion := by
        unfold insertSnapshot at hs
        split_ifs at hs
        rw [← Except.ok.inj hs]
      obtain ⟨hsnaps, hconf', hlinks'⟩ := uploadAll_frame s.id 0 bs ⟨c, w.s3⟩
      refine ⟨hconf'.trans hconf, fun id hne => ⟨fun s' hs' => ?_, fun _ => ?_⟩⟩
      · have hne : s.id ≠ id := fun h => hne (congrArg some h)
        have hs' := (find?_setEstado s.id estado _ id).symm.trans hs'
        rw [if_neg hne, hsnaps, hfind, if_neg hne] at hs'
        exact ⟨s', hs', rfl, Or.inl rfl⟩
      · have hne : id ≠ s.id := fun h => hne (congrArg some h.symm)
        exact (hlinks' id hne).trans (linksOf_congr hlinks id)
  | setEstado id estado =>
    refine ⟨rfl, fun id' _ => ⟨fun s' hs' => ?_, fun _ => rfl⟩⟩
    have hs' := (find?_setEstado id estado w.cat id').symm.trans hs'
    split_ifs at hs' with hid
    · obtain ⟨s, hs, rfl⟩ := Option.map_eq_some_iff.1 hs'
      exact ⟨s, hs, rfl, Or.inr (by rw [hid])⟩
    · exact ⟨s', hs', rfl, Or.inl rfl⟩
  | purgeSnapshot id now =>
    obtain ⟨hconf, hrow⟩ := purgeSnapshot_frame now id w.cat
    refine ⟨hconf, fun id' _ => ⟨fun s' hs' =>
      ⟨s', (hrow id' s' hs').1, rfl, Or.inl rfl⟩, fun h => ?_⟩⟩
    obtain ⟨s', hs'⟩ := Option.isSome_iff_exists.1 h
    exact (hrow id' s' hs').2
  | executeTwoPhasePurge n o =>
    have hframe := fun {α : Type} (g : Catalog → α)
        (hg : ∀ c chunkPool, g { c with chunkPool } = g c) => executeTwoPhasePurge_frame hg n o w
    refine ⟨hframe Catalog.configuracion fun _ _ => rfl,
      fun id _ => ⟨fun s' hs' => ?_, fun _ => ?_⟩⟩
    · have hsnaps := hframe Catalog.snapshots fun _ _ => rfl
      exact ⟨s', (congrArg (Table.find? · id) hsnaps).symm.trans hs', rfl, Or.inl rfl⟩
    · exact linksOf_congr (hframe Catalog.snapshotChunks fun _ _ => rfl) id

/-- **What a backup leaves of its own snapshot** when its id is new and no upload raises: the
row, and one link for each block. -/
theorem backup_own {s : Snapshot} {blocks : List Block} {w : Store} (hw : Settled w.cat)
    (hfresh : w.cat.snapshots.find? s.id = none) (hsound : ∀ b ∈ blocks, b.Sound)
    (estado : Estado) :
    (backup s blocks estado w).cat.snapshots.find? s.id = some { s with estado } ∧
      linksOf (backup s blocks estado w).cat s.id =
        (blocks.zipIdx 0).map fun e => ⟨s.id, e.2, e.1.cHash⟩ := by
  have hempty : linksOf w.cat s.id = [] := by
    rw [linksOf, List.filter_eq_nil_iff]
    intro l hl hid
    have := hw.owned l hl
    rw [of_decide_eq_true hid, hfresh] at this
    cases this
  unfold backup
  cases hins : insertSnapshot s w.cat with
  | error e =>
    rw [insertSnapshot, dif_pos hfresh] at hins
    cases hins
  | ok c =>
    obtain ⟨-, hfind, -, hlinks⟩ := insertSnapshot_ok hins
    have hall := links_uploadAll hsound (w := ⟨c, w.s3⟩) (InBackup.start hw hins)
    obtain ⟨hsnaps, -, -⟩ := uploadAll_frame s.id 0 blocks ⟨c, w.s3⟩
    constructor
    · show (setEstado s.id estado _).snapshots.find? s.id = _
      rw [find?_setEstado, if_pos rfl, hsnaps, hfind, if_pos rfl]
      rfl
    · refine (linksOf_congr rfl s.id).trans (hall.trans ?_)
      rw [linksOf_congr hlinks, hempty, List.nil_append]

end Catalog
end Boveda

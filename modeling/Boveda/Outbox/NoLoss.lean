/-
# No chunk is lost on its way through the outbox

A chunk whose `upload_chunk` or `enqueue_chunk` returned normally was accepted by
an uploader, or its staging file is there with its payload and its row is not
`PROCESSED` (`no_loss`).  Nothing else is assumed of the run: uploaders fail as
they like, several drains own one row, any of them is cancelled or crashes
anywhere, and failed operations on files and on the table are handled as in the
source.

`Base` keeps the accounts: ids are not given twice, an upload that has not
committed its row has none, and what a drain knows of a row is what the table
says.  `Secured` is what holds of a committed chunk: the file goes only after an
acceptance, the row becomes `PROCESSED` only after an acceptance, and the drain
that does either has it on record.
-/

import Boveda.Outbox.Effects

namespace Boveda
namespace Outbox

open Lib

/-- The columns of a row that no statement updates. -/
def Row.fixed (r : Row) : String × String × StagedPath :=
  (r.tenantId, r.storageKey, r.payloadEncryptedPath)

/-- The same columns, as a drain has selected them. -/
def Item.fixed (i : Item) : String × String × StagedPath := (i.tenantId, i.storageKey, i.path)

/-- The same columns, as `enqueue_chunk` writes them. -/
def Setting.fixed (S : Setting) (ch : Chunk) (id : ChunkId) : String × String × StagedPath :=
  (ch.tenantId, ch.storageKey, S.stagedPath id ch.storageKey)

/-- The rows with id `id` before and after an update that keeps the fixed columns. -/
theorem find?_updateRows {w : World} {p : Row → Bool} {f : Row → Row}
    {hf : ∀ r, (f r).id = r.id} (id : ChunkId) :
    (w.updateRows p f hf).rows.find? id = (w.rows.find? id).map fun r => if p r then f r else r :=
  Table.find?_update _ _ _ hf id

section Rows

variable {S : Setting} {w w' : World} {e : Event}

/-- An update leaves each row with its fixed columns. -/
theorem updateRows_persists {p : Row → Bool} {f : Row → Row} {hf : ∀ r, (f r).id = r.id}
    (hfix : ∀ r, (f r).fixed = r.fixed) {id : ChunkId} {r : Row} (h : w.rows.find? id = some r) :
    ∃ r', (w.updateRows p f hf).rows.find? id = some r' ∧ r'.fixed = r.fixed := by
  refine ⟨if p r then f r else r, ?_, ?_⟩
  · rw [find?_updateRows, h]
    rfl
  · split_ifs
    · exact hfix r
    · rfl

/-- Every row of an update was there before, with its fixed columns. -/
theorem updateRows_origin {p : Row → Bool} {f : Row → Row} {hf : ∀ r, (f r).id = r.id}
    (hfix : ∀ r, (f r).fixed = r.fixed) {id : ChunkId} {r' : Row}
    (h : (w.updateRows p f hf).rows.find? id = some r') :
    ∃ r, w.rows.find? id = some r ∧ r'.fixed = r.fixed := by
  rw [find?_updateRows] at h
  obtain ⟨r, hr, rfl⟩ := Option.map_eq_some_iff.1 h
  refine ⟨r, hr, ?_⟩
  split_ifs
  · exact hfix r
  · rfl

/-- Rows are never deleted. -/
theorem Effect.persists (h : Effect S w e w') {id : ChunkId} {r : Row}
    (hr : w.rows.find? id = some r) : ∃ r', w'.rows.find? id = some r' ∧ r'.fixed = r.fixed := by
  have hinsert : ∀ {w₁ : World} {ch : Chunk} {id' : ChunkId} {now : Time},
      w.insertRow (S.newRow now id' ch) = some w₁ →
      ∃ r', w₁.rows.find? id = some r' ∧ r'.fixed = r.fixed := by
    intro w₁ ch id' now h₁
    refine ⟨r, ?_, rfl⟩
    rw [World.find?_insertRow h₁, if_neg, hr]
    rintro rfl
    unfold World.insertRow at h₁
    split_ifs at h₁ with hnone
    exact absurd (hnone.symm.trans hr) (by simp)
  cases h with
  | insert _ h₁ => simpa using hinsert h₁
  | insertDrop _ _ h₁ => simpa using hinsert h₁
  | claim =>
    rw [claim_rows]
    refine updateRows_persists (fun _ => ?_) hr
    rfl
  | mark _ _ _ _ =>
    rw [World.setDrain_rows]
    refine updateRows_persists (fun _ => ?_) hr
    rfl
  | fail _ _ =>
    rw [World.setDrain_rows]
    refine updateRows_persists (fun _ => ?_) hr
    rfl
  | _ => exact ⟨r, hr, rfl⟩

/-- A row was there before, or an upload has just inserted it. -/
theorem Effect.origin (h : Effect S w e w') {id : ChunkId} {r' : Row}
    (hr' : w'.rows.find? id = some r') : (∃ r, w.rows.find? id = some r ∧ r'.fixed = r.fixed) ∨
      ∃ u ch, (w.uploads u).draft = some (ch, id) ∧ (w'.uploads u).draft = none ∧
        r'.fixed = S.fixed ch id := by
  have hinsert : ∀ {w₁ : World} {u : ℕ} {ch : Chunk} {id' : ChunkId} {now : Time},
      w.insertRow (S.newRow now id' ch) = some w₁ → w₁.rows.find? id = some r' →
      (w.uploads u).draft = some (ch, id') → (w'.uploads u).draft = none →
      (∃ r, w.rows.find? id = some r ∧ r'.fixed = r.fixed) ∨
        ∃ u ch, (w.uploads u).draft = some (ch, id) ∧ (w'.uploads u).draft = none ∧
          r'.fixed = S.fixed ch id := by
    intro w₁ u ch id' now h₁ hfind hu hu'
    rw [World.find?_insertRow h₁] at hfind
    split_ifs at hfind with hid
    · obtain rfl := Option.some.inj hfind
      obtain rfl : id' = id := hid
      exact .inr ⟨u, ch, hu, hu', rfl⟩
    · exact .inl ⟨r', hfind, rfl⟩
  cases h with
  | insert hu h₁ =>
    exact hinsert h₁ hr' (by rw [hu]; rfl) (by simp [Upload.draft])
  | insertDrop _ hu h₁ =>
    exact hinsert h₁ (by simpa using hr') hu (by simp [Upload.draft])
  | claim =>
    rw [claim_rows] at hr'
    refine .inl (updateRows_origin (fun _ => ?_) hr')
    rfl
  | mark _ _ _ _ =>
    rw [World.setDrain_rows] at hr'
    refine .inl (updateRows_origin (fun _ => ?_) hr')
    rfl
  | fail _ _ =>
    rw [World.setDrain_rows] at hr'
    refine .inl (updateRows_origin (fun _ => ?_) hr')
    rfl
  | _ => exact .inl ⟨r', hr', rfl⟩

/-- What an uploader has accepted stays accepted. -/
theorem Effect.accepted (h : Effect S w e w') : w.accepted ⊆ w'.accepted := by
  cases h with
  | insert _ h₁ => exact (World.files_insertRow h₁).2.2.2.2 ▸ List.Subset.refl _
  | insertDrop _ _ h₁ => exact (World.files_insertRow h₁).2.2.2.2 ▸ List.Subset.refl _
  | accept _ => exact List.subset_cons_self _ _
  | deliver _ => exact List.subset_cons_self _ _
  | _ => exact List.Subset.refl _

/-- Ids stay used. -/
theorem Effect.used (h : Effect S w e w') : w.used ⊆ w'.used := by
  cases h with
  | draw _ => exact List.subset_cons_self _ _
  | insert _ h₁ => exact (World.files_insertRow h₁).2.2.2.1 ▸ List.Subset.refl _
  | insertDrop _ _ h₁ => exact (World.files_insertRow h₁).2.2.2.1 ▸ List.Subset.refl _
  | _ => exact List.Subset.refl _

/-- An upload without a row was one before, or it has just drawn its id. -/
theorem Effect.draft (h : Effect S w e w') {u : ℕ} {ch : Chunk} {id : ChunkId}
    (hu : (w'.uploads u).draft = some (ch, id)) : (w.uploads u).draft = some (ch, id) ∨
      id ∉ w.used ∧ id ∈ w'.used ∧ w'.rows = w.rows ∧ ∀ v, v ≠ u → w'.uploads v = w.uploads v := by
  have hset : ∀ {f : ℕ → Upload} {v : ℕ} {p : Upload}, f = w.uploads →
      (p.draft = none ∨ p.draft = (w.uploads v).draft) →
      (Function.update f v p u).draft = some (ch, id) → (w.uploads u).draft = some (ch, id) := by
    intro f v p hf hp hu
    subst hf
    rw [Function.update_apply] at hu
    split_ifs at hu with huv
    · rcases hp with hp | hp
      · rw [hp] at hu
        cases hu
      · rwa [hp, ← huv] at hu
    · exact hu
  cases h with
  | @draw v ch' id' hid =>
    by_cases huv : u = v
    · subst huv
      simp only [World.setUpload_uploads, Function.update_self, Upload.draft, Option.some.injEq,
        Prod.mk.injEq] at hu
      obtain ⟨rfl, rfl⟩ := hu
      exact .inr ⟨hid, List.mem_cons_self .., rfl, fun v hv => Function.update_of_ne hv _ _⟩
    · simp only [World.setUpload_uploads, Function.update_of_ne huv] at hu
      exact .inl hu
  | stage hv => exact .inl (hset rfl (.inr (by rw [hv]; rfl)) hu)
  | insert _ h₁ => exact .inl (hset (World.files_insertRow h₁).2.1 (.inl rfl) hu)
  | drop _ _ => exact .inl (hset rfl (.inl rfl) hu)
  | insertDrop _ _ h₁ => exact .inl (hset (World.files_insertRow h₁).2.1 (.inl rfl) hu)
  | accept _ => exact .inl (hset rfl (.inl (by cases ‹StorageDestination› <;> rfl)) hu)
  | move hp _ _ => exact .inl (hset rfl (.inl hp) hu)
  | _ => exact .inl hu

/-- What a drain works on it worked on before, or it has just claimed it. -/
theorem Effect.items (h : Effect S w e w') {d : ℕ} {item : Item}
    (hi : item ∈ (w'.drains d).items) : item ∈ (w.drains d).items ∨
      ∃ r ∈ w.rows.rows, item = r.item := by
  have hset : ∀ {f : ℕ → Drain} {v : ℕ} {p : Drain}, f = w.drains →
      (∀ i ∈ p.items, i ∈ (w.drains v).items ∨ ∃ r ∈ w.rows.rows, i = r.item) →
      item ∈ (Function.update f v p d).items →
      item ∈ (w.drains d).items ∨ ∃ r ∈ w.rows.rows, item = r.item := by
    intro f v p hf hp hi
    subst hf
    rw [Function.update_apply] at hi
    split_ifs at hi with hdv
    · exact hdv ▸ hp item hi
    · exact .inl hi
  cases h with
  | insert _ h₁ =>
    rw [World.setUpload_drains, (World.files_insertRow h₁).2.2.1] at hi
    exact .inl hi
  | insertDrop _ _ h₁ =>
    rw [World.setUpload_drains, World.setFile_drains, (World.files_insertRow h₁).2.2.1] at hi
    exact .inl hi
  | claim =>
    refine hset rfl (fun i hi => .inr ?_) hi
    rw [Drain.items_next] at hi
    obtain ⟨r, hr, rfl⟩ := List.mem_map.1 hi
    exact ⟨r, (mem_of_mem_selectRows hr).1, rfl⟩
  | read hitems _ => exact hset rfl (fun i hi => .inl (hitems ▸ hi)) hi
  | leave hsub _ _ => exact hset rfl (fun i hi => .inl (hsub hi)) hi
  | deliver hd => exact hset rfl (fun i hi => .inl (by rw [hd]; exact hi)) hi
  | mark hd hp _ _ =>
    refine hset rfl (fun i hi => .inl ?_) hi
    rw [hp] at hi
    rw [hd]
    exact hi
  | unlink hd =>
    refine hset rfl (fun i hi => .inl ?_) hi
    rw [Drain.items_next] at hi
    rw [hd]
    exact List.mem_cons_of_mem _ hi
  | fail _ hd =>
    refine hset rfl (fun i hi => .inl ?_) hi
    rw [Drain.items_next] at hi
    rw [hd]
    exact List.mem_cons_of_mem _ hi
  | _ => exact .inl hi

end Rows

/-- The accounts of the outbox. -/
structure Base (S : Setting) (w : World) : Prop where
  usedRow : ∀ id r, w.rows.find? id = some r → id ∈ w.used
  path : ∀ id r, w.rows.find? id = some r → r.payloadEncryptedPath.chunkId = id
  draft : ∀ u ch id, (w.uploads u).draft = some (ch, id) → id ∈ w.used ∧ w.rows.find? id = none
  distinct : ∀ u v ch ch' id, (w.uploads u).draft = some (ch, id) →
    (w.uploads v).draft = some (ch', id) → u = v
  items : ∀ d, ∀ item ∈ (w.drains d).items,
    ∃ r, w.rows.find? item.id = some r ∧ r.fixed = item.fixed

theorem base_init (S : Setting) : Base S .init where
  usedRow _ _ h := nomatch h
  path _ _ h := nomatch h
  draft _ _ _ h := nomatch h
  distinct _ _ _ _ _ h := nomatch h
  items _ _ h := nomatch h

/-- The row that a drain works on, and where its file is. -/
theorem Base.item_path {S : Setting} {w : World} (hw : Base S w) {d : ℕ} {item : Item}
    (hi : item ∈ (w.drains d).items) : item.path.chunkId = item.id := by
  obtain ⟨r, hr, hfix⟩ := hw.items d item hi
  have hpath : r.payloadEncryptedPath = item.path := congrArg (fun t => t.2.2) hfix
  rw [← hpath, hw.path _ r hr]

/-- **One step** keeps the accounts. -/
theorem Base.step {S : Setting} {w w' : World} {e : Event} (hw : Base S w)
    (h : Effect S w e w') : Base S w' where
  usedRow id r' hr' := by
    rcases h.origin hr' with ⟨r, hr, -⟩ | ⟨u, ch, hu, -, -⟩
    · exact h.used (hw.usedRow id r hr)
    · exact h.used (hw.draft u ch id hu).1
  path id r' hr' := by
    rcases h.origin hr' with ⟨r, hr, hfix⟩ | ⟨u, ch, -, -, hfix⟩
    · have hpath : r'.payloadEncryptedPath = r.payloadEncryptedPath := congrArg (fun t => t.2.2) hfix
      rw [hpath, hw.path id r hr]
    · have hpath : r'.payloadEncryptedPath = S.stagedPath id ch.storageKey :=
        congrArg (fun t => t.2.2) hfix
      rw [hpath]
      rfl
  draft u ch id hu := by
    rcases h.draft hu with hu₀ | ⟨hid, hid', hrows, -⟩
    · obtain ⟨hused, hnone⟩ := hw.draft u ch id hu₀
      refine ⟨h.used hused, Option.eq_none_iff_forall_ne_some.2 fun r' hr' => ?_⟩
      rcases h.origin hr' with ⟨r, hr, -⟩ | ⟨v, ch', hv, hv', -⟩
      · rw [hnone] at hr
        cases hr
      · obtain rfl := hw.distinct u v ch ch' id hu₀ hv
        rw [hv'] at hu
        cases hu
    · refine ⟨hid', Option.eq_none_iff_forall_ne_some.2 fun r' hr' => ?_⟩
      rw [hrows] at hr'
      exact hid (hw.usedRow id r' hr')
  distinct u v ch ch' id hu hv := by
    by_contra hne
    rcases h.draft hu with hu₀ | ⟨hid, -, -, hothers⟩
    · rcases h.draft hv with hv₀ | ⟨hid, -, -, -⟩
      · exact hne (hw.distinct u v ch ch' id hu₀ hv₀)
      · exact hid (hw.draft u ch id hu₀).1
    · rw [hothers v (Ne.symm hne)] at hv
      exact hid (hw.draft v ch' id hv).1
  items d item hi := by
    rcases h.items hi with hi | ⟨r, hr, rfl⟩
    · obtain ⟨r, hr, hfix⟩ := hw.items d item hi
      obtain ⟨r', hr', hfix'⟩ := h.persists hr
      exact ⟨r', hr', hfix'.trans hfix⟩
    · obtain ⟨r', hr', hfix⟩ := h.persists (Table.find?_of_mem hr)
      exact ⟨r', hr', hfix⟩

/-! ### Before the row is committed -/

/-- The file of an upload that is about to insert its row. -/
def Written (S : Setting) (w : World) : Prop :=
  ∀ u ch id, w.uploads u = .inserting ch id →
    w.files (S.stagedPath id ch.storageKey) = some ch.payload

/-- A file of another id does not matter. -/
theorem update_files_of_ne {f : StagedPath → Option Bytes} {path path' : StagedPath}
    (h : path'.chunkId ≠ path.chunkId) (content : Option Bytes) :
    Function.update f path content path' = f path' :=
  Function.update_of_ne (fun he => h (congrArg StagedPath.chunkId he)) _ _

theorem Written.step {S : Setting} {w w' : World} {e : Event} (hb : Base S w) (hw : Written S w)
    (h : Effect S w e w') : Written S w' := by
  intro u ch id hu
  -- an upload that moves to anything else than `inserting` is not `u`
  have hother : ∀ {v : ℕ} {p : Upload}, p.draft = none ∨ (∃ ch id, p = .staging ch id) →
      Function.update w.uploads v p u = .inserting ch id → v ≠ u ∧
        w.uploads u = .inserting ch id := by
    intro v p hp hu
    rw [Function.update_apply] at hu
    split_ifs at hu with huv
    · rcases hp with hp | ⟨ch', id', rfl⟩
      · simp [hu, Upload.draft] at hp
      · cases hu
    · exact ⟨Ne.symm huv, hu⟩
  -- the file of another upload without a row has another name
  have hne : ∀ {v : ℕ} {ch' : Chunk} {id' : ChunkId}, (w.uploads v).draft = some (ch', id') →
      w.uploads u = .inserting ch id → v ≠ u → id ≠ id' := by
    rintro v ch' id' hv hu₀ hvu rfl
    exact hvu (hb.distinct v u ch' ch id hv (by rw [hu₀]; rfl))
  cases h with
  | draw _ => exact hw u ch id (hother (.inr ⟨_, _, rfl⟩) hu).2
  | @stage v ch' id' hv =>
    by_cases huv : u = v
    · subst huv
      simp only [World.setUpload_uploads, Function.update_self, Upload.inserting.injEq] at hu
      obtain ⟨rfl, rfl⟩ := hu
      exact Function.update_self ..
    · simp only [World.setUpload_uploads, World.setFile_uploads, Function.update_of_ne huv] at hu
      have hid := hne (by rw [hv]; rfl) hu (Ne.symm huv)
      exact (update_files_of_ne hid _).trans (hw u ch id hu)
  | insert _ h₁ =>
    obtain ⟨hfiles, huploads, -⟩ := World.files_insertRow h₁
    simp only [World.setUpload_uploads, huploads] at hu
    rw [World.setUpload_files, hfiles]
    exact hw u ch id (hother (.inl rfl) hu).2
  | drop _ hv =>
    obtain ⟨hvu, hu₀⟩ := hother (.inl rfl) hu
    exact (update_files_of_ne (hne hv hu₀ hvu) _).trans (hw u ch id hu₀)
  | @insertDrop v _ _ _ w₁ _ hv h₁ =>
    obtain ⟨hfiles, huploads, -⟩ := World.files_insertRow h₁
    have hu : Function.update w₁.uploads v .stopped u = .inserting ch id := hu
    rw [huploads] at hu
    obtain ⟨hvu, hu₀⟩ := hother (.inl rfl) hu
    refine (update_files_of_ne (hne hv hu₀ hvu) _).trans ?_
    rw [hfiles]
    exact hw u ch id hu₀
  | accept _ => exact hw u ch id (hother (.inl (by cases ‹StorageDestination› <;> rfl)) hu).2
  | move hp _ _ => exact hw u ch id (hother (.inl hp) hu).2
  | @unlink d item rest n m hd =>
    have hu₀ : w.uploads u = .inserting ch id := hu
    have hi : item ∈ (w.drains d).items := by
      rw [hd]
      exact List.mem_cons_self ..
    obtain ⟨r, hr, -⟩ := hb.items d item hi
    have hid : id ≠ item.path.chunkId := by
      rw [hb.item_path hi]
      rintro rfl
      rw [(hb.draft u ch item.id (by rw [hu₀]; rfl)).2] at hr
      cases hr
    exact (update_files_of_ne hid _).trans (hw u ch id hu₀)
  | _ => exact hw u ch id hu

/-- A staging file is not there before its upload has come to write it. -/
def Unwritten (w : World) : Prop :=
  ∀ path content, w.files path = some content →
    path.chunkId ∈ w.used ∧ ∀ u ch, w.uploads u ≠ .staging ch path.chunkId

/-- The files are those of before, and no other upload is about to write one. -/
theorem Unwritten.mono {w w' : World} (hw : Unwritten w)
    (hfiles : ∀ path content, w'.files path = some content → w.files path ≠ none)
    (hused : w.used ⊆ w'.used)
    (huploads : ∀ u ch id, w'.uploads u = .staging ch id → w.uploads u = .staging ch id) :
    Unwritten w' := by
  intro path content hpath
  obtain ⟨old, hold⟩ := Option.ne_none_iff_exists'.1 (hfiles path content hpath)
  obtain ⟨hmem, hnone⟩ := hw path old hold
  exact ⟨hused hmem, fun u ch hu => hnone u ch (huploads u ch _ hu)⟩

/-- The file of an upload that has moved on. -/
theorem Unwritten.setFile {S : Setting} {w w' : World} (hb : Base S w) (hw : Unwritten w) {v : ℕ}
    {ch : Chunk} {id : ChunkId} {p : Upload} (content : Option Bytes)
    (hv : (w.uploads v).draft = some (ch, id)) (hp : ∀ ch id, p ≠ .staging ch id)
    (hfiles : w'.files = Function.update w.files (S.stagedPath id ch.storageKey) content)
    (hused : w'.used = w.used) (huploads : w'.uploads = Function.update w.uploads v p) :
    Unwritten w' := by
  intro path content' hpath
  rw [hfiles, Function.update_apply] at hpath
  rw [hused, huploads]
  have hstays {u : ℕ} {ch' : Chunk} {id' : ChunkId}
      (hu : Function.update w.uploads v p u = .staging ch' id') :
      v ≠ u ∧ w.uploads u = .staging ch' id' := by
    rw [Function.update_apply] at hu
    split_ifs at hu with huv
    · exact absurd hu (hp ch' id')
    · exact ⟨Ne.symm huv, hu⟩
  split_ifs at hpath with hnew
  · obtain rfl : path.chunkId = id := congrArg StagedPath.chunkId hnew
    refine ⟨(hb.draft v ch _ hv).1, fun u ch' hu => ?_⟩
    obtain ⟨hvu, hu⟩ := hstays hu
    exact hvu (hb.distinct v u ch ch' _ hv (by rw [hu]; rfl))
  · obtain ⟨hmem, hnone⟩ := hw path content' hpath
    exact ⟨hmem, fun u ch' hu => hnone u ch' (hstays hu).2⟩

theorem Unwritten.step {S : Setting} {w w' : World} {e : Event} (hb : Base S w) (hw : Unwritten w)
    (h : Effect S w e w') : Unwritten w' := by
  have hmoves {v u : ℕ} {p : Upload} (hp : p.draft = none) {ch : Chunk} {id : ChunkId}
      (hu : Function.update w.uploads v p u = .staging ch id) : w.uploads u = .staging ch id := by
    rw [Function.update_apply] at hu
    split_ifs at hu
    · rw [hu] at hp
      cases hp
    · exact hu
  have hsame (path : StagedPath) (content : Bytes) (hpath : w.files path = some content) :
      w.files path ≠ none := hpath ▸ Option.some_ne_none _
  cases h with
  | @draw v ch id hid =>
    intro path content hpath
    obtain ⟨hmem, hnone⟩ := hw path content hpath
    refine ⟨List.mem_cons_of_mem _ hmem, fun u ch' hu => ?_⟩
    rw [World.setUpload_uploads, Function.update_apply] at hu
    split_ifs at hu
    · obtain ⟨-, rfl⟩ := Upload.staging.inj hu
      exact hid hmem
    · exact hnone u ch' hu
  | stage hv =>
    exact hw.setFile hb (some _) (by rw [hv]; rfl) (fun _ _ => Upload.noConfusion) rfl rfl rfl
  | insert hv h₁ =>
    obtain ⟨hfiles, huploads, -, hused, -⟩ := World.files_insertRow h₁
    refine hw.mono (fun path content hpath => hsame path content (hfiles ▸ hpath))
      (hused ▸ List.Subset.refl _) fun u ch id hu => ?_
    rw [World.setUpload_uploads, huploads] at hu
    exact hmoves rfl hu
  | drop content hv =>
    exact hw.setFile hb content hv (fun _ _ => Upload.noConfusion) rfl rfl rfl
  | insertDrop content hv h₁ =>
    obtain ⟨hfiles, huploads, -, hused, -⟩ := World.files_insertRow h₁
    refine hw.setFile (p := .stopped) hb content hv (fun _ _ => Upload.noConfusion) ?_ hused ?_
    · rw [← hfiles]
      rfl
    · rw [← huploads]
      rfl
  | accept _ =>
    exact hw.mono hsame (List.Subset.refl _) fun u ch id hu =>
      hmoves (by cases ‹StorageDestination› <;> rfl) hu
  | move hp _ _ => exact hw.mono hsame (List.Subset.refl _) fun u ch id hu => hmoves hp hu
  | @unlink d item rest n m hd =>
    refine hw.mono (fun path content hpath => ?_) (List.Subset.refl _) fun _ _ _ hu => hu
    rw [World.setDrain_files, World.setFile_files, Function.update_apply] at hpath
    split_ifs at hpath
    exact hsame path content hpath
  | _ => exact hw.mono hsame (List.Subset.refl _) fun _ _ _ hu => hu

/-! ### After the row is committed -/

/-- The chunk of the row `id` was accepted. -/
def Delivered (w : World) (ch : Chunk) (id : ChunkId) : Prop := (Origin.row id, ch) ∈ w.accepted

/-- A committed chunk: its row, its file, and what the drains know of it. -/
structure Secured (S : Setting) (w : World) (ch : Chunk) (id : ChunkId) : Prop where
  row : ∃ r, w.rows.find? id = some r ∧ r.fixed = S.fixed ch id ∧
    (r.state = .processed → Delivered w ch id)
  file : Delivered w ch id ∨ w.files (S.stagedPath id ch.storageKey) = some ch.payload
  content : ∀ p, w.files (S.stagedPath id ch.storageKey) = some p → p = ch.payload
  uploads : ∀ d item p, (w.drains d).uploads = some (item, p) → item.id = id → p = ch.payload
  delivered : ∀ d item, (w.drains d).delivered = some item → item.id = id → Delivered w ch id

namespace Secured

variable {S : Setting} {w w' : World} {ch : Chunk} {id : ChunkId}

/-- Steps that touch neither the row nor the file nor the drains. -/
theorem frame (hs : Secured S w ch id) (hrow : w'.rows.find? id = w.rows.find? id)
    (hfile : w'.files (S.stagedPath id ch.storageKey) = w.files (S.stagedPath id ch.storageKey))
    (hdrains : w'.drains = w.drains) (hacc : w.accepted ⊆ w'.accepted) : Secured S w' ch id where
  row := by
    obtain ⟨r, hr, hfix, hproc⟩ := hs.row
    exact ⟨r, hrow ▸ hr, hfix, fun h => hacc (hproc h)⟩
  file := by
    rw [hfile]
    exact hs.file.imp_left fun h => hacc h
  content p hp := hs.content p (hfile ▸ hp)
  uploads d item p h := hs.uploads d item p (hdrains ▸ h)
  delivered d item h hid := hacc (hs.delivered d item (hdrains ▸ h) hid)

theorem setUpload (hs : Secured S w ch id) (u : ℕ) (p : Upload) :
    Secured S (w.setUpload u p) ch id :=
  hs.frame rfl rfl rfl (List.Subset.refl _)

theorem accept (hs : Secured S w ch id) (o : Origin) (ch' : Chunk) :
    Secured S (w.accept o ch') ch id :=
  hs.frame rfl rfl rfl (List.subset_cons_self _ _)

/-- The file of another id. -/
theorem setFile_of_ne (hs : Secured S w ch id) {path : StagedPath} (h : id ≠ path.chunkId)
    (content : Option Bytes) : Secured S (w.setFile path content) ch id :=
  hs.frame rfl (update_files_of_ne h content) rfl (List.Subset.refl _)

/-- The row of another id. -/
theorem insertRow (hs : Secured S w ch id) {r : Row} (h : w.insertRow r = some w') :
    Secured S w' ch id := by
  obtain ⟨hfiles, -, hdrains, -, hacc⟩ := World.files_insertRow h
  refine hs.frame ?_ (congrFun hfiles _) hdrains (hacc ▸ List.Subset.refl _)
  obtain ⟨r₀, hr₀, -⟩ := hs.row
  rw [World.find?_insertRow h, if_neg]
  rintro rfl
  unfold World.insertRow at h
  split_ifs at h with hnone
  rw [hnone] at hr₀
  cases hr₀

/-- An update that says `PROCESSED` only of what was accepted. -/
theorem updateRows (hs : Secured S w ch id) {p : Row → Bool} {f : Row → Row}
    {hf : ∀ r, (f r).id = r.id} (hfix : ∀ r, (f r).fixed = r.fixed)
    (hproc : ∀ r, w.rows.find? id = some r → p r = true → (f r).state = .processed →
      Delivered w ch id) : Secured S (w.updateRows p f hf) ch id := by
  refine ⟨?_, hs.file, hs.content, hs.uploads, hs.delivered⟩
  obtain ⟨r, hr, hrfix, hrproc⟩ := hs.row
  refine ⟨if p r then f r else r, by rw [find?_updateRows, hr]; rfl, ?_, fun h => ?_⟩
  · split_ifs
    · exact (hfix r).trans hrfix
    · exact hrfix
  · split_ifs at h with hp
    · exact hproc r hr hp h
    · exact hrproc h

/-- A staging file goes only after its chunk was accepted. -/
theorem unlink (hs : Secured S w ch id) {path : StagedPath}
    (hdel : path.chunkId = id → Delivered w ch id) : Secured S (w.setFile path none) ch id := by
  by_cases hid : id = path.chunkId
  · have hd := hdel hid.symm
    refine ⟨hs.row, .inl hd, fun p hp => ?_, hs.uploads, hs.delivered⟩
    rw [World.setFile_files, Function.update_apply] at hp
    split_ifs at hp
    exact hs.content p hp
  · exact hs.setFile_of_ne hid none

/-- A drain that moves on knows no more than it should. -/
theorem setDrain (hs : Secured S w ch id) {d : ℕ} {p : Drain}
    (hup : ∀ item payload, p.uploads = some (item, payload) → item.id = id → payload = ch.payload)
    (hdel : ∀ item, p.delivered = some item → item.id = id → Delivered w ch id) :
    Secured S (w.setDrain d p) ch id := by
  refine ⟨hs.row, hs.file, hs.content, fun v item payload h => ?_, fun v item h => ?_⟩
  · rw [World.setDrain_drains, Function.update_apply] at h
    split_ifs at h
    · exact hup item payload h
    · exact hs.uploads v item payload h
  · rw [World.setDrain_drains, Function.update_apply] at h
    split_ifs at h
    · exact hdel item h
    · exact hs.delivered v item h

/-- A drain that knows nothing of a file or of an acceptance. -/
theorem setDrain_of_none (hs : Secured S w ch id) {d : ℕ} {p : Drain} (hup : p.uploads = none)
    (hdel : p.delivered = none) : Secured S (w.setDrain d p) ch id :=
  hs.setDrain (fun _ _ h => by rw [hup] at h; cases h) fun _ h => by rw [hdel] at h; cases h

end Secured

/-- The row of a committed chunk is that of the drain's item. -/
theorem Secured.item_fixed {S : Setting} {w : World} (hb : Base S w) {ch : Chunk} {d : ℕ}
    {item : Item} (hs : Secured S w ch item.id) (hi : item ∈ (w.drains d).items) :
    item.fixed = S.fixed ch item.id := by
  obtain ⟨r, hr, hfix⟩ := hb.items d item hi
  obtain ⟨r', hr', hfix', -⟩ := hs.row
  rw [hr] at hr'
  obtain rfl := Option.some.inj hr'
  exact hfix.symm.trans hfix'

/-- **One step** keeps a committed chunk secured. -/
theorem Secured.step {S : Setting} {w w' : World} {e : Event} (hb : Base S w) {ch : Chunk}
    {id : ChunkId} (hs : Secured S w ch id) (h : Effect S w e w') : Secured S w' ch id := by
  -- an upload without a row is about another id
  have hne : ∀ {v : ℕ} {ch' : Chunk} {id' : ChunkId}, (w.uploads v).draft = some (ch', id') →
      id ≠ id' := by
    rintro v ch' id' hv rfl
    obtain ⟨r, hr, -⟩ := hs.row
    rw [(hb.draft v ch' id hv).2] at hr
    cases hr
  cases h with
  | draw _ => exact hs.frame rfl rfl rfl (List.Subset.refl _)
  | stage hv => exact (hs.setFile_of_ne (hne (by rw [hv]; rfl)) _).setUpload _ _
  | insert _ h₁ => exact (hs.insertRow h₁).setUpload _ _
  | drop _ hv => exact (hs.setFile_of_ne (hne hv) _).setUpload _ _
  | insertDrop _ hv h₁ => exact ((hs.insertRow h₁).setFile_of_ne (hne hv) _).setUpload _ _
  | accept _ => exact (hs.accept _ _).setUpload _ _
  | move _ _ _ => exact hs.setUpload _ _
  | claim =>
    refine (hs.updateRows (fun _ => ?_) fun _ _ _ h => ?_).setDrain_of_none (Drain.uploads_next _ _)
      (Drain.delivered_next _ _)
    · rfl
    · cases h
  | @read d item rest n payload hitems hfile =>
    refine hs.setDrain (fun i p hi hid => ?_) fun _ h => (nomatch h)
    obtain ⟨rfl, rfl⟩ := Prod.mk.inj (Option.some.inj hi)
    subst hid
    have hmem : item ∈ (w.drains d).items := hitems ▸ List.mem_cons_self ..
    have hpath : item.path = S.stagedPath item.id ch.storageKey :=
      congrArg (fun t => t.2.2) (hs.item_fixed hb hmem)
    exact hs.content payload (hpath ▸ hfile)
  | leave _ hup hdel => exact hs.setDrain_of_none hup hdel
  | @deliver d item rest n payload hd =>
    refine (hs.accept _ _).setDrain (fun _ _ h => (nomatch h)) fun i hi hid => ?_
    obtain rfl := Option.some.inj hi
    subst hid
    have hmem : item ∈ (w.drains d).items := by
      rw [hd]
      exact List.mem_cons_self ..
    obtain rfl := hs.uploads d item payload (by rw [hd]; rfl) rfl
    obtain ⟨htenant, hkey⟩ : item.tenantId = ch.tenantId ∧ item.storageKey = ch.storageKey := by
      have hfix := hs.item_fixed hb hmem
      exact ⟨congrArg (fun t => t.1) hfix, congrArg (fun t => t.2.1) hfix⟩
    rw [htenant, hkey]
    exact List.mem_cons_self ..
  | @mark d item rest n now p hd _ hup hdel =>
    have hdone : item.id = id → Delivered w ch id := hs.delivered d item (by rw [hd]; rfl)
    refine (hs.updateRows (fun _ => ?_) fun r hr hp _ => hdone ?_).setDrain (fun _ _ h => ?_)
      fun i hi hid => ?_
    · rfl
    · have hrid : r.id = item.id := by simpa using hp
      exact hrid.symm.trans (Table.key_of_find? hr)
    · rw [hup] at h
      cases h
    · obtain rfl := hdel i hi
      exact hdone hid
  | @unlink d item rest n m hd =>
    have hmem : item ∈ (w.drains d).items := by
      rw [hd]
      exact List.mem_cons_self ..
    refine (hs.unlink fun hid => ?_).setDrain_of_none (Drain.uploads_next _ _)
      (Drain.delivered_next _ _)
    rw [hb.item_path hmem] at hid
    exact hs.delivered d item (by rw [hd]; rfl) hid
  | @fail d item rest n err now _ hd =>
    refine (hs.updateRows (fun _ => ?_) fun r _ _ h => ?_).setDrain_of_none
      (Drain.uploads_next _ _) (Drain.delivered_next _ _)
    · rfl
    · simp only [Setting.failRow, Setting.newState] at h
      split_ifs at h

/-! ### The whole outbox -/

/-- The accounts, and what holds of each upload. -/
structure Inv (S : Setting) (w : World) : Prop where
  base : Base S w
  written : Written S w
  secured : ∀ u ch id, (w.uploads u).kept = some (ch, id) → Secured S w ch id
  direct : ∀ u ch dest, w.uploads u = .returned ch dest →
    (∃ id, dest = .outbox id) ∨ (Origin.upload u, ch) ∈ w.accepted

theorem inv_init (S : Setting) : Inv S .init where
  base := base_init S
  written _ _ _ h := nomatch h
  secured _ _ _ h := nomatch h
  direct _ _ _ h := nomatch h

/-- An upload whose row has just been committed is secured. -/
theorem Inv.insert {S : Setting} {w w' : World} (hw : Inv S w) {u : ℕ} {ch : Chunk}
    {id : ChunkId} {now : Time} (hu : w.uploads u = .inserting ch id)
    (h : w.insertRow (S.newRow now id ch) = some w') : Secured S w' ch id := by
  obtain ⟨hfiles, -, hdrains, -⟩ := World.files_insertRow h
  have hnone := (hw.base.draft u ch id (by rw [hu]; rfl)).2
  have hfile := hw.written u ch id hu
  -- no drain knows of the row yet
  have hnew : ∀ d, ∀ item ∈ (w.drains d).items, item.id ≠ id := by
    rintro d item hi rfl
    obtain ⟨r, hr, -⟩ := hw.base.items d item hi
    rw [hnone] at hr
    cases hr
  refine ⟨⟨S.newRow now id ch, ?_, rfl, fun h => (nomatch h)⟩, .inr (hfiles ▸ hfile), fun p hp => ?_,
    fun d item p hi hid => ?_, fun d item hi hid => ?_⟩
  · rw [World.find?_insertRow h]
    exact if_pos rfl
  · rw [hfiles, hfile] at hp
    exact (Option.some.inj hp).symm
  · rw [hdrains] at hi
    refine absurd hid (hnew d item ?_)
    unfold Drain.uploads at hi
    split at hi <;> cases hi
    rename_i hd
    rw [hd]
    exact List.mem_cons_self ..
  · rw [hdrains] at hi
    refine absurd hid (hnew d item ?_)
    unfold Drain.delivered at hi
    split at hi <;> cases hi
    all_goals
      rename_i hd
      rw [hd]
      exact List.mem_cons_self ..

/-- An upload with a committed row had it before, or has just committed it. -/
theorem Effect.kept {S : Setting} {w w' : World} {e : Event} (hw : Inv S w)
    (h : Effect S w e w') {u : ℕ} {ch : Chunk} {id : ChunkId}
    (hu : (w'.uploads u).kept = some (ch, id)) :
    (w.uploads u).kept = some (ch, id) ∨ Secured S w' ch id := by
  have hset : ∀ {v : ℕ} {p : Upload}, p.kept = none ∨ p.kept = (w.uploads v).kept →
      (Function.update w.uploads v p u).kept = some (ch, id) →
      (w.uploads u).kept = some (ch, id) := by
    intro v p hp hu
    rw [Function.update_apply] at hu
    split_ifs at hu with huv
    · rcases hp with hp | hp
      · rw [hp] at hu
        cases hu
      · rwa [hp, ← huv] at hu
    · exact hu
  cases h with
  | draw _ => exact .inl (hset (.inl rfl) hu)
  | stage _ => exact .inl (hset (.inl rfl) hu)
  | @insert v ch' id' now w₁ hv h₁ =>
    have hu : (Function.update w₁.uploads v (.committed ch' id') u).kept = some (ch, id) := hu
    rw [(World.files_insertRow h₁).2.1, Function.update_apply] at hu
    split_ifs at hu with huv
    · obtain ⟨rfl, rfl⟩ := Prod.mk.inj (Option.some.inj hu)
      exact .inr ((hw.insert hv h₁).setUpload v _)
    · exact .inl hu
  | drop _ _ => exact .inl (hset (.inl rfl) hu)
  | @insertDrop v _ _ _ w₁ _ _ h₁ =>
    have hu : (Function.update w₁.uploads v .stopped u).kept = some (ch, id) := hu
    rw [(World.files_insertRow h₁).2.1] at hu
    exact .inl (hset (.inl rfl) hu)
  | @accept v ch' dest hdest =>
    refine .inl (hset (.inl ?_) hu)
    cases dest with
    | outbox i => exact absurd rfl (hdest i)
    | _ => rfl
  | move _ hp _ => exact .inl (hset hp hu)
  | _ => exact .inl hu

/-- **One step** keeps the whole outbox. -/
theorem Inv.step {S : Setting} {w w' : World} {e : Event} (hw : Inv S w)
    (h : Effect S w e w') : Inv S w' where
  base := hw.base.step h
  written := hw.written.step hw.base h
  secured u ch id hu := by
    rcases h.kept hw hu with hu | hs
    · exact (hw.secured u ch id hu).step hw.base h
    · exact hs
  direct u ch dest hu := by
    have hset : ∀ {f : ℕ → Upload} {v : ℕ} {p : Upload}, f = w.uploads →
        (∀ ch dest, p = .returned ch dest → (∃ id, dest = .outbox id) ∨
          (Origin.upload v, ch) ∈ w'.accepted) → Function.update f v p u = .returned ch dest →
        (∃ id, dest = .outbox id) ∨ (Origin.upload u, ch) ∈ w'.accepted := by
      intro f v p hf hp hu
      subst hf
      rw [Function.update_apply] at hu
      split_ifs at hu with huv
      · subst huv
        exact hp ch dest hu
      · exact (hw.direct u ch dest hu).imp_right fun hmem => h.accepted hmem
    cases h with
    | draw _ => exact hset rfl (fun _ _ h => by cases h) hu
    | stage _ => exact hset rfl (fun _ _ h => by cases h) hu
    | insert _ h₁ => exact hset (World.files_insertRow h₁).2.1 (fun _ _ h => by cases h) hu
    | drop _ _ => exact hset rfl (fun _ _ h => by cases h) hu
    | insertDrop _ _ h₁ => exact hset (World.files_insertRow h₁).2.1 (fun _ _ h => by cases h) hu
    | @accept v ch' dest' _ =>
      refine hset rfl (fun c d hcd => .inr ?_) hu
      obtain ⟨rfl, rfl⟩ := Upload.returned.inj hcd
      exact List.mem_cons_self ..
    | move _ _ hdest => exact hset rfl (fun c d hcd => .inl (hdest c d hcd)) hu
    | deliver _ => exact (hw.direct u ch dest hu).imp_right fun hmem => List.mem_cons_of_mem _ hmem
    | _ => exact hw.direct u ch dest hu

/-- **No chunk is lost.**  In every state that uploads and drains reach, whatever
fails and whoever crashes: a chunk whose `upload_chunk` or `enqueue_chunk`
returned normally was accepted by an uploader, for that call or for its row, or
it has a row that is not `PROCESSED` and whose staging file holds the payload. -/
theorem no_loss (S : Setting) {w : World} (h : Reachable (step S) .init w) {u : ℕ} {ch : Chunk}
    {dest : StorageDestination} (hu : w.uploads u = .returned ch dest) :
    (Origin.upload u, ch) ∈ w.accepted ∨
      ∃ id, dest = .outbox id ∧ ((Origin.row id, ch) ∈ w.accepted ∨
        ∃ r, w.rows.find? id = some r ∧ r.tenantId = ch.tenantId ∧
          r.storageKey = ch.storageKey ∧ r.state ≠ .processed ∧
          w.files r.payloadEncryptedPath = some ch.payload) := by
  have hw : Inv S w := h.invariant (inv_init S) fun _ _ _ hI _ hs => hI.step (step_effect hs)
  rcases hw.direct u ch dest hu with ⟨id, rfl⟩ | hacc
  · have hs := hw.secured u ch id (by rw [hu]; rfl)
    obtain ⟨r, hr, hfix, hproc⟩ := hs.row
    obtain ⟨htenant, hkey, hpath⟩ : r.tenantId = ch.tenantId ∧ r.storageKey = ch.storageKey ∧
        r.payloadEncryptedPath = S.stagedPath id ch.storageKey :=
      ⟨congrArg (fun t => t.1) hfix, congrArg (fun t => t.2.1) hfix, congrArg (fun t => t.2.2) hfix⟩
    refine .inr ⟨id, rfl, ?_⟩
    by_cases hdel : Delivered w ch id
    · exact .inl hdel
    · exact .inr ⟨r, hr, htenant, hkey, fun hp => hdel (hproc hp),
        hpath ▸ hs.file.resolve_left hdel⟩
  · exact .inl hacc

/-- SQLite's clock in UTC, and one tag for every key. -/
def plainSetting : Setting := { utc := id, keyTag := fun _ => "0123456789abcdef" }

/-- A chunk of the tests. -/
def sampleChunk : Chunk := ⟨"tenant-1", "chunks/a.bin", [1, 2, 3]⟩

/-- An `upload_chunk` that both clouds refuse. -/
def degraded : List Event :=
  [.uploadChunk 0 sampleChunk, .primaryRefuses 0, .secondaryRefuses 0 7, .stageFile 0,
    .insertRow 0 1000, .enqueued 0]

/-- A chunk that both clouds refuse is in the outbox. -/
theorem no_loss_degraded : ∃ w : World, w.uploads 0 = .returned sampleChunk (.outbox 7) ∧
    ((Origin.row 7, sampleChunk) ∈ w.accepted ∨ ∃ r : Row, w.rows.find? 7 = some r ∧
      r.state ≠ .processed ∧ w.files r.payloadEncryptedPath = some [1, 2, 3]) := by
  have hrun : (exec (step plainSetting) .init degraded).map (fun w => (w.uploads 0, w.accepted)) =
      some (.returned sampleChunk (.outbox 7), []) := by decide +kernel
  obtain ⟨w, hw, hfacts⟩ := Option.map_eq_some_iff.1 hrun
  obtain ⟨hu, hnone⟩ := Prod.mk.inj hfacts
  rcases no_loss plainSetting (reachable_of_exec hw) hu with hacc | ⟨id, hid, hacc | hrow⟩
  · rw [hnone] at hacc
    cases hacc
  · obtain rfl := StorageDestination.outbox.inj hid
    exact ⟨w, hu, .inl hacc⟩
  · obtain rfl := StorageDestination.outbox.inj hid
    obtain ⟨r, hr, -, -, hst, hfile⟩ := hrow
    exact ⟨w, hu, .inr ⟨r, hr, hst, hfile⟩⟩

end Outbox
end Boveda

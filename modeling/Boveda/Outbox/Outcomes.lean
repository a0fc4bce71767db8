/-
# Outcomes of the rows of the outbox

A drain records what became of a row with an `UPDATE` keyed by the id alone.  The
one after an upload is harmless wherever it comes; the one of the failure handler
writes `PENDING` or `DEAD_LETTER`, with the `attempts` that were read at the
claim, over whatever the row is by then.  The handler is entered by a failing
`unlink`, when the row is `PROCESSED` already, and by a drain that was overtaken
after 15 minutes, when another drain has finished the row or counted more
attempts.

`rowsKeep_iff` says that these are the only two ways in which an outcome is
lost: a run keeps `PROCESSED`, `DEAD_LETTER` and `attempts` exactly when each
failure is recorded on a row that is not `PROCESSED` and whose `attempts` are at
most one more than the drain has read.
-/

import Boveda.Outbox.NoLoss

namespace Boveda
namespace Outbox

open Lib

/-- An upload of the row has succeeded. -/
def UploadedRow (w : World) (id : ChunkId) : Prop := ∃ ch, (Origin.row id, ch) ∈ w.accepted

/-- What becomes of a row in one step: `PROCESSED` is final, `DEAD_LETTER` lasts
until an upload of the row succeeds, and `attempts` does not decrease. -/
structure RowKeeps (w' : World) (r r' : Row) : Prop where
  processed : r.state = .processed → r'.state = .processed
  deadLetter : r.state = .deadLetter → r'.state = .deadLetter ∨ UploadedRow w' r.id
  attempts : r.attempts ≤ r'.attempts

/-- Every row keeps its outcome. -/
def RowsKeep (w w' : World) : Prop :=
  ∀ id r, w.rows.find? id = some r → ∃ r', w'.rows.find? id = some r' ∧ RowKeeps w' r r'

/-- A failure is recorded on a row that is not `PROCESSED` and whose `attempts`
are at most one more than at the claim. -/
def Current (w : World) (e : Event) : Prop :=
  ∀ d err now item rest n r, e = .recordFailure d err now →
    w.drains d = .working .failing item rest n → w.rows.find? item.id = some r →
    r.state ≠ .processed ∧ r.attempts ≤ item.attempts + 1

theorem RowKeeps.refl (w' : World) (r : Row) : RowKeeps w' r r := ⟨fun h => h, .inl, le_rfl⟩

/-- An update of rows, each of which keeps its outcome. -/
theorem rowsKeep_updateRows {w w' : World} {p : Row → Bool} {f : Row → Row}
    {hf : ∀ r, (f r).id = r.id} (hrows : w'.rows = (w.updateRows p f hf).rows)
    (h : ∀ id r, w.rows.find? id = some r → p r = true → RowKeeps w' r (f r)) : RowsKeep w w' := by
  intro id r hr
  refine ⟨if p r then f r else r, by rw [hrows, find?_updateRows, hr]; rfl, ?_⟩
  split_ifs with hp
  · exact h id r hr hp
  · exact .refl w' r

/-- What the outcomes rest on: a dead letter has had ten attempts, and a drain
that marks a row has uploaded it. -/
structure Sound (S : Setting) (w : World) : Prop where
  base : Base S w
  dead : ∀ id r, w.rows.find? id = some r → r.state = .deadLetter → 10 ≤ r.attempts
  delivered : ∀ d item, (w.drains d).delivered = some item → UploadedRow w item.id

theorem sound_init (S : Setting) : Sound S .init where
  base := base_init S
  dead _ _ h := nomatch h
  delivered _ _ h := nomatch h

section Steps

variable {S : Setting} {w w' : World} {e : Event}

/-- A dead letter is dead for its tenth attempt. -/
theorem Sound.dead_step (hw : Sound S w) (h : Effect S w e w') {id : ChunkId} {r' : Row}
    (hr' : w'.rows.find? id = some r') (hdead : r'.state = .deadLetter) : 10 ≤ r'.attempts := by
  have hupdate : ∀ {p : Row → Bool} {f : Row → Row} {hf : ∀ r, (f r).id = r.id},
      (∀ r, (f r).state = .deadLetter → 10 ≤ (f r).attempts) →
      (w.updateRows p f hf).rows.find? id = some r' → 10 ≤ r'.attempts := by
    intro p f hf hfdead hfind
    rw [find?_updateRows] at hfind
    obtain ⟨r, hr, rfl⟩ := Option.map_eq_some_iff.1 hfind
    split_ifs at hdead ⊢
    · exact hfdead r hdead
    · exact hw.dead id r hr hdead
  have hinsert : ∀ {w₁ : World} {ch : Chunk} {id' : ChunkId} {now : Time},
      w.insertRow (S.newRow now id' ch) = some w₁ → w₁.rows.find? id = some r' →
      10 ≤ r'.attempts := by
    intro w₁ ch id' now h₁ hfind
    rw [World.find?_insertRow h₁] at hfind
    split_ifs at hfind
    · obtain rfl := Option.some.inj hfind
      cases hdead
    · exact hw.dead id r' hfind hdead
  cases h with
  | insert _ h₁ => exact hinsert h₁ hr'
  | insertDrop _ _ h₁ => exact hinsert h₁ hr'
  | claim =>
    rw [claim_rows] at hr'
    exact hupdate (fun r h => by cases h) hr'
  | mark _ _ _ _ =>
    rw [World.setDrain_rows] at hr'
    exact hupdate (fun r h => by cases h) hr'
  | fail _ _ =>
    rw [World.setDrain_rows] at hr'
    refine hupdate (fun r h => ?_) hr'
    simp only [Setting.failRow, Setting.newState] at h ⊢
    split_ifs at h with hten
    exact hten
  | _ => exact hw.dead id r' hr' hdead

/-- A drain that marks a row has uploaded it. -/
theorem Sound.delivered_step (hw : Sound S w) (h : Effect S w e w') {d : ℕ} {item : Item}
    (hd : (w'.drains d).delivered = some item) : UploadedRow w' item.id := by
  have hmono : ∀ {id}, UploadedRow w id → UploadedRow w' id := fun ⟨ch, hch⟩ =>
    ⟨ch, h.accepted hch⟩
  have hset : ∀ {v : ℕ} {p : Drain}, (∀ i, p.delivered = some i → UploadedRow w' i.id) →
      (Function.update w.drains v p d).delivered = some item → UploadedRow w' item.id := by
    intro v p hp hd
    rw [Function.update_apply] at hd
    split_ifs at hd
    · exact hp item hd
    · exact hmono (hw.delivered d item hd)
  cases h with
  | insert _ h₁ =>
    rw [World.setUpload_drains, (World.files_insertRow h₁).2.2.1] at hd
    exact hmono (hw.delivered d item hd)
  | insertDrop _ _ h₁ =>
    rw [World.setUpload_drains, World.setFile_drains, (World.files_insertRow h₁).2.2.1] at hd
    exact hmono (hw.delivered d item hd)
  | claim => exact hset (fun i hi => by simp at hi) hd
  | read _ _ => exact hset (fun i hi => by cases hi) hd
  | leave _ _ hdel => exact hset (fun i hi => by rw [hdel] at hi; cases hi) hd
  | deliver _ =>
    refine hset (fun i hi => ?_) hd
    obtain rfl := Option.some.inj hi
    exact ⟨_, List.mem_cons_self ..⟩
  | @mark v i _ _ _ _ hv _ _ hdel =>
    refine hset (fun j hj => ?_) hd
    rw [hdel j hj]
    exact hmono (hw.delivered v i (by rw [hv]; rfl))
  | unlink _ => exact hset (fun i hi => by simp at hi) hd
  | fail _ _ => exact hset (fun i hi => by simp at hi) hd
  | _ => exact hmono (hw.delivered d item hd)

theorem Sound.step (hw : Sound S w) (h : Effect S w e w') : Sound S w' :=
  ⟨hw.base.step h, fun _ _ hr hd => hw.dead_step h hr hd, fun _ _ hd => hw.delivered_step h hd⟩

/-- **One step** with a current failure, if any, keeps every outcome. -/
theorem Sound.rowsKeep (hw : Sound S w) (hok : Current w e) (h : Effect S w e w') :
    RowsKeep w w' := by
  have hsame : w'.rows = w.rows → RowsKeep w w' := fun hrows id r hr =>
    ⟨r, hrows ▸ hr, .refl w' r⟩
  have hinsert : ∀ {w₁ : World} {ch : Chunk} {id' : ChunkId} {now : Time},
      w.insertRow (S.newRow now id' ch) = some w₁ → w'.rows = w₁.rows → RowsKeep w w' := by
    intro w₁ ch id' now h₁ hrows id r hr
    refine ⟨r, ?_, .refl w' r⟩
    rw [hrows, World.find?_insertRow h₁, if_neg, hr]
    rintro rfl
    unfold World.insertRow at h₁
    split_ifs at h₁ with hnone
    exact absurd (hnone.symm.trans hr) (by simp)
  cases h with
  | insert _ h₁ => exact hinsert h₁ rfl
  | insertDrop _ _ h₁ => exact hinsert h₁ rfl
  | @claim d maxItems now =>
    refine rowsKeep_updateRows (claim_rows ..) fun id r hr hp => ?_
    -- the row is one of those that were selected
    obtain ⟨r₀, hr₀, hid⟩ := List.mem_map.1 (of_decide_eq_true hp)
    obtain ⟨hmem, hclaim⟩ := mem_of_mem_selectRows hr₀
    have hfind := Table.find?_of_mem hmem
    rw [hid, Table.key_of_find? hr, hr] at hfind
    obtain rfl := Option.some.inj hfind
    have hstate : r.state = .pending ∨ r.state = .draining :=
      (of_decide_eq_true hclaim).imp And.left And.left
    refine ⟨fun hs => ?_, fun hs => ?_, le_rfl⟩
    · rcases hstate with h | h <;> rw [h] at hs <;> cases hs
    · rcases hstate with h | h <;> rw [h] at hs <;> cases hs
  | @mark d item rest n now p hd _ _ _ =>
    refine rowsKeep_updateRows (World.setDrain_rows ..) fun id r hr hp => ⟨fun _ => rfl, fun _ => .inr ?_, le_rfl⟩
    have hrid : r.id = item.id := by simpa using hp
    rw [hrid]
    exact hw.delivered d item (by rw [hd]; rfl)
  | @fail d item rest n err now he hd =>
    refine rowsKeep_updateRows (World.setDrain_rows ..) fun id r hr hp => ?_
    have hrid : r.id = item.id := by simpa using hp
    have hfind : w.rows.find? item.id = some r := by rw [← hrid, Table.key_of_find? hr, hr]
    obtain ⟨hproc, hatt⟩ := hok d err now item rest n r he hd hfind
    refine ⟨fun hs => absurd hs hproc, fun hs => .inl ?_, hatt⟩
    have hten := hw.dead _ _ hfind hs
    simp only [Setting.failRow, Setting.newState]
    rw [if_pos (by omega)]
  | _ => exact hsame rfl

/-- **A failure recorded too late** loses an outcome. -/
theorem not_rowsKeep (hok : ¬ Current w e) (h : step S w e = some w') : ¬ RowsKeep w w' := by
  intro hkeep
  simp only [Current, not_forall] at hok
  obtain ⟨d, err, now, item, rest, n, r, rfl, hd, hr, hbad⟩ := hok
  simp only [step, Event.party, hd, stepDrain, Option.some.injEq] at h
  subst h
  obtain ⟨r', hr', hproc, -, hatt⟩ := hkeep item.id r hr
  have hfind := hr'
  rw [World.setDrain_rows, find?_updateRows, hr] at hfind
  simp only [Option.map_some, Table.key_of_find? hr, decide_true, if_true] at hfind
  obtain rfl := Option.some.inj hfind
  refine hbad ⟨fun hs => ?_, hatt⟩
  have := hproc hs
  simp only [Setting.failRow, Setting.newState] at this
  split_ifs at this

end Steps

/-- **Exactly when outcomes last.**  Along a run of any number of uploads and
drains, a `PROCESSED` row stays `PROCESSED`, a `DEAD_LETTER` row stays
`DEAD_LETTER` until an upload of it succeeds and `attempts` never decreases,
exactly when each failure is recorded on a row that is not `PROCESSED` and whose
`attempts` are at most one more than the drain read at its claim. -/
theorem rowsKeep_iff (S : Setting) (es : List Event) :
    AllMoves (step S) (fun w _ w' => RowsKeep w w') .init es ↔
      AllSteps (step S) Current .init es := by
  refine allMoves_iff_allSteps (I := Sound S) ?_ ?_ (sound_init S) es
  · exact fun _ _ _ hw h hok => ⟨hw.rowsKeep hok (step_effect h), hw.step (step_effect h)⟩
  · exact fun _ _ _ _ h hok => not_rowsKeep hok h

/-- A chunk is enqueued and drained, and its file cannot be removed. -/
def unlinkRefused : List Event :=
  [.enqueueChunk 0 sampleChunk 7, .stageFile 0, .insertRow 0 1000, .enqueued 0,
    .claim 0 10 2000, .readFile 0, .drainAccepts 0, .markProcessed 0 3000, .unlinkFails 0]

/-- **A processed row becomes pending again**, as its file cannot be removed. -/
theorem processed_becomes_pending : ¬ AllMoves (step plainSetting) (fun w _ w' => RowsKeep w w')
    .init (unlinkRefused ++ [.recordFailure 0 "PermissionError" 3000]) := by
  intro h
  have hrun : (exec (step plainSetting) .init unlinkRefused).map (fun w =>
      ((w.rows.find? 7).map Row.state,
        (step plainSetting w (.recordFailure 0 "PermissionError" 3000)).map fun w' =>
          (w'.rows.find? 7).map Row.state)) = some (some .processed, some (some .pending)) := by
    decide +kernel
  obtain ⟨w, hw, hfacts⟩ := Option.map_eq_some_iff.1 hrun
  obtain ⟨hproc, hnext⟩ := Prod.mk.inj hfacts
  obtain ⟨w', hw', hpend⟩ := Option.map_eq_some_iff.1 hnext
  obtain ⟨r, hr, hs⟩ := Option.map_eq_some_iff.1 hproc
  obtain ⟨r', hr', hkeep⟩ := h.of_exec hw hw' 7 r hr
  rw [hr'] at hpend
  have := hkeep.processed hs
  rw [Option.some.inj hpend] at this
  cases this

end Outbox
end Boveda

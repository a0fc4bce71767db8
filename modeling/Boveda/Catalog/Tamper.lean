/-
# The triggers that guard completed snapshots

`TRIGGERS_DDL` (`src/boveda/database.py`).  `trg_snapshots_prevent_tamper` refuses an
`UPDATE` that names an identity column of a `COMPLETED` snapshot, and
`trg_snapshots_prevent_unauthorized_delete` a `DELETE` of a snapshot that is `COMPLETED`
or `RUNNING`.  Both look at the `estado` that the row has at that moment, and no trigger
looks at an `UPDATE` of `estado`.

The model is a history of SQL statements.  A statement is what it does: an `UPDATE` has
the columns that its `SET` names, the rows that it selects with the values it computes
for them, and the rows that make way when it is an `UPDATE OR REPLACE`, for which SQLite
fires no delete trigger.  SQLite may refuse more statements than the model does (it asks
which rows are in the way, and for `NOT NULL`); a refused statement changes nothing.

`immutable_iff` says which statements it takes to change a snapshot that has been
`COMPLETED`, or to remove one that has not been `EXPIRED`, and `not_immutable_relabelled`
takes the two steps.  `expiredBeforeRemoved_of_followsFsm` says what a trigger on `estado`
would have to see to.
-/

import Boveda.Lib.Runs
import Boveda.Catalog.Schema
import Boveda.Lifecycle.Fsm

namespace Boveda
namespace Tamper

open Lib
open Catalog (SnapshotChunk)
open Lifecycle (estadoText validTransitions)

/-! ### Rows and statements -/

/-- Columns of `snapshots`; `other` stands for those that no trigger names. -/
inductive Column
  | id | timestamp | tipo | estado | sourceType | sourceIdentifier | other
  deriving DecidableEq, Repr

/-- The values of a row, as far as the triggers are about them. -/
structure Values where
  id : String
  timestamp : String
  tipo : String
  estado : String
  sourceType : String
  sourceIdentifier : String
  deriving DecidableEq, Repr

/-- A row of `snapshots`.  `rowid` names it for as long as it exists; `wasCompleted` and
`wasExpired` say whether its `estado` has ever been that, and no statement reads them. -/
structure Row extends Values where
  rowid : ℕ
  wasCompleted : Bool
  wasExpired : Bool
  deriving DecidableEq, Repr

/-- What a completed snapshot is to keep. -/
def Values.identity (v : Values) : String × String × String × String × String :=
  (v.id, v.tipo, v.sourceType, v.sourceIdentifier, v.timestamp)

/-- A row with these values, which the history of the row goes on with. -/
def Row.record (r : Row) (v : Values) : Row where
  toValues := v
  rowid := r.rowid
  wasCompleted := r.wasCompleted || v.estado == "COMPLETED"
  wasExpired := r.wasExpired || v.estado == "EXPIRED"

/-- `SET …`: the named columns get the computed values. -/
def Row.assign (columns : List Column) (v : Values) (r : Row) : Row :=
  r.record {
    id := if .id ∈ columns then v.id else r.id
    timestamp := if .timestamp ∈ columns then v.timestamp else r.timestamp
    tipo := if .tipo ∈ columns then v.tipo else r.tipo
    estado := if .estado ∈ columns then v.estado else r.estado
    sourceType := if .sourceType ∈ columns then v.sourceType else r.sourceType
    sourceIdentifier :=
      if .sourceIdentifier ∈ columns then v.sourceIdentifier else r.sourceIdentifier }

/-- The values that an `UPDATE` computes for a row. -/
structure Change where
  rowid : ℕ
  values : Values
  deriving DecidableEq, Repr

/-- The tables `snapshots` and `snapshot_chunks`. -/
structure Database where
  snapshots : Table Row Row.rowid
  snapshotChunks : Table SnapshotChunk SnapshotChunk.pk

/-- After `init_db`. -/
def Database.init : Database := ⟨.empty, .empty⟩

/-- SQL statements on the two tables. -/
inductive Statement
  | insertSnapshot (rowid : ℕ) (values : Values)
  | updateSnapshots (columns : List Column) (changes : Table Change Change.rowid)
    (replaced : List ℕ)
  | deleteSnapshots (rowids : List ℕ)
  | insertSnapshotChunk (l : SnapshotChunk)
  | updateSnapshotChunks (targets : SnapshotChunk → Bool)
  | deleteSnapshotChunks (targets : SnapshotChunk → Bool)

/-! ### Triggers and constraints -/

/-- `trg_snapshots_prevent_tamper`: `BEFORE UPDATE OF …` fires when the `SET` names one of
these columns, whatever it assigns. -/
def trgSnapshotsPreventTamper (columns : List Column) (r : Row) : Bool :=
  columns.any (· ∈ [Column.tipo, .sourceType, .sourceIdentifier, .id, .timestamp]) &&
    r.estado == "COMPLETED"

/-- `trg_snapshots_prevent_unauthorized_delete`. -/
def trgSnapshotsPreventUnauthorizedDelete (r : Row) : Bool :=
  r.estado == "COMPLETED" || r.estado == "RUNNING"

/-- `PRIMARY KEY (id)` and the `FOREIGN KEY (snapshot_id)` of `snapshot_chunks`. -/
def Database.Consistent (db : Database) : Prop :=
  (db.snapshots.rows.map fun r => r.id).Nodup ∧
    ∀ l ∈ db.snapshotChunks.rows, ∃ r ∈ db.snapshots.rows, r.id = l.snapshotId

instance (db : Database) : Decidable db.Consistent := inferInstanceAs (Decidable (_ ∧ _))

/-- The constraints at the end of a statement. -/
def Database.checked (db : Database) : Option Database := if db.Consistent then some db else none

/-- The database without these snapshots: `ON DELETE CASCADE` takes their links with
them. -/
def Database.without (db : Database) (rowids : List ℕ) : Database :=
  let snapshots := db.snapshots.delete fun r => r.rowid ∈ rowids
  ⟨snapshots, db.snapshotChunks.delete fun l =>
    !snapshots.rows.any fun r => r.id == l.snapshotId⟩

/-- The rows after an `UPDATE`. -/
def changed (columns : List Column) (changes : Table Change Change.rowid)
    (t : Table Row Row.rowid) : Table Row Row.rowid :=
  t.update (fun r => (changes.find? r.rowid).isSome)
    (fun r => ((changes.find? r.rowid).map fun ch => r.assign columns ch.values).getD r)
    fun r => by cases changes.find? r.rowid <;> rfl

/-- The database after a statement, `none` when a trigger or a constraint aborts it. -/
def run (db : Database) : Statement → Option Database
  | .insertSnapshot rowid values =>
    let r : Row := Row.record ⟨values, rowid, false, false⟩ values
    if h : db.snapshots.find? rowid = none then
      Database.checked { db with snapshots := db.snapshots.insert r h }
    else none
  | .updateSnapshots columns changes replaced =>
    let db := db.without replaced
    if db.snapshots.rows.any fun r =>
        (changes.find? r.rowid).isSome && trgSnapshotsPreventTamper columns r then none
    else Database.checked { db with snapshots := changed columns changes db.snapshots }
  | .deleteSnapshots rowids =>
    if db.snapshots.rows.any fun r =>
        decide (r.rowid ∈ rowids) && trgSnapshotsPreventUnauthorizedDelete r then none
    else some (db.without rowids)
  | .insertSnapshotChunk l =>
    if h : db.snapshotChunks.find? l.pk = none then
      Database.checked { db with snapshotChunks := db.snapshotChunks.insert l h }
    else none
  | .updateSnapshotChunks targets =>
    -- trg_snapshot_chunks_prevent_update
    if db.snapshotChunks.rows.any targets then none else some db
  | .deleteSnapshotChunks targets =>
    some { db with snapshotChunks := db.snapshotChunks.delete targets }

/-- A statement is one step, applied or aborted. -/
def step (db : Database) (e : Statement) : Option Database := some ((run db e).getD db)

/-! ### What is to be immutable -/

/-- A snapshot that has been `COMPLETED` keeps its identity, or is removed after it has been
`EXPIRED`. -/
def Immutable (db : Database) (_ : Statement) (db' : Database) : Prop :=
  ∀ k r, db.snapshots.find? k = some r → r.wasCompleted = true →
    (∃ r', db'.snapshots.find? k = some r' ∧ r'.identity = r.identity) ∨
      db'.snapshots.find? k = none ∧ r.wasExpired = true

/-- What an applied statement does not do to a snapshot that has been `COMPLETED`: an
`UPDATE` does not change its identity while it has another `estado`, and unless it has
been `EXPIRED` it makes way for no other row, and no `DELETE` removes it while its
`estado` is neither `COMPLETED` nor `RUNNING`. -/
def Respects (db : Database) : Statement → Prop
  | .updateSnapshots columns changes replaced => ∀ k r, db.snapshots.find? k = some r →
      r.wasCompleted = true →
      (k ∈ replaced → r.wasExpired = true) ∧
      (k ∉ replaced → r.estado ≠ "COMPLETED" → ∀ ch, changes.find? k = some ch →
        (r.assign columns ch.values).identity = r.identity)
  | .deleteSnapshots rowids => ∀ k r, db.snapshots.find? k = some r → r.wasCompleted = true →
      k ∈ rowids → r.estado ≠ "COMPLETED" → r.estado ≠ "RUNNING" → r.wasExpired = true
  | _ => True

/-- The statement is aborted, or leaves such snapshots alone. -/
def Harmless (db : Database) (e : Statement) : Prop := (run db e).isSome → Respects db e

/-! ### One row under one statement -/

/-- The row under `k` after an `UPDATE`, of those that did not make way. -/
theorem find?_changed (columns : List Column) (changes : Table Change Change.rowid)
    (t : Table Row Row.rowid) (k : ℕ) : (changed columns changes t).find? k =
      (t.find? k).map fun r =>
        ((changes.find? k).map fun ch => r.assign columns ch.values).getD r := by
  rw [changed, Table.find?_update]
  cases hr : t.find? k with
  | none => rfl
  | some r =>
    obtain rfl : r.rowid = k := Table.key_of_find? hr
    cases hch : changes.find? r.rowid <;> simp [hch]

theorem find?_without (db : Database) (rowids : List ℕ) (k : ℕ) :
    (db.without rowids).snapshots.find? k =
      if k ∈ rowids then none else db.snapshots.find? k := by
  rw [Database.without, Table.find?_delete]
  cases hr : db.snapshots.find? k with
  | none => simp
  | some r =>
    obtain rfl : r.rowid = k := Table.key_of_find? hr
    by_cases hk : r.rowid ∈ rowids <;> simp [Option.filter_some, hk]

theorem eq_of_checked {db db' : Database} (h : db.checked = some db') : db' = db := by
  unfold Database.checked at h
  split_ifs at h
  exact (Option.some.inj h).symm

/-- An assignment that names no guarded column keeps the identity. -/
theorem assign_identity {columns : List Column} {r : Row} (v : Values)
    (hc : r.estado = "COMPLETED") (h : trgSnapshotsPreventTamper columns r = false) :
    (r.assign columns v).identity = r.identity := by
  have hno : ∀ c ∈ columns, c ∉ [Column.tipo, .sourceType, .sourceIdentifier, .id, .timestamp] := by
    simpa [trgSnapshotsPreventTamper, hc] using h
  have hnot : ∀ c ∈ [Column.tipo, .sourceType, .sourceIdentifier, .id, .timestamp],
      c ∉ columns := fun c hc hmem => hno c hmem hc
  simp only [List.forall_mem_cons] at hnot
  obtain ⟨ht, hst, hsi, hid, hts, -⟩ := hnot
  simp [Row.assign, Row.record, Values.identity, ht, hst, hsi, hid, hts]

/-- What an applied `UPDATE` leaves of a row. -/
theorem find?_updateSnapshots {db db' : Database} {columns : List Column}
    {changes : Table Change Change.rowid} {replaced : List ℕ}
    (h : run db (.updateSnapshots columns changes replaced) = some db') {k : ℕ} {r : Row}
    (hr : db.snapshots.find? k = some r) :
    db'.snapshots.find? k = (if k ∈ replaced then none else
      some (((changes.find? k).map fun ch => r.assign columns ch.values).getD r)) ∧
    (k ∉ replaced → (changes.find? k).isSome → trgSnapshotsPreventTamper columns r = false) := by
  simp only [run] at h
  split_ifs at h with hany
  have hdb := eq_of_checked h
  subst hdb
  have hfind := find?_without db replaced k
  rw [hr] at hfind
  refine ⟨?_, fun hk hch => ?_⟩
  · show (changed columns changes (db.without replaced).snapshots).find? k = _
    rw [find?_changed, hfind]
    by_cases hk : k ∈ replaced <;> simp [hk]
  · rw [if_neg hk] at hfind
    have hkey : r.rowid = k := Table.key_of_find? hr
    have hmem : r ∈ (db.without replaced).snapshots.rows := Table.mem_of_find? hfind
    by_contra htrg
    rw [Bool.not_eq_false] at htrg
    exact hany (List.any_eq_true.2 ⟨r, hmem, by simp [hkey, hch, htrg]⟩)

/-- What an applied `DELETE` leaves of a row. -/
theorem find?_deleteSnapshots {db db' : Database} {rowids : List ℕ}
    (h : run db (.deleteSnapshots rowids) = some db') {k : ℕ} {r : Row}
    (hr : db.snapshots.find? k = some r) :
    db'.snapshots.find? k = (if k ∈ rowids then none else some r) ∧
    (k ∈ rowids → r.estado ≠ "COMPLETED" ∧ r.estado ≠ "RUNNING") := by
  simp only [run] at h
  split_ifs at h with hany
  have hdb := (Option.some.inj h).symm
  subst hdb
  refine ⟨hr ▸ find?_without db rowids k, fun hk => ?_⟩
  have hkey : r.rowid = k := Table.key_of_find? hr
  have htrg : trgSnapshotsPreventUnauthorizedDelete r = false := by
    by_contra htrg
    rw [Bool.not_eq_false] at htrg
    exact hany (List.any_eq_true.2 ⟨r, Table.mem_of_find? hr, by simp [hkey, hk, htrg]⟩)
  simpa [trgSnapshotsPreventUnauthorizedDelete] using htrg

/-- Every other statement keeps the snapshots that are there. -/
theorem find?_insertSnapshot {db db' : Database} {rowid : ℕ} {values : Values}
    (h : run db (.insertSnapshot rowid values) = some db') {k : ℕ} {r : Row}
    (hr : db.snapshots.find? k = some r) : db'.snapshots.find? k = some r := by
  simp only [run] at h
  split_ifs at h with hfree
  have hne : rowid ≠ k := by
    rintro rfl
    exact absurd hr (by simp [hfree])
  rw [eq_of_checked h]
  exact (Table.find?_insert db.snapshots (Row.record ⟨values, rowid, false, false⟩ values) hfree
    k).trans ((if_neg hne).trans hr)

theorem snapshots_insertSnapshotChunk {db db' : Database} {l : SnapshotChunk}
    (h : run db (.insertSnapshotChunk l) = some db') : db'.snapshots = db.snapshots := by
  simp only [run] at h
  split_ifs at h with hfree
  have hdb := eq_of_checked h
  rw [hdb]

theorem snapshots_updateSnapshotChunks {db db' : Database} {targets : SnapshotChunk → Bool}
    (h : run db (.updateSnapshotChunks targets) = some db') : db'.snapshots = db.snapshots := by
  simp only [run] at h
  split_ifs at h with hany
  rw [← Option.some.inj h]

/-! ### The exact condition -/

/-- Rows that stay as they are move as `Immutable` says. -/
theorem immutable_of_keeps {db db' : Database} (e : Statement)
    (h : ∀ k r, db.snapshots.find? k = some r → db'.snapshots.find? k = some r) :
    Immutable db e db' := fun k r hr _ => .inl ⟨r, h k r hr, rfl⟩

/-- One applied statement. -/
theorem immutable_iff_respects {db db' : Database} {e : Statement} (h : run db e = some db') :
    Immutable db e db' ↔ Respects db e := by
  cases e with
  | insertSnapshot rowid values =>
    exact ⟨fun _ => trivial, fun _ => immutable_of_keeps _ fun k r => find?_insertSnapshot h⟩
  | updateSnapshots columns changes replaced =>
    refine forall_congr' fun k => forall_congr' fun r => forall_congr' fun hr =>
      forall_congr' fun _ => ?_
    obtain ⟨hfind, htrg⟩ := find?_updateSnapshots h hr
    rw [hfind]
    by_cases hk : k ∈ replaced
    · simp [hk]
    cases hch : changes.find? k with
    | none => simp [hk]
    | some ch =>
      have hkeeps : r.estado = "COMPLETED" →
          (r.assign columns ch.values).identity = r.identity := fun hc =>
        assign_identity ch.values hc (htrg hk (by simp [hch]))
      by_cases hc : r.estado = "COMPLETED"
      · simp [hk, hc, hkeeps hc]
      · simp [hk, hc]
  | deleteSnapshots rowids =>
    refine forall_congr' fun k => forall_congr' fun r => forall_congr' fun hr =>
      forall_congr' fun _ => ?_
    obtain ⟨hfind, hfree⟩ := find?_deleteSnapshots h hr
    rw [hfind]
    by_cases hk : k ∈ rowids
    · simp [hk, hfree hk]
    · simp [hk]
  | insertSnapshotChunk l =>
    have hsame := snapshots_insertSnapshotChunk h
    exact ⟨fun _ => trivial, fun _ => immutable_of_keeps _ fun k r hr => hsame ▸ hr⟩
  | updateSnapshotChunks targets =>
    have hsame := snapshots_updateSnapshotChunks h
    exact ⟨fun _ => trivial, fun _ => immutable_of_keeps _ fun k r hr => hsame ▸ hr⟩
  | deleteSnapshotChunks targets =>
    obtain rfl := Option.some.inj h
    exact ⟨fun _ => trivial, fun _ => immutable_of_keeps _ fun _ _ hr => hr⟩

/-- One statement, applied or aborted. -/
theorem immutable_iff_harmless {db db' : Database} {e : Statement} (h : step db e = some db') :
    Immutable db e db' ↔ Harmless db e := by
  obtain rfl := Option.some.inj h
  cases hrun : run db e with
  | none =>
    simp only [Harmless, hrun, Option.getD_none, Option.isSome_none, Bool.false_eq_true,
      false_implies, iff_true]
    exact immutable_of_keeps e fun _ _ hr => hr
  | some db' =>
    simp only [Harmless, hrun, Option.getD_some, Option.isSome_some, true_implies]
    exact immutable_iff_respects hrun

/-- **Completed snapshots are immutable** in every move of a history exactly when each of
its statements is aborted or leaves the snapshots alone that have been `COMPLETED` and are
so no longer. -/
theorem immutable_iff (es : List Statement) :
    AllMoves step Immutable Database.init es ↔ AllSteps step Harmless Database.init es :=
  allMoves_iff_allSteps (I := fun _ => True)
    (fun _ _ _ _ h hok => ⟨(immutable_iff_harmless h).2 hok, trivial⟩)
    (fun _ _ _ _ h hno hR => hno ((immutable_iff_harmless h).1 hR)) trivial es

/-- The row of the example. -/
def nightly : Values where
  id := "snap-1"
  timestamp := "2025-01-01 02:00:00.000000"
  tipo := "DIARIO"
  estado := "RUNNING"
  sourceType := "cmd"
  sourceIdentifier := "pg_dump"

/-- `UPDATE snapshots SET … WHERE id = 'snap-1'`. -/
def setNightly (columns : List Column) (values : Values) : Statement :=
  .updateSnapshots columns ⟨[⟨1, values⟩], List.nodup_singleton _⟩ []

/-- The snapshot is completed, then its `estado` is set to `FAILED`, which no trigger looks
at. -/
def relabelled : List Statement :=
  [.insertSnapshot 1 nightly,
    setNightly [.estado] { nightly with estado := "COMPLETED" },
    setNightly [.estado] { nightly with estado := "FAILED" }]

/-- **Two steps around the guard**: with another `estado`, the `tipo` of the snapshot can
be set. -/
theorem not_immutable_relabelled : ¬ AllMoves step Immutable Database.init
    (relabelled ++ [setNightly [.tipo] { nightly with tipo := "MENSUAL" }]) := by
  intro h
  obtain ⟨db, hdb, hbefore⟩ := Option.map_eq_some_iff.1 (show (exec step Database.init
      relabelled).map (fun db => (db.snapshots.find? 1).map fun r => (r.wasCompleted, r.tipo)) =
    some (some (true, "DIARIO")) by decide +kernel)
  obtain ⟨db', hdb', hafter⟩ := Option.map_eq_some_iff.1 (show (exec step Database.init
      (relabelled ++ [setNightly [.tipo] { nightly with tipo := "MENSUAL" }])).map
      (fun db => (db.snapshots.find? 1).map fun r => r.tipo) = some (some "MENSUAL") by
    decide +kernel)
  obtain ⟨r, hr, hcompleted⟩ := Option.map_eq_some_iff.1 hbefore
  obtain ⟨r', hr', htipo'⟩ := Option.map_eq_some_iff.1 hafter
  obtain ⟨hwas, htipo⟩ := Prod.mk.inj hcompleted
  rcases h.of_exec hdb (step_of_exec hdb hdb') 1 r hr hwas with ⟨r'', hr'', hsame⟩ | ⟨hnone, -⟩
  · obtain rfl : r' = r'' := Option.some.inj (hr'.symm.trans hr'')
    have : r'.tipo = r.tipo := congrArg (fun v => v.2.1) hsame
    rw [htipo, htipo'] at this
    exact absurd this (by decide)
  · exact absurd hnone (by simp [hr'])

/-! ### What `VALID_TRANSITIONS` would protect -/

/-- An `UPDATE` moves `estado` as `VALID_TRANSITIONS` says, and no row makes way for it. -/
def FollowsFsm (db : Database) : Statement → Prop
  | .updateSnapshots columns changes replaced => replaced = [] ∧
      ∀ k r, db.snapshots.find? k = some r → ∀ ch, changes.find? k = some ch → ∀ e,
        r.estado = estadoText e → ∃ e' : Catalog.Estado,
          (r.assign columns ch.values).estado = estadoText e' ∧ (e' = e ∨ e' ∈ validTransitions e)
  | _ => True

/-- A snapshot that has been `COMPLETED` is `COMPLETED`, or has been `EXPIRED`. -/
def Expires (db : Database) : Prop := ∀ k r, db.snapshots.find? k = some r →
  r.wasCompleted = true → r.estado = "COMPLETED" ∨ r.wasExpired = true

/-- Where the row of a snapshot comes from. -/
theorem origin {db db' : Database} {e : Statement} (h : run db e = some db') {k : ℕ} {r' : Row}
    (hr' : db'.snapshots.find? k = some r') :
    (∃ v, r' = Row.record ⟨v, k, false, false⟩ v) ∨ ∃ r, db.snapshots.find? k = some r ∧
      (r' = r ∨ ∃ columns changes replaced ch, e = .updateSnapshots columns changes replaced ∧
        changes.find? k = some ch ∧ r' = r.assign columns ch.values) := by
  cases e with
  | insertSnapshot rowid values =>
    simp only [run] at h
    split_ifs at h with hfree
    rw [eq_of_checked h] at hr'
    have hfind := (Table.find?_insert db.snapshots (Row.record ⟨values, rowid, false, false⟩ values)
      hfree k).symm.trans hr'
    split_ifs at hfind with hk
    · obtain rfl : rowid = k := hk
      exact .inl ⟨values, (Option.some.inj hfind).symm⟩
    · exact .inr ⟨r', hfind, .inl rfl⟩
  | updateSnapshots columns changes replaced =>
    cases hr : db.snapshots.find? k with
    | none =>
      simp only [run] at h
      split_ifs at h
      rw [eq_of_checked h, find?_changed, find?_without, hr, ite_self] at hr'
      cases hr'
    | some r =>
      rw [(find?_updateSnapshots h hr).1] at hr'
      split_ifs at hr'
      obtain rfl := Option.some.inj hr'
      refine .inr ⟨r, rfl, ?_⟩
      cases hch : changes.find? k with
      | none => exact .inl rfl
      | some ch => exact .inr ⟨columns, changes, replaced, ch, rfl, hch, rfl⟩
  | deleteSnapshots rowids =>
    simp only [run] at h
    split_ifs at h
    rw [← Option.some.inj h, find?_without] at hr'
    split_ifs at hr'
    exact .inr ⟨r', hr', .inl rfl⟩
  | insertSnapshotChunk l =>
    exact .inr ⟨r', snapshots_insertSnapshotChunk h ▸ hr', .inl rfl⟩
  | updateSnapshotChunks targets =>
    exact .inr ⟨r', snapshots_updateSnapshotChunks h ▸ hr', .inl rfl⟩
  | deleteSnapshotChunks targets =>
    obtain rfl := Option.some.inj h
    exact .inr ⟨r', hr', .inl rfl⟩

theorem expires_init : Expires Database.init := by
  intro k r hr
  cases hr

theorem Expires.run {db db' : Database} {e : Statement} (hdb : Expires db)
    (h : run db e = some db') (hok : FollowsFsm db e) : Expires db' := by
  intro k r' hr' hwas
  rcases origin h hr' with ⟨v, rfl⟩ |
    ⟨r, hr, rfl | ⟨columns, changes, replaced, ch, rfl, hch, rfl⟩⟩
  · exact .inl (by simpa [Row.record] using hwas)
  · exact hdb k _ hr hwas
  · have hwas : (r.wasCompleted || (r.assign columns ch.values).estado == "COMPLETED") = true :=
      hwas
    show (r.assign columns ch.values).estado = "COMPLETED" ∨
      (r.wasExpired || (r.assign columns ch.values).estado == "EXPIRED") = true
    by_cases hnew : (r.assign columns ch.values).estado = "COMPLETED"
    · exact .inl hnew
    rcases hdb k r hr (by simpa [hnew] using hwas) with hcompleted | hexpired
    · obtain ⟨e', he', rfl | hmem⟩ := hok.2 k r hr ch hch .completed hcompleted
      · exact .inl he'
      · obtain rfl := List.mem_singleton.1 hmem
        exact .inr (by simp [he', estadoText])
    · exact .inr (by simp [hexpired])

/-- A snapshot that has been `COMPLETED` is removed only after it has been `EXPIRED`. -/
def ExpiredBeforeRemoved (db : Database) (_ : Statement) (db' : Database) : Prop :=
  ∀ k r, db.snapshots.find? k = some r → r.wasCompleted = true →
    db'.snapshots.find? k = none → r.wasExpired = true

theorem Expires.expiredBeforeRemoved {db db' : Database} {e : Statement} (hdb : Expires db)
    (h : Tamper.run db e = some db') (hok : FollowsFsm db e) : ExpiredBeforeRemoved db e db' := by
  intro k r hr hwas hgone
  have hkeeps : db'.snapshots.find? k ≠ some r := by simp [hgone]
  cases e with
  | insertSnapshot rowid values => exact absurd (find?_insertSnapshot h hr) hkeeps
  | updateSnapshots columns changes replaced =>
    obtain ⟨rfl, -⟩ := hok
    rw [(find?_updateSnapshots h hr).1, if_neg List.not_mem_nil] at hgone
    cases hgone
  | deleteSnapshots rowids =>
    obtain ⟨hfind, hfree⟩ := find?_deleteSnapshots h hr
    rw [hfind] at hgone
    by_cases hk : k ∈ rowids
    · exact (hdb k r hr hwas).resolve_left (hfree hk).1
    · rw [if_neg hk] at hgone
      cases hgone
  | insertSnapshotChunk l => exact absurd (snapshots_insertSnapshotChunk h ▸ hr) hkeeps
  | updateSnapshotChunks targets => exact absurd (snapshots_updateSnapshotChunks h ▸ hr) hkeeps
  | deleteSnapshotChunks targets =>
    obtain rfl := Option.some.inj h
    exact absurd hr hkeeps

/-- **Deletions would be safe** if the database held every applied `UPDATE` to
`VALID_TRANSITIONS`, from which a completed snapshot only goes on to `EXPIRED`. -/
theorem expiredBeforeRemoved_of_followsFsm {es : List Statement}
    (h : AllSteps step (fun db e => (run db e).isSome → FollowsFsm db e) Database.init es) :
    AllMoves step ExpiredBeforeRemoved Database.init es := by
  refine h.allMoves (I := Expires) (fun db e db' hdb hstep hok => ?_) expires_init
  obtain rfl := Option.some.inj hstep
  cases hrun : run db e with
  | none =>
    refine ⟨fun k r hr _ hgone => ?_, hdb⟩
    rw [Option.getD_none, hr] at hgone
    cases hgone
  | some db' =>
    have hfollows := hok (by simp [hrun])
    exact ⟨hdb.expiredBeforeRemoved hrun hfollows, hdb.run hrun hfollows⟩

end Tamper
end Boveda

/-
# The states of a snapshot

`src/boveda/fsm.py`.  `VALID_TRANSITIONS` is a table that the program does not ask:
its commands assign `snapshots.estado` themselves.  Whether they keep to the table
is seen in the states that the catalog holds (`estados`), and `Moves` says so of
two catalogs, one of which comes after the other.

What a statement does to the states is said here once (`estados_setEstado` and the
lemmas after it).
-/

import Boveda.Retention.Purge

namespace Boveda
namespace Lifecycle

open Lib Catalog

/-- The text of a state. -/
def estadoText : Estado → String
  | .pending => "PENDING"
  | .running => "RUNNING"
  | .completed => "COMPLETED"
  | .failed => "FAILED"
  | .expired => "EXPIRED"
  | .purging => "PURGING"
  | .purgeFailed => "PURGE_FAILED"
  | .cleanup => "CLEANUP"
  | .purged => "PURGED"

/-- `VALID_TRANSITIONS`. -/
def validTransitions : Estado → List Estado
  | .pending => [.running]
  | .running => [.completed, .failed]
  | .completed => [.expired]
  | .expired => [.purging]
  | .purging => [.purged, .purgeFailed]
  | .purgeFailed => [.purging]
  | .failed => [.cleanup]
  | .cleanup => [.purged]
  | .purged => []

/-- `transition_snapshot`, or the text of its `FSMError`. -/
def transitionSnapshot (snapshot : Snapshot) (newEstado : Estado) : Except String Snapshot :=
  if newEstado ∉ validTransitions snapshot.estado then
    .error ("Transición no permitida: " ++ estadoText snapshot.estado ++ " -> " ++
      estadoText newEstado)
  else .ok { snapshot with estado := newEstado }

/-- The states of the snapshots, by id. -/
abbrev Estados := String → Option Estado

/-- The states that a catalog holds. -/
def estados (c : Catalog) : Estados := fun id => (c.snapshots.find? id).map Snapshot.estado

/-- A snapshot that is there before and after keeps its state, or makes a step of
`VALID_TRANSITIONS`. -/
def Moves (σ σ' : Estados) : Prop :=
  ∀ id e e', σ id = some e → σ' id = some e' → e' = e ∨ e' ∈ validTransitions e

/-- The steps of the table are those that `transition_snapshot` makes. -/
theorem transitionSnapshot_eq_ok {s s' : Snapshot} {e : Estado} :
    transitionSnapshot s e = .ok s' ↔
      e ∈ validTransitions s.estado ∧ s' = { s with estado := e } := by
  unfold transitionSnapshot
  by_cases h : e ∈ validTransitions s.estado
  · rw [if_neg (not_not.2 h), Except.ok.injEq, eq_comm]
    exact (and_iff_right h).symm
  · rw [if_pos h]
    exact iff_of_false (fun herr => nomatch herr) (fun hstep => h hstep.1)

/-- As `tests/test_database.py` has it, a `FAILED` snapshot does not become `COMPLETED`. -/
example {s s' : Snapshot} (h : s.estado = .failed) : transitionSnapshot s .completed ≠ .ok s' := by
  rw [Ne, transitionSnapshot_eq_ok, h]
  exact fun hstep => absurd hstep.1 (by decide)

theorem Moves.refl (σ : Estados) : Moves σ σ :=
  fun _ _ _ h h' => Or.inl (Option.some.inj (h'.symm.trans h))

/-! ### Statements -/

/-- `UPDATE snapshots SET estado = … WHERE id = …`. -/
def overwrite (σ : Estados) (id : String) (e : Estado) : Estados :=
  fun k => if id = k then (σ k).map fun _ => e else σ k

theorem overwrite_self {σ : Estados} {id : String} {e e' : Estado} (h : σ id = some e) :
    overwrite σ id e' id = some e' := by
  simp [overwrite, h]

theorem overwrite_of_ne {σ : Estados} {id k : String} {e : Estado} (h : id ≠ k) :
    overwrite σ id e k = σ k := if_neg h

/-- A row that is there after an `UPDATE` was there before. -/
theorem overwrite_eq_some {σ : Estados} {id k : String} {e e' : Estado}
    (h : overwrite σ id e k = some e') :
    ∃ e₀, σ k = some e₀ ∧ (id = k ∧ e' = e ∨ id ≠ k ∧ e' = e₀) := by
  unfold overwrite at h
  split_ifs at h with hk
  · obtain ⟨e₀, he₀, rfl⟩ := Option.map_eq_some_iff.1 h
    exact ⟨e₀, he₀, Or.inl ⟨hk, rfl⟩⟩
  · exact ⟨e', h, Or.inr ⟨hk, rfl⟩⟩

/-- An `UPDATE` of one snapshot keeps to the table when its step does. -/
theorem Moves.overwrite {σ : Estados} {id : String} {e : Estado}
    (h : ∀ e₀, σ id = some e₀ → e = e₀ ∨ e ∈ validTransitions e₀) :
    Moves σ (overwrite σ id e) := by
  intro k e₁ e₂ h₁ h₂
  obtain ⟨e₀, h₀, ⟨rfl, rfl⟩ | ⟨-, rfl⟩⟩ := overwrite_eq_some h₂
  · obtain rfl := Option.some.inj (h₀.symm.trans h₁)
    exact h _ h₀
  · exact Or.inl (Option.some.inj (h₀.symm.trans h₁))

theorem estados_congr {c c' : Catalog} (h : c'.snapshots = c.snapshots) :
    estados c' = estados c := by
  unfold estados
  rw [h]

theorem estados_updateSnapshots (id : String) {e : Estado} {f : Snapshot → Snapshot}
    {hf : ∀ s, (f s).identity = s.identity} (he : ∀ s, (f s).estado = e) (c : Catalog) :
    estados (updateSnapshots (fun s => s.id = id) f hf c) = overwrite (estados c) id e := by
  funext k
  have hfind : (updateSnapshots (fun s => s.id = id) f hf c).snapshots.find? k =
      if id = k then (c.snapshots.find? k).map f else c.snapshots.find? k :=
    Table.find?_update_key c.snapshots id k f fun s => id_of_identity (hf s)
  unfold estados overwrite
  rw [hfind]
  split_ifs
  · rw [Option.map_map, Option.map_map]
    exact congrArg (fun g => (c.snapshots.find? k).map g) (funext he)
  · rfl

theorem estados_setEstado (id : String) (e : Estado) (c : Catalog) :
    estados (setEstado id e c) = overwrite (estados c) id e :=
  estados_updateSnapshots id (f := fun s => { s with estado := e }) (fun _ => rfl) c

theorem estados_setFailure (id : String) (e : Estado) (error : String) (c : Catalog) :
    estados (Retention.setFailure id e error c) = overwrite (estados c) id e :=
  estados_updateSnapshots id (f := fun s =>
    { s with estado := e, errorDetail := some (Retention.errorText error) }) (fun _ => rfl) c

theorem estados_insertSnapshot {s : Snapshot} {c c' : Catalog}
    (h : insertSnapshot s c = .ok c') : estados c s.id = none ∧
      estados c' = Function.update (estados c) s.id (some s.estado) := by
  obtain ⟨hnone, hfind, -, -⟩ := insertSnapshot_ok h
  refine ⟨by rw [estados, hnone]; rfl, ?_⟩
  funext k
  unfold estados
  rw [hfind]
  by_cases hk : s.id = k
  · subst hk
    simp
  · simp [hk, Ne.symm hk]

theorem snapshots_deleteSnapshotChunks (now : Time) (p : SnapshotChunk → Bool) (c : Catalog) :
    (deleteSnapshotChunks now p c).snapshots = c.snapshots := by
  unfold deleteSnapshotChunks
  induction c.snapshotChunks.rows.filter p generalizing c with
  | nil => rfl
  | cons l ls ih => exact ih (deleteSnapshotChunk now c l)

/-- The snapshot that a purge unlinks is gone, if it was there. -/
theorem estados_purgeSnapshot {now : Time} {id : String} {c c' : Catalog}
    (h : purgeSnapshot now id c = .ok c') :
    estados c' = Function.update (estados c) id none := by
  unfold purgeSnapshot deleteSnapshot at h
  split at h
  · rename_i hnone
    obtain rfl := Except.ok.inj h
    rw [snapshots_deleteSnapshotChunks] at hnone
    rw [estados_congr (snapshots_deleteSnapshotChunks _ _ _), eq_comm, Function.update_eq_self_iff,
      estados, hnone]
    rfl
  · split at h
    · cases h
    · obtain rfl := Except.ok.inj h
      have hsnaps : (deleteSnapshotChunks now (fun l => l.snapshotId = id)
          (deleteSnapshotChunks now (fun l => l.snapshotId = id) c)).snapshots = c.snapshots := by
        rw [snapshots_deleteSnapshotChunks, snapshots_deleteSnapshotChunks]
      generalize deleteSnapshotChunks now _ (deleteSnapshotChunks now _ c) = d at hsnaps ⊢
      funext k
      show ((d.snapshots.delete fun a => a.id = id).find? k).map Snapshot.estado = _
      rw [Table.find?_delete, hsnaps]
      by_cases hk : k = id
      · subst hk
        rw [Function.update_self]
        cases hs : c.snapshots.find? k with
        | none => rfl
        | some s => simp [Table.key_of_find? hs, Option.filter_some]
      · rw [Function.update_of_ne hk, estados]
        cases hs : c.snapshots.find? k with
        | none => rfl
        | some s =>
          have hid : s.id ≠ id := by rwa [Table.key_of_find? hs]
          simp [Option.filter_some, hid]

end Lifecycle
end Boveda

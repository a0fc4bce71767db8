/-
# What one step of the outbox does

The events of `Boveda.Outbox.Queue` have few effects: each moves one party, and
beside that it draws an id, writes or removes one staging file, inserts one row,
updates the rows of a claim or one row, or logs an acceptance.  `Effect` lists
them, `step_effect` says that there are no others, and the invariants of the
outbox are proved by cases on `Effect`.
-/

import Boveda.Outbox.Queue

namespace Boveda
namespace Outbox

open Lib

/-- The chunk of an upload that has an id and no row yet. -/
def Upload.draft : Upload → Option (Chunk × ChunkId)
  | .staging ch id | .inserting ch id => some (ch, id)
  | _ => none

/-- The chunk of an upload whose row is committed. -/
def Upload.kept : Upload → Option (Chunk × ChunkId)
  | .committed ch id | .returned ch (.outbox id) => some (ch, id)
  | _ => none

/-- The rows that a drain has not finished. -/
def Drain.items : Drain → List Item
  | .working _ item rest _ => item :: rest
  | _ => []

/-- The row that a drain uploads, with the content of its file. -/
def Drain.uploads : Drain → Option (Item × Bytes)
  | .working (.uploading payload) item _ _ => some (item, payload)
  | _ => none

/-- The row of which a drain knows that its upload was accepted. -/
def Drain.delivered : Drain → Option Item
  | .working .marking item _ _ | .working .unlinking item _ _ => some item
  | _ => none

@[simp] theorem Drain.items_next (rest : List Item) (n : ℕ) : (Drain.next rest n).items = rest := by
  cases rest <;> rfl

@[simp] theorem Drain.uploads_next (rest : List Item) (n : ℕ) :
    (Drain.next rest n).uploads = none := by
  cases rest <;> rfl

@[simp] theorem Drain.delivered_next (rest : List Item) (n : ℕ) :
    (Drain.next rest n).delivered = none := by
  cases rest <;> rfl

/-- The rows of a claim are rows of the table. -/
theorem mem_of_mem_selectRows {S : Setting} {now : Time} {limit : ℤ} {rows : List Row} {r : Row}
    (h : r ∈ S.selectRows now limit rows) : r ∈ rows ∧ S.claimable now r = true := by
  have hsorted : r ∈ ((S.scan.read now rows).filter (S.claimable now)).insertionSort
      (fun a b => a.createdAt.le b.createdAt) := by
    unfold Setting.selectRows at h
    dsimp only at h
    split_ifs at h
    · exact h
    · exact List.mem_of_mem_take h
  obtain ⟨hmem, hclaim⟩ := List.mem_filter.1 ((List.mem_insertionSort _).1 hsorted)
  exact ⟨(S.scan.perm now rows).mem_iff.1 hmem, hclaim⟩

namespace World

@[simp] theorem setFile_self (w : World) (path : StagedPath) :
    w.setFile path (w.files path) = w := by
  simp [setFile]

theorem files_insertRow {w w' : World} {r : Row} (h : w.insertRow r = some w') :
    w'.files = w.files ∧ w'.uploads = w.uploads ∧ w'.drains = w.drains ∧ w'.used = w.used ∧
      w'.accepted = w.accepted := by
  unfold insertRow at h
  split_ifs at h
  obtain rfl := Option.some.inj h
  exact ⟨rfl, rfl, rfl, rfl, rfl⟩

theorem find?_insertRow {w w' : World} {r : Row} (h : w.insertRow r = some w') (id : ChunkId) :
    w'.rows.find? id = if r.id = id then some r else w.rows.find? id := by
  unfold insertRow at h
  split_ifs at h with hnone
  obtain rfl := Option.some.inj h
  exact Table.find?_insert _ _ hnone id

end World

/-- What a step can do: for an upload, to draw an id, to write its file, to insert
its row, to give up with or without a row, to return from an uploader, or to
move on; for a drain, to claim rows, to read a file, to leave a row, to log an
acceptance, to mark a row, to remove a file, or to record a failure. -/
inductive Effect (S : Setting) (w : World) (e : Event) : World → Prop
  | draw {u : ℕ} {ch : Chunk} {id : ChunkId} : id ∉ w.used →
      Effect S w e ({ w with used := id :: w.used }.setUpload u (.staging ch id))
  | stage {u : ℕ} {ch : Chunk} {id : ChunkId} : w.uploads u = .staging ch id →
      Effect S w e ((w.setFile (S.stagedPath id ch.storageKey) (some ch.payload)).setUpload u
        (.inserting ch id))
  | insert {u : ℕ} {ch : Chunk} {id : ChunkId} {now : Time} {w' : World} :
      w.uploads u = .inserting ch id → w.insertRow (S.newRow now id ch) = some w' →
      Effect S w e (w'.setUpload u (.committed ch id))
  | drop {u : ℕ} {ch : Chunk} {id : ChunkId} (content : Option Bytes) :
      (w.uploads u).draft = some (ch, id) →
      Effect S w e ((w.setFile (S.stagedPath id ch.storageKey) content).setUpload u .stopped)
  | insertDrop {u : ℕ} {ch : Chunk} {id : ChunkId} {now : Time} {w' : World}
      (content : Option Bytes) : (w.uploads u).draft = some (ch, id) →
      w.insertRow (S.newRow now id ch) = some w' →
      Effect S w e ((w'.setFile (S.stagedPath id ch.storageKey) content).setUpload u .stopped)
  | accept {u : ℕ} {ch : Chunk} {dest : StorageDestination} : (∀ id, dest ≠ .outbox id) →
      Effect S w e ((w.accept (.upload u) ch).setUpload u (.returned ch dest))
  | move {u : ℕ} {p : Upload} : p.draft = none → p.kept = none ∨ p.kept = (w.uploads u).kept →
      (∀ ch dest, p = .returned ch dest → ∃ id, dest = .outbox id) → Effect S w e (w.setUpload u p)
  | claim {d : ℕ} {maxItems : ℤ} {now : Time} : Effect S w e (claim S d maxItems now w)
  | read {d : ℕ} {item : Item} {rest : List Item} {n : ℕ} {payload : Bytes} :
      (w.drains d).items = item :: rest → w.files item.path = some payload →
      Effect S w e (w.setDrain d (.working (.uploading payload) item rest n))
  | leave {d : ℕ} {p : Drain} : p.items ⊆ (w.drains d).items → p.uploads = none →
      p.delivered = none → Effect S w e (w.setDrain d p)
  | deliver {d : ℕ} {item : Item} {rest : List Item} {n : ℕ} {payload : Bytes} :
      w.drains d = .working (.uploading payload) item rest n →
      Effect S w e ((w.accept (.row item.id) ⟨item.tenantId, item.storageKey, payload⟩).setDrain d
        (.working .marking item rest n))
  | mark {d : ℕ} {item : Item} {rest : List Item} {n : ℕ} {now : Time} {p : Drain} :
      w.drains d = .working .marking item rest n →
      p.items = item :: rest → p.uploads = none → (∀ i, p.delivered = some i → i = item) →
      Effect S w e ((w.updateRows (fun r => r.id = item.id) (S.processRow now)
        (S.processRow_id now)).setDrain d p)
  | unlink {d : ℕ} {item : Item} {rest : List Item} {n m : ℕ} :
      w.drains d = .working .unlinking item rest n →
      Effect S w e ((w.setFile item.path none).setDrain d (.next rest m))
  | fail {d : ℕ} {item : Item} {rest : List Item} {n : ℕ} {err : String} {now : Time} :
      e = .recordFailure d err now → w.drains d = .working .failing item rest n →
      Effect S w e ((w.updateRows (fun r => r.id = item.id) (S.failRow now item.attempts err)
        (S.failRow_id now item.attempts err)).setDrain d (.next rest n))

/-- A step of an upload has one of the effects. -/
theorem stepUpload_effect {S : Setting} {w w' : World} {u : ℕ} {e : Event}
    (h : stepUpload S w u (w.uploads u) e = some w') : Effect S w e w' := by
  unfold stepUpload World.draw at h
  cases e with
  | uploadChunk v ch =>
    dsimp only at h
    split at h <;> cases h
    exact .move rfl (.inl rfl) fun _ _ h => (nomatch h)
  | enqueueChunk v ch id =>
    dsimp only at h
    split at h <;> try cases h
    split_ifs at h with hid
    · cases h
    · cases h
      exact .draw hid
  | uploaderAccepts v =>
    dsimp only at h
    split at h <;> cases h
    · exact .accept fun _ h => (nomatch h)
    · exact .accept fun _ h => (nomatch h)
  | primaryRefuses v =>
    dsimp only at h
    split at h <;> cases h
    exact .move rfl (.inl rfl) fun _ _ h => (nomatch h)
  | secondaryRefuses v id =>
    dsimp only at h
    split at h <;> try cases h
    split_ifs at h with hid
    · cases h
    · cases h
      exact .draw hid
  | stageFile v =>
    dsimp only at h
    split at h <;> try cases h
    rename_i ch id hp
    split_ifs at h
    cases h
    exact .stage hp
  | abandonFile v left =>
    dsimp only at h
    split at h <;> cases h
    rename_i ch id hp
    exact .drop left (by rw [hp]; rfl)
  | insertRow v now =>
    dsimp only at h
    split at h <;> try cases h
    rename_i ch id hp
    obtain ⟨w₁, h₁, rfl⟩ := Option.map_eq_some_iff.1 h
    exact .insert hp h₁
  | insertFails v committed unlinked now =>
    dsimp only at h
    split at h <;> try cases h
    rename_i ch id hp
    have hdraft : (w.uploads u).draft = some (ch, id) := by rw [hp]; rfl
    obtain ⟨w₁, h₁, rfl⟩ := Option.map_eq_some_iff.1 h
    cases committed with
    | true =>
      cases unlinked with
      | true => exact .insertDrop none hdraft h₁
      | false =>
        have := Effect.insertDrop (e := .insertFails v true false now)
          (w₁.files (S.stagedPath id ch.storageKey)) hdraft h₁
        rwa [World.setFile_self] at this
    | false =>
      obtain rfl := Option.some.inj h₁
      cases unlinked with
      | true => exact .drop none hdraft
      | false => exact .move rfl (.inl rfl) fun _ _ h => (nomatch h)
  | enqueued v =>
    dsimp only at h
    split at h <;> cases h
    rename_i ch id hp
    exact .move rfl (.inr (by rw [hp]; rfl)) fun _ _ h => ⟨id, (Upload.returned.inj h).2.symm⟩
  | stopUpload v =>
    dsimp only at h
    split at h <;> cases h
    all_goals exact .move rfl (.inl rfl) fun _ _ h => (nomatch h)
  | _ => cases h

/-- A step of a drain on a row has one of the effects. -/
theorem stepDrain_effect {S : Setting} {w w' : World} {d : ℕ} {stage : Stage} {item : Item}
    {rest : List Item} {n : ℕ} {e : Event} (hd : w.drains d = .working stage item rest n)
    (he : e.party = .inr d) (h : stepDrain S w d stage item rest n e = some w') :
    Effect S w e w' := by
  have hitems : (w.drains d).items = item :: rest := by rw [hd]; rfl
  have hsub : item :: rest ⊆ (w.drains d).items := hitems ▸ List.Subset.refl _
  unfold stepDrain at h
  cases e with
  | readFile v =>
    dsimp only at h
    split at h <;> try cases h
    split at h <;> cases h
    · rename_i payload hfile
      exact .read hitems hfile
    · exact .leave hsub rfl rfl
  | readFails v =>
    dsimp only at h
    split at h <;> cases h
    exact .leave hsub rfl rfl
  | drainAccepts v =>
    dsimp only at h
    split at h <;> cases h
    exact .deliver hd
  | drainRefuses v =>
    dsimp only at h
    split at h <;> cases h
    exact .leave hsub rfl rfl
  | markProcessed v now =>
    dsimp only at h
    split at h <;> cases h
    exact .mark hd rfl rfl fun i hi => (Option.some.inj hi).symm
  | markFails v committed now =>
    dsimp only at h
    split at h <;> cases h
    cases committed with
    | true => exact .mark hd rfl rfl fun i hi => (nomatch hi)
    | false => exact .leave hsub rfl rfl
  | unlinkFile v =>
    dsimp only at h
    split at h <;> cases h
    exact .unlink hd
  | unlinkFails v =>
    dsimp only at h
    split at h <;> cases h
    exact .leave hsub rfl rfl
  | recordFailure v err now =>
    dsimp only at h
    split at h <;> cases h
    obtain rfl : v = d := Sum.inr.inj he
    exact .fail rfl hd
  | stopDrain v =>
    cases h
    exact .leave (List.nil_subset _) rfl rfl
  | _ => cases h

/-- **Every step has one of the effects.** -/
theorem step_effect {S : Setting} {w w' : World} {e : Event} (h : step S w e = some w') :
    Effect S w e w' := by
  unfold step at h
  split at h
  · exact stepUpload_effect h
  · rename_i d hparty
    split at h
    · split at h <;> cases h
      exact .claim
    · rename_i stage item rest n hd
      exact stepDrain_effect hd hparty h
    · cases h

end Outbox
end Boveda

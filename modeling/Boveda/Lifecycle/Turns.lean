/-
# What one step of a command does to the states

A step of a purge changes the state of one of the snapshots that it has selected,
or none (`Turn`).  These were `EXPIRED`, and purges take them to `PURGING`, to
`PURGE_FAILED` and away; no other command writes them.  So a purge keeps to the
table (`Turn.moves`), and what it goes through stays so whatever the other commands
do (`Tame.frame`).
-/

import Boveda.Lifecycle.Commands

namespace Boveda
namespace Lifecycle

open Lib Catalog

/-- The snapshots that a run of a purge has before it. -/
def queue : Retention.Phase → List String
  | .next id rest => id :: rest
  | .unlink id rest => id :: rest
  | .twoPhase id rest => id :: rest
  | .deleting _ id rest => id :: rest
  | .confirm _ id rest => id :: rest
  | .revert _ id rest => id :: rest
  | .failed _ _ id rest => id :: rest
  | .logging rest => rest
  | _ => []

/-- The snapshot whose purge a run has announced. -/
def marked : Retention.Phase → Option String
  | .unlink id _ => some id
  | .twoPhase id _ => some id
  | .deleting _ id _ => some id
  | .confirm _ id _ => some id
  | .revert _ id _ => some id
  | .failed _ _ id _ => some id
  | _ => none

/-- What a step of a purge does. -/
inductive Turn (σ : Estados) : Retention.Phase → Estados → Retention.Phase → Prop
  | idle {phase phase' : Retention.Phase} : queue phase' ⊆ queue phase →
      (∀ id ∈ marked phase', id ∈ marked phase) → Turn σ phase σ phase'
  | select {id : String} {rest : List String} : (∀ i ∈ id :: rest, σ i = some .expired) →
      Turn σ .start (overwrite σ id .purging) (.unlink id rest)
  | mark {id : String} {rest : List String} :
      Turn σ (.next id rest) (overwrite σ id .purging) (.unlink id rest)
  | delete {id : String} {rest : List String} :
      Turn σ (.unlink id rest) (Function.update σ id none) (.twoPhase id rest)
  | recover {error : String} {unlinked : Bool} {id : String} {rest : List String} :
      Turn σ (.failed error unlinked id rest) (overwrite σ id .purgeFailed) (.logging rest)

@[simp] theorem queue_loop (rest : List String) : queue (Retention.loop rest) = rest := by
  cases rest <;> rfl

@[simp] theorem marked_loop (rest : List String) : marked (Retention.loop rest) = none := by
  cases rest <;> rfl

theorem estados_of_mem_expiredIds {c : Catalog} {id : String} (h : id ∈ Retention.expiredIds c) :
    estados c id = some .expired := by
  obtain ⟨s, hs, rfl⟩ := List.mem_map.1 h
  obtain ⟨hs, hexp⟩ := List.mem_filter.1 hs
  rw [estados, Table.find?_of_mem hs]
  simpa using hexp

theorem estados_purgePhase1 (n : ℕ) (c : Catalog) :
    estados (purgePhase1 n c).2 = estados c := estados_congr (purgePhase1_spec n c).2.2.2

/-- Within a round nothing changes. -/
theorem turn_stays {σ : Estados} {phase phase' : Retention.Phase} (hqueue : queue phase' = queue phase)
    (hmarked : marked phase' = marked phase) : Turn σ phase σ phase' :=
  .idle (hqueue ▸ List.Subset.refl _) fun _ hid => hmarked ▸ hid

/-- A run that ends has nothing before it. -/
theorem turn_ends {σ : Estados} {phase phase' : Retention.Phase} (hqueue : queue phase' = [])
    (hmarked : marked phase' = none) : Turn σ phase σ phase' :=
  .idle (hqueue ▸ List.nil_subset _) (by simp [hmarked])

/-- The head of the loop is idle. -/
theorem turn_loop {σ : Estados} {phase : Retention.Phase} {rest : List String}
    (h : rest ⊆ queue phase) : Turn σ phase σ (Retention.loop rest) :=
  .idle (by rwa [queue_loop]) (by simp)

/-- **A step of a purge**, as far as the states go. -/
theorem turn_of_step {w w' : Store} {phase phase' : Retention.Phase} {e : Retention.Event}
    (h : Retention.step w phase e = some (w', phase')) :
    Turn (estados w.cat) phase (estados w'.cat) phase' := by
  cases phase with
  | start =>
    cases e <;> try cases h
    · dsimp only [Retention.step] at h
      cases hids : Retention.expiredIds w.cat with
      | nil =>
        rw [hids] at h
        obtain ⟨rfl, rfl⟩ := Prod.mk.inj (Option.some.inj h)
        exact turn_ends rfl rfl
      | cons id rest =>
        rw [hids] at h
        obtain ⟨rfl, rfl⟩ := Prod.mk.inj (Option.some.inj h)
        rw [estados_setEstado]
        exact .select fun i hi => estados_of_mem_expiredIds (hids ▸ hi)
    · exact turn_ends rfl rfl
  | next id rest =>
    cases e <;> try cases h
    · dsimp only [Retention.step] at h
      split_ifs at h
      obtain ⟨rfl, rfl⟩ := Prod.mk.inj (Option.some.inj h)
      rw [estados_setEstado]
      exact .mark
    · exact turn_ends rfl rfl
  | unlink id rest =>
    cases e <;> try cases h
    · rename_i now
      dsimp only [Retention.step] at h
      split_ifs at h
      cases hcat : purgeSnapshot now id w.cat with
      | error e => simp only [hcat, reduceCtorEq] at h
      | ok cat =>
        simp only [hcat] at h
        obtain ⟨rfl, rfl⟩ := Prod.mk.inj (Option.some.inj h)
        rw [estados_purgeSnapshot hcat]
        exact .delete
    · exact turn_stays rfl rfl
  | twoPhase id rest =>
    cases e <;> try cases h
    · dsimp only [Retention.step] at h
      split_ifs at h
      · obtain ⟨rfl, rfl⟩ := Prod.mk.inj (Option.some.inj h)
        exact turn_loop (List.subset_cons_self ..)
      · obtain ⟨rfl, rfl⟩ := Prod.mk.inj (Option.some.inj h)
        rw [estados_purgePhase1]
        exact turn_stays rfl rfl
    · exact turn_stays rfl rfl
  | deleting batch id rest =>
    cases e <;> try cases h
    · exact turn_stays rfl rfl
    · exact turn_stays rfl rfl
  | confirm batch id rest =>
    cases e <;> try cases h
    · dsimp only [Retention.step] at h
      cases hphase2 : purgePhase2 (batch.map Prod.fst) w.cat with
      | error e => simp only [hphase2, reduceCtorEq] at h
      | ok cat =>
        simp only [hphase2] at h
        obtain ⟨rfl, rfl⟩ := Prod.mk.inj (Option.some.inj h)
        rw [estados_congr (purgePhase2_ok hphase2).2.2]
        exact turn_loop (List.subset_cons_self ..)
    · exact turn_stays rfl rfl
  | revert batch id rest =>
    cases e <;> try cases h
    · rw [estados_congr (purgeRevert_spec _ w.cat).2.2]
      exact turn_loop (List.subset_cons_self ..)
    · exact turn_stays rfl rfl
  | failed error unlinked id rest =>
    cases e <;> try cases h
    · dsimp only [Retention.step] at h
      split_ifs at h
      · obtain ⟨rfl, rfl⟩ := Prod.mk.inj (Option.some.inj h)
        rw [estados_setFailure]
        exact .recover
      · obtain ⟨rfl, rfl⟩ := Prod.mk.inj (Option.some.inj h)
        exact .idle (List.subset_cons_self ..) (by simp [marked])
    · exact turn_ends rfl rfl
  | logging rest =>
    cases e <;> try cases h
    · exact turn_loop (List.Subset.refl _)
    · exact turn_ends rfl rfl
  | returned => cases e <;> cases h
  | raised => cases e <;> cases h

/-! ### What a purge keeps -/

/-- The states of a snapshot that is being purged. -/
def InPurge (e : Estado) : Prop := e = .expired ∨ e = .purging ∨ e = .purgeFailed

/-- A snapshot that is there has been there, and has not left a purge or gone back to
the beginning of it. -/
def Keeps (σ σ' : Estados) (id : String) : Prop :=
  ∀ e', σ' id = some e' → ∃ e, σ id = some e ∧ (InPurge e → InPurge e') ∧
    (e ≠ .expired → e' ≠ .expired)

/-- The snapshots that a run of a purge has before it are being purged, and the one
that it has announced is not `EXPIRED` any more. -/
structure Tame (σ : Estados) (used : List String) (phase : Retention.Phase) : Prop where
  known : ∀ id ∈ queue phase, id ∈ used
  queued : ∀ id ∈ queue phase, ∀ e, σ id = some e → InPurge e
  announced : ∀ id ∈ marked phase, ∀ e, σ id = some e → e ≠ .expired

theorem mem_queue_of_mem_marked {phase : Retention.Phase} {id : String} (h : id ∈ marked phase) :
    id ∈ queue phase := by
  cases phase <;> simp_all [marked, queue]

theorem Keeps.overwrite {σ : Estados} {id : String} {e : Estado} (hne : e ≠ .expired)
    (he : ∀ e₀, σ id = some e₀ → InPurge e₀ → InPurge e) (k : String) :
    Keeps σ (overwrite σ id e) k := by
  intro e' h'
  obtain ⟨e₀, h₀, ⟨rfl, rfl⟩ | ⟨-, rfl⟩⟩ := overwrite_eq_some h'
  · exact ⟨e₀, h₀, he e₀ h₀, fun _ => hne⟩
  · exact ⟨_, h₀, fun h => h, fun h => h⟩

theorem Keeps.delete (σ : Estados) (id k : String) : Keeps σ (Function.update σ id none) k := by
  intro e' h'
  by_cases hk : k = id
  · subst hk
    rw [Function.update_self] at h'
    cases h'
  · rw [Function.update_of_ne hk] at h'
    exact ⟨e', h', fun h => h, fun h => h⟩

section

variable {σ σ' : Estados} {used used' : List String} {phase phase' : Retention.Phase}

theorem Tame.start : Tame σ used .start := ⟨nofun, nofun, nofun⟩

/-- **What the other commands do leaves a purge as it is.** -/
theorem Tame.frame (h : Tame σ used phase) (hkeep : ∀ id ∈ used, Keeps σ σ' id)
    (hused : used ⊆ used') : Tame σ' used' phase := by
  refine ⟨fun id hid => hused (h.known id hid), fun id hid e' h' => ?_, fun id hid e' h' => ?_⟩
  · obtain ⟨e, he, hin, -⟩ := hkeep id (h.known id hid) e' h'
    exact hin (h.queued id hid e he)
  · obtain ⟨e, he, -, hne⟩ := hkeep id (h.known id (mem_queue_of_mem_marked hid)) e' h'
    exact hne (h.announced id hid e he)

/-- A shorter way through the same snapshots. -/
theorem Tame.mono (h : Tame σ used phase) (hqueue : queue phase' ⊆ queue phase)
    (hmarked : ∀ id ∈ marked phase', ∀ e, σ id = some e → e ≠ .expired) : Tame σ used phase' :=
  ⟨fun id hid => h.known id (hqueue hid), fun id hid => h.queued id (hqueue hid), hmarked⟩

/-- A step of a purge keeps what is being purged. -/
theorem Turn.keeps (h : Turn σ phase σ' phase') (id : String) : Keeps σ σ' id := by
  cases h with
  | idle => exact fun e' h' => ⟨e', h', fun h => h, fun h => h⟩
  | select => exact Keeps.overwrite (by decide) (fun _ _ _ => Or.inr (Or.inl rfl)) id
  | mark => exact Keeps.overwrite (by decide) (fun _ _ _ => Or.inr (Or.inl rfl)) id
  | delete => exact Keeps.delete σ _ id
  | recover => exact Keeps.overwrite (by decide) (fun _ _ _ => Or.inr (Or.inr rfl)) id

/-- **A step of a purge goes on with it.** -/
theorem Turn.tame (h : Turn σ phase σ' phase') (hphase : Tame σ used phase)
    (hcovers : ∀ id e, σ id = some e → id ∈ used) : Tame σ' used phase' := by
  have hframe := hphase.frame (fun id _ => h.keeps id) (List.Subset.refl used)
  cases h with
  | idle hqueue hmarked =>
    exact hframe.mono hqueue fun id hid => hphase.announced id (hmarked id hid)
  | @select id rest hexp =>
    refine ⟨fun i hi => hcovers i _ (hexp i hi), fun i hi e' h' => ?_, fun i hi e' h' => ?_⟩
    · obtain ⟨e₀, h₀, ⟨-, rfl⟩ | ⟨-, rfl⟩⟩ := overwrite_eq_some h'
      · exact Or.inr (Or.inl rfl)
      · exact Or.inl (Option.some.inj (h₀.symm.trans (hexp i hi)))
    · obtain rfl : id = i := Option.some.inj hi
      obtain ⟨e₀, h₀, ⟨-, rfl⟩ | ⟨hne, -⟩⟩ := overwrite_eq_some h'
      · exact Estado.noConfusion
      · exact absurd rfl hne
  | @mark id rest =>
    refine ⟨hframe.known, hframe.queued, fun i hi e' h' => ?_⟩
    obtain rfl : id = i := Option.some.inj hi
    obtain ⟨e₀, h₀, ⟨-, rfl⟩ | ⟨hne, -⟩⟩ := overwrite_eq_some h'
    · exact Estado.noConfusion
    · exact absurd rfl hne
  | delete => exact ⟨hframe.known, hframe.queued, hframe.announced⟩
  | recover => exact hframe.mono (List.subset_cons_self ..) nofun

/-- **A step of a purge keeps to the table.** -/
theorem Turn.moves (h : Turn σ phase σ' phase') (hphase : Tame σ used phase) : Moves σ σ' := by
  cases h with
  | idle => exact Moves.refl σ
  | @select id rest hexp =>
    refine Moves.overwrite fun e₀ h₀ => Or.inr ?_
    obtain rfl := Option.some.inj (h₀.symm.trans (hexp id (List.mem_cons_self ..)))
    decide
  | @mark id rest =>
    refine Moves.overwrite fun e₀ h₀ => ?_
    rcases hphase.queued id (List.mem_cons_self ..) e₀ h₀ with rfl | rfl | rfl <;> decide
  | @delete id rest =>
    intro k e e' h h'
    by_cases hk : k = id
    · subst hk
      rw [Function.update_self] at h'
      cases h'
    · rw [Function.update_of_ne hk] at h'
      exact Or.inl (Option.some.inj (h'.symm.trans h))
  | @recover error unlinked id rest =>
    refine Moves.overwrite fun e₀ h₀ => ?_
    have hne := hphase.announced id rfl e₀ h₀
    rcases hphase.queued id (List.mem_cons_self ..) e₀ h₀ with rfl | rfl | rfl
    · exact absurd rfl hne
    · decide
    · decide

/-- A step of a purge leaves the other snapshots. -/
theorem Turn.other (h : Turn σ phase σ' phase') (hphase : Tame σ used phase) {k : String}
    {e : Estado} (hk : σ k = some e) (hout : ¬ InPurge e) : σ' k = some e := by
  have hqueue : k ∉ queue phase := fun hmem => hout (hphase.queued k hmem e hk)
  cases h with
  | idle => exact hk
  | @select id rest hexp =>
    have hne : id ≠ k := by
      rintro rfl
      exact hout (Or.inl (Option.some.inj (hk.symm.trans (hexp id (List.mem_cons_self ..)))))
    rwa [overwrite_of_ne hne]
  | mark =>
    rw [overwrite_of_ne, hk]
    rintro rfl
    exact hqueue (List.mem_cons_self ..)
  | delete =>
    rw [Function.update_of_ne, hk]
    rintro rfl
    exact hqueue (List.mem_cons_self ..)
  | recover =>
    rw [overwrite_of_ne, hk]
    rintro rfl
    exact hqueue (List.mem_cons_self ..)

end

end Lifecycle
end Boveda

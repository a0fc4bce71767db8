/-
# A run without failures is a sequence of rounds

While no call raises, a run of `purge_expired_snapshots` is always in the middle of
a round, with whole rounds behind it (`Stage`), and it gets to its end
(`exists_returned`).
-/

import Boveda.Retention.Rounds

namespace Boveda
namespace Retention

open Lib Catalog

/-- What a run from `w₀` in which no call has raised has done so far: the rounds of
the snapshots `done`, and the part of the round of `id` that its phase says. -/
inductive Stage (w₀ : Store) : Process → Prop
  | start : Stage w₀ ⟨w₀, .start, []⟩
  | next {done rest keys : List String} {id : String} {w : Store} :
      expiredIds w₀.cat = done ++ id :: rest → Rounds w₀ done w keys →
        Stage w₀ ⟨w, .next id rest, keys⟩
  | unlink {done rest keys : List String} {id : String} {w : Store} :
      expiredIds w₀.cat = done ++ id :: rest → Rounds w₀ done w keys →
        Stage w₀ ⟨⟨setEstado id .purging w.cat, w.s3⟩, .unlink id rest, keys⟩
  | twoPhase {done rest keys : List String} {id : String} {w : Store} {now : Time} {cat : Catalog} :
      expiredIds w₀.cat = done ++ id :: rest → Rounds w₀ done w keys →
        purgeSnapshot now id (setEstado id .purging w.cat) = .ok cat →
        Stage w₀ ⟨⟨cat, w.s3⟩, .twoPhase id rest, keys⟩
  | deleting {done rest keys : List String} {id : String} {w : Store} {now : Time} {cat : Catalog} :
      expiredIds w₀.cat = done ++ id :: rest → Rounds w₀ done w keys →
        purgeSnapshot now id (setEstado id .purging w.cat) = .ok cat →
        chunksToPurge batchSize cat ≠ [] →
        Stage w₀ ⟨⟨(purgePhase1 batchSize cat).2, w.s3⟩,
          .deleting (chunksToPurge batchSize cat) id rest, keys⟩
  | confirm {done rest keys : List String} {id : String} {w : Store} {now : Time} {cat : Catalog} :
      expiredIds w₀.cat = done ++ id :: rest → Rounds w₀ done w keys →
        purgeSnapshot now id (setEstado id .purging w.cat) = .ok cat →
        chunksToPurge batchSize cat ≠ [] →
        Stage w₀ ⟨⟨(purgePhase1 batchSize cat).2,
            deleteObjects ((chunksToPurge batchSize cat).map Prod.snd) w.s3⟩,
          .confirm (chunksToPurge batchSize cat) id rest,
          keys ++ (chunksToPurge batchSize cat).map Prod.snd⟩
  | returned {keys : List String} {w : Store} :
      Rounds w₀ (expiredIds w₀.cat) w keys → Stage w₀ ⟨w, .returned, keys⟩

/-- After a round the run goes on with the next one, or returns. -/
theorem stage_loop {w₀ w w' : Store} {done rest keys : List String} {id : String}
    {batch : List (String × String)} (hsplit : expiredIds w₀.cat = done ++ id :: rest)
    (hrounds : Rounds w₀ done w keys) (hround : Round w id w' batch) :
    Stage w₀ ⟨w', loop rest, keys ++ batch.map Prod.snd⟩ := by
  have hrounds' := hrounds.snoc hround
  cases rest with
  | nil =>
    rw [← hsplit] at hrounds'
    exact .returned hrounds'
  | cons next rest =>
    refine .next ?_ hrounds'
    rw [hsplit, List.append_assoc]
    rfl

/-- What a step is, seen from the process. -/
theorem Process.step_eq {p p' : Process} {e : Event} (h : p.step e = some p') :
    Retention.step p.store p.phase e = some (p'.store, p'.phase) ∧
      p'.passed = p.passed ++ keysPassed p.phase e := by
  obtain ⟨⟨store, phase⟩, hs, rfl⟩ := Option.map_eq_some_iff.1 h
  exact ⟨hs, rfl⟩

/-- **One step goes on with the round.** -/
theorem Stage.step {w₀ : Store} {p p' : Process} {e : Event} (hp : Stage w₀ p) (he : e.Smooth)
    (h : p.step e = some p') : Stage w₀ p' := by
  obtain ⟨hs, hpassed⟩ := Process.step_eq h
  obtain ⟨store, phase, passed⟩ := p'
  dsimp only at hs hpassed
  cases hp with
  | start =>
    cases e <;> try cases hs
    · obtain rfl : passed = [] := hpassed
      dsimp only [Retention.step] at hs
      cases hids : expiredIds w₀.cat with
      | nil =>
        rw [hids] at hs
        obtain ⟨rfl, rfl⟩ := Prod.mk.inj (Option.some.inj hs)
        exact .returned (by rw [hids]; exact .nil)
      | cons id rest =>
        rw [hids] at hs
        obtain ⟨rfl, rfl⟩ := Prod.mk.inj (Option.some.inj hs)
        have hsplit : expiredIds w₀.cat = [] ++ id :: rest := hids
        exact .unlink hsplit .nil
    · exact he.elim
  | next hsplit hrounds =>
    cases e <;> try cases hs
    · obtain rfl := hpassed.trans (List.append_nil _)
      dsimp only [Retention.step] at hs
      split_ifs at hs
      obtain ⟨rfl, rfl⟩ := Prod.mk.inj (Option.some.inj hs)
      exact .unlink hsplit hrounds
    · exact he.elim
  | @unlink done rest keys id w hsplit hrounds =>
    cases e <;> try cases hs
    · rename_i now
      obtain rfl := hpassed.trans (List.append_nil _)
      dsimp only [Retention.step] at hs
      split_ifs at hs
      cases hcat : purgeSnapshot now id (setEstado id .purging w.cat) with
      | error e => simp only [hcat, reduceCtorEq] at hs
      | ok cat =>
        simp only [hcat] at hs
        obtain ⟨rfl, rfl⟩ := Prod.mk.inj (Option.some.inj hs)
        exact .twoPhase hsplit hrounds hcat
    · exact he.elim
  | @twoPhase done rest keys id w now cat hsplit hrounds hcat =>
    cases e <;> try cases hs
    · obtain rfl := hpassed.trans (List.append_nil _)
      dsimp only [Retention.step] at hs
      split_ifs at hs with hempty
      · obtain ⟨rfl, rfl⟩ := Prod.mk.inj (Option.some.inj hs)
        have hbatch : chunksToPurge batchSize cat = [] := List.isEmpty_iff.1 hempty
        have hround : Round w id ⟨cat, w.s3⟩ [] := by
          refine ⟨now, cat, hcat, hbatch.symm, ?_, ?_⟩
          · rw [purgePhase1, hbatch]
            rfl
          · funext key
            simp [deleteObjects]
        have := stage_loop hsplit hrounds hround
        rwa [List.map_nil, List.append_nil] at this
      · obtain ⟨rfl, rfl⟩ := Prod.mk.inj (Option.some.inj hs)
        exact .deleting hsplit hrounds hcat fun h => hempty (List.isEmpty_iff.2 h)
    · exact he.elim
  | deleting hsplit hrounds hcat hne =>
    cases e <;> try cases hs
    · obtain rfl := hpassed
      have hconfirm := Stage.confirm hsplit hrounds hcat hne
      exact hconfirm
    · exact he.elim
  | @confirm done rest keys id w now cat hsplit hrounds hcat hne =>
    cases e <;> try cases hs
    · obtain rfl := hpassed.trans (List.append_nil _)
      dsimp only [Retention.step] at hs
      cases hphase2 : purgePhase2 ((chunksToPurge batchSize cat).map Prod.fst)
        (purgePhase1 batchSize cat).2 with
      | error e => simp only [hphase2, reduceCtorEq] at hs
      | ok cat' =>
        simp only [hphase2] at hs
        obtain ⟨rfl, rfl⟩ := Prod.mk.inj (Option.some.inj hs)
        exact stage_loop hsplit hrounds ⟨now, cat, hcat, rfl, hphase2, rfl⟩
    · exact he.elim
  | returned hrounds => cases e <;> cases hs

/-- **What a run without failures has done so far.** -/
theorem stage_of_reach {w₀ : Store} {p : Process}
    (h : Reach Process.step (fun _ e => e.Smooth) ⟨w₀, .start, []⟩ p) : Stage w₀ p :=
  h.invariant .start fun _ _ _ hp he hs => hp.step he hs

/-- A run that has returned has made all its rounds. -/
theorem rounds_of_returned {w₀ : Store} {p : Process}
    (h : Reach Process.step (fun _ e => e.Smooth) ⟨w₀, .start, []⟩ p) (hp : p.phase = .returned) :
    Rounds w₀ (expiredIds w₀.cat) p.store p.passed := by
  have hstage := stage_of_reach h
  cases hstage <;> cases hp
  assumption

/-! ### A run gets to its end -/

/-- A round, from the commit of `PURGING` on. -/
theorem reach_loop {w : Store} {id : String} (rest keys : List String) (hc : RefCountInv w.cat)
    {s : Snapshot} (hs : w.cat.snapshots.find? id = some s) : ∃ w' keys',
      Reach Process.step (fun _ e => e.Smooth)
        ⟨⟨setEstado id .purging w.cat, w.s3⟩, .unlink id rest, keys⟩ ⟨w', loop rest, keys'⟩ := by
  obtain ⟨cat, hcat, hun⟩ := purgeSnapshot_unlinks hc hs 0
  obtain ⟨cat', hcat', -⟩ := twoPhase_spec hun.coherent batchSize
  have hfind : ((setEstado id .purging w.cat).snapshots.find? id).isSome = true := by
    rw [find?_setEstado, if_pos rfl, hs]
    rfl
  have hunlink : Process.step ⟨⟨setEstado id .purging w.cat, w.s3⟩, .unlink id rest, keys⟩
      (.unlink 0) = some ⟨⟨cat, w.s3⟩, .twoPhase id rest, keys ++ []⟩ := by
    simp only [Process.step, Retention.step, hfind, hcat, if_true, Option.map_some, keysPassed]
  have h₁ : Reach Process.step (fun _ e => e.Smooth) _ _ :=
    Reach.refl.tail (e := Event.unlink 0) trivial hunlink
  cases hempty : (chunksToPurge batchSize cat).isEmpty with
  | true =>
    have hclaim : Process.step ⟨⟨cat, w.s3⟩, .twoPhase id rest, keys ++ []⟩ .claim =
        some ⟨⟨cat, w.s3⟩, loop rest, keys ++ [] ++ []⟩ := by
      simp only [Process.step, Retention.step, purgePhase1, hempty, if_true, Option.map_some,
        keysPassed]
    exact ⟨_, _, h₁.tail (e := Event.claim) trivial hclaim⟩
  | false =>
    have hclaim : Process.step ⟨⟨cat, w.s3⟩, .twoPhase id rest, keys ++ []⟩ .claim =
        some ⟨⟨(purgePhase1 batchSize cat).2, w.s3⟩,
          .deleting (chunksToPurge batchSize cat) id rest, keys ++ [] ++ []⟩ := by
      simp only [Process.step, Retention.step, purgePhase1, hempty, Bool.false_eq_true, if_false,
        Option.map_some, keysPassed]
    have h₂ := h₁.tail (e := Event.claim) trivial hclaim
    have hdelete : Process.step ⟨⟨(purgePhase1 batchSize cat).2, w.s3⟩,
          .deleting (chunksToPurge batchSize cat) id rest, keys ++ [] ++ []⟩ .deleteReturns =
        some ⟨⟨(purgePhase1 batchSize cat).2,
            deleteObjects ((chunksToPurge batchSize cat).map Prod.snd) w.s3⟩,
          .confirm (chunksToPurge batchSize cat) id rest,
          keys ++ [] ++ [] ++ (chunksToPurge batchSize cat).map Prod.snd⟩ := rfl
    have h₃ := h₂.tail (e := Event.deleteReturns) trivial hdelete
    have hconfirm : Process.step ⟨⟨(purgePhase1 batchSize cat).2,
            deleteObjects ((chunksToPurge batchSize cat).map Prod.snd) w.s3⟩,
          .confirm (chunksToPurge batchSize cat) id rest,
          keys ++ [] ++ [] ++ (chunksToPurge batchSize cat).map Prod.snd⟩ .confirm =
        some ⟨⟨cat', deleteObjects ((chunksToPurge batchSize cat).map Prod.snd) w.s3⟩, loop rest,
          keys ++ [] ++ [] ++ (chunksToPurge batchSize cat).map Prod.snd ++ []⟩ := by
      simp only [Process.step, Retention.step, hcat', Option.map_some, keysPassed]
    exact ⟨_, _, h₃.tail (e := Event.confirm) trivial hconfirm⟩

/-- **A run in which no call raises returns.** -/
theorem exists_returned {w₀ : Store} (hc : RefCountInv w₀.cat) : ∃ p,
    Reach Process.step (fun _ e => e.Smooth) ⟨w₀, .start, []⟩ p ∧ p.phase = .returned := by
  -- from the head of the loop, by induction on the snapshots that are still to come
  have hloop : ∀ (rest : List String) (w : Store) (keys : List String),
      Reach Process.step (fun _ e => e.Smooth) ⟨w₀, .start, []⟩ ⟨w, loop rest, keys⟩ →
      ∃ p, Reach Process.step (fun _ e => e.Smooth) ⟨w₀, .start, []⟩ p ∧ p.phase = .returned := by
    intro rest
    induction rest with
    | nil => exact fun w keys h => ⟨_, h, rfl⟩
    | cons id rest ih =>
      intro w keys h
      have hstage := stage_of_reach h
      obtain ⟨done, hsplit, hrounds⟩ : ∃ done, expiredIds w₀.cat = done ++ id :: rest ∧
          Rounds w₀ done w keys := by
        cases hstage with
        | next hsplit hrounds => exact ⟨_, hsplit, hrounds⟩
      obtain ⟨purged, hafter⟩ := after_of_expired hc hrounds hsplit
      have hnew : id ∉ done := by
        have hnd := nodup_expiredIds w₀.cat
        rw [hsplit] at hnd
        exact fun hmem => (List.nodup_append.1 hnd).2.2 _ hmem _ (List.mem_cons_self ..) rfl
      obtain ⟨s, hs⟩ := Option.isSome_iff_exists.1
        (isSome_of_mem_expiredIds (hsplit ▸ List.mem_append_right _ (List.mem_cons_self ..)))
      rw [← hafter.find?_snapshot hnew] at hs
      have hmark : Process.step ⟨w, .next id rest, keys⟩ .mark =
          some ⟨⟨setEstado id .purging w.cat, w.s3⟩, .unlink id rest, keys ++ []⟩ := by
        simp only [Process.step, Retention.step, hs, Option.isSome_some, if_true, Option.map_some,
          keysPassed]
      obtain ⟨w', keys', hround⟩ := reach_loop rest (keys ++ []) hafter.coherent hs
      exact ih w' keys' ((h.tail (e := Event.mark) trivial hmark).trans hround)
  cases hids : expiredIds w₀.cat with
  | nil =>
    have hselect : Process.step ⟨w₀, .start, []⟩ .select = some ⟨w₀, .returned, []⟩ := by
      simp only [Process.step, Retention.step, hids, Option.map_some, keysPassed, List.append_nil]
    exact ⟨_, Reach.refl.tail (e := Event.select) trivial hselect, rfl⟩
  | cons id rest =>
    have hselect : Process.step ⟨w₀, .start, []⟩ .select =
        some ⟨⟨setEstado id .purging w₀.cat, w₀.s3⟩, .unlink id rest, []⟩ := by
      simp only [Process.step, Retention.step, hids, Option.map_some, keysPassed, List.append_nil]
    obtain ⟨s, hs⟩ := Option.isSome_iff_exists.1
      (isSome_of_mem_expiredIds (hids ▸ List.mem_cons_self ..))
    obtain ⟨w', keys', hround⟩ := reach_loop rest [] hc hs
    exact hloop rest w' keys' ((Reach.refl.tail (e := Event.select) trivial hselect).trans hround)

end Retention
end Boveda

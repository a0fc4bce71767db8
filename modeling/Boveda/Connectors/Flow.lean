/-
# A dump does not get stuck in its standard error

What `drain_stderr_nonblocking` is for.  `flows` is about everything that the child, the
event loop, the drain task and the generator do of themselves, in any order: it comes to
an end, and then it is the turn of the consumer, whatever the child has written to its
standard error, and wherever in its program.  The exception is a generator that has left
its loop on `shutdown_event`, with a child that has still something to write.

-/

import Boveda.Connectors.Pipes
import Boveda.Connectors.Watchdog

namespace Boveda
namespace Connectors

open Lib

/-- What the parties do of themselves: not the consumer, not the clock, and no failure. -/
def WorldEvent.Own : WorldEvent → Prop
  | .generator .spawned | .generator (.read _) | .generator .waited | .generator .drained => True
  | .generator _ | .drainFails => False
  | _ => True

/-- A bound on the steps that are left to the generator, by the phase. -/
def Phase.left : Phase → ℕ
  | .spawning => 8
  | .reading .. => 5
  | .yielding | .yieldingLast | .waiting | .terminating _ | .killing _ => 3
  | .draining _ => 1
  | .created | .ended _ => 0

/-- Whether the child can still exit. -/
def Child.left : Child → ℕ
  | .exited _ => 0
  | _ => 1

/-- Whether the drain task can still end. -/
def DrainTask.left : DrainTask → ℕ
  | .reading => 1
  | _ => 0

/-- How many bytes some writes have. -/
def toWrite (program : List (Fd × Bytes)) : ℕ := (program.map fun x => x.2.length).sum

variable {S : ReadPipe}

/-- A bound on the steps that the parties can take of themselves. -/
def World.remaining (w : World S) : ℕ :=
  3 * toWrite w.program + (w.channels .stdout).weight + (w.channels .stderr).weight +
    w.generator.phase.left + w.generator.child.left + w.drainTask.left

/-- The generator waits for its consumer, or has ended. -/
def World.ConsumersTurn (w : World S) : Prop :=
  match w.generator.phase with
  | .created | .yielding | .yieldingLast | .ended _ => True
  | _ => False

/-- The child is blocked in its standard output: the pipe takes nothing of the write, and the
event loop leaves it alone. -/
structure World.BlockedInStdout (w : World S) : Prop where
  blocked : ∃ data program, w.program = (.stdout, data) :: program ∧
    S.kernel.takes (w.channels .stdout).kernel data.length = 0
  paused : (w.channels .stdout).paused = true

/-- The generator has been told to shut down, and waits for a child that is blocked in its
standard output, which nobody reads. -/
structure World.StuckInStdout (w : World S) : Prop extends w.BlockedInStdout where
  waiting : w.generator.phase = .waiting
  shutdown : w.generator.shutdown = true

/-- Somebody can do something. -/
def World.Moves (P : Setting) (w : World S) : Prop :=
  ∃ e w', WorldEvent.Own e ∧ worldStep P w e = some w'

/-- What holds of the generator in each phase, once `stdout` has ended or before. -/
def Staged (P : Setting) (ended : Prop) (s : State) : Prop :=
  match s.phase with
  | .created | .spawning => s.accumulated = []
  | .reading request _ => s.child ≠ .absent ∧ 0 < request ∧
      request + s.accumulated.length = P.chunkSize
  | .yielding => s.child ≠ .absent ∧ s.accumulated.length ≤ P.chunkSize
  | .yieldingLast | .waiting => s.child ≠ .absent ∧ (s.shutdown = true ∨ ended)
  | .terminating _ | .killing _ => s.child ≠ .absent ∧ s.child ≠ .running
  | .draining _ | .ended _ => True

section

variable {P : Setting} {s t : State} {ended : Prop} {w w' : World S}

/-! ### The generator -/

theorem staged_afterLoop (hchild : s.child ≠ .absent) (hended : s.shutdown = true ∨ ended) :
    Staged P ended (afterLoop s) := by
  unfold afterLoop
  split_ifs <;> exact ⟨hchild, hended⟩

theorem staged_loopTop (hchild : s.child ≠ .absent) (hroom : s.accumulated.length < P.chunkSize) :
    Staged P ended (loopTop P s) := by
  by_cases hshutdown : s.shutdown = true
  · rw [loopTop, if_pos hshutdown]
    exact staged_afterLoop hchild (.inl hshutdown)
  · rw [loopTop, if_neg hshutdown]
    exact ⟨hchild, Nat.sub_pos_of_lt hroom, Nat.sub_add_cancel hroom.le⟩

theorem staged_handle (exc : Ending) : Staged P ended (handle s exc) := by
  unfold handle
  split_ifs with hrunning
  · exact ⟨Child.noConfusion, Child.noConfusion⟩
  · trivial

theorem staged_afterWait (returncode : ℤ) : Staged P ended (afterWait s returncode) := by
  unfold afterWait
  split_ifs
  · exact staged_handle _
  · trivial

/-- **One step of the generator.**  An empty read is the end of the output. -/
theorem Staged.next {e : Event} (hpos : 0 < P.chunkSize) (h : Staged P ended s)
    (hread : e = .read [] → ended) (hstep : step P s e = some t) : Staged P ended t := by
  unfold Staged at h
  cases e with
  | anext =>
    simp only [step] at hstep
    split at hstep
    · next hphase =>
      rw [hphase] at h
      obtain rfl := Option.some.inj hstep
      exact h
    · next hphase =>
      rw [hphase] at h
      obtain rfl := Option.some.inj hstep
      refine staged_loopTop h.1 ?_
      rw [List.drop_eq_nil_of_le h.2]
      exact hpos
    · next hphase =>
      rw [hphase] at h
      obtain rfl := Option.some.inj hstep
      exact h
    · cases hstep
  | aclose | drained | spawnFails =>
    simp only [step] at hstep
    split at hstep <;> cases hstep <;> trivial
  | athrow =>
    simp only [step] at hstep
    split at hstep
    · obtain rfl := Option.some.inj hstep
      trivial
    · obtain rfl := Option.some.inj hstep
      exact staged_handle _
    · obtain rfl := Option.some.inj hstep
      exact staged_handle _
    · cases hstep
  | cancel =>
    simp only [step] at hstep
    split at hstep <;> cases hstep <;> trivial
  | shutdown =>
    obtain rfl := Option.some.inj hstep
    unfold Staged
    dsimp only
    split at h
    all_goals first | exact h | exact ⟨h.1, .inl rfl⟩
  | spawned =>
    simp only [step] at hstep
    split at hstep
    · next hphase =>
      rw [hphase] at h
      obtain rfl := Option.some.inj hstep
      refine staged_loopTop Child.noConfusion ?_
      show s.accumulated.length < P.chunkSize
      rw [h]
      exact hpos
    · cases hstep
  | read chunk =>
    simp only [step] at hstep
    split at hstep
    · next request timeout hphase =>
      rw [hphase] at h
      obtain ⟨hchild, hrequest, hsum⟩ := h
      split_ifs at hstep with hle
      obtain rfl := Option.some.inj hstep
      unfold afterRead
      split_ifs with hchunk hfull
      · exact staged_afterLoop hchild (.inr (hread (by rw [hchunk])))
      · refine ⟨hchild, ?_⟩
        show (s.accumulated ++ chunk).length ≤ P.chunkSize
        rw [List.length_append]
        omega
      · exact staged_loopTop hchild (Nat.not_le.1 hfull)
    · cases hstep
  | readFails =>
    simp only [step] at hstep
    split at hstep
    · obtain rfl := Option.some.inj hstep
      exact staged_handle _
    · cases hstep
  | timeout =>
    simp only [step] at hstep
    split at hstep
    · obtain rfl := Option.some.inj hstep
      exact staged_handle _
    · next hphase =>
      rw [hphase] at h
      split_ifs at hstep
      · obtain rfl := Option.some.inj hstep
        exact h
      · obtain rfl := Option.some.inj hstep
        trivial
    · cases hstep
  | childExits returncode =>
    simp only [step] at hstep
    split at hstep <;> cases hstep
    all_goals
      unfold Staged
      dsimp only
      split at h
      all_goals first
        | exact h
        | exact ⟨Child.noConfusion, h.2⟩
        | exact ⟨Child.noConfusion, Child.noConfusion⟩
  | waited =>
    simp only [step] at hstep
    split at hstep
    · obtain rfl := Option.some.inj hstep
      exact staged_afterWait _
    · obtain rfl := Option.some.inj hstep
      trivial
    · obtain rfl := Option.some.inj hstep
      trivial
    · cases hstep

theorem Staged.mono {ended' : Prop} (h : Staged P ended s) (hended : ended → ended') :
    Staged P ended' s := by
  unfold Staged at h ⊢
  split at h
  all_goals first | exact h | exact ⟨h.1, h.2.imp_right hended⟩

/-! ### What is left to do -/

theorem left_afterLoop : (afterLoop s).phase.left = 3 := by
  unfold afterLoop
  split_ifs <;> rfl

theorem left_loopTop : (loopTop P s).phase.left ≤ 5 := by
  by_cases hshutdown : s.shutdown = true
  · rw [loopTop, if_pos hshutdown, left_afterLoop]
    decide
  · rw [loopTop, if_neg hshutdown]
    exact le_rfl

theorem child_afterLoop : (afterLoop s).child = s.child := by
  unfold afterLoop
  split_ifs <;> rfl

theorem child_loopTop : (loopTop P s).child = s.child := by
  by_cases hshutdown : s.shutdown = true
  · rw [loopTop, if_pos hshutdown, child_afterLoop]
  · rw [loopTop, if_neg hshutdown]

theorem left_spawned (hstep : step P s .spawned = some t) :
    t.phase.left + t.child.left + 1 < s.phase.left := by
  simp only [step] at hstep
  split at hstep
  · next hphase =>
    obtain rfl := Option.some.inj hstep
    have hleft : (loopTop P { s with child := .running }).phase.left ≤ 5 := left_loopTop
    have hchild : (loopTop P { s with child := .running }).child.left = 1 :=
      congrArg Child.left child_loopTop
    have hspawning : s.phase.left = 8 := congrArg Phase.left hphase
    omega
  · cases hstep

/-- The generator gets on by a read, also at the end of the output. -/
theorem left_read {chunk : Bytes} (hstep : step P s (.read chunk) = some t) :
    t.phase.left < s.phase.left + chunk.length ∧ t.child = s.child := by
  simp only [step] at hstep
  split at hstep
  · next hphase =>
    split_ifs at hstep
    obtain rfl := Option.some.inj hstep
    rw [hphase]
    unfold afterRead
    split_ifs with hchunk hfull
    · rw [left_afterLoop]
      exact ⟨Nat.lt_add_right _ (show 3 < 5 by decide), child_afterLoop⟩
    · exact ⟨Nat.lt_add_right _ (show 3 < 5 by decide), rfl⟩
    · have hlen := List.length_pos_iff.2 hchunk
      have hleft : (loopTop P (extend s chunk)).phase.left ≤ 5 := left_loopTop
      exact ⟨Nat.lt_of_le_of_lt hleft (Nat.lt_add_of_pos_right hlen), child_loopTop⟩
  · cases hstep

theorem left_waited (hstep : step P s .waited = some t) :
    t.phase.left < s.phase.left ∧ t.child = s.child := by
  simp only [step] at hstep
  split at hstep
  · next hchild hphase =>
    obtain rfl := Option.some.inj hstep
    have hdone : s.child ≠ .running := by
      rw [hchild]
      exact Child.noConfusion
    rw [hphase]
    unfold afterWait handle
    split_ifs <;> exact ⟨show 1 < 3 by decide, rfl⟩
  · next hphase =>
    obtain rfl := Option.some.inj hstep
    rw [hphase]
    exact ⟨show 1 < 3 by decide, rfl⟩
  · next hphase =>
    obtain rfl := Option.some.inj hstep
    rw [hphase]
    exact ⟨show 1 < 3 by decide, rfl⟩
  · cases hstep

theorem left_drained (hstep : step P s .drained = some t) :
    t.phase.left < s.phase.left ∧ t.child = s.child := by
  simp only [step] at hstep
  split at hstep
  · next hphase =>
    obtain rfl := Option.some.inj hstep
    rw [hphase]
    exact ⟨show 0 < 1 by decide, rfl⟩
  · cases hstep

theorem Child.Alive.left {c : Child} (h : c.Alive) : c.left = 1 := by
  rcases h with rfl | rfl <;> rfl

theorem left_goesTo (generator : State) :
    (w.goesTo generator).drainTask.left ≤ w.drainTask.left := by
  unfold World.goesTo
  dsimp only
  split
  · exact Nat.zero_le _
  · exact Nat.zero_le _
  · exact le_rfl

/-- The weight of the channels, when one of them changes. -/
theorem weight_update (w : World S) (fd : Fd) (c : Channel S UInt8) :
    (Function.update w.channels fd c .stdout).weight +
      (Function.update w.channels fd c .stderr).weight + (w.channels fd).weight =
    (w.channels .stdout).weight + (w.channels .stderr).weight + c.weight := by
  cases fd <;> simp only [Function.update_self, Function.update_of_ne, ne_eq, reduceCtorEq,
    not_false_eq_true] <;> omega

theorem toWrite_cons (fd : Fd) (data : Bytes) (program : List (Fd × Bytes)) :
    toWrite ((fd, data) :: program) = data.length + toWrite program := rfl

theorem toWrite_rest (fd : Fd) (rest : Bytes) (program : List (Fd × Bytes)) :
    toWrite (if rest = [] then program else (fd, rest) :: program) =
      rest.length + toWrite program := by
  split_ifs with hrest
  · rw [hrest, List.length_nil, Nat.zero_add]
  · rfl

/-- **What the parties do of themselves leaves less to do.** -/
theorem remaining_lt {e : WorldEvent} (hown : e.Own) (hstep : worldStep P w e = some w') :
    w'.remaining < w.remaining := by
  cases turn_of_step hstep with
  | @writes fd data rest program c _ hprogram hc =>
    obtain ⟨hweight, hlt⟩ := Channel.weight_write hc
    have hsum := weight_update w fd c
    simp only [World.remaining, hprogram, toWrite_cons, toWrite_rest]
    omega
  | @closes fd _ hclosed _ =>
    have hweight := Channel.weight_close (c := w.channels fd)
    have hsum := weight_update w fd (w.channels fd).close
    rw [hclosed, Bool.not_false, Bool.toNat_true] at hweight
    simp only [World.remaining]
    omega
  | @exits returncode halive =>
    have hout := Channel.weight_close (c := w.channels .stdout)
    have herr := Channel.weight_close (c := w.channels .stderr)
    have hexited : (Child.exited returncode).left = 0 := rfl
    have hnone : toWrite [] = 0 := rfl
    simp only [World.remaining, hnone, halive.left, hexited]
    omega
  | @transport fd count c hc =>
    have hweight := Channel.weight_transport hc
    have hsum := weight_update w fd c
    simp only [World.remaining]
    omega
  | @drains chunk c _ hchunk hc =>
    have hweight := Channel.weight_read hc
    have hsum := weight_update w .stderr c
    have hlen := List.length_pos_iff.2 hchunk
    simp only [World.remaining]
    omega
  | drainEnds hreading _ =>
    simp only [World.remaining, hreading, DrainTask.left]
    omega
  | drainFails _ => exact hown.elim
  | @spawned g hg =>
    have hleft := left_spawned hg
    simp only [World.remaining, DrainTask.left]
    omega
  | @reads request timeout chunk c g _ hc hg =>
    have hweight := Channel.weight_read hc
    have hsum := weight_update w .stdout c
    obtain ⟨hleft, hchild⟩ := left_read hg
    have hdrain := left_goesTo (w := w) g
    simp only [World.remaining, World.goesTo, hchild] at hdrain ⊢
    omega
  | @waited g hg =>
    obtain ⟨hleft, hchild⟩ := left_waited hg
    have hdrain := left_goesTo (w := w) g
    simp only [World.remaining, World.goesTo, hchild] at hdrain ⊢
    omega
  | @other e g hspawned hread _ hwaited hg =>
    cases e with
    | drained =>
      obtain ⟨hleft, hchild⟩ := left_drained hg
      have hdrain := left_goesTo (w := w) g
      simp only [World.remaining, World.goesTo, hchild] at hdrain ⊢
      omega
    | waited => exact absurd rfl hwaited
    | spawned => exact absurd rfl hspawned
    | read chunk => exact absurd rfl (hread chunk)
    | _ => exact hown.elim

/-! ### Where everybody stands -/

/-- What holds of the generator, the pipes and the drain task, as long as no read of the drain
task fails. -/
structure Flow (P : Setting) (w : World S) : Prop where
  staged : Staged P ((w.channels .stdout).closed = true) w.generator
  ok : ∀ fd, (w.channels fd).Ok
  nonempty : ∀ x ∈ w.program, x.2 ≠ []
  finished : ∀ fd, (w.channels fd).closed = true → w.Finished fd
  exited : ∀ returncode, w.generator.child = .exited returncode →
    ∀ fd, (w.channels fd).closed = true
  /-- The drain task runs as long as there is something to drain. -/
  drains : w.generator.phase.Attended →
    w.drainTask = .reading ∨ (w.channels .stderr).closed = true

theorem flow_init (P : Setting) (S : ReadPipe) (program : List (Fd × Bytes)) :
    Flow P (.init S program) where
  staged := rfl
  ok _ := Channel.ok_empty
  nonempty _ hx := of_decide_eq_true (List.mem_filter.1 hx).2
  finished _ h := nomatch h
  exited _ h := nomatch h
  drains h := h.elim

/-- The generator gets to where the child is attended by starting it. -/
theorem attended_of_step {e : Event} (hspawned : e ≠ .spawned) (hstep : step P s e = some t)
    (ht : t.phase.Attended) : s.phase.Attended := by
  cases e with
  | spawned => exact absurd rfl hspawned
  | shutdown =>
    obtain rfl := Option.some.inj hstep
    exact ht
  | childExits returncode =>
    obtain ⟨-, rfl⟩ := childExits_eq_some hstep
    exact ht
  | waited =>
    simp only [step] at hstep
    split at hstep
    · next hphase =>
      rw [hphase]
      trivial
    · obtain rfl := Option.some.inj hstep
      exact ht.elim
    · obtain rfl := Option.some.inj hstep
      exact ht.elim
    · cases hstep
  | timeout =>
    simp only [step] at hstep
    split at hstep
    · next hphase =>
      rw [hphase]
      trivial
    · split_ifs at hstep <;> (obtain rfl := Option.some.inj hstep; exact ht.elim)
    · cases hstep
  | anext | aclose | athrow | cancel | spawnFails | read _ | readFails | drained =>
    simp only [step] at hstep
    split at hstep
    all_goals first
      | (next hphase => rw [hphase]; trivial)
      | (obtain rfl := Option.some.inj hstep; exact ht.elim)
      | cases hstep

/-- No event of the generator but its exit makes the child one that has exited. -/
theorem exited_of_step {e : Event} {returncode : ℤ}
    (hexits : ∀ returncode, e ≠ .childExits returncode)
    (hstep : step P s e = some t) (ht : t.child = .exited returncode) :
    s.child = .exited returncode := by
  have hhandle (exc : Ending) (h : (handle s exc).child = .exited returncode) :
      s.child = .exited returncode := by
    unfold handle at h
    split_ifs at h
    exact h
  cases e with
  | childExits returncode => exact absurd rfl (hexits returncode)
  | shutdown =>
    obtain rfl := Option.some.inj hstep
    exact ht
  | read chunk =>
    rwa [(left_read hstep).2] at ht
  | waited =>
    rwa [(left_waited hstep).2] at ht
  | spawned =>
    simp only [step] at hstep
    split at hstep
    · obtain rfl := Option.some.inj hstep
      rw [child_loopTop] at ht
      cases ht
    · cases hstep
  | anext =>
    simp only [step] at hstep
    split at hstep
    all_goals first
      | (obtain rfl := Option.some.inj hstep; first | exact ht | rwa [child_loopTop] at ht)
      | cases hstep
  | athrow | readFails =>
    simp only [step] at hstep
    split at hstep
    all_goals first
      | (obtain rfl := Option.some.inj hstep; first | exact ht | exact hhandle _ ht)
      | cases hstep
  | timeout =>
    simp only [step] at hstep
    split at hstep
    · obtain rfl := Option.some.inj hstep
      exact hhandle _ ht
    · split_ifs at hstep <;> (obtain rfl := Option.some.inj hstep; exact ht)
    · cases hstep
  | aclose | cancel | spawnFails | drained =>
    simp only [step] at hstep
    split at hstep
    all_goals first
      | (obtain rfl := Option.some.inj hstep; first | exact ht | cases ht)
      | cases hstep

theorem Flow.setChannel (hw : Flow P w) {fd : Fd} {c : Channel S UInt8} (hok : c.Ok)
    (hclosed : c.closed = (w.channels fd).closed) :
    Flow P { w with channels := Function.update w.channels fd c } := by
  have hsame (fd' : Fd) :
      (Function.update w.channels fd c fd').closed = (w.channels fd').closed := by
    rcases eq_or_ne fd' fd with rfl | hne
    · rwa [Function.update_self]
    · rw [Function.update_of_ne hne]
  refine ⟨?_, fun fd' => ?_, hw.nonempty, fun fd' h => hw.finished fd' ((hsame fd').symm.trans h),
    fun rc h fd' => (hsame fd').trans (hw.exited rc h fd'), fun h => ?_⟩
  · show Staged P ((Function.update w.channels fd c .stdout).closed = true) w.generator
    rw [hsame]
    exact hw.staged
  · show (Function.update w.channels fd c fd').Ok
    rcases eq_or_ne fd' fd with rfl | hne
    · rwa [Function.update_self]
    · rw [Function.update_of_ne hne]
      exact hw.ok fd'
  · show _ ∨ (Function.update w.channels fd c .stderr).closed = true
    rw [hsame]
    exact hw.drains h

theorem Flow.goesTo {e : Event} (hpos : 0 < P.chunkSize) (hw : Flow P w) (hspawned : e ≠ .spawned)
    (hexits : ∀ returncode, e ≠ .childExits returncode)
    (hread : e = .read [] → (w.channels .stdout).closed = true)
    (hstep : step P w.generator e = some s) : Flow P (w.goesTo s) where
  staged := hw.staged.next hpos hread hstep
  ok := hw.ok
  nonempty := hw.nonempty
  finished := hw.finished
  exited rc h := hw.exited rc (exited_of_step hexits hstep h)
  drains h := by
    have hsame : (w.goesTo s).drainTask = w.drainTask := by
      unfold World.goesTo
      dsimp only
      split
      · next hphase => exact (hphase ▸ h : (Phase.draining _).Attended).elim
      · next hphase => exact (hphase ▸ h : (Phase.ended _).Attended).elim
      · rfl
    rw [hsame]
    exact hw.drains (attended_of_step hspawned hstep h)

/-- **One step.** -/
theorem Flow.step {e : WorldEvent} (hpos : 0 < P.chunkSize) (hw : Flow P w) (he : e ≠ .drainFails)
    (hstep : worldStep P w e = some w') : Flow P w' := by
  cases turn_of_step hstep with
  | @writes fd data rest program c _ hprogram hc =>
    have hnext := hw.setChannel ((hw.ok fd).write hc) (Channel.closed_write hc)
    have hleft {x : Fd × Bytes} (hx : x ∈ if rest = [] then program else (fd, rest) :: program) :
        x.2 ≠ [] ∧ ∃ y ∈ w.program, x.1 = y.1 := by
      rw [hprogram]
      have htail (hx : x ∈ program) : x.2 ≠ [] ∧ ∃ y ∈ (fd, data) :: program, x.1 = y.1 :=
        ⟨hw.nonempty x (hprogram ▸ List.mem_cons_of_mem _ hx), x, List.mem_cons_of_mem _ hx, rfl⟩
      split_ifs at hx with hrest
      · exact htail hx
      · rcases List.mem_cons.1 hx with rfl | hx
        · exact ⟨hrest, _, List.mem_cons_self .., rfl⟩
        · exact htail hx
    refine ⟨hnext.staged, hnext.ok, fun x hx => (hleft hx).1, fun fd' h x hx => ?_, hnext.exited,
      hnext.drains⟩
    obtain ⟨y, hy, hsame⟩ := (hleft hx).2
    rw [hsame]
    exact hnext.finished fd' h y hy
  | @closes fd _ _ hfinished =>
    have hcases (fd' : Fd) : fd' = fd ∧
        Function.update w.channels fd (w.channels fd).close fd' = (w.channels fd').close ∨
        fd' ≠ fd ∧
          Function.update w.channels fd (w.channels fd).close fd' = w.channels fd' := by
      rcases eq_or_ne fd' fd with rfl | hne
      · exact .inl ⟨rfl, Function.update_self ..⟩
      · exact .inr ⟨hne, Function.update_of_ne hne ..⟩
    have hmono (fd' : Fd) (h : (w.channels fd').closed = true) :
        (Function.update w.channels fd (w.channels fd).close fd').closed = true := by
      rcases hcases fd' with ⟨-, heq⟩ | ⟨-, heq⟩ <;> rw [heq]
      · rfl
      · exact h
    refine ⟨hw.staged.mono (hmono .stdout), fun fd' => ?_, hw.nonempty, fun fd' h => ?_,
      fun rc h fd' => hmono fd' (hw.exited rc h fd'), fun h => (hw.drains h).imp_right (hmono _)⟩
    · show (Function.update w.channels fd (w.channels fd).close fd').Ok
      rcases hcases fd' with ⟨-, heq⟩ | ⟨-, heq⟩ <;> rw [heq]
      · exact (hw.ok fd').close
      · exact hw.ok fd'
    · rcases hcases fd' with ⟨rfl, -⟩ | ⟨-, heq⟩
      · exact hfinished
      · exact hw.finished fd' (by rwa [← heq])
  | @exits returncode halive =>
    refine ⟨?_, fun fd => (hw.ok fd).close, fun _ hx => absurd hx List.not_mem_nil,
      fun _ _ _ hx => absurd hx List.not_mem_nil,
      fun _ _ _ => rfl, fun _ => .inr rfl⟩
    exact (hw.staged.next hpos Event.noConfusion (step_childExits halive returncode)).mono
      fun _ => rfl
  | @transport fd count c hc =>
    exact hw.setChannel ((hw.ok fd).transport hc) (Channel.closed_transport hc)
  | @drains chunk c hreading hchunk hc =>
    have hnext := hw.setChannel ((hw.ok .stderr).read hc) (Channel.closed_read hc)
    exact ⟨hnext.staged, hnext.ok, hnext.nonempty, hnext.finished, hnext.exited, hnext.drains⟩
  | drainEnds _ hclosed =>
    exact ⟨hw.staged, hw.ok, hw.nonempty, hw.finished, hw.exited, fun _ => .inr hclosed⟩
  | drainFails _ => exact absurd rfl he
  | @spawned g hg =>
    exact ⟨hw.staged.next (e := .spawned) hpos (fun h => nomatch h) hg, hw.ok, hw.nonempty,
      hw.finished, fun rc h => hw.exited rc (exited_of_step (fun _ => Event.noConfusion) hg h),
      fun _ => .inl rfl⟩
  | @reads request timeout chunk c g hphase hc hg =>
    have hend : Event.read chunk = .read [] → (w.channels .stdout).closed = true := by
      rintro ⟨⟩
      have hrequest := hw.staged
      unfold Staged at hrequest
      rw [hphase] at hrequest
      exact (Channel.ended_of_read_nil hrequest.2.1 hc).2.2
    have hnext := hw.goesTo hpos Event.noConfusion (fun _ => Event.noConfusion) hend hg
    exact hnext.setChannel ((hw.ok .stdout).read hc) (Channel.closed_read hc)
  | @waited g hg =>
    have hnext := hw.goesTo (e := .waited) hpos Event.noConfusion (fun _ => Event.noConfusion)
      (fun h => nomatch h) hg
    exact ⟨hnext.staged, hnext.ok, hnext.nonempty, hnext.finished, hnext.exited, hnext.drains⟩
  | @other e g hspawned hread hexits _ hg =>
    exact hw.goesTo hpos hspawned hexits (fun h => absurd h (hread [])) hg

/-! ### Somebody can move -/

theorem moves_of_isSome {e : WorldEvent} (hown : e.Own)
    (h : (worldStep P w e).isSome = true) : w.Moves P := by
  obtain ⟨w', hw'⟩ := Option.isSome_iff_exists.1 h
  exact ⟨e, w', hown, hw'⟩

theorem moves_transport {fd : Fd} (h : ∃ c, (w.channels fd).transport 1 = some c) :
    w.Moves P := by
  obtain ⟨c, hc⟩ := h
  refine moves_of_isSome (e := .transport fd 1) trivial ?_
  rw [worldStep, hc]
  rfl

/-- What is in the buffer of the standard error is read. -/
theorem moves_drains (hreading : w.drainTask = .reading)
    (hbuffer : (w.channels .stderr).buffer ≠ []) : w.Moves P := by
  obtain ⟨chunk, c, hc⟩ := Channel.exists_read hbuffer stderrChunkSize
  refine moves_of_isSome (e := .drains) trivial ?_
  rw [worldStep, drainStderr, if_pos hreading, hc]
  rfl

/-- **A child that has not exited** goes on, unless it is blocked in its standard output, and the
event loop leaves that alone. -/
theorem Flow.moves_of_alive (hw : Flow P w) (halive : w.generator.child.Alive)
    (hattended : w.generator.phase.Attended) : w.Moves P ∨ w.BlockedInStdout := by
  cases hprogram : w.program with
  | nil =>
    refine .inl (moves_of_isSome (e := .exits 0) trivial ?_)
    rw [worldStep, if_pos (.inr hprogram), step_childExits halive]
    rfl
  | cons x program =>
    obtain ⟨fd, data⟩ := x
    have hmem : (fd, data) ∈ w.program := hprogram ▸ List.mem_cons_self ..
    have hopen : (w.channels fd).closed = false := by
      refine Bool.eq_false_iff.2 fun hclosed => ?_
      exact hw.finished fd hclosed (fd, data) hmem rfl
    by_cases hblocked : S.kernel.takes (w.channels fd).kernel data.length = 0
    · rcases (hw.ok fd).exists_next ((hw.ok fd).inPipe_ne (hw.nonempty _ hmem) hblocked) with
        htransport | ⟨hpaused, hbuffer⟩
      · exact .inl (moves_transport htransport)
      · cases fd with
        | stdout => exact .inr ⟨⟨data, program, hprogram, hblocked⟩, hpaused⟩
        | stderr =>
          -- the drain task is still there
          rcases hw.drains hattended with hreading | hclosed
          · exact .inl (moves_drains hreading hbuffer)
          · exact absurd hclosed (by rw [hopen]; exact Bool.false_ne_true)
    · obtain ⟨rest, c, hc⟩ := Channel.exists_write hopen hblocked
      refine .inl (moves_of_isSome (e := .writes) trivial ?_)
      simp only [worldStep, hprogram, if_pos halive, hc]
      rfl

theorem alive_or_exited {c : Child} (h : c ≠ .absent) :
    c.Alive ∨ ∃ returncode, c = .exited returncode := by
  cases c with
  | absent => exact absurd rfl h
  | running => exact .inl (.inl rfl)
  | signalled => exact .inl (.inr rfl)
  | exited returncode => exact .inr ⟨returncode, rfl⟩

theorem moves_read {request timeout : ℕ} (hphase : w.generator.phase = .reading request timeout)
    {chunk : Bytes} {c : Channel S UInt8}
    (hc : (w.channels .stdout).read request = some (chunk, c)) : w.Moves P := by
  have hle : chunk.length ≤ request := by
    obtain ⟨-, rfl, -⟩ | ⟨-, rfl, -⟩ := Channel.read_eq_some hc
    · exact List.length_take_le ..
    · exact Nat.zero_le _
  have hstep : step P w.generator (.read chunk) = some (afterRead P w.generator chunk) := by
    simp only [step, hphase, if_pos hle]
  refine moves_of_isSome (e := .generator (.read chunk)) trivial ?_
  simp only [worldStep, generatorStep, hphase, hc, Option.bind_some, if_true, hstep]
  rfl

theorem moves_waited (hstep : (step P w.generator .waited).isSome = true) : w.Moves P :=
  moves_of_isSome (e := .generator .waited) trivial
    (by rwa [worldStep, generatorStep, Option.isSome_map])

/-- The generator gets what there is of the standard output, or its end. -/
theorem Flow.moves_reading (hw : Flow P w) {request timeout : ℕ}
    (hphase : w.generator.phase = .reading request timeout) (hchild : w.generator.child ≠ .absent) :
    w.Moves P := by
  by_cases hbuffer : (w.channels .stdout).buffer = []
  · have hpaused : (w.channels .stdout).paused ≠ true := fun hpaused => by
      have hlt := (hw.ok .stdout).lt_buffer hpaused
      rw [hbuffer] at hlt
      exact absurd hlt (Nat.not_lt_zero _)
    rcases alive_or_exited hchild with halive | ⟨returncode, hexited⟩
    · rcases hw.moves_of_alive halive (by rw [hphase]; trivial) with hmoves | hblocked
      · exact hmoves
      · exact absurd hblocked.paused hpaused
    · by_cases hpipe : (w.channels .stdout).inPipe = []
      · exact moves_read hphase
          (Channel.read_at_end hbuffer hpipe (hw.exited _ hexited .stdout) request)
      · rcases (hw.ok .stdout).exists_next hpipe with htransport | ⟨h, -⟩
        · exact moves_transport htransport
        · exact absurd h hpaused
  · obtain ⟨chunk, c, hc⟩ := Channel.exists_read hbuffer request
    exact moves_read hphase hc

/-- **Somebody can move**, or it is the turn of the consumer, or the child is stuck. -/
theorem Flow.moves (hw : Flow P w) : w.Moves P ∨ w.ConsumersTurn ∨ w.StuckInStdout := by
  have hstaged := hw.staged
  unfold Staged at hstaged
  unfold World.ConsumersTurn
  cases hphase : w.generator.phase with
  | created | yielding | yieldingLast | ended _ => exact .inr (.inl trivial)
  | spawning =>
    refine .inl (moves_of_isSome (e := .generator .spawned) trivial ?_)
    simp only [worldStep, generatorStep, Connectors.step, hphase]
    rfl
  | reading request timeout =>
    rw [hphase] at hstaged
    exact .inl (hw.moves_reading hphase hstaged.1)
  | waiting =>
    rw [hphase] at hstaged
    obtain ⟨hchild, hended⟩ := hstaged
    rcases alive_or_exited hchild with halive | ⟨returncode, hexited⟩
    · rcases hw.moves_of_alive halive (by rw [hphase]; trivial) with
        hmoves | hblocked
      · exact .inl hmoves
      · refine .inr (.inr ⟨hblocked, hphase, hended.resolve_right fun hclosed => ?_⟩)
        obtain ⟨data, program, hprogram, -⟩ := hblocked.blocked
        exact hw.finished .stdout hclosed _ (hprogram ▸ List.mem_cons_self ..) rfl
    · refine .inl (moves_waited ?_)
      simp only [Connectors.step, hphase, hexited]
      rfl
  | terminating exc | killing exc =>
    rw [hphase] at hstaged
    rcases alive_or_exited hstaged.1 with halive | ⟨returncode, hexited⟩
    · have hsignalled := halive.resolve_left hstaged.2
      refine .inl (moves_of_isSome (e := .exits 0) trivial ?_)
      rw [worldStep, if_pos (.inl hsignalled), step_childExits halive]
      rfl
    · refine .inl (moves_waited ?_)
      simp only [Connectors.step, hphase, hexited]
      rfl
  | draining ending =>
    refine .inl (moves_of_isSome (e := .generator .drained) trivial ?_)
    simp only [worldStep, generatorStep, Connectors.step, hphase]
    rfl

end

/-- Pipes of one page of one byte. -/
def narrow : ReadPipe := ⟨.ofPages 1 1 (by decide) (by decide), 0, 1, by decide⟩

/-- A child that complains before it writes. -/
def complaining : List (Fd × Bytes) := [(.stderr, [101, 114]), (.stdout, [1, 2])]

/-- The child has been started. -/
def startedWorld : World narrow :=
  { World.init narrow complaining with
    generator := { phase := .reading 4 30000, child := .running }
    drainTask := .reading }

theorem reach_startedWorld : Reach (worldStep { chunkSize := 4 })
    (fun _ e => e ≠ .drainFails) (.init narrow complaining) startedWorld :=
  (Reach.refl.tail (e := .generator .anext) WorldEvent.noConfusion rfl).tail
    (e := .generator .spawned) WorldEvent.noConfusion rfl

/-- The generator is told to shut down before it reads. -/
example : ∃ w, exec (worldStep { chunkSize := 4 }) (.init narrow [(.stdout, [1, 2, 3])])
      [.generator .anext, .generator .shutdown, .generator .spawned, .writes,
        .transport .stdout 1, .writes] = some w ∧ w.StuckInStdout :=
  ⟨_, rfl, ⟨⟨_, _, rfl, rfl⟩, rfl⟩, rfl, rfl⟩

end Connectors
end Boveda

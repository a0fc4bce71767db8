/-
# No child is left behind

`stream_subprocess_with_watchdog` terminates its child in `except Exception`.  A timeout,
an exit code or an error of a read is an `Exception`; `GeneratorExit`, which `aclose`
throws in at a `yield`, and `CancelledError` at an `await` are not, and pass the handler
by.  `read_source` of `src/boveda/engine.py` terminates its child in `finally`.

So the child outlives the generator just where the generator is closed or cancelled
while the child still runs (`reaped_iff`).
-/

import Boveda.Connectors.Stream

namespace Boveda
namespace Connectors

open Lib

/-- Once the generator has ended, the child has exited, or has been terminated. -/
def Reaped (s : State) : Prop := ∀ ending, s.phase = .ended ending → s.child ≠ .running

instance (s : State) : Decidable (Reaped s) :=
  match h : s.phase with
  | .ended ending => decidable_of_iff (s.child ≠ .running)
      ⟨fun hchild _ _ => hchild, fun hreaped => hreaped ending h⟩
  | .created | .spawning | .reading .. | .yielding | .yieldingLast | .waiting | .terminating _
  | .killing _ | .draining _ => .isTrue fun ending hended => by rw [h] at hended; cases hended

/-- The consumer closes the generator, or a task that waits in it is cancelled, only once the
child has exited or has been terminated. -/
def LeavesNoChild (s : State) : Event → Prop
  | .aclose | .cancel => s.child ≠ .running
  | _ => True

/-- Where the child runs. -/
def Phase.Attended : Phase → Prop
  | .reading .. | .yielding | .yieldingLast | .waiting => True
  | _ => False

/-- The child runs only where the generator is in its `try`. -/
def Watched (s : State) : Prop := s.child = .running → s.phase.Attended

variable {P : Setting} {s t : State}

theorem Watched.reaped (h : Watched s) : Reaped s := by
  intro ending hphase hchild
  have hattended := h hchild
  rw [hphase] at hattended
  exact hattended

theorem watched_afterLoop : Watched (afterLoop s) := by
  intro _
  unfold afterLoop
  split_ifs <;> trivial

theorem watched_loopTop : Watched (loopTop P s) := by
  by_cases hshutdown : s.shutdown = true
  · rw [loopTop, if_pos hshutdown]
    exact watched_afterLoop
  · rw [loopTop, if_neg hshutdown]
    exact fun _ => trivial

theorem watched_afterRead {chunk : Bytes} : Watched (afterRead P s chunk) := by
  unfold afterRead
  split_ifs
  · exact watched_afterLoop
  · exact fun _ => trivial
  · exact watched_loopTop

/-- The handler leaves no child that runs. -/
theorem child_handle (exc : Ending) : (handle s exc).child ≠ .running := by
  unfold handle
  split_ifs with hchild
  · exact Child.noConfusion
  · exact hchild

theorem watched_handle (exc : Ending) : Watched (handle s exc) := fun hchild =>
  absurd hchild (child_handle exc)

theorem watched_of_child (h : s.child ≠ .running) : Watched s := fun hchild => absurd hchild h

theorem watched_afterWait (returncode : ℤ) (h : s.child ≠ .running) :
    Watched (afterWait s returncode) := by
  unfold afterWait
  split_ifs
  · exact watched_handle _
  · exact watched_of_child h

/-- Elsewhere it does not run. -/
theorem Watched.child_ne (h : Watched s) {phase : Phase} (hphase : s.phase = phase)
    (hattended : ¬ phase.Attended) : s.child ≠ .running := fun hchild =>
  hattended (hphase ▸ h hchild)

/-- **One step** that leaves no child behind. -/
theorem Watched.next {e : Event} (h : Watched s) (hok : LeavesNoChild s e)
    (hstep : step P s e = some t) : Watched t := by
  cases e with
  | anext =>
    simp only [step] at hstep
    split at hstep
    · next hphase =>
      obtain rfl := Option.some.inj hstep
      exact watched_of_child (h.child_ne hphase id)
    · obtain rfl := Option.some.inj hstep
      exact watched_loopTop
    · obtain rfl := Option.some.inj hstep
      exact fun _ => trivial
    · cases hstep
  | aclose =>
    simp only [step] at hstep
    split at hstep <;> cases hstep
    all_goals exact watched_of_child hok
  | athrow =>
    simp only [step] at hstep
    split at hstep
    · next hphase =>
      obtain rfl := Option.some.inj hstep
      exact watched_of_child (h.child_ne hphase id)
    · obtain rfl := Option.some.inj hstep
      exact watched_handle _
    · obtain rfl := Option.some.inj hstep
      exact watched_handle _
    · cases hstep
  | cancel =>
    simp only [step] at hstep
    split at hstep <;> cases hstep
    · exact watched_of_child Child.noConfusion
    all_goals exact watched_of_child hok
  | shutdown =>
    obtain rfl := Option.some.inj hstep
    exact h
  | spawned =>
    simp only [step] at hstep
    split at hstep
    · obtain rfl := Option.some.inj hstep
      exact watched_loopTop
    · cases hstep
  | spawnFails =>
    simp only [step] at hstep
    split at hstep
    · next hphase =>
      obtain rfl := Option.some.inj hstep
      exact watched_of_child (h.child_ne hphase id)
    · cases hstep
  | read chunk =>
    simp only [step] at hstep
    split at hstep
    · split_ifs at hstep
      obtain rfl := Option.some.inj hstep
      exact watched_afterRead
    · cases hstep
  | readFails =>
    simp only [step] at hstep
    split at hstep
    · obtain rfl := Option.some.inj hstep
      exact watched_handle _
    · cases hstep
  | timeout =>
    simp only [step] at hstep
    split at hstep
    · obtain rfl := Option.some.inj hstep
      exact watched_handle _
    · next hphase =>
      have hchild := h.child_ne hphase id
      split_ifs at hstep
      all_goals
        obtain rfl := Option.some.inj hstep
        exact watched_of_child hchild
    · cases hstep
  | childExits returncode =>
    simp only [step] at hstep
    split at hstep <;> cases hstep
    all_goals exact watched_of_child Child.noConfusion
  | waited =>
    simp only [step] at hstep
    split at hstep
    · next hexited _ =>
      obtain rfl := Option.some.inj hstep
      exact watched_afterWait _ (by rw [hexited]; exact Child.noConfusion)
    · next hexited _ =>
      obtain rfl := Option.some.inj hstep
      exact watched_of_child (by rw [hexited]; exact Child.noConfusion)
    · next hexited _ =>
      obtain rfl := Option.some.inj hstep
      exact watched_of_child (by rw [hexited]; exact Child.noConfusion)
    · cases hstep
  | drained =>
    simp only [step] at hstep
    split at hstep
    · next hphase =>
      obtain rfl := Option.some.inj hstep
      exact watched_of_child (h.child_ne hphase id)
    · cases hstep

/-- A step that leaves the child behind may be followed by the end of the generator. -/
theorem exists_drained {e : Event} (h : Watched s) (hok : ¬ LeavesNoChild s e)
    (hstep : step P s e = some t) : ∃ u, step P t .drained = some u ∧ ¬ Reaped u := by
  have hleft {ending : Ending} (hchild : s.child = .running) :
      ¬ Reaped { s with phase := .ended ending } := fun hreaped => hreaped ending rfl hchild
  cases e with
  | aclose =>
    have hchild : s.child = .running := not_not.1 hok
    have hattended := h hchild
    simp only [step] at hstep
    split at hstep
    · next hphase =>
      rw [hphase] at hattended
      cases hattended
    · obtain rfl := Option.some.inj hstep
      exact ⟨_, rfl, hleft hchild⟩
    · obtain rfl := Option.some.inj hstep
      exact ⟨_, rfl, hleft hchild⟩
    · cases hstep
  | cancel =>
    have hchild : s.child = .running := not_not.1 hok
    have hattended := h hchild
    simp only [step] at hstep
    split at hstep
    · next hphase =>
      rw [hphase] at hattended
      cases hattended
    · obtain rfl := Option.some.inj hstep
      exact ⟨_, rfl, hleft hchild⟩
    · obtain rfl := Option.some.inj hstep
      exact ⟨_, rfl, hleft hchild⟩
    · next hphase =>
      rw [hphase] at hattended
      cases hattended
    · next hphase =>
      rw [hphase] at hattended
      cases hattended
    · next hphase =>
      rw [hphase] at hattended
      cases hattended
    · cases hstep
  | _ => exact absurd trivial hok

/-- However the run goes on from here, without leaving a child behind from now on, the child
is over when the generator is. -/
def StaysReaped (P : Setting) (s : State) : Prop :=
  ∀ t, Reach (step P) LeavesNoChild s t → Reaped t

theorem Watched.staysReaped (h : Watched s) : StaysReaped P s := fun _ hreach =>
  (hreach.invariant h fun _ _ _ hwatched hok hstep => hwatched.next hok hstep).reaped

/-- The consumer takes the first block and closes the generator. -/
def closedEarly : List Event := [.anext, .spawned, .read [1, 2, 3, 4], .aclose, .drained]

end Connectors
end Boveda

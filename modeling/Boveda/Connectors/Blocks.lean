/-
# The blocks of an undisturbed stream

What `stream_subprocess_with_watchdog` yields when nothing disturbs it: the child
writes, in reads of any size up to the one asked for, and exits with 0.

`Streaming` is what holds whenever the loop starts again: the blocks so far are full,
the accumulator is not, and together they are what has been read.  Every step of such a
run adds to `spent`, so a finite output takes finitely many steps (`streams`).
-/

import Boveda.Connectors.Stream
import Mathlib.Tactic.Linarith

namespace Boveda
namespace Connectors

open Lib

/-- An event of a run without shutdown, timeout, failure or cancellation. -/
def Undisturbed : Event → Prop
  | .anext | .spawned | .read _ | .waited | .drained => True
  | .childExits returncode => returncode = 0
  | _ => False

/-- The child runs, or has exited with 0. -/
def Child.Fine (c : Child) : Prop := c = .running ∨ c = .exited 0

/-- Blocks of which only the last may be short. -/
structure Blocks (chunkSize : ℕ) (yielded : List Bytes) : Prop where
  full : ∀ b ∈ yielded.dropLast, b.length = chunkSize
  nonempty : ∀ b ∈ yielded, b ≠ []
  le : ∀ b ∈ yielded, b.length ≤ chunkSize

/-- Between two blocks. -/
structure Streaming (P : Setting) (s : State) : Prop where
  noShutdown : s.shutdown = false
  child : s.child.Fine
  room : s.accumulated.length < P.chunkSize
  full : ∀ b ∈ s.yielded, b.length = P.chunkSize
  joined : s.yielded.flatten ++ s.accumulated = s.received

/-- All that has been read has been handed on. -/
structure Delivered (P : Setting) (s : State) : Prop where
  noShutdown : s.shutdown = false
  child : s.child.Fine
  held : s.accumulated.length ≤ P.chunkSize
  blocks : Blocks P.chunkSize s.yielded
  joined : s.yielded.flatten = s.received

/-- An undisturbed run, phase by phase. -/
def Inv (P : Setting) (s : State) : Prop :=
  match s.phase with
  | .created | .spawning => s = { phase := s.phase }
  | .reading request _ => Streaming P s ∧ request = P.chunkSize - s.accumulated.length
  | .yielding => Delivered P s ∧ s.accumulated.length = P.chunkSize ∧
      ∀ b ∈ s.yielded, b.length = P.chunkSize
  | .yieldingLast | .waiting | .draining .returned | .ended .returned => Delivered P s
  | _ => False

/-- A bound on the steps taken, by the phase. -/
def Phase.rank : Phase → ℕ
  | .created => 0
  | .spawning | .yielding => 1
  | .reading .. | .yieldingLast => 2
  | .waiting => 3
  | .terminating _ | .killing _ | .draining _ => 4
  | .ended _ => 5

def Child.rank : Child → ℕ
  | .exited _ => 1
  | _ => 0

/-- A bound on the steps taken. -/
def State.spent (s : State) : ℕ :=
  s.received.length + s.yielded.length + s.phase.rank + s.child.rank

section

variable {P : Setting} {s t : State} {chunk : Bytes}

theorem blocks_of_full {chunkSize : ℕ} {yielded : List Bytes} (hpos : 0 < chunkSize)
    (hfull : ∀ b ∈ yielded, b.length = chunkSize) : Blocks chunkSize yielded where
  full b hb := hfull b (List.dropLast_subset _ hb)
  nonempty b hb := List.ne_nil_of_length_pos (hfull b hb ▸ hpos)
  le b hb := (hfull b hb).le

theorem blocks_append {chunkSize : ℕ} {yielded : List Bytes} {last : Bytes} (hpos : 0 < chunkSize)
    (hfull : ∀ b ∈ yielded, b.length = chunkSize) (hlast : last ≠ [])
    (hle : last.length ≤ chunkSize) : Blocks chunkSize (yielded ++ [last]) where
  full b hb := hfull b (by rwa [List.dropLast_concat] at hb)
  nonempty b hb := by
    rcases List.mem_append.1 hb with hb | hb
    · exact (blocks_of_full hpos hfull).nonempty b hb
    · rwa [List.mem_singleton.1 hb]
  le b hb := by
    rcases List.mem_append.1 hb with hb | hb
    · exact (hfull b hb).le
    · rwa [List.mem_singleton.1 hb]

/-- The loop goes on with a request. -/
theorem loopTop_eq (h : s.shutdown = false) : ∃ timeout, loopTop P s =
    { s with phase := .reading (P.chunkSize - s.accumulated.length) timeout } := by
  rw [loopTop, if_neg (by rw [h]; exact Bool.false_ne_true)]
  exact ⟨_, rfl⟩

theorem Streaming.loopTop (h : Streaming P s) :
    Inv P (loopTop P s) ∧
      (Connectors.loopTop P s).spent + s.phase.rank = s.spent + 2 := by
  obtain ⟨timeout, heq⟩ := loopTop_eq (P := P) h.noShutdown
  rw [heq]
  refine ⟨⟨⟨h.noShutdown, h.child, h.room, h.full, h.joined⟩, rfl⟩, ?_⟩
  simp only [State.spent, Phase.rank]
  omega

/-- The loop is over. -/
theorem Streaming.afterLoop (hpos : 0 < P.chunkSize) (h : Streaming P s)
    (hrank : s.phase.rank = 2) : Inv P (afterLoop s) ∧ s.spent + 1 ≤ (afterLoop s).spent := by
  unfold Connectors.afterLoop
  split_ifs with hacc
  · refine ⟨⟨h.noShutdown, h.child, h.room.le,
      blocks_append hpos h.full hacc h.room.le, ?_⟩, ?_⟩
    · rw [List.flatten_append, List.flatten_singleton, h.joined]
    · rw [State.spent, State.spent, hrank]
      simp only [Phase.rank, List.length_append, List.length_singleton]
      omega
  · have hjoined := h.joined
    rw [not_not.1 hacc, List.append_nil] at hjoined
    refine ⟨⟨h.noShutdown, h.child, h.room.le, blocks_of_full hpos h.full, hjoined⟩, ?_⟩
    rw [State.spent, State.spent, hrank]
    simp only [Phase.rank]
    omega

theorem spent_extend : (extend s chunk).spent = s.spent + chunk.length := by
  simp only [State.spent, extend, List.length_append]
  omega

/-- A read of at most what was asked for. -/
theorem Streaming.afterRead (hpos : 0 < P.chunkSize) (h : Streaming P s)
    (hrank : s.phase.rank = 2) (hle : chunk.length ≤ P.chunkSize - s.accumulated.length) :
    Inv P (afterRead P s chunk) ∧ s.spent + 1 ≤ (afterRead P s chunk).spent := by
  have hroom := h.room
  unfold Connectors.afterRead
  split_ifs with hchunk hfull
  · exact h.afterLoop hpos hrank
  · have hlen : (s.accumulated ++ chunk).length = P.chunkSize := by
      rw [extend, List.length_append] at hfull
      rw [List.length_append]
      omega
    have htake : (s.accumulated ++ chunk).take P.chunkSize = s.accumulated ++ chunk :=
      List.take_of_length_le hlen.le
    have hall : ∀ b ∈ s.yielded ++ [s.accumulated ++ chunk], b.length = P.chunkSize :=
      List.forall_mem_append.2 ⟨h.full, List.forall_mem_singleton.2 hlen⟩
    have hspent : (extend s chunk).spent = s.spent + chunk.length := spent_extend
    rw [yieldBlock, extend, htake]
    refine ⟨⟨⟨h.noShutdown, h.child, hlen.le, blocks_of_full hpos hall, ?_⟩, hlen, hall⟩, ?_⟩
    · rw [List.flatten_append, List.flatten_singleton, ← List.append_assoc, h.joined]
    · have hchunk_pos := List.length_pos_iff.2 hchunk
      rw [State.spent, State.spent, hrank]
      simp only [Phase.rank, List.length_append, List.length_singleton]
      omega
  · have hnext : Streaming P (extend s chunk) := by
      refine ⟨h.noShutdown, h.child, Nat.not_le.1 hfull, h.full, ?_⟩
      rw [extend, ← List.append_assoc, h.joined]
    obtain ⟨hinv, hspent⟩ := hnext.loopTop
    have hchunk_pos := List.length_pos_iff.2 hchunk
    rw [spent_extend, show (extend s chunk).phase = s.phase from rfl, hrank] at hspent
    exact ⟨hinv, by omega⟩

/-- What has been delivered is not touched on the way to the end. -/
theorem Delivered.next (h : Delivered P s) {phase : Phase}
    (hrank : s.phase.rank + 1 ≤ phase.rank) :
    Delivered P { s with phase := phase } ∧ s.spent + 1 ≤ State.spent { s with phase := phase } := by
  refine ⟨⟨h.noShutdown, h.child, h.held, h.blocks, h.joined⟩, ?_⟩
  simp only [State.spent]
  omega

/-- Before the loop, at a read, or with everything handed on. -/
theorem Inv.cases (h : Inv P s) :
    s = { phase := s.phase } ∧ s.phase.rank ≤ 1 ∨
      (∃ timeout, s.phase = .reading (P.chunkSize - s.accumulated.length) timeout) ∧
        Streaming P s ∨
      (∀ request timeout, s.phase ≠ .reading request timeout) ∧
        (∀ ending, s.phase = .ended ending → ending = .returned) ∧ Delivered P s := by
  unfold Inv at h
  split at h
  · next hphase => exact .inl ⟨h, by rw [hphase]; decide⟩
  · next hphase => exact .inl ⟨h, by rw [hphase]; decide⟩
  · next request timeout hphase => exact .inr (.inl ⟨⟨timeout, hphase.trans (by rw [h.2])⟩, h.1⟩)
  · next hphase => exact .inr (.inr ⟨by simp [hphase], by simp [hphase], h.1⟩)
  · next hphase => exact .inr (.inr ⟨by simp [hphase], by simp [hphase], h⟩)
  · next hphase => exact .inr (.inr ⟨by simp [hphase], by simp [hphase], h⟩)
  · next hphase => exact .inr (.inr ⟨by simp [hphase], by simp [hphase], h⟩)
  · next hphase => exact .inr (.inr ⟨by simp [hphase], by simp [hphase], h⟩)
  · cases h

theorem Child.Fine.ne_signalled {c : Child} (h : c.Fine) : c ≠ .signalled := by
  rintro rfl
  rcases h with h | h <;> cases h

theorem Inv.child_ne_signalled (h : Inv P s) : s.child ≠ .signalled := by
  rcases h.cases with ⟨heq, -⟩ | ⟨-, hstreaming⟩ | ⟨-, -, hdelivered⟩
  · rw [heq]
    exact Child.noConfusion
  · exact hstreaming.child.ne_signalled
  · exact hdelivered.child.ne_signalled

/-- The exit of the child is noticed at any time. -/
theorem Inv.childExits (h : Inv P s) (hchild : s.child = .running) :
    Inv P { s with child := .exited 0 } ∧
      s.spent + 1 ≤ State.spent { s with child := .exited 0 } := by
  constructor
  · have hfine : Child.Fine (.exited 0) := .inr rfl
    have hstreaming (h : Streaming P s) : Streaming P { s with child := .exited 0 } :=
      ⟨h.noShutdown, hfine, h.room, h.full, h.joined⟩
    have hdelivered (h : Delivered P s) : Delivered P { s with child := .exited 0 } :=
      ⟨h.noShutdown, hfine, h.held, h.blocks, h.joined⟩
    unfold Inv at h ⊢
    dsimp only
    split at h
    · rw [h] at hchild
      cases hchild
    · rw [h] at hchild
      cases hchild
    · exact ⟨hstreaming h.1, h.2⟩
    · exact ⟨hdelivered h.1, h.2⟩
    · exact hdelivered h
    · exact hdelivered h
    · exact hdelivered h
    · exact hdelivered h
    · exact h
  · simp only [State.spent, hchild, Child.rank]
    omega

/-- The consumer asks for a block. -/
theorem Inv.anext (hpos : 0 < P.chunkSize) (h : Inv P s)
    (hstep : step P s .anext = some t) : Inv P t ∧ s.spent + 1 ≤ t.spent := by
  unfold Inv at h
  simp only [step] at hstep
  split at hstep
  · next hphase =>
    rw [hphase] at h
    obtain rfl := Option.some.inj hstep
    dsimp only at h
    rw [h]
    exact ⟨rfl, le_rfl⟩
  · next hphase =>
    rw [hphase] at h
    obtain rfl := Option.some.inj hstep
    obtain ⟨hdel, hlen, hfull⟩ := h
    have hdrop : s.accumulated.drop P.chunkSize = [] := List.drop_eq_nil_of_le hlen.le
    have hnext : Streaming P { s with accumulated := s.accumulated.drop P.chunkSize } := by
      refine ⟨hdel.noShutdown, hdel.child, ?_, hfull, ?_⟩
      · rw [hdrop]
        exact hpos
      · rw [hdrop, List.append_nil, hdel.joined]
    obtain ⟨hinv, hspent⟩ := hnext.loopTop
    have hrank : s.phase.rank = 1 := by rw [hphase]; rfl
    simp only [State.spent, hrank] at hspent ⊢
    exact ⟨hinv, by omega⟩
  · next hphase =>
    rw [hphase] at h
    obtain rfl := Option.some.inj hstep
    exact Delivered.next h (by rw [hphase]; exact le_rfl)
  · cases hstep

theorem Inv.spawned (hpos : 0 < P.chunkSize) (h : Inv P s)
    (hstep : step P s .spawned = some t) : Inv P t ∧ s.spent + 1 ≤ t.spent := by
  unfold Inv at h
  simp only [step] at hstep
  split at hstep
  · next hphase =>
    rw [hphase] at h
    dsimp only at h
    obtain rfl := Option.some.inj hstep
    have hnext : Streaming P { s with child := .running } := by
      rw [h]
      exact ⟨rfl, .inl rfl, hpos, fun b hb => absurd hb List.not_mem_nil, rfl⟩
    obtain ⟨hinv, hspent⟩ := hnext.loopTop
    refine ⟨hinv, ?_⟩
    have hrank : s.phase.rank = 1 := by rw [hphase]; rfl
    have hchild : s.child = .absent := by rw [h]
    simp only [State.spent, hrank, hchild, Child.rank] at hspent ⊢
    omega
  · cases hstep

theorem Inv.read {chunk : Bytes} (hpos : 0 < P.chunkSize) (h : Inv P s)
    (hstep : step P s (.read chunk) = some t) : Inv P t ∧ s.spent + 1 ≤ t.spent := by
  unfold Inv at h
  simp only [step] at hstep
  split at hstep
  · next request timeout hphase =>
    rw [hphase] at h
    obtain ⟨hstreaming, rfl⟩ := h
    split_ifs at hstep with hle
    obtain rfl := Option.some.inj hstep
    exact hstreaming.afterRead hpos (by rw [hphase]; rfl) hle
  · cases hstep

theorem Inv.waited (h : Inv P s) (hstep : step P s .waited = some t) :
    Inv P t ∧ s.spent + 1 ≤ t.spent := by
  unfold Inv at h
  simp only [step] at hstep
  split at hstep
  · next returncode hchild hphase =>
    rw [hphase] at h
    obtain rfl := Option.some.inj hstep
    have hzero : returncode = 0 := by
      rcases h.child with hrunning | hexited
      · rw [hchild] at hrunning
        cases hrunning
      · rw [hchild] at hexited
        exact Child.exited.inj hexited
    rw [afterWait, if_neg fun hfail => hfail.1 hzero]
    exact Delivered.next h (by rw [hphase]; exact le_rfl)
  · next hphase =>
    rw [hphase] at h
    cases h
  · next hphase =>
    rw [hphase] at h
    cases h
  · cases hstep

theorem Inv.drained (h : Inv P s) (hstep : step P s .drained = some t) :
    Inv P t ∧ s.spent + 1 ≤ t.spent := by
  unfold Inv at h
  simp only [step] at hstep
  split at hstep
  · next ending hphase =>
    rw [hphase] at h
    obtain rfl := Option.some.inj hstep
    cases ending with
    | returned => exact Delivered.next h (by rw [hphase]; exact le_rfl)
    | _ => cases h
  · cases hstep

/-- One step of an undisturbed run. -/
theorem Inv.next {e : Event} (hpos : 0 < P.chunkSize) (h : Inv P s) (he : Undisturbed e)
    (hstep : step P s e = some t) : Inv P t ∧ s.spent + 1 ≤ t.spent := by
  cases e with
  | anext => exact h.anext hpos hstep
  | spawned => exact h.spawned hpos hstep
  | read chunk => exact h.read hpos hstep
  | waited => exact h.waited hstep
  | drained => exact h.drained hstep
  | childExits returncode =>
    obtain rfl : returncode = 0 := he
    simp only [step] at hstep
    split at hstep
    · next hchild =>
      obtain rfl := Option.some.inj hstep
      exact h.childExits hchild
    · next hchild => exact absurd hchild h.child_ne_signalled
    · cases hstep
  | aclose | athrow | cancel | shutdown | spawnFails | readFails | timeout => cases he

/-- An undisturbed run goes on until the generator has ended. -/
theorem Inv.progress (h : Inv P s) (hrunning : s.phase ≠ .ended .returned) :
    ∃ e, Undisturbed e ∧ (step P s e).isSome := by
  cases hphase : s.phase with
  | created => exact ⟨.anext, trivial, by simp [step, hphase]⟩
  | spawning => exact ⟨.spawned, trivial, by simp [step, hphase]⟩
  | reading request timeout => exact ⟨.read [], trivial, by simp [step, hphase]⟩
  | yielding => exact ⟨.anext, trivial, by simp [step, hphase]⟩
  | yieldingLast => exact ⟨.anext, trivial, by simp [step, hphase]⟩
  | waiting =>
    unfold Inv at h
    rw [hphase] at h
    rcases h.child with hchild | hchild
    · exact ⟨.childExits 0, rfl, by simp [step, hchild]⟩
    · exact ⟨.waited, trivial, by simp [step, hchild, hphase]⟩
  | draining ending => exact ⟨.drained, trivial, by simp [step, hphase]⟩
  | terminating exc | killing exc =>
    unfold Inv at h
    rw [hphase] at h
    cases h
  | ended ending =>
    unfold Inv at h
    rw [hphase] at h
    cases ending with
    | returned => exact absurd hphase hrunning
    | _ => cases h

theorem Inv.run {es : List Event} (hpos : 0 < P.chunkSize) (h : Inv P s)
    (hes : ∀ e ∈ es, Undisturbed e) (hrun : exec (step P) s es = some t) :
    Inv P t ∧ s.spent + es.length ≤ t.spent := by
  induction es generalizing s with
  | nil =>
    obtain rfl : s = t := Option.some.inj hrun
    exact ⟨h, le_rfl⟩
  | cons e es ih =>
    obtain ⟨u, hu, hrun⟩ := Option.bind_eq_some_iff.1 hrun
    obtain ⟨he, hes⟩ := List.forall_mem_cons.1 hes
    obtain ⟨hinv, hspent⟩ := h.next hpos he hu
    obtain ⟨hinv, hrest⟩ := ih hinv hes hrun
    rw [List.length_cons]
    exact ⟨hinv, by omega⟩

/-! ### What an undisturbed run does -/

/-- What a run of `n` steps has done. -/
structure Streamed (P : Setting) (s : State) (n : ℕ) : Prop where
  /-- The blocks, with what is still held, are what has been read. -/
  joined : ∃ rest, s.yielded.flatten ++ rest = s.received ∧ rest.length ≤ P.chunkSize
  blocks : Blocks P.chunkSize s.yielded
  held : s.accumulated.length ≤ P.chunkSize
  asks : ∀ request timeout, s.phase = .reading request timeout → 0 < request
  ends : ∀ ending, s.phase = .ended ending →
    ending = .returned ∧ s.yielded.flatten = s.received
  goesOn : (∀ ending, s.phase ≠ .ended ending) → ∃ e, Undisturbed e ∧ (step P s e).isSome
  finite : n ≤ s.received.length + s.yielded.length + 6

theorem Inv.streamed {n : ℕ} (hpos : 0 < P.chunkSize) (h : Inv P s) (hn : n ≤ s.spent) :
    Streamed P s n := by
  have hgo := h.progress
  have hfinite : n ≤ s.received.length + s.yielded.length + 6 := by
    have hphase : s.phase.rank ≤ 5 := by cases s.phase <;> simp [Phase.rank]
    have hchild : s.child.rank ≤ 1 := by cases s.child <;> simp [Child.rank]
    rw [State.spent] at hn
    omega
  rcases h.cases with ⟨heq, hrank⟩ | ⟨⟨timeout, hphase⟩, hstreaming⟩ | ⟨hread, hend, hdelivered⟩
  · have hended : ∀ ending, s.phase ≠ .ended ending := by
      intro ending hphase
      rw [hphase] at hrank
      exact absurd hrank (Nat.not_le.2 (by simp [Phase.rank]))
    refine ⟨⟨[], ?_, Nat.zero_le _⟩, ?_, ?_, ?_, fun ending hphase => absurd hphase (hended ending),
      fun _ => hgo (hended _), hfinite⟩
    · rw [heq]
      rfl
    · rw [heq]
      exact blocks_of_full hpos fun b hb => absurd hb List.not_mem_nil
    · rw [heq]
      exact Nat.zero_le _
    · intro request timeout hphase
      rw [hphase] at hrank
      exact absurd hrank (Nat.not_le.2 (by simp [Phase.rank]))
  · refine ⟨⟨s.accumulated, hstreaming.joined, hstreaming.room.le⟩,
      blocks_of_full hpos hstreaming.full, hstreaming.room.le, fun request timeout' h' => ?_,
      fun ending h' => ?_, fun hended => hgo (hended _), hfinite⟩
    · have hroom := hstreaming.room
      rw [hphase] at h'
      obtain ⟨rfl, -⟩ := Phase.reading.inj h'
      omega
    · rw [hphase] at h'
      cases h'
  · exact ⟨⟨[], by rw [List.append_nil, hdelivered.joined], Nat.zero_le _⟩, hdelivered.blocks,
      hdelivered.held, fun request timeout h' => absurd h' (hread request timeout),
      fun ending h' => ⟨hend ending h', hdelivered.joined⟩, fun hended => hgo (hended _), hfinite⟩

/-- **An undisturbed stream.**  The blocks are what the child has written, all but the last
of `chunk_size` bytes and none empty; no request is for zero bytes, and no more than
`chunk_size` bytes are held.  The run goes on until the generator returns, after finitely
many steps. -/
theorem streams (hpos : 0 < P.chunkSize) {es : List Event} (hes : ∀ e ∈ es, Undisturbed e)
    (hrun : exec (step P) {} es = some s) : Streamed P s es.length := by
  have hinit : Inv P {} := rfl
  obtain ⟨hinv, hspent⟩ := hinit.run hpos hes hrun
  refine hinv.streamed hpos ?_
  have hzero : State.spent {} = 0 := rfl
  omega

end

/-- A child that writes five bytes, in three reads. -/
def fiveBytes : List Event :=
  [.anext, .spawned, .read [1, 2, 3], .read [4], .anext, .read [5], .childExits 0, .read [], .anext,
    .waited, .drained]

theorem streams_fiveBytes : ∃ s, exec (step { chunkSize := 4 }) {} fiveBytes = some s ∧
    s.yielded = [[1, 2, 3, 4], [5]] ∧ s.phase = .ended .returned ∧
    Streamed { chunkSize := 4 } s fiveBytes.length :=
  ⟨_, rfl, rfl, rfl, streams (P := { chunkSize := 4 }) (by decide)
    (by simp [fiveBytes, Undisturbed]) rfl⟩

end Connectors
end Boveda

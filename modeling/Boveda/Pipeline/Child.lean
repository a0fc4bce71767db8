/-
# The subprocess and its pipe

`read_source` (`src/boveda/engine.py`) does not read the subprocess itself.  What the
subprocess writes goes into a pipe, as far as the kernel takes it; the event loop moves it from
there into the buffer of the `StreamReader`, and `proc.stdout.read` takes it out of
that buffer.  The event loop stops reading the pipe (`pause_reading`) while the
buffer holds more than twice its limit, and a subprocess whose write the pipe does not take
is blocked.

`World` is the pipeline together with these three places.  Every run of it is a run of
the pipeline (`reachable_pipeline`), which sees no more than what `read` returns.

`read_source` leaves its loop when `shutdown_event` is set, and waits for the
subprocess without reading on.  `noDeadlock_iff_fits` says when that ends well: whenever
the event loop does not read while it waits, the pipe has to take all that the subprocess has
still to write.
-/

import Boveda.Lib.KernelPipe
import Boveda.Pipeline.Steps

namespace Boveda
namespace Pipeline

open Lib Crypto

/-- The pipeline, and where the output of the subprocess is.  `remaining` of the
pipeline is all of it that `read` has not returned yet. -/
structure World (pipe : ReadPipe) where
  pipeline : State
  /-- The lengths of the writes that are left; the first one may be under way. -/
  writes : List ℕ
  inPipe : pipe.kernel.Contents := pipe.kernel.empty
  /-- The length of `StreamReader._buffer`. -/
  buffered : ℕ := 0
  paused : Bool := false
  /-- `proc.returncode`, once the subprocess is over. -/
  exited : Option ℤ := none

/-- What may happen next. -/
inductive ChildEvent
  /-- The subprocess writes as much as the pipe takes. -/
  | write
  /-- The event loop reads that many bytes. -/
  | transport (count : ℕ)
  | exits (returncode : ℤ)

/-- What may happen next, in the subprocess and its pipe or in the pipeline. -/
inductive WorldEvent
  | child (e : ChildEvent)
  | pipeline (e : Event)

section

variable {pipe : ReadPipe}

variable (pipe) in
/-- The subprocess is about to be started; it will make these writes. -/
def World.init (writes : List Bytes) (nonceGen : NonceGenerator) : World pipe where
  pipeline := .init writes.flatten nonceGen
  -- a write of nothing has no effect on a pipe
  writes := (writes.map List.length).filter (0 < ·)

/-- `feed_data` after the event loop has read so much, which pauses once the buffer is too
long. -/
def World.fed (w : World pipe) (count : ℕ) : World pipe :=
  { w with
    inPipe := pipe.kernel.get w.inPipe count
    buffered := w.buffered + count
    paused := 2 * pipe.limit < w.buffered + count }

/-- What the subprocess and the event loop do. -/
def World.childStep (w : World pipe) : ChildEvent → Option (World pipe)
  | .write =>
    match w.writes with
    | [] => none
    | n :: rest =>
      let count := pipe.kernel.takes w.inPipe n
      -- a subprocess of which the pipe takes nothing is blocked
      if count = 0 then none
      else some { w with
        writes := if count = n then rest else (n - count) :: rest
        inPipe := pipe.kernel.put w.inPipe n }
  | .transport count =>
    if w.paused = false ∧ 0 < count ∧ count ≤ min pipe.readMax (pipe.kernel.length w.inPipe) then
      some (w.fed count)
    else none
  | .exits returncode =>
    if w.exited = none ∧ w.writes = [] then some { w with exited := some returncode } else none

/-- `StreamReader.read` returns what there is of the buffer, and resumes reading when
that leaves it short. -/
def World.take (w : World pipe) : Event → World pipe
  | .reader (.read count) =>
    { w with
      buffered := w.buffered - count
      paused := w.paused && pipe.limit < w.buffered - count }
  | _ => w

/-- What the subprocess has to do with a step of the pipeline: `read` returns what is
buffered, or nothing at the end, and `proc.wait()` the exit code. -/
def World.Allows (w : World pipe) : Event → Prop
  | .reader (.read count) => count = min ioReadSize w.buffered
  | .reader (.exited returncode) => w.exited = some returncode
  | _ => True

instance (w : World pipe) (e : Event) : Decidable (w.Allows e) := by
  unfold World.Allows
  split <;> infer_instance

/-- One step. -/
def World.step (S : Setting) (w : World pipe) : WorldEvent → Option (World pipe)
  | .child e => if w.pipeline.reader = .spawning then none else w.childStep e
  | .pipeline e =>
    if w.Allows e then
      (Pipeline.step S w.pipeline e).map fun s => { w.take e with pipeline := s }
    else none

/-- `read_source` waits for the subprocess. -/
def World.Waiting (w : World pipe) : Prop :=
  w.pipeline.reader = .waiting ∧ w.pipeline.ending = none

/-- `read_source` waits for the subprocess, which is blocked: the pipe takes nothing of its
write, and nobody reads the pipe. -/
structure World.Deadlocked (w : World pipe) : Prop where
  waiting : w.Waiting
  blocked : ∃ n rest, w.writes = n :: rest ∧ pipe.kernel.takes w.inPipe n = 0
  paused : w.paused = true

/-- If the event loop does not read, the pipe takes what is still to be written. -/
def World.Fits (w : World pipe) : Prop :=
  w.paused = true → pipe.kernel.Holds w.inPipe w.writes

/-- The event takes `read_source` to `await proc.wait()`. -/
def World.GoesToWait (S : Setting) (w : World pipe) (e : Event) : Prop :=
  w.pipeline.reader ≠ .waiting ∧
    ∃ s, Pipeline.step S w.pipeline e = some s ∧ s.reader = .waiting

/-- When `read_source` goes to wait for the subprocess, and when the event loop reads while it
waits, the rest of the output fits. -/
def World.LeavesRoom (S : Setting) (w : World pipe) : WorldEvent → Prop
  | .child (.transport count) => w.Waiting → (w.fed count).Fits
  | .child _ => True
  | .pipeline e => w.GoesToWait S e → (w.take e).Fits

/-- The subprocess, writing on from here, does not come to be blocked for good. -/
def World.Safe (S : Setting) (w : World pipe) : Prop :=
  ∀ w', Reach (World.step S) (fun _ e => e = .child .write) w w' → ¬ w'.Deadlocked

variable {S : Setting}

/-! ### Steps of the pipeline -/

/-- Only a read takes from what remains. -/
theorem remaining_step {s s' : State} {e : Event} (h : Pipeline.step S s e = some s') :
    (∃ count, e = .reader (.read count) ∧ s'.remaining = s.remaining.drop count) ∨
      (∀ count, e ≠ .reader (.read count)) ∧ s'.remaining = s.remaining := by
  unfold Pipeline.step at h
  split_ifs at h
  cases e with
  | reader e =>
    cases e with
    | read count =>
      dsimp only [readSource] at h
      split at h
      · split_ifs at h
        cases h
        exact .inl ⟨count, rfl, rfl⟩
      · cases h
    | spawned =>
      dsimp only [readSource] at h
      split at h <;> cases h
      exact .inr ⟨(fun _ he => by cases he), rfl⟩
    | failed =>
      dsimp only [readSource] at h
      split at h <;> cases h <;> exact .inr ⟨(fun _ he => by cases he), rfl⟩
    | put =>
      dsimp only [readSource] at h
      split_ifs at h
      split at h <;> cases h <;> exact .inr ⟨(fun _ he => by cases he), rfl⟩
    | resumed waited =>
      dsimp only [readSource] at h
      split_ifs at h
      split at h <;> cases h <;> exact .inr ⟨(fun _ he => by cases he), rfl⟩
    | exited returncode =>
      dsimp only [readSource] at h
      split at h
      · split_ifs at h <;> cases h <;> exact .inr ⟨(fun _ he => by cases he), rfl⟩
      · cases h
  | writer e =>
    exact .inr ⟨(fun _ he => by cases he), (writerStep_of_compressEncryptUpload h).frame.1⟩
  | upload k e =>
    obtain ⟨task, -, hdo⟩ := Option.bind_eq_some_iff.1 h
    obtain ⟨task', shutdownEvent, uploadSemaphore, -, rfl⟩ := uploadStep_of_doUpload hdo
    exact .inr ⟨(fun _ he => by cases he), rfl⟩
  | wake =>
    dsimp only [streamingPipeline] at h
    split_ifs at h <;> cases h <;> exact .inr ⟨(fun _ he => by cases he), rfl⟩

/-- Nothing is read while `read_source` waits for the subprocess. -/
theorem not_read_of_waiting {s : State} (hr : s.reader = .waiting) (count : ℕ) :
    Pipeline.step S s (.reader (.read count)) = none := by
  unfold Pipeline.step
  split_ifs
  · rfl
  · dsimp only [readSource]
    rw [hr]

/-- What is over takes no step. -/
theorem ending_of_step {s s' : State} {e : Event} (h : Pipeline.step S s e = some s') :
    s.ending = none := by
  unfold Pipeline.step at h
  split_ifs at h with hend
  rwa [Bool.not_eq_true, Option.isSome_eq_false_iff, Option.isNone_iff_eq_none] at hend

/-- A step of the reader does not end the pipeline. -/
theorem ending_of_goesToWait {s s' : State} {e : Event} (h : Pipeline.step S s e = some s')
    (hne : s.reader ≠ .waiting) (hr : s'.reader = .waiting) : s'.ending = none := by
  have hend := ending_of_step h
  unfold Pipeline.step at h
  split_ifs at h
  cases e with
  | reader e =>
    obtain ⟨remaining, reader, queue, rfl⟩ := (readerStep_of_readSource h).frame
    exact hend
  | writer e =>
    obtain ⟨-, hsame, -⟩ := (writerStep_of_compressEncryptUpload h).frame
    exact absurd (hsame ▸ hr) hne
  | upload k e =>
    obtain ⟨task, -, hdo⟩ := Option.bind_eq_some_iff.1 h
    obtain ⟨task', shutdownEvent, uploadSemaphore, -, rfl⟩ := uploadStep_of_doUpload hdo
    exact absurd hr hne
  | wake =>
    dsimp only [streamingPipeline] at h
    split_ifs at h <;> cases h <;> exact absurd hr hne

/-! ### Where the output is -/

/-- How the three places of the output relate. -/
structure World.Ok (w : World pipe) : Prop where
  split : w.pipeline.remaining.length =
    w.buffered + pipe.kernel.length w.inPipe + w.writes.sum
  writes_pos : ∀ n ∈ w.writes, 0 < n
  exited : w.exited ≠ none → w.writes = []

theorem sum_filter_pos (l : List ℕ) : (l.filter (0 < ·)).sum = l.sum := by
  induction l with
  | nil => rfl
  | cons n l ih =>
    rw [List.filter_cons]
    split_ifs with hn
    · rw [List.sum_cons, List.sum_cons, ih]
    · have hzero : n = 0 := by simpa using hn
      rw [ih, List.sum_cons, hzero, Nat.zero_add]

theorem World.ok_init (writes : List Bytes) (nonceGen : NonceGenerator) :
    (World.init pipe writes nonceGen).Ok where
  split := by
    show writes.flatten.length = 0 + pipe.kernel.length pipe.kernel.empty +
      ((writes.map List.length).filter (0 < ·)).sum
    rw [pipe.kernel.length_empty, List.length_flatten, sum_filter_pos, Nat.zero_add]
  writes_pos n hn := of_decide_eq_true (List.mem_filter.1 hn).2
  exited h := absurd rfl h

/-- **What a write does**: something of it goes in, and if not all of it does, the rest is
blocked. -/
theorem childStep_write {w w' : World pipe} (h : w.childStep .write = some w') :
    ∃ n rest, w.writes = n :: rest ∧ 0 < pipe.kernel.takes w.inPipe n ∧
      w' = { w with
        writes := if pipe.kernel.takes w.inPipe n = n then rest
          else (n - pipe.kernel.takes w.inPipe n) :: rest
        inPipe := pipe.kernel.put w.inPipe n } := by
  simp only [World.childStep] at h
  split at h
  · cases h
  · next n rest hwrites =>
    obtain ⟨hzero, h⟩ := Option.ite_none_left_eq_some.1 h
    exact ⟨n, rest, hwrites, Nat.pos_of_ne_zero hzero, (Option.some.inj h).symm⟩

theorem childStep_of_writes {w : World pipe} {n : ℕ} {rest : List ℕ}
    (hwrites : w.writes = n :: rest) (hpos : pipe.kernel.takes w.inPipe n ≠ 0) :
    w.childStep .write = some { w with
      writes := if pipe.kernel.takes w.inPipe n = n then rest
        else (n - pipe.kernel.takes w.inPipe n) :: rest
      inPipe := pipe.kernel.put w.inPipe n } := by
  simp only [World.childStep, hwrites]
  exact if_neg hpos

theorem World.Ok.childStep {w w' : World pipe} {e : ChildEvent} (hw : w.Ok)
    (h : w.childStep e = some w') : w'.Ok ∧ w'.pipeline = w.pipeline := by
  obtain ⟨hsplit, hpos, hexit⟩ := hw
  cases e with
  | write =>
    obtain ⟨n, rest, hwrites, hcount, rfl⟩ := childStep_write h
    have hle := pipe.kernel.takes_le w.inPipe n
    have hput := pipe.kernel.length_put w.inPipe n
    rw [hwrites] at hsplit hpos
    rw [List.sum_cons] at hsplit
    obtain ⟨hn, hrest⟩ := List.forall_mem_cons.1 hpos
    refine ⟨⟨?_, ?_, fun hne => ?_⟩, rfl⟩
    · dsimp only
      split_ifs with hall
      · omega
      · rw [List.sum_cons]
        omega
    · dsimp only
      split_ifs with hall
      · exact hrest
      · exact List.forall_mem_cons.2 ⟨by omega, hrest⟩
    · cases hwrites.symm.trans (hexit hne)
  | transport count =>
    dsimp only [World.childStep] at h
    split_ifs at h with hc
    obtain rfl := Option.some.inj h
    have hget := pipe.kernel.length_get w.inPipe count (hc.2.2.trans (min_le_right _ _))
    have hle : count ≤ pipe.kernel.length w.inPipe := hc.2.2.trans (min_le_right _ _)
    refine ⟨⟨?_, hpos, hexit⟩, rfl⟩
    show w.pipeline.remaining.length = w.buffered + count +
      pipe.kernel.length (pipe.kernel.get w.inPipe count) + w.writes.sum
    omega
  | exits returncode =>
    dsimp only [World.childStep] at h
    split_ifs at h with hc
    obtain rfl := Option.some.inj h
    exact ⟨⟨hsplit, hpos, fun _ => hc.2⟩, rfl⟩

/-- A step that is not a read takes nothing from the buffer. -/
theorem take_of_ne_read {w : World pipe} {e : Event} (h : ∀ count, e ≠ .reader (.read count)) :
    w.take e = w := by
  unfold World.take
  split
  · exact absurd rfl (h _)
  · rfl

theorem World.Ok.pipelineStep {w : World pipe} {e : Event} {s : State} (hw : w.Ok)
    (hallows : w.Allows e) (h : Pipeline.step S w.pipeline e = some s) :
    World.Ok { w.take e with pipeline := s } := by
  obtain ⟨hsplit, hpos, hexit⟩ := hw
  rcases remaining_step h with ⟨count, rfl, hrem⟩ | ⟨hne, hrem⟩
  · have hcount : count ≤ w.buffered := hallows.trans_le (min_le_right _ _)
    refine ⟨?_, hpos, hexit⟩
    show s.remaining.length = w.buffered - count + pipe.kernel.length w.inPipe + w.writes.sum
    rw [hrem, List.length_drop]
    omega
  · rw [take_of_ne_read hne]
    exact ⟨hrem ▸ hsplit, hpos, hexit⟩

/-! ### What fits -/

/-- What fits keeps fitting when the subprocess writes. -/
theorem World.Fits.write {w w' : World pipe} (hfits : w.Fits) (h : w.childStep .write = some w') :
    w'.Fits := by
  obtain ⟨n, rest, hwrites, -, rfl⟩ := childStep_write h
  intro hpaused
  have hholds := hfits hpaused
  rw [hwrites] at hholds
  obtain ⟨htakes, hrest⟩ := hholds
  dsimp only
  rwa [if_pos htakes]

/-- What fits is not blocked. -/
theorem World.Fits.not_deadlocked {w : World pipe} (hw : w.Ok) (h : w.Fits) : ¬ w.Deadlocked := by
  rintro ⟨-, ⟨n, rest, hwrites, hblocked⟩, hpaused⟩
  have hholds := h hpaused
  rw [hwrites] at hholds
  have hpos := hw.writes_pos n (hwrites ▸ List.mem_cons_self ..)
  have htakes := hholds.1
  omega

/-- The three places of the output, and enough room when nobody reads. -/
structure World.Inv (w : World pipe) : Prop where
  ok : w.Ok
  fits : w.Waiting → w.Fits

theorem World.inv_init (writes : List Bytes) (nonceGen : NonceGenerator) :
    (World.init pipe writes nonceGen).Inv where
  ok := World.ok_init writes nonceGen
  fits h := by cases h.1

/-- **A step that leaves room keeps the invariant.** -/
theorem World.Inv.step {w w' : World pipe} {e : WorldEvent} (hw : w.Inv)
    (h : w.step S e = some w') (hroom : w.LeavesRoom S e) : w'.Inv := by
  cases e with
  | child e =>
    dsimp only [World.step] at h
    split_ifs at h
    obtain ⟨hok, hsame⟩ := hw.ok.childStep h
    refine ⟨hok, fun hwaits => ?_⟩
    have hwaits : w.Waiting := by
      unfold World.Waiting at hwaits ⊢
      rwa [hsame] at hwaits
    cases e with
    | write => exact (hw.fits hwaits).write h
    | transport count =>
      dsimp only [World.childStep] at h
      split_ifs at h
      obtain rfl := Option.some.inj h
      exact hroom hwaits
    | exits returncode =>
      dsimp only [World.childStep] at h
      split_ifs at h
      obtain rfl := Option.some.inj h
      exact hw.fits hwaits
  | pipeline e =>
    dsimp only [World.step] at h
    split_ifs at h with hallows
    obtain ⟨s, hs, rfl⟩ := Option.map_eq_some_iff.1 h
    refine ⟨hw.ok.pipelineStep hallows hs, fun hwaits => ?_⟩
    by_cases hwas : w.pipeline.reader = .waiting
    · have htake : w.take e = w := take_of_ne_read fun count he => by
        rw [he, not_read_of_waiting hwas] at hs
        cases hs
      rw [htake]
      exact hw.fits ⟨hwas, ending_of_step hs⟩
    · exact hroom ⟨hwas, s, hs, hwaits.1⟩

theorem World.Inv.safe {w : World pipe} (hw : w.Inv) : w.Safe S := by
  intro w' hreach hdead
  have hw' : w'.Inv := by
    refine hreach.invariant hw fun t e u ht he hs => ?_
    subst he
    exact ht.step hs trivial
  exact (hw'.fits hdead.waiting).not_deadlocked hw'.ok hdead

/-! ### What does not fit -/

/-- **What does not fit blocks** the subprocess in the end. -/
theorem World.deadlocks_of_not_holds {w : World pipe} (hwaits : w.Waiting)
    (hpaused : w.paused = true) (hmore : ¬ pipe.kernel.Holds w.inPipe w.writes) : ∃ w',
      Reach (World.step S) (fun _ e => e = .child .write) w w' ∧ w'.pipeline = w.pipeline ∧
        w'.Deadlocked := by
  have hstep {v : World pipe} (hv : v.Waiting) : v.step S (.child .write) = v.childStep .write :=
    if_neg (by rw [hv.1]; exact fun h => by cases h)
  cases hwrites : w.writes with
  | nil =>
    rw [hwrites] at hmore
    exact absurd trivial hmore
  | cons n rest =>
    by_cases hzero : pipe.kernel.takes w.inPipe n = 0
    · exact ⟨w, .refl, rfl, hwaits, ⟨n, rest, hwrites, hzero⟩, hpaused⟩
    · have hwrite := (hstep hwaits).trans (childStep_of_writes hwrites hzero)
      by_cases hall : pipe.kernel.takes w.inPipe n = n
      · -- the write goes in, and what does not fit is behind it
        rw [if_pos hall] at hwrite
        rw [hwrites] at hmore
        have hone : Reach (World.step S) (fun _ e => e = .child .write) w _ :=
          Reach.refl.tail rfl hwrite
        obtain ⟨w', hreach, hsame, hdead⟩ :=
          World.deadlocks_of_not_holds (w := { w with
            writes := rest
            inPipe := pipe.kernel.put w.inPipe n })
            hwaits hpaused fun hholds => hmore ⟨hall, hholds⟩
        exact ⟨w', hone.trans hreach, hsame, hdead⟩
      · -- a part of it goes in, and no more
        rw [if_neg hall] at hwrite
        have hlt := lt_of_le_of_ne (pipe.kernel.takes_le w.inPipe n) hall
        exact ⟨_, Reach.refl.tail rfl hwrite, rfl, hwaits,
          ⟨_, rest, rfl, pipe.kernel.takes_put w.inPipe n hlt⟩, hpaused⟩
termination_by w.writes.length
decreasing_by
  rw [hwrites]
  exact Nat.lt_succ_self _

/-! ### All runs -/

/-- **When the wait for the subprocess ends.**  Along a run, `read_source` never waits for a
subprocess that is blocked, or that comes to be blocked by writing on, exactly when the rest of
the output fits in the pipe each time `read_source` waits and the event loop does not read: it
has paused when `read_source` goes to wait, or it pauses while `read_source` waits. -/
theorem noDeadlock_iff_fits (pipe : ReadPipe) (S : Setting) (writes : List Bytes)
    (nonceGen : NonceGenerator) (es : List WorldEvent) :
    AllStates (World.step S) (World.Safe S) (World.init pipe writes nonceGen) es ↔
      AllSteps (World.step S) (World.LeavesRoom S) (World.init pipe writes nonceGen) es := by
  refine allStates_iff_allSteps (fun _ hw => World.Inv.safe hw) (fun _ _ _ hw h => hw.step h) ?_
    (World.inv_init writes nonceGen) es
  intro w e w' hw h hroom hsafe
  have hblocked {v : World pipe} (hv : v.Waiting) (hfits : ¬ v.Fits) : ¬ v.Safe S := by
    obtain ⟨hpaused, hmore⟩ := Classical.not_imp.1 hfits
    obtain ⟨v', hreach, -, hdead⟩ := World.deadlocks_of_not_holds (S := S) hv hpaused hmore
    exact fun hsafe => hsafe v' hreach hdead
  cases e with
  | child e =>
    dsimp only [World.step] at h
    split_ifs at h
    cases e with
    | transport count =>
      dsimp only [World.childStep] at h
      split_ifs at h
      obtain rfl := Option.some.inj h
      obtain ⟨hwaits, hfits⟩ : w.Waiting ∧ ¬ (w.fed count).Fits := Classical.not_imp.1 hroom
      exact hblocked (v := w.fed count) hwaits hfits hsafe
    | write | exits => exact hroom trivial
  | pipeline e =>
    dsimp only [World.step] at h
    split_ifs at h with hallows
    obtain ⟨s, hs, rfl⟩ := Option.map_eq_some_iff.1 h
    obtain ⟨⟨hne, s', hs', hr⟩, hfits⟩ : w.GoesToWait S e ∧ ¬ (w.take e).Fits :=
      Classical.not_imp.1 hroom
    obtain rfl : s = s' := Option.some.inj (hs.symm.trans hs')
    exact hblocked (v := { w.take e with pipeline := s })
      ⟨hr, ending_of_goesToWait hs hne hr⟩ hfits hsafe

/-- Every run of the world is a run of the pipeline. -/
theorem reachable_pipeline {writes : List Bytes} {nonceGen : NonceGenerator} {w : World pipe}
    (h : Reachable (World.step S) (.init pipe writes nonceGen) w) :
    Reachable (Pipeline.step S) (.init writes.flatten nonceGen) w.pipeline := by
  have hw : w.Ok ∧ Reachable (Pipeline.step S) (.init writes.flatten nonceGen) w.pipeline := by
    refine h.invariant
      (I := fun w => w.Ok ∧ Reachable (Pipeline.step S) (.init writes.flatten nonceGen) w.pipeline)
      ⟨World.ok_init writes nonceGen, .refl⟩ fun w e w' hw _ hs => ?_
    cases e with
    | child e =>
      dsimp only [World.step] at hs
      split_ifs at hs
      obtain ⟨hok, hsame⟩ := hw.1.childStep hs
      exact ⟨hok, hsame ▸ hw.2⟩
    | pipeline e =>
      dsimp only [World.step] at hs
      split_ifs at hs with hallows
      obtain ⟨s, hstep, rfl⟩ := Option.map_eq_some_iff.1 hs
      exact ⟨hw.1.pipelineStep hallows hstep, hw.2.tail trivial hstep⟩
  exact hw.2

/-! ### An upload that fails early -/

/-- A subprocess that writes byte after byte. -/
def bytewise (data : Bytes) : List Bytes := data.map fun b => [b]

theorem init_bytewise (pipe : ReadPipe) (data : Bytes) (nonceGen : NonceGenerator) :
    World.init pipe (bytewise data) nonceGen =
      { pipeline := .init data nonceGen, writes := List.replicate data.length 1 } := by
  have hflatten : (bytewise data).flatten = data := by
    rw [bytewise, ← List.flatMap_def, List.flatMap_singleton']
  have hlengths : (bytewise data).map List.length = List.replicate data.length 1 := by
    rw [bytewise, List.map_map]
    exact List.map_const' ..
  rw [World.init, hflatten, hlengths, List.filter_replicate, if_pos (by decide)]

/-- The subprocess writes a byte, and the event loop reads it. -/
theorem reach_feedOne {w : World .linux} (rest : List ℕ) (hs : w.pipeline.reader ≠ .spawning)
    (hempty : w.inPipe = KernelPipe.linux.empty) (hpaused : w.paused = false)
    (hwrites : w.writes = 1 :: rest) :
    Reachable (World.step S) w { w with
      writes := rest
      buffered := w.buffered + 1
      paused := 2 * ReadPipe.linux.limit < w.buffered + 1 } := by
  obtain ⟨s, writes, inPipe, buffered, paused, exited⟩ := w
  obtain rfl : inPipe = KernelPipe.linux.empty := hempty
  obtain rfl : paused = false := hpaused
  obtain rfl : writes = 1 :: rest := hwrites
  have hwrite : World.step S
      (⟨s, 1 :: rest, KernelPipe.linux.empty, buffered, false, exited⟩ : World .linux)
      (.child .write) = some ⟨s, rest, KernelPipe.linux.put KernelPipe.linux.empty 1, buffered,
        false, exited⟩ := if_neg hs
  have htransport : World.step S
      (⟨s, rest, KernelPipe.linux.put KernelPipe.linux.empty 1, buffered, false, exited⟩ :
        World .linux) (.child (.transport 1)) = some ⟨s, rest, KernelPipe.linux.empty,
          buffered + 1, 2 * ReadPipe.linux.limit < buffered + 1, exited⟩ := if_neg hs
  exact (Reach.refl.tail trivial hwrite).tail trivial htransport

/-- The event loop reads and `read` returns one byte that the subprocess has written. -/
theorem reach_readOne {s s' : State} (rest : List ℕ) (hs : s.reader ≠ .spawning)
    (h : Pipeline.step S s (.reader (.read 1)) = some s') :
    Reachable (World.step S) ({ pipeline := s, writes := 1 :: rest } : World .linux)
      { pipeline := s', writes := rest } := by
  have hio : 1 ≤ ioReadSize := by
    unfold ioReadSize
    decide
  have hread : World.step S ({ pipeline := s, writes := rest, buffered := 1 } : World .linux)
      (.pipeline (.reader (.read 1))) = some { pipeline := s', writes := rest } := by
    have hallows : ({ pipeline := s, writes := rest, buffered := 1 } : World .linux).Allows
        (.reader (.read 1)) := (min_eq_right hio).symm
    dsimp only [World.step]
    rw [if_pos hallows, h]
    rfl
  exact (reach_feedOne rest hs rfl rfl rfl).tail trivial hread

/-- The reader has read the first `k` bytes, one by one, and found no cut. -/
def World.readingAt (data : Bytes) (nonceGen : NonceGenerator) (k : ℕ) (fastcdc : Streamer) :
    World .linux where
  pipeline := { State.init data nonceGen with
    remaining := data.drop k
    reader := .reading fastcdc }
  writes := List.replicate (data.length - k) 1

/-- What one read of one byte does. -/
theorem step_readOne {data : Bytes} (nonceGen : NonceGenerator) {k : ℕ} (fastcdc : Streamer)
    (hk : k < data.length) :
    Pipeline.step S (World.readingAt data nonceGen k fastcdc).pipeline (.reader (.read 1)) =
      some { State.init data nonceGen with
        remaining := data.drop (k + 1)
        reader := .next false false (fastcdc.feed S.gear ((data.drop k).take 1) false).2
          (fastcdc.feed S.gear ((data.drop k).take 1) false).1 } := by
  have hio : 1 ≤ ioReadSize := by
    unfold ioReadSize
    decide
  have hlen : 1 ≤ min ioReadSize (data.drop k).length := by
    rw [List.length_drop]
    omega
  have hguard : 1 ≤ min ioReadSize (data.drop k).length ∧ (1 = 0 → data.drop k = []) :=
    ⟨hlen, fun h => absurd h Nat.one_ne_zero⟩
  have hdrop : (data.drop k).drop 1 = data.drop (k + 1) := List.drop_drop
  rw [← hdrop]
  exact if_pos hguard

theorem take_append_take_drop_one (data : Bytes) (k : ℕ) :
    data.take k ++ (data.drop k).take 1 = data.take (k + 1) := by
  rw [List.take_add]

theorem cons_replicate_sub {n k : ℕ} (hk : k < n) :
    1 :: List.replicate (n - (k + 1)) 1 = List.replicate (n - k) 1 := by
  rw [← List.replicate_succ]
  congr
  omega

/-- **As long as there is no cut**, the reader reads byte after byte. -/
theorem reach_readingAt (S : Setting) (data : Bytes) (nonceGen : NonceGenerator)
    {k : ℕ} (hk : k ≤ data.length) (hnone : ∀ j ≤ k, firstCut S.gear (data.take j) = none) :
    ∃ fastcdc : Streamer, fastcdc.Ok S.gear ∧ fastcdc.buffer = data.take k ∧
      Reachable (World.step S) (.init .linux (bytewise data) nonceGen)
        (.readingAt data nonceGen k fastcdc) := by
  induction k with
  | zero =>
    rw [init_bytewise]
    refine ⟨{}, Streamer.ok_fresh [], rfl, Reach.refl.tail (e := .pipeline (.reader .spawned))
      trivial ?_⟩
    rfl
  | succ k ih =>
    obtain ⟨fastcdc, hok, hbuf, hreach⟩ :=
      ih (Nat.le_of_succ_le hk) fun j hj => hnone j (Nat.le_succ_of_le hj)
    obtain ⟨hchunks, hbuf', hok'⟩ := feed_false hok ((data.drop k).take 1)
    rw [hbuf, take_append_take_drop_one] at hchunks hbuf'
    rw [Cutter.drain_of_none (C := cutter S.gear) (hnone (k + 1) le_rfl)] at hchunks hbuf'
    have hstep := reach_readOne (List.replicate (data.length - (k + 1)) 1)
      (fun h => by cases h) (step_readOne (S := S) nonceGen fastcdc hk)
    rw [hchunks, cons_replicate_sub hk] at hstep
    exact ⟨_, hok', hbuf', hreach.trans hstep⟩

theorem exists_firstCut (gear : UInt8 → ℕ) {data : Bytes} (h : maxChunkSize ≤ data.length) :
    ∃ n, n + 1 ≤ maxChunkSize ∧ firstCut gear (data.take (n + 1)) ≠ none ∧
      ∀ j ≤ n, firstCut gear (data.take j) = none := by
  have hmax : firstCut gear (data.take maxChunkSize) ≠ none := by
    have hlen : (data.take maxChunkSize).length = maxChunkSize := List.length_take_of_le h
    have := minChunkSize_le_maxChunkSize
    unfold firstCut
    rw [if_neg (by omega), if_pos hlen.ge]
    intro hnone
    rw [Option.or_eq_none_iff] at hnone
    cases hnone.2
  -- the first number of bytes that have a cut
  classical
  have hex : ∃ n, firstCut gear (data.take n) ≠ none := ⟨maxChunkSize, hmax⟩
  obtain ⟨n, hn⟩ : ∃ n, Nat.find hex = n + 1 := by
    refine Nat.exists_eq_succ_of_ne_zero fun hzero => ?_
    have := Nat.find_spec hex
    rw [hzero, List.take_zero] at this
    exact this (Cutter.cut_nil (C := cutter gear))
  refine ⟨n, hn ▸ Nat.find_le hmax, hn ▸ Nat.find_spec hex, fun j hj => ?_⟩
  exact not_not.1 (Nat.find_min hex (by omega))

/-- **The first chunk** of a long stream comes to be put. -/
theorem reach_putting (S : Setting) {data : Bytes} (nonceGen : NonceGenerator)
    (h : maxChunkSize ≤ data.length) : ∃ n ≤ maxChunkSize, ∃ fastcdc chunk chunks,
      chunk.length ≤ maxChunkSize ∧
        Reachable (World.step S) (.init .linux (bytewise data) nonceGen)
          { pipeline := { State.init data nonceGen with
              remaining := data.drop n
              reader := .putting fastcdc false chunk chunks }
            writes := List.replicate (data.length - n) 1 } := by
  obtain ⟨n, hn, hcut, hnone⟩ := exists_firstCut S.gear h
  obtain ⟨fastcdc, hok, hbuf, hreach⟩ := reach_readingAt S data nonceGen
    (Nat.le_of_succ_le (hn.trans h)) hnone
  obtain ⟨hchunks, -, -⟩ := feed_false hok ((data.drop n).take 1)
  rw [hbuf, take_append_take_drop_one] at hchunks
  obtain ⟨m, hm⟩ := Option.ne_none_iff_exists'.1 hcut
  rw [Cutter.drain_of_some (C := cutter S.gear) hm] at hchunks
  have hlen : ((data.take (n + 1)).take m).length ≤ maxChunkSize := by
    have := (firstCut_bounds _ hm).2
    rw [List.length_take]
    omega
  have hstep := reach_readOne (List.replicate (data.length - (n + 1)) 1)
    (fun h => by cases h) (step_readOne (S := S) nonceGen fastcdc (hn.trans h))
  rw [hchunks, cons_replicate_sub (hn.trans h)] at hstep
  exact ⟨n + 1, hn, _, _, _, hlen, hreach.trans hstep⟩

/-- Steps of the pipeline in which the subprocess has no part. -/
theorem reach_of_exec {w : World pipe} {s : State} {es : List Event}
    (hquiet : ∀ e ∈ es, ∀ w : World pipe, w.Allows e ∧ w.take e = w)
    (h : exec (Pipeline.step S) w.pipeline es = some s) :
    Reachable (World.step S) w { w with pipeline := s } := by
  induction es generalizing w with
  | nil =>
    obtain rfl := Option.some.inj h
    exact .refl
  | cons e es ih =>
    obtain ⟨t, ht, h⟩ := Option.bind_eq_some_iff.1 h
    obtain ⟨hallows, htake⟩ := hquiet e (List.mem_cons_self ..) w
    have hstep : World.step S w (.pipeline e) = some { w with pipeline := t } := by
      dsimp only [World.step]
      rw [if_pos hallows, ht, htake]
      rfl
    exact (Reach.refl.tail trivial hstep).trans
      (ih (w := { w with pipeline := t }) (fun e he => hquiet e (List.mem_cons_of_mem _ he)) h)

/-- The upload of the first chunk fails, and both coroutines notice. -/
def uploadFails : List Event :=
  [.reader .put, .writer .get, .writer (.resumed false), .writer .acquired, .upload 0 .started,
    .upload 0 .finished, .upload 0 .discarded, .writer (.resumed true), .reader (.resumed true)]

/-- A pipeline in which every upload fails. -/
def failingSetting (gear : UInt8 → ℕ) : Setting :=
  ⟨clearPrimitives, gear, [], "snap-1", fun _ => true⟩

theorem compressEncryptUpload_resumed {P : Primitives} {dek : Bytes} {snapshotId : String}
    {s : State} {chunk : Bytes} {block : Sealed} {nonceGen : NonceGenerator}
    (hwriter : s.writer = .got (some chunk))
    (hseal : sealChunk P dek snapshotId s.chunkSeq s.nonceGen chunk = some (block, nonceGen)) :
    compressEncryptUpload P dek snapshotId s (.resumed false) =
      some { s with
        nonceGen
        writer := .acquiring block } := by
  unfold compressEncryptUpload
  simp [hwriter, hseal]

theorem exec_uploadFails (gear : UInt8 → ℕ) (remaining : Bytes) (fastcdc : Streamer) (chunk : Bytes)
    (chunks : List Bytes) (hlen : chunk.length ≤ maxChunkSize) : ∃ s,
      exec (Pipeline.step (failingSetting gear))
        { State.init remaining smallNonces with reader := .putting fastcdc false chunk chunks }
        uploadFails = some s ∧ s.reader = .waiting ∧ s.ending = none ∧ s.writer = .returned ∧
      ∀ task ∈ s.tasks, task.status = .raised ∧ task.background = false := by
  have hmax : maxChunkSize = 4194304 := by
    unfold maxChunkSize
    rfl
  obtain ⟨nonce, g, hnonce⟩ : ∃ nonce g, smallNonces.next = some (nonce, g) := ⟨_, _, rfl⟩
  obtain ⟨header, hheader⟩ : ∃ header, createChunkHeader 0 nonce (chunk.length + 16) =
      some header := ⟨_, if_pos ⟨by decide, by omega⟩⟩
  obtain ⟨block, hseal⟩ : ∃ block, sealChunk clearPrimitives [] "snap-1" 0 smallNonces chunk =
      some (block, g) := by
    unfold sealChunk
    rw [hnonce]
    show ∃ block, (createChunkHeader 0 nonce (chunk.length + 16)).bind _ = _
    rw [hheader]
    exact ⟨_, rfl⟩
  -- the state before the chunk is sealed, and the one after it
  let s₁ : State := { State.init remaining smallNonces with
    reader := .put fastcdc false chunks
    writer := .got (some chunk) }
  let s₂ : State := { s₁ with
    nonceGen := g
    writer := .acquiring block }
  have hbefore : exec (Pipeline.step (failingSetting gear))
      { State.init remaining smallNonces with reader := .putting fastcdc false chunk chunks }
      [.reader .put, .writer .get] = some s₁ := rfl
  have hsealed : Pipeline.step (failingSetting gear) s₁ (.writer (.resumed false)) = some s₂ := by
    show compressEncryptUpload clearPrimitives [] "snap-1" s₁ (.resumed false) = some s₂
    exact compressEncryptUpload_resumed rfl hseal
  obtain ⟨s₃, hafter, hend⟩ : ∃ s₃, exec (Pipeline.step (failingSetting gear)) s₂
      [.writer .acquired, .upload 0 .started, .upload 0 .finished, .upload 0 .discarded,
        .writer (.resumed true), .reader (.resumed true)] = some s₃ ∧ s₃.reader = .waiting ∧
      s₃.ending = none ∧ s₃.writer = .returned ∧
      ∀ task ∈ s₃.tasks, task.status = .raised ∧ task.background = false :=
    ⟨_, rfl, rfl, rfl, rfl, fun task htask => by
      rw [List.mem_singleton.1 htask]
      exact ⟨rfl, rfl⟩⟩
  refine ⟨s₃, ?_, hend⟩
  refine (exec_append hbefore).trans ?_
  rw [exec, hsealed]
  exact hafter

/-- While `read_source` waits for the exit, it is the only thing that it takes. -/
theorem readSource_waiting {gear : UInt8 → ℕ} {s s' : State} {e : ReaderEvent}
    (hwaiting : s.reader = .waiting) (h : readSource gear s e = some s') :
    ∃ returncode, e = .exited returncode := by
  cases e with
  | exited returncode => exact ⟨returncode, rfl⟩
  | resumed waited =>
    dsimp only [readSource] at h
    rw [hwaiting] at h
    split_ifs at h
  | put =>
    dsimp only [readSource] at h
    rw [hwaiting] at h
    split_ifs at h
  | _ =>
    dsimp only [readSource] at h
    rw [hwaiting] at h
    cases h

theorem compressEncryptUpload_returned {P : Primitives} {dek : Bytes} {snapshotId : String}
    {s : State} (hwriter : s.writer = .returned) (e : WriterEvent) :
    compressEncryptUpload P dek snapshotId s e = none := by
  cases e with
  | resumed waited =>
    dsimp only [compressEncryptUpload]
    rw [hwriter]
    split_ifs <;> rfl
  | _ =>
    dsimp only [compressEncryptUpload]
    rw [hwriter]

/-- Where the writer and the uploads are over, what is left is the exit. -/
theorem exists_exited_of_step {s s' : State} {e : Event} (hwaiting : s.reader = .waiting)
    (hwriter : s.writer = .returned)
    (htasks : ∀ task ∈ s.tasks, task.status = .raised ∧ task.background = false)
    (h : Pipeline.step S s e = some s') : ∃ returncode, e = .reader (.exited returncode) := by
  unfold Pipeline.step at h
  split_ifs at h
  cases e with
  | reader e =>
    obtain ⟨returncode, rfl⟩ := readSource_waiting hwaiting h
    exact ⟨returncode, rfl⟩
  | writer e =>
    cases (compressEncryptUpload_returned hwriter e).symm.trans h
  | upload k e =>
    obtain ⟨task, htask, h⟩ := Option.bind_eq_some_iff.1 h
    obtain ⟨hstatus, hback⟩ := htasks task (List.mem_of_getElem? htask)
    cases e <;> simp [doUpload, hstatus, hback] at h
  | wake => simp [streamingPipeline, hwaiting, hwriter] at h

/-- While nobody takes anything from the buffer, the event loop reads until it has paused. -/
theorem reach_paused {s : State} (hs : s.reader ≠ .spawning) {buffered k m : ℕ}
    (hk : buffered + k = 2 * ReadPipe.linux.limit) :
    Reachable (World.step S)
      ({ pipeline := s, writes := List.replicate (k + 1 + m) 1, buffered } : World .linux)
      { pipeline := s
        writes := List.replicate m 1
        buffered := 2 * ReadPipe.linux.limit + 1
        paused := true } := by
  induction k generalizing buffered with
  | zero =>
    obtain rfl : buffered = 2 * ReadPipe.linux.limit := hk
    have hround := reach_feedOne (S := S)
      (w := { pipeline := s
              writes := List.replicate (0 + 1 + m) 1
              buffered := 2 * ReadPipe.linux.limit }) (List.replicate m 1) hs rfl rfl
      (by rw [Nat.zero_add, Nat.add_comm, List.replicate_succ])
    exact hround
  | succ k ih =>
    have hround := reach_feedOne (S := S)
      (w := { pipeline := s, writes := List.replicate (k + 1 + 1 + m) 1, buffered })
      (List.replicate (k + 1 + m) 1) hs rfl rfl
      (by rw [Nat.add_right_comm, List.replicate_succ])
    have hgoes : decide (2 * ReadPipe.linux.limit < buffered + 1) = false :=
      decide_eq_false (by omega)
    dsimp only at hround
    rw [hgoes] at hround
    exact hround.trans (ih (by omega))

/-- The pipe does not take more than its capacity. -/
theorem not_holds_linux {m : ℕ} (hm : 65536 < m) :
    ¬ KernelPipe.linux.Holds KernelPipe.linux.empty (List.replicate m 1) := by
  intro hholds
  obtain ⟨q, hq⟩ := hholds.exists_length
  have hle := KernelPipe.length_linux_le q
  rw [hq, KernelPipe.linux.length_empty, List.sum_replicate, Nat.nsmul_eq_mul] at hle
  omega

/-- Where the writer and the uploads are over as well, nothing happens any more. -/
theorem World.hangs {w : World pipe} (hw : w.Ok) (hdead : w.Deadlocked)
    (hwriter : w.pipeline.writer = .returned)
    (htasks : ∀ task ∈ w.pipeline.tasks, task.status = .raised ∧ task.background = false)
    (e : WorldEvent) : w.step S e = none := by
  obtain ⟨⟨hwaiting, hend⟩, ⟨n, rest, hwrites, hblocked⟩, hpaused⟩ := hdead
  have hne : w.writes ≠ [] := by
    rw [hwrites]
    exact List.cons_ne_nil _ _
  have hexited : w.exited = none := by
    by_contra hexit
    exact hne (hw.exited hexit)
  cases e with
  | child e =>
    dsimp only [World.step]
    rw [if_neg (by rw [hwaiting]; exact fun h => by cases h)]
    cases e with
    | write =>
      simp only [World.childStep, hwrites]
      exact if_pos hblocked
    | transport count => exact if_neg (by rw [hpaused]; exact fun h => by cases h.1)
    | exits returncode => exact if_neg fun h => hne h.2
  | pipeline e =>
    dsimp only [World.step]
    split_ifs with hallows
    · rw [Option.map_eq_none_iff]
      by_contra hne
      obtain ⟨s, hstep⟩ := Option.ne_none_iff_exists'.1 hne
      obtain ⟨returncode, rfl⟩ := exists_exited_of_step hwaiting hwriter htasks hstep
      rw [World.Allows, hexited] at hallows
      cases hallows
    · rfl

theorem World.ok_of_reachable {writes : List Bytes} {nonceGen : NonceGenerator} {w : World pipe}
    (h : Reachable (World.step S) (.init pipe writes nonceGen) w) : w.Ok := by
  refine h.invariant (World.ok_init writes nonceGen) fun w e w' hw _ hs => ?_
  cases e with
  | child e =>
    dsimp only [World.step] at hs
    split_ifs at hs
    exact (hw.childStep hs).1
  | pipeline e =>
    dsimp only [World.step] at hs
    split_ifs at hs with hallows
    obtain ⟨s, hstep, rfl⟩ := Option.map_eq_some_iff.1 hs
    exact hw.pipelineStep hallows hstep

/-- **A run that hangs**, whatever `GEAR_TABLE` is. -/
theorem hangs_uploadFails (gear : UInt8 → ℕ) : ∃ w,
    Reachable (World.step (failingSetting gear))
      (.init .linux (bytewise (List.replicate (maxChunkSize + 200000) 0)) smallNonces) w ∧
      w.Deadlocked ∧ ∀ e, w.step (failingSetting gear) e = none := by
  have hlen : (List.replicate (maxChunkSize + 200000) (0 : UInt8)).length =
      maxChunkSize + 200000 := List.length_replicate
  generalize List.replicate (maxChunkSize + 200000) (0 : UInt8) = data at hlen ⊢
  obtain ⟨n, hn, fastcdc, chunk, chunks, hchunk, hputting⟩ := reach_putting
    (failingSetting gear) smallNonces (show maxChunkSize ≤ data.length by omega)
  obtain ⟨s, hexec, hwaiting, hend, hwriter, htasks⟩ :=
    exec_uploadFails gear (data.drop n) fastcdc chunk chunks hchunk
  have hwaits := hputting.trans
    (reach_of_exec (by simp [uploadFails, World.Allows, World.take]) hexec)
  obtain ⟨m, hm⟩ : ∃ m, data.length - n = 131072 + 1 + m := Nat.exists_eq_add_of_le (by omega)
  dsimp only at hwaits
  rw [hm] at hwaits
  have hreach := hwaits.trans (reach_paused (by rw [hwaiting]; exact fun h => by cases h)
    (Nat.zero_add _))
  obtain ⟨w, hblocks, hsame, hdead⟩ := World.deadlocks_of_not_holds (S := failingSetting gear)
    (w := ({ pipeline := s
             writes := List.replicate m 1
             buffered := 2 * ReadPipe.linux.limit + 1
             paused := true } : World .linux)) ⟨hwaiting, hend⟩ rfl
    (not_holds_linux (m := m) (by omega))
  have hw := hreach.trans (hblocks.mono fun _ _ _ => trivial)
  refine ⟨w, hw, hdead, World.hangs (World.ok_of_reachable hw) hdead ?_ ?_⟩
  · rw [hsame]
    exact hwriter
  · rw [hsame]
    exact htasks

/-- A subprocess is left blocked when an upload fails while it still has output. -/
theorem not_noDeadlock_uploadFails : ¬ ∃ gear, ∀ w,
    Reachable (World.step (failingSetting gear))
      (.init .linux (bytewise (List.replicate (maxChunkSize + 200000) 0)) smallNonces) w →
    ¬ w.Deadlocked := by
  rintro ⟨gear, h⟩
  obtain ⟨w, hw, hdead, -⟩ := hangs_uploadFails gear
  exact h w hw hdead

end

end Pipeline
end Boveda

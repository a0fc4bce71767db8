/-
# The outbox delivers what it was given

A chunk passes through several hands: the coroutine of `upload_chunk` or `enqueue_chunk`, a
staging file, a row, and any number of drains that read the file again after retries, crashes
and restarts.  `Boveda.Outbox.NoLoss` says that it is not lost on its way.  Here nothing else
comes out: whatever an uploader accepts for a call is the chunk that the call was given, and
whatever it accepts for a row, however often, is the one chunk of the one call that drew the
id of the row (`given_of_accepted`), though a torn file is left by a thread that is cancelled, and
a row by a call that raises.

`given` and `chunkOf` are history: the chunk of each call, and the chunk for which an id was
drawn.
-/

import Boveda.Outbox.NoLoss

namespace Boveda
namespace Fidelity

open Lib Outbox

/-- The outbox, the chunks that its calls were given, and the chunks of its ids. -/
structure Traced where
  world : World
  given : ℕ → Option Chunk
  chunkOf : ChunkId → Option Chunk

/-- After `init_outbox_schema`. -/
def Traced.init : Traced := ⟨.init, fun _ => none, fun _ => none⟩

/-- What a step adds to the history. -/
def Traced.log (c : Traced) : Event → Traced
  | .uploadChunk u ch => { c with given := Function.update c.given u (some ch) }
  | .enqueueChunk u ch id =>
    { c with
      given := Function.update c.given u (some ch)
      chunkOf := Function.update c.chunkOf id (some ch) }
  | .secondaryRefuses u id => { c with chunkOf := Function.update c.chunkOf id (c.given u) }
  | _ => c

/-- A step of the outbox. -/
def step (S : Setting) (c : Traced) (e : Event) : Option Traced :=
  (Outbox.step S c.world e).map fun w => { c.log e with world := w }

/-- The chunk for which an uploader was called. -/
def Traced.meant (c : Traced) : Origin → Option Chunk
  | .upload u => c.given u
  | .row id => c.chunkOf id

/-! ### What a step does -/

/-- The chunk of a call that has begun and has not given up. -/
def chunk? : Upload → Option Chunk
  | .primary ch | .secondary ch | .staging ch _ | .inserting ch _ | .committed ch _
  | .returned ch _ => some ch
  | .idle | .stopped => none

/-- The chunk of a call, with the id that was drawn for it. -/
def drawn? : Upload → Option (Chunk × ChunkId)
  | .staging ch id | .inserting ch id | .committed ch id | .returned ch (.outbox id) =>
    some (ch, id)
  | _ => none

/-- What a step does to the outbox and to the history. -/
inductive Deed (S : Setting) (c : Traced) : Traced → Prop
  | call {u : ℕ} {ch : Chunk} : c.world.uploads u = .idle →
      Deed S c ⟨c.world.setUpload u (.primary ch), Function.update c.given u (some ch), c.chunkOf⟩
  | callDraw {u : ℕ} {ch : Chunk} {id : ChunkId} : c.world.uploads u = .idle →
      id ∉ c.world.used →
      Deed S c ⟨{ c.world with used := id :: c.world.used }.setUpload u (.staging ch id),
        Function.update c.given u (some ch), Function.update c.chunkOf id (some ch)⟩
  | draw {u : ℕ} {ch : Chunk} {id : ChunkId} : c.world.uploads u = .secondary ch →
      id ∉ c.world.used →
      Deed S c ⟨{ c.world with used := id :: c.world.used }.setUpload u (.staging ch id),
        c.given, Function.update c.chunkOf id (c.given u)⟩
  | stage {u : ℕ} {ch : Chunk} {id : ChunkId} : c.world.uploads u = .staging ch id →
      Deed S c { c with
        world := (c.world.setFile (S.stagedPath id ch.storageKey) (some ch.payload)).setUpload u
          (.inserting ch id) }
  | abandon {u : ℕ} {ch : Chunk} {id : ChunkId} (content : Option Bytes) :
      (c.world.uploads u).draft = some (ch, id) →
      Deed S c { c with
        world := (c.world.setFile (S.stagedPath id ch.storageKey) content).setUpload u .stopped }
  | insert {u : ℕ} {ch : Chunk} {id : ChunkId} {now : Time} {w : World} {p : Upload} :
      c.world.uploads u = .inserting ch id → c.world.insertRow (S.newRow now id ch) = some w →
      p = .committed ch id ∨ p = .stopped → Deed S c { c with world := w.setUpload u p }
  | insertDrop {u : ℕ} {ch : Chunk} {id : ChunkId} {now : Time} {w : World} :
      c.world.uploads u = .inserting ch id → c.world.insertRow (S.newRow now id ch) = some w →
      Deed S c { c with
        world := (w.setFile (S.stagedPath id ch.storageKey) none).setUpload u .stopped }
  | accept {u : ℕ} {ch : Chunk} {dest : StorageDestination} :
      chunk? (c.world.uploads u) = some ch → (∀ id, dest ≠ .outbox id) →
      Deed S c { c with world := (c.world.accept (.upload u) ch).setUpload u (.returned ch dest) }
  | move {u : ℕ} {p : Upload} : c.world.uploads u ≠ .idle → p ≠ .idle →
      (∀ ch, chunk? p = some ch → chunk? (c.world.uploads u) = some ch) →
      (∀ ch id, drawn? p = some (ch, id) → drawn? (c.world.uploads u) = some (ch, id)) →
      Deed S c { c with world := c.world.setUpload u p }
  | claim {d : ℕ} {maxItems : ℤ} {now : Time} :
      Deed S c { c with world := claim S d maxItems now c.world }
  | read {d : ℕ} {item : Item} {rest : List Item} {n : ℕ} {payload : Bytes} :
      (c.world.drains d).items = item :: rest → c.world.files item.path = some payload →
      Deed S c { c with world := c.world.setDrain d (.working (.uploading payload) item rest n) }
  | leave {d : ℕ} {p : Drain} : p.uploads = none → Deed S c { c with world := c.world.setDrain d p }
  | deliver {d : ℕ} {item : Item} {rest : List Item} {n : ℕ} {payload : Bytes} :
      c.world.drains d = .working (.uploading payload) item rest n →
      Deed S c { c with
        world := (c.world.accept (.row item.id)
          ⟨item.tenantId, item.storageKey, payload⟩).setDrain d (.working .marking item rest n) }
  | update {d : ℕ} {q : Row → Bool} {f : Row → Row} {hf : ∀ r, (f r).id = r.id} {p : Drain} :
      (∀ r, (f r).fixed = r.fixed) → p.uploads = none →
      Deed S c { c with world := (c.world.updateRows q f hf).setDrain d p }
  | unlink {d : ℕ} {path : StagedPath} {p : Drain} : p.uploads = none →
      Deed S c { c with world := (c.world.setFile path none).setDrain d p }

section Inversion

variable {S : Setting} {c : Traced} {e : Event} {w : World}

theorem deed_of_stepUpload {u : ℕ} (he : e.party = .inl u)
    (h : stepUpload S c.world u (c.world.uploads u) e = some w) :
    Deed S c { c.log e with world := w } := by
  unfold stepUpload World.draw at h
  cases e with
  | uploadChunk v ch =>
    obtain rfl : v = u := Sum.inl.inj he
    dsimp only at h
    split at h <;> cases h
    next hu => exact .call hu
  | enqueueChunk v ch id =>
    obtain rfl : v = u := Sum.inl.inj he
    dsimp only at h
    split at h <;> try cases h
    next hu =>
      split_ifs at h with hid
      · cases h
      · cases h
        exact .callDraw hu hid
  | uploaderAccepts v =>
    dsimp only at h
    split at h <;> cases h
    all_goals
      next hu => exact .accept (by rw [hu]; rfl) fun _ hdest => nomatch hdest
  | primaryRefuses v =>
    dsimp only at h
    split at h <;> cases h
    next hu =>
      exact .move (by rw [hu]; exact Upload.noConfusion) Upload.noConfusion
        (fun _ hch => by rw [hu]; exact hch) fun _ _ hdr => nomatch hdr
  | secondaryRefuses v id =>
    obtain rfl : v = u := Sum.inl.inj he
    dsimp only at h
    split at h <;> try cases h
    next hu =>
      split_ifs at h with hid
      · cases h
      · cases h
        exact .draw hu hid
  | stageFile v =>
    dsimp only at h
    split at h <;> try cases h
    next hu =>
      split_ifs at h
      cases h
      exact .stage hu
  | abandonFile v content =>
    dsimp only at h
    split at h <;> cases h
    next hu => exact .abandon content (by rw [hu]; rfl)
  | insertRow v now =>
    dsimp only at h
    split at h <;> try cases h
    next hu =>
      obtain ⟨w₁, h₁, rfl⟩ := Option.map_eq_some_iff.1 h
      exact .insert hu h₁ (.inl rfl)
  | insertFails v committed unlinked now =>
    dsimp only at h
    split at h <;> try cases h
    next hu =>
      obtain ⟨w₁, h₁, rfl⟩ := Option.map_eq_some_iff.1 h
      cases committed with
      | true =>
        cases unlinked with
        | true => exact .insertDrop hu h₁
        | false => exact .insert hu h₁ (.inr rfl)
      | false =>
        obtain rfl := Option.some.inj h₁
        cases unlinked with
        | true => exact .abandon none (by rw [hu]; rfl)
        | false =>
          exact .move (by rw [hu]; exact Upload.noConfusion) Upload.noConfusion
            (fun _ hch => nomatch hch) fun _ _ hdr => nomatch hdr
  | enqueued v =>
    dsimp only at h
    split at h <;> cases h
    next hu =>
      exact .move (by rw [hu]; exact Upload.noConfusion) Upload.noConfusion
        (fun _ hch => by rw [hu]; exact hch) fun _ _ hdr => by rw [hu]; exact hdr
  | stopUpload v =>
    dsimp only at h
    split at h <;> cases h
    all_goals
      next hu =>
        exact .move (by rw [hu]; exact Upload.noConfusion) Upload.noConfusion
          (fun _ hch => nomatch hch) fun _ _ hdr => nomatch hdr
  | _ => cases h

theorem deed_of_stepDrain {d : ℕ} {stage : Stage} {item : Item} {rest : List Item} {n : ℕ}
    (hd : c.world.drains d = .working stage item rest n)
    (h : stepDrain S c.world d stage item rest n e = some w) :
    Deed S c { c.log e with world := w } := by
  unfold stepDrain at h
  cases e with
  | readFile v =>
    dsimp only at h
    split at h <;> try cases h
    split at h <;> cases h
    · next hfile => exact .read (by rw [hd]; rfl) hfile
    · exact .leave rfl
  | drainAccepts v =>
    dsimp only at h
    split at h <;> cases h
    exact .deliver hd
  | readFails | drainRefuses | unlinkFails =>
    dsimp only at h
    split at h <;> cases h
    exact .leave rfl
  | markProcessed v now =>
    dsimp only at h
    split at h <;> cases h
    exact .update (fun _ => rfl) rfl
  | markFails v committed now =>
    dsimp only at h
    split at h <;> cases h
    cases committed with
    | true => exact .update (fun _ => rfl) rfl
    | false => exact .leave rfl
  | unlinkFile v =>
    dsimp only at h
    split at h <;> cases h
    exact .unlink (Drain.uploads_next _ _)
  | recordFailure v err now =>
    dsimp only at h
    split at h <;> cases h
    exact .update (fun _ => rfl) (Drain.uploads_next _ _)
  | stopDrain v =>
    cases h
    exact .leave rfl
  | _ => cases h

/-- **Every step is such a deed.** -/
theorem deed_of_step {c' : Traced} (h : step S c e = some c') : Deed S c c' := by
  obtain ⟨w, hw, rfl⟩ := Option.map_eq_some_iff.1 h
  unfold Outbox.step at hw
  split at hw
  · next u hparty => exact deed_of_stepUpload hparty hw
  · next d hparty =>
    split at hw
    · split at hw <;> cases hw
      exact .claim
    · next stage item rest n hd => exact deed_of_stepDrain hd hw
    · cases hw

end Inversion

/-! ### Nothing is mixed up -/

/-- Every hand that a chunk passes through holds the chunk that was given. -/
structure Faithful (S : Setting) (c : Traced) : Prop where
  base : Base S c.world
  written : Written S c.world
  idle : ∀ u, c.world.uploads u = .idle → c.given u = none
  given : ∀ u ch, chunk? (c.world.uploads u) = some ch → c.given u = some ch
  drawn : ∀ u ch id, drawn? (c.world.uploads u) = some (ch, id) → c.chunkOf id = some ch
  known : ∀ id ch, c.chunkOf id = some ch → id ∈ c.world.used ∧ ∃ u, c.given u = some ch
  row : ∀ id r, c.world.rows.find? id = some r → ∃ ch, c.chunkOf id = some ch ∧
    r.fixed = S.fixed ch id ∧
    ∀ p, c.world.files (S.stagedPath id ch.storageKey) = some p → p = ch.payload
  uploads : ∀ d item p, (c.world.drains d).uploads = some (item, p) →
    ∃ ch, c.chunkOf item.id = some ch ∧ p = ch.payload
  accepted : ∀ o ch, (o, ch) ∈ c.world.accepted → c.meant o = some ch

theorem faithful_init (S : Setting) : Faithful S .init where
  base := base_init S
  written _ _ _ h := nomatch h
  idle _ _ := rfl
  given _ _ h := nomatch h
  drawn _ _ _ h := nomatch h
  known _ _ h := nomatch h
  row _ _ h := nomatch h
  uploads _ _ _ h := nomatch h
  accepted _ _ h := nomatch h

section Steps

variable {S : Setting} {c c' : Traced}

/-- An id that has not been drawn has no chunk. -/
theorem Faithful.chunkOf_eq_none (h : Faithful S c) {id : ChunkId} (hid : id ∉ c.world.used) :
    c.chunkOf id = none :=
  Option.eq_none_iff_forall_ne_some.2 fun ch hch => hid (h.known id ch hch).1

/-- **The history is not rewritten.** -/
theorem Deed.mono (hd : Deed S c c') (h : Faithful S c) :
    (∀ u ch, c.given u = some ch → c'.given u = some ch) ∧
      ∀ id ch, c.chunkOf id = some ch → c'.chunkOf id = some ch := by
  have hgiven : ∀ {u : ℕ} {x : Option Chunk}, c.world.uploads u = .idle →
      ∀ v ch, c.given v = some ch → Function.update c.given u x v = some ch := by
    intro u x hu v ch hv
    rwa [Function.update_of_ne]
    rintro rfl
    cases (h.idle v hu).symm.trans hv
  have hchunk : ∀ {id : ChunkId} {x : Option Chunk}, id ∉ c.world.used →
      ∀ id' ch, c.chunkOf id' = some ch → Function.update c.chunkOf id x id' = some ch := by
    intro id x hid id' ch hch
    rwa [Function.update_of_ne]
    rintro rfl
    cases (h.chunkOf_eq_none hid).symm.trans hch
  cases hd with
  | call hu => exact ⟨hgiven hu, fun _ _ hch => hch⟩
  | callDraw hu hid => exact ⟨hgiven hu, hchunk hid⟩
  | draw _ hid => exact ⟨fun _ _ hv => hv, hchunk hid⟩
  | _ => exact ⟨fun _ _ hv => hv, fun _ _ hch => hch⟩

/-- What was meant stays meant. -/
theorem Deed.meant (hd : Deed S c c') (h : Faithful S c) {o : Origin} {ch : Chunk}
    (ho : c.meant o = some ch) : c'.meant o = some ch := by
  obtain ⟨hgiven, hchunk⟩ := hd.mono h
  cases o with
  | upload u => exact hgiven u ch ho
  | row id => exact hchunk id ch ho

/-- **At most one call moves**, and it holds the chunk that it was given. -/
theorem Deed.calls (hd : Deed S c c') (h : Faithful S c) :
    (c'.world.uploads = c.world.uploads ∧ c'.given = c.given) ∨
      ∃ u p, c'.world.uploads = Function.update c.world.uploads u p ∧ p ≠ .idle ∧
        (∀ v, v ≠ u → c'.given v = c.given v) ∧
        (∀ ch, chunk? p = some ch → c'.given u = some ch) ∧
        ∀ ch id, drawn? p = some (ch, id) → c'.chunkOf id = some ch := by
  cases hd with
  | @call u ch hu =>
    refine .inr ⟨u, _, rfl, Upload.noConfusion, fun v hv => Function.update_of_ne hv _ _,
      fun ch' hch => ?_, fun _ _ hdr => nomatch hdr⟩
    rw [← hch]
    exact Function.update_self ..
  | @callDraw u ch id hu hid =>
    refine .inr ⟨u, _, rfl, Upload.noConfusion, fun v hv => Function.update_of_ne hv _ _,
      fun ch' hch => ?_, fun ch' id' hdr => ?_⟩
    · rw [← hch]
      exact Function.update_self ..
    · obtain ⟨rfl, rfl⟩ := Prod.mk.inj (Option.some.inj hdr)
      exact Function.update_self ..
  | @draw u ch id hu hid =>
    have hgiven := h.given u ch (by rw [hu]; rfl)
    refine .inr ⟨u, _, rfl, Upload.noConfusion, fun _ _ => rfl, fun ch' hch => ?_,
      fun ch' id' hdr => ?_⟩
    · rw [← hch]
      exact hgiven
    · obtain ⟨rfl, rfl⟩ := Prod.mk.inj (Option.some.inj hdr)
      rw [← hgiven]
      exact Function.update_self ..
  | @stage u ch id hu =>
    refine .inr ⟨u, _, rfl, Upload.noConfusion, fun _ _ => rfl, fun ch' hch => ?_,
      fun ch' id' hdr => ?_⟩
    · exact h.given u ch' (by rw [hu]; exact hch)
    · exact h.drawn u ch' id' (by rw [hu]; exact hdr)
  | abandon _ _ =>
    exact .inr ⟨_, _, rfl, Upload.noConfusion, fun _ _ => rfl, (fun _ hch => nomatch hch),
      fun _ _ hdr => nomatch hdr⟩
  | @insert u ch id now w p hu h₁ hp =>
    refine .inr ⟨u, p, ?_, ?_, fun _ _ => rfl, fun ch' hch => ?_, fun ch' id' hdr => ?_⟩
    · show Function.update w.uploads u p = _
      rw [(World.files_insertRow h₁).2.1]
    · rcases hp with rfl | rfl <;> exact Upload.noConfusion
    · rcases hp with rfl | rfl
      · exact h.given u ch' (by rw [hu]; exact hch)
      · cases hch
    · rcases hp with rfl | rfl
      · exact h.drawn u ch' id' (by rw [hu]; exact hdr)
      · cases hdr
  | @insertDrop u ch id now w hu h₁ =>
    refine .inr ⟨u, .stopped, ?_, Upload.noConfusion, fun _ _ => rfl, (fun _ hch => nomatch hch),
      fun _ _ hdr => nomatch hdr⟩
    show Function.update w.uploads u .stopped = _
    rw [(World.files_insertRow h₁).2.1]
  | @accept u ch dest hu hdest =>
    refine .inr ⟨u, _, rfl, Upload.noConfusion, fun _ _ => rfl, fun ch' hch => ?_,
      fun ch' id hdr => ?_⟩
    · exact h.given u ch' (hu.trans hch)
    · cases dest with
      | outbox i => exact absurd rfl (hdest i)
      | primary | secondary => cases hdr
  | @move u p hu hp hchunk hdrawn =>
    exact .inr ⟨u, p, rfl, hp, fun _ _ => rfl, fun ch' hch => h.given u ch' (hchunk ch' hch),
      fun ch' id hdr => h.drawn u ch' id (hdrawn ch' id hdr)⟩
  | _ => exact .inl ⟨rfl, rfl⟩

/-- A call that has not begun has been given nothing. -/
theorem Faithful.idle_step (h : Faithful S c) (hd : Deed S c c') {v : ℕ}
    (hv : c'.world.uploads v = .idle) : c'.given v = none := by
  rcases hd.calls h with ⟨huploads, hgiven⟩ | ⟨u, p, huploads, hp, hgiven, -, -⟩
  · rw [huploads] at hv
    rw [hgiven]
    exact h.idle v hv
  · rw [huploads, Function.update_apply] at hv
    split_ifs at hv with huv
    · exact absurd hv hp
    · rw [hgiven v huv]
      exact h.idle v hv

/-- A call holds what it was given. -/
theorem Faithful.given_step (h : Faithful S c) (hd : Deed S c c') {v : ℕ} {ch : Chunk}
    (hv : chunk? (c'.world.uploads v) = some ch) : c'.given v = some ch := by
  rcases hd.calls h with ⟨huploads, hgiven⟩ | ⟨u, p, huploads, -, hgiven, hchunk, -⟩
  · rw [huploads] at hv
    rw [hgiven]
    exact h.given v ch hv
  · rw [huploads, Function.update_apply] at hv
    split_ifs at hv with huv
    · rw [huv]
      exact hchunk ch hv
    · rw [hgiven v huv]
      exact h.given v ch hv

/-- An id stands for the chunk for which it was drawn. -/
theorem Faithful.drawn_step (h : Faithful S c) (hd : Deed S c c') {v : ℕ} {ch : Chunk}
    {id : ChunkId} (hv : drawn? (c'.world.uploads v) = some (ch, id)) :
    c'.chunkOf id = some ch := by
  have hmono := (hd.mono h).2
  rcases hd.calls h with ⟨huploads, -⟩ | ⟨u, p, huploads, -, -, -, hdrawn⟩
  · rw [huploads] at hv
    exact hmono id ch (h.drawn v ch id hv)
  · rw [huploads, Function.update_apply] at hv
    split_ifs at hv with huv
    · exact hdrawn ch id hv
    · exact hmono id ch (h.drawn v ch id hv)

/-- The chunk of an id is one that a call was given. -/
theorem Faithful.known_step (h : Faithful S c) (hd : Deed S c c') {id : ChunkId} {ch : Chunk}
    (hch : c'.chunkOf id = some ch) : id ∈ c'.world.used ∧ ∃ u, c'.given u = some ch := by
  have hold : c.chunkOf id = some ch → ∃ u, c'.given u = some ch := fun hch =>
    (h.known id ch hch).2.imp fun u hu => (hd.mono h).1 u ch hu
  cases hd with
  | call _ => exact ⟨(h.known id ch hch).1, hold hch⟩
  | @callDraw u ch' id' hu hid =>
    by_cases hne : id = id'
    · subst hne
      have hch : Function.update c.chunkOf id (some ch') id = some ch := hch
      rw [Function.update_self] at hch
      exact ⟨List.mem_cons_self .., u, by rw [← hch]; exact Function.update_self ..⟩
    · have hch : Function.update c.chunkOf id' (some ch') id = some ch := hch
      rw [Function.update_of_ne hne] at hch
      exact ⟨List.mem_cons_of_mem _ (h.known id ch hch).1, hold hch⟩
  | @draw u ch' id' hu hid =>
    by_cases hne : id = id'
    · subst hne
      have hch : Function.update c.chunkOf id (c.given u) id = some ch := hch
      rw [Function.update_self] at hch
      exact ⟨List.mem_cons_self .., u, hch⟩
    · have hch : Function.update c.chunkOf id' (c.given u) id = some ch := hch
      rw [Function.update_of_ne hne] at hch
      exact ⟨List.mem_cons_of_mem _ (h.known id ch hch).1, hold hch⟩
  | insert _ h₁ _ =>
    refine ⟨?_, hold hch⟩
    rw [World.setUpload_used, (World.files_insertRow h₁).2.2.2.1]
    exact (h.known id ch hch).1
  | insertDrop _ h₁ =>
    refine ⟨?_, hold hch⟩
    rw [World.setUpload_used, World.setFile_used, (World.files_insertRow h₁).2.2.2.1]
    exact (h.known id ch hch).1
  | _ => exact ⟨(h.known id ch hch).1, hold hch⟩

/-- **A row stands for the chunk of its id**, and its file holds nothing else. -/
theorem Faithful.row_step (h : Faithful S c) (hd : Deed S c c') {id : ChunkId} {r : Row}
    (hr : c'.world.rows.find? id = some r) : ∃ ch, c'.chunkOf id = some ch ∧
      r.fixed = S.fixed ch id ∧
      ∀ p, c'.world.files (S.stagedPath id ch.storageKey) = some p → p = ch.payload := by
  have hmono := (hd.mono h).2
  -- a row of before, whose file is as it was or gone
  have hold : ∀ r₀, c.world.rows.find? id = some r₀ → r.fixed = r₀.fixed →
      (∀ key p, c'.world.files (S.stagedPath id key) = some p →
        c.world.files (S.stagedPath id key) = some p) →
      ∃ ch, c'.chunkOf id = some ch ∧ r.fixed = S.fixed ch id ∧
        ∀ p, c'.world.files (S.stagedPath id ch.storageKey) = some p → p = ch.payload := by
    intro r₀ hr₀ hfix hfiles
    obtain ⟨ch, hch, hfixed, hfile⟩ := h.row id r₀ hr₀
    exact ⟨ch, hmono id ch hch, hfix.trans hfixed, fun p hp => hfile p (hfiles _ p hp)⟩
  -- the file of another id
  have hother : ∀ {f : StagedPath → Option Bytes} {path : StagedPath} {content : Option Bytes},
      f = c.world.files → id ≠ path.chunkId → ∀ key p,
      Function.update f path content (S.stagedPath id key) = some p →
      c.world.files (S.stagedPath id key) = some p := by
    rintro f path content rfl hid key p hp
    rwa [update_files_of_ne hid] at hp
  -- a call that has no row yet is about another id
  have hdraft : ∀ {u : ℕ} {ch : Chunk} {id' : ChunkId} {r₀ : Row},
      (c.world.uploads u).draft = some (ch, id') → c.world.rows.find? id = some r₀ → id ≠ id' := by
    rintro u ch id' r₀ hu hr₀ rfl
    cases (h.base.draft u ch id hu).2.symm.trans hr₀
  have hupdate : ∀ {q : Row → Bool} {f : Row → Row} {hf : ∀ r, (f r).id = r.id},
      (∀ r, (f r).fixed = r.fixed) → (c.world.updateRows q f hf).rows.find? id = some r →
      c'.world.files = c.world.files →
      ∃ ch, c'.chunkOf id = some ch ∧ r.fixed = S.fixed ch id ∧
        ∀ p, c'.world.files (S.stagedPath id ch.storageKey) = some p → p = ch.payload := by
    intro q f hf hfix hfind hfiles
    obtain ⟨r₀, hr₀, hsame⟩ := updateRows_origin hfix hfind
    exact hold r₀ hr₀ hsame fun key p hp => hfiles ▸ hp
  cases hd with
  | stage hu =>
    have hr : c.world.rows.find? id = some r := hr
    exact hold r hr rfl (hother rfl (hdraft (by rw [hu]; rfl) hr))
  | abandon content hu =>
    have hr : c.world.rows.find? id = some r := hr
    exact hold r hr rfl (hother rfl (hdraft hu hr))
  | @insert u ch id' now w p hu h₁ hp =>
    obtain ⟨hfiles, -⟩ := World.files_insertRow h₁
    rw [World.setUpload_rows, World.find?_insertRow h₁] at hr
    split_ifs at hr with hid
    · obtain rfl := Option.some.inj hr
      obtain rfl : id' = id := hid
      refine ⟨ch, h.drawn u ch id' (by rw [hu]; rfl), rfl, fun p hp => ?_⟩
      rw [World.setUpload_files, hfiles, h.written u ch id' hu] at hp
      exact (Option.some.inj hp).symm
    · refine hold r hr rfl fun key p hp => ?_
      rwa [World.setUpload_files, hfiles] at hp
  | @insertDrop u ch id' now w hu h₁ =>
    obtain ⟨hfiles, -⟩ := World.files_insertRow h₁
    rw [World.setUpload_rows, World.setFile_rows, World.find?_insertRow h₁] at hr
    split_ifs at hr with hid
    · obtain rfl := Option.some.inj hr
      obtain rfl : id' = id := hid
      refine ⟨ch, h.drawn u ch id' (by rw [hu]; rfl), rfl, fun p hp => ?_⟩
      rw [World.setUpload_files, World.setFile_files, Function.update_self] at hp
      cases hp
    · refine hold r hr rfl fun key p hp => ?_
      rw [World.setUpload_files, World.setFile_files] at hp
      exact hother hfiles (hdraft (by rw [hu]; rfl) hr) key p hp
  | claim =>
    rw [claim_rows] at hr
    refine hupdate (fun _ => ?_) hr rfl
    rfl
  | update hfix _ =>
    rw [World.setDrain_rows] at hr
    exact hupdate hfix hr rfl
  | unlink _ =>
    refine hold r hr rfl fun key p hp => ?_
    rw [World.setDrain_files, World.setFile_files, Function.update_apply] at hp
    split_ifs at hp
    exact hp
  | _ => exact hold r hr rfl fun _ _ hp => hp

/-- The chunk of a row that a drain works on. -/
theorem Faithful.item (h : Faithful S c) {d : ℕ} {item : Item}
    (hi : item ∈ (c.world.drains d).items) : ∃ ch, c.chunkOf item.id = some ch ∧
      item.fixed = S.fixed ch item.id ∧
      ∀ p, c.world.files (S.stagedPath item.id ch.storageKey) = some p → p = ch.payload := by
  obtain ⟨r, hr, hfix⟩ := h.base.items d item hi
  obtain ⟨ch, hch, hfixed, hfile⟩ := h.row item.id r hr
  exact ⟨ch, hch, hfix.symm.trans hfixed, hfile⟩

/-- **A drain uploads what was given**, whatever it has read. -/
theorem Faithful.uploads_step (h : Faithful S c) (hd : Deed S c c') {d : ℕ} {item : Item}
    {p : Bytes} (hp : (c'.world.drains d).uploads = some (item, p)) :
    ∃ ch, c'.chunkOf item.id = some ch ∧ p = ch.payload := by
  have hold : (c.world.drains d).uploads = some (item, p) →
      ∃ ch, c'.chunkOf item.id = some ch ∧ p = ch.payload := fun hp =>
    (h.uploads d item p hp).imp fun ch hch => ⟨(hd.mono h).2 _ ch hch.1, hch.2⟩
  have hset : ∀ {v : ℕ} {q : Drain}, q.uploads = none →
      (Function.update c.world.drains v q d).uploads = some (item, p) →
      ∃ ch, c'.chunkOf item.id = some ch ∧ p = ch.payload := by
    intro v q hq hp
    rw [Function.update_apply] at hp
    split_ifs at hp
    · cases hq.symm.trans hp
    · exact hold hp
  cases hd with
  | insert _ h₁ _ =>
    rw [World.setUpload_drains, (World.files_insertRow h₁).2.2.1] at hp
    exact hold hp
  | insertDrop _ h₁ =>
    rw [World.setUpload_drains, World.setFile_drains, (World.files_insertRow h₁).2.2.1] at hp
    exact hold hp
  | claim => exact hset (Drain.uploads_next _ _) hp
  | @read v item' rest n payload hitems hfile =>
    rw [World.setDrain_drains, Function.update_apply] at hp
    split_ifs at hp with hv
    · obtain ⟨rfl, rfl⟩ := Prod.mk.inj (Option.some.inj hp)
      obtain ⟨ch, hch, hfixed, hcontent⟩ := h.item (hitems ▸ List.mem_cons_self ..)
      have hpath : item'.path = S.stagedPath item'.id ch.storageKey :=
        congrArg (fun t => t.2.2) hfixed
      exact ⟨ch, hch, hcontent payload (hpath ▸ hfile)⟩
    · exact hold hp
  | leave hq => exact hset hq hp
  | deliver _ => exact hset rfl hp
  | update _ hq => exact hset hq hp
  | unlink hq => exact hset hq hp
  | _ => exact hold hp

/-- **What is accepted was meant.** -/
theorem Faithful.accepted_step (h : Faithful S c) (hd : Deed S c c') {o : Origin} {ch : Chunk}
    (ho : (o, ch) ∈ c'.world.accepted) : c'.meant o = some ch := by
  have hold : (o, ch) ∈ c.world.accepted → c'.meant o = some ch := fun ho =>
    hd.meant h (h.accepted o ch ho)
  cases hd with
  | insert _ h₁ _ =>
    rw [World.setUpload_accepted, (World.files_insertRow h₁).2.2.2.2] at ho
    exact hold ho
  | insertDrop _ h₁ =>
    rw [World.setUpload_accepted, World.setFile_accepted, (World.files_insertRow h₁).2.2.2.2] at ho
    exact hold ho
  | @accept u ch' dest hu _ =>
    rcases List.mem_cons.1 ho with hnew | ho
    · obtain ⟨rfl, rfl⟩ := Prod.mk.inj hnew
      exact h.given u ch hu
    · exact hold ho
  | @deliver d item rest n payload hdrain =>
    rcases List.mem_cons.1 ho with hnew | ho
    · obtain ⟨rfl, rfl⟩ := Prod.mk.inj hnew
      obtain ⟨ch, hch, hpayload⟩ := h.uploads d item payload (by rw [hdrain]; rfl)
      have hitem : item ∈ (c.world.drains d).items := by
        rw [hdrain]
        exact List.mem_cons_self ..
      obtain ⟨ch', hch', hfixed, -⟩ := h.item hitem
      obtain rfl := Option.some.inj (hch.symm.trans hch')
      have htenant : item.tenantId = ch.tenantId := congrArg (fun t => t.1) hfixed
      have hkey : item.storageKey = ch.storageKey := congrArg (fun t => t.2.1) hfixed
      rw [htenant, hkey, hpayload]
      exact hch
    · exact hold ho
  | _ => exact hold ho

/-- **One step.** -/
theorem Faithful.step {e : Event} (h : Faithful S c) (hstep : step S c e = some c') :
    Faithful S c' := by
  have hd := deed_of_step hstep
  obtain ⟨w, hw, rfl⟩ := Option.map_eq_some_iff.1 hstep
  have heffect := step_effect hw
  exact
    { base := h.base.step heffect
      written := h.written.step h.base heffect
      idle := fun _ hu => h.idle_step hd hu
      given := fun _ _ hu => h.given_step hd hu
      drawn := fun _ _ _ hu => h.drawn_step hd hu
      known := fun _ _ hch => h.known_step hd hch
      row := fun _ _ hr => h.row_step hd hr
      uploads := fun _ _ _ hp => h.uploads_step hd hp
      accepted := fun _ _ ho => h.accepted_step hd ho }

end Steps

/-- **Nothing else is delivered.**  In every state that uploads and drains reach, whatever fails
and whoever crashes: what an uploader has accepted for a call is the chunk that the call was
given; what it has accepted for a row, at any attempt of any drain, is the one chunk for which
the id of the row was drawn, and a call was given it; and that is the chunk of the caller to whom
the id was returned. -/
theorem given_of_accepted (S : Setting) {c : Traced} (h : Reachable (step S) .init c) :
    (∀ u ch, (Origin.upload u, ch) ∈ c.world.accepted → c.given u = some ch) ∧
    (∀ id ch, (Origin.row id, ch) ∈ c.world.accepted →
      c.chunkOf id = some ch ∧ ∃ u, c.given u = some ch) ∧
    ∀ u ch id, c.world.uploads u = .returned ch (.outbox id) →
      c.given u = some ch ∧ c.chunkOf id = some ch := by
  have hc : Faithful S c := h.invariant (faithful_init S) fun _ _ _ hs _ hstep => hs.step hstep
  refine ⟨fun u ch hu => hc.accepted _ ch hu, fun id ch hid => ?_, fun u ch id hu => ?_⟩
  · have hch : c.chunkOf id = some ch := hc.accepted _ ch hid
    exact ⟨hch, (hc.known id ch hch).2⟩
  · exact ⟨hc.given u ch (by rw [hu]; rfl), hc.drawn u ch id (by rw [hu]; rfl)⟩

/-- A chunk that both clouds refuse is delivered by a drain, as it was given. -/
theorem given_of_accepted_degraded : ∃ c : Traced,
    (Origin.row 7, sampleChunk) ∈ c.world.accepted ∧ c.chunkOf 7 = some sampleChunk := by
  have hrun : (exec (step plainSetting) .init
      (degraded ++ [.claim 0 10 2000, .readFile 0, .drainAccepts 0])).map
        (fun c => c.world.accepted) = some [(.row 7, sampleChunk)] := by
    decide +kernel
  obtain ⟨c, hc, hacc⟩ := Option.map_eq_some_iff.1 hrun
  have hmem : (Origin.row 7, sampleChunk) ∈ c.world.accepted := by
    rw [hacc]
    exact List.mem_singleton_self _
  exact ⟨c, hmem, ((given_of_accepted plainSetting (reachable_of_exec hc)).2.1 7 _ hmem).1⟩

end Fidelity
end Boveda

/-
# The keys and nonces of a run

AES-GCM must never see a nonce twice under one key.  The program encrypts in three
places: `compress_encrypt_upload` the chunks of a snapshot under its DEK, with a counter
behind a random prefix; `generate_dek_for_snapshot` the DEK under the KEK, with a random
nonce; and `rotate_kek_in_database` the DEK again, under the new KEK and with the nonce
that `generate_dek_for_snapshot` returns.  The last has already been used by the call
that returns it.

A traced computation records what it draws, derives and encrypts, also when it raises
(`Traced`).  As long as `os.urandom` repeats nothing and gives no KEK, a run repeats a
key with its nonce exactly when one of its rotations re-wraps a DEK
(`encryptsOnce_iff_rewrapsNothing`).
-/

import Boveda.Crypto.Rotation
import Boveda.Pipeline.Seal

namespace Boveda
namespace Nonces

open Lib Crypto
open Rotation (World BackupPc masterSalt rewrap identity_rewrap setMasterSalt)
open Catalog (Snapshot updateSnapshots)
open Pipeline (Primitives Sealed)

/-! ### Traced computations -/

/-- The values of `os.urandom`, the salts apart, the KEKs of `derive_kek`, and the key
and the nonce of every `AESGCM.encrypt`; the latest first. -/
structure Trace where
  drawn : List Bytes
  derived : List Bytes
  encrypted : List (Bytes × Bytes)

/-- A computation that may raise, with its trace. -/
abbrev Traced := OptionT (StateM Trace)

/-- The result, `none` when the computation raises, and the trace after it. -/
def Traced.on {α : Type} (m : Traced α) (tr : Trace) : Option α × Trace := m.run.run tr

/-- A computation that leaves no trace. -/
def untraced {α : Type} (result : Option α) : Traced α := OptionT.mk (pure result)

/-- `os.urandom`. -/
def urandom (value : Bytes) : Traced Bytes := do
  modify fun tr => { tr with drawn := value :: tr.drawn }
  return value

/-- `derive_kek`, which is Argon2id. -/
def deriveKek (argon2id : String → String → Bytes) (passphrase salt : String) : Traced Bytes := do
  let kek := argon2id passphrase salt
  modify fun tr => { tr with derived := kek :: tr.derived }
  return kek

/-- `AESGCM(key).encrypt(nonce, data, aad)`. -/
def encrypt (A : Aead) (key nonce data aad : Bytes) : Traced Bytes := do
  modify fun tr => { tr with encrypted := (key, nonce) :: tr.encrypted }
  return A.encrypt key nonce data aad

/-- `generate_dek_for_snapshot`. -/
def generateDekForSnapshot (A : Aead) (kek : Bytes) (snapshotId : String)
    (dekRaw dekNonce : Bytes) : Traced WrappedDek := do
  let dekRaw ← urandom dekRaw
  let dekNonce ← urandom dekNonce
  let ciphertext ← encrypt A kek dekNonce dekRaw (utf8 snapshotId)
  return ⟨dekRaw, withoutTag ciphertext, dekNonce, tagOf ciphertext⟩

/-- One round of the loop of `rotate_kek_in_database`.  `rewrap` puts the ciphertext in
the row. -/
def rotateSnapshot (A : Aead) (oldKek newKek : Bytes) (draws : String → Bytes × Bytes)
    (c : Catalog) (snap : Snapshot) : Traced Catalog := do
  let rawDek ← untraced (unwrapDek A oldKek snap.encryptedDek snap.dekNonce snap.dekTag snap.id)
  let d ← generateDekForSnapshot A newKek snap.id (draws snap.id).1 (draws snap.id).2
  let newNonce := d.dekNonce
  let _ ← encrypt A newKek newNonce rawDek (utf8 snap.id)
  return updateSnapshots (fun s => s.id = snap.id) (rewrap A newKek newNonce rawDek)
    (identity_rewrap A newKek newNonce rawDek) c

/-- The snapshots that a rotation selects. -/
def selected (c : Catalog) : List Snapshot :=
  c.snapshots.rows.filter fun s => s.estado = .completed ∨ s.estado = .expired

/-- `rotate_kek_in_database`. -/
def rotateKekInDatabase (A : Aead) (oldKek newKek : Bytes) (newSalt : Option String)
    (draws : String → Bytes × Bytes) (c : Catalog) : Traced (Catalog × ℕ) := do
  let snapshots := selected c
  let c ← snapshots.foldlM (rotateSnapshot A oldKek newKek draws) c
  return (setMasterSalt newSalt c, snapshots.length)

/-- The body of the loop of `compress_encrypt_upload`, up to `chunk_hash`. -/
def sealChunk (P : Primitives) (dek : Bytes) (snapshotId : String) (chunkSeq : ℕ)
    (nonceGen : NonceGenerator) (chunk : Bytes) : Traced (Sealed × NonceGenerator) := do
  let compressed := P.compress chunk
  let (nonce, nonceGen) ← untraced nonceGen.next
  let header ← untraced (createChunkHeader chunkSeq nonce (compressed.length + 16))
  let aad := createAad header snapshotId
  let ciphertext ← encrypt P.aead dek nonce compressed aad
  let finalPayload := header ++ ciphertext
  return (⟨chunkSeq, finalPayload, P.sha256 finalPayload⟩, nonceGen)

section

variable {A : Aead} {tr : Trace} {kek oldKek newKek dekRaw dekNonce : Bytes}
  {snapshotId : String} {draws : String → Bytes × Bytes} {c : Catalog} {snap : Snapshot}

@[simp] theorem on_urandom (value : Bytes) :
    (urandom value).on tr = (some value, { tr with drawn := value :: tr.drawn }) := rfl

@[simp] theorem on_deriveKek (argon2id : String → String → Bytes) (passphrase salt : String) :
    (deriveKek argon2id passphrase salt).on tr = (some (argon2id passphrase salt),
      { tr with derived := argon2id passphrase salt :: tr.derived }) := rfl

/-- The traced computation is the function, and encrypts once. -/
@[simp] theorem on_generateDekForSnapshot :
    (generateDekForSnapshot A kek snapshotId dekRaw dekNonce).on tr =
      (some (Crypto.generateDekForSnapshot A kek snapshotId dekRaw dekNonce),
        { tr with
          drawn := dekNonce :: dekRaw :: tr.drawn
          encrypted := (kek, dekNonce) :: tr.encrypted }) := rfl

/-- A DEK that does not unwrap. -/
theorem on_rotateSnapshot_none
    (h : unwrapDek A oldKek snap.encryptedDek snap.dekNonce snap.dekTag snap.id = none) :
    (rotateSnapshot A oldKek newKek draws c snap).on tr = (none, tr) := by
  rw [rotateSnapshot, h]
  rfl

/-- **A round that re-wraps a DEK** gives one nonce to two encryptions. -/
theorem on_rotateSnapshot_some {rawDek : Bytes}
    (h : unwrapDek A oldKek snap.encryptedDek snap.dekNonce snap.dekTag snap.id = some rawDek) :
    (rotateSnapshot A oldKek newKek draws c snap).on tr =
      (Rotation.rotateSnapshot A oldKek newKek draws c snap,
        { tr with
          drawn := (draws snap.id).2 :: (draws snap.id).1 :: tr.drawn
          encrypted := (newKek, (draws snap.id).2) :: (newKek, (draws snap.id).2) ::
            tr.encrypted }) := by
  rw [rotateSnapshot, Rotation.rotateSnapshot, h]
  rfl

theorem on_bind {α β : Type} (m : Traced α) (f : α → Traced β) :
    (m >>= f).on tr = match m.on tr with
      | (none, tr') => (none, tr')
      | (some a, tr') => (f a).on tr' := by
  simp only [Traced.on, OptionT.run_bind, Option.elimM, StateT.run_bind]
  generalize m.run.run tr = r
  rcases r with ⟨_ | a, tr'⟩ <;> rfl

/-- The loop of a rotation does what it does untraced, and a trace only grows. -/
theorem on_foldlM_rotateSnapshot (ls : List Snapshot) :
    ((ls.foldlM (rotateSnapshot A oldKek newKek draws) c).on tr).1 =
        ls.foldlM (Rotation.rotateSnapshot A oldKek newKek draws) c ∧
      tr.encrypted.IsSuffix
        ((ls.foldlM (rotateSnapshot A oldKek newKek draws) c).on tr).2.encrypted := by
  induction ls generalizing c tr with
  | nil => exact ⟨rfl, List.suffix_rfl⟩
  | cons snap ls ih =>
    rw [List.foldlM_cons, List.foldlM_cons, on_bind]
    cases hun : unwrapDek A oldKek snap.encryptedDek snap.dekNonce snap.dekTag snap.id with
    | none =>
      rw [on_rotateSnapshot_none hun, Rotation.rotateSnapshot, hun]
      exact ⟨rfl, List.suffix_rfl⟩
    | some rawDek =>
      rw [on_rotateSnapshot_some hun, Rotation.rotateSnapshot, hun]
      refine ⟨ih.1, List.IsSuffix.trans ?_ ih.2⟩
      exact (List.suffix_cons ..).trans (List.suffix_cons ..)

end

/-- **The traced sealing is the sealing**, and encrypts at most once, with the next
nonce of the generator. -/
theorem on_sealChunk (P : Primitives) (dek : Bytes) (snapshotId : String) (chunkSeq : ℕ)
    (nonceGen : NonceGenerator) (chunk : Bytes) (tr : Trace) :
    (sealChunk P dek snapshotId chunkSeq nonceGen chunk).on tr = (none, tr) ∨
      ∃ block nonce nonceGen', nonceGen.next = some (nonce, nonceGen') ∧
        Pipeline.sealChunk P dek snapshotId chunkSeq nonceGen chunk = some (block, nonceGen') ∧
        (sealChunk P dek snapshotId chunkSeq nonceGen chunk).on tr = (some (block, nonceGen'),
          { tr with encrypted := (dek, nonce) :: tr.encrypted }) := by
  unfold sealChunk Pipeline.sealChunk
  cases hnext : nonceGen.next with
  | none => exact .inl rfl
  | some r =>
    obtain ⟨nonce, nonceGen'⟩ := r
    cases hheader : createChunkHeader chunkSeq nonce ((P.compress chunk).length + 16) with
    | none =>
      refine .inl ?_
      rw [on_bind]
      show (untraced (createChunkHeader chunkSeq nonce _) >>= _).on tr = _
      rw [on_bind, hheader]
      rfl
    | some header =>
      let ciphertext := P.aead.encrypt dek nonce (P.compress chunk) (createAad header snapshotId)
      refine .inr ⟨⟨chunkSeq, header ++ ciphertext, P.sha256 (header ++ ciphertext)⟩, nonce,
        nonceGen', rfl, ?_, ?_⟩
      · show Option.bind (createChunkHeader chunkSeq nonce _) _ = _
        rw [hheader]
        rfl
      · rw [on_bind]
        show (untraced (createChunkHeader chunkSeq nonce _) >>= _).on tr = _
        rw [on_bind, hheader]
        rfl

/-! ### Runs -/

/-- Where the `compress_encrypt_upload` of a backup stands. -/
inductive Stage
  | waiting
  | writing (chunkSeq : ℕ) (nonceGen : NonceGenerator)
  | ended

/-- A backup that has its DEK. -/
structure Writer where
  dek : Bytes
  snapshotId : String
  stage : Stage

/-- The catalog and its commands, the writer of each backup, and the trace. -/
structure State where
  world : World
  writers : ℕ → Option Writer
  trace : Trace

/-- After `init`. -/
def State.init (passphrase salt : String) : State where
  world := World.init passphrase salt
  writers _ := none
  trace := ⟨[], [], []⟩

/-- A step of the commands, the start of the writer of a backup, or one of its chunks. -/
inductive Event
  | command (e : Rotation.Event)
  | startWriter (i : ℕ) (sessionPrefix : { bs : Bytes // bs.length = 4 })
  | sealNext (i : ℕ) (chunk : Bytes)

section

variable (P : Primitives) (argon2id : String → String → Bytes)

/-- What a step of the commands draws, derives and encrypts. -/
def commandTrace (w : World) : Rotation.Event → Traced Unit
  | .readSalt i passphrase =>
    match w.backups i, masterSalt w.cat with
    | .idle, some salt => discard (deriveKek argon2id passphrase salt)
    | _, _ => pure ()
  | .insertRunning i s dekRaw dekNonce =>
    match w.backups i with
    | .derived kek => discard (generateDekForSnapshot P.aead kek s.id dekRaw dekNonce)
    | _ => pure ()
  | .rotate oldPassphrase newPassphrase newSalt draws =>
    match masterSalt w.cat with
    | none => pure ()
    | some salt => do
      let oldKek ← deriveKek argon2id oldPassphrase salt
      let newKek ← deriveKek argon2id newPassphrase newSalt
      discard (rotateKekInDatabase P.aead oldKek newKek (some newSalt) draws w.cat)
  | .complete _ | .fail _ | .expire _ => pure ()

/-- A backup whose snapshot is in the catalog has its DEK. -/
def commandWriters (writers : ℕ → Option Writer) (w' : World) :
    Rotation.Event → ℕ → Option Writer
  | .insertRunning i _ dekRaw _ =>
    match w'.backups i with
    | .running id _ => Function.update writers i (some ⟨dekRaw, id, .waiting⟩)
    | _ => writers
  | _ => writers

/-- One step, `none` when it is not the turn of its backup. -/
def step (s : State) : Event → Option State
  | .command e => (Rotation.step P.aead argon2id s.world e).map fun world =>
    { world
      writers := commandWriters s.writers world e
      trace := ((commandTrace P argon2id s.world e).on s.trace).2 }
  | .startWriter i sessionPrefix =>
    match s.writers i with
    | some ⟨dek, id, .waiting⟩ => some { s with
        writers := Function.update s.writers i
          (some ⟨dek, id, .writing 0 ⟨sessionPrefix.1, 0, sessionPrefix.2⟩⟩)
        trace := ((urandom sessionPrefix.1).on s.trace).2 }
    | _ => none
  | .sealNext i chunk =>
    match s.writers i with
    | some ⟨dek, id, .writing chunkSeq nonceGen⟩ =>
      let r := (sealChunk P dek id chunkSeq nonceGen chunk).on s.trace
      let stage := match r.1 with
        | none => .ended
        | some (_, nonceGen) => .writing (chunkSeq + 1) nonceGen
      some { s with
        writers := Function.update s.writers i (some ⟨dek, id, stage⟩)
        trace := r.2 }
    | _ => none

end

/-- What is assumed of `os.urandom` and Argon2id: the former repeats no value, and the
latter gives none of its values. -/
structure Ideal (s : State) : Prop where
  urandom : s.trace.drawn.Nodup
  argon2id : ∀ kek ∈ s.trace.derived, kek ∉ s.trace.drawn

instance : DecidablePred Ideal := fun s =>
  decidable_of_iff (s.trace.drawn.Nodup ∧ ∀ kek ∈ s.trace.derived, kek ∉ s.trace.drawn)
    ⟨fun h => ⟨h.1, h.2⟩, fun h => ⟨h.urandom, h.argon2id⟩⟩

/-- No key and nonce have been given to `AESGCM.encrypt` twice. -/
def EncryptsOnce (s : State) : Prop := s.trace.encrypted.Nodup

instance : DecidablePred EncryptsOnce := fun s =>
  inferInstanceAs (Decidable s.trace.encrypted.Nodup)

/-- A rotation re-wraps nothing: it selects no snapshot, or the DEK of the first one does not
unwrap under the old KEK. -/
def RewrapsNothing (P : Primitives) (argon2id : String → String → Bytes) (s : State) :
    Event → Prop
  | .command (.rotate oldPassphrase _ _ _) =>
    ∀ salt ∈ masterSalt s.world.cat, ∀ snap ∈ (selected s.world.cat).head?,
      unwrapDek P.aead (argon2id oldPassphrase salt) snap.encryptedDek snap.dekNonce snap.dekTag
        snap.id = none
  | _ => True

/-! ### Every run -/

/-- A nonce that a writer may have used. -/
def Stage.Used : Stage → Bytes → Prop
  | .waiting, _ => False
  | .writing _ nonceGen, nonce =>
    ∃ counter < nonceGen.counter, nonce = nonceGen.sessionPrefix ++ BigEndian.encode 8 counter
  | .ended, _ => True

/-- What a run keeps as long as its rotations re-wrap nothing.  A key that has encrypted is
a KEK, and then the nonce has been drawn, or the DEK of one writer, which has passed the
nonce. -/
structure Inv (s : State) : Prop where
  nodup : s.trace.encrypted.Nodup
  derived : ∀ i kek, s.world.backups i = .derived kek → kek ∈ s.trace.derived
  drawn : ∀ i writer, s.writers i = some writer → writer.dek ∈ s.trace.drawn
  single : ∀ i j writer writer', s.writers i = some writer → s.writers j = some writer' →
    writer.dek = writer'.dek → i = j
  known : ∀ p ∈ s.trace.encrypted, p.1 ∈ s.trace.derived ∧ p.2 ∈ s.trace.drawn ∨
    p.1 ∈ s.trace.drawn ∧ ∀ i writer, s.writers i = some writer → writer.dek = p.1 →
      writer.stage.Used p.2

variable {P : Primitives} {argon2id : String → String → Bytes} {s : State} {world : World}
  {drawn derived : List Bytes}

theorem inv_init (passphrase salt : String) : Inv (State.init passphrase salt) where
  nodup := List.nodup_nil
  derived _ _ h := BackupPc.noConfusion h
  drawn _ _ h := by cases h
  single _ _ _ _ h := by cases h
  known _ h := by cases h

/-- Draws and derivations without an encryption. -/
theorem Inv.mono (hs : Inv s) (hdrawn : s.trace.drawn ⊆ drawn)
    (hderived : s.trace.derived ⊆ derived)
    (hworld : ∀ i kek, world.backups i = .derived kek → kek ∈ derived) :
    Inv { s with world, trace := { s.trace with drawn, derived } } where
  nodup := hs.nodup
  derived := hworld
  drawn i writer h := hdrawn (hs.drawn i writer h)
  single := hs.single
  known p hp := (hs.known p hp).imp (And.imp (@hderived _) (@hdrawn _)) (And.imp_left (@hdrawn _))

/-- An encryption under a KEK, with a nonce just drawn. -/
theorem Inv.encryptKek (hs : Inv s) (hideal : ∀ kek ∈ s.trace.derived, kek ∉ s.trace.drawn)
    {kek dekNonce : Bytes} (hkek : kek ∈ s.trace.derived) (hfresh : dekNonce ∉ s.trace.drawn) :
    Inv { s with trace := { s.trace with
      drawn := dekNonce :: s.trace.drawn
      encrypted := (kek, dekNonce) :: s.trace.encrypted } } := by
  refine ⟨List.nodup_cons.2 ⟨fun hmem => ?_, hs.nodup⟩, hs.derived,
    fun i writer hi => List.mem_cons_of_mem _ (hs.drawn i writer hi), hs.single, fun p hp => ?_⟩
  · rcases hs.known _ hmem with ⟨-, hnonce⟩ | ⟨hkey, -⟩
    · exact hfresh hnonce
    · exact hideal kek hkek hkey
  · rcases List.mem_cons.1 hp with rfl | hp
    · exact .inl ⟨hkek, List.mem_cons_self ..⟩
    · exact (hs.known p hp).imp (And.imp_right (List.mem_cons_of_mem _))
        (And.imp_left (List.mem_cons_of_mem _))

/-- A new DEK. -/
theorem Inv.newWriter (hs : Inv s) {dekRaw : Bytes} (hfresh : dekRaw ∉ s.trace.drawn) (i : ℕ)
    (id : String) : Inv { s with
      writers := Function.update s.writers i (some ⟨dekRaw, id, .waiting⟩)
      trace := { s.trace with drawn := dekRaw :: s.trace.drawn } } := by
  have hwriter : ∀ j writer,
      Function.update s.writers i (some ⟨dekRaw, id, .waiting⟩) j = some writer →
      j = i ∧ writer.dek = dekRaw ∨ s.writers j = some writer := by
    intro j writer hj
    by_cases hji : j = i
    · subst hji
      rw [Function.update_self] at hj
      obtain rfl := Option.some.inj hj
      exact .inl ⟨rfl, rfl⟩
    · rw [Function.update_of_ne hji] at hj
      exact .inr hj
  refine ⟨hs.nodup, hs.derived, fun j writer hj => ?_, fun j k writer writer' hj hk hdek => ?_,
    fun p hp => ?_⟩
  · rcases hwriter j writer hj with ⟨-, hdek⟩ | hj
    · exact hdek ▸ List.mem_cons_self ..
    · exact List.mem_cons_of_mem _ (hs.drawn j writer hj)
  · rcases hwriter j writer hj with ⟨hji, hj'⟩ | hj' <;>
      rcases hwriter k writer' hk with ⟨hki, hk'⟩ | hk'
    · exact hji.trans hki.symm
    · exact absurd (hs.drawn k writer' hk') (hdek ▸ hj' ▸ hfresh)
    · exact absurd (hs.drawn j writer hj') (hdek ▸ hk' ▸ hfresh)
    · exact hs.single j k writer writer' hj' hk' hdek
  · refine (hs.known p hp).imp (And.imp_right (List.mem_cons_of_mem _)) ?_
    rintro ⟨hkey, hused⟩
    refine ⟨List.mem_cons_of_mem _ hkey, fun j writer hj hdek => ?_⟩
    rcases hwriter j writer hj with ⟨-, hnew⟩ | hj
    · exact absurd (hdek ▸ hkey) (hnew ▸ hfresh)
    · exact hused j writer hj hdek

/-- A writer goes on. -/
theorem Inv.setStage (hs : Inv s) {i : ℕ} {dek : Bytes} {id : String} {stage stage' : Stage}
    (hi : s.writers i = some ⟨dek, id, stage⟩)
    (hstage : ∀ nonce, stage.Used nonce → stage'.Used nonce) :
    Inv { s with writers := Function.update s.writers i (some ⟨dek, id, stage'⟩) } := by
  have hwriter : ∀ j writer, Function.update s.writers i (some ⟨dek, id, stage'⟩) j = some writer →
      ∃ before, s.writers j = some before ∧ before.dek = writer.dek ∧
        ∀ nonce, before.stage.Used nonce → writer.stage.Used nonce := by
    intro j writer hj
    by_cases hji : j = i
    · subst hji
      rw [Function.update_self] at hj
      obtain rfl := Option.some.inj hj
      exact ⟨_, hi, rfl, hstage⟩
    · rw [Function.update_of_ne hji] at hj
      exact ⟨writer, hj, rfl, fun _ hused => hused⟩
  refine ⟨hs.nodup, hs.derived, fun j writer hj => ?_, fun j k writer writer' hj hk hdek => ?_,
    fun p hp => (hs.known p hp).imp_right ?_⟩
  · obtain ⟨before, hbefore, heq, -⟩ := hwriter j writer hj
    exact heq ▸ hs.drawn j before hbefore
  · obtain ⟨before, hbefore, heq, -⟩ := hwriter j writer hj
    obtain ⟨before', hbefore', heq', -⟩ := hwriter k writer' hk
    exact hs.single j k before before' hbefore hbefore' (by rw [heq, heq', hdek])
  · rintro ⟨hkey, hused⟩
    refine ⟨hkey, fun j writer hj hdek => ?_⟩
    obtain ⟨before, hbefore, heq, hstage⟩ := hwriter j writer hj
    exact hstage _ (hused j before hbefore (heq.trans hdek))

/-- An encryption under the DEK of a writer, with a nonce that it has not used. -/
theorem Inv.encryptDek (hs : Inv s) (hideal : ∀ kek ∈ s.trace.derived, kek ∉ s.trace.drawn) {i : ℕ}
    {dek nonce : Bytes} {id : String} {stage stage' : Stage}
    (hi : s.writers i = some ⟨dek, id, stage⟩)
    (hstage : ∀ nonce, stage.Used nonce → stage'.Used nonce) (hnew : ¬ stage.Used nonce)
    (hused : stage'.Used nonce) : Inv { s with
      writers := Function.update s.writers i (some ⟨dek, id, stage'⟩)
      trace := { s.trace with encrypted := (dek, nonce) :: s.trace.encrypted } } := by
  have hdrawn : dek ∈ s.trace.drawn := hs.drawn i _ hi
  have hs' := hs.setStage hi hstage
  refine ⟨List.nodup_cons.2 ⟨fun hmem => ?_, hs.nodup⟩, hs'.derived, hs'.drawn, hs'.single,
    fun p hp => ?_⟩
  · rcases hs.known _ hmem with ⟨hkey, -⟩ | ⟨-, hold⟩
    · exact hideal dek hkey hdrawn
    · exact hnew (hold i _ hi rfl)
  · rcases List.mem_cons.1 hp with rfl | hp
    · refine .inr ⟨hdrawn, fun j writer hj hdek => ?_⟩
      have hi' : Function.update s.writers i (some ⟨dek, id, stage'⟩) i =
          some ⟨dek, id, stage'⟩ := Function.update_self ..
      obtain rfl := hs'.single j i writer _ hj hi' hdek
      obtain rfl := Option.some.inj (hi'.symm.trans hj)
      exact hused
    · exact hs'.known p hp

/-- The next nonce of a generator is one that it has not given. -/
theorem not_used_next {chunkSeq : ℕ} {nonceGen nonceGen' : NonceGenerator} {nonce : Bytes}
    (h : nonceGen.next = some (nonce, nonceGen')) :
    (∀ nonce', (Stage.writing chunkSeq nonceGen).Used nonce' →
        (Stage.writing (chunkSeq + 1) nonceGen').Used nonce') ∧
      ¬ (Stage.writing chunkSeq nonceGen).Used nonce ∧
      (Stage.writing (chunkSeq + 1) nonceGen').Used nonce := by
  obtain ⟨hlt, rfl, rfl⟩ := NonceGenerator.next_some h
  refine ⟨?_, ?_, nonceGen.counter, Nat.lt_succ_self _, rfl⟩
  · rintro _ ⟨counter, hcounter, rfl⟩
    exact ⟨counter, Nat.lt_succ_of_lt hcounter, rfl⟩
  · rintro ⟨counter, hcounter, heq⟩
    have hcode := congrArg BigEndian.decode (List.append_cancel_left heq)
    rw [BigEndian.decode_encode (show nonceGen.counter < 256 ^ 8 by omega),
      BigEndian.decode_encode (show counter < 256 ^ 8 by omega)] at hcode
    omega

theorem on_discard {α : Type} (m : Traced α) (tr : Trace) :
    ((discard m).on tr).2 = (m.on tr).2 := by
  show ((m >>= fun _ => pure ()).on tr).2 = _
  rw [on_bind]
  rcases m.on tr with ⟨_ | a, tr'⟩ <;> rfl

/-- The trace of a rotation is that of its loop. -/
theorem commandTrace_rotate {w : World} {oldPassphrase newPassphrase newSalt salt : String}
    {draws : String → Bytes × Bytes} (hsalt : masterSalt w.cat = some salt) (tr : Trace) :
    ((commandTrace P argon2id w (.rotate oldPassphrase newPassphrase newSalt draws)).on tr).2 =
      (((selected w.cat).foldlM (rotateSnapshot P.aead (argon2id oldPassphrase salt)
        (argon2id newPassphrase newSalt) draws) w.cat).on { tr with
          derived := argon2id newPassphrase newSalt :: argon2id oldPassphrase salt ::
            tr.derived }).2 := by
  simp only [commandTrace, hsalt]
  rw [on_bind, on_deriveKek]
  dsimp only
  rw [on_bind, on_deriveKek]
  dsimp only
  rw [on_discard, rotateKekInDatabase, on_bind]
  generalize (List.foldlM _ _ _ : Traced Catalog).on _ = r
  rcases r with ⟨_ | c, tr'⟩ <;> rfl

/-- Only `backup` derives the KEK of a backup. -/
theorem derived_of_step {A : Aead} {w w' : World} {e : Rotation.Event} {i : ℕ} {kek : Bytes}
    (h : Rotation.step A argon2id w e = some w') (hi : w'.backups i = .derived kek) :
    w.backups i = .derived kek ∨ ∃ passphrase salt, e = .readSalt i passphrase ∧
      masterSalt w.cat = some salt ∧ kek = argon2id passphrase salt := by
  have hupdate : ∀ {j : ℕ} {pc : BackupPc}, (∀ kek, pc ≠ .derived kek) →
      Function.update w.backups j pc i = .derived kek → w.backups i = .derived kek := by
    intro j pc hpc hi
    by_cases hij : i = j
    · subst hij
      rw [Function.update_self] at hi
      exact absurd hi (hpc kek)
    · rwa [Function.update_of_ne hij] at hi
  cases Rotation.commandStep_of_step h with
  | @derived j salt passphrase _ hsalt =>
    by_cases hij : i = j
    · subst hij
      have hi : Function.update w.backups i (.derived (argon2id passphrase salt)) i =
        .derived kek := hi
      rw [Function.update_self] at hi
      exact .inr ⟨passphrase, salt, rfl, hsalt, (BackupPc.derived.inj hi).symm⟩
    · exact .inl ((Function.update_of_ne hij _ _).symm.trans hi)
  | unrotated => exact .inl hi
  | rotated => exact .inl hi
  | expired => exact .inl hi
  | _ => exact .inl (hupdate (fun _ => BackupPc.noConfusion) hi)

/-- A step of the commands without a trace. -/
theorem Inv.quiet (hs : Inv s) {e : Rotation.Event}
    (h : Rotation.step P.aead argon2id s.world e = some world)
    (hquiet : ∀ i passphrase, e ≠ .readSalt i passphrase) : Inv { s with world } :=
  hs.mono (List.Subset.refl _) (List.Subset.refl _) fun i kek hi => by
    rcases derived_of_step h hi with hi | ⟨passphrase, -, he, -⟩
    · exact hs.derived i kek hi
    · exact absurd he (hquiet i passphrase)

theorem Inv.readSalt (hs : Inv s) {i : ℕ} {passphrase : String}
    (h : Rotation.step P.aead argon2id s.world (.readSalt i passphrase) = some world) :
    Inv { s with
      world
      trace := ((commandTrace P argon2id s.world (.readSalt i passphrase)).on s.trace).2 } := by
  have hidle : s.world.backups i = .idle := by
    cases Rotation.commandStep_of_step h <;> assumption
  simp only [commandTrace, hidle]
  cases hsalt : masterSalt s.world.cat with
  | none =>
    refine hs.mono (List.Subset.refl _) (List.Subset.refl _) fun j kek hj => ?_
    rcases derived_of_step h hj with hj | ⟨_, salt, -, hsalt', -⟩
    · exact hs.derived j kek hj
    · rw [hsalt] at hsalt'
      cases hsalt'
  | some salt =>
    dsimp only
    rw [on_discard]
    refine hs.mono (List.Subset.refl _) (List.subset_cons_self ..) fun j kek hj => ?_
    rcases derived_of_step h hj with hj | ⟨_, salt', he, hsalt', rfl⟩
    · exact List.mem_cons_of_mem _ (hs.derived j kek hj)
    · obtain ⟨-, rfl⟩ := Rotation.Event.readSalt.inj he
      obtain rfl := Option.some.inj (hsalt.symm.trans hsalt')
      exact List.mem_cons_self ..

/-- A new snapshot: its DEK is wrapped with a new nonce, and becomes that of a writer when
the row is inserted. -/
theorem Inv.insertRunning (hs : Inv s) {i : ℕ} {snap : Snapshot} {dekRaw dekNonce : Bytes}
    (h : Rotation.step P.aead argon2id s.world (.insertRunning i snap dekRaw dekNonce) = some world)
    {trace : Trace} (htrace : ((commandTrace P argon2id s.world
      (.insertRunning i snap dekRaw dekNonce)).on s.trace).2 = trace)
    {writers : ℕ → Option Writer}
    (hideal : Ideal { world, writers, trace }) : Inv { s with
      world
      writers := commandWriters s.writers world (.insertRunning i snap dekRaw dekNonce)
      trace } := by
  have hquiet := hs.quiet h fun _ _ => Rotation.Event.noConfusion
  obtain ⟨kek, hi⟩ : ∃ kek, s.world.backups i = .derived kek := by
    cases Rotation.commandStep_of_step h with
    | @rejected _ kek _ _ _ hi => exact ⟨kek, hi⟩
    | @inserted _ kek _ _ _ _ hi => exact ⟨kek, hi⟩
  have hkek := hs.derived i kek hi
  simp only [commandTrace, hi, on_discard, on_generateDekForSnapshot] at htrace
  subst htrace
  obtain ⟨hnonce, hdek⟩ := List.nodup_cons.1 hideal.urandom
  have hsep : ∀ kek ∈ s.trace.derived, kek ∉ dekRaw :: s.trace.drawn := fun kek hkek hmem =>
    hideal.argon2id kek hkek (List.mem_cons_of_mem _ hmem)
  simp only [commandWriters]
  split
  · exact (hquiet.newWriter (List.nodup_cons.1 hdek).1 i _).encryptKek hsep hkek hnonce
  · have hdrawn := hquiet.mono (List.subset_cons_self dekRaw _) (List.Subset.refl _) hquiet.derived
    exact hdrawn.encryptKek hsep hkek hnonce

theorem Inv.rotate (hs : Inv s) {oldPassphrase newPassphrase newSalt : String}
    {draws : String → Bytes × Bytes}
    (h : Rotation.step P.aead argon2id s.world
      (.rotate oldPassphrase newPassphrase newSalt draws) = some world)
    (hok : RewrapsNothing P argon2id s
      (.command (.rotate oldPassphrase newPassphrase newSalt draws))) : Inv { s with
      world
      trace := ((commandTrace P argon2id s.world
        (.rotate oldPassphrase newPassphrase newSalt draws)).on s.trace).2 } := by
  have hquiet := hs.quiet h fun _ _ => Rotation.Event.noConfusion
  cases hsalt : masterSalt s.world.cat with
  | none =>
    simp only [commandTrace, hsalt]
    exact hquiet
  | some salt =>
    have hhead := hok salt hsalt
    rw [commandTrace_rotate hsalt]
    have hderived : s.trace.derived ⊆ argon2id newPassphrase newSalt ::
        argon2id oldPassphrase salt :: s.trace.derived := fun kek hkek =>
      List.mem_cons_of_mem _ (List.mem_cons_of_mem _ hkek)
    have hs' := hquiet.mono (List.Subset.refl _) hderived
      fun i kek hi => hderived (hquiet.derived i kek hi)
    cases hselected : selected s.world.cat with
    | nil => exact hs'
    | cons snap rest =>
      rw [hselected] at hhead
      rw [List.foldlM_cons, on_bind, on_rotateSnapshot_none (hhead snap rfl)]
      exact hs'

/-- **One step keeps the invariant** when it is not a rotation that re-wraps a DEK. -/
theorem inv_step (s : State) (e : Event) (t : State) (hs : Inv s)
    (h : step P argon2id s e = some t) (hideal : Ideal t) (hok : RewrapsNothing P argon2id s e) :
    Inv t := by
  have hsep (hderived : s.trace.derived = t.trace.derived)
      (hdrawn : s.trace.drawn = t.trace.drawn) :
      ∀ kek ∈ s.trace.derived, kek ∉ s.trace.drawn := by
    rw [hderived, hdrawn]
    exact hideal.argon2id
  cases e with
  | command e =>
    obtain ⟨world, hworld, rfl⟩ := Option.map_eq_some_iff.1 h
    cases e with
    | readSalt i passphrase => exact hs.readSalt hworld
    | insertRunning i snap dekRaw dekNonce => exact hs.insertRunning hworld rfl hideal
    | rotate oldPassphrase newPassphrase newSalt draws => exact hs.rotate hworld hok
    | complete i => exact hs.quiet hworld fun _ _ => Rotation.Event.noConfusion
    | fail i => exact hs.quiet hworld fun _ _ => Rotation.Event.noConfusion
    | expire id => exact hs.quiet hworld fun _ _ => Rotation.Event.noConfusion
  | startWriter i sessionPrefix =>
    simp only [step] at h
    split at h
    · next dek id hi =>
      obtain rfl := Option.some.inj h
      have hs' : Inv { s with
          writers := Function.update s.writers i
            (some ⟨dek, id, .writing 0 ⟨sessionPrefix.1, 0, sessionPrefix.2⟩⟩) } :=
        hs.setStage hi fun _ hused => False.elim hused
      exact hs'.mono (List.subset_cons_self ..) (List.Subset.refl _) hs'.derived
    · cases h
  | sealNext i chunk =>
    simp only [step] at h
    split at h
    · next dek id chunkSeq nonceGen hi =>
      rcases on_sealChunk P dek id chunkSeq nonceGen chunk s.trace with
        hraise | ⟨block, nonce, nonceGen', hnext, -, hseal⟩
      · rw [hraise] at h
        obtain rfl := Option.some.inj h
        exact hs.setStage hi fun _ _ => trivial
      · rw [hseal] at h
        obtain rfl := Option.some.inj h
        obtain ⟨hstage, hnew, hused⟩ := not_used_next hnext
        exact hs.encryptDek (hsep rfl rfl) hi hstage hnew hused
    · cases h

/-- A rotation that re-wraps a DEK gives a nonce to two encryptions under the new KEK. -/
theorem not_encryptsOnce_of_step (s : State) (e : Event) (t : State)
    (h : step P argon2id s e = some t) (hno : ¬ RewrapsNothing P argon2id s e) :
    ¬ EncryptsOnce t := by
  cases e with
  | startWriter => exact absurd trivial hno
  | sealNext => exact absurd trivial hno
  | command e =>
    cases e with
    | rotate oldPassphrase newPassphrase newSalt draws =>
      obtain ⟨world, -, rfl⟩ := Option.map_eq_some_iff.1 h
      simp only [RewrapsNothing, not_forall] at hno
      obtain ⟨salt, hsalt, snap, hsnap, hun⟩ := hno
      obtain ⟨rawDek, hun⟩ := Option.ne_none_iff_exists'.1 hun
      obtain ⟨rest, hselected⟩ := List.head?_eq_some_iff.1 hsnap
      intro honce
      unfold EncryptsOnce at honce
      rw [commandTrace_rotate hsalt, hselected, List.foldlM_cons, on_bind,
        on_rotateSnapshot_some hun, Rotation.rotateSnapshot, hun] at honce
      have hgrows := honce.sublist (on_foldlM_rotateSnapshot rest).2.sublist
      exact (List.nodup_cons.1 hgrows).1 (List.mem_cons_self ..)
    | _ => exact absurd trivial hno

/-- **When no key and nonce are used twice.**  As long as `os.urandom` repeats nothing and
gives no KEK, no key and nonce are given to `AESGCM.encrypt` twice in a run exactly when
every rotation of the run re-wraps nothing. -/
theorem encryptsOnce_iff_rewrapsNothing (P : Primitives) (argon2id : String → String → Bytes)
    (passphrase salt : String) (es : List Event)
    (hideal : AllStates (step P argon2id) Ideal (State.init passphrase salt) es) :
    AllStates (step P argon2id) EncryptsOnce (State.init passphrase salt) es ↔
      AllSteps (step P argon2id) (RewrapsNothing P argon2id) (State.init passphrase salt) es :=
  allStates_iff_allSteps_of_allStates (fun _ hs => hs.nodup) inv_step
    (fun s e t _ => not_encryptsOnce_of_step s e t) (inv_init passphrase salt) hideal

/-- A backup of two chunks. -/
def backupOfTwoChunks : List Event :=
  [.command (.readSalt 0 "p"),
    .command (.insertRunning 0 (Catalog.runningSnapshot "snap-1") [7] [0]),
    .startWriter 0 ⟨[1, 2, 3, 4], rfl⟩, .sealNext 0 [5], .sealNext 0 [5],
    .command (.complete 0)]

/-- The encryptions of a backup have each their own nonce. -/
theorem encryptsOnce_backupOfTwoChunks :
    AllStates (step Pipeline.clearPrimitives Rotation.clearKek) EncryptsOnce
      (State.init "p" "s") backupOfTwoChunks := by
  refine (encryptsOnce_iff_rewrapsNothing Pipeline.clearPrimitives Rotation.clearKek "p" "s"
    backupOfTwoChunks (by decide)).2 ?_
  exact fun _ _ => ⟨trivial, fun _ _ => ⟨trivial, fun _ _ => ⟨trivial, fun _ _ => ⟨trivial,
    fun _ _ => ⟨trivial, fun _ _ => ⟨trivial, trivial⟩⟩⟩⟩⟩⟩

/-- **A rotation encrypts twice with one nonce**: `generate_dek_for_snapshot` encrypts the key
that it throws away with the nonce that it returns. -/
theorem not_encryptsOnce_rotation :
    AllStates (step Pipeline.clearPrimitives Rotation.clearKek) Ideal (State.init "p" "s")
        (backupOfTwoChunks ++ [.command (.rotate "p" "q" "t" fun _ => ([8], [9]))]) ∧
      ¬ AllStates (step Pipeline.clearPrimitives Rotation.clearKek) EncryptsOnce
        (State.init "p" "s")
        (backupOfTwoChunks ++ [.command (.rotate "p" "q" "t" fun _ => ([8], [9]))]) :=
  ⟨by decide, by decide⟩

end Nonces
end Boveda

/-
# A rotation is one transaction

`rotate_kek_in_database` (`src/boveda/keys.py`) writes into a session, row by row and at
last the salt, and commits once; the command `rotate-kek` (`src/boveda/cli.py`) closes
the session whatever has happened.  In the middle of the loop the pending rows are
wrapped under two keys.  `Session` has what is pending and what the file holds, an
exception may come up at any point of the loop, and `rotations_keep_deks` says what any
sequence of these commands leaves in the file: after a call that returns, the DEKs of
before the first rotation, under the new key of the new salt; after one that raises,
the file as it was.
-/

import Boveda.Crypto.Rotation
import Boveda.Lib.Base64
import Boveda.Lib.Loop

namespace Boveda
namespace Rotation

open Lib Crypto
open Catalog (Snapshot Configuracion Estado Session)

/-! ### The transaction -/

/-- Where SQLite, the random source or the cipher can raise. -/
inductive Point
  | select
  | snapshot (id : String)
  | salt
  | commit
  deriving DecidableEq, Repr

section

variable (A : Aead)

/-- One round of the loop, by `rotateSnapshot`; an error leaves the session as it is then. -/
def rotateRound (oldKek newKek : Bytes) (draws : String → Bytes × Bytes) (raises : Point → Bool)
    (s : Session) (snap : Snapshot) : Except Session Session :=
  if raises (.snapshot snap.id) then .error s
  else match rotateSnapshot A oldKek newKek draws s.pending snap with
    | none => .error s
    | some pending => .ok { s with pending }

/-- `rotate_kek_in_database`, with the exceptions that may come up. -/
def rotateKekInSession (oldKek newKek : Bytes) (newSalt : Option String)
    (draws : String → Bytes × Bytes) (raises : Point → Bool) (s : Session) :
    Except Session (Session × ℕ) :=
  let snapshots := s.pending.snapshots.rows.filter fun r =>
    r.estado = .completed ∨ r.estado = .expired
  if raises .select then .error s
  else match snapshots.foldlM (rotateRound A oldKek newKek draws raises) s with
    | .error s => .error s
    | .ok s =>
      if raises .salt then .error s
      else
        let s := { s with pending := setMasterSalt newSalt s.pending }
        if raises .commit then .error s else .ok (s.commit, snapshots.length)

/-- `generate_master_salt`, of 32 drawn bytes. -/
def generateMasterSalt (salt : Fin 32 → UInt8) : String :=
  String.ofList (Base64.encode (List.ofFn salt))

/-- A `rotate-kek`: what is typed, what is drawn, and where an exception comes up. -/
structure Command where
  oldPassphrase : String
  newPassphrase : String
  salt : Fin 32 → UInt8
  draws : String → Bytes × Bytes
  raises : Point → Bool

/-- The salt that the command draws. -/
def Command.newSalt (cmd : Command) : String := generateMasterSalt cmd.salt

variable (deriveKek : String → String → Option Bytes)

/-- `rotate-kek`: what the file holds afterwards, and what `rotate_kek_in_database` has
returned, if it was called and did not raise. -/
def rotateKek (cmd : Command) (c : Catalog) : Catalog × Option ℕ :=
  match masterSalt c with
  | none => (c, none)
  | some salt =>
    match deriveKek cmd.oldPassphrase salt, deriveKek cmd.newPassphrase cmd.newSalt with
    | some oldKek, some newKek =>
      match rotateKekInSession A oldKek newKek (some cmd.newSalt) cmd.draws cmd.raises
          (Session.begin c) with
      | .error s => (s.close, none)
      | .ok (s, rotatedCount) => (s.close, some rotatedCount)
    | _, _ => (c, none)

/-- Commands one after the other. -/
def rotateKeks (c : Catalog) (cmds : List Command) : Catalog :=
  cmds.foldl (fun c cmd => (rotateKek A deriveKek cmd c).1) c

/-- The first command of a sequence whose call returns. -/
def firstRotation (c : Catalog) : List Command → Option Command
  | [] => none
  | cmd :: cmds =>
    if (rotateKek A deriveKek cmd c).2.isSome then some cmd
    else firstRotation (rotateKek A deriveKek cmd c).1 cmds

end

/-! ### What a call leaves -/

/-- The columns of a snapshot that no rotation writes. -/
def withoutDek (s : Snapshot) : Snapshot :=
  { s with encryptedDek := [], dekNonce := [], dekTag := [] }

/-- A row of `configuracion` without the value of the salt. -/
def withoutSalt (r : Configuracion) : Configuracion :=
  if r.clave = "master_salt" then { r with valor := "" } else r

/-- Two catalogs differ in wrapped DEKs and in the salt only. -/
structure SameButKeys (c c' : Catalog) : Prop where
  snapshots : c'.snapshots.rows.map withoutDek = c.snapshots.rows.map withoutDek
  chunkPool : c'.chunkPool = c.chunkPool
  snapshotChunks : c'.snapshotChunks = c.snapshotChunks
  configuracion : c'.configuracion.rows.map withoutSalt = c.configuracion.rows.map withoutSalt

variable {A : Aead} {deriveKek : String → String → Option Bytes} {oldKek newKek kek₀ kek : Bytes}
  {draws : String → Bytes × Bytes} {raises : Point → Bool} {newSalt : Option String}
  {c c₀ c' : Catalog} {cmd first : Command} {cmds : List Command} {s s' : Session} {n : ℕ}

theorem SameButKeys.refl (c : Catalog) : SameButKeys c c := ⟨rfl, rfl, rfl, rfl⟩

theorem SameButKeys.trans (h : SameButKeys c₀ c) (h' : SameButKeys c c') : SameButKeys c₀ c' :=
  ⟨h'.snapshots.trans h.snapshots, h'.chunkPool.trans h.chunkPool,
    h'.snapshotChunks.trans h.snapshotChunks, h'.configuracion.trans h.configuracion⟩

theorem sameButKeys_rotateSnapshot {snap : Snapshot}
    (h : rotateSnapshot A oldKek newKek draws c snap = some c') : SameButKeys c c' := by
  obtain ⟨rawDek, -, h⟩ := Option.bind_eq_some_iff.1 h
  obtain rfl := Option.some.inj h
  refine ⟨?_, rfl, rfl, rfl⟩
  simp only [Catalog.updateSnapshots, Table.update, List.map_map]
  refine List.map_congr_left fun r _ => ?_
  simp only [Function.comp_apply]
  split_ifs <;> rfl

theorem sameButKeys_setMasterSalt (newSalt : Option String) (c : Catalog) :
    SameButKeys c (setMasterSalt newSalt c) := by
  unfold setMasterSalt
  split
  · exact .refl c
  · split_ifs
    · exact .refl c
    · refine ⟨rfl, rfl, rfl, ?_⟩
      simp only [Table.update, List.map_map]
      refine List.map_congr_left fun r _ => ?_
      by_cases hr : r.clave = "master_salt" <;> simp [withoutSalt, hr]

/-- The salt of a catalog that has one. -/
theorem masterSalt_setMasterSalt {salt valor : String} (h : masterSalt c = some salt)
    (hne : valor ≠ "") : masterSalt (setMasterSalt (some valor) c) = some valor := by
  obtain ⟨r, hr, -⟩ := Option.map_eq_some_iff.1 h
  have hrow := Table.find?_update_key c.configuracion "master_salt" "master_salt"
    (fun r => { r with valor }) fun _ => rfl
  rw [if_pos rfl, hr] at hrow
  rw [masterSalt, setMasterSalt, if_neg hne]
  exact congrArg (Option.map Configuracion.valor) hrow

theorem generateMasterSalt_ne_empty (salt : Fin 32 → UInt8) : generateMasterSalt salt ≠ "" := by
  intro h
  have hlist := congrArg String.toList h
  rw [generateMasterSalt, String.toList_ofList] at hlist
  have hround := Base64.decode_encode (List.ofFn salt)
  rw [hlist] at hround
  have hlen := congrArg List.length (Option.some.inj hround)
  simp at hlen

theorem configuracion_rotateSnapshot {snap : Snapshot}
    (h : rotateSnapshot A oldKek newKek draws c snap = some c') :
    c'.configuracion = c.configuracion := by
  obtain ⟨rawDek, -, h⟩ := Option.bind_eq_some_iff.1 h
  obtain rfl := Option.some.inj h
  rfl

/-- One round writes to the pending rows only, raise or not. -/
theorem persisted_rotateRound (A : Aead) (oldKek newKek : Bytes) (draws : String → Bytes × Bytes)
    (raises : Point → Bool) (s : Session) (snap : Snapshot) :
    (ended (rotateRound A oldKek newKek draws raises s snap)).persisted = s.persisted := by
  unfold rotateRound
  split_ifs
  · rfl
  · split <;> rfl

theorem rotateRound_ok {snap : Snapshot}
    (h : rotateRound A oldKek newKek draws raises s snap = .ok s') :
    rotateSnapshot A oldKek newKek draws s.pending snap = some s'.pending := by
  unfold rotateRound at h
  split_ifs at h
  split at h
  · cases h
  · next pending hround =>
    obtain rfl := Except.ok.inj h
    exact hround

/-- **The loop that gets to its end** is that of `rotateKekInDatabase`, on the pending
rows. -/
theorem foldlM_rotateRound_ok {ls : List Snapshot}
    (h : ls.foldlM (rotateRound A oldKek newKek draws raises) s = .ok s') :
    ls.foldlM (rotateSnapshot A oldKek newKek draws) s.pending = some s'.pending ∧
      s'.pending.configuracion = s.pending.configuracion ∧ SameButKeys s.pending s'.pending := by
  induction ls generalizing s with
  | nil =>
    obtain rfl := Except.ok.inj h
    exact ⟨rfl, rfl, .refl _⟩
  | cons snap ls ih =>
    rw [List.foldlM_cons] at h
    cases hround : rotateRound A oldKek newKek draws raises s snap with
    | error s₁ =>
      rw [hround] at h
      cases h
    | ok s₁ =>
      rw [hround] at h
      have hone := rotateRound_ok hround
      obtain ⟨hrest, hconf, hsame⟩ := ih h
      refine ⟨?_, hconf.trans (configuracion_rotateSnapshot hone),
        (sameButKeys_rotateSnapshot hone).trans hsame⟩
      rw [List.foldlM_cons, hone]
      exact hrest

/-- What a call of `rotate_kek_in_database` comes to. -/
inductive SessionStep (A : Aead) (oldKek newKek : Bytes) (newSalt : Option String)
    (draws : String → Bytes × Bytes) (s : Session) : Except Session (Session × ℕ) → Prop
  | raised {s' : Session} : s'.persisted = s.persisted →
    SessionStep A oldKek newKek newSalt draws s (.error s')
  | returned {c : Catalog} :
    (s.pending.snapshots.rows.filter fun r => r.estado = .completed ∨ r.estado = .expired).foldlM
      (rotateSnapshot A oldKek newKek draws) s.pending = some c →
    c.configuracion = s.pending.configuracion → SameButKeys s.pending c →
    SessionStep A oldKek newKek newSalt draws s
      (.ok (⟨setMasterSalt newSalt c, setMasterSalt newSalt c⟩,
        (s.pending.snapshots.rows.filter fun r =>
          r.estado = .completed ∨ r.estado = .expired).length))

/-- **A call is all or nothing**: it has made its one commit, or the file is as it was. -/
theorem sessionStep (A : Aead) (oldKek newKek : Bytes) (newSalt : Option String)
    (draws : String → Bytes × Bytes) (raises : Point → Bool) (s : Session) :
    SessionStep A oldKek newKek newSalt draws s
      (rotateKekInSession A oldKek newKek newSalt draws raises s) := by
  unfold rotateKekInSession
  by_cases hselect : raises .select = true
  · rw [if_pos hselect]
    exact .raised rfl
  rw [if_neg hselect]
  -- whatever becomes of the loop, nothing is written to the file before the commit
  have hpersisted := ended_foldlM Session.persisted
    (persisted_rotateRound A oldKek newKek draws raises)
    (s.pending.snapshots.rows.filter fun r => r.estado = .completed ∨ r.estado = .expired) s
  cases hloop : (s.pending.snapshots.rows.filter fun r =>
      r.estado = .completed ∨ r.estado = .expired).foldlM
        (rotateRound A oldKek newKek draws raises) s with
  | error s' =>
    rw [hloop] at hpersisted
    exact .raised hpersisted
  | ok s' =>
    rw [hloop] at hpersisted
    obtain ⟨hrest, hconf, hsame⟩ := foldlM_rotateRound_ok hloop
    dsimp only
    split_ifs
    · exact .raised hpersisted
    · exact .raised hpersisted
    · exact .returned hrest hconf hsame

/-- What a `rotate-kek` comes to. -/
inductive CommandEffect (A : Aead) (deriveKek : String → String → Option Bytes) (cmd : Command)
    (c : Catalog) : Catalog × Option ℕ → Prop
  | unchanged : CommandEffect A deriveKek cmd c (c, none)
  | rotated {salt : String} {oldKek newKek : Bytes} {c' : Catalog} {n : ℕ} :
    masterSalt c = some salt → deriveKek cmd.oldPassphrase salt = some oldKek →
    deriveKek cmd.newPassphrase cmd.newSalt = some newKek →
    rotateKekInDatabase A oldKek newKek (some cmd.newSalt) cmd.draws c = some (c', n) →
    masterSalt c' = some cmd.newSalt → SameButKeys c c' →
    CommandEffect A deriveKek cmd c (c', some n)

theorem commandEffect (A : Aead) (deriveKek : String → String → Option Bytes) (cmd : Command)
    (c : Catalog) : CommandEffect A deriveKek cmd c (rotateKek A deriveKek cmd c) := by
  unfold rotateKek
  cases hsalt : masterSalt c with
  | none => exact .unchanged
  | some salt =>
    cases hold : deriveKek cmd.oldPassphrase salt with
    | none =>
      simp only [hold]
      exact .unchanged
    | some oldKek =>
      cases hnew : deriveKek cmd.newPassphrase cmd.newSalt with
      | none =>
        simp only [hold]
        exact .unchanged
      | some newKek =>
        have hstep := sessionStep A oldKek newKek (some cmd.newSalt) cmd.draws cmd.raises (.begin c)
        simp only [hold]
        generalize rotateKekInSession A oldKek newKek (some cmd.newSalt) cmd.draws cmd.raises
          (.begin c) = r at hstep
        cases hstep with
        | @raised s' hpersisted =>
          have hclosed : s'.close = c := hpersisted
          dsimp only
          rw [hclosed]
          exact .unchanged
        | @returned c₁ hloop hconf hsame =>
          have hsalt₁ : masterSalt c₁ = some salt := by
            rw [masterSalt, hconf]
            exact hsalt
          refine .rotated hsalt hold hnew ?_
            (masterSalt_setMasterSalt hsalt₁ (generateMasterSalt_ne_empty cmd.salt))
            (hsame.trans (sameButKeys_setMasterSalt (some cmd.newSalt) c₁))
          have hloop : (c.snapshots.rows.filter fun r => r.estado = .completed ∨ r.estado =
              .expired).foldlM (rotateSnapshot A oldKek newKek cmd.draws) c = some c₁ := hloop
          rw [rotateKekInDatabase, hloop]
          rfl

/-! ### Any sequence of commands -/

/-- Every `COMPLETED` or `EXPIRED` snapshot has, wrapped under `kek`, the DEK that `kek₀`
gave of its row in `c₀`. -/
def HoldsDeks (A : Aead) (c₀ : Catalog) (kek₀ kek : Bytes) (c : Catalog) : Prop :=
  ∀ s ∈ c.snapshots.rows, s.estado = .completed ∨ s.estado = .expired →
    ∃ s₀, c₀.snapshots.find? s.id = some s₀ ∧ ∃ dek,
      unwrapDek A kek₀ s₀.encryptedDek s₀.dekNonce s₀.dekTag s₀.id = some dek ∧ Wraps A kek dek s

/-- A row that a KEK opens has been wrapped with no other DEK. -/
theorem Wraps.unique (hA : A.Correct) (hR : A.RejectsOtherKeys) {dek dek' : Bytes} {s : Snapshot}
    (h : Wraps A kek dek' s)
    (hopen : unwrapDek A kek₀ s.encryptedDek s.dekNonce s.dekTag s.id = some dek) : dek' = dek := by
  have hkek : kek₀ = kek := by
    by_contra hne
    rw [h.unwrap_other hR hne] at hopen
    cases hopen
  rw [hkek, h.unwrap hA] at hopen
  exact Option.some.inj hopen

/-- A rotated row, and the row it comes from. -/
theorem row_of_rotated (h : rotateKekInDatabase A oldKek newKek newSalt draws c = some (c', n))
    {s : Snapshot} (hs : s ∈ c'.snapshots.rows)
    (hst : s.estado = .completed ∨ s.estado = .expired) :
    ∃ r rawDek, c.snapshots.find? s.id = some r ∧
      (r.estado = .completed ∨ r.estado = .expired) ∧
      unwrapDek A oldKek r.encryptedDek r.dekNonce r.dekTag r.id = some rawDek ∧
      Wraps A newKek rawDek s := by
  have hfind := Table.find?_of_mem hs
  obtain ⟨hnone, hrow⟩ := rotateKekInDatabase_some h (k := s.id)
  cases hr : c.snapshots.find? s.id with
  | none =>
    rw [hnone.2 hr] at hfind
    cases hfind
  | some r =>
    obtain ⟨hsel, hother⟩ := hrow r hr
    have hrst : r.estado = .completed ∨ r.estado = .expired := by
      by_contra hno
      rw [hother hno] at hfind
      exact hno (Option.some.inj hfind ▸ hst)
    obtain ⟨rawDek, nonce, hun, hnew⟩ := hsel hrst
    rw [hnew] at hfind
    obtain rfl := Option.some.inj hfind
    exact ⟨r, rawDek, rfl, hrst, hun, wraps_rewrap newKek nonce rawDek r⟩

/-- **The first rotation** takes the DEKs from the rows as they were. -/
theorem holdsDeks_first (h : rotateKekInDatabase A oldKek newKek newSalt draws c = some (c', n)) :
    HoldsDeks A c oldKek newKek c' := by
  intro s hs hst
  obtain ⟨r, rawDek, hr, -, hun, hwraps⟩ := row_of_rotated h hs hst
  exact ⟨r, hr, rawDek, hun, hwraps⟩

/-- **Another rotation** can only have unwrapped the same DEKs. -/
theorem HoldsDeks.rotate (hA : A.Correct) (hR : A.RejectsOtherKeys)
    (hc : HoldsDeks A c₀ kek₀ kek c)
    (h : rotateKekInDatabase A oldKek newKek newSalt draws c = some (c', n)) :
    HoldsDeks A c₀ kek₀ newKek c' := by
  intro s hs hst
  obtain ⟨r, rawDek, hr, hrst, hun, hwraps⟩ := row_of_rotated h hs hst
  obtain ⟨s₀, hs₀, dek, hdek, hheld⟩ := hc r (Table.mem_of_find? hr) hrst
  obtain rfl := hheld.unique hA hR hun
  rw [Table.key_of_find? hr] at hs₀
  exact ⟨s₀, hs₀, dek, hdek, hwraps⟩

/-- What the file holds after some commands: it is as it was, or has the DEKs of before
under the KEK of the last rotation. -/
structure Kept (A : Aead) (deriveKek : String → String → Option Bytes) (c₀ : Catalog)
    (salt₀ : String) (first : Option Command) (c : Catalog) : Prop where
  same : SameButKeys c₀ c
  untouched : first = none → c = c₀
  rotated : ∀ cmd, first = some cmd → ∃ kek₀ kek,
    deriveKek cmd.oldPassphrase salt₀ = some kek₀ ∧ HoldsDeks A c₀ kek₀ kek c

theorem rotateKeks_concat (A : Aead) (deriveKek : String → String → Option Bytes) (c : Catalog)
    (cmds : List Command) (cmd : Command) : rotateKeks A deriveKek c (cmds ++ [cmd]) =
      (rotateKek A deriveKek cmd (rotateKeks A deriveKek c cmds)).1 :=
  List.foldl_concat ..

theorem firstRotation_append (A : Aead) (deriveKek : String → String → Option Bytes) (c : Catalog)
    (cmds cmds' : List Command) : firstRotation A deriveKek c (cmds ++ cmds') =
      (firstRotation A deriveKek c cmds).or
        (firstRotation A deriveKek (rotateKeks A deriveKek c cmds) cmds') := by
  induction cmds generalizing c with
  | nil => rfl
  | cons cmd cmds ih =>
    rw [List.cons_append, firstRotation, firstRotation]
    split_ifs with hreturns
    · rfl
    · rw [ih]
      rfl

/-- **A rotation**, the first one or a later one. -/
theorem Kept.rotation {salt₀ salt : String} (hA : A.Correct) (hR : A.RejectsOtherKeys)
    (hsalt₀ : masterSalt c₀ = some salt₀) {before : Option Command}
    (h : Kept A deriveKek c₀ salt₀ before c) (hsalt : masterSalt c = some salt)
    (hold : deriveKek cmd.oldPassphrase salt = some oldKek)
    (hrot : rotateKekInDatabase A oldKek newKek newSalt draws c = some (c', n)) :
    ∃ first kek₀, before.or (some cmd) = some first ∧
      deriveKek first.oldPassphrase salt₀ = some kek₀ ∧ HoldsDeks A c₀ kek₀ newKek c' := by
  cases before with
  | none =>
    obtain rfl := h.untouched rfl
    obtain rfl := Option.some.inj (hsalt.symm.trans hsalt₀)
    exact ⟨cmd, oldKek, rfl, hold, holdsDeks_first hrot⟩
  | some first =>
    obtain ⟨kek₀, kek, hkek₀, hdeks⟩ := h.rotated first rfl
    exact ⟨first, kek₀, rfl, hkek₀, hdeks.rotate hA hR hrot⟩

/-- **One command** keeps what the file holds. -/
theorem Kept.rotateKek {salt₀ : String} (hA : A.Correct) (hR : A.RejectsOtherKeys)
    (hsalt₀ : masterSalt c₀ = some salt₀) {before : Option Command}
    (h : Kept A deriveKek c₀ salt₀ before c) (cmd : Command) :
    Kept A deriveKek c₀ salt₀ (before.or (firstRotation A deriveKek c [cmd]))
      (rotateKek A deriveKek cmd c).1 := by
  have heffect := commandEffect A deriveKek cmd c
  rw [firstRotation, firstRotation]
  generalize Rotation.rotateKek A deriveKek cmd c = r at heffect
  cases heffect with
  | unchanged =>
    rw [if_neg (by simp), Option.or_none]
    exact h
  | @rotated salt oldKek newKek c' n hsalt hold hnew hrot _ hsame =>
    obtain ⟨first, kek₀, hfirst, hkek₀, hdeks⟩ := h.rotation hA hR hsalt₀ hsalt hold hrot
    have hreturned : (if ((c', some n) : Catalog × Option ℕ).2.isSome = true then some cmd
        else none) = some cmd := rfl
    rw [hreturned, hfirst]
    refine ⟨h.same.trans hsame, (fun hnone => nomatch hnone), fun cmd' hcmd => ?_⟩
    obtain rfl := Option.some.inj hcmd
    exact ⟨kek₀, newKek, hkek₀, hdeks⟩

/-- **Any commands** keep what the file holds. -/
theorem kept_rotateKeks {salt₀ : String} (hA : A.Correct) (hR : A.RejectsOtherKeys)
    (hsalt₀ : masterSalt c₀ = some salt₀) (cmds : List Command) :
    Kept A deriveKek c₀ salt₀ (firstRotation A deriveKek c₀ cmds)
      (rotateKeks A deriveKek c₀ cmds) := by
  induction cmds using List.reverseRecOn with
  | nil => exact ⟨.refl c₀, fun _ => rfl, fun _ h => nomatch h⟩
  | append_singleton cmds cmd ih =>
    rw [firstRotation_append, rotateKeks_concat]
    exact ih.rotateKek hA hR hsalt₀ cmd

/-- What a call that returns has done, since the catalog `c₀` with the salt `salt₀`. -/
structure Rekeyed (A : Aead) (deriveKek : String → String → Option Bytes) (c₀ : Catalog)
    (salt₀ : String) (first cmd : Command) (c' : Catalog) : Prop where
  salt : masterSalt c' = some cmd.newSalt
  deks : ∃ kek₀ newKek, deriveKek first.oldPassphrase salt₀ = some kek₀ ∧
    deriveKek cmd.newPassphrase cmd.newSalt = some newKek ∧
    ∀ s ∈ c'.snapshots.rows, s.estado = .completed ∨ s.estado = .expired →
      ∃ s₀ dek, c₀.snapshots.find? s.id = some s₀ ∧
        unwrapDek A kek₀ s₀.encryptedDek s₀.dekNonce s₀.dekTag s₀.id = some dek ∧
        (∀ kek dek', Wraps A kek dek' s₀ → dek' = dek) ∧ Wraps A newKek dek s ∧
        unwrapDek A newKek s.encryptedDek s.dekNonce s.dekTag s.id = some dek

/-- **Any sequence of `rotate-kek`.**  A call that returns leaves every `COMPLETED` and
`EXPIRED` snapshot wrapped under the new KEK, with the DEK that its row had before the
first rotation, and the new salt; a call that raises leaves the file as it was; and no
command ever writes anything else than wrapped DEKs and the salt. -/
theorem rotations_keep_deks (A : Aead) (deriveKek : String → String → Option Bytes)
    (hA : A.Correct) (hR : A.RejectsOtherKeys) (c₀ : Catalog) (salt₀ : String)
    (hsalt₀ : masterSalt c₀ = some salt₀) (before : List Command) (cmd : Command) :
    (∀ n, (rotateKek A deriveKek cmd (rotateKeks A deriveKek c₀ before)).2 = some n →
      ∃ first, firstRotation A deriveKek c₀ (before ++ [cmd]) = some first ∧
        Rekeyed A deriveKek c₀ salt₀ first cmd
          (rotateKek A deriveKek cmd (rotateKeks A deriveKek c₀ before)).1) ∧
      ((rotateKek A deriveKek cmd (rotateKeks A deriveKek c₀ before)).2 = none →
        (rotateKek A deriveKek cmd (rotateKeks A deriveKek c₀ before)).1 =
          rotateKeks A deriveKek c₀ before) ∧
      SameButKeys c₀ (rotateKek A deriveKek cmd (rotateKeks A deriveKek c₀ before)).1 := by
  have hbefore : Kept A deriveKek c₀ salt₀ _ _ := kept_rotateKeks hA hR hsalt₀ before
  have hafter : Kept A deriveKek c₀ salt₀ _ _ := kept_rotateKeks hA hR hsalt₀ (before ++ [cmd])
  have hsame := hafter.same
  rw [rotateKeks_concat] at hsame
  refine ⟨fun n hn => ?_, fun hnone => ?_, hsame⟩
  · rw [firstRotation_append, firstRotation, firstRotation, if_pos (by rw [hn]; rfl)]
    have heffect := commandEffect A deriveKek cmd (rotateKeks A deriveKek c₀ before)
    generalize rotateKek A deriveKek cmd (rotateKeks A deriveKek c₀ before) = r at heffect hn
    cases heffect with
    | unchanged => cases hn
    | @rotated salt oldKek newKek c' n hsalt hold hnew hrot hnewSalt _ =>
      obtain ⟨first, kek₀, hfirst, hkek₀, hdeks⟩ := hbefore.rotation hA hR hsalt₀ hsalt hold hrot
      refine ⟨first, hfirst, hnewSalt, kek₀, newKek, hkek₀, hnew, fun s hs hst => ?_⟩
      obtain ⟨s₀, hs₀, dek, hdek, hwraps⟩ := hdeks s hs hst
      exact ⟨s₀, dek, hs₀, hdek, fun kek dek' h => h.unique hA hR hdek, hwraps, hwraps.unwrap hA⟩
  · have heffect := commandEffect A deriveKek cmd (rotateKeks A deriveKek c₀ before)
    generalize rotateKek A deriveKek cmd (rotateKeks A deriveKek c₀ before) = r at heffect hnone
    cases heffect with
    | unchanged => rfl
    | rotated => cases hnone

/-- The catalog of one completed backup under the KEK of `p` and the salt `s`. -/
def oneBackup : Catalog where
  snapshots := Table.empty.insert { newSnapshot (Catalog.runningSnapshot "snap-1")
    (generateDekForSnapshot clearAead (clearKek "p" "s") "snap-1" [7] [0]) with
      estado := .completed } rfl
  chunkPool := .empty
  snapshotChunks := .empty
  configuracion := Table.empty.insert ⟨"master_salt", "s"⟩ rfl

/-- A rotation with these passphrases, in which an exception comes up at the points of
`raises`. -/
def rotation (oldPassphrase newPassphrase : String) (raises : Point → Bool) : Command where
  oldPassphrase
  newPassphrase
  salt _ := 0
  draws _ := ([], [1])
  raises

/-- A wrong passphrase, an exception at the salt, and then a rotation that succeeds. -/
theorem rotations_keep_deks_oneBackup : ∃ first,
    Rekeyed clearAead (fun p s => some (clearKek p s)) oneBackup "s" first
      (rotation "p" "q" fun _ => false)
      (rotateKek clearAead (fun p s => some (clearKek p s)) (rotation "p" "q" fun _ => false)
        (rotateKeks clearAead (fun p s => some (clearKek p s)) oneBackup
          [rotation "x" "y" fun _ => false, rotation "p" "r" (· = .salt)])).1 := by
  obtain ⟨hreturned, -⟩ := rotations_keep_deks clearAead (fun p s => some (clearKek p s))
    clearAead_correct clearAead_rejectsOtherKeys oneBackup "s" rfl
    [rotation "x" "y" fun _ => false, rotation "p" "r" (· = .salt)]
    (rotation "p" "q" fun _ => false)
  obtain ⟨first, -, h⟩ := hreturned 1 (by decide +kernel)
  exact ⟨first, h⟩

end Rotation
end Boveda

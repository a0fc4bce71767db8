/-
# Backups and rotations of the KEK side by side

`rotate_kek_in_database` (`src/boveda/keys.py`) and the commands `backup` and
`rotate-kek` (`src/boveda/cli.py`).  The salt of the KEK is one row of
`configuracion`; every snapshot carries its DEK wrapped under the KEK that its
backup derived.  A rotation re-wraps the DEKs of the snapshots that are
`COMPLETED` or `EXPIRED` at that moment and replaces the salt, in one commit.

A backup that is `RUNNING` at that moment keeps the old wrapping and completes
under the new salt; its DEK is then lost (`not_recoverable_rotationDuringBackup`).  This
is the only way to lose one: `recoverable_iff_completesUnderLast` says that every
`COMPLETED` snapshot can be read with the passphrase and the salt of the last
rotation exactly when every backup commits under the KEK it has derived.

The three steps of a backup are steps of their own here, so that a rotation may
come between any two of them.  Argon2id is the parameter `deriveKek`.
-/

import Boveda.Lib.Runs
import Boveda.Crypto.Envelope
import Boveda.Catalog.Transactions

namespace Boveda
namespace Rotation

open Lib Crypto
open Catalog (Snapshot Configuracion Estado insertSnapshot updateSnapshots setEstado)

/-! ### `rotate_kek_in_database` -/

/-- The value of `master_salt`. -/
def masterSalt (c : Catalog) : Option String :=
  (c.configuracion.find? "master_salt").map Configuracion.valor

/-- `if new_salt_b64: … salt_entry.valor = new_salt_b64`. -/
def setMasterSalt (newSalt : Option String) (c : Catalog) : Catalog :=
  match newSalt with
  | none => c
  | some valor =>
    if valor = "" then c
    else { c with
      configuracion := c.configuracion.update (fun r => r.clave = "master_salt")
        (fun r => { r with valor }) fun _ => rfl }

theorem snapshots_setMasterSalt (newSalt : Option String) (c : Catalog) :
    (setMasterSalt newSalt c).snapshots = c.snapshots := by
  unfold setMasterSalt
  split
  · rfl
  · split_ifs <;> rfl

/-- The wrapping of a DEK under the new KEK, in the row of its snapshot. -/
def rewrap (A : Aead) (newKek newNonce rawDek : Bytes) (snap : Snapshot) : Snapshot :=
  let newCiphertext := A.encrypt newKek newNonce rawDek (utf8 snap.id)
  { snap with
    encryptedDek := withoutTag newCiphertext
    dekNonce := newNonce
    dekTag := tagOf newCiphertext }

theorem identity_rewrap (A : Aead) (newKek newNonce rawDek : Bytes) (s : Snapshot) :
    (rewrap A newKek newNonce rawDek s).identity = s.identity := by
  simp [rewrap, Snapshot.identity]

section

variable (A : Aead) (deriveKek : String → String → Bytes)

/-- One round of the loop.  `draws` are the two draws of `os.urandom` that
`generate_dek_for_snapshot` makes; only its nonce is used. -/
def rotateSnapshot (oldKek newKek : Bytes) (draws : String → Bytes × Bytes) (c : Catalog)
    (snap : Snapshot) : Option Catalog := do
  let rawDek ← unwrapDek A oldKek snap.encryptedDek snap.dekNonce snap.dekTag snap.id
  let newNonce :=
    (generateDekForSnapshot A newKek snap.id (draws snap.id).1 (draws snap.id).2).dekNonce
  return updateSnapshots (fun s => s.id = snap.id) (rewrap A newKek newNonce rawDek)
    (identity_rewrap A newKek newNonce rawDek) c

/-- `rotate_kek_in_database`, with the number of rotated snapshots.  An
`InvalidTag` leaves the transaction uncommitted. -/
def rotateKekInDatabase (oldKek newKek : Bytes) (newSalt : Option String)
    (draws : String → Bytes × Bytes) (c : Catalog) : Option (Catalog × ℕ) := do
  let snapshots := c.snapshots.rows.filter fun s => s.estado = .completed ∨ s.estado = .expired
  let c ← snapshots.foldlM (rotateSnapshot A oldKek newKek draws) c
  return (setMasterSalt newSalt c, snapshots.length)

/-! ### The commands -/

/-- Where a `backup` stands. -/
inductive BackupPc
  | idle
  | derived (kek : Bytes)
  | running (snapshotId : String) (kek : Bytes)
  | finished

/-- The catalog and the backups; passphrase and salt of the last successful
rotation (of `init`, before the first one), and the DEK that the chunks of each
snapshot are encrypted with. -/
structure World where
  cat : Catalog
  backups : ℕ → BackupPc
  last : String × String
  deks : String → Option Bytes

/-- After `init`. -/
def World.init (passphrase salt : String) : World where
  cat := { Catalog.empty with configuracion := Table.empty.insert ⟨"master_salt", salt⟩ rfl }
  backups _ := .idle
  last := (passphrase, salt)
  deks _ := none

/-- The KEK of the last successful rotation. -/
def World.kek (w : World) : Bytes := deriveKek w.last.1 w.last.2

/-- The steps of backups and rotations, with what they draw at random. -/
inductive Event
  | readSalt (i : ℕ) (passphrase : String)
  | insertRunning (i : ℕ) (s : Snapshot) (dekRaw dekNonce : Bytes)
  | complete (i : ℕ)
  | fail (i : ℕ)
  | rotate (oldPassphrase newPassphrase newSalt : String) (draws : String → Bytes × Bytes)
  | expire (id : String)

/-- `Snapshot(estado=RUNNING, encrypted_dek=…, dek_nonce=…, dek_tag=…, …)`. -/
def newSnapshot (s : Snapshot) (d : WrappedDek) : Snapshot :=
  { s with
    estado := .running
    encryptedDek := d.encryptedDek
    dekNonce := d.dekNonce
    dekTag := d.dekTag }

/-- One step, `none` when it is not the turn of its backup. -/
def step (w : World) : Event → Option World
  | .readSalt i passphrase =>
    match w.backups i with
    | .idle =>
      let pc := match masterSalt w.cat with
        | none => .finished
        | some salt => .derived (deriveKek passphrase salt)
      some { w with backups := Function.update w.backups i pc }
    | _ => none
  | .insertRunning i s dekRaw dekNonce =>
    match w.backups i with
    | .derived kek =>
      let d := generateDekForSnapshot A kek s.id dekRaw dekNonce
      match insertSnapshot (newSnapshot s d) w.cat with
      | .error _ => some { w with backups := Function.update w.backups i .finished }
      | .ok cat => some { w with
          cat
          backups := Function.update w.backups i (.running s.id kek)
          deks := Function.update w.deks s.id (some d.dekRaw) }
    | _ => none
  | .complete i =>
    match w.backups i with
    | .running id _ => some { w with
        cat := setEstado id .completed w.cat
        backups := Function.update w.backups i .finished }
    | _ => none
  | .fail i =>
    match w.backups i with
    | .running id _ => some { w with
        cat := setEstado id .failed w.cat
        backups := Function.update w.backups i .finished }
    | _ => none
  | .rotate oldPassphrase newPassphrase newSalt draws =>
    match masterSalt w.cat with
    | none => some w
    | some salt =>
      match rotateKekInDatabase A (deriveKek oldPassphrase salt) (deriveKek newPassphrase newSalt)
          (some newSalt) draws w.cat with
      | none => some w
      | some (cat, _) => some { w with cat, last := (newPassphrase, newSalt) }
  | .expire id =>
    match w.cat.snapshots.find? id with
    | some s => if s.estado = .completed then some { w with cat := setEstado id .expired w.cat }
      else none
    | none => none

/-- Every `COMPLETED` snapshot can be read with the KEK of the last successful
rotation, and what is recovered is the DEK of its chunks. -/
def Recoverable (w : World) : Prop :=
  ∀ s ∈ w.cat.snapshots.rows, s.estado = .completed → ∃ dek, w.deks s.id = some dek ∧
    unwrapDek A (w.kek deriveKek) s.encryptedDek s.dekNonce s.dekTag s.id = some dek

/-- A backup commits `COMPLETED` only while the KEK it has derived is that of the
last successful rotation. -/
def CompletesUnderLast (w : World) : Event → Prop
  | .complete i => ∀ id kek, w.backups i = .running id kek → kek = w.kek deriveKek
  | _ => True

/-! ### What a rotation does -/

/-- The row holds `dek` wrapped under `kek`. -/
def Wraps (kek dek : Bytes) (s : Snapshot) : Prop :=
  s.encryptedDek ++ s.dekTag = A.encrypt kek s.dekNonce dek (utf8 s.id)

variable {A}

theorem Wraps.unwrap {kek dek : Bytes} {s : Snapshot} (h : Wraps A kek dek s) (hA : A.Correct) :
    unwrapDek A kek s.encryptedDek s.dekNonce s.dekTag s.id = some dek := by
  rw [unwrapDek, h]
  exact hA _ _ _ _

theorem Wraps.unwrap_other {kek kek' dek : Bytes} {s : Snapshot} (h : Wraps A kek dek s)
    (hR : A.RejectsOtherKeys) (hne : kek' ≠ kek) :
    unwrapDek A kek' s.encryptedDek s.dekNonce s.dekTag s.id = none := by
  rw [unwrapDek, h]
  exact hR _ _ _ _ _ hne

theorem wraps_rewrap (kek nonce dek : Bytes) (s : Snapshot) :
    Wraps A kek dek (rewrap A kek nonce dek s) := by
  simp [Wraps, rewrap]

theorem wraps_newSnapshot (kek dekRaw dekNonce : Bytes) (s : Snapshot) :
    Wraps A kek dekRaw (newSnapshot s (generateDekForSnapshot A kek s.id dekRaw dekNonce)) := by
  simp [Wraps, newSnapshot, generateDekForSnapshot]

variable {oldKek newKek : Bytes} {draws : String → Bytes × Bytes} {c c' : Catalog}

/-- **What the loop does**, row by row: the snapshots of the list are re-wrapped,
each with the DEK that the old KEK gives. -/
theorem foldlM_rotateSnapshot {ls : List Snapshot}
    (h : ls.foldlM (rotateSnapshot A oldKek newKek draws) c = some c')
    (hnd : (ls.map Snapshot.id).Nodup) (k : String) :
    (k ∉ ls.map Snapshot.id → c'.snapshots.find? k = c.snapshots.find? k) ∧
      ∀ s ∈ ls, s.id = k → ∃ rawDek nonce,
        unwrapDek A oldKek s.encryptedDek s.dekNonce s.dekTag s.id = some rawDek ∧
        c'.snapshots.find? k = (c.snapshots.find? k).map (rewrap A newKek nonce rawDek) := by
  induction ls generalizing c with
  | nil =>
    obtain rfl := Option.some.inj h
    simp
  | cons a ls ih =>
    obtain ⟨ha, hnd'⟩ := List.nodup_cons.1 hnd
    rw [List.foldlM_cons] at h
    obtain ⟨c₁, h₁, h⟩ := Option.bind_eq_some_iff.1 h
    obtain ⟨rawDek, hraw, h₁⟩ := Option.bind_eq_some_iff.1 h₁
    obtain rfl := Option.some.inj h₁
    obtain ⟨hout, hin⟩ := ih h hnd'
    have hfind := Table.find?_update_key c.snapshots a.id k
      (rewrap A newKek (draws a.id).2 rawDek) fun _ => rfl
    constructor
    · intro hk
      rw [List.map_cons, List.mem_cons, not_or] at hk
      rw [hout hk.2]
      exact hfind.trans (if_neg (Ne.symm hk.1))
    · intro s hs hsk
      rcases List.mem_cons.1 hs with rfl | hs
      · refine ⟨rawDek, (draws s.id).2, hraw, ?_⟩
        rw [hout (hsk ▸ ha)]
        exact hfind.trans (if_pos hsk)
      · obtain ⟨raw, nonce, hun, hrow⟩ := hin s hs hsk
        refine ⟨raw, nonce, hun, hrow.trans ?_⟩
        have hne : a.id ≠ k := fun hak => ha (hak ▸ hsk ▸ List.mem_map_of_mem hs)
        exact congrArg _ (hfind.trans (if_neg hne))

/-- **What a rotation does.**  The snapshots that are `COMPLETED` or `EXPIRED` are
re-wrapped, each with the DEK that the old KEK gives; the others stay. -/
theorem rotateKekInDatabase_some {newSalt : Option String} {n : ℕ}
    (h : rotateKekInDatabase A oldKek newKek newSalt draws c = some (c', n)) {k : String} :
    (c'.snapshots.find? k = none ↔ c.snapshots.find? k = none) ∧
      ∀ s, c.snapshots.find? k = some s →
        (s.estado = .completed ∨ s.estado = .expired → ∃ rawDek nonce,
          unwrapDek A oldKek s.encryptedDek s.dekNonce s.dekTag s.id = some rawDek ∧
          c'.snapshots.find? k = some (rewrap A newKek nonce rawDek s)) ∧
        (¬ (s.estado = .completed ∨ s.estado = .expired) → c'.snapshots.find? k = some s) := by
  obtain ⟨c₁, h₁, h⟩ := Option.bind_eq_some_iff.1 h
  have hnd : ((c.snapshots.rows.filter fun s => s.estado = .completed ∨ s.estado = .expired).map
      Snapshot.id).Nodup := c.snapshots.nodup.sublist (List.filter_sublist.map _)
  obtain ⟨hout, hin⟩ := foldlM_rotateSnapshot h₁ hnd k
  have hc' : c'.snapshots = c₁.snapshots := by
    rw [← (Prod.mk.inj (Option.some.inj h)).1, snapshots_setMasterSalt]
  have hsel : ∀ s, c.snapshots.find? k = some s → (k ∈ (c.snapshots.rows.filter fun s =>
      s.estado = .completed ∨ s.estado = .expired).map Snapshot.id ↔
        s.estado = .completed ∨ s.estado = .expired) := by
    intro s hs
    have hk := Table.key_of_find? hs
    simp only [List.mem_map, List.mem_filter, decide_eq_true_eq]
    constructor
    · rintro ⟨a, ⟨hmem, ha⟩, hak⟩
      have := Table.find?_of_mem hmem
      rw [hak, hs] at this
      exact Option.some.inj this ▸ ha
    · exact fun hs' => ⟨s, ⟨Table.mem_of_find? hs, hs'⟩, hk⟩
  rw [hc']
  cases hf : c.snapshots.find? k with
  | none =>
    have hk : k ∉ (c.snapshots.rows.filter fun s => s.estado = .completed ∨ s.estado = .expired).map
        Snapshot.id := by
      intro hmem
      obtain ⟨a, ha, hak⟩ := List.mem_map.1 hmem
      exact Table.find?_eq_none.1 hf a (List.mem_filter.1 ha).1 hak
    rw [hout hk, hf]
    simp
  | some s =>
    have hk := Table.key_of_find? hf
    by_cases hs : s.estado = .completed ∨ s.estado = .expired
    · obtain ⟨rawDek, nonce, hun, hrow⟩ :=
        hin s (List.mem_filter.2 ⟨Table.mem_of_find? hf, by simpa using hs⟩) hk
      rw [hf] at hrow
      refine ⟨by simp [hrow], fun a ha => ?_⟩
      obtain rfl := Option.some.inj ha
      exact ⟨fun _ => ⟨rawDek, nonce, hun, hrow⟩, fun hno => absurd hs hno⟩
    · have hrow := hout fun hmem => hs ((hsel s hf).1 hmem)
      rw [hf] at hrow
      refine ⟨by simp [hrow], fun a ha => ?_⟩
      obtain rfl := Option.some.inj ha
      exact ⟨fun hs' => absurd hs' hs, fun _ => hrow⟩

/-! ### Every run -/

/-- What a run keeps as long as backups complete under the KEK they derived. -/
structure Inv (A : Aead) (deriveKek : String → String → Bytes) (w : World) : Prop where
  readable : ∀ k s, w.cat.snapshots.find? k = some s → s.estado = .completed ∨ s.estado = .expired →
    ∃ dek, w.deks k = some dek ∧ Wraps A (w.kek deriveKek) dek s
  running : ∀ i id kek, w.backups i = .running id kek → ∃ s dek,
    w.cat.snapshots.find? id = some s ∧ s.estado = .running ∧ w.deks id = some dek ∧
      Wraps A kek dek s
  single : ∀ i j id kek kek', w.backups i = .running id kek → w.backups j = .running id kek' → i = j

variable {deriveKek : String → String → Bytes} {w w' : World}

theorem inv_init (passphrase salt : String) : Inv A deriveKek (World.init passphrase salt) where
  readable _ _ h := nomatch h
  running _ _ _ h := nomatch h
  single _ _ _ _ _ h := nomatch h

theorem Inv.recoverable (hw : Inv A deriveKek w) (hA : A.Correct) : Recoverable A deriveKek w := by
  intro s hs hst
  obtain ⟨dek, hdek, hwraps⟩ := hw.readable s.id s (Table.find?_of_mem hs) (Or.inl hst)
  exact ⟨dek, hdek, hwraps.unwrap hA⟩

/-- A backup that is no longer, or not yet, `running`. -/
theorem Inv.setBackup (hw : Inv A deriveKek w) (i : ℕ) {pc : BackupPc}
    (hpc : ∀ id kek, pc ≠ .running id kek) :
    Inv A deriveKek { w with backups := Function.update w.backups i pc } := by
  have hold : ∀ j id kek, Function.update w.backups i pc j = .running id kek →
      w.backups j = .running id kek := by
    intro j id kek h
    by_cases hj : j = i
    · subst hj
      rw [Function.update_self] at h
      exact absurd h (hpc id kek)
    · rwa [Function.update_of_ne hj] at h
  exact ⟨hw.readable, fun j id kek h => hw.running j id kek (hold j id kek h),
    fun j l id kek kek' hj hl => hw.single j l id kek kek' (hold j id kek hj) (hold l id kek' hl)⟩

/-- A change of `estado` of a snapshot that no backup is running. -/
theorem Inv.setEstado {id : String} {estado : Estado} (hw : Inv A deriveKek w)
    (hidle : ∀ i kek, w.backups i ≠ .running id kek)
    (hread : estado = .completed ∨ estado = .expired → ∀ s, w.cat.snapshots.find? id = some s →
      ∃ dek, w.deks id = some dek ∧ Wraps A (w.kek deriveKek) dek s) :
    Inv A deriveKek { w with cat := Catalog.setEstado id estado w.cat } := by
  refine ⟨fun k s hs hst => ?_, fun i id' kek h => ?_, hw.single⟩
  · rw [Catalog.find?_setEstado] at hs
    split_ifs at hs with hk
    · subst hk
      obtain ⟨s₀, hs₀, rfl⟩ := Option.map_eq_some_iff.1 hs
      obtain ⟨dek, hdek, hwraps⟩ := hread hst s₀ hs₀
      exact ⟨dek, hdek, hwraps⟩
    · exact hw.readable k s hs hst
  · obtain ⟨s, dek, hs, hst, hdek, hwraps⟩ := hw.running i id' kek h
    have hne : id ≠ id' := fun he => hidle i kek (he ▸ h)
    exact ⟨s, dek, by rw [Catalog.find?_setEstado, if_neg hne]; exact hs, hst, hdek, hwraps⟩

/-- A rotation: what the old KEK has given is the DEK, and the new wrapping holds it. -/
theorem Inv.rotate (hw : Inv A deriveKek w) (hA : A.Correct) (hR : A.RejectsOtherKeys)
    {newSalt : Option String} {n : ℕ} {last : String × String}
    (hnew : newKek = deriveKek last.1 last.2)
    (h : rotateKekInDatabase A oldKek newKek newSalt draws w.cat = some (c, n)) :
    Inv A deriveKek { w with cat := c, last } := by
  refine ⟨fun k s hs hst => ?_, fun i id kek hi => ?_, hw.single⟩
  · obtain ⟨hnone, hrow⟩ := rotateKekInDatabase_some h (k := k)
    cases hf : w.cat.snapshots.find? k with
    | none => simp [hnone.2 hf] at hs
    | some s₀ =>
      obtain ⟨hsel, hother⟩ := hrow s₀ hf
      by_cases hst₀ : s₀.estado = .completed ∨ s₀.estado = .expired
      · obtain ⟨rawDek, nonce, hun, hrow⟩ := hsel hst₀
        obtain ⟨dek, hdek, hwraps⟩ := hw.readable k s₀ hf hst₀
        have hkek : oldKek = w.kek deriveKek := by
          by_contra hne
          rw [hwraps.unwrap_other hR hne] at hun
          cases hun
        rw [hkek, hwraps.unwrap hA] at hun
        obtain rfl := Option.some.inj hun
        obtain rfl := Option.some.inj (hrow.symm.trans hs)
        refine ⟨dek, hdek, ?_⟩
        rw [World.kek, ← hnew]
        exact wraps_rewrap newKek nonce dek s₀
      · obtain rfl := Option.some.inj ((hother hst₀).symm.trans hs)
        exact absurd hst hst₀
  · obtain ⟨s, dek, hs, hst, hdek, hwraps⟩ := hw.running i id kek hi
    refine ⟨s, dek, ((rotateKekInDatabase_some h).2 s hs).2 ?_, hst, hdek, hwraps⟩
    simp [hst]

/-- A new snapshot, `RUNNING`, with its DEK wrapped under the KEK of its backup. -/
theorem Inv.insertRunning {snapshot : Snapshot} (hw : Inv A deriveKek w)
    (h : insertSnapshot snapshot w.cat = .ok c) (hst : snapshot.estado = .running)
    {kek dekRaw : Bytes} (hwraps : Wraps A kek dekRaw snapshot) (i : ℕ) : Inv A deriveKek { w with
      cat := c
      backups := Function.update w.backups i (.running snapshot.id kek)
      deks := Function.update w.deks snapshot.id (some dekRaw) } := by
  obtain ⟨hnew, hfind, -, -⟩ := Catalog.insertSnapshot_ok h
  have hne : ∀ j id kek', w.backups j = .running id kek' → id ≠ snapshot.id := by
    rintro j id kek' hj rfl
    obtain ⟨s, -, hs, -⟩ := hw.running j _ kek' hj
    rw [hnew] at hs
    cases hs
  refine ⟨fun k s hs hst' => ?_, fun j id kek' hj => ?_, fun j l id kek₁ kek₂ hj hl => ?_⟩
  · have hs : c.snapshots.find? k = some s := hs
    rw [hfind] at hs
    split_ifs at hs with hk
    · obtain rfl := Option.some.inj hs
      simp [hst] at hst'
    · obtain ⟨dek, hdek, hwraps'⟩ := hw.readable k s hs hst'
      exact ⟨dek, (Function.update_of_ne (Ne.symm hk) _ _).trans hdek, hwraps'⟩
  · by_cases hji : j = i
    · subst hji
      simp only [Function.update_self, BackupPc.running.injEq] at hj
      obtain ⟨rfl, rfl⟩ := hj
      exact ⟨snapshot, dekRaw, by simp [hfind], hst, by simp, hwraps⟩
    · simp only [Function.update_of_ne hji] at hj
      obtain ⟨s, dek, hs, hst', hdek, hwraps'⟩ := hw.running j id kek' hj
      have hid := hne j id kek' hj
      exact ⟨s, dek, by simp [hfind, Ne.symm hid, hs], hst',
        by simp [Function.update_of_ne hid, hdek], hwraps'⟩
  · by_cases hji : j = i <;> by_cases hli : l = i
    · exact hji.trans hli.symm
    · subst hji
      simp only [Function.update_self, BackupPc.running.injEq] at hj
      simp only [Function.update_of_ne hli] at hl
      exact absurd hj.1.symm (hne l id kek₂ hl)
    · subst hli
      simp only [Function.update_self, BackupPc.running.injEq] at hl
      simp only [Function.update_of_ne hji] at hj
      exact absurd hl.1.symm (hne j id kek₁ hj)
    · simp only [Function.update_of_ne hji] at hj
      simp only [Function.update_of_ne hli] at hl
      exact hw.single j l id kek₁ kek₂ hj hl

/-- What a step does. -/
inductive CommandStep (A : Aead) (deriveKek : String → String → Bytes) (w : World) :
    Event → World → Prop
  | unsalted {i : ℕ} (passphrase : String) : w.backups i = .idle → masterSalt w.cat = none →
    CommandStep A deriveKek w (.readSalt i passphrase)
      { w with backups := Function.update w.backups i .finished }
  | derived {i : ℕ} {salt : String} (passphrase : String) : w.backups i = .idle →
    masterSalt w.cat = some salt → CommandStep A deriveKek w (.readSalt i passphrase) { w with
      backups := Function.update w.backups i (.derived (deriveKek passphrase salt)) }
  | rejected {i : ℕ} {kek : Bytes} (s : Snapshot) (dekRaw dekNonce : Bytes) :
    w.backups i = .derived kek → CommandStep A deriveKek w (.insertRunning i s dekRaw dekNonce)
      { w with backups := Function.update w.backups i .finished }
  | inserted {i : ℕ} {kek : Bytes} {s : Snapshot} {dekRaw dekNonce : Bytes} {cat : Catalog} :
    w.backups i = .derived kek →
    insertSnapshot (newSnapshot s (generateDekForSnapshot A kek s.id dekRaw dekNonce)) w.cat =
      .ok cat → CommandStep A deriveKek w (.insertRunning i s dekRaw dekNonce) { w with
        cat
        backups := Function.update w.backups i (.running s.id kek)
        deks := Function.update w.deks s.id (some dekRaw) }
  | completed {i : ℕ} {id : String} {kek : Bytes} : w.backups i = .running id kek →
    CommandStep A deriveKek w (.complete i) { w with
      cat := setEstado id .completed w.cat
      backups := Function.update w.backups i .finished }
  | failed {i : ℕ} {id : String} {kek : Bytes} : w.backups i = .running id kek →
    CommandStep A deriveKek w (.fail i) { w with
      cat := setEstado id .failed w.cat
      backups := Function.update w.backups i .finished }
  | unrotated (oldPassphrase newPassphrase newSalt : String) (draws : String → Bytes × Bytes) :
    CommandStep A deriveKek w (.rotate oldPassphrase newPassphrase newSalt draws) w
  | rotated {oldPassphrase newPassphrase newSalt salt : String} {draws : String → Bytes × Bytes}
    {cat : Catalog} {n : ℕ} : masterSalt w.cat = some salt →
    rotateKekInDatabase A (deriveKek oldPassphrase salt) (deriveKek newPassphrase newSalt)
      (some newSalt) draws w.cat = some (cat, n) →
    CommandStep A deriveKek w (.rotate oldPassphrase newPassphrase newSalt draws)
      { w with cat, last := (newPassphrase, newSalt) }
  | expired {id : String} {s : Snapshot} : w.cat.snapshots.find? id = some s →
    s.estado = .completed →
    CommandStep A deriveKek w (.expire id) { w with cat := setEstado id .expired w.cat }

theorem commandStep_of_step {e : Event} (h : step A deriveKek w e = some w') :
    CommandStep A deriveKek w e w' := by
  cases e with
  | readSalt i passphrase =>
    simp only [step] at h
    split at h
    · next hi =>
      obtain rfl := Option.some.inj h
      cases hsalt : masterSalt w.cat with
      | none => exact .unsalted passphrase hi hsalt
      | some salt => exact .derived passphrase hi hsalt
    · cases h
  | insertRunning i s dekRaw dekNonce =>
    simp only [step] at h
    split at h
    · next kek hi =>
      split at h
      · obtain rfl := Option.some.inj h
        exact .rejected s dekRaw dekNonce hi
      · next cat hins =>
        obtain rfl := Option.some.inj h
        exact .inserted hi hins
    · cases h
  | complete i =>
    simp only [step] at h
    split at h
    · next id kek hi =>
      obtain rfl := Option.some.inj h
      exact .completed hi
    · cases h
  | fail i =>
    simp only [step] at h
    split at h
    · next id kek hi =>
      obtain rfl := Option.some.inj h
      exact .failed hi
    · cases h
  | rotate oldPassphrase newPassphrase newSalt draws =>
    simp only [step] at h
    split at h
    · obtain rfl := Option.some.inj h
      exact .unrotated ..
    · next salt hsalt =>
      split at h
      · obtain rfl := Option.some.inj h
        exact .unrotated ..
      · next hrot =>
        obtain rfl := Option.some.inj h
        exact .rotated hsalt hrot
  | expire id =>
    simp only [step] at h
    split at h
    · next s hs =>
      split_ifs at h with hst
      obtain rfl := Option.some.inj h
      exact .expired hs hst
    · cases h

/-- Once the backup of a snapshot is over, no backup of it is running. -/
theorem Inv.not_running_of_finished (hw : Inv A deriveKek w) {i j : ℕ} {id : String}
    {kek kek' : Bytes} (hi : w.backups i = .running id kek) :
    Function.update w.backups i .finished j ≠ .running id kek' := by
  intro hj
  by_cases hji : j = i
  · simp [hji] at hj
  · rw [Function.update_of_ne hji] at hj
    exact hji (hw.single j i id kek' kek hj hi)

/-- **One step keeps the invariant** when a backup that completes does so under
the KEK it has derived. -/
theorem inv_step (hA : A.Correct) (hR : A.RejectsOtherKeys) (w : World) (e : Event) (w' : World)
    (hw : Inv A deriveKek w) (h : step A deriveKek w e = some w')
    (hok : CompletesUnderLast deriveKek w e) : Inv A deriveKek w' := by
  have hfinished (i : ℕ) :
      Inv A deriveKek { w with backups := Function.update w.backups i .finished } :=
    hw.setBackup i fun _ _ => BackupPc.noConfusion
  cases commandStep_of_step h with
  | @unsalted i => exact hfinished i
  | derived => exact hw.setBackup _ fun _ _ => BackupPc.noConfusion
  | @rejected i => exact hfinished i
  | @inserted i kek s dekRaw dekNonce cat hi hins =>
    exact hw.insertRunning hins rfl (wraps_newSnapshot kek dekRaw dekNonce s) i
  | @completed i id kek hi =>
    refine (hfinished i).setEstado (fun j kek' => hw.not_running_of_finished hi) fun _ s hs => ?_
    obtain ⟨s', dek, hs', -, hdek, hwraps⟩ := hw.running i id kek hi
    obtain rfl := Option.some.inj (hs'.symm.trans hs)
    exact ⟨dek, hdek, hok id kek hi ▸ hwraps⟩
  | @failed i id kek hi =>
    exact (hfinished i).setEstado (fun j kek' => hw.not_running_of_finished hi) fun hst => by
      simp at hst
  | unrotated => exact hw
  | rotated _ hrot => exact hw.rotate hA hR rfl hrot
  | @expired id s hs hst =>
    refine hw.setEstado (fun i kek hi => ?_) fun _ s' hs' => ?_
    · obtain ⟨s', -, hs', hrun, -⟩ := hw.running i id kek hi
      obtain rfl := Option.some.inj (hs'.symm.trans hs)
      simp [hst] at hrun
    · obtain rfl := Option.some.inj (hs'.symm.trans hs)
      exact hw.readable id s' hs' (Or.inl hst)

/-- A backup that completes under another KEK than that of the last rotation
leaves a snapshot that cannot be read. -/
theorem not_recoverable_of_step (hR : A.RejectsOtherKeys) (w : World) (e : Event) (w' : World)
    (hw : Inv A deriveKek w) (h : step A deriveKek w e = some w')
    (hno : ¬ CompletesUnderLast deriveKek w e) : ¬ Recoverable A deriveKek w' := by
  cases e with
  | complete i =>
    simp only [CompletesUnderLast, not_forall] at hno
    obtain ⟨id, kek, hi, hne⟩ := hno
    simp only [step, hi] at h
    obtain rfl := Option.some.inj h
    obtain ⟨s, dek, hs, -, -, hwraps⟩ := hw.running i id kek hi
    have hrow : (Catalog.setEstado id .completed w.cat).snapshots.find? id =
        some { s with estado := .completed } := by
      rw [Catalog.find?_setEstado, if_pos rfl, hs]
      rfl
    intro hrec
    obtain ⟨dek', -, hun⟩ := hrec _ (Table.mem_of_find? hrow) rfl
    have hnone := hwraps.unwrap_other hR (Ne.symm hne)
    exact absurd (hnone.symm.trans hun) (by simp)
  | _ => exact absurd trivial hno

/-- **When every completed backup can be read.**  In a run of backups and
rotations, every `COMPLETED` snapshot is read, in every state, with the
passphrase and the salt of the last successful rotation exactly when each backup
commits `COMPLETED` under the KEK of the last successful rotation: no rotation
to another KEK has come between its derivation and its commit. -/
theorem recoverable_iff_completesUnderLast (A : Aead) (deriveKek : String → String → Bytes)
    (hA : A.Correct) (hR : A.RejectsOtherKeys) (passphrase salt : String) (es : List Event) :
    AllStates (step A deriveKek) (Recoverable A deriveKek) (World.init passphrase salt) es ↔
      AllSteps (step A deriveKek) (CompletesUnderLast deriveKek) (World.init passphrase salt) es :=
  allStates_iff_allSteps (fun _ hw => hw.recoverable hA) (inv_step hA hR)
    (not_recoverable_of_step hR) (inv_init passphrase salt) es

end

/-- A KEK for examples. -/
def clearKek (passphrase salt : String) : Bytes := utf8 (passphrase ++ salt)

/-- A backup, and then a rotation. -/
def backupThenRotation : List Event :=
  [.readSalt 0 "p", .insertRunning 0 (Catalog.runningSnapshot "snap-1") [7] [0], .complete 0,
    .rotate "p" "q" "t" fun _ => ([], [])]

/-- A rotation while a backup is running. -/
def rotationDuringBackup : List Event :=
  [.readSalt 0 "p", .insertRunning 0 (Catalog.runningSnapshot "snap-1") [7] [0],
    .rotate "p" "q" "t" fun _ => ([], []), .complete 0]

/-- A backup that is over when the rotation comes stays readable. -/
theorem recoverable_backupThenRotation : AllStates (step clearAead clearKek)
    (Recoverable clearAead clearKek) (World.init "p" "s") backupThenRotation := by
  refine (recoverable_iff_completesUnderLast clearAead clearKek clearAead_correct
    clearAead_rejectsOtherKeys "p" "s" _).2 ?_
  rintro _ h
  obtain rfl := Option.some.inj h
  refine ⟨trivial, ?_⟩
  rintro _ h
  obtain rfl := Option.some.inj h
  refine ⟨trivial, ?_⟩
  rintro _ h
  obtain rfl := Option.some.inj h
  refine ⟨?_, fun _ _ => ⟨trivial, trivial⟩⟩
  rintro id kek h
  exact (BackupPc.running.inj h).2.symm

/-- **A rotation loses the DEK of a backup that is running**: its snapshot is not
re-wrapped, and commits `COMPLETED` under a salt that is no longer there. -/
theorem not_recoverable_rotationDuringBackup : clearAead.Correct ∧ clearAead.RejectsOtherKeys ∧
    ¬ AllStates (step clearAead clearKek) (Recoverable clearAead clearKek) (World.init "p" "s")
      rotationDuringBackup := by
  refine ⟨clearAead_correct, clearAead_rejectsOtherKeys, ?_⟩
  rintro ⟨-, h⟩
  have h₄ := (((h _ rfl).2 _ rfl).2 _ rfl).2 _ rfl
  obtain ⟨dek, -, hdek⟩ := h₄ _ (List.mem_singleton_self _) rfl
  have hwraps := wraps_newSnapshot (A := clearAead) (clearKek "p" "s") [7] [0]
    (Catalog.runningSnapshot "snap-1")
  have hnone := hwraps.unwrap_other clearAead_rejectsOtherKeys
    (show clearKek "q" "t" ≠ clearKek "p" "s" by decide)
  exact absurd (hnone.symm.trans hdek) (by simp)

end Rotation
end Boveda

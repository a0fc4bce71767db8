/-
# What two backups share

The pool row of a block is looked up under the hash of what is stored, header and
ciphertext, and no such hash comes twice.  The header holds the number of the
chunk and the AAD the id of the snapshot, so that blocks of two snapshots, or of
two places of one, differ whatever their chunks are (`Seals.place_of_payload`).
With AES-GCM as documented and no collision of SHA-256, a backup shares its blocks
with an earlier one of the same stream exactly when the stream is empty
(`dedups_iff_nil`).

A history is made of backups in which nothing fails and of retention runs, over
an engine that lets the transactions of an upload in.
-/

import Boveda.Catalog.Failures
import Boveda.Pipeline.FastCDC
import Boveda.Pipeline.Seal

namespace Boveda
namespace Dedup

open Lib Crypto Pipeline Catalog

/-- What a backup has drawn and read: the row of its snapshot, with the `uuid4` of
its id, the DEK, the nonces, and the output of the subprocess. -/
structure Run where
  snapshot : Snapshot
  dek : Bytes
  nonceGen : NonceGenerator
  data : Bytes
  now : Time

section

variable (P : Primitives) (gear : UInt8 → ℕ)

/-- The blocks that `compress_encrypt_upload` makes. -/
def Run.blocks (r : Run) : Option (List Sealed) :=
  sealAll P r.dek r.snapshot.id 0 r.nonceGen (chunksOf gear r.data)

/-- A block whose upload goes through. -/
def uploadOf (now : Time) (block : Sealed) : Block where
  payload := block.payload
  cHash := block.hash
  now := now

/-- The store, and the backups that have been made. -/
structure History where
  store : Store
  runs : List Run

/-- Before the first command. -/
def History.init : History := ⟨.init, []⟩

/-- What happens between two states in which nothing is in flight. -/
inductive Event
  | backup (r : Run)
  | setEstado (id : String) (estado : Estado)
  | purgeSnapshot (id : String) (now : Time)
  | executeTwoPhasePurge (batchSize : ℕ) (o : DeleteOutcome)

/-- A backup takes an id that no backup has taken before, and it is only a step
when nothing in it fails. -/
def step (h : History) : Event → Option History
  | .backup r =>
    if r.snapshot.id ∈ h.runs.map (fun r => r.snapshot.id) ∨
      (h.store.cat.snapshots.find? r.snapshot.id).isSome then none
    else (r.blocks P gear).map fun blocks =>
      ⟨backup r.snapshot (blocks.map (uploadOf r.now)) .completed h.store, h.runs ++ [r]⟩
  | .setEstado id estado => some { h with store := perform h.store (.setEstado id estado) }
  | .purgeSnapshot id now => some { h with store := perform h.store (.purgeSnapshot id now) }
  | .executeTwoPhasePurge n o =>
    some { h with store := perform h.store (.executeTwoPhasePurge n o) }

/-- No two blocks of the backups have one hash without being the same. -/
def CollisionFree (runs : List Run) : Prop :=
  ∀ r ∈ runs, ∀ r' ∈ runs, ∀ blocks blocks' : List Sealed, r.blocks P gear = some blocks →
    r'.blocks P gear = some blocks' → ∀ b ∈ blocks, ∀ b' ∈ blocks', b.hash = b'.hash →
      b.payload = b'.payload

/-- Equal chunks of a stream are stored under one hash. -/
def SharesInside (r : Run) : Prop :=
  ∀ blocks, r.blocks P gear = some blocks → ∀ (i j : ℕ) (chunk : Bytes) (b b' : Sealed),
    (chunksOf gear r.data)[i]? = some chunk → (chunksOf gear r.data)[j]? = some chunk →
      blocks[i]? = some b → blocks[j]? = some b' → b.hash = b'.hash

/-- The backup `second`, which leads from `h` to `h'`, shares its blocks with the
backup `first`: their hashes are the same, no row and no object is new, and equal
chunks of the stream share a row. -/
structure Dedups (first second : Run) (h h' : History) : Prop where
  hashes : (second.blocks P gear).map (·.map Sealed.hash) =
    (first.blocks P gear).map (·.map Sealed.hash)
  pool : ∀ k, (h'.store.cat.chunkPool.find? k).isSome = true →
    (h.store.cat.chunkPool.find? k).isSome = true
  objects : ∀ key, (h'.store.s3 key).isSome = true → (h.store.s3 key).isSome = true
  inside : SharesInside P gear second

end

variable {P : Primitives} {gear : UInt8 → ℕ}

/-! ### No payload comes twice -/

/-- **A payload names its place**: the number of the chunk, and the snapshot. -/
theorem place_of_payload (hA : P.aead.Correct) (hAad : P.aead.RejectsOtherAad)
    {dek dek' : Bytes} {id id' : String} {seq seq' : ℕ} {chunk chunk' : Bytes} {b b' : Sealed}
    (h : Seals P dek id seq chunk b) (h' : Seals P dek' id' seq' chunk' b')
    (heq : b.payload = b'.payload) : id = id' ∧ seq = seq' := by
  obtain ⟨nonce, header, hn, hheader, -, -, hpay⟩ := h
  obtain ⟨nonce', header', hn', hheader', -, -, hpay'⟩ := h'
  rw [hpay, hpay'] at heq
  obtain ⟨rfl, hct⟩ := List.append_inj heq
    ((length_createChunkHeader hheader).trans (length_createChunkHeader hheader').symm)
  have hparse := (parse_createChunkHeader hheader hn).symm.trans
    (parse_createChunkHeader hheader' hn')
  obtain ⟨rfl, hrest⟩ := Prod.mk.inj (Except.ok.inj hparse)
  obtain ⟨rfl, -⟩ := Prod.mk.inj hrest
  refine ⟨?_, rfl⟩
  by_contra hid
  have haad : createAad header id' ≠ createAad header id := fun he =>
    hid (createAad_inj rfl he).2.symm
  have hnone := hAad dek dek' nonce (P.compress chunk) _ _ haad
  rw [hct, hA] at hnone
  cases hnone

/-- Where a block of a backup comes from. -/
theorem Run.seals {r : Run} {blocks : List Sealed} (h : r.blocks P gear = some blocks) {i : ℕ}
    {b : Sealed} (hb : blocks[i]? = some b) :
    ∃ chunk, (chunksOf gear r.data)[i]? = some chunk ∧ Seals P r.dek r.snapshot.id i chunk b := by
  obtain ⟨hlen, hseals⟩ := seals_sealAll h
  have hi : i < (chunksOf gear r.data).length := hlen ▸ (List.getElem?_eq_some_iff.1 hb).1
  refine ⟨(chunksOf gear r.data)[i], List.getElem?_eq_getElem hi, ?_⟩
  have := hseals i _ b (List.getElem?_eq_getElem hi) hb
  rwa [Nat.zero_add] at this

/-- Blocks with one hash are of one snapshot and have one number. -/
theorem place_of_hash (hA : P.aead.Correct) (hAad : P.aead.RejectsOtherAad) {runs : List Run}
    (hfree : CollisionFree P gear runs) {r r' : Run} (hr : r ∈ runs) (hr' : r' ∈ runs)
    {blocks blocks' : List Sealed} (h : r.blocks P gear = some blocks)
    (h' : r'.blocks P gear = some blocks') {i j : ℕ} {b b' : Sealed} (hb : blocks[i]? = some b)
    (hb' : blocks'[j]? = some b') (heq : b.hash = b'.hash) :
    r.snapshot.id = r'.snapshot.id ∧ i = j := by
  obtain ⟨chunk, -, hs⟩ := Run.seals h hb
  obtain ⟨chunk', -, hs'⟩ := Run.seals h' hb'
  exact place_of_payload hA hAad hs hs' (hfree r hr r' hr' blocks blocks' h h' b
    (List.mem_of_getElem? hb) b' (List.mem_of_getElem? hb') heq)

/-! ### Where the rows come from -/

/-- The uploads of a backup in which nothing fails give every block its row. -/
theorem uploadAll_returns {id : String} {seq : ℕ} {w : Store} (hw : InBackup id seq w.cat)
    (now : Time) (blocks : List Sealed) :
    Settled (uploadAll id seq (blocks.map (uploadOf now)) w).cat ∧ ∀ k,
      ((uploadAll id seq (blocks.map (uploadOf now)) w).cat.chunkPool.find? k).isSome = true ↔
        k ∈ blocks.map Sealed.hash ∨ (w.cat.chunkPool.find? k).isSome = true := by
  induction blocks generalizing seq w with
  | nil => exact ⟨hw.settled, fun k => by simp [uploadAll]⟩
  | cons b bs ih =>
    have hclean : ¬ (uploadOf now b).Fails w.cat := by simp [Block.Fails, uploadOf]
    obtain ⟨c₁, r, hr, -, hother, -, -, -, hgoes⟩ := (uploadOf now b).upload_spec hw
    obtain ⟨c₂, hup, h₂, hw₂⟩ := hgoes hclean
    obtain ⟨-, hfind, -⟩ := insertSnapshotChunk_ok h₂
    have hall : uploadAll id seq ((b :: bs).map (uploadOf now)) w =
        uploadAll id (seq + 1) (bs.map (uploadOf now)) ⟨c₂, (uploadOf now b).s3After w⟩ := by
      rw [List.map_cons, uploadAll, hup]
    have hrow : ∀ k, (c₂.chunkPool.find? k).isSome = true ↔
        k = b.hash ∨ (w.cat.chunkPool.find? k).isSome = true := by
      intro k
      have hsome : (c₂.chunkPool.find? k).isSome = (c₁.chunkPool.find? k).isSome := by
        rw [hfind]
        split_ifs
        · exact Option.isSome_map
        · rfl
      rw [hsome]
      by_cases hk : k = b.hash
      · have hrow : c₁.chunkPool.find? b.hash = some r := hr
        simp [hk, hrow]
      · rw [hother k hk]
        simp [hk]
    obtain ⟨hsettled, hrows⟩ := ih (w := ⟨c₂, (uploadOf now b).s3After w⟩) hw₂
    rw [hall]
    refine ⟨hsettled, fun k => ?_⟩
    rw [hrows, hrow, List.map_cons, List.mem_cons]
    tauto

/-- Every row of the pool is that of a block of a backup. -/
structure Traced (P : Primitives) (gear : UInt8 → ℕ) (h : History) : Prop where
  settled : Settled h.store.cat
  origin : ∀ k, (h.store.cat.chunkPool.find? k).isSome = true →
    ∃ r ∈ h.runs, ∃ blocks, r.blocks P gear = some blocks ∧ k ∈ blocks.map Sealed.hash

theorem traced_init : Traced P gear .init := ⟨settled_empty, fun _ hk => nomatch hk⟩

/-- What a backup step does. -/
theorem step_backup {h h' : History} {r : Run} (hs : step P gear h (.backup r) = some h') :
    r.snapshot.id ∉ h.runs.map (fun r => r.snapshot.id) ∧ ∃ blocks cat,
      r.blocks P gear = some blocks ∧ insertSnapshot r.snapshot h.store.cat = .ok cat ∧
      h'.runs = h.runs ++ [r] ∧ h'.store =
        { uploadAll r.snapshot.id 0 (blocks.map (uploadOf r.now)) ⟨cat, h.store.s3⟩ with
          cat := setEstado r.snapshot.id .completed
            (uploadAll r.snapshot.id 0 (blocks.map (uploadOf r.now)) ⟨cat, h.store.s3⟩).cat } := by
  dsimp only [step] at hs
  split_ifs at hs with hid
  obtain ⟨blocks, hblocks, rfl⟩ := Option.map_eq_some_iff.1 hs
  rw [not_or, Option.not_isSome_iff_eq_none] at hid
  have hins : insertSnapshot r.snapshot h.store.cat =
      .ok { h.store.cat with snapshots := h.store.cat.snapshots.insert r.snapshot hid.2 } :=
    dif_pos hid.2
  refine ⟨hid.1, blocks, _, hblocks, hins, rfl, ?_⟩
  simp only [backup, hins]

/-- The rows after a backup are those before it and those of its blocks. -/
theorem step_backup_pool {h h' : History} {r : Run} (hc : Settled h.store.cat)
    (hs : step P gear h (.backup r) = some h') : ∃ blocks, r.blocks P gear = some blocks ∧
      Settled h'.store.cat ∧ ∀ k, (h'.store.cat.chunkPool.find? k).isSome = true ↔
        k ∈ blocks.map Sealed.hash ∨ (h.store.cat.chunkPool.find? k).isSome = true := by
  obtain ⟨-, blocks, cat, hblocks, hins, -, hstore⟩ := step_backup hs
  obtain ⟨hsettled, hrows⟩ := uploadAll_returns (w := ⟨cat, h.store.s3⟩) (InBackup.start hc hins)
    r.now blocks
  obtain ⟨-, -, hpool, -⟩ := insertSnapshot_ok hins
  refine ⟨blocks, hblocks, ?_, fun k => ?_⟩
  · rw [hstore]
    exact hsettled.setEstado _ _
  · rw [hstore, ← hpool]
    exact hrows k

/-- Retention brings no row in. -/
theorem Traced.retention {h : History} {store : Store} (hh : Traced P gear h)
    (hc : Settled store.cat)
    (hrows : ∀ k, (store.cat.chunkPool.find? k).isSome = true →
      (h.store.cat.chunkPool.find? k).isSome = true) : Traced P gear { h with store } :=
  ⟨hc, fun k hk => hh.origin k (hrows k hk)⟩

/-- A purge of a snapshot keeps the catalog settled and brings no row in. -/
theorem purgeSnapshot_traced {c c' : Catalog} {now : Time} {id : String} (hc : Settled c)
    (h : purgeSnapshot now id c = .ok c') : Settled c' ∧ ∀ k,
      (c'.chunkPool.find? k).isSome = true → (c.chunkPool.find? k).isSome = true := by
  refine hc.purgeSnapshot_rule (J := fun d => ∀ k, (d.chunkPool.find? k).isSome = true →
    (c.chunkPool.find? k).isSome = true) (fun _ hk => hk) (fun d l _ _ hJ k hk => hJ k ?_)
    (fun d d' hp _ hJ k hk => hJ k (hp ▸ hk)) h
  rw [find?_deleteSnapshotChunk] at hk
  split_ifs at hk
  · rwa [Option.isSome_map] at hk
  · exact hk

theorem Traced.step {h h' : History} {e : Event} (hh : Traced P gear h)
    (hs : Dedup.step P gear h e = some h') : Traced P gear h' := by
  cases e with
  | backup r =>
    obtain ⟨-, blocks, cat, hblocks, -, hruns, -⟩ := step_backup hs
    obtain ⟨blocks', hblocks', hc, hrows⟩ := step_backup_pool hh.settled hs
    obtain rfl := Option.some.inj (hblocks.symm.trans hblocks')
    refine ⟨hc, fun k hk => ?_⟩
    rw [hruns]
    rcases (hrows k).1 hk with hnew | hold
    · exact ⟨r, by simp, blocks, hblocks, hnew⟩
    · obtain ⟨r₀, hr₀, horigin⟩ := hh.origin k hold
      exact ⟨r₀, List.mem_append_left _ hr₀, horigin⟩
  | setEstado id estado =>
    obtain rfl := Option.some.inj hs
    exact hh.retention (hh.settled.setEstado id estado) fun _ hk => hk
  | purgeSnapshot id now =>
    obtain rfl := Option.some.inj hs
    simp only [perform]
    cases hp : purgeSnapshot now id h.store.cat with
    | error e => exact hh.retention hh.settled fun _ hk => hk
    | ok c =>
      obtain ⟨hc, hrows⟩ := purgeSnapshot_traced hh.settled hp
      exact hh.retention hc hrows
  | executeTwoPhasePurge n o =>
    obtain rfl := Option.some.inj hs
    obtain ⟨hfind, -⟩ := executeTwoPhasePurge_spec hh.settled n o
    refine hh.retention (settled_executeTwoPhasePurge hh.settled n o) fun k hk => ?_
    simp only [perform, hfind] at hk
    split_ifs at hk
    · cases hk
    · exact hk

/-! ### Sharing -/

/-- Nothing is cut from an empty stream. -/
theorem chunksOf_nil : chunksOf gear [] = [] := (chunksOf_eq []).trans Cutter.finish_nil

/-- A stream that is not empty has a first chunk. -/
theorem chunksOf_ne_nil {data : Bytes} (h : data ≠ []) : chunksOf gear data ≠ [] := by
  intro hnil
  have hflat : (chunksOf gear data).flatten = data := flatten_chunksOf data
  rw [hnil] at hflat
  exact h hflat.symm

/-- **Every block of a backup brings a row of its own**, whatever has been backed
up before. -/
theorem hash_new (hA : P.aead.Correct) (hAad : P.aead.RejectsOtherAad) {h h' : History}
    {r : Run} (hh : Traced P gear h) (hs : step P gear h (.backup r) = some h')
    (hfree : CollisionFree P gear h'.runs) {blocks : List Sealed}
    (hblocks : r.blocks P gear = some blocks) {b : Sealed} (hb : b ∈ blocks) :
    (h.store.cat.chunkPool.find? b.hash).isSome = false := by
  obtain ⟨hid, -, -, -, -, hruns, -⟩ := step_backup hs
  rw [Bool.eq_false_iff]
  intro hold
  obtain ⟨r₀, hr₀, blocks₀, hblocks₀, hmem⟩ := hh.origin _ hold
  obtain ⟨b₀, hb₀, heq⟩ := List.mem_map.1 hmem
  obtain ⟨i, hi⟩ := List.mem_iff_getElem?.1 hb
  obtain ⟨j, hj⟩ := List.mem_iff_getElem?.1 hb₀
  rw [hruns] at hfree
  have hplace := place_of_hash hA hAad hfree (List.mem_append_left _ hr₀) (by simp) hblocks₀
    hblocks hj hi heq
  exact hid (List.mem_map.2 ⟨r₀, hr₀, hplace.1⟩)

/-- **Equal chunks of a stream have rows of their own**, unless there are none. -/
theorem sharesInside_iff (hA : P.aead.Correct) (hAad : P.aead.RejectsOtherAad) {r : Run}
    {blocks : List Sealed} (hfree : CollisionFree P gear [r])
    (hblocks : r.blocks P gear = some blocks) :
    SharesInside P gear r ↔ (chunksOf gear r.data).Nodup := by
  have hlen := (seals_sealAll hblocks).1
  constructor
  · intro hshare
    rw [List.nodup_iff_injective_get]
    intro i j hij
    have hi : (chunksOf gear r.data)[i.1]? = some ((chunksOf gear r.data).get i) :=
      List.getElem?_eq_getElem i.2
    have hj : (chunksOf gear r.data)[j.1]? = some ((chunksOf gear r.data).get i) := by
      rw [hij]
      exact List.getElem?_eq_getElem j.2
    have hbi := List.getElem?_eq_getElem (i.2.trans_eq hlen.symm)
    have hbj := List.getElem?_eq_getElem (j.2.trans_eq hlen.symm)
    have heq := hshare blocks hblocks i j _ _ _ hi hj hbi hbj
    exact Fin.ext (place_of_hash hA hAad hfree (by simp) (by simp) hblocks hblocks hbi hbj heq).2
  · intro hnd blocks' hblocks' i j chunk b b' hi hj hb hb'
    obtain ⟨hilt, hieq⟩ := List.getElem?_eq_some_iff.1 hi
    obtain ⟨hjlt, hjeq⟩ := List.getElem?_eq_some_iff.1 hj
    obtain rfl : i = j := (List.Nodup.getElem_inj_iff hnd).1 (hieq.trans hjeq.symm)
    exact congrArg Sealed.hash (Option.some.inj (hb.symm.trans hb'))

/-- A backup of something adds a row. -/
theorem not_dedups (hA : P.aead.Correct) (hAad : P.aead.RejectsOtherAad) {h h' : History}
    {first second : Run} (hh : Traced P gear h) (hs : step P gear h (.backup second) = some h')
    (hfree : CollisionFree P gear h'.runs) (hne : second.data ≠ []) :
    ¬ Dedups P gear first second h h' := by
  intro hd
  obtain ⟨blocks, hblocks, -, hrows⟩ := step_backup_pool hh.settled hs
  have hlen := (seals_sealAll hblocks).1
  cases blocks with
  | nil => exact chunksOf_ne_nil hne (List.length_eq_zero_iff.1 hlen.symm)
  | cons b bs =>
    have hnew := hash_new hA hAad hh hs hfree hblocks (List.mem_cons_self ..)
    have hold := hd.pool b.hash ((hrows b.hash).2 (Or.inl (by simp)))
    rw [hnew] at hold
    cases hold

/-- A backup of nothing adds nothing. -/
theorem dedups_nil {h h' : History} {first second : Run}
    (hs : step P gear h (.backup second) = some h') (hfirst : first.data = [])
    (hnil : second.data = []) : Dedups P gear first second h h' := by
  have hempty : ∀ r : Run, r.data = [] → r.blocks P gear = some [] := by
    intro r hr
    rw [Run.blocks, hr, chunksOf_nil]
    rfl
  obtain ⟨-, blocks, cat, hblocks, hins, -, hstore⟩ := step_backup hs
  obtain rfl := Option.some.inj ((hempty second hnil).symm.trans hblocks)
  obtain ⟨-, -, hpool, -⟩ := insertSnapshot_ok hins
  refine ⟨by rw [hempty first hfirst, hempty second hnil], fun k hk => ?_, fun key hk => ?_, ?_⟩
  · rw [hstore] at hk
    rw [← hpool]
    exact hk
  · rw [hstore] at hk
    exact hk
  · intro blocks' _ i j chunk b b' hi
    rw [hnil, chunksOf_nil] at hi
    cases hi

/-- **When a backup shares its blocks.**  In any history of backups and retention
runs, a backup of a stream that has been backed up before adds no row and no
object, finds its blocks under the hashes of the earlier backup and lets equal
chunks share a row exactly when the stream is empty. -/
theorem dedups_iff_nil (P : Primitives) (gear : UInt8 → ℕ) (hA : P.aead.Correct)
    (hAad : P.aead.RejectsOtherAad) {h h' : History} (hreach : Reachable (step P gear) .init h)
    {first second : Run} (_hfirst : first ∈ h.runs) (hdata : first.data = second.data)
    (hs : step P gear h (.backup second) = some h') (hfree : CollisionFree P gear h'.runs) :
    Dedups P gear first second h h' ↔ second.data = [] := by
  have hh : Traced P gear h := hreach.invariant traced_init fun _ _ _ hI _ hs => hI.step hs
  refine ⟨fun hd => ?_, fun hnil => dedups_nil hs (hdata.trans hnil) hnil⟩
  by_contra hne
  exact not_dedups hA hAad hh hs hfree hne hd

/-! ### Two backups of three bytes -/

/-- A backup of three bytes with the libraries of the examples. -/
def smallRun (id : String) : Run where
  snapshot := runningSnapshot id
  dek := [7]
  nonceGen := smallNonces
  data := [1, 2, 3]
  now := 0

/-- A short stream is one chunk. -/
theorem blocks_smallRun (id : String) : (smallRun id).blocks clearPrimitives (fun _ => 0) =
    sealAll clearPrimitives [7] id 0 smallNonces [[1, 2, 3]] := by
  have hcut : firstCut (fun _ => 0) [1, 2, 3] = none := if_pos (by unfold minChunkSize; decide)
  rw [Run.blocks, smallRun, chunksOf_eq,
    Cutter.finish_of_none (C := cutter fun _ => 0) hcut (List.cons_ne_nil _ _)]
  rfl

/-- The digest of the examples has no collision. -/
theorem sha256_clear_injective : Function.Injective clearPrimitives.sha256 := by
  intro bs bs' h
  have hinj : Function.Injective fun b : UInt8 => Char.ofNat b.toNat := by
    intro b b' hbb
    have hval : ∀ b : UInt8, (Char.ofNat b.toNat).toNat = b.toNat := by
      intro b
      have := b.toNat_lt
      rw [Char.ofNat, dif_pos (Or.inl (by omega))]
      rfl
    have := congrArg Char.toNat hbb
    simp only [hval] at this
    exact UInt8.toNat_inj.1 this
  exact List.map_injective_iff.2 hinj (String.ofList_injective h)

theorem collisionFree_clear (gear : UInt8 → ℕ) (runs : List Run) :
    CollisionFree clearPrimitives gear runs := by
  intro r _ r' _ blocks blocks' hblocks hblocks' b hb b' hb' heq
  obtain ⟨i, hi⟩ := List.mem_iff_getElem?.1 hb
  obtain ⟨j, hj⟩ := List.mem_iff_getElem?.1 hb'
  obtain ⟨-, -, -, -, -, -, -, hh, -⟩ := Run.seals hblocks hi
  obtain ⟨-, -, -, -, -, -, -, hh', -⟩ := Run.seals hblocks' hj
  rw [hh, hh'] at heq
  exact sha256_clear_injective heq

/-- The first backup is made, and the second can follow. -/
theorem step_smallRun : ∃ h h', step clearPrimitives (fun _ => 0) .init
    (.backup (smallRun "snap-1")) = some h ∧ h.runs = [smallRun "snap-1"] ∧
      step clearPrimitives (fun _ => 0) h (.backup (smallRun "snap-2")) = some h' := by
  have hfirst : ((sealAll clearPrimitives [7] "snap-1" 0 smallNonces [[1, 2, 3]]).map fun blocks =>
      backup (runningSnapshot "snap-1") (blocks.map (uploadOf 0)) .completed Store.init).map
        (fun w => (w.cat.snapshots.find? "snap-2").isSome) = some false := by decide +kernel
  have hsecond : (sealAll clearPrimitives [7] "snap-2" 0 smallNonces [[1, 2, 3]]).isSome = true := by
    decide +kernel
  obtain ⟨w, hw, hfree⟩ := Option.map_eq_some_iff.1 hfirst
  obtain ⟨blocks, hblocks, rfl⟩ := Option.map_eq_some_iff.1 hw
  obtain ⟨blocks', hblocks'⟩ := Option.isSome_iff_exists.1 hsecond
  let h : History := ⟨backup (runningSnapshot "snap-1") (blocks.map (uploadOf 0)) .completed
    Store.init, [smallRun "snap-1"]⟩
  have hnew : ¬ ((smallRun "snap-2").snapshot.id ∈ h.runs.map (fun r => r.snapshot.id) ∨
      (h.store.cat.snapshots.find? (smallRun "snap-2").snapshot.id).isSome) := by
    have hids : "snap-2" ∉ ["snap-1"] := by decide
    rw [not_or, Bool.not_eq_true]
    exact ⟨hids, hfree⟩
  obtain ⟨h', hh'⟩ : ∃ h', step clearPrimitives (fun _ => 0) h (.backup (smallRun "snap-2")) =
      some h' := by
    rw [step, if_neg hnew, blocks_smallRun, hblocks']
    exact ⟨_, rfl⟩
  refine ⟨h, h', ?_, rfl, hh'⟩
  rw [step, if_neg (by decide), blocks_smallRun, hblocks]
  rfl

/-- The condition of the theorem on a history of one backup. -/
theorem dedups_iff_nil_small : ∃ h h', smallRun "snap-1" ∈ h.runs ∧
    (Dedups clearPrimitives (fun _ => 0) (smallRun "snap-1") (smallRun "snap-2") h h' ↔
      (smallRun "snap-2").data = []) := by
  obtain ⟨h, h', hfirst, hruns, hsecond⟩ := step_smallRun
  have hmem : smallRun "snap-1" ∈ h.runs := hruns ▸ List.mem_singleton_self _
  exact ⟨h, h', hmem, dedups_iff_nil clearPrimitives (fun _ => 0) clearAead_correct
    clearAead_rejectsOtherAad (Reach.refl.tail trivial hfirst) hmem rfl hsecond
    (collisionFree_clear _ _)⟩

/-- **A second backup of the same three bytes** stores them again. -/
theorem not_dedups_smallRun : ∃ h h', Reachable (step clearPrimitives fun _ => 0) .init h ∧
    smallRun "snap-1" ∈ h.runs ∧ (smallRun "snap-1").data = (smallRun "snap-2").data ∧
      step clearPrimitives (fun _ => 0) h (.backup (smallRun "snap-2")) = some h' ∧
      ¬ Dedups clearPrimitives (fun _ => 0) (smallRun "snap-1") (smallRun "snap-2") h h' := by
  obtain ⟨h, h', hfirst, hruns, hsecond⟩ := step_smallRun
  have hh : Traced clearPrimitives (fun _ => 0) h := traced_init.step hfirst
  exact ⟨h, h', Reach.refl.tail trivial hfirst, hruns ▸ List.mem_singleton_self _, rfl, hsecond,
    not_dedups clearAead_correct clearAead_rejectsOtherAad hh hsecond (collisionFree_clear _ _)
      (List.cons_ne_nil _ _)⟩

end Dedup
end Boveda

/-
# Restoring the blocks of a snapshot

A restore given blocks of the snapshot, with what the backup stored for them,
always returns, and writes the chunks of these blocks in the order it consumes
them (`restore_concatenates`).  Every check is about one block; none is about
the blocks together, so a restore does not notice that a block is missing, comes
twice, or, from an iterable that is not a list, comes out of order
(`restore_unnoticed`).
-/

import Boveda.Restore.Loop

namespace Boveda
namespace Restore

open Lib Crypto Pipeline
open Catalog (Snapshot storageKeyOf)

/-- A list is sorted and nothing else: it keeps its blocks, with repetitions. -/
theorem inOrder_perm (bloques : Bloques) : bloques.inOrder.Perm bloques.toList := by
  cases bloques with
  | list bs => exact List.mergeSort_perm bs _
  | iterable bs => exact .refl bs

theorem pairwise_inOrder_list (bs : List Bloque) :
    (Bloques.list bs).inOrder.Pairwise fun a b => a.chunkSeq ≤ b.chunkSeq := by
  have hsorted : (bs.mergeSort fun a b => a.chunkSeq ≤ b.chunkSeq).Pairwise
      fun a b => decide (a.chunkSeq ≤ b.chunkSeq) = true := by
    refine List.pairwise_mergeSort (fun a b c hab hbc => ?_) (fun a b => ?_) bs
    · simp only [decide_eq_true_eq] at *
      omega
    · simp only [Bool.or_eq_true, decide_eq_true_eq]
      omega
  simpa [Bloques.inOrder] using hsorted

/-- The chunk that a block stands for. -/
def contentOf (chunks : List Bytes) (bloque : Bloque) : Bytes :=
  chunks.getD bloque.chunkSeq.toNat []

variable {P : Primitives} {Z : StreamWriter} {dek : Bytes} {nonceGen : NonceGenerator}
  {chunks : List Bytes} {blocks : List Sealed}

/-- A block of the snapshot passes its checks, with its chunk. -/
theorem checkBloque_block (hA : P.aead.Correct) {snapshotId : String}
    (hseal : sealAll P dek snapshotId 0 nonceGen chunks = some blocks) {block : Sealed}
    (hmem : block ∈ blocks) :
    checkBloque P dek snapshotId (bloqueOf block) block.payload =
      .ok (P.compress (contentOf chunks (bloqueOf block))) := by
  obtain ⟨hlen, hseals⟩ := seals_sealAll hseal
  obtain ⟨i, hi, hblock⟩ := List.mem_iff_getElem.1 hmem
  have hchunk : chunks[i]? = some chunks[i] := List.getElem?_eq_getElem (hlen ▸ hi)
  have hs := hseals i chunks[i] block hchunk (hblock ▸ List.getElem?_eq_getElem hi)
  have hseq : block.seq = i := by
    obtain ⟨-, -, -, -, hseq, -⟩ := hs
    exact hseq.trans (Nat.zero_add i)
  rw [checkBloque_seals hA hs]
  simp [contentOf, bloqueOf, hseq, hchunk]

/-- **A restore of blocks of the snapshot** returns and writes their chunks, in
the order it consumes them. -/
theorem restoreSnapshot_of_blocks (hA : P.aead.Correct) (hZ : Z.WritesFrames P.compress)
    {snapshot : Snapshot} {kek : Bytes} {bloques : Bloques}
    {download : ℕ → String → Except String Bytes} (hestado : snapshot.estado = .completed)
    (hdek : unwrapDek P.aead kek snapshot.encryptedDek snapshot.dekNonce snapshot.dekTag
      snapshot.id = some dek)
    (hseal : sealAll P dek snapshot.id 0 nonceGen chunks = some blocks)
    (hstore : ∀ block ∈ blocks, ∀ k, download k (storageKeyOf block.hash) = .ok block.payload)
    (hrows : ∀ bloque ∈ bloques.toList, ∃ block ∈ blocks, bloque = bloqueOf block) :
    restoreSnapshot P Z snapshot kek bloques download =
      (bloques.inOrder.map (contentOf chunks) ++ [[]], .ok ()) := by
  obtain ⟨Ready, hinit, hwrite, hflush⟩ := hZ
  have hcheck : ∀ bloque ∈ bloques.inOrder, ∀ k, ∃ raw, download k bloque.storageKey = .ok raw ∧
      checkBloque P dek snapshot.id bloque raw = .ok (P.compress (contentOf chunks bloque)) := by
    intro bloque hb k
    obtain ⟨block, hmem, rfl⟩ := hrows bloque ((inOrder_perm bloques).mem_iff.1 hb)
    exact ⟨block.payload, hstore block hmem k, checkBloque_block hA hseal hmem⟩
  obtain ⟨s, hloop, hs⟩ := restoreLoop_complete hwrite hcheck 0 hinit
  unfold restoreSnapshot
  rw [if_neg (not_not.2 hestado)]
  simp only [hdek, hloop, hflush s hs]

/-! ### A snapshot of two chunks -/

/-- The decompressor that goes with `clearPrimitives`. -/
def clearWriter : StreamWriter where
  State := Unit
  init := ()
  write _ bs := (bs, .ok ())
  flush _ := ([], .ok ())

theorem clearWriter_writesFrames : clearWriter.WritesFrames clearPrimitives.compress :=
  ⟨fun _ => True, trivial, fun s _ _ => ⟨s, rfl, trivial⟩, fun _ _ => rfl⟩

/-- A completed snapshot with its DEK wrapped. -/
def smallSnapshot : Snapshot :=
  let d := generateDekForSnapshot clearAead [9] "snap-1" [7] [0]
  { Catalog.runningSnapshot "snap-1" with
    estado := .completed
    encryptedDek := d.encryptedDek
    dekNonce := d.dekNonce
    dekTag := d.dekTag }

/-- The blocks of a backup of two chunks. -/
def smallBlocks : List Sealed :=
  (sealAll clearPrimitives [7] "snap-1" 0 smallNonces [[1], [2]]).getD []

/-- The bucket after that backup. -/
def smallDownload (_ : ℕ) (key : String) : Except String Bytes :=
  match smallBlocks.find? fun block => storageKeyOf block.hash = key with
  | some block => .ok block.payload
  | none => .error "NoSuchKey"

theorem sealAll_smallBlocks : sealAll clearPrimitives [7] smallSnapshot.id 0
    smallNonces [[1], [2]] = some smallBlocks := by decide

theorem smallDownload_smallBlocks : ∀ block ∈ smallBlocks, ∀ k,
    smallDownload k (storageKeyOf block.hash) = .ok block.payload := by
  have h : ∀ block ∈ smallBlocks,
      smallDownload 0 (storageKeyOf block.hash) = .ok block.payload := by decide +kernel
  exact fun block hb _ => h block hb

theorem unwrapDek_smallSnapshot : unwrapDek clearAead [9] smallSnapshot.encryptedDek
    smallSnapshot.dekNonce smallSnapshot.dekTag smallSnapshot.id = some [7] := by decide

/-! ### Any blocks of a snapshot -/

/-- **What a restore does with any blocks of a snapshot.**  Whatever blocks it is
given, some of them or all, once or repeatedly, in whatever order, as a list or
as another iterable, it returns, and its output is the concatenation of their
chunks: those of a list in increasing order of `chunk_seq`, those of another
iterable as they come. -/
theorem restore_concatenates (P : Primitives) (Z : StreamWriter) (hA : P.aead.Correct)
    (hZ : Z.WritesFrames P.compress) (dek : Bytes) (nonceGen : NonceGenerator)
    (chunks : List Bytes) (blocks : List Sealed) (snapshot : Snapshot) (kek : Bytes)
    (download : ℕ → String → Except String Bytes) (bloques : Bloques)
    (hestado : snapshot.estado = .completed)
    (hdek : unwrapDek P.aead kek snapshot.encryptedDek snapshot.dekNonce snapshot.dekTag
      snapshot.id = some dek)
    (hseal : sealAll P dek snapshot.id 0 nonceGen chunks = some blocks)
    (hstore : ∀ block ∈ blocks, ∀ k, download k (storageKeyOf block.hash) = .ok block.payload)
    (hrows : ∀ bloque ∈ bloques.toList, ∃ block ∈ blocks, bloque = bloqueOf block) :
    ∃ order : List Bloque, order.Perm bloques.toList ∧
      (∀ bs, bloques = .list bs → order.Pairwise fun a b => a.chunkSeq ≤ b.chunkSeq) ∧
      (∀ bs, bloques = .iterable bs → order = bs) ∧
      (restoreSnapshot P Z snapshot kek bloques download).2 = .ok () ∧
      (restoreSnapshot P Z snapshot kek bloques download).1.flatten =
        (order.map (contentOf chunks)).flatten := by
  have h := restoreSnapshot_of_blocks hA hZ hestado hdek hseal hstore hrows
  refine ⟨bloques.inOrder, inOrder_perm bloques, ?_, ?_, by rw [h], by rw [h]; simp⟩
  · rintro bs rfl
    exact pairwise_inOrder_list bs
  · rintro bs rfl
    rfl

/-- The two blocks, as an iterable that yields them backwards. -/
theorem restore_concatenates_small : ∃ order : List Bloque,
    order.Perm (Bloques.iterable (smallBlocks.map bloqueOf).reverse).toList ∧
      (∀ bs, Bloques.iterable (smallBlocks.map bloqueOf).reverse = .list bs →
        order.Pairwise fun a b => a.chunkSeq ≤ b.chunkSeq) ∧
      (∀ bs, Bloques.iterable (smallBlocks.map bloqueOf).reverse = .iterable bs → order = bs) ∧
      (restoreSnapshot clearPrimitives clearWriter smallSnapshot [9]
        (.iterable (smallBlocks.map bloqueOf).reverse) smallDownload).2 = .ok () ∧
      (restoreSnapshot clearPrimitives clearWriter smallSnapshot [9]
        (.iterable (smallBlocks.map bloqueOf).reverse) smallDownload).1.flatten =
          (order.map (contentOf [[1], [2]])).flatten :=
  restore_concatenates clearPrimitives clearWriter clearAead_correct clearWriter_writesFrames [7]
    smallNonces [[1], [2]] smallBlocks smallSnapshot [9] smallDownload
    (.iterable (smallBlocks.map bloqueOf).reverse) rfl unwrapDek_smallSnapshot
    sealAll_smallBlocks smallDownload_smallBlocks fun bloque hb => by
      obtain ⟨block, hmem, rfl⟩ := List.mem_map.1 (List.mem_reverse.1 hb)
      exact ⟨block, hmem, rfl⟩

/-- **A restore does not notice** that all blocks are missing, that the last one
or the first one is, that one comes twice, or that an iterable yields them
backwards: it returns, and has written something else than the stream `[1, 2]`. -/
theorem restore_unnoticed :
    let rows := smallBlocks.map bloqueOf
    ∀ bloques ∈ [Bloques.list [], .list (rows.take 1), .list (rows.drop 1),
        .iterable (rows.take 1 ++ rows), .iterable rows.reverse],
      (restoreSnapshot clearPrimitives clearWriter smallSnapshot [9] bloques smallDownload).2 =
          .ok () ∧
        (restoreSnapshot clearPrimitives clearWriter smallSnapshot [9] bloques
          smallDownload).1.flatten ≠ [1, 2] := by
  decide +kernel

end Restore
end Boveda

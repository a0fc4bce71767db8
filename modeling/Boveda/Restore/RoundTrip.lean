/-
# Backup and restore

What a pipeline in which nothing fails has uploaded, a restore turns back into the
output of the subprocess (`restore_backup`): the chunks make up the output, each is
sealed at its own place, and a list of blocks is sorted by place.
-/

import Boveda.Pipeline.Completion
import Boveda.Restore.Blocks

namespace Boveda
namespace Restore

open Lib Crypto Pipeline
open Catalog (Snapshot storageKeyOf)

/-- A row of a snapshot has its DEK, wrapped under the KEK. -/
def Wraps (A : Aead) (snapshot : Snapshot) (kek dekRaw dekNonce : Bytes) : Prop :=
  generateDekForSnapshot A kek snapshot.id dekRaw dekNonce =
    ⟨dekRaw, snapshot.encryptedDek, snapshot.dekNonce, snapshot.dekTag⟩

theorem unwrapDek_of_wraps {A : Aead} (hA : A.Correct) {snapshot : Snapshot}
    {kek dekRaw dekNonce : Bytes} (h : Wraps A snapshot kek dekRaw dekNonce) :
    unwrapDek A kek snapshot.encryptedDek snapshot.dekNonce snapshot.dekTag snapshot.id =
      some dekRaw := by
  have hunwrap := unwrapDek_generateDekForSnapshot hA kek snapshot.id dekRaw dekNonce
  rw [Wraps] at h
  rw [h] at hunwrap
  exact hunwrap

/-- **A list of all blocks is restored in order**, whatever its own order is. -/
theorem inOrder_of_perm {P : Primitives} {dek : Bytes} {snapshotId : String}
    {nonceGen : NonceGenerator} {chunks : List Bytes} {blocks : List Sealed}
    (hseal : sealAll P dek snapshotId 0 nonceGen chunks = some blocks) {bloques : List Bloque}
    (hperm : bloques.Perm (blocks.map bloqueOf)) :
    (Bloques.list bloques).inOrder.map (contentOf chunks) = chunks := by
  have hseqs : (Bloques.list bloques).inOrder.map Bloque.chunkSeq =
      (List.range chunks.length).map Int.ofNat := by
    have hrange : (blocks.map bloqueOf).map Bloque.chunkSeq =
        (List.range chunks.length).map Int.ofNat := by
      rw [List.range_eq_range', ← map_seq_sealAll hseal, List.map_map, List.map_map]
      rfl
    have hsorted : ((List.range chunks.length).map Int.ofNat).Pairwise (· ≤ ·) :=
      List.pairwise_map.2 (List.pairwise_le_range.imp Int.ofNat_le.2)
    refine List.Perm.eq_of_pairwise (fun a b _ _ => le_antisymm)
      (List.pairwise_map.2 (pairwise_inOrder_list bloques)) hsorted ?_
    rw [← hrange]
    exact ((inOrder_perm (.list bloques)).trans hperm).map _
  have hcontent : contentOf chunks = (fun seq : ℤ => chunks.getD seq.toNat []) ∘ Bloque.chunkSeq :=
    rfl
  rw [hcontent, ← List.map_map, hseqs, List.map_map]
  refine List.ext_getElem (by simp) fun i h₁ h₂ => ?_
  simp [h₂]

/-- **What has been backed up is restored.**  When the pipeline has run on the output
`data` without a failure, whatever the reads and the interleaving, a restore of its
blocks, given as a list in any order, returns, and has written `data`. -/
theorem restore_backup (S : Setting) (Z : StreamWriter) (hA : S.primitives.aead.Correct)
    (hZ : Z.WritesFrames S.primitives.compress) (data : Bytes) (nonceGen : NonceGenerator)
    {s : State} (hrun : Runs S data nonceGen s) (hestado : s.estado = .completed)
    (hraises : ∀ i < (chunksOf S.gear data).length, S.raises i = false)
    (snapshot : Snapshot) (kek dekNonce : Bytes) (hid : snapshot.id = S.snapshotId)
    (hdek : Wraps S.primitives.aead snapshot kek S.dek dekNonce)
    (hcompleted : snapshot.estado = .completed)
    (bloques : List Bloque) (hperm : bloques.Perm (s.uploaded.map bloqueOf))
    (download : ℕ → String → Except String Bytes)
    (hstore : ∀ block ∈ s.uploaded, ∀ k, download k (storageKeyOf block.hash) = .ok block.payload) :
    (restoreSnapshot S.primitives Z snapshot kek (.list bloques) download).2 = .ok () ∧
      (restoreSnapshot S.primitives Z snapshot kek (.list bloques) download).1.flatten = data := by
  obtain ⟨-, hseal⟩ := uploaded_of_completed hrun hestado hraises
  rw [← hid] at hseal
  have hrows : ∀ bloque ∈ (Bloques.list bloques).toList, ∃ block ∈ s.uploaded,
      bloque = bloqueOf block := by
    intro bloque hb
    obtain ⟨block, hmem, rfl⟩ := List.mem_map.1 (hperm.mem_iff.1 hb)
    exact ⟨block, hmem, rfl⟩
  rw [restoreSnapshot_of_blocks hA hZ hcompleted (unwrapDek_of_wraps hA hdek) hseal hstore hrows,
    inOrder_of_perm hseal hperm]
  exact ⟨rfl, by simp [flatten_chunksOf]⟩

/-- An output of one byte, backed up and restored. -/
theorem restore_backup_small : ∃ s, Runs (smallSetting fun _ => false) [1] smallNonces s ∧
    s.estado = .completed ∧
    (restoreSnapshot clearPrimitives clearWriter smallSnapshot [9]
      (.list (s.uploaded.map bloqueOf)) smallDownload).2 = .ok () ∧
    (restoreSnapshot clearPrimitives clearWriter smallSnapshot [9]
      (.list (s.uploaded.map bloqueOf)) smallDownload).1.flatten = [1] := by
  obtain ⟨s, hrun, hs⟩ := runs_small (fun _ => false)
    (smallEvents ++ [.reader .put, .reader (.resumed false), .reader (.exited 0),
      .writer .get, .writer (.resumed false), .wake])
    (fun s => (s.estado, s.uploaded)) (.completed, smallBlocks.take 1) (by decide +kernel)
  obtain ⟨hestado, huploaded⟩ := Prod.mk.inj hs
  refine ⟨s, hrun, hestado, ?_⟩
  exact restore_backup (smallSetting fun _ => false) clearWriter clearAead_correct
    clearWriter_writesFrames [1] smallNonces hrun hestado (fun _ _ => rfl) smallSnapshot [9] [0]
    rfl rfl rfl (s.uploaded.map bloqueOf) (.refl _) smallDownload fun block hmem =>
      smallDownload_smallBlocks block (List.mem_of_mem_take (huploaded ▸ hmem))

end Restore
end Boveda

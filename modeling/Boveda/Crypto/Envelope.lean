/-
# Keys that wrap keys

`src/boveda/crypto.py`.  The chunks of a snapshot are encrypted under a key of
their own (DEK), which the catalog stores wrapped under a key derived from the
passphrase (KEK).  AES-GCM and Argon2id are libraries; `Aead` is what the
program sees of the former, and a `none` of `decrypt` is its `InvalidTag`.
-/

import Boveda.Lib.Bytes

namespace Boveda
namespace Crypto

open Lib

/-- `AESGCM(key).encrypt(nonce, data, aad)` and `AESGCM(key).decrypt(nonce, data, aad)`. -/
structure Aead where
  encrypt : Bytes → Bytes → Bytes → Bytes → Bytes
  decrypt : Bytes → Bytes → Bytes → Bytes → Option Bytes

/-- `decrypt` undoes `encrypt` under the same key, nonce and AAD. -/
def Aead.Correct (A : Aead) : Prop :=
  ∀ key nonce data aad, A.decrypt key nonce (A.encrypt key nonce data aad) aad = some data

/-- `decrypt` raises `InvalidTag` when the key is wrong. -/
def Aead.RejectsOtherKeys (A : Aead) : Prop :=
  ∀ key key' nonce data aad, key' ≠ key →
    A.decrypt key' nonce (A.encrypt key nonce data aad) aad = none

/-- `decrypt` raises `InvalidTag` when the AAD is wrong, whatever the key. -/
def Aead.RejectsOtherAad (A : Aead) : Prop :=
  ∀ key key' nonce data aad aad', aad' ≠ aad →
    A.decrypt key' nonce (A.encrypt key nonce data aad) aad' = none

/-- `s.encode("utf-8")`. -/
def utf8 (s : String) : Bytes := s.toUTF8.data.toList

theorem utf8_injective : Function.Injective utf8 := fun _ _ h =>
  String.toByteArray_inj.1 (ByteArray.ext (Array.toList_inj.1 h))

/-- `ciphertext[:-16]`. -/
def withoutTag (ciphertext : Bytes) : Bytes := ciphertext.take (ciphertext.length - 16)

/-- `ciphertext[-16:]`. -/
def tagOf (ciphertext : Bytes) : Bytes := ciphertext.drop (ciphertext.length - 16)

@[simp] theorem withoutTag_append_tagOf (ciphertext : Bytes) :
    withoutTag ciphertext ++ tagOf ciphertext = ciphertext :=
  List.take_append_drop _ _

/-- The four values of `generate_dek_for_snapshot`. -/
structure WrappedDek where
  dekRaw : Bytes
  encryptedDek : Bytes
  dekNonce : Bytes
  dekTag : Bytes

/-- `generate_dek_for_snapshot`, given the two draws of `os.urandom`. -/
def generateDekForSnapshot (A : Aead) (kek : Bytes) (snapshotId : String)
    (dekRaw dekNonce : Bytes) : WrappedDek :=
  let ciphertext := A.encrypt kek dekNonce dekRaw (utf8 snapshotId)
  ⟨dekRaw, withoutTag ciphertext, dekNonce, tagOf ciphertext⟩

/-- `unwrap_dek`. -/
def unwrapDek (A : Aead) (kek encryptedDek dekNonce dekTag : Bytes) (snapshotId : String) :
    Option Bytes :=
  A.decrypt kek dekNonce (encryptedDek ++ dekTag) (utf8 snapshotId)

/-- A wrapped DEK is recovered with its KEK. -/
theorem unwrapDek_generateDekForSnapshot {A : Aead} (hA : A.Correct) (kek : Bytes) (id : String)
    (dekRaw dekNonce : Bytes) :
    let d := generateDekForSnapshot A kek id dekRaw dekNonce
    unwrapDek A kek d.encryptedDek d.dekNonce d.dekTag id = some dekRaw := by
  simp [unwrapDek, generateDekForSnapshot, hA kek dekNonce dekRaw (utf8 id)]

/-! ### A model of the library

An AEAD that shows what it was given.  The properties of `Aead` hold of it, and
it evaluates. -/

/-- Bytes that end where they say. -/
def frame (bs : Bytes) : Bytes := List.replicate bs.length 1 ++ 0 :: bs

theorem frame_append_inj {as bs xs ys : Bytes} (h : frame as ++ xs = frame bs ++ ys) : as = bs := by
  have hlen : ∀ (m n : ℕ) (us vs : Bytes),
      List.replicate m (1 : UInt8) ++ 0 :: us = List.replicate n 1 ++ 0 :: vs →
        m = n ∧ us = vs := by
    intro m
    induction m with
    | zero =>
      intro n us vs h
      cases n with
      | zero => exact ⟨rfl, (List.cons.inj h).2⟩
      | succ n => exact absurd (List.cons.inj h).1 (by decide)
    | succ m ih =>
      intro n us vs h
      cases n with
      | zero => exact absurd (List.cons.inj h).1 (by decide)
      | succ n =>
        obtain ⟨rfl, huv⟩ := ih n us vs (List.cons.inj h).2
        exact ⟨rfl, huv⟩
  simp only [frame, List.append_assoc, List.cons_append] at h
  obtain ⟨hl, happ⟩ := hlen _ _ _ _ h
  exact (List.append_inj happ hl).1

/-- Key, nonce and AAD in front of the data. -/
def clearAead : Aead where
  encrypt key nonce data aad := frame key ++ frame nonce ++ frame aad ++ data
  decrypt key nonce ciphertext aad :=
    let head := frame key ++ frame nonce ++ frame aad
    if head.isPrefixOf ciphertext then some (ciphertext.drop head.length) else none

theorem clearAead_correct : clearAead.Correct := by
  intro key nonce data aad
  have hhead : (frame key ++ frame nonce ++ frame aad).isPrefixOf
      (frame key ++ frame nonce ++ frame aad ++ data) = true :=
    List.isPrefixOf_iff_prefix.2 (List.prefix_append _ _)
  simp only [clearAead, hhead, if_true, List.drop_left]

theorem clearAead_rejectsOtherKeys : clearAead.RejectsOtherKeys := by
  intro key key' nonce data aad hne
  have hhead : ¬ (frame key' ++ frame nonce ++ frame aad).isPrefixOf
      (frame key ++ frame nonce ++ frame aad ++ data) = true := by
    rw [List.isPrefixOf_iff_prefix]
    rintro ⟨rest, hrest⟩
    simp only [List.append_assoc] at hrest
    exact hne (frame_append_inj hrest)
  simp only [clearAead, hhead]
  rfl

theorem clearAead_rejectsOtherAad : clearAead.RejectsOtherAad := by
  intro key key' nonce data aad aad' hne
  have hhead : ¬ (frame key' ++ frame nonce ++ frame aad').isPrefixOf
      (frame key ++ frame nonce ++ frame aad ++ data) = true := by
    rw [List.isPrefixOf_iff_prefix]
    rintro ⟨rest, hrest⟩
    simp only [List.append_assoc] at hrest
    obtain rfl := frame_append_inj hrest
    have haad := List.append_cancel_left (List.append_cancel_left hrest)
    exact hne (frame_append_inj haad)
  simp only [clearAead, hhead]
  rfl

end Crypto
end Boveda

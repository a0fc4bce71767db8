/-
# HMAC and HKDF

RFC 2104 and RFC 5869 over any hash function.  A key enters as a block: one that is longer
is hashed, and a shorter one is filled up with zeros, so that keys are told apart only up to
trailing zeros.

A hash function has collisions.  What is proved of HMAC and HKDF is about inputs on which it
has none: `hmacHashed` and `hkdfHashed` list what a call hashes, and where the digests of
these differ the results of two calls determine their messages and the blocks of their keys
(`hmac_inj`, `hkdf_inj`).
-/

import Boveda.Lib.Bytes
import Mathlib.Data.Set.Function

namespace Boveda
namespace Lib

/-- A hash function: the length of its digests, and that of the blocks it works on. -/
structure HashFunction where
  digest : Bytes → Bytes
  size : ℕ
  blockSize : ℕ
  length_digest : ∀ message, (digest message).length = size
  size_le : size ≤ blockSize

namespace HashFunction

variable (H : HashFunction)

/-- A key as a block. -/
def keyBlock (key : Bytes) : Bytes :=
  let key := if H.blockSize < key.length then H.digest key else key
  key ++ List.replicate (H.blockSize - key.length) 0

/-- The block of a key, each byte combined with `pad`. -/
def padded (pad : UInt8) (key : Bytes) : Bytes := (H.keyBlock key).map (· ^^^ pad)

/-- What is hashed first. -/
def inner (key message : Bytes) : Bytes := H.padded 0x36 key ++ message

/-- What is hashed then. -/
def outer (key message : Bytes) : Bytes := H.padded 0x5c key ++ H.digest (H.inner key message)

/-- HMAC. -/
def hmac (key message : Bytes) : Bytes := H.digest (H.outer key message)

/-- The first step of HKDF; the salt is zeros when none is given. -/
def hkdfExtract (salt : Option Bytes) (keyMaterial : Bytes) : Bytes :=
  H.hmac (salt.getD (List.replicate H.size 0)) keyMaterial

/-- The `n`-th block of the second step, the first being that of `1`. -/
def hkdfBlock (key info : Bytes) : ℕ → Bytes
  | 0 => []
  | n + 1 => H.hmac key (hkdfBlock key info n ++ info ++ [UInt8.ofNat (n + 1)])

/-- The second step of HKDF. -/
def hkdfExpand (key info : Bytes) (length : ℕ) : Bytes :=
  ((List.range ((length + H.size - 1) / H.size)).flatMap fun n =>
    H.hkdfBlock key info (n + 1)).take length

/-- HKDF. -/
def hkdf (salt : Option Bytes) (info keyMaterial : Bytes) (length : ℕ) : Bytes :=
  H.hkdfExpand (H.hkdfExtract salt keyMaterial) info length

/-- What a call of HMAC hashes. -/
def hmacHashed (key message : Bytes) : List Bytes := [H.inner key message, H.outer key message]

/-- What a call of HKDF hashes that asks for one block. -/
def hkdfHashed (salt : Option Bytes) (info keyMaterial : Bytes) : List Bytes :=
  H.hmacHashed (salt.getD (List.replicate H.size 0)) keyMaterial ++
    H.hmacHashed (H.hkdfExtract salt keyMaterial) (info ++ [1])

variable {H}

/-! ### Keys -/

theorem length_keyBlock (key : Bytes) : (H.keyBlock key).length = H.blockSize := by
  unfold keyBlock
  dsimp only
  split_ifs with hlong
  · rw [List.length_append, List.length_replicate, H.length_digest]
    exact Nat.add_sub_cancel' H.size_le
  · rw [List.length_append, List.length_replicate]
    exact Nat.add_sub_cancel' (Nat.not_lt.1 hlong)

/-- Keys of one length that fit into a block are told apart. -/
theorem keyBlock_inj {key key' : Bytes} (hlength : key.length = key'.length)
    (hle : key.length ≤ H.blockSize) (h : H.keyBlock key = H.keyBlock key') : key = key' := by
  unfold keyBlock at h
  rw [if_neg (Nat.not_lt.2 hle), if_neg (Nat.not_lt.2 (hlength ▸ hle))] at h
  dsimp only at h
  rw [hlength] at h
  exact List.append_cancel_right h

theorem length_padded (pad : UInt8) (key : Bytes) : (H.padded pad key).length = H.blockSize := by
  rw [padded, List.length_map, length_keyBlock]

theorem padded_inj {pad : UInt8} {key key' : Bytes} (h : H.padded pad key = H.padded pad key') :
    H.keyBlock key = H.keyBlock key' :=
  (List.map_inj_right fun _ _ hxor => (UInt8.xor_left_inj pad).1 hxor).1 h

/-! ### HMAC -/

@[simp] theorem length_hmac (key message : Bytes) : (H.hmac key message).length = H.size :=
  H.length_digest _

/-- A key counts as its block. -/
theorem hmac_congr {key key' : Bytes} (h : H.keyBlock key = H.keyBlock key') (message : Bytes) :
    H.hmac key message = H.hmac key' message := by
  simp only [hmac, outer, inner, padded, h]

/-- **HMAC determines its message and the block of its key** where the hash does not collide. -/
theorem hmac_inj {hashed : Set Bytes} (hinj : Set.InjOn H.digest hashed)
    {key key' message message' : Bytes} (hmem : ∀ x ∈ H.hmacHashed key message, x ∈ hashed)
    (hmem' : ∀ x ∈ H.hmacHashed key' message', x ∈ hashed)
    (h : H.hmac key message = H.hmac key' message') :
    H.keyBlock key = H.keyBlock key' ∧ message = message' := by
  have houter : H.outer key message = H.outer key' message' :=
    hinj (hmem _ (by simp [hmacHashed])) (hmem' _ (by simp [hmacHashed])) h
  obtain ⟨hpadded, hdigest⟩ := List.append_inj houter (by rw [length_padded, length_padded])
  have hinner : H.inner key message = H.inner key' message' :=
    hinj (hmem _ (by simp [hmacHashed])) (hmem' _ (by simp [hmacHashed])) hdigest
  exact ⟨padded_inj hpadded,
    (List.append_inj hinner (by rw [length_padded, length_padded])).2⟩

/-- The keys themselves, when they are digests. -/
theorem hmac_inj_of_length {hashed : Set Bytes} (hinj : Set.InjOn H.digest hashed)
    {key key' message message' : Bytes} (hmem : ∀ x ∈ H.hmacHashed key message, x ∈ hashed)
    (hmem' : ∀ x ∈ H.hmacHashed key' message', x ∈ hashed) (hkey : key.length = H.size)
    (hkey' : key'.length = H.size) (h : H.hmac key message = H.hmac key' message') :
    key = key' ∧ message = message' := by
  obtain ⟨hblock, hmessage⟩ := hmac_inj hinj hmem hmem' h
  exact ⟨keyBlock_inj (hkey.trans hkey'.symm) (hkey ▸ H.size_le) hblock, hmessage⟩

/-! ### HKDF -/

@[simp] theorem length_hkdfExtract (salt : Option Bytes) (keyMaterial : Bytes) :
    (H.hkdfExtract salt keyMaterial).length = H.size :=
  length_hmac _ _

/-- As many bytes as a digest has are one block. -/
theorem hkdfExpand_size (hpos : 0 < H.size) (key info : Bytes) :
    H.hkdfExpand key info H.size = H.hmac key (info ++ [1]) := by
  have hblocks : (H.size + H.size - 1) / H.size = 1 := by
    rw [Nat.div_eq_iff hpos]
    omega
  have hblock : H.hkdfBlock key info 1 = H.hmac key (info ++ [1]) := rfl
  rw [hkdfExpand, hblocks, List.range_one, List.flatMap_singleton, hblock,
    List.take_of_length_le (length_hmac _ _).le]

theorem length_hkdf (hpos : 0 < H.size) (salt : Option Bytes) (info keyMaterial : Bytes) :
    (H.hkdf salt info keyMaterial H.size).length = H.size := by
  rw [hkdf, hkdfExpand_size hpos, length_hmac]

/-- A salt counts as its block. -/
theorem hkdf_congr {salt salt' : Option Bytes}
    (h : H.keyBlock (salt.getD (List.replicate H.size 0)) =
      H.keyBlock (salt'.getD (List.replicate H.size 0))) (info keyMaterial : Bytes) (length : ℕ) :
    H.hkdf salt info keyMaterial length = H.hkdf salt' info keyMaterial length := by
  rw [hkdf, hkdf, hkdfExtract, hkdfExtract, hmac_congr h]

/-- **HKDF determines what it is given**, the salt up to its block. -/
theorem hkdf_inj (hpos : 0 < H.size) {hashed : Set Bytes} (hinj : Set.InjOn H.digest hashed)
    {salt salt' : Option Bytes} {info info' keyMaterial keyMaterial' : Bytes}
    (hmem : ∀ x ∈ H.hkdfHashed salt info keyMaterial, x ∈ hashed)
    (hmem' : ∀ x ∈ H.hkdfHashed salt' info' keyMaterial', x ∈ hashed)
    (h : H.hkdf salt info keyMaterial H.size = H.hkdf salt' info' keyMaterial' H.size) :
    H.keyBlock (salt.getD (List.replicate H.size 0)) =
        H.keyBlock (salt'.getD (List.replicate H.size 0)) ∧
      info = info' ∧ keyMaterial = keyMaterial' := by
  rw [hkdf, hkdf, hkdfExpand_size hpos, hkdfExpand_size hpos] at h
  obtain ⟨hextract, hinfo⟩ := hmac_inj_of_length hinj
    (fun x hx => hmem x (List.mem_append_right _ hx))
    (fun x hx => hmem' x (List.mem_append_right _ hx)) (length_hkdfExtract _ _)
    (length_hkdfExtract _ _) h
  obtain ⟨hsalt, hmaterial⟩ := hmac_inj hinj (fun x hx => hmem x (List.mem_append_left _ hx))
    (fun x hx => hmem' x (List.mem_append_left _ hx)) hextract
  exact ⟨hsalt, List.append_cancel_right hinfo, hmaterial⟩

end HashFunction
end Lib
end Boveda

/-
# Convergent encryption

The second version of the keys of `src/boveda/crypto.py`.  A tenant has a key of its own,
from which a key for encryption and one for names are derived; a chunk is then named by an
HMAC of its content, encrypted under another, and given a nonce that is a third, cut to 12
bytes.  Equal chunks of a tenant are one object, and nothing is drawn at random.

`convergent` says what this does where SHA-256 does not collide: objects are shared exactly
between equal chunks under one key, a key and a nonce never serve two contents, and two
tenants share nothing.  The salt of a tenant counts up to trailing zeros, and a tenant whose
id is empty is none at all.
-/

import Boveda.Lib.Hex
import Boveda.Lib.Hmac
import Boveda.Crypto.Envelope

namespace Boveda
namespace Convergent

open Lib Crypto

/-- SHA-256. -/
structure Sha256 where
  digest : Bytes → Bytes
  length_digest : ∀ message, (digest message).length = 32

/-- SHA-256 works on blocks of 64 bytes. -/
def Sha256.hash (S : Sha256) : HashFunction := ⟨S.digest, 32, 64, S.length_digest, by decide⟩

section

variable (S : Sha256)

/-- `derive_tenant_kek`. -/
def deriveTenantKek (kek : Bytes) (tenantId : String) (tenantSalt : Option Bytes) : Bytes :=
  S.hash.hkdf tenantSalt (utf8 ("boveda-tenant:" ++ tenantId)) kek 32

/-- `source_key` of `derive_dedup_keys`: an empty id is no id. -/
def sourceKey (kek : Bytes) (tenantId : Option String) (tenantSalt : Option Bytes) : Bytes :=
  match tenantId with
  | none => kek
  | some id => if id = "" then kek else deriveTenantKek S kek id tenantSalt

/-- `info` of `k_dedup`. -/
def keyInfo : Bytes := utf8 "boveda-dedup-v2-key"

/-- `info` of `k_id`. -/
def idInfo : Bytes := utf8 "boveda-dedup-v2-id"

/-- `derive_dedup_keys`: `k_dedup` and `k_id`. -/
def deriveDedupKeys (kek : Bytes) (tenantId : Option String) (tenantSalt : Option Bytes) :
    Bytes × Bytes :=
  let source := sourceKey S kek tenantId tenantSalt
  (S.hash.hkdf none keyInfo source 32, S.hash.hkdf none idInfo source 32)

/-- `compute_content_id`. -/
def computeContentId (kId data : Bytes) : String :=
  String.ofList (Hex.encode (S.hash.hmac kId data))

/-- `derive_chunk_key`. -/
def deriveChunkKey (kDedup data : Bytes) : Bytes := S.hash.hmac kDedup data

/-- `compute_synthetic_nonce`. -/
def computeSyntheticNonce (chunkKey aad data : Bytes) : Bytes :=
  (S.hash.hmac chunkKey (aad ++ data)).take 12

end

/-- A chunk to be encrypted, with its AAD, for a tenant or for nobody in particular. -/
structure Sealing where
  kek : Bytes
  tenantId : Option String
  tenantSalt : Option Bytes
  aad : Bytes
  data : Bytes

namespace Sealing

variable (S : Sha256) (x : Sealing)

/-- The key that the keys of a chunk are derived from. -/
def source : Bytes := sourceKey S x.kek x.tenantId x.tenantSalt

/-- `k_dedup`. -/
def kDedup : Bytes := (deriveDedupKeys S x.kek x.tenantId x.tenantSalt).1

/-- `k_id`. -/
def kId : Bytes := (deriveDedupKeys S x.kek x.tenantId x.tenantSalt).2

/-- The name of the object. -/
def contentId : String := computeContentId S (x.kId S) x.data

/-- The key of the chunk. -/
def chunkKey : Bytes := deriveChunkKey S (x.kDedup S) x.data

/-- The nonce of the chunk. -/
def nonce : Bytes := computeSyntheticNonce S (x.chunkKey S) x.aad x.data

/-- What is hashed for the key of a tenant. -/
def tenantHashed : List Bytes :=
  match x.tenantId with
  | none => []
  | some id => S.hash.hkdfHashed x.tenantSalt (utf8 ("boveda-tenant:" ++ id)) x.kek

/-- What is hashed for a chunk. -/
def hashed : List Bytes :=
  x.tenantHashed S ++ S.hash.hkdfHashed none keyInfo (x.source S) ++
    S.hash.hkdfHashed none idInfo (x.source S) ++ S.hash.hmacHashed (x.kId S) x.data ++
    S.hash.hmacHashed (x.kDedup S) x.data ++ S.hash.hmacHashed (x.chunkKey S) (x.aad ++ x.data)

/-- The salt of a tenant as a block. -/
def saltBlock : Bytes := S.hash.keyBlock (x.tenantSalt.getD (List.replicate 32 0))

end Sealing

/-- What two chunks share. -/
structure Separated (S : Sha256) (x y : Sealing) : Prop where
  /-- They are one object exactly when they are equal, under one key. -/
  contentId : x.contentId S = y.contentId S ↔ x.source S = y.source S ∧ x.data = y.data
  chunkKey : x.chunkKey S = y.chunkKey S ↔ x.source S = y.source S ∧ x.data = y.data
  /-- A key and a nonce serve one content, and under two AADs only when the HMACs of these
  differ behind the twelfth byte alone. -/
  nonce : x.chunkKey S = y.chunkKey S → x.nonce S = y.nonce S → x.data = y.data ∧
    (x.aad = y.aad ∨ ∃ mac mac' : Bytes, mac ≠ mac' ∧ mac.take 12 = mac'.take 12 ∧
      mac = S.hash.hmac (x.chunkKey S) (x.aad ++ x.data) ∧
      mac' = S.hash.hmac (x.chunkKey S) (y.aad ++ x.data))
  /-- The key of a tenant is that of its id, the KEK and the salt. -/
  tenant : ∀ id id', x.tenantId = some id → y.tenantId = some id' → id ≠ "" → id' ≠ "" →
    (x.source S = y.source S ↔ id = id' ∧ x.kek = y.kek ∧ x.saltBlock S = y.saltBlock S)
  /-- No key is both for encryption and for names. -/
  domains : x.kDedup S ≠ y.kId S

section

variable {S : Sha256} {x y : Sealing} {hashed : Set Bytes}

/-- What a chunk hashes is hashed. -/
structure Hashes (S : Sha256) (hashed : Set Bytes) (x : Sealing) : Prop where
  tenant : ∀ i ∈ x.tenantHashed S, i ∈ hashed
  keyInfo : ∀ i ∈ S.hash.hkdfHashed none keyInfo (x.source S), i ∈ hashed
  idInfo : ∀ i ∈ S.hash.hkdfHashed none idInfo (x.source S), i ∈ hashed
  contentId : ∀ i ∈ S.hash.hmacHashed (x.kId S) x.data, i ∈ hashed
  chunkKey : ∀ i ∈ S.hash.hmacHashed (x.kDedup S) x.data, i ∈ hashed
  nonce : ∀ i ∈ S.hash.hmacHashed (x.chunkKey S) (x.aad ++ x.data), i ∈ hashed

theorem hashes_of_subset (h : ∀ i ∈ x.hashed S, i ∈ hashed) : Hashes S hashed x := by
  simp only [Sealing.hashed, List.mem_append] at h
  refine ⟨fun i hi => h i ?_, fun i hi => h i ?_, fun i hi => h i ?_, fun i hi => h i ?_,
    fun i hi => h i ?_, fun i hi => h i ?_⟩
  all_goals tauto

theorem contentId_inj {kId kId' data data' : Bytes}
    (h : computeContentId S kId data = computeContentId S kId' data') :
    S.hash.hmac kId data = S.hash.hmac kId' data' :=
  Hex.encode_injective (String.ofList_injective h)

theorem size_pos : 0 < S.hash.size := show 0 < 32 by decide

theorem length_kId : (x.kId S).length = 32 := HashFunction.length_hkdf size_pos _ _ _

theorem length_kDedup : (x.kDedup S).length = 32 := HashFunction.length_hkdf size_pos _ _ _

theorem kId_congr (h : x.source S = y.source S) : x.kId S = y.kId S :=
  congrArg (fun source => S.hash.hkdf none idInfo source 32) h

theorem kDedup_congr (h : x.source S = y.source S) : x.kDedup S = y.kDedup S :=
  congrArg (fun source => S.hash.hkdf none keyInfo source 32) h

theorem contentId_iff (hinj : Set.InjOn S.digest hashed) (hx : Hashes S hashed x)
    (hy : Hashes S hashed y) :
    x.contentId S = y.contentId S ↔ x.source S = y.source S ∧ x.data = y.data := by
  constructor
  · intro h
    obtain ⟨hkey, hdata⟩ := S.hash.hmac_inj_of_length hinj hx.contentId hy.contentId length_kId
      length_kId (contentId_inj h)
    exact ⟨(HashFunction.hkdf_inj size_pos hinj hx.idInfo hy.idInfo hkey).2.2, hdata⟩
  · rintro ⟨hsource, hdata⟩
    rw [Sealing.contentId, Sealing.contentId, kId_congr hsource, hdata]

theorem chunkKey_iff (hinj : Set.InjOn S.digest hashed) (hx : Hashes S hashed x)
    (hy : Hashes S hashed y) :
    x.chunkKey S = y.chunkKey S ↔ x.source S = y.source S ∧ x.data = y.data := by
  constructor
  · intro h
    obtain ⟨hkey, hdata⟩ := S.hash.hmac_inj_of_length hinj hx.chunkKey hy.chunkKey length_kDedup
      length_kDedup h
    exact ⟨(HashFunction.hkdf_inj size_pos hinj hx.keyInfo hy.keyInfo hkey).2.2, hdata⟩
  · rintro ⟨hsource, hdata⟩
    rw [Sealing.chunkKey, Sealing.chunkKey, kDedup_congr hsource, hdata]

/-- One key and one nonce. -/
theorem data_of_nonce (hinj : Set.InjOn S.digest hashed) (hx : Hashes S hashed x)
    (hy : Hashes S hashed y) (hkey : x.chunkKey S = y.chunkKey S)
    (hnonce : x.nonce S = y.nonce S) : x.data = y.data ∧
      (x.aad = y.aad ∨ ∃ mac mac' : Bytes, mac ≠ mac' ∧ mac.take 12 = mac'.take 12 ∧
        mac = S.hash.hmac (x.chunkKey S) (x.aad ++ x.data) ∧
        mac' = S.hash.hmac (x.chunkKey S) (y.aad ++ x.data)) := by
  obtain ⟨-, hdata⟩ := (chunkKey_iff hinj hx hy).1 hkey
  refine ⟨hdata, ?_⟩
  have hmacs : (S.hash.hmac (x.chunkKey S) (x.aad ++ x.data)).take 12 =
      (S.hash.hmac (x.chunkKey S) (y.aad ++ x.data)).take 12 := by
    rw [Sealing.nonce, Sealing.nonce, computeSyntheticNonce, computeSyntheticNonce, ← hkey,
      ← hdata] at hnonce
    exact hnonce
  by_cases hsame : S.hash.hmac (x.chunkKey S) (x.aad ++ x.data) =
      S.hash.hmac (x.chunkKey S) (y.aad ++ x.data)
  · have hy' := hy.nonce
    rw [← hkey, ← hdata] at hy'
    exact .inl (List.append_cancel_right (S.hash.hmac_inj hinj hx.nonce hy' hsame).2)
  · exact .inr ⟨_, _, hsame, hmacs, rfl, rfl⟩

theorem source_of_tenant {id : String} (h : x.tenantId = some id) (hid : id ≠ "") :
    x.source S = S.hash.hkdf x.tenantSalt (utf8 ("boveda-tenant:" ++ id)) x.kek 32 := by
  unfold Sealing.source sourceKey
  rw [h]
  exact if_neg hid

/-- The keys of tenants. -/
theorem source_iff (hinj : Set.InjOn S.digest hashed) (hx : Hashes S hashed x)
    (hy : Hashes S hashed y) {id id' : String} (hid : x.tenantId = some id)
    (hid' : y.tenantId = some id') (hne : id ≠ "") (hne' : id' ≠ "") :
    x.source S = y.source S ↔ id = id' ∧ x.kek = y.kek ∧ x.saltBlock S = y.saltBlock S := by
  have hmem := hx.tenant
  have hmem' := hy.tenant
  rw [Sealing.tenantHashed, hid] at hmem
  rw [Sealing.tenantHashed, hid'] at hmem'
  rw [source_of_tenant hid hne, source_of_tenant hid' hne']
  constructor
  · intro h
    obtain ⟨hsalt, hinfo, hkek⟩ := HashFunction.hkdf_inj size_pos hinj hmem hmem' h
    have hid := congrArg String.toList (utf8_injective hinfo)
    rw [String.toList_append, String.toList_append] at hid
    exact ⟨String.toList_injective (List.append_cancel_left hid), hkek, hsalt⟩
  · rintro ⟨rfl, hkek, hsalt⟩
    rw [hkek]
    exact HashFunction.hkdf_congr hsalt _ _ _

/-- **Convergent encryption**, of any chunks on whose hashing SHA-256 does not collide. -/
theorem convergent (S : Sha256) (chunks : Set Sealing)
    (hinj : Set.InjOn S.digest { i | ∃ x ∈ chunks, i ∈ x.hashed S }) :
    ∀ x ∈ chunks, ∀ y ∈ chunks, Separated S x y := by
  intro x hx y hy
  have hx : Hashes S { i | ∃ x ∈ chunks, i ∈ x.hashed S } x :=
    hashes_of_subset fun i hi => ⟨x, hx, hi⟩
  have hy : Hashes S { i | ∃ x ∈ chunks, i ∈ x.hashed S } y :=
    hashes_of_subset fun i hi => ⟨y, hy, hi⟩
  refine ⟨contentId_iff hinj hx hy, chunkKey_iff hinj hx hy, data_of_nonce hinj hx hy,
    fun id id' hid hid' hne hne' => source_iff hinj hx hy hid hid' hne hne', fun h => ?_⟩
  have hinfo := (HashFunction.hkdf_inj size_pos hinj hx.keyInfo hy.idInfo h).2.1
  exact absurd (utf8_injective hinfo) (by decide)

end

/-- A hash for examples. -/
def polynomialSha : Sha256 where
  digest message := BigEndian.encode 32 (message.foldl (fun acc b => acc * 257 + b.toNat + 1) 0)
  length_digest _ := BigEndian.length_encode _ _

/-- One chunk, of two tenants. -/
def alphaChunk : Sealing := ⟨[1, 2, 3], some "alpha", none, [9], [7, 7]⟩

def betaChunk : Sealing := { alphaChunk with tenantId := some "beta" }

theorem convergent_alphaBeta :
    alphaChunk.contentId polynomialSha ≠ betaChunk.contentId polynomialSha ∧
      Separated polynomialSha alphaChunk betaChunk := by
  have hdigests : ∀ i ∈ alphaChunk.hashed polynomialSha ++ betaChunk.hashed polynomialSha,
      ∀ j ∈ alphaChunk.hashed polynomialSha ++ betaChunk.hashed polynomialSha,
        polynomialSha.digest i = polynomialSha.digest j → i = j := by
    decide +kernel
  have hmem : ∀ x ∈ ({alphaChunk, betaChunk} : Set Sealing), ∀ i ∈ x.hashed polynomialSha,
      i ∈ alphaChunk.hashed polynomialSha ++ betaChunk.hashed polynomialSha := by
    rintro x (rfl | rfl) i hi
    · exact List.mem_append_left _ hi
    · exact List.mem_append_right _ hi
  refine ⟨by decide +kernel, convergent polynomialSha {alphaChunk, betaChunk} ?_ _ (.inl rfl) _
    (.inr rfl)⟩
  rintro i ⟨x, hx, hi⟩ j ⟨y, hy, hj⟩ h
  exact hdigests i (hmem x hx i hi) j (hmem y hy j hj) h

end Convergent
end Boveda

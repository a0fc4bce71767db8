/-
# Signatures and their texts

Ed25519 is a library, and `Ed25519` is what the program sees of it; a `false` of
`verify` is its `InvalidSignature`.  Keys and signatures travel as Base64 texts.
-/

import Boveda.Lib.Base64
import Boveda.Crypto.Envelope

namespace Boveda
namespace Crypto

open Lib

/-- `ed25519` with raw keys. -/
structure Ed25519 where
  publicKey : Bytes → Bytes
  sign : Bytes → Bytes → Bytes
  verify : Bytes → Bytes → Bytes → Bool
  length_publicKey : ∀ sk, (publicKey sk).length = 32

/-- A public key for tests: the private key, cut or padded. -/
def paddedKey (sk : Bytes) : Bytes := (sk ++ List.replicate 32 0).take 32

theorem length_paddedKey (sk : Bytes) : (paddedKey sk).length = 32 := by
  simp [paddedKey]

/-- A signature for tests: the public key, in front of the message. -/
def openEd25519 : Ed25519 where
  publicKey := paddedKey
  sign sk message := paddedKey sk ++ message
  verify pk signature message := signature == pk ++ message
  length_publicKey := length_paddedKey

/-- A signature is one of the message that it was made for, and of no other. -/
def Ed25519.Ideal (E : Ed25519) : Prop :=
  ∀ sk message message', sk.length = 32 →
    (E.verify (E.publicKey sk) (E.sign sk message) message' = true ↔ message' = message)

/-- `s.encode("ascii")`, `none` for `UnicodeEncodeError`. -/
def ascii (s : String) : Option (List Char) :=
  if s.toList.all fun c => c.toNat < 128 then some s.toList else none

/-- `base64.b64encode(data).decode("utf-8")`. -/
def b64encode (data : Bytes) : String := String.ofList (Base64.encode data)

/-- `base64.b64decode(s)`, `none` for `ValueError`. -/
def b64decode (s : String) : Option Bytes := (ascii s).bind Base64.decode

theorem ascii_ofList {text : List Char} (h : ∀ c ∈ text, c.toNat < 128) :
    ascii (String.ofList text) = some text := by
  have hall : text.all fun c => c.toNat < 128 :=
    List.all_eq_true.2 fun c hc => decide_eq_true (h c hc)
  rw [ascii, String.toList_ofList, if_pos hall]

theorem b64decode_b64encode (data : Bytes) : b64decode (b64encode data) = some data := by
  have hascii : ∀ c ∈ '=' :: Base64.alphabet, c.toNat < 128 :=
    forall_mem_of_all (by decide)
  rw [b64decode, b64encode, ascii_ofList, Option.bind_some, Base64.decode_encode]
  intro c hc
  rcases List.mem_append.1 hc with hc | hc
  · exact hascii c (List.mem_cons_of_mem _ (Base64.mem_alphabet_of_mem_body hc))
  · exact hascii c (List.eq_of_mem_replicate hc ▸ List.mem_cons_self ..)

/-- `data.decode("utf-8")`, `none` for `UnicodeDecodeError`. -/
def decodeUtf8 (data : Bytes) : Option String := String.fromUTF8? ⟨data.toArray⟩

theorem decodeUtf8_utf8 (s : String) : decodeUtf8 (utf8 s) = some s := by
  have hbytes : (⟨(utf8 s).toArray⟩ : ByteArray) = s.toByteArray := by
    rw [utf8, Array.toArray_toList]
    rfl
  rw [decodeUtf8, hbytes, String.fromUTF8?, dif_pos s.isValidUTF8]
  rfl

end Crypto
end Boveda

/-
# The claims of a request

`get_current_claims` of `src/boveda/api.py` answers what `verify_access_token` makes of the
token in the `Authorization` header: 401 for a `TokenAuthError`.

Of the steps of `verify_access_token` only the encoding of the signing input can raise
something else: a token of three parts is answered, with claims or with 401, just when its
first two parts are ASCII (`answers_iff`).  The server decodes headers as Latin-1, so other
characters do arrive.
-/

import Boveda.Auth.Token

namespace Boveda
namespace CurrentClaims

open Lib Crypto Auth

/-- What `get_current_claims` raises: `HTTPException(status_code, detail)`, or what
`verify_access_token` has raised. -/
inductive ApiError
  | http (statusCode : ℕ) (detail : String)
  | unicodeEncode
  deriving DecidableEq

section

variable (E : Ed25519) (modelValidateJson : String → Option TokenClaims)

/-- `get_current_claims`, at the time `now`. -/
def getCurrentClaims (now : ℤ) (credentials : Option String) (serverPublicKey : Bytes) :
    Except ApiError TokenClaims :=
  match credentials with
  | none => .error (.http 401 "Credenciales no proporcionadas.")
  | some token =>
    match verifyAccessToken E modelValidateJson now token serverPublicKey with
    | .ok claims => .ok claims
    | .error (.tokenAuth message) => .error (.http 401 message)
    | .error .unicodeEncode => .error .unicodeEncode

/-- The token yields claims, or a `TokenAuthError` that is answered with 401. -/
def Answers (now : ℤ) (token : String) (publicKey : Bytes) : Prop :=
  (∃ claims, verifyAccessToken E modelValidateJson now token publicKey = .ok claims ∧
    getCurrentClaims E modelValidateJson now (some token) publicKey = .ok claims) ∨
  ∃ message, verifyAccessToken E modelValidateJson now token publicKey =
      .error (.tokenAuth message) ∧
    getCurrentClaims E modelValidateJson now (some token) publicKey =
      .error (.http 401 message)

end

/-- All characters are ASCII. -/
def IsAscii (s : String) : Prop := ∀ c ∈ s.toList, c.toNat < 128

theorem encodeAscii_eq_none_iff {s : String} : encodeAscii s = none ↔ ¬ IsAscii s := by
  have hall : (s.toList.all fun c => c.toNat < 128) = true ↔ IsAscii s := by
    rw [List.all_eq_true]
    exact forall₂_congr fun c _ => decide_eq_true_iff
  rw [encodeAscii, ascii, Option.map_eq_none_iff, ← hall]
  split_ifs with h
  · exact iff_of_false (by simp) fun hnot => hnot h
  · exact iff_of_true rfl h

theorem isAscii_join {h p : String} : IsAscii (h ++ "." ++ p) ↔ IsAscii h ∧ IsAscii p := by
  have hdot : ∀ c ∈ ".".toList, c.toNat < 128 := forall_mem_of_all (by decide)
  simp only [IsAscii, String.toList_append, List.mem_append]
  constructor
  · intro hall
    exact ⟨fun c hc => hall c (.inl (.inl hc)), fun c hc => hall c (.inr hc)⟩
  · rintro ⟨hh, hp⟩ c ((hc | hc) | hc)
    exacts [hh c hc, hdot c hc, hp c hc]

section

variable {E : Ed25519} {modelValidateJson : String → Option TokenClaims} {now : ℤ} {token : String}
  {publicKey : Bytes}

theorem checkHeader_ne_unicodeEncode (headerBytes : Bytes) :
    checkHeader headerBytes ≠ .error .unicodeEncode := by
  unfold checkHeader
  split
  · split_ifs <;> simp
  · simp

theorem checkClaims_ne_unicodeEncode (claims : TokenClaims) :
    checkClaims now claims ≠ .error .unicodeEncode := by
  unfold checkClaims
  split_ifs <;> simp

/-- Behind the encoding, every step raises `TokenAuthError`. -/
theorem verifyAccessToken_eq_unicodeEncode_iff :
    verifyAccessToken E modelValidateJson now token publicKey = .error .unicodeEncode ↔
      ∃ h p s, split token = [h, p, s] ∧ encodeAscii (h ++ "." ++ p) = none := by
  unfold verifyAccessToken
  split
  · next headerB64 payloadB64 signatureB64 hsplit =>
    have hparts : (∃ h p s, split token = [h, p, s] ∧ encodeAscii (h ++ "." ++ p) = none) ↔
        encodeAscii (headerB64 ++ "." ++ payloadB64) = none := by
      rw [hsplit]
      constructor
      · rintro ⟨h, p, s, heq, hnone⟩
        obtain ⟨rfl, rfl, -⟩ : headerB64 = h ∧ payloadB64 = p ∧ signatureB64 = s := by
          simpa using heq
        exact hnone
      · exact fun hnone => ⟨_, _, _, rfl, hnone⟩
    rw [hparts]
    split
    · next hnone => exact iff_of_true rfl hnone
    · next signingInput hinput =>
      rw [hinput]
      refine iff_of_false ?_ (by simp)
      split
      · next headerBytes signature payloadBytes _ _ _ =>
        cases hcheck : checkHeader headerBytes with
        | error e =>
          change (Except.error e : Except AuthError TokenClaims) ≠ _
          intro h
          obtain rfl : e = .unicodeEncode := Except.error.inj h
          exact checkHeader_ne_unicodeEncode headerBytes hcheck
        | ok u =>
          change (if E.verify publicKey signature signingInput = false then _ else _) ≠ _
          split_ifs
          · simp
          · split
            · simp
            · exact checkClaims_ne_unicodeEncode _
      · simp
  · next hmalformed =>
    refine iff_of_false (by simp) ?_
    rintro ⟨h, p, s, hsplit, -⟩
    exact hmalformed h p s hsplit

/-- `get_current_claims` answers what raises nothing but `TokenAuthError`. -/
theorem answers_iff_ne :
    Answers E modelValidateJson now token publicKey ↔
      verifyAccessToken E modelValidateJson now token publicKey ≠ .error .unicodeEncode := by
  unfold Answers getCurrentClaims
  cases hverify : verifyAccessToken E modelValidateJson now token publicKey with
  | ok claims => simp [hverify]
  | error e => cases e <;> simp [hverify]

/-- **What is answered**: a token is answered just when it does not have three parts, or
the first two of them are ASCII. -/
theorem answers_iff (E : Ed25519) (modelValidateJson : String → Option TokenClaims) (now : ℤ)
    (token : String) (publicKey : Bytes) :
    Answers E modelValidateJson now token publicKey ↔
      ∀ h p s, split token = [h, p, s] → IsAscii h ∧ IsAscii p := by
  rw [answers_iff_ne, Ne, verifyAccessToken_eq_unicodeEncode_iff]
  simp only [encodeAscii_eq_none_iff, isAscii_join]
  push Not
  rfl

/-- The header `Authorization: Bearer é.a.b` is not answered. -/
theorem not_answers_eAcute : ¬ ∀ (E : Ed25519) (modelValidateJson : String → Option TokenClaims)
    (now : ℤ) (token : String) (publicKey : Bytes),
    Answers E modelValidateJson now token publicKey := by
  intro h
  refine answers_iff_ne.1
    (h openEd25519 validateJson 1500 "é.a.b" (openEd25519.publicKey operatorKey)) ?_
  exact verifyAccessToken_eq_unicodeEncode_iff.2
    ⟨"é", "a", "b", by decide +kernel, by decide +kernel⟩

end

end CurrentClaims
end Boveda

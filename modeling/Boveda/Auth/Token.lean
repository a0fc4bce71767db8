/-
# Access tokens

`create_access_token` and `verify_access_token` of `src/boveda/auth.py`: a token is the
Base64 of a header, of the claims as JSON and of an Ed25519 signature over both, joined
by dots.

pydantic is a library: `ValidatesJson` is what the program relies on in
`model_validate_json`.  Where the key signs only what `create_access_token` gives it,
and no token that is presented holds a forged signature (`SignsOnly`), a token is
accepted just when it carries issued claims and their signature
(`verifyAccessToken_eq_ok_iff`).
-/

import Boveda.Auth.Claims
import Boveda.Crypto.Signature

namespace Boveda
namespace Auth

open Lib Crypto

/-- What `verify_access_token` raises. -/
inductive AuthError
  | tokenAuth (message : String)
  | unicodeEncode
  deriving DecidableEq

/-- `_b64url_encode`. -/
def b64urlEncode (data : Bytes) : String :=
  String.ofList (Base64.rstripPad (Base64.urlsafeEncode data))

/-- `_b64url_decode`, `none` for an exception. -/
def b64urlDecode (dataStr : String) : Option Bytes :=
  let padding := 4 - dataStr.toList.length % 4
  let padded := if padding = 4 then dataStr.toList
    else dataStr.toList ++ List.replicate padding '='
  (ascii (String.ofList padded)).bind Base64.urlsafeDecode

/-- `s.encode("ascii")` as bytes. -/
def encodeAscii (s : String) : Option Bytes :=
  (ascii s).map fun text => text.map fun c => UInt8.ofNat c.toNat

/-- `token.split(".")`. -/
def split (token : String) : List String := (token.toList.splitOn '.').map String.ofList

/-- `{"alg": "EdDSA", "typ": "JWT"}`. -/
def header : List (List ℕ × Json) :=
  [(Json.codePoints "alg", .ofString "EdDSA"), (Json.codePoints "typ", .ofString "JWT")]

/-- A dictionary as text and then as Base64, `none` for `ValueError`. -/
def segment (fields : List (List ℕ × Json)) : Option String :=
  (Json.dumps (.obj fields)).map fun text => b64urlEncode (utf8 (String.ofList text))

/-- The part of a token that is signed. -/
def signedPart (claims : TokenClaims) : Option String := do
  let headerB64 ← segment header
  let payloadB64 ← segment claims.modelDump
  return headerB64 ++ "." ++ payloadB64

/-- `create_access_token`, `none` for `ValueError`. -/
def createAccessToken (E : Ed25519) (claims : TokenClaims) (privateKey : Bytes) :
    Option String := do
  let part ← signedPart claims
  let signingInput ← encodeAscii part
  return part ++ "." ++ b64urlEncode (E.sign privateKey signingInput)

/-- `header_dict.get(name) == value`. -/
def hasField (fields : List (List ℕ × Json)) (name value : String) : Bool :=
  match Json.get? fields (Json.codePoints name) with
  | some (.str s) => s = Json.codePoints value
  | _ => false

/-- The first step of `verify_access_token`. -/
def checkHeader (headerBytes : Bytes) : Except AuthError Unit :=
  match (decodeUtf8 headerBytes).bind fun text => Json.loads text.toList with
  | some (.obj fields) =>
    if hasField fields "alg" "EdDSA" && hasField fields "typ" "JWT" then .ok ()
    else .error (.tokenAuth "Encabezado JWT inválido o algoritmo no permitido.")
  | _ => .error (.tokenAuth "Encabezado de token malformado.")

/-- The last step of `verify_access_token`. -/
def checkClaims (now : ℤ) (claims : TokenClaims) : Except AuthError TokenClaims :=
  if claims.exp < now then .error (.tokenAuth "Token expirado.")
  else if claims.iss.1 ≠ "boveda-pyme:auth" then
    .error (.tokenAuth ("Emisor no confiable: " ++ claims.iss))
  else if claims.aud.1 ≠ "boveda-pyme:api" then
    .error (.tokenAuth ("Audiencia inválida: " ++ claims.aud))
  else .ok claims

section

variable (E : Ed25519) (modelValidateJson : String → Option TokenClaims)

/-- `verify_access_token`, at the time `now`. -/
def verifyAccessToken (now : ℤ) (token : String) (publicKey : Bytes) :
    Except AuthError TokenClaims :=
  match split token with
  | [headerB64, payloadB64, signatureB64] =>
    match encodeAscii (headerB64 ++ "." ++ payloadB64) with
    | none => .error .unicodeEncode
    | some signingInput =>
      match b64urlDecode headerB64, b64urlDecode signatureB64, b64urlDecode payloadB64 with
      | some headerBytes, some signature, some payloadBytes => do
        checkHeader headerBytes
        if E.verify publicKey signature signingInput = false then
          .error (.tokenAuth "Firma de token inválida.")
        else
          match (decodeUtf8 payloadBytes).bind modelValidateJson with
          | none => .error (.tokenAuth "Claims de token inválidos.")
          | some claims => checkClaims now claims
      | _, _, _ => .error (.tokenAuth "Error al decodificar base64url del token.")
  | _ => .error (.tokenAuth "Formato de token JWT malformado.")

/-- `model_validate_json` validates the fields of an object. -/
def ValidatesJson : Prop :=
  ∀ (text : String) fields, Json.loads text.toList = some (.obj fields) →
    (fields.map (·.1)).Nodup → modelValidateJson text = TokenClaims.validate fields

/-- The message is what `create_access_token` gives the key for claims that have been
issued. -/
def Issues (issued : TokenClaims → Prop) (message : Bytes) : Prop :=
  ∃ claims, issued claims ∧ (signedPart claims).bind encodeAscii = some message

/-- The key accepts what it has signed for the claims that have been issued, and in a token
that is presented it accepts nothing else. -/
structure SignsOnly (privateKey : Bytes) (issued : TokenClaims → Prop)
    (presented : String → Prop) : Prop where
  verifies : ∀ message, Issues issued message →
    E.verify (E.publicKey privateKey) (E.sign privateKey message) message = true
  unforged : ∀ token headerB64 payloadB64 signatureB64 signature message, presented token →
    split token = [headerB64, payloadB64, signatureB64] →
    b64urlDecode signatureB64 = some signature →
    encodeAscii (headerB64 ++ "." ++ payloadB64) = some message →
    E.verify (E.publicKey privateKey) signature message = true →
    Issues issued message ∧ signature = E.sign privateKey message

/-- The first two segments of a token are those of a token that has been issued for some
claims, and its third segment decodes to the signature of that token. -/
def Carries (privateKey : Bytes) (issued : TokenClaims → Prop) (token : String)
    (claims : TokenClaims) : Prop :=
  ∃ token₀ headerB64 payloadB64 signatureB64 signatureB64₀ signature,
    issued claims ∧ createAccessToken E claims privateKey = some token₀ ∧
    split token = [headerB64, payloadB64, signatureB64] ∧
    split token₀ = [headerB64, payloadB64, signatureB64₀] ∧
    b64urlDecode signatureB64₀ = some signature ∧ b64urlDecode signatureB64 = some signature

end

/-! ### Base64 without padding -/

theorem toList_b64urlEncode (data : Bytes) :
    (b64urlEncode data).toList = (Base64.body data).map Base64.toUrl := by
  rw [b64urlEncode, String.toList_ofList, Base64.rstripPad_urlsafeEncode]

theorem mem_b64urlEncode {data : Bytes} {c : Char} (hc : c ∈ (b64urlEncode data).toList) :
    c.toNat < 128 ∧ c ≠ '.' := by
  have hurl : ∀ d ∈ Base64.alphabet, (Base64.toUrl d).toNat < 128 ∧ Base64.toUrl d ≠ '.' :=
    forall_mem_of_all (by decide)
  rw [toList_b64urlEncode] at hc
  obtain ⟨d, hd, rfl⟩ := List.mem_map.1 hc
  exact hurl d (Base64.mem_alphabet_of_mem_body hd)

/-- **The round trip.** -/
theorem b64urlDecode_b64urlEncode (data : Bytes) :
    b64urlDecode (b64urlEncode data) = some data := by
  have hround := Base64.urlsafeDecode_pad data
  have hascii : ∀ k, ∀ c ∈ (b64urlEncode data).toList ++ List.replicate k '=', c.toNat < 128 := by
    intro k c hc
    rcases List.mem_append.1 hc with hc | hc
    · exact (mem_b64urlEncode hc).1
    · exact List.eq_of_mem_replicate hc ▸ by decide
  have hpadded : (if 4 - (b64urlEncode data).toList.length % 4 = 4 then (b64urlEncode data).toList
      else (b64urlEncode data).toList ++
        List.replicate (4 - (b64urlEncode data).toList.length % 4) '=') =
      (b64urlEncode data).toList ++
        List.replicate ((4 - (b64urlEncode data).toList.length % 4) % 4) '=' := by
    split_ifs with h
    · rw [h, Nat.mod_self, List.replicate_zero, List.append_nil]
    · rw [Nat.mod_eq_of_lt (show 4 - (b64urlEncode data).toList.length % 4 < 4 by omega)]
  rw [b64urlDecode, hpadded, ascii_ofList (hascii _), Option.bind_some, toList_b64urlEncode,
    List.length_map]
  exact hround

/-! ### Segments -/

/-- What the segment of a dictionary is. -/
structure IsSegment (fields : List (List ℕ × Json)) (seg : String) : Prop where
  no_dot : '.' ∉ seg.toList
  isAscii : ∀ c ∈ seg.toList, c.toNat < 128
  decodes : ∃ text : String, b64urlDecode seg = some (utf8 text) ∧
    Json.loads text.toList = some (.obj fields)

theorem isSegment {fields : List (List ℕ × Json)} {seg : String}
    (hplain : (Json.obj fields).all Json.plain) (h : segment fields = some seg) :
    IsSegment fields seg := by
  obtain ⟨text, htext, rfl⟩ := Option.map_eq_some_iff.1 h
  refine ⟨fun hdot => (mem_b64urlEncode hdot).2 rfl, fun c hc => (mem_b64urlEncode hc).1,
    String.ofList text, b64urlDecode_b64urlEncode _, ?_⟩
  rw [String.toList_ofList]
  exact Json.loads_dumps hplain htext

section

variable {p : Json → Bool} (hstr : ∀ s : String, p (.ofString s))

include hstr

theorem header_all : (Json.obj header).all p := by
  have hvalue (s : String) : (Json.ofString s).all p := hstr s
  show Json.allFields p header
  simp only [header, Json.allFields, Json.allField_of_all hstr _ (hvalue _), Bool.and_self]

/-- What holds of the strings and of the two numbers holds of the claims. -/
theorem modelDump_all {c : TokenClaims} (hexp : p (.int c.exp)) (hiat : p (.int c.iat)) :
    (Json.obj c.modelDump).all p := by
  have hvalue (s : String) : (Json.ofString s).all p := hstr s
  have hexp : (Json.int c.exp).all p := hexp
  have hiat : (Json.int c.iat).all p := hiat
  show Json.allFields p c.modelDump
  simp only [TokenClaims.modelDump, Json.allFields, Json.allField_of_all hstr _ (hvalue _),
    Json.allField_of_all hstr _ hexp, Json.allField_of_all hstr _ hiat, Bool.and_self]

end

theorem header_plain : (Json.obj header).all Json.plain := header_all Json.ofString_plain

theorem modelDump_plain (c : TokenClaims) : (Json.obj c.modelDump).all Json.plain :=
  modelDump_all Json.ofString_plain rfl rfl

theorem exists_segment {fields : List (List ℕ × Json)} (h : (Json.obj fields).all Json.writable) :
    ∃ seg, segment fields = some seg := by
  rw [segment, Json.dumps, if_pos h]
  exact ⟨_, rfl⟩

theorem map_ofNat_encodeAscii {s : String} {data : Bytes} (h : encodeAscii s = some data) :
    (data.map fun b => Char.ofNat b.toNat) = s.toList := by
  obtain ⟨text, htext, rfl⟩ := Option.map_eq_some_iff.1 h
  unfold ascii at htext
  split_ifs at htext with hascii
  obtain rfl := Option.some.inj htext
  rw [List.map_map]
  conv_rhs => rw [← List.map_id s.toList]
  refine List.map_congr_left fun c hc => ?_
  have hbyte : (UInt8.ofNat c.toNat).toNat = c.toNat := by
    rw [UInt8.toNat_ofNat']
    have hlt : c.toNat < 128 := of_decide_eq_true (List.all_eq_true.1 hascii c hc)
    exact Nat.mod_eq_of_lt (by omega)
  show Char.ofNat (UInt8.ofNat c.toNat).toNat = c
  rw [hbyte, Char.ofNat_toNat]

theorem encodeAscii_injective {s t : String} {data : Bytes} (hs : encodeAscii s = some data)
    (ht : encodeAscii t = some data) : s = t :=
  String.toList_injective ((map_ofNat_encodeAscii hs).symm.trans (map_ofNat_encodeAscii ht))

theorem splitOn_join (h p : String) :
    (h ++ "." ++ p).toList.splitOn '.' = h.toList.splitOn '.' ++ p.toList.splitOn '.' := by
  rw [String.toList_append, String.toList_append, List.append_assoc]
  exact List.splitOn_append_cons_self _ _

theorem split_join {h p s : String} (hh : '.' ∉ h.toList) (hp : '.' ∉ p.toList)
    (hs : '.' ∉ s.toList) : split (h ++ "." ++ p ++ "." ++ s) = [h, p, s] := by
  rw [split, splitOn_join, splitOn_join, List.splitOn_eq_singleton hh,
    List.splitOn_eq_singleton hp, List.splitOn_eq_singleton hs]
  simp

/-- Two segments are told apart by the dot. -/
theorem eq_of_join_eq {h p h' p' : String} (hh' : '.' ∉ h'.toList) (hp' : '.' ∉ p'.toList)
    (heq : h ++ "." ++ p = h' ++ "." ++ p') : h = h' ∧ p = p' := by
  have hsplit : (h ++ "." ++ p).toList.splitOn '.' = (h' ++ "." ++ p').toList.splitOn '.' := by
    rw [heq]
  rw [splitOn_join, splitOn_join, List.splitOn_eq_singleton hh', List.splitOn_eq_singleton hp']
    at hsplit
  -- neither part of the left side is empty, so each is one segment
  obtain ⟨u, us, hu⟩ := List.exists_cons_of_ne_nil (List.splitOn_ne_nil '.' h.toList)
  obtain ⟨v, vs, hv⟩ := List.exists_cons_of_ne_nil (List.splitOn_ne_nil '.' p.toList)
  rw [hu, hv] at hsplit
  obtain rfl : us = [] := by
    cases us with
    | nil => rfl
    | cons w us => simp at hsplit
  simp only [List.cons_append, List.nil_append, List.cons.injEq] at hsplit
  obtain ⟨rfl, rfl, rfl⟩ := hsplit
  have hback (s t : String) (hs : s.toList.splitOn '.' = [t.toList]) : s = t := by
    have hlist : List.intercalate ['.'] (s.toList.splitOn '.') = s.toList :=
      List.intercalate_splitOn '.'
    rw [hs, List.intercalate_singleton] at hlist
    exact String.toList_injective hlist.symm
  exact ⟨hback h h' hu, hback p p' hv⟩

theorem exists_encodeAscii {s : String} (h : ∀ c ∈ s.toList, c.toNat < 128) :
    ∃ data, encodeAscii s = some data := by
  have hall : s.toList.all fun c => c.toNat < 128 :=
    List.all_eq_true.2 fun c hc => decide_eq_true (h c hc)
  rw [encodeAscii, ascii, if_pos hall]
  exact ⟨_, rfl⟩

/-- The signed part of a token is two segments. -/
theorem exists_segments {c : TokenClaims} {part : String} (h : signedPart c = some part) :
    ∃ headerB64 payloadB64, IsSegment header headerB64 ∧ IsSegment c.modelDump payloadB64 ∧
      part = headerB64 ++ "." ++ payloadB64 := by
  rw [signedPart, Option.bind_eq_bind] at h
  obtain ⟨headerB64, hheader, h⟩ := Option.bind_eq_some_iff.1 h
  obtain ⟨payloadB64, hpayload, h⟩ := Option.bind_eq_some_iff.1 h
  exact ⟨headerB64, payloadB64, isSegment header_plain hheader,
    isSegment (modelDump_plain c) hpayload, (Option.some.inj h).symm⟩

theorem IsSegment.ascii_join {fields fields' : List (List ℕ × Json)} {h p : String}
    (hh : IsSegment fields h) (hp : IsSegment fields' p) :
    ∀ c ∈ (h ++ "." ++ p).toList, c.toNat < 128 := by
  intro c hc
  rw [String.toList_append, String.toList_append] at hc
  rcases List.mem_append.1 hc with hc | hc
  · rcases List.mem_append.1 hc with hc | hc
    · exact hh.isAscii c hc
    · obtain rfl : c = '.' := List.mem_singleton.1 hc
      decide
  · exact hp.isAscii c hc

theorem checkHeader_of_isSegment {text : String} (h : Json.loads text.toList = some (.obj header)) :
    checkHeader (utf8 text) = .ok () := by
  rw [checkHeader, decodeUtf8_utf8, Option.bind_some, h]
  decide

section

variable {E : Ed25519} {modelValidateJson : String → Option TokenClaims} {now : ℤ} {token : String}
  {c : TokenClaims} {publicKey privateKey : Bytes}

/-- What happens to a token that carries claims. -/
theorem verifyAccessToken_of_segments (hvalidates : ValidatesJson modelValidateJson)
    {h p s : String} {signingInput signature : Bytes} (hh : IsSegment header h)
    (hp : IsSegment c.modelDump p) (hsplit : split token = [h, p, s])
    (hinput : encodeAscii (h ++ "." ++ p) = some signingInput)
    (hsignature : b64urlDecode s = some signature) :
    verifyAccessToken E modelValidateJson now token publicKey =
      if E.verify publicKey signature signingInput = false then
        .error (.tokenAuth "Firma de token inválida.")
      else checkClaims now c := by
  obtain ⟨headerText, hheader, hheaderLoads⟩ := hh.decodes
  obtain ⟨payloadText, hpayload, hpayloadLoads⟩ := hp.decodes
  have hclaims : modelValidateJson payloadText = some c := by
    rw [hvalidates payloadText _ hpayloadLoads (nodup_keys_modelDump c)]
    exact c.validate_modelDump
  rw [verifyAccessToken, hsplit]
  dsimp only
  rw [hinput, hheader, hsignature, hpayload]
  dsimp only
  rw [checkHeader_of_isSegment hheaderLoads, decodeUtf8_utf8, Option.bind_some, hclaims]
  rfl

/-- What a token that is accepted has passed. -/
theorem exists_of_verifyAccessToken
    (h : verifyAccessToken E modelValidateJson now token publicKey = .ok c) :
    ∃ headerB64 payloadB64 signatureB64 signingInput signature,
      split token = [headerB64, payloadB64, signatureB64] ∧
      encodeAscii (headerB64 ++ "." ++ payloadB64) = some signingInput ∧
      b64urlDecode signatureB64 = some signature ∧
      E.verify publicKey signature signingInput = true := by
  unfold verifyAccessToken at h
  split at h
  · next headerB64 payloadB64 signatureB64 hsplit =>
    split at h
    · cases h
    · next signingInput hinput =>
      split at h
      · next headerBytes signature payloadBytes hheader hsignature hpayload =>
        refine ⟨_, _, _, _, _, hsplit, hinput, hsignature, ?_⟩
        cases hcheck : checkHeader headerBytes with
        | error e =>
          rw [hcheck] at h
          cases h
        | ok u =>
          rw [hcheck] at h
          change (if E.verify publicKey signature signingInput = false then _ else _) = _ at h
          split_ifs at h with hverify
          exact Bool.not_eq_false _ ▸ hverify
      · cases h
  · cases h

theorem checkClaims_eq_ok_iff {c c' : TokenClaims} : checkClaims now c = .ok c' ↔
    c = c' ∧ now ≤ c'.exp ∧ c'.iss.1 = "boveda-pyme:auth" ∧ c'.aud.1 = "boveda-pyme:api" := by
  unfold checkClaims
  split_ifs with hexp hiss haud
  · refine iff_of_false (fun h => by cases h) ?_
    rintro ⟨rfl, hle, -⟩
    exact absurd hexp (Int.not_lt.2 hle)
  · refine iff_of_false (fun h => by cases h) ?_
    rintro ⟨rfl, -, h, -⟩
    exact hiss h
  · refine iff_of_false (fun h => by cases h) ?_
    rintro ⟨rfl, -, -, h⟩
    exact haud h
  · refine ⟨fun h => ?_, fun h => congrArg Except.ok h.1⟩
    obtain rfl := Except.ok.inj h
    exact ⟨rfl, Int.not_lt.1 hexp, not_not.1 hiss, not_not.1 haud⟩

variable {issued : TokenClaims → Prop} {presented : String → Prop}

theorem SignsOnly.anti (hsigns : SignsOnly E privateKey issued presented)
    {presented' : String → Prop} (h : ∀ token, presented' token → presented token) :
    SignsOnly E privateKey issued presented' where
  verifies := hsigns.verifies
  unforged token _ _ _ _ _ hpresented := hsigns.unforged token _ _ _ _ _ (h token hpresented)

/-- The parts of a token that has been made. -/
theorem exists_of_createAccessToken (h : createAccessToken E c privateKey = some token) :
    ∃ headerB64 payloadB64 signingInput, IsSegment header headerB64 ∧
      IsSegment c.modelDump payloadB64 ∧
      (signedPart c).bind encodeAscii = some signingInput ∧
      encodeAscii (headerB64 ++ "." ++ payloadB64) = some signingInput ∧
      split token = [headerB64, payloadB64, b64urlEncode (E.sign privateKey signingInput)] := by
  rw [createAccessToken, Option.bind_eq_bind] at h
  obtain ⟨part, hpart, h⟩ := Option.bind_eq_some_iff.1 h
  obtain ⟨signingInput, hinput, h⟩ := Option.bind_eq_some_iff.1 h
  obtain rfl := Option.some.inj h
  obtain ⟨headerB64, payloadB64, hheader, hpayload, rfl⟩ := exists_segments hpart
  refine ⟨headerB64, payloadB64, signingInput, hheader, hpayload, ?_, hinput, ?_⟩
  · rw [hpart]
    exact hinput
  · exact split_join hheader.no_dot hpayload.no_dot fun h => (mem_b64urlEncode h).2 rfl

/-- What the key has issued is carried. -/
theorem carries_of_createAccessToken (hissued : issued c)
    (hcreate : createAccessToken E c privateKey = some token) :
    Carries E privateKey issued token c := by
  obtain ⟨headerB64, payloadB64, signingInput, -, -, -, -, hsplit⟩ :=
    exists_of_createAccessToken hcreate
  have hsignature := b64urlDecode_b64urlEncode (E.sign privateKey signingInput)
  exact ⟨token, headerB64, payloadB64, _, _, _, hissued, hcreate, hsplit, hsplit, hsignature,
    hsignature⟩

/-- Of a token that carries issued claims nothing but these is left to check. -/
theorem verifyAccessToken_of_carries (hsigns : SignsOnly E privateKey issued presented)
    (hvalidates : ValidatesJson modelValidateJson) (h : Carries E privateKey issued token c) :
    verifyAccessToken E modelValidateJson now token (E.publicKey privateKey) =
      checkClaims now c := by
  obtain ⟨token₀, headerB64, payloadB64, signatureB64, signatureB64₀, signature, hissued, hcreate,
    hsplit, hsplit₀, hsignature₀, hsignature⟩ := h
  obtain ⟨header₀, payload₀, signingInput, hheader, hpayload, hpart, hinput, hsplit'⟩ :=
    exists_of_createAccessToken hcreate
  rw [hsplit₀] at hsplit'
  simp only [List.cons.injEq, and_true] at hsplit'
  obtain ⟨rfl, rfl, rfl⟩ := hsplit'
  obtain rfl : signature = E.sign privateKey signingInput :=
    Option.some.inj (hsignature₀.symm.trans (b64urlDecode_b64urlEncode _))
  rw [verifyAccessToken_of_segments hvalidates hheader hpayload hsplit hinput hsignature,
    hsigns.verifies signingInput ⟨c, hissued, hpart⟩, if_neg (by decide)]

/-- **What is accepted**: the claims of a token are those of an issued token with the same
first two segments and the same signature, and they are current. -/
theorem verifyAccessToken_eq_ok_iff (hsigns : SignsOnly E privateKey issued presented)
    (hvalidates : ValidatesJson modelValidateJson) (hpresented : presented token) :
    verifyAccessToken E modelValidateJson now token (E.publicKey privateKey) = .ok c ↔
      Carries E privateKey issued token c ∧ now ≤ c.exp ∧ c.iss.1 = "boveda-pyme:auth" ∧
        c.aud.1 = "boveda-pyme:api" := by
  constructor
  · intro h
    obtain ⟨headerB64, payloadB64, signatureB64, signingInput, signature, hsplit, hinput,
      hsignature, hverify⟩ := exists_of_verifyAccessToken h
    -- the key has signed this input, for claims `c₀`
    obtain ⟨⟨c₀, hissued, hinput₀⟩, rfl⟩ :=
      hsigns.unforged _ _ _ _ _ _ hpresented hsplit hsignature hinput hverify
    obtain ⟨part, hpart, hencode⟩ := Option.bind_eq_some_iff.1 hinput₀
    obtain ⟨header₀, payload₀, hheader, hpayload, rfl⟩ := exists_segments hpart
    obtain ⟨rfl, rfl⟩ := eq_of_join_eq hheader.no_dot hpayload.no_dot
      (encodeAscii_injective hinput hencode)
    rw [verifyAccessToken_of_segments hvalidates hheader hpayload hsplit hinput hsignature,
      hverify, if_neg (by decide), checkClaims_eq_ok_iff] at h
    obtain ⟨rfl, hcurrent⟩ := h
    have hcreate : createAccessToken E c₀ privateKey = some (headerB64 ++ "." ++ payloadB64 ++
        "." ++ b64urlEncode (E.sign privateKey signingInput)) := by
      rw [createAccessToken, hpart, Option.bind_eq_bind, Option.bind_some, hencode]
      rfl
    have hsplit₀ := split_join hheader.no_dot hpayload.no_dot
      fun h : '.' ∈ (b64urlEncode (E.sign privateKey signingInput)).toList =>
        (mem_b64urlEncode h).2 rfl
    exact ⟨⟨_, headerB64, payloadB64, signatureB64, _, _, hissued, hcreate, hsplit, hsplit₀,
      b64urlDecode_b64urlEncode _, hsignature⟩, hcurrent⟩
  · rintro ⟨hcarries, hcurrent⟩
    rw [verifyAccessToken_of_carries hsigns hvalidates hcarries]
    exact checkClaims_eq_ok_iff.2 ⟨rfl, hcurrent⟩

/-- **Soundness and round trip of tokens**, whichever of all strings are presented. -/
theorem verifyAccessToken_issued (hsigns : SignsOnly E privateKey issued presented)
    (hvalidates : ValidatesJson modelValidateJson) :
    (∀ now token c, presented token →
      (verifyAccessToken E modelValidateJson now token (E.publicKey privateKey) = .ok c ↔
        Carries E privateKey issued token c ∧ now ≤ c.exp ∧ c.iss.1 = "boveda-pyme:auth" ∧
          c.aud.1 = "boveda-pyme:api")) ∧
    ∀ now token c, issued c → createAccessToken E c privateKey = some token → now ≤ c.exp →
      c.iss.1 = "boveda-pyme:auth" → c.aud.1 = "boveda-pyme:api" →
      verifyAccessToken E modelValidateJson now token (E.publicKey privateKey) = .ok c := by
  refine ⟨fun now token c => verifyAccessToken_eq_ok_iff hsigns hvalidates,
    fun now token c hissued hcreate hexp hiss haud => ?_⟩
  rw [verifyAccessToken_of_carries hsigns hvalidates (carries_of_createAccessToken hissued hcreate)]
  exact checkClaims_eq_ok_iff.2 ⟨rfl, hexp, hiss, haud⟩

/-- A token can be made of all claims whose numbers are short enough to be written. -/
theorem exists_createAccessToken (hexp : Json.Short c.exp) (hiat : Json.Short c.iat) :
    ∃ token, createAccessToken E c privateKey = some token := by
  obtain ⟨headerB64, hheader⟩ := exists_segment (header_all (p := Json.writable) fun _ => rfl)
  obtain ⟨payloadB64, hpayload⟩ := exists_segment (modelDump_all (c := c) (p := Json.writable)
    (fun _ => rfl) (decide_eq_true hexp) (decide_eq_true hiat))
  obtain ⟨signingInput, hinput⟩ := exists_encodeAscii ((isSegment header_plain hheader).ascii_join
    (isSegment (modelDump_plain c) hpayload))
  have hpart : signedPart c = some (headerB64 ++ "." ++ payloadB64) := by
    rw [signedPart, hheader, hpayload]
    rfl
  rw [createAccessToken, hpart, Option.bind_eq_bind, Option.bind_some, hinput]
  exact ⟨_, rfl⟩

end

/-- A private key for tests. -/
def operatorKey : Bytes := List.replicate 32 7

/-- A token without a signature. -/
def unsignedToken : String := "e30.e30."

theorem signature_unsignedToken {headerB64 payloadB64 signatureB64 : String} {signature : Bytes}
    (hsplit : split unsignedToken = [headerB64, payloadB64, signatureB64])
    (hsignature : b64urlDecode signatureB64 = some signature) : signature = [] := by
  have hparts : split unsignedToken = ["e30", "e30", ""] := by decide
  have hempty : b64urlDecode "" = some [] := by decide
  rw [hparts] at hsplit
  simp only [List.cons.injEq, and_true] at hsplit
  obtain ⟨-, -, rfl⟩ := hsplit
  exact Option.some.inj (hsignature.symm.trans hempty)

theorem sign_ne_nil (message : Bytes) : openEd25519.sign operatorKey message ≠ [] :=
  List.append_ne_nil_of_left_ne_nil (by decide) message

/-- The tokens that are presented are the one that has been issued, and one without a
signature. -/
theorem signsOnly_openEd25519 {token : String}
    (hcreate : createAccessToken openEd25519 operatorClaims operatorKey = some token) :
    SignsOnly openEd25519 operatorKey (· = operatorClaims)
      fun t => t = token ∨ t = unsignedToken where
  verifies message _ := beq_self_eq_true (paddedKey operatorKey ++ message)
  unforged t headerB64 payloadB64 signatureB64 signature message ht hsplit hsignature hinput
      hverify := by
    have hsigned : signature = openEd25519.sign operatorKey message := beq_iff_eq.1 hverify
    refine ⟨⟨operatorClaims, rfl, ?_⟩, hsigned⟩
    rcases ht with rfl | rfl
    · obtain ⟨headerB64₀, payloadB64₀, signingInput, -, -, hpart, hinput₀, hsplit₀⟩ :=
        exists_of_createAccessToken hcreate
      rw [hsplit] at hsplit₀
      simp only [List.cons.injEq, and_true] at hsplit₀
      obtain ⟨rfl, rfl, -⟩ := hsplit₀
      rw [hpart, ← hinput₀, hinput]
    · exact absurd (hsigned.symm.trans (signature_unsignedToken hsplit hsignature))
        (sign_ne_nil message)

theorem not_carries_unsignedToken {c : TokenClaims} :
    ¬ Carries openEd25519 operatorKey (· = operatorClaims) unsignedToken c := by
  rintro ⟨token₀, headerB64, payloadB64, signatureB64, signatureB64₀, signature, -, hcreate,
    hsplit, hsplit₀, hsignature₀, hsignature⟩
  obtain ⟨headerB64₀, payloadB64₀, signingInput, -, -, -, -, hsplit'⟩ :=
    exists_of_createAccessToken hcreate
  rw [hsplit₀] at hsplit'
  simp only [List.cons.injEq, and_true] at hsplit'
  obtain ⟨-, -, rfl⟩ := hsplit'
  rw [b64urlDecode_b64urlEncode, signature_unsignedToken hsplit hsignature] at hsignature₀
  exact sign_ne_nil signingInput (Option.some.inj hsignature₀)

/-- The validation of a text as pydantic does it. -/
def validateJson (text : String) : Option TokenClaims :=
  match Json.loads text.toList with
  | some (.obj fields) => TokenClaims.validate fields
  | _ => none

theorem validatesJson_validateJson : ValidatesJson validateJson := by
  intro text fields hloads _
  rw [validateJson, hloads]

theorem exists_operatorToken : ∃ token,
    createAccessToken openEd25519 operatorClaims operatorKey = some token :=
  exists_createAccessToken (Json.short_of_lt (show 2000 < 10 ^ 4 by decide) (by decide))
    (Json.short_of_lt (show 1000 < 10 ^ 4 by decide) (by decide))

/-- The token that has been issued is accepted, and the one without a signature is not. -/
theorem verifyAccessToken_operatorClaims : ∃ token,
    createAccessToken openEd25519 operatorClaims operatorKey = some token ∧
    verifyAccessToken openEd25519 validateJson 1500 token
      (openEd25519.publicKey operatorKey) = .ok operatorClaims ∧
    ∀ c, verifyAccessToken openEd25519 validateJson 1500 unsignedToken
      (openEd25519.publicKey operatorKey) ≠ .ok c := by
  obtain ⟨token, hcreate⟩ := exists_operatorToken
  obtain ⟨haccepts, hroundtrip⟩ :=
    verifyAccessToken_issued (signsOnly_openEd25519 hcreate) validatesJson_validateJson
  refine ⟨token, hcreate, hroundtrip 1500 token operatorClaims rfl hcreate (by decide) rfl rfl,
    fun c hok => ?_⟩
  exact not_carries_unsignedToken ((haccepts 1500 unsignedToken c (.inr rfl)).1 hok).1

end Auth
end Boveda

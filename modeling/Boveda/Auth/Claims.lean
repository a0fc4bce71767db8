/-
# The claims of a token

`TokenClaims` of `src/boveda/auth.py`, a pydantic model with the configuration of
`StrictBaseModel` (`src/boveda/schemas.py`): no coercion, no other fields, no white
space around strings.  A value of `TokenClaims` has passed its validation, and what
`model_dump` makes of it passes it unchanged (`TokenClaims.validate_modelDump`).
-/

import Boveda.Lib.Json
import Mathlib.Data.List.DropRight

namespace Boveda
namespace Auth

open Lib

/-- `UserRole`. -/
inductive UserRole
  | tenantAdmin
  | operator
  | auditor
  deriving DecidableEq

/-- The text of a role. -/
def UserRole.value : UserRole → String
  | .tenantAdmin => "TenantAdmin"
  | .operator => "Operator"
  | .auditor => "Auditor"

/-- The role with a text. -/
def UserRole.ofValue (s : String) : Option UserRole :=
  [.tenantAdmin, .operator, .auditor].find? fun role => role.value = s

/-- The characters that `str_strip_whitespace` removes. -/
def isWhiteSpace (c : Char) : Bool :=
  (9 ≤ c.toNat && c.toNat ≤ 13) || (0x2000 ≤ c.toNat && c.toNat ≤ 0x200A) ||
    c.toNat ∈ [0x20, 0x85, 0xA0, 0x1680, 0x2028, 0x2029, 0x202F, 0x205F, 0x3000]

/-- `str_strip_whitespace`. -/
def strip (s : String) : String :=
  String.ofList ((s.toList.dropWhile isWhiteSpace).rdropWhile isWhiteSpace)

theorem strip_strip (s : String) : strip (strip s) = strip s := by
  unfold strip
  rw [String.toList_ofList]
  generalize hfront : s.toList.dropWhile isWhiteSpace = front
  -- what is left starts as `front` does, with a character that is not removed
  have hdrop : (front.rdropWhile isWhiteSpace).dropWhile isWhiteSpace =
      front.rdropWhile isWhiteSpace := by
    obtain ⟨tail, htail⟩ := List.rdropWhile_prefix isWhiteSpace front
    cases hback : front.rdropWhile isWhiteSpace with
    | nil => rfl
    | cons c back =>
      have hc : isWhiteSpace c = false := by
        have hfirst := List.head?_dropWhile_not isWhiteSpace s.toList
        rw [hfront, ← htail, hback] at hfirst
        simpa using hfirst
      rw [List.dropWhile_cons_of_neg (by rw [hc]; decide)]
  rw [hdrop, List.rdropWhile_idempotent]

/-- A string without white space at its ends. -/
abbrev StrippedStr := { s : String // strip s = s }

/-- A letter, a digit, `_` or `-`. -/
def isTenantIdChar (c : Char) : Bool :=
  ('a' ≤ c && c ≤ 'z') || ('A' ≤ c && c ≤ 'Z') || ('0' ≤ c && c ≤ '9') || c == '_' || c == '-'

/-- `^[a-zA-Z0-9_-]{3,36}$`. -/
def IsTenantId (s : String) : Prop :=
  3 ≤ s.toList.length ∧ s.toList.length ≤ 36 ∧ s.toList.all isTenantIdChar

instance : DecidablePred IsTenantId := fun _ => inferInstanceAs (Decidable (_ ∧ _))

/-- `TokenClaims`, once validated. -/
structure TokenClaims where
  iss : StrippedStr := ⟨"boveda-pyme:auth", by decide⟩
  sub : StrippedStr
  aud : StrippedStr := ⟨"boveda-pyme:api", by decide⟩
  tenantId : { s : StrippedStr // IsTenantId s }
  role : UserRole
  exp : ℤ
  iat : ℤ
  jti : StrippedStr

/-- Claims for tests. -/
def operatorClaims : TokenClaims where
  sub := ⟨"user-1", by decide⟩
  tenantId := ⟨⟨"tenant-1", by decide⟩, by decide⟩
  role := .operator
  exp := 2000
  iat := 1000
  jti := ⟨"jti-1", by decide⟩

/-- The names of the fields. -/
def TokenClaims.fieldNames : List String :=
  ["iss", "sub", "aud", "tenant_id", "role", "exp", "iat", "jti"]

/-- `model_dump`. -/
def TokenClaims.modelDump (c : TokenClaims) : List (List ℕ × Json) :=
  [(Json.codePoints "iss", .ofString c.iss),
    (Json.codePoints "sub", .ofString c.sub),
    (Json.codePoints "aud", .ofString c.aud),
    (Json.codePoints "tenant_id", .ofString c.tenantId.1),
    (Json.codePoints "role", .ofString c.role.value),
    (Json.codePoints "exp", .int c.exp),
    (Json.codePoints "iat", .int c.iat),
    (Json.codePoints "jti", .ofString c.jti)]

/-- A string, stripped; no other value is taken for one. -/
def strictStr : Json → Option StrippedStr
  | .str s => (Json.ofCodePoints s).map fun s => ⟨strip s, strip_strip s⟩
  | _ => none

/-- An integer; no other value is taken for one. -/
def strictInt : Json → Option ℤ
  | .int n => some n
  | _ => none

/-- The text of a role. -/
def strictRole : Json → Option UserRole
  | .str s => (Json.ofCodePoints s).bind UserRole.ofValue
  | _ => none

/-- The validation of the fields of an object, with the configuration of
`StrictBaseModel`: `strict`, `extra="forbid"` and `str_strip_whitespace`. -/
def TokenClaims.validate (fields : List (List ℕ × Json)) : Option TokenClaims := do
  guard (∀ field ∈ fields, field.1 ∈ fieldNames.map Json.codePoints)
  let field (name : String) := Json.get? fields (Json.codePoints name)
  let iss ← strictStr ((field "iss").getD (.ofString "boveda-pyme:auth"))
  let sub ← (field "sub").bind strictStr
  let aud ← strictStr ((field "aud").getD (.ofString "boveda-pyme:api"))
  let tenantId ← (field "tenant_id").bind strictStr
  let role ← (field "role").bind strictRole
  let exp ← (field "exp").bind strictInt
  let iat ← (field "iat").bind strictInt
  let jti ← (field "jti").bind strictStr
  if h : IsTenantId tenantId then
    return { iss, sub, aud, tenantId := ⟨tenantId, h⟩, role, exp, iat, jti }
  else none

theorem strictStr_ofString (s : StrippedStr) : strictStr (.ofString s) = some s := by
  show (Json.ofCodePoints (Json.codePoints s)).map _ = _
  rw [Json.ofCodePoints_codePoints, Option.map_some]
  exact congrArg some (Subtype.ext s.2)

theorem strictRole_value (role : UserRole) : strictRole (.ofString role.value) = some role := by
  show (Json.ofCodePoints (Json.codePoints role.value)).bind _ = _
  rw [Json.ofCodePoints_codePoints, Option.bind_some]
  cases role <;> decide

theorem keys_modelDump (c : TokenClaims) :
    c.modelDump.map (·.1) = TokenClaims.fieldNames.map Json.codePoints := rfl

theorem nodup_keys_modelDump (c : TokenClaims) : (c.modelDump.map (·.1)).Nodup := by
  rw [keys_modelDump]
  decide

theorem get?_modelDump {c : TokenClaims} {name : String} {value : Json}
    (h : (Json.codePoints name, value) ∈ c.modelDump) :
    Json.get? c.modelDump (Json.codePoints name) = some value :=
  Json.get?_of_mem (nodup_keys_modelDump c) h

/-- Claims are valid, and validating them changes nothing. -/
theorem TokenClaims.validate_modelDump (c : TokenClaims) : validate c.modelDump = some c := by
  have hnames : ∀ field ∈ c.modelDump, field.1 ∈ fieldNames.map Json.codePoints :=
    fun field h => keys_modelDump c ▸ List.mem_map_of_mem h
  have hiss : Json.get? c.modelDump (Json.codePoints "iss") = some (.ofString c.iss) :=
    get?_modelDump (by simp [modelDump])
  have hsub : Json.get? c.modelDump (Json.codePoints "sub") = some (.ofString c.sub) :=
    get?_modelDump (by simp [modelDump])
  have haud : Json.get? c.modelDump (Json.codePoints "aud") = some (.ofString c.aud) :=
    get?_modelDump (by simp [modelDump])
  have htenant : Json.get? c.modelDump (Json.codePoints "tenant_id") =
      some (.ofString c.tenantId.1) :=
    get?_modelDump (by simp [modelDump])
  have hrole : Json.get? c.modelDump (Json.codePoints "role") = some (.ofString c.role.value) :=
    get?_modelDump (by simp [modelDump])
  have hexp : Json.get? c.modelDump (Json.codePoints "exp") = some (.int c.exp) :=
    get?_modelDump (by simp [modelDump])
  have hiat : Json.get? c.modelDump (Json.codePoints "iat") = some (.int c.iat) :=
    get?_modelDump (by simp [modelDump])
  have hjti : Json.get? c.modelDump (Json.codePoints "jti") = some (.ofString c.jti) :=
    get?_modelDump (by simp [modelDump])
  unfold validate
  simp only [hiss, hsub, haud, htenant, hrole, hexp, hiat, hjti, guard, if_pos hnames,
    Option.getD_some, strictStr_ofString, strictRole_value, strictInt, Option.bind_eq_bind,
    Option.bind_some]
  exact dif_pos c.tenantId.2

end Auth
end Boveda

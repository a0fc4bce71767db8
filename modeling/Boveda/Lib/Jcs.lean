/-
# Canonical JSON by RFC 8785

`serialize` is the JSON Canonicalization Scheme: the keys of every object in the order
of their UTF-16 code units, no white space, and in strings the short escapes, `\u00xx`
for the other control characters and every other character as it is.  It is defined
for strings without a lone surrogate and for integers that a double keeps.

`json.dumps` with its default `ensure_ascii` escapes DEL and all that is not ASCII as
well.  So it writes the canonical text just of the values whose strings have neither
(`text_eq_iff`).
-/

import Boveda.Lib.Json
import Mathlib.Data.List.Lex
import Mathlib.Data.List.Sort

namespace Boveda
namespace Lib
namespace Jcs

open Json

/-- What is written of one code point. -/
def escapeChar (cp : ℕ) : List Char :=
  match shortEscape cp with
  | some c => ['\\', c]
  | none =>
    if cp < 0x20 then ['\\', 'u', '0', '0', Hex.digitChar (cp / 16), Hex.digitChar (cp % 16)]
    else [Char.ofNat cp]

/-- A string, without the opening quote. -/
def quoteTail (s : List ℕ) : List Char := s.flatMap escapeChar ++ ['"']

/-- The order of the keys. -/
def sortFields (fields : List (List ℕ × Json)) : List (List ℕ × Json) :=
  fields.insertionSort fun a b => a.1.flatMap units ≤ b.1.flatMap units

mutual

/-- The value with every object in order. -/
def sorted : Json → Json
  | .arr items => .arr (sortedItems items)
  | .obj fields => .obj (sortFields (sortedFields fields))
  | j => j
termination_by structural j => j

def sortedItems : List Json → List Json
  | [] => []
  | item :: items => sorted item :: sortedItems items
termination_by structural items => items

def sortedFields : List (List ℕ × Json) → List (List ℕ × Json)
  | [] => []
  | field :: fields => sortedField field :: sortedFields fields
termination_by structural fields => fields

def sortedField : List ℕ × Json → List ℕ × Json
  | (key, value) => (key, sorted value)
termination_by structural field => field

end

mutual

/-- The text of a value whose objects are in order. -/
def text : Json → List Char
  | .null => ['n', 'u', 'l', 'l']
  | .bool true => ['t', 'r', 'u', 'e']
  | .bool false => ['f', 'a', 'l', 's', 'e']
  | .int n => decimal n
  | .float t => t
  | .str s => '"' :: quoteTail s
  | .arr [] => ['[', ']']
  | .arr (item :: items) => '[' :: (text item ++ itemsText items)
  | .obj [] => ['{', '}']
  | .obj (field :: fields) => '{' :: (fieldText field ++ fieldsText fields)
termination_by structural j => j

/-- The other items of an array, and its end. -/
def itemsText : List Json → List Char
  | [] => [']']
  | item :: items => ',' :: (text item ++ itemsText items)
termination_by structural items => items

/-- The other fields of an object, and its end. -/
def fieldsText : List (List ℕ × Json) → List Char
  | [] => ['}']
  | field :: fields => ',' :: (fieldText field ++ fieldsText fields)
termination_by structural fields => fields

/-- A key and its value. -/
def fieldText : List ℕ × Json → List Char
  | (key, value) => '"' :: (quoteTail key ++ ':' :: text value)
termination_by structural field => field

end

/-- What is serialized: integers below `2 ^ 53`, and strings of Unicode. -/
def serializable : Json → Bool
  | .int n => decide (n.natAbs < 2 ^ 53)
  | j => j.plain

/-- The canonical text. -/
def serialize (j : Json) : Option (List Char) :=
  if j.all serializable then some (text (sorted j)) else none

/-! ### The two ways to write a string -/

/-- ASCII without DEL. -/
def IsAscii (c : Char) : Prop := c.toNat < 0x7F

instance : DecidablePred IsAscii := fun _ => inferInstanceAs (Decidable (_ < _))

/-- The strings are of ASCII without DEL. -/
def ascii : Json → Bool
  | .str s => s.all fun cp => cp < 0x7F
  | _ => true

theorem ascii_ofString {s : String} : ascii (ofString s) ↔ ∀ c ∈ s.toList, IsAscii c := by
  rw [ofString, ascii, codePoints, List.all_map, List.all_eq_true]
  exact forall₂_congr fun c _ => decide_eq_true_iff

theorem toNat_ofNat {cp : ℕ} (h : IsScalar cp) : (Char.ofNat cp).toNat = cp := by
  rw [Char.ofNat, dif_pos (show cp.isValidChar from h)]
  rfl

theorem escapeUnit_eq_escapeChar : ∀ cp < 0x7F, escapeUnit cp = escapeChar cp := by decide

theorem isAscii_digitChar (n : ℕ) : IsAscii (Hex.digitChar n) := by
  have hdigits : ∀ n < 16, IsAscii (Hex.digitChar n) := by decide
  by_cases hn : n < 16
  · exact hdigits n hn
  · rw [Hex.digitChar, List.getD_eq_getElem?_getD,
      List.getElem?_eq_none (show Hex.digits.length ≤ n from Nat.not_lt.1 hn)]
    decide

theorem isAscii_of_shortEscape {u : ℕ} {c : Char} (h : shortEscape u = some c) : IsAscii c := by
  unfold shortEscape at h
  split at h <;> first | (obtain rfl := Option.some.inj h; decide) | cases h

theorem isAscii_of_mem_escapeUnit {u : ℕ} : ∀ c ∈ escapeUnit u, IsAscii c := by
  intro c hc
  unfold escapeUnit at hc
  split at hc
  · next short hshort =>
    rcases List.mem_cons.1 hc with rfl | hc
    · decide
    · rw [List.mem_singleton.1 hc]
      exact isAscii_of_shortEscape hshort
  · split_ifs at hc with hprint
    · rw [List.mem_singleton.1 hc, IsAscii, toNat_ofNat (.inl (by omega))]
      omega
    · simp only [List.mem_cons, List.not_mem_nil, or_false] at hc
      rcases hc with rfl | rfl | rfl | rfl | rfl | rfl
      · decide
      · decide
      all_goals exact isAscii_digitChar _

theorem isAscii_of_mem_quoteTail {s : List ℕ} : ∀ c ∈ Json.quoteTail s, IsAscii c := by
  intro c hc
  rcases List.mem_append.1 hc with hc | hc
  · obtain ⟨u, -, hc⟩ := List.mem_flatMap.1 hc
    exact isAscii_of_mem_escapeUnit c hc
  · rw [List.mem_singleton.1 hc]
    decide

theorem isAscii_of_mem_decimal {n : ℤ} : ∀ c ∈ decimal n, IsAscii c := by
  have hdigits (k : ℕ) : ∀ c ∈ Nat.toDigits 10 k, IsAscii c := by
    intro c hc
    have hdigit : c.isDigit := Nat.isDigit_of_mem_toDigits (by decide) le_rfl hc
    obtain ⟨-, hle⟩ := Char.isDigit_iff_toNat.1 hdigit
    rw [IsAscii]
    exact hle.trans_lt (by decide)
  intro c hc
  cases n with
  | ofNat n => exact hdigits n c hc
  | negSucc n =>
    rcases List.mem_cons.1 hc with rfl | hc
    · decide
    · exact hdigits _ c hc

/-- Of ASCII the two write the same. -/
theorem quoteTail_of_ascii {s : List ℕ} (h : ascii (.str s)) : quoteTail s = Json.quoteTail s := by
  have hlt : ∀ cp ∈ s, cp < 0x7F := fun cp hcp => of_decide_eq_true (List.all_eq_true.1 h cp hcp)
  have hunit : ∀ cp ∈ s, units cp = [cp] := fun cp hcp =>
    if_pos ((hlt cp hcp).trans (by decide))
  have hunits : s.flatMap units = s := by
    rw [List.flatMap_congr hunit]
    exact List.flatMap_singleton' s
  rw [quoteTail, Json.quoteTail, hunits,
    List.flatMap_congr fun cp hcp => escapeUnit_eq_escapeChar cp (hlt cp hcp)]

/-- A code point that stands for itself. -/
theorem mem_escapeChar {cp : ℕ} (h : 0x7F ≤ cp) : Char.ofNat cp ∈ escapeChar cp := by
  have hshort : shortEscape cp = none := by
    unfold shortEscape
    split <;> first | omega | rfl
  rw [escapeChar, hshort]
  dsimp only
  rw [if_neg (by omega)]
  exact List.mem_singleton_self _

theorem ascii_of_quoteTail {s : List ℕ} (hplain : plain (.str s))
    (h : ∀ c ∈ quoteTail s, IsAscii c) : ascii (.str s) := by
  refine List.all_eq_true.2 fun cp hcp => decide_eq_true ?_
  by_contra hlarge
  have hmem := List.mem_flatMap.2 ⟨cp, hcp, mem_escapeChar (Nat.not_lt.1 hlarge)⟩
  have hchar := h _ (List.mem_append_left _ hmem)
  have hscalar : ∀ cp ∈ s, IsScalar cp := of_decide_eq_true hplain
  rw [IsAscii, toNat_ofNat (hscalar cp hcp)] at hchar
  exact hlarge hchar

/-! ### The two ways to write a value -/

mutual

theorem text_of_ascii : ∀ j : Json, j.all ascii → text j = j.text
  | .str s, h => congrArg _ (quoteTail_of_ascii h)
  | .arr [], _ => rfl
  | .arr (item :: items), h => by
    obtain ⟨hitem, hitems⟩ := Bool.and_eq_true_iff.1 h
    rw [text, Json.text, text_of_ascii item hitem, itemsText_of_ascii items hitems]
  | .obj [], _ => rfl
  | .obj (field :: fields), h => by
    obtain ⟨hfield, hfields⟩ := Bool.and_eq_true_iff.1 h
    rw [text, Json.text, fieldText_of_ascii field hfield, fieldsText_of_ascii fields hfields]
  | .null, _ | .bool true, _ | .bool false, _ | .int _, _ | .float _, _ => rfl

theorem itemsText_of_ascii : ∀ items, allItems ascii items → itemsText items = Json.itemsText items
  | [], _ => rfl
  | item :: items, h => by
    obtain ⟨hitem, hitems⟩ := Bool.and_eq_true_iff.1 h
    rw [itemsText, Json.itemsText, text_of_ascii item hitem, itemsText_of_ascii items hitems]

theorem fieldsText_of_ascii :
    ∀ fields, allFields ascii fields → fieldsText fields = Json.fieldsText fields
  | [], _ => rfl
  | field :: fields, h => by
    obtain ⟨hfield, hfields⟩ := Bool.and_eq_true_iff.1 h
    rw [fieldsText, Json.fieldsText, fieldText_of_ascii field hfield,
      fieldsText_of_ascii fields hfields]

theorem fieldText_of_ascii : ∀ field, allField ascii field → fieldText field = Json.fieldText field
  | (key, value), h => by
    obtain ⟨hkey, hvalue⟩ := Bool.and_eq_true_iff.1 h
    rw [fieldText, Json.fieldText, quoteTail_of_ascii hkey, text_of_ascii value hvalue]

end

mutual

/-- `json.dumps` writes nothing but ASCII. -/
theorem isAscii_of_mem_text : ∀ j : Json, j.all plain → ∀ c ∈ j.text, IsAscii c
  | .null, _ => forall_mem_of_all (by decide)
  | .bool true, _ => forall_mem_of_all (by decide)
  | .bool false, _ => forall_mem_of_all (by decide)
  | .int _, _ => isAscii_of_mem_decimal
  | .str _, _ => List.forall_mem_cons.2 ⟨by decide, isAscii_of_mem_quoteTail⟩
  | .arr [], _ => forall_mem_of_all (by decide)
  | .arr (item :: items), h => by
    obtain ⟨hitem, hitems⟩ := Bool.and_eq_true_iff.1 h
    rw [Json.text]
    exact List.forall_mem_cons.2 ⟨by decide, List.forall_mem_append.2
      ⟨isAscii_of_mem_text item hitem, isAscii_of_mem_itemsText items hitems⟩⟩
  | .obj [], _ => forall_mem_of_all (by decide)
  | .obj (field :: fields), h => by
    obtain ⟨hfield, hfields⟩ := Bool.and_eq_true_iff.1 h
    rw [Json.text]
    exact List.forall_mem_cons.2 ⟨by decide, List.forall_mem_append.2
      ⟨isAscii_of_mem_fieldText field hfield, isAscii_of_mem_fieldsText fields hfields⟩⟩

theorem isAscii_of_mem_itemsText :
    ∀ items, allItems plain items → ∀ c ∈ Json.itemsText items, IsAscii c
  | [], _ => forall_mem_of_all (by decide)
  | item :: items, h => by
    obtain ⟨hitem, hitems⟩ := Bool.and_eq_true_iff.1 h
    rw [Json.itemsText]
    exact List.forall_mem_cons.2 ⟨by decide, List.forall_mem_append.2
      ⟨isAscii_of_mem_text item hitem, isAscii_of_mem_itemsText items hitems⟩⟩

theorem isAscii_of_mem_fieldsText :
    ∀ fields, allFields plain fields → ∀ c ∈ Json.fieldsText fields, IsAscii c
  | [], _ => forall_mem_of_all (by decide)
  | field :: fields, h => by
    obtain ⟨hfield, hfields⟩ := Bool.and_eq_true_iff.1 h
    rw [Json.fieldsText]
    exact List.forall_mem_cons.2 ⟨by decide, List.forall_mem_append.2
      ⟨isAscii_of_mem_fieldText field hfield, isAscii_of_mem_fieldsText fields hfields⟩⟩

theorem isAscii_of_mem_fieldText :
    ∀ field, allField plain field → ∀ c ∈ Json.fieldText field, IsAscii c
  | (key, value), h => by
    obtain ⟨-, hvalue⟩ := Bool.and_eq_true_iff.1 h
    rw [Json.fieldText]
    exact List.forall_mem_cons.2 ⟨by decide, List.forall_mem_append.2
      ⟨isAscii_of_mem_quoteTail, List.forall_mem_cons.2
        ⟨by decide, isAscii_of_mem_text value hvalue⟩⟩⟩

end

mutual

/-- A canonical text of nothing but ASCII is one of strings of ASCII. -/
theorem ascii_of_text : ∀ j : Json, j.all plain → (∀ c ∈ text j, IsAscii c) → j.all ascii
  | .str _, hplain, h => ascii_of_quoteTail hplain (List.forall_mem_cons.1 h).2
  | .arr [], _, _ => rfl
  | .arr (item :: items), hplain, h => by
    obtain ⟨hitem, hitems⟩ := Bool.and_eq_true_iff.1 hplain
    rw [text] at h
    obtain ⟨htext, hrest⟩ := List.forall_mem_append.1 (List.forall_mem_cons.1 h).2
    exact Bool.and_eq_true_iff.2
      ⟨ascii_of_text item hitem htext, ascii_of_itemsText items hitems hrest⟩
  | .obj [], _, _ => rfl
  | .obj (field :: fields), hplain, h => by
    obtain ⟨hfield, hfields⟩ := Bool.and_eq_true_iff.1 hplain
    rw [text] at h
    obtain ⟨htext, hrest⟩ := List.forall_mem_append.1 (List.forall_mem_cons.1 h).2
    exact Bool.and_eq_true_iff.2
      ⟨ascii_of_fieldText field hfield htext, ascii_of_fieldsText fields hfields hrest⟩
  | .null, _, _ | .bool _, _, _ | .int _, _, _ | .float _, _, _ => rfl

theorem ascii_of_itemsText :
    ∀ items, allItems plain items → (∀ c ∈ itemsText items, IsAscii c) → allItems ascii items
  | [], _, _ => rfl
  | item :: items, hplain, h => by
    obtain ⟨hitem, hitems⟩ := Bool.and_eq_true_iff.1 hplain
    rw [itemsText] at h
    obtain ⟨htext, hrest⟩ := List.forall_mem_append.1 (List.forall_mem_cons.1 h).2
    exact Bool.and_eq_true_iff.2
      ⟨ascii_of_text item hitem htext, ascii_of_itemsText items hitems hrest⟩

theorem ascii_of_fieldsText :
    ∀ fields, allFields plain fields → (∀ c ∈ fieldsText fields, IsAscii c) → allFields ascii fields
  | [], _, _ => rfl
  | field :: fields, hplain, h => by
    obtain ⟨hfield, hfields⟩ := Bool.and_eq_true_iff.1 hplain
    rw [fieldsText] at h
    obtain ⟨htext, hrest⟩ := List.forall_mem_append.1 (List.forall_mem_cons.1 h).2
    exact Bool.and_eq_true_iff.2
      ⟨ascii_of_fieldText field hfield htext, ascii_of_fieldsText fields hfields hrest⟩

theorem ascii_of_fieldText :
    ∀ field, allField plain field → (∀ c ∈ fieldText field, IsAscii c) → allField ascii field
  | (key, value), hplain, h => by
    obtain ⟨hkey, hvalue⟩ := Bool.and_eq_true_iff.1 hplain
    rw [fieldText] at h
    obtain ⟨hquote, hrest⟩ := List.forall_mem_append.1 (List.forall_mem_cons.1 h).2
    exact Bool.and_eq_true_iff.2 ⟨ascii_of_quoteTail hkey hquote,
      ascii_of_text value hvalue (List.forall_mem_cons.1 hrest).2⟩

end

/-- **`json.dumps` writes the canonical text of ASCII alone.** -/
theorem text_eq_iff {j : Json} (hplain : j.all plain) : j.text = text j ↔ j.all ascii :=
  ⟨fun h => ascii_of_text j hplain (h ▸ isAscii_of_mem_text j hplain),
    fun h => (text_of_ascii j h).symm⟩

end Jcs
end Lib
end Boveda

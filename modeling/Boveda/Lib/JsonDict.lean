/-
# Dictionaries of strings

What `json.dumps` writes, with its own separators, of a dictionary from strings to
strings.  It is ASCII without control characters (`printable_dictText`), and `json.loads`
reads it back (`loads_dictText`).
-/

import Boveda.Lib.Json

namespace Boveda
namespace Lib
namespace Json

/-- A key and its value. -/
def dictField (field : String × String) : List Char :=
  '"' :: (quoteTail (codePoints field.1) ++ ':' :: ' ' :: '"' :: quoteTail (codePoints field.2))

/-- The other fields, and the end. -/
def dictTail : List (String × String) → List Char
  | [] => ['}']
  | field :: fields => ',' :: ' ' :: (dictField field ++ dictTail fields)

/-- `json.dumps` of a dictionary of strings. -/
def dictText : List (String × String) → List Char
  | [] => ['{', '}']
  | field :: fields => '{' :: (dictField field ++ dictTail fields)

/-- The dictionary as a value. -/
def ofDict (fields : List (String × String)) : Json :=
  .obj (fields.map fun field => (codePoints field.1, .ofString field.2))

/-! ### What is written -/

/-- From the space to `~`. -/
def IsPrintable (c : Char) : Prop := 0x20 ≤ c.toNat ∧ c.toNat ≤ 0x7E

instance : DecidablePred IsPrintable := fun _ => inferInstanceAs (Decidable (_ ∧ _))

theorem printable_digitChar {n : ℕ} (hn : n < 16) : IsPrintable (Hex.digitChar n) := by
  have h : ∀ n < 16, IsPrintable (Hex.digitChar n) := by decide
  exact h n hn

theorem printable_escapeUnit {u : ℕ} (hu : u < 0x10000) : ∀ c ∈ escapeUnit u, IsPrintable c := by
  have hshort : ∀ c, shortEscape u = some c → IsPrintable c := by
    intro c h
    unfold shortEscape at h
    split at h <;> first | (obtain rfl := Option.some.inj h; decide) | cases h
  unfold escapeUnit
  split
  · next c hc =>
    simp only [List.forall_mem_cons]
    exact ⟨by decide, hshort c hc, fun _ h => (nomatch h)⟩
  · split_ifs with hprint
    · have hchar : ∀ u < 0x7F, 0x20 ≤ u → IsPrintable (Char.ofNat u) := by decide
      simp only [List.forall_mem_cons]
      exact ⟨hchar u (by omega) hprint.1, fun _ h => (nomatch h)⟩
    · simp only [List.forall_mem_cons]
      refine ⟨by decide, by decide, printable_digitChar (by omega), printable_digitChar (by omega),
        printable_digitChar (by omega), printable_digitChar (by omega), fun _ h => (nomatch h)⟩

theorem printable_quoteTail (s : String) : ∀ c ∈ quoteTail (codePoints s), IsPrintable c := by
  intro c hc
  rcases List.mem_append.1 hc with hc | hc
  · obtain ⟨u, hu, hc⟩ := List.mem_flatMap.1 hc
    obtain ⟨cp, hcp, hu⟩ := List.mem_flatMap.1 hu
    exact printable_escapeUnit (lt_of_mem_units (isScalar_of_mem_codePoints hcp) hu) c hc
  · obtain rfl := List.mem_singleton.1 hc
    decide

theorem printable_dictField (field : String × String) : ∀ c ∈ dictField field, IsPrintable c := by
  simp only [dictField, List.forall_mem_cons, List.forall_mem_append]
  exact ⟨by decide, printable_quoteTail _, by decide, by decide, by decide, printable_quoteTail _⟩

theorem printable_dictTail (fields : List (String × String)) :
    ∀ c ∈ dictTail fields, IsPrintable c := by
  induction fields with
  | nil => simp [dictTail, IsPrintable]
  | cons field fields ih =>
    simp only [dictTail, List.forall_mem_cons, List.forall_mem_append]
    exact ⟨by decide, by decide, printable_dictField field, ih⟩

/-- **Nothing but printable ASCII is written**, whatever the strings. -/
theorem printable_dictText (fields : List (String × String)) :
    ∀ c ∈ dictText fields, IsPrintable c := by
  cases fields with
  | nil => simp [dictText, IsPrintable]
  | cons field fields =>
    simp only [dictText, List.forall_mem_cons, List.forall_mem_append]
    exact ⟨by decide, printable_dictField field, printable_dictTail fields⟩

/-! ### What is read -/

theorem scanOnce_str {fuel : ℕ} (s : String) (rest : List Char) :
    scanOnce (fuel + 1) ('"' :: (quoteTail (codePoints s) ++ rest)) =
      some (.ofString s, rest) := by
  show (scanString (quoteTail (codePoints s) ++ rest)).map _ = _
  rw [scanString_quoteTail fun _ => isScalar_of_mem_codePoints]
  rfl

/-- The key of a field and its value are read, and then what follows the value. -/
theorem scanFields_dictField {fuel : ℕ} (field : String × String) (rest : List Char) :
    scanFields (fuel + 2) (dictField field ++ rest) =
      match skipSpace rest with
      | '}' :: rest => some ([(codePoints field.1, .ofString field.2)], rest)
      | ',' :: rest => (scanFields (fuel + 1) (skipSpace rest)).map
          (Prod.map ((codePoints field.1, .ofString field.2) :: ·) id)
      | _ => none := by
  simp only [dictField, List.cons_append, List.append_assoc]
  rw [scanFields, scanString_quoteTail fun _ => isScalar_of_mem_codePoints, Option.bind_some]
  show (scanOnce (fuel + 1) ('"' :: (quoteTail (codePoints field.2) ++ rest))).bind _ = _
  rw [scanOnce_str]
  rfl

/-- The fields up to the end. -/
theorem scanFields_dict {fuel : ℕ} (field : String × String) (fields : List (String × String))
    (rest : List Char) (hfuel : fields.length + 2 ≤ fuel) :
    scanFields fuel (dictField field ++ (dictTail fields ++ rest)) =
      some ((field :: fields).map fun field => (codePoints field.1, .ofString field.2), rest) := by
  induction fields generalizing fuel field with
  | nil =>
    obtain ⟨fuel, rfl⟩ : ∃ k, fuel = k + 2 := ⟨fuel - 2, by omega⟩
    rw [scanFields_dictField]
    rfl
  | cons next fields ih =>
    rw [List.length_cons] at hfuel
    obtain ⟨fuel, rfl⟩ : ∃ k, fuel = k + 2 := ⟨fuel - 2, by omega⟩
    rw [scanFields_dictField]
    show (scanFields (fuel + 1) (dictField next ++ dictTail fields ++ rest)).map _ = _
    rw [List.append_assoc, ih next (by omega)]
    rfl

/-- A field is longer than the fuel that it takes. -/
theorem length_dictTail (fields : List (String × String)) :
    fields.length < (dictTail fields).length := by
  induction fields with
  | nil => simp [dictTail]
  | cons field fields ih =>
    simp only [dictTail, List.length_cons, List.length_append]
    omega

/-- **The round trip.** -/
theorem loads_dictText (fields : List (String × String)) :
    loads (dictText fields) = some (ofDict fields) := by
  cases fields with
  | nil => rfl
  | cons field fields =>
    have hlen := length_dictTail fields
    have hfuel : fields.length + 2 ≤ (dictField field ++ dictTail fields).length := by
      rw [List.length_append, dictField, List.length_cons]
      omega
    have hscan := scanFields_dict field fields [] hfuel
    rw [List.append_nil] at hscan
    have hobj : scanOnce ((dictField field ++ dictTail fields).length + 1)
        ('{' :: (dictField field ++ dictTail fields)) = some (ofDict (field :: fields), []) := by
      rw [dictField, List.cons_append] at hscan ⊢
      exact scanOnce_obj hscan
    show (scanOnce ((dictField field ++ dictTail fields).length + 1)
      ('{' :: (dictField field ++ dictTail fields))).bind _ = _
    rw [hobj]
    rfl

end Json
end Lib
end Boveda

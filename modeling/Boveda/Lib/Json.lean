/-
# JSON values

`Json.text` is what `json.dumps(…, separators=(",", ":"))` writes, `loads` is
`json.loads`.  `loads_dumps` is the round trip, and with it `dumps` is injective.
It is about the values that `dumps` writes (`writable`) and that JSON can express
(`plain`): no floating point number, no surrogate alone.
-/

import Boveda.Lib.JsonTokens
import Mathlib.Data.List.Nodup

namespace Boveda
namespace Lib

/-- A JSON value, with the code points of its strings.  A number with a fraction or an
exponent keeps its text. -/
inductive Json
  | null
  | bool (b : Bool)
  | int (n : ℤ)
  | float (text : List Char)
  | str (s : List ℕ)
  | arr (items : List Json)
  | obj (fields : List (List ℕ × Json))

namespace Json

/-- A string of Unicode. -/
def ofString (s : String) : Json := .str (codePoints s)

theorem ofString_injective : Function.Injective ofString := fun _ _ h =>
  codePoints_injective (Json.str.inj h)

/-! ### Writing -/

mutual

/-- `json.dumps` of one value. -/
def text : Json → List Char
  | .null => ['n', 'u', 'l', 'l']
  | .bool true => ['t', 'r', 'u', 'e']
  | .bool false => ['f', 'a', 'l', 's', 'e']
  | .int n => decimal n
  | .float t => t
  | .str s => '"' :: quoteTail s
  | .arr [] => ['[', ']']
  | .arr (item :: items) => '[' :: (item.text ++ itemsText items)
  | .obj [] => ['{', '}']
  | .obj (field :: fields) => '{' :: (fieldText field ++ fieldsText fields)
termination_by structural j => j

/-- The other items of an array, and its end. -/
def itemsText : List Json → List Char
  | [] => [']']
  | item :: items => ',' :: (item.text ++ itemsText items)
termination_by structural items => items

/-- The other fields of an object, and its end. -/
def fieldsText : List (List ℕ × Json) → List Char
  | [] => ['}']
  | field :: fields => ',' :: (fieldText field ++ fieldsText fields)
termination_by structural fields => fields

/-- A key and its value. -/
def fieldText : List ℕ × Json → List Char
  | (key, value) => '"' :: (quoteTail key ++ ':' :: value.text)
termination_by structural field => field

end

mutual

/-- Every value that is not an array or an object, and every key, has a property. -/
def all (p : Json → Bool) : Json → Bool
  | .arr items => allItems p items
  | .obj fields => allFields p fields
  | j => p j
termination_by structural j => j

def allItems (p : Json → Bool) : List Json → Bool
  | [] => true
  | item :: items => item.all p && allItems p items
termination_by structural items => items

def allFields (p : Json → Bool) : List (List ℕ × Json) → Bool
  | [] => true
  | field :: fields => allField p field && allFields p fields
termination_by structural fields => fields

def allField (p : Json → Bool) : List ℕ × Json → Bool
  | (key, value) => p (.str key) && value.all p
termination_by structural field => field

end

/-- Integers with too many digits are not written. -/
def writable : Json → Bool
  | .int n => decide (Short n)
  | _ => true

/-- `json.dumps`, `none` for `ValueError`. -/
def dumps (j : Json) : Option (List Char) := if j.all writable then some j.text else none

/-! ### Reading -/

def spaces : List Char := [' ', '\t', '\n', '\r']

def skipSpace (text : List Char) : List Char := text.dropWhile (· ∈ spaces)

/-- The constants, those of Python included. -/
def scanConstant : List Char → Option (Json × List Char)
  | 'n' :: 'u' :: 'l' :: 'l' :: rest => some (.null, rest)
  | 't' :: 'r' :: 'u' :: 'e' :: rest => some (.bool true, rest)
  | 'f' :: 'a' :: 'l' :: 's' :: 'e' :: rest => some (.bool false, rest)
  | 'N' :: 'a' :: 'N' :: rest => some (.float ['N', 'a', 'N'], rest)
  | 'I' :: 'n' :: 'f' :: 'i' :: 'n' :: 'i' :: 't' :: 'y' :: rest =>
    some (.float ['I', 'n', 'f', 'i', 'n', 'i', 't', 'y'], rest)
  | '-' :: 'I' :: 'n' :: 'f' :: 'i' :: 'n' :: 'i' :: 't' :: 'y' :: rest =>
    some (.float ['-', 'I', 'n', 'f', 'i', 'n', 'i', 't', 'y'], rest)
  | _ => none

def ofNumber : Number → Json
  | .int n => .int n
  | .float text => .float text

mutual

/-- `scan_once`.  No value needs more fuel than it has characters. -/
def scanOnce : ℕ → List Char → Option (Json × List Char)
  | 0, _ => none
  | fuel + 1, text =>
    match text with
    | '"' :: rest => (scanString rest).map (Prod.map .str id)
    | '[' :: rest =>
      match skipSpace rest with
      | ']' :: rest => some (.arr [], rest)
      | rest => (scanItems fuel rest).map (Prod.map .arr id)
    | '{' :: rest =>
      match skipSpace rest with
      | '}' :: rest => some (.obj [], rest)
      | rest => (scanFields fuel rest).map (Prod.map .obj id)
    | text => ((scanNumber text).map (Prod.map ofNumber id)).or (scanConstant text)

/-- The items of an array up to its end. -/
def scanItems : ℕ → List Char → Option (List Json × List Char)
  | 0, _ => none
  | fuel + 1, text =>
    (scanOnce fuel text).bind fun (item, rest) =>
      match skipSpace rest with
      | ']' :: rest => some ([item], rest)
      | ',' :: rest => (scanItems fuel (skipSpace rest)).map (Prod.map (item :: ·) id)
      | _ => none

/-- The fields of an object up to its end. -/
def scanFields : ℕ → List Char → Option (List (List ℕ × Json) × List Char)
  | fuel + 1, '"' :: text =>
    (scanString text).bind fun (key, rest) =>
      match skipSpace rest with
      | ':' :: rest =>
        (scanOnce fuel (skipSpace rest)).bind fun (value, rest) =>
          match skipSpace rest with
          | '}' :: rest => some ([(key, value)], rest)
          | ',' :: rest => (scanFields fuel (skipSpace rest)).map (Prod.map ((key, value) :: ·) id)
          | _ => none
      | _ => none
  | _, _ => none

end

/-- `json.loads`. -/
def loads (text : List Char) : Option Json :=
  (scanOnce text.length (skipSpace text)).bind fun (j, rest) =>
    if skipSpace rest = [] then some j else none

/-- `dict.get`; of two fields with one key the last counts. -/
def get? (fields : List (List ℕ × Json)) (key : List ℕ) : Option Json :=
  (fields.reverse.find? fun field => field.1 = key).map (·.2)

theorem get?_of_mem {fields : List (List ℕ × Json)} (hnodup : (fields.map (·.1)).Nodup)
    {key : List ℕ} {value : Json} (h : (key, value) ∈ fields) : get? fields key = some value := by
  rw [get?]
  cases hfind : fields.reverse.find? fun field => field.1 = key with
  | none =>
    have hnone := List.find?_eq_none.1 hfind (key, value) (List.mem_reverse.2 h)
    exact absurd (decide_eq_true rfl) hnone
  | some field =>
    have hkey : field.1 = key := by simpa using List.find?_some hfind
    have hmem := List.mem_reverse.1 (List.mem_of_find?_eq_some hfind)
    rw [List.inj_on_of_nodup_map hnodup hmem h hkey]
    rfl

/-! ### The round trip -/

/-- What JSON can express of a value that is not an array or an object. -/
def plain : Json → Bool
  | .float _ => false
  | .str s => decide (∀ cp ∈ s, IsScalar cp)
  | _ => true

theorem ofString_plain (s : String) : (ofString s).plain :=
  decide_eq_true fun _ h => isScalar_of_mem_codePoints h

/-- A field whose name is a string of the program. -/
theorem allField_of_all {p : Json → Bool} (hstr : ∀ s : String, p (ofString s)) (name : String)
    {value : Json} (h : value.all p) : allField p (codePoints name, value) :=
  Bool.and_eq_true_iff.2 ⟨hstr name, h⟩

/-- What is written and read back. -/
def expressible (j : Json) : Bool := j.writable && j.plain

mutual

theorem all_and (p q : Json → Bool) :
    ∀ j : Json, j.all (fun j => p j && q j) = (j.all p && j.all q)
  | .arr items => allItems_and p q items
  | .obj fields => allFields_and p q fields
  | .null | .bool _ | .int _ | .float _ | .str _ => rfl

theorem allItems_and (p q : Json → Bool) :
    ∀ items, allItems (fun j => p j && q j) items = (allItems p items && allItems q items)
  | [] => rfl
  | item :: items => by
    rw [allItems, allItems, allItems, all_and p q item, allItems_and p q items]
    ac_rfl

theorem allFields_and (p q : Json → Bool) :
    ∀ fields, allFields (fun j => p j && q j) fields = (allFields p fields && allFields q fields)
  | [] => rfl
  | field :: fields => by
    rw [allFields, allFields, allFields, allField_and p q field, allFields_and p q fields]
    ac_rfl

theorem allField_and (p q : Json → Bool) :
    ∀ field, allField (fun j => p j && q j) field = (allField p field && allField q field)
  | (key, value) => by
    rw [allField, allField, allField, all_and p q value]
    ac_rfl

end

/-- The keys and the values of an object that is read back. -/
theorem scalar_of_expressible {s : List ℕ} (h : (str s).expressible) : ∀ cp ∈ s, IsScalar cp :=
  of_decide_eq_true h

theorem skipSpace_cons {c : Char} (hc : c ∉ spaces) (text : List Char) :
    skipSpace (c :: text) = c :: text := by
  rw [skipSpace, List.dropWhile_cons_of_neg (by simpa using hc)]

/-- What may follow a value. -/
def Delimited (rest : List Char) : Prop := ∀ c ∈ rest.head?, c ∈ [']', '}', ',']

theorem delimited_cons {c : Char} (hc : c ∈ [']', '}', ',']) (rest : List Char) :
    Delimited (c :: rest) := by
  intro d hd
  rwa [← Option.some.inj hd]

theorem Delimited.stops {rest : List Char} (h : Delimited rest) : Stops rest := by
  intro c hc
  have hdelim : ∀ c ∈ [']', '}', ','], c ∉ ['.', 'e', 'E'] ∧ ¬ c.isDigit :=
    forall_mem_of_all (by decide)
  exact hdelim c (h c hc)

theorem scanOnce_number {fuel : ℕ} {n : ℤ} {text rest : List Char}
    (h : scanNumber text = some (.int n, rest)) :
    scanOnce (fuel + 1) text = some (.int n, rest) := by
  rw [scanOnce.eq_def]
  dsimp only
  split
  · cases h
  · cases h
  · cases h
  · rw [h]
    rfl

theorem scanOnce_constant {fuel : ℕ} {c : Char} {text rest : List Char} {j : Json}
    (hdigit : ¬ c.isDigit) (h : scanConstant (c :: text) = some (j, rest)) (hminus : c ≠ '-') :
    scanOnce (fuel + 1) (c :: text) = some (j, rest) := by
  rw [scanOnce.eq_def]
  dsimp only
  split
  · next heq =>
    rw [heq] at h
    cases h
  · next heq =>
    rw [heq] at h
    cases h
  · next heq =>
    rw [heq] at h
    cases h
  · rw [scanNumber_cons_of_not hdigit hminus, Option.map_none, Option.none_or, h]

/-- The characters between values. -/
def delimiters : List Char := [' ', '\t', '\n', '\r', ']', '}', ',', ':']

theorem not_mem_delimiters_of_isDigit {c : Char} (hc : c.isDigit) : c ∉ delimiters := by
  have hnone : ∀ c ∈ delimiters, ¬ c.isDigit := forall_mem_of_all (by decide)
  exact fun h => hnone c h hc

/-- No value starts with one of them. -/
theorem exists_text_eq {j : Json} (hj : j.all expressible) :
    ∃ c text, j.text = c :: text ∧ c ∉ delimiters := by
  cases j with
  | null => exact ⟨_, _, rfl, by decide⟩
  | bool b => cases b <;> exact ⟨_, _, rfl, by decide⟩
  | int n =>
    cases n with
    | ofNat n =>
      obtain ⟨c, digits, heq⟩ := List.exists_cons_of_ne_nil (Nat.toDigits_ne_nil (n := n) (b := 10))
      refine ⟨c, digits, heq, not_mem_delimiters_of_isDigit ?_⟩
      exact Nat.isDigit_of_mem_toDigits (by decide) le_rfl (heq ▸ List.mem_cons_self ..)
    | negSucc n => exact ⟨_, _, rfl, by decide⟩
  | float t => cases hj
  | str s => exact ⟨_, _, rfl, by decide⟩
  | arr items => cases items <;> exact ⟨_, _, rfl, by decide⟩
  | obj fields => cases fields <;> exact ⟨_, _, rfl, by decide⟩

theorem skipSpace_text {j : Json} (hj : j.all expressible) (rest : List Char) :
    skipSpace (j.text ++ rest) = j.text ++ rest := by
  obtain ⟨c, text, heq, hc⟩ := exists_text_eq hj
  have hspaces : ∀ c ∈ spaces, c ∈ delimiters := forall_mem_of_all (by decide)
  rw [heq, List.cons_append, skipSpace_cons fun h => hc (hspaces c h)]

theorem scanOnce_arr {fuel : ℕ} {text rest : List Char} {items : List Json}
    (hspace : skipSpace text = text) (hend : ∀ rest, text ≠ ']' :: rest)
    (h : scanItems fuel text = some (items, rest)) :
    scanOnce (fuel + 1) ('[' :: text) = some (.arr items, rest) := by
  show (match skipSpace text with
      | ']' :: rest => some (Json.arr [], rest)
      | rest => (scanItems fuel rest).map (Prod.map .arr id)) = _
  rw [hspace]
  split
  · next h => exact absurd rfl (hend _)
  · rw [h]
    rfl

theorem scanOnce_obj {fuel : ℕ} {text rest : List Char} {fields : List (List ℕ × Json)}
    (h : scanFields fuel ('"' :: text) = some (fields, rest)) :
    scanOnce (fuel + 1) ('{' :: '"' :: text) = some (.obj fields, rest) := by
  show (scanFields fuel ('"' :: text)).map (Prod.map Json.obj id) = _
  rw [h]
  rfl

/-- The key of a field and its value are read, and then what follows the value. -/
theorem scanFields_cons {fuel : ℕ} {key : List ℕ} {value : Json} {rest : List Char}
    (hkey : ∀ cp ∈ key, IsScalar cp) (hvalue : value.all expressible)
    (h : scanOnce fuel (value.text ++ rest) = some (value, rest)) :
    scanFields (fuel + 1) (fieldText (key, value) ++ rest) =
      match skipSpace rest with
      | '}' :: rest => some ([(key, value)], rest)
      | ',' :: rest => (scanFields fuel (skipSpace rest)).map (Prod.map ((key, value) :: ·) id)
      | _ => none := by
  rw [fieldText, List.cons_append, List.append_assoc, List.cons_append, scanFields,
    scanString_quoteTail hkey, Option.bind_some]
  show (scanOnce fuel (skipSpace (value.text ++ rest))).bind _ = _
  rw [skipSpace_text hvalue, h]
  rfl

/-- Whatever has been written with at most that many characters is read back, with what
follows it. -/
structure Reads (fuel : ℕ) : Prop where
  once : ∀ j : Json, j.all expressible → ∀ rest, Delimited rest → j.text.length ≤ fuel →
    scanOnce fuel (j.text ++ rest) = some (j, rest)
  items : ∀ (item : Json) (items : List Json), item.all expressible → allItems expressible items →
    ∀ rest, (item.text ++ itemsText items).length ≤ fuel →
    scanItems fuel (item.text ++ itemsText items ++ rest) = some (item :: items, rest)
  fields : ∀ (field : List ℕ × Json) (fields : List (List ℕ × Json)), allField expressible field →
    allFields expressible fields → ∀ rest, (fieldText field ++ fieldsText fields).length ≤ fuel →
    scanFields fuel (fieldText field ++ fieldsText fields ++ rest) = some (field :: fields, rest)

variable {fuel : ℕ}

theorem Reads.once_succ (h : Reads fuel) {j : Json} (hj : j.all expressible) {rest : List Char}
    (hrest : Delimited rest) (hfuel : j.text.length ≤ fuel + 1) :
    scanOnce (fuel + 1) (j.text ++ rest) = some (j, rest) := by
  match j with
  | .null =>
    show scanOnce (fuel + 1) ('n' :: 'u' :: 'l' :: 'l' :: rest) = _
    exact scanOnce_constant (by decide) rfl (by decide)
  | .bool true =>
    show scanOnce (fuel + 1) ('t' :: 'r' :: 'u' :: 'e' :: rest) = _
    exact scanOnce_constant (by decide) rfl (by decide)
  | .bool false =>
    show scanOnce (fuel + 1) ('f' :: 'a' :: 'l' :: 's' :: 'e' :: rest) = _
    exact scanOnce_constant (by decide) rfl (by decide)
  | .int n =>
    have hn : Short n := of_decide_eq_true (Bool.and_eq_true_iff.1 hj).1
    exact scanOnce_number (scanNumber_decimal hn hrest.stops)
  | .float t => cases hj
  | .str s =>
    show (scanString (quoteTail s ++ rest)).map _ = _
    rw [scanString_quoteTail (scalar_of_expressible hj)]
    rfl
  | .arr [] => rfl
  | .arr (item :: items) =>
    obtain ⟨hitem, hitems⟩ := Bool.and_eq_true_iff.1 hj
    have hscan := h.items item items hitem hitems rest (Nat.le_of_succ_le_succ hfuel)
    show scanOnce (fuel + 1) ('[' :: (item.text ++ itemsText items ++ rest)) = _
    refine scanOnce_arr ?_ (fun rest' heq => ?_) hscan
    · rw [List.append_assoc, skipSpace_text hitem]
    · obtain ⟨c, text, htext, hc⟩ := exists_text_eq hitem
      rw [htext, List.append_assoc, List.cons_append] at heq
      rw [(List.cons.inj heq).1] at hc
      exact hc (by decide)
  | .obj [] => rfl
  | .obj ((key, value) :: fields) =>
    obtain ⟨hfield, hfields⟩ := Bool.and_eq_true_iff.1 hj
    exact scanOnce_obj (h.fields (key, value) fields hfield hfields rest
      (Nat.le_of_succ_le_succ hfuel))

theorem Reads.items_succ (h : Reads fuel) {item : Json} {items : List Json}
    (hitem : item.all expressible) (hitems : allItems expressible items) (rest : List Char)
    (hfuel : (item.text ++ itemsText items).length ≤ fuel + 1) :
    scanItems (fuel + 1) (item.text ++ itemsText items ++ rest) = some (item :: items, rest) := by
  cases items with
  | nil =>
    rw [List.length_append, itemsText, List.length_singleton] at hfuel
    have hscan := h.once item hitem (']' :: rest) (delimited_cons (by decide) rest)
      (Nat.le_of_succ_le_succ hfuel)
    rw [itemsText, List.append_assoc, List.singleton_append, scanItems, hscan]
    rfl
  | cons next items =>
    obtain ⟨hnext, hitems⟩ := Bool.and_eq_true_iff.1 hitems
    rw [itemsText, List.length_append, List.length_cons] at hfuel
    have hscan := h.once item hitem (',' :: (next.text ++ itemsText items ++ rest))
      (delimited_cons (by decide) _) (by omega)
    have hscans := h.items next items hnext hitems rest (by omega)
    rw [itemsText, List.append_assoc, List.cons_append, scanItems, hscan, Option.bind_some]
    show (scanItems fuel (skipSpace _)).map _ = _
    rw [List.append_assoc, skipSpace_text hnext, ← List.append_assoc, hscans]
    rfl

theorem Reads.fields_succ (h : Reads fuel) {field : List ℕ × Json} {fields : List (List ℕ × Json)}
    (hfield : allField expressible field) (hfields : allFields expressible fields)
    (rest : List Char) (hfuel : (fieldText field ++ fieldsText fields).length ≤ fuel + 1) :
    scanFields (fuel + 1) (fieldText field ++ fieldsText fields ++ rest) =
      some (field :: fields, rest) := by
  obtain ⟨key, value⟩ := field
  obtain ⟨hkey, hvalue⟩ := Bool.and_eq_true_iff.1 hfield
  cases fields with
  | nil =>
    rw [List.length_append, fieldsText, fieldText, List.length_cons, List.length_append,
      List.length_cons, List.length_singleton] at hfuel
    have hscan := h.once value hvalue ('}' :: rest) (delimited_cons (by decide) rest) (by omega)
    rw [fieldsText, List.append_assoc, List.singleton_append,
      scanFields_cons (scalar_of_expressible hkey) hvalue hscan]
    rfl
  | cons next fields =>
    obtain ⟨nextKey, nextValue⟩ := next
    obtain ⟨hnext, hfields⟩ := Bool.and_eq_true_iff.1 hfields
    rw [List.length_append, fieldsText, fieldText, List.length_cons, List.length_append,
      List.length_cons, List.length_cons] at hfuel
    have hscan := h.once value hvalue
      (',' :: (fieldText (nextKey, nextValue) ++ fieldsText fields ++ rest))
      (delimited_cons (by decide) _) (by omega)
    have hscans := h.fields (nextKey, nextValue) fields hnext hfields rest (by omega)
    rw [fieldsText, List.append_assoc, List.cons_append,
      scanFields_cons (scalar_of_expressible hkey) hvalue hscan]
    show (scanFields fuel (fieldText (nextKey, nextValue) ++ fieldsText fields ++ rest)).map _ = _
    rw [hscans]
    rfl

theorem reads (fuel : ℕ) : Reads fuel := by
  induction fuel with
  | zero =>
    have hpos {j : Json} (hj : j.all expressible) : 0 < j.text.length := by
      obtain ⟨c, text, heq, -⟩ := exists_text_eq hj
      rw [heq]
      exact Nat.succ_pos _
    refine ⟨fun j hj _ _ hfuel => ?_, fun item items hitem _ _ hfuel => ?_,
      fun field fields _ _ _ hfuel => ?_⟩
    · exact absurd hfuel (Nat.not_le.2 (hpos hj))
    · rw [List.length_append] at hfuel
      have := hpos hitem
      omega
    · rw [List.length_append, fieldText, List.length_cons] at hfuel
      omega
  | succ fuel ih =>
    exact {
      once := fun _ hj _ hrest hfuel => ih.once_succ hj hrest hfuel
      items := fun _ _ hitem hitems rest hfuel => ih.items_succ hitem hitems rest hfuel
      fields := fun _ _ hfield hfields rest hfuel => ih.fields_succ hfield hfields rest hfuel }

theorem loads_text {j : Json} (hj : j.all expressible) : loads j.text = some j := by
  have hscan := (reads j.text.length).once j hj [] (fun c hc => by cases hc) le_rfl
  have hspace := skipSpace_text hj []
  rw [List.append_nil] at hscan hspace
  rw [loads, hspace, hscan]
  rfl

/-- **The round trip.** -/
theorem loads_dumps {j : Json} {t : List Char} (hj : j.all plain) (h : j.dumps = some t) :
    loads t = some j := by
  unfold dumps at h
  split_ifs at h with hwritable
  have hexpr : j.all expressible := (all_and writable plain j).trans (by rw [hwritable, hj]; rfl)
  exact Option.some.inj h ▸ loads_text hexpr

/-- A text is the text of one value. -/
theorem dumps_injective {j j' : Json} {t : List Char} (hj : j.all plain) (hj' : j'.all plain)
    (h : j.dumps = some t) (h' : j'.dumps = some t) : j = j' :=
  Option.some.inj ((loads_dumps hj h).symm.trans (loads_dumps hj' h'))

end Json
end Lib
end Boveda

/-
# Strings and numbers of JSON

What `json.dumps` of Python writes for a string and for an integer, and how
`json.loads` reads strings and numbers.  A string is a list of code points;
surrogates may stand in it alone, as in Python.

`scanString_quote` and `scanNumber_decimal` are the round trips.  That of a string
needs code points that are not surrogates: a pair of those is read as one code point.
-/

import Boveda.Lib.Hex
import Mathlib.Data.List.Basic

namespace Boveda
namespace Lib
namespace Json

/-! ### Strings -/

/-- The UTF-16 code units of a code point. -/
def units (cp : ℕ) : List ℕ :=
  if cp < 0x10000 then [cp] else [0xD800 + (cp - 0x10000) / 0x400, 0xDC00 + (cp - 0x10000) % 0x400]

/-- The letter of a short escape. -/
def shortEscape : ℕ → Option Char
  | 0x22 => some '"'
  | 0x5C => some '\\'
  | 0x0A => some 'n'
  | 0x0D => some 'r'
  | 0x09 => some 't'
  | 0x0C => some 'f'
  | 0x08 => some 'b'
  | _ => none

/-- What `ensure_ascii` makes of a code unit. -/
def escapeUnit (u : ℕ) : List Char :=
  match shortEscape u with
  | some c => ['\\', c]
  | none =>
    if 0x20 ≤ u ∧ u ≤ 0x7E then [Char.ofNat u]
    else ['\\', 'u', Hex.digitChar (u / 0x1000), Hex.digitChar (u / 0x100 % 16),
      Hex.digitChar (u / 0x10 % 16), Hex.digitChar (u % 16)]

/-- `py_encode_basestring_ascii`, without the opening quote. -/
def quoteTail (s : List ℕ) : List Char := (s.flatMap units).flatMap escapeUnit ++ ['"']

/-- `\uXXXX`. -/
def hex4 (a b c d : Char) : Option ℕ :=
  match Hex.digitVal a, Hex.digitVal b, Hex.digitVal c, Hex.digitVal d with
  | some a, some b, some c, some d => some (0x1000 * a + 0x100 * b + 0x10 * c + d)
  | _, _, _, _ => none

/-- What a letter stands for after a backslash. -/
def unescape : Char → Option ℕ
  | '"' => some 0x22
  | '\\' => some 0x5C
  | '/' => some 0x2F
  | 'b' => some 0x08
  | 'f' => some 0x0C
  | 'n' => some 0x0A
  | 'r' => some 0x0D
  | 't' => some 0x09
  | _ => none

/-- The code units up to the closing quote, and what follows it.  `strict` refuses
control characters. -/
def scanUnits : List Char → Option (List ℕ × List Char)
  | [] => none
  | '"' :: rest => some ([], rest)
  | '\\' :: 'u' :: a :: b :: c :: d :: rest =>
    (hex4 a b c d).bind fun u => (scanUnits rest).map (Prod.map (u :: ·) id)
  | '\\' :: c :: rest =>
    (unescape c).bind fun u => (scanUnits rest).map (Prod.map (u :: ·) id)
  | c :: rest =>
    if 0x20 ≤ c.toNat ∧ c ≠ '\\' then (scanUnits rest).map (Prod.map (c.toNat :: ·) id) else none

/-- A high surrogate and the low one after it are one code point. -/
def joinSurrogates : List ℕ → List ℕ
  | hi :: lo :: rest =>
    if (0xD800 ≤ hi ∧ hi ≤ 0xDBFF) ∧ (0xDC00 ≤ lo ∧ lo ≤ 0xDFFF) then
      (0x10000 + (hi - 0xD800) * 0x400 + (lo - 0xDC00)) :: joinSurrogates rest
    else hi :: joinSurrogates (lo :: rest)
  | us => us

/-- `scanstring`, behind the opening quote. -/
def scanString (text : List Char) : Option (List ℕ × List Char) :=
  (scanUnits text).map (Prod.map joinSurrogates id)

/-- A code point that is not a surrogate. -/
def IsScalar (cp : ℕ) : Prop := cp.isValidChar

instance : DecidablePred IsScalar := fun _ => inferInstanceAs (Decidable (_ ∨ _))

/-- The code points of a text, none of them a surrogate. -/
def codePoints (s : String) : List ℕ := s.toList.map Char.toNat

theorem isScalar_of_mem_codePoints {s : String} {cp : ℕ} (h : cp ∈ codePoints s) :
    IsScalar cp := by
  obtain ⟨c, -, rfl⟩ := List.mem_map.1 h
  exact c.valid

theorem codePoints_injective : Function.Injective codePoints := fun _ _ h =>
  String.toList_injective (List.map_injective_iff.2 (fun _ _ => Char.toNat_inj.1) h)

theorem hex4_digitChar {u : ℕ} (hu : u < 0x10000) :
    hex4 (Hex.digitChar (u / 0x1000)) (Hex.digitChar (u / 0x100 % 16))
      (Hex.digitChar (u / 0x10 % 16)) (Hex.digitChar (u % 16)) = some u := by
  unfold hex4
  rw [Hex.digitVal_digitChar _ (by omega), Hex.digitVal_digitChar _ (by omega),
    Hex.digitVal_digitChar _ (by omega), Hex.digitVal_digitChar _ (by omega)]
  exact congrArg some (by omega)

/-- A character that needs no escape is read as it is. -/
theorem scanUnits_cons {c : Char} (hquote : c ≠ '"') (hslash : c ≠ '\\') (hc : 0x20 ≤ c.toNat)
    (text : List Char) :
    scanUnits (c :: text) = (scanUnits text).map (Prod.map (c.toNat :: ·) id) := by
  rw [scanUnits.eq_def]
  split <;> simp_all

/-- One code unit is read as it was written. -/
theorem scanUnits_escapeUnit {u : ℕ} (hu : u < 0x10000) (text : List Char) :
    scanUnits (escapeUnit u ++ text) =
      (scanUnits text).map (Prod.map (u :: ·) id) := by
  unfold escapeUnit
  split
  · next c h =>
    unfold shortEscape at h
    split at h <;> cases h <;> rfl
  · next h =>
    split_ifs with hprint
    · have hval : (Char.ofNat u).toNat = u := by
        rw [Char.ofNat, dif_pos (Or.inl (by omega))]
        rfl
      have hne : ∀ c : Char, shortEscape c.toNat ≠ none → Char.ofNat u ≠ c := by
        rintro c hc rfl
        rw [hval] at hc
        exact hc h
      have hcons := scanUnits_cons (hne '"' (by decide)) (hne '\\' (by decide))
        (by rw [hval]; exact hprint.1) text
      rwa [hval] at hcons
    · show scanUnits ('\\' :: 'u' :: _ :: _ :: _ :: _ :: text) = _
      rw [scanUnits, hex4_digitChar hu, Option.bind_some]

theorem scanUnits_escape {us : List ℕ} (hus : ∀ u ∈ us, u < 0x10000) (text : List Char) :
    scanUnits (us.flatMap escapeUnit ++ text) =
      (scanUnits text).map (Prod.map (us ++ ·) id) := by
  induction us with
  | nil => exact Option.map_id'.symm
  | cons u us ih =>
    rw [List.flatMap_cons, List.append_assoc, scanUnits_escapeUnit (hus u (by simp)),
      ih fun v hv => hus v (by simp [hv])]
    cases scanUnits text <;> rfl

theorem lt_of_mem_units {cp u : ℕ} (hcp : IsScalar cp) (hu : u ∈ units cp) : u < 0x10000 := by
  unfold units at hu
  unfold IsScalar at hcp
  split_ifs at hu with hlow
  · rw [List.mem_singleton] at hu
    omega
  · rw [List.mem_cons, List.mem_singleton] at hu
    omega

/-- A code unit that is no surrogate stands for itself. -/
theorem joinSurrogates_cons {u : ℕ} (hu : ¬ (0xD800 ≤ u ∧ u ≤ 0xDBFF)) (us : List ℕ) :
    joinSurrogates (u :: us) = u :: joinSurrogates us := by
  cases us with
  | nil => rfl
  | cons v us => rw [joinSurrogates, if_neg fun h => hu h.1]

theorem joinSurrogates_units {s : List ℕ} (hs : ∀ cp ∈ s, IsScalar cp) :
    joinSurrogates (s.flatMap units) = s := by
  induction s with
  | nil => rfl
  | cons cp s ih =>
    have hcp := hs cp (by simp)
    unfold IsScalar at hcp
    rw [List.flatMap_cons, units]
    split_ifs with hlow
    · rw [List.singleton_append, joinSurrogates_cons (by omega), ih fun c hc => hs c (by simp [hc])]
    · have hjoin : 0x10000 + (0xD800 + (cp - 0x10000) / 0x400 - 0xD800) * 0x400 +
          (0xDC00 + (cp - 0x10000) % 0x400 - 0xDC00) = cp := by
        omega
      rw [List.cons_append, List.singleton_append, joinSurrogates, if_pos (by omega),
        ih fun c hc => hs c (by simp [hc]), hjoin]

/-- **The round trip of a string.** -/
theorem scanString_quoteTail {s : List ℕ} (hs : ∀ cp ∈ s, IsScalar cp) (rest : List Char) :
    scanString (quoteTail s ++ rest) = some (s, rest) := by
  have hunits : ∀ u ∈ s.flatMap units, u < 0x10000 := by
    intro u hu
    obtain ⟨cp, hcp, hu⟩ := List.mem_flatMap.1 hu
    exact lt_of_mem_units (hs cp hcp) hu
  rw [scanString, quoteTail, List.append_assoc, scanUnits_escape hunits]
  show some (joinSurrogates (_ ++ []), rest) = _
  rw [List.append_nil, joinSurrogates_units hs]

/-- The text with given code points, `none` when there is a surrogate among them. -/
def ofCodePoints (s : List ℕ) : Option String :=
  if ∀ cp ∈ s, IsScalar cp then some (String.ofList (s.map Char.ofNat)) else none

@[simp] theorem ofCodePoints_codePoints (s : String) : ofCodePoints (codePoints s) = some s := by
  rw [ofCodePoints, if_pos fun _ h => isScalar_of_mem_codePoints h, codePoints, List.map_map]
  have hmap : s.toList.map (Char.ofNat ∘ Char.toNat) = s.toList := by
    conv_rhs => rw [← List.map_id s.toList]
    exact List.map_congr_left fun c _ => Char.ofNat_toNat c
  rw [hmap, String.ofList_toList]

/-! ### Numbers -/

/-- `int.__repr__`. -/
def decimal : ℤ → List Char
  | .ofNat n => Nat.toDigits 10 n
  | .negSucc n => '-' :: Nat.toDigits 10 (n + 1)

/-- `sys.int_info.default_max_str_digits`: longer numbers are not converted. -/
@[irreducible] def maxStrDigits : ℕ := 4300

theorem le_maxStrDigits {k : ℕ} (hk : k ≤ 4300) : k ≤ maxStrDigits := by
  unfold maxStrDigits
  exact hk

/-- The integer is short enough to be written and read. -/
def Short (n : ℤ) : Prop := n.natAbs < 10 ^ maxStrDigits

instance : DecidablePred Short := fun _ => inferInstanceAs (Decidable (_ < _))

theorem short_of_lt {n : ℤ} {k : ℕ} (hn : n.natAbs < 10 ^ k) (hk : k ≤ 4300) : Short n :=
  hn.trans_le (Nat.pow_le_pow_right (by decide) (le_maxStrDigits hk))

/-- The digits at the front of a text, and what follows them. -/
def scanDigits (text : List Char) : List Char × List Char :=
  (text.takeWhile Char.isDigit, text.dropWhile Char.isDigit)

/-- The digits of the integer part, without superfluous zeros. -/
def scanInt : List Char → Option (List Char × List Char)
  | '0' :: rest => some (['0'], rest)
  | text => if (scanDigits text).1 = [] then none else some (scanDigits text)

/-- `.` and digits. -/
def scanFraction : List Char → List Char × List Char
  | '.' :: rest =>
    if (scanDigits rest).1 = [] then ([], '.' :: rest)
    else ('.' :: (scanDigits rest).1, (scanDigits rest).2)
  | text => ([], text)

/-- A sign, if there is one. -/
def scanSign : List Char → List Char × List Char
  | '+' :: rest => (['+'], rest)
  | '-' :: rest => (['-'], rest)
  | text => ([], text)

/-- `e`, a sign and digits. -/
def scanExponent : List Char → List Char × List Char
  | [] => ([], [])
  | e :: rest =>
    let (sign, text) := scanSign rest
    let (digits, after) := scanDigits text
    if (e = 'e' ∨ e = 'E') ∧ digits ≠ [] then (e :: sign ++ digits, after) else ([], e :: rest)

/-- A number: an integer, or the text of a number with a fraction or an exponent. -/
inductive Number
  | int (n : ℤ)
  | float (text : List Char)

/-- A number behind its sign. -/
def scanMagnitude (negative : Bool) (text : List Char) : Option (Number × List Char) :=
  (scanInt text).bind fun (digits, rest) =>
    let (fraction, rest) := scanFraction rest
    let (exponent, rest) := scanExponent rest
    if fraction = [] ∧ exponent = [] then
      if digits.length ≤ maxStrDigits then
        let value : ℤ := Nat.ofDigitChars 10 digits 0
        some (.int (if negative then -value else value), rest)
      else none
    else
      some (.float ((if negative then ['-'] else []) ++ digits ++ fraction ++ exponent), rest)

/-- `_match_number`. -/
def scanNumber : List Char → Option (Number × List Char)
  | '-' :: rest => scanMagnitude true rest
  | text => scanMagnitude false text

/-- What follows does not belong to a number any more. -/
def Stops (rest : List Char) : Prop := ∀ c ∈ rest.head?, c ∉ ['.', 'e', 'E'] ∧ ¬ c.isDigit

theorem scanDigits_append {digits rest : List Char} (hdigits : ∀ c ∈ digits, c.isDigit)
    (hrest : Stops rest) : scanDigits (digits ++ rest) = (digits, rest) := by
  rw [scanDigits, List.takeWhile_append_of_pos hdigits,
    List.dropWhile_append_of_pos hdigits]
  cases rest with
  | nil => simp
  | cons c rest =>
    have hc := (hrest c rfl).2
    rw [List.takeWhile_cons_of_neg hc, List.dropWhile_cons_of_neg hc, List.append_nil]

theorem exists_toDigits_eq {n : ℕ} (hn : n ≠ 0) :
    ∃ c digits, Nat.toDigits 10 n = c :: digits ∧ c ≠ '0' := by
  induction n using Nat.strongRecOn with
  | ind n ih =>
    rw [Nat.toDigits_eq_if (by decide)]
    split_ifs with hlt
    · refine ⟨_, [], rfl, ?_⟩
      have hdigit : ∀ m < 10, m ≠ 0 → Nat.digitChar m ≠ '0' := by decide
      exact hdigit n hlt hn
    · obtain ⟨c, digits, heq, hc⟩ := ih (n / 10) (by omega) (by omega)
      exact ⟨c, _, by rw [heq, List.cons_append], hc⟩

theorem scanInt_toDigits (n : ℕ) {rest : List Char} (hrest : Stops rest) :
    scanInt (Nat.toDigits 10 n ++ rest) = some (Nat.toDigits 10 n, rest) := by
  by_cases hn : n = 0
  · rw [hn]
    rfl
  · have hdigits : ∀ c ∈ Nat.toDigits 10 n, c.isDigit := fun c hc =>
      Nat.isDigit_of_mem_toDigits (by decide) le_rfl hc
    have hscan := scanDigits_append hdigits hrest
    obtain ⟨c, digits, heq, hc⟩ := exists_toDigits_eq hn
    rw [heq, List.cons_append] at hscan ⊢
    rw [scanInt.eq_def]
    split
    · next h => exact absurd (List.cons.inj h).1 hc
    · rw [hscan, if_neg (List.cons_ne_nil _ _)]

theorem scanFraction_of_stops {rest : List Char} (hrest : Stops rest) :
    scanFraction rest = ([], rest) := by
  unfold scanFraction
  split
  · exact absurd (by simp) (hrest '.' rfl).1
  · rfl

theorem scanExponent_of_stops {rest : List Char} (hrest : Stops rest) :
    scanExponent rest = ([], rest) := by
  cases rest with
  | nil => rfl
  | cons c rest =>
    have hc : ¬ (c = 'e' ∨ c = 'E') := fun h => (hrest c rfl).1 (by simp [h])
    exact if_neg fun h => hc h.1

theorem scanMagnitude_toDigits (negative : Bool) {n : ℕ} (hn : n < 10 ^ maxStrDigits)
    {rest : List Char} (hrest : Stops rest) :
    scanMagnitude negative (Nat.toDigits 10 n ++ rest) =
      some (.int (if negative then -n else n), rest) := by
  have hlen : (Nat.toDigits 10 n).length ≤ maxStrDigits :=
    (Nat.length_toDigits_le_iff (by decide) (le_maxStrDigits (by decide))).2 hn
  unfold scanMagnitude
  rw [scanInt_toDigits n hrest, Option.bind_some]
  dsimp only
  rw [scanFraction_of_stops hrest, scanExponent_of_stops hrest]
  dsimp only
  rw [if_pos ⟨rfl, rfl⟩, if_pos hlen, Nat.ofDigitChars_toDigits (by decide) le_rfl]

/-- **The round trip of an integer.** -/
theorem scanNumber_decimal {n : ℤ} (hn : Short n) {rest : List Char} (hrest : Stops rest) :
    scanNumber (decimal n ++ rest) = some (.int n, rest) := by
  cases n with
  | ofNat n =>
    have hscan : scanMagnitude false (Nat.toDigits 10 n ++ rest) = some (.int n, rest) :=
      scanMagnitude_toDigits false hn hrest
    obtain ⟨c, digits, heq⟩ := List.exists_cons_of_ne_nil (Nat.toDigits_ne_nil (n := n) (b := 10))
    have hc : c.isDigit :=
      Nat.isDigit_of_mem_toDigits (by decide) le_rfl (heq ▸ List.mem_cons_self ..)
    show scanNumber (Nat.toDigits 10 n ++ rest) = _
    rw [heq, List.cons_append] at hscan ⊢
    rw [scanNumber.eq_def]
    split
    · next h =>
      rw [(List.cons.inj h).1] at hc
      cases hc
    · exact hscan
  | negSucc n => exact scanMagnitude_toDigits true hn hrest

/-- A number starts with a digit or with a minus. -/
theorem scanNumber_cons_of_not {c : Char} (hdigit : ¬ c.isDigit) (hminus : c ≠ '-')
    (text : List Char) : scanNumber (c :: text) = none := by
  have hint : scanInt (c :: text) = none := by
    rw [scanInt.eq_def]
    split
    · next h =>
      rw [(List.cons.inj h).1] at hdigit
      exact absurd rfl hdigit
    · rw [scanDigits, List.takeWhile_cons_of_neg hdigit, if_pos rfl]
  rw [scanNumber.eq_def]
  split
  · next h => exact absurd (List.cons.inj h).1 hminus
  · rw [scanMagnitude, hint, Option.bind_none]

end Json
end Lib
end Boveda

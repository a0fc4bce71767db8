/-
# Base64

`encode` is `binascii.b2a_base64` and `decode` is `binascii.a2b_base64`, which skips
what is not of the alphabet and stops at the padding (`strict_mode=False`).
`urlsafeEncode` and `urlsafeDecode` are those of Python's `base64`, with `-` and `_`.

`decode_encode` is the round trip; `urlsafeDecode_pad` is that of a text that has lost
its padding and been padded again.
-/

import Boveda.Lib.Bytes
import Mathlib.Data.List.DropRight

namespace Boveda
namespace Lib
namespace Base64

/-- The alphabet. -/
def alphabet : List Char :=
  ['A', 'B', 'C', 'D', 'E', 'F', 'G', 'H', 'I', 'J', 'K', 'L', 'M', 'N', 'O', 'P',
    'Q', 'R', 'S', 'T', 'U', 'V', 'W', 'X', 'Y', 'Z', 'a', 'b', 'c', 'd', 'e', 'f',
    'g', 'h', 'i', 'j', 'k', 'l', 'm', 'n', 'o', 'p', 'q', 'r', 's', 't', 'u', 'v',
    'w', 'x', 'y', 'z', '0', '1', '2', '3', '4', '5', '6', '7', '8', '9', '+', '/']

/-- The character of six bits. -/
def char (n : ℕ) : Char := alphabet.getD n 'A'

/-- The six bits of a character of the alphabet. -/
def sextet (c : Char) : Option ℕ :=
  if 'A' ≤ c ∧ c ≤ 'Z' then some (c.toNat - 65)
  else if 'a' ≤ c ∧ c ≤ 'z' then some (c.toNat - 71)
  else if '0' ≤ c ∧ c ≤ '9' then some (c.toNat + 4)
  else if c = '+' then some 62
  else if c = '/' then some 63
  else none

/-- The characters of the alphabet that stand for some bytes. -/
def body : Bytes → List Char
  | [] => []
  | [a] => [char (a.toNat / 4), char (a.toNat % 4 * 16)]
  | [a, b] =>
    [char (a.toNat / 4), char (a.toNat % 4 * 16 + b.toNat / 16), char (b.toNat % 16 * 4)]
  | a :: b :: c :: rest =>
    char (a.toNat / 4) :: char (a.toNat % 4 * 16 + b.toNat / 16) ::
      char (b.toNat % 16 * 4 + c.toNat / 64) :: char (c.toNat % 64) :: body rest

/-- `b64encode`: the last group is padded to four characters. -/
def encode (bs : Bytes) : List Char :=
  body bs ++ List.replicate ((3 - bs.length % 3) % 3) '='

/-- The loop of `a2b_base64`: the place in the group of four, the bits left over and the
number of `=` since the last character of the alphabet. -/
def decodeFrom (quadPos leftchar pads : ℕ) : List Char → Option Bytes
  | [] => if quadPos = 0 then some [] else none
  | c :: rest =>
    if c = '=' then
      if 2 ≤ quadPos then
        -- nothing behind the padding is read
        if 4 ≤ quadPos + (pads + 1) then some [] else decodeFrom quadPos leftchar (pads + 1) rest
      else decodeFrom quadPos leftchar pads rest
    else
      match sextet c with
      | none => decodeFrom quadPos leftchar pads rest
      | some v =>
        match quadPos with
        | 0 => decodeFrom 1 v 0 rest
        | 1 => (decodeFrom 2 (v % 16) 0 rest).map (UInt8.ofNat (leftchar * 4 + v / 16) :: ·)
        | 2 => (decodeFrom 3 (v % 4) 0 rest).map (UInt8.ofNat (leftchar * 16 + v / 4) :: ·)
        | _ => (decodeFrom 0 0 0 rest).map (UInt8.ofNat (leftchar * 64 + v) :: ·)

/-- `a2b_base64`, `none` for `binascii.Error`. -/
def decode (text : List Char) : Option Bytes := decodeFrom 0 0 0 text

theorem sextet_char : ∀ n < 64, sextet (char n) = some n := by decide

theorem char_ne_pad : ∀ n < 64, char n ≠ '=' := by decide

variable {n quadPos leftchar pads : ℕ}

theorem decodeFrom_zero (hn : n < 64) (rest : List Char) :
    decodeFrom 0 leftchar pads (char n :: rest) = decodeFrom 1 n 0 rest := by
  rw [decodeFrom, if_neg (char_ne_pad n hn), sextet_char n hn]
  rfl

theorem decodeFrom_one (hn : n < 64) (rest : List Char) :
    decodeFrom 1 leftchar pads (char n :: rest) =
      (decodeFrom 2 (n % 16) 0 rest).map (UInt8.ofNat (leftchar * 4 + n / 16) :: ·) := by
  rw [decodeFrom, if_neg (char_ne_pad n hn), sextet_char n hn]
  rfl

theorem decodeFrom_two (hn : n < 64) (rest : List Char) :
    decodeFrom 2 leftchar pads (char n :: rest) =
      (decodeFrom 3 (n % 4) 0 rest).map (UInt8.ofNat (leftchar * 16 + n / 4) :: ·) := by
  rw [decodeFrom, if_neg (char_ne_pad n hn), sextet_char n hn]
  rfl

theorem decodeFrom_three (hn : n < 64) (rest : List Char) :
    decodeFrom 3 leftchar pads (char n :: rest) =
      (decodeFrom 0 0 0 rest).map (UInt8.ofNat (leftchar * 64 + n) :: ·) := by
  rw [decodeFrom, if_neg (char_ne_pad n hn), sextet_char n hn]
  rfl

/-- A byte from its parts. -/
theorem ofNat_eq (a : UInt8) {m : ℕ} (h : m = a.toNat) : UInt8.ofNat m = a := by
  rw [h, UInt8.ofNat_toNat]

/-- **The round trip.** -/
theorem decode_encode (bs : Bytes) : decode (encode bs) = some bs := by
  induction bs using body.induct with
  | case1 => rfl
  | case2 a =>
    have ha := a.toNat_lt
    show decodeFrom 0 0 0 [char _, char _, '=', '='] = _
    rw [decodeFrom_zero (by omega), decodeFrom_one (by omega), ofNat_eq a (by omega)]
    rfl
  | case3 a b =>
    have ha := a.toNat_lt
    have hb := b.toNat_lt
    show decodeFrom 0 0 0 [char _, char _, char _, '='] = _
    rw [decodeFrom_zero (by omega), decodeFrom_one (by omega), decodeFrom_two (by omega),
      ofNat_eq a (by omega), ofNat_eq b (by omega)]
    rfl
  | case4 a b c rest ih =>
    have ha := a.toNat_lt
    have hb := b.toNat_lt
    have hc := c.toNat_lt
    have hpad : (3 - (a :: b :: c :: rest).length % 3) % 3 = (3 - rest.length % 3) % 3 := by
      rw [List.length_cons, List.length_cons, List.length_cons]
      omega
    rw [encode, hpad]
    show decodeFrom 0 0 0 (char _ :: char _ :: char _ :: char _ :: encode rest) = _
    rw [decodeFrom_zero (by omega), decodeFrom_one (by omega), decodeFrom_two (by omega),
      decodeFrom_three (by omega), ofNat_eq a (by omega), ofNat_eq b (by omega),
      ofNat_eq c (by omega)]
    change (((decode (encode rest)).map _).map _).map _ = _
    rw [ih]
    rfl

theorem char_mem {n : ℕ} (hn : n < 64) : char n ∈ alphabet := by
  revert n
  decide

theorem mem_alphabet_of_mem_body {bs : Bytes} {c : Char} (hc : c ∈ body bs) : c ∈ alphabet := by
  induction bs using body.induct with
  | case1 => cases hc
  | case2 a =>
    have ha := a.toNat_lt
    simp only [body, List.mem_cons, List.not_mem_nil, or_false] at hc
    rcases hc with rfl | rfl <;> exact char_mem (by omega)
  | case3 a b =>
    have ha := a.toNat_lt
    have hb := b.toNat_lt
    simp only [body, List.mem_cons, List.not_mem_nil, or_false] at hc
    rcases hc with rfl | rfl | rfl <;> exact char_mem (by omega)
  | case4 a b c rest ih =>
    have ha := a.toNat_lt
    have hb := b.toNat_lt
    have hc' := c.toNat_lt
    simp only [body, List.mem_cons] at hc
    rcases hc with rfl | rfl | rfl | rfl | hc
    · exact char_mem (by omega)
    · exact char_mem (by omega)
    · exact char_mem (by omega)
    · exact char_mem (by omega)
    · exact ih hc

/-- The padding fills the last group. -/
theorem length_body_mod (bs : Bytes) :
    (4 - (body bs).length % 4) % 4 = (3 - bs.length % 3) % 3 := by
  induction bs using body.induct with
  | case1 => rfl
  | case2 a => rfl
  | case3 a b => rfl
  | case4 a b c rest ih =>
    simp only [body, List.length_cons]
    omega

/-! ### The alphabet for URLs -/

/-- The translation of `urlsafe_b64encode`. -/
def toUrl (c : Char) : Char := if c = '+' then '-' else if c = '/' then '_' else c

/-- The translation of `urlsafe_b64decode`. -/
def fromUrl (c : Char) : Char := if c = '-' then '+' else if c = '_' then '/' else c

/-- `urlsafe_b64encode`. -/
def urlsafeEncode (bs : Bytes) : List Char := (encode bs).map toUrl

/-- `urlsafe_b64decode`. -/
def urlsafeDecode (text : List Char) : Option Bytes := decode (text.map fromUrl)

/-- `rstrip(b"=")`. -/
def rstripPad (text : List Char) : List Char := text.rdropWhile (· = '=')

theorem fromUrl_toUrl : ∀ c ∈ '=' :: alphabet, fromUrl (toUrl c) = c :=
  forall_mem_of_all (by decide)

theorem toUrl_ne_pad : ∀ c ∈ alphabet, toUrl c ≠ '=' :=
  forall_mem_of_all (by decide)

theorem rstripPad_append {text : List Char} (h : ∀ c ∈ text, c ≠ '=') (k : ℕ) :
    rstripPad (text ++ List.replicate k '=') = text := by
  induction k with
  | zero =>
    rw [List.replicate_zero, List.append_nil, rstripPad, List.rdropWhile_eq_self_iff]
    exact fun hne hlast => h _ (List.getLast_mem hne) (of_decide_eq_true hlast)
  | succ k ih =>
    rw [List.replicate_succ', ← List.append_assoc, rstripPad, List.rdropWhile_concat_pos]
    · exact ih
    · exact decide_eq_true rfl

/-- The characters without the padding. -/
theorem rstripPad_urlsafeEncode (bs : Bytes) :
    rstripPad (urlsafeEncode bs) = (body bs).map toUrl := by
  rw [urlsafeEncode, encode, List.map_append, List.map_replicate]
  refine rstripPad_append (fun c hc => ?_) _
  obtain ⟨d, hd, rfl⟩ := List.mem_map.1 hc
  exact toUrl_ne_pad d (mem_alphabet_of_mem_body hd)

/-- **The round trip** of a text that has lost its padding and been padded again. -/
theorem urlsafeDecode_pad (bs : Bytes) :
    urlsafeDecode ((body bs).map toUrl ++ List.replicate ((4 - (body bs).length % 4) % 4) '=') =
      some bs := by
  have hback : ((body bs).map toUrl).map fromUrl = body bs := by
    rw [List.map_map]
    conv_rhs => rw [← List.map_id (body bs)]
    refine List.map_congr_left fun c hc => fromUrl_toUrl c ?_
    exact List.mem_cons_of_mem _ (mem_alphabet_of_mem_body hc)
  rw [urlsafeDecode, List.map_append, hback, List.map_replicate, length_body_mod]
  exact decode_encode bs

end Base64
end Lib
end Boveda

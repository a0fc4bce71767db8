/-
# Text out of any bytes

`bytes.decode(errors="replace")` of Python.  What is well-formed UTF-8 is decoded, and what is
not becomes U+FFFD, once for each piece: a byte that no character starts with, or the start of
a character as far as it goes.

| leading byte | bytes that follow | the first of them |
| --- | ---: | --- |
| `C2` … `DF` | 1 | `80` … `BF` |
| `E0` | 2 | `A0` … `BF` |
| `E1` … `EC`, `EE`, `EF` | 2 | `80` … `BF` |
| `ED` | 2 | `80` … `9F` |
| `F0` | 3 | `90` … `BF` |
| `F1` … `F3` | 3 | `80` … `BF` |
| `F4` | 3 | `80` … `8F` |
-/

import Boveda.Lib.Bytes

namespace Boveda
namespace Lib
namespace Utf8

/-- How many bytes follow a leading byte, and the bounds of the first of them. -/
def follow (b : UInt8) : ℕ × UInt8 × UInt8 :=
  if b < 0xC2 then (0, 0x80, 0xBF)
  else if b < 0xE0 then (1, 0x80, 0xBF)
  else if b = 0xE0 then (2, 0xA0, 0xBF)
  else if b = 0xED then (2, 0x80, 0x9F)
  else if b < 0xF0 then (2, 0x80, 0xBF)
  else if b = 0xF0 then (3, 0x90, 0xBF)
  else if b < 0xF4 then (3, 0x80, 0xBF)
  else if b = 0xF4 then (3, 0x80, 0x8F)
  else (0, 0x80, 0xBF)

/-- How many of the bytes after `b` belong to the character that `b` starts, if they go on as it
does. -/
def started (b : UInt8) (rest : Bytes) : ℕ :=
  let (count, low, high) := follow b
  match rest.take count with
  | [] => 0
  | first :: others =>
    if low ≤ first ∧ first ≤ high then
      1 + (others.takeWhile fun c => 0x80 ≤ c ∧ c ≤ 0xBF).length
    else 0

/-- The text of the bytes, from the first one on that has not been dealt with. -/
def decodeFrom : ℕ → Bytes → List Char
  | _, [] => []
  | skip + 1, _ :: rest => decodeFrom skip rest
  | 0, b :: rest =>
    match (b :: rest).toByteArray.utf8DecodeChar? 0 with
    | some c => c :: decodeFrom (c.utf8Size - 1) rest
    | none => '\uFFFD' :: decodeFrom (started b rest) rest

/-- `data.decode(errors="replace")`. -/
def decodeReplace (data : Bytes) : List Char := decodeFrom 0 data

theorem decodeFrom_length (dealt rest : Bytes) :
    decodeFrom dealt.length (dealt ++ rest) = decodeFrom 0 rest := by
  induction dealt with
  | nil => rfl
  | cons b dealt ih => exact ih

/-- **What is UTF-8 is decoded**, whatever follows it. -/
theorem decodeReplace_append (text : List Char) (rest : Bytes) :
    decodeReplace (text.flatMap String.utf8EncodeChar ++ rest) = text ++ decodeReplace rest := by
  induction text with
  | nil => rfl
  | cons c text ih =>
    obtain ⟨b, more, hchar⟩ := List.exists_cons_of_ne_nil (String.utf8EncodeChar_ne_nil (c := c))
    have hlength : more.length = c.utf8Size - 1 := by
      rw [← String.length_utf8EncodeChar, hchar]
      rfl
    have hdecode : (b :: (more ++ (text.flatMap String.utf8EncodeChar ++ rest))
        ).toByteArray.utf8DecodeChar? 0 = some c := by
      rw [← List.cons_append, ← hchar, List.toByteArray_append,
        ByteArray.utf8DecodeChar?_utf8EncodeChar_append]
    rw [List.flatMap_cons, hchar, List.append_assoc, List.cons_append, decodeReplace, decodeFrom,
      hdecode]
    show c :: decodeFrom (c.utf8Size - 1) _ = _
    rw [← hlength, decodeFrom_length, List.cons_append, ← ih]
    rfl

theorem decodeReplace_flatMap (text : List Char) :
    decodeReplace (text.flatMap String.utf8EncodeChar) = text := by
  have hall := decodeReplace_append text []
  rw [List.append_nil] at hall
  exact hall.trans (List.append_nil text)

/-- A character that has been cut off at its start, and one cut off at its end. -/
example : decodeReplace [0xB1, 111, 0xC3, 0xB3, 0xE2, 0x82] = ['\uFFFD', 'o', 'ó', '\uFFFD'] := by
  decide

end Utf8
end Lib
end Boveda

/-
# Option files

The files of the form

    [group]
    name=value

that MySQL programs read.  Lines without text and lines that begin with `#` or `;` are
skipped, and a `#` outside quotes ends a line.  Blanks around a name or a value do not
count, nor do the quotes around a whole value, and a backslash begins an escape.

`write` puts values into such a file as they are.  They are read back just when none of
these rules applies to them (`read_write_iff`).
-/

import Mathlib.Data.List.DropRight
import Mathlib.Tactic.Common

namespace Boveda
namespace Lib
namespace OptionFile

/-! ### Reading -/

/-- The space and what is between `\t` and `\r`. -/
def isBlank (c : Char) : Bool := c == ' ' || ('\t' ≤ c && c ≤ '\r')

/-- The two quotes; `'\x27'` is the single one. -/
def isQuote (c : Char) : Bool := c == '"' || c == '\x27'

/-- The quote that is open after a character. -/
def quoteAfter (quote : Option Char) (escape : Bool) (c : Char) : Option Char :=
  if isQuote c && !escape then
    match quote with
    | none => some c
    | some q => if q = c then none else some q
  else quote

/-- Inside quotes a backslash protects the next character. -/
def escapeAfter (quote : Option Char) (escape : Bool) (c : Char) : Bool :=
  quote.isSome && c == '\\' && !escape

/-- A line up to its comment. -/
def stripComment (quote : Option Char) (escape : Bool) : List Char → List Char
  | [] => []
  | c :: rest =>
    let quote' := quoteAfter quote escape c
    if quote' = none ∧ c = '#' then []
    else c :: stripComment quote' (escapeAfter quote' escape c) rest

/-- A text without the blanks around it. -/
def trim (text : List Char) : List Char := (text.dropWhile isBlank).rdropWhile isBlank

/-- A text without the quotes around it. -/
def unquote : List Char → List Char
  | [] => []
  | q :: rest => if isQuote q ∧ rest.getLast? = some q then rest.dropLast else q :: rest

/-- The escapes, by the character after the backslash. -/
def escapes : List (Char × Char) :=
  [('b', '\x08'), ('t', '\t'), ('n', '\n'), ('r', '\r'), ('\\', '\\'), ('s', ' '), ('"', '"'),
    ('\x27', '\x27')]

/-- A text with its escapes replaced; another backslash stands for itself. -/
def unescape : List Char → List Char
  | [] => []
  | [c] => [c]
  | c :: d :: rest =>
    if c = '\\' then
      match escapes.lookup d with
      | some e => e :: unescape rest
      | none => c :: d :: unescape rest
    else c :: unescape (d :: rest)

/-- A value, when the comment has been cut off. -/
def parseValue (text : List Char) : List Char := unescape (unquote (trim text))

/-- What a value is read as. -/
def readValue (text : List Char) : List Char := parseValue (stripComment none false text)

/-- A line. -/
inductive Line
  | skip
  | malformed
  /-- `!include` and the like. -/
  | directive (text : List Char)
  | group (name : List Char)
  | option (name : List Char) (value : Option (List Char))

/-- A line with an option, when the comment has been cut off. -/
def parseOption (text : List Char) : Line :=
  if '=' ∈ text then
    .option (trim (text.takeWhile (· ≠ '='))) (some (parseValue (text.dropWhile (· ≠ '=')).tail))
  else .option (trim text) none

def parseLine (line : List Char) : Line :=
  match line.dropWhile isBlank with
  | [] => .skip
  | '#' :: _ | ';' :: _ => .skip
  | '!' :: rest => .directive rest
  | '[' :: rest =>
    if ']' ∈ rest then .group ((rest.takeWhile (· ≠ ']')).rdropWhile isBlank) else .malformed
  | text => parseOption (stripComment none false text)

/-- What a file says. -/
inductive Entry
  | directive (text : List Char)
  | option (group name : List Char) (value : Option (List Char))
  deriving DecidableEq

/-- The lines of a text. -/
def lines : List Char → List (List Char)
  | [] => [[]]
  | c :: rest =>
    if c = '\n' then [] :: lines rest
    else
      match lines rest with
      | line :: more => (c :: line) :: more
      | [] => [[c]]

/-- The entries of lines in a group; `none` is a malformed file. -/
def readLines : Option (List Char) → List (List Char) → Option (List Entry)
  | _, [] => some []
  | group, line :: more =>
    match parseLine line with
    | .skip => readLines group more
    | .malformed => none
    | .directive text => (readLines group more).map (.directive text :: ·)
    | .group name => readLines (some name) more
    | .option name value =>
      group.bind fun g => (readLines group more).map (.option g name value :: ·)

/-- The entries of a file. -/
def read (text : List Char) : Option (List Entry) := readLines none (lines text)

/-! ### Writing -/

/-- A line with an option, as it is. -/
def writeOption (field : List Char × List Char) : List Char := field.1 ++ '=' :: (field.2 ++ ['\n'])

/-- A group of options, as they are. -/
def write (group : List Char) (fields : List (List Char × List Char)) : List Char :=
  '[' :: (group ++ ']' :: '\n' :: fields.flatMap writeOption)

/-- The signs that have a meaning at the start of a line or after a name. -/
def signs : List Char := ['#', ';', '!', '[', '=', '\n']

/-- A character of a name. -/
def IsLetter (c : Char) : Prop := isBlank c = false ∧ isQuote c = false ∧ c ∉ signs

instance : DecidablePred IsLetter := fun _ => inferInstanceAs (Decidable (_ ∧ _ ∧ _))

/-- The name of an option. -/
def IsName (name : List Char) : Prop := name ≠ [] ∧ ∀ c ∈ name, IsLetter c

instance : DecidablePred IsName := fun name =>
  have : Decidable (∀ c ∈ name, IsLetter c) := List.decidableBAll IsLetter name
  inferInstanceAs (Decidable (_ ∧ _))

/-! ### What is read back -/

/-- A `#` outside quotes. -/
def hasComment (quote : Option Char) (escape : Bool) : List Char → Bool
  | [] => false
  | c :: rest =>
    let quote' := quoteAfter quote escape c
    (quote' = none ∧ c = '#') || hasComment quote' (escapeAfter quote' escape c) rest

/-- A backslash that begins an escape. -/
def hasEscape : List Char → Bool
  | [] => false
  | [_] => false
  | c :: d :: rest =>
    if c = '\\' then (escapes.lookup d).isSome || hasEscape rest else hasEscape (d :: rest)

/-- A pair of quotes around the text. -/
def Enclosed : List Char → Prop
  | [] => False
  | q :: rest => isQuote q ∧ rest.getLast? = some q

instance : DecidablePred Enclosed
  | [] => .isFalse id
  | _ :: _ => inferInstanceAs (Decidable (_ ∧ _))

/-- A value to which no rule applies. -/
structure Clean (value : List Char) : Prop where
  oneLine : '\n' ∉ value
  noComment : hasComment none false value = false
  noBlankFirst : ∀ c ∈ value.head?, isBlank c = false
  noBlankLast : ∀ c ∈ value.getLast?, isBlank c = false
  notEnclosed : ¬ Enclosed value
  noEscape : hasEscape value = false

theorem stripComment_of_noComment {quote : Option Char} {escape : Bool} {text : List Char}
    (h : hasComment quote escape text = false) : stripComment quote escape text = text := by
  induction text generalizing quote escape with
  | nil => rfl
  | cons c rest ih =>
    obtain ⟨hc, hrest⟩ := Bool.or_eq_false_iff.1 h
    rw [stripComment]
    rw [if_neg (of_decide_eq_false hc), ih hrest]

theorem length_stripComment_le (quote : Option Char) (escape : Bool) (text : List Char) :
    (stripComment quote escape text).length ≤ text.length := by
  induction text generalizing quote escape with
  | nil => exact le_rfl
  | cons c rest ih =>
    rw [stripComment]
    split_ifs
    · exact Nat.zero_le _
    · exact Nat.succ_le_succ (ih _ _)

theorem length_stripComment_lt {quote : Option Char} {escape : Bool} {text : List Char}
    (h : hasComment quote escape text = true) :
    (stripComment quote escape text).length < text.length := by
  induction text generalizing quote escape with
  | nil => cases h
  | cons c rest ih =>
    rw [stripComment]
    split_ifs with hc
    · exact Nat.succ_pos _
    · rcases Bool.or_eq_true_iff.1 h with h | h
      · exact absurd (of_decide_eq_true h) hc
      · exact Nat.succ_lt_succ (ih h)

theorem length_trim_le (text : List Char) : (trim text).length ≤ text.length :=
  ((List.rdropWhile_prefix _ _).length_le).trans (List.dropWhile_suffix _).length_le

/-- Trimming leaves alone what has no blanks at its ends. -/
theorem trim_of_noBlank {text : List Char} (hfirst : ∀ c ∈ text.head?, isBlank c = false)
    (hlast : ∀ c ∈ text.getLast?, isBlank c = false) : trim text = text := by
  have hdrop : text.dropWhile isBlank = text := by
    cases text with
    | nil => rfl
    | cons c rest => exact List.dropWhile_cons_of_neg (by simp [hfirst c rfl])
  rw [trim, hdrop, List.rdropWhile_eq_self_iff]
  intro hne
  simp [hlast _ (List.getLast?_eq_some_getLast hne)]

/-- And nothing else. -/
theorem noBlank_of_length_trim {text : List Char} (h : text.length ≤ (trim text).length) :
    (∀ c ∈ text.head?, isBlank c = false) ∧ ∀ c ∈ text.getLast?, isBlank c = false := by
  have hsuffix := List.dropWhile_suffix (l := text) isBlank
  have hprefix := List.rdropWhile_prefix isBlank (text.dropWhile isBlank)
  have hdrop : text.dropWhile isBlank = text :=
    hsuffix.eq_of_length (Nat.le_antisymm hsuffix.length_le (h.trans hprefix.length_le))
  constructor
  · intro c hc
    cases text with
    | nil => cases hc
    | cons d rest =>
      obtain rfl := Option.some.inj hc
      by_contra hblank
      rw [List.dropWhile_cons_of_pos (by simpa using hblank)] at hdrop
      have hlen := (List.dropWhile_suffix (l := rest) isBlank).length_le
      rw [hdrop, List.length_cons] at hlen
      omega
  · rw [trim, hdrop] at h
    rw [hdrop] at hprefix
    have hself := hprefix.eq_of_length (Nat.le_antisymm hprefix.length_le h)
    rw [List.rdropWhile_eq_self_iff] at hself
    intro c hc
    obtain ⟨hne, rfl⟩ := List.mem_getLast?_eq_getLast hc
    simpa using hself hne

theorem length_unquote_le (text : List Char) : (unquote text).length ≤ text.length := by
  cases text with
  | nil => exact le_rfl
  | cons q rest =>
    rw [unquote]
    split_ifs
    · rw [List.length_dropLast, List.length_cons]
      omega
    · exact le_rfl

theorem unquote_of_not_enclosed {text : List Char} (h : ¬ Enclosed text) : unquote text = text := by
  cases text with
  | nil => rfl
  | cons q rest => exact if_neg h

theorem length_unquote_lt {text : List Char} (h : Enclosed text) :
    (unquote text).length < text.length := by
  cases text with
  | nil => exact h.elim
  | cons q rest =>
    rw [unquote, if_pos (show isQuote q ∧ rest.getLast? = some q from h), List.length_dropLast,
      List.length_cons]
    omega

theorem length_unescape_le (text : List Char) : (unescape text).length ≤ text.length := by
  induction text using unescape.induct with
  | case1 => exact le_rfl
  | case2 c => exact le_rfl
  | case3 d rest e he ih =>
    simp only [unescape, if_true, he, List.length_cons]
    omega
  | case4 d rest he ih =>
    simp only [unescape, if_true, he, List.length_cons]
    omega
  | case5 c d rest hc ih =>
    simp only [unescape, if_neg hc, List.length_cons] at ih ⊢
    omega

theorem unescape_of_noEscape {text : List Char} (h : hasEscape text = false) :
    unescape text = text := by
  induction text using unescape.induct with
  | case1 => rfl
  | case2 c => rfl
  | case3 d rest e he ih =>
    rw [hasEscape, if_pos rfl, he] at h
    cases h
  | case4 d rest he ih =>
    rw [hasEscape, if_pos rfl, he] at h
    rw [unescape, if_pos rfl, he, ih h]
  | case5 c d rest hc ih =>
    rw [hasEscape, if_neg hc] at h
    rw [unescape, if_neg hc, ih h]

theorem length_unescape_lt {text : List Char} (h : hasEscape text = true) :
    (unescape text).length < text.length := by
  induction text using unescape.induct with
  | case1 => cases h
  | case2 c => cases h
  | case3 d rest e he ih =>
    have hle := length_unescape_le rest
    simp only [unescape, if_true, he, List.length_cons]
    omega
  | case4 d rest he ih =>
    rw [hasEscape, if_pos rfl, he] at h
    have hlt := ih h
    simp only [unescape, if_true, he, List.length_cons]
    omega
  | case5 c d rest hc ih =>
    rw [hasEscape, if_neg hc] at h
    have hlt := ih h
    simp only [unescape, if_neg hc, List.length_cons] at hlt ⊢
    omega

theorem length_readValue_le (text : List Char) : (readValue text).length ≤ text.length :=
  (((length_unescape_le _).trans (length_unquote_le _)).trans (length_trim_le _)).trans
    (length_stripComment_le none false text)

/-- **A value of one line is read back** just when no rule applies to it. -/
theorem readValue_eq_self_iff {value : List Char} (hline : '\n' ∉ value) :
    readValue value = value ↔ Clean value := by
  constructor
  · intro h
    -- every rule that applies makes the text shorter
    have hlen : value.length ≤ (readValue value).length := (congrArg _ h).ge
    have hunescape := length_unescape_le (unquote (trim (stripComment none false value)))
    have hunquote := length_unquote_le (trim (stripComment none false value))
    have htrim := length_trim_le (stripComment none false value)
    have hstrip := length_stripComment_le none false value
    rw [readValue, parseValue] at hlen
    have hcomment : hasComment none false value = false := by
      by_contra hhas
      have hlt := length_stripComment_lt (eq_true_of_ne_false hhas)
      omega
    rw [stripComment_of_noComment hcomment] at hlen hunescape hunquote htrim
    have hblanks := noBlank_of_length_trim (show value.length ≤ (trim value).length by omega)
    rw [trim_of_noBlank hblanks.1 hblanks.2] at hlen hunescape hunquote
    have henclosed : ¬ Enclosed value := by
      intro henclosed
      have hlt := length_unquote_lt henclosed
      omega
    rw [unquote_of_not_enclosed henclosed] at hlen
    refine ⟨hline, hcomment, hblanks.1, hblanks.2, henclosed, ?_⟩
    by_contra hhas
    have hlt := length_unescape_lt (eq_true_of_ne_false hhas)
    omega
  · intro h
    rw [readValue, parseValue, stripComment_of_noComment h.noComment,
      trim_of_noBlank h.noBlankFirst h.noBlankLast, unquote_of_not_enclosed h.notEnclosed,
      unescape_of_noEscape h.noEscape]

/-! ### Lines -/

theorem lines_append {line : List Char} (h : '\n' ∉ line) (rest : List Char) :
    lines (line ++ '\n' :: rest) = line :: lines rest := by
  induction line with
  | nil => rfl
  | cons c line ih =>
    rw [List.mem_cons, not_or] at h
    rw [List.cons_append, lines, if_neg (Ne.symm h.1), ih h.2]

theorem stripComment_cons {c : Char} (hquote : isQuote c = false) (hhash : c ≠ '#')
    (text : List Char) :
    stripComment none false (c :: text) = c :: stripComment none false text := by
  have hafter : quoteAfter none false c = none := by
    rw [quoteAfter, hquote]
    rfl
  rw [stripComment, hafter, if_neg fun h => hhash h.2]
  rfl

theorem IsLetter.ne {c d : Char} (h : IsLetter c) (hd : d ∈ signs) : c ≠ d := fun heq =>
  h.2.2 (heq ▸ hd)

theorem stripComment_append {name : List Char} (h : ∀ c ∈ name, IsLetter c) (text : List Char) :
    stripComment none false (name ++ '=' :: text) =
      name ++ '=' :: stripComment none false text := by
  induction name with
  | nil => exact stripComment_cons rfl (by decide) text
  | cons c name ih =>
    obtain ⟨hc, hname⟩ := List.forall_mem_cons.1 h
    rw [List.cons_append, stripComment_cons hc.2.1 (hc.ne (by decide)), ih hname, List.cons_append]

theorem trim_name {name : List Char} (h : ∀ c ∈ name, IsLetter c) : trim name = name :=
  trim_of_noBlank (fun c hc => (h c (List.mem_of_mem_head? hc)).1)
    fun c hc => (h c (List.mem_of_mem_getLast? hc)).1

/-- What stands before and behind the sign of equality. -/
theorem parseOption_append {name : List Char} (h : ∀ c ∈ name, IsLetter c) (text : List Char) :
    parseOption (name ++ '=' :: text) = .option name (some (parseValue text)) := by
  have hne : ∀ c ∈ name, decide (c ≠ '=') = true := fun c hc =>
    decide_eq_true ((h c hc).ne (by decide))
  have htake : (name ++ '=' :: text).takeWhile (· ≠ '=') = name := by
    rw [List.takeWhile_append_of_pos hne, List.takeWhile_cons_of_neg (by simp), List.append_nil]
  have hdrop : (name ++ '=' :: text).dropWhile (· ≠ '=') = '=' :: text := by
    rw [List.dropWhile_append_of_pos hne, List.dropWhile_cons_of_neg (by simp)]
  rw [parseOption, if_pos (by simp), htake, hdrop, trim_name h, List.tail_cons]

/-- The line of an option is read as that option. -/
theorem parseLine_option {name : List Char} (hname : IsName name) (value : List Char) :
    parseLine (name ++ '=' :: value) = .option name (some (readValue value)) := by
  obtain ⟨hne, hletters⟩ := hname
  have hoption : parseOption (stripComment none false (name ++ '=' :: value)) =
      .option name (some (readValue value)) := by
    rw [stripComment_append hletters, parseOption_append hletters, readValue]
  cases name with
  | nil => exact absurd rfl hne
  | cons c name =>
    have hc := hletters c (List.mem_cons_self ..)
    have hdrop : (c :: name ++ '=' :: value).dropWhile isBlank = c :: name ++ '=' :: value :=
      List.dropWhile_cons_of_neg (by simp [hc.1])
    rw [parseLine, hdrop]
    split
    · next heq => cases heq
    · next heq => exact absurd (List.cons.inj heq).1 (hc.ne (by decide))
    · next heq => exact absurd (List.cons.inj heq).1 (hc.ne (by decide))
    · next heq => exact absurd (List.cons.inj heq).1 (hc.ne (by decide))
    · next heq => exact absurd (List.cons.inj heq).1 (hc.ne (by decide))
    · exact hoption

/-- The entries that fields should be read as. -/
def entries (group : List Char) (fields : List (List Char × List Char)) : List Entry :=
  fields.map fun field => .option group field.1 (some field.2)

theorem readLines_option {group name : List Char} (hname : IsName name) (value : List Char)
    (more : List (List Char)) :
    readLines (some group) ((name ++ '=' :: value) :: more) =
      (readLines (some group) more).map (.option group name (some (readValue value)) :: ·) := by
  rw [readLines, parseLine_option hname]
  rfl

theorem not_mem_of_isName {name : List Char} (hname : IsName name) : '\n' ∉ name := fun h =>
  (hname.2 '\n' h).2.2 (by decide)

theorem readLines_write_iff {group : List Char} {fields : List (List Char × List Char)}
    (hnames : ∀ field ∈ fields, IsName field.1) :
    readLines (some group) (lines (fields.flatMap writeOption)) = some (entries group fields) ↔
      ∀ field ∈ fields, Clean field.2 := by
  induction fields with
  | nil => exact iff_of_true rfl fun field h => absurd h List.not_mem_nil
  | cons field fields ih =>
    obtain ⟨name, value⟩ := field
    obtain ⟨hname, hrest⟩ := List.forall_mem_cons.1 hnames
    rw [List.flatMap_cons, writeOption, entries, List.map_cons, List.forall_mem_cons]
    by_cases hline : '\n' ∈ value
    · -- the rest of the value is on another line
      refine iff_of_false (fun h => ?_) fun h => h.1.oneLine hline
      obtain ⟨first, after, rfl, hfirst⟩ := List.eq_append_cons_of_mem hline
      have hsplit :
          name ++ '=' :: (first ++ '\n' :: after ++ ['\n']) ++ fields.flatMap writeOption =
          (name ++ '=' :: first) ++ '\n' :: (after ++ '\n' :: fields.flatMap writeOption) := by
        simp
      have hnone : '\n' ∉ name ++ '=' :: first := by
        simp [not_mem_of_isName hname, hfirst]
      rw [hsplit, lines_append hnone, readLines_option hname] at h
      obtain ⟨more, -, hcons⟩ := Option.map_eq_some_iff.1 h
      have hvalue := Option.some.inj (Entry.option.inj (List.cons.inj hcons).1).2.2
      have hlen := length_readValue_le first
      rw [hvalue, List.length_append, List.length_cons] at hlen
      omega
    · have hsplit : name ++ '=' :: (value ++ ['\n']) ++ fields.flatMap writeOption =
          (name ++ '=' :: value) ++ '\n' :: fields.flatMap writeOption := by
        simp
      have hnone : '\n' ∉ name ++ '=' :: value := by
        simp [not_mem_of_isName hname, hline]
      rw [hsplit, lines_append hnone, readLines_option hname, ← readValue_eq_self_iff hline,
        ← ih hrest]
      constructor
      · intro h
        obtain ⟨more, hmore, hcons⟩ := Option.map_eq_some_iff.1 h
        obtain ⟨hentry, rfl⟩ := List.cons.inj hcons
        exact ⟨Option.some.inj (Entry.option.inj hentry).2.2, hmore⟩
      · rintro ⟨hvalue, hmore⟩
        rw [hmore, hvalue]
        rfl

/-- **What is written as it is** is read back just when no rule applies to it. -/
theorem read_write_iff {group : List Char} {fields : List (List Char × List Char)}
    (hgroup : ∀ c ∈ group, c ≠ ']' ∧ IsLetter c) (hnames : ∀ field ∈ fields, IsName field.1) :
    read (write group fields) = some (entries group fields) ↔ ∀ field ∈ fields, Clean field.2 := by
  have hnone : '\n' ∉ '[' :: (group ++ [']']) := by
    have hnot : '\n' ∉ group := fun h => (hgroup _ h).2.2.2 (by decide)
    simp [hnot]
  have hsplit : write group fields =
      '[' :: (group ++ [']']) ++ '\n' :: fields.flatMap writeOption := by
    simp [write]
  have htake : (group ++ [']']).takeWhile (· ≠ ']') = group := by
    rw [List.takeWhile_append_of_pos fun c hc => decide_eq_true (hgroup c hc).1,
      List.takeWhile_cons_of_neg (by simp), List.append_nil]
  have hblank : group.rdropWhile isBlank = group := by
    rw [List.rdropWhile_eq_self_iff]
    intro hne
    simp [(hgroup _ (List.getLast_mem hne)).2.1]
  have hline : parseLine ('[' :: (group ++ [']'])) = .group group := by
    show (if ']' ∈ group ++ [']'] then Line.group (((group ++ [']']).takeWhile (· ≠ ']')).rdropWhile
      isBlank) else .malformed) = _
    rw [if_pos (by simp), htake, hblank]
  rw [read, hsplit, lines_append hnone, readLines, hline]
  exact readLines_write_iff hnames

end OptionFile
end Lib
end Boveda

/-
# Server-sent events

A `text/event-stream` and what an `EventSource` makes of it: lines that end with CR LF,
LF or CR; fields `event`, `data`, `id` and `retry`, comments; an event for each empty line
after some data.  What the stream leaves without an empty line at its end is not an event.

`parse_write` is the round trip for events that are written with one line of data: they
come back as they are, in order and no others, as long as neither the type nor the data
breaks a line.
-/

import Mathlib.Tactic.Common

namespace Boveda
namespace Lib
namespace EventStream

/-- An event as a listener gets it. -/
structure Event where
  type : List Char
  data : List Char
  lastEventId : List Char := []
  deriving DecidableEq, Repr

/-! ### Reading -/

/-- The lines of a stream, without their ends; `line` is what has been read of the first one.
What follows the last end is not a line. -/
def lines (line : List Char) : List Char → List (List Char)
  | [] => []
  | '\r' :: '\n' :: rest => line :: lines [] rest
  | '\r' :: rest => line :: lines [] rest
  | '\n' :: rest => line :: lines [] rest
  | c :: rest => lines (line ++ [c]) rest

/-- What is known of the event that is being read. -/
structure Buffers where
  data : List Char := []
  type : List Char := []
  lastEventId : List Char := []
  deriving DecidableEq

/-- The value of a field, without one space at its front. -/
def value : List Char → List Char
  | ' ' :: rest => rest
  | rest => rest

/-- A field. -/
def Buffers.field (b : Buffers) (name value : List Char) : Buffers :=
  if name = ['e', 'v', 'e', 'n', 't'] then { b with type := value }
  else if name = ['d', 'a', 't', 'a'] then { b with data := b.data ++ value ++ ['\n'] }
  else if name = ['i', 'd'] ∧ '\x00' ∉ value then { b with lastEventId := value }
  else b

/-- An empty line: the event, if there are data, and what is kept for the next one. -/
def Buffers.dispatch (b : Buffers) : List Event × Buffers :=
  (if b.data = [] then []
    else [{
      type := if b.type = [] then ['m', 'e', 's', 's', 'a', 'g', 'e'] else b.type
      data := b.data.dropLast
      lastEventId := b.lastEventId }],
    { lastEventId := b.lastEventId })

/-- One line. -/
def Buffers.line (b : Buffers) (text : List Char) : List Event × Buffers :=
  if text = [] then b.dispatch
  else if text.head? = some ':' then ([], b)
  else
    let name := text.takeWhile (· ≠ ':')
    ([], b.field name (value (text.drop (name.length + 1))))

/-- The events of some lines. -/
def events (b : Buffers) : List (List Char) → List Event
  | [] => []
  | text :: rest => (b.line text).1 ++ events (b.line text).2 rest

/-- The events of a stream. -/
def parse (stream : List Char) : List Event := events {} (lines [] stream)

/-! ### Writing -/

/-- `event: …` and `data: …`, and an empty line. -/
def write (type data : List Char) : List Char :=
  ['e', 'v', 'e', 'n', 't', ':', ' '] ++ type ++ '\n' :: (['d', 'a', 't', 'a', ':', ' '] ++ data ++
    ['\n', '\n'])

/-- A text that stays on its line. -/
def OneLine (text : List Char) : Prop := '\r' ∉ text ∧ '\n' ∉ text

theorem OneLine.append {a b : List Char} (ha : OneLine a) (hb : OneLine b) : OneLine (a ++ b) :=
  ⟨by simp [ha.1, hb.1], by simp [ha.2, hb.2]⟩

/-- A line is read up to its end. -/
theorem lines_append {text : List Char} (h : OneLine text) (line rest : List Char) :
    lines line (text ++ '\n' :: rest) = (line ++ text) :: lines [] rest := by
  induction text generalizing line with
  | nil => simp [lines]
  | cons c text ih =>
    obtain ⟨hcr, hlf⟩ := h
    rw [List.mem_cons, not_or] at hcr hlf
    have hstep : lines line (c :: (text ++ '\n' :: rest)) =
        lines (line ++ [c]) (text ++ '\n' :: rest) := by
      rw [lines]
      · exact fun _ h _ => hcr.1 h.symm
      · exact fun h => hcr.1 h.symm
      · exact fun h => hlf.1 h.symm
    rw [List.cons_append, hstep, ih ⟨hcr.2, hlf.2⟩, List.append_assoc, List.singleton_append]

/-- A field on a line of its own. -/
theorem Buffers.line_field (b : Buffers) {name : List Char} (hne : name ≠ []) (hcolon : ':' ∉ name)
    (text : List Char) : b.line (name ++ ':' :: ' ' :: text) = ([], b.field name text) := by
  have htake : (name ++ ':' :: ' ' :: text).takeWhile (· ≠ ':') = name := by
    rw [List.takeWhile_append_of_pos, List.takeWhile_cons_of_neg (by simp), List.append_nil]
    rintro c hc
    refine decide_eq_true ?_
    rintro rfl
    exact hcolon hc
  obtain ⟨c, rest, rfl⟩ := List.exists_cons_of_ne_nil hne
  have hc : c ≠ ':' := fun h => hcolon (h ▸ List.mem_cons_self ..)
  unfold Buffers.line
  rw [if_neg (by simp), if_neg (by simpa using hc)]
  simp only [htake]
  rw [List.drop_append, List.drop_eq_nil_of_le (Nat.le_succ _), Nat.add_sub_cancel_left]
  rfl

/-- What is written is one event. -/
theorem events_write {type data : List Char} (ht : OneLine type) (hd : OneLine data)
    (htype : type ≠ []) (rest : List Char) :
    events {} (lines [] (write type data ++ rest)) =
      { type, data } :: events {} (lines [] rest) := by
  have hevent : OneLine (['e', 'v', 'e', 'n', 't', ':', ' '] ++ type) :=
    OneLine.append ⟨by decide, by decide⟩ ht
  have hdata : OneLine (['d', 'a', 't', 'a', ':', ' '] ++ data) :=
    OneLine.append ⟨by decide, by decide⟩ hd
  have hlines : lines [] (write type data ++ rest) =
      (['e', 'v', 'e', 'n', 't'] ++ ':' :: ' ' :: type) ::
        (['d', 'a', 't', 'a'] ++ ':' :: ' ' :: data) :: [] :: lines [] rest := by
    have hstream : write type data ++ rest =
        (['e', 'v', 'e', 'n', 't', ':', ' '] ++ type) ++ '\n' ::
          ((['d', 'a', 't', 'a', ':', ' '] ++ data) ++ '\n' :: '\n' :: rest) := by simp [write]
    rw [hstream, lines_append hevent, lines_append hdata]
    rfl
  rw [hlines]
  simp only [events]
  rw [Buffers.line_field _ (by simp) (by decide), Buffers.line_field _ (by simp) (by decide)]
  simp [Buffers.field, Buffers.line, Buffers.dispatch, htype]

/-- **The round trip.** -/
theorem parse_write {written : List (List Char × List Char)}
    (h : ∀ e ∈ written, OneLine e.1 ∧ OneLine e.2 ∧ e.1 ≠ []) :
    parse (written.flatMap fun e => write e.1 e.2) =
      written.map fun e => { type := e.1, data := e.2 } := by
  unfold parse
  induction written with
  | nil => rfl
  | cons e written ih =>
    obtain ⟨ht, hd, htype⟩ := h e (List.mem_cons_self ..)
    rw [List.flatMap_cons, events_write ht hd htype,
      ih fun e he => h e (List.mem_cons_of_mem _ he), List.map_cons]

end EventStream
end Lib
end Boveda

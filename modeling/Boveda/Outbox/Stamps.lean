/-
# The texts of the timestamps

SQLite compares the columns `next_retry_at` and `updated_at` as texts, `YYYY-MM-DD HH:MM:SS`
(`datetime`) or `YYYY-MM-DD HH:MM:SS.SSS` (`strftime('%Y-%m-%d %H:%M:%f')`).  A `Stamp` is
such a text by the second and the milliseconds that it says, and `Stamp.le` is the order
of the texts (`le_iff_text`): the fields have fixed widths and go from the year down, and
the text without a fraction is a prefix of those with the same second.  So the `WHERE` of a
claim compares texts (`claimable_iff_text`).
-/

import Boveda.Lib.Calendar
import Boveda.Lib.Digits
import Boveda.Outbox.NoLoss

namespace Boveda
namespace Stamps

open Lib Outbox Digits Calendar

/-- `YYYY-MM-DD`, and what follows. -/
def dateText (d : Date) (rest : List Char) : List Char :=
  fixed 4 d.year.toNat ++ '-' :: (fixed 2 d.month.toNat ++ '-' :: (fixed 2 d.day.toNat ++ rest))

/-- `HH:MM:SS`, and what follows. -/
def clockText (seconds : ℕ) (rest : List Char) : List Char :=
  fixed 2 (seconds / 3600) ++ ':' :: (fixed 2 (seconds / 60 % 60) ++
    ':' :: (fixed 2 (seconds % 60) ++ rest))

/-- `.SSS`, or nothing. -/
def fractionText : Option ℕ → List Char
  | none => []
  | some millis => '.' :: fixed 3 millis

/-- The text of a timestamp in the years 1 to 9999; day 719163 is 1 January 1970. -/
def text (s : Stamp) : Option (List Char) :=
  (Date.ofOrdinal (s.seconds / 86400 + 719163)).map fun d =>
    dateText d (' ' :: clockText (s.seconds % 86400).toNat (fractionText s.millis))

/-- A fraction has three digits. -/
def Valid (s : Stamp) : Prop := ∀ m ∈ s.millis, m < 1000

theorem dateText_lt_iff (d d' : Date) (x y : List Char) : dateText d x < dateText d' y ↔
    d.toOrdinal < d'.toOrdinal ∨ d.toOrdinal = d'.toOrdinal ∧ x < y := by
  obtain ⟨hyear, hmonth, hday⟩ := d.valid
  obtain ⟨hyear', hmonth', hday'⟩ := d'.valid
  have hlast : daysInMonth d.year d.month ≤ 31 := daysInMonth_le hmonth.1 hmonth.2
  have hlast' : daysInMonth d'.year d'.month ≤ 31 := daysInMonth_le hmonth'.1 hmonth'.2
  have heq : d.toOrdinal = d'.toOrdinal ↔
      d.year = d'.year ∧ d.month = d'.month ∧ d.day = d'.day := by
    refine ⟨fun h => ?_, fun ⟨hy, hm, hd⟩ => by rw [Date.toOrdinal, hy, hm, hd]; rfl⟩
    rw [Date.toOrdinal_injective h]
    exact ⟨rfl, rfl, rfl⟩
  simp only [dateText, fixed_append_lt_iff, List.cons_lt_cons_self, Date.toOrdinal_lt_iff, heq]
  by_cases h : x < y
  · simp only [h, and_true]
    omega
  · simp only [h, and_false, or_false]
    omega

theorem clockText_lt_iff {s s' : ℕ} (hs : s < 86400) (hs' : s' < 86400) (x y : List Char) :
    clockText s x < clockText s' y ↔ s < s' ∨ s = s' ∧ x < y := by
  simp only [clockText, fixed_append_lt_iff, List.cons_lt_cons_self]
  by_cases h : x < y
  · simp only [h, and_true]
    omega
  · simp only [h, and_false, or_false]
    omega

theorem fractionText_lt_iff {f f' : Option ℕ} (hf : ∀ m ∈ f, m < 1000) (hf' : ∀ m ∈ f', m < 1000) :
    fractionText f < fractionText f' ↔ match f, f' with
      | none, none => False
      | none, some _ => True
      | some _, none => False
      | some m, some n => m < n := by
  cases f with
  | none => cases f' <;> simp [fractionText]
  | some m =>
    cases f' with
    | none => simp [fractionText]
    | some n =>
      have hlt := fixed_append_lt_iff 3 m n [] []
      have hm := hf m rfl
      have hn := hf' n rfl
      simp only [List.append_nil, List.not_lt_nil, and_false, or_false] at hlt
      simp only [fractionText, List.cons_lt_cons_self, hlt]
      omega

/-- Texts are in the order of their seconds, and then of their fractions. -/
theorem text_lt_iff {a b : Stamp} {x y : List Char} (hx : text a = some x) (hy : text b = some y) :
    x < y ↔ a.seconds < b.seconds ∨
      a.seconds = b.seconds ∧ fractionText a.millis < fractionText b.millis := by
  obtain ⟨d, hd, rfl⟩ := Option.map_eq_some_iff.1 hx
  obtain ⟨d', hd', rfl⟩ := Option.map_eq_some_iff.1 hy
  have hlt : (a.seconds % 86400).toNat < 86400 := by omega
  have hlt' : (b.seconds % 86400).toNat < 86400 := by omega
  rw [dateText_lt_iff, List.cons_lt_cons_self, clockText_lt_iff hlt hlt',
    Date.toOrdinal_of_ofOrdinal hd, Date.toOrdinal_of_ofOrdinal hd']
  by_cases h : fractionText a.millis < fractionText b.millis
  · simp only [h, and_true]
    omega
  · simp only [h, and_false, or_false]
    omega

/-- **`Stamp.le` is the order of the texts.** -/
theorem le_iff_text {a b : Stamp} (ha : Valid a) (hb : Valid b) {x y : List Char}
    (hx : text a = some x) (hy : text b = some y) : a.le b = true ↔ x ≤ y := by
  rw [← not_lt, text_lt_iff hy hx, fractionText_lt_iff hb ha, Stamp.le]
  obtain ⟨s, f⟩ := a
  obtain ⟨s', f'⟩ := b
  by_cases hs : s = s'
  · cases f <;> cases f' <;> simp [hs]
  · simp only [hs, if_false, decide_eq_true_eq]
    omega

/-- What SQLite says of the current time is valid. -/
theorem valid_strftime (S : Setting) (now : Outbox.Time) : Valid (S.strftime now) := by
  rintro m hm
  obtain rfl := Option.mem_some.1 hm
  exact Nat.mod_lt _ (by decide)

theorem valid_datetime (S : Setting) (now : Outbox.Time) (seconds : ℤ) :
    Valid (S.datetime now seconds) := fun _ hm => nomatch hm

/-! ### The texts of the table -/

/-- The timestamps that are compared are such as SQLite writes. -/
structure RowValid (r : Row) : Prop where
  createdAt : Valid r.createdAt
  updatedAt : Valid r.updatedAt
  nextRetryAt : Valid r.nextRetryAt

section Rows

variable {S : Setting} {w w' : World} {e : Event}

theorem rowValid_newRow (S : Setting) (now : Outbox.Time) (id : ChunkId) (ch : Chunk) :
    RowValid (S.newRow now id ch) :=
  ⟨valid_strftime S now, valid_strftime S now, valid_strftime S now⟩

theorem rowValid_claimRow (S : Setting) {r : Row} (hr : RowValid r) (now : Outbox.Time) :
    RowValid (S.claimRow now r) :=
  ⟨hr.createdAt, valid_strftime S now, hr.nextRetryAt⟩

theorem rowValid_processRow (S : Setting) {r : Row} (hr : RowValid r) (now : Outbox.Time) :
    RowValid (S.processRow now r) :=
  ⟨hr.createdAt, valid_strftime S now, hr.nextRetryAt⟩

theorem rowValid_failRow (S : Setting) {r : Row} (hr : RowValid r) (now : Outbox.Time)
    (attempts : ℕ) (err : String) : RowValid (S.failRow now attempts err r) :=
  ⟨hr.createdAt, valid_strftime S now, valid_datetime S now _⟩

theorem rowValid_updateRows {p : Row → Bool} {f : Row → Row} {hf : ∀ r, (f r).id = r.id}
    (hw : ∀ id r, w.rows.find? id = some r → RowValid r) (hvalid : ∀ r, RowValid r → RowValid (f r))
    {id : ChunkId} {r' : Row} (hr' : (w.updateRows p f hf).rows.find? id = some r') :
    RowValid r' := by
  rw [find?_updateRows] at hr'
  obtain ⟨r, hr, rfl⟩ := Option.map_eq_some_iff.1 hr'
  split_ifs
  · exact hvalid r (hw id r hr)
  · exact hw id r hr

theorem rowValid_insertRow {now : Outbox.Time} {id : ChunkId} {ch : Chunk} {w₁ : World}
    (hw : ∀ id r, w.rows.find? id = some r → RowValid r)
    (h : w.insertRow (S.newRow now id ch) = some w₁) {id' : ChunkId} {r' : Row}
    (hr' : w₁.rows.find? id' = some r') : RowValid r' := by
  rw [World.find?_insertRow h] at hr'
  split_ifs at hr'
  · rw [← Option.some.inj hr']
    exact rowValid_newRow S now id ch
  · exact hw id' r' hr'

/-- **One step** writes timestamps of these two forms only. -/
theorem rowValid_step (hw : ∀ id r, w.rows.find? id = some r → RowValid r) (h : Effect S w e w')
    (id : ChunkId) (r' : Row) (hr' : w'.rows.find? id = some r') : RowValid r' := by
  cases h with
  | insert _ h₁ => exact rowValid_insertRow hw h₁ hr'
  | insertDrop _ _ h₁ => exact rowValid_insertRow hw h₁ hr'
  | claim =>
    rw [claim_rows] at hr'
    exact rowValid_updateRows hw (fun r hr => rowValid_claimRow S hr _) hr'
  | mark _ _ _ _ =>
    rw [World.setDrain_rows] at hr'
    exact rowValid_updateRows hw (fun r hr => rowValid_processRow S hr _) hr'
  | fail _ _ =>
    rw [World.setDrain_rows] at hr'
    exact rowValid_updateRows hw (fun r hr => rowValid_failRow S hr _ _ _) hr'
  | _ => exact hw id r' hr'

/-- **The `WHERE` of a claim compares texts**, in every state of the outbox. -/
theorem claimable_iff_text (h : Reachable (step S) .init w) {r : Row} (hr : r ∈ w.rows.rows)
    {now : Outbox.Time} {nextRetryAt updatedAt current expiry : List Char}
    (hnext : text r.nextRetryAt = some nextRetryAt) (hupdated : text r.updatedAt = some updatedAt)
    (hcurrent : text (S.strftime now) = some current)
    (hexpiry : text (S.datetime now (-(15 * 60))) = some expiry) :
    S.claimable now r = true ↔ r.state = .pending ∧ nextRetryAt ≤ current ∨
      r.state = .draining ∧ updatedAt ≤ expiry := by
  have hrows : ∀ id r, w.rows.find? id = some r → RowValid r :=
    h.invariant (I := fun w => ∀ id r, w.rows.find? id = some r → RowValid r)
      (fun _ _ hr => nomatch hr) fun _ _ _ hw _ hs => rowValid_step hw (step_effect hs)
  have hvalid := hrows r.id r (Table.find?_of_mem hr)
  rw [← le_iff_text hvalid.nextRetryAt (valid_strftime S now) hnext hcurrent,
    ← le_iff_text hvalid.updatedAt (valid_datetime S now _) hupdated hexpiry]
  simp [Setting.claimable]

end Rows

/-- A claim and the time that it is compared with, fifteen minutes later. -/
example : (text ⟨1700000000, some 0⟩, text ⟨1700000900 - 15 * 60, none⟩) =
    (some "2023-11-14 22:13:20.000".toList, some "2023-11-14 22:13:20".toList) := by
  decide +kernel

end Stamps
end Boveda

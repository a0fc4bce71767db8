/-
# No row of the outbox starves

`drain_outbox_queue` (`src/boveda/storage.py`) claims the first rows that are due,
`ORDER BY created_at ASC LIMIT :limit`, and gives each a new attempt.  An attempt that fails
for whatever reason is counted, and the tenth makes the row a `DEAD_LETTER`.  A drain that is
cut off counts nothing, and its rows are due again when their lease is over.

Rows are never deleted, and only those with no later `created_at` can be claimed in the place
of a row: of rows that have the same, SQLite may read any one first.  Hence, while drains come
one after another, the `n` rows that were created no later than one of them are found due by at
most `10 * n` claims each, and by `n` more for each drain that is cut off.  Whatever is enqueued
later, and however uploads and failures fall, the row is then `PROCESSED` or a `DEAD_LETTER` with
ten attempts (`overtaken`).

`Account` keeps the books: with each row go the attempts that it has left, and what was found
due of a row and what is left of those no later never exceed what these began with.
-/

import Boveda.Lib.Tries
import Boveda.Outbox.Schedule

namespace Boveda
namespace Service

open Lib Outbox Schedule

/-! ### Drains one after another -/

/-- The outbox with its clock.  `drainer` is the drain that has claimed last, `due` counts the
claims that found a row due, and `stops` the drains that were cut off; no step reads them. -/
structure Served where
  clocked : Clocked
  drainer : ℕ
  due : ChunkId → ℕ
  stops : ℕ

/-- After `init_outbox_schema`, at a time. -/
def Served.init (start : ℕ) : Served := ⟨.init start, 0, fun _ => 0, 0⟩

/-- The rows that are due. -/
def isDue (S : Setting) (now : ℕ) (rows : Table Row Row.id) (id : ChunkId) : Bool :=
  (rows.find? id).any (S.claimable now)

/-- What a step adds to the history. -/
def Served.log (S : Setting) (c : Served) : Event → Served
  | .claim d maxItems now =>
    { c with
      drainer := d
      due := fun id =>
        if maxItems ≠ 0 ∧ isDue S now c.clocked.world.rows id then c.due id + 1 else c.due id }
  | .stopDrain _ => { c with stops := c.stops + 1 }
  | _ => c

/-- A step at a time when the clock has not gone back. -/
def step (S : Setting) (c : Served) (e : Event) : Option Served :=
  (Schedule.step S c.clocked e).map fun k => { c.log S e with clocked := k }

/-- No drain claims while another one works. -/
def Alone (c : Served) (e : Event) : Prop :=
  ∀ d maxItems now, e = .claim d maxItems now → ∀ d', (c.clocked.world.drains d').items = []

/-! ### What is left of a row -/

/-- The attempts that a row has left. -/
def spare (r : Row) : ℕ :=
  match r.state with
  | .pending | .draining => 10 - r.attempts
  | .processed | .deadLetter => 0

/-- The same when a drain works on `items`, without the attempt that it is making. -/
def left (items : List Item) (r : Row) : ℕ :=
  if r.id ∈ items.map Item.id then 9 - r.attempts else spare r

/-- A row that can be claimed has made fewer than ten attempts, and a dead letter ten. -/
def Counted (r : Row) : Prop :=
  match r.state with
  | .pending | .draining => r.attempts ≤ 9
  | .processed => True
  | .deadLetter => r.attempts = 10

theorem spare_le (r : Row) : spare r ≤ 10 - r.attempts := by
  unfold spare
  split <;> omega

theorem left_of_mem {items : List Item} {r : Row} (h : r.id ∈ items.map Item.id) :
    left items r = 9 - r.attempts := if_pos h

theorem left_of_notMem {items : List Item} {r : Row} (h : r.id ∉ items.map Item.id) :
    left items r = spare r := if_neg h

/-- A drain that is done with a row leaves the others as they are. -/
theorem left_cons_of_ne {item : Item} {rest : List Item} {r : Row} (h : r.id ≠ item.id) :
    left (item :: rest) r = left rest r := by
  have hmem : r.id ∈ (item :: rest).map Item.id ↔ r.id ∈ rest.map Item.id :=
    List.mem_cons.trans (or_iff_right h)
  exact if_congr hmem rfl rfl

theorem left_le (items : List Item) (r : Row) : left items r ≤ 10 := by
  have hspare := spare_le r
  unfold left
  split_ifs <;> omega

/-- A row that is being tried has the attempt less that is being made. -/
theorem spare_le_left (items : List Item) (r : Row) : spare r ≤ left items r + 1 := by
  have hspare := spare_le r
  unfold left
  split_ifs <;> omega

theorem left_processRow (S : Setting) (now : ℕ) (items : List Item) (r : Row) :
    left items (S.processRow now r) ≤ left items r := by
  unfold left
  rw [S.processRow_id]
  split_ifs
  · exact le_rfl
  · exact Nat.zero_le _

/-- A row that is due has been tried less than ten times. -/
theorem Counted.of_claimable {S : Setting} {t : ℕ} {r : Row} (h : Counted r)
    (hclaim : S.claimable t r = true) : r.attempts ≤ 9 ∧ spare r = 10 - r.attempts := by
  unfold Counted at h
  unfold spare
  rcases of_decide_eq_true hclaim with ⟨hs, -⟩ | ⟨hs, -⟩
  · rw [hs] at h ⊢
    exact ⟨h, rfl⟩
  · rw [hs] at h ⊢
    exact ⟨h, rfl⟩

/-- **A claim** takes off the attempt that it begins. -/
theorem left_claimRow {S : Setting} {now t : ℕ} {items : List Item} {r : Row} (hr : Counted r)
    (hclaim : S.claimable t r = true) (h : r.id ∈ items.map Item.id) :
    left items (S.claimRow now r) < spare r := by
  obtain ⟨hten, hspare⟩ := hr.of_claimable hclaim
  have hattempts : (S.claimRow now r).attempts = r.attempts := rfl
  rw [left_of_mem (by exact h), hattempts, hspare]
  omega

/-- **A failure** ends the attempt that was being made. -/
theorem left_failRow {S : Setting} {now : ℕ} {err : String} {items : List Item} {r : Row}
    (h : r.id ∉ items.map Item.id) :
    left items (S.failRow now r.attempts err r) ≤ 9 - r.attempts := by
  have hspare := spare_le (S.failRow now r.attempts err r)
  have hattempts : (S.failRow now r.attempts err r).attempts = r.attempts + 1 := rfl
  rw [left_of_notMem (by exact h)]
  omega

theorem counted_failRow {S : Setting} {now : ℕ} {err : String} {r : Row} (h : r.attempts ≤ 9) :
    Counted (S.failRow now r.attempts err r) := by
  simp only [Counted, Setting.failRow, Setting.newState]
  by_cases hten : 10 ≤ r.attempts + 1
  · rw [if_pos hten]
    dsimp only
    omega
  · rw [if_neg hten]
    dsimp only
    omega

/-! ### The rows in the order of their claims -/

instance : Std.Total fun a b : Row => (a.createdAt.le b.createdAt : Prop) :=
  ⟨fun _ _ => Stamp.le_total ..⟩

instance : IsTrans Row fun a b => a.createdAt.le b.createdAt :=
  ⟨fun _ _ _ => Stamp.le_trans⟩

/-- `a` was created no later than `r`. -/
def noLater (r a : Row) : Bool := a.createdAt.le r.createdAt

theorem noLater_self (r : Row) : noLater r r = true := (Stamp.le_total ..).elim id id

/-- The rows stand in the order in which they were created. -/
structure Lined (S : Setting) (now : ℕ) (rows : List Row) : Prop where
  created : rows.Pairwise fun a b => a.createdAt.le b.createdAt
  past : ∀ r ∈ rows, ∃ t ≤ now, r.createdAt = S.strftime t

/-- What the rows have left, and what was found due. -/
structure Books where
  now : ℕ
  rows : Table Row Row.id
  items : List Item
  /-- The row whose file the drain removes. -/
  marked : Option ChunkId
  due : ChunkId → ℕ
  stops : ℕ

/-- **The books.**  What was found due of a row, with all that is left of the rows no later,
does not exceed ten attempts, and one for each drain that was cut off, of each of these. -/
structure Account (S : Setting) (b : Books) : Prop where
  lined : Lined S b.now b.rows.rows
  counted : ∀ r ∈ b.rows.rows, Counted r
  distinct : (b.items.map Item.id).Nodup
  items : ∀ item ∈ b.items,
    ∃ r, b.rows.find? item.id = some r ∧ r.attempts = item.attempts ∧ r.attempts ≤ 9
  marked : ∀ id, b.marked = some id → ∃ r, b.rows.find? id = some r ∧ r.state = .processed
  absent : ∀ id, b.rows.find? id = none → b.due id = 0
  tried : ∀ r ∈ b.rows.rows, b.due r.id + owed (left b.items) (noLater r) b.rows.rows ≤
    (10 + b.stops) * b.rows.rows.countP (noLater r)

section Books

variable {S : Setting} {b : Books} {now : ℕ}

theorem Lined.mono {rows : List Row} (h : Lined S b.now rows) (hnow : b.now ≤ now) :
    Lined S now rows :=
  ⟨h.created, fun r hr => (h.past r hr).imp fun _ ht => ⟨ht.1.trans hnow, ht.2⟩⟩

/-- An update leaves `created_at` as it is. -/
theorem Lined.update {rows : Table Row Row.id} {p : Row → Bool} {f : Row → Row}
    (hf : ∀ r, (f r).id = r.id) (h : Lined S now rows.rows)
    (hcreated : ∀ r, (f r).createdAt = r.createdAt) : Lined S now (rows.update p f hf).rows := by
  have hmap : ∀ r, (if p r then f r else r).createdAt = r.createdAt := by
    intro r
    split_ifs
    · exact hcreated r
    · rfl
  refine ⟨List.pairwise_map.2 (h.created.imp fun {a c} hac => ?_), fun r hr => ?_⟩
  · rwa [hmap, hmap]
  · obtain ⟨a, ha, rfl⟩ := List.mem_map.1 hr
    rw [hmap]
    exact h.past a ha

/-- Two texts with a fraction. -/
theorem some_le_some (s s' : ℤ) (m m' : ℕ) :
    Stamp.le ⟨s, some m⟩ ⟨s', some m'⟩ = true ↔ s < s' ∨ s = s' ∧ m ≤ m' := by
  rw [Stamp.le_iff, Stamp.rank, Stamp.rank, Prod.Lex.toLex_le_toLex]
  simp

/-- Later times are written as greater texts. -/
theorem strftime_le (hutc : Monotone S.utc) {s t : ℕ} (h : s ≤ t) :
    (S.strftime s).le (S.strftime t) = true := by
  have hle : @LE.le ℕ _ (S.utc s) (S.utc t) := hutc h
  refine (some_le_some ..).2 ?_
  omega

/-- A new row is behind all others. -/
theorem Lined.insert {rows : Table Row Row.id} (h : Lined S now rows.rows)
    (hutc : Monotone S.utc) {r : Row} (hr : r.createdAt = S.strftime now)
    (hnone : rows.find? r.id = none) : Lined S now (rows.insert r hnone).rows := by
  refine ⟨?_, fun a ha => ?_⟩
  · rw [Table.insert, List.pairwise_append]
    refine ⟨h.created, List.pairwise_singleton .., fun a ha c hc => ?_⟩
    obtain rfl := List.mem_singleton.1 hc
    obtain ⟨t, ht, hat⟩ := h.past a ha
    rw [hat, hr]
    exact strftime_le hutc ht
  · rcases (Table.mem_insert hnone).1 ha with ha | rfl
    · exact h.past a ha
    · exact ⟨now, le_rfl, hr⟩

theorem nodup_selectRows (rows : Table Row Row.id) (t : ℕ) (maxItems : ℤ) :
    ((S.selectRows t maxItems rows.rows).map Row.id).Nodup := by
  have hsorted : ((((S.scan.read t rows.rows).filter (S.claimable t)).insertionSort
      fun a b => a.createdAt.le b.createdAt).map Row.id).Nodup := by
    have hfound : (((S.scan.read t rows.rows).filter (S.claimable t)).map Row.id).Nodup :=
      (((S.scan.perm t rows.rows).map Row.id).nodup_iff.2 rows.nodup).sublist
        (List.filter_sublist.map _)
    exact ((List.perm_insertionSort ..).map Row.id).nodup_iff.2 hfound
  rw [Setting.selectRows]
  split_ifs
  · exact hsorted
  · exact hsorted.sublist ((List.take_sublist ..).map _)

/-- **A claim takes a row that is due, or one no later.** -/
theorem exists_mem_selectRows {rows : List Row} {t : ℕ} {maxItems : ℤ} (hmax : maxItems ≠ 0)
    {r : Row} (hr : r ∈ rows) (hclaim : S.claimable t r = true) :
    ∃ a ∈ S.selectRows t maxItems rows, noLater r a = true := by
  have hfound : r ∈ (S.scan.read t rows).filter (S.claimable t) :=
    List.mem_filter.2 ⟨(S.scan.perm t rows).mem_iff.2 hr, hclaim⟩
  rw [Setting.selectRows]
  split_ifs with hneg
  · exact ⟨r, (List.mem_insertionSort _).2 hfound, noLater_self r⟩
  · exact exists_mem_take hfound (by omega)

end Books

/-! ### What a step does to the books -/

section Steps

variable {S : Setting} {b : Books} {now : ℕ}

/-- An update keeps the rows counted. -/
theorem counted_update {rows : Table Row Row.id} {p : Row → Bool} {f : Row → Row}
    (hf : ∀ r, (f r).id = r.id) (h : ∀ r ∈ rows.rows, Counted r)
    (hcounted : ∀ r ∈ rows.rows, p r = true → Counted (f r)) :
    ∀ r ∈ (rows.update p f hf).rows, Counted r := by
  intro r hr
  obtain ⟨a, ha, rfl⟩ := List.mem_map.1 hr
  split_ifs with hp
  · exact hcounted a ha hp
  · exact h a ha

/-- An update leaves it open which rows are no later than which. -/
theorem noLater_update {p : Row → Bool} {f : Row → Row}
    (hcreated : ∀ r, (f r).createdAt = r.createdAt) (r a : Row) :
    noLater (if p r then f r else r) (if p a then f a else a) = noLater r a := by
  unfold noLater
  split_ifs <;> simp only [hcreated]

theorem countP_noLater_update {p : Row → Bool} {f : Row → Row}
    (hcreated : ∀ r, (f r).createdAt = r.createdAt) (r : Row) (rows : List Row) :
    (rows.map fun a => if p a then f a else a).countP (noLater (if p r then f r else r)) =
      rows.countP (noLater r) := by
  rw [List.countP_map]
  exact List.countP_congr fun a _ => by rw [Function.comp_apply, noLater_update hcreated]

theorem id_update {p : Row → Bool} {f : Row → Row} (hf : ∀ r, (f r).id = r.id) (r : Row) :
    (if p r then f r else r).id = r.id := by
  split_ifs
  · exact hf r
  · rfl

/-- **An update** that leaves no row more. -/
theorem Account.tried_update (h : Account S b) {p : Row → Bool} {f : Row → Row}
    (hf : ∀ r, (f r).id = r.id) (hcreated : ∀ r, (f r).createdAt = r.createdAt)
    {items : List Item}
    (hle : ∀ r ∈ b.rows.rows, left items (if p r then f r else r) ≤ left b.items r) :
    ∀ r ∈ (b.rows.update p f hf).rows,
      b.due r.id + owed (left items) (noLater r) (b.rows.update p f hf).rows ≤
        (10 + b.stops) * (b.rows.update p f hf).rows.countP (noLater r) := by
  intro r' hr'
  obtain ⟨r, hr, rfl⟩ := List.mem_map.1 hr'
  have hkind (a : Row) (_ : a ∈ b.rows.rows) :
      noLater (if p r then f r else r) (if p a then f a else a) = noLater r a :=
    noLater_update hcreated r a
  have howed := owed_map_le hkind hle
  rw [id_update hf, Table.update, countP_noLater_update hcreated]
  exact (Nat.add_le_add_left howed _).trans (h.tried r hr)

theorem find?_update_none {rows : Table Row Row.id} {p : Row → Bool} {f : Row → Row}
    (hf : ∀ r, (f r).id = r.id) {id : ChunkId} (h : (rows.update p f hf).find? id = none) :
    rows.find? id = none := by
  rw [Table.find?_update] at h
  exact Option.map_eq_none_iff.1 h

/-- Time passes. -/
theorem Account.tick (h : Account S b) (hnow : b.now ≤ now) : Account S { b with now := now } :=
  ⟨h.lined.mono hnow, h.counted, h.distinct, h.items, h.marked, h.absent, h.tried⟩

/-- **A new row** has all its attempts. -/
theorem Account.insert (h : Account S b) (hutc : Monotone S.utc) {a : Row}
    (ha : a.createdAt = S.strftime b.now) (hcounted : Counted a)
    (hnone : b.rows.find? a.id = none) :
    Account S { b with rows := b.rows.insert a hnone } := by
  have hfind : ∀ {id r}, b.rows.find? id = some r → (b.rows.insert a hnone).find? id = some r := by
    intro id r hr
    rw [Table.find?_insert, if_neg, hr]
    rintro rfl
    cases hnone.symm.trans hr
  refine ⟨h.lined.insert hutc ha hnone, fun r hr => ?_, h.distinct, fun item hi => ?_,
    fun id hid => ?_, fun id hid => ?_, fun r hr => ?_⟩
  · rcases (Table.mem_insert hnone).1 hr with hr | rfl
    · exact h.counted r hr
    · exact hcounted
  · obtain ⟨r, hr, hattempts⟩ := h.items item hi
    exact ⟨r, hfind hr, hattempts⟩
  · obtain ⟨r, hr, hstate⟩ := h.marked id hid
    exact ⟨r, hfind hr, hstate⟩
  · dsimp only at hid
    rw [Table.find?_insert] at hid
    split_ifs at hid
    exact h.absent id hid
  · rcases (Table.mem_insert hnone).1 hr with hr | rfl
    · have hnew := owed_le (p := noLater r) (l := [a]) (fun c _ => left_le b.items c)
      have htried := h.tried r hr
      dsimp only [Table.insert]
      rw [owed_append, List.countP_append, Nat.mul_add, ← Nat.add_assoc]
      exact Nat.add_le_add htried (hnew.trans (Nat.mul_le_mul_right _ (Nat.le_add_right _ _)))
    · -- the new row, which no claim has found
      dsimp only
      rw [h.absent r.id hnone, Nat.zero_add]
      exact (owed_le fun c _ => left_le b.items c).trans
        (Nat.mul_le_mul_right _ (Nat.le_add_right _ _))

/-- The rows that are claimed are due. -/
theorem claimable_of_mem_selectRows {rows : Table Row Row.id} {t : ℕ} {maxItems : ℤ} {r : Row}
    (hr : r ∈ rows.rows) (hid : r.id ∈ (S.selectRows t maxItems rows.rows).map Row.id) :
    S.claimable t r = true := by
  obtain ⟨a, ha, hax⟩ := List.mem_map.1 hid
  obtain ⟨hmem, hclaim⟩ := mem_of_mem_selectRows ha
  have hfind := Table.find?_of_mem hmem
  rw [hax, Table.find?_of_mem hr] at hfind
  rwa [Option.some.inj hfind]

theorem map_item_id (rows : List Row) : (rows.map Row.item).map Item.id = rows.map Row.id :=
  List.map_map ..

/-- **A claim** begins an attempt of each of its rows. -/
theorem Account.claim (h : Account S b) (hitems : b.items = []) (t : ℕ) (maxItems : ℤ) :
    Account S { b with
      rows := b.rows.update
        (fun r => r.id ∈ (S.selectRows t maxItems b.rows.rows).map Row.id) (S.claimRow t)
        (S.claimRow_id t)
      items := (S.selectRows t maxItems b.rows.rows).map Row.item
      marked := none
      due := fun id => if maxItems ≠ 0 ∧ isDue S t b.rows id then b.due id + 1 else b.due id } := by
  generalize hsel : S.selectRows t maxItems b.rows.rows = sel
  have hclaimable : ∀ r ∈ b.rows.rows, r.id ∈ sel.map Row.id → S.claimable t r = true :=
    fun r hr hid => claimable_of_mem_selectRows hr (hsel ▸ hid)
  have hleft : ∀ r, left b.items r = spare r := by
    intro r
    rw [hitems]
    exact left_of_notMem List.not_mem_nil
  have hlt : ∀ r ∈ b.rows.rows, r.id ∈ sel.map Row.id →
      left (sel.map Row.item) (S.claimRow t r) < left b.items r := by
    intro r hr hid
    rw [hleft]
    exact left_claimRow (h.counted r hr) (hclaimable r hr hid) (by rwa [map_item_id])
  have hle : ∀ r ∈ b.rows.rows, left (sel.map Row.item)
      (if decide (r.id ∈ sel.map Row.id) = true then S.claimRow t r else r) ≤ left b.items r := by
    intro r hr
    split_ifs with hid
    · exact (hlt r hr (of_decide_eq_true hid)).le
    · rw [hleft, left_of_notMem]
      rw [map_item_id]
      exact fun hmem => hid (decide_eq_true hmem)
  refine ⟨h.lined.update (S.claimRow_id t) fun _ => rfl,
    counted_update (S.claimRow_id t) h.counted fun r hr hid => ?_, ?_, fun item hi => ?_,
    (fun _ hid => nomatch hid), fun id hid => ?_, fun r' hr' => ?_⟩
  · exact ((h.counted r hr).of_claimable (hclaimable r hr (of_decide_eq_true hid))).1
  · dsimp only
    rw [map_item_id, ← hsel]
    exact nodup_selectRows b.rows t maxItems
  · obtain ⟨r, hr, rfl⟩ := List.mem_map.1 hi
    obtain ⟨hmem, hclaim⟩ := mem_of_mem_selectRows (hsel ▸ hr)
    have hid : r.id ∈ sel.map Row.id := List.mem_map_of_mem hr
    refine ⟨S.claimRow t r, ?_, rfl, ((h.counted r hmem).of_claimable hclaim).1⟩
    dsimp only [Row.item]
    rw [Table.find?_update, Table.find?_of_mem hmem, Option.map_some, if_pos (decide_eq_true hid)]
  · have hnone := find?_update_none (S.claimRow_id t) hid
    dsimp only
    rw [if_neg, h.absent id hnone]
    rintro ⟨-, hdue⟩
    rw [isDue, hnone] at hdue
    cases hdue
  · have hkeeps := h.tried_update (S.claimRow_id t) (fun _ => rfl) hle r' hr'
    obtain ⟨r, hr, rfl⟩ := List.mem_map.1 hr'
    have htried := h.tried r hr
    have hid : (if decide (r.id ∈ sel.map Row.id) = true then S.claimRow t r else r).id = r.id :=
      id_update (p := fun r => r.id ∈ sel.map Row.id) (S.claimRow_id t) r
    dsimp only [Table.update] at hkeeps ⊢
    rw [hid] at hkeeps ⊢
    by_cases hdue : maxItems ≠ 0 ∧ isDue S t b.rows r.id = true
    · -- it is claimed itself, or one no later is
      obtain ⟨a, hmem, hlater⟩ : ∃ a ∈ sel, noLater r a = true := by
        rw [isDue, Table.find?_of_mem hr] at hdue
        exact hsel ▸ exists_mem_selectRows hdue.1 hr hdue.2
      have ha : a ∈ b.rows.rows := (mem_of_mem_selectRows (hsel ▸ hmem)).1
      have hasel : a.id ∈ sel.map Row.id := List.mem_map_of_mem hmem
      have hlta := hlt a ha hasel
      rw [← if_pos (t := S.claimRow t a) (e := a) (decide_eq_true hasel)] at hlta
      have hkind := noLater_update (p := fun r => r.id ∈ sel.map Row.id) (f := S.claimRow t)
        (fun _ => rfl) r
      have hpicked := owed_map_lt (fun c _ => hkind c) hle ha hlater hlta
      have hcount := countP_noLater_update (p := fun r => r.id ∈ sel.map Row.id)
        (f := S.claimRow t) (fun _ => rfl) r b.rows.rows
      rw [if_pos hdue, hcount]
      omega
    · rw [if_neg hdue]
      exact hkeeps

/-- **A row is marked**, which no drain works on or one does. -/
theorem Account.process (h : Account S b) (t : ℕ) (id : ChunkId) :
    Account S { b with
      rows := b.rows.update (fun r => r.id = id) (S.processRow t) (S.processRow_id t) } := by
  have hfind : ∀ {id' r}, b.rows.find? id' = some r → ∃ r',
      (b.rows.update (fun r => r.id = id) (S.processRow t) (S.processRow_id t)).find? id' =
        some r' ∧ r'.attempts = r.attempts ∧ (r.state = .processed → r'.state = .processed) := by
    intro id' r hr
    refine ⟨_, by rw [Table.find?_update, hr, Option.map_some], ?_⟩
    split_ifs
    · exact ⟨rfl, fun _ => rfl⟩
    · exact ⟨rfl, fun hs => hs⟩
  refine ⟨h.lined.update (S.processRow_id t) fun _ => rfl,
    counted_update (S.processRow_id t) h.counted fun r hr hid => ?_, h.distinct, fun item hi => ?_,
    fun id' hid' => ?_, fun id' hid' => h.absent id' (find?_update_none (S.processRow_id t) hid'),
    h.tried_update (S.processRow_id t) (fun _ => rfl) fun a _ => ?_⟩
  · trivial
  · obtain ⟨r, hr, hattempts, hten⟩ := h.items item hi
    obtain ⟨r', hr', hsame, -⟩ := hfind hr
    exact ⟨r', hr', hsame.trans hattempts, hsame ▸ hten⟩
  · obtain ⟨r, hr, hstate⟩ := h.marked id' hid'
    obtain ⟨r', hr', -, hkeep⟩ := hfind hr
    exact ⟨r', hr', hkeep hstate⟩
  · split_ifs
    · exact left_processRow S t b.items a
    · exact le_rfl

/-- The rows that a drain has not begun are others. -/
theorem Account.rest (h : Account S b) {item : Item} {rest : List Item}
    (hitems : b.items = item :: rest) :
    item.id ∉ rest.map Item.id ∧ (rest.map Item.id).Nodup := by
  have hdistinct := h.distinct
  rw [hitems, List.map_cons] at hdistinct
  exact List.nodup_cons.1 hdistinct

/-- **A failure** is counted. -/
theorem Account.fail (h : Account S b) {item : Item} {rest : List Item}
    (hitems : b.items = item :: rest) (t : ℕ) (err : String) :
    Account S { b with
      rows := b.rows.update (fun r => r.id = item.id) (S.failRow t item.attempts err)
        (S.failRow_id t item.attempts err)
      items := rest
      marked := none } := by
  obtain ⟨hnew, hrest⟩ := h.rest hitems
  obtain ⟨r₀, hr₀, hattempts, hten⟩ := h.items item (hitems ▸ List.mem_cons_self ..)
  have hsame : ∀ r ∈ b.rows.rows, r.id = item.id → r = r₀ := by
    intro r hr hid
    have hfind := Table.find?_of_mem hr
    rw [hid, hr₀] at hfind
    exact (Option.some.inj hfind).symm
  refine ⟨h.lined.update (S.failRow_id t item.attempts err) fun _ => rfl,
    counted_update (S.failRow_id t item.attempts err) h.counted fun r hr hid => ?_, hrest,
    fun i hi => ?_, (fun _ hid => nomatch hid),
    fun id hid => h.absent id (find?_update_none (S.failRow_id t item.attempts err) hid),
    h.tried_update (S.failRow_id t item.attempts err) (fun _ => rfl) fun a ha => ?_⟩
  · obtain rfl := hsame r hr (of_decide_eq_true hid)
    rw [← hattempts]
    exact counted_failRow hten
  · obtain ⟨r, hr, hkeep⟩ := h.items i (hitems ▸ List.mem_cons_of_mem _ hi)
    have hne : r.id ≠ item.id := by
      rw [Table.key_of_find? hr]
      exact fun hid => hnew (hid ▸ List.mem_map_of_mem hi)
    refine ⟨r, ?_, hkeep⟩
    dsimp only
    rw [Table.find?_update, hr, Option.map_some, if_neg (by simpa using hne)]
  · rw [hitems]
    split_ifs with heq
    · have heq : a.id = item.id := of_decide_eq_true heq
      obtain rfl := hsame a ha heq
      rw [left_of_mem (r := a) (by rw [heq]; exact List.mem_cons_self ..), ← hattempts]
      exact left_failRow (heq ▸ hnew)
    · rw [left_cons_of_ne (by simpa using heq)]

/-- The rows stay, and a drain works on fewer of them. -/
theorem Account.items_le (h : Account S b) {items : List Item} {k : ℕ}
    (hitems : ∀ item ∈ items, item ∈ b.items) (hdistinct : (items.map Item.id).Nodup)
    (hle : ∀ r ∈ b.rows.rows, left items r ≤ left b.items r + k) :
    Account S { b with items := items, marked := none, stops := b.stops + k } := by
  refine ⟨h.lined, h.counted, hdistinct, fun item hi => h.items item (hitems item hi),
    (fun _ hid => nomatch hid), h.absent, fun r hr => ?_⟩
  have howed := owed_map_le_add (f := id) (p := noLater r) (fun _ _ => rfl) hle
  rw [List.map_id] at howed
  calc b.due r.id + owed (left items) (noLater r) b.rows.rows
      ≤ b.due r.id + owed (left b.items) (noLater r) b.rows.rows +
          k * b.rows.rows.countP (noLater r) := by omega
    _ ≤ (10 + b.stops) * b.rows.rows.countP (noLater r) + k * b.rows.rows.countP (noLater r) :=
        Nat.add_le_add_right (h.tried r hr) _
    _ = (10 + (b.stops + k)) * b.rows.rows.countP (noLater r) := by ring

/-- **A drain is done with a row**, which is marked. -/
theorem Account.leave (h : Account S b) {item : Item} {rest : List Item}
    (hitems : b.items = item :: rest) (hmarked : b.marked = some item.id) :
    Account S { b with items := rest, marked := none } := by
  obtain ⟨hnew, hrest⟩ := h.rest hitems
  refine h.items_le (k := 0) (fun i hi => hitems ▸ List.mem_cons_of_mem _ hi) hrest fun r hr => ?_
  rw [hitems, Nat.add_zero]
  by_cases hid : r.id = item.id
  · obtain ⟨a, ha, hstate⟩ := h.marked item.id hmarked
    have hfind := Table.find?_of_mem hr
    rw [hid, ha] at hfind
    obtain rfl := Option.some.inj hfind
    rw [left_of_notMem (hid ▸ hnew), spare, hstate]
    exact Nat.zero_le _
  · rw [left_cons_of_ne hid]

/-- **A drain is cut off**, and the attempt that it has begun is not counted. -/
theorem Account.stop (h : Account S b) :
    Account S { b with items := [], marked := none, stops := b.stops + 1 } := by
  refine h.items_le (fun i hi => nomatch hi) List.nodup_nil fun r _ => ?_
  rw [left_of_notMem List.not_mem_nil]
  exact spare_le_left b.items r

/-- A drain goes on with its row. -/
theorem Account.unmark (h : Account S b) : Account S { b with marked := none } :=
  h.items_le (k := 0) (fun _ hi => hi) h.distinct fun _ _ => le_rfl

/-- A drain removes the file of a row that is marked. -/
theorem Account.mark (h : Account S b) {id : ChunkId} {r : Row} (hr : b.rows.find? id = some r)
    (hstate : r.state = .processed) : Account S { b with marked := some id } := by
  refine ⟨h.lined, h.counted, h.distinct, h.items, fun id' hid => ?_, h.absent, h.tried⟩
  obtain rfl := Option.some.inj hid
  exact ⟨r, hr, hstate⟩

end Steps

/-! ### What a step does to the rows and to the drains -/

/-- The row whose file a drain removes. -/
def marked : Drain → Option ChunkId
  | .working .unlinking item _ _ => some item.id
  | _ => none

@[simp] theorem marked_next (rest : List Item) (n : ℕ) : marked (.next rest n) = none := by
  cases rest <;> rfl

/-- A step leaves the rows and the drains, inserts a row, or claims; or a drain goes on with its
first row, marks it, is done with it after it was marked or with a failure, or is cut off. -/
inductive Turn (S : Setting) (w : World) (e : Event) (w' : World) : Prop
  | quiet : (∀ c : Served, c.log S e = c) → w'.rows = w.rows → w'.drains = w.drains → Turn S w e w'
  | insert {now : ℕ} {id : ChunkId} {ch : Chunk}
      (hnone : w.rows.find? (S.newRow now id ch).id = none) : (∀ c : Served, c.log S e = c) →
      time e = some now → w'.rows = w.rows.insert (S.newRow now id ch) hnone →
      w'.drains = w.drains → Turn S w e w'
  | claim {d : ℕ} {maxItems : ℤ} {now : ℕ} : e = .claim d maxItems now →
      w' = Outbox.claim S d maxItems now w → Turn S w e w'
  | stay {d : ℕ} {p : Drain} {item : Item} {rest : List Item} : (∀ c : Served, c.log S e = c) →
      (w.drains d).items = item :: rest → p.items = item :: rest → marked p = none →
      w'.rows = w.rows → w'.drains = Function.update w.drains d p → Turn S w e w'
  | mark {d : ℕ} {p : Drain} {item : Item} {rest : List Item} {now : ℕ} :
      (∀ c : Served, c.log S e = c) →
      (w.drains d).items = item :: rest → p.items = item :: rest →
      marked p = none ∨ marked p = some item.id →
      w'.rows = (w.updateRows (fun r => r.id = item.id) (S.processRow now)
        (S.processRow_id now)).rows →
      w'.drains = Function.update w.drains d p → Turn S w e w'
  | leave {d : ℕ} {item : Item} {rest : List Item} {n : ℕ} : (∀ c : Served, c.log S e = c) →
      (w.drains d).items = item :: rest → marked (w.drains d) = some item.id →
      w'.rows = w.rows → w'.drains = Function.update w.drains d (.next rest n) → Turn S w e w'
  | fail {d : ℕ} {item : Item} {rest : List Item} {n : ℕ} {err : String} {now : ℕ} :
      (∀ c : Served, c.log S e = c) → (w.drains d).items = item :: rest →
      w'.rows = (w.updateRows (fun r => r.id = item.id) (S.failRow now item.attempts err)
        (S.failRow_id now item.attempts err)).rows →
      w'.drains = Function.update w.drains d (.next rest n) → Turn S w e w'
  | stop {d : ℕ} : e = .stopDrain d → (w.drains d).items ≠ [] → w'.rows = w.rows →
      w'.drains = Function.update w.drains d .stopped → Turn S w e w'

section Turns

variable {S : Setting} {w w' : World} {e : Event}

/-- A row is inserted. -/
theorem turn_of_insertRow {now : ℕ} {id : ChunkId} {ch : Chunk} {w₁ : World}
    (hlog : ∀ c : Served, c.log S e = c) (htime : time e = some now)
    (h : w.insertRow (S.newRow now id ch) = some w₁) (hrows : w'.rows = w₁.rows)
    (hdrains : w'.drains = w₁.drains) : Turn S w e w' := by
  have hsame := (World.files_insertRow h).2.2.1
  unfold World.insertRow at h
  split_ifs at h with hnone
  obtain rfl := Option.some.inj h
  exact .insert hnone hlog htime hrows (hdrains.trans hsame)

/-- A step of an upload. -/
theorem turn_of_stepUpload {u : ℕ} {p : Upload} (h : stepUpload S w u p e = some w') :
    Turn S w e w' := by
  unfold stepUpload World.draw at h
  cases e with
  | insertRow v now =>
    dsimp only at h
    split at h <;> try cases h
    obtain ⟨w₁, h₁, rfl⟩ := Option.map_eq_some_iff.1 h
    exact turn_of_insertRow (fun _ => rfl) rfl h₁ rfl rfl
  | insertFails v committed unlinked now =>
    dsimp only at h
    split at h <;> try cases h
    obtain ⟨w₁, h₁, rfl⟩ := Option.map_eq_some_iff.1 h
    cases committed with
    | true => cases unlinked <;> exact turn_of_insertRow (fun _ => rfl) rfl h₁ rfl rfl
    | false =>
      obtain rfl := Option.some.inj h₁
      cases unlinked <;> exact .quiet (fun _ => rfl) rfl rfl
  | enqueueChunk v ch id =>
    dsimp only at h
    split at h <;> try cases h
    split_ifs at h <;> cases h
    exact .quiet (fun _ => rfl) rfl rfl
  | secondaryRefuses v id =>
    dsimp only at h
    split at h <;> try cases h
    split_ifs at h <;> cases h
    exact .quiet (fun _ => rfl) rfl rfl
  | stageFile v =>
    dsimp only at h
    split at h <;> try cases h
    split_ifs at h
    cases h
    exact .quiet (fun _ => rfl) rfl rfl
  | uploadChunk | uploaderAccepts | primaryRefuses | abandonFile | enqueued | stopUpload =>
    dsimp only at h
    split at h <;> cases h
    all_goals exact .quiet (fun _ => rfl) rfl rfl
  | _ => cases h

/-- A step of a drain on a row. -/
theorem turn_of_stepDrain {d : ℕ} {stage : Stage} {item : Item} {rest : List Item} {n : ℕ}
    (hd : w.drains d = .working stage item rest n) (he : e.party = .inr d)
    (h : stepDrain S w d stage item rest n e = some w') : Turn S w e w' := by
  have hitems : (w.drains d).items = item :: rest := by rw [hd]; rfl
  unfold stepDrain at h
  cases e with
  | readFile v =>
    dsimp only at h
    split at h <;> try cases h
    split at h <;> cases h
    all_goals exact .stay (fun _ => rfl) hitems rfl rfl rfl rfl
  | readFails | drainAccepts | drainRefuses | unlinkFails =>
    dsimp only at h
    split at h <;> cases h
    exact .stay (fun _ => rfl) hitems rfl rfl rfl rfl
  | markProcessed v now =>
    dsimp only at h
    split at h <;> cases h
    exact .mark (fun _ => rfl) hitems rfl (.inr rfl) rfl rfl
  | markFails v committed now =>
    dsimp only at h
    split at h <;> cases h
    cases committed with
    | true => exact .mark (fun _ => rfl) hitems rfl (.inl rfl) rfl rfl
    | false => exact .stay (fun _ => rfl) hitems rfl rfl rfl rfl
  | unlinkFile v =>
    dsimp only at h
    split at h <;> cases h
    exact .leave (fun _ => rfl) hitems (by rw [hd]; rfl) rfl rfl
  | recordFailure v err now =>
    dsimp only at h
    split at h <;> cases h
    exact .fail (fun _ => rfl) hitems rfl rfl
  | stopDrain v =>
    obtain rfl : v = d := Sum.inr.inj he
    cases h
    exact .stop rfl (by rw [hitems]; exact List.cons_ne_nil _ _) rfl rfl
  | _ => cases h

/-- **Every step is such a turn.** -/
theorem turn_of_step (h : Outbox.step S w e = some w') : Turn S w e w' := by
  unfold Outbox.step at h
  split at h
  · exact turn_of_stepUpload h
  · rename_i d hparty
    split at h
    · split at h <;> cases h
      obtain rfl := Sum.inr.inj hparty
      exact .claim rfl rfl
    · rename_i stage item rest n hd
      exact turn_of_stepDrain hd hparty h
    · cases h

end Turns

/-! ### Runs -/

/-- The books of a state. -/
def Served.books (c : Served) : Books where
  now := c.clocked.now
  rows := c.clocked.world.rows
  items := (c.clocked.world.drains c.drainer).items
  marked := marked (c.clocked.world.drains c.drainer)
  due := c.due
  stops := c.stops

/-- Only the drain that has claimed last works, and the books are in order. -/
structure Orderly (S : Setting) (c : Served) : Prop where
  others : ∀ d, d ≠ c.drainer → (c.clocked.world.drains d).items = []
  account : Account S c.books

theorem orderly_init (S : Setting) (start : ℕ) : Orderly S (.init start) where
  others _ _ := rfl
  account :=
    { lined := ⟨List.Pairwise.nil, fun _ hr => nomatch hr⟩
      counted := fun _ hr => nomatch hr
      distinct := List.nodup_nil
      items := fun _ hi => nomatch hi
      marked := fun _ hid => nomatch hid
      absent := fun _ _ => rfl
      tried := fun _ hr => nomatch hr }

section Runs

variable {S : Setting} {c c' : Served} {e : Event}

/-- A drain that works is the one that has claimed last. -/
theorem Orderly.eq_drainer (h : Orderly S c) {d : ℕ} (hd : (c.clocked.world.drains d).items ≠ []) :
    d = c.drainer := by
  by_contra hne
  exact hd (h.others d hne)

/-- **One step** while drains come one after another. -/
theorem Orderly.step (hutc : Monotone S.utc) (h : Orderly S c) (halone : Alone c e)
    (hstep : step S c e = some c') : Orderly S c' := by
  obtain ⟨k, hk, rfl⟩ := Option.map_eq_some_iff.1 hstep
  obtain ⟨hnow, w, hw, rfl⟩ := exists_of_step hk
  have haccount := h.account.tick hnow
  -- the drain that has claimed last is somewhere else, and no other works
  have hothers : ∀ {p : Drain}, w.drains = Function.update c.clocked.world.drains c.drainer p →
      ∀ d, d ≠ c.drainer → (w.drains d).items = [] := by
    intro p hdrains d hd
    rw [hdrains, Function.update_of_ne hd]
    exact h.others d hd
  cases turn_of_step hw with
  | quiet hlog hrows hdrains =>
    rw [hlog]
    refine ⟨fun d hd => hdrains ▸ h.others d hd, ?_⟩
    simp only [Served.books, hrows, hdrains]
    exact haccount
  | insert hnone hlog htime hrows hdrains =>
    rw [hlog]
    refine ⟨fun d hd => hdrains ▸ h.others d hd, ?_⟩
    simp only [Served.books, hrows, hdrains]
    refine haccount.insert hutc ?_ ?_ hnone
    · rw [htime]
      rfl
    · exact Nat.zero_le _
  | @claim d maxItems now he hw' =>
    subst he hw'
    have hidle := halone d maxItems now rfl
    refine ⟨fun d' hd' => ?_, ?_⟩
    · have hne : d' ≠ d := hd'
      show (Function.update c.clocked.world.drains d _ d').items = []
      rw [Function.update_of_ne hne]
      exact hidle d'
    · have hclaimed := haccount.claim (hidle c.drainer) now maxItems
      simp only [Served.books, Served.log, Outbox.claim, World.setDrain_drains,
        Function.update_self, Drain.items_next, marked_next] at hclaimed ⊢
      exact hclaimed
  | stay hlog hitems hp hmarked hrows hdrains =>
    rw [hlog]
    obtain rfl := h.eq_drainer (by rw [hitems]; exact List.cons_ne_nil _ _)
    refine ⟨hothers hdrains, ?_⟩
    have hstay := haccount.unmark
    simp only [Served.books, hrows, hdrains, Function.update_self, hp, hmarked] at hstay ⊢
    rwa [hitems] at hstay
  | @mark d p item rest now hlog hitems hp hmarked hrows hdrains =>
    rw [hlog]
    obtain rfl := h.eq_drainer (by rw [hitems]; exact List.cons_ne_nil _ _)
    refine ⟨hothers hdrains, ?_⟩
    have hmem : item ∈ (c.clocked.world.drains c.drainer).items :=
      hitems ▸ List.mem_cons_self ..
    obtain ⟨r, hr, -⟩ := h.account.items item hmem
    have hr : c.clocked.world.rows.find? item.id = some r := hr
    have hfind : (c.clocked.world.rows.update (fun r => r.id = item.id) (S.processRow now)
        (S.processRow_id now)).find? item.id = some (S.processRow now r) := by
      rw [Table.find?_update_key, if_pos rfl, hr, Option.map_some]
    have hprocessed := haccount.process now item.id
    have hmark : Account S { c.books with
        now := (time e).getD c.clocked.now
        rows := c.clocked.world.rows.update (fun r => r.id = item.id) (S.processRow now)
          (S.processRow_id now)
        marked := marked p } := by
      rcases hmarked with hnone | hsome
      · rw [hnone]
        exact hprocessed.unmark
      · rw [hsome]
        exact hprocessed.mark hfind rfl
    simp only [Served.books, hrows, hdrains, Function.update_self, hp] at hmark ⊢
    rwa [hitems] at hmark
  | leave hlog hitems hmarked hrows hdrains =>
    rw [hlog]
    obtain rfl := h.eq_drainer (by rw [hitems]; exact List.cons_ne_nil _ _)
    refine ⟨hothers hdrains, ?_⟩
    have hleave := haccount.leave hitems hmarked
    simp only [Served.books, hrows, hdrains, Function.update_self, Drain.items_next,
      marked_next] at hleave ⊢
    exact hleave
  | @fail d item rest n err now hlog hitems hrows hdrains =>
    rw [hlog]
    obtain rfl := h.eq_drainer (by rw [hitems]; exact List.cons_ne_nil _ _)
    refine ⟨hothers hdrains, ?_⟩
    have hfail := haccount.fail hitems now err
    simp only [Served.books, hrows, hdrains, Function.update_self, Drain.items_next,
      marked_next] at hfail ⊢
    exact hfail
  | stop he hitems hrows hdrains =>
    subst he
    obtain rfl := h.eq_drainer hitems
    refine ⟨hothers hdrains, ?_⟩
    have hstop := haccount.stop
    simp only [Served.books, Served.log, hrows, hdrains, Function.update_self] at hstop ⊢
    exact hstop

/-- On a host with a fixed offset, later times are later there too. -/
theorem monotone_utc (offset : ℤ) (keyTag : String → String) :
    Monotone (host offset keyTag).utc := by
  intro s t h
  exact Int.toNat_le_toNat (Int.sub_le_sub_right (Int.ofNat_le.2 h) _)

/-- **What is left of a row.**  A row that has nothing left is `PROCESSED`, or it is a dead
letter of ten attempts, or the drain makes the tenth. -/
theorem Account.of_left_eq_zero {b : Books} (h : Account S b) {r : Row} (hr : r ∈ b.rows.rows)
    (hleft : left b.items r = 0) : r.state = .processed ∨
      (r.state = .deadLetter ∧ r.attempts = 10) ∨
      ∃ item ∈ b.items, item.id = r.id ∧ item.attempts = 9 := by
  have hcounted := h.counted r hr
  unfold Counted at hcounted
  by_cases hid : r.id ∈ b.items.map Item.id
  · obtain ⟨item, hi, hitem⟩ := List.mem_map.1 hid
    obtain ⟨a, ha, hattempts, hten⟩ := h.items item hi
    have hfind := Table.find?_of_mem hr
    rw [← hitem, ha] at hfind
    obtain rfl := Option.some.inj hfind
    rw [left_of_mem hid] at hleft
    exact .inr (.inr ⟨item, hi, hitem, by omega⟩)
  · rw [left_of_notMem hid, spare] at hleft
    cases hs : r.state with
    | processed => exact .inl rfl
    | deadLetter =>
      rw [hs] at hcounted
      exact .inr (.inl ⟨rfl, hcounted⟩)
    | pending | draining =>
      rw [hs] at hcounted hleft
      dsimp only at hcounted hleft
      omega

end Runs

/-- **No row starves.**  In a run of any number of uploads, and of drains one after another, let
`n` rows have been created no later than a row: then it is found due by at most `10 * n` claims,
and by `n` more for each drain that is cut off.  When it has been found due so often, it is
`PROCESSED`, or a dead letter of ten attempts, or its tenth attempt is being made.  Of the rows
behind it in the table, those count that were created in the same millisecond. -/
theorem overtaken (offset : ℤ) (keyTag : String → String) (scan : Scan) (start : ℕ) {c : Served}
    (h : Reach (step { host offset keyTag with scan }) Alone (.init start) c) {i : ℕ} {r : Row}
    (hr : c.clocked.world.rows.rows[i]? = some r) :
    c.due r.id ≤ (10 + c.stops) * c.clocked.world.rows.rows.countP (noLater r) ∧
      (c.due r.id = (10 + c.stops) * c.clocked.world.rows.rows.countP (noLater r) →
        r.state = .processed ∨ (r.state = .deadLetter ∧ r.attempts = 10) ∨
          ∃ d, ∃ item ∈ (c.clocked.world.drains d).items, item.id = r.id ∧ item.attempts = 9) ∧
      ∀ j a, i < j → c.clocked.world.rows.rows[j]? = some a → noLater r a = true →
        a.createdAt = r.createdAt := by
  have hutc : Monotone { host offset keyTag with scan }.utc := monotone_utc offset keyTag
  have horderly := h.invariant (orderly_init _ start)
    fun _ _ _ hs halone hstep => hs.step hutc halone hstep
  have hmem := List.mem_of_getElem? hr
  have htried : c.due r.id + owed (left (c.clocked.world.drains c.drainer).items) (noLater r)
      c.clocked.world.rows.rows ≤
      (10 + c.stops) * c.clocked.world.rows.rows.countP (noLater r) :=
    horderly.account.tried r hmem
  refine ⟨(Nat.le_add_right ..).trans htried, fun heq => ?_, fun j a hij ha hlater => ?_⟩
  · have hleft := left_le_owed (left (c.clocked.world.drains c.drainer).items) hmem (noLater_self r)
    have hnone : left c.books.items r = 0 := by
      refine Nat.le_zero.1 (hleft.trans ?_)
      omega
    exact (horderly.account.of_left_eq_zero hmem hnone).imp_right
      (Or.imp_right fun ⟨item, hi, hitem⟩ => ⟨c.drainer, item, hi, hitem⟩)
  · obtain ⟨hi, rfl⟩ := List.getElem?_eq_some_iff.1 hr
    obtain ⟨hj, rfl⟩ := List.getElem?_eq_some_iff.1 ha
    exact Stamp.le_antisymm hlater
      (List.pairwise_iff_getElem.1 horderly.account.lined.created i j hi hj hij)

/-- The rows of one time are read from the last one on. -/
def lastFirst : Scan := ⟨fun _ rows => rows.reverse, fun _ rows => rows.reverse_perm⟩

/-- Of two rows of one millisecond a claim takes the second, and finds the first one due. -/
theorem overtaken_lastFirst : ∃ (c : Served) (r : Row), c.clocked.world.rows.rows[0]? = some r ∧
    r.id = 7 ∧ ((c.clocked.world.drains 0).items.map Item.id, c.due 7) = ([8], 1) ∧
    c.clocked.world.rows.rows.countP (noLater r) = 2 ∧
    c.due r.id ≤ (10 + c.stops) * c.clocked.world.rows.rows.countP (noLater r) := by
  have hrun : Reach (step { host 0 plainSetting.keyTag with scan := lastFirst }) Alone
      (.init 0) _ :=
    ((((((Reach.refl.tail (e := .enqueueChunk 0 sampleChunk 7) (fun _ _ _ h => nomatch h) rfl).tail
      (e := .stageFile 0) (fun _ _ _ h => nomatch h) rfl).tail
      (e := .insertRow 0 1000) (fun _ _ _ h => nomatch h) rfl).tail
      (e := .enqueueChunk 1 sampleChunk 8) (fun _ _ _ h => nomatch h) rfl).tail
      (e := .stageFile 1) (fun _ _ _ h => nomatch h) rfl).tail
      (e := .insertRow 1 1000) (fun _ _ _ h => nomatch h) rfl).tail
      (e := .claim 0 1 2000) (fun _ _ _ _ _ => rfl) rfl
  exact ⟨_, _, rfl, rfl, rfl, rfl, (overtaken (i := 0) 0 plainSetting.keyTag lastFirst 0 hrun rfl).1⟩

end Service
end Boveda

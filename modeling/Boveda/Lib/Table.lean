/-
# Tables with a primary key

A table is the list of its rows, in the order they were inserted, together with
the proof that no two rows have the same key, so a table that violates its
primary key cannot be built.  The operations are those of a relational store:
`find?` (`SELECT … WHERE key = k`), `insert` (which needs the key to be free),
`update` (`UPDATE … WHERE p`, for an assignment that leaves the key alone) and
`delete` (`DELETE … WHERE p`).

Each operation is described by what it does to `find?`; two tables of this kind
are used by their lookups, and only the counting lemmas `countP_insert` and
`countP_delete_key` look at the rows.
-/

import Mathlib.Tactic.Common
import Mathlib.Data.List.Nodup
import Mathlib.Data.List.Count

namespace Boveda
namespace Lib

/-- A list of rows with pairwise different keys. -/
structure Table (ρ : Type*) {κ : Type*} (key : ρ → κ) where
  rows : List ρ
  nodup : (rows.map key).Nodup

namespace Table

variable {ρ κ : Type*} {key : ρ → κ}

/-- The table without rows. -/
def empty : Table ρ key := ⟨[], List.nodup_nil⟩

/-- Apply `f`, which keeps the key, to the rows that meet `p`. -/
def update (t : Table ρ key) (p : ρ → Bool) (f : ρ → ρ) (hf : ∀ r, key (f r) = key r) :
    Table ρ key where
  rows := t.rows.map fun r => if p r then f r else r
  nodup := by
    have : key ∘ (fun r => if p r then f r else r) = key := by
      funext r
      by_cases h : p r <;> simp [h, hf]
    rw [List.map_map, this]
    exact t.nodup

/-- Remove the rows that meet `p`. -/
def delete (t : Table ρ key) (p : ρ → Bool) : Table ρ key where
  rows := t.rows.filter fun r => !p r
  nodup := t.nodup.sublist (List.filter_sublist.map key)

theorem mem_delete {t : Table ρ key} {p : ρ → Bool} {a : ρ} :
    a ∈ (t.delete p).rows ↔ a ∈ t.rows ∧ p a = false := by
  simp [delete]

variable [DecidableEq κ]

/-- The row with key `k`. -/
def find? (t : Table ρ key) (k : κ) : Option ρ := t.rows.find? fun r => key r = k

theorem key_of_find? {t : Table ρ key} {k : κ} {r : ρ} (h : t.find? k = some r) : key r = k := by
  simpa using List.find?_some h

theorem mem_of_find? {t : Table ρ key} {k : κ} {r : ρ} (h : t.find? k = some r) : r ∈ t.rows :=
  List.mem_of_find?_eq_some h

/-- **A row is found under its own key**, as no other row has it. -/
theorem find?_of_mem {t : Table ρ key} {r : ρ} (h : r ∈ t.rows) : t.find? (key r) = some r := by
  obtain ⟨rows, hnd⟩ := t
  unfold find?
  induction rows with
  | nil => simp at h
  | cons a rows ih =>
    obtain ⟨ha, hnd'⟩ := List.nodup_cons.1 hnd
    rcases List.mem_cons.1 h with rfl | hr
    · simp
    · have hne : key a ≠ key r := fun he => ha (he ▸ List.mem_map_of_mem hr)
      simpa [List.find?_cons, hne] using ih hnd' hr

theorem find?_eq_none {t : Table ρ key} {k : κ} : t.find? k = none ↔ ∀ r ∈ t.rows, key r ≠ k := by
  simp [find?]

/-- Add a row under a free key. -/
def insert (t : Table ρ key) (r : ρ) (h : t.find? (key r) = none) : Table ρ key where
  rows := t.rows ++ [r]
  nodup := by
    rw [List.map_append, List.map_singleton, List.nodup_append]
    refine ⟨t.nodup, List.nodup_singleton _, fun k hk b hb => ?_⟩
    obtain ⟨a, ha, rfl⟩ := List.mem_map.1 hk
    rw [List.mem_singleton.1 hb]
    exact find?_eq_none.1 h a ha

theorem find?_insert (t : Table ρ key) (r : ρ) (h : t.find? (key r) = none) (k : κ) :
    (t.insert r h).find? k = if key r = k then some r else t.find? k := by
  split_ifs with hk
  · subst hk
    exact find?_of_mem (by simp [insert])
  · simp [find?, insert, List.find?_append, hk]

theorem mem_insert {t : Table ρ key} {r : ρ} (h : t.find? (key r) = none) {a : ρ} :
    a ∈ (t.insert r h).rows ↔ a ∈ t.rows ∨ a = r := by
  simp [insert]

theorem find?_update (t : Table ρ key) (p : ρ → Bool) (f : ρ → ρ) (hf : ∀ r, key (f r) = key r)
    (k : κ) : (t.update p f hf).find? k = (t.find? k).map fun r => if p r then f r else r := by
  have : (fun r => decide (key r = k)) ∘ (fun r => if p r then f r else r) =
      fun r => decide (key r = k) := by
    funext r
    by_cases h : p r <;> simp [h, hf]
  simp only [find?, update, List.find?_map, this]

/-- An update of the row with key `k₀`, seen from key `k`. -/
theorem find?_update_key (t : Table ρ key) (k₀ k : κ) (f : ρ → ρ) (hf : ∀ r, key (f r) = key r) :
    (t.update (fun r => key r = k₀) f hf).find? k =
      if k₀ = k then (t.find? k).map f else t.find? k := by
  rw [find?_update]
  cases hk : t.find? k with
  | none => simp
  | some r =>
    have := key_of_find? hk
    by_cases hh : k₀ = k
    · simp [hh, this]
    · simp [hh, this, Ne.symm hh]

theorem find?_delete (t : Table ρ key) (p : ρ → Bool) (k : κ) :
    (t.delete p).find? k = (t.find? k).filter fun r => !p r := by
  cases h : (t.delete p).find? k with
  | some r =>
    have hr := mem_delete.1 (mem_of_find? h)
    have := find?_of_mem hr.1
    rw [key_of_find? h] at this
    simp [this, Option.filter_some, hr.2]
  | none =>
    cases h' : t.find? k with
    | none => rfl
    | some r =>
      have hne := find?_eq_none.1 h r
      rw [mem_delete] at hne
      have hp : p r = true := by
        by_contra hp
        exact hne ⟨mem_of_find? h', by simpa using hp⟩ (key_of_find? h')
      simp [Option.filter_some, hp]

/-- Inserting a row adds it to the rows counted by `q`. -/
theorem countP_insert (t : Table ρ key) (r : ρ) (h : t.find? (key r) = none) (q : ρ → Bool) :
    (t.insert r h).rows.countP q = t.rows.countP q + if q r then 1 else 0 := by
  simp [insert, List.countP_append, List.countP_singleton]

/-- Deleting the row with key `k` takes it off the rows counted by `q`. -/
theorem countP_delete_key (t : Table ρ key) {k : κ} {r : ρ} (h : t.find? k = some r)
    (q : ρ → Bool) : (t.delete fun a => key a = k).rows.countP q + (if q r then 1 else 0) =
      t.rows.countP q := by
  obtain ⟨rows, hnd⟩ := t
  simp only [find?, delete] at h ⊢
  induction rows with
  | nil => simp at h
  | cons a rows ih =>
    obtain ⟨ha, hnd'⟩ := List.nodup_cons.1 hnd
    by_cases hk : key a = k
    · have hra : a = r := by simpa [List.find?_cons, hk] using h
      subst hra
      have hall : rows.filter (fun b => !decide (key b = k)) = rows := by
        rw [List.filter_eq_self]
        intro b hb
        have : key b ≠ k := fun he => ha (hk ▸ he ▸ List.mem_map_of_mem hb)
        simpa using this
      simp [hk, hall, List.countP_cons]
    · have h' : rows.find? (fun b => decide (key b = k)) = some r := by
        simpa [List.find?_cons, hk] using h
      have := ih hnd' h'
      simp only [List.filter_cons, hk, decide_false, Bool.not_false, if_true, List.countP_cons]
      omega

end Table

end Lib
end Boveda

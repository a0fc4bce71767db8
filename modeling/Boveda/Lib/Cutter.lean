/-
# Cutting a stream into chunks as it arrives

A `Cutter` looks at the front of what has arrived of a stream and either finds
the end of the first chunk or asks for more.  Its answer must not change when
more arrives (`stable`); that alone makes the chunks of a stream independent of
the pieces it arrives in (`drain_append`).
-/

import Mathlib.Tactic.Common

namespace Boveda
namespace Lib

/-- Finds the first chunk of a stream, `none` when it has to see more. -/
structure Cutter (α : Type*) where
  cut : List α → Option ℕ
  pos : ∀ {s n}, cut s = some n → 0 < n
  le : ∀ {s n}, cut s = some n → n ≤ s.length
  stable : ∀ {s n} t, cut s = some n → cut (s ++ t) = some n

namespace Cutter

variable {α : Type*} (C : Cutter α)

/-- The chunks that are complete, and what is left over. -/
def drain (s : List α) : List (List α) × List α :=
  match _h : C.cut s with
  | none => ([], s)
  | some n =>
    let (chunks, rest) := drain (s.drop n)
    (s.take n :: chunks, rest)
termination_by s.length
decreasing_by
  have := C.pos _h
  have := C.le _h
  rw [List.length_drop]
  omega

/-- The chunks of a stream that is over: what is left over is the last one. -/
def finish (s : List α) : List (List α) :=
  (C.drain s).1 ++ if (C.drain s).2 = [] then [] else [(C.drain s).2]

variable {C} {s : List α}

theorem drain_of_none (h : C.cut s = none) : C.drain s = ([], s) := by
  rw [drain]
  split
  · rfl
  · next h' => rw [h] at h'; cases h'

theorem drain_of_some {n : ℕ} (h : C.cut s = some n) :
    C.drain s = (s.take n :: (C.drain (s.drop n)).1, (C.drain (s.drop n)).2) := by
  rw [drain]
  split
  · next h' => rw [h] at h'; cases h'
  · next m h' =>
    obtain rfl : n = m := Option.some.inj (h.symm.trans h')
    rfl

theorem cut_nil : C.cut [] = none := by
  cases h : C.cut [] with
  | none => rfl
  | some n => exact absurd (C.pos h) (Nat.not_lt.2 (C.le h))

@[simp] theorem drain_nil : C.drain [] = ([], []) := drain_of_none cut_nil

@[simp] theorem finish_nil : C.finish [] = [] := by simp [finish]

/-- No byte is lost. -/
theorem flatten_drain (s : List α) : (C.drain s).1.flatten ++ (C.drain s).2 = s := by
  induction s using drain.induct C with
  | case1 s h => rw [drain_of_none h]; rfl
  | case2 s n h chunks rest heq ih =>
    rw [drain_of_some h, List.flatten_cons, List.append_assoc, ih, List.take_append_drop]

/-- **The chunks make up the stream.** -/
theorem flatten_finish (s : List α) : (C.finish s).flatten = s := by
  conv_rhs => rw [← flatten_drain (C := C) s]
  unfold finish
  split_ifs with h <;> simp [h]

/-- **The chunks do not depend on the pieces** the stream arrives in: cutting what
has arrived and then the rest together with what arrives is cutting it all. -/
theorem drain_append (s t : List α) : C.drain (s ++ t) =
    ((C.drain s).1 ++ (C.drain ((C.drain s).2 ++ t)).1, (C.drain ((C.drain s).2 ++ t)).2) := by
  induction s using drain.induct C with
  | case1 s h => rw [drain_of_none h, List.nil_append]
  | case2 s n h chunks rest heq ih =>
    rw [drain_of_some (C.stable t h), drain_of_some h, List.drop_append_of_le_length (C.le h), ih,
      List.take_append_of_le_length (C.le h)]
    rfl

theorem finish_append (s t : List α) :
    C.finish (s ++ t) = (C.drain s).1 ++ C.finish ((C.drain s).2 ++ t) := by
  rw [finish, finish, drain_append, List.append_assoc]

/-- What the end of the stream adds to a chunk that is complete. -/
theorem finish_of_some {n : ℕ} (h : C.cut s = some n) :
    C.finish s = s.take n :: C.finish (s.drop n) := by
  rw [finish, finish, drain_of_some h, List.cons_append]

theorem finish_of_none (h : C.cut s = none) (hs : s ≠ []) : C.finish s = [s] := by
  rw [finish, drain_of_none h]
  simp [hs]

/-- Nothing can be cut from what is left over. -/
theorem cut_drain_snd (s : List α) : C.cut (C.drain s).2 = none := by
  induction s using drain.induct C with
  | case1 s hcut => rwa [drain_of_none hcut]
  | case2 s n hcut chunks rest heq ih => rwa [drain_of_some hcut]

/-- A complete chunk is the first one of some stream. -/
theorem exists_cut_of_mem_drain {c : List α} (h : c ∈ (C.drain s).1) :
    ∃ t n, C.cut t = some n ∧ c = t.take n := by
  induction s using drain.induct C with
  | case1 s hcut =>
    rw [drain_of_none hcut] at h
    cases h
  | case2 s n hcut chunks rest heq ih =>
    rw [drain_of_some hcut] at h
    rcases List.mem_cons.1 h with rfl | h
    · exact ⟨s, n, hcut, rfl⟩
    · exact ih h

/-- No chunk is empty. -/
theorem ne_nil_of_mem_finish {c : List α} (h : c ∈ C.finish s) : c ≠ [] := by
  rcases List.mem_append.1 h with h | h
  · obtain ⟨t, n, hcut, rfl⟩ := exists_cut_of_mem_drain h
    have hpos := C.pos hcut
    have hlen : (t.take n).length = n := List.length_take_of_le (C.le hcut)
    intro hnil
    rw [hnil, List.length_nil] at hlen
    omega
  · split_ifs at h with hrest
    · cases h
    · rwa [List.mem_singleton.1 h]

/-- All chunks but the last are complete. -/
theorem exists_cut_of_mem_dropLast_finish {c : List α} (h : c ∈ (C.finish s).dropLast) :
    ∃ t n, C.cut t = some n ∧ c = t.take n := by
  unfold finish at h
  split_ifs at h with hrest
  · rw [List.append_nil] at h
    exact exists_cut_of_mem_drain (List.dropLast_subset _ h)
  · rw [List.dropLast_concat] at h
    exact exists_cut_of_mem_drain h

/-- **A cut forgets what is before it.**  The chunks after the first few are those of
the stream without the bytes of these. -/
theorem finish_eq_append {before rest : List (List α)} (h : C.finish s = before ++ rest) :
    rest = C.finish (s.drop before.flatten.length) := by
  induction before generalizing s with
  | nil => exact h.symm
  | cons chunk before ih =>
    cases hcut : C.cut s with
    | none =>
      by_cases hs : s = []
      · rw [hs, finish_nil] at h
        cases h
      · rw [finish_of_none hcut hs, List.cons_append] at h
        obtain ⟨rfl, hnil⟩ := List.cons.inj h
        obtain ⟨rfl, rfl⟩ := List.append_eq_nil_iff.1 hnil.symm
        simp
    | some n =>
      rw [finish_of_some hcut, List.cons_append] at h
      obtain ⟨rfl, hrest⟩ := List.cons.inj h
      rw [ih hrest, List.drop_drop, List.flatten_cons, List.length_append,
        List.length_take_of_le (C.le hcut)]

end Cutter

end Lib
end Boveda

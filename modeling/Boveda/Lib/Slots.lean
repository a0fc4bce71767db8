/-
# What is kept of a growing list

A `Policy` has slots.  A slot picks at most one element of a list, and each moment has a
window of slots; what the slots of the window pick is kept, the rest is dropped.  When a slot
goes on picking an element in every sublist that still has it, and a slot that has picked
an element of the past never comes into the window later, then dropping at every moment
keeps the same as dropping once, at the last (`Policy.keep_keep_append`,
`Policy.present_eq`).

Slots that pick the first or the last element of a class, by a stable sort (`IsFirst`,
`IsLast`), are of this kind.
-/

import Mathlib.Data.List.Induction
import Mathlib.Data.List.Sort
import Mathlib.Tactic.Common

namespace Boveda
namespace Lib

/-! ### The first and the last of a list -/

section

variable {α κ : Type*} [LinearOrder κ] (key : α → κ)

/-- A stable sort. -/
def sortBy (l : List α) : List α := l.insertionSort fun a b => key a ≤ key b

/-- `a` has the smallest key, and is the first that has it. -/
def IsFirst (l : List α) (a : α) : Prop :=
  ∃ before after, l = before ++ a :: after ∧ (∀ b ∈ before, key a < key b) ∧
    ∀ b ∈ after, key a ≤ key b

/-- `a` has the largest key, and is the last that has it. -/
def IsLast (l : List α) (a : α) : Prop :=
  ∃ before after, l = before ++ a :: after ∧ (∀ b ∈ before, key b ≤ key a) ∧
    ∀ b ∈ after, key b < key a

variable {key} {l l' : List α} {a c : α}

theorem IsFirst.mem (h : IsFirst key l a) : a ∈ l := by
  obtain ⟨before, after, rfl, -, -⟩ := h
  simp

theorem IsFirst.le (h : IsFirst key l a) {b : α} (hb : b ∈ l) : key a ≤ key b := by
  obtain ⟨before, after, rfl, hbefore, hafter⟩ := h
  rcases List.mem_append.1 hb with hb | hb
  · exact (hbefore b hb).le
  · rcases List.mem_cons.1 hb with rfl | hb
    · exact le_rfl
    · exact hafter b hb

theorem isFirst_cons : IsFirst key (c :: l) a ↔
    (a = c ∧ ∀ b ∈ l, key c ≤ key b) ∨ (IsFirst key l a ∧ key a < key c) := by
  constructor
  · rintro ⟨before, after, heq, hbefore, hafter⟩
    cases before with
    | nil =>
      obtain ⟨rfl, rfl⟩ := List.cons.inj heq
      exact .inl ⟨rfl, hafter⟩
    | cons b before =>
      obtain ⟨rfl, rfl⟩ := List.cons.inj heq
      exact .inr ⟨⟨before, after, rfl, fun b hb => hbefore b (List.mem_cons_of_mem _ hb), hafter⟩,
        hbefore c (List.mem_cons_self ..)⟩
  · rintro (⟨rfl, hle⟩ | ⟨⟨before, after, rfl, hbefore, hafter⟩, hlt⟩)
    · exact ⟨[], l, rfl, fun _ hb => (List.not_mem_nil hb).elim, hle⟩
    · refine ⟨c :: before, after, rfl, fun b hb => ?_, hafter⟩
      rcases List.mem_cons.1 hb with rfl | hb
      · exact hlt
      · exact hbefore b hb

theorem isLast_iff_isFirst_reverse :
    IsLast key l a ↔ IsFirst (fun b => OrderDual.toDual (key b)) l.reverse a := by
  constructor
  · rintro ⟨before, after, rfl, hbefore, hafter⟩
    exact ⟨after.reverse, before.reverse, by simp, fun b hb => hafter b (List.mem_reverse.1 hb),
      fun b hb => hbefore b (List.mem_reverse.1 hb)⟩
  · rintro ⟨before, after, heq, hbefore, hafter⟩
    refine ⟨after.reverse, before.reverse, ?_, fun b hb => hafter b (List.mem_reverse.1 hb),
      fun b hb => hbefore b (List.mem_reverse.1 hb)⟩
    rw [← l.reverse_reverse, heq]
    simp

theorem IsLast.mem (h : IsLast key l a) : a ∈ l :=
  List.mem_reverse.1 (isLast_iff_isFirst_reverse.1 h).mem

/-- In a list without repetitions, the first element is the first of every sublist that
has it. -/
theorem IsFirst.of_sublist (hnodup : l.Nodup) (h : IsFirst key l a) (hsub : l'.Sublist l)
    (ha : a ∈ l') : IsFirst key l' a := by
  obtain ⟨before, after, rfl, hbefore, hafter⟩ := h
  obtain ⟨l₁, l₂, rfl, h₁, h₂⟩ := List.sublist_append_iff.1 hsub
  have hnot : a ∉ after := (List.nodup_cons.1 (List.nodup_append.1 hnodup).2.1).1
  have hnot₁ : a ∉ l₁ := fun hmem => lt_irrefl _ (hbefore a (h₁.subset hmem))
  have ha₂ : a ∈ l₂ := (List.mem_append.1 ha).resolve_left hnot₁
  cases h₂ with
  | cons _ h₂ => exact absurd (h₂.subset ha₂) hnot
  | cons_cons _ h₂ =>
    exact ⟨l₁, _, rfl, fun b hb => hbefore b (h₁.subset hb), fun b hb => hafter b (h₂.subset hb)⟩

theorem IsLast.of_sublist (hnodup : l.Nodup) (h : IsLast key l a) (hsub : l'.Sublist l)
    (ha : a ∈ l') : IsLast key l' a :=
  isLast_iff_isFirst_reverse.2 ((isLast_iff_isFirst_reverse.1 h).of_sublist
    (List.nodup_reverse.2 hnodup) hsub.reverse (List.mem_reverse.2 ha))

theorem head?_orderedInsert (r : α → α → Prop) [DecidableRel r] (l : List α) (a : α) :
    (l.orderedInsert r a).head? = some (match l.head? with
      | none => a
      | some b => if r a b then a else b) := by
  cases l with
  | nil => rfl
  | cons b l =>
    rw [List.orderedInsert_cons]
    split_ifs with h <;> simp [h]

theorem getLast?_orderedInsert {l : List α} (hsorted : l.Pairwise fun a b => key a ≤ key b)
    (a : α) : (l.orderedInsert (fun a b => key a ≤ key b) a).getLast? = some (match l.getLast? with
      | none => a
      | some b => if key a ≤ key b then b else a) := by
  induction l with
  | nil => rfl
  | cons b l ih =>
    obtain ⟨hb, hsorted⟩ := List.pairwise_cons.1 hsorted
    rw [List.orderedInsert_cons, List.getLast?_cons]
    split_ifs with hab
    · -- what `a` precedes, the last element follows
      rw [List.getLast?_cons, List.getLast?_cons, Option.getD_some]
      have hle : key a ≤ key (l.getLast?.getD b) := by
        cases hlast : l.getLast? with
        | none => exact hab
        | some last => exact hab.trans (hb last (List.mem_of_getLast? hlast))
      simp [hle]
    · rw [List.getLast?_cons, ih hsorted]
      cases l.getLast? with
      | none => simp [hab]
      | some last => rfl

theorem sortBy_eq_nil : sortBy key l = [] ↔ l = [] := by
  rw [← List.length_eq_zero_iff, sortBy, List.length_insertionSort, List.length_eq_zero_iff]

/-- **What a stable sort puts first.** -/
theorem head?_sortBy : (sortBy key l).head? = some a ↔ IsFirst key l a := by
  induction l generalizing a with
  | nil => simp [sortBy, IsFirst]
  | cons c l ih =>
    rw [sortBy, List.insertionSort_cons, head?_orderedInsert, isFirst_cons]
    change some (match (sortBy key l).head? with
      | none => c
      | some b => if key c ≤ key b then c else b) = some a ↔ _
    cases hhead : (sortBy key l).head? with
    | none =>
      obtain rfl := sortBy_eq_nil.1 (List.head?_eq_none_iff.1 hhead)
      simp [IsFirst, eq_comm]
    | some b =>
      have hb := ih.1 hhead
      simp only [← ih, hhead, Option.some.injEq]
      split_ifs with hle
      · constructor
        · rintro rfl
          exact .inl ⟨rfl, fun d hd => hle.trans (hb.le hd)⟩
        · rintro (⟨rfl, -⟩ | ⟨rfl, hlt⟩)
          · rfl
          · exact absurd hle hlt.not_ge
      · constructor
        · rintro rfl
          exact .inr ⟨rfl, not_le.1 hle⟩
        · rintro (⟨rfl, hall⟩ | ⟨rfl, -⟩)
          · exact absurd (hall b hb.mem) hle
          · rfl

theorem isLast_cons : IsLast key (c :: l) a ↔
    (IsLast key l a ∧ key c ≤ key a) ∨ (a = c ∧ ∀ b ∈ l, key b < key c) := by
  constructor
  · rintro ⟨before, after, heq, hbefore, hafter⟩
    cases before with
    | nil =>
      obtain ⟨rfl, rfl⟩ := List.cons.inj heq
      exact .inr ⟨rfl, hafter⟩
    | cons b before =>
      obtain ⟨rfl, rfl⟩ := List.cons.inj heq
      exact .inl ⟨⟨before, after, rfl, fun b hb => hbefore b (List.mem_cons_of_mem _ hb), hafter⟩,
        hbefore c (List.mem_cons_self ..)⟩
  · rintro (⟨⟨before, after, rfl, hbefore, hafter⟩, hle⟩ | ⟨rfl, hlt⟩)
    · refine ⟨c :: before, after, rfl, fun b hb => ?_, hafter⟩
      rcases List.mem_cons.1 hb with rfl | hb
      · exact hle
      · exact hbefore b hb
    · exact ⟨[], l, rfl, fun _ hb => (List.not_mem_nil hb).elim, hlt⟩

theorem IsLast.le (h : IsLast key l a) {b : α} (hb : b ∈ l) : key b ≤ key a :=
  (isLast_iff_isFirst_reverse.1 h).le (List.mem_reverse.2 hb)

/-- **What a stable sort puts last.** -/
theorem getLast?_sortBy : (sortBy key l).getLast? = some a ↔ IsLast key l a := by
  induction l generalizing a with
  | nil => simp [sortBy, IsLast]
  | cons c l ih =>
    have hsorted : (sortBy key l).Pairwise fun a b => key a ≤ key b :=
      List.pairwise_insertionSort _ l
    rw [sortBy, List.insertionSort_cons, isLast_cons]
    change ((sortBy key l).orderedInsert _ c).getLast? = some a ↔ _
    rw [getLast?_orderedInsert hsorted]
    cases hlast : (sortBy key l).getLast? with
    | none =>
      obtain rfl := sortBy_eq_nil.1 (List.getLast?_eq_none_iff.1 hlast)
      simp [IsLast, eq_comm]
    | some b =>
      have hb := ih.1 hlast
      simp only [← ih, hlast, Option.some.injEq]
      split_ifs with hle
      · constructor
        · rintro rfl
          exact .inl ⟨rfl, hle⟩
        · rintro (⟨rfl, -⟩ | ⟨rfl, hall⟩)
          · rfl
          · exact absurd hle (hall b hb.mem).not_ge
      · constructor
        · rintro rfl
          exact .inr ⟨rfl, fun d hd => (hb.le hd).trans_lt (not_le.1 hle)⟩
        · rintro (⟨rfl, hle'⟩ | ⟨rfl, -⟩)
          · exact absurd hle' hle
          · rfl

end

/-! ### Policies -/

/-- Slots, what they pick, and the window of slots of each moment. -/
structure Policy (α σ T : Type*) [Preorder T] where
  pick : σ → List α → Option α
  time : α → T
  window : T → σ → Prop
  mem_of_pick : ∀ {j l a}, pick j l = some a → a ∈ l
  pick_of_sublist : ∀ {j l l' a}, l.Nodup → l'.Sublist l → pick j l = some a → a ∈ l' →
    pick j l' = some a
  exists_pick : ∀ {j l l' a}, l'.Sublist l → pick j l' = some a → ∃ b, pick j l = some b
  window_of_le : ∀ {t t' j l a}, t ≤ t' → pick j l = some a → time a ≤ t → window t' j → window t j

/-- A moment, and what has been added since the moment before. -/
structure Round (α T : Type*) where
  now : T
  added : List α

/-- Everything added. -/
def addedIn {α T : Type*} (rounds : List (Round α T)) : List α := rounds.flatMap Round.added

namespace Policy

variable {α σ T : Type*} [Preorder T] (p : Policy α σ T)

/-- A slot of the window picks `a`. -/
def Protects (t : T) (l : List α) (a : α) : Prop := ∃ j, p.window t j ∧ p.pick j l = some a

open Classical in
/-- What is kept of a list. -/
noncomputable def keep (t : T) (l : List α) : List α := l.filter fun a => p.Protects t l a

/-- What is left after some rounds: each of them drops what is not kept of the elements
that are there. -/
noncomputable def present (rounds : List (Round α T)) : List α :=
  rounds.foldl (fun present r => p.keep r.now (present ++ r.added)) []

variable {p} {t t' : T} {l old new : List α} {a : α}

theorem mem_keep : a ∈ p.keep t l ↔ p.Protects t l a := by
  simp only [keep, List.mem_filter, decide_eq_true_eq, and_iff_right_iff_imp]
  rintro ⟨j, -, hpick⟩
  exact p.mem_of_pick hpick

theorem keep_sublist : (p.keep t l).Sublist l := List.filter_sublist

open Classical in
/-- Any filter that tells the protected elements computes what is kept. -/
theorem filter_eq_keep {q : α → Bool} (h : ∀ a ∈ l, q a ↔ p.Protects t l a) :
    l.filter q = p.keep t l :=
  List.filter_congr fun a ha => Bool.eq_iff_iff.2 ((h a ha).trans decide_eq_true_iff.symm)

open Classical in
theorem keep_eq_self (h : ∀ a ∈ l, p.Protects t l a) : p.keep t l = l :=
  List.filter_eq_self.2 fun a ha => decide_eq_true (h a ha)

/-- What is protected later has been protected before. -/
theorem Protects.of_append (hnodup : (old ++ new).Nodup) (hle : t ≤ t')
    (ha : a ∈ old) (hold : p.time a ≤ t) (h : p.Protects t' (old ++ new) a) :
    p.Protects t old a := by
  obtain ⟨j, hwindow, hpick⟩ := h
  have hpick' := p.pick_of_sublist hnodup (List.sublist_append_left old new) hpick ha
  exact ⟨j, p.window_of_le hle hpick' hold hwindow, hpick'⟩

/-- Dropping what was not kept protects the same elements. -/
theorem protects_keep_append (hnodup : (old ++ new).Nodup) (hle : t ≤ t')
    (hold : ∀ a ∈ old, p.time a ≤ t) (ha : a ∈ p.keep t old ++ new) :
    p.Protects t' (p.keep t old ++ new) a ↔ p.Protects t' (old ++ new) a := by
  have hsub : (p.keep t old ++ new).Sublist (old ++ new) := keep_sublist.append_right new
  constructor
  · rintro ⟨j, hwindow, hpick⟩
    -- what the slot picks of everything has been kept, so it picks it here too
    obtain ⟨b, hb⟩ := p.exists_pick hsub hpick
    have hmem : b ∈ p.keep t old ++ new := by
      rcases List.mem_append.1 (p.mem_of_pick hb) with hb' | hb'
      · exact List.mem_append_left _ (mem_keep.2
          (Protects.of_append hnodup hle hb' (hold b hb') ⟨j, hwindow, hb⟩))
      · exact List.mem_append_right _ hb'
    have hpick' := p.pick_of_sublist hnodup hsub hb hmem
    obtain rfl := Option.some.inj (hpick.symm.trans hpick')
    exact ⟨j, hwindow, hb⟩
  · rintro ⟨j, hwindow, hpick⟩
    exact ⟨j, hwindow, p.pick_of_sublist hnodup hsub hpick ha⟩

open Classical in
/-- **Dropping early keeps the same.** -/
theorem keep_keep_append (hnodup : (old ++ new).Nodup) (hle : t ≤ t')
    (hold : ∀ a ∈ old, p.time a ≤ t) :
    p.keep t' (p.keep t old ++ new) = p.keep t' (old ++ new) := by
  have hsame : p.keep t' (p.keep t old ++ new) =
      (p.keep t old ++ new).filter fun a => p.Protects t' (old ++ new) a := by
    refine List.filter_congr fun a ha => ?_
    rw [decide_eq_decide]
    exact protects_keep_append hnodup hle hold ha
  have hnew : p.keep t' (old ++ new) =
      (old ++ new).filter fun a => p.Protects t' (old ++ new) a := rfl
  rw [hsame, hnew, List.filter_append, List.filter_append, keep, List.filter_filter]
  congr 1
  refine List.filter_congr fun a ha => ?_
  rw [← Bool.decide_and, decide_eq_decide]
  exact and_iff_left_of_imp fun h => Protects.of_append hnodup hle ha (hold a ha) h

theorem present_append (rounds : List (Round α T)) (last : Round α T) :
    p.present (rounds ++ [last]) = p.keep last.now (p.present rounds ++ last.added) := by
  simp [present]

/-- What has been added is of the past. -/
theorem time_le_of_mem_addedIn {rounds : List (Round α T)} {last : Round α T}
    (htimes : (rounds ++ [last]).Pairwise fun r r' => r.now ≤ r'.now)
    (hadded : ∀ r ∈ rounds ++ [last], ∀ a ∈ r.added, p.time a ≤ r.now) :
    ∀ a ∈ addedIn (rounds ++ [last]), p.time a ≤ last.now := by
  have hle : ∀ r ∈ rounds ++ [last], r.now ≤ last.now := by
    intro r hr
    rcases List.mem_append.1 hr with hr | hr
    · exact (List.pairwise_append.1 htimes).2.2 r hr last (List.mem_singleton_self _)
    · exact (List.mem_singleton.1 hr ▸ le_rfl)
  intro a ha
  obtain ⟨r, hr, har⟩ := List.mem_flatMap.1 ha
  exact (hadded r hr a har).trans (hle r hr)

/-- **Many rounds keep what the last one keeps of everything.** -/
theorem present_eq (rounds : List (Round α T)) (last : Round α T)
    (hnodup : (addedIn (rounds ++ [last])).Nodup)
    (htimes : (rounds ++ [last]).Pairwise fun r r' => r.now ≤ r'.now)
    (hadded : ∀ r ∈ rounds ++ [last], ∀ a ∈ r.added, p.time a ≤ r.now) :
    p.present (rounds ++ [last]) = p.keep last.now (addedIn (rounds ++ [last])) := by
  induction rounds using List.reverseRecOn generalizing last with
  | nil => simp [present, addedIn]
  | append_singleton rounds prev ih =>
    have hall : addedIn (rounds ++ [prev] ++ [last]) =
        addedIn (rounds ++ [prev]) ++ last.added := by
      simp [addedIn]
    rw [hall] at hnodup
    have htimes' := List.pairwise_append.1 htimes
    have hadded' : ∀ r ∈ rounds ++ [prev], ∀ a ∈ r.added, p.time a ≤ r.now :=
      fun r hr => hadded r (List.mem_append_left _ hr)
    have hprev : p.present (rounds ++ [prev]) = p.keep prev.now (addedIn (rounds ++ [prev])) :=
      ih prev (List.nodup_append.1 hnodup).1 htimes'.1 hadded'
    have hlast : prev.now ≤ last.now :=
      htimes'.2.2 prev (List.mem_append_right _ (List.mem_singleton_self _)) last
        (List.mem_singleton_self _)
    rw [present_append, hprev, hall]
    exact keep_keep_append hnodup hlast (time_le_of_mem_addedIn htimes'.1 hadded')

/-- Dropping again drops nothing. -/
theorem keep_keep (hnodup : l.Nodup) (hpast : ∀ a ∈ l, p.time a ≤ t) :
    p.keep t (p.keep t l) = p.keep t l := by
  have hnil : p.keep t (p.keep t l ++ []) = p.keep t (l ++ []) :=
    keep_keep_append (by rwa [List.append_nil]) le_rfl hpast
  rwa [List.append_nil, List.append_nil] at hnil

end Policy

end Lib
end Boveda

/-
# Patterns of literals and captured runs

Regular expressions that are a row of characters and of groups `([…]+)`, as Python's `re`
matches them.  `ways` is a backtracking matcher: it lists the ways to match at the front of
a text in the order in which they are tried, the longest run first.  `scan` finds the
leftmost matches that do not overlap, and `sub` replaces them.

A match is a list of groups that fit the pattern (`mem_ways`); where each run stops at the
literal behind it there is at most one (`Fits.unique`).  `scan_eq_iff` describes a scan
without its recursion: no match starts in the text before a hit or behind the last one.
`sub_done` and `sub_hit` are what `sub` does along a scan.
-/

import Mathlib.Data.List.TakeWhile
import Mathlib.Tactic.Common

namespace Boveda
namespace Lib
namespace Pattern

variable {α : Type*}

/-- A character, or a group of one or more characters that meet `p`. -/
inductive Atom (α : Type*)
  | lit (c : α)
  | run (p : α → Bool)

/-- The groups that a match of a pattern may have. -/
def Fits : List (Atom α) → List (List α) → Prop
  | [], groups => groups = []
  | .lit _ :: pat, groups => Fits pat groups
  | .run _ :: _, [] => False
  | .run p :: pat, group :: groups => group ≠ [] ∧ (∀ c ∈ group, p c = true) ∧ Fits pat groups

/-- The text of a match. -/
def expand : List (Atom α) → List (List α) → List α
  | [], _ => []
  | .lit c :: pat, groups => c :: expand pat groups
  | .run _ :: _, [] => []
  | .run _ :: pat, group :: groups => group ++ expand pat groups

/-- Each run stops at the literal behind it. -/
def Stops : List (Atom α) → Prop
  | [] => True
  | .lit _ :: pat => Stops pat
  | .run p :: .lit c :: pat => p c = false ∧ Stops pat
  | .run _ :: _ => False

section

variable [DecidableEq α]

/-- The ways to match at the front of a text, each with its groups and the rest of the
text. -/
def ways : List (Atom α) → List α → List (List (List α) × List α)
  | [], text => [([], text)]
  | .lit _ :: _, [] => []
  | .lit c :: pat, d :: rest => if d = c then ways pat rest else []
  | .run p :: pat, text =>
    (List.range (text.takeWhile p).length).reverse.flatMap fun n =>
      (ways pat (text.drop (n + 1))).map fun way => (text.take (n + 1) :: way.1, way.2)

/-- `re.match`. -/
def matchFront (pat : List (Atom α)) (text : List α) : Option (List (List α) × List α) :=
  (ways pat text).head?

/-- A match, with the text between it and the one before. -/
structure Hit (α : Type*) where
  before : List α
  groups : List (List α)
  deriving DecidableEq

/-- The leftmost matches behind the first `skip` characters of a text, and what is behind
the last of them. -/
def scanFrom (pat : List (Atom α)) : ℕ → List α → List (Hit α) × List α
  | _, [] => ([], [])
  | skip + 1, _ :: rest => scanFrom pat skip rest
  | 0, c :: rest =>
    match matchFront pat (c :: rest) with
    | some (groups, behind) =>
      let next := scanFrom pat (rest.length - behind.length) rest
      (⟨[], groups⟩ :: next.1, next.2)
    | none =>
      match scanFrom pat 0 rest with
      | ([], last) => ([], c :: last)
      | (hit :: hits, last) => ({ hit with before := c :: hit.before } :: hits, last)

/-- `re.finditer`, and the text behind the last match. -/
def scan (pat : List (Atom α)) (text : List α) : List (Hit α) × List α := scanFrom pat 0 text

/-- `re.sub`. -/
def sub (pat : List (Atom α)) (repl : List (List α) → List α) (text : List α) : List α :=
  ((scan pat text).1.flatMap fun hit => hit.before ++ repl hit.groups) ++ (scan pat text).2

end

/-! ### One match -/

/-- What stands before a first occurrence, and behind it, is determined. -/
theorem append_cons_inj {x y p q : List α} {c : α} (hx : c ∉ x) (hy : c ∉ y)
    (h : x ++ c :: p = y ++ c :: q) : x = y ∧ p = q := by
  have hempty {x a p q : List α} (hmem : c ∉ x ++ a) (h : c :: p = a ++ c :: q) : a = [] := by
    cases a with
    | nil => rfl
    | cons d a =>
      obtain rfl : c = d := (List.cons.inj h).1
      exact absurd (List.mem_append_right x List.mem_cons_self) hmem
  rcases List.append_eq_append_iff.1 h with ⟨a, hya, hrest⟩ | ⟨a, hxa, hrest⟩
  · obtain rfl := hempty (hya ▸ hy) hrest
    exact ⟨by rw [hya, List.append_nil], (List.cons.inj hrest).2⟩
  · obtain rfl := hempty (hxa ▸ hx) hrest
    exact ⟨by rw [hxa, List.append_nil], (List.cons.inj hrest).2.symm⟩

/-- So is what stands before a last occurrence, and behind it. -/
theorem append_cons_inj_last {x y p q : List α} {c : α} (hp : c ∉ p) (hq : c ∉ q)
    (h : x ++ c :: p = y ++ c :: q) : x = y ∧ p = q := by
  have hreverse := congrArg List.reverse h
  simp only [List.reverse_append, List.reverse_cons, List.append_assoc, List.cons_append,
    List.nil_append] at hreverse
  obtain ⟨hpq, hxy⟩ := append_cons_inj (fun hc => hp (List.mem_reverse.1 hc))
    (fun hc => hq (List.mem_reverse.1 hc)) hreverse
  exact ⟨List.reverse_inj.1 hxy, List.reverse_inj.1 hpq⟩

/-- An occurrence stands behind a front without one. -/
theorem exists_of_notMem_front {x d front rest : List α} {c : α} (hc : c ∉ front)
    (h : x ++ c :: d = front ++ rest) : ∃ y, x = front ++ y ∧ rest = y ++ c :: d := by
  rcases List.append_eq_append_iff.1 h with ⟨a, rfl, hrest⟩ | ⟨a, hx, hrest⟩
  · cases a with
    | nil => exact ⟨[], by simp, hrest.symm⟩
    | cons b a =>
      obtain rfl : c = b := (List.cons.inj hrest).1
      exact absurd (List.mem_append_right x List.mem_cons_self) hc
  · exact ⟨a, hx, hrest⟩

/-- And before a back without one. -/
theorem exists_of_notMem_back {x y d back : List α} {c : α} (hc : c ∉ back)
    (h : x ++ back = y ++ c :: d) : ∃ z, d = z ++ back ∧ x = y ++ c :: z := by
  rcases List.append_eq_append_iff.1 h with ⟨a, hy, hback⟩ | ⟨a, hx, hback⟩
  · rw [hback] at hc
    exact absurd (List.mem_append_right a List.mem_cons_self) hc
  · cases a with
    | nil =>
      rw [← show c :: d = back from hback] at hc
      exact absurd List.mem_cons_self hc
    | cons b a =>
      obtain ⟨rfl, hd⟩ := List.cons.inj hback
      exact ⟨a, hd, hx⟩

/-- **A pattern whose runs stop matches in one way.** -/
theorem Fits.unique {pat : List (Atom α)} (hstops : Stops pat) {groups groups' : List (List α)}
    {rest rest' : List α} (h : Fits pat groups) (h' : Fits pat groups')
    (heq : expand pat groups ++ rest = expand pat groups' ++ rest') :
    groups = groups' ∧ rest = rest' := by
  induction pat using Stops.induct generalizing groups groups' with
  | case1 =>
    obtain rfl : groups = [] := h
    obtain rfl : groups' = [] := h'
    exact ⟨rfl, heq⟩
  | case2 c pat ih => exact ih hstops h h' (List.cons.inj heq).2
  | case3 p c pat ih =>
    match groups, groups', h, h' with
    | group :: groups, group' :: groups', h, h' =>
      obtain ⟨-, hgroup, h⟩ := h
      obtain ⟨-, hgroup', h'⟩ := h'
      have hstop {g : List α} (hg : ∀ d ∈ g, p d = true) : c ∉ g := fun hc =>
        absurd (hg c hc) (by rw [hstops.1]; exact Bool.false_ne_true)
      simp only [expand, List.append_assoc, List.cons_append] at heq
      obtain ⟨rfl, hbehind⟩ := append_cons_inj (hstop hgroup) (hstop hgroup') heq
      obtain ⟨rfl, hrest⟩ := ih hstops.2 h h' hbehind
      exact ⟨rfl, hrest⟩
  | case4 p pat hlit => simp [Stops] at hstops

section

variable [DecidableEq α] {pat : List (Atom α)} {groups : List (List α)} {text rest : List α}

/-- The ways to match are the groups that fit. -/
theorem mem_ways :
    (groups, rest) ∈ ways pat text ↔ Fits pat groups ∧ text = expand pat groups ++ rest := by
  induction pat generalizing groups text with
  | nil =>
    simp only [ways, List.mem_singleton, Prod.mk.injEq, Fits, expand, List.nil_append]
    exact and_congr_right fun _ => eq_comm
  | cons atom pat ih =>
    cases atom with
    | lit c =>
      cases text with
      | nil => simp [ways, expand]
      | cons d text =>
        rw [ways, Fits, expand, List.cons_append, List.cons.injEq]
        by_cases hd : d = c
        · rw [if_pos hd, ih]
          exact and_congr_right fun _ => (and_iff_right hd).symm
        · rw [if_neg hd]
          exact iff_of_false List.not_mem_nil fun h => hd h.2.1
    | run p =>
      simp only [ways, List.mem_flatMap, List.mem_reverse, List.mem_range, List.mem_map]
      constructor
      · rintro ⟨n, hn, ⟨groups', rest'⟩, hmem, heq⟩
        obtain ⟨rfl, rfl⟩ := Prod.mk.inj heq
        obtain ⟨hfits, hdrop⟩ := ih.1 hmem
        have htake : text.take (n + 1) <+: text.takeWhile p := by
          refine List.prefix_of_prefix_length_le (List.take_prefix _ _) (List.takeWhile_prefix p) ?_
          rw [List.length_take]
          omega
        refine ⟨⟨?_, fun c hc => List.mem_takeWhile_imp (htake.subset hc), hfits⟩, ?_⟩
        · intro hnil
          have hlength := (List.takeWhile_prefix p (l := text)).length_le
          have := congrArg List.length hnil
          rw [List.length_take, List.length_nil] at this
          omega
        · rw [expand, List.append_assoc, ← hdrop, List.take_append_drop]
      · cases groups with
        | nil => exact fun h => h.1.elim
        | cons group groups =>
          rintro ⟨⟨hne, hgroup, hfits⟩, rfl⟩
          have hlength : group.length - 1 + 1 = group.length :=
            Nat.sub_add_cancel (List.length_pos_iff.2 hne)
          rw [expand, List.append_assoc]
          refine ⟨group.length - 1, ?_, (groups, rest), ?_, ?_⟩
          · rw [List.takeWhile_append_of_pos hgroup, List.length_append]
            omega
          · rw [hlength, List.drop_left]
            exact ih.2 ⟨hfits, rfl⟩
          · rw [hlength, List.take_left]

theorem matchFront_eq_some_iff (hstops : Stops pat) :
    matchFront pat text = some (groups, rest) ↔
      Fits pat groups ∧ text = expand pat groups ++ rest := by
  rw [← mem_ways]
  constructor
  · exact List.mem_of_mem_head?
  · intro hmem
    cases hways : ways pat text with
    | nil =>
      rw [hways] at hmem
      cases hmem
    | cons way others =>
      have hfirst := mem_ways.1 (hways ▸ List.mem_cons_self : (way.1, way.2) ∈ ways pat text)
      have hway := mem_ways.1 hmem
      obtain ⟨hgroups, hrest⟩ := hfirst.1.unique hstops hway.1 (hfirst.2.symm.trans hway.2)
      rw [matchFront, hways, List.head?_cons, ← hgroups, ← hrest]

end

/-! ### All matches -/

/-- A pattern that is not empty matches no empty text. -/
theorem Fits.expand_ne_nil {pat : List (Atom α)} {groups : List (List α)} (hpat : pat ≠ [])
    (h : Fits pat groups) : expand pat groups ≠ [] := by
  match pat, groups, h with
  | [], _, _ => exact absurd rfl hpat
  | .lit c :: pat, groups, h => exact List.cons_ne_nil c _
  | .run p :: pat, group :: groups, h => exact List.append_ne_nil_of_left_ne_nil h.1 _

section

variable [DecidableEq α]

/-- No match starts in the part `front` of the text `front ++ rest`. -/
def NoMatch (pat : List (Atom α)) (front rest : List α) : Prop :=
  ∀ a b, front = a ++ b → b ≠ [] → matchFront pat (b ++ rest) = none

/-- The hits of a text and what is behind the last. -/
inductive Scans (pat : List (Atom α)) : List α → List (Hit α) → List α → Prop
  | done {last : List α} : NoMatch pat last [] → Scans pat last [] last
  | hit {before rest last : List α} {groups : List (List α)} {hits : List (Hit α)} :
      NoMatch pat before (expand pat groups ++ rest) → Fits pat groups →
      Scans pat rest hits last →
      Scans pat (before ++ (expand pat groups ++ rest)) (⟨before, groups⟩ :: hits) last

variable {pat : List (Atom α)} {groups : List (List α)} {text rest last : List α}
  {hits : List (Hit α)}

theorem noMatch_nil : NoMatch pat [] rest := by
  intro a b hnil hb
  exact absurd (List.append_eq_nil_iff.1 hnil.symm).2 hb

theorem noMatch_cons {c : α} {front : List α} :
    NoMatch pat (c :: front) rest ↔
      matchFront pat (c :: (front ++ rest)) = none ∧ NoMatch pat front rest := by
  constructor
  · intro h
    refine ⟨h [] (c :: front) rfl (List.cons_ne_nil c front), fun a b hfront hb => ?_⟩
    exact h (c :: a) b (by rw [hfront, List.cons_append]) hb
  · rintro ⟨hfront, h⟩ a b hcons hb
    cases a with
    | nil =>
      rw [List.nil_append] at hcons
      rw [← hcons]
      exact hfront
    | cons d a => exact h a b (List.cons.inj hcons).2 hb

theorem scanFrom_eq_drop (skip : ℕ) (text : List α) :
    scanFrom pat skip text = scanFrom pat 0 (text.drop skip) := by
  induction text generalizing skip with
  | nil => cases skip <;> rfl
  | cons c rest ih =>
    cases skip with
    | zero => rfl
    | succ skip => rw [scanFrom, List.drop_succ_cons, ih]

/-- Behind text in which no match starts the scan is the same. -/
theorem scanFrom_append {before : List α} (h : NoMatch pat before text) :
    scanFrom pat 0 (before ++ text) =
      match scanFrom pat 0 text with
      | ([], last) => ([], before ++ last)
      | (hit :: hits, last) => ({ hit with before := before ++ hit.before } :: hits, last) := by
  induction before with
  | nil =>
    rw [List.nil_append]
    split <;> assumption
  | cons c before ih =>
    obtain ⟨hnone, hrest⟩ := noMatch_cons.1 h
    rw [List.cons_append, scanFrom, hnone, ih hrest]
    dsimp only
    cases scanFrom pat 0 text with
    | mk hits last => cases hits <;> rfl

theorem scanFrom_match (hpat : pat ≠ []) (hstops : Stops pat) (h : Fits pat groups) :
    scanFrom pat 0 (expand pat groups ++ rest) =
      (⟨[], groups⟩ :: (scanFrom pat 0 rest).1, (scanFrom pat 0 rest).2) := by
  have hmatch : matchFront pat (expand pat groups ++ rest) = some (groups, rest) :=
    (matchFront_eq_some_iff hstops).2 ⟨h, rfl⟩
  cases hexpand : expand pat groups with
  | nil => exact absurd hexpand (h.expand_ne_nil hpat)
  | cons c matched =>
    rw [hexpand, List.cons_append] at hmatch
    rw [List.cons_append, scanFrom, hmatch]
    have hskip : scanFrom pat ((matched ++ rest).length - rest.length) (matched ++ rest) =
        scanFrom pat 0 rest := by
      rw [scanFrom_eq_drop, List.length_append, Nat.add_sub_cancel, List.drop_left]
    dsimp only
    rw [hskip]

theorem Scans.scan_eq (hpat : pat ≠ []) (hstops : Stops pat) (h : Scans pat text hits last) :
    scan pat text = (hits, last) := by
  induction h with
  | @done last hnone =>
    have hscan := scanFrom_append hnone
    rw [List.append_nil] at hscan
    rw [scan, hscan]
    exact congrArg _ (List.append_nil last)
  | hit hnone hfits _ ih =>
    rw [scan] at ih ⊢
    rw [scanFrom_append hnone, scanFrom_match hpat hstops hfits, ih]
    simp only [List.append_nil]

theorem exists_scans (hpat : pat ≠ []) (hstops : Stops pat) (text : List α) :
    ∃ hits last, Scans pat text hits last := by
  induction hlength : text.length using Nat.strong_induction_on generalizing text with
  | h n ih =>
    cases text with
    | nil => exact ⟨[], [], .done noMatch_nil⟩
    | cons c rest =>
      cases hfront : matchFront pat (c :: rest) with
      | some way =>
        -- a match at the front
        obtain ⟨hfits, htext⟩ : Fits pat way.1 ∧ c :: rest = expand pat way.1 ++ way.2 :=
          (matchFront_eq_some_iff hstops).1 hfront
        have hshort : way.2.length < n := by
          have hpos := List.length_pos_iff.2 (hfits.expand_ne_nil hpat)
          rw [← hlength, htext, List.length_append]
          omega
        obtain ⟨hits, last, h⟩ := ih _ hshort way.2 rfl
        rw [htext]
        exact ⟨_, _, .hit noMatch_nil hfits h⟩
      | none =>
        obtain ⟨hits, last, h⟩ :=
          ih rest.length (by rw [← hlength]; exact Nat.lt_succ_self _) rest rfl
        cases h with
        | done hnone =>
          exact ⟨[], c :: rest, .done (noMatch_cons.2 ⟨by rwa [List.append_nil], hnone⟩)⟩
        | @hit before rest last groups hits hnone hfits h =>
          exact ⟨_, _, .hit (noMatch_cons.2 ⟨hfront, hnone⟩) hfits h⟩

/-- **What a scan finds.** -/
theorem scan_eq_iff (hpat : pat ≠ []) (hstops : Stops pat) :
    scan pat text = (hits, last) ↔ Scans pat text hits last := by
  refine ⟨fun hscan => ?_, fun h => h.scan_eq hpat hstops⟩
  obtain ⟨hits', last', h⟩ := exists_scans hpat hstops text
  obtain ⟨rfl, rfl⟩ := Prod.mk.inj ((h.scan_eq hpat hstops).symm.trans hscan)
  exact h

variable {repl : List (List α) → List α}

theorem sub_done (hpat : pat ≠ []) (hstops : Stops pat) (h : NoMatch pat text []) :
    sub pat repl text = text := by
  rw [sub, (Scans.done h).scan_eq hpat hstops]
  rfl

theorem sub_hit (hpat : pat ≠ []) (hstops : Stops pat) {before : List α}
    (hnone : NoMatch pat before (expand pat groups ++ rest)) (hfits : Fits pat groups) :
    sub pat repl (before ++ (expand pat groups ++ rest)) =
      before ++ (repl groups ++ sub pat repl rest) := by
  obtain ⟨hits, last, hscan⟩ : ∃ hits last, scan pat rest = (hits, last) := ⟨_, _, rfl⟩
  have h := (scan_eq_iff hpat hstops).1 hscan
  rw [sub, sub, (Scans.hit hnone hfits h).scan_eq hpat hstops, hscan]
  simp only [List.flatMap_cons, List.append_assoc]

/-- **Replacing twice.**  Where a replacement is itself a match, with the same replacement,
and no match starts before it that has not started there before, it is found again. -/
theorem sub_sub (hpat : pat ≠ []) (hstops : Stops pat) {f : List (List α) → List (List α)}
    (hrepl : ∀ groups, Fits pat groups →
      Fits pat (f groups) ∧ repl groups = expand pat (f groups) ∧ repl (f groups) = repl groups)
    (hnone : ∀ before groups rest rest', Fits pat groups →
      NoMatch pat before (expand pat groups ++ rest) →
      NoMatch pat before (expand pat (f groups) ++ rest')) (text : List α) :
    sub pat repl (sub pat repl text) = sub pat repl text := by
  obtain ⟨hits, last, h⟩ := exists_scans hpat hstops text
  induction h with
  | done hlast => rw [sub_done hpat hstops hlast, sub_done hpat hstops hlast]
  | hit hbefore hfits _ ih =>
    obtain ⟨hfits', hexpand, hagain⟩ := hrepl _ hfits
    rw [sub_hit hpat hstops hbefore hfits, hexpand,
      sub_hit hpat hstops (hnone _ _ _ _ hfits hbefore) hfits', ih, hagain, hexpand]

end

end Pattern
end Lib
end Boveda

/-
# Binary trees over a list, split at a power of two

`foldSplit` is the recursion of RFC 6962: a list of more than one element is split at
the largest power of two below its length, and the values of the two parts are
combined.  Every such computation is the value of one `Tree` (`foldSplit_eq_eval`),
whose leaves are the list itself.

The trees of `Boveda.Lib.Merkle` are built level by level and repeat an odd last node.
The two shapes agree on the lists whose length is a power of two and on no others
(`trees_eq_splitTree_iff`).
-/

import Boveda.Lib.Merkle
import Mathlib.Data.Nat.Log

namespace Boveda
namespace Lib
namespace Merkle

variable {α β : Type*}

/-- The largest power of two below `n`, for `n` at least 2. -/
def splitPoint (n : ℕ) : ℕ := 2 ^ Nat.log 2 (n - 1)

theorem splitPoint_pos (n : ℕ) : 0 < splitPoint n := Nat.two_pow_pos _

theorem splitPoint_lt {n : ℕ} (h : 2 ≤ n) : splitPoint n < n := by
  have hle : splitPoint n ≤ n - 1 := Nat.pow_log_le_self 2 (by omega)
  omega

/-- A power of two is split in the middle. -/
theorem splitPoint_two_pow (depth : ℕ) : splitPoint (2 ^ (depth + 1)) = 2 ^ depth := by
  have hpos := Nat.two_pow_pos depth
  have hlog : Nat.log 2 (2 ^ (depth + 1) - 1) = depth := by
    refine Nat.log_eq_of_pow_le_of_lt_pow ?_ (by omega)
    rw [Nat.pow_succ]
    omega
  rw [splitPoint, hlog]

/-- A value computed from the two parts of a list. -/
def foldSplit (empty : β) (leaf : α → β) (node : β → β → β) : List α → β
  | [] => empty
  | [x] => leaf x
  | x :: y :: rest =>
    node (foldSplit empty leaf node ((x :: y :: rest).take (splitPoint (rest.length + 2))))
      (foldSplit empty leaf node ((x :: y :: rest).drop (splitPoint (rest.length + 2))))
termination_by xs => xs.length
decreasing_by
  · have hlt := splitPoint_lt (show 2 ≤ rest.length + 2 by omega)
    simp only [List.length_take, List.length_cons]
    omega
  · have hpos := splitPoint_pos (rest.length + 2)
    simp only [List.length_drop, List.length_cons]
    omega

theorem take_splitPoint_ne_nil (x : α) (xs : List α) (n : ℕ) :
    (x :: xs).take (splitPoint n) ≠ [] := by
  have hpos := splitPoint_pos n
  rw [Ne, List.take_eq_nil_iff]
  rintro (h | h)
  · omega
  · cases h

theorem drop_splitPoint_ne_nil (x y : α) (rest : List α) :
    (x :: y :: rest).drop (splitPoint (rest.length + 2)) ≠ [] := by
  have hlt := splitPoint_lt (show 2 ≤ rest.length + 2 by omega)
  rw [Ne, List.drop_eq_nil_iff]
  simp only [List.length_cons]
  omega

/-- The tree of the splits. -/
def splitTree : (xs : List α) → xs ≠ [] → Tree α
  | [x], _ => .leaf x
  | x :: y :: rest, _ =>
    .node (splitTree ((x :: y :: rest).take (splitPoint (rest.length + 2)))
        (take_splitPoint_ne_nil x (y :: rest) _))
      (splitTree ((x :: y :: rest).drop (splitPoint (rest.length + 2)))
        (drop_splitPoint_ne_nil x y rest))
termination_by xs => xs.length
decreasing_by
  · have hlt := splitPoint_lt (show 2 ≤ rest.length + 2 by omega)
    simp only [List.length_take, List.length_cons]
    omega
  · have hpos := splitPoint_pos (rest.length + 2)
    simp only [List.length_drop, List.length_cons]
    omega

/-- A computation by splits is the value of the tree. -/
theorem foldSplit_eq_eval (empty : β) (leaf : α → β) (node : β → β → β) (xs : List α)
    (h : xs ≠ []) : foldSplit empty leaf node xs = (splitTree xs h).eval leaf node := by
  induction xs, h using splitTree.induct with
  | case1 x _ _ => rw [foldSplit, splitTree, Tree.eval]
  | case2 x y rest _ _ ihl ihr => rw [foldSplit, splitTree, Tree.eval, ihl, ihr]

/-- The leaves are the list. -/
theorem leaves_splitTree (xs : List α) (h : xs ≠ []) : (splitTree xs h).leaves = xs := by
  induction xs, h using splitTree.induct with
  | case1 x _ _ => rw [splitTree, Tree.leaves]
  | case2 x y rest _ _ ihl ihr => rw [splitTree, Tree.leaves, ihl, ihr, List.take_append_drop]

/-- Over a power of two the tree is perfect. -/
theorem perfect_splitTree {depth : ℕ} {xs : List α} (h : xs ≠ []) (hlen : xs.length = 2 ^ depth) :
    (splitTree xs h).Perfect depth := by
  induction depth generalizing xs with
  | zero =>
    obtain ⟨x, rfl⟩ := List.length_eq_one_iff.1 hlen
    exact ⟨x, by rw [splitTree]⟩
  | succ depth ih =>
    match xs, h, hlen with
    | [x], _, hlen =>
      rw [List.length_singleton, Nat.pow_succ] at hlen
      omega
    | x :: y :: rest, _, hlen =>
      have hsplit : splitPoint (rest.length + 2) = 2 ^ depth := by
        rw [← splitPoint_two_pow, ← hlen]
        rfl
      rw [Nat.pow_succ] at hlen
      rw [splitTree]
      refine ⟨_, _, rfl, ih _ ?_, ih _ ?_⟩
      · rw [List.length_take, hsplit, hlen]
        omega
      · rw [List.length_drop, hsplit, hlen]
        omega

/-! ### The two shapes -/

/-- An even level is combined without a repetition. -/
theorem flatten_nextLevel {level : List (List α)} (heven : level.length % 2 = 0) :
    (nextLevel (· ++ ·) level).flatten = level.flatten := by
  induction level using nextLevel.induct with
  | case1 => rfl
  | case2 left => simp at heven
  | case3 left right rest ih =>
    have hrest : rest.length % 2 = 0 := by
      simp only [List.length_cons] at heven
      omega
    simp only [nextLevel, List.flatten_cons, ih hrest, List.append_assoc]

/-- Nor is any level above a power of two. -/
theorem flatten_climb {depth : ℕ} {level : List (List α)} (hlen : level.length = 2 ^ depth) :
    (climb (· ++ ·) level).flatten = level.flatten := by
  induction depth generalizing level with
  | zero => rw [climb_of_le _ hlen.le]
  | succ depth ih =>
    have hpos := Nat.two_pow_pos depth
    rw [Nat.pow_succ] at hlen
    rw [climb_of_lt _ (by omega), ih, flatten_nextLevel (by omega)]
    rw [length_nextLevel, hlen]
    omega

theorem padded_of_two_pow {depth : ℕ} {xs : List α} (hlen : xs.length = 2 ^ depth) :
    padded xs = xs := by
  have hsingles : (xs.map fun x => [x]).flatten = xs := by
    clear hlen
    induction xs with
    | nil => rfl
    | cons x xs ih => rw [List.map_cons, List.flatten_cons, ih, List.singleton_append]
  rw [padded, flatten_climb ((List.length_map _).trans hlen), hsingles]

/-- **The two shapes are one for the powers of two alone.** -/
theorem trees_eq_splitTree_iff {xs : List α} (h : xs ≠ []) :
    trees xs = [splitTree xs h] ↔ ∃ depth, xs.length = 2 ^ depth := by
  obtain ⟨t, ht⟩ := exists_trees_eq h
  obtain ⟨depth, hperfect⟩ := exists_perfect xs
  have hperfect := hperfect t (ht ▸ List.mem_singleton_self t)
  constructor
  · intro heq
    refine ⟨depth, ?_⟩
    rw [← hperfect.length_leaves, List.singleton_inj.1 (ht.symm.trans heq), leaves_splitTree]
  · rintro ⟨depth', hlen⟩
    have hleaves : t.leaves = (splitTree xs h).leaves := by
      have hpadded := padded_of_two_pow hlen
      rw [padded_eq_leaves, ht, List.map_singleton, List.flatten_singleton] at hpadded
      rw [hpadded, leaves_splitTree]
    rw [ht, hperfect.eq_of_leaves (perfect_splitTree h hlen) hleaves]

end Merkle
end Lib
end Boveda

/-
# Binary trees over a list, built level by level

`climb` combines the nodes of a level by twos until one node is left, an odd last
node with itself.  Every such computation is the value of one `Tree` (`climb_eq_eval`),
whose leaves are the list with the repetitions that the odd levels add (`padded`).

A `Hashing` gives the tree a hash.  Where the hash has no collision among the inputs
it is given, equal hashes are hashes of one tree (`Hashing.hash_injective`), and with
that of one `padded` list (`Hashing.roots_eq_iff`).
-/

import Mathlib.Tactic.Common
import Mathlib.Algebra.Group.Nat.Even

namespace Boveda
namespace Lib
namespace Merkle

variable {α β γ : Type*}

/-- One level up: neighbours are combined, an odd last node with itself. -/
def nextLevel (node : α → α → α) : List α → List α
  | [] => []
  | [left] => [node left left]
  | left :: right :: rest => node left right :: nextLevel node rest

theorem length_nextLevel (node : α → α → α) (level : List α) :
    (nextLevel node level).length = (level.length + 1) / 2 := by
  induction level using nextLevel.induct with
  | case1 => simp [nextLevel]
  | case2 left => simp [nextLevel]
  | case3 left right rest ih =>
    simp only [nextLevel, List.length_cons, ih]
    omega

/-- The levels, until there is one node. -/
def climb (node : α → α → α) (level : List α) : List α :=
  if 1 < level.length then climb node (nextLevel node level) else level
termination_by level.length
decreasing_by
  rw [length_nextLevel]
  omega

theorem climb_of_lt {level : List α} (node : α → α → α) (h : 1 < level.length) :
    climb node level = climb node (nextLevel node level) := by
  rw [climb, if_pos h]

theorem climb_of_le {level : List α} (node : α → α → α) (h : level.length ≤ 1) :
    climb node level = level := by
  rw [climb, if_neg (Nat.not_lt.2 h)]

/-- Whatever every level has, the last one has. -/
theorem climb_induction {node : α → α → α} (motive : List α → Prop)
    (hnext : ∀ level, motive level → motive (nextLevel node level)) {level : List α}
    (h : motive level) : motive (climb node level) := by
  induction level using climb.induct node with
  | case1 level hlen ih =>
    rw [climb_of_lt node hlen]
    exact ih (hnext level h)
  | case2 level hlen => rwa [climb_of_le node (Nat.not_lt.1 hlen)]

theorem length_climb_le (node : α → α → α) (level : List α) : (climb node level).length ≤ 1 := by
  induction level using climb.induct node with
  | case1 level hlen ih => rwa [climb_of_lt node hlen]
  | case2 level hlen =>
    rw [climb_of_le node (Nat.not_lt.1 hlen)]
    exact Nat.not_lt.1 hlen

theorem climb_ne_nil {node : α → α → α} {level : List α} (h : level ≠ []) :
    climb node level ≠ [] := by
  refine climb_induction (· ≠ []) (fun level hlevel => ?_) h
  cases level with
  | nil => exact absurd rfl hlevel
  | cons left rest => cases rest <;> simp [nextLevel]

/-- One node is left of a list that is not empty. -/
theorem exists_climb_eq {level : List α} (node : α → α → α) (h : level ≠ []) :
    ∃ root, climb node level = [root] :=
  List.length_eq_one_iff.1 (Nat.le_antisymm (length_climb_le node level)
    (List.length_pos_iff.2 (climb_ne_nil h)))

theorem nextLevel_map {node : α → α → α} {node' : β → β → β} {f : α → β}
    (hf : ∀ a b, f (node a b) = node' (f a) (f b)) (level : List α) :
    nextLevel node' (level.map f) = (nextLevel node level).map f := by
  induction level using nextLevel.induct with
  | case1 => rfl
  | case2 left => simp [nextLevel, hf]
  | case3 left right rest ih => simp [nextLevel, hf, ih]

/-- A homomorphism of the nodes may be applied before or after. -/
theorem climb_map {node : α → α → α} {node' : β → β → β} {f : α → β}
    (hf : ∀ a b, f (node a b) = node' (f a) (f b)) (level : List α) :
    climb node' (level.map f) = (climb node level).map f := by
  induction level using climb.induct node with
  | case1 level hlen ih =>
    rw [climb_of_lt node hlen, ← ih, climb_of_lt node' (by rwa [List.length_map]),
      nextLevel_map hf]
  | case2 level hlen =>
    have hle := Nat.not_lt.1 hlen
    rw [climb_of_le node hle, climb_of_le node' (by rwa [List.length_map])]

/-- An odd level may as well repeat its last node. -/
theorem nextLevel_append_last {level : List α} (node : α → α → α) {last : α}
    (hodd : level.length % 2 = 1) (hlast : level.getLast? = some last) :
    nextLevel node (level ++ [last]) = nextLevel node level := by
  induction level using nextLevel.induct with
  | case1 => simp at hodd
  | case2 left =>
    obtain rfl : left = last := Option.some.inj hlast
    rfl
  | case3 left right rest ih =>
    have hrest : rest ≠ [] := by
      rintro rfl
      simp at hodd
    rw [List.cons_append, List.cons_append, nextLevel, nextLevel, ih]
    · simp only [List.length_cons] at hodd
      omega
    · rwa [List.getLast?_cons_of_ne_nil (List.cons_ne_nil _ _),
        List.getLast?_cons_of_ne_nil hrest] at hlast

theorem climb_append_last {level : List α} (node : α → α → α) {last : α}
    (hodd : level.length % 2 = 1) (hlen : 1 < level.length)
    (hlast : level.getLast? = some last) : climb node (level ++ [last]) = climb node level := by
  rw [climb_of_lt node hlen, climb_of_lt node, nextLevel_append_last node hodd hlast]
  rw [List.length_append]
  omega

/-! ### The tree -/

/-- A binary tree with its values at the leaves. -/
inductive Tree (α : Type*)
  | leaf (value : α)
  | node (left right : Tree α)

namespace Tree

/-- The value of a tree. -/
def eval (leaf : α → β) (node : β → β → β) : Tree α → β
  | .leaf value => leaf value
  | .node left right => node (left.eval leaf node) (right.eval leaf node)

/-- The leaves, from left to right. -/
def leaves : Tree α → List α
  | .leaf value => [value]
  | .node left right => left.leaves ++ right.leaves

/-- All leaves are at one depth. -/
def Perfect : ℕ → Tree α → Prop
  | 0, t => ∃ value, t = .leaf value
  | depth + 1, t => ∃ left right, t = .node left right ∧ left.Perfect depth ∧ right.Perfect depth

theorem Perfect.length_leaves {depth : ℕ} {t : Tree α} (h : t.Perfect depth) :
    t.leaves.length = 2 ^ depth := by
  induction depth generalizing t with
  | zero =>
    obtain ⟨value, rfl⟩ := h
    rfl
  | succ depth ih =>
    obtain ⟨left, right, rfl, hl, hr⟩ := h
    rw [leaves, List.length_append, ih hl, ih hr]
    omega

/-- A perfect tree is determined by its leaves. -/
theorem Perfect.eq_of_leaves {depth depth' : ℕ} {t u : Tree α} (ht : t.Perfect depth)
    (hu : u.Perfect depth') (h : t.leaves = u.leaves) : t = u := by
  have hdepth : depth = depth' := by
    have hlen := congrArg List.length h
    rw [ht.length_leaves, hu.length_leaves] at hlen
    exact Nat.pow_right_injective le_rfl hlen
  subst hdepth
  induction depth generalizing t u with
  | zero =>
    obtain ⟨value, rfl⟩ := ht
    obtain ⟨value', rfl⟩ := hu
    rw [List.singleton_inj.1 h]
  | succ depth ih =>
    obtain ⟨left, right, rfl, hl, hr⟩ := ht
    obtain ⟨left', right', rfl, hl', hr'⟩ := hu
    obtain ⟨hleft, hright⟩ := List.append_inj h (by rw [hl.length_leaves, hl'.length_leaves])
    rw [ih hl hleft hl', ih hr hright hr']

end Tree

/-- The tree over a list; none over the empty one. -/
def trees (xs : List α) : List (Tree α) := climb .node (xs.map .leaf)

/-- The list with what the odd levels repeat: while there is more than one block, an odd
last block of 1, 2, 4, … elements stands twice. -/
def padded (xs : List α) : List α := (climb (· ++ ·) (xs.map fun x => [x])).flatten

/-- A computation by levels is the value of the tree. -/
theorem climb_eq_eval (leaf : α → β) (node : β → β → β) (xs : List α) :
    climb node (xs.map leaf) = (trees xs).map (Tree.eval leaf node) := by
  have hclimb : climb node ((xs.map Tree.leaf).map (Tree.eval leaf node)) =
      (climb Tree.node (xs.map Tree.leaf)).map (Tree.eval leaf node) :=
    climb_map (fun _ _ => rfl) _
  rw [trees, ← hclimb, List.map_map]
  rfl

theorem padded_map (f : α → β) (xs : List α) : padded (xs.map f) = (padded xs).map f := by
  have hclimb := climb_map (f := List.map f) (fun _ _ => List.map_append) (xs.map fun x => [x])
  rw [padded, padded, List.map_flatten, ← hclimb, List.map_map, List.map_map]
  rfl

theorem padded_eq_leaves (xs : List α) : padded xs = ((trees xs).map Tree.leaves).flatten := by
  rw [padded, climb_eq_eval]
  congr 2
  funext t
  induction t with
  | leaf value => rfl
  | node left right hl hr => simp only [Tree.eval, Tree.leaves, hl, hr]

/-- All nodes of one level have one depth. -/
theorem perfect_nextLevel {depth : ℕ} {level : List (Tree α)} (h : ∀ t ∈ level, t.Perfect depth) :
    ∀ t ∈ nextLevel .node level, t.Perfect (depth + 1) := by
  induction level using nextLevel.induct with
  | case1 => exact fun t ht => absurd ht List.not_mem_nil
  | case2 left =>
    intro t ht
    rw [nextLevel, List.mem_singleton] at ht
    have hleft := h left (List.mem_singleton_self left)
    exact ⟨left, left, ht, hleft, hleft⟩
  | case3 left right rest ih =>
    intro t ht
    rw [nextLevel, List.mem_cons] at ht
    rcases ht with rfl | ht
    · exact ⟨left, right, rfl, h left (by simp), h right (by simp)⟩
    · exact ih (fun t ht => h t (by simp [ht])) t ht

theorem exists_perfect (xs : List α) : ∃ depth, ∀ t ∈ trees xs, t.Perfect depth := by
  refine climb_induction (fun level => ∃ depth, ∀ t ∈ level, Tree.Perfect depth t)
    (fun level h => ?_) ⟨0, fun t ht => ?_⟩
  · obtain ⟨depth, h⟩ := h
    exact ⟨depth + 1, perfect_nextLevel h⟩
  · obtain ⟨x, -, rfl⟩ := List.mem_map.1 ht
    exact ⟨x, rfl⟩

theorem exists_trees_eq {xs : List α} (h : xs ≠ []) : ∃ t, trees xs = [t] :=
  exists_climb_eq _ (by simpa using h)

theorem trees_nil : trees ([] : List α) = [] := climb_of_le _ (Nat.zero_le 1)

theorem padded_nil : padded ([] : List α) = [] := by
  rw [padded_eq_leaves, trees_nil]
  rfl

theorem padded_ne_nil {xs : List α} (h : xs ≠ []) : padded xs ≠ [] := by
  obtain ⟨t, ht⟩ := exists_trees_eq h
  obtain ⟨depth, hperfect⟩ := exists_perfect xs
  have hlen := (hperfect t (ht ▸ List.mem_singleton_self t)).length_leaves
  rw [padded_eq_leaves, ht, List.map_singleton, List.flatten_singleton]
  exact List.ne_nil_of_length_pos (hlen ▸ Nat.two_pow_pos depth)

/-- **The tree is determined by the padded list.** -/
theorem trees_eq_iff {xs ys : List α} : trees xs = trees ys ↔ padded xs = padded ys := by
  refine ⟨fun h => by rw [padded_eq_leaves, padded_eq_leaves, h], fun h => ?_⟩
  by_cases hxs : xs = []
  · subst hxs
    have hys : ys = [] := not_not.1 fun hne => padded_ne_nil hne (h.symm.trans padded_nil)
    rw [hys]
  by_cases hys : ys = []
  · subst hys
    exact absurd (h.trans padded_nil) (padded_ne_nil hxs)
  obtain ⟨t, ht⟩ := exists_trees_eq hxs
  obtain ⟨u, hu⟩ := exists_trees_eq hys
  obtain ⟨depth, hperfect⟩ := exists_perfect xs
  obtain ⟨depth', hperfect'⟩ := exists_perfect ys
  rw [padded_eq_leaves, padded_eq_leaves, ht, hu] at h
  simp only [List.map_singleton, List.flatten_singleton] at h
  rw [ht, hu, (hperfect t (ht ▸ List.mem_singleton_self t)).eq_of_leaves
    (hperfect' u (hu ▸ List.mem_singleton_self u)) h]

/-! ### Hashes -/

/-- A hash, and what it is given for a leaf and for a node.  A leaf is never taken for
a node. -/
structure Hashing (α β γ : Type*) where
  hash : γ → β
  leafInput : α → γ
  nodeInput : β → β → γ
  leafInput_injective : Function.Injective leafInput
  nodeInput_injective : ∀ {a b c d}, nodeInput (hash a) (hash b) = nodeInput (hash c) (hash d) →
    hash a = hash c ∧ hash b = hash d
  leafInput_ne_nodeInput : ∀ a b c, leafInput a ≠ nodeInput b c

namespace Hashing

variable (H : Hashing α β γ)

/-- The hash of a tree. -/
def digest : Tree α → β :=
  Tree.eval (fun a => H.hash (H.leafInput a)) fun left right => H.hash (H.nodeInput left right)

/-- What the hash is given for the root of a tree. -/
def input : Tree α → γ
  | .leaf value => H.leafInput value
  | .node left right => H.nodeInput (H.digest left) (H.digest right)

/-- All that the hash is given for a tree. -/
def inputs : Tree α → List γ
  | .leaf value => [H.leafInput value]
  | .node left right =>
    H.nodeInput (H.digest left) (H.digest right) :: (inputs left ++ inputs right)

variable {H}

theorem digest_eq_hash (t : Tree α) : H.digest t = H.hash (H.input t) := by
  cases t <;> rfl

theorem input_mem_inputs (t : Tree α) : H.input t ∈ H.inputs t := by
  cases t <;> exact List.mem_cons_self ..

theorem nodeInput_digest_injective {a b c d : Tree α}
    (h : H.nodeInput (H.digest a) (H.digest b) = H.nodeInput (H.digest c) (H.digest d)) :
    H.digest a = H.digest c ∧ H.digest b = H.digest d := by
  rw [digest_eq_hash a, digest_eq_hash b, digest_eq_hash c, digest_eq_hash d] at h ⊢
  exact H.nodeInput_injective h

/-- **A hash without collisions determines the tree.** -/
theorem digest_injective {t u : Tree α}
    (hfree : ∀ a ∈ H.inputs t, ∀ b ∈ H.inputs u, H.hash a = H.hash b → a = b)
    (h : H.digest t = H.digest u) : t = u := by
  induction t generalizing u with
  | leaf value =>
    have hinput := hfree _ (input_mem_inputs _) _ (input_mem_inputs u)
      ((digest_eq_hash _).symm.trans (h.trans (digest_eq_hash u)))
    cases u with
    | leaf value' => rw [H.leafInput_injective hinput]
    | node left right => exact (H.leafInput_ne_nodeInput value _ _ hinput).elim
  | node left right ihl ihr =>
    have hinput := hfree _ (input_mem_inputs _) _ (input_mem_inputs u)
      ((digest_eq_hash _).symm.trans (h.trans (digest_eq_hash u)))
    cases u with
    | leaf value => exact (H.leafInput_ne_nodeInput value _ _ hinput.symm).elim
    | node left' right' =>
      obtain ⟨hleft, hright⟩ := nodeInput_digest_injective hinput
      rw [ihl (fun a ha b hb => hfree a (by simp [inputs, ha]) b (by simp [inputs, hb])) hleft,
        ihr (fun a ha b hb => hfree a (by simp [inputs, ha]) b (by simp [inputs, hb])) hright]

end Hashing

end Merkle
end Lib
end Boveda

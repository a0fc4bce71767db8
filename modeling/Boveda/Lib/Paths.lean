/-
# POSIX paths

`os.path.join`, `os.path.normpath` and `os.path.abspath` of Python on texts.

A component joined to a path may be joined before or after the path is made absolute
(`abspath_join`), and is recovered from it (`join_inj`).
-/

import Mathlib.Data.List.Basic
import Mathlib.Tactic.Common

namespace Boveda
namespace Lib
namespace Paths

/-- `path.split("/")`. -/
def split : List Char → List (List Char)
  | [] => [[]]
  | c :: rest =>
    if c = '/' then [] :: split rest
    else
      match split rest with
      | comp :: comps => (c :: comp) :: comps
      | [] => [[c]]

/-- `os.path.join(path, b)`. -/
def join (path b : List Char) : List Char :=
  if b.head? = some '/' then b
  else if path = [] ∨ path.getLast? = some '/' then path ++ b
  else path ++ '/' :: b

/-- The slashes that a normal path keeps at its front: two stay two, more are one. -/
def initialSlashes (path : List Char) : ℕ :=
  if path.take 1 ≠ ['/'] then 0
  else if path.take 2 = ['/', '/'] ∧ path.take 3 ≠ ['/', '/', '/'] then 2
  else 1

/-- One component of a path; the stack has the last one first. -/
def normStep (absolute : Bool) (stack : List (List Char)) (comp : List Char) : List (List Char) :=
  if comp = [] ∨ comp = ['.'] then stack
  else if comp ≠ ['.', '.'] ∨ (absolute = false ∧ stack = []) ∨ stack.head? = some ['.', '.'] then
    comp :: stack
  else stack.tail

/-- The components of a normal path, the last one first. -/
def normStack (path : List Char) : List (List Char) :=
  (split path).foldl (normStep (initialSlashes path != 0)) []

/-- `"/".join(comps)`. -/
def slashed : List (List Char) → List Char
  | [] => []
  | [comp] => comp
  | comp :: comp' :: comps => comp ++ '/' :: slashed (comp' :: comps)

/-- `os.path.normpath`. -/
def normpath (path : List Char) : List Char :=
  let text := List.replicate (initialSlashes path) '/' ++ slashed (normStack path).reverse
  if text = [] then ['.'] else text

def isabs (path : List Char) : Prop := path.head? = some '/'

instance : DecidablePred isabs := fun _ => inferInstanceAs (Decidable (_ = _))

/-- `os.path.abspath` in a working directory. -/
def abspath (cwd path : List Char) : List Char :=
  normpath (if isabs path then path else join cwd path)

/-- A name in a directory. -/
structure IsComponent (name : List Char) : Prop where
  ne_nil : name ≠ []
  noSlash : '/' ∉ name
  ne_dot : name ≠ ['.']
  ne_dots : name ≠ ['.', '.']

variable {name path : List Char}

theorem IsComponent.head?_ne (h : IsComponent name) : name.head? ≠ some '/' := fun hhead =>
  h.noSlash (List.mem_of_mem_head? hhead)

theorem split_ne_nil (path : List Char) : split path ≠ [] := by
  cases path with
  | nil => exact List.cons_ne_nil _ _
  | cons c rest =>
    rw [split]
    split_ifs
    · exact List.cons_ne_nil _ _
    · cases split rest <;> exact List.cons_ne_nil _ _

theorem split_append (path rest : List Char) :
    split (path ++ '/' :: rest) = split path ++ split rest := by
  induction path with
  | nil =>
    show (if '/' = '/' then [] :: split rest else _) = _
    rw [if_pos rfl]
    rfl
  | cons c path ih =>
    by_cases hc : c = '/'
    · rw [List.cons_append, split, if_pos hc, ih, split, if_pos hc, List.cons_append]
    · rw [List.cons_append, split, if_neg hc, ih, split, if_neg hc]
      cases hsplit : split path with
      | nil => exact absurd hsplit (split_ne_nil path)
      | cons comp comps => rfl

theorem split_of_noSlash (h : '/' ∉ name) : split name = [name] := by
  induction name with
  | nil => rfl
  | cons c name ih =>
    rw [List.mem_cons, not_or] at h
    rw [split, if_neg (Ne.symm h.1), ih h.2]

theorem noSlash_of_mem_split : ∀ comp ∈ split path, '/' ∉ comp := by
  induction path with
  | nil =>
    intro comp h
    rw [List.mem_singleton.1 h]
    exact List.not_mem_nil
  | cons c path ih =>
    rw [split]
    split_ifs with hc
    · exact List.forall_mem_cons.2 ⟨List.not_mem_nil, ih⟩
    · cases hsplit : split path with
      | nil => exact List.forall_mem_singleton.2 fun h => hc (List.mem_singleton.1 h).symm
      | cons comp comps =>
        rw [hsplit] at ih
        obtain ⟨hcomp, hcomps⟩ := List.forall_mem_cons.1 ih
        refine List.forall_mem_cons.2 ⟨fun h => ?_, hcomps⟩
        rcases List.mem_cons.1 h with h | h
        · exact hc h.symm
        · exact hcomp h

/-- What a normal path is made of. -/
theorem normStep_sound {absolute : Bool} {stack : List (List Char)} {comp : List Char}
    (hstack : ∀ c ∈ stack, c ≠ [] ∧ '/' ∉ c) (hcomp : '/' ∉ comp) :
    ∀ c ∈ normStep absolute stack comp, c ≠ [] ∧ '/' ∉ c := by
  unfold normStep
  split_ifs with hskip
  · exact hstack
  · exact List.forall_mem_cons.2 ⟨⟨fun h => hskip (.inl h), hcomp⟩, hstack⟩
  · exact fun c hc => hstack c (List.mem_of_mem_tail hc)

theorem normStack_sound (path : List Char) : ∀ c ∈ normStack path, c ≠ [] ∧ '/' ∉ c := by
  have hfold (absolute : Bool) (comps stack : List (List Char)) (hcomps : ∀ c ∈ comps, '/' ∉ c)
      (hstack : ∀ c ∈ stack, c ≠ [] ∧ '/' ∉ c) :
      ∀ c ∈ comps.foldl (normStep absolute) stack, c ≠ [] ∧ '/' ∉ c := by
    induction comps generalizing stack with
    | nil => exact hstack
    | cons comp comps ih =>
      obtain ⟨hcomp, hcomps⟩ := List.forall_mem_cons.1 hcomps
      exact ih _ hcomps (normStep_sound hstack hcomp)
  exact hfold _ _ _ noSlash_of_mem_split fun c hc => absurd hc List.not_mem_nil

theorem slashed_concat (comps : List (List Char)) (h : comps ≠ []) (name : List Char) :
    slashed (comps ++ [name]) = slashed comps ++ '/' :: name := by
  induction comps with
  | nil => exact absurd rfl h
  | cons comp comps ih =>
    cases comps with
    | nil => rfl
    | cons comp' comps =>
      show comp ++ '/' :: slashed (comp' :: comps ++ [name]) = _
      rw [ih (List.cons_ne_nil _ _), slashed, List.append_assoc, List.cons_append]

theorem getLast?_ne_slash (h : '/' ∉ name) : name.getLast? ≠ some '/' := fun hlast =>
  h (List.mem_of_mem_getLast? hlast)

theorem getLast?_slashed {comps : List (List Char)} (h : ∀ c ∈ comps, c ≠ [] ∧ '/' ∉ c) :
    (slashed comps).getLast? ≠ some '/' := by
  rcases List.eq_nil_or_concat comps with rfl | ⟨init, last, rfl⟩
  · decide
  rw [List.concat_eq_append] at h ⊢
  obtain ⟨hne, hslash⟩ := h last (by simp)
  by_cases hinit : init = []
  · subst hinit
    exact getLast?_ne_slash hslash
  · rw [slashed_concat init hinit, List.getLast?_append_of_ne_nil _ (List.cons_ne_nil _ _),
      List.getLast?_cons_of_ne_nil hne]
    exact getLast?_ne_slash hslash

/-- A component is put behind a path. -/
theorem join_eq (h : IsComponent name) (hpath : path ≠ []) (hlast : path.getLast? ≠ some '/') :
    join path name = path ++ '/' :: name := by
  rw [join, if_neg h.head?_ne, if_neg (not_or.2 ⟨hpath, hlast⟩)]

theorem join_eq_append (h : IsComponent name) (hlast : path.getLast? = some '/') :
    join path name = path ++ name := by
  rw [join, if_neg h.head?_ne, if_pos (.inr hlast)]

/-- The component is recovered. -/
theorem join_inj {name' : List Char} (h : IsComponent name) (h' : IsComponent name')
    (heq : join path name = join path name') : name = name' := by
  rw [join, join, if_neg h.head?_ne, if_neg h'.head?_ne] at heq
  split_ifs at heq
  · exact List.append_cancel_left heq
  · exact (List.cons.inj (List.append_cancel_left heq)).2

theorem join_eq_or (h : IsComponent name) (path : List Char) :
    join path name = path ++ name ∨ join path name = path ++ '/' :: name := by
  rw [join, if_neg h.head?_ne]
  split_ifs
  · exact .inl rfl
  · exact .inr rfl

theorem join_ne_nil (h : IsComponent name) (path : List Char) : join path name ≠ [] := by
  rcases join_eq_or h path with heq | heq
  · rw [heq]
    simp [h.ne_nil]
  · rw [heq]
    simp

theorem getLast?_join (h : IsComponent name) (path : List Char) :
    (join path name).getLast? ≠ some '/' := by
  rcases join_eq_or h path with heq | heq
  · rw [heq, List.getLast?_append_of_ne_nil _ h.ne_nil]
    exact getLast?_ne_slash h.noSlash
  · rw [heq, List.getLast?_append_of_ne_nil _ (List.cons_ne_nil _ _),
      List.getLast?_cons_of_ne_nil h.ne_nil]
    exact getLast?_ne_slash h.noSlash

/-- A directory is recovered from the paths of its files. -/
theorem join_join_inj {file name' path' : List Char} (hfile : IsComponent file)
    (h : IsComponent name) (h' : IsComponent name')
    (heq : join (join path name) file = join (join path' name') file) :
    join path name = join path' name' := by
  rw [join_eq hfile (join_ne_nil h path) (getLast?_join h path),
    join_eq hfile (join_ne_nil h' path') (getLast?_join h' path')] at heq
  exact List.append_cancel_right heq

theorem isabs_iff : isabs path ↔ path.take 1 = ['/'] := by
  cases path with
  | nil => decide
  | cons c rest => simp [isabs]

theorem initialSlashes_pos (hpath : isabs path) : initialSlashes path ≠ 0 := by
  rw [initialSlashes, if_neg (not_not.2 (isabs_iff.1 hpath))]
  split_ifs <;> decide

/-- A component does not change the slashes at the front. -/
theorem initialSlashes_join (h : IsComponent name) (hpath : isabs path) :
    initialSlashes (join path name) = initialSlashes path := by
  obtain ⟨c, name', rfl⟩ := List.exists_cons_of_ne_nil h.ne_nil
  have hc : c ≠ '/' := fun heq => h.noSlash (by simp [heq])
  obtain ⟨rest, rfl⟩ : ∃ rest, path = '/' :: rest := by
    cases path with
    | nil => cases hpath
    | cons d rest => exact ⟨rest, congrArg (· :: rest) (Option.some.inj hpath)⟩
  rcases rest with - | ⟨d, - | ⟨e, rest⟩⟩
  · rw [join_eq_append h rfl]
    simp [initialSlashes, hc]
  · by_cases hd : d = '/'
    · subst hd
      rw [join_eq_append h rfl]
      simp [initialSlashes, hc]
    · rw [join_eq h (List.cons_ne_nil _ _) (by simpa using hd)]
      simp [initialSlashes, hd]
  · rcases join_eq_or h ('/' :: d :: e :: rest) with heq | heq
    · rw [heq]
      simp [initialSlashes]
    · rw [heq]
      simp [initialSlashes]

theorem normStep_component (h : IsComponent name) (absolute : Bool) (stack : List (List Char)) :
    normStep absolute stack name = name :: stack := by
  rw [normStep, if_neg (not_or.2 ⟨h.ne_nil, h.ne_dot⟩), if_pos (.inl h.ne_dots)]

/-- A component is one more on the stack. -/
theorem normStack_join (h : IsComponent name) (hpath : isabs path) :
    normStack (join path name) = name :: normStack path := by
  have hne : path ≠ [] := by
    rintro rfl
    cases hpath
  rw [normStack, normStack, initialSlashes_join h hpath]
  by_cases hlast : path.getLast? = some '/'
  · -- the slash at the end is there already
    obtain ⟨init, rfl⟩ := List.getLast?_eq_some_iff.1 hlast
    rw [join_eq_append h hlast, List.append_assoc, List.singleton_append, split_append,
      split_append, split_of_noSlash h.noSlash, List.foldl_append, List.foldl_append]
    exact normStep_component h _ _
  · rw [join_eq h hne hlast, split_append, split_of_noSlash h.noSlash, List.foldl_append]
    exact normStep_component h _ _

theorem normpath_of_isabs (hpath : isabs path) : normpath path =
    List.replicate (initialSlashes path) '/' ++ slashed (normStack path).reverse := by
  have hpos := initialSlashes_pos hpath
  refine if_neg fun hnil => hpos ?_
  have hlen := congrArg List.length hnil
  rw [List.length_append, List.length_replicate] at hlen
  simp only [List.length_nil] at hlen
  omega

theorem isabs_join {b : List Char} (hpath : isabs path) : isabs (join path b) := by
  unfold join
  split_ifs with hb
  · exact hb
  · cases path with
    | nil => cases hpath
    | cons c rest => exact hpath
  · cases path with
    | nil => cases hpath
    | cons c rest => exact hpath

theorem not_isabs_join (h : IsComponent name) (hpath : ¬ isabs path) :
    ¬ isabs (join path name) := by
  cases path with
  | nil =>
    rw [join, if_neg h.head?_ne, if_pos (.inl rfl)]
    exact h.head?_ne
  | cons c rest =>
    rcases join_eq_or h (c :: rest) with heq | heq
    · rw [heq]
      exact hpath
    · rw [heq]
      exact hpath

theorem slashed_ne_nil {comps : List (List Char)} (hne : comps ≠ [])
    (h : ∀ c ∈ comps, c ≠ [] ∧ '/' ∉ c) : slashed comps ≠ [] := by
  match comps, hne with
  | [comp], _ => exact (h comp (List.mem_singleton_self _)).1
  | comp :: comp' :: comps, _ => simp [slashed]

theorem normpath_join (h : IsComponent name) (hpath : isabs path) :
    normpath (join path name) = join (normpath path) name := by
  have hjoin : isabs (join path name) := isabs_join hpath
  rw [normpath_of_isabs hpath, normpath_of_isabs hjoin, initialSlashes_join h hpath,
    normStack_join h hpath, List.reverse_cons]
  have hslashes : List.replicate (initialSlashes path) '/' ≠ [] := by
    simpa using initialSlashes_pos hpath
  have hsound : ∀ c ∈ (normStack path).reverse, c ≠ [] ∧ '/' ∉ c := fun c hc =>
    normStack_sound path c (List.mem_reverse.1 hc)
  by_cases hstack : (normStack path).reverse = []
  · have hlast : (List.replicate (initialSlashes path) '/').getLast? = some '/' := by
      rw [List.getLast?_replicate, if_neg (initialSlashes_pos hpath)]
    rw [hstack, slashed, List.append_nil, List.nil_append, join_eq_append h hlast, slashed]
  · have hlast : (List.replicate (initialSlashes path) '/' ++
        slashed (normStack path).reverse).getLast? ≠ some '/' := by
      rw [List.getLast?_append_of_ne_nil _ (slashed_ne_nil hstack hsound)]
      exact getLast?_slashed hsound
    rw [join_eq h (by simp [hslashes]) hlast, slashed_concat _ hstack, List.append_assoc]

/-- The working directory and its slash are put in front. -/
theorem exists_join_eq_append {cwd : List Char} (hcwd : isabs cwd) :
    ∃ front, front.getLast? = some '/' ∧ ∀ b, ¬ isabs b → join cwd b = front ++ b := by
  have hcwd_ne : cwd ≠ [] := by
    rintro rfl
    cases hcwd
  by_cases hlast : cwd.getLast? = some '/'
  · refine ⟨cwd, hlast, fun b hb => ?_⟩
    rw [join, if_neg (show b.head? ≠ some '/' from hb), if_pos (.inr hlast)]
  · refine ⟨cwd ++ ['/'], List.getLast?_concat .., fun b hb => ?_⟩
    rw [join, if_neg (show b.head? ≠ some '/' from hb), if_neg (not_or.2 ⟨hcwd_ne, hlast⟩),
      List.append_assoc, List.singleton_append]

/-- A path that is not absolute begins in the working directory. -/
theorem join_join {cwd : List Char} (h : IsComponent name) (hcwd : isabs cwd)
    (hpath : ¬ isabs path) : join cwd (join path name) = join (join cwd path) name := by
  obtain ⟨front, hfront, hjoin⟩ := exists_join_eq_append hcwd
  rw [hjoin _ (not_isabs_join h hpath), hjoin _ hpath]
  by_cases hnil : path = []
  · rw [hnil, List.append_nil, join_eq_append h hfront, join, if_neg h.head?_ne, if_pos (.inl rfl),
      List.nil_append]
  have hlast_eq : (front ++ path).getLast? = path.getLast? :=
    List.getLast?_append_of_ne_nil _ hnil
  by_cases hlast : path.getLast? = some '/'
  · rw [join_eq_append h hlast, join_eq_append h (hlast_eq.trans hlast), List.append_assoc]
  · rw [join_eq h hnil hlast, join_eq h (by simp [hnil]) (fun h' => hlast (hlast_eq.symm.trans h')),
      List.append_assoc]

/-- **A component and the working directory** may be joined in either order. -/
theorem abspath_join {cwd : List Char} (hcwd : isabs cwd) (h : IsComponent name)
    (path : List Char) : abspath cwd (join path name) = join (abspath cwd path) name := by
  unfold abspath
  by_cases hpath : isabs path
  · rw [if_pos hpath, if_pos (isabs_join hpath), normpath_join h hpath]
  · rw [if_neg hpath, if_neg (not_isabs_join h hpath), join_join h hcwd hpath,
      normpath_join h (isabs_join hcwd)]

end Paths
end Lib
end Boveda

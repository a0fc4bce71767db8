/-
# Pipes of the kernel

What a process writes goes into a pipe.  How much of a write goes in before the process is
blocked is up to the kernel, and no matter of bytes alone: a pipe of 64 KiB is one of 16 pages,
and a write that does not fit into what is left of the newest page begins another one.

`KernelPipe` is what can be relied upon of any pipe, `ofPages` is the pipe of Linux
(`pipe_write` and `pipe_read` of `fs/pipe.c`).  `Holds` says that a number of writes go in one
after the other though nobody reads.
-/

import Mathlib.Algebra.Order.BigOperators.Group.List
import Mathlib.Algebra.Order.Ring.Nat

namespace Boveda
namespace Lib

/-- A pipe, as far as lengths go. -/
structure KernelPipe where
  Contents : Type
  empty : Contents
  length : Contents → ℕ
  /-- How much goes in at once of a write that has so many bytes to go. -/
  takes : Contents → ℕ → ℕ
  /-- That much of such a write has gone in. -/
  put : Contents → ℕ → Contents
  /-- So many bytes have been read. -/
  get : Contents → ℕ → Contents
  length_empty : length empty = 0
  takes_le : ∀ p n, takes p n ≤ n
  /-- An empty pipe takes something of every write. -/
  takes_pos : ∀ p n, length p = 0 → 0 < n → 0 < takes p n
  length_put : ∀ p n, length (put p n) = length p + takes p n
  length_get : ∀ p k, k ≤ length p → length (get p k) = length p - k
  /-- What a write can put in, it puts in. -/
  takes_put : ∀ p n, takes p n < n → takes (put p n) (n - takes p n) = 0

/-- A pipe with a reader behind it: the limit of the reader's buffer, and how much the event
loop reads at once. -/
structure ReadPipe where
  kernel : KernelPipe
  limit : ℕ
  readMax : ℕ
  readMax_pos : 0 < readMax

namespace KernelPipe

variable (K : KernelPipe)

/-- All of these writes go in, one after the other, though nobody reads. -/
def Holds : K.Contents → List ℕ → Prop
  | _, [] => True
  | p, n :: writes => K.takes p n = n ∧ Holds (K.put p n) writes

instance Holds.decidable : ∀ (p : K.Contents) (writes : List ℕ), Decidable (K.Holds p writes)
  | _, [] => .isTrue trivial
  | p, n :: writes =>
    have := Holds.decidable (K.put p n) writes
    inferInstanceAs (Decidable (_ ∧ _))

variable {K}

/-- What goes in is in the pipe. -/
theorem Holds.exists_length {p : K.Contents} {writes : List ℕ} (h : K.Holds p writes) :
    ∃ q, K.length q = K.length p + writes.sum := by
  induction writes generalizing p with
  | nil => exact ⟨p, rfl⟩
  | cons n writes ih =>
    obtain ⟨htakes, hrest⟩ := h
    obtain ⟨q, hq⟩ := ih hrest
    refine ⟨q, ?_⟩
    rw [hq, K.length_put, htakes, List.sum_cons, Nat.add_assoc]

/-! ### Pages -/

/-- A page with data: how much of it has not been read, and where the data ends. -/
structure Page where
  left : ℕ
  stop : ℕ
  deriving DecidableEq, Repr

/-- The bytes in some pages. -/
def total (pages : List Page) : ℕ := (pages.map Page.left).sum

section

variable (count size : ℕ)

/-- The pages of a pipe, the newest first. -/
structure Valid (pages : List Page) : Prop where
  length_le : pages.length ≤ count
  page : ∀ p ∈ pages, 0 < p.left ∧ p.left ≤ p.stop ∧ p.stop ≤ size

/-- How much of a write goes into the newest page: what it has beside whole pages, if that
fits. -/
def merges : List Page → ℕ → ℕ
  | [], _ => 0
  | p :: _, n => if p.stop + n % size ≤ size then n % size else 0

/-- How much of a write goes into pages of its own. -/
def spills (pages : List Page) (n : ℕ) : ℕ :=
  min (n - merges size pages n) ((count - pages.length) * size)

/-- The newest page has more in it. -/
def extend : List Page → ℕ → List Page
  | [], _ => []
  | p :: pages, m => ⟨p.left + m, p.stop + m⟩ :: pages

/-- New pages. -/
def newPages (m : ℕ) : List Page :=
  (if m % size = 0 then [] else [⟨m % size, m % size⟩]) ++ List.replicate (m / size) ⟨size, size⟩

/-- What a write leaves. -/
def putPages (pages : List Page) (n : ℕ) : List Page :=
  newPages size (spills count size pages n) ++ extend pages (merges size pages n)

end

/-- What a read leaves; a page that has been read is gone. -/
def getPages : List Page → ℕ → List Page
  | [], _ => []
  | p :: pages, k =>
    let taken := k - total pages
    if taken < p.left then ⟨p.left - taken, p.stop⟩ :: getPages pages k else []

section

variable {count size : ℕ} {pages : List Page} {n k m : ℕ}

@[simp] theorem total_nil : total [] = 0 := rfl

@[simp] theorem total_cons (p : Page) (pages : List Page) :
    total (p :: pages) = p.left + total pages := rfl

theorem total_append (pages pages' : List Page) :
    total (pages ++ pages') = total pages + total pages' := by
  rw [total, List.map_append, List.sum_append]
  rfl

theorem merges_le : merges size pages n ≤ n := by
  cases pages with
  | nil => exact Nat.zero_le _
  | cons p pages =>
    rw [merges]
    split_ifs
    · exact Nat.mod_le ..
    · exact Nat.zero_le _

theorem total_newPages : total (newPages size m) = m := by
  have hdiv := Nat.mod_add_div m size
  rw [newPages, total_append]
  have hwhole : total (List.replicate (m / size) ⟨size, size⟩) = size * (m / size) := by
    rw [total, List.map_replicate, List.sum_replicate, Nat.nsmul_eq_mul, Nat.mul_comm]
  rw [hwhole]
  split_ifs with hmod
  · rw [total_nil]
    omega
  · rw [total_cons, total_nil]
    dsimp only
    omega

theorem total_extend (hm : pages = [] → m = 0) : total (extend pages m) = total pages + m := by
  cases pages with
  | nil => rw [hm rfl]; rfl
  | cons p pages =>
    rw [extend, total_cons, total_cons]
    dsimp only
    omega

theorem length_extend : (extend pages m).length = pages.length := by
  cases pages <;> rfl

theorem total_putPages : total (putPages count size pages n) =
    total pages + (merges size pages n + spills count size pages n) := by
  have hmerges : pages = [] → merges size pages n = 0 := by
    rintro rfl
    rfl
  rw [putPages, total_append, total_newPages, total_extend hmerges]
  omega

theorem length_newPages_le {free : ℕ} (hsize : 0 < size) (hm : m ≤ free * size) :
    (newPages size m).length ≤ free := by
  have hdiv : m / size ≤ free := Nat.div_le_of_le_mul (Nat.mul_comm free size ▸ hm)
  rw [newPages, List.length_append, List.length_replicate]
  split_ifs with hmod
  · rwa [List.length_nil, Nat.zero_add]
  · -- the last page is not full, and so the pages are not all taken
    have hlt : m / size < free := by
      rw [Nat.div_lt_iff_lt_mul hsize]
      refine lt_of_le_of_ne hm ?_
      rintro rfl
      exact hmod (Nat.mul_mod_left ..)
    rw [List.length_singleton]
    omega

theorem Valid.putPages (h : Valid count size pages) (hsize : 0 < size) (n : ℕ) :
    Valid count size (putPages count size pages n) := by
  have hspills : spills count size pages n ≤ (count - pages.length) * size := min_le_right _ _
  constructor
  · have hnew := length_newPages_le hsize hspills
    have := h.length_le
    rw [KernelPipe.putPages, List.length_append, length_extend]
    omega
  · refine List.forall_mem_append.2 ⟨List.forall_mem_append.2 ⟨?_, fun p hp => ?_⟩, ?_⟩
    · split_ifs with hmod
      · exact fun _ hp => absurd hp List.not_mem_nil
      · exact List.forall_mem_singleton.2
          ⟨Nat.pos_of_ne_zero hmod, le_rfl, (Nat.mod_lt _ hsize).le⟩
    · rw [List.eq_of_mem_replicate hp]
      exact ⟨hsize, le_rfl, le_rfl⟩
    · cases pages with
      | nil => exact fun _ hp => absurd hp List.not_mem_nil
      | cons p pages =>
        obtain ⟨hpos, hle, hstop⟩ := h.page p (List.mem_cons_self ..)
        refine List.forall_mem_cons.2 ⟨?_, fun q hq => h.page q (List.mem_cons_of_mem _ hq)⟩
        rw [merges]
        dsimp only
        split_ifs <;> omega

theorem total_getPages (h : ∀ p ∈ pages, 0 < p.left) :
    total (getPages pages k) = total pages - k := by
  induction pages with
  | nil => exact (Nat.zero_sub k).symm
  | cons p pages ih =>
    obtain ⟨hpos, hpages⟩ := List.forall_mem_cons.1 h
    have ih := ih hpages
    rw [getPages]
    split_ifs with htaken
    · rw [total_cons, total_cons, ih]
      dsimp only
      omega
    · rw [total_cons, total_nil]
      omega

theorem Valid.getPages (h : Valid count size pages) (k : ℕ) :
    Valid count size (getPages pages k) := by
  obtain ⟨hlength, hpage⟩ := h
  have hsub : (KernelPipe.getPages pages k).length ≤ pages.length ∧
      ∀ p ∈ KernelPipe.getPages pages k, 0 < p.left ∧ p.left ≤ p.stop ∧ p.stop ≤ size := by
    clear hlength
    induction pages with
    | nil => exact ⟨le_rfl, fun _ hp => absurd hp List.not_mem_nil⟩
    | cons p pages ih =>
      obtain ⟨⟨hpos, hle, hstop⟩, hpages⟩ := List.forall_mem_cons.1 hpage
      obtain ⟨ihlength, ihpage⟩ := ih hpages
      rw [KernelPipe.getPages]
      split_ifs with htaken
      · refine ⟨Nat.succ_le_succ ihlength, List.forall_mem_cons.2 ⟨?_, ihpage⟩⟩
        dsimp only
        omega
      · exact ⟨Nat.zero_le _, fun _ hp => absurd hp List.not_mem_nil⟩
  exact ⟨hsub.1.trans hlength, hsub.2⟩

theorem Valid.total_le (h : Valid count size pages) : total pages ≤ count * size := by
  have hle : ∀ n ∈ pages.map Page.left, n ≤ size := by
    refine List.forall_mem_map.2 fun p hp => ?_
    obtain ⟨-, hle, hstop⟩ := h.page p hp
    exact hle.trans hstop
  have hsum := List.sum_le_card_nsmul _ size hle
  rw [List.length_map, Nat.nsmul_eq_mul] at hsum
  exact hsum.trans (Nat.mul_le_mul_right _ h.length_le)

/-- A full page takes no more. -/
theorem merges_full : merges size (⟨k, size⟩ :: pages) n = 0 := by
  rw [merges]
  dsimp only
  split_ifs with hfits <;> omega

/-- What has not gone into the newest page does not go there later. -/
theorem merges_extend (hne : pages ≠ []) :
    merges size (extend pages (merges size pages n)) (n - merges size pages n) = 0 := by
  cases pages with
  | nil => exact absurd rfl hne
  | cons p pages =>
    rw [merges, extend, merges]
    split_ifs with hfits hrest hrest
    · exact Nat.mod_eq_zero_of_dvd (Nat.dvd_sub_mod n)
    · rfl
    · exact absurd hrest hfits
    · rfl

theorem newPages_mul (hsize : 0 < size) (free : ℕ) :
    newPages size (free * size) = List.replicate free ⟨size, size⟩ := by
  rw [newPages, if_pos (Nat.mul_mod_left ..), Nat.mul_div_cancel _ hsize, List.nil_append]

/-- **What a write can put in, it puts in**: what is left of it has to wait for a reader. -/
theorem takes_putPages (hcount : 0 < count) (hsize : 0 < size) (hlength : pages.length ≤ count)
    {rest : ℕ} (hrest : 0 < rest)
    (hn : n = merges size pages n + spills count size pages n + rest) :
    merges size (putPages count size pages n) rest +
      spills count size (putPages count size pages n) rest = 0 := by
  have hspills : spills count size pages n = (count - pages.length) * size := by
    unfold spills at hn ⊢
    omega
  have hfull : (putPages count size pages n).length = count := by
    rw [putPages, hspills, newPages_mul hsize, List.length_append, List.length_replicate,
      length_extend, Nat.sub_add_cancel hlength]
  have hnone : spills count size (putPages count size pages n) rest = 0 := by
    rw [spills, hfull, Nat.sub_self, Nat.zero_mul, Nat.min_zero]
  have hmerges : merges size (putPages count size pages n) rest = 0 := by
    rw [putPages, hspills, newPages_mul hsize]
    cases hfree : count - pages.length with
    | zero =>
      have hne : pages ≠ [] := by
        rintro rfl
        rw [List.length_nil] at hfree
        omega
      have hrest' : rest = n - merges size pages n := by
        rw [hspills, hfree, Nat.zero_mul] at hn
        omega
      rw [hrest']
      exact merges_extend hne
    | succ free => exact merges_full
  rw [hmerges, hnone]

end

/-- The pipe of Linux, of so many pages of a size. -/
def ofPages (count size : ℕ) (hcount : 0 < count) (hsize : 0 < size) : KernelPipe where
  Contents := { pages // Valid count size pages }
  empty := ⟨[], Nat.zero_le _, fun _ hp => absurd hp List.not_mem_nil⟩
  length p := total p.1
  takes p n := merges size p.1 n + spills count size p.1 n
  put p n := ⟨putPages count size p.1 n, p.2.putPages hsize n⟩
  get p k := ⟨getPages p.1 k, p.2.getPages k⟩
  length_empty := rfl
  takes_le p n := by
    have hmerges : merges size p.1 n ≤ n := merges_le
    have hspills : spills count size p.1 n ≤ n - merges size p.1 n := min_le_left _ _
    omega
  takes_pos p n hlength hn := by
    have hnil : p.1 = [] := by
      refine List.eq_nil_iff_forall_not_mem.2 fun q hq => ?_
      have hle : q.left ≤ total p.1 :=
        List.single_le_sum (fun _ _ => Nat.zero_le _) _ (List.mem_map_of_mem hq)
      have := (p.2.page q hq).1
      omega
    have hpos : 0 < count * size := Nat.mul_pos hcount hsize
    rw [hnil]
    exact (lt_min hn hpos).trans_le (Nat.le_add_left ..)
  length_put p n := total_putPages
  length_get p k _ := total_getPages fun q hq => (p.2.page q hq).1
  takes_put p n h := takes_putPages hcount hsize p.2.length_le (Nat.sub_pos_of_lt h)
    (Nat.add_sub_cancel' h.le).symm

/-- Sixteen pages of 4096 bytes, as `pipe` makes them. -/
def linux : KernelPipe := ofPages 16 4096 (by decide) (by decide)

/-- **The capacity is a bound** on what the pipe holds. -/
theorem length_linux_le (p : linux.Contents) : linux.length p ≤ 65536 := Valid.total_le p.2

/-- But it is not reached by any writes: of writes of 2049 bytes, each begins a page. -/
example : linux.Holds linux.empty (List.replicate 16 2049) ∧
    ¬ linux.Holds linux.empty (List.replicate 17 2049) := by decide

end KernelPipe

/-- A pipe of Linux, and the sizes of `asyncio`. -/
def ReadPipe.linux : ReadPipe := ⟨KernelPipe.linux, 65536, 262144, by decide⟩

end Lib
end Boveda

/-
# The retention policy

`classify_snapshots` (`src/boveda/retention.py`) decides which snapshots expire.  Of each
of the last twelve months the earliest snapshot is protected, of each of the last four ISO
weeks the latest, and every snapshot of the last seven days; of the others, those that are
`COMPLETED` expire.

`gfs` is the policy without the loops: a slot for each month, each week and each recent
snapshot.  What the function leaves is what the policy keeps (`kept_eq_keep`), so that
expiring after every backup leaves the same as expiring once
(`present_eq_kept_addedIn`).
-/

import Boveda.Catalog.Schema
import Boveda.Lib.Calendar
import Boveda.Lib.Slots

namespace Boveda
namespace Gfs

open Lib
open Catalog (Estado)

/-- The columns of a row of `snapshots` that `classify_snapshots` reads. -/
structure Snapshot where
  id : String
  timestamp : Datetime
  estado : Estado
  deriving DecidableEq

/-- `RETENTION_DAILY`. -/
def retentionDaily : ℕ := 7

/-- `RETENTION_WEEKLY`. -/
def retentionWeekly : ℕ := 4

/-- `RETENTION_MONTHLY`. -/
def retentionMonthly : ℕ := 12

/-- `now - relativedelta(months=n)` of `dateutil`: a datetime `n` months before.  It raises
when there is no such year, which is `none`. -/
structure Relativedelta where
  minusMonths : Datetime → ℕ → Option Datetime
  monthIndex : ∀ {now : Datetime} {n : ℕ} {target : Datetime}, minusMonths now n = some target →
    target.date.monthIndex = now.date.monthIndex - n
  exists_minusMonths : ∀ {now : Datetime} {n : ℕ}, 13 ≤ now.date.monthIndex - n →
    ∃ target, minusMonths now n = some target

/-- The test of the monthly loop. -/
def sameMonth (timestamp target : Datetime) : Bool :=
  timestamp.date.year = target.date.year && timestamp.date.month = target.date.month

/-- The test of the weekly loop. -/
def sameWeek (timestamp target : Datetime) : Bool :=
  timestamp.date.isocalendar = target.date.isocalendar

/-- The monthly and the weekly loop: from each of the last periods that has snapshots, one
is protected. -/
def protectEach (periods : ℕ) (target : ℕ → Option Datetime)
    (samePeriod : Datetime → Datetime → Bool) (pick : List Snapshot → Option Snapshot)
    (snapshots : List Snapshot) (protectedIds : List String) : Option (List String) :=
  (List.range periods).foldlM (fun protectedIds offset => do
    let target ← target offset
    let inPeriod := snapshots.filter fun s => samePeriod s.timestamp target
    return match pick (sortBy Snapshot.timestamp inPeriod) with
      | none => protectedIds
      | some s => s.id :: protectedIds) protectedIds

/-- `classify_snapshots`: the snapshots that expire; `none` when a period is before year 1. -/
def classifySnapshots (R : Relativedelta) (snapshots : List Snapshot) (now : Datetime) :
    Option (List Snapshot) := do
  let protectedIds ← protectEach retentionMonthly (R.minusMonths now) sameMonth List.head?
    snapshots []
  let protectedIds ← protectEach retentionWeekly (fun weeks => now.minusDays (7 * weeks)) sameWeek
    List.getLast? snapshots protectedIds
  let cutoffDaily ← now.minusDays retentionDaily
  let recent := snapshots.filter fun s => cutoffDaily ≤ s.timestamp
  let protectedIds := recent.map Snapshot.id ++ protectedIds
  return snapshots.filter fun s => s.id ∉ protectedIds ∧ s.estado = .completed

/-! ### What is protected -/

section

variable {periods : ℕ} {target : ℕ → Option Datetime} {samePeriod : Datetime → Datetime → Bool}
  {pick : List Snapshot → Option Snapshot} {snapshots : List Snapshot}
  {protectedIds protectedIds' : List String}

/-- What a loop adds. -/
theorem mem_protectEach
    (h : protectEach periods target samePeriod pick snapshots protectedIds = some protectedIds')
    (id : String) : id ∈ protectedIds' ↔ id ∈ protectedIds ∨ ∃ offset < periods, ∃ t s,
      target offset = some t ∧ pick (sortBy Snapshot.timestamp
        (snapshots.filter fun s => samePeriod s.timestamp t)) = some s ∧ s.id = id := by
  have hmem : ∀ offset, offset < periods ↔ offset ∈ List.range periods := by simp
  simp only [hmem]
  unfold protectEach at h
  generalize List.range periods = offsets at h
  induction offsets generalizing protectedIds with
  | nil =>
    obtain rfl := Option.some.inj h
    simp
  | cons offset offsets ih =>
    rw [List.foldlM_cons] at h
    obtain ⟨protectedIds₁, h₁, h⟩ := Option.bind_eq_some_iff.1 h
    obtain ⟨t, ht, h₁⟩ := Option.bind_eq_some_iff.1 h₁
    have hone : id ∈ protectedIds₁ ↔ id ∈ protectedIds ∨ ∃ s, pick (sortBy Snapshot.timestamp
        (snapshots.filter fun s => samePeriod s.timestamp t)) = some s ∧ s.id = id := by
      obtain rfl := Option.some.inj h₁
      cases pick (sortBy Snapshot.timestamp (snapshots.filter fun s => samePeriod s.timestamp t)) with
      | none => simp
      | some s => simp [eq_comm, or_comm]
    refine (ih h).trans ?_
    rw [hone, or_assoc]
    refine or_congr_right ?_
    constructor
    · rintro (⟨s, hs⟩ | ⟨k, hk, hrest⟩)
      · exact ⟨offset, List.mem_cons_self .., t, s, ht, hs⟩
      · exact ⟨k, List.mem_cons_of_mem _ hk, hrest⟩
    · rintro ⟨k, hk, t', s, ht', hs⟩
      rcases List.mem_cons.1 hk with rfl | hk
      · obtain rfl := Option.some.inj (ht.symm.trans ht')
        exact .inl ⟨s, hs⟩
      · exact .inr ⟨k, hk, t', s, ht', hs⟩

/-- A loop raises when a period does. -/
theorem exists_protectEach : (∃ protectedIds',
    protectEach periods target samePeriod pick snapshots protectedIds = some protectedIds') ↔
      ∀ offset < periods, ∃ t, target offset = some t := by
  have hmem : ∀ offset, offset < periods ↔ offset ∈ List.range periods := by simp
  simp only [hmem]
  unfold protectEach
  generalize List.range periods = offsets
  induction offsets generalizing protectedIds with
  | nil => simp
  | cons offset offsets ih =>
    rw [List.forall_mem_cons, List.foldlM_cons]
    cases ht : target offset with
    | none => simp
    | some t =>
      exact ih.trans (and_iff_right ⟨t, rfl⟩).symm

end

/-- The earliest snapshot of one of the last months. -/
def IsMonthly (R : Relativedelta) (now : Datetime) (snapshots : List Snapshot) (s : Snapshot) :
    Prop :=
  ∃ offset < retentionMonthly, ∃ target, R.minusMonths now offset = some target ∧
    IsFirst Snapshot.timestamp (snapshots.filter fun r => sameMonth r.timestamp target) s

/-- The latest snapshot of one of the last ISO weeks. -/
def IsWeekly (now : Datetime) (snapshots : List Snapshot) (s : Snapshot) : Prop :=
  ∃ offset < retentionWeekly, ∃ target, now.minusDays (7 * offset) = some target ∧
    IsLast Snapshot.timestamp (snapshots.filter fun r => sameWeek r.timestamp target) s

/-- A snapshot of the last seven days. -/
def IsDaily (now : Datetime) (snapshots : List Snapshot) (s : Snapshot) : Prop :=
  ∃ cutoff, now.minusDays retentionDaily = some cutoff ∧ s ∈ snapshots ∧ cutoff ≤ s.timestamp

section

variable {R : Relativedelta} {now target : Datetime} {snapshots expired : List Snapshot}
  {s : Snapshot}

theorem IsMonthly.mem (h : IsMonthly R now snapshots s) : s ∈ snapshots := by
  obtain ⟨_, -, _, -, hfirst⟩ := h
  exact (List.mem_filter.1 hfirst.mem).1

theorem IsWeekly.mem (h : IsWeekly now snapshots s) : s ∈ snapshots := by
  obtain ⟨_, -, _, -, hlast⟩ := h
  exact (List.mem_filter.1 hlast.mem).1

/-- **What `classify_snapshots` returns.** -/
theorem mem_of_classifySnapshots (hids : (snapshots.map Snapshot.id).Nodup)
    (h : classifySnapshots R snapshots now = some expired) : s ∈ expired ↔
      s ∈ snapshots ∧ s.estado = .completed ∧
        ¬ (IsMonthly R now snapshots s ∨ IsWeekly now snapshots s ∨ IsDaily now snapshots s) := by
  obtain ⟨monthly, hmonthly, h⟩ := Option.bind_eq_some_iff.1 h
  obtain ⟨weekly, hweekly, h⟩ := Option.bind_eq_some_iff.1 h
  obtain ⟨cutoff, hcutoff, h⟩ := Option.bind_eq_some_iff.1 h
  obtain rfl := Option.some.inj h
  have hunique : ∀ r ∈ snapshots, ∀ s ∈ snapshots, r.id = s.id → r = s := fun r hr s hs =>
    List.inj_on_of_nodup_map hids hr hs
  have hprotected (hs : s ∈ snapshots) : s.id ∈ (snapshots.filter fun r =>
      cutoff ≤ r.timestamp).map Snapshot.id ++ weekly ↔
        IsMonthly R now snapshots s ∨ IsWeekly now snapshots s ∨ IsDaily now snapshots s := by
    have hdaily : s.id ∈ (snapshots.filter fun r => cutoff ≤ r.timestamp).map Snapshot.id ↔
        IsDaily now snapshots s := by
      simp only [List.mem_map, List.mem_filter, decide_eq_true_eq]
      constructor
      · rintro ⟨r, ⟨hr, hle⟩, hid⟩
        obtain rfl := hunique r hr s hs hid
        exact ⟨cutoff, hcutoff, hr, hle⟩
      · rintro ⟨cutoff', hcutoff', -, hle⟩
        obtain rfl := Option.some.inj (hcutoff.symm.trans hcutoff')
        exact ⟨s, ⟨hs, hle⟩, rfl⟩
    rw [List.mem_append, hdaily, mem_protectEach hweekly, mem_protectEach hmonthly]
    simp only [head?_sortBy, getLast?_sortBy, List.not_mem_nil, false_or]
    constructor
    · rintro (hdaily | ⟨k, hk, t, r, ht, hfirst, hid⟩ | ⟨k, hk, t, r, ht, hlast, hid⟩)
      · exact .inr (.inr hdaily)
      · obtain rfl := hunique r (List.mem_filter.1 hfirst.mem).1 s hs hid
        exact .inl ⟨k, hk, t, ht, hfirst⟩
      · obtain rfl := hunique r (List.mem_filter.1 hlast.mem).1 s hs hid
        exact .inr (.inl ⟨k, hk, t, ht, hlast⟩)
    · rintro (⟨k, hk, t, ht, hfirst⟩ | ⟨k, hk, t, ht, hlast⟩ | hdaily)
      · exact .inr (.inl ⟨k, hk, t, s, ht, hfirst, rfl⟩)
      · exact .inr (.inr ⟨k, hk, t, s, ht, hlast, rfl⟩)
      · exact .inl hdaily
  simp only [List.mem_filter, decide_eq_true_eq]
  constructor
  · rintro ⟨hs, hnot, hcompleted⟩
    exact ⟨hs, hcompleted, fun hp => hnot ((hprotected hs).2 hp)⟩
  · rintro ⟨hs, hcompleted, hnot⟩
    exact ⟨hs, fun hp => hnot ((hprotected hs).1 hp), hcompleted⟩

/-- **When `classify_snapshots` returns**: from December of year 1 on. -/
theorem exists_classifySnapshots :
    (∃ expired, classifySnapshots R snapshots now = some expired) ↔ 24 ≤ now.date.monthIndex := by
  constructor
  · rintro ⟨expired, h⟩
    obtain ⟨monthly, hmonthly, -⟩ := Option.bind_eq_some_iff.1 h
    obtain ⟨target, htarget⟩ := exists_protectEach.1 ⟨monthly, hmonthly⟩ 11 (by decide)
    have hfirst := target.date.monthIndex_ge
    rw [R.monthIndex htarget] at hfirst
    omega
  · intro hnow
    have hordinal := Date.toOrdinal_gt_of_monthIndex hnow
    obtain ⟨monthly, hmonthly⟩ : ∃ monthly, protectEach retentionMonthly (R.minusMonths now)
        sameMonth List.head? snapshots [] = some monthly :=
      exists_protectEach.2 fun offset hoffset => R.exists_minusMonths (by
        rw [retentionMonthly] at hoffset
        omega)
    obtain ⟨weekly, hweekly⟩ : ∃ weekly, protectEach retentionWeekly
        (fun weeks => now.minusDays (7 * weeks)) sameWeek List.getLast? snapshots monthly =
          some weekly :=
      exists_protectEach.2 fun offset hoffset => Datetime.exists_minusDays (by
        rw [retentionWeekly] at hoffset
        push_cast
        omega)
    obtain ⟨cutoff, hcutoff⟩ : ∃ cutoff, now.minusDays retentionDaily = some cutoff :=
      Datetime.exists_minusDays (by
        rw [retentionDaily]
        omega)
    unfold classifySnapshots
    rw [hmonthly, Option.bind_eq_bind, Option.bind_some, hweekly, Option.bind_eq_bind,
      Option.bind_some, hcutoff]
    exact ⟨_, rfl⟩

end

/-! ### The policy -/

/-- A month, a week, or a snapshot for itself. -/
inductive Slot
  | month (m : ℤ)
  | week (w : ℤ)
  | day (s : Snapshot)

/-- The snapshots of a month. -/
def inMonth (m : ℤ) (snapshots : List Snapshot) : List Snapshot :=
  snapshots.filter fun s => s.timestamp.date.monthIndex = m

/-- The snapshots of a week. -/
def inWeek (w : ℤ) (snapshots : List Snapshot) : List Snapshot :=
  snapshots.filter fun s => s.timestamp.date.weekIndex = w

/-- What a slot picks. -/
def Slot.pick : Slot → List Snapshot → Option Snapshot
  | .month m, snapshots => (sortBy Snapshot.timestamp (inMonth m snapshots)).head?
  | .week w, snapshots => (sortBy Snapshot.timestamp (inWeek w snapshots)).getLast?
  | .day s, snapshots => if s ∈ snapshots then some s else none

/-- The last twelve months, four weeks and seven days; everything, where the function raises. -/
def Slot.InWindow (now : Datetime) : Slot → Prop
  | .month m => now.date.monthIndex < 24 ∨
    now.date.monthIndex < m + retentionMonthly ∧ m ≤ now.date.monthIndex
  | .week w => now.date.monthIndex < 24 ∨
    now.date.weekIndex < w + retentionWeekly ∧ w ≤ now.date.weekIndex
  | .day s => now.date.monthIndex < 24 ∨
    now.total ≤ s.timestamp.total + retentionDaily * 86400000000

section

variable {R : Relativedelta} {now now' target : Datetime} {snapshots snapshots' : List Snapshot}
  {s : Snapshot} {slot : Slot}

theorem pick_month {m : ℤ} : (Slot.month m).pick snapshots = some s ↔
    IsFirst Snapshot.timestamp (inMonth m snapshots) s := head?_sortBy

theorem pick_week {w : ℤ} : (Slot.week w).pick snapshots = some s ↔
    IsLast Snapshot.timestamp (inWeek w snapshots) s := getLast?_sortBy

theorem pick_day {r : Snapshot} : (Slot.day r).pick snapshots = some s ↔ r = s ∧ s ∈ snapshots := by
  simp only [Slot.pick]
  split_ifs with hr
  · rw [Option.some.injEq]
    exact ⟨fun h => ⟨h, h ▸ hr⟩, And.left⟩
  · simp only [false_iff]
    rintro ⟨rfl, hs⟩
    exact hr hs

/-- What a slot picks is there, and is of the slot. -/
theorem Slot.pick_spec (h : slot.pick snapshots = some s) : s ∈ snapshots ∧ (match slot with
    | .month m => s.timestamp.date.monthIndex = m
    | .week w => s.timestamp.date.weekIndex = w
    | .day r => s = r) := by
  cases slot with
  | month m => simpa [inMonth] using (pick_month.1 h).mem
  | week w => simpa [inWeek] using (pick_week.1 h).mem
  | day r =>
    obtain ⟨rfl, hs⟩ := pick_day.1 h
    exact ⟨hs, rfl⟩

theorem Slot.pick_of_sublist (hnodup : snapshots.Nodup) (hsub : snapshots'.Sublist snapshots)
    (h : slot.pick snapshots = some s) (hs : s ∈ snapshots') : slot.pick snapshots' = some s := by
  have hspec := pick_spec h
  cases slot with
  | month m =>
    exact pick_month.2 ((pick_month.1 h).of_sublist (hnodup.filter _) (hsub.filter _)
      (List.mem_filter.2 ⟨hs, decide_eq_true hspec.2⟩))
  | week w =>
    exact pick_week.2 ((pick_week.1 h).of_sublist (hnodup.filter _) (hsub.filter _)
      (List.mem_filter.2 ⟨hs, decide_eq_true hspec.2⟩))
  | day r => exact pick_day.2 ⟨(pick_day.1 h).1, hs⟩

theorem Slot.exists_pick (hsub : snapshots'.Sublist snapshots)
    (h : slot.pick snapshots' = some s) : ∃ r, slot.pick snapshots = some r := by
  have hne {l : List Snapshot} (hl : s ∈ l) : sortBy Snapshot.timestamp l ≠ [] := fun hnil =>
    List.ne_nil_of_mem hl (sortBy_eq_nil.1 hnil)
  cases slot with
  | month m =>
    have hmem : s ∈ inMonth m snapshots := (hsub.filter _).subset (pick_month.1 h).mem
    exact ⟨_, List.head?_eq_some_head (hne hmem)⟩
  | week w =>
    have hmem : s ∈ inWeek w snapshots := (hsub.filter _).subset (pick_week.1 h).mem
    exact ⟨_, List.getLast?_eq_some_getLast (hne hmem)⟩
  | day r =>
    obtain ⟨rfl, hs⟩ := pick_day.1 h
    exact ⟨r, pick_day.2 ⟨rfl, hsub.subset hs⟩⟩

/-- A slot of the past does not come back into the window. -/
theorem Slot.inWindow_of_le (hle : now ≤ now') (h : slot.pick snapshots = some s)
    (hs : s.timestamp ≤ now) (hwindow : slot.InWindow now') : slot.InWindow now := by
  have hspec := (pick_spec h).2
  have hmonths := Date.monthIndex_mono (Datetime.toOrdinal_le hle)
  cases slot with
  | month m =>
    have hm := Date.monthIndex_mono (Datetime.toOrdinal_le hs)
    unfold InWindow at hwindow ⊢
    dsimp only at hspec
    omega
  | week w =>
    have hw := Date.weekIndex_mono (Datetime.toOrdinal_le hs)
    have hweeks := Date.weekIndex_mono (Datetime.toOrdinal_le hle)
    unfold InWindow at hwindow ⊢
    dsimp only at hspec
    omega
  | day r =>
    have htotal : now.total ≤ now'.total := hle
    unfold InWindow at hwindow ⊢
    omega

/-- The policy of `classify_snapshots`. -/
def gfs : Policy Snapshot Slot Datetime where
  pick := Slot.pick
  time := Snapshot.timestamp
  window := fun now slot => slot.InWindow now
  mem_of_pick h := (Slot.pick_spec h).1
  pick_of_sublist := Slot.pick_of_sublist
  exists_pick := Slot.exists_pick
  window_of_le := Slot.inWindow_of_le

theorem sameMonth_iff : sameMonth s.timestamp target ↔
    s.timestamp.date.monthIndex = target.date.monthIndex := by
  obtain ⟨-, hmonth, -⟩ := s.timestamp.date.valid
  obtain ⟨-, hmonth', -⟩ := target.date.valid
  simp only [sameMonth, Bool.and_eq_true, decide_eq_true_eq, Date.monthIndex]
  omega

theorem sameWeek_iff : sameWeek s.timestamp target ↔
    s.timestamp.date.weekIndex = target.date.weekIndex := by
  rw [sameWeek, decide_eq_true_eq, Date.isocalendar_eq_iff]

theorem filter_sameMonth : (snapshots.filter fun s => sameMonth s.timestamp target) =
    inMonth target.date.monthIndex snapshots :=
  List.filter_congr fun _ _ => Bool.eq_iff_iff.2 (sameMonth_iff.trans decide_eq_true_iff.symm)

theorem filter_sameWeek : (snapshots.filter fun s => sameWeek s.timestamp target) =
    inWeek target.date.weekIndex snapshots :=
  List.filter_congr fun _ _ => Bool.eq_iff_iff.2 (sameWeek_iff.trans decide_eq_true_iff.symm)

/-- The twelve targets of the monthly loop are the twelve months of the window. -/
theorem isMonthly_iff (hnow : 24 ≤ now.date.monthIndex) : IsMonthly R now snapshots s ↔
    ∃ m, (Slot.month m).InWindow now ∧ (Slot.month m).pick snapshots = some s := by
  simp only [IsMonthly, filter_sameMonth, pick_month, Slot.InWindow, retentionMonthly]
  constructor
  · rintro ⟨offset, hoffset, target, htarget, hfirst⟩
    refine ⟨_, .inr ?_, hfirst⟩
    rw [R.monthIndex htarget]
    omega
  · rintro ⟨m, hwindow, hfirst⟩
    obtain ⟨hlow, hhigh⟩ := hwindow.resolve_left (Int.not_lt.2 hnow)
    have hoffset : ((now.date.monthIndex - m).toNat : ℤ) = now.date.monthIndex - m :=
      Int.toNat_of_nonneg (by omega)
    obtain ⟨target, htarget⟩ : ∃ target,
        R.minusMonths now (now.date.monthIndex - m).toNat = some target :=
      R.exists_minusMonths (by omega)
    refine ⟨_, by omega, target, htarget, ?_⟩
    rwa [R.monthIndex htarget, hoffset, sub_sub_cancel]

/-- The four targets of the weekly loop are the four weeks of the window. -/
theorem isWeekly_iff (hnow : 24 ≤ now.date.monthIndex) : IsWeekly now snapshots s ↔
    ∃ w, (Slot.week w).InWindow now ∧ (Slot.week w).pick snapshots = some s := by
  have hordinal := Date.toOrdinal_gt_of_monthIndex hnow
  have hindex : ∀ {offset : ℕ} {target : Datetime}, now.minusDays (7 * offset) = some target →
      target.date.weekIndex = now.date.weekIndex - offset := by
    intro offset target htarget
    have := Datetime.toOrdinal_minusDays htarget
    unfold Date.weekIndex
    omega
  simp only [IsWeekly, filter_sameWeek, pick_week, Slot.InWindow, retentionWeekly]
  constructor
  · rintro ⟨offset, hoffset, target, htarget, hlast⟩
    refine ⟨_, .inr ?_, hlast⟩
    rw [hindex htarget]
    omega
  · rintro ⟨w, hwindow, hlast⟩
    obtain ⟨hlow, hhigh⟩ := hwindow.resolve_left (Int.not_lt.2 hnow)
    have hoffset : ((now.date.weekIndex - w).toNat : ℤ) = now.date.weekIndex - w :=
      Int.toNat_of_nonneg (by omega)
    obtain ⟨target, htarget⟩ : ∃ target,
        now.minusDays (7 * (now.date.weekIndex - w).toNat) = some target :=
      Datetime.exists_minusDays (by push_cast; omega)
    refine ⟨_, by omega, target, htarget, ?_⟩
    rwa [hindex htarget, hoffset, sub_sub_cancel]

theorem isDaily_iff (hnow : 24 ≤ now.date.monthIndex) : IsDaily now snapshots s ↔
    ∃ r, (Slot.day r).InWindow now ∧ (Slot.day r).pick snapshots = some s := by
  have hordinal := Date.toOrdinal_gt_of_monthIndex hnow
  obtain ⟨cutoff, hcutoff⟩ : ∃ cutoff, now.minusDays retentionDaily = some cutoff :=
    Datetime.exists_minusDays (by rw [retentionDaily]; omega)
  have htotal := Datetime.total_minusDays hcutoff
  simp only [IsDaily, pick_day, Slot.InWindow]
  constructor
  · rintro ⟨cutoff', hcutoff', hs, hle⟩
    obtain rfl := Option.some.inj (hcutoff.symm.trans hcutoff')
    have hle : cutoff.total ≤ s.timestamp.total := hle
    exact ⟨s, .inr (by omega), rfl, hs⟩
  · rintro ⟨r, hwindow, rfl, hs⟩
    have hrecent := hwindow.resolve_left (Int.not_lt.2 hnow)
    refine ⟨cutoff, hcutoff, hs, ?_⟩
    show cutoff.total ≤ r.timestamp.total
    omega

/-- Where the function raises, everything is protected. -/
theorem protects_of_lt (hnow : now.date.monthIndex < 24) (hs : s ∈ snapshots) :
    gfs.Protects now snapshots s := by
  have hwindow : (Slot.day s).InWindow now := .inl hnow
  exact ⟨.day s, hwindow, pick_day.2 ⟨rfl, hs⟩⟩

/-- **What the loops protect is what the policy protects.** -/
theorem protects_iff (hnow : 24 ≤ now.date.monthIndex) : gfs.Protects now snapshots s ↔
    IsMonthly R now snapshots s ∨ IsWeekly now snapshots s ∨ IsDaily now snapshots s := by
  rw [isMonthly_iff hnow, isWeekly_iff hnow, isDaily_iff hnow]
  constructor
  · rintro ⟨slot, hwindow, hpick⟩
    cases slot with
    | month m => exact .inl ⟨m, hwindow, hpick⟩
    | week w => exact .inr (.inl ⟨w, hwindow, hpick⟩)
    | day r => exact .inr (.inr ⟨r, hwindow, hpick⟩)
  · rintro (⟨m, hwindow, hpick⟩ | ⟨w, hwindow, hpick⟩ | ⟨r, hwindow, hpick⟩)
    · exact ⟨.month m, hwindow, hpick⟩
    · exact ⟨.week w, hwindow, hpick⟩
    · exact ⟨.day r, hwindow, hpick⟩

end

/-! ### Expiring again and again -/

/-- What is left when the snapshots that `classify_snapshots` returns are removed. -/
def kept (R : Relativedelta) (now : Datetime) (snapshots : List Snapshot) : List Snapshot :=
  match classifySnapshots R snapshots now with
  | none => snapshots
  | some expired => snapshots.filter fun s => s ∉ expired

/-- What is left after some rounds, each of which removes what the function returns of the
snapshots that are there. -/
def present (R : Relativedelta) (rounds : List (Round Snapshot Datetime)) : List Snapshot :=
  rounds.foldl (fun present r => kept R r.now (present ++ r.added)) []

section

variable {R : Relativedelta} {now : Datetime} {snapshots : List Snapshot}

/-- **The function keeps what the policy keeps.** -/
theorem kept_eq_keep (hids : (snapshots.map Snapshot.id).Nodup)
    (hcompleted : ∀ s ∈ snapshots, s.estado = .completed) :
    kept R now snapshots = gfs.keep now snapshots := by
  unfold kept
  cases h : classifySnapshots R snapshots now with
  | none =>
    have hnow : now.date.monthIndex < 24 := by
      by_contra hnow
      obtain ⟨expired, hexpired⟩ := exists_classifySnapshots.2 (Int.not_lt.1 hnow)
      rw [h] at hexpired
      cases hexpired
    exact (Policy.keep_eq_self fun s hs => protects_of_lt hnow hs).symm
  | some expired =>
    have hnow := exists_classifySnapshots.1 ⟨expired, h⟩
    refine Policy.filter_eq_keep fun s hs => ?_
    rw [decide_eq_true_iff, mem_of_classifySnapshots hids h, protects_iff hnow]
    constructor
    · intro hnot
      by_contra hp
      exact hnot ⟨hs, hcompleted s hs, hp⟩
    · exact fun hp hexpires => hexpires.2.2 hp

theorem present_append (rounds : List (Round Snapshot Datetime)) (last : Round Snapshot Datetime) :
    present R (rounds ++ [last]) = kept R last.now (present R rounds ++ last.added) := by
  simp [present]

/-- Round by round, what is left is what the policy leaves. -/
theorem present_eq_present {rounds : List (Round Snapshot Datetime)}
    (hids : ((addedIn rounds).map Snapshot.id).Nodup)
    (hcompleted : ∀ s ∈ addedIn rounds, s.estado = .completed) :
    present R rounds = gfs.present rounds ∧ (present R rounds).Sublist (addedIn rounds) := by
  induction rounds using List.reverseRecOn with
  | nil => exact ⟨rfl, List.Sublist.refl _⟩
  | append_singleton rounds last ih =>
    have hall : addedIn (rounds ++ [last]) = addedIn rounds ++ last.added := by simp [addedIn]
    rw [hall] at hids hcompleted ⊢
    rw [List.map_append] at hids
    obtain ⟨heq, hsub⟩ := ih (List.nodup_append.1 hids).1
      fun s hs => hcompleted s (List.mem_append_left _ hs)
    have hsub' := hsub.append_right last.added
    have hkept : kept R last.now (present R rounds ++ last.added) =
        gfs.keep last.now (present R rounds ++ last.added) := by
      refine kept_eq_keep ?_ fun s hs => hcompleted s (hsub'.subset hs)
      rw [← List.map_append] at hids
      exact hids.sublist (hsub'.map _)
    rw [present_append, hkept, Policy.present_append, ← heq]
    exact ⟨rfl, Policy.keep_sublist.trans hsub'⟩

/-- **Expiring after every backup is expiring once.**  What is left after some rounds is
what a single run of the function leaves, at the time of the last round, of all the
snapshots ever taken.  Running it again removes nothing, and the earliest snapshot of each of
the last twelve months and the latest of each of the last four weeks are still there. -/
theorem present_eq_kept_addedIn (R : Relativedelta) (rounds : List (Round Snapshot Datetime))
    (last : Round Snapshot Datetime)
    (hids : ((addedIn (rounds ++ [last])).map Snapshot.id).Nodup)
    (hcompleted : ∀ s ∈ addedIn (rounds ++ [last]), s.estado = .completed)
    (htimes : (rounds ++ [last]).Pairwise fun r r' => r.now ≤ r'.now)
    (htaken : ∀ r ∈ rounds ++ [last], ∀ s ∈ r.added, s.timestamp ≤ r.now) :
    present R (rounds ++ [last]) = kept R last.now (addedIn (rounds ++ [last])) ∧
      kept R last.now (present R (rounds ++ [last])) = present R (rounds ++ [last]) ∧
      ∀ s, IsMonthly R last.now (addedIn (rounds ++ [last])) s ∨
        IsWeekly last.now (addedIn (rounds ++ [last])) s → s ∈ present R (rounds ++ [last]) := by
  obtain ⟨hpresent, hsub⟩ := present_eq_present hids hcompleted (R := R)
  have hnodup := List.Nodup.of_map Snapshot.id hids
  have honce : gfs.present (rounds ++ [last]) = gfs.keep last.now (addedIn (rounds ++ [last])) :=
    Policy.present_eq rounds last hnodup htimes htaken
  have hkept : kept R last.now (addedIn (rounds ++ [last])) =
      gfs.keep last.now (addedIn (rounds ++ [last])) := kept_eq_keep hids hcompleted
  refine ⟨?_, ?_, fun s hs => ?_⟩
  · rw [hpresent, honce, hkept]
  · rw [kept_eq_keep (hids.sublist (hsub.map _)) fun s hs => hcompleted s (hsub.subset hs),
      hpresent, honce]
    exact Policy.keep_keep hnodup (Policy.time_le_of_mem_addedIn htimes htaken)
  · rw [hpresent, honce, Policy.mem_keep]
    by_cases hnow : 24 ≤ last.now.date.monthIndex
    · exact (protects_iff hnow).2 (hs.imp_right .inl)
    · exact protects_of_lt (Int.not_le.1 hnow) (hs.elim IsMonthly.mem IsWeekly.mem)

end

/-- The day as it is, or the last of a shorter month. -/
def relativedelta : Relativedelta where
  minusMonths now n :=
    let months := now.date.monthIndex - 1 - n
    let year := months / 12
    let month := months % 12 + 1
    (Date.ofYmd year month (min now.date.day (Calendar.daysInMonth year month))).map
      fun date => { now with date }
  monthIndex := by
    intro now n target h
    obtain ⟨date, hdate, rfl⟩ := Option.map_eq_some_iff.1 h
    obtain ⟨hyear, hmonth, -⟩ := Date.ofYmd_some hdate
    unfold Date.monthIndex at *
    dsimp only
    rw [hyear, hmonth]
    omega
  exists_minusMonths := by
    intro now n h
    obtain ⟨⟨-, hyear⟩, ⟨hlow, hhigh⟩, hday, -⟩ := now.date.valid
    have hdays : 28 ≤ Calendar.daysInMonth ((now.date.monthIndex - 1 - n) / 12)
        ((now.date.monthIndex - 1 - n) % 12 + 1) :=
      Calendar.daysInMonth_pos (by omega) (by omega)
    have hvalid : Calendar.Valid ((now.date.monthIndex - 1 - n) / 12)
        ((now.date.monthIndex - 1 - n) % 12 + 1) (min now.date.day (Calendar.daysInMonth
          ((now.date.monthIndex - 1 - n) / 12) ((now.date.monthIndex - 1 - n) % 12 + 1))) := by
      unfold Date.monthIndex at *
      exact ⟨by omega, by omega, le_min hday (by omega), min_le_right _ _⟩
    dsimp only
    rw [Date.ofYmd, dif_pos hvalid]
    exact ⟨_, rfl⟩

/-- Noon of a day. -/
def noon (date : Date) : Datetime where
  date
  micros := 43200000000
  micros_lt := by decide

/-- A round in November and one in December. -/
theorem present_twoRounds :
    let november : Round Snapshot Datetime :=
      ⟨noon ⟨2023, 11, 30, by decide⟩, [⟨"a", noon ⟨2023, 11, 1, by decide⟩, .completed⟩,
        ⟨"b", noon ⟨2023, 11, 2, by decide⟩, .completed⟩]⟩
    let december : Round Snapshot Datetime :=
      ⟨noon ⟨2023, 12, 31, by decide⟩, [⟨"c", noon ⟨2023, 12, 1, by decide⟩, .completed⟩,
        ⟨"d", noon ⟨2023, 12, 30, by decide⟩, .completed⟩]⟩
    present relativedelta ([november] ++ [december]) =
      kept relativedelta december.now (addedIn ([november] ++ [december])) := by
  intro november december
  exact (present_eq_kept_addedIn relativedelta [november] december (by decide) (by decide)
    (by decide) (by decide)).1

end Gfs
end Boveda

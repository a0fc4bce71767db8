/-
# Representatives that cannot be restored

`classify_snapshots` chooses the earliest snapshot of a month and the latest of a week
among all of them, and looks at their `estado` only when it returns what expires.  A
snapshot that has failed, or is still running, then stands for its month, and the
`COMPLETED` ones beside it expire.

`keepsRestorable_iff` says for which lists every month and every week keeps a `COMPLETED`
snapshot all the same: its representative is `COMPLETED`, or one of its `COMPLETED`
snapshots is protected for another reason.
-/

import Boveda.Retention.Classify

namespace Boveda
namespace Gfs

open Lib

/-- Every one of the last months, and every one of the last weeks, in which a snapshot is
`COMPLETED` keeps one that is. -/
def KeepsRestorable (R : Relativedelta) (now : Datetime) (snapshots expired : List Snapshot) :
    Prop :=
  (∀ offset < retentionMonthly, ∀ target, R.minusMonths now offset = some target →
    (∃ s ∈ snapshots, sameMonth s.timestamp target ∧ s.estado = .completed) →
      ∃ s ∈ snapshots, sameMonth s.timestamp target ∧ s.estado = .completed ∧ s ∉ expired) ∧
  ∀ offset < retentionWeekly, ∀ target, now.minusDays (7 * offset) = some target →
    (∃ s ∈ snapshots, sameWeek s.timestamp target ∧ s.estado = .completed) →
      ∃ s ∈ snapshots, sameWeek s.timestamp target ∧ s.estado = .completed ∧ s ∉ expired

/-- In every one of the last months with a `COMPLETED` snapshot, the earliest snapshot is
`COMPLETED`, or a `COMPLETED` one is of the last seven days or the latest of one of the
last weeks. -/
def MonthsCovered (R : Relativedelta) (now : Datetime) (snapshots : List Snapshot) : Prop :=
  ∀ offset < retentionMonthly, ∀ target, R.minusMonths now offset = some target →
    (∃ s ∈ snapshots, sameMonth s.timestamp target ∧ s.estado = .completed) →
      (∃ s, IsFirst Snapshot.timestamp (snapshots.filter fun r => sameMonth r.timestamp target) s ∧
        s.estado = .completed) ∨
      ∃ s ∈ snapshots, sameMonth s.timestamp target ∧ s.estado = .completed ∧
        (IsWeekly now snapshots s ∨ IsDaily now snapshots s)

/-- In every one of the last weeks with a `COMPLETED` snapshot, the latest snapshot is
`COMPLETED`, or a `COMPLETED` one is of the last seven days or the earliest of one of the
last months. -/
def WeeksCovered (R : Relativedelta) (now : Datetime) (snapshots : List Snapshot) : Prop :=
  ∀ offset < retentionWeekly, ∀ target, now.minusDays (7 * offset) = some target →
    (∃ s ∈ snapshots, sameWeek s.timestamp target ∧ s.estado = .completed) →
      (∃ s, IsLast Snapshot.timestamp (snapshots.filter fun r => sameWeek r.timestamp target) s ∧
        s.estado = .completed) ∨
      ∃ s ∈ snapshots, sameWeek s.timestamp target ∧ s.estado = .completed ∧
        (IsMonthly R now snapshots s ∨ IsDaily now snapshots s)

section

variable {R : Relativedelta} {now target : Datetime} {snapshots expired : List Snapshot}
  {s : Snapshot}

/-- A snapshot that is the earliest of some month is that of its own. -/
theorem IsMonthly.isFirst (h : IsMonthly R now snapshots s)
    (hmonth : sameMonth s.timestamp target) :
    IsFirst Snapshot.timestamp (snapshots.filter fun r => sameMonth r.timestamp target) s := by
  obtain ⟨offset, -, target', -, hfirst⟩ := h
  have hmonth' := sameMonth_iff.1 (List.mem_filter.1 hfirst.mem).2
  rw [filter_sameMonth] at hfirst ⊢
  rwa [← hmonth', sameMonth_iff.1 hmonth] at hfirst

/-- A snapshot that is the latest of some week is that of its own. -/
theorem IsWeekly.isLast (h : IsWeekly now snapshots s) (hweek : sameWeek s.timestamp target) :
    IsLast Snapshot.timestamp (snapshots.filter fun r => sameWeek r.timestamp target) s := by
  obtain ⟨offset, -, target', -, hlast⟩ := h
  have hweek' := sameWeek_iff.1 (List.mem_filter.1 hlast.mem).2
  rw [filter_sameWeek] at hlast ⊢
  rwa [← hweek', sameWeek_iff.1 hweek] at hlast

/-- What is kept of the `COMPLETED` snapshots. -/
theorem not_mem_expired_iff (hids : (snapshots.map Snapshot.id).Nodup)
    (h : classifySnapshots R snapshots now = some expired) (hs : s ∈ snapshots)
    (hcompleted : s.estado = .completed) : s ∉ expired ↔
      IsMonthly R now snapshots s ∨ IsWeekly now snapshots s ∨ IsDaily now snapshots s := by
  rw [mem_of_classifySnapshots hids h, not_and_or, not_and_or, not_not]
  simp [hs, hcompleted]

/-- **When every month and every week keeps a `COMPLETED` snapshot.** -/
theorem keepsRestorable_iff (hids : (snapshots.map Snapshot.id).Nodup)
    (h : classifySnapshots R snapshots now = some expired) :
    KeepsRestorable R now snapshots expired ↔
      MonthsCovered R now snapshots ∧ WeeksCovered R now snapshots := by
  refine and_congr ?_ ?_
  · refine forall₄_congr fun offset hoffset target htarget => imp_congr_right fun _ => ?_
    constructor
    · rintro ⟨s, hs, hmonth, hcompleted, hnot⟩
      rcases (not_mem_expired_iff hids h hs hcompleted).1 hnot with hmonthly | hother
      · exact .inl ⟨s, hmonthly.isFirst hmonth, hcompleted⟩
      · exact .inr ⟨s, hs, hmonth, hcompleted, hother⟩
    · rintro (⟨s, hfirst, hcompleted⟩ | ⟨s, hs, hmonth, hcompleted, hother⟩)
      · obtain ⟨hs, hmonth⟩ := List.mem_filter.1 hfirst.mem
        exact ⟨s, hs, hmonth, hcompleted, (not_mem_expired_iff hids h hs hcompleted).2
          (.inl ⟨offset, hoffset, target, htarget, hfirst⟩)⟩
      · exact ⟨s, hs, hmonth, hcompleted,
          (not_mem_expired_iff hids h hs hcompleted).2 (.inr hother)⟩
  · refine forall₄_congr fun offset hoffset target htarget => imp_congr_right fun _ => ?_
    constructor
    · rintro ⟨s, hs, hweek, hcompleted, hnot⟩
      rcases (not_mem_expired_iff hids h hs hcompleted).1 hnot with hmonthly | hweekly | hdaily
      · exact .inr ⟨s, hs, hweek, hcompleted, .inl hmonthly⟩
      · exact .inl ⟨s, hweekly.isLast hweek, hcompleted⟩
      · exact .inr ⟨s, hs, hweek, hcompleted, .inr hdaily⟩
    · rintro (⟨s, hlast, hcompleted⟩ | ⟨s, hs, hweek, hcompleted, hmonthly | hdaily⟩)
      · obtain ⟨hs, hweek⟩ := List.mem_filter.1 hlast.mem
        exact ⟨s, hs, hweek, hcompleted, (not_mem_expired_iff hids h hs hcompleted).2
          (.inr (.inl ⟨offset, hoffset, target, htarget, hlast⟩))⟩
      · exact ⟨s, hs, hweek, hcompleted, (not_mem_expired_iff hids h hs hcompleted).2
          (.inl hmonthly)⟩
      · exact ⟨s, hs, hweek, hcompleted, (not_mem_expired_iff hids h hs hcompleted).2
          (.inr (.inr hdaily))⟩

end

/-- A day of May. -/
def may (day : ℤ) (h : Calendar.Valid 2023 5 day) : Datetime := noon ⟨2023, 5, day, h⟩

/-- The last day of the year. -/
def endOfYear : Datetime := noon ⟨2023, 12, 31, by decide⟩

/-- **A failed snapshot takes the place of the only `COMPLETED` one** of its month. -/
theorem not_keepsRestorable_failedFirst :
    let snapshots : List Snapshot :=
      [⟨"a", may 1 (by decide), .failed⟩, ⟨"b", may 2 (by decide), .completed⟩]
    (snapshots.map Snapshot.id).Nodup ∧
      ∃ expired, classifySnapshots relativedelta snapshots endOfYear = some expired ∧
        ¬ KeepsRestorable relativedelta endOfYear snapshots expired := by
  intro snapshots
  refine ⟨by decide, [⟨"b", may 2 (by decide), .completed⟩], by decide, fun hkeeps => ?_⟩
  obtain ⟨s, hs, -, hcompleted, hnot⟩ := hkeeps.1 7 (by decide) (may 31 (by decide)) (by decide)
    ⟨⟨"b", may 2 (by decide), .completed⟩, by decide, by decide, rfl⟩
  rcases List.mem_cons.1 hs with rfl | hs
  · cases hcompleted
  · exact hnot hs

/-- A failed snapshot later in the month takes no place. -/
theorem keepsRestorable_failedLater :
    let snapshots : List Snapshot :=
      [⟨"a", may 1 (by decide), .completed⟩, ⟨"b", may 20 (by decide), .failed⟩]
    ∃ expired, classifySnapshots relativedelta snapshots endOfYear = some expired ∧
      KeepsRestorable relativedelta endOfYear snapshots expired := by
  intro snapshots
  have hfirst : (sortBy Snapshot.timestamp (inMonth (may 1 (by decide)).date.monthIndex snapshots)).head? =
      some ⟨"a", may 1 (by decide), .completed⟩ := by decide
  have hlast : (sortBy Snapshot.timestamp (inWeek (may 1 (by decide)).date.weekIndex snapshots)).getLast? =
      some ⟨"a", may 1 (by decide), .completed⟩ := by decide
  refine ⟨[], by decide, (keepsRestorable_iff (by decide) (by decide)).2 ⟨?_, ?_⟩⟩
  · rintro offset - target - ⟨s, hs, hmonth, hcompleted⟩
    rcases List.mem_cons.1 hs with rfl | hs
    · refine .inl ⟨_, ?_, hcompleted⟩
      rw [filter_sameMonth, ← sameMonth_iff.1 hmonth]
      exact head?_sortBy.1 hfirst
    · obtain rfl := List.mem_singleton.1 hs
      cases hcompleted
  · rintro offset - target - ⟨s, hs, hweek, hcompleted⟩
    rcases List.mem_cons.1 hs with rfl | hs
    · refine .inl ⟨_, ?_, hcompleted⟩
      rw [filter_sameWeek, ← sameWeek_iff.1 hweek]
      exact getLast?_sortBy.1 hlast
    · obtain rfl := List.mem_singleton.1 hs
      cases hcompleted

end Gfs
end Boveda

/-
# When a row of the outbox is due

The columns `next_retry_at` and `updated_at` are written and compared by `enqueue_chunk`
and `drain_outbox_queue` (`src/boveda/storage.py`) in four ways:

| statement | written | compared with |
| --- | --- | --- |
| `INSERT` | `next_retry_at = strftime(…, 'now', 'utc')` | |
| failure | `next_retry_at = datetime('now', '+k seconds')` | |
| claim | `updated_at = strftime(…, 'now', 'utc')` | |
| `WHERE`, `PENDING` | | `next_retry_at <= strftime(…, 'now', 'utc')` |
| `WHERE`, `DRAINING` | | `updated_at <= datetime('now', '-15 minutes')` |

`'now'` is UTC already, so `'utc'` takes a UTC time for a local one and moves it by the
offset of the host, and each comparison has that modifier on one side only.  A retry
is late by the offset, and a lease expires early by it (`claimable_pending`,
`claimable_draining`).  On a host in UTC a lease still expires late by up to a second:
its two texts have different lengths, and of two with the same second the longer one is
greater (`Boveda.Outbox.Stamps`).

`schedule_iff` says so of every run of any number of uploads and drains whose clock does
not go back.
-/

import Boveda.Outbox.NoLoss
import Mathlib.Data.Nat.Cast.Order.Ring
import Mathlib.Algebra.Order.Ring.Int

namespace Boveda
namespace Schedule

open Lib Outbox

/-! ### A host and its clock -/

/-- SQLite on a host whose local time is `offset` seconds ahead of UTC. -/
def host (offset : ℤ) (keyTag : String → String) : Setting where
  utc now := (now - 1000 * offset).toNat
  keyTag := keyTag

/-- The reading of the clock that a step writes or compares. -/
def time : Event → Option ℕ
  | .insertRow _ now | .insertFails _ _ _ now | .claim _ _ now | .markProcessed _ now
  | .markFails _ _ now | .recordFailure _ _ now => some now
  | _ => none

/-- The outbox and the last reading of the clock, in milliseconds.  `claimedAt` is the time
of the last claim of a row, and `failedAt` the time and the number of the last attempt at it
that failed; no step reads them. -/
structure Clocked where
  world : World
  now : ℕ
  claimedAt : ChunkId → Option ℕ
  failedAt : ChunkId → Option (ℕ × ℕ)

/-- After `init_outbox_schema`, at a time. -/
def Clocked.init (start : ℕ) : Clocked := ⟨.init, start, fun _ => none, fun _ => none⟩

/-- A drain has claimed these rows. -/
def Clocked.claim (rows : List Row) (now : ℕ) (c : Clocked) : Clocked :=
  { c with claimedAt := fun id => if id ∈ rows.map Row.id then some now else c.claimedAt id }

/-- A drain has recorded a failure of its first row. -/
def Clocked.fail (d : ℕ) (now : ℕ) (c : Clocked) : Clocked :=
  match c.world.drains d with
  | .working _ item _ _ =>
    if (c.world.rows.find? item.id).isSome then
      { c with failedAt := Function.update c.failedAt item.id (some (now, item.attempts + 1)) }
    else c
  | _ => c

/-- What a step adds to the history. -/
def Clocked.log (S : Setting) (c : Clocked) : Event → Clocked
  | .claim _ maxItems now => c.claim (S.selectRows now maxItems c.world.rows.rows) now
  | .recordFailure d _ now => c.fail d now
  | _ => c

/-- A step at a time when the clock has not gone back. -/
def step (S : Setting) (c : Clocked) (e : Event) : Option Clocked :=
  let now := (time e).getD c.now
  if now < c.now then none
  else (Outbox.step S c.world e).map fun w => { c.log S e with world := w, now := now }

section Properties

variable (offset : ℤ) (keyTag : String → String)

/-- The states of the outbox on a host, at a time since 1970 in UTC and in its local time. -/
def Reached (c : Clocked) : Prop :=
  ∃ start : ℕ, 1000 * offset ≤ start ∧ Reachable (step (host offset keyTag)) (.init start) c

/-- The backoff after `k` attempts, in milliseconds. -/
def backoff (k : ℕ) : ℕ := 1000 * min 3600 (2 ^ k)

/-- The lease of a claim, in milliseconds. -/
def lease : ℕ := 15 * 60 * 1000

/-- A row whose last attempt has failed is claimed when its backoff is over, up to the
fraction of the second in which it failed, and from then on it can be. -/
structure Backoff : Prop where
  notEarly : ∀ c, Reached offset keyTag c → ∀ d maxItems (now : ℕ),
    (step (host offset keyTag) c (.claim d maxItems now)).isSome →
    ∀ r ∈ (host offset keyTag).selectRows now maxItems c.world.rows.rows, r.state = .pending →
    ∀ t k : ℕ, c.failedAt r.id = some (t, k) → t - t % 1000 + backoff k ≤ now
  whenDue : ∀ c, Reached offset keyTag c → ∀ r ∈ c.world.rows.rows, r.state = .pending →
    ∀ t k : ℕ, c.failedAt r.id = some (t, k) → ∀ now : ℕ, c.now ≤ now → t + backoff k ≤ now →
    (host offset keyTag).claimable now r = true

/-- A row left in `DRAINING` is claimed again when its lease is over, and `slack`
milliseconds later it can be. -/
structure Lease (slack : ℕ) : Prop where
  notEarly : ∀ c, Reached offset keyTag c → ∀ d maxItems (now : ℕ),
    (step (host offset keyTag) c (.claim d maxItems now)).isSome →
    ∀ r ∈ (host offset keyTag).selectRows now maxItems c.world.rows.rows, r.state = .draining →
    ∀ t : ℕ, c.claimedAt r.id = some t → t + lease ≤ now
  whenDue : ∀ c, Reached offset keyTag c → ∀ r ∈ c.world.rows.rows, r.state = .draining →
    ∀ t : ℕ, c.claimedAt r.id = some t → ∀ now : ℕ, c.now ≤ now → t + lease + slack ≤ now →
    (host offset keyTag).claimable now r = true

end Properties

/-! ### The two comparisons -/

section Comparisons

variable {offset : ℤ} {keyTag : String → String}

theorem strftime_host {now : ℕ} (h : 1000 * offset ≤ now) :
    (host offset keyTag).strftime now = ⟨(now / 1000 : ℕ) - offset, some (now % 1000)⟩ := by
  have hutc : (((host offset keyTag).utc now : ℕ) : ℤ) = now - 1000 * offset :=
    Int.toNat_of_nonneg (by omega)
  simp only [Setting.strftime, Stamp.mk.injEq, Option.some.injEq]
  omega

/-- A text without a fraction, and one with. -/
theorem le_of_millis (s s' : ℤ) (m : ℕ) : Stamp.le ⟨s, none⟩ ⟨s', some m⟩ = true ↔ s ≤ s' := by
  unfold Stamp.le
  split_ifs with h
  · simp [h.le]
  · simp [lt_iff_le_and_ne, h]

theorem millis_le (s s' : ℤ) (m : ℕ) : Stamp.le ⟨s, some m⟩ ⟨s', none⟩ = true ↔ s < s' := by
  unfold Stamp.le
  split_ifs with h
  · simp [(show s = s' from h)]
  · simp

/-- **A retry** that was scheduled at `t` is due `offset` seconds late. -/
theorem claimable_pending {r : Row} {t now : ℕ} {seconds : ℕ} (hs : r.state = .pending)
    (hr : r.nextRetryAt = (host offset keyTag).datetime t seconds)
    (hnow : 1000 * offset ≤ now) : (host offset keyTag).claimable now r = true ↔
      ((t / 1000 + seconds : ℕ) : ℤ) + offset ≤ (now / 1000 : ℕ) := by
  have hle : r.nextRetryAt.le ((host offset keyTag).strftime now) = true ↔
      ((t / 1000 + seconds : ℕ) : ℤ) + offset ≤ (now / 1000 : ℕ) := by
    rw [hr, strftime_host hnow, Setting.datetime, le_of_millis]
    omega
  rw [← hle]
  simp [Setting.claimable, hs]

/-- **A lease** from `t` is over `offset` seconds early, in the second after. -/
theorem claimable_draining {r : Row} {t now : ℕ} (hs : r.state = .draining)
    (hr : r.updatedAt = (host offset keyTag).strftime t) (ht : 1000 * offset ≤ t) :
    (host offset keyTag).claimable now r = true ↔
      ((t / 1000 + 15 * 60 : ℕ) : ℤ) < (now / 1000 : ℕ) + offset := by
  have hle : r.updatedAt.le ((host offset keyTag).datetime now (-(15 * 60))) = true ↔
      ((t / 1000 + 15 * 60 : ℕ) : ℤ) < (now / 1000 : ℕ) + offset := by
    rw [hr, strftime_host ht, Setting.datetime, millis_le]
    omega
  rw [← hle]
  simp [Setting.claimable, hs]

end Comparisons

/-! ### What a step does to the rows -/

section Steps

variable {S : Setting} {w w' : World} {e : Event}

/-- What the steps other than a claim and a failure do to the rows: they insert one that is
`PENDING`, they mark one `PROCESSED`, or they leave them. -/
inductive RowStep (S : Setting) (w w' : World) : Prop
  | same : w'.rows = w.rows → RowStep S w w'
  | insert {now : ℕ} {id : ChunkId} {ch : Chunk} {w₁ : World} :
      w.insertRow (S.newRow now id ch) = some w₁ → w'.rows = w₁.rows → RowStep S w w'
  | process {now : ℕ} {id : ChunkId} :
      w'.rows = (w.updateRows (fun r => r.id = id) (S.processRow now) (S.processRow_id now)).rows →
      RowStep S w w'

theorem stepUpload_rows {u : ℕ} {p : Upload} (h : stepUpload S w u p e = some w') :
    RowStep S w w' := by
  unfold stepUpload World.draw at h
  cases e with
  | insertRow v now =>
    dsimp only at h
    split at h <;> try cases h
    obtain ⟨w₁, h₁, rfl⟩ := Option.map_eq_some_iff.1 h
    exact .insert h₁ rfl
  | insertFails v committed unlinked now =>
    dsimp only at h
    split at h <;> try cases h
    obtain ⟨w₁, h₁, rfl⟩ := Option.map_eq_some_iff.1 h
    cases committed with
    | true => cases unlinked <;> exact .insert h₁ rfl
    | false =>
      obtain rfl := Option.some.inj h₁
      cases unlinked <;> exact .same rfl
  | enqueueChunk v ch id =>
    dsimp only at h
    split at h <;> try cases h
    split_ifs at h <;> cases h
    exact .same rfl
  | secondaryRefuses v id =>
    dsimp only at h
    split at h <;> try cases h
    split_ifs at h <;> cases h
    exact .same rfl
  | stageFile v =>
    dsimp only at h
    split at h <;> try cases h
    split_ifs at h
    cases h
    exact .same rfl
  | uploadChunk v ch =>
    dsimp only at h
    split at h <;> cases h
    exact .same rfl
  | uploaderAccepts v =>
    dsimp only at h
    split at h <;> cases h <;> exact .same rfl
  | primaryRefuses v =>
    dsimp only at h
    split at h <;> cases h
    exact .same rfl
  | abandonFile v left =>
    dsimp only at h
    split at h <;> cases h
    exact .same rfl
  | enqueued v =>
    dsimp only at h
    split at h <;> cases h
    exact .same rfl
  | stopUpload v =>
    dsimp only at h
    split at h <;> cases h <;> exact .same rfl
  | _ => cases h

theorem stepDrain_rows {d : ℕ} {stage : Stage} {item : Item} {rest : List Item} {n : ℕ}
    (hfail : ∀ v err now, e ≠ .recordFailure v err now)
    (h : stepDrain S w d stage item rest n e = some w') : RowStep S w w' := by
  unfold stepDrain at h
  cases e with
  | readFile v =>
    dsimp only at h
    split at h <;> try cases h
    split at h <;> cases h <;> exact .same rfl
  | markProcessed v now =>
    dsimp only at h
    split at h <;> cases h
    exact .process rfl
  | markFails v committed now =>
    dsimp only at h
    split at h <;> cases h
    cases committed with
    | true => exact .process rfl
    | false => exact .same rfl
  | recordFailure v err now => exact absurd rfl (hfail v err now)
  | stopDrain v =>
    cases h
    exact .same rfl
  | readFails v =>
    dsimp only at h
    split at h <;> cases h
    exact .same rfl
  | drainAccepts v =>
    dsimp only at h
    split at h <;> cases h
    exact .same rfl
  | drainRefuses v =>
    dsimp only at h
    split at h <;> cases h
    exact .same rfl
  | unlinkFile v =>
    dsimp only at h
    split at h <;> cases h
    exact .same rfl
  | unlinkFails v =>
    dsimp only at h
    split at h <;> cases h
    exact .same rfl
  | _ => cases h

/-- **A step other than a claim and a failure.** -/
theorem rowStep_of_step (hclaim : ∀ d n now, e ≠ .claim d n now)
    (hfail : ∀ d err now, e ≠ .recordFailure d err now) (h : Outbox.step S w e = some w') :
    RowStep S w w' := by
  unfold Outbox.step at h
  split at h
  · exact stepUpload_rows h
  · split at h
    · split at h
      · exact absurd rfl (hclaim _ _ _)
      · cases h
    · exact stepDrain_rows hfail h
    · cases h

/-- A claim. -/
theorem eq_of_claim {d : ℕ} {maxItems : ℤ} {now : ℕ}
    (h : Outbox.step S w (.claim d maxItems now) = some w') :
    w' = Outbox.claim S d maxItems now w := by
  simp only [Outbox.step, Event.party] at h
  split at h
  · exact (Option.some.inj h).symm
  · cases h
  · cases h

/-- A failure. -/
theorem exists_of_recordFailure {d : ℕ} {err : String} {now : ℕ}
    (h : Outbox.step S w (.recordFailure d err now) = some w') : ∃ item rest n,
      w.drains d = .working .failing item rest n ∧
      w' = (w.updateRows (fun r => r.id = item.id) (S.failRow now item.attempts err)
        (S.failRow_id now item.attempts err)).setDrain d (.next rest n) := by
  simp only [Outbox.step, Event.party] at h
  split at h
  · cases h
  · rename_i stage item rest n hd
    cases stage with
    | failing => exact ⟨item, rest, n, hd, (Option.some.inj h).symm⟩
    | _ => cases h
  · cases h

end Steps

/-! ### What the columns say -/

/-- `next_retry_at` of a row, by its last failure. -/
def Retried (S : Setting) (start : ℕ) (failedAt : Option (ℕ × ℕ)) (r : Row) : Prop :=
  match failedAt with
  | none => r.attempts = 0
  | some (t, k) => start ≤ t ∧ r.attempts = k ∧
      r.nextRetryAt = S.datetime t (min 3600 (2 ^ k))

/-- `updated_at` of a row in `DRAINING`, by its last claim. -/
def Leased (S : Setting) (start : ℕ) (claimedAt : Option ℕ) (r : Row) : Prop :=
  r.state = .draining → ∃ t, claimedAt = some t ∧ start ≤ t ∧ r.updatedAt = S.strftime t

/-- The columns keep the times of the last claim and of the last failure. -/
structure Kept (S : Setting) (start : ℕ) (c : Clocked) : Prop where
  started : start ≤ c.now
  rows : ∀ id r, c.world.rows.find? id = some r →
    Retried S start (c.failedAt id) r ∧ Leased S start (c.claimedAt id) r
  absent : ∀ id, c.world.rows.find? id = none → c.failedAt id = none

theorem kept_init (S : Setting) (start : ℕ) : Kept S start (.init start) where
  started := le_rfl
  rows _ _ h := nomatch h
  absent _ _ := rfl

section Kept

variable {S : Setting} {start : ℕ} {c c' : Clocked} {w : World} {now : ℕ}

/-- What a step is, with its time. -/
theorem exists_of_step {e : Event} (h : step S c e = some c') :
    c.now ≤ (time e).getD c.now ∧ ∃ w, Outbox.step S c.world e = some w ∧
      c' = { c.log S e with world := w, now := (time e).getD c.now } := by
  simp only [step] at h
  split_ifs at h with hnow
  obtain ⟨w, hw, rfl⟩ := Option.map_eq_some_iff.1 h
  exact ⟨not_lt.1 hnow, w, hw, rfl⟩

/-- A row after a step that neither claims nor fails. -/
theorem RowStep.row {w w' : World} (h : RowStep S w w') {id : ChunkId} {r' : Row}
    (hr' : w'.rows.find? id = some r') :
    (w.rows.find? id = none ∧ r'.attempts = 0 ∧ r'.state = .pending) ∨
      ∃ r, w.rows.find? id = some r ∧ (r' = r ∨ ∃ now, r' = S.processRow now r) := by
  cases h with
  | same hrows => exact .inr ⟨r', hrows ▸ hr', .inl rfl⟩
  | insert hins hrows =>
    rw [hrows, World.find?_insertRow hins] at hr'
    split_ifs at hr' with hid
    · obtain rfl := Option.some.inj hr'
      refine .inl ⟨?_, rfl, rfl⟩
      unfold World.insertRow at hins
      split_ifs at hins with hnone
      exact hid ▸ hnone
    · exact .inr ⟨r', hr', .inl rfl⟩
  | process hrows =>
    rw [hrows, find?_updateRows] at hr'
    obtain ⟨r, hr, rfl⟩ := Option.map_eq_some_iff.1 hr'
    refine .inr ⟨r, hr, ?_⟩
    split_ifs
    · exact .inr ⟨_, rfl⟩
    · exact .inl rfl

theorem RowStep.absent {w w' : World} (h : RowStep S w w') {id : ChunkId}
    (hnone : w'.rows.find? id = none) : w.rows.find? id = none := by
  cases h with
  | same hrows => exact hrows ▸ hnone
  | insert hins hrows =>
    rw [hrows, World.find?_insertRow hins] at hnone
    split_ifs at hnone
    exact hnone
  | process hrows =>
    rw [hrows, find?_updateRows] at hnone
    exact Option.map_eq_none_iff.1 hnone

/-- A step that neither claims nor fails. -/
theorem Kept.rowStep (hc : Kept S start c) (h : RowStep S c.world w) (hnow : c.now ≤ now) :
    Kept S start { c with world := w, now := now } where
  started := hc.started.trans hnow
  rows id r' hr' := by
    rcases h.row hr' with ⟨hnone, hattempts, hpending⟩ | ⟨r, hr, rfl | ⟨_, rfl⟩⟩
    · refine ⟨?_, fun hs => nomatch hpending.symm.trans hs⟩
      show Retried S start (c.failedAt id) r'
      rw [hc.absent id hnone]
      exact hattempts
    · exact hc.rows id _ hr
    · exact ⟨(hc.rows id r hr).1, fun hs => nomatch hs⟩
  absent id hnone := hc.absent id (h.absent hnone)

/-- A claim. -/
theorem Kept.claim (hc : Kept S start c) (hnow : c.now ≤ now) (d : ℕ) (maxItems : ℤ) :
    Kept S start { c.claim (S.selectRows now maxItems c.world.rows.rows) now with
      world := Outbox.claim S d maxItems now c.world, now := now } where
  started := hc.started.trans hnow
  rows id r' hr' := by
    dsimp only at hr'
    rw [claim_rows, find?_updateRows] at hr'
    obtain ⟨r, hr, rfl⟩ := Option.map_eq_some_iff.1 hr'
    obtain rfl : r.id = id := Table.key_of_find? hr
    obtain ⟨hretried, hleased⟩ := hc.rows r.id r hr
    by_cases hsel : r.id ∈ (S.selectRows now maxItems c.world.rows.rows).map Row.id
    · simp only [hsel, decide_true, if_true, Clocked.claim]
      exact ⟨hretried, fun _ => ⟨now, rfl, hc.started.trans hnow, rfl⟩⟩
    · simp only [hsel, decide_false, Bool.false_eq_true, if_false, Clocked.claim]
      exact ⟨hretried, hleased⟩
  absent id hnone := by
    dsimp only at hnone
    rw [claim_rows, find?_updateRows] at hnone
    exact hc.absent id (Option.map_eq_none_iff.1 hnone)

/-- The history after a failure, which is one of a row. -/
theorem fail_failedAt {d : ℕ} {stage : Stage} {item : Item} {rest : List Item} {n : ℕ}
    (hd : c.world.drains d = .working stage item rest n) (now : ℕ) (id : ChunkId) :
    (c.fail d now).failedAt id =
      if id = item.id ∧ c.world.rows.find? id ≠ none then some (now, item.attempts + 1)
      else c.failedAt id := by
  simp only [Clocked.fail, hd]
  by_cases hid : id = item.id
  · subst hid
    cases hr : c.world.rows.find? item.id <;> simp
  · rw [if_neg fun h : id = item.id ∧ _ => hid h.1]
    split_ifs
    · exact Function.update_of_ne hid _ _
    · rfl

theorem fail_claimedAt (d : ℕ) (now : ℕ) : (c.fail d now).claimedAt = c.claimedAt := by
  unfold Clocked.fail
  split
  · split_ifs <;> rfl
  · rfl

/-- A failure. -/
theorem Kept.fail (hc : Kept S start c) (hnow : c.now ≤ now) {d : ℕ} {err : String} {item : Item}
    {rest : List Item} {n : ℕ} (hd : c.world.drains d = .working .failing item rest n) :
    Kept S start { c.fail d now with
      world := (c.world.updateRows (fun r => r.id = item.id) (S.failRow now item.attempts err)
        (S.failRow_id now item.attempts err)).setDrain d (.next rest n)
      now := now } where
  started := hc.started.trans hnow
  rows id r' hr' := by
    dsimp only at hr'
    rw [World.setDrain_rows, find?_updateRows] at hr'
    obtain ⟨r, hr, rfl⟩ := Option.map_eq_some_iff.1 hr'
    obtain rfl : r.id = id := Table.key_of_find? hr
    obtain ⟨hretried, hleased⟩ := hc.rows r.id r hr
    show Retried S start ((c.fail d now).failedAt r.id) _ ∧
      Leased S start ((c.fail d now).claimedAt r.id) _
    rw [fail_failedAt hd, fail_claimedAt]
    by_cases hid : r.id = item.id
    · rw [if_pos ⟨hid, by simp [hr]⟩]
      simp only [hid, decide_true, if_true]
      refine ⟨⟨hc.started.trans hnow, rfl, rfl⟩, fun hs => ?_⟩
      simp only [Setting.failRow, Setting.newState] at hs
      split_ifs at hs
    · rw [if_neg fun h => hid h.1]
      simp only [hid, decide_false, Bool.false_eq_true, if_false]
      exact ⟨hretried, hleased⟩
  absent id hnone := by
    dsimp only at hnone
    rw [World.setDrain_rows, find?_updateRows] at hnone
    have hnone := Option.map_eq_none_iff.1 hnone
    simp only [fail_failedAt hd, hnone, ne_eq, not_true_eq_false, and_false, if_false]
    exact hc.absent id hnone

/-- **One step keeps the columns right.** -/
theorem Kept.step {e : Event} (hc : Kept S start c) (h : step S c e = some c') :
    Kept S start c' := by
  obtain ⟨hnow, w, hw, rfl⟩ := exists_of_step h
  cases e with
  | claim d maxItems now =>
    obtain rfl := eq_of_claim hw
    exact hc.claim hnow d maxItems
  | recordFailure d err now =>
    obtain ⟨item, rest, n, hd, rfl⟩ := exists_of_recordFailure hw
    exact hc.fail hnow hd
  | _ => exact hc.rowStep (rowStep_of_step (by simp) (by simp) hw) hnow

/-- **A whole run does.** -/
theorem kept_of_reachable (h : Reachable (Schedule.step S) (.init start) c) : Kept S start c :=
  h.invariant (kept_init S start) fun _ _ _ hc _ hs => hc.step hs

end Kept

/-! ### When rows are due -/

section Due

variable {offset : ℤ} {keyTag : String → String}

/-- A row whose last attempt has failed, in a run on a host. -/
theorem claimable_of_failedAt {c : Clocked} (hc : Reached offset keyTag c) {r : Row}
    (hr : r ∈ c.world.rows.rows) (hs : r.state = .pending) {t k : ℕ}
    (hf : c.failedAt r.id = some (t, k)) {now : ℕ} (hnow : c.now ≤ now) :
    (host offset keyTag).claimable now r = true ↔
      ((t / 1000 + min 3600 (2 ^ k) : ℕ) : ℤ) + offset ≤ (now / 1000 : ℕ) := by
  obtain ⟨start, hstart, hreach⟩ := hc
  have hkept := kept_of_reachable hreach
  have hretried := (hkept.rows r.id r (Table.find?_of_mem hr)).1
  rw [hf] at hretried
  have hsince : start ≤ now := hkept.started.trans hnow
  refine claimable_pending hs ?_ (by omega)
  rw [hretried.2.2]
  push_cast
  rfl

/-- A row left in `DRAINING`, in a run on a host. -/
theorem claimable_of_claimedAt {c : Clocked} (hc : Reached offset keyTag c) {r : Row}
    (hr : r ∈ c.world.rows.rows) (hs : r.state = .draining) {t : ℕ}
    (hcl : c.claimedAt r.id = some t) (now : ℕ) :
    (host offset keyTag).claimable now r = true ↔
      ((t / 1000 + 15 * 60 : ℕ) : ℤ) < (now / 1000 : ℕ) + offset := by
  obtain ⟨start, hstart, hreach⟩ := hc
  have hkept := kept_of_reachable hreach
  obtain ⟨t', ht', hsince, hupdated⟩ := (hkept.rows r.id r (Table.find?_of_mem hr)).2 hs
  obtain rfl : t = t' := Option.some.inj (hcl.symm.trans ht')
  exact claimable_draining hs hupdated (by omega)

/-- A claim is made when the clock has not gone back. -/
theorem le_of_claim {S : Setting} {c : Clocked} {d : ℕ} {maxItems : ℤ} {now : ℕ}
    (h : (step S c (.claim d maxItems now)).isSome) : c.now ≤ now := by
  obtain ⟨c', hc'⟩ := Option.isSome_iff_exists.1 h
  exact (exists_of_step hc').1

/-- On a host in UTC, retries are made when they are due. -/
theorem backoff_utc (keyTag : String → String) : Backoff 0 keyTag where
  notEarly c hc d maxItems now hclaim r hr hs t k hf := by
    obtain ⟨hmem, hclaimable⟩ := mem_of_mem_selectRows hr
    have hdue := (claimable_of_failedAt hc hmem hs hf (le_of_claim hclaim)).1 hclaimable
    unfold backoff
    omega
  whenDue c hc r hr hs t k hf now hnow hdue := by
    rw [claimable_of_failedAt hc hr hs hf hnow]
    unfold backoff at hdue
    omega

/-- Where local time is not ahead of UTC, a lease is over when it is due, and so many
seconds later, and one. -/
theorem lease_of_le {slack : ℕ} (h : offset ≤ 0) (hslack : 1000 * (1 - offset) ≤ slack) :
    Lease offset keyTag slack where
  notEarly c hc d maxItems now hclaim r hr hs t hcl := by
    obtain ⟨hmem, hclaimable⟩ := mem_of_mem_selectRows hr
    have hdue := (claimable_of_claimedAt hc hmem hs hcl now).1 hclaimable
    unfold lease
    omega
  whenDue c hc r hr hs t hcl now hnow hdue := by
    rw [claimable_of_claimedAt hc hr hs hcl now]
    unfold lease at hdue
    omega

end Due

/-! ### A chunk whose first upload fails -/

section Sample

variable (S : Setting) (t : ℕ)

/-- The row of a chunk that is enqueued at `t`. -/
def sampleRow : Row := S.newRow t 7 sampleChunk

/-- The row when it is claimed, and when the failure of its upload is recorded. -/
def claimedRow : Row := S.claimRow t (sampleRow S t)

def failedRow : Row := S.failRow t 0 "FileNotFoundError" (claimedRow S t)

/-- The outbox with one row, and a drain. -/
def sampleWorld (r : Row) (p : Drain) : World where
  rows := ⟨[r], List.nodup_singleton _⟩
  files := Function.update (fun _ => none) (S.stagedPath 7 sampleChunk.storageKey)
    (some sampleChunk.payload)
  uploads := Function.update (Function.update (Function.update (fun _ => .idle) 0
    (.staging sampleChunk 7)) 0 (.inserting sampleChunk 7)) 0 (.committed sampleChunk 7)
  drains := Function.update (fun _ => .idle) 0 p
  used := [7]
  accepted := []

/-- The chunk is enqueued, claimed, and its failure recorded, all at `t`. -/
def enqueued : Clocked := ⟨sampleWorld S (sampleRow S t) .idle, t, fun _ => none, fun _ => none⟩

def claimed : Clocked where
  world := sampleWorld S (claimedRow S t) (.working .opening (sampleRow S t).item [] 0)
  now := t
  claimedAt id := if id = 7 then some t else none
  failedAt _ := none

def failed : Clocked where
  world := sampleWorld S (failedRow S t) (.returned 0)
  now := t
  claimedAt id := if id = 7 then some t else none
  failedAt := Function.update (fun _ => none) 7 (some (t, 1))

/-- A single row is claimed when it can be. -/
theorem selectRows_singleton {S : Setting} {now : ℕ} {r : Row} (h : S.claimable now r = true) :
    S.selectRows now 1 [r] = [r] := by
  simp [Setting.selectRows, List.perm_singleton.1 (S.scan.perm now [r]), h]

theorem exec_enqueued : exec (step S) (.init t)
    [.enqueueChunk 0 sampleChunk 7, .stageFile 0, .insertRow 0 t] = some (enqueued S t) := by
  simp [exec, step, time, Clocked.init, Clocked.log, Outbox.step, Event.party, stepUpload,
    World.init, World.draw, World.setUpload, World.setFile, World.insertRow, Table.find?,
    Table.empty, Table.insert, enqueued, sampleWorld, sampleRow]

theorem step_claimed : step S (enqueued S t) (.claim 0 1 t) = some (claimed S t) := by
  have hclaimable : S.claimable t (sampleRow S t) = true := by
    simp [Setting.claimable, sampleRow, Setting.newRow, Stamp.le, Setting.strftime]
  have hid : (sampleRow S t).id = 7 := rfl
  simp [step, time, Clocked.log, Clocked.claim, Outbox.step, Event.party, Outbox.claim,
    World.setDrain, World.updateRows, Table.update, Drain.next, enqueued, claimed, sampleWorld,
    claimedRow, selectRows_singleton hclaimable, hid]

theorem exec_failed : exec (step S) (claimed S t)
    [.readFails 0, .recordFailure 0 "FileNotFoundError" t] = some (failed S t) := by
  have hid : (claimedRow S t).id = 7 := rfl
  have hid' : (sampleRow S t).id = 7 := rfl
  have hattempts : (sampleRow S t).attempts = 0 := rfl
  simp [exec, step, time, Clocked.log, Clocked.fail, Outbox.step, Event.party, stepDrain,
    World.setDrain, World.updateRows, Table.update, Table.find?, Drain.next, claimed, failed,
    sampleWorld, failedRow, Row.item, hid, hid', hattempts]

theorem reachable_claimed : Reachable (step S) (.init t) (claimed S t) :=
  (reachable_of_exec (exec_enqueued S t)).tail trivial (step_claimed S t)

theorem reachable_failed : Reachable (step S) (.init t) (failed S t) :=
  (reachable_claimed S t).exec (exec_failed S t)

end Sample

/-! ### The other hosts -/

section Offset

variable {offset : ℤ} {keyTag : String → String} {t : ℕ}

theorem reached_claimed (h : 1000 * offset ≤ t) :
    Reached offset keyTag (claimed (host offset keyTag) t) := ⟨t, h, reachable_claimed _ t⟩

theorem reached_failed (h : 1000 * offset ≤ t) :
    Reached offset keyTag (failed (host offset keyTag) t) := ⟨t, h, reachable_failed _ t⟩

theorem mem_selectRows_singleton {S : Setting} {now : ℕ} {r : Row}
    (h : S.claimable now r = true) : r ∈ S.selectRows now 1 [r] := by
  rw [selectRows_singleton h]
  exact List.mem_singleton_self r

/-- A drain that has not begun can claim. -/
theorem isSome_claim {S : Setting} {c : Clocked} {d : ℕ} {now : ℕ} (maxItems : ℤ)
    (hd : c.world.drains d = .idle) (h : c.now ≤ now) :
    (step S c (.claim d maxItems now)).isSome := by
  simp [step, time, Outbox.step, Event.party, hd, not_lt.2 h]

/-- Where local time is behind UTC, a retry is made too early. -/
theorem Backoff.nonneg (h : Backoff offset keyTag) : 0 ≤ offset := by
  by_contra hneg
  have hc : Reached offset keyTag (failed (host offset keyTag) 0) := reached_failed (by omega)
  have hclaimable : (host offset keyTag).claimable 1999
      (failedRow (host offset keyTag) 0) = true := by
    rw [claimable_of_failedAt hc (List.mem_singleton_self _) rfl rfl (Nat.zero_le _)]
    omega
  have hdue := h.notEarly _ hc 1 1 1999 (isSome_claim 1 rfl (Nat.zero_le _)) _
    (mem_selectRows_singleton hclaimable) rfl 0 1 rfl
  exact absurd hdue (by decide)

/-- Where it is ahead of UTC, a retry is not made when it is due. -/
theorem Backoff.nonpos (h : Backoff offset keyTag) : offset ≤ 0 := by
  by_contra hpos
  obtain ⟨n, rfl⟩ := Int.eq_ofNat_of_zero_le (show 0 ≤ offset by omega)
  have hc : Reached n keyTag (failed (host n keyTag) (1000 * n)) := reached_failed (by omega)
  have hdue := h.whenDue _ hc _ (List.mem_singleton_self _) rfl (1000 * n) 1 rfl
    (1000 * n + 2000) (Nat.le_add_right _ _) le_rfl
  have hnow : (failed (host n keyTag) (1000 * n)).now ≤ 1000 * n + 2000 := Nat.le_add_right _ _
  have := (claimable_of_failedAt hc (List.mem_singleton_self _) rfl rfl hnow).1 hdue
  omega

/-- Where it is ahead of UTC, a lease is over too early. -/
theorem Lease.nonpos {slack : ℕ} (h : Lease offset keyTag slack) : offset ≤ 0 := by
  by_contra hpos
  obtain ⟨n, rfl⟩ := Int.eq_ofNat_of_zero_le (show 0 ≤ offset by omega)
  have hc : Reached n keyTag (claimed (host n keyTag) (1000 * n + 1)) := reached_claimed (by omega)
  have hclaimable : (host n keyTag).claimable (1000 * n + lease)
      (claimedRow (host n keyTag) (1000 * n + 1)) = true := by
    rw [claimable_of_claimedAt hc (List.mem_singleton_self _) rfl rfl, lease]
    omega
  have hdue := h.notEarly _ hc 1 1 (1000 * n + lease)
    (isSome_claim 1 rfl (Nat.add_le_add_left (by decide) _)) _
    (mem_selectRows_singleton hclaimable) rfl _ rfl
  omega

/-- A lease is not over when it is due, but by the offset later, and one more second. -/
theorem Lease.le_slack {slack : ℕ} (h : Lease offset keyTag slack) :
    1000 * (1 - offset) ≤ slack := by
  have hpos := h.nonpos
  have hc : Reached offset keyTag (claimed (host offset keyTag) 0) := reached_claimed (by omega)
  have hdue := h.whenDue _ hc _ (List.mem_singleton_self _) rfl 0 rfl (0 + lease + slack)
    (Nat.zero_le _) le_rfl
  rw [claimable_of_claimedAt hc (List.mem_singleton_self _) rfl rfl, lease] at hdue
  omega

/-- **Exactly when rows are due.**  Retries are made when they are due on a host in UTC, and
nowhere else.  A lease is over when it is due nowhere: east of UTC it is over too early, and
elsewhere it lasts longer, by the offset and up to one more second. -/
theorem schedule_iff (offset : ℤ) (keyTag : String → String) :
    (Backoff offset keyTag ↔ offset = 0) ∧
    (∀ slack : ℕ, Lease offset keyTag slack ↔ offset ≤ 0 ∧ 1000 * (1 - offset) ≤ slack) ∧
    ¬ (Backoff offset keyTag ∧ Lease offset keyTag 0) := by
  refine ⟨⟨fun h => le_antisymm h.nonpos h.nonneg, fun h => h ▸ backoff_utc keyTag⟩,
    fun slack => ⟨fun h => ⟨h.nonpos, h.le_slack⟩, fun h => lease_of_le h.1 h.2⟩, ?_⟩
  rintro ⟨-, h⟩
  have hpos := h.nonpos
  have hslack := h.le_slack
  omega

/-- Five hours behind UTC. -/
def lima : ℤ := -(5 * 60 * 60)

/-- **A retry without a backoff**: the second drain claims the row in the millisecond in which
the failure of the first one was recorded. -/
theorem not_scheduled_lima :
    ¬ (Backoff lima plainSetting.keyTag ∧ Lease lima plainSetting.keyTag 0) := by
  rintro ⟨h, -⟩
  have hc : Reached lima plainSetting.keyTag
      (failed (host lima plainSetting.keyTag) 1700000000000) := reached_failed (by decide)
  have hclaimable : (host lima plainSetting.keyTag).claimable 1700000000000
      (failedRow (host lima plainSetting.keyTag) 1700000000000) = true := by decide +kernel
  have hdue := h.notEarly _ hc 1 1 1700000000000 (isSome_claim 1 rfl le_rfl) _
    (mem_selectRows_singleton hclaimable) rfl 1700000000000 1 rfl
  exact absurd hdue (by decide)

end Offset

end Schedule
end Boveda

/-
# `delete_objects_s3`

`src/boveda/storage.py`.  The keys go to S3 in batches of 1000, one request each, and
`tenacity` calls the function anew, from the first batch on, when a request raises; the
fifth exception is raised again.  S3 answers a request for many keys as a whole: the
reply names under `Errors` the keys that it has not deleted, and the function does not
read it.  So it can return although a key has never been deleted, and the purge then
forgets the chunk of that key (`not_deletesAll_denied`).  `deletesAll_iff` says when it does
not: when each key that the last attempt could not delete had been deleted before.

`Boveda.Catalog.History` has the call as a whole, which returns when all is deleted;
`purge_eq_executeTwoPhasePurge` says that this is what happens when no reply names a key.
-/

import Boveda.Catalog.History

namespace Boveda
namespace Deletes

open Lib Catalog

/-! ### Requests -/

/-- What `s3.delete_objects` comes to: an exception, whatever S3 has deleted by then, or
a reply with some keys under `Errors`. -/
inductive Reply
  | raises (removed : List String)
  | answers (errors : List String)
  deriving DecidableEq, Repr

/-- A request, and what became of it. -/
structure Request where
  batch : List String
  reply : Reply
  deriving DecidableEq, Repr

/-- S3 reports the key as deleted. -/
def Request.Reports (r : Request) (key : String) : Prop :=
  key ∈ r.batch ∧ ∃ errors, r.reply = .answers errors ∧ key ∉ errors

/-- S3 reports an error for the key. -/
def Request.Denies (r : Request) (key : String) : Prop :=
  key ∈ r.batch ∧ ∃ errors, r.reply = .answers errors ∧ key ∈ errors

/-- Whether S3 has deleted the key. -/
def Request.removes (r : Request) (key : String) : Bool :=
  decide (key ∈ r.batch) && match r.reply with
    | .raises removed => decide (key ∈ removed)
    | .answers errors => decide (key ∉ errors)

/-- The bucket after some requests. -/
def afterRequests (rs : List Request) (s3 : ObjectStore) : ObjectStore := fun key =>
  if rs.any fun r => r.removes key then none else s3 key

/-! ### Batches and attempts -/

/-- `keys[i : i + 1000]` for `i` in `range(0, len(keys), 1000)`. -/
def batches (keys : List String) : List (List String) :=
  (List.range ((keys.length + 999) / 1000)).map fun j => (keys.drop (1000 * j)).take 1000

/-- One call of the function: whether the client opens, and what becomes of the request
for each batch. -/
structure Attempt where
  opens : Bool := true
  replies : ℕ → Reply

/-- The requests for the batches from the `j`-th on, and whether none has raised. -/
def send (replies : ℕ → Reply) : ℕ → List (List String) → List Request × Bool
  | _, [] => ([], true)
  | j, batch :: rest =>
    match replies j with
    | .raises removed => ([⟨batch, .raises removed⟩], false)
    | .answers errors =>
      let (rs, returned) := send replies (j + 1) rest
      (⟨batch, .answers errors⟩ :: rs, returned)

/-- The body of `delete_objects_s3`: its requests, and whether it returns. -/
def Attempt.run (a : Attempt) (keys : List String) : List Request × Bool :=
  if a.opens then send a.replies 0 (batches keys) else ([], false)

/-- The calls that `@retry` makes, up to the first that returns. -/
def retry (keys : List String) : List Attempt → List Request × Bool
  | [] => ([], false)
  | a :: as =>
    match a.run keys with
    | (rs, true) => (rs, true)
    | (rs, false) =>
      let (rs', returned) := retry keys as
      (rs ++ rs', returned)

/-- `delete_objects_s3`, with `stop_after_attempt(5)`. -/
def deleteObjectsS3 (attempts : Fin 5 → Attempt) (keys : List String) : List Request × Bool :=
  retry keys (List.ofFn attempts)

/-! ### The purge that calls it -/

/-- `execute_two_phase_purge` with `delete_objects_s3` as its callback. -/
def purge (attempts : Fin 5 → Attempt) (batchSize : ℕ) (w : Store) : Store × Except DbError ℕ :=
  let (batch, cat) := purgePhase1 batchSize w.cat
  if batch.isEmpty then (w, .ok 0)
  else
    let (requests, s3Success) := deleteObjectsS3 attempts (batch.map Prod.snd)
    let s3 := afterRequests requests w.s3
    if s3Success then
      match purgePhase2 (batch.map Prod.fst) cat with
      | .ok cat' => (⟨cat', s3⟩, .ok batch.length)
      | .error e => (⟨cat, s3⟩, .error e)
    else (⟨purgeRevert (batch.map Prod.fst) cat, s3⟩, .ok 0)

/-- A chunk that the catalog forgets has no object any more. -/
def NeverForgets (w w' : Store) : Prop :=
  ∀ h r, w.cat.chunkPool.find? h = some r → w'.cat.chunkPool.find? h = none →
    w'.s3 r.storageKey = none

/-- What `delete_objects_s3` promises about the keys of a call, and about a purge of them. -/
structure DeletesAll (attempts : Fin 5 → Attempt) (keys : List String) : Prop where
  reported : (deleteObjectsS3 attempts keys).2 = true →
    ∀ key ∈ keys, ∃ r ∈ (deleteObjectsS3 attempts keys).1, r.Reports key
  bounded : ∀ r ∈ (deleteObjectsS3 attempts keys).1, r.batch.length ≤ 1000
  purges : ∀ (w : Store) (batchSize : ℕ), (chunksToPurge batchSize w.cat).map Prod.snd = keys →
    NeverForgets w (purge attempts batchSize w).1

/-- Of the first attempt that returns, if there is one: each key that it could not delete
has been reported as deleted in another request, up to its end. -/
def Cleared (keys : List String) (as : List Attempt) : Prop :=
  ∀ before a after, as = before ++ a :: after → (∀ b ∈ before, (b.run keys).2 = false) →
    (a.run keys).2 = true → ∀ r ∈ (a.run keys).1, ∀ key, r.Denies key →
      ∃ b ∈ before ++ [a], ∃ r' ∈ (b.run keys).1, r'.Reports key

variable {keys : List String} {key : String} {replies : ℕ → Reply} {attempts : Fin 5 → Attempt}
  {a : Attempt} {as : List Attempt} {r : Request}

/-! ### The requests of a call -/

/-- Every key is in one of the batches, and only the keys are. -/
theorem mem_batches : (∃ batch ∈ batches keys, key ∈ batch) ↔ key ∈ keys := by
  simp only [batches, List.mem_map, List.mem_range]
  constructor
  · rintro ⟨_, ⟨j, -, rfl⟩, hkey⟩
    exact List.mem_of_mem_drop (List.mem_of_mem_take hkey)
  · intro hkey
    obtain ⟨i, hi, rfl⟩ := List.mem_iff_getElem.1 hkey
    refine ⟨_, ⟨i / 1000, by omega, rfl⟩, List.mem_iff_getElem.2 ⟨i % 1000, ?_, ?_⟩⟩
    · simp only [List.length_take, List.length_drop]
      omega
    · simp only [List.getElem_take, List.getElem_drop]
      congr 1
      omega

theorem length_of_mem_batches {batch : List String} (h : batch ∈ batches keys) :
    batch.length ≤ 1000 := by
  obtain ⟨j, -, rfl⟩ := List.mem_map.1 h
  exact List.length_take_le ..

/-- Each request is for one of the batches. -/
theorem batch_of_mem_send {j : ℕ} {bs : List (List String)} (h : r ∈ (send replies j bs).1) :
    r.batch ∈ bs := by
  induction bs generalizing j with
  | nil => exact absurd h List.not_mem_nil
  | cons batch bs ih =>
    rw [send] at h
    split at h
    · rw [List.mem_singleton.1 h]
      exact List.mem_cons_self ..
    · rcases List.mem_cons.1 h with rfl | h
      · exact List.mem_cons_self ..
      · exact List.mem_cons_of_mem _ (ih h)

/-- When no request has raised, each batch has been answered. -/
theorem answered_of_send {j : ℕ} {bs : List (List String)} (h : (send replies j bs).2 = true)
    {batch : List String} (hb : batch ∈ bs) :
    ∃ errors, (⟨batch, .answers errors⟩ : Request) ∈ (send replies j bs).1 := by
  induction bs generalizing j with
  | nil => exact absurd hb List.not_mem_nil
  | cons b bs ih =>
    rw [send] at h ⊢
    split at h
    · cases h
    · next errors hreply =>
      rcases List.mem_cons.1 hb with rfl | hb
      · exact ⟨errors, List.mem_cons_self ..⟩
      · obtain ⟨errors', hmem⟩ := ih h hb
        exact ⟨errors', List.mem_cons_of_mem _ hmem⟩

theorem Attempt.batch_of_mem_run (h : r ∈ (a.run keys).1) : r.batch ∈ batches keys := by
  unfold Attempt.run at h
  split_ifs at h
  · exact batch_of_mem_send h
  · exact absurd h List.not_mem_nil

/-- **An attempt that returns** has an answer for each key. -/
theorem Attempt.answered (h : (a.run keys).2 = true) (hkey : key ∈ keys) :
    ∃ r ∈ (a.run keys).1, r.Reports key ∨ r.Denies key := by
  obtain ⟨batch, hb, hmem⟩ := mem_batches.2 hkey
  unfold Attempt.run at h ⊢
  split_ifs at h ⊢
  obtain ⟨errors, hr⟩ := answered_of_send h hb
  refine ⟨_, hr, ?_⟩
  by_cases herr : key ∈ errors
  · exact .inr ⟨hmem, errors, rfl, herr⟩
  · exact .inl ⟨hmem, errors, rfl, herr⟩

/-- The requests of a sequence of attempts, up to the first that returns. -/
theorem mem_retry (h : r ∈ (retry keys as).1) : ∃ b ∈ as, r ∈ (b.run keys).1 := by
  induction as with
  | nil => exact absurd h List.not_mem_nil
  | cons a as ih =>
    rw [retry] at h
    split at h
    · next rs hrun => exact ⟨a, List.mem_cons_self .., by rw [hrun]; exact h⟩
    · next rs hrun =>
      rcases List.mem_append.1 h with h | h
      · exact ⟨a, List.mem_cons_self .., by rw [hrun]; exact h⟩
      · obtain ⟨b, hb, hr⟩ := ih h
        exact ⟨b, List.mem_cons_of_mem _ hb, hr⟩

/-- **Attempts that return** end with one that does, the first of its kind. -/
theorem retry_returns (h : (retry keys as).2 = true) : ∃ before a after,
    as = before ++ a :: after ∧ (∀ b ∈ before, (b.run keys).2 = false) ∧
      (a.run keys).2 = true := by
  induction as with
  | nil => cases h
  | cons a as ih =>
    rw [retry] at h
    split at h
    · next rs hrun =>
      exact ⟨[], a, as, rfl, fun _ hb => absurd hb List.not_mem_nil, by rw [hrun]⟩
    · next rs hrun =>
      obtain ⟨before, a', after, rfl, hbefore, hreturns⟩ := ih h
      refine ⟨a :: before, a', after, rfl, fun b hb => ?_, hreturns⟩
      rcases List.mem_cons.1 hb with rfl | hb
      · rw [hrun]
      · exact hbefore b hb

/-- The attempts up to the first that returns. -/
theorem retry_append {before : List Attempt} (after : List Attempt)
    (hbefore : ∀ b ∈ before, (b.run keys).2 = false) (hreturns : (a.run keys).2 = true) :
    (retry keys (before ++ a :: after)).2 = true ∧
      ∀ r, r ∈ (retry keys (before ++ a :: after)).1 ↔
        ∃ b ∈ before ++ [a], r ∈ (b.run keys).1 := by
  induction before with
  | nil =>
    rw [List.nil_append, retry]
    split
    · next rs hrun =>
      refine ⟨rfl, fun r => ?_⟩
      simp [hrun]
    · next rs hrun =>
      rw [hrun] at hreturns
      cases hreturns
  | cons b before ih =>
    obtain ⟨hret, hmem⟩ := ih fun b' hb' => hbefore b' (List.mem_cons_of_mem _ hb')
    have hb := hbefore b (List.mem_cons_self ..)
    rw [List.cons_append, retry]
    split
    · next rs hrun =>
      rw [hrun] at hb
      cases hb
    · next rs hrun =>
      refine ⟨hret, fun r => ?_⟩
      simp only [List.mem_append, hmem, List.cons_append, List.mem_cons, exists_eq_or_imp, hrun]

theorem Request.removes_of_reports (h : r.Reports key) : r.removes key = true := by
  obtain ⟨hmem, errors, hreply, hno⟩ := h
  simp [Request.removes, hmem, hreply, hno]

/-! ### A purge and its call -/

/-- A chunk that a purge forgets was claimed by it, and the call has returned. -/
theorem purge_forgets {batchSize : ℕ} {w : Store} {h : String} {row : ChunkPool}
    (hrow : w.cat.chunkPool.find? h = some row)
    (hgone : (purge attempts batchSize w).1.cat.chunkPool.find? h = none) :
    row.storageKey ∈ (chunksToPurge batchSize w.cat).map Prod.snd ∧
      (deleteObjectsS3 attempts ((chunksToPurge batchSize w.cat).map Prod.snd)).2 = true ∧
      (purge attempts batchSize w).1.s3 = afterRequests
        (deleteObjectsS3 attempts ((chunksToPurge batchSize w.cat).map Prod.snd)).1 w.s3 := by
  obtain ⟨hclaimed, hmarked, -, -⟩ := purgePhase1_spec batchSize w.cat
  have hphase1 : (purgePhase1 batchSize w.cat).1 = chunksToPurge batchSize w.cat := rfl
  -- the claim keeps the row
  have hkept : (purgePhase1 batchSize w.cat).2.chunkPool.find? h ≠ none := by
    rw [hmarked, hrow]
    split_ifs <;> simp
  unfold purge at hgone ⊢
  simp only [hphase1] at hgone ⊢
  split_ifs at hgone with hempty hsuccess
  · rw [hrow] at hgone
    cases hgone
  · rw [if_neg hempty, if_pos hsuccess]
    split at hgone
    · next cat' hphase2 =>
      refine ⟨?_, hsuccess, rfl⟩
      rw [(purgePhase2_ok hphase2).1] at hgone
      split_ifs at hgone with hmem
      · obtain ⟨⟨h', key⟩, hpair, rfl⟩ := List.mem_map.1 hmem
        obtain ⟨r, hr, hkey, -⟩ := hclaimed h' key hpair
        obtain rfl := Option.some.inj (hr.symm.trans hrow)
        exact List.mem_map.2 ⟨(h', key), hpair, hkey.symm⟩
      · exact absurd hgone hkept
    · exact absurd hgone hkept
  · refine absurd hgone ?_
    rw [(purgeRevert_spec _ _).1]
    split_ifs
    · simpa using hkept
    · exact hkept

/-- **Exactly when a call that returns has deleted all**, and a purge forgets no chunk
whose object is left: each key that the attempt which returns could not delete has been
reported as deleted in another request. -/
theorem deletesAll_iff (attempts : Fin 5 → Attempt) (keys : List String) :
    DeletesAll attempts keys ↔ Cleared keys (List.ofFn attempts) := by
  constructor
  · intro h before a after has hbefore hreturns r hr key hdenies
    obtain ⟨hret, hmem⟩ := retry_append after hbefore hreturns
    have hkey : key ∈ keys := mem_batches.1 ⟨_, a.batch_of_mem_run hr, hdenies.1⟩
    obtain ⟨r', hr', hreports⟩ := h.reported (by rw [deleteObjectsS3, has]; exact hret) key hkey
    rw [deleteObjectsS3, has, hmem] at hr'
    obtain ⟨b, hb, hr'⟩ := hr'
    exact ⟨b, hb, r', hr', hreports⟩
  · intro h
    have hreported : (deleteObjectsS3 attempts keys).2 = true →
        ∀ key ∈ keys, ∃ r ∈ (deleteObjectsS3 attempts keys).1, r.Reports key := by
      intro hret key hkey
      obtain ⟨before, a, after, has, hbefore, hreturns⟩ := retry_returns hret
      obtain ⟨-, hmem⟩ := retry_append after hbefore hreturns
      rw [deleteObjectsS3, has]
      obtain ⟨r, hr, hreports | hdenies⟩ := Attempt.answered hreturns hkey
      · exact ⟨r, (hmem r).2 ⟨a, by simp, hr⟩, hreports⟩
      · obtain ⟨b, hb, r', hr', hreports⟩ := h before a after has hbefore hreturns r hr key hdenies
        exact ⟨r', (hmem r').2 ⟨b, hb, hr'⟩, hreports⟩
    refine ⟨hreported, fun r hr => ?_, fun w batchSize hkeys hash row hrow hgone => ?_⟩
    · obtain ⟨b, -, hr⟩ := mem_retry hr
      exact length_of_mem_batches (b.batch_of_mem_run hr)
    · obtain ⟨hmem, hret, hs3⟩ := purge_forgets hrow hgone
      rw [hkeys] at hmem hret hs3
      obtain ⟨r, hr, hreports⟩ := hreported hret _ hmem
      rw [hs3, afterRequests, if_pos (List.any_eq_true.2 ⟨r, hr, r.removes_of_reports hreports⟩)]

/-- Whether S3 has deleted a key of the call, in one request or another. -/
theorem mem_of_removes (hr : r ∈ (deleteObjectsS3 attempts keys).1) (h : r.removes key = true) :
    key ∈ keys := by
  obtain ⟨b, -, hr⟩ := mem_retry hr
  simp only [Request.removes, Bool.and_eq_true, decide_eq_true_eq] at h
  exact mem_batches.1 ⟨_, b.batch_of_mem_run hr, h.1⟩

/-- **When no reply denies a key**, the call is one that returns when all is deleted. -/
theorem purge_eq_executeTwoPhasePurge (attempts : Fin 5 → Attempt) (batchSize : ℕ) (w : Store)
    (hdenies : ∀ i, ∀ r ∈ ((attempts i).run ((chunksToPurge batchSize w.cat).map Prod.snd)).1,
      ∀ key, ¬ r.Denies key) :
    ∃ o, purge attempts batchSize w = executeTwoPhasePurge batchSize o w := by
  have hphase1 : (purgePhase1 batchSize w.cat).1 = chunksToPurge batchSize w.cat := rfl
  unfold purge executeTwoPhasePurge
  simp only [hphase1]
  generalize hkeys : (chunksToPurge batchSize w.cat).map Prod.snd = keys at hdenies ⊢
  cases hret : (deleteObjectsS3 attempts keys).2 with
  | true =>
    have hs3 : afterRequests (deleteObjectsS3 attempts keys).1 w.s3 = deleteObjects keys w.s3 := by
      funext key
      refine if_congr ?_ rfl rfl
      rw [List.any_eq_true]
      constructor
      · rintro ⟨r, hr, hremoves⟩
        exact mem_of_removes hr hremoves
      · intro hkey
        obtain ⟨before, a, after, has, hbefore, hreturns⟩ := retry_returns hret
        obtain ⟨r, hr, hreports | hdeny⟩ := Attempt.answered hreturns hkey
        · refine ⟨r, ?_, r.removes_of_reports hreports⟩
          rw [deleteObjectsS3, has]
          exact ((retry_append after hbefore hreturns).2 r).2 ⟨a, by simp, hr⟩
        · obtain ⟨i, rfl⟩ := List.mem_ofFn.1 (show a ∈ List.ofFn attempts by rw [has]; simp)
          exact absurd hdeny (hdenies i r hr key)
    refine ⟨.returns, ?_⟩
    cases hphase2 : purgePhase2 ((chunksToPurge batchSize w.cat).map Prod.fst)
        (purgePhase1 batchSize w.cat).2 <;>
      simp only [hs3, if_true, Catalog.deleteObjectsS3]
  | false =>
    let removed := keys.filter fun key =>
      (deleteObjectsS3 attempts keys).1.any fun r => r.removes key
    have hs3 : afterRequests (deleteObjectsS3 attempts keys).1 w.s3 =
        deleteObjects (keys.filter (DeleteOutcome.raises removed).removes) w.s3 := by
      funext key
      refine if_congr ?_ rfl rfl
      simp only [DeleteOutcome.removes, removed, List.mem_filter, decide_eq_true_eq]
      constructor
      · intro hany
        obtain ⟨r, hr, hremoves⟩ := List.any_eq_true.1 hany
        exact ⟨mem_of_removes hr hremoves, mem_of_removes hr hremoves, hany⟩
      · exact fun h => h.2.2
    refine ⟨.raises removed, ?_⟩
    simp only [hs3, Catalog.deleteObjectsS3, Bool.false_eq_true, if_false]

/-- S3 answers the first request with an error for the key. -/
def denied (key : String) : Fin 5 → Attempt := fun _ => { replies := fun _ => .answers [key] }

/-- A bucket with the object of one chunk, which nothing refers to. -/
def oneOrphan : Store where
  cat := { Catalog.empty with
    chunkPool := Table.empty.insert { newPool 0 "a" 27 with state := .pendingDelete } rfl }
  s3 := fun key => if key = "chunks/a.bin" then some [7] else none

/-- **A denied key is forgotten**: the call returns, the row goes and the object stays. -/
theorem not_deletesAll_denied : ¬ DeletesAll (denied "chunks/a.bin") ["chunks/a.bin"] := by
  intro h
  have hforgets := h.purges oneOrphan 500 (by decide +kernel) "a"
    { newPool 0 "a" 27 with state := .pendingDelete } (by decide +kernel) (by decide +kernel)
  exact absurd hforgets (by decide +kernel)

end Deletes
end Boveda

/-
# The store of one-time tickets

`TicketStore` of `src/boveda/auth.py`: an ordered dictionary of bounded size.  Creating
a ticket first drops the expired tickets at its front, then the oldest if it is full;
redeeming a ticket removes it, wherever it stands.  The lock makes both one step.

A ticket is lost for three reasons only: it has been redeemed, it has expired, or
`max_capacity` tickets have been created after it (`Inv.lost`).
-/

import Boveda.Auth.Claims
import Boveda.Lib.Table

namespace Boveda
namespace Auth

open Lib

variable {T : Type*}

/-- An entry of `_tickets`. -/
structure Ticket (T : Type*) where
  ticketId : String
  claims : TokenClaims
  expiresAt : T

/-- `_tickets`, in the order of insertion. -/
abbrev Store (T : Type*) := Table (Ticket T) Ticket.ticketId

/-- Expired tickets are taken off the front. -/
def Store.purge [LinearOrder T] (now : T) (s : Store T) : Store T where
  rows := s.rows.dropWhile fun t => t.expiresAt < now
  nodup := s.nodup.sublist ((List.dropWhile_sublist _).map _)

/-- `popitem(last=False)`.  It raises on an empty store, which is not full when the
capacity is positive. -/
def Store.popFirst (s : Store T) : Store T where
  rows := s.rows.tail
  nodup := s.nodup.sublist ((List.tail_sublist _).map _)

/-- `_tickets[t.ticketId] = …`. -/
def Store.put (t : Ticket T) (s : Store T) : Store T :=
  if h : s.find? t.ticketId = none then s.insert t h
  else s.update (fun r => r.ticketId = t.ticketId) (fun r => { t with ticketId := r.ticketId })
    fun _ => rfl

/-- What happens to a store.  A creation reads the clock twice, the second time under
the lock. -/
inductive Call (T : Type*)
  | create (ticketId : String) (claims : TokenClaims) (startedAt ttlSeconds now : T)
  | consume (ticketId : String) (now : T)

/-- The time of a call. -/
def Call.time : Call T → T
  | .create _ _ _ _ now => now
  | .consume _ now => now

section

variable [LinearOrder T] [Add T] (maxCapacity : ℕ)

/-- `create_ticket`, which draws the id `ticketId`. -/
def createTicket (ticketId : String) (claims : TokenClaims) (startedAt ttlSeconds now : T)
    (s : Store T) : Store T :=
  let expiresAt := startedAt + ttlSeconds
  let s := s.purge now
  let s := if maxCapacity ≤ s.rows.length then s.popFirst else s
  s.put { ticketId, claims, expiresAt }

/-- `consume_ticket`: the claims or the text of `InvalidTicketError`. -/
def consumeTicket (ticketId : String) (now : T) (s : Store T) :
    Except String TokenClaims × Store T :=
  match s.find? ticketId with
  | none => (.error "Ticket inexistente o ya consumido.", s)
  | some t =>
    (if t.expiresAt < now then .error "Ticket expirado." else .ok t.claims,
      s.delete fun r => r.ticketId = ticketId)

/-- One call. -/
def Store.step (s : Store T) : Call T → Store T
  | .create ticketId claims startedAt ttlSeconds now =>
    createTicket maxCapacity ticketId claims startedAt ttlSeconds now s
  | .consume ticketId now => (consumeTicket ticketId now s).2

/-- The store after some calls. -/
def storeAfter (calls : List (Call T)) : Store T := calls.foldl (Store.step maxCapacity) .empty

/-- The ticket that a call creates. -/
def Call.ticket? : Call T → Option (Ticket T)
  | .create ticketId claims startedAt ttlSeconds _ =>
    some { ticketId, claims, expiresAt := startedAt + ttlSeconds }
  | .consume _ _ => none

/-- The tickets created, the oldest first. -/
def created (calls : List (Call T)) : List (Ticket T) := calls.filterMap Call.ticket?

/-- The clock does not go back, and no id is drawn twice. -/
structure Valid (calls : List (Call T)) : Prop where
  times : calls.Pairwise fun a b => a.time ≤ b.time
  nodup : ((created calls).map Ticket.ticketId).Nodup

/-- Redeeming a ticket after some calls returns claims. -/
def Redeems (calls : List (Call T)) (ticketId : String) (now : T) (claims : TokenClaims) : Prop :=
  (consumeTicket ticketId now (storeAfter maxCapacity calls)).1 = .ok claims

/-- A ticket has been redeemed in some calls. -/
def Redeemed (calls : List (Call T)) (ticketId : String) : Prop :=
  ∃ before after now claims, calls = before ++ .consume ticketId now :: after ∧
    Redeems maxCapacity before ticketId now claims

end

section

variable {s : Store T} {t : Ticket T}

theorem mem_purge [LinearOrder T] (now : T) (ht : t ∈ s.rows) :
    t ∈ (s.purge now).rows ∨ t.expiresAt < now := by
  rw [← List.takeWhile_append_dropWhile (p := fun t => decide (t.expiresAt < now)) (l := s.rows),
    List.mem_append] at ht
  rcases ht with ht | ht
  · exact .inr (by simpa using List.mem_takeWhile_imp ht)
  · exact .inl ht

theorem mem_popFirst (ht : t ∈ s.rows) : t ∈ s.popFirst.rows ∨ ∃ rest, s.rows = t :: rest := by
  cases hrows : s.rows with
  | nil =>
    rw [hrows] at ht
    cases ht
  | cons first rest =>
    rw [hrows] at ht
    rcases List.mem_cons.1 ht with rfl | ht
    · exact .inr ⟨rest, rfl⟩
    · refine .inl ?_
      show t ∈ s.rows.tail
      rwa [hrows]

theorem put_rows (h : ∀ r ∈ s.rows, r.ticketId ≠ t.ticketId) : (s.put t).rows = s.rows ++ [t] := by
  rw [Store.put, dif_pos (Table.find?_eq_none.2 h)]
  rfl

/-- A redemption takes at most the ticket away. -/
theorem consumeTicket_sublist [LinearOrder T] (ticketId : String) (now : T) (s : Store T) :
    (consumeTicket ticketId now s).2.rows.Sublist s.rows := by
  unfold consumeTicket
  split
  · exact List.Sublist.refl _
  · exact List.filter_sublist

theorem mem_consumeTicket_of_ne [LinearOrder T] {ticketId : String} (now : T) (ht : t ∈ s.rows)
    (hkey : t.ticketId ≠ ticketId) : t ∈ (consumeTicket ticketId now s).2.rows := by
  unfold consumeTicket
  split
  · exact ht
  · exact Table.mem_delete.2 ⟨ht, by simpa using hkey⟩

/-- A ticket that is found is gone afterwards. -/
theorem not_mem_consumeTicket [LinearOrder T] {r : Ticket T} {ticketId : String} (now : T)
    (hfind : s.find? ticketId = some r) (hkey : t.ticketId = ticketId) :
    t ∉ (consumeTicket ticketId now s).2.rows := by
  intro ht
  unfold consumeTicket at ht
  rw [hfind] at ht
  simpa [hkey] using (Table.mem_delete.1 ht).2

theorem created_snoc_create [Add T] {calls : List (Call T)} {ticketId : String}
    {claims : TokenClaims} {startedAt ttlSeconds now : T} :
    created (calls ++ [.create ticketId claims startedAt ttlSeconds now]) =
      created calls ++ [{ ticketId, claims, expiresAt := startedAt + ttlSeconds }] := by
  simp [created, Call.ticket?]

/-- In a list without repetitions, what follows an element in a sublist follows it in the
list. -/
theorem sublist_of_cons_sublist {α : Type*} {a : α} {rest before after : List α}
    (h : (a :: rest).Sublist (before ++ a :: after)) (ha : a ∉ before) : rest.Sublist after := by
  obtain ⟨l₁, l₂, heq, h₁, h₂⟩ := List.sublist_append_iff.1 h
  cases l₁ with
  | nil =>
    rw [List.nil_append] at heq
    subst heq
    exact List.cons_sublist_cons.1 h₂
  | cons b l₁ =>
    obtain ⟨rfl, -⟩ := List.cons.inj heq
    exact absurd (h₁.subset (List.mem_cons_self ..)) ha

end

section

variable [LinearOrder T] [Add T] {maxCapacity : ℕ} {calls : List (Call T)} {call : Call T}

theorem storeAfter_snoc :
    storeAfter maxCapacity (calls ++ [call]) =
      (storeAfter maxCapacity calls).step maxCapacity call :=
  List.foldl_append

theorem redeemed_snoc {ticketId : String} :
    Redeemed maxCapacity (calls ++ [call]) ticketId ↔
      Redeemed maxCapacity calls ticketId ∨ ∃ now claims, call = .consume ticketId now ∧
        Redeems maxCapacity calls ticketId now claims := by
  constructor
  · rintro ⟨before, after, now, claims, heq, hredeems⟩
    rcases List.eq_nil_or_concat after with rfl | ⟨after, last, rfl⟩
    · obtain ⟨rfl, hcall⟩ := List.append_inj' heq rfl
      exact .inr ⟨now, claims, List.singleton_inj.1 hcall, hredeems⟩
    · rw [List.concat_eq_append, ← List.cons_append, ← List.append_assoc] at heq
      obtain ⟨rfl, -⟩ := List.append_inj' heq rfl
      exact .inl ⟨before, after, now, claims, rfl, hredeems⟩
  · rintro (⟨before, after, now, claims, rfl, hredeems⟩ | ⟨now, claims, rfl, hredeems⟩)
    · exact ⟨before, after ++ [call], now, claims, by simp, hredeems⟩
    · exact ⟨calls, [], now, claims, rfl, hredeems⟩

/-- What redeeming finds. -/
theorem redeems_iff {ticketId : String} {now : T} {claims : TokenClaims} :
    Redeems maxCapacity calls ticketId now claims ↔
      ∃ t, (storeAfter maxCapacity calls).find? ticketId = some t ∧ now ≤ t.expiresAt ∧
        t.claims = claims := by
  unfold Redeems consumeTicket
  cases (storeAfter maxCapacity calls).find? ticketId with
  | none => simp
  | some t =>
    dsimp only
    split_ifs with hexpired
    · simp [hexpired]
    · simp [not_lt.1 hexpired]

/-- What holds after any calls.  `lost` gives the reasons for which a ticket that has been
created is not in the store. -/
structure Inv (maxCapacity : ℕ) (calls : List (Call T)) : Prop where
  bounded : (storeAfter maxCapacity calls).rows.length ≤ maxCapacity
  sublist : (storeAfter maxCapacity calls).rows.Sublist (created calls)
  created_of_redeemed : ∀ ticketId, Redeemed maxCapacity calls ticketId →
    ticketId ∈ (created calls).map Ticket.ticketId
  not_redeemed : ∀ t ∈ (storeAfter maxCapacity calls).rows, ¬ Redeemed maxCapacity calls t.ticketId
  lost : ∀ older t newer, created calls = older ++ t :: newer →
    t ∈ (storeAfter maxCapacity calls).rows ∨ Redeemed maxCapacity calls t.ticketId ∨
      maxCapacity ≤ newer.length ∨ ∃ call ∈ calls, t.expiresAt < call.time

theorem inv_nil : Inv maxCapacity ([] : List (Call T)) where
  bounded := Nat.zero_le _
  sublist := List.Sublist.refl _
  created_of_redeemed := by
    rintro _ ⟨before, after, _, _, heq, _⟩
    exact absurd heq (by simp)
  not_redeemed t ht := by cases ht
  lost older t newer heq := absurd heq (by simp [created])

theorem Inv.consume (h : Inv maxCapacity calls) (ticketId : String) (now : T) :
    Inv maxCapacity (calls ++ [.consume ticketId now]) := by
  have hcreated : created (calls ++ [.consume ticketId now]) = created calls := by
    simp [created, Call.ticket?]
  have hstore : storeAfter maxCapacity (calls ++ [.consume ticketId now]) =
      (consumeTicket ticketId now (storeAfter maxCapacity calls)).2 := storeAfter_snoc
  have hsub : (storeAfter maxCapacity (calls ++ [.consume ticketId now])).rows.Sublist
      (storeAfter maxCapacity calls).rows :=
    hstore ▸ consumeTicket_sublist ticketId now _
  have hold {id : String} (hid : Redeemed maxCapacity calls id) :
      Redeemed maxCapacity (calls ++ [.consume ticketId now]) id := redeemed_snoc.2 (.inl hid)
  refine ⟨hsub.length_le.trans h.bounded, hcreated ▸ hsub.trans h.sublist, fun id hid => ?_,
    fun t ht hid => ?_, fun older t newer heq => ?_⟩
  · rw [hcreated]
    rcases redeemed_snoc.1 hid with hid | ⟨now', claims, hcall, hredeems⟩
    · exact h.created_of_redeemed id hid
    · obtain ⟨t, hfind, -, -⟩ := redeems_iff.1 hredeems
      rw [← Table.key_of_find? hfind]
      exact List.mem_map_of_mem (h.sublist.subset (Table.mem_of_find? hfind))
  · rcases redeemed_snoc.1 hid with hid | ⟨now', claims, hcall, hredeems⟩
    · exact h.not_redeemed t (hsub.subset ht) hid
    · -- the ticket has been found, and so removed
      obtain ⟨rfl, -⟩ := Call.consume.inj hcall
      obtain ⟨r, hfind, -, -⟩ := redeems_iff.1 hredeems
      rw [hstore] at ht
      exact not_mem_consumeTicket now hfind rfl ht
  · rw [hcreated] at heq
    rcases h.lost older t newer heq with ht | hid | hnewer | ⟨call, hcall, hexpired⟩
    · by_cases hkey : t.ticketId = ticketId
      · have hfind : (storeAfter maxCapacity calls).find? ticketId = some t :=
          hkey ▸ Table.find?_of_mem ht
        by_cases hexpired : t.expiresAt < now
        · exact .inr (.inr (.inr ⟨.consume ticketId now, by simp, hexpired⟩))
        · exact .inr (.inl (redeemed_snoc.2 (.inr ⟨now, t.claims, by rw [hkey],
            redeems_iff.2 ⟨t, hkey ▸ hfind, not_lt.1 hexpired, rfl⟩⟩)))
      · refine .inl ?_
        rw [hstore]
        exact mem_consumeTicket_of_ne now ht hkey
    · exact .inr (.inl (hold hid))
    · exact .inr (.inr (.inl hnewer))
    · exact .inr (.inr (.inr ⟨call, List.mem_append_left _ hcall, hexpired⟩))

/-- What the creation of a ticket with a new id leaves of the others. -/
theorem exists_storeAfter_create (h : Inv maxCapacity calls) {ticketId : String}
    (claims : TokenClaims) (startedAt ttlSeconds now : T)
    (hnew : ticketId ∉ (created calls).map Ticket.ticketId) :
    ∃ kept : Store T, (storeAfter maxCapacity
        (calls ++ [.create ticketId claims startedAt ttlSeconds now])).rows =
        kept.rows ++ [{ ticketId, claims, expiresAt := startedAt + ttlSeconds }] ∧
      kept.rows.Sublist (storeAfter maxCapacity calls).rows ∧
      (0 < maxCapacity → kept.rows.length < maxCapacity) ∧
      ∀ t ∈ (storeAfter maxCapacity calls).rows, t ∈ kept.rows ∨ t.expiresAt < now ∨
        ∃ rest, (t :: rest).Sublist (storeAfter maxCapacity calls).rows ∧
          maxCapacity ≤ rest.length + 1 := by
  have hpurge : ((storeAfter maxCapacity calls).purge now).rows.Sublist
      (storeAfter maxCapacity calls).rows := List.dropWhile_sublist _
  generalize hpurged : (storeAfter maxCapacity calls).purge now = purged at hpurge
  have hkept : ((if maxCapacity ≤ purged.rows.length then purged.popFirst else purged) :
      Store T).rows.Sublist (storeAfter maxCapacity calls).rows := by
    split_ifs
    · exact (List.tail_sublist _).trans hpurge
    · exact hpurge
  refine ⟨if maxCapacity ≤ purged.rows.length then purged.popFirst else purged, ?_, hkept, ?_, ?_⟩
  · rw [storeAfter_snoc, Store.step, createTicket, hpurged, put_rows]
    rintro r hr rfl
    exact hnew (List.mem_map_of_mem (h.sublist.subset (hkept.subset hr)))
  · intro hpos
    have hle := hpurge.length_le.trans h.bounded
    split_ifs with hfull
    · show purged.rows.tail.length < maxCapacity
      rw [List.length_tail]
      omega
    · exact Nat.not_le.1 hfull
  · intro t ht
    rcases mem_purge now ht with ht | hexpired
    · rw [hpurged] at ht
      split_ifs with hfull
      · rcases mem_popFirst ht with ht | ⟨rest, hrest⟩
        · exact .inl ht
        · refine .inr (.inr ⟨rest, hrest ▸ hpurge, ?_⟩)
          rwa [hrest] at hfull
      · exact .inl ht
    · exact .inr (.inl hexpired)

theorem Inv.create (hpos : 1 ≤ maxCapacity) (h : Inv maxCapacity calls) {ticketId : String}
    {claims : TokenClaims} {startedAt ttlSeconds now : T}
    (hnew : ticketId ∉ (created calls).map Ticket.ticketId)
    (hnodup : ((created calls).map Ticket.ticketId).Nodup) :
    Inv maxCapacity (calls ++ [.create ticketId claims startedAt ttlSeconds now]) := by
  obtain ⟨kept, hrows, hkept, hlength, hleft⟩ :=
    exists_storeAfter_create h claims startedAt ttlSeconds now hnew
  have hredeemed {id : String} :
      Redeemed maxCapacity (calls ++ [.create ticketId claims startedAt ttlSeconds now]) id ↔
        Redeemed maxCapacity calls id := by
    rw [redeemed_snoc]
    exact or_iff_left fun ⟨_, _, hcall, _⟩ => by cases hcall
  refine ⟨?_, ?_, fun id hid => ?_, fun t ht hid => ?_, fun older t newer heq => ?_⟩
  · rw [hrows, List.length_append]
    exact hlength hpos
  · rw [hrows, created_snoc_create]
    exact (hkept.trans h.sublist).append (List.Sublist.refl _)
  · rw [created_snoc_create, List.map_append]
    exact List.mem_append_left _ (h.created_of_redeemed id (hredeemed.1 hid))
  · rw [hrows, List.mem_append] at ht
    rcases ht with ht | ht
    · exact h.not_redeemed t (hkept.subset ht) (hredeemed.1 hid)
    · obtain rfl := List.mem_singleton.1 ht
      exact hnew (h.created_of_redeemed ticketId (hredeemed.1 hid))
  · rw [hrows]
    rcases List.eq_nil_or_concat newer with rfl | ⟨newer, last, rfl⟩
    · rw [created_snoc_create] at heq
      obtain ⟨-, hlast⟩ := List.append_inj' heq rfl
      exact .inl (List.mem_append_right _ (List.mem_singleton.2 (List.singleton_inj.1 hlast).symm))
    rw [created_snoc_create, List.concat_eq_append, ← List.cons_append, ← List.append_assoc] at heq
    obtain ⟨heq, -⟩ := List.append_inj' heq rfl
    rcases h.lost older t newer heq with ht | hid | hnewer | ⟨call, hcall, hexpired⟩
    · rcases hleft t ht with ht | hexpired | ⟨rest, hrest, hfull⟩
      · exact .inl (List.mem_append_left _ ht)
      · exact .inr (.inr (.inr ⟨_, List.mem_append_right _ (List.mem_singleton_self _), hexpired⟩))
      · -- `t` is evicted, and what stands behind it has been created after it
        have hbehind : rest.Sublist newer := by
          refine sublist_of_cons_sublist (heq ▸ hrest.trans h.sublist) fun ht => ?_
          rw [heq, List.map_append, List.nodup_append] at hnodup
          have hself : t.ticketId ∈ (t :: newer).map Ticket.ticketId := List.mem_cons_self ..
          exact hnodup.2.2 _ (List.mem_map_of_mem ht) _ hself rfl
        refine .inr (.inr (.inl ?_))
        rw [List.concat_eq_append, List.length_append, List.length_singleton]
        exact hfull.trans (Nat.succ_le_succ hbehind.length_le)
    · exact .inr (.inl (hredeemed.2 hid))
    · refine .inr (.inr (.inl ?_))
      rw [List.concat_eq_append, List.length_append]
      exact hnewer.trans (Nat.le_add_right _ _)
    · exact .inr (.inr (.inr ⟨call, List.mem_append_left _ hcall, hexpired⟩))

theorem Valid.of_append {before after : List (Call T)} (h : Valid (before ++ after)) :
    Valid before where
  times := (List.pairwise_append.1 h.times).1
  nodup := by
    have hnodup := h.nodup
    rw [created, List.filterMap_append, List.map_append, List.nodup_append] at hnodup
    exact hnodup.1

/-- **What holds after any valid calls.** -/
theorem inv_of_valid (hpos : 1 ≤ maxCapacity) (h : Valid calls) : Inv maxCapacity calls := by
  induction calls using List.reverseRecOn with
  | nil => exact inv_nil
  | append_singleton calls call ih =>
    have hinv := ih h.of_append
    cases call with
    | consume ticketId now => exact hinv.consume ticketId now
    | create ticketId claims startedAt ttlSeconds now =>
      have hnodup := h.nodup
      rw [created_snoc_create, List.map_append, List.nodup_append] at hnodup
      exact hinv.create hpos (fun hmem => hnodup.2.2 _ hmem _ (List.mem_singleton_self _) rfl)
        hnodup.1

/-- A ticket is redeemed with the claims it was created with, and before it expires. -/
theorem created_of_redeems (hpos : 1 ≤ maxCapacity) (h : Valid calls) {ticketId : String} {now : T}
    {claims : TokenClaims} (hredeems : Redeems maxCapacity calls ticketId now claims) :
    ∃ startedAt ttlSeconds createdAt,
      .create ticketId claims startedAt ttlSeconds createdAt ∈ calls ∧
        now ≤ startedAt + ttlSeconds := by
  obtain ⟨t, hfind, hnow, rfl⟩ := redeems_iff.1 hredeems
  have hmem := (inv_of_valid hpos h).sublist.subset (Table.mem_of_find? hfind)
  obtain ⟨call, hcall, ht⟩ := List.mem_filterMap.1 hmem
  cases call with
  | consume => cases ht
  | create id claims startedAt ttlSeconds createdAt =>
    obtain rfl := Option.some.inj ht
    obtain rfl : id = ticketId := Table.key_of_find? hfind
    exact ⟨startedAt, ttlSeconds, createdAt, hcall, hnow⟩

/-- A ticket that has been redeemed is not redeemed again. -/
theorem not_redeems_of_redeemed (hpos : 1 ≤ maxCapacity) (h : Valid calls) {ticketId : String}
    (hredeemed : Redeemed maxCapacity calls ticketId) (now : T) (claims : TokenClaims) :
    ¬ Redeems maxCapacity calls ticketId now claims := by
  intro hredeems
  obtain ⟨t, hfind, -, -⟩ := redeems_iff.1 hredeems
  refine (inv_of_valid hpos h).not_redeemed t (Table.mem_of_find? hfind) ?_
  rwa [Table.key_of_find? hfind]

/-- An unexpired ticket that is not redeemed has been redeemed before or evicted. -/
theorem redeemed_or_evicted (hpos : 1 ≤ maxCapacity) {earlier later : List (Call T)}
    {ticketId : String} {claims : TokenClaims} {startedAt ttlSeconds createdAt now : T}
    (h : Valid (earlier ++ .create ticketId claims startedAt ttlSeconds createdAt ::
      (later ++ [.consume ticketId now])))
    (hnow : now ≤ startedAt + ttlSeconds)
    (hfails : ∀ claims', ¬ Redeems maxCapacity
      (earlier ++ .create ticketId claims startedAt ttlSeconds createdAt :: later)
      ticketId now claims') :
    Redeemed maxCapacity
        (earlier ++ .create ticketId claims startedAt ttlSeconds createdAt :: later) ticketId ∨
      maxCapacity ≤ (created later).length := by
  rw [← List.cons_append, ← List.append_assoc] at h
  have hlost := (inv_of_valid hpos h.of_append).lost (created earlier)
    { ticketId, claims, expiresAt := startedAt + ttlSeconds } (created later)
    (by simp [created, Call.ticket?])
  rcases hlost with ht | hredeemed | hbehind | ⟨call, hcall, hexpired⟩
  · exact absurd (redeems_iff.2 ⟨_, Table.find?_of_mem ht, hnow, rfl⟩) (hfails claims)
  · exact .inl hredeemed
  · exact .inr hbehind
  · -- an expiry seen by an earlier call is seen by this one
    have hle : call.time ≤ now :=
      (List.pairwise_append.1 h.times).2.2 call hcall _ (List.mem_singleton_self _)
    exact absurd (hexpired.trans_le hle) (not_lt.2 hnow)

end

end Auth
end Boveda

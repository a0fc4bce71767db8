/-
# The HTTP API

The endpoints of `src/boveda/api.py` as one server: a state of tickets and database
engines, and requests in any order.  A request comes with what its handler reads from
outside: the clocks, the ticket id that is drawn, what the file system and the databases
answer.

Two results are about whole runs.  `authorized` says for every answer what it rests on: a
token verified at that moment, or, for an event stream, one verified at most 30 seconds
before for a ticket that no other request has redeemed.  `noninterference` says that the
answers to the requests of a tenant do not depend on the databases of other tenants.
-/

import Boveda.Auth.CurrentClaims
import Boveda.Auth.Events
import Boveda.Auth.Tickets
import Boveda.Catalog.Tenants
import Boveda.Catalog.Schema

namespace Boveda
namespace Api

open Lib Crypto Auth
open Catalog (Snapshot Estado Time)
open Tenants (WorkingDir Cache getTenantSessionFactory tenantFile sanitizedId)

/-! ### The server -/

/-- An item of `list_snapshots`. -/
structure SnapshotItem where
  id : String
  estado : Estado
  tipo : String
  timestamp : Time
  source : String
  deriving DecidableEq, Repr

/-- The numbers of `get_prometheus_metrics`. -/
structure Metrics where
  tenantId : String
  rssBytes : ℕ
  completed : ℕ
  failed : ℕ
  totalUniqueChunks : ℕ
  totalReferencedChunks : ℕ
  deriving DecidableEq, Repr

/-- What a handler answers. -/
inductive Reply
  | message (text : String)
  | httpException (statusCode : ℕ) (detail : String)
  /-- An exception that no handler catches. -/
  | internalError
  | ticket (ticketId : String) (expiresInSeconds : ℕ)
  | eventStream (chunks : List String)
  | initiated (tenantId sub : String)
  | snapshots (items : List SnapshotItem)
  | stats (tenantId : String) (totalSnapshotsCompleted totalDeduplicatedBlocks : ℕ)
  | metrics (m : Metrics)
  deriving DecidableEq, Repr

/-- The routes. -/
inductive Endpoint
  | readRoot
  | createWebsocketTicket
  | sseEvents (ticket : String)
  | triggerBackup
  | listSnapshots
  | getStats
  | getPrometheusMetrics
  deriving DecidableEq

/-- A request, and what its handler reads: the bearer token, the wall clock, two readings of
the monotonic clock, the id that `token_urlsafe` draws, whether the directory is made and the
database answers, the databases by file, and the memory of the process. -/
structure Request (T : Type*) where
  endpoint : Endpoint
  credentials : Option String
  time : ℤ
  startedAt : T
  now : T
  ticketId : String
  made : Bool
  connects : Bool
  databases : List Char → Catalog
  rssBytes : ℕ

/-- What the handlers share: the tickets and the engines. -/
structure State (T : Type*) where
  tickets : Auth.Store T
  engines : Cache

/-- When the server starts. -/
def State.init {T : Type*} : State T := ⟨.empty, []⟩

/-- The libraries, `SERVER_PRIVATE_KEY` and the working directory. -/
structure Server where
  ed25519 : Ed25519
  modelValidateJson : String → Option TokenClaims
  privateKey : Bytes
  cwd : WorkingDir

/-- `SERVER_PUBLIC_KEY`. -/
def Server.publicKey (S : Server) : Bytes := S.ed25519.publicKey S.privateKey

/-- `max_capacity` of `ticket_store`. -/
def maxCapacity : ℕ := 1000

/-- The default of `base_dir`. -/
def baseDir : String := "data/tenants"

/-- The items of a catalog, the latest first. -/
def snapshotItems (c : Catalog) : List SnapshotItem :=
  ((c.snapshots.rows.mergeSort fun a b => b.timestamp ≤ a.timestamp).take 20).map fun s =>
    ⟨s.id, s.estado, s.tipo, s.timestamp, s.sourceType ++ ":" ++ s.sourceIdentifier⟩

/-- `session.query(Snapshot).filter_by(estado=…).count()`. -/
def countEstado (estado : Estado) (c : Catalog) : ℕ :=
  c.snapshots.rows.countP fun s => s.estado = estado

section

variable {T : Type*} (S : Server)

/-- The answer to a request whose claims raise. -/
def Reply.ofApiError : CurrentClaims.ApiError → Reply
  | .http statusCode detail => .httpException statusCode detail
  | .unicodeEncode => .internalError

/-- `Depends(get_current_claims)`; `security` has taken the token out of the `Authorization`
header. -/
def currentClaims (r : Request T) : Except Reply TokenClaims :=
  (CurrentClaims.getCurrentClaims S.ed25519 S.modelValidateJson r.time r.credentials
    S.publicKey).mapError Reply.ofApiError

/-- `require_roles`. -/
def requireRoles (allowedRoles : List UserRole) (r : Request T) : Except Reply TokenClaims := do
  let claims ← currentClaims S r
  if claims.role ∉ allowedRoles then
    .error (.httpException 403 "Permisos insuficientes para este rol.")
  else .ok claims

/-- `with get_tenant_session_factory(claims.tenant_id)() as session: …`. -/
def withSession (s : State T) (r : Request T) (claims : TokenClaims) (answer : Catalog → Reply) :
    Reply × State T :=
  match getTenantSessionFactory S.cwd s.engines
    ⟨claims.tenantId.1, baseDir, r.made, r.connects⟩ with
  | (.error _, engines) => (.internalError, { s with engines })
  | (.ok engine, engines) => (answer (r.databases engine.file), { s with engines })

variable [LinearOrder T] [Add T] [OfNat T 30]

/-- The handlers. -/
def handle (s : State T) (r : Request T) : Reply × State T :=
  match r.endpoint with
  | .readRoot => (.message "Bóveda PyME API en línea", s)
  | .createWebsocketTicket =>
    match currentClaims S r with
    | .error reply => (reply, s)
    | .ok claims =>
      (.ticket r.ticketId 30, { s with
        tickets := createTicket maxCapacity r.ticketId claims r.startedAt 30 r.now s.tickets })
  | .sseEvents ticket =>
    match consumeTicket ticket r.now s.tickets with
    | (.error message, tickets) => (.httpException 401 message, { s with tickets })
    | (.ok claims, tickets) => (.eventStream (eventGenerator claims), { s with tickets })
  | .triggerBackup =>
    match requireRoles S [.tenantAdmin, .operator] r with
    | .error reply => (reply, s)
    | .ok claims => (.initiated claims.tenantId.1 claims.sub, s)
  | .listSnapshots =>
    match currentClaims S r with
    | .error reply => (reply, s)
    | .ok claims => withSession S s r claims fun c => .snapshots (snapshotItems c)
  | .getStats =>
    match currentClaims S r with
    | .error reply => (reply, s)
    | .ok claims => withSession S s r claims fun c =>
        .stats claims.tenantId.1 (countEstado .completed c) c.chunkPool.rows.length
  | .getPrometheusMetrics =>
    match currentClaims S r with
    | .error reply => (reply, s)
    | .ok claims => withSession S s r claims fun c => .metrics {
        tenantId := claims.tenantId.1
        rssBytes := r.rssBytes
        completed := countEstado .completed c
        failed := countEstado .failed c
        totalUniqueChunks := c.chunkPool.rows.length
        totalReferencedChunks := c.snapshotChunks.rows.length }

/-- The state after some requests. -/
def stateAfter (s : State T) (requests : List (Request T)) : State T :=
  requests.foldl (fun s r => (handle S s r).2) s

end

/-! ### Sessions -/

variable {T : Type*} {S : Server} {s : State T} {r : Request T} {claims : TokenClaims}
  {issued : TokenClaims → Prop} {presented : String → Prop}

/-- The database of a tenant. -/
def fileOf (S : Server) (tenantId : String) : List Char := tenantFile S.cwd baseDir tenantId.toList

/-- Nothing is dropped from an id that a token can have. -/
theorem sanitizedId_eq {tenantId : String} (h : IsTenantId tenantId) :
    sanitizedId tenantId = tenantId.toList :=
  List.filter_eq_self.2 fun c hc => List.all_eq_true.1 h.2.2 c hc

theorem isComponent_of_isTenantId {tenantId : String} (h : IsTenantId tenantId) :
    Paths.IsComponent tenantId.toList := by
  rw [← sanitizedId_eq h]
  refine Tenants.isComponent_sanitizedId fun hnil => ?_
  have hlen := h.1
  rw [← sanitizedId_eq h, hnil] at hlen
  exact absurd hlen (by decide)

/-- **Tenants that a token can name have different files.** -/
theorem fileOf_inj {t₁ t₂ : String} (h₁ : IsTenantId t₁) (h₂ : IsTenantId t₂)
    (h : fileOf S t₁ = fileOf S t₂) : t₁ = t₂ := by
  have hc₁ := isComponent_of_isTenantId h₁
  have hc₂ := isComponent_of_isTenantId h₂
  exact String.toList_injective (Paths.join_inj hc₁ hc₂
    (Paths.join_join_inj Tenants.isComponent_fileName hc₁ hc₂ h))

/-- The working directory has no `?`, where the URL of an engine would end. -/
def Server.Plain (S : Server) : Prop := '?' ∉ Paths.abspath S.cwd.path baseDir.toList

/-- A session opens just when the directory is made and the database answers. -/
theorem toBool_getTenantSessionFactory {cwd : WorkingDir} {engines : Cache} {call : Tenants.Call}
    (h : sanitizedId call.tenantId ≠ []) :
    (getTenantSessionFactory cwd engines call).1.toBool = (call.made && call.connects) := by
  unfold getTenantSessionFactory Tenants.getTenantDbPath
  rw [if_neg h]
  cases call.made with
  | false => rfl
  | true =>
    cases call.connects with
    | false => simp [Except.toBool]
    | true => simp [Except.toBool]

/-- **A session is on the database of the tenant of the token.** -/
theorem withSession_reply (hS : S.Plain) (hs : Tenants.Coherent s.engines) (r : Request T)
    (claims : TokenClaims) (answer : Catalog → Reply) :
    (withSession S s r claims answer).1 =
      if r.made ∧ r.connects then answer (r.databases (fileOf S claims.tenantId.1))
      else .internalError := by
  have hid := sanitizedId_eq claims.tenantId.2
  have hcomponent := isComponent_of_isTenantId claims.tenantId.2
  unfold withSession
  cases hcall : getTenantSessionFactory S.cwd s.engines
      ⟨claims.tenantId.1, baseDir, r.made, r.connects⟩ with
  | mk result engines =>
    have hopens := congrArg (fun call => call.1.toBool) hcall
    rw [toBool_getTenantSessionFactory (by rw [hid]; exact hcomponent.1)] at hopens
    cases result with
    | error e =>
      have hclosed : ¬ (r.made = true ∧ r.connects = true) := by
        rw [← Bool.and_eq_true]
        exact ne_true_of_eq_false hopens
      rw [if_neg hclosed]
    | ok engine =>
      have hurl := (Tenants.url_of_getTenantSessionFactory hs (congrArg Prod.fst hcall)).2
      have hmark := Tenants.not_mem_sanitizedId claims.tenantId.1
      rw [hid] at hurl hmark
      rw [if_pos (Bool.and_eq_true _ _ ▸ hopens)]
      show answer (r.databases engine.file) = _
      rw [Tenants.file_of_noMark hcomponent hmark hS hurl, fileOf]

/-- What a session leaves is a matter of the tenant and of whether it was opened. -/
theorem withSession_state (r : Request T) (claims : TokenClaims) (answer : Catalog → Reply) :
    (withSession S s r claims answer).2 = { s with engines :=
      (getTenantSessionFactory S.cwd s.engines
        ⟨claims.tenantId.1, baseDir, r.made, r.connects⟩).2 } := by
  unfold withSession
  split
  · next h => rw [h]
  · next h => rw [h]

/-! ### Claims -/

/-- A request has the token of claims that have been issued and are current. -/
def Holds (S : Server) (issued : TokenClaims → Prop) (r : Request T) (claims : TokenClaims) :
    Prop :=
  ∃ token, r.credentials = some token ∧ Carries S.ed25519 S.privateKey issued token claims ∧
    r.time ≤ claims.exp ∧ claims.iss.1 = "boveda-pyme:auth" ∧ claims.aud.1 = "boveda-pyme:api"

/-- **The claims of a request** are those of its token. -/
theorem currentClaims_eq_ok_iff (hsigns : SignsOnly S.ed25519 S.privateKey issued presented)
    (hvalidates : ValidatesJson S.modelValidateJson)
    (hpresented : ∀ token, r.credentials = some token → presented token) :
    currentClaims S r = .ok claims ↔ Holds S issued r claims := by
  unfold currentClaims CurrentClaims.getCurrentClaims Holds
  cases hcredentials : r.credentials with
  | none => simp [Except.mapError]
  | some token =>
    have hverified :
        verifyAccessToken S.ed25519 S.modelValidateJson r.time token
            (S.ed25519.publicKey S.privateKey) = .ok claims ↔ _ :=
      verifyAccessToken_eq_ok_iff hsigns hvalidates (hpresented token hcredentials)
    simp only [Option.some.injEq, exists_eq_left', ← hverified, Server.publicKey]
    split
    · next claims' hok => simp [Except.mapError, hok]
    · next message herror => simp [Except.mapError, herror]
    · next herror => simp [Except.mapError, herror]

theorem claims_of_requireRoles {allowedRoles : List UserRole}
    (h : requireRoles S allowedRoles r = .ok claims) :
    currentClaims S r = .ok claims ∧ claims.role ∈ allowedRoles := by
  unfold requireRoles at h
  cases hclaims : currentClaims S r with
  | error reply =>
    rw [hclaims] at h
    cases h
  | ok claims' =>
    rw [hclaims] at h
    simp only [bind, Except.bind] at h
    split_ifs at h with hrole
    obtain rfl := Except.ok.inj h
    exact ⟨rfl, hrole⟩

/-! ### The tickets of a run -/

section

variable [OfNat T 30]

/-- What a request does to the tickets. -/
def ticketCall (S : Server) (r : Request T) : Option (Auth.Call T) :=
  match r.endpoint with
  | .createWebsocketTicket =>
    match currentClaims S r with
    | .error _ => none
    | .ok claims => some (.create r.ticketId claims r.startedAt 30 r.now)
  | .sseEvents ticket => some (.consume ticket r.now)
  | _ => none

/-- What some requests do to the tickets. -/
def ticketCalls (S : Server) (requests : List (Request T)) : List (Auth.Call T) :=
  requests.filterMap (ticketCall S)

theorem ticketCalls_snoc (requests : List (Request T)) (r : Request T) :
    ticketCalls S (requests ++ [r]) = ticketCalls S requests ++ (ticketCall S r).toList := by
  cases h : ticketCall S r with
  | none => simp [ticketCalls, h]
  | some call => simp [ticketCalls, h]

/-- The request that created a ticket. -/
theorem exists_createWebsocketTicket [Add T] {requests : List (Request T)} {ticketId : String}
    {startedAt ttlSeconds now : T}
    (h : .create ticketId claims startedAt ttlSeconds now ∈ ticketCalls S requests) :
    ∃ r₀ ∈ requests, r₀.endpoint = .createWebsocketTicket ∧ r₀.ticketId = ticketId ∧
      currentClaims S r₀ = .ok claims ∧ startedAt + ttlSeconds = r₀.startedAt + 30 := by
  obtain ⟨r₀, hmem, hcall⟩ := List.mem_filterMap.1 h
  unfold ticketCall at hcall
  split at hcall
  · next hendpoint =>
    split at hcall
    · cases hcall
    · next claims' hclaims =>
      obtain ⟨rfl, rfl, rfl, rfl, rfl⟩ := Auth.Call.create.inj (Option.some.inj hcall)
      exact ⟨r₀, hmem, hendpoint, rfl, hclaims, rfl⟩
  · cases hcall
  · cases hcall

end

section

variable [LinearOrder T] [Add T] [OfNat T 30]

/-- One request: the tickets take the step of its call, and the engines stay those of
their files. -/
theorem handle_state (hs : Tenants.Coherent s.engines) (r : Request T) :
    (handle S s r).2.tickets =
        (ticketCall S r).elim s.tickets (s.tickets.step maxCapacity) ∧
      Tenants.Coherent (handle S s r).2.engines := by
  have hsession (claims : TokenClaims) (answer : Catalog → Reply) :
      (withSession S s r claims answer).2.tickets = s.tickets ∧
        Tenants.Coherent (withSession S s r claims answer).2.engines := by
    rw [withSession_state]
    exact ⟨rfl, hs.next rfl⟩
  unfold handle ticketCall
  cases r.endpoint with
  | readRoot => exact ⟨rfl, hs⟩
  | createWebsocketTicket =>
    cases currentClaims S r with
    | error reply => exact ⟨rfl, hs⟩
    | ok claims => exact ⟨rfl, hs⟩
  | sseEvents ticket =>
    dsimp only [Option.elim_some, Store.step]
    rcases consumeTicket ticket r.now s.tickets with ⟨_ | _, _⟩
    · exact ⟨rfl, hs⟩
    · exact ⟨rfl, hs⟩
  | triggerBackup =>
    cases requireRoles S [.tenantAdmin, .operator] r with
    | error reply => exact ⟨rfl, hs⟩
    | ok claims => exact ⟨rfl, hs⟩
  | listSnapshots | getStats | getPrometheusMetrics =>
    cases currentClaims S r with
    | error reply => exact ⟨rfl, hs⟩
    | ok claims => exact hsession claims _

/-- **What any requests leave**: the tickets of their calls, and engines of their files. -/
theorem stateAfter_init (requests : List (Request T)) :
    (stateAfter S .init requests).tickets = storeAfter maxCapacity (ticketCalls S requests) ∧
      Tenants.Coherent (stateAfter S .init requests).engines := by
  induction requests using List.reverseRecOn with
  | nil => exact ⟨rfl, fun _ hmem => absurd hmem List.not_mem_nil⟩
  | append_singleton requests r ih =>
    obtain ⟨htickets, hengines⟩ := ih
    have hstate : stateAfter S .init (requests ++ [r]) =
        (handle S (stateAfter S .init requests) r).2 := List.foldl_append
    obtain ⟨hstep, hnext⟩ := handle_state hengines r
    rw [hstate]
    refine ⟨hstep.trans ?_, hnext⟩
    rw [htickets, ticketCalls_snoc]
    cases ticketCall S r with
    | none => rw [Option.elim_none, Option.toList_none, List.append_nil]
    | some call => exact storeAfter_snoc.symm

/-- A request for the events of a ticket is answered with those of the claims that
redeeming the ticket yields. -/
theorem redeems_of_handle {before : List (Request T)} {ticket : String} {chunks : List String}
    (hendpoint : r.endpoint = .sseEvents ticket)
    (hreply : (handle S (stateAfter S .init before) r).1 = .eventStream chunks) :
    ∃ claims, Redeems maxCapacity (ticketCalls S before) ticket r.now claims ∧
      chunks = eventGenerator claims := by
  unfold handle at hreply
  rw [hendpoint] at hreply
  dsimp only at hreply
  cases hcall : consumeTicket ticket r.now (stateAfter S .init before).tickets with
  | mk result tickets =>
    rw [hcall] at hreply
    cases result with
    | error message => cases hreply
    | ok claims =>
      refine ⟨claims, ?_, (Reply.eventStream.inj hreply).symm⟩
      rw [Redeems, ← (stateAfter_init before).1, hcall]

/-- **What an answer rests on**, after some earlier requests. -/
def Authorized (S : Server) (issued : TokenClaims → Prop) (earlier : List (Request T))
    (r : Request T) : Reply → Prop
  | .message _ | .httpException _ _ | .internalError => True
  | .ticket ticketId _ => ticketId = r.ticketId ∧ ∃ claims, Holds S issued r claims
  | .eventStream chunks => ∃ r₀ ∈ earlier, ∃ claims, r₀.endpoint = .createWebsocketTicket ∧
      r.endpoint = .sseEvents r₀.ticketId ∧ Holds S issued r₀ claims ∧
      r.now ≤ r₀.startedAt + 30 ∧ chunks = eventGenerator claims
  | .initiated tenantId sub => ∃ claims, Holds S issued r claims ∧
      claims.role ∈ [UserRole.tenantAdmin, .operator] ∧ tenantId = claims.tenantId.1 ∧
      sub = claims.sub
  | .snapshots items => ∃ claims, Holds S issued r claims ∧
      items = snapshotItems (r.databases (fileOf S claims.tenantId.1))
  | .stats tenantId completed blocks => ∃ claims, Holds S issued r claims ∧
      tenantId = claims.tenantId.1 ∧
      completed = countEstado .completed (r.databases (fileOf S tenantId)) ∧
      blocks = (r.databases (fileOf S tenantId)).chunkPool.rows.length
  | .metrics m => ∃ claims, Holds S issued r claims ∧
      m = { tenantId := claims.tenantId.1
            rssBytes := r.rssBytes
            completed := countEstado .completed (r.databases (fileOf S claims.tenantId.1))
            failed := countEstado .failed (r.databases (fileOf S claims.tenantId.1))
            totalUniqueChunks :=
              (r.databases (fileOf S claims.tenantId.1)).chunkPool.rows.length
            totalReferencedChunks :=
              (r.databases (fileOf S claims.tenantId.1)).snapshotChunks.rows.length }

/-- A session that was opened with the claims of the request. -/
theorem authorized_withSession (hS : S.Plain) (hs : Tenants.Coherent s.engines)
    {earlier : List (Request T)} {answer : Catalog → Reply}
    (hanswer : Authorized S issued earlier r (answer (r.databases (fileOf S claims.tenantId.1)))) :
    Authorized S issued earlier r (withSession S s r claims answer).1 := by
  rw [withSession_reply hS hs]
  split_ifs with hopens
  · exact hanswer
  · trivial

/-- The errors of the claims authorize nothing. -/
theorem authorized_of_error {earlier : List (Request T)} {reply : Reply}
    (h : currentClaims S r = .error reply) : Authorized S issued earlier r reply := by
  unfold currentClaims at h
  cases hclaims : CurrentClaims.getCurrentClaims S.ed25519 S.modelValidateJson r.time
      r.credentials S.publicKey with
  | ok claims =>
    rw [hclaims] at h
    cases h
  | error err =>
    rw [hclaims] at h
    obtain rfl := Except.error.inj h
    cases err with
    | http => trivial
    | unicodeEncode => trivial

theorem authorized_of_requireRoles_error {earlier : List (Request T)} {reply : Reply}
    {allowedRoles : List UserRole} (h : requireRoles S allowedRoles r = .error reply) :
    Authorized S issued earlier r reply := by
  unfold requireRoles at h
  cases hclaims : currentClaims S r with
  | error reply' =>
    rw [hclaims] at h
    obtain rfl := Except.error.inj h
    exact authorized_of_error hclaims
  | ok claims' =>
    rw [hclaims] at h
    simp only [bind, Except.bind] at h
    split_ifs at h
    cases h
    trivial

/-- An event stream is for the claims of an earlier request. -/
theorem authorized_sseEvents {before : List (Request T)} {ticket : String}
    (hholds : ∀ r₀ ∈ before, ∀ claims, currentClaims S r₀ = .ok claims → Holds S issued r₀ claims)
    (hvalid : Auth.Valid (ticketCalls S before)) (hendpoint : r.endpoint = .sseEvents ticket) :
    Authorized S issued before r (handle S (stateAfter S .init before) r).1 := by
  have hshape : (∃ message, (handle S (stateAfter S .init before) r).1 =
      .httpException 401 message) ∨
      ∃ chunks, (handle S (stateAfter S .init before) r).1 = .eventStream chunks := by
    unfold handle
    rw [hendpoint]
    dsimp only
    rcases consumeTicket ticket r.now (stateAfter S .init before).tickets with ⟨_ | _, _⟩
    · exact .inl ⟨_, rfl⟩
    · exact .inr ⟨_, rfl⟩
  rcases hshape with ⟨message, heq⟩ | ⟨chunks, heq⟩
  · rw [heq]
    trivial
  · rw [heq]
    obtain ⟨claims, hredeems, rfl⟩ := redeems_of_handle hendpoint heq
    obtain ⟨startedAt, ttlSeconds, createdAt, hmem, hnow⟩ :=
      created_of_redeems (by decide) hvalid hredeems
    obtain ⟨r₀, hr₀, hcreate, rfl, hclaims, htime⟩ := exists_createWebsocketTicket hmem
    exact ⟨r₀, hr₀, claims, hcreate, hendpoint, hholds r₀ hr₀ claims hclaims, htime ▸ hnow, rfl⟩

theorem authorized_handle (hS : S.Plain) {before : List (Request T)} {r : Request T}
    (hbefore : ∀ r₀ ∈ before, ∀ claims, currentClaims S r₀ = .ok claims → Holds S issued r₀ claims)
    (hholds : ∀ claims, currentClaims S r = .ok claims → Holds S issued r claims)
    (hvalid : Auth.Valid (ticketCalls S before)) :
    Authorized S issued before r (handle S (stateAfter S .init before) r).1 := by
  have hengines := (stateAfter_init (S := S) before).2
  cases hendpoint : r.endpoint with
  | readRoot =>
    rw [handle, hendpoint]
    trivial
  | createWebsocketTicket =>
    rw [handle, hendpoint]
    dsimp only
    cases hclaims : currentClaims S r with
    | error reply => exact authorized_of_error hclaims
    | ok claims => exact ⟨rfl, claims, hholds claims hclaims⟩
  | sseEvents ticket => exact authorized_sseEvents hbefore hvalid hendpoint
  | triggerBackup =>
    rw [handle, hendpoint]
    dsimp only
    cases hclaims : requireRoles S [.tenantAdmin, .operator] r with
    | error reply => exact authorized_of_requireRoles_error hclaims
    | ok claims =>
      obtain ⟨hverified, hrole⟩ := claims_of_requireRoles hclaims
      exact ⟨claims, hholds claims hverified, hrole, rfl, rfl⟩
  | listSnapshots =>
    rw [handle, hendpoint]
    dsimp only
    cases hclaims : currentClaims S r with
    | error reply => exact authorized_of_error hclaims
    | ok claims => exact authorized_withSession hS hengines ⟨claims, hholds claims hclaims, rfl⟩
  | getStats =>
    rw [handle, hendpoint]
    dsimp only
    cases hclaims : currentClaims S r with
    | error reply => exact authorized_of_error hclaims
    | ok claims =>
      exact authorized_withSession hS hengines ⟨claims, hholds claims hclaims, rfl, rfl, rfl⟩
  | getPrometheusMetrics =>
    rw [handle, hendpoint]
    dsimp only
    cases hclaims : currentClaims S r with
    | error reply => exact authorized_of_error hclaims
    | ok claims => exact authorized_withSession hS hengines ⟨claims, hholds claims hclaims, rfl⟩

/-- The token is that of a request. -/
def Presented (requests : List (Request T)) (token : String) : Prop :=
  ∃ r ∈ requests, r.credentials = some token

/-- **Every answer is authorized**, and a ticket is good for one event stream. -/
theorem authorized (hS : S.Plain) {requests : List (Request T)}
    (hsigns : SignsOnly S.ed25519 S.privateKey issued (Presented requests))
    (hvalidates : ValidatesJson S.modelValidateJson)
    (hvalid : Auth.Valid (ticketCalls S requests)) :
    (∀ before r after, requests = before ++ r :: after →
      Authorized S issued before r (handle S (stateAfter S .init before) r).1) ∧
    ∀ before r between r' after ticket chunks chunks',
      requests = before ++ r :: (between ++ r' :: after) →
      r.endpoint = .sseEvents ticket → r'.endpoint = .sseEvents ticket →
      (handle S (stateAfter S .init before) r).1 = .eventStream chunks →
      (handle S (stateAfter S .init (before ++ r :: between)) r').1 ≠ .eventStream chunks' := by
  constructor
  · rintro before r after rfl
    rw [ticketCalls, List.filterMap_append] at hvalid
    have hholds : ∀ r₀ ∈ before ++ r :: after, ∀ claims, currentClaims S r₀ = .ok claims →
        Holds S issued r₀ claims := fun r₀ hr₀ claims =>
      (currentClaims_eq_ok_iff hsigns hvalidates fun token htoken => ⟨r₀, hr₀, htoken⟩).1
    exact authorized_handle hS (fun r₀ hr₀ => hholds r₀ (List.mem_append_left _ hr₀))
      (hholds r (List.mem_append_right _ (List.mem_cons_self ..))) hvalid.of_append
  · rintro before r between r' after ticket chunks chunks' rfl hendpoint hendpoint' hreply hreply'
    obtain ⟨claims, hredeems, -⟩ := redeems_of_handle hendpoint hreply
    obtain ⟨claims', hredeems', -⟩ := redeems_of_handle hendpoint' hreply'
    have hcalls : ticketCalls S (before ++ r :: between) =
        ticketCalls S before ++ .consume ticket r.now :: ticketCalls S between := by
      have hcall : ticketCall S r = some (.consume ticket r.now) := by
        rw [ticketCall, hendpoint]
      rw [ticketCalls, List.filterMap_append, List.filterMap_cons_some hcall, ← ticketCalls,
        ← ticketCalls]
    rw [← List.cons_append, ← List.append_assoc, ticketCalls, List.filterMap_append,
      ← ticketCalls] at hvalid
    exact not_redeems_of_redeemed (by decide) hvalid.of_append
      ⟨_, _, r.now, claims, hcalls, hredeems⟩ r'.now claims' hredeems'

end

/-- A server and its requests for tests. -/
def oneTokenServer : Server := ⟨openEd25519, validateJson, operatorKey, Tenants.app⟩

def oneTokenRequest (endpoint : Endpoint) (token : String) (now : ℕ) : Request ℕ where
  endpoint := endpoint
  credentials := some token
  time := 1500
  startedAt := now
  now := now
  ticketId := "t"
  made := true
  connects := true
  databases _ := .empty
  rssBytes := 0

theorem plain_oneTokenServer : oneTokenServer.Plain := by
  unfold Server.Plain
  decide

/-- The claims of the requests that have the token of the operator. -/
theorem exists_token : ∃ token,
    createAccessToken openEd25519 operatorClaims operatorKey = some token ∧ ∀ endpoint now,
      currentClaims oneTokenServer (oneTokenRequest endpoint token now) = .ok operatorClaims := by
  obtain ⟨token, hcreate⟩ := exists_operatorToken
  have hsigns : SignsOnly oneTokenServer.ed25519 oneTokenServer.privateKey (· = operatorClaims) _ :=
    signsOnly_openEd25519 hcreate
  refine ⟨token, hcreate, fun endpoint now => ?_⟩
  refine (currentClaims_eq_ok_iff hsigns validatesJson_validateJson
    fun t ht => .inl (Option.some.inj ht).symm).2 ⟨token, rfl, ?_⟩
  exact ⟨carries_of_createAccessToken rfl hcreate, show (1500 : ℤ) ≤ 2000 by decide, rfl, rfl⟩

/-- A ticket, and its events 15 seconds later. -/
theorem authorized_oneToken : ∃ token,
    (handle oneTokenServer
        (stateAfter oneTokenServer .init [oneTokenRequest .createWebsocketTicket token 5])
        (oneTokenRequest (.sseEvents "t") token 20)).1 =
      .eventStream (eventGenerator operatorClaims) ∧
    Authorized oneTokenServer (· = operatorClaims)
      [oneTokenRequest .createWebsocketTicket token 5] (oneTokenRequest (.sseEvents "t") token 20)
      (.eventStream (eventGenerator operatorClaims)) := by
  obtain ⟨token, hcreated, hclaims⟩ := exists_token
  have hreply : (handle oneTokenServer
      (stateAfter oneTokenServer .init [oneTokenRequest .createWebsocketTicket token 5])
      (oneTokenRequest (.sseEvents "t") token 20)).1 =
        .eventStream (eventGenerator operatorClaims) := by
    have hcreate := hclaims .createWebsocketTicket 5
    simp only [stateAfter, List.foldl_cons, List.foldl_nil, handle, oneTokenRequest] at hcreate ⊢
    rw [hcreate]
    rfl
  have hcalls : ticketCalls oneTokenServer [oneTokenRequest .createWebsocketTicket token 5,
      oneTokenRequest (.sseEvents "t") token 20] =
        [.create "t" operatorClaims 5 30 5, .consume "t" 20] := by
    have hcreate := hclaims .createWebsocketTicket 5
    simp only [ticketCalls, List.filterMap_cons, List.filterMap_nil, ticketCall,
      oneTokenRequest] at hcreate ⊢
    rw [hcreate]
  have hvalid : Auth.Valid (ticketCalls oneTokenServer
      [oneTokenRequest .createWebsocketTicket token 5,
        oneTokenRequest (.sseEvents "t") token 20]) := by
    rw [hcalls]
    exact ⟨by decide, by decide⟩
  have hsigns : SignsOnly oneTokenServer.ed25519 oneTokenServer.privateKey (· = operatorClaims)
      (Presented [oneTokenRequest .createWebsocketTicket token 5,
        oneTokenRequest (.sseEvents "t") token 20]) := by
    refine (signsOnly_openEd25519 hcreated).anti fun t ⟨r, hr, ht⟩ => .inl ?_
    rcases List.mem_pair.1 hr with rfl | rfl
    · exact (Option.some.inj ht).symm
    · exact (Option.some.inj ht).symm
  exact ⟨token, hreply, hreply ▸ (authorized plain_oneTokenServer hsigns
    validatesJson_validateJson hvalid).1 _ _ [] rfl⟩

/-! ### Noninterference -/

section

variable [LinearOrder T] [Add T] [OfNat T 30]

/-- Two states of the databases that differ at most in databases of other tenants. -/
def SameFor (S : Server) (tenantId : String) (databases databases' : List Char → Catalog) :
    Prop :=
  ∀ file, databases file = databases' file ∨
    ∃ other, IsTenantId other ∧ other ≠ tenantId ∧ file = fileOf S other

theorem SameFor.own {tenantId : String} {databases databases' : List Char → Catalog}
    (h : SameFor S tenantId databases databases') (hid : IsTenantId tenantId) :
    databases (fileOf S tenantId) = databases' (fileOf S tenantId) := by
  rcases h (fileOf S tenantId) with heq | ⟨other, hother, hne, hfile⟩
  · exact heq
  · exact absurd (fileOf_inj hid hother hfile).symm hne

/-- **Tenants do not see each other.**  The answer to a request depends on the earlier
requests by what they did to the tickets alone, and on no database of another tenant. -/
theorem noninterference (hS : S.Plain) {before before' : List (Request T)}
    (htickets : ticketCalls S before = ticketCalls S before') {r : Request T}
    {databases : List Char → Catalog}
    (hsame : ∀ claims, currentClaims S r = .ok claims →
      SameFor S claims.tenantId.1 r.databases databases) :
    (handle S (stateAfter S .init before) r).1 =
      (handle S (stateAfter S .init before') { r with databases }).1 := by
  obtain ⟨hcalls, hengines⟩ := stateAfter_init (S := S) before
  obtain ⟨hcalls', hengines'⟩ := stateAfter_init (S := S) before'
  rw [← htickets, ← hcalls] at hcalls'
  generalize stateAfter S .init before = s at hengines hcalls'
  generalize stateAfter S .init before' = s' at hengines' hcalls'
  have hclaims : currentClaims S { r with databases } = currentClaims S r := rfl
  have hroles (roles : List UserRole) :
      requireRoles S roles { r with databases } = requireRoles S roles r := rfl
  have hsession (claims : TokenClaims) (answer : Catalog → Reply)
      (hok : currentClaims S r = .ok claims) :
      (withSession S s r claims answer).1 =
        (withSession S s' { r with databases } claims answer).1 := by
    rw [withSession_reply hS hengines, withSession_reply hS hengines',
      (hsame claims hok).own claims.tenantId.2]
  unfold handle
  simp only [hclaims, hroles, hcalls']
  cases r.endpoint with
  | readRoot => rfl
  | createWebsocketTicket =>
    dsimp only
    cases currentClaims S r with
    | error reply => rfl
    | ok claims => rfl
  | sseEvents ticket =>
    dsimp only
    rcases consumeTicket ticket r.now s.tickets with ⟨_ | _, _⟩
    · rfl
    · rfl
  | triggerBackup =>
    dsimp only
    cases requireRoles S [.tenantAdmin, .operator] r with
    | error reply => rfl
    | ok claims => rfl
  | listSnapshots | getStats | getPrometheusMetrics =>
    dsimp only
    cases hok : currentClaims S r with
    | error reply => rfl
    | ok claims => exact hsession claims _ hok

end

/-- A database with one chunk. -/
def oneChunk : Catalog := { Catalog.empty with
  chunkPool := Catalog.empty.chunkPool.insert
    { hashSha256 := "ab", storageKey := "chunks/ab/ab", sizeCompressed := 1, sizeEncrypted := 29,
      lastReferencedAt := 0 } rfl }

/-- The request for the statistics of `tenant-1`, where another tenant has one chunk. -/
def statsRequest (token : String) : Request ℕ :=
  { oneTokenRequest .getStats token 5 with
    databases := fun file =>
      if file = fileOf oneTokenServer "other" then oneChunk else .empty }

theorem noninterference_oneToken : ∃ token,
    (handle oneTokenServer (stateAfter oneTokenServer .init [])
        (oneTokenRequest .getStats token 5)).1 = .stats "tenant-1" 0 0 ∧
      (handle oneTokenServer (stateAfter oneTokenServer .init [])
        (oneTokenRequest .getStats token 5)).1 =
      (handle oneTokenServer (stateAfter oneTokenServer .init
        [oneTokenRequest .listSnapshots token 4]) (statsRequest token)).1 := by
  obtain ⟨token, -, hclaims⟩ := exists_token
  have htickets : ticketCalls oneTokenServer [] =
      ticketCalls oneTokenServer [oneTokenRequest .listSnapshots token 4] := rfl
  refine ⟨token, ?_, noninterference plain_oneTokenServer htickets fun claims hok file => ?_⟩
  · have hcreate := hclaims .getStats 5
    simp only [stateAfter, List.foldl_nil, handle, oneTokenRequest] at hcreate ⊢
    have hinit : Tenants.Coherent (State.init (T := ℕ)).engines :=
      (stateAfter_init (S := oneTokenServer) []).2
    rw [hcreate]
    dsimp only
    rw [withSession_reply plain_oneTokenServer hinit]
    rfl
  · obtain rfl := Except.ok.inj ((hclaims .getStats 5).symm.trans hok)
    by_cases hfile : file = fileOf oneTokenServer "other"
    · exact .inr ⟨"other", by decide, by decide, hfile⟩
    · exact .inl (if_neg hfile).symm

end Api
end Boveda

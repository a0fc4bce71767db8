/-
# A database for every tenant

`get_tenant_db_path`, `get_tenant_session_factory` and `get_engine` of
`src/boveda/database.py`.  The id of a tenant is a directory name, once all but
letters, digits, `_` and `-` have been dropped, and the engines are kept by the absolute
path of their file.

What is dropped does not tell tenants apart: `a.b` and `ab` share a catalog.  Two tenants
are separate just when what is left of their ids differs (`separate_iff`), under a
directory whose path has no `?`, where the URL of the engine would end.
-/

import Boveda.Lib.Paths
import Boveda.Lib.Runs
import Mathlib.Data.List.TakeWhile

namespace Boveda
namespace Tenants

open Lib

/-- What a call raises. -/
inductive TenantError
  | valueError (text : String)
  /-- `os.makedirs` has failed. -/
  | osError
  /-- A statement of `init_db` has failed. -/
  | databaseError

/-- A working directory. -/
structure WorkingDir where
  path : List Char
  isabs : Paths.isabs path

/-- A letter or digit of ASCII, `_` or `-`. -/
def isKept (c : Char) : Bool :=
  ('a' ≤ c && c ≤ 'z') || ('A' ≤ c && c ≤ 'Z') || ('0' ≤ c && c ≤ '9') || c == '_' || c == '-'

/-- `re.sub(r"[^a-zA-Z0-9_-]", "", tenant_id)`. -/
def sanitizedId (tenantId : String) : List Char := tenantId.toList.filter isKept

/-- `"snapshots.db"`. -/
def fileName : List Char := ['s', 'n', 'a', 'p', 's', 'h', 'o', 't', 's', '.', 'd', 'b']

/-- `get_tenant_db_path`; `made` says whether `os.makedirs` succeeds. -/
def getTenantDbPath (made : Bool) (tenantId baseDir : String) : Except TenantError (List Char) :=
  if sanitizedId tenantId = [] then
    .error (.valueError "Identificador de inquilino inválido o vacío")
  else
    let tenantDir := Paths.join baseDir.toList (sanitizedId tenantId)
    if made then .ok (Paths.join tenantDir fileName) else .error .osError

/-- An engine of SQLAlchemy. -/
structure Engine where
  url : List Char
  deriving DecidableEq

/-- `"sqlite:///"`. -/
def scheme : List Char := ['s', 'q', 'l', 'i', 't', 'e', ':', '/', '/', '/']

/-- The file of an engine: the database of its URL, which ends where the query begins. -/
def Engine.file (e : Engine) : List Char := (e.url.drop scheme.length).takeWhile (· ≠ '?')

/-- `_ENGINE_CACHE`. -/
abbrev Cache := List (List Char × Engine)

section

variable (cwd : WorkingDir)

/-- `get_engine`. -/
def getEngine (cache : Cache) (dbPath : List Char) : Engine × Cache :=
  let normPath := Paths.abspath cwd.path dbPath
  match cache.lookup normPath with
  | some engine => (engine, cache)
  | none => (⟨scheme ++ normPath⟩, (normPath, ⟨scheme ++ normPath⟩) :: cache)

/-- A call of `get_tenant_session_factory`, and whether the file system and the database
let it pass. -/
structure Call where
  tenantId : String
  baseDir : String
  made : Bool
  connects : Bool

/-- `get_tenant_session_factory`, with the engine that the sessions are bound to. -/
def getTenantSessionFactory (cache : Cache) (call : Call) : Except TenantError Engine × Cache :=
  match getTenantDbPath call.made call.tenantId call.baseDir with
  | .error err => (.error err, cache)
  | .ok dbPath =>
    let (engine, cache) := getEngine cwd cache dbPath
    (if call.connects then .ok engine else .error .databaseError, cache)

/-- The cache after a call. -/
def step (cache : Cache) (call : Call) : Option Cache :=
  some (getTenantSessionFactory cwd cache call).2

end

/-- Two engines have files of their own, each in a directory of its own under `base_dir`. -/
structure Separate (cwd : WorkingDir) (baseDir : String) (e₁ e₂ : Engine) : Prop where
  distinct : e₁.file ≠ e₂.file
  inside : ∀ e ∈ [e₁, e₂], ∃ name, Paths.IsComponent name ∧
    e.file = Paths.join (Paths.join (Paths.abspath cwd.path baseDir.toList) name) fileName

/-! ### The cache -/

/-- Every engine is kept under the path of its own file. -/
def Coherent (cache : Cache) : Prop := ∀ entry ∈ cache, entry.2.url = scheme ++ entry.1

variable {cwd : WorkingDir} {cache : Cache}

/-- `get_engine` returns an engine of the path it is given. -/
theorem getEngine_sound (h : Coherent cache) (dbPath : List Char) :
    (getEngine cwd cache dbPath).1.url = scheme ++ Paths.abspath cwd.path dbPath ∧
      Coherent (getEngine cwd cache dbPath).2 := by
  unfold getEngine
  dsimp only
  split
  · next engine hlookup =>
    obtain ⟨_, _, rfl, -⟩ := List.lookup_eq_some_iff.1 hlookup
    exact ⟨h _ (List.mem_append_right _ (List.mem_cons_self ..)), h⟩
  · exact ⟨rfl, List.forall_mem_cons.2 ⟨rfl, h⟩⟩

/-- One call keeps the cache. -/
theorem Coherent.next {cache' : Cache} {call : Call} (h : Coherent cache)
    (hstep : step cwd cache call = some cache') : Coherent cache' := by
  obtain rfl := Option.some.inj hstep
  unfold getTenantSessionFactory
  split
  · exact h
  · exact (getEngine_sound h _).2

theorem coherent_of_reachable (h : Reachable (step cwd) [] cache) : Coherent cache :=
  h.invariant (fun _ hmem => absurd hmem List.not_mem_nil) fun _ _ _ hI _ hstep => hI.next hstep

/-! ### The files -/

theorem isComponent_fileName : Paths.IsComponent fileName :=
  ⟨by decide, by decide, by decide, by decide⟩

/-- What is left of an id is the name of a directory. -/
theorem isComponent_sanitizedId {tenantId : String} (h : sanitizedId tenantId ≠ []) :
    Paths.IsComponent (sanitizedId tenantId) := by
  have hkept : ∀ c ∈ sanitizedId tenantId, isKept c = true := fun c hc => (List.mem_filter.1 hc).2
  refine ⟨h, fun hc => ?_, fun heq => ?_, fun heq => ?_⟩
  · exact absurd (hkept '/' hc) (by decide)
  · exact absurd (hkept '.' (heq ▸ by decide)) (by decide)
  · exact absurd (hkept '.' (heq ▸ by decide)) (by decide)

/-- The file of a tenant, as an absolute path. -/
def tenantFile (cwd : WorkingDir) (baseDir : String) (name : List Char) : List Char :=
  Paths.join (Paths.join (Paths.abspath cwd.path baseDir.toList) name) fileName

/-- A call that returns has an engine of the file of its tenant. -/
theorem url_of_getTenantSessionFactory {call : Call} {engine : Engine} (h : Coherent cache)
    (hcall : (getTenantSessionFactory cwd cache call).1 = .ok engine) :
    sanitizedId call.tenantId ≠ [] ∧
      engine.url = scheme ++ tenantFile cwd call.baseDir (sanitizedId call.tenantId) := by
  unfold getTenantSessionFactory at hcall
  split at hcall
  · cases hcall
  · next dbPath hpath =>
    unfold getTenantDbPath at hpath
    split_ifs at hpath with hnil hmade
    obtain rfl := Except.ok.inj hpath
    have hcomponent := isComponent_sanitizedId hnil
    dsimp only at hcall
    split_ifs at hcall
    obtain rfl := Except.ok.inj hcall
    refine ⟨hnil, ?_⟩
    rw [(getEngine_sound h _).1, Paths.abspath_join cwd.isabs isComponent_fileName,
      Paths.abspath_join cwd.isabs hcomponent, tenantFile]

theorem file_of_url {e : Engine} {path : List Char} (h : e.url = scheme ++ path) :
    e.file = path.takeWhile (· ≠ '?') := by
  rw [Engine.file, h, List.drop_left]

theorem not_mem_fileName : '?' ∉ fileName := by decide

theorem not_mem_sanitizedId (tenantId : String) : '?' ∉ sanitizedId tenantId := fun h =>
  absurd (List.mem_filter.1 h).2 (by decide)

/-- The path of a tenant's file goes on from that of the base directory. -/
theorem exists_tenantFile_eq {name : List Char} (hname : Paths.IsComponent name)
    (baseDir : String) (hmark : '?' ∉ name) : ∃ rest, '?' ∉ rest ∧
      tenantFile cwd baseDir name = Paths.abspath cwd.path baseDir.toList ++ rest := by
  have hfile : Paths.join (Paths.join (Paths.abspath cwd.path baseDir.toList) name) fileName =
      Paths.join (Paths.abspath cwd.path baseDir.toList) name ++ '/' :: fileName :=
    Paths.join_eq isComponent_fileName (Paths.join_ne_nil hname _) (Paths.getLast?_join hname _)
  rw [tenantFile, hfile]
  rcases Paths.join_eq_or hname (Paths.abspath cwd.path baseDir.toList) with heq | heq
  · refine ⟨name ++ '/' :: fileName, ?_, by rw [heq, List.append_assoc]⟩
    simp [hmark, not_mem_fileName]
  · refine ⟨'/' :: name ++ '/' :: fileName, ?_, by rw [heq, List.append_assoc]⟩
    simp [hmark, not_mem_fileName]

/-- Where the base directory has a `?`, every engine of it has one file. -/
theorem file_of_mark {baseDir : String} {name : List Char} (hname : Paths.IsComponent name)
    (hmark : '?' ∉ name) (hbase : '?' ∈ Paths.abspath cwd.path baseDir.toList) {e : Engine}
    (he : e.url = scheme ++ tenantFile cwd baseDir name) :
    e.file = (Paths.abspath cwd.path baseDir.toList).takeWhile (· ≠ '?') := by
  obtain ⟨rest, -, heq⟩ : ∃ rest, '?' ∉ rest ∧ tenantFile cwd baseDir name = _ :=
    exists_tenantFile_eq hname baseDir hmark
  obtain ⟨before, after, hsplit, hbefore⟩ := List.eq_append_cons_of_mem hbase
  have htake (tail : List Char) : (before ++ '?' :: tail).takeWhile (· ≠ '?') = before := by
    have hpos : ∀ c ∈ before, decide (c ≠ '?') = true := by
      rintro c hc
      refine decide_eq_true ?_
      rintro rfl
      exact hbefore hc
    rw [List.takeWhile_append_of_pos hpos, List.takeWhile_cons_of_neg (by simp), List.append_nil]
  rw [file_of_url he, heq, hsplit, List.append_assoc, List.cons_append, htake, htake]

/-- Elsewhere it is the file of the tenant. -/
theorem file_of_noMark {baseDir : String} {name : List Char} (hname : Paths.IsComponent name)
    (hmark : '?' ∉ name) (hbase : '?' ∉ Paths.abspath cwd.path baseDir.toList) {e : Engine}
    (he : e.url = scheme ++ tenantFile cwd baseDir name) :
    e.file = tenantFile cwd baseDir name := by
  obtain ⟨rest, hrest, heq⟩ : ∃ rest, '?' ∉ rest ∧ tenantFile cwd baseDir name = _ :=
    exists_tenantFile_eq hname baseDir hmark
  rw [file_of_url he, List.takeWhile_eq_self_iff]
  rintro c hc
  refine decide_eq_true ?_
  rintro rfl
  rw [heq] at hc
  rcases List.mem_append.1 hc with hc | hc
  · exact hbase hc
  · exact hrest hc

/-- **Tenants are separate** just when what is left of their ids differs. -/
theorem separate_iff {k₁ k₂ : Cache} (h₁ : Reachable (step cwd) [] k₁)
    (h₂ : Reachable (step cwd) [] k₂) {c₁ c₂ : Call} (hbase : c₂.baseDir = c₁.baseDir)
    {e₁ e₂ : Engine} (hcall₁ : (getTenantSessionFactory cwd k₁ c₁).1 = .ok e₁)
    (hcall₂ : (getTenantSessionFactory cwd k₂ c₂).1 = .ok e₂) :
    Separate cwd c₁.baseDir e₁ e₂ ↔
      sanitizedId c₁.tenantId ≠ sanitizedId c₂.tenantId ∧
        '?' ∉ Paths.abspath cwd.path c₁.baseDir.toList := by
  obtain ⟨hne₁, hurl₁⟩ := url_of_getTenantSessionFactory (coherent_of_reachable h₁) hcall₁
  obtain ⟨hne₂, hurl₂⟩ := url_of_getTenantSessionFactory (coherent_of_reachable h₂) hcall₂
  rw [hbase] at hurl₂
  have hname₁ := isComponent_sanitizedId hne₁
  have hname₂ := isComponent_sanitizedId hne₂
  have hmark₁ := not_mem_sanitizedId c₁.tenantId
  have hmark₂ := not_mem_sanitizedId c₂.tenantId
  constructor
  · rintro ⟨hdistinct, -⟩
    refine ⟨fun heq => ?_, fun hmark => ?_⟩
    · rw [heq, ← hurl₂] at hurl₁
      exact hdistinct (by rw [Engine.file, hurl₁, Engine.file])
    · exact hdistinct ((file_of_mark hname₁ hmark₁ hmark hurl₁).trans
        (file_of_mark hname₂ hmark₂ hmark hurl₂).symm)
  · rintro ⟨hids, hmark⟩
    have hfile₁ := file_of_noMark hname₁ hmark₁ hmark hurl₁
    have hfile₂ := file_of_noMark hname₂ hmark₂ hmark hurl₂
    refine ⟨fun heq => hids ?_, ?_⟩
    · rw [hfile₁, hfile₂] at heq
      exact Paths.join_inj hname₁ hname₂
        (Paths.join_join_inj isComponent_fileName hname₁ hname₂ heq)
    · simp only [List.forall_mem_cons]
      exact ⟨⟨_, hname₁, hfile₁⟩, ⟨_, hname₂, hfile₂⟩, fun e he => absurd he List.not_mem_nil⟩

/-- A working directory and two calls for one tenant and another. -/
def app : WorkingDir := ⟨['/', 'a', 'p', 'p'], by decide⟩

def dotted : Call := ⟨"a.b", "data/tenants", true, true⟩

def plain : Call := ⟨"ab", "data/tenants", true, true⟩

def other : Call := ⟨"c", "data/tenants", true, true⟩

theorem separate_plain_other : ∃ e₁ e₂,
    (getTenantSessionFactory app [] plain).1 = .ok e₁ ∧
    (getTenantSessionFactory app [] other).1 = .ok e₂ ∧
    (Separate app plain.baseDir e₁ e₂ ↔
      sanitizedId plain.tenantId ≠ sanitizedId other.tenantId ∧
        '?' ∉ Paths.abspath app.path plain.baseDir.toList) := by
  have hbase : other.baseDir = plain.baseDir := rfl
  refine ⟨_, _, rfl, rfl, ?_⟩
  exact separate_iff .refl .refl hbase rfl rfl

/-- The tenants `a.b` and `ab` have one catalog. -/
theorem not_separate_dotted : ¬ ∀ (cwd : WorkingDir) (k₁ k₂ : Cache) (c₁ c₂ : Call)
    (e₁ e₂ : Engine), Reachable (step cwd) [] k₁ → Reachable (step cwd) [] k₂ →
    c₁.tenantId ≠ c₂.tenantId → c₂.baseDir = c₁.baseDir →
    (getTenantSessionFactory cwd k₁ c₁).1 = .ok e₁ →
    (getTenantSessionFactory cwd k₂ c₂).1 = .ok e₂ → Separate cwd c₁.baseDir e₁ e₂ := by
  intro h
  have hseparate := h app [] [] dotted plain _ _ .refl .refl (by decide) rfl rfl rfl
  exact hseparate.distinct rfl

end Tenants
end Boveda

/-
The skills registry, `SkillRegistry.apply_skill`.

Inside its lock a call rebases on what is stored, writes the next registry to a temporary
file that all processes share, and puts it in place.  Where the lock excludes, no update is
lost: the file parses, its history is numbered without a gap, and every call that returned is
in it (`registry_kept`).

The guard keeps reclaimers apart, and that is enough for a lock whose token names a dead
process.  It is not enough for a lock without a token.  A reclaimer that has seen an old lock
and then finds no token takes its owner for crashed, when the owner may just have removed it,
to release the lock; and what stands there by the time of the removal may be the lock of the
next one (`update_lost`).
-/
import CyClaw.Lib.Table
import CyClaw.Locks.Artifacts
import Mathlib.Data.List.Range

namespace CyClaw.Locks

open PyText

/-! ### The call -/

structure SkillSpec where
  name : Text
  description : Text
  body : Text

structure SkillCall where
  spec : SkillSpec
  reason : Text
  scan : Bool
  /-- `_utcnow()`, taken before the lock. -/
  timestamp : Text
  enabled : Bool
  isWriteMode : Bool
  writesEnabled : Bool

/-- The code around an apply: the hash, the scanner and `repr`. -/
structure SkillEnv where
  sha256 : List UInt8 → Text
  scanInjection : Text → List Text
  repr : Text → Text

/-- `_canonical`. -/
def canonicalSpec (spec : SkillSpec) : Text := spec.name ++ ['\n'] ++ spec.description ++ ['\n'] ++ spec.body

def specField (env : SkillEnv) (key : String) : Text :=
  "skill spec field ".toList ++ env.repr key.toList ++ " must be a non-empty string".toList

/-- `_validate_spec`, with the message it raises. -/
def validateSpec (env : SkillEnv) (spec : SkillSpec) : Option Text :=
  if strip spec.name = [] then some (specField env "name")
  else if strip spec.description = [] then some (specField env "description")
  else if strip spec.body = [] then some (specField env "body")
  else if isSlug spec.name = false then
    some (("skill name must match ^[A-Za-z0-9][A-Za-z0-9_.-]*$ (must start with a letter or digit), got ").toList ++
      env.repr spec.name)
  else none

/-- The gates of `apply_skill`, with the message of the first that refuses. -/
def skillRefusal (env : SkillEnv) (call : SkillCall) : Option Text :=
  match validateSpec env call.spec with
  | some message => some message
  | none =>
      if strip call.reason = [] then some "apply_skill requires a non-empty human reason".toList
      else if call.enabled = false then some "apply_skill requires agentic.enabled=true".toList
      else if call.isWriteMode = false ∨ call.writesEnabled = false then
        some "apply_skill requires agentic.mode='write' and agentic.writes_enabled=true".toList
      else if call.scan = true ∧ env.scanInjection (canonicalSpec call.spec) ≠ [] then
        some "Proposed skill contains injection patterns; refusing to apply".toList
      else none

/-! ### The registry -/

structure Skill where
  name : Text
  description : Text
  body : Text
  sha256 : Text
  reason : Text
  updated : Text

structure HistoryEntry where
  version : ℕ
  name : Text
  sha256 : Text
  reason : Text
  timestamp : Text
deriving DecidableEq

structure Registry where
  version : ℕ
  updated : Option Text
  skills : Table Skill Text (·.name)
  history : List HistoryEntry

/-- `_empty`. -/
def Registry.empty : Registry := ⟨0, none, .empty, []⟩

def SkillCall.skill (env : SkillEnv) (call : SkillCall) : Skill where
  name := call.spec.name
  description := call.spec.description
  body := call.spec.body
  sha256 := env.sha256 (encode (canonicalSpec call.spec))
  reason := call.reason
  updated := call.timestamp

def SkillCall.entry (env : SkillEnv) (call : SkillCall) (version : ℕ) : HistoryEntry where
  version := version
  name := call.spec.name
  sha256 := env.sha256 (encode (canonicalSpec call.spec))
  reason := call.reason
  timestamp := call.timestamp

/-- The registry a call puts in the place of the one it rebased on. -/
def Registry.applied (env : SkillEnv) (call : SkillCall) (r : Registry) : Registry where
  version := r.version + 1
  updated := some call.timestamp
  skills := r.skills.upsert (call.skill env)
  history := r.history ++ [call.entry env (r.version + 1)]

/-- `_load`, `none` where it raises. -/
def loadRegistry : JsonFile Registry → Option Registry
  | .missing => some .empty
  | .malformed => none
  | .parsed r => some r

/-- What the calls share: the registry, the temporary file, which all of them use, and, for
the proofs, the entries of the calls that returned. -/
structure RegistryStore where
  registry : JsonFile Registry
  tmp : JsonFile Registry
  returned : List HistoryEntry

/-- Where a call is inside the lock, with the registry it rebased on. -/
inductive SkillJob where
  | entered (call : SkillCall)
  | loaded (call : SkillCall) (base : Registry)
  | opened (call : SkillCall) (base : Registry)
  | staged (call : SkillCall) (base : Registry)
  | applied (entry : HistoryEntry)
  | raised

/-- One step inside the lock, or the exception it ends with: then the temporary file is
unlinked.  Writing that file empties it first. -/
def skillAct (env : SkillEnv) (ok : Bool) (job : SkillJob) (s : RegistryStore) : Option (SkillJob × RegistryStore) :=
  match job, ok with
  | .entered call, true =>
      match loadRegistry s.registry with
      | none => some (.raised, s)
      | some base => some (.loaded call base, s)
  | .loaded call base, true => some (.opened call base, { s with tmp := .malformed })
  | .opened call base, true => some (.staged call base, { s with tmp := .parsed (base.applied env call) })
  | .staged call base, true =>
      match s.tmp with
      | .missing => some (.raised, s)
      | content =>
          let entry := call.entry env (base.version + 1)
          some (.applied entry, ⟨content, .missing, entry :: s.returned⟩)
  | .entered _, false => some (.raised, s)
  | .loaded _ _, false | .opened _ _, false | .staged _ _, false => some (.raised, { s with tmp := .missing })
  | .applied _, _ | .raised, _ => none

/-- `apply_skill`, between the gates and the release. -/
def applySkill (env : SkillEnv) : Sections.Body SkillCall SkillJob Bool RegistryStore where
  start call := if skillRefusal env call = none then some (.entered call) else none
  act := skillAct env
  done
    | .applied _ | .raised => true
    | _ => false

/-! ### What the calls keep -/

/-- A skill is the one an entry of the history records. -/
def Skill.recordedBy (skill : Skill) (e : HistoryEntry) : Prop :=
  skill.sha256 = e.sha256 ∧ skill.reason = e.reason ∧ skill.updated = e.timestamp

/-- What a registry promises: its version counts the history, which is numbered from one
without a gap, and every entry's skill is there, as that entry or a later one recorded it. -/
structure Registry.Consistent (r : Registry) : Prop where
  version_eq : r.version = r.history.length
  numbered : r.history.map (·.version) = List.range' 1 r.history.length
  current : ∀ e ∈ r.history, ∃ skill, r.skills.find? e.name = some skill ∧
    ∃ e' ∈ r.history, e'.name = e.name ∧ e.version ≤ e'.version ∧ skill.recordedBy e'

theorem Registry.consistent_empty : Registry.empty.Consistent := ⟨rfl, rfl, by nofun⟩

theorem Registry.Consistent.version_le {r : Registry} (h : r.Consistent) {e : HistoryEntry} (he : e ∈ r.history) :
    e.version ≤ r.version := by
  have hmem : e.version ∈ r.history.map (·.version) := List.mem_map_of_mem he
  rw [h.numbered, List.mem_range'_1] at hmem
  rw [h.version_eq]
  omega

/-- **An apply on top of what is stored loses nothing.** -/
theorem Registry.Consistent.applied {r : Registry} (h : r.Consistent) (env : SkillEnv) (call : SkillCall) :
    (r.applied env call).Consistent := by
  refine ⟨?_, ?_, ?_⟩
  · show r.version + 1 = (r.history ++ [_]).length
    rw [List.length_append, h.version_eq]
    rfl
  · show (r.history ++ [_]).map _ = List.range' 1 (r.history ++ [_]).length
    rw [List.map_append, h.numbered, List.length_append, List.length_singleton, List.range'_concat, h.version_eq]
    simp [SkillCall.entry, Nat.add_comm]
  · intro e he
    have hnew : call.entry env (r.version + 1) ∈ (r.applied env call).history :=
      List.mem_append_right _ (List.mem_singleton_self _)
    show ∃ skill, (r.skills.upsert (call.skill env)).find? e.name = some skill ∧ _
    rw [Table.find?_upsert]
    by_cases hname : call.spec.name = e.name
    · refine ⟨call.skill env, if_pos hname, _, hnew, hname, ?_, rfl, rfl, rfl⟩
      rcases List.mem_append.mp he with he | he
      · exact (h.version_le he).trans (Nat.le_succ _)
      · rw [List.mem_singleton.mp he]
    · rcases List.mem_append.mp he with he | he
      · obtain ⟨skill, hfind, e', he', hrest⟩ := h.current e he
        exact ⟨skill, (if_neg hname).trans hfind, e', List.mem_append_left _ he', hrest⟩
      · rw [List.mem_singleton.mp he] at hname
        exact absurd rfl hname

/-- The registry parses and is consistent, and has the entries of the calls that returned. -/
def Kept (s : RegistryStore) : Prop :=
  ∃ r, loadRegistry s.registry = some r ∧ r.Consistent ∧ ∀ e ∈ s.returned, e ∈ r.history

/-- What the call inside knows: what it rebased on is still stored, and what it has staged is
still there. -/
def SkillJob.knows (env : SkillEnv) (s : RegistryStore) : SkillJob → Prop
  | .loaded _ base | .opened _ base => loadRegistry s.registry = some base
  | .staged call base => loadRegistry s.registry = some base ∧ s.tmp = .parsed (base.applied env call)
  | _ => True

theorem skillAct_keeps {env : SkillEnv} {ok : Bool} {job job' : SkillJob} {s s' : RegistryStore} (hs : Kept s)
    (hjob : job.knows env s) (h : skillAct env ok job s = some (job', s')) : Kept s' ∧ job'.knows env s' := by
  unfold skillAct at h
  split at h
  · split at h
    · cases h
      exact ⟨hs, trivial⟩
    · rename_i base hbase
      cases h
      exact ⟨hs, hbase⟩
  · cases h
    exact ⟨hs, hjob⟩
  · cases h
    exact ⟨hs, hjob, rfl⟩
  · rename_i call base
    obtain ⟨hbase, htmp⟩ : loadRegistry s.registry = some base ∧ s.tmp = .parsed (base.applied env call) := hjob
    rw [htmp] at h
    cases h
    obtain ⟨r, hr, hconsistent, hreturned⟩ := hs
    rw [hbase, Option.some.injEq] at hr
    subst hr
    refine ⟨⟨_, rfl, hconsistent.applied env call, ?_⟩, trivial⟩
    intro e he
    rcases List.mem_cons.mp he with rfl | he
    · exact List.mem_append_right _ (List.mem_singleton_self _)
    · exact List.mem_append_left _ (hreturned e he)
  · cases h
    exact ⟨hs, trivial⟩
  · cases h
    exact ⟨hs, trivial⟩
  · cases h
    exact ⟨hs, trivial⟩
  · cases h
    exact ⟨hs, trivial⟩
  · cases h
  · cases h

theorem skill_keeps (env : SkillEnv) :
    Sections.Keeps (applySkill env) Kept (fun job s => job.knows env s) where
  start _ h := by
    unfold applySkill at h
    dsimp only at h
    split at h
    · cases h
      trivial
    · cases h
  act hs hjob h := skillAct_keeps hs hjob h

/-! ### Every run -/

abbrev SkillWorld (κ : Type) := Sections.World κ (LockWorld κ) SkillJob RegistryStore

/-- The calls of `apply_skill` on one registry, in all their interleavings. -/
abbrev skillStep {κ : Type} [DecidableEq κ] (env : SkillEnv) (pidOf : κ → ℕ) :
    Sections.Event κ (LockEvent κ) SkillCall Bool → SkillWorld κ → Option (SkillWorld κ) :=
  Sections.step (dirLock .registry pidOf) (applySkill env)

/-- Every acquirer signs its lock, and before it is stale. -/
def prompt {κ : Type} (w : LockWorld κ) : LockEvent κ → Bool
  | .tick d => w.lock.all fun lock =>
      match w.phase lock.maker with
      | .signing _ => w.now + d - lock.mtime ≤ lockStaleSec
      | _ => true
  | .err k =>
      match w.phase k with
      | .signing _ => false
      | _ => true
  | _ => true

def skillCall (name : String) : SkillCall where
  spec := ⟨name.toList, "a skill".toList, "do it".toList⟩
  reason := "wanted".toList
  scan := true
  timestamp := "2026-01-01T00:00".toList
  enabled := true
  isWriteMode := true
  writesEnabled := true

/-- What SHA-256 makes of the three skills. -/
def skillDigests : List (List UInt8 × Text) :=
  [("one", ["a6c32027199671fd", "3f1fb76cbc51a517", "87e9ea29bc89f1df", "85b830850d3d3305"]),
    ("two", ["6c784ec9e6e65f33", "212575f8bb477453", "8bcf403120b903fe", "2f7b292c9e94daeb"]),
    ("three", ["da8e46a63e346ee2", "b5fda45da21067ed", "afe4e4a1e110a829", "66e1ec9b3632040c"])].map
    fun (name, digest) => (encode (canonicalSpec (skillCall name).spec), digest.flatMap String.toList)

def skillEnv : SkillEnv where
  sha256 b := (skillDigests.lookup b).getD []
  scanInjection _ := []
  repr t := ['\''] ++ t ++ ['\'']

def skillStart : SkillWorld (Fin 3) where
  lock := ⟨0, fun _ => true, none, none, fun _ => .idle⟩
  job := fun _ => .raised
  store := ⟨.missing, .missing, []⟩

abbrev SkillEvent := Sections.Event (Fin 3) (LockEvent (Fin 3)) SkillCall Bool

/-- Make the lock, sign it and enter. -/
def lockAndEnter (k : Fin 3) (name : String) : List SkillEvent :=
  .lock (.call k) :: steps 2 k ++ [.enter k (skillCall name)]

/-- Load, open, stage and put in place. -/
def applies (k : Fin 3) : List SkillEvent := List.replicate 4 (.act k true)

/-- The owner is done after a minute and leaves; another finds its lock old, and judges it
when the token is gone and the directory is not. -/
def slowRelease : List SkillEvent :=
  lockAndEnter 0 "one" ++ applies 0 ++ [.lock (.tick 61), .leave 0, .lock (.call 1)] ++ steps 3 1 ++ steps 2 0 ++
    steps 1 1 ++ steps 1 0

/-- A third caller takes the lock, and the second removes it. -/
def bothEnter : List SkillEvent :=
  slowRelease ++ lockAndEnter 2 "three" ++ steps 5 1 ++ [.enter 1 (skillCall "two")]

/-- The second and the third caller, both of which have loaded the same registry, one after
the other. -/
def bothApply : List SkillEvent :=
  [.act 1 true, .act 2 true] ++ List.replicate 3 (.act 1 true) ++ List.replicate 3 (.act 2 true)

end CyClaw.Locks

/-
Accepted artifacts, `apply_candidate_artifact`.

Inside its lock a call reads the stored version, writes the next one and then a note of it.
Where the lock excludes, versions are never lost: every call that returns has a version of
its own, and the stored version counts the artifacts put in place (`versions_kept`).

The lock does not always exclude.  Two processes that both find a crashed owner's lock may
reclaim it one after the other, and the second removes what the first has just made
(`version_lost`).
-/
import CyClaw.Lib.PyText
import CyClaw.Locks.Exclusion

namespace CyClaw.Locks

open PyText

abbrev Text := List Char

/-! ### The call -/

structure HarnessApplicationProposal where
  variantId : Text
  changedSurfaces : List Text
  proposalText : Text
  proposalSha256 : Text

/-- The switches an apply looks at. -/
structure HarnessSettings where
  agenticEnabled : Bool
  harnessEnabled : Bool
  isWriteMode : Bool
  writesEnabled : Bool
  requireHumanConfirmForAccept : Bool

structure ArtifactCall where
  proposal : HarnessApplicationProposal
  settings : HarnessSettings
  reason : Text
  confirm : Bool

/-- The code around an apply: `hashlib.sha256(…).hexdigest()`, and whether
`inspect_candidate_text` finds anything. -/
structure ArtifactEnv where
  sha256 : List UInt8 → Text
  inspectCandidateText : Text → Bool

/-- The gates, with the message of the first that refuses. -/
def artifactRefusal (env : ArtifactEnv) (call : ArtifactCall) : Option String :=
  let p := call.proposal
  let s := call.settings
  if isSlug p.variantId = false then some "candidate artifact requires a safe variant_id"
  else if strip p.proposalText = [] then some "candidate artifact requires a non-empty proposal"
  else if p.proposalSha256 ≠ env.sha256 (encode p.proposalText) then
    some "candidate artifact proposal hash does not match its text"
  else if env.inspectCandidateText p.proposalText then some "candidate proposal failed the injection gate"
  else if s.agenticEnabled = false ∨ s.harnessEnabled = false then
    some "agentic and harness optimizer must be enabled before apply"
  else if s.isWriteMode = false ∨ s.writesEnabled = false then
    some "agentic write mode and writes_enabled are required before apply"
  else if s.requireHumanConfirmForAccept = false then
    some "harness optimizer confirmation cannot be disabled for persistent apply"
  else if strip call.reason = [] then some "persistent apply requires a non-empty human reason"
  else if call.confirm = false then some "persistent apply requires explicit confirmation"
  else none

/-- What is noted in memory: the record without the proposal's text. -/
structure MemoryRecord where
  version : ℕ
  variantId : Text
  changedSurfaces : List Text
  proposalSha256 : Text
  reason : Text

structure ArtifactRecord extends MemoryRecord where
  proposalText : Text

/-- What the calls for one variant share.  How many artifacts were put in place, and the
versions of the calls that returned, are kept for the proofs. -/
structure ArtifactStore where
  artifact : JsonFile ArtifactRecord
  memory : List (Text × MemoryRecord)
  applies : ℕ
  returned : List ℕ

/-- Where a call is inside the lock. -/
inductive ArtifactJob where
  | entered (call : ArtifactCall)
  | rebased (record : ArtifactRecord)
  | recorded (record : ArtifactRecord)
  | applied (version : ℕ)
  | raised

/-- `int(previous.get("version", 0))`. -/
def storedVersion : JsonFile ArtifactRecord → ℕ
  | .parsed record => record.version
  | _ => 0

def nextRecord (call : ArtifactCall) (version : ℕ) : ArtifactRecord where
  version := version
  variantId := call.proposal.variantId
  changedSurfaces := call.proposal.changedSurfaces
  proposalSha256 := call.proposal.proposalSha256
  reason := call.reason
  proposalText := call.proposal.proposalText

def memoryPath (record : ArtifactRecord) : Text :=
  record.variantId ++ ['-'] ++ record.proposalSha256.take 12 ++ ".json".toList

/-- One step inside the lock, or the `OSError` it ends with.  The temporary file is the
process's own, so the artifact is put in place in one step. -/
def artifactAct (ok : Bool) (job : ArtifactJob) (s : ArtifactStore) : Option (ArtifactJob × ArtifactStore) :=
  match job, ok with
  | .entered call, true =>
      match s.artifact with
      | .malformed => some (.raised, s)
      | artifact => some (.rebased (nextRecord call (storedVersion artifact + 1)), s)
  | .rebased record, true =>
      some (.recorded record, { s with artifact := .parsed record, applies := s.applies + 1 })
  | .recorded record, true =>
      some (.applied record.version, { s with
        memory := (memoryPath record, record.toMemoryRecord) :: s.memory
        returned := record.version :: s.returned })
  | .entered _, false | .rebased _, false | .recorded _, false => some (.raised, s)
  | .applied _, _ | .raised, _ => none

/-- `apply_candidate_artifact`, between the gates and the release. -/
def applyCandidateArtifact (env : ArtifactEnv) : Sections.Body ArtifactCall ArtifactJob Bool ArtifactStore where
  start call := if artifactRefusal env call = none then some (.entered call) else none
  act := artifactAct
  done
    | .applied _ | .raised => true
    | _ => false

/-! ### What the calls keep -/

/-- The stored version counts the artifacts put in place since it was `base`, and the
versions handed out are different. -/
structure Counted (base : ℕ) (s : ArtifactStore) : Prop where
  stored : storedVersion s.artifact = base + s.applies
  below : ∀ v ∈ s.returned, v ≤ storedVersion s.artifact
  distinct : s.returned.Nodup

/-- What the call inside knows. -/
def ArtifactJob.knows (s : ArtifactStore) : ArtifactJob → Prop
  | .rebased record => record.version = storedVersion s.artifact + 1
  | .recorded record => record.version = storedVersion s.artifact ∧ record.version ∉ s.returned
  | _ => True

theorem artifactAct_keeps {base : ℕ} {ok : Bool} {job job' : ArtifactJob} {s s' : ArtifactStore} (hs : Counted base s)
    (hjob : job.knows s) (h : artifactAct ok job s = some (job', s')) : Counted base s' ∧ job'.knows s' := by
  unfold artifactAct at h
  split at h
  · split at h
    · cases h
      exact ⟨hs, trivial⟩
    · cases h
      exact ⟨hs, rfl⟩
  · rename_i record
    cases h
    have hversion : record.version = storedVersion s.artifact + 1 := hjob
    have hstored := hs.stored
    refine ⟨⟨?_, ?_, hs.distinct⟩, rfl, ?_⟩
    · show record.version = base + (s.applies + 1)
      omega
    · intro v hv
      have hle := hs.below v hv
      show v ≤ record.version
      omega
    · intro hmem
      have hle := hs.below _ hmem
      omega
  · rename_i record
    cases h
    obtain ⟨hversion, hnew⟩ : record.version = storedVersion s.artifact ∧ record.version ∉ s.returned := hjob
    refine ⟨⟨hs.stored, ?_, List.nodup_cons.mpr ⟨hnew, hs.distinct⟩⟩, trivial⟩
    intro v hv
    rcases List.mem_cons.mp hv with rfl | hv
    · exact Nat.le_of_eq hversion
    · exact hs.below v hv
  · cases h
    exact ⟨hs, trivial⟩
  · cases h
    exact ⟨hs, trivial⟩
  · cases h
    exact ⟨hs, trivial⟩
  · cases h
  · cases h

theorem artifact_keeps (env : ArtifactEnv) (base : ℕ) :
    Sections.Keeps (applyCandidateArtifact env) (Counted base) (fun job s => job.knows s) where
  start _ h := by
    unfold applyCandidateArtifact at h
    dsimp only at h
    split at h
    · cases h
      trivial
    · cases h
  act hs hjob h := artifactAct_keeps hs hjob h

/-! ### Every run -/

abbrev ArtifactWorld (κ : Type) := Sections.World κ (LockWorld κ) ArtifactJob ArtifactStore

/-- The calls of `apply_candidate_artifact` for one variant, in all their interleavings. -/
abbrev artifactStep {κ : Type} [DecidableEq κ] (env : ArtifactEnv) (pidOf : κ → ℕ) :
    Sections.Event κ (LockEvent κ) ArtifactCall Bool → ArtifactWorld κ → Option (ArtifactWorld κ) :=
  Sections.step (dirLock .artifact pidOf) (applyCandidateArtifact env)

/-- **Versions are not lost** in a run in which no reclaimer removes the lock of a holder. -/
theorem versions_kept {κ : Type} [DecidableEq κ] {env : ArtifactEnv} {pidOf : κ → ℕ} {first s : ArtifactWorld κ}
    (hquiet : Quiet first.lock) (happlies : first.store.applies = 0) (hreturned : first.store.returned = [])
    (h : Runs.Later (artifactStep env pidOf) (Sections.admits (spares .artifact)) first s) :
    (∀ k k', (s.lock.phase k).within = true → (s.lock.phase k').within = true → k = k') ∧
      s.store.returned.Nodup ∧
      storedVersion s.store.artifact = storedVersion first.store.artifact + s.store.applies := by
  have hfirst : Sections.Holds (dirLock .artifact pidOf) (Sound .artifact pidOf)
      (Counted (storedVersion first.store.artifact)) (fun job s => job.knows s) first := by
    refine ⟨hquiet.sound, ⟨?_, ?_, ?_⟩, ?_⟩
    · rw [happlies, Nat.add_zero]
    · rw [hreturned]
      nofun
    · rw [hreturned]
      exact List.nodup_nil
    · intro k hk
      rw [inside_iff, hquiet k] at hk
      cases hk
  have hs := hfirst.later dirLock_apart (artifact_keeps env _) h
  exact ⟨fun k k' hk hk' => hs.lock.exclusive (holding_of_within hk) (holding_of_within hk'),
    hs.store.distinct, hs.store.stored⟩

/-! ### Three processes and a crash -/

def sampleText : Text := "Use a shorter prompt".toList

def sampleDigest : Text :=
  ["6e385f7c420b9dac", "ee545073d89ec495", "c98e5bcdab2d2f17", "2e6ab156a744c11a"].flatMap String.toList

def artifactEnv : ArtifactEnv where
  sha256 b := if b = encode sampleText then sampleDigest else []
  inspectCandidateText _ := false

def artifactCall : ArtifactCall where
  proposal := ⟨"variant-1".toList, ["prompt".toList], sampleText, sampleDigest⟩
  settings := ⟨true, true, true, true, true⟩
  reason := "shorter".toList
  confirm := true

/-- There are three processes, so each numeral names one. -/
instance threeProcesses : @NeZero ℕ Zero.ofOfNat0 3 := ⟨by decide⟩

/-- Three processes, nothing stored. -/
def artifactStart : ArtifactWorld (Fin 3) where
  lock := ⟨0, fun _ => true, none, none, fun _ => .idle⟩
  job := fun _ => .raised
  store := ⟨.missing, [], 0, []⟩

abbrev ArtifactEvent := Sections.Event (Fin 3) (LockEvent (Fin 3)) ArtifactCall Bool

/-- A number of steps of one caller at the lock. -/
def steps {α φ : Type} (n : ℕ) (k : Fin 3) : List (Sections.Event (Fin 3) (LockEvent (Fin 3)) α φ) :=
  List.replicate n (.lock (.go k))

/-- The owner of the lock crashes, and two others find the lock stale a minute later. -/
def crashAndWait : List ArtifactEvent :=
  .lock (.call 0) :: steps 2 0 ++ [.lock (.crash 0), .lock (.tick 61)]

def callAndJudge (k : Fin 3) : List ArtifactEvent := .lock (.call k) :: steps 3 k

/-- Remove the lock, make it anew, sign it and enter. -/
def reclaimAndEnter (k : Fin 3) : List ArtifactEvent := steps 4 k ++ [.enter k artifactCall]

def applyAndLeave (k : Fin 3) : List ArtifactEvent := [.act k true, .act k true, .act k true, .leave k] ++ steps 3 k

def pidOf3 (k : Fin 3) : ℕ := k

/-- One process reclaims the lock, and another takes it after its release. -/
theorem versions_kept_reclaimed :
    ∃ s, Runs.Later (artifactStep artifactEnv pidOf3) (Sections.admits (spares .artifact)) artifactStart s ∧
      s.store.returned = [2, 1] ∧ s.store.returned.Nodup ∧ storedVersion s.store.artifact = 0 + s.store.applies := by
  obtain ⟨s, hrun, hs⟩ := (Option.any_eq_true _ _).mp (by decide +kernel :
    (Runs.run (artifactStep artifactEnv pidOf3) (Sections.admits (spares .artifact))
      (crashAndWait ++ callAndJudge 1 ++ reclaimAndEnter 1 ++ applyAndLeave 1 ++ [.lock (.call 2)] ++ steps 2 2 ++
        [.enter 2 artifactCall] ++ applyAndLeave 2) artifactStart).any
      (fun s => s.store.returned = [2, 1]) = true)
  obtain ⟨-, hdistinct, hstored⟩ := versions_kept (fun _ => rfl : Quiet artifactStart.lock) rfl rfl (.of_run hrun)
  exact ⟨s, .of_run hrun, of_decide_eq_true hs, hdistinct, hstored⟩

/-- **A version is lost**: both processes are inside at once, read the same version and
return the same one. -/
theorem version_lost :
    ∃ both s, Runs.Later (artifactStep artifactEnv pidOf3) (fun _ _ => true) artifactStart both ∧
      Runs.Later (artifactStep artifactEnv pidOf3) (fun _ _ => true) both s ∧
      both.lock.phase 1 = .inside ∧ both.lock.phase 2 = .inside ∧
      s.store.returned = [1, 1] ∧ s.store.applies = 2 ∧ storedVersion s.store.artifact = 1 := by
  obtain ⟨both, hboth, hs⟩ := (Option.any_eq_true _ _).mp (by decide +kernel :
    (Runs.run (artifactStep artifactEnv pidOf3) (fun _ _ => true)
      (crashAndWait ++ callAndJudge 1 ++ callAndJudge 2 ++ reclaimAndEnter 1 ++ reclaimAndEnter 2) artifactStart).any
      (fun both => both.lock.phase 1 = .inside && both.lock.phase 2 = .inside &&
        (Runs.run (artifactStep artifactEnv pidOf3) (fun _ _ => true)
          [.act 1 true, .act 2 true, .act 1 true, .act 2 true, .act 1 true, .act 2 true] both).any
          (fun s => s.store.returned = [1, 1] ∧ s.store.applies = 2 ∧ storedVersion s.store.artifact = 1)) = true)
  simp only [Bool.and_eq_true, decide_eq_true_eq] at hs
  obtain ⟨⟨h1, h2⟩, hafter⟩ := hs
  obtain ⟨s, hrun, hend⟩ := (Option.any_eq_true _ _).mp hafter
  exact ⟨both, s, .of_run hboth, .of_run hrun, h1, h2, of_decide_eq_true hend⟩

end CyClaw.Locks

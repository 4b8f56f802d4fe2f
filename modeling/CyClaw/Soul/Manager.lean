/-
`PersonalityManager` of `utils/personality.py`.

soul.md is written as it is passed in and read back with its line ends translated, so a text with
a carriage return comes back changed (`readText`).  The threads share a connection: a row that was
inserted and neither committed nor rolled back is there for all of them, and goes with the next
commit.

Any statement of a call may raise; `Statement` names them and the call says which of its own do.
An atomic write that raises has not replaced the file.  What goes to the audit log and what is
done about permissions has no part here.
-/
import CyClaw.Lib.Lines

namespace CyClaw.Soul

open PyText

abbrev Text := List Char

/-- A row of `soul_versions`. -/
structure Version where
  id : ℕ
  sha256 : Text
  content : Text
  reason : Text
  timestamp : Text
deriving DecidableEq

structure Personality where
  /-- soul.md -/
  soul : Option Text
  /-- soul.md.bak -/
  backup : Option Text
  soulCore : Text
  /-- `soul_versions`, the newest row last. -/
  committed : List Version
  /-- The rows of the open transaction. -/
  uncommitted : List Version
deriving DecidableEq

structure Config where
  sha256 : Text → Text
  /-- The critical patterns that a text matches. -/
  scanEnforced : Text → List Text
  soulMaxChars : ℤ

inductive Statement where
  | readBackup
  | readSoul
  | writeBackup
  | writeSoul
  | select
  | insert
  | maxVersion
  | commit
  | rollback
  | putBackSoul
  | putBackBackup
  /-- Of `restore_from_backup`. -/
  | readRestored
  | createSoul
deriving DecidableEq

/-- Which statements of a call raise. -/
abbrev Faults := Statement → Bool

structure FailureDetails where
  rollbackAttempted : Bool
  rollbackSucceeded : Option Bool
  previousSoulRestored : Bool
  previousBackupRestored : Bool

inductive SoulError where
  | valueError (message : Text)
  | promptInjection (flags : List Text)
  | fileNotFound (message : Text)
  | soulPersistence (details : FailureDetails)
  | raised (s : Statement)

structure Applied where
  version : ℕ
  sha256 : Text

/-! ### Texts and rows -/

/-- `Path.read_text` of what was written. -/
def readText (raw : Text) : Text := universalNewlines raw

def defaultSoul : Text :=
  "# Soul\n\nDefault CyClaw soul. Replace this file with your own identity statement.\n".toList

/-- `content[:stop]`. -/
def sliceTo (content : Text) (stop : ℤ) : Text :=
  content.take (if stop < 0 then content.length + stop else stop).toNat

def boundedSoul (cfg : Config) (content : Text) : Text :=
  if cfg.soulMaxChars < content.length then sliceTo content cfg.soulMaxChars else content

/-- The rows that a query sees. -/
def Personality.versions (σ : Personality) : List Version := σ.committed ++ σ.uncommitted

def maxVersionId (rows : List Version) : ℕ := (rows.map Version.id).foldr max 0

/-- `INSERT INTO soul_versions`: the row, which has the next number. -/
def Personality.newVersion (σ : Personality) (sha256 content reason now : Text) : Version :=
  ⟨maxVersionId σ.versions + 1, sha256, content, reason, now⟩

def Personality.insert (σ : Personality) (sha256 content reason now : Text) : Personality :=
  { σ with uncommitted := σ.uncommitted ++ [σ.newVersion sha256 content reason now] }

def Personality.commit (σ : Personality) : Personality := { σ with committed := σ.versions, uncommitted := [] }

def Personality.rollback (σ : Personality) : Personality := { σ with uncommitted := [] }

/-! ### `apply_evolution` -/

/-- How far an apply has come. -/
structure Progress where
  σ : Personality
  previousSoul : Option Text
  backupPublished : Bool
  soulPublished : Bool
  dbWriteStarted : Bool

section Apply

variable (cfg : Config) (faults : Faults) (newSoul reason now : Text)

def recordVersion (x : Progress) : Progress × Except Statement ℕ :=
  if faults .insert then (x, .error .insert)
  else
    let inserted := { x with σ := x.σ.insert (cfg.sha256 newSoul) newSoul reason now }
    if faults .maxVersion then (inserted, .error .maxVersion)
    else if faults .commit then (inserted, .error .commit)
    else ({ inserted with σ := inserted.σ.commit }, .ok (maxVersionId inserted.σ.versions))

def publishSoul (x : Progress) : Progress × Except Statement ℕ :=
  if faults .writeSoul then (x, .error .writeSoul)
  else
    recordVersion cfg faults newSoul reason now
      { x with σ := { x.σ with soul := some newSoul }, soulPublished := true, dbWriteStarted := true }

/-- What is tried inside the lock. -/
def attempt (σ : Personality) : Progress × Except Statement ℕ :=
  match σ.soul with
  | none => publishSoul cfg faults newSoul reason now ⟨σ, none, false, false, false⟩
  | some raw =>
      if faults .readSoul then (⟨σ, none, false, false, false⟩, .error .readSoul)
      else if faults .writeBackup then (⟨σ, some (readText raw), false, false, false⟩, .error .writeBackup)
      else
        publishSoul cfg faults newSoul reason now
          ⟨{ σ with backup := some (readText raw) }, some (readText raw), true, false, false⟩

def rolledBack (x : Progress) : Personality := if x.dbWriteStarted && !faults .rollback then x.σ.rollback else x.σ

/-- Whether soul.md is as it was read, and what is left. -/
def putBackSoul (x : Progress) (σ : Personality) : Bool × Personality :=
  if x.soulPublished then
    if faults .putBackSoul then (false, σ) else (true, { σ with soul := x.previousSoul })
  else (true, σ)

def putBackBackup (previousBackup : Option Text) (x : Progress) (σ : Personality) : Bool × Personality :=
  if x.backupPublished then
    if faults .putBackBackup then (false, σ) else (true, { σ with backup := previousBackup })
  else (true, σ)

/-- `except Exception`: what was published is put back. -/
def putBack (previousBackup : Option Text) (x : Progress) : FailureDetails × Personality :=
  let succeeded := if x.dbWriteStarted then some (!faults .rollback) else none
  match putBackSoul faults x (rolledBack faults x) with
  | (false, σ) => (⟨x.dbWriteStarted, succeeded, false, !x.backupPublished⟩, σ)
  | (true, σ) =>
      let r := putBackBackup faults previousBackup x σ
      (⟨x.dbWriteStarted, succeeded, true, r.1⟩, r.2)

/-- The critical section of `apply_evolution`. -/
def applySection (σ : Personality) : Except SoulError Applied × Personality :=
  if σ.backup.isSome && faults .readBackup then (.error (.raised .readBackup), σ)
  else
    match attempt cfg faults newSoul reason now σ with
    | (x, .ok version) => (.ok ⟨version, cfg.sha256 newSoul⟩, { x.σ with soulCore := boundedSoul cfg newSoul })
    | (x, .error s) =>
        let r := putBack faults (σ.backup.map readText) x
        if r.1.previousSoulRestored && r.1.previousBackupRestored then (.error (.raised s), r.2)
        else (.error (.soulPersistence r.1), r.2)

def applyEvolution (scan : Bool) (σ : Personality) : Except SoulError Applied × Personality :=
  if strip reason = [] then (.error (.valueError "reason must not be empty".toList), σ)
  else
    match (if scan then cfg.scanEnforced newSoul else []) with
    | [] => applySection cfg faults newSoul reason now σ
    | flags => (.error (.promptInjection flags), σ)

end Apply

/-! ### `restore_from_backup` and `reload` -/

section Calls

variable (cfg : Config) (faults : Faults) (now : Text)

def restoreReason : Text := "RESTORE: reverted to previous .bak".toList

def restoreFromBackup (σ : Personality) : Except SoulError Applied × Personality :=
  match σ.backup with
  | none => (.error (.fileNotFound "No .bak file found to restore from".toList), σ)
  | some raw =>
      if faults .readRestored then (.error (.raised .readRestored), σ)
      else applyEvolution cfg faults (readText raw) restoreReason now false σ

/-- A row of `_load_soul`, and `soul_core` after it. -/
def loadVersion (content reason : Text) (σ : Personality) : Except SoulError Unit × Personality :=
  if faults .insert then (.error (.raised .insert), σ)
  else
    let inserted := σ.insert (cfg.sha256 content) content reason now
    if faults .commit then (.error (.raised .commit), inserted)
    else (.ok (), { inserted.commit with soulCore := boundedSoul cfg content })

def driftReason : Text := "DRIFT_RECOVERY: file hash mismatch on startup".toList

/-- The critical section of `_load_soul`. -/
def loadSection (σ : Personality) : Except SoulError Unit × Personality :=
  match σ.soul with
  | none => (.error (.raised .readSoul), σ)
  | some raw =>
      let content := readText raw
      if faults .readSoul then (.error (.raised .readSoul), σ)
      else if faults .select then (.error (.raised .select), σ)
      else
        match σ.versions.getLast? with
        | none => loadVersion cfg faults now content "initial_load".toList σ
        | some row =>
            if row.sha256 = cfg.sha256 content then (.ok (), { σ with soulCore := boundedSoul cfg content })
            else loadVersion cfg faults now content driftReason σ

/-- `os.open` with `O_EXCL`: the file is there, and empty. -/
def createSoul (σ : Personality) : Except SoulError Unit × Personality :=
  if σ.soul.isSome || faults .createSoul then (.error (.raised .createSoul), σ)
  else (.ok (), { σ with soul := some [] })

def writeDefault (σ : Personality) : Except SoulError Unit × Personality :=
  if faults .writeSoul then (.error (.raised .writeSoul), σ) else (.ok (), { σ with soul := some defaultSoul })

/-- The critical section of `_load_soul` where there was no soul.md. -/
def recordDefault (σ : Personality) : Except SoulError Unit × Personality :=
  if faults .insert then (.error (.raised .insert), σ)
  else
    let inserted := σ.insert (cfg.sha256 defaultSoul) defaultSoul "initial_default".toList now
    if faults .commit then (.error (.raised .commit), inserted) else (.ok (), inserted.commit)

/-- One statement after the other, until one raises. -/
def andThen {α β : Type} (x : Except SoulError α × Personality) (k : Personality → Except SoulError β × Personality) :
    Except SoulError β × Personality :=
  match x with
  | (.ok _, σ) => k σ
  | (.error e, σ) => (.error e, σ)

def publishDefault (σ : Personality) : Except SoulError Unit × Personality := (.ok (), { σ with soulCore := defaultSoul })

def loadSoul (σ : Personality) : Except SoulError Unit × Personality :=
  if σ.soul.isSome then loadSection cfg faults now σ
  else
    andThen (createSoul faults σ) fun σ => andThen (writeDefault faults σ) fun σ =>
      andThen (recordDefault cfg faults now σ) publishDefault

def reload (σ : Personality) : Except SoulError Unit × Personality := loadSoul cfg faults now σ

/-- A new process: a new connection, and `__init__` without the prune. -/
def restart (σ : Personality) : Except SoulError Unit × Personality :=
  loadSoul cfg faults now { σ with uncommitted := [], soulCore := [] }

end Calls

/-! ### What an apply does -/

/-- soul.md has a new text, and the old one is the backup. -/
def Personality.applied (cfg : Config) (raw newSoul reason now : Text) (σ : Personality) : Personality where
  soul := some newSoul
  backup := some (readText raw)
  soulCore := boundedSoul cfg newSoul
  committed := σ.versions ++ [σ.newVersion (cfg.sha256 newSoul) newSoul reason now]
  uncommitted := []

/-- What an attempt that raised has left to be put back. -/
structure Unfinished (σ : Personality) (raw : Text) (x : Progress) : Prop where
  soulCore : x.σ.soulCore = σ.soulCore
  committed : x.σ.committed = σ.committed
  uncommitted : x.dbWriteStarted = false → x.σ.uncommitted = σ.uncommitted
  soul : x.soulPublished = false → x.σ.soul = some raw
  previousSoul : x.soulPublished = true → x.previousSoul = some (readText raw)
  exists_soul : x.σ.soul.isSome = true

/-- What is left of an apply that failed. -/
structure Failed (faults : Faults) (σ : Personality) (raw : Text) (σ' : Personality) : Prop where
  soulCore : σ'.soulCore = σ.soulCore
  committed : σ'.committed = σ.committed
  uncommitted : faults .rollback = false → σ.uncommitted = [] → σ'.uncommitted = []
  soul : faults .putBackSoul = false → σ'.soul = some raw ∨ σ'.soul = some (readText raw)
  exists_soul : σ'.soul.isSome = true

section Specs

variable {cfg : Config} {faults : Faults} {newSoul reason now raw : Text} {σ : Personality}

theorem attempt_cases (hsoul : σ.soul = some raw) :
    (∃ version, (attempt cfg faults newSoul reason now σ).2 = .ok version ∧
      { (attempt cfg faults newSoul reason now σ).1.σ with soulCore := boundedSoul cfg newSoul } =
        σ.applied cfg raw newSoul reason now) ∨
      ∃ s, (attempt cfg faults newSoul reason now σ).2 = .error s ∧
        Unfinished σ raw (attempt cfg faults newSoul reason now σ).1 := by
  unfold attempt
  rw [hsoul]
  simp only
  by_cases hread : faults .readSoul = true
  · rw [if_pos hread]
    exact Or.inr ⟨_, rfl, rfl, rfl, fun _ => rfl, fun _ => hsoul, by simp, by simp [hsoul]⟩
  rw [if_neg hread]
  by_cases hbackup : faults .writeBackup = true
  · rw [if_pos hbackup]
    exact Or.inr ⟨_, rfl, rfl, rfl, fun _ => rfl, fun _ => hsoul, by simp, by simp [hsoul]⟩
  rw [if_neg hbackup]
  unfold publishSoul
  by_cases hwrite : faults .writeSoul = true
  · rw [if_pos hwrite]
    exact Or.inr ⟨_, rfl, rfl, rfl, fun _ => rfl, fun _ => rfl, by simp, rfl⟩
  rw [if_neg hwrite]
  unfold recordVersion
  -- From here on the text is in soul.md, and what is put back is what was there.
  by_cases hinsert : faults .insert = true
  · rw [if_pos hinsert]
    exact Or.inr ⟨_, rfl, rfl, rfl, by simp, by simp, fun _ => rfl, rfl⟩
  rw [if_neg hinsert]
  by_cases hmax : faults .maxVersion = true
  · simp only [hmax, if_true]
    exact Or.inr ⟨_, rfl, rfl, rfl, by simp, by simp, fun _ => rfl, rfl⟩
  by_cases hcommit : faults .commit = true
  · simp only [hmax, hcommit, if_true]
    exact Or.inr ⟨_, rfl, rfl, rfl, by simp, by simp, fun _ => rfl, rfl⟩
  · simp only [hmax, hcommit]
    refine Or.inl ⟨_, rfl, ?_⟩
    simp [Personality.commit, Personality.insert, Personality.newVersion, Personality.versions, Personality.applied]

theorem rolledBack_failed (faults : Faults) {x : Progress} (hx : Unfinished σ raw x) :
    (rolledBack faults x).soulCore = σ.soulCore ∧ (rolledBack faults x).committed = σ.committed ∧
      (rolledBack faults x).soul = x.σ.soul ∧
        (faults .rollback = false → σ.uncommitted = [] → (rolledBack faults x).uncommitted = []) := by
  unfold rolledBack
  split
  · exact ⟨hx.soulCore, hx.committed, rfl, fun _ _ => rfl⟩
  · rename_i hno
    refine ⟨hx.soulCore, hx.committed, rfl, fun hrollback hnone => ?_⟩
    have hstarted : x.dbWriteStarted = false := by simpa [hrollback] using hno
    rw [hx.uncommitted hstarted, hnone]

theorem putBackSoul_failed (faults : Faults) {x : Progress} (hx : Unfinished σ raw x) :
    Failed faults σ raw (putBackSoul faults x (rolledBack faults x)).2 := by
  obtain ⟨hcore, hcommitted, hsoul, huncommitted⟩ := rolledBack_failed faults hx
  have hexists : (rolledBack faults x).soul.isSome = true := by
    rw [hsoul]
    exact hx.exists_soul
  unfold putBackSoul
  by_cases hpublished : x.soulPublished = true
  · rw [if_pos hpublished]
    have hback := hx.previousSoul hpublished
    by_cases hput : faults .putBackSoul = true
    · rw [if_pos hput]
      exact ⟨hcore, hcommitted, huncommitted, by simp [hput], hexists⟩
    · rw [if_neg hput]
      exact ⟨hcore, hcommitted, huncommitted, fun _ => Or.inr hback, by simp [hback]⟩
  · rw [if_neg hpublished]
    have hraw := hx.soul (by simpa using hpublished)
    exact ⟨hcore, hcommitted, huncommitted, fun _ => Or.inl (hsoul.trans hraw), hexists⟩

theorem putBackBackup_failed {x : Progress} {σ' : Personality} (previousBackup : Option Text) (h : Failed faults σ raw σ') :
    Failed faults σ raw (putBackBackup faults previousBackup x σ').2 := by
  unfold putBackBackup
  split
  · split
    · exact h
    · exact ⟨h.soulCore, h.committed, h.uncommitted, h.soul, h.exists_soul⟩
  · exact h

theorem putBack_failed {x : Progress} (previousBackup : Option Text) (hx : Unfinished σ raw x) :
    Failed faults σ raw (putBack faults previousBackup x).2 := by
  have hsoul := putBackSoul_failed faults hx
  unfold putBack
  rcases hput : putBackSoul faults x (rolledBack faults x) with ⟨_ | _, σ'⟩
  · rw [hput] at hsoul
    exact hsoul
  · rw [hput] at hsoul
    exact putBackBackup_failed previousBackup hsoul

theorem failed_refl (hsoul : σ.soul = some raw) : Failed faults σ raw σ :=
  ⟨rfl, rfl, fun _ h => h, fun _ => Or.inl hsoul, by simp [hsoul]⟩

/-- **An apply is done, or fails** and leaves what was recorded. -/
theorem applySection_cases (hsoul : σ.soul = some raw) :
    (∃ a, applySection cfg faults newSoul reason now σ = (.ok a, σ.applied cfg raw newSoul reason now)) ∨
      ∃ e σ', applySection cfg faults newSoul reason now σ = (.error e, σ') ∧ Failed faults σ raw σ' := by
  unfold applySection
  split
  · exact Or.inr ⟨_, _, rfl, failed_refl hsoul⟩
  · rcases attempt_cases hsoul with ⟨version, hok, happlied⟩ | ⟨s, herror, hunfinished⟩
    · rcases hattempt : attempt cfg faults newSoul reason now σ with ⟨x, r⟩
      rw [hattempt] at hok happlied
      simp only at hok happlied
      rw [hok]
      exact Or.inl ⟨_, by rw [← happlied]⟩
    · rcases hattempt : attempt cfg faults newSoul reason now σ with ⟨x, r⟩
      rw [hattempt] at herror hunfinished
      simp only at herror hunfinished
      rw [herror]
      simp only
      split
      · exact Or.inr ⟨_, _, rfl, putBack_failed _ hunfinished⟩
      · exact Or.inr ⟨_, _, rfl, putBack_failed _ hunfinished⟩

theorem applyEvolution_cases (cfg : Config) (faults : Faults) (newSoul reason now : Text) (scan : Bool) (hsoul : σ.soul = some raw) :
    (∃ a, applyEvolution cfg faults newSoul reason now scan σ = (.ok a, σ.applied cfg raw newSoul reason now)) ∨
      ∃ e σ', applyEvolution cfg faults newSoul reason now scan σ = (.error e, σ') ∧ Failed faults σ raw σ' := by
  unfold applyEvolution
  split
  · exact Or.inr ⟨_, _, rfl, failed_refl hsoul⟩
  · split
    · exact applySection_cases hsoul
    · exact Or.inr ⟨_, _, rfl, failed_refl hsoul⟩

end Specs

/-! ### Calls -/

inductive Request where
  | applyEvolution (newSoul reason : Text) (scan : Bool)
  | restoreFromBackup
  | reload

/-- A call, the time it has and what goes wrong in it. -/
structure Call where
  request : Request
  now : Text
  faults : Faults

def Call.run (cfg : Config) (c : Call) (σ : Personality) : Personality :=
  match c.request with
  | .applyEvolution newSoul reason scan => (applyEvolution cfg c.faults newSoul reason c.now scan σ).2
  | .restoreFromBackup => (restoreFromBackup cfg c.faults c.now σ).2
  | .reload => (reload cfg c.faults c.now σ).2

end CyClaw.Soul

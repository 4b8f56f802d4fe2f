/-
An apply that fails, and an apply taken back.

What an apply puts back it has read in text mode, and what a restore applies as well.  So a failed
apply leaves soul.md and its backup as they were where no file that it puts back has a carriage
return (`apply_all_or_nothing`), and restoring twice brings a new soul back where that one has none
(`restore_undoes_apply`).
-/
import CyClaw.Soul.Drift

namespace CyClaw.Soul

open PyText

/-! ### Carriage returns -/

def plainText (t : Text) : Bool := decide ('\r' ∉ t)

theorem readText_eq_iff {t : Text} : readText t = t ↔ plainText t = true := by
  rw [plainText, decide_eq_true_eq]
  constructor
  · intro h
    rw [← h]
    exact readText_plain t
  · exact readText_eq

theorem map_readText_eq_iff {t : Option Text} : t.map readText = t ↔ t.all plainText = true := by
  cases t with
  | none => simp
  | some t => simp [readText_eq_iff]

/-! ### An apply that fails -/

/-- A statement of the write section. -/
inductive WriteStep where
  | readBackup
  | readSoul
  | writeBackup
  | writeSoul
  | insert
  | maxVersion
  | commit

def WriteStep.statement : WriteStep → Statement
  | readBackup => .readBackup
  | readSoul => .readSoul
  | writeBackup => .writeBackup
  | writeSoul => .writeSoul
  | insert => .insert
  | maxVersion => .maxVersion
  | commit => .commit

/-- This one raises, and nothing else. -/
def WriteStep.faults (s : WriteStep) : Faults := fun s' => s' = s.statement

/-- soul.md has been replaced by then. -/
def WriteStep.afterSoul : WriteStep → Bool
  | insert => true
  | maxVersion => true
  | commit => true
  | _ => false

/-- The backup has been replaced by then, where there is a soul.md. -/
def WriteStep.afterBackup : WriteStep → Bool
  | writeSoul => true
  | s => s.afterSoul

/-- The files that are put back have no carriage return. -/
def WriteStep.putsBackPlain (s : WriteStep) (σ : Personality) : Bool :=
  (!s.afterSoul || σ.soul.all plainText) && (!s.afterBackup || σ.soul.isNone || σ.backup.all plainText)

/-- An apply does not get to the write section. -/
def refused (cfg : Config) (newSoul reason : Text) (scan : Bool) : Bool :=
  strip reason = [] || (scan && cfg.scanEnforced newSoul ≠ [])

/-- **Nothing has changed.** -/
structure Unchanged (σ σ' : Personality) : Prop where
  soul : σ'.soul = σ.soul
  backup : σ'.backup = σ.backup
  committed : σ'.committed = σ.committed
  uncommitted : σ.uncommitted = [] → σ'.uncommitted = []
  soulCore : σ'.soulCore = σ.soulCore

/-- What is left where the statement raises. -/
def WriteStep.leaves (s : WriteStep) (σ : Personality) : Personality where
  soul := if s.afterSoul then σ.soul.map readText else σ.soul
  backup := if s.afterBackup && σ.soul.isSome then σ.backup.map readText else σ.backup
  soulCore := σ.soulCore
  committed := σ.committed
  uncommitted := if s.afterSoul then [] else σ.uncommitted

section Apply

variable {cfg : Config} {newSoul reason now : Text} {scan : Bool} {σ : Personality}

theorem unchanged_leaves_iff (s : WriteStep) : Unchanged σ (s.leaves σ) ↔ s.putsBackPlain σ = true := by
  have hsoul : (s.leaves σ).soul = σ.soul ↔ (!s.afterSoul || σ.soul.all plainText) = true := by
    cases h : s.afterSoul <;> simp [WriteStep.leaves, h, ← map_readText_eq_iff]
  have hbackup : (s.leaves σ).backup = σ.backup ↔
      (!s.afterBackup || σ.soul.isNone || σ.backup.all plainText) = true := by
    cases h : s.afterBackup <;> cases h' : σ.soul <;> simp [WriteStep.leaves, h, h', ← map_readText_eq_iff]
  rw [WriteStep.putsBackPlain, Bool.and_eq_true, ← hsoul, ← hbackup]
  constructor
  · exact fun h => ⟨h.soul, h.backup⟩
  · rintro ⟨hs, hb⟩
    refine ⟨hs, hb, rfl, fun hnone => ?_, rfl⟩
    simp [WriteStep.leaves, hnone]

/-- The section raises what the statement does, or the statement is not come to. -/
theorem applySection_fails (s : WriteStep) :
    applySection cfg s.faults newSoul reason now σ = (.error (.raised s.statement), s.leaves σ) ∨
      s.afterBackup = false ∧ ∃ a, (applySection cfg s.faults newSoul reason now σ).1 = .ok a := by
  obtain ⟨soul, backup, soulCore, committed, uncommitted⟩ := σ
  cases s <;> cases soul <;> cases backup <;>
    simp [applySection, attempt, publishSoul, recordVersion, putBack, putBackSoul, putBackBackup, rolledBack,
      WriteStep.faults, WriteStep.statement, WriteStep.leaves, WriteStep.afterSoul, WriteStep.afterBackup,
      Personality.insert, Personality.rollback]

theorem applyEvolution_refused (faults : Faults) (h : refused cfg newSoul reason scan = true) :
    ∃ e, applyEvolution cfg faults newSoul reason now scan σ = (.error e, σ) := by
  simp only [refused, Bool.or_eq_true, decide_eq_true_eq, Bool.and_eq_true] at h
  unfold applyEvolution
  by_cases hreason : strip reason = []
  · rw [if_pos hreason]
    exact ⟨_, rfl⟩
  · obtain ⟨hscan, hflags⟩ := h.resolve_left hreason
    rw [if_neg hreason, if_pos hscan]
    cases hcase : cfg.scanEnforced newSoul with
    | nil => exact absurd hcase hflags
    | cons => exact ⟨_, rfl⟩

theorem applyEvolution_accepted (faults : Faults) (h : refused cfg newSoul reason scan = false) :
    applyEvolution cfg faults newSoul reason now scan σ = applySection cfg faults newSoul reason now σ := by
  simp only [refused, Bool.or_eq_false_iff, decide_eq_false_iff_not, Bool.and_eq_false_iff, not_not] at h
  obtain ⟨hreason, hscan⟩ := h
  unfold applyEvolution
  rw [if_neg hreason]
  cases scan with
  | false => rfl
  | true =>
    have hflags := hscan.resolve_left (by simp)
    rw [if_pos rfl, hflags]

end Apply

/-- **All or nothing**: a statement raises, what was done is put back, and nothing has changed. -/
theorem apply_all_or_nothing (cfg : Config) (s : WriteStep) (newSoul reason now : Text) (scan : Bool) (σ : Personality) :
    (∀ e σ', applyEvolution cfg s.faults newSoul reason now scan σ = (.error e, σ') → Unchanged σ σ') ↔
      refused cfg newSoul reason scan = true ∨ s.putsBackPlain σ = true := by
  by_cases hrefused : refused cfg newSoul reason scan = true
  · refine ⟨fun _ => Or.inl hrefused, fun _ e σ' h => ?_⟩
    obtain ⟨e', he'⟩ : ∃ e', applyEvolution cfg s.faults newSoul reason now scan σ = (.error e', σ) :=
      applyEvolution_refused s.faults hrefused
    rw [he', Prod.mk.injEq] at h
    rw [← h.2]
    exact ⟨rfl, rfl, rfl, id, rfl⟩
  rw [applyEvolution_accepted s.faults (Bool.eq_false_iff.mpr hrefused)]
  have hsection : applySection cfg s.faults newSoul reason now σ = (.error (.raised s.statement), s.leaves σ) ∨
      s.afterBackup = false ∧ ∃ a, (applySection cfg s.faults newSoul reason now σ).1 = .ok a := applySection_fails s
  rcases hsection with hfails | ⟨hbefore, a, ha⟩
  · rw [hfails, ← unchanged_leaves_iff]
    constructor
    · exact fun h => Or.inr (h _ _ rfl)
    · rintro (h | h) e σ' heq
      · exact absurd h hrefused
      · rw [Prod.mk.injEq] at heq
        rw [← heq.2]
        exact h
  · constructor
    · intro
      have hsoul : s.afterSoul = false := by
        cases s <;> first | rfl | cases hbefore
      exact Or.inr (by simp [WriteStep.putsBackPlain, hsoul, hbefore])
    · intro _ e σ' heq
      rw [heq] at ha
      cases ha

/-- The insert raises, and soul.md is put back with other line ends. -/
theorem apply_puts_back_lines :
    applyEvolution wideConfig WriteStep.insert.faults "c".toList "because".toList [] true
        ⟨some "a\r\nb".toList, none, [], [], []⟩ = (.error (.raised .insert), ⟨some "a\nb".toList, none, [], [], []⟩) ∧
      ¬ Unchanged ⟨some "a\r\nb".toList, none, [], [], []⟩ ⟨some "a\nb".toList, none, [], [], []⟩ := by
  constructor
  · have hread : readText "a\r\nb".toList = "a\nb".toList := by decide
    rw [applyEvolution_accepted _ (by decide +kernel), ← hread]
    rfl
  · intro h
    exact absurd h.soul (by decide)

/-! ### Restoring -/

section Restore

variable {cfg : Config} {s n reason now : Text} {scan : Bool} {σ : Personality}

/-- Nothing raises. -/
def noFaults : Faults := fun _ => false

theorem applySection_done (hsoul : σ.soul = some s) :
    (applySection cfg noFaults n reason now σ).2 = σ.applied cfg s n reason now := by
  obtain ⟨soul, backup, soulCore, committed, uncommitted⟩ := σ
  obtain rfl : soul = some s := hsoul
  simp [applySection, attempt, publishSoul, recordVersion, noFaults, Personality.applied, Personality.insert,
    Personality.newVersion, Personality.versions, Personality.commit]

/-- An apply that is accepted is done. -/
theorem applyEvolution_done (hsoul : σ.soul = some s) (h : refused cfg n reason scan = false) :
    (applyEvolution cfg noFaults n reason now scan σ).2 = σ.applied cfg s n reason now := by
  rw [applyEvolution_accepted noFaults h, applySection_done hsoul]

/-- A restore applies the backup, and what was in soul.md is the backup then. -/
theorem restoreFromBackup_done (hsoul : σ.soul = some n) (hbackup : σ.backup = some s) :
    (restoreFromBackup cfg noFaults now σ).2 = σ.applied cfg n (readText s) restoreReason now := by
  have haccepted : refused cfg (readText s) restoreReason false = false := by
    rw [refused, Bool.false_and, Bool.or_false]
    decide
  unfold restoreFromBackup
  rw [hbackup]
  exact applyEvolution_done hsoul haccepted

end Restore

/-- The step has added a row, with what soul.md has now. -/
def AddsVersion (σ σ' : Personality) : Prop :=
  ∃ row, σ'.versions = σ.versions ++ [row] ∧ σ'.soul = some row.content

/-- The new soul is applied, taken back, and brought back. -/
structure Undone (cfg : Config) (s n : Text) (σ applied restored again : Personality) : Prop where
  soul_applied : applied.soul = some n
  soul_restored : restored.soul = some s
  backup_restored : restored.backup = some n
  soulCore_restored : 0 ≤ cfg.soulMaxChars → restored.soulCore = s.take cfg.soulMaxChars.toNat
  soul_again : again.soul = some n
  rows : AddsVersion σ applied ∧ AddsVersion applied restored ∧ AddsVersion restored again

theorem boundedSoul_eq_take {cfg : Config} (h : 0 ≤ cfg.soulMaxChars) (t : Text) :
    boundedSoul cfg t = t.take cfg.soulMaxChars.toNat := by
  unfold boundedSoul
  by_cases hlong : cfg.soulMaxChars < t.length
  · rw [if_pos hlong, sliceTo, if_neg (Int.not_lt.mpr h)]
  · rw [if_neg hlong, List.take_of_length_le (by omega)]

theorem addsVersion_applied (cfg : Config) (raw n reason now : Text) (σ : Personality) :
    AddsVersion σ (σ.applied cfg raw n reason now) :=
  ⟨_, List.append_nil _, rfl⟩

/-- **A restore undoes an apply, and a second one undoes the first**, where the new soul has no carriage return. -/
theorem restore_undoes_apply (cfg : Config) (s n reason now now' now'' : Text) (scan : Bool) (σ : Personality)
    (hsoul : σ.soul = some s) (hplain : '\r' ∉ s) (haccepted : refused cfg n reason scan = false) :
    let applied := (applyEvolution cfg noFaults n reason now scan σ).2
    let restored := (restoreFromBackup cfg noFaults now' applied).2
    Undone cfg s n σ applied restored (restoreFromBackup cfg noFaults now'' restored).2 ↔ '\r' ∉ n := by
  have hs : readText s = s := readText_eq hplain
  simp only [applyEvolution_done hsoul haccepted]
  rw [restoreFromBackup_done (s := readText s) rfl rfl, restoreFromBackup_done (s := readText n) rfl rfl]
  simp only [hs, readText_readText]
  constructor
  · intro h
    have hn := Option.some.inj h.soul_again
    rw [← hn]
    exact readText_plain n
  · intro hn
    have hn' : readText n = n := readText_eq hn
    simp only [hn']
    refine ⟨rfl, rfl, ?_, fun hmax => boundedSoul_eq_take hmax s, rfl, ?_⟩
    · show some (readText n) = some n
      rw [hn']
    · exact ⟨addsVersion_applied .., addsVersion_applied .., addsVersion_applied ..⟩

theorem restore_undoes_apply_newline :
    Undone wideConfig "old".toList "a\nb".toList ⟨some "old".toList, none, [], [], []⟩
      (applyEvolution wideConfig noFaults "a\nb".toList "because".toList [] true ⟨some "old".toList, none, [], [], []⟩).2
      (restoreFromBackup wideConfig noFaults []
        (applyEvolution wideConfig noFaults "a\nb".toList "because".toList [] true ⟨some "old".toList, none, [], [], []⟩).2).2
      (restoreFromBackup wideConfig noFaults [] (restoreFromBackup wideConfig noFaults []
        (applyEvolution wideConfig noFaults "a\nb".toList "because".toList [] true
          ⟨some "old".toList, none, [], [], []⟩).2).2).2 :=
  (restore_undoes_apply wideConfig "old".toList "a\nb".toList "because".toList [] [] [] true
    ⟨some "old".toList, none, [], [], []⟩ rfl (by decide) (by decide +kernel)).mpr (by decide)

/-- The second restore brings the text back with another line end. -/
theorem restored_lines :
    let applied := (applyEvolution wideConfig noFaults "a\rb".toList "because".toList [] true
      ⟨some "old".toList, none, [], [], []⟩).2
    let restored := (restoreFromBackup wideConfig noFaults [] applied).2
    let again := (restoreFromBackup wideConfig noFaults [] restored).2
    applied.soul = some "a\rb".toList ∧ restored.soul = some "old".toList ∧ again.soul = some "a\nb".toList ∧
      ¬ Undone wideConfig "old".toList "a\rb".toList ⟨some "old".toList, none, [], [], []⟩ applied restored again := by
  have hagain : (restoreFromBackup wideConfig noFaults [] (restoreFromBackup wideConfig noFaults []
      (applyEvolution wideConfig noFaults "a\rb".toList "because".toList [] true
        ⟨some "old".toList, none, [], [], []⟩).2).2).2.soul = some "a\nb".toList := by decide +kernel
  refine ⟨by decide +kernel, by decide +kernel, hagain, fun h => ?_⟩
  have hsoul := h.soul_again
  rw [hagain] at hsoul
  exact absurd hsoul (by decide)

end CyClaw.Soul

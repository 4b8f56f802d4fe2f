/-
Soul changes, one at a time.

`Call.next` is what the threads do: the critical sections are one step each, and every look at the
files outside of them is one of its own.  Where soul.md exists, a `reload` and an `apply_evolution`
do all they do in their last step.  A `restore_from_backup` applies what it has read before, so it
is as if it were alone where the backup still reads the same (`undisturbed`); with that the state is
what the calls make of it in the order in which they end (`changes_serialised`).

Nothing keeps an apply from coming in between: then soul.md is the old backup and the backup is
what was applied, which no order gives (`restore_overtaken`).
-/
import CyClaw.Lib.Serial
import CyClaw.Soul.Manager
import Mathlib.Data.List.Permutation

namespace CyClaw.Soul

open Serial

inductive Place where
  | called
  /-- A reload has seen that there is a soul.md. -/
  | loading
  /-- And has seen that there is none. -/
  | creating
  | writing
  | recording
  | publishing
  /-- A restore has seen that there is a backup. -/
  | reading
  | holding (backup : Text)
deriving DecidableEq

/-- A step that goes on unless it raises. -/
def goOn (g : Place) (x : Except SoulError Unit × Personality) : Option Place × Personality :=
  match x.1 with
  | .ok _ => (some g, x.2)
  | .error _ => (none, x.2)

def Call.next (cfg : Config) (c : Call) (g : Place) (σ : Personality) : Option Place × Personality :=
  match c.request, g with
  | .applyEvolution newSoul reason scan, _ => (none, (applyEvolution cfg c.faults newSoul reason c.now scan σ).2)
  | .restoreFromBackup, .called => if σ.backup.isSome then (some .reading, σ) else (none, σ)
  | .restoreFromBackup, .reading =>
      match σ.backup with
      | none => (none, σ)
      | some raw => if c.faults .readRestored then (none, σ) else (some (.holding (readText raw)), σ)
  | .restoreFromBackup, .holding backup =>
      (none, (applyEvolution cfg c.faults backup restoreReason c.now false σ).2)
  | .reload, .called => if σ.soul.isSome then (some .loading, σ) else (some .creating, σ)
  | .reload, .loading => (none, (loadSection cfg c.faults c.now σ).2)
  | .reload, .creating => goOn .writing (createSoul c.faults σ)
  | .reload, .writing => goOn .recording (writeDefault c.faults σ)
  | .reload, .recording => goOn .publishing (recordDefault cfg c.faults c.now σ)
  | .reload, .publishing => (none, (publishDefault σ).2)
  | _, _ => (none, σ)

/-- Where a call may be while there is a soul.md. -/
def Call.MayBeAt (c : Call) : Place → Prop
  | .called => True
  | .loading => c.request = .reload
  | .reading => c.request = .restoreFromBackup
  | .holding _ => c.request = .restoreFromBackup ∧ c.faults .readRestored = false
  | _ => False

section Threads

variable {κ : Type} [DecidableEq κ] {cfg : Config} {calls : κ → Call} {σ : Personality}

abbrev Changes (κ : Type) := World κ Place Personality

def changesStep (cfg : Config) (calls : κ → Call) : κ → Changes κ → Option (Changes κ) :=
  step fun k => (calls k).next cfg

/-- A restore that is about to apply what it has read would read it again. -/
def undisturbed (w : Changes κ) (k : κ) : Bool :=
  match w.place k with
  | some (.holding backup) => w.state.backup.map readText = some backup
  | _ => true

/-! ### One call -/

theorem loadVersion_soul {faults : Faults} {now content reason : Text} :
    (loadVersion cfg faults now content reason σ).2.soul = σ.soul := by
  unfold loadVersion
  split
  · rfl
  · simp only
    split
    · rfl
    · rfl

theorem loadSection_soul {faults : Faults} {now : Text} : (loadSection cfg faults now σ).2.soul = σ.soul := by
  unfold loadSection
  split
  · rfl
  simp only
  split
  · rfl
  split
  · rfl
  split
  · exact loadVersion_soul
  · split
    · rfl
    · exact loadVersion_soul

theorem applyEvolution_isSome {faults : Faults} {newSoul reason now : Text} {scan : Bool} (h : σ.soul.isSome = true) :
    (applyEvolution cfg faults newSoul reason now scan σ).2.soul.isSome = true := by
  obtain ⟨raw, hraw⟩ := Option.isSome_iff_exists.mp h
  rcases applyEvolution_cases cfg faults newSoul reason now scan hraw with ⟨a, happlied⟩ | ⟨e, σ', herror, hfailed⟩
  · rw [happlied]
    rfl
  · rw [herror]
    exact hfailed.exists_soul

/-- No call takes soul.md away. -/
theorem run_isSome (c : Call) (h : σ.soul.isSome = true) : (c.run cfg σ).soul.isSome = true := by
  unfold Call.run
  split
  · exact applyEvolution_isSome h
  · unfold restoreFromBackup
    split
    · exact h
    · split
      · exact h
      · exact applyEvolution_isSome h
  · unfold reload loadSoul
    rw [if_pos h, loadSection_soul]
    exact h

/-- What a restore holds is what it would read. -/
def Place.Fresh (g : Place) (σ : Personality) : Prop := ∀ backup, g = .holding backup → σ.backup.map readText = some backup

/-- **A step looks, or does what the call does when it is alone.** -/
theorem next_cases (cfg : Config) {c : Call} {g : Place} (hsoul : σ.soul.isSome = true) (hplace : c.MayBeAt g) :
    (∃ g', c.next cfg g σ = (some g', σ) ∧ c.MayBeAt g') ∨
      ∃ σ', c.next cfg g σ = (none, σ') ∧ (g.Fresh σ → σ' = c.run cfg σ) := by
  obtain ⟨request, now, faults⟩ := c
  cases request with
  | applyEvolution newSoul reason scan => exact Or.inr ⟨_, rfl, fun _ => rfl⟩
  | restoreFromBackup =>
    cases g with
    | called =>
      cases hbackup : σ.backup with
      | none => exact Or.inr ⟨σ, by simp [Call.next, hbackup], fun _ => by simp [Call.run, restoreFromBackup, hbackup]⟩
      | some raw => exact Or.inl ⟨.reading, by simp [Call.next, hbackup], rfl⟩
    | reading =>
      cases hbackup : σ.backup with
      | none => exact Or.inr ⟨σ, by simp [Call.next, hbackup], fun _ => by simp [Call.run, restoreFromBackup, hbackup]⟩
      | some raw =>
        by_cases hread : faults .readRestored = true
        · refine Or.inr ⟨σ, by simp [Call.next, hbackup, hread], fun _ => ?_⟩
          simp [Call.run, restoreFromBackup, hbackup, hread]
        · exact Or.inl ⟨.holding (readText raw), by simp [Call.next, hbackup, hread], rfl, by simpa using hread⟩
    | holding backup =>
      refine Or.inr ⟨_, rfl, fun hfresh => ?_⟩
      obtain ⟨raw, hbackup, hraw⟩ := Option.map_eq_some_iff.mp (hfresh backup rfl)
      have hread : faults .readRestored = false := hplace.2
      simp [Call.run, restoreFromBackup, hbackup, hraw, hread]
    | loading => exact absurd hplace (by simp [Call.MayBeAt])
    | _ => exact hplace.elim
  | reload =>
    cases g with
    | called => exact Or.inl ⟨.loading, by simp [Call.next, hsoul], rfl⟩
    | loading =>
      refine Or.inr ⟨_, rfl, fun _ => ?_⟩
      simp [Call.run, reload, loadSoul, hsoul]
    | reading => exact absurd hplace (by simp [Call.MayBeAt])
    | holding _ => exact absurd hplace (by simp [Call.MayBeAt])
    | _ => exact hplace.elim

omit [DecidableEq κ] in
theorem once_changes : Once (fun k => (calls k).next cfg) (fun k => (calls k).run cfg) undisturbed
    (fun σ : Personality => σ.soul.isSome = true) (fun k g => (calls k).MayBeAt g) where
  looks := by
    intro w k g g' s hturn hnext
    rcases next_cases cfg hturn.state hturn.place with ⟨g₁, heq, hplace⟩ | ⟨s', heq, -⟩
    · rw [hnext] at heq
      simp only [Prod.mk.injEq, Option.some.injEq] at heq
      obtain ⟨rfl, rfl⟩ := heq
      exact ⟨rfl, hplace⟩
    · rw [hnext] at heq
      cases heq
  acts := by
    intro w k g s hturn hnext
    rcases next_cases cfg hturn.state hturn.place with ⟨g₁, heq, -⟩ | ⟨s', heq, hrun⟩
    · rw [hnext] at heq
      cases heq
    · rw [hnext] at heq
      simp only [Prod.mk.injEq, true_and] at heq
      rw [heq]
      refine hrun ?_
      rintro backup rfl
      have hallowed := hturn.allowed
      rw [undisturbed, hturn.at_place] at hallowed
      exact of_decide_eq_true hallowed
  keeps := fun {k s} h => run_isSome (calls k) h

/-- **Changes are serialised** where no restore is overtaken: the state is what the calls that are over make of it one
at a time, in the order in which they ended. -/
theorem changes_serialised {w : Changes κ} (hsoul : σ.soul.isSome = true)
    (h : Runs.Later (changesStep cfg calls) undisturbed (World.initial (fun _ => .called) σ) w) :
    ∃ order : List κ, order.Nodup ∧ (∀ k, k ∈ order ↔ w.place k = none) ∧
      w.state = order.foldl (fun σ k => (calls k).run cfg σ) σ := by
  have hcalled : ∀ k, (calls k).MayBeAt .called := fun _ => trivial
  have hserialised := once_changes.serialised hsoul hcalled h
  exact ⟨w.order, hserialised.nodup, hserialised.finished, hserialised.state⟩

end Threads

/-! ### A restore and an apply -/

def plainConfig : Config := ⟨id, fun _ => [], 8000⟩

/-- The first call restores, the second applies. -/
def restoreAndApply (k : Fin 2) : Call :=
  if k = 0 then ⟨.restoreFromBackup, [], fun _ => false⟩
  else ⟨.applyEvolution "C".toList "because".toList true, [], fun _ => false⟩

/-- soul.md has A, and the backup has B. -/
def aWithBackup : Personality :=
  ⟨some "A".toList, some "B".toList, "A".toList, [⟨1, "A".toList, "A".toList, "initial_load".toList, []⟩], []⟩

theorem changes_serialised_restored :
    ∃ w : Changes (Fin 2),
      Runs.Later (changesStep plainConfig restoreAndApply) undisturbed (World.initial (fun _ => .called) aWithBackup) w ∧
        (∃ order : List (Fin 2), order.Nodup ∧ (∀ k, k ∈ order ↔ w.place k = none) ∧
          w.state = order.foldl (fun σ k => (restoreAndApply k).run plainConfig σ) aWithBackup) ∧
        w.place 0 = none ∧ w.place 1 = none ∧ w.state.soul = some "C".toList := by
  obtain ⟨w, hrun, hw⟩ := (Option.any_eq_true _ _).mp (show (Runs.run (changesStep plainConfig restoreAndApply) undisturbed
    [0, 0, 0, 1] (World.initial (fun _ => .called) aWithBackup)).any (fun w =>
      decide (w.place 0 = none ∧ w.place 1 = none ∧ w.state.soul = some "C".toList)) = true by decide +kernel)
  have hlater := Runs.Later.of_run hrun
  exact ⟨w, hlater, changes_serialised rfl hlater, of_decide_eq_true hw⟩

/-- The restore has read B when C is applied, and applies B: soul.md is B and its backup C, and no order of the two calls
leaves that. -/
theorem restore_overtaken :
    ∃ w : Changes (Fin 2),
      Runs.Later (changesStep plainConfig restoreAndApply) (fun _ _ => true) (World.initial (fun _ => .called) aWithBackup) w ∧
        (∀ k, w.place k = none) ∧ w.state.soul = some "B".toList ∧ w.state.backup = some "C".toList ∧
        ∀ order : List (Fin 2), order.Nodup → (∀ k, k ∈ order) →
          w.state ≠ order.foldl (fun σ k => (restoreAndApply k).run plainConfig σ) aWithBackup := by
  obtain ⟨w, hrun, hw⟩ := (Option.any_eq_true _ _).mp (show (Runs.run (changesStep plainConfig restoreAndApply)
    (fun _ _ => true) [0, 0, 1, 0] (World.initial (fun _ => .called) aWithBackup)).any (fun w =>
      decide ((∀ k, w.place k = none) ∧ w.state.soul = some "B".toList ∧ w.state.backup = some "C".toList)) = true by decide +kernel)
  obtain ⟨hover, hsoul, hbackup⟩ := of_decide_eq_true hw
  refine ⟨w, Runs.Later.of_run hrun, hover, hsoul, hbackup, ?_⟩
  intro order hnodup hall hstate
  have hperm : order.Perm [0, 1] := by
    refine (List.perm_ext_iff_of_nodup hnodup (by decide)).mpr fun k => ?_
    have hmem : k ∈ ([0, 1] : List (Fin 2)) := by
      revert k
      decide
    exact iff_of_true (hall k) hmem
  have horders : order = [0, 1] ∨ order = [1, 0] := by
    have hmem := List.mem_permutations'.mpr hperm
    simpa using hmem
  -- One order ends with the apply, the other one with the restore of A.
  rcases horders with rfl | rfl
  · rw [hstate] at hsoul
    exact absurd hsoul (by decide)
  · rw [hstate] at hsoul
    exact absurd hsoul (by decide)

end CyClaw.Soul

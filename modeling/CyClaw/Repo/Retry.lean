/-
A failed approve, and the next one.

The checks stand before git is touched, so that a record that fails one of them leaves no
branch behind.  The three git commands behind the checks have no such order: the branch is
made first, and it stays when the files cannot be staged or the index cannot be committed.
A failed approve leaves git as it was exactly when it did not get past making the branch
(`failed_approve_unchanged_iff`).  Where it did, every later approve of the record stops at
the branch, which exists (`retry_after_branch`).
-/
import CyClaw.Repo.Approve

namespace CyClaw.Repo

open PyText

/-- What an approve may not have touched when it fails. -/
structure SameGit (c c' : Clone) : Prop where
  branches : c'.git.branches = c.git.branches
  branch : c'.git.branch = c.git.branch
  index : c'.git.index = c.git.index
  headId : c'.git.headId = c.git.headId
  head : c'.git.head = c.git.head

/-- The manifest, the disposable copy and the protected paths let the record through. -/
def Cleared (tools : Tools) (sha : Sha256) (run : GitRun) (rec : Record) (protectedWritePaths : List Text)
    (c : Clone) : Prop :=
  verifyManifest tools sha c rec = true ∧ run.copyOk = true ∧
    rec.changedFiles.filter (matchesProtectedPath tools.unicode · protectedWritePaths) = []

/-- `checkout_branch` makes the branch. -/
def MakesBranch (tools : Tools) (preferred : Text) (run : GitRun) (rec : Record) (c : Clone) : Prop :=
  tools.allowGitWriteTools = true ∧ branchNameRe preferred rec.branchName = true ∧ run.checkoutOk = true ∧
    rec.branchName ∉ c.git.branches

/-- `add` stages every recorded path. -/
def Stages (tools : Tools) (run : GitRun) (rec : Record) (c : Clone) : Prop :=
  rec.changedFiles ≠ [] ∧ run.addOk = true ∧
    ∃ locations, validateAll tools c.tree rec.changedFiles = .ok locations ∧
      locations.any c.git.leavesOut = false

/-- `add` and `commit` both come through. -/
def Commits (tools : Tools) (run : GitRun) (rec : Record) (c : Clone) : Prop :=
  Stages tools run rec c ∧ strip rec.commitMessage ≠ [] ∧ run.commitOk = true

section Approve

variable {tools : Tools} {sha : Sha256} {preferred : Text} {run : GitRun} {rec : Record}
  {protectedWritePaths : List Text} {c : Clone}

/-! ### Up to the branch nothing is touched -/

theorem finalize_of_not_cleared (h : ¬ Cleared tools sha run rec protectedWritePaths c) :
    ∃ e, finalizeRealRepoChange tools sha preferred run rec .approve protectedWritePaths c = (.error e, c) := by
  simp only [finalizeRealRepoChange]
  split
  · exact ⟨_, rfl⟩
  · rename_i hmanifest
    split
    · exact ⟨_, rfl⟩
    · rename_i hcopy
      split
      · rename_i hscope
        exact absurd ⟨by simpa using hmanifest, by simpa using hcopy, hscope⟩ h
      · exact ⟨_, rfl⟩

theorem finalize_of_cleared (h : Cleared tools sha run rec protectedWritePaths c) :
    finalizeRealRepoChange tools sha preferred run rec .approve protectedWritePaths c =
      commitChange tools preferred run rec c := by
  obtain ⟨hmanifest, hcopy, hscope⟩ := h
  simp [finalizeRealRepoChange, hmanifest, hcopy, hscope]

theorem commitChange_of_no_branch (h : ¬ MakesBranch tools preferred run rec c) :
    commitChange tools preferred run rec c = (.error .checkoutBranch, c) := by
  unfold commitChange
  rw [if_pos]
  by_contra hno
  push Not at hno
  obtain ⟨htools, hname, hrun, hnew⟩ := hno
  exact h ⟨by simpa using htools, by simpa using hname, by simpa using hrun, hnew⟩

/-! ### Behind the branch it stays -/

theorem commitChange_branches (h : MakesBranch tools preferred run rec c) :
    (commitChange tools preferred run rec c).2.git.branches = rec.branchName :: c.git.branches := by
  obtain ⟨htools, hname, hrun, hnew⟩ := h
  simp only [commitChange, htools, hname, hrun, hnew, Bool.true_eq_false, or_self, ↓reduceIte]
  split
  · rfl
  · split
    · rfl
    · split
      · rfl
      · split
        · rfl
        · split <;> rfl

theorem commitChange_ok_iff (h : MakesBranch tools preferred run rec c) :
    (∃ f, (commitChange tools preferred run rec c).1 = .ok f) ↔ Commits tools run rec c := by
  obtain ⟨htools, hname, hrun, hnew⟩ := h
  simp only [commitChange, htools, hname, hrun, hnew, Bool.true_eq_false, or_self, ↓reduceIte]
  unfold Commits Stages
  split
  · rename_i hempty
    simp [hempty]
  · rename_i hfiles
    split
    · rename_i e hinvalid
      simp [hinvalid]
    · rename_i locations hvalid
      simp only [hvalid, Except.ok.injEq, exists_eq_left']
      split
      · rename_i hgit
        rcases hgit with hadd | hout
        · simp [hadd]
        · simp only [hout, Bool.true_eq_false, and_false, false_and, reduceCtorEq, exists_false]
      · rename_i hgit
        push Not at hgit
        have hadd : run.addOk = true := by simpa using hgit.1
        have hout : locations.any c.git.leavesOut = false := by simpa using hgit.2
        split
        · rename_i hblank
          simp [hblank]
        · rename_i hmessage
          split
          · rename_i hcommit
            simp [hcommit]
          · rename_i hcommit
            simp only [hadd, hout, hcommit, hfiles, hmessage, Except.ok.injEq, exists_eq', and_self, ne_eq,
              not_false_eq_true]

/-- A failed approve stopped before git, or it left the branch. -/
theorem failed_approve_cases {e : FinalizeError}
    (h : (finalizeRealRepoChange tools sha preferred run rec .approve protectedWritePaths c).1 = .error e) :
    (finalizeRealRepoChange tools sha preferred run rec .approve protectedWritePaths c).2 = c ∨
      (Cleared tools sha run rec protectedWritePaths c ∧ MakesBranch tools preferred run rec c ∧
        ¬ Commits tools run rec c) := by
  by_cases hcleared : Cleared tools sha run rec protectedWritePaths c
  · rw [finalize_of_cleared hcleared] at h ⊢
    by_cases hbranch : MakesBranch tools preferred run rec c
    · right
      refine ⟨hcleared, hbranch, ?_⟩
      intro hcommits
      obtain ⟨f, hf⟩ := (commitChange_ok_iff hbranch).mpr hcommits
      rw [hf] at h
      cases h
    · left
      rw [commitChange_of_no_branch hbranch]
  · obtain ⟨e', he'⟩ := @finalize_of_not_cleared tools sha preferred run rec protectedWritePaths c hcleared
    left
    rw [he']

/-- **A failed approve leaves git as it was exactly when it does not fail behind the branch**:
once the checks are passed and the branch is made, the staging and the commit have to come
through. -/
theorem failed_approve_unchanged_iff :
    (∀ e, (finalizeRealRepoChange tools sha preferred run rec .approve protectedWritePaths c).1 = .error e →
      SameGit c (finalizeRealRepoChange tools sha preferred run rec .approve protectedWritePaths c).2) ↔
    (Cleared tools sha run rec protectedWritePaths c → MakesBranch tools preferred run rec c →
      Commits tools run rec c) := by
  constructor
  · intro hsame hcleared hbranch
    rw [finalize_of_cleared hcleared] at hsame
    by_contra hnot
    cases hresult : (commitChange tools preferred run rec c).1 with
    | ok f => exact hnot ((commitChange_ok_iff hbranch).mp ⟨f, hresult⟩)
    | error e =>
        have hkept := (hsame e hresult).branches
        rw [commitChange_branches hbranch] at hkept
        exact List.cons_ne_self _ _ hkept
  · intro hcommits e he
    rcases failed_approve_cases he with hsame | ⟨hcleared, hbranch, hnot⟩
    · rw [hsame]
      exact ⟨rfl, rfl, rfl, rfl, rfl⟩
    · exact absurd (hcommits hcleared hbranch) hnot

/-! ### The retry -/

/-- Once the branch exists, an approve fails whatever is done about the cause of the first
failure, and leaves the clone as it found it. -/
theorem approve_of_branch_exists (h : rec.branchName ∈ c.git.branches) :
    ∃ e, finalizeRealRepoChange tools sha preferred run rec .approve protectedWritePaths c = (.error e, c) := by
  by_cases hcleared : Cleared tools sha run rec protectedWritePaths c
  · have hbranch : ¬ MakesBranch tools preferred run rec c := by
      intro hmakes
      exact hmakes.2.2.2 h
    rw [finalize_of_cleared hcleared, commitChange_of_no_branch hbranch]
    exact ⟨_, rfl⟩
  · exact finalize_of_not_cleared hcleared

/-- **A retry after a failure behind the branch fails**, under every other policy and with
every other outcome of the programs. -/
theorem retry_after_branch (hcleared : Cleared tools sha run rec protectedWritePaths c)
    (hbranch : MakesBranch tools preferred run rec c) (tools' : Tools) (preferred' : Text) (run' : GitRun)
    (protectedWritePaths' : List Text) :
    ∃ e, (finalizeRealRepoChange tools' sha preferred' run' rec .approve protectedWritePaths'
      (finalizeRealRepoChange tools sha preferred run rec .approve protectedWritePaths c).2).1 = .error e := by
  have hleft : rec.branchName ∈
      (finalizeRealRepoChange tools sha preferred run rec .approve protectedWritePaths c).2.git.branches := by
    rw [finalize_of_cleared hcleared, commitChange_branches hbranch]
    exact List.mem_cons_self
  obtain ⟨e, he⟩ := @approve_of_branch_exists tools' sha preferred' run' rec protectedWritePaths' _ hleft
  exact ⟨e, by rw [he]⟩

end Approve

/-! ### A file that the ignore files leave out -/

/-- The tool whose refusal or whose command ended an approve. -/
def failedTool : Except FinalizeError Finalized → Option Text
  | .error .checkoutBranch => some "checkout_branch".toList
  | .error (.add _) => some "add".toList
  | .error .gitAdd => some "add".toList
  | .error .commitMessage => some "commit".toList
  | .error .gitCommit => some "commit".toList
  | _ => none

theorem error_of_failedTool {r : Except FinalizeError Finalized} {tool : Text} (h : failedTool r = some tool) :
    ∃ e, r = .error e := by
  cases r with
  | ok f => cases f <;> cases h
  | error e => exact ⟨e, rfl⟩

/-- The run wrote a source file that `.gitignore` names. -/
def ignoringClone : Clone :=
  { pendingClone with git := { pendingClone.git with ignored := (· = parts "src/a.py".toList) } }

theorem retry_after_ignored : ∃ e, (decided (decided ignoringClone sourceRecord).2 sourceRecord).1 = .error e :=
  retry_after_branch ⟨by decide +kernel, rfl, by decide +kernel⟩ ⟨rfl, by decide +kernel, rfl, by decide +kernel⟩ _ _ _ _

/-- **`git add` refuses the ignored file and the branch stays.**  The second approve fails at
the branch. -/
theorem ignored_file_leaves_branch :
    failedTool (decided ignoringClone sourceRecord).1 = some "add".toList ∧
      ignoringClone.git.branches = ["main".toList] ∧
      (decided ignoringClone sourceRecord).2.git.branches = ["agent/fix".toList, "main".toList] ∧
      (decided ignoringClone sourceRecord).2.git.branch = "agent/fix".toList ∧
      failedTool (decided (decided ignoringClone sourceRecord).2 sourceRecord).1 = some "checkout_branch".toList ∧
      ¬ (∀ e, (decided ignoringClone sourceRecord).1 = .error e →
        SameGit ignoringClone (decided ignoringClone sourceRecord).2) := by
  have hfails : failedTool (decided ignoringClone sourceRecord).1 = some "add".toList := by decide +kernel
  have hbranches : (decided ignoringClone sourceRecord).2.git.branches = ["agent/fix".toList, "main".toList] := by
    decide +kernel
  refine ⟨hfails, rfl, hbranches, by decide +kernel, by decide +kernel, ?_⟩
  intro hsame
  obtain ⟨e, he⟩ := error_of_failedTool hfails
  have hkept := (hsame e he).branches
  rw [hbranches] at hkept
  exact absurd hkept (by decide)

end CyClaw.Repo

/-
One pull request per run.

What a command can do is said once, as a relation between the record it finds and the record
and the calls it leaves (`Does`, `command_does`).  Over a run of commands the guard against a
second publish is the field `pr_url`, which is filled from what `gh` printed: an accepted call
closes the guard as long as it printed something (`one_pull_request`), and leaves it open when
it printed nothing (`silent_create_repeated`).  That no pull request is opened before the run
is approved and pushed holds whatever `gh` prints.
-/
import CyClaw.Repo.Escalation
import CyClaw.Lib.Runs

namespace CyClaw.Repo.Commands

open PyText

/-! ### What a call counts for -/

def Call.creates : Call → Bool
  | .ghPrCreate _ _ => true
  | _ => false

/-- A call that GitHub took, or may have taken. -/
def GhRun.counts : GhRun → Bool
  | .exited code _ => code = 0
  | .timedOut => true
  | .notStarted => false

def Call.counts : Call → Bool
  | .ghPrCreate _ run => run.counts
  | _ => false

/-- Where `gh` exits with 0 it prints something other than white space. -/
def GhRun.prints : GhRun → Bool
  | .exited code stdout => code ≠ 0 || strip stdout ≠ []
  | _ => true

/-- What a call leaves in `pr_url`. -/
def GhRun.url (old : Option Text) : GhRun → Option Text
  | .exited code stdout => if code ≠ 0 then old else if strip stdout = [] then none else some (strip stdout)
  | .timedOut => some indeterminateUrl
  | .notStarted => old

/-- At most one pull request is opened, or may have been. -/
def AtMostOne (calls : List Call) : Prop := (calls.filter Call.counts).length ≤ 1

/-- Every attempt at a pull request comes after the approval and the push, each of them
recorded before the first command or made by one. -/
def AfterPush (first : RealRepoRunRecord) (calls : List Call) : Prop :=
  Runs.Each (fun before call => call.creates = true →
    (first.status = approvedStatus ∨ .approved ∈ before) ∧ (first.pushed = true ∨ .pushed ∈ before)) calls

/-! ### What a command does -/

/-- The commands that may open a pull request. -/
def Command.publishes : Command → Bool
  | .decide args => args.publish
  | .push => false
  | .publish _ _ => true

/-- The record and the calls that a command leaves where it found `r`. -/
inductive Does (publishes : Bool) (gh : GhRun) (r : RealRepoRunRecord) : RealRepoRunRecord → List Call → Prop where
  | nothing : Does publishes gh r r []
  | rejects : r.status = pendingDecision → Does publishes gh r { r with status := rejectedStatus } []
  | approves : r.status = pendingDecision → Does publishes gh r { r with status := approvedStatus } [.approved]
  | approvesAndPushes : r.status = pendingDecision →
      Does publishes gh r { r with status := approvedStatus, pushed := true } [.approved, .pushed]
  /-- The command ended before the push was saved. -/
  | losesPush : r.status = pendingDecision → Does publishes gh r { r with status := approvedStatus } [.approved, .pushed]
  | escalates (argv : List Text) : publishes = true → r.status = pendingDecision →
      Does publishes gh r { r with status := approvedStatus, pushed := true, prUrl := gh.url r.prUrl }
        [.approved, .pushed, .ghPrCreate argv gh]
  | pushes : r.status = approvedStatus → Does publishes gh r { r with pushed := true } [.pushed]
  | opens (argv : List Text) : publishes = true → r.status = approvedStatus → r.pushed = true → r.hasPr = false →
      Does publishes gh r { r with prUrl := gh.url r.prUrl } [.ghPrCreate argv gh]

section Commands

variable {env : Surroundings} {cfg : AgenticConfig} {r disk : RealRepoRunRecord} {reason : Option Text}
  {confirm : Bool}

theorem requireGates_error {e : Raised} (h : requireGates cfg reason confirm = .error e) :
    ∃ gate, e = .agenticWriteRefused gate := by
  simp only [requireGates] at h
  split at h
  · exact ⟨_, (Except.error.inj h).symm⟩
  · split at h
    · exact ⟨_, (Except.error.inj h).symm⟩
    · split at h
      · exact ⟨_, (Except.error.inj h).symm⟩
      · split at h
        · exact ⟨_, (Except.error.inj h).symm⟩
        · split at h
          · exact ⟨_, (Except.error.inj h).symm⟩
          · cases h

theorem buildWriteArgv_error {preferred repo : Text} {params : PrParams} {e : Raised}
    (h : buildWriteArgv preferred repo params = .error e) : e = .agenticError false := by
  unfold buildWriteArgv at h
  split at h
  · exact (Except.error.inj h).symm
  · split at h
    · exact (Except.error.inj h).symm
    · cases h

/-- An execution stops before `gh` and is not indeterminate, or it is the one attempt. -/
theorem executeWrite_cases (plan : Plan) :
    (∃ e, executeWrite env cfg plan confirm = (.error e, []) ∧ e ≠ .agenticError true) ∨
    ∃ argv, env.gh ≠ .notStarted ∧
      executeWrite env cfg plan confirm = (env.gh.result, [.ghPrCreate argv env.gh]) := by
  unfold executeWrite
  split
  · exact .inl ⟨_, rfl, Raised.noConfusion⟩
  · split
    · rename_i e hgates
      obtain ⟨gate, rfl⟩ := requireGates_error hgates
      exact .inl ⟨_, rfl, Raised.noConfusion⟩
    · split
      · exact .inl ⟨_, rfl, Raised.noConfusion⟩
      · split
        · rename_i e hargv
          rw [buildWriteArgv_error hargv]
          exact .inl ⟨_, rfl, by decide⟩
        · split
          · exact .inl ⟨_, rfl, Raised.noConfusion⟩
          · split
            · exact .inl ⟨_, rfl, by decide⟩
            · by_cases hgh : env.gh = .notStarted
              · left
                rw [hgh]
                exact ⟨.osError, rfl, Raised.noConfusion⟩
              · right
                rw [if_neg hgh]
                exact ⟨_, hgh, rfl⟩

/-- A publish leaves the record alone, or it called `gh` and the record holds what came of it. -/
theorem publishRecord_cases :
    ((publishRecord env cfg r reason confirm).calls = [] ∧ (publishRecord env cfg r reason confirm).record = r) ∨
    ∃ argv, (publishRecord env cfg r reason confirm).calls = [.ghPrCreate argv env.gh] ∧
      (publishRecord env cfg r reason confirm).exit ≠ .crashed ∧
      (publishRecord env cfg r reason confirm).record = { r with prUrl := env.gh.url r.prUrl } := by
  unfold publishRecord
  dsimp only
  split
  · exact .inl ⟨rfl, rfl⟩
  · rename_i plan hplan
    rcases @executeWrite_cases env cfg confirm plan with ⟨e, he, hnot⟩ | ⟨argv, hgh, hrun⟩
    · left
      rw [he]
      split
      · rename_i h
        exact absurd (Except.error.inj (Prod.mk.inj h).1) hnot
      · rename_i h
        exact ⟨(Prod.mk.inj h).2.symm, rfl⟩
      · rename_i h
        cases (Prod.mk.inj h).1
    · right
      rw [hrun]
      refine ⟨argv, ?_⟩
      cases h : env.gh with
      | notStarted => exact absurd h hgh
      | timedOut => simp [GhRun.result, GhRun.url]
      | exited code stdout =>
          by_cases hcode : code = 0
          · simp [GhRun.result, GhRun.url, hcode]
          · simp [GhRun.result, GhRun.url, hcode, Raised.exit]

theorem pushRecord_cases :
    ((pushRecord env cfg r).exit ≠ .ok ∧ (pushRecord env cfg r).calls = [] ∧ (pushRecord env cfg r).record = r) ∨
    ((pushRecord env cfg r).exit = .ok ∧ (pushRecord env cfg r).calls = [.pushed] ∧
      (pushRecord env cfg r).record = { r with pushed := true }) := by
  unfold pushRecord
  split
  · exact .inl ⟨by simp, rfl, rfl⟩
  · split
    · rename_i e _
      left
      cases e <;> exact ⟨by simp [Raised.exit], rfl, rfl⟩
    · exact .inr ⟨rfl, rfl, rfl⟩

theorem saved_of_record {o : Outcome} (h : o.record = disk) : o.saved disk = disk := by
  unfold Outcome.saved
  split
  · rfl
  · exact h

theorem saved_cases (o : Outcome) : o.saved disk = disk ∨ o.saved disk = o.record := by
  unfold Outcome.saved
  split
  · exact .inl rfl
  · exact .inr rfl

theorem status_of_pending (h : requirePendingDecision r = true) : r.status = pendingDecision := by
  simp only [requirePendingDecision, Bool.and_eq_true, decide_eq_true_eq] at h
  exact h.2

theorem decide_does (args : DecideArgs) :
    Does args.publish env.gh disk (cmdRealRepoRunDecide env args disk).record (cmdRealRepoRunDecide env args disk).calls := by
  unfold cmdRealRepoRunDecide
  split
  · exact .nothing
  · split
    · exact .nothing
    · split
      · exact .nothing
      · split
        · exact .nothing
        · rename_i cfg _
          split
          · exact .nothing
          · split
            · exact .nothing
            · rename_i hstate
              have hpending : disk.status = pendingDecision := by
                apply status_of_pending
                by_contra hnot
                exact hstate (.inr (.inl (by simpa using hnot)))
              split
              · exact .rejects hpending
              · exact .nothing
              · dsimp only
                split
                · exact .approves hpending
                · rcases @pushRecord_cases env cfg { disk with status := approvedStatus } with
                    ⟨hexit, hcalls, hrecord⟩ | ⟨hexit, hcalls, hrecord⟩
                  · rw [if_pos hexit, hcalls, saved_of_record hrecord]
                    exact .approves hpending
                  · rw [if_neg (fun hne => hne hexit), hcalls, hrecord]
                    split
                    · exact .approvesAndPushes hpending
                    · rename_i hpublish
                      rcases @publishRecord_cases env cfg { disk with status := approvedStatus, pushed := true }
                        args.reason args.confirmPublish with ⟨hcalls', hrecord'⟩ | ⟨argv, hcalls', hexit', hrecord'⟩
                      · rw [hcalls']
                        rcases @saved_cases { disk with status := approvedStatus } (publishRecord env cfg
                          { disk with status := approvedStatus, pushed := true } args.reason args.confirmPublish) with
                          hsaved | hsaved
                        · rw [hsaved]
                          exact .losesPush hpending
                        · rw [hsaved, hrecord']
                          exact .approvesAndPushes hpending
                      · rw [hcalls', Outcome.saved, if_neg hexit', hrecord']
                        exact .escalates argv (by simpa using hpublish) hpending

theorem attachApprovedRun_ok {require : RealRepoRunRecord → Bool}
    (h : attachApprovedRun env require disk = .ok cfg) : require disk = true := by
  unfold attachApprovedRun at h
  split at h
  · cases h
  · split at h
    · cases h
    · split at h
      · cases h
      · rename_i hstate
        by_contra hnot
        exact hstate (.inr (.inl (by simpa using hnot)))

theorem push_does :
    Does false env.gh disk (cmdRealRepoRunPush env disk).record (cmdRealRepoRunPush env disk).calls := by
  unfold cmdRealRepoRunPush
  split
  · exact .nothing
  · rename_i cfg hattach
    have hstate := attachApprovedRun_ok hattach
    simp only [requireApprovedForPush, Bool.and_eq_true, decide_eq_true_eq] at hstate
    dsimp only
    rcases @pushRecord_cases env cfg disk with ⟨-, hcalls, hrecord⟩ | ⟨hexit, hcalls, hrecord⟩
    · rw [hcalls, saved_of_record hrecord]
      exact .nothing
    · rw [hcalls, Outcome.saved, hexit, if_neg (by decide), hrecord]
      exact .pushes hstate.1

theorem publish_does (reason : Text) :
    Does true env.gh disk (cmdRealRepoRunPublish env reason confirm disk).record
      (cmdRealRepoRunPublish env reason confirm disk).calls := by
  unfold cmdRealRepoRunPublish
  split
  · exact .nothing
  · split
    · exact .nothing
    · rename_i cfg hattach
      have hstate := attachApprovedRun_ok hattach
      simp only [requirePushedForPublish, Bool.and_eq_true, decide_eq_true_eq, Bool.not_eq_true'] at hstate
      dsimp only
      rcases @publishRecord_cases env cfg disk (some reason) confirm with
        ⟨hcalls, hrecord⟩ | ⟨argv, hcalls, hexit, hrecord⟩
      · rw [hcalls, saved_of_record hrecord]
        exact .nothing
      · rw [hcalls, Outcome.saved, if_neg hexit, hrecord]
        exact .opens argv rfl hstate.1.1 hstate.1.2 hstate.2

/-- **Everything a command can do.** -/
theorem command_does (c : Command) :
    Does c.publishes env.gh disk (command env c disk).record (command env c disk).calls := by
  cases c with
  | decide args => exact decide_does args
  | push => exact push_does
  | publish reason confirm => exact publish_does reason

end Commands

/-! ### Over a run of commands -/

section Run

variable {publishes : Bool} {gh : GhRun} {first r r' : RealRepoRunRecord} {calls before : List Call} {s t : Escalation}

/-- The guard against another pull request: the run is decided and its record has one. -/
def Closed (r : RealRepoRunRecord) : Prop := r.status = approvedStatus ∧ r.hasPr = true

/-- What a call that counts leaves in `pr_url` closes the guard. -/
theorem hasPr_of_counts {old : Option Text} (hcounts : gh.counts = true) (hprints : gh.prints = true)
    (hurl : r.prUrl = gh.url old) : r.hasPr = true := by
  unfold RealRepoRunRecord.hasPr
  rw [hurl]
  cases gh with
  | notStarted => cases hcounts
  | timedOut => rfl
  | exited code stdout =>
      have hcode : code = 0 := by simpa [GhRun.counts] using hcounts
      have hout : strip stdout ≠ [] := by simpa [GhRun.prints, hcode] using hprints
      simp [GhRun.url, hcode, hout]

/-- Behind a closed guard nothing is created and the guard stays closed. -/
theorem Does.closed (h : Does publishes gh r r' calls) (hr : Closed r) : Closed r' ∧ ∀ c ∈ calls, c.counts = false := by
  obtain ⟨hstatus, hpr⟩ := hr
  have hdecided : r.status ≠ pendingDecision := by
    rw [hstatus]
    decide
  cases h with
  | nothing => exact ⟨⟨hstatus, hpr⟩, by simp⟩
  | rejects hpending => exact absurd hpending hdecided
  | approves hpending => exact absurd hpending hdecided
  | approvesAndPushes hpending => exact absurd hpending hdecided
  | losesPush hpending => exact absurd hpending hdecided
  | escalates argv _ hpending => exact absurd hpending hdecided
  | pushes _ => exact ⟨⟨hstatus, hpr⟩, by simp [Call.counts]⟩
  | opens argv _ _ _ hopen => exact absurd (hpr.symm.trans hopen) (by decide)

/-- A command makes at most one call that counts, and when `gh` prints, that call closes the
guard. -/
theorem Does.one (h : Does publishes gh r r' calls) (hprints : publishes = true → gh.prints = true) :
    AtMostOne calls ∧ (calls.filter Call.counts ≠ [] → Closed r') := by
  unfold AtMostOne
  cases h with
  | escalates argv hpublishes _ =>
      by_cases hcounts : gh.counts = true
      · refine ⟨by simp [Call.counts, hcounts], ?_⟩
        intro _
        exact ⟨rfl, hasPr_of_counts hcounts (hprints hpublishes) rfl⟩
      · simp [Call.counts, hcounts]
  | opens argv hpublishes hstatus _ _ =>
      by_cases hcounts : gh.counts = true
      · refine ⟨by simp [Call.counts, hcounts], ?_⟩
        intro _
        exact ⟨hstatus, hasPr_of_counts hcounts (hprints hpublishes) rfl⟩
      · simp [Call.counts, hcounts]
  | _ => simp [Call.counts]

/-- A record that says approved or pushed was so from the start, or a call made it so. -/
structure Backed (first r : RealRepoRunRecord) (calls : List Call) : Prop where
  approved : r.status = approvedStatus → first.status = approvedStatus ∨ .approved ∈ calls
  pushed : r.pushed = true → first.pushed = true ∨ .pushed ∈ calls

theorem Does.backed (h : Does publishes gh r r' calls) (hr : Backed first r before) : Backed first r' (before ++ calls) := by
  obtain ⟨happroved, hpushed⟩ := hr
  have happroved' : r.status = approvedStatus → first.status = approvedStatus ∨ .approved ∈ before ++ calls := by
    intro hstatus
    exact (happroved hstatus).imp_right (List.mem_append_left calls)
  have hpushed' : r.pushed = true → first.pushed = true ∨ .pushed ∈ before ++ calls := by
    intro hr
    exact (hpushed hr).imp_right (List.mem_append_left calls)
  cases h with
  | nothing => exact ⟨happroved', hpushed'⟩
  | rejects _ => exact ⟨fun hstatus => absurd hstatus (by decide : rejectedStatus ≠ approvedStatus), hpushed'⟩
  | approves _ => exact ⟨fun _ => .inr (by simp), hpushed'⟩
  | approvesAndPushes _ => exact ⟨fun _ => .inr (by simp), fun _ => .inr (by simp)⟩
  | losesPush _ => exact ⟨fun _ => .inr (by simp), hpushed'⟩
  | escalates argv _ _ => exact ⟨fun _ => .inr (by simp), fun _ => .inr (by simp)⟩
  | pushes _ => exact ⟨happroved', fun _ => .inr (by simp)⟩
  | opens argv _ _ _ _ => exact ⟨happroved', hpushed'⟩

theorem Does.afterPush (h : Does publishes gh r r' calls) (hr : Backed first r before) (hbefore : AfterPush first before) :
    AfterPush first (before ++ calls) := by
  refine hbefore.append ?_
  cases h with
  | nothing => exact .nil
  | rejects _ => exact .nil
  | approves _ => exact .singleton fun hcreates => absurd hcreates (by decide)
  | approvesAndPushes _ | losesPush _ =>
      exact .cons (fun hcreates => absurd hcreates (by decide))
        (.singleton fun hcreates => absurd hcreates (by decide))
  | escalates argv _ _ =>
      refine .cons (fun hcreates => absurd hcreates (by decide))
        (.cons (fun hcreates => absurd hcreates (by decide)) (.singleton fun _ => ?_))
      exact ⟨.inr (by simp), .inr (by simp)⟩
  | pushes _ => exact .singleton fun hcreates => absurd hcreates (by decide)
  | opens argv _ hstatus hpushed _ =>
      refine .singleton fun _ => ?_
      rw [List.append_nil]
      exact ⟨hr.approved hstatus, hr.pushed hpushed⟩

/-- **No pull request before the approval and the push**, whatever `gh` prints. -/
theorem later_afterPush {allow : Escalation → Surroundings × Command → Bool}
    (h : Runs.Later escalate allow ⟨first, []⟩ s) : Backed first s.saved s.calls ∧ AfterPush first s.calls := by
  refine h.invariant (I := fun s => Backed first s.saved s.calls ∧ AfterPush first s.calls) ?_ ?_
  · exact ⟨⟨.inl, .inl⟩, .nil⟩
  · intro s t e hs _ hstep
    obtain ⟨hbacked, hafter⟩ := hs
    rw [← Option.some.inj hstep]
    have hdoes := @command_does e.1 s.saved e.2
    exact ⟨hdoes.backed hbacked, hdoes.afterPush hbacked hafter⟩

/-- Where a command may open a pull request, `gh` prints something if it exits with 0. -/
def Prints (_ : Escalation) (e : Surroundings × Command) : Bool := !e.2.publishes || e.1.gh.prints

theorem atMostOne_append (hbefore : AtMostOne before) (hcalls : AtMostOne calls)
    (h : before.filter Call.counts ≠ [] → calls.filter Call.counts = []) : AtMostOne (before ++ calls) := by
  unfold AtMostOne at *
  rw [List.filter_append, List.length_append]
  by_cases hnone : before.filter Call.counts = []
  · rw [hnone]
    simpa using hcalls
  · rw [h hnone]
    simpa using hbefore

/-- **One pull request per run**: when no accepted call is silent, at most one call counts,
and every attempt comes after the approval and the push. -/
theorem one_pull_request (h : Runs.Later escalate Prints ⟨first, []⟩ s) :
    AtMostOne s.calls ∧ AfterPush first s.calls := by
  have hone : AtMostOne s.calls ∧ (s.calls.filter Call.counts ≠ [] → Closed s.saved) := by
    refine h.invariant (I := fun s => AtMostOne s.calls ∧ (s.calls.filter Call.counts ≠ [] → Closed s.saved)) ?_ ?_
    · exact ⟨Nat.zero_le 1, fun hnone => absurd rfl hnone⟩
    · intro s t e hs hallow hstep
      obtain ⟨hatMost, hguard⟩ := hs
      rw [← Option.some.inj hstep]
      have hdoes := @command_does e.1 s.saved e.2
      have hprints : e.2.publishes = true → e.1.gh.prints = true := by
        intro hpublishes
        simpa [Prints, hpublishes] using hallow
      obtain ⟨hcalls, hcloses⟩ := hdoes.one hprints
      have hkept : s.calls.filter Call.counts ≠ [] →
          Closed (command e.1 e.2 s.saved).record ∧ (command e.1 e.2 s.saved).calls.filter Call.counts = [] := by
        intro hsome
        obtain ⟨hclosed, hnone⟩ := hdoes.closed (hguard hsome)
        refine ⟨hclosed, List.filter_eq_nil_iff.mpr ?_⟩
        intro c hc
        simp [hnone c hc]
      refine ⟨atMostOne_append hatMost hcalls fun hsome => (hkept hsome).2, ?_⟩
      intro hsome
      by_cases hbefore : s.calls.filter Call.counts = []
      · rw [List.filter_append, hbefore, List.nil_append] at hsome
        exact hcloses hsome
      · exact (hkept hbefore).1
  exact ⟨hone.1, (later_afterPush h).2⟩

end Run

/-! ### Approved, published and published again -/

def armed (gh : GhRun) : Surroundings where
  config := some ⟨true, "write".toList, true, "o/r".toList, true⟩
  preferred := "agent".toList
  executionEnabled := true
  loads := true
  attaches := true
  finalizes := .ok ()
  gitPush := true
  which := some "/usr/bin/gh".toList
  gh := gh

def pendingRun : RealRepoRunRecord :=
  ⟨"0123456789abcdef0123456789abcdef".toList, pendingDecision, some "agent/fix".toList, some "Fix the test".toList,
    false, none⟩

/-- An approve that pushes and publishes, and a publish, both with `gh` coming out the same way. -/
def publishedTwice (gh : GhRun) : List (Surroundings × Command) :=
  [(armed gh, .decide ⟨.approve, true, true, some "reviewed".toList, true⟩),
    (armed gh, .publish "reviewed".toList true)]

def createCall (gh : GhRun) : Call :=
  .ghPrCreate (["/usr/bin/gh", "pr", "create", "--repo", "o/r", "--head", "agent/fix", "--base", "main", "--title",
    "Fix the test", "--body", "Automated real-repo-run candidate (run_id=0123456789abcdef0123456789abcdef).",
    "--draft"].map String.toList) gh

/-- With an address printed the second command finds the guard closed. -/
theorem one_pull_request_printed :
    AtMostOne [.approved, .pushed, createCall (.exited 0 "pull/7\n".toList)] ∧
      AfterPush pendingRun [.approved, .pushed, createCall (.exited 0 "pull/7\n".toList)] := by
  have hrun : Runs.run escalate Prints (publishedTwice (.exited 0 "pull/7\n".toList)) ⟨pendingRun, []⟩ =
      some ⟨{ pendingRun with status := approvedStatus, pushed := true, prUrl := some "pull/7".toList },
        [.approved, .pushed, createCall (.exited 0 "pull/7\n".toList)]⟩ := by
    decide +kernel
  exact one_pull_request (Runs.Later.of_run hrun)

/-- **A `gh` that exits with 0 and prints nothing** leaves the guard open: the next publish
opens another pull request for the same branch. -/
theorem silent_create_repeated :
    ¬ ∀ s, Runs.Later escalate (fun _ _ => true) ⟨pendingRun, []⟩ s →
      AtMostOne s.calls ∧ AfterPush pendingRun s.calls := by
  have hrun : Runs.run escalate (fun _ _ => true) (publishedTwice (.exited 0 [])) ⟨pendingRun, []⟩ =
      some ⟨{ pendingRun with status := approvedStatus, pushed := true },
        [.approved, .pushed, createCall (.exited 0 []), createCall (.exited 0 [])]⟩ := by
    decide +kernel
  intro hall
  have htwo := (hall _ (Runs.Later.of_run hrun)).1
  unfold AtMostOne at htwo
  exact absurd htwo (by decide)

end CyClaw.Repo.Commands

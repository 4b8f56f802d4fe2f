/-
What follows a decision: the commands `real-repo-run-decide`, `-push` and `-publish`.

Each command is a process of its own.  It loads the record of the run, looks whether the
record is in a state for it, acts, and saves the record.  The escalations past the commit run
through two functions that all commands share, `pushRecord` and `publishRecord`; a publish
goes through the gates of the writer twice, once for the plan and once for its execution.
What a command does outside its record is written down as its calls.
-/
import CyClaw.Repo.Finalize

namespace CyClaw.Repo.Commands

open PyText

/-! ### The record -/

def pendingDecision : Text := "pending_decision".toList

def approvedStatus : Text := "approved".toList

def rejectedStatus : Text := "rejected".toList

/-- `_TERMINAL_STATUSES`. -/
def terminalStatuses : List Text := [approvedStatus, rejectedStatus, "exhausted".toList, "failed".toList]

/-- What the commands read and write of a run's record. -/
structure RealRepoRunRecord where
  runId : Text
  status : Text
  branchName : Option Text
  commitMessage : Option Text
  pushed : Bool
  prUrl : Option Text
deriving DecidableEq

/-- `if record.pr_url`. -/
def RealRepoRunRecord.hasPr (r : RealRepoRunRecord) : Bool := r.prUrl.any (· ≠ [])

def requirePendingDecision (r : RealRepoRunRecord) : Bool :=
  decide (r.status ∉ terminalStatuses) && decide (r.status = pendingDecision)

def requireApprovedForPush (r : RealRepoRunRecord) : Bool := decide (r.status = approvedStatus) && !r.pushed

def requirePushedForPublish (r : RealRepoRunRecord) : Bool :=
  decide (r.status = approvedStatus) && r.pushed && !r.hasPr

/-! ### The world around a command -/

structure AgenticConfig where
  enabled : Bool
  mode : Text
  writesEnabled : Bool
  repo : Text
  /-- `deepagent_github.allow_git_write_tools` -/
  allowGitWriteTools : Bool

/-- How a run of `gh pr create` comes out. -/
inductive GhRun where
  | exited (code : ℤ) (stdout : Text)
  | timedOut
  | notStarted
deriving DecidableEq

inductive Raised where
  | agenticError (indeterminate : Bool)
  | agenticWriteRefused (gate : Text)
  | osError
deriving DecidableEq

/-- What a command finds, and how what it calls comes out. -/
structure Surroundings where
  config : Option AgenticConfig
  /-- The preferred prefix of a branch's name. -/
  preferred : Text
  executionEnabled : Bool
  loads : Bool
  attaches : Bool
  finalizes : Except Raised Unit
  gitPush : Bool
  /-- `shutil.which("gh")` -/
  which : Option Text
  gh : GhRun

inductive Call where
  | approved
  | pushed
  | ghPrCreate (argv : List Text) (run : GhRun)
deriving DecidableEq

inductive ExitCode where
  | ok
  | fail
  | env
  | refused
  | crashed
deriving DecidableEq

/-- How a command ends, the record it leaves and the calls it made. -/
structure Outcome where
  exit : ExitCode
  record : RealRepoRunRecord
  calls : List Call

/-! ### The writer -/

def blank (reason : Option Text) : Bool := reason.all (strip · = [])

/-- `_require_gates`, for `pr_create`. -/
def requireGates (cfg : AgenticConfig) (reason : Option Text) (confirm : Bool) : Except Raised Unit :=
  if cfg.enabled = false then .error (.agenticWriteRefused "enabled".toList)
  else if cfg.mode ≠ "write".toList then .error (.agenticWriteRefused "mode".toList)
  else if cfg.writesEnabled = false then .error (.agenticWriteRefused "writes_enabled".toList)
  else if blank reason = true then .error (.agenticWriteRefused "reason".toList)
  else if confirm = false then .error (.agenticWriteRefused "confirm".toList)
  else .ok ()

structure PrParams where
  head : Option Text
  title : Option Text
  body : Text

/-- `_build_write_argv`, for `pr_create`. -/
def buildWriteArgv (preferred repo : Text) (params : PrParams) : Except Raised (List Text) :=
  match params.head with
  | none => .error (.agenticError false)
  | some head =>
      if branchNameRe preferred head = false then .error (.agenticError false)
      else .ok (["gh", "pr", "create", "--repo"].map String.toList ++ [repo, "--head".toList, head] ++
        ["--base", "main", "--title"].map String.toList ++
        [params.title.getD "None".toList, "--body".toList, params.body, "--draft".toList])

structure Plan where
  repo : Text
  reason : Option Text
  params : PrParams
  wouldRun : List Text

def planWrite (preferred : Text) (cfg : AgenticConfig) (reason : Option Text) (confirm : Bool) (params : PrParams) :
    Except Raised Plan :=
  match requireGates cfg reason confirm with
  | .error e => .error e
  | .ok () =>
      match buildWriteArgv preferred cfg.repo params with
      | .error e => .error e
      | .ok argv => .ok ⟨cfg.repo, reason, params, argv⟩

/-- What the one attempt of `execute_write` makes of it; there is no retry. -/
def GhRun.result : GhRun → Except Raised Text
  | .exited code stdout => if code ≠ 0 then .error (.agenticError false) else .ok (strip stdout)
  | .timedOut => .error (.agenticError true)
  | .notStarted => .error .osError

/-- `execute_write`: what `gh` printed, stripped, and the call. -/
def executeWrite (env : Surroundings) (cfg : AgenticConfig) (plan : Plan) (confirm : Bool) :
    Except Raised Text × List Call :=
  if env.executionEnabled = false then (.error (.agenticWriteRefused "execution_enabled".toList), [])
  else
    match requireGates cfg plan.reason confirm with
    | .error e => (.error e, [])
    | .ok () =>
        if plan.repo ≠ cfg.repo then (.error (.agenticWriteRefused "repo_match".toList), [])
        else
          match buildWriteArgv env.preferred cfg.repo plan.params with
          | .error e => (.error e, [])
          | .ok argv =>
              if plan.wouldRun.tail ≠ argv.tail then (.error (.agenticWriteRefused "plan_integrity".toList), [])
              else
                match env.which with
                | none => (.error (.agenticError false), [])
                | some binary =>
                    (env.gh.result,
                      if env.gh = .notStarted then [] else [.ghPrCreate (binary :: argv.tail) env.gh])

/-! ### The escalations -/

/-- `RepoWorkspaceTools.push_branch`. -/
def pushBranch (env : Surroundings) (cfg : AgenticConfig) (name : Text) : Except Raised Unit :=
  if cfg.allowGitWriteTools = false then .error (.agenticWriteRefused "allow_git_write_tools".toList)
  else if branchNameRe env.preferred name = false then .error (.agenticError false)
  else if env.gitPush = false then .error (.agenticError false)
  else .ok ()

/-- The exit code of a command whose escalation raised. -/
def Raised.exit : Raised → ExitCode
  | .agenticWriteRefused _ => .refused
  | .agenticError _ => .fail
  | .osError => .crashed

/-- `_push_record`. -/
def pushRecord (env : Surroundings) (cfg : AgenticConfig) (r : RealRepoRunRecord) : Outcome :=
  match r.branchName with
  | none => ⟨.crashed, r, []⟩
  | some name =>
      match pushBranch env cfg name with
      | .error e => ⟨e.exit, r, []⟩
      | .ok () => ⟨.ok, { r with pushed := true }, [.pushed]⟩

def indeterminateUrl : Text := "INDETERMINATE: gh pr create timed out; verify on GitHub before retrying".toList

/-- `_publish_record`. -/
def publishRecord (env : Surroundings) (cfg : AgenticConfig) (r : RealRepoRunRecord) (reason : Option Text)
    (confirm : Bool) : Outcome :=
  let params : PrParams :=
    ⟨r.branchName, r.commitMessage, "Automated real-repo-run candidate (run_id=".toList ++ r.runId ++ ").".toList⟩
  match planWrite env.preferred cfg reason confirm params with
  | .error e => ⟨e.exit, r, []⟩
  | .ok plan =>
      match executeWrite env cfg plan confirm with
      | (.error (.agenticError true), calls) => ⟨.fail, { r with prUrl := some indeterminateUrl }, calls⟩
      | (.error e, calls) => ⟨e.exit, r, calls⟩
      -- `result.get("stdout") or None`
      | (.ok stdout, calls) => ⟨.ok, { r with prUrl := if stdout = [] then none else some stdout }, calls⟩

/-! ### The commands -/

/-- What stands on the disk when an escalation has ended: its record is saved on every way
out but a crash. -/
def Outcome.saved (o : Outcome) (disk : RealRepoRunRecord) : RealRepoRunRecord :=
  if o.exit = .crashed then disk else o.record

structure DecideArgs where
  decision : HumanDecision
  push : Bool
  publish : Bool
  reason : Option Text
  confirmPublish : Bool

/-- `cmd_real_repo_run_decide`. -/
def cmdRealRepoRunDecide (env : Surroundings) (args : DecideArgs) (disk : RealRepoRunRecord) : Outcome :=
  if args.publish = true ∧ args.push = false then ⟨.refused, disk, []⟩
  else if args.publish = true ∧ (blank args.reason = true ∨ args.confirmPublish = false) then ⟨.refused, disk, []⟩
  else if (args.push = true ∨ args.publish = true) ∧ args.decision ≠ .approve then ⟨.refused, disk, []⟩
  else
    match env.config with
    | none => ⟨.env, disk, []⟩
    | some cfg =>
        if cfg.enabled = false then ⟨.ok, disk, []⟩
        else if env.loads = false ∨ requirePendingDecision disk = false ∨ disk.branchName = none ∨
            disk.commitMessage = none ∨ env.attaches = false then ⟨.fail, disk, []⟩
        else
          match args.decision, env.finalizes with
          | .reject, _ => ⟨.ok, { disk with status := rejectedStatus }, []⟩
          | .approve, .error e => ⟨e.exit, disk, []⟩
          | .approve, .ok () =>
              -- saved before the escalations
              let approved := { disk with status := approvedStatus }
              if args.push = false then ⟨.ok, approved, [.approved]⟩
              else
                let pushed := pushRecord env cfg approved
                if pushed.exit ≠ .ok then ⟨pushed.exit, pushed.saved approved, .approved :: pushed.calls⟩
                else if args.publish = false then ⟨.ok, pushed.record, .approved :: pushed.calls⟩
                else
                  let published := publishRecord env cfg pushed.record args.reason args.confirmPublish
                  ⟨published.exit, published.saved approved, .approved :: pushed.calls ++ published.calls⟩

/-- `_attach_approved_run`. -/
def attachApprovedRun (env : Surroundings) (require : RealRepoRunRecord → Bool) (disk : RealRepoRunRecord) :
    Except ExitCode AgenticConfig :=
  match env.config with
  | none => .error .env
  | some cfg =>
      if cfg.enabled = false then .error .ok
      else if env.loads = false ∨ require disk = false ∨ disk.branchName = none ∨ env.attaches = false then
        .error .fail
      else .ok cfg

/-- `cmd_real_repo_run_push`. -/
def cmdRealRepoRunPush (env : Surroundings) (disk : RealRepoRunRecord) : Outcome :=
  match attachApprovedRun env requireApprovedForPush disk with
  | .error code => ⟨code, disk, []⟩
  | .ok cfg =>
      let pushed := pushRecord env cfg disk
      ⟨pushed.exit, pushed.saved disk, pushed.calls⟩

/-- `cmd_real_repo_run_publish`. -/
def cmdRealRepoRunPublish (env : Surroundings) (reason : Text) (confirm : Bool) (disk : RealRepoRunRecord) : Outcome :=
  if confirm = false then ⟨.refused, disk, []⟩
  else
    match attachApprovedRun env requirePushedForPublish disk with
    | .error code => ⟨code, disk, []⟩
    | .ok cfg =>
        let published := publishRecord env cfg disk (some reason) confirm
        ⟨published.exit, published.saved disk, published.calls⟩

inductive Command where
  | decide (args : DecideArgs)
  | push
  | publish (reason : Text) (confirm : Bool)

def command (env : Surroundings) : Command → RealRepoRunRecord → Outcome
  | .decide args => cmdRealRepoRunDecide env args
  | .push => cmdRealRepoRunPush env
  | .publish reason confirm => cmdRealRepoRunPublish env reason confirm

/-- The record on the disk and every call made since the first command. -/
structure Escalation where
  saved : RealRepoRunRecord
  calls : List Call
deriving DecidableEq

/-- The next command of the run, in its own surroundings. -/
def escalate (e : Surroundings × Command) (s : Escalation) : Option Escalation :=
  let o := command e.1 e.2 s.saved
  some ⟨o.record, s.calls ++ o.calls⟩

end CyClaw.Repo.Commands

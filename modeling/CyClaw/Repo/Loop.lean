/-
The coding loop, `run_real_repo_loop`.

One iteration asks the planner, parses the files it proposes, gates the proposal as a
whole, writes what the backstop lets through, runs the checks and decides.  An iteration is
one step here (`iterate`): what comes from outside while it runs, the planner's answer, the
locations the operating system turns down, the outcome of every check and the tree the
checks leave behind, is the step's label (`Turn`), so that a run is any sequence of these.

The log is not the program's: it lists, newest first, what a run asked, wrote and verified,
and the claims about whole runs read it.
-/
import CyClaw.Lib.Runs
import CyClaw.Repo.Workspace
import Mathlib.Algebra.GroupWithZero.Nat
import Mathlib.Data.List.Dedup

namespace CyClaw.Repo

open PyText

/-! ### The planner's answer -/

/-- `_FILE_BLOCK_RE` at the start of a text: the path and the body, and what follows. -/
def matchBlock (t : Text) : Option ((Text × Text) × Text) :=
  if "=== FILE ".toList.isPrefixOf t then
    match splitAt? ['\n'] (t.drop 9) with
    | none => none
    | some (header, rest) =>
        -- The path ends where the first line does: its own marker holds the line break.
        if " ===".toList.isSuffixOf header ∧ 4 < header.length then
          match splitAt? "\n=== END FILE ===".toList rest with
          | none => none
          | some (body, rest') => some ((header.take (header.length - 4), body), rest')
        else none
  else none

/-- `_FILE_BLOCK_RE.finditer`: the part still to skip belongs to the block just matched. -/
def fileBlocks : ℕ → Text → List (Text × Text)
  | _, [] => []
  | skip + 1, _ :: cs => fileBlocks skip cs
  | 0, c :: cs =>
      match matchBlock (c :: cs) with
      | some (block, rest) => block :: fileBlocks (cs.length - rest.length) cs
      | none => fileBlocks 0 cs

/-- The path a block is filed under. -/
def destination (raw : Text) : Text := (canonicalRepoPath raw).getD raw

/-- File the blocks in order, refusing two whose names a file system may take for one. -/
def collectBlocks (u : Unicode) : List (Text × Text) → List (Text × Text) → Option (List (Text × Text))
  | acc, [] => some acc
  | acc, (raw, body) :: rest =>
      let path := destination (strip raw)
      if acc.any fun f => fsEquivPath u f.1 = fsEquivPath u path then none
      else collectBlocks u (acc ++ [(path, body)]) rest

/-- `_parse_file_blocks`, `none` where it raises. -/
def parseFileBlocks (u : Unicode) (text : Text) : Option (List (Text × Text)) :=
  collectBlocks u [] (fileBlocks 0 (replace "\r\n".toList "\n".toList text))

/-! ### Governance and verification -/

inductive Severity where
  | info
  | warning
  | critical
deriving DecidableEq

structure Finding where
  severity : Severity
  code : Text
  message : Text

structure Check where
  name : Text

/-- What the sandbox reports of one check. -/
structure Outcome where
  exitCode : ℤ
  timedOut : Bool
  stdout : Text
  stderr : Text

structure CheckResult where
  name : Text
  exitCode : ℤ
  ok : Bool
  stdout : Text
  stderr : Text
  timedOut : Bool

structure Report where
  ok : Bool
  results : List CheckResult

/-- `run_verification` of the outcomes the sandbox reports, check by check. -/
def runVerification (checks : List Check) (outcome : ℕ → Outcome) : Report :=
  let results := checks.mapIdx fun i check =>
    let o := outcome i
    ⟨check.name, o.exitCode, o.exitCode = 0 ∧ o.timedOut = false, o.stdout, o.stderr, o.timedOut⟩
  ⟨results.all (·.ok), results⟩

inductive Gate where
  | noFilesChanged
  | fileWriteFailed
  | criticalGovernanceFinding
  | outOfScopeWrite
  | writeBudgetExceeded
  | verificationFailed
deriving DecidableEq

def Gate.name : Gate → Text
  | .noFilesChanged => "no_files_changed".toList
  | .fileWriteFailed => "file_write_failed".toList
  | .criticalGovernanceFinding => "critical_governance_finding".toList
  | .outOfScopeWrite => "out_of_scope_write".toList
  | .writeBudgetExceeded => "write_budget_exceeded".toList
  | .verificationFailed => "verification_failed".toList

structure Decision where
  accepted : Bool
  reason : Text
  rejectedGates : List Gate

/-- `decide_real_repo_candidate`. -/
def decideRealRepoCandidate (changedFiles : List Text) (verification : Option Report) (findings : List Finding)
    (writeFailed outOfScope writeBudgetExceeded : Bool) : Decision :=
  let hasCritical := findings.any (·.severity = .critical)
  let quarantined := hasCritical || outOfScope || writeBudgetExceeded
  let rejected :=
    (if changedFiles.isEmpty && !quarantined then [Gate.noFilesChanged] else []) ++
    (if writeFailed then [.fileWriteFailed] else []) ++
    (if hasCritical then [.criticalGovernanceFinding] else []) ++
    (if outOfScope then [.outOfScopeWrite] else []) ++
    (if writeBudgetExceeded then [.writeBudgetExceeded] else []) ++
    (if verification.any fun report => !report.ok then [.verificationFailed] else [])
  { accepted := rejected.isEmpty
    reason := if rejected.isEmpty then "accepted".toList
      else "rejected: ".toList ++ ", ".toList.intercalate (rejected.map Gate.name)
    rejectedGates := rejected }

/-! ### The request -/

/-- The code around the loop: the clone, the two scanners and `repr`. -/
structure Env where
  tools : Tools
  inspectCandidateText : Text → List Finding
  inspectCodeShape : Text → Bool → List Finding
  repr : Text → Text

structure Request where
  instruction : Text
  checks : List Check
  branchName : Text
  commitMessage : Text
  maxIterations : ℤ
  reason : Text
  confirm : Bool
  maxTokens : ℤ := 2048
  context : Option Text := none
  readPaths : List Text := []
  protectedWritePaths : List Text := []
  maxWriteBudgetBytes : Option ℤ := none
  scanCodeShape : Bool := true
  plan : Text := []

/-! ### The prompt -/

def maxReadFileChars : ℕ := 4000

def maxTotalReadChars : ℕ := 12000

def digits (n : ℕ) : Text := (toString n).toList

def existingSection (path content : Text) : Text :=
  "--- EXISTING FILE: ".toList ++ path ++ " ---\n".toList ++ content ++ "\n--- END EXISTING FILE ---".toList

structure Rendered where
  rendered : List Text
  shown : List Text
  total : ℕ

/-- The content of a file as the prompt holds it. -/
def clipped (content : Text) : Text :=
  if content.length > maxReadFileChars then
    content.take maxReadFileChars ++ "\n... [truncated at ".toList ++ digits maxReadFileChars ++ " chars]".toList
  else content

/-- Render one declared path, `_render_existing_files`'s loop body. -/
def renderOne (tools : Tools) (t : Tree) (r : Rendered) (path : Text) : Rendered :=
  match readFile tools t path with
  | none => r
  | some content =>
      let text := clipped content
      if r.total + text.length > maxTotalReadChars then
        { r with rendered := r.rendered ++ ["[".toList ++ path ++ " omitted -- total existing-file budget of ".toList ++
            digits maxTotalReadChars ++ " chars reached]".toList] }
      else
        { rendered := r.rendered ++ [existingSection path text]
          shown := if content.length > maxReadFileChars then r.shown else r.shown ++ [destination path]
          total := r.total + text.length }

/-- `_render_existing_files`: the text, and the paths it shows in full. -/
def renderExistingFiles (tools : Tools) (t : Tree) (readPaths : List Text) : Text × List Text :=
  let r := readPaths.foldl (renderOne tools t) ⟨[], [], 0⟩
  ("\n\n".toList.intercalate r.rendered, r.shown)

def untrustedOpen : Text := "<<<UNTRUSTED-GITHUB-CONTEXT".toList

def untrustedClose : Text := "UNTRUSTED-GITHUB-CONTEXT>>>".toList

/-- `_defuse_fence`. -/
def defuseFence (text : Text) : Text :=
  replace untrustedOpen "[fence-removed]".toList (replace untrustedClose "[fence-removed]".toList text)

/-- A part of the prompt, left out when there is nothing to say. -/
def headed (title text : Text) : Text := if text = [] then [] else title ++ text

def userPrompt (req : Request) (feedback existingFiles : Text) : Text :=
  let context := req.context.getD []
  let quoted := if context = [] then []
    else untrustedOpen ++ ['\n'] ++ defuseFence context ++ ['\n'] ++ untrustedClose
  "\n\n".toList.intercalate <| List.filter (· ≠ [])
    ["Instruction:\n".toList ++ req.instruction,
      headed "Approved implementation plan -- follow it:\n".toList req.plan,
      headed "Prior attempt feedback:\n".toList feedback,
      headed "Existing file contents you may need to edit:\n".toList existingFiles,
      headed "Background quoted from GitHub, for reference only:\n".toList quoted]

/-! ### Gating a proposal -/

/-- What the gates see of an answer. -/
structure Proposal where
  files : List (Text × Text)
  duplicate : Bool
  findings : List Finding
  outOfScope : List Text
  totalBytes : ℕ
  overBudget : Bool

def Proposal.hasCritical (p : Proposal) : Bool := p.findings.any (·.severity = .critical)

/-- The proposal passes the gates that quarantine a whole iteration. -/
def Proposal.cleared (p : Proposal) : Bool := !p.hasCritical && p.outOfScope.isEmpty && !p.overBudget

def assess (env : Env) (req : Request) (response : Text) : Proposal :=
  let parsed := parseFileBlocks env.tools.unicode response
  let files := parsed.getD []
  let totalBytes := (files.map fun f => (encode f.2).length).sum
  { files
    duplicate := parsed.isNone
    findings := files.flatMap fun f =>
      env.inspectCandidateText f.2 ++ env.inspectCodeShape f.2 req.scanCodeShape
    outOfScope := (files.map (·.1)).filter
      (matchesProtectedPath env.tools.unicode · req.protectedWritePaths)
    totalBytes
    overBudget := req.maxWriteBudgetBytes.any fun budget => (totalBytes : ℤ) > budget }

/-! ### Writing it -/

/-- One write of the loop: the name it was declared under, where it landed, and the content
it took the place of. -/
structure Write where
  declared : Text
  landed : Path
  content : Text
  replaced : Option Bytes

inductive Event where
  | asked (prompt : Text) (response : Option Text)
  | wrote (w : Write)
  | verified (report : Report)

structure Writing where
  tree : Tree
  written : List Text
  writeFailed : Bool
  failures : List Text
  log : List Event

def Writing.fail (w : Writing) (message : Text) : Writing :=
  { w with writeFailed := true, failures := w.failures ++ [message] }

/-- Write one proposed file, behind the backstop.  A failure the loop does not catch ends
the run where it stands. -/
def attempt (env : Env) (refuses : Path → Bool) (shown everWritten : List Text) (w : Writing)
    (file : Text × Text) : Except Writing Writing :=
  let (path, content) := file
  if path ∉ shown ∧ path ∉ everWritten ∧ (statFile w.tree path).isSome then
    .ok (w.fail (env.repr path ++ (" already exists and its full content was not shown to you (declare " ++
      "it with --read-file, or it may already have been -- and omitted or truncated " ++
      "by the read-context budget) -- refusing a whole-file replacement of content " ++
      "you have not fully seen").toList))
  else
    match writeFile env.tools refuses w.tree path content with
    | .error .raised => .error w
    | .error (.denied why) => .ok (w.fail (env.repr path ++ ": ".toList ++ why.message))
    | .ok (landed, tree) =>
        .ok { w with
          tree
          written := w.written ++ [path]
          log := .wrote ⟨path, landed, content, w.tree.fileAt landed⟩ :: w.log }

def writeAll (env : Env) (refuses : Path → Bool) (shown everWritten : List Text) :
    List (Text × Text) → Writing → Except Writing Writing
  | [], w => .ok w
  | file :: files, w =>
      match attempt env refuses shown everWritten w file with
      | .error w' => .error w'
      | .ok w' => writeAll env refuses shown everWritten files w'

/-! ### Feedback -/

def maxFeedbackCheckChars : ℕ := 1500

def maxFeedbackTotalChars : ℕ := 4000

/-- The entry of one failed check in the feedback. -/
def feedbackEntry (env : Env) (r : CheckResult) : Text :=
  let output := strip (if r.stderr ≠ [] then r.stderr else r.stdout)
  let shown :=
    if output = [] then output
    else if env.inspectCandidateText output ≠ [] then
      "[output redacted -- matched a governed injection pattern]".toList
    else if output.length > maxFeedbackCheckChars then
      "...[truncated]\n".toList ++ output.drop (output.length - maxFeedbackCheckChars)
    else output
  let head := r.name ++ " (exit ".toList ++ (toString r.exitCode).toList ++
    (if r.timedOut then ", timed out".toList else []) ++ [')']
  if shown = [] then head else head ++ ":\n".toList ++ shown

/-- `_verification_feedback`. -/
def verificationFeedback (env : Env) (report : Report) : Text :=
  let entries := report.results.filter (!·.ok)
  let step := fun (acc : List Text × ℕ) (r : CheckResult) =>
    let entry := feedbackEntry env r
    if acc.2 + entry.length > maxFeedbackTotalChars then
      (acc.1 ++ ["[".toList ++ r.name ++ " omitted -- feedback budget reached]".toList], acc.2)
    else (acc.1 ++ [entry], acc.2 + entry.length)
  "\n\n".toList.intercalate (entries.foldl step ([], 0)).1

def feedbackOf (env : Env) (req : Request) (p : Proposal) (w : Writing) (verification : Option Report)
    (decision : Decision) (nudge : Text) : Text :=
  let evidence := match verification with
    | some report => if report.ok then [] else verificationFeedback env report
    | none => []
  "\n\n".toList.intercalate <|
    [decision.reason] ++
    (if evidence = [] then [] else [evidence]) ++
    (if p.outOfScope = [] then [] else
      ["These paths are protected and cannot be written: ".toList ++ ", ".toList.intercalate p.outOfScope ++
        ". Propose a change that does not touch them.".toList]) ++
    (if p.overBudget = false then [] else
      ["Total proposed write size (".toList ++ digits p.totalBytes ++ " bytes) exceeds the ".toList ++
        (toString (req.maxWriteBudgetBytes.getD 0)).toList ++
        "-byte budget for one attempt. Propose a smaller, more targeted change.".toList]) ++
    (if w.failures = [] then [] else ["\n".toList.intercalate w.failures]) ++
    (if nudge = [] then [] else [nudge])

/-! ### The loop -/

structure Iteration where
  step : ℕ
  changedFiles : List Text
  decision : Decision
  findings : List Finding

inductive Phase where
  | running
  | accepted
  | exhausted
  /-- An exception the loop does not catch ended the run, without a result. -/
  | raised
deriving DecidableEq

structure LoopState where
  tree : Tree
  feedback : Text
  iterations : List Iteration
  everWritten : List Text
  phase : Phase
  log : List Event

/-- What comes from outside in one iteration: the planner's answer, `none` where the call
raises; the locations the system turns down; the outcome of every check and the tree the
checks leave, `none` where the sandbox is missing; and the probe's nudge. -/
structure Turn where
  response : Option Text
  refuses : Path → Bool
  verification : Option ((ℕ → Outcome) × Tree)
  nudge : Text

def maxIterationsCeiling : ℤ := 25

/-- Why a run is refused before it starts. -/
inductive Refusal where
  | allowGitWriteTools
  | reason
  | confirm
  | instruction
  | maxIterations
  | maxTokens
  | checks
deriving DecidableEq

/-- The gates of `run_real_repo_loop`, and its state before the first iteration. -/
def start (env : Env) (req : Request) (tree : Tree) : Except Refusal LoopState :=
  if env.tools.allowGitWriteTools = false then .error .allowGitWriteTools
  else if strip req.reason = [] then .error .reason
  else if req.confirm = false then .error .confirm
  else if strip req.instruction = [] then .error .instruction
  else if req.maxIterations ≤ 0 ∨ req.maxIterations > maxIterationsCeiling then .error .maxIterations
  else if req.maxTokens ≤ 0 then .error .maxTokens
  else if req.checks.isEmpty then .error .checks
  else .ok ⟨tree, [], [], [], .running, []⟩

def prompt (env : Env) (req : Request) (s : LoopState) : Text :=
  userPrompt req s.feedback (renderExistingFiles env.tools s.tree req.readPaths).1

/-- The paths an iteration's prompt shows in full. -/
def shownPaths (env : Env) (req : Request) (s : LoopState) : List Text :=
  (renderExistingFiles env.tools s.tree req.readPaths).2

/-- The writing part of an iteration. -/
def patch (env : Env) (req : Request) (turn : Turn) (response : Text) (s : LoopState) : Except Writing Writing :=
  let p := assess env req response
  let begun : Writing :=
    { tree := s.tree
      written := []
      writeFailed := p.duplicate
      failures := if p.duplicate then
        ["planner response proposed the same file path in two different blocks".toList] else []
      log := .asked (prompt env req s) (some response) :: s.log }
  if p.cleared then writeAll env turn.refuses (shownPaths env req s) s.everWritten p.files begun else .ok begun

/-- Decide on what was written, and go on, stop or give up. -/
def conclude (env : Env) (req : Request) (turn : Turn) (p : Proposal) (w : Writing) (tree : Tree)
    (verification : Option Report) (s : LoopState) : LoopState :=
  let decision := decideRealRepoCandidate w.written verification p.findings w.writeFailed
    (!p.outOfScope.isEmpty) p.overBudget
  let step := s.iterations.length + 1
  { tree
    feedback := if decision.accepted then s.feedback
      else feedbackOf env req p w verification decision turn.nudge
    iterations := s.iterations ++ [⟨step, w.written, decision, p.findings⟩]
    everWritten := s.everWritten ++ w.written
    phase := if decision.accepted then .accepted
      else if (step : ℤ) < req.maxIterations then .running else .exhausted
    log := match verification with
      | some report => .verified report :: w.log
      | none => w.log }

/-- The checks run only on a patch that went through. -/
def verifiable (p : Proposal) (w : Writing) : Bool :=
  !w.written.isEmpty && !p.hasCritical && !w.writeFailed && p.outOfScope.isEmpty && !p.overBudget

/-- One iteration of `run_real_repo_loop`. -/
def iterate (env : Env) (req : Request) (turn : Turn) (s : LoopState) : Option LoopState :=
  if s.phase ≠ .running then none
  else
    match turn.response with
    | none => some { s with phase := .raised, log := .asked (prompt env req s) none :: s.log }
    | some response =>
        let p := assess env req response
        match patch env req turn response s with
        | .error w => some { s with phase := .raised, tree := w.tree, log := w.log }
        | .ok w =>
            if verifiable p w then
              match turn.verification with
              | none => some { s with phase := .raised, tree := w.tree, log := w.log }
              | some (outcome, tree) =>
                  some (conclude env req turn p w tree (some (runVerification req.checks outcome)) s)
            else some (conclude env req turn p w w.tree none s)

/-- `RealRepoLoopResult.changed_files`. -/
def changedFiles (iterations : List Iteration) : List Text :=
  let quarantine := [Gate.criticalGovernanceFinding, .outOfScopeWrite, .writeBudgetExceeded]
  (iterations.flatMap fun i =>
    if i.decision.rejectedGates.any (· ∈ quarantine) then [] else i.changedFiles).reverse.dedup.reverse

end CyClaw.Repo

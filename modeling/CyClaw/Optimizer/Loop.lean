/-
The optimizer's loop, `run_optimization_loop`.

One iteration asks the planner, splits its answer into the blocks of editable surfaces and a rationale, writes the
blocks to `current/` and the rationale to `proposal.md`, evaluates what is there then and decides.  An iteration is
one step here (`iterate`), and the planner's answer is its label, so that a run is any sequence of answers.

The log is not the program's: it lists, newest first, what a run asked, wrote and proposed, attempts that fail
among them.
-/
import CyClaw.Optimizer.Runner
import Mathlib.Data.Char
import Mathlib.Data.List.Lex
import Mathlib.Data.List.Sort

namespace CyClaw.Optimizer

open PyText
open CyClaw.Repo (Text Tree Finding Phase)
open CyClaw.Harness (ProposerWorkspaceTools Value writeCurrentFile finishProposal)

/-! ### The planner's answer -/

def isIdChar (c : Char) : Bool := c.isAlphanum || c = '_' || c = '.' || c = '-'

/-- `_SURFACE_BLOCK_RE` at the start of a text: the id and the body, and what follows. -/
def matchBlock (t : Text) : Option ((Text × Text) × Text) :=
  if "=== SURFACE ".toList.isPrefixOf t then
    let rest := t.drop 12
    let surfaceId := rest.takeWhile isIdChar
    let after := rest.dropWhile isIdChar
    -- A blank follows the id, so it ends where its letters do.
    if surfaceId ≠ [] ∧ " ===\n".toList.isPrefixOf after then
      (splitAt? "\n=== END SURFACE ===".toList (after.drop 5)).map fun r => ((surfaceId, r.1), r.2)
    else none
  else none

/-- The blocks of a text, and the text without them: the part still to skip belongs to the block just matched. -/
def splitBlocks : ℕ → Text → List (Text × Text) × Text
  | _, [] => ([], [])
  | skip + 1, _ :: cs => splitBlocks skip cs
  | 0, c :: cs =>
      match matchBlock (c :: cs) with
      | some (block, rest) =>
          let r := splitBlocks (cs.length - rest.length) cs
          (block :: r.1, r.2)
      | none =>
          let r := splitBlocks 0 cs
          (r.1, c :: r.2)

/-- `dict[str, str]` of ids and contents. -/
abbrev Surfaces := Table (Text × Text) Text Prod.fst

def noRationale : Text := "(no additional rationale provided)".toList

/-- `_parse_surface_blocks` -/
def parseSurfaceBlocks (text : Text) (editableSurfaceIds : List Text) : Surfaces × Text :=
  let pieces := splitBlocks 0 text
  let rationale := strip pieces.2
  ((pieces.1.filter (·.1 ∈ editableSurfaceIds)).foldl Table.upsert Table.empty,
    if rationale = [] then noRationale else rationale)

/-- The contents an answer has for editable surfaces. -/
def contentsOf (exp : Experiment) (response : Text) : Surfaces :=
  (parseSurfaceBlocks response exp.editableSurfaceIds).1

/-- What an answer says outside its blocks. -/
def rationaleOf (exp : Experiment) (response : Text) : Text := (parseSurfaceBlocks response exp.editableSurfaceIds).2

/-! ### The request -/

structure Request where
  instruction : Text
  maxIterations : ℤ

/-- One planner attempt and its outcome. -/
structure LoopIteration where
  variantId : Text
  changedSurfaces : List Text
  decision : CandidateDecision
  findings : List Finding

/-- A write of the loop, under the id it was proposed for. -/
structure Write where
  surfaceId : Text
  path : Text
  content : Text

inductive Event where
  | asked (prompt : Text) (response : Option Text)
  | wrote (w : Write)
  | proposed (rationale : Text)

structure LoopState where
  tree : Tree
  baseline : RunReport
  feedback : Text
  iterations : List LoopIteration
  phase : Phase
  log : List Event

variable (host : Host) (runner : GitHubCodingRunner) (exp : Experiment) (req : Request)

/-! ### An iteration -/

def headed (title text : Text) : Text := if text = [] then [] else title ++ text

/-- The prompt of an iteration; reading the workspace may fail. -/
def userPrompt (feedback : Text) (t : Tree) : Except Harness.Fault Text := do
  let manifest ← Harness.readSurfaceManifest runner.tools t
  let failures ← (Harness.run runner.tools t .readTrainFailures).result
  .ok <| "\n\n".toList.intercalate <| List.filter (· ≠ [])
    ["Instruction:\n".toList ++ req.instruction,
      "Surface manifest:\n".toList ++ host.str manifest,
      "Visible train failures:\n".toList ++ host.str failures,
      headed "Prior attempt feedback:\n".toList feedback]

/-- What the writing part of an iteration leaves. -/
structure Patch where
  tree : Tree
  log : List Event

/-- `tools.write_current_file(surfaces_by_id[surface_id].path, content)` -/
def writeSurface (w : Patch) (item : Text × Text) : Except Patch Patch :=
  match exp.surfaces.find? item.1 with
  | none => .error w
  | some surface =>
      let done := writeCurrentFile runner.tools w.tree surface.path item.2
      let w' : Patch := ⟨done.tree, .wrote ⟨item.1, surface.path, item.2⟩ :: w.log⟩
      match done.result with
      | .error _ => .error w'
      | .ok _ => .ok w'

/-- `tools.finish_proposal(rationale)` -/
def propose (rationale : Text) (w : Patch) : Except Patch Patch :=
  let done := finishProposal runner.tools w.tree rationale
  let w' : Patch := ⟨done.tree, .proposed rationale :: w.log⟩
  match done.result with
  | .error _ => .error w'
  | .ok _ => .ok w'

/-- Write the blocks in order, and then the rationale. -/
def patch (parsed : Surfaces) (rationale : Text) (begun : Patch) : Except Patch Patch :=
  (parsed.rows.foldlM (writeSurface runner exp) begun).bind (propose runner rationale)

def digits (n : ℕ) : Text := (toString n).toList

/-- The variant of an iteration. -/
def variantOf (step : ℕ) (parsed : Surfaces) : Variant where
  variantId := exp.experimentId ++ "-iter".toList ++ digits step
  changedSurfaces := (parsed.rows.map Prod.fst).insertionSort (· ≤ ·)

/-- Decide on what was evaluated, and go on, stop or give up. -/
def conclude (variant : Variant) (evaluation : Evaluation) (w : Patch) (s : LoopState) : LoopState :=
  let decision := decideCandidate s.baseline evaluation.report exp.editableSurfaceIds true false false
  { s with
    tree := w.tree
    feedback := if decision.accepted then s.feedback else decision.reason
    iterations := s.iterations ++ [⟨variant.variantId, variant.changedSurfaces, decision, evaluation.findings⟩]
    phase := if decision.accepted then .accepted
      else if (s.iterations.length + 1 : ℤ) < req.maxIterations then .running else .exhausted
    log := w.log }

/-- An iteration, once the planner has answered. -/
def advance (prompt response : Text) (s : LoopState) : LoopState :=
  match patch runner exp (contentsOf exp response) (rationaleOf exp response)
    ⟨s.tree, .asked prompt (some response) :: s.log⟩ with
  | .error w => { s with phase := .raised, tree := w.tree, log := w.log }
  | .ok w =>
      let variant := variantOf exp (s.iterations.length + 1) (contentsOf exp response)
      match evaluate host runner exp w.tree variant with
      | .error _ => { s with phase := .raised, tree := w.tree, log := w.log }
      | .ok evaluation => conclude exp req variant evaluation w s

/-- One iteration of `run_optimization_loop`.  An answer is `none` where the call raises. -/
def iterate (answer : Option Text) (s : LoopState) : Option LoopState :=
  if s.phase ≠ .running then none
  else
    match userPrompt host runner req s.feedback s.tree with
    | .error _ => some { s with phase := .raised }
    | .ok prompt =>
        match answer with
        | none => some { s with phase := .raised, log := .asked prompt none :: s.log }
        | some response => some (advance host runner exp req prompt response s)

/-! ### The start -/

/-- Why a run ends before its first iteration. -/
inductive Refusal where
  | instruction
  | maxIterations
  | baseline (why : EvalFault)

/-- What the `AgenticError` says, if it is one. -/
def Refusal.message : Refusal → Option Text
  | .instruction => some "loop instruction must be a non-empty string".toList
  | .maxIterations => some "max_iterations must be a positive integer".toList
  | .baseline (.refused why) => some why.message
  | .baseline .raised => none

def baselineVariant : Variant where
  variantId := exp.experimentId ++ "-baseline".toList
  changedSurfaces := []

/-- The checks of `run_optimization_loop`, and its state before the first iteration. -/
def start (t : Tree) : Except Refusal LoopState :=
  if strip req.instruction = [] then .error .instruction
  else if req.maxIterations ≤ 0 then .error .maxIterations
  else
    match evaluate host runner exp t (baselineVariant exp) with
    | .error why => .error (.baseline why)
    | .ok evaluation => .ok ⟨t, evaluation.report, [], [], .running, []⟩

end CyClaw.Optimizer

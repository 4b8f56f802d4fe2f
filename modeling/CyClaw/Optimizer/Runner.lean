/-
The fixture runner, `GitHubCodingRunner`.

An evaluation copies the fixture repository, puts the changed surfaces of a candidate over the copy, and looks for
the expected text of every case in it.  The copy is a tree of its own, with every link followed, so that a path in
it is its components and nothing else; the candidate's files are read from the workspace, where links lead
anywhere.
-/
import CyClaw.Harness.Workspace
import CyClaw.Lib.Fallible
import CyClaw.Optimizer.Gate

namespace CyClaw.Optimizer

open PyText Fallible
open CyClaw.Repo (Text Path Bytes Tree Finding Severity slashes parts windowsAbsolute)
open CyClaw.Harness (ProposerWorkspaceTools Value)

/-! ### Fixture paths -/

inductive RunnerError where
  | emptyPath
  | notRelative
  | escaped
  | undeclaredTrain (caseId : Text)
  | undeclaredHoldout (caseId : Text)
deriving DecidableEq

def RunnerError.message : RunnerError → Text
  | .emptyPath => "fixture path must be a non-empty relative string".toList
  | .notRelative => "fixture path must be relative".toList
  | .escaped => "fixture path escaped its root".toList
  | .undeclaredTrain _ => "train fixture case is not declared by the experiment".toList
  | .undeclaredHoldout _ => "holdout fixture case is not declared by the experiment".toList

/-- How an evaluation fails: with an `AgenticError`, or with an error of the interpreter. -/
inductive EvalFault where
  | refused (why : RunnerError)
  | raised
deriving DecidableEq

/-- The components `_safe_child` joins to its root. -/
def childParts (relative : Text) : Except RunnerError Path :=
  if relative = [] ∨ '\x00' ∈ relative then .error .emptyPath
  else if ['/'].isPrefixOf (slashes relative) ∨ windowsAbsolute relative then .error .notRelative
  else if parts relative = [] ∨ (parts relative).any (fun part => part = ['.', '.'] ∨ ':' ∈ part) then .error .escaped
  else .ok (parts relative)

/-- `_safe_child` -/
def safeChild (linkLimit : ℕ) (t : Tree) (root : Path) (relative : Text) : Except EvalFault Path :=
  match childParts relative with
  | .error why => .error (.refused why)
  | .ok ps =>
      match t.realpath linkLimit root with
      | .error _ => .error .raised
      | .ok root =>
          match t.realpath linkLimit (root ++ ps) with
          | .error _ => .error .raised
          | .ok candidate =>
              if candidate = root ∨ root.isPrefixOf candidate = false then .error (.refused .escaped)
              else .ok candidate

/-- The content of what `path.is_file()` takes for a file. -/
def contentAt (linkLimit : ℕ) (t : Tree) (p : Path) : Option Bytes :=
  match t.lookup linkLimit p with
  | .ok q => t.fileAt q
  | .error _ => none

/-! ### The runner -/

inductive Split where
  | trainVisible
  | holdoutHidden
deriving DecidableEq

structure FixtureCase where
  caseId : Text
  split : Split
  path : Text
  expectedText : Text
  namesCase : strip caseId ≠ []
  confined : ∃ ps, childParts path = .ok ps
  expects : expectedText ≠ []

/-- `banned` is what `policy.prompt_filter.banned_patterns` of the runner's configuration holds. -/
structure GitHubCodingRunner where
  fixtureRepo : Path
  tools : ProposerWorkspaceTools
  cases : List FixtureCase
  banned : List PyValue
  hasCase : cases ≠ []

/-- What is around the loop. -/
structure Host where
  re : Expressions
  /-- `shutil.copytree` comes through: no link leads nowhere, and everything can be read. -/
  copies : Tree → Bool
  /-- What `rglob("*")` of a directory lists, by the paths from there. -/
  rglob : Tree → Path → List Path
  /-- `str` of what a tool returns. -/
  str : Value → Text

/-- What a copy has of what a path leads to. -/
def copyEntry (linkLimit : ℕ) (t : Tree) (p : Path) : Option (Node Text Bytes) :=
  match t.lookup linkLimit p with
  | .ok q =>
      match t.entry q with
      | some .dir => some .dir
      | some (.file content) => some (.file content)
      | _ => none
  | .error _ => none

theorem copyEntry_dir {linkLimit : ℕ} {t : Tree} {p q : Path} (hlookup : t.lookup linkLimit p = .ok q)
    (hdir : t.isDir q = true) : copyEntry linkLimit t p = some .dir := by
  rw [copyEntry, hlookup]
  dsimp only
  rw [FileTree.entry_of_isDir hdir]

theorem copyEntry_parent {linkLimit : ℕ} {t : Tree} {p : Path} {name : Text}
    (h : copyEntry linkLimit t (p ++ [name]) ≠ none) : copyEntry linkLimit t p = some .dir := by
  unfold copyEntry at h
  split at h
  · rename_i q hlookup
    obtain ⟨d, hd, hdir, -⟩ := FileTree.lookup_concat hlookup
    exact copyEntry_dir hd hdir
  · exact absurd rfl h

theorem copyEntry_ne_link {linkLimit : ℕ} {t : Tree} {p : Path} {target : List (Hop Text)} :
    copyEntry linkLimit t p ≠ some (.link target) := by
  unfold copyEntry
  split
  · split <;> simp
  · simp

variable (host : Host) (runner : GitHubCodingRunner) (exp : Experiment)

/-- `shutil.copytree(self.fixture_repo, copied_root)` -/
def copytree (t : Tree) : Option Tree :=
  if h : host.copies t = true ∧ copyEntry runner.tools.linkLimit t runner.fixtureRepo = some .dir then
    some
      { entry := fun p => copyEntry runner.tools.linkLimit t (runner.fixtureRepo ++ p)
        root := by rw [List.append_nil]; exact h.2
        parents := fun p name hne => copyEntry_parent (by rwa [List.append_assoc]) }
  else none

/-- The text of `proposal.md`, if it can be read. -/
def proposalText (t : Tree) : Option Text :=
  ((contentAt runner.tools.linkLimit t runner.tools.proposalPath).bind decode).map universalNewlines

/-! ### The overlay -/

structure Overlay where
  tree : Tree
  findings : List Finding

def Overlay.flag (o : Overlay) (f : Finding) : Overlay := { o with findings := o.findings ++ [f] }

def unallowedCandidateFile : Finding :=
  ⟨.critical, "unallowed_candidate_file".toList, "candidate wrote an undeclared surface".toList⟩

def unallowedSurface : Finding :=
  ⟨.critical, "unallowed_surface".toList, "candidate changed an undeclared surface".toList⟩

def missingCandidateFile : Finding :=
  ⟨.critical, "missing_candidate_file".toList, "candidate did not provide its declared surface".toList⟩

/-- Put one changed surface over the copy. -/
def overlaySurface (t : Tree) (current : Path) (o : Overlay) (surfaceId : Text) : Except EvalFault Overlay :=
  match exp.surfaces.find? surfaceId with
  | none => .ok (o.flag unallowedSurface)
  | some surface =>
      if surface.editable = false then .ok (o.flag unallowedSurface)
      else
        match safeChild runner.tools.linkLimit t current surface.path with
        | .error e => .error e
        | .ok source =>
            match contentAt runner.tools.linkLimit t source with
            | none => .ok (o.flag missingCandidateFile)
            | some content =>
                match safeChild runner.tools.linkLimit o.tree [] surface.path with
                | .error e => .error e
                | .ok target =>
                    -- The directories above the target are made; a file in their place raises.
                    match o.tree.write target content with
                    | none => .error .raised
                    | some tree => .ok { o with tree }

/-- The files under `current/` that no surface of the experiment declares. -/
def undeclaredFiles (t : Tree) (current : Path) : List Path :=
  (host.rglob t current).filter fun p =>
    (contentAt runner.tools.linkLimit t (current ++ p)).isSome &&
      Repo.join p ∉ exp.surfaces.rows.map fun surface => slashes surface.path

/-- `_overlay_candidate` -/
def overlayCandidate (t copied : Tree) (variant : Variant) : Except EvalFault Overlay :=
  if variant.changedSurfaces = [] then .ok ⟨copied, []⟩
  else
    match t.realpath runner.tools.linkLimit runner.tools.currentDir with
    | .error _ => .error .raised
    | .ok current =>
        variant.changedSurfaces.foldlM (overlaySurface runner exp t current)
          ⟨copied, (undeclaredFiles host runner exp t current).map fun _ => unallowedCandidateFile⟩

/-! ### Evaluation -/

def hardcodingFinding : Finding :=
  ⟨.critical, "visible_case_hardcoding".toList, "candidate references a visible train case".toList⟩

/-- The inspection of the proposal, where a surface is changed. -/
def inspectProposal (t : Tree) (variant : Variant) : Except EvalFault (List Finding) :=
  if variant.changedSurfaces = [] then .ok []
  else
    match proposalText runner t with
    | none => .error .raised
    | some text =>
        .ok (inspectCandidateText host.re runner.banned text ++
          if detectVisibleCaseHardcoding host.re text exp.trainVisible then [hardcodingFinding] else [])

/-- `CaseResult(case.case_id, case.expected_text in text, float(case.expected_text in text))` -/
def resultOf (case : FixtureCase) (text : Text) : CaseResult where
  caseId := case.caseId
  passed := contains case.expectedText text
  score := if contains case.expectedText text then 1 else 0
  namesCase := case.namesCase
  bounded := by split <;> simp

/-- One case of `evaluate`. -/
def runCase (copied : Tree) (case : FixtureCase) : Except EvalFault CaseResult :=
  if case.split = .trainVisible ∧ case.caseId ∉ exp.trainVisible then
    .error (.refused (.undeclaredTrain case.caseId))
  else if case.split = .holdoutHidden ∧ case.caseId ∉ exp.holdoutHidden then
    .error (.refused (.undeclaredHoldout case.caseId))
  else
    match safeChild runner.tools.linkLimit copied [] case.path with
    | .error e => .error e
    | .ok path =>
        match contentAt runner.tools.linkLimit copied path with
        | none => .ok (resultOf case [])
        | some content =>
            match decode content with
            | none => .error .raised
            | some text => .ok (resultOf case (universalNewlines text))

structure Evaluation where
  report : RunReport
  findings : List Finding

def resultsOf (split : Split) (results : List (Split × CaseResult)) : List CaseResult :=
  (results.filter (·.1 = split)).map (·.2)

/-- `evaluate` -/
def evaluate (t : Tree) (variant : Variant) : Except EvalFault Evaluation :=
  match copytree host runner t with
  | none => .error .raised
  | some copied => do
      let o ← overlayCandidate host runner exp t copied variant
      let inspected ← inspectProposal host runner exp t variant
      let results ← runner.cases.mapM fun case => (runCase runner exp o.tree case).map fun r => (case.split, r)
      .ok ⟨buildRunReport variant (resultsOf .trainVisible results) (resultsOf .holdoutHidden results)
        (o.findings ++ inspected), o.findings ++ inspected⟩

/-! ### Paths in a copy -/

def Linkless (t : Tree) : Prop := ∀ p, t.linkAt p = none

section Paths

variable {linkLimit : ℕ} {t t' : Tree} {p q root ps : Path} {relative : Text} {content : Bytes}

theorem childParts_ok (h : childParts relative = .ok ps) : ps = parts relative := by
  unfold childParts at h
  split at h
  · cases h
  · split at h
    · cases h
    · split at h
      · cases h
      · exact (Except.ok.inj h).symm

theorem safeChild_ok (h : safeChild linkLimit t root relative = .ok q) :
    ∃ root', t.realpath linkLimit root = .ok root' ∧ t.realpath linkLimit (root' ++ parts relative) = .ok q := by
  unfold safeChild at h
  split at h
  · cases h
  · rename_i ps hparts
    obtain rfl := childParts_ok hparts
    split at h
    · cases h
    · rename_i root' hroot
      split at h
      · cases h
      · rename_i candidate hcandidate
        split at h
        · cases h
        · obtain rfl := Except.ok.inj h
          exact ⟨root', hroot, hcandidate⟩

theorem Linkless.clear (h : Linkless t) (p : Path) : t.Clear p := fun q _ => h q

/-- In a copy a path is its components. -/
theorem Linkless.safeChild (h : Linkless t) (hchild : safeChild linkLimit t [] relative = .ok q) :
    q = parts relative := by
  obtain ⟨root, hroot, hq⟩ := safeChild_ok hchild
  rw [FileTree.realpath_of_clear (h.clear [])] at hroot
  obtain rfl := Except.ok.inj hroot
  rw [FileTree.realpath_of_clear (h.clear _)] at hq
  exact (Except.ok.inj hq).symm

theorem Linkless.contentAt (h : Linkless t) (p : Path) : contentAt linkLimit t p = t.fileAt p := by
  unfold Optimizer.contentAt
  split
  · rename_i q hlookup
    have hreal := FileTree.realpath_of_lookup hlookup
    rw [FileTree.realpath_of_clear (h.clear p)] at hreal
    rw [Except.ok.inj hreal]
  · rename_i e hlookup
    cases hfile : t.fileAt p with
    | none => rfl
    | some content =>
        have hentry : t.entry p ≠ none := by
          intro hnone
          rw [FileTree.fileAt, hnone] at hfile
          cases hfile
        rw [FileTree.lookup_of_entry (h.clear p) hentry] at hlookup
        cases hlookup

theorem Linkless.write (h : Linkless t) (hwrite : t.write p content = some t') : Linkless t' := by
  intro q
  rw [FileTree.linkAt_write hwrite]
  exact h q

end Paths

section Specs

variable {host : Host} {runner : GitHubCodingRunner} {exp : Experiment} {t copied : Tree}

theorem linkless_copytree (h : copytree host runner t = some copied) : Linkless copied := by
  intro p
  unfold copytree at h
  split at h
  · rw [← Option.some.inj h, FileTree.linkAt]
    split
    · rename_i target hentry
      exact absurd hentry copyEntry_ne_link
    · rfl
  · cases h

/-! ### What an overlay does -/

/-- The content of a path of `current/`. -/
def candidateContent (runner : GitHubCodingRunner) (t : Tree) (p : Path) : Option Bytes :=
  match t.realpath runner.tools.linkLimit runner.tools.currentDir with
  | .error _ => none
  | .ok current =>
      match t.realpath runner.tools.linkLimit (current ++ p) with
      | .error _ => none
      | .ok source => contentAt runner.tools.linkLimit t source

def critical (findings : List Finding) : Bool := findings.any (·.severity = .critical)

theorem critical_append {fs gs : List Finding} : critical (fs ++ gs) = (critical fs || critical gs) :=
  List.any_append

/-- The place of a surface. -/
def placeOf (exp : Experiment) (surfaceId : Text) : Option Path :=
  (exp.surfaces.find? surfaceId).map fun surface => parts surface.path

/-- The surface stands over the copy, with what `current/` has of it. -/
structure Laid (runner : GitHubCodingRunner) (exp : Experiment) (t : Tree) (o o' : Overlay) (surfaceId : Text)
    (p : Path) : Prop where
  place : placeOf exp surfaceId = some p
  provided : (candidateContent runner t p).isSome = true
  fileAt_eq : ∀ q, o'.tree.fileAt q = if q = p then candidateContent runner t p else o.tree.fileAt q
  linkless : Linkless o'.tree
  findings_eq : o'.findings = o.findings

/-- A surface is flagged or laid over the copy. -/
theorem overlaySurface_ok {current : Path} {o o' : Overlay} {surfaceId : Text}
    (hcurrent : t.realpath runner.tools.linkLimit runner.tools.currentDir = .ok current) (ho : Linkless o.tree)
    (h : overlaySurface runner exp t current o surfaceId = .ok o') :
    (∃ f, f.severity = .critical ∧ o' = o.flag f) ∨ ∃ p, Laid runner exp t o o' surfaceId p := by
  unfold overlaySurface at h
  split at h
  · exact Or.inl ⟨unallowedSurface, rfl, (Except.ok.inj h).symm⟩
  · rename_i surface hsurface
    split at h
    · exact Or.inl ⟨unallowedSurface, rfl, (Except.ok.inj h).symm⟩
    · split at h
      · cases h
      · rename_i source hsource
        split at h
        · exact Or.inl ⟨missingCandidateFile, rfl, (Except.ok.inj h).symm⟩
        · rename_i content hcontent
          split at h
          · cases h
          · rename_i target htarget
            split at h
            · cases h
            · rename_i tree hwrite
              obtain rfl := Except.ok.inj h
              obtain rfl := ho.safeChild htarget
              -- `current/` has been resolved before, so the source is where its path leads.
              obtain ⟨root, hroot, hreal⟩ := safeChild_ok hsource
              rw [FileTree.realpath_of_clear (FileTree.clear_of_realpath hcurrent)] at hroot
              obtain rfl := Except.ok.inj hroot
              have hcandidate : candidateContent runner t (parts surface.path) = some content := by
                rw [candidateContent, hcurrent]
                dsimp only
                rw [hreal]
                exact hcontent
              refine Or.inr ⟨parts surface.path, ?_, ?_, ?_, ho.write hwrite, rfl⟩
              · rw [placeOf, hsurface]
                rfl
              · rw [hcandidate]
                rfl
              · intro q
                rw [hcandidate]
                exact FileTree.fileAt_write hwrite q

/-- The changed surfaces stand over the copy and nothing else does. -/
structure Overlaid (runner : GitHubCodingRunner) (t : Tree) (base overlaid : Tree) (places : List Path) : Prop where
  provided : ∀ p ∈ places, (candidateContent runner t p).isSome = true
  fileAt_eq : ∀ q, overlaid.fileAt q = if q ∈ places then candidateContent runner t q else base.fileAt q
  linkless : Linkless overlaid

theorem critical_flag {o : Overlay} {f : Finding} (hf : f.severity = .critical) :
    critical (o.flag f).findings = true := by
  show critical (o.findings ++ [f]) = true
  rw [critical_append]
  simp [critical, hf]

/-- A finding stays, and no link comes in. -/
theorem overlay_grows {current : Path} {o o' : Overlay} {ids : List Text}
    (hcurrent : t.realpath runner.tools.linkLimit runner.tools.currentDir = .ok current) (ho : Linkless o.tree)
    (h : ids.foldlM (overlaySurface runner exp t current) o = .ok o') :
    Linkless o'.tree ∧ (critical o.findings = true → critical o'.findings = true) := by
  induction ids generalizing o with
  | nil =>
      obtain rfl := Except.ok.inj h
      exact ⟨ho, fun hcritical => hcritical⟩
  | cons id ids ih =>
      rw [foldlM_cons] at h
      obtain ⟨o₁, hfirst, hrest⟩ := bind_eq_ok.mp h
      rcases overlaySurface_ok hcurrent ho hfirst with ⟨f, hf, rfl⟩ | ⟨p, hlaid⟩
      · have hflagged : Linkless (o.flag f).tree := ho
        obtain ⟨hlinkless, hgrows⟩ := ih hflagged hrest
        exact ⟨hlinkless, fun _ => hgrows (critical_flag hf)⟩
      · obtain ⟨hlinkless, hgrows⟩ := ih hlaid.linkless hrest
        exact ⟨hlinkless, hlaid.findings_eq ▸ hgrows⟩

theorem overlay_surfaces {current : Path} {o o' : Overlay} {ids : List Text}
    (hcurrent : t.realpath runner.tools.linkLimit runner.tools.currentDir = .ok current) (ho : Linkless o.tree)
    (h : ids.foldlM (overlaySurface runner exp t current) o = .ok o') (hclean : critical o'.findings = false) :
    critical o.findings = false ∧ Overlaid runner t o.tree o'.tree (ids.filterMap (placeOf exp)) := by
  induction ids generalizing o with
  | nil =>
      obtain rfl := Except.ok.inj h
      exact ⟨hclean, by simp, by simp, ho⟩
  | cons id ids ih =>
      rw [foldlM_cons] at h
      obtain ⟨o₁, hfirst, hrest⟩ := bind_eq_ok.mp h
      rcases overlaySurface_ok hcurrent ho hfirst with ⟨f, hf, rfl⟩ | ⟨p, hlaid⟩
      · have hflagged : Linkless (o.flag f).tree := ho
        rw [(overlay_grows hcurrent hflagged hrest).2 (critical_flag hf)] at hclean
        cases hclean
      · obtain ⟨hfindings, hprovided, hfileAt, hlinkless⟩ := ih hlaid.linkless hrest
        rw [hlaid.findings_eq] at hfindings
        refine ⟨hfindings, ?_, ?_, hlinkless⟩
        · rw [List.filterMap_cons_some hlaid.place]
          exact List.forall_mem_cons.mpr ⟨hlaid.provided, hprovided⟩
        · intro q
          rw [List.filterMap_cons_some hlaid.place, hfileAt, hlaid.fileAt_eq]
          by_cases hq : q = p
          · rw [if_pos hq, ← hq, ite_self, if_pos List.mem_cons_self]
          · rw [if_neg hq]
            refine if_congr ?_ rfl rfl
            rw [List.mem_cons, or_iff_right hq]

/-- **An overlay without a finding** is the copy with exactly the changed surfaces replaced. -/
theorem overlayCandidate_ok {variant : Variant} {o : Overlay} (hcopy : Linkless copied)
    (h : overlayCandidate host runner exp t copied variant = .ok o) (hclean : critical o.findings = false) :
    Overlaid runner t copied o.tree (variant.changedSurfaces.filterMap (placeOf exp)) := by
  unfold overlayCandidate at h
  split at h
  · rename_i hnone
    obtain rfl := Except.ok.inj h
    rw [hnone]
    exact ⟨by simp, by simp, hcopy⟩
  · split at h
    · cases h
    · rename_i current hcurrent
      have hbegun : Linkless (Overlay.mk copied
          ((undeclaredFiles host runner exp t current).map fun _ => unallowedCandidateFile)).tree := hcopy
      exact (overlay_surfaces hcurrent hbegun h hclean).2

theorem linkless_overlay {variant : Variant} {o : Overlay} (hcopy : Linkless copied)
    (h : overlayCandidate host runner exp t copied variant = .ok o) : Linkless o.tree := by
  unfold overlayCandidate at h
  split at h
  · obtain rfl := Except.ok.inj h
    exact hcopy
  · split at h
    · cases h
    · rename_i current hcurrent
      have hbegun : Linkless (Overlay.mk copied
          ((undeclaredFiles host runner exp t current).map fun _ => unallowedCandidateFile)).tree := hcopy
      exact (overlay_grows hcurrent hbegun h).1

/-! ### What an evaluation says -/

/-- The text a case finds. -/
def caseText (tree : Tree) (case : FixtureCase) : Text :=
  (((tree.fileAt (parts case.path)).bind decode).map universalNewlines).getD []

/-- The file of the case holds the text it expects. -/
def holds (tree : Tree) (case : FixtureCase) : Bool := contains case.expectedText (caseText tree case)

/-- The share of the cases that pass. -/
def share (tree : Tree) (cases : List FixtureCase) : ℚ := cases.countP (holds tree) / cases.length

/-- The experiment declares the case in its split. -/
def Declared (exp : Experiment) (case : FixtureCase) : Prop :=
  case.caseId ∈ match case.split with
    | .trainVisible => exp.trainVisible
    | .holdoutHidden => exp.holdoutHidden

theorem runCase_ok {case : FixtureCase} {r : CaseResult} (hcopy : Linkless copied)
    (h : runCase runner exp copied case = .ok r) : Declared exp case ∧ r = resultOf case (caseText copied case) := by
  unfold runCase at h
  split at h
  · cases h
  · rename_i htrain
    split at h
    · cases h
    · rename_i hholdout
      have hdeclared : Declared exp case := by
        unfold Declared
        cases hsplit : case.split with
        | trainVisible => simpa [hsplit] using htrain
        | holdoutHidden => simpa [hsplit] using hholdout
      refine ⟨hdeclared, ?_⟩
      split at h
      · cases h
      · rename_i path hpath
        rw [hcopy.safeChild hpath, hcopy.contentAt] at h
        split at h
        · rename_i hnone
          rw [caseText, hnone]
          exact (Except.ok.inj h).symm
        · rename_i content hcontent
          split at h
          · cases h
          · rename_i text htext
            rw [caseText, hcontent, Option.bind_some, htext]
            exact (Except.ok.inj h).symm

theorem sum_scores (tree : Tree) (cases : List FixtureCase) :
    ((cases.map fun case => resultOf case (caseText tree case)).map (·.score)).sum = cases.countP (holds tree) := by
  induction cases with
  | nil => rfl
  | cons case cases ih =>
      rw [List.map_cons, List.map_cons, List.sum_cons, ih, List.countP_cons]
      show (if holds tree case = true then (1 : ℚ) else 0) + _ = _
      split <;> simp [add_comm]

theorem scoreCases_eq (tree : Tree) (cases : List FixtureCase) :
    scoreCases (cases.map fun case => resultOf case (caseText tree case)) = share tree cases := by
  rw [scoreCases, sum_scores, List.length_map, share]
  split
  · rename_i hnil
    rw [List.isEmpty_map, List.isEmpty_iff] at hnil
    rw [hnil]
    simp
  · rfl

/-- The cases of one split. -/
def casesOf (split : Split) (cases : List FixtureCase) : List FixtureCase := cases.filter (·.split = split)

theorem resultsOf_eq (tree : Tree) (split : Split) (cases : List FixtureCase) :
    resultsOf split (cases.map fun case => (case.split, resultOf case (caseText tree case))) =
      (casesOf split cases).map fun case => resultOf case (caseText tree case) := by
  rw [resultsOf, List.filter_map, List.map_map]
  rfl

theorem countP_splits (p : FixtureCase → Bool) (cases : List FixtureCase) :
    (casesOf .trainVisible cases ++ casesOf .holdoutHidden cases).countP p = cases.countP p := by
  induction cases with
  | nil => rfl
  | cons case cases ih =>
      rw [List.countP_append] at ih ⊢
      unfold casesOf at ih ⊢
      rw [List.filter_cons, List.filter_cons, List.countP_cons, ← ih]
      cases case.split <;> simp [List.countP_cons] <;> omega

theorem passed_iff (tree : Tree) (cases : List FixtureCase) :
    (!(cases.map fun case => resultOf case (caseText tree case)).isEmpty &&
        (cases.map fun case => resultOf case (caseText tree case)).all (·.passed)) = true ↔
      cases ≠ [] ∧ ∀ case ∈ cases, holds tree case = true := by
  rw [Bool.and_eq_true, List.isEmpty_map, List.all_map, List.all_eq_true]
  cases cases <;> simp [holds, resultOf]

/-- **What an evaluation says** of the copy it has laid the changed surfaces over. -/
structure Evaluated (host : Host) (runner : GitHubCodingRunner) (exp : Experiment) (t : Tree) (variant : Variant)
    (e : Evaluation) (copied : Tree) (o : Overlay) : Prop where
  copy : copytree host runner t = some copied
  overlay : overlayCandidate host runner exp t copied variant = .ok o
  inspected : variant.changedSurfaces ≠ [] → e.report.hasCritical = false →
    ∃ text, proposalText runner t = some text ∧ Clean host.re runner.banned exp.trainVisible text
  unflagged : e.report.hasCritical = false → critical o.findings = false
  declared : ∀ case ∈ runner.cases, Declared exp case
  train : e.report.trainPassed = true ↔ casesOf .trainVisible runner.cases ≠ [] ∧
    ∀ case ∈ casesOf .trainVisible runner.cases, holds o.tree case = true
  holdout : e.report.holdoutPassed = true ↔ casesOf .holdoutHidden runner.cases ≠ [] ∧
    ∀ case ∈ casesOf .holdoutHidden runner.cases, holds o.tree case = true
  score : e.report.score = share o.tree runner.cases
  changed : e.report.changedSurfaces = variant.changedSurfaces

theorem inspectProposal_ok {variant : Variant} {fs : List Finding}
    (h : inspectProposal host runner exp t variant = .ok fs) (hchanged : variant.changedSurfaces ≠ [])
    (hclean : critical fs = false) :
    ∃ text, proposalText runner t = some text ∧ Clean host.re runner.banned exp.trainVisible text := by
  rw [inspectProposal, if_neg hchanged] at h
  split at h
  · cases h
  · rename_i text htext
    rw [← Except.ok.inj h, critical_append, Bool.or_eq_false_iff] at hclean
    obtain ⟨hinjection, hcase⟩ := hclean
    refine ⟨text, htext, inspectCandidateText_eq_nil.mp ?_, ?_⟩
    · unfold inspectCandidateText at hinjection ⊢
      split at hinjection
      · cases hinjection
      · rename_i hnone
        rw [if_neg hnone]
    · intro id hid hnames
      have hdetect := (detectVisibleCaseHardcoding_iff exp.namesTrain).mpr ⟨id, hid, hnames⟩
      rw [if_pos hdetect] at hcase
      cases hcase

theorem evaluate_ok {variant : Variant} {e : Evaluation} (h : evaluate host runner exp t variant = .ok e) :
    ∃ copied o, Evaluated host runner exp t variant e copied o := by
  unfold evaluate at h
  split at h
  · cases h
  · rename_i copied hcopy
    obtain ⟨o, hoverlay, h⟩ := bind_eq_ok.mp h
    obtain ⟨inspected, hinspected, h⟩ := bind_eq_ok.mp h
    obtain ⟨results, hresults, h⟩ := bind_eq_ok.mp h
    obtain rfl := Except.ok.inj h
    have hlinkless := linkless_overlay (linkless_copytree hcopy) hoverlay
    have hcases : ∀ case r, (runCase runner exp o.tree case).map (fun r => (case.split, r)) = .ok r →
        r = (case.split, resultOf case (caseText o.tree case)) := by
      intro case r hr
      obtain ⟨result, hrun, rfl⟩ := map_eq_ok.mp hr
      rw [(runCase_ok hlinkless hrun).2]
    have hdeclared : ∀ case ∈ runner.cases, Declared exp case := by
      intro case hcase
      obtain ⟨r, hr⟩ := ok_of_mapM hresults hcase
      obtain ⟨result, hrun, -⟩ := map_eq_ok.mp hr
      exact (runCase_ok hlinkless hrun).1
    rw [mapM_eq_map hcases hresults, resultsOf_eq, resultsOf_eq]
    refine ⟨copied, o, hcopy, hoverlay, fun hchanged hclean => ?_, fun hclean => ?_, hdeclared, passed_iff _ _,
      passed_iff _ _, ?_, rfl⟩
    · have hcritical : critical (o.findings ++ inspected) = false := hasCritical_buildRunReport.symm.trans hclean
      rw [critical_append, Bool.or_eq_false_iff] at hcritical
      exact inspectProposal_ok hinspected hchanged hcritical.2
    · have hcritical : critical (o.findings ++ inspected) = false := hasCritical_buildRunReport.symm.trans hclean
      rw [critical_append, Bool.or_eq_false_iff] at hcritical
      exact hcritical.1
    · show scoreCases (_ ++ _) = _
      rw [← List.map_append, scoreCases_eq, share, share, countP_splits]
      have hlength := countP_splits (fun _ => true) runner.cases
      rw [List.countP_true] at hlength
      rw [hlength]

end Specs

end CyClaw.Optimizer

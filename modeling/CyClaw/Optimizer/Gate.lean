/-
The deterministic gate of the harness optimizer: `core.py`, `governance.py` and `scoring.py`.

A candidate is judged by its report alone, in which its findings are strings and its cases are two booleans and
a score.  What the gate knows of texts is carried back to them by three lemmas: the two inspections find exactly
what is there (`inspectCandidateText_eq_nil`, `detectVisibleCaseHardcoding_iff`), and a gate string starts with
`critical:` exactly when its finding is critical (`hasCritical_buildRunReport`).
-/
import CyClaw.Lib.Table
import CyClaw.Repo.Loop
import CyClaw.Sanitizer.Gates
import Mathlib.Algebra.Order.Field.Rat
import Mathlib.Algebra.BigOperators.Group.List.Basic

namespace CyClaw.Optimizer

open PyText
open CyClaw.Repo (Text Path Bytes Tree Finding Severity)
open CyClaw.Sanitizer (Regexes patternSources owaspInjectionPatterns)

/-! ### Experiments -/

/-- The surface as the loop uses it. -/
structure Surface where
  surfaceId : Text
  path : Text
  editable : Bool := true
  namesSurface : strip surfaceId ≠ []
  namesPath : strip path ≠ []

/-- The id of no surface is another's, and a case is visible or hidden. -/
structure Experiment where
  experimentId : Text
  surfaces : Table Surface Text Surface.surfaceId
  trainVisible : List Text
  holdoutHidden : List Text
  namesExperiment : strip experimentId ≠ []
  hasSurface : surfaces.rows ≠ []
  namesTrain : ∀ id ∈ trainVisible, strip id ≠ []
  namesHoldout : ∀ id ∈ holdoutHidden, strip id ≠ []
  trainUnique : trainVisible.Nodup
  holdoutUnique : holdoutHidden.Nodup
  disjoint : ∀ id ∈ trainVisible, id ∉ holdoutHidden

def Experiment.editableSurfaceIds (exp : Experiment) : List Text :=
  (exp.surfaces.rows.filter (·.editable)).map (·.surfaceId)

theorem mem_editableSurfaceIds {exp : Experiment} {id : Text} :
    id ∈ exp.editableSurfaceIds ↔ ∃ surface, exp.surfaces.find? id = some surface ∧ surface.editable = true := by
  unfold Experiment.editableSurfaceIds
  rw [List.mem_map]
  constructor
  · rintro ⟨surface, hmem, rfl⟩
    obtain ⟨hmem, heditable⟩ := List.mem_filter.mp hmem
    exact ⟨surface, Table.find?_eq_some.mpr ⟨hmem, rfl⟩, heditable⟩
  · rintro ⟨surface, hfind, heditable⟩
    obtain ⟨hmem, rfl⟩ := Table.find?_eq_some.mp hfind
    exact ⟨surface, List.mem_filter.mpr ⟨hmem, heditable⟩, rfl⟩

/-- A candidate, as the runner reads it. -/
structure Variant where
  variantId : Text
  changedSurfaces : List Text

/-! ### Governance -/

/-- What `re` makes of the patterns: `\w`, and which letters are one under `IGNORECASE`. -/
structure Expressions where
  regexes : Regexes
  isWord : Char → Bool
  sameLetter : Char → Char → Bool

variable (re : Expressions)

/-- `compile_injection_patterns(build_injection_pattern_sources(cfg))`, where `banned` is what
`policy.prompt_filter.banned_patterns` holds.  A pattern that does not compile is left out. -/
def injectionPatterns (banned : List PyValue) : List (Text → Bool) :=
  (patternSources owaspInjectionPatterns banned).filterMap (re.regexes.compile false)

def injectionFinding : Finding :=
  ⟨.critical, "candidate_injection_pattern".toList,
    "candidate content matches a governed injection pattern".toList⟩

/-- `inspect_candidate_text` -/
def inspectCandidateText (banned : List PyValue) (text : Text) : List Finding :=
  if (injectionPatterns re banned).any fun found => found text then [injectionFinding] else []

/-- `[\w-]` does not match there. -/
def edge : Option Char → Bool
  | none => true
  | some c => !(re.isWord c || c = '-')

/-- What follows the id where a text starts with it. -/
def afterId : Text → Text → Option Text
  | [], t => some t
  | _ :: _, [] => none
  | k :: ks, c :: cs => if re.sameLetter k c then afterId ks cs else none

/-- The id stands at the start of a text, as a whole token. -/
def startsToken (id : Text) (prev : Option Char) (t : Text) : Bool :=
  edge re prev && (afterId re id t).any fun rest => edge re rest.head?

/-- The expression of `detect_visible_case_hardcoding`, searched from a character on. -/
def searchToken (id : Text) : Option Char → Text → Bool
  | prev, [] => startsToken re id prev []
  | prev, c :: cs => startsToken re id prev (c :: cs) || searchToken id (some c) cs

/-- `detect_visible_case_hardcoding` -/
def detectVisibleCaseHardcoding (text : Text) (visibleCaseIds : List Text) : Bool :=
  text ≠ [] && visibleCaseIds.any fun id => strip id ≠ [] && searchToken re (strip id) none text

/-- The text matches a governed pattern. -/
def Governed (banned : List PyValue) (text : Text) : Prop :=
  ∃ source ∈ patternSources owaspInjectionPatterns banned,
    ∃ found, re.regexes.compile false source = some found ∧ found text = true

/-- The text names the id as a whole token. -/
def Names (id text : Text) : Prop :=
  ∃ before mid after, text = before ++ (mid ++ after) ∧ List.Forall₂ (fun k c => re.sameLetter k c = true) id mid ∧
    edge re before.getLast? = true ∧ edge re after.head? = true

/-- What the gate is there to keep out of a candidate. -/
structure Clean (banned : List PyValue) (trainVisible : List Text) (text : Text) : Prop where
  notGoverned : ¬ Governed re banned text
  namesNone : ∀ id ∈ trainVisible, ¬ Names re (strip id) text

section Governance

variable {re : Expressions} {banned : List PyValue} {id text : Text} {ids : List Text}

theorem inspectCandidateText_eq_nil : inspectCandidateText re banned text = [] ↔ ¬ Governed re banned text := by
  have hany : ((injectionPatterns re banned).any fun found => found text) = true ↔ Governed re banned text := by
    rw [List.any_eq_true]
    unfold injectionPatterns Governed
    simp only [List.mem_filterMap]
    constructor
    · rintro ⟨found, ⟨source, hsource, hcompile⟩, hfound⟩
      exact ⟨source, hsource, found, hcompile, hfound⟩
    · rintro ⟨source, hsource, found, hcompile, hfound⟩
      exact ⟨found, ⟨source, hsource, hcompile⟩, hfound⟩
  rw [← hany, inspectCandidateText]
  split
  · rename_i h
    simp [h]
  · rename_i h
    simp [h]

theorem afterId_eq_some {t rest : Text} : afterId re id t = some rest ↔
    ∃ mid, t = mid ++ rest ∧ List.Forall₂ (fun k c => re.sameLetter k c = true) id mid := by
  induction id generalizing t with
  | nil =>
      rw [afterId, Option.some.injEq]
      constructor
      · rintro rfl
        exact ⟨[], rfl, .nil⟩
      · rintro ⟨mid, rfl, hmid⟩
        rw [List.forall₂_nil_left_iff.mp hmid]
        rfl
  | cons k ks ih =>
      cases t with
      | nil =>
          rw [afterId]
          refine iff_of_false (by simp) ?_
          rintro ⟨mid, hmid, hall⟩
          obtain ⟨rfl, -⟩ := List.append_eq_nil_iff.mp hmid.symm
          cases hall
      | cons c cs =>
          rw [afterId]
          constructor
          · intro h
            split at h
            · rename_i hsame
              obtain ⟨mid, rfl, hall⟩ := ih.mp h
              exact ⟨c :: mid, rfl, .cons hsame hall⟩
            · cases h
          · rintro ⟨mid, hmid, hall⟩
            cases hall with
            | cons hsame hall =>
                obtain ⟨rfl, rfl⟩ := List.cons.inj hmid
                rw [if_pos hsame]
                exact ih.mpr ⟨_, rfl, hall⟩

theorem startsToken_iff {prev : Option Char} {t : Text} : startsToken re id prev t = true ↔
    edge re prev = true ∧ ∃ mid after, t = mid ++ after ∧
      List.Forall₂ (fun k c => re.sameLetter k c = true) id mid ∧ edge re after.head? = true := by
  unfold startsToken
  rw [Bool.and_eq_true, Option.any_eq_true]
  refine and_congr_right fun _ => ?_
  constructor
  · rintro ⟨after, hafter, hedge⟩
    obtain ⟨mid, rfl, hall⟩ := afterId_eq_some.mp hafter
    exact ⟨mid, after, rfl, hall, hedge⟩
  · rintro ⟨mid, after, rfl, hall, hedge⟩
    exact ⟨after, afterId_eq_some.mpr ⟨mid, rfl, hall⟩, hedge⟩

/-- The search finds the id where it stands between two edges. -/
theorem searchToken_iff {prev : Option Char} {t : Text} : searchToken re id prev t = true ↔
    ∃ before mid after, t = before ++ (mid ++ after) ∧
      List.Forall₂ (fun k c => re.sameLetter k c = true) id mid ∧
      edge re (before.getLast?.or prev) = true ∧ edge re after.head? = true := by
  induction t generalizing prev with
  | nil =>
      rw [searchToken, startsToken_iff]
      constructor
      · rintro ⟨hedge, mid, after, heq, hall, hafter⟩
        exact ⟨[], mid, after, heq, hall, hedge, hafter⟩
      · rintro ⟨before, mid, after, heq, hall, hedge, hafter⟩
        obtain ⟨rfl, hnil⟩ := List.append_eq_nil_iff.mp heq.symm
        exact ⟨hedge, mid, after, hnil.symm, hall, hafter⟩
  | cons c cs ih =>
      rw [searchToken, Bool.or_eq_true, startsToken_iff, ih]
      constructor
      · rintro (⟨hedge, mid, after, heq, hall, hafter⟩ | ⟨before, mid, after, rfl, hall, hedge, hafter⟩)
        · exact ⟨[], mid, after, heq, hall, hedge, hafter⟩
        · refine ⟨c :: before, mid, after, rfl, hall, ?_, hafter⟩
          rw [List.getLast?_cons]
          cases hlast : before.getLast? <;> simpa [hlast] using hedge
      · rintro ⟨before, mid, after, heq, hall, hedge, hafter⟩
        cases before with
        | nil => exact Or.inl ⟨hedge, mid, after, heq, hall, hafter⟩
        | cons d before =>
            obtain ⟨rfl, rfl⟩ := List.cons.inj heq
            refine Or.inr ⟨before, mid, after, rfl, hall, ?_, hafter⟩
            rw [List.getLast?_cons] at hedge
            cases hlast : before.getLast? <;> simpa [hlast] using hedge

/-- The gate sees a visible case exactly where one is named. -/
theorem detectVisibleCaseHardcoding_iff (hids : ∀ id ∈ ids, strip id ≠ []) :
    detectVisibleCaseHardcoding re text ids = true ↔ ∃ id ∈ ids, Names re (strip id) text := by
  have hsearch : ∀ id, searchToken re id none text = true ↔ Names re id text := by
    intro id
    simp only [searchToken_iff, Names, Option.or_none]
  unfold detectVisibleCaseHardcoding
  rw [Bool.and_eq_true, decide_eq_true_eq, List.any_eq_true]
  constructor
  · rintro ⟨-, id, hid, hnames⟩
    exact ⟨id, hid, (hsearch _).mp (Bool.and_eq_true_iff.mp hnames).2⟩
  · rintro ⟨id, hid, hnames⟩
    refine ⟨?_, id, hid, Bool.and_eq_true_iff.mpr ⟨decide_eq_true (hids id hid), (hsearch _).mpr hnames⟩⟩
    rintro rfl
    obtain ⟨before, mid, after, heq, hall, -⟩ := hnames
    obtain ⟨-, heq⟩ := List.append_eq_nil_iff.mp heq.symm
    obtain ⟨rfl, -⟩ := List.append_eq_nil_iff.mp heq
    exact hids id hid (List.forall₂_nil_right_iff.mp hall)

end Governance

/-! ### Reports -/

def severityName : Severity → Text
  | .info => "info".toList
  | .warning => "warning".toList
  | .critical => "critical".toList

/-- `as_gate_string` -/
def asGateString (f : Finding) : Text := severityName f.severity ++ ": ".toList ++ f.code ++ ": ".toList ++ f.message

structure RunReport where
  variantId : Text
  trainPassed : Bool
  holdoutPassed : Bool
  score : ℚ
  changedSurfaces : List Text
  governanceFindings : List Text

/-- `has_critical_governance_finding` -/
def RunReport.hasCritical (r : RunReport) : Bool :=
  r.governanceFindings.any fun f => "critical:".toList.isPrefixOf (f.map Char.toLower)

theorem critical_prefix (severity : Severity) (rest : Text) :
    "critical:".toList.isPrefixOf ((severityName severity ++ (": ".toList ++ rest)).map Char.toLower) =
      decide (severity = .critical) := by
  cases severity <;> rfl

structure CaseResult where
  caseId : Text
  passed : Bool
  score : ℚ
  namesCase : strip caseId ≠ []
  bounded : 0 ≤ score ∧ score ≤ 1

/-- `score_cases`.  Each score is whole, so the sum is exact, and two quotients by the same number of cases
compare as floats as they do here. -/
def scoreCases (cases : List CaseResult) : ℚ :=
  if cases.isEmpty then 0 else (cases.map (·.score)).sum / cases.length

/-- `build_run_report` -/
def buildRunReport (variant : Variant) (trainCases holdoutCases : List CaseResult) (findings : List Finding) :
    RunReport where
  variantId := variant.variantId
  trainPassed := !trainCases.isEmpty && trainCases.all (·.passed)
  holdoutPassed := !holdoutCases.isEmpty && holdoutCases.all (·.passed)
  score := scoreCases (trainCases ++ holdoutCases)
  changedSurfaces := variant.changedSurfaces
  governanceFindings := findings.map asGateString

theorem hasCritical_buildRunReport {variant : Variant} {trainCases holdoutCases : List CaseResult}
    {findings : List Finding} :
    (buildRunReport variant trainCases holdoutCases findings).hasCritical = findings.any (·.severity = .critical) := by
  show (findings.map asGateString).any _ = _
  rw [List.any_map]
  congr 1
  funext f
  show "critical:".toList.isPrefixOf ((asGateString f).map Char.toLower) = _
  rw [asGateString, List.append_assoc, List.append_assoc, List.append_assoc]
  exact critical_prefix f.severity _

/-! ### The decision -/

inductive Gate where
  | trainFailed
  | holdoutFailed
  | scoreNotImproved
  | criticalGovernanceFinding
  | proposalMissing
  | visibleCaseHardcoding
  | verificationFailed
  | unallowedSurfaceChanged
deriving DecidableEq

def Gate.name : Gate → Text
  | .trainFailed => "candidate_train_failed".toList
  | .holdoutFailed => "candidate_holdout_failed".toList
  | .scoreNotImproved => "score_not_improved".toList
  | .criticalGovernanceFinding => "critical_governance_finding".toList
  | .proposalMissing => "proposal_missing".toList
  | .visibleCaseHardcoding => "visible_case_hardcoding".toList
  | .verificationFailed => "verification_failed".toList
  | .unallowedSurfaceChanged => "unallowed_surface_changed".toList

structure CandidateDecision where
  accepted : Bool
  reason : Text
  baselineScore : ℚ
  candidateScore : ℚ
  rejectedGates : List Gate

/-- `decide_candidate` -/
def decideCandidate (baseline candidate : RunReport) (allowedSurfaceIds : List Text)
    (proposalPresent visibleCaseHardcodingDetected verificationFailed : Bool) : CandidateDecision :=
  let rejected :=
    (if candidate.trainPassed then [] else [Gate.trainFailed]) ++
    (if candidate.holdoutPassed then [] else [.holdoutFailed]) ++
    (if candidate.score ≤ baseline.score then [.scoreNotImproved] else []) ++
    (if candidate.hasCritical then [.criticalGovernanceFinding] else []) ++
    (if proposalPresent then [] else [.proposalMissing]) ++
    (if visibleCaseHardcodingDetected then [.visibleCaseHardcoding] else []) ++
    (if verificationFailed then [.verificationFailed] else []) ++
    (if candidate.changedSurfaces.any (· ∉ allowedSurfaceIds) then [.unallowedSurfaceChanged] else [])
  { accepted := rejected.isEmpty
    reason := if rejected.isEmpty then "accepted".toList
      else "rejected: ".toList ++ ", ".toList.intercalate (rejected.map Gate.name)
    baselineScore := baseline.score
    candidateScore := candidate.score
    rejectedGates := rejected }

/-- **What is accepted passed every gate.** -/
theorem accepted_iff {baseline candidate : RunReport} {allowed : List Text}
    {proposalPresent visible verificationFailed : Bool} :
    (decideCandidate baseline candidate allowed proposalPresent visible verificationFailed).accepted = true ↔
      candidate.trainPassed = true ∧ candidate.holdoutPassed = true ∧ baseline.score < candidate.score ∧
        candidate.hasCritical = false ∧ proposalPresent = true ∧ visible = false ∧ verificationFailed = false ∧
        ∀ id ∈ candidate.changedSurfaces, id ∈ allowed := by
  have hallowed : candidate.changedSurfaces.any (fun id => decide (id ∉ allowed)) = false ↔
      ∀ id ∈ candidate.changedSurfaces, id ∈ allowed := by
    simp
  have hunless : ∀ (b : Bool) (g : Gate), (if b = true then [] else [g]) = [] ↔ b = true := by simp
  have hwhen : ∀ (b : Bool) (g : Gate), (if b = true then [g] else []) = [] ↔ b = false := by simp
  have hscore : ∀ g : Gate, (if candidate.score ≤ baseline.score then [g] else []) = [] ↔
      baseline.score < candidate.score := by simp
  unfold decideCandidate
  simp only [List.isEmpty_iff, List.append_eq_nil_iff, hunless, hwhen, hscore, hallowed, and_assoc]

end CyClaw.Optimizer

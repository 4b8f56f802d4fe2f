/-
What an accepted run stands for.

The decision is made from flat booleans, by a function that takes a missing report for no
objection.  That is sound because the checks are skipped only on a patch that is rejected
anyway (`accepted_iff`): so an accepted iteration wrote everything it proposed, and the
checks ran after the last of those writes and all passed (`accepted_step`).

The clone is never reset, so what an iteration wrote counts whether or not it was accepted.
`changed_of_step` follows the list of changed files through a step, and the number of times
the planner was asked is bounded by the iterations (`Within`).
-/
import CyClaw.Repo.WriteScope

namespace CyClaw.Repo

open PyText

section Acceptance

variable {env : Env} {req : Request} {turn : Turn} {s s' : LoopState} {response : Text}

/-! ### The decision -/

theorem accepted_iff {written : List Text} {verification : Option Report} {findings : List Finding}
    {writeFailed outOfScope overBudget : Bool} :
    (decideRealRepoCandidate written verification findings writeFailed outOfScope overBudget).accepted = true ↔
      written ≠ [] ∧ writeFailed = false ∧ findings.any (·.severity = .critical) = false ∧
        outOfScope = false ∧ overBudget = false ∧ ∀ report ∈ verification, report.ok = true := by
  unfold decideRealRepoCandidate
  dsimp only
  cases verification <;> cases writeFailed <;> cases outOfScope <;> cases overBudget <;>
    cases findings.any (·.severity = .critical) <;> cases written <;> simp

theorem quarantined_iff {written : List Text} {verification : Option Report} {findings : List Finding}
    {writeFailed outOfScope overBudget : Bool} :
    (decideRealRepoCandidate written verification findings writeFailed outOfScope overBudget).rejectedGates.any
        (· ∈ [Gate.criticalGovernanceFinding, .outOfScopeWrite, .writeBudgetExceeded]) =
      (findings.any (·.severity = .critical) || outOfScope || overBudget) := by
  unfold decideRealRepoCandidate
  dsimp only
  cases writeFailed <;> cases outOfScope <;> cases overBudget <;>
    cases findings.any (·.severity = .critical) <;> cases written <;>
    cases verification.any (fun report => !report.ok) <;> simp

/-! ### An accepted iteration -/

theorem cleared_eq (p : Proposal) :
    p.cleared = !(p.findings.any (·.severity = .critical) || !p.outOfScope.isEmpty || p.overBudget) := by
  unfold Proposal.cleared Proposal.hasCritical
  cases p.findings.any (·.severity = .critical) <;> cases p.outOfScope.isEmpty <;> cases p.overBudget <;> rfl

theorem verifiable_of_accepted {p : Proposal} {w : Writing} {verification : Option Report}
    (h : (decideRealRepoCandidate w.written verification p.findings w.writeFailed
      (!p.outOfScope.isEmpty) p.overBudget).accepted = true) : verifiable p w = true := by
  obtain ⟨hwritten, hfailed, hcritical, hscope, hbudget, -⟩ := accepted_iff.mp h
  have hscope : p.outOfScope.isEmpty = true := by simpa using hscope
  unfold verifiable Proposal.hasCritical
  rw [hfailed, hcritical, hbudget, hscope, List.isEmpty_eq_false_iff.mpr hwritten]
  rfl

theorem phase_conclude {p : Proposal} {w : Writing} {tree : Tree} {verification : Option Report}
    (h : (conclude env req turn p w tree verification s).phase = .accepted) :
    (decideRealRepoCandidate w.written verification p.findings w.writeFailed (!p.outOfScope.isEmpty)
      p.overBudget).accepted = true := by
  unfold conclude at h
  dsimp only at h
  split at h
  · assumption
  · split at h <;> cases h

/-- What an accepted iteration did: it wrote all it proposed, some file at least, and then
every check ran and passed. -/
structure Accepted (env : Env) (req : Request) (before s : LoopState) (response : Text) (writes : List Write)
    (report : Report) : Prop where
  noDuplicate : (assess env req response).duplicate = false
  noCritical : (assess env req response).hasCritical = false
  inScope : (assess env req response).outOfScope = []
  inBudget : (assess env req response).overBudget = false
  log_eq : s.log = .verified report :: (writes.map .wrote ++
    .asked (prompt env req before) (some response) :: before.log)
  wroteSome : writes ≠ []
  wroteAll : (writes.map (·.declared)).reverse = (assess env req response).files.map (·.1)
  ranAll : report.results.map (·.name) = req.checks.map (·.name)
  passed : ∀ r ∈ report.results, r.ok = true

theorem duplicate_files (h : (assess env req response).duplicate = true) :
    (assess env req response).files = [] := by
  have hnone : parseFileBlocks env.tools.unicode response = none := Option.isNone_iff_eq_none.mp h
  show (parseFileBlocks env.tools.unicode response).getD [] = []
  rw [hnone, Option.getD_none]

theorem names_runVerification (checks : List Check) (outcome : ℕ → Outcome) :
    (runVerification checks outcome).results.map (·.name) = checks.map (·.name) := by
  refine List.ext_getElem (by simp [runVerification]) ?_
  intro i h₁ h₂
  simp [runVerification]

/-- **An accepted iteration.** -/
theorem accepted_step (h : iterate env req turn s = some s') (hphase : s'.phase = .accepted) :
    ∃ response writes report, turn.response = some response ∧ Accepted env req s s' response writes report := by
  obtain ⟨hrunning, rfl | ⟨response, hresponse, rfl | ⟨w, hpatch, ⟨hskip, rfl⟩ | ⟨outcome, tree, hverify, -, rfl⟩⟩⟩⟩ :=
    iterate_cases h
  · cases hphase
  · cases hphase
  · -- A patch the checks skip is rejected.
    rw [verifiable_of_accepted (phase_conclude hphase)] at hskip
    cases hskip
  · obtain ⟨hwritten, hfailed, hcritical, hscope, hbudget, hok⟩ := accepted_iff.mp (phase_conclude hphase)
    obtain ⟨done, writes, hpatched, -, -, hdone⟩ := patch_spec env req turn response s
    rw [hpatch] at hpatched
    have hcleared : (assess env req response).cleared = true := by
      rw [cleared_eq, hcritical, hscope, hbudget]
      rfl
    have hall := hpatched.complete hfailed
    rw [hdone w hpatch hcleared] at hall
    refine ⟨response, writes, runVerification req.checks outcome, hresponse, ?_, hcritical, ?_, hbudget, ?_, ?_, ?_,
      names_runVerification _ _, ?_⟩
    · by_contra hdup
      rw [Bool.not_eq_false] at hdup
      rw [duplicate_files hdup] at hall
      exact hwritten hall
    · simpa using hscope
    · show Event.verified _ :: w.log = _
      rw [← hpatched.log_eq]
      rfl
    · intro hnil
      have hwrites : w.written = _ := hpatched.written_eq
      rw [hnil] at hwrites
      exact hwritten hwrites
    · rw [← hpatched.written_eq]
      exact hall
    · exact List.all_eq_true.mp (hok _ rfl)

/-! ### Every iteration -/

def isAsked : Event → Bool
  | .asked _ _ => true
  | _ => false

def declaredOf : Event → Option Text
  | .wrote w => some w.declared
  | _ => none

theorem declaredOf_writes (writes : List Write) :
    (writes.map Event.wrote).filterMap declaredOf = writes.map (·.declared) := by
  rw [List.filterMap_map]
  exact congrFun List.filterMap_eq_map writes

theorem mem_changedFiles {iterations : List Iteration} {path : Text} :
    path ∈ changedFiles iterations ↔ ∃ i ∈ iterations,
      i.decision.rejectedGates.any
        (· ∈ [Gate.criticalGovernanceFinding, .outOfScopeWrite, .writeBudgetExceeded]) = false ∧
      path ∈ i.changedFiles := by
  unfold changedFiles
  rw [List.mem_reverse, List.mem_dedup, List.mem_reverse, List.mem_flatMap]
  constructor
  · rintro ⟨i, hi, hpath⟩
    split at hpath
    · cases hpath
    · rename_i hgates
      exact ⟨i, hi, Bool.not_eq_true _ ▸ hgates, hpath⟩
  · rintro ⟨i, hi, hgates, hpath⟩
    refine ⟨i, hi, ?_⟩
    rw [if_neg (by rw [hgates]; nofun)]
    exact hpath

theorem changedFiles_nodup (iterations : List Iteration) : (changedFiles iterations).Nodup :=
  List.nodup_reverse.mpr (List.nodup_dedup _)

/-- The changed files are those the loop has written, while it has not been cut short. -/
def Tallied (s : LoopState) : Prop :=
  s.phase ≠ .raised → ∀ path, path ∈ changedFiles s.iterations ↔ path ∈ s.log.filterMap declaredOf

theorem PatchedBy.declared_log {done : List (Text × Text)} {writes : List Write} {w : Writing}
    (h : PatchedBy env req s response done writes w) :
    w.log.filterMap declaredOf = writes.map (·.declared) ++ s.log.filterMap declaredOf := by
  rw [h.log_eq, List.filterMap_append, declaredOf_writes]
  rfl

theorem tallied_conclude {p : Proposal} {w : Writing} {tree : Tree} {verification : Option Report}
    (hs : ∀ path, path ∈ changedFiles s.iterations ↔ path ∈ s.log.filterMap declaredOf)
    (hlog : ∀ path, path ∈ w.log.filterMap declaredOf ↔ path ∈ w.written ∨ path ∈ s.log.filterMap declaredOf)
    (hquarantine : p.cleared = false → w.written = []) (path : Text) :
    path ∈ changedFiles (conclude env req turn p w tree verification s).iterations ↔
      path ∈ (conclude env req turn p w tree verification s).log.filterMap declaredOf := by
  have hreport : (conclude env req turn p w tree verification s).log.filterMap declaredOf =
      w.log.filterMap declaredOf := by
    cases verification <;> rfl
  rw [hreport, hlog, ← hs, mem_changedFiles, mem_changedFiles]
  unfold conclude
  simp only [List.mem_append, List.mem_singleton, or_and_right, exists_or, exists_eq_left, quarantined_iff]
  rw [or_comm]
  refine or_congr_left ?_
  constructor
  · exact fun h => h.2
  · intro hpath
    refine ⟨?_, hpath⟩
    by_contra hgates
    rw [Bool.not_eq_false] at hgates
    rw [hquarantine (by rw [cleared_eq, hgates]; rfl)] at hpath
    cases hpath

theorem tallied_step (hs : Tallied s) (h : iterate env req turn s = some s') : Tallied s' := by
  intro hphase
  obtain ⟨hrunning, hcases⟩ := iterate_cases h
  have hs := hs (by rw [hrunning]; nofun)
  obtain rfl | ⟨response, -, hends⟩ := hcases
  · exact absurd rfl hphase
  · obtain ⟨done, writes, hpatched, -, hquarantine, -⟩ := patch_spec env req turn response s
    have hlog : ∀ path, path ∈ (settled (patch env req turn response s)).log.filterMap declaredOf ↔
        path ∈ (settled (patch env req turn response s)).written ∨ path ∈ s.log.filterMap declaredOf := by
      intro path
      rw [hpatched.declared_log, hpatched.written_eq, List.mem_append, List.mem_reverse]
    have hnone : (assess env req response).cleared = false →
        (settled (patch env req turn response s)).written = [] := by
      intro hcleared
      rw [hpatched.written_eq, hquarantine hcleared]
      rfl
    obtain rfl | ⟨w, hpatch, hends⟩ := hends
    · exact absurd rfl hphase
    · rw [hpatch] at hlog hnone
      obtain ⟨-, rfl⟩ | ⟨outcome, tree, -, -, rfl⟩ := hends
      · exact tallied_conclude hs hlog hnone
      · exact tallied_conclude hs hlog hnone

theorem tallied_run {tree : Tree} {first : LoopState} (hstart : start env req tree = .ok first)
    (h : Runs.Later (iterate env req) (fun _ _ => true) first s) : Tallied s := by
  refine h.invariant (I := Tallied) ?_ (fun hs _ => tallied_step hs)
  rw [(start_eq hstart).1]
  intro _ path
  rfl

/-- The planner has been asked once for each iteration, and no iteration is left over. -/
structure Within (req : Request) (s : LoopState) : Prop where
  asked : (s.log.countP isAsked : ℤ) ≤ req.maxIterations
  running : s.phase = .running → s.log.countP isAsked = s.iterations.length ∧
    (s.iterations.length : ℤ) < req.maxIterations

theorem PatchedBy.asked_log {done : List (Text × Text)} {writes : List Write} {w : Writing}
    (h : PatchedBy env req s response done writes w) : w.log.countP isAsked = s.log.countP isAsked + 1 := by
  have hwrites : (writes.map Event.wrote).countP isAsked = 0 := by
    rw [List.countP_eq_zero]
    intro e he
    obtain ⟨x, -, rfl⟩ := List.mem_map.mp he
    nofun
  rw [h.log_eq, List.countP_append, hwrites, List.countP_cons]
  simp [isAsked]

theorem within_conclude {p : Proposal} {w : Writing} {tree : Tree} {verification : Option Report}
    (hs : s.log.countP isAsked = s.iterations.length ∧ (s.iterations.length : ℤ) < req.maxIterations)
    (hlog : w.log.countP isAsked = s.log.countP isAsked + 1) :
    Within req (conclude env req turn p w tree verification s) := by
  have hreport : (conclude env req turn p w tree verification s).log.countP isAsked = w.log.countP isAsked := by
    cases verification <;> rfl
  have hlength : (conclude env req turn p w tree verification s).iterations.length = s.iterations.length + 1 := by
    simp [conclude]
  refine ⟨by omega, ?_⟩
  intro hphase
  refine ⟨by omega, ?_⟩
  unfold conclude at hphase
  dsimp only at hphase
  split at hphase
  · cases hphase
  · split at hphase
    · rename_i hlt
      rw [hlength]
      exact hlt
    · cases hphase

theorem within_step (hs : Within req s) (h : iterate env req turn s = some s') : Within req s' := by
  obtain ⟨hrunning, hcases⟩ := iterate_cases h
  obtain ⟨hasked, hlt⟩ := hs.running hrunning
  obtain rfl | ⟨response, -, hends⟩ := hcases
  · refine ⟨?_, by nofun⟩
    rw [List.countP_cons_of_pos rfl]
    omega
  · obtain ⟨done, writes, hpatched, -⟩ := patch_spec env req turn response s
    have hlog := hpatched.asked_log
    obtain rfl | ⟨w, hpatch, hends⟩ := hends
    · exact ⟨by show ((settled _).log.countP isAsked : ℤ) ≤ _; omega, by nofun⟩
    · rw [hpatch] at hlog
      obtain ⟨-, rfl⟩ | ⟨outcome, tree, -, -, rfl⟩ := hends
      · exact within_conclude ⟨hasked, hlt⟩ hlog
      · exact within_conclude ⟨hasked, hlt⟩ hlog

/-- An iteration that is quarantined, or proposes one destination twice, writes nothing. -/
theorem declared_of_refused (h : iterate env req turn s = some s') (hresponse : turn.response = some response)
    (hrefused : (assess env req response).hasCritical = true ∨ (assess env req response).outOfScope ≠ [] ∨
      (assess env req response).overBudget = true ∨ (assess env req response).duplicate = true) :
    s'.log.filterMap declaredOf = s.log.filterMap declaredOf := by
  obtain ⟨hlog, -⟩ | ⟨response', done, writes, w, reports, hresponse', hpatched, -, hquarantine, hlog, -⟩ :=
    iterate_log h
  · rw [hlog]
    rfl
  · rw [hresponse, Option.some.injEq] at hresponse'
    subst hresponse'
    have hnil : writes = [] := by
      by_cases hdup : (assess env req response).duplicate = true
      · cases hw : writes with
        | nil => rfl
        | cons x earlier =>
            have hproposed := (hw ▸ hpatched.landings).1.proposed
            rw [duplicate_files hdup] at hproposed
            cases hproposed
      · refine hquarantine ?_
        unfold Proposal.cleared
        rcases hrefused with hcritical | hscope | hbudget | hdup'
        · rw [hcritical]
          rfl
        · rw [List.isEmpty_eq_false_iff.mpr hscope, Bool.and_false, Bool.false_and]
        · rw [hbudget, Bool.not_true, Bool.and_false]
        · exact absurd hdup' hdup
    have hreports : (reports.map Event.verified).filterMap declaredOf = [] := by
      rw [List.filterMap_eq_nil_iff]
      intro e he
      obtain ⟨report, -, rfl⟩ := List.mem_map.mp he
      rfl
    rw [hlog, hnil, List.filterMap_append, hreports]
    rfl

/-- **Acceptance is sound**: an accepted run ends in an iteration that wrote all it proposed
and passed every check after its last write; and in every run a refused iteration writes
nothing, the changed files are exactly the declared paths of the writes, and the planner is
asked at most as often as allowed. -/
theorem acceptance_sound {tree : Tree} {first : LoopState} (hstart : start env req tree = .ok first)
    (h : Runs.Later (iterate env req) (fun _ _ => true) first s) :
    (s.phase = .accepted → ∃ before turn response writes report,
      Runs.Later (iterate env req) (fun _ _ => true) first before ∧ iterate env req turn before = some s ∧
        turn.response = some response ∧ Accepted env req before s response writes report ∧
        report.results ≠ []) ∧
    (∀ turn s' response, iterate env req turn s = some s' → turn.response = some response →
      (assess env req response).hasCritical = true ∨ (assess env req response).outOfScope ≠ [] ∨
        (assess env req response).overBudget = true ∨ (assess env req response).duplicate = true →
      s'.log.filterMap declaredOf = s.log.filterMap declaredOf) ∧
    (s.phase ≠ .raised → (changedFiles s.iterations).Nodup ∧
      ∀ path, path ∈ changedFiles s.iterations ↔ path ∈ s.log.filterMap declaredOf) ∧
    (s.log.countP isAsked : ℤ) ≤ req.maxIterations := by
  obtain ⟨hfirst, hmax, hchecks⟩ := start_eq hstart
  refine ⟨?_, fun _ _ _ => declared_of_refused, ?_, ?_⟩
  · intro hphase
    rcases Relation.ReflTransGen.cases_tail h with rfl | ⟨before, hbefore, turn, -, hstep⟩
    · rw [hfirst] at hphase
      cases hphase
    · obtain ⟨response, writes, report, hresponse, haccepted⟩ := accepted_step hstep hphase
      refine ⟨before, turn, response, writes, report, hbefore, hstep, hresponse, haccepted, ?_⟩
      intro hnil
      have hnames := haccepted.ranAll
      rw [hnil, List.map_nil, eq_comm, List.map_eq_nil_iff] at hnames
      exact hchecks hnames
  · intro hphase
    exact ⟨changedFiles_nodup _, tallied_run hstart h hphase⟩
  · have hwithin : Within req s := by
      refine h.invariant (I := Within req) ?_ (fun hs _ => within_step hs)
      rw [hfirst]
      exact ⟨Int.le_of_lt hmax, fun _ => ⟨rfl, hmax⟩⟩
    exact hwithin.asked

end Acceptance

/-- A run that is rejected for a protected path first, and accepted then. -/
theorem acceptance_sound_second :
    ∃ s, Runs.Later (iterate sampleEnv sampleRequest) (fun _ _ => true) linkedStart s ∧ s.phase = .accepted ∧
      s.iterations.length = 2 ∧ changedFiles s.iterations = ["src/a.py".toList] ∧
      (∃ before turn response writes report,
        Runs.Later (iterate sampleEnv sampleRequest) (fun _ _ => true) linkedStart before ∧
          iterate sampleEnv sampleRequest turn before = some s ∧ turn.response = some response ∧
          Accepted sampleEnv sampleRequest before s response writes report ∧ report.results ≠ []) := by
  obtain ⟨s, hrun, hs⟩ := (Option.any_eq_true _ _).mp (by decide +kernel :
    (Runs.run (iterate sampleEnv sampleRequest) (fun _ _ => true)
      [proposing "tests/test_x.py" "assert True", proposing "src/a.py" "x = 1"] linkedStart).any
        (fun s => s.phase = .accepted ∧ s.iterations.length = 2 ∧
          changedFiles s.iterations = ["src/a.py".toList]) = true)
  obtain ⟨hphase, hlength, hchanged⟩ := of_decide_eq_true hs
  refine ⟨s, .of_run hrun, hphase, hlength, hchanged, ?_⟩
  exact (acceptance_sound (rfl : start sampleEnv sampleRequest linkedClone = .ok linkedStart) (.of_run hrun)).1 hphase

end CyClaw.Repo

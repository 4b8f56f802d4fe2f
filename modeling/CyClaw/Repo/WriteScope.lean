/-
Where the loop's writes land.

The diff-scope gate looks at the name a file is proposed under, and the writer at where that
name leads.  The two differ where a directory on the way is a link, and a link into a
protected directory takes a write past the gate (`protected_file_overwritten`).  Nothing else
does: in a run in which no proposed path is led onto a protected location by a link, no
protected file is ever touched (`protected_files_untouched`).

A link at the path itself does no harm.  The jail sees it, so the backstop takes it for a
file that exists and was not shown, unless the loop has written under that name before.
-/
import CyClaw.Repo.Iteration

namespace CyClaw.Repo

open PyText

section Scope

variable {env : Env} {req : Request} {turn : Turn} {s s' : LoopState} {response : Text}

/-- Where a link leads a path, if one does. -/
def redirect (tools : Tools) (t : Tree) (declared : Text) : Option Path :=
  match t.resolve tools.linkLimit (parts declared) with
  | .ok landed => if landed = parts declared then none else some landed
  | .error _ => none

def isProtected (env : Env) (req : Request) (location : Path) : Bool :=
  matchesProtectedPath env.tools.unicode (join location) req.protectedWritePaths

/-- A path that a link leads onto a protected location, and that the backstop does not stop:
the loop has written under that name before, or the jail sees nothing there. -/
def sidesteps (env : Env) (req : Request) (s : LoopState) (declared : Text) : Bool :=
  (redirect env.tools s.tree declared).any (isProtected env req) &&
    (declared ∈ s.everWritten || (statFile s.tree declared).isNone)

/-- No path of a proposal that the gates clear sidesteps them. -/
def gateSeesLinks (env : Env) (req : Request) (s : LoopState) (turn : Turn) : Bool :=
  match turn.response with
  | none => true
  | some response =>
      !(assess env req response).cleared || (assess env req response).files.all fun f => !sidesteps env req s f.1

theorem Landings.lands {env : Env} {shown everWritten : List Text} {t : Tree} {files : List (Text × Text)}
    {writes : List Write} (h : Landings env shown everWritten t files writes) {w : Write} (hw : w ∈ writes) :
    ∃ earlier, earlier ⊆ writes ∧ Lands env shown everWritten t files earlier w := by
  induction writes with
  | nil => cases hw
  | cons x earlier ih =>
      rcases List.mem_cons.mp hw with rfl | hw
      · exact ⟨earlier, List.subset_cons_self _ _, h.1⟩
      · obtain ⟨before, hsub, hlands⟩ := ih h.2 hw
        exact ⟨before, List.Subset.trans hsub (List.subset_cons_self _ _), hlands⟩

/-- A proposed path that the writer takes is the path it goes by. -/
theorem Lands.join_parts {earlier : List Write} {w : Write}
    (h : Lands env (shownPaths env req s) s.everWritten s.tree (assess env req response).files earlier w) :
    join (parts w.declared) = w.declared :=
  (parseFileBlocks_filed env.tools.unicode response).canonical _ h.proposed _ h.canonical

theorem not_protected_of_cleared (hcleared : (assess env req response).cleared = true) {f : Text × Text}
    (hf : f ∈ (assess env req response).files) :
    matchesProtectedPath env.tools.unicode f.1 req.protectedWritePaths = false := by
  unfold Proposal.cleared at hcleared
  simp only [Bool.and_eq_true, List.isEmpty_iff] at hcleared
  have hout : (((assess env req response).files.map (·.1)).filter
      (matchesProtectedPath env.tools.unicode · req.protectedWritePaths)) = [] := hcleared.1.2
  rw [List.filter_eq_nil_iff] at hout
  exact Bool.eq_false_iff.mpr (hout f.1 (List.mem_map_of_mem hf))

/-- **A write lands outside the protected paths**, if no link leads it onto one. -/
theorem Lands.not_protected {earlier : List Write} {w : Write}
    (h : Lands env (shownPaths env req s) s.everWritten s.tree (assess env req response).files earlier w)
    (hcleared : (assess env req response).cleared = true) (hstep : sidesteps env req s w.declared = false) :
    isProtected env req w.landed = false := by
  by_cases heq : w.landed = parts w.declared
  · rw [isProtected, heq, h.join_parts]
    exact not_protected_of_cleared hcleared h.proposed
  · by_contra hprot
    rw [Bool.not_eq_false] at hprot
    have hredirect : redirect env.tools s.tree w.declared = some w.landed := by
      rw [redirect, h.leads]
      exact if_neg heq
    have hpassed : (decide (w.declared ∈ s.everWritten) || (statFile s.tree w.declared).isNone) = true := by
      rcases h.backstop with hshown | hever | hstat
      · -- A shown path is a file of its own, and leads to itself.
        obtain ⟨-, -, bytes, hfile, -⟩ := shown_in_prompt hshown
        have hself := h.leads.symm.trans (FileTree.resolve_of_fileAt hfile env.tools.linkLimit)
        exact absurd (Except.ok.inj hself) heq
      · rw [decide_eq_true hever, Bool.true_or]
      · rw [hstat, Option.isNone_none, Bool.or_true]
    rw [sidesteps, hredirect, Option.any_some, hprot, hpassed] at hstep
    cases hstep

/-- No write of an admitted iteration lands on a protected location. -/
theorem PatchedBy.not_protected {done : List (Text × Text)} {writes : List Write} {w : Writing}
    (hpatched : PatchedBy env req s response done writes w)
    (hquarantine : (assess env req response).cleared = false → writes = [])
    (hresponse : turn.response = some response) (hallow : gateSeesLinks env req s turn = true) {x : Write}
    (hx : x ∈ writes) : isProtected env req x.landed = false := by
  obtain ⟨earlier, -, hlands⟩ := hpatched.landings.lands hx
  cases hcleared : (assess env req response).cleared with
  | false =>
      rw [hquarantine hcleared] at hx
      cases hx
  | true =>
      refine hlands.not_protected hcleared ?_
      rw [gateSeesLinks, hresponse] at hallow
      simp only [hcleared, Bool.not_true, Bool.false_or, List.all_eq_true, Bool.not_eq_true'] at hallow
      exact hallow _ hlands.proposed

/-- What the claim about a run is carried by: every write so far landed outside. -/
def WritesOutside (env : Env) (req : Request) (s : LoopState) : Prop :=
  ∀ w, .wrote w ∈ s.log → isProtected env req w.landed = false

theorem writesOutside_step (hs : WritesOutside env req s) (hallow : gateSeesLinks env req s turn = true)
    (h : iterate env req turn s = some s') : WritesOutside env req s' := by
  intro w hw
  obtain ⟨hlog, -⟩ | ⟨response, done, writes, x, reports, hresponse, hpatched, -, hquarantine, hlog, -⟩ :=
    iterate_log h
  · rw [hlog] at hw
    exact hs w ((List.mem_cons.mp hw).resolve_left (by nofun))
  · rw [hlog] at hw
    simp only [List.mem_append, List.mem_map, List.mem_cons, reduceCtorEq, and_false, exists_false,
      false_or, Event.wrote.injEq, exists_eq_right] at hw
    rcases hw with hw | hw
    · exact hpatched.not_protected hquarantine hresponse hallow hw
    · exact hs w hw

/-- **No protected file is created or modified**: neither by a write so far, nor by the
writing part of any admitted iteration from here. -/
theorem protected_files_untouched {tree : Tree} {first : LoopState} (hstart : start env req tree = .ok first)
    (h : Runs.Later (iterate env req) (gateSeesLinks env req) first s) :
    (∀ w, .wrote w ∈ s.log → isProtected env req w.landed = false) ∧
      ∀ turn response location, gateSeesLinks env req s turn = true → turn.response = some response →
        isProtected env req location = true →
        (settled (patch env req turn response s)).tree.fileAt location = s.tree.fileAt location := by
  constructor
  · refine h.invariant (I := WritesOutside env req) ?_ writesOutside_step
    intro w hw
    rw [(start_eq hstart).1] at hw
    cases hw
  · intro turn response location hallow hresponse hprot
    obtain ⟨done, writes, hpatched, -, hquarantine, -⟩ := patch_spec env req turn response s
    rcases hpatched.frame location with hsame | ⟨x, hx, heq⟩
    · exact hsame
    · rw [← heq, hpatched.not_protected hquarantine hresponse hallow hx] at hprot
      cases hprot

end Scope

/-! ### Runs on a clone with two links -/

/-- The Unicode tables, as they read ASCII. -/
def ascii : Unicode := ⟨fun _ => false, fun c => [c.toLower]⟩

def sampleEnv : Env where
  tools := { allowGitWriteTools := true, linkLimit := 40, unicode := ascii }
  inspectCandidateText := fun _ => []
  inspectCodeShape := fun _ _ => []
  repr := fun t => "'".toList ++ t ++ "'".toList

def sampleRequest : Request where
  instruction := "Make the test pass".toList
  checks := [⟨"pytest".toList⟩]
  branchName := "agent/fix".toList
  commitMessage := "Make the test pass".toList
  maxIterations := 3
  reason := "trial".toList
  confirm := true
  protectedWritePaths := ["tests/".toList]

def testFile : Path := ["tests".toList, "test_x.py".toList]

/-- A clone in which `docs/linkdir` leads to `tests`, and `docs/code` to `src`. -/
def linkedClone : Tree :=
  FileTree.ofEntries
    [(["docs".toList], .dir),
      (["docs".toList, "linkdir".toList], .link [.up, .down "tests".toList]),
      (["docs".toList, "code".toList], .link [.up, .down "src".toList]),
      (["src".toList], .dir),
      (["tests".toList], .dir),
      (testFile, .file (encode "assert False".toList))] (by decide)

def linkedStart : LoopState := ⟨linkedClone, [], [], [], .running, []⟩

/-- The planner proposes one file, nothing is turned down, and the checks pass. -/
def proposing (path body : String) : Turn where
  response := some ("=== FILE " ++ path ++ " ===\n" ++ body ++ "\n=== END FILE ===").toList
  refuses := fun _ => false
  verification := some (fun _ => ⟨0, false, [], []⟩, linkedClone)
  nudge := []

def landings (log : List Event) : List (Path × Option Bytes) :=
  log.filterMap fun
    | .wrote w => some (w.landed, w.replaced)
    | _ => none

theorem wrote_of_landings {log : List Event} {p : Path × Option Bytes} (h : p ∈ landings log) :
    ∃ w, .wrote w ∈ log ∧ w.landed = p.1 ∧ w.replaced = p.2 := by
  obtain ⟨e, he, hp⟩ := List.mem_filterMap.mp h
  cases e with
  | asked prompt response => cases hp
  | verified report => cases hp
  | wrote w =>
      rw [Option.some.injEq] at hp
      exact ⟨w, he, by rw [← hp], by rw [← hp]⟩

/-- A write through a link to a directory that is not protected. -/
theorem protected_files_untouched_through_link :
    ∃ s, Runs.Later (iterate sampleEnv sampleRequest) (gateSeesLinks sampleEnv sampleRequest) linkedStart s ∧
      (∃ w, .wrote w ∈ s.log ∧ w.landed = ["src".toList, "a.py".toList]) ∧
      ∀ w, .wrote w ∈ s.log → isProtected sampleEnv sampleRequest w.landed = false := by
  obtain ⟨s, hrun, hs⟩ := (Option.any_eq_true _ _).mp (by decide +kernel :
    (Runs.run (iterate sampleEnv sampleRequest) (gateSeesLinks sampleEnv sampleRequest)
      [proposing "docs/code/a.py" "x = 1"] linkedStart).any
        (fun s => (["src".toList, "a.py".toList], none) ∈ landings s.log) = true)
  obtain ⟨w, hw, hlanded, -⟩ := wrote_of_landings (of_decide_eq_true hs)
  exact ⟨s, .of_run hrun, ⟨w, hw, hlanded⟩,
    (protected_files_untouched (rfl : start sampleEnv sampleRequest linkedClone = .ok linkedStart) (.of_run hrun)).1⟩

/-- **A protected file is overwritten**: the test that judges the candidate, under the name
of a link to its directory. -/
theorem protected_file_overwritten :
    start sampleEnv sampleRequest linkedClone = .ok linkedStart ∧
      ∃ s, Runs.Later (iterate sampleEnv sampleRequest) (fun _ _ => true) linkedStart s ∧
        ∃ w, .wrote w ∈ s.log ∧ w.landed = testFile ∧ w.replaced = some (encode "assert False".toList) ∧
          isProtected sampleEnv sampleRequest w.landed = true := by
  obtain ⟨s, hrun, hs⟩ := (Option.any_eq_true _ _).mp (by decide +kernel :
    (Runs.run (iterate sampleEnv sampleRequest) (fun _ _ => true)
      [proposing "docs/linkdir/test_x.py" "assert True"] linkedStart).any
        (fun s => (testFile, some (encode "assert False".toList)) ∈ landings s.log) = true)
  obtain ⟨w, hw, hlanded, hreplaced⟩ := wrote_of_landings (of_decide_eq_true hs)
  refine ⟨rfl, s, .of_run hrun, w, hw, hlanded, hreplaced, ?_⟩
  rw [hlanded]
  decide +kernel

end CyClaw.Repo

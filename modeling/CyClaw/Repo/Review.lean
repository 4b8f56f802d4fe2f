/-
What the human is shown, `_render_pending_diff`.

The text before a decision is put together from two readings of the clone: `git diff` for the
tracked files, and the full content of every recorded name that git lists as untracked.
Neither follows a link.  An approve stages the locations the names lead to, so the text and
the commit part where a link does: a file that is new at such a location is in neither
reading (`commit_unseen`).  Otherwise the text has everything in it that an approve commits
(`review_shows_commit_iff`).
-/
import CyClaw.Repo.Acceptance
import CyClaw.Repo.Approve

namespace CyClaw.Repo

open PyText

/-! ### The text -/

/-- How the programs a status check calls come out: the message of each that fails, and the
patch git prints for one tracked path, from what the index holds to what stands there. -/
structure StatusRun where
  attachFails : Option Text
  diffFails : Option Text
  statusFails : Option Text
  patch : Path → Blob → Option Blob → Text

/-- One piece of the text. -/
inductive PendingPart where
  | tracked (location : Path) (old : Blob) (new : Option Blob)
  | newFile (path content : Text)
deriving DecidableEq

def newFileText (path content : Text) : Text :=
  "--- new file: ".toList ++ path ++ " ---\n".toList ++ content

/-- The changes `git diff` prints: tracked paths that do not stand as the index has them. -/
def trackedChanges (c : Clone) : List PendingPart :=
  ((c.git.index.map (·.1)).dedup.insertionSort fun p q => join p ≤ join q).filterMap fun q =>
    (c.git.index.lookup q).bind fun old =>
      if blobAt c.tree q = some old then none else some (.tracked q old (blobAt c.tree q))

/-- Whether `untracked_files` lists a name. -/
def isUntracked (c : Clone) (path : Text) : Bool :=
  let location := path.splitOn '/'
  (blobAt c.tree location).isSome && (c.git.index.lookup location).isNone && !c.git.leavesOut location

/-- The message of a `read_file` that raises. -/
def readMessage (env : Env) (t : Tree) (target : Text) : Text :=
  match statFile t target with
  | some (.file content) =>
      if content.length > env.tools.maxReadBytes then
        "cannot read ".toList ++ env.repr target ++ " from the cloned repository".toList
      else env.repr target ++ " is not valid UTF-8 text".toList
  | _ => "cannot read ".toList ++ env.repr target ++ " from the cloned repository".toList

/-- Read the new files in turn, up to the first that cannot be read. -/
def newFileParts (env : Env) (t : Tree) : List Text → Except Text (List PendingPart)
  | [] => .ok []
  | path :: paths =>
      match readFile env.tools t path with
      | none => .error (readMessage env t path)
      | some content =>
          match newFileParts env t paths with
          | .error message => .error message
          | .ok rest => .ok (.newFile path content :: rest)

/-- What a status check prints. -/
inductive PendingDiff where
  | unavailable (message : Text)
  | truncated (text : Text)
  | whole (parts : List PendingPart) (text : Text)
deriving DecidableEq

def maxStatusDiffChars : ℕ := 20000

def PendingDiff.text : PendingDiff → Text
  | .unavailable message => "[diff unavailable: ".toList ++ message ++ "]".toList
  | .truncated text => text.take maxStatusDiffChars ++ "\n... [diff truncated at ".toList ++
      digits maxStatusDiffChars ++ " chars]".toList
  | .whole _ text =>
      if text = [] then
        "[no diff to show -- the candidate reported changed files, but none were tracked or new]".toList
      else text

def PendingPart.text (run : StatusRun) : PendingPart → Text
  | .tracked location old new => run.patch location old new
  | .newFile path content => newFileText path content

/-- The parts, joined: what `git diff` printed is one piece, if it printed anything. -/
def diffText (run : StatusRun) (changes news : List PendingPart) : Text :=
  let tracked := changes.flatMap (·.text run)
  "\n\n".toList.intercalate ((if tracked = [] then [] else [tracked]) ++ news.map (·.text run))

/-- `_render_pending_diff`. -/
def renderPendingDiff (env : Env) (run : StatusRun) (c : Clone) (changedFiles : List Text) : PendingDiff :=
  match run.attachFails with
  | some message => .unavailable message
  | none =>
      if env.tools.allowGitWriteTools = false then .unavailable Denial.disabled.message
      else
        match run.diffFails, run.statusFails with
        | some message, _ => .unavailable message
        | none, some message => .unavailable message
        | none, none =>
            match newFileParts env c.tree ((changedFiles.filter (isUntracked c)).dedup.mergeSort (· ≤ ·)) with
            | .error message => .unavailable message
            | .ok news =>
                let changes := trackedChanges c
                let text := diffText run changes news
                if text.length > maxStatusDiffChars then .truncated text else .whole (changes ++ news) text

/-! ### What is in it -/

section Text

variable {env : Env} {run : StatusRun} {c : Clone} {changed : List Text} {shown : List PendingPart} {text : Text}

theorem mem_trackedChanges {part : PendingPart} :
    part ∈ trackedChanges c ↔ ∃ q old, c.git.index.lookup q = some old ∧ blobAt c.tree q ≠ some old ∧
      part = .tracked q old (blobAt c.tree q) := by
  unfold trackedChanges
  simp only [List.mem_filterMap, List.mem_insertionSort, List.mem_dedup, Option.bind_eq_some_iff,
    Option.ite_none_left_eq_some, Option.some.injEq]
  constructor
  · rintro ⟨q, -, old, hold, hne, hpart⟩
    exact ⟨q, old, hold, hne, hpart.symm⟩
  · rintro ⟨q, old, hold, hne, hpart⟩
    obtain ⟨before, after, heq, -⟩ := List.lookup_eq_some_iff.mp hold
    exact ⟨q, by rw [heq]; simp, old, hold, hne, hpart.symm⟩

theorem mem_newFileParts {t : Tree} {paths : List Text} {news : List PendingPart}
    (h : newFileParts env t paths = .ok news) {part : PendingPart} :
    part ∈ news ↔ ∃ path ∈ paths, ∃ content, readFile env.tools t path = some content ∧
      part = .newFile path content := by
  induction paths generalizing news with
  | nil =>
      simp only [newFileParts, Except.ok.injEq] at h
      rw [← h]
      simp
  | cons path paths ih =>
      unfold newFileParts at h
      split at h
      · cases h
      · rename_i content hread
        split at h
        · cases h
        · rename_i rest hrest
          rw [Except.ok.injEq] at h
          rw [← h, List.mem_cons, ih hrest]
          simp [hread]

theorem newFileParts_reads {t : Tree} {paths : List Text} {news : List PendingPart}
    (h : newFileParts env t paths = .ok news) :
    ∀ path ∈ paths, ∃ content, readFile env.tools t path = some content := by
  induction paths generalizing news with
  | nil => nofun
  | cons path paths ih =>
      unfold newFileParts at h
      split at h
      · cases h
      · rename_i content hread
        split at h
        · cases h
        · rename_i rest hrest
          intro p hp
          rcases List.mem_cons.mp hp with rfl | hp
          · exact ⟨content, hread⟩
          · exact ih hrest p hp

theorem infix_diffText {changes news : List PendingPart} {part : PendingPart} (h : part ∈ changes ++ news) :
    part.text run <:+: diffText run changes news := by
  unfold diffText
  dsimp only
  rcases List.mem_append.mp h with h | h
  · have hpiece : part.text run <:+: changes.flatMap (·.text run) := by
      rw [List.flatMap_def]
      exact List.infix_of_mem_flatten (List.mem_map_of_mem h)
    split
    · rename_i hnil
      rw [hnil, List.infix_nil] at hpiece
      rw [hpiece]
      exact List.nil_infix
    · exact hpiece.trans (infix_intercalate (List.mem_append_left _ (List.mem_singleton_self _)))
  · exact infix_intercalate (List.mem_append_right _ (List.mem_map_of_mem h))

theorem renderPendingDiff_whole (h : renderPendingDiff env run c changed = .whole shown text) :
    ∃ news, newFileParts env c.tree ((changed.filter (isUntracked c)).dedup.mergeSort (· ≤ ·)) = .ok news ∧
      shown = trackedChanges c ++ news ∧ text = diffText run (trackedChanges c) news := by
  unfold renderPendingDiff at h
  split at h
  · cases h
  · split at h
    · cases h
    · split at h
      · cases h
      · cases h
      · split at h
        · cases h
        · rename_i news hnews
          dsimp only at h
          split at h
          · cases h
          · rw [PendingDiff.whole.injEq] at h
            exact ⟨news, hnews, h.1.symm, h.2.symm⟩

/-- What a text that is whole shows: the tracked changes, and every recorded name that git
lists as untracked, with its content. -/
theorem mem_whole (h : renderPendingDiff env run c changed = .whole shown text) {part : PendingPart} :
    part ∈ shown ↔
      (∃ q old, c.git.index.lookup q = some old ∧ blobAt c.tree q ≠ some old ∧
        part = .tracked q old (blobAt c.tree q)) ∨
      ∃ path ∈ changed, isUntracked c path = true ∧ ∃ content, readFile env.tools c.tree path = some content ∧
        part = .newFile path content := by
  obtain ⟨news, hnews, rfl, -⟩ := renderPendingDiff_whole h
  rw [List.mem_append, mem_trackedChanges, mem_newFileParts hnews]
  simp only [List.mem_mergeSort, List.mem_dedup, List.mem_filter, and_assoc]

/-- No listed name is left out for want of reading it: the text would not be whole. -/
theorem readFile_of_whole (h : renderPendingDiff env run c changed = .whole shown text) {path : Text}
    (hpath : path ∈ changed) (hnew : isUntracked c path = true) :
    ∃ content, readFile env.tools c.tree path = some content := by
  obtain ⟨news, hnews, -⟩ := renderPendingDiff_whole h
  refine newFileParts_reads hnews path ?_
  rw [List.mem_mergeSort, List.mem_dedup, List.mem_filter]
  exact ⟨hpath, hnew⟩

theorem infix_whole (h : renderPendingDiff env run c changed = .whole shown text) {part : PendingPart}
    (hpart : part ∈ shown) : part.text run <:+: (PendingDiff.whole shown text).text := by
  obtain ⟨news, -, rfl, htext⟩ := renderPendingDiff_whole h
  have hpiece : part.text run <:+: text := by
    rw [htext]
    exact infix_diffText hpart
  show _ <:+: if text = [] then _ else text
  split
  · rename_i hnil
    rw [hnil, List.infix_nil] at hpiece
    rw [hpiece]
    exact List.nil_infix
  · exact hpiece

end Text

/-! ### What is committed -/

section Review

variable {env : Env} {req : Request} {turn : Turn} {s s' : LoopState} {sha : Sha256} {preferred : Text}
  {run : GitRun} {rec : Record} {protectedWritePaths : List Text} {c c' : Clone} {status : StatusRun}
  {shown : List PendingPart} {text : Text}

/-- A location is in the text: as a tracked change from the index to what stands there, or as
a new file with all that it holds. -/
def ShownAt (status : StatusRun) (c : Clone) (shown : List PendingPart) (text : Text) (q : Path) : Prop :=
  (∃ old, .tracked q old (blobAt c.tree q) ∈ shown ∧ status.patch q old (blobAt c.tree q) <:+: text) ∨
    ∃ path content bytes, .newFile path content ∈ shown ∧ parts path = q ∧ c.tree.fileAt q = some bytes ∧
      decode bytes = some content ∧ newFileText path content <:+: text

/-- Every staged location whose committed blob is not the parent's is in the text. -/
def ShowsCommit (tools : Tools) (status : StatusRun) (rec : Record) (c c' : Clone) (shown : List PendingPart)
    (text : Text) : Prop :=
  ∀ q, LeadsTo tools rec c.tree q → c'.git.head.lookup q ≠ c.git.head.lookup q → ShownAt status c shown text q

/-- What git sees of the staged locations: one that does not stand as HEAD has it does not
stand as the index has it either, and is a recorded name itself if it is not tracked. -/
def GitSeesStaged (tools : Tools) (rec : Record) (c : Clone) : Prop :=
  ∀ q, LeadsTo tools rec c.tree q → blobAt c.tree q ≠ c.git.head.lookup q →
    c.git.index.lookup q ≠ blobAt c.tree q ∧
      (c.git.index.lookup q = none → ∃ p ∈ rec.changedFiles, parts p = q)

/-- Every name the loop wrote under is the one its components spell. -/
def DeclaresCanonical (s : LoopState) : Prop := ∀ w, .wrote w ∈ s.log → join (parts w.declared) = w.declared

theorem declaresCanonical_step (hs : DeclaresCanonical s) (h : iterate env req turn s = some s') :
    DeclaresCanonical s' := by
  intro w hw
  obtain ⟨hlog, -⟩ | ⟨response, done, writes, x, reports, -, hpatched, -, -, hlog, -⟩ := iterate_log h
  · rw [hlog] at hw
    exact hs w ((List.mem_cons.mp hw).resolve_left (by nofun))
  · rw [hlog] at hw
    simp only [List.mem_append, List.mem_map, List.mem_cons, reduceCtorEq, and_false, exists_false,
      false_or, Event.wrote.injEq, exists_eq_right] at hw
    rcases hw with hw | hw
    · obtain ⟨earlier, -, hlands⟩ := hpatched.landings.lands hw
      exact hlands.join_parts
    · exact hs w hw

theorem changedFiles_canonical {tree : Tree} {first : LoopState} (hstart : start env req tree = .ok first)
    (h : Runs.Later (iterate env req) (fun _ _ => true) first s) (hphase : s.phase ≠ .raised) {p : Text}
    (hp : p ∈ changedFiles s.iterations) : join (parts p) = p := by
  have hdeclares : DeclaresCanonical s := by
    refine h.invariant (I := DeclaresCanonical) ?_ (fun hs _ => declaresCanonical_step hs)
    intro w hw
    rw [(start_eq hstart).1] at hw
    cases hw
  have hlogged := (tallied_run hstart h hphase p).mp hp
  obtain ⟨e, he, hdeclared⟩ := List.mem_filterMap.mp hlogged
  cases e with
  | asked prompt response => cases hdeclared
  | verified report => cases hdeclared
  | wrote w =>
      rw [declaredOf, Option.some.injEq] at hdeclared
      rw [← hdeclared]
      exact hdeclares w he

theorem splitOn_of_canonical {p : Text} (h : join (parts p) = p) (hne : parts p ≠ []) :
    p.splitOn '/' = parts p := by
  have hsplit := List.splitOn_intercalate '/' (fun x hx => (mem_parts hx).2.2.1) hne
  rw [← join, h] at hsplit
  exact hsplit

/-- **The text shows what an approve commits exactly when git sees what it stages.**  The
names are those of an accepted run; the clone may stand as the run left it or not. -/
theorem review_shows_commit_iff {tree : Tree} {first : LoopState} (hstart : start env req tree = .ok first)
    (hrun : Runs.Later (iterate env req) (fun _ _ => true) first s) (haccepted : s.phase = .accepted)
    (hrec : rec.changedFiles = changedFiles s.iterations)
    (hwhole : renderPendingDiff env status c rec.changedFiles = .whole shown text)
    (happrove : finalizeRealRepoChange env.tools sha preferred run rec .approve protectedWritePaths c =
      (.ok .approved, c')) :
    ShowsCommit env.tools status rec c c' shown (PendingDiff.whole shown text).text ↔
      GitSeesStaged env.tools rec c := by
  have hcommitted := approved_committed happrove
  have hfile : ∀ p ∈ rec.changedFiles, ∀ q, c.tree.resolve env.tools.linkLimit (parts p) = .ok q →
      ∃ bytes, c.tree.fileAt q = some bytes := by
    intro p hp q hq
    obtain ⟨bytes, target, htarget, hbytes⟩ := hcommitted.holds p hp
    rw [Except.ok.inj (hq.symm.trans htarget)]
    exact ⟨bytes, hbytes⟩
  -- A name git lists is the location its components spell.
  have hsplit : ∀ p ∈ rec.changedFiles, p.splitOn '/' = parts p := by
    intro p hp
    refine splitOn_of_canonical ?_ ?_
    · rw [hrec] at hp
      exact changedFiles_canonical hstart hrun (by rw [haccepted]; decide) hp
    · intro hnil
      obtain ⟨bytes, target, htarget, hbytes⟩ := hcommitted.holds p hp
      rw [hnil, FileTree.resolve_of_clear c.tree.clear_root, Except.ok.injEq] at htarget
      rw [← htarget, FileTree.fileAt, c.tree.root] at hbytes
      cases hbytes
  constructor
  · intro hshows q hq hne
    rw [← hcommitted.staged q hq] at hne
    rcases hshows q hq hne with ⟨old, hpart, -⟩ | ⟨path, content, bytes, hpart, hparts, -, -, -⟩
    · rcases (mem_whole hwhole).mp hpart with ⟨q', old', hold, hdiffers, heq⟩ | ⟨path, -, -, content, -, heq⟩
      · rw [PendingPart.tracked.injEq] at heq
        obtain ⟨rfl, rfl, -⟩ := heq
        rw [hold]
        exact ⟨fun h => hdiffers h.symm, fun h => absurd h (Option.some_ne_none _)⟩
      · cases heq
    · rcases (mem_whole hwhole).mp hpart with ⟨q', old', -, -, heq⟩ | ⟨path', hpath, hnew, content', -, heq⟩
      · cases heq
      · rw [PendingPart.newFile.injEq] at heq
        obtain ⟨rfl, rfl⟩ := heq
        unfold isUntracked at hnew
        rw [hsplit path hpath, hparts] at hnew
        simp only [Bool.and_eq_true, Option.isNone_iff_eq_none] at hnew
        rw [hnew.1.2]
        refine ⟨?_, fun _ => ⟨path, hpath, hparts⟩⟩
        intro hnone
        rw [← hnone] at hnew
        cases hnew.1.1
  · intro hsees q hq hne
    rw [hcommitted.staged q hq] at hne
    obtain ⟨hdiffers, hnamed⟩ := hsees q hq hne
    obtain ⟨p, hp, hleads⟩ := hq
    obtain ⟨bytes, hbytes⟩ := hfile p hp q hleads
    cases hindex : c.git.index.lookup q with
    | some old =>
        rw [hindex] at hdiffers
        have hpart := (mem_whole hwhole).mpr (.inl ⟨q, old, hindex, Ne.symm hdiffers, rfl⟩)
        exact .inl ⟨old, hpart, infix_whole hwhole hpart⟩
    | none =>
        obtain ⟨path, hpath, rfl⟩ := hnamed hindex
        have hnew : isUntracked c path = true := by
          unfold isUntracked
          rw [hsplit path hpath]
          dsimp only
          rw [hindex, blobAt_of_fileAt hbytes, hcommitted.taken _ ⟨p, hp, hleads⟩]
          rfl
        obtain ⟨content, hread⟩ := readFile_of_whole hwhole hpath hnew
        have hpart := (mem_whole hwhole).mpr (.inr ⟨path, hpath, hnew, content, hread, rfl⟩)
        obtain ⟨bytes', hbytes', hdecode⟩ := readFile_eq_some hread
        exact .inr ⟨path, content, bytes', hpart, rfl, hbytes', hdecode, infix_whole hwhole hpart⟩

end Review

/-! ### Two reviews of one clone -/

/-- The clone after a run that added a source file, by its own name or through the link. -/
def reviewedTree : Tree :=
  FileTree.ofEntries
    [(["docs".toList], .dir),
      (["docs".toList, "linkdir".toList], .link [.up, .down "tests".toList]),
      (["docs".toList, "code".toList], .link [.up, .down "src".toList]),
      (["src".toList], .dir),
      (["src".toList, "a.py".toList], .file newSource),
      (["tests".toList], .dir),
      (testFile, .file (encode "assert False".toList))] (by decide)

def linkedSnapshot : Snapshot :=
  [(["docs".toList, "linkdir".toList], .link [.up, .down "tests".toList]),
    (["docs".toList, "code".toList], .link [.up, .down "src".toList]),
    (testFile, .file (encode "assert False".toList))]

def reviewedClone : Clone where
  tree := reviewedTree
  git :=
    { branches := ["main".toList]
      branch := "main".toList
      headId := baseHead
      head := linkedSnapshot
      index := linkedSnapshot
      ignored := fun _ => false }

/-- The planner proposes a source file, and the checks pass on the tree that has it. -/
def adding (path : String) : Turn :=
  { proposing path "x = 1" with verification := some (fun _ => ⟨0, false, [], []⟩, reviewedTree) }

def gitPrints : StatusRun := ⟨none, none, none, fun location _ _ => "diff --git a/".toList ++ join location⟩

theorem tree_of_accepted {env : Env} {req : Request} {turn : Turn} {s s' : LoopState}
    (h : iterate env req turn s = some s') (hphase : s'.phase = .accepted) :
    ∃ outcome, turn.verification = some (outcome, s'.tree) := by
  obtain ⟨-, rfl | ⟨response, -, rfl | ⟨w, -, ⟨hskip, rfl⟩ | ⟨outcome, tree, -, hverify, rfl⟩⟩⟩⟩ := iterate_cases h
  · cases hphase
  · cases hphase
  · rw [verifiable_of_accepted (phase_conclude hphase)] at hskip
    cases hskip
  · exact ⟨outcome, hverify⟩

/-- The run that adds a file under a name leaves the reviewed clone. -/
theorem adding_run {path : String} (h : (iterate sampleEnv sampleRequest (adding path) linkedStart).any
    (fun s => s.phase = .accepted ∧ changedFiles s.iterations = [path.toList]) = true) :
    ∃ s, Runs.Later (iterate sampleEnv sampleRequest) (fun _ _ => true) linkedStart s ∧ s.phase = .accepted ∧
      reviewedClone.tree = s.tree ∧ [path.toList] = changedFiles s.iterations := by
  obtain ⟨s, hstep, hs⟩ := (Option.any_eq_true _ _).mp h
  obtain ⟨hphase, hchanged⟩ := of_decide_eq_true hs
  obtain ⟨outcome, hverify⟩ := tree_of_accepted hstep hphase
  refine ⟨s, .single ⟨_, rfl, hstep⟩, hphase, ?_, hchanged.symm⟩
  exact (Prod.mk.inj (Option.some.inj hverify)).2

/-- A file that is new where its name says. -/
theorem review_shows_commit_source :
    ∃ s, Runs.Later (iterate sampleEnv sampleRequest) (fun _ _ => true) linkedStart s ∧ s.phase = .accepted ∧
      reviewedClone.tree = s.tree ∧ sourceRecord.changedFiles = changedFiles s.iterations ∧
      decided reviewedClone sourceRecord = (.ok .approved, (decided reviewedClone sourceRecord).2) ∧
      ∃ shown text, renderPendingDiff sampleEnv gitPrints reviewedClone sourceRecord.changedFiles =
          .whole shown text ∧
        ShowsCommit sampleEnv.tools gitPrints sourceRecord reviewedClone (decided reviewedClone sourceRecord).2
          shown (PendingDiff.whole shown text).text := by
  obtain ⟨s, hrun, hphase, htree, hchanged⟩ := @adding_run "src/a.py" (by decide +kernel)
  have happroved := decided_eq (by decide +kernel : isApproved (decided reviewedClone sourceRecord).1 = true)
  have hwhole : renderPendingDiff sampleEnv gitPrints reviewedClone sourceRecord.changedFiles =
      .whole [.newFile "src/a.py".toList "x = 1".toList] (newFileText "src/a.py".toList "x = 1".toList) := by
    decide +kernel
  refine ⟨s, hrun, hphase, htree, hchanged, happroved, _, _, hwhole, ?_⟩
  refine (review_shows_commit_iff (rfl : start sampleEnv sampleRequest linkedClone = .ok linkedStart) hrun hphase
    hchanged hwhole happroved).mpr ?_
  rintro q ⟨p, hp, hq⟩ -
  have hplace : reviewedClone.tree.resolve sampleEnv.tools.linkLimit (parts "src/a.py".toList) =
      .ok (parts "src/a.py".toList) := by decide +kernel
  rw [List.mem_singleton.mp hp, hplace, Except.ok.injEq] at hq
  rw [← hq]
  exact ⟨by decide +kernel, fun _ => ⟨_, hp, by rw [List.mem_singleton.mp hp]⟩⟩

/-- **A file is committed unseen**: it is new at a location that the recorded name reaches
through a link, and the text says that there is nothing to show. -/
theorem commit_unseen :
    start sampleEnv sampleRequest linkedClone = .ok linkedStart ∧
      ∃ s, Runs.Later (iterate sampleEnv sampleRequest) (fun _ _ => true) linkedStart s ∧ s.phase = .accepted ∧
        reviewedClone.tree = s.tree ∧ codeRecord.changedFiles = changedFiles s.iterations ∧
        decided reviewedClone codeRecord = (.ok .approved, (decided reviewedClone codeRecord).2) ∧
        renderPendingDiff sampleEnv gitPrints reviewedClone codeRecord.changedFiles = .whole [] [] ∧
        ¬ ShowsCommit sampleEnv.tools gitPrints codeRecord reviewedClone (decided reviewedClone codeRecord).2
          [] (PendingDiff.whole [] []).text := by
  obtain ⟨s, hrun, hphase, htree, hchanged⟩ := @adding_run "docs/code/a.py" (by decide +kernel)
  have happroved := decided_eq (by decide +kernel : isApproved (decided reviewedClone codeRecord).1 = true)
  refine ⟨rfl, s, hrun, hphase, htree, hchanged, happroved, by decide +kernel, ?_⟩
  intro hshows
  have hleads : LeadsTo sampleEnv.tools codeRecord reviewedClone.tree ["src".toList, "a.py".toList] :=
    ⟨_, List.mem_singleton_self _, by decide +kernel⟩
  have hne : (decided reviewedClone codeRecord).2.git.head.lookup ["src".toList, "a.py".toList] ≠
      reviewedClone.git.head.lookup ["src".toList, "a.py".toList] := by
    rw [(approved_committed happroved).staged _ hleads]
    decide +kernel
  rcases hshows _ hleads hne with ⟨old, hpart, -⟩ | ⟨path, content, bytes, hpart, -⟩
  · cases hpart
  · cases hpart

end CyClaw.Repo

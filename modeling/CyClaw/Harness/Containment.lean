/-
What the proposer's tools touch.

`InView` is what the proposer may read, and `Contained` says of one call that it returns
nothing else and writes nowhere but under `current/`.  A read by `read_file` keeps to it on
every tree: what it reads has been resolved, so no link stands on the way, and being inside
the root and outside `holdout_hidden` is then a matter of names.

Three calls do not look where they end up.  The surface manifest is read through whatever
link stands in its place, and the temporary file of a write is written through one; and a
target that is itself a link back into `current/` passes the check wherever the directory
it stands in really is.  `Guarded` says when none of this happens.
-/
import CyClaw.Lib.Fallible
import CyClaw.Harness.Workspace

namespace CyClaw.Harness

open CyClaw.Repo (Text Path Bytes Tree)

variable (tools : ProposerWorkspaceTools) (t : Tree)

/-- A place in the workspace and not under `holdout_hidden`. -/
def InView (q : Path) : Prop := tools.root <+: q ∧ ¬ tools.holdoutHiddenDir <+: q

/-- The proposal and the temporary file it is made from. -/
def proposalFiles : List Path := [tools.proposalPath, tools.root ++ [tmpName tools "proposal.md".toList]]

/-- The call returns nothing out of view, and the files it creates or replaces are under
`current/`, or the proposal. -/
def Contained (c : Call) : Prop :=
  (∀ v, (run tools t c).result = .ok v → ∀ q ∈ v.sources, InView tools q) ∧
    ∀ q ∈ (run tools t c).touched,
      match c with
      | .writeCurrentFile _ _ => tools.currentDir <+: q
      | .finishProposal _ => q ∈ proposalFiles tools
      | _ => False

/-- The directories above a file can be made and its temporary file opened. -/
def opens (dir : Path) (name : Text) : Bool :=
  match mkdirParents tools t dir.reverse with
  | .error _ => false
  | .ok t' =>
      match t'.lookup tools.linkLimit (dir ++ [tmpName tools name]) with
      | .error _ => false
      | .ok q => !t'.isDir q

/-- The tree leads a call nowhere else: the manifest, the temporary file and the directory of
the target are where their names say. -/
def Guarded : Call → Prop
  | .readSurfaceManifest =>
      ∀ q text, readText tools t tools.manifestPath = .ok (q, text) → tools.isObject text = true →
        InView tools q
  | .writeCurrentFile target _ =>
      ∀ dir name, resolveCurrentWrite tools t target = .ok (dir ++ [name]) →
        opens tools t dir name = true → ∀ tmp d,
        t.realpath tools.linkLimit (dir ++ [tmpName tools name]) = .ok tmp →
        t.realpath tools.linkLimit dir = .ok d →
        tools.currentDir <+: tmp ∧ tools.currentDir <+: d ++ [name]
  | .finishProposal content =>
      PyText.strip content ≠ [] → opens tools t tools.root "proposal.md".toList = true → ∀ tmp,
        t.realpath tools.linkLimit (tools.root ++ [tmpName tools "proposal.md".toList]) = .ok tmp →
        tmp ∈ proposalFiles tools
  | _ => True

variable {tools : ProposerWorkspaceTools} {t : Tree}

/-! ### Reading -/

/-- What has been resolved is in view. -/
theorem inView_of_resolved {target : Text} {p : Path} (hroot : t.Clear tools.root)
    (h : resolveExistingRead tools t target = .ok p) :
    t.lookup tools.linkLimit p = .ok p ∧ InView tools p := by
  unfold resolveExistingRead at h
  split at h
  · cases h
  · rename_i ps _
    split at h
    · cases h
    · split at h
      · cases h
      · cases h
      · rename_i resolved hstrict
        rw [FileTree.realpath_of_clear hroot] at h
        dsimp only at h
        split at h
        · cases h
        · rename_i hinside
          split at h
          · rename_i holdout hholdout
            split at h
            · cases h
            · rename_i houtside
              obtain rfl := Except.ok.inj h
              rw [FileTree.realpathStrict] at hstrict
              split at hstrict
              · rename_i q hlookup
                split at hstrict
                · rename_i hentry
                  obtain rfl := Except.ok.inj hstrict
                  have hclear := FileTree.clear_of_lookup hlookup
                  refine ⟨FileTree.lookup_of_entry hclear (Option.isSome_iff_ne_none.mp hentry),
                    List.isPrefixOf_iff_prefix.mp (by simpa using hinside), fun hhidden => houtside ?_⟩
                  -- Nothing on the way to what was resolved is a link, the holdout included.
                  rw [FileTree.realpath_of_clear (hclear.of_le hhidden), Except.ok.injEq] at hholdout
                  rw [← hholdout]
                  exact List.isPrefixOf_iff_prefix.mpr hhidden
                · cases hstrict
              · cases hstrict
          · cases h

theorem source_of_readText {p q : Path} {text : Text} (h : readText tools t p = .ok (q, text)) :
    t.lookup tools.linkLimit p = .ok q := by
  unfold readText at h
  split at h
  · cases h
  · rename_i q' hlookup
    split at h
    · cases h
    · split at h
      · cases h
      · split at h
        · cases h
        · rw [Except.ok.injEq, Prod.mk.injEq] at h
          rw [hlookup, h.1]

theorem inView_of_readFile {target text : Text} {q : Path} (hroot : t.Clear tools.root)
    (h : readFile tools t target = .ok (q, text)) : InView tools q := by
  unfold readFile at h
  split at h
  · cases h
  · rename_i p hresolved
    obtain ⟨hlookup, hview⟩ := inView_of_resolved hroot hresolved
    split at h
    · rw [source_of_readText h, Except.ok.injEq] at hlookup
      rw [hlookup]
      exact hview
    · cases h

theorem inView_of_readFlat {dir : Text} {files : List (Text × Path × Text)} (hroot : t.Clear tools.root)
    (h : readFlat tools t dir = .ok files) {f : Text × Path × Text} (hf : f ∈ files) :
    InView tools f.2.1 := by
  obtain ⟨name, -, hread⟩ := Fallible.mem_mapM h hf
  cases hfile : readFile tools t (dir ++ '/' :: name) with
  | error e =>
      rw [hfile] at hread
      cases hread
  | ok r =>
      rw [hfile] at hread
      rw [← Except.ok.inj hread]
      exact inView_of_readFile hroot hfile

/-! ### Writing -/

/-- What making directories changes: entries that were not there are directories now, all of
them on the way to the one asked for. -/
structure Grown (t t' : Tree) (d : Path) : Prop where
  isDir : t'.isDir d = true
  fresh : ∀ q, t'.entry q ≠ t.entry q → t.entry q = none ∧ t'.entry q = some .dir ∧ q <+: d

section Grown

variable {t t' : Tree} {d : Path}

theorem Grown.linkAt (h : Grown t t' d) (q : Path) : t'.linkAt q = t.linkAt q := by
  by_cases hq : t'.entry q = t.entry q
  · rw [FileTree.linkAt, hq, FileTree.linkAt]
  · obtain ⟨hnone, hdir, -⟩ := h.fresh q hq
    rw [FileTree.linkAt, hdir, FileTree.linkAt, hnone]

/-- Where the directory asked for was there, nothing has changed. -/
theorem Grown.entry_eq (h : Grown t t' d) (hd : t.entry d ≠ none) (q : Path) :
    t'.entry q = t.entry q := by
  by_contra hq
  obtain ⟨hnone, -, hle⟩ := h.fresh q hq
  by_cases heq : q = d
  · exact hd (heq ▸ hnone)
  · have hdir := FileTree.isDir_of_entry hd hle heq
    rw [FileTree.isDir, hnone] at hdir
    cases hdir

theorem grown_refl (h : t.isDir d = true) : Grown t t d := ⟨h, fun _ hq => absurd rfl hq⟩

end Grown

/-- What `os.mkdir` does when it succeeds. -/
theorem osMkdir_ok {t t' : Tree} {dir : Path} {name : Text} (h : osMkdir tools t dir name = .ok t') :
    ∃ d, t.lookup tools.linkLimit dir = .ok d ∧ t.entry (d ++ [name]) = none ∧
      t.edit (d ++ [name]) (some .dir) = some t' := by
  unfold osMkdir at h
  split at h
  · cases h
  · cases h
  · rename_i d hlookup
    split at h
    · cases h
    · rename_i hnone
      split at h
      · rename_i t'' hedit
        obtain rfl := Except.ok.inj h
        exact ⟨d, hlookup, hnone, hedit⟩
      · cases h
    · cases h

/-- Where it finds the directory and fails, the name is taken. -/
theorem osMkdir_taken {t : Tree} {dir d : Path} {name : Text} (hlookup : t.lookup tools.linkLimit dir = .ok d)
    (hdir : t.isDir d = true) (h : osMkdir tools t dir name = .error .other) :
    t.entry (d ++ [name]) ≠ none := by
  intro hnone
  have hset : t.settable (d ++ [name]) = true :=
    FileTree.settable_iff.mpr ⟨by simp, by rwa [List.dropLast_concat], by rw [FileTree.isDir, hnone]⟩
  rw [osMkdir, hlookup] at h
  dsimp only at h
  rw [FileTree.entry_of_isDir hdir, hnone] at h
  dsimp only at h
  rw [FileTree.edit, dif_pos hset] at h
  cases h

theorem isDirectory_iff {t : Tree} {p : Path} :
    isDirectory tools t p = true ↔ ∃ d, t.lookup tools.linkLimit p = .ok d ∧ t.isDir d = true := by
  unfold isDirectory
  cases t.lookup tools.linkLimit p <;> simp

/-- A directory made in one that was found. -/
theorem grown_mkdir {t t₁ t₂ : Tree} {dir d : Path} {name : Text} (hgrown : Grown t t₁ d)
    (hlookup : t₁.lookup tools.linkLimit dir = .ok d) (hnone : t₁.entry (d ++ [name]) = none)
    (hedit : t₁.edit (d ++ [name]) (some .dir) = some t₂) :
    t₂.lookup tools.linkLimit (dir ++ [name]) = .ok (d ++ [name]) ∧ Grown t t₂ (d ++ [name]) := by
  have hentry := FileTree.entry_edit hedit
  have hlinks : ∀ q, t₂.linkAt q = t₁.linkAt q :=
    FileTree.linkAt_edit hedit (by rw [FileTree.linkAt, hnone]) (by simp)
  have hmade : t₂.entry (d ++ [name]) = some .dir := by rw [hentry, Function.update_self]
  refine ⟨?_, ?_, fun q hq => ?_⟩
  · refine FileTree.lookup_snoc (FileTree.lookup_mono hlinks (fun _ => FileTree.isDir_edit hedit) hlookup)
      (FileTree.isDir_edit hedit hgrown.isDir) ?_
    rw [FileTree.linkAt, hmade]
  · rw [FileTree.isDir, hmade]
  · by_cases heq : q = d ++ [name]
    · rw [heq]
      refine ⟨?_, hmade, List.prefix_refl _⟩
      by_contra hne
      -- It was there before, and making directories takes nothing away.
      by_cases hsame : t₁.entry (d ++ [name]) = t.entry (d ++ [name])
      · exact hne (hsame ▸ hnone)
      · exact hne (hgrown.fresh _ hsame).1
    · rw [hentry, Function.update_of_ne heq] at hq ⊢
      obtain ⟨hnone', hdir, hle⟩ := hgrown.fresh q hq
      exact ⟨hnone', hdir, hle.trans (List.prefix_append d [name])⟩

theorem mkdirParents_grown {t t' : Tree} {above : List Text} (h : mkdirParents tools t above = .ok t') :
    ∃ d, t'.lookup tools.linkLimit above.reverse = .ok d ∧ Grown t t' d := by
  induction above generalizing t' with
  | nil =>
      obtain rfl := Except.ok.inj h
      exact ⟨[], FileTree.lookup_root, grown_refl (by rw [FileTree.isDir, t.root])⟩
  | cons name above ih =>
      rw [List.reverse_cons]
      unfold mkdirParents at h
      split at h
      · rename_i t₁ hmkdir
        obtain rfl := Except.ok.inj h
        obtain ⟨d, hlookup, hnone, hedit⟩ := osMkdir_ok hmkdir
        have hparent := (FileTree.settable_iff.mp (FileTree.settable_of_edit hedit)).2.1
        rw [List.dropLast_concat] at hparent
        exact ⟨d ++ [name], grown_mkdir (grown_refl hparent) hlookup hnone hedit⟩
      · split at h
        · rename_i hexists
          obtain rfl := Except.ok.inj h
          rw [List.reverse_cons] at hexists
          obtain ⟨d, hlookup, hdir⟩ := isDirectory_iff.mp hexists
          exact ⟨d, hlookup, grown_refl hdir⟩
        · cases h
      · split at h
        · cases h
        · rename_i t₁ habove
          obtain ⟨d, hlookup, hgrown⟩ := ih habove
          split at h
          · rename_i t₂ hmkdir
            obtain rfl := Except.ok.inj h
            obtain ⟨d', hlookup', hnone, hedit⟩ := osMkdir_ok hmkdir
            obtain rfl : d = d' := by simpa [hlookup] using hlookup'
            exact ⟨d ++ [name], grown_mkdir hgrown hlookup hnone hedit⟩
          · rename_i htaken
            split at h
            · rename_i hexists
              obtain rfl := Except.ok.inj h
              rw [List.reverse_cons] at hexists
              obtain ⟨d', hlookup', hdir'⟩ := isDirectory_iff.mp hexists
              -- The name is taken in a directory, so that directory was there all along.
              have hne := osMkdir_taken hlookup hgrown.isDir htaken
              have hsame : t₁.entry (d ++ [name]) = t.entry (d ++ [name]) := by
                by_contra hchanged
                have hlen := (hgrown.fresh _ hchanged).2.2.length_le
                rw [List.length_append, List.length_singleton] at hlen
                omega
              have hd : t.entry d ≠ none := by
                rw [t.parents d name (hsame ▸ hne)]
                exact Option.some_ne_none _
              exact ⟨d', hlookup', hdir', fun q hq => absurd (hgrown.entry_eq hd q) hq⟩
            · cases h
          · cases h

/-- A call whose temporary file cannot be opened touches no file. -/
theorem touched_of_unopened {t : Tree} {dir : Path} {name content : Text}
    (h : opens tools t dir name = false) : (atomicWrite tools t dir name content).touched = [] := by
  unfold opens at h
  unfold atomicWrite
  cases hmkdir : mkdirParents tools t dir.reverse with
  | error e => rfl
  | ok t₁ =>
    rw [hmkdir] at h
    dsimp only at h ⊢
    unfold writeText
    cases hlookup : t₁.lookup tools.linkLimit (dir ++ [tmpName tools name]) with
    | error e => rfl
    | ok q =>
      rw [hlookup] at h
      dsimp only at h
      have hset : ¬ t₁.settable q = true := fun hset => by
        rw [(FileTree.settable_iff.mp hset).2.2] at h
        cases h
      dsimp only
      rw [FileTree.edit, dif_neg hset]
      rfl

/-- The place a write begins from: the directories are made and the temporary file opens. -/
structure Opened (tools : ProposerWorkspaceTools) (t t₁ : Tree) (dir d tmp : Path) (name : Text) : Prop where
  made : mkdirParents tools t dir.reverse = .ok t₁
  grown : Grown t t₁ d
  inDir : t₁.lookup tools.linkLimit dir = .ok d
  inTmp : t₁.lookup tools.linkLimit (dir ++ [tmpName tools name]) = .ok tmp
  settable : t₁.settable tmp = true
  unlinked : t₁.linkAt (d ++ [tmpName tools name]) = none → tmp = d ++ [tmpName tools name]

theorem opened_of_opens {t : Tree} {dir : Path} {name : Text} (h : opens tools t dir name = true) :
    ∃ t₁ d tmp, Opened tools t t₁ dir d tmp name := by
  unfold opens at h
  split at h
  · cases h
  · rename_i t₁ hmkdir
    cases htmp : t₁.lookup tools.linkLimit (dir ++ [tmpName tools name]) with
    | error e =>
      rw [htmp] at h
      cases h
    | ok tmp =>
      rw [htmp] at h
      obtain ⟨d₀, hd₀, hgrown⟩ := mkdirParents_grown hmkdir
      obtain ⟨d, hd, -, hunlinked⟩ := FileTree.lookup_concat htmp
      rw [List.reverse_reverse, hd] at hd₀
      obtain rfl := Except.ok.inj hd₀
      have hfile : t₁.isDir tmp = false := by simpa using h
      refine ⟨t₁, d, tmp, hmkdir, hgrown, hd, htmp, FileTree.settable_iff.mpr ⟨?_, ?_, hfile⟩, hunlinked⟩
      · rintro rfl
        rw [FileTree.isDir, t₁.root] at hfile
        cases hfile
      · refine (FileTree.parent_of_lookup htmp).resolve_left ?_
        rintro rfl
        rw [FileTree.isDir, t₁.root] at hfile
        cases hfile

section Opened

variable {t t₁ : Tree} {dir d tmp : Path} {name : Text}

theorem Opened.realpath (h : Opened tools t t₁ dir d tmp name) :
    t.realpath tools.linkLimit (dir ++ [tmpName tools name]) = .ok tmp ∧
      t.realpath tools.linkLimit dir = .ok d :=
  ⟨FileTree.realpath_congr h.grown.linkAt (FileTree.realpath_of_lookup h.inTmp),
    FileTree.realpath_congr h.grown.linkAt (FileTree.realpath_of_lookup h.inDir)⟩

/-- Where the target is no directory, none stands at its place. -/
theorem Opened.isDir_target (h : Opened tools t t₁ dir d tmp name)
    (htarget : isDirectory tools t (dir ++ [name]) = false) : t₁.isDir (d ++ [name]) = false := by
  by_contra hdir
  rw [Bool.not_eq_false] at hdir
  have hsame : t₁.entry (d ++ [name]) = t.entry (d ++ [name]) := by
    by_contra hchanged
    have hlen := (h.grown.fresh _ hchanged).2.2.length_le
    rw [List.length_append, List.length_singleton] at hlen
    omega
  have hentry : t.entry (d ++ [name]) = some .dir := hsame ▸ FileTree.entry_of_isDir hdir
  have hd : t.entry d = some .dir := t.parents d name (by rw [hentry]; exact Option.some_ne_none _)
  have heq := h.grown.entry_eq (by rw [hd]; exact Option.some_ne_none _)
  have hlookup : t.lookup tools.linkLimit dir = .ok d := by
    refine FileTree.lookup_mono (fun q => (h.grown.linkAt q).symm) (fun q hq => ?_) h.inDir
    rw [FileTree.isDir, heq q] at hq
    exact hq
  have hthere : t.lookup tools.linkLimit (dir ++ [name]) = .ok (d ++ [name]) :=
    FileTree.lookup_snoc hlookup (by rw [FileTree.isDir, hd]) (by rw [FileTree.linkAt, hentry])
  rw [isDirectory, hthere] at htarget
  dsimp only at htarget
  rw [FileTree.isDir, hentry] at htarget
  cases htarget

/-- What the file system holds once the temporary file is written. -/
theorem Opened.written (h : Opened tools t t₁ dir d tmp name) (content : Text) :
    ∃ t₂, writeText tools t₁ (dir ++ [tmpName tools name]) content = some (t₂, tmp) ∧
      t₂.lookup tools.linkLimit dir = .ok d ∧ t₂.isDir d = true ∧
      t₂.entry (d ++ [tmpName tools name]) ≠ none ∧ t₂.isDir (d ++ [tmpName tools name]) = false ∧
      ∀ q, t₂.isDir q = true → t₁.isDir q = true := by
  obtain ⟨t₂, hedit⟩ : ∃ t₂, t₁.edit tmp (some (.file (PyText.encode content))) = some t₂ := by
    rw [FileTree.edit, dif_pos h.settable]
    exact ⟨_, rfl⟩
  have hentry := FileTree.entry_edit hedit
  have hlinks := FileTree.linkAt_edit hedit (FileTree.clear_of_lookup h.inTmp _ (List.prefix_refl _)) (by simp)
  -- The entry beside the target is the file just written, or the link it was written through.
  have hsrc : t₂.entry (d ++ [tmpName tools name]) ≠ none ∧ t₂.isDir (d ++ [tmpName tools name]) = false := by
    by_cases heq : d ++ [tmpName tools name] = tmp
    · rw [FileTree.isDir, hentry, heq, Function.update_self]
      exact ⟨Option.some_ne_none _, rfl⟩
    · have hlink : t₁.linkAt (d ++ [tmpName tools name]) ≠ none := fun hnone => heq (h.unlinked hnone).symm
      rw [FileTree.isDir, hentry, Function.update_of_ne heq]
      unfold FileTree.linkAt at hlink
      split at hlink
      · rename_i target hnode
        rw [hnode]
        exact ⟨Option.some_ne_none _, rfl⟩
      · exact absurd rfl hlink
  refine ⟨t₂, ?_, FileTree.lookup_mono hlinks (fun _ => FileTree.isDir_edit hedit) h.inDir,
    FileTree.isDir_edit hedit h.grown.isDir, hsrc.1, hsrc.2, fun q hq => ?_⟩
  · rw [writeText, h.inTmp]
    dsimp only
    rw [hedit]
    rfl
  · by_cases heq : q = tmp
    · rw [FileTree.isDir, hentry, heq, Function.update_self] at hq
      cases hq
    · rwa [FileTree.isDir, hentry, Function.update_of_ne heq] at hq

/-- A rename in a directory, wherever it ends, ends there. -/
theorem osReplace_dst {t t' : Tree} {src dst : Text} {q : Path} (h : osReplace tools t dir src dst = some (t', q))
    (hlookup : t.lookup tools.linkLimit dir = .ok d) : q = d ++ [dst] := by
  rw [osReplace, hlookup] at h
  dsimp only at h
  split at h
  · cases h
  · split at h
    · cases h
    · obtain ⟨t'', -, heq⟩ := Option.map_eq_some_iff.mp h
      rw [Prod.mk.injEq] at heq
      exact heq.2.symm

theorem osReplace_isSome {t : Tree} {src dst : Text} (hlookup : t.lookup tools.linkLimit dir = .ok d)
    (hdir : t.isDir d = true) (hsrc : t.entry (d ++ [src]) ≠ none) (hfile : t.isDir (d ++ [src]) = false)
    (hdst : t.isDir (d ++ [dst]) = false) : ∃ t', osReplace tools t dir src dst = some (t', d ++ [dst]) := by
  obtain ⟨node, hnode⟩ := Option.ne_none_iff_exists'.mp hsrc
  have hset : ∀ (t : Tree) name, t.isDir d = true → t.isDir (d ++ [name]) = false →
      t.settable (d ++ [name]) = true := fun t name hdir hname =>
    FileTree.settable_iff.mpr ⟨by simp, by rwa [List.dropLast_concat], hname⟩
  obtain ⟨t₁, hedit⟩ : ∃ t₁, t.edit (d ++ [src]) none = some t₁ := by
    rw [FileTree.edit, dif_pos (hset t src hdir hfile)]
    exact ⟨_, rfl⟩
  have hdst' : t₁.isDir (d ++ [dst]) = false := by
    rw [FileTree.isDir, FileTree.entry_edit hedit]
    by_cases heq : d ++ [dst] = d ++ [src]
    · rw [heq, Function.update_self]
    · rw [Function.update_of_ne heq]
      exact hdst
  obtain ⟨t₂, hedit'⟩ : ∃ t₂, t₁.edit (d ++ [dst]) (some node) = some t₂ := by
    rw [FileTree.edit, dif_pos (hset t₁ dst (FileTree.isDir_edit hedit hdir) hdst')]
    exact ⟨_, rfl⟩
  refine ⟨t₂, ?_⟩
  rw [osReplace, hlookup]
  dsimp only
  rw [hnode]
  dsimp only
  rw [hedit]
  dsimp only
  rw [hedit']
  rfl

/-- The files a write touches: the one its temporary name leads to, and the target's place in
the directory its path leads to. -/
theorem Opened.touched (h : Opened tools t t₁ dir d tmp name) (content : Text) :
    tmp ∈ (atomicWrite tools t dir name content).touched ∧
      (∀ q ∈ (atomicWrite tools t dir name content).touched, q = tmp ∨ q = d ++ [name]) ∧
      (isDirectory tools t (dir ++ [name]) = false →
        (atomicWrite tools t dir name content).touched = [tmp, d ++ [name]]) := by
  obtain ⟨t₂, hwrite, hdir, hisDir, hsrc, hfile, hdirs⟩ := h.written content
  unfold atomicWrite
  rw [h.made]
  dsimp only
  rw [hwrite]
  dsimp only
  refine ⟨?_, ?_, ?_⟩
  · split <;> exact List.mem_cons_self
  · intro q hq
    split at hq
    · exact Or.inl (List.mem_singleton.mp hq)
    · rename_i t₃ dst hreplace
      rw [osReplace_dst hreplace hdir] at hq
      simpa using hq
  · intro htarget
    have hdst : t₂.isDir (d ++ [name]) = false := by
      by_contra hne
      rw [Bool.not_eq_false] at hne
      have hbefore := hdirs _ hne
      rw [h.isDir_target htarget] at hbefore
      cases hbefore
    obtain ⟨t₃, hreplace⟩ := osReplace_isSome hdir hisDir hsrc hfile hdst
    rw [hreplace]

end Opened

/-! ### The calls -/

theorem resolveCurrentWrite_ok {target : Text} {path : Path}
    (h : resolveCurrentWrite tools t target = .ok path) :
    path ≠ [] ∧ isDirectory tools t path = false := by
  unfold resolveCurrentWrite at h
  split at h
  · cases h
  · split at h
    · cases h
    · split at h
      · cases h
      · split at h
        · cases h
        · split at h
          · cases h
          · rename_i hfile
            obtain rfl := Except.ok.inj h
            exact ⟨by simp [ProposerWorkspaceTools.currentDir], by simpa using hfile⟩

/-- A call that only reads. -/
theorem contained_read {c : Call} {r : Except Fault Value} (hrun : run tools t c = { result := r, tree := t })
    (hview : ∀ v, r = .ok v → ∀ q ∈ v.sources, InView tools q) : Contained tools t c := by
  unfold Contained
  rw [hrun]
  exact ⟨hview, fun q hq => absurd hq List.not_mem_nil⟩

theorem contained_readFlat (hroot : t.Clear tools.root) {c : Call} {dir : Text}
    (hrun : run tools t c = { result := (readFlat tools t dir).map .texts, tree := t }) :
    Contained tools t c := by
  refine contained_read hrun fun v hv => ?_
  cases hread : readFlat tools t dir with
  | error e =>
      rw [hread] at hv
      cases hv
  | ok files =>
      rw [hread] at hv
      rw [← Except.ok.inj hv]
      intro q hq
      obtain ⟨f, hf, rfl⟩ := List.mem_map.mp hq
      exact inView_of_readFlat hroot hread hf

/-- A value without sources reads nothing. -/
theorem map_written_sources {r : Except Fault Unit} {n : ℕ} {v : Value}
    (h : (r.map fun _ => Value.written n) = .ok v) : v.sources = [] := by
  cases r with
  | error e => cases h
  | ok u =>
      rw [← Except.ok.inj h]
      rfl

theorem run_writeCurrentFile {target content name : Text} {dir : Path}
    (h : resolveCurrentWrite tools t target = .ok (dir ++ [name])) :
    run tools t (.writeCurrentFile target content) =
      { atomicWrite tools t dir name content with
        result := (atomicWrite tools t dir name content).result.map fun _ =>
          .written (PyText.encode content).length } := by
  rw [run, writeCurrentFile, h]
  dsimp only
  rw [List.getLast?_concat, List.dropLast_concat]

theorem contained_writeCurrentFile_iff {target content : Text} :
    Contained tools t (.writeCurrentFile target content) ↔
      Guarded tools t (.writeCurrentFile target content) := by
  cases hresolve : resolveCurrentWrite tools t target with
  | error e =>
      refine iff_of_true (contained_read (r := .error e) ?_ fun v hv => by cases hv) ?_
      · rw [run, writeCurrentFile, hresolve]
      · intro dir name h
        rw [hresolve] at h
        cases h
  | ok path =>
      obtain ⟨hne, hfile⟩ := resolveCurrentWrite_ok hresolve
      obtain ⟨dir, name, rfl⟩ := (List.eq_nil_or_concat path).resolve_left hne
      rw [List.concat_eq_append] at hresolve hfile
      unfold Contained Guarded
      rw [run_writeCurrentFile hresolve]
      dsimp only
      have hsources : ∀ v, (atomicWrite tools t dir name content).result.map
          (fun _ => Value.written (PyText.encode content).length) = .ok v → ∀ q ∈ v.sources,
          InView tools q := by
        intro v hv
        rw [map_written_sources hv]
        exact fun q hq => absurd hq List.not_mem_nil
      cases hopens : opens tools t dir name with
      | false =>
          rw [touched_of_unopened hopens]
          refine iff_of_true ⟨hsources, fun q hq => absurd hq List.not_mem_nil⟩ ?_
          intro dir' name' h hopens'
          obtain ⟨rfl, hname⟩ := List.append_inj' (Except.ok.inj (hresolve.symm.trans h)) rfl
          obtain rfl : name = name' := by simpa using hname
          rw [hopens] at hopens'
          cases hopens'
      | true =>
          obtain ⟨t₁, d, tmp, hopened⟩ := opened_of_opens hopens
          rw [(hopened.touched content).2.2 hfile]
          constructor
          · rintro ⟨-, htouched⟩ dir' name' h - tmp' d' htmp hd
            obtain ⟨rfl, hname⟩ := List.append_inj' (Except.ok.inj (hresolve.symm.trans h)) rfl
            obtain rfl : name = name' := by simpa using hname
            rw [hopened.realpath.1, Except.ok.injEq] at htmp
            rw [hopened.realpath.2, Except.ok.injEq] at hd
            rw [← htmp, ← hd]
            exact ⟨htouched tmp (by simp), htouched (d ++ [name]) (by simp)⟩
          · intro hguarded
            obtain ⟨htmp, hd⟩ := hguarded dir name hresolve hopens tmp d hopened.realpath.1 hopened.realpath.2
            refine ⟨hsources, fun q hq => ?_⟩
            obtain rfl | rfl : q = tmp ∨ q = d ++ [name] := by simpa using hq
            · exact htmp
            · exact hd

theorem contained_finishProposal_iff (hroot : t.Clear tools.root) {content : Text} :
    Contained tools t (.finishProposal content) ↔ Guarded tools t (.finishProposal content) := by
  by_cases hempty : PyText.strip content = []
  · refine iff_of_true (contained_read (r := .error (.denied .emptyProposal)) ?_ fun v hv => by cases hv)
      fun hne => absurd hempty hne
    rw [run, finishProposal, if_pos hempty]
  · unfold Contained Guarded
    rw [run, finishProposal, if_neg hempty]
    dsimp only
    have hsources : ∀ v, (atomicWrite tools t tools.root "proposal.md".toList content).result.map
        (fun _ => Value.written (PyText.encode content).length) = .ok v → ∀ q ∈ v.sources,
        InView tools q := by
      intro v hv
      rw [map_written_sources hv]
      exact fun q hq => absurd hq List.not_mem_nil
    cases hopens : opens tools t tools.root "proposal.md".toList with
    | false =>
        rw [touched_of_unopened hopens]
        exact iff_of_true ⟨hsources, fun q hq => absurd hq List.not_mem_nil⟩
          fun _ h => absurd h Bool.false_ne_true
    | true =>
        obtain ⟨t₁, d, tmp, hopened⟩ := opened_of_opens hopens
        obtain ⟨hmem, hall, -⟩ := hopened.touched content
        obtain ⟨htmp, hd⟩ := hopened.realpath
        -- The root is where its path says.
        obtain rfl : tools.root = d := by
          rw [FileTree.realpath_of_clear hroot] at hd
          exact Except.ok.inj hd
        constructor
        · rintro ⟨-, htouched⟩ - - tmp' htmp'
          rw [htmp, Except.ok.injEq] at htmp'
          rw [← htmp']
          exact htouched tmp hmem
        · intro hguarded
          refine ⟨hsources, fun q hq => ?_⟩
          obtain rfl | rfl := hall q hq
          · exact hguarded hempty rfl q htmp
          · exact List.mem_cons_self

/-- **A call keeps to what the proposer may read and write just when the tree is guarded.** -/
theorem contained_iff_guarded (hroot : t.Clear tools.root) (c : Call) :
    Contained tools t c ↔ Guarded tools t c := by
  cases c with
  | listWorkspace target =>
      refine iff_of_true (contained_read rfl fun v hv => ?_) trivial
      cases hlist : listWorkspace tools t target with
      | error e =>
          rw [hlist] at hv
          cases hv
      | ok es =>
          rw [hlist] at hv
          rw [← Except.ok.inj hv]
          exact fun q hq => absurd hq List.not_mem_nil
  | readFile target =>
      refine iff_of_true (contained_read rfl fun v hv => ?_) trivial
      cases hread : readFile tools t target with
      | error e =>
          rw [hread] at hv
          cases hv
      | ok r =>
          rw [hread] at hv
          rw [← Except.ok.inj hv]
          intro q hq
          rw [List.mem_singleton.mp hq]
          exact inView_of_readFile hroot hread
  | writeCurrentFile target content => exact contained_writeCurrentFile_iff
  | readSurfaceManifest =>
      unfold Contained Guarded
      rw [run]
      unfold readSurfaceManifest
      dsimp only
      cases hread : readText tools t tools.manifestPath with
      | error e =>
          refine iff_of_true ⟨fun v hv => (by cases hv), fun q hq => absurd hq List.not_mem_nil⟩ ?_
          intro q text h
          cases h
      | ok r =>
          obtain ⟨q, text⟩ := r
          dsimp only
          cases hobject : tools.isObject text with
          | false =>
              refine iff_of_true ⟨fun v hv => (by cases hv), fun q hq => absurd hq List.not_mem_nil⟩ ?_
              intro q' text' h hobject'
              obtain ⟨-, rfl⟩ := Prod.mk.inj (Except.ok.inj h)
              rw [hobject] at hobject'
              cases hobject'
          | true =>
              constructor
              · rintro ⟨hview, -⟩ q' text' h -
                obtain ⟨rfl, rfl⟩ := Prod.mk.inj (Except.ok.inj h)
                exact hview _ rfl q (List.mem_singleton_self q)
              · intro hguarded
                refine ⟨fun v hv q' hq' => ?_, fun q hq => absurd hq List.not_mem_nil⟩
                obtain rfl := Except.ok.inj hv
                rw [List.mem_singleton.mp hq']
                exact hguarded q text rfl hobject
  | readTrainFailures => exact iff_of_true (contained_readFlat hroot rfl) trivial
  | readVisibleHistory => exact iff_of_true (contained_readFlat hroot rfl) trivial
  | ragSearchReadonly query =>
      refine iff_of_true (contained_read rfl fun v hv => ?_) trivial
      unfold ragSearchReadonly at hv
      split at hv
      · cases hv
      · rw [← Except.ok.inj hv]
        exact fun q hq => absurd hq List.not_mem_nil
  | finishProposal content => exact contained_finishProposal_iff hroot

/-! ### A manifest that leads into the holdout -/

def sampleTools : ProposerWorkspaceTools where
  root := ["ws".toList]
  ragSearch := none
  pid := "7".toList
  linkLimit := 40
  listing _ := []
  isObject text := ['{'].isPrefixOf text

/-- The holdout has one case, and the manifest is a link to it. -/
def linkedTree : Tree :=
  FileTree.ofEntries
    [(["ws".toList], .dir),
      (["ws".toList, "current".toList], .dir),
      (["ws".toList, "holdout_hidden".toList], .dir),
      (["ws".toList, "holdout_hidden".toList, "case.json".toList], .file (PyText.encode ['{', '}'])),
      (["ws".toList, "surface_manifest.json".toList],
        .link [.down "holdout_hidden".toList, .down "case.json".toList])]
    (by decide +kernel)

theorem linkedTree_clear : linkedTree.Clear sampleTools.root := by
  have hlookup : linkedTree.lookup 0 sampleTools.root = .ok sampleTools.root := by decide +kernel
  exact FileTree.clear_of_lookup hlookup

theorem contained_iff_guarded_linked :
    linkedTree.Clear sampleTools.root ∧
      (Contained sampleTools linkedTree (.writeCurrentFile "plan.md".toList "x".toList) ↔
        Guarded sampleTools linkedTree (.writeCurrentFile "plan.md".toList "x".toList)) :=
  ⟨linkedTree_clear, contained_iff_guarded linkedTree_clear _⟩

/-- The manifest comes back with the bytes of the hidden case. -/
theorem holdout_read_as_manifest : ¬ Contained sampleTools linkedTree .readSurfaceManifest := by
  intro h
  have hread : (run sampleTools linkedTree .readSurfaceManifest).result.toOption.any
      (fun v => v.sources.any sampleTools.holdoutHiddenDir.isPrefixOf) = true := by decide +kernel
  obtain ⟨v, hv, hany⟩ := (Option.any_eq_true _ _).mp hread
  obtain ⟨q, hq, hhidden⟩ := List.any_eq_true.mp hany
  have hresult : (run sampleTools linkedTree .readSurfaceManifest).result = .ok v := by
    cases hr : (run sampleTools linkedTree .readSurfaceManifest).result with
    | error e =>
        rw [hr] at hv
        cases hv
    | ok v' =>
        rw [hr] at hv
        rw [Option.some.inj hv]
  exact (h.1 v hresult q hq).2 (List.isPrefixOf_iff_prefix.mp hhidden)

end CyClaw.Harness

/-
What one iteration of the loop can do.

Everything the claims about whole runs need of an iteration is said here once.
`parseFileBlocks_filed` is what the parser promises of the paths it hands on, `shown_section`
what it means for the prompt to show a path, and `Patched` what the writing part of an
iteration leaves: which writes happened, where each of them led, what stood there, and that
nothing else in the tree moved.  `iterate_cases` reads the rest of an iteration off them.
-/
import CyClaw.Repo.Loop

namespace CyClaw.Repo

open PyText

/-! ### The paths of a proposal -/

/-- What a filed list of blocks promises: no two names a file system may take for one, and
each of them the name the writer goes by, if it takes it at all. -/
structure Filed (u : Unicode) (files : List (Text × Text)) : Prop where
  nodup : (files.map fun f => fsEquivPath u f.1).Nodup
  canonical : ∀ f ∈ files, ∀ c, canonicalRepoPath f.1 = some c → c = f.1

theorem parts_destination (raw : Text) : parts (destination raw) = parts raw := by
  unfold destination
  cases h : canonicalRepoPath raw with
  | none => rfl
  | some c =>
      rw [Option.getD_some, (canonicalRepoPath_eq h).1]
      exact parts_join

theorem canonicalRepoPath_destination {raw c : Text} (h : canonicalRepoPath (destination raw) = some c) :
    c = destination raw := by
  unfold destination at h ⊢
  cases hraw : canonicalRepoPath raw with
  | none =>
      rw [hraw, Option.getD_none, hraw] at h
      cases h
  | some d =>
      rw [hraw, Option.getD_some] at h
      exact canonicalRepoPath_idem hraw h

theorem collectBlocks_filed {u : Unicode} {acc blocks files : List (Text × Text)} (hacc : Filed u acc)
    (h : collectBlocks u acc blocks = some files) : Filed u files := by
  induction blocks generalizing acc with
  | nil =>
      simp only [collectBlocks, Option.some.injEq] at h
      rw [← h]
      exact hacc
  | cons block rest ih =>
      obtain ⟨raw, body⟩ := block
      rw [collectBlocks] at h
      split at h
      · cases h
      · rename_i hfresh
        refine ih ⟨?_, ?_⟩ h
        · rw [List.map_append, List.nodup_append]
          refine ⟨hacc.nodup, List.nodup_singleton _, ?_⟩
          intro a ha b hb
          obtain ⟨f, hf, rfl⟩ := List.mem_map.mp ha
          rw [List.map_singleton, List.mem_singleton] at hb
          rw [hb]
          intro heq
          exact hfresh (List.any_eq_true.mpr ⟨f, hf, decide_eq_true heq⟩)
        · intro f hf c hc
          rcases List.mem_append.mp hf with hf | hf
          · exact hacc.canonical f hf c hc
          · rw [List.mem_singleton] at hf
            rw [hf] at hc ⊢
            exact canonicalRepoPath_destination hc

theorem parseFileBlocks_filed (u : Unicode) (text : Text) : Filed u ((parseFileBlocks u text).getD []) := by
  have hnil : Filed u [] := ⟨List.nodup_nil, by nofun⟩
  cases h : parseFileBlocks u text with
  | none => exact hnil
  | some files => exact collectBlocks_filed hnil h

theorem Filed.nodup_keys {u : Unicode} {files : List (Text × Text)} (h : Filed u files) :
    (files.map (·.1)).Nodup := by
  refine List.Nodup.of_map (fsEquivPath u) ?_
  rw [List.map_map]
  exact h.nodup

/-! ### What the prompt shows -/

/-- What rendering promises of the paths it calls shown. -/
def Shows (tools : Tools) (t : Tree) (r : Rendered) : Prop :=
  ∀ d ∈ r.shown, ∃ path content, destination path = d ∧ readFile tools t path = some content ∧
    existingSection path content ∈ r.rendered

theorem shows_renderOne {tools : Tools} {t : Tree} {r : Rendered} (h : Shows tools t r) (path : Text) :
    Shows tools t (renderOne tools t r path) := by
  -- What was rendered before stays rendered.
  have hkept : ∀ extra d, d ∈ r.shown → ∃ path content, destination path = d ∧
      readFile tools t path = some content ∧ existingSection path content ∈ r.rendered ++ extra := by
    intro extra d hd
    obtain ⟨path, content, hdest, hread, hmem⟩ := h d hd
    exact ⟨path, content, hdest, hread, List.mem_append_left extra hmem⟩
  unfold renderOne
  split
  · exact h
  · rename_i content hread
    dsimp only
    split
    · exact hkept _
    · intro d hd
      dsimp only at hd ⊢
      split at hd
      · exact hkept _ d hd
      · rename_i hfull
        rcases List.mem_append.mp hd with hd | hd
        · exact hkept _ d hd
        · rw [List.mem_singleton] at hd
          refine ⟨path, content, hd.symm, hread, List.mem_append_right _ ?_⟩
          rw [clipped, if_neg hfull]
          exact List.mem_singleton_self _

theorem existingSection_ne_nil (path content : Text) : existingSection path content ≠ [] := by
  intro h
  exact absurd (List.append_eq_nil_iff.mp h).2 (by decide)

theorem shown_section {tools : Tools} {t : Tree} {readPaths : List Text} {d : Text}
    (h : d ∈ (renderExistingFiles tools t readPaths).2) :
    ∃ path content, destination path = d ∧ readFile tools t path = some content ∧
      existingSection path content <:+: (renderExistingFiles tools t readPaths).1 := by
  have hshows : Shows tools t (readPaths.foldl (renderOne tools t) ⟨[], [], 0⟩) :=
    List.foldlRecOn readPaths (renderOne tools t) (by nofun) fun r hr path _ => shows_renderOne hr path
  obtain ⟨path, content, hdest, hread, hmem⟩ := hshows d h
  exact ⟨path, content, hdest, hread, infix_intercalate hmem⟩

/-- **What the prompt shows, it shows in full**: the section of a shown path is part of the
prompt, and its content is what stands in the tree. -/
theorem shown_in_prompt {env : Env} {req : Request} {s : LoopState} {d : Text} (h : d ∈ shownPaths env req s) :
    ∃ path content bytes, s.tree.fileAt (parts d) = some bytes ∧ decode bytes = some content ∧
      existingSection path content <:+: prompt env req s := by
  obtain ⟨path, content, hdest, hread, hinfix⟩ := shown_section h
  obtain ⟨bytes, hfile, hdecode⟩ := readFile_eq_some hread
  refine ⟨path, content, bytes, ?_, hdecode, hinfix.trans ?_⟩
  · rw [← hdest, parts_destination]
    exact hfile
  · have hne : (renderExistingFiles env.tools s.tree req.readPaths).1 ≠ [] := by
      intro heq
      rw [heq, List.infix_nil] at hinfix
      exact existingSection_ne_nil path content hinfix
    have hpart : (renderExistingFiles env.tools s.tree req.readPaths).1 <:+:
        headed "Existing file contents you may need to edit:\n".toList
          (renderExistingFiles env.tools s.tree req.readPaths).1 := by
      rw [headed, if_neg hne]
      exact (List.suffix_append _ _).isInfix
    refine hpart.trans (infix_intercalate (List.mem_filter.mpr ⟨?_, ?_⟩))
    · exact List.mem_cons_of_mem _ (List.mem_cons_of_mem _ (List.mem_cons_of_mem _ List.mem_cons_self))
    · rw [headed, if_neg hne]
      exact decide_eq_true (List.append_ne_nil_of_right_ne_nil _ hne)

/-! ### What is written -/

/-- How a failed or finished round of writes stands. -/
def settled : Except Writing Writing → Writing
  | .ok w => w
  | .error w => w

theorem attempt_cases {env : Env} {refuses : Path → Bool} {shown everWritten : List Text} {w : Writing}
    {path content : Text} {r : Except Writing Writing}
    (h : attempt env refuses shown everWritten w (path, content) = r) :
    (∃ message, r = .ok (w.fail message)) ∨ r = .error w ∨
      ∃ landed tree, writeFile env.tools refuses w.tree path content = .ok (landed, tree) ∧
        (path ∈ shown ∨ path ∈ everWritten ∨ statFile w.tree path = none) ∧
        r = .ok { w with
          tree
          written := w.written ++ [path]
          log := .wrote ⟨path, landed, content, w.tree.fileAt landed⟩ :: w.log } := by
  unfold attempt at h
  dsimp only at h
  split at h
  · exact .inl ⟨_, h.symm⟩
  · rename_i hpass
    split at h
    · exact .inr (.inl h.symm)
    · exact .inl ⟨_, h.symm⟩
    · rename_i landed tree hwrite
      refine .inr (.inr ⟨landed, tree, hwrite, ?_, h.symm⟩)
      by_cases hshown : path ∈ shown
      · exact .inl hshown
      · by_cases hever : path ∈ everWritten
        · exact .inr (.inl hever)
        · refine .inr (.inr ?_)
          rw [← Option.not_isSome_iff_eq_none]
          exact fun hstat => hpass ⟨hshown, hever, hstat⟩

section Writes

variable (env : Env) (shown everWritten : List Text) (t : Tree) (files : List (Text × Text))

/-- What stands behind a write of an iteration that began with tree `t`, the writes of the
same iteration before it being `earlier`. -/
structure Lands (earlier : List Write) (w : Write) : Prop where
  proposed : (w.declared, w.content) ∈ files
  canonical : canonicalRepoPath w.declared = some (join (parts w.declared))
  leads : t.resolve env.tools.linkLimit (parts w.declared) = .ok w.landed
  replaced : w.replaced = t.fileAt w.landed ∨ ∃ x ∈ earlier, x.landed = w.landed
  backstop : w.declared ∈ shown ∨ w.declared ∈ everWritten ∨ statFile t w.declared = none

def Landings : List Write → Prop
  | [] => True
  | w :: earlier => Lands env shown everWritten t files earlier w ∧ Landings earlier

/-- How things stand once the files `done` have been attempted and `writes` of them, newest
first, have gone through. -/
structure Patched (log : List Event) (done : List (Text × Text)) (writes : List Write) (w : Writing) : Prop where
  log_eq : w.log = writes.map .wrote ++ log
  written_eq : w.written = (writes.map (·.declared)).reverse
  landings : Landings env shown everWritten t files writes
  links : ∀ q, w.tree.linkAt q = t.linkAt q
  frame : ∀ q, w.tree.fileAt q = t.fileAt q ∨ ∃ x ∈ writes, x.landed = q
  kept : ∀ q, t.entry q ≠ none → w.tree.entry q ≠ none
  attempted : w.written.Sublist (done.map (·.1))
  complete : w.writeFailed = false → w.written = done.map (·.1)

variable {env shown everWritten t files} {log : List Event} {done : List (Text × Text)} {writes : List Write}
  {w : Writing}

theorem Patched.fail (h : Patched env shown everWritten t files log done writes w) (file : Text × Text)
    (message : Text) :
    Patched env shown everWritten t files log (done ++ [file]) writes (w.fail message) where
  log_eq := h.log_eq
  written_eq := h.written_eq
  landings := h.landings
  links := h.links
  frame := h.frame
  kept := h.kept
  attempted := by
    rw [List.map_append]
    exact h.attempted.trans (List.sublist_append_left _ _)
  complete := by nofun

theorem statFile_eq_none {t t' : Tree} (hkept : ∀ q, t.entry q ≠ none → t'.entry q ≠ none) {path : Text}
    (h : statFile t' path = none) : statFile t path = none := by
  cases hcomps : splitComponents path with
  | none => rw [statFile, hcomps, Option.bind_none]
  | some comps =>
      rw [statFile_eq hcomps] at h ⊢
      by_contra hne
      exact hkept _ hne h

theorem Patched.wrote (h : Patched env shown everWritten t files log done writes w) {refuses : Path → Bool}
    {path content : Text} {landed : Path} {tree : Tree} (hmem : (path, content) ∈ files)
    (hwrite : writeFile env.tools refuses w.tree path content = .ok (landed, tree))
    (hback : path ∈ shown ∨ path ∈ everWritten ∨ statFile w.tree path = none) :
    Patched env shown everWritten t files log (done ++ [(path, content)])
      (⟨path, landed, content, w.tree.fileAt landed⟩ :: writes)
      { w with
        tree
        written := w.written ++ [path]
        log := .wrote ⟨path, landed, content, w.tree.fileAt landed⟩ :: w.log } := by
  obtain ⟨hcanonical, hleads, hput⟩ := writeFile_ok hwrite
  refine ⟨?_, ?_, ⟨⟨hmem, hcanonical, ?_, ?_, ?_⟩, h.landings⟩, ?_, ?_, ?_, ?_, ?_⟩
  · rw [List.map_cons, List.cons_append, ← h.log_eq]
  · rw [List.map_cons, List.reverse_cons, ← h.written_eq]
  · rw [← hleads]
    exact (FileTree.resolve_congr h.links _ _).symm
  · exact (h.frame landed).imp_right id
  · exact hback.imp_right fun hback => hback.imp_right (statFile_eq_none h.kept)
  · intro q
    rw [FileTree.linkAt_write hput]
    exact h.links q
  · intro q
    rw [FileTree.fileAt_write hput]
    by_cases hq : q = landed
    · exact .inr ⟨_, List.mem_cons_self, hq.symm⟩
    · rw [if_neg hq]
      exact (h.frame q).imp_right fun ⟨x, hx, heq⟩ => ⟨x, List.mem_cons_of_mem _ hx, heq⟩
  · intro q hq
    exact FileTree.entry_write_ne_none hput (h.kept q hq)
  · rw [List.map_append]
    exact h.attempted.append (List.Sublist.refl _)
  · intro hfailed
    rw [List.map_append, ← h.complete hfailed]
    rfl

theorem patched_writeAll (refuses : Path → Bool) {rest : List (Text × Text)} (hfiles : done ++ rest = files)
    (h : Patched env shown everWritten t files log done writes w) :
    ∃ done' writes', Patched env shown everWritten t files log done' writes'
        (settled (writeAll env refuses shown everWritten rest w)) ∧ done' <+: files ∧
      ∀ w', writeAll env refuses shown everWritten rest w = .ok w' → done' = files := by
  induction rest generalizing done writes w with
  | nil =>
      rw [List.append_nil] at hfiles
      exact ⟨done, writes, h, hfiles ▸ List.prefix_refl done, fun _ _ => hfiles⟩
  | cons file rest ih =>
      obtain ⟨path, content⟩ := file
      have hmem : (path, content) ∈ files := by
        rw [← hfiles]
        exact List.mem_append_right done List.mem_cons_self
      have hnext : done ++ [(path, content)] ++ rest = files := by
        rw [List.append_assoc]
        exact hfiles
      rw [writeAll]
      obtain ⟨message, hr⟩ | hr | ⟨landed, tree, hwrite, hback, hr⟩ :=
        attempt_cases (rfl : attempt env refuses shown everWritten w (path, content) = _)
      · rw [hr]
        exact ih hnext (h.fail _ message)
      · rw [hr]
        exact ⟨done, writes, h, ⟨_, hfiles⟩, by nofun⟩
      · rw [hr]
        exact ih hnext (h.wrote hmem hwrite hback)

end Writes

/-! ### The whole iteration -/

section Steps

variable {env : Env} {req : Request} {turn : Turn} {s s' : LoopState} {response : Text}

/-- What the writing part of an iteration leaves, with the writes that went through. -/
abbrev PatchedBy (env : Env) (req : Request) (s : LoopState) (response : Text) :
    List (Text × Text) → List Write → Writing → Prop :=
  Patched env (shownPaths env req s) s.everWritten s.tree (assess env req response).files
    (.asked (prompt env req s) (some response) :: s.log)

theorem patch_spec (env : Env) (req : Request) (turn : Turn) (response : Text) (s : LoopState) :
    ∃ done writes, PatchedBy env req s response done writes (settled (patch env req turn response s)) ∧
      (writes.map (·.declared)).Nodup ∧ ((assess env req response).cleared = false → writes = []) ∧
      ∀ w, patch env req turn response s = .ok w → (assess env req response).cleared = true →
        done = (assess env req response).files := by
  have hbegun : PatchedBy env req s response [] []
      { tree := s.tree
        written := []
        writeFailed := (assess env req response).duplicate
        failures := if (assess env req response).duplicate then
          ["planner response proposed the same file path in two different blocks".toList] else []
        log := .asked (prompt env req s) (some response) :: s.log } :=
    ⟨rfl, rfl, trivial, fun _ => rfl, fun _ => .inl rfl, fun _ h => h, List.Sublist.refl _, fun _ => rfl⟩
  unfold patch
  dsimp only
  by_cases hcleared : (assess env req response).cleared = true
  · rw [if_pos hcleared]
    obtain ⟨done, writes, hpatched, hle, hdone⟩ := patched_writeAll turn.refuses (List.nil_append _) hbegun
    have hkeys := (parseFileBlocks_filed env.tools.unicode response).nodup_keys
    have hnodup : (writes.map (·.declared)).Nodup := by
      rw [← List.nodup_reverse, ← hpatched.written_eq]
      exact (hpatched.attempted.trans (hle.sublist.map _)).nodup hkeys
    exact ⟨done, writes, hpatched, hnodup, fun h => absurd hcleared (by rw [h]; nofun), fun w hw _ => hdone w hw⟩
  · rw [if_neg hcleared]
    exact ⟨[], [], hbegun, List.nodup_nil, fun _ => rfl, fun _ _ h => absurd h hcleared⟩

theorem iterate_cases (h : iterate env req turn s = some s') :
    s.phase = .running ∧
      (s' = { s with phase := .raised, log := .asked (prompt env req s) none :: s.log } ∨
        ∃ response, turn.response = some response ∧
          (s' = { s with
              phase := .raised
              tree := (settled (patch env req turn response s)).tree
              log := (settled (patch env req turn response s)).log } ∨
            ∃ w, patch env req turn response s = .ok w ∧
              ((verifiable (assess env req response) w = false ∧
                  s' = conclude env req turn (assess env req response) w w.tree none s) ∨
                ∃ outcome tree, verifiable (assess env req response) w = true ∧
                  turn.verification = some (outcome, tree) ∧
                  s' = conclude env req turn (assess env req response) w tree
                    (some (runVerification req.checks outcome)) s))) := by
  unfold iterate at h
  split at h
  · cases h
  · rename_i hphase
    refine ⟨not_not.mp hphase, ?_⟩
    split at h
    · rw [Option.some.injEq] at h
      exact .inl h.symm
    · rename_i response hresponse
      refine .inr ⟨response, hresponse, ?_⟩
      dsimp only at h
      split at h
      · rename_i w hpatch
        rw [Option.some.injEq] at h
        rw [hpatch]
        exact .inl h.symm
      · rename_i w hpatch
        by_cases hverify : verifiable (assess env req response) w = true
        · rw [if_pos hverify] at h
          split at h
          · rw [Option.some.injEq] at h
            rw [hpatch]
            exact .inl h.symm
          · rename_i outcome tree hturn
            rw [Option.some.injEq] at h
            exact .inr ⟨w, hpatch, .inr ⟨outcome, tree, hverify, hturn, h.symm⟩⟩
        · rw [if_neg hverify, Option.some.injEq] at h
          exact .inr ⟨w, hpatch, .inl ⟨Bool.not_eq_true _ ▸ hverify, h.symm⟩⟩

/-- **What an iteration adds to the log**: that it asked, the writes that went through, and
the report of the checks if they ran. -/
theorem iterate_log (h : iterate env req turn s = some s') :
    (s'.log = .asked (prompt env req s) none :: s.log ∧ s'.everWritten = s.everWritten) ∨
      ∃ response done writes w, ∃ reports : List Report, turn.response = some response ∧
        PatchedBy env req s response done writes w ∧ (writes.map (·.declared)).Nodup ∧
        ((assess env req response).cleared = false → writes = []) ∧
        s'.log = reports.map Event.verified ++ (writes.map .wrote ++
          .asked (prompt env req s) (some response) :: s.log) ∧
        (s'.everWritten = s.everWritten ∨ s'.everWritten = s.everWritten ++ w.written) := by
  obtain ⟨-, rfl | ⟨response, hresponse, hends⟩⟩ := iterate_cases h
  · exact .inl ⟨rfl, rfl⟩
  · obtain ⟨done, writes, hpatched, hnodup, hquarantine, -⟩ := patch_spec env req turn response s
    refine .inr ⟨response, done, writes, settled (patch env req turn response s), ?_⟩
    obtain rfl | ⟨w, hpatch, ⟨-, rfl⟩ | ⟨outcome, tree, -, -, rfl⟩⟩ := hends
    · exact ⟨[], hresponse, hpatched, hnodup, hquarantine, hpatched.log_eq, .inl rfl⟩
    · refine ⟨[], hresponse, hpatched, hnodup, hquarantine, ?_, .inr ?_⟩
      · rw [← hpatched.log_eq, hpatch]
        rfl
      · rw [hpatch]
        rfl
    · refine ⟨[runVerification req.checks outcome], hresponse, hpatched, hnodup, hquarantine, ?_, .inr ?_⟩
      · rw [← hpatched.log_eq, hpatch]
        rfl
      · rw [hpatch]
        rfl

/-- A run starts with nothing done. -/
theorem start_eq {tree : Tree} {first : LoopState} (h : start env req tree = .ok first) :
    first = ⟨tree, [], [], [], .running, []⟩ ∧ 0 < req.maxIterations ∧ req.checks ≠ [] := by
  unfold start at h
  simp only [ite_eq_iff, reduceCtorEq, and_false, false_or, Except.ok.injEq, not_or,
    List.isEmpty_iff] at h
  obtain ⟨-, -, -, -, hmax, -, hchecks, rfl⟩ := h
  exact ⟨rfl, Int.not_le.mp hmax.1, hchecks⟩

end Steps

end CyClaw.Repo

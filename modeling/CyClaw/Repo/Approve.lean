/-
What an approve commits.

The manifest is read back from its digest: written JSON says what it was written from
(`canonicalJson_injective`), so a clone that passes has, behind every recorded name, the very
bytes that were hashed when the run was accepted (`manifest_bytes`).

What gets committed is the index, with the locations the names lead to staged into it.  That
is what was cleared exactly when every name stands at its own location and nothing else was
staged (`approve_commits_cleared_iff`).  A name that runs through a link is committed under
another name than the one the gate looked at (`approve_commits_protected`).
-/
import CyClaw.Repo.Finalize
import CyClaw.Repo.WriteScope

namespace CyClaw.Repo

open PyText

/-! ### The manifest says what was hashed -/

theorem fileJson_unique {f f' : Text × Text} {x y : Text} (h : fileJson f ++ x = fileJson f' ++ y) :
    f = f' ∧ x = y := by
  unfold fileJson at h
  simp only [List.append_assoc] at h
  obtain ⟨hpath, h⟩ := JsonText.quoted_unique (List.append_cancel_left h)
  obtain ⟨hsha, h⟩ := JsonText.quoted_unique (List.append_cancel_left h)
  exact ⟨Prod.ext hpath hsha, List.append_cancel_left h⟩

theorem fileJson_head (f : Text × Text) : ∃ rest, fileJson f = '\x7b' :: rest := ⟨_, rfl⟩

theorem intercalate_fileJson (f : Text × Text) (fs : List (Text × Text)) :
    [','].intercalate ((f :: fs).map fileJson) = fileJson f ++ fs.flatMap fun g => ',' :: fileJson g := by
  induction fs generalizing f with
  | nil => simp
  | cons g gs ih =>
      rw [List.map_cons, List.map_cons, List.intercalate_cons_cons, ← List.map_cons, ih]
      simp

theorem flatMap_fileJson_unique {fs fs' : List (Text × Text)} {x y : Text}
    (h : (fs.flatMap fun g => ',' :: fileJson g) ++ ']' :: x =
      (fs'.flatMap fun g => ',' :: fileJson g) ++ ']' :: y) : fs = fs' ∧ x = y := by
  induction fs generalizing fs' with
  | nil =>
      cases fs' with
      | nil => simpa using h
      | cons g gs => simp at h
  | cons f fs ih =>
      cases fs' with
      | nil => simp at h
      | cons g gs =>
          simp only [List.flatMap_cons, List.cons_append, List.append_assoc, List.cons.injEq, true_and] at h
          obtain ⟨hfg, h⟩ := fileJson_unique h
          obtain ⟨hrest, hxy⟩ := ih h
          exact ⟨by rw [hfg, hrest], hxy⟩

theorem filesJson_unique {fs fs' : List (Text × Text)} {x y : Text}
    (h : [','].intercalate (fs.map fileJson) ++ ']' :: x = [','].intercalate (fs'.map fileJson) ++ ']' :: y) :
    fs = fs' ∧ x = y := by
  cases fs with
  | nil =>
      cases fs' with
      | nil => simpa using h
      | cons g gs =>
          obtain ⟨rest, hrest⟩ := fileJson_head g
          rw [intercalate_fileJson, hrest] at h
          simp at h
  | cons f fs =>
      cases fs' with
      | nil =>
          obtain ⟨rest, hrest⟩ := fileJson_head f
          rw [intercalate_fileJson, hrest] at h
          simp at h
      | cons g gs =>
          rw [intercalate_fileJson, intercalate_fileJson, List.append_assoc, List.append_assoc] at h
          obtain ⟨hfg, h⟩ := fileJson_unique h
          obtain ⟨hrest, hxy⟩ := flatMap_fileJson_unique h
          exact ⟨by rw [hfg, hrest], hxy⟩

/-- **Canonical JSON says what it was written from.** -/
theorem canonicalJson_injective : Function.Injective canonicalJson := by
  intro p p' h
  unfold canonicalJson at h
  simp only [List.append_assoc] at h
  obtain ⟨hbase, h⟩ := JsonText.quoted_unique (List.append_cancel_left h)
  have hclose : ∀ rest : Text, "],\"run_id\":".toList ++ rest = ']' :: (",\"run_id\":".toList ++ rest) := fun _ => rfl
  rw [hclose, hclose] at h
  obtain ⟨hfiles, h⟩ := filesJson_unique (List.append_cancel_left h)
  obtain ⟨hrun, -⟩ := JsonText.quoted_unique (List.append_cancel_left h)
  exact Payload.ext hbase hfiles hrun

section Manifest

variable {tools : Tools} {sha : Sha256} {t : Tree}

theorem manifestFiles_eq {rels : List Text} {files : List (Text × Text)}
    (h : manifestFiles tools sha t rels = some files) :
    files.map (·.1) = rels ∧ ∀ f ∈ files, manifestFile tools sha t f.1 = some f := by
  induction rels generalizing files with
  | nil =>
      simp only [manifestFiles, Option.some.injEq] at h
      rw [← h]
      exact ⟨rfl, by nofun⟩
  | cons rel rels ih =>
      unfold manifestFiles at h
      split at h
      · rename_i f fs hfile hrest
        rw [Option.some.injEq] at h
        obtain ⟨hmap, hall⟩ := ih hrest
        have hname : f.1 = rel := by
          unfold manifestFile at hfile
          split at hfile
          · cases hfile
          · split at hfile
            · cases hfile
            · obtain ⟨content, -, rfl⟩ := Option.map_eq_some_iff.mp hfile
              rfl
        rw [← h]
        refine ⟨by rw [List.map_cons, hmap, hname], ?_⟩
        intro g hg
        rcases List.mem_cons.mp hg with rfl | hg
        · rw [hname]
          exact hfile
        · exact hall g hg
      · cases h

theorem manifestFile_eq {rel : Text} {f : Text × Text} (h : manifestFile tools sha t rel = some f) :
    ∃ target content, t.resolve tools.linkLimit (parts rel) = .ok target ∧ t.fileAt target = some content ∧
      f = (rel, sha.hexdigest content) := by
  unfold manifestFile at h
  split at h
  · cases h
  · split at h
    · cases h
    · rename_i target htarget
      obtain ⟨content, hcontent, rfl⟩ := Option.map_eq_some_iff.mp h
      exact ⟨target, content, htarget, hcontent, rfl⟩

theorem parts_slashes (path : Text) : parts (slashes path) = parts path := by
  have hidem : slashes (slashes path) = slashes path := by
    refine slashes_of_notMem ?_
    intro hc
    obtain ⟨d, -, hd⟩ := List.mem_map.mp hc
    split at hd
    · cases hd
    · contradiction
  rw [parts, hidem]
  rfl

/-- Every recorded name leads to a file whose hash is in the payload. -/
theorem buildManifest_mem {paths : List Text} {runId baseHead : Text} {payload : Payload} {digest : Text}
    (h : buildManifest tools sha t paths runId baseHead = some (payload, digest)) :
    digest = sha.hexdigest (encode (canonicalJson payload)) ∧
      (∀ p ∈ paths, ∃ f ∈ payload.files, f.1 = slashes p) ∧
      ∀ f ∈ payload.files, ∃ target content, t.resolve tools.linkLimit (parts f.1) = .ok target ∧
        t.fileAt target = some content ∧ f.2 = sha.hexdigest content := by
  unfold buildManifest at h
  dsimp only at h
  split at h
  · cases h
  · rename_i files hfiles
    simp only [Option.some.injEq, Prod.mk.injEq] at h
    obtain ⟨rfl, rfl⟩ := h
    obtain ⟨hmap, hall⟩ := manifestFiles_eq hfiles
    refine ⟨rfl, ?_, ?_⟩
    · intro p hp
      have hmem : slashes p ∈ files.map (·.1) := by
        rw [hmap, List.mem_mergeSort, List.mem_dedup]
        exact List.mem_map_of_mem hp
      obtain ⟨f, hf, hname⟩ := List.mem_map.mp hmem
      exact ⟨f, hf, hname⟩
    · intro f hf
      obtain ⟨target, content, htarget, hcontent, heq⟩ := manifestFile_eq (hall f hf)
      exact ⟨target, content, htarget, hcontent, by rw [heq]⟩

/-- The bytes a name leads to. -/
def Holds (tools : Tools) (t : Tree) (path : Text) (content : Bytes) : Prop :=
  ∃ target, t.resolve tools.linkLimit (parts path) = .ok target ∧ t.fileAt target = some content

/-- **One digest, one set of bytes**: two trees whose manifests have the same digest hold the
same bytes behind every recorded name. -/
theorem manifest_bytes {t' : Tree} {paths paths' : List Text} {runId runId' baseHead baseHead' digest : Text}
    {payload payload' : Payload} (h : buildManifest tools sha t paths runId baseHead = some (payload, digest))
    (h' : buildManifest tools sha t' paths' runId' baseHead' = some (payload', digest)) {p : Text} (hp : p ∈ paths)
    {content : Bytes} (hcontent : Holds tools t p content) : Holds tools t' p content := by
  obtain ⟨hdigest, hmem, hfiles⟩ := buildManifest_mem h
  obtain ⟨hdigest', -, hfiles'⟩ := buildManifest_mem h'
  have hpayload : payload = payload' :=
    canonicalJson_injective (encode_injective (sha.collisionFree (hdigest.symm.trans hdigest')))
  obtain ⟨f, hf, hname⟩ := hmem p hp
  obtain ⟨target, bytes, htarget, hbytes, hhash⟩ := hfiles f hf
  obtain ⟨target', bytes', htarget', hbytes', hhash'⟩ := hfiles' f (hpayload ▸ hf)
  rw [hname, parts_slashes] at htarget htarget'
  obtain ⟨other, hother, hthere⟩ := hcontent
  -- The name leads to one place in `t`, so its content is the one that was hashed.
  have hplace : other = target := Except.ok.inj (hother.symm.trans htarget)
  have hsame : bytes = content := by
    rw [hplace, hbytes, Option.some.injEq] at hthere
    exact hthere
  have hboth : bytes = bytes' := sha.collisionFree (hhash.symm.trans hhash')
  exact ⟨target', htarget', by rw [hbytes', ← hboth, hsame]⟩

end Manifest

/-! ### What is staged -/

theorem lookup_staged (t : Tree) (locations : List Path) (q : Path) :
    (locations.filterMap fun x => (blobAt t x).map (x, ·)).lookup q =
      if q ∈ locations then blobAt t q else none := by
  induction locations with
  | nil => rfl
  | cons x xs ih =>
      by_cases hx : q = x
      · rw [if_pos (hx ▸ List.mem_cons_self)]
        cases hblob : blobAt t x with
        | none =>
            rw [List.filterMap_cons_none (by rw [hblob, Option.map_none]), ih, hx, hblob, ite_self]
        | some blob =>
            rw [List.filterMap_cons_some (by rw [hblob, Option.map_some]), List.lookup_cons, hx, beq_self_eq_true,
              hblob]
      · have hmem : q ∈ x :: xs ↔ q ∈ xs := by
          rw [List.mem_cons]
          exact or_iff_right hx
        simp only [hmem]
        rw [← ih]
        cases hblob : blobAt t x with
        | none => rw [List.filterMap_cons_none (by rw [hblob, Option.map_none])]
        | some blob =>
            rw [List.filterMap_cons_some (by rw [hblob, Option.map_some]), List.lookup_cons, beq_false_of_ne hx]

theorem lookup_stage {t : Tree} {locations : List Path} {index : Snapshot} {q : Path}
    (hblobs : ∀ x ∈ locations, blobAt t x ≠ none) :
    (stage t locations index).lookup q = if q ∈ locations then blobAt t q else index.lookup q := by
  unfold stage
  rw [List.lookup_append, lookup_staged]
  split
  · rename_i hq
    obtain ⟨blob, hblob⟩ := Option.ne_none_iff_exists'.mp (hblobs q hq)
    rw [hblob, Option.some_or]
  · rw [Option.none_or]

section Commit

variable {tools : Tools} {sha : Sha256} {preferred : Text} {run : GitRun} {rec : Record}
  {protectedWritePaths : List Text} {c c' : Clone}

theorem validateAll_eq {t : Tree} {paths : List Text} {locations : List Path}
    (h : validateAll tools t paths = .ok locations) :
    (∀ p ∈ paths, ∃ q ∈ locations, validateWritePath tools t p true = .ok q) ∧
      ∀ q ∈ locations, ∃ p ∈ paths, validateWritePath tools t p true = .ok q := by
  induction paths generalizing locations with
  | nil =>
      simp only [validateAll, Except.ok.injEq] at h
      rw [← h]
      exact ⟨by nofun, by nofun⟩
  | cons path paths ih =>
      unfold validateAll at h
      split at h
      · cases h
      · rename_i q hq
        split at h
        · cases h
        · rename_i qs hqs
          rw [Except.ok.injEq] at h
          obtain ⟨hthere, hback⟩ := ih hqs
          rw [← h]
          constructor
          · intro p hp
            rcases List.mem_cons.mp hp with rfl | hp
            · exact ⟨q, List.mem_cons_self, hq⟩
            · obtain ⟨r, hr, hvalid⟩ := hthere p hp
              exact ⟨r, List.mem_cons_of_mem q hr, hvalid⟩
          · intro r hr
            rcases List.mem_cons.mp hr with rfl | hr
            · exact ⟨path, List.mem_cons_self, hq⟩
            · obtain ⟨p, hp, hvalid⟩ := hback r hr
              exact ⟨p, List.mem_cons_of_mem path hp, hvalid⟩

theorem commitChange_ok (h : commitChange tools preferred run rec c = (.ok .approved, c')) :
    ∃ locations, validateAll tools c.tree rec.changedFiles = .ok locations ∧
      (∀ q ∈ locations, c.git.leavesOut q = false) ∧
      c'.git.head = stage c.tree locations c.git.index := by
  unfold commitChange at h
  dsimp only at h
  split at h
  · cases h
  · split at h
    · cases h
    · split at h
      · cases h
      · rename_i locations hlocations
        split at h
        · cases h
        · rename_i hadd
          split at h
          · cases h
          · split at h
            · cases h
            · cases h
              refine ⟨locations, hlocations, ?_, rfl⟩
              intro q hq
              by_contra hout
              rw [Bool.not_eq_false] at hout
              exact hadd (.inr (List.any_eq_true.mpr ⟨q, hq, hout⟩))

/-- What an approve that made a commit has checked, and what it committed. -/
theorem finalize_approved
    (h : finalizeRealRepoChange tools sha preferred run rec .approve protectedWritePaths c = (.ok .approved, c')) :
    (∃ payload, buildManifest tools sha c.tree rec.changedFiles rec.runId rec.acceptanceBaseHead =
        some (payload, rec.acceptanceDigest)) ∧
      (∀ p ∈ rec.changedFiles, matchesProtectedPath tools.unicode p protectedWritePaths = false) ∧
      ∃ locations, validateAll tools c.tree rec.changedFiles = .ok locations ∧
        (∀ q ∈ locations, c.git.leavesOut q = false) ∧
        c'.git.head = stage c.tree locations c.git.index := by
  unfold finalizeRealRepoChange at h
  dsimp only at h
  split at h
  · cases h
  · rename_i hverify
    split at h
    · cases h
    · split at h
      · rename_i hscope
        refine ⟨?_, ?_, commitChange_ok h⟩
        · rw [Bool.not_eq_false] at hverify
          unfold verifyManifest at hverify
          simp only [Bool.and_eq_true, Option.any_eq_true, decide_eq_true_eq] at hverify
          obtain ⟨-, ⟨payload, digest⟩, hbuild, hdigest⟩ := hverify
          exact ⟨payload, by rw [hbuild, ← hdigest]⟩
        · intro p hp
          rw [List.filter_eq_nil_iff] at hscope
          exact Bool.eq_false_iff.mpr (hscope p hp)
      · cases h

/-- A recorded name leads to this location. -/
def LeadsTo (tools : Tools) (rec : Record) (t : Tree) (q : Path) : Prop :=
  ∃ p ∈ rec.changedFiles, t.resolve tools.linkLimit (parts p) = .ok q

theorem blobAt_of_fileAt {t : Tree} {q : Path} {content : Bytes} (h : t.fileAt q = some content) :
    blobAt t q = some (.file content) := by
  unfold FileTree.fileAt at h
  unfold blobAt
  split at h
  · rename_i hentry
    rw [hentry]
    rw [Option.some.injEq] at h
    rw [h]
  · cases h

/-- **What an approve commits**: behind every recorded name stands a file, the locations they
lead to are committed as they stand, and the rest of the commit is the index. -/
structure Committed (tools : Tools) (rec : Record) (c c' : Clone) : Prop where
  holds : ∀ p ∈ rec.changedFiles, ∃ content, Holds tools c.tree p content
  staged : ∀ q, LeadsTo tools rec c.tree q → c'.git.head.lookup q = blobAt c.tree q
  rest : ∀ q, ¬ LeadsTo tools rec c.tree q → c'.git.head.lookup q = c.git.index.lookup q
  taken : ∀ q, LeadsTo tools rec c.tree q → c.git.leavesOut q = false

theorem approved_committed
    (h : finalizeRealRepoChange tools sha preferred run rec .approve protectedWritePaths c = (.ok .approved, c')) :
    Committed tools rec c c' := by
  obtain ⟨⟨payload, hbuild⟩, -, locations, hvalid, htaken, hhead⟩ := finalize_approved h
  obtain ⟨-, hmem, hfiles⟩ := buildManifest_mem hbuild
  obtain ⟨hthere, hback⟩ := validateAll_eq hvalid
  have hholds : ∀ p ∈ rec.changedFiles, ∃ content, Holds tools c.tree p content := by
    intro p hp
    obtain ⟨f, hf, hname⟩ := hmem p hp
    obtain ⟨target, content, htarget, hcontent, -⟩ := hfiles f hf
    rw [hname, parts_slashes] at htarget
    exact ⟨content, target, htarget, hcontent⟩
  -- A file is not the clone itself, so what `add` stages is where the name leads.
  have hlocation : ∀ p ∈ rec.changedFiles, ∀ q, validateWritePath tools c.tree p true = .ok q →
      c.tree.resolve tools.linkLimit (parts p) = .ok q ∧ blobAt c.tree q ≠ none := by
    intro p hp q hq
    obtain ⟨content, target, htarget, hcontent⟩ := hholds p hp
    obtain ⟨-, -, resolved, hresolved, hrelative⟩ := validateWritePath_ok hq
    have hsame : resolved = target := Except.ok.inj (hresolved.symm.trans htarget)
    have hne : resolved ≠ [] := by
      intro hnil
      rw [← hsame, hnil, FileTree.fileAt, c.tree.root] at hcontent
      cases hcontent
    rw [if_neg hne] at hrelative
    rw [hrelative]
    refine ⟨hresolved, ?_⟩
    rw [hsame, blobAt_of_fileAt hcontent]
    exact Option.some_ne_none _
  have hleads : ∀ q, q ∈ locations ↔ LeadsTo tools rec c.tree q := by
    intro q
    constructor
    · intro hq
      obtain ⟨p, hp, hvalid⟩ := hback q hq
      exact ⟨p, hp, (hlocation p hp q hvalid).1⟩
    · rintro ⟨p, hp, hq⟩
      obtain ⟨r, hr, hvalid⟩ := hthere p hp
      rw [Except.ok.inj (hq.symm.trans (hlocation p hp r hvalid).1)]
      exact hr
  have hplace : ∀ q ∈ locations, blobAt c.tree q ≠ none := by
    intro q hq
    obtain ⟨p, hp, hvalid⟩ := hback q hq
    exact (hlocation p hp q hvalid).2
  have hstaged := fun q => @lookup_stage c.tree locations c.git.index q fun x hx => hplace x hx
  refine ⟨hholds, ?_, ?_, ?_⟩
  · intro q hq
    rw [hhead, hstaged, if_pos ((hleads q).mpr hq)]
  · intro q hq
    rw [hhead, hstaged, if_neg (fun hmem => hq ((hleads q).mp hmem))]
  · exact fun q hq => htaken q ((hleads q).mpr hq)

/-- The commit is what was cleared: it differs from its parent only at recorded paths, none
of them protected, and each recorded path holds the bytes hashed into the digest. -/
structure CommitsCleared (tools : Tools) (sha : Sha256) (rec : Record) (protectedWritePaths : List Text)
    (c c' : Clone) : Prop where
  onlyRecorded : ∀ q, c'.git.head.lookup q ≠ c.git.head.lookup q → ∃ p ∈ rec.changedFiles, parts p = q
  unprotected : ∀ q, c'.git.head.lookup q ≠ c.git.head.lookup q →
    matchesProtectedPath tools.unicode (join q) protectedWritePaths = false
  hashed : ∀ p ∈ rec.changedFiles, ∃ content, c'.git.head.lookup (parts p) = some (.file content) ∧
    ∀ t paths runId baseHead payload,
      buildManifest tools sha t paths runId baseHead = some (payload, rec.acceptanceDigest) →
      Holds tools t p content

/-- The clone stands as recorded.  Every recorded path is at its own location, or staged
under its own name with the bytes it leads to; a location that only a link leads to holds
what HEAD holds; and everywhere else outside the record the index is HEAD's. -/
structure StandsAsRecorded (tools : Tools) (rec : Record) (c : Clone) : Prop where
  ownName : ∀ p ∈ rec.changedFiles, ∀ q, c.tree.resolve tools.linkLimit (parts p) = .ok q →
    q = parts p ∨ c.git.index.lookup (parts p) = blobAt c.tree q
  linked : ∀ q, (∀ p ∈ rec.changedFiles, parts p ≠ q) → LeadsTo tools rec c.tree q →
    c.git.head.lookup q = blobAt c.tree q
  elsewhere : ∀ q, (∀ p ∈ rec.changedFiles, parts p ≠ q) → ¬ LeadsTo tools rec c.tree q →
    c.git.index.lookup q = c.git.head.lookup q

/-- A name that leads elsewhere is no location itself. -/
theorem not_leadsTo_of_redirected {t : Tree} {p : Text} {q : Path}
    (hq : t.resolve tools.linkLimit (parts p) = .ok q) (hne : q ≠ parts p) : ¬ LeadsTo tools rec t (parts p) := by
  rintro ⟨r, -, hr⟩
  have hself := FileTree.resolve_of_clear (FileTree.clear_of_resolve hr) tools.linkLimit
  exact hne (Except.ok.inj (hq.symm.trans hself))

/-- A path and its components joined are one to the protected paths. -/
theorem matchesProtectedPath_join (u : Unicode) (path : Text) (protectedWritePaths : List Text) :
    matchesProtectedPath u (join (parts path)) protectedWritePaths = matchesProtectedPath u path protectedWritePaths := by
  unfold matchesProtectedPath fsEquivPath
  rw [parts_join]

/-- **An approve commits what was cleared exactly when the clone stands as recorded**, and a
reject leaves the clone alone. -/
theorem approve_commits_cleared_iff
    (h : finalizeRealRepoChange tools sha preferred run rec .approve protectedWritePaths c = (.ok .approved, c')) :
    (CommitsCleared tools sha rec protectedWritePaths c c' ↔ StandsAsRecorded tools rec c) ∧
      (finalizeRealRepoChange tools sha preferred run rec .reject protectedWritePaths c).2 = c := by
  refine ⟨?_, rfl⟩
  obtain ⟨⟨payload, hbuild⟩, hscope, -⟩ := finalize_approved h
  obtain ⟨hholds, hled, hrest, -⟩ := approved_committed h
  constructor
  · intro hcleared
    refine ⟨?_, ?_, ?_⟩
    · intro p hp q hq
      by_cases hself : q = parts p
      · exact .inl hself
      · -- The name itself is not staged, so its committed bytes are the index's.
        right
        obtain ⟨content, hcommitted, hhashed⟩ := hcleared.hashed p hp
        obtain ⟨target, htarget, hcontent⟩ := hhashed _ _ _ _ _ hbuild
        rw [hrest _ (not_leadsTo_of_redirected hq hself)] at hcommitted
        rw [hcommitted, Except.ok.inj (hq.symm.trans htarget), blobAt_of_fileAt hcontent]
    · intro q hnew hq
      by_contra hne
      rw [← hled q hq] at hne
      obtain ⟨p, hp, hpq⟩ := hcleared.onlyRecorded q (Ne.symm hne)
      exact hnew p hp hpq
    · intro q hnew hq
      by_contra hne
      rw [← hrest q hq] at hne
      obtain ⟨p, hp, hpq⟩ := hcleared.onlyRecorded q hne
      exact hnew p hp hpq
  · intro hstands
    have honly : ∀ q, c'.git.head.lookup q ≠ c.git.head.lookup q → ∃ p ∈ rec.changedFiles, parts p = q := by
      intro q hne
      by_contra hnot
      have hnew : ∀ p ∈ rec.changedFiles, parts p ≠ q := fun p hp hpq => hnot ⟨p, hp, hpq⟩
      by_cases hq : LeadsTo tools rec c.tree q
      · exact hne ((hled q hq).trans (hstands.linked q hnew hq).symm)
      · exact hne ((hrest q hq).trans (hstands.elsewhere q hnew hq))
    refine ⟨honly, ?_, ?_⟩
    · intro q hne
      obtain ⟨p, hp, rfl⟩ := honly q hne
      rw [matchesProtectedPath_join]
      exact hscope p hp
    · intro p hp
      obtain ⟨content, target, htarget, hcontent⟩ := hholds p hp
      refine ⟨content, ?_, ?_⟩
      · rw [← blobAt_of_fileAt hcontent]
        by_cases hself : target = parts p
        · rw [← hself]
          exact hled target ⟨p, hp, htarget⟩
        · rw [hrest _ (not_leadsTo_of_redirected htarget hself)]
          exact (hstands.ownName p hp target htarget).resolve_left hself
      · intro t paths runId baseHead payload' hbuild'
        exact manifest_bytes hbuild hbuild' hp ⟨target, htarget, hcontent⟩

end Commit

/-! ### Two decisions on one clone -/

def baseHead : Text := "0f3c2a9".toList

def patchedTest : Bytes := encode "assert True".toList

def newSource : Bytes := encode "x = 1".toList

def testDigest : Text :=
  ["e250660e1da089b0", "37e60a96c29fdbab", "abdc332f2a97228e", "a1256df8436bfbc8"].flatMap String.toList

def sourceDigest : Text :=
  ["8ff436def1451285", "599a1b1ad7080049", "3b8dcafde2912e1a", "38345633054e4c26"].flatMap String.toList

/-- The clone after a run that patched the test through the link and added a source file. -/
def pendingClone : Clone where
  tree := FileTree.ofEntries
    [(["docs".toList], .dir),
      (["docs".toList, "linkdir".toList], .link [.up, .down "tests".toList]),
      (["src".toList], .dir),
      (["src".toList, "a.py".toList], .file newSource),
      (["tests".toList], .dir),
      (testFile, .file patchedTest)] (by decide)
  git :=
    { branches := ["main".toList]
      branch := "main".toList
      headId := baseHead
      head := [(["docs".toList, "linkdir".toList], .link [.up, .down "tests".toList]),
        (testFile, .file (encode "assert False".toList))]
      index := [(["docs".toList, "linkdir".toList], .link [.up, .down "tests".toList]),
        (testFile, .file (encode "assert False".toList))]
      ignored := fun _ => false }

def recordOf (path : String) (digest : List String) : Record where
  branchName := "agent/fix".toList
  commitMessage := "Make the test pass".toList
  changedFiles := [path.toList]
  acceptanceDigest := digest.flatMap String.toList
  acceptanceBaseHead := baseHead
  runId := "run-1".toList

def linkRecord : Record :=
  recordOf "docs/linkdir/test_x.py" ["6d53c5af1c6455cb", "bf1cf1bff926b55e", "b13c18d85e925e38", "042b71f1f7f2cc25"]

def codeRecord : Record :=
  recordOf "docs/code/a.py" ["56a6fd205d0a0cfd", "aa8f267423d5013f", "2119e5b2b5bb8bdc", "defb85cea12224c0"]

def sourceRecord : Record :=
  recordOf "src/a.py" ["b6328b49403afb1a", "24c4655b0f3fe79f", "6f329212638b2dd4", "a342c964d7156913"]

/-- What SHA-256 makes of the two files and the three manifests. -/
def shaTable : List (Bytes × Text) :=
  [(patchedTest, testDigest), (newSource, sourceDigest),
    (encode (canonicalJson ⟨baseHead, [("docs/linkdir/test_x.py".toList, testDigest)], "run-1".toList⟩),
      linkRecord.acceptanceDigest),
    (encode (canonicalJson ⟨baseHead, [("docs/code/a.py".toList, sourceDigest)], "run-1".toList⟩),
      codeRecord.acceptanceDigest),
    (encode (canonicalJson ⟨baseHead, [("src/a.py".toList, sourceDigest)], "run-1".toList⟩),
      sourceRecord.acceptanceDigest)]

/-- SHA-256 on the table, and something longer elsewhere. -/
def tableDigest (b : Bytes) : Text :=
  match shaTable.lookup b with
  | some digest => digest
  | none => List.replicate 65 '0' ++ b.map fun x => Char.ofNat x.toNat

theorem tableDigest_cases (b : Bytes) :
    (b, tableDigest b) ∈ shaTable ∨
      tableDigest b = List.replicate 65 '0' ++ b.map fun x => Char.ofNat x.toNat := by
  unfold tableDigest
  cases h : shaTable.lookup b with
  | none => exact .inr rfl
  | some digest =>
      obtain ⟨before, after, heq, -⟩ := List.lookup_eq_some_iff.mp h
      left
      rw [heq]
      simp

theorem ofNat_toNat_injective : Function.Injective fun x : UInt8 => Char.ofNat x.toNat := by
  have hall : ∀ n : Fin 256, (Char.ofNat n).toNat = n := by decide +kernel
  intro x y h
  have hx := hall ⟨x.toNat, x.toNat_lt⟩
  have hy := hall ⟨y.toNat, y.toNat_lt⟩
  have hxy : Char.ofNat x.toNat = Char.ofNat y.toNat := h
  rw [hxy] at hx
  exact UInt8.toNat_inj.mp (hx.symm.trans hy)

def sampleSha : Sha256 where
  hexdigest := tableDigest
  collisionFree := by
    have hlength : ∀ e ∈ shaTable, e.2.length = 64 := by decide +kernel
    have hnodup : (shaTable.map (·.2)).Nodup := by decide +kernel
    have hlong : ∀ b b' : Bytes, (b, tableDigest b) ∈ shaTable → tableDigest b ≠
        List.replicate 65 '0' ++ b'.map fun x => Char.ofNat x.toNat := by
      intro b b' hb heq
      have hlen := hlength _ hb
      rw [heq, List.length_append, List.length_replicate] at hlen
      omega
    intro b b' h
    rcases tableDigest_cases b with hb | hb <;> rcases tableDigest_cases b' with hb' | hb'
    · exact congrArg Prod.fst (List.inj_on_of_nodup_map hnodup hb hb' h)
    · exact absurd (h.trans hb') (hlong b b' hb)
    · exact absurd (h.symm.trans hb) (hlong b' b hb')
    · rw [hb, hb'] at h
      exact ofNat_toNat_injective.list_map (List.append_cancel_left h)

def gitSucceeds : GitRun := ⟨true, true, true, true, "9b1d7e4".toList⟩

def decided (c : Clone) (rec : Record) : Except FinalizeError Finalized × Clone :=
  finalizeRealRepoChange sampleEnv.tools sampleSha "agent".toList gitSucceeds rec .approve ["tests/".toList] c

def isApproved : Except FinalizeError Finalized → Bool
  | .ok .approved => true
  | _ => false

theorem decided_eq {c : Clone} {rec : Record} (h : isApproved (decided c rec).1 = true) :
    decided c rec = (.ok .approved, (decided c rec).2) := by
  refine Prod.ext ?_ rfl
  unfold isApproved at h
  split at h
  · assumption
  · cases h

/-- A new file that stands where its name says. -/
theorem approve_commits_cleared_source :
    decided pendingClone sourceRecord = (.ok .approved, (decided pendingClone sourceRecord).2) ∧
      CommitsCleared sampleEnv.tools sampleSha sourceRecord ["tests/".toList] pendingClone
        (decided pendingClone sourceRecord).2 := by
  have happroved := decided_eq (by decide +kernel : isApproved (decided pendingClone sourceRecord).1 = true)
  refine ⟨happroved, (approve_commits_cleared_iff happroved).1.mpr ?_⟩
  have hplace : pendingClone.tree.resolve sampleEnv.tools.linkLimit (parts "src/a.py".toList) =
      .ok (parts "src/a.py".toList) := by decide +kernel
  refine ⟨?_, ?_, fun _ _ _ => rfl⟩
  · intro p hp q hq
    rw [List.mem_singleton.mp hp] at hq ⊢
    exact .inl (Except.ok.inj (hq.symm.trans hplace))
  · rintro q hnew ⟨p, hp, hq⟩
    have hown := hnew p hp
    rw [List.mem_singleton.mp hp] at hq hown
    exact absurd (Except.ok.inj (hplace.symm.trans hq)) hown

/-- **A protected file is committed**, which the record does not name: the gate saw the name
of the link. -/
theorem approve_commits_protected :
    decided pendingClone linkRecord = (.ok .approved, (decided pendingClone linkRecord).2) ∧
      (decided pendingClone linkRecord).2.git.head.lookup testFile = some (.file patchedTest) ∧
      pendingClone.git.head.lookup testFile = some (.file (encode "assert False".toList)) ∧
      matchesProtectedPath ascii (join testFile) ["tests/".toList] = true ∧
      ¬ CommitsCleared sampleEnv.tools sampleSha linkRecord ["tests/".toList] pendingClone
        (decided pendingClone linkRecord).2 := by
  have hprot : matchesProtectedPath ascii (join testFile) ["tests/".toList] = true := by decide +kernel
  have happroved := decided_eq (by decide +kernel : isApproved (decided pendingClone linkRecord).1 = true)
  have hleads : LeadsTo sampleEnv.tools linkRecord pendingClone.tree testFile :=
    ⟨_, List.mem_singleton_self _, by decide +kernel⟩
  have hafter : (decided pendingClone linkRecord).2.git.head.lookup testFile = some (.file patchedTest) :=
    (approved_committed happroved).staged testFile hleads
  have hbefore : pendingClone.git.head.lookup testFile = some (.file (encode "assert False".toList)) := by
    decide +kernel
  refine ⟨happroved, hafter, hbefore, hprot, ?_⟩
  intro hcleared
  have hfalse := hcleared.unprotected testFile (by rw [hafter, hbefore]; decide +kernel)
  exact absurd (hprot.symm.trans hfalse) (by decide)

end CyClaw.Repo

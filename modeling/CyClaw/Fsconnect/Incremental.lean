/-
Staging in incremental mode.

A row of the skip-cache tells the size and time of a file, and its hash.  After a completed
`apply` each row tells of the file that stands in the share under its path, and what is staged
there is that file's content (`Mirrors`).  As long as no file changes its content without
changing its size or time, this is so after any number of runs (`Left.mirrors`).

So a row that is reused is the one that reading the file would make, and the copy in the
staging directory is the one that would be written: both modes come to the same
(`incremental_agrees`), where the file can still be read.  If it cannot, a full run prunes its
copy and an incremental one keeps it (`unreadable_kept`).
-/
import CyClaw.Fsconnect.Indexing

namespace CyClaw.Fsconnect.Index

open Posix DepthFirst
open PathTree (Path)
open Repo (Text splitComponents join)

variable {p : Platform} {ix : FsIndexer} {s s' : Share p} {t t' : Staging}

/-! ### Histories -/

/-- A file that changed its content changed its size or its time. -/
def Honest (s s' : Share p) : Prop :=
  ∀ q n n', s.tree.node q = some n → s'.tree.node q = some n' → n.kind = .regular → n'.kind = .regular →
    n.size = n'.size → n.mtime = n'.mtime → n.content = n'.content

def FsIndexer.mode (ix : FsIndexer) (incremental : Bool) : FsIndexer := { ix with indexIncremental := incremental }

/-- What completed runs leave in the staging directory, the last of them of this share.
Between the runs staged files may be removed. -/
inductive Left (ix : FsIndexer) : Share p → Staging → Prop where
  | first {s : Share p} {t : Staging} {incremental : Bool} {applied : Applied} (hempty : loadCache ix t = [])
      (happly : apply (ix.mode incremental) s t = .ok applied) : Left ix s applied.staging
  | next {s s' : Share p} {t : Staging} {incremental : Bool} {applied : Applied} (h : Left ix s t)
      (hhonest : Honest s s') (happly : apply (ix.mode incremental) s' t = .ok applied) : Left ix s' applied.staging
  | removed {s : Share p} {t : Staging} (h : Left ix s t) (q : Path) : Left ix s (t.erase q)

/-- The skip-cache tells size and time of the entry. -/
def Vouched (cache : Cache) (child : Text) (entry : StatDict) (prior : Cached) : Prop :=
  cache.lookup child = some prior ∧ prior.size = entry.size ∧ prior.mtime = entry.mtime

/-- A file that the skip-cache vouches for can be read as long as its copy is there.  Its name
has no backslash and it is not in the place of the skip-cache. -/
def Steady (ix : FsIndexer) (s : Share p) (t : Staging) : Prop :=
  ∀ rel d entry prior, splitComponents rel = some d → entry ∈ s.entries d →
    ix.considers (childPath rel entry.name) entry = true →
    Vouched (loadCache ix t) (childPath rel entry.name) entry prior →
      '\\' ∉ entry.name ∧ d ++ [entry.name] ≠ [cacheName] ∧
        (t.holds (d ++ [entry.name]) = true →
          ∃ data, s.readBytes (childPath rel entry.name) ix.indexMaxFileBytes = .ok data)

/-- The same is staged, with the same rows for it, and the same has been pruned. -/
def Same (a b : Applied) : Prop :=
  a.staging = b.staging ∧ a.manifest.filterMap Row.cached = b.manifest.filterMap Row.cached ∧ a.pruned = b.pruned

/-! ### What the rows tell -/

/-- The row of a file. -/
def told (p : Platform) (ix : FsIndexer) (n : PathTree.Node) : Cached :=
  ⟨n.size, n.mtime, p.sha256 n.content, ix.scanContent n.content⟩

/-- What stands behind the last slash. -/
def lastName (path : Text) : Text := (path.reverse.takeWhile (· ≠ '/')).reverse

/-- A row tells of the file that its path leads to. -/
structure Tells (ix : FsIndexer) (s : Share p) (path : Text) (file : Cached) (q : Path) (n : PathTree.Node) : Prop where
  target : splitComponents path = some q
  node : s.tree.node q = some n
  regular : n.kind = .regular
  told : file = told p ix n

/-- The skip-cache tells of the share, and its content is what is staged. -/
structure Mirrors (ix : FsIndexer) (s : Share p) (t : Staging) : Prop where
  keys : ∀ path file, (path, file) ∈ loadCache ix t → ∃ q, splitComponents path = some q
  rows : ∀ path file, (path, file) ∈ loadCache ix t → '\\' ∉ lastName path → ∃ q n, Tells ix s path file q n ∧
    (q ≠ [cacheName] → t.tree.entry q = none ∨ t.tree.entry q = some (.file (.bytes n.content)))

/-- So do the rows of a run that is on its way. -/
def Kept (ix : FsIndexer) (s : Share p) (w : Work Copies) : Prop :=
  ∀ row ∈ w.manifest, ∀ path file, row.cached = some (path, file) → '\\' ∉ lastName path → ∃ q n,
    Tells ix s path file q n ∧
      (q ≠ [cacheName] → w.state.staging.tree.entry q = some (.file (.bytes n.content)))

/-- What a run writes are files of the share. -/
def Served (ix : FsIndexer) (s : Share p) (q : Path) (content : Content) : Prop :=
  ∃ d name n, q = d ++ [name] ∧ s.Reads ix.indexMaxFileBytes d name n ∧ content = .bytes n.content

section Entries

variable {rel : Text} {d q : Path} {e : StatDict} {n : PathTree.Node}

theorem lastName_childPath {name : Text} (h : '/' ∉ name) : lastName (childPath rel name) = name := by
  have hall : ∀ c ∈ name.reverse, decide (c ≠ '/') = true := by
    intro c hc
    rw [decide_eq_true_eq]
    rintro rfl
    exact h (List.mem_reverse.mp hc)
  unfold lastName childPath
  split
  · rw [List.takeWhile_eq_self_iff.mpr hall, List.reverse_reverse]
  · rw [List.reverse_append, List.reverse_cons, List.append_assoc, List.takeWhile_append_of_pos hall]
    simp

theorem kind_of_file {name : Text} {st : Stat} (h : (statToDict p name st).type = "file".toList) :
    st.kind = .regular := by
  unfold statToDict at h
  cases hkind : st.kind with
  | regular => rfl
  | dir => simp [hkind] at h
  | symlink => simp [hkind] at h
  | other => simp [hkind] at h

/-- The file that an entry tells of. -/
theorem node_of_considered (he : e ∈ s.entries d) (h : ix.considers (childPath rel e.name) e = true) :
    ∃ n, s.tree.node (d ++ [e.name]) = some n ∧ n.kind = .regular ∧ e.size = n.size ∧ e.mtime = n.mtime := by
  obtain ⟨n, hn, heq, -⟩ := entry_eq_some (mem_entries.mp he)
  simp only [FsIndexer.considers, decide_eq_true_eq] at h
  have hfile := h.1
  rw [heq] at hfile
  exact ⟨n, hn, kind_of_file hfile, congrArg StatDict.size heq, congrArg StatDict.mtime heq⟩

/-- A name without a backslash leads to the entry itself, if anywhere. -/
theorem target_of_entry (hrel : splitComponents rel = some d) (he : e ∈ s.entries d) (hback : '\\' ∉ e.name)
    (hq : splitComponents (childPath rel e.name) = some q) : q = d ++ [e.name] := by
  have hname := isName_of_entry he
  by_cases htaken : Taken e.name
  · rw [splitComponents_child hrel hname htaken, Option.some.injEq] at hq
    exact hq.symm
  · rw [splitComponents_refused hname hback htaken] at hq
    cases hq

theorem node_of_served {content : Content} (h : Served ix s q content) :
    ∃ n, s.tree.node q = some n ∧ n.kind = .regular ∧ content = .bytes n.content := by
  obtain ⟨d, name, n, rfl, hreads, rfl⟩ := h
  exact ⟨n, hreads.node, hreads.regular, rfl⟩

/-- What a run has made of a place where a file of the share stands. -/
theorem entry_of_grown (hgrown : t.tree.Grown (Served ix s) t'.tree) (hn : s.tree.node q = some n)
    (hregular : n.kind = .regular) :
    t'.tree.entry q = t.tree.entry q ∨ t'.tree.entry q = some (.file (.bytes n.content)) ∧
      ∃ content, Served ix s q content := by
  rcases hgrown q with hsame | ⟨content, hserved, hfile, -⟩ | ⟨-, -, r, content, hserved, hinit, hne⟩
  · exact .inl hsame
  · obtain ⟨m, hm, -, rfl⟩ := node_of_served hserved
    rw [hn, Option.some.injEq] at hm
    rw [hm]
    exact .inr ⟨hfile, _, hserved⟩
  · exfalso
    obtain ⟨m, hm, -, -⟩ := node_of_served hserved
    obtain ⟨rest, rfl⟩ := hinit
    have hdir := PathTree.Tree.isDir_above hm fun hnil => hne (by rw [hnil, List.append_nil])
    obtain ⟨n', hn', hkind⟩ := PathTree.Tree.isDir_iff.mp hdir
    rw [hn, Option.some.injEq] at hn'
    rw [← hn', hregular] at hkind
    cases hkind

end Entries

/-! ### One entry -/

section Step

variable {rel : Text} {d : Path} {e : StatDict} {prior : Cached}

/-- A row that is reused tells of the file as it is now, and its content is staged. -/
theorem tells_of_hit (hmirrors : Mirrors ix s t) (hhonest : Honest s s') (hrel : splitComponents rel = some d)
    (he : e ∈ s'.entries d) (hconsiders : ix.considers (childPath rel e.name) e = true) (hback : '\\' ∉ e.name)
    (hgrown : t.tree.Grown (Served ix s') t'.tree)
    (hhit : Hit (loadCache ix t) t' (childPath rel e.name) e prior) :
    ∃ n, Tells ix s' (childPath rel e.name) prior (d ++ [e.name]) n ∧ (d ++ [e.name] ≠ [cacheName] →
      t'.tree.entry (d ++ [e.name]) = some (.file (.bytes n.content)) ∧
        (t.holds (d ++ [e.name]) = true ∨ ∃ content, Served ix s' (d ++ [e.name]) content)) := by
  obtain ⟨hprior, hsize, hmtime, q, hq, hholds⟩ := hhit
  have hlast : lastName (childPath rel e.name) = e.name := lastName_childPath (isName_of_entry he).2.2.2
  obtain ⟨q', n, htells, hstaged⟩ := hmirrors.rows _ _ (mem_of_lookup hprior) (by rwa [hlast])
  obtain rfl := target_of_entry hrel he hback hq
  obtain ⟨htarget, hn, hregular, rfl⟩ := htells
  obtain rfl : d ++ [e.name] = q' := by
    rw [hq, Option.some.injEq] at htarget
    exact htarget
  obtain ⟨n', hn', hregular', hsize', hmtime'⟩ := node_of_considered he hconsiders
  have hsame : n.size = n'.size ∧ n.mtime = n'.mtime := ⟨hsize.trans hsize', hmtime.trans hmtime'⟩
  have hcontent := hhonest _ n n' hn hn' hregular hregular' hsame.1 hsame.2
  refine ⟨n', ⟨hq, hn', hregular', ?_⟩, ?_⟩
  · rw [told, told, hsame.1, hsame.2, hcontent]
  · intro hplace
    rw [Staging.holds, Option.isSome_iff_ne_none] at hholds
    rcases entry_of_grown hgrown hn' hregular' with hold | ⟨hfile, hserved⟩
    · rw [hold] at hholds ⊢
      rcases hstaged hplace with hnone | hfile
      · exact absurd hnone hholds
      · rw [hfile, hcontent]
        refine ⟨rfl, .inl ?_⟩
        rw [Staging.holds, hfile]
        rfl
    · exact ⟨hfile, .inr hserved⟩

/-- Writing a file of the share leaves the rows as they are. -/
theorem kept_of_write {w : Work Copies} {q : Path} {n : PathTree.Node} {copied : List Text} (hw : Kept ix s w)
    (hn : s.tree.node q = some n) (hwrite : w.state.staging.write q (.bytes n.content) = some t') :
    Kept ix s ⟨w.manifest, ⟨t', copied⟩⟩ := by
  intro row hrow path file hcached hback
  obtain ⟨q', n', htells, hstaged⟩ := hw row hrow path file hcached hback
  refine ⟨q', n', htells, ?_⟩
  intro hplace
  have hfile := hstaged hplace
  obtain ⟨hentry, -, hpass⟩ := FileTree.entry_of_write (write_eq hwrite)
  show t'.tree.entry q' = _
  rw [hentry, FileTree.written]
  by_cases hq : q' = q
  · have hnode := htells.node
    rw [hq, hn, Option.some.injEq] at hnode
    rw [if_pos hq, hnode]
  · rw [if_neg hq]
    by_cases hinit : q' <+: q
    · have hpassable := hpass q' hinit hq
      rw [FileTree.passable, hfile] at hpassable
      cases hpassable
    · rw [if_neg hinit, hfile]

/-- One entry keeps what is known of the rows. -/
theorem kept_of_looked {incremental : Bool} {w w' : Work Copies} (hmirrors : Mirrors ix s t) (hhonest : Honest s s')
    (hrel : splitComponents rel = some d) (he : e ∈ s'.entries d)
    (hgrown : t.tree.Grown (Served ix s') w.state.staging.tree) (hw : Kept ix s' w)
    (h : Looked (ix.mode incremental) s' (applyHooks incremental (loadCache ix t)) (childPath rel e.name) e w w') :
    t.tree.Grown (Served ix s') w'.state.staging.tree ∧ Kept ix s' w' := by
  have hlast : lastName (childPath rel e.name) = e.name := lastName_childPath (isName_of_entry he).2.2.2
  have hadd : ∀ {w : Work Copies} {rows : List Row}, Kept ix s' w →
      Kept ix s' ⟨rows, w.state⟩ → Kept ix s' ⟨w.manifest ++ rows, w.state⟩ := by
    intro w rows hw hrows row hrow
    rcases List.mem_append.mp hrow with hrow | hrow
    · exact hw row hrow
    · exact hrows row hrow
  cases h with
  | passed _ hrows =>
      refine ⟨hgrown, hadd hw ?_⟩
      intro row hrow path file hcached
      rw [hrows row hrow] at hcached
      cases hcached
  | failed _ _ _ =>
      refine ⟨hgrown, hadd hw ?_⟩
      intro row hrow path file hcached
      rw [List.mem_singleton.mp hrow] at hcached
      cases hcached
  | hit hconsiders hcached =>
      refine ⟨hgrown, hadd hw ?_⟩
      unfold applyHooks at hcached
      dsimp only at hcached
      split at hcached
      · obtain ⟨prior, hhit, rfl⟩ := cacheProbe_some hcached
        intro row hrow path file hpath hback
        rw [List.mem_singleton.mp hrow] at hpath
        obtain ⟨rfl, rfl⟩ := Prod.mk.inj (Option.some.inj hpath)
        rw [hlast] at hback
        obtain ⟨n, htells, hstaged⟩ := tells_of_hit hmirrors hhonest hrel he hconsiders hback hgrown hhit
        exact ⟨_, n, htells, fun hplace => (hstaged hplace).1⟩
      · cases hcached
  | @read data state hconsiders hcached hread hfile =>
      obtain ⟨q, t', hq, hwrite, rfl⟩ := stage_ok hfile
      obtain ⟨d', name, n, hsplit, hreads, rfl⟩ := reads_of_readBytes hread
      rw [hq, Option.some.injEq] at hsplit
      have hnode : s'.tree.node q = some n := hsplit ▸ hreads.node
      have hserved : Served ix s' q (.bytes n.content) := ⟨d', name, n, hsplit, hreads, rfl⟩
      refine ⟨hgrown.write hserved (write_eq hwrite), hadd (w := ⟨w.manifest, ⟨t', _⟩⟩) (kept_of_write hw hnode hwrite) ?_⟩
      intro row hrow path file hpath hback
      rw [List.mem_singleton.mp hrow] at hpath
      obtain ⟨rfl, rfl⟩ := Prod.mk.inj (Option.some.inj hpath)
      rw [hlast] at hback
      obtain ⟨n', hn', hregular, hsize, hmtime⟩ := node_of_considered he hconsiders
      obtain rfl := target_of_entry hrel he hback hq
      obtain rfl : n = n' := by
        rw [hnode, Option.some.injEq] at hn'
        exact hn'
      refine ⟨_, n, ⟨hq, hnode, hregular, ?_⟩, fun _ => ?_⟩
      · rw [hsize, hmtime]
        rfl
      · show t'.tree.entry _ = _
        rw [(FileTree.entry_of_write (write_eq hwrite)).1, FileTree.written, if_pos rfl]

end Step

/-! ### A run -/

section Run

variable {applied : Applied} {incremental : Bool}

/-- A directory that a run lists. -/
theorem entries_of_list {T : Type} {hooks : Hooks T} {rel : Text} {es : List StatDict} {e : StatDict}
    (hlist : (walker ix s hooks).list rel = .ok es) (he : e ∈ es) :
    ∃ d, splitComponents rel = some d ∧ e ∈ s.entries d := by
  have hlisted : (s.listDir rel).mapError Halt.raised = .ok es := hlist
  cases h : s.listDir rel with
  | error x =>
      rw [h] at hlisted
      cases hlisted
  | ok es' =>
      rw [h] at hlisted
      obtain rfl := Except.ok.inj hlisted
      obtain ⟨d, hd, -, rfl⟩ := lists_of_listed h
      exact ⟨d, hd, he⟩

/-- Saving puts the rows in their place and takes nothing else but its own temporary file. -/
theorem entry_saveCache {manifest : List Row} (h : saveCache manifest t = .ok t') :
    t'.tree.entry [cacheName] = some (.file (.cache (manifest.filterMap Row.cached).reverse)) ∧
      ∀ q, q ≠ [] → q ≠ [cacheName] → t'.tree.entry q = none ∨ t'.tree.entry q = t.tree.entry q := by
  have hwritten : ∀ {t₁ t₂ : Staging} {name : Text} {content : Content} {q : Path},
      t₁.write [name] content = some t₂ → q ≠ [] →
        t₂.tree.entry q = if q = [name] then some (.file content) else t₁.tree.entry q := by
    intro t₁ t₂ name content q hwrite hq
    rw [(FileTree.entry_of_write (write_eq hwrite)).1, FileTree.written]
    by_cases heq : q = [name]
    · rw [if_pos heq, if_pos heq]
    · rw [if_neg heq, if_neg heq, if_neg]
      intro hinit
      rcases List.prefix_cons_iff.mp hinit with hnil | ⟨rest, rfl, hrest⟩
      · exact hq hnil
      · rw [List.prefix_nil.mp hrest] at heq
        exact heq rfl
  unfold saveCache at h
  dsimp only at h
  split at h
  · cases h
  · rename_i t₁ htmp
    split at h
    · cases h
    · rename_i t₂ hcache
      obtain rfl := Except.ok.inj h
      have herased : ∀ q, (t₂.erase [tmpName]).tree.entry q =
          if q = [tmpName] ∧ t₂.tree.isDir [tmpName] = false then none else t₂.tree.entry q :=
        FileTree.entry_erase t₂.tree [tmpName]
      have hapart : [cacheName] ≠ [tmpName] := by decide
      constructor
      · rw [herased, if_neg fun hboth => hapart hboth.1, hwritten hcache (by simp), if_pos rfl]
      · intro q hnil hq
        rw [herased]
        split
        · exact .inl rfl
        · rename_i hnot
          rw [hwritten hcache hnil, if_neg hq, hwritten htmp hnil]
          split
          · rename_i heq
            refine absurd ⟨heq, ?_⟩ hnot
            have hfile : t₂.tree.entry [tmpName] = some (.file (.cache (manifest.filterMap Row.cached).reverse)) := by
              rw [hwritten hcache (by simp), if_neg hapart.symm, hwritten htmp (by simp), if_pos rfl]
            rw [FileTree.isDir, hfile]
          · exact .inr rfl

/-- **A completed run leaves rows that tell of its share.** -/
theorem mirrors_of_apply (hmirrors : Mirrors ix s t) (hhonest : Honest s s')
    (h : apply (ix.mode incremental) s' t = .ok applied) : Mirrors ix s' applied.staging := by
  obtain ⟨w, t₁, hrun, hpruned, hsaved, -⟩ := apply_inv h
  have hwalk : t.tree.Grown (Served ix s') w.state.staging.tree ∧ Kept ix s' w := by
    refine Walker.walk_invariant (I := fun w => t.tree.Grown (Served ix s') w.state.staging.tree ∧ Kept ix s' w)
      ?_ ⟨FileTree.Grown.refl _ _, fun row hrow => absurd hrow List.not_mem_nil⟩ hrun
    rintro rel es e w w' hlist he ⟨hgrown, hw⟩ hlook
    obtain ⟨d, hrel, he⟩ := entries_of_list hlist he
    exact kept_of_looked hmirrors hhonest hrel he hgrown hw (looked_of_look rel hlook)
  have hkeeps : ∀ q, t₁.tree.entry q = none ∨ t₁.tree.entry q = w.state.staging.tree.entry q := by
    refine (pruneStaging_invariant
      (I := fun t' => ∀ q, t'.tree.entry q = none ∨ t'.tree.entry q = w.state.staging.tree.entry q) ?_
      (fun _ => .inr rfl) hpruned).1
    intro rel _ _ q t₂ _ ht₂ r
    have herased : (t₂.erase q).tree.entry r = if r = q ∧ t₂.tree.isDir q = false then none else t₂.tree.entry r :=
      FileTree.entry_erase t₂.tree q r
    rw [herased]
    split
    · exact .inl rfl
    · exact ht₂ r
  obtain ⟨hcache, hothers⟩ := entry_saveCache hsaved
  have hload : loadCache ix applied.staging = (w.manifest.filterMap Row.cached).reverse := by
    rw [loadCache, FileTree.fileAt, hcache]
  have hrow : ∀ path file, (path, file) ∈ loadCache ix applied.staging →
      ∃ row ∈ w.manifest, row.cached = some (path, file) := by
    intro path file hmem
    rw [hload, List.mem_reverse] at hmem
    exact List.mem_filterMap.mp hmem
  constructor
  · intro path file hmem
    obtain ⟨row, hmem, hcached⟩ := hrow path file hmem
    exact split_of_run sound_applyHooks hrun row hmem path file hcached
  · intro path file hmem hback
    obtain ⟨row, hmem, hcached⟩ := hrow path file hmem
    obtain ⟨q, n, htells, hstaged⟩ := hwalk.2 row hmem path file hcached hback
    refine ⟨q, n, htells, ?_⟩
    intro hplace
    have hfile := hstaged hplace
    have hnil : q ≠ [] := by
      rintro rfl
      rw [w.state.staging.tree.root] at hfile
      cases hfile
    rcases hothers q hnil hplace with hnone | hsame
    · exact .inl hnone
    · rw [hsame]
      rcases hkeeps q with hnone | hsame'
      · exact .inl hnone
      · rw [hsame', hfile]
        exact .inr rfl

theorem honest_refl (s : Share p) : Honest s s := by
  intro q n n' hn hn' _ _ _ _
  rw [hn, Option.some.injEq] at hn'
  rw [hn']

theorem mirrors_of_empty (h : loadCache ix t = []) : Mirrors ix s t := by
  have hnone : ∀ path file, (path, file) ∉ loadCache ix t := by
    intro path file hmem
    rw [h] at hmem
    cases hmem
  exact ⟨fun path file hmem => absurd hmem (hnone path file), fun path file hmem => absurd hmem (hnone path file)⟩

theorem mirrors_erase (h : Mirrors ix s t) (q : Path) : Mirrors ix s (t.erase q) := by
  have herased : ∀ r, (t.erase q).tree.entry r = if r = q ∧ t.tree.isDir q = false then none else t.tree.entry r :=
    FileTree.entry_erase t.tree q
  have hload : ∀ row, row ∈ loadCache ix (t.erase q) → row ∈ loadCache ix t := by
    intro row hrow
    unfold loadCache FileTree.fileAt at hrow ⊢
    rw [herased] at hrow
    by_cases hgone : [cacheName] = q ∧ t.tree.isDir q = false
    · rw [if_pos hgone] at hrow
      cases hrow
    · rwa [if_neg hgone] at hrow
  constructor
  · exact fun path file hmem => h.keys path file (hload _ hmem)
  · intro path file hmem hback
    obtain ⟨r, n, htells, hstaged⟩ := h.rows path file (hload _ hmem) hback
    refine ⟨r, n, htells, ?_⟩
    intro hplace
    rw [herased]
    split
    · exact .inl rfl
    · exact hstaged hplace

/-- **After any number of completed runs the rows tell of the share.** -/
theorem Left.mirrors (h : Left ix s t) : Mirrors ix s t := by
  induction h with
  | @first s _ _ _ hempty happly => exact mirrors_of_apply (mirrors_of_empty hempty) (honest_refl s) happly
  | next _ hhonest happly ih => exact mirrors_of_apply ih hhonest happly
  | removed _ q ih => exact mirrors_erase ih q

end Run

/-! ### The two modes -/

/-- Two runs on their way that come to the same. -/
def Alongside (ix : FsIndexer) (s : Share p) (t : Staging) (w w' : Work Copies) : Prop :=
  w.manifest.filterMap Row.cached = w'.manifest.filterMap Row.cached ∧ w.state.staging = w'.state.staging ∧
    t.tree.Grown (Served ix s) w.state.staging.tree

section Modes

variable {rel : Text} {d : Path} {e : StatDict} {w w' : Work Copies} {cache : Cache}

theorem filterMap_add {rows : List Row} {row : Row} :
    (rows ++ [row]).filterMap Row.cached = rows.filterMap Row.cached ++ row.cached.toList := by
  rw [List.filterMap_append]
  cases h : row.cached with
  | none => rw [List.filterMap_cons_none h, Option.toList_none, List.filterMap_nil]
  | some file => rw [List.filterMap_cons_some h, Option.toList_some, List.filterMap_nil]

/-- Reading a file comes to the same in both. -/
theorem readFile_alike {child : Text} (hR : Alongside ix s t w w') :
    Walker.Alike (Alongside ix s t) (readFile (ix.mode false) s (applyHooks false cache) child e w)
      (readFile (ix.mode true) s (applyHooks true cache) child e w') := by
  obtain ⟨hrows, hstaging, hgrown⟩ := hR
  unfold readFile
  cases hread : s.readBytes child (ix.mode false).indexMaxFileBytes with
  | error x =>
      have hread' : s.readBytes child (ix.mode true).indexMaxFileBytes = .error x := hread
      rw [hread']
      dsimp only
      rw [if_pos (isolated_readBytes x hread), if_pos (isolated_readBytes x hread)]
      refine .ok ⟨?_, hstaging, hgrown⟩
      rw [Work.add, Work.add, filterMap_add, filterMap_add, hrows]
  | ok data =>
      have hread' : s.readBytes child (ix.mode true).indexMaxFileBytes = .ok data := hread
      rw [hread']
      obtain ⟨d, name, n, hsplit, hreads, rfl⟩ := reads_of_readBytes hread
      simp only [applyHooks, stage, hsplit, ← hstaging]
      cases hwrite : w.state.staging.write (d ++ [name]) (.bytes n.content) with
      | none => exact .error _
      | some t' =>
          refine .ok ⟨?_, rfl, hgrown.write ⟨d, name, n, rfl, hreads, rfl⟩ (write_eq hwrite)⟩
          rw [filterMap_add, filterMap_add, hrows]
          rfl

/-- **Reading again what could be reused makes the same row, and writes what is there.** -/
theorem takeFile_alike (hmirrors : Mirrors ix s t) (hhonest : Honest s s') (hsteady : Steady ix s' t)
    (hrel : splitComponents rel = some d) (he : e ∈ s'.entries d)
    (hconsiders : ix.considers (childPath rel e.name) e = true) (hR : Alongside ix s' t w w') :
    Walker.Alike (Alongside ix s' t)
      (takeFile (ix.mode false) s' (applyHooks false (loadCache ix t)) (childPath rel e.name) e w)
      (takeFile (ix.mode true) s' (applyHooks true (loadCache ix t)) (childPath rel e.name) e w') := by
  obtain ⟨hrows, hstaging, hgrown⟩ := hR
  obtain ⟨o, hprobe⟩ : ∃ o, cacheProbe (loadCache ix t) (childPath rel e.name) e w'.state.staging = .ok o :=
    exists_cacheProbe fun prior hprior => hmirrors.keys _ prior (mem_of_lookup hprior)
  have hfull : takeFile (ix.mode false) s' (applyHooks false (loadCache ix t)) (childPath rel e.name) e w =
      readFile (ix.mode false) s' (applyHooks false (loadCache ix t)) (childPath rel e.name) e w := rfl
  have hincremental : (applyHooks true (loadCache ix t)).cachedEntryFor (childPath rel e.name) e w'.state = .ok o :=
    hprobe
  rw [hfull]
  unfold takeFile
  rw [hincremental]
  cases o with
  | none => exact readFile_alike ⟨hrows, hstaging, hgrown⟩
  | some row =>
      obtain ⟨prior, hhit, rfl⟩ := cacheProbe_some hprobe
      have hvouched : Vouched (loadCache ix t) (childPath rel e.name) e prior := ⟨hhit.1, hhit.2.1, hhit.2.2.1⟩
      obtain ⟨hback, hplace, hreadable⟩ := hsteady rel d e prior hrel he hconsiders hvouched
      rw [← hstaging] at hhit
      obtain ⟨n, htells, hstaged⟩ := tells_of_hit hmirrors hhonest hrel he hconsiders hback hgrown hhit
      obtain ⟨hfile, hthere⟩ := hstaged hplace
      -- the file can be read, and what is read is its content
      have hread : s'.readBytes (childPath rel e.name) ix.indexMaxFileBytes = .ok n.content := by
        have hread : ∃ data, s'.readBytes (childPath rel e.name) ix.indexMaxFileBytes = .ok data := by
          rcases hthere with hthere | ⟨content, d', name, m, hq, hreads, -⟩
          · exact hreadable hthere
          · exact ⟨m.content, readBytes_of_reads (hq ▸ htells.target) hreads⟩
        obtain ⟨data, hread⟩ := hread
        obtain ⟨d', name, m, hsplit, hreads, rfl⟩ := reads_of_readBytes hread
        have hnode := htells.node
        rw [htells.target, Option.some.injEq] at hsplit
        rw [hsplit, hreads.node, Option.some.injEq] at hnode
        rw [hread, hnode]
      obtain ⟨m, hm, -, hsize, hmtime⟩ := node_of_considered he hconsiders
      obtain rfl : n = m := by
        have hnode := htells.node
        rw [hm, Option.some.injEq] at hnode
        exact hnode.symm
      have hsame : w.state.staging.write (d ++ [e.name]) (.bytes n.content) = some w.state.staging :=
        write_same (by rw [FileTree.fileAt, hfile])
      have hreadFile : readFile (ix.mode false) s' (applyHooks false (loadCache ix t)) (childPath rel e.name) e w =
          .ok ⟨w.manifest ++ [.kept (childPath rel e.name)
            ⟨e.size, e.mtime, p.sha256 n.content, ix.scanContent n.content⟩ false],
            ⟨w.state.staging, w.state.copied ++ [childPath rel e.name]⟩⟩ := by
        have hread' : s'.readBytes (childPath rel e.name) (ix.mode false).indexMaxFileBytes = .ok n.content := hread
        unfold readFile
        rw [hread']
        simp only [applyHooks, stage, htells.target, hsame]
        rfl
      rw [hreadFile]
      refine .ok ⟨?_, hstaging, hgrown⟩
      rw [Work.add, filterMap_add, filterMap_add, hrows, htells.told, told, hsize, hmtime]
      rfl

theorem look_alike (hmirrors : Mirrors ix s t) (hhonest : Honest s s') (hsteady : Steady ix s' t)
    (hrel : splitComponents rel = some d) (he : e ∈ s'.entries d) (hR : Alongside ix s' t w w') :
    Walker.Alike (Alongside ix s' t) (look (ix.mode false) s' (applyHooks false (loadCache ix t)) rel e w)
      (look (ix.mode true) s' (applyHooks true (loadCache ix t)) rel e w') := by
  cases hconsiders : ix.considers (childPath rel e.name) e with
  | false =>
      have hnot : ∀ mode, (ix.mode mode).considers (childPath rel e.name) e = false := fun _ => hconsiders
      obtain ⟨rows, hrows, hlook⟩ := look_of_not_considers s' (applyHooks false (loadCache ix t)) w (hnot false)
      obtain ⟨rows', hrows', hlook'⟩ := look_of_not_considers s' (applyHooks true (loadCache ix t)) w' (hnot true)
      rw [hlook, hlook']
      refine .ok ⟨?_, hR.2⟩
      rw [List.filterMap_append, List.filterMap_append, hR.1, List.filterMap_eq_nil_iff.mpr hrows,
        List.filterMap_eq_nil_iff.mpr hrows']
  | true =>
      have hboth : ∀ mode, (ix.mode mode).considers (childPath rel e.name) e = true := fun _ => hconsiders
      rw [look_of_considers (hboth false), look_of_considers (hboth true)]
      exact takeFile_alike hmirrors hhonest hsteady hrel he hconsiders hR

theorem finish_alike (hR : Alongside ix s t w w') : Walker.Alike Same (finish cache w) (finish cache w') := by
  obtain ⟨hrows, hstaging, -⟩ := hR
  unfold finish saveCache
  rw [current, current, hrows, hstaging]
  cases pruneStaging ((w'.manifest.filterMap Row.cached).map Prod.fst) (sortedPaths cache) w'.state.staging with
  | error x => exact .error x
  | ok done =>
      obtain ⟨t', pruned⟩ := done
      dsimp only
      cases t'.write [tmpName] (.cache (w'.manifest.filterMap Row.cached).reverse) with
      | none => exact .error _
      | some t₁ =>
          dsimp only
          cases t₁.write [cacheName] (.cache (w'.manifest.filterMap Row.cached).reverse) with
          | none => exact .error _
          | some t₂ => exact .ok ⟨rfl, hrows, rfl⟩

theorem apply_eq (incremental : Bool) :
    apply (ix.mode incremental) s t =
      (run (ix.mode incremental) s (applyHooks incremental (loadCache ix t)) ⟨t, []⟩).bind (finish (loadCache ix t)) := by
  have hrun : run (ix.mode incremental) s
      (applyHooks (ix.mode incremental).indexIncremental (loadCache (ix.mode incremental) t)) ⟨t, []⟩ =
        run (ix.mode incremental) s (applyHooks incremental (loadCache ix t)) ⟨t, []⟩ := rfl
  unfold apply
  dsimp only
  rw [hrun]
  cases run (ix.mode incremental) s (applyHooks incremental (loadCache ix t)) ⟨t, []⟩ with
  | error x => rfl
  | ok w => rfl

end Modes

/-- **An incremental run comes to the same as a full one** after any number of completed runs,
as long as the files that the skip-cache vouches for can still be read. -/
theorem incremental_agrees (hleft : Left ix s t) (hhonest : Honest s s') (hsteady : Steady ix s' t) :
    Walker.Alike Same (apply (ix.mode false) s' t) (apply (ix.mode true) s' t) := by
  have hwalk : Walker.Alike (Alongside ix s' t) (run (ix.mode false) s' (applyHooks false (loadCache ix t)) ⟨t, []⟩)
      (run (ix.mode true) s' (applyHooks true (loadCache ix t)) ⟨t, []⟩) := by
    have hsame : ∀ rel, (walker (ix.mode true) s' (applyHooks true (loadCache ix t))).list rel =
        (walker (ix.mode false) s' (applyHooks false (loadCache ix t))).list rel := fun _ => rfl
    refine Walker.walk_alike (R := Alongside ix s' t) hsame (fun _ _ => rfl) rfl ?_ ix.frames []
      ⟨[], ⟨t, []⟩⟩ ⟨[], ⟨t, []⟩⟩ ⟨rfl, rfl, FileTree.Grown.refl _ _⟩
    intro rel es e w w' hlist he hR
    obtain ⟨d, hrel, he⟩ := entries_of_list hlist he
    exact look_alike hleft.mirrors hhonest hsteady hrel he hR
  rw [apply_eq false, apply_eq true]
  generalize run (ix.mode false) s' (applyHooks false (loadCache ix t)) ⟨t, []⟩ = r at hwalk ⊢
  generalize run (ix.mode true) s' (applyHooks true (loadCache ix t)) ⟨t, []⟩ = r' at hwalk ⊢
  cases hwalk with
  | error x => exact .error x
  | ok hR => exact finish_alike hR

/-! ### Notes that are staged -/

/-- Where nothing fails and every name is taken, all that is vouched for can be read. -/
theorem steady_faultless {tree : PathTree.Tree}
    (hnames : ∀ q n, tree.node q = some n → ∀ c ∈ q, Taken c ∧ c ≠ cacheName) :
    Steady ix (faultless linux tree) t := by
  intro rel d e prior hrel he hconsiders _
  obtain ⟨n, hn, hregular, hsize, -⟩ := node_of_considered he hconsiders
  obtain ⟨htaken, hplace⟩ := hnames _ n hn e.name (by simp)
  refine ⟨htaken.2.1, ?_, ?_⟩
  · intro heq
    have hlast := congrArg List.getLast? heq
    rw [List.getLast?_concat] at hlast
    exact hplace (Option.some.inj hlast)
  · intro _
    have hdir : (faultless linux tree).tree.isDir d = true := PathTree.Tree.isDir_parent hn
    have hlists : (faultless linux tree).Lists d := lists_of_faultless (fun _ _ => rfl) hdir
    have hshort : n.content.length ≤ ix.indexMaxFileBytes := by
      simp only [FsIndexer.considers, decide_eq_true_eq] at hconsiders
      have hle := hconsiders.2.2.2
      rwa [hsize, PathTree.Node.size, if_pos hregular] at hle
    exact ⟨n.content, readBytes_of_reads (splitComponents_child hrel (isName_of_entry he) htaken)
      ⟨hlists.1, hn, hregular, hshort, rfl, rfl, rfl, rfl⟩⟩

/-- What a first run leaves of the notes. -/
def stagedDocs : Staging :=
  match apply (notesIndexer.mode false) (faultless linux docs) emptyStaging with
  | .ok applied => applied.staging
  | .error _ => emptyStaging

theorem left_docs : Left notesIndexer (faultless linux docs) stagedDocs := by
  obtain ⟨applied, happlied⟩ :
      ∃ applied, apply (notesIndexer.mode false) (faultless linux docs) emptyStaging = .ok applied := ⟨_, by rfl⟩
  have hstaged : stagedDocs = applied.staging := by rw [stagedDocs, happlied]
  rw [hstaged]
  exact .first rfl happlied

theorem names_docs : ∀ row ∈ notes "docs".toList, ∀ c ∈ row.1, Taken c ∧ c ≠ cacheName := by decide +kernel

theorem incremental_agrees_docs :
    Walker.Alike Same (apply (notesIndexer.mode false) (faultless linux docs) stagedDocs)
      (apply (notesIndexer.mode true) (faultless linux docs) stagedDocs) := by
  refine incremental_agrees left_docs (honest_refl _) (steady_faultless ?_)
  intro q n hn
  exact names_docs (q, n) (PathTree.Tree.node_eq_some.mp hn)

/-- The notes, one of which can no longer be opened. -/
def lockedDocs : Share linux where
  tree := docs
  fault access q := if access = .opening ∧ q = ["docs".toList, "a.md".toList] then some .acces else none
  spared h := absurd h Bool.false_ne_true

/-- **The copy of a note that can no longer be read** is pruned by a full run, and kept by an
incremental one. -/
theorem unreadable_kept :
    Left notesIndexer (faultless linux docs) stagedDocs ∧ Honest (faultless linux docs) lockedDocs ∧
      (∃ a, apply (notesIndexer.mode false) lockedDocs stagedDocs = .ok a ∧ a.pruned = ["docs/a.md".toList]) ∧
      (∃ b, apply (notesIndexer.mode true) lockedDocs stagedDocs = .ok b ∧ b.pruned = [] ∧
        b.staging.tree.entry ["docs".toList, "a.md".toList] = some (.file (.bytes []))) ∧
      ¬ Walker.Alike Same (apply (notesIndexer.mode false) lockedDocs stagedDocs)
        (apply (notesIndexer.mode true) lockedDocs stagedDocs) := by
  have hfull : ∃ a, apply (notesIndexer.mode false) lockedDocs stagedDocs = .ok a ∧ a.pruned = ["docs/a.md".toList] :=
    ⟨_, by rfl, by rfl⟩
  have hincremental : ∃ b, apply (notesIndexer.mode true) lockedDocs stagedDocs = .ok b ∧ b.pruned = [] ∧
      b.staging.tree.entry ["docs".toList, "a.md".toList] = some (.file (.bytes [])) := ⟨_, by rfl, by rfl, by rfl⟩
  refine ⟨left_docs, honest_refl (faultless linux docs), hfull, hincremental, ?_⟩
  intro halike
  obtain ⟨a, ha, hpruned⟩ := hfull
  obtain ⟨b, hb, hkept, -⟩ := hincremental
  rw [ha, hb] at halike
  cases halike with
  | ok hsame =>
      have heq := hsame.2.2
      rw [hpruned, hkept] at heq
      cases heq

end CyClaw.Fsconnect.Index

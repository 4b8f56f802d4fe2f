/-
`FsIndexer`: staging the eligible files of a share for the retrieval corpus.

`_walk` goes through the share and writes a manifest, a row for each file of an indexed
extension.  `scan` is that walk alone.  `apply` has it copy what it reads into a staging
directory, then removes the staged copies of files that are gone and keeps the rows for the
next run (the skip-cache): in incremental mode a file of the same size and modification time
is not read again as long as something stands at its place in the staging directory.

The staging directory holds directories and files, and nothing but this program writes there
during a run.  Everything it is asked for succeeds unless something else stands in the way.
-/
import CyClaw.Fsconnect.Walks
import CyClaw.Lib.FileTree

namespace CyClaw.Fsconnect.Index

open Posix DepthFirst
open PathTree (Path)
open Repo (Text splitComponents)

def cacheName : Text := ".fsindex_cache.json".toList

/-- `os.path.splitext` of a name without a slash. -/
def splitext (name : Text) : Text × Text :=
  let stem := name.take (name.length - (name.reverse.takeWhile (· ≠ '.')).length - 1)
  if '.' ∈ name ∧ stem.any (· ≠ '.') then (stem, name.drop stem.length) else (name, [])

/-! ### The manifest and the skip-cache -/

/-- What is told of a file that was read, and kept of it in the skip-cache. -/
structure Cached where
  size : ℕ
  mtime : ℕ
  sha256 : Text
  injectionFlagCount : ℕ
deriving DecidableEq

abbrev Cache := List (Text × Cached)

inductive Skip where
  | reservedName | tooLarge
  | readError (error : Text)
deriving DecidableEq

/-- A row of the manifest. -/
inductive Row where
  | skipped (path : Text) (size : ℕ) (why : Skip)
  | kept (path : Text) (file : Cached) (unchanged : Bool)
deriving DecidableEq

def Row.path : Row → Text
  | .skipped path _ _ => path
  | .kept path _ _ => path

/-- The row that goes into the skip-cache. -/
def Row.cached : Row → Option (Text × Cached)
  | .skipped _ _ _ => none
  | .kept path file _ => some (path, file)

/-- `{m["path"] for m in manifest if "skipped" not in m}`. -/
def current (manifest : List Row) : List Text := (manifest.filterMap Row.cached).map Prod.fst

/-! ### The staging directory -/

inductive Content where
  | bytes (data : Bytes)
  /-- The text of a skip-cache, by what it says. -/
  | cache (files : Cache)
deriving DecidableEq

structure Staging where
  tree : FileTree Text Content
  plain : ∀ q, tree.linkAt q = none

namespace Staging

/-- `Path.exists`. -/
def holds (t : Staging) (q : Path) : Bool := (t.tree.entry q).isSome

/-- Make the directories above a path and write a file there. -/
def write (t : Staging) (q : Path) (content : Content) : Option Staging :=
  match h : t.tree.write q content with
  | none => none
  | some tree => some ⟨tree, fun r => (FileTree.linkAt_write h r).trans (t.plain r)⟩

/-- `unlink`, of a file. -/
def erase (t : Staging) (q : Path) : Staging where
  tree := t.tree.erase q
  plain r := by
    have hplain := t.plain r
    unfold FileTree.linkAt at hplain ⊢
    rw [FileTree.entry_erase]
    by_cases h : r = q ∧ t.tree.isDir q = false
    · rw [if_pos h]
    · rw [if_neg h]
      exact hplain

end Staging

/-! ### The walk -/

/-- What ends a run. -/
inductive Halt where
  | raised (e : FsError)
  | recursion
  /-- Something stands in the way in the staging directory. -/
  | staging
deriving DecidableEq

/-- The indexer with the settings it reads, and what stays open: what the interpreter's tables
and the injection patterns say, how many calls of `_walk` its stack holds, and what is made of
a file at the skip-cache's place that is none of ours. -/
structure FsIndexer where
  indexExtensions : List Text
  indexMaxFileBytes : ℕ
  indexIncremental : Bool
  lower : Text → Text
  scanContent : Bytes → ℕ
  frames : ℕ
  loads : Bytes → Cache

/-- `type(exc).__name__`. -/
def errorName : FsError → Text
  | .path _ _ => "FsPathError".toList
  | .runtime _ _ => "FsConnectRuntimeError".toList
  | .permission _ _ => "FsMacOSPermissionError".toList
  | .connect _ => "FsConnectError".toList
  | .refused _ _ _ => "FsWriteRefused".toList
  | .os .noent => "FileNotFoundError".toList
  | .os .exist => "FileExistsError".toList
  | .os .notdir => "NotADirectoryError".toList
  | .os .isdir => "IsADirectoryError".toList
  | .os .acces => "PermissionError".toList
  | .os .perm => "PermissionError".toList
  | .os _ => "OSError".toList

/-- The manifest so far, and what the callbacks work on. -/
structure Work (T : Type) where
  manifest : List Row
  state : T

def Work.add {T : Type} (w : Work T) (row : Row) : Work T := { w with manifest := w.manifest ++ [row] }

/-- The callbacks of `_walk`. -/
structure Hooks (T : Type) where
  cachedEntryFor : Text → StatDict → T → Except Halt (Option Row)
  onFile : Text → Bytes → T → Except Halt T

section Walk

variable {p : Platform} {T : Type} (ix : FsIndexer) (s : Share p) (hooks : Hooks T)

/-- The extension is one that is indexed. -/
def FsIndexer.indexes (name : Text) : Bool := ix.lower (splitext name).2 ∈ ix.indexExtensions

/-- An entry is read, unless the skip-cache has it. -/
def FsIndexer.considers (child : Text) (entry : StatDict) : Bool :=
  entry.type = "file".toList ∧ ix.indexes entry.name ∧ child ≠ cacheName ∧ entry.size ≤ ix.indexMaxFileBytes

/-- A file is read and handed on. -/
def readFile (child : Text) (entry : StatDict) (w : Work T) : Except Halt (Work T) :=
  match s.readBytes child ix.indexMaxFileBytes with
  | .error e =>
      -- a failure to read concerns this file only, but for what macOS denies
      if e.isolated then .ok (w.add (.skipped child entry.size (.readError (errorName e)))) else .error (.raised e)
  | .ok data =>
      match hooks.onFile child data w.state with
      | .error x => .error x
      | .ok state =>
          .ok ⟨w.manifest ++ [.kept child ⟨entry.size, entry.mtime, p.sha256 data, ix.scanContent data⟩ false], state⟩

/-- The row of the skip-cache is reused, or the file is read. -/
def takeFile (child : Text) (entry : StatDict) (w : Work T) : Except Halt (Work T) :=
  match hooks.cachedEntryFor child entry w.state with
  | .error x => .error x
  | .ok (some hit) => .ok (w.add hit)
  | .ok none => readFile ix s hooks child entry w

/-- What `_walk` does with an entry of `rel`, before it goes down. -/
def look (rel : Text) (entry : StatDict) (w : Work T) : Except Halt (Work T) :=
  let child := childPath rel entry.name
  if entry.type ≠ "file".toList then .ok w
  else if ix.indexes entry.name = false then .ok w
  else if child = cacheName then .ok (w.add (.skipped child entry.size .reservedName))
  else if ix.indexMaxFileBytes < entry.size then .ok (w.add (.skipped child entry.size .tooLarge))
  else takeFile ix s hooks child entry w

/-- `_walk`. -/
def walker : Walker Text StatDict (Work T) Halt where
  list rel := (s.listDir rel).mapError .raised
  look := look ix s hooks
  enter rel entry := if entry.type = "dir".toList then some (childPath rel entry.name) else none
  deep := .recursion

def run (state : T) : Except Halt (Work T) := (walker ix s hooks).walk ix.frames [] ⟨[], state⟩

end Walk

/-! ### `scan` -/

variable {p : Platform}

structure ScanReport where
  eligible : ℕ
  files : List Row

def scanHooks : Hooks Unit where
  cachedEntryFor _ _ _ := .ok none
  onFile _ _ t := .ok t

def scan (ix : FsIndexer) (s : Share p) : Except Halt ScanReport :=
  (run ix s scanHooks ()).map fun w => ⟨(current w.manifest).length, w.manifest⟩

/-! ### `apply` -/

/-- `_load_cache`. -/
def loadCache (ix : FsIndexer) (t : Staging) : Cache :=
  match t.tree.fileAt [cacheName] with
  | none => []
  | some (.cache files) => files
  | some (.bytes data) => ix.loads data

def refusal (rel : Text) : Halt := .raised (.path (splitRefusal rel) .none)

/-- `_cache_probe`. -/
def cacheProbe (cache : Cache) (rel : Text) (entry : StatDict) (t : Staging) : Except Halt (Option Row) :=
  match cache.lookup rel with
  | none => .ok none
  | some prior =>
      if prior.size ≠ entry.size ∨ prior.mtime ≠ entry.mtime then .ok none
      else
        match splitComponents rel with
        | none => .error (refusal rel)
        | some q => .ok (if t.holds q then some (.kept rel prior true) else none)

/-- The staging directory, and what has been copied there. -/
structure Copies where
  staging : Staging
  copied : List Text

/-- `_stage`. -/
def stage (rel : Text) (data : Bytes) (c : Copies) : Except Halt Copies :=
  match splitComponents rel with
  | none => .error (refusal rel)
  | some q =>
      match c.staging.write q (.bytes data) with
      | none => .error .staging
      | some t => .ok ⟨t, c.copied ++ [rel]⟩

def applyHooks (incremental : Bool) (cache : Cache) : Hooks Copies where
  cachedEntryFor rel entry c := if incremental then cacheProbe cache rel entry c.staging else .ok none
  onFile := stage

/-- The loop of `_prune_staging` over the sorted paths of the skip-cache. -/
def pruneStaging (current : List Text) : List Text → Staging → Except Halt (Staging × List Text)
  | [], t => .ok (t, [])
  | rel :: rels, t =>
      if rel ∈ current then pruneStaging current rels t
      else
        match splitComponents rel with
        | none => .error (refusal rel)
        | some q =>
            if (t.tree.fileAt q).isSome then
              (pruneStaging current rels (t.erase q)).map fun done => (done.1, rel :: done.2)
            else pruneStaging current rels t

def tmpName : Text := cacheName ++ ".tmp".toList

/-- `_save_cache`.  A row takes the place of an earlier one of the same path. -/
def saveCache (manifest : List Row) (t : Staging) : Except Halt Staging :=
  let files := .cache (manifest.filterMap Row.cached).reverse
  match t.write [tmpName] files with
  | none => .error .staging
  | some t =>
      -- `os.replace` moves it into place
      match t.write [cacheName] files with
      | none => .error .staging
      | some t => .ok (t.erase [tmpName])

structure Applied where
  staging : Staging
  manifest : List Row
  copied : List Text
  pruned : List Text

def sortedPaths (cache : Cache) : List Text := (cache.map Prod.fst).insertionSort (· ≤ ·)

/-- What `apply` does after the walk. -/
def finish (cache : Cache) (w : Work Copies) : Except Halt Applied :=
  match pruneStaging (current w.manifest) (sortedPaths cache) w.state.staging with
  | .error x => .error x
  | .ok (t, pruned) =>
      match saveCache w.manifest t with
      | .error x => .error x
      | .ok t => .ok ⟨t, w.manifest, w.state.copied, pruned⟩

/-- `apply`, without the reindexing it may start in the end. -/
def apply (ix : FsIndexer) (s : Share p) (t : Staging) : Except Halt Applied :=
  let cache := loadCache ix t
  match run ix s (applyHooks ix.indexIncremental cache) ⟨t, []⟩ with
  | .error x => .error x
  | .ok w => finish cache w

/-! ### The staging directory under these operations -/

section Staging

variable {t t' : Staging} {q r : Path} {content : Content} {rel : Text}

theorem write_eq (h : t.write q content = some t') : t.tree.write q content = some t'.tree := by
  unfold Staging.write at h
  split at h
  · cases h
  · rename_i hwrite
    rw [hwrite, ← Option.some.inj h]

theorem Staging.ext_tree (h : t.tree = t'.tree) : t = t' := by
  cases t
  cases t'
  cases h
  rfl

theorem exists_write (content : Content) : (∃ t', t.write q content = some t') ↔ t.tree.Fits q := by
  rw [← FileTree.exists_write content]
  constructor
  · rintro ⟨t', h⟩
    exact ⟨t'.tree, write_eq h⟩
  · rintro ⟨tree, h⟩
    unfold Staging.write
    split
    · rename_i hnone
      rw [h] at hnone
      cases hnone
    · exact ⟨_, rfl⟩

/-- Writing what is there already changes nothing. -/
theorem write_same (h : t.tree.fileAt q = some content) : t.write q content = some t := by
  have hwrite := FileTree.write_of_fileAt h
  obtain ⟨t', ht'⟩ : ∃ t', t.write q content = some t' :=
    (exists_write content).mpr ((FileTree.exists_write content).mp ⟨t.tree, hwrite⟩)
  have htree := write_eq ht'
  rw [hwrite, Option.some.injEq] at htree
  rw [ht', Staging.ext_tree htree]

/-- Beside the root only a directory keeps a file from being written. -/
theorem fits_single {name : Text} : t.tree.Fits [name] ↔ t.tree.isDir [name] = false := by
  constructor
  · exact fun h => FileTree.isDir_of_writable h.1
  · intro h
    refine ⟨?_, ?_⟩
    · have hlink := t.plain [name]
      unfold FileTree.linkAt at hlink
      unfold FileTree.isDir at h
      unfold FileTree.writable
      cases hentry : t.tree.entry [name] with
      | none => rfl
      | some node => cases node <;> simp_all
    · intro r hr hne
      have hroot : r = [] := by
        rcases List.prefix_concat_iff.mp (List.nil_append [name] ▸ hr : r <+: [] ++ [name]) with h | h
        · exact absurd h hne
        · exact List.prefix_nil.mp h
      rw [hroot, FileTree.passable, t.tree.root]

/-- A row of the skip-cache is reused: size and time are those it tells, and something stands
at its place. -/
def Hit (cache : Cache) (t : Staging) (rel : Text) (entry : StatDict) (prior : Cached) : Prop :=
  cache.lookup rel = some prior ∧ prior.size = entry.size ∧ prior.mtime = entry.mtime ∧
    ∃ q, splitComponents rel = some q ∧ t.holds q = true

variable {cache : Cache} {entry : StatDict}

theorem mem_of_lookup {prior : Cached} (h : cache.lookup rel = some prior) : (rel, prior) ∈ cache := by
  obtain ⟨before, after, hcache, -⟩ := List.lookup_eq_some_iff.mp h
  rw [hcache]
  simp

theorem cacheProbe_some {row : Row} (h : cacheProbe cache rel entry t = .ok (some row)) :
    ∃ prior, Hit cache t rel entry prior ∧ row = .kept rel prior true := by
  unfold cacheProbe at h
  split at h
  · cases h
  · rename_i prior hprior
    split at h
    · cases h
    · rename_i hsame
      push Not at hsame
      split at h
      · cases h
      · rename_i q hq
        rw [Except.ok.injEq, Option.ite_none_right_eq_some, Option.some.injEq] at h
        exact ⟨prior, ⟨hprior, hsame.1, hsame.2, q, hq, h.1⟩, h.2.symm⟩

theorem cacheProbe_none {prior : Cached} (h : cacheProbe cache rel entry t = .ok none) :
    ¬ Hit cache t rel entry prior := by
  rintro ⟨hprior, hsize, hmtime, q, hq, hholds⟩
  simp [cacheProbe, hprior, hsize, hmtime, hq, hholds] at h

/-- Probing fails only for a path that the splitter refuses. -/
theorem exists_cacheProbe (h : ∀ prior, cache.lookup rel = some prior → ∃ q, splitComponents rel = some q) :
    ∃ o, cacheProbe cache rel entry t = .ok o := by
  unfold cacheProbe
  split
  · exact ⟨_, rfl⟩
  · rename_i prior hprior
    obtain ⟨q, hq⟩ := h prior hprior
    split
    · exact ⟨_, rfl⟩
    · rw [hq]
      exact ⟨_, rfl⟩

theorem stage_ok {data : Bytes} {c c' : Copies} (h : stage rel data c = .ok c') :
    ∃ q t', splitComponents rel = some q ∧ c.staging.write q (.bytes data) = some t' ∧
      c' = ⟨t', c.copied ++ [rel]⟩ := by
  unfold stage at h
  split at h
  · cases h
  · rename_i q hq
    split at h
    · cases h
    · rename_i t' ht'
      exact ⟨q, t', hq, ht', (Except.ok.inj h).symm⟩

/-! ### Pruning and saving -/

variable {current rels : List Text}

theorem pruneStaging_ok (h : ∀ rel ∈ rels, ∃ q, splitComponents rel = some q) (current : List Text) (t : Staging) :
    ∃ t' pruned, pruneStaging current rels t = .ok (t', pruned) := by
  induction rels generalizing t with
  | nil => exact ⟨t, [], rfl⟩
  | cons rel rels ih =>
      have hrest := ih fun rel hrel => h rel (List.mem_cons_of_mem _ hrel)
      obtain ⟨q, hq⟩ := h rel List.mem_cons_self
      unfold pruneStaging
      split
      · exact hrest t
      · rw [hq]
        dsimp only
        split
        · obtain ⟨t', pruned, hdone⟩ := hrest (t.erase q)
          rw [hdone]
          exact ⟨_, _, rfl⟩
        · exact hrest t

/-- What the loop over the old paths keeps, when each file it removes is one of them that is
no longer current. -/
theorem pruneStaging_invariant {I : Staging → Prop} {t' : Staging} {pruned : List Text}
    (hstep : ∀ rel ∈ rels, rel ∉ current → ∀ q t, splitComponents rel = some q → I t → I (t.erase q)) (ht : I t)
    (h : pruneStaging current rels t = .ok (t', pruned)) :
    I t' ∧ ∀ rel ∈ rels, rel ∉ current → ∃ q, splitComponents rel = some q := by
  induction rels generalizing t t' pruned with
  | nil =>
      rw [pruneStaging, Except.ok.injEq, Prod.mk.injEq] at h
      exact ⟨h.1 ▸ ht, fun rel hrel => absurd hrel List.not_mem_nil⟩
  | cons rel rels ih =>
      have hrest := fun {t} => @ih t
      have hbelow : ∀ rel ∈ rels, rel ∉ current → ∀ q t, splitComponents rel = some q → I t → I (t.erase q) :=
        fun rel hrel => hstep rel (List.mem_cons_of_mem _ hrel)
      have hall : (∀ rel ∈ rels, rel ∉ current → ∃ q, splitComponents rel = some q) →
          (rel ∉ current → ∃ q, splitComponents rel = some q) →
          ∀ rel' ∈ rel :: rels, rel' ∉ current → ∃ q, splitComponents rel' = some q := by
        intro hothers hself rel' hrel'
        rcases List.mem_cons.mp hrel' with rfl | hrel'
        · exact hself
        · exact hothers rel' hrel'
      unfold pruneStaging at h
      split at h
      · rename_i hcurrent
        obtain ⟨hI, hothers⟩ := ih hbelow ht h
        exact ⟨hI, hall hothers fun hnot => absurd hcurrent hnot⟩
      · rename_i hgone
        split at h
        · cases h
        · rename_i q hq
          split at h
          · cases hdone : pruneStaging current rels (t.erase q) with
            | error x =>
                rw [hdone] at h
                cases h
            | ok done =>
                rw [hdone] at h
                simp only [Except.map, Except.ok.injEq, Prod.mk.injEq] at h
                obtain ⟨hI, hothers⟩ := ih hbelow (hstep rel List.mem_cons_self hgone q t hq ht) hdone
                exact ⟨h.1 ▸ hI, hall hothers fun _ => ⟨q, hq⟩⟩
          · obtain ⟨hI, hothers⟩ := ih hbelow ht h
            exact ⟨hI, hall hothers fun _ => ⟨q, hq⟩⟩

/-- The skip-cache can be saved unless a directory stands at its place or beside it. -/
theorem exists_saveCache (manifest : List Row) :
    (∃ t', saveCache manifest t = .ok t') ↔ t.tree.isDir [tmpName] = false ∧ t.tree.isDir [cacheName] = false := by
  have hkeeps : ∀ {t₁ : Staging} {content}, t.write [tmpName] content = some t₁ →
      t₁.tree.isDir [cacheName] = t.tree.isDir [cacheName] := by
    intro t₁ content hwrite
    have hentry := (FileTree.entry_of_write (write_eq hwrite)).1
    unfold FileTree.isDir
    rw [hentry, FileTree.written, if_neg (by decide), if_neg (by decide)]
  rw [← fits_single, ← exists_write (.cache (manifest.filterMap Row.cached).reverse)]
  unfold saveCache
  dsimp only
  cases hfirst : t.write [tmpName] (.cache (manifest.filterMap Row.cached).reverse) with
  | none => simp
  | some t₁ =>
      rw [← hkeeps hfirst, ← fits_single, ← exists_write (.cache (manifest.filterMap Row.cached).reverse)]
      dsimp only
      cases t₁.write [cacheName] (.cache (manifest.filterMap Row.cached).reverse) with
      | none => simp
      | some t₂ => simp

end Staging

end CyClaw.Fsconnect.Index

/-
The human's decision, `finalize_real_repo_change`.

An approve rebuilds the manifest of the recorded files and compares its digest, checks the
recorded names against the protected paths, and then leaves it to git: a new branch, the
recorded paths staged, the index committed.  Git is modelled by what it records.  A snapshot
says which blob stands at which path; `git add` puts the named paths into the index, and
`git commit` makes the whole index the next snapshot.

The recorded names go through three readings on the way.  The manifest hashes the file a name
leads to, the gate looks at the name, and `add` stages the location the name leads to.
-/
import CyClaw.Lib.JsonText
import CyClaw.Repo.Workspace
import Mathlib.Data.List.Dedup
import Mathlib.Data.Char
import Mathlib.Data.List.Lex
import Mathlib.Data.List.Sort

namespace CyClaw.Repo

open PyText

/-! ### Git -/

/-- What git records at a path. -/
inductive Blob where
  | file (content : Bytes)
  | link (target : List (Hop Text))
deriving DecidableEq

abbrev Snapshot := List (Path × Blob)

structure Git where
  branches : List Text
  branch : Text
  headId : Text
  head : Snapshot
  index : Snapshot
  /-- What the ignore files leave out, as long as it is not tracked. -/
  ignored : Path → Bool

structure Clone where
  tree : Tree
  git : Git

/-- What stands in the worktree at a path, as git would record it. -/
def blobAt (t : Tree) (location : Path) : Option Blob :=
  match t.entry location with
  | some (.file content) => some (.file content)
  | some (.link target) => some (.link target)
  | _ => none

/-- Whether git leaves a path alone: it runs through a `.git` directory, or the ignore files
leave it out and it is not tracked. -/
def Git.leavesOut (git : Git) (location : Path) : Bool :=
  ".git".toList ∈ location || (git.index.lookup location).isNone && git.ignored location

/-- `git add`: the named paths, as they stand in the worktree. -/
def stage (t : Tree) (locations : List Path) (index : Snapshot) : Snapshot :=
  (locations.filterMap fun q => (blobAt t q).map (q, ·)) ++ index

/-- How the programs that are called come out: the disposable copy, the three git commands,
and the identifier of the new commit. -/
structure GitRun where
  copyOk : Bool
  checkoutOk : Bool
  addOk : Bool
  commitOk : Bool
  newId : Text

/-! ### The manifest -/

/-- `hashlib.sha256(…).hexdigest()`, taken to be free of collisions. -/
structure Sha256 where
  hexdigest : Bytes → Text
  collisionFree : Function.Injective hexdigest

@[ext]
structure Payload where
  baseHead : Text
  files : List (Text × Text)
  runId : Text
deriving DecidableEq

def fileJson (f : Text × Text) : Text :=
  "\x7b\"path\":".toList ++ JsonText.quoted f.1 ++ ",\"sha256\":".toList ++ JsonText.quoted f.2 ++ "\x7d".toList

/-- `json.dumps(payload, sort_keys=True, separators=(",", ":"))`. -/
def canonicalJson (p : Payload) : Text :=
  "\x7b\"base_head\":".toList ++ JsonText.quoted p.baseHead ++ ",\"files\":[".toList ++
    [','].intercalate (p.files.map fileJson) ++ "],\"run_id\":".toList ++ JsonText.quoted p.runId ++ "\x7d".toList

/-- `_jail` and the digest of one recorded file, `none` where it raises. -/
def manifestFile (tools : Tools) (sha : Sha256) (t : Tree) (rel : Text) : Option (Text × Text) :=
  if rel = [] ∨ ['/'].isPrefixOf rel ∨ ['.', '.'] ∈ parts rel then none
  else
    match t.resolve tools.linkLimit (parts rel) with
    | .error _ => none
    | .ok target => (t.fileAt target).map fun content => (rel, sha.hexdigest content)

def manifestFiles (tools : Tools) (sha : Sha256) (t : Tree) : List Text → Option (List (Text × Text))
  | [] => some []
  | rel :: rels =>
      match manifestFile tools sha t rel, manifestFiles tools sha t rels with
      | some f, some fs => some (f :: fs)
      | _, _ => none

/-- `build_manifest`: the payload and its digest. -/
def buildManifest (tools : Tools) (sha : Sha256) (t : Tree) (paths : List Text) (runId baseHead : Text) :
    Option (Payload × Text) :=
  let rels := ((paths.map slashes).dedup).mergeSort (· ≤ ·)
  match manifestFiles tools sha t rels with
  | none => none
  | some files =>
      let payload : Payload := ⟨baseHead, files, runId⟩
      some (payload, sha.hexdigest (encode (canonicalJson payload)))

/-! ### The decision -/

inductive HumanDecision where
  | approve
  | reject
deriving DecidableEq

/-- The persisted record of a run.  A digest or a base head that is missing is empty. -/
structure Record where
  branchName : Text
  commitMessage : Text
  changedFiles : List Text
  acceptanceDigest : Text
  acceptanceBaseHead : Text
  runId : Text

/-- `verify_manifest`. -/
def verifyManifest (tools : Tools) (sha : Sha256) (c : Clone) (rec : Record) : Bool :=
  rec.acceptanceDigest.length = 64 && 7 ≤ c.git.headId.length && c.git.headId = rec.acceptanceBaseHead &&
    (buildManifest tools sha c.tree rec.changedFiles rec.runId rec.acceptanceBaseHead).any fun m =>
      m.2 = rec.acceptanceDigest

/-- `TEMPLATE_BRANCH_PREFIXES`, without the preferred one. -/
def templateBranchPrefixes : List Text :=
  ["claude", "codex", "grok", "kimi", "CyClaw", "cyclaw", "agent"].map String.toList

def topicChar (c : Char) : Bool := c.isAlphanum || c = '.' || c = '_' || c = '/' || c = '-'

/-- `_TOPIC`, up to the line break that `$` lets pass. -/
def isTopic (t : Text) : Bool :=
  match if ['\n'].isSuffixOf t then t.dropLast else t with
  | c :: cs => c.isAlphanum && cs.length ≤ 79 && cs.all topicChar
  | [] => false

/-- `BRANCH_NAME_RE.match`. -/
def branchNameRe (preferred name : Text) : Bool :=
  (preferred :: templateBranchPrefixes).any fun p =>
    (p ++ ['/']).isPrefixOf name && isTopic (name.drop (p.length + 1))

/-- Where an approve stops. -/
inductive FinalizeError where
  | manifest
  | disposableCopy
  | protectedPaths (paths : List Text)
  | checkoutBranch
  | add (failure : Failure)
  | gitAdd
  | commitMessage
  | gitCommit

inductive Finalized where
  | approved
  | rejected
deriving DecidableEq

/-- The paths of `add`, each where it leads. -/
def validateAll (tools : Tools) (t : Tree) : List Text → Except Failure (List Path)
  | [] => .ok []
  | path :: paths =>
      match validateWritePath tools t path true with
      | .error e => .error e
      | .ok q =>
          match validateAll tools t paths with
          | .error e => .error e
          | .ok qs => .ok (q :: qs)

/-- `checkout_branch`, `add` and `commit`, one after the other, and what each leaves behind. -/
def commitChange (tools : Tools) (preferred : Text) (run : GitRun) (rec : Record) (c : Clone) :
    Except FinalizeError Finalized × Clone :=
  if tools.allowGitWriteTools = false ∨ branchNameRe preferred rec.branchName = false ∨ run.checkoutOk = false ∨
      rec.branchName ∈ c.git.branches then (.error .checkoutBranch, c)
  else
    let branched : Clone :=
      { c with git := { c.git with branches := rec.branchName :: c.git.branches, branch := rec.branchName } }
    if rec.changedFiles = [] then (.error (.add (.denied .nothingToAdd)), branched)
    else
      match validateAll tools c.tree rec.changedFiles with
      | .error e => (.error (.add e), branched)
      | .ok locations =>
          if run.addOk = false ∨ locations.any c.git.leavesOut = true then (.error .gitAdd, branched)
          else
            let index := stage c.tree locations c.git.index
            let added : Clone := { branched with git := { branched.git with index } }
            if strip rec.commitMessage = [] then (.error .commitMessage, added)
            else if run.commitOk = false then (.error .gitCommit, added)
            else (.ok .approved, { added with git := { added.git with headId := run.newId, head := index } })

/-- `finalize_real_repo_change`.  The disposable copy holds the same files, so its manifest
is the same one. -/
def finalizeRealRepoChange (tools : Tools) (sha : Sha256) (preferred : Text) (run : GitRun) (rec : Record)
    (decision : HumanDecision) (protectedWritePaths : List Text) (c : Clone) :
    Except FinalizeError Finalized × Clone :=
  match decision with
  | .reject => (.ok .rejected, c)
  | .approve =>
      if verifyManifest tools sha c rec = false then (.error .manifest, c)
      else if run.copyOk = false then (.error .disposableCopy, c)
      else
        match rec.changedFiles.filter (matchesProtectedPath tools.unicode · protectedWritePaths) with
        | [] => commitChange tools preferred run rec c
        | paths => (.error (.protectedPaths paths), c)

end CyClaw.Repo

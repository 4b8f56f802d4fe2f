/-
The proposer's workspace tools, `ProposerWorkspaceTools`.

Every tool works on the whole file system, because a link in the workspace may lead
anywhere.  Reads resolve the target first and go on with what it resolves to.  Writes check
where the target resolves, or the nearest ancestor that exists, and then go by the target as
it was spelled: the directories above it are made, a temporary file beside it is written,
and that is renamed to it.  A call comes back with what it returns, the tree it leaves and
the real places of the files it created or replaced.
-/
import CyClaw.Lib.PathLookup
import CyClaw.Repo.Workspace

namespace CyClaw.Harness

open PyText
open CyClaw.Repo (Text Path Bytes Tree parts slashes trails windowsAbsolute)

/-! ### The workspace -/

/-- The workspace of one candidate with the settings of its tools.  `root` is resolved when
the workspace is built.  `listing` is what a directory's entries are called, in order. -/
structure ProposerWorkspaceTools where
  root : Path
  ragSearch : Option (Text → List Text)
  maxReadBytes : ℕ := 256000
  pid : Text
  linkLimit : ℕ
  listing : Path → List Text
  /-- `json.loads` takes the text and gives a `dict`. -/
  isObject : Text → Bool

variable (tools : ProposerWorkspaceTools) (t : Tree)

namespace ProposerWorkspaceTools

def currentDir : Path := tools.root ++ ["current".toList]
def holdoutHiddenDir : Path := tools.root ++ ["holdout_hidden".toList]
def proposalPath : Path := tools.root ++ ["proposal.md".toList]
def manifestPath : Path := tools.root ++ ["surface_manifest.json".toList]

end ProposerWorkspaceTools

/-! ### Refusals -/

inductive Denial where
  | nul | notRelative | dotdot | colon | trailing
  | holdout | readEscaped | readInaccessible
  | writeEscaped | writeDirectory | writeInaccessible
  | tooLarge | notDirectory | notFile | malformedManifest | emptyQuery | emptyProposal
deriving DecidableEq

/-- How a call fails: with an `AgenticError`, or with an error of the interpreter. -/
inductive Fault where
  | denied (why : Denial)
  | raised
deriving DecidableEq

/-! ### Targets -/

/-- `PureWindowsPath(target).is_absolute()` of a target that starts with two separators: the
drive is a share, and the path has a root once it names one. -/
def shareAbsolute (target : Text) : Bool :=
  match slashes target with
  | '/' :: '/' :: rest =>
      let device := (rest.take 6).map Char.toUpper = "?/UNC/".toList
      match (if device then rest.drop 6 else rest).splitOn '/' with
      | [_] => false
      | [server, share] => share ≠ [] && (device || server ∉ [[], ['?'], ['.'], ['?', '.']])
      | _ => true
  | _ => false

/-- The target is spelled from a root. -/
def absolute (target : Text) : Bool :=
  ['\\', '\\'].isPrefixOf target || ['/'].isPrefixOf target || windowsAbsolute target ||
    shareAbsolute target

/-- What is wrong with a component. -/
def partFault (part : Text) : Option Denial :=
  if part = ['.', '.'] then some .dotdot
  else if ':' ∈ part then some .colon
  else if trails part then some .trailing
  else none

/-- `_parts`. -/
def partsOf (target : Text) : Except Denial Path :=
  if '\x00' ∈ target then .error .nul
  else if absolute target then .error .notRelative
  else
    match (parts target).findSome? partFault with
    | some why => .error why
    | none => .ok (parts target)

/-! ### Reading -/

/-- `path.is_file()`. -/
def isFile (p : Path) : Bool :=
  match t.lookup tools.linkLimit p with
  | .ok q => (t.fileAt q).isSome
  | .error _ => false

/-- `path.is_dir()`. -/
def isDirectory (p : Path) : Bool :=
  match t.lookup tools.linkLimit p with
  | .ok q => t.isDir q
  | .error _ => false

/-- `_resolve_existing_read`.  A loop of links is a `RuntimeError`, which is not caught. -/
def resolveExistingRead (target : Text) : Except Fault Path :=
  match partsOf target with
  | .error why => .error (.denied why)
  | .ok ps =>
      if ps.head? = some "holdout_hidden".toList then .error (.denied .holdout)
      else
        match t.realpathStrict tools.linkLimit (tools.root ++ ps) with
        | .error .loop => .error .raised
        | .error _ => .error (.denied .readInaccessible)
        | .ok resolved =>
            match t.realpath tools.linkLimit tools.root,
              t.realpath tools.linkLimit tools.holdoutHiddenDir with
            | .ok root, holdout =>
                if root.isPrefixOf resolved = false then .error (.denied .readEscaped)
                else
                  match holdout with
                  | .ok holdout =>
                      if holdout.isPrefixOf resolved then .error (.denied .holdout) else .ok resolved
                  | .error _ => .error .raised
            | .error _, _ => .error .raised

/-- The universal newlines of a text file. -/
def universalNewlines : Text → Text
  | [] => []
  | '\r' :: '\n' :: rest => '\n' :: universalNewlines rest
  | '\r' :: rest => '\n' :: universalNewlines rest
  | c :: rest => c :: universalNewlines rest

/-- `_read_text`: the place the bytes come from, and the text. -/
def readText (p : Path) : Except Fault (Path × Text) :=
  match t.lookup tools.linkLimit p with
  | .error _ => .error .raised
  | .ok q =>
      match t.fileAt q with
      | none => .error .raised
      | some bytes =>
          if bytes.length > tools.maxReadBytes then .error (.denied .tooLarge)
          else
            match decode bytes with
            | none => .error .raised
            | some text => .ok (q, universalNewlines text)

/-- An entry of a listing.  The size of a directory is its file system's. -/
structure Entry where
  name : Text
  isDir : Bool
  size : Option ℕ

/-- One entry of `list_workspace`. -/
def entryOf (dir : Path) (name : Text) : Except Fault Entry :=
  match t.lookup tools.linkLimit (dir ++ [name]) with
  | .error _ => .error .raised
  | .ok q =>
      match t.entry q with
      | some .dir => .ok ⟨name, true, none⟩
      | some (.file bytes) => .ok ⟨name, false, some bytes.length⟩
      | _ => .error .raised

/-- The names of a directory, none where there is no directory. -/
def names (dir : Path) : List Text :=
  match t.lookup tools.linkLimit dir with
  | .ok q => if t.isDir q then tools.listing q else []
  | .error _ => []

/-- `read_file`. -/
def readFile (target : Text) : Except Fault (Path × Text) :=
  match resolveExistingRead tools t target with
  | .error e => .error e
  | .ok path =>
      if isFile tools t path then readText tools t path else .error (.denied .notFile)

/-- The files of a flat directory of the workspace, by `read_file`. -/
def readFlat (dir : Text) : Except Fault (List (Text × Path × Text)) :=
  ((names tools t (tools.root ++ [dir])).filter fun name =>
    isFile tools t (tools.root ++ [dir, name])).mapM fun name =>
      (readFile tools t (dir ++ '/' :: name)).map fun r => (name, r)

/-! ### Writing -/

/-- `_contains_write_target`: the nearest ancestor that exists, and whether `current/` holds
it.  The list is the path from its end. -/
def nearestAncestor : List Text → Except Fault Path
  | [] => .ok []
  | name :: above =>
      match t.realpathStrict tools.linkLimit (name :: above).reverse with
      | .ok q => .ok q
      | .error .notFound => nearestAncestor above
      | .error .notDirectory => .error (.denied .writeInaccessible)
      | .error .loop => .error .raised

/-- `_resolve_current_write`. -/
def resolveCurrentWrite (target : Text) : Except Fault Path :=
  match partsOf target with
  | .error why => .error (.denied why)
  | .ok ps =>
      match t.realpath tools.linkLimit tools.currentDir with
      | .error _ => .error .raised
      | .ok current =>
          match nearestAncestor tools t (tools.currentDir ++ ps).reverse with
          | .error e => .error e
          | .ok ancestor =>
              if current.isPrefixOf ancestor = false then .error (.denied .writeEscaped)
              else if isDirectory tools t (tools.currentDir ++ ps) then .error (.denied .writeDirectory)
              else .ok (tools.currentDir ++ ps)

inductive MkdirError where
  | notFound
  | other

/-- `os.mkdir` of a name in a directory. -/
def osMkdir (t : Tree) (dir : Path) (name : Text) : Except MkdirError Tree :=
  match t.lookup tools.linkLimit dir with
  | .error .notFound => .error .notFound
  | .error _ => .error .other
  | .ok d =>
      match t.entry d, t.entry (d ++ [name]) with
      | none, _ => .error .notFound
      | some .dir, none =>
          match t.edit (d ++ [name]) (some .dir) with
          | some t' => .ok t'
          | none => .error .other
      | some _, _ => .error .other

/-- `path.mkdir(parents=True, exist_ok=True)`, the path from its end. -/
def mkdirParents (t : Tree) : List Text → Except Fault Tree
  | [] => .ok t
  | name :: above =>
      match osMkdir tools t above.reverse name with
      | .ok t' => .ok t'
      | .error .other =>
          if isDirectory tools t (name :: above).reverse then .ok t else .error .raised
      | .error .notFound =>
          match mkdirParents t above with
          | .error e => .error e
          | .ok t' =>
              match osMkdir tools t' above.reverse name with
              | .ok t'' => .ok t''
              | .error .other =>
                  if isDirectory tools t' (name :: above).reverse then .ok t' else .error .raised
              | .error .notFound => .error .raised

/-- The name of the temporary file beside a path. -/
def tmpName (name : Text) : Text := '.' :: name ++ '.' :: tools.pid ++ ".cyclaw-tmp".toList

/-- A call's result, the tree it leaves and the files it created or replaced. -/
structure Done (α : Type) where
  result : Except Fault α
  tree : Tree
  touched : List Path := []

/-- `tmp.write_text(content)`: the tree with the file written, and where that is. -/
def writeText (t : Tree) (p : Path) (content : Text) : Option (Tree × Path) :=
  match t.lookup tools.linkLimit p with
  | .error _ => none
  | .ok q => (t.edit q (some (.file (encode content)))).map fun t' => (t', q)

/-- `os.replace` of a file in a directory by another name there. -/
def osReplace (t : Tree) (dir : Path) (src dst : Text) : Option (Tree × Path) :=
  match t.lookup tools.linkLimit dir with
  | .error _ => none
  | .ok d =>
      match t.entry (d ++ [src]) with
      | none => none
      | some node =>
          match t.edit (d ++ [src]) none with
          | none => none
          | some t' => (t'.edit (d ++ [dst]) (some node)).map fun t'' => (t'', d ++ [dst])

/-- `_atomic_write` of a name in a directory. -/
def atomicWrite (t : Tree) (dir : Path) (name content : Text) : Done Unit :=
  match mkdirParents tools t dir.reverse with
  | .error e => { result := .error e, tree := t }
  | .ok t₁ =>
      match writeText tools t₁ (dir ++ [tmpName tools name]) content with
      | none => { result := .error .raised, tree := t₁ }
      | some (t₂, tmp) =>
          match osReplace tools t₂ dir (tmpName tools name) name with
          | none => { result := .error .raised, tree := t₂, touched := [tmp] }
          | some (t₃, dst) => { result := .ok (), tree := t₃, touched := [tmp, dst] }

/-! ### The calls -/

inductive Call where
  | listWorkspace (target : Text)
  | readFile (target : Text)
  | writeCurrentFile (target content : Text)
  | readSurfaceManifest
  | readTrainFailures
  | readVisibleHistory
  | ragSearchReadonly (query : Text)
  | finishProposal (content : Text)

/-- What a call returns, with the places of the files it read. -/
inductive Value where
  | entries (es : List Entry)
  | text (source : Path) (content : Text)
  | texts (files : List (Text × Path × Text))
  | written (bytes : ℕ)
  | results (hits : List Text)

def Value.sources : Value → List Path
  | .entries _ => []
  | .text source _ => [source]
  | .texts files => files.map fun f => f.2.1
  | .written _ => []
  | .results _ => []

/-- `list_workspace`. -/
def listWorkspace (target : Text) : Except Fault (List Entry) :=
  match if target = [] then .ok tools.root else resolveExistingRead tools t target with
  | .error e => .error e
  | .ok path =>
      match t.lookup tools.linkLimit path with
      | .error _ => .error (.denied .notDirectory)
      | .ok dir =>
          if t.isDir dir then
            ((tools.listing dir).filter (· ≠ "holdout_hidden".toList)).mapM (entryOf tools t dir)
          else .error (.denied .notDirectory)

/-- `write_current_file`. -/
def writeCurrentFile (target content : Text) : Done Value :=
  match resolveCurrentWrite tools t target with
  | .error e => { result := .error e, tree := t }
  | .ok path =>
      match path.getLast? with
      | none => { result := .error .raised, tree := t }
      | some name =>
          let done := atomicWrite tools t path.dropLast name content
          { done with result := done.result.map fun _ => .written (encode content).length }

/-- `read_surface_manifest`. -/
def readSurfaceManifest : Except Fault Value :=
  match readText tools t tools.manifestPath with
  | .error e => .error e
  | .ok (source, text) =>
      if tools.isObject text then .ok (.text source text) else .error (.denied .malformedManifest)

/-- `rag_search_readonly`. -/
def ragSearchReadonly (query : Text) : Except Fault Value :=
  if strip query = [] then .error (.denied .emptyQuery)
  else .ok (.results (tools.ragSearch.elim [] fun search => search query))

/-- `finish_proposal`. -/
def finishProposal (content : Text) : Done Value :=
  if strip content = [] then { result := .error (.denied .emptyProposal), tree := t }
  else
    let done := atomicWrite tools t tools.root "proposal.md".toList content
    { done with result := done.result.map fun _ => .written (encode content).length }

/-- A call of a tool. -/
def run : Call → Done Value
  | .listWorkspace target =>
      { result := (listWorkspace tools t target).map .entries, tree := t }
  | .readFile target =>
      { result := (readFile tools t target).map fun r => .text r.1 r.2, tree := t }
  | .writeCurrentFile target content => writeCurrentFile tools t target content
  | .readSurfaceManifest => { result := readSurfaceManifest tools t, tree := t }
  | .readTrainFailures =>
      { result := (readFlat tools t "train_visible".toList).map .texts, tree := t }
  | .readVisibleHistory =>
      { result := (readFlat tools t "history".toList).map .texts, tree := t }
  | .ragSearchReadonly query => { result := ragSearchReadonly tools query, tree := t }
  | .finishProposal content => finishProposal tools t content

end CyClaw.Harness

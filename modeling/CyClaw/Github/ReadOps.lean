/-
`agentic/gh_client.py`: what is read of GitHub, through `gh`.

An operation becomes an argument list, which is run until it ends well, ends badly in a way that
does not pass, or the attempts are used up.  Whatever size of a list is asked for, `gh` is asked for
at most `maxListLimit` rows.

What `gh` prints, and whether it is there at all, is left open; so are the texts of errors that pass.
-/
import CyClaw.Lib.PyValue
import Mathlib.Data.Nat.Digits.Defs

namespace CyClaw.Github

abbrev Text := List Char

/-- `_READ_OPS`. -/
inductive ReadOp where
  | prView
  | prList
  | prDiff
  | issueView
  | issueList
  | repoView
  | repoClone
deriving DecidableEq

inductive ReadError where
  | ghNotInstalled
  | ghVersion
  | invalidRepo (repo : Text)
  | needsNumber (op : ReadOp)
  | needsDest
  | notAllowed (op : ReadOp) (allowed : List ReadOp)
  | timedOut (op : ReadOp) (repo : Text)
  | failed (op : ReadOp) (repo : Text) (exitCode : ℤ) (stderr : Text)
  | nonJson (op : ReadOp) (repo output : Text)
deriving DecidableEq

def prFields : Text :=
  ("number,title,state,author,headRefName,baseRefName,isDraft,url,body," ++
    "labels,assignees,createdAt,updatedAt,mergeable,reviewDecision," ++ "additions,deletions,changedFiles").toList

def prListFields : Text := "number,title,state,author,isDraft,url,labels,createdAt,updatedAt".toList

def issueFields : Text :=
  ("number,title,state,author,labels,url,body,assignees,milestone," ++ "createdAt,updatedAt,comments").toList

def issueListFields : Text := "number,title,state,author,url,labels,createdAt,updatedAt".toList

def repoFields : Text :=
  ("name,owner,description,defaultBranchRef,isPrivate,url," ++
    "isArchived,pushedAt,primaryLanguage,repositoryTopics,stargazerCount,licenseInfo").toList

def maxListLimit : ℕ := 1000

def maxDiffChars : ℕ := 200000

def cloneDepth : ℕ := 1

def slugChar (c : Char) : Bool := c.isAlphanum || c = '_' || c = '.' || c = '-'

def isSegment : Text → Bool
  | [] => false
  | c :: cs => c.isAlphanum && cs.all slugChar

/-- `_REPO_RE`; its `$` lets a newline at the end pass. -/
def isSlug (repo : Text) : Bool :=
  match repo.splitOn '/' with
  | [owner, name] => isSegment owner && (isSegment name || name.getLast? = some '\n' && isSegment name.dropLast)
  | _ => false

def decimal : ℤ → Text
  | .ofNat n => Nat.toDigits 10 n
  | .negSucc n => '-' :: Nat.toDigits 10 (n + 1)

def safeLimit (limit : ℕ) : ℕ := min limit maxListLimit

/-- `build_read_argv`. -/
def buildReadArgv (op : ReadOp) (repo : Text) (number : Option ℤ) (limit : ℕ) (ghBin : Text) (dest : Option Text) :
    Except ReadError (List Text) :=
  if isSlug repo = false then .error (.invalidRepo repo)
  else
    match op, number, dest with
    | .prView, none, _ => .error (.needsNumber .prView)
    | .prDiff, none, _ => .error (.needsNumber .prDiff)
    | .issueView, none, _ => .error (.needsNumber .issueView)
    | .prView, some num, _ =>
        .ok [ghBin, "pr".toList, "view".toList, decimal num, "--repo".toList, repo, "--json".toList, prFields]
    | .prDiff, some num, _ => .ok [ghBin, "pr".toList, "diff".toList, decimal num, "--repo".toList, repo]
    | .prList, _, _ =>
        .ok [ghBin, "pr".toList, "list".toList, "--repo".toList, repo, "--json".toList, prListFields,
          "--limit".toList, decimal (safeLimit limit)]
    | .issueView, some num, _ =>
        .ok [ghBin, "issue".toList, "view".toList, decimal num, "--repo".toList, repo, "--json".toList, issueFields]
    | .issueList, _, _ =>
        .ok [ghBin, "issue".toList, "list".toList, "--repo".toList, repo, "--json".toList, issueListFields,
          "--limit".toList, decimal (safeLimit limit)]
    | .repoClone, _, some (c :: cs) =>
        .ok [ghBin, "repo".toList, "clone".toList, repo, c :: cs, "--".toList, "--depth".toList, decimal cloneDepth]
    | .repoClone, _, _ => .error .needsDest
    | .repoView, _, _ => .ok [ghBin, "repo".toList, "view".toList, repo, "--json".toList, repoFields]

/-- How one run of `gh` ends. -/
inductive Ran where
  | timeout
  | exit (code : ℤ) (stdout stderr : Text)
deriving DecidableEq

structure Gh where
  /-- The exception of `check_gh_version`, if it raises one. -/
  versionRaises : Option ReadError
  /-- `shutil.which(gh_bin)`. -/
  which : Option Text
  /-- The attempt of an argument list. -/
  run : List Text → ℕ → Ran
  /-- `_is_transient_gh_error`. -/
  isTransient : Text → Bool
  /-- `json.loads`, `none` where the text is no JSON. -/
  loads : Text → Option PyValue

/-- The runs of an argument list, `left` of them after this one. -/
def attempts (gh : Gh) (op : ReadOp) (repo : Text) (argv : List Text) : ℕ → ℕ → Except ReadError (ℤ × Text × Text)
  | attempt, 0 =>
      match gh.run argv attempt with
      | .timeout => .error (.timedOut op repo)
      | .exit code stdout stderr => .ok (code, stdout, stderr)
  | attempt, left + 1 =>
      match gh.run argv attempt with
      | .timeout => attempts gh op repo argv (attempt + 1) left
      | .exit code stdout stderr =>
          if code ≠ 0 ∧ gh.isTransient stderr = true then attempts gh op repo argv (attempt + 1) left
          else .ok (code, stdout, stderr)

inductive ReadResult where
  | diff (text : Text)
  | dest (path : Option Text)
  | data (value : PyValue)

/-- `stdout or "null"`. -/
def orNull (stdout : Text) : Text := if stdout = [] then "null".toList else stdout

/-- `run_read`. -/
def runRead (gh : Gh) (op : ReadOp) (repo : Text) (number : Option ℤ) (limit retries : ℕ) (dest : Option Text) :
    Except ReadError ReadResult := do
  if let some e := gh.versionRaises then throw e
  let some binary := gh.which | throw .ghNotInstalled
  let argv ← buildReadArgv op repo number limit binary dest
  let (code, stdout, stderr) ← attempts gh op repo argv 1 retries
  if code ≠ 0 then throw (.failed op repo code (stderr.take 500))
  match op with
  | .prDiff =>
      if stdout.length > maxDiffChars then
        return .diff (stdout.take maxDiffChars ++ "\n... [diff truncated at 200000 chars]".toList)
      else return .diff stdout
  | .repoClone => return .dest dest
  | _ =>
      match gh.loads (orNull stdout) with
      | some value => return .data value
      | none => throw (.nonJson op repo (stdout.take 500))

/-! ### Lists -/

/-- What `gh` is asked for a list of so many rows. -/
def listArgv (op : ReadOp) (binary repo : Text) (limit : ℕ) : List Text :=
  let kind := if op = .prList then "pr".toList else "issue".toList
  let fields := if op = .prList then prListFields else issueListFields
  [binary, kind, "list".toList, "--repo".toList, repo, "--json".toList, fields, "--limit".toList, decimal limit]

/-- `gh` is there, and asked for some rows of a list it ends well, with the first of the rows. -/
structure Gh.Lists (gh : Gh) (retries : ℕ) (op : ReadOp) (repo : Text) (rows : List PyValue) : Prop where
  isList : op = .prList ∨ op = .issueList
  isSlug : isSlug repo = true
  ready : gh.versionRaises = none
  listed : ∃ binary, gh.which = some binary ∧ ∀ limit : ℕ, 1 ≤ limit → ∃ stdout stderr,
    attempts gh op repo (listArgv op binary repo limit) 1 retries = .ok (0, stdout, stderr) ∧
      gh.loads (orNull stdout) = some (.list (rows.take limit))

/-- What is read of a list: never more rows than `maxListLimit`. -/
theorem runRead_list {gh : Gh} {retries : ℕ} {op : ReadOp} {repo : Text} {rows : List PyValue}
    (h : gh.Lists retries op repo rows) {limit : ℕ} (hlimit : 1 ≤ limit) :
    runRead gh op repo none limit retries none = .ok (.data (.list (rows.take (safeLimit limit)))) := by
  obtain ⟨binary, hwhich, hlisted⟩ := h.listed
  have hsafe : 1 ≤ safeLimit limit := le_min hlimit (by decide)
  obtain ⟨stdout, stderr, hrun, hloads⟩ := hlisted (safeLimit limit) hsafe
  have hargv : buildReadArgv op repo none limit binary none = .ok (listArgv op binary repo (safeLimit limit)) := by
    rcases h.isList with rfl | rfl <;> simp [buildReadArgv, listArgv, h.isSlug]
  rcases h.isList with rfl | rfl <;>
    simp [runRead, h.ready, hwhich, hargv, hrun, hloads, bind, Except.bind, pure, Except.pure]

end CyClaw.Github

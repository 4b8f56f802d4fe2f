/-
The jailed clone, `RepoWorkspaceTools`.

Reading and writing look at one tree in two ways.  `readFile` and `statFile` go through a
jail that follows no link and takes no component that ends in a dot or a space; `writeFile`
and `add` go by the canonical path, follow the links that stay in the clone, and report
where the path lands.  `statFile_eq` and `writeFile_ok` say what each of the two sees.
-/
import CyClaw.Lib.FileTree
import CyClaw.Repo.Paths

namespace CyClaw.Repo

open PyText

abbrev Path := List Text

abbrev Bytes := List UInt8

abbrev Tree := FileTree Text Bytes

/-- The clone's settings.  `linkLimit` is how many links a walk may run through before the
interpreter takes it for a loop. -/
structure Tools where
  allowGitWriteTools : Bool
  maxReadBytes : ℕ := 256000
  maxWriteBytes : ℕ := 256000
  linkLimit : ℕ
  unicode : Unicode

/-- Why an operation was denied with an `AgenticError`. -/
inductive Denial where
  | disabled
  | tooLarge
  | empty
  | notRelative
  | dotgit
  | missing
  | escaped
  | notWritable
  | nothingToAdd
deriving DecidableEq

def Denial.message : Denial → Text
  | .disabled => "git write operations are disabled (deepagent_github.allow_git_write_tools is False)".toList
  | .tooLarge => "write content exceeds max_write_bytes".toList
  | .empty => "git path must be a non-empty string".toList
  | .notRelative => "git path must be a safe relative path inside the clone".toList
  | .dotgit => "git path may not touch the clone's .git directory".toList
  | .missing => "git path does not exist in the clone".toList
  | .escaped => "git path escaped the clone root".toList
  | .notWritable => "git path is not writable in the clone".toList
  | .nothingToAdd => "git add requires at least one path".toList

/-- How an operation fails: an `AgenticError`, which the loop catches, or the `RuntimeError`
of a symbolic link loop, which it does not. -/
inductive Failure where
  | denied (why : Denial)
  | raised
deriving DecidableEq

/-! ### Reading -/

/-- `stat_file`, `none` where it raises. -/
def statFile (t : Tree) (target : Text) : Option (Node Text Bytes) := (splitComponents target).bind t.nofollow

/-- `read_file`, `none` where it raises. -/
def readFile (tools : Tools) (t : Tree) (target : Text) : Option Text :=
  match statFile t target with
  | some (.file content) => if content.length > tools.maxReadBytes then none else decode content
  | _ => none

theorem statFile_eq {t : Tree} {target : Text} {comps : Path} (h : splitComponents target = some comps) :
    statFile t target = t.entry (parts target) := by
  rw [statFile, h, Option.bind_some, t.nofollow_eq_entry, splitComponents_parts h]

theorem readFile_eq_some {tools : Tools} {t : Tree} {target content : Text}
    (h : readFile tools t target = some content) :
    ∃ bytes, t.fileAt (parts target) = some bytes ∧ decode bytes = some content := by
  unfold readFile at h
  split at h
  · rename_i bytes hstat
    split at h
    · cases h
    · cases hcomps : splitComponents target with
      | none =>
          rw [statFile, hcomps] at hstat
          cases hstat
      | some comps =>
          rw [statFile_eq hcomps] at hstat
          exact ⟨bytes, by rw [FileTree.fileAt, hstat], h⟩
  · cases h

/-! ### Writing -/

/-- Whether a location is the clone's `.git` directory or lies in it. -/
def inGitDir (tools : Tools) (t : Tree) (location : Path) : Except Failure Bool :=
  match t.resolve tools.linkLimit [".git".toList] with
  | .ok gitDir => .ok (gitDir.isPrefixOf location)
  | .error .loop => .error .raised
  | .error _ => .ok false

/-- `_validate_write_path`: where a path lands.  A walk that does not ask for existence
raises no `OSError`, so the walk up to an existing ancestor is never taken. -/
def validateWritePath (tools : Tools) (t : Tree) (target : Text) (mustExist : Bool) : Except Failure Path :=
  if target = [] ∨ '\x00' ∈ target then .error (.denied .empty)
  else
    match canonicalRepoPath target with
    | none => .error (.denied .notRelative)
    | some canonical =>
        let ps := canonical.splitOn '/'
        if ps.any (isDotgitName tools.unicode) then .error (.denied .dotgit)
        else
          match if mustExist then t.resolveStrict tools.linkLimit ps else t.resolve tools.linkLimit ps with
          | .error .missing => .error (.denied .missing)
          | .error .left => .error (.denied .escaped)
          | .error .loop => .error .raised
          | .ok resolved =>
              match inGitDir tools t resolved with
              | .error e => .error e
              | .ok true => .error (.denied .dotgit)
              | .ok false => .ok (if resolved = [] then ps else resolved)

/-- `write_file`: where the content landed, and the tree after.  `refuses` are the locations
the operating system turns down of its own, for want of space or permission. -/
def writeFile (tools : Tools) (refuses : Path → Bool) (t : Tree) (target content : Text) :
    Except Failure (Path × Tree) :=
  if tools.allowGitWriteTools = false then .error (.denied .disabled)
  else if (encode content).length > tools.maxWriteBytes then .error (.denied .tooLarge)
  else
    match validateWritePath tools t target false with
    | .error e => .error e
    | .ok relative =>
        match if refuses relative then none else t.write relative (encode content) with
        | none => .error (.denied .notWritable)
        | some t' => .ok (relative, t')

/-- Both kinds of validation land where the path leads. -/
theorem validateWritePath_ok {tools : Tools} {t : Tree} {target : Text} {mustExist : Bool} {relative : Path}
    (h : validateWritePath tools t target mustExist = .ok relative) :
    canonicalRepoPath target = some (join (parts target)) ∧ parts target ≠ [] ∧
      ∃ resolved, t.resolve tools.linkLimit (parts target) = .ok resolved ∧
        relative = (if resolved = [] then parts target else resolved) := by
  unfold validateWritePath at h
  split at h
  · cases h
  · split at h
    · cases h
    · rename_i canonical hcanonical
      obtain ⟨heq, hne, -⟩ := canonicalRepoPath_eq hcanonical
      have hsplit : canonical.splitOn '/' = parts target := by
        rw [heq, join, List.splitOn_intercalate '/' (fun p hp => (mem_parts hp).2.2.1) hne]
      rw [hsplit] at h
      refine ⟨by rw [hcanonical, heq], hne, ?_⟩
      dsimp only at h
      split at h
      · cases h
      · split at h
        · cases h
        · cases h
        · cases h
        · rename_i resolved hresolved
          split at h
          · cases h
          · cases h
          · rw [Except.ok.injEq] at h
            cases mustExist with
            | false => exact ⟨resolved, hresolved, h.symm⟩
            | true => exact ⟨resolved, FileTree.resolve_of_strict hresolved, h.symm⟩

/-- **What a write does.**  The path was canonical but for its spelling, and the content
stands where it leads. -/
theorem writeFile_ok {tools : Tools} {refuses : Path → Bool} {t t' : Tree} {target content : Text}
    {landed : Path} (h : writeFile tools refuses t target content = .ok (landed, t')) :
    canonicalRepoPath target = some (join (parts target)) ∧
      t.resolve tools.linkLimit (parts target) = .ok landed ∧ t.write landed (encode content) = some t' := by
  unfold writeFile at h
  split at h
  · cases h
  · split at h
    · cases h
    · split at h
      · cases h
      · rename_i relative hvalid
        obtain ⟨hcanonical, hne, resolved, hresolved, hrelative⟩ := validateWritePath_ok hvalid
        split at h
        · cases h
        · rename_i tree hwrite
          simp only [Except.ok.injEq, Prod.mk.injEq] at h
          obtain ⟨rfl, rfl⟩ := h
          have hwrite : t.write relative (encode content) = some tree := by
            split at hwrite
            · cases hwrite
            · exact hwrite
          refine ⟨hcanonical, ?_, hwrite⟩
          split at hrelative
          · -- A path that lands on the clone itself runs through a link, and no file can
            -- be written there.
            rename_i hroot
            rw [hrelative] at hwrite
            rw [FileTree.resolve_of_clear (FileTree.clear_of_write hwrite), hroot] at hresolved
            exact absurd (Except.ok.inj hresolved) hne
          · rw [hrelative]
            exact hresolved

end CyClaw.Repo

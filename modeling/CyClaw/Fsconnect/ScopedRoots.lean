/-
The jail of the file connector.

A root is held as a directory descriptor, and every operation goes down from it one component
at a time, refusing links, to the directory that holds its target.  There it works through
that directory's descriptor and the target's last component.

The operations are programs over the calls of `Posix`, so a run is one through any moments
whatever: between two calls the tree may have been changed at will.  `with` blocks are
continuations, and what is said of an exception is said of the value a program ends with.
-/
import CyClaw.Fsconnect.Errors
import Mathlib.Data.Char
import Mathlib.Data.List.Lex
import Mathlib.Data.List.Sort

namespace CyClaw.Fsconnect

open Posix
open Repo (Text splitComponents parts trails)

/-- What the interpreter and the machine say. -/
structure Platform where
  darwin : Bool
  repr : Text → Text
  sha256 : Bytes → Text
  filemode : ℕ → Text
  getpid : ℕ
  /-- How many chunks a file is read in before this account of a run ends. -/
  chunks : ℕ

/-- `SafeRoot`. -/
structure SafeRoot (I : Type) where
  path : Text
  dirFd : I

/-- A program that may raise. -/
abbrev Op (I α : Type) := Prog I (Except FsError α)

variable {I α β : Type}

def raisePath (message : Text) (d : Details) : Op I α := .ret (.error (.path message d))

def raiseRuntime (message : Text) (d : Details) : Op I α := .ret (.error (.runtime message d))

/-- `_raise_macos_permission`, and the error that is raised where it returns. -/
def macosOr (p : Platform) (action : Text) (e : Errno) (error : FsError) : FsError :=
  if p.darwin ∧ (e = .acces ∨ e = .perm) then .permission action e else error

/-- `_is_macos_artifact_name`. -/
def isMacosArtifactName (p : Platform) (name : Text) : Bool :=
  p.darwin && (name = ".DS_Store".toList || name = ".localized".toList || "._".toList.isPrefixOf name)

/-- `_is_macos_dataless`. -/
def isMacosDataless (p : Platform) (st : Stat) : Bool := p.darwin && st.dataless

/-- `_display`. -/
def display (sr : SafeRoot I) (comps : List Text) : Text :=
  comps.foldl (fun path c => if ['/'].isSuffixOf path then path ++ c else path ++ '/' :: c) sr.path

/-! ### Reading a target -/

/-- Why a component is refused. -/
def componentRefusal (raw : Text) : Option Text :=
  if raw = ['.', '.'] then some "'..' is not allowed in a target".toList
  else if ':' ∈ raw then some "':' is not allowed in a path component (drive letter / ADS)".toList
  else if trails raw then some "trailing dot or space is not allowed in a path component".toList
  else none

/-- The message `split_components` raises with. -/
def splitRefusal (target : Text) : Text :=
  if '\x00' ∈ target then "target contains a NUL byte".toList
  else if "\\\\".toList.isPrefixOf target ∨ "//".toList.isPrefixOf target then
    "UNC targets are not allowed; use a path relative to a root".toList
  else if ['/'].isPrefixOf target then
    "absolute targets are not allowed; use a path relative to a root".toList
  else
    ((parts target).findSome? componentRefusal).getD
      "device-namespace (\\\\?\\ / \\\\.\\) targets are not allowed".toList

/-- `split_components` at the start of an operation. -/
def withComponents (target : Text) (k : List Text → Op I α) : Op I α :=
  match splitComponents target with
  | none => raisePath (splitRefusal target) .none
  | some comps => k comps

/-! ### Going down -/

def descend (p : Platform) : I → List Text → (I → Op I α) → Op I α
  | dirFd, [], k => k dirFd
  | dirFd, comp :: comps, k =>
      .openAt dirFd comp .directory fun
        | .error e =>
            .ret (.error (macosOr p ("descending into ".toList ++ p.repr comp) e
              (.path ("cannot descend into ".toList ++ p.repr comp) (.os e))))
        | .ok nfd => descend p nfd comps k

/-- `_descend_posix`: the block is run with the directory of the last component and that
component. -/
def descendPosix (p : Platform) (sr : SafeRoot I) (comps : List Text) (block : I → Text → Op I α) : Op I α :=
  match comps.getLast? with
  | none => raisePath "operation requires a file/dir name under the root, not the root itself".toList .none
  | some leaf => descend p sr.dirFd comps.dropLast fun pfd => block pfd leaf

/-! ### Reading -/

/-- `_read_fd`. -/
def readFd (p : Platform) (fd : I) (maxBytes : ℕ) (skip : Bool) : Op I Bytes :=
  .fstat fd fun
    | .error e =>
        .ret (.error (macosOr p "checking an open file".toList e
          (.path "cannot inspect the open file".toList (.os e))))
    | .ok st =>
        if st.kind ≠ .regular then raisePath "target is not a regular file".toList .none
        else if skip ∧ isMacosDataless p st then
          raisePath "iCloud dataless placeholder is not read".toList .none
        else if st.size > maxBytes then
          raiseRuntime ("file exceeds max_file_bytes (".toList ++ (toString maxBytes).toList ++ [')'])
            (.size st.size maxBytes)
        else
          .read fd (maxBytes + 1) fun
            | .error e =>
                .ret (.error (macosOr p "reading an open file".toList e
                  (.runtime "failed while reading an open file".toList (.os e))))
            | .ok data =>
                if data.length > maxBytes then
                  raiseRuntime ("file exceeds max_file_bytes (".toList ++ (toString maxBytes).toList ++ [')'])
                    (.max maxBytes)
                else .ret (.ok data)

def openForReading (p : Platform) (pfd : I) (leaf : Text) (maxBytes : ℕ) (skip : Bool) : Op I Bytes :=
  .openAt pfd leaf .read fun
    | .error e =>
        .ret (.error (macosOr p ("opening ".toList ++ p.repr leaf ++ " for reading".toList) e
          (.path ("cannot open ".toList ++ p.repr leaf ++ " for reading".toList) (.os e))))
    | .ok fd => readFd p fd maxBytes skip

def readBytes (p : Platform) (sr : SafeRoot I) (target : Text) (maxBytes : ℕ) (skip : Bool) : Op I Bytes :=
  withComponents target fun comps =>
    if skip ∧ comps.getLast?.any (isMacosArtifactName p) then
      raisePath ("macOS metadata file is not exposed: ".toList ++ p.repr (comps.getLast?.getD [])) .none
    else
      descendPosix p sr comps fun pfd leaf =>
        if skip then
          .statAt pfd leaf fun
            | .error e =>
                .ret (.error (macosOr p ("checking ".toList ++ p.repr leaf ++ " before reading".toList) e
                  (.path ("cannot stat ".toList ++ p.repr leaf ++ " before reading".toList) (.os e))))
            | .ok st =>
                if isMacosDataless p st then
                  raisePath ("iCloud dataless placeholder is not read: ".toList ++ p.repr leaf) .none
                else openForReading p pfd leaf maxBytes skip
        else openForReading p pfd leaf maxBytes skip

/-- `_stat_to_dict`. -/
structure StatDict where
  name : Text
  type : Text
  size : ℕ
  mode : Text
  mtime : ℕ

def statToDict (p : Platform) (name : Text) (st : Stat) : StatDict where
  name
  type :=
    match st.kind with
    | .dir => "dir".toList
    | .regular => "file".toList
    | .symlink => "symlink".toList
    | .other => "other".toList
  size := st.size
  mode := p.filemode st.mode
  mtime := st.mtime

def stat (p : Platform) (sr : SafeRoot I) (target : Text) : Op I StatDict :=
  withComponents target fun comps =>
    if comps = [] then
      .fstat sr.dirFd fun
        | .error e =>
            .ret (.error (macosOr p "checking the configured root".toList e
              (.path "cannot stat the configured root".toList (.os e))))
        | .ok st => .ret (.ok (statToDict p ['.'] st))
    else
      descendPosix p sr comps fun pfd leaf =>
        .statAt pfd leaf fun
          | .error e =>
              .ret (.error (macosOr p ("checking ".toList ++ p.repr leaf) e
                (.path ("cannot stat ".toList ++ p.repr leaf) (.os e))))
          | .ok st => .ret (.ok (statToDict p leaf st))

/-- The loop over the names of a directory.  An entry that cannot be asked about is left out;
with `skip`, so are the names the system hides and the files that are not here. -/
def statEntries (p : Platform) (dirFd : I) (skip : Bool) : List Text → List StatDict → Op I (List StatDict)
  | [], acc => .ret (.ok acc)
  | name :: names, acc =>
      if skip ∧ isMacosArtifactName p name then statEntries p dirFd skip names acc
      else
        .statAt dirFd name fun
          | .error e =>
              if p.darwin ∧ (e = .acces ∨ e = .perm) then
                .ret (.error (.permission ("checking directory entry ".toList ++ p.repr name) e))
              else statEntries p dirFd skip names acc
          | .ok st =>
              if skip ∧ isMacosDataless p st then statEntries p dirFd skip names acc
              else statEntries p dirFd skip names (acc ++ [statToDict p name st])

/-- `_listdir_fd`. -/
def listdirFd (p : Platform) (dirFd : I) (skip : Bool) : Op I (List StatDict) :=
  .listdir dirFd fun
    | .error e =>
        .ret (.error (macosOr p "listing a configured directory".toList e
          (.path "cannot list a configured directory".toList (.os e))))
    | .ok names => statEntries p dirFd skip (names.insertionSort (· ≤ ·)) []

def listDir (p : Platform) (sr : SafeRoot I) (target : Text) (skip : Bool) : Op I (List StatDict) :=
  withComponents target fun comps =>
    if comps = [] then listdirFd p sr.dirFd skip
    else
      descendPosix p sr comps fun pfd leaf =>
        .openAt pfd leaf .directory fun
          | .error e =>
              .ret (.error (macosOr p ("opening directory ".toList ++ p.repr leaf) e
                (.path ("cannot open directory ".toList ++ p.repr leaf) (.os e))))
          | .ok lfd => listdirFd p lfd skip

/-! ### Writing -/

/-- `_fsync_dir`: whether it goes through makes no difference. -/
def fsyncDir (dirFd : I) (k : Op I α) : Op I α := .change (.fsync dirFd) fun _ => k

/-- The refusal to write over what is there.  A file that cannot be asked about raises as it
is. -/
def guardClobber (pfd : I) (leaf : Text) (overwrite : Bool) (message : Text) (k : Op I α) : Op I α :=
  if overwrite then k
  else
    .statAt pfd leaf fun
      | .error .noent => k
      | .error e => .ret (.error (.os e))
      | .ok _ => raiseRuntime message (.clobber leaf)

def tmpName (p : Platform) (leaf : Text) : Text :=
  '.' :: leaf ++ '.' :: Nat.toDigits 10 p.getpid ++ ".cyclaw-tmp".toList

/-- The end of a write that has failed: the temporary file is taken away. -/
def abandonWrite (pfd : I) (tmp : Text) (e : Errno) : Op I α :=
  .change (.unlink pfd tmp) fun _ => raiseRuntime "could not complete atomic write".toList (.os e)

/-- `_atomic_write_posix`. -/
def atomicWritePosix (p : Platform) (pfd : I) (leaf : Text) (data : Bytes) (k : Op I α) : Op I α :=
  let tmp := tmpName p leaf
  .openAt pfd tmp .create fun
    | .error e => raiseRuntime "could not create temp file for atomic write".toList (.os e)
    | .ok fd =>
        .change (.write fd data) fun
          | .error e => abandonWrite pfd tmp e
          | .ok () =>
              .change (.fsync fd) fun
                | .error e => abandonWrite pfd tmp e
                | .ok () =>
                    .change (.replace pfd tmp pfd leaf) fun
                      | .error e => abandonWrite pfd tmp e
                      | .ok () => fsyncDir pfd k

structure Written where
  bytes : ℕ
  sha256 : Text
  path : Text

def writeBytes (p : Platform) (sr : SafeRoot I) (target : Text) (data : Bytes) (overwrite : Bool) : Op I Written :=
  withComponents target fun comps =>
    if comps = [] then raisePath "write target must be a file under the root".toList .none
    else
      descendPosix p sr comps fun pfd leaf =>
        guardClobber pfd leaf overwrite (p.repr leaf ++ " already exists; pass overwrite to replace it".toList) <|
          atomicWritePosix p pfd leaf data <|
            .ret (.ok { bytes := data.length, sha256 := p.sha256 data, path := display sr comps })

/-- The length of the data, and the path. -/
def appendBytes (p : Platform) (sr : SafeRoot I) (target : Text) (data : Bytes) : Op I (ℕ × Text) :=
  withComponents target fun comps =>
    if comps = [] then raisePath "append target must be a file under the root".toList .none
    else
      descendPosix p sr comps fun pfd leaf =>
        .openAt pfd leaf .append fun
          | .error e => raisePath ("cannot open ".toList ++ p.repr leaf ++ " for append".toList) (.os e)
          | .ok fd =>
              .change (.write fd data) fun
                | .error e => .ret (.error (.os e))
                | .ok () => .ret (.ok (data.length, display sr comps))

def mkdir (p : Platform) (sr : SafeRoot I) (target : Text) : Op I Text :=
  withComponents target fun comps =>
    if comps = [] then raisePath "mkdir target must be a name under the root".toList .none
    else
      descendPosix p sr comps fun pfd leaf =>
        .change (.mkdir pfd leaf) fun
          | .error .exist => raiseRuntime (p.repr leaf ++ " already exists".toList) (.path leaf)
          | .error e => raisePath ("cannot mkdir ".toList ++ p.repr leaf) (.os e)
          | .ok () => .ret (.ok (display sr comps))

/-- The paths moved from and to.  The second descent starts where the first has ended. -/
def move (p : Platform) (sr : SafeRoot I) (src dst : Text) (overwrite : Bool) : Op I (Text × Text) :=
  withComponents src fun scomps =>
    withComponents dst fun dcomps =>
      if scomps = [] ∨ dcomps = [] then
        raisePath "move source and destination must both name files under a root".toList .none
      else
        descendPosix p sr scomps fun spfd sleaf =>
          descendPosix p sr dcomps fun dpfd dleaf =>
            guardClobber dpfd dleaf overwrite ("destination ".toList ++ p.repr dleaf ++ " exists; pass overwrite".toList) <|
              .change (.replace spfd sleaf dpfd dleaf) fun
                | .error e => raiseRuntime "move failed".toList (.os e)
                | .ok () => fsyncDir dpfd <| .ret (.ok (display sr scomps, display sr dcomps))

/-- The content of an open file, chunk by chunk. -/
def readChunks (fd : I) : ℕ → Bytes → (Bytes → Op I α) → Op I α
  | 0, acc, k => k acc
  | n + 1, acc, k =>
      .read fd 65536 fun
        | .error e => .ret (.error (.os e))
        | .ok chunk => if chunk = [] then k acc else readChunks fd n (acc ++ chunk) k

/-- `_sha_leaf_posix`. -/
def shaLeafPosix (p : Platform) (pfd : I) (leaf : Text) (st : Stat) (shaMaxBytes : Option ℕ)
    (k : Option Text → Op I α) : Op I α :=
  if st.kind ≠ .regular then k none
  else if shaMaxBytes.any (fun n => st.size > n) then k none
  else
    .openAt pfd leaf .read fun
      | .error _ => k none
      | .ok fd => readChunks fd p.chunks [] fun data => k (some (p.sha256 data))

structure Removed where
  removed : Text
  size : ℕ
  sha256 : Option Text

def unlink (p : Platform) (sr : SafeRoot I) (target : Text) (shaMaxBytes : Option ℕ) : Op I Removed :=
  withComponents target fun comps =>
    if comps = [] then raisePath "unlink target must be a file under the root".toList .none
    else
      descendPosix p sr comps fun pfd leaf =>
        .statAt pfd leaf fun
          | .error e => raisePath ("cannot stat ".toList ++ p.repr leaf ++ " for unlink".toList) (.os e)
          | .ok st =>
              if st.kind = .dir then raisePath "unlink target is a directory; use rmdir".toList .none
              else
                shaLeafPosix p pfd leaf st shaMaxBytes fun sha =>
                  .change (.unlink pfd leaf) fun
                    | .error e => raisePath ("cannot unlink ".toList ++ p.repr leaf) (.os e)
                    | .ok () => fsyncDir pfd <| .ret (.ok { removed := display sr comps, size := st.size, sha256 := sha })

def rmdir (p : Platform) (sr : SafeRoot I) (target : Text) : Op I Text :=
  withComponents target fun comps =>
    if comps = [] then raisePath "rmdir target must be a directory under the root".toList .none
    else
      descendPosix p sr comps fun pfd leaf =>
        .statAt pfd leaf fun
          | .error e => raisePath ("cannot stat ".toList ++ p.repr leaf ++ " for rmdir".toList) (.os e)
          | .ok st =>
              if st.kind ≠ .dir then raisePath "rmdir target is not a directory; use unlink".toList .none
              else
                .change (.rmdir pfd leaf) fun
                  | .error .notempty =>
                      raiseRuntime ("directory ".toList ++ p.repr leaf ++ " is not empty".toList) (.nonEmpty .notempty)
                  | .error e => raisePath ("cannot rmdir ".toList ++ p.repr leaf) (.os e)
                  | .ok () => fsyncDir pfd <| .ret (.ok (display sr comps))

end CyClaw.Fsconnect

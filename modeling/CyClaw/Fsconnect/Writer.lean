/-
The writer of a root.

`FsWriter` puts gates before the operations of the jail.  Its seven operations are here as the
source has them, each with its gates in its own order, down to the texts of its refusals and
events.  `Call` is a call of one of them and `perform` makes it.
-/
import CyClaw.Fsconnect.Trash
import CyClaw.Fsconnect.Quota

namespace CyClaw.Fsconnect

open Posix PathTree Effects
open Repo (Text splitComponents)

variable {α : Type}

def decimal (n : ℤ) : Text := (toString n).toList

/-! ### Gates -/

/-- `_refuse`. -/
def refuse (op : OpName) (gate : Gate) (message rule : Text) (extra : List (Text × Value)) : Fs α := do
  note (.refused op gate rule extra)
  Eff.raise (.refused op gate message)

/-- `_executable`: whether it is to be done, or only planned. -/
def executable (w : FsWriter) (op : OpName) (reason : Text) (confirm destructive : Bool) : Fs Bool :=
  if w.hardDisable || !w.cfg.writesEnabled then pure false
  else if w.refusedPlatform then
    refuse op .platform
      "fsconnect writes are refused on Windows until handle-based containment is implemented".toList
      "denied: writes refused on Windows (name-based TOCTOU containment gap)".toList []
  else if PyText.strip reason = [] then
    refuse op .reason "a non-empty human reason is required to write".toList "denied: human reason missing".toList []
  else if destructive && w.cfg.requireConfirmDestructive && !confirm then
    refuse op .confirm "destructive op requires confirm=True".toList
      "denied: confirm missing for destructive op".toList []
  else pure true

/-- `_reserve_check`. -/
def reserveCheck (w : FsWriter) (op : OpName) (comps : List Text) : Fs Unit :=
  match comps.head?, comps.getLast? with
  | some first, some leaf =>
      if first = trashDir then
        refuse op .reservedName (w.interp.repr trashDir ++ " is reserved; use the trash-* subcommands".toList)
          "denied: reserved name .cyclaw-trash (use trash subcommands)".toList [("component".toList, .str first)]
      else if leaf = quotaFile ∨ tmpSuffix.isSuffixOf leaf then
        refuse op .reservedName (w.interp.repr leaf ++ " is a reserved internal filename".toList)
          "denied: reserved internal filename".toList [("leaf".toList, .str leaf)]
      else pure ()
  | _, _ => pure ()

/-- `_enforce_payload_cap`. -/
def enforcePayloadCap (w : FsWriter) (op : OpName) (data : Bytes) : Fs Unit :=
  if data.length > w.cfg.maxWriteBytes then
    Eff.raise (.refused op .maxWriteBytes
      ("payload exceeds fsconnect.max_write_bytes (".toList ++ decimal data.length ++ " > ".toList ++
        decimal w.cfg.maxWriteBytes ++ [')']))
  else pure ()

/-- `_check_injection`. -/
def checkInjection (w : FsWriter) (op : OpName) (flags : List Text) : Fs Unit :=
  if flags ≠ [] ∧ w.cfg.blockOnInjectionFlags then
    refuse op .injectionScan
      ("content flagged by the advisory injection scan (".toList ++ decimal flags.length ++
        " pattern(s)) and block_on_injection_flags is set".toList)
      ("denied: injection scan flagged ".toList ++ decimal flags.length ++
        " pattern(s) (block_on_injection_flags)".toList)
      [("injection_flag_count".toList, .int flags.length)]
  else pure ()

/-! ### The quota -/

/-- `_quota_spec`. -/
def FsWriter.quotaSpec (w : FsWriter) : Option QuotaSpec :=
  w.cfg.quota.filter fun spec => spec.quotaBytes.isSome || spec.maxFiles.isSome

/-- A ledger that needs no recount. -/
def usable (w : FsWriter) (now : ℕ) (ledger : Option QuotaLedger) : Option QuotaLedger :=
  ledger.filter fun l => !isStale w.interp (some l) now w.cfg.quotaRecomputeHours

def nextGeneration (ledger : Option QuotaLedger) : ℤ := (ledger.map fun l => l.generation + 1).getD 1

/-- `_quota_ledger`. -/
def quotaLedger (w : FsWriter) (h : Host) (op : OpName) : Fs QuotaLedger := do
  let now ← draw h.clock
  let ledger ← load w h
  match usable w now ledger with
  | some l => pure l
  | none => do
      match ← Eff.attempt (recompute w h now (nextGeneration ledger)) with
      | .error e =>
          refuse op .quota "cannot determine quota usage (ledger stale/corrupt and recompute failed)".toList
            "denied: quota usage indeterminate (fail closed)".toList [("error".toList, .str (w.interp.errorText e))]
      | .ok fresh => do
          trySave w h fresh
          pure fresh

/-- Whether a figure is over its limit, if it has one. -/
def overLimit (limit : Option ℕ) (figure : ℤ) : Bool := limit.any fun (n : ℕ) => figure > n

/-- `_check_quota`: what to say of it, and the ledger it went by. -/
def checkQuota (w : FsWriter) (h : Host) (op : OpName) (deltaBytes deltaFiles : ℤ) :
    Fs (Text × Option QuotaLedger) :=
  match w.quotaSpec with
  | none => do
      note (.passed .quota)
      pure ("quota unlimited".toList, none)
  | some spec => do
      let ledger ← quotaLedger w h op
      let projBytes := ledger.usedBytes + deltaBytes
      let projFiles := ledger.fileCount + deltaFiles
      if overLimit spec.quotaBytes projBytes then
        refuse op .quota
          ("projected usage ".toList ++ decimal projBytes ++ " exceeds quota_bytes ".toList ++
            decimal (spec.quotaBytes.getD 0))
          ("denied: quota bytes ".toList ++ decimal projBytes ++ ['/'] ++ decimal (spec.quotaBytes.getD 0) ++
            " exceeded".toList)
          [("used".toList, .int ledger.usedBytes), ("quota".toList, .int (spec.quotaBytes.getD 0)),
            ("requested".toList, .int deltaBytes)]
      else if overLimit spec.maxFiles projFiles then
        refuse op .quota
          ("projected file count ".toList ++ decimal projFiles ++ " exceeds max_files ".toList ++
            decimal (spec.maxFiles.getD 0))
          ("denied: quota files ".toList ++ decimal projFiles ++ ['/'] ++ decimal (spec.maxFiles.getD 0) ++
            " exceeded".toList)
          [("used_files".toList, .int ledger.fileCount), ("max_files".toList, .int (spec.maxFiles.getD 0))]
      else do
        note (.passed .quota)
        let limit := (spec.quotaBytes.map fun n => decimal n).getD "inf".toList
        pure ("quota ".toList ++ decimal projBytes ++ ['/'] ++ limit ++ " bytes ok".toList, some ledger)

/-- `_update_ledger`. -/
def updateLedger (w : FsWriter) (h : Host) (deltaBytes deltaFiles : ℤ) (ledger : Option QuotaLedger) : Fs Unit :=
  match w.quotaSpec with
  | none => pure ()
  | some _ => do
      let now ← draw h.clock
      let ledger ← match ledger with
        | some l => pure (some l)
        | none => load w h
      match usable w now ledger with
      | none => do
          match ← Eff.attempt (recompute w h now (nextGeneration ledger)) with
          | .error _ => pure ()
          | .ok fresh => trySave w h fresh
      | some l =>
          trySave w h
            { usedBytes := max 0 (l.usedBytes + deltaBytes)
              fileCount := max 0 (l.fileCount + deltaFiles)
              computedAt := l.computedAt
              generation := l.generation + 1 }

/-! ### The rate -/

/-- `_check_rate`. -/
def checkRate (w : FsWriter) (h : Host) (op : OpName) : Fs Text :=
  let settings := w.cfg.rate
  let key := "fs:".toList ++ w.normcase
  if !settings.enabled then do
    note (.passed .rateLimit)
    pure "rate disabled".toList
  else do
    let perRoot ← draw fun n => h.allow n key
    if !perRoot then
      refuse op .rateLimit
        ("per-root write rate limit exceeded (".toList ++ decimal settings.maxOps ++ ['/'] ++
          decimal settings.windowSeconds ++ "s)".toList)
        ("denied: per-root rate limit ".toList ++ key ++ " exceeded".toList)
        [("key".toList, .str key), ("max_ops".toList, .int settings.maxOps),
          ("window_seconds".toList, .int settings.windowSeconds)]
    else do
      let global ← draw fun n => h.allow n "fs:*".toList
      if !global then
        refuse op .rateLimit
          ("global write rate limit exceeded (".toList ++ decimal settings.globalMaxOps ++ ['/'] ++
            decimal settings.windowSeconds ++ "s)".toList)
          "denied: global rate limit fs:* exceeded".toList
          [("key".toList, .str "fs:*".toList), ("max_ops".toList, .int settings.globalMaxOps),
            ("window_seconds".toList, .int settings.windowSeconds)]
      else do
        note (.passed .rateLimit)
        pure ("rate ok (".toList ++ decimal settings.maxOps ++ ['/'] ++ decimal settings.windowSeconds ++
          "s)".toList)

/-! ### Events -/

/-- What an operation that was done returns, beside what they all do. -/
inductive Result where
  | written (result : Written)
  | appended (bytes : ℕ) (path : Text)
  | created (path : Text)
  | moved (source dest : Text)
  | unlinked (result : Removed)
  | rmdired (path : Text)
  | trashed (removed trashEntry retentionExpiresAt : Text) (sha256 : Option Text) (size : ℕ) (kind : Text)
  | restored (originalPath entry dest : Text)

/-- The path of an applied event. -/
def Result.path : Result → Text
  | .written result => result.path
  | .appended _ path => path
  | .created path => path
  | .moved _ dest => dest
  | .unlinked result => result.removed
  | .rmdired path => path
  | .trashed removed _ _ _ _ _ => removed
  | .restored _ _ dest => dest

inductive Reply where
  | dryRunPlan (op : OpName) (reason : Text) (extra : List (Text × Value))
  | applied (op : OpName) (reason : Text) (flags : List Text) (intentId rule : Text) (result : Result)
  | emptied (reason : Text) (purged sweptTmp : List Text)

/-- What of a field an event takes: texts, numbers and truth values. -/
def auditable : Text × Value → Bool
  | (_, .strs _) => false
  | _ => true

/-- `_dryrun`. -/
def dryrun (op : OpName) (reason : Text) (extra : List (Text × Value)) : Fs Reply := do
  note (.dryrun op reason (extra.filter auditable))
  pure (.dryRunPlan op reason extra)

/-- `_audit_intent`. -/
def auditIntent (op : OpName) (reason path intentId : Text) (extra : List (Text × Value)) : Fs Unit :=
  note (.intent op reason path intentId extra)

/-- `_audit_applied`. -/
def auditApplied (op : OpName) (reason path : Text) (flags : List Text) (intentId rule : Text) : Fs Unit :=
  note (.applied op reason path intentId rule flags.length)

/-- `_allow_rule`. -/
def allowRule (destructive : Bool) (qnote rnote : Text) (flags extraParts : List Text) : Text :=
  let parts := ["writes_enabled".toList, "human reason".toList] ++
    (if destructive then ["confirm(destructive)".toList] else []) ++ extraParts ++ [qnote, rnote] ++
    (if flags = [] then [] else ["injection flags=".toList ++ decimal flags.length ++ " (advisory)".toList])
  "allowed: ".toList ++ " + ".toList.intercalate parts

/-! ### Looking -/

/-- `roots.stat`. -/
def rootsStat (w : FsWriter) (h : Host) (target : Text) : Fs StatDict :=
  jail h (stat w.interp.toPlatform (heldRoot w.path) target)

/-- `_pre_size`: whether it is there, its size and its type. -/
def preSize (w : FsWriter) (h : Host) (target : Text) : Fs (Bool × ℕ × Option Text) := do
  match ← Eff.attempt (rootsStat w h target) with
  | .ok st => pure (true, st.size, some st.type)
  | .error e => if e.isConnect then pure (false, 0, none) else Eff.raise e

/-- `split_components` as the first thing an operation does. -/
def split (target : Text) : Fs (List Text) :=
  match splitComponents target with
  | none => Eff.raise (.path (splitRefusal target) .none)
  | some comps => pure comps

/-! ### The operations on files -/

def fsWrite (w : FsWriter) (h : Host) (target : Text) (data : Bytes) (reason : Text) (confirm overwrite : Bool) :
    Fs Reply := do
  let comps ← split target
  reserveCheck w .fsWrite comps
  enforcePayloadCap w .fsWrite data
  if !(← executable w .fsWrite reason confirm overwrite) then
    dryrun .fsWrite reason
      [("target".toList, .str target), ("bytes".toList, .int data.length),
        ("sha256".toList, .str (w.interp.sha256 data)), ("overwrite".toList, .bool overwrite)]
  else do
    let flags := w.interp.scan data
    checkInjection w .fsWrite flags
    let (existed, oldSize, _) ← preSize w h target
    let dBytes : ℤ := if overwrite && existed then data.length - oldSize else data.length
    let dFiles : ℤ := if overwrite && existed then 0 else 1
    let (qnote, qledger) ← checkQuota w h .fsWrite dBytes dFiles
    let rnote ← checkRate w h .fsWrite
    let intentId ← draw h.uuid
    auditIntent .fsWrite reason target intentId
      [("bytes".toList, .int data.length), ("overwrite".toList, .bool overwrite)]
    let result ← jail h (writeBytes w.interp.toPlatform (heldRoot w.path) target data overwrite)
    updateLedger w h dBytes dFiles qledger
    let rule := allowRule overwrite qnote rnote flags []
    auditApplied .fsWrite reason result.path flags intentId rule
    pure (.applied .fsWrite reason flags intentId rule (.written result))

def fsAppend (w : FsWriter) (h : Host) (target : Text) (data : Bytes) (reason : Text) (confirm : Bool) : Fs Reply := do
  let comps ← split target
  reserveCheck w .fsAppend comps
  enforcePayloadCap w .fsAppend data
  if !(← executable w .fsAppend reason confirm false) then
    dryrun .fsAppend reason [("target".toList, .str target), ("bytes".toList, .int data.length)]
  else do
    let flags := w.interp.scan data
    checkInjection w .fsAppend flags
    let (existed, _, _) ← preSize w h target
    let dFiles : ℤ := if existed then 0 else 1
    let (qnote, qledger) ← checkQuota w h .fsAppend data.length dFiles
    let rnote ← checkRate w h .fsAppend
    let intentId ← draw h.uuid
    auditIntent .fsAppend reason target intentId [("bytes".toList, .int data.length)]
    let (bytes, path) ← jail h (appendBytes w.interp.toPlatform (heldRoot w.path) target data)
    updateLedger w h data.length dFiles qledger
    let rule := allowRule false qnote rnote flags []
    auditApplied .fsAppend reason path flags intentId rule
    pure (.applied .fsAppend reason flags intentId rule (.appended bytes path))

def fsMkdir (w : FsWriter) (h : Host) (target reason : Text) (confirm : Bool) : Fs Reply := do
  let comps ← split target
  reserveCheck w .fsMkdir comps
  if !(← executable w .fsMkdir reason confirm false) then
    dryrun .fsMkdir reason [("target".toList, .str target)]
  else do
    let (qnote, _) ← checkQuota w h .fsMkdir 0 0
    let rnote ← checkRate w h .fsMkdir
    let intentId ← draw h.uuid
    auditIntent .fsMkdir reason target intentId []
    let path ← jail h (mkdir w.interp.toPlatform (heldRoot w.path) target)
    let rule := allowRule false qnote rnote [] []
    auditApplied .fsMkdir reason path [] intentId rule
    pure (.applied .fsMkdir reason [] intentId rule (.created path))

def fsMove (w : FsWriter) (h : Host) (src dst reason : Text) (confirm overwrite : Bool) : Fs Reply := do
  let scomps ← split src
  let dcomps ← split dst
  reserveCheck w .fsMove scomps
  reserveCheck w .fsMove dcomps
  if !(← executable w .fsMove reason confirm true) then
    dryrun .fsMove reason [("from".toList, .str src), ("to".toList, .str dst), ("overwrite".toList, .bool overwrite)]
  else do
    let (qnote, _) ← checkQuota w h .fsMove 0 0
    let rnote ← checkRate w h .fsMove
    let intentId ← draw h.uuid
    auditIntent .fsMove reason dst intentId [("from".toList, .str src)]
    let (source, dest) ← jail h (move w.interp.toPlatform (heldRoot w.path) src dst overwrite)
    let rule := allowRule true qnote rnote [] []
    auditApplied .fsMove reason dest [] intentId rule
    pure (.applied .fsMove reason [] intentId rule (.moved source dest))

/-! ### Deleting -/

def dirType : Text := "dir".toList

/-- `_purge`. -/
def purge (w : FsWriter) (h : Host) (target : Text) (kind : Option Text) : Fs Result :=
  if kind = some dirType then do
    match ← Eff.attempt (jail h (rmdir w.interp.toPlatform (heldRoot w.path) target)) with
    | .ok path => pure (.rmdired path)
    | .error (.runtime _ (.nonEmpty _)) =>
        refuse .fsDelete .nonEmptyDir
          "cannot purge a non-empty directory; trash it or purge leaf-by-leaf".toList
          "denied: non-empty directory purge refused (blast-radius control)".toList [("target".toList, .str target)]
    | .error e => Eff.raise e
  else do
    let result ← jail h (unlink w.interp.toPlatform (heldRoot w.path) target (some w.cfg.maxFileBytes))
    pure (.unlinked result)

/-- `_ensure_trash`. -/
def ensureTrash (w : FsWriter) (h : Host) : Fs Unit := do
  match ← Eff.attempt (jail h (mkdir w.interp.toPlatform (heldRoot w.path) trashDir)) with
  | .ok _ => pure ()
  | .error (.runtime _ _) => pure ()
  | .error e => Eff.raise e

/-- `_content_sha`. -/
def contentSha (w : FsWriter) (h : Host) (target : Text) (kind : Option Text) (size : ℕ) : Fs (Option Text) :=
  if kind = some dirType ∨ size > w.cfg.maxFileBytes then pure none
  else do
    match ← Eff.attempt (jail h (readBytes w.interp.toPlatform (heldRoot w.path) target w.cfg.maxFileBytes false)) with
    | .ok data => pure (some (w.interp.sha256 data))
    | .error e => if e.isConnect then pure none else Eff.raise e

/-- `suppress(FsConnectError)` around the unlinking of a sidecar. -/
def dropSidecar (w : FsWriter) (h : Host) (name : Text) : Fs Unit :=
  suppressConnect do
    let _ ← jail h (unlink w.interp.toPlatform (heldRoot w.path) (inTrash name ++ metaSuffix) (some 0))
    pure ()

/-- `_to_trash`. -/
def toTrash (w : FsWriter) (h : Host) (target : Text) (kind : Option Text) (size : ℕ) (reason : Text) (now : ℕ) :
    Fs Result := do
  ensureTrash w h
  let sha ← contentSha w h target kind size
  let skipped := if kind ≠ some dirType ∧ size > w.cfg.maxFileBytes then some "size".toList else none
  let token ← draw h.token
  let entry := makeEntry w.interp target now token reason sha size
    (if kind = some dirType then dirType else "file".toList) w.cfg.trashRetentionDays skipped
  let dst := inTrash entry.name
  let _ ← jail h (writeBytes w.interp.toPlatform (heldRoot w.path) (dst ++ metaSuffix) entry.metaBytes false)
  match ← Eff.attempt (jail h (move w.interp.toPlatform (heldRoot w.path) target dst false)) with
  | .error e => do
      dropSidecar w h entry.name
      Eff.raise e
  | .ok (source, _) =>
      pure (.trashed source entry.name entry.retentionExpiresAt entry.sha256 size entry.kind)

def fsDelete (w : FsWriter) (h : Host) (target reason : Text) (confirm purging : Bool) : Fs Reply := do
  let comps ← split target
  if comps = [] then
    Eff.raise (.path "delete target must name a file/dir under the root, not the root".toList .none)
  else do
    reserveCheck w .fsDelete comps
    let now ← draw h.clock
    let mode := if purging then "purge".toList else "trash".toList
    let (existed, size, kind) ← preSize w h target
    if !(← executable w .fsDelete reason confirm true) then do
      let token ← draw h.token
      dryrun .fsDelete reason
        ([("target".toList, .str target), ("mode".toList, .str mode)] ++
          if purging then []
          else
            [("trash_entry".toList, .str (entryName w.interp target now token)),
              ("retention_expires_at".toList,
                .str (w.interp.iso (now + w.cfg.trashRetentionDays * secondsPerDay)))])
    else if purging && !w.cfg.allowHardDelete then
      refuse .fsDelete .allowHardDelete
        "--purge requires fsconnect.allow_hard_delete: true (config is false); trash mode remains available".toList
        "denied: --purge requires fsconnect.allow_hard_delete: true (config is false); trash mode remains available".toList
        [("mode".toList, .str "purge".toList)]
    else if !existed then
      Eff.raise (.path ("delete target does not exist: ".toList ++ w.interp.repr target) (.path target))
    else do
      let dBytes : ℤ := if purging && kind ≠ some dirType then -size else 0
      let dFiles : ℤ := if purging && kind ≠ some dirType then -1 else 0
      let (qnote, qledger) ← checkQuota w h .fsDelete dBytes dFiles
      let rnote ← checkRate w h .fsDelete
      let intentId ← draw h.uuid
      auditIntent .fsDelete reason target intentId [("mode".toList, .str mode)]
      if purging then do
        let result ← purge w h target kind
        updateLedger w h dBytes dFiles qledger
        let rule := allowRule true qnote rnote [] ["purge (allow_hard_delete)".toList]
        auditApplied .fsDelete reason result.path [] intentId rule
        pure (.applied .fsDelete reason [] intentId rule result)
      else do
        let result ← toTrash w h target kind size reason now
        let rule := allowRule true qnote rnote [] ["trash-mode (allow_hard_delete not required)".toList]
        auditApplied .fsDelete reason result.path [] intentId rule
        pure (.applied .fsDelete reason [] intentId rule result)

/-! ### The trash -/

def maxPurgeDepth : ℕ := 64

/-- `_purge_tree`, by the levels it may still go down. -/
def purgeTree (w : FsWriter) (h : Host) : ℕ → Text → Fs Unit
  | 0, _ =>
      Eff.raise (.connect ("trash tree exceeds ".toList ++ decimal maxPurgeDepth ++
        " directory levels; refusing unbounded recursive purge".toList))
  | depth + 1, rel => do
      match ← Eff.attempt (rootsStat w h rel) with
      | .error e => if e.isConnect then pure () else Eff.raise e
      | .ok st =>
          if st.type = dirType then do
            let items ← jail h (listDir w.interp.toPlatform (heldRoot w.path) rel false)
            Eff.fold (fun () item => purgeTree w h depth (rel ++ '/' :: item.name)) items ()
            let _ ← jail h (rmdir w.interp.toPlatform (heldRoot w.path) rel)
            pure ()
          else do
            let _ ← jail h (unlink w.interp.toPlatform (heldRoot w.path) rel (some 0))
            pure ()

/-- `_purge_trash_entry`: whether the entry is gone, and whether there was a payload. -/
def purgeTrashEntry (w : FsWriter) (h : Host) (entry : TrashEntry) : Fs (Bool × Bool) := do
  let payload := inTrash entry.name
  match ← Eff.attempt (rootsStat w h payload) with
  | .error e =>
      if e.isConnect then do
        dropSidecar w h entry.name
        pure (true, false)
      else Eff.raise e
  | .ok _ => do
      match ← Eff.attempt (purgeTree w h maxPurgeDepth payload) with
      | .error e => if e.isConnect then pure (false, false) else Eff.raise e
      | .ok () => do
          dropSidecar w h entry.name
          pure (true, true)

/-- Whether a file is what a crash has left of a write, a day ago or longer. -/
def isOrphanTmp (unseen : Path → Bool) (now : ℕ) (e : Path × Node) : Bool :=
  e.2.kind ≠ .dir && e.1.getLast?.any (fun name => tmpSuffix.isSuffixOf name) &&
    e.1.inits.all (fun q => !unseen q) && e.2.mtime + secondsPerDay < now

/-- `_find_orphan_tmp`.  The walk has links to directories among the directories, so those are
with what it does not see. -/
def findOrphanTmp (h : Host) : Fs (List Text) := do
  let now ← draw h.clock
  let s ← Eff.get
  let unseen ← draw h.unseen
  pure (((s.tree.table.rows.filter (isOrphanTmp unseen now)).map fun e => ['/'].intercalate e.1).insertionSort (· ≤ ·))

/-- One round of the sweep. -/
def sweepOne (w : FsWriter) (h : Host) (swept : List Text) (rel : Text) : Fs (List Text) := do
  match ← Eff.attempt (jail h (unlink w.interp.toPlatform (heldRoot w.path) rel (some 0))) with
  | .ok _ => pure (swept ++ [rel])
  | .error e => if e.isConnect then pure swept else Eff.raise e

/-- `_sweep_orphan_tmp`. -/
def sweepOrphanTmp (w : FsWriter) (h : Host) : Fs (List Text) := do
  let found ← findOrphanTmp h
  Eff.fold (sweepOne w h) found []

/-- What the rounds of an emptying have purged, and freed. -/
structure Emptied where
  purged : List Text
  freedBytes : ℤ
  freedFiles : ℤ

/-- One round of `trash_empty`. -/
def emptyEntry (w : FsWriter) (h : Host) (reason rnote : Text) (acc : Emptied) (e : TrashEntry) : Fs Emptied := do
  let intentId ← draw h.uuid
  auditIntent .trashEmpty reason e.name intentId [("trash_entry".toList, .str e.name)]
  let (reclaimed, hadPayload) ← purgeTrashEntry w h e
  if !reclaimed then pure acc
  else do
    let rule := "allowed: writes_enabled + human reason + confirm(destructive) + trash-empty (allow_hard_delete) + ".toList ++
      rnote
    auditApplied .trashEmpty reason e.name [] intentId rule
    if e.kind ≠ dirType && hadPayload then
      pure { purged := acc.purged ++ [e.name], freedBytes := acc.freedBytes + e.size, freedFiles := acc.freedFiles + 1 }
    else pure { acc with purged := acc.purged ++ [e.name] }

def trashEmpty (w : FsWriter) (h : Host) (reason : Text) (confirm allEntries : Bool) : Fs Reply := do
  let now ← draw h.clock
  let entries ← listEntries w h
  let targets := if allEntries then entries else expired w.interp entries now
  if !(← executable w .trashEmpty reason confirm true) then do
    let orphans ← findOrphanTmp h
    dryrun .trashEmpty reason
      [("would_purge".toList, .strs (targets.map fun e => e.name)), ("orphan_tmp".toList, .strs orphans),
        ("all".toList, .bool allEntries)]
  else if !w.cfg.allowHardDelete then
    refuse .trashEmpty .allowHardDelete
      "trash-empty permanently purges entries and requires fsconnect.allow_hard_delete: true".toList
      "denied: trash-empty requires fsconnect.allow_hard_delete: true".toList []
  else do
    let rnote ← checkRate w h .trashEmpty
    let done ← Eff.fold (emptyEntry w h reason rnote) targets { purged := [], freedBytes := 0, freedFiles := 0 }
    let swept ← sweepOrphanTmp w h
    updateLedger w h (-done.freedBytes) (-done.freedFiles) none
    pure (.emptied reason done.purged swept)

def trashRestore (w : FsWriter) (h : Host) (entry reason : Text) (confirm overwrite : Bool) : Fs Reply := do
  let entries ← listEntries w h
  let te ← findEntry w.interp entries entry
  if !(← executable w .trashRestore reason confirm true) then
    dryrun .trashRestore reason
      [("entry".toList, .str entry), ("original_path".toList, .str te.originalPath),
        ("overwrite".toList, .bool overwrite)]
  else do
    let rnote ← checkRate w h .trashRestore
    let intentId ← draw h.uuid
    auditIntent .trashRestore reason te.originalPath intentId [("trash_entry".toList, .str entry)]
    let (_, dest) ← jail h (move w.interp.toPlatform (heldRoot w.path) (inTrash entry) te.originalPath overwrite)
    dropSidecar w h entry
    let rule := "allowed: writes_enabled + human reason + confirm(destructive) + trash-restore + ".toList ++ rnote
    auditApplied .trashRestore reason dest [] intentId rule
    pure (.applied .trashRestore reason [] intentId rule (.restored te.originalPath entry dest))

/-! ### Calls -/

inductive Call where
  | fsWrite (target : Text) (data : Bytes) (reason : Text) (confirm overwrite : Bool)
  | fsAppend (target : Text) (data : Bytes) (reason : Text) (confirm : Bool)
  | fsMkdir (target reason : Text) (confirm : Bool)
  | fsMove (src dst reason : Text) (confirm overwrite : Bool)
  | fsDelete (target reason : Text) (confirm purging : Bool)
  | trashEmpty (reason : Text) (confirm allEntries : Bool)
  | trashRestore (entry reason : Text) (confirm overwrite : Bool)

def FsWriter.perform (w : FsWriter) (h : Host) : Call → Fs Reply
  | .fsWrite target data reason confirm overwrite => Fsconnect.fsWrite w h target data reason confirm overwrite
  | .fsAppend target data reason confirm => Fsconnect.fsAppend w h target data reason confirm
  | .fsMkdir target reason confirm => Fsconnect.fsMkdir w h target reason confirm
  | .fsMove src dst reason confirm overwrite => Fsconnect.fsMove w h src dst reason confirm overwrite
  | .fsDelete target reason confirm purging => Fsconnect.fsDelete w h target reason confirm purging
  | .trashEmpty reason confirm allEntries => Fsconnect.trashEmpty w h reason confirm allEntries
  | .trashRestore entry reason confirm overwrite => Fsconnect.trashRestore w h entry reason confirm overwrite

end CyClaw.Fsconnect

/-
Staging of attachments (`telegram/media.py`), and what a poll has audited of it.

An update with an attachment and a confirmation is audited as requested; then its file is asked for,
downloaded and written by the file connector's own program, which has to say that it has applied the
write.  What is refused on the way, or staged, is audited as well.  A failure that is no refusal is not,
and where it is final the poll still acknowledges the update: so a request is answered in the log just
when no such failure meets it (`poll_answers_iff`).

What the Bot API, the file connector and the configuration file answer comes from outside
(`MediaSteps`).  The log keeps the events about requests.
-/
import CyClaw.Lib.PyValue
import CyClaw.Telegram.Offsets

namespace CyClaw.Telegram

open PyText

abbrev Bytes := List UInt8

/-- `telegram.media` of the configuration. -/
structure MediaConfig where
  enabled : Bool
  fsconnectRoot : Text
  maxDownloadBytes : ℕ

/-- `MAX_TELEGRAM_CLOUD_DOWNLOAD_BYTES`. -/
def maxCloudDownloadBytes : ℕ := 20 * 1024 * 1024

/-! ### Failures -/

/-- What a step of staging raises. -/
inductive StepError where
  /-- `TelegramRefused`, with the gate of its details where there is one. -/
  | refused (gate : Option Text)
  /-- `TelegramRuntimeError`. -/
  | runtime (retryable : Option Bool) (fatal : Bool)
  | other
deriving DecidableEq

def StepError.isRefusal : StepError → Bool
  | .refused _ => true
  | _ => false

/-- What the poller looks at. -/
def StepError.failure : StepError → Failure
  | .refused gate => .refused (if gate = some "rate_limit".toList then .rateLimit else .other)
  | .runtime retryable fatal => .runtime retryable fatal
  | .other => .other

def permanent : StepError := .runtime (some false) false

def transient : StepError := .runtime (some true) false

def refusal (gate : String) : StepError := .refused (some gate.toList)

/-! ### The outside -/

inductive ConfigFile where
  /-- It cannot be opened or is not UTF-8. -/
  | unavailable
  | raises
  | read (config : PyValue)

structure Descriptor where
  fileSize : Option ℕ
  filePath : Option Text

/-- What the program of the file connector is given. -/
structure FsWrite where
  root : Text
  target : Text
  reason : Text
  data : Bytes

/-- How it ends. -/
inductive Completed where
  | timeout
  | startFailed
  | exited (code : ℤ) (stdout : Bytes)

/-- What `json.loads` says of its output. -/
inductive Payload where
  | value (parsed : PyValue)
  /-- Not UTF-8, or no JSON. -/
  | unreadable
  | raises

structure MediaSteps where
  config : ConfigFile
  getFile : Text → Except StepError Descriptor
  downloadFile : Text → ℕ → Except StepError Bytes
  fsconnect : FsWrite → Completed

structure MediaHost where
  /-- A path as `_resolved_root` resolves it, part by part; `none` where that fails. -/
  resolve : Text → Option (List Text)
  repoRoot : List Text
  loads : Bytes → Payload
  sha256 : Bytes → Text

/-! ### The cap -/

def isTrue : Option PyValue → Bool
  | some (.bool b) => b
  | _ => false

/-- `_configured_writable_roots`. -/
def configuredWritableRoots (fsconnect : List (Text × PyValue)) : List Text :=
  match PyValue.get fsconnect "writable_roots" with
  | some (.list roots) =>
      roots.filterMap fun
        | .str entry => if strip entry = [] then none else some (strip entry)
        | .dict entry =>
            match PyValue.get entry "path" with
            | some (.str path) => if strip path = [] then none else some (strip path)
            | _ => none
        | _ => none
  | _ => []

/-- `_configured_read_roots`. -/
def configuredReadRoots (fsconnect : List (Text × PyValue)) : Except StepError (List Text) :=
  match PyValue.get fsconnect "allowed_roots" with
  | none => .ok []
  | some (.list roots) =>
      roots.mapM fun
        | .str entry => if strip entry = [] then .error (refusal "fsconnect_allowed_roots") else .ok (strip entry)
        | _ => .error (refusal "fsconnect_allowed_roots")
  | some _ => .error (refusal "fsconnect_allowed_roots")

/-- `_paths_overlap`. -/
def pathsOverlap (left right : List Text) : Bool := left.isPrefixOf right || right.isPrefixOf left

def resolvedRoot (host : MediaHost) (root : Text) : Except StepError (List Text) :=
  match host.resolve root with
  | some path => .ok path
  | none => .error (refusal "fsconnect_root")

def safetyGates : List String :=
  ["enabled", "writes_enabled", "strict_roots", "scan_content", "block_on_injection_flags"]

/-- The checks of the roots. -/
def checkRoots (host : MediaHost) (media : MediaConfig) (fsconnect : List (Text × PyValue)) :
    Except StepError Unit := do
  if media.fsconnectRoot ∉ configuredWritableRoots fsconnect then throw (refusal "fsconnect_root")
  let mediaRoot ← resolvedRoot host media.fsconnectRoot
  if pathsOverlap mediaRoot host.repoRoot ||
      pathsOverlap mediaRoot (host.repoRoot ++ ["data".toList, "corpus".toList]) then
    throw (refusal "fsconnect_root_scope")
  for readRoot in ← configuredReadRoots fsconnect do
    if pathsOverlap mediaRoot (← resolvedRoot host readRoot) then throw (refusal "fsconnect_root_overlap")

def maxWriteBytes (fsconnect : List (Text × PyValue)) : Except StepError ℕ := do
  let limited :=
    match PyValue.get fsconnect "write_rate_limit" with
    | some (.dict limit) => isTrue (PyValue.get limit "enabled")
    | _ => false
  if limited = false then throw (refusal "fsconnect_write_rate_limit")
  match PyValue.get fsconnect "max_write_bytes" with
  | some (.int n) => if n ≤ 0 then throw (refusal "fsconnect_max_write_bytes") else return n.toNat
  | _ => throw (refusal "fsconnect_max_write_bytes")

/-- `_media_cap`. -/
def mediaCap (host : MediaHost) (media : MediaConfig) (config : ConfigFile) : Except StepError ℕ :=
  match config with
  | .unavailable => .error permanent
  | .raises => .error .other
  | .read (.dict rootCfg) =>
      match PyValue.get rootCfg "fsconnect" with
      | some (.dict fsconnect) => do
          if let some key := safetyGates.find? fun key => !isTrue (PyValue.get fsconnect key) then
            throw (refusal ("fsconnect_" ++ key))
          checkRoots host media fsconnect
          return min media.maxDownloadBytes (min (← maxWriteBytes fsconnect) maxCloudDownloadBytes)
      | _ => .error (refusal "fsconnect_config")
  | .read _ => .error (refusal "fsconnect_config")

/-! ### Staging -/

/-- The audit events about a request. -/
inductive MediaAudit where
  | requested (chat : Text) (updateId : ℕ) (kind : Text) (declaredSize : Option ℕ) (maxBytes : ℕ)
  | refused (chat : Text) (updateId : ℕ) (kind gate : Text)
  | staged (chat : Text) (updateId : ℕ) (kind target : Text) (bytes : ℕ) (sha256 : Text)
deriving DecidableEq

/-- The event ends the request of an update. -/
def MediaAudit.Ends (uid : ℕ) : MediaAudit → Prop
  | .requested .. => False
  | .refused _ updateId _ _ => updateId = uid
  | .staged _ updateId _ _ _ _ => updateId = uid

structure Staged where
  target : Text
  bytes : ℕ
  sha256 : Text
  kind : Text

variable (host : MediaHost) (media : MediaConfig) (steps : MediaSteps)

/-- `_safe_target`. -/
def safeTarget (uid : ℕ) (a : MediaAttachment) : Text :=
  "telegram_".toList ++ Nat.toDigits 10 uid ++ '_' :: (host.sha256 (encode a.fileId)).take 20 ++
    if a.kind = "photo".toList then ".jpg".toList else ".bin".toList

/-- The output says that the write was applied. -/
def confirms : PyValue → Bool
  | .dict payload =>
      (match PyValue.get payload "status" with
        | some (.str status) => status = "applied".toList
        | _ => false) && isTrue (PyValue.get payload "executed")
  | _ => false

/-- `_run_fsconnect_write`. -/
def runFsconnectWrite (write : FsWrite) : Except StepError Unit :=
  match steps.fsconnect write with
  | .timeout => .error permanent
  | .startFailed => .error permanent
  | .exited code stdout =>
      if code = 4 then .error (refusal "fsconnect_write")
      else if code ≠ 0 then .error permanent
      else
        match host.loads stdout with
        | .value payload => if confirms payload then .ok () else .error permanent
        | .unreadable => .error permanent
        | .raises => .error .other

def fsWrite (a : MediaAttachment) (uid : ℕ) (confirmation : Text) (data : Bytes) : FsWrite where
  root := media.fsconnectRoot
  target := safeTarget host uid a
  reason := "telegram_media_confirm:".toList ++ (host.sha256 (encode confirmation)).take 16
  data

/-- The download and the write. -/
def downloadAndWrite (a : MediaAttachment) (uid : ℕ) (confirmation filePath : Text) (cap : ℕ) :
    Except StepError Bytes := do
  let data ← steps.downloadFile filePath cap
  if cap < data.length then throw (refusal "max_download_bytes")
  runFsconnectWrite host steps (fsWrite host media a uid confirmation data)
  return data

/-- The gate that a refusal after the request is audited with. -/
def auditGate : Option Text → Text
  | some gate => if strip gate = [] then "media_download".toList else gate
  | none => "media_download".toList

/-- What is audited of the download and the write. -/
def auditWrite (chat : Text) (a : MediaAttachment) (uid : ℕ) :
    Except StepError Bytes → List MediaAudit × Except StepError Staged
  | .error (.refused gate) => ([.refused chat uid a.kind (auditGate gate)], .error (.refused gate))
  | .error e => ([], .error e)
  | .ok data =>
      ([.staged chat uid a.kind (safeTarget host uid a) data.length (host.sha256 data)],
        .ok ⟨safeTarget host uid a, data.length, host.sha256 data, a.kind⟩)

/-- What `stage_attachment` does once the request is audited. -/
def afterRequest (chat : Text) (a : MediaAttachment) (uid : ℕ) (confirmation : Text) (cap : ℕ) :
    List MediaAudit × Except StepError Staged :=
  match steps.getFile a.fileId with
  | .error e => ([], .error e)
  | .ok descriptor =>
      if descriptor.fileSize.any (cap < ·) then
        ([.refused chat uid a.kind "max_download_bytes".toList], .error (refusal "max_download_bytes"))
      else
        match descriptor.filePath with
        | none => ([], .error transient)
        | some filePath =>
            auditWrite host chat a uid (downloadAndWrite host media steps a uid confirmation filePath cap)

variable (cfg : Config)

/-- `stage_attachment`. -/
def stageAttachment (chat chatType : Text) (uid : ℕ) (a : MediaAttachment) (confirmation : Text) :
    List MediaAudit × Except StepError Staged :=
  let refuse (gate : String) : List MediaAudit × Except StepError Staged :=
    ([.refused chat uid a.kind gate.toList], .error (refusal gate))
  if cfg.enabled = false then ([], .error (refusal "enabled"))
  else if cfg.mode ≠ .chat then ([], .error (refusal "mode"))
  else if cfg.isChatAllowed chat = false then refuse "allowlist"
  else if isPrivateChat chatType = false then refuse "private_chat"
  else if media.enabled = false then refuse "media_enabled"
  else if strip confirmation = [] then refuse "media_confirm"
  else
    match mediaCap host media steps.config with
    | .error (.refused gate) =>
        ([.refused chat uid a.kind (gate.getD "fsconnect_config".toList)], .error (.refused gate))
    | .error e => ([], .error e)
    | .ok cap =>
        if a.declaredSize.any (cap < ·) then refuse "max_download_bytes"
        else
          let after := afterRequest host media steps chat a uid confirmation cap
          (.requested chat uid a.kind a.declaredSize cap :: after.1, after.2)

/-! ### One update -/

/-- An update with what meets it. -/
structure MediaItem where
  update : Update
  io : Io
  steps : MediaSteps

variable (lower : Text → Text)

/-- An update whose attachment gets as far as being staged. -/
structure Confirmed (item : MediaItem) where
  chat : Text
  chatType : Text
  attachment : MediaAttachment
  updateId : ℕ
  confirmation : Text

/-- The gates of `poll_once` and `handle_inbound_media`. -/
def confirmed (item : MediaItem) : Option (Confirmed item) :=
  match messageFromUpdate item.update, mediaFromUpdate item.update, item.update.updateId with
  | none, some (chat, chatType, attachment, caption), some updateId =>
      match cfg.admits chat, item.io.admitted, saveConfirmation lower caption with
      | .ok (), true, some confirmation => some ⟨chat, chatType, attachment, updateId, confirmation⟩
      | _, _, _ => none
  | _, _, _ => none

def Confirmed.stage {item : MediaItem} (c : Confirmed item) : List MediaAudit × Except StepError Staged :=
  stageAttachment host media item.steps cfg c.chat c.chatType c.updateId c.attachment c.confirmation

/-- The update as the poller is given it: what staging comes to is what `stageAttachment` says. -/
def MediaItem.offered (item : MediaItem) : Update × Io :=
  (item.update,
    match confirmed cfg lower item with
    | none => item.io
    | some c =>
        { item.io with
          stage :=
            match (c.stage host media cfg).2 with
            | .ok _ => .ok ()
            | .error e => .error e.failure })

/-- The events of `handle_inbound_media` about a missing confirmation. -/
def unconfirmedAudits (item : MediaItem) : List MediaAudit :=
  match messageFromUpdate item.update, mediaFromUpdate item.update, item.update.updateId with
  | none, some (chat, _, attachment, caption), some updateId =>
      match cfg.admits chat, item.io.admitted, saveConfirmation lower caption with
      | .ok (), true, none => [.refused chat updateId attachment.kind "media_confirm".toList]
      | _, _, _ => []
  | _, _, _ => []

/-- What handling an update audits. -/
def MediaItem.audits (item : MediaItem) : List MediaAudit :=
  match confirmed cfg lower item with
  | none => unconfirmedAudits cfg lower item
  | some c => (c.stage host media cfg).1

/-! ### Failures that are not audited -/

/-- The program of the file connector ends with neither a refusal nor a confirmed write. -/
inductive WriteFails : Completed → StepError → Prop
  | timeout : WriteFails .timeout permanent
  | startFailed : WriteFails .startFailed permanent
  | code {code : ℤ} {stdout : Bytes} (hrefused : code ≠ 4) (hfailed : code ≠ 0) :
      WriteFails (.exited code stdout) permanent
  | unreadable {stdout : Bytes} (hloads : host.loads stdout = .unreadable) : WriteFails (.exited 0 stdout) permanent
  | unconfirmed {stdout : Bytes} {payload : PyValue} (hloads : host.loads stdout = .value payload)
      (hconfirms : confirms payload = false) : WriteFails (.exited 0 stdout) permanent
  | raises {stdout : Bytes} (hloads : host.loads stdout = .raises) : WriteFails (.exited 0 stdout) .other

/-- A step after the request fails, and that is not audited. -/
inductive FailsAfter (a : MediaAttachment) (uid : ℕ) (confirmation : Text) (cap : ℕ) : StepError → Prop
  | getFile {e : StepError} (hfile : steps.getFile a.fileId = .error e) : FailsAfter a uid confirmation cap e
  | noPath {descriptor : Descriptor} (hfile : steps.getFile a.fileId = .ok descriptor)
      (hsize : descriptor.fileSize.any (cap < ·) = false) (hpath : descriptor.filePath = none) :
      FailsAfter a uid confirmation cap transient
  | download {descriptor : Descriptor} {filePath : Text} {e : StepError}
      (hfile : steps.getFile a.fileId = .ok descriptor) (hsize : descriptor.fileSize.any (cap < ·) = false)
      (hpath : descriptor.filePath = some filePath) (hdownload : steps.downloadFile filePath cap = .error e)
      (hrefusal : e.isRefusal = false) : FailsAfter a uid confirmation cap e
  | write {descriptor : Descriptor} {filePath : Text} {data : Bytes} {e : StepError}
      (hfile : steps.getFile a.fileId = .ok descriptor) (hsize : descriptor.fileSize.any (cap < ·) = false)
      (hpath : descriptor.filePath = some filePath) (hdownload : steps.downloadFile filePath cap = .ok data)
      (hcap : data.length ≤ cap)
      (hwrite : WriteFails host (steps.fsconnect (fsWrite host media a uid confirmation data)) e) :
      FailsAfter a uid confirmation cap e

/-- The file connector has confirmed an applied write of what was downloaded, which is within the cap. -/
structure WriteConfirmed (a : MediaAttachment) (uid : ℕ) (confirmation : Text) (cap : ℕ) (data : Bytes) : Prop where
  downloaded : ∃ filePath, steps.downloadFile filePath cap = .ok data
  atMost : data.length ≤ cap
  applied : ∃ stdout payload, steps.fsconnect (fsWrite host media a uid confirmation data) = .exited 0 stdout ∧
    host.loads stdout = .value payload ∧ confirms payload = true

variable {host : MediaHost} {media : MediaConfig} {steps : MediaSteps} {cfg : Config} {lower : Text → Text}
  {a : MediaAttachment} {uid cap : ℕ} {chat confirmation : Text}

/-- How the write can go. -/
theorem runFsconnectWrite_cases (host : MediaHost) (steps : MediaSteps) (write : FsWrite) :
    (runFsconnectWrite host steps write = .ok () ∧ ∃ stdout payload, steps.fsconnect write = .exited 0 stdout ∧
      host.loads stdout = .value payload ∧ confirms payload = true) ∨
    runFsconnectWrite host steps write = .error (refusal "fsconnect_write") ∨
    ∃ e, runFsconnectWrite host steps write = .error e ∧ WriteFails host (steps.fsconnect write) e := by
  unfold runFsconnectWrite
  cases hrun : steps.fsconnect write with
  | timeout => exact Or.inr (Or.inr ⟨_, rfl, .timeout⟩)
  | startFailed => exact Or.inr (Or.inr ⟨_, rfl, .startFailed⟩)
  | exited code stdout =>
    dsimp only
    by_cases hrefused : code = 4
    · exact Or.inr (Or.inl (if_pos hrefused))
    · rw [if_neg hrefused]
      by_cases hfailed : code ≠ 0
      · exact Or.inr (Or.inr ⟨_, if_pos hfailed, .code hrefused hfailed⟩)
      · rw [if_neg hfailed]
        obtain rfl : code = 0 := not_not.mp hfailed
        cases hloads : host.loads stdout with
        | unreadable => exact Or.inr (Or.inr ⟨_, rfl, .unreadable hloads⟩)
        | raises => exact Or.inr (Or.inr ⟨_, rfl, .raises hloads⟩)
        | value payload =>
          dsimp only
          cases hconfirms : confirms payload with
          | false => exact Or.inr (Or.inr ⟨_, rfl, .unconfirmed hloads hconfirms⟩)
          | true => exact Or.inl ⟨rfl, stdout, payload, rfl, hloads, hconfirms⟩

theorem WriteFails.eq {write : FsWrite} {e : StepError} (h : WriteFails host (steps.fsconnect write) e) :
    runFsconnectWrite host steps write = .error e ∧ e.isRefusal = false := by
  unfold runFsconnectWrite
  generalize steps.fsconnect write = completed at h
  cases h with
  | timeout => exact ⟨rfl, rfl⟩
  | startFailed => exact ⟨rfl, rfl⟩
  | code hrefused hfailed =>
    dsimp only
    rw [if_neg hrefused, if_pos hfailed]
    exact ⟨rfl, rfl⟩
  | unreadable hloads =>
    dsimp only
    rw [hloads]
    exact ⟨rfl, rfl⟩
  | unconfirmed hloads hconfirms =>
    dsimp only
    rw [hloads]
    dsimp only
    rw [hconfirms]
    exact ⟨rfl, rfl⟩
  | raises hloads =>
    dsimp only
    rw [hloads]
    exact ⟨rfl, rfl⟩

theorem downloadAndWrite_error {filePath : Text} {e : StepError} (h : steps.downloadFile filePath cap = .error e) :
    downloadAndWrite host media steps a uid confirmation filePath cap = .error e := by
  rw [downloadAndWrite, h]
  rfl

theorem downloadAndWrite_large {filePath : Text} {data : Bytes} (h : steps.downloadFile filePath cap = .ok data)
    (hcap : cap < data.length) :
    downloadAndWrite host media steps a uid confirmation filePath cap = .error (refusal "max_download_bytes") := by
  rw [downloadAndWrite, h]
  simp [bind, Except.bind, hcap]
  rfl

theorem downloadAndWrite_ok {filePath : Text} {data : Bytes} (h : steps.downloadFile filePath cap = .ok data)
    (hcap : data.length ≤ cap) :
    downloadAndWrite host media steps a uid confirmation filePath cap =
      (runFsconnectWrite host steps (fsWrite host media a uid confirmation data)).map fun _ => data := by
  rw [downloadAndWrite, h]
  simp only [bind, Except.bind, if_neg (Nat.not_lt_of_le hcap), pure, Except.pure]
  cases runFsconnectWrite host steps (fsWrite host media a uid confirmation data) <;> rfl

theorem auditWrite_error {e : StepError} (h : e.isRefusal = false) :
    auditWrite host chat a uid (.error e) = ([], .error e) := by
  cases e with
  | refused gate => cases h
  | runtime retryable fatal => rfl
  | other => rfl

theorem afterRequest_path {descriptor : Descriptor} {filePath : Text} (hfile : steps.getFile a.fileId = .ok descriptor)
    (hsize : descriptor.fileSize.any (cap < ·) = false) (hpath : descriptor.filePath = some filePath) :
    afterRequest host media steps chat a uid confirmation cap =
      auditWrite host chat a uid (downloadAndWrite host media steps a uid confirmation filePath cap) := by
  rw [afterRequest, hfile]
  dsimp only
  rw [hsize, hpath]
  rfl

/-- A failure that is no refusal goes out as it is. -/
theorem FailsAfter.eq {e : StepError} (h : FailsAfter host media steps a uid confirmation cap e) :
    afterRequest host media steps chat a uid confirmation cap = ([], .error e) := by
  cases h with
  | getFile hfile => rw [afterRequest, hfile]
  | noPath hfile hsize hpath =>
    rw [afterRequest, hfile]
    dsimp only
    rw [hsize, hpath]
    rfl
  | download hfile hsize hpath hdownload hrefusal =>
    rw [afterRequest_path hfile hsize hpath, downloadAndWrite_error hdownload, auditWrite_error hrefusal]
  | write hfile hsize hpath hdownload hcap hwrite =>
    obtain ⟨hrun, hrefusal⟩ := hwrite.eq
    rw [afterRequest_path hfile hsize hpath, downloadAndWrite_ok hdownload hcap, hrun]
    exact auditWrite_error hrefusal

/-- What can come of a request: a failure of which nothing is audited, a refusal, or a confirmed write. -/
theorem afterRequest_cases (host : MediaHost) (media : MediaConfig) (steps : MediaSteps) (chat : Text)
    (a : MediaAttachment) (uid : ℕ) (confirmation : Text) (cap : ℕ) :
    (∃ e, FailsAfter host media steps a uid confirmation cap e) ∨
    (∃ gate, (afterRequest host media steps chat a uid confirmation cap).1 = [.refused chat uid a.kind gate]) ∨
    ∃ data, WriteConfirmed host media steps a uid confirmation cap data ∧
      (afterRequest host media steps chat a uid confirmation cap).1 =
        [.staged chat uid a.kind (safeTarget host uid a) data.length (host.sha256 data)] := by
  cases hfile : steps.getFile a.fileId with
  | error e => exact Or.inl ⟨e, .getFile hfile⟩
  | ok descriptor =>
    cases hsize : descriptor.fileSize.any (cap < ·) with
    | true =>
      refine Or.inr (Or.inl ⟨"max_download_bytes".toList, ?_⟩)
      rw [afterRequest, hfile]
      dsimp only
      rw [hsize]
      rfl
    | false =>
      cases hpath : descriptor.filePath with
      | none => exact Or.inl ⟨_, .noPath hfile hsize hpath⟩
      | some filePath =>
        rw [afterRequest_path hfile hsize hpath]
        cases hdownload : steps.downloadFile filePath cap with
        | error e =>
          cases e with
          | refused gate =>
            refine Or.inr (Or.inl ⟨auditGate gate, ?_⟩)
            rw [downloadAndWrite_error hdownload]
            rfl
          | runtime retryable fatal => exact Or.inl ⟨_, .download hfile hsize hpath hdownload rfl⟩
          | other => exact Or.inl ⟨_, .download hfile hsize hpath hdownload rfl⟩
        | ok data =>
          by_cases hcap : data.length ≤ cap
          · rw [downloadAndWrite_ok hdownload hcap]
            rcases runFsconnectWrite_cases host steps (fsWrite host media a uid confirmation data)
              with ⟨hrun, happlied⟩ | hrun | ⟨e, -, hfails⟩
            · refine Or.inr (Or.inr ⟨data, ⟨⟨filePath, hdownload⟩, hcap, happlied⟩, ?_⟩)
              rw [hrun]
              rfl
            · refine Or.inr (Or.inl ⟨auditGate (some "fsconnect_write".toList), ?_⟩)
              rw [hrun]
              rfl
            · exact Or.inl ⟨e, .write hfile hsize hpath hdownload hcap hfails⟩
          · refine Or.inr (Or.inl ⟨auditGate (some "max_download_bytes".toList), ?_⟩)
            rw [downloadAndWrite_large hdownload (Nat.lt_of_not_le hcap)]
            rfl

/-! ### What one update audits -/

section Item

variable {item : MediaItem} {c : Confirmed item}

/-- The update passes every gate up to its request. -/
structure Requests (host : MediaHost) (media : MediaConfig) (c : Confirmed item) (cap : ℕ) : Prop where
  isPrivate : isPrivateChat c.chatType = true
  enabled : media.enabled = true
  limit : mediaCap host media item.steps.config = .ok cap
  declared : c.attachment.declaredSize.any (cap < ·) = false

/-- The update's request is audited, and then a step fails of which nothing is. -/
def Silent (host : MediaHost) (media : MediaConfig) (cfg : Config) (lower : Text → Text) (item : MediaItem) (uid : ℕ)
    (e : StepError) : Prop :=
  ∃ c cap, confirmed cfg lower item = some c ∧ c.updateId = uid ∧ Requests host media c cap ∧
    FailsAfter host media item.steps c.attachment c.updateId c.confirmation cap e

/-- The event is the request of an update. -/
def MediaAudit.IsRequest (uid : ℕ) : MediaAudit → Prop
  | .requested _ updateId _ _ _ => updateId = uid
  | _ => False

theorem admits_ok (h : cfg.admits chat = .ok ()) :
    cfg.enabled = true ∧ cfg.mode = .chat ∧ cfg.isChatAllowed chat = true := by
  unfold Config.admits at h
  split at h
  · cases h
  · rename_i henabled
    split at h
    · cases h
    · rename_i hmode
      split at h
      · cases h
      · rename_i hallowed
        exact ⟨Bool.not_eq_false _ ▸ henabled, not_not.mp hmode, Bool.not_eq_false _ ▸ hallowed⟩

theorem strip_saveConfirmation {caption : Option Text} (h : saveConfirmation lower caption = some confirmation) :
    strip confirmation ≠ [] := by
  unfold saveConfirmation at h
  cases caption with
  | none => cases h
  | some caption =>
    dsimp only at h
    split at h
    · cases h
    · split at h
      · cases h
      · rename_i hreason
        cases h
        rw [strip, strip, stripBy_stripBy]
        exact fun hnil => hreason (Or.inr hnil)

theorem confirmed_eq (h : confirmed cfg lower item = some c) :
    cfg.admits c.chat = .ok () ∧ item.io.admitted = true ∧ strip c.confirmation ≠ [] ∧
      item.update.updateId = some c.updateId ∧ messageFromUpdate item.update = none ∧
      ∃ caption, mediaFromUpdate item.update = some (c.chat, c.chatType, c.attachment, caption) ∧
        saveConfirmation lower caption = some c.confirmation := by
  unfold confirmed at h
  split at h
  · rename_i chat chatType attachment caption updateId hmessage hmedia hid
    split at h
    · rename_i confirmation hadmits hadmitted hsave
      cases h
      exact ⟨hadmits, hadmitted, strip_saveConfirmation hsave, hid, hmessage, caption, hmedia, hsave⟩
    · cases h
  · cases h

/-- Where staging gets to the request, and where it does not. -/
theorem stage_cases (host : MediaHost) (media : MediaConfig) (h : confirmed cfg lower item = some c) :
    (∃ cap, Requests host media c cap ∧ c.stage host media cfg =
      (.requested c.chat c.updateId c.attachment.kind c.attachment.declaredSize cap ::
        (afterRequest host media item.steps c.chat c.attachment c.updateId c.confirmation cap).1,
        (afterRequest host media item.steps c.chat c.attachment c.updateId c.confirmation cap).2)) ∨
    ((∀ cap, ¬ Requests host media c cap) ∧
      ∀ event ∈ (c.stage host media cfg).1, ∃ gate, event = .refused c.chat c.updateId c.attachment.kind gate) := by
  obtain ⟨hadmits, -, hconfirmation, -⟩ := confirmed_eq h
  obtain ⟨henabled, hmode, hallowed⟩ := admits_ok hadmits
  have hsingle : ∀ {gate : Text}, ∀ event ∈ [MediaAudit.refused c.chat c.updateId c.attachment.kind gate],
      ∃ gate, event = .refused c.chat c.updateId c.attachment.kind gate := by
    intro gate event hevent
    exact ⟨gate, List.mem_singleton.mp hevent⟩
  unfold Confirmed.stage stageAttachment
  dsimp only
  rw [if_neg (by rw [henabled]; decide), if_neg (not_not.mpr hmode), if_neg (by rw [hallowed]; decide)]
  cases hprivate : isPrivateChat c.chatType with
  | false =>
    refine Or.inr ⟨fun cap hreq => ?_, ?_⟩
    · rw [hreq.isPrivate] at hprivate
      cases hprivate
    · rw [if_pos rfl]
      exact hsingle
  | true =>
    rw [if_neg (by decide)]
    cases hmedia : media.enabled with
    | false =>
      refine Or.inr ⟨fun cap hreq => ?_, ?_⟩
      · rw [hreq.enabled] at hmedia
        cases hmedia
      · rw [if_pos rfl]
        exact hsingle
    | true =>
      rw [if_neg (by decide), if_neg hconfirmation]
      cases hcap : mediaCap host media item.steps.config with
      | error e =>
        refine Or.inr ⟨fun cap hreq => ?_, ?_⟩
        · rw [hreq.limit] at hcap
          cases hcap
        · cases e with
          | refused gate => exact hsingle
          | runtime retryable fatal => exact fun event hevent => absurd hevent List.not_mem_nil
          | other => exact fun event hevent => absurd hevent List.not_mem_nil
      | ok cap =>
        dsimp only
        cases hdeclared : c.attachment.declaredSize.any (cap < ·) with
        | true =>
          refine Or.inr ⟨fun cap' hreq => ?_, ?_⟩
          · obtain rfl : cap = cap' := Except.ok.inj (hcap.symm.trans hreq.limit)
            rw [hreq.declared] at hdeclared
            cases hdeclared
          · rw [if_pos rfl]
            exact hsingle
        | false =>
          rw [if_neg (by decide)]
          exact Or.inl ⟨cap, ⟨hprivate, hmedia, hcap, hdeclared⟩, rfl⟩

theorem audits_confirmed (h : confirmed cfg lower item = some c) :
    item.audits host media cfg lower = (c.stage host media cfg).1 := by
  rw [MediaItem.audits, h]

/-- Without a confirmation, at most that is audited. -/
theorem audits_unconfirmed (h : confirmed cfg lower item = none) : ∀ event ∈ item.audits host media cfg lower,
    ∃ chat uid kind gate, event = .refused chat uid kind gate ∧ item.update.updateId = some uid := by
  rw [MediaItem.audits, h]
  dsimp only
  unfold unconfirmedAudits
  split
  · rename_i hid
    split
    · intro event hevent
      exact ⟨_, _, _, _, List.mem_singleton.mp hevent, hid⟩
    · exact fun event hevent => absurd hevent List.not_mem_nil
  · exact fun event hevent => absurd hevent List.not_mem_nil

/-- A failure of which nothing is audited leaves the request alone in the log, and is how the update ends. -/
theorem Silent.audits {e : StepError} (h : Silent host media cfg lower item uid e) :
    ∃ event, item.audits host media cfg lower = [event] ∧ event.IsRequest uid := by
  obtain ⟨c, cap, hc, rfl, hreq, hfails⟩ := h
  rcases stage_cases host media hc with ⟨cap', hreq', hstage⟩ | ⟨hnone, -⟩
  · obtain rfl : cap = cap' := Except.ok.inj (hreq.limit.symm.trans hreq'.limit)
    rw [audits_confirmed hc, hstage, hfails.eq]
    exact ⟨_, rfl, rfl⟩
  · exact absurd hreq (hnone cap)

theorem Silent.updateId {e : StepError} (h : Silent host media cfg lower item uid e) :
    item.update.updateId = some uid := by
  obtain ⟨c, -, hc, rfl, -, -⟩ := h
  exact (confirmed_eq hc).2.2.2.1

theorem Silent.outcome {e : StepError} (h : Silent host media cfg lower item uid e) (b : Bridge) :
    (handleUpdate lower cfg (item.offered host media cfg lower).1 (item.offered host media cfg lower).2 b).2 =
      .failed e.failure := by
  obtain ⟨c, cap, hc, rfl, hreq, hfails⟩ := h
  obtain ⟨hadmits, hadmitted, -, hid, hmessage, caption, hmedia, hsave⟩ := confirmed_eq hc
  have hstage : (c.stage host media cfg).2 = .error e := by
    rcases stage_cases host media hc with ⟨cap', hreq', hstage⟩ | ⟨hnone, -⟩
    · obtain rfl : cap = cap' := Except.ok.inj (hreq.limit.symm.trans hreq'.limit)
      rw [hstage, hfails.eq]
    · exact absurd hreq (hnone cap)
  rw [handleUpdate, MediaItem.offered]
  dsimp only
  rw [hc]
  dsimp only
  rw [hmessage]
  dsimp only
  rw [hmedia]
  dsimp only
  rw [if_neg (by rw [hid]; exact Option.some_ne_none _), handleInboundMedia, hadmits]
  dsimp only
  rw [if_neg (by rw [hadmitted]; decide), hsave, hstage]
  rfl

/-- Every event is about the update's own id. -/
theorem Ends.updateId {event : MediaAudit} (hevent : event ∈ item.audits host media cfg lower) (h : event.Ends uid) :
    item.update.updateId = some uid := by
  cases hc : confirmed cfg lower item with
  | none =>
    obtain ⟨chat, uid', kind, gate, rfl, hid⟩ := audits_unconfirmed hc event hevent
    rw [hid, show uid' = uid from h]
  | some c =>
    have hid := (confirmed_eq hc).2.2.2.1
    rw [audits_confirmed hc] at hevent
    rcases stage_cases host media hc with ⟨cap, -, hstage⟩ | ⟨-, hrefused⟩
    · rw [hstage] at hevent
      rcases List.mem_cons.mp hevent with rfl | hevent
      · exact h.elim
      · rcases afterRequest_cases host media item.steps c.chat c.attachment c.updateId c.confirmation cap with
          ⟨e, hfails⟩ | ⟨gate, hafter⟩ | ⟨data, -, hafter⟩
        · rw [hfails.eq] at hevent
          cases hevent
        · rw [hafter, List.mem_singleton] at hevent
          subst hevent
          rw [hid, show c.updateId = uid from h]
        · rw [hafter, List.mem_singleton] at hevent
          subst hevent
          rw [hid, show c.updateId = uid from h]
    · obtain ⟨gate, rfl⟩ := hrefused event hevent
      rw [hid, show c.updateId = uid from h]

/-- A request is answered in the log, unless a step fails silently. -/
theorem answered_or_silent {event : MediaAudit} (hevent : event ∈ item.audits host media cfg lower)
    (h : event.IsRequest uid) :
    (∃ e, Silent host media cfg lower item uid e) ∨ ∃ event ∈ item.audits host media cfg lower, event.Ends uid := by
  cases hc : confirmed cfg lower item with
  | none =>
    obtain ⟨chat, uid', kind, gate, rfl, -⟩ := audits_unconfirmed hc event hevent
    exact h.elim
  | some c =>
    rw [audits_confirmed hc] at hevent ⊢
    rcases stage_cases host media hc with ⟨cap, hreq, hstage⟩ | ⟨-, hrefused⟩
    · rw [hstage] at hevent ⊢
      have hown : c.updateId = uid := by
        rcases List.mem_cons.mp hevent with rfl | hevent
        · exact h
        · rcases afterRequest_cases host media item.steps c.chat c.attachment c.updateId c.confirmation cap with
            ⟨e, hfails⟩ | ⟨gate, hafter⟩ | ⟨data, -, hafter⟩
          · rw [hfails.eq] at hevent
            cases hevent
          · rw [hafter, List.mem_singleton] at hevent
            subst hevent
            exact h.elim
          · rw [hafter, List.mem_singleton] at hevent
            subst hevent
            exact h.elim
      rcases afterRequest_cases host media item.steps c.chat c.attachment c.updateId c.confirmation cap with
        ⟨e, hfails⟩ | ⟨gate, hafter⟩ | ⟨data, -, hafter⟩
      · exact Or.inl ⟨e, c, cap, hc, hown, hreq, hfails⟩
      · rw [hafter]
        exact Or.inr ⟨_, List.mem_cons_of_mem _ List.mem_cons_self, hown⟩
      · rw [hafter]
        exact Or.inr ⟨_, List.mem_cons_of_mem _ List.mem_cons_self, hown⟩
    · obtain ⟨gate, rfl⟩ := hrefused event hevent
      exact h.elim

/-- An attachment is audited as staged once its write is confirmed. -/
def StagedSoundly (host : MediaHost) (media : MediaConfig) (cfg : Config) (lower : Text → Text) (item : MediaItem) :
    MediaAudit → Prop
  | .staged _ uid _ target bytes _ => ∃ c cap data, confirmed cfg lower item = some c ∧ c.updateId = uid ∧
      Requests host media c cap ∧ WriteConfirmed host media item.steps c.attachment uid c.confirmation cap data ∧
      target = safeTarget host uid c.attachment ∧ bytes = data.length ∧ bytes ≤ cap
  | _ => True

theorem stagedSoundly_of_audited {event : MediaAudit} (hevent : event ∈ item.audits host media cfg lower) :
    StagedSoundly host media cfg lower item event := by
  cases hc : confirmed cfg lower item with
  | none =>
    obtain ⟨chat, uid', kind, gate, rfl, -⟩ := audits_unconfirmed hc event hevent
    exact trivial
  | some c =>
    rw [audits_confirmed hc] at hevent
    rcases stage_cases host media hc with ⟨cap, hreq, hstage⟩ | ⟨-, hrefused⟩
    · rw [hstage] at hevent
      rcases List.mem_cons.mp hevent with rfl | hevent
      · exact trivial
      · rcases afterRequest_cases host media item.steps c.chat c.attachment c.updateId c.confirmation cap with
          ⟨e, hfails⟩ | ⟨gate, hafter⟩ | ⟨data, hwrite, hafter⟩
        · rw [hfails.eq] at hevent
          cases hevent
        · rw [hafter, List.mem_singleton] at hevent
          subst hevent
          exact trivial
        · rw [hafter, List.mem_singleton] at hevent
          subst hevent
          exact ⟨c, cap, data, hc, rfl, hreq, hwrite, rfl, rfl, hwrite.atMost⟩
    · obtain ⟨gate, rfl⟩ := hrefused event hevent
      exact trivial

end Item

/-! ### A poll -/

variable (host : MediaHost) (media : MediaConfig) (cfg : Config) (lower : Text → Text)

/-- The updates that a poll looks at, each with how it ends: the last one may stop it. -/
def looked : List MediaItem → Bridge → List (MediaItem × Outcome)
  | [], _ => []
  | item :: rest, b =>
      let (b, o) := handleUpdate lower cfg (item.offered host media cfg lower).1 (item.offered host media cfg lower).2 b
      (item, o) :: if o.settled then looked rest b else []

/-- What the updates that were looked at leave in the audit log. -/
def auditLog (items : List MediaItem) (b : Bridge) : List MediaAudit :=
  (looked host media cfg lower items b).flatMap fun x => x.1.audits host media cfg lower

/-- The poll raises because of an update. -/
def Raises (items : List MediaItem) (b : Bridge) : Prop :=
  ∃ x ∈ looked host media cfg lower items b, ∃ f, x.2 = .failed f ∧ f.escapes = true

/-- The offset once these updates were looked at: it moves past each that is settled and has an id. -/
def acknowledged (offset : Option ℕ) (xs : List (MediaItem × Outcome)) : Option ℕ :=
  xs.foldl (fun next x => if x.2.settled then advance x.1.update next else next) offset

/-- The offset lies past an update. -/
def Passes (next : Option ℕ) (uid : ℕ) : Prop := ∃ n, next = some n ∧ uid < n

/-- In a poll that returns, a request whose update is acknowledged is ended in the log, and what is audited as staged
has been written. -/
def Answers (offset : Option ℕ) (items : List MediaItem) (b : Bridge) : Prop :=
  ∀ b' poll, pollOnce lower cfg offset (.batch (items.map fun item => item.offered host media cfg lower)) b =
      (b', .ok poll) →
    (∀ uid, (∃ event ∈ auditLog host media cfg lower items b, event.IsRequest uid) → Passes poll.nextOffset uid →
      ∃ event ∈ auditLog host media cfg lower items b, event.Ends uid) ∧
    ∀ x ∈ looked host media cfg lower items b, ∀ event ∈ x.1.audits host media cfg lower,
      StagedSoundly host media cfg lower x.1 event

section Poll

variable {host : MediaHost} {media : MediaConfig} {cfg : Config} {lower : Text → Text} {item : MediaItem}
  {items : List MediaItem} {b b' : Bridge} {o : Outcome} {offset next : Option ℕ} {x y : MediaItem × Outcome} {uid : ℕ}

theorem looked_settled
    (hresult : handleUpdate lower cfg (item.offered host media cfg lower).1 (item.offered host media cfg lower).2 b =
      (b', o)) (hsettled : o.settled = true) :
    looked host media cfg lower (item :: items) b = (item, o) :: looked host media cfg lower items b' := by
  rw [looked, hresult]
  dsimp only
  rw [if_pos hsettled]

theorem looked_stopped
    (hresult : handleUpdate lower cfg (item.offered host media cfg lower).1 (item.offered host media cfg lower).2 b =
      (b', o)) (hsettled : o.settled = false) :
    looked host media cfg lower (item :: items) b = [(item, o)] := by
  rw [looked, hresult]
  dsimp only
  rw [if_neg (by rw [hsettled]; decide)]

/-- What is looked at is of the batch, and ended as its handler says. -/
theorem looked_mem (h : x ∈ looked host media cfg lower items b) :
    x.1 ∈ items ∧ ∃ b', (handleUpdate lower cfg (x.1.offered host media cfg lower).1
      (x.1.offered host media cfg lower).2 b').2 = x.2 := by
  induction items generalizing b with
  | nil => cases h
  | cons item rest ih =>
    obtain ⟨⟨b', o⟩, hresult⟩ : ∃ r, handleUpdate lower cfg (item.offered host media cfg lower).1
      (item.offered host media cfg lower).2 b = r := ⟨_, rfl⟩
    cases hsettled : o.settled with
    | true =>
      rw [looked_settled hresult hsettled] at h
      rcases List.mem_cons.mp h with rfl | h
      · exact ⟨List.mem_cons_self, b, by rw [hresult]⟩
      · obtain ⟨hmem, hends⟩ := ih h
        exact ⟨List.mem_cons_of_mem _ hmem, hends⟩
    | false =>
      rw [looked_stopped hresult hsettled, List.mem_singleton] at h
      subst h
      exact ⟨List.mem_cons_self, b, by rw [hresult]⟩

theorem Silent.ends {e : StepError} (h : Silent host media cfg lower x.1 uid e)
    (hx : x ∈ looked host media cfg lower items b) : x.2 = .failed e.failure := by
  obtain ⟨-, b', hends⟩ := looked_mem hx
  exact hends.symm.trans (h.outcome b')

/-- **What a poll comes to**: it raises, or returns with the updates it looked at. -/
theorem pollLoop_looked (host : MediaHost) (media : MediaConfig) (items : List MediaItem) (next : Option ℕ) (handled : List (Update × Outcome)) (b : Bridge) :
    (Raises host media cfg lower items b ∧ ∃ b' f, pollLoop lower cfg
      (items.map fun item => item.offered host media cfg lower) next handled b = (b', .error f)) ∨
    (¬ Raises host media cfg lower items b ∧ ∃ b' poll, pollLoop lower cfg
      (items.map fun item => item.offered host media cfg lower) next handled b = (b', .ok poll) ∧
      poll.nextOffset = acknowledged next (looked host media cfg lower items b)) := by
  induction items generalizing next handled b with
  | nil =>
    refine Or.inr ⟨?_, b, ⟨next, handled⟩, rfl, rfl⟩
    rintro ⟨x, hx, -⟩
    cases hx
  | cons item rest ih =>
    obtain ⟨⟨b', o⟩, hresult⟩ : ∃ r, handleUpdate lower cfg (item.offered host media cfg lower).1
      (item.offered host media cfg lower).2 b = r := ⟨_, rfl⟩
    rw [List.map_cons]
    rcases pollLoop_cases lower cfg (item.offered host media cfg lower).1 (item.offered host media cfg lower).2
      (rest.map fun item => item.offered host media cfg lower) next handled b hresult with
      ⟨hsettled, heq⟩ | ⟨f, rfl, hescapes, heq⟩ | ⟨hsettled, heq⟩
    · have hhead : ∀ f, o = .failed f → f.escapes = false := by
        rintro f rfl
        simp only [Outcome.settled, Bool.and_eq_true, Bool.not_eq_true'] at hsettled
        exact hsettled.1
      rw [Raises, heq, looked_settled hresult hsettled]
      rcases ih (advance (item.offered host media cfg lower).1 next)
        (handled ++ [((item.offered host media cfg lower).1, o)]) b' with
        ⟨hraises, herror⟩ | ⟨hreturns, b'', poll, hok, hnext⟩
      · obtain ⟨x, hx, hfailed⟩ := hraises
        exact Or.inl ⟨⟨x, List.mem_cons_of_mem _ hx, hfailed⟩, herror⟩
      · refine Or.inr ⟨?_, b'', poll, hok, ?_⟩
        · rintro ⟨x, hx, f, hf, hescapes⟩
          rcases List.mem_cons.mp hx with rfl | hx
          · rw [hhead f hf] at hescapes
            cases hescapes
          · exact hreturns ⟨x, hx, f, hf, hescapes⟩
        · rw [hnext, acknowledged, acknowledged, List.foldl_cons]
          dsimp only
          rw [if_pos hsettled]
          rfl
    · refine Or.inl ⟨⟨(item, .failed f), ?_, f, rfl, hescapes⟩, b', f, heq⟩
      rw [looked_stopped hresult (by simp [Outcome.settled, hescapes])]
      exact List.mem_singleton_self _
    · refine Or.inr ⟨?_, b', _, heq, ?_⟩
      · rintro ⟨x, hx, f, hf, hescapes⟩
        rw [looked_stopped hresult hsettled, List.mem_singleton] at hx
        subst hx
        obtain rfl : o = .failed f := hf
        rw [pollLoop, hresult] at heq
        dsimp only at heq
        rw [if_pos hescapes] at heq
        cases heq
      · rw [looked_stopped hresult hsettled, acknowledged, List.foldl_cons]
        dsimp only
        rw [if_neg (by rw [hsettled]; decide)]
        rfl

theorem pollOnce_eq {batch : List (Update × Io)} (henabled : cfg.enabled = true) (hmode : cfg.mode = .chat) :
    pollOnce lower cfg offset (.batch batch) b = pollLoop lower cfg batch offset [] b := by
  unfold pollOnce
  rw [if_neg (by rw [henabled]; decide), if_neg (not_not.mpr hmode)]

theorem Silent.running {e : StepError} (h : Silent host media cfg lower item uid e) :
    cfg.enabled = true ∧ cfg.mode = .chat := by
  obtain ⟨c, -, hc, -, -, -⟩ := h
  obtain ⟨henabled, hmode, -⟩ := admits_ok (confirmed_eq hc).1
  exact ⟨henabled, hmode⟩

theorem mem_auditLog {event : MediaAudit} : event ∈ auditLog host media cfg lower items b ↔
    ∃ x ∈ looked host media cfg lower items b, event ∈ x.1.audits host media cfg lower := List.mem_flatMap

/-- Every request that the offset passes is ended, unless a step has failed silently. -/
theorem answers_iff :
    Answers host media cfg lower offset items b ↔ Raises host media cfg lower items b ∨
      ∀ x ∈ looked host media cfg lower items b, ∀ uid e, Silent host media cfg lower x.1 uid e →
        Passes (acknowledged offset (looked host media cfg lower items b)) uid →
        ∃ y ∈ looked host media cfg lower items b, ∃ event ∈ y.1.audits host media cfg lower, event.Ends uid := by
  constructor
  · intro h
    rcases pollLoop_looked host media items offset [] b with
      ⟨hraises, -⟩ | ⟨-, b', poll, hok, hnext⟩
    · exact Or.inl hraises
    · refine Or.inr ?_
      intro x hx uid e hsilent hpasses
      obtain ⟨henabled, hmode⟩ := hsilent.running
      obtain ⟨hanswered, -⟩ := h b' poll ((pollOnce_eq henabled hmode).trans hok)
      obtain ⟨request, haudits, hrequest⟩ := hsilent.audits
      have hlog : request ∈ auditLog host media cfg lower items b := by
        refine mem_auditLog.mpr ⟨x, hx, ?_⟩
        rw [haudits]
        exact List.mem_singleton_self _
      obtain ⟨event, hevent, hends⟩ := hanswered uid ⟨request, hlog, hrequest⟩ (hnext ▸ hpasses)
      obtain ⟨y, hy, hevent⟩ := mem_auditLog.mp hevent
      exact ⟨y, hy, event, hevent, hends⟩
  · intro h b' poll hok
    refine ⟨?_, fun x _ event hevent => stagedSoundly_of_audited hevent⟩
    rintro uid ⟨event, hevent, hrequest⟩ hpasses
    obtain ⟨x, hx, hevent⟩ := mem_auditLog.mp hevent
    rcases answered_or_silent hevent hrequest with ⟨e, hsilent⟩ | ⟨answer, hanswer, hends⟩
    · obtain ⟨henabled, hmode⟩ := hsilent.running
      rw [pollOnce_eq henabled hmode] at hok
      rcases pollLoop_looked host media items offset [] b with
        ⟨-, b'', f, herror⟩ | ⟨hreturns, b'', poll', hok', hnext⟩
      · rw [herror] at hok
        cases hok
      · rw [hok'] at hok
        obtain rfl : poll' = poll := Except.ok.inj (Prod.mk.inj hok).2
        rw [hnext] at hpasses
        obtain ⟨y, hy, event, hevent, hends⟩ := (h.resolve_left hreturns) x hx uid e hsilent hpasses
        exact ⟨event, mem_auditLog.mpr ⟨y, hy, hevent⟩, hends⟩
    · exact ⟨answer, mem_auditLog.mpr ⟨x, hx, hanswer⟩, hends⟩

/-! ### Updates in order -/

theorem notBelow_acknowledged (host : MediaHost) (media : MediaConfig) (cfg : Config) (lower : Text → Text) (b : Bridge)
    (h : Delivered next (items.map MediaItem.update)) :
    NotBelow next (acknowledged next (looked host media cfg lower items b)) := by
  induction items generalizing next b with
  | nil => exact NotBelow.refl next
  | cons item rest ih =>
    obtain ⟨⟨b', o⟩, hresult⟩ : ∃ r, handleUpdate lower cfg (item.offered host media cfg lower).1
      (item.offered host media cfg lower).2 b = r := ⟨_, rfl⟩
    cases hsettled : o.settled with
    | true =>
      rw [looked_settled hresult hsettled, acknowledged, List.foldl_cons]
      dsimp only
      rw [if_pos hsettled]
      exact (notBelow_advance h).trans (ih b' h.tail)
    | false =>
      rw [looked_stopped hresult hsettled, acknowledged, List.foldl_cons]
      dsimp only
      rw [if_neg (by rw [hsettled]; decide)]
      exact NotBelow.refl next

/-- In order, the offset passes just the updates that are settled. -/
theorem passes_iff (h : Delivered next (items.map MediaItem.update)) (hx : x ∈ looked host media cfg lower items b)
    (hid : x.1.update.updateId = some uid) :
    Passes (acknowledged next (looked host media cfg lower items b)) uid ↔ x.2.settled = true := by
  induction items generalizing next b with
  | nil => cases hx
  | cons item rest ih =>
    obtain ⟨⟨b', o⟩, hresult⟩ : ∃ r, handleUpdate lower cfg (item.offered host media cfg lower).1
      (item.offered host media cfg lower).2 b = r := ⟨_, rfl⟩
    cases hsettled : o.settled with
    | true =>
      rw [looked_settled hresult hsettled] at hx
      rw [looked_settled hresult hsettled, acknowledged, List.foldl_cons]
      dsimp only
      rw [if_pos hsettled]
      rcases List.mem_cons.mp hx with rfl | hx
      · refine ⟨fun _ => hsettled, fun _ => ?_⟩
        obtain ⟨n, hn, hle⟩ := notBelow_acknowledged host media cfg lower b' h.tail (uid + 1) (by rw [advance, hid]; rfl)
        exact ⟨n, hn, hle⟩
      · exact ih h.tail hx
    | false =>
      rw [looked_stopped hresult hsettled, List.mem_singleton] at hx
      subst hx
      rw [looked_stopped hresult hsettled, acknowledged, List.foldl_cons]
      dsimp only at hid ⊢
      rw [if_neg (by rw [hsettled]; decide), List.foldl_nil]
      constructor
      · rintro ⟨n, hn, hlt⟩
        have hle := h.due n hn uid (by simp [hid])
        omega
      · intro htrue
        rw [hsettled] at htrue
        cases htrue

/-- In order, an update is looked at once. -/
theorem looked_unique (h : Delivered next (items.map MediaItem.update))
    (hx : x ∈ looked host media cfg lower items b) (hy : y ∈ looked host media cfg lower items b)
    (hxid : x.1.update.updateId = some uid) (hyid : y.1.update.updateId = some uid) : x = y := by
  induction items generalizing next b with
  | nil => cases hx
  | cons item rest ih =>
    obtain ⟨⟨b', o⟩, hresult⟩ : ∃ r, handleUpdate lower cfg (item.offered host media cfg lower).1
      (item.offered host media cfg lower).2 b = r := ⟨_, rfl⟩
    -- What comes after the head has a greater id.
    have hlater : ∀ z ∈ looked host media cfg lower rest b', item.update.updateId = some uid →
        z.1.update.updateId ≠ some uid := by
      intro z hz hid hzid
      have hmem : z.1.update ∈ rest.map MediaItem.update := List.mem_map_of_mem (looked_mem hz).1
      have hle := h.tail.due (uid + 1) (by rw [advance, hid]; rfl) uid (List.mem_filterMap.mpr ⟨_, hmem, hzid⟩)
      omega
    cases hsettled : o.settled with
    | true =>
      rw [looked_settled hresult hsettled] at hx hy
      rcases List.mem_cons.mp hx with rfl | hx
      · rcases List.mem_cons.mp hy with rfl | hy
        · rfl
        · exact absurd hyid (hlater y hy hxid)
      · rcases List.mem_cons.mp hy with rfl | hy
        · exact absurd hxid (hlater x hx hyid)
        · exact ih h.tail hx hy
    | false =>
      rw [looked_stopped hresult hsettled, List.mem_singleton] at hx hy
      rw [hx, hy]

/-- A silent failure is never made up for. -/
theorem Silent.unanswered {e : StepError} (h : Silent host media cfg lower item uid e) {event : MediaAudit}
    (hevent : event ∈ item.audits host media cfg lower) : ¬ event.Ends uid := by
  obtain ⟨request, haudits, hrequest⟩ := h.audits
  rw [haudits, List.mem_singleton] at hevent
  subst hevent
  cases event with
  | requested => exact id
  | refused => exact hrequest.elim
  | staged => exact hrequest.elim

/-- **A poll answers every request it acknowledges** just where no step after the request fails for good without a
refusal; and, for updates that come in any order, just where none that fails so is passed and left without an answer. -/
theorem poll_answers_iff (host : MediaHost) (media : MediaConfig) (cfg : Config) (lower : Text → Text)
    (offset : Option ℕ) (items : List MediaItem) (b : Bridge) :
    (Delivered offset (items.map MediaItem.update) →
      (Answers host media cfg lower offset items b ↔ Raises host media cfg lower items b ∨
        ∀ x ∈ looked host media cfg lower items b, ∀ uid e, Silent host media cfg lower x.1 uid e →
          e.failure.retryable = true)) ∧
    (Answers host media cfg lower offset items b ↔ Raises host media cfg lower items b ∨
      ∀ x ∈ looked host media cfg lower items b, ∀ uid e, Silent host media cfg lower x.1 uid e →
        Passes (acknowledged offset (looked host media cfg lower items b)) uid →
        ∃ y ∈ looked host media cfg lower items b, ∃ event ∈ y.1.audits host media cfg lower, event.Ends uid) := by
  refine ⟨?_, answers_iff⟩
  intro hdelivered
  rw [answers_iff]
  by_cases hraises : Raises host media cfg lower items b
  · exact ⟨fun _ => Or.inl hraises, fun _ => Or.inl hraises⟩
  · have hsettled : ∀ x ∈ looked host media cfg lower items b, ∀ uid e, Silent host media cfg lower x.1 uid e →
        (x.2.settled = true ↔ ¬ e.failure.retryable = true) := by
      intro x hx uid e hsilent
      have hends := hsilent.ends hx
      have hescapes : ¬ e.failure.escapes = true := fun hescapes => hraises ⟨x, hx, _, hends, hescapes⟩
      rw [hends]
      simp [Outcome.settled, hescapes]
    refine or_congr Iff.rfl ⟨?_, ?_⟩
    · intro h x hx uid e hsilent
      by_contra hfinal
      have hpasses := (passes_iff hdelivered hx hsilent.updateId).mpr ((hsettled x hx uid e hsilent).mpr hfinal)
      obtain ⟨y, hy, event, hevent, hends⟩ := h x hx uid e hsilent hpasses
      obtain rfl : x = y := looked_unique hdelivered hx hy hsilent.updateId (Ends.updateId hevent hends)
      exact hsilent.unanswered hevent hends
    · intro h x hx uid e hsilent hpasses
      have htrue := (passes_iff hdelivered hx hsilent.updateId).mp hpasses
      exact absurd (h x hx uid e hsilent) ((hsettled x hx uid e hsilent).mp htrue)

end Poll

/-! ### A file that cannot be had -/

def stagingFsconnect : List (Text × PyValue) :=
  safetyGates.map (fun key => (key.toList, .bool true)) ++
    [("writable_roots".toList, .list [.str "/inbox".toList]), ("max_write_bytes".toList, .int 1000),
      ("write_rate_limit".toList, .dict [("enabled".toList, .bool true)])]

def stagingHost : MediaHost where
  resolve path := some [path]
  repoRoot := ["/repo".toList]
  loads _ := .unreadable
  sha256 _ := []

def stagingMedia : MediaConfig := ⟨true, "/inbox".toList, 1000⟩

/-- A photo to be saved, whose file the Bot API refuses with a permanent error. -/
def unavailablePhoto : MediaItem where
  update := ⟨some 7, some ⟨some ['7'], some "private".toList, none, some ⟨"photo".toList, ['f'], none⟩,
    some "/save --confirm keep".toList⟩⟩
  io := .fine 1
  steps :=
    { config := .read (.dict [("fsconnect".toList, .dict stagingFsconnect)])
      getFile := fun _ => .error permanent
      downloadFile := fun _ _ => .error permanent
      fsconnect := fun _ => .timeout }

/-- It is acknowledged, and its request is the last that is heard of it. -/
theorem unavailable_photo_lost :
    Delivered none [unavailablePhoto.update] ∧
    auditLog stagingHost stagingMedia hybridConfig id [unavailablePhoto] ⟨fun _ => .missing, []⟩ =
      [.requested ['7'] 7 "photo".toList none 1000] ∧
    ¬ Answers stagingHost stagingMedia hybridConfig id none [unavailablePhoto] ⟨fun _ => .missing, []⟩ := by
  have hlog : auditLog stagingHost stagingMedia hybridConfig id [unavailablePhoto] ⟨fun _ => .missing, []⟩ =
      [.requested ['7'] 7 "photo".toList none 1000] := by decide +kernel
  have hnext : (pollOnce id hybridConfig none
      (.batch ([unavailablePhoto].map fun item => item.offered stagingHost stagingMedia hybridConfig id))
      ⟨fun _ => .missing, []⟩).2.toOption.bind Poll.nextOffset = some 8 := by decide +kernel
  refine ⟨by decide +kernel, hlog, ?_⟩
  intro h
  obtain ⟨⟨b', result⟩, hpoll⟩ : ∃ r, pollOnce id hybridConfig none
    (.batch ([unavailablePhoto].map fun item => item.offered stagingHost stagingMedia hybridConfig id))
    ⟨fun _ => .missing, []⟩ = r := ⟨_, rfl⟩
  rw [hpoll] at hnext
  cases result with
  | error f => cases hnext
  | ok poll =>
    obtain ⟨hanswered, -⟩ := h b' poll hpoll
    rw [hlog] at hanswered
    obtain ⟨event, hevent, hends⟩ := hanswered 7 ⟨_, List.mem_singleton_self _, rfl⟩ ⟨8, hnext, by decide⟩
    rw [List.mem_singleton] at hevent
    subst hevent
    exact hends

end CyClaw.Telegram

/-
A sync run.

`_run_sync_locked` starts rclone up to `sync_retries + 1` times under one wall-clock
budget, harvests the log after each attempt, and writes one summary row at its end, from
the normal path or from the handler of an exception.  Everything it asks of the outside is
in `World`: the clock readings, how each attempt ends and what log it leaves, what hashing
and the integrity check come to.  A run is a function of these, and leaves behind the list
of its `Effect`s in the order they happen.
-/
import CyClaw.Sync.Log
import Mathlib.Data.Rat.Defs
import Mathlib.Algebra.Order.Ring.Rat

namespace CyClaw.Sync

open PyText Regex
open CyClaw.Sql (caseless caselessWord pyWord)

/-! ### Configuration -/

inductive Direction where
  | pull | bisync
deriving DecidableEq, Repr

/-- The fields of `RcloneConfig` a run reads, with what `__post_init__` refuses otherwise. -/
structure RcloneConfig where
  direction : Direction
  remote : List Char
  localPath : List Char
  syncTimeoutSec : ℕ
  syncRetries : ℕ
  retryBackoffSec : ℚ
  postSyncCheck : Bool
  backoff_nonneg : 0 ≤ retryBackoffSec

/-! ### The safety fuse -/

/-- `_SAFETY_ABORT_LINE_RE`. -/
def safetyAbortLineRe : Re :=
  .seq (caselessWord "max") <| .seq (.alt (caselessWord "imum") .eps) <|
  .seq (.plus (.cls fun c => isSpace c || c == '-')) <|
  .seq (.alt (caselessWord "delete") (caselessWord "transfer")) <|
  .seq (.alt (caselessWord "s") .eps) <| .seq .boundary <|
  .seq (.star (.cls fun c => c != '\r' && c != '\n')) <|
    alts (["limit", "reached", "exceeded", "threshold", "abort"].map caselessWord)

/-- `_SAFETY_ABORT_TOO_MANY_DELETES_RE`. -/
def tooManyDeletesRe : Re :=
  .seq (caselessWord "too") <| .seq (.plus (.cls isSpace)) <|
  .seq (caselessWord "many") <| .seq (.plus (.cls isSpace)) (caselessWord "deletes")

/-- `_detect_safety_abort`. -/
def detectSafetyAbort (uw : Char → Bool) (errors : List (List Char)) (stderr : List Char) : Bool :=
  (errors ++ if stderr = [] then [] else [stderr]).any fun h =>
    hits (pyWord uw) safetyAbortLineRe h || hits (pyWord uw) tooManyDeletesRe h

/-- `_RCLONE_TRANSIENT_EXIT`. -/
def rcloneTransientExit : ℤ := 5

/-- `_RCLONE_SAFETY_FUSE_EXIT`. -/
def rcloneSafetyFuseExit : ℤ := 8

/-! ### What the run is told -/

/-- The type name of an exception. -/
inductive ErrorType where
  | syncRuntimeError
  | rcloneNotInstalledError
  | other (name : List Char)
deriving DecidableEq, Repr

/-- The types that derive from `SyncError`. -/
def ErrorType.isSyncError : ErrorType → Bool
  | .syncRuntimeError => true
  | .rcloneNotInstalledError => true
  | .other _ => false

/-- How `subprocess.run` ends. -/
inductive Ending where
  | exited (code : ℤ) (stderr : List Char)
  | timedOut
  | missing
  | subprocessError
  | raised (name : List Char)
deriving DecidableEq, Repr

structure Attempt where
  /-- The clock before the attempt. -/
  now : ℚ
  /-- The log can be opened for writing. -/
  clears : Bool
  ending : Ending
  /-- The log the attempt leaves. -/
  log : LogFile
  /-- The clock once the attempt has failed. -/
  later : ℚ
  /-- The exception of `time.sleep`, if it raises one. -/
  sleepRaises : Option (List Char)

/-- `CheckResult`, with the number of its error lines. -/
structure CheckResult where
  ok : Bool
  missingLocal : ℕ
  missingRemote : ℕ
  differences : ℕ
  errorsN : ℕ
deriving DecidableEq, Repr

/-- How `rclone check` ends. -/
inductive CheckEnding where
  | compared (result : CheckResult)
  | timedOut
  | subprocessFailed
  | raised (name : List Char)

/-- What hashing one file comes to. -/
inductive Hashing where
  | hashed (digest : List Char)
  | skipped
  | raised (name : List Char)

structure World where
  /-- The exception of `write_filter_file`, if it raises one. -/
  filterRaises : Option (List Char)
  startedAt : ℚ
  finishedAt : ℚ
  failedAt : ℚ
  /-- The clock when the budget starts to run. -/
  start : ℚ
  /-- The log an earlier run left. -/
  staleLog : LogFile
  attempts : ℕ → Attempt
  hash : List Char → Hashing
  checkNow : ℚ
  check : CheckEnding

/-! ### What the run does -/

structure Counts where
  added : ℕ
  modified : ℕ
  deleted : ℕ
deriving DecidableEq, Repr

/-- `sync_completed` or `sync_failed`. -/
structure Terminal where
  completed : Bool
  /-- `none` stands for `dry-run`. -/
  direction : Option Direction
  durationSec : ℚ
  rcloneExitCode : Option ℤ
  counts : Counts
  errorsN : ℕ
  abortedForSafety : Bool
  dryRun : Bool
  corpusChanged : Bool
  check : Option CheckResult
  errorType : Option ErrorType

inductive CheckEvent where
  | skippedBudgetExhausted | timeout | subprocessFailed | ok | differences

inductive Row where
  | started (direction : Direction) (dryRun : Bool) (remote localPath : List Char)
  | retry (direction : Direction) (attempt maxAttempts : ℕ) (exitCode : ℤ)
  | check (event : CheckEvent) (result : CheckResult)
  | file (event : FileEvent) (base : List Char)
  | terminal (t : Terminal)

/-- One start of the transfer, how it ended and the log it left. -/
structure Launch where
  timeout : Option ℚ
  ending : Ending
  log : LogFile

inductive Effect where
  | audit (row : Row)
  /-- The monotonic clock is read. -/
  | clock (now : ℚ)
  | launch (l : Launch)
  | sleep (duration : ℚ)
  | check (timeout : Option ℚ)

/-- The variables of the run, with the log on disk and what has been done so far. -/
structure State where
  completed : Option (ℤ × List Char)
  eventsByPath : List FileEvent
  finalErrors : List (List Char)
  log : LogFile
  effects : List Effect

def State.does (s : State) (es : List Effect) : State := { s with effects := s.effects ++ es }

/-- Where an attempt leaves the loop. -/
inductive After where
  | again
  | stop
  | raises (e : ErrorType)
deriving DecidableEq

/-- `SyncResult`.  `none` stands for the direction `dry-run`. -/
structure SyncResult where
  success : Bool
  direction : Option Direction
  startedAt : ℚ
  finishedAt : ℚ
  rcloneExitCode : ℤ
  events : List FileEvent
  errors : List (List Char)
  abortedForSafety : Bool
  dryRun : Bool
  corpusChanged : Bool
  checkResult : Option CheckResult

/-- An exception on its way out, with the detail the handler adds to a `SyncError`. -/
structure Raised where
  type : ErrorType
  corpusChanged : Option Bool

section Run

variable (uw : Char → Bool) (cfg : RcloneConfig) (dryRun : Bool) (w : World)

def attemptsOf : ℕ := cfg.syncRetries + 1

def hasBudget : Bool := 0 < cfg.syncTimeoutSec

/-- `deadline - time.monotonic()` for a reading, where there is a budget. -/
def remaining (now : ℚ) : Option ℚ :=
  if hasBudget cfg then some (w.start + cfg.syncTimeoutSec - now) else none

/-- `if not dry_run: audit_log(row)`. -/
def auditUnlessDry (row : Row) : List Effect := if dryRun then [] else [.audit row]

/-- The clock is read only where there is a budget. -/
def clockIfBudget (now : ℚ) : List Effect := if hasBudget cfg then [.clock now] else []

/-- How an attempt that did not return surfaces. -/
def Ending.error : Ending → Option ErrorType
  | .exited _ _ => none
  | .timedOut => some .syncRuntimeError
  | .missing => some .rcloneNotInstalledError
  | .subprocessError => some .syncRuntimeError
  | .raised name => some (.other name)

/-- `cfg.retry_backoff_sec * (2 ** (attempt - 1))`. -/
def backoff (attempt : ℕ) : ℚ := cfg.retryBackoffSec * 2 ^ (attempt - 1)

/-- From a transient failure to the next attempt. -/
def backOff (k : ℕ) (a : Attempt) (code : ℤ) (s : State) : State × After :=
  let s := s.does (auditUnlessDry dryRun (.retry cfg.direction k (attemptsOf cfg) code))
  let s := s.does (clockIfBudget cfg a.later)
  if (remaining cfg w a.later).any fun r => decide (r ≤ 0) || decide (r ≤ backoff cfg k) then
    (s, .stop)
  else
    match a.sleepRaises with
    | some name => (s, .raises (.other name))
    | none => (s.does [.sleep (backoff cfg k)], .again)

/-- From the end of `subprocess.run` to the end of the attempt. -/
def concludeAttempt (k : ℕ) (a : Attempt) (s : State) : State × After :=
  match a.ending with
  | .exited code stderr =>
      let s := { s with completed := some (code, stderr) }
      match parseLog uw s.log with
      | .error name => (s, .raises (.other name))
      | .ok (events, errors) =>
          let s := { s with eventsByPath := harvest events s.eventsByPath, finalErrors := errors }
          if code ≠ rcloneTransientExit ∨ k = attemptsOf cfg then (s, .stop)
          else backOff cfg dryRun w k a code s
  | ending => (s, .raises (ending.error.getD .syncRuntimeError))

/-- One round of the retry loop. -/
def attemptOnce (k : ℕ) (a : Attempt) (s : State) : State × After :=
  let s := s.does (clockIfBudget cfg a.now)
  if (remaining cfg w a.now).any fun r => decide (r ≤ 0) then (s, .raises .syncRuntimeError)
  else if a.clears = false then (s, .raises .syncRuntimeError)
  else
    let timeout := (remaining cfg w a.now).map fun r => min r (cfg.syncTimeoutSec : ℚ)
    let s := { s with log := a.log }
    concludeAttempt uw cfg dryRun w k a (s.does [.launch ⟨timeout, a.ending, a.log⟩])

/-- The retry loop, with the attempts still allowed. -/
def attemptLoop : ℕ → ℕ → State → State × Option ErrorType
  | 0, _, s => (s, none)
  | left + 1, k, s =>
      match attemptOnce uw cfg dryRun w k (w.attempts k) s with
      | (s, .again) => attemptLoop left (k + 1) s
      | (s, .stop) => (s, none)
      | (s, .raises e) => (s, some e)

/-- `hash_changed_files`: the events in order, those added or modified with a digest where
there is one. -/
def hashChangedFiles (hash : List Char → Hashing) :
    List FileEvent → Except (List Char) (List FileEvent)
  | [] => .ok []
  | ev :: evs =>
      if ev.kind = .deleted then (hashChangedFiles hash evs).map (ev :: ·)
      else
        match hash ev.path with
        | .hashed d => (hashChangedFiles hash evs).map ({ ev with sha256 := some d } :: ·)
        | .skipped => (hashChangedFiles hash evs).map (ev :: ·)
        | .raised name => .error name

/-- `run_post_sync_check`, with the timeout it gives to `rclone check`. -/
def runPostSyncCheck (left : Option ℚ) : List Effect × Except (List Char) CheckResult :=
  let failed : CheckResult := ⟨false, 0, 0, 0, 1⟩
  if left.any fun r => decide (r ≤ 0) then
    ([.audit (.check .skippedBudgetExhausted failed)], .ok failed)
  else
    match w.check with
    | .timedOut => ([.check left, .audit (.check .timeout failed)], .ok failed)
    | .subprocessFailed => ([.check left, .audit (.check .subprocessFailed failed)], .ok failed)
    | .raised name => ([.check left], .error name)
    | .compared r =>
        ([.check left, .audit (.check (if r.ok then .ok else .differences) r)], .ok r)

/-- `event_counts`. -/
def eventCounts (events : List FileEvent) : Counts where
  added := events.countP (·.kind = .added)
  modified := events.countP (·.kind = .modified)
  deleted := events.countP (·.kind = .deleted)

/-- `duration_sec`, before it is rounded to milliseconds. -/
def durationSec (finishedAt : ℚ) : ℚ := max 0 (finishedAt - w.startedAt)

/-- `SyncResult.to_audit_dict`. -/
def toAuditDict (r : SyncResult) : Terminal where
  completed := r.success
  direction := r.direction
  durationSec := durationSec w r.finishedAt
  rcloneExitCode := some r.rcloneExitCode
  counts := eventCounts r.events
  errorsN := r.errors.length
  abortedForSafety := r.abortedForSafety
  dryRun := r.dryRun
  corpusChanged := r.corpusChanged
  check := r.checkResult
  errorType := none

/-- The integrity check, where the run asks for one. -/
def checked (s : State) (r : SyncResult) : State × Except ErrorType SyncResult :=
  if r.success && !dryRun && cfg.postSyncCheck then
    let s := s.does (clockIfBudget cfg w.checkNow)
    let left := (remaining cfg w w.checkNow).map fun r => min r (cfg.syncTimeoutSec : ℚ)
    match runPostSyncCheck w left with
    | (es, .ok c) => (s.does es, .ok { r with checkResult := some c })
    | (es, .error name) => (s.does es, .error (.other name))
  else (s, .ok r)

/-- From the end of the loop to the summary row. -/
def summarize (s : State) : State × Except ErrorType SyncResult :=
  match s.completed with
  | none => (s, .error .syncRuntimeError)
  | some (code, stderr) =>
      match hashChangedFiles w.hash s.eventsByPath with
      | .error name => (s, .error (.other name))
      | .ok events =>
          let result : SyncResult :=
            { success := code = 0
              direction := if dryRun then none else some cfg.direction
              startedAt := w.startedAt
              finishedAt := w.finishedAt
              rcloneExitCode := code
              events := events
              errors := s.finalErrors
              abortedForSafety :=
                code = rcloneSafetyFuseExit || detectSafetyAbort uw s.finalErrors stderr
              dryRun := dryRun
              corpusChanged := corpusChanged events
              checkResult := none }
          match checked cfg dryRun w s result with
          | (s, .error e) => (s, .error e)
          | (s, .ok result) =>
              let rows := (events.map fun ev => Effect.audit (.file ev cfg.localPath)) ++
                [.audit (.terminal (toAuditDict w result))]
              (s.does (if dryRun then [] else rows), .ok result)

/-- The handler: the log is read once more, and the failure gets its row. -/
def handleFailure (e : ErrorType) (s : State) : State × Raised :=
  let events := match parseLog uw s.log with
    | .ok (tail, _) => harvest tail s.eventsByPath
    | .error _ => s.eventsByPath
  let changed := corpusChanged events
  let row : Terminal :=
    { completed := false
      direction := some cfg.direction
      durationSec := durationSec w w.failedAt
      rcloneExitCode := s.completed.map Prod.fst
      counts := eventCounts events
      errorsN := s.finalErrors.length
      abortedForSafety := false
      dryRun := dryRun
      corpusChanged := changed
      check := none
      errorType := some e }
  (s.does (auditUnlessDry dryRun (.terminal row)),
    ⟨e, if e.isSyncError then some changed else none⟩)

/-- The body of the `try`. -/
def body (s : State) : State × Except ErrorType SyncResult :=
  match attemptLoop uw cfg dryRun w (attemptsOf cfg) 1 s with
  | (s, some e) => (s, .error e)
  | (s, none) => summarize uw cfg dryRun w s

/-- The state in which the `try` is entered. -/
def begun : State where
  completed := none
  eventsByPath := []
  finalErrors := []
  log := w.staleLog
  effects :=
    auditUnlessDry dryRun (.started cfg.direction dryRun cfg.remote cfg.localPath) ++
      clockIfBudget cfg w.start

/-- `_run_sync_locked`: what it does, and what it returns or raises. -/
def runSyncLocked : List Effect × Except Raised SyncResult :=
  match w.filterRaises with
  | some name => ([], .error ⟨.other name, none⟩)
  | none =>
      match body uw cfg dryRun w (begun cfg dryRun w) with
      | (s, .ok result) => (s.effects, .ok result)
      | (s, .error e) =>
          let (s, raised) := handleFailure uw cfg dryRun w e s
          (s.effects, .error raised)

end Run

end CyClaw.Sync

/-
The Telegram poller (`telegram/runner.py`).

One poll fetches a batch of updates and handles them in order.  How an update ends decides
whether it is acknowledged, whether the batch stops there, or whether the poll raises and
returns nothing.  The loop around it saves the offset before it polls again, and is started
anew, from the saved offset, after it has raised.

What the limiter, the file system, the Bot API and `POST /query` answer comes from outside
(`Io`).  The case tables behind `str.lower` are a parameter.  The log is not in the source:
it keeps the consents that were written and the queries that were posted, newest first.
-/
import CyClaw.Telegram.State
import CyClaw.Lib.Runs

namespace CyClaw.Telegram

open PyText

inductive Mode where
  | notify
  | chat
deriving DecidableEq

structure Config where
  enabled : Bool
  mode : Mode
  allowedChatIds : List Text
  maxMessageChars : ℕ
  allowHybridConfirm : Bool
  hybridConfirmTtlSec : ℕ

def Config.isChatAllowed (cfg : Config) (chat : Text) : Bool := cfg.allowedChatIds.contains chat

/-- The gates that both handlers pass first. -/
def Config.admits (cfg : Config) (chat : Text) : Except Failure Unit :=
  if cfg.enabled = false then .error (.refused .enabled)
  else if cfg.mode ≠ .chat then .error (.refused .mode)
  else if cfg.isChatAllowed chat = false then .error (.refused .allowlist)
  else .ok ()

/-! ### Updates -/

structure MediaAttachment where
  kind : Text
  fileId : Text
  declaredSize : Option ℕ
deriving DecidableEq

/-- What the poller reads of a message, as far as it is there and of its type. -/
structure Message where
  chatId : Option Text
  chatType : Option Text
  text : Option Text
  attachment : Option MediaAttachment
  caption : Option Text
deriving DecidableEq

/-- An update, without a message if it is anything else. -/
structure Update where
  updateId : Option ℕ
  message : Option Message
deriving DecidableEq

/-- `_message_from_update`: chat, text and chat type. -/
def messageFromUpdate (u : Update) : Option (Text × Text × Text) :=
  match u.message with
  | some { chatId := some chat, text := some text, chatType, .. } =>
      if strip text = [] then none else some (chat, strip text, chatType.getD [])
  | _ => none

/-- `_media_from_update`: chat, chat type, attachment and caption. -/
def mediaFromUpdate (u : Update) : Option (Text × Text × MediaAttachment × Option Text) :=
  match u.message with
  | some { chatId := some chat, chatType := some chatType, attachment := some a, caption, .. } =>
      some (chat, chatType, a, caption)
  | _ => none

/-! ### Commands -/

inductive Command where
  | help
  | status
  | id
  | online
  | save
deriving DecidableEq

/-- The name of a command with what follows its word: `/name`, `/name@bot`. -/
def commandWord : Text → Option (Text × Text)
  | '/' :: rest =>
      let word := rest.takeWhile fun c => !isSpace c
      let suffix := word.dropWhile (· ≠ '@')
      if suffix = [] ∨ 2 ≤ suffix.length then
        some (word.takeWhile (· ≠ '@'), rest.dropWhile fun c => !isSpace c)
      else none
  | _ => none

variable (lower : Text → Text)

/-- What `_CMD_RE` and the comparison of the name in lower case recognise. -/
def commandOf (text : Text) : Option Command :=
  match commandWord (strip text) with
  | none => none
  | some (name, _) =>
      if lower name = "help".toList then some .help
      else if lower name = "id".toList then some .id
      else if lower name = "status".toList then some .status
      else if lower name = "online".toList then some .online
      else if lower name = "save".toList then some .save
      else none

/-- The provider of an exact `/online on <grok|claude>`.  `_ONLINE_CMD_RE` stops at a newline. -/
def onlineProvider (text : Text) : Option Provider :=
  match commandWord (strip text) with
  | none => none
  | some (_, after) =>
      let args := after.dropWhile isSpace
      if '\n' ∈ args then none
      else
        match split args with
        | [on, provider] =>
            if lower on = "on".toList then
              if lower provider = "grok".toList then some .grok
              else if lower provider = "claude".toList then some .claude
              else none
            else none
        | _ => none

/-- `save_confirmation` -/
def saveConfirmation (caption : Option Text) : Option Text :=
  match caption with
  | none => none
  | some caption =>
      let stripped := strip caption
      let command := stripped.takeWhile fun c => !isSpace c
      let rest := (stripped.dropWhile fun c => !isSpace c).dropWhile isSpace
      let flag := rest.takeWhile fun c => !isSpace c
      let reason := (rest.dropWhile fun c => !isSpace c).dropWhile isSpace
      if lower command ≠ "/save".toList ∧ ¬ "/save@".toList <+: lower command then none
      else if flag ≠ "--confirm".toList ∨ strip reason = [] then none
      else some (strip reason)

def isPrivateChat (chatType : Text) : Bool := chatType = "private".toList

/-! ### Handlers -/

/-- What the outside answers while an update is handled. -/
structure Io where
  /-- The inbound limiter. -/
  admitted : Bool
  now : ℚ
  grant : FileOp
  readable : Bool
  claim : FileOp
  query : Except Failure Unit
  stage : Except Failure Unit
  send : Except Failure Unit

inductive Effect where
  /-- A consent was written. -/
  | granted (chat : Text) (updateId : Option ℕ)
  /-- `POST /query` -/
  | posted (chat : Text) (updateId : Option ℕ) (userConfirmedOnline : Bool)
deriving DecidableEq

structure Bridge where
  sessions : Sessions
  log : List Effect

/-- The replies to commands. -/
inductive Reply where
  | help
  | chatId
  | health
  | hybridDisabled
  | privateChatOnly
  | usage
  | armed (provider : Provider)
  | saveHint

variable (cfg : Config)

/-- `_online_command` -/
def onlineCommand (chat chatType text : Text) (uid : Option ℕ) (io : Io) (b : Bridge) :
    Bridge × Except Failure Reply :=
  if cfg.allowHybridConfirm = false then (b, .ok .hybridDisabled)
  else if isPrivateChat chatType = false then (b, .ok .privateChatOnly)
  else
    match onlineProvider lower text with
    | none => (b, .ok .usage)
    | some provider =>
        let (sessions, confirmUntil) :=
          grantHybridConfirm chat provider cfg.hybridConfirmTtlSec io.now io.grant b.sessions
        let log := if io.grant.applied then .granted chat uid :: b.log else b.log
        (⟨sessions, log⟩, confirmUntil.map fun _ => .armed provider)

/-- `_dispatch_command` -/
def dispatchCommand (chat chatType text : Text) (uid : Option ℕ) (io : Io) (b : Bridge) :
    Bridge × Except Failure (Option Reply) :=
  match commandOf lower text with
  | none => (b, .ok none)
  | some .help => (b, .ok (some .help))
  | some .id => (b, .ok (some .chatId))
  | some .status => (b, .ok (some .health))
  | some .online =>
      let (b, reply) := onlineCommand lower cfg chat chatType text uid io b
      (b, reply.map some)
  | some .save => (b, .ok (some .saveHint))

/-- `post_query`, which refuses an overlong query before it is posted. -/
def postQuery (chat text : Text) (uid : Option ℕ) (userConfirmedOnline : Bool) (io : Io) (b : Bridge) :
    Bridge × Except Failure Unit :=
  if cfg.maxMessageChars < (strip text).length then (b, .error (.refused .maxMessageChars))
  else ({ b with log := .posted chat uid userConfirmedOnline :: b.log }, io.query)

/-- Claim a consent where one counts: in a private chat, with the master switch on. -/
def claimConsent (chat chatType : Text) (io : Io) (b : Bridge) :
    Bridge × Except Failure (Option Provider) :=
  if cfg.allowHybridConfirm && isPrivateChat chatType then
    let (sessions, provider) := claimHybridConfirm chat io.now io.readable io.claim b.sessions
    ({ b with sessions }, provider)
  else (b, .ok none)

/-- What `handle_inbound_text` does with a message that is no command. -/
def answerQuery (chat text chatType : Text) (uid : Option ℕ) (io : Io) (b : Bridge) :
    Bridge × Except Failure Unit :=
  match claimConsent cfg chat chatType io b with
  | (b, .error f) => (b, .error f)
  | (b, .ok provider) =>
    match postQuery cfg chat text uid provider.isSome io b with
    | (b, .error f) => (b, .error f)
    | (b, .ok ()) => (b, io.send)

/-- `handle_inbound_text` -/
def handleInboundText (chat text chatType : Text) (uid : Option ℕ) (io : Io) (b : Bridge) :
    Bridge × Except Failure Unit :=
  match cfg.admits chat with
  | .error f => (b, .error f)
  | .ok () =>
    if io.admitted = false then (b, .error (.refused .rateLimit))
    else
      match dispatchCommand lower cfg chat chatType text uid io b with
      | (b, .error f) => (b, .error f)
      | (b, .ok (some _)) => (b, io.send)
      | (b, .ok none) => answerQuery cfg chat text chatType uid io b

/-- `handle_inbound_media` -/
def handleInboundMedia (chat : Text) (caption : Option Text) (io : Io) : Except Failure Unit :=
  match cfg.admits chat with
  | .error f => .error f
  | .ok () =>
    if io.admitted = false then .error (.refused .rateLimit)
    else if (saveConfirmation lower caption).isNone then .error (.refused .mediaConfirm)
    else
      match io.stage with
      | .error f => .error f
      | .ok () => io.send

/-! ### One poll -/

/-- How an update ends. -/
inductive Outcome where
  | ignored
  | success
  | failed (f : Failure)
deriving DecidableEq

def Outcome.of : Except Failure Unit → Outcome
  | .ok () => .success
  | .error f => .failed f

/-- The body of the loop of `poll_once`, up to what it makes of the outcome. -/
def handleUpdate (u : Update) (io : Io) (b : Bridge) : Bridge × Outcome :=
  match messageFromUpdate u with
  | some (chat, text, chatType) =>
      let (b, result) := handleInboundText lower cfg chat text chatType u.updateId io b
      (b, .of result)
  | none =>
    match mediaFromUpdate u with
    | some (chat, _, _, caption) =>
        if u.updateId = none then (b, .failed (.refused .updateId))
        else (b, .of (handleInboundMedia lower cfg chat caption io))
    | none => (b, .ignored)

/-- The failures that `poll_once` lets out. -/
def Failure.escapes : Failure → Bool
  | .refused _ => false
  | .runtime _ fatal => fatal
  | .other => true

/-- The other failures after which an update is left for later. -/
def Failure.retryable : Failure → Bool
  | .refused gate => gate = .rateLimit
  | .runtime retryable _ => retryable ≠ some false
  | .other => false

/-- What `poll_once` returns, with every update it looked at and how it ended. -/
structure Poll where
  nextOffset : Option ℕ
  handled : List (Update × Outcome)

def advance (u : Update) (next : Option ℕ) : Option ℕ := u.updateId.map (· + 1) <|> next

/-- The loop of `poll_once`. -/
def pollLoop : List (Update × Io) → Option ℕ → List (Update × Outcome) → Bridge →
    Bridge × Except Failure Poll
  | [], next, handled, b => (b, .ok ⟨next, handled⟩)
  | (u, io) :: rest, next, handled, b =>
      match handleUpdate lower cfg u io b with
      | (b, .failed f) =>
          if f.escapes then (b, .error f)
          else if f.retryable then (b, .ok ⟨next, handled ++ [(u, .failed f)]⟩)
          else pollLoop rest (advance u next) (handled ++ [(u, .failed f)]) b
      | (b, outcome) => pollLoop rest (advance u next) (handled ++ [(u, outcome)]) b

/-- What `get_updates` gives. -/
inductive Fetch where
  | failed (f : Failure)
  | batch (updates : List (Update × Io))

/-- `poll_once` -/
def pollOnce (offset : Option ℕ) (fetch : Fetch) (b : Bridge) : Bridge × Except Failure Poll :=
  if cfg.enabled = false then (b, .error (.refused .enabled))
  else if cfg.mode ≠ .chat then (b, .error (.refused .mode))
  else
    match fetch with
    | .failed f => (b, .error f)
    | .batch updates => pollLoop lower cfg updates offset [] b

/-! ### The loop around it -/

/-- Where `poll_forever` is. -/
inductive Phase where
  | polling
  /-- In the loop that saves an offset. -/
  | saving (offset : ℕ)
  | stopped
deriving DecidableEq

/-- The poller, the offset file as `load_offset` reads it, and the polls that returned. -/
structure Poller where
  file : Option ℕ
  offset : Option ℕ
  phase : Phase
  bridge : Bridge
  polls : List (List Update × Poll)

inductive Event where
  | poll (fetch : Fetch)
  /-- One try of `save_offset`. -/
  | save (ok : Bool)
  /-- `max_iterations` is reached. -/
  | leave
  | crash
  /-- `poll_forever` is called. -/
  | start

def Fetch.updates : Fetch → List Update
  | .failed _ => []
  | .batch updates => updates.map Prod.fst

/-- The failures after which `poll_forever` polls again. -/
def Failure.resumes : Failure → Bool
  | .runtime retryable _ => retryable ≠ some false
  | _ => false

/-- Whether there is an offset to save. -/
def nextPhase (offset next : Option ℕ) : Phase :=
  match next with
  | none => .polling
  | some n => if some n = offset then .polling else .saving n

/-- `poll_forever`, step by step. -/
def step : Event → Poller → Option Poller
  | .poll fetch, p =>
      if p.phase = .polling then
        match pollOnce lower cfg p.offset fetch p.bridge with
        | (bridge, .ok poll) =>
            some { p with
              bridge, polls := (fetch.updates, poll) :: p.polls, phase := nextPhase p.offset poll.nextOffset }
        | (bridge, .error f) => some { p with bridge, phase := if f.resumes then .polling else .stopped }
      else none
  | .save ok, p =>
      match p.phase with
      | .saving n => if ok then some { p with file := some n, offset := some n, phase := .polling } else some p
      | _ => none
  | .leave, p => if p.phase = .polling then some { p with phase := .stopped } else none
  | .crash, p => some { p with phase := .stopped }
  | .start, p =>
      if p.phase = .stopped then
        if cfg.enabled = false ∨ cfg.mode ≠ .chat then some p
        else some { p with offset := p.file, phase := .polling }
      else none

/-- A poller that has not been started, on what an earlier one left. -/
def Poller.new (file : Option ℕ) (sessions : Sessions) : Poller :=
  ⟨file, none, .stopped, ⟨sessions, []⟩, []⟩

end CyClaw.Telegram

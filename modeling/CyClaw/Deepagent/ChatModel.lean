/-
The cloud proposer's client, `ChatModelProposerClient.invoke`
(`agentic/deepagent_github/chat_client.py`), and the rows it leaves in the spend ledger.

What the vendor reports of an attempt reaches the ledger by a context variable: a hook on the transport
sets it, a failed attempt is billed by it and clears it, and a message is billed by it before anything
the message says of itself.  So the variable is empty before every attempt, and what a row says is what
its own attempt has reported.

An attempt is what the hook saw and how `model.invoke` ended.  Attempts are repeated as they should be
as long as no status lies beyond 599, and `invoke` ends as it should as long as what a message holds can
be gone through (`ledger_exact_iff`).
-/
import CyClaw.Lib.PyValue
import Mathlib.Tactic.Linarith

namespace CyClaw.Deepagent

open PyText

abbrev Text := List Char

/-! ### The ledger -/

inductive Provider where
  | grok
  | claude
deriving DecidableEq

def Provider.name : Provider → Text
  | grok => "grok".toList
  | claude => "claude".toList

/-- The fields of a JSON object. -/
abbrev Fields := List (Text × PyValue)

/-- `_TOKEN_KEYS` -/
structure Tokens where
  inputTokens : Option ℕ
  outputTokens : Option ℕ
  cachedInputTokens : Option ℕ
  cacheCreationInputTokens : Option ℕ
  cacheReadInputTokens : Option ℕ
  cacheCreation5mTokens : Option ℕ
  cacheCreation1hTokens : Option ℕ
  reasoningTokens : Option ℕ
  vendorCostTicks : Option ℕ
deriving DecidableEq

def emptyTokens : Tokens := ⟨none, none, none, none, none, none, none, none, none⟩

/-- `_as_int` -/
def asInt : Option PyValue → Option ℕ
  | some (.int n) => if n < 0 then none else some n.toNat
  | _ => none

/-- `isinstance(x, Mapping)`, and what `_as_mapping` makes of a value. -/
def asMapping : Option PyValue → Option Fields
  | some (.dict fields) => some fields
  | _ => none

/-- A count within an object within the usage. -/
def nested (usage : Fields) (outer inner : String) : Option ℕ :=
  (asMapping (PyValue.get usage outer)).bind fun details => asInt (PyValue.get details inner)

/-- `parse_grok_usage` -/
def parseGrokUsage : Option Fields → Tokens
  | none => emptyTokens
  | some usage =>
      { emptyTokens with
        inputTokens := asInt (PyValue.get usage "prompt_tokens")
        outputTokens := asInt (PyValue.get usage "completion_tokens")
        cachedInputTokens := nested usage "prompt_tokens_details" "cached_tokens"
        reasoningTokens := nested usage "completion_tokens_details" "reasoning_tokens"
        vendorCostTicks := asInt (PyValue.get usage "cost_in_usd_ticks") }

/-- `parse_claude_usage` -/
def parseClaudeUsage : Option Fields → Tokens
  | none => emptyTokens
  | some usage =>
      { emptyTokens with
        inputTokens := asInt (PyValue.get usage "input_tokens")
        outputTokens := asInt (PyValue.get usage "output_tokens")
        cacheCreationInputTokens := asInt (PyValue.get usage "cache_creation_input_tokens")
        cacheReadInputTokens := asInt (PyValue.get usage "cache_read_input_tokens")
        cacheCreation5mTokens := nested usage "cache_creation" "ephemeral_5m_input_tokens"
        cacheCreation1hTokens := nested usage "cache_creation" "ephemeral_1h_input_tokens" }

/-- `_tokens_for_provider` -/
def tokensForProvider : Provider → Option Fields → Tokens
  | .claude, usage => parseClaudeUsage usage
  | .grok, usage => parseGrokUsage usage

/-- `_usage_is_missing` -/
def usageIsMissing (usage : Option Fields) (tokens : Tokens) : Bool :=
  usage.isNone || tokens.inputTokens.isNone || tokens.outputTokens.isNone

/-- A line of the spend ledger, but for its timestamp. -/
structure SpendRow where
  provider : Text
  model : Text
  tokens : Tokens
  usageMissing : Bool
  source : Text
  outcome : Option Text
deriving DecidableEq

/-- The row that `record_external_usage` writes. -/
def spendRow (provider : Provider) (model : Text) (usage : Option Fields) (outcome : Option Text) : SpendRow where
  provider := provider.name
  model := model
  tokens := tokensForProvider provider usage
  usageMissing := usageIsMissing usage (tokensForProvider provider usage)
  source := "agentic".toList
  outcome := outcome

/-! ### What an attempt comes to -/

/-- A response as the hook sees it; the body is what `.json()` gives, unless it raises. -/
structure HttpResponse where
  status : ℤ
  body : Option PyValue

/-- `_capture_http_usage` -/
def captureHttpUsage (usage : Option Fields) (response : HttpResponse) : Option Fields :=
  if response.status < 200 ∨ 300 ≤ response.status then usage
  else
    match response.body with
    | some (.dict data) =>
        match asMapping (PyValue.get data "usage") with
        | some captured => some captured
        | none => usage
    | _ => usage

structure AiMessage where
  content : PyValue
  responseMetadata : Option PyValue
  usageMetadata : Option PyValue

/-- The response that an error of an SDK carries; `headers.get` where its headers are a mapping. -/
structure ErrorResponse where
  statusCode : Option ℤ
  headers : Option (Text → Option Text)

/-- What `model.invoke` raises, a subclass of `Exception`. -/
structure SdkError where
  name : Text
  isTimeoutError : Bool
  isConnectionError : Bool
  statusCode : Option ℤ
  response : Option ErrorResponse

structure Attempt where
  responses : List HttpResponse
  result : Except SdkError AiMessage
  /-- `json.dumps` takes its row, and the ledger can be appended to. -/
  appends : Bool

/-- `_coerce_text_content`, `none` where it raises TypeError. -/
def coerceTextContent (content : PyValue) : Option Text :=
  match content with
  | .str t => some t
  | content =>
      match content.toList with
      | .error _ => none
      | .ok blocks =>
          some (['\n'].intercalate (blocks.filterMap fun
            | .str t => some t
            | .dict fields =>
                match PyValue.get fields "text" with
                | some (.str t) => some t
                | _ => none
            | _ => none))

def orNone (x : Option PyValue) : PyValue := x.getD .none

/-- `_usage_from_langchain_metadata` -/
def usageFromLangchainMetadata (provider : Provider) (usage : Fields) : Fields :=
  let input := (asMapping (PyValue.get usage "input_token_details")).getD []
  let output := (asMapping (PyValue.get usage "output_token_details")).getD []
  match provider with
  | .claude =>
      [("input_tokens".toList, orNone (PyValue.get usage "input_tokens")),
        ("output_tokens".toList, orNone (PyValue.get usage "output_tokens")),
        ("cache_creation_input_tokens".toList, orNone (PyValue.get input "cache_creation")),
        ("cache_read_input_tokens".toList, orNone (PyValue.get input "cache_read"))]
  | .grok =>
      [("prompt_tokens".toList, orNone (PyValue.get usage "input_tokens")),
        ("completion_tokens".toList, orNone (PyValue.get usage "output_tokens")),
        ("prompt_tokens_details".toList,
          .dict [("cached_tokens".toList,
            orNone (PyValue.get input "cache_read" <|> PyValue.get input "cached_tokens"))]),
        ("completion_tokens_details".toList,
          .dict [("reasoning_tokens".toList,
            orNone (PyValue.get output "reasoning" <|> PyValue.get output "reasoning_tokens"))])]

/-- `_usage_from_ai_message` -/
def usageFromAiMessage (provider : Provider) (message : AiMessage) : Option Fields :=
  let vendor : Option Fields := (asMapping message.responseMetadata).bind fun metadata =>
    match provider with
    | .claude => asMapping (PyValue.get metadata "usage")
    | .grok => asMapping (PyValue.get metadata "token_usage") <|> asMapping (PyValue.get metadata "usage")
  vendor <|> (asMapping message.usageMetadata).map (usageFromLangchainMetadata provider)

/-! ### Which errors are retried -/

def SdkError.isTimeout (e : SdkError) : Bool := contains "Timeout".toList e.name || e.isTimeoutError

def SdkError.isConnection (e : SdkError) : Bool := contains "Connection".toList e.name || e.isConnectionError

/-- `_invoke_error_status_code` -/
def invokeErrorStatusCode (e : SdkError) : Option ℤ := e.statusCode <|> e.response.bind ErrorResponse.statusCode

/-- `_invoke_error_is_retryable` -/
def invokeErrorIsRetryable (e : SdkError) : Bool :=
  if e.isTimeout then false
  else
    match invokeErrorStatusCode e with
    | some status => status = 429 || 500 ≤ status
    | none => e.isConnection

/-- `_INVOKE_MAX_RETRIES` -/
def invokeMaxRetries : ℕ := 2

/-- `_INVOKE_BACKOFF_BASE_SEC` -/
def invokeBackoffBaseSec : ℚ := 1

/-- `_INVOKE_BACKOFF_MAX_SEC` -/
def invokeBackoffMaxSec : ℚ := 30

/-- `headers.get("retry-after") or headers.get("Retry-After")` -/
def retryAfter (get : Text → Option Text) : Option Text :=
  match get "retry-after".toList with
  | some (c :: raw) => some (c :: raw)
  | _ => get "Retry-After".toList

/-- `_invoke_retry_after_delay` -/
def invokeRetryAfterDelay (float : Text → Option PyFloat) (e : SdkError) : Option ℚ :=
  match (e.response.bind ErrorResponse.headers).bind retryAfter with
  | none => none
  | some raw =>
      match float (strip raw) with
      | some (.num seconds) => if seconds < 0 then none else some (min seconds invokeBackoffMaxSec)
      | _ => none

/-- The pause after a failed attempt, which are counted from 1. -/
def pauseAfter (float : Text → Option PyFloat) (attempts : ℕ) (e : SdkError) : ℚ :=
  (invokeRetryAfterDelay float e).getD (min (invokeBackoffBaseSec * 2 ^ (attempts - 1)) invokeBackoffMaxSec)

/-! ### The call -/

/-- What is done. -/
inductive Act where
  | call
  | sleep (delay : ℚ)
  | spend (row : SpendRow)
  | auditFailed (errorType : Text) (attempts : ℕ)
  | auditSucceeded

/-- How `invoke` ends. -/
inductive End where
  | text (t : Text)
  | agenticError (message : Text)
  | typeError
deriving DecidableEq

structure Ran where
  acts : List Act
  /-- What `_HTTP_USAGE` holds. -/
  usage : Option Fields
  ended : End

/-- What `invoke` is called with, and what it relies on. -/
structure Proposer where
  provider : Provider
  model : Text
  /-- `sanitize_handoff` lets the prompt through, and `build_chat_model` builds its model; if not, the message
  of the error that is raised. -/
  ready : Except Text Unit
  float : Text → Option PyFloat

section Call

variable (p : Proposer)

/-- `record_external_usage`; what it raises is caught. -/
def recordExternalUsage (appends : Bool) (row : SpendRow) : List Act := if appends then [.spend row] else []

/-- `_usage_for_spend` -/
def usageForSpend (captured : Option Fields) (message : AiMessage) : Option Fields :=
  match p.provider, captured with
  | .grok, some usage => some usage
  | _, _ => usageFromAiMessage p.provider message

/-- `_record_billed_failure`: what is done, and what the variable holds after it. -/
def recordBilledFailure (appends : Bool) : Option Fields → List Act × Option Fields
  | none => ([], none)
  | some usage =>
      (recordExternalUsage appends
        (spendRow p.provider p.model (some usage) (some "failed_after_billing".toList)), none)

/-- What the variable holds once an attempt is over; only the client of Grok has the hook. -/
def captured (a : Attempt) (usage : Option Fields) : Option Fields :=
  match p.provider with
  | .grok => a.responses.foldl captureHttpUsage usage
  | .claude => usage

/-- What is done about a message. -/
def answered (appends : Bool) (message : AiMessage) (usage : Option Fields) : Ran :=
  let spent := recordExternalUsage appends (spendRow p.provider p.model (usageForSpend p usage message) none)
  match coerceTextContent message.content with
  | some t => ⟨.call :: spent ++ [.auditSucceeded], usage, .text t⟩
  | none => ⟨.call :: spent, usage, .typeError⟩

/-- What is done about an error that is not retried. -/
def failed (appends : Bool) (attempts : ℕ) (e : SdkError) (usage : Option Fields) : Ran :=
  let (billed, usage) := recordBilledFailure p appends usage
  ⟨.call :: billed ++ [.auditFailed e.name attempts], usage,
    .agenticError ("cloud proposer invocation failed (".toList ++ e.name ++ [')'])⟩

/-- An attempt that is the last one. -/
def lastAttempt (a : Attempt) (attempts : ℕ) (usage : Option Fields) : Ran :=
  match a.result with
  | .ok message => answered p a.appends message (captured p a usage)
  | .error e => failed p a.appends attempts e (captured p a usage)

/-- The loop, where so many attempts may follow and `attempts` have been made. -/
def invokeLoop (outcomes : ℕ → Attempt) : ℕ → ℕ → Option Fields → Ran
  | 0, attempts, usage => lastAttempt p (outcomes attempts) (attempts + 1) usage
  | left + 1, attempts, usage =>
      match (outcomes attempts).result with
      | .ok _ => lastAttempt p (outcomes attempts) (attempts + 1) usage
      | .error e =>
          if invokeErrorIsRetryable e then
            let (billed, usage) :=
              recordBilledFailure p (outcomes attempts).appends (captured p (outcomes attempts) usage)
            let rest := invokeLoop outcomes left (attempts + 1) usage
            { rest with acts := .call :: billed ++ .sleep (pauseAfter p.float (attempts + 1) e) :: rest.acts }
          else lastAttempt p (outcomes attempts) (attempts + 1) usage

/-- `invoke`; the token that the variable is reset by is what it held before. -/
def invoke (outcomes : ℕ → Attempt) (token : Option Fields) : Ran :=
  match p.ready with
  | .error message => ⟨[], token, .agenticError message⟩
  | .ok () => { invokeLoop p outcomes invokeMaxRetries 0 none with usage := token }

end Call

/-! ### What is to be said of a call -/

def Act.isCall : Act → Bool
  | call => true
  | _ => false

def Act.row : Act → Option SpendRow
  | spend row => some row
  | _ => none

/-- The errors after which there may be another call: not a timeout, and a status of 429 or 5xx, or a connection
that failed without one. -/
def MayRetry (e : SdkError) : Prop :=
  e.isTimeout = false ∧
    match invokeErrorStatusCode e with
    | some status => status = 429 ∨ (500 ≤ status ∧ status < 600)
    | none => e.isConnection = true

/-- The row of an attempt that was billed: it captured usage or returned a message. -/
def billedRow (model : Text) (a : Attempt) : Option SpendRow :=
  match a.responses.foldl captureHttpUsage none, a.result with
  | some usage, .ok _ => some (spendRow .grok model (some usage) none)
  | none, .ok message => some (spendRow .grok model (usageFromAiMessage .grok message) none)
  | some usage, .error _ => some (spendRow .grok model (some usage) (some "failed_after_billing".toList))
  | none, .error _ => none

/-- **The ledger is exact and the retries are bounded.** -/
structure Exact (model : Text) (outcomes : ℕ → Attempt) (token : Option Fields) (r : Ran) : Prop where
  bounded : r.acts.countP Act.isCall ≤ 3
  again : ∀ i, i + 1 < r.acts.countP Act.isCall → ∃ e, (outcomes i).result = .error e ∧ MayRetry e
  pauses : ∀ d, .sleep d ∈ r.acts → d ≤ 30
  rows : r.acts.filterMap Act.row =
    (List.range (r.acts.countP Act.isCall)).filterMap fun i => billedRow model (outcomes i)
  ends : (∃ t, r.ended = .text t) ∨ ∃ message, r.ended = .agenticError message
  context : r.usage = token

/-- The attempt is followed by another, as long as there may be one. -/
def Repeats (a : Attempt) : Prop := ∃ e, a.result = .error e ∧ invokeErrorIsRetryable e = true

/-- The call gets to the attempt. -/
def Reaches (p : Proposer) (outcomes : ℕ → Attempt) (i : ℕ) : Prop :=
  p.ready = .ok () ∧ i ≤ invokeMaxRetries ∧ ∀ j < i, Repeats (outcomes j)

/-- What a `for` goes through. -/
def Iterable : PyValue → Prop
  | .str _ => True
  | .list _ => True
  | .dict _ => True
  | _ => False

/-- No failure before the last attempt has a status beyond 599, a message has content to go through, and the ledger
takes each row. -/
structure Fitting (p : Proposer) (outcomes : ℕ → Attempt) : Prop where
  statuses : ∀ i < invokeMaxRetries, Reaches p outcomes i → ∀ e status, (outcomes i).result = .error e →
    e.isTimeout = false → invokeErrorStatusCode e = some status → status < 600
  contents : ∀ i, Reaches p outcomes i → ∀ message, (outcomes i).result = .ok message → Iterable message.content
  appended : ∀ i, Reaches p outcomes i → ∀ row, billedRow p.model (outcomes i) = some row →
    (outcomes i).appends = true

/-! ### Attempts -/

section Attempts

variable {model : Text} {ready : Except Text Unit} {float : Text → Option PyFloat} {outcomes : ℕ → Attempt}
  {a : Attempt} {e : SdkError} {message : AiMessage}

/-- The client of Grok. -/
def grokProposer (model : Text) (ready : Except Text Unit) (float : Text → Option PyFloat) : Proposer :=
  ⟨.grok, model, ready, float⟩

/-- What an attempt that is repeated does. -/
def repeatedActs (p : Proposer) (a : Attempt) (attempts : ℕ) : List Act :=
  match a.result with
  | .ok _ => []
  | .error e =>
      .call :: (recordBilledFailure p a.appends (captured p a none)).1 ++ [.sleep (pauseAfter p.float attempts e)]

/-- What is written of the row of an attempt. -/
def writtenRow (model : Text) (a : Attempt) : Option SpendRow := if a.appends then billedRow model a else none

/-- The variable is empty again after a failure. -/
theorem recordBilledFailure_snd (p : Proposer) (appends : Bool) (usage : Option Fields) :
    (recordBilledFailure p appends usage).2 = none := by
  cases usage <;> rfl

theorem pauseAfter_le (float : Text → Option PyFloat) (attempts : ℕ) (e : SdkError) :
    pauseAfter float attempts e ≤ 30 := by
  unfold pauseAfter
  cases hdelay : invokeRetryAfterDelay float e with
  | none => exact min_le_right _ _
  | some d =>
    show d ≤ 30
    unfold invokeRetryAfterDelay at hdelay
    split at hdelay
    · cases hdelay
    · split at hdelay
      · split at hdelay
        · cases hdelay
        · rw [← Option.some.inj hdelay]
          exact min_le_right _ _
      · cases hdelay

/-- Every attempt is one call, pauses no longer than it may and writes its own row. -/
structure Books (model : Text) (a : Attempt) (acts : List Act) : Prop where
  calls : acts.countP Act.isCall = 1
  rows : acts.filterMap Act.row = (writtenRow model a).toList
  pauses : ∀ d, .sleep d ∈ acts → d ≤ 30

/-- What is done about the bill of an attempt: nothing but its row. -/
structure Bill (model : Text) (a : Attempt) (acts : List Act) : Prop where
  calls : acts.countP Act.isCall = 0
  rows : acts.filterMap Act.row = (writtenRow model a).toList
  pauses : ∀ d, .sleep d ∉ acts

theorem bill_record {row : SpendRow} (h : billedRow model a = some row) :
    Bill model a (recordExternalUsage a.appends row) := by
  unfold recordExternalUsage
  cases happends : a.appends with
  | true =>
    refine ⟨rfl, ?_, by simp⟩
    rw [writtenRow, happends, if_pos rfl, h]
    rfl
  | false =>
    refine ⟨rfl, ?_, by simp⟩
    rw [writtenRow, happends]
    rfl

theorem bill_failure (ready : Except Text Unit) (float : Text → Option PyFloat) (h : a.result = .error e) :
    Bill model a (recordBilledFailure (grokProposer model ready float) a.appends
      (captured (grokProposer model ready float) a none)).1 := by
  have hcaptured : captured (grokProposer model ready float) a none = a.responses.foldl captureHttpUsage none := rfl
  rw [hcaptured]
  cases husage : a.responses.foldl captureHttpUsage none with
  | some usage =>
    refine bill_record ?_
    rw [billedRow, husage, h]
    rfl
  | none =>
    refine ⟨rfl, ?_, fun d hd => by cases hd⟩
    have hnone : billedRow model a = none := by rw [billedRow, husage, h]
    rw [writtenRow, hnone, ite_self]
    rfl

theorem bill_message (ready : Except Text Unit) (float : Text → Option PyFloat) (h : a.result = .ok message) :
    Bill model a (recordExternalUsage a.appends (spendRow .grok model (usageForSpend (grokProposer model ready float)
      (captured (grokProposer model ready float) a none) message) none)) := by
  refine bill_record ?_
  have hcaptured : captured (grokProposer model ready float) a none = a.responses.foldl captureHttpUsage none := rfl
  rw [hcaptured, billedRow, h]
  cases a.responses.foldl captureHttpUsage none <;> rfl

/-- A call, its bill and whatever else is neither. -/
theorem Bill.books {acts rest : List Act} (h : Bill model a acts) (hcalls : rest.countP Act.isCall = 0)
    (hrows : rest.filterMap Act.row = []) (hpauses : ∀ d, .sleep d ∈ rest → d ≤ 30) :
    Books model a (.call :: acts ++ rest) := by
  refine ⟨?_, ?_, fun d hd => ?_⟩
  · rw [List.cons_append, List.countP_cons_of_pos rfl, List.countP_append, h.calls, hcalls]
  · rw [List.cons_append, List.filterMap_cons_none rfl, List.filterMap_append, h.rows, hrows, List.append_nil]
  · rw [List.cons_append, List.mem_cons, List.mem_append] at hd
    rcases hd with hd | hd | hd
    · cases hd
    · exact absurd hd (h.pauses d)
    · exact hpauses d hd

theorem books_repeated (ready : Except Text Unit) (float : Text → Option PyFloat) (attempts : ℕ)
    (h : a.result = .error e) : Books model a (repeatedActs (grokProposer model ready float) a attempts) := by
  rw [repeatedActs, h]
  refine (bill_failure ready float h).books rfl rfl fun d hd => ?_
  rw [List.mem_singleton, Act.sleep.injEq] at hd
  rw [hd]
  exact pauseAfter_le _ _ _

theorem coerceTextContent_isSome (content : PyValue) :
    (coerceTextContent content).isSome = true ↔ Iterable content := by
  cases content <;> simp [coerceTextContent, Iterable, PyValue.toList]

theorem books_last (ready : Except Text Unit) (float : Text → Option PyFloat) (a : Attempt) (attempts : ℕ) :
    Books model a (lastAttempt (grokProposer model ready float) a attempts none).acts := by
  rw [lastAttempt]
  cases h : a.result with
  | error e => exact (bill_failure ready float h).books rfl rfl fun d hd => by simp at hd
  | ok message =>
    have hbill : Bill model a _ := bill_message ready float h
    dsimp only
    rw [answered]
    split
    · exact hbill.books rfl rfl fun d hd => by simp at hd
    · have hbooks := hbill.books List.countP_nil List.filterMap_nil fun d hd => by cases hd
      rwa [List.append_nil] at hbooks

/-- The end of the last attempt. -/
theorem ends_last (p : Proposer) (a : Attempt) (attempts : ℕ) (usage : Option Fields) :
    ((∃ t, (lastAttempt p a attempts usage).ended = .text t) ∨
      ∃ message, (lastAttempt p a attempts usage).ended = .agenticError message) ↔
    ∀ message, a.result = .ok message → Iterable message.content := by
  rw [lastAttempt]
  cases h : a.result with
  | error e =>
    refine ⟨fun _ message hok => ?_, fun _ => Or.inr ⟨_, rfl⟩⟩
    cases hok
  | ok message =>
    dsimp only
    rw [answered]
    cases hcoerce : coerceTextContent message.content with
    | some t =>
      refine ⟨fun _ message' hok => ?_, fun _ => Or.inl ⟨t, rfl⟩⟩
      obtain rfl := Except.ok.inj hok
      rw [← coerceTextContent_isSome, hcoerce]
      rfl
    | none =>
      refine ⟨?_, fun hall => ?_⟩
      · rintro (⟨t, ht⟩ | ⟨t, ht⟩) <;> cases ht
      · have hsome := (coerceTextContent_isSome _).mpr (hall message rfl)
        rw [hcoerce] at hsome
        cases hsome

/-! ### The run -/

/-- The attempts that are repeated, and then the last one. -/
structure Shape (p : Proposer) (outcomes : ℕ → Attempt) (left start : ℕ) (r : Ran) (m : ℕ) : Prop where
  acts : r.acts = ((List.range m).flatMap fun i => repeatedActs p (outcomes (start + i)) (start + i + 1)) ++
    (lastAttempt p (outcomes (start + m)) (start + m + 1) none).acts
  ended : r.ended = (lastAttempt p (outcomes (start + m)) (start + m + 1) none).ended
  le : m ≤ left
  repeats : ∀ i < m, Repeats (outcomes (start + i))
  stops : m < left → ¬ Repeats (outcomes (start + m))

theorem run_shape (p : Proposer) (outcomes : ℕ → Attempt) (left start : ℕ) :
    ∃ m, Shape p outcomes left start (invokeLoop p outcomes left start none) m := by
  induction left generalizing start with
  | zero => exact ⟨0, rfl, rfl, le_rfl, by simp, by simp⟩
  | succ left ih =>
    have hshift : ∀ i, start + (i + 1) = start + 1 + i := fun i => by omega
    by_cases hrepeats : Repeats (outcomes start)
    · obtain ⟨e, herror, hretry⟩ := hrepeats
      obtain ⟨m, h⟩ := ih (start + 1)
      have hacts : (List.range (m + 1)).flatMap (fun i => repeatedActs p (outcomes (start + i)) (start + i + 1)) =
          repeatedActs p (outcomes start) (start + 1) ++
            (List.range m).flatMap fun i => repeatedActs p (outcomes (start + 1 + i)) (start + 1 + i + 1) := by
        rw [List.range_succ_eq_map, List.flatMap_cons, List.flatMap_map]
        refine congrArg₂ (· ++ ·) rfl (congrArg (List.flatMap · _) (funext fun i => ?_))
        rw [Nat.succ_eq_add_one, hshift i]
      rw [invokeLoop, herror]
      dsimp only
      rw [if_pos hretry, recordBilledFailure_snd]
      refine ⟨m + 1, ?_, ?_, Nat.succ_le_succ h.le, ?_, ?_⟩
      · rw [hacts, hshift m, h.acts, repeatedActs, herror]
        simp only [List.append_assoc, List.cons_append, List.nil_append]
      · rw [hshift m]
        exact h.ended
      · intro i hi
        cases i with
        | zero => exact ⟨e, herror, hretry⟩
        | succ i =>
          rw [hshift i]
          exact h.repeats i (Nat.lt_of_succ_lt_succ hi)
      · intro hlt
        rw [hshift m]
        exact h.stops (Nat.lt_of_succ_lt_succ hlt)
    · have hlast : invokeLoop p outcomes (left + 1) start none = lastAttempt p (outcomes start) (start + 1) none := by
        rw [invokeLoop]
        cases herror : (outcomes start).result with
        | ok message => rfl
        | error e => exact if_neg fun hretry => hrepeats ⟨e, herror, hretry⟩
      exact ⟨0, by rw [hlast]; rfl, by rw [hlast]; rfl, Nat.zero_le _, by simp, fun _ => hrepeats⟩

/-- Nothing is left out of a list just where nothing of it had to be. -/
theorem filterMap_guarded {α β : Type} {f : α → Option β} {guard : α → Bool} {l : List α} :
    l.filterMap (fun a => if guard a then f a else none) = l.filterMap f ↔
      ∀ a ∈ l, ∀ b, f a = some b → guard a = true := by
  have hle : ∀ l : List α,
      (l.filterMap fun a => if guard a then f a else none).length ≤ (l.filterMap f).length := by
    intro l
    induction l with
    | nil => exact le_rfl
    | cons a l ih =>
      cases hguard : guard a <;> cases hf : f a <;> simp [hguard, hf] <;> omega
  induction l with
  | nil => simp
  | cons a l ih =>
    rw [List.forall_mem_cons]
    cases hf : f a with
    | none => simpa [hf] using ih
    | some b =>
      cases hguard : guard a with
      | true => simpa [hf, hguard] using ih
      | false =>
        refine ⟨fun heq => ?_, fun hall => absurd (hall.1 b rfl) (by simp)⟩
        have hlength := congrArg List.length heq
        have hshort := hle l
        simp only [List.filterMap_cons, hguard, hf, Bool.false_eq_true, if_false, List.length_cons] at hlength
        omega

/-- What the books of a run come to. -/
structure RunBooks (model : Text) (outcomes : ℕ → Attempt) (m : ℕ) (acts : List Act) : Prop where
  calls : acts.countP Act.isCall = m
  rows : acts.filterMap Act.row = (List.range m).filterMap fun i => writtenRow model (outcomes i)
  pauses : ∀ d, .sleep d ∈ acts → d ≤ 30

theorem runBooks_succ {m : ℕ} {acts last : List Act} (h : RunBooks model outcomes m acts)
    (hlast : Books model (outcomes m) last) : RunBooks model outcomes (m + 1) (acts ++ last) := by
  refine ⟨?_, ?_, fun d hd => ?_⟩
  · rw [List.countP_append, h.calls, hlast.calls]
  · rw [List.filterMap_append, h.rows, hlast.rows, List.range_succ, List.filterMap_append]
    cases hrow : writtenRow model (outcomes m) <;> simp [hrow]
  · rcases List.mem_append.mp hd with hd | hd
    · exact h.pauses d hd
    · exact hlast.pauses d hd

theorem runBooks_repeated (ready : Except Text Unit) (float : Text → Option PyFloat) {m : ℕ}
    (h : ∀ i < m, Repeats (outcomes i)) : RunBooks model outcomes m
      ((List.range m).flatMap fun i => repeatedActs (grokProposer model ready float) (outcomes i) (i + 1)) := by
  induction m with
  | zero => exact ⟨rfl, rfl, fun d hd => by cases hd⟩
  | succ m ih =>
    obtain ⟨e, herror, -⟩ := h m (Nat.lt_succ_self m)
    rw [List.range_succ, List.flatMap_append, List.flatMap_singleton]
    exact runBooks_succ (ih fun i hi => h i (Nat.lt_succ_of_lt hi)) (books_repeated ready float (m + 1) herror)

theorem Shape.runBooks {r : Ran} {left m : ℕ} (h : Shape (grokProposer model ready float) outcomes left 0 r m) :
    RunBooks model outcomes (m + 1) r.acts := by
  have hacts := h.acts
  simp only [Nat.zero_add] at hacts
  rw [hacts]
  refine runBooks_succ (runBooks_repeated ready float fun i hi => ?_) (books_last ready float (outcomes m) (m + 1))
  have hrepeats := h.repeats i hi
  rwa [Nat.zero_add] at hrepeats

/-- A call gets to the attempts that it makes. -/
theorem Shape.reaches {p : Proposer} {r : Ran} {m i : ℕ} (h : Shape p outcomes invokeMaxRetries 0 r m)
    (hready : p.ready = .ok ()) : Reaches p outcomes i ↔ i ≤ m := by
  have hrepeats : ∀ i < m, Repeats (outcomes i) := by simpa using h.repeats
  have hstops : m < invokeMaxRetries → ¬ Repeats (outcomes m) := by simpa using h.stops
  constructor
  · rintro ⟨-, hle, hall⟩
    by_contra hlt
    exact hstops (by omega) (hall m (by omega))
  · intro hle
    exact ⟨hready, hle.trans h.le, fun j hj => hrepeats j (by omega)⟩

theorem retryable_iff : invokeErrorIsRetryable e = true ↔ e.isTimeout = false ∧
    match invokeErrorStatusCode e with
    | some status => status = 429 ∨ 500 ≤ status
    | none => e.isConnection = true := by
  unfold invokeErrorIsRetryable
  cases e.isTimeout with
  | true => simp
  | false =>
    cases invokeErrorStatusCode e <;> simp

/-- **The ledger of a call is exact, and its retries bounded, just where** no failure before the last attempt has a
status beyond 599, a message has content to go through, and the ledger takes each row. -/
theorem ledger_exact_iff (model : Text) (ready : Except Text Unit) (float : Text → Option PyFloat)
    (outcomes : ℕ → Attempt) (token : Option Fields) :
    Exact model outcomes token (invoke (grokProposer model ready float) outcomes token) ↔
      Fitting (grokProposer model ready float) outcomes := by
  cases ready with
  | error message =>
    have hnone : ∀ i, ¬ Reaches (grokProposer model (.error message) float) outcomes i := by
      rintro i ⟨hready, -, -⟩
      cases hready
    have hfit : Fitting (grokProposer model (.error message) float) outcomes :=
      ⟨fun i _ h => absurd h (hnone i), fun i h => absurd h (hnone i), fun i h => absurd h (hnone i)⟩
    refine ⟨fun _ => hfit, fun _ => ?_⟩
    exact ⟨Nat.zero_le _, fun i hi => absurd hi (Nat.not_lt_zero _), fun d hd => absurd hd List.not_mem_nil, rfl,
      Or.inr ⟨message, rfl⟩, rfl⟩
  | ok done =>
    cases done
    obtain ⟨m, h⟩ := run_shape (grokProposer model (.ok ()) float) outcomes invokeMaxRetries 0
    have hreaches : ∀ {i}, Reaches (grokProposer model (.ok ()) float) outcomes i ↔ i ≤ m := h.reaches rfl
    have hrepeats : ∀ i < m, Repeats (outcomes i) := by simpa using h.repeats
    have hstops : m < invokeMaxRetries → ¬ Repeats (outcomes m) := by simpa using h.stops
    have hended := h.ended
    rw [Nat.zero_add] at hended
    obtain ⟨hcalls, hrows, hpauses⟩ := h.runBooks
    have hwritten : ((List.range (m + 1)).filterMap fun i => writtenRow model (outcomes i)) =
        ((List.range (m + 1)).filterMap fun i => billedRow model (outcomes i)) ↔ _ := filterMap_guarded
    have hinvoke : invoke (grokProposer model (.ok ()) float) outcomes token =
        { invokeLoop (grokProposer model (.ok ()) float) outcomes invokeMaxRetries 0 none with usage := token } := rfl
    rw [hinvoke]
    constructor
    · rintro ⟨-, hagain, -, hsame, hends, -⟩
      dsimp only at hagain hsame hends
      rw [hcalls] at hagain hsame
      rw [hrows, hwritten] at hsame
      rw [hended, ends_last] at hends
      refine ⟨fun i hi hreach e status herror htimeout hstatus => ?_, fun i hreach message hok => ?_,
        fun i hreach row hrow => ?_⟩
      · by_contra hlarge
        have hrepeat : Repeats (outcomes i) := by
          refine ⟨e, herror, retryable_iff.mpr ⟨htimeout, ?_⟩⟩
          rw [hstatus]
          exact Or.inr (by omega)
        -- such an error is retried, so there is a call after it
        have hlt : i < m := by
          refine lt_of_le_of_ne (hreaches.mp hreach) ?_
          rintro rfl
          exact hstops hi hrepeat
        obtain ⟨e', herror', -, hmay⟩ := hagain i (Nat.succ_lt_succ hlt)
        obtain rfl := Except.error.inj (herror.symm.trans herror')
        rw [hstatus] at hmay
        rcases hmay with hmay | hmay <;> omega
      · have hlast : i = m := by
          refine le_antisymm (hreaches.mp hreach) (not_lt.mp fun hlt => ?_)
          obtain ⟨e, herror, -⟩ := hrepeats i hlt
          rw [herror] at hok
          cases hok
        subst hlast
        exact hends message hok
      · exact hsame i (List.mem_range.mpr (Nat.lt_succ_of_le (hreaches.mp hreach))) row hrow
    · intro hfit
      refine ⟨?_, fun i hi => ?_, hpauses, ?_, ?_, rfl⟩
      · rw [hcalls]
        exact Nat.succ_le_succ h.le
      · dsimp only at hi
        rw [hcalls] at hi
        have hlt : i < m := Nat.lt_of_succ_lt_succ hi
        obtain ⟨e, herror, hretry⟩ := hrepeats i hlt
        obtain ⟨htimeout, hstatus⟩ := retryable_iff.mp hretry
        refine ⟨e, herror, htimeout, ?_⟩
        cases hcode : invokeErrorStatusCode e with
        | none =>
          rw [hcode] at hstatus
          exact hstatus
        | some status =>
          rw [hcode] at hstatus
          have hlow := hfit.statuses i (hlt.trans_le h.le) (hreaches.mpr hlt.le) e status herror htimeout hcode
          exact hstatus.imp_right fun hhigh => ⟨hhigh, hlow⟩
      · rw [hcalls, hrows, hwritten]
        intro i hi row hrow
        exact hfit.appended i (hreaches.mpr (Nat.le_of_lt_succ (List.mem_range.mp hi))) row hrow
      · rw [hended, ends_last]
        exact hfit.contents m (hreaches.mpr le_rfl)

/-- A server that first answers with a status of three digits that means nothing. -/
def statusBeyond : ℕ → Attempt
  | 0 => ⟨[], .error ⟨"InternalServerError".toList, false, false, some 600, none⟩, true⟩
  | _ => ⟨[], .ok ⟨.str "ok".toList, none, none⟩, true⟩

/-- It is called again. -/
theorem status_beyond_retried : ¬ Exact "grok-4".toList statusBeyond none
    (invoke (grokProposer "grok-4".toList (.ok ()) fun _ => none) statusBeyond none) := by
  intro h
  have hcalls : (invoke (grokProposer "grok-4".toList (.ok ()) fun _ => none) statusBeyond none).acts.countP
      Act.isCall = 2 := by decide +kernel
  obtain ⟨e, herror, -, hmay⟩ := h.again 0 (by rw [hcalls]; exact Nat.lt_succ_self 1)
  obtain rfl := Except.error.inj herror
  rcases hmay with hmay | hmay
  · cases hmay
  · exact absurd hmay.2 (by decide)

end Attempts

end CyClaw.Deepagent

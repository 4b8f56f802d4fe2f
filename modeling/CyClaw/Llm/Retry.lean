/-
`_post_with_retry` of `llm/client.py`.

An attempt ends with a response, a timeout, another error of the transport or any other exception,
and what has been done is a list: the posts, the pauses between them and the records of what was
spent.  A run is its repeated attempts and a last one (`run_shape`), and all that is said of it is read off
that.

A pause is given in seconds, or has no end; the platform takes some and raises OverflowError for
longer ones, and no float holds `2 ** 1024`.  These escape the mapping of errors, and with nothing
else does a run end otherwise than it should (`retries_accounted`).
-/
import CyClaw.Llm.Client
import Mathlib.Data.Rat.Cast.Order
import Mathlib.Algebra.Order.Ring.WithTop

namespace CyClaw.Llm.Retry

open PyText

/-! ### Settings -/

abbrev Seconds := WithTop ℚ

/-- `max(0.0, x)`, which is `0.0` for what is not a number. -/
def floorZero : PyFloat → Seconds
  | .num q => ((max 0 q : ℚ) : Seconds)
  | .inf false => ⊤
  | .inf true => 0
  | .nan => 0

theorem floorZero_nonneg (x : PyFloat) : 0 ≤ floorZero x := by
  rcases x with q | negative | _
  · exact WithTop.coe_le_coe.mpr (le_max_left 0 q)
  · cases negative with
    | false => exact le_top
    | true => exact le_rfl
  · exact le_rfl

structure RetrySettings where
  maxRetries : ℕ
  backoffBase : Seconds
  backoffMax : Seconds
  base_nonneg : 0 ≤ backoffBase
  max_nonneg : 0 ≤ backoffMax

/-- `_read_retry` -/
def readSettings (env : Env) (cfg : LlmConfig) : Except LlmError RetrySettings :=
  match PyValue.orElse (PyValue.get cfg "retry") (.dict []) with
  | .dict retry =>
      (converted (((PyValue.get retry "max_retries").getD (.int 0)).toInt env.formats)).bind fun n =>
        (converted (((PyValue.get retry "backoff_base_sec").getD (.float (.num 1))).toFloat env.formats)).bind fun base =>
          (converted (((PyValue.get retry "backoff_max_sec").getD (.float (.num 30))).toFloat env.formats)).map fun limit =>
            ⟨n.toNat, floorZero base, floorZero limit, floorZero_nonneg base, floorZero_nonneg limit⟩
  | _ => .error .attributeError

/-! ### Bodies -/

/-- What reading a body raises. -/
inductive BodyError where
  | jsonDecodeError
  | keyError
  | indexError
  | typeError
  /-- Not one that an extractor expects. -/
  | unexpected
deriving DecidableEq

def BodyError.name : BodyError → String
  | jsonDecodeError => "JSONDecodeError"
  | keyError => "KeyError"
  | indexError => "IndexError"
  | typeError => "TypeError"
  | unexpected => ""

/-- `resp.json()` -/
abbrev Body := Except BodyError PyValue

/-- `x[key]` -/
def getKey (key : String) : PyValue → Except BodyError PyValue
  | .dict fields =>
      match PyValue.get fields key with
      | some x => .ok x
      | none => .error .keyError
  | _ => .error .typeError

/-- `x[0]` -/
def getFirst : PyValue → Except BodyError PyValue
  | .list (x :: _) => .ok x
  | .list [] => .error .indexError
  | .str (c :: _) => .ok (.str [c])
  | .str [] => .error .indexError
  | .dict _ => .error .keyError
  | _ => .error .typeError

/-- `x.get(key)` of a dictionary. -/
def field (key : String) : PyValue → PyValue
  | .dict fields => (PyValue.get fields key).getD .none
  | _ => .none

inductive ExtractError where
  | valueError (message : Text)
  | unexpected

def malformed (what : String) (e : BodyError) : ExtractError :=
  match e with
  | .unexpected => .unexpected
  | e => .valueError ("malformed ".toList ++ what.toList ++ " response (".toList ++ e.name.toList ++ [')'])

def extractContent (body : Body) : Except ExtractError Text :=
  match ((body.bind (getKey "choices")).bind getFirst).bind fun choice => (getKey "message" choice).bind (getKey "content") with
  | .error e => .error (malformed "LLM" e)
  | .ok (.str t) =>
      if strip t = [] then .error (.valueError "empty LLM response: content missing or blank".toList) else .ok t
  | .ok _ => .error (.valueError "empty LLM response: content missing or blank".toList)

/-- What a `for` goes through. -/
def iterate : PyValue → Except BodyError (List PyValue)
  | .list items => .ok items
  | .str t => .ok (t.map fun c => .str [c])
  | .dict fields => .ok (fields.map fun f => .str f.1)
  | _ => .error .typeError

/-- The text of a text block. -/
def blockText : PyValue → Option PyValue
  | .dict fields =>
      match PyValue.get fields "type" with
      | some (.str t) => if t = "text".toList then some ((PyValue.get fields "text").getD (.str [])) else none
      | _ => none
  | _ => none

/-- A part that is a text, and not blank. -/
def spoken : PyValue → Option Text
  | .str t => if strip t = [] then none else some t
  | _ => none

/-- Why there is no text. -/
def emptyClaude (repr : PyValue → Text) (stopReason : PyValue) : Text :=
  match stopReason with
  | .str t =>
      if t = "refusal".toList then
        ("Claude declined this request (stop_reason=refusal) — a safety " ++
          "decision, not a transport error; retrying will not help").toList
      else if t = "max_tokens".toList then
        ("Claude produced no text before hitting max_tokens " ++
          "(stop_reason=max_tokens) — raise models.claude.max_tokens").toList
      else "empty Claude response: no text content (stop_reason=".toList ++ repr stopReason ++ [')']
  | _ => "empty Claude response: no text content (stop_reason=".toList ++ repr stopReason ++ [')']

def extractClaudeContent (repr : PyValue → Text) (body : Body) : Except ExtractError Text :=
  match body.bind fun data => (getKey "content" data).bind iterate with
  | .error e => .error (malformed "Claude" e)
  | .ok blocks =>
      let content := strip (['\n'].intercalate ((blocks.filterMap blockText).filterMap spoken))
      if content = [] then .error (.valueError (emptyClaude repr (field "stop_reason" (body.toOption.getD .none))))
      else .ok content

/-! ### What is spent -/

structure SpendRecord where
  provider : Text
  model : Text
  usage : PyValue
  spendFile : Option Text
  source : Text
  queryHash : Option Text
  routePath : Option (List Text)
  servedModel : Option Text

def textOf : Option PyValue → Option Text
  | some (.str t) => some t
  | _ => none

/-- A list of texts. -/
def textsOf : Option PyValue → Option (List Text)
  | some (.list items) => items.mapM fun x => textOf (some x)
  | _ => none

/-- What `_extract_and_record_spend` records of a response; a body that is no object has nothing to say of it. -/
def spendRecord (provider model : Text) (spendContext : List (Text × PyValue)) (body : Body) : SpendRecord where
  provider := provider
  model := model
  usage :=
    match body with
    | .ok data => field "usage" data
    | .error _ => .none
  spendFile := textOf (PyValue.get spendContext "spend_file")
  source := (textOf (PyValue.get spendContext "source")).getD "query".toList
  queryHash := textOf (PyValue.get spendContext "query_hash")
  routePath := textsOf (PyValue.get spendContext "route_path")
  servedModel :=
    match body with
    | .ok data => (textOf (some (field "model" data))).filter fun t => strip t ≠ []
    | .error _ => none

/-- `extract_content` of a client. -/
inductive Extractor where
  | localLlm
  | grok (model : Text)
  | claude (model : Text)

/-- The clients that are billed for a response. -/
def Extractor.billed : Extractor → Bool
  | localLlm => false
  | grok _ => true
  | claude _ => true

/-! ### The loop -/

/-- How an attempt ends. -/
inductive Outcome where
  | response (status : ℕ) (retryAfter : Option Text) (body : Body)
  | timeout
  | transportError
  | other

/-- What is done. -/
inductive Act where
  | post
  | sleep (delay : Seconds)
  | spend (record : SpendRecord)

/-- How a call ends. -/
inductive End where
  | text (t : Text)
  | onHttp (status : ℕ)
  | onTimeout
  | onOther
  /-- An error that is not mapped. -/
  | overflowError

structure Caller where
  formats : PyValue.Formats
  repr : PyValue → Text
  /-- `time.sleep` takes a pause of this length. -/
  canSleep : Seconds → Bool
  settings : RetrySettings
  retryOnTimeout : Bool
  extractor : Extractor
  spendContext : List (Text × PyValue)

def isSuccess (status : ℕ) : Bool := 200 ≤ status && status < 300

def isRetryableStatus (status : ℕ) : Bool := 500 ≤ status || status = 429

section Loop

variable (k : Caller)

def retryAfterDelay (retryAfter : Option Text) : Option Seconds :=
  match retryAfter with
  | none => none
  | some raw =>
      if raw = [] then none
      else
        match k.formats.float (strip raw) with
        | some (.num q) => if q < 0 then none else some (min (q : Seconds) k.settings.backoffMax)
        | _ => none

/-- `backoff_base * 2**attempt`, past the range of floats infinite. -/
def scaled (base : Seconds) (attempt : ℕ) : Seconds :=
  match base with
  | ⊤ => ⊤
  | (q : ℚ) => if (PyValue.floatLimit : ℚ) ≤ q * 2 ^ attempt then ⊤ else ((q * 2 ^ attempt : ℚ) : Seconds)

/-- `_delay`; a float holds no `2 ** 1024`. -/
def backoffDelay (attempt : ℕ) : Option Seconds :=
  if 1024 ≤ attempt then none else some (min (scaled k.settings.backoffBase attempt) k.settings.backoffMax)

/-- The pause after an attempt, and `none` where there is no number for it. -/
def delayAfter (attempt : ℕ) : Outcome → Option Seconds
  | .response _ retryAfter _ =>
      match retryAfterDelay k retryAfter with
      | some d => some d
      | none => backoffDelay k attempt
  | _ => backoffDelay k attempt

/-- Another attempt is made after this one, as long as there are any. -/
def retried : Outcome → Bool
  | .response status _ _ => !isSuccess status && isRetryableStatus status
  | .timeout => k.retryOnTimeout
  | .transportError => true
  | .other => false

def extract (body : Body) : Except ExtractError Text :=
  match k.extractor with
  | .localLlm => extractContent body
  | .grok _ => extractContent body
  | .claude _ => extractClaudeContent k.repr body

def spends (body : Body) : List Act :=
  match k.extractor with
  | .localLlm => []
  | .grok model => [.spend (spendRecord "grok".toList model k.spendContext body)]
  | .claude model => [.spend (spendRecord "claude".toList model k.spendContext body)]

/-- The error of the caller for an attempt that has failed. -/
def failure : Outcome → End
  | .response status _ _ => .onHttp status
  | .timeout => .onTimeout
  | .transportError => .onOther
  | .other => .onOther

/-- An attempt that is the last one. -/
def finish (o : Outcome) : List Act × End :=
  match o with
  | .response status _ body =>
      if isSuccess status then
        (.post :: spends k body,
          match extract k body with
          | .ok t => .text t
          | .error _ => .onOther)
      else ([.post], failure o)
  | _ => ([.post], failure o)

/-- The attempts from this one on, where so many may follow. -/
def attempts (outcomes : ℕ → Outcome) : ℕ → ℕ → List Act × End
  | 0, attempt => finish k (outcomes attempt)
  | left + 1, attempt =>
      if retried k (outcomes attempt) then
        match (delayAfter k attempt (outcomes attempt)).filter k.canSleep with
        | none => ([.post], .overflowError)
        | some d =>
            let rest := attempts outcomes left (attempt + 1)
            (.post :: .sleep d :: rest.1, rest.2)
      else finish k (outcomes attempt)

def postWithRetry (outcomes : ℕ → Outcome) : List Act × End := attempts k outcomes k.settings.maxRetries 0

end Loop

/-! ### Runs -/

section Runs

variable {k : Caller} {outcomes : ℕ → Outcome} {left attempt : ℕ} {o : Outcome} {d : Seconds}

def succeeds : Outcome → Bool
  | .response status _ _ => isSuccess status
  | _ => false

def Act.isPost : Act → Bool
  | post => true
  | _ => false

def Act.isSpend : Act → Bool
  | spend _ => true
  | _ => false

theorem scaled_nonneg {base : Seconds} (h : 0 ≤ base) (attempt : ℕ) : 0 ≤ scaled base attempt := by
  induction base using WithTop.recTopCoe with
  | top => exact le_top
  | coe q =>
    have hq : 0 ≤ q * 2 ^ attempt := mul_nonneg (WithTop.coe_le_coe.mp h) (by positivity)
    simp only [scaled]
    split
    · exact le_top
    · exact WithTop.coe_le_coe.mpr hq

theorem retryAfterDelay_bounds {retryAfter : Option Text} (h : retryAfterDelay k retryAfter = some d) :
    0 ≤ d ∧ d ≤ k.settings.backoffMax := by
  unfold retryAfterDelay at h
  split at h
  · cases h
  split at h
  · cases h
  split at h
  · rename_i q _
    by_cases hq : q < 0
    · rw [if_pos hq] at h
      cases h
    · rw [if_neg hq, Option.some.injEq] at h
      rw [← h]
      exact ⟨le_min (WithTop.coe_le_coe.mpr (not_lt.mp hq)) k.settings.max_nonneg, min_le_right _ _⟩
  · cases h

theorem backoffDelay_bounds (h : backoffDelay k attempt = some d) : 0 ≤ d ∧ d ≤ k.settings.backoffMax := by
  unfold backoffDelay at h
  split at h
  · cases h
  · rw [← Option.some.inj h]
    exact ⟨le_min (scaled_nonneg k.settings.base_nonneg attempt) k.settings.max_nonneg, min_le_right _ _⟩

theorem delayAfter_bounds (h : delayAfter k attempt o = some d) : 0 ≤ d ∧ d ≤ k.settings.backoffMax := by
  cases o with
  | response status retryAfter body =>
    unfold delayAfter at h
    cases hheader : retryAfterDelay k retryAfter with
    | none =>
      simp only [hheader] at h
      exact backoffDelay_bounds h
    | some d' =>
      simp only [hheader, Option.some.injEq] at h
      exact h ▸ retryAfterDelay_bounds hheader
  | _ => exact backoffDelay_bounds h

theorem not_succeeds_of_retried (h : retried k o = true) : succeeds o = false := by
  cases o with
  | response status retryAfter body =>
    rw [retried, Bool.and_eq_true, Bool.not_eq_true'] at h
    exact h.1
  | _ => rfl

/-- The attempts that are repeated, with their pauses, and then the last one. -/
structure Shape (k : Caller) (outcomes : ℕ → Outcome) (left attempt : ℕ) (r : List Act × End) (delays : List Seconds)
    (last : List Act × End) : Prop where
  acts : r.1 = (delays.flatMap fun d => [.post, .sleep d]) ++ last.1
  ends : r.2 = last.2
  length_le : delays.length ≤ left
  retried : ∀ i < delays.length, Retry.retried k (outcomes (attempt + i)) = true
  paused : ∀ i d, delays[i]? = some d → delayAfter k (attempt + i) (outcomes (attempt + i)) = some d ∧ k.canSleep d = true
  /-- It ends there, or the pause after it raises. -/
  last_eq : last = finish k (outcomes (attempt + delays.length)) ∧
      (delays.length < left → Retry.retried k (outcomes (attempt + delays.length)) = false) ∨
    last = ([.post], .overflowError) ∧ delays.length < left ∧ Retry.retried k (outcomes (attempt + delays.length)) = true ∧
      (delayAfter k (attempt + delays.length) (outcomes (attempt + delays.length))).filter k.canSleep = none

theorem run_shape (k : Caller) (outcomes : ℕ → Outcome) (left attempt : ℕ) :
    ∃ delays last, Shape k outcomes left attempt (attempts k outcomes left attempt) delays last := by
  induction left generalizing attempt with
  | zero => exact ⟨[], finish k (outcomes attempt), rfl, rfl, le_rfl, by simp, by simp, Or.inl ⟨rfl, by simp⟩⟩
  | succ left ih =>
    rw [attempts]
    by_cases hretried : retried k (outcomes attempt) = true
    · rw [if_pos hretried]
      cases hpause : (delayAfter k attempt (outcomes attempt)).filter k.canSleep with
      | none => exact ⟨[], _, rfl, rfl, Nat.zero_le _, by simp, by simp, Or.inr ⟨rfl, Nat.succ_pos left, hretried, hpause⟩⟩
      | some d =>
        obtain ⟨delays, last, h⟩ := ih (attempt + 1)
        have hshift : ∀ i, attempt + (i + 1) = attempt + 1 + i := fun i => by omega
        refine ⟨d :: delays, last, ?_, h.ends, Nat.succ_le_succ h.length_le, ?_, ?_, ?_⟩
        · simp only [h.acts, List.flatMap_cons, List.cons_append, List.nil_append]
        · intro i hi
          cases i with
          | zero => exact hretried
          | succ i =>
            rw [hshift]
            exact h.retried i (Nat.lt_of_succ_lt_succ hi)
        · intro i d' hd'
          cases i with
          | zero =>
            obtain rfl := Option.some.inj hd'
            exact Option.filter_eq_some_iff.mp hpause
          | succ i =>
            rw [hshift]
            exact h.paused i d' hd'
        · rw [List.length_cons, hshift]
          rcases h.last_eq with ⟨hlast, hnot⟩ | ⟨hlast, hless, hmore⟩
          · exact Or.inl ⟨hlast, fun hlt => hnot (Nat.lt_of_succ_lt_succ hlt)⟩
          · exact Or.inr ⟨hlast, Nat.succ_lt_succ hless, hmore⟩
    · rw [if_neg hretried]
      exact ⟨[], _, rfl, rfl, Nat.zero_le _, by simp, by simp, Or.inl ⟨rfl, fun _ => Bool.eq_false_iff.mpr hretried⟩⟩

/-- How a call that is not to be repeated ends: with its text, or with the error that its caller has for it. -/
inductive EndsWith (k : Caller) : Outcome → End → Prop where
  | text {status : ℕ} {retryAfter : Option Text} {body : Body} {t : Text} (success : isSuccess status = true)
      (extracted : extract k body = .ok t) : EndsWith k (.response status retryAfter body) (.text t)
  | unreadable {status : ℕ} {retryAfter : Option Text} {body : Body} {e : ExtractError} (success : isSuccess status = true)
      (failed : extract k body = .error e) : EndsWith k (.response status retryAfter body) .onOther
  | http {status : ℕ} {retryAfter : Option Text} {body : Body} (refused : isSuccess status = false) :
      EndsWith k (.response status retryAfter body) (.onHttp status)
  | timeout : EndsWith k .timeout .onTimeout
  | transportError : EndsWith k .transportError .onOther
  | other : EndsWith k .other .onOther

theorem endsWith_finish (o : Outcome) : EndsWith k o (finish k o).2 := by
  cases o with
  | response status retryAfter body =>
    unfold finish
    by_cases hsuccess : isSuccess status = true
    · simp only [if_pos hsuccess]
      cases hextract : extract k body with
      | ok t => exact .text hsuccess hextract
      | error e => exact .unreadable hsuccess hextract
    · simp only [if_neg hsuccess]
      exact .http (Bool.eq_false_iff.mpr hsuccess)
  | timeout => exact .timeout
  | transportError => exact .transportError
  | other => exact .other

theorem EndsWith.ne_overflowError {e : End} (h : EndsWith k o e) : e ≠ .overflowError := by
  cases h <;> exact End.noConfusion

theorem isPost_spends (body : Body) : (spends k body).countP Act.isPost = 0 := by
  unfold spends
  cases k.extractor <;> rfl

theorem isSpend_spends (body : Body) : (spends k body).countP Act.isSpend = if k.extractor.billed then 1 else 0 := by
  unfold spends
  cases k.extractor <;> rfl

theorem isPost_finish (o : Outcome) : (finish k o).1.countP Act.isPost = 1 := by
  cases o with
  | response status retryAfter body =>
    unfold finish
    by_cases hsuccess : isSuccess status = true
    · simp only [if_pos hsuccess]
      rw [List.countP_cons_of_pos rfl, isPost_spends]
    · simp only [if_neg hsuccess]
      rfl
  | _ => rfl

theorem isSpend_finish (o : Outcome) : (finish k o).1.countP Act.isSpend = if k.extractor.billed && succeeds o then 1 else 0 := by
  cases o with
  | response status retryAfter body =>
    unfold finish
    by_cases hsuccess : isSuccess status = true
    · simp only [if_pos hsuccess]
      rw [List.countP_cons_of_neg (by decide), isSpend_spends, succeeds, hsuccess, Bool.and_true]
    · simp only [if_neg hsuccess]
      rw [succeeds, Bool.eq_false_iff.mpr hsuccess, Bool.and_false]
      rfl
  | _ =>
    rw [succeeds, Bool.and_false]
    · rfl
    · rintro status retryAfter body ⟨⟩

theorem not_sleep_finish (o : Outcome) : .sleep d ∉ (finish k o).1 := by
  cases o with
  | response status retryAfter body =>
    unfold finish
    by_cases hsuccess : isSuccess status = true
    · simp only [if_pos hsuccess, spends]
      cases k.extractor <;> simp
    · simp only [if_neg hsuccess]
      simp
  | _ => simp [finish]

/-- The pauses after which there is another attempt. -/
theorem countP_pauses (delays : List Seconds) : (delays.flatMap fun d => [Act.post, .sleep d]).countP Act.isPost = delays.length ∧
    (delays.flatMap fun d => [Act.post, .sleep d]).countP Act.isSpend = 0 := by
  induction delays with
  | nil => exact ⟨rfl, rfl⟩
  | cons d delays ih =>
    rw [List.flatMap_cons, List.countP_append, List.countP_append, ih.1, ih.2, List.length_cons, Nat.add_comm delays.length]
    exact ⟨rfl, rfl⟩

end Runs

/-- **Retries are bounded, nothing that succeeds is asked for again, and each success is billed once.** -/
structure Accounted (k : Caller) (outcomes : ℕ → Outcome) (acts : List Act) (e : End) : Prop where
  bounded : acts.countP Act.isPost ≤ k.settings.maxRetries + 1
  /-- Another post comes after an outcome that allows it alone, and so never after a success. -/
  again : ∀ i, i + 1 < acts.countP Act.isPost → retried k (outcomes i) = true ∧ succeeds (outcomes i) = false
  pauses : ∀ d, .sleep d ∈ acts → 0 ≤ d ∧ d ≤ k.settings.backoffMax
  ends : ∃ n, acts.countP Act.isPost = n + 1 ∧ EndsWith k (outcomes n) e
  spent : acts.countP Act.isSpend =
    if k.extractor.billed then (List.range (acts.countP Act.isPost)).countP fun i => succeeds (outcomes i) else 0

/-- After each attempt that is repeated there is a pause that the platform takes: what a valid header
asks for, or, before the attempt 1024, `min(backoff_base * 2**attempt, backoff_max)`. -/
def Pausable (k : Caller) (outcomes : ℕ → Outcome) : Prop :=
  ∀ i < k.settings.maxRetries, (∀ j ≤ i, retried k (outcomes j) = true) →
    ∃ d, delayAfter k i (outcomes i) = some d ∧ k.canSleep d = true

/-- **Exactly where the pauses are no longer than the platform takes.** -/
theorem retries_accounted (k : Caller) (outcomes : ℕ → Outcome) :
    Accounted k outcomes (postWithRetry k outcomes).1 (postWithRetry k outcomes).2 ↔ Pausable k outcomes := by
  obtain ⟨delays, last, h⟩ : ∃ delays last, Shape k outcomes k.settings.maxRetries 0 (postWithRetry k outcomes) delays last :=
    run_shape k outcomes k.settings.maxRetries 0
  have hshape := h.last_eq
  simp only [Nat.zero_add] at hshape
  have hretried : ∀ i < delays.length, retried k (outcomes i) = true := by simpa using h.retried
  have hpaused : ∀ i d, delays[i]? = some d → delayAfter k i (outcomes i) = some d ∧ k.canSleep d = true := by
    simpa using h.paused
  constructor
  · intro haccounted i hi hall
    rcases hshape with ⟨-, hstops⟩ | ⟨hlast, -⟩
    · by_cases hlt : i < delays.length
      · exact ⟨delays[i], hpaused i _ (List.getElem?_eq_getElem hlt)⟩
      · have hstop := hstops (by omega)
        rw [hall delays.length (by omega)] at hstop
        cases hstop
    · obtain ⟨n, -, hends⟩ := haccounted.ends
      rw [h.ends, hlast] at hends
      exact absurd rfl hends.ne_overflowError
  · intro hpausable
    rcases hshape with ⟨hlast, hstops⟩ | ⟨-, hless, hmore, hnone⟩
    · have hposts : (postWithRetry k outcomes).1.countP Act.isPost = delays.length + 1 := by
        rw [h.acts, List.countP_append, (countP_pauses delays).1, hlast, isPost_finish]
      have hfailed : ∀ i < delays.length, succeeds (outcomes i) = false :=
        fun i hi => not_succeeds_of_retried (hretried i hi)
      refine ⟨?_, ?_, ?_, ⟨delays.length, hposts, ?_⟩, ?_⟩
      · rw [hposts]
        exact Nat.succ_le_succ h.length_le
      · rw [hposts]
        exact fun i hi => ⟨hretried i (by omega), hfailed i (by omega)⟩
      · intro d hd
        rw [h.acts, hlast, List.mem_append] at hd
        have hmem := hd.resolve_right (not_sleep_finish _)
        obtain ⟨d', hd', hact⟩ := List.mem_flatMap.mp hmem
        obtain rfl : d = d' := by simpa using hact
        obtain ⟨i, hi⟩ := List.mem_iff_getElem?.mp hd'
        exact delayAfter_bounds (hpaused i d hi).1
      · rw [h.ends, hlast]
        exact endsWith_finish _
      · have hzero : (List.range delays.length).countP (fun i => succeeds (outcomes i)) = 0 := by
          rw [List.countP_eq_zero]
          intro i hi
          simp [hfailed i (List.mem_range.mp hi)]
        rw [hposts, h.acts, List.countP_append, (countP_pauses delays).2, hlast, isSpend_finish, List.range_succ,
          List.countP_append, hzero, Nat.zero_add, Nat.zero_add, List.countP_singleton]
        cases k.extractor.billed with
        | false => rfl
        | true => rw [Bool.true_and, if_pos rfl]
    · obtain ⟨d, hd, hsleep⟩ := hpausable delays.length hless fun j hj => by
        rcases Nat.lt_or_eq_of_le hj with hlt | rfl
        · exact hretried j hlt
        · exact hmore
      rw [hd, Option.filter_some, if_pos hsleep] at hnone
      cases hnone

/-- Pauses of ten thousand million seconds. -/
def patient : LlmConfig :=
  [("retry".toList, .dict [("max_retries".toList, .int 1), ("backoff_base_sec".toList, .float (.num 10000000000)),
    ("backoff_max_sec".toList, .float (.num 10000000000))])]

def patientSettings : RetrySettings where
  maxRetries := 1
  backoffBase := floorZero (.num 10000000000)
  backoffMax := floorZero (.num 10000000000)
  base_nonneg := floorZero_nonneg _
  max_nonneg := floorZero_nonneg _

/-- A grok client on a platform that counts nanoseconds with 64 bits. -/
def patientCaller : Caller where
  formats := plainEnv.formats
  repr := fun _ => []
  canSleep d := d < ((9223372037 : ℚ) : Seconds)
  settings := patientSettings
  retryOnTimeout := true
  extractor := .grok "grok-4".toList
  spendContext := []

/-- The pause after a lost connection raises, and what it raises is not mapped. -/
theorem pause_escapes :
    readSettings plainEnv patient = .ok patientSettings ∧
      postWithRetry patientCaller (fun _ => .transportError) = ([.post], .overflowError) ∧
      ¬ Accounted patientCaller (fun _ => .transportError) [.post] .overflowError := by
  have hsleep : patientCaller.canSleep (min (scaled patientSettings.backoffBase 0) patientSettings.backoffMax) = false := by
    decide +kernel
  refine ⟨rfl, ?_, fun h => ?_⟩
  · show attempts patientCaller _ 1 0 = _
    have hretried : retried patientCaller .transportError = true := rfl
    have hdelay : delayAfter patientCaller 0 .transportError =
        some (min (scaled patientSettings.backoffBase 0) patientSettings.backoffMax) := rfl
    rw [attempts, if_pos hretried, hdelay, Option.filter_some, hsleep]
    rfl
  · obtain ⟨n, -, hends⟩ := h.ends
    exact hends.ne_overflowError rfl

end CyClaw.Llm.Retry

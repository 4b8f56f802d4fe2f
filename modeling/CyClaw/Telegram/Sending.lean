/-
Sending a message, `send_message` of `telegram/client.py`.

The pieces of a text are posted one after the other against slots of the rate limiter that
are held for the whole batch: one for each piece, and as many more for retries as the limit
allows.  A piece is retried once, where the Bot API says how long to wait and a slot for it
is left.  What is not used goes back whichever way the batch ends.

The clock and the Bot API come from outside.  Every reading of the clock and every post is
the next one of an arbitrary sequence, and the readings that end in a log line only are left
out.  `posted` is not in the source: it lists the posts with what became of them.
-/
import CyClaw.Lib.Binary64
import CyClaw.Telegram.Capacity
import CyClaw.Telegram.Chunks

namespace CyClaw.Telegram

abbrev Fields := List (Text × PyValue)

/-! ### Errors -/

/-- The details of a `TelegramRuntimeError`, with the keys that are there. -/
structure RuntimeDetails where
  method : Text
  status : Option ℕ
  retryAfter : Option (Option ℚ)
  retryable : Bool
  fatal : Option Bool

inductive SendError where
  /-- `TelegramRefused`: the allowlist. -/
  | notAllowed (chat : Text)
  /-- `TelegramRefused`: no text. -/
  | emptyText
  /-- `TelegramRefused`: the limiter. -/
  | rateLimited (refusal : Refusal)
  /-- `TelegramRuntimeError` -/
  | runtime (message : Text) (details : RuntimeDetails)
  /-- `TelegramConfigError`: no token. -/
  | noToken
  | valueError (message : Text)
  /-- A `RuntimeError` of the limiter or of the reservation. -/
  | limiterError (message : Text)
  /-- What the transport or the audit log raises else. -/
  | raised

def SendError.isRuntime : SendError → Bool
  | .runtime _ _ => true
  | _ => false

/-- An error that the limiter returns instead of slots. -/
def SendError.ofLimiter : LimiterResult → SendError
  | .refused refusal => .rateLimited refusal
  | .valueError message => .valueError message
  | .runtimeError message => .limiterError message
  | _ => .raised

/-! ### The outside -/

/-- What comes of a post. -/
inductive Response where
  /-- `httpx.HTTPError`, with the name of its type. -/
  | transportError (type : Text)
  /-- Any other exception. -/
  | raised
  /-- A status, and the body if it is JSON. -/
  | answer (status : ℕ) (body : Option PyValue)

/-- A post, and whether its audit record could be written. -/
structure Attempt where
  response : Response
  audited : Bool

structure Outside where
  clock : ℕ → ℚ
  attempts : ℕ → Attempt
  /-- `_token_pseudonym` -/
  tokenPseudonym : Text → Text

/-- What `send_message` reads and changes. -/
structure Sender where
  limiter : SlidingWindowLimiter
  /-- `_RETRY_NOT_BEFORE`, 0 where there is nothing. -/
  retryNotBefore : Text → ℚ
  /-- How often the clock was read. -/
  ticks : ℕ
  /-- For the proofs: the pieces that were posted, and whether the Bot API took them. -/
  posted : List (Text × Bool)

def Sender.readClock (out : Outside) (S : Sender) : ℚ × Sender := (out.clock S.ticks, { S with ticks := S.ticks + 1 })

def Sender.post (S : Sender) (body : Text) (accepted : Bool) : Sender :=
  { S with posted := S.posted ++ [(body, accepted)] }

def Sender.setRetry (S : Sender) (key : Text) (deadline : ℚ) : Sender :=
  { S with retryNotBefore := Function.update S.retryNotBefore key deadline }

/-! ### The code -/

def retryAfterCapSec : ℚ := 60

def retryAfterMaxSec : ℚ := 86400

def max429Retries : ℕ := 1

def outboundKey : Text := "tg:outbound".toList

/-- `_http_status_is_retryable` -/
def httpStatusIsRetryable (status : ℕ) : Bool := [408, 409, 425, 429].contains status || 500 ≤ status

/-- `_bot_api_response_is_retryable` -/
def botApiResponseIsRetryable (status : ℕ) : Bool :=
  (200 ≤ status && status < 300) || httpStatusIsRetryable status

/-- `_bot_api_response_is_fatal` -/
def botApiResponseIsFatal (status : ℕ) : Bool :=
  [401, 404].contains status || (300 ≤ status && status < 400)

/-- The delay that `_handle_retry_after` finds in a response. -/
def delayOf (data : Fields) : Option ℚ :=
  let value : Option PyValue :=
    match PyValue.get data "parameters" with
    | some (.dict parameters) => PyValue.get parameters "retry_after"
    | _ => none
  match value with
  | some (.int n) =>
      if n < 0 then none
      else
        match PyFloat.ofInt n with
        | .ok (.num q) => some q
        | _ => none
  | some (.float (.num q)) => if q < 0 then none else some q
  | _ => none

section Code

variable (out : Outside)

/-- `_handle_retry_after` -/
def handleRetryAfter (data : Fields) (token : Text) (attempt : ℕ) (method : Text) (maxRetries : ℕ)
    (S : Sender) : Except SendError (Bool × Option ℚ) × Sender :=
  match delayOf data with
  | none => (.ok (false, none), S)
  | some delay =>
      if retryAfterMaxSec < delay then
        (.error (.runtime ("Telegram ".toList ++ method ++ " returned an unsafe retry_after".toList)
          { method := method, status := some 429, retryAfter := none, retryable := false,
            fatal := some true }), S)
      else
        let key := out.tokenPseudonym token
        let (now, S) := S.readClock out
        let deadline := now + delay
        let S := S.setRetry key (max (S.retryNotBefore key) deadline)
        if maxRetries ≤ attempt ∨ retryAfterCapSec < delay then (.ok (false, some delay), S)
        -- A later deadline of another 429 stays.
        else if S.retryNotBefore key ≤ deadline then (.ok (true, some delay), S.setRetry key 0)
        else (.ok (true, some delay), S)

/-- `_raise_during_retry_cooldown`, with what it raises. -/
def raiseDuringRetryCooldown (token method : Text) (S : Sender) : Option SendError × Sender :=
  let key := out.tokenPseudonym token
  let (now, S) := S.readClock out
  let deadline := S.retryNotBefore key
  if deadline ≤ now then (none, S.setRetry key 0)
  else
    (some (.runtime ("Telegram ".toList ++ method ++ " deferred by Bot API flood control".toList)
      { method := method, status := some 429, retryAfter := some (some (max 1 ⌈deadline - now⌉ : ℤ)),
        retryable := true, fatal := none }), S)

/-- Whether the Bot API has taken the message. -/
def isSent (status : ℕ) (data : Fields) : Bool :=
  (match PyValue.get data "ok" with
    | some (.bool true) => true
    | _ => false) &&
  status == 200 &&
  match PyValue.get data "result" with
  | some (.dict result) =>
      match PyValue.get result "message_id" with
      | some (.int _) => true
      | _ => false
  | _ => false

def Response.isSent : Response → Bool
  | .answer status (some (.dict data)) => CyClaw.Telegram.isSent status data
  | _ => false

/-- A failed answer of the Bot API. -/
def responseError (message : Text) (status : ℕ) (retryAfter : Option (Option ℚ)) : SendError :=
  .runtime (message ++ " (HTTP ".toList ++ (Nat.repr status).toList ++ ")".toList)
    { method := "sendMessage".toList, status := some status, retryAfter := retryAfter,
      retryable := botApiResponseIsRetryable status, fatal := some (botApiResponseIsFatal status) }

/-- What `_send_one` does with what comes of a post: the response to return, or whether to try
again. -/
def receive (a : Attempt) (token : Text) (attempt maxRetries : ℕ) (S : Sender) :
    Except SendError (Option Fields) × Sender :=
  match a.response with
  | .raised => (.error .raised, S)
  | .transportError type =>
      if a.audited then
        (.error (.runtime ("Telegram sendMessage transport error: ".toList ++ type)
          { method := "sendMessage".toList, status := none, retryAfter := none, retryable := true,
            fatal := none }), S)
      else (.error .raised, S)
  | .answer status body =>
      if a.audited = false then (.error .raised, S)
      else
        match body with
        | none => (.error (responseError "Telegram sendMessage returned non-JSON".toList status none), S)
        | some (.dict data) =>
            if isSent status data then (.ok (some data), S)
            else if status = 429 then
              match handleRetryAfter out data token attempt "sendMessage".toList maxRetries S with
              | (.error e, S) => (.error e, S)
              | (.ok (true, _), S) => (.ok none, S)
              | (.ok (false, retryAfter), S) =>
                  (.error (responseError "Telegram sendMessage failed".toList status (some retryAfter)), S)
            else (.error (responseError "Telegram sendMessage failed".toList status (some none)), S)
        | some _ =>
            (.error (responseError "Telegram sendMessage returned non-object JSON".toList status none), S)

variable (P : LimiterPolicy)

/-- The loop of `_send_one` with `left` attempts to go. -/
def sendLoop (body token : Text) (maxRetries : ℕ) :
    ℕ → ℕ → RateLimitReservation → Sender → Except SendError (Fields × ℕ) × RateLimitReservation × Sender
  | 0, _, r, S =>
      (.error (.runtime "Telegram sendMessage retry loop exhausted".toList
        { method := "sendMessage".toList, status := none, retryAfter := none, retryable := true,
          fatal := none }), r, S)
  | left + 1, attempt, r, S =>
      match raiseDuringRetryCooldown out token "sendMessage".toList S with
      | (some e, S) => (.error e, r, S)
      | (none, S) =>
          let (now, S) := S.readClock out
          match r.consume P now S.limiter with
          | (.done, r, L) =>
              let a := out.attempts S.posted.length
              let S := { S with limiter := L }.post body a.response.isSent
              match receive out a token attempt maxRetries S with
              | (.error e, S) => (.error e, r, S)
              | (.ok (some data), S) => (.ok (data, attempt + 1), r, S)
              | (.ok none, S) => sendLoop body token maxRetries left (attempt + 1) r S
          | (failed, r, L) => (.error (.ofLimiter failed), r, { S with limiter := L })

/-- `_send_one` -/
def sendOne (body token : Text) (r : RateLimitReservation) (maxRetries : ℕ) (S : Sender) :
    Except SendError (Fields × ℕ) × RateLimitReservation × Sender :=
  sendLoop out P body token maxRetries (maxRetries + 1) 0 r S

/-- The loop of `send_message` over the pieces; `last` is the last response so far. -/
def sendPieces (token : Text) :
    List Text → ℤ → Fields → RateLimitReservation → Sender →
      Except SendError Fields × RateLimitReservation × Sender
  | [], _, last, r, S => (.ok last, r, S)
  | piece :: pieces, retrySlots, _, r, S =>
      match sendOne out P piece token r (if 0 < retrySlots then max429Retries else 0) S with
      | (.error e, r, S) => (.error e, r, S)
      | (.ok (last, attempts), r, S) =>
          sendPieces token pieces (retrySlots - (attempts - 1 : ℤ)) last r S

/-- How many slots beyond one a piece are asked for. -/
def retrySlotsFor (n : ℕ) : ℤ := min (n * max429Retries : ℕ) (max 0 ((P.maxOps : ℤ) - n))

/-- What `send_message` does once it has pieces and a token. -/
def sendBatch (repr : Text → Text) (token : Text) (pieces : List Text) (S : Sender) :
    Except SendError Fields × Sender :=
  match raiseDuringRetryCooldown out token "sendMessage".toList S with
  | (some e, S) => (.error e, S)
  | (none, S) =>
      let (now, S) := S.readClock out
      match reserveUpTo repr P outboundKey pieces.length
          (pieces.length + retrySlotsFor P pieces.length) now S.limiter with
      | (.error failed, L) => (.error (.ofLimiter failed), { S with limiter := L })
      | (.ok granted, L) =>
          let (result, r, S) := sendPieces out P token pieces ((granted : ℤ) - pieces.length) []
            ⟨outboundKey, granted⟩ { S with limiter := L }
          -- finally
          match r.close S.limiter with
          | (.runtimeError message, _, L) => (.error (.limiterError message), { S with limiter := L })
          | (_, _, L) => (result, { S with limiter := L })

/-- `send_message`; `token` is what `resolve_bot_token` finds. -/
def sendMessage (repr : Text → Text) (cfg : Config) (token : Option Text) (chat text : Text) (S : Sender) :
    Except SendError Fields × Sender :=
  if cfg.isChatAllowed chat = false then (.error (.notAllowed chat), S)
  else
    match chunkText text cfg.maxMessageChars with
    | .error message => (.error (.valueError message), S)
    | .ok pieces =>
        if pieces = [] then (.error .emptyText, S)
        else
          match token with
          | none => (.error .noToken, S)
          | some token => sendBatch out P repr token pieces S

end Code

end CyClaw.Telegram

/-
What becomes of an answer that a consent was spent on (`telegram/runner.py`).

`handle_inbound_text` claims the consent of the chat, asks, and sends the answer.  The
consent is gone by then and the answer paid for, so a failed send is put on record before
the exception goes on.  The handler does that for a `TelegramRuntimeError`.  The limiter
refuses with a `TelegramRefused`, which is no `TelegramRuntimeError`, and then the answer is
lost with nothing on record (`answer_accounted_iff`).

The gates, the commands and the consent are those of the poller's model; the limiter and the
sending are the ones of this channel, no longer answers from outside (`handleInboundText_refines`).
The log keeps the records about the consent.
-/
import CyClaw.Telegram.Consent
import CyClaw.Telegram.Reservations

namespace CyClaw.Telegram.Delivery

open PyText SlidingWindow

/-! ### The texts -/

/-- The text of a value, if it has one that is not blank. -/
def inked : Option PyValue → Option Text
  | some (.str t) => if strip t = [] then none else some t
  | _ => none

/-- The answer of a nested object. -/
def nestedAnswer : Option PyValue → Option Text
  | some (.dict inner) => inked (PyValue.get inner "answer")
  | _ => none

/-- `_extract_answer` -/
def extractAnswer (response : Fields) : Text :=
  match ["answer", "response", "text", "output"].findSome? fun key => inked (PyValue.get response key) with
  | some t => t
  | none =>
      match ["data", "result"].findSome? fun key => nestedAnswer (PyValue.get response key) with
      | some t => t
      | none =>
          match inked (PyValue.get response "error") with
          | some t => "(error) ".toList ++ strip t
          | none => "(no answer field in /query response)".toList

def helpText : String :=
  "CyClaw Telegram channel\n" ++
  "/help — this text\n" ++
  "/status — loopback CyClaw /health\n" ++
  "/id — your chat id\n" ++
  "/online on <grok|claude> — one explicit external fallback for your next " ++
  "private-chat message only\n" ++
  "Anything else → local RAG via POST /query (mode=chat).\n" ++
  "Media staging requires a private-chat photo/document captioned /save --confirm <reason>."

def Provider.name : Provider → String
  | .grok => "grok"
  | .claude => "claude"

/-- The reply to a command; `health` is what `/health` gave. -/
def replyText (cfg : Config) (chat health : Text) : Reply → Text
  | .help => helpText.toList
  | .chatId => "chat_id=".toList ++ chat
  | .health => health
  | .hybridDisabled => "Hybrid confirmation is disabled by telegram.allow_hybrid_confirm.".toList
  | .privateChatOnly =>
      ("Hybrid confirmation (/online) is private-chat only. " ++
        "Use a 1:1 DM with the bot, not a group.").toList
  | .usage => "Usage: /online on <grok|claude> (one next private-chat message only).".toList
  | .armed provider =>
      ("One " ++ Provider.name provider ++ " confirmation is armed for your next non-command private " ++
        "message for up to " ++ Nat.repr cfg.hybridConfirmTtlSec ++ " seconds.").toList
  | .saveHint => "Attach a photo or document with caption: /save --confirm <reason>".toList

/-! ### The handler -/

/-- The audit records about a consent, with what they name. -/
inductive ConsentRecord where
  | stateError (chat : Text) (updateId : Option ℕ)
  | consumed (chat : Text) (updateId : Option ℕ) (provider : Provider) (queryHash : Text) (queryLen : ℕ)
  | undelivered (chat : Text) (updateId : Option ℕ) (provider : Provider) (queryHash : Text)
deriving DecidableEq

structure Inbox where
  bridge : Bridge
  sender : Sender
  audit : List ConsentRecord

/-- What comes from outside while a message is handled, beside the clock and the Bot API. -/
structure Inbound where
  io : Io
  /-- What `post_query` returns. -/
  response : Fields
  health : Text

/-- How the poller sees an error of `send_message`. -/
def failureOf : SendError → Failure
  | .notAllowed _ => .refused .allowlist
  | .emptyText => .refused .other
  | .rateLimited refusal => .refused (if refusal.gate = "rate_limit".toList then .rateLimit else .other)
  | .runtime _ details => .runtime (some details.retryable) (details.fatal.getD false)
  | _ => .other

def inboundKey (chat : Text) : Text := "tg:inbound:".toList ++ chat

section Code

variable (out : Outside) (P : LimiterPolicy) (repr : Text → Text) (cfg : Config) (token : Option Text)
  (hashQuery lower : Text → Text)

/-- `handle_inbound_text`, from the claim of a consent on. -/
def answerQuery (chat text chatType : Text) (uid : Option ℕ) (env : Inbound) (inb : Inbox) :
    Inbox × Except Failure Unit :=
  match claimConsent cfg chat chatType env.io inb.bridge with
  | (b, .error f) => ({ inb with bridge := b, audit := inb.audit ++ [.stateError chat uid] }, .error f)
  | (b, .ok provider) =>
      let consumed := provider.toList.map fun p => .consumed chat uid p (hashQuery text) text.length
      match postQuery cfg chat text uid provider.isSome env.io b with
      | (b, .error f) => ({ inb with bridge := b, audit := inb.audit ++ consumed }, .error f)
      | (b, .ok ()) =>
          match sendMessage out P repr cfg token chat (extractAnswer env.response) inb.sender with
          | (.ok _, S) => (⟨b, S, inb.audit ++ consumed⟩, .ok ())
          | (.error e, S) =>
              -- except TelegramRuntimeError
              let lost := if e.isRuntime then
                provider.toList.map fun p => .undelivered chat uid p (hashQuery text) else []
              (⟨b, S, inb.audit ++ consumed ++ lost⟩, .error (failureOf e))

/-- `handle_inbound_text` -/
def handleInboundText (chat text chatType : Text) (uid : Option ℕ) (env : Inbound) (inb : Inbox) :
    Inbox × Except Failure Unit :=
  match cfg.admits chat with
  | .error f => (inb, .error f)
  | .ok () =>
      let (now, S) := inb.sender.readClock out
      match check repr P (inboundKey chat) 1 now S.limiter with
      | (.done, L) =>
          let inb := { inb with sender := { S with limiter := L } }
          match dispatchCommand lower cfg chat chatType text uid env.io inb.bridge with
          | (b, .error f) => ({ inb with bridge := b }, .error f)
          | (b, .ok (some reply)) =>
              let (result, S) := sendMessage out P repr cfg token chat (replyText cfg chat env.health reply) inb.sender
              (⟨b, S, inb.audit⟩, (result.map fun _ => ()).mapError failureOf)
          | (b, .ok none) =>
              answerQuery out P repr cfg token hashQuery chat text chatType uid env { inb with bridge := b }
      | (_, L) => ({ inb with sender := { S with limiter := L } }, .error (.refused .rateLimit))

end Code

variable {out : Outside} {P : LimiterPolicy} {repr : Text → Text} {cfg : Config} {token : Option Text}
  {hashQuery lower : Text → Text} {chat text chatType : Text} {uid : Option ℕ} {env : Inbound} {inb : Inbox}

/-! ### An answer is no blank -/

theorem strip_of_inked {v : Option PyValue} {t : Text} (h : inked v = some t) : strip t ≠ [] := by
  rw [inked.eq_def] at h
  split at h
  · split at h
    · cases h
    · rename_i hne
      rw [Option.some.injEq] at h
      rwa [← h]
  · cases h

theorem strip_of_nestedAnswer {v : Option PyValue} {t : Text} (h : nestedAnswer v = some t) : strip t ≠ [] := by
  rw [nestedAnswer.eq_def] at h
  split at h
  · exact strip_of_inked h
  · cases h

theorem strip_extractAnswer (response : Fields) : strip (extractAnswer response) ≠ [] := by
  rw [extractAnswer]
  split
  · rename_i t ht
    obtain ⟨key, -, hkey⟩ := List.exists_of_findSome?_eq_some ht
    exact strip_of_inked hkey
  · split
    · rename_i t ht
      obtain ⟨key, -, hkey⟩ := List.exists_of_findSome?_eq_some ht
      exact strip_of_nestedAnswer hkey
    · split
      · exact strip_ne_nil ⟨'(', by simp, by decide⟩
      · exact strip_ne_nil ⟨'(', by simp, by decide⟩

/-! ### What `send_message` does with an answer -/

/-- **When `send_message` raises something else than a `TelegramRuntimeError`**: there is no token,
or no cooldown is in force and the outbound limiter has no room for the pieces. -/
def Refuses (out : Outside) (P : LimiterPolicy) (cfg : Config) (token : Option Text) (answer : Text)
    (S : Sender) : Prop :=
  token = none ∨ ∃ t pieces, token = some t ∧ chunkText answer cfg.maxMessageChars = .ok pieces ∧
    S.retryNotBefore (out.tokenPseudonym t) ≤ out.clock S.ticks ∧
    ¬ HasRoom P S.limiter outboundKey (out.clock (S.ticks + 1)) pieces.length

theorem cooldown_none_iff {t method : Text} {S : Sender} :
    (raiseDuringRetryCooldown out t method S).1 = none ↔
      S.retryNotBefore (out.tokenPseudonym t) ≤ out.clock S.ticks := by
  rw [raiseDuringRetryCooldown]
  dsimp only [Sender.readClock]
  split
  · rename_i h
    exact ⟨fun _ => h, fun _ => rfl⟩
  · rename_i h
    refine ⟨fun hnone => ?_, fun hle => absurd hle h⟩
    cases hnone

/-- How sending an answer ends, with `posted` the posts made. -/
inductive SendEnd (answer : Text) (refuses : Prop) (result : Except SendError Fields) (posted : List (Text × Bool)) :
    Prop
  | delivered (hok : ∃ data, result = .ok data) (htaken : (taken posted).flatten = answer) (hroom : ¬ refuses)
  | failed (e : SendError) (he : result = .error e) (hruntime : e.isRuntime = true) (hroom : ¬ refuses)
  | refused (e : SendError) (he : result = .error e) (hruntime : e.isRuntime = false) (hnone : posted = [])
      (hroom : refuses)

theorem sendMessage_end (P : LimiterPolicy) (repr : Text → Text) (token : Option Text) {answer : Text} (S : Sender)
    (hmax : 0 < cfg.maxMessageChars)
    (hdoc : ∀ i, (out.attempts i).Documented) (hchat : cfg.isChatAllowed chat = true) (hanswer : strip answer ≠ []) :
    ∃ posted, (sendMessage out P repr cfg token chat answer S).2.posted = S.posted ++ posted ∧
      SendEnd answer (Refuses out P cfg token answer S) (sendMessage out P repr cfg token chat answer S).1 posted := by
  have hpos : (0 : ℤ) < (cfg.maxMessageChars : ℤ) := by omega
  obtain ⟨pieces, hpieces, hflat, -⟩ := chunkText_cutOff hanswer hpos
  have hne : pieces ≠ [] := by
    rintro rfl
    rw [← hflat] at hanswer
    exact hanswer rfl
  rw [sendMessage, if_neg (by simp [hchat]), hpieces]
  dsimp only
  rw [if_neg hne]
  cases token with
  | none => exact ⟨[], by simp, .refused .noToken rfl rfl rfl (Or.inl rfl)⟩
  | some t =>
      dsimp only
      have hrefuses : Refuses out P cfg (some t) answer S ↔
          S.retryNotBefore (out.tokenPseudonym t) ≤ out.clock S.ticks ∧
            ¬ HasRoom P S.limiter outboundKey (out.clock (S.ticks + 1)) pieces.length := by
        constructor
        · rintro (hnone | ⟨t', pieces', ht, hpieces', hcool, hroom⟩)
          · cases hnone
          · rw [Option.some.injEq] at ht
            rw [hpieces, Except.ok.injEq] at hpieces'
            subst ht hpieces'
            exact ⟨hcool, hroom⟩
        · rintro ⟨hcool, hroom⟩
          exact Or.inr ⟨t, pieces, rfl, hpieces, hcool, hroom⟩
      obtain ⟨posted, hposted, -, ⟨⟨e, hcool, he, hruntime⟩, rfl⟩ | ⟨hcool, ⟨refusal, L, -, hroom, he, rfl⟩ |
        ⟨granted, L, -, hroom, -, -, -, hend⟩⟩⟩ := (sendBatch_run out P repr t hne S).ends
      · refine ⟨[], hposted, .failed e he hruntime fun h => ?_⟩
        rw [cooldown_none_iff.mpr (hrefuses.mp h).1] at hcool
        cases hcool
      · exact ⟨[], hposted, .refused _ he rfl rfl (hrefuses.mpr ⟨cooldown_none_iff.mp hcool, hroom⟩)⟩
      · have hok : ¬ Refuses out P cfg (some t) answer S := fun h => (hrefuses.mp h).2 hroom
        obtain ⟨data, hdata, htaken⟩ | ⟨e, he, hruntime | ⟨-, i, hi⟩⟩ := hend
        · exact ⟨posted, hposted, .delivered ⟨data, hdata⟩ (by rw [htaken, hflat]) hok⟩
        · exact ⟨posted, hposted, .failed e he hruntime hok⟩
        · exact absurd (hdoc i) hi

/-! ### The handler -/

/-- `post_query` returns an answer. -/
def Answered (cfg : Config) (text : Text) (env : Inbound) : Prop :=
  ¬ cfg.maxMessageChars < (strip text).length ∧ env.io.query = .ok ()

/-- The sender after the inbound check. -/
def checkedSender (out : Outside) (P : LimiterPolicy) (repr : Text → Text) (chat : Text) (S : Sender) : Sender :=
  { S with
    limiter := (check repr P (inboundKey chat) 1 (out.clock S.ticks) S.limiter).2
    ticks := S.ticks + 1 }

/-- The messages for which a consent is claimed: the gates and the inbound limiter let them
through, they are no commands, and a consent is there. -/
structure Claims (out : Outside) (P : LimiterPolicy) (repr : Text → Text) (cfg : Config) (lower : Text → Text)
    (chat text chatType : Text) (env : Inbound) (inb : Inbox) (provider : Provider) : Prop where
  gates : cfg.admits chat = .ok ()
  admitted : (check repr P (inboundKey chat) 1 (out.clock inb.sender.ticks) inb.sender.limiter).1 = .done
  plain : commandOf lower text = none
  consent : (claimConsent cfg chat chatType env.io inb.bridge).2 = .ok (some provider)

theorem handleInboundText_of_claims {provider : Provider}
    (h : Claims out P repr cfg lower chat text chatType env inb provider) :
    handleInboundText out P repr cfg token hashQuery lower chat text chatType uid env inb =
      answerQuery out P repr cfg token hashQuery chat text chatType uid env
        { inb with sender := checkedSender out P repr chat inb.sender } := by
  rw [handleInboundText, h.gates]
  dsimp only [Sender.readClock]
  have hadmitted := h.admitted
  cases hcheck : check repr P (inboundKey chat) 1 (out.clock inb.sender.ticks) inb.sender.limiter with
  | mk result L =>
      rw [hcheck] at hadmitted
      dsimp only at hadmitted
      subst hadmitted
      have hdispatch : dispatchCommand lower cfg chat chatType text uid env.io inb.bridge = (inb.bridge, .ok none) := by
        rw [dispatchCommand, h.plain]
      dsimp only
      rw [hdispatch, checkedSender, hcheck]

/-- What `answerQuery` writes: a claimed consent is on record as consumed, nothing else is. -/
theorem answerQuery_records (out : Outside) (P : LimiterPolicy) (repr : Text → Text) (cfg : Config)
    (token : Option Text) (hashQuery : Text → Text) (chat text chatType : Text) (uid : Option ℕ)
    (env : Inbound) (inb : Inbox) :
    ∃ records, (answerQuery out P repr cfg token hashQuery chat text chatType uid env inb).1.audit =
        inb.audit ++ records ∧
      ∀ p, .consumed chat uid p (hashQuery text) text.length ∈ records →
        (claimConsent cfg chat chatType env.io inb.bridge).2 = .ok (some p) := by
  rw [answerQuery]
  cases hclaim : claimConsent cfg chat chatType env.io inb.bridge with
  | mk b claimed =>
      cases claimed with
      | error f => exact ⟨_, rfl, by simp⟩
      | ok provider =>
          have hconsumed : ∀ lost : List ConsentRecord, (∀ e ∈ lost, ∃ p, e = .undelivered chat uid p (hashQuery text)) →
              ∀ p, .consumed chat uid p (hashQuery text) text.length ∈
                (provider.toList.map fun p => .consumed chat uid p (hashQuery text) text.length) ++ lost →
              (Except.ok provider : Except Failure (Option Provider)) = .ok (some p) := by
            intro lost hlost p hmem
            rw [List.mem_append] at hmem
            obtain hmem | hmem := hmem
            · obtain ⟨q, hq, heq⟩ := List.mem_map.mp hmem
              rw [ConsentRecord.consumed.injEq] at heq
              rw [← heq.2.2.1, ← Option.mem_toList.mp hq]
            · obtain ⟨q, hq⟩ := hlost _ hmem
              cases hq
          dsimp only
          cases hpost : postQuery cfg chat text uid provider.isSome env.io b with
          | mk b' asked =>
              cases asked with
              | error f => exact ⟨_, by simp, hconsumed [] (by simp)⟩
              | ok u =>
                  cases hsend : sendMessage out P repr cfg token chat (extractAnswer env.response) inb.sender with
                  | mk result S =>
                      cases result with
                      | ok data => exact ⟨_, by simp, hconsumed [] (by simp)⟩
                      | error e =>
                          refine ⟨_, List.append_assoc _ _ _, hconsumed _ ?_⟩
                          split
                          · simp
                          · simp

/-- A consent is on record as consumed for the messages that claim one. -/
theorem consumed_claims (out : Outside) (P : LimiterPolicy) (repr : Text → Text) (cfg : Config)
    (token : Option Text) (hashQuery lower : Text → Text) (chat text chatType : Text) (uid : Option ℕ)
    (env : Inbound) (inb : Inbox) :
    ∃ records, (handleInboundText out P repr cfg token hashQuery lower chat text chatType uid env inb).1.audit =
        inb.audit ++ records ∧
      ∀ p, .consumed chat uid p (hashQuery text) text.length ∈ records →
        Claims out P repr cfg lower chat text chatType env inb p := by
  rw [handleInboundText]
  cases hgates : cfg.admits chat with
  | error f => exact ⟨[], by simp, by simp⟩
  | ok u =>
      cases u
      dsimp only [Sender.readClock]
      cases hcheck : check repr P (inboundKey chat) 1 (out.clock inb.sender.ticks) inb.sender.limiter with
      | mk result L =>
          cases result
          case done =>
            dsimp only
            cases hdispatch : dispatchCommand lower cfg chat chatType text uid env.io inb.bridge with
            | mk b reply =>
                cases reply with
                | error f => exact ⟨[], by simp, by simp⟩
                | ok reply =>
                    cases reply with
                    | some reply => exact ⟨[], by simp, by simp⟩
                    | none =>
                        obtain ⟨hplain, rfl⟩ := dispatchCommand_plain hdispatch
                        obtain ⟨records, hrecords, hconsumed⟩ := answerQuery_records out P repr cfg token hashQuery
                          chat text chatType uid env ⟨inb.bridge, checkedSender out P repr chat inb.sender, inb.audit⟩
                        have hsender : checkedSender out P repr chat inb.sender =
                            { inb.sender with limiter := L, ticks := inb.sender.ticks + 1 } := by
                          rw [checkedSender, hcheck]
                        rw [hsender] at hrecords
                        exact ⟨records, hrecords, fun p hp => ⟨hgates, by rw [hcheck], hplain, hconsumed p hp⟩⟩
          all_goals exact ⟨[], by simp, by simp⟩

theorem key_ne (chat : Text) (h : outboundKey = inboundKey chat) : False := by
  have hout : outboundKey = "tg:".toList ++ 'o' :: "utbound".toList := rfl
  have hin : inboundKey chat = "tg:".toList ++ 'i' :: ("nbound:".toList ++ chat) := rfl
  rw [hout, hin, List.append_cancel_left_eq, List.cons.injEq] at h
  exact absurd h.1 (by decide)

theorem checkedSender_room (out : Outside) (P : LimiterPolicy) (repr : Text → Text) (chat : Text) (S : Sender)
    (now : ℚ) (n : ℕ) :
    HasRoom P (checkedSender out P repr chat S).limiter outboundKey now n ↔
      HasRoom P S.limiter outboundKey now n := by
  have hkey : outboundKey ≠ inboundKey chat := key_ne chat
  have hsame : (checkedSender out P repr chat S).limiter.events outboundKey = S.limiter.events outboundKey ∧
      (checkedSender out P repr chat S).limiter.reserved = S.limiter.reserved := by
    rw [checkedSender]
    dsimp only
    rw [check]
    split
    · exact ⟨rfl, rfl⟩
    · dsimp only
      split
      · exact ⟨pruned_events_of_ne hkey, rfl⟩
      · exact ⟨(charge_of_ne hkey).1.trans (pruned_events_of_ne hkey), rfl⟩
  rw [HasRoom, HasRoom, hsame.1, hsame.2]

/-- The inbound check leaves the outbound side alone, but for a reading of the clock. -/
theorem refuses_checkedSender (repr : Text → Text) (chat answer : Text) (S : Sender) :
    Refuses out P cfg token answer (checkedSender out P repr chat S) ↔
      Refuses out P cfg token answer { S with ticks := S.ticks + 1 } := by
  simp only [Refuses, checkedSender_room]
  rfl

/-- **How a message that a consent was spent on ends**: its answer is delivered, or it is not and
that is on record unless the sending refused. -/
theorem claimed_end (token : Option Text) (hashQuery : Text → Text) (uid : Option ℕ) {provider : Provider}
    (hmax : 0 < cfg.maxMessageChars)
    (hdoc : ∀ i, (out.attempts i).Documented)
    (h : Claims out P repr cfg lower chat text chatType env inb provider) (hanswered : Answered cfg text env) :
    ∃ posted lost,
      (handleInboundText out P repr cfg token hashQuery lower chat text chatType uid env inb).1.sender.posted =
        inb.sender.posted ++ posted ∧
      (handleInboundText out P repr cfg token hashQuery lower chat text chatType uid env inb).1.audit =
        inb.audit ++ (.consumed chat uid provider (hashQuery text) text.length :: lost) ∧
      ((¬ Refuses out P cfg token (extractAnswer env.response) { inb.sender with ticks := inb.sender.ticks + 1 } ∧
          ((taken posted).flatten = extractAnswer env.response ∨
            .undelivered chat uid provider (hashQuery text) ∈ lost)) ∨
        Refuses out P cfg token (extractAnswer env.response) { inb.sender with ticks := inb.sender.ticks + 1 } ∧
          posted = [] ∧ lost = []) := by
  have hchat : cfg.isChatAllowed chat = true := by
    have hgates := h.gates
    rw [Config.admits] at hgates
    split_ifs at hgates with h1 h2 h3
    exact Bool.not_eq_false _ ▸ h3
  rw [handleInboundText_of_claims h, answerQuery]
  dsimp only
  cases hclaim : claimConsent cfg chat chatType env.io inb.bridge with
  | mk b claimed =>
      obtain rfl : claimed = .ok (some provider) := by
        rw [← h.consent, hclaim]
      dsimp only
      rw [postQuery, if_neg hanswered.1, hanswered.2]
      dsimp only
      obtain ⟨posted, hposted, hend⟩ := sendMessage_end P repr token (checkedSender out P repr chat inb.sender)
        hmax hdoc hchat (strip_extractAnswer env.response)
      rw [← refuses_checkedSender repr chat]
      cases hsend : sendMessage out P repr cfg token chat (extractAnswer env.response)
          (checkedSender out P repr chat inb.sender) with
      | mk result S =>
          rw [hsend] at hposted hend
          dsimp only at hposted hend
          cases hend with
          | delivered hok htaken hroom =>
              obtain ⟨data, rfl⟩ := hok
              exact ⟨posted, [], hposted, rfl, Or.inl ⟨hroom, Or.inl htaken⟩⟩
          | failed e he hruntime hroom =>
              subst he
              dsimp only
              rw [if_pos hruntime]
              exact ⟨posted, [.undelivered chat uid provider (hashQuery text)], hposted, by simp,
                Or.inl ⟨hroom, Or.inr (by simp)⟩⟩
          | refused e he hruntime hnone hroom =>
              subst he
              dsimp only
              rw [if_neg (by simp [hruntime])]
              exact ⟨posted, [], hposted, by simp, Or.inr ⟨hroom, hnone, rfl⟩⟩

/-! ### The claim of the handler -/

/-- A consent of the chat is spent: that is on record. -/
def Spent (hashQuery : Text → Text) (chat text : Text) (uid : Option ℕ) (provider : Provider) (inb inb' : Inbox) : Prop :=
  ∃ records, inb'.audit = inb.audit ++ records ∧ .consumed chat uid provider (hashQuery text) text.length ∈ records

/-- The answer is delivered, all of it, or it is on record that it is not. -/
def Accounted (hashQuery : Text → Text) (chat text : Text) (uid : Option ℕ) (provider : Provider) (answer : Text)
    (inb inb' : Inbox) : Prop :=
  (∃ posted, inb'.sender.posted = inb.sender.posted ++ posted ∧ (taken posted).flatten = answer) ∨
    ∃ records, inb'.audit = inb.audit ++ records ∧ .undelivered chat uid provider (hashQuery text) ∈ records

theorem Spent.claims {provider : Provider}
    (h : Spent hashQuery chat text uid provider inb
      (handleInboundText out P repr cfg token hashQuery lower chat text chatType uid env inb).1) :
    Claims out P repr cfg lower chat text chatType env inb provider := by
  obtain ⟨records, hrecords, hmem⟩ := h
  obtain ⟨records', hrecords', hclaims⟩ :=
    consumed_claims out P repr cfg token hashQuery lower chat text chatType uid env inb
  rw [hrecords, List.append_cancel_left_eq] at hrecords'
  exact hclaims provider (hrecords' ▸ hmem)

/-- A refused send leaves nothing: no answer, and no record of its loss. -/
theorem lost_of_refuses (hashQuery : Text → Text) (uid : Option ℕ) {provider : Provider} (hmax : 0 < cfg.maxMessageChars)
    (hdoc : ∀ i, (out.attempts i).Documented)
    (h : Claims out P repr cfg lower chat text chatType env inb provider) (hanswered : Answered cfg text env)
    (hrefuses : Refuses out P cfg token (extractAnswer env.response)
      { inb.sender with ticks := inb.sender.ticks + 1 }) :
    Spent hashQuery chat text uid provider inb
        (handleInboundText out P repr cfg token hashQuery lower chat text chatType uid env inb).1 ∧
      ¬ Accounted hashQuery chat text uid provider (extractAnswer env.response) inb
        (handleInboundText out P repr cfg token hashQuery lower chat text chatType uid env inb).1 := by
  obtain ⟨posted, lost, hposted, haudit, ⟨hroom, -⟩ | ⟨-, rfl, rfl⟩⟩ :=
    claimed_end token hashQuery uid hmax hdoc h hanswered
  · exact absurd hrefuses hroom
  · refine ⟨⟨_, haudit, by simp⟩, ?_⟩
    rintro (⟨posted, hposted', htaken⟩ | ⟨records, hrecords, hmem⟩)
    · rw [hposted, List.append_cancel_left_eq] at hposted'
      have hblank := strip_extractAnswer env.response
      rw [← htaken, ← hposted'] at hblank
      exact hblank rfl
    · rw [haudit, List.append_cancel_left_eq] at hrecords
      rw [← hrecords] at hmem
      simp at hmem

/-- **A spent consent is accounted for exactly when the sending does not refuse.** -/
theorem answer_accounted_iff (out : Outside) (P : LimiterPolicy) (repr : Text → Text) (cfg : Config)
    (token : Option Text) (hashQuery lower : Text → Text) (chat text chatType : Text) (uid : Option ℕ)
    (env : Inbound) (inb : Inbox) (hmax : 0 < cfg.maxMessageChars) (hdoc : ∀ i, (out.attempts i).Documented) :
    (∀ provider, Spent hashQuery chat text uid provider inb
          (handleInboundText out P repr cfg token hashQuery lower chat text chatType uid env inb).1 →
        Answered cfg text env →
        Accounted hashQuery chat text uid provider (extractAnswer env.response) inb
          (handleInboundText out P repr cfg token hashQuery lower chat text chatType uid env inb).1) ↔
      ∀ provider, Claims out P repr cfg lower chat text chatType env inb provider → Answered cfg text env →
        ¬ Refuses out P cfg token (extractAnswer env.response) { inb.sender with ticks := inb.sender.ticks + 1 } := by
  constructor
  · intro haccounted provider hclaims hanswered hrefuses
    obtain ⟨hspent, hlost⟩ := lost_of_refuses hashQuery uid hmax hdoc hclaims hanswered hrefuses
    exact hlost (haccounted provider hspent hanswered)
  · intro hroom provider hspent hanswered
    obtain ⟨posted, lost, hposted, haudit, ⟨-, htaken | hrecord⟩ | ⟨hrefuses, -⟩⟩ :=
      claimed_end token hashQuery uid hmax hdoc hspent.claims hanswered
    · exact Or.inl ⟨posted, hposted, htaken⟩
    · exact Or.inr ⟨_, haudit, List.mem_cons_of_mem _ hrecord⟩
    · exact absurd hrefuses (hroom provider hspent.claims hanswered)

/-! ### The poller's model -/

theorem answerQuery_refines (out : Outside) (P : LimiterPolicy) (repr : Text → Text) (cfg : Config)
    (token : Option Text) (hashQuery : Text → Text) (chat text chatType : Text) (uid : Option ℕ) (env : Inbound)
    (inb : Inbox) :
    ∃ send, ((answerQuery out P repr cfg token hashQuery chat text chatType uid env inb).1.bridge,
        (answerQuery out P repr cfg token hashQuery chat text chatType uid env inb).2) =
      Telegram.answerQuery cfg chat text chatType uid { env.io with admitted := true, send } inb.bridge := by
  have hclaim : ∀ send, claimConsent cfg chat chatType { env.io with admitted := true, send } inb.bridge =
      claimConsent cfg chat chatType env.io inb.bridge := fun send => rfl
  have hpost : ∀ send confirmed b, postQuery cfg chat text uid confirmed { env.io with admitted := true, send } b =
      postQuery cfg chat text uid confirmed env.io b := fun send confirmed b => rfl
  rw [answerQuery]
  cases hclaimed : claimConsent cfg chat chatType env.io inb.bridge with
  | mk b claimed =>
      cases claimed with
      | error f => exact ⟨.ok (), by rw [Telegram.answerQuery, hclaim, hclaimed]⟩
      | ok provider =>
          dsimp only
          cases hasked : postQuery cfg chat text uid provider.isSome env.io b with
          | mk b' asked =>
              cases asked with
              | error f =>
                  refine ⟨.ok (), ?_⟩
                  rw [Telegram.answerQuery, hclaim, hclaimed]
                  dsimp only
                  rw [hpost, hasked]
              | ok u =>
                  cases u
                  dsimp only
                  cases sendMessage out P repr cfg token chat (extractAnswer env.response) inb.sender with
                  | mk result S =>
                      cases result with
                      | ok data =>
                          refine ⟨.ok (), ?_⟩
                          rw [Telegram.answerQuery, hclaim, hclaimed]
                          dsimp only
                          rw [hpost, hasked]
                      | error e =>
                          refine ⟨.error (failureOf e), ?_⟩
                          rw [Telegram.answerQuery, hclaim, hclaimed]
                          dsimp only
                          rw [hpost, hasked]

/-- **The handler is the one of the poller's model**, whose limiter and Bot API may answer anything. -/
theorem handleInboundText_refines (out : Outside) (P : LimiterPolicy) (repr : Text → Text) (cfg : Config)
    (token : Option Text) (hashQuery lower : Text → Text) (chat text chatType : Text) (uid : Option ℕ)
    (env : Inbound) (inb : Inbox) :
    ∃ admitted send,
      ((handleInboundText out P repr cfg token hashQuery lower chat text chatType uid env inb).1.bridge,
        (handleInboundText out P repr cfg token hashQuery lower chat text chatType uid env inb).2) =
      Telegram.handleInboundText lower cfg chat text chatType uid { env.io with admitted, send } inb.bridge := by
  rw [handleInboundText]
  cases hgates : cfg.admits chat with
  | error f => exact ⟨true, .ok (), by rw [Telegram.handleInboundText, hgates]⟩
  | ok u =>
      cases u
      dsimp only [Sender.readClock]
      cases hcheck : check repr P (inboundKey chat) 1 (out.clock inb.sender.ticks) inb.sender.limiter with
      | mk result L =>
          cases result
          case done =>
            dsimp only
            have hdispatch : ∀ send, dispatchCommand lower cfg chat chatType text uid
                { env.io with admitted := true, send } inb.bridge =
                  dispatchCommand lower cfg chat chatType text uid env.io inb.bridge := fun send => rfl
            cases hreply : dispatchCommand lower cfg chat chatType text uid env.io inb.bridge with
            | mk b reply =>
                cases reply with
                | error f =>
                    refine ⟨true, .ok (), ?_⟩
                    rw [Telegram.handleInboundText, hgates]
                    dsimp only
                    rw [if_neg Bool.noConfusion, hdispatch, hreply]
                | ok reply =>
                    cases reply with
                    | some reply =>
                        refine ⟨true, (((sendMessage out P repr cfg token chat (replyText cfg chat env.health reply)
                          { inb.sender with limiter := L, ticks := inb.sender.ticks + 1 }).1.map
                            fun _ => ()).mapError failureOf), ?_⟩
                        rw [Telegram.handleInboundText, hgates]
                        dsimp only
                        rw [if_neg Bool.noConfusion, hdispatch, hreply]
                    | none =>
                        obtain ⟨send, hsend⟩ := answerQuery_refines out P repr cfg token hashQuery chat text chatType
                          uid env ⟨b, { inb.sender with limiter := L, ticks := inb.sender.ticks + 1 }, inb.audit⟩
                        refine ⟨true, send, ?_⟩
                        rw [Telegram.handleInboundText, hgates]
                        dsimp only
                        rw [if_neg Bool.noConfusion, hdispatch, hreply]
                        exact hsend
          all_goals
            refine ⟨false, .ok (), ?_⟩
            rw [Telegram.handleInboundText, hgates]
            rfl

/-! ### A lost answer -/

def lostConfig : Config where
  enabled := true
  mode := .chat
  allowedChatIds := ["1".toList]
  maxMessageChars := 10
  allowHybridConfirm := true
  hybridConfirmTtlSec := 60

/-- One message a minute. -/
def lostPolicy : LimiterPolicy := ⟨1, 60, Nat.one_pos, Nat.succ_pos 59⟩

/-- A clock that stands still, and a Bot API that cannot be reached. -/
def lostOutside : Outside := ⟨fun _ => 10, fun _ => ⟨.transportError "ConnectError".toList, true⟩, id⟩

/-- A consent of the chat, and a message sent five seconds ago. -/
def lostInbox : Inbox where
  bridge := ⟨fun _ => .holds 100 .grok, []⟩
  sender := ⟨⟨fun key => if key = outboundKey then [5] else [], fun _ => 0, fun _ => []⟩, fun _ => 0, 0, []⟩
  audit := []

def lostInbound : Inbound where
  io := ⟨true, 10, .ok, true, .ok, .ok (), .ok (), .ok ()⟩
  response := [("answer".toList, .str "hi".toList)]
  health := []

theorem lostOutside_documented (i : ℕ) : (lostOutside.attempts i).Documented :=
  ⟨fun h => Response.noConfusion h, rfl⟩

theorem lost_claims (repr : Text → Text) :
    Claims lostOutside lostPolicy repr lostConfig id "1".toList "why".toList "private".toList lostInbound lostInbox
      .grok := by
  refine ⟨by decide, ?_, by decide, by decide⟩
  have hempty : (lostInbox.sender.limiter.pruned lostPolicy (inboundKey "1".toList) 10).events
      (inboundKey "1".toList) = [] := by
    have hkey : ¬ inboundKey "1".toList = outboundKey := fun h => key_ne _ h.symm
    have hnone : lostInbox.sender.limiter.events (inboundKey "1".toList) = [] := by
      show (if inboundKey "1".toList = outboundKey then [(5 : ℚ)] else []) = []
      exact if_neg hkey
    rw [pruned_events_self, hnone]
    rfl
  have hroom : ensureCapacity repr lostPolicy
      (lostInbox.sender.limiter.pruned lostPolicy (inboundKey "1".toList) 10) (inboundKey "1".toList) 1 10 = none :=
    ensureCapacity_none.mpr ⟨by decide, by rw [hempty]; decide⟩
  rw [check]
  dsimp only [validateCost, lostOutside]
  rw [if_neg (by decide)]
  dsimp only
  rw [show (1 : ℤ).toNat = 1 from rfl, hroom]

theorem lost_refuses :
    Refuses lostOutside lostPolicy lostConfig (some "token".toList) (extractAnswer lostInbound.response)
      { lostInbox.sender with ticks := lostInbox.sender.ticks + 1 } := by
  refine Or.inr ⟨"token".toList, ["hi".toList], rfl, by decide +kernel, ?_, ?_⟩
  · show (0 : ℚ) ≤ 10
    norm_num
  · -- The message of five seconds ago still counts.
    have hlive : prune lostPolicy.window [(5 : ℚ)] 10 = [5] := by
      rw [prune, List.dropWhile_cons, if_neg]
      simp [lostPolicy, LimiterPolicy.window]
      norm_num
    show ¬ (prune lostPolicy.window [(5 : ℚ)] 10).length + 0 + 1 ≤ 1
    rw [hlive]
    decide

/-- **The answer is paid for, refused by the outbound limiter, and lost with nothing on record.** -/
theorem paid_answer_lost :
    Spent id "1".toList "why".toList (some 7) .grok lostInbox
        (handleInboundText lostOutside lostPolicy id lostConfig (some "token".toList) id id "1".toList
          "why".toList "private".toList (some 7) lostInbound lostInbox).1 ∧
      Answered lostConfig "why".toList lostInbound ∧
      ¬ Accounted id "1".toList "why".toList (some 7) .grok (extractAnswer lostInbound.response) lostInbox
        (handleInboundText lostOutside lostPolicy id lostConfig (some "token".toList) id id "1".toList
          "why".toList "private".toList (some 7) lostInbound lostInbox).1 := by
  have hanswered : Answered lostConfig "why".toList lostInbound := ⟨by decide, rfl⟩
  obtain ⟨hspent, hlost⟩ := lost_of_refuses id (some 7) (by decide) lostOutside_documented (lost_claims id)
    hanswered lost_refuses
  exact ⟨hspent, hanswered, hlost⟩

theorem answer_accounted_iff_lost :
    (∀ provider, Spent id "1".toList "why".toList (some 7) provider lostInbox
          (handleInboundText lostOutside lostPolicy id lostConfig none id id "1".toList "why".toList
            "private".toList (some 7) lostInbound lostInbox).1 →
        Answered lostConfig "why".toList lostInbound →
        Accounted id "1".toList "why".toList (some 7) provider (extractAnswer lostInbound.response) lostInbox
          (handleInboundText lostOutside lostPolicy id lostConfig none id id "1".toList "why".toList
            "private".toList (some 7) lostInbound lostInbox).1) ↔
      ∀ provider, Claims lostOutside lostPolicy id lostConfig id "1".toList "why".toList "private".toList
          lostInbound lostInbox provider → Answered lostConfig "why".toList lostInbound →
        ¬ Refuses lostOutside lostPolicy lostConfig none (extractAnswer lostInbound.response)
          { lostInbox.sender with ticks := lostInbox.sender.ticks + 1 } :=
  answer_accounted_iff lostOutside lostPolicy id lostConfig none id id "1".toList "why".toList "private".toList
    (some 7) lostInbound lostInbox (by decide) lostOutside_documented

end CyClaw.Telegram.Delivery

/-
How often a consent to go online is spent.

A poll that a fatal error aborts returns no offset, so the updates it has already handled
come again, and an `/online` among them arms its chat a second time.  In every run in which
no such poll has handled both an `/online` and a plain message of one chat, each `/online`
leads to at most one confirmed query.

`Safe` is what holds between two updates: an `/online` that may still come again has not been
spent, nor has one whose consent is on file; and no message that may come again before it
could spend it out of turn.
-/
import CyClaw.Telegram.Offsets
import Mathlib.Data.List.Nodup

namespace CyClaw.Telegram

open PyText

variable (lower : Text → Text) (cfg : Config)

/-! ### Messages that arm a chat and messages that ask -/

/-- The chat that an `/online` can arm. -/
def arms (u : Update) : Option Text :=
  match messageFromUpdate u with
  | some (chat, text, chatType) =>
      if cfg.allowHybridConfirm && isPrivateChat chatType && decide (commandOf lower text = some .online) &&
        (onlineProvider lower text).isSome then some chat
      else none
  | none => none

/-- The chat whose consent a plain message can spend. -/
def asks (u : Update) : Option Text :=
  match messageFromUpdate u with
  | some (chat, text, chatType) =>
      if cfg.allowHybridConfirm && isPrivateChat chatType && (commandOf lower text).isNone then some chat
      else none
  | none => none

variable {lower cfg}

theorem arms_ne_asks {u : Update} {chat chat' : Text} (harms : arms lower cfg u = some chat) :
    asks lower cfg u ≠ some chat' := by
  intro hasks
  rw [arms] at harms
  rw [asks] at hasks
  cases hmsg : messageFromUpdate u with
  | none =>
      rw [hmsg] at harms
      cases harms
  | some m =>
      rw [hmsg] at harms hasks
      simp only [Option.ite_none_right_eq_some, Bool.and_eq_true, decide_eq_true_eq] at harms hasks
      rw [harms.1.1.2] at hasks
      simp at hasks

/-! ### What handling an update can do -/

/-- **Everything that handling an update can do** to the consents and the log. -/
inductive Handles (lower : Text → Text) (cfg : Config) (u : Update) (b : Bridge) : Bridge → Prop
  | nothing : Handles lower cfg u b b
  | granted {chat : Text} {confirmUntil : ℤ} {provider : Provider} (harms : arms lower cfg u = some chat) :
      Handles lower cfg u b
        ⟨Function.update b.sessions chat (.holds confirmUntil provider), .granted chat u.updateId :: b.log⟩
  | claimed {chat : Text} (hasks : asks lower cfg u = some chat) :
      Handles lower cfg u b { b with sessions := Function.update b.sessions chat .missing }
  | spent {chat : Text} (online : Bool) (hasks : asks lower cfg u = some chat)
      (harmed : Armed b.sessions chat) :
      Handles lower cfg u b
        ⟨Function.update b.sessions chat .missing, .posted chat u.updateId online :: b.log⟩
  | posted {chat : Text} : Handles lower cfg u b { b with log := .posted chat u.updateId false :: b.log }

theorem onlineCommand_handles {u : Update} {chat text chatType : Text} (io : Io) (b : Bridge)
    (hmsg : messageFromUpdate u = some (chat, text, chatType))
    (hcmd : commandOf lower text = some .online) :
    Handles lower cfg u b (onlineCommand lower cfg chat chatType text u.updateId io b).1 := by
  rw [onlineCommand]
  by_cases hallow : cfg.allowHybridConfirm = false
  · rw [if_pos hallow]
    exact .nothing
  · by_cases hprivate : isPrivateChat chatType = false
    · rw [if_neg hallow, if_pos hprivate]
      exact .nothing
    · rw [if_neg hallow, if_neg hprivate]
      cases hprovider : onlineProvider lower text with
      | none => exact .nothing
      | some provider =>
          have harms : arms lower cfg u = some chat := by
            simp [arms, hmsg, hcmd, hprovider, hallow, hprivate]
          cases happlied : io.grant.applied with
          | true =>
              simp only [grantHybridConfirm, happlied, if_true]
              exact .granted harms
          | false =>
              simp only [grantHybridConfirm, happlied, Bool.false_eq_true, if_false]
              exact .nothing

theorem dispatchCommand_handles {u : Update} {chat text chatType : Text} (io : Io) (b : Bridge)
    (hmsg : messageFromUpdate u = some (chat, text, chatType)) :
    Handles lower cfg u b (dispatchCommand lower cfg chat chatType text u.updateId io b).1 := by
  rw [dispatchCommand]
  cases hcmd : commandOf lower text with
  | none => exact .nothing
  | some c =>
      cases c with
      | online => exact onlineCommand_handles io b hmsg hcmd
      | help => exact .nothing
      | id => exact .nothing
      | status => exact .nothing
      | save => exact .nothing

/-- A message that is not answered as a command is plain, and nothing has happened yet. -/
theorem dispatchCommand_plain {chat text chatType : Text} {uid : Option ℕ} {io : Io} {b b' : Bridge}
    (h : dispatchCommand lower cfg chat chatType text uid io b = (b', .ok none)) :
    commandOf lower text = none ∧ b' = b := by
  rw [dispatchCommand] at h
  cases hcmd : commandOf lower text with
  | none =>
      rw [hcmd] at h
      simp only [Prod.mk.injEq] at h
      exact ⟨rfl, h.1.symm⟩
  | some c =>
      rw [hcmd] at h
      cases c with
      | online =>
          simp only [Prod.mk.injEq] at h
          cases hreply : (onlineCommand lower cfg chat chatType text uid io b).2 with
          | error f =>
              rw [hreply] at h
              cases h.2
          | ok reply =>
              rw [hreply] at h
              cases h.2
      | help => simp at h
      | id => simp at h
      | status => simp at h
      | save => simp at h

/-- A claim: what it leaves, and what it says. -/
theorem claimConsent_cases {u : Update} {chat text chatType : Text} {io : Io} {b b' : Bridge}
    {r : Except Failure (Option Provider)} (hmsg : messageFromUpdate u = some (chat, text, chatType))
    (hplain : commandOf lower text = none) (h : claimConsent cfg chat chatType io b = (b', r)) :
    (b' = b ∧ ∀ p, r ≠ .ok (some p)) ∨
    (b' = { b with sessions := Function.update b.sessions chat .missing } ∧ Armed b.sessions chat ∧
      asks lower cfg u = some chat) := by
  rw [claimConsent] at h
  by_cases hcond : (cfg.allowHybridConfirm && isPrivateChat chatType) = true
  · rw [if_pos hcond] at h
    simp only [Prod.mk.injEq] at h
    obtain ⟨rfl, rfl⟩ := h
    obtain ⟨hsame, hnone⟩ | ⟨hmissing, harmed⟩ :=
      claimHybridConfirm_cases chat io.now io.readable io.claim b.sessions
    · exact Or.inl ⟨by rw [hsame], hnone⟩
    · refine Or.inr ⟨by rw [hmissing], harmed, ?_⟩
      simp only [asks, hmsg, hcond, hplain]
      rfl
  · rw [if_neg hcond] at h
    simp only [Prod.mk.injEq] at h
    obtain ⟨rfl, rfl⟩ := h
    exact Or.inl ⟨rfl, by nofun⟩

theorem postQuery_cases (cfg : Config) (chat text : Text) (uid : Option ℕ) (online : Bool) (io : Io)
    (b : Bridge) : (postQuery cfg chat text uid online io b).1 = b ∨
      (postQuery cfg chat text uid online io b).1 = { b with log := .posted chat uid online :: b.log } := by
  rw [postQuery]
  by_cases hlong : cfg.maxMessageChars < (strip text).length
  · rw [if_pos hlong]
    exact Or.inl rfl
  · rw [if_neg hlong]
    exact Or.inr rfl

theorem answerQuery_handles {u : Update} {chat text chatType : Text} (io : Io) (b : Bridge)
    (hmsg : messageFromUpdate u = some (chat, text, chatType)) (hplain : commandOf lower text = none) :
    Handles lower cfg u b (answerQuery cfg chat text chatType u.updateId io b).1 := by
  rw [answerQuery]
  cases hclaim : claimConsent cfg chat chatType io b with
  | mk b₁ claim =>
      have hcases := claimConsent_cases hmsg hplain hclaim
      cases claim with
      | error f =>
          obtain ⟨rfl, -⟩ | ⟨rfl, -, hasks⟩ := hcases
          · exact .nothing
          · exact .claimed hasks
      | ok provider =>
          dsimp only
          have hpost := postQuery_cases cfg chat text u.updateId provider.isSome io b₁
          -- However the query and the reply go, the bridge is what the post left.
          suffices h : Handles lower cfg u b (postQuery cfg chat text u.updateId provider.isSome io b₁).1 by
            cases hresult : postQuery cfg chat text u.updateId provider.isSome io b₁ with
            | mk b₂ result =>
                rw [hresult] at h
                cases result with
                | error f => exact h
                | ok _ => exact h
          obtain ⟨rfl, hnone⟩ | ⟨rfl, harmed, hasks⟩ := hcases
          · have hoffline : provider.isSome = false := by
              cases provider with
              | none => rfl
              | some p => exact absurd rfl (hnone p)
            obtain hsame | hposted := hpost
            · rw [hsame]
              exact .nothing
            · rw [hposted, hoffline]
              exact .posted
          · obtain hsame | hposted := hpost
            · rw [hsame]
              exact .claimed hasks
            · rw [hposted]
              exact .spent _ hasks harmed

theorem handleInboundText_handles {u : Update} {chat text chatType : Text} (io : Io) (b : Bridge)
    (hmsg : messageFromUpdate u = some (chat, text, chatType)) :
    Handles lower cfg u b (handleInboundText lower cfg chat text chatType u.updateId io b).1 := by
  rw [handleInboundText]
  cases cfg.admits chat with
  | error f => exact .nothing
  | ok _ =>
      dsimp only
      by_cases hadmitted : io.admitted = false
      · rw [if_pos hadmitted]
        exact .nothing
      · rw [if_neg hadmitted]
        have hdispatch : Handles lower cfg u b _ := dispatchCommand_handles io b hmsg
        cases hresult : dispatchCommand lower cfg chat chatType text u.updateId io b with
        | mk b₁ result =>
            rw [hresult] at hdispatch
            cases result with
            | error f => exact hdispatch
            | ok reply =>
                cases reply with
                | some reply => exact hdispatch
                | none =>
                    obtain ⟨hplain, rfl⟩ := dispatchCommand_plain hresult
                    exact answerQuery_handles io b₁ hmsg hplain

theorem handleUpdate_handles (u : Update) (io : Io) (b : Bridge) :
    Handles lower cfg u b (handleUpdate lower cfg u io b).1 := by
  rw [handleUpdate]
  cases hmsg : messageFromUpdate u with
  | some m => exact handleInboundText_handles io b hmsg
  | none =>
      cases mediaFromUpdate u with
      | none => exact .nothing
      | some m =>
          dsimp only
          by_cases hid : u.updateId = none
          · rw [if_pos hid]
            exact .nothing
          · rw [if_neg hid]
            exact .nothing

/-! ### Which message a query is due to -/

/-- The update that last armed a chat. -/
def grantOf (chat : Text) : List Effect → Option ℕ
  | [] => none
  | .granted chat' uid :: older => if chat' = chat then uid else grantOf chat older
  | .posted .. :: older => grantOf chat older

/-- How many confirmed queries an `/online` has led to. -/
def onlinePosts (g : ℕ) : List Effect → ℕ
  | [] => 0
  | .granted .. :: older => onlinePosts g older
  | .posted chat _ online :: older =>
      if online = true ∧ grantOf chat older = some g then onlinePosts g older + 1 else onlinePosts g older

/-- The updates of a bot, all of which the Bot API numbers in increasing order. -/
structure Stream where
  updates : List Update
  numbered : ∀ u ∈ updates, u.updateId.isSome = true
  increasing : (updates.filterMap Update.updateId).Pairwise (· < ·)

def Update.number (u : Update) : ℕ := u.updateId.getD 0

/-- What `getUpdates` still has from an offset on. -/
def Stream.due (S : Stream) (offset : ℕ) : List Update := S.updates.filter fun u => offset ≤ u.number

variable {S : Stream}

theorem Stream.updateId_eq {u : Update} (hu : u ∈ S.updates) : u.updateId = some u.number := by
  obtain ⟨i, hi⟩ := Option.isSome_iff_exists.mp (S.numbered u hu)
  rw [Update.number, hi]
  rfl

theorem Stream.pairwise_number (S : Stream) : S.updates.Pairwise fun u v => u.number < v.number := by
  have h := List.pairwise_filterMap.mp S.increasing
  refine h.imp_of_mem ?_
  intro u v hu hv hlt
  exact hlt _ (S.updateId_eq hu) _ (S.updateId_eq hv)

theorem Stream.eq_of_number {u v : Update} (hu : u ∈ S.updates) (hv : v ∈ S.updates)
    (h : u.number = v.number) : u = v := by
  have hnodup : (S.updates.map Update.number).Nodup :=
    List.pairwise_map.mpr (S.pairwise_number.imp fun hlt => Nat.ne_of_lt hlt)
  exact List.inj_on_of_nodup_map hnodup hu hv h

theorem Stream.mem_due {offset : ℕ} {u : Update} :
    u ∈ S.due offset ↔ u ∈ S.updates ∧ offset ≤ u.number := by
  rw [Stream.due, List.mem_filter, decide_eq_true_eq]

/-- What is due before an update of a batch stands before it in the batch. -/
theorem Stream.mem_before {offset : ℕ} {done rest : List Update} {u v : Update}
    (h : done ++ u :: rest <+: S.due offset) (hv : v ∈ S.updates) (hdue : offset ≤ v.number)
    (hlt : v.number < u.number) : v ∈ done := by
  obtain ⟨more, hmore⟩ := h
  have hsorted : (S.due offset).Pairwise fun u v => u.number < v.number :=
    S.pairwise_number.sublist List.filter_sublist
  have hmem : v ∈ S.due offset := Stream.mem_due.mpr ⟨hv, hdue⟩
  rw [← hmore, List.append_assoc, List.cons_append] at hsorted hmem
  obtain hdone | hmem := List.mem_append.mp hmem
  · exact hdone
  · exfalso
    have hafter := (List.pairwise_cons.mp (List.pairwise_append.mp hsorted).2.1).1
    rw [List.mem_cons] at hmem
    obtain rfl | hmem := hmem
    · omega
    · have := hafter v hmem
      omega

/-! ### The invariant between two updates -/

/-- **No consent has been spent that can be armed or spent again.** -/
structure Safe (lower : Text → Text) (cfg : Config) (S : Stream) (offset : ℕ) (b : Bridge) : Prop where
  once : ∀ g, onlinePosts g b.log ≤ 1
  /-- What may come again has not been spent. -/
  fresh : ∀ g, offset ≤ g → onlinePosts g b.log = 0
  /-- A consent on file has not been spent. -/
  unspent : ∀ chat g, Armed b.sessions chat → grantOf chat b.log = some g → onlinePosts g b.log = 0
  /-- No message before the one that armed the chat may come again. -/
  inTurn : ∀ chat g, Armed b.sessions chat → grantOf chat b.log = some g →
    ∀ u ∈ S.updates, asks lower cfg u = some chat → offset ≤ u.number → g ≤ u.number
  known : ∀ chat g, grantOf chat b.log = some g →
    ∃ u ∈ S.updates, u.number = g ∧ arms lower cfg u = some chat

variable {offset offset' : ℕ} {b b' : Bridge}

theorem Safe.later (h : Safe lower cfg S offset b) (hle : offset ≤ offset') :
    Safe lower cfg S offset' b where
  once := h.once
  fresh := fun g hg => h.fresh g (hle.trans hg)
  unspent := h.unspent
  inTurn := fun chat g harmed hg u hu hasks hdue => h.inTurn chat g harmed hg u hu hasks (hle.trans hdue)
  known := h.known

/-- Of what may come again before the update, none arms the chat it asks in or asks in the
chat it arms. -/
def Apart (lower : Text → Text) (cfg : Config) (S : Stream) (offset : ℕ) (u : Update) : Prop :=
  ∀ v ∈ S.updates, offset ≤ v.number → v.number < u.number → ∀ chat,
    (arms lower cfg v = some chat → asks lower cfg u ≠ some chat) ∧
    (asks lower cfg v = some chat → arms lower cfg u ≠ some chat)

theorem Safe.granted {u : Update} {chat : Text} {confirmUntil : ℤ} {provider : Provider}
    (h : Safe lower cfg S offset b) (hu : u ∈ S.updates) (hdue : offset ≤ u.number)
    (hapart : Apart lower cfg S offset u) (harms : arms lower cfg u = some chat) :
    Safe lower cfg S offset
      ⟨Function.update b.sessions chat (.holds confirmUntil provider), .granted chat u.updateId :: b.log⟩ := by
  have hid := Stream.updateId_eq hu
  refine ⟨h.once, h.fresh, ?_, ?_, ?_⟩
  · intro chat' g harmed hg
    by_cases hchat : chat = chat'
    · rw [grantOf, if_pos hchat, hid, Option.some.injEq] at hg
      exact h.fresh g (hg ▸ hdue)
    · rw [grantOf, if_neg hchat] at hg
      exact h.unspent chat' g ((armed_update_of_ne (Ne.symm hchat)).mp harmed) hg
  · intro chat' g harmed hg v hv hasks hdue'
    by_cases hchat : chat = chat'
    · rw [grantOf, if_pos hchat, hid, Option.some.injEq] at hg
      rw [← hg]
      by_contra hlt
      exact (hapart v hv hdue' (by omega) chat').2 hasks (hchat ▸ harms)
    · rw [grantOf, if_neg hchat] at hg
      exact h.inTurn chat' g ((armed_update_of_ne (Ne.symm hchat)).mp harmed) hg v hv hasks hdue'
  · intro chat' g hg
    by_cases hchat : chat = chat'
    · rw [grantOf, if_pos hchat, hid, Option.some.injEq] at hg
      exact ⟨u, hu, hg, hchat ▸ harms⟩
    · rw [grantOf, if_neg hchat] at hg
      exact h.known chat' g hg

/-- A consent that is deleted leaves the others as they were. -/
theorem Safe.claimed (h : Safe lower cfg S offset b) (chat : Text) :
    Safe lower cfg S offset { b with sessions := Function.update b.sessions chat .missing } := by
  have hother : ∀ chat', Armed (Function.update b.sessions chat .missing) chat' → Armed b.sessions chat' := by
    intro chat' harmed
    by_cases hchat : chat' = chat
    · rw [hchat] at harmed
      exact absurd harmed (not_armed_of_missing b.sessions chat)
    · exact (armed_update_of_ne hchat).mp harmed
  exact ⟨h.once, h.fresh, fun chat' g harmed => h.unspent chat' g (hother chat' harmed),
    fun chat' g harmed => h.inTurn chat' g (hother chat' harmed), h.known⟩

theorem onlinePosts_offline (g : ℕ) (chat : Text) (uid : Option ℕ) (log : List Effect) :
    onlinePosts g (.posted chat uid false :: log) = onlinePosts g log := by
  simp [onlinePosts]

theorem Safe.posted {chat : Text} {uid : Option ℕ} (h : Safe lower cfg S offset b) :
    Safe lower cfg S offset { b with log := .posted chat uid false :: b.log } := by
  refine ⟨?_, ?_, ?_, h.inTurn, h.known⟩
  · intro g
    rw [onlinePosts_offline]
    exact h.once g
  · intro g hg
    rw [onlinePosts_offline]
    exact h.fresh g hg
  · intro chat' g harmed hg
    rw [onlinePosts_offline]
    exact h.unspent chat' g harmed hg

/-- The consent that is spent is of an update that does not come again. -/
theorem Safe.grant_lt {u : Update} {chat : Text} {g : ℕ} (h : Safe lower cfg S offset b) (hu : u ∈ S.updates)
    (hdue : offset ≤ u.number) (hapart : Apart lower cfg S offset u) (hasks : asks lower cfg u = some chat)
    (harmed : Armed b.sessions chat) (hg : grantOf chat b.log = some g) : g < offset := by
  by_contra hle
  obtain ⟨v, hv, hvg, harms⟩ := h.known chat g hg
  have hturn := h.inTurn chat g harmed hg u hu hasks hdue
  have hne : v.number ≠ u.number := by
    intro heq
    rw [Stream.eq_of_number hv hu heq] at harms
    exact arms_ne_asks harms hasks
  exact (hapart v hv (by omega) (by omega) chat).1 harms hasks

theorem Safe.spent {u : Update} {chat : Text} (h : Safe lower cfg S offset b) (hu : u ∈ S.updates)
    (hdue : offset ≤ u.number) (hapart : Apart lower cfg S offset u) (hasks : asks lower cfg u = some chat)
    (harmed : Armed b.sessions chat) :
    Safe lower cfg S offset
      ⟨Function.update b.sessions chat .missing, .posted chat u.updateId true :: b.log⟩ := by
  -- Only the count of the update that armed the chat goes up.
  have hcount : ∀ g, grantOf chat b.log ≠ some g →
      onlinePosts g (.posted chat u.updateId true :: b.log) = onlinePosts g b.log := by
    intro g hg
    simp [onlinePosts, hg]
  have hspent : ∀ g, grantOf chat b.log = some g →
      onlinePosts g (.posted chat u.updateId true :: b.log) = 1 := by
    intro g hg
    have hunspent := h.unspent chat g harmed hg
    simp [onlinePosts, hg, hunspent]
  refine ⟨?_, ?_, ?_, (h.claimed chat).inTurn, h.known⟩
  · intro g
    by_cases hg : grantOf chat b.log = some g
    · exact le_of_eq (hspent g hg)
    · rw [hcount g hg]
      exact h.once g
  · intro g hdue'
    have hg : grantOf chat b.log ≠ some g := by
      intro hg
      have hlt := h.grant_lt hu hdue hapart hasks harmed hg
      omega
    rw [hcount g hg]
    exact h.fresh g hdue'
  · intro chat' g harmed' hg'
    have hg' : grantOf chat' b.log = some g := hg'
    have hg : grantOf chat b.log ≠ some g := by
      intro hg
      -- One update arms one chat, and this one is not armed any more.
      obtain ⟨v, hv, hvg, harms⟩ := h.known chat g hg
      obtain ⟨v', hv', hvg', harms'⟩ := h.known chat' g hg'
      rw [Stream.eq_of_number hv hv' (hvg.trans hvg'.symm), harms', Option.some.injEq] at harms
      rw [harms] at harmed'
      exact not_armed_of_missing b.sessions chat harmed'
    rw [hcount g hg]
    exact (h.claimed chat).unspent chat' g harmed' hg'

/-- **Handling an update keeps the invariant.** -/
theorem Safe.handles {u : Update} (h : Safe lower cfg S offset b) (hu : u ∈ S.updates)
    (hdue : offset ≤ u.number) (hapart : Apart lower cfg S offset u) (hb : Handles lower cfg u b b') :
    Safe lower cfg S offset b' := by
  cases hb with
  | nothing => exact h
  | granted harms => exact h.granted hu hdue hapart harms
  | claimed hasks => exact h.claimed _
  | posted => exact h.posted
  | spent online hasks harmed =>
      cases online with
      | true => exact h.spent hu hdue hapart hasks harmed
      | false => exact (h.claimed _).posted

/-! ### Batches -/

/-- One of the outcomes is a failure that `poll_once` lets out. -/
def Io.fatal (io : Io) : Bool :=
  [io.query, io.stage, io.send].any fun
    | .error f => f.escapes
    | .ok () => false

/-- Some chat is armed by one of the updates and asked in by another. -/
def mixed (lower : Text → Text) (cfg : Config) (updates : List Update) : Bool :=
  updates.any fun u => updates.any fun v => (arms lower cfg u).isSome && decide (arms lower cfg u = asks lower cfg v)

theorem mixed_eq_false {updates : List Update} : mixed lower cfg updates = false ↔
    ∀ u ∈ updates, ∀ v ∈ updates, ∀ chat, arms lower cfg u = some chat → asks lower cfg v ≠ some chat := by
  constructor
  · intro h u hu v hv chat harms hasks
    have hmixed : mixed lower cfg updates = true := by
      rw [mixed, List.any_eq_true]
      refine ⟨u, hu, List.any_eq_true.mpr ⟨v, hv, ?_⟩⟩
      simp [harms, hasks]
    rw [h] at hmixed
    cases hmixed
  · intro h
    rw [mixed, List.any_eq_false]
    intro u hu
    rw [Bool.not_eq_true, List.any_eq_false]
    intro v hv hboth
    rw [Bool.and_eq_true, Option.isSome_iff_exists, decide_eq_true_eq] at hboth
    obtain ⟨⟨chat, harms⟩, heq⟩ := hboth
    exact h u hu v hv chat harms (heq ▸ harms)

theorem mixed_mono {us vs : List Update} (hsub : us ⊆ vs) (h : mixed lower cfg vs = false) :
    mixed lower cfg us = false :=
  mixed_eq_false.mpr fun u hu v hv => mixed_eq_false.mp h u (hsub hu) v (hsub hv)

/-- **A fatal error meets no batch that has handled both an `/online` and a plain message of
one chat** by then, the failing update included. -/
def quiet (lower : Text → Text) (cfg : Config) (batch : List (Update × Io)) : Bool :=
  batch.inits.all fun pre => !(pre.getLast?.any fun x => x.2.fatal) || !mixed lower cfg (pre.map Prod.fst)

theorem quiet_append {pre rest : List (Update × Io)} {x : Update × Io}
    (h : quiet lower cfg (pre ++ x :: rest) = true) (hx : x.2.fatal = true) :
    mixed lower cfg (pre.map Prod.fst ++ [x.1]) = false := by
  have hinit : pre ++ [x] <+: pre ++ x :: rest := ⟨rest, by simp⟩
  have hall := List.all_eq_true.mp h _ ((List.mem_inits _ _).mpr hinit)
  simpa [hx] using hall

/-! Whatever a handler lets out came from the Bot API or from `POST /query`. -/

/-- A failure that `poll_once` lets out is one of the outcomes. -/
def Explained (io : Io) {α : Type} (r : Except Failure α) : Prop :=
  ∀ f, r = .error f → f.escapes = true → io.fatal = true

variable {io : Io}

theorem Explained.ok {α : Type} (a : α) : Explained io (.ok a) := by nofun

theorem Explained.error {α : Type} {f : Failure} (hf : f.escapes = false) :
    Explained io (.error f : Except Failure α) := by
  intro f' heq hf'
  rw [Except.error.injEq] at heq
  rw [← heq, hf] at hf'
  cases hf'

/-- A failure that is passed on. -/
theorem Explained.raise {α β : Type} {r : Except Failure α} {f : Failure} (h : Explained io r)
    (hr : r = .error f) : Explained io (.error f : Except Failure β) := by
  intro f' heq
  rw [← Except.error.inj heq]
  exact h f hr

theorem explained_query : Explained io io.query := by
  intro f hf hescapes
  simp [Io.fatal, hf, hescapes]

theorem explained_stage : Explained io io.stage := by
  intro f hf hescapes
  simp [Io.fatal, hf, hescapes]

theorem explained_send : Explained io io.send := by
  intro f hf hescapes
  simp [Io.fatal, hf, hescapes]

theorem explained_admits (chat : Text) : Explained io (cfg.admits chat) := by
  rw [Config.admits]
  split
  · exact .error rfl
  · split
    · exact .error rfl
    · split
      · exact .error rfl
      · exact .ok ()

theorem explained_dispatchCommand (chat chatType text : Text) (uid : Option ℕ) (b : Bridge) :
    Explained io (dispatchCommand lower cfg chat chatType text uid io b).2 := by
  rw [dispatchCommand]
  cases commandOf lower text with
  | none => exact .ok none
  | some c =>
      cases c with
      | help => exact .ok _
      | id => exact .ok _
      | status => exact .ok _
      | save => exact .ok _
      | online =>
          dsimp only
          rw [onlineCommand]
          split
          · exact .ok _
          · split
            · exact .ok _
            · split
              · exact .ok _
              · dsimp only [grantHybridConfirm]
                by_cases hio : io.grant = .ok
                · rw [if_pos hio]
                  exact .ok _
                · rw [if_neg hio]
                  exact .error rfl

theorem explained_claimConsent (chat chatType : Text) (b : Bridge) :
    Explained io (claimConsent cfg chat chatType io b).2 := by
  rw [claimConsent]
  split
  · dsimp only
    rw [claimHybridConfirm]
    by_cases hio : io.claim = .ok
    · rw [if_pos hio]
      split
      · exact .ok _
      · rw [if_pos hio]
        exact .ok _
    · rw [if_neg hio]
      split
      · exact .error rfl
      · rw [if_neg hio]
        exact .error rfl
  · exact .ok _

theorem explained_answerQuery (chat text chatType : Text) (uid : Option ℕ) (b : Bridge) :
    Explained io (answerQuery cfg chat text chatType uid io b).2 := by
  have hclaim : Explained io (claimConsent cfg chat chatType io b).2 := explained_claimConsent chat chatType b
  rw [answerQuery]
  cases hresult : claimConsent cfg chat chatType io b with
  | mk b₁ claim =>
      rw [hresult] at hclaim
      cases claim with
      | error f => exact hclaim.raise rfl
      | ok provider =>
          dsimp only
          rw [postQuery]
          split
          · rename_i heq
            split at heq
            · rw [Prod.mk.injEq, Except.error.injEq] at heq
              rw [← heq.2]
              exact .error rfl
            · rw [Prod.mk.injEq] at heq
              exact explained_query.raise heq.2
          · exact explained_send

theorem explained_handleInboundText (chat text chatType : Text) (uid : Option ℕ) (b : Bridge) :
    Explained io (handleInboundText lower cfg chat text chatType uid io b).2 := by
  have hdispatch : Explained io (dispatchCommand lower cfg chat chatType text uid io b).2 :=
    explained_dispatchCommand chat chatType text uid b
  rw [handleInboundText]
  split
  · rename_i f hadmits
    exact (explained_admits chat).raise hadmits
  · split
    · exact .error rfl
    · split
      · rename_i hresult
        rw [hresult] at hdispatch
        exact hdispatch.raise rfl
      · exact explained_send
      · exact explained_answerQuery chat text chatType uid _

theorem explained_handleInboundMedia (chat : Text) (caption : Option Text) :
    Explained io (handleInboundMedia lower cfg chat caption io) := by
  rw [handleInboundMedia]
  split
  · rename_i f hadmits
    exact (explained_admits chat).raise hadmits
  · split
    · exact .error rfl
    · split
      · exact .error rfl
      · split
        · rename_i f hstage
          exact explained_stage.raise hstage
        · exact explained_send

theorem Explained.outcome {r : Except Failure Unit} {f : Failure} (h : Explained io r)
    (hf : Outcome.of r = .failed f) (hescapes : f.escapes = true) : io.fatal = true := by
  cases r with
  | ok _ => cases hf
  | error f' =>
      rw [Outcome.of, Outcome.failed.injEq] at hf
      exact h f (by rw [hf]) hescapes

/-- A poll is aborted by an update one of whose outcomes is fatal. -/
theorem handleUpdate_fatal {u : Update} {f : Failure} {b b' : Bridge}
    (h : handleUpdate lower cfg u io b = (b', .failed f)) (hescapes : f.escapes = true) :
    io.fatal = true := by
  rw [handleUpdate] at h
  split at h
  · rw [Prod.mk.injEq] at h
    exact (explained_handleInboundText _ _ _ _ _).outcome h.2 hescapes
  · split at h
    · split at h
      · rw [Prod.mk.injEq, Outcome.failed.injEq] at h
        rw [← h.2] at hescapes
        cases hescapes
      · rw [Prod.mk.injEq] at h
        exact (explained_handleInboundMedia _ _).outcome h.2 hescapes
    · rw [Prod.mk.injEq] at h
      cases h.2

/-! ### One poll -/

theorem Safe.handleUpdate {u : Update} (h : Safe lower cfg S offset b) (hu : u ∈ S.updates)
    (hdue : offset ≤ u.number) (hapart : Apart lower cfg S offset u)
    {o : Outcome} (hb : handleUpdate lower cfg u io b = (b', o)) : Safe lower cfg S offset b' := by
  have hhandles : Handles lower cfg u b (Telegram.handleUpdate lower cfg u io b).1 := handleUpdate_handles u io b
  rw [hb] at hhandles
  exact h.handles hu hdue hapart hhandles

/-- A poll that returns: what it leaves is safe from the offset it returns. -/
theorem pollLoop_safe_ok {batch : List (Update × Io)} {done : List Update} {next : Option ℕ}
    {handled : List (Update × Outcome)} {poll : Poll}
    (h : pollLoop lower cfg batch next handled b = (b', .ok poll))
    (hinit : done ++ batch.map Prod.fst <+: S.due offset) (hle : offset ≤ next.getD 0)
    (hdone : ∀ v ∈ done, v.number < next.getD 0) (hnext : ∀ v ∈ batch.map Prod.fst, next.getD 0 ≤ v.number)
    (hsafe : Safe lower cfg S (next.getD 0) b) : Safe lower cfg S (poll.nextOffset.getD 0) b' := by
  induction batch generalizing done next handled b with
  | nil =>
      simp only [pollLoop, Prod.mk.injEq, Except.ok.injEq] at h
      rw [← h.1, ← h.2]
      exact hsafe
  | cons x rest ih =>
      obtain ⟨u, io⟩ := x
      rw [List.map_cons] at hinit hnext
      have hu : u ∈ S.updates := (Stream.mem_due.mp (hinit.subset (by simp))).1
      have hdue : next.getD 0 ≤ u.number := hnext u List.mem_cons_self
      have hapart : Apart lower cfg S (next.getD 0) u := by
        intro v hv hv' hlt
        have hmem := Stream.mem_before hinit hv (hle.trans hv') hlt
        have hlt' := hdone v hmem
        omega
      rcases hresult : Telegram.handleUpdate lower cfg u io b with ⟨b₁, o⟩
      have hsafe₁ := hsafe.handleUpdate hu hdue hapart hresult
      obtain ⟨-, heq⟩ | ⟨f, -, -, heq⟩ | ⟨-, heq⟩ := pollLoop_cases lower cfg u io rest next handled b hresult
      · rw [heq] at h
        have hadvance : (advance u next).getD 0 = u.number + 1 := by
          simp [advance, Stream.updateId_eq hu]
        rw [List.append_cons] at hinit
        refine ih h hinit ?_ ?_ ?_ ?_
        · rw [hadvance]
          omega
        · intro v hv
          rw [List.mem_append, List.mem_singleton] at hv
          rw [hadvance]
          obtain hv | rfl := hv
          · have hlt := hdone v hv
            omega
          · omega
        · intro v hv
          rw [hadvance]
          have hsorted := (S.pairwise_number.sublist List.filter_sublist).sublist hinit.sublist
          exact (List.pairwise_append.mp hsorted).2.2 u (by simp) v hv
        · rw [hadvance]
          exact hsafe₁.later (by omega)
      · rw [heq] at h
        cases h
      · rw [heq] at h
        simp only [Prod.mk.injEq, Except.ok.injEq] at h
        rw [← h.1, ← h.2]
        exact hsafe₁

/-- A poll that raises: it has met a fatal outcome, and if it has mixed nothing by then, what
it leaves is safe from the offset it started at. -/
theorem pollLoop_safe_error {batch : List (Update × Io)} {done : List Update} {next : Option ℕ}
    {handled : List (Update × Outcome)} {f : Failure}
    (h : pollLoop lower cfg batch next handled b = (b', .error f))
    (hinit : done ++ batch.map Prod.fst <+: S.due offset)
    (hsafe : mixed lower cfg done = false → Safe lower cfg S offset b) :
    ∃ pre x rest, batch = pre ++ x :: rest ∧ x.2.fatal = true ∧
      (mixed lower cfg (done ++ (pre.map Prod.fst ++ [x.1])) = false → Safe lower cfg S offset b') := by
  induction batch generalizing done next handled b with
  | nil => simp [pollLoop] at h
  | cons x rest ih =>
      obtain ⟨u, io⟩ := x
      rw [List.map_cons] at hinit
      have hu := Stream.mem_due.mp (hinit.subset (by simp : u ∈ done ++ u :: rest.map Prod.fst))
      rcases hresult : Telegram.handleUpdate lower cfg u io b with ⟨b₁, o⟩
      have hsafe₁ : mixed lower cfg (done ++ [u]) = false → Safe lower cfg S offset b₁ := by
        intro hmixed
        have happend := mixed_eq_false.mp hmixed
        refine (hsafe (mixed_mono (List.subset_append_left _ _) hmixed)).handleUpdate hu.1 hu.2 ?_ hresult
        intro v hv hdue hlt chat
        have hmem := Stream.mem_before hinit hv hdue hlt
        refine ⟨happend v (by simp [hmem]) u (by simp) chat, ?_⟩
        intro hasks harms
        exact happend u (by simp) v (by simp [hmem]) chat harms hasks
      obtain ⟨-, heq⟩ | ⟨f', rfl, hescapes, heq⟩ | ⟨-, heq⟩ :=
        pollLoop_cases lower cfg u io rest next handled b hresult
      · rw [heq] at h
        rw [List.append_cons] at hinit
        obtain ⟨pre, x, rest', rfl, hfatal, hsafe'⟩ := ih h hinit hsafe₁
        refine ⟨(u, io) :: pre, x, rest', rfl, hfatal, ?_⟩
        simpa using hsafe'
      · rw [heq, Prod.mk.injEq] at h
        rw [← h.1]
        exact ⟨[], (u, io), rest, rfl, handleUpdate_fatal hresult hescapes, by simpa using hsafe₁⟩
      · rw [heq] at h
        cases h

/-! ### Whole runs -/

/-- `getUpdates` delivers from the offset on, and no process dies between two steps. -/
def Stream.delivers (S : Stream) (p : Poller) : Event → Bool
  | .poll (.batch batch) => decide (batch.map Prod.fst <+: S.due (p.offset.getD 0))
  | .crash => false
  | _ => true

def quietEvent (lower : Text → Text) (cfg : Config) : Event → Bool
  | .poll (.batch batch) => quiet lower cfg batch
  | _ => true

/-- The offset from which updates may come again. -/
def Poller.redelivery (p : Poller) : ℕ :=
  match p.phase with
  | .saving n => n
  | _ => p.file.getD 0

structure Consents (lower : Text → Text) (cfg : Config) (S : Stream) (p : Poller) : Prop where
  polling : p.phase = .polling → p.offset = p.file
  safe : Safe lower cfg S p.redelivery p.bridge

theorem consents_new (file : Option ℕ) (sessions : Sessions) :
    Consents lower cfg S (Poller.new file sessions) where
  polling := by nofun
  safe := ⟨fun _ => Nat.zero_le _, fun _ _ => rfl, by nofun, by nofun, by nofun⟩

theorem nextPhase_cases (offset next : Option ℕ) :
    (nextPhase offset next = .polling ∧ next.getD 0 ≤ offset.getD 0) ∨
      ∃ n, nextPhase offset next = .saving n ∧ next = some n := by
  cases next with
  | none => exact Or.inl ⟨rfl, Nat.zero_le _⟩
  | some n =>
      rw [nextPhase]
      by_cases hn : some n = offset
      · rw [if_pos hn, hn]
        exact Or.inl ⟨rfl, le_refl _⟩
      · rw [if_neg hn]
        exact Or.inr ⟨n, rfl, rfl⟩

/-- A poll that raised has done nothing, or its loop raised. -/
theorem pollOnce_error {next : Option ℕ} {fetch : Fetch} {f : Failure}
    (h : pollOnce lower cfg next fetch b = (b', .error f)) :
    b' = b ∨ ∃ batch, fetch = .batch batch ∧ pollLoop lower cfg batch next [] b = (b', .error f) := by
  unfold pollOnce at h
  by_cases henabled : cfg.enabled = false
  · rw [if_pos henabled, Prod.mk.injEq] at h
    exact Or.inl h.1.symm
  · by_cases hmode : cfg.mode ≠ .chat
    · rw [if_neg henabled, if_pos hmode, Prod.mk.injEq] at h
      exact Or.inl h.1.symm
    · rw [if_neg henabled, if_neg hmode] at h
      cases fetch with
      | failed f =>
          rw [Prod.mk.injEq] at h
          exact Or.inl h.1.symm
      | batch batch => exact Or.inr ⟨batch, rfl, h⟩

theorem consents_poll {p p' : Poller} {fetch : Fetch} (h : Consents lower cfg S p)
    (hd : S.delivers p (.poll fetch) = true) (hq : quietEvent lower cfg (.poll fetch) = true)
    (hstep : step lower cfg (.poll fetch) p = some p') : Consents lower cfg S p' := by
  rw [step] at hstep
  by_cases hphase : p.phase = .polling
  · rw [if_pos hphase] at hstep
    have hoffset := h.polling hphase
    have hsafe : Safe lower cfg S (p.file.getD 0) p.bridge := by
      have hsafe := h.safe
      rw [Poller.redelivery, hphase] at hsafe
      exact hsafe
    cases hpoll : pollOnce lower cfg p.offset fetch p.bridge with
    | mk bridge result =>
        rw [hpoll] at hstep
        cases result with
        | ok poll =>
            simp only [Option.some.injEq] at hstep
            subst hstep
            obtain ⟨batch, rfl, hloop⟩ := pollOnce_ok hpoll
            have hinit : [] ++ batch.map Prod.fst <+: S.due (p.offset.getD 0) := of_decide_eq_true hd
            rw [← hoffset] at hsafe
            have hsafe' := pollLoop_safe_ok hloop hinit (le_refl _) (List.forall_mem_nil _)
              (fun v hv => (Stream.mem_due.mp (hinit.subset hv)).2) hsafe
            refine ⟨fun _ => hoffset, ?_⟩
            obtain ⟨hpolling, hle⟩ | ⟨n, hsaving, hn⟩ := nextPhase_cases p.offset poll.nextOffset
            · simp only [Poller.redelivery, hpolling, ← hoffset]
              exact hsafe'.later hle
            · simp only [Poller.redelivery, hsaving]
              rw [hn] at hsafe'
              exact hsafe'
        | error f =>
            simp only [Option.some.injEq] at hstep
            subst hstep
            refine ⟨fun _ => hoffset, ?_⟩
            have hredelivery : Poller.redelivery { p with
                bridge, phase := if f.resumes then .polling else .stopped } = p.file.getD 0 := by
              rw [Poller.redelivery]
              cases f.resumes <;> rfl
            rw [hredelivery]
            obtain rfl | ⟨batch, rfl, hloop⟩ := pollOnce_error hpoll
            · exact hsafe
            · have hinit : [] ++ batch.map Prod.fst <+: S.due (p.offset.getD 0) := of_decide_eq_true hd
              rw [hoffset] at hinit
              obtain ⟨pre, x, rest, rfl, hfatal, hsafe'⟩ := pollLoop_safe_error hloop hinit fun _ => hsafe
              exact hsafe' (quiet_append hq hfatal)
  · rw [if_neg hphase] at hstep
    cases hstep

theorem consents_step {p p' : Poller} {e : Event} (h : Consents lower cfg S p)
    (hd : S.delivers p e = true) (hq : quietEvent lower cfg e = true)
    (hstep : step lower cfg e p = some p') : Consents lower cfg S p' := by
  cases e with
  | poll fetch => exact consents_poll h hd hq hstep
  | crash => cases hd
  | save ok =>
      rw [step] at hstep
      cases hphase : p.phase with
      | polling =>
          rw [hphase] at hstep
          cases hstep
      | stopped =>
          rw [hphase] at hstep
          cases hstep
      | saving n =>
          rw [hphase] at hstep
          have hsafe := h.safe
          cases ok with
          | true =>
              simp only [if_true, Option.some.injEq] at hstep
              subst hstep
              rw [Poller.redelivery, hphase] at hsafe
              exact ⟨fun _ => rfl, hsafe⟩
          | false =>
              simp only [Bool.false_eq_true, if_false, Option.some.injEq] at hstep
              subst hstep
              exact h
  | leave =>
      rw [step] at hstep
      by_cases hphase : p.phase = .polling
      · rw [if_pos hphase, Option.some.injEq] at hstep
        subst hstep
        have hsafe := h.safe
        rw [Poller.redelivery, hphase] at hsafe
        exact ⟨fun h => (by cases h), hsafe⟩
      · rw [if_neg hphase] at hstep
        cases hstep
  | start =>
      rw [step] at hstep
      by_cases hphase : p.phase = .stopped
      · rw [if_pos hphase] at hstep
        by_cases hcfg : cfg.enabled = false ∨ cfg.mode ≠ .chat
        · rw [if_pos hcfg, Option.some.injEq] at hstep
          subst hstep
          exact h
        · rw [if_neg hcfg, Option.some.injEq] at hstep
          subst hstep
          have hsafe := h.safe
          rw [Poller.redelivery, hphase] at hsafe
          exact ⟨fun _ => rfl, hsafe⟩
      · rw [if_neg hphase] at hstep
        cases hstep

/-- **Each `/online` leads to at most one confirmed query**, in every run in which no fatal error
meets a batch that has handled both an `/online` and a plain message of one chat. -/
theorem onlinePosts_le_one (lower : Text → Text) (cfg : Config) (S : Stream) (file : Option ℕ)
    (sessions : Sessions) (p : Poller)
    (h : Runs.Later (step lower cfg) (fun p e => S.delivers p e && quietEvent lower cfg e)
      (Poller.new file sessions) p) (g : ℕ) : onlinePosts g p.bridge.log ≤ 1 := by
  have hconsents : Consents lower cfg S p := by
    refine h.invariant (consents_new file sessions) ?_
    intro s t e hs hallow hstep
    rw [Bool.and_eq_true] at hallow
    exact consents_step hs hallow.1 hallow.2 hstep
  exact hconsents.safe.once g

/-- An `/online` and the question after it. -/
def onlineStream : Stream where
  updates := [privateText 10 "/online on grok", privateText 11 "why"]
  numbered := by decide
  increasing := by decide

/-- The question times out once, after its consent is spent, and is answered when it comes again. -/
def retriedRun : List Event :=
  [.start,
    .poll (.batch [(privateText 10 "/online on grok", .fine 1),
      (privateText 11 "why", { Io.fine 2 with send := .error (.runtime (some true) false) })]),
    .save true, .poll (.batch [(privateText 11 "why", .fine 3)]), .save true]

theorem onlinePosts_le_one_retried :
    ∃ p, Runs.run (step id hybridConfig) (fun p e => onlineStream.delivers p e && quietEvent id hybridConfig e)
        retriedRun (Poller.new none fun _ => .missing) = some p ∧
      p.bridge.log.length = 3 ∧ onlinePosts 10 p.bridge.log ≤ 1 := by
  have hseen : (Runs.run (step id hybridConfig)
      (fun p e => onlineStream.delivers p e && quietEvent id hybridConfig e)
      retriedRun (Poller.new none fun _ => .missing)).any (fun p => p.bridge.log.length = 3) = true := by
    decide +kernel
  obtain ⟨p, hrun, hlog⟩ := (Option.any_eq_true _ _).mp hseen
  exact ⟨p, hrun, of_decide_eq_true hlog, onlinePosts_le_one id hybridConfig onlineStream none _ p (.of_run hrun) 10⟩

/-- The reply to the question fails for good, after its consent is spent, and the poller is
started again. -/
def revokedRun : List Event :=
  [.start,
    .poll (.batch [(privateText 10 "/online on grok", .fine 1),
      (privateText 11 "why", { Io.fine 2 with send := .error (.runtime (some false) true) })]),
    .start,
    .poll (.batch [(privateText 10 "/online on grok", .fine 3), (privateText 11 "why", .fine 4)])]

/-- One `/online` leads to two confirmed queries. -/
theorem consent_spent_twice :
    ∃ p, Runs.Later (step id hybridConfig) onlineStream.delivers (Poller.new none fun _ => .missing) p ∧
      onlinePosts 10 p.bridge.log = 2 := by
  have hseen : (Runs.run (step id hybridConfig) onlineStream.delivers
      revokedRun (Poller.new none fun _ => .missing)).any (fun p => onlinePosts 10 p.bridge.log = 2) = true := by
    decide +kernel
  obtain ⟨p, hrun, hposts⟩ := (Option.any_eq_true _ _).mp hseen
  exact ⟨p, .of_run hrun, of_decide_eq_true hposts⟩

end CyClaw.Telegram

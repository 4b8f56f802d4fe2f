/-
A batch of pieces stays within the slots it was granted.

`Tried` is what any stretch of a batch does to the books: each post takes one slot from the
reservation, and from what the limiter holds, and becomes an event.  A piece that is sent
after failed attempts has used that many of the slots kept for retries, so what is left of
the reservation is one slot for each piece to come and the retries that remain
(`sendPieces_spec`).
-/
import CyClaw.Telegram.Sending

namespace CyClaw.Telegram

open SlidingWindow

variable {out : Outside} {P : LimiterPolicy} {S S' S'' : Sender} {r r' r'' : RateLimitReservation}
  {body token : Text} {tries tries' : List (Text × Bool)}

/-! ### One attempt -/

/-- The post and its record went as documented. -/
def Attempt.Documented (a : Attempt) : Prop := a.response ≠ .raised ∧ a.audited = true

/-- A `TelegramRuntimeError`, or what an undocumented post has raised. -/
def Foreseen (out : Outside) (e : SendError) : Prop :=
  e.isRuntime = true ∨ e = .raised ∧ ∃ i, ¬ (out.attempts i).Documented

theorem raiseDuringRetryCooldown_cases (out : Outside) (token method : Text) (S : Sender) :
    (raiseDuringRetryCooldown out token method S).2.limiter = S.limiter ∧
      (raiseDuringRetryCooldown out token method S).2.posted = S.posted ∧
      ((raiseDuringRetryCooldown out token method S).1 = none ∨
        ∃ e, (raiseDuringRetryCooldown out token method S).1 = some e ∧ e.isRuntime = true) := by
  rw [raiseDuringRetryCooldown]
  dsimp only
  split
  · exact ⟨rfl, rfl, Or.inl rfl⟩
  · exact ⟨rfl, rfl, Or.inr ⟨_, rfl, rfl⟩⟩

theorem handleRetryAfter_cases (out : Outside) (data : Fields) (token : Text) (attempt : ℕ)
    (method : Text) (maxRetries : ℕ) (S : Sender) :
    (handleRetryAfter out data token attempt method maxRetries S).2.limiter = S.limiter ∧
      (handleRetryAfter out data token attempt method maxRetries S).2.posted = S.posted ∧
      ((∃ again, (handleRetryAfter out data token attempt method maxRetries S).1 = .ok again) ∨
        ∃ e, (handleRetryAfter out data token attempt method maxRetries S).1 = .error e ∧
          e.isRuntime = true) := by
  rw [handleRetryAfter]
  split
  · exact ⟨rfl, rfl, Or.inl ⟨_, rfl⟩⟩
  · dsimp only
    split_ifs
    · exact ⟨rfl, rfl, Or.inr ⟨_, rfl, rfl⟩⟩
    · exact ⟨rfl, rfl, Or.inl ⟨_, rfl⟩⟩
    · exact ⟨rfl, rfl, Or.inl ⟨_, rfl⟩⟩
    · exact ⟨rfl, rfl, Or.inl ⟨_, rfl⟩⟩

/-- **All that can come of a post.** -/
theorem receive_cases (out : Outside) (i : ℕ) (token : Text) (attempt maxRetries : ℕ) (S : Sender) :
    (receive out (out.attempts i) token attempt maxRetries S).2.limiter = S.limiter ∧
      (receive out (out.attempts i) token attempt maxRetries S).2.posted = S.posted ∧
      ((∃ data, (receive out (out.attempts i) token attempt maxRetries S).1 = .ok (some data) ∧
          (out.attempts i).response.isSent = true) ∨
        ((receive out (out.attempts i) token attempt maxRetries S).1 = .ok none ∧
          (out.attempts i).response.isSent = false) ∨
        ∃ e, (receive out (out.attempts i) token attempt maxRetries S).1 = .error e ∧ Foreseen out e) := by
  generalize ha : out.attempts i = a
  have hraised : ¬ a.Documented → Foreseen out .raised := by
    intro h
    exact Or.inr ⟨rfl, i, by rwa [ha]⟩
  rw [receive]
  split
  · rename_i hr
    exact ⟨rfl, rfl, Or.inr (Or.inr ⟨_, rfl, hraised (fun h => h.1 hr)⟩)⟩
  · split
    · exact ⟨rfl, rfl, Or.inr (Or.inr ⟨_, rfl, Or.inl rfl⟩)⟩
    · rename_i haudit
      exact ⟨rfl, rfl, Or.inr (Or.inr ⟨_, rfl, hraised (fun h => haudit h.2)⟩)⟩
  · rename_i status b hr
    split
    · rename_i haudit
      refine ⟨rfl, rfl, Or.inr (Or.inr ⟨_, rfl, hraised fun h => ?_⟩)⟩
      rw [h.2] at haudit
      cases haudit
    · split
      · exact ⟨rfl, rfl, Or.inr (Or.inr ⟨_, rfl, Or.inl rfl⟩)⟩
      · rename_i data
        have hsent : a.response.isSent = isSent status data := by
          rw [hr]
          rfl
        split
        · rename_i hok
          exact ⟨rfl, rfl, Or.inl ⟨_, rfl, hsent.trans hok⟩⟩
        · rename_i hok
          rw [Bool.not_eq_true] at hok
          split
          · obtain ⟨hlimiter, hposted, hcases⟩ :=
              handleRetryAfter_cases out data token attempt "sendMessage".toList maxRetries S
            generalize handleRetryAfter out data token attempt "sendMessage".toList maxRetries S = p at *
            obtain ⟨result, S₁⟩ := p
            obtain ⟨⟨_ | _, delay⟩, rfl⟩ | ⟨e, rfl, he⟩ := hcases
            · exact ⟨hlimiter, hposted, Or.inr (Or.inr ⟨_, rfl, Or.inl rfl⟩)⟩
            · exact ⟨hlimiter, hposted, Or.inr (Or.inl ⟨rfl, hsent.trans hok⟩)⟩
            · exact ⟨hlimiter, hposted, Or.inr (Or.inr ⟨_, rfl, Or.inl he⟩)⟩
          · exact ⟨rfl, rfl, Or.inr (Or.inr ⟨_, rfl, Or.inl rfl⟩)⟩
      · exact ⟨rfl, rfl, Or.inr (Or.inr ⟨_, rfl, Or.inl rfl⟩)⟩

/-! ### The books -/

theorem consume_open (P : LimiterPolicy) {L : SlidingWindowLimiter} (now : ℚ) (hopen : 0 < r.remaining)
    (hheld : r.remaining ≤ L.reserved r.key) :
    ∃ L', r.consume P now L = (.done, { r with remaining := r.remaining - 1 }, L') ∧
      L'.reserved = Function.update L.reserved r.key (L.reserved r.key - 1) ∧
      L'.charged = Function.update L.charged r.key (L.charged r.key ++ [now]) :=
  ⟨_, consume_eq P now hopen hheld, rfl, rfl⟩

theorem close_open {L : SlidingWindowLimiter} (hheld : r.remaining ≤ L.reserved r.key) :
    ∃ r' L', r.close L = (.done, r', L') ∧
      L'.reserved = Function.update L.reserved r.key (L.reserved r.key - r.remaining) ∧
      L'.charged = L.charged :=
  ⟨_, _, close_eq hheld, rfl, rfl⟩

/-- What a stretch of a batch does to the books. -/
structure Tried (r : RateLimitReservation) (S : Sender) (r' : RateLimitReservation) (S' : Sender)
    (tries : List (Text × Bool)) : Prop where
  posted : S'.posted = S.posted ++ tries
  key : r'.key = r.key
  slots : r'.remaining + tries.length = r.remaining
  held : ∀ k, S'.limiter.reserved k + (if k = r.key then tries.length else 0) = S.limiter.reserved k
  charged : ∀ k, (S'.limiter.charged k).length =
    (S.limiter.charged k).length + (if k = r.key then tries.length else 0)

theorem Tried.nil (hlimiter : S'.limiter = S.limiter) (hposted : S'.posted = S.posted) :
    Tried r S r S' [] :=
  ⟨by simp [hposted], rfl, rfl, by simp [hlimiter], by simp [hlimiter]⟩

theorem Tried.append (h : Tried r S r' S' tries) (h' : Tried r' S' r'' S'' tries') :
    Tried r S r'' S'' (tries ++ tries') := by
  refine ⟨?_, h'.key.trans h.key, ?_, ?_, ?_⟩
  · rw [h'.posted, h.posted, List.append_assoc]
  · have hslots := h.slots
    have hslots' := h'.slots
    rw [List.length_append]
    omega
  · intro k
    have hheld := h.held k
    have hheld' := h'.held k
    rw [h.key] at hheld'
    rw [List.length_append]
    split_ifs at * <;> omega
  · intro k
    have hcharged := h.charged k
    have hcharged' := h'.charged k
    rw [h.key] at hcharged'
    rw [List.length_append]
    split_ifs at * <;> omega

theorem Tried.open (h : Tried r S r' S' tries) (hheld : r.remaining ≤ S.limiter.reserved r.key) :
    r'.remaining ≤ S'.limiter.reserved r'.key := by
  have hself := h.held r.key
  have hslots := h.slots
  rw [if_pos rfl] at hself
  rw [h.key]
  omega

/-- One post. -/
theorem Tried.post {L : SlidingWindowLimiter} {now : ℚ} {accepted : Bool} {S₀ : Sender}
    (hposted : S₀.posted = S.posted) (hopen : 0 < r.remaining) (hheld : r.remaining ≤ S.limiter.reserved r.key)
    (hL : L.reserved = Function.update S.limiter.reserved r.key (S.limiter.reserved r.key - 1) ∧
      L.charged = Function.update S.limiter.charged r.key (S.limiter.charged r.key ++ [now]))
    (hS' : S'.limiter = L ∧ S'.posted = S₀.posted ++ [(body, accepted)]) :
    Tried r S { r with remaining := r.remaining - 1 } S' [(body, accepted)] := by
  refine ⟨by rw [hS'.2, hposted], rfl, ?_, ?_, ?_⟩
  · simp only [List.length_cons, List.length_nil]
    omega
  · intro k
    rw [hS'.1, hL.1]
    by_cases hk : k = r.key
    · subst hk
      simp only [Function.update_self, if_true, List.length_cons, List.length_nil]
      omega
    · simp [hk]
  · intro k
    rw [hS'.1, hL.2]
    by_cases hk : k = r.key
    · subst hk
      simp
    · simp [hk]

/-! ### A piece, and the batch -/

/-- How the attempts at a piece end. -/
structure PieceRun (out : Outside) (body : Text) (left attempt : ℕ) (r : RateLimitReservation) (S : Sender)
    (result : Except SendError (Fields × ℕ)) (r' : RateLimitReservation) (S' : Sender) : Prop where
  ends : ∃ fails last, Tried r S r' S' (List.replicate fails (body, false) ++ last) ∧
    fails + last.length ≤ left ∧
    ((∃ data, result = .ok (data, attempt + fails + 1) ∧ last = [(body, true)]) ∨
      ∃ e, result = .error e ∧ Foreseen out e ∧ (last = [] ∨ last = [(body, true)]))

theorem PieceRun.again {left attempt : ℕ} {result : Except SendError (Fields × ℕ)}
    (h : Tried r S r' S' [(body, false)]) (hrest : PieceRun out body left (attempt + 1) r' S' result r'' S'') :
    PieceRun out body (left + 1) attempt r S result r'' S'' := by
  obtain ⟨fails, last, htried, hle, hend⟩ := hrest.ends
  refine ⟨⟨fails + 1, last, h.append htried, by omega, ?_⟩⟩
  rw [show attempt + (fails + 1) + 1 = attempt + 1 + fails + 1 by omega]
  exact hend

/-- **The attempts at a piece**, as long as there is a slot for each. -/
theorem sendLoop_run (out : Outside) (P : LimiterPolicy) (body token : Text) (maxRetries left attempt : ℕ) (hleft : left ≤ r.remaining)
    (hheld : r.remaining ≤ S.limiter.reserved r.key) :
    PieceRun out body left attempt r S (sendLoop out P body token maxRetries left attempt r S).1
      (sendLoop out P body token maxRetries left attempt r S).2.1
      (sendLoop out P body token maxRetries left attempt r S).2.2 := by
  induction left generalizing attempt r S with
  | zero => exact ⟨⟨0, [], Tried.nil rfl rfl, by simp, Or.inr ⟨_, rfl, Or.inl rfl, Or.inl rfl⟩⟩⟩
  | succ left ih =>
      rw [sendLoop]
      obtain ⟨hlimiter, hposted, hcool⟩ := raiseDuringRetryCooldown_cases out token "sendMessage".toList S
      generalize raiseDuringRetryCooldown out token "sendMessage".toList S = c at *
      obtain ⟨cooldown, S₁⟩ := c
      obtain rfl | ⟨e, rfl, he⟩ := hcool
      · have hheld₁ : r.remaining ≤ S₁.limiter.reserved r.key := by
          rw [hlimiter]
          exact hheld
        obtain ⟨L, hconsume, hL⟩ := consume_open P (out.clock S₁.ticks) (by omega) hheld₁
        dsimp only [Sender.readClock]
        rw [hconsume]
        dsimp only
        obtain ⟨hlimiter₂, hposted₂, hreceive⟩ := receive_cases out S₁.posted.length token attempt maxRetries
          (Sender.post { S₁ with limiter := L, ticks := S₁.ticks + 1 } body
            (out.attempts S₁.posted.length).response.isSent)
        generalize receive out (out.attempts S₁.posted.length) token attempt maxRetries
          (Sender.post { S₁ with limiter := L, ticks := S₁.ticks + 1 } body
            (out.attempts S₁.posted.length).response.isSent) = p at *
        obtain ⟨received, S₂⟩ := p
        have hpost : Tried r S { r with remaining := r.remaining - 1 } S₂
            [(body, (out.attempts S₁.posted.length).response.isSent)] := by
          dsimp only at hlimiter
          rw [hlimiter] at hL
          exact Tried.post hposted (by omega) hheld hL ⟨hlimiter₂, hposted₂⟩
        obtain ⟨data, rfl, hsent⟩ | ⟨rfl, hsent⟩ | ⟨e, rfl, he⟩ := hreceive
        · rw [hsent] at hpost
          exact ⟨⟨0, _, hpost, by simp, Or.inl ⟨data, rfl, rfl⟩⟩⟩
        · rw [hsent] at hpost
          refine PieceRun.again hpost (ih (attempt + 1) ?_ (hpost.open hheld))
          show left ≤ r.remaining - 1
          omega
        · cases hsent : (out.attempts S₁.posted.length).response.isSent with
          | true =>
              rw [hsent] at hpost
              exact ⟨⟨0, _, hpost, by simp, Or.inr ⟨e, rfl, he, Or.inr rfl⟩⟩⟩
          | false =>
              rw [hsent] at hpost
              exact ⟨⟨1, [], hpost, by simp, Or.inr ⟨e, rfl, he, Or.inl rfl⟩⟩⟩
      · refine ⟨⟨0, [], Tried.nil hlimiter hposted, by simp, Or.inr ⟨e, rfl, Or.inl he, Or.inl rfl⟩⟩⟩

/-- A log in which a piece is posted once those before it were taken. -/
def InOrder : List Text → List (Text × Bool) → Prop
  | _, [] => True
  | [], _ :: _ => False
  | piece :: pieces, (body, accepted) :: log =>
      body = piece ∧ InOrder (if accepted then pieces else piece :: pieces) log

theorem inOrder_failed {piece : Text} {pieces : List Text} {log : List (Text × Bool)} (n : ℕ)
    (h : InOrder (piece :: pieces) log) :
    InOrder (piece :: pieces) (List.replicate n (piece, false) ++ log) := by
  induction n with
  | zero => exact h
  | succ n ih => exact ⟨rfl, ih⟩

/-- The pieces that were taken. -/
def taken (log : List (Text × Bool)) : List Text := (log.filter Prod.snd).map Prod.fst

theorem taken_append (log log' : List (Text × Bool)) : taken (log ++ log') = taken log ++ taken log' := by
  simp [taken]

@[simp] theorem taken_failed (n : ℕ) (piece : Text) : taken (List.replicate n (piece, false)) = [] := by
  simp [taken]

/-- At each post the pieces taken before it are those before the piece posted. -/
theorem InOrder.at_post {pieces : List Text} {before after : List (Text × Bool)} {body : Text} {accepted : Bool}
    (h : InOrder pieces (before ++ (body, accepted) :: after)) :
    ∃ i : ℕ, pieces[i]? = some body ∧ taken before = pieces.take i := by
  induction before generalizing pieces with
  | nil =>
      cases pieces with
      | nil => exact absurd h id
      | cons piece pieces => exact ⟨0, by simp [h.1], rfl⟩
  | cons post before ih =>
      obtain ⟨b, ok⟩ := post
      cases pieces with
      | nil => exact absurd h id
      | cons piece pieces =>
          obtain ⟨rfl, hrest⟩ := h
          obtain ⟨i, hi, htaken⟩ := ih hrest
          cases ok with
          | true => exact ⟨i + 1, hi, by simpa [taken] using htaken⟩
          | false => exact ⟨i, hi, by simpa [taken] using htaken⟩

/-- **The pieces of a batch**, with a slot for each and `slots` more. -/
theorem sendPieces_run (out : Outside) (P : LimiterPolicy) (token : Text) (pieces : List Text) (slots : ℕ) (last : Fields)
    (hremaining : r.remaining = pieces.length + slots) (hheld : r.remaining ≤ S.limiter.reserved r.key) :
    ∃ tries, Tried r S (sendPieces out P token pieces slots last r S).2.1
        (sendPieces out P token pieces slots last r S).2.2 tries ∧ InOrder pieces tries ∧
      ((∃ data, (sendPieces out P token pieces slots last r S).1 = .ok data ∧ taken tries = pieces) ∨
        ∃ e, (sendPieces out P token pieces slots last r S).1 = .error e ∧ Foreseen out e) := by
  induction pieces generalizing slots last r S with
  | nil => exact ⟨[], Tried.nil rfl rfl, trivial, Or.inl ⟨last, rfl, rfl⟩⟩
  | cons piece pieces ih =>
      rw [List.length_cons] at hremaining
      -- One attempt, and one more where a slot for a retry is left.
      have hretries : (if (0 : ℤ) < (slots : ℤ) then max429Retries else 0) ≤ slots := by
        rw [max429Retries]
        split_ifs <;> omega
      rw [sendPieces, sendOne]
      generalize (if (0 : ℤ) < (slots : ℤ) then max429Retries else 0) = retries at hretries ⊢
      obtain ⟨⟨fails, last', htried, hle, hend⟩⟩ := sendLoop_run out P piece token retries
        (retries + 1) 0 (by omega) hheld
      generalize sendLoop out P piece token retries (retries + 1) 0 r S = p at *
      obtain ⟨result, r₁, S₁⟩ := p
      dsimp only at htried
      obtain ⟨data, rfl, rfl⟩ | ⟨e, rfl, he, hlast⟩ := hend
      · have hslots := htried.slots
        rw [List.length_append, List.length_replicate, List.length_singleton] at hslots
        rw [List.length_singleton] at hle
        obtain ⟨left, hleft⟩ : ∃ left : ℕ, (slots : ℤ) - (((0 + fails + 1 : ℕ) : ℤ) - 1) = left :=
          ⟨slots - fails, by omega⟩
        dsimp only
        rw [hleft]
        obtain ⟨tries, hrest, horder, hdone⟩ := ih (r := r₁) (S := S₁) left data (by omega) (htried.open hheld)
        refine ⟨_, htried.append hrest, ?_, ?_⟩
        · rw [List.append_assoc]
          exact inOrder_failed fails ⟨rfl, horder⟩
        · rw [taken_append, taken_append, taken_failed]
          obtain ⟨data, hdata, htaken⟩ | hfailed := hdone
          · exact Or.inl ⟨data, hdata, by rw [htaken]; rfl⟩
          · exact Or.inr hfailed
      · refine ⟨_, htried, inOrder_failed fails ?_, Or.inr ⟨e, rfl, he⟩⟩
        obtain rfl | rfl := hlast
        · trivial
        · exact ⟨rfl, trivial⟩

/-! ### A message -/

/-- Live events and held slots leave room for `n` more. -/
def HasRoom (P : LimiterPolicy) (L : SlidingWindowLimiter) (key : Text) (now : ℚ) (n : ℕ) : Prop :=
  (prune P.window (L.events key) now).length + L.reserved key + n ≤ P.maxOps

theorem reserveUpTo_cases (repr : Text → Text) (P : LimiterPolicy) (key : Text) {n : ℕ} {maximum : ℤ} (now : ℚ)
    (L : SlidingWindowLimiter) (hn : 0 < n) (hmax : n ≤ maximum) :
    (∃ refusal L', reserveUpTo repr P key n maximum now L = (.error (.refused refusal), L') ∧
        ¬ HasRoom P L key now n ∧ L'.reserved = L.reserved) ∨
      ∃ granted L', reserveUpTo repr P key n maximum now L = (.ok granted, L') ∧
        HasRoom P L key now n ∧ n ≤ granted ∧
        L'.reserved = Function.update L.reserved key (L.reserved key + granted) ∧ L'.charged = L.charged := by
  rw [reserveUpTo, validateCost, validateCost, if_neg (by omega), if_neg (by omega)]
  dsimp only
  rw [if_neg (by omega)]
  cases hcap : ensureCapacity repr P (L.pruned P key now) key (n : ℤ).toNat now with
  | some refusal =>
      refine Or.inl ⟨refusal, _, rfl, ?_, rfl⟩
      intro hroom
      rw [HasRoom, ← pruned_events_self] at hroom
      have hnone : ensureCapacity repr P (L.pruned P key now) key n now = none :=
        ensureCapacity_none.mpr ⟨by omega, hroom⟩
      rw [Int.toNat_natCast, hnone] at hcap
      cases hcap
  | none =>
      obtain ⟨-, hroom⟩ := ensureCapacity_none.mp hcap
      rw [Int.toNat_natCast] at hroom
      rw [pruned_events_self] at hroom
      refine Or.inr ⟨_, _, rfl, hroom, ?_, rfl, rfl⟩
      rw [pruned_events_self]
      omega

theorem retrySlotsFor_nonneg (P : LimiterPolicy) (n : ℕ) : 0 ≤ retrySlotsFor P n := by
  rw [retrySlotsFor]
  omega

/-- How a call that has pieces to send ends, and what it leaves. -/
structure BatchRun (out : Outside) (P : LimiterPolicy) (repr : Text → Text) (token : Text) (pieces : List Text)
    (S : Sender) (result : Except SendError Fields) (S' : Sender) : Prop where
  ends : ∃ posted, S'.posted = S.posted ++ posted ∧ S'.limiter.reserved = S.limiter.reserved ∧
    (((∃ e, (raiseDuringRetryCooldown out token "sendMessage".toList S).1 = some e ∧ result = .error e ∧
        e.isRuntime = true) ∧ posted = []) ∨
      (raiseDuringRetryCooldown out token "sendMessage".toList S).1 = none ∧
        ((∃ refusal L, reserveUpTo repr P outboundKey pieces.length
              (pieces.length + retrySlotsFor P pieces.length) (out.clock (S.ticks + 1)) S.limiter =
              (.error (.refused refusal), L) ∧
            ¬ HasRoom P S.limiter outboundKey (out.clock (S.ticks + 1)) pieces.length ∧
            result = .error (.rateLimited refusal) ∧ posted = []) ∨
          ∃ granted L, reserveUpTo repr P outboundKey pieces.length
              (pieces.length + retrySlotsFor P pieces.length) (out.clock (S.ticks + 1)) S.limiter =
              (.ok granted, L) ∧
            HasRoom P S.limiter outboundKey (out.clock (S.ticks + 1)) pieces.length ∧
            posted.length ≤ granted ∧ InOrder pieces posted ∧
            (∀ k, (S'.limiter.charged k).length =
              (S.limiter.charged k).length + (if k = outboundKey then posted.length else 0)) ∧
            ((∃ data, result = .ok data ∧ taken posted = pieces) ∨ ∃ e, result = .error e ∧ Foreseen out e)))

theorem sendBatch_run (out : Outside) (P : LimiterPolicy) (repr : Text → Text) (token : Text)
    {pieces : List Text} (hne : pieces ≠ []) (S : Sender) :
    BatchRun out P repr token pieces S (sendBatch out P repr token pieces S).1
      (sendBatch out P repr token pieces S).2 := by
  have hlength : 0 < pieces.length := List.length_pos_iff.mpr hne
  have hticks : (raiseDuringRetryCooldown out token "sendMessage".toList S).2.ticks = S.ticks + 1 := by
    rw [raiseDuringRetryCooldown]
    dsimp only
    split <;> rfl
  obtain ⟨hlimiter, hposted, hcool⟩ := raiseDuringRetryCooldown_cases out token "sendMessage".toList S
  rw [sendBatch]
  cases hstart : raiseDuringRetryCooldown out token "sendMessage".toList S with
  | mk cooldown S₁ =>
      rw [hstart] at hticks hlimiter hposted hcool
      dsimp only at hticks hlimiter hposted hcool
      obtain rfl | ⟨e, rfl, he⟩ := hcool
      · dsimp only [Sender.readClock]
        rw [hticks, hlimiter]
        have hslots := retrySlotsFor_nonneg P pieces.length
        obtain ⟨refusal, L, hreserve, hroom, hheld⟩ | ⟨granted, L, hreserve, hroom, hgranted, hheld, hcharged⟩ :=
          reserveUpTo_cases repr P outboundKey (out.clock (S.ticks + 1)) S.limiter hlength (by omega :
            (pieces.length : ℤ) ≤ pieces.length + retrySlotsFor P pieces.length)
        · rw [hreserve]
          exact ⟨⟨[], by simp [hposted], hheld, Or.inr ⟨by rw [hstart], Or.inl ⟨refusal, L, hreserve, hroom, rfl, rfl⟩⟩⟩⟩
        · rw [hreserve]
          obtain ⟨slots, hslots⟩ : ∃ slots : ℕ, granted = pieces.length + slots := ⟨granted - pieces.length, by omega⟩
          subst hslots
          have hextra : ((pieces.length + slots : ℕ) : ℤ) - pieces.length = slots := by omega
          dsimp only
          rw [hextra]
          have hopen : pieces.length + slots ≤ L.reserved outboundKey := by
            rw [hheld, Function.update_self]
            omega
          obtain ⟨posted, htried, horder, hend⟩ := sendPieces_run (r := ⟨outboundKey, pieces.length + slots⟩)
            (S := { S₁ with limiter := L, ticks := S.ticks + 1 + 1 }) out P token pieces slots [] rfl hopen
          have hremains := htried.open hopen
          generalize sendPieces out P token pieces slots [] ⟨outboundKey, pieces.length + slots⟩
            { S₁ with limiter := L, ticks := S.ticks + 1 + 1 } = p at *
          obtain ⟨result, r, S₂⟩ := p
          dsimp only at htried hremains hend ⊢
          obtain ⟨r', L', hclose, hreleased, hcharged'⟩ := close_open hremains
          rw [hclose]
          refine ⟨⟨posted, by rw [← hposted]; exact htried.posted, ?_, Or.inr ⟨by rw [hstart],
            Or.inr ⟨_, L, hreserve, hroom, ?_, horder, ?_, hend⟩⟩⟩⟩
          · -- What the posts did not use is what is released.
            funext k
            show L'.reserved k = S.limiter.reserved k
            have hk := htried.held k
            have hslots' := htried.slots
            rw [hheld] at hk
            rw [hreleased]
            have hkey := htried.key
            dsimp only at hk hslots' hkey
            by_cases hself : k = outboundKey
            · subst hself
              rw [hkey, Function.update_self]
              simp only [Function.update_self, if_true] at hk
              omega
            · rw [hkey, Function.update_of_ne hself]
              simpa [hself] using hk
          · have hslots' := htried.slots
            dsimp only at hslots'
            omega
          · intro k
            have hk := htried.charged k
            rw [hcharged] at hk
            rw [hcharged']
            exact hk
      · exact ⟨⟨[], by simp [hposted], by rw [hlimiter], Or.inl ⟨⟨e, by rw [hstart], rfl, he⟩, rfl⟩⟩⟩

theorem Foreseen.ne_limiterError {e : SendError} (h : Foreseen out e) (message : Text) : e ≠ .limiterError message := by
  rintro rfl
  obtain h | ⟨h, -⟩ := h <;> cases h

/-- What a call of `send_message` may do, `posted` being what it has posted. -/
structure WithinReservation (P : LimiterPolicy) (repr : Text → Text) (cfg : Config) (text : Text) (S : Sender)
    (result : Except SendError Fields) (S' : Sender) (posted : List (Text × Bool)) : Prop where
  posts : S'.posted = S.posted ++ posted
  /-- No slot stays held. -/
  released : S'.limiter.reserved = S.limiter.reserved
  no_limiterError : ∀ message, result ≠ .error (.limiterError message)
  /-- The posts have slots, become events, and come in order. -/
  granted : posted = [] ∨ ∃ pieces granted now L, chunkText text cfg.maxMessageChars = .ok pieces ∧
    reserveUpTo repr P outboundKey pieces.length (pieces.length + retrySlotsFor P pieces.length) now
      S.limiter = (.ok granted, L) ∧
    posted.length ≤ granted ∧
    (S'.limiter.charged outboundKey).length = (S.limiter.charged outboundKey).length + posted.length ∧
    ∀ before body accepted after, posted = before ++ (body, accepted) :: after →
      ∃ i : ℕ, pieces[i]? = some body ∧ taken before = pieces.take i
  /-- A call that returns has sent every piece. -/
  delivered : ∀ data, result = .ok data → chunkText text cfg.maxMessageChars = .ok (taken posted)

theorem WithinReservation.failed {repr : Text → Text} {cfg : Config} {text : Text} {e : SendError}
    (hposted : S'.posted = S.posted) (hreserved : S'.limiter.reserved = S.limiter.reserved)
    (he : ∀ message, e ≠ .limiterError message) :
    WithinReservation P repr cfg text S (.error e) S' [] := by
  refine ⟨by simp [hposted], hreserved, ?_, Or.inl rfl, ?_⟩
  · intro message h
    exact he message (Except.error.inj h)
  · intro data h
    cases h

theorem WithinReservation.of_batch {repr : Text → Text} {cfg : Config} {text : Text} {pieces : List Text}
    {result : Except SendError Fields} (hpieces : chunkText text cfg.maxMessageChars = .ok pieces)
    (h : BatchRun out P repr token pieces S result S') :
    ∃ posted, WithinReservation P repr cfg text S result S' posted := by
  obtain ⟨posted, hposted, hheld, hend⟩ := h.ends
  obtain ⟨⟨e, -, rfl, he⟩, rfl⟩ | ⟨-, ⟨refusal, L, -, -, rfl, rfl⟩ |
    ⟨granted, L, hreserve, -, hle, horder, hcharged, hend⟩⟩ := hend
  · refine ⟨[], WithinReservation.failed (by simpa using hposted) hheld ?_⟩
    rintro message rfl
    cases he
  · refine ⟨[], WithinReservation.failed (by simpa using hposted) hheld ?_⟩
    intro message h
    cases h
  · refine ⟨posted, hposted, hheld, ?_, Or.inr ⟨pieces, granted, _, L, hpieces, hreserve, hle, ?_, ?_⟩, ?_⟩
    · intro message hresult
      obtain ⟨data, rfl, -⟩ | ⟨e, rfl, he⟩ := hend
      · cases hresult
      · exact he.ne_limiterError message (Except.error.inj hresult)
    · have hself := hcharged outboundKey
      rwa [if_pos rfl] at hself
    · rintro before body accepted after rfl
      exact horder.at_post
    · intro data hresult
      obtain ⟨data, -, htaken⟩ | ⟨e, rfl, -⟩ := hend
      · rw [htaken, hpieces]
      · cases hresult

/-- **A message stays within its reservation**, whatever the limiter holds and whatever the Bot
API answers. -/
theorem sendMessage_within_reservation (out : Outside) (P : LimiterPolicy) (repr : Text → Text) (cfg : Config)
    (token : Option Text) (chat text : Text) (S : Sender) :
    ∃ posted, WithinReservation P repr cfg text S (sendMessage out P repr cfg token chat text S).1
      (sendMessage out P repr cfg token chat text S).2 posted := by
  rw [sendMessage]
  split
  · exact ⟨[], .failed rfl rfl (by simp)⟩
  · split
    · exact ⟨[], .failed rfl rfl (by simp)⟩
    · rename_i pieces hpieces
      split
      · exact ⟨[], .failed rfl rfl (by simp)⟩
      · rename_i hne
        split
        · exact ⟨[], .failed rfl rfl (by simp)⟩
        · rename_i token
          exact WithinReservation.of_batch hpieces (sendBatch_run out P repr token hne S)

end CyClaw.Telegram

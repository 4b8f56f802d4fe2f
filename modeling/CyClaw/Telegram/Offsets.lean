/-
What the offset acknowledges.

An update is acknowledged only if it was ignored, handled, or refused for good.  The loop
of a poll moves its offset past an update in exactly these cases and leaves it where it is
when it stops, and the poller saves nothing but what a poll returned.

The Bot API delivers updates from the offset on, in increasing order; both theorems take
that from it and nothing else.
-/
import CyClaw.Telegram.Runner

namespace CyClaw.Telegram

variable {lower : Text → Text} {cfg : Config}

/-- The update is done with. -/
def Outcome.settled : Outcome → Bool
  | .ignored => true
  | .success => true
  | .failed f => !f.escapes && !f.retryable

/-! ### One poll -/

/-- **What the loop does with an update**: it goes on, raises or stops. -/
theorem pollLoop_cases (lower : Text → Text) (cfg : Config) (u : Update) (io : Io) (rest : List (Update × Io))
    (next : Option ℕ) (handled : List (Update × Outcome)) (b : Bridge) {b' : Bridge} {o : Outcome}
    (h : handleUpdate lower cfg u io b = (b', o)) :
    (o.settled = true ∧ pollLoop lower cfg ((u, io) :: rest) next handled b =
      pollLoop lower cfg rest (advance u next) (handled ++ [(u, o)]) b') ∨
    (∃ f, o = .failed f ∧ f.escapes = true ∧
      pollLoop lower cfg ((u, io) :: rest) next handled b = (b', .error f)) ∨
    (o.settled = false ∧ pollLoop lower cfg ((u, io) :: rest) next handled b =
      (b', .ok ⟨next, handled ++ [(u, o)]⟩)) := by
  rw [pollLoop, h]
  cases o with
  | ignored => exact Or.inl ⟨rfl, rfl⟩
  | success => exact Or.inl ⟨rfl, rfl⟩
  | failed f =>
      dsimp only
      by_cases hescapes : f.escapes = true
      · rw [if_pos hescapes]
        exact Or.inr (Or.inl ⟨f, rfl, hescapes, rfl⟩)
      · by_cases hretry : f.retryable = true
        · rw [if_neg hescapes, if_pos hretry]
          exact Or.inr (Or.inr ⟨by simp [Outcome.settled, hretry], rfl⟩)
        · rw [if_neg hescapes, if_neg hretry]
          exact Or.inl ⟨by simp [Outcome.settled, hescapes, hretry], rfl⟩

/-- What is delivered is in increasing order and not below the offset. -/
structure Delivered (offset : Option ℕ) (updates : List Update) : Prop where
  increasing : (updates.filterMap Update.updateId).Pairwise (· < ·)
  due : ∀ m, offset = some m → ∀ i ∈ updates.filterMap Update.updateId, m ≤ i

instance (offset : Option ℕ) (updates : List Update) : Decidable (Delivered offset updates) :=
  decidable_of_iff ((updates.filterMap Update.updateId).Pairwise (· < ·) ∧
      ∀ i ∈ updates.filterMap Update.updateId, offset.all (· ≤ i) = true) (by
    constructor
    · intro h
      refine ⟨h.1, ?_⟩
      intro m hm i hi
      simpa [hm] using h.2 i hi
    · intro h
      refine ⟨h.increasing, ?_⟩
      intro i hi
      cases offset with
      | none => rfl
      | some m => simpa using h.due m rfl i hi)

theorem Delivered.tail {next : Option ℕ} {u : Update} {rest : List Update}
    (h : Delivered next (u :: rest)) : Delivered (advance u next) rest := by
  cases hid : u.updateId with
  | none =>
      have hmap : (u :: rest).filterMap Update.updateId = rest.filterMap Update.updateId := by simp [hid]
      have hincreasing := h.increasing
      have hdue := h.due
      rw [hmap] at hincreasing hdue
      refine ⟨hincreasing, ?_⟩
      simpa [advance, hid] using hdue
  | some i =>
      have hmap : (u :: rest).filterMap Update.updateId = i :: rest.filterMap Update.updateId := by simp [hid]
      have hincreasing := h.increasing
      rw [hmap, List.pairwise_cons] at hincreasing
      refine ⟨hincreasing.2, ?_⟩
      intro m hm j hj
      have hm' : i + 1 = m := by simpa [advance, hid] using hm
      have hlt := hincreasing.1 j hj
      omega

/-- A poll that moved past an update has settled it. -/
def Acknowledges (updates : List Update) (poll : Poll) : Prop :=
  ∀ u ∈ updates, ∀ i n, u.updateId = some i → poll.nextOffset = some n → i < n →
    ∃ o, (u, o) ∈ poll.handled ∧ o.settled = true

theorem pollLoop_acknowledges {batch : List (Update × Io)} {next : Option ℕ}
    {handled : List (Update × Outcome)} {b b' : Bridge} {poll : Poll}
    (h : pollLoop lower cfg batch next handled b = (b', .ok poll))
    (hdelivered : Delivered next (batch.map Prod.fst)) :
    handled ⊆ poll.handled ∧ Acknowledges (batch.map Prod.fst) poll := by
  induction batch generalizing next handled b with
  | nil =>
      simp only [pollLoop, Prod.mk.injEq, Except.ok.injEq] at h
      rw [← h.2]
      exact ⟨List.Subset.refl _, by nofun⟩
  | cons x rest ih =>
      obtain ⟨u, io⟩ := x
      obtain ⟨hsettled, heq⟩ | ⟨f, -, -, heq⟩ | ⟨-, heq⟩ := pollLoop_cases lower cfg u io rest next handled b rfl
      · rw [heq] at h
        obtain ⟨hsub, hrest⟩ := ih h hdelivered.tail
        refine ⟨fun z hz => hsub (List.mem_append_left _ hz), ?_⟩
        intro v hv i n hi hn hlt
        rw [List.map_cons, List.mem_cons] at hv
        obtain rfl | hv := hv
        · exact ⟨_, hsub (by simp), hsettled⟩
        · exact hrest v hv i n hi hn hlt
      · rw [heq] at h
        cases h
      · rw [heq] at h
        simp only [Prod.mk.injEq, Except.ok.injEq] at h
        rw [← h.2]
        refine ⟨List.subset_append_left _ _, ?_⟩
        -- The offset stays, and nothing that is delivered lies below it.
        intro v hv i n hi hn hlt
        have hle := hdelivered.due n hn i (List.mem_filterMap.mpr ⟨v, hv, hi⟩)
        omega

/-- `b` is not below `a`, as offsets. -/
def NotBelow (a b : Option ℕ) : Prop := ∀ m, a = some m → ∃ n, b = some n ∧ m ≤ n

theorem NotBelow.refl (a : Option ℕ) : NotBelow a a := fun m hm => ⟨m, hm, le_refl m⟩

theorem NotBelow.trans {a b c : Option ℕ} (hab : NotBelow a b) (hbc : NotBelow b c) : NotBelow a c := by
  intro m hm
  obtain ⟨n, hn, hmn⟩ := hab m hm
  obtain ⟨k, hk, hnk⟩ := hbc n hn
  exact ⟨k, hk, hmn.trans hnk⟩

theorem notBelow_advance {next : Option ℕ} {u : Update} {rest : List Update}
    (h : Delivered next (u :: rest)) : NotBelow next (advance u next) := by
  intro m hm
  cases hid : u.updateId with
  | none => exact ⟨m, by simp [advance, hid, hm], le_refl m⟩
  | some i =>
      refine ⟨i + 1, by simp [advance, hid], ?_⟩
      have hle := h.due m hm i (by simp [hid])
      omega

theorem pollLoop_notBelow {batch : List (Update × Io)} {next : Option ℕ}
    {handled : List (Update × Outcome)} {b b' : Bridge} {poll : Poll}
    (h : pollLoop lower cfg batch next handled b = (b', .ok poll))
    (hdelivered : Delivered next (batch.map Prod.fst)) : NotBelow next poll.nextOffset := by
  induction batch generalizing next handled b with
  | nil =>
      simp only [pollLoop, Prod.mk.injEq, Except.ok.injEq] at h
      rw [← h.2]
      exact NotBelow.refl next
  | cons x rest ih =>
      obtain ⟨u, io⟩ := x
      obtain ⟨-, heq⟩ | ⟨f, -, -, heq⟩ | ⟨-, heq⟩ := pollLoop_cases lower cfg u io rest next handled b rfl
      · rw [heq] at h
        exact (notBelow_advance hdelivered).trans (ih h hdelivered.tail)
      · rw [heq] at h
        cases h
      · rw [heq] at h
        simp only [Prod.mk.injEq, Except.ok.injEq] at h
        rw [← h.2]
        exact NotBelow.refl next

/-- A poll that returned has run its loop. -/
theorem pollOnce_ok {offset : Option ℕ} {fetch : Fetch} {b b' : Bridge} {poll : Poll}
    (h : pollOnce lower cfg offset fetch b = (b', .ok poll)) :
    ∃ batch, fetch = .batch batch ∧ pollLoop lower cfg batch offset [] b = (b', .ok poll) := by
  unfold pollOnce at h
  by_cases henabled : cfg.enabled = false
  · rw [if_pos henabled] at h
    cases h
  · by_cases hmode : cfg.mode ≠ .chat
    · rw [if_neg henabled, if_pos hmode] at h
      cases h
    · rw [if_neg henabled, if_neg hmode] at h
      cases fetch with
      | failed f => cases h
      | batch batch => exact ⟨batch, rfl, h⟩

/-! ### Whole runs -/

/-- Every batch is delivered as the Bot API says. -/
def delivers (p : Poller) : Event → Bool
  | .poll (.batch batch) => decide (Delivered p.offset (batch.map Prod.fst))
  | _ => true

/-- The poller works on the offset it has saved, and saves only what a poll returned. -/
structure Tracks (file₀ : Option ℕ) (p : Poller) : Prop where
  polling : p.phase = .polling → p.offset = p.file
  saving : ∀ n, p.phase = .saving n → p.offset = p.file ∧ NotBelow p.file (some n) ∧
    ∃ poll ∈ p.polls, poll.2.nextOffset = some n
  source : ∀ n, p.file = some n → file₀ = some n ∨ ∃ poll ∈ p.polls, poll.2.nextOffset = some n
  polls : ∀ poll ∈ p.polls, Acknowledges poll.1 poll.2

theorem nextPhase_saving {offset next : Option ℕ} {n : ℕ} (h : nextPhase offset next = .saving n) :
    next = some n := by
  cases next with
  | none => cases h
  | some m =>
      rw [nextPhase] at h
      by_cases hm : some m = offset
      · rw [if_pos hm] at h
        cases h
      · rw [if_neg hm, Phase.saving.injEq] at h
        rw [h]

theorem tracks_poll {file₀ : Option ℕ} {p p' : Poller} {fetch : Fetch} (h : Tracks file₀ p)
    (hd : delivers p (.poll fetch) = true) (hstep : step lower cfg (.poll fetch) p = some p') :
    Tracks file₀ p' ∧ p'.file = p.file := by
  rw [step] at hstep
  by_cases hphase : p.phase = .polling
  · rw [if_pos hphase] at hstep
    have hoffset := h.polling hphase
    cases hpoll : pollOnce lower cfg p.offset fetch p.bridge with
    | mk bridge result =>
        rw [hpoll] at hstep
        cases result with
        | error f =>
            simp only [Option.some.injEq] at hstep
            subst hstep
            refine ⟨⟨fun _ => hoffset, ?_, h.source, h.polls⟩, rfl⟩
            intro n hn
            dsimp only at hn
            split at hn <;> cases hn
        | ok poll =>
            simp only [Option.some.injEq] at hstep
            subst hstep
            obtain ⟨batch, rfl, hloop⟩ := pollOnce_ok hpoll
            have hdelivered : Delivered p.offset (batch.map Prod.fst) := of_decide_eq_true hd
            refine ⟨⟨fun _ => hoffset, ?_, ?_, ?_⟩, rfl⟩
            · intro n hn
              have hnext := nextPhase_saving hn
              refine ⟨hoffset, ?_, _, List.mem_cons_self, hnext⟩
              rw [← hoffset, ← hnext]
              exact pollLoop_notBelow hloop hdelivered
            · intro n hn
              exact (h.source n hn).imp_right fun ⟨q, hq, hqn⟩ => ⟨q, List.mem_cons_of_mem _ hq, hqn⟩
            · intro q hq
              rw [List.mem_cons] at hq
              obtain rfl | hq := hq
              · exact (pollLoop_acknowledges hloop hdelivered).2
              · exact h.polls q hq
  · rw [if_neg hphase] at hstep
    cases hstep

/-- **A step keeps the offsets in order**, and the saved one does not go back. -/
theorem tracks_step {file₀ : Option ℕ} {p p' : Poller} {e : Event} (h : Tracks file₀ p)
    (hd : delivers p e = true) (hstep : step lower cfg e p = some p') :
    Tracks file₀ p' ∧ NotBelow p.file p'.file := by
  cases e with
  | poll fetch =>
      obtain ⟨htracks, hfile⟩ := tracks_poll h hd hstep
      rw [hfile]
      exact ⟨htracks, NotBelow.refl _⟩
  | save ok =>
      rw [step] at hstep
      cases hphase : p.phase with
      | polling =>
          rw [hphase] at hstep
          cases hstep
      | stopped =>
          rw [hphase] at hstep
          cases hstep
      | saving n =>
          rw [hphase] at hstep
          obtain ⟨hoffset, hle, hpoll⟩ := h.saving n hphase
          cases ok with
          | true =>
              simp only [if_true, Option.some.injEq] at hstep
              subst hstep
              refine ⟨⟨fun _ => rfl, by nofun, ?_, h.polls⟩, hle⟩
              intro m hm
              simp only [Option.some.injEq] at hm
              rw [← hm]
              exact Or.inr hpoll
          | false =>
              simp only [Bool.false_eq_true, if_false, Option.some.injEq] at hstep
              subst hstep
              exact ⟨h, NotBelow.refl _⟩
  | leave =>
      rw [step] at hstep
      by_cases hphase : p.phase = .polling
      · rw [if_pos hphase, Option.some.injEq] at hstep
        subst hstep
        exact ⟨⟨by nofun, by nofun, h.source, h.polls⟩, NotBelow.refl _⟩
      · rw [if_neg hphase] at hstep
        cases hstep
  | crash =>
      rw [step, Option.some.injEq] at hstep
      subst hstep
      exact ⟨⟨by nofun, by nofun, h.source, h.polls⟩, NotBelow.refl _⟩
  | start =>
      rw [step] at hstep
      by_cases hphase : p.phase = .stopped
      · rw [if_pos hphase] at hstep
        by_cases hcfg : cfg.enabled = false ∨ cfg.mode ≠ .chat
        · rw [if_pos hcfg, Option.some.injEq] at hstep
          subst hstep
          exact ⟨h, NotBelow.refl _⟩
        · rw [if_neg hcfg, Option.some.injEq] at hstep
          subst hstep
          exact ⟨⟨fun _ => rfl, by nofun, h.source, h.polls⟩, NotBelow.refl _⟩
      · rw [if_neg hphase] at hstep
        cases hstep

theorem tracks_new (file : Option ℕ) (sessions : Sessions) : Tracks file (Poller.new file sessions) :=
  ⟨by nofun, by nofun, fun _ hn => Or.inl hn, by nofun⟩

/-- **No update is lost by acknowledgement.**  A poll returns an offset past an update only if
it has settled it; and along every run, with saves that fail, crashes and restarts, the saved
offset does not go back and is one that such a poll returned. -/
theorem offset_acknowledges_settled (lower : Text → Text) (cfg : Config) :
    (∀ (offset : Option ℕ) (batch : List (Update × Io)) (b b' : Bridge) (poll : Poll),
      Delivered offset (batch.map Prod.fst) →
      pollOnce lower cfg offset (.batch batch) b = (b', .ok poll) →
      Acknowledges (batch.map Prod.fst) poll) ∧
    ∀ (file : Option ℕ) (sessions : Sessions) (p p' : Poller),
      Runs.Later (step lower cfg) delivers (Poller.new file sessions) p →
      Runs.Later (step lower cfg) delivers p p' →
      NotBelow p.file p'.file ∧
        ∀ n, p.file = some n → file = some n ∨
          ∃ poll ∈ p.polls, poll.2.nextOffset = some n ∧ Acknowledges poll.1 poll.2 := by
  refine ⟨?_, ?_⟩
  · intro offset batch b b' poll hdelivered hpoll
    obtain ⟨batch', hfetch, hloop⟩ := pollOnce_ok hpoll
    rw [Fetch.batch.injEq] at hfetch
    rw [← hfetch] at hloop
    exact (pollLoop_acknowledges hloop hdelivered).2
  · intro file sessions p p' hp hp'
    have htracks : Tracks file p := hp.invariant (tracks_new file sessions)
      fun hs hd hstep => (tracks_step hs hd hstep).1
    have hlater : Tracks file p' ∧ NotBelow p.file p'.file :=
      hp'.invariant (I := fun q => Tracks file q ∧ NotBelow p.file q.file) ⟨htracks, NotBelow.refl _⟩
        fun hs hd hstep =>
          ⟨(tracks_step hs.1 hd hstep).1, hs.2.trans (tracks_step hs.1 hd hstep).2⟩
    refine ⟨hlater.2, ?_⟩
    intro n hn
    refine (htracks.source n hn).imp_right ?_
    intro ⟨poll, hpoll, hnext⟩
    exact ⟨poll, hpoll, hnext, htracks.polls poll hpoll⟩

/-- Everything outside works. -/
def Io.fine (now : ℚ) : Io := ⟨true, now, .ok, true, .ok, .ok (), .ok (), .ok ()⟩

/-- A text in the private chat 7. -/
def privateText (id : ℕ) (text : String) : Update :=
  ⟨some id, some ⟨some ['7'], some "private".toList, some text.toList, none, none⟩⟩

/-- Chat 7 is allowed, and the master switch is on. -/
def hybridConfig : Config := ⟨true, .chat, [['7']], 4096, true, 120⟩

/-- A sticker, a command and a question whose query times out, then two tries to save. -/
def timeoutRun : List Event :=
  [.start,
    .poll (.batch [(⟨some 10, none⟩, .fine 1), (privateText 11 "/help", .fine 1),
      (privateText 12 "why", { Io.fine 1 with query := .error (.runtime (some true) false) })]),
    .save false, .save true]

theorem offset_acknowledges_settled_timeout :
    ∃ p, Runs.run (step id hybridConfig) delivers timeoutRun (Poller.new none fun _ => .missing) = some p ∧
      p.file = some 12 ∧ NotBelow p.file p.file ∧
      ∃ poll ∈ p.polls, poll.2.nextOffset = some 12 ∧ Acknowledges poll.1 poll.2 := by
  have hseen : (Runs.run (step id hybridConfig) delivers timeoutRun (Poller.new none fun _ => .missing)).any
      (fun p => p.file = some 12) = true := by decide +kernel
  obtain ⟨p, hrun, hfile⟩ := (Option.any_eq_true _ _).mp hseen
  rw [decide_eq_true_eq] at hfile
  have hp := (offset_acknowledges_settled id hybridConfig).2 none (fun _ => .missing) p p (.of_run hrun) .refl
  refine ⟨p, hrun, hfile, hp.1, ?_⟩
  obtain hnone | hpoll := hp.2 12 hfile
  · cases hnone
  · exact hpoll

end CyClaw.Telegram

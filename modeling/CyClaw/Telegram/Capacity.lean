/-
The limiter of the Telegram channel keeps its promises.

What a call may do to the queue and to the held slots of a key is said once for each of the
three ways a limiter changes: `pruned`, `charge` and `hold` keep `Fits`, each under the room
that the caller has checked.  A call then moves slots between the queue and the reservations,
and `Sound` adds that the two sides of the books agree.
-/
import CyClaw.Telegram.Limiter

namespace CyClaw.Telegram

open SlidingWindow

variable {repr : Text → Text} {P : LimiterPolicy} {L L' : SlidingWindowLimiter} {key key' : Text} {now now' : ℚ}

/-! ### The limiter by itself -/

/-- Events and held slots fit the capacity, and the queues hold what windows count. -/
structure SlidingWindowLimiter.Fits (P : LimiterPolicy) (now : ℚ) (L : SlidingWindowLimiter) : Prop where
  room : ∀ key, (L.events key).length + L.reserved key ≤ P.maxOps
  follows : ∀ key, Follows P.window now (L.charged key) (L.events key)
  capped : ∀ key, Capped P.window P.maxOps (L.charged key)

theorem SlidingWindowLimiter.Fits.later (h : L.Fits P now) (hle : now ≤ now') : L.Fits P now' :=
  ⟨h.room, fun key => (h.follows key).later hle, h.capped⟩

@[simp] theorem pruned_reserved : (L.pruned P key now).reserved = L.reserved := rfl

@[simp] theorem pruned_charged : (L.pruned P key now).charged = L.charged := rfl

@[simp] theorem charge_reserved {n : ℕ} : (L.charge key now n).reserved = L.reserved := rfl

@[simp] theorem hold_events {n : ℕ} : (L.hold key n).events = L.events := rfl

@[simp] theorem pruned_events_self : (L.pruned P key now).events key = prune P.window (L.events key) now := by
  simp [SlidingWindowLimiter.pruned]

@[simp] theorem hold_reserved_self {n : ℕ} : (L.hold key n).reserved key = n := by
  simp [SlidingWindowLimiter.hold]

theorem pruned_events_of_ne (h : key' ≠ key) : (L.pruned P key now).events key' = L.events key' := by
  simp [SlidingWindowLimiter.pruned, h]

theorem charge_of_ne (h : key' ≠ key) {n : ℕ} :
    (L.charge key now n).events key' = L.events key' ∧ (L.charge key now n).charged key' = L.charged key' := by
  simp [SlidingWindowLimiter.charge, h]

theorem SlidingWindowLimiter.Fits.pruned (h : L.Fits P now) (key : Text) : (L.pruned P key now).Fits P now := by
  refine ⟨?_, ?_, h.capped⟩
  · intro k
    by_cases hk : k = key
    · subst hk
      have hroom := h.room k
      have hlen := length_prune P.window (L.events k) now
      simp only [pruned_events_self, pruned_reserved]
      omega
    · rw [pruned_events_of_ne hk]
      exact h.room k
  · intro k
    by_cases hk : k = key
    · subst hk
      rw [pruned_events_self, pruned_charged]
      exact (h.follows k).prune
    · rw [pruned_events_of_ne hk]
      exact h.follows k

theorem SlidingWindowLimiter.Fits.charge (h : L.Fits P now) {n : ℕ}
    (hroom : (L.events key).length + L.reserved key + n ≤ P.maxOps) : (L.charge key now n).Fits P now := by
  have hself : (L.charge key now n).events key = L.events key ++ List.replicate n now ∧
      (L.charge key now n).charged key = L.charged key ++ List.replicate n now := by
    simp [SlidingWindowLimiter.charge]
  refine ⟨?_, ?_, ?_⟩
  · intro k
    by_cases hk : k = key
    · subst hk
      rw [hself.1, charge_reserved, List.length_append, List.length_replicate]
      omega
    · rw [(charge_of_ne hk).1, charge_reserved]
      exact h.room k
  · intro k
    by_cases hk : k = key
    · subst hk
      rw [hself.1, hself.2]
      exact (h.follows k).append n
    · rw [(charge_of_ne hk).1, (charge_of_ne hk).2]
      exact h.follows k
  · intro k
    by_cases hk : k = key
    · subst hk
      rw [hself.2]
      exact (h.capped k).append (h.follows k) (by omega)
    · rw [(charge_of_ne hk).2]
      exact h.capped k

theorem SlidingWindowLimiter.Fits.hold (h : L.Fits P now) {n : ℕ}
    (hroom : (L.events key).length + n ≤ P.maxOps) : (L.hold key n).Fits P now := by
  refine ⟨?_, h.follows, h.capped⟩
  intro k
  by_cases hk : k = key
  · subst hk
    simpa using hroom
  · have hother : (L.hold key n).reserved k = L.reserved k := by simp [SlidingWindowLimiter.hold, hk]
    rw [hother]
    exact h.room k

/-! ### Capacity -/

theorem ensureCapacity_none {cost : ℕ} :
    ensureCapacity repr P L key cost now = none ↔
      cost ≤ P.maxOps ∧ (L.events key).length + L.reserved key + cost ≤ P.maxOps := by
  unfold ensureCapacity
  by_cases hcost : P.maxOps < cost
  · rw [if_pos hcost]
    exact ⟨fun h => by simp at h, fun h => by omega⟩
  · rw [if_neg hcost]
    by_cases hfits : (L.events key).length + L.reserved key + cost ≤ P.maxOps
    · rw [if_pos hfits]
      exact ⟨fun _ => ⟨by omega, hfits⟩, fun _ => rfl⟩
    · rw [if_neg hfits]
      exact ⟨fun h => by simp at h, fun h => absurd h.2 hfits⟩

/-- A deadline is that of the last event the call is short of. -/
theorem retryAfter_of_refused {cost : ℕ} {refusal : Refusal} {wait : ℚ}
    (h : ensureCapacity repr P L key cost now = some refusal) (hwait : refusal.retryAfter = some wait) :
    cost ≤ P.maxOps ∧ ∃ i t, (L.events key).length + L.reserved key + cost = P.maxOps + (i + 1) ∧
      (L.events key)[i]? = some t ∧ wait = min P.window (max 0 (t + P.window - now)) := by
  unfold ensureCapacity at h
  by_cases hcost : P.maxOps < cost
  · rw [if_pos hcost, Option.some.injEq] at h
    rw [← h] at hwait
    simp at hwait
  · rw [if_neg hcost] at h
    by_cases hfits : (L.events key).length + L.reserved key + cost ≤ P.maxOps
    · rw [if_pos hfits] at h
      simp at h
    · rw [if_neg hfits, Option.some.injEq] at h
      rw [← h] at hwait
      simp only at hwait
      split at hwait
      · obtain ⟨t, ht, htwait⟩ := Option.map_eq_some_iff.mp hwait
        exact ⟨by omega, _, t, by omega, ht, htwait.symm⟩
      · simp at hwait

/-- **By the deadline there is room.** -/
theorem room_at_deadline {cost : ℕ} {refusal : Refusal} {wait later : ℚ} (hL : L.Fits P now)
    (h : ensureCapacity repr P L key cost now = some refusal) (hwait : refusal.retryAfter = some wait)
    (hlater : now + wait ≤ later) :
    now ≤ later ∧ ensureCapacity repr P (L.pruned P key later) key cost later = none := by
  obtain ⟨hcost, i, t, hneeded, ht, rfl⟩ := retryAfter_of_refused h hwait
  have hwindow : (0 : ℚ) ≤ P.window := by simp [LimiterPolicy.window]
  have hpast : t ≤ now := (hL.follows key).queue_past t (List.mem_of_getElem? ht)
  -- The event is in the past, so the window does not cut the deadline short.
  have hdue : t + P.window - now ≤ min P.window (max 0 (t + P.window - now)) :=
    le_min (by linarith) (le_max_right _ _)
  have hnonneg : 0 ≤ min P.window (max 0 (t + P.window - now)) := le_min hwindow (le_max_left _ _)
  have hgone : (prune P.window (L.events key) later).length + (i + 1) ≤ (L.events key).length :=
    length_prune_le (hL.follows key).queue_ordered ht (by linarith)
  refine ⟨by linarith, ensureCapacity_none.mpr ⟨hcost, ?_⟩⟩
  simp only [pruned_events_self, pruned_reserved]
  omega

/-! ### The calls of the limiter -/

theorem check_fits (repr : Text → Text) (hL : L.Fits P now) (key : Text) (cost : ℤ) :
    (check repr P key cost now L).2.Fits P now ∧ (check repr P key cost now L).2.reserved = L.reserved := by
  unfold check
  split
  · exact ⟨hL, rfl⟩
  · have hpruned := hL.pruned key
    simp only
    split
    · exact ⟨hpruned, rfl⟩
    · rename_i hnone
      obtain ⟨-, hroom⟩ := ensureCapacity_none.mp hnone
      exact ⟨hpruned.charge hroom, rfl⟩

/-- What `reserve_up_to` leaves: no slot more is held, or those it grants. -/
theorem reserveUpTo_fits (repr : Text → Text) (hL : L.Fits P now) (key : Text) (minimum maximum : ℤ) :
    (reserveUpTo repr P key minimum maximum now L).2.Fits P now ∧
      (match (reserveUpTo repr P key minimum maximum now L).1 with
        | .error _ => (reserveUpTo repr P key minimum maximum now L).2.reserved = L.reserved
        | .ok slots => (reserveUpTo repr P key minimum maximum now L).2.reserved =
            Function.update L.reserved key (L.reserved key + slots)) := by
  unfold reserveUpTo
  split
  · exact ⟨hL, rfl⟩
  · exact ⟨hL, rfl⟩
  · split
    · exact ⟨hL, rfl⟩
    · have hpruned := hL.pruned key
      simp only
      split
      · exact ⟨hpruned, rfl⟩
      · refine ⟨hpruned.hold ?_, rfl⟩
        have hroom := hpruned.room key
        simp only [pruned_events_self, pruned_reserved] at hroom ⊢
        omega

/-- Taking of a reservation that is held: the slot leaves the held ones before its event is
appended. -/
theorem consume_eq (P : LimiterPolicy) (now : ℚ) {r : RateLimitReservation} (hopen : 0 < r.remaining)
    (hr : r.remaining ≤ L.reserved r.key) :
    r.consume P now L = (.done, { r with remaining := r.remaining - 1 },
      ((L.hold r.key (L.reserved r.key - 1)).pruned P r.key now).charge r.key now 1) := by
  rw [RateLimitReservation.consume, if_neg hopen.ne', consumeReserved, if_neg (by omega)]

theorem close_eq {r : RateLimitReservation} (hr : r.remaining ≤ L.reserved r.key) :
    r.close L = (.done, { r with remaining := 0 }, L.hold r.key (L.reserved r.key - r.remaining)) := by
  unfold RateLimitReservation.close
  by_cases hzero : r.remaining = 0
  · have hhold : L.hold r.key (L.reserved r.key - r.remaining) = L := by
      rw [hzero, Nat.sub_zero, SlidingWindowLimiter.hold, Function.update_eq_self]
    rw [if_pos hzero, hhold, ← hzero]
  · rw [if_neg hzero, releaseReserved, if_neg (by omega)]

theorem consume_fits (hL : L.Fits P now) {r : RateLimitReservation} (hr : r.remaining ≤ L.reserved r.key) :
    (r.consume P now L).2.2.Fits P now ∧
      (r.remaining = 0 ∧ (r.consume P now L).2 = (r, L) ∨
        0 < r.remaining ∧ (r.consume P now L).1 = .done ∧
          (r.consume P now L).2.1 = { r with remaining := r.remaining - 1 } ∧
          (r.consume P now L).2.2.reserved = Function.update L.reserved r.key (L.reserved r.key - 1)) := by
  rcases Nat.eq_zero_or_pos r.remaining with hzero | hopen
  · rw [RateLimitReservation.consume, if_pos hzero]
    exact ⟨hL, Or.inl ⟨hzero, rfl⟩⟩
  · rw [consume_eq P now hopen hr]
    refine ⟨?_, Or.inr ⟨hopen, rfl, rfl, rfl⟩⟩
    have hroom := hL.room r.key
    have hheld : (L.hold r.key (L.reserved r.key - 1)).Fits P now := hL.hold (by omega)
    refine (hheld.pruned r.key).charge ?_
    have hlen := length_prune P.window (L.events r.key) now
    simp only [pruned_events_self, pruned_reserved, hold_events, hold_reserved_self]
    omega

theorem close_fits (hL : L.Fits P now) {r : RateLimitReservation} (hr : r.remaining ≤ L.reserved r.key) :
    (r.close L).2.2.Fits P now ∧ (r.close L).1 = .done ∧ (r.close L).2.1 = { r with remaining := 0 } ∧
      (r.close L).2.2.reserved = Function.update L.reserved r.key (L.reserved r.key - r.remaining) := by
  rw [close_eq hr]
  have hroom := hL.room r.key
  exact ⟨hL.hold (by omega), rfl, rfl, rfl⟩

/-! ### The books -/

variable {rs : List RateLimitReservation} {r r' : RateLimitReservation} {i : ℕ}

theorem heldFor_append (key : Text) (rs : List RateLimitReservation) (r : RateLimitReservation) :
    heldFor key (rs ++ [r]) = heldFor key rs + r.share key := by
  simp [heldFor]

theorem heldFor_set (h : rs[i]? = some r) (key : Text) (r' : RateLimitReservation) :
    heldFor key (rs.set i r') + r.share key = heldFor key rs + r'.share key := by
  induction rs generalizing i with
  | nil => simp at h
  | cons a rs ih =>
      cases i with
      | zero =>
          simp only [List.getElem?_cons_zero, Option.some.injEq] at h
          subst h
          simp only [List.set_cons_zero, heldFor, List.map_cons, List.sum_cons]
          omega
      | succ i =>
          have hrec := ih (i := i) (by simpa using h)
          simp only [List.set_cons_succ, heldFor, List.map_cons, List.sum_cons] at hrec ⊢
          omega

theorem share_le_heldFor (h : rs[i]? = some r) : r.remaining ≤ heldFor r.key rs := by
  have hset := heldFor_set h r.key ⟨r.key, 0⟩
  simp only [RateLimitReservation.share, if_pos] at hset
  omega

/-- **The invariant.**  What the limiter holds is what its reservations have left. -/
structure LimiterWorld.Sound (P : LimiterPolicy) (w : LimiterWorld) : Prop where
  fits : w.limiter.Fits P w.clock
  held : ∀ key, w.limiter.reserved key = heldFor key w.reservations

theorem LimiterWorld.Sound.initial (P : LimiterPolicy) : LimiterWorld.initial.Sound P := by
  refine ⟨⟨?_, fun _ => Follows.nil _ _, ?_⟩, fun _ => rfl⟩
  · intro key
    simp [LimiterWorld.initial, SlidingWindowLimiter.initial]
  · intro key p hp
    simp [LimiterWorld.initial, SlidingWindowLimiter.initial]

/-- A reservation that changes takes its difference from the held slots. -/
theorem held_set {reserved : Text → ℕ} {n : ℕ} (hheld : ∀ key, reserved key = heldFor key rs)
    (hi : rs[i]? = some r) (hn : n ≤ r.remaining) (key : Text) :
    Function.update reserved r.key (reserved r.key - (r.remaining - n)) key =
      heldFor key (rs.set i { r with remaining := n }) := by
  have hset := heldFor_set hi key { r with remaining := n }
  have hle := share_le_heldFor hi
  by_cases hk : key = r.key
  · subst hk
    simp only [RateLimitReservation.share, if_pos] at hset
    rw [Function.update_self, hheld]
    omega
  · simp only [RateLimitReservation.share, if_neg (Ne.symm hk)] at hset
    rw [Function.update_of_ne hk, hheld]
    omega

variable {w w' : LimiterWorld}

/-- **Every call keeps the invariant.** -/
theorem LimiterWorld.Sound.call (hw : w.Sound P) {c : LimiterCall} {result : LimiterResult}
    (hclock : w.clock ≤ now) (h : limiterCall repr P c now w = some (result, w')) : w'.Sound P := by
  have hfits := hw.fits.later hclock
  cases c with
  | check key cost =>
      simp only [limiterCall, Option.some.injEq, Prod.mk.injEq] at h
      obtain ⟨-, rfl⟩ := h
      obtain ⟨hfits', hreserved⟩ := check_fits repr hfits key cost
      refine ⟨hfits', ?_⟩
      intro k
      simpa only [hreserved] using hw.held k
  | reserveUpTo key minimum maximum =>
      obtain ⟨hfits', hreserved⟩ := reserveUpTo_fits repr hfits key minimum maximum
      simp only [limiterCall] at h
      split at h
      · rename_i result' L heq
        rw [heq] at hfits' hreserved
        simp only [Option.some.injEq, Prod.mk.injEq] at h hreserved
        obtain ⟨-, rfl⟩ := h
        refine ⟨hfits', ?_⟩
        intro k
        simpa only [hreserved] using hw.held k
      · rename_i slots L heq
        rw [heq] at hfits' hreserved
        simp only [Option.some.injEq, Prod.mk.injEq] at h hreserved
        obtain ⟨-, rfl⟩ := h
        refine ⟨hfits', ?_⟩
        intro k
        show L.reserved k = _
        rw [hreserved, heldFor_append, ← hw.held k, RateLimitReservation.share]
        by_cases hk : k = key
        · simp [hk]
        · simp [hk, Ne.symm hk]
  | consume i =>
      obtain ⟨r, hi, heq⟩ := Option.map_eq_some_iff.mp h
      simp only [Prod.mk.injEq] at heq
      obtain ⟨-, rfl⟩ := heq
      have hle : r.remaining ≤ w.limiter.reserved r.key := by
        rw [hw.held]
        exact share_le_heldFor hi
      obtain ⟨hfits', ⟨-, hsame⟩ | ⟨hpos, -, hr, hreserved⟩⟩ := consume_fits hfits hle
      · refine ⟨hfits', ?_⟩
        intro k
        obtain ⟨hlt, rfl⟩ := List.getElem?_eq_some_iff.mp hi
        simp only [hsame, List.set_getElem_self]
        exact hw.held k
      · refine ⟨hfits', ?_⟩
        intro k
        simp only [hr, hreserved]
        have hset := held_set hw.held hi (n := r.remaining - 1) (by omega) k
        rwa [show r.remaining - (r.remaining - 1) = 1 by omega] at hset
  | close i =>
      obtain ⟨r, hi, heq⟩ := Option.map_eq_some_iff.mp h
      simp only [Prod.mk.injEq] at heq
      obtain ⟨-, rfl⟩ := heq
      have hle : r.remaining ≤ w.limiter.reserved r.key := by
        rw [hw.held]
        exact share_le_heldFor hi
      obtain ⟨hfits', -, hr, hreserved⟩ := close_fits hfits hle
      refine ⟨hfits', ?_⟩
      intro k
      simp only [hr, hreserved]
      exact held_set hw.held hi (Nat.zero_le _) k

theorem sound_of_run (h : Runs.Later (limiterStep repr P) clockForward .initial w) : w.Sound P := by
  refine h.invariant (LimiterWorld.Sound.initial P) ?_
  rintro w w' ⟨c, now⟩ hw hallow hstep
  obtain ⟨⟨result, u⟩, hcall, rfl⟩ := Option.map_eq_some_iff.mp hstep
  exact hw.call (by simpa [clockForward] using hallow) hcall

/-! ### The promises -/

theorem live_le (hw : w.Sound P) (key : Text) (hclock : w.clock ≤ now) :
    live P w.limiter key now + w.limiter.reserved key ≤ P.maxOps := by
  have hlive : live P w.limiter key now ≤ (w.limiter.events key).length :=
    ((hw.fits.later hclock).follows key).countP_le fun t ht => by simpa using ht
  have hroom := hw.fits.room key
  omega

theorem opens (hw : w.Sound P) (hi : w.reservations[i]? = some r) (hpos : 0 < r.remaining) (hclock : w.clock ≤ now) :
    (∃ w', limiterCall repr P (.consume i) now w = some (.done, w')) ∧
      ∃ w', limiterCall repr P (.close i) now w = some (.done, w') := by
  have hle : r.remaining ≤ w.limiter.reserved r.key := by
    rw [hw.held]
    exact share_le_heldFor hi
  obtain ⟨-, ⟨hzero, -⟩ | ⟨-, hdone, -⟩⟩ := consume_fits (hw.fits.later hclock) hle
  · omega
  · obtain ⟨-, hclosed, -⟩ := close_fits (hw.fits.later hclock) hle
    simp only [limiterCall, hi, Option.map_some, hdone, hclosed]
    exact ⟨⟨_, rfl⟩, ⟨_, rfl⟩⟩

theorem check_retry {cost : ℤ} {refusal : Refusal} {wait later : ℚ} (hL : L.Fits P now)
    (h : (check repr P key cost now L).1 = .refused refusal) (hwait : refusal.retryAfter = some wait)
    (hlater : now + wait ≤ later) :
    (check repr P key cost later (check repr P key cost now L).2).1.admitted = true := by
  unfold check at h ⊢
  cases hcost : validateCost cost with
  | some message => simp [hcost] at h
  | none =>
      simp only [hcost] at h ⊢
      split at h
      · rename_i refusal' hfull
        simp only [LimiterResult.refused.injEq] at h
        subst h
        obtain ⟨-, hroom⟩ := room_at_deadline (hL.pruned key) hfull hwait hlater
        simp only [hroom]
        rfl
      · simp at h

theorem reserve_retry {minimum maximum : ℤ} {refusal : Refusal} {wait later : ℚ} (hL : L.Fits P now)
    (h : (reserveUpTo repr P key minimum maximum now L).1 = .error (.refused refusal))
    (hwait : refusal.retryAfter = some wait) (hlater : now + wait ≤ later) :
    ∃ slots L', reserveUpTo repr P key minimum maximum later (reserveUpTo repr P key minimum maximum now L).2 =
      (.ok slots, L') := by
  unfold reserveUpTo at h ⊢
  cases hmin : validateCost minimum with
  | some message => simp [hmin] at h
  | none =>
      cases hmax : validateCost maximum with
      | some message => simp [hmin, hmax] at h
      | none =>
          simp only [hmin, hmax] at h ⊢
          split at h
          · simp at h
          · rename_i hle
            split at h
            · rename_i refusal' hfull
              simp only [Except.error.injEq, LimiterResult.refused.injEq] at h
              subst h
              obtain ⟨-, hroom⟩ := room_at_deadline (hL.pruned key) hfull hwait hlater
              simp only [if_neg hle, hroom]
              exact ⟨_, _, rfl⟩
            · simp at h

theorem retried (hw : w.Sound P) {c : LimiterCall} {refusal : Refusal} {wait later : ℚ} (hclock : w.clock ≤ now)
    (h : limiterCall repr P c now w = some (.refused refusal, w')) (hwait : refusal.retryAfter = some wait)
    (hlater : now + wait ≤ later) :
    ∃ result w'', limiterCall repr P c later w' = some (result, w'') ∧ result.admitted = true := by
  have hfits := hw.fits.later hclock
  cases c with
  | check key cost =>
      simp only [limiterCall, Option.some.injEq, Prod.mk.injEq] at h
      obtain ⟨hrefused, rfl⟩ := h
      exact ⟨_, _, rfl, check_retry hfits hrefused hwait hlater⟩
  | reserveUpTo key minimum maximum =>
      simp only [limiterCall] at h
      split at h
      · rename_i result' L heq
        simp only [Option.some.injEq, Prod.mk.injEq] at h
        obtain ⟨rfl, rfl⟩ := h
        obtain ⟨slots, L', hslots⟩ := reserve_retry hfits (congrArg Prod.fst heq) hwait hlater
        rw [heq] at hslots
        simp only [limiterCall, hslots]
        exact ⟨_, _, rfl, rfl⟩
      · simp at h
  | consume i =>
      obtain ⟨r, hi, heq⟩ := Option.map_eq_some_iff.mp h
      simp only [Prod.mk.injEq] at heq
      -- A reservation is never refused.
      have hcontra := heq.1
      unfold RateLimitReservation.consume at hcontra
      split at hcontra
      · simp at hcontra
      · split at hcontra <;> simp at hcontra
  | close i =>
      obtain ⟨r, hi, heq⟩ := Option.map_eq_some_iff.mp h
      simp only [Prod.mk.injEq] at heq
      have hcontra := heq.1
      unfold RateLimitReservation.close at hcontra
      split at hcontra
      · simp at hcontra
      · split at hcontra <;> simp at hcontra

/-- **The limiter keeps its promises** whatever calls are made, in whatever order and whenever
the clock lets them. -/
theorem limiter_promises (repr : Text → Text) (P : LimiterPolicy)
    (h : Runs.Later (limiterStep repr P) clockForward .initial w) : w.Promises repr P := by
  have hw := sound_of_run h
  refine ⟨fun key now hclock => live_le hw key hclock, hw.held, ?_, fun i r now hi hpos hclock => opens hw hi hpos hclock,
    fun c now refusal w' wait hclock hcall hwait later hlater => retried hw hclock hcall hwait hlater⟩
  intro key start
  exact ⟨hw.fits.capped key _ (narrow_Ioc P.window start), hw.fits.capped key _ (narrow_Ico P.window start)⟩

/-- Two slots of three are held when a third one is charged; the next call is told to wait for it. -/
theorem limiter_promises_busy :
    ∃ w, Runs.Later (limiterStep id ⟨3, 60, by decide, by decide⟩) clockForward .initial w ∧
      w.Promises id ⟨3, 60, by decide, by decide⟩ ∧
      ∃ refusal w', limiterCall id ⟨3, 60, by decide, by decide⟩ (.check [] 1) 11 w = some (.refused refusal, w') ∧
        refusal.retryAfter = some 59 := by
  let P : LimiterPolicy := ⟨3, 60, by decide, by decide⟩
  obtain ⟨w, hrun, hw⟩ := (Option.any_eq_true _ _).mp (show (Runs.run (limiterStep id P) clockForward
    [(.reserveUpTo [] 1 2, 10), (.check [] 1, 10)] .initial).any (fun w =>
      (limiterCall id P (.check [] 1) 11 w).any fun r =>
        match r.1 with
        | .refused refusal => refusal.retryAfter = some 59
        | _ => false) = true by decide +kernel)
  obtain ⟨⟨result, w'⟩, hcall, hresult⟩ := (Option.any_eq_true _ _).mp hw
  refine ⟨w, Runs.Later.of_run hrun, limiter_promises id P (Runs.Later.of_run hrun), ?_⟩
  split at hresult
  · rename_i refusal heq
    simp only at heq
    subst heq
    exact ⟨refusal, w', hcall, by simpa using hresult⟩
  · simp at hresult

end CyClaw.Telegram

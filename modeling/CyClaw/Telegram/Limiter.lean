/-
The rate limiter of the Telegram channel (`telegram/ratelimit.py`).

Capacity is at one of two places: in the queue of a key, as events that still count, and
with the reservations of the key, as slots that are held for them.  `check` charges at once,
`reserve_up_to` holds slots, `consume` turns a held slot into an event and `close` gives the
rest back.  Every call is one step: the limiter works under its lock, and a reservation stays
with the caller that got it, so its own calls follow one another.

The invariant is that the count of held slots is what the reservations have left, that
events and held slots fit the capacity together, and that the queue holds every event that a
window may still count (`LimiterWorld.Sound`).  All that the limiter promises follows
(`limiter_promises`), a deadline for a retry included: by then as many events have left the
window as the call was short of.

Times are rationals.
-/
import CyClaw.Lib.Runs
import CyClaw.Lib.SlidingWindow
import CyClaw.Telegram.State
import Mathlib.Algebra.Order.Ring.Rat
import Mathlib.Tactic.Linarith

namespace CyClaw.Telegram

open SlidingWindow

/-- The knobs of a limiter.  Others raise in `__init__`. -/
structure LimiterPolicy where
  maxOps : ℕ
  windowSeconds : ℕ
  maxOps_pos : 0 < maxOps
  windowSeconds_pos : 0 < windowSeconds

/-- `self._window`. -/
def LimiterPolicy.window (P : LimiterPolicy) : ℚ := P.windowSeconds

/-- `SlidingWindowLimiter`: the queue of a key, and how many slots of it are held. -/
structure SlidingWindowLimiter where
  events : Text → List ℚ
  reserved : Text → ℕ
  /-- For the proofs: every event that was ever appended. -/
  charged : Text → List ℚ

def SlidingWindowLimiter.initial : SlidingWindowLimiter := ⟨fun _ => [], fun _ => 0, fun _ => []⟩

structure RateLimitReservation where
  key : Text
  remaining : ℕ

/-- A `TelegramRefused` with its details. -/
structure Refusal where
  message : Text
  gate : Text
  key : Text
  cost : Option ℕ
  maxOps : ℕ
  windowSeconds : ℕ
  retryAfter : Option ℚ

inductive LimiterResult where
  | done
  /-- The new reservation, and the slots it was granted. -/
  | granted (reservation slots : ℕ)
  | refused (refusal : Refusal)
  | valueError (message : Text)
  | runtimeError (message : Text)

def LimiterResult.admitted : LimiterResult → Bool
  | .done => true
  | .granted _ _ => true
  | _ => false

/-! ### The limiter -/

section Code

variable (repr : Text → Text) (P : LimiterPolicy)

/-- `_validate_cost`, with the message it raises. -/
def validateCost (cost : ℤ) : Option Text := if cost ≤ 0 then some "cost must be a positive integer".toList else none

/-- The key with its queue pruned. -/
def SlidingWindowLimiter.pruned (L : SlidingWindowLimiter) (key : Text) (now : ℚ) : SlidingWindowLimiter :=
  { L with events := Function.update L.events key (prune P.window (L.events key) now) }

/-- Append `n` events. -/
def SlidingWindowLimiter.charge (L : SlidingWindowLimiter) (key : Text) (now : ℚ) (n : ℕ) : SlidingWindowLimiter :=
  { L with
    events := Function.update L.events key (L.events key ++ List.replicate n now)
    charged := Function.update L.charged key (L.charged key ++ List.replicate n now) }

def SlidingWindowLimiter.hold (L : SlidingWindowLimiter) (key : Text) (n : ℕ) : SlidingWindowLimiter :=
  { L with reserved := Function.update L.reserved key n }

/-- `_ensure_capacity` on a pruned queue, with what it raises. -/
def ensureCapacity (L : SlidingWindowLimiter) (key : Text) (cost : ℕ) (now : ℚ) : Option Refusal :=
  if P.maxOps < cost then
    some
      { message := "operation cost exceeds rate limit capacity for ".toList ++ repr key
        gate := "rate_limit_capacity".toList
        key := key
        cost := some cost
        maxOps := P.maxOps
        windowSeconds := P.windowSeconds
        retryAfter := none }
  else if (L.events key).length + L.reserved key + cost ≤ P.maxOps then none
  else
    let needed := (L.events key).length + L.reserved key + cost - P.maxOps
    some
      { message := "rate limit exceeded for ".toList ++ repr key
        gate := "rate_limit".toList
        key := key
        cost := none
        maxOps := P.maxOps
        windowSeconds := P.windowSeconds
        retryAfter :=
          -- Held slots may come back sooner; the deadline is that of the events alone.
          if L.events key ≠ [] ∧ needed ≤ (L.events key).length then
            (L.events key)[needed - 1]?.map fun t => min P.window (max 0 (t + P.window - now))
          else none }

/-- `check`. -/
def check (key : Text) (cost : ℤ) (now : ℚ) (L : SlidingWindowLimiter) : LimiterResult × SlidingWindowLimiter :=
  match validateCost cost with
  | some message => (.valueError message, L)
  | none =>
      let L := L.pruned P key now
      match ensureCapacity repr P L key cost.toNat now with
      | some refusal => (.refused refusal, L)
      | none => (.done, L.charge key now cost.toNat)

/-- `reserve_up_to`, with the slots it grants. -/
def reserveUpTo (key : Text) (minimum maximum : ℤ) (now : ℚ) (L : SlidingWindowLimiter) :
    Except LimiterResult ℕ × SlidingWindowLimiter :=
  match validateCost minimum, validateCost maximum with
  | some message, _ => (.error (.valueError message), L)
  | none, some message => (.error (.valueError message), L)
  | none, none =>
      if maximum < minimum then (.error (.valueError "minimum reservation cannot exceed maximum".toList), L)
      else
        let L := L.pruned P key now
        match ensureCapacity repr P L key minimum.toNat now with
        | some refusal => (.error (.refused refusal), L)
        | none =>
            let available := P.maxOps - (L.events key).length - L.reserved key
            let granted := min maximum.toNat available
            (.ok granted, L.hold key (L.reserved key + granted))

/-- `_consume_reserved`, with the message it raises. -/
def consumeReserved (key : Text) (now : ℚ) (L : SlidingWindowLimiter) : Option Text × SlidingWindowLimiter :=
  if L.reserved key = 0 then (some "rate-limit reservation is not active".toList, L)
  else (none, ((L.hold key (L.reserved key - 1)).pruned P key now).charge key now 1)

/-- `_release_reserved`, with the message it raises. -/
def releaseReserved (key : Text) (cost : ℕ) (L : SlidingWindowLimiter) : Option Text × SlidingWindowLimiter :=
  if L.reserved key < cost then (some "cannot release more rate-limit capacity than held".toList, L)
  else (none, L.hold key (L.reserved key - cost))

/-- `RateLimitReservation.consume`. -/
def RateLimitReservation.consume (r : RateLimitReservation) (now : ℚ) (L : SlidingWindowLimiter) :
    LimiterResult × RateLimitReservation × SlidingWindowLimiter :=
  if r.remaining = 0 then (.runtimeError "rate-limit reservation exhausted".toList, r, L)
  else
    match consumeReserved P r.key now L with
    | (some message, L) => (.runtimeError message, r, L)
    | (none, L) => (.done, { r with remaining := r.remaining - 1 }, L)

/-- `RateLimitReservation.close`. -/
def RateLimitReservation.close (r : RateLimitReservation) (L : SlidingWindowLimiter) :
    LimiterResult × RateLimitReservation × SlidingWindowLimiter :=
  if r.remaining = 0 then (.done, r, L)
  else
    match releaseReserved r.key r.remaining L with
    | (some message, L) => (.runtimeError message, r, L)
    | (none, L) => (.done, { r with remaining := 0 }, L)

/-! ### Calls -/

inductive LimiterCall where
  | check (key : Text) (cost : ℤ)
  | reserveUpTo (key : Text) (minimum maximum : ℤ)
  | consume (reservation : ℕ)
  | close (reservation : ℕ)

/-- A limiter, the reservations it has handed out, and the last reading of the clock. -/
structure LimiterWorld where
  limiter : SlidingWindowLimiter
  reservations : List RateLimitReservation
  clock : ℚ

def LimiterWorld.initial : LimiterWorld := ⟨.initial, [], 0⟩

/-- A call at the time the clock reads, `none` where there is no such reservation. -/
def limiterCall (c : LimiterCall) (now : ℚ) (w : LimiterWorld) : Option (LimiterResult × LimiterWorld) :=
  match c with
  | .check key cost =>
      let (result, L) := check repr P key cost now w.limiter
      some (result, { w with limiter := L, clock := now })
  | .reserveUpTo key minimum maximum =>
      match reserveUpTo repr P key minimum maximum now w.limiter with
      | (.error result, L) => some (result, { w with limiter := L, clock := now })
      | (.ok slots, L) =>
          some (.granted w.reservations.length slots,
            { limiter := L, reservations := w.reservations ++ [⟨key, slots⟩], clock := now })
  | .consume i =>
      w.reservations[i]?.map fun r =>
        let (result, r, L) := r.consume P now w.limiter
        (result, { limiter := L, reservations := w.reservations.set i r, clock := now })
  | .close i =>
      w.reservations[i]?.map fun r =>
        let (result, r, L) := r.close w.limiter
        (result, { limiter := L, reservations := w.reservations.set i r, clock := now })

def limiterStep (e : LimiterCall × ℚ) (w : LimiterWorld) : Option LimiterWorld :=
  (limiterCall repr P e.1 e.2 w).map Prod.snd

/-- The clock does not go back. -/
def clockForward (w : LimiterWorld) (e : LimiterCall × ℚ) : Bool := w.clock ≤ e.2

end Code

/-! ### What a limiter promises -/

/-- What a reservation has left of a key. -/
def RateLimitReservation.share (key : Text) (r : RateLimitReservation) : ℕ := if r.key = key then r.remaining else 0

def heldFor (key : Text) (rs : List RateLimitReservation) : ℕ := (rs.map (·.share key)).sum

/-- The events of a key that are live at a moment. -/
def live (P : LimiterPolicy) (L : SlidingWindowLimiter) (key : Text) (now : ℚ) : ℕ :=
  (L.charged key).countP fun t => now - P.window < t

structure LimiterWorld.Promises (repr : Text → Text) (P : LimiterPolicy) (w : LimiterWorld) : Prop where
  /-- Live events and held slots fit the capacity together, now and for as long as nothing happens. -/
  fits : ∀ key now, w.clock ≤ now → live P w.limiter key now + w.limiter.reserved key ≤ P.maxOps
  held : ∀ key, w.limiter.reserved key = heldFor key w.reservations
  windows : ∀ key start,
    ((w.limiter.charged key).countP fun t => start < t ∧ t ≤ start + P.window) ≤ P.maxOps ∧
      ((w.limiter.charged key).countP fun t => start ≤ t ∧ t < start + P.window) ≤ P.maxOps
  /-- An open reservation is consumed and closed without an error. -/
  opens : ∀ i r now, w.reservations[i]? = some r → 0 < r.remaining → w.clock ≤ now →
    (∃ w', limiterCall repr P (.consume i) now w = some (.done, w')) ∧
      ∃ w', limiterCall repr P (.close i) now w = some (.done, w')
  /-- A refused call is admitted once it has waited as long as it was told to. -/
  retry : ∀ c now refusal w' wait, w.clock ≤ now → limiterCall repr P c now w = some (.refused refusal, w') →
    refusal.retryAfter = some wait → ∀ later, now + wait ≤ later →
      ∃ result w'', limiterCall repr P c later w' = some (result, w'') ∧ result.admitted = true

end CyClaw.Telegram

/-
The limiter over a backend whose statements can raise.

A call makes at most three trips to its backend: the `DELETE`s of a sweep, the `SELECT` that
finds what survived them, and the upsert of the client's row.  A trip that raises has no
effect there and ends the call on the spot, so what the call had done before stays: the time
of the sweep, rows that are gone while memory still names them, hits that no row has.
`allowOver` follows a call through each of these ends, and is `allow` when none of them
happens.  A `Running` limiter goes through calls and through restarts, which build it again
from the rows, perhaps under another policy.
-/
import CyClaw.Lib.Runs
import CyClaw.RateLimit.Window

namespace CyClaw.RateLimit

/-! ### Calls -/

/-- Which trips to the backend raise. -/
structure Raises where
  delete : Bool
  select : Bool
  upsert : Bool
deriving DecidableEq

def Raises.never : Raises := ⟨false, false, false⟩

/-- `del self._hits[ip]` and `self._stamped_ips.discard(ip)`, for each of the clients. -/
def Limiter.evict (L : Limiter) (gone : List Ip) : Limiter where
  hits := L.hits.delete fun h => gone.contains h.ip
  stampedIps := L.stampedIps.filter fun ip => !gone.contains ip
  lastSweep := L.lastSweep

section Calls

variable (P : Policy) (b : Backend)

/-- The clients a call at this time gives to `_delete_rows`. -/
def nominated (now : ℚ) (L : Limiter) : List Ip :=
  if now - L.lastSweep < P.windowSeconds then [] else staleIps P now L

/-- `_sweep`, and whether it ended normally. -/
def sweepOver (f : Raises) (now : ℚ) (s : State) : State × Bool :=
  if now - s.limiter.lastSweep < P.windowSeconds then (s, true)
  else
    let swept := { s with limiter := { s.limiter with lastSweep := now } }
    let stale := staleIps P now s.limiter
    if stale = [] ∨ b.persists = false then
      ({ swept with limiter := swept.limiter.evict stale }, true)
    else if f.delete then (swept, false)
    else
      let (rows, survivors) := deleteRows b stale now s.rateHits
      if f.select then ({ swept with rateHits := rows }, false)
      else
        (⟨swept.limiter.evict (stale.filter fun ip => !survivors.contains ip), rows⟩, true)

/-- `_persist` and the stamp after it, and whether the upsert ended normally. -/
def persistOver (f : Raises) (ip : Ip) (now : ℚ) (s : State) : State × Bool :=
  if b.persists && f.upsert then (s, false) else (persistAndStamp P b ip now s, true)

/-- `allow`, with its answer unless it raises. -/
def allowOver (f : Raises) (ip : Ip) (now : ℚ) (s : State) : Option Bool × State :=
  match sweepOver P b f now s with
  | (s, false) => (none, s)
  | (s, true) =>
      let priorLen := (s.limiter.hitsOf ip).length
      let recent := (s.limiter.hitsOf ip).filter (P.live now)
      if P.maxRequests ≤ recent.length then
        let s' := { s with limiter := s.limiter.setHits ip recent }
        if recent.length ≠ priorLen ∨ ip ∉ s'.limiter.stampedIps then
          let (s'', done) := persistOver P b f ip now s'
          (if done then some false else none, s'')
        else (some false, s')
      else
        let (s'', done) := persistOver P b f ip now { s with limiter := s.limiter.setHits ip (recent ++ [now]) }
        (if done then some true else none, s'')

end Calls

/-! ### A limiter in use -/

/-- A limiter, its backend and the last reading of its clock. -/
structure Running where
  policy : Policy
  state : State
  clock : ℚ

inductive Step where
  | allow (ip : Ip) (now : ℚ) (f : Raises)
  | retryAfterSec (ip : Ip) (now : ℚ)
  | restart (P : Policy)

def Step.clock : Step → Option ℚ
  | .allow _ now _ => some now
  | .retryAfterSec _ now => some now
  | .restart _ => none

def Step.calls : Step → Bool
  | .allow .. => true
  | .retryAfterSec .. => true
  | .restart _ => false

/-- A limiter built over the rows of its backend. -/
def built (b : Backend) (P : Policy) (rows : RateHits) (now : ℚ) : Running :=
  ⟨P, restart b ⟨Limiter.new, rows⟩, now⟩

def Running.next (b : Backend) (st : Step) (R : Running) : Running :=
  match st with
  | .allow ip now f => ⟨R.policy, (allowOver R.policy b f ip now R.state).2, now⟩
  | .retryAfterSec ip now => ⟨R.policy, (retryAfterSec R.policy ip now R.state).2, now⟩
  | .restart P => built b P R.state.rateHits R.clock

/-- The clock does not go back. -/
def Running.timely (R : Running) (st : Step) : Bool := st.clock.all fun now => decide (R.clock ≤ now)

/-- What a run of calls and restarts reaches. -/
def Reaches (b : Backend) : Running → Running → Prop :=
  Runs.Later (fun st R => some (R.next b st)) Running.timely

/-- What a run of calls alone reaches. -/
def Calls (b : Backend) : Running → Running → Prop :=
  Runs.Later (fun st R => some (R.next b st)) fun R st => R.timely st && st.calls

/-! ### When nothing raises -/

variable {P : Policy} {b : Backend} {now : ℚ} {s : State}

theorem sweepOver_never : sweepOver P b .never now s = (sweep P b now s, true) := by
  rw [sweepOver, sweep]
  split
  · rfl
  · dsimp only
    by_cases hstale : staleIps P now s.limiter = []
    · rw [if_pos (Or.inl hstale), if_pos hstale, hstale]
      rfl
    · rw [if_neg hstale]
      by_cases hb : b.persists = false
      · rw [if_pos (Or.inr hb), deleteRows, hb, if_neg Bool.false_ne_true]
        simp [Limiter.evict]
      · rw [if_neg (by rintro (h | h); exacts [hstale h, hb h])]
        rfl

theorem persistOver_never {ip : Ip} : persistOver P b .never ip now s = (persistAndStamp P b ip now s, true) := by
  rw [persistOver, if_neg]
  simp [Raises.never]

/-- **A call over a backend that does not raise is the call.** -/
theorem allowOver_never (P : Policy) (b : Backend) (ip : Ip) (now : ℚ) (s : State) :
    allowOver P b .never ip now s = (some (allow P b ip now s).1, (allow P b ip now s).2) := by
  rw [allowOver, sweepOver_never, allow]
  dsimp only
  rw [persistOver_never, persistOver_never]
  split
  · split <;> rfl
  · rfl

end CyClaw.RateLimit

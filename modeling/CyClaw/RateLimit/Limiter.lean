/-
The rate limiter of the gateway (`utils/ratelimit.py`).

A limiter keeps the accepted timestamps of each client, prunes those that have left the
window when the client calls again, and once a window sweeps out clients that have gone
quiet.  With a backend it writes every client it touches through to a row of `rate_hits`
and reads all rows back when it is built again.

Times are rationals.  The text of a row's timestamps is kept as what it decodes to, with
`none` for text that does not parse; both backends run the same statements.
-/
import CyClaw.Lib.PyText
import CyClaw.Lib.Table
import Mathlib.Data.Rat.Defs
import Mathlib.Algebra.Order.Ring.Rat

namespace CyClaw.RateLimit

/-- `client_ip` -/
abbrev Ip := List Char

inductive Backend where
  | memory
  | sqlite
  | postgres
deriving DecidableEq

def Backend.persists : Backend → Bool
  | .memory => false
  | _ => true

/-- The policy of a limiter.  A window that is not positive raises in `__init__`. -/
structure Policy where
  maxRequests : ℤ
  windowSeconds : ℚ
  positive : 0 < windowSeconds

def Policy.make (maxRequests : ℤ) (windowSeconds : ℚ) : Option Policy :=
  if h : 0 < windowSeconds then some ⟨maxRequests, windowSeconds, h⟩ else none

/-- An entry of `_hits`. -/
structure Hits where
  ip : Ip
  timestamps : List ℚ

/-- A row of `rate_hits`. -/
structure RateHit where
  ip : Ip
  timestamps : Option (List ℚ)
  lastSweep : ℚ
  windowSeconds : ℚ

abbrev HitMap := Table Hits Ip Hits.ip
abbrev RateHits := Table RateHit Ip RateHit.ip

structure Limiter where
  hits : HitMap
  stampedIps : List Ip
  lastSweep : ℚ

/-- A limiter and the rows of its backend. -/
structure State where
  limiter : Limiter
  rateHits : RateHits

/-- `self._hits[client_ip]`, empty for a client that is not there. -/
def Limiter.hitsOf (L : Limiter) (ip : Ip) : List ℚ := ((L.hits.find? ip).map Hits.timestamps).getD []

/-- The timestamps are inside the window. -/
def Policy.live (P : Policy) (now t : ℚ) : Bool := now - t < P.windowSeconds

/-! ### The backend -/

/-- `_load_from_db`, into a limiter that is built anew. -/
def loadFromDb (rows : RateHits) : Limiter where
  hits := ⟨rows.rows.map fun r => ⟨r.ip, r.timestamps.getD []⟩, by
    rw [List.map_map]
    exact rows.unique⟩
  stampedIps := []
  lastSweep := rows.rows.foldl (fun last r => max last r.lastSweep) 0

/-- A limiter built without a backend. -/
def Limiter.new : Limiter := ⟨Table.empty, [], 0⟩

def restart (b : Backend) (s : State) : State :=
  if b.persists then { s with limiter := loadFromDb s.rateHits } else { s with limiter := Limiter.new }

/-- `_persist` -/
def persist (P : Policy) (b : Backend) (ip : Ip) (now : ℚ) (s : State) : State :=
  if b.persists then
    { s with rateHits := s.rateHits.upsert ⟨ip, some (s.limiter.hitsOf ip), now, P.windowSeconds⟩ }
  else s

/-- `_delete_rows`: the rows that stay, and the candidates that are still among them. -/
def deleteRows (b : Backend) (ips : List Ip) (now : ℚ) (rows : RateHits) : RateHits × List Ip :=
  if b.persists then
    let rows' := rows.delete fun r =>
      ips.contains r.ip && decide (0 < r.windowSeconds) && decide (r.lastSweep + r.windowSeconds ≤ now)
    (rows', ips.filter fun ip => (rows'.find? ip).isSome)
  else (rows, [])

/-! ### The limiter -/

/-- The clients whose timestamps have all left the window. -/
def staleIps (P : Policy) (now : ℚ) (L : Limiter) : List Ip :=
  (L.hits.rows.filter fun h => h.timestamps.all fun t => !P.live now t).map Hits.ip

/-- `_sweep` -/
def sweep (P : Policy) (b : Backend) (now : ℚ) (s : State) : State :=
  if now - s.limiter.lastSweep < P.windowSeconds then s
  else
    let stale := staleIps P now s.limiter
    let (rows, survivors) := if stale = [] then (s.rateHits, []) else deleteRows b stale now s.rateHits
    let gone := stale.filter fun ip => !survivors.contains ip
    { limiter :=
        { hits := s.limiter.hits.delete fun h => gone.contains h.ip
          stampedIps := s.limiter.stampedIps.filter fun ip => !gone.contains ip
          lastSweep := now }
      rateHits := rows }

/-- `self._hits[client_ip] = recent` -/
def Limiter.setHits (L : Limiter) (ip : Ip) (recent : List ℚ) : Limiter :=
  { L with hits := L.hits.upsert ⟨ip, recent⟩ }

def Limiter.stamp (L : Limiter) (ip : Ip) : Limiter := { L with stampedIps := ip :: L.stampedIps }

/-- Persist what the limiter holds for a client and remember that it did. -/
def persistAndStamp (P : Policy) (b : Backend) (ip : Ip) (now : ℚ) (s : State) : State :=
  let s := persist P b ip now s
  { s with limiter := s.limiter.stamp ip }

/-- `allow`, at the time the clock reads. -/
def allow (P : Policy) (b : Backend) (ip : Ip) (now : ℚ) (s : State) : Bool × State :=
  let s := sweep P b now s
  let priorLen := (s.limiter.hitsOf ip).length
  let recent := (s.limiter.hitsOf ip).filter (P.live now)
  if P.maxRequests ≤ recent.length then
    let s' := { s with limiter := s.limiter.setHits ip recent }
    if recent.length ≠ priorLen ∨ ip ∉ s'.limiter.stampedIps then (false, persistAndStamp P b ip now s')
    else (false, s')
  else
    (true, persistAndStamp P b ip now { s with limiter := s.limiter.setHits ip (recent ++ [now]) })

/-- `retry_after_sec`.  Looking at a client that is not there puts it there. -/
def retryAfterSec (P : Policy) (ip : Ip) (now : ℚ) (s : State) : ℚ × State :=
  let recent := (s.limiter.hitsOf ip).filter (P.live now)
  let s' := { s with limiter := s.limiter.setHits ip (s.limiter.hitsOf ip) }
  if (recent.length : ℤ) < P.maxRequests then (0, s')
  else (max 0 (P.windowSeconds - (now - recent.min?.getD 0)), s')

end CyClaw.RateLimit

/-
The limiter decides as the ideal sliding window does.

The reference keeps every accepted timestamp for ever and counts those of a client inside
the window.  The limiter forgets: it prunes, sweeps clients out of memory, deletes their
rows, skips writes, and reads back what is on disk after a restart.  What it forgets has
left the window, and the clock does not go back, so it never counts again: memory and disk
agree with the full history on every window from now on (`Agree`), and that is all a
decision looks at.
-/
import CyClaw.RateLimit.Limiter
import Mathlib.Algebra.Order.Group.Defs
import Mathlib.Algebra.Order.Ring.Star
import Mathlib.Data.Rat.Star
import Mathlib.Tactic.Linarith

namespace CyClaw.RateLimit

/-! ### Timestamps that agree on every window from now on -/

variable {P : Policy} {b : Backend} {now now' : ℚ}

def Agree (P : Policy) (now : ℚ) (f g : List ℚ) : Prop :=
  ∀ now', now ≤ now' → f.filter (P.live now') = g.filter (P.live now')

theorem live_of_later {t : ℚ} (h : now ≤ now') (hlive : P.live now' t = true) : P.live now t = true := by
  simp only [Policy.live, decide_eq_true_eq] at hlive ⊢
  linarith

theorem Agree.refl (f : List ℚ) : Agree P now f f :=
  fun _ _ => rfl

theorem Agree.trans {f g h : List ℚ} (hfg : Agree P now f g) (hgh : Agree P now g h) :
    Agree P now f h :=
  fun now' hle => (hfg now' hle).trans (hgh now' hle)

theorem Agree.later {f g : List ℚ} (h : Agree P now f g) (hle : now ≤ now') : Agree P now' f g :=
  fun now'' hle' => h now'' (hle.trans hle')

/-- What has left the window can be dropped. -/
theorem Agree.prune (f : List ℚ) : Agree P now (f.filter (P.live now)) f := by
  intro now' hle
  rw [List.filter_filter]
  refine List.filter_congr ?_
  intro t _
  cases hlive : P.live now' t with
  | false => rfl
  | true => rw [live_of_later hle hlive]; rfl

theorem Agree.nil {f : List ℚ} (h : ∀ t ∈ f, P.live now t = false) : Agree P now [] f := by
  have hnil : f.filter (P.live now) = [] := by
    rw [List.filter_eq_nil_iff]
    intro t ht
    simp [h t ht]
  rw [← hnil]
  exact Agree.prune f

theorem Agree.append {f g : List ℚ} (h : Agree P now f g) (t : ℚ) : Agree P now (f ++ [t]) (g ++ [t]) := by
  intro now' hle
  rw [List.filter_append, List.filter_append, h now' hle]

/-! ### What the operations do to one client -/

/-- The timestamps that a row gives back. -/
def rowOf (rows : RateHits) (ip : Ip) : List ℚ := ((rows.find? ip).bind RateHit.timestamps).getD []

theorem hitsOf_setHits (L : Limiter) (ip ip' : Ip) (ts : List ℚ) :
    (L.setHits ip ts).hitsOf ip' = if ip = ip' then ts else L.hitsOf ip' := by
  rw [Limiter.hitsOf, Limiter.setHits, Table.find?_upsert]
  by_cases h : ip = ip'
  · rw [if_pos h, if_pos h]
    rfl
  · rw [if_neg h, if_neg h]
    rfl

theorem hitsOf_loadFromDb (rows : RateHits) (ip : Ip) : (loadFromDb rows).hitsOf ip = rowOf rows ip := by
  have hfind : (loadFromDb rows).hits.find? ip =
      (rows.find? ip).map fun r => ⟨r.ip, r.timestamps.getD []⟩ := List.find?_map ..
  rw [Limiter.hitsOf, rowOf, hfind]
  cases rows.find? ip with
  | none => rfl
  | some r => rfl

/-- Deleting clients from memory. -/
theorem hitsOf_delete (hits : HitMap) (gone stamped : List Ip) (last : ℚ) (L : Limiter)
    (hL : L.hits = hits) (ip : Ip) :
    Limiter.hitsOf ⟨hits.delete fun h => gone.contains h.ip, stamped, last⟩ ip = L.hitsOf ip ∨
      Limiter.hitsOf ⟨hits.delete fun h => gone.contains h.ip, stamped, last⟩ ip = [] ∧ ip ∈ gone := by
  rw [Limiter.hitsOf, Limiter.hitsOf, hL, Table.find?_delete]
  cases hfind : hits.find? ip with
  | none => exact Or.inl rfl
  | some e =>
      rw [Option.filter_some]
      split
      · exact Or.inl rfl
      · rename_i hgone
        refine Or.inr ⟨rfl, ?_⟩
        rw [← (Table.find?_eq_some.mp hfind).2]
        simpa using hgone

/-- A client that the sweep nominates has nothing inside the window. -/
theorem stale_of_mem {L : Limiter} {ip : Ip} (h : ip ∈ staleIps P now L) :
    ∀ t ∈ L.hitsOf ip, P.live now t = false := by
  obtain ⟨e, he, rfl⟩ := List.mem_map.mp h
  rw [List.mem_filter] at he
  have hfind : L.hits.find? e.ip = some e := Table.find?_eq_some.mpr ⟨he.1, rfl⟩
  intro t ht
  rw [Limiter.hitsOf, hfind] at ht
  have hall := List.all_eq_true.mp he.2 t ht
  simpa using hall

theorem rowOf_deleteRows (b : Backend) (ips : List Ip) (now : ℚ) (rows : RateHits) (ip : Ip) :
    rowOf (deleteRows b ips now rows).1 ip = rowOf rows ip ∨
      rowOf (deleteRows b ips now rows).1 ip = [] ∧ ip ∈ ips := by
  rw [deleteRows]
  split
  · rw [rowOf, rowOf, Table.find?_delete]
    cases hfind : rows.find? ip with
    | none => exact Or.inl rfl
    | some r =>
        rw [Option.filter_some]
        split
        · exact Or.inl rfl
        · rename_i hdelete
          simp only [Bool.not_eq_true, Bool.not_eq_false', Bool.and_eq_true] at hdelete
          refine Or.inr ⟨rfl, ?_⟩
          rw [← (Table.find?_eq_some.mp hfind).2]
          exact List.contains_iff_mem.mp hdelete.1.1
  · exact Or.inl rfl

/-- **A sweep drops only what has left the window**, in memory and on disk. -/
theorem sweep_spec (P : Policy) (b : Backend) (now : ℚ) (s : State) (ip : Ip) :
    ((sweep P b now s).limiter.hitsOf ip = s.limiter.hitsOf ip ∨
      (sweep P b now s).limiter.hitsOf ip = [] ∧ ∀ t ∈ s.limiter.hitsOf ip, P.live now t = false) ∧
    (rowOf (sweep P b now s).rateHits ip = rowOf s.rateHits ip ∨
      rowOf (sweep P b now s).rateHits ip = [] ∧ ∀ t ∈ s.limiter.hitsOf ip, P.live now t = false) := by
  rw [sweep]
  split
  · exact ⟨Or.inl rfl, Or.inl rfl⟩
  · refine ⟨?_, ?_⟩
    · obtain hsame | ⟨hnil, hmem⟩ := hitsOf_delete s.limiter.hits _ _ now s.limiter rfl ip
      · exact Or.inl hsame
      · exact Or.inr ⟨hnil, stale_of_mem (List.mem_filter.mp hmem).1⟩
    · dsimp only
      split
      · exact Or.inl rfl
      · obtain hsame | ⟨hnil, hmem⟩ := rowOf_deleteRows b (staleIps P now s.limiter) now s.rateHits ip
        · exact Or.inl hsame
        · exact Or.inr ⟨hnil, stale_of_mem hmem⟩

theorem rowOf_persistAndStamp (P : Policy) (b : Backend) (ip ip' : Ip) (now : ℚ) (s : State) :
    rowOf (persistAndStamp P b ip now s).rateHits ip' =
      if b.persists = true ∧ ip = ip' then s.limiter.hitsOf ip else rowOf s.rateHits ip' := by
  rw [persistAndStamp, persist]
  by_cases hb : b.persists = true
  · rw [if_pos hb, rowOf, Table.find?_upsert]
    by_cases hip : ip = ip'
    · rw [if_pos hip, if_pos ⟨hb, hip⟩]
      rfl
    · rw [if_neg hip, if_neg (fun h => hip h.2)]
      rfl
  · rw [if_neg hb, if_neg (fun h => hb h.1)]

theorem hitsOf_persistAndStamp (P : Policy) (b : Backend) (ip ip' : Ip) (now : ℚ) (s : State) :
    (persistAndStamp P b ip now s).limiter.hitsOf ip' = s.limiter.hitsOf ip' := by
  rw [persistAndStamp, persist]
  split <;> rfl

/-! ### The reference -/

namespace Reference

/-- The accepted timestamps of a client. -/
def accepted (H : List (Ip × ℚ)) (ip : Ip) : List ℚ := (H.filter (·.1 = ip)).map (·.2)

/-- Accept if fewer than `maxRequests` accepted timestamps of the client are inside the window. -/
def allow (P : Policy) (ip : Ip) (now : ℚ) (H : List (Ip × ℚ)) : Bool × List (Ip × ℚ) :=
  if ((accepted H ip).countP fun t => now - t < P.windowSeconds) < P.maxRequests then
    (true, H ++ [(ip, now)])
  else (false, H)

theorem accepted_append (H : List (Ip × ℚ)) (ip ip' : Ip) (now : ℚ) :
    accepted (H ++ [(ip, now)]) ip' = if ip = ip' then accepted H ip' ++ [now] else accepted H ip' := by
  rw [accepted, List.filter_append, List.map_append, ← accepted, List.filter_singleton]
  by_cases h : ip = ip'
  · simp [h]
  · simp [h]

end Reference

/-! ### The simulation -/

/-- **Memory and disk agree with the full history** on every window from `now` on. -/
structure Simulates (P : Policy) (b : Backend) (now : ℚ) (s : State) (H : List (Ip × ℚ)) : Prop where
  memory : ∀ ip, Agree P now (s.limiter.hitsOf ip) (Reference.accepted H ip)
  disk : b.persists = true → ∀ ip, Agree P now (rowOf s.rateHits ip) (Reference.accepted H ip)

variable {s : State} {H : List (Ip × ℚ)}

theorem Simulates.later (h : Simulates P b now s H) (hle : now ≤ now') : Simulates P b now' s H :=
  ⟨fun ip => (h.memory ip).later hle, fun hb ip => (h.disk hb ip).later hle⟩

theorem Simulates.sweep (h : Simulates P b now s H) : Simulates P b now (sweep P b now s) H := by
  -- What is dropped has left the window, and the history has nothing more inside it.
  have dropped : ∀ ip, (∀ t ∈ s.limiter.hitsOf ip, P.live now t = false) →
      Agree P now [] (Reference.accepted H ip) :=
    fun ip hstale => (Agree.nil hstale).trans (h.memory ip)
  refine ⟨?_, ?_⟩
  · intro ip
    obtain hsame | ⟨hnil, hstale⟩ := (sweep_spec P b now s ip).1
    · rw [hsame]
      exact h.memory ip
    · rw [hnil]
      exact dropped ip hstale
  · intro hb ip
    obtain hsame | ⟨hnil, hstale⟩ := (sweep_spec P b now s ip).2
    · rw [hsame]
      exact h.disk hb ip
    · rw [hnil]
      exact dropped ip hstale

/-- Putting a list in memory that agrees with the history of its client. -/
theorem Simulates.setHits (h : Simulates P b now s H) {ip : Ip} {ts : List ℚ}
    (hts : Agree P now ts (Reference.accepted H ip)) :
    Simulates P b now { s with limiter := s.limiter.setHits ip ts } H := by
  refine ⟨?_, h.disk⟩
  intro ip'
  rw [hitsOf_setHits]
  by_cases hip : ip = ip'
  · rw [if_pos hip, ← hip]
    exact hts
  · rw [if_neg hip]
    exact h.memory ip'

theorem Simulates.persistAndStamp (h : Simulates P b now s H) (ip : Ip) :
    Simulates P b now (persistAndStamp P b ip now s) H := by
  refine ⟨?_, ?_⟩
  · intro ip'
    rw [hitsOf_persistAndStamp]
    exact h.memory ip'
  · intro hb ip'
    rw [rowOf_persistAndStamp]
    by_cases hip : ip = ip'
    · rw [if_pos ⟨hb, hip⟩, ← hip]
      exact h.memory ip
    · rw [if_neg (fun hc => hip hc.2)]
      exact h.disk hb ip'

/-- The history grows by a timestamp that memory has and disk has been given. -/
theorem Simulates.accept (h : Simulates P b now s H) (ip : Ip) :
    Simulates P b now
      (RateLimit.persistAndStamp P b ip now { s with
        limiter := s.limiter.setHits ip ((s.limiter.hitsOf ip).filter (P.live now) ++ [now]) })
      (H ++ [(ip, now)]) := by
  refine ⟨?_, ?_⟩
  · intro ip'
    rw [hitsOf_persistAndStamp, hitsOf_setHits, Reference.accepted_append]
    by_cases hip : ip = ip'
    · rw [if_pos hip, if_pos hip, ← hip]
      exact ((Agree.prune _).trans (h.memory ip)).append now
    · rw [if_neg hip, if_neg hip]
      exact h.memory ip'
  · intro hb ip'
    rw [rowOf_persistAndStamp, hitsOf_setHits, Reference.accepted_append]
    by_cases hip : ip = ip'
    · rw [if_pos ⟨hb, hip⟩, if_pos rfl, if_pos hip, ← hip]
      exact ((Agree.prune _).trans (h.memory ip)).append now
    · rw [if_neg (fun hc => hip hc.2), if_neg hip]
      exact h.disk hb ip'

/-- **One call decides as the reference does and keeps the simulation.** -/
theorem allow_simulates (h : Simulates P b now s H) (ip : Ip) :
    (allow P b ip now s).1 = (Reference.allow P ip now H).1 ∧
      Simulates P b now (allow P b ip now s).2 (Reference.allow P ip now H).2 := by
  have hsweep := h.sweep
  -- Both count the same timestamps.
  have hcount : (((sweep P b now s).limiter.hitsOf ip).filter (P.live now)).length =
      (Reference.accepted H ip).countP fun t => now - t < P.windowSeconds := by
    rw [hsweep.memory ip now (le_refl now), List.countP_eq_length_filter]
    rfl
  have hreject := hsweep.setHits ((Agree.prune _).trans (hsweep.memory ip))
  by_cases hfull : P.maxRequests ≤ (((sweep P b now s).limiter.hitsOf ip).filter (P.live now)).length
  · have href : Reference.allow P ip now H = (false, H) := if_neg (by rw [← hcount]; omega)
    rw [href, allow]
    dsimp only
    rw [if_pos hfull]
    split
    · exact ⟨rfl, hreject.persistAndStamp ip⟩
    · exact ⟨rfl, hreject⟩
  · have href : Reference.allow P ip now H = (true, H ++ [(ip, now)]) := if_pos (by rw [← hcount]; omega)
    rw [href, allow]
    dsimp only
    rw [if_neg hfull]
    exact ⟨rfl, hsweep.accept ip⟩

theorem retryAfterSec_simulates (h : Simulates P b now s H) (ip : Ip) (now' : ℚ) :
    Simulates P b now (retryAfterSec P ip now' s).2 H := by
  rw [retryAfterSec]
  split <;> exact h.setHits (h.memory ip)

theorem restart_simulates (h : Simulates P b now s H) (hb : b.persists = true) :
    Simulates P b now (restart b s) H := by
  rw [restart, if_pos hb]
  refine ⟨?_, h.disk⟩
  intro ip
  rw [hitsOf_loadFromDb]
  exact h.disk hb ip

/-! ### Whole runs -/

/-- What happens to a limiter: calls at the times its clock reads, and restarts. -/
inductive Event where
  | allow (ip : Ip) (now : ℚ)
  | retryAfterSec (ip : Ip) (now : ℚ)
  | restart
deriving DecidableEq

def Event.clock : Event → Option ℚ
  | .allow _ now => some now
  | .retryAfterSec _ now => some now
  | .restart => none

/-- The decisions of the limiter along a run. -/
def decisions (P : Policy) (b : Backend) : List Event → State → List Bool
  | [], _ => []
  | .allow ip now :: es, s => (allow P b ip now s).1 :: decisions P b es (allow P b ip now s).2
  | .retryAfterSec ip now :: es, s => decisions P b es (retryAfterSec P ip now s).2
  | .restart :: es, s => decisions P b es (restart b s)

/-- The decisions of the reference, which neither peeks nor restarts. -/
def Reference.decisions (P : Policy) : List Event → List (Ip × ℚ) → List Bool
  | [], _ => []
  | .allow ip now :: es, H => (allow P ip now H).1 :: decisions P es (allow P ip now H).2
  | .retryAfterSec _ _ :: es, H => decisions P es H
  | .restart :: es, H => decisions P es H

def State.new : State := ⟨Limiter.new, Table.empty⟩

theorem decisions_of_simulates (es : List Event) (hclock : (es.filterMap Event.clock).Pairwise (· ≤ ·))
    (hrestart : b.persists = true ∨ .restart ∉ es) (hnow : ∀ t ∈ es.filterMap Event.clock, now ≤ t)
    (h : Simulates P b now s H) : decisions P b es s = Reference.decisions P es H := by
  induction es generalizing s H now with
  | nil => rfl
  | cons e es ih =>
      have hrestart' : b.persists = true ∨ .restart ∉ es :=
        hrestart.imp_right fun hnot hmem => hnot (List.mem_cons_of_mem e hmem)
      cases e with
      | allow ip t =>
          rw [List.filterMap_cons_some (by rfl : Event.clock (.allow ip t) = some t)] at hclock hnow
          rw [List.pairwise_cons] at hclock
          have hstep := allow_simulates (h.later (hnow t List.mem_cons_self)) ip
          rw [decisions, Reference.decisions, hstep.1]
          congr 1
          exact ih hclock.2 hrestart' hclock.1 hstep.2
      | retryAfterSec ip t =>
          rw [List.filterMap_cons_some (by rfl : Event.clock (.retryAfterSec ip t) = some t)] at hclock hnow
          rw [List.pairwise_cons] at hclock
          rw [decisions, Reference.decisions]
          refine ih hclock.2 hrestart' (fun t' ht' => hnow t' (List.mem_cons_of_mem t ht')) ?_
          exact retryAfterSec_simulates h ip t
      | restart =>
          rw [List.filterMap_cons_none (by rfl : Event.clock .restart = none)] at hclock hnow
          rw [decisions, Reference.decisions]
          have hb : b.persists = true := hrestart.resolve_right fun hnot => hnot List.mem_cons_self
          exact ih hclock hrestart' hnow (restart_simulates h hb)

/-- **The limiter decides as the ideal sliding window**, on every run whose clock does not go
back, restarts included when there is a backend. -/
theorem decisions_eq_reference (P : Policy) (b : Backend) (es : List Event)
    (hclock : (es.filterMap Event.clock).Pairwise (· ≤ ·))
    (hrestart : b.persists = true ∨ .restart ∉ es) :
    decisions P b es State.new = Reference.decisions P es [] := by
  have hnew : ∀ now, Simulates P b now State.new [] :=
    fun now => ⟨fun ip => Agree.refl [], fun _ ip => Agree.refl []⟩
  cases hreadings : es.filterMap Event.clock with
  | nil => exact decisions_of_simulates es hclock hrestart (by rw [hreadings]; nofun) (hnew 0)
  | cons t rest =>
      refine decisions_of_simulates es hclock hrestart ?_ (hnew t)
      rw [hreadings] at hclock ⊢
      intro t' ht'
      rw [List.mem_cons] at ht'
      obtain rfl | ht' := ht'
      · exact le_refl _
      · exact List.rel_of_pairwise_cons hclock ht'

/-- Two requests in a window of ten seconds, with a restart, a sweep and a peek among them. -/
theorem decisions_eq_reference_sqlite :
    decisions ⟨2, 10, by norm_num⟩ .sqlite
        [.allow ['a'] 1, .allow ['a'] 2, .restart, .allow ['a'] 3, .retryAfterSec ['b'] 4,
          .allow ['b'] 13, .restart, .allow ['a'] 14] State.new =
      Reference.decisions ⟨2, 10, by norm_num⟩
        [.allow ['a'] 1, .allow ['a'] 2, .restart, .allow ['a'] 3, .retryAfterSec ['b'] 4,
          .allow ['b'] 13, .restart, .allow ['a'] 14] [] :=
  decisions_eq_reference _ .sqlite _ (by decide +kernel) (Or.inl rfl)

end CyClaw.RateLimit

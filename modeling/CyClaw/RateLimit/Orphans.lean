/-
No row of the backend is orphaned.

Only memory can nominate a row for deletion, so a client whose row outlives its entry in
memory keeps that row for ever.  Rows are written for clients that memory holds, memory lets
go of a client only once its row is known to be gone, and a trip to the backend that raises
ends the call before memory lets go: `Sound` carries this through every call and restart,
together with the two facts about time that a deletion rests on.  A timestamp of a row is no
later than the time the row was written, so a row that is deleted has none inside its
window; and a client that keeps quiet is nominated by the first request, two windows later
at most, that finds a sweep due.
-/
import CyClaw.RateLimit.Failing

namespace CyClaw.RateLimit

/-! ### What one call can do -/

variable {P : Policy} {b : Backend} {now : ℚ} {s : State} {ip : Ip}

/-- The client is a key of `_hits`. -/
def Limiter.tracks (L : Limiter) (ip : Ip) : Prop := (L.hits.find? ip).isSome = true

theorem evict_nil (L : Limiter) : L.evict [] = L := by
  have hhits : (L.hits.delete fun h => ([] : List Ip).contains h.ip) = L.hits := Table.delete_of_count (by
    simp [Table.count])
  have hstamped : (L.stampedIps.filter fun ip => !([] : List Ip).contains ip) = L.stampedIps := by simp
  rw [Limiter.evict, hhits, hstamped]

theorem tracks_evict {L : Limiter} {gone : List Ip} : (L.evict gone).tracks ip ↔ L.tracks ip ∧ ip ∉ gone := by
  rw [Limiter.tracks, Limiter.tracks, Limiter.evict, Table.find?_delete]
  cases hfind : L.hits.find? ip with
  | none => simp
  | some h =>
      obtain ⟨-, rfl⟩ := Table.find?_eq_some.mp hfind
      simp [Option.filter_some]

theorem tracks_setHits {L : Limiter} {ts : List ℚ} {ip' : Ip} :
    (L.setHits ip ts).tracks ip' ↔ ip = ip' ∨ L.tracks ip' := by
  rw [Limiter.tracks, Limiter.tracks, Limiter.setHits, Table.find?_upsert]
  by_cases hip : ip = ip'
  · simp [hip]
  · simp [hip]

theorem hitsOf_evict {L : Limiter} {gone : List Ip} (h : ip ∉ gone) : (L.evict gone).hitsOf ip = L.hitsOf ip := by
  rw [Limiter.hitsOf, Limiter.hitsOf, Limiter.evict, Table.find?_delete]
  cases hfind : L.hits.find? ip with
  | none => rfl
  | some e =>
      obtain ⟨-, rfl⟩ := Table.find?_eq_some.mp hfind
      rw [Option.filter_some, if_pos (by simpa using h)]

theorem mem_hitsOf_evict {L : Limiter} {gone : List Ip} {t : ℚ} (h : t ∈ (L.evict gone).hitsOf ip) :
    t ∈ L.hitsOf ip := by
  by_cases hgone : ip ∈ gone
  · rw [Limiter.hitsOf] at h
    cases hfind : (L.evict gone).hits.find? ip with
    | none => rw [hfind] at h; cases h
    | some e => exact absurd hgone (tracks_evict.mp (by rw [Limiter.tracks, hfind]; rfl)).2
  · rwa [hitsOf_evict hgone] at h

/-- What a sweep leaves. -/
structure Swept (P : Policy) (b : Backend) (now : ℚ) (s s' : State) (gone : List Ip) : Prop where
  limiter : s'.limiter = Limiter.evict { s.limiter with
    lastSweep := if now - s.limiter.lastSweep < P.windowSeconds then s.limiter.lastSweep else now } gone
  rows : s'.rateHits = s.rateHits ∨
    b.persists = true ∧ s'.rateHits = (deleteRows b (nominated P now s.limiter) now s.rateHits).1
  gone : ∀ ip ∈ gone, ip ∈ nominated P now s.limiter ∧ (b.persists = true → s'.rateHits.find? ip = none)

theorem sweepOver_swept (P : Policy) (b : Backend) (f : Raises) (now : ℚ) (s : State) :
    ∃ gone, Swept P b now s (sweepOver P b f now s).1 gone := by
  rw [sweepOver]
  by_cases hdue : now - s.limiter.lastSweep < P.windowSeconds
  · rw [if_pos hdue]
    refine ⟨[], ⟨by rw [if_pos hdue, evict_nil], Or.inl rfl, ?_⟩⟩
    intro ip hip
    cases hip
  · have hnominated : nominated P now s.limiter = staleIps P now s.limiter := if_neg hdue
    rw [if_neg hdue]
    dsimp only
    by_cases hquiet : staleIps P now s.limiter = [] ∨ b.persists = false
    · rw [if_pos hquiet]
      refine ⟨staleIps P now s.limiter, ⟨by rw [if_neg hdue], Or.inl rfl, ?_⟩⟩
      intro ip hip
      rw [hnominated]
      refine ⟨hip, fun hb => ?_⟩
      obtain hnil | hnone := hquiet
      · rw [hnil] at hip
        cases hip
      · rw [hb] at hnone
        cases hnone
    · rw [if_neg hquiet]
      have hb : b.persists = true := by
        by_contra hb
        exact hquiet (Or.inr (by simpa using hb))
      cases f.delete with
      | true =>
          refine ⟨[], ⟨by rw [if_neg hdue, evict_nil]; rfl, Or.inl rfl, ?_⟩⟩
          intro ip hip
          cases hip
      | false =>
          rw [if_neg Bool.false_ne_true]
          cases f.select with
          | true =>
              refine ⟨[], ⟨by rw [if_neg hdue, evict_nil]; rfl, Or.inr ⟨hb, by rw [hnominated]; rfl⟩, ?_⟩⟩
              intro ip hip
              cases hip
          | false =>
              refine ⟨_, ⟨by rw [if_neg hdue]; rfl, Or.inr ⟨hb, by rw [hnominated]; rfl⟩, ?_⟩⟩
              intro ip hip
              rw [hnominated]
              rw [List.mem_filter] at hip
              refine ⟨hip.1, fun _ => ?_⟩
              -- A nominated client that is no survivor has no row left.
              have hnot := hip.2
              rw [Bool.not_eq_true'] at hnot
              by_contra hrow
              refine absurd hnot ?_
              rw [Bool.not_eq_false, List.contains_iff_mem, deleteRows, if_pos hb]
              refine List.mem_filter.mpr ⟨hip.1, ?_⟩
              rw [Option.isSome_iff_ne_none]
              rwa [deleteRows, if_pos hb] at hrow

/-- What follows the sweep of a call: nothing, an entry for the client, or an entry and a row. -/
theorem allowOver_cases (P : Policy) (b : Backend) (f : Raises) (ip : Ip) (now : ℚ) (s : State) :
    let s₁ := (sweepOver P b f now s).1
    let recent := (s₁.limiter.hitsOf ip).filter (P.live now)
    (allowOver P b f ip now s).2 = s₁ ∨
      ∃ ts, (ts = recent ∨ ts = recent ++ [now] ∧ recent.length < P.maxRequests) ∧
        ((allowOver P b f ip now s).2 = { s₁ with limiter := s₁.limiter.setHits ip ts } ∨
          (allowOver P b f ip now s).2 =
            persistAndStamp P b ip now { s₁ with limiter := s₁.limiter.setHits ip ts }) := by
  have hpersist : ∀ s', (persistOver P b f ip now s').1 = s' ∨
      (persistOver P b f ip now s').1 = persistAndStamp P b ip now s' := by
    intro s'
    rw [persistOver]
    split
    · exact Or.inl rfl
    · exact Or.inr rfl
  rw [allowOver]
  cases hswept : sweepOver P b f now s with
  | mk s₁ done =>
      cases done with
      | false => exact Or.inl rfl
      | true =>
          dsimp only
          right
          split
          · refine ⟨_, Or.inl rfl, ?_⟩
            split
            · exact hpersist _
            · exact Or.inl rfl
          · rename_i hroom
            exact ⟨_, Or.inr ⟨rfl, not_le.mp hroom⟩, hpersist _⟩

/-! ### What holds between two calls -/

/-- Rows that were written by `now`, each with timestamps no later than itself. -/
structure Written (b : Backend) (rows : RateHits) (now : ℚ) : Prop where
  kept : b.persists = false → rows.rows = []
  earlier : ∀ r ∈ rows.rows, ∀ ts ∈ r.timestamps, ∀ t ∈ ts, t ≤ r.lastSweep
  by_now : ∀ r ∈ rows.rows, r.lastSweep ≤ now

/-- Every row has a client in memory, and nothing lies ahead of the clock.  A limiter that has
swept nothing yet counts from zero, whatever its clock reads. -/
structure Sound (b : Backend) (s : State) (now : ℚ) : Prop where
  written : Written b s.rateHits now
  tracked : ∀ r ∈ s.rateHits.rows, s.limiter.tracks r.ip
  held : ∀ ip, ∀ t ∈ s.limiter.hitsOf ip, t ≤ now
  swept : s.limiter.lastSweep ≤ max 0 now

variable {now' : ℚ}

theorem written_empty (b : Backend) (now : ℚ) : Written b Table.empty now :=
  ⟨fun _ => rfl, fun _ hr => absurd hr List.not_mem_nil, fun _ hr => absurd hr List.not_mem_nil⟩

theorem Written.later {rows : RateHits} (h : Written b rows now) (hle : now ≤ now') : Written b rows now' :=
  ⟨h.kept, h.earlier, fun r hr => (h.by_now r hr).trans hle⟩

theorem Written.of_subset {rows rows' : RateHits} (h : Written b rows now)
    (hsub : ∀ r ∈ rows'.rows, r ∈ rows.rows) : Written b rows' now where
  kept hb := by
    rw [List.eq_nil_iff_forall_not_mem]
    intro r hr
    have hmem := hsub r hr
    rw [h.kept hb] at hmem
    cases hmem
  earlier r hr := h.earlier r (hsub r hr)
  by_now r hr := h.by_now r (hsub r hr)

theorem Sound.later (h : Sound b s now) (hle : now ≤ now') : Sound b s now' where
  written := h.written.later hle
  tracked := h.tracked
  held ip t ht := (h.held ip t ht).trans hle
  swept := h.swept.trans (max_le_max le_rfl hle)

/-- **A sweep keeps it**, however it ends. -/
theorem Sound.sweepOver (h : Sound b s now) (f : Raises) : Sound b (sweepOver P b f now s).1 now := by
  obtain ⟨gone, hswept⟩ := sweepOver_swept P b f now s
  have hsub : ∀ r ∈ (RateLimit.sweepOver P b f now s).1.rateHits.rows, r ∈ s.rateHits.rows := by
    intro r hr
    obtain hrows | ⟨hb, hrows⟩ := hswept.rows
    · rwa [hrows] at hr
    · rw [hrows, deleteRows, if_pos hb] at hr
      exact (Table.mem_delete.mp hr).1
  refine ⟨h.written.of_subset hsub, ?_, ?_, ?_⟩
  · intro r hr
    rw [hswept.limiter, tracks_evict]
    refine ⟨h.tracked r (hsub r hr), fun hgone => ?_⟩
    -- A backend that keeps rows has none left for a client that memory lets go of.
    by_cases hb : b.persists = true
    · have hnone := (hswept.gone r.ip hgone).2 hb
      rw [Table.find?_eq_none] at hnone
      exact hnone r hr rfl
    · have hempty := h.written.kept (by simpa using hb)
      have hmem := hsub r hr
      rw [hempty] at hmem
      cases hmem
  · intro ip t ht
    rw [hswept.limiter] at ht
    exact h.held ip t (mem_hitsOf_evict ht)
  · rw [hswept.limiter]
    by_cases hdue : now - s.limiter.lastSweep < P.windowSeconds
    · exact (if_pos hdue).trans_le h.swept
    · exact (if_neg hdue).trans_le (le_max_right 0 now)

theorem Sound.setHits (h : Sound b s now) (ip : Ip) {ts : List ℚ} (hts : ∀ t ∈ ts, t ≤ now) :
    Sound b { s with limiter := s.limiter.setHits ip ts } now where
  written := h.written
  tracked r hr := tracks_setHits.mpr (Or.inr (h.tracked r hr))
  held ip' t ht := by
    rw [hitsOf_setHits] at ht
    by_cases hip : ip = ip'
    · rw [if_pos hip] at ht
      exact hts t ht
    · rw [if_neg hip] at ht
      exact h.held ip' t ht
  swept := h.swept

/-- A row is written for a client that memory holds. -/
theorem Sound.persistAndStamp (h : Sound b s now) (hip : s.limiter.tracks ip) :
    Sound b (persistAndStamp P b ip now s) now := by
  by_cases hb : b.persists = true
  · have hrows : (RateLimit.persistAndStamp P b ip now s).rateHits =
        s.rateHits.upsert ⟨ip, some (s.limiter.hitsOf ip), now, P.windowSeconds⟩ := by
      rw [RateLimit.persistAndStamp, persist, if_pos hb]
    have hlimiter : (RateLimit.persistAndStamp P b ip now s).limiter = s.limiter.stamp ip := by
      rw [RateLimit.persistAndStamp, persist, if_pos hb]
    refine ⟨⟨fun hnot => ?_, ?_, ?_⟩, ?_, ?_, ?_⟩
    · rw [hb] at hnot
      cases hnot
    · intro r hr ts hts t ht
      rw [hrows] at hr
      obtain rfl | hr := Table.mem_upsert hr
      · obtain rfl := Option.some.inj hts
        exact h.held ip t ht
      · exact h.written.earlier r hr ts hts t ht
    · intro r hr
      rw [hrows] at hr
      obtain rfl | hr := Table.mem_upsert hr
      · exact le_rfl
      · exact h.written.by_now r hr
    · intro r hr
      rw [hrows] at hr
      rw [hlimiter]
      obtain rfl | hr := Table.mem_upsert hr
      · exact hip
      · exact h.tracked r hr
    · rw [hlimiter]
      exact h.held
    · rw [hlimiter]
      exact h.swept
  · have hsame : RateLimit.persistAndStamp P b ip now s = { s with limiter := s.limiter.stamp ip } := by
      rw [RateLimit.persistAndStamp, persist, if_neg hb]
    rw [hsame]
    exact ⟨h.written, h.tracked, h.held, h.swept⟩

theorem Sound.allowOver (h : Sound b s now) (f : Raises) (ip : Ip) : Sound b (allowOver P b f ip now s).2 now := by
  have hswept := h.sweepOver (P := P) f
  obtain hout | ⟨ts, hts, hout⟩ := allowOver_cases P b f ip now s
  · rw [hout]
    exact hswept
  · have hrecent : ∀ t ∈ ((RateLimit.sweepOver P b f now s).1.limiter.hitsOf ip).filter (P.live now), t ≤ now :=
      fun t ht => hswept.held ip t (List.mem_filter.mp ht).1
    have hle : ∀ t ∈ ts, t ≤ now := by
      intro t ht
      obtain rfl | ⟨rfl, -⟩ := hts
      · exact hrecent t ht
      · rw [List.mem_append, List.mem_singleton] at ht
        obtain ht | rfl := ht
        · exact hrecent t ht
        · exact le_rfl
    have hset := hswept.setHits ip hle
    obtain hout | hout := hout
    · rw [hout]
      exact hset
    · rw [hout]
      exact hset.persistAndStamp (tracks_setHits.mpr (Or.inl rfl))

theorem Sound.retryAfterSec (h : Sound b s now) (ip : Ip) : Sound b (retryAfterSec P ip now s).2 now := by
  have hset := h.setHits ip (h.held ip)
  rw [RateLimit.retryAfterSec]
  split
  · exact hset
  · exact hset

theorem foldl_max_le (rows : List RateHit) (last now : ℚ) (hlast : last ≤ max 0 now)
    (h : ∀ r ∈ rows, r.lastSweep ≤ now) : rows.foldl (fun last r => max last r.lastSweep) last ≤ max 0 now := by
  induction rows generalizing last with
  | nil => exact hlast
  | cons r rows ih =>
      refine ih _ (max_le hlast ((h r List.mem_cons_self).trans (le_max_right 0 now))) ?_
      intro r' hr'
      exact h r' (List.mem_cons_of_mem r hr')

/-- A limiter that is built over such rows reads them all back. -/
theorem sound_built {rows : RateHits} (h : Written b rows now) (P : Policy) :
    Sound b (built b P rows now).state now := by
  rw [built, restart]
  by_cases hb : b.persists = true
  · rw [if_pos hb]
    refine ⟨h, ?_, ?_, ?_⟩
    · intro r hr
      rw [Limiter.tracks, Option.isSome_iff_exists]
      refine ⟨⟨r.ip, r.timestamps.getD []⟩, Table.find?_eq_some.mpr ⟨?_, rfl⟩⟩
      exact List.mem_map.mpr ⟨r, hr, rfl⟩
    · intro ip t ht
      rw [hitsOf_loadFromDb, rowOf] at ht
      cases hfind : rows.find? ip with
      | none => rw [hfind] at ht; cases ht
      | some r =>
          rw [hfind, Option.bind_some] at ht
          have hr := (Table.find?_eq_some.mp hfind).1
          cases hts : r.timestamps with
          | none => rw [hts] at ht; cases ht
          | some ts =>
              rw [hts] at ht
              exact (h.earlier r hr ts hts t ht).trans (h.by_now r hr)
    · exact foldl_max_le rows.rows 0 now (le_max_left 0 now) h.by_now
  · rw [if_neg hb]
    have hempty := h.kept (by simpa using hb)
    refine ⟨h, ?_, ?_, le_max_left 0 now⟩
    · intro r hr
      rw [hempty] at hr
      cases hr
    · intro ip t ht
      cases ht

theorem sound_next {R : Running} {st : Step} (h : Sound b R.state R.clock) (htimely : R.timely st = true) :
    Sound b (R.next b st).state (R.next b st).clock := by
  cases st with
  | allow ip now f =>
      have hle : R.clock ≤ now := by simpa [Running.timely, Step.clock] using htimely
      exact (h.later hle).allowOver f ip
  | retryAfterSec ip now =>
      have hle : R.clock ≤ now := by simpa [Running.timely, Step.clock] using htimely
      exact (h.later hle).retryAfterSec ip
  | restart P => exact sound_built h.written P

theorem sound_of_reaches {P : Policy} {rows : RateHits} {R : Running} (hrows : Written b rows now)
    (h : Reaches b (built b P rows now) R) : Sound b R.state R.clock := by
  refine Runs.Later.invariant (I := fun R => Sound b R.state R.clock) h (sound_built hrows P) ?_
  intro R R' st hR htimely hstep
  obtain rfl := Option.some.inj hstep
  exact sound_next hR htimely

/-! ### What is deleted -/

/-- A row with a timestamp inside its own window outlives the sweep. -/
theorem mem_sweepOver_of_live {rows : RateHits} (h : Written b s.rateHits now') (f : Raises) {r : RateHit}
    (hr : r ∈ s.rateHits.rows) (hlive : ∃ ts ∈ r.timestamps, ∃ t ∈ ts, now - t < r.windowSeconds)
    (hrows : rows = (sweepOver P b f now s).1.rateHits) : r ∈ rows.rows := by
  obtain ⟨gone, hswept⟩ := sweepOver_swept P b f now s
  obtain ⟨ts, hts, t, ht, hwindow⟩ := hlive
  have hle := h.earlier r hr ts hts t ht
  rw [hrows]
  obtain hsame | ⟨hb, hdeleted⟩ := hswept.rows
  · rwa [hsame]
  · rw [hdeleted, deleteRows, if_pos hb, Table.mem_delete]
    refine ⟨hr, ?_⟩
    have hnot : decide (r.lastSweep + r.windowSeconds ≤ now) = false := by
      rw [decide_eq_false_iff_not]
      linarith
    rw [hnot, Bool.and_false]

/-- A row that has run out under its own window is gone after a sweep that nominates it. -/
theorem not_mem_sweepOver_of_expired {r : RateHit} (hkept : b.persists = false → s.rateHits.rows = [])
    (hmem : r.ip ∈ nominated P now s.limiter) (hpos : 0 < r.windowSeconds)
    (hexpired : r.lastSweep + r.windowSeconds ≤ now) : r ∉ (sweepOver P b .never now s).1.rateHits.rows := by
  by_cases hb : b.persists = true
  · have hstale : ¬ now - s.limiter.lastSweep < P.windowSeconds ∧ r.ip ∈ staleIps P now s.limiter := by
      rw [nominated] at hmem
      split at hmem
      · cases hmem
      · rename_i hdue
        exact ⟨hdue, hmem⟩
    rw [sweepOver_never, sweep, if_neg hstale.1]
    dsimp only
    rw [if_neg (List.ne_nil_of_mem hstale.2), deleteRows, if_pos hb, Table.mem_delete]
    rintro ⟨-, hspared⟩
    simp [hstale.2, hpos, hexpired] at hspared
  · have hempty := hkept (by simpa using hb)
    intro hr
    obtain ⟨gone, hswept⟩ := sweepOver_swept P b .never now s
    obtain hsame | ⟨hb', -⟩ := hswept.rows
    · rw [hsame, hempty] at hr
      cases hr
    · exact hb hb'

/-! ### What is nominated -/

/-- A call that is no request of the client and does not nominate it. -/
def Running.passesOver (ip : Ip) (R : Running) (st : Step) : Bool :=
  R.timely st && match st with
    | .allow ip' now _ => decide (ip' ≠ ip) && !(nominated R.policy now R.state.limiter).contains ip
    | .retryAfterSec _ _ => true
    | .restart _ => false

/-- A client that has kept quiet since `since` and has not been nominated. -/
structure Waiting (P : Policy) (since : ℚ) (ip : Ip) (s : State) : Prop where
  tracked : s.limiter.tracks ip
  held : ∀ t ∈ s.limiter.hitsOf ip, t ≤ since
  swept : s.limiter.lastSweep < max 0 since + P.windowSeconds

variable {since : ℚ}

theorem mem_staleIps {L : Limiter} (htracks : L.tracks ip) :
    ip ∈ staleIps P now L ↔ ∀ t ∈ L.hitsOf ip, P.live now t = false := by
  constructor
  · exact stale_of_mem
  · intro hdead
    obtain ⟨h, hfind⟩ := Option.isSome_iff_exists.mp htracks
    obtain ⟨hmem, rfl⟩ := Table.find?_eq_some.mp hfind
    refine List.mem_map.mpr ⟨h, List.mem_filter.mpr ⟨hmem, ?_⟩, rfl⟩
    rw [Limiter.hitsOf, hfind] at hdead
    rw [List.all_eq_true]
    intro t ht
    rw [hdead t ht]
    rfl

/-- A sweep that is due passes over a client only while its window lasts. -/
theorem Waiting.sweepOver (h : Waiting P since ip s) (f : Raises) (hnot : ip ∉ nominated P now s.limiter) :
    Waiting P since ip (sweepOver P b f now s).1 := by
  obtain ⟨gone, hswept⟩ := sweepOver_swept P b f now s
  have hstays : ip ∉ gone := fun hgone => hnot (hswept.gone ip hgone).1
  refine ⟨?_, ?_, ?_⟩
  · rw [hswept.limiter, tracks_evict]
    exact ⟨h.tracked, hstays⟩
  · intro t ht
    rw [hswept.limiter, hitsOf_evict hstays] at ht
    exact h.held t ht
  · rw [hswept.limiter]
    by_cases hdue : now - s.limiter.lastSweep < P.windowSeconds
    · exact (if_pos hdue).trans_lt h.swept
    · refine (if_neg hdue).trans_lt ?_
      rw [nominated, if_neg hdue, mem_staleIps h.tracked] at hnot
      push Not at hnot
      obtain ⟨t, ht, hlive⟩ := hnot
      have hsince := h.held t ht
      have hwindow : now - t < P.windowSeconds := by simpa [Policy.live] using hlive
      have hmax := le_max_right 0 since
      linarith

theorem Waiting.setHits (h : Waiting P since ip s) {ip' : Ip} (ts : List ℚ)
    (hts : ip' = ip → ts = s.limiter.hitsOf ip) :
    Waiting P since ip { s with limiter := s.limiter.setHits ip' ts } where
  tracked := tracks_setHits.mpr (Or.inr h.tracked)
  held t ht := by
    rw [hitsOf_setHits] at ht
    by_cases hip : ip' = ip
    · rw [if_pos hip, hts hip] at ht
      exact h.held t ht
    · rw [if_neg hip] at ht
      exact h.held t ht
  swept := h.swept

theorem Waiting.persistAndStamp (h : Waiting P since ip s) (ip' : Ip) :
    Waiting P since ip (persistAndStamp P b ip' now s) := by
  rw [RateLimit.persistAndStamp, persist]
  split
  · exact ⟨h.tracked, h.held, h.swept⟩
  · exact ⟨h.tracked, h.held, h.swept⟩

theorem Waiting.allowOver (h : Waiting P since ip s) (f : Raises) {ip' : Ip} (hother : ip' ≠ ip)
    (hnot : ip ∉ nominated P now s.limiter) : Waiting P since ip (allowOver P b f ip' now s).2 := by
  have hswept := h.sweepOver (b := b) f hnot
  obtain hout | ⟨ts, -, hout⟩ := allowOver_cases P b f ip' now s
  · rw [hout]
    exact hswept
  · have hset := hswept.setHits ts fun heq => absurd heq hother
    obtain hout | hout := hout
    · rw [hout]
      exact hset
    · rw [hout]
      exact hset.persistAndStamp ip'

/-- While its calls pass over the client, a limiter keeps its policy and the client waits. -/
theorem waiting_of_passesOver {R R' : Running} (h : Waiting R.policy since ip R.state)
    (hrun : Runs.Later (fun st R => some (R.next b st)) (Running.passesOver ip) R R') :
    R'.policy = R.policy ∧ Waiting R.policy since ip R'.state := by
  refine Runs.Later.invariant (I := fun R' => R'.policy = R.policy ∧ Waiting R.policy since ip R'.state)
    hrun ⟨rfl, h⟩ ?_
  rintro R₁ R₂ st ⟨hpolicy, hwaiting⟩ hpasses hstep
  obtain rfl := Option.some.inj hstep
  unfold Running.passesOver at hpasses
  rw [Bool.and_eq_true] at hpasses
  cases st with
  | allow ip' now f =>
      have hother := hpasses.2
      simp only [Bool.and_eq_true, decide_eq_true_eq, Bool.not_eq_true', List.contains_eq_mem,
        decide_eq_false_iff_not] at hother
      refine ⟨hpolicy, ?_⟩
      rw [hpolicy] at hother
      rw [Running.next, hpolicy]
      exact hwaiting.allowOver f hother.1 hother.2
  | retryAfterSec ip' now =>
      refine ⟨hpolicy, ?_⟩
      have hset : Waiting R.policy since ip
          { R₁.state with limiter := R₁.state.limiter.setHits ip' (R₁.state.limiter.hitsOf ip') } :=
        hwaiting.setHits _ fun heq => by rw [heq]
      rw [Running.next, RateLimit.retryAfterSec]
      split
      · exact hset
      · exact hset
  | restart P => cases hpasses.2

/-- The first request that comes two windows later nominates it. -/
theorem Waiting.nominated (h : Waiting P since ip s) (hnow : max 0 since + 2 * P.windowSeconds ≤ now) :
    ip ∈ nominated P now s.limiter := by
  have hpos := P.positive
  have hswept := h.swept
  have hdue : ¬ now - s.limiter.lastSweep < P.windowSeconds := by
    rw [not_lt]
    linarith
  rw [RateLimit.nominated, if_neg hdue, mem_staleIps h.tracked]
  intro t ht
  have hsince := h.held t ht
  have hmax := le_max_right 0 since
  rw [Policy.live, decide_eq_false_iff_not]
  linarith

/-! ### Whole runs -/

/-- **No row is orphaned.**  Whatever calls, restarts and exceptions of the backend led here:
every row has its client in memory; a client with a row that makes no more requests is
nominated by some request at the latest two windows from now, and its row goes if it has
run out and no statement raises; and no sweep deletes a row with a timestamp inside its own window. -/
theorem no_orphaned_row {b : Backend} {P : Policy} {rows : RateHits} {start : ℚ} {R : Running}
    (hrows : Written b rows start) (hreaches : Reaches b (built b P rows start) R) :
    (∀ r ∈ R.state.rateHits.rows, R.state.limiter.tracks r.ip) ∧
    (∀ r ∈ R.state.rateHits.rows, ∀ R',
      Runs.Later (fun st R => some (R.next b st)) (Running.passesOver r.ip) R R' →
      ∀ now, max 0 R.clock + 2 * R.policy.windowSeconds ≤ now →
        r.ip ∈ nominated R'.policy now R'.state.limiter ∧
        (0 < r.windowSeconds → r.lastSweep + r.windowSeconds ≤ now →
          r ∉ (sweepOver R'.policy b .never now R'.state).1.rateHits.rows)) ∧
    (∀ r ∈ R.state.rateHits.rows, ∀ f now, (∃ ts ∈ r.timestamps, ∃ t ∈ ts, now - t < r.windowSeconds) →
      r ∈ (sweepOver R.policy b f now R.state).1.rateHits.rows) := by
  have hsound := sound_of_reaches hrows hreaches
  refine ⟨hsound.tracked, ?_, ?_⟩
  · intro r hr R' hrun now hnow
    have hwaiting : Waiting R.policy R.clock r.ip R.state := by
      refine ⟨hsound.tracked r hr, hsound.held r.ip, ?_⟩
      have hswept := hsound.swept
      have hpos := R.policy.positive
      linarith
    obtain ⟨hpolicy, hwaits⟩ := waiting_of_passesOver hwaiting hrun
    rw [hpolicy]
    have hmem := hwaits.nominated hnow
    refine ⟨hmem, fun hpos hexpired => not_mem_sweepOver_of_expired ?_ hmem hpos hexpired⟩
    -- The calls in between are a run like any other.
    have hlater : Reaches b R R' := hrun.mono fun R₁ st hpasses => (Bool.and_eq_true_iff.mp hpasses).1
    exact (sound_of_reaches hrows (hreaches.trans hlater)).written.kept
  · intro r hr f now hlive
    exact mem_sweepOver_of_live hsound.written f hr hlive rfl

/-- Two requests over an empty table, the second with a backend that does not take its row. -/
def calledTwice : Running :=
  (((built .sqlite ⟨2, 10, by norm_num⟩ Table.empty 0).next .sqlite (.allow ['a'] 1 .never)).next .sqlite
    (.allow ['b'] 2 ⟨false, false, true⟩))

theorem no_orphaned_row_called :
    calledTwice.state.rateHits.rows.map RateHit.ip = [['a']] ∧
      ∀ r ∈ calledTwice.state.rateHits.rows, calledTwice.state.limiter.tracks r.ip := by
  have hrun : Runs.run (fun st R => some (R.next .sqlite st)) Running.timely
      [.allow ['a'] 1 .never, .allow ['b'] 2 ⟨false, false, true⟩]
      (built .sqlite ⟨2, 10, by norm_num⟩ Table.empty 0) = some calledTwice := by
    rw [Runs.run, if_pos (by decide +kernel), Option.bind_some, Runs.run, if_pos (by decide +kernel), Option.bind_some]
    rfl
  exact ⟨by decide +kernel, (no_orphaned_row (written_empty .sqlite 0) (Runs.Later.of_run hrun)).1⟩

end CyClaw.RateLimit

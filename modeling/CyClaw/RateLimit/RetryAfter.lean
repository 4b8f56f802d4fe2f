/-
What a Retry-After promises.

`allow` counts every hit inside the window, and `retry_after_sec` waits for the oldest of
them to leave it.  The two agree as long as the oldest is all that stands in the way: fewer
than `max_requests` of the hits are newer than it (`Fits`).  A limiter never takes in more
than that, but one that is built over rows of a larger limit holds more, and then its
client is told to come back too early.  `Fits` survives every call, so what decides is the
store a limiter starts with.
-/
import CyClaw.RateLimit.Orphans

namespace CyClaw.RateLimit

variable {P : Policy} {b : Backend} {now now' : ℚ} {s : State} {ip : Ip}

/-! ### What the calls answer -/

/-- What `retry_after_sec` returns.  With a limit that is not positive it gets to `min` of no
hits, which raises. -/
def retryAfterReturns (P : Policy) (ip : Ip) (now : ℚ) (s : State) : Option ℚ :=
  let recent := (s.limiter.hitsOf ip).filter (P.live now)
  if (recent.length : ℤ) < P.maxRequests then some 0
  else recent.min?.map fun oldest => max 0 (P.windowSeconds - (now - oldest))

theorem retryAfterSec_of_returns {r : ℚ} (h : retryAfterReturns P ip now s = some r) :
    (retryAfterSec P ip now s).1 = r := by
  unfold retryAfterReturns at h
  unfold retryAfterSec
  dsimp only at h ⊢
  split
  · rename_i hunder
    rw [if_pos hunder] at h
    exact Option.some.inj h
  · rename_i hfull
    rw [if_neg hfull, Option.map_eq_some_iff] at h
    obtain ⟨oldest, hmin, rfl⟩ := h
    rw [hmin]
    rfl

/-- The hits of a client that are inside the window. -/
def recentOf (P : Policy) (now : ℚ) (s : State) (ip : Ip) : List ℚ := (s.limiter.hitsOf ip).filter (P.live now)

theorem recentOf_sweep (P : Policy) (b : Backend) (now : ℚ) (s : State) (ip : Ip) :
    recentOf P now (sweep P b now s) ip = recentOf P now s ip := by
  unfold recentOf
  obtain hsame | ⟨hnil, hdead⟩ := (sweep_spec P b now s ip).1
  · rw [hsame]
  · rw [hnil, List.filter_nil, eq_comm, List.filter_eq_nil_iff]
    intro t ht
    rw [hdead t ht]
    exact Bool.false_ne_true

/-- **`allow` counts the hits inside the window.** -/
theorem allow_eq (P : Policy) (b : Backend) (ip : Ip) (now : ℚ) (s : State) :
    (allow P b ip now s).1 = decide ((recentOf P now s ip).length < P.maxRequests) := by
  have hrecent := recentOf_sweep P b now s ip
  unfold recentOf at hrecent ⊢
  unfold allow
  dsimp only
  rw [hrecent]
  by_cases hfull : P.maxRequests ≤ ((s.limiter.hitsOf ip).filter (P.live now)).length
  · rw [if_pos hfull, decide_eq_false (not_lt.mpr hfull)]
    split <;> rfl
  · rw [if_neg hfull, decide_eq_true (not_le.mp hfull)]

/-- A request that is turned away leaves the hits inside the window. -/
theorem hitsOf_of_rejected (h : (allow P b ip now s).1 = false) :
    (allow P b ip now s).2.limiter.hitsOf ip = recentOf P now s ip := by
  have hfull := h
  rw [allow_eq, decide_eq_false_iff_not, not_lt] at hfull
  have hrecent := recentOf_sweep P b now s ip
  unfold recentOf at hrecent hfull ⊢
  unfold allow
  dsimp only
  rw [hrecent, if_pos hfull]
  split
  · rw [hitsOf_persistAndStamp, hitsOf_setHits, if_pos rfl]
  · rw [hitsOf_setHits, if_pos rfl]

theorem hitsOf_retryAfterSec (P : Policy) (ip ip' : Ip) (now : ℚ) (s : State) :
    (retryAfterSec P ip now s).2.limiter.hitsOf ip' = s.limiter.hitsOf ip' := by
  have hset : (s.limiter.setHits ip (s.limiter.hitsOf ip)).hitsOf ip' = s.limiter.hitsOf ip' := by
    rw [hitsOf_setHits]
    by_cases hip : ip = ip'
    · rw [if_pos hip, hip]
    · rw [if_neg hip]
  rw [retryAfterSec]
  split
  · exact hset
  · exact hset

/-! ### The promise and the condition -/

/-- After a request is turned away and a delay is returned, a request after the delay is let in,
and one before it is not. -/
def Honest (P : Policy) (b : Backend) (now : ℚ) (s : State) (ip : Ip) : Prop :=
  ∀ t₀ t₁ r, now ≤ t₀ → t₀ ≤ t₁ → (allow P b ip t₀ s).1 = false →
    retryAfterReturns P ip t₁ (allow P b ip t₀ s).2 = some r →
    ∀ t₂, t₁ ≤ t₂ →
      (t₁ + r ≤ t₂ → (allow P b ip t₂ (retryAfterSec P ip t₁ (allow P b ip t₀ s).2).2).1 = true) ∧
      (t₁ < t₂ → t₂ < t₁ + r → (allow P b ip t₂ (retryAfterSec P ip t₁ (allow P b ip t₀ s).2).2).1 = false)

/-- The hits that are newer than some other. -/
def newer (ts : List ℚ) : List ℚ := ts.filter fun t => ts.any fun u => u < t

/-- Fewer hits than the limit are newer than the oldest inside the window, if there is one. -/
def Fits (P : Policy) (now : ℚ) (s : State) (ip : Ip) : Prop :=
  recentOf P now s ip ≠ [] → (newer (recentOf P now s ip)).length < P.maxRequests

theorem recentOf_later (hle : now ≤ now') : (recentOf P now s ip).filter (P.live now') = recentOf P now' s ip := by
  rw [recentOf, recentOf, List.filter_filter]
  refine List.filter_congr fun t _ => ?_
  cases hlive : P.live now' t with
  | false => rfl
  | true => rw [live_of_later hle hlive]; rfl

theorem newer_eq_filter {ts : List ℚ} {oldest : ℚ} (h : ts.min? = some oldest) :
    newer ts = ts.filter fun t => oldest < t := by
  obtain ⟨hmem, hle⟩ := List.min?_eq_some_iff.mp h
  refine List.filter_congr fun t _ => ?_
  rw [Bool.eq_iff_iff, List.any_eq_true, decide_eq_true_eq]
  constructor
  · rintro ⟨u, hu, hut⟩
    exact (hle u hu).trans_lt (by simpa using hut)
  · intro hlt
    exact ⟨oldest, hmem, by simpa using hlt⟩

/-- When the oldest hit has just left the window, the newer ones are what is left. -/
theorem recentOf_expiry {oldest t₂ : ℚ} (h : (recentOf P now s ip).min? = some oldest) (hle : now ≤ t₂)
    (hexpired : P.windowSeconds + oldest ≤ t₂) :
    (recentOf P t₂ s ip).length ≤ (newer (recentOf P now s ip)).length := by
  rw [newer_eq_filter h, ← recentOf_later hle]
  refine List.Sublist.length_le (List.monotone_filter_right _ ?_)
  intro t hlive
  rw [Policy.live, decide_eq_true_eq] at hlive
  rw [decide_eq_true_eq]
  linarith

theorem retryAfterReturns_eq_some {r : ℚ} (h : retryAfterReturns P ip now s = some r) :
    (recentOf P now s ip).length < P.maxRequests ∧ r = 0 ∨
      P.maxRequests ≤ (recentOf P now s ip).length ∧ ∃ oldest, (recentOf P now s ip).min? = some oldest ∧
        r = P.windowSeconds - (now - oldest) := by
  unfold retryAfterReturns at h
  dsimp only at h
  rw [← recentOf] at h
  by_cases hunder : ((recentOf P now s ip).length : ℤ) < P.maxRequests
  · rw [if_pos hunder] at h
    exact Or.inl ⟨hunder, (Option.some.inj h).symm⟩
  · rw [if_neg hunder, Option.map_eq_some_iff] at h
    obtain ⟨oldest, hmin, hr⟩ := h
    refine Or.inr ⟨not_lt.mp hunder, oldest, hmin, ?_⟩
    -- A hit inside the window leaves it later than now.
    have hlive := (List.mem_filter.mp (List.min?_eq_some_iff.mp hmin).1).2
    rw [Policy.live, decide_eq_true_eq] at hlive
    rw [← hr]
    exact max_eq_right (by linarith)

theorem recentOf_of_rejected {t₀ t : ℚ} (h : (allow P b ip t₀ s).1 = false) (hle : t₀ ≤ t) :
    recentOf P t (allow P b ip t₀ s).2 ip = recentOf P t s ip := by
  rw [recentOf, hitsOf_of_rejected h, recentOf_later hle]

/-- The request after the delay is decided by the hits that were there before. -/
theorem allow_after {t₀ t₁ t₂ : ℚ} (h : (allow P b ip t₀ s).1 = false) (h₁ : t₀ ≤ t₁) (h₂ : t₁ ≤ t₂) :
    (allow P b ip t₂ (retryAfterSec P ip t₁ (allow P b ip t₀ s).2).2).1 =
      decide ((recentOf P t₂ s ip).length < P.maxRequests) := by
  rw [allow_eq, recentOf, hitsOf_retryAfterSec, ← recentOf, recentOf_of_rejected h (h₁.trans h₂)]

theorem newer_filter_le (p : ℚ → Bool) (ts : List ℚ) : (newer (ts.filter p)).length ≤ (newer ts).length := by
  unfold newer
  rw [List.filter_filter]
  refine List.Sublist.length_le (List.monotone_filter_right _ ?_)
  intro t ht
  rw [Bool.and_eq_true, List.any_eq_true] at ht
  obtain ⟨⟨u, hu, hut⟩, -⟩ := ht
  exact List.any_eq_true.mpr ⟨u, (List.mem_filter.mp hu).1, hut⟩

theorem Fits.later (h : Fits P now s ip) (hle : now ≤ now') : Fits P now' s ip := by
  intro hsome
  rw [← recentOf_later hle] at hsome ⊢
  have hlength := newer_filter_le (P.live now') (recentOf P now s ip)
  have hfits := h (fun hnil => hsome (by rw [hnil]; rfl))
  omega

/-- **The promise is kept from a state on just when the state fits.** -/
theorem honest_iff_fits : Honest P b now s ip ↔ Fits P now s ip := by
  constructor
  · intro h hsome
    by_contra hcrowd
    rw [not_lt] at hcrowd
    have hfull : P.maxRequests ≤ (recentOf P now s ip).length := by
      have hlength : (newer (recentOf P now s ip)).length ≤ (recentOf P now s ip).length := List.length_filter_le _ _
      omega
    have hrejected : (allow P b ip now s).1 = false := by
      rw [allow_eq, decide_eq_false (not_lt.mpr hfull)]
    obtain ⟨oldest, hmin⟩ := Option.isSome_iff_exists.mp (List.isSome_min?_of_ne_nil hsome)
    have hlive := (List.mem_filter.mp (List.min?_eq_some_iff.mp hmin).1).2
    rw [Policy.live, decide_eq_true_eq] at hlive
    have hreturns : retryAfterReturns P ip now (allow P b ip now s).2 =
        some (max 0 (P.windowSeconds - (now - oldest))) := by
      unfold retryAfterReturns
      dsimp only
      rw [← recentOf, recentOf_of_rejected hrejected le_rfl, if_neg (not_lt.mpr hfull), hmin]
      rfl
    -- The oldest hit is gone, and the newer ones are still too many.
    have hafter := (h now now _ le_rfl le_rfl hrejected hreturns (P.windowSeconds + oldest) (by linarith)).1
      (by rw [max_eq_right (by linarith)]; linarith)
    rw [allow_after hrejected le_rfl (by linarith), decide_eq_true_eq,
      ← recentOf_later (by linarith : now ≤ _)] at hafter
    rw [newer_eq_filter hmin] at hcrowd
    have hsame : (recentOf P now s ip).filter (P.live (P.windowSeconds + oldest)) =
        (recentOf P now s ip).filter fun t => oldest < t := by
      refine List.filter_congr fun t _ => ?_
      rw [Policy.live, decide_eq_decide]
      constructor
      · intro hlt
        linarith
      · intro hlt
        linarith
    rw [hsame] at hafter
    omega
  · intro h t₀ t₁ r h₀ h₁ hrejected hreturns t₂ h₂
    rw [allow_after hrejected h₁ h₂]
    have hrecent := recentOf_of_rejected hrejected h₁
    obtain ⟨hunder, rfl⟩ | ⟨hfull, oldest, hmin, rfl⟩ := retryAfterReturns_eq_some hreturns
    · refine ⟨fun _ => ?_, fun hlt hlt' => ?_⟩
      · rw [hrecent] at hunder
        rw [decide_eq_true_eq, ← recentOf_later h₂]
        have hlength := List.length_filter_le (P.live t₂) (recentOf P t₁ s ip)
        omega
      · linarith
    · rw [hrecent] at hfull hmin
      refine ⟨fun hafter => ?_, fun _ hbefore => ?_⟩
      · have hexpired := recentOf_expiry hmin h₂ (by linarith)
        have hnonempty : recentOf P t₁ s ip ≠ [] := List.ne_nil_of_mem (List.min?_eq_some_iff.mp hmin).1
        have hfits := h.later (h₀.trans h₁) hnonempty
        rw [decide_eq_true_eq]
        omega
      · -- No hit leaves the window before the oldest one.
        have hsame : (recentOf P t₁ s ip).filter (P.live t₂) = recentOf P t₁ s ip := by
          rw [List.filter_eq_self]
          intro t ht
          have hle := (List.min?_eq_some_iff.mp hmin).2 t ht
          rw [Policy.live, decide_eq_true_eq]
          linarith
        rw [decide_eq_false_iff_not, not_lt, ← recentOf_later h₂, hsame]
        exact hfull

/-! ### The condition along a run -/

theorem recentOf_sweepOver (P : Policy) (b : Backend) (f : Raises) (now : ℚ) (s : State) (ip : Ip) :
    recentOf P now (sweepOver P b f now s).1 ip = recentOf P now s ip := by
  obtain ⟨gone, hswept⟩ := sweepOver_swept P b f now s
  unfold recentOf
  rw [hswept.limiter]
  by_cases hgone : ip ∈ gone
  · -- What a sweep lets go of has nothing inside the window.
    have hmem := (hswept.gone ip hgone).1
    rw [nominated] at hmem
    split at hmem
    · cases hmem
    · have hdead := stale_of_mem hmem
      have hnone : ∀ t ∈ s.limiter.hitsOf ip, ¬ P.live now t = true := by
        intro t ht
        rw [hdead t ht]
        exact Bool.false_ne_true
      rw [List.filter_eq_nil_iff.mpr hnone, List.filter_eq_nil_iff]
      intro t ht
      exact hnone t (mem_hitsOf_evict ht)
  · rw [hitsOf_evict hgone]
    rfl

/-- A hit that is let in leaves the oldest where it is. -/
theorem newer_length_lt {ts : List ℚ} (h : ts ≠ []) : (newer ts).length < ts.length := by
  obtain ⟨oldest, hmin⟩ := Option.isSome_iff_exists.mp (List.isSome_min?_of_ne_nil h)
  rw [newer_eq_filter hmin, List.length_filter_lt_length_iff_exists]
  exact ⟨oldest, (List.min?_eq_some_iff.mp hmin).1, by simp⟩

/-- What a limiter holds of a client after a call at this time. -/
theorem Fits.setHits {ts : List ℚ} {ip' : Ip} (h : Fits P now s ip')
    (hts : ts = recentOf P now s ip ∨ ts = recentOf P now s ip ++ [now] ∧ (recentOf P now s ip).length < P.maxRequests) :
    Fits P now { s with limiter := s.limiter.setHits ip ts } ip' := by
  by_cases hip : ip = ip'
  · rw [← hip] at h ⊢
    have hrecent : recentOf P now { s with limiter := s.limiter.setHits ip ts } ip = ts.filter (P.live now) := by
      rw [recentOf, hitsOf_setHits, if_pos rfl]
    rw [Fits, hrecent]
    obtain rfl | ⟨rfl, hroom⟩ := hts
    · rw [recentOf_later le_rfl]
      exact h
    · have hlive : P.live now now = true := by
        rw [Policy.live, decide_eq_true_eq, sub_self]
        exact P.positive
      rw [List.filter_append, recentOf_later le_rfl, List.filter_singleton, hlive, Bool.cond_true]
      intro hsome
      have hlength := newer_length_lt hsome
      rw [List.length_append, List.length_singleton] at hlength
      omega
  · have hrecent : recentOf P now { s with limiter := s.limiter.setHits ip ts } ip' = recentOf P now s ip' := by
      rw [recentOf, hitsOf_setHits, if_neg hip, recentOf]
    rw [Fits, hrecent]
    exact h

theorem Fits.allowOver {f : Raises} {ip' : Ip} (h : Fits P now s ip') : Fits P now (allowOver P b f ip now s).2 ip' := by
  have hswept : Fits P now (sweepOver P b f now s).1 ip' := by
    rw [Fits, recentOf_sweepOver]
    exact h
  obtain hout | ⟨ts, hts, hout⟩ := allowOver_cases P b f ip now s
  · rw [hout]
    exact hswept
  · have hset := hswept.setHits hts
    obtain hout | hout := hout
    · rw [hout]
      exact hset
    · rw [hout, Fits, recentOf, hitsOf_persistAndStamp]
      exact hset

theorem fits_of_calls {R R' : Running} (h : Calls b R R') (hfits : ∀ ip, Fits R.policy R.clock R.state ip) :
    R'.policy = R.policy ∧ ∀ ip, Fits R.policy R'.clock R'.state ip := by
  refine Runs.Later.invariant (I := fun R' => R'.policy = R.policy ∧ ∀ ip, Fits R.policy R'.clock R'.state ip)
    h ⟨rfl, hfits⟩ ?_
  rintro R₁ R₂ st ⟨hpolicy, hkept⟩ hcalls hstep
  obtain rfl := Option.some.inj hstep
  rw [Bool.and_eq_true] at hcalls
  cases st with
  | allow ip now f =>
      have hle : R₁.clock ≤ now := by simpa [Running.timely, Step.clock] using hcalls.1
      refine ⟨hpolicy, fun ip' => ?_⟩
      rw [Running.next, hpolicy]
      exact ((hkept ip').later hle).allowOver
  | retryAfterSec ip now =>
      have hle : R₁.clock ≤ now := by simpa [Running.timely, Step.clock] using hcalls.1
      refine ⟨hpolicy, fun ip' => ?_⟩
      rw [Fits, recentOf, Running.next, hitsOf_retryAfterSec]
      exact (hkept ip').later hle
  | restart P => cases hcalls.2

/-- **Retry-After is honest for as long as a limiter runs just when, for every client, fewer than
its limit of the hits it holds inside the window are newer than the oldest of them.** -/
theorem retry_after_honest_iff (b : Backend) (R : Running) :
    (∀ R', Calls b R R' → ∀ ip, Honest R'.policy b R'.clock R'.state ip) ↔
      ∀ ip, Fits R.policy R.clock R.state ip := by
  constructor
  · intro h ip
    exact honest_iff_fits.mp (h R Relation.ReflTransGen.refl ip)
  · intro hfits R' hcalls ip
    obtain ⟨hpolicy, hkept⟩ := fits_of_calls hcalls hfits
    rw [hpolicy]
    exact honest_iff_fits.mpr (hkept ip)

theorem ten_pos : (0 : ℚ) < 10 := by norm_num

/-- What a limiter of three requests leaves in its store after three of them. -/
def threeRequests : RateHits :=
  ((((built .sqlite ⟨3, 10, ten_pos⟩ Table.empty 0).next .sqlite (.allow ['a'] 1 .never)).next .sqlite
    (.allow ['a'] 2 .never)).next .sqlite (.allow ['a'] 3 .never)).state.rateHits

/-- Loaded under a limit of one, the client is told to come back in seven seconds and is turned
away again. -/
theorem dishonest_under_smaller_limit :
    ¬ Honest ⟨1, 10, by norm_num⟩ .sqlite 3 (built .sqlite ⟨1, 10, by norm_num⟩ threeRequests 3).state ['a'] := by
  intro h
  have hafter := (h 4 4 7 (by norm_num) le_rfl (by decide +kernel) (by decide +kernel) 11 (by norm_num)).1
    (by norm_num)
  have hrejected : (allow ⟨1, 10, by norm_num⟩ .sqlite ['a'] 11 (retryAfterSec ⟨1, 10, by norm_num⟩ ['a'] 4
      (allow ⟨1, 10, by norm_num⟩ .sqlite ['a'] 4
        (built .sqlite ⟨1, 10, by norm_num⟩ threeRequests 3).state).2).2).1 = false := by decide +kernel
  rw [hrejected] at hafter
  cases hafter

end CyClaw.RateLimit

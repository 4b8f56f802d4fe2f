/-
When the directory locks exclude.

The lock directory that stands is the one its holder has made (`Sound.held`).  Everything but
`shutil.rmtree` keeps that: a directory is made only where there is none, and a release takes
away its own.  A reclaimer takes away what it has judged some steps ago, so it is here that
the two locks differ.

Behind the guard there is one reclaimer at a time, and a token that names a dead process
stays what it was until that reclaimer removes it (`Sound.doomed`).  A token that was missing
proves nothing of the kind: the owner may just be releasing the lock, or a new one taking it.
Without the guard nothing holds either way.  `spares` admits the runs in which no reclaimer
that goes by so little removes the lock of a live holder, and in these runs the callers are
apart (`dirLock_apart`).
-/
import CyClaw.Locks.LockDir

namespace CyClaw.Locks

variable {κ : Type} [DecidableEq κ] {scheme : Scheme} {pidOf : κ → ℕ} {w w' : LockWorld κ} {k : κ} {ph : Phase}

/-- A removal would take the lock of a caller that counts on it. -/
def hitsHolder (w : LockWorld κ) : Bool := w.lock.any fun d => d.token.isNone && (w.phase d.maker).holding

/-- No reclaimer removes the lock of a holder, but for one that has read the token of a dead
process behind the guard: of that one nothing is asked. -/
def spares (scheme : Scheme) (w : LockWorld κ) : LockEvent κ → Bool
  | .go k =>
      match w.phase k with
      | .removing found => scheme = .registry && found || !hitsHolder w
      | _ => true
  | _ => true

/-- What the locks rest on. -/
structure Sound (scheme : Scheme) (pidOf : κ → ℕ) (w : LockWorld κ) : Prop where
  held : ∀ k, (w.phase k).holding = true → w.lock.map (·.maker) = some k
  live : ∀ k, w.phase k ≠ .idle → w.alive (pidOf k) = true
  named : ∀ d p, w.lock = some d → (w.phase d.maker).holding = true → d.token = some p → p = pidOf d.maker
  guarded : scheme = .registry → ∀ k, (w.phase k).guarded = true → w.guard = some k
  doomed : scheme = .registry → ∀ k, (w.phase k).sure = true →
    ∃ d, w.lock = some d ∧ (w.phase d.maker).holding = false

omit [DecidableEq κ] in
/-- At most one caller holds the lock. -/
theorem Sound.exclusive (h : Sound scheme pidOf w) {k k' : κ} (hk : (w.phase k).holding = true)
    (hk' : (w.phase k').holding = true) : k = k' :=
  Option.some.inj ((h.held k hk).symm.trans (h.held k' hk'))

theorem holding_of_within (h : ph.within = true) : ph.holding = true := by
  cases ph <;> first | rfl | cases h

/-- Nobody is at work, whatever lock directory an earlier crash has left behind. -/
def Quiet (w : LockWorld κ) : Prop := ∀ k, w.phase k = .idle

omit [DecidableEq κ] in
theorem Quiet.sound (h : Quiet w) : Sound scheme pidOf w := by
  have hidle : ∀ (P : Phase → Bool), P .idle = false → ∀ k, P (w.phase k) ≠ true := by
    intro P hP k
    rw [h k, hP]
    nofun
  refine ⟨?_, ?_, ?_, ?_, ?_⟩
  · exact fun k hk => absurd hk (hidle Phase.holding rfl k)
  · exact fun k hk => absurd (h k) hk
  · exact fun d _ _ hk => absurd hk (hidle Phase.holding rfl d.maker)
  · exact fun _ k hk => absurd hk (hidle Phase.guarded rfl k)
  · exact fun _ k hk => absurd hk (hidle Phase.sure rfl k)

/-! ### What each operation keeps -/

namespace Sound

theorem live_moved (h : Sound scheme pidOf w) (hlive : w.alive (pidOf k) = true) (ph : Phase) :
    ∀ k', Function.update w.phase k ph k' ≠ .idle → w.alive (pidOf k') = true :=
  (Function.forall_update_iff w.phase fun k' x => x ≠ .idle → w.alive (pidOf k') = true).mpr
    ⟨fun _ => hlive, fun k' _ => h.live k'⟩

theorem guarded_moved (h : Sound scheme pidOf w)
    (hguard : scheme = .registry → ph.guarded = true → (w.phase k).guarded = true) :
    scheme = .registry → ∀ k', (Function.update w.phase k ph k').guarded = true → w.guard = some k' :=
  fun hreg => (Function.forall_update_iff w.phase fun k' x => x.guarded = true → w.guard = some k').mpr
    ⟨fun hph => h.guarded hreg k (hguard hreg hph), fun k' _ => h.guarded hreg k'⟩

/-- A caller moves on, with the guard perhaps made or removed. -/
theorem regarded (h : Sound scheme pidOf w) (hlive : w.alive (pidOf k) = true)
    (hheld : ph.holding = true → (w.phase k).holding = true) {guard : Option κ}
    (hown : scheme = .registry → ph.guarded = true → guard = some k)
    (hothers : scheme = .registry → ∀ k', k' ≠ k → (w.phase k').guarded = true → guard = some k')
    (hsure : scheme = .registry → ph.sure = true →
      ∃ d, w.lock = some d ∧ (w.phase d.maker).holding = false) :
    Sound scheme pidOf ({ w with guard }.moved k ph) := by
  have hphase : ∀ k', (Function.update w.phase k ph k').holding = true → (w.phase k').holding = true :=
    (Function.forall_update_iff w.phase fun k' x => x.holding = true → (w.phase k').holding = true).mpr
      ⟨hheld, fun _ _ => id⟩
  refine ⟨fun k' hk' => h.held k' (hphase k' hk'), h.live_moved hlive ph,
    fun d p hd hmaker => h.named d p hd (hphase _ hmaker), ?_, ?_⟩
  · intro hreg
    exact (Function.forall_update_iff w.phase fun k' x => x.guarded = true → guard = some k').mpr
      ⟨hown hreg, hothers hreg⟩
  · intro hreg k' hk'
    have hd : ∃ d, w.lock = some d ∧ (w.phase d.maker).holding = false :=
      (Function.forall_update_iff w.phase fun _ x => x.sure = true →
        ∃ d, w.lock = some d ∧ (w.phase d.maker).holding = false).mpr
          ⟨hsure hreg, fun k' _ => h.doomed hreg k'⟩ k' hk'
    obtain ⟨d, hlock, hcold⟩ := hd
    refine ⟨d, hlock, ?_⟩
    by_contra hwarm
    rw [Bool.not_eq_false] at hwarm
    rw [hphase _ hwarm] at hcold
    cases hcold

/-- A caller moves on, without a claim it did not have. -/
theorem moved (h : Sound scheme pidOf w) (hlive : w.alive (pidOf k) = true)
    (hheld : ph.holding = true → (w.phase k).holding = true)
    (hguard : scheme = .registry → ph.guarded = true → (w.phase k).guarded = true)
    (hsure : scheme = .registry → ph.sure = true →
      ∃ d, w.lock = some d ∧ (w.phase d.maker).holding = false) : Sound scheme pidOf (w.moved k ph) :=
  h.regarded hlive hheld (fun hreg hph => h.guarded hreg k (hguard hreg hph)) (fun hreg k' _ => h.guarded hreg k')
    hsure

theorem mkdirLock (h : Sound scheme pidOf w) (hlock : w.lock = none) (hlive : w.alive (pidOf k) = true) {reclaimed : Bool}
    (hguard : scheme = .registry → (Phase.signing reclaimed).guarded = true → (w.phase k).guarded = true) :
    Sound scheme pidOf ((w.mkdirLock k).moved k (.signing reclaimed)) := by
  -- Where no lock stands, nobody holds one, and no reclaimer has one to remove.
  refine ⟨?_, h.live_moved hlive _, ?_, h.guarded_moved hguard, ?_⟩
  · refine (Function.forall_update_iff w.phase fun k' x => x.holding = true → some k = some k').mpr
      ⟨fun _ => rfl, ?_⟩
    intro k' _ hk'
    have hheld := h.held k' hk'
    rw [hlock] at hheld
    cases hheld
  · intro d p hd _ htoken
    cases hd
    cases htoken
  · intro hreg
    refine (Function.forall_update_iff w.phase fun _ x => x.sure = true → _).mpr ⟨by nofun, ?_⟩
    intro k' _ hk'
    obtain ⟨d, hd, -⟩ := h.doomed hreg k' hk'
    rw [hlock] at hd
    cases hd

omit [DecidableEq κ] in
/-- Writing or removing the token leaves the directory to its maker. -/
theorem retoken (h : Sound scheme pidOf w) {f : LockDir κ → LockDir κ} (hmaker : ∀ d, (f d).maker = d.maker)
    (htoken : ∀ d p, w.lock = some d → (w.phase d.maker).holding = true → (f d).token = some p → p = pidOf d.maker) :
    Sound scheme pidOf { w with lock := w.lock.map f } := by
  refine ⟨?_, h.live, ?_, h.guarded, ?_⟩
  · intro k hk
    rw [← h.held k hk, Option.map_map]
    exact congrArg (w.lock.map ·) (funext hmaker)
  · intro d p hd hhold hp
    obtain ⟨d₀, hd₀, rfl⟩ := Option.map_eq_some_iff.mp hd
    rw [hmaker] at hhold ⊢
    exact htoken d₀ p hd₀ hhold hp
  · intro hreg k hk
    obtain ⟨d, hd, hcold⟩ := h.doomed hreg k hk
    exact ⟨f d, by rw [hd]; rfl, by rw [hmaker]; exact hcold⟩

omit [DecidableEq κ] in
theorem dropToken (h : Sound scheme pidOf w) : Sound scheme pidOf w.dropToken :=
  h.retoken (fun _ => rfl) (by nofun)

omit [DecidableEq κ] in
theorem putToken (h : Sound scheme pidOf w) (hk : (w.phase k).holding = true) :
    Sound scheme pidOf (w.putToken (pidOf k)) := by
  refine h.retoken (fun _ => rfl) ?_
  intro d p hd _ hp
  -- The directory at hand is the caller's own.
  have hmaker := h.held k hk
  rw [hd, Option.map_some, Option.some.injEq] at hmaker
  rw [hmaker]
  exact (Option.some.inj hp).symm

/-- The directory goes, and no other caller counts on it. -/
theorem unlocked (h : Sound scheme pidOf w) (hlive : w.alive (pidOf k) = true)
    (hothers : ∀ k', k' ≠ k → (w.phase k').holding = false)
    (hsure : scheme = .registry → ∀ k', k' ≠ k → (w.phase k').sure = false)
    (hheld : ph.holding = false) (hguard : scheme = .registry → ph.guarded = true → (w.phase k).guarded = true)
    (hcalm : ph.sure = false) : Sound scheme pidOf ({ w with lock := none }.moved k ph) := by
  refine ⟨?_, h.live_moved hlive ph, by nofun, h.guarded_moved hguard, ?_⟩
  · refine (Function.forall_update_iff w.phase fun k' x => x.holding = true → _).mpr ⟨?_, ?_⟩
    · rw [hheld]
      nofun
    · intro k' hne
      rw [hothers k' hne]
      nofun
  · intro hreg
    refine (Function.forall_update_iff w.phase fun _ x => x.sure = true → _).mpr ⟨?_, ?_⟩
    · rw [hcalm]
      nofun
    · intro k' hne
      rw [hsure hreg k' hne]
      nofun

omit [DecidableEq κ] in
/-- The token of a dead process is not a holder's. -/
theorem cold_of_dead (h : Sound scheme pidOf w) {d : LockDir κ} {pid : ℕ} (hd : w.lock = some d)
    (htoken : d.token = some pid) (hdead : w.alive pid = false) : (w.phase d.maker).holding = false := by
  by_contra hwarm
  rw [Bool.not_eq_false] at hwarm
  have hlive := h.live d.maker (by rintro hidle; rw [hidle] at hwarm; cases hwarm)
  rw [← h.named d pid hd hwarm htoken, hdead] at hlive
  cases hlive

theorem judged (h : Sound scheme pidOf w) {age : ℚ} (hph : w.phase k = .judging age) (token : Option ℕ)
    (htoken : token = none ∨ token = readLockToken w.lock) :
    Sound scheme pidOf (w.moved k (judged scheme w age token)) := by
  have hlive : w.alive (pidOf k) = true := h.live k (by rw [hph]; nofun)
  unfold Locks.judged
  split
  · rename_i hreclaim
    refine h.moved hlive (by nofun) (fun _ _ => by rw [hph]; rfl) ?_
    intro _ hsure
    cases token with
    | none => cases hsure
    | some pid =>
        obtain ⟨d, hd, hpid⟩ := Option.bind_eq_some_iff.mp (htoken.resolve_left (by nofun)).symm
        refine ⟨d, hd, h.cold_of_dead hd hpid ?_⟩
        unfold canReclaimLock at hreclaim
        split at hreclaim
        · cases hreclaim
        · simpa using hreclaim
  · cases scheme with
    | artifact => exact h.moved hlive (by nofun) (by nofun) (by nofun)
    | registry => exact h.moved hlive (by nofun) (fun _ _ => by rw [hph]; rfl) (by nofun)

omit [DecidableEq κ] in
/-- Where the maker of the lock no longer counts on it, nobody does. -/
theorem cold_others (h : Sound scheme pidOf w) {d : LockDir κ} (hd : w.lock = some d)
    (hcold : (w.phase d.maker).holding = false) (k' : κ) : (w.phase k').holding = false := by
  by_contra hwarm
  rw [Bool.not_eq_false] at hwarm
  have hmaker := h.held k' hwarm
  rw [hd, Option.map_some, Option.some.injEq] at hmaker
  rw [hmaker, hwarm] at hcold
  cases hcold

theorem guarded_of_sure (h : ph.sure = true) : ph.guarded = true := by
  cases ph <;> first | rfl | cases h

/-- A reclaimer removes a lock its maker does not count on. -/
theorem removed (h : Sound scheme pidOf w) {found : Bool} (hph : w.phase k = .removing found) {d : LockDir κ}
    (hd : w.lock = some d) (hcold : (w.phase d.maker).holding = false) :
    Sound scheme pidOf ({ w with lock := none }.moved k .remaking) := by
  have hguard : (w.phase k).guarded = true := by rw [hph]; rfl
  refine h.unlocked (h.live k (by rw [hph]; nofun)) (fun k' _ => h.cold_others hd hcold k') ?_ rfl (fun _ _ => hguard) rfl
  -- There is one guard, so no other reclaimer.
  intro hreg k' hne
  by_contra hsure
  rw [Bool.not_eq_false] at hsure
  have hboth := (h.guarded hreg k' (guarded_of_sure hsure)).symm.trans (h.guarded hreg k hguard)
  exact hne (Option.some.inj hboth)

/-- A release removes its own directory, if it removes one. -/
theorem rmdirLock (h : Sound scheme pidOf w) (hph : w.phase k = .leaving) :
    Sound scheme pidOf (w.rmdirLock.moved k .idle) := by
  have hlive : w.alive (pidOf k) = true := h.live k (by rw [hph]; nofun)
  have hhold : (w.phase k).holding = true := by rw [hph]; rfl
  obtain ⟨d, hd, hmaker⟩ := Option.map_eq_some_iff.mp (h.held k hhold)
  unfold LockWorld.rmdirLock
  rw [hd, Option.filter_some]
  split
  · rw [← hd]
    exact h.moved hlive (by nofun) (by nofun) (by nofun)
  · refine h.unlocked hlive ?_ ?_ rfl (by nofun) rfl
    · intro k' hne
      by_contra hwarm
      rw [Bool.not_eq_false] at hwarm
      exact hne (h.exclusive hwarm hhold)
    · intro hreg k' _
      by_contra hsure
      rw [Bool.not_eq_false] at hsure
      obtain ⟨d', hd', hcold⟩ := h.doomed hreg k' hsure
      rw [hd, Option.some.injEq] at hd'
      rw [← hd', hmaker, hhold] at hcold
      cases hcold

/-- A reclaimer goes on, or gives up, with the guard. -/
theorem reclaiming (h : Sound scheme pidOf w) (hguard : (w.phase k).guarded = true) (hheld : ph.holding = false)
    (hcalm : ph.sure = false) : Sound scheme pidOf (w.moved k ph) := by
  refine h.moved (h.live k ?_) ?_ (fun _ _ => hguard) ?_
  · intro hidle
    rw [hidle] at hguard
    cases hguard
  · rw [hheld]
    nofun
  · rw [hcalm]
    nofun

theorem signing (h : Sound scheme pidOf w) {reclaimed : Bool} (hph : w.phase k = .signing reclaimed) :
    Sound scheme pidOf (w.moved k (signed scheme reclaimed)) := by
  refine h.moved (h.live k (by rw [hph]; nofun)) (fun _ => by rw [hph]; rfl) ?_ ?_
  · intro hreg hguard
    rw [hph]
    cases reclaimed with
    | false =>
        rw [signed, if_neg (by nofun)] at hguard
        cases hguard
    | true => rfl
  · intro _ hsure
    unfold signed at hsure
    split at hsure <;> cases hsure

/-- The reclaimer is done with the guard, whether or not it can remove it. -/
theorem unguarding (h : Sound scheme pidOf w) {won : Bool} (hph : w.phase k = .unguarding won) {guard : Option κ}
    (hothers : scheme = .registry → ∀ k', k' ≠ k → (w.phase k').guarded = true → guard = some k') :
    Sound scheme pidOf ({ w with guard }.moved k (unguarded won)) := by
  refine h.regarded (h.live k (by rw [hph]; nofun)) ?_ ?_ hothers ?_
  · intro hhold
    rw [hph]
    cases won with
    | false => cases hhold
    | true => rfl
  · intro _ hguard
    cases won <;> cases hguard
  · intro _ hsure
    cases won <;> cases hsure

end Sound

/-! ### Every step -/

section Steps

theorem go_sound (h : Sound scheme pidOf w) (hallow : spares scheme w (.go k) = true)
    (hgo : go scheme pidOf k w = some w') : Sound scheme pidOf w' := by
  have hlive : w.alive (pidOf k) = true := by
    refine h.live k ?_
    intro hidle
    unfold go at hgo
    rw [hidle] at hgo
    cases hgo
  unfold go at hgo
  split at hgo
  all_goals try rw [Option.some.injEq] at hgo
  all_goals try rw [← hgo]
  · rename_i hph hlock
    exact h.mkdirLock hlock hlive (by nofun)
  · cases scheme with
    | artifact => exact h.moved hlive (by nofun) (by nofun) (by nofun)
    | registry => exact h.moved hlive (by nofun) (by nofun) (by nofun)
  · split
    · rename_i hfree
      refine h.regarded hlive (by nofun) (fun _ _ => rfl) ?_ (by nofun)
      intro hreg k' _ hk'
      rw [h.guarded hreg k' hk'] at hfree
      cases hfree
    · exact h.moved hlive (by nofun) (by nofun) (by nofun)
  · rename_i hph hlock
    refine h.reclaiming (by rw [hph]; rfl) ?_ ?_ <;> cases scheme <;> rfl
  · rename_i hph hlock
    exact h.reclaiming (by rw [hph]; rfl) rfl rfl
  · rename_i hph
    exact h.judged hph _ (.inr rfl)
  · rename_i hph hlock
    refine h.reclaiming (by rw [hph]; rfl) ?_ ?_ <;> cases scheme <;> rfl
  · rename_i found d hph hlock
    refine h.dropToken.moved hlive (by nofun) (fun _ _ => ?_) ?_
    · show (w.phase k).guarded = true
      rw [hph]
      rfl
    · intro hreg hsure
      refine h.dropToken.doomed hreg k ?_
      show (w.phase k).sure = true
      rw [hph]
      cases found with
      | false => cases hsure
      | true => rfl
  · rename_i hph hlock
    refine h.reclaiming (by rw [hph]; rfl) ?_ ?_ <;> cases scheme <;> rfl
  · rename_i found d hph hlock
    split
    · rename_i htoken
      refine h.removed hph hlock ?_
      unfold spares at hallow
      simp only [hph, hitsHolder, hlock, Option.any_some, htoken, Bool.true_and, Bool.or_eq_true, Bool.and_eq_true,
        decide_eq_true_eq, Bool.not_eq_true'] at hallow
      rcases hallow with ⟨hreg, rfl⟩ | hcold
      · -- What the guard is for: the lock is still the one that was judged.
        obtain ⟨d', hd', hcold⟩ := h.doomed hreg k (by rw [hph]; rfl)
        rw [hlock, Option.some.injEq] at hd'
        rw [hd']
        exact hcold
      · exact hcold
    · refine h.reclaiming (by rw [hph]; rfl) ?_ ?_ <;> cases scheme <;> rfl
  · rename_i hph hlock
    exact h.mkdirLock hlock hlive (fun _ _ => by rw [hph]; rfl)
  · rename_i hph hlock
    refine h.reclaiming (by rw [hph]; rfl) ?_ ?_ <;> cases scheme <;> rfl
  · rename_i reclaimed hph
    exact (h.putToken (by rw [hph]; rfl)).signing hph
  · rename_i won hph
    refine h.unguarding hph ?_
    intro hreg k' hne hk'
    have hboth := (h.guarded hreg k' hk').symm.trans (h.guarded hreg k (by rw [hph]; rfl))
    exact absurd (Option.some.inj hboth) hne
  · rename_i hph
    have hhold : (w.phase k).holding = true := by rw [hph]; rfl
    refine h.moved hlive (fun _ => hhold) ?_ ?_
    · intro _ hguard
      split at hguard <;> cases hguard
    · intro _ hsure
      split at hsure <;> cases hsure
  · rename_i hph
    have hhold : (w.phase k).holding = true := by rw [hph]; rfl
    exact h.dropToken.moved hlive (fun _ => hhold) (by nofun) (by nofun)
  · rename_i hph
    exact h.rmdirLock hph
  all_goals cases hgo

theorem err_sound (h : Sound scheme pidOf w) (herr : err scheme k w = some w') : Sound scheme pidOf w' := by
  have hlive : w.alive (pidOf k) = true := by
    refine h.live k ?_
    intro hidle
    unfold err at herr
    rw [hidle] at herr
    cases herr
  unfold err at herr
  split at herr
  all_goals try rw [Option.some.injEq] at herr
  all_goals try rw [← herr]
  · exact h.moved hlive (by nofun) (by nofun) (by nofun)
  · exact h.moved hlive (by nofun) (by nofun) (by nofun)
  · rename_i hph
    refine h.reclaiming (by rw [hph]; rfl) ?_ ?_ <;> cases scheme <;> rfl
  · rename_i hph
    exact h.judged hph _ (.inl rfl)
  · rename_i hph
    refine h.reclaiming (by rw [hph]; rfl) ?_ ?_ <;> cases scheme <;> rfl
  · rename_i hph
    refine h.reclaiming (by rw [hph]; rfl) ?_ ?_ <;> cases scheme <;> rfl
  · rename_i hph
    refine h.reclaiming (by rw [hph]; rfl) ?_ ?_ <;> cases scheme <;> rfl
  · rename_i reclaimed hph
    exact h.signing hph
  · rename_i won hph
    exact h.unguarding hph fun hreg k' _ => h.guarded hreg k'
  · rename_i hph
    exact h.moved hlive (fun _ => by rw [hph]; rfl) (by nofun) (by nofun)
  · exact h.moved hlive (by nofun) (by nofun) (by nofun)
  · exact h.moved hlive (by nofun) (by nofun) (by nofun)
  all_goals cases herr

omit [DecidableEq κ] in
/-- A crash takes every claim of the process away, and no other's. -/
theorem crash_sound (h : Sound scheme pidOf w) (pid : ℕ) :
    Sound scheme pidOf { w with
      alive := Function.update w.alive pid false
      phase := fun k => if pidOf k = pid then .idle else w.phase k } := by
  have hphase : ∀ (P : Phase → Bool) k, P .idle = false →
      P (if pidOf k = pid then .idle else w.phase k) = true → P (w.phase k) = true := by
    intro P k hidle hk
    split at hk
    · rw [hidle] at hk
      cases hk
    · exact hk
  refine ⟨?_, ?_, ?_, ?_, ?_⟩
  · exact fun k hk => h.held k (hphase Phase.holding k rfl hk)
  · intro k hk
    dsimp only at hk ⊢
    split at hk
    · exact absurd rfl hk
    · rename_i hne
      rw [Function.update_of_ne hne]
      exact h.live k hk
  · exact fun d p hd hk => h.named d p hd (hphase Phase.holding _ rfl hk)
  · exact fun hreg k hk => h.guarded hreg k (hphase Phase.guarded k rfl hk)
  · intro hreg k hk
    obtain ⟨d, hd, hcold⟩ := h.doomed hreg k (hphase Phase.sure k rfl hk)
    refine ⟨d, hd, ?_⟩
    dsimp only
    split
    · rfl
    · exact hcold

theorem lockStep_sound {e : LockEvent κ} (h : Sound scheme pidOf w) (hallow : spares scheme w e = true)
    (hstep : lockStep scheme pidOf e w = some w') : Sound scheme pidOf w' := by
  cases e with
  | tick d =>
      rw [lockStep] at hstep
      split at hstep
      · cases hstep
        exact ⟨h.held, h.live, h.named, h.guarded, h.doomed⟩
      · cases hstep
  | crash pid =>
      cases hstep
      exact crash_sound h pid
  | spawn pid =>
      cases hstep
      refine ⟨h.held, ?_, h.named, h.guarded, h.doomed⟩
      intro k hk
      by_cases hpid : pidOf k = pid
      · rw [hpid]
        exact Function.update_self _ _ _
      · exact (Function.update_of_ne hpid _ _).trans (h.live k hk)
  | call k =>
      rw [lockStep] at hstep
      split at hstep
      · rename_i hcall
        cases hstep
        exact h.moved hcall.1 (by nofun) (by nofun) (by nofun)
      · cases hstep
  | go k => exact go_sound h hallow hstep
  | err k => exact err_sound h hstep

theorem inside_iff : (dirLock scheme pidOf).inside w k = true ↔ w.phase k = .inside := decide_eq_true_iff

theorem refused_ne_inside (scheme : Scheme) : refused scheme ≠ .inside := by cases scheme <;> nofun

theorem rmtreeFails_ne_inside (scheme : Scheme) : rmtreeFails scheme ≠ .inside := by cases scheme <;> nofun

omit [DecidableEq κ] in
theorem judged_ne_inside (scheme : Scheme) (w : LockWorld κ) (age : ℚ) (token : Option ℕ) :
    judged scheme w age token ≠ .inside := by
  unfold judged
  split
  · nofun
  · exact refused_ne_inside scheme

theorem signed_ne_inside (scheme : Scheme) (reclaimed : Bool) : signed scheme reclaimed ≠ .inside := by
  unfold signed
  split <;> nofun

theorem unguarded_ne_inside (won : Bool) : unguarded won ≠ .inside := by cases won <;> nofun

/-- A step of a caller moves that caller, and not inside. -/
theorem go_phase (hgo : go scheme pidOf k w = some w') :
    ∃ ph, ph ≠ .inside ∧ w'.phase = Function.update w.phase k ph := by
  unfold go at hgo
  split at hgo
  all_goals try rw [Option.some.injEq] at hgo
  all_goals try rw [← hgo]
  · exact ⟨_, by nofun, rfl⟩
  · exact ⟨_, by cases scheme <;> nofun, rfl⟩
  · split
    · exact ⟨_, by nofun, rfl⟩
    · exact ⟨_, by nofun, rfl⟩
  · exact ⟨_, by cases scheme <;> nofun, rfl⟩
  · exact ⟨_, by nofun, rfl⟩
  · exact ⟨_, judged_ne_inside _ _ _ _, rfl⟩
  · exact ⟨_, rmtreeFails_ne_inside scheme, rfl⟩
  · exact ⟨_, by nofun, rfl⟩
  · exact ⟨_, rmtreeFails_ne_inside scheme, rfl⟩
  · split
    · exact ⟨_, by nofun, rfl⟩
    · exact ⟨_, rmtreeFails_ne_inside scheme, rfl⟩
  · exact ⟨_, by nofun, rfl⟩
  · exact ⟨_, refused_ne_inside scheme, rfl⟩
  · exact ⟨_, signed_ne_inside _ _, rfl⟩
  · exact ⟨_, unguarded_ne_inside _, rfl⟩
  · exact ⟨_, by split <;> nofun, rfl⟩
  · exact ⟨_, by nofun, rfl⟩
  · exact ⟨_, by nofun, rfl⟩
  all_goals cases hgo

theorem err_phase (herr : err scheme k w = some w') :
    ∃ ph, ph ≠ .inside ∧ w'.phase = Function.update w.phase k ph := by
  unfold err at herr
  split at herr
  all_goals try rw [Option.some.injEq] at herr
  all_goals try rw [← herr]
  · exact ⟨_, by nofun, rfl⟩
  · exact ⟨_, by nofun, rfl⟩
  · exact ⟨_, by cases scheme <;> nofun, rfl⟩
  · exact ⟨_, judged_ne_inside _ _ _ _, rfl⟩
  · exact ⟨_, rmtreeFails_ne_inside scheme, rfl⟩
  · exact ⟨_, rmtreeFails_ne_inside scheme, rfl⟩
  · exact ⟨_, refused_ne_inside scheme, rfl⟩
  · exact ⟨_, signed_ne_inside _ _, rfl⟩
  · exact ⟨_, unguarded_ne_inside _, rfl⟩
  · exact ⟨_, by nofun, rfl⟩
  · exact ⟨_, by nofun, rfl⟩
  · exact ⟨_, by nofun, rfl⟩
  all_goals cases herr

/-- Nobody gets inside but by entering. -/
theorem inside_of_step {e : LockEvent κ} (hstep : lockStep scheme pidOf e w = some w') {k' : κ}
    (hk' : w'.phase k' = .inside) : w.phase k' = .inside := by
  have hmoved : ∀ {k : κ}, (∃ ph, ph ≠ .inside ∧ w'.phase = Function.update w.phase k ph) →
      w.phase k' = .inside := by
    rintro k ⟨ph, hph, hphase⟩
    rw [hphase, Function.update_apply] at hk'
    split at hk'
    · exact absurd hk' hph
    · exact hk'
  cases e with
  | tick d =>
      rw [lockStep] at hstep
      split at hstep
      · cases hstep
        exact hk'
      · cases hstep
  | crash pid =>
      cases hstep
      dsimp only at hk'
      split at hk'
      · cases hk'
      · exact hk'
  | spawn pid =>
      cases hstep
      exact hk'
  | call k =>
      rw [lockStep] at hstep
      split at hstep
      · cases hstep
        exact hmoved ⟨.acquiring, by nofun, rfl⟩
      · cases hstep
  | go k => exact hmoved (go_phase hstep)
  | err k => exact hmoved (err_phase hstep)

/-- **The lock keeps its callers apart** in the runs that spare the holders. -/
theorem dirLock_apart : Sections.Apart (dirLock scheme pidOf) (spares scheme) (Sound scheme pidOf) where
  one h hk hk' := by
    rw [inside_iff] at hk hk'
    exact h.exclusive (by rw [hk]; rfl) (by rw [hk']; rfl)
  step h hallow hstep := by
    refine ⟨lockStep_sound h hallow hstep, ?_⟩
    intro k hk
    rw [inside_iff] at hk ⊢
    exact inside_of_step hstep hk
  enter {l l' k} h henter := by
    have henter : (if l.phase k = .acquired then some (l.moved k .inside) else none) = some l' := henter
    split at henter
    · rename_i hph
      cases henter
      refine ⟨h.moved (h.live k (by rw [hph]; nofun)) (fun _ => by rw [hph]; rfl) (by nofun) (by nofun), ?_⟩
      intro k' hk'
      rw [inside_iff] at hk' ⊢
      simp only [LockWorld.moved, Function.update_apply] at hk'
      split at hk'
      · exact .inl (by assumption)
      · exact .inr hk'
    · cases henter
  leave {l l' k} h hleave := by
    have hleave : (if l.phase k = .inside then some (l.moved k .checking) else none) = some l' := hleave
    split at hleave
    · rename_i hph
      cases hleave
      refine ⟨h.moved (h.live k (by rw [hph]; nofun)) (fun _ => by rw [hph]; rfl) (by nofun) (by nofun), ?_⟩
      intro k' hk'
      rw [inside_iff] at hk' ⊢
      simp only [LockWorld.moved, Function.update_apply] at hk'
      split at hk'
      · cases hk'
      · exact hk'
    · cases hleave

end Steps

end CyClaw.Locks

/-
What the lock of a sync run promises, from the invariant of its calls.

The calls that hold it are told apart by their descriptors.  That it can be taken whenever
nobody holds it is one run of the new call by itself, which finds the guard open, its key not
on the list and the file not locked; a taken guard is given back by whoever has it, in at most
`LockPlace.toLeave` steps.
-/
import CyClaw.Sync.SingleInstance

namespace CyClaw.Sync

open Threads

variable {w w' : LockWorld} {file : List Char}

/-! ### Who is inside -/

section Effects

variable {b b' : LockJob} {s s' : LockStore} {l : LockPlace} {fd : ℕ}

/-- Nobody but who has the file locked unlocks it or writes to it. -/
theorem LockEffect.spares (h : LockEffect b s l s') (hb : b.Backed s) (hapart : b.Apart b')
    (hfd : b'.marks.fd = some fd) (hlocked : s.locked = some fd) :
    s'.locked = some fd ∧ s'.file = s.file ∧ s'.dead = s.dead := by
  have hfree : b.marks.locks ≠ true := by
    intro hlocks
    obtain ⟨fd₀, hfd₀⟩ := fd_of_locks hlocks
    have heq := hb.locks hlocks
    rw [LockJob.marks, hfd₀, hlocked] at heq
    exact hapart.fd fd₀ hfd₀ (by rw [hfd, heq])
  cases h with
  | looks _ _ => exact ⟨hlocked, rfl, rfl⟩
  | enters _ _ => exact ⟨hlocked, rfl, rfl⟩
  | leaves _ _ => exact ⟨hlocked, rfl, rfl⟩
  | opens _ _ => exact ⟨hlocked, rfl, rfl⟩
  | locks _ hnone _ =>
    rw [hnone] at hlocked
    cases hlocked
  | writes hlocks _ _ => exact (hfree hlocks).elim
  | adds _ _ => exact ⟨hlocked, rfl, rfl⟩
  | unlocks hlocks _ _ _ => exact (hfree hlocks).elim
  | @closes fd₀ hfd₀ _ _ =>
    have hne : fd ≠ fd₀ := by
      rintro rfl
      exact hapart.fd fd hfd₀ hfd
    refine ⟨?_, rfl, rfl⟩
    simp [LockStore.close, hlocked, hne]
  | discards _ _ _ => exact ⟨hlocked, rfl, rfl⟩

end Effects

theorem one_inside (hw : LockHolds w) {k k' : ℕ} (hk : w.inside k) (hk' : w.inside k') : k = k' := by
  by_contra hne
  exact not_both_lock ((hw.each k).backed hk.1) ((hw.each k').backed hk'.1) (hw.pair k k' hne)
    (inside_marks hk.2).1 (inside_marks hk'.2).1

theorem inside_holds (hw : LockHolds w) {k : ℕ} (hk : w.inside k) :
    w.holds k ∧ w.store.file = (w.job k).content := by
  have hbacked := (hw.each k).backed hk.1
  obtain ⟨hlocks, hwrote⟩ := inside_marks hk.2
  obtain ⟨fd, hfd⟩ := fd_of_locks hlocks
  refine ⟨⟨hk.1, fd, ?_, ?_⟩, hbacked.wrote hwrote⟩
  · rw [← marks_fd]
    exact hfd
  · rw [hbacked.locks hlocks]
    exact hfd

/-- **Another call's step, failed or not, leaves the holder its lock.** -/
theorem holder_kept (hw : LockHolds w) {k j : ℕ} {turn : LockTurn} (hstep : step lockAct (k, turn) w = some w')
    (hne : j ≠ k) (hj : w.holds j) (hcrash : turn ≠ .crash (w.job j).proc) :
    w'.holds j ∧ (w.inside j → w'.inside j ∧ w'.store.file = w.store.file) := by
  obtain ⟨b, s, hact, rfl⟩ := step_ok hstep
  obtain ⟨halive, fd, hfd, hlocked⟩ := hj
  have hmark : (w.job j).marks.fd = some fd := by
    rw [← hfd]
    exact marks_fd _
  have hjob : (w.set k b s).job j = w.job j := World.set_job_of_ne w b s hne
  suffices hs : s.locked = some fd ∧ s.file = w.store.file ∧ s.dead (w.job j).proc = false by
    refine ⟨⟨?_, fd, ?_, hs.1⟩, fun hinside => ⟨⟨?_, ?_⟩, hs.2.1⟩⟩
    · rw [hjob]
      exact hs.2.2
    · rw [hjob]
      exact hfd
    · rw [hjob]
      exact hs.2.2
    · rw [hjob]
      exact hinside.2
  rcases lockAct_cases hact with ⟨p, rfl, -, rfl⟩ | ⟨p, key, content, -, -, -, -, rfl⟩ | ⟨hdead, l, -, heffect, -⟩
  · have hp : (w.job j).proc ≠ p := fun heq => hcrash (by rw [heq])
    have howner := ((hw.each j).backed halive).owned fd hmark
    refine ⟨?_, rfl, ?_⟩
    · simp [LockStore.crash, hlocked, howner, hp]
    · simpa [LockStore.crash, hp] using halive
  · exact ⟨hlocked, rfl, halive⟩
  · obtain ⟨hlocked', hfile, hdead'⟩ :=
      heffect.spares ((hw.each k).backed hdead) (hw.pair k j (Ne.symm hne)) hmark hlocked
    exact ⟨hlocked', hfile, by rw [hdead', halive]⟩

/-! ### A second release -/

/-- Where a handle that is released can be. -/
def LockPlace.isOver (l : LockPlace) : Prop := l = .ended ∨ l = .rereleasing ∨ l = .again

theorem over_move {b : LockJob} {s s' : LockStore} {turn : LockTurn} {l : LockPlace} (hplace : b.place.isOver)
    (h : lockMove b s turn = some (l, s')) : s' = { s with guard := s'.guard } ∧ l.isOver := by
  obtain ⟨p, key, content, place⟩ := b
  rcases hplace with h₀ | h₀ | h₀ <;> simp only at h₀ <;> subst h₀
  · cases turn with
    | release =>
      cases h
      exact ⟨rfl, Or.inr (Or.inl rfl)⟩
    | _ => simp [lockMove] at h
  · cases turn with
    | goOn =>
      simp only [lockMove, Option.ite_none_left_eq_some, Option.some.injEq, Prod.mk.injEq] at h
      obtain ⟨-, rfl, rfl⟩ := h
      exact ⟨rfl, Or.inr (Or.inr rfl)⟩
    | _ => simp [lockMove] at h
  · cases turn with
    | goOn =>
      cases h
      exact ⟨rfl, Or.inl rfl⟩
    | _ => simp [lockMove] at h

theorem released_again {k : ℕ} {turn : LockTurn} (hstep : step lockAct (k, turn) w = some w')
    (hplace : (w.job k).place.isOver) (hcrash : ∀ p, turn ≠ .crash p) :
    w'.store = { w.store with guard := w'.store.guard } ∧ (w'.job k).place.isOver := by
  obtain ⟨b, s, hact, rfl⟩ := step_ok hstep
  rcases lockAct_cases hact with ⟨p, hturn, -, -⟩ | ⟨p, key, content, -, hidle, -, -, -⟩ | ⟨-, l, rfl, -, hmove⟩
  · exact (hcrash p hturn).elim
  · rw [hidle] at hplace
    simp [LockPlace.isOver] at hplace
  · rw [World.set_store, World.set_job_self]
    exact over_move hplace hmove

/-! ### Taking the lock -/

/-- The way in, when nothing stands in it. -/
theorem solo_in {b : LockJob} {s : LockStore} {p : ℕ} {key : List Char} (content : List Char) (hidle : b.place = .idle)
    (halive : s.dead p = false) (hguard : s.guard p = false) (hkey : key ∉ s.processLocks p) (hlocked : s.locked = none) :
    ∃ s', solo lockAct (.call p key content :: List.replicate 7 .goOn) b s =
      some (⟨p, key, content, .inside s.next⟩, s') ∧ s'.dead = s.dead := by
  simp [solo, lockAct, lockMove, LockStore.enter, LockStore.leave, List.replicate, hidle, halive, hguard, hkey, hlocked]

theorem free_taken (hw : LockHolds w) (hlocked : ∀ fd, Locked fd w) (hlisted : ∀ p key, Listed p key w)
    (hnone : ∀ j, ¬ w.holds j) {k p : ℕ} {key content : List Char} (hidle : (w.job k).place = .idle)
    (halive : w.store.dead p = false) (hguard : w.store.guard p = false) :
    ∃ turns, ∃ w' : LockWorld, (∀ turn ∈ turns, turn.1 = k) ∧
      Runs.run (step lockAct) anyTurn ((k, .call p key content) :: turns) w = some w' ∧ w'.inside k := by
  obtain ⟨s', hsolo, hdead⟩ :=
    solo_in content hidle halive hguard (not_listed hw (hlisted p key) hnone halive hguard)
      (none_locked hw hlocked hnone)
  refine ⟨(List.replicate 7 LockTurn.goOn).map fun c => (k, c), _, ?_, run_solo hsolo, ?_⟩
  · intro turn hturn
    obtain ⟨c, -, rfl⟩ := List.mem_map.mp hturn
    rfl
  · refine ⟨?_, ?_⟩ <;> rw [World.set_job_self]
    · rw [World.set_store, hdead]
      exact halive
    · rfl

/-! ### The guard is given back -/

/-- How many steps a call has before it at most until it is out of the guard. -/
def LockPlace.toLeave : LockPlace → ℕ
  | .checking => 7
  | .opening => 6
  | .locking _ => 5
  | .writing _ => 4
  | .undoing _ => 3
  | .adding _ => 2
  | .closing _ => 2
  | .truncating _ => 5
  | .unlocking _ => 4
  | .dropping _ => 3
  | .discarding => 2
  | .leaving _ => 1
  | .raising => 1
  | .ending => 1
  | .again => 1
  | _ => 0

/-- In the guard a call can always go on, and is out of it in the end. -/
theorem guarded_move {b : LockJob} (s : LockStore) (h : b.marks.guarded = true) :
    ∃ l s', lockMove b s .goOn = some (l, s') ∧ s'.dead = s.dead ∧
      (s'.guard b.proc = false ∨ l.marks.guarded = true ∧ l.toLeave < b.place.toLeave) := by
  obtain ⟨p, key, content, place⟩ := b
  cases place with
  | checking =>
    refine ⟨_, _, rfl, rfl, Or.inr ?_⟩
    by_cases hkey : key ∈ s.processLocks p <;> simp [hkey, LockPlace.marks, LockPlace.toLeave]
  | locking fd =>
    cases hlocked : s.locked with
    | none =>
      refine ⟨.writing fd, { s with locked := some fd }, ?_, rfl, Or.inr ⟨rfl, ?_⟩⟩
      · simp only [lockMove, hlocked]
      · simp [LockPlace.toLeave]
    | some other =>
      refine ⟨.closing fd, s, ?_, rfl, Or.inr ⟨rfl, ?_⟩⟩
      · simp only [lockMove, hlocked]
      · simp [LockPlace.toLeave]
  | leaving fd => exact ⟨_, _, rfl, rfl, Or.inl (by simp [LockStore.leave])⟩
  | raising => exact ⟨_, _, rfl, rfl, Or.inl (by simp [LockStore.leave])⟩
  | ending => exact ⟨_, _, rfl, rfl, Or.inl (by simp [LockStore.leave])⟩
  | again => exact ⟨_, _, rfl, rfl, Or.inl (by simp [LockStore.leave])⟩
  | idle => simp [LockJob.marks, LockPlace.marks] at h
  | waiting => simp [LockJob.marks, LockPlace.marks] at h
  | failed => simp [LockJob.marks, LockPlace.marks] at h
  | inside _ => simp [LockJob.marks, LockPlace.marks] at h
  | returning _ => simp [LockJob.marks, LockPlace.marks] at h
  | ended => simp [LockJob.marks, LockPlace.marks] at h
  | rereleasing => simp [LockJob.marks, LockPlace.marks] at h
  | _ => exact ⟨_, _, rfl, rfl, Or.inr ⟨rfl, by simp [LockPlace.toLeave]⟩⟩

theorem solo_out {b : LockJob} {s : LockStore} {n : ℕ} (hn : b.place.toLeave ≤ n) (h : b.marks.guarded = true)
    (halive : s.dead b.proc = false) :
    ∃ cs b' s', (∀ c ∈ cs, c = LockTurn.goOn) ∧ solo lockAct cs b s = some (b', s') ∧ s'.guard b.proc = false := by
  induction n generalizing b s with
  | zero =>
    obtain ⟨p, key, content, place⟩ := b
    cases place <;> simp_all [LockPlace.toLeave, LockJob.marks, LockPlace.marks]
  | succ n ih =>
    obtain ⟨l, s₁, hmove, hdead, hout⟩ := guarded_move s h
    have hact : lockAct .goOn b s = some ({ b with place := l }, s₁) := by
      simp [lockAct, halive, hmove]
    rcases hout with hguard | ⟨hguarded, hless⟩
    · refine ⟨[.goOn], { b with place := l }, s₁, by simp, ?_, hguard⟩
      simp [solo, hact]
    · obtain ⟨cs, b', s', hcs, hsolo, hguard⟩ :=
        ih (b := { b with place := l }) (s := s₁) (by simp only; omega) hguarded (by rw [hdead]; exact halive)
      refine ⟨.goOn :: cs, b', s', ?_, ?_, hguard⟩
      · intro c hc
        rcases List.mem_cons.mp hc with rfl | hc
        · rfl
        · exact hcs c hc
      · simp [solo, hact, hsolo]

theorem guard_given_back {p : ℕ} (hguarded : Guarded p w) (halive : w.store.dead p = false)
    (hguard : w.store.guard p = true) :
    ∃ j turns, ∃ w' : LockWorld, (w.job j).proc = p ∧ (∀ turn ∈ turns, turn = (j, .goOn)) ∧
      Runs.run (step lockAct) anyTurn turns w = some w' ∧ w'.store.guard p = false := by
  rcases hguarded with hfree | ⟨j, rfl, hmark⟩
  · rw [hguard] at hfree
    cases hfree
  · obtain ⟨cs, b', s', hcs, hsolo, hout⟩ := solo_out (Nat.le_refl _) hmark halive
    refine ⟨j, cs.map fun c => (j, c), _, rfl, ?_, run_solo hsolo, hout⟩
    intro turn hturn
    obtain ⟨c, hc, rfl⟩ := List.mem_map.mp hturn
    rw [hcs c hc]

/-! ### The promises -/

/-- **One sync at a time.**  In every state that calls, failing steps and crashes lead to, the
lock keeps its promises. -/
theorem one_sync_at_a_time (h : Runs.Later (step lockAct) anyTurn (LockWorld.initial file) w) : w.Promises := by
  have hw := lock_holds h
  have hlocked : ∀ fd, Locked fd w := fun fd => someone_later h (by simp [LockWorld.initial]) (locked_act fd)
  have hlisted : ∀ p key, Listed p key w := fun p key =>
    someone_later h (by simp [LockWorld.initial]) (listed_act p key)
  have hguarded : ∀ p, Guarded p w := fun p => someone_later h rfl (guarded_act p)
  exact {
    one := fun k k' => one_inside hw
    inside_holds := fun k => inside_holds hw
    kept := fun k turn w' j => holder_kept hw
    again := fun k turn w' => released_again
    free := fun hnone k p key content => free_taken hw hlocked hlisted hnone
    guarded := fun p => guard_given_back (hguarded p) }

/-- One call is inside; another process, with a name of its own for the file, is told it is busy. -/
theorem one_sync_at_a_time_busy :
    ∃ w : LockWorld, Runs.Later (step lockAct) anyTurn (LockWorld.initial ['o', 'l', 'd']) w ∧ w.Promises ∧ w.inside 0 ∧
      (w.job 1).place = .failed := by
  let turns : List (ℕ × LockTurn) :=
    (0, .call 0 ['/', 'l'] ['0']) :: List.replicate 7 (0, .goOn) ++
      (1, .call 1 ['/', 'm'] ['1']) :: List.replicate 6 (1, .goOn)
  obtain ⟨w, hrun, hw⟩ := (Option.any_eq_true _ _).mp (show (Runs.run (step lockAct) anyTurn turns
    (LockWorld.initial ['o', 'l', 'd'])).any (fun w =>
      decide (w.store.dead (w.job 0).proc = false) && (w.job 0).place.isInside && (w.job 1).place == .failed) = true by
    decide +kernel)
  simp only [Bool.and_eq_true, decide_eq_true_eq, beq_iff_eq] at hw
  exact ⟨w, Runs.Later.of_run hrun, one_sync_at_a_time (Runs.Later.of_run hrun), hw.1, hw.2⟩

end CyClaw.Sync

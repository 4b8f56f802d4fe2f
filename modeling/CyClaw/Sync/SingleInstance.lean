/-
One sync run at a time.

What a place says about the shared state is gathered in its `Marks`: the descriptor, whether
the call is in the guard, whether its key is on the process's list or known not to be, whether
it has the file locked, and whether the file holds what it wrote.  `LockEffect` says once what
a step can do to the shared state and to the marks, and everything else is derived from it: the
marks stay true for the call that takes the step and for all others (`lock_keeps`), a lock, a
listed key and a taken guard always have a call that will see to them (`Threads.Owed`).
-/
import CyClaw.Sync.Lock

namespace CyClaw.Sync

open Threads

/-! ### Marks -/

structure Marks where
  fd : Option ℕ := none
  guarded : Bool := false
  listed : Bool := false
  unlisted : Bool := false
  locks : Bool := false
  wrote : Bool := false

def LockPlace.marks : LockPlace → Marks
  | .idle => {}
  | .waiting => {}
  | .checking => { guarded := true }
  | .opening => { guarded := true, unlisted := true }
  | .locking fd => { fd := some fd, guarded := true, unlisted := true }
  | .writing fd => { fd := some fd, guarded := true, unlisted := true, locks := true }
  | .adding fd => { fd := some fd, guarded := true, unlisted := true, locks := true, wrote := true }
  | .leaving fd => { fd := some fd, guarded := true, listed := true, locks := true, wrote := true }
  | .undoing fd => { fd := some fd, guarded := true, unlisted := true, locks := true }
  | .closing fd => { fd := some fd, guarded := true, unlisted := true }
  | .raising => { guarded := true }
  | .failed => {}
  | .inside fd => { fd := some fd, listed := true, locks := true, wrote := true }
  | .returning fd => { fd := some fd, listed := true, locks := true, wrote := true }
  | .truncating fd => { fd := some fd, guarded := true, listed := true, locks := true, wrote := true }
  | .unlocking fd => { fd := some fd, guarded := true, listed := true, locks := true }
  | .dropping fd => { fd := some fd, guarded := true, listed := true }
  | .discarding => { guarded := true, listed := true }
  | .ending => { guarded := true }
  | .ended => {}
  | .rereleasing => {}
  | .again => { guarded := true }

def LockJob.marks (b : LockJob) : Marks := b.place.marks

theorem marks_fd (l : LockPlace) : l.marks.fd = l.fd? := by cases l <;> rfl

theorem guarded_of_unlisted {l : LockPlace} (h : l.marks.unlisted = true) : l.marks.guarded = true := by
  cases l <;> simp_all [LockPlace.marks]

theorem fd_of_locks {l : LockPlace} (h : l.marks.locks = true) : ∃ fd, l.marks.fd = some fd := by
  cases l <;> simp_all [LockPlace.marks]

theorem locks_of_wrote {l : LockPlace} (h : l.marks.wrote = true) : l.marks.locks = true := by
  cases l <;> simp_all [LockPlace.marks]

/-- Outside the guard, who is listed has the file locked. -/
theorem locks_of_listed {l : LockPlace} (h : l.marks.listed = true) (hg : l.marks.guarded = false) :
    l.marks.locks = true := by
  cases l <;> simp_all [LockPlace.marks]

theorem inside_marks {l : LockPlace} (h : l.isInside = true) :
    l.marks.locks = true ∧ l.marks.wrote = true := by
  cases l <;> simp_all [LockPlace.marks, LockPlace.isInside]

/-- **What a step of a living process does** to the shared state and to its own marks. -/
inductive LockEffect (b : LockJob) (s : LockStore) : LockPlace → LockStore → Prop
  /-- Nothing is changed; a key may have been looked up. -/
  | looks {l : LockPlace} {u : Bool} (hmarks : l.marks = { b.marks with unlisted := u })
      (hu : u = true → b.marks.unlisted = true ∨ b.marks.guarded = true ∧ b.key ∉ s.processLocks b.proc) :
      LockEffect b s l s
  | enters {l : LockPlace} (hfree : s.guard b.proc = false) (hmarks : l.marks = { b.marks with guarded := true }) :
      LockEffect b s l (s.enter b.proc)
  | leaves {l : LockPlace} (hguarded : b.marks.guarded = true)
      (hmarks : l.marks = { b.marks with guarded := false }) : LockEffect b s l (s.leave b.proc)
  | opens {l : LockPlace} (hnone : b.marks.fd = none) (hmarks : l.marks = { b.marks with fd := some s.next }) :
      LockEffect b s l
        { s with owner := Function.update s.owner s.next (some b.proc), next := s.next + 1 }
  | locks {l : LockPlace} {fd : ℕ} (hfd : b.marks.fd = some fd) (hfree : s.locked = none)
      (hmarks : l.marks = { b.marks with locks := true }) : LockEffect b s l { s with locked := some fd }
  | writes {l : LockPlace} {v : Bool} {t : List Char} (hlocks : b.marks.locks = true)
      (hmarks : l.marks = { b.marks with wrote := v }) (hfile : v = true → t = b.content) :
      LockEffect b s l { s with file := t }
  | adds {l : LockPlace} (hunlisted : b.marks.unlisted = true)
      (hmarks : l.marks = { b.marks with unlisted := false, listed := true }) :
      LockEffect b s l
        { s with processLocks := Function.update s.processLocks b.proc (b.key :: s.processLocks b.proc) }
  | unlocks {l : LockPlace} {o : Option ℕ} (hlocks : b.marks.locks = true) (hwrote : b.marks.wrote = false)
      (hlocked : o = none ∨ o = s.locked) (hmarks : l.marks = { b.marks with locks := false }) :
      LockEffect b s l { s with locked := o }
  | closes {l : LockPlace} {fd : ℕ} (hfd : b.marks.fd = some fd) (hlocks : b.marks.locks = false)
      (hmarks : l.marks = { b.marks with fd := none, unlisted := false }) : LockEffect b s l (s.close fd)
  | discards {l : LockPlace} (hlisted : b.marks.listed = true) (hguarded : b.marks.guarded = true)
      (hmarks : l.marks = { b.marks with listed := false }) :
      LockEffect b s l
        { s with
          processLocks :=
            Function.update s.processLocks b.proc ((s.processLocks b.proc).filter fun key => key ≠ b.key) }

theorem effect_of_move {b : LockJob} {s s' : LockStore} {turn : LockTurn} {l : LockPlace}
    (h : lockMove b s turn = some (l, s')) : LockEffect b s l s' := by
  obtain ⟨p, key, content, place⟩ := b
  cases turn with
  | goOn =>
    cases place with
    | waiting =>
      simp only [lockMove, Option.ite_none_left_eq_some, Option.some.injEq, Prod.mk.injEq] at h
      obtain ⟨hguard, rfl, rfl⟩ := h
      exact .enters (by simpa using hguard) rfl
    | checking =>
      cases h
      by_cases hkey : key ∈ s.processLocks p
      · rw [if_pos hkey]
        exact .looks (u := false) rfl (by simp)
      · rw [if_neg hkey]
        exact .looks (u := true) rfl fun _ => Or.inr ⟨rfl, hkey⟩
    | opening =>
      cases h
      exact .opens rfl rfl
    | locking fd =>
      cases hlocked : s.locked with
      | none =>
        simp only [lockMove, hlocked, Option.some.injEq, Prod.mk.injEq] at h
        obtain ⟨rfl, rfl⟩ := h
        exact .locks rfl hlocked rfl
      | some other =>
        simp only [lockMove, hlocked, Option.some.injEq, Prod.mk.injEq] at h
        obtain ⟨rfl, rfl⟩ := h
        exact .looks (u := true) rfl fun _ => Or.inl rfl
    | writing fd =>
      cases h
      exact .writes (v := true) rfl rfl fun _ => rfl
    | adding fd =>
      cases h
      exact .adds rfl rfl
    | leaving fd =>
      cases h
      exact .leaves rfl rfl
    | undoing fd =>
      cases h
      exact .unlocks rfl rfl (Or.inl rfl) rfl
    | closing fd =>
      cases h
      exact .closes rfl rfl rfl
    | raising =>
      cases h
      exact .leaves rfl rfl
    | returning fd =>
      simp only [lockMove, Option.ite_none_left_eq_some, Option.some.injEq, Prod.mk.injEq] at h
      obtain ⟨hguard, rfl, rfl⟩ := h
      exact .enters (by simpa using hguard) rfl
    | truncating fd =>
      cases h
      exact .writes (v := false) rfl rfl (by simp)
    | unlocking fd =>
      cases h
      exact .unlocks rfl rfl (Or.inl rfl) rfl
    | dropping fd =>
      cases h
      exact .closes rfl rfl rfl
    | discarding =>
      cases h
      exact .discards rfl rfl rfl
    | ending =>
      cases h
      exact .leaves rfl rfl
    | rereleasing =>
      simp only [lockMove, Option.ite_none_left_eq_some, Option.some.injEq, Prod.mk.injEq] at h
      obtain ⟨hguard, rfl, rfl⟩ := h
      exact .enters (by simpa using hguard) rfl
    | again =>
      cases h
      exact .leaves rfl rfl
    | _ => simp [lockMove] at h
  | raises applied =>
    cases place with
    | opening =>
      cases h
      exact .looks (u := false) rfl (by simp)
    | locking fd =>
      cases h
      exact .looks (u := true) rfl fun _ => Or.inl rfl
    | writing fd =>
      cases h
      cases applied with
      | true => exact .writes (v := false) rfl rfl (by simp)
      | false => exact .looks (u := true) rfl fun _ => Or.inl rfl
    | undoing fd =>
      cases h
      cases applied with
      | true => exact .unlocks rfl rfl (Or.inl rfl) rfl
      | false => exact .unlocks (o := s.locked) rfl rfl (Or.inr rfl) rfl
    | closing fd =>
      cases h
      exact .closes rfl rfl rfl
    | truncating fd =>
      cases h
      cases applied with
      | true => exact .writes (v := false) rfl rfl (by simp)
      | false => exact .writes (v := false) (t := s.file) rfl rfl (by simp)
    | unlocking fd =>
      cases h
      cases applied with
      | true => exact .unlocks rfl rfl (Or.inl rfl) rfl
      | false => exact .unlocks (o := s.locked) rfl rfl (Or.inr rfl) rfl
    | dropping fd =>
      cases h
      exact .closes rfl rfl rfl
    | _ => simp [lockMove] at h
  | ends =>
    cases place with
    | inside fd =>
      cases h
      exact .looks (u := false) rfl (by simp)
    | _ => simp [lockMove] at h
  | release =>
    cases place with
    | ended =>
      cases h
      exact .looks (u := false) rfl (by simp)
    | _ => simp [lockMove] at h
  | _ => simp [lockMove] at h

/-! ### The invariant -/

structure LockStore.Sound (s : LockStore) : Prop where
  locked : ∀ fd, s.locked = some fd → ∃ p, s.owner fd = some p
  fresh : ∀ fd p, s.owner fd = some p → fd < s.next
  alive : ∀ fd p, s.owner fd = some p → s.dead p = false

/-- What the marks of a call say is so. -/
structure LockJob.Backed (b : LockJob) (s : LockStore) : Prop where
  owned : ∀ fd, b.marks.fd = some fd → s.owner fd = some b.proc
  guarded : b.marks.guarded = true → s.guard b.proc = true
  listed : b.marks.listed = true → b.key ∈ s.processLocks b.proc
  unlisted : b.marks.unlisted = true → b.key ∉ s.processLocks b.proc
  locks : b.marks.locks = true → s.locked = b.marks.fd
  wrote : b.marks.wrote = true → s.file = b.content

structure LockJob.Sound (b : LockJob) (s : LockStore) : Prop where
  fresh : ∀ fd, b.marks.fd = some fd → fd < s.next
  /-- A descriptor stays with its process, if that is alive or not. -/
  named : ∀ fd p, b.marks.fd = some fd → s.owner fd = some p → p = b.proc
  backed : s.dead b.proc = false → b.Backed s

/-- What two calls do not share. -/
structure LockJob.Apart (b b' : LockJob) : Prop where
  guarded : b.marks.guarded = true → b'.marks.guarded = true → b.proc ≠ b'.proc
  fd : ∀ fd, b.marks.fd = some fd → b'.marks.fd ≠ some fd
  listed : b.marks.listed = true → b'.marks.listed = true → b.proc = b'.proc → b.key ≠ b'.key

theorem LockJob.Apart.symm {b b' : LockJob} (h : b.Apart b') : b'.Apart b :=
  ⟨fun hb' hb heq => h.guarded hb hb' heq.symm, fun fd hb' hb => h.fd fd hb hb',
    fun hb' hb heq hkey => h.listed hb hb' heq.symm hkey.symm⟩

/-- A call without marks claims nothing and has nothing. -/
theorem LockJob.sound_bare {b : LockJob} (h : b.marks = {}) (s : LockStore) : b.Sound s := by
  refine ⟨?_, ?_, fun _ => ⟨?_, ?_, ?_, ?_, ?_, ?_⟩⟩ <;> simp [h]

theorem LockJob.apart_bare {b : LockJob} (h : b.marks = {}) (b' : LockJob) : b.Apart b' := by
  refine ⟨?_, ?_, ?_⟩ <;> simp [h]

section Effects

variable {b b' : LockJob} {s s' : LockStore} {l : LockPlace}

/-- Two living calls do not both have the file locked. -/
theorem not_both_lock (hb : b.Backed s) (hb' : b'.Backed s) (hapart : b.Apart b') (hlocks : b.marks.locks = true)
    (hlocks' : b'.marks.locks = true) : False := by
  obtain ⟨fd, hfd⟩ := fd_of_locks hlocks
  refine hapart.fd fd hfd ?_
  rw [← hb'.locks hlocks', hb.locks hlocks]
  exact hfd

theorem LockEffect.store (h : LockEffect b s l s') (hs : s.Sound) (hb : b.Backed s) (halive : s.dead b.proc = false) :
    s'.Sound := by
  cases h with
  | looks _ _ => exact hs
  | enters _ _ => exact ⟨hs.locked, hs.fresh, hs.alive⟩
  | leaves _ _ => exact ⟨hs.locked, hs.fresh, hs.alive⟩
  | opens _ _ =>
    refine ⟨?_, ?_, ?_⟩
    · intro fd hfd
      obtain ⟨p, hp⟩ := hs.locked fd hfd
      have hlt := hs.fresh fd p hp
      exact ⟨p, by simpa [Function.update_of_ne (Nat.ne_of_lt hlt)] using hp⟩
    · intro fd p hp
      by_cases heq : fd = s.next
      · subst heq
        exact Nat.lt_succ_self _
      · simp only [Function.update_of_ne heq] at hp
        exact Nat.lt_succ_of_lt (hs.fresh fd p hp)
    · intro fd p hp
      by_cases heq : fd = s.next
      · subst heq
        simp only [Function.update_self, Option.some.injEq] at hp
        exact hp ▸ halive
      · simp only [Function.update_of_ne heq] at hp
        exact hs.alive fd p hp
  | locks hfd _ _ =>
    refine ⟨?_, hs.fresh, hs.alive⟩
    rintro _ ⟨⟩
    exact ⟨_, hb.owned _ hfd⟩
  | writes _ _ _ => exact ⟨hs.locked, hs.fresh, hs.alive⟩
  | adds _ _ => exact ⟨hs.locked, hs.fresh, hs.alive⟩
  | unlocks _ _ hlocked _ =>
    refine ⟨?_, hs.fresh, hs.alive⟩
    rcases hlocked with rfl | rfl
    · simp
    · exact hs.locked
  | @closes fd₀ _ _ _ =>
    have hother : ∀ fd p, (s.close fd₀).owner fd = some p → s.owner fd = some p := by
      intro fd p hp
      by_cases heq : fd = fd₀
      · simp [LockStore.close, heq] at hp
      · simpa [LockStore.close, heq] using hp
    refine ⟨?_, fun fd p hp => hs.fresh fd p (hother fd p hp), fun fd p hp => hs.alive fd p (hother fd p hp)⟩
    intro fd hfd
    simp only [LockStore.close, Option.ite_none_left_eq_some] at hfd
    obtain ⟨hne, hfd⟩ := hfd
    obtain ⟨p, hp⟩ := hs.locked fd hfd
    refine ⟨p, ?_⟩
    have heq : fd ≠ fd₀ := fun heq => hne (heq ▸ hfd)
    simpa [LockStore.close, heq] using hp
  | discards _ _ _ => exact ⟨hs.locked, hs.fresh, hs.alive⟩

/-- **The marks stay true for the call that takes the step.** -/
theorem LockEffect.own (h : LockEffect b s l s') (hb : b.Sound s) (hbacked : b.Backed s) :
    LockJob.Sound { b with place := l } s' := by
  have hplace : LockJob.marks { b with place := l } = l.marks := rfl
  cases h with
  | looks hmarks hu =>
    refine ⟨?_, ?_, fun _ => ⟨?_, ?_, ?_, ?_, ?_, ?_⟩⟩ <;> rw [hplace, hmarks]
    · exact hb.fresh
    · exact hb.named
    · exact hbacked.owned
    · exact hbacked.guarded
    · exact hbacked.listed
    · intro h
      rcases hu h with hunlisted | ⟨-, hkey⟩
      · exact hbacked.unlisted hunlisted
      · exact hkey
    · exact hbacked.locks
    · exact hbacked.wrote
  | enters _ hmarks =>
    refine ⟨?_, ?_, fun _ => ⟨?_, ?_, ?_, ?_, ?_, ?_⟩⟩ <;> rw [hplace, hmarks]
    · exact hb.fresh
    · exact hb.named
    · exact hbacked.owned
    · simp [LockStore.enter]
    · exact hbacked.listed
    · exact hbacked.unlisted
    · exact hbacked.locks
    · exact hbacked.wrote
  | leaves _ hmarks =>
    refine ⟨?_, ?_, fun _ => ⟨?_, ?_, ?_, ?_, ?_, ?_⟩⟩ <;> rw [hplace, hmarks]
    · exact hb.fresh
    · exact hb.named
    · exact hbacked.owned
    · simp
    · exact hbacked.listed
    · exact hbacked.unlisted
    · exact hbacked.locks
    · exact hbacked.wrote
  | opens hnone hmarks =>
    have hlocks : b.marks.locks = false := by
      by_contra hlocks
      obtain ⟨fd, hfd⟩ := fd_of_locks (Bool.not_eq_false _ ▸ hlocks)
      rw [show b.place.marks.fd = none from hnone] at hfd
      cases hfd
    refine ⟨?_, ?_, fun _ => ⟨?_, ?_, ?_, ?_, ?_, ?_⟩⟩ <;> rw [hplace, hmarks]
    · rintro _ ⟨⟩
      exact Nat.lt_succ_self _
    · rintro _ p ⟨⟩ hp
      simpa using hp.symm
    · rintro _ ⟨⟩
      simp
    · exact hbacked.guarded
    · exact hbacked.listed
    · exact hbacked.unlisted
    · simp [hlocks]
    · exact hbacked.wrote
  | locks hfd _ hmarks =>
    refine ⟨?_, ?_, fun _ => ⟨?_, ?_, ?_, ?_, ?_, ?_⟩⟩ <;> rw [hplace, hmarks]
    · exact hb.fresh
    · exact hb.named
    · exact hbacked.owned
    · exact hbacked.guarded
    · exact hbacked.listed
    · exact hbacked.unlisted
    · intro _
      exact hfd.symm
    · exact hbacked.wrote
  | writes _ hmarks hfile =>
    refine ⟨?_, ?_, fun _ => ⟨?_, ?_, ?_, ?_, ?_, ?_⟩⟩ <;> rw [hplace, hmarks]
    · exact hb.fresh
    · exact hb.named
    · exact hbacked.owned
    · exact hbacked.guarded
    · exact hbacked.listed
    · exact hbacked.unlisted
    · exact hbacked.locks
    · exact hfile
  | adds _ hmarks =>
    refine ⟨?_, ?_, fun _ => ⟨?_, ?_, ?_, ?_, ?_, ?_⟩⟩ <;> rw [hplace, hmarks]
    · exact hb.fresh
    · exact hb.named
    · exact hbacked.owned
    · exact hbacked.guarded
    · simp
    · simp
    · exact hbacked.locks
    · exact hbacked.wrote
  | unlocks _ hwrote _ hmarks =>
    refine ⟨?_, ?_, fun _ => ⟨?_, ?_, ?_, ?_, ?_, ?_⟩⟩ <;> rw [hplace, hmarks]
    · exact hb.fresh
    · exact hb.named
    · exact hbacked.owned
    · exact hbacked.guarded
    · exact hbacked.listed
    · exact hbacked.unlisted
    · simp
    · simp [hwrote]
  | closes _ hlocks hmarks =>
    refine ⟨?_, ?_, fun _ => ⟨?_, ?_, ?_, ?_, ?_, ?_⟩⟩ <;> rw [hplace, hmarks]
    · simp
    · simp
    · simp
    · exact hbacked.guarded
    · exact hbacked.listed
    · simp
    · simp [hlocks]
    · exact hbacked.wrote
  | discards _ hguarded hmarks =>
    refine ⟨?_, ?_, fun _ => ⟨?_, ?_, ?_, ?_, ?_, ?_⟩⟩ <;> rw [hplace, hmarks]
    · exact hb.fresh
    · exact hb.named
    · exact hbacked.owned
    · exact hbacked.guarded
    · simp
    · simp
    · exact hbacked.locks
    · exact hbacked.wrote

/-- **And for every other call**: a step changes nothing that another call's marks speak of. -/
theorem LockEffect.other (h : LockEffect b s l s') (hb : b.Backed s) (halive : s.dead b.proc = false)
    (hb' : b'.Sound s) (hapart : b.Apart b') : b'.Sound s' ∧ LockJob.Apart { b with place := l } b' := by
  have hplace : LockJob.marks { b with place := l } = l.marks := rfl
  -- A call of the same process is alive as well.
  have hsame : b'.proc = b.proc → b'.Backed s := fun heq => hb'.backed (heq ▸ halive)
  have hmarked : l.marks.guarded = b.marks.guarded → l.marks.fd = b.marks.fd → l.marks.listed = b.marks.listed →
      LockJob.Apart { b with place := l } b' := by
    intro hguarded hfd hlisted
    refine ⟨?_, ?_, ?_⟩ <;> rw [hplace]
    · rw [hguarded]
      exact hapart.guarded
    · rw [hfd]
      exact hapart.fd
    · rw [hlisted]
      exact hapart.listed
  cases h with
  | looks hmarks _ => exact ⟨hb', hmarked (by rw [hmarks]) (by rw [hmarks]) (by rw [hmarks])⟩
  | enters hfree hmarks =>
    refine ⟨⟨hb'.fresh, hb'.named, fun hdead => ?_⟩, ⟨?_, ?_, ?_⟩⟩
    · have hbacked := hb'.backed hdead
      refine ⟨hbacked.owned, ?_, hbacked.listed, hbacked.unlisted, hbacked.locks, hbacked.wrote⟩
      intro hguarded
      by_cases heq : b'.proc = b.proc
      · simp [LockStore.enter, heq]
      · simpa [LockStore.enter, heq] using hbacked.guarded hguarded
    · intro _ hguarded heq
      have htaken := (hsame heq.symm).guarded hguarded
      rw [← heq, hfree] at htaken
      cases htaken
    · rw [hplace, hmarks]
      exact hapart.fd
    · rw [hplace, hmarks]
      exact hapart.listed
  | leaves hguarded hmarks =>
    refine ⟨⟨hb'.fresh, hb'.named, fun hdead => ?_⟩, ⟨?_, ?_, ?_⟩⟩
    · have hbacked := hb'.backed hdead
      refine ⟨hbacked.owned, ?_, hbacked.listed, hbacked.unlisted, hbacked.locks, hbacked.wrote⟩
      intro hguarded'
      have hne := hapart.guarded hguarded hguarded'
      simpa [LockStore.leave, hne.symm] using hbacked.guarded hguarded'
    · rw [hplace, hmarks]
      simp
    · rw [hplace, hmarks]
      exact hapart.fd
    · rw [hplace, hmarks]
      exact hapart.listed
  | opens _ hmarks =>
    refine ⟨⟨fun fd hfd => Nat.lt_succ_of_lt (hb'.fresh fd hfd), ?_, fun hdead => ?_⟩, ⟨?_, ?_, ?_⟩⟩
    · intro fd p hfd hp
      have hlt := hb'.fresh fd hfd
      exact hb'.named fd p hfd (by simpa [Function.update_of_ne (Nat.ne_of_lt hlt)] using hp)
    · have hbacked := hb'.backed hdead
      refine ⟨?_, hbacked.guarded, hbacked.listed, hbacked.unlisted, hbacked.locks, hbacked.wrote⟩
      intro fd hfd
      have hlt := hb'.fresh fd hfd
      simpa [Function.update_of_ne (Nat.ne_of_lt hlt)] using hbacked.owned fd hfd
    · rw [hplace, hmarks]
      exact hapart.guarded
    · rw [hplace, hmarks]
      rintro _ ⟨⟩ hfd
      exact Nat.lt_irrefl _ (hb'.fresh _ hfd)
    · rw [hplace, hmarks]
      exact hapart.listed
  | locks _ hfree hmarks =>
    refine ⟨⟨hb'.fresh, hb'.named, fun hdead => ?_⟩, hmarked (by rw [hmarks]) (by rw [hmarks]) (by rw [hmarks])⟩
    have hbacked := hb'.backed hdead
    refine ⟨hbacked.owned, hbacked.guarded, hbacked.listed, hbacked.unlisted, ?_, hbacked.wrote⟩
    intro hlocks
    obtain ⟨fd, hfd⟩ := fd_of_locks hlocks
    have hlocked := hbacked.locks hlocks
    rw [hfree, LockJob.marks, hfd] at hlocked
    cases hlocked
  | writes hlocks hmarks _ =>
    refine ⟨⟨hb'.fresh, hb'.named, fun hdead => ?_⟩, hmarked (by rw [hmarks]) (by rw [hmarks]) (by rw [hmarks])⟩
    have hbacked := hb'.backed hdead
    refine ⟨hbacked.owned, hbacked.guarded, hbacked.listed, hbacked.unlisted, hbacked.locks, ?_⟩
    intro hwrote
    exact (not_both_lock hb hbacked hapart hlocks (locks_of_wrote hwrote)).elim
  | adds hunlisted hmarks =>
    refine ⟨⟨hb'.fresh, hb'.named, fun hdead => ?_⟩, ⟨?_, ?_, ?_⟩⟩
    · have hbacked := hb'.backed hdead
      refine ⟨hbacked.owned, hbacked.guarded, ?_, ?_, hbacked.locks, hbacked.wrote⟩
      · intro hlisted
        by_cases heq : b'.proc = b.proc
        · have hkey := hbacked.listed hlisted
          rw [heq] at hkey
          simp [heq, hkey]
        · simpa [heq] using hbacked.listed hlisted
      · intro hunlisted'
        have hne := hapart.guarded (guarded_of_unlisted hunlisted) (guarded_of_unlisted hunlisted')
        simpa [hne.symm] using hbacked.unlisted hunlisted'
    · rw [hplace, hmarks]
      exact hapart.guarded
    · rw [hplace, hmarks]
      exact hapart.fd
    · rw [hplace, hmarks]
      intro _ hlisted hproc hkey
      have hmem := (hsame hproc.symm).listed hlisted
      rw [← hkey, ← hproc] at hmem
      exact hb.unlisted hunlisted hmem
  | unlocks hlocks _ _ hmarks =>
    refine ⟨⟨hb'.fresh, hb'.named, fun hdead => ?_⟩, hmarked (by rw [hmarks]) (by rw [hmarks]) (by rw [hmarks])⟩
    have hbacked := hb'.backed hdead
    refine ⟨hbacked.owned, hbacked.guarded, hbacked.listed, hbacked.unlisted, ?_, hbacked.wrote⟩
    intro hlocks'
    exact (not_both_lock hb hbacked hapart hlocks hlocks').elim
  | @closes fd₀ hfd _ hmarks =>
    have hne : ∀ fd, b'.marks.fd = some fd → fd ≠ fd₀ := by
      rintro fd hfd' rfl
      exact hapart.fd fd hfd hfd'
    refine ⟨⟨hb'.fresh, ?_, fun hdead => ?_⟩, ⟨?_, ?_, ?_⟩⟩
    · intro fd p hfd' hp
      exact hb'.named fd p hfd' (by simpa [LockStore.close, hne fd hfd'] using hp)
    · have hbacked := hb'.backed hdead
      refine ⟨?_, hbacked.guarded, hbacked.listed, hbacked.unlisted, ?_, hbacked.wrote⟩
      · intro fd hfd'
        simpa [LockStore.close, hne fd hfd'] using hbacked.owned fd hfd'
      · intro hlocks
        obtain ⟨fd, hfd'⟩ := fd_of_locks hlocks
        have hlocked := hbacked.locks hlocks
        rw [LockJob.marks, hfd'] at hlocked ⊢
        simp [LockStore.close, hlocked, hne fd hfd']
    · rw [hplace, hmarks]
      exact hapart.guarded
    · rw [hplace, hmarks]
      simp
    · rw [hplace, hmarks]
      exact hapart.listed
  | discards hlisted _ hmarks =>
    refine ⟨⟨hb'.fresh, hb'.named, fun hdead => ?_⟩, ⟨?_, ?_, ?_⟩⟩
    · have hbacked := hb'.backed hdead
      refine ⟨hbacked.owned, hbacked.guarded, ?_, ?_, hbacked.locks, hbacked.wrote⟩
      · intro hlisted'
        have hmem := hbacked.listed hlisted'
        by_cases heq : b'.proc = b.proc
        · have hkey := hapart.listed hlisted hlisted' heq.symm
          rw [heq] at hmem
          simp [heq, hmem, hkey.symm]
        · simpa [heq] using hmem
      · intro hunlisted
        have hmem := hbacked.unlisted hunlisted
        by_cases heq : b'.proc = b.proc
        · rw [heq] at hmem
          simp [heq, hmem]
        · simpa [heq] using hmem
    · rw [hplace, hmarks]
      exact hapart.guarded
    · rw [hplace, hmarks]
      exact hapart.fd
    · rw [hplace, hmarks]
      simp

/-! ### A crash -/

theorem LockStore.Sound.crash (hs : s.Sound) (p : ℕ) : (s.crash p).Sound := by
  have hother : ∀ fd q, (s.crash p).owner fd = some q → s.owner fd = some q ∧ q ≠ p := by
    intro fd q hq
    simp only [LockStore.crash] at hq
    split at hq
    · cases hq
    · rename_i hne
      exact ⟨hq, fun heq => hne (heq ▸ hq)⟩
  refine ⟨?_, fun fd q hq => hs.fresh fd q (hother fd q hq).1, ?_⟩
  · intro fd hfd
    obtain ⟨hlocked, hne⟩ := Option.filter_eq_some_iff.mp hfd
    obtain ⟨q, hq⟩ := hs.locked fd hlocked
    refine ⟨q, ?_⟩
    simp only [ne_eq, decide_not, Bool.not_eq_true', decide_eq_false_iff_not] at hne
    simp [LockStore.crash, hq, hq ▸ hne]
  · intro fd q hq
    obtain ⟨hq, hne⟩ := hother fd q hq
    simpa [LockStore.crash, hne] using hs.alive fd q hq

theorem LockJob.Sound.crash (hb : b.Sound s) (p : ℕ) : b.Sound (s.crash p) := by
  refine ⟨hb.fresh, ?_, fun hdead => ?_⟩
  · intro fd q hfd hq
    simp only [LockStore.crash, Option.ite_none_left_eq_some] at hq
    exact hb.named fd q hfd hq.2
  have hne : b.proc ≠ p := by
    rintro rfl
    simp [LockStore.crash] at hdead
  have hbacked := hb.backed (by simpa [LockStore.crash, hne] using hdead)
  have hkept : ∀ fd, b.marks.fd = some fd → s.owner fd ≠ some p := by
    intro fd hfd
    rw [hbacked.owned fd hfd]
    simpa using hne
  refine ⟨?_, hbacked.guarded, hbacked.listed, hbacked.unlisted, ?_, hbacked.wrote⟩
  · intro fd hfd
    simpa [LockStore.crash, hkept fd hfd] using hbacked.owned fd hfd
  · intro hlocks
    obtain ⟨fd, hfd⟩ := fd_of_locks hlocks
    have hlocked := hbacked.locks hlocks
    rw [LockJob.marks, hfd] at hlocked ⊢
    simp [LockStore.crash, hlocked, hkept fd hfd]

end Effects

/-! ### Runs -/

theorem lockAct_cases {turn : LockTurn} {b b' : LockJob} {s s' : LockStore} (h : lockAct turn b s = some (b', s')) :
    (∃ p, turn = .crash p ∧ b' = b ∧ s' = s.crash p) ∨
      (∃ p key content, turn = .call p key content ∧ b.place = .idle ∧ s.dead p = false ∧
        b' = ⟨p, key, content, .waiting⟩ ∧ s' = s) ∨
      (s.dead b.proc = false ∧ ∃ l, b' = { b with place := l } ∧ LockEffect b s l s' ∧ lockMove b s turn = some (l, s')) := by
  have hmove : ∀ turn, (if s.dead b.proc then none else (lockMove b s turn).map fun r => ({ b with place := r.1 }, r.2)) =
      some (b', s') → s.dead b.proc = false ∧ ∃ l, b' = { b with place := l } ∧ LockEffect b s l s' ∧
        lockMove b s turn = some (l, s') := by
    intro turn h
    simp only [Option.ite_none_left_eq_some, Option.map_eq_some_iff, Prod.mk.injEq] at h
    obtain ⟨hdead, ⟨l, u⟩, hl, rfl, rfl⟩ := h
    exact ⟨by simpa using hdead, l, rfl, effect_of_move hl, hl⟩
  cases turn with
  | crash p =>
    cases h
    exact Or.inl ⟨p, rfl, rfl, rfl⟩
  | call p key content =>
    simp only [lockAct, Option.ite_none_right_eq_some, Option.some.injEq, Prod.mk.injEq] at h
    obtain ⟨⟨hidle, hdead⟩, rfl, rfl⟩ := h
    exact Or.inr (Or.inl ⟨p, key, content, rfl, hidle, hdead, rfl, rfl⟩)
  | _ => exact Or.inr (Or.inr (hmove _ h))

theorem lock_keeps :
    Keeps lockAct anyTurn LockStore.Sound (fun b s => b.Sound s) LockJob.Apart where
  own := by
    intro w k turn b s hw _ h
    rcases lockAct_cases h with ⟨p, -, rfl, rfl⟩ | ⟨p, key, content, -, -, -, rfl, rfl⟩ | ⟨hdead, l, rfl, heffect, -⟩
    · exact ⟨hw.store.crash p, (hw.each k).crash p⟩
    · exact ⟨hw.store, LockJob.sound_bare rfl _⟩
    · have hbacked := (hw.each k).backed hdead
      exact ⟨heffect.store hw.store hbacked hdead, heffect.own (hw.each k) hbacked⟩
  other := by
    intro w k turn b s hw _ h k' hk'
    rcases lockAct_cases h with ⟨p, -, rfl, rfl⟩ | ⟨p, key, content, -, -, -, rfl, rfl⟩ | ⟨hdead, l, rfl, heffect, -⟩
    · exact ⟨(hw.each k').crash p, hw.pair k k' hk'.symm, hw.pair k' k hk'⟩
    · exact ⟨hw.each k', LockJob.apart_bare rfl _, (LockJob.apart_bare rfl _).symm⟩
    · obtain ⟨hsound, hapart⟩ :=
        heffect.other ((hw.each k).backed hdead) hdead (hw.each k') (hw.pair k k' hk'.symm)
      exact ⟨hsound, hapart, hapart.symm⟩

abbrev LockHolds (w : LockWorld) : Prop := Holds LockStore.Sound (fun b s => b.Sound s) LockJob.Apart w

variable {w w' : LockWorld} {file : List Char}

theorem lock_holds (h : Runs.Later (step lockAct) anyTurn (LockWorld.initial file) w) : LockHolds w := by
  have hstart : LockHolds (LockWorld.initial file) := by
    refine ⟨⟨?_, ?_, ?_⟩, fun _ => LockJob.sound_bare rfl _, fun _ _ _ => LockJob.apart_bare rfl _⟩ <;>
      simp [LockWorld.initial]
  exact hstart.later lock_keeps h

/-! ### Nothing is left behind

A descriptor that has the file locked, a listed key and a taken guard each have a call. -/

abbrev Locked (fd : ℕ) : LockWorld → Prop :=
  Someone (fun s : LockStore => s.locked ≠ some fd) fun b : LockJob => b.marks.fd = some fd

abbrev Listed (p : ℕ) (key : List Char) : LockWorld → Prop :=
  Someone (fun s : LockStore => key ∉ s.processLocks p) fun b : LockJob =>
    b.proc = p ∧ b.key = key ∧ b.marks.listed = true

abbrev Guarded (p : ℕ) : LockWorld → Prop :=
  Someone (fun s : LockStore => s.guard p = false) fun b : LockJob => b.proc = p ∧ b.marks.guarded = true

section Left

variable {k p : ℕ} {turn : LockTurn} {key : List Char} {b b' : LockJob} {s s' : LockStore}

theorem locked_act (fd : ℕ) (h : lockAct turn b s = some (b', s')) :
    s'.locked ≠ some fd ∨ b'.marks.fd = some fd ∨ ¬ b.marks.fd = some fd ∧ (s.locked ≠ some fd → s'.locked ≠ some fd) := by
  rcases lockAct_cases h with ⟨p, -, rfl, rfl⟩ | ⟨p, key, content, -, hidle, -, rfl, rfl⟩ | ⟨-, l, rfl, heffect, -⟩
  · refine still id fun hne hlocked => hne ?_
    exact (Option.filter_eq_some_iff.mp hlocked).1
  · exact still (fun hfd => by simp [LockJob.marks, hidle, LockPlace.marks] at hfd) id
  · have hplace : LockJob.marks { b with place := l } = l.marks := rfl
    rw [hplace]
    cases heffect with
    | looks hmarks _ => exact still (fun hfd => by rw [hmarks]; exact hfd) id
    | enters _ hmarks => exact still (fun hfd => by rw [hmarks]; exact hfd) id
    | leaves _ hmarks => exact still (fun hfd => by rw [hmarks]; exact hfd) id
    | opens hnone _ => exact Or.inr (Or.inr ⟨by simp [hnone], id⟩)
    | @locks fd₀ hfd _ hmarks =>
      by_cases heq : fd₀ = fd
      · refine Or.inr (Or.inl ?_)
        rw [hmarks, ← heq]
        exact hfd
      · exact Or.inl (by simpa using heq)
    | writes _ hmarks _ => exact still (fun hfd => by rw [hmarks]; exact hfd) id
    | adds _ hmarks => exact still (fun hfd => by rw [hmarks]; exact hfd) id
    | unlocks _ _ hlocked hmarks =>
      refine still (fun hfd => by rw [hmarks]; exact hfd) ?_
      rcases hlocked with rfl | rfl
      · simp
      · exact id
    | @closes fd₀ hfd _ _ =>
      by_cases heq : fd₀ = fd
      · refine Or.inl ?_
        simp only [LockStore.close]
        split
        · simp
        · rwa [← heq]
      · refine Or.inr (Or.inr ⟨by simpa [hfd] using heq, ?_⟩)
        simp only [LockStore.close]
        split
        · simp
        · exact id
    | discards _ _ hmarks => exact still (fun hfd => by rw [hmarks]; exact hfd) id

theorem listed_act (p : ℕ) (key : List Char) (h : lockAct turn b s = some (b', s')) :
    key ∉ s'.processLocks p ∨ (b'.proc = p ∧ b'.key = key ∧ b'.marks.listed = true) ∨
      ¬ (b.proc = p ∧ b.key = key ∧ b.marks.listed = true) ∧ (key ∉ s.processLocks p → key ∉ s'.processLocks p) := by
  rcases lockAct_cases h with ⟨p, -, rfl, rfl⟩ | ⟨p, key, content, -, hidle, -, rfl, rfl⟩ | ⟨-, l, rfl, heffect, -⟩
  · exact still id id
  · exact still (fun hlisted => by simp [LockJob.marks, hidle, LockPlace.marks] at hlisted) id
  · have hplace : LockJob.marks { b with place := l } = l.marks := rfl
    rw [hplace]
    cases heffect with
    | looks hmarks _ => exact still (fun hlisted => by rw [hmarks]; exact hlisted) id
    | enters _ hmarks => exact still (fun hlisted => by rw [hmarks]; exact hlisted) id
    | leaves _ hmarks => exact still (fun hlisted => by rw [hmarks]; exact hlisted) id
    | opens _ hmarks => exact still (fun hlisted => by rw [hmarks]; exact hlisted) id
    | locks _ _ hmarks => exact still (fun hlisted => by rw [hmarks]; exact hlisted) id
    | writes _ hmarks _ => exact still (fun hlisted => by rw [hmarks]; exact hlisted) id
    | adds _ hmarks =>
      by_cases heq : b.proc = p ∧ b.key = key
      · exact Or.inr (Or.inl ⟨heq.1, heq.2, by rw [hmarks]⟩)
      · refine Or.inr (Or.inr ⟨fun hlisted => heq ⟨hlisted.1, hlisted.2.1⟩, ?_⟩)
        intro hkey
        by_cases hproc : p = b.proc
        · have hne : key ≠ b.key := fun hsame => heq ⟨hproc.symm, hsame.symm⟩
          rw [hproc] at hkey
          simp [hproc, hkey, hne]
        · simpa [hproc] using hkey
    | unlocks _ _ _ hmarks => exact still (fun hlisted => by rw [hmarks]; exact hlisted) id
    | closes _ _ hmarks => exact still (fun hlisted => by rw [hmarks]; exact hlisted) id
    | discards _ _ _ =>
      by_cases heq : b.proc = p ∧ b.key = key
      · refine Or.inl ?_
        simp [← heq.1, ← heq.2]
      · refine Or.inr (Or.inr ⟨fun hlisted => heq ⟨hlisted.1, hlisted.2.1⟩, ?_⟩)
        intro hkey
        by_cases hproc : p = b.proc
        · rw [hproc] at hkey
          simp [hproc, hkey]
        · simpa [hproc] using hkey

theorem guarded_act (p : ℕ) (h : lockAct turn b s = some (b', s')) :
    s'.guard p = false ∨ (b'.proc = p ∧ b'.marks.guarded = true) ∨
      ¬ (b.proc = p ∧ b.marks.guarded = true) ∧ (s.guard p = false → s'.guard p = false) := by
  rcases lockAct_cases h with ⟨p, -, rfl, rfl⟩ | ⟨p, key, content, -, hidle, -, rfl, rfl⟩ | ⟨-, l, rfl, heffect, -⟩
  · exact still id id
  · exact still (fun hguarded => by simp [LockJob.marks, hidle, LockPlace.marks] at hguarded) id
  · have hplace : LockJob.marks { b with place := l } = l.marks := rfl
    rw [hplace]
    cases heffect with
    | looks hmarks _ => exact still (fun hguarded => by rw [hmarks]; exact hguarded) id
    | enters _ hmarks =>
      by_cases hproc : b.proc = p
      · exact Or.inr (Or.inl ⟨hproc, by rw [hmarks]⟩)
      · refine Or.inr (Or.inr ⟨fun hguarded => hproc hguarded.1, ?_⟩)
        simp [LockStore.enter, Ne.symm hproc]
    | leaves _ _ =>
      by_cases hproc : b.proc = p
      · refine Or.inl ?_
        simp [LockStore.leave, hproc]
      · refine Or.inr (Or.inr ⟨fun hguarded => hproc hguarded.1, ?_⟩)
        simp [LockStore.leave, Ne.symm hproc]
    | opens _ hmarks => exact still (fun hguarded => by rw [hmarks]; exact hguarded) id
    | locks _ _ hmarks => exact still (fun hguarded => by rw [hmarks]; exact hguarded) id
    | writes _ hmarks _ => exact still (fun hguarded => by rw [hmarks]; exact hguarded) id
    | adds _ hmarks => exact still (fun hguarded => by rw [hmarks]; exact hguarded) id
    | unlocks _ _ _ hmarks => exact still (fun hguarded => by rw [hmarks]; exact hguarded) id
    | closes _ _ hmarks => exact still (fun hguarded => by rw [hmarks]; exact hguarded) id
    | discards _ _ hmarks => exact still (fun hguarded => by rw [hmarks]; exact hguarded) id

end Left

/-- What a run leaves has its call. -/
theorem someone_later {Q : LockStore → Prop} {P : LockJob → Prop} (h : Runs.Later (step lockAct) anyTurn (LockWorld.initial file) w)
    (hstart : Q (LockWorld.initial file).store)
    (hact : ∀ {turn b s b' s'}, lockAct turn b s = some (b', s') → Q s' ∨ P b' ∨ ¬ P b ∧ (Q s → Q s')) :
    Someone Q P w := by
  refine h.invariant (I := Someone Q P) (Or.inl hstart) ?_
  rintro w w' ⟨k, turn⟩ hw - hstep
  exact Someone.step hw hstep fun hstep => hact hstep

/-- Who has the file locked, and is not told to hold it, does not exist. -/
theorem none_locked (hw : LockHolds w) (hlocked : ∀ fd, Locked fd w) (hnone : ∀ j, ¬ w.holds j) :
    w.store.locked = none := by
  by_contra hne
  obtain ⟨fd, hfd⟩ := Option.ne_none_iff_exists'.mp hne
  rcases hlocked fd with hnot | ⟨j, hj⟩
  · exact hnot hfd
  · obtain ⟨p, hp⟩ := hw.store.locked fd hfd
    have hproc := (hw.each j).named fd p hj hp
    refine hnone j ⟨?_, fd, ?_, hfd⟩
    · rw [← hproc]
      exact hw.store.alive fd p hp
    · rw [← marks_fd]
      exact hj

/-- A listed key whose process is alive and whose guard is free belongs to a call that holds. -/
theorem not_listed (hw : LockHolds w) {p : ℕ} {key : List Char} (hlisted : Listed p key w) (hnone : ∀ j, ¬ w.holds j)
    (halive : w.store.dead p = false) (hguard : w.store.guard p = false) : key ∉ w.store.processLocks p := by
  rcases hlisted with hnot | ⟨j, hproc, -, hmark⟩
  · exact hnot
  · have hbacked := (hw.each j).backed (by rw [hproc]; exact halive)
    have hunguarded : (w.job j).marks.guarded = false := by
      by_contra hguarded
      have := hbacked.guarded (by simpa using hguarded)
      rw [hproc, hguard] at this
      cases this
    have hlocks := locks_of_listed hmark hunguarded
    obtain ⟨fd, hfd⟩ := fd_of_locks hlocks
    refine (hnone j ⟨by rw [hproc]; exact halive, fd, ?_, ?_⟩).elim
    · rw [← marks_fd]
      exact hfd
    · rw [hbacked.locks hlocks]
      exact hfd

end CyClaw.Sync

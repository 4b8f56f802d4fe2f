/-
Critical sections.

A mutex is any system that says which callers are inside, and a body what a caller does
there, one step at a time, with a store that all callers share.  `step` runs the two side by
side: the mutex takes its own steps whenever it likes, a caller brings its arguments when it
enters, works on the store while it is inside, and leaves when its job is done.

Where the mutex keeps the callers apart, reasoning about the store is sequential:
`Holds.later` asks for an invariant of the store and an assertion about the caller that is
inside, and never for what one caller's step does to another's assertion.
-/
import CyClaw.Lib.Runs
import Mathlib.Logic.Function.Basic

namespace Sections

/-- A mutex: its own steps, and the two that let a caller in and out. -/
structure Mutex (κ σ ε : Type) where
  step : ε → σ → Option σ
  enter : κ → σ → Option σ
  leave : κ → σ → Option σ
  inside : σ → κ → Bool

/-- What a caller does inside.  `start` may turn the arguments down. -/
structure Body (α β φ δ : Type) where
  start : α → Option β
  act : φ → β → δ → Option (β × δ)
  done : β → Bool

structure World (κ σ β δ : Type) where
  lock : σ
  job : κ → β
  store : δ

inductive Event (κ ε α φ : Type) where
  | lock (e : ε)
  | enter (k : κ) (a : α)
  | act (k : κ) (c : φ)
  | leave (k : κ)

variable {κ σ ε α β φ δ : Type} [DecidableEq κ]

def step (m : Mutex κ σ ε) (b : Body α β φ δ) : Event κ ε α φ → World κ σ β δ → Option (World κ σ β δ)
  | .lock e, w => (m.step e w.lock).map fun l => { w with lock := l }
  | .enter k a, w =>
      match m.enter k w.lock, b.start a with
      | some l, some j => some { w with lock := l, job := Function.update w.job k j }
      | _, _ => none
  | .act k c, w =>
      if m.inside w.lock k then
        (b.act c (w.job k) w.store).map fun r =>
          { w with job := Function.update w.job k r.1, store := r.2 }
      else none
  | .leave k, w => if b.done (w.job k) then (m.leave k w.lock).map fun l => { w with lock := l } else none

/-- The mutex's own steps are admitted as it says, everything else is. -/
def admits (allow : σ → ε → Bool) (w : World κ σ β δ) : Event κ ε α φ → Bool
  | .lock e => allow w.lock e
  | _ => true

/-- What keeps the callers of a mutex apart: an invariant of its admitted steps under which
at most one caller is inside, and a caller comes in by entering only. -/
structure Apart (m : Mutex κ σ ε) (allow : σ → ε → Bool) (I : σ → Prop) : Prop where
  one : ∀ {l k k'}, I l → m.inside l k = true → m.inside l k' = true → k = k'
  step : ∀ {l l' e}, I l → allow l e = true → m.step e l = some l' →
    I l' ∧ ∀ k, m.inside l' k = true → m.inside l k = true
  enter : ∀ {l l' k}, I l → m.enter k l = some l' →
    I l' ∧ ∀ k', m.inside l' k' = true → k' = k ∨ m.inside l k' = true
  leave : ∀ {l l' k}, I l → m.leave k l = some l' →
    I l' ∧ ∀ k', m.inside l' k' = true → m.inside l k' = true

/-- What a body keeps: an invariant of the store, and an assertion about the caller inside. -/
structure Keeps (b : Body α β φ δ) (J : δ → Prop) (A : β → δ → Prop) : Prop where
  start : ∀ {a j s}, J s → b.start a = some j → A j s
  act : ∀ {c j j' s s'}, J s → A j s → b.act c j s = some (j', s') → J s' ∧ A j' s'

/-- The invariant of the two together. -/
structure Holds (m : Mutex κ σ ε) (I : σ → Prop) (J : δ → Prop) (A : β → δ → Prop) (w : World κ σ β δ) :
    Prop where
  lock : I w.lock
  store : J w.store
  job : ∀ k, m.inside w.lock k = true → A (w.job k) w.store

section Rule

variable {m : Mutex κ σ ε} {b : Body α β φ δ} {allow : σ → ε → Bool} {I : σ → Prop} {J : δ → Prop}
  {A : β → δ → Prop} {w w' : World κ σ β δ}

theorem Holds.step (hm : Apart m allow I) (hb : Keeps b J A) {e : Event κ ε α φ} (hw : Holds m I J A w)
    (hallow : admits allow w e = true) (h : Sections.step m b e w = some w') : Holds m I J A w' := by
  cases e with
  | lock e =>
      obtain ⟨l, hl, rfl⟩ := Option.map_eq_some_iff.mp h
      obtain ⟨hI, hinside⟩ := hm.step hw.lock hallow hl
      exact ⟨hI, hw.store, fun k hk => hw.job k (hinside k hk)⟩
  | enter k a =>
      rw [Sections.step] at h
      split at h
      · rename_i l j hl hj
        rw [Option.some.injEq] at h
        rw [← h]
        obtain ⟨hI, hinside⟩ := hm.enter hw.lock hl
        refine ⟨hI, hw.store, ?_⟩
        intro k' hk'
        dsimp only
        by_cases heq : k' = k
        · subst heq
          rw [Function.update_self]
          exact hb.start hw.store hj
        · rw [Function.update_of_ne heq]
          exact hw.job k' ((hinside k' hk').resolve_left heq)
      · cases h
  | act k c =>
      rw [Sections.step] at h
      split at h
      · rename_i hk
        obtain ⟨⟨j, s⟩, hact, rfl⟩ := Option.map_eq_some_iff.mp h
        obtain ⟨hJ, hA⟩ := hb.act hw.store (hw.job k hk) hact
        refine ⟨hw.lock, hJ, ?_⟩
        -- Nobody else is inside, so there is no other assertion to keep.
        intro k' hk'
        have heq : k' = k := hm.one hw.lock hk' hk
        subst heq
        dsimp only
        rw [Function.update_self]
        exact hA
      · cases h
  | leave k =>
      rw [Sections.step] at h
      split at h
      · obtain ⟨l, hl, rfl⟩ := Option.map_eq_some_iff.mp h
        obtain ⟨hI, hinside⟩ := hm.leave hw.lock hl
        exact ⟨hI, hw.store, fun k' hk' => hw.job k' (hinside k' hk')⟩
      · cases h

/-- **The section rule.** -/
theorem Holds.later (hm : Apart m allow I) (hb : Keeps b J A) (hw : Holds m I J A w)
    (h : Runs.Later (Sections.step m b) (admits allow) w w') : Holds m I J A w' :=
  h.invariant (I := Holds m I J A) hw fun hs ha he => hs.step hm hb ha he

end Rule

end Sections

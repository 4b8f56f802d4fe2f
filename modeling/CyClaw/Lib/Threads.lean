/-
Threads that take turns.

Every thread is at a place in its program, and all share a store.  `act` says what the next
step of a thread makes of its place and of the store, `none` where there is no such step.
Whose turn it is stays open, so a run is any interleaving; `allow` may rule turns out.

`Holds` puts an invariant together from one of the store, one of a thread by itself and one of
any two threads, and `Keeps` asks of a single step what carries it (`Holds.later`).  `Someone`
is for what some thread still owes the store.
-/
import CyClaw.Lib.Runs
import Mathlib.Logic.Function.Basic

namespace Threads

structure World (κ β δ : Type*) where
  job : κ → β
  store : δ

variable {κ β φ δ : Type*} [DecidableEq κ]

def World.set (w : World κ β δ) (k : κ) (b : β) (s : δ) : World κ β δ where
  job := Function.update w.job k b
  store := s

@[simp] theorem World.set_store (w : World κ β δ) (k : κ) (b : β) (s : δ) : (w.set k b s).store = s := rfl

@[simp] theorem World.set_job_self (w : World κ β δ) (k : κ) (b : β) (s : δ) : (w.set k b s).job k = b := by
  unfold World.set
  exact Function.update_self k b w.job

theorem World.set_job_of_ne (w : World κ β δ) {k k' : κ} (b : β) (s : δ) (h : k' ≠ k) :
    (w.set k b s).job k' = w.job k' := by
  unfold World.set
  exact Function.update_of_ne h b w.job

/-- A turn is a thread's, with what the surroundings choose for it. -/
def step (act : φ → β → δ → Option (β × δ)) (turn : κ × φ) (w : World κ β δ) : Option (World κ β δ) :=
  (act turn.2 (w.job turn.1) w.store).map fun r => w.set turn.1 r.1 r.2

section Rule

variable {act : φ → β → δ → Option (β × δ)} {allow : World κ β δ → κ × φ → Bool} {w w' : World κ β δ}
  {k : κ} {c : φ}

theorem step_ok (h : step act (k, c) w = some w') :
    ∃ b s, act c (w.job k) w.store = some (b, s) ∧ w' = w.set k b s := by
  obtain ⟨⟨b, s⟩, hact, heq⟩ := Option.map_eq_some_iff.mp h
  exact ⟨b, s, hact, heq.symm⟩

/-- An invariant of the store, of each thread and of any two. -/
structure Holds (I : δ → Prop) (A : β → δ → Prop) (B : β → β → Prop) (w : World κ β δ) : Prop where
  store : I w.store
  each : ∀ k, A (w.job k) w.store
  pair : ∀ k k', k ≠ k' → B (w.job k) (w.job k')

/-- What a step has to keep: the store and its own thread, and every other thread with it. -/
structure Keeps (act : φ → β → δ → Option (β × δ)) (allow : World κ β δ → κ × φ → Bool) (I : δ → Prop)
    (A : β → δ → Prop) (B : β → β → Prop) : Prop where
  own : ∀ {w : World κ β δ} {k c b s}, Holds I A B w → allow w (k, c) = true →
    act c (w.job k) w.store = some (b, s) → I s ∧ A b s
  other : ∀ {w : World κ β δ} {k c b s}, Holds I A B w → allow w (k, c) = true →
    act c (w.job k) w.store = some (b, s) → ∀ k', k' ≠ k → A (w.job k') s ∧ B b (w.job k') ∧ B (w.job k') b

variable {I : δ → Prop} {A : β → δ → Prop} {B : β → β → Prop}

theorem Holds.step (hw : Holds I A B w) (hk : Keeps act allow I A B) (hallow : allow w (k, c) = true)
    (h : Threads.step act (k, c) w = some w') : Holds I A B w' := by
  obtain ⟨b, s, hact, rfl⟩ := step_ok h
  obtain ⟨hI, hA⟩ := hk.own hw hallow hact
  have hother := hk.other hw hallow hact
  refine ⟨hI, ?_, ?_⟩
  · intro k₁
    by_cases h₁ : k₁ = k
    · rw [h₁, World.set_job_self]
      exact hA
    · rw [World.set_job_of_ne w b s h₁]
      exact (hother k₁ h₁).1
  · intro k₁ k₂ hne
    by_cases h₁ : k₁ = k
    · have h₂ : k₂ ≠ k := fun h => hne (h₁.trans h.symm)
      rw [h₁, World.set_job_self, World.set_job_of_ne w b s h₂]
      exact (hother k₂ h₂).2.1
    · rw [World.set_job_of_ne w b s h₁]
      by_cases h₂ : k₂ = k
      · rw [h₂, World.set_job_self]
        exact (hother k₁ h₁).2.2
      · rw [World.set_job_of_ne w b s h₂]
        exact hw.pair k₁ k₂ hne

/-- **The rule for threads.** -/
theorem Holds.later (hw : Holds I A B w) (hk : Keeps act allow I A B)
    (h : Runs.Later (Threads.step act) allow w w') : Holds I A B w' :=
  h.invariant (I := Holds I A B) hw fun {_ _ e} hs ha he => hs.step (k := e.1) (c := e.2) hk ha he

/-- The store is as it should be, or some thread is still to see to it. -/
def Someone (Q : δ → Prop) (P : β → Prop) (w : World κ β δ) : Prop := Q w.store ∨ ∃ k, P (w.job k)

/-- A step after which the thread still sees to the store, if it did. -/
theorem still {P P' Q Q' : Prop} (hP : P → P') (hQ : Q → Q') : Q' ∨ P' ∨ ¬ P ∧ (Q → Q') := by
  by_cases h : P
  · exact Or.inr (Or.inl (hP h))
  · exact Or.inr (Or.inr ⟨h, hQ⟩)

theorem Someone.step {Q : δ → Prop} {P : β → Prop} (hw : Someone Q P w) (h : Threads.step act (k, c) w = some w')
    (hact : ∀ {b s}, act c (w.job k) w.store = some (b, s) → Q s ∨ P b ∨ ¬ P (w.job k) ∧ (Q w.store → Q s)) :
    Someone Q P w' := by
  obtain ⟨b, s, hstep, rfl⟩ := step_ok h
  rcases hact hstep with hQ | hP | ⟨hnot, hQ⟩
  · exact Or.inl hQ
  · refine Or.inr ⟨k, ?_⟩
    rw [World.set_job_self]
    exact hP
  · rcases hw with hstore | ⟨j, hj⟩
    · exact Or.inl (hQ hstore)
    · refine Or.inr ⟨j, ?_⟩
      rw [World.set_job_of_ne w b s (by rintro rfl; exact hnot hj)]
      exact hj

/-- `Someone`, where what the thread has is measured by the store. -/
def Owed (Q : δ → Prop) (P : β → δ → Prop) (w : World κ β δ) : Prop := Q w.store ∨ ∃ k, P (w.job k) w.store

theorem Owed.step {Q : δ → Prop} {P : β → δ → Prop} (hw : Owed Q P w) (h : Threads.step act (k, c) w = some w')
    (hact : ∀ {b s}, act c (w.job k) w.store = some (b, s) →
      Q s ∨ P b s ∨ ¬ P (w.job k) w.store ∧ (Q w.store → Q s) ∧ ∀ j, P j w.store → P j s) : Owed Q P w' := by
  obtain ⟨b, s, hstep, rfl⟩ := step_ok h
  rcases hact hstep with hQ | hP | ⟨hnot, hQ, hP⟩
  · exact Or.inl hQ
  · refine Or.inr ⟨k, ?_⟩
    rw [World.set_job_self]
    exact hP
  · rcases hw with hstore | ⟨j, hj⟩
    · exact Or.inl (hQ hstore)
    · refine Or.inr ⟨j, ?_⟩
      rw [World.set_job_of_ne w b s (by rintro rfl; exact hnot hj)]
      exact hP _ hj

/-- A run leaves alone the threads that take no turn in it. -/
theorem job_of_run {turns : List (κ × φ)} (h : Runs.run (step act) allow turns w = some w')
    (hk : ∀ turn ∈ turns, turn.1 ≠ k) : w'.job k = w.job k := by
  induction turns generalizing w with
  | nil =>
    rw [Runs.run, Option.some.injEq] at h
    rw [h]
  | cons turn turns ih =>
    rw [Runs.run, Option.ite_none_right_eq_some, Option.bind_eq_some_iff] at h
    obtain ⟨-, u, hu, hrun⟩ := h
    obtain ⟨b, s, -, rfl⟩ := step_ok (k := turn.1) (c := turn.2) hu
    rw [ih hrun fun t ht => hk t (List.mem_cons_of_mem _ ht)]
    exact World.set_job_of_ne w b s (hk turn List.mem_cons_self).symm

/-- A thread that takes its turns by itself. -/
def solo (act : φ → β → δ → Option (β × δ)) : List φ → β → δ → Option (β × δ)
  | [], b, s => some (b, s)
  | c :: cs, b, s => (act c b s).bind fun r => solo act cs r.1 r.2

theorem run_solo {cs : List φ} {b : β} {s : δ} (h : solo act cs (w.job k) w.store = some (b, s)) :
    Runs.run (step act) (fun _ _ => true) (cs.map fun c => (k, c)) w = some (w.set k b s) := by
  induction cs generalizing w with
  | nil =>
    simp only [solo, Option.some.injEq, Prod.mk.injEq] at h
    rw [← h.1, ← h.2, List.map_nil, Runs.run, World.set, Function.update_eq_self]
  | cons c cs ih =>
    obtain ⟨⟨b₁, s₁⟩, hact, hrest⟩ := Option.bind_eq_some_iff.mp h
    have hfirst : step act (k, c) w = some (w.set k b₁ s₁) := by simp [step, hact]
    have hlast := ih (w := w.set k b₁ s₁) (by simpa using hrest)
    rw [List.map_cons, Runs.run, if_pos rfl, hfirst, Option.bind_some, hlast]
    simp [World.set]

/-- What holds of every thread at first, and of those that took a turn in the end, holds of all. -/
theorem jobs_of_run {P : β → Prop} {turns : List (κ × φ)} (h : Runs.run (step act) allow turns w = some w')
    (hstart : ∀ k, P (w.job k)) (hturns : ∀ turn ∈ turns, P (w'.job turn.1)) (k : κ) : P (w'.job k) := by
  by_cases hk : ∃ turn ∈ turns, turn.1 = k
  · obtain ⟨turn, hturn, rfl⟩ := hk
    exact hturns turn hturn
  · rw [job_of_run h fun turn hturn heq => hk ⟨turn, hturn, heq⟩]
    exact hstart k

end Rule

end Threads

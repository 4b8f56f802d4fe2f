/-
Calls that look around, and then act once.

A call goes from place to place.  `next` says where its next step leads, `none` where the call is
over then, and what it makes of the state.  Steps of different calls come in any order that
`allow` admits.

`Once` asks that a step leaves the state alone unless it is the last of its call, and that the
last one does then what the whole call does when nobody else is there.  The state is what the
calls make of it one at a time, in the order in which they end (`Once.serialised`).
-/
import CyClaw.Lib.Runs
import Mathlib.Data.List.Nodup
import Mathlib.Logic.Function.Basic

namespace Serial

structure World (κ γ δ : Type*) where
  place : κ → Option γ
  state : δ
  /-- The calls that are over, the first one first. -/
  order : List κ

variable {κ γ δ : Type*}

def World.initial (start : κ → γ) (s : δ) : World κ γ δ where
  place := fun k => some (start k)
  state := s
  order := []

def step [DecidableEq κ] (next : κ → γ → δ → Option γ × δ) (k : κ) (w : World κ γ δ) : Option (World κ γ δ) :=
  (w.place k).map fun g =>
    { place := Function.update w.place k (next k g w.state).1
      state := (next k g w.state).2
      order := if (next k g w.state).1.isNone then w.order ++ [k] else w.order }

/-- The calls one at a time. -/
def run (alone : κ → δ → δ) (s : δ) (order : List κ) : δ := order.foldl (fun s k => alone k s) s

@[simp] theorem run_concat (alone : κ → δ → δ) (s : δ) (order : List κ) (k : κ) :
    run alone s (order ++ [k]) = alone k (run alone s order) := by
  unfold run
  rw [List.foldl_append, List.foldl_cons, List.foldl_nil]

/-- **The state is what the calls that are over make of it one at a time.** -/
structure Serialised (alone : κ → δ → δ) (s : δ) (w : World κ γ δ) : Prop where
  state : w.state = run alone s w.order
  nodup : w.order.Nodup
  finished : ∀ k, k ∈ w.order ↔ w.place k = none

variable {next : κ → γ → δ → Option γ × δ} {alone : κ → δ → δ} {allow : World κ γ δ → κ → Bool} {I : δ → Prop}
  {P : κ → γ → Prop} {start : κ → γ} {s : δ} {w w' : World κ γ δ} {k : κ}

/-- A call is at a place, from which it may take its next step. -/
structure Turn (allow : World κ γ δ → κ → Bool) (I : δ → Prop) (P : κ → γ → Prop) (w : World κ γ δ) (k : κ) (g : γ) :
    Prop where
  allowed : allow w k = true
  at_place : w.place k = some g
  state : I w.state
  place : P k g

structure Once (next : κ → γ → δ → Option γ × δ) (alone : κ → δ → δ) (allow : World κ γ δ → κ → Bool) (I : δ → Prop)
    (P : κ → γ → Prop) : Prop where
  looks : ∀ {w k g g' s}, Turn allow I P w k g → next k g w.state = (some g', s) → s = w.state ∧ P k g'
  acts : ∀ {w k g s}, Turn allow I P w k g → next k g w.state = (none, s) → s = alone k w.state
  keeps : ∀ {k s}, I s → I (alone k s)

/-- What a run keeps. -/
structure Kept (alone : κ → δ → δ) (I : δ → Prop) (P : κ → γ → Prop) (s : δ) (w : World κ γ δ) : Prop where
  serialised : Serialised alone s w
  state : I w.state
  places : ∀ k g, w.place k = some g → P k g

theorem kept_initial (hI : I s) (hP : ∀ k, P k (start k)) : Kept alone I P s (World.initial start s) where
  serialised := ⟨rfl, List.nodup_nil, fun k => by simp [World.initial]⟩
  state := hI
  places := by
    rintro k g ⟨rfl⟩
    exact hP k

variable [DecidableEq κ]

theorem places_update {p : Option γ} (hw : ∀ k g, w.place k = some g → P k g) (hp : ∀ g, p = some g → P k g) (k' : κ)
    (g : γ) (h : Function.update w.place k p k' = some g) : P k' g := by
  by_cases hk : k' = k
  · subst hk
    rw [Function.update_self] at h
    exact hp g h
  · rw [Function.update_of_ne hk] at h
    exact hw k' g h

theorem Once.step (h : Once next alone allow I P) (hw : Kept alone I P s w) (ha : allow w k = true)
    (hstep : Serial.step next k w = some w') : Kept alone I P s w' := by
  obtain ⟨g, hg, rfl⟩ := Option.map_eq_some_iff.mp hstep
  have hturn : Turn allow I P w k g := ⟨ha, hg, hw.state, hw.places k g hg⟩
  have hnot : k ∉ w.order := by
    intro hmem
    rw [hw.serialised.finished, hg] at hmem
    cases hmem
  rcases hnext : next k g w.state with ⟨_ | g', s'⟩
  · obtain rfl := h.acts hturn hnext
    refine ⟨⟨?_, ?_, ?_⟩, h.keeps hw.state, places_update hw.places (by simp)⟩
    · simp [← hw.serialised.state]
    · have hconcat := hw.serialised.nodup.concat hnot
      rwa [List.concat_eq_append] at hconcat
    · intro k'
      by_cases hk : k' = k
      · simp [hk]
      · simpa [hk, Function.update_of_ne hk] using hw.serialised.finished k'
  · obtain ⟨rfl, hP⟩ := h.looks hturn hnext
    refine ⟨⟨hw.serialised.state, hw.serialised.nodup, ?_⟩, hw.state, places_update hw.places ?_⟩
    · intro k'
      by_cases hk : k' = k
      · simpa [hk] using hnot
      · simpa [Function.update_of_ne hk] using hw.serialised.finished k'
    · rintro _ ⟨rfl⟩
      exact hP

/-- **The rule for such calls.** -/
theorem Once.serialised (h : Once next alone allow I P) (hI : I s) (hP : ∀ k, P k (start k))
    (hrun : Runs.Later (Serial.step next) allow (World.initial start s) w) : Serialised alone s w := by
  refine (hrun.invariant (I := Kept alone I P s) (kept_initial hI hP) ?_).serialised
  intro w w' k hw ha hstep
  exact h.step hw ha hstep

end Serial

/-
Runs of a system that takes labelled steps.

`step` says what an event makes of a state, `none` where it cannot happen, and `allow`
which events are admitted there.  `Later` is what a run of admitted events reaches, and
`run` the same as a function, so that a run can be written down and evaluated.
-/
import Mathlib.Logic.Relation

namespace Runs

variable {σ ε : Type*} {step : ε → σ → Option σ} {allow : σ → ε → Bool} {s t : σ}

/-- One admitted step. -/
def Next (step : ε → σ → Option σ) (allow : σ → ε → Bool) (s t : σ) : Prop :=
  ∃ e, allow s e = true ∧ step e s = some t

/-- A run of admitted steps. -/
def Later (step : ε → σ → Option σ) (allow : σ → ε → Bool) : σ → σ → Prop :=
  Relation.ReflTransGen (Next step allow)

def run (step : ε → σ → Option σ) (allow : σ → ε → Bool) : List ε → σ → Option σ
  | [], s => some s
  | e :: es, s => if allow s e = true then (step e s).bind (run step allow es) else none

theorem Later.of_run {es : List ε} (h : run step allow es s = some t) : Later step allow s t := by
  induction es generalizing s with
  | nil =>
      simp only [run, Option.some.injEq] at h
      rw [h]
      exact Relation.ReflTransGen.refl
  | cons e es ih =>
      rw [run] at h
      by_cases ha : allow s e = true
      · rw [if_pos ha, Option.bind_eq_some_iff] at h
        obtain ⟨u, hu, hrun⟩ := h
        exact Relation.ReflTransGen.head ⟨e, ha, hu⟩ (ih hrun)
      · rw [if_neg ha] at h
        cases h

theorem Later.mono {allow' : σ → ε → Bool} (h : Later step allow s t)
    (hallow : ∀ s e, allow s e = true → allow' s e = true) : Later step allow' s t := by
  induction h with
  | refl => exact Relation.ReflTransGen.refl
  | tail _ hnext ih =>
      obtain ⟨e, ha, he⟩ := hnext
      exact ih.tail ⟨e, hallow _ e ha, he⟩

/-- **The invariant rule.** -/
theorem Later.invariant {I : σ → Prop} (h : Later step allow s t) (hs : I s)
    (hstep : ∀ {s t : σ} {e : ε}, I s → allow s e = true → step e s = some t → I t) : I t := by
  induction h with
  | refl => exact hs
  | tail _ hnext ih =>
      obtain ⟨e, ha, he⟩ := hnext
      exact hstep ih ha he

/-! ### Logs -/

section Log

variable {α : Type*} {P : List α → α → Prop} {l l' : List α} {a : α}

/-- What holds of each entry of a log, given those before it. -/
def Each (P : List α → α → Prop) (l : List α) : Prop := ∀ before a after, l = before ++ a :: after → P before a

theorem Each.nil : Each P [] := by
  intro before a after h
  have hlength := congrArg List.length h
  simp at hlength

theorem Each.append (h : Each P l) (h' : Each (fun before a => P (l ++ before) a) l') : Each P (l ++ l') := by
  intro before a after heq
  rcases List.append_eq_append_iff.mp heq with ⟨rest, hbefore, hl'⟩ | ⟨rest, hl, hafter⟩
  · rw [hbefore]
    exact h' rest a after hl'
  · cases rest with
    | nil =>
      rw [List.append_nil] at hl
      rw [← hl]
      have hfirst : P (l ++ []) a := h' [] a after hafter.symm
      rwa [List.append_nil] at hfirst
    | cons b rest =>
      obtain ⟨rfl, -⟩ := List.cons.inj hafter
      exact h before a rest hl

theorem Each.singleton (h : P [] a) : Each P [a] := by
  intro before b after heq
  cases before with
  | nil =>
    obtain ⟨rfl, -⟩ := List.cons.inj heq
    exact h
  | cons c before =>
    have hlength := congrArg List.length heq
    simp at hlength

theorem Each.cons (ha : P [] a) (h : Each (fun before b => P (a :: before) b) l) : Each P (a :: l) :=
  (Each.singleton ha).append h

theorem Each.mono {Q : List α → α → Prop} (h : Each P l) (hPQ : ∀ before a, P before a → Q before a) : Each Q l :=
  fun before a after heq => hPQ before a (h before a after heq)

end Log

end Runs

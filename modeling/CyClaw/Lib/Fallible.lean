/-
Computations that may fail, where they did not.
-/
import Mathlib.Data.List.Basic
import Mathlib.Data.List.Forall2

namespace Fallible

variable {ε α β : Type} {x : Except ε α} {b : β}

theorem bind_eq_ok {f : α → Except ε β} : x.bind f = .ok b ↔ ∃ a, x = .ok a ∧ f a = .ok b := by
  cases x <;> simp [Except.bind]

theorem map_eq_ok {f : α → β} : x.map f = .ok b ↔ ∃ a, x = .ok a ∧ f a = b := by
  cases x <;> simp [Except.map]

/-! ### Where nothing is raised -/

def Returns (x : Except ε α) : Prop := ∃ a, x = .ok a

@[simp] theorem returns_ok (a : α) : Returns (.ok a : Except ε α) := ⟨a, rfl⟩

@[simp] theorem not_returns_error (e : ε) : ¬ Returns (.error e : Except ε α) := by
  rintro ⟨a, h⟩
  cases h

@[simp] theorem returns_map {f : α → β} : Returns (x.map f) ↔ Returns x := by
  cases x <;> simp [Except.map]

@[simp] theorem returns_mapError {ε' : Type} {f : ε → ε'} : Returns (x.mapError f) ↔ Returns x := by
  cases x <;> simp [Except.mapError]

/-- What follows returns or does not, whatever has come before. -/
theorem returns_bind {f : α → Except ε β} {q : Prop} (h : ∀ a, Returns (f a) ↔ q) :
    Returns (x.bind f) ↔ Returns x ∧ q := by
  cases x with
  | error e => simp [Except.bind]
  | ok a => simp [Except.bind, h a]

theorem returns_bind_iff {f : α → Except ε β} : Returns (x.bind f) ↔ ∃ a, x = .ok a ∧ Returns (f a) := by
  cases x <;> simp [Except.bind]

theorem returns_bind_ok {f : α → Except ε β} {a : α} (hx : x = .ok a) : Returns (x.bind f) ↔ Returns (f a) := by
  rw [hx]
  rfl

section MapM

variable {xs : List α} {ys : List β} {y : β}

theorem mapM_cons_ok {f : α → Except ε β} {a : α} (h : (a :: xs).mapM f = .ok ys) :
    ∃ b ys', f a = .ok b ∧ xs.mapM f = .ok ys' ∧ ys = b :: ys' := by
  rw [List.mapM_cons] at h
  obtain ⟨b, hb, h⟩ := bind_eq_ok.mp h
  obtain ⟨ys', hys', h⟩ := bind_eq_ok.mp h
  exact ⟨b, ys', hb, hys', (Except.ok.inj h).symm⟩

theorem mem_mapM {f : α → Except ε β} (h : xs.mapM f = .ok ys) (hy : y ∈ ys) : ∃ x ∈ xs, f x = .ok y := by
  induction xs generalizing ys with
  | nil =>
    obtain rfl := Except.ok.inj h
    cases hy
  | cons x xs ih =>
    obtain ⟨b, ys', hb, hys', rfl⟩ := mapM_cons_ok h
    rcases List.mem_cons.mp hy with rfl | hmem
    · exact ⟨x, List.mem_cons_self, hb⟩
    · obtain ⟨x', hx', hf⟩ := ih hys' hmem
      exact ⟨x', List.mem_cons_of_mem x hx', hf⟩

theorem mapM_ok {f : α → Except ε β} (h : ∀ x ∈ xs, ∃ y, f x = .ok y) : ∃ ys, xs.mapM f = .ok ys := by
  induction xs with
  | nil => exact ⟨[], rfl⟩
  | cons x xs ih =>
    obtain ⟨y, hy⟩ := h x List.mem_cons_self
    obtain ⟨ys, hys⟩ := ih fun x' hx' => h x' (List.mem_cons_of_mem x hx')
    exact ⟨y :: ys, by rw [List.mapM_cons, hy, hys]; rfl⟩

theorem mem_of_mapM {f : α → Except ε β} {a : α} (h : xs.mapM f = .ok ys) (ha : a ∈ xs) : ∃ y ∈ ys, f a = .ok y := by
  induction xs generalizing ys with
  | nil => cases ha
  | cons x xs ih =>
    obtain ⟨b, ys', hb, hys', rfl⟩ := mapM_cons_ok h
    rcases List.mem_cons.mp ha with rfl | ha
    · exact ⟨b, List.mem_cons_self, hb⟩
    · obtain ⟨y, hy, hf⟩ := ih hys' ha
      exact ⟨y, List.mem_cons_of_mem b hy, hf⟩

theorem ok_of_mapM {f : α → Except ε β} {a : α} (h : xs.mapM f = .ok ys) (ha : a ∈ xs) : ∃ y, f a = .ok y :=
  (mem_of_mapM h ha).imp fun _ hy => hy.2

theorem length_mapM {f : α → Except ε β} (h : xs.mapM f = .ok ys) : ys.length = xs.length := by
  induction xs generalizing ys with
  | nil =>
    obtain rfl := Except.ok.inj h
    rfl
  | cons x xs ih =>
    obtain ⟨b, ys', -, hys', rfl⟩ := mapM_cons_ok h
    rw [List.length_cons, List.length_cons, ih hys']

theorem mapM_eq_map {f : α → Except ε β} {g : α → β} (hf : ∀ x y, f x = .ok y → y = g x) (h : xs.mapM f = .ok ys) :
    ys = xs.map g := by
  induction xs generalizing ys with
  | nil =>
    obtain rfl := Except.ok.inj h
    rfl
  | cons x xs ih =>
    obtain ⟨b, ys', hb, hys', rfl⟩ := mapM_cons_ok h
    rw [List.map_cons, hf x b hb, ih hys']

theorem filterMap_mapM {γ : Type} {f : α → Except ε β} (h : xs.mapM f = .ok ys) (g : β → Option γ) :
    ys.filterMap g = xs.filterMap fun x => (f x).toOption.bind g := by
  induction xs generalizing ys with
  | nil =>
    obtain rfl := Except.ok.inj h
    rfl
  | cons x xs ih =>
    obtain ⟨b, ys', hb, hys', rfl⟩ := mapM_cons_ok h
    rw [List.filterMap_cons, List.filterMap_cons, hb, ih hys']
    rfl

theorem countP_mapM {f : α → Except ε β} (h : xs.mapM f = .ok ys) (p : β → Bool) :
    ys.countP p = xs.countP fun x => (f x).toOption.any p := by
  induction xs generalizing ys with
  | nil =>
    obtain rfl := Except.ok.inj h
    rfl
  | cons x xs ih =>
    obtain ⟨b, ys', hb, hys', rfl⟩ := mapM_cons_ok h
    rw [List.countP_cons, List.countP_cons, hb, ih hys']
    rfl

theorem flatten_mapM {f : α → Except ε (List β)} {ys : List (List β)} (h : xs.mapM f = .ok ys) :
    ys.flatten = xs.flatMap fun x => (f x).toOption.getD [] := by
  induction xs generalizing ys with
  | nil =>
    obtain rfl := Except.ok.inj h
    rfl
  | cons x xs ih =>
    obtain ⟨b, ys', hb, hys', rfl⟩ := mapM_cons_ok h
    rw [List.flatten_cons, List.flatMap_cons, hb, ih hys']
    rfl

theorem mapM_cons_some {f : α → Option β} {a : α} (h : (a :: xs).mapM f = some ys) :
    ∃ b ys', f a = some b ∧ xs.mapM f = some ys' ∧ ys = b :: ys' := by
  simp only [List.mapM_cons, Option.pure_def, Option.bind_eq_bind, Option.bind_eq_some_iff, Option.some.injEq] at h
  obtain ⟨b, hb, ys', hys', rfl⟩ := h
  exact ⟨b, ys', hb, hys', rfl⟩

theorem mem_mapM_some {f : α → Option β} (h : xs.mapM f = some ys) (hy : y ∈ ys) : ∃ x ∈ xs, f x = some y := by
  induction xs generalizing ys with
  | nil =>
    obtain rfl := Option.some.inj h
    cases hy
  | cons x xs ih =>
    obtain ⟨b, ys', hb, hys', rfl⟩ := mapM_cons_some h
    rcases List.mem_cons.mp hy with rfl | hmem
    · exact ⟨x, List.mem_cons_self, hb⟩
    · obtain ⟨x', hx', hf⟩ := ih hys' hmem
      exact ⟨x', List.mem_cons_of_mem x hx', hf⟩

theorem length_mapM_some {f : α → Option β} (h : xs.mapM f = some ys) : ys.length = xs.length := by
  induction xs generalizing ys with
  | nil =>
    obtain rfl := Option.some.inj h
    rfl
  | cons x xs ih =>
    obtain ⟨b, ys', -, hys', rfl⟩ := mapM_cons_some h
    rw [List.length_cons, List.length_cons, ih hys']

end MapM

section FoldlM

variable {σ : Type} {step : σ → α → Except ε σ} {P : α → Prop}

theorem foldlM_cons (s : σ) (a : α) (as : List α) :
    (a :: as).foldlM step s = (step s a).bind fun s' => as.foldlM step s' := rfl

/-- A run returns where no step raises, if the states have no say in it. -/
theorem foldlM_returns (hstep : ∀ s a, Returns (step s a) ↔ P a) (s : σ) (as : List α) :
    Returns (as.foldlM step s) ↔ ∀ a ∈ as, P a := by
  induction as generalizing s with
  | nil => exact ⟨fun _ a ha => absurd ha List.not_mem_nil, fun _ => ⟨s, rfl⟩⟩
  | cons a as ih => rw [List.forall_mem_cons, foldlM_cons, returns_bind ih, hstep]

end FoldlM

/-! ### Options, through a list -/

theorem mapM_eq_some {f : α → Option β} {as : List α} {bs : List β} :
    as.mapM f = some bs ↔ List.Forall₂ (fun a b => f a = some b) as bs := by
  induction as generalizing bs with
  | nil => simp [eq_comm]
  | cons a as ih =>
    rw [List.mapM_cons]
    cases hf : f a with
    | none => simp [hf, List.forall₂_cons_left_iff]
    | some b =>
      cases hrest : as.mapM f with
      | none =>
        have hno : ∀ bs, ¬ List.Forall₂ (fun a b => f a = some b) as bs := fun bs hbs => by
          rw [ih.mpr hbs] at hrest
          cases hrest
        simp [hno, List.forall₂_cons_left_iff]
      | some bs' =>
        have hbs' := ih.mp hrest
        simp only [Option.pure_def, Option.bind_eq_bind, Option.bind_some, Option.some.injEq,
          List.forall₂_cons_left_iff, hf]
        constructor
        · rintro rfl
          exact ⟨b, bs', rfl, hbs', rfl⟩
        · rintro ⟨b', bs'', rfl, hbs'', rfl⟩
          rw [ih.mpr hbs''] at hrest
          rw [Option.some.inj hrest]

end Fallible

/-
Which changes a program may make.

`Prog.Makes` goes through a program without a tree: whatever the calls reply, each change it
asks for is a `P`.  `exec_makes` says that a run then changes the tree by such changes only, and
that they lead from the tree it started on to the one it leaves.
-/
import CyClaw.Lib.TreeCalls

namespace Posix

open PathTree

variable {α : Type} {P : Mutation → Prop}

/-- The changes a call may come to, of itself or in failing. -/
def Change.Gives (c : Change Path) (m : Mutation) : Prop :=
  ∃ mc tick, c.mutation mc tick = some m ∨ c.remnant mc tick = some m

/-- What is opened is the entry that was asked for, and is made only under two of the modes. -/
def Prog.Makes (P : Mutation → Prop) : Prog Path α → Prop
  | .ret _ => True
  | .openAt dir name mode k =>
      (mode = .create ∨ mode = .append → ∀ time, P (.create dir name time)) ∧ (∀ e, (k (.error e)).Makes P) ∧
        (k (.ok (dir ++ [name]))).Makes P
  | .statAt _ _ k => ∀ r, (k r).Makes P
  | .fstat _ k => ∀ r, (k r).Makes P
  | .listdir _ k => ∀ r, (k r).Makes P
  | .read _ _ k => ∀ r, (k r).Makes P
  | .change c k => (∀ m, c.Gives m → P m) ∧ ∀ r, (k r).Makes P

/-- Changes lead from one tree to the other. -/
inductive Chain : Tree → Past → Tree → Prop where
  | nil {t} : Chain t [] t
  | cons {t u t' m ms} (hstep : t.step m = .ok u) (h : Chain u ms t') : Chain t ((m, u) :: ms) t'

theorem Chain.append {t u t' : Tree} {ms ms' : Past} (h : Chain t ms u) (h' : Chain u ms' t') : Chain t (ms ++ ms') t' := by
  induction h with
  | nil => exact h'
  | cons hstep _ ih => exact .cons hstep (ih h')

/-- A run goes on by changes that are `P`. -/
def Progress.Goes (P : Mutation → Prop) (s s' : Progress) : Prop :=
  ∃ ms, s'.past = s.past ++ ms ∧ Chain s.tree ms s'.tree ∧ ∀ e ∈ ms, P e.1

theorem goes_refl {s s' : Progress} (hpast : s'.past = s.past) (htree : s'.tree = s.tree) : s.Goes P s' :=
  ⟨[], by rw [hpast, List.append_nil], htree ▸ .nil, fun _ h => absurd h List.not_mem_nil⟩

theorem goes_next {s : Progress} : s.Goes P s.next := goes_refl rfl rfl

theorem Progress.Goes.trans {s s' s'' : Progress} (h : s.Goes P s') (h' : s'.Goes P s'') : s.Goes P s'' := by
  obtain ⟨ms, hpast, hchain, hms⟩ := h
  obtain ⟨ms', hpast', hchain', hms'⟩ := h'
  exact ⟨ms ++ ms', by rw [hpast', hpast, List.append_assoc], hchain.append hchain', List.forall_mem_append.mpr ⟨hms, hms'⟩⟩

theorem goes_mutate (s : Progress) {m : Mutation} (h : P m) : s.Goes P (s.mutate m).2 := by
  unfold Progress.mutate
  split
  · exact goes_refl rfl rfl
  · rename_i t ht
    exact ⟨[(m, t)], rfl, .cons ht .nil, by simpa using h⟩

theorem goes_change {mc : Machine} {c : Change Path} {s : Progress} (h : ∀ m, c.Gives m → P m) :
    s.Goes P (c.exec mc s).2 := by
  unfold Change.exec
  split
  · split
    · exact goes_refl rfl rfl
    · rename_i m hm
      exact goes_mutate s (h m ⟨mc, s.tick, .inr hm⟩)
  · split
    · exact goes_refl rfl rfl
    · rename_i m hm
      exact goes_mutate s (h m ⟨mc, s.tick, .inl hm⟩)

/-- What is opened where nothing is, is made. -/
theorem opens_new {t : Tree} {f : Option Errno} {dir i : Path} {name : List Char} {mode : Mode}
    (h : (moment t f (dir ++ [name])).openAt dir name mode = .ok i) :
    i = dir ++ [name] ∧ (t.node (dir ++ [name]) = none → mode = .create ∨ mode = .append) := by
  cases f with
  | some e => cases h
  | none =>
    obtain ⟨hi, -, hnew⟩ := opened_eq h
    exact ⟨hi, hnew⟩

theorem goes_openAt (mc : Machine) (s : Progress) {dir : Path} {name : List Char} {mode : Mode}
    (h : mode = .create ∨ mode = .append → ∀ time, P (.create dir name time)) :
    s.Goes P (execOpenAt mc dir name mode s).2 ∧
      ∀ i, (execOpenAt mc dir name mode s).1 = .ok i → i = dir ++ [name] := by
  unfold execOpenAt
  split
  · exact ⟨goes_refl rfl rfl, fun _ hi => by cases hi⟩
  · rename_i i hi
    obtain ⟨rfl, hnew⟩ := opens_new hi
    split
    · rename_i hnone
      have hgoes := goes_mutate s (h (hnew hnone) (mc.time s.tick))
      split
      · rename_i hs
        rw [hs] at hgoes
        exact ⟨hgoes, fun _ hi => by cases hi⟩
      · rename_i hs
        rw [hs] at hgoes
        exact ⟨hgoes, fun _ hi => (Except.ok.inj hi).symm⟩
    · exact ⟨goes_refl rfl rfl, fun _ hi => (Except.ok.inj hi).symm⟩

/-- **What a program makes is what its runs do.** -/
theorem exec_makes (mc : Machine) (p : Prog Path α) : ∀ s : Progress, p.Makes P → s.Goes P (p.exec mc s).2 := by
  induction p with
  | ret a => exact fun s _ => goes_refl rfl rfl
  | openAt dir name mode k ih =>
    rintro s ⟨hnew, herror, hok⟩
    obtain ⟨hgoes, hi⟩ := goes_openAt mc s hnew
    refine hgoes.trans (ih _ _ ?_)
    cases hreply : (execOpenAt mc dir name mode s).1 with
    | error e => exact herror e
    | ok i =>
      rw [hi i hreply]
      exact hok
  | statAt dir name k ih => exact fun s h => goes_next.trans (ih _ _ (h _))
  | fstat i k ih => exact fun s h => goes_next.trans (ih _ _ (h _))
  | listdir dir k ih => exact fun s h => goes_next.trans (ih _ _ (h _))
  | read file n k ih => exact fun s h => goes_next.trans (ih _ _ (h _))
  | change c k ih => exact fun s h => (goes_change h.1).trans (ih _ _ (h.2 _))

end Posix

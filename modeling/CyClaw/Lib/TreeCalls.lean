/-
Programs of calls on a tree of files.

Here the tree a call finds is the tree the calls before it have made, and a directory is held
by its path.  What is left open is which calls fail for reasons of their own (`Machine`).

`Prog.exec` runs a program and notes every change with the tree it has made.
-/
import CyClaw.Lib.PathTree

namespace Posix

open PathTree

/-- What the machine has to say, call by call. -/
structure Machine where
  fault : ℕ → Option Errno
  /-- A call that fails does not say that nothing is there. -/
  honest : ∀ n, fault n ≠ some .noent
  /-- How much of the data goes out before a write that fails. -/
  partialWrite : ℕ → ℕ
  time : ℕ → ℕ

/-- A tree as the calls see it. -/
def seen (t : Tree) : Files Path where
  entry dir name := if t.node (dir ++ [name]) = none then none else some (dir ++ [name])
  stray _ _ := none
  stat p := ((t.node p).getD (newFile 0)).stat
  content p := ((t.node p).getD (newFile 0)).content
  listing := t.listing
  listed := by
    intro d name hname
    obtain ⟨n, hn⟩ := Tree.mem_listing.mp hname
    exact Tree.isName_of_node hn name (by simp)

/-- The moment of a call: the tree, and whether the call fails. -/
def moment (t : Tree) (fault : Option Errno) (fresh : Path) : Moment Path where
  files := seen t
  fails := fault
  fresh

/-- A tree with the calls made so far and what they have changed. -/
structure Progress where
  tree : Tree
  tick : ℕ
  past : List (Mutation × Tree)

namespace Progress

def next (s : Progress) : Progress := { s with tick := s.tick + 1 }

/-- A change is made, or refused. -/
def mutate (s : Progress) (m : Mutation) : Except Errno Unit × Progress :=
  match s.tree.step m with
  | .error e => (.error e, s.next)
  | .ok t => (.ok (), { tree := t, tick := s.tick + 1, past := s.past ++ [(m, t)] })

end Progress

/-- What a change does to a tree.  Nothing is seen of a sync. -/
def Change.mutation (mc : Machine) (tick : ℕ) : Change Path → Option Mutation
  | .replace srcDir src dstDir dst => some (.rename srcDir src dstDir dst)
  | .unlink dir name => some (.unlink dir name)
  | .rmdir dir name => some (.rmdir dir name)
  | .mkdir dir name => some (.mkdir dir name (mc.time tick))
  | .write file data => some (.write file data (mc.time tick))
  | .fsync _ => none

/-- What is left of a change that fails. -/
def Change.remnant (mc : Machine) (tick : ℕ) : Change Path → Option Mutation
  | .write file data =>
      if mc.partialWrite tick = 0 then none
      else some (.write file (data.take (mc.partialWrite tick)) (mc.time tick))
  | _ => none

def Change.exec (mc : Machine) (c : Change Path) (s : Progress) : Except Errno Unit × Progress :=
  match mc.fault s.tick with
  | some e =>
      match c.remnant mc s.tick with
      | none => (.error e, s.next)
      | some m => (.error e, (s.mutate m).2)
  | none =>
      match c.mutation mc s.tick with
      | none => (.ok (), s.next)
      | some m => s.mutate m

/-- What is opened where nothing is has been made. -/
def execOpenAt (mc : Machine) (dir : Path) (name : List Char) (mode : Mode) (s : Progress) :
    Except Errno Path × Progress :=
  match (moment s.tree (mc.fault s.tick) (dir ++ [name])).openAt dir name mode with
  | .error e => (.error e, s.next)
  | .ok i =>
      if s.tree.node (dir ++ [name]) = none then
        match s.mutate (.create dir name (mc.time s.tick)) with
        | (.error e, s') => (.error e, s')
        | (.ok (), s') => (.ok i, s')
      else (.ok i, s.next)

variable {α : Type}

def Prog.exec (mc : Machine) : Prog Path α → Progress → α × Progress
  | .ret a, s => (a, s)
  | .openAt dir name mode k, s =>
      let r := execOpenAt mc dir name mode s
      (k r.1).exec mc r.2
  | .statAt dir name k, s =>
      (k ((moment s.tree (mc.fault s.tick) []).statAt dir name)).exec mc s.next
  | .fstat i k, s => (k ((moment s.tree (mc.fault s.tick) []).fstat i)).exec mc s.next
  | .listdir dir k, s => (k ((moment s.tree (mc.fault s.tick) []).listdir dir)).exec mc s.next
  | .read file n k, s => (k ((moment s.tree (mc.fault s.tick) []).read file n)).exec mc s.next
  | .change c k, s =>
      let r := c.exec mc s
      (k r.1).exec mc r.2

/-- The changes a program has made, each with the tree it led to. -/
abbrev Past := List (Mutation × Tree)

/-! ### What the calls say of a tree -/

section Calls

variable {t : Tree} {dir : Path} {name : List Char} {mode : Mode}

theorem leads_moment (f : Option Errno) (fresh : Path) :
    (moment t f fresh).leads dir name = if t.node (dir ++ [name]) = none then none else some (dir ++ [name]) := by
  unfold Moment.leads
  split
  · rfl
  · rename_i hname
    -- A string that is no name is the name of nothing.
    cases hn : t.node (dir ++ [name]) with
    | none => rfl
    | some n => exact absurd (Tree.isName_of_node hn name (by simp)) hname

theorem stat_seen {p : Path} {n : Node} (h : t.node p = some n) : (seen t).stat p = n.stat := by
  show ((t.node p).getD (newFile 0)).stat = n.stat
  rw [h]
  rfl

/-- Opening an entry as the tree has it. -/
theorem openAt_moment {n : Node} (h : t.node (dir ++ [name]) = some n) :
    (moment t none (dir ++ [name])).openAt dir name mode = (moment t none (dir ++ [name])).openOld (dir ++ [name]) mode := by
  unfold Moment.openAt
  rw [leads_moment, if_neg (by rw [h]; exact Option.some_ne_none n)]
  rfl

theorem openAt_moment_new (h : t.node (dir ++ [name]) = none) :
    (moment t none (dir ++ [name])).openAt dir name mode = (moment t none (dir ++ [name])).openNew mode := by
  unfold Moment.openAt
  rw [leads_moment, if_pos h]
  rfl

/-- What is opened is what the name says, and no link; in its place nothing may have been, if
it is opened to be made. -/
theorem opened_eq {i : Path} (h : (moment t none (dir ++ [name])).openAt dir name mode = .ok i) :
    i = dir ++ [name] ∧
      (∀ n, t.node (dir ++ [name]) = some n →
        n.kind ≠ .symlink ∧ mode ≠ .create ∧ (mode = .directory → n.kind = .dir) ∧ (mode = .append → n.kind ≠ .dir)) ∧
      (t.node (dir ++ [name]) = none → mode = .create ∨ mode = .append) := by
  cases hn : t.node (dir ++ [name]) with
  | none =>
    rw [openAt_moment_new hn] at h
    unfold Moment.openNew at h
    cases mode <;> cases h
    · exact ⟨rfl, fun n hn => (by cases hn), fun _ => Or.inl rfl⟩
    · exact ⟨rfl, fun n hn => (by cases hn), fun _ => Or.inr rfl⟩
  | some n =>
    rw [openAt_moment hn] at h
    unfold Moment.openOld at h
    have hstat : ((moment t none (dir ++ [name])).files.stat (dir ++ [name])).kind = n.kind :=
      congrArg Stat.kind (stat_seen hn)
    rw [hstat] at h
    refine ⟨?_, ?_, fun h => (by cases h)⟩
    · cases mode <;> cases hk : n.kind <;> simp_all
    · intro m hm
      rw [Option.some.injEq] at hm
      subst hm
      cases mode <;> cases hk : n.kind <;> simp_all

theorem opened_directory {n : Node} (h : t.node (dir ++ [name]) = some n) (hdir : n.kind = .dir) :
    (moment t none (dir ++ [name])).openAt dir name .directory = .ok (dir ++ [name]) := by
  rw [openAt_moment h]
  unfold Moment.openOld
  have hstat : ((moment t none (dir ++ [name])).files.stat (dir ++ [name])).kind = n.kind :=
    congrArg Stat.kind (stat_seen h)
  rw [hstat, hdir]

theorem opened_read {n : Node} (h : t.node (dir ++ [name]) = some n) (hlink : n.kind ≠ .symlink) :
    (moment t none (dir ++ [name])).openAt dir name .read = .ok (dir ++ [name]) := by
  rw [openAt_moment h]
  unfold Moment.openOld
  have hstat : ((moment t none (dir ++ [name])).files.stat (dir ++ [name])).kind = n.kind :=
    congrArg Stat.kind (stat_seen h)
  rw [hstat]
  cases hk : n.kind <;> simp_all

theorem statAt_moment {n : Node} (h : t.node (dir ++ [name]) = some n) :
    (moment t none []).statAt dir name = .ok n.stat := by
  unfold Moment.statAt
  rw [leads_moment, if_neg (by rw [h]; exact Option.some_ne_none n)]
  show Except.ok ((seen t).stat (dir ++ [name])) = .ok n.stat
  rw [stat_seen h]

theorem statAt_moment_none (h : t.node (dir ++ [name]) = none) :
    (moment t none []).statAt dir name = .error .noent := by
  unfold Moment.statAt
  rw [leads_moment, if_pos h]
  rfl

theorem fstat_moment {p : Path} {n : Node} (h : t.node p = some n) : (moment t none []).fstat p = .ok n.stat := by
  show Except.ok ((seen t).stat p) = .ok n.stat
  rw [stat_seen h]

theorem read_moment {p : Path} {n : Node} (h : t.node p = some n) (k : ℕ) :
    (moment t none []).read p k = .ok (n.content.take k) := by
  show Except.ok ((((t.node p).getD (newFile 0)).content).take k) = _
  rw [h]
  rfl

theorem listdir_moment (p : Path) : (moment t none []).listdir p = .ok (t.listing p) := rfl

end Calls

end Posix

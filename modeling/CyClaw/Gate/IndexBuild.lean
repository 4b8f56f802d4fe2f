/-
Building the index in place, `/index/build`.

A request claims the build, notes it in the audit log and starts a thread; the thread imports
the indexer, builds, brings retrieval up again and then says how it ended, in two critical
sections.

Two builds never run at a time, whatever fails (`one_build_at_a_time`).  That a build is
running is said for good where the audit write, the start of the thread or the import raises,
or where something gets past `except Exception`; and a request that claims the next build
between the two sections has its build marked as finished.  Where none of this happens, what
is said of a running build is true (`index_build_steady`).
-/
import CyClaw.Lib.Threads
import Mathlib.Data.Nat.Notation

namespace CyClaw.Gate

open Threads

abbrev Text := List Char

inductive BuildState where
  | idle
  | running
  | done
  | error
deriving DecidableEq

/-- `_index_build`.  Builds go by the order in which they are claimed: `current` is the last
one, and `countedBy` the one whose progress the counters show, if any. -/
structure IndexBuild where
  state : BuildState
  startedAt : Option ℕ
  finishedAt : Option ℕ
  error : Option Text
  chunksDone : ℕ
  chunksTotal : ℕ
  current : ℕ
  countedBy : Option ℕ
  /-- The threads that are started and have not begun. -/
  spawned : List ℕ
  /-- How many threads have said how their build ended, and not when. -/
  finishing : ℕ

def IndexBuild.initial : IndexBuild where
  state := .idle
  startedAt := none
  finishedAt := none
  error := none
  chunksDone := 0
  chunksTotal := 0
  current := 0
  countedBy := none
  spawned := []
  finishing := 0

/-- Where a thread is in `index_build`, or in `_run_index_build` for a build. -/
inductive BuildJob where
  | idle
  /-- The build is claimed, and the audit write awaited. -/
  | auditing (build : ℕ)
  | starting (build : ℕ)
  | importing (build : ℕ)
  /-- In `build_index`. -/
  | building (build : ℕ)
  /-- In `_init_retrieval`. -/
  | initialising (build : ℕ)
  /-- `except Exception`. -/
  | failing (build : ℕ) (message : Text)
  /-- `finally`. -/
  | finishing (build : ℕ)

inductive BuildTurn where
  /-- A request, with what `time.monotonic()` says. -/
  | request (now : ℕ)
  /-- `_index_status_payload`. -/
  | status
  /-- A thread begins. -/
  | run
  /-- The step goes through. -/
  | goOn
  /-- `Indexed %d/%d chunks`. -/
  | progress (done total : ℕ)
  /-- What `_init_retrieval` returns. -/
  | initialised (ready : Bool)
  /-- The step raises an `Exception`; `message` is what `_sanitize_error` makes of it. -/
  | raises (message : Text)
  /-- It raises something that is no `Exception`. -/
  | escapes
  | finish (now : ℕ)

/-- What a request claims the build with. -/
def IndexBuild.claim (s : IndexBuild) (now : ℕ) : IndexBuild :=
  { s with
    state := .running
    startedAt := some now
    finishedAt := none
    error := none
    chunksDone := 0
    chunksTotal := 0
    current := s.current + 1
    countedBy := none }

def buildAct : BuildTurn → BuildJob → IndexBuild → Option (BuildJob × IndexBuild)
  | .request now, .idle, s =>
      -- A request that comes while a build is running is refused.
      if s.state = .running then some (.idle, s) else some (.auditing (s.current + 1), s.claim now)
  | .status, .idle, s => some (.idle, s)
  | .goOn, .auditing b, s => some (.starting b, s)
  | .raises _, .auditing _, s => some (.idle, s)
  | .goOn, .starting b, s => some (.idle, { s with spawned := b :: s.spawned })
  | .raises _, .starting _, s => some (.idle, s)
  | .run, .idle, s =>
      match s.spawned with
      | b :: rest => some (.importing b, { s with spawned := rest })
      | [] => none
  | .goOn, .importing b, s => some (.building b, s)
  | .raises _, .importing _, s => some (.idle, s)
  | .progress done total, .building b, s =>
      some (.building b, { s with chunksDone := done, chunksTotal := total, countedBy := some b })
  | .goOn, .building b, s => some (.initialising b, s)
  | .raises message, .building b, s => some (.failing b message, s)
  | .escapes, .building b, s => some (.finishing b, { s with finishing := s.finishing + 1 })
  | .initialised ready, .initialising b, s =>
      some (.finishing b,
        if ready then { s with state := .done, finishing := s.finishing + 1 }
        else
          { s with
            state := .error
            error := some "Build finished but no index was produced.".toList
            finishing := s.finishing + 1 })
  | .raises message, .initialising b, s => some (.failing b message, s)
  | .escapes, .initialising b, s => some (.finishing b, { s with finishing := s.finishing + 1 })
  | .goOn, .failing b message, s =>
      some (.finishing b, { s with state := .error, error := some message, finishing := s.finishing + 1 })
  | .finish now, .finishing _, s =>
      some (.idle, { s with finishedAt := some now, finishing := s.finishing - 1 })
  | _, _, _ => none

abbrev BuildWorld := World ℕ BuildJob IndexBuild

def BuildWorld.initial : BuildWorld := { job := fun _ => .idle, store := .initial }

/-- A thread that is executing `build_index` or `_init_retrieval`. -/
def BuildJob.executes : BuildJob → Bool
  | .building _ => true
  | .initialising _ => true
  | _ => false

/-- Nothing raises where it is not caught, and no build is claimed before the last one has its
time of finishing. -/
def steady (w : BuildWorld) : ℕ × BuildTurn → Bool
  | (_, .request _) => w.store.state = .running || w.store.finishing = 0
  | (k, .raises _) => (w.job k).executes
  | (_, .escapes) => false
  | _ => true

/-! ### What a step does -/

/-- How far a thread is with its build. -/
inductive Phase where
  | off
  /-- It has not said how the build ends. -/
  | on (build : ℕ)
  | ending

def BuildJob.phase : BuildJob → Phase
  | .idle => .off
  | .auditing b => .on b
  | .starting b => .on b
  | .importing b => .on b
  | .building b => .on b
  | .initialising b => .on b
  | .failing b _ => .on b
  | .finishing _ => .ending

/-- **What a step makes of a thread's phase and of the build.**  `calm` says whether the steps
are steady ones. -/
inductive Moves (calm : Prop) (s : IndexBuild) : Phase → Phase → IndexBuild → Prop where
  | stays {p} : Moves calm s p p s
  | counts {n done total} :
      Moves calm s (.on n) (.on n) { s with chunksDone := done, chunksTotal := total, countedBy := some n }
  | claims {now} (hstate : s.state ≠ .running) (hcalm : calm → s.finishing = 0) :
      Moves calm s .off (.on (s.current + 1)) (s.claim now)
  | spawns {n} : Moves calm s (.on n) .off { s with spawned := n :: s.spawned }
  | begins {n rest} (hspawned : s.spawned = n :: rest) : Moves calm s .off (.on n) { s with spawned := rest }
  | drops {n} (hcalm : ¬ calm) : Moves calm s (.on n) .off s
  | ends {n state error} (hstate : state ≠ .running) :
      Moves calm s (.on n) .ending { s with state := state, error := error, finishing := s.finishing + 1 }
  | escapes {n} (hcalm : ¬ calm) : Moves calm s (.on n) .ending { s with finishing := s.finishing + 1 }
  | finishes {now} :
      Moves calm s .ending .off { s with finishedAt := some now, finishing := s.finishing - 1 }

/-- A turn that a steady run may have. -/
structure Calm (c : BuildTurn) (b : BuildJob) (s : IndexBuild) : Prop where
  request : ∀ now, c = .request now → s.state = .running ∨ s.finishing = 0
  raises : ∀ message, c = .raises message → b.executes = true
  escapes : c ≠ .escapes

section Moves

variable {calm : Prop} {c : BuildTurn} {b b' : BuildJob} {s s' : IndexBuild}

theorem moves_of_act (hcalm : calm → Calm c b s) (h : buildAct c b s = some (b', s')) :
    Moves calm s b.phase b'.phase s' := by
  unfold buildAct at h
  split at h
  · split at h
    · obtain ⟨rfl, rfl⟩ := Prod.mk.inj (Option.some.inj h)
      exact .stays
    · rename_i hstate
      obtain ⟨rfl, rfl⟩ := Prod.mk.inj (Option.some.inj h)
      exact .claims hstate fun hc => ((hcalm hc).request _ rfl).resolve_left hstate
  · obtain ⟨rfl, rfl⟩ := Prod.mk.inj (Option.some.inj h)
    exact .stays
  · obtain ⟨rfl, rfl⟩ := Prod.mk.inj (Option.some.inj h)
    exact .stays
  · obtain ⟨rfl, rfl⟩ := Prod.mk.inj (Option.some.inj h)
    exact .drops fun hc => absurd ((hcalm hc).raises _ rfl) Bool.false_ne_true
  · obtain ⟨rfl, rfl⟩ := Prod.mk.inj (Option.some.inj h)
    exact .spawns
  · obtain ⟨rfl, rfl⟩ := Prod.mk.inj (Option.some.inj h)
    exact .drops fun hc => absurd ((hcalm hc).raises _ rfl) Bool.false_ne_true
  · split at h
    · rename_i hspawned
      obtain ⟨rfl, rfl⟩ := Prod.mk.inj (Option.some.inj h)
      exact .begins hspawned
    · cases h
  · obtain ⟨rfl, rfl⟩ := Prod.mk.inj (Option.some.inj h)
    exact .stays
  · obtain ⟨rfl, rfl⟩ := Prod.mk.inj (Option.some.inj h)
    exact .drops fun hc => absurd ((hcalm hc).raises _ rfl) Bool.false_ne_true
  · obtain ⟨rfl, rfl⟩ := Prod.mk.inj (Option.some.inj h)
    exact .counts
  · obtain ⟨rfl, rfl⟩ := Prod.mk.inj (Option.some.inj h)
    exact .stays
  · obtain ⟨rfl, rfl⟩ := Prod.mk.inj (Option.some.inj h)
    exact .stays
  · obtain ⟨rfl, rfl⟩ := Prod.mk.inj (Option.some.inj h)
    exact .escapes fun hc => (hcalm hc).escapes rfl
  · obtain ⟨rfl, rfl⟩ := Prod.mk.inj (Option.some.inj h)
    split
    · exact .ends (by decide)
    · exact .ends (by decide)
  · obtain ⟨rfl, rfl⟩ := Prod.mk.inj (Option.some.inj h)
    exact .stays
  · obtain ⟨rfl, rfl⟩ := Prod.mk.inj (Option.some.inj h)
    exact .escapes fun hc => (hcalm hc).escapes rfl
  · obtain ⟨rfl, rfl⟩ := Prod.mk.inj (Option.some.inj h)
    exact .ends (by decide)
  · obtain ⟨rfl, rfl⟩ := Prod.mk.inj (Option.some.inj h)
    exact .finishes
  · cases h

/-! ### One build at a time -/

/-- What is said of a running build is true. -/
def IndexBuild.Truthful (s : IndexBuild) : Prop :=
  s.state = .running → s.finishedAt = none ∧ (s.countedBy = none ∨ s.countedBy = some s.current)

structure IndexBuild.Wf (calm : Prop) (s : IndexBuild) : Prop where
  spawned : s.spawned = [] ∨ s.spawned = [s.current] ∧ s.state = .running
  truthful : calm → s.Truthful
  unfinished : calm → s.state = .running → s.finishing = 0

/-- What a thread in a phase knows. -/
def Phase.Sound (calm : Prop) (s : IndexBuild) : Phase → Prop
  | .off => True
  | .on n => s.state = .running ∧ s.current = n ∧ s.spawned = []
  | .ending => calm → s.state ≠ .running ∧ s.finishing = 1

/-- A thread whose build is the only one. -/
def Phase.Busy (calm : Prop) : Phase → Prop
  | .off => False
  | .on _ => True
  | .ending => calm

theorem moves_own {p p' : Phase} (hs : s.Wf calm) (hp : p.Sound calm s) (h : Moves calm s p p' s') :
    s'.Wf calm ∧ p'.Sound calm s' := by
  cases h with
  | stays => exact ⟨hs, hp⟩
  | counts =>
    obtain ⟨hstate, hcurrent, hspawned⟩ := hp
    refine ⟨⟨Or.inl hspawned, fun hc hrunning => ⟨(hs.truthful hc hrunning).1, Or.inr ?_⟩, hs.unfinished⟩, hstate,
      hcurrent, hspawned⟩
    exact congrArg some hcurrent.symm
  | claims hstate hcalm =>
    have hspawned : s.spawned = [] := hs.spawned.resolve_right fun h => hstate h.2
    exact ⟨⟨Or.inl hspawned, fun _ _ => ⟨rfl, Or.inl rfl⟩, fun hc _ => hcalm hc⟩, rfl, rfl, hspawned⟩
  | spawns =>
    obtain ⟨hstate, rfl, hspawned⟩ := hp
    refine ⟨⟨Or.inr ⟨?_, hstate⟩, hs.truthful, hs.unfinished⟩, trivial⟩
    exact congrArg (s.current :: ·) hspawned
  | begins hspawned =>
    rcases hs.spawned with hnil | ⟨hone, hstate⟩
    · rw [hnil] at hspawned
      cases hspawned
    · rw [hone, List.cons.injEq] at hspawned
      obtain ⟨rfl, rfl⟩ := hspawned
      exact ⟨⟨Or.inl rfl, hs.truthful, hs.unfinished⟩, hstate, rfl, rfl⟩
  | drops => exact ⟨hs, trivial⟩
  | ends hstate =>
    obtain ⟨hrunning, -, hspawned⟩ := hp
    refine ⟨⟨Or.inl hspawned, fun _ h => absurd h hstate, fun _ h => absurd h hstate⟩, fun hc => ⟨hstate, ?_⟩⟩
    exact congrArg (· + 1) (hs.unfinished hc hrunning)
  | escapes hcalm =>
    obtain ⟨-, -, hspawned⟩ := hp
    exact ⟨⟨Or.inl hspawned, fun hc => absurd hc hcalm, fun hc => absurd hc hcalm⟩, fun hc => absurd hc hcalm⟩
  | finishes =>
    exact ⟨⟨hs.spawned, fun hc h => absurd h (hp hc).1, fun hc h => absurd h (hp hc).1⟩, trivial⟩

/-- A step beside another thread. -/
theorem moves_other {p p' q : Phase} (hs : s.Wf calm) (hq : q.Sound calm s) (hapart : ¬ (p.Busy calm ∧ q.Busy calm))
    (h : Moves calm s p p' s') : q.Sound calm s' ∧ ¬ (p'.Busy calm ∧ q.Busy calm) := by
  cases h with
  | stays => exact ⟨hq, hapart⟩
  | counts =>
    have hidle : ¬ q.Busy calm := fun h => hapart ⟨trivial, h⟩
    refine ⟨?_, hapart⟩
    cases q with
    | off => trivial
    | on => exact absurd trivial hidle
    | ending => exact fun hc => absurd hc hidle
  | claims hstate hcalm =>
    cases q with
    | off => exact ⟨trivial, And.right⟩
    | on => exact absurd hq.1 hstate
    | ending =>
      have hnot : ¬ calm := fun hc => by
        have hone := (hq hc).2
        rw [hcalm hc] at hone
        cases hone
      exact ⟨fun hc => absurd hc hnot, fun h => hnot h.2⟩
  | spawns =>
    have hidle : ¬ q.Busy calm := fun h => hapart ⟨trivial, h⟩
    refine ⟨?_, And.left⟩
    cases q with
    | off => trivial
    | on => exact absurd trivial hidle
    | ending => exact fun hc => absurd hc hidle
  | begins hspawned =>
    have hrunning : s.state = .running := by
      rcases hs.spawned with hnil | hone
      · rw [hnil] at hspawned
        cases hspawned
      · exact hone.2
    cases q with
    | off => exact ⟨trivial, And.right⟩
    | on =>
      rw [hq.2.2] at hspawned
      cases hspawned
    | ending =>
      have hnot : ¬ calm := fun hc => (hq hc).1 hrunning
      exact ⟨fun hc => absurd hc hnot, fun h => hnot h.2⟩
  | drops => exact ⟨hq, And.left⟩
  | ends =>
    have hidle : ¬ q.Busy calm := fun h => hapart ⟨trivial, h⟩
    refine ⟨?_, fun h => hidle h.2⟩
    cases q with
    | off => trivial
    | on => exact absurd trivial hidle
    | ending => exact fun hc => absurd hc hidle
  | escapes hcalm =>
    have hidle : ¬ q.Busy calm := fun h => hapart ⟨trivial, h⟩
    refine ⟨?_, fun h => hidle h.2⟩
    cases q with
    | off => trivial
    | on => exact absurd trivial hidle
    | ending => exact fun hc => absurd hc hcalm
  | finishes =>
    refine ⟨?_, And.left⟩
    cases q with
    | off => trivial
    | on => exact hq
    | ending => exact fun hc => absurd ⟨hc, hc⟩ hapart

/-- A build that is running has a thread, or is to get one. -/
theorem moves_pending {p p' : Phase} (hc : calm) (h : Moves calm s p p' s') :
    (s'.state = .running → s'.spawned ≠ []) ∨ (∃ n, p' = .on n) ∨ ¬ (∃ n, p = .on n) ∧
      ((s.state = .running → s.spawned ≠ []) → s'.state = .running → s'.spawned ≠ []) := by
  cases h with
  | stays =>
    by_cases hon : ∃ n, p = .on n
    · exact Or.inr (Or.inl hon)
    · exact Or.inr (Or.inr ⟨hon, id⟩)
  | counts => exact Or.inr (Or.inl ⟨_, rfl⟩)
  | claims => exact Or.inr (Or.inl ⟨_, rfl⟩)
  | spawns => exact Or.inl fun _ => List.cons_ne_nil _ _
  | begins => exact Or.inr (Or.inl ⟨_, rfl⟩)
  | drops hcalm => exact absurd hc hcalm
  | ends hstate => exact Or.inl fun h => absurd h hstate
  | escapes hcalm => exact absurd hc hcalm
  | finishes => exact Or.inr (Or.inr ⟨fun ⟨_, h⟩ => (by cases h), id⟩)

end Moves

/-! ### Runs -/

/-- Two threads that are not both busy. -/
def NotBoth (calm : Prop) (b b' : BuildJob) : Prop := ¬ (b.phase.Busy calm ∧ b'.phase.Busy calm)

section Runs

variable {calm : Prop} {allow : BuildWorld → ℕ × BuildTurn → Bool} {w : BuildWorld}

theorem build_keeps (hallow : ∀ w k c, allow w (k, c) = true → calm → Calm c (w.job k) w.store) :
    Keeps buildAct allow (IndexBuild.Wf calm) (fun b s => b.phase.Sound calm s) (NotBoth calm) where
  own := fun hw ha h => moves_own hw.store (hw.each _) (moves_of_act (hallow _ _ _ ha) h)
  other := by
    intro w k c b s hw ha h k' hk'
    obtain ⟨hsound, hnot⟩ :=
      moves_other hw.store (hw.each k') (hw.pair k k' hk'.symm) (moves_of_act (hallow _ _ _ ha) h)
    exact ⟨hsound, hnot, fun h => hnot h.symm⟩

theorem build_holds (hallow : ∀ w k c, allow w (k, c) = true → calm → Calm c (w.job k) w.store)
    (h : Runs.Later (step buildAct) allow BuildWorld.initial w) :
    Holds (IndexBuild.Wf calm) (fun b s => b.phase.Sound calm s) (NotBoth calm) w := by
  have hstart : Holds (IndexBuild.Wf calm) (fun b s => b.phase.Sound calm s) (NotBoth calm) BuildWorld.initial :=
    ⟨⟨Or.inl rfl, fun _ h => (by cases h), fun _ h => (by cases h)⟩, fun _ => trivial, fun _ _ _ h => h.1⟩
  exact hstart.later (build_keeps hallow) h

theorem calm_of_steady {k : ℕ} {c : BuildTurn} (h : steady w (k, c) = true) : Calm c (w.job k) w.store where
  request := by
    rintro now rfl
    simpa [steady] using h
  raises := by
    rintro message rfl
    exact h
  escapes := by
    rintro rfl
    cases h

/-- Two threads never build or bring retrieval up at the same time, whatever fails. -/
theorem one_build_at_a_time (h : Runs.Later (step buildAct) (fun _ _ => true) BuildWorld.initial w) {k k' : ℕ}
    (hk : (w.job k).executes = true) (hk' : (w.job k').executes = true) : k = k' := by
  have hholds : Holds (IndexBuild.Wf False) (fun b s => b.phase.Sound False s) (NotBoth False) w :=
    build_holds (fun _ _ _ _ hf => hf.elim) h
  have hbusy : ∀ b : BuildJob, b.executes = true → b.phase.Busy False := by
    intro b hb
    cases b with
    | building => trivial
    | initialising => trivial
    | _ => cases hb
  by_contra hne
  exact hholds.pair k k' hne ⟨hbusy _ hk, hbusy _ hk'⟩

theorem pending_of_running (h : Runs.Later (step buildAct) steady BuildWorld.initial w)
    (hrunning : w.store.state = .running) : w.store.spawned ≠ [] ∨ ∃ k n, (w.job k).phase = .on n := by
  have hsomeone : Someone (fun s : IndexBuild => s.state = .running → s.spawned ≠ [])
      (fun b : BuildJob => ∃ n, b.phase = .on n) w := by
    refine h.invariant (I := Someone _ _) (Or.inl fun h => (by cases h)) ?_
    rintro w w' ⟨k, c⟩ hw hallow hstep
    exact hw.step hstep fun hact => moves_pending trivial (moves_of_act (fun _ => calm_of_steady hallow) hact)
  exact hsomeone.imp_left fun h => h hrunning

end Runs

/-- **The state of the index build.**  At most one thread builds, in any run; and in a steady
one, where a build is said to be running, there is a thread for it or a request that is to
start one, it has no time of finishing, and the counters are its own. -/
theorem index_build_steady (w : BuildWorld) :
    (Runs.Later (step buildAct) (fun _ _ => true) BuildWorld.initial w →
      ∀ k k', (w.job k).executes = true → (w.job k').executes = true → k = k') ∧
    (Runs.Later (step buildAct) steady BuildWorld.initial w → w.store.state = .running →
      (w.store.spawned ≠ [] ∨ ∃ k n, (w.job k).phase = .on n) ∧ w.store.finishedAt = none ∧
        (w.store.countedBy = none ∨ w.store.countedBy = some w.store.current)) := by
  refine ⟨fun h k k' hk hk' => one_build_at_a_time h hk hk', ?_⟩
  intro h hrunning
  have hholds : Holds (IndexBuild.Wf True) (fun b s => b.phase.Sound True s) (NotBoth True) w :=
    build_holds (fun _ _ _ ha _ => calm_of_steady ha) h
  exact ⟨pending_of_running h hrunning, hholds.store.truthful trivial hrunning⟩

/-- **An audit write that raises leaves the build running for good**, and a request that comes
between the two sections of a worker has its build marked as finished. -/
theorem index_build_unsteady :
    (¬ ∀ w : BuildWorld, Runs.Later (step buildAct) (fun _ _ => true) BuildWorld.initial w → w.store.state = .running →
      w.store.spawned ≠ [] ∨ ∃ k n, (w.job k).phase = .on n) ∧
    ¬ ∀ w : BuildWorld, Runs.Later (step buildAct) (fun _ _ => true) BuildWorld.initial w → w.store.state = .running →
      w.store.finishedAt = none := by
  constructor
  · intro h
    obtain ⟨w, hrun, hw⟩ := (Option.any_eq_true _ _).mp (show (Runs.run (step buildAct) (fun _ _ => true)
      [(0, .request 0), (0, .raises [])] BuildWorld.initial).any (fun w => w.store.state = .running &&
        w.store.spawned = [] && match w.job 0 with | .idle => true | _ => false) = true by decide +kernel)
    simp only [Bool.and_eq_true, decide_eq_true_eq] at hw
    rcases h w (Runs.Later.of_run hrun) hw.1.1 with hspawned | ⟨k, n, hk⟩
    · exact hspawned hw.1.2
    · by_cases h0 : k = 0
      · rw [h0] at hk
        cases hjob : w.job 0 with
        | idle =>
          rw [hjob] at hk
          cases hk
        | _ =>
          rw [hjob] at hw
          cases hw.2
      · rw [job_of_run hrun (by simp [Ne.symm h0])] at hk
        cases hk
  · intro h
    obtain ⟨w, hrun, hw⟩ := (Option.any_eq_true _ _).mp (show (Runs.run (step buildAct) (fun _ _ => true)
      [(0, .request 0), (0, .goOn), (0, .goOn), (1, .run), (1, .goOn), (1, .goOn), (1, .initialised true),
        (0, .request 5), (1, .finish 6)] BuildWorld.initial).any
        (fun w => w.store.state = .running && w.store.finishedAt = some 6) = true by decide +kernel)
    simp only [Bool.and_eq_true, decide_eq_true_eq] at hw
    have hnone := h w (Runs.Later.of_run hrun) hw.1
    rw [hw.2] at hnone
    cases hnone

end CyClaw.Gate

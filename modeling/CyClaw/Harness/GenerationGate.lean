/-
One local generation at a time: `/api/chat` and `/api/agent/run`.

A loop turn marks its session, and then takes `generation_gate`; an agent run takes
`agent_run_gate`, and `generation_gate` only where it shares the backend with the chat.  A
request holds at most these three, and a step takes or frees one of them (`GateMoves`).

The gates are held by one request each and free once none is in progress, whatever raises
(`gates_exclusive`).  The mark of a session is dropped on every path but one: where the tool
gate raises anything but `ToolDenied` it stays (`broken_audit_leaks_mark`).
-/
import CyClaw.Lib.Threads
import Mathlib.Data.Rat.Defs

namespace CyClaw.Harness

open Threads

/-- `_LOOP_INFLIGHT_TTL_SEC`. -/
def loopInflightTtl : ℚ := 900

/-- `generation_gate`, `agent_run_gate` and `loop_inflight`. -/
structure Gates where
  generation : Bool
  agentRun : Bool
  /-- When the mark of a session was set. -/
  loopInflight : List Char → Option ℚ

def Gates.initial : Gates where
  generation := false
  agentRun := false
  loopInflight := fun _ => none

/-- What `generation_gate` is claimed for: a chat, whose session is marked if it is a loop turn,
or an agent run. -/
inductive Generation where
  | chat (marked : Option (List Char))
  | agent

inductive GateJob where
  | idle
  /-- In `chat`, at `store.get` or `store.create`. -/
  | opening (session : List Char) (loop : Bool)
  /-- In `_guard_loop_turn`, before the mark. -/
  | guarding (session : List Char)
  /-- At `assert_allowed` of a loop turn. -/
  | asking (session : List Char)
  | claiming (g : Generation)
  /-- In `_run_model_turn`, or in the subprocess. -/
  | generating (g : Generation)
  | releasing (g : Generation) (ok : Bool)
  /-- At `_release_loop_inflight`. -/
  | unmarking (session : List Char) (ok : Bool)
  /-- At `store.record_exchange`. -/
  | persisting
  /-- In `agent_run`, up to the claim of `agent_run_gate`. -/
  | requesting
  /-- At `_agent_run_shares_chat_backend`. -/
  | sharing
  /-- In a subprocess that shares no backend. -/
  | running
  | agentReleasing

inductive Raised where
  | toolDenied
  | other
deriving DecidableEq

inductive GateTurn where
  | chat (session : List Char) (loop : Bool)
  | agentRun
  /-- The step goes through; `now` is what `time.time()` says. -/
  | goOn (now : ℚ)
  | shares (b : Bool)
  | raises (e : Raised)

/-- What comes after `generation_gate` was released, or was not to be had. -/
def GateJob.after : Generation → Bool → GateJob
  | .chat none, ok => if ok then .persisting else .idle
  | .chat (some session), ok => .unmarking session ok
  | .agent, _ => .agentReleasing

def gateAct : GateTurn → GateJob → Gates → Option (GateJob × Gates)
  | .chat session loop, .idle, s => some (.opening session loop, s)
  | .goOn _, .opening session loop, s => some (if loop then .guarding session else .claiming (.chat none), s)
  | .raises _, .opening _ _, s => some (.idle, s)
  | .raises _, .guarding _, s => some (.idle, s)
  | .goOn now, .guarding session, s =>
      -- A mark that is too old is taken over.
      if (s.loopInflight session).any fun started => now - started < loopInflightTtl then some (.idle, s)
      else some (.asking session, { s with loopInflight := Function.update s.loopInflight session (some now) })
  | .goOn _, .asking session, s => some (.claiming (.chat (some session)), s)
  | .raises .toolDenied, .asking session, s => some (.unmarking session false, s)
  -- `except ToolDenied` catches nothing else.
  | .raises .other, .asking _, s => some (.idle, s)
  | .goOn _, .claiming g, s =>
      if s.generation then some (.after g false, s) else some (.generating g, { s with generation := true })
  | .goOn _, .generating g, s => some (.releasing g true, s)
  | .raises _, .generating g, s => some (.releasing g false, s)
  | .goOn _, .releasing g ok, s => some (.after g ok, { s with generation := false })
  | .goOn _, .unmarking session ok, s =>
      some (if ok then .persisting else .idle,
        { s with loopInflight := Function.update s.loopInflight session none })
  | .goOn _, .persisting, s => some (.idle, s)
  | .raises _, .persisting, s => some (.idle, s)
  | .agentRun, .idle, s => some (.requesting, s)
  | .raises _, .requesting, s => some (.idle, s)
  | .goOn _, .requesting, s =>
      if s.agentRun then some (.idle, s) else some (.sharing, { s with agentRun := true })
  | .raises _, .sharing, s => some (.agentReleasing, s)
  | .shares b, .sharing, s => some (if b then .claiming .agent else .running, s)
  | .goOn _, .running, s => some (.agentReleasing, s)
  | .raises _, .running, s => some (.agentReleasing, s)
  | .goOn _, .agentReleasing, s => some (.idle, { s with agentRun := false })
  | _, _, _ => none

abbrev GateWorld := World ℕ GateJob Gates

def GateWorld.initial : GateWorld := { job := fun _ => .idle, store := .initial }

/-- Between its claim of `generation_gate` and its release. -/
def GateJob.generates : GateJob → Bool
  | .generating _ => true
  | .releasing _ _ => true
  | _ => false

/-- Between its claim of `agent_run_gate` and its release. -/
def GateJob.runsAgent : GateJob → Bool
  | .claiming .agent => true
  | .generating .agent => true
  | .releasing .agent _ => true
  | .sharing => true
  | .running => true
  | .agentReleasing => true
  | _ => false

/-- The session that a request has marked. -/
def GateJob.marked : GateJob → Option (List Char)
  | .asking session => some session
  | .claiming (.chat marked) => marked
  | .generating (.chat marked) => marked
  | .releasing (.chat marked) _ => marked
  | .unmarking session _ => some session
  | _ => none

/-- The tool gate of a loop turn raises nothing but `ToolDenied`. -/
def toolGateHolds (w : GateWorld) : ℕ × GateTurn → Bool
  | (k, .raises .other) =>
      match w.job k with
      | .asking _ => false
      | _ => true
  | _ => true

/-! ### What a step does -/

/-- What a request holds. -/
structure Held where
  generates : Bool
  runsAgent : Bool
  marked : Option (List Char)

def GateJob.held (b : GateJob) : Held := ⟨b.generates, b.runsAgent, b.marked⟩

/-- **A step takes or frees one thing at most.**  `calm` says that the tool gate holds. -/
inductive GateMoves (calm : Prop) (s : Gates) : Held → Held → Gates → Prop where
  | keeps {h} : GateMoves calm s h h s
  | marks {g a session now} :
      GateMoves calm s ⟨g, a, none⟩ ⟨g, a, some session⟩
        { s with loopInflight := Function.update s.loopInflight session (some now) }
  | unmarks {g a session} :
      GateMoves calm s ⟨g, a, some session⟩ ⟨g, a, none⟩
        { s with loopInflight := Function.update s.loopInflight session none }
  | leaks {g a session} (hcalm : ¬ calm) : GateMoves calm s ⟨g, a, some session⟩ ⟨g, a, none⟩ s
  | claims {a m} (hfree : s.generation = false) :
      GateMoves calm s ⟨false, a, m⟩ ⟨true, a, m⟩ { s with generation := true }
  | releases {a m} : GateMoves calm s ⟨true, a, m⟩ ⟨false, a, m⟩ { s with generation := false }
  | claimsAgent {g m} (hfree : s.agentRun = false) :
      GateMoves calm s ⟨g, false, m⟩ ⟨g, true, m⟩ { s with agentRun := true }
  | releasesAgent {g m} : GateMoves calm s ⟨g, true, m⟩ ⟨g, false, m⟩ { s with agentRun := false }

section Moves

variable {calm : Prop} {c : GateTurn} {b b' : GateJob} {s s' : Gates}

@[simp] theorem held_after (g : Generation) (ok : Bool) : (GateJob.after g ok).held = (GateJob.claiming g).held := by
  cases g with
  | chat marked => cases marked <;> cases ok <;> rfl
  | agent => rfl

theorem moves_of_gateAct (hcalm : calm → ∀ session, b = .asking session → c ≠ .raises .other)
    (h : gateAct c b s = some (b', s')) : GateMoves calm s b.held b'.held s' := by
  unfold gateAct at h
  split at h
  · obtain ⟨rfl, rfl⟩ := Prod.mk.inj (Option.some.inj h)
    exact .keeps
  · rename_i session loop
    obtain ⟨rfl, rfl⟩ := Prod.mk.inj (Option.some.inj h)
    cases loop <;> exact .keeps
  · obtain ⟨rfl, rfl⟩ := Prod.mk.inj (Option.some.inj h)
    exact .keeps
  · obtain ⟨rfl, rfl⟩ := Prod.mk.inj (Option.some.inj h)
    exact .keeps
  · split at h
    · obtain ⟨rfl, rfl⟩ := Prod.mk.inj (Option.some.inj h)
      exact .keeps
    · obtain ⟨rfl, rfl⟩ := Prod.mk.inj (Option.some.inj h)
      exact .marks
  · obtain ⟨rfl, rfl⟩ := Prod.mk.inj (Option.some.inj h)
    exact .keeps
  · obtain ⟨rfl, rfl⟩ := Prod.mk.inj (Option.some.inj h)
    exact .keeps
  · obtain ⟨rfl, rfl⟩ := Prod.mk.inj (Option.some.inj h)
    exact .leaks fun hc => hcalm hc _ rfl rfl
  · rename_i now g
    split at h
    · obtain ⟨rfl, rfl⟩ := Prod.mk.inj (Option.some.inj h)
      rw [held_after]
      exact .keeps
    · rename_i hfree
      obtain ⟨rfl, rfl⟩ := Prod.mk.inj (Option.some.inj h)
      cases g <;> exact .claims (Bool.eq_false_iff.mpr hfree)
  · rename_i g
    obtain ⟨rfl, rfl⟩ := Prod.mk.inj (Option.some.inj h)
    cases g <;> exact .keeps
  · rename_i g
    obtain ⟨rfl, rfl⟩ := Prod.mk.inj (Option.some.inj h)
    cases g <;> exact .keeps
  · rename_i g ok
    obtain ⟨rfl, rfl⟩ := Prod.mk.inj (Option.some.inj h)
    rw [held_after]
    cases g <;> exact .releases
  · rename_i session ok
    obtain ⟨rfl, rfl⟩ := Prod.mk.inj (Option.some.inj h)
    cases ok <;> exact .unmarks
  · obtain ⟨rfl, rfl⟩ := Prod.mk.inj (Option.some.inj h)
    exact .keeps
  · obtain ⟨rfl, rfl⟩ := Prod.mk.inj (Option.some.inj h)
    exact .keeps
  · obtain ⟨rfl, rfl⟩ := Prod.mk.inj (Option.some.inj h)
    exact .keeps
  · obtain ⟨rfl, rfl⟩ := Prod.mk.inj (Option.some.inj h)
    exact .keeps
  · split at h
    · obtain ⟨rfl, rfl⟩ := Prod.mk.inj (Option.some.inj h)
      exact .keeps
    · rename_i hfree
      obtain ⟨rfl, rfl⟩ := Prod.mk.inj (Option.some.inj h)
      exact .claimsAgent (Bool.eq_false_iff.mpr hfree)
  · obtain ⟨rfl, rfl⟩ := Prod.mk.inj (Option.some.inj h)
    exact .keeps
  · rename_i shares
    obtain ⟨rfl, rfl⟩ := Prod.mk.inj (Option.some.inj h)
    cases shares <;> exact .keeps
  · obtain ⟨rfl, rfl⟩ := Prod.mk.inj (Option.some.inj h)
    exact .keeps
  · obtain ⟨rfl, rfl⟩ := Prod.mk.inj (Option.some.inj h)
    exact .keeps
  · obtain ⟨rfl, rfl⟩ := Prod.mk.inj (Option.some.inj h)
    exact .releasesAgent
  · cases h

/-- A gate that a request holds is taken. -/
structure Held.Sound (s : Gates) (h : Held) : Prop where
  generates : h.generates = true → s.generation = true
  runsAgent : h.runsAgent = true → s.agentRun = true

/-- Two requests that do not hold the same gate. -/
structure Held.Apart (h h' : Held) : Prop where
  generates : ¬ (h.generates = true ∧ h'.generates = true)
  runsAgent : ¬ (h.runsAgent = true ∧ h'.runsAgent = true)

theorem Held.Apart.symm {h h' : Held} (hapart : h.Apart h') : h'.Apart h :=
  ⟨fun hb => hapart.generates hb.symm, fun hb => hapart.runsAgent hb.symm⟩

theorem held_own {h h' : Held} (hh : h.Sound s) (hmove : GateMoves calm s h h' s') : h'.Sound s' := by
  cases hmove with
  | keeps => exact hh
  | marks => exact ⟨hh.generates, hh.runsAgent⟩
  | unmarks => exact ⟨hh.generates, hh.runsAgent⟩
  | leaks => exact ⟨hh.generates, hh.runsAgent⟩
  | claims => exact ⟨fun _ => rfl, hh.runsAgent⟩
  | releases => exact ⟨fun h => (by cases h), hh.runsAgent⟩
  | claimsAgent => exact ⟨hh.generates, fun _ => rfl⟩
  | releasesAgent => exact ⟨hh.generates, fun h => (by cases h)⟩

/-- A step beside another request. -/
theorem held_other {h h' j : Held} (hj : j.Sound s) (hapart : h.Apart j) (hmove : GateMoves calm s h h' s') :
    j.Sound s' ∧ h'.Apart j := by
  cases hmove with
  | keeps => exact ⟨hj, hapart⟩
  | marks => exact ⟨⟨hj.generates, hj.runsAgent⟩, hapart.generates, hapart.runsAgent⟩
  | unmarks => exact ⟨⟨hj.generates, hj.runsAgent⟩, hapart.generates, hapart.runsAgent⟩
  | leaks => exact ⟨hj, hapart.generates, hapart.runsAgent⟩
  | claims hfree =>
    have hidle : j.generates ≠ true := fun h => Bool.false_ne_true (hfree.symm.trans (hj.generates h))
    exact ⟨⟨fun _ => rfl, hj.runsAgent⟩, fun h => hidle h.2, hapart.runsAgent⟩
  | releases =>
    have hidle : j.generates ≠ true := fun h => hapart.generates ⟨rfl, h⟩
    exact ⟨⟨fun h => absurd h hidle, hj.runsAgent⟩, fun h => hidle h.2, hapart.runsAgent⟩
  | claimsAgent hfree =>
    have hidle : j.runsAgent ≠ true := fun h => Bool.false_ne_true (hfree.symm.trans (hj.runsAgent h))
    exact ⟨⟨hj.generates, fun _ => rfl⟩, hapart.generates, fun h => hidle h.2⟩
  | releasesAgent =>
    have hidle : j.runsAgent ≠ true := fun h => hapart.runsAgent ⟨rfl, h⟩
    exact ⟨⟨hj.generates, fun h => absurd h hidle⟩, hapart.generates, fun h => hidle h.2⟩

/-! ### What is taken is held -/

theorem generation_someone {h h' : Held} (hmove : GateMoves calm s h h' s') :
    s'.generation = false ∨ h'.generates = true ∨
      ¬ h.generates = true ∧ (s.generation = false → s'.generation = false) := by
  cases hmove with
  | claims => exact Or.inr (Or.inl rfl)
  | releases => exact Or.inl rfl
  | _ => exact still id id

theorem agentRun_someone {h h' : Held} (hmove : GateMoves calm s h h' s') :
    s'.agentRun = false ∨ h'.runsAgent = true ∨
      ¬ h.runsAgent = true ∧ (s.agentRun = false → s'.agentRun = false) := by
  cases hmove with
  | claimsAgent => exact Or.inr (Or.inl rfl)
  | releasesAgent => exact Or.inl rfl
  | _ => exact still id id

/-- The mark of a session has a request that will drop it. -/
theorem marked_someone {h h' : Held} {session : List Char} (hc : calm) (hmove : GateMoves calm s h h' s') :
    s'.loopInflight session = none ∨ h'.marked = some session ∨
      ¬ h.marked = some session ∧ (s.loopInflight session = none → s'.loopInflight session = none) := by
  cases hmove with
  | marks =>
    rename_i g a session' now
    by_cases hs : session = session'
    · exact Or.inr (Or.inl (congrArg some hs.symm))
    · refine Or.inr (Or.inr ⟨fun h => (by cases h), fun hnone => ?_⟩)
      exact (Function.update_of_ne hs _ _).trans hnone
  | unmarks =>
    rename_i g a session'
    by_cases hs : session = session'
    · rw [hs]
      exact Or.inl (Function.update_self _ _ _)
    · refine Or.inr (Or.inr ⟨fun h => hs (Option.some.inj h).symm, fun hnone => ?_⟩)
      exact (Function.update_of_ne hs _ _).trans hnone
  | leaks hcalm => exact absurd hc hcalm
  | _ => exact still id id

end Moves

/-! ### Runs -/

section Runs

variable {calm : Prop} {allow : GateWorld → ℕ × GateTurn → Bool} {w : GateWorld}

theorem gate_keeps : Keeps gateAct allow (fun _ => True) (fun b s => b.held.Sound s) (fun b b' => b.held.Apart b'.held)
    where
  own := fun hw _ h => ⟨trivial, held_own (hw.each _) (moves_of_gateAct False.elim h)⟩
  other := by
    intro w k c b s hw _ h k' hk'
    obtain ⟨hsound, hapart⟩ := held_other (hw.each k') (hw.pair k k' hk'.symm) (moves_of_gateAct False.elim h)
    exact ⟨hsound, hapart, hapart.symm⟩

theorem gate_holds (h : Runs.Later (step gateAct) allow GateWorld.initial w) :
    Holds (fun _ => True) (fun b s => b.held.Sound s) (fun b b' => b.held.Apart b'.held) w := by
  have hstart : Holds (fun _ => True) (fun (b : GateJob) s => b.held.Sound s)
      (fun b b' => b.held.Apart b'.held) GateWorld.initial :=
    ⟨trivial, fun _ => ⟨fun h => (by cases h), fun h => (by cases h)⟩,
      fun _ _ _ => ⟨fun h => (by cases h.1), fun h => (by cases h.1)⟩⟩
  exact hstart.later gate_keeps h

theorem generation_held (h : Runs.Later (step gateAct) allow GateWorld.initial w) :
    Someone (fun s : Gates => s.generation = false) (fun b : GateJob => b.held.generates = true) w := by
  refine h.invariant (I := Someone _ _) (Or.inl rfl) ?_
  rintro w w' ⟨k, c⟩ hw - hstep
  exact hw.step hstep fun hact => generation_someone (moves_of_gateAct False.elim hact)

theorem agentRun_held (h : Runs.Later (step gateAct) allow GateWorld.initial w) :
    Someone (fun s : Gates => s.agentRun = false) (fun b : GateJob => b.held.runsAgent = true) w := by
  refine h.invariant (I := Someone _ _) (Or.inl rfl) ?_
  rintro w w' ⟨k, c⟩ hw - hstep
  exact hw.step hstep fun hact => agentRun_someone (moves_of_gateAct False.elim hact)

theorem marked_held (h : Runs.Later (step gateAct) toolGateHolds GateWorld.initial w) (session : List Char) :
    Someone (fun s : Gates => s.loopInflight session = none) (fun b : GateJob => b.held.marked = some session) w := by
  refine h.invariant (I := Someone _ _) (Or.inl rfl) ?_
  rintro w w' ⟨k, c⟩ hw hallow hstep
  refine hw.step hstep fun hact => marked_someone trivial (moves_of_gateAct (fun _ => ?_) hact)
  rintro session' hjob rfl
  rw [toolGateHolds, hjob] at hallow
  cases hallow

/-- **The gates.**  In any run at most one request is between its claim of a gate and its
release, none frees a gate that another holds, and the gates are free when none is in
progress. -/
theorem gates_exclusive (h : Runs.Later (step gateAct) allow GateWorld.initial w) :
    (∀ k k', (w.job k).generates = true → (w.job k').generates = true → k = k') ∧
    (∀ k k', (w.job k).runsAgent = true → (w.job k').runsAgent = true → k = k') ∧
    (∀ k c b s, gateAct c (w.job k) w.store = some (b, s) → ∀ k', k' ≠ k →
      (w.store.generation = true → s.generation = false → (w.job k').generates = false) ∧
      (w.store.agentRun = true → s.agentRun = false → (w.job k').runsAgent = false)) ∧
    ((∀ k, w.job k = .idle) → w.store.generation = false ∧ w.store.agentRun = false) := by
  have hw := gate_holds h
  refine ⟨?_, ?_, ?_, ?_⟩
  · intro k k' hk hk'
    by_contra hne
    exact (hw.pair k k' hne).generates ⟨hk, hk'⟩
  · intro k k' hk hk'
    by_contra hne
    exact (hw.pair k k' hne).runsAgent ⟨hk, hk'⟩
  · intro k c b s hact k' hk'
    have hmove : GateMoves False w.store (w.job k).held b.held s := moves_of_gateAct False.elim hact
    have hother := (held_other (hw.each k') (hw.pair k k' hk'.symm) hmove).1
    refine ⟨fun _ hfree => ?_, fun _ hfree => ?_⟩
    · refine Bool.eq_false_iff.mpr fun hk => ?_
      have htaken := hother.generates hk
      rw [hfree] at htaken
      cases htaken
    · refine Bool.eq_false_iff.mpr fun hk => ?_
      have htaken := hother.runsAgent hk
      rw [hfree] at htaken
      cases htaken
  · intro hidle
    refine ⟨?_, ?_⟩
    · refine (generation_held h).resolve_right ?_
      rintro ⟨k, hk⟩
      rw [hidle k] at hk
      cases hk
    · refine (agentRun_held h).resolve_right ?_
      rintro ⟨k, hk⟩
      rw [hidle k] at hk
      cases hk

end Runs

/-- **One generation at a time, and no claim that leaks.**  The gates are as they should be in
any run; and where the tool gate of a loop turn raises nothing but `ToolDenied`, no session is
marked when no request is in progress. -/
theorem one_generation_no_leak (w : GateWorld) :
    (Runs.Later (step gateAct) (fun _ _ => true) GateWorld.initial w →
      (∀ k k', (w.job k).generates = true → (w.job k').generates = true → k = k') ∧
      (∀ k k', (w.job k).runsAgent = true → (w.job k').runsAgent = true → k = k') ∧
      (∀ k c b s, gateAct c (w.job k) w.store = some (b, s) → ∀ k', k' ≠ k →
        (w.store.generation = true → s.generation = false → (w.job k').generates = false) ∧
        (w.store.agentRun = true → s.agentRun = false → (w.job k').runsAgent = false)) ∧
      ((∀ k, w.job k = .idle) → w.store.generation = false ∧ w.store.agentRun = false)) ∧
    (Runs.Later (step gateAct) toolGateHolds GateWorld.initial w → (∀ k, w.job k = .idle) →
      w.store.loopInflight = fun _ => none) := by
  refine ⟨fun h => gates_exclusive h, ?_⟩
  intro h hidle
  funext session
  refine (marked_held h session).resolve_right ?_
  rintro ⟨k, hk⟩
  rw [hidle k] at hk
  cases hk

/-- **A tool gate that raises something else leaves the session marked.** -/
theorem broken_audit_leaks_mark :
    ¬ ∀ w : GateWorld, Runs.Later (step gateAct) (fun _ _ => true) GateWorld.initial w → (∀ k, w.job k = .idle) →
      w.store.loopInflight = fun _ => none := by
  intro h
  obtain ⟨w, hrun, hw⟩ := (Option.any_eq_true _ _).mp (show (Runs.run (step gateAct) (fun _ _ => true)
    [(0, .chat "0123456789ab".toList true), (0, .goOn 0), (0, .goOn 0), (0, .raises .other)]
    GateWorld.initial).any (fun w => (w.store.loopInflight "0123456789ab".toList).isSome &&
      match w.job 0 with | .idle => true | _ => false) = true by decide +kernel)
  rw [Bool.and_eq_true] at hw
  have hfirst : w.job 0 = .idle := by
    cases hjob : w.job 0 with
    | idle => rfl
    | _ =>
      rw [hjob] at hw
      cases hw.2
  have hidle : ∀ k, w.job k = .idle := jobs_of_run (P := (· = .idle)) hrun (fun _ => rfl) (by simp [hfirst])
  have hmark := hw.1
  rw [h w (Runs.Later.of_run hrun) hidle] at hmark
  cases hmark

end CyClaw.Harness

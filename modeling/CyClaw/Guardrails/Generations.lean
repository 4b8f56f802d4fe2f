/-
How often one call of `_generate_or_error` generates.

The check of the input comes before the client and the check of the output behind it, so a
guard that raises has called the client exactly when the input went through.  The fallback
then calls it again.  The client may be what raised, or the check of the output: its engine is
loaded again where the first load degraded, and not all that a load raises degrades.
-/
import CyClaw.Guardrails.Broker

namespace CyClaw.Guardrails

open Effects Graph

/-! ### What the engine does -/

/-- The engine blocks what it is shown. -/
def Blocks (l : Layer) (rails : Rails) (messages : List Message) (inputOnly : Bool) : Prop :=
  ∃ result, liveCheck l rails messages inputOnly = .ok (some result) ∧ statusBlocked l result = true

/-- The check is broken off by what no handler catches. -/
def Interrupted (l : Layer) (rails : Rails) (messages : List Message) (inputOnly : Bool) : Prop :=
  ∃ e, liveCheck l rails messages inputOnly = .error e ∧ e.isException = false

/-- The engine does not load, and the check of the input goes without. -/
def Degraded (l : Layer) : Prop := ∃ e name, l.getCyclawGuardrails 0 = .error e ∧ e.degrades = some name

def InputBlocked (l : Layer) (query : String) : Prop :=
  ∃ rails, l.getCyclawGuardrails 0 = .ok rails ∧ Blocks l rails (userMessages query) true

def InputPasses (l : Layer) (query : String) : Prop :=
  Degraded l ∨ ∃ rails, l.getCyclawGuardrails 0 = .ok rails ∧ ¬ Blocks l rails (userMessages query) true ∧
    ¬ Interrupted l rails (userMessages query) true

/-- A load raises what the broker does not degrade on, and the fallback catches. -/
def LoadRaises (l : Layer) (n : ℕ) : Prop :=
  ∃ e, l.getCyclawGuardrails n = .error e ∧ e.degrades = none ∧ e.isException = true

/-- The guard raises behind the call of the client: the client itself does, with no service
error, or it answers and the second load of the engine does. -/
def RaisesBehind (l : Layer) (c : PaidClient) (prompt : String) (spend : Option SpendContext) : Prop :=
  (∃ e, c.generate 0 prompt spend = .error e ∧ e.ragError = none ∧ e.isException = true) ∨
    (∃ answer, c.generate 0 prompt spend = .ok answer) ∧ Degraded l ∧ LoadRaises l 1

/-! ### The broker -/

section Broker

variable {l : Layer} {w w' : World} {rails : Rails} {e : Raised} {name stage query : String}
  {messages : List Message} {inputOnly : Bool}

theorem engine_loaded (h : w.rails = some rails) : engine l w = (.ok (some rails), w) := by
  simp only [engine, Eff.bind_apply, Eff.get, h, Eff.pure_apply]

theorem engine_ok (h : w.rails = none) (hload : l.getCyclawGuardrails w.loads = .ok rails) :
    engine l w = (.ok (some rails), { w with rails := some rails, loads := w.loads + 1 }) := by
  simp only [engine, Eff.bind_apply, Eff.get, h, Eff.attempt, loadRails, hload, Eff.modify, Eff.pure_apply]

theorem engine_degrades (h : w.rails = none) (hload : l.getCyclawGuardrails w.loads = .error e)
    (he : e.degrades = some name) :
    engine l w = (.ok none, { w with loads := w.loads + 1, recorded := w.recorded ++ [.skipped name none] }) := by
  simp only [engine, Eff.bind_apply, Eff.get, h, Eff.attempt, loadRails, hload, he, record, Eff.modify, Eff.pure_apply]

theorem engine_raises (h : w.rails = none) (hload : l.getCyclawGuardrails w.loads = .error e)
    (he : e.degrades = none) : engine l w = (.error e, { w with loads := w.loads + 1 }) := by
  simp only [engine, Eff.bind_apply, Eff.get, h, Eff.attempt, loadRails, hload, he, Eff.raise]

/-! The verdict on a check, once the engine is there. -/

theorem checkRails_degraded (h : engine l w = (.ok none, w')) :
    checkRails l stage messages inputOnly query w = (.ok false, w') := by
  simp only [checkRails, Eff.bind_apply, h, Eff.pure_apply]

theorem checkRails_raises (h : engine l w = (.error e, w')) :
    checkRails l stage messages inputOnly query w = (.error e, w') := by
  simp only [checkRails, Eff.bind_apply, h]

/-- **All that a check does with its engine**: it blocks, it lets pass, or it is broken off. -/
theorem checkRails_cases (stage query : String) (messages : List Message) (inputOnly : Bool)
    (h : engine l w = (.ok (some rails), w')) :
    ∃ r recorded, checkRails l stage messages inputOnly query w = (r, { w' with recorded := recorded }) ∧
      (r = .ok true ∧ Blocks l rails messages inputOnly ∨
        r = .ok false ∧ ¬ Blocks l rails messages inputOnly ∧ ¬ Interrupted l rails messages inputOnly ∨
        ∃ e, r = .error e ∧ e.isException = false ∧ Interrupted l rails messages inputOnly ∧
          ¬ Blocks l rails messages inputOnly) := by
  simp only [checkRails, Eff.bind_apply, h]
  cases hcheck : liveCheck l rails messages inputOnly with
  | error e =>
      have hblocks : ¬ Blocks l rails messages inputOnly := by
        rintro ⟨result, hresult, -⟩
        rw [hcheck] at hresult
        cases hresult
      by_cases he : e.isException = true
      · simp only [he, ↓reduceIte]
        refine ⟨_, _, rfl, Or.inr (Or.inl ⟨rfl, hblocks, ?_⟩)⟩
        rintro ⟨e', he', hno⟩
        rw [hcheck, Except.error.injEq] at he'
        rw [he', hno] at he
        cases he
      · have hno : e.isException = false := by simpa using he
        simp only [hno]
        exact ⟨_, w'.recorded, rfl, Or.inr (Or.inr ⟨e, rfl, hno, ⟨e, hcheck, hno⟩, hblocks⟩)⟩
  | ok result =>
      have hgoes : ¬ Interrupted l rails messages inputOnly := by
        rintro ⟨e, he, -⟩
        rw [hcheck] at he
        cases he
      cases result with
      | none =>
          refine ⟨_, w'.recorded, rfl, Or.inr (Or.inl ⟨rfl, ?_, hgoes⟩)⟩
          rintro ⟨result, hresult, -⟩
          rw [hcheck] at hresult
          cases hresult
      | some result =>
          by_cases hblocked : statusBlocked l result = true
          · simp only [hblocked, ↓reduceIte]
            exact ⟨_, _, rfl, Or.inl ⟨rfl, result, hcheck, hblocked⟩⟩
          · simp only [hblocked]
            refine ⟨_, w'.recorded, rfl, Or.inr (Or.inl ⟨rfl, ?_, hgoes⟩)⟩
            rintro ⟨result', hresult, hyes⟩
            rw [hcheck, Except.ok.injEq, Option.some.injEq] at hresult
            rw [hresult] at hblocked
            exact hblocked hyes

/-! The check of the input, which comes first, and that of the output. -/

theorem checkUser_cases (l : Layer) (query : String) :
    ∃ r w, checkUser l query {} = (r, w) ∧ w.prompts = [] ∧
      (r = .ok true ∧ InputBlocked l query ∨
        (r = .ok false ∧ ¬ InputBlocked l query ∧ InputPasses l query ∧
          (w.rails = none ∧ w.loads = 1 ∧ Degraded l ∨ (∃ rails, w.rails = some rails) ∧ ¬ Degraded l)) ∨
        (∃ e, r = .error e) ∧ ¬ InputBlocked l query ∧ ¬ InputPasses l query) := by
  cases hload : l.getCyclawGuardrails 0 with
  | error e =>
      have hblocked : ¬ InputBlocked l query := by
        rintro ⟨rails, hok, -⟩
        rw [hload] at hok
        cases hok
      cases he : e.degrades with
      | some name =>
          have hdegraded : Degraded l := ⟨e, name, hload, he⟩
          exact ⟨_, _, checkRails_degraded (engine_degrades rfl hload he), rfl,
            Or.inr (Or.inl ⟨rfl, hblocked, Or.inl hdegraded, Or.inl ⟨rfl, rfl, hdegraded⟩⟩)⟩
      | none =>
          refine ⟨_, _, checkRails_raises (engine_raises rfl hload he), rfl, Or.inr (Or.inr ⟨⟨e, rfl⟩, hblocked, ?_⟩)⟩
          rintro (⟨e', name, he', hname⟩ | ⟨rails, hok, -⟩)
          · rw [hload, Except.error.injEq] at he'
            rw [← he', he] at hname
            cases hname
          · rw [hload] at hok
            cases hok
  | ok rails =>
      have hloaded : ¬ Degraded l := by
        rintro ⟨e, name, he, -⟩
        rw [hload] at he
        cases he
      have hsame : ∀ rails', l.getCyclawGuardrails 0 = .ok rails' → rails' = rails := by
        intro rails' h
        rw [hload, Except.ok.injEq] at h
        exact h.symm
      obtain ⟨r, recorded, hrun, hr⟩ := checkRails_cases "input" query (userMessages query) true
        (engine_ok (w := {}) rfl hload)
      refine ⟨r, _, hrun, rfl, ?_⟩
      obtain ⟨rfl, hblocks⟩ | ⟨rfl, hblocks, hgoes⟩ | ⟨e, rfl, -, hbroken, hblocks⟩ := hr
      · exact Or.inl ⟨rfl, rails, hload, hblocks⟩
      · refine Or.inr (Or.inl ⟨rfl, ?_, Or.inr ⟨rails, hload, hblocks, hgoes⟩, Or.inr ⟨⟨rails, rfl⟩, hloaded⟩⟩)
        rintro ⟨rails', hok, h⟩
        rw [hsame rails' hok] at h
        exact hblocks h
      · refine Or.inr (Or.inr ⟨⟨e, rfl⟩, ?_, ?_⟩)
        · rintro ⟨rails', hok, h⟩
          rw [hsame rails' hok] at h
          exact hblocks h
        · rintro (h | ⟨rails', hok, -, hgoes⟩)
          · exact hloaded h
          · rw [hsame rails' hok] at hgoes
            exact hgoes hbroken

/-- The check of the output raises an exception exactly where its load does. -/
theorem checkAssistant_cases (l : Layer) (query answer : String) (w : World) :
    ∃ r w', checkAssistant l query answer w = (r, w') ∧ w'.prompts = w.prompts ∧
      ((∃ e, r = .error e ∧ e.isException = true) ↔ w.rails = none ∧ LoadRaises l w.loads) := by
  have hpasses : ∀ {rails w'}, engine l w = (.ok (some rails), w') → w'.prompts = w.prompts →
      ¬ (w.rails = none ∧ LoadRaises l w.loads) →
      ∃ r w', checkAssistant l query answer w = (r, w') ∧ w'.prompts = w.prompts ∧
        ((∃ e, r = .error e ∧ e.isException = true) ↔ w.rails = none ∧ LoadRaises l w.loads) := by
    intro rails w' hengine hprompts hno
    obtain ⟨r, recorded, hrun, hr⟩ := checkRails_cases "output" query (userMessages query ++ [⟨"assistant", answer⟩])
      false hengine
    refine ⟨r, _, hrun, hprompts, ⟨?_, fun h => absurd h hno⟩⟩
    rintro ⟨e, rfl, he⟩
    obtain ⟨h, -⟩ | ⟨h, -⟩ | ⟨e', h, he', -⟩ := hr
    · cases h
    · cases h
    · rw [Except.error.injEq] at h
      rw [h, he'] at he
      cases he
  obtain hrails | ⟨rails, hrails⟩ := Option.eq_none_or_eq_some w.rails
  · cases hload : l.getCyclawGuardrails w.loads with
    | ok rails =>
        refine hpasses (engine_ok hrails hload) rfl ?_
        rintro ⟨-, e, he, -⟩
        rw [hload] at he
        cases he
    | error e =>
        cases he : e.degrades with
        | some name =>
            refine ⟨_, _, checkRails_degraded (engine_degrades hrails hload he), rfl, ⟨?_, ?_⟩⟩
            · rintro ⟨e', h, -⟩
              cases h
            · rintro ⟨-, e', he', hnone, -⟩
              rw [hload, Except.error.injEq] at he'
              rw [← he', he] at hnone
              cases hnone
        | none =>
            refine ⟨_, _, checkRails_raises (engine_raises hrails hload he), rfl, ⟨?_, ?_⟩⟩
            · rintro ⟨e', h, hexc⟩
              rw [Except.error.injEq] at h
              exact ⟨hrails, e, hload, he, h ▸ hexc⟩
            · rintro ⟨-, e', he', -, hexc⟩
              rw [hload, Except.error.injEq] at he'
              exact ⟨e, rfl, he' ▸ hexc⟩
  · refine hpasses (engine_loaded hrails) rfl ?_
    rintro ⟨h, -⟩
    rw [hrails] at h
    cases h

end Broker

/-! ### The guard and the fallback -/

section Fallback

variable {l : Layer} {c : PaidClient} {prompt query label : String} {spend : Option SpendContext}

theorem generate_apply (c : PaidClient) (prompt : String) (spend : Option SpendContext) (w : World) :
    generate c prompt spend w =
      (c.generate w.prompts.length prompt spend, { w with prompts := w.prompts ++ [prompt] }) :=
  rfl

theorem unwrapped_prompts (c : PaidClient) (prompt label : String) (spend : Option SpendContext) (w : World) :
    (unwrapped c prompt label spend w).2.prompts = w.prompts ++ [prompt] := by
  rw [unwrapped, Eff.attempt_bind, generate_apply]
  cases c.generate w.prompts.length prompt spend with
  | ok answer => rfl
  | error e =>
      dsimp only
      cases e.ragError <;> rfl

/-- **All that the guard does**: it blocks the input, or it raises before the client is called, or
it calls the client once, and may then raise all the same. -/
theorem guardedGenerate_cases (l : Layer) (c : PaidClient) (prompt query label : String) (spend : Option SpendContext) :
    ∃ r w, guardedGenerate l c prompt query label spend {} = (r, w) ∧
      (InputBlocked l (asked query prompt) ∧ w.prompts = [] ∧ (∃ answer, r = .ok answer) ∨
        (¬ InputBlocked l (asked query prompt) ∧ ¬ InputPasses l (asked query prompt) ∧ w.prompts = [] ∧
          ∃ e, r = .error e) ∨
        ¬ InputBlocked l (asked query prompt) ∧ InputPasses l (asked query prompt) ∧ w.prompts = [prompt] ∧
          ((∃ e, r = .error e ∧ e.isException = true) ↔ RaisesBehind l c prompt spend)) := by
  obtain ⟨r, w, hcheck, hprompts, hcases⟩ := checkUser_cases l (asked query prompt)
  simp only [guardedGenerate, Eff.bind_apply, hcheck]
  obtain ⟨rfl, hblocked⟩ | ⟨rfl, hblocked, hpasses, hengine⟩ | ⟨⟨e, rfl⟩, hblocked, hpasses⟩ := hcases
  · exact ⟨_, w, rfl, Or.inl ⟨hblocked, hprompts, _, rfl⟩⟩
  · -- The client is called, for the first time.
    simp only [Bool.false_eq_true, ↓reduceIte, Eff.bind_apply, Eff.attempt, generate_apply, hprompts]
    cases hgenerate : c.generate 0 prompt spend with
    | error e =>
        have hbehind : RaisesBehind l c prompt spend ↔ e.ragError = none ∧ e.isException = true := by
          refine ⟨?_, fun h => Or.inl ⟨e, hgenerate, h⟩⟩
          rintro (⟨e', he', h⟩ | ⟨⟨answer, hok⟩, -⟩)
          · rw [hgenerate, Except.error.injEq] at he'
            exact he' ▸ h
          · rw [hgenerate] at hok
            cases hok
        cases hrag : e.ragError with
        | some service =>
            simp only [hrag]
            refine ⟨_, _, rfl, Or.inr (Or.inr ⟨hblocked, hpasses, rfl, ?_⟩)⟩
            rw [hbehind, hrag]
            simp
        | none =>
            simp only [hrag]
            refine ⟨_, _, rfl, Or.inr (Or.inr ⟨hblocked, hpasses, rfl, ?_⟩)⟩
            rw [hbehind]
            exact ⟨fun ⟨e', h, hexc⟩ => ⟨hrag, (Except.error.inj h) ▸ hexc⟩, fun h => ⟨e, rfl, h.2⟩⟩
    | ok answer =>
        have hbehind : RaisesBehind l c prompt spend ↔ w.rails = none ∧ LoadRaises l w.loads := by
          constructor
          · rintro (⟨e, he, -⟩ | ⟨-, hdegraded, hraises⟩)
            · rw [hgenerate] at he
              cases he
            · obtain ⟨hnone, hloads, -⟩ | ⟨-, hno⟩ := hengine
              · exact ⟨hnone, hloads.symm ▸ hraises⟩
              · exact absurd hdegraded hno
          · rintro ⟨hnone, hraises⟩
            obtain ⟨-, hloads, hdegraded⟩ | ⟨⟨rails, hsome⟩, -⟩ := hengine
            · exact Or.inr ⟨⟨answer, hgenerate⟩, hdegraded, hloads ▸ hraises⟩
            · rw [hnone] at hsome
              cases hsome
        obtain ⟨r, w', houtput, hkept, hraises⟩ := checkAssistant_cases l (asked query prompt) answer
          { w with prompts := [prompt] }
        simp only [List.nil_append, Eff.bind_apply]
        rw [houtput]
        cases r with
        | error e =>
            refine ⟨_, _, rfl, Or.inr (Or.inr ⟨hblocked, hpasses, hkept, ?_⟩)⟩
            rw [hbehind, ← hraises]
            simp
        | ok blocked =>
            have hquiet : ¬ RaisesBehind l c prompt spend := by
              rw [hbehind]
              intro h
              obtain ⟨e, he, -⟩ := hraises.mpr h
              cases he
            cases blocked with
            | true =>
                refine ⟨_, _, rfl, Or.inr (Or.inr ⟨hblocked, hpasses, hkept, ?_, fun h => absurd h hquiet⟩)⟩
                rintro ⟨e, he, -⟩
                cases he
            | false =>
                refine ⟨_, _, rfl, Or.inr (Or.inr ⟨hblocked, hpasses, hkept, ?_, fun h => absurd h hquiet⟩)⟩
                rintro ⟨e, he, -⟩
                cases he
  · exact ⟨_, w, rfl, Or.inr (Or.inl ⟨hblocked, hpasses, hprompts, e, rfl⟩)⟩

theorem InputBlocked.not_passes (h : InputBlocked l query) : ¬ InputPasses l query := by
  obtain ⟨rails, hload, hblocks⟩ := h
  rintro (⟨e, name, he, -⟩ | ⟨rails', hok, hno, -⟩)
  · rw [hload] at he
    cases he
  · rw [hload, Except.ok.injEq] at hok
    exact hno (hok ▸ hblocks)

theorem unguarded_prompts (c : PaidClient) (prompt label query : String) (spend : Option SpendContext) :
    (generateOrError none c prompt label query spend {}).2.prompts = [prompt] :=
  unwrapped_prompts c prompt label spend {}

/-- A call goes on to the client behind the guard exactly where the guard raised an exception. -/
theorem guarded_prompts {r : Except Raised (String × Option String)} {w : World}
    (h : guardedGenerate l c prompt query label spend {} = (r, w)) :
    (∃ e, r = .error e ∧ e.isException = true) ∧
        (generateOrError (some l) c prompt label query spend {}).2.prompts = w.prompts ++ [prompt] ∨
      (¬ ∃ e, r = .error e ∧ e.isException = true) ∧
        (generateOrError (some l) c prompt label query spend {}).2.prompts = w.prompts := by
  simp only [generateOrError, Eff.attempt_bind, h]
  cases r with
  | ok answer =>
      refine Or.inr ⟨?_, rfl⟩
      rintro ⟨e, he, -⟩
      cases he
  | error e =>
      by_cases hexc : e.isException = true
      · simp only [hexc, ↓reduceIte]
        exact Or.inl ⟨⟨e, rfl, hexc⟩, unwrapped_prompts c prompt label spend w⟩
      · simp only [hexc]
        refine Or.inr ⟨?_, rfl⟩
        rintro ⟨e', he', h'⟩
        rw [Except.error.injEq] at he'
        exact hexc (he' ▸ h')

theorem guardedRun_prompts (l : Layer) (client : Client) (prompt query label : String) (spend : Option SpendContext) :
    ∀ x ∈ (guardedRun l client prompt query label spend).prompts, x = prompt := by
  obtain ⟨r, w, hrun, hcases⟩ := guardedGenerate_cases l (paid client) prompt query label spend
  have hprompts : (guardedRun l client prompt query label spend).prompts = w.prompts := by
    rw [guardedRun, hrun]
  rw [hprompts]
  obtain ⟨-, h, -⟩ | ⟨-, -, h, -⟩ | ⟨-, -, h, -⟩ := hcases
  · simp [h]
  · simp [h]
  · simp [h]

/-- The graph calls the client as often as the node does, unless the guard is interrupted. -/
theorem graph_prompts {R : Type} {env : Env R} {target : Target} {client : Client}
    (hguard : env.generateGuard = some (builtGuard l env)) (hclient : targetClient env target = some client)
    (hgoes : ∀ e, (guardedGenerate l (paid client) prompt query label spend {}).1 = .error e → e.isException = true) :
    (Graph.generateOrError env target client prompt label query spend).prompts =
      (generateOrError (some l) (paid client) prompt label query spend {}).2.prompts := by
  obtain ⟨⟨r, w⟩, hrun⟩ : ∃ out, guardedGenerate l (paid client) prompt query label spend {} = out := ⟨_, rfl⟩
  have hrunGraph : builtGuard l env target prompt query label spend =
      ⟨w.prompts, r.toOption, if w.prompts = [] then none else (client.generate prompt spend).servedModel⟩ := by
    rw [builtGuard, hclient]
    simp only [guardedRun, hrun]
  rw [hrun] at hgoes
  simp only [Graph.generateOrError, hguard, hrunGraph]
  cases r with
  | ok answer =>
      obtain ⟨⟨e, he, -⟩, -⟩ | ⟨-, hsame⟩ := guarded_prompts hrun
      · cases he
      · exact hsame.symm
  | error e =>
      obtain ⟨-, hmore⟩ | ⟨hno, -⟩ := guarded_prompts hrun
      · rw [hmore]
        simp only [Except.toOption, generateUnguarded]
        split <;> rfl
      · exact absurd ⟨e, rfl, hgoes e rfl⟩ hno

/-- **One call generates at most once, and never behind a blocked input, exactly where the guard,
if there is one, does not raise behind the call of the client.** -/
theorem generations_iff (cfg : List (List Char × PyValue)) (loadConfig : Except Raised Layer) (guard : Option Layer)
    (hbuilt : buildGenerateGuard cfg loadConfig = .ok guard) (c : PaidClient) (prompt label query : String)
    (spend : Option SpendContext) :
    ((generateOrError guard c prompt label query spend {}).2.prompts.length ≤ 1 ∧
        ∀ l, guard = some l → InputBlocked l (asked query prompt) →
          (generateOrError guard c prompt label query spend {}).2.prompts = []) ↔
      ∀ l, guard = some l → InputPasses l (asked query prompt) → ¬ RaisesBehind l c prompt spend := by
  cases guard with
  | none =>
      rw [unguarded_prompts]
      simp
  | some l =>
      simp only [Option.some.injEq, forall_eq']
      obtain ⟨r, w, hrun, hcases⟩ := guardedGenerate_cases l c prompt query label spend
      obtain ⟨hblocked, hprompts, answer, rfl⟩ | ⟨hblocked, hpasses, hprompts, e, rfl⟩ |
        ⟨hblocked, hpasses, hprompts, hraises⟩ := hcases
      · -- Nothing was generated, and nothing was raised.
        obtain ⟨⟨e, he, -⟩, -⟩ | ⟨-, hsame⟩ := guarded_prompts hrun
        · cases he
        · rw [hsame, hprompts]
          exact ⟨fun _ hpasses => absurd hpasses hblocked.not_passes, fun _ => ⟨by simp, fun _ => rfl⟩⟩
      · have hone : (generateOrError (some l) c prompt label query spend {}).2.prompts.length ≤ 1 := by
          obtain ⟨-, hmore⟩ | ⟨-, hsame⟩ := guarded_prompts hrun
          · rw [hmore, hprompts]
            exact Nat.le_refl 1
          · rw [hsame, hprompts]
            exact Nat.zero_le 1
        exact ⟨fun _ h => absurd h hpasses, fun _ => ⟨hone, fun h => absurd h hblocked⟩⟩
      · have hcount : (generateOrError (some l) c prompt label query spend {}).2.prompts.length ≤ 1 ↔
            ¬ RaisesBehind l c prompt spend := by
          rw [← hraises]
          obtain ⟨hraised, hmore⟩ | ⟨hquiet, hsame⟩ := guarded_prompts hrun
          · rw [hmore, hprompts]
            exact ⟨fun h => absurd h (by simp), fun h => absurd hraised h⟩
          · rw [hsame, hprompts]
            exact ⟨fun _ => hquiet, fun _ => Nat.le_refl 1⟩
        exact ⟨fun h _ => hcount.mp h.1, fun h => ⟨hcount.mpr (h hpasses), fun h => absurd h hblocked⟩⟩

end Fallback

/-! A layer whose engine does not load for the input, and whose files cannot be read for the output. -/

def enabledCfg : List (List Char × PyValue) := [("guardrails".toList, .dict [("enabled".toList, .bool true)])]

def failingLayer : Layer where
  blockMessage := "Blocked by the guardrails."
  getCyclawGuardrails n :=
    if n = 0 then .error (.railsLoad ⟨"GUARDRAILS_RAILS_LOAD_FAILED", "NeMo config files not found"⟩)
    else .error (.exception "PermissionError")
  railTypeInput := .error .importError
  upper := id
  hashQuery := id

def answeringClient : PaidClient := ⟨fun _ _ _ => .ok "An answer."⟩

/-- A client that raises a `TypeError`, billed or not. -/
def billedClient : PaidClient := ⟨fun _ _ _ => .error .typeError⟩

theorem second_generation :
    buildGenerateGuard enabledCfg (.ok failingLayer) = .ok (some failingLayer) ∧
      ¬ (generateOrError (some failingLayer) answeringClient "Prompt" "Grok" "Query" none {}).2.prompts.length ≤ 1 ∧
      ¬ (generateOrError (some failingLayer) billedClient "Prompt" "Grok" "Query" none {}).2.prompts.length ≤ 1 :=
  ⟨rfl, by decide, by decide⟩

theorem generations_iff_failing :
    ((generateOrError (some failingLayer) billedClient "Prompt" "Grok" "Query" none {}).2.prompts.length ≤ 1 ∧
        ∀ l, some failingLayer = some l → InputBlocked l (asked "Query" "Prompt") →
          (generateOrError (some failingLayer) billedClient "Prompt" "Grok" "Query" none {}).2.prompts = []) ↔
      ∀ l, some failingLayer = some l → InputPasses l (asked "Query" "Prompt") →
        ¬ RaisesBehind l billedClient "Prompt" none :=
  generations_iff enabledCfg (.ok failingLayer) (some failingLayer) rfl billedClient "Prompt" "Grok" "Query" none

end CyClaw.Guardrails

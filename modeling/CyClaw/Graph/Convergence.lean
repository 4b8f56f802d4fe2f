/-
Every run ends in the audit node, and no local answer escapes the input rail.

The graph is ranked and no node raises, so a run stops only at the node whose edge leads
out, which is the audit node; ranks fall strictly, so it ran once.  A local answer is
entered from the input rail alone, and the rail, having its own rank, ran once before it.

`Railed` follows a blocked query: once the rail has blocked, control can only be at the
audit node, the flag the audit event reports is set, and nothing was generated.
-/
import Mathlib.Data.List.Nodup
import CyClaw.Graph.Gating

namespace CyClaw.Graph

open StateGraph

variable {R : Type} [OfScientific R] [LT R] [DecidableLT R]

/-! ### What each node does -/

omit [OfScientific R] [LT R] [DecidableLT R] in
private theorem answered_effects {a : Answered} {target : Target} {e : Effect R}
    (h : e ∈ a.effects target) : ∃ prompt, e = .generate target prompt := by
  simp only [Answered.effects, List.mem_map] at h
  obtain ⟨prompt, -, rfl⟩ := h
  exact ⟨prompt, rfl⟩

omit [OfScientific R] [LT R] [DecidableLT R] in
private theorem truncationAudit_effects {env : Env R} {s : GraphState R} {p : Provider}
    {e : Effect R} (h : e ∈ truncationAudit env s p) :
    ∃ original truncated, e = .promptTruncated p original truncated := by
  unfold truncationAudit at h
  split at h
  · exact ⟨_, _, List.mem_singleton.mp h⟩
  · simp at h

omit [OfScientific R] [LT R] [DecidableLT R] in
private theorem localGeneration_effects {env : Env R} {s : GraphState R} {model : AnswerModel}
    {prompt : String × List (RetrievedDoc R)} {e : Effect R}
    (h : e ∈ (localGeneration env s model prompt).effects) :
    ∃ target prompt, e = .generate target prompt := by
  unfold localGeneration at h
  split at h
  · simp at h
  · obtain ⟨q, rfl⟩ := answered_effects h
    exact ⟨_, q, rfl⟩

omit [OfScientific R] [LT R] [DecidableLT R] in
private theorem externalFallbackNode_effects {env : Env R} {p : Provider} {s : GraphState R}
    {e : Effect R} (h : e ∈ (externalFallbackNode env p s).effects) :
    (∃ q original truncated, e = .promptTruncated q original truncated) ∨
      ∃ target prompt, e = .generate target prompt := by
  unfold externalFallbackNode at h
  split at h
  · simp at h
  · split at h
    · simp at h
    · simp only [returns_effects, List.mem_append] at h
      rcases h with h | h
      · obtain ⟨original, truncated, rfl⟩ := truncationAudit_effects h
        exact Or.inl ⟨p, original, truncated, rfl⟩
      · obtain ⟨q, rfl⟩ := answered_effects h
        exact Or.inr ⟨_, q, rfl⟩

/-- Which node a call can come from. -/
structure ComesFrom (n : Node) (e : Effect R) : Prop where
  generate : e.isGenerate = true → rank n = 2
  inputGuard : ∀ r, e = .inputGuard r → n = .guardrailInput
  audit : ∀ event, e = .audit event → n = .auditLogger

omit [OfScientific R] [LT R] [DecidableLT R] in
/-- Every other call may come from anywhere. -/
private theorem comesFrom_other {n : Node} {e : Effect R} (hg : e.isGenerate = false)
    (hi : ∀ r, e ≠ .inputGuard r) (ha : ∀ event, e ≠ .audit event) : ComesFrom n e where
  generate := fun h => by rw [hg] at h; cases h
  inputGuard := fun r h => absurd h (hi r)
  audit := fun event h => absurd h (ha event)

omit [OfScientific R] [LT R] [DecidableLT R] in
private theorem comesFrom_generate {n : Node} {target : Target} {prompt : String}
    (hr : rank n = 2) : ComesFrom n (.generate target prompt : Effect R) where
  generate := fun _ => hr
  inputGuard := fun r h => by cases h
  audit := fun event h => by cases h

omit [OfScientific R] [LT R] [DecidableLT R] in
private theorem comesFrom_inputGuard (r : Except String GuardResult) :
    ComesFrom .guardrailInput (.inputGuard r : Effect R) where
  generate := fun h => by cases h
  inputGuard := fun _ _ => rfl
  audit := fun event h => by cases h

omit [OfScientific R] [LT R] [DecidableLT R] in
private theorem comesFrom_audit (event : AuditEvent R) :
    ComesFrom .auditLogger (.audit event : Effect R) where
  generate := fun h => by cases h
  inputGuard := fun r h => by cases h
  audit := fun _ _ => rfl

/-- The generating nodes generate, the rail consults the guard, the audit node audits. -/
theorem nodeFn_effects {env : Env R} {n : Node} {s : GraphState R} {e : Effect R}
    (h : e ∈ (nodeFn env n s).effects) : ComesFrom n e := by
  have hlocal : ∀ model prompt, rank n = 2 →
      e ∈ (localGeneration env s model prompt).effects → ComesFrom n e := by
    intro model prompt hr he
    obtain ⟨target, q, rfl⟩ := localGeneration_effects he
    exact comesFrom_generate hr
  have hexternal : ∀ p, rank n = 2 → e ∈ (externalFallbackNode env p s).effects →
      ComesFrom n e := by
    intro p hr he
    rcases externalFallbackNode_effects he with ⟨q, o, t, rfl⟩ | ⟨target, q, rfl⟩
    · exact comesFrom_other rfl (by simp) (by simp)
    · exact comesFrom_generate hr
  cases n with
  | retrieve =>
      simp only [nodeFn, retrieveNode, returns_effects, List.mem_singleton] at h
      subst h
      exact comesFrom_other rfl (by simp) (by simp)
  | routeByScore =>
      simp only [nodeFn, routeByScoreNode] at h
      split at h
      · simp at h
      · split at h <;> simp at h
  | guardrailInput =>
      simp only [nodeFn, guardrailInputNode] at h
      split at h
      · simp at h
      · split at h
        · simp only [returns_effects, List.mem_singleton] at h
          subst h
          exact comesFrom_inputGuard _
        · split at h
          all_goals
            simp only [returns_effects, List.mem_singleton] at h
            subst h
            exact comesFrom_inputGuard _
  | guardrailOutput =>
      simp only [nodeFn, guardrailOutputNode] at h
      split at h
      · simp at h
      · split at h
        · simp at h
        · split at h
          · simp only [returns_effects, List.mem_singleton] at h
            subst h
            exact comesFrom_other rfl (by simp) (by simp)
          · split at h
            all_goals
              simp only [returns_effects, List.mem_singleton] at h
              subst h
              exact comesFrom_other rfl (by simp) (by simp)
  | localLlm => exact hlocal _ _ rfl h
  | offlineBestEffort => exact hlocal _ _ rfl h
  | userGate =>
      simp only [nodeFn, userGateNode] at h
      split at h <;> simp at h
  | preActionHook p =>
      simp only [nodeFn, preActionHookNode] at h
      split at h
      all_goals
        simp only [returns_effects, List.mem_singleton] at h
        subst h
        exact comesFrom_other rfl (by simp) (by simp)
  | fallback p =>
      cases p with
      | grok => exact hexternal .grok rfl h
      | claude => exact hexternal .claude rfl h
  | auditLogger =>
      have hcases : (∃ a b, e = .recordInteraction a b) ∨ e = .stageEpisode ∨
          ∃ event, e = .audit event := by
        simp only [nodeFn, auditLoggerNode, returns_effects, List.mem_append,
          List.mem_singleton] at h
        rcases h with (h | h) | h
        · split at h
          · split at h
            · simp only [List.mem_singleton] at h
              exact Or.inl ⟨_, _, h⟩
            · simp at h
          · simp at h
        · split at h
          · simp only [List.mem_singleton] at h
            exact Or.inr (Or.inl h)
          · simp at h
        · exact Or.inr (Or.inr ⟨_, h⟩)
      rcases hcases with ⟨a, b, rfl⟩ | rfl | ⟨event, rfl⟩
      · exact comesFrom_other rfl (by simp) (by simp)
      · exact comesFrom_other rfl (by simp) (by simp)
      · exact comesFrom_audit event

/-- A blocking rail sets the flag. -/
theorem guardrailInput_blocks {env : Env R} {s s' : GraphState R} {result : GuardResult}
    (hres : (nodeFn env .guardrailInput s).result = .ok s')
    (h : .inputGuard (.ok result) ∈ (nodeFn env .guardrailInput s).effects)
    (hb : result.blocked = true) : s'.guardrailBlocked = some true := by
  simp only [nodeFn, guardrailInputNode] at h hres
  cases hg : env.inputGuard with
  | none => simp [hg] at h
  | some guard =>
      cases hr : guard s.query with
      | error e => simp [hg, hr] at h
      | ok res =>
          by_cases hblocked : res.blocked = true
          · simp only [hg, hr, hblocked, if_true] at hres
            cases hres
            rfl
          · simp only [hg, hr, hblocked, if_false, returns_effects, List.mem_singleton,
              Effect.inputGuard.injEq, Except.ok.injEq, Bool.false_eq_true] at h
            subst h
            exact absurd hb hblocked

/-- The audit event reports the flag. -/
theorem auditLogger_event (env : Env R) (s : GraphState R) :
    (∃ event, .audit event ∈ (nodeFn env .auditLogger s).effects) ∧
    ∀ event, .audit event ∈ (nodeFn env .auditLogger s).effects →
      event.guardrailBlocked = s.guardrailBlocked.getD false := by
  constructor
  · exact ⟨_, List.mem_append_right _ (List.mem_singleton.mpr rfl)⟩
  · intro event h
    simp only [nodeFn, auditLoggerNode, returns_effects, List.mem_append, List.mem_singleton] at h
    rcases h with (h | h) | h
    · split at h
      · split at h <;> simp at h
      · simp at h
    · split at h <;> simp at h
    · rw [Effect.audit.injEq] at h
      rw [h]
      rfl

/-! ### Following a blocked query -/

/-- What has been done by the time control is at a node. -/
structure Railed (n : Node) (s : GraphState R) (es : List (Effect R)) : Prop where
  /-- Nothing was generated above the generating nodes. -/
  quiet : 3 ≤ rank n → ∀ e ∈ es, e.isGenerate = false
  /-- The rail has not run above the generating nodes. -/
  unrailed : 3 ≤ rank n → ∀ r, .inputGuard r ∉ es
  /-- A block leads to the audit node with the flag set and nothing generated. -/
  blocked : ∀ result, .inputGuard (.ok result) ∈ es → result.blocked = true →
    n = .auditLogger ∧ s.guardrailBlocked = some true ∧ ∀ e ∈ es, e.isGenerate = false
  /-- Nothing is audited before the audit node. -/
  unaudited : ∀ event, .audit event ∉ es

theorem railed_preserved (env : Env R) :
    (buildGraph env).Preserved (fun n s es => Railed n s es) := by
  intro n s m s' es hr hst
  obtain ⟨hres, hfol⟩ := hst
  have hlt := rank_lt_of_follow hfol
  have hquiet : rank n ≠ 2 → ∀ e ∈ ((buildGraph env).node n s).effects, e.isGenerate = false := by
    intro hn e he
    by_contra hg
    exact hn ((nodeFn_effects he).generate (by simpa using hg))
  refine ⟨?_, ?_, ?_, ?_⟩
  · intro hm e he
    rcases List.mem_append.mp he with h | h
    · exact hr.quiet (by omega) e h
    · exact hquiet (by omega) e h
  · intro hm r he
    rcases List.mem_append.mp he with h | h
    · exact hr.unrailed (by omega) r h
    · have hn := (nodeFn_effects h).inputGuard r rfl
      rw [hn, show rank .guardrailInput = 3 from rfl] at hlt
      omega
  · intro result he hb
    rcases List.mem_append.mp he with h | h
    · -- the block is behind us, so control was already at the audit node
      obtain ⟨rfl, -⟩ := hr.blocked result h hb
      simp [buildGraph, edges, Edge.follow] at hfol
    · have hn := (nodeFn_effects h).inputGuard _ rfl
      subst hn
      have hflag := guardrailInput_blocks hres h hb
      have haudit : m = .auditLogger := by
        have hrt : guardrailRouter s' = .auditLogger := by simp [guardrailRouter, hflag]
        simpa [buildGraph, edges, Edge.follow, hrt, guardrailPaths] using hfol.symm
      refine ⟨haudit, hflag, ?_⟩
      intro e he'
      rcases List.mem_append.mp he' with h' | h'
      · exact hr.quiet (by simp [rank]) e h'
      · exact hquiet (by simp [rank]) e h'
  · intro event he
    rcases List.mem_append.mp he with h | h
    · exact hr.unaudited event h
    · have hn := (nodeFn_effects h).audit _ rfl
      subst hn
      simp [buildGraph, edges, Edge.follow] at hfol

omit [OfScientific R] [LT R] [DecidableLT R] in
theorem railed_entry (s₀ : GraphState R) : Railed .retrieve s₀ [] where
  quiet := by simp
  unrailed := by simp
  blocked := by simp
  unaudited := by simp

/-! ### The end of a run -/

/-- A run with enough steps ends with a visit to the audit node. -/
theorem invoke_last (env : Env R) {limit : Nat} (hlimit : 7 ≤ limit) (s₀ : GraphState R) :
    (invoke env limit s₀).stop = .ended ∧
    ∃ pre v, (invoke env limit s₀).visits = pre ++ [v] ∧ v.node = .auditLogger := by
  obtain ⟨pre, v, hvis, hout, hend⟩ :=
    StateGraph.Graph.run_last (g := buildGraph env) (invoke_not_outOfSteps env hlimit s₀)
  have hv : v ∈ (invoke env limit s₀).visits := by
    show v ∈ ((buildGraph env).run limit s₀).visits
    rw [hvis]
    simp
  have hpath := (path_of_visit hv).1
  rcases hend with ⟨x, hx, -⟩ | ⟨s', l, hok, hbad, -⟩ | ⟨s', -, hdone, hstop⟩
  · -- no node raises
    obtain ⟨s', hs'⟩ := nodeFn_returns env v.node v.state
    rw [hout] at hx
    exact absurd (hs'.symm.trans hx) (by simp)
  · rw [hout] at hok
    exact absurd hbad (follow_ne_badLabel hpath hok l)
  · refine ⟨hstop, pre, v, hvis, ?_⟩
    -- only the audit node's edge leads out
    cases hn : v.node with
    | auditLogger => rfl
    | routeByScore =>
        simp only [hn, buildGraph, edges, Edge.follow] at hdone
        split at hdone <;> cases hdone
    | guardrailInput =>
        simp only [hn, buildGraph, edges, Edge.follow] at hdone
        split at hdone <;> cases hdone
    | userGate =>
        simp only [hn, buildGraph, edges, Edge.follow] at hdone
        split at hdone <;> cases hdone
    | preActionHook p =>
        simp only [hn, buildGraph, edges, Edge.follow] at hdone
        split at hdone <;> cases hdone
    | _ => simp [hn, buildGraph, edges, Edge.follow] at hdone

omit [OfScientific R] [LT R] [DecidableLT R] in
/-- Falling ranks mean no node twice. -/
private theorem nodup_of_pairwise {l : List Node}
    (h : l.Pairwise (fun a b => rank b < rank a)) : l.Nodup :=
  h.imp (fun hlt heq => by rw [heq] at hlt; omega)

/-- A node that answers locally is entered from the input rail, which ran once before it. -/
theorem railed_once {env : Env R} {limit : Nat} {s₀ : GraphState R} {pre post : List Node}
    {n : Node} (h : (invoke env limit s₀).nodes = pre ++ n :: post)
    (hn : n = .localLlm ∨ n = .offlineBestEffort) : pre.count .guardrailInput = 1 := by
  obtain ⟨vpre, rest, hvis, hpre, hrest⟩ := List.map_eq_append_iff.mp h
  obtain ⟨v, vpost, rfl, hv, -⟩ := List.map_eq_cons_iff.mp hrest
  have hnodup : pre.Nodup := by
    have hall := nodup_of_pairwise
      (StateGraph.Graph.rank_pairwise (buildGraph_ranked env) limit s₀)
    rw [show ((buildGraph env).run limit s₀).nodes = pre ++ n :: post from h] at hall
    exact (List.nodup_append.mp hall).1
  rcases StateGraph.Graph.run_enters hvis with ⟨-, hentry⟩ | ⟨pre', u, rfl, hst⟩
  · rw [hv] at hentry
    rcases hn with rfl | rfl <;> cases hentry
  · have hu : u.node = .guardrailInput := by
      rw [hv] at hst
      rcases follow_cases hst.2 with ⟨-, hm⟩ | ⟨-, hm⟩ | ⟨hu, -⟩ | ⟨-, hm⟩ | ⟨p, -, hm⟩ |
        ⟨-, hm⟩ | ⟨-, hm⟩
      · rcases hn with rfl | rfl <;> cases hm
      · rcases hn with rfl | rfl <;> simp at hm
      · exact hu
      · rcases hn with rfl | rfl <;> simp at hm
      · rcases hn with rfl | rfl <;> simp at hm
      · rcases hn with rfl | rfl <;> cases hm
      · rcases hn with rfl | rfl <;> cases hm
    have hmem : Node.guardrailInput ∈ pre := by
      rw [← hpre, ← hu]
      simp
    exact List.count_eq_one_of_mem hnodup hmem

/--
**Rail coverage and audit convergence.**  Given the steps for seven nodes, every run ends having
run the audit node once and last; every local answer is preceded by exactly one run of the input
rail; and when the rail answers that the query is blocked, nothing is generated in the whole run
and the audit event says so.
-/
theorem runs_converge_at_audit (env : Env R) (limit : Nat) (hlimit : 7 ≤ limit)
    (s₀ : GraphState R) :
    ((invoke env limit s₀).stop = .ended ∧
      ∃ pre, (invoke env limit s₀).nodes = pre ++ [.auditLogger] ∧ .auditLogger ∉ pre) ∧
    (∀ pre n post, (invoke env limit s₀).nodes = pre ++ n :: post →
      n = .localLlm ∨ n = .offlineBestEffort → pre.count .guardrailInput = 1) ∧
    (∀ result, .inputGuard (.ok result) ∈ (invoke env limit s₀).effects →
      result.blocked = true →
      (∀ e ∈ (invoke env limit s₀).effects, e.isGenerate = false) ∧
      (∃ event, .audit event ∈ (invoke env limit s₀).effects) ∧
      ∀ event, .audit event ∈ (invoke env limit s₀).effects → event.guardrailBlocked = true) := by
  obtain ⟨hended, pre, v, hvis, hlast⟩ := invoke_last env hlimit s₀
  refine ⟨⟨hended, pre.map (·.node), ?_, ?_⟩, fun pre n post h hn => railed_once h hn, ?_⟩
  · simp [Run.nodes, hvis, hlast]
  · have hpw := StateGraph.Graph.rank_pairwise (buildGraph_ranked env) limit s₀
    rw [show ((buildGraph env).run limit s₀).nodes = pre.map (·.node) ++ [.auditLogger] by
      show (invoke env limit s₀).nodes = _
      simp [Run.nodes, hvis, hlast]] at hpw
    intro hmem
    have hlt := (List.pairwise_append.mp hpw).2.2 _ hmem .auditLogger (by simp)
    omega
  · intro result hres hblocked
    have hlastVisit : ((buildGraph env).run limit s₀).visits = pre ++ v :: [] := hvis
    obtain ⟨hrailed, hout⟩ :=
      StateGraph.Graph.run_inv (railed_entry s₀) (railed_preserved env) hlastVisit
    have heffects : (invoke env limit s₀).effects =
        pre.flatMap (·.out.effects) ++ (nodeFn env .auditLogger v.state).effects := by
      have hnode : v.out = nodeFn env .auditLogger v.state := by
        rw [hout, hlast]
        rfl
      simp [Run.effects, hvis, hnode]
    have haudit : ∀ e ∈ (nodeFn env .auditLogger v.state).effects,
        e.isGenerate = false ∧ ∀ r, e ≠ .inputGuard r := by
      intro e he
      obtain ⟨hg, hi, -⟩ := nodeFn_effects he
      refine ⟨?_, fun r hr => ?_⟩
      · by_contra hc
        exact absurd (hg (by simpa using hc)) (by simp [rank])
      · exact absurd (hi r hr) (by simp)
    rw [heffects] at hres ⊢
    have hin : .inputGuard (.ok result) ∈ pre.flatMap (·.out.effects) := by
      rcases List.mem_append.mp hres with h | h
      · exact h
      · exact absurd rfl ((haudit _ h).2 _)
    obtain ⟨-, hflag, hquiet⟩ := hrailed.blocked result hin hblocked
    obtain ⟨⟨event, hevent⟩, hflags⟩ := auditLogger_event env v.state
    refine ⟨?_, ⟨event, List.mem_append_right _ hevent⟩, ?_⟩
    · intro e he
      rcases List.mem_append.mp he with h | h
      · exact hquiet e h
      · exact (haudit e h).1
    · intro event he
      rcases List.mem_append.mp he with h | h
      · exact absurd h (hrailed.unaudited event)
      · rw [hflags event h, hflag]
        rfl

/-- The sample request, within the graph library's default limit. -/
theorem sample_run_converges :
    7 ≤ 25 ∧ (invoke sampleEnv 25 sampleRequest).stop = .ended :=
  ⟨by decide, (runs_converge_at_audit sampleEnv 25 (by decide) sampleRequest).1.1⟩

end CyClaw.Graph

/-
External calls are gated.

The run of the graph reaches a provider node only through the score, the user's
confirmation, the provider the user selected, a usable client and the hook's consent.
Each of these is checked by a different node or router, and each check reads keys that
earlier nodes wrote or left alone.  `Path` is the assertion that carries them along a
run: what control being at a node says about the request the run started from.

`nodeFn_frame` is the other half: no node touches the query, the confirmation or the
provider, and only retrieval touches the scores, so a key read late still holds what was
checked early.
-/
import Mathlib.Data.Rat.Defs
import CyClaw.Graph.Topology

namespace CyClaw.Graph

open StateGraph

variable {R : Type} [OfScientific R] [LT R] [DecidableLT R]

/-! ### What a node leaves alone -/

/-- The keys no node after retrieval writes. -/
structure SameRequest (s s' : GraphState R) : Prop where
  query : s'.query = s.query
  userConfirmedOnline : s'.userConfirmedOnline = s.userConfirmedOnline
  onlineProvider : s'.onlineProvider = s.onlineProvider

omit [OfScientific R] [LT R] [DecidableLT R] in
theorem SameRequest.refl (s : GraphState R) : SameRequest s s := ⟨rfl, rfl, rfl⟩

omit [OfScientific R] [LT R] [DecidableLT R] in
theorem SameRequest.trans {s t u : GraphState R} (h : SameRequest s t) (h' : SameRequest t u) :
    SameRequest s u :=
  ⟨h'.query.trans h.query, h'.userConfirmedOnline.trans h.userConfirmedOnline,
    h'.onlineProvider.trans h.onlineProvider⟩

/-- The scores retrieval found. -/
structure SameScores (s s' : GraphState R) : Prop where
  topScore : s'.topScore = s.topScore
  retrievedDocs : s'.retrievedDocs = s.retrievedDocs

omit [LT R] [DecidableLT R] in
theorem retrieved_frame (env : Env R) (s : GraphState R) : SameRequest s (retrieved env s) := by
  unfold retrieved
  split <;> exact ⟨rfl, rfl, rfl⟩

omit [OfScientific R] [LT R] [DecidableLT R] in
private theorem localGeneration_frame (env : Env R) (s s' : GraphState R) (model : AnswerModel)
    (prompt : String × List (RetrievedDoc R))
    (h : (localGeneration env s model prompt).result = .ok s') :
    SameRequest s s' ∧ SameScores s s' := by
  unfold localGeneration at h
  split at h
  · cases h; exact ⟨⟨rfl, rfl, rfl⟩, ⟨rfl, rfl⟩⟩
  · cases h; exact ⟨⟨rfl, rfl, rfl⟩, ⟨rfl, rfl⟩⟩

omit [OfScientific R] [LT R] [DecidableLT R] in
private theorem externalFallbackNode_frame (env : Env R) (p : Provider) (s s' : GraphState R)
    (h : (externalFallbackNode env p s).result = .ok s') :
    SameRequest s s' ∧ SameScores s s' := by
  unfold externalFallbackNode at h
  split at h
  · cases h; exact ⟨⟨rfl, rfl, rfl⟩, ⟨rfl, rfl⟩⟩
  · split at h
    · cases h; exact ⟨⟨rfl, rfl, rfl⟩, ⟨rfl, rfl⟩⟩
    · cases h; exact ⟨⟨rfl, rfl, rfl⟩, ⟨rfl, rfl⟩⟩

/-- **No node but retrieval writes the request or the scores.** -/
theorem nodeFn_frame {env : Env R} {n : Node} {s s' : GraphState R} (hn : n ≠ .retrieve)
    (h : (nodeFn env n s).result = .ok s') : SameRequest s s' ∧ SameScores s s' := by
  cases n with
  | retrieve => exact absurd rfl hn
  | routeByScore =>
      simp only [nodeFn, routeByScoreNode] at h
      split at h
      · cases h; exact ⟨⟨rfl, rfl, rfl⟩, ⟨rfl, rfl⟩⟩
      · split at h <;> (cases h; exact ⟨⟨rfl, rfl, rfl⟩, ⟨rfl, rfl⟩⟩)
  | guardrailInput =>
      simp only [nodeFn, guardrailInputNode] at h
      split at h
      · cases h; exact ⟨⟨rfl, rfl, rfl⟩, ⟨rfl, rfl⟩⟩
      · split at h
        · cases h; exact ⟨⟨rfl, rfl, rfl⟩, ⟨rfl, rfl⟩⟩
        · split at h <;> (cases h; exact ⟨⟨rfl, rfl, rfl⟩, ⟨rfl, rfl⟩⟩)
  | guardrailOutput =>
      simp only [nodeFn, guardrailOutputNode] at h
      split at h
      · cases h; exact ⟨⟨rfl, rfl, rfl⟩, ⟨rfl, rfl⟩⟩
      · split at h
        · cases h; exact ⟨⟨rfl, rfl, rfl⟩, ⟨rfl, rfl⟩⟩
        · split at h
          · cases h; exact ⟨⟨rfl, rfl, rfl⟩, ⟨rfl, rfl⟩⟩
          · split at h <;> (cases h; exact ⟨⟨rfl, rfl, rfl⟩, ⟨rfl, rfl⟩⟩)
  | localLlm => exact localGeneration_frame env s s' _ _ h
  | offlineBestEffort => exact localGeneration_frame env s s' _ _ h
  | userGate =>
      simp only [nodeFn, userGateNode] at h
      split at h <;> (cases h; exact ⟨⟨rfl, rfl, rfl⟩, ⟨rfl, rfl⟩⟩)
  | preActionHook p =>
      simp only [nodeFn, preActionHookNode] at h
      split at h <;> (cases h; exact ⟨⟨rfl, rfl, rfl⟩, ⟨rfl, rfl⟩⟩)
  | fallback p =>
      cases p with
      | grok => exact externalFallbackNode_frame env .grok s s' h
      | claude => exact externalFallbackNode_frame env .claude s s' h
  | auditLogger =>
      simp only [nodeFn, auditLoggerNode] at h
      cases h; exact ⟨⟨rfl, rfl, rfl⟩, ⟨rfl, rfl⟩⟩

/-! ### What the routers decided -/

omit [OfScientific R] [LT R] [DecidableLT R] in
theorem SameRequest.selectedProvider {s s' : GraphState R} (h : SameRequest s s') :
    selectedProvider s' = selectedProvider s := by
  unfold Graph.selectedProvider
  rw [h.onlineProvider]

omit [OfScientific R] [LT R] [DecidableLT R] in
theorem SameRequest.hookVerdict {env : Env R} {p : Provider} {s s' : GraphState R}
    (h : SameRequest s s') : hookVerdict env p s' = hookVerdict env p s := by
  unfold Graph.hookVerdict
  rw [h.query]

theorem SameScores.belowThreshold {cfg : Cfg R} {s s' : GraphState R} (h : SameScores s s') :
    belowThreshold cfg s' = belowThreshold cfg s := by
  unfold Graph.belowThreshold
  rw [h.topScore]

omit [OfScientific R] in
theorem SameScores.semanticFloorFired {cfg : Cfg R} {s s' : GraphState R} (h : SameScores s s') :
    semanticFloorFired cfg s' = semanticFloorFired cfg s := by
  unfold Graph.semanticFloorFired
  rw [h.retrievedDocs]

/-- The documents do not answer the query: the score is low, or the semantic floor fired. -/
def lowScore (cfg : Cfg R) (s : GraphState R) : Prop :=
  belowThreshold cfg s = true ∨ semanticFloorFired cfg s = true

theorem SameScores.lowScore {cfg : Cfg R} {s s' : GraphState R} (h : SameScores s s') :
    lowScore cfg s' ↔ lowScore cfg s := by
  unfold Graph.lowScore
  rw [h.belowThreshold, h.semanticFloorFired]

/-- Routing sets the flag exactly when the score is low. -/
theorem routeByScore_flag {env : Env R} {s s' : GraphState R}
    (h : (nodeFn env .routeByScore s).result = .ok s') :
    (s'.needsUserConfirm.getD false = true ↔ lowScore env.cfg s) := by
  unfold lowScore
  simp only [nodeFn, routeByScoreNode] at h
  split at h
  · rename_i hb; cases h; simp [hb]
  · rename_i hb
    split at h
    · rename_i hf; cases h; simp [hf]
    · rename_i hf; cases h; simp [hb, hf]

/-- The gate sends a request to a provider's hook only when it is confirmed, names the provider,
and the provider's client is usable. -/
theorem userGateRouter_hook {R : Type} {env : Env R} {s : GraphState R} {p : Provider}
    (h : userGateRouter env s = .preActionHook p) :
    s.userConfirmedOnline = some (some true) ∧ selectedProvider s = p.name ∧
      usable (env.client p) = true := by
  unfold userGateRouter at h
  split at h
  · cases h
  · cases h
  · rename_i hc
    have hconf : s.userConfirmedOnline = some (some true) := by
      cases hu : s.userConfirmedOnline with
      | none => simp [hu] at hc
      | some c => simp [hu] at hc; rw [hc]
    split at h
    · rename_i hcl
      cases h
      exact ⟨hconf, hcl.1, hcl.2⟩
    · split at h
      · rename_i hgr
        cases h
        exact ⟨hconf, hgr.1, hgr.2⟩
      · cases h

omit [OfScientific R] [LT R] [DecidableLT R] in
theorem usable_iff {c : Option Client} :
    usable c = true ↔ ∃ client, c = some client ∧ client.isAvailable = true := by
  cases c <;> simp [usable]

/-! ### The assertion along a run -/

/-- The gates a request has passed when control is at provider `p`'s hook. -/
structure PassedGate (env : Env R) (p : Provider) (s : GraphState R) : Prop where
  low : lowScore env.cfg (retrieved env s)
  confirmed : s.userConfirmedOnline = some (some true)
  selected : selectedProvider s = p.name
  available : ∃ client, env.client p = some client ∧ client.isAvailable = true

/-- The gates, and the hook's consent. -/
structure MayCall (env : Env R) (p : Provider) (s : GraphState R) : Prop
    extends PassedGate env p s where
  allowed : hookVerdict env p s = .allow

/-- What control being at a node says about the request `s₀` the run started from. -/
structure Path (env : Env R) (s₀ : GraphState R) (n : Node) (s : GraphState R) : Prop where
  request : SameRequest s₀ s
  scores : n ≠ .retrieve → SameScores (retrieved env s₀) s
  entry : n = .retrieve → s = s₀
  gate : n = .userGate → lowScore env.cfg (retrieved env s₀)
  hook : ∀ p, n = .preActionHook p → PassedGate env p s₀
  call : ∀ p, n = .fallback p → MayCall env p s₀

theorem path_preserved (env : Env R) (s₀ : GraphState R) :
    (buildGraph env).Preserved (fun n s _ => Path env s₀ n s) := by
  intro n s m s' _ hp hst
  obtain ⟨hres, hfol⟩ := hst
  -- the request survives every node, and the scores every node but retrieval
  have hreq : SameRequest s₀ s' := by
    by_cases hn : n = .retrieve
    · subst hn
      cases hres
      exact hp.request.trans (retrieved_frame env s)
    · exact hp.request.trans (nodeFn_frame hn hres).1
  have hsc : SameScores (retrieved env s₀) s' := by
    by_cases hn : n = .retrieve
    · subst hn
      cases hres
      rw [hp.entry rfl]
      exact ⟨rfl, rfl⟩
    · have hold := hp.scores hn
      have hnew := (nodeFn_frame hn hres).2
      exact ⟨hnew.topScore.trans hold.topScore, hnew.retrievedDocs.trans hold.retrievedDocs⟩
  have hbase : m ≠ .retrieve := by
    intro hm
    have hlt := rank_lt_of_follow hfol
    rw [hm] at hlt
    cases n <;> simp [rank] at hlt
  refine ⟨hreq, fun _ => hsc, fun hm => absurd hm hbase, ?_, ?_, ?_⟩
  · -- only scoring leads to the gate, and only with the flag set
    rintro rfl
    rcases follow_cases hfol with ⟨-, h⟩ | ⟨rfl, h⟩ | ⟨-, h⟩ | ⟨-, h⟩ | ⟨p, -, h⟩ | ⟨-, h⟩ | ⟨-, h⟩
    · cases h
    · rcases h with ⟨-, h⟩ | ⟨hrt, -⟩
      · cases h
      · have hflag : s'.needsUserConfirm.getD false = true := by
          unfold scoreRouter at hrt
          split at hrt
          · assumption
          · cases hrt
        exact (hp.scores (by simp)).lowScore.mp ((routeByScore_flag hres).mp hflag)
    · rcases h with ⟨-, h⟩ | ⟨-, h⟩ | ⟨-, h⟩ <;> cases h
    · rcases h with ⟨q, -, h⟩ | ⟨-, h⟩ | ⟨-, h⟩ <;> cases h
    · rcases h with ⟨-, h⟩ | ⟨-, h⟩ <;> cases h
    · cases h
    · cases h
  · -- only the gate leads to a hook
    rintro p rfl
    rcases follow_cases hfol with ⟨-, h⟩ | ⟨-, h⟩ | ⟨-, h⟩ | ⟨rfl, h⟩ | ⟨q, -, h⟩ | ⟨-, h⟩ | ⟨-, h⟩
    · cases h
    · rcases h with ⟨-, h⟩ | ⟨-, h⟩ <;> cases h
    · rcases h with ⟨-, h⟩ | ⟨-, h⟩ | ⟨-, h⟩ <;> cases h
    · rcases h with ⟨q, hrt, h⟩ | ⟨-, h⟩ | ⟨-, h⟩
      · cases h
        obtain ⟨hconf, hsel, huse⟩ := userGateRouter_hook hrt
        refine ⟨hp.gate rfl, ?_, ?_, usable_iff.mp huse⟩
        · rw [← hreq.userConfirmedOnline]; exact hconf
        · rw [← hreq.selectedProvider]; exact hsel
      · cases h
      · cases h
    · rcases h with ⟨-, h⟩ | ⟨-, h⟩ <;> cases h
    · cases h
    · cases h
  · -- only a provider's own hook leads to it, and only when it allowed the call
    rintro p rfl
    rcases follow_cases hfol with ⟨-, h⟩ | ⟨-, h⟩ | ⟨-, h⟩ | ⟨-, h⟩ | ⟨q, rfl, h⟩ | ⟨-, h⟩ | ⟨-, h⟩
    · cases h
    · rcases h with ⟨-, h⟩ | ⟨-, h⟩ <;> cases h
    · rcases h with ⟨-, h⟩ | ⟨-, h⟩ | ⟨-, h⟩ <;> cases h
    · rcases h with ⟨q, -, h⟩ | ⟨-, h⟩ | ⟨-, h⟩ <;> cases h
    · rcases h with ⟨hrt, h⟩ | ⟨-, h⟩
      · cases h
        refine ⟨hp.hook p rfl, ?_⟩
        have hnot : s'.preActionHookDenied.getD false = false := by
          unfold preActionHookRouter at hrt
          split at hrt
          · cases hrt
          · simp_all
        rw [← hp.request.hookVerdict]
        simp only [buildGraph, nodeFn, preActionHookNode] at hres
        split at hres
        · assumption
        · cases hres; simp at hnot
      · cases h
    · cases h
    · cases h

theorem path_entry (env : Env R) (s₀ : GraphState R) : Path env s₀ .retrieve s₀ where
  request := SameRequest.refl s₀
  scores := fun h => absurd rfl h
  entry := fun _ => rfl
  gate := fun h => by cases h
  hook := fun p h => by cases h
  call := fun p h => by cases h

/-- The assertion holds at every node a run enters. -/
theorem path_of_visit {env : Env R} {limit : Nat} {s₀ : GraphState R}
    {v : Visit Node (GraphState R) (Effect R) String} (hv : v ∈ (invoke env limit s₀).visits) :
    Path env s₀ v.node v.state ∧ v.out = nodeFn env v.node v.state := by
  obtain ⟨pre, post, h⟩ := List.append_of_mem hv
  exact StateGraph.Graph.run_inv (path_entry env s₀) (path_preserved env s₀) h

/-! ### The routers only return labels their maps know -/

theorem follow_ne_badLabel {env : Env R} {s₀ s s' : GraphState R} {n : Node}
    (hp : Path env s₀ n s) (h : (nodeFn env n s).result = .ok s') (l : Label) :
    (edges env n).follow s' ≠ .badLabel l := by
  cases n with
  | routeByScore =>
      refine Edge.branch_ne_badLabel ?_ l
      unfold scoreRouter
      split <;> rfl
  | guardrailInput =>
      refine Edge.branch_ne_badLabel ?_ l
      unfold guardrailRouter
      split
      · rfl
      · split <;> rfl
  | userGate =>
      refine Edge.branch_ne_badLabel ?_ l
      unfold userGateRouter
      split
      · rfl
      · rfl
      · split
        · rfl
        · split <;> rfl
  | preActionHook p =>
      -- the router reads the provider again, and it is still the one the gate selected
      have hsel : selectedProvider s' = p.name := by
        rw [(nodeFn_frame (by simp) h).1.selectedProvider, hp.request.selectedProvider]
        exact (hp.hook p rfl).selected
      refine Edge.branch_ne_badLabel ?_ l
      unfold preActionHookRouter
      rw [hsel]
      split
      · rfl
      · cases p <;> rfl
  | _ => simp [edges, Edge.follow]

/-- The node is one of the two that call an external provider. -/
def Node.isFallback : Node → Bool
  | .fallback _ => true
  | _ => false

omit [OfScientific R] [LT R] [DecidableLT R] in
/-- Of nodes with falling ranks, at most one is a provider node: the two share a rank. -/
private theorem countP_fallback_le {l : List Node}
    (h : l.Pairwise (fun a b => rank b < rank a)) : l.countP Node.isFallback ≤ 1 := by
  induction l with
  | nil => simp
  | cons n rest ih =>
      rw [List.pairwise_cons] at h
      rw [List.countP_cons]
      by_cases hn : n.isFallback = true
      · have hrest : rest.countP Node.isFallback = 0 := by
          rw [List.countP_eq_zero]
          intro m hm hfb
          have hlt := h.1 m hm
          cases n <;> cases m <;> simp_all [Node.isFallback, rank]
        simp [hn, hrest]
      · simpa [hn] using ih h.2

/--
**External calls are gated.**  Whatever the request, the configuration and the injected parts,
a provider node runs only when the scores were low, the user confirmed, the provider is the one
selected, its client is there and available, and its hook allowed the call; at most one provider
node runs; and no router returns a label its edge map does not know.
-/
theorem external_calls_gated (env : Env R) (limit : Nat) (s₀ : GraphState R) :
    (∀ v ∈ (invoke env limit s₀).visits, ∀ p, v.node = .fallback p → MayCall env p s₀) ∧
    (invoke env limit s₀).nodes.countP Node.isFallback ≤ 1 ∧
    (∀ n l, (invoke env limit s₀).stop ≠ .badLabel n l) := by
  refine ⟨?_, ?_, ?_⟩
  · intro v hv p hn
    exact (path_of_visit hv).1.call p hn
  · exact countP_fallback_le (StateGraph.Graph.rank_pairwise (buildGraph_ranked env) limit s₀)
  · intro n l hstop
    have hsteps : ((buildGraph env).run limit s₀).stop ≠ .outOfSteps := by
      show (invoke env limit s₀).stop ≠ .outOfSteps
      rw [hstop]
      simp
    obtain ⟨pre, v, hvis, -, hend⟩ := StateGraph.Graph.run_last hsteps
    have hv : v ∈ (invoke env limit s₀).visits := by
      show v ∈ ((buildGraph env).run limit s₀).visits
      rw [hvis]
      simp
    obtain ⟨hpath, hout⟩ := path_of_visit hv
    rcases hend with ⟨x, -, hx⟩ | ⟨s', l', hok, hbad, -⟩ | ⟨s', -, -, hx⟩
    · rw [show ((buildGraph env).run limit s₀).stop = _ from hstop] at hx
      cases hx
    · exact follow_ne_badLabel hpath (hout ▸ hok) l' hbad
    · rw [show ((buildGraph env).run limit s₀).stop = _ from hstop] at hx
      cases hx

/-! ### A confirmed request that reaches its provider -/

/-- An empty index, a usable Grok client and no hook. -/
def sampleEnv : Env ℚ where
  cfg := {}
  retriever := fun _ => .ok []
  llm := ⟨true, fun _ _ => ⟨.ok "local answer", none⟩⟩
  grok := some ⟨true, fun _ _ => ⟨.ok "external answer", none⟩⟩
  claude := none
  hookProc := fun _ _ _ => .timedOut
  stageEpisode := fun _ => .ok ()
  hashQuery := id
  lower := id
  urlHostname := fun _ => some "api.x.ai"
  tokenHex := fun _ => "00000000"
  fmtScore := fun _ _ => ""

/-- A request the user has confirmed for online use. -/
def sampleRequest : GraphState ℚ :=
  { query := "what is new", userConfirmedOnline := some (some true) }

end CyClaw.Graph

/-
The routers and the compiled graph.

`buildGraph` is the graph of the source's `build_graph`: twelve nodes, the edges between
them, and the three kinds of edge maps.  A router returns a label and the edge map turns
the label into a node, exactly as in the source, so a label that is missing from its map
is a run that stops with `badLabel` and not something the types rule out.

`rank` falls along every edge.  That one fact gives the termination of every run, that
no node runs twice, and that the two provider nodes, which share a rank, never both run.
-/
import CyClaw.Graph.Nodes

namespace CyClaw.Graph

open StateGraph

/-- The nodes. -/
inductive Node where
  | retrieve
  | routeByScore
  | guardrailInput
  | guardrailOutput
  | localLlm
  | userGate
  | preActionHook (p : Provider)
  | fallback (p : Provider)
  | offlineBestEffort
  | auditLogger
  deriving DecidableEq, Repr

/-- The labels the routers return. -/
inductive Label where
  | localLlm
  | userGate
  | offlineBestEffort
  | auditLogger
  | preActionHook (p : Provider)
  | fallback (p : Provider)
  deriving DecidableEq, Repr

variable {R : Type}

/-! ### Routers -/

/-- After scoring: the user gate when confirmation is needed. -/
def scoreRouter (s : GraphState R) : Label :=
  if s.needsUserConfirm.getD false then .userGate else .localLlm

/-- After the input rail: the audit node when it blocked, else the generation node of the edge
the query came in by. -/
def guardrailRouter (s : GraphState R) : Label :=
  if s.guardrailBlocked.getD false then .auditLogger
  else if s.needsUserConfirm.getD false then .offlineBestEffort
  else .localLlm

/-- The provider asked for: `online_provider or "grok"`. -/
def selectedProvider (s : GraphState R) : String :=
  match s.onlineProvider with
  | none => "grok"
  | some p => if p = "" then "grok" else p

/-- After a hook: the provider the gate selected, unless the hook denied. -/
def preActionHookRouter (s : GraphState R) : Label :=
  if s.preActionHookDenied.getD false then .auditLogger
  else if selectedProvider s = "grok" then .fallback .grok
  else .fallback .claude

/-- The client is there and usable. -/
def usable (client : Option Client) : Bool :=
  match client with
  | none => false
  | some c => c.isAvailable

/-- After the user gate: by confirmation, selected provider and its client. -/
def userGateRouter (env : Env R) (s : GraphState R) : Label :=
  match s.userConfirmedOnline.join with
  | none => .auditLogger
  | some false => .offlineBestEffort
  | some true =>
      if selectedProvider s = "claude" ∧ usable env.claude then .preActionHook .claude
      else if selectedProvider s = "grok" ∧ usable env.grok then .preActionHook .grok
      else .offlineBestEffort

/-! ### Edge maps -/

def scorePaths : Label → Option Node
  | .localLlm => some .guardrailInput
  | .userGate => some .userGate
  | _ => none

def guardrailPaths : Label → Option Node
  | .localLlm => some .localLlm
  | .offlineBestEffort => some .offlineBestEffort
  | .auditLogger => some .auditLogger
  | _ => none

/-- The offline selection goes through the input rail too. -/
def userGatePaths : Label → Option Node
  | .preActionHook p => some (.preActionHook p)
  | .offlineBestEffort => some .guardrailInput
  | .auditLogger => some .auditLogger
  | _ => none

/-- A hook leads to its own provider only. -/
def hookPaths (p : Provider) : Label → Option Node
  | .fallback q => if q = p then some (.fallback p) else none
  | .auditLogger => some .auditLogger
  | _ => none

/-- The edge out of each node. -/
def edges (env : Env R) : Node → Edge Node Label (GraphState R)
  | .retrieve => .goto .routeByScore
  | .routeByScore => .branch scoreRouter scorePaths
  | .guardrailInput => .branch guardrailRouter guardrailPaths
  | .localLlm => .goto .guardrailOutput
  | .userGate => .branch (userGateRouter env) userGatePaths
  | .preActionHook p => .branch preActionHookRouter (hookPaths p)
  | .fallback _ => .goto .guardrailOutput
  | .offlineBestEffort => .goto .guardrailOutput
  | .guardrailOutput => .goto .auditLogger
  | .auditLogger => .finish

/-! ### Every edge lowers the rank -/

/-- How far a node is from the end of the run, at most. -/
def rank : Node → Nat
  | .retrieve => 6
  | .routeByScore => 5
  | .userGate => 4
  | .guardrailInput | .preActionHook _ => 3
  | .localLlm | .offlineBestEffort | .fallback _ => 2
  | .guardrailOutput => 1
  | .auditLogger => 0

/-- Where an edge can lead, whatever the router says. -/
theorem follow_cases {env : Env R} {n m : Node} {s : GraphState R}
    (h : (edges env n).follow s = .enter m) :
    (n = .retrieve ∧ m = .routeByScore) ∨
    (n = .routeByScore ∧ ((scoreRouter s = .localLlm ∧ m = .guardrailInput) ∨
      (scoreRouter s = .userGate ∧ m = .userGate))) ∨
    (n = .guardrailInput ∧ ((guardrailRouter s = .localLlm ∧ m = .localLlm) ∨
      (guardrailRouter s = .offlineBestEffort ∧ m = .offlineBestEffort) ∨
      (guardrailRouter s = .auditLogger ∧ m = .auditLogger))) ∨
    (n = .userGate ∧ ((∃ p, userGateRouter env s = .preActionHook p ∧ m = .preActionHook p) ∨
      (userGateRouter env s = .offlineBestEffort ∧ m = .guardrailInput) ∨
      (userGateRouter env s = .auditLogger ∧ m = .auditLogger))) ∨
    (∃ p, n = .preActionHook p ∧ ((preActionHookRouter s = .fallback p ∧ m = .fallback p) ∨
      (preActionHookRouter s = .auditLogger ∧ m = .auditLogger))) ∨
    ((n = .localLlm ∨ n = .offlineBestEffort ∨ ∃ p, n = .fallback p) ∧ m = .guardrailOutput) ∨
    (n = .guardrailOutput ∧ m = .auditLogger) := by
  cases n with
  | retrieve => simp [edges, Edge.follow] at h; simp [h]
  | routeByScore =>
      simp only [edges, Edge.follow] at h
      cases hl : scoreRouter s <;> simp_all [scorePaths]
  | guardrailInput =>
      simp only [edges, Edge.follow] at h
      cases hl : guardrailRouter s <;> simp_all [guardrailPaths]
  | userGate =>
      simp only [edges, Edge.follow] at h
      cases hl : userGateRouter env s <;> simp_all [userGatePaths]
  | preActionHook p =>
      simp only [edges, Edge.follow] at h
      cases hl : preActionHookRouter s with
      | fallback q =>
          by_cases hq : q = p
          · subst hq
            simp_all [hookPaths]
          · simp_all [hookPaths]
      | _ => simp_all [hookPaths]
  | localLlm => simp [edges, Edge.follow] at h; simp [h]
  | fallback p => simp [edges, Edge.follow] at h; simp [h]
  | offlineBestEffort => simp [edges, Edge.follow] at h; simp [h]
  | guardrailOutput => simp [edges, Edge.follow] at h; simp [h]
  | auditLogger => simp [edges, Edge.follow] at h

theorem rank_lt_of_follow {env : Env R} {n m : Node} {s : GraphState R}
    (h : (edges env n).follow s = .enter m) : rank m < rank n := by
  rcases follow_cases h with ⟨rfl, rfl⟩ | ⟨rfl, hm⟩ | ⟨rfl, hm⟩ | ⟨rfl, hm⟩ | ⟨p, rfl, hm⟩ |
    ⟨hn, rfl⟩ | ⟨rfl, rfl⟩
  · decide
  · rcases hm with ⟨-, rfl⟩ | ⟨-, rfl⟩ <;> decide
  · rcases hm with ⟨-, rfl⟩ | ⟨-, rfl⟩ | ⟨-, rfl⟩ <;> decide
  · rcases hm with ⟨p, -, rfl⟩ | ⟨-, rfl⟩ | ⟨-, rfl⟩ <;> simp [rank]
  · rcases hm with ⟨-, rfl⟩ | ⟨-, rfl⟩ <;> simp [rank]
  · rcases hn with rfl | rfl | ⟨p, rfl⟩ <;> simp [rank]
  · decide

section Build

variable [OfScientific R] [LT R] [DecidableLT R]

/-- The function behind each node. -/
def nodeFn (env : Env R) : Node → GraphState R → NodeOut R
  | .retrieve => retrieveNode env
  | .routeByScore => routeByScoreNode env
  | .guardrailInput => guardrailInputNode env
  | .guardrailOutput => guardrailOutputNode env
  | .localLlm => localLlmNode env
  | .userGate => userGateNode
  | .preActionHook p => preActionHookNode env p
  | .fallback .grok => grokFallbackNode env
  | .fallback .claude => claudeFallbackNode env
  | .offlineBestEffort => offlineBestEffortNode env
  | .auditLogger => auditLoggerNode env

/-- The compiled graph. -/
def buildGraph (env : Env R) : StateGraph.Graph Node Label (GraphState R) (Effect R) String where
  entry := .retrieve
  node := nodeFn env
  edge := edges env

/-- `graph.invoke(state)`, with the library's limit on the number of nodes of one run. -/
def invoke (env : Env R) (limit : Nat) (s : GraphState R) :
    Run Node Label (GraphState R) (Effect R) String :=
  (buildGraph env).run limit s

/-- The graph is ranked, so no run repeats a node. -/
theorem buildGraph_ranked (env : Env R) : (buildGraph env).Ranked rank :=
  fun _ _ _ _ hst => rank_lt_of_follow hst.2

/-- A limit of seven nodes is enough for every run. -/
theorem invoke_not_outOfSteps (env : Env R) {limit : Nat} (hlimit : 7 ≤ limit)
    (s : GraphState R) : (invoke env limit s).stop ≠ .outOfSteps :=
  StateGraph.Graph.run_not_outOfSteps (buildGraph_ranked env)
    (Nat.lt_of_lt_of_le (by decide : rank .retrieve < 7) hlimit) s

/-! ### No node raises -/

/-- Every node returns a state. -/
theorem nodeFn_returns (env : Env R) (n : Node) (s : GraphState R) :
    ∃ s', (nodeFn env n s).result = .ok s' := by
  have hlocal : ∀ model prompt, ∃ s', (localGeneration env s model prompt).result = .ok s' := by
    intro model prompt
    unfold localGeneration
    split
    · exact ⟨_, rfl⟩
    · exact ⟨_, rfl⟩
  have hexternal : ∀ p, ∃ s', (externalFallbackNode env p s).result = .ok s' := by
    intro p
    unfold externalFallbackNode
    split
    · exact ⟨_, rfl⟩
    · split <;> exact ⟨_, rfl⟩
  cases n with
  | retrieve => exact ⟨_, rfl⟩
  | routeByScore =>
      show ∃ s', (routeByScoreNode env s).result = .ok s'
      unfold routeByScoreNode
      split
      · exact ⟨_, rfl⟩
      · split <;> exact ⟨_, rfl⟩
  | guardrailInput =>
      show ∃ s', (guardrailInputNode env s).result = .ok s'
      unfold guardrailInputNode
      split
      · exact ⟨_, rfl⟩
      · split
        · exact ⟨_, rfl⟩
        · split <;> exact ⟨_, rfl⟩
  | guardrailOutput =>
      show ∃ s', (guardrailOutputNode env s).result = .ok s'
      unfold guardrailOutputNode
      split
      · exact ⟨_, rfl⟩
      · split
        · exact ⟨_, rfl⟩
        · dsimp only
          split
          · exact ⟨_, rfl⟩
          · split <;> exact ⟨_, rfl⟩
  | localLlm => exact hlocal _ _
  | offlineBestEffort => exact hlocal _ _
  | userGate =>
      show ∃ s', (userGateNode s).result = .ok s'
      unfold userGateNode
      split <;> exact ⟨_, rfl⟩
  | preActionHook p =>
      show ∃ s', (preActionHookNode env p s).result = .ok s'
      unfold preActionHookNode
      split <;> exact ⟨_, rfl⟩
  | fallback p =>
      cases p with
      | grok => exact hexternal .grok
      | claude => exact hexternal .claude
  | auditLogger => exact ⟨_, rfl⟩

end Build

end CyClaw.Graph

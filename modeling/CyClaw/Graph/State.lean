/-
The data the query graph works on.

`GraphState` is the dictionary the nodes share: every key the source lists as optional
is an `Option`, `none` for a key no node has written.  `Env` collects what `build_graph`
binds at build time, namely the configuration, the retriever, the clients, the guards
and the personality, together with the library calls whose values the graph only
passes along (the hash of a query, the host of a URL, a rendered score).  Everything in `Env` is
arbitrary, so a theorem about all of `Env` is one about every configuration, every
retriever outcome, every client and every guard.

Scores are of an arbitrary type with a decidable `<`.  The graph only ever compares
them, and nothing here assumes the comparison is an order, so floating point with its
not-a-number is an instance.
-/
import Mathlib.Data.List.Basic

namespace CyClaw

/-- A typed service error: the code and the message the graph reports. -/
structure RagError where
  code : String
  message : String
  deriving DecidableEq, Repr

/-- The external providers the graph knows. -/
inductive Provider where
  | grok
  | claude
  deriving DecidableEq, Repr

namespace Provider

/-- The provider's name, as the request and the configuration spell it. -/
def name : Provider → String
  | grok => "grok"
  | claude => "claude"

/-- The name shown to the user. -/
def label : Provider → String
  | grok => "Grok"
  | claude => "Claude"

end Provider

namespace Graph

/-! ### Retrieval -/

/-- One hit of the hybrid search. -/
structure SearchResult (R : Type) where
  text : String
  score : R
  source : String
  chunkId : Int
  stemTags : List String
  retrievalMode : String
  sourceSha256 : String
  semanticScore : Option R
  semanticRank : Option Int
  keywordScore : Option R
  keywordRank : Option Int
  rrfScore : Option R
  rrfSemanticContrib : Option R
  rrfKeywordContrib : Option R

/-- A hit as the graph carries it. -/
structure RetrievedDoc (R : Type) where
  text : String
  score : R
  source : String
  chunkId : Int
  sourceSha256 : String
  stemTags : List String
  mode : String
  semanticScore : Option R
  semanticRank : Option Int
  keywordScore : Option R
  keywordRank : Option Int
  rrfScore : Option R
  rrfSemanticContrib : Option R
  rrfKeywordContrib : Option R

/-! ### State -/

/-- Which path produced the answer; `empty` is the pause at the user gate. -/
inductive AnswerModel where
  | empty
  | localLlm
  | external (p : Provider)
  | offlineBestEffort
  | guardrailBlocked
  | hookDenied
  | externalUnavailable
  deriving DecidableEq, Repr

namespace AnswerModel

/-- The value the source stores. -/
def text : AnswerModel → String
  | empty => ""
  | localLlm => "local"
  | external p => p.name
  | offlineBestEffort => "offline-best-effort"
  | guardrailBlocked => "guardrail-blocked"
  | hookDenied => "hook-denied"
  | externalUnavailable => "external-unavailable"

end AnswerModel

/-- One cited source of an audit event. -/
structure AuditSource (R : Type) where
  source : String
  chunkId : Int
  sourceSha256 : String
  semanticScore : Option R
  keywordScore : Option R
  rrfScore : Option R

/-- The event the audit node writes. -/
structure AuditEvent (R : Type) where
  event : String
  query : String
  topScore : R
  retrievalMode : String
  onlineEscalated : Bool
  modelUsed : String
  llm : String
  llmModel : Option String
  hitCount : Nat
  guardrailBlocked : Bool
  guardrailRails : List String
  guardrailDegraded : Bool
  preActionHookDenied : Bool
  sources : List (AuditSource R)
  error : Option String
  username : Option String
  servedModel : Option String
  personalityDbError : Option String
  memoryEpisodeError : Option String

/-- The shared dictionary.  `query` is required; the rest is present once written. -/
structure GraphState (R : Type) where
  query : String
  username : Option String := none
  retrievedDocs : Option (List (RetrievedDoc R)) := none
  topScore : Option R := none
  retrievalMode : Option String := none
  needsUserConfirm : Option Bool := none
  /-- Absent, null, or the user's choice. -/
  userConfirmedOnline : Option (Option Bool) := none
  onlineProvider : Option String := none
  answer : Option String := none
  answerModel : Option AnswerModel := none
  servedModel : Option String := none
  answerSources : Option (List (RetrievedDoc R)) := none
  guardrailBlocked : Option Bool := none
  guardrailRails : Option (List String) := none
  guardrailDegraded : Option Bool := none
  preActionHookDenied : Option Bool := none
  auditEvent : Option (AuditEvent R) := none
  error : Option String := none

/-! ### Configuration -/

/-- The `retrieval` block. -/
structure RetrievalCfg (R : Type) where
  minScore : Option R := none
  /-- Absent, or the number configured; any other value is ignored by the source. -/
  minSemanticScore : Option R := none
  maxContextTokens : Option Int := none

/-- One entry of the `models` block. -/
structure ModelCfg where
  baseUrl : Option String := none
  model : Option String := none
  trustedHosts : List String := []

/-- The configured hook command. -/
inductive HookCommand where
  | missing
  | malformed
  | argv (command : List String)
  deriving DecidableEq, Repr

/-- The `policy.fallback.pre_action_hook` block; `enabled` is true for the literal `True` only. -/
structure HookCfg where
  enabled : Bool := false
  command : HookCommand := .missing
  /-- What `int(timeout_sec)` gives, when it gives anything. -/
  timeoutSec : Option Int := none

/-- The `policy.fallback` block. -/
structure FallbackCfg where
  sendLocalContext : Provider → Bool := fun _ => false
  /-- Zero stands for every value the source treats as "no cap". -/
  maxPromptChars : Provider → Int := fun _ => 8000
  preActionHook : HookCfg := {}

/-- The parts of the configuration the graph reads. -/
structure Cfg (R : Type) where
  retrieval : RetrievalCfg R := {}
  localLlm : ModelCfg := {}
  external : Provider → ModelCfg := fun _ => {}
  fallback : FallbackCfg := {}
  includeQueryHash : Bool := true
  /-- `memory.enabled` and `memory.episodes.enabled`, both the literal `True`. -/
  memoryEpisodes : Bool := false

/-! ### What is injected at build time -/

/-- One call of `generate`: its result, and the model id stamped on the spend context. -/
structure Generation where
  result : Except RagError String
  servedModel : Option String

/-- What travels with an external call to the spend ledger. -/
structure SpendContext where
  routePath : List String
  queryHash : Option String
  deriving DecidableEq, Repr

/-- A generation client. -/
structure Client where
  isAvailable : Bool
  generate : String → Option SpendContext → Generation

/-- What a rail answers. -/
structure GuardResult where
  blocked : Bool
  message : Option String := none
  rails : Option (List String) := none

/-- A run of the generate guard: the prompts it sent to the client, and its answer unless
it raised. -/
structure GuardedRun where
  prompts : List String
  outcome : Option (String × Option String)
  servedModel : Option String

/-- The identity layer: the soul text and the result of recording an interaction. -/
structure Personality where
  soulCore : String
  recordInteraction : String → String → Except String Unit

/-- What the hook command is told. -/
structure HookPayload where
  provider : String
  model : String
  queryHash : String
  deriving DecidableEq, Repr

/-- How the hook process ended. -/
inductive HookProc where
  | timedOut
  | failed (exc : String)
  | exited (code : Int) (stdout stderr : String)
  deriving DecidableEq, Repr

/-- Who a prompt is sent to. -/
inductive Target where
  | localLlm
  | external (p : Provider)
  deriving DecidableEq, Repr

/-- Everything `build_graph` binds, and the library calls the nodes make. -/
structure Env (R : Type) where
  cfg : Cfg R
  retriever : String → Except RagError (List (SearchResult R))
  llm : Client
  grok : Option Client
  claude : Option Client
  personality : Option Personality := none
  inputGuard : Option (String → Except String GuardResult) := none
  outputGuard : Option (String → String → String → Except String GuardResult) := none
  /-- Given the client, the prompt, the query, the label and the spend context of the call. -/
  generateGuard : Option (Target → String → String → String → Option SpendContext →
    GuardedRun) := none
  hookProc : List String → HookPayload → Int → HookProc
  stageEpisode : GraphState R → Except String Unit
  hashQuery : String → String
  /-- `str.lower`. -/
  lower : String → String
  /-- `urlparse(url).hostname`, `none` when the URL does not parse. -/
  urlHostname : String → Option String
  tokenHex : Target → String
  /-- A score rendered with so many digits after the point. -/
  fmtScore : Nat → R → String

namespace Env

/-- The client of a provider. -/
def client {R : Type} (env : Env R) : Provider → Option Client
  | .grok => env.grok
  | .claude => env.claude

end Env

/-! ### What a run does -/

/-- The verdict of the pre-action hook. -/
inductive HookVerdict where
  | allow
  | deny (reason : String)
  deriving DecidableEq, Repr

/-- The calls a run makes to the outside. -/
inductive Effect (R : Type) where
  | retrieve (query : String)
  | inputGuard (result : Except String GuardResult)
  | outputGuard (result : Except String GuardResult)
  | hook (p : Provider) (verdict : HookVerdict)
  | generate (target : Target) (prompt : String)
  | promptTruncated (p : Provider) (originalChars truncatedChars : Nat)
  | recordInteraction (queryHash outcome : String)
  | stageEpisode
  | audit (event : AuditEvent R)

/-- The call is a generation. -/
def Effect.isGenerate {R : Type} : Effect R → Bool
  | .generate _ _ => true
  | _ => false

end Graph

end CyClaw

/-
A generation inside its rails, and the fallback around it.

`guarded_generate` asks the rail engine about the query, has the client generate, and asks the
engine about the answer.  `_generate_or_error` runs it where `build_generate_guard` built one,
and generates without it when it raises, at whatever point it raised.  What is raised before
the client was called costs nothing.  What is raised behind it costs a second generation, and
`generations_iff` says when that is.
-/
import CyClaw.Graph.Nodes
import CyClaw.Lib.Effects
import CyClaw.Lib.PyValue

namespace CyClaw.Guardrails

open Effects Graph

/-- What is raised, as far as a handler tells it from the rest. -/
inductive Raised where
  /-- `GuardrailsDependencyError`. -/
  | dependency (e : RagError)
  | railsLoad (e : RagError)
  /-- Any other `RAGError`. -/
  | rag (e : RagError)
  | typeError
  | importError
  | attributeError
  /-- Any other `Exception`. -/
  | exception (name : String)
  /-- What is no `Exception`, such as `KeyboardInterrupt`. -/
  | interrupt (name : String)

namespace Raised

/-- `except RAGError`. -/
def ragError : Raised → Option RagError
  | dependency e | railsLoad e | rag e => some e
  | _ => none

/-- `except Exception`. -/
def isException : Raised → Bool
  | interrupt _ => false
  | _ => true

/-- `except (GuardrailsDependencyError, RailsLoadError)`, with the name of the class. -/
def degrades : Raised → Option String
  | dependency _ => some "GuardrailsDependencyError"
  | railsLoad _ => some "RailsLoadError"
  | _ => none

end Raised

/-! ### The engine and the client -/

structure Message where
  role : String
  content : String

/-- How `check` is called. -/
inductive CheckArgs where
  | keywords (messages : List Message) (railTypes : Option (List String))
  | positional (messages : List Message)

/-- What a `check` returns: the name of its status. -/
structure RailsResult where
  status : String

/-- A live engine: its `check`, where it has one. -/
structure Rails where
  check : Option (CheckArgs → Except Raised (Option RailsResult))

/-- A client: what its calls, counted from zero, make of a prompt. -/
structure PaidClient where
  generate : ℕ → String → Option SpendContext → Except Raised String

inductive Metric where
  | skipped (reason : String) (queryHash : Option String)
  | blocked (stage rail reason : String) (queryHash : String)

/-- The configuration of the layer, and the library calls it makes. -/
structure Layer where
  blockMessage : String
  /-- What `get_cyclaw_guardrails` does, at each of its calls. -/
  getCyclawGuardrails : ℕ → Except Raised Rails
  /-- The import of `RailType`, with its `INPUT`. -/
  railTypeInput : Except Raised String
  upper : String → String
  hashQuery : String → String

/-- What a run leaves: the broker's engine, the loads, the metrics, and the prompts that reached
the client. -/
structure World where
  rails : Option Rails := none
  loads : ℕ := 0
  recorded : List Metric := []
  prompts : List String := []

abbrev Run (α : Type) := Eff World Raised α

def loadRails (l : Layer) : Run Rails := fun w =>
  (l.getCyclawGuardrails w.loads, { w with loads := w.loads + 1 })

def generate (c : PaidClient) (prompt : String) (spend : Option SpendContext) : Run String := fun w =>
  (c.generate w.prompts.length prompt spend, { w with prompts := w.prompts ++ [prompt] })

def record (m : Metric) : Run Unit :=
  Eff.modify fun w => { w with recorded := w.recorded ++ [m] }

/-! ### The broker -/

/-- `_status_blocked`. -/
def statusBlocked (l : Layer) (result : RailsResult) : Bool :=
  decide ("BLOCKED".toList <:+: (l.upper result.status).toList)

/-- The rail types of a check of the input alone. -/
def inputRailTypes (l : Layer) : Except Raised (Option (List String)) :=
  match l.railTypeInput with
  | .ok input => .ok (some [input])
  | .error .importError => .ok none
  | .error e => .error e

/-- `_live_check`: by keyword, and by position where that raised a `TypeError`. -/
def liveCheck (l : Layer) (rails : Rails) (messages : List Message) (inputOnly : Bool) :
    Except Raised (Option RailsResult) :=
  match rails.check with
  | none => .ok none
  | some check =>
      match if inputOnly then inputRailTypes l else .ok none with
      | .error e => .error e
      | .ok railTypes =>
          match check (.keywords messages railTypes) with
          | .error .typeError => check (.positional messages)
          | r => r

/-- `GuardrailBroker._engine`. -/
def engine (l : Layer) : Run (Option Rails) := do
  let w ← Eff.get
  match w.rails with
  | some rails => pure (some rails)
  | none =>
      match ← Eff.attempt (loadRails l) with
      | .ok rails =>
          Eff.modify fun w => { w with rails := some rails }
          pure (some rails)
      | .error e =>
          match e.degrades with
          | some name =>
              record (.skipped name none)
              pure none
          | none => Eff.raise e

/-- What both checks of the broker do, each with its stage and its messages. -/
def checkRails (l : Layer) (stage : String) (messages : List Message) (inputOnly : Bool) (query : String) :
    Run Bool := do
  match ← engine l with
  | none => pure false
  | some rails =>
      match liveCheck l rails messages inputOnly with
      | .ok (some result) =>
          if statusBlocked l result then
            record (.blocked stage "nemo_check" "blocked" (l.hashQuery query))
            pure true
          else pure false
      | .ok none => pure false
      | .error e =>
          if e.isException then
            record (.skipped ("check_" ++ stage ++ "_error") (some (l.hashQuery query)))
            pure false
          else Eff.raise e

def userMessages (query : String) : List Message := [⟨"user", query⟩]

def checkUser (l : Layer) (query : String) : Run Bool :=
  checkRails l "input" (userMessages query) true query

def checkAssistant (l : Layer) (query answer : String) : Run Bool :=
  checkRails l "output" (userMessages query ++ [⟨"assistant", answer⟩]) false query

/-- What is asked about: the query, or else the prompt. -/
def asked (query prompt : String) : String := if query = "" then prompt else query

/-- The answer that names a service error. -/
def errorAnswer (label : String) (e : RagError) : String × Option String :=
  ("[" ++ label ++ " Error: " ++ e.message ++ "]", some (e.code ++ ": " ++ e.message))

def guardedGenerate (l : Layer) (c : PaidClient) (prompt query label : String) (spend : Option SpendContext) :
    Run (String × Option String) := do
  if ← checkUser l (asked query prompt) then pure (l.blockMessage, none)
  else
    match ← Eff.attempt (generate c prompt spend) with
    | .ok answer =>
        if ← checkAssistant l (asked query prompt) answer then pure (l.blockMessage, none)
        else pure (answer, none)
    | .error e =>
        match e.ragError with
        | some e => pure (errorAnswer label e)
        | none => Eff.raise e

/-! ### The seam and the node -/

/-- `guardrails.enabled` is the literal `True`; a block that is no mapping raises. -/
def guardrailsEnabled (cfg : List (List Char × PyValue)) : Except Raised Bool :=
  match PyValue.orElse (PyValue.get cfg "guardrails") (.dict []) with
  | .dict fields =>
      match PyValue.get fields "enabled" with
      | some (.bool true) => .ok true
      | _ => .ok false
  | _ => .error .attributeError

/-- The guard is the layer it is closed over. -/
def buildGenerateGuard (cfg : List (List Char × PyValue)) (loadConfig : Except Raised Layer) :
    Except Raised (Option Layer) :=
  match guardrailsEnabled cfg with
  | .error e => .error e
  | .ok false => .ok none
  | .ok true => loadConfig.map some

/-- The call without a guard. -/
def unwrapped (c : PaidClient) (prompt label : String) (spend : Option SpendContext) :
    Run (String × Option String) := do
  match ← Eff.attempt (generate c prompt spend) with
  | .ok answer => pure (answer, none)
  | .error e =>
      match e.ragError with
      | some e => pure (errorAnswer label e)
      | none => Eff.raise e

def generateOrError (guard : Option Layer) (c : PaidClient) (prompt label query : String)
    (spend : Option SpendContext) : Run (String × Option String) := do
  match guard with
  | none => unwrapped c prompt label spend
  | some l =>
      match ← Eff.attempt (guardedGenerate l c prompt query label spend) with
      | .ok answer => pure answer
      | .error e => if e.isException then unwrapped c prompt label spend else Eff.raise e

/-! ### The guard as the graph calls it -/

/-- A client of the graph, which raises service errors only. -/
def paid (client : Client) : PaidClient where
  generate _ prompt spend := (client.generate prompt spend).result.mapError Raised.rag

def guardedRun (l : Layer) (client : Client) (prompt query label : String) (spend : Option SpendContext) : GuardedRun :=
  let run := guardedGenerate l (paid client) prompt query label spend {}
  { prompts := run.2.prompts
    outcome := run.1.toOption
    servedModel := if run.2.prompts = [] then none else (client.generate prompt spend).servedModel }

def targetClient {R : Type} (env : Env R) : Target → Option Client
  | .localLlm => some env.llm
  | .external p => env.client p

/-- The guard of a layer, over the clients of the graph. -/
def builtGuard {R : Type} (l : Layer) (env : Env R) (target : Target) (prompt query label : String)
    (spend : Option SpendContext) : GuardedRun :=
  match targetClient env target with
  | some client => guardedRun l client prompt query label spend
  | none => ⟨[], none, none⟩

end CyClaw.Guardrails

/-
`mcp_hybrid_server.py`: a tool over lines of JSON.

`main` reads a line, has it parsed, handled and answered, and goes on with the next one.  What
the handling raises is answered with an error; a line that is not JSON is too.  `json.loads` can
also raise `RecursionError`, which nothing catches.

Whether a line is parsed, what the retriever, the filter and the audit log do with it, and
whether a response can be written are all left open, and may be different from line to line.
-/
import CyClaw.Lib.PyValue
import CyClaw.Retrieval.HybridSearch

namespace CyClaw.Mcp

open PyText Retrieval

abbrev Text := List Char

/-- An `Exception`. -/
inductive Raised where
  | promptInjection (message : Text)
  | rag (code message : Text)
  | other (text : Text)

/-- `str(e)`. -/
def Raised.text : Raised → Text
  | promptInjection message => message
  | rag _ message => message
  | other text => text

inductive Mode where
  | hybrid
  | semantic
  | keyword
deriving DecidableEq

def Mode.name : Mode → Text
  | hybrid => "hybrid".toList
  | semantic => "semantic".toList
  | keyword => "keyword".toList

def str (t : String) : PyValue := .str t.toList

def object (fields : List (String × PyValue)) : PyValue := .dict (fields.map fun field => (field.1.toList, field.2))

def isText (x : Option PyValue) (t : String) : Bool :=
  match x with
  | some (.str t') => t' = t.toList
  | _ => false

/-- `_error`. -/
def error (msgId : PyValue) (code : ℤ) (message : Text) : PyValue :=
  object [("jsonrpc", str "2.0"), ("id", msgId),
    ("error", object [("code", .int code), ("message", .str message)])]

def result (msgId payload : PyValue) : PyValue :=
  object [("jsonrpc", str "2.0"), ("id", msgId), ("result", payload)]

/-- What a line meets. -/
structure Surroundings where
  checkInput : Text → Except Raised Unit
  auditLog : PyValue → Except Raised Unit
  semanticSearch : Text → ℕ → Except Raised (List SearchResult)
  keywordSearch : Text → ℕ → Except Raised (List SearchResult)
  hybridSearch : Text → Except Raised (List SearchResult)
  /-- A value within a message; one that is nested too deep has no text. -/
  describe : PyValue → Except Raised Text
  /-- Whether `json.dumps` takes a response. -/
  dumps : PyValue → Except Raised Unit
  dumps_error : ∀ msgId code message, dumps (error msgId code message) = .ok ()

inductive Loads where
  | value (msg : PyValue)
  | decodeError (message : Text)
  | recursionError

structure Server where
  formats : PyValue.Formats
  redactSensitive : Text → Text
  loads : Text → Loads

structure Line where
  text : Text
  surroundings : Surroundings

/-! ### The tool -/

def capabilities : PyValue := object [("tools", object []), ("sampling", .none)]

def tools : PyValue :=
  .list [object [
    ("name", str "hybrid_search"),
    ("description", str "Search local .md corpus using semantic + keyword retrieval with RRF fusion"),
    ("inputSchema", object [
      ("type", str "object"),
      ("properties", object [
        ("query", object [("type", str "string"), ("description", str "Search query")]),
        ("top_k", object [
          ("type", str "integer"), ("default", .int 5), ("minimum", .int 1), ("maximum", .int 50),
          ("description", str ("Max results (clamped to [1, 50] server-side; non-integer or " ++
            "out-of-range values fall back to the default of 5)"))]),
        ("mode", object [
          ("type", str "string"), ("enum", .list [str "hybrid", str "semantic", str "keyword"]),
          ("default", str "hybrid"), ("description", str "Retrieval mode")])]),
      ("required", .list [str "query"])])]]

def defaultTopK : ℕ := 5

def maxTopK : ℕ := 50

def maxQueryChars : ℕ := 65536

/-- `_coerce_top_k`: of what `int` raises, an `OverflowError` is let pass. -/
def coerceTopK (f : PyValue.Formats) (raw : PyValue) : Except Raised ℕ :=
  match raw.toInt f with
  | .ok value => if value < 1 then .ok defaultTopK else .ok (min value maxTopK).toNat
  | .error .overflowError => .error (.other "cannot convert float infinity to integer".toList)
  | .error _ => .ok defaultTopK

def retrievalMode (args : List (Text × PyValue)) : Mode :=
  let requested := PyValue.get args "mode"
  if isText requested "semantic" then .semantic else if isText requested "keyword" then .keyword else .hybrid

def topKArg (args : List (Text × PyValue)) : PyValue := (PyValue.get args "top_k").getD (.int defaultTopK)

def modeName : RetrievalMode → Text
  | .semantic => "semantic".toList
  | .keyword => "keyword".toList
  | .hybrid => "hybrid".toList

/-- `_score_scale`. -/
def scoreScale (mode : Mode) (results : List SearchResult) : String :=
  match mode with
  | .semantic => "cosine_similarity"
  | .keyword => "bm25_raw"
  | .hybrid =>
      if !results.isEmpty && results.all fun r => r.retrievalMode = .semantic then "cosine_similarity" else "rrf"

def chunk (r : SearchResult) : PyValue :=
  object [("text", .str r.text), ("score", .float (.num r.score)), ("source", .str r.source),
    ("chunk_id", .int r.chunkId), ("source_sha256", .str r.sourceSha256),
    ("stem_tags", .list ((r.stemTags.take 5).map .str)), ("mode", .str (modeName r.retrievalMode))]

def payload (query : Text) (mode : Mode) (results : List SearchResult) : PyValue :=
  object [("chunks", .list (results.map chunk)),
    ("metadata", object [("query", .str query), ("retrieval_mode", .str mode.name),
      ("total_results", .int results.length), ("score_scale", str (scoreScale mode results))])]

def blockedEvent (query : Text) : PyValue :=
  object [("event", str "prompt_injection_blocked"), ("query", .str query)]

def queryEvent (query : Text) (mode : Mode) (results : List SearchResult) : PyValue :=
  object [("event", str "mcp_rag_query"), ("query", .str query), ("retrieval_mode", .str mode.name),
    ("hit_count", .int results.length), ("top_score", .float (.num ((results.head?.map SearchResult.score).getD 0)))]

def errorEvent (query : Text) (mode : Mode) (text : Text) : PyValue :=
  object [("event", str "mcp_rag_error"), ("query", .str query), ("retrieval_mode", .str mode.name),
    ("error", .str text)]

section Handlers

variable (srv : Server) (s : Surroundings)

def retrieve (mode : Mode) (query : Text) (topK : ℕ) : Except Raised (List SearchResult) :=
  match mode with
  | .semantic => s.semanticSearch query topK
  | .keyword => s.keywordSearch query topK
  | .hybrid => (s.hybridSearch query).map fun results => results.take topK

/-- The inside of the `try` of `_handle_search`. -/
def search (mode : Mode) (query : Text) (topK : ℕ) : Except Raised PyValue := do
  let results ← retrieve s mode query topK
  s.auditLog (queryEvent query mode results)
  return payload query mode results

/-- Its `except RAGError`. -/
def searchRagError (msgId : PyValue) (mode : Mode) (query code message : Text) : Except Raised PyValue := do
  let text := code ++ ": ".toList ++ message
  s.auditLog (errorEvent query mode text)
  return error msgId (-32000) text

/-- Its `except` clauses. -/
def searchError (msgId : PyValue) (mode : Mode) (query : Text) : Raised → Except Raised PyValue
  | .promptInjection message => searchRagError s msgId mode query "PROMPT_INJECTION_BLOCKED".toList message
  | .rag code message => searchRagError s msgId mode query code message
  | .other text => do
      let safeErr := srv.redactSensitive text
      s.auditLog (errorEvent query mode safeErr)
      return error msgId (-32000) ("Search error: ".toList ++ safeErr)

/-- `_handle_search`. -/
def handleSearch (msgId : PyValue) (args : List (Text × PyValue)) : Except Raised PyValue :=
  match PyValue.get args "query" with
  | some (.str query) =>
      if query = [] then .ok (error msgId (-32602) "hybrid_search requires a non-empty string query".toList)
      else if maxQueryChars < query.length then
        .ok (error msgId (-32602) "hybrid_search query exceeds 65536 characters".toList)
      else
        match s.checkInput query with
        | .error (.promptInjection message) => do
            s.auditLog (blockedEvent query)
            return error msgId (-32602) message
        | .error e => .error e
        | .ok () => do
            let topK ← coerceTopK srv.formats (topKArg args)
            let mode := retrievalMode args
            match search s mode query topK with
            | .ok payload => return result msgId payload
            | .error e => searchError srv s msgId mode query e
  | _ => .ok (error msgId (-32602) "hybrid_search requires a non-empty string query".toList)

/-- The branch `tools/call` of `handle_message`. -/
def callTool (msgId : PyValue) (msg : List (Text × PyValue)) : Except Raised PyValue :=
  match (PyValue.get msg "params").getD (object []) with
  | .dict params =>
      match (PyValue.get params "arguments").getD (object []) with
      | .dict args =>
          if isText (PyValue.get params "name") "hybrid_search" then handleSearch srv s msgId args
          else do
            let name ← s.describe ((PyValue.get params "name").getD .none)
            return error msgId (-32601) ("Unknown tool: ".toList ++ name)
      | _ => .ok (error msgId (-32602) "tools/call arguments must be an object".toList)
  | _ => .ok (error msgId (-32602) "tools/call params must be an object".toList)

def idOf : PyValue → PyValue
  | .dict msg => (PyValue.get msg "id").getD .none
  | _ => .none

/-- `handle_message`. -/
def handleMessage : PyValue → Except Raised (Option PyValue)
  | .dict msg =>
      let method := PyValue.get msg "method"
      let msgId := idOf (.dict msg)
      if isText method "initialize" then
        .ok (some (result msgId (object [("protocolVersion", str "2025-11-25"), ("capabilities", capabilities),
          ("serverInfo", object [("name", str "cyclaw-hybrid-rag"), ("version", str "1.0.0")])])))
      else if isText method "tools/list" then .ok (some (result msgId (object [("tools", tools)])))
      else if isText method "tools/call" then (callTool srv s msgId msg).map some
      else if isText method "notifications/initialized" then .ok none
      else do
        let name ← s.describe (method.getD .none)
        return some (error msgId (-32601) ("Unknown method: ".toList ++ name))
  | _ => .ok (some (error .none (-32600) "Invalid Request".toList))

/-- The second `try` of a round: what is written. -/
def respond (msg : PyValue) : Except Raised (List PyValue) := do
  match ← handleMessage srv s msg with
  | none => return []
  | some response =>
      s.dumps response
      return [response]

end Handlers

/-! ### The loop -/

/-- A round of the loop, with what is written to stdout; `none` where it ends the process. -/
def serveLine (srv : Server) (line : Line) : Option (List PyValue) :=
  let text := strip line.text
  if text = [] then some []
  else
    match srv.loads text with
    | .decodeError message => some [error .none (-32700) ("Parse error: ".toList ++ message)]
    | .recursionError => none
    | .value msg =>
        match respond srv line.surroundings msg with
        | .ok out => some out
        | .error e => some [error (idOf msg) (-32000) ("Internal error: ".toList ++ srv.redactSensitive e.text)]

inductive Ended where
  | endOfInput
  | recursionError
  | exit1
deriving DecidableEq

/-- What was written for each of the lines that were read, and how it ended. -/
structure Run where
  outputs : List (List PyValue)
  ended : Ended

def serve (srv : Server) : List Line → Run
  | [] => ⟨[], .endOfInput⟩
  | line :: lines =>
      match serveLine srv line with
      | none => ⟨[], .recursionError⟩
      | some out =>
          let rest := serve srv lines
          ⟨out :: rest.outputs, rest.ended⟩

inductive Start where
  /-- `ManifestDriftError`. -/
  | drift
  /-- The retriever is not built. -/
  | failed
  | ready
deriving DecidableEq

def main (srv : Server) (start : Start) (lines : List Line) : Run :=
  match start with
  | .ready => serve srv lines
  | _ => ⟨[], .exit1⟩

end CyClaw.Mcp

/-
`detect_sequences` of `utils/sequence_detect.py`.

A row that was logged is any value of JSON.  Times are microseconds from the first day of year 1,
and one that has no place in the years 1 to 9999 once it is in UTC raises.  The texts that
`fromisoformat` reads and `isoformat` writes are left open.
-/
import CyClaw.Lib.Bisect
import CyClaw.Lib.PyValue
import Mathlib.Data.Char
import Mathlib.Data.List.Lex
import Mathlib.Data.List.Sort

namespace CyClaw.SequenceDetect

open PyText

abbrev Text := List Char

abbrev Row := List (Text × PyValue)

/-- A `datetime`: the time on the clock, and what it is ahead of UTC where that is known. -/
structure Stamp where
  clock : ℤ
  utcoffset : Option ℤ

structure Env where
  /-- `str.lower` -/
  lower : Text → Text
  /-- `none` where it raises ValueError. -/
  fromisoformat : Text → Option Stamp
  isoformat : ℤ → Text

/-- What is raised. -/
inductive Raised where
  | overflowError
  | typeError
  | indexError
deriving DecidableEq

/-- The microseconds of the years 1 to 9999. -/
def clockLimit : ℤ := 3652059 * 86400 * 1000000

/-- `parsed.astimezone(UTC)`, a time without a zone being one of UTC. -/
def Stamp.astimezone (s : Stamp) : Except Raised ℤ :=
  match s.utcoffset with
  | none => .ok s.clock
  | some offset =>
      if offset = 0 then .ok s.clock
      else if 0 ≤ s.clock - offset ∧ s.clock - offset < clockLimit then .ok (s.clock - offset)
      else .error .overflowError

def isQueryHash (t : Text) : Bool :=
  t.length = 64 && t.all fun c => ('0' ≤ c && c ≤ '9') || ('a' ≤ c && c ≤ 'f')

def normalizedHash : Option PyValue → Option Text
  | some (.str t) => if isQueryHash t then some t else none
  | _ => none

/-- `value.replace("Z", "+00:00")` -/
def replaceZ (t : Text) : Text := t.flatMap fun c => if c = 'Z' then "+00:00".toList else [c]

def parseTs (env : Env) : Option PyValue → Except Raised (Option ℤ)
  | some (.str t) =>
      if strip t = [] then .ok none
      else
        match env.fromisoformat (replaceZ t) with
        | none => .ok none
        | some stamp => stamp.astimezone.map some
  | _ => .ok none

/-- `x in names`, of a frozenset: a list and a dictionary have no hash. -/
def inNames (names : List String) : Option PyValue → Except Raised Bool
  | some (.list _) => .error .typeError
  | some (.dict _) => .error .typeError
  | some (.str t) => .ok (names.any fun name => t = name.toList)
  | _ => .ok false

def injectionEvents : List String :=
  ["prompt_injection_blocked", "memory_apply_injection_blocked", "soul_apply_injection_blocked"]

def ragEvents : List String := ["rag_query", "mcp_rag_query"]

def onlineModels : List String := ["grok", "claude"]

def safeKeys : List String :=
  ["event", "timestamp", "query_hash", "model_used", "online_escalated", "pre_action_hook_denied", "provider", "model",
    "source"]

inductive Kind where
  | audit
  | spend
deriving DecidableEq

structure SafeEvent where
  kind : Kind
  fields : Row

def safeEvent (row : Row) (kind : Kind) : SafeEvent where
  kind := kind
  fields := safeKeys.filterMap fun key => (PyValue.get row key).map (key.toList, ·)

def isTrue : Option PyValue → Bool
  | some (.bool true) => true
  | _ => false

/-- Whether the model is one that is asked online. -/
def isOnlineModel (env : Env) : Option PyValue → Bool
  | some (.str model) =>
      let lowered := env.lower (strip model)
      onlineModels.any fun name => lowered = name.toList || name.toList.isPrefixOf lowered
  | _ => false

def isOnlineRag (env : Env) (row : Row) : Except Raised Bool :=
  (inNames ragEvents (PyValue.get row "event")).map fun isRag =>
    isRag && (isTrue (PyValue.get row "online_escalated") || isOnlineModel env (PyValue.get row "model_used"))

def isInjection (row : Row) : Except Raised Bool := inNames injectionEvents (PyValue.get row "event")

def isHookDenied (row : Row) : Bool := isTrue (PyValue.get row "pre_action_hook_denied")

inductive Rule where
  | repeatHash
  | injectionThenOnlineRag
  | injectionThenExternalSpend
  | hookDeniedThenSpend
  | windowInjectionToEscalation
  | unjoinableQuerySpend
deriving DecidableEq

def Rule.name : Rule → String
  | repeatHash => "repeat_hash"
  | injectionThenOnlineRag => "injection_then_online_rag"
  | injectionThenExternalSpend => "injection_then_external_spend"
  | hookDeniedThenSpend => "hook_denied_then_spend"
  | windowInjectionToEscalation => "window_injection_to_escalation"
  | unjoinableQuerySpend => "unjoinable_query_spend"

structure Finding where
  rule : Rule
  queryHash : Option Text
  windowStart : Option Text
  windowEnd : Option Text
  count : ℕ
  events : List SafeEvent

/-! ### Rows -/

/-- A row with a time and a hash. -/
structure Event where
  ts : ℤ
  hash : Text
  row : Row

/-- A row of audit.jsonl, where it is joined. -/
def readAudit (env : Env) : PyValue → Except Raised (Option Event)
  | .dict row =>
      (parseTs env (PyValue.get row "timestamp")).map fun ts =>
        match ts, normalizedHash (PyValue.get row "query_hash") with
        | some ts, some hash => some ⟨ts, hash, row⟩
        | _, _ => none
  | _ => .ok none

inductive SpendRow where
  | skipped
  | agentic
  | unjoinable
  | event (e : Event)

/-- `source.strip().lower()`, of a text. -/
def sourceOf (env : Env) (row : Row) : Option Text :=
  match PyValue.get row "source" with
  | some (.str source) => some (env.lower (strip source))
  | _ => none

/-- A row of spend.jsonl. -/
def readSpend (env : Env) : PyValue → Except Raised SpendRow
  | .dict row =>
      if sourceOf env row = some "agentic".toList then .ok .agentic
      else if sourceOf env row ≠ some "query".toList then .ok .skipped
      else
        (parseTs env (PyValue.get row "timestamp")).map fun ts =>
          match normalizedHash (PyValue.get row "query_hash"), ts with
          | none, _ => .unjoinable
          | some _, none => .skipped
          | some hash, some ts => .event ⟨ts, hash, row⟩
  | _ => .ok .skipped

def SpendRow.event? : SpendRow → Option Event
  | event e => some e
  | _ => none

def SpendRow.isAgentic : SpendRow → Bool
  | agentic => true
  | _ => false

def SpendRow.isUnjoinable : SpendRow → Bool
  | unjoinable => true
  | _ => false

/-! ### The rules of a hash -/

/-- `[e for e in events if p(e.row)]` -/
def filterRows (p : Row → Except Raised Bool) : List Event → Except Raised (List Event)
  | [] => .ok []
  | e :: es => do
      let holds ← p e.row
      let rest ← filterRows p es
      return if holds then e :: rest else rest

def sortByTs (events : List Event) : List Event := events.insertionSort fun a b => a.ts ≤ b.ts

def finding (env : Env) (rule : Rule) (queryHash : Option Text) (start stop : ℤ) (events : List SafeEvent) : Finding where
  rule := rule
  queryHash := queryHash
  windowStart := some (env.isoformat start)
  windowEnd := some (env.isoformat stop)
  count := events.length
  events := events

def repeatHash (env : Env) (minRepeat : ℤ) (hash : Text) (aRows : List Event) : Except Raised (List Finding) :=
  if minRepeat ≤ aRows.length then
    match aRows.head?, aRows.getLast? with
    | some first, some last =>
        .ok [finding env .repeatHash (some hash) first.ts last.ts (aRows.map fun e => safeEvent e.row .audit)]
    | _, _ => .error .indexError
  else .ok []

/-- The first of `froms`, and the first of `tos` after it. -/
def chain (env : Env) (rule : Rule) (hash : Text) (kind : Kind) (froms tos : List Event) : List Finding :=
  match froms.head? with
  | none => []
  | some first =>
      match (tos.filter fun e => first.ts < e.ts).head? with
      | none => []
      | some later =>
          [finding env rule (some hash) first.ts later.ts [safeEvent first.row .audit, safeEvent later.row kind]]

/-- The findings about a hash. -/
def hashFindings (env : Env) (minRepeat : ℤ) (hash : Text) (aRows sRows : List Event) : Except Raised (List Finding) := do
  let repeated ← repeatHash env minRepeat hash aRows
  let injections ← filterRows isInjection aRows
  let online ← filterRows (isOnlineRag env) aRows
  let denied := aRows.filter fun e => isHookDenied e.row
  return repeated ++ chain env .injectionThenOnlineRag hash .audit injections online ++
    chain env .injectionThenExternalSpend hash .spend injections sRows ++
    chain env .hookDeniedThenSpend hash .spend denied sRows

/-! ### The window -/

structure Escalation where
  event : Event
  kind : Kind

def Escalation.ts (e : Escalation) : ℤ := e.event.ts

def sortEscalations (escalations : List Escalation) : List Escalation := escalations.insertionSort fun a b => a.ts ≤ b.ts

/-- The loop from `start_idx` on. -/
def scanWindow (window : ℤ) (inj : Event) : List Escalation → Option Escalation
  | [] => none
  | e :: es =>
      if e.event.hash = inj.hash then scanWindow window inj es
      else if window < e.ts - inj.ts then none
      else some e

def matchEscalation (window : ℤ) (escalations : List Escalation) (inj : Event) : Option Escalation :=
  scanWindow window inj (escalations.drop (Bisect.bisectRight (escalations.map Escalation.ts) inj.ts))

def windowFinding (env : Env) (inj : Event) (e : Escalation) : Finding :=
  finding env .windowInjectionToEscalation none inj.ts e.ts [safeEvent inj.row .audit, safeEvent e.event.row e.kind]

def unjoinableFinding (unjoinable : ℕ) : List Finding :=
  if unjoinable = 0 then [] else [⟨.unjoinableQuerySpend, none, none, none, unjoinable, []⟩]

/-! ### `detect_sequences` -/

/-- The key of the last sort. -/
def Finding.key (f : Finding) : Text × Text × Text := (f.windowStart.getD [], f.rule.name.toList, f.queryHash.getD [])

/-- Tuples of texts are compared from the left. -/
def keyLe (a b : Text × Text × Text) : Bool :=
  a.1 < b.1 || a.1 = b.1 && (a.2.1 < b.2.1 || a.2.1 = b.2.1 && a.2.2 ≤ b.2.2)

structure Detection where
  findings : List Finding
  agenticSpendSkipped : ℕ
  unjoinableQuerySpend : ℕ

def hashesOf (audit spend : List Event) : List Text :=
  ((audit ++ spend).map Event.hash).dedup.insertionSort (· ≤ ·)

def ofHash (hash : Text) (events : List Event) : List Event := sortByTs (events.filter fun e => e.hash = hash)

def detectSequences (env : Env) (window minRepeat : ℤ) (auditRows spendRows : List PyValue) : Except Raised Detection := do
  let audit := (← auditRows.mapM (readAudit env)).reduceOption
  let rows ← spendRows.mapM (readSpend env)
  let spend := rows.filterMap SpendRow.event?
  let unjoinable := rows.countP SpendRow.isUnjoinable
  let byHash ← (hashesOf audit spend).mapM fun hash =>
    hashFindings env minRepeat hash (ofHash hash audit) (ofHash hash spend)
  let injections ← filterRows isInjection audit
  let online ← filterRows (isOnlineRag env) audit
  let escalations := sortEscalations (online.map (⟨·, .audit⟩) ++ spend.map (⟨·, .spend⟩))
  let windows := injections.filterMap fun inj => (matchEscalation window escalations inj).map (windowFinding env inj)
  let findings := byHash.flatten ++ windows ++ unjoinableFinding unjoinable
  return ⟨findings.insertionSort fun a b => keyLe a.key b.key, rows.countP SpendRow.isAgentic, unjoinable⟩

end CyClaw.SequenceDetect

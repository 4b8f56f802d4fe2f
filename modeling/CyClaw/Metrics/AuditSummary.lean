/-
`summarize_audit` of `metrics.py`, and the readers that it stands for.

A file is the list of its lines; one that is missing is read as one without lines.  What a reader
yields goes to its consumer one event at a time, so what it raises comes after what its consumer
raises of an earlier line.  The one pass over the file is a reader and a counter at once
(`summarizeAudit_eq`).
-/
import CyClaw.Audit.SequenceDetect
import CyClaw.Lib.Binary64
import CyClaw.Lib.Fallible

namespace CyClaw.Metrics

open PyText Fallible

abbrev Text := List Char

abbrev Row := List (Text × PyValue)

/-- What `json.loads` says of a line. -/
inductive Loaded where
  | value (x : PyValue)
  /-- JSONDecodeError -/
  | decodeError
  /-- Another exception: of a number with too many digits, or of too deep a nesting. -/
  | raises (e : PyError)

/-- What the readers rely on. -/
structure Env extends SequenceDetect.Env where
  loads : Text → Loaded
  /-- The line is a JSON object by its grammar, however large. -/
  isObject : Text → Bool
  loads_blank : ∀ t, strip t = [] → loads t = .decodeError
  isObject_value : ∀ t x, loads t = .value x → (isObject t = true ↔ ∃ row, x = .dict row)
  isObject_decodeError : ∀ t, loads t = .decodeError → isObject t = false
  formats : PyValue.Formats
  /-- How deep the recursion of `repr` may go. -/
  room : ℕ

/-! ### Readers -/

section Readers

variable (env : Env)

/-- What a line adds to what `iter_events` yields: an event, or what it raises. -/
def readLine (line : Text) : Option (Except PyError Row) :=
  match env.loads line with
  | .value (.dict row) => some (.ok row)
  | .value _ => none
  | .decodeError => none
  | .raises e => some (.error e)

/-- `iter_events` and `iter_spend` -/
def iterEvents (lines : List Text) : List (Except PyError Row) := lines.filterMap (readLine env)

/-- `load_events` -/
def loadEvents (lines : List Text) : Except PyError (List Row) := (iterEvents env lines).mapM id

end Readers

/-- `x in names`, of a tuple of texts. -/
def isText (names : List String) : Option PyValue → Bool
  | some (.str t) => names.any fun name => t = name.toList
  | _ => false

def isTrue : Option PyValue → Bool
  | some (.bool true) => true
  | _ => false

def ragEvents : List String := ["rag_query", "mcp_rag_query"]

structure Integrity where
  malformedLines : ℕ
  eventsWithRawQuery : ℕ
  ragEventsMissingQueryHash : ℕ
deriving DecidableEq

def noIssues : Integrity := ⟨0, 0, 0⟩

def Integrity.malformed (i : Integrity) : Integrity := { i with malformedLines := i.malformedLines + 1 }

/-- The issues of an event. -/
def Integrity.event (i : Integrity) (e : Row) : Integrity where
  malformedLines := i.malformedLines
  eventsWithRawQuery := i.eventsWithRawQuery + if (PyValue.get e "query").isSome then 1 else 0
  ragEventsMissingQueryHash := i.ragEventsMissingQueryHash +
    if isText ragEvents (PyValue.get e "event") && (PyValue.get e "query_hash").isNone then 1 else 0

def integrityLine (env : Env) (i : Integrity) (line : Text) : Except PyError Integrity :=
  if strip line = [] then .ok i
  else
    match env.loads line with
    | .value (.dict e) => .ok (i.event e)
    | .value _ => .ok i.malformed
    | .decodeError => .ok i.malformed
    | .raises e => .error e

/-- `compute_audit_integrity` -/
def computeAuditIntegrity (env : Env) (lines : List Text) : Except PyError Integrity :=
  lines.foldlM (integrityLine env) noIssues

/-! ### Counters -/

abbrev Counter := List (Text × ℕ)

/-- `counter[key] += 1` -/
def Counter.bump : Counter → Text → Counter
  | [], key => [(key, 1)]
  | (key', n) :: rest, key => if key' = key then (key', n + 1) :: rest else (key', n) :: Counter.bump rest key

/-- `dict(counter.most_common())` -/
def Counter.mostCommon (c : Counter) : Counter := c.insertionSort fun a b => b.2 ≤ a.2

/-- `_bucket_key` -/
def bucketKey : Option PyValue → Text
  | some (.str t) => t
  | _ => "unknown".toList

/-- A number that `math.isfinite` holds of. -/
inductive Score where
  | int (n : ℤ)
  | float (q : ℚ)
deriving DecidableEq

def Score.value : Score → ℚ
  | int n => n
  | float q => q

/-- What is added to the sum. -/
def Score.toFloat : Score → PyFloat
  | int n => .ofRat n
  | float q => .num q

/-- The score of an event if it has one that counts; a whole number is converted to ask whether it is finite. -/
def finiteScore : Option PyValue → Except PyError (Option Score)
  | some (.int n) => (PyFloat.ofInt n).map fun _ => some (.int n)
  | some (.float (.num q)) => .ok (some (.float q))
  | _ => .ok none

/-- `str(x)` -/
def strOf (env : Env) (x : PyValue) : Except PyError Text :=
  if env.room < x.nesting then .error .recursionError else .ok (x.text env.formats)

/-! ### `compute_metrics` -/

/-- What is counted. -/
structure Tally where
  total : ℕ
  eventCounts : Counter
  ragQueryCount : ℕ
  scoreSum : PyFloat
  scoreN : ℕ
  scoreMin : Option Score
  scoreMax : Option Score
  modeCounts : Counter
  modelCounts : Counter
  onlineEscalated : ℕ
  guardrailBlockedCount : ℕ
  guardrailDegradedCount : ℕ
  injectionTotal : ℕ
  injectionCodes : Counter
  injectionFields : Counter
  injectionRepos : Counter
  injectionPatterns : Counter

def emptyTally : Tally := ⟨0, [], 0, .num 0, 0, none, none, [], [], 0, 0, 0, 0, [], [], [], []⟩

def countGuardrails (t : Tally) (e : Row) : Tally :=
  { t with
    total := t.total + 1
    eventCounts := t.eventCounts.bump (bucketKey (PyValue.get e "event"))
    guardrailBlockedCount := t.guardrailBlockedCount + if isTrue (PyValue.get e "guardrail_blocked") then 1 else 0
    guardrailDegradedCount := t.guardrailDegradedCount + if isTrue (PyValue.get e "guardrail_degraded") then 1 else 0 }

def patternsOf (e : Row) : List PyValue :=
  match PyValue.get e "patterns" with
  | some (.list patterns) => patterns
  | _ => []

/-- `INJECTION_EVENT` -/
def injectionEvent : String := "agentic_context_injection_finding"

def countInjection (t : Tally) (e : Row) : Tally :=
  if isText [injectionEvent] (PyValue.get e "event") then
    { t with
      injectionTotal := t.injectionTotal + 1
      injectionCodes := t.injectionCodes.bump (bucketKey (PyValue.get e "code"))
      injectionFields := t.injectionFields.bump (bucketKey (PyValue.get e "field"))
      injectionRepos := t.injectionRepos.bump (bucketKey (PyValue.get e "repo"))
      injectionPatterns := (patternsOf e).foldl (fun c p => c.bump (bucketKey (some p))) t.injectionPatterns }
  else t

/-- The least, or the greatest, by `better`. -/
def bestScore (better : ℚ → ℚ → Bool) (best : Option Score) (s : Score) : Score :=
  match best with
  | none => s
  | some b => if better s.value b.value then s else b

def addScore (t : Tally) : Option Score → Tally
  | none => t
  | some s =>
      { t with
        scoreSum := t.scoreSum.add s.toFloat
        scoreN := t.scoreN + 1
        scoreMin := some (bestScore (fun a b => a < b) t.scoreMin s)
        scoreMax := some (bestScore (fun a b => b < a) t.scoreMax s) }

/-- The model of an answer, which is no empty text. -/
def modelUsed (e : Row) : Option Text :=
  match PyValue.get e "model_used" with
  | some (.str (c :: t)) => some (c :: t)
  | _ => none

def countRag (t : Tally) (e : Row) : Except PyError Tally :=
  if isText ragEvents (PyValue.get e "event") then
    (finiteScore (PyValue.get e "top_score")).map fun s =>
      let t := addScore { t with ragQueryCount := t.ragQueryCount + 1 } s
      let mode := PyValue.orElse (PyValue.get e "retrieval_mode") ((PyValue.get e "mode").getD .none)
      { t with
        modeCounts := t.modeCounts.bump (bucketKey (some mode))
        modelCounts := (modelUsed e).elim t.modelCounts t.modelCounts.bump }
  else .ok t

/-- The event says of itself that an external model was asked. -/
def saysOnline (e : Row) : Bool :=
  isTrue (PyValue.get e "online_escalated") || isTrue (PyValue.get e "user_confirmed_online")

def isOnline (env : Env) (e : Row) : Except PyError Bool :=
  if saysOnline e then .ok true
  else
    (strOf env ((PyValue.get e "model_used").getD (.str []))).map fun model =>
      ["grok", "claude"].any fun name => name.toList.isPrefixOf (env.lower model)

def countOnline (env : Env) (t : Tally) (e : Row) : Except PyError Tally :=
  (isOnline env e).map fun online => if online then { t with onlineEscalated := t.onlineEscalated + 1 } else t

/-- The loop's body. -/
def countEvent (env : Env) (t : Tally) (e : Row) : Except PyError Tally :=
  (countRag (countInjection (countGuardrails t e) e) e).bind fun t => countOnline env t e

structure InjectionFindings where
  total : ℕ
  byCode : Counter
  byField : Counter
  byRepo : Counter
  byPattern : Counter

structure Scores where
  avg : Option PyFloat
  min : Option Score
  max : Option Score

structure Aggregates where
  totalEvents : ℕ
  eventBreakdown : Counter
  ragQueryCount : ℕ
  scores : Scores
  retrievalModes : Counter
  modelUsed : Counter
  onlineEscalated : ℕ
  guardrailBlockedCount : ℕ
  guardrailDegradedCount : ℕ
  injectionFindings : InjectionFindings

def Tally.aggregates (t : Tally) : Aggregates where
  totalEvents := t.total
  eventBreakdown := t.eventCounts.mostCommon
  ragQueryCount := t.ragQueryCount
  scores := if t.scoreN = 0 then ⟨none, none, none⟩ else ⟨some (t.scoreSum.quotient t.scoreN), t.scoreMin, t.scoreMax⟩
  retrievalModes := t.modeCounts.mostCommon
  modelUsed := t.modelCounts.mostCommon
  onlineEscalated := t.onlineEscalated
  guardrailBlockedCount := t.guardrailBlockedCount
  guardrailDegradedCount := t.guardrailDegradedCount
  injectionFindings := ⟨t.injectionTotal, t.injectionCodes.mostCommon, t.injectionFields.mostCommon,
    t.injectionRepos.mostCommon, t.injectionPatterns.mostCommon⟩

/-- An event that is yielded is counted, and what is raised goes through. -/
def countItem (env : Env) (t : Tally) (item : Except PyError Row) : Except PyError Tally := item.bind (countEvent env t)

def computeMetrics (env : Env) (events : List (Except PyError Row)) : Except PyError Aggregates :=
  (events.foldlM (countItem env) emptyTally).map Tally.aggregates

/-! ### `summarize_audit` -/

structure Summary where
  metrics : Aggregates
  auditIntegrity : Integrity

/-- A line of the one pass, which `_events` yields or counts. -/
def summaryLine (env : Env) (s : Tally × Integrity) (line : Text) : Except PyError (Tally × Integrity) :=
  if strip line = [] then .ok s
  else
    match env.loads line with
    | .value (.dict e) => (countEvent env s.1 e).map fun t => (t, s.2.event e)
    | .value _ => .ok (s.1, s.2.malformed)
    | .decodeError => .ok (s.1, s.2.malformed)
    | .raises e => .error e

def summarizeAudit (env : Env) (lines : List Text) : Except PyError Summary :=
  (lines.foldlM (summaryLine env) (emptyTally, noIssues)).map fun s => ⟨s.1.aggregates, s.2⟩

/-! ### The one pass -/

section OnePass

variable (env : Env)

theorem readLine_blank {line : Text} (h : strip line = []) : readLine env line = none := by
  rw [readLine, env.loads_blank line h]

/-- A pass that counts and looks for issues at once. -/
theorem foldlM_summaryLine (lines : List Text) (t : Tally) (i : Integrity) :
    lines.foldlM (summaryLine env) (t, i) =
      ((iterEvents env lines).foldlM (countItem env) t).bind fun t' =>
        (lines.foldlM (integrityLine env) i).map fun i' => (t', i') := by
  induction lines generalizing t i with
  | nil => rfl
  | cons line lines ih =>
    rw [foldlM_cons, foldlM_cons, iterEvents, List.filterMap_cons, summaryLine, integrityLine]
    by_cases hblank : strip line = []
    · rw [if_pos hblank, if_pos hblank, readLine_blank env hblank]
      exact ih t i
    · rw [if_neg hblank, if_neg hblank, readLine]
      cases hload : env.loads line with
      | decodeError => exact ih t i.malformed
      | raises e => rfl
      | value x =>
        cases x with
        | dict e =>
          dsimp only
          rw [foldlM_cons, countItem, Except.bind]
          cases hcount : countEvent env t e with
          | error e' => rfl
          | ok t' => exact ih t' (i.event e)
        | _ => exact ih t i.malformed

/-- **The one pass is the two.** -/
theorem summarizeAudit_eq (lines : List Text) : summarizeAudit env lines =
    (computeMetrics env (iterEvents env lines)).bind fun metrics =>
      (computeAuditIntegrity env lines).map fun integrity => ⟨metrics, integrity⟩ := by
  rw [summarizeAudit, foldlM_summaryLine, computeMetrics, computeAuditIntegrity]
  cases (iterEvents env lines).foldlM (countItem env) emptyTally with
  | error e => rfl
  | ok t => cases lines.foldlM (integrityLine env) noIssues <;> rfl

end OnePass

end CyClaw.Metrics

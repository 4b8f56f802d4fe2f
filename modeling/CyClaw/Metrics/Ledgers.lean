/-
What a line of a ledger can do to the metrics.

A line that no reader yields adds nothing to what its consumers see (`iterEvents_insert`), and each event is
counted whatever has been counted before it, so whether a report returns is a question about each line and
each event by itself.  Not every line that is no object is passed over, though, and not every object that is
read can be counted: the numbers and the times that are too large raise (`robust_iff`).
-/
import CyClaw.Audit.SequenceRules
import CyClaw.Metrics.Spend

namespace CyClaw.Metrics

open PyText Fallible

/-- What `detect_sequences` of the two files raises. -/
inductive Failure where
  | reading (e : PyError)
  | searching (e : SequenceDetect.Raised)

/-- `detect_sequences(load_events(audit_file), list(iter_spend(spend_file)))` -/
def detect (env : Env) (window minRepeat : ℤ) (audit spend : List Text) : Except Failure SequenceDetect.Detection := do
  let auditRows ← (loadEvents env audit).mapError .reading
  let spendRows ← (loadEvents env spend).mapError .reading
  (SequenceDetect.detectSequences env.toEnv window minRepeat (auditRows.map .dict) (spendRows.map .dict)).mapError
    .searching

/-- All but `malformed_lines`. -/
def Integrity.evidence (i : Integrity) : Integrity := { i with malformedLines := 0 }

def Summary.evidence (s : Summary) : Summary := { s with auditIntegrity := s.auditIntegrity.evidence }

/-- **No line takes down the metrics**: they return, a line more that is no object does not show in them but as
malformed, and the one pass is the two. -/
structure Robust (env : Env) (now : SequenceDetect.Stamp) (window minRepeat : ℤ) (audit spend : List Text)
    (line : Text) : Prop where
  summarizes : Returns (summarizeAudit env audit)
  spends : Returns (computeSpend env now (iterEvents env spend))
  detects : Returns (detect env window minRepeat audit spend)
  auditLine : env.isObject line = false → ∀ before after, audit = before ++ after →
    (summarizeAudit env (before ++ line :: after)).map Summary.evidence =
        (summarizeAudit env audit).map Summary.evidence ∧
      detect env window minRepeat (before ++ line :: after) spend = detect env window minRepeat audit spend
  spendLine : env.isObject line = false → ∀ before after, spend = before ++ after →
    computeSpend env now (iterEvents env (before ++ line :: after)) = computeSpend env now (iterEvents env spend) ∧
      detect env window minRepeat audit (before ++ line :: after) = detect env window minRepeat audit spend
  onePass : summarizeAudit env audit = (computeMetrics env (iterEvents env audit)).bind fun metrics =>
    (computeAuditIntegrity env audit).map fun integrity => ⟨metrics, integrity⟩

/-! ### What can be counted -/

/-- The events of a file. -/
def rowsOf (env : Env) (lines : List Text) : List Row :=
  lines.filterMap fun line =>
    match env.loads line with
    | .value (.dict row) => some row
    | _ => none

/-- `json.loads` raises nothing but JSONDecodeError. -/
def Loads (env : Env) (line : Text) : Prop := ∀ e, env.loads line ≠ .raises e

/-- The score of a query can be converted, and the model's name written out. -/
structure Countable (env : Env) (e : Row) : Prop where
  score : isText ragEvents (PyValue.get e "event") = true →
    ∀ n, PyValue.get e "top_score" = some (.int n) → n.natAbs < PyValue.floatLimit
  model : saysOnline e = false → ∀ x, PyValue.get e "model_used" = some x → x.nesting ≤ env.room

/-- Every line can be loaded, and every event counted. -/
structure Sound (env : Env) (now : SequenceDetect.Stamp) (minRepeat : ℤ) (audit spend : List Text)
    (line : Text) : Prop where
  auditLoads : ∀ l ∈ audit, Loads env l
  spendLoads : ∀ l ∈ spend, Loads env l
  lineLoads : env.isObject line = false → Loads env line
  clock : Returns (todayOf now)
  countable : ∀ e ∈ rowsOf env audit, Countable env e
  priceable : ∀ today, todayOf now = .ok today → ∀ e ∈ rowsOf env spend, Priceable env today e
  readable : SequenceDetect.Readable env.toEnv minRepeat ((rowsOf env audit).map .dict) ((rowsOf env spend).map .dict)

section Ledgers

variable {env : Env} {now : SequenceDetect.Stamp} {window minRepeat : ℤ} {audit spend lines before after : List Text}
  {line : Text} {e : Row} {t : Tally} {i j : Integrity}

/-! ### Lines -/

/-- What each item of a reader is known by. -/
theorem forall_iterEvents {P : Row → Prop} : (∀ item ∈ iterEvents env lines, ∃ row, item = .ok row ∧ P row) ↔
    (∀ l ∈ lines, Loads env l) ∧ ∀ row ∈ rowsOf env lines, P row := by
  induction lines with
  | nil => simp [iterEvents, rowsOf]
  | cons line lines ih =>
    rw [iterEvents, rowsOf] at ih ⊢
    rw [List.forall_mem_cons, List.filterMap_cons, List.filterMap_cons, readLine, Loads]
    cases hload : env.loads line with
    | decodeError => simpa using ih
    | raises e => simp
    | value x =>
      cases x with
      | dict row =>
        simp only [List.forall_mem_cons, ih]
        simp [and_left_comm]
      | _ => simpa using ih

theorem readLine_eq_none (hobject : env.isObject line = false) (hload : Loads env line) : readLine env line = none := by
  rw [readLine]
  cases h : env.loads line with
  | decodeError => rfl
  | raises e => exact absurd h (hload e)
  | value x =>
    cases x with
    | dict row =>
      have hiff := env.isObject_value line _ h
      rw [hobject] at hiff
      exact absurd (hiff.mpr ⟨row, rfl⟩) Bool.false_ne_true
    | _ => rfl

/-- **A line that is passed over is not there.** -/
theorem iterEvents_insert (h : readLine env line = none) :
    iterEvents env (before ++ line :: after) = iterEvents env (before ++ after) := by
  rw [iterEvents, iterEvents, List.filterMap_append, List.filterMap_cons, h, List.filterMap_append]

theorem loadEvents_eq (hload : ∀ l ∈ lines, Loads env l) : loadEvents env lines = .ok (rowsOf env lines) := by
  rw [loadEvents, iterEvents, rowsOf]
  induction lines with
  | nil => rfl
  | cons line lines ih =>
    obtain ⟨hline, hlines⟩ := List.forall_mem_cons.mp hload
    rw [List.filterMap_cons, List.filterMap_cons, readLine]
    cases h : env.loads line with
    | decodeError => exact ih hlines
    | raises e => exact absurd h (hline e)
    | value x =>
      cases x with
      | dict row =>
        dsimp only
        rw [List.mapM_cons, ih hlines]
        rfl
      | _ => exact ih hlines

theorem loadEvents_returns : Returns (loadEvents env lines) ↔ ∀ l ∈ lines, Loads env l := by
  constructor
  · rintro ⟨rows, hrows⟩
    have hitems : ∀ item ∈ iterEvents env lines, ∃ row, item = .ok row ∧ True := fun item hitem =>
      (ok_of_mapM hrows hitem).imp fun row hrow => ⟨hrow, trivial⟩
    exact (forall_iterEvents.mp hitems).1
  · exact fun hload => ⟨_, loadEvents_eq hload⟩

/-! ### Events -/

theorem finiteScore_returns {x : Option PyValue} :
    Returns (finiteScore x) ↔ ∀ n, x = some (.int n) → n.natAbs < PyValue.floatLimit := by
  unfold finiteScore
  split
  · rename_i n
    refine Iff.trans (returns_map.trans PyFloat.ofInt_returns) ?_
    simp
  · simp
  · rename_i hint _
    exact iff_of_true (returns_ok _) fun n hn => absurd hn (hint n)

theorem isOnline_returns : Returns (isOnline env e) ↔
    (saysOnline e = false → ∀ x, PyValue.get e "model_used" = some x → x.nesting ≤ env.room) := by
  rw [isOnline]
  by_cases honline : saysOnline e = true
  · simp [honline]
  · rw [if_neg honline, returns_map, strOf]
    cases hmodel : PyValue.get e "model_used" with
    | none => simp [PyValue.nesting]
    | some x =>
      by_cases hdeep : env.room < x.nesting
      · simpa [hdeep] using honline
      · simp [hdeep, not_lt.mp hdeep]

theorem countEvent_returns : Returns (countEvent env t e) ↔ Countable env e := by
  have honline : ∀ t, Returns (countOnline env t e) ↔ Returns (isOnline env e) := fun t => returns_map
  have hrag : ∀ t, Returns (countRag t e) ↔
      (isText ragEvents (PyValue.get e "event") = true → Returns (finiteScore (PyValue.get e "top_score"))) := by
    intro t
    rw [countRag]
    split_ifs with hevent
    · exact returns_map.trans (by simp [hevent])
    · simp [hevent]
  rw [countEvent, returns_bind honline, hrag, finiteScore_returns, isOnline_returns]
  exact ⟨fun h => ⟨h.1, h.2⟩, fun h => ⟨h.score, h.model⟩⟩

theorem computeMetrics_returns : Returns (computeMetrics env (iterEvents env lines)) ↔
    (∀ l ∈ lines, Loads env l) ∧ ∀ e ∈ rowsOf env lines, Countable env e := by
  refine returns_map.trans (Iff.trans (foldlM_returns (fun t item => ?_) emptyTally _) forall_iterEvents)
  exact returns_bind_iff.trans (exists_congr fun row => and_congr_right fun _ => countEvent_returns)

theorem computeAuditIntegrity_returns :
    Returns (computeAuditIntegrity env lines) ↔ ∀ l ∈ lines, Loads env l := by
  refine foldlM_returns (fun i line => ?_) noIssues lines
  rw [integrityLine, Loads]
  by_cases hblank : strip line = []
  · simp [hblank, env.loads_blank line hblank]
  · rw [if_neg hblank]
    cases h : env.loads line with
    | value x => cases x <;> simp
    | decodeError => simp
    | raises e => simp

theorem summarizeAudit_returns : Returns (summarizeAudit env lines) ↔
    (∀ l ∈ lines, Loads env l) ∧ ∀ e ∈ rowsOf env lines, Countable env e := by
  rw [summarizeAudit_eq, returns_bind fun metrics => returns_map, computeMetrics_returns, computeAuditIntegrity_returns]
  exact ⟨fun h => h.1, fun h => ⟨h, h.1⟩⟩

theorem computeSpend_returns : Returns (computeSpend env now (iterEvents env lines)) ↔
    ∃ today, todayOf now = .ok today ∧ (∀ l ∈ lines, Loads env l) ∧ ∀ e ∈ rowsOf env lines, Priceable env today e := by
  refine returns_bind_iff.trans (exists_congr fun today => and_congr_right fun _ => ?_)
  refine Iff.trans (returns_bind fun t => iff_true_intro ⟨_, rfl⟩) ?_
  rw [and_true]
  refine Iff.trans (foldlM_returns (fun t item => ?_) _ _) forall_iterEvents
  exact returns_bind_iff.trans (exists_congr fun row => and_congr_right fun _ => countSpend_returns)

theorem detect_returns : Returns (detect env window minRepeat audit spend) ↔
    (∀ l ∈ audit, Loads env l) ∧ (∀ l ∈ spend, Loads env l) ∧
      SequenceDetect.Readable env.toEnv minRepeat ((rowsOf env audit).map .dict) ((rowsOf env spend).map .dict) := by
  have hsearch : Returns (SequenceDetect.detectSequences env.toEnv window minRepeat
      ((rowsOf env audit).map .dict) ((rowsOf env spend).map .dict)) ↔
        SequenceDetect.Readable env.toEnv minRepeat ((rowsOf env audit).map .dict) ((rowsOf env spend).map .dict) := by
    refine ⟨?_, SequenceDetect.ok_of_readable⟩
    rintro ⟨d, hd⟩
    exact SequenceDetect.readable_of_ok hd
  rw [← hsearch]
  constructor
  · intro h
    obtain ⟨auditRows, hauditRows, h⟩ := returns_bind_iff.mp h
    obtain ⟨spendRows, hspendRows, h⟩ := returns_bind_iff.mp h
    have hauditLoads := loadEvents_returns.mp (returns_mapError.mp ⟨auditRows, hauditRows⟩)
    have hspendLoads := loadEvents_returns.mp (returns_mapError.mp ⟨spendRows, hspendRows⟩)
    rw [loadEvents_eq hauditLoads] at hauditRows
    rw [loadEvents_eq hspendLoads] at hspendRows
    obtain rfl := Except.ok.inj hauditRows
    obtain rfl := Except.ok.inj hspendRows
    exact ⟨hauditLoads, hspendLoads, returns_mapError.mp h⟩
  · rintro ⟨hauditLoads, hspendLoads, h⟩
    rw [detect, loadEvents_eq hauditLoads, loadEvents_eq hspendLoads]
    exact returns_mapError.mpr h

/-! ### One line more -/

/-- A line that is no event is an issue, or nothing. -/
theorem integrityLine_evidence (hnone : readLine env line = none) :
    (integrityLine env i line).map Integrity.evidence = .ok i.evidence := by
  rw [integrityLine]
  split_ifs with hblank
  · rfl
  · rw [readLine] at hnone
    cases h : env.loads line with
    | decodeError => rfl
    | raises e =>
      rw [h] at hnone
      cases hnone
    | value x =>
      cases x with
      | dict row =>
        rw [h] at hnone
        cases hnone
      | _ => rfl

theorem event_evidence (h : i.evidence = j.evidence) (e : Row) : (i.event e).evidence = (j.event e).evidence := by
  obtain ⟨-, hquery, hhash⟩ := Integrity.mk.inj h
  simp [Integrity.evidence, Integrity.event, hquery, hhash]

theorem foldlM_evidence (h : i.evidence = j.evidence) (lines : List Text) :
    (lines.foldlM (integrityLine env) i).map Integrity.evidence =
      (lines.foldlM (integrityLine env) j).map Integrity.evidence := by
  induction lines generalizing i j with
  | nil => exact congrArg Except.ok h
  | cons line lines ih =>
    have hmalformed : i.malformed.evidence = j.malformed.evidence := h
    rw [foldlM_cons, foldlM_cons, integrityLine, integrityLine]
    split_ifs with hblank
    · exact ih h
    · cases env.loads line with
      | decodeError => exact ih hmalformed
      | raises e => rfl
      | value x =>
        cases x with
        | dict row => exact ih (event_evidence h row)
        | _ => exact ih hmalformed

theorem computeAuditIntegrity_insert (hnone : readLine env line = none) (before after : List Text) :
    (computeAuditIntegrity env (before ++ line :: after)).map Integrity.evidence =
      (computeAuditIntegrity env (before ++ after)).map Integrity.evidence := by
  rw [computeAuditIntegrity, computeAuditIntegrity, List.foldlM_append, List.foldlM_append]
  cases before.foldlM (integrityLine env) noIssues with
  | error e => rfl
  | ok i =>
    obtain ⟨j, hj, hevidence⟩ := map_eq_ok.mp (integrityLine_evidence (i := i) hnone)
    show ((integrityLine env i line).bind fun s => after.foldlM (integrityLine env) s).map Integrity.evidence = _
    rw [hj]
    exact foldlM_evidence hevidence after

theorem summarizeAudit_insert (hnone : readLine env line = none) (before after : List Text) :
    (summarizeAudit env (before ++ line :: after)).map Summary.evidence =
      (summarizeAudit env (before ++ after)).map Summary.evidence := by
  have hintegrity := computeAuditIntegrity_insert hnone before after
  rw [summarizeAudit_eq, summarizeAudit_eq, iterEvents_insert hnone]
  cases computeMetrics env (iterEvents env (before ++ after)) with
  | error e => rfl
  | ok metrics =>
    have hevidence : ∀ x : Except PyError Integrity,
        (x.map fun integrity => (⟨metrics, integrity⟩ : Summary)).map Summary.evidence =
          (x.map Integrity.evidence).map fun integrity => ⟨metrics, integrity⟩ := by
      intro x
      cases x <;> rfl
    show ((computeAuditIntegrity env (before ++ line :: after)).map _).map _ =
      ((computeAuditIntegrity env (before ++ after)).map _).map _
    rw [hevidence, hevidence, hintegrity]

end Ledgers

/-- **The metrics stand whatever a line says, just where** every line can be loaded and every event counted: its
score converted, its model's name written out, its ticks and counts priced, its time told in UTC and its name
looked up. -/
theorem robust_iff (env : Env) (now : SequenceDetect.Stamp) (window minRepeat : ℤ) (audit spend : List Text)
    (line : Text) :
    Robust env now window minRepeat audit spend line ↔ Sound env now minRepeat audit spend line := by
  constructor
  · intro h
    obtain ⟨hauditLoads, hcountable⟩ := summarizeAudit_returns.mp h.summarizes
    obtain ⟨today, htoday, hspendLoads, hpriceable⟩ := computeSpend_returns.mp h.spends
    refine ⟨hauditLoads, hspendLoads, fun hobject => ?_, ⟨today, htoday⟩, hcountable, fun today' htoday' => ?_,
      (detect_returns.mp h.detects).2.2⟩
    · -- The line would take down the summary of the file that it begins.
      obtain ⟨heq, -⟩ := h.auditLine hobject [] audit rfl
      have hreturns : Returns (summarizeAudit env (line :: audit)) := by
        rw [← returns_map (f := Summary.evidence)]
        refine heq ▸ returns_map.mpr h.summarizes
      exact (summarizeAudit_returns.mp hreturns).1 line List.mem_cons_self
    · obtain rfl := Except.ok.inj (htoday.symm.trans htoday')
      exact hpriceable
  · intro h
    obtain ⟨today, htoday⟩ := h.clock
    have hnone : env.isObject line = false → readLine env line = none := fun hobject =>
      readLine_eq_none hobject (h.lineLoads hobject)
    have hload : ∀ before after, readLine env line = none →
        loadEvents env (before ++ line :: after) = loadEvents env (before ++ after) := fun before after hnone =>
      congrArg (List.mapM id) (iterEvents_insert hnone)
    refine ⟨summarizeAudit_returns.mpr ⟨h.auditLoads, h.countable⟩,
      computeSpend_returns.mpr ⟨today, htoday, h.spendLoads, h.priceable today htoday⟩,
      detect_returns.mpr ⟨h.auditLoads, h.spendLoads, h.readable⟩, ?_, ?_, summarizeAudit_eq env audit⟩
    · rintro hobject before after rfl
      refine ⟨summarizeAudit_insert (hnone hobject) before after, ?_⟩
      rw [detect, hload before after (hnone hobject), detect]
    · rintro hobject before after rfl
      refine ⟨by rw [iterEvents_insert (hnone hobject)], ?_⟩
      rw [detect, hload before after (hnone hobject), detect]

/-- A whole number of 401 digits. -/
def greatNumber : ℤ := 10 ^ 400

/-- A query with that score. -/
def greatScore : Row := [("event".toList, .str "rag_query".toList), ("top_score".toList, .int greatNumber)]

def greatScoreLine : Text :=
  "\x7b\"event\": \"rag_query\", \"top_score\": 1".toList ++ List.replicate 400 '0' ++ "\x7d".toList

/-- What is loaded of a file that holds no other line. -/
def loadsGreatScore (t : Text) : Loaded := if t = greatScoreLine then .value (.dict greatScore) else .decodeError

def greatScoreEnv : Env where
  lower := id
  fromisoformat _ := none
  isoformat _ := []
  loads := loadsGreatScore
  isObject t := t = greatScoreLine
  loads_blank t ht := by
    have hline : strip greatScoreLine ≠ [] := by decide +kernel
    refine if_neg ?_
    rintro rfl
    exact hline ht
  isObject_value t x hx := by
    unfold loadsGreatScore at hx
    split_ifs at hx with ht
    obtain rfl := Loaded.value.inj hx
    exact ⟨fun _ => ⟨greatScore, rfl⟩, fun _ => decide_eq_true ht⟩
  isObject_decodeError t ht := by
    unfold loadsGreatScore at ht
    split_ifs at ht with hline
    exact decide_eq_false hline
  formats := ⟨fun _ => none, fun _ => none, fun _ => []⟩
  room := 1000

/-- The one line takes down the summary. -/
theorem great_score_raises : ¬ Robust greatScoreEnv ⟨739000 * dayLength, some 0⟩ (15 * 60 * 1000000) 3
    [greatScoreLine] [] [] := by
  intro h
  obtain ⟨-, hcountable⟩ := summarizeAudit_returns.mp h.summarizes
  have hrow : greatScore ∈ rowsOf greatScoreEnv [greatScoreLine] := by
    have hload : loadsGreatScore greatScoreLine = .value (.dict greatScore) := by
      rw [loadsGreatScore, if_pos rfl]
    have henv : greatScoreEnv.loads = loadsGreatScore := rfl
    rw [rowsOf, List.filterMap_cons, henv, hload]
    exact List.mem_cons_self
  have hscore := (hcountable greatScore hrow).score (by decide +kernel) greatNumber rfl
  exact absurd hscore (by decide +kernel)

end CyClaw.Metrics

/-
`compute_spend` of `metrics.py`, and the prices of `utils/spend.py`.

A count is converted to a float to be priced, and so are the ticks of the vendor; a count of no more than
the greatest float can be priced (`estimateUsd_returns`).  A day is the number of days from the first of
year 1.  That the table of rates is stale is only logged.
-/
import CyClaw.Metrics.AuditSummary

namespace CyClaw.Metrics

open PyText Fallible

/-! ### Prices -/

/-- A row of `_RATES`, in dollars for a million tokens. -/
inductive Rates where
  /-- With `cached_input`. -/
  | banded (input output cachedInput longInput longCachedInput longOutput : ℚ) (longPromptThreshold : ℕ)
  /-- Without. -/
  | written (input output cacheCreation cacheCreation1h cacheRead : ℚ)

def rates : List (String × Rates) :=
  [("grok-4.5", .banded 2 6 0.3 4 0.6 12 200000),
    ("claude-sonnet-5", .written 2 10 2.5 4 0.2),
    ("grok-4.3", .banded 1.25 2.5 0.2 2.5 0.4 5 200000),
    ("grok-4.6", .banded 2 6 0.5 4 1 12 200000)]

def ratesOf (model : Text) : Option Rates := (rates.find? fun r => model = r.1.toList).map Prod.snd

/-- `TICKS_PER_USD` -/
def ticksPerUsd : ℕ := 10000000000

def tokenCountKeys : List String :=
  ["input_tokens", "output_tokens", "cached_input_tokens", "cache_creation_input_tokens", "cache_read_input_tokens",
    "cache_creation_5m_tokens", "cache_creation_1h_tokens", "reasoning_tokens"]

/-- `_token_count` -/
def tokenCount (tokens : Row) (key : String) : ℕ :=
  match PyValue.get tokens key with
  | some (.int n) => n.toNat
  | _ => 0

def isNull : Option PyValue → Bool
  | none => true
  | some .none => true
  | _ => false

/-- `_token_fields_missing` -/
def tokenFieldsMissing (tokens : Row) : Bool := tokenCountKeys.all fun key => isNull (PyValue.get tokens key)

/-- `_is_int` -/
def isInt : Option PyValue → Bool
  | some (.int _) => true
  | _ => false

def billedOutputTokens (tokens : Row) : ℕ := tokenCount tokens "output_tokens" + tokenCount tokens "reasoning_tokens"

/-- The ticks of the vendor, where it gives any. -/
def vendorTicks (tokens : Row) : Option ℤ :=
  match PyValue.get tokens "vendor_cost_ticks" with
  | some (.int ticks) => if 0 ≤ ticks then some ticks else none
  | _ => none

/-- `count * rate / 1_000_000` -/
def cost (count : ℕ) (rate : ℚ) : Except PyError PyFloat :=
  (PyFloat.ofInt count).map fun x => (x.mul (.ofRat rate)).quotient 1000000

def hasTtlSplit (tokens : Row) : Bool :=
  isInt (PyValue.get tokens "cache_creation_5m_tokens") || isInt (PyValue.get tokens "cache_creation_1h_tokens")

def uncached (tokens : Row) : ℕ := tokenCount tokens "input_tokens" - tokenCount tokens "cached_input_tokens"

/-- What is written to the cache and is in neither part of the split. -/
def residual (tokens : Row) : ℕ :=
  tokenCount tokens "cache_creation_input_tokens" - tokenCount tokens "cache_creation_5m_tokens" -
    tokenCount tokens "cache_creation_1h_tokens"

def cacheWriteUsd (cacheCreation cacheCreation1h : ℚ) (tokens : Row) : Except PyError PyFloat :=
  if hasTtlSplit tokens then do
    let split5m ← cost (tokenCount tokens "cache_creation_5m_tokens") cacheCreation
    let split1h ← cost (tokenCount tokens "cache_creation_1h_tokens") cacheCreation1h
    let rest ← cost (residual tokens) cacheCreation
    return (split5m.add split1h).add rest
  else cost (tokenCount tokens "cache_creation_input_tokens") cacheCreation

def tableUsd (tokens : Row) : Rates → Except PyError PyFloat
  | .banded input output cachedInput longInput longCachedInput longOutput longPromptThreshold => do
      let useLong := decide (longPromptThreshold ≤ tokenCount tokens "input_tokens")
      let fresh ← cost (uncached tokens) (if useLong then longInput else input)
      let cached ← cost (tokenCount tokens "cached_input_tokens") (if useLong then longCachedInput else cachedInput)
      let out ← cost (billedOutputTokens tokens) (if useLong then longOutput else output)
      return (fresh.add cached).add out
  | .written input output cacheCreation cacheCreation1h cacheRead => do
      let written ← cacheWriteUsd cacheCreation cacheCreation1h tokens
      let fresh ← cost (tokenCount tokens "input_tokens") input
      let read ← cost (tokenCount tokens "cache_read_input_tokens") cacheRead
      let out ← cost (billedOutputTokens tokens) output
      return ((fresh.add written).add read).add out

structure Estimate where
  usd : Option PyFloat
  rateUnknown : Bool
  usdSource : Option Text
deriving DecidableEq

def estimateUsd (model : Text) (tokens : Row) : Except PyError Estimate :=
  match vendorTicks tokens with
  | some ticks => (PyFloat.trueDiv ticks ticksPerUsd).map fun usd => ⟨some usd, false, some "vendor_ticks".toList⟩
  | none =>
      if tokenFieldsMissing tokens then .ok ⟨none, false, some "incomplete".toList⟩
      else
        match ratesOf model with
        | none => .ok ⟨none, true, none⟩
        | some r => (tableUsd tokens r).map fun usd => ⟨some usd, false, some "rate_table".toList⟩

structure Comparison where
  tableUsd : Option PyFloat
  vendorUsd : Option PyFloat
  deltaUsd : Option PyFloat
  rateUnknown : Bool

/-- `table_tokens`, which has no ticks. -/
def tableTokens (tokens : Row) : Row := ("vendor_cost_ticks".toList, .none) :: tokens

def vendorUsd (tokens : Row) : Except PyError (Option PyFloat) :=
  match vendorTicks tokens with
  | some ticks => (PyFloat.trueDiv ticks ticksPerUsd).map some
  | none => .ok none

def compareVendorCost (model : Text) (tokens : Row) : Except PyError Comparison := do
  let table ← estimateUsd model (tableTokens tokens)
  let vendor ← vendorUsd tokens
  return ⟨table.usd, vendor, vendor.bind fun v => table.usd.map fun t => t.sub v, table.rateUnknown⟩

/-! ### `compute_spend` -/

/-- The microseconds of a day. -/
def dayLength : ℤ := 86400 * 1000000

/-- `_spend_event_date` -/
def spendEventDate (env : Env) (e : Row) : Except PyError (Option ℤ) :=
  match PyValue.get e "timestamp" with
  | some (.str (c :: t)) =>
      match env.fromisoformat (c :: t) with
      | none => .ok none
      | some stamp =>
          match stamp.astimezone with
          | .ok ts => .ok (some (ts / dayLength))
          | .error _ => .error .overflowError
  | _ => .ok none

/-- `_spend_token_count` -/
def spendTokenCount (e : Row) (key : String) : ℤ :=
  match PyValue.get e key with
  | some (.int n) => n
  | _ => 0

/-- `_spend_source_key` -/
def spendSourceKey (env : Env) (e : Row) : Text :=
  match PyValue.get e "source" with
  | some (.str source) =>
      let normalized := env.lower (strip source)
      if normalized = "query".toList ∨ normalized = "agentic".toList then normalized else "unknown".toList
  | _ => "unknown".toList

def modelOf (e : Row) : Text :=
  match PyValue.get e "model" with
  | some (.str model) => model
  | _ => []

structure Window where
  byProvider : Counter
  bySource : Counter
  tokensIn : ℤ
  tokensOut : ℤ
  usd : PyFloat
  usdIncomplete : Bool
  tableUsd : PyFloat
  vendorUsd : PyFloat
  comparableTableUsd : PyFloat
  comparableVendorUsd : PyFloat
  vendorRows : ℕ
  comparableRows : ℕ
  tableIncomplete : Bool

/-- `_empty_spend_window` -/
def emptyWindow : Window := ⟨[], [], 0, 0, .num 0, false, .num 0, .num 0, .num 0, .num 0, 0, 0, false⟩

/-- What is added to a window of an event. -/
structure Record where
  provider : Text
  tokensIn : ℤ
  tokensOut : ℕ
  usd : Option PyFloat
  rateUnknown : Bool
  source : Text

/-- The price that counts. -/
def known (rateUnknown : Bool) (usd : Option PyFloat) : Option PyFloat := if rateUnknown then none else usd

/-- `_add_spend_record` -/
def addSpendRecord (w : Window) (r : Record) : Window :=
  let w := { w with
    byProvider := w.byProvider.bump r.provider
    bySource := w.bySource.bump r.source
    tokensIn := w.tokensIn + r.tokensIn
    tokensOut := w.tokensOut + r.tokensOut }
  match known r.rateUnknown r.usd with
  | none => { w with usdIncomplete := true }
  | some usd => { w with usd := w.usd.add usd }

/-- `_add_spend_compare` -/
def addSpendCompare (w : Window) (c : Comparison) : Window :=
  let w := match known c.rateUnknown c.tableUsd with
    | none => { w with tableIncomplete := true }
    | some table => { w with tableUsd := w.tableUsd.add table }
  match c.vendorUsd with
  | none => w
  | some vendor =>
      let w := { w with vendorUsd := w.vendorUsd.add vendor, vendorRows := w.vendorRows + 1 }
      match known c.rateUnknown c.tableUsd with
      | none => w
      | some table =>
          { w with
            comparableTableUsd := w.comparableTableUsd.add table
            comparableVendorUsd := w.comparableVendorUsd.add vendor
            comparableRows := w.comparableRows + 1 }

structure FrozenWindow where
  byProvider : Counter
  bySource : Counter
  tokensIn : ℤ
  tokensOut : ℤ
  usd : Option PyFloat
  tableUsd : Option PyFloat
  tickedTableUsd : Option PyFloat
  vendorUsd : Option PyFloat
  deltaUsd : Option PyFloat
  vendorRows : ℕ

/-- `_freeze_spend_window` -/
def Window.freeze (w : Window) : FrozenWindow where
  byProvider := w.byProvider.mostCommon
  bySource := w.bySource.mostCommon
  tokensIn := w.tokensIn
  tokensOut := w.tokensOut
  usd := if w.usdIncomplete then none else some w.usd
  tableUsd := if w.tableIncomplete then none else some w.tableUsd
  tickedTableUsd := if w.comparableRows = 0 then none else some w.comparableTableUsd
  vendorUsd := if w.vendorRows = 0 then none else some w.vendorUsd
  deltaUsd := if w.comparableRows = 0 then none else some (w.comparableTableUsd.sub w.comparableVendorUsd)
  vendorRows := w.vendorRows

structure SpendTally where
  today : Window
  last7d : Window
  usageMissing : ℕ
  rateUnknown : ℕ

structure Spend where
  today : FrozenWindow
  last7d : FrozenWindow
  usageMissing : ℕ
  rateUnknown : ℕ

/-- The day is one of the last seven. -/
def inWindow (today : ℤ) : Option ℤ → Bool
  | none => false
  | some day => today - 6 ≤ day && day ≤ today

/-- The loop's body. -/
def countSpend (env : Env) (today : ℤ) (t : SpendTally) (e : Row) : Except PyError SpendTally := do
  let priced ← estimateUsd (modelOf e) e
  let t := { t with
    usageMissing := t.usageMissing + if isTrue (PyValue.get e "usage_missing") then 1 else 0
    rateUnknown := t.rateUnknown + if priced.rateUnknown then 1 else 0 }
  let day ← spendEventDate env e
  if inWindow today day then
    let compared ← compareVendorCost (modelOf e) e
    let r : Record := ⟨bucketKey (PyValue.get e "provider"), spendTokenCount e "input_tokens", billedOutputTokens e,
      priced.usd, priced.rateUnknown, spendSourceKey env e⟩
    let t := { t with last7d := addSpendCompare (addSpendRecord t.last7d r) compared }
    return if day = some today then { t with today := addSpendCompare (addSpendRecord t.today r) compared } else t
  else return t

/-- `now.date()`, from which six days can be taken. -/
def todayOf (now : SequenceDetect.Stamp) : Except PyError ℤ :=
  match now.astimezone with
  | .error _ => .error .overflowError
  | .ok ts => if ts / dayLength < 6 then .error .overflowError else .ok (ts / dayLength)

def computeSpend (env : Env) (now : SequenceDetect.Stamp) (events : List (Except PyError Row)) :
    Except PyError Spend := do
  let today ← todayOf now
  let t ← events.foldlM (fun t item => item.bind (countSpend env today t)) ⟨emptyWindow, emptyWindow, 0, 0⟩
  return ⟨t.today.freeze, t.last7d.freeze, t.usageMissing, t.rateUnknown⟩

/-! ### What can be priced -/

/-- The counts that are converted to be priced. -/
def pricedCounts (tokens : Row) : Rates → List ℕ
  | .banded .. => [uncached tokens, tokenCount tokens "cached_input_tokens", billedOutputTokens tokens]
  | .written .. =>
      (if hasTtlSplit tokens then
        [tokenCount tokens "cache_creation_5m_tokens", tokenCount tokens "cache_creation_1h_tokens", residual tokens]
      else [tokenCount tokens "cache_creation_input_tokens"]) ++
        [tokenCount tokens "input_tokens", tokenCount tokens "cache_read_input_tokens", billedOutputTokens tokens]

/-- The table prices no count beyond the floats. -/
def CountsPriced (model : Text) (tokens : Row) : Prop :=
  tokenFieldsMissing tokens = true ∨
    ∀ r, ratesOf model = some r → ∀ n ∈ pricedCounts tokens r, n < PyValue.floatLimit

def TicksPriced (tokens : Row) : Prop :=
  ∀ ticks, vendorTicks tokens = some ticks → ticks.natAbs < PyValue.floatLimit * ticksPerUsd

/-- A time that has a place in the years 1 to 9999 in UTC. -/
def InYears (s : SequenceDetect.Stamp) : Prop :=
  ∀ offset, s.utcoffset = some offset → offset ≠ 0 →
    0 ≤ s.clock - offset ∧ s.clock - offset < SequenceDetect.clockLimit

def Dated (env : Env) (e : Row) : Prop :=
  ∀ t stamp, PyValue.get e "timestamp" = some (.str t) → t ≠ [] → env.fromisoformat t = some stamp → InYears stamp

/-- The spend of an event can be counted. -/
structure Priceable (env : Env) (today : ℤ) (e : Row) : Prop where
  ticks : TicksPriced e
  counts : vendorTicks e = none → CountsPriced (modelOf e) e
  dated : Dated env e
  compared : ∀ day, spendEventDate env e = .ok day → inWindow today day = true → CountsPriced (modelOf e) e

section Returns

variable {env : Env} {tokens e : Row} {model : Text} {r : Rates} {today : ℤ}

theorem cost_returns {count : ℕ} {rate : ℚ} : Returns (cost count rate) ↔ count < PyValue.floatLimit :=
  returns_map.trans PyFloat.ofInt_returns

theorem cacheWriteUsd_returns {a b : ℚ} : Returns (cacheWriteUsd a b tokens) ↔
    ∀ n ∈ (if hasTtlSplit tokens then
        [tokenCount tokens "cache_creation_5m_tokens", tokenCount tokens "cache_creation_1h_tokens", residual tokens]
      else [tokenCount tokens "cache_creation_input_tokens"]), n < PyValue.floatLimit := by
  rw [cacheWriteUsd]
  split_ifs with hsplit
  · rw [List.forall_mem_cons, List.forall_mem_cons, List.forall_mem_singleton]
    refine Iff.trans (returns_bind fun _ => returns_bind fun _ => returns_bind fun _ => iff_true_intro ⟨_, rfl⟩) ?_
    rw [and_true]
    exact and_congr cost_returns (and_congr cost_returns cost_returns)
  · rw [List.forall_mem_singleton]
    exact cost_returns

theorem tableUsd_returns : Returns (tableUsd tokens r) ↔ ∀ n ∈ pricedCounts tokens r, n < PyValue.floatLimit := by
  cases r with
  | banded =>
    rw [tableUsd, pricedCounts, List.forall_mem_cons, List.forall_mem_cons, List.forall_mem_singleton]
    refine Iff.trans (returns_bind fun _ => returns_bind fun _ => returns_bind fun _ => iff_true_intro ⟨_, rfl⟩) ?_
    rw [and_true]
    exact and_congr cost_returns (and_congr cost_returns cost_returns)
  | written =>
    rw [tableUsd, pricedCounts, List.forall_mem_append, List.forall_mem_cons, List.forall_mem_cons,
      List.forall_mem_singleton]
    refine Iff.trans (returns_bind fun _ => returns_bind fun _ => returns_bind fun _ => returns_bind fun _ =>
      iff_true_intro ⟨_, rfl⟩) ?_
    rw [and_true]
    exact and_congr cacheWriteUsd_returns (and_congr cost_returns (and_congr cost_returns cost_returns))

theorem ticks_returns {ticks : ℤ} :
    Returns (PyFloat.trueDiv ticks ticksPerUsd) ↔ ticks.natAbs < PyValue.floatLimit * ticksPerUsd :=
  PyFloat.trueDiv_returns (by decide)

/-- Without ticks it is the table that prices. -/
theorem estimateUsd_returns (h : vendorTicks tokens = none) :
    Returns (estimateUsd model tokens) ↔ CountsPriced model tokens := by
  rw [estimateUsd, h, CountsPriced]
  by_cases hmissing : tokenFieldsMissing tokens = true
  · simp [hmissing]
  · cases hrates : ratesOf model with
    | none => simp [hmissing]
    | some r => simp [hmissing, tableUsd_returns]

theorem estimateUsd_ticks {ticks : ℤ} (h : vendorTicks tokens = some ticks) :
    Returns (estimateUsd model tokens) ↔ ticks.natAbs < PyValue.floatLimit * ticksPerUsd := by
  rw [estimateUsd, h]
  exact returns_map.trans ticks_returns

/-- Nothing but the ticks is read otherwise. -/
theorem get_tableTokens {key : String} (h : (key.toList == "vendor_cost_ticks".toList) = false) :
    PyValue.get (tableTokens tokens) key = PyValue.get tokens key := by
  rw [PyValue.get, tableTokens, List.lookup_cons, h]
  rfl

theorem tokenCount_tableTokens {key : String} (h : (key.toList == "vendor_cost_ticks".toList) = false) :
    tokenCount (tableTokens tokens) key = tokenCount tokens key := by
  rw [tokenCount, get_tableTokens h, tokenCount]

theorem hasTtlSplit_tableTokens : hasTtlSplit (tableTokens tokens) = hasTtlSplit tokens := by
  rw [hasTtlSplit, get_tableTokens (by decide), get_tableTokens (by decide), hasTtlSplit]

theorem residual_tableTokens : residual (tableTokens tokens) = residual tokens := by
  rw [residual, tokenCount_tableTokens (by decide), tokenCount_tableTokens (by decide),
    tokenCount_tableTokens (by decide), residual]

theorem billedOutputTokens_tableTokens : billedOutputTokens (tableTokens tokens) = billedOutputTokens tokens := by
  rw [billedOutputTokens, tokenCount_tableTokens (by decide), tokenCount_tableTokens (by decide), billedOutputTokens]

theorem pricedCounts_tableTokens : pricedCounts (tableTokens tokens) r = pricedCounts tokens r := by
  cases r with
  | banded =>
    rw [pricedCounts, uncached, tokenCount_tableTokens (by decide), tokenCount_tableTokens (by decide),
      billedOutputTokens_tableTokens, pricedCounts, uncached]
  | written =>
    rw [pricedCounts, hasTtlSplit_tableTokens, residual_tableTokens, billedOutputTokens_tableTokens]
    iterate 5 rw [tokenCount_tableTokens (by decide)]
    rfl

theorem countsPriced_tableTokens : CountsPriced model (tableTokens tokens) ↔ CountsPriced model tokens := by
  have hkeys : ∀ key ∈ tokenCountKeys, (key.toList == "vendor_cost_ticks".toList) = false := by decide
  have hmissing : tokenFieldsMissing (tableTokens tokens) = tokenFieldsMissing tokens := by
    rw [tokenFieldsMissing, tokenFieldsMissing, Bool.eq_iff_iff, List.all_eq_true, List.all_eq_true]
    refine forall₂_congr fun key hkey => ?_
    rw [get_tableTokens (hkeys key hkey)]
  simp only [CountsPriced, hmissing, pricedCounts_tableTokens]

theorem vendorUsd_returns : Returns (vendorUsd tokens) ↔ TicksPriced tokens := by
  rw [vendorUsd, TicksPriced]
  cases hticks : vendorTicks tokens with
  | none => simp
  | some ticks => exact returns_map.trans (ticks_returns.trans (by simp))

theorem compareVendorCost_returns :
    Returns (compareVendorCost model tokens) ↔ CountsPriced model tokens ∧ TicksPriced tokens := by
  have hnone : vendorTicks (tableTokens tokens) = none := rfl
  rw [← countsPriced_tableTokens, ← estimateUsd_returns hnone, ← vendorUsd_returns]
  refine returns_bind fun table => Iff.trans (returns_bind fun vendor => iff_true_intro ⟨_, rfl⟩) ?_
  rw [and_true]

theorem astimezone_returns {stamp : SequenceDetect.Stamp} : Returns stamp.astimezone ↔ InYears stamp := by
  rw [SequenceDetect.Stamp.astimezone, InYears]
  cases stamp.utcoffset with
  | none => simp
  | some offset =>
    simp only [Option.some.injEq, forall_eq']
    split_ifs with hzero hyears
    · simp [hzero]
    · simpa [hzero] using hyears
    · simp only [not_returns_error, false_iff]
      exact fun h => hyears (h hzero)

theorem spendEventDate_returns : Returns (spendEventDate env e) ↔ Dated env e := by
  rw [spendEventDate, Dated]
  split
  · rename_i c t htime
    rw [htime]
    cases hread : env.fromisoformat (c :: t) with
    | none =>
      refine iff_of_true (returns_ok _) fun t' stamp ht _ hstamp => ?_
      obtain rfl := PyValue.str.inj (Option.some.inj ht)
      rw [hread] at hstamp
      cases hstamp
    | some stamp =>
      have hall : (∀ t' stamp', some (PyValue.str (c :: t)) = some (.str t') → t' ≠ [] →
          env.fromisoformat t' = some stamp' → InYears stamp') ↔ InYears stamp := by
        refine ⟨fun h => h _ _ rfl (List.cons_ne_nil c t) hread, fun h t' stamp' ht _ hstamp => ?_⟩
        obtain rfl := PyValue.str.inj (Option.some.inj ht)
        obtain rfl := Option.some.inj (hread.symm.trans hstamp)
        exact h
      rw [hall, ← astimezone_returns]
      cases hutc : stamp.astimezone <;> simp [hutc]
  · rename_i hother
    refine iff_of_true (returns_ok _) fun t stamp ht hne _ => ?_
    obtain ⟨c, t, rfl⟩ := List.exists_cons_of_ne_nil hne
    exact absurd ht (hother c t)

/-- The days of a row of the window are compared too. -/
def Compared (env : Env) (today : ℤ) (e : Row) : Prop :=
  ∀ day, spendEventDate env e = .ok day → inWindow today day = true → Returns (compareVendorCost (modelOf e) e)

theorem countSpend_returns_iff {t : SpendTally} : Returns (countSpend env today t e) ↔
    Returns (estimateUsd (modelOf e) e) ∧ Returns (spendEventDate env e) ∧ Compared env today e := by
  rw [countSpend]
  refine returns_bind fun priced => ?_
  dsimp only
  cases hdate : spendEventDate env e with
  | error err => exact iff_of_false (not_returns_error err) fun h => not_returns_error err h.1
  | ok day =>
    have hcompared : Compared env today e ↔
        (inWindow today day = true → Returns (compareVendorCost (modelOf e) e)) := by
      refine ⟨fun h => h day hdate, fun h day' hday' => ?_⟩
      obtain rfl := Except.ok.inj (hdate.symm.trans hday')
      exact h
    rw [hcompared]
    refine Iff.trans (returns_bind_ok rfl) ?_
    by_cases hwindow : inWindow today day = true
    · rw [if_pos hwindow]
      refine Iff.trans (returns_bind fun compared => iff_true_intro ?_) ?_
      · split <;> exact returns_ok _
      · simp [hwindow]
    · rw [if_neg hwindow]
      exact iff_of_true (returns_ok _) ⟨returns_ok day, fun h => absurd h hwindow⟩

theorem countSpend_returns {t : SpendTally} : Returns (countSpend env today t e) ↔ Priceable env today e := by
  have hestimate : Returns (estimateUsd (modelOf e) e) ↔
      TicksPriced e ∧ (vendorTicks e = none → CountsPriced (modelOf e) e) := by
    cases hticks : vendorTicks e with
    | none => simp [estimateUsd_returns hticks, TicksPriced, hticks]
    | some ticks => simp [estimateUsd_ticks hticks, TicksPriced, hticks]
  rw [countSpend_returns_iff, hestimate, spendEventDate_returns]
  constructor
  · rintro ⟨⟨hticks, hcounts⟩, hdated, hcompared⟩
    exact ⟨hticks, hcounts, hdated, fun day hday hwindow =>
      (compareVendorCost_returns.mp (hcompared day hday hwindow)).1⟩
  · rintro ⟨hticks, hcounts, hdated, hcompared⟩
    exact ⟨⟨hticks, hcounts⟩, hdated, fun day hday hwindow =>
      compareVendorCost_returns.mpr ⟨hcompared day hday hwindow, hticks⟩⟩

end Returns

end CyClaw.Metrics

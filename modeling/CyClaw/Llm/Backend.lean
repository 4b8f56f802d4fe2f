/-
What a configuration of `llm/client.py` says about its local backends.

`candidates` is all that `resolve_local_backend` takes from a configuration: the primary, and the
fallback where there is one.  `cacheKey` is the key under which a choice among them is kept.  It
has most of the strings that the candidates are made of, but no `api_key`.
-/
import CyClaw.Lib.PyValue
import CyClaw.Lib.Url

namespace CyClaw.Llm

open PyText

abbrev Text := List Char

/-- `models.local_llm`. -/
abbrev LlmConfig := List (Text × PyValue)

/-- What the language and its library make of texts. -/
structure Env where
  formats : PyValue.Formats
  unicode : Url.Unicode

inductive LlmError where
  | serviceError (message : Text)
  | configError
  | attributeError
  | keyError
  | conversion (e : PyError)
  /-- What a probe raises. -/
  | raised
deriving DecidableEq

inductive Source where
  | primary
  | fallback
deriving DecidableEq

structure ResolvedLocalBackend where
  provider : Text
  baseUrl : Text
  model : Text
  source : Source
  apiKey : Text
  degraded : Bool
  reasoningEffort : Option Text
deriving DecidableEq

section Config

variable (env : Env)

/-- `str(d.get(key, default))`. -/
def strGet (d : LlmConfig) (key : String) (default : PyValue) : Text := ((PyValue.get d key).getD default).text env.formats

/-- `str(d.get(key) or default).strip()`. -/
def strippedGet (d : LlmConfig) (key : String) (default : String) : Text :=
  strip ((PyValue.orElse (PyValue.get d key) (.str default.toList)).text env.formats)

/-- `x or default`. -/
def orText (t : Text) (default : String) : Text := if t = [] then default.toList else t

def rstripSlash (t : Text) : Text := rstripBy (· = '/') t

def pyBool (b : Bool) : Text := (if b then "True" else "False").toList

/-- `d.get("enabled", False)` -/
def enabled (fb : LlmConfig) : Bool := ((PyValue.get fb "enabled").getD (.bool false)).truthy

/-- `llm_cfg.get("fallback") or {}`. -/
def fallbackBlock (cfg : LlmConfig) : PyValue := PyValue.orElse (PyValue.get cfg "fallback") (.dict [])

def defaultProbeTimeoutSec : PyValue := .float (.num (3 / 2))

/-- `_cache_key_for_local_llm`. -/
def cacheKey (cfg : LlmConfig) : Except LlmError Text :=
  match fallbackBlock cfg with
  | .dict fb =>
      .ok (['|'].intercalate
        [strGet env cfg "base_url" (.str []), strGet env cfg "model" (.str []),
          strGet env cfg "provider" (.str "ollama".toList), pyBool (enabled fb), strGet env fb "base_url" (.str []),
          strGet env fb "model" (.str []), strGet env fb "provider" (.str []),
          strGet env fb "probe_timeout_sec" defaultProbeTimeoutSec, strGet env cfg "reasoning_effort" (.str [])])
  | _ => .error .attributeError

def validReasoningEfforts : List Text :=
  ["none".toList, "low".toList, "medium".toList, "high".toList, "max".toList]

/-- `resolve_reasoning_effort`. -/
def resolveReasoningEffort (cfg : LlmConfig) : Except LlmError (Option Text) :=
  match PyValue.get cfg "reasoning_effort" with
  | none => .ok none
  | some .none => .ok none
  | some (.str raw) =>
      let normalized := env.unicode.lower (strip raw)
      if normalized = [] then .ok none
      else if normalized ∈ validReasoningEfforts then .ok (some normalized)
      else .error .configError
  | some _ => .error .configError

/-- `_effort_for`. -/
def effortFor (configured : Option Text) (provider : Text) : Option Text :=
  if provider = "ollama".toList then configured else none

def loopbackHosts : List Text := ["127.0.0.1".toList, "localhost".toList, "::1".toList]

def isLoopbackUrl (url : Text) : Bool :=
  match Url.urlparse env.unicode url with
  | some p => env.unicode.lower ((p.hostname env.unicode).getD []) ∈ loopbackHosts
  | none => false

def primaryOf (cfg : LlmConfig) (effort : Option Text) : ResolvedLocalBackend where
  provider := orText (strippedGet env cfg "provider" "ollama") "ollama"
  baseUrl := rstripSlash (strippedGet env cfg "base_url" "")
  model := strippedGet env cfg "model" ""
  source := .primary
  apiKey := strippedGet env cfg "api_key" ""
  degraded := false
  reasoningEffort := effortFor effort (orText (strippedGet env cfg "provider" "ollama") "ollama")

/-- The checks of an enabled fallback. -/
def checkFallback (fb : LlmConfig) : Except LlmError Unit :=
  match ((PyValue.get fb "probe_timeout_sec").getD defaultProbeTimeoutSec).toFloat env.formats with
  | .error e => .error (.conversion e)
  | .ok _ =>
      let url := strippedGet env fb "base_url" ""
      if url = [] ∨ strippedGet env fb "model" "" = [] then
        .error (.serviceError "models.local_llm.fallback requires base_url and model when enabled".toList)
      else if isLoopbackUrl env url then .ok ()
      else
        .error (.serviceError
          "models.local_llm.fallback.base_url must be loopback (127.0.0.1 / localhost / ::1)".toList)

def secondaryOf (fb : LlmConfig) (effort : Option Text) : ResolvedLocalBackend where
  provider := orText (strippedGet env fb "provider" "lmstudio") "lmstudio"
  baseUrl := rstripSlash (strippedGet env fb "base_url" "")
  model := strippedGet env fb "model" ""
  source := .fallback
  apiKey := strippedGet env fb "api_key" ""
  degraded := false
  reasoningEffort := effortFor effort (orText (strippedGet env fb "provider" "lmstudio") "lmstudio")

/-- The primary, and the fallback where it is enabled. -/
def candidates (cfg : LlmConfig) : Except LlmError (ResolvedLocalBackend × Option ResolvedLocalBackend) :=
  if strippedGet env cfg "base_url" "" = [] then .error (.serviceError "models.local_llm.base_url is required".toList)
  else
    match resolveReasoningEffort env cfg with
    | .error e => .error e
    | .ok effort =>
        match fallbackBlock cfg with
        | .dict fb =>
            if enabled fb then (checkFallback env fb).map fun _ => (primaryOf env cfg effort, some (secondaryOf env fb effort))
            else .ok (primaryOf env cfg effort, none)
        | _ => .ok (primaryOf env cfg effort, none)

/-- The backend that a configuration has for a source. -/
def candidate (cfg : LlmConfig) : Source → Option ResolvedLocalBackend
  | .primary => (candidates env cfg).toOption.map Prod.fst
  | .fallback => (candidates env cfg).toOption.bind Prod.snd

end Config

/-! ### Backends of a configuration -/

variable {env : Env} {cfg : LlmConfig}

/-- **All of the primary, or all of the fallback**, whether or not it answered. -/
def ResolvedLocalBackend.Of (env : Env) (cfg : LlmConfig) (b : ResolvedLocalBackend) : Prop :=
  candidate env cfg b.source = some { b with degraded := false }

instance (b : ResolvedLocalBackend) : Decidable (b.Of env cfg) := inferInstanceAs (Decidable (_ = _))

/-- A cached choice, and the configuration for which it was made. -/
structure Entry (env : Env) where
  owner : LlmConfig
  backend : ResolvedLocalBackend
  chosen : candidate env owner backend.source = some backend

theorem candidates_cases {p : ResolvedLocalBackend} {s : Option ResolvedLocalBackend} (h : candidates env cfg = .ok (p, s)) :
    ∃ effort, p = primaryOf env cfg effort ∧
      ∀ b, s = some b → ∃ fb, fallbackBlock cfg = .dict fb ∧ b = secondaryOf env fb effort := by
  unfold candidates at h
  split at h
  · cases h
  split at h
  · cases h
  rename_i effort _
  split at h
  · rename_i fb hfb
    split at h
    · cases hcheck : checkFallback env fb with
      | error e =>
        rw [hcheck] at h
        cases h
      | ok u =>
        rw [hcheck] at h
        obtain ⟨rfl, rfl⟩ := Prod.mk.inj (Except.ok.inj h)
        refine ⟨effort, rfl, ?_⟩
        rintro b ⟨rfl⟩
        exact ⟨fb, hfb, rfl⟩
    · obtain ⟨rfl, rfl⟩ := Prod.mk.inj (Except.ok.inj h)
      exact ⟨effort, rfl, by simp⟩
  · obtain ⟨rfl, rfl⟩ := Prod.mk.inj (Except.ok.inj h)
    exact ⟨effort, rfl, by simp⟩

theorem candidate_primary {p : ResolvedLocalBackend} {s : Option ResolvedLocalBackend} (h : candidates env cfg = .ok (p, s)) :
    candidate env cfg p.source = some p := by
  obtain ⟨effort, rfl, -⟩ := candidates_cases h
  show (candidates env cfg).toOption.map Prod.fst = _
  rw [h]
  rfl

theorem candidate_fallback {p b : ResolvedLocalBackend} (h : candidates env cfg = .ok (p, some b)) :
    candidate env cfg b.source = some b := by
  obtain ⟨effort, -, hfallback⟩ := candidates_cases h
  obtain ⟨fb, -, rfl⟩ := hfallback b rfl
  show (candidates env cfg).toOption.bind Prod.snd = _
  rw [h]
  rfl

/-- A candidate is as the configuration has it. -/
theorem candidate_cases {source : Source} {b : ResolvedLocalBackend} (h : candidate env cfg source = some b) :
    ∃ effort, b = primaryOf env cfg effort ∨ ∃ fb, fallbackBlock cfg = .dict fb ∧ b = secondaryOf env fb effort := by
  cases hcandidates : candidates env cfg with
  | error e => cases source <;> simp [candidate, hcandidates, Except.toOption] at h
  | ok ps =>
    obtain ⟨p, s⟩ := ps
    obtain ⟨effort, hp, hs⟩ := candidates_cases hcandidates
    refine ⟨effort, ?_⟩
    cases source with
    | primary =>
      simp only [candidate, hcandidates, Except.toOption, Option.map_some, Option.some.injEq] at h
      exact Or.inl (h.symm.trans hp)
    | fallback =>
      simp only [candidate, hcandidates, Except.toOption, Option.bind_some] at h
      exact Or.inr (hs b h)

theorem candidate_effort {source : Source} {b : ResolvedLocalBackend} (h : candidate env cfg source = some b) :
    b.degraded = false ∧ ∃ effort, b.reasoningEffort = effortFor effort b.provider := by
  obtain ⟨effort, rfl | ⟨fb, -, rfl⟩⟩ := candidate_cases h
  · exact ⟨rfl, effort, rfl⟩
  · exact ⟨rfl, effort, rfl⟩

/-- A reasoning effort goes to Ollama only. -/
theorem ResolvedLocalBackend.Of.effort {b : ResolvedLocalBackend} (h : b.Of env cfg) (hprovider : b.provider ≠ "ollama".toList) :
    b.reasoningEffort = none := by
  obtain ⟨-, effort, heffort⟩ := candidate_effort h
  have heffort : b.reasoningEffort = effortFor effort b.provider := heffort
  rw [heffort, effortFor, if_neg hprovider]

theorem of_candidate {source : Source} {b : ResolvedLocalBackend} (hb : b.source = source)
    (h : candidate env cfg source = some b) : b.Of env cfg := by
  have hsame : { b with degraded := false } = b := by
    rw [← (candidate_effort h).1]
  unfold ResolvedLocalBackend.Of
  rw [hsame, hb, h]

/-- What was chosen for a configuration is a backend of any that has the same candidate. -/
theorem Entry.of (e : Entry env) (h : candidate env e.owner e.backend.source = candidate env cfg e.backend.source) :
    e.backend.Of env cfg := by
  refine of_candidate rfl ?_
  rw [← h]
  exact e.chosen

end CyClaw.Llm

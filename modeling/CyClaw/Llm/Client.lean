/-
`LocalLLMClient`, and everyone else who resolves a local backend.

The clients of a process share the cache of resolved backends, and the threads share the clients.
Looking a key up and getting its entry are two steps, and so are the two flags of a client and
each probe; a probe and a request end as the servers please.  What a client adopts, and what a
request takes from it, are one step each.

Every entry comes with the configuration it was chosen for.  Where a call gets one whose
configuration has the same candidate as its own (`ownEntries`), all that is returned or sent is of
one backend of the call's configuration (`backends_not_crossed`).  The key has no `api_key` in it,
so a call may get the entry of a configuration with another (`api_key_crossed`).
-/
import CyClaw.Lib.Fallible
import CyClaw.Lib.Threads
import CyClaw.Llm.Backend

namespace CyClaw.Llm

open PyText Threads

/-! ### Clients -/

structure Client where
  provider : Text
  baseUrl : Text
  model : Text
  backendSource : Source
  reasoningEffort : Option Text
  maxTokens : PyValue
  temperature : PyValue
  retryMax : ℕ
  apiKey : Text
  degraded : Bool
  failoverEnabled : Bool
  recheckBackend : Bool

/-- What a request takes from a client. -/
structure Snapshot where
  baseUrl : Text
  model : Text
  apiKey : Text
  effort : Option Text
deriving DecidableEq

structure ChatRequest where
  url : Text
  authorization : Option Text
  model : Text
  prompt : Text
  maxTokens : PyValue
  temperature : PyValue
  reasoningEffort : Option Text

section Clients

variable (env : Env)

def converted {α : Type} : Except PyError α → Except LlmError α
  | .ok a => .ok a
  | .error e => .error (.conversion e)

/-- `_read_retry`, but for the pauses. -/
def readRetry (cfg : LlmConfig) : Except LlmError ℕ :=
  match PyValue.orElse (PyValue.get cfg "retry") (.dict []) with
  | .dict retry =>
      (converted (((PyValue.get retry "max_retries").getD (.int 0)).toInt env.formats)).bind fun n =>
        (converted (((PyValue.get retry "backoff_base_sec").getD (.float (.num 1))).toFloat env.formats)).bind fun _ =>
          (converted (((PyValue.get retry "backoff_max_sec").getD (.float (.num 30))).toFloat env.formats)).map fun _ =>
            n.toNat
  | _ => .error .attributeError

/-- `llm_cfg[key]`. -/
def required (cfg : LlmConfig) (key : String) : Except LlmError PyValue :=
  match PyValue.get cfg key with
  | some x => .ok x
  | none => .error .keyError

def failoverEnabled (cfg : LlmConfig) : Bool :=
  match fallbackBlock cfg with
  | .dict fb => enabled fb
  | _ => false

/-- `__init__`, once the backend is resolved. -/
def newClient (cfg : LlmConfig) (resolved : ResolvedLocalBackend) : Except LlmError Client :=
  (required cfg "max_tokens").bind fun maxTokens => (required cfg "temperature").bind fun temperature =>
    (required cfg "timeout_sec").bind fun _ => (readRetry env cfg).map fun retryMax =>
      { provider := resolved.provider
        baseUrl := resolved.baseUrl
        model := resolved.model
        backendSource := resolved.source
        reasoningEffort := resolved.reasoningEffort
        maxTokens := maxTokens
        temperature := temperature
        retryMax := retryMax
        apiKey := resolved.apiKey
        degraded := resolved.degraded
        failoverEnabled := failoverEnabled cfg
        recheckBackend := false }

/-- The locked part of `_readopt_backend_if_stale`. -/
def Client.adopt (resolved : ResolvedLocalBackend) (cl : Client) : Client :=
  { cl with
    provider := resolved.provider
    baseUrl := resolved.baseUrl
    model := resolved.model
    backendSource := resolved.source
    apiKey := resolved.apiKey
    reasoningEffort := resolved.reasoningEffort
    degraded := false }

def Client.snapshot (cl : Client) : Snapshot := ⟨cl.baseUrl, cl.model, cl.apiKey, cl.reasoningEffort⟩

/-- `Authorization`, where there is a key. -/
def bearer (apiKey : Text) : Option Text := if apiKey = [] then none else some ("Bearer ".toList ++ apiKey)

def Client.request (cl : Client) (prompt : Text) (x : Snapshot) : ChatRequest where
  url := x.baseUrl ++ "/chat/completions".toList
  authorization := bearer x.apiKey
  model := x.model
  prompt := prompt
  maxTokens := cl.maxTokens
  temperature := cl.temperature
  reasoningEffort := x.effort

end Clients

/-! ### Threads -/

inductive Event where
  | returned (cfg : LlmConfig) (b : ResolvedLocalBackend)
  | sent (client : ℕ) (r : ChatRequest)

structure Store (env : Env) where
  /-- `_resolved_local_backends`. -/
  cache : Text → Option (Entry env)
  clients : ℕ → Option Client
  log : List Event

/-- On whose behalf a backend is resolved. -/
inductive Caller where
  | direct (cfg : LlmConfig) (force : Bool)
  | init (client : ℕ)
  | readopt (client : ℕ) (prompt : Text)

inductive Job (env : Env) where
  | idle
  | looking (c : Caller)
  | getting (c : Caller) (key : Text)
  | probingPrimary (c : Caller) (key : Text) (primary secondary : Entry env)
  | probingSecondary (c : Caller) (key : Text) (primary secondary : Entry env)
  | resolved (c : Caller) (r : Except LlmError ResolvedLocalBackend)
  | checking (client : ℕ) (prompt : Text)
  | unmarking (client : ℕ) (prompt : Text)
  | posting (client : ℕ) (prompt : Text) (attempt : ℕ)
  | sending (client : ℕ) (prompt : Text) (attempt : ℕ) (x : Snapshot)
  | failing (client : ℕ)
  | marking (client : ℕ)

/-- How a probe or a request ends. -/
inductive Answer where
  | yes
  /-- The probe fails; the request does, and may be tried again. -/
  | no
  | raised

inductive Turn where
  | resolve (cfg : LlmConfig) (force : Bool)
  | construct (client : ℕ)
  | generate (client : ℕ) (prompt : Text)
  | reset
  | go (answer : Answer)

section Steps

variable {env : Env} (configs : ℕ → LlmConfig)

def Caller.cfg : Caller → LlmConfig
  | .direct cfg _ => cfg
  | .init client => configs client
  | .readopt client _ => configs client

def Caller.force : Caller → Bool
  | .direct _ force => force
  | _ => false

def Store.keep (s : Store env) (key : Text) (e : Entry env) : Store env :=
  { s with cache := Function.update s.cache key (some e) }

def Store.pop (s : Store env) (key : Text) : Store env := { s with cache := Function.update s.cache key none }

def Store.setClient (s : Store env) (client : ℕ) (cl : Option Client) : Store env :=
  { s with clients := Function.update s.clients client cl }

def Store.append (s : Store env) (e : Event) : Store env := { s with log := s.log ++ [e] }

/-- `resolve_local_backend` past the cache. -/
def beginResolve (c : Caller) (key : Text) (s : Store env) : Job env × Store env :=
  match h : candidates env (c.cfg configs) with
  | .error e => (.resolved c (.error e), s)
  | .ok (primary, none) =>
      (.resolved c (.ok primary), s.keep key ⟨c.cfg configs, primary, candidate_primary h⟩)
  | .ok (primary, some secondary) =>
      (.probingPrimary c key ⟨c.cfg configs, primary, candidate_primary h⟩
        ⟨c.cfg configs, secondary, candidate_fallback h⟩, s)

/-- What comes after `resolve_local_backend`. -/
def resume (env : Env) : Caller → Except LlmError ResolvedLocalBackend → Store env → Job env × Store env
  | .direct _ _, _, s => (.idle, s)
  | .init client, .ok b, s =>
      match newClient env (configs client) b with
      | .ok cl => (.idle, s.setClient client (some cl))
      | .error _ => (.idle, s)
  | .init _, .error _, s => (.idle, s)
  | .readopt client prompt, .ok b, s =>
      (.posting client prompt 0,
        s.setClient client ((s.clients client).map fun cl =>
          if b.degraded then { cl with degraded := true } else cl.adopt b))
  | .readopt client prompt, .error (.serviceError _), s => (.posting client prompt 0, s)
  | .readopt _ _, .error _, s => (.idle, s)

def act : Turn → Job env → Store env → Option (Job env × Store env)
  | .resolve cfg force, .idle, s => some (.looking (.direct cfg force), s)
  | .construct client, .idle, s => if (s.clients client).isSome then none else some (.looking (.init client), s)
  | .generate client prompt, .idle, s => if (s.clients client).isSome then some (.checking client prompt, s) else none
  | .reset, .idle, s => some (.idle, { s with cache := fun _ => none })
  | .go _, .looking c, s =>
      match cacheKey env (c.cfg configs) with
      | .error e => some (.resolved c (.error e), s)
      | .ok key => if !c.force && (s.cache key).isSome then some (.getting c key, s) else some (beginResolve configs c key s)
  | .go _, .getting c key, s =>
      match s.cache key with
      | some e => some (.resolved c (.ok e.backend), s)
      | none => some (.resolved c (.error .keyError), s)
  | .go .yes, .probingPrimary c key primary _, s => some (.resolved c (.ok primary.backend), s.keep key primary)
  | .go .no, .probingPrimary c key primary secondary, s => some (.probingSecondary c key primary secondary, s)
  | .go .raised, .probingPrimary c _ _ _, s => some (.resolved c (.error .raised), s)
  | .go .yes, .probingSecondary c key _ secondary, s => some (.resolved c (.ok secondary.backend), s.keep key secondary)
  | .go .no, .probingSecondary c _ primary _, s => some (.resolved c (.ok { primary.backend with degraded := true }), s)
  | .go .raised, .probingSecondary c _ _ _, s => some (.resolved c (.error .raised), s)
  | .go _, .resolved c r, s =>
      match r with
      | .ok b => some (resume configs env c r (s.append (.returned (c.cfg configs) b)))
      | .error _ => some (resume configs env c r s)
  | .go _, .checking client prompt, s =>
      (s.clients client).map fun cl =>
        if cl.degraded || cl.recheckBackend then (.unmarking client prompt, s) else (.posting client prompt 0, s)
  | .go _, .unmarking client prompt, s =>
      (s.clients client).map fun cl =>
        (.looking (.readopt client prompt), s.setClient client (some { cl with recheckBackend := false }))
  | .go _, .posting client prompt attempt, s =>
      (s.clients client).map fun cl => (.sending client prompt attempt cl.snapshot, s)
  | .go answer, .sending client prompt attempt x, s =>
      (s.clients client).map fun cl =>
        (match answer with
        | .yes => .idle
        | .no => if attempt < cl.retryMax then .posting client prompt (attempt + 1) else .failing client
        | .raised => .failing client,
          s.append (.sent client (cl.request prompt x)))
  | .go _, .failing client, s =>
      (s.clients client).map fun cl =>
        if cl.failoverEnabled then
          match cacheKey env (configs client) with
          | .ok key => (.marking client, s.pop key)
          | .error _ => (.idle, s)
        else (.idle, s)
  | .go _, .marking client, s =>
      (s.clients client).map fun cl => (.idle, s.setClient client (some { cl with recheckBackend := true }))
  | _, _, _ => none

end Steps

/-! ### What is of a configuration -/

def ResolvedLocalBackend.snapshot (b : ResolvedLocalBackend) : Snapshot := ⟨b.baseUrl, b.model, b.apiKey, b.reasoningEffort⟩

/-- What a client has is all of one backend of its configuration. -/
def Client.Of (env : Env) (cfg : LlmConfig) (cl : Client) : Prop :=
  ∃ b : ResolvedLocalBackend, b.Of env cfg ∧ cl.provider = b.provider ∧ cl.snapshot = b.snapshot

/-- What is sent is all of one backend of the client's configuration. -/
def ChatRequest.Of (env : Env) (cfg : LlmConfig) (r : ChatRequest) : Prop :=
  ∃ b : ResolvedLocalBackend, b.Of env cfg ∧ r.url = b.baseUrl ++ "/chat/completions".toList ∧
    r.authorization = bearer b.apiKey ∧ r.model = b.model ∧ r.reasoningEffort = b.reasoningEffort ∧
      (b.provider ≠ "ollama".toList → r.reasoningEffort = none)

def Event.Of (env : Env) (configs : ℕ → LlmConfig) : Event → Prop
  | .returned cfg b => b.Of env cfg ∧ (b.provider ≠ "ollama".toList → b.reasoningEffort = none)
  | .sent client r => r.Of env (configs client)

abbrev Process (env : Env) := World ℕ (Job env) (Store env)

def Process.initial (env : Env) : Process env := ⟨fun _ => .idle, ⟨fun _ => none, fun _ => none, []⟩⟩

/-- A call that gets an entry has the candidate for which it was chosen. -/
def ownEntries {env : Env} (configs : ℕ → LlmConfig) (w : Process env) (turn : ℕ × Turn) : Bool :=
  match w.job turn.1 with
  | .getting c key =>
      (w.store.cache key).all fun e =>
        decide (candidate env e.owner e.backend.source = candidate env (c.cfg configs) e.backend.source)
  | _ => true

section Sound

variable {env : Env} {configs : ℕ → LlmConfig} {s : Store env}

structure Store.Sound (configs : ℕ → LlmConfig) (s : Store env) : Prop where
  clients : ∀ client cl, s.clients client = some cl → cl.Of env (configs client)
  log : ∀ e ∈ s.log, e.Of env configs

def Job.Sound (configs : ℕ → LlmConfig) : Job env → Prop
  | .probingPrimary c _ primary secondary => primary.owner = c.cfg configs ∧ secondary.owner = c.cfg configs
  | .probingSecondary c _ primary secondary => primary.owner = c.cfg configs ∧ secondary.owner = c.cfg configs
  | .resolved c r => ∀ b, r = .ok b → b.Of env (c.cfg configs)
  | .sending client _ _ x => ∃ b : ResolvedLocalBackend, b.Of env (configs client) ∧ x = b.snapshot
  | _ => True

theorem Entry.of_owner {cfg : LlmConfig} (e : Entry env) (h : e.owner = cfg) : e.backend.Of env cfg :=
  e.of (by rw [h])

/-! ### One step -/

theorem Store.Sound.setClient (hs : s.Sound configs) {client : ℕ} {x : Option Client}
    (hx : ∀ cl, x = some cl → cl.Of env (configs client)) : (s.setClient client x).Sound configs where
  clients := by
    intro client' cl hcl
    by_cases hclient : client' = client
    · subst hclient
      exact hx cl (by simpa [Store.setClient] using hcl)
    · exact hs.clients client' cl (by simpa [Store.setClient, Function.update_of_ne hclient] using hcl)
  log := hs.log

theorem Store.Sound.append (hs : s.Sound configs) {e : Event} (he : e.Of env configs) : (s.append e).Sound configs where
  clients := hs.clients
  log := by
    intro e' he'
    rcases List.mem_append.mp he' with hmem | hmem
    · exact hs.log e' hmem
    · rw [List.mem_singleton.mp hmem]
      exact he

theorem newClient_of {cfg : LlmConfig} {b : ResolvedLocalBackend} {cl : Client} (hb : b.Of env cfg)
    (h : newClient env cfg b = .ok cl) : cl.Of env cfg := by
  obtain ⟨maxTokens, -, h⟩ := Fallible.bind_eq_ok.mp h
  obtain ⟨temperature, -, h⟩ := Fallible.bind_eq_ok.mp h
  obtain ⟨timeout, -, h⟩ := Fallible.bind_eq_ok.mp h
  cases hretry : readRetry env cfg with
  | error e =>
    rw [hretry] at h
    cases h
  | ok retryMax =>
    rw [hretry] at h
    obtain rfl := Except.ok.inj h
    exact ⟨b, hb, rfl, rfl⟩

theorem sound_beginResolve (c : Caller) (key : Text) (hs : s.Sound configs) :
    (beginResolve configs c key s).2.Sound configs ∧ (beginResolve configs c key s).1.Sound configs := by
  unfold beginResolve
  split
  · exact ⟨hs, by simp [Job.Sound]⟩
  · rename_i primary h
    refine ⟨⟨hs.clients, hs.log⟩, ?_⟩
    rintro b ⟨rfl⟩
    exact of_candidate rfl (candidate_primary h)
  · exact ⟨hs, rfl, rfl⟩

theorem sound_resume (c : Caller) {r : Except LlmError ResolvedLocalBackend} (hs : s.Sound configs)
    (hr : ∀ b, r = .ok b → b.Of env (c.cfg configs)) :
    (resume configs env c r s).2.Sound configs ∧ (resume configs env c r s).1.Sound configs := by
  cases c with
  | direct cfg force => exact ⟨hs, trivial⟩
  | init client =>
    cases r with
    | error e => exact ⟨hs, trivial⟩
    | ok b =>
      unfold resume
      simp only
      split
      · rename_i cl hcl
        refine ⟨hs.setClient ?_, trivial⟩
        rintro _ ⟨rfl⟩
        exact newClient_of (hr b rfl) hcl
      · exact ⟨hs, trivial⟩
  | readopt client prompt =>
    cases r with
    | error e => cases e <;> exact ⟨hs, trivial⟩
    | ok b =>
      refine ⟨hs.setClient ?_, trivial⟩
      intro cl hcl
      obtain ⟨old, hold, rfl⟩ := Option.map_eq_some_iff.mp hcl
      by_cases hdegraded : b.degraded = true
      · rw [if_pos hdegraded]
        exact hs.clients client old hold
      · rw [if_neg hdegraded]
        exact ⟨b, hr b rfl, rfl, rfl⟩

theorem sound_sent {client : ℕ} {cl : Client} {x : Snapshot} {b : ResolvedLocalBackend} (hb : b.Of env (configs client))
    (hx : x = b.snapshot) (prompt : Text) : (Event.sent client (cl.request prompt x)).Of env configs := by
  subst hx
  exact ⟨b, hb, rfl, rfl, rfl, rfl, hb.effort⟩

/-- A thread that is in a call only goes on. -/
theorem go_of_act {turn : Turn} {j : Job env} {r : Job env × Store env} (h : act configs turn j s = some r)
    (hj : j ≠ .idle) : ∃ answer, turn = .go answer := by
  cases turn with
  | go answer => exact ⟨answer, rfl⟩
  | _ => cases j <;> first | exact absurd rfl hj | cases h

/-- A call begins. -/
theorem sound_begins {turn : Turn} {j' : Job env} {s' : Store env} (hs : s.Sound configs)
    (h : act configs turn .idle s = some (j', s')) : s'.Sound configs ∧ j'.Sound configs := by
  cases turn with
  | resolve cfg force =>
    obtain ⟨rfl, rfl⟩ := Prod.mk.inj (Option.some.inj h)
    exact ⟨hs, trivial⟩
  | construct client =>
    simp only [act] at h
    split at h
    · cases h
    · obtain ⟨rfl, rfl⟩ := Prod.mk.inj (Option.some.inj h)
      exact ⟨hs, trivial⟩
  | generate client prompt =>
    simp only [act] at h
    split at h
    · obtain ⟨rfl, rfl⟩ := Prod.mk.inj (Option.some.inj h)
      exact ⟨hs, trivial⟩
    · cases h
  | reset =>
    obtain ⟨rfl, rfl⟩ := Prod.mk.inj (Option.some.inj h)
    exact ⟨⟨hs.clients, hs.log⟩, trivial⟩
  | go answer => cases h

/-- **What one step keeps.** -/
theorem sound_act {turn : Turn} {j j' : Job env} {s' : Store env} (hs : s.Sound configs) (hj : j.Sound configs)
    (hown : ∀ c key e, j = .getting c key → s.cache key = some e →
      candidate env e.owner e.backend.source = candidate env (c.cfg configs) e.backend.source)
    (h : act configs turn j s = some (j', s')) : s'.Sound configs ∧ j'.Sound configs := by
  by_cases hidle : j = .idle
  · subst hidle
    exact sound_begins hs h
  obtain ⟨answer, rfl⟩ := go_of_act h hidle
  cases j with
  | idle => exact absurd rfl hidle
  | looking c =>
    simp only [act] at h
    split at h
    · obtain ⟨rfl, rfl⟩ := Prod.mk.inj (Option.some.inj h)
      exact ⟨hs, by simp [Job.Sound]⟩
    · rename_i key _
      split at h
      · obtain ⟨rfl, rfl⟩ := Prod.mk.inj (Option.some.inj h)
        exact ⟨hs, trivial⟩
      · have hbegin := sound_beginResolve c key hs
        rw [Option.some.inj h] at hbegin
        exact hbegin
  | getting c key =>
    simp only [act] at h
    split at h
    · rename_i e he
      obtain ⟨rfl, rfl⟩ := Prod.mk.inj (Option.some.inj h)
      refine ⟨hs, ?_⟩
      rintro b ⟨rfl⟩
      exact e.of (hown c key e rfl he)
    · obtain ⟨rfl, rfl⟩ := Prod.mk.inj (Option.some.inj h)
      exact ⟨hs, by simp [Job.Sound]⟩
  | probingPrimary c key primary secondary =>
    cases answer with
    | yes =>
      obtain ⟨rfl, rfl⟩ := Prod.mk.inj (Option.some.inj h)
      refine ⟨⟨hs.clients, hs.log⟩, ?_⟩
      rintro b ⟨rfl⟩
      exact primary.of_owner hj.1
    | no =>
      obtain ⟨rfl, rfl⟩ := Prod.mk.inj (Option.some.inj h)
      exact ⟨hs, hj⟩
    | raised =>
      obtain ⟨rfl, rfl⟩ := Prod.mk.inj (Option.some.inj h)
      exact ⟨hs, by simp [Job.Sound]⟩
  | probingSecondary c key primary secondary =>
    cases answer with
    | yes =>
      obtain ⟨rfl, rfl⟩ := Prod.mk.inj (Option.some.inj h)
      refine ⟨⟨hs.clients, hs.log⟩, ?_⟩
      rintro b ⟨rfl⟩
      exact secondary.of_owner hj.2
    | no =>
      -- Neither answers: it is the primary all the same.
      obtain ⟨rfl, rfl⟩ := Prod.mk.inj (Option.some.inj h)
      refine ⟨hs, ?_⟩
      rintro b ⟨rfl⟩
      exact primary.of_owner hj.1
    | raised =>
      obtain ⟨rfl, rfl⟩ := Prod.mk.inj (Option.some.inj h)
      exact ⟨hs, by simp [Job.Sound]⟩
  | resolved c r =>
    simp only [act] at h
    split at h
    · rename_i b
      have hb := hj b rfl
      have hresume := sound_resume c (hs.append (e := .returned (c.cfg configs) b) ⟨hb, hb.effort⟩) hj
      rw [Option.some.inj h] at hresume
      exact hresume
    · have hresume := sound_resume c hs hj
      rw [Option.some.inj h] at hresume
      exact hresume
  | checking client prompt =>
    obtain ⟨cl, hcl, heq⟩ := Option.map_eq_some_iff.mp h
    split at heq
    · obtain ⟨rfl, rfl⟩ := Prod.mk.inj heq
      exact ⟨hs, trivial⟩
    · obtain ⟨rfl, rfl⟩ := Prod.mk.inj heq
      exact ⟨hs, trivial⟩
  | unmarking client prompt =>
    obtain ⟨cl, hcl, heq⟩ := Option.map_eq_some_iff.mp h
    obtain ⟨rfl, rfl⟩ := Prod.mk.inj heq
    refine ⟨hs.setClient ?_, trivial⟩
    rintro _ ⟨rfl⟩
    exact hs.clients client cl hcl
  | posting client prompt attempt =>
    obtain ⟨cl, hcl, heq⟩ := Option.map_eq_some_iff.mp h
    obtain ⟨rfl, rfl⟩ := Prod.mk.inj heq
    obtain ⟨b, hb, -, hsnapshot⟩ := hs.clients client cl hcl
    exact ⟨hs, b, hb, hsnapshot⟩
  | sending client prompt attempt x =>
    obtain ⟨cl, hcl, heq⟩ := Option.map_eq_some_iff.mp h
    obtain ⟨rfl, rfl⟩ := Prod.mk.inj heq
    obtain ⟨b, hb, hx⟩ := hj
    refine ⟨hs.append (sound_sent hb hx prompt), ?_⟩
    cases answer with
    | yes => exact trivial
    | no =>
      simp only
      split
      · exact trivial
      · exact trivial
    | raised => exact trivial
  | failing client =>
    obtain ⟨cl, hcl, heq⟩ := Option.map_eq_some_iff.mp h
    split at heq
    · split at heq
      · obtain ⟨rfl, rfl⟩ := Prod.mk.inj heq
        exact ⟨⟨hs.clients, hs.log⟩, trivial⟩
      · obtain ⟨rfl, rfl⟩ := Prod.mk.inj heq
        exact ⟨hs, trivial⟩
    · obtain ⟨rfl, rfl⟩ := Prod.mk.inj heq
      exact ⟨hs, trivial⟩
  | marking client =>
    obtain ⟨cl, hcl, heq⟩ := Option.map_eq_some_iff.mp h
    obtain ⟨rfl, rfl⟩ := Prod.mk.inj heq
    refine ⟨hs.setClient ?_, trivial⟩
    rintro _ ⟨rfl⟩
    exact hs.clients client cl hcl

theorem process_keeps : Keeps (act configs) (ownEntries configs) (fun s : Store env => s.Sound configs)
    (fun j _ => j.Sound configs) (fun _ _ => True) where
  own := by
    intro w k turn j s hw ha h
    refine sound_act hw.store (hw.each k) ?_ h
    intro c key e hjob hentry
    rw [ownEntries, hjob] at ha
    simpa [hentry] using ha
  other := fun hw _ _ k' _ => ⟨hw.each k', trivial, trivial⟩

end Sound

/-- **Backends are not crossed** where the entries that calls get were chosen for their own candidates: what is returned
is a backend of the configuration of the call, and what is sent is all of one backend of the client's. -/
theorem backends_not_crossed {env : Env} {configs : ℕ → LlmConfig} {w : Process env}
    (h : Runs.Later (step (act configs)) (ownEntries configs) (Process.initial env) w) :
    ∀ e ∈ w.store.log, e.Of env configs := by
  have hstart : Holds (fun s : Store env => s.Sound configs) (fun j _ => j.Sound configs) (fun _ _ => True)
      (Process.initial env) := by
    refine ⟨⟨?_, ?_⟩, fun _ => trivial, fun _ _ _ => trivial⟩
    · intro client cl hcl
      cases hcl
    · intro e he
      cases he
  exact (hstart.later process_keeps h).store.log

/-! ### Two keys for one server -/

/-- Texts that have no capitals in them, and no number but the time a probe has. -/
def plainEnv : Env where
  formats := ⟨fun _ => none, fun _ => none, fun
    | .float _ => "1.5".toList
    | _ => []⟩
  unicode := ⟨id, fun _ => true, fun _ => false⟩

/-- An Ollama that needs no key, and another server that does. -/
def twoServers : LlmConfig :=
  [("base_url".toList, .str "http://127.0.0.1:11434/v1/".toList), ("model".toList, .str "qwen".toList),
    ("reasoning_effort".toList, .str "low".toList), ("max_tokens".toList, .int 64), ("temperature".toList, .int 0),
    ("timeout_sec".toList, .int 60),
    ("fallback".toList, .dict
      [("enabled".toList, .bool true), ("base_url".toList, .str "http://localhost:1234/v1".toList),
        ("model".toList, .str "phi".toList), ("api_key".toList, .str "secret".toList)])]

/-- The Ollama is down, and the client asks the other one. -/
def failoverTurns : List (ℕ × Turn) :=
  [(0, .construct 0), (0, .go .yes), (0, .go .no), (0, .go .yes), (0, .go .yes), (1, .generate 0 "hello".toList),
    (1, .go .yes), (1, .go .yes), (1, .go .yes)]

def askedFallback : Event → Bool
  | .sent _ r => r.model = "phi".toList && r.authorization = some "Bearer secret".toList && r.reasoningEffort = none
  | .returned _ _ => false

theorem backends_not_crossed_failover :
    ∃ w : Process plainEnv,
      Runs.Later (step (act fun _ => twoServers)) (ownEntries fun _ => twoServers) (Process.initial plainEnv) w ∧
        (∀ e ∈ w.store.log, e.Of plainEnv fun _ => twoServers) ∧ w.store.log.any askedFallback = true := by
  obtain ⟨w, hrun, hw⟩ := (Option.any_eq_true _ _).mp (show (Runs.run (step (act fun _ => twoServers))
    (ownEntries fun _ => twoServers) failoverTurns (Process.initial plainEnv)).any
      (fun w => w.store.log.any askedFallback) = true by decide +kernel)
  have hlater := Runs.Later.of_run hrun
  exact ⟨w, hlater, backends_not_crossed hlater, hw⟩

/-- One server, and a key for it. -/
def keyed (apiKey : String) : LlmConfig :=
  [("base_url".toList, .str "https://llm.example/v1".toList), ("api_key".toList, .str apiKey.toList)]

/-- The backend of another key is returned. -/
def keyCrossed : Event → Bool
  | .returned cfg b =>
      strippedGet plainEnv cfg "api_key" "" = "second".toList && b.apiKey = "first".toList && !decide (b.Of plainEnv cfg)
  | .sent _ _ => false

/-- Two configurations that differ in their `api_key`: the second call returns the key of the first. -/
theorem api_key_crossed :
    ∃ w : Process plainEnv, Runs.Later (step (act fun _ => [])) (fun _ _ => true) (Process.initial plainEnv) w ∧
      ∃ cfg b, Event.returned cfg b ∈ w.store.log ∧ strippedGet plainEnv cfg "api_key" "" = "second".toList ∧
        b.apiKey = "first".toList ∧ ¬ b.Of plainEnv cfg := by
  obtain ⟨w, hrun, hw⟩ := (Option.any_eq_true _ _).mp (show (Runs.run (step (act fun _ => [])) (fun _ _ => true)
    [(0, .resolve (keyed "first") false), (0, .go .yes), (0, .go .yes), (0, .resolve (keyed "second") false),
      (0, .go .yes), (0, .go .yes), (0, .go .yes)] (Process.initial plainEnv)).any
        (fun w => w.store.log.any keyCrossed) = true by decide +kernel)
  obtain ⟨e, he, hcrossed⟩ := List.any_eq_true.mp hw
  cases e with
  | sent client r => cases hcrossed
  | returned cfg b =>
    simp only [keyCrossed, Bool.and_eq_true, Bool.not_eq_true', decide_eq_true_eq, decide_eq_false_iff_not] at hcrossed
    exact ⟨w, Runs.Later.of_run hrun, cfg, b, he, hcrossed.1.1, hcrossed.1.2, hcrossed.2⟩

end CyClaw.Llm

/-
The settings of the console, `HarnessConfig`, and the four requests that change one.

A request assigns a field of the shared object, builds the payload from all of them and
replaces `config.json`, and others may come in between.  A clock counts the assignments and
the payloads, so that the payload in place can be compared with what was assigned.

A payload that is in place and was built after the last assignment of a field has that field
as it is in memory (`Settings.Current`); and some request still owes the file a field that it
does not have (`fields_owed`).  This needs that no save raises and that no payload replaces a
later one (`settings_agree`); without it a setting is live and not stored, or gets lost
(`settings_drift`).
-/
import CyClaw.Lib.Json
import CyClaw.Lib.PyText
import CyClaw.Lib.Threads

namespace CyClaw.Harness

open PyText Threads

/-- The mutable fields. -/
structure Settings where
  soulEnabled : Bool
  selectedModel : List Char
  webEnabled : Bool
  memoryEnabled : Bool
  port : ℤ

def Settings.default : Settings where
  soulEnabled := true
  selectedModel := []
  webEnabled := false
  memoryEnabled := false
  port := 8790

inductive Field where
  | soul
  | model
  | web
  | memory
deriving DecidableEq

/-- A field with a value for it. -/
inductive Setting where
  | soul (enabled : Bool)
  | model (name : List Char)
  | web (enabled : Bool)
  | memory (enabled : Bool)
deriving DecidableEq

def Setting.field : Setting → Field
  | .soul _ => .soul
  | .model _ => .model
  | .web _ => .web
  | .memory _ => .memory

def Settings.read (c : Settings) : Field → Setting
  | .soul => .soul c.soulEnabled
  | .model => .model c.selectedModel
  | .web => .web c.webEnabled
  | .memory => .memory c.memoryEnabled

def Settings.assign (c : Settings) : Setting → Settings
  | .soul enabled => { c with soulEnabled := enabled }
  | .model name => { c with selectedModel := name }
  | .web enabled => { c with webEnabled := enabled }
  | .memory enabled => { c with memoryEnabled := enabled }

@[simp] theorem Settings.read_assign_self (c : Settings) (r : Setting) : (c.assign r).read r.field = r := by
  cases r <;> rfl

theorem Settings.read_assign_of_ne (c : Settings) {r : Setting} {f : Field} (h : f ≠ r.field) :
    (c.assign r).read f = c.read f := by
  cases r <;> cases f <;> first | rfl | exact absurd rfl h

/-! ### The file -/

/-- The payload of `save`. -/
def Settings.payload (c : Settings) : Json :=
  .obj [("soul_enabled".toList, .bool c.soulEnabled), ("selected_model".toList, .str c.selectedModel),
    ("web_enabled".toList, .bool c.webEnabled), ("memory_enabled".toList, .bool c.memoryEnabled),
    ("port".toList, .int c.port)]

/-- A field that holds a boolean, else what there was. -/
def boolOr (old : Bool) : Option Json → Bool
  | some (.bool b) => b
  | _ => old

def textOr (old : List Char) : Option Json → List Char
  | some (.str t) => t
  | _ => old

/-- A port that a user may bind, else what there was.  A boolean is an `int` and no port. -/
def portOr (old : ℤ) : Option Json → ℤ
  | some (.int n) => if 1024 ≤ n ∧ n ≤ 65535 then n else old
  | _ => old

/-- `_apply_stored`. -/
def Settings.applyStored (c : Settings) (stored : List (List Char × Json)) : Settings where
  soulEnabled := boolOr c.soulEnabled (Json.get stored "soul_enabled")
  selectedModel := textOr c.selectedModel (Json.get stored "selected_model")
  webEnabled := boolOr c.webEnabled (Json.get stored "web_enabled")
  memoryEnabled := boolOr c.memoryEnabled (Json.get stored "memory_enabled")
  port := portOr c.port (Json.get stored "port")

/-- What `load` makes of the file, `none` where it raises. -/
def loadSettings : Json → Option Settings
  | .obj stored => some (Settings.default.applyStored stored)
  | _ => none

/-- What is saved is loaded. -/
theorem loadSettings_payload (c : Settings) (f : Field) :
    (loadSettings c.payload).map (·.read f) = some (c.read f) := by
  cases f <;> rfl

/-! ### Requests -/

/-- What a request asks for. -/
inductive SettingRequest where
  | soul (enabled : Bool)
  | memory (enabled : Bool)
  | model (name : List Char)
  | web (enabled : Bool)

def SettingRequest.setting : SettingRequest → Setting
  | .soul enabled => .soul enabled
  | .memory enabled => .memory enabled
  | .model name => .model (strip name)
  | .web enabled => .web enabled

structure SettingsStore where
  cfg : Settings
  /-- `config.json`. -/
  file : Json
  /-- Counts assignments and payloads. -/
  clock : ℕ
  /-- When each field was last assigned. -/
  assigned : Field → ℕ
  /-- When the payload in place was built. -/
  placed : ℕ

/-- A request with what it has done so far. -/
inductive SettingsJob where
  | waiting
  | assigned (r : Setting) (since : ℕ)
  | built (r : Setting) (since : ℕ) (payload : Json) (tick : ℕ)
  | returned (r : Setting) (since : ℕ)
  | raised

inductive SettingsTurn where
  | request (r : SettingRequest)
  | build
  | replace
  /-- Building or replacing raises; nothing is in place by then. -/
  | fails

def settingsAct : SettingsTurn → SettingsJob → SettingsStore → Option (SettingsJob × SettingsStore)
  | .request r, .waiting, s =>
      some (.assigned r.setting s.clock,
        { s with
          cfg := s.cfg.assign r.setting
          clock := s.clock + 1
          assigned := Function.update s.assigned r.setting.field s.clock })
  | .build, .assigned r since, s => some (.built r since s.cfg.payload s.clock, { s with clock := s.clock + 1 })
  | .replace, .built r since payload tick, s => some (.returned r since, { s with file := payload, placed := tick })
  | .fails, .assigned _ _, s => some (.raised, s)
  | .fails, .built _ _ _ _, s => some (.raised, s)
  | _, _, _ => none

abbrev SettingsWorld := World ℕ SettingsJob SettingsStore

/-- The server starts with what `load` finds, or writes where there is no file. -/
def SettingsStore.started : Option (List (List Char × Json)) → SettingsStore
  | none =>
      { cfg := .default, file := Settings.default.payload, clock := 2, assigned := fun _ => 0, placed := 1 }
  | some stored =>
      { cfg := Settings.default.applyStored stored, file := .obj stored, clock := 2, assigned := fun _ => 0, placed := 1 }

def SettingsWorld.started (stored : Option (List (List Char × Json))) : SettingsWorld :=
  { job := fun _ => .waiting, store := .started stored }

def SettingsJob.inProgress : SettingsJob → Bool
  | .assigned _ _ => true
  | .built _ _ _ _ => true
  | _ => false

/-- No save raises, and no payload replaces one that was built after it. -/
def savesInOrder (w : SettingsWorld) : ℕ × SettingsTurn → Bool
  | (_, .fails) => false
  | (k, .replace) =>
      match w.job k with
      | .built _ _ _ tick => w.store.placed < tick
      | _ => true
  | _ => true

/-! ### What is in place -/

/-- What a restart finds of a field. -/
def SettingsStore.stored (s : SettingsStore) (f : Field) : Option Setting := (loadSettings s.file).map (·.read f)

structure SettingsStore.Wf (s : SettingsStore) : Prop where
  assigned_lt : ∀ f, s.assigned f < s.clock
  placed_lt : s.placed < s.clock
  current : ∀ f, s.assigned f < s.placed → s.stored f = some (s.cfg.read f)

/-- What a request since its assignment knows. -/
structure SettingsStore.Assigned (s : SettingsStore) (r : Setting) (since : ℕ) : Prop where
  since_lt : since < s.clock
  since_le : since ≤ s.assigned r.field
  value : s.assigned r.field = since → s.cfg.read r.field = r

/-- A payload has what was not assigned again since. -/
structure SettingsStore.Built (s : SettingsStore) (payload : Json) (tick : ℕ) : Prop where
  tick_lt : tick < s.clock
  tick_ne : ∀ f, s.assigned f ≠ tick
  fields : ∀ f, s.assigned f < tick → (loadSettings payload).map (·.read f) = some (s.cfg.read f)

def SettingsJob.Sound (s : SettingsStore) : SettingsJob → Prop
  | .assigned r since => s.Assigned r since
  | .built r since payload tick => s.Assigned r since ∧ since < tick ∧ s.Built payload tick
  | .returned r since => s.Assigned r since ∧ since < s.placed
  | _ => True

section Step

variable {c : SettingsTurn} {b b' j : SettingsJob} {s s' : SettingsStore}

/-- A turn that saves in order may have. -/
structure InOrder (c : SettingsTurn) (b : SettingsJob) (s : SettingsStore) : Prop where
  fails : c ≠ .fails
  replace : c = .replace → ∀ r since payload tick, b = .built r since payload tick → s.placed < tick

/-- **What a step makes of the store.** -/
inductive SettingsMoves (s : SettingsStore) : SettingsJob → SettingsJob → SettingsStore → Prop where
  | assigns {r} :
      SettingsMoves s .waiting (.assigned r s.clock)
        { s with
          cfg := s.cfg.assign r
          clock := s.clock + 1
          assigned := Function.update s.assigned r.field s.clock }
  | builds {r since} :
      SettingsMoves s (.assigned r since) (.built r since s.cfg.payload s.clock) { s with clock := s.clock + 1 }
  | replaces {r since payload tick} (horder : s.placed < tick) :
      SettingsMoves s (.built r since payload tick) (.returned r since) { s with file := payload, placed := tick }

theorem moves_of_settingsAct (hc : InOrder c b s) (h : settingsAct c b s = some (b', s')) :
    SettingsMoves s b b' s' := by
  unfold settingsAct at h
  split at h
  · obtain ⟨rfl, rfl⟩ := Prod.mk.inj (Option.some.inj h)
    exact .assigns
  · obtain ⟨rfl, rfl⟩ := Prod.mk.inj (Option.some.inj h)
    exact .builds
  · obtain ⟨rfl, rfl⟩ := Prod.mk.inj (Option.some.inj h)
    exact .replaces (hc.replace rfl _ _ _ _ rfl)
  · exact absurd rfl hc.fails
  · exact absurd rfl hc.fails
  · cases h

theorem settings_own (hs : s.Wf) (hb : b.Sound s) (h : SettingsMoves s b b' s') : s'.Wf ∧ b'.Sound s' := by
  cases h with
  | assigns =>
    rename_i r
    refine ⟨⟨?_, Nat.lt_succ_of_lt hs.placed_lt, ?_⟩, Nat.lt_succ_self _, ?_, ?_⟩
    · intro f
      show Function.update s.assigned r.field s.clock f < s.clock + 1
      by_cases hf : f = r.field
      · rw [hf, Function.update_self]
        exact Nat.lt_succ_self _
      · rw [Function.update_of_ne hf]
        exact Nat.lt_succ_of_lt (hs.assigned_lt f)
    · intro f
      show Function.update s.assigned r.field s.clock f < s.placed → s.stored f = some ((s.cfg.assign r).read f)
      by_cases hf : f = r.field
      · rw [hf, Function.update_self]
        exact fun h => absurd h (Nat.lt_asymm hs.placed_lt)
      · rw [Function.update_of_ne hf, Settings.read_assign_of_ne _ hf]
        exact hs.current f
    · show s.clock ≤ Function.update s.assigned r.field s.clock r.field
      rw [Function.update_self]
    · exact fun _ => Settings.read_assign_self _ r
  | builds =>
    refine ⟨⟨fun f => Nat.lt_succ_of_lt (hs.assigned_lt f), Nat.lt_succ_of_lt hs.placed_lt, hs.current⟩, ?_⟩
    obtain ⟨hlt, hle, hvalue⟩ := hb
    refine ⟨⟨Nat.lt_succ_of_lt hlt, hle, hvalue⟩, hlt, Nat.lt_succ_self _, ?_, ?_⟩
    · exact fun f => Nat.ne_of_lt (hs.assigned_lt f)
    · exact fun f _ => loadSettings_payload s.cfg f
  | replaces =>
    obtain ⟨hassigned, hsince, hbuilt⟩ := hb
    exact ⟨⟨hs.assigned_lt, hbuilt.tick_lt, hbuilt.fields⟩, ⟨hassigned.since_lt, hassigned.since_le, hassigned.value⟩, hsince⟩

theorem Assigned.assign {r r' : Setting} {since : ℕ} (h : s.Assigned r' since) :
    SettingsStore.Assigned
      { s with
        cfg := s.cfg.assign r
        clock := s.clock + 1
        assigned := Function.update s.assigned r.field s.clock } r' since := by
  refine ⟨Nat.lt_succ_of_lt h.since_lt, ?_, ?_⟩
  · show since ≤ Function.update s.assigned r.field s.clock r'.field
    by_cases hf : r'.field = r.field
    · rw [hf, Function.update_self]
      exact Nat.le_of_lt h.since_lt
    · rw [Function.update_of_ne hf]
      exact h.since_le
  · show Function.update s.assigned r.field s.clock r'.field = since → (s.cfg.assign r).read r'.field = r'
    by_cases hf : r'.field = r.field
    · rw [hf, Function.update_self]
      exact fun heq => absurd heq (Nat.ne_of_gt h.since_lt)
    · rw [Function.update_of_ne hf, Settings.read_assign_of_ne _ hf]
      exact h.value

theorem Built.assign {r : Setting} {payload : Json} {tick : ℕ} (h : s.Built payload tick) :
    SettingsStore.Built
      { s with
        cfg := s.cfg.assign r
        clock := s.clock + 1
        assigned := Function.update s.assigned r.field s.clock } payload tick := by
  refine ⟨Nat.lt_succ_of_lt h.tick_lt, ?_, ?_⟩
  · intro f
    show Function.update s.assigned r.field s.clock f ≠ tick
    by_cases hf : f = r.field
    · rw [hf, Function.update_self]
      exact Nat.ne_of_gt h.tick_lt
    · rw [Function.update_of_ne hf]
      exact h.tick_ne f
  · intro f
    show Function.update s.assigned r.field s.clock f < tick → _ = some ((s.cfg.assign r).read f)
    by_cases hf : f = r.field
    · rw [hf, Function.update_self]
      exact fun hlt => absurd hlt (Nat.lt_asymm h.tick_lt)
    · rw [Function.update_of_ne hf, Settings.read_assign_of_ne _ hf]
      exact h.fields f

/-- A step beside another request. -/
theorem settings_other (hj : j.Sound s) (h : SettingsMoves s b b' s') : j.Sound s' := by
  cases h with
  | assigns =>
    cases j with
    | assigned => exact Assigned.assign hj
    | built => exact ⟨Assigned.assign hj.1, hj.2.1, Built.assign hj.2.2⟩
    | returned => exact ⟨Assigned.assign hj.1, hj.2⟩
    | _ => trivial
  | builds =>
    have hlater : ∀ r since, s.Assigned r since → SettingsStore.Assigned { s with clock := s.clock + 1 } r since :=
      fun _ _ h => ⟨Nat.lt_succ_of_lt h.since_lt, h.since_le, h.value⟩
    cases j with
    | assigned => exact hlater _ _ hj
    | built =>
      obtain ⟨hassigned, hsince, hbuilt⟩ := hj
      exact ⟨hlater _ _ hassigned, hsince, Nat.lt_succ_of_lt hbuilt.tick_lt, hbuilt.tick_ne, hbuilt.fields⟩
    | returned => exact ⟨hlater _ _ hj.1, hj.2⟩
    | _ => trivial
  | replaces horder =>
    cases j with
    | assigned => exact ⟨hj.since_lt, hj.since_le, hj.value⟩
    | built =>
      obtain ⟨hassigned, hsince, hbuilt⟩ := hj
      exact ⟨⟨hassigned.since_lt, hassigned.since_le, hassigned.value⟩, hsince, hbuilt.tick_lt, hbuilt.tick_ne,
        hbuilt.fields⟩
    | returned => exact ⟨⟨hj.1.since_lt, hj.1.since_le, hj.1.value⟩, Nat.lt_trans hj.2 horder⟩
    | _ => trivial

/-- A request that will put a field in place. -/
def SettingsJob.Owes (f : Field) (b : SettingsJob) (s : SettingsStore) : Prop :=
  match b with
  | .assigned _ _ => True
  | .built _ _ _ tick => s.assigned f < tick
  | _ => False

theorem settings_owed {f : Field} (hs : s.Wf) (h : SettingsMoves s b b' s') :
    s'.assigned f < s'.placed ∨ b'.Owes f s' ∨
      ¬ b.Owes f s ∧ (s.assigned f < s.placed → s'.assigned f < s'.placed) ∧
        ∀ j : SettingsJob, j.Owes f s → j.Owes f s' := by
  cases h with
  | assigns => exact Or.inr (Or.inl trivial)
  | builds => exact Or.inr (Or.inl (hs.assigned_lt f))
  | replaces horder =>
    rename_i r since payload tick
    by_cases hlt : s.assigned f < tick
    · exact Or.inl hlt
    · exact Or.inr (Or.inr ⟨hlt, fun h => Nat.lt_trans h horder, fun _ h => h⟩)

end Step

/-! ### Runs -/

section Runs

variable {stored : Option (List (List Char × Json))} {w : SettingsWorld} {k : ℕ} {c : SettingsTurn}

theorem inOrder_of_allowed (h : savesInOrder w (k, c) = true) : InOrder c (w.job k) w.store where
  fails := by
    rintro rfl
    cases h
  replace := by
    rintro rfl r since payload tick hjob
    rw [savesInOrder, hjob] at h
    exact of_decide_eq_true h

theorem settings_keeps :
    Keeps settingsAct savesInOrder SettingsStore.Wf (fun b s => b.Sound s) (fun _ _ => True) where
  own := fun hw hallow h => settings_own hw.store (hw.each _) (moves_of_settingsAct (inOrder_of_allowed hallow) h)
  other := fun hw hallow h k' _ =>
    ⟨settings_other (hw.each k') (moves_of_settingsAct (inOrder_of_allowed hallow) h), trivial, trivial⟩

theorem settings_started :
    Holds SettingsStore.Wf (fun b s => b.Sound s) (fun _ _ => True) (SettingsWorld.started stored) := by
  refine ⟨?_, fun _ => trivial, fun _ _ _ => trivial⟩
  cases stored with
  | none => exact ⟨fun _ => Nat.zero_lt_two, Nat.one_lt_two, fun f _ => loadSettings_payload _ f⟩
  | some fields => exact ⟨fun _ => Nat.zero_lt_two, Nat.one_lt_two, fun _ _ => rfl⟩

theorem settings_hold (h : Runs.Later (step settingsAct) savesInOrder (SettingsWorld.started stored) w) :
    Holds SettingsStore.Wf (fun b s => b.Sound s) (fun _ _ => True) w :=
  settings_started.later settings_keeps h

/-- The file has a field as it is in memory, or some request is to see to it. -/
theorem fields_owed (f : Field) (h : Runs.Later (step settingsAct) savesInOrder (SettingsWorld.started stored) w) :
    Owed (fun s : SettingsStore => s.assigned f < s.placed) (fun b s => b.Owes f s) w := by
  have hstart : Owed (fun s : SettingsStore => s.assigned f < s.placed) (fun b s => b.Owes f s)
      (SettingsWorld.started stored) := by
    cases stored <;> exact Or.inl Nat.zero_lt_one
  refine (h.invariant (I := fun w => Holds SettingsStore.Wf (fun b s => b.Sound s) (fun _ _ => True) w ∧
    Owed (fun s : SettingsStore => s.assigned f < s.placed) (fun b s => b.Owes f s) w) ⟨settings_started, hstart⟩ ?_).2
  rintro w w' ⟨k, c⟩ ⟨hw, howed⟩ hallow hstep
  refine ⟨hw.step settings_keeps hallow hstep, howed.step hstep fun hact => ?_⟩
  exact settings_owed hw.store (moves_of_settingsAct (inOrder_of_allowed hallow) hact)

end Runs

end CyClaw.Harness

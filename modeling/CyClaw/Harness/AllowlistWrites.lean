/-
Calls of `WebTool.allow` and `WebTool.deny` that come between one another.

Each reads the allowlist, edits what it has read and replaces the file, and there is no lock.
Where every call reads the file as it is and replaces it while it still is as it was read, the file
is what the calls make of it one at a time; and where `_host_of` leaves the hosts in it alone, a key
stays off the list from a denial on, until it is allowed again (`allowlist_updates_kept`).
-/
import CyClaw.Harness.WebTool
import CyClaw.Lib.LoadSave

namespace CyClaw.Harness

open PyText Url Threads

inductive AllowCall where
  | allow (raw : UrlText)
  | deny (raw : UrlText)
deriving DecidableEq

/-- A call whose file operations succeed. -/
def clearAround : WebAround := ⟨true, true, fun _ _ => .failed, fun _ => .refused⟩

def AllowCall.effect (env : WebTables) (call : AllowCall) (file : AllowFile) : AllowFile × List WebEvent :=
  match call with
  | .allow raw => webAllow env clearAround raw file
  | .deny raw => webDeny env clearAround raw file

/-- What a call makes of the file as it has read it, `none` where it saves nothing. -/
def allowEdit (env : WebTables) (call : AllowCall) (file : AllowFile) : Option AllowFile :=
  if (call.effect env file).2 = [] then none else some (call.effect env file).1

abbrev AllowWorld := LoadSave.Calls AllowCall AllowFile

/-- The key that a call is about. -/
def AllowCall.key (env : WebTables) : AllowCall → Option (UrlText × UrlText × UrlText)
  | .allow raw => (parseAllowEntry env raw).toOption.map AllowRow.key
  | .deny raw => (parseAllowEntry env raw).toOption.map AllowRow.key

def AllowCall.allows : AllowCall → Bool
  | .allow _ => true
  | .deny _ => false

/-- `_host_of` leaves the host of an entry alone that is allowed. -/
def AllowCall.settled (env : WebTables) : AllowCall → Bool
  | .allow raw => (parseAllowEntry env raw).toOption.all fun entry => hostOf env entry.host = entry.host
  | .deny _ => true

/-- And those of a file. -/
def settledFile (env : WebTables) : AllowFile → Bool
  | .entries rows => rows.all fun row => hostOf env row.host = row.host
  | _ => true

/-- Every reading gives the file. -/
def readsFile (w : AllowWorld) : ℕ × LoadSave.Turn AllowCall AllowFile → Bool
  | (_, .load seen) => seen = w.store.file
  | _ => true

/-- Every reading gives the file, every replacement is of the file as it was read, and the hosts
that are allowed are settled. -/
def allowsApart (env : WebTables) (w : AllowWorld) (turn : ℕ × LoadSave.Turn AllowCall AllowFile) : Bool :=
  LoadSave.undisturbed w turn &&
    match turn with
    | (_, .start call) => call.settled env
    | _ => true

/-- The key is on the list. -/
def Listed (env : WebTables) (file : AllowFile) (key : UrlText × UrlText × UrlText) : Prop :=
  ∃ row, Loaded env file row ∧ row.key = key

instance (env : WebTables) (file : AllowFile) (key : UrlText × UrlText × UrlText) : Decidable (Listed env file key) :=
  decidable_of_iff ((loadEntries env file).toOption.any fun rows => rows.any fun row => row.key = key) <| by
    unfold Listed Loaded
    cases loadEntries env file with
    | error e => simp [Except.toOption]
    | ok rows => simp [Except.toOption]

/-- Rows that are loaded as they are saved. -/
def Steady (env : WebTables) (file : AllowFile) : Prop := ∀ row, Loaded env file row → row.Fixed env

section Files

variable {env : WebTables} {file : AllowFile} {call : AllowCall} {key : UrlText × UrlText × UrlText}

theorem steady_of_settledFile (h : settledFile env file = true) : Steady env file := by
  rintro row ⟨rows, hload, hmem⟩
  cases file with
  | absent =>
    obtain rfl := Except.ok.inj hload
    cases hmem
  | unreadable => exact absurd hload refuse_ne_ok
  | entries saved =>
    obtain rfl := Except.ok.inj hload
    obtain ⟨row, hrow, rfl⟩ := List.mem_map.mp hmem
    obtain ⟨hsaved, hne⟩ := List.mem_filter.mp hrow
    have hhost : hostOf env row.host = row.host := of_decide_eq_true (List.all_eq_true.mp h row hsaved)
    have hloaded : (loadRow env row).host = row.host := hhost
    refine fixed_of_settled (by rw [hloaded, hhost]) ?_ (by rw [hloaded]; exact of_decide_eq_true hne) ?_
    · show (if _ then _ else _ : UrlText) ≠ []
      split
      · decide
      · assumption
    · show (if _ then _ else _ : UrlText) ≠ []
      split
      · decide
      · assumption

theorem key_of_parse {raw : UrlText} {entry : AllowRow} (h : parseAllowEntry env raw = .ok entry) :
    (AllowCall.allow raw).key env = some entry.key ∧ (AllowCall.deny raw).key env = some entry.key := by
  constructor <;> simp only [AllowCall.key, h] <;> rfl

/-- **What a call makes of the rows it has loaded.** -/
theorem allowEdit_cases {new : AllowFile} (h : allowEdit env call file = some new) :
    ∃ entry entries, loadEntries env file = .ok entries ∧ call.key env = some entry.key ∧
      (call.allows = true ∧ (call.settled env = true → entry.Fixed env) ∧ new = .entries (entries ++ [entry]) ∨
        call.allows = false ∧ new = .entries (denyRows entry entries)) := by
  unfold allowEdit at h
  rw [Option.ite_none_left_eq_some] at h
  obtain ⟨hevents, hnew⟩ := h
  cases call with
  | allow raw =>
    rcases @webAllow_cases env clearAround raw file with heq | ⟨entry, entries, hparse, hload, heq⟩
    · exact absurd (congrArg Prod.snd heq) hevents
    · have heffect : (AllowCall.allow raw).effect env file = (.entries (entries ++ [entry]), [.stored entry]) := heq
      rw [heffect] at hnew
      refine ⟨entry, entries, hload, (key_of_parse hparse).1, Or.inl ⟨rfl, fun hsettled => ?_, (Option.some.inj hnew).symm⟩⟩
      rw [AllowCall.settled, hparse] at hsettled
      exact fixed_of_parse hparse (of_decide_eq_true hsettled)
  | deny raw =>
    rcases @webDeny_cases env clearAround raw file with heq | ⟨entry, entries, hparse, hload, heq⟩
    · exact absurd (congrArg Prod.snd heq) hevents
    · have heffect : (AllowCall.deny raw).effect env file = (.entries (denyRows entry entries), [.denied entry.key]) := heq
      rw [heffect] at hnew
      exact ⟨entry, entries, hload, (key_of_parse hparse).2, Or.inr ⟨rfl, (Option.some.inj hnew).symm⟩⟩

/-- A denial that saves nothing has not found a list. -/
theorem not_loaded_of_deny {raw : UrlText} (h : allowEdit env (.deny raw) file = none)
    (hkey : (AllowCall.deny raw).key env = some key) {row : AllowRow} : ¬ Loaded env file row := by
  rintro ⟨rows, hload, -⟩
  cases hparse : parseAllowEntry env raw with
  | error e =>
    rw [AllowCall.key, hparse] at hkey
    cases hkey
  | ok entry =>
    have heffect : (AllowCall.deny raw).effect env file = (.entries (denyRows entry rows), [.denied entry.key]) := by
      have hread : loadAllowed env clearAround file = .ok rows := hload
      show webDeny env clearAround raw file = _
      unfold webDeny
      rw [hparse]
      dsimp only
      rw [hread]
      rfl
    rw [allowEdit, heffect] at h
    cases h

theorem loaded_entries {rows : List AllowRow} (h : ∀ row ∈ rows, row.Fixed env) {row : AllowRow} :
    Loaded env (.entries rows) row ↔ row ∈ rows := by
  constructor
  · rintro ⟨rows', hload, hmem⟩
    rw [loadEntries_fixed h] at hload
    obtain rfl := Except.ok.inj hload
    exact hmem
  · exact fun hmem => ⟨rows, loadEntries_fixed h, hmem⟩

/-- **What a call does to the list.** -/
theorem listed_of_edit (hfile : Steady env file) (hcall : call.settled env = true) {new : AllowFile}
    (h : allowEdit env call file = some new) :
    Steady env new ∧ ∀ key, Listed env new key → call.allows = true ∧ call.key env = some key ∨
      Listed env file key ∧ (call.allows = false → call.key env ≠ some key) := by
  obtain ⟨entry, entries, hload, hkey, ⟨hallows, hfixed, rfl⟩ | ⟨hallows, rfl⟩⟩ := allowEdit_cases h
  · have hrows : ∀ row ∈ entries ++ [entry], row.Fixed env := by
      intro row hrow
      rcases List.mem_append.mp hrow with hrow | hrow
      · exact hfile row ⟨entries, hload, hrow⟩
      · rw [List.mem_singleton.mp hrow]
        exact hfixed hcall
    refine ⟨fun row hrow => hrows row ((loaded_entries hrows).mp hrow), ?_⟩
    rintro key ⟨row, hrow, rfl⟩
    rcases List.mem_append.mp ((loaded_entries hrows).mp hrow) with hmem | hmem
    · refine Or.inr ⟨⟨row, ⟨entries, hload, hmem⟩, rfl⟩, fun hdeny => ?_⟩
      rw [hallows] at hdeny
      cases hdeny
    · rw [List.mem_singleton.mp hmem]
      exact Or.inl ⟨hallows, hkey⟩
  · have hrows : ∀ row ∈ denyRows entry entries, row.Fixed env := by
      intro row hrow
      exact hfile row ⟨entries, hload, (List.mem_filter.mp hrow).1⟩
    refine ⟨fun row hrow => hrows row ((loaded_entries hrows).mp hrow), ?_⟩
    rintro key ⟨row, hrow, rfl⟩
    obtain ⟨hmem, hne⟩ := List.mem_filter.mp ((loaded_entries hrows).mp hrow)
    refine Or.inr ⟨⟨row, ⟨entries, hload, hmem⟩, rfl⟩, fun _ heq => ?_⟩
    rw [hkey, Option.some.injEq] at heq
    exact of_decide_eq_true hne heq.symm

end Files

/-! ### Calls one at a time -/

section Serial

variable {env : WebTables} {file : AllowFile} {bodies : List AllowCall} {key : UrlText × UrlText × UrlText}

theorem steady_run (hfile : Steady env file) (h : ∀ call ∈ bodies, call.settled env = true) :
    Steady env (LoadSave.run (allowEdit env) file bodies) := by
  induction bodies using List.reverseRecOn with
  | nil => exact hfile
  | append_singleton bodies call ih =>
    have hrest := ih fun c hc => h c (List.mem_append_left _ hc)
    rw [LoadSave.run_concat]
    cases hedit : allowEdit env call (LoadSave.run (allowEdit env) file bodies) with
    | none => exact hrest
    | some new => exact (listed_of_edit hrest (h call (List.mem_append_right _ (List.mem_singleton_self call))) hedit).1

/-- A key stays off the list until it is allowed again. -/
theorem not_listed_run {before after : List AllowCall} {call : AllowCall} (hfile : Steady env file)
    (h : ∀ c ∈ before ++ call :: after, c.settled env = true) (hdeny : call.allows = false) (hkey : call.key env = some key)
    (hafter : ∀ c ∈ after, c.allows = true → c.key env ≠ some key) :
    ¬ Listed env (LoadSave.run (allowEdit env) file (before ++ call :: after)) key := by
  induction after using List.reverseRecOn with
  | nil =>
    have hrest := steady_run hfile fun c hc => h c (List.mem_append_left _ hc)
    have hcall := h call (List.mem_append_right _ List.mem_cons_self)
    rw [LoadSave.run_concat]
    cases hedit : allowEdit env call (LoadSave.run (allowEdit env) file before) with
    | none =>
      rintro ⟨row, hloaded, -⟩
      cases call with
      | allow raw => cases hdeny
      | deny raw => exact not_loaded_of_deny hedit hkey hloaded
    | some new =>
      intro hlisted
      rcases (listed_of_edit hrest hcall hedit).2 key hlisted with ⟨hallows, -⟩ | ⟨-, hnot⟩
      · rw [hdeny] at hallows
        cases hallows
      · exact hnot hdeny hkey
  | append_singleton after c ih =>
    have hsub : ∀ c' ∈ before ++ call :: after, c'.settled env = true := by
      intro c' hc'
      refine h c' ?_
      rw [← List.cons_append, ← List.append_assoc]
      exact List.mem_append_left _ hc'
    have hrest := ih hsub fun c' hc' => hafter c' (List.mem_append_left _ hc')
    have hc : c.settled env = true := h c (by simp)
    rw [← List.cons_append, ← List.append_assoc, LoadSave.run_concat]
    cases hedit : allowEdit env c (LoadSave.run (allowEdit env) file (before ++ call :: after)) with
    | none => exact hrest
    | some new =>
      intro hlisted
      rcases (listed_of_edit (steady_run hfile hsub) hc hedit).2 key hlisted with ⟨hallows, hsame⟩ | ⟨hbefore, -⟩
      · exact hafter c (List.mem_append_right _ (List.mem_singleton_self c)) hallows hsame
      · exact hrest hbefore

end Serial

/-! ### Runs -/

section Runs

variable {env : WebTables} {file : AllowFile} {w : AllowWorld}

theorem undisturbed_of_allowsApart (w : AllowWorld) (turn : ℕ × LoadSave.Turn AllowCall AllowFile)
    (h : allowsApart env w turn = true) : LoadSave.undisturbed w turn = true := (Bool.and_eq_true_iff.mp h).1

theorem settled_of_start (w : AllowWorld) (k : ℕ) (call : AllowCall) (h : allowsApart env w (k, .start call) = true) :
    call.settled env = true := (Bool.and_eq_true_iff.mp h).2

/-- The list with one host. -/
def oneHost : AllowFile := .entries [⟨"https".toList, ['h'], [], ['/'], "https://h/".toList⟩]

def denyTurns : List (ℕ × LoadSave.Turn AllowCall AllowFile) := [(0, .start (.deny ['h'])), (0, .load oneHost), (0, .save)]

/-- A denial comes between the reading and the replacement of another call. -/
def betweenTurns : List (ℕ × LoadSave.Turn AllowCall AllowFile) :=
  [(1, .start (.allow ['o'])), (1, .load oneHost), (0, .start (.deny ['h'])), (0, .load oneHost), (0, .save), (1, .save)]

/-- What is saved for "h . .", and loaded as "h ". -/
def dottedHost : AllowFile := .entries [⟨"https".toList, "h . ".toList, [], ['/'], "https://h . /".toList⟩]

def dottedTurns : List (ℕ × LoadSave.Turn AllowCall AllowFile) :=
  [(0, .start (.allow "h . .".toList)), (0, .load .absent), (0, .save), (1, .start (.deny ['h'])), (1, .load dottedHost),
    (1, .save)]

end Runs

end CyClaw.Harness

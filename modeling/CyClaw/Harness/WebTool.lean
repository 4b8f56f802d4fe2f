/-
The web tool of `harness/web_search.py`.

Its calls come one after the other.  The log has what they do that can be told from outside:
rows that are saved or taken away, hosts that are looked up, and what is fetched.

A call fetches nothing but targets of rows that it has loaded, each right after its host has been
looked up (`webGet_events`).  Where every host that is allowed is settled, the rows that are loaded
are rows that have been stored and not been denied since (`WebTool.Sound`), so what is contacted
is what is on the list (`web_contacts_allowed`).
-/
import CyClaw.Harness.Allowlist
import CyClaw.Lib.Runs

namespace CyClaw.Harness

open PyText Url Runs

inductive WebEvent where
  /-- A call begins. -/
  | began
  | stored (row : AllowRow)
  | denied (key : UrlText × UrlText × UrlText)
  /-- `assert_public_host` has let the host pass. -/
  | resolved (host : UrlText)
  /-- `client.stream("GET", url)`, with what `web_enabled` is. -/
  | get (enabled : Bool) (url : UrlText)
deriving DecidableEq

structure WebTool where
  /-- `web_enabled`. -/
  enabled : Bool
  file : AllowFile
  log : List WebEvent

def WebTool.initial (enabled : Bool) : WebTool := ⟨enabled, .absent, []⟩

/-- How a request goes. -/
inductive WebReply where
  | page
  /-- A `WebToolError`. -/
  | refused
  /-- Anything else. -/
  | raises

/-- What a call finds around it. -/
structure WebAround where
  /-- The allowlist can be read. -/
  reads : Bool
  /-- It can be written. -/
  saves : Bool
  lookups : ℕ → UrlText → Lookup
  replies : ℕ → WebReply

inductive WebCall where
  | allow (raw : UrlText)
  | deny (raw : UrlText)
  | setEnabled (enabled : Bool)
  | fetch (url : UrlText)
  | search (query : UrlText)

/-- `_MAX_QUERY`. -/
def maxQuery : ℕ := 200

/-- `_MAX_SEARCH_URLS`. -/
def maxSearchUrls : ℕ := 8

def loadAllowed (env : WebTables) (around : WebAround) (file : AllowFile) : Except WebFailure (List AllowRow) :=
  if around.reads then loadEntries env file else refuse "allowlist is unreadable" "WEB_ALLOWLIST_UNREADABLE"

/-- `_require_enabled`. -/
def requireEnabled (env : WebTables) (around : WebAround) (tool : WebTool) : Except WebFailure (List AllowRow) :=
  if tool.enabled then
    (loadAllowed env around tool.file).bind fun entries =>
      if entries = [] then refuse "allowlist is empty — /web allow <url> first (fail-closed)" "WEB_ALLOWLIST_EMPTY"
      else .ok entries
  else refuse "web fetch is off — /web on after allowlisting hosts" "WEB_DISABLED"

/-- `_web_tool_allowlist`. -/
def webToolAllowlist (enabled : Bool) : List String := if enabled then ["web_fetch", "web_search"] else []

/-- `_gate_tool`. -/
def gateTool (enabled : Bool) (name : String) : Bool := name ∈ webToolAllowlist enabled

/-- `_get`, with the answers to the `i`-th request of the call. -/
def webGet (env : WebTables) (around : WebAround) (i : ℕ) (enabled : Bool) (url : UrlText) (entries : List AllowRow) :
    List WebEvent × Except WebFailure Unit :=
  match urlIsAllowed env url entries with
  | .error e => ([], .error e)
  | .ok none => ([], .error (.tool ⟨"URL is not on the allowlist".toList, "WEB_HOST_DENIED", some url⟩))
  | .ok (some row) =>
      match urlparse env.unicode (withScheme url) with
      | none => ([], .error .valueError)
      | some parsed =>
          if parsed.query ≠ [] ∨ parsed.params ≠ [] ∨ parsed.fragment ≠ [] then
            ([], refuse "query or fragment is not allowed" "WEB_BAD_URL")
          else match assertPublicHost env (around.lookups i) row.host with
            | .error e => ([], .error e)
            | .ok () =>
                match allowlistTarget row with
                | .error e => ([.resolved row.host], .error e)
                | .ok target =>
                    ([.resolved row.host, .get enabled target],
                      match around.replies i with
                      | .page => .ok ()
                      | .refused => refuse "fetch failed" "WEB_FETCH_FAILED"
                      | .raises => .error .osError)

def webFetch (env : WebTables) (around : WebAround) (url : UrlText) (tool : WebTool) : List WebEvent :=
  match requireEnabled env around tool with
  | .error _ => []
  | .ok entries => if gateTool tool.enabled "web_fetch" then (webGet env around 0 tool.enabled (strip url) entries).1 else []

/-- What `search` asks for a row. -/
def searchUrl (row : AllowRow) : UrlText :=
  if row.raw = [] then row.scheme ++ "://".toList ++ row.host ++ row.path else row.raw

/-- The loop of `search`, from the `i`-th row on. -/
def searchRows (env : WebTables) (around : WebAround) (enabled : Bool) (entries : List AllowRow) :
    ℕ → List AllowRow → List WebEvent
  | _, [] => []
  | i, row :: rest =>
      let page := webGet env around i enabled (searchUrl row) entries
      page.1 ++ match page.2 with
        | .ok () => searchRows env around enabled entries (i + 1) rest
        -- The error is recorded, and the next row is asked for.
        | .error (.tool _) => searchRows env around enabled entries (i + 1) rest
        | .error _ => []

def webSearch (env : WebTables) (around : WebAround) (query : UrlText) (tool : WebTool) : List WebEvent :=
  if strip query = [] ∨ maxQuery < (strip query).length then []
  else match requireEnabled env around tool with
    | .error _ => []
    | .ok entries =>
        if gateTool tool.enabled "web_search" then
          searchRows env around tool.enabled (entries.take maxSearchUrls) 0 (entries.take maxSearchUrls)
        else []

/-- What `allow` leaves of the file, and what it does to it. -/
def webAllow (env : WebTables) (around : WebAround) (raw : UrlText) (file : AllowFile) : AllowFile × List WebEvent :=
  match parseAllowEntry env raw with
  | .error _ => (file, [])
  | .ok entry =>
      match (loadAllowed env around file).bind (allowRows entry) with
      | .ok (some rows) => if around.saves then (.entries rows, [.stored entry]) else (file, [])
      | _ => (file, [])

def webDeny (env : WebTables) (around : WebAround) (raw : UrlText) (file : AllowFile) : AllowFile × List WebEvent :=
  match parseAllowEntry env raw with
  | .error _ => (file, [])
  | .ok entry =>
      match loadAllowed env around file with
      | .ok entries => if around.saves then (.entries (denyRows entry entries), [.denied entry.key]) else (file, [])
      | .error _ => (file, [])

/-- One call, and what it adds to the log. -/
def webCall (env : WebTables) (around : WebAround) (tool : WebTool) : WebCall → WebTool
  | .allow raw =>
      let r := webAllow env around raw tool.file
      { tool with file := r.1, log := tool.log ++ .began :: r.2 }
  | .deny raw =>
      let r := webDeny env around raw tool.file
      { tool with file := r.1, log := tool.log ++ .began :: r.2 }
  -- The flag is set before it is saved.
  | .setEnabled enabled => { tool with enabled := enabled, log := tool.log ++ [.began] }
  | .fetch url => { tool with log := tool.log ++ .began :: webFetch env around url tool }
  | .search query => { tool with log := tool.log ++ .began :: webSearch env around query tool }

def webStep (env : WebTables) (e : WebAround × WebCall) (tool : WebTool) : Option WebTool := some (webCall env e.1 tool e.2)

/-- The host of an entry that is allowed is settled. -/
def settledCall (env : WebTables) (_ : WebTool) (e : WebAround × WebCall) : Bool :=
  match e.2 with
  | .allow raw =>
      match parseAllowEntry env raw with
      | .ok entry => settledHost env entry.host
      | .error _ => true
  | _ => true

/-! ### What a call does -/

section Calls

variable {env : WebTables} {around : WebAround} {entries rows : List AllowRow} {tool : WebTool} {enabled : Bool}

/-- What may stand in what a call does: look-ups, and requests for targets of its rows, right
after their hosts have been looked up. -/
def Grounded (enabled : Bool) (entries : List AllowRow) (before : List WebEvent) : WebEvent → Prop
  | .resolved _ => True
  | .get on url => on = enabled ∧ ∃ row ∈ entries, allowlistTarget row = .ok url ∧ ∃ b, before = b ++ [.resolved row.host]
  | _ => False

theorem Grounded.weaken {before : List WebEvent} {e : WebEvent} (h : Grounded enabled entries before e)
    (first : List WebEvent) : Grounded enabled entries (first ++ before) e := by
  cases e with
  | get on url =>
    obtain ⟨hon, row, hrow, htarget, b, rfl⟩ := h
    exact ⟨hon, row, hrow, htarget, first ++ b, (List.append_assoc first b _).symm⟩
  | _ => exact h

theorem urlIsAllowed_mem {url : UrlText} {row : AllowRow} (h : urlIsAllowed env url entries = .ok (some row)) :
    row ∈ entries := by
  unfold urlIsAllowed at h
  split at h
  · exact List.mem_of_find?_eq_some (Except.ok.inj h)
  · cases Except.ok.inj h
  · cases h

/-- **What a request does.** -/
theorem webGet_events (i : ℕ) (url : UrlText) : Each (Grounded enabled entries) (webGet env around i enabled url entries).1 := by
  unfold webGet
  split
  · exact Each.nil
  · exact Each.nil
  · rename_i row hrow
    split
    · exact Each.nil
    · split
      · exact Each.nil
      · split
        · exact Each.nil
        · split
          · exact Each.singleton trivial
          · rename_i target htarget
            refine Each.cons trivial (Each.singleton ?_)
            exact ⟨rfl, row, urlIsAllowed_mem hrow, htarget, [], rfl⟩

theorem searchRows_events (i : ℕ) (rest : List AllowRow) :
    Each (Grounded enabled entries) (searchRows env around enabled entries i rest) := by
  induction rest generalizing i with
  | nil => exact Each.nil
  | cons row rest ih =>
    have hpage : Each (Grounded enabled entries) (webGet env around i enabled (searchUrl row) entries).1 :=
      webGet_events i (searchUrl row)
    refine hpage.append ?_
    split
    · exact (ih (i + 1)).mono fun before e h => h.weaken _
    · exact (ih (i + 1)).mono fun before e h => h.weaken _
    · exact Each.nil

/-- A row that a call loads. -/
def Loaded (env : WebTables) (file : AllowFile) (row : AllowRow) : Prop :=
  ∃ rows, loadEntries env file = .ok rows ∧ row ∈ rows

theorem loadAllowed_ok {file : AllowFile} (h : loadAllowed env around file = .ok rows) : loadEntries env file = .ok rows := by
  unfold loadAllowed at h
  split at h
  · exact h
  · exact absurd h refuse_ne_ok

theorem requireEnabled_ok (h : requireEnabled env around tool = .ok rows) :
    tool.enabled = true ∧ loadEntries env tool.file = .ok rows := by
  unfold requireEnabled at h
  split at h
  · rename_i henabled
    cases hload : loadAllowed env around tool.file with
    | error e =>
      rw [hload] at h
      cases h
    | ok entries =>
      rw [hload] at h
      replace h : (if entries = [] then _ else _) = Except.ok rows := h
      split at h
      · exact absurd h refuse_ne_ok
      · obtain rfl := Except.ok.inj h
        exact ⟨henabled, loadAllowed_ok hload⟩
  · exact absurd h refuse_ne_ok

/-- A call whose requests are all for rows that it has loaded, while the tool is on. -/
def Contacts (env : WebTables) (tool : WebTool) (events : List WebEvent) : Prop :=
  ∃ entries, (∀ row ∈ entries, Loaded env tool.file row) ∧ Each (Grounded true entries) events

theorem contacts_nil : Contacts env tool [] := ⟨[], fun _ h => (by cases h), Each.nil⟩

theorem webFetch_contacts (url : UrlText) : Contacts env tool (webFetch env around url tool) := by
  unfold webFetch
  split
  · exact contacts_nil
  · rename_i entries hentries
    obtain ⟨henabled, hload⟩ := requireEnabled_ok hentries
    split
    · refine ⟨entries, fun row hrow => ⟨entries, hload, hrow⟩, ?_⟩
      rw [henabled]
      exact webGet_events 0 _
    · exact contacts_nil

theorem webSearch_contacts (query : UrlText) : Contacts env tool (webSearch env around query tool) := by
  unfold webSearch
  split
  · exact contacts_nil
  split
  · exact contacts_nil
  · rename_i entries hentries
    obtain ⟨henabled, hload⟩ := requireEnabled_ok hentries
    split
    · refine ⟨entries.take maxSearchUrls, fun row hrow => ⟨entries, hload, List.mem_of_mem_take hrow⟩, ?_⟩
      rw [henabled]
      exact searchRows_events 0 _
    · exact contacts_nil

theorem webAllow_cases (raw : UrlText) (file : AllowFile) :
    webAllow env around raw file = (file, []) ∨ ∃ entry entries, parseAllowEntry env raw = .ok entry ∧
      loadEntries env file = .ok entries ∧
      webAllow env around raw file = (.entries (entries ++ [entry]), [.stored entry]) := by
  unfold webAllow
  split
  · exact Or.inl rfl
  · rename_i entry hentry
    split
    · rename_i rows hrows
      split
      · refine Or.inr ?_
        cases hload : loadAllowed env around file with
        | error e =>
          rw [hload] at hrows
          cases hrows
        | ok entries =>
          rw [hload] at hrows
          replace hrows : allowRows entry entries = .ok (some rows) := hrows
          unfold allowRows at hrows
          split at hrows
          · cases hrows
          · split at hrows
            · exact absurd hrows refuse_ne_ok
            · obtain rfl := Option.some.inj (Except.ok.inj hrows)
              exact ⟨entry, entries, hentry, loadAllowed_ok hload, rfl⟩
      · exact Or.inl rfl
    · exact Or.inl rfl

theorem webDeny_cases (raw : UrlText) (file : AllowFile) :
    webDeny env around raw file = (file, []) ∨ ∃ entry entries, parseAllowEntry env raw = .ok entry ∧
      loadEntries env file = .ok entries ∧
      webDeny env around raw file = (.entries (denyRows entry entries), [.denied entry.key]) := by
  unfold webDeny
  split
  · exact Or.inl rfl
  · rename_i entry hentry
    split
    · rename_i entries hload
      split
      · exact Or.inr ⟨entry, entries, hentry, loadAllowed_ok hload, rfl⟩
      · exact Or.inl rfl
    · exact Or.inl rfl

end Calls

/-! ### Runs -/

/-- The row has been stored and not been denied since. -/
def Stored (log : List WebEvent) (row : AllowRow) : Prop :=
  ∃ b₁ b₂, log = b₁ ++ .stored row :: b₂ ∧ ∀ key, .denied key ∈ b₂ → key ≠ row.key

/-- The host has been looked up in this call. -/
def Resolved (log : List WebEvent) (host : UrlText) : Prop :=
  ∃ b₁ b₂, log = b₁ ++ .resolved host :: b₂ ∧ .began ∉ b₂

/-- What is fetched is a row that is on the list, and nothing else. -/
def Justified (env : WebTables) (before : List WebEvent) : WebEvent → Prop
  | .get enabled url => enabled = true ∧ ∃ row parsed, urlparse env.unicode url = some parsed ∧ ReadsAs env parsed row ∧
      Stored before row ∧ Resolved before row.host
  | _ => True

structure WebTool.Sound (env : WebTables) (tool : WebTool) : Prop where
  rows : ∀ row, Loaded env tool.file row → row.Good env ∧ Stored tool.log row
  gets : Each (Justified env) tool.log

section Runs

variable {env : WebTables} {around : WebAround} {tool tool' : WebTool} {row : AllowRow} {log es : List WebEvent}

theorem Stored.append (h : Stored log row) (hnot : ∀ key, .denied key ∈ es → key ≠ row.key) : Stored (log ++ es) row := by
  obtain ⟨b₁, b₂, rfl, hb₂⟩ := h
  refine ⟨b₁, b₂ ++ es, by simp, fun key hkey => ?_⟩
  rcases List.mem_append.mp hkey with hkey | hkey
  · exact hb₂ key hkey
  · exact hnot key hkey

/-- A call that leaves the file alone and denies nothing. -/
theorem WebTool.Sound.quiet (h : tool.Sound env) (enabled : Bool) (hnone : ∀ key, .denied key ∉ es)
    (hes : Each (fun before e => Justified env (tool.log ++ .began :: before) e) es) :
    WebTool.Sound env { tool with enabled := enabled, log := tool.log ++ .began :: es } where
  rows row hrow := by
    obtain ⟨hgood, hstored⟩ := h.rows row hrow
    refine ⟨hgood, hstored.append fun key hkey => ?_⟩
    rcases List.mem_cons.mp hkey with hkey | hkey
    · cases hkey
    · exact absurd hkey (hnone key)
  gets := h.gets.append (Each.cons trivial hes)

/-- A call that contacts hosts. -/
theorem WebTool.Sound.contacts (hu : env.unicode.Laws) (h : tool.Sound env) (hes : Contacts env tool es) :
    WebTool.Sound env { tool with log := tool.log ++ .began :: es } := by
  obtain ⟨entries, hloaded, heach⟩ := hes
  -- A call that contacts hosts neither begins another nor denies anything.
  have hkind : ∀ e ∈ es, e ≠ .began ∧ ∀ key, e ≠ .denied key := by
    intro e he
    obtain ⟨b, a, hsplit⟩ := List.mem_iff_append.mp he
    have hgrounded := heach b e a hsplit
    refine ⟨?_, fun key => ?_⟩ <;> rintro rfl <;> exact hgrounded
  refine h.quiet tool.enabled (fun key hkey => (hkind _ hkey).2 key rfl) ?_
  intro b e a hsplit
  cases e with
  | get on url =>
    obtain ⟨rfl, row, hrow, htarget, b', rfl⟩ := heach b _ a hsplit
    obtain ⟨hgood, hstored⟩ := h.rows row (hloaded row hrow)
    obtain ⟨parsed, hparsed, hreads⟩ := target_reads hu hgood htarget
    refine ⟨rfl, row, parsed, hparsed, hreads, hstored.append fun key hkey => ?_, tool.log ++ .began :: b', [], ?_, by simp⟩
    · have hmem : WebEvent.denied key ∈ es := by
        rcases List.mem_cons.mp hkey with hkey | hkey
        · cases hkey
        · rw [hsplit]
          exact List.mem_append_left _ hkey
      exact absurd rfl ((hkind _ hmem).2 key)
    · rw [List.append_assoc]
      rfl
  | _ => trivial

/-- A call that saves rows: those that were loaded, and what has been stored. -/
theorem WebTool.Sound.saves (h : tool.Sound env) {rows : List AllowRow} {e : WebEvent}
    (hrows : ∀ row ∈ rows, row.Good env ∧ Stored (tool.log ++ [.began, e]) row) (he : ∀ before, Justified env before e) :
    WebTool.Sound env { tool with file := .entries rows, log := tool.log ++ [.began, e] } where
  rows row hrow := by
    obtain ⟨rows', hload, hmem⟩ := hrow
    rw [loadEntries_fixed fun row hrow => (hrows row hrow).1.fixed] at hload
    obtain rfl := Except.ok.inj hload
    exact hrows row hmem
  gets := h.gets.append (Each.cons trivial (Each.singleton (he _)))

theorem WebTool.Sound.allow (hu : env.unicode.Laws) (h : tool.Sound env) {raw : UrlText}
    (hsettled : settledCall env tool (around, .allow raw) = true) : (webCall env around tool (.allow raw)).Sound env := by
  unfold webCall
  dsimp only
  rcases webAllow_cases raw tool.file with heq | ⟨entry, entries, hparse, hload, heq⟩
  · rw [heq]
    exact h.quiet tool.enabled (fun _ h => by cases h) Each.nil
  · rw [heq]
    have hgood : entry.Good env := by
      refine good_of_parse hu hparse ?_
      simpa only [settledCall, hparse] using hsettled
    refine h.saves (fun row hrow => ?_) fun before => trivial
    rcases List.mem_append.mp hrow with hrow | hrow
    · obtain ⟨hrowGood, hstored⟩ := h.rows row ⟨entries, hload, hrow⟩
      exact ⟨hrowGood, hstored.append fun key hkey => by simp at hkey⟩
    · obtain rfl := List.mem_singleton.mp hrow
      exact ⟨hgood, tool.log ++ [.began], [], by simp, fun key hkey => by cases hkey⟩

theorem WebTool.Sound.deny (h : tool.Sound env) (raw : UrlText) : (webCall env around tool (.deny raw)).Sound env := by
  unfold webCall
  dsimp only
  rcases webDeny_cases raw tool.file with heq | ⟨entry, entries, hparse, hload, heq⟩
  · rw [heq]
    exact h.quiet tool.enabled (fun _ h => by cases h) Each.nil
  · rw [heq]
    refine h.saves (fun row hrow => ?_) fun before => trivial
    obtain ⟨hmem, hkey⟩ := List.mem_filter.mp hrow
    obtain ⟨hgood, hstored⟩ := h.rows row ⟨entries, hload, hmem⟩
    refine ⟨hgood, hstored.append fun key hdenied => ?_⟩
    simp only [List.mem_cons, reduceCtorEq, WebEvent.denied.injEq, List.not_mem_nil, or_false, false_or] at hdenied
    rw [hdenied]
    exact Ne.symm (of_decide_eq_true hkey)

theorem sound_of_call (hu : env.unicode.Laws) (h : tool.Sound env) {call : WebCall}
    (hsettled : settledCall env tool (around, call) = true) : (webCall env around tool call).Sound env := by
  cases call with
  | allow raw => exact h.allow hu hsettled
  | deny raw => exact h.deny raw
  | setEnabled enabled => exact h.quiet enabled (fun _ h => by cases h) Each.nil
  | fetch url => exact h.contacts hu (webFetch_contacts url)
  | search query => exact h.contacts hu (webSearch_contacts query)

/-- **Only what is allowed is contacted**, where the hosts that are allowed are settled: what is
fetched is fetched while the tool is on, reads back as a row that has been stored and not been
denied since, and its host has been looked up in the same call. -/
theorem web_contacts_allowed (hu : env.unicode.Laws) {enabled : Bool}
    (h : Later (webStep env) (settledCall env) (WebTool.initial enabled) tool) {before after : List WebEvent} {on : Bool}
    {url : UrlText} (hlog : tool.log = before ++ .get on url :: after) :
    on = true ∧ ∃ row parsed, urlparse env.unicode url = some parsed ∧ ReadsAs env parsed row ∧
      Stored before row ∧ Resolved before row.host := by
  have hsound : tool.Sound env := by
    refine h.invariant (I := WebTool.Sound env) ⟨?_, Each.nil⟩ ?_
    · rintro row ⟨rows, hrows, hmem⟩
      obtain rfl := Except.ok.inj hrows
      cases hmem
    · rintro s t ⟨around, call⟩ hs hallow hstep
      obtain rfl := Option.some.inj hstep
      exact sound_of_call hu hs hallow
  exact hsound.gets before _ after hlog

/-! ### Runs that show it -/

/-- The tables, for texts of ASCII characters and the addresses used here. -/
def plainTables : WebTables where
  unicode := { lower := List.map Char.toLower, small := fun c => !c.isUpper, expands := fun _ => false }
  isGlobal := fun ip => ip = .v4 0x5DB8D822

/-- A capital becomes a letter that is none. -/
theorem toLower_cases (c : Char) :
    c.isUpper = false ∧ c.toLower = c ∨ c.isUpper = true ∧ c.toLower.isUpper = false ∧ c.toLower.isAlpha = true := by
  have hnat := toNat_toLower c
  by_cases h : c.isUpper = true
  · refine Or.inr ⟨h, ?_⟩
    rw [isUpper_iff] at h
    rw [if_pos h] at hnat
    rw [Bool.eq_false_iff, ne_eq, isUpper_iff, isAlpha_iff]
    omega
  · refine Or.inl ⟨Bool.eq_false_iff.mpr h, ?_⟩
    rw [isUpper_iff] at h
    rw [if_neg h] at hnat
    exact Char.toNat_inj.mp hnat

theorem plainTables_laws : plainTables.unicode.Laws where
  small t c hc := by
    obtain ⟨d, -, rfl⟩ := List.mem_map.mp hc
    show (!d.toLower.isUpper) = true
    rw [Bool.not_eq_true']
    rcases toLower_cases d with ⟨hd, heq⟩ | ⟨-, hd, -⟩
    · rw [heq]
      exact hd
    · exact hd
  lower t h := by
    refine (List.map_congr_left fun c hc => ?_).trans (List.map_id t)
    have hsmall : (!c.isUpper) = true := h c hc
    rcases toLower_cases c with ⟨-, heq⟩ | ⟨hupper, -⟩
    · exact heq
    · rw [hupper] at hsmall
      cases hsmall
  ascii t c hc _ halpha := by
    obtain ⟨d, hd, rfl⟩ := List.mem_map.mp hc
    rcases toLower_cases d with ⟨-, heq⟩ | ⟨-, -, hletter⟩
    · rw [heq]
      exact hd
    · rw [hletter] at halpha
      cases halpha
  expands t c _ h := by cases h
  expands_ascii _ _ := rfl

/-- Every name has one public address, and every request is answered. -/
def plainAround : WebAround where
  reads := true
  saves := true
  lookups := fun _ _ => .addresses ["93.184.216.34".toList]
  replies := fun _ => .page

/-- What `urlparse` finds in the one URL that is fetched. -/
def examplePage : Parsed := ⟨"https".toList, "example.com".toList, ['/'], [], [], []⟩

/-- The case of one host that is allowed and fetched. -/
theorem web_contacts_allowed_once :
    ∃ tool before, Later (webStep plainTables) (settledCall plainTables) (WebTool.initial false) tool ∧
      tool.log = before ++ [.get true "https://example.com/".toList] ∧
      ∃ row parsed, urlparse plainTables.unicode "https://example.com/".toList = some parsed ∧ ReadsAs plainTables parsed row ∧
        Stored before row ∧ Resolved before row.host := by
  obtain ⟨tool, hrun, hlog⟩ := (Option.any_eq_true _ _).mp
    (show (run (webStep plainTables) (settledCall plainTables)
      [(plainAround, .allow "Example.com".toList), (plainAround, .setEnabled true),
        (plainAround, .fetch "https://example.com".toList)] (WebTool.initial false)).any
      (fun tool => tool.log.getLast? = some (.get true "https://example.com/".toList)) = true by decide +kernel)
  obtain ⟨before, hbefore⟩ := List.getLast?_eq_some_iff.mp (of_decide_eq_true hlog)
  have hlater := Later.of_run hrun
  exact ⟨tool, before, hlater, hbefore, (web_contacts_allowed plainTables_laws hlater hbefore).2⟩

/-- The calls of someone who takes back what was allowed. -/
def deniedCalls : List (WebAround × WebCall) :=
  [(plainAround, .allow "example.com .".toList), (plainAround, .deny "example.com .".toList), (plainAround, .setEnabled true),
    (plainAround, .fetch "https://example.com".toList)]

/-- The row as it is saved. -/
def deniedRow : AllowRow := ⟨"https".toList, "example.com ".toList, [], ['/'], "https://example.com /".toList⟩

/-- **What is denied may be contacted still**: the host of a row that is saved as "example.com " is
"example.com" when the row is loaded. -/
theorem web_contacts_denied :
    ¬ ∀ tool, Later (webStep plainTables) (fun _ _ => true) (WebTool.initial false) tool →
      ∀ before after on url, tool.log = before ++ .get on url :: after →
        on = true ∧ ∃ row parsed, urlparse plainTables.unicode url = some parsed ∧ ReadsAs plainTables parsed row ∧
          Stored before row ∧ Resolved before row.host := by
  intro h
  obtain ⟨tool, hrun, hlog⟩ := (Option.any_eq_true _ _).mp
    (show (run (webStep plainTables) (fun _ _ => true) deniedCalls (WebTool.initial false)).any (fun tool => tool.log =
      [.began, .stored deniedRow, .began, .denied deniedRow.key, .began, .began, .resolved "example.com".toList,
        .get true "https://example.com/".toList]) = true by decide +kernel)
  obtain ⟨-, row, parsed, hparsed, hreads, ⟨b₁, b₂, hstored, -⟩, -⟩ := h tool (Later.of_run hrun)
    [.began, .stored deniedRow, .began, .denied deniedRow.key, .began, .began, .resolved "example.com".toList] [] true _
    (of_decide_eq_true hlog)
  have hpage : urlparse plainTables.unicode "https://example.com/".toList = some examplePage := by decide +kernel
  obtain rfl := Option.some.inj (hpage.symm.trans hparsed)
  have hhost : examplePage.hostname plainTables.unicode = some "example.com".toList := by decide +kernel
  have hrow : row.host = "example.com".toList := Option.some.inj (hreads.host.symm.trans hhost)
  have hmem : WebEvent.stored row ∈ b₁ ++ .stored row :: b₂ := List.mem_append_right _ List.mem_cons_self
  rw [← hstored] at hmem
  have hdenied : row = deniedRow := by simpa using hmem
  rw [hdenied] at hrow
  exact absurd hrow (by decide)

end Runs

end CyClaw.Harness

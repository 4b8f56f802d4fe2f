/-
The web allowlist of `harness/web_search.py`.

A row is made of what a person writes by `parse_allow_entry`, is matched against a URL by
`url_is_allowed`, and is made a URL again by `_allowlist_target`.  The host is put into one form
by `_host_of`, which does not leave alone what it has made ("a ." becomes "a ", and that "a"), and
a host that stood in brackets and is no address is written without them.

Of a row with a host that is none of these (`settledHost`) the target reads back as the row
(`target_reads`), and such rows are loaded as they were saved (`loadEntries_fixed`).
-/
import CyClaw.Lib.Url

namespace CyClaw.Harness

open PyText Url IpAddress

abbrev UrlText := List Char

/-- What the tables of Python's Unicode database and of the address registry say. -/
structure WebTables where
  unicode : Unicode
  /-- `.is_global`. -/
  isGlobal : Ip → Bool

structure WebToolError where
  message : UrlText
  code : String
  /-- The one value of `details`. -/
  detail : Option UrlText
deriving DecidableEq

/-- What a call raises. -/
inductive WebFailure where
  | tool (e : WebToolError)
  | valueError
  | osError
deriving DecidableEq

def refuse {α : Type} (message code : String) : Except WebFailure α := .error (.tool ⟨message.toList, code, none⟩)

/-- `_SCHEMES`. -/
def schemes : List UrlText := ["http".toList, "https".toList]

def maxAllow : ℕ := 32

def maxRaw : ℕ := 500

def maxPort : ℕ := 65535

/-- `_BLOCKED_HOSTS`. -/
def blockedHosts : List UrlText :=
  ["localhost".toList, "localhost.localdomain".toList, "metadata.google.internal".toList, "metadata.goog".toList]

/-- `_PATH_CHARS`. -/
def pathChar (c : Char) : Bool := c.isAlphanum || c ∈ ['.', '_', '~', '/', '=', '+', '-']

/-- A row, with what it does not have as the empty text. -/
structure AllowRow where
  scheme : UrlText
  host : UrlText
  port : UrlText
  path : UrlText
  raw : UrlText
deriving DecidableEq

/-- `_host_of`. -/
def hostOf (env : WebTables) (raw : UrlText) : UrlText := rstripBy (· = '.') (env.unicode.lower (strip raw))

def defaultPort (scheme : UrlText) : ℕ := if scheme = "http".toList then 80 else 443

/-- `_port_of`. -/
def portOf (p : Parsed) : Except WebFailure UrlText :=
  match p.port with
  | none => refuse "URL port is invalid" "WEB_BAD_URL"
  | some none => .ok []
  | some (some n) => .ok (if n = defaultPort p.scheme then [] else Nat.toDigits 10 n)

/-- `_authority`. -/
def authority (host port : UrlText) : UrlText :=
  let host := if (ipAddress host).any Ip.isV6 then '[' :: (host ++ [']']) else host
  if port = [] then host else host ++ ':' :: port

/-- `_entry_raw`, and the `raw` of a row that is made. -/
def rowUrl (scheme host port path : UrlText) : UrlText := scheme ++ "://".toList ++ authority host port ++ path

/-- A text of some use, as Python asks of an optional one. -/
def given (t : Option UrlText) : Bool := t.any (· ≠ [])

/-- A URL where a host alone may be meant. -/
def withScheme (text : UrlText) : UrlText := if contains "://".toList text then text else "https://".toList ++ text

def parseAllowEntry (env : WebTables) (raw : UrlText) : Except WebFailure AllowRow :=
  let text := strip raw
  if text = [] ∨ maxRaw < text.length then refuse "allowlist entry must be a non-empty URL or host" "WEB_BAD_URL"
  else match urlparse env.unicode (withScheme text) with
    | none => .error .valueError
    | some parsed =>
        if parsed.scheme ∉ schemes then refuse "only http and https URLs are allowed" "WEB_BAD_URL"
        else if given parsed.username || given parsed.password then refuse "URLs with userinfo are refused" "WEB_BAD_URL"
        else (portOf parsed).bind fun port =>
          let host := hostOf env ((parsed.hostname env.unicode).getD [])
          if host = [] || host ∈ blockedHosts || ".local".toList.isSuffixOf host then
            refuse "that host cannot be allowlisted" "WEB_SSRF_DENIED"
          else if (ipAddress host).any fun ip => !env.isGlobal ip then
            refuse "private or loopback IPs cannot be allowlisted" "WEB_SSRF_DENIED"
          else
            let path := if parsed.path.head? = some '/' then parsed.path else '/' :: parsed.path
            .ok ⟨parsed.scheme, host, port, path, rowUrl parsed.scheme host port path⟩

/-! ### The file -/

/-- `web_allowlist.json`. -/
inductive AllowFile where
  | absent
  /-- Nothing that can be read, or no JSON. -/
  | unreadable
  | entries (rows : List AllowRow)
deriving DecidableEq

/-- A row as it is read. -/
def loadRow (env : WebTables) (row : AllowRow) : AllowRow where
  scheme := if row.scheme = [] then "https".toList else row.scheme
  host := hostOf env row.host
  port := row.port
  path := if row.path = [] then ['/'] else row.path
  raw := row.raw

def loadEntries (env : WebTables) : AllowFile → Except WebFailure (List AllowRow)
  | .absent => .ok []
  | .unreadable => refuse "allowlist is unreadable" "WEB_ALLOWLIST_UNREADABLE"
  | .entries rows => .ok ((rows.filter fun row => row.host ≠ []).map (loadRow env))

/-- `_entry_key`. -/
def AllowRow.key (row : AllowRow) : UrlText × UrlText × UrlText := (row.host, row.port, row.path)

/-- What `allow` makes of the rows it has loaded, `none` where it saves nothing. -/
def allowRows (entry : AllowRow) (entries : List AllowRow) : Except WebFailure (Option (List AllowRow)) :=
  if entries.any fun row => row.key = entry.key then .ok none
  else if maxAllow ≤ entries.length then refuse "allowlist cap is 32" "WEB_ALLOWLIST_FULL"
  else .ok (some (entries ++ [entry]))

/-- What `deny` makes of them. -/
def denyRows (entry : AllowRow) (entries : List AllowRow) : List AllowRow := entries.filter fun row => row.key ≠ entry.key

/-! ### Matching, and what is fetched -/

/-- The host with and without its `www.`. -/
def aliases (host : UrlText) : List UrlText :=
  [host, if "www.".toList.isPrefixOf host then host.drop 4 else "www.".toList ++ host]

/-- Whether a row covers a path. -/
def pathAllowed (row path : UrlText) : Bool :=
  let allowed := if row = [] then ['/'] else row
  let trimmed := rstripBy (· = '/') allowed
  allowed = ['/'] || path = trimmed || (trimmed ++ ['/']).isPrefixOf path

/-- `url_is_allowed`. -/
def urlIsAllowed (env : WebTables) (url : UrlText) (entries : List AllowRow) : Except WebFailure (Option AllowRow) :=
  match parseAllowEntry env url with
  | .ok wanted =>
      .ok (entries.find? fun row =>
        row.host ∈ aliases wanted.host && row.port = wanted.port && pathAllowed row.path wanted.path)
  | .error (.tool _) => .ok none
  | .error e => .error e

def allowlistTarget (row : AllowRow) : Except WebFailure UrlText :=
  let scheme := if row.scheme ∈ schemes then row.scheme else "https".toList
  let n := Nat.ofDigitChars 10 row.port 0
  if row.port ≠ [] ∧ ¬ (row.port.all Char.isDigit ∧ 0 < n ∧ n ≤ maxPort) then
    refuse "allowlist port is invalid" "WEB_BAD_URL"
  else
    let path := if row.path.head? = some '/' then row.path else '/' :: row.path
    if path.all pathChar then .ok (rowUrl scheme row.host row.port path)
    else refuse "allowlist path is invalid" "WEB_BAD_URL"

/-- `socket.getaddrinfo`. -/
inductive Lookup where
  /-- `socket.gaierror`. -/
  | failed
  /-- Anything else that it raises. -/
  | raises
  | addresses (infos : List UrlText)

def assertPublicHost (env : WebTables) (getaddrinfo : UrlText → Lookup) (host : UrlText) : Except WebFailure Unit :=
  let clean := hostOf env host
  if clean = [] || clean ∈ blockedHosts then refuse "host is not fetchable" "WEB_SSRF_DENIED"
  else match getaddrinfo clean with
    | .failed => .error (.tool ⟨"DNS failed for ".toList ++ clean, "WEB_DNS", none⟩)
    | .raises => .error .osError
    | .addresses [] => .error (.tool ⟨"DNS returned no addresses for ".toList ++ clean, "WEB_DNS", none⟩)
    | .addresses infos =>
        infos.forM fun rawIp =>
          match ipAddress rawIp with
          | none => .error .valueError
          | some ip =>
              if env.isGlobal ip then .ok ()
              else .error (.tool ⟨"resolved address is not public; refused".toList, "WEB_SSRF_DENIED", some clean⟩)

/-! ### Rows that read back -/

/-- A host that `_host_of` leaves alone, and that has a colon or a bracket only as an address of
version 6. -/
def settledHost (env : WebTables) (host : UrlText) : Bool :=
  hostOf env host = host && ((':' ∉ host && '[' ∉ host) || (ipAddress host).any Ip.isV6)

/-- A character that a host may have. -/
structure HostChar (u : Unicode) (c : Char) : Prop where
  small : u.small c = true
  delimiter : isDelimiter c = false
  safe : isUnsafe c = false
  notAt : c ≠ '@'
  notClose : c ≠ ']'
  plain : u.expands c = false

structure AllowRow.Good (env : WebTables) (row : AllowRow) : Prop where
  scheme : row.scheme ∈ schemes
  nonempty : row.host ≠ []
  settled : settledHost env row.host = true
  chars : ∀ c ∈ row.host, HostChar env.unicode c
  port : row.port = [] ∨ ∃ n ≤ maxPort, row.port = Nat.toDigits 10 n
  path : row.path.head? = some '/'

section Rows

variable {env : WebTables} {raw : UrlText} {row : AllowRow}

/-- What is known of an entry that is made. -/
structure ParsedRow (env : WebTables) (row : AllowRow) (parsed : Parsed) : Prop where
  scheme : parsed.scheme ∈ schemes ∧ row.scheme = parsed.scheme
  user : given parsed.username = false ∧ given parsed.password = false
  port : portOf parsed = .ok row.port
  host : row.host = hostOf env ((parsed.hostname env.unicode).getD []) ∧ row.host ≠ []
  path : row.path.head? = some '/'

theorem refuse_ne_ok {α : Type} {message code : String} {a : α} : refuse message code ≠ .ok a := nofun

theorem parseAllowEntry_ok (h : parseAllowEntry env raw = .ok row) :
    ∃ parsed, urlparse env.unicode (withScheme (strip raw)) = some parsed ∧ ParsedRow env row parsed := by
  unfold parseAllowEntry at h
  dsimp only at h
  split at h
  · exact absurd h refuse_ne_ok
  split at h
  · cases h
  rename_i parsed hparsed
  refine ⟨parsed, hparsed, ?_⟩
  split at h
  · exact absurd h refuse_ne_ok
  rename_i hscheme
  split at h
  · exact absurd h refuse_ne_ok
  rename_i hgiven
  rw [Bool.or_eq_true, not_or, Bool.not_eq_true, Bool.not_eq_true] at hgiven
  cases hport : portOf parsed with
  | error e =>
    rw [hport] at h
    cases h
  | ok port =>
    rw [hport] at h
    replace h : (if _ then _ else _) = _ := h
    split at h
    · exact absurd h refuse_ne_ok
    rename_i hhost
    split at h
    · exact absurd h refuse_ne_ok
    obtain rfl := Except.ok.inj h
    refine ⟨⟨not_not.mp hscheme, rfl⟩, hgiven, hport, ⟨rfl, ?_⟩, ?_⟩
    · intro hnil
      exact hhost (by rw [Bool.or_eq_true, Bool.or_eq_true]; exact Or.inl (Or.inl (decide_eq_true hnil)))
    · show (if _ then _ else _ : UrlText).head? = _
      split
      · rename_i hslash
        exact hslash
      · rfl

/-- A user that is of no use is no bracket. -/
theorem userinfo_of_not_given {p : Parsed} (huser : given p.username = false) (hpassword : given p.password = false)
    (hat : '@' ∈ p.netloc) : '[' ∉ beforeLast '@' p.netloc := by
  rw [Parsed.username, if_pos hat] at huser
  have hbefore : before ':' (beforeLast '@' p.netloc) = [] := by simpa [given] using huser
  intro hopen
  by_cases hcolon : ':' ∈ beforeLast '@' p.netloc
  · rw [Parsed.password, if_pos ⟨hat, hcolon⟩] at hpassword
    have hafter : after ':' (beforeLast '@' p.netloc) = [] := by simpa [given] using hpassword
    rw [← before_after hcolon, hbefore, hafter, List.nil_append, List.mem_singleton] at hopen
    exact absurd hopen (by decide)
  · rw [before_of_notMem hcolon] at hbefore
    rw [hbefore] at hopen
    cases hopen

theorem mem_of_mem_hostOf (hu : env.unicode.Laws) {text : UrlText} {c : Char} (hc : c ∈ hostOf env text)
    (hascii : c.toNat < 128) (halpha : c.isAlpha = false) : c ∈ text :=
  mem_of_mem_strip (hu.ascii _ c (mem_of_mem_rstripBy hc) hascii halpha)

theorem hostChar_of_parsed (hu : env.unicode.Laws) {url : UrlText} {parsed : Parsed}
    (hparse : urlparse env.unicode url = some parsed) (huser : given parsed.username = false)
    (hpassword : given parsed.password = false) :
    ∀ c ∈ hostOf env ((parsed.hostname env.unicode).getD []), HostChar env.unicode c := by
  obtain ⟨hchars, hok, hcheck⟩ := urlparse_netloc hparse
  have hexpands := (checkNetloc_iff hu).mp hcheck
  intro c hc
  rw [getD_hostname hu] at hc
  -- What could part a URL was in the host before.
  have hback : c.toNat < 128 → c.isAlpha = false → c ∈ (hostinfo parsed.netloc).1 :=
    fun hascii halpha => mem_lowerHost hu (mem_of_mem_hostOf hu hc hascii halpha) hascii halpha
  have hnetloc : ∀ d ∈ (hostinfo parsed.netloc).1, d ∈ parsed.netloc :=
    fun d hd => mem_of_mem_afterLast (mem_of_mem_hostinfo hd)
  refine ⟨hu.small _ c (mem_of_mem_rstripBy hc), ?_, ?_, ?_, ?_, ?_⟩
  · by_contra hdelimiter
    rw [Bool.not_eq_false] at hdelimiter
    obtain ⟨hascii, halpha⟩ := ascii_of_delimiter hdelimiter
    rw [(hchars c (hnetloc c (hback hascii halpha))).1] at hdelimiter
    cases hdelimiter
  · by_contra hunsafe
    rw [Bool.not_eq_false] at hunsafe
    obtain ⟨hascii, halpha⟩ := ascii_of_unsafe hunsafe
    rw [(hchars c (hnetloc c (hback hascii halpha))).2] at hunsafe
    cases hunsafe
  · rintro rfl
    exact notMem_afterLast _ _ (mem_of_mem_hostinfo (hback (by decide) (by decide)))
  · rintro rfl
    exact notMem_close hok (userinfo_of_not_given huser hpassword) (hback (by decide) (by decide))
  · by_contra hexp
    rw [Bool.not_eq_false] at hexp
    obtain ⟨d, hd, hexp⟩ := hu.expands _ c (mem_of_mem_rstripBy hc) hexp
    obtain ⟨d', hd', hexp⟩ := expands_lowerHost hu (mem_of_mem_strip hd) hexp
    rw [hexpands d' (hnetloc d' hd')] at hexp
    cases hexp

theorem port_of_portOf {parsed : Parsed} {port : UrlText} (h : portOf parsed = .ok port) :
    port = [] ∨ ∃ n ≤ maxPort, port = Nat.toDigits 10 n := by
  unfold portOf at h
  split at h
  · exact absurd h refuse_ne_ok
  · exact Or.inl (Except.ok.inj h).symm
  · rename_i n hn
    have hle : n ≤ maxPort := by
      unfold Parsed.port at hn
      dsimp only at hn
      split at hn
      · cases hn
      · rw [Option.ite_none_right_eq_some, Option.ite_none_right_eq_some] at hn
        obtain ⟨-, hle, heq⟩ := hn
        rw [Option.some.injEq, Option.some.injEq] at heq
        exact heq ▸ hle
    obtain rfl := Except.ok.inj h
    split
    · exact Or.inl rfl
    · exact Or.inr ⟨n, hle, rfl⟩

theorem good_of_parse (hu : env.unicode.Laws) (h : parseAllowEntry env raw = .ok row)
    (hsettled : settledHost env row.host = true) : row.Good env := by
  obtain ⟨parsed, hparse, hrow⟩ := parseAllowEntry_ok h
  refine ⟨?_, hrow.host.2, hsettled, ?_, ?_, hrow.path⟩
  · rw [hrow.scheme.2]
    exact hrow.scheme.1
  · rw [hrow.host.1]
    exact hostChar_of_parsed hu hparse hrow.user.1 hrow.user.2
  · exact port_of_portOf hrow.port

/-- A row that is loaded as it was saved. -/
structure AllowRow.Fixed (env : WebTables) (row : AllowRow) : Prop where
  load : loadRow env row = row
  nonempty : row.host ≠ []

theorem loadEntries_fixed {rows : List AllowRow} (h : ∀ row ∈ rows, row.Fixed env) : loadEntries env (.entries rows) = .ok rows := by
  show Except.ok ((rows.filter fun row => row.host ≠ []).map (loadRow env)) = .ok rows
  rw [List.filter_eq_self.mpr fun row hrow => decide_eq_true (h row hrow).nonempty,
    List.map_congr_left fun row hrow => (h row hrow).load, List.map_id']

theorem fixed_of_settled (hhost : hostOf env row.host = row.host) (hscheme : row.scheme ≠ []) (hne : row.host ≠ [])
    (hpath : row.path ≠ []) : row.Fixed env := by
  refine ⟨?_, hne⟩
  unfold loadRow
  rw [if_neg hscheme, hhost, if_neg hpath]

theorem ne_nil_of_schemes {scheme : UrlText} (h : scheme ∈ schemes) : scheme ≠ [] := by
  rintro rfl
  exact absurd h (by decide)

theorem ne_nil_of_head {path : UrlText} {c : Char} (h : path.head? = some c) : path ≠ [] := by
  rintro rfl
  cases h

theorem AllowRow.Good.fixed (h : row.Good env) : row.Fixed env :=
  fixed_of_settled (of_decide_eq_true (Bool.and_eq_true_iff.mp h.settled).1) (ne_nil_of_schemes h.scheme) h.nonempty
    (ne_nil_of_head h.path)

theorem fixed_of_parse (h : parseAllowEntry env raw = .ok row) (hhost : hostOf env row.host = row.host) : row.Fixed env := by
  obtain ⟨parsed, -, hrow⟩ := parseAllowEntry_ok h
  exact fixed_of_settled hhost (ne_nil_of_schemes (hrow.scheme.2 ▸ hrow.scheme.1)) hrow.host.2 (ne_nil_of_head hrow.path)

/-! ### The target -/

/-- A URL that is a row, and nothing else. -/
structure ReadsAs (env : WebTables) (parsed : Parsed) (row : AllowRow) : Prop where
  scheme : parsed.scheme = row.scheme
  host : parsed.hostname env.unicode = some row.host
  port : parsed.port = some (if row.port = [] then none else some (Nat.ofDigitChars 10 row.port 0))
  path : parsed.path = row.path
  bare : parsed.params = [] ∧ parsed.query = [] ∧ parsed.fragment = []
  user : parsed.username = none ∧ parsed.password = none

/-- A character that `_authority` may write. -/
structure AuthorityChar (u : Unicode) (c : Char) : Prop where
  delimiter : isDelimiter c = false
  safe : isUnsafe c = false
  notAt : c ≠ '@'
  plain : u.expands c = false

theorem HostChar.authorityChar {c : Char} (h : HostChar env.unicode c) : AuthorityChar env.unicode c :=
  ⟨h.delimiter, h.safe, h.notAt, h.plain⟩

theorem authorityChar_of_mark (hu : env.unicode.Laws) {c : Char} (h : c ∈ ['[', ']', ':']) : AuthorityChar env.unicode c := by
  simp only [List.mem_cons, List.not_mem_nil, or_false] at h
  rcases h with rfl | rfl | rfl <;> exact ⟨rfl, rfl, by decide, hu.expands_ascii _ (by decide)⟩

theorem authorityChar_of_digit (hu : env.unicode.Laws) {c : Char} (h : c.isDigit = true) : AuthorityChar env.unicode c := by
  have hnot : ∀ d : Char, d.isDigit = false → c ≠ d := by
    rintro d hd rfl
    rw [hd] at h
    cases h
  have hascii : c.toNat < 128 := by
    rw [isDigit_iff] at h
    omega
  refine ⟨?_, ?_, hnot '@' rfl, hu.expands_ascii c hascii⟩
  · simp [isDelimiter, hnot '/' rfl, hnot '?' rfl, hnot '#' rfl]
  · simp [isUnsafe, hnot '\t' rfl, hnot '\r' rfl, hnot '\n' rfl]

/-- What follows the host. -/
def portSuffix (port : UrlText) : UrlText := if port = [] then [] else ':' :: port

theorem portSuffix_cases (port : UrlText) : portSuffix port = [] ∨ ∃ p, portSuffix port = ':' :: p := by
  unfold portSuffix
  split
  · exact Or.inl rfl
  · exact Or.inr ⟨port, rfl⟩

theorem portSuffix_drop (port : UrlText) : (portSuffix port).drop 1 = port := by
  unfold portSuffix
  split
  · rename_i hnil
    rw [hnil]
    rfl
  · rfl

theorem portSuffix_chars (hu : env.unicode.Laws) (hrow : row.Good env) :
    ∀ c ∈ portSuffix row.port, AuthorityChar env.unicode c ∧ c ≠ '[' ∧ c ≠ ']' := by
  intro c hc
  unfold portSuffix at hc
  split at hc
  · cases hc
  · rename_i hport
    rcases List.mem_cons.mp hc with rfl | hc
    · exact ⟨authorityChar_of_mark hu (by decide), by decide, by decide⟩
    · obtain ⟨n, -, hn⟩ := hrow.port.resolve_left hport
      have hdigit : c.isDigit = true := Nat.isDigit_of_mem_toDigits (by decide) (by decide) (hn ▸ hc)
      refine ⟨authorityChar_of_digit hu hdigit, ?_, ?_⟩ <;> rintro rfl <;> exact absurd hdigit (by decide)

theorem authority_v6 {host : UrlText} (h : (ipAddress host).any Ip.isV6 = true) (port : UrlText) :
    authority host port = '[' :: (host ++ ']' :: portSuffix port) := by
  unfold authority portSuffix
  rw [if_pos h]
  dsimp only
  split
  · rfl
  · rw [List.cons_append, List.append_assoc]
    rfl

theorem authority_plain {host : UrlText} (h : (ipAddress host).any Ip.isV6 = false) (port : UrlText) :
    authority host port = host ++ portSuffix port := by
  have hnot : ¬ (ipAddress host).any Ip.isV6 = true := Bool.eq_false_iff.mp h
  unfold authority portSuffix
  rw [if_neg hnot]
  dsimp only
  split
  · rw [List.append_nil]
  · rfl

theorem allowlistTarget_ok {url : UrlText} (hrow : row.Good env) (h : allowlistTarget row = .ok url) :
    url = rowUrl row.scheme row.host row.port row.path ∧ row.path.all pathChar = true := by
  unfold allowlistTarget at h
  dsimp only at h
  rw [if_pos hrow.scheme, if_pos hrow.path] at h
  split at h
  · exact absurd h refuse_ne_ok
  · split at h
    · rename_i hpath
      exact ⟨(Except.ok.inj h).symm, hpath⟩
    · exact absurd h refuse_ne_ok

/-- What `urlparse` finds in an authority. -/
theorem authority_reads (hu : env.unicode.Laws) (hrow : row.Good env) :
    (∀ c ∈ authority row.host row.port, AuthorityChar env.unicode c) ∧ netlocOk (authority row.host row.port) = true ∧
      hostinfo (authority row.host row.port) = (row.host, row.port) := by
  have hsuffix := portSuffix_chars hu hrow
  have hdrop := portSuffix_drop row.port
  have hrest := portSuffix_cases row.port
  cases hv6 : (ipAddress row.host).any Ip.isV6 with
  | true =>
    rw [authority_v6 hv6]
    have hclose : ']' ∉ row.host := fun h => (hrow.chars _ h).notClose rfl
    have hchars : ∀ c ∈ '[' :: (row.host ++ ']' :: portSuffix row.port), AuthorityChar env.unicode c := by
      intro c hc
      rw [List.mem_cons, List.mem_append, List.mem_cons] at hc
      rcases hc with rfl | hc | rfl | hc
      · exact authorityChar_of_mark hu (by decide)
      · exact (hrow.chars c hc).authorityChar
      · exact authorityChar_of_mark hu (by decide)
      · exact (hsuffix c hc).1
    have hat : '@' ∉ '[' :: (row.host ++ ']' :: portSuffix row.port) := fun h => (hchars _ h).notAt rfl
    obtain ⟨ip, hip, hisV6⟩ := (Option.any_eq_true _ _).mp hv6
    refine ⟨hchars, netlocOk_bracketed hat hclose hrest (bracketedHost_of_v6 hip hisV6), ?_⟩
    rw [hostinfo_bracketed hat hclose hrest, hdrop]
  | false =>
    rw [authority_plain hv6]
    have hplain : ':' ∉ row.host ∧ '[' ∉ row.host := by
      have hsettled := (Bool.and_eq_true_iff.mp hrow.settled).2
      rw [hv6, Bool.or_false, Bool.and_eq_true, decide_eq_true_eq, decide_eq_true_eq] at hsettled
      exact hsettled
    have hchars : ∀ c ∈ row.host ++ portSuffix row.port, AuthorityChar env.unicode c := by
      intro c hc
      rcases List.mem_append.mp hc with hc | hc
      · exact (hrow.chars c hc).authorityChar
      · exact (hsuffix c hc).1
    have hat : '@' ∉ row.host ++ portSuffix row.port := fun h => (hchars _ h).notAt rfl
    have hopen : '[' ∉ row.host ++ portSuffix row.port := by
      intro h
      rcases List.mem_append.mp h with h | h
      · exact hplain.2 h
      · exact (hsuffix _ h).2.1 rfl
    have hclose : ']' ∉ row.host ++ portSuffix row.port := by
      intro h
      rcases List.mem_append.mp h with h | h
      · exact (hrow.chars _ h).notClose rfl
      · exact (hsuffix _ h).2.2 rfl
    refine ⟨hchars, netlocOk_plain hopen hclose, ?_⟩
    rw [hostinfo_plain hat hopen hplain.1 hrest, hdrop]

/-- **The target is the row.** -/
theorem target_reads (hu : env.unicode.Laws) {url : UrlText} (hrow : row.Good env) (h : allowlistTarget row = .ok url) :
    ∃ parsed, urlparse env.unicode url = some parsed ∧ ReadsAs env parsed row := by
  obtain ⟨rfl, hpath⟩ := allowlistTarget_ok hrow h
  obtain ⟨hchars, hok, hinfo⟩ := authority_reads hu hrow
  have hscheme : row.scheme.head?.any Char.isAlpha = true ∧ row.scheme.all schemeChar = true ∧
      row.scheme.map Char.toLower = row.scheme := by
    have hmem := hrow.scheme
    generalize row.scheme = scheme at hmem
    simp only [schemes, List.mem_cons, List.not_mem_nil, or_false] at hmem
    rcases hmem with rfl | rfl <;> decide
  have hpathChars : ∀ c ∈ row.path, c ∉ [';', '?', '#'] ∧ isUnsafe c = false := by
    intro c hc
    have hnot : ∀ d : Char, pathChar d = false → c ≠ d := by
      rintro d hd rfl
      rw [List.all_eq_true.mp hpath c hc] at hd
      cases hd
    constructor
    · simp [hnot ';' rfl, hnot '?' rfl, hnot '#' rfl]
    · simp [isUnsafe, hnot '\t' rfl, hnot '\r' rfl, hnot '\n' rfl]
  have hat : '@' ∉ authority row.host row.port := fun h => (hchars _ h).notAt rfl
  refine ⟨_, urlparse_render hscheme.1 hscheme.2.1 hscheme.2.2 (fun c hc => ⟨(hchars c hc).delimiter, (hchars c hc).safe⟩) hok
    ((checkNetloc_iff hu).mpr fun c hc => (hchars c hc).plain) hrow.path hpathChars, rfl, ?_, ?_, rfl, ⟨rfl, rfl, rfl⟩, ?_, ?_⟩
  · unfold Parsed.hostname
    dsimp only
    rw [hinfo, if_neg hrow.nonempty, lowerHost_of_small hu fun c hc => (hrow.chars c hc).small]
  · unfold Parsed.port
    dsimp only
    rw [hinfo]
    dsimp only
    split
    · rfl
    · rename_i hport
      obtain ⟨n, hn, hdigits⟩ := hrow.port.resolve_left hport
      have hall : row.port.all Char.isDigit = true := by
        refine List.all_eq_true.mpr fun c hc => ?_
        exact Nat.isDigit_of_mem_toDigits (by decide) (by decide) (hdigits ▸ hc)
      rw [if_pos hall, hdigits, Nat.ofDigitChars_ten_toDigits, if_pos (show n ≤ 65535 from hn)]
  · exact if_neg hat
  · exact if_neg fun h => hat h.1

end Rows

end CyClaw.Harness

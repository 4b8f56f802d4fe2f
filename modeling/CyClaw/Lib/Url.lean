/-
URLs, as `urllib.parse.urlparse` takes them apart.

What Python's Unicode tables say stays open (`Unicode`), but for what a lower case may have in
it (`Unicode.Laws`).

A text that is put together from a scheme, an authority and a path comes apart into just these
(`urlparse_render`), and what an authority holds is found in it again (`hostinfo_plain`,
`hostinfo_bracketed`).
-/
import CyClaw.Lib.IpAddress
import CyClaw.Lib.PyText
import Mathlib.Data.List.TakeWhile

namespace Url

open IpAddress PyText

structure Unicode where
  /-- `str.lower`. -/
  lower : Text → Text
  /-- The character is no capital, whatever stands around it. -/
  small : Char → Bool
  /-- Its NFKC normal form is another, and has a character of `/?#@:`. -/
  expands : Char → Bool

/-! ### Parting texts -/

/-- `t.partition(c)[0]`. -/
def before (c : Char) (t : Text) : Text := t.takeWhile (· ≠ c)

/-- `t.partition(c)[2]`. -/
def after (c : Char) (t : Text) : Text := (t.dropWhile (· ≠ c)).drop 1

/-- `t.rpartition(c)[0]`. -/
def beforeLast (c : Char) (t : Text) : Text := (after c t.reverse).reverse

/-- `t.rpartition(c)[2]`. -/
def afterLast (c : Char) (t : Text) : Text := (before c t.reverse).reverse

/-! ### The whole -/

structure Parsed where
  scheme : Text
  netloc : Text
  path : Text
  params : Text
  query : Text
  fragment : Text
deriving DecidableEq

/-- `_WHATWG_C0_CONTROL_OR_SPACE`. -/
def isControl (c : Char) : Bool := c.toNat ≤ 32

/-- `_UNSAFE_URL_BYTES_TO_REMOVE`. -/
def isUnsafe (c : Char) : Bool := c ∈ ['\t', '\r', '\n']

def schemeChar (c : Char) : Bool := c.isAlphanum || c ∈ ['+', '-', '.']

def splitScheme (url : Text) : Text × Text :=
  let scheme := before ':' url
  if ':' ∈ url ∧ scheme.head?.any Char.isAlpha ∧ scheme.all schemeChar then (scheme.map Char.toLower, after ':' url)
  else ([], url)

/-- What ends an authority. -/
def isDelimiter (c : Char) : Bool := c ∈ ['/', '?', '#']

def ipvFuture (host : Text) : Bool :=
  let digits := host.drop 1
  let rest := digits.dropWhile isHex
  digits.head?.any isHex && rest.head? = some '.' && rest.drop 1 ≠ [] && '\n' ∉ rest

/-- `_check_bracketed_host`. -/
def bracketedHost (host : Text) : Bool :=
  if host.head? = some 'v' then ipvFuture host else (ipAddress host).any Ip.isV6

/-- `_check_bracketed_netloc`. -/
def bracketedNetloc (netloc : Text) : Bool :=
  let hostinfo := afterLast '@' netloc
  if '[' ∈ hostinfo then
    let port := after ']' (after '[' hostinfo)
    before '[' hostinfo = [] && (port = [] || port.head? = some ':') && bracketedHost (before ']' (after '[' hostinfo))
  else bracketedHost (before ':' hostinfo)

def netlocOk (netloc : Text) : Bool :=
  if '[' ∈ netloc ∧ ']' ∈ netloc then bracketedNetloc netloc else '[' ∉ netloc && ']' ∉ netloc

/-- `_checknetloc`. -/
def checkNetloc (u : Unicode) (netloc : Text) : Bool :=
  netloc.all (fun c => c.toNat < 128) || !(netloc.filter fun c => c ∉ ['@', ':', '#', '?']).any u.expands

def usesParams : List Text :=
  [[], "ftp".toList, "hdl".toList, "prospero".toList, "http".toList, "https".toList, "shttp".toList, "rtsp".toList,
    "rtspu".toList, "sip".toList, "sips".toList, "mms".toList, "sftp".toList, "tel".toList]

/-- `_splitparams`. -/
def splitParams (url : Text) : Text × Text :=
  let last := afterLast '/' url
  if ';' ∈ last then (url.take (url.length - last.length) ++ before ';' last, after ';' last) else (url, [])

/-- What `urlsplit` takes out before it begins. -/
def clean (url : Text) : Text := (url.dropWhile isControl).filter fun c => !isUnsafe c

/-- `_splitnetloc`, where there is an authority. -/
def splitNetloc (url : Text) : Text × Text :=
  if url.take 2 = ['/', '/'] then
    ((url.drop 2).takeWhile fun c => !isDelimiter c, (url.drop 2).dropWhile fun c => !isDelimiter c)
  else ([], url)

/-- `urlparse(url)`, `none` where it raises. -/
def urlparse (u : Unicode) (url : Text) : Option Parsed :=
  let (scheme, url) := splitScheme (clean url)
  let (netloc, url) := splitNetloc url
  let fragment := after '#' url
  let url := before '#' url
  let query := after '?' url
  let url := before '?' url
  if netlocOk netloc && checkNetloc u netloc then
    let (path, params) := if scheme ∈ usesParams ∧ ';' ∈ url then splitParams url else (url, [])
    some ⟨scheme, netloc, path, params, query, fragment⟩
  else none

/-! ### The authority -/

/-- `_hostinfo`, with no port as an empty one. -/
def hostinfo (netloc : Text) : Text × Text :=
  let info := afterLast '@' netloc
  if '[' ∈ info then
    let bracketed := after '[' info
    (before ']' bracketed, after ':' (after ']' bracketed))
  else (before ':' info, after ':' info)

def Parsed.username (p : Parsed) : Option Text :=
  if '@' ∈ p.netloc then some (before ':' (beforeLast '@' p.netloc)) else none

def Parsed.password (p : Parsed) : Option Text :=
  if '@' ∈ p.netloc ∧ ':' ∈ beforeLast '@' p.netloc then some (after ':' (beforeLast '@' p.netloc)) else none

/-- The zone of an address is left as it is. -/
def lowerHost (u : Unicode) (host : Text) : Text := u.lower (before '%' host) ++ host.dropWhile (· ≠ '%')

def Parsed.hostname (u : Unicode) (p : Parsed) : Option Text :=
  let host := (hostinfo p.netloc).1
  if host = [] then none else some (lowerHost u host)

/-- `.port`, `none` where it raises. -/
def Parsed.port (p : Parsed) : Option (Option ℕ) :=
  let port := (hostinfo p.netloc).2
  if port = [] then some none
  else if port.all Char.isDigit then
    let n := Nat.ofDigitChars 10 port 0
    if n ≤ 65535 then some (some n) else none
  else none

/-! ### What parting a text leaves -/

section Parting

variable {c d : Char} {a b t : Text}

theorem before_of_notMem (h : c ∉ t) : before c t = t :=
  List.takeWhile_eq_self_iff.mpr fun d hd => by simpa using (ne_of_mem_of_not_mem hd h)

theorem after_of_notMem (h : c ∉ t) : after c t = [] := by
  unfold after
  rw [List.dropWhile_eq_nil_iff.mpr fun d hd => by simpa using (ne_of_mem_of_not_mem hd h), List.drop_nil]

theorem before_append (h : c ∉ a) : before c (a ++ c :: b) = a := by
  unfold before
  rw [List.takeWhile_append_of_pos fun d hd => by simpa using (ne_of_mem_of_not_mem hd h), List.takeWhile_cons_of_neg (by simp),
    List.append_nil]

theorem after_append (h : c ∉ a) : after c (a ++ c :: b) = b := by
  unfold after
  rw [List.dropWhile_append_of_pos fun d hd => by simpa using (ne_of_mem_of_not_mem hd h), List.dropWhile_cons_of_neg (by simp)]
  rfl

theorem notMem_before (c : Char) (t : Text) : c ∉ before c t := fun h => by simpa using List.mem_takeWhile_imp h

theorem mem_of_mem_before (h : d ∈ before c t) : d ∈ t := (List.takeWhile_prefix _).subset h

theorem mem_of_mem_after (h : d ∈ after c t) : d ∈ t := (List.dropWhile_suffix _).subset (List.mem_of_mem_drop h)

theorem mem_of_mem_afterLast (h : d ∈ afterLast c t) : d ∈ t :=
  List.mem_reverse.mp (mem_of_mem_before (List.mem_reverse.mp h))

theorem notMem_afterLast (c : Char) (t : Text) : c ∉ afterLast c t :=
  fun h => notMem_before c t.reverse (List.mem_reverse.mp h)

theorem afterLast_of_notMem (h : c ∉ t) : afterLast c t = t := by
  unfold afterLast
  rw [before_of_notMem (by simpa using h), List.reverse_reverse]

/-- What stands around the first one. -/
theorem before_after (h : c ∈ t) : before c t ++ c :: after c t = t := by
  unfold before after
  cases hrest : t.dropWhile (· ≠ c) with
  | nil =>
    have hall := List.dropWhile_eq_nil_iff.mp hrest c h
    simp at hall
  | cons d rest =>
    have hd : d = c := by
      have hhead := List.head_dropWhile_not (fun d => decide (d ≠ c)) (l := t) (by rw [hrest]; exact List.cons_ne_nil d rest)
      simp only [hrest, List.head_cons, decide_eq_false_iff_not, not_not] at hhead
      exact hhead
    have happend := List.takeWhile_append_dropWhile (p := fun d => decide (d ≠ c)) (l := t)
    rw [hrest, hd] at happend
    exact happend

theorem beforeLast_afterLast (h : c ∈ t) : beforeLast c t ++ c :: afterLast c t = t := by
  have heq := congrArg List.reverse (before_after (List.mem_reverse.mpr h))
  simpa [beforeLast, afterLast] using heq

end Parting

/-! ### A URL that is put together -/

section Render

variable {u : Unicode} {scheme netloc path host port : Text}

theorem not_unsafe_of_schemeChar {c : Char} (h : schemeChar c = true) : isUnsafe c = false ∧ c ≠ ':' := by
  constructor
  · by_contra hunsafe
    simp only [isUnsafe, Bool.not_eq_false, decide_eq_true_eq, List.mem_cons, List.not_mem_nil, or_false] at hunsafe
    rcases hunsafe with rfl | rfl | rfl <;> simp [schemeChar] at h
  · rintro rfl
    simp [schemeChar] at h

theorem not_control_of_alpha {c : Char} (h : c.isAlpha = true) : isControl c = false := by
  rw [isAlpha_iff] at h
  rw [isControl, decide_eq_false_iff_not, not_le]
  omega

theorem clean_render {rest : Text} (hhead : scheme.head?.any Char.isAlpha = true) (hchars : scheme.all schemeChar = true)
    (hrest : ∀ c ∈ rest, isUnsafe c = false) : clean (scheme ++ ':' :: rest) = scheme ++ ':' :: rest := by
  have hdrop : (scheme ++ ':' :: rest).dropWhile isControl = scheme ++ ':' :: rest := by
    cases scheme with
    | nil => cases hhead
    | cons c cs => rw [List.cons_append, List.dropWhile_cons_of_neg (Bool.eq_false_iff.mp (not_control_of_alpha hhead))]
  unfold clean
  rw [hdrop]
  refine List.filter_eq_self.mpr fun c hc => ?_
  rw [Bool.not_eq_true']
  rcases List.mem_append.mp hc with hc | hc
  · exact (not_unsafe_of_schemeChar (List.all_eq_true.mp hchars c hc)).1
  · rcases List.mem_cons.mp hc with rfl | hc
    · rfl
    · exact hrest c hc

theorem splitScheme_render {rest : Text} (hhead : scheme.head?.any Char.isAlpha = true) (hchars : scheme.all schemeChar = true)
    (hlower : scheme.map Char.toLower = scheme) : splitScheme (scheme ++ ':' :: rest) = (scheme, rest) := by
  have hcolon : ':' ∉ scheme := fun h => (not_unsafe_of_schemeChar (List.all_eq_true.mp hchars _ h)).2 rfl
  unfold splitScheme
  rw [before_append hcolon, after_append hcolon, if_pos ⟨by simp, hhead, hchars⟩, hlower]

theorem splitNetloc_render (hnetloc : ∀ c ∈ netloc, isDelimiter c = false) (hslash : path.head? = some '/') :
    splitNetloc ('/' :: '/' :: (netloc ++ path)) = (netloc, path) := by
  have hpass : ∀ c ∈ netloc, (!isDelimiter c) = true := fun c hc => by rw [hnetloc c hc]; rfl
  cases path with
  | nil => cases hslash
  | cons c cs =>
    obtain rfl := Option.some.inj hslash
    unfold splitNetloc
    rw [if_pos (by simp)]
    show ((netloc ++ '/' :: cs).takeWhile _, (netloc ++ '/' :: cs).dropWhile _) = _
    rw [List.takeWhile_append_of_pos hpass, List.dropWhile_append_of_pos hpass, List.takeWhile_cons_of_neg (by decide),
      List.dropWhile_cons_of_neg (by decide), List.append_nil]

/-- **It comes apart into what it was put together from.** -/
theorem urlparse_render (hhead : scheme.head?.any Char.isAlpha = true) (hchars : scheme.all schemeChar = true)
    (hlower : scheme.map Char.toLower = scheme) (hnetloc : ∀ c ∈ netloc, isDelimiter c = false ∧ isUnsafe c = false)
    (hok : netlocOk netloc = true) (hcheck : checkNetloc u netloc = true) (hslash : path.head? = some '/')
    (hpath : ∀ c ∈ path, c ∉ [';', '?', '#'] ∧ isUnsafe c = false) :
    urlparse u (scheme ++ "://".toList ++ netloc ++ path) = some ⟨scheme, netloc, path, [], [], []⟩ := by
  have hurl : scheme ++ "://".toList ++ netloc ++ path = scheme ++ ':' :: '/' :: '/' :: (netloc ++ path) := by
    rw [List.append_assoc, List.append_assoc]
    rfl
  have hsafe : ∀ c ∈ '/' :: '/' :: (netloc ++ path), isUnsafe c = false := by
    intro c hc
    simp only [List.mem_cons, List.mem_append] at hc
    rcases hc with rfl | rfl | hc | hc
    · rfl
    · rfl
    · exact (hnetloc c hc).2
    · exact (hpath c hc).2
  have hnot : ∀ d ∈ [';', '?', '#'], d ∉ path := fun d hd hmem => (hpath d hmem).1 hd
  unfold urlparse
  rw [hurl, clean_render hhead hchars hsafe, splitScheme_render hhead hchars hlower]
  dsimp only
  rw [splitNetloc_render (fun c hc => (hnetloc c hc).1) hslash]
  dsimp only
  rw [before_of_notMem (hnot '#' (by decide)), after_of_notMem (hnot '#' (by decide)), before_of_notMem (hnot '?' (by decide)),
    after_of_notMem (hnot '?' (by decide)), hok, hcheck, Bool.and_true, if_pos rfl,
    if_neg fun h => hnot ';' (by decide) h.2]

/-! ### What an authority holds -/

variable {rest : Text}

theorem hostinfo_plain (hat : '@' ∉ host ++ rest) (hopen : '[' ∉ host ++ rest) (hcolon : ':' ∉ host)
    (hrest : rest = [] ∨ ∃ port, rest = ':' :: port) : hostinfo (host ++ rest) = (host, rest.drop 1) := by
  unfold hostinfo
  rw [afterLast_of_notMem hat, if_neg hopen]
  rcases hrest with rfl | ⟨port, rfl⟩
  · rw [List.append_nil, before_of_notMem hcolon, after_of_notMem hcolon]
    rfl
  · rw [before_append hcolon, after_append hcolon]
    rfl

theorem after_rest (hrest : rest = [] ∨ ∃ port, rest = ':' :: port) : after ':' rest = rest.drop 1 := by
  rcases hrest with rfl | ⟨port, rfl⟩
  · rfl
  · exact after_append (a := []) List.not_mem_nil

theorem after_open (t : Text) : after '[' ('[' :: t) = t := after_append (a := []) List.not_mem_nil

theorem hostinfo_bracketed (hat : '@' ∉ '[' :: (host ++ ']' :: rest)) (hclose : ']' ∉ host)
    (hrest : rest = [] ∨ ∃ port, rest = ':' :: port) : hostinfo ('[' :: (host ++ ']' :: rest)) = (host, rest.drop 1) := by
  unfold hostinfo
  rw [afterLast_of_notMem hat, if_pos List.mem_cons_self]
  dsimp only
  rw [after_open, before_append hclose, after_append hclose, after_rest hrest]

theorem netlocOk_plain (hopen : '[' ∉ netloc) (hclose : ']' ∉ netloc) : netlocOk netloc = true := by
  unfold netlocOk
  rw [if_neg fun h => hopen h.1]
  simp [hopen, hclose]

theorem netlocOk_bracketed (hat : '@' ∉ '[' :: (host ++ ']' :: rest)) (hclose : ']' ∉ host)
    (hrest : rest = [] ∨ ∃ port, rest = ':' :: port) (hhost : bracketedHost host = true) :
    netlocOk ('[' :: (host ++ ']' :: rest)) = true := by
  unfold netlocOk bracketedNetloc
  rw [if_pos ⟨List.mem_cons_self, by simp⟩, afterLast_of_notMem hat, if_pos List.mem_cons_self, after_open,
    after_append hclose, before_append hclose, hhost, Bool.and_true, Bool.and_eq_true]
  refine ⟨rfl, ?_⟩
  rcases hrest with rfl | ⟨port, rfl⟩ <;> rfl

/-- The host of a version 6 address may stand in brackets. -/
theorem bracketedHost_of_v6 {ip : Ip} (hip : ipAddress host = some ip) (hv6 : ip.isV6 = true) : bracketedHost host = true := by
  unfold bracketedHost
  cases host with
  | nil => rw [if_neg (by simp), hip]; exact hv6
  | cons c cs =>
    have hc : c ≠ 'v' := by
      rintro rfl
      exact absurd (head_of_v6 hip hv6 (by decide)) (by decide)
    have hhead : (c :: cs).head? ≠ some 'v' := fun h => hc (Option.some.inj h)
    rw [if_neg hhead, hip]
    exact hv6

end Render

/-! ### What comes out of a URL -/

/-- What is known of the tables: a lower case has small characters, and none that could part a
URL and was not there before. -/
structure Unicode.Laws (u : Unicode) : Prop where
  small : ∀ t, ∀ c ∈ u.lower t, u.small c = true
  lower : ∀ t, (∀ c ∈ t, u.small c = true) → u.lower t = t
  ascii : ∀ t, ∀ c ∈ u.lower t, c.toNat < 128 → c.isAlpha = false → c ∈ t
  expands : ∀ t, ∀ c ∈ u.lower t, u.expands c = true → ∃ d ∈ t, u.expands d = true
  expands_ascii : ∀ c, c.toNat < 128 → u.expands c = false

section Parse

variable {u : Unicode} {url : Text} {p : Parsed}

theorem checkNetloc_iff (hu : u.Laws) {netloc : Text} :
    checkNetloc u netloc = true ↔ ∀ c ∈ netloc, u.expands c = false := by
  have hmarks : ∀ c ∈ ['@', ':', '#', '?'], u.expands c = false := by
    intro c hc
    refine hu.expands_ascii c ?_
    simp only [List.mem_cons, List.not_mem_nil, or_false] at hc
    rcases hc with rfl | rfl | rfl | rfl <;> decide
  rw [checkNetloc, Bool.or_eq_true, Bool.not_eq_true', List.any_eq_false, List.all_eq_true]
  constructor
  · intro h c hc
    rcases h with hascii | hnone
    · exact hu.expands_ascii c (of_decide_eq_true (hascii c hc))
    · by_cases hmark : c ∈ ['@', ':', '#', '?']
      · exact hmarks c hmark
      · exact Bool.eq_false_iff.mpr (hnone c (List.mem_filter.mpr ⟨hc, decide_eq_true hmark⟩))
  · intro h
    exact Or.inr fun c hc => Bool.eq_false_iff.mp (h c (List.mem_filter.mp hc).1)

theorem clean_safe {c : Char} (h : c ∈ clean url) : isUnsafe c = false := by
  have hc := (List.mem_filter.mp h).2
  rwa [Bool.not_eq_true'] at hc

theorem mem_of_mem_splitScheme {t : Text} {c : Char} (h : c ∈ (splitScheme t).2) : c ∈ t := by
  unfold splitScheme at h
  dsimp only at h
  split at h
  · exact mem_of_mem_after h
  · exact h

theorem mem_of_mem_splitNetloc {t : Text} {c : Char} (h : c ∈ (splitNetloc t).1) : isDelimiter c = false ∧ c ∈ t := by
  unfold splitNetloc at h
  split at h
  · have hpass := List.mem_takeWhile_imp h
    rw [Bool.not_eq_true'] at hpass
    exact ⟨hpass, List.mem_of_mem_drop ((List.takeWhile_prefix _).subset h)⟩
  · cases h

theorem urlparse_netloc (h : urlparse u url = some p) :
    (∀ c ∈ p.netloc, isDelimiter c = false ∧ isUnsafe c = false) ∧ netlocOk p.netloc = true ∧ checkNetloc u p.netloc = true := by
  unfold urlparse at h
  dsimp only at h
  rw [Option.ite_none_right_eq_some, Bool.and_eq_true] at h
  obtain ⟨⟨hok, hcheck⟩, heq⟩ := h
  have hnetloc : p.netloc = (splitNetloc (splitScheme (clean url)).2).1 := by
    obtain rfl := Option.some.inj heq
    rfl
  rw [hnetloc]
  refine ⟨fun c hc => ?_, hok, hcheck⟩
  obtain ⟨hdelimiter, hmem⟩ := mem_of_mem_splitNetloc hc
  exact ⟨hdelimiter, clean_safe (mem_of_mem_splitScheme hmem)⟩

theorem mem_of_mem_hostinfo {netloc : Text} {c : Char} (h : c ∈ (hostinfo netloc).1) : c ∈ afterLast '@' netloc := by
  unfold hostinfo at h
  dsimp only at h
  split at h
  · exact mem_of_mem_after (mem_of_mem_before h)
  · exact mem_of_mem_before h

/-- Where no brackets are left open, a host has no closing one. -/
theorem notMem_close {netloc : Text} (hok : netlocOk netloc = true)
    (huser : '@' ∈ netloc → '[' ∉ beforeLast '@' netloc) : ']' ∉ (hostinfo netloc).1 := by
  intro hclose
  by_cases hopen : '[' ∈ afterLast '@' netloc
  · unfold hostinfo at hclose
    rw [if_pos hopen] at hclose
    exact notMem_before _ _ hclose
  · have hmem : ']' ∈ netloc := mem_of_mem_afterLast (mem_of_mem_hostinfo hclose)
    have hnot : '[' ∉ netloc := by
      intro h
      by_cases hat : '@' ∈ netloc
      · rw [← beforeLast_afterLast hat, List.mem_append, List.mem_cons] at h
        rcases h with h | h | h
        · exact huser hat h
        · exact absurd h (by decide)
        · exact hopen h
      · rw [afterLast_of_notMem hat] at hopen
        exact hopen h
    unfold netlocOk at hok
    rw [if_neg fun h => hnot h.1, Bool.and_eq_true, decide_eq_true_eq, decide_eq_true_eq] at hok
    exact hok.2 hmem

/-- Nothing but small characters and a zone come out of a host, and they were in it. -/
theorem mem_lowerHost (hu : u.Laws) {host : Text} {c : Char} (hc : c ∈ lowerHost u host) (hascii : c.toNat < 128)
    (halpha : c.isAlpha = false) : c ∈ host := by
  rcases List.mem_append.mp hc with hc | hc
  · exact mem_of_mem_before (hu.ascii _ c hc hascii halpha)
  · exact (List.dropWhile_suffix _).subset hc

theorem expands_lowerHost (hu : u.Laws) {host : Text} {c : Char} (hc : c ∈ lowerHost u host) (hexpands : u.expands c = true) :
    ∃ d ∈ host, u.expands d = true := by
  rcases List.mem_append.mp hc with hc | hc
  · obtain ⟨d, hd, hexp⟩ := hu.expands _ c hc hexpands
    exact ⟨d, mem_of_mem_before hd, hexp⟩
  · exact ⟨c, (List.dropWhile_suffix _).subset hc, hexpands⟩

theorem lowerHost_of_small (hu : u.Laws) {host : Text} (h : ∀ c ∈ host, u.small c = true) : lowerHost u host = host := by
  unfold lowerHost
  rw [hu.lower _ fun c hc => h c (mem_of_mem_before hc)]
  exact List.takeWhile_append_dropWhile

theorem ascii_of_delimiter {c : Char} (h : isDelimiter c = true) : c.toNat < 128 ∧ c.isAlpha = false := by
  simp only [isDelimiter, decide_eq_true_eq, List.mem_cons, List.not_mem_nil, or_false] at h
  rcases h with rfl | rfl | rfl <;> decide

theorem ascii_of_unsafe {c : Char} (h : isUnsafe c = true) : c.toNat < 128 ∧ c.isAlpha = false := by
  simp only [isUnsafe, decide_eq_true_eq, List.mem_cons, List.not_mem_nil, or_false] at h
  rcases h with rfl | rfl | rfl <;> decide

theorem getD_hostname (hu : u.Laws) : (p.hostname u).getD [] = lowerHost u (hostinfo p.netloc).1 := by
  unfold Parsed.hostname
  dsimp only
  split
  · rename_i hnil
    rw [hnil]
    exact (lowerHost_of_small hu fun c hc => (by cases hc)).symm
  · rfl

end Parse

end Url

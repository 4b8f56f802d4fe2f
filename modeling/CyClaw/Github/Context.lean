/-
`agentic/context.py`: the bundles made of what is read of GitHub.

A shortlist asks for one row more than it returns, and says that there are more when that row comes
back.  The row cannot come back once the size asked for is at the ceiling of the client: from there
on a longer list is returned as if it were complete (`has_more_exact_iff`).
-/
import CyClaw.Github.ReadOps
import CyClaw.Sanitizer.Gates

namespace CyClaw.Github

open Sanitizer

structure AgenticConfig where
  repo : Text
  allowedReadOps : List ReadOp
  ghRetries : ℕ

/-! ### Findings -/

inductive FindingCode where
  | pattern
  | scannerUnavailable
deriving DecidableEq

/-- A finding; its severity is always a warning. -/
structure Finding where
  code : FindingCode
  field : Option Text
  patterns : List Text
deriving DecidableEq

structure Scanner where
  regexes : Regexes
  unicode : Unicode
  /-- Of the category `Cf` or `Mn`. -/
  unseen : Char → Bool
  /-- `policy.prompt_filter.banned_patterns` of the configuration. -/
  banned : List PyValue

/-- `_CONFUSABLES`. -/
def confusables : List (Char × Char) :=
  [('а', 'a'), ('е', 'e'), ('о', 'o'), ('р', 'p'), ('с', 'c'),
    ('х', 'x'), ('у', 'y'), ('і', 'i'), ('ј', 'j'), ('һ', 'h'),
    ('ο', 'o'), ('α', 'a'), ('ρ', 'p'), ('Α', 'A'), ('Ο', 'O')]

/-- `_normalize_for_scan`. -/
def normalizeForScan (s : Scanner) (text : Text) : Text :=
  ((s.unicode.nfkd text).filter fun c => !s.unseen c).map fun c => (confusables.lookup c).getD c

/-- `compile_injection_patterns` of `build_injection_pattern_sources`. -/
def Scanner.compiled (s : Scanner) : List Compiled :=
  (patternSources owaspInjectionPatterns s.banned).filterMap fun source =>
    (s.regexes.compile false source).map fun found => ⟨source, found⟩

/-- The patterns found in the text as it stands, and then in what it normalizes to. -/
def Scanner.matched (s : Scanner) (text : Text) : List Text :=
  (flagged s.compiled text ++ flagged s.compiled (normalizeForScan s text)).eraseDups

/-- `_injection_findings`. -/
def injectionFindings (s : Scanner) (fields : List (Text × Option PyValue)) : List Finding :=
  (if s.compiled.isEmpty then [⟨.scannerUnavailable, none, []⟩] else []) ++
    fields.filterMap fun
      | (field, some (.str text)) =>
          if text = [] ∨ s.matched text = [] then none else some ⟨.pattern, some field, s.matched text⟩
      | _ => none

/-- `_text_fields`. -/
def textFields (obj : PyValue) (path : Text) (keys : List String) : List (Text × Option PyValue) :=
  match obj with
  | .dict fields => keys.map fun key => (path ++ '.' :: key.toList, PyValue.get fields key)
  | _ => []

/-! ### Shortlists -/

structure Shortlist where
  items : List PyValue
  count : ℕ
  hasMore : Bool

/-- `_shortlist_title_fields`. -/
def shortlistTitleFields (shortlist : Shortlist) (path : Text) : List (Text × Option PyValue) :=
  shortlist.items.zipIdx.flatMap fun (item, i) =>
    textFields item (path ++ '[' :: (decimal i ++ [']'])) ["title"]

/-- `_guard_read_op`. -/
def guardReadOp (cfg : AgenticConfig) (op : ReadOp) : Except ReadError Unit :=
  if op ∈ cfg.allowedReadOps then .ok () else .error (.notAllowed op cfg.allowedReadOps)

/-- `_read`. -/
def read (gh : Gh) (cfg : AgenticConfig) (op : ReadOp) (number : Option ℤ) (limit : ℕ) :
    Except ReadError ReadResult :=
  runRead gh op cfg.repo number limit cfg.ghRetries none

/-- `_list_with_more`. -/
def listWithMore (gh : Gh) (cfg : AgenticConfig) (op : ReadOp) (limit : ℕ) : Except ReadError Shortlist := do
  let items :=
    match ← read gh cfg op none (limit + 1) with
    | .data (.list rows) => rows
    | _ => []
  let trimmed := items.take limit
  return ⟨trimmed, trimmed.length, decide (items.length > limit)⟩

structure ListBundle where
  shortlist : Shortlist
  governanceFindings : List Finding

def fetchList (gh : Gh) (s : Scanner) (cfg : AgenticConfig) (op : ReadOp) (maxItems : ℕ) :
    Except ReadError ListBundle := do
  guardReadOp cfg op
  let shortlist ← listWithMore gh cfg op maxItems
  return ⟨shortlist, injectionFindings s (shortlistTitleFields shortlist "items".toList)⟩

/-- `fetch_pr_list`. -/
def fetchPrList (gh : Gh) (s : Scanner) (cfg : AgenticConfig) (maxItems : ℕ) : Except ReadError ListBundle :=
  fetchList gh s cfg .prList maxItems

/-- `fetch_issue_list`. -/
def fetchIssueList (gh : Gh) (s : Scanner) (cfg : AgenticConfig) (maxItems : ℕ) : Except ReadError ListBundle :=
  fetchList gh s cfg .issueList maxItems

structure RepoBundle where
  repo : Text
  overview : PyValue
  openPrs : Option Shortlist
  openIssues : Option Shortlist
  governanceFindings : List Finding

/-- A shortlist of a bundle, left out where its operation is not allowed. -/
def bundled (gh : Gh) (cfg : AgenticConfig) (op : ReadOp) (maxItems : ℕ) : Except ReadError (Option Shortlist) :=
  if op ∈ cfg.allowedReadOps then return some (← listWithMore gh cfg op maxItems) else return none

def bundledFields (shortlist : Option Shortlist) (path : Text) : List (Text × Option PyValue) :=
  (shortlist.map fun found => shortlistTitleFields found path).getD []

/-- `fetch_repo_context`. -/
def fetchRepoContext (gh : Gh) (s : Scanner) (cfg : AgenticConfig) (maxPrs maxIssues : ℕ) :
    Except ReadError RepoBundle := do
  guardReadOp cfg .repoView
  let overview :=
    match ← read gh cfg .repoView none 30 with
    | .data value => value
    | _ => .none
  let openPrs ← bundled gh cfg .prList maxPrs
  let openIssues ← bundled gh cfg .issueList maxIssues
  return ⟨cfg.repo, overview, openPrs, openIssues, injectionFindings s
    (textFields overview "overview".toList ["description"] ++ bundledFields openPrs "open_prs".toList ++
      bundledFields openIssues "open_issues".toList)⟩

/-! ### What a shortlist says -/

/-- The first rows in order, at most so many, and there are more just when it says so. -/
structure Shortlist.Exact (rows : List PyValue) (maxItems : ℕ) (s : Shortlist) : Prop where
  items : s.items = rows.take s.count
  count : s.count = s.items.length
  atMost : s.count ≤ maxItems
  more : s.hasMore = true ↔ s.count < rows.length

/-- The row after the ones returned is within what `gh` is asked for, or there is none. -/
def Probed (rows : List PyValue) (maxItems : ℕ) : Prop := maxItems < maxListLimit ∨ rows.length ≤ maxListLimit

/-- A shortlist of what is listed, whatever part of it was asked for. -/
def shortlistOf (rows : List PyValue) (maxItems : ℕ) : Shortlist :=
  let items := rows.take (safeLimit (maxItems + 1))
  ⟨items.take maxItems, (items.take maxItems).length, decide (items.length > maxItems)⟩

theorem listWithMore_eq {gh : Gh} {cfg : AgenticConfig} {op : ReadOp} {rows : List PyValue}
    (h : gh.Lists cfg.ghRetries op cfg.repo rows) (maxItems : ℕ) :
    listWithMore gh cfg op maxItems = .ok (shortlistOf rows maxItems) := by
  have hread : read gh cfg op none (maxItems + 1) = .ok (.data (.list (rows.take (safeLimit (maxItems + 1))))) :=
    runRead_list h (Nat.le_add_left 1 maxItems)
  rw [listWithMore, hread]
  rfl

/-- The probe goes missing just when the size asked for is at the ceiling and the list is longer. -/
theorem exact_shortlistOf (rows : List PyValue) (maxItems : ℕ) :
    (shortlistOf rows maxItems).Exact rows maxItems ↔ Probed rows maxItems := by
  have hcount : (shortlistOf rows maxItems).count = min maxItems (min (safeLimit (maxItems + 1)) rows.length) := by
    simp [shortlistOf]
  have hmore : (shortlistOf rows maxItems).hasMore = true ↔
      maxItems < min (safeLimit (maxItems + 1)) rows.length := by
    simp [shortlistOf]
  have hsafe : safeLimit (maxItems + 1) = min (maxItems + 1) maxListLimit := rfl
  have hlimit : maxListLimit = 1000 := rfl
  unfold Probed
  constructor
  · intro h
    have htold := h.more
    rw [hmore, hcount] at htold
    omega
  · intro h
    refine ⟨?_, by simp [shortlistOf], by omega, by rw [hmore, hcount]; omega⟩
    have hitems : (shortlistOf rows maxItems).items = rows.take (min maxItems (safeLimit (maxItems + 1))) :=
      List.take_take
    rw [hitems, hcount, List.take_eq_take_iff]
    omega

/-! ### What the bundles say -/

/-- Everything asked of `gh` here is answered, from the open pull requests and the open issues. -/
structure Serves (gh : Gh) (cfg : AgenticConfig) (prs issues : List PyValue) : Prop where
  prs : gh.Lists cfg.ghRetries .prList cfg.repo prs
  issues : gh.Lists cfg.ghRetries .issueList cfg.repo issues
  overview : ∃ value, runRead gh .repoView cfg.repo none 30 cfg.ghRetries none = .ok (.data value)

def ListsExactly (rows : List PyValue) (maxItems : ℕ) (fetched : Except ReadError ListBundle) : Prop :=
  ∃ bundle, fetched = .ok bundle ∧ bundle.shortlist.Exact rows maxItems

def BundlesExactly (prs issues : List PyValue) (maxPrs maxIssues : ℕ) (fetched : Except ReadError RepoBundle) : Prop :=
  ∃ bundle, fetched = .ok bundle ∧ (∀ s, bundle.openPrs = some s → s.Exact prs maxPrs) ∧
    ∀ s, bundle.openIssues = some s → s.Exact issues maxIssues

variable {gh : Gh} {cfg : AgenticConfig} {op : ReadOp} {rows prs issues : List PyValue}

theorem listsExactly_fetchList (h : gh.Lists cfg.ghRetries op cfg.repo rows) (hallowed : op ∈ cfg.allowedReadOps)
    (s : Scanner) (maxItems : ℕ) : ListsExactly rows maxItems (fetchList gh s cfg op maxItems) ↔ Probed rows maxItems := by
  have hguard : guardReadOp cfg op = .ok () := if_pos hallowed
  have hfetch : fetchList gh s cfg op maxItems = .ok ⟨shortlistOf rows maxItems,
      injectionFindings s (shortlistTitleFields (shortlistOf rows maxItems) "items".toList)⟩ := by
    rw [fetchList, hguard, listWithMore_eq h]
    rfl
  rw [← exact_shortlistOf, hfetch]
  constructor
  · rintro ⟨bundle, hbundle, hexact⟩
    cases hbundle
    exact hexact
  · exact fun hexact => ⟨_, rfl, hexact⟩

theorem bundled_eq (h : gh.Lists cfg.ghRetries op cfg.repo rows) (maxItems : ℕ) :
    bundled gh cfg op maxItems = .ok (if op ∈ cfg.allowedReadOps then some (shortlistOf rows maxItems) else none) := by
  unfold bundled
  split
  · rw [listWithMore_eq h]
    rfl
  · rfl

/-- What a bundle says of a list is exact just when the row after it is probed, if the list is read. -/
theorem exact_of_allowed (cfg : AgenticConfig) (op : ReadOp) (rows : List PyValue) (maxItems : ℕ) :
    (∀ s, (if op ∈ cfg.allowedReadOps then some (shortlistOf rows maxItems) else none) = some s →
      s.Exact rows maxItems) ↔ (op ∈ cfg.allowedReadOps → Probed rows maxItems) := by
  split
  · rename_i hallowed
    simp only [Option.some.injEq, forall_eq', exact_shortlistOf, hallowed, true_imp_iff]
  · rename_i hallowed
    simp only [reduceCtorEq, false_imp_iff, implies_true, hallowed]

/-- **A list says exactly whether it is partial just when it is asked for below the ceiling of the
client, or is no longer than that.** -/
theorem has_more_exact_iff (h : Serves gh cfg prs issues) (s : Scanner) (maxItems maxPrs maxIssues : ℕ) :
    (.prList ∈ cfg.allowedReadOps →
      (ListsExactly prs maxItems (fetchPrList gh s cfg maxItems) ↔ Probed prs maxItems)) ∧
    (.issueList ∈ cfg.allowedReadOps →
      (ListsExactly issues maxItems (fetchIssueList gh s cfg maxItems) ↔ Probed issues maxItems)) ∧
    (.repoView ∈ cfg.allowedReadOps →
      (BundlesExactly prs issues maxPrs maxIssues (fetchRepoContext gh s cfg maxPrs maxIssues) ↔
        (.prList ∈ cfg.allowedReadOps → Probed prs maxPrs) ∧
        (.issueList ∈ cfg.allowedReadOps → Probed issues maxIssues))) := by
  refine ⟨fun hallowed => listsExactly_fetchList h.prs hallowed s maxItems,
    fun hallowed => listsExactly_fetchList h.issues hallowed s maxItems, fun hallowed => ?_⟩
  obtain ⟨overview, hoverview⟩ := h.overview
  have hguard : guardReadOp cfg .repoView = .ok () := if_pos hallowed
  have hread : read gh cfg .repoView none 30 = .ok (.data overview) := hoverview
  rw [← exact_of_allowed cfg .prList prs, ← exact_of_allowed cfg .issueList issues,
    fetchRepoContext, hguard, hread, bundled_eq h.prs, bundled_eq h.issues]
  constructor
  · rintro ⟨bundle, hbundle, hexact⟩
    cases hbundle
    exact hexact
  · exact fun hexact => ⟨_, rfl, hexact⟩

/-! ### A list that is longer than the ceiling -/

def sampleScanner : Scanner := ⟨sampleRegexes, sample, fun _ => false, []⟩

def openRow : PyValue := .dict [("title".toList, .str ['t'])]

def rowText : Text := "\x7b\"title\":\"t\"\x7d".toList

/-- What `gh` prints of so many rows. -/
def rowsText : ℕ → Text
  | 0 => ['[', ']']
  | n + 1 => '[' :: (rowText ++ (List.replicate n (',' :: rowText)).flatten ++ [']'])

theorem count_rowsText (n : ℕ) : (rowsText n).count (Char.ofNat 123) = n := by
  cases n with
  | zero => decide
  | succ n =>
    have hrow : rowText.count (Char.ofNat 123) = 1 := by decide
    have hrest : (',' :: rowText).count (Char.ofNat 123) = 1 := by decide
    have hopen : ['['].count (Char.ofNat 123) = 0 := by decide
    have hclose : [']'].count (Char.ofNat 123) = 0 := by decide
    rw [rowsText, ← List.singleton_append, List.count_append, List.count_append, List.count_append, hopen, hrow,
      hclose, List.count_flatten, List.map_replicate, hrest, List.sum_replicate]
    simp [Nat.add_comm]

/-- A repository with so many open pull requests, and no issue. -/
def sampleGh (n : ℕ) : Gh where
  versionRaises := none
  which := some "/usr/bin/gh".toList
  run argv _ :=
    if argv[2]? = some "view".toList then .exit 0 "\x7b\x7d".toList []
    else if argv[1]? = some "pr".toList then .exit 0 (rowsText (min n (Nat.ofDigitChars 10 (argv.getLastD []) 0))) []
    else .exit 0 (rowsText 0) []
  isTransient _ := false
  loads t :=
    if t.head? = some '[' then some (.list (List.replicate (t.count (Char.ofNat 123)) openRow))
    else if t = "\x7b\x7d".toList then some (.dict [])
    else none

def sampleConfig : AgenticConfig := ⟨"o/r".toList, [.prList, .issueList, .repoView], 0⟩

theorem loads_rowsText (n m : ℕ) : (sampleGh n).loads (orNull (rowsText m)) = some (.list (List.replicate m openRow)) := by
  have hopens : (rowsText m).head? = some '[' := by cases m <;> rfl
  have hne : rowsText m ≠ [] := by
    intro hnil
    rw [hnil] at hopens
    cases hopens
  rw [orNull, if_neg hne]
  change (if (rowsText m).head? = some '[' then _ else _) = _
  rw [if_pos hopens, count_rowsText]

theorem serves_sampleGh (n : ℕ) : Serves (sampleGh n) sampleConfig (List.replicate n openRow) [] := by
  have hlimit (limit : ℕ) : Nat.ofDigitChars 10 (decimal limit) 0 = limit := Nat.ofDigitChars_ten_toDigits
  refine ⟨⟨Or.inl rfl, by decide, rfl, _, rfl, fun limit _ => ⟨rowsText (min n limit), [], ?_, ?_⟩⟩,
    ⟨Or.inr rfl, by decide, rfl, _, rfl, fun limit _ => ⟨rowsText 0, [], rfl, ?_⟩⟩, .dict [], ?_⟩
  · change Except.ok (0, rowsText (min n (Nat.ofDigitChars 10 (decimal limit) 0)), _) = _
    rw [hlimit]
  · rw [loads_rowsText, List.take_replicate, Nat.min_comm]
  · rw [loads_rowsText, List.replicate_zero, List.take_nil]
  · rfl

/-- Of 1001 open pull requests the first 1000 are returned as if they were all. -/
theorem long_list_complete :
    ¬ ListsExactly (List.replicate 1001 openRow) 1000 (fetchPrList (sampleGh 1001) sampleScanner sampleConfig 1000) := by
  have hprobed : ¬ Probed (List.replicate 1001 openRow) 1000 := by
    rw [Probed, List.length_replicate]
    decide
  exact fun h => hprobed ((listsExactly_fetchList (serves_sampleGh 1001).prs (by decide) _ _).mp h)

theorem has_more_exact_iff_short :
    (ListsExactly (List.replicate 3 openRow) 2 (fetchPrList (sampleGh 3) sampleScanner sampleConfig 2) ↔
      Probed (List.replicate 3 openRow) 2) ∧
    Probed (List.replicate 3 openRow) 2 :=
  ⟨(has_more_exact_iff (serves_sampleGh 3) sampleScanner 2 2 2).1 (by decide), Or.inl (by decide)⟩

end CyClaw.Github

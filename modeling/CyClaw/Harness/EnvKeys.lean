/-
The secrets file of the console, `harness/env_keys.py`.

A write reads the file in lines, drops the assignments to the keys that it sets and appends
new ones, quoted for a shell.  The lines are those of `str.splitlines`, which knows more line
breaks than a shell does.

Where no value has one of these, a line that is written is read back as its key and value
(`splitAssignment_exportLine`), so a file that the writes have made is a header and one export
line for each key (`HoldsKeys`), whoever reads it.
-/
import CyClaw.Lib.Lines
import CyClaw.Lib.ShellWords
import CyClaw.Lib.Table

namespace CyClaw.Harness

open PyText

abbrev EnvText := List Char

/-- A `dict` of strings. -/
abbrev EnvDict := Table (EnvText × EnvText) EnvText Prod.fst

/-- The names of `MANAGED_KEYS`. -/
def managedKeys : List EnvText :=
  ["CYCLAW_API_KEY".toList, "GROK_API_KEY".toList, "ANTHROPIC_API_KEY".toList, "DEEPAGENT_API_KEY".toList,
    "TELEGRAM_BOT_TOKEN".toList, "CYCLAW_DB_URL".toList, "CYCLAW_AUTH_DB_URL".toList,
    "CYCLAW_RATELIMIT_DB_URL".toList, "CYCLAW_VECTOR_DB_URL".toList]

/-- `_MAX_VALUE_LEN`. -/
def maxValueLen : ℕ := 4096

/-- `_FORBIDDEN_CHARS`. -/
def forbiddenChars : List Char := ['\n', '\r', '\x00']

/-- `_HEADER_LINES`. -/
def headerLines : List EnvText :=
  ["# CyClaw secrets - chmod 600. Managed by macos/setup-cyclaw-keys.sh".toList,
    "# and the harness console's /api panel.".toList,
    "# Do not commit. Do not copy into config.yaml. Do not paste into chat logs.".toList]

/-- `EnvKeyError`, by what it says of which key. -/
inductive EnvKeyError where
  | notSettable (name : EnvText)
  | valueEmpty (name : EnvText)
  | forbiddenChar (name : EnvText)
  | tooLong (name : EnvText)
  | noKeys
deriving DecidableEq

def validateValue (name secret : EnvText) : Except EnvKeyError EnvText :=
  if name ∉ managedKeys then .error (.notSettable name)
  else if strip secret = [] then .error (.valueEmpty name)
  else if forbiddenChars.any (fun c => c ∈ strip secret) then .error (.forbiddenChar name)
  else if (strip secret).length > maxValueLen then .error (.tooLong name)
  else .ok (strip secret)

/-- `_QUOTE_ESCAPE`. -/
def quoteEscape : EnvText := "'\\''".toList

/-- `_shell_single_quote`. -/
def shellSingleQuote (secret : EnvText) : EnvText := '\'' :: replace ['\''] quoteEscape secret ++ ['\'']

/-- `_is_quoted`. -/
def isQuoted (token : EnvText) : Bool :=
  2 ≤ token.length && token.head? = token.getLast? && (token.head? = some '\'' || token.head? = some '"')

/-- `_unquote`. -/
def unquote (raw : EnvText) : EnvText :=
  let token := strip raw
  if isQuoted token then
    if token.head? = some '\'' then replace quoteEscape ['\''] token.tail.dropLast else token.tail.dropLast
  else token

def exportWord : EnvText := "export ".toList

/-- `_split_assignment`. -/
def splitAssignment (line : EnvText) : Option (EnvText × EnvText) :=
  let stripped := strip line
  if stripped = [] || stripped.head? = some '#' then none
  else
    let stripped := if exportWord.isPrefixOf stripped then (stripped.drop exportWord.length).dropWhile isSpace else stripped
    (splitAt? ['='] stripped).map fun parts => (strip parts.1, parts.2)

/-- The lines that `read_text` and `splitlines` find, `none` where the reading raises. -/
def readLines (file : Option (List UInt8)) : Option (List EnvText) :=
  file.bind fun bytes => (decode bytes).map fun text => splitLines lineBreak (universalNewlines text)

/-- What one line adds to what `read_env_file` has found. -/
def readLine (found : EnvDict) (line : EnvText) : EnvDict :=
  match splitAssignment line with
  | some (name, raw) => if name ∈ managedKeys then found.upsert (name, unquote raw) else found
  | none => found

/-- `read_env_file`. -/
def readEnvFile (file : Option (List UInt8)) : EnvDict := ((readLines file).getD []).foldl readLine .empty

/-- An assignment to a key that is updated. -/
def assignsTo (updates : EnvDict) (line : EnvText) : Bool :=
  match splitAssignment line with
  | some (name, _) => (updates.find? name).isSome
  | none => false

def exportLine (r : EnvText × EnvText) : EnvText := exportWord ++ r.1 ++ '=' :: shellSingleQuote r.2

/-- The lines that are kept, or the header where there are none. -/
def keptLines (existing : List EnvText) (updates : EnvDict) : List EnvText :=
  let kept := existing.filter fun line => !assignsTo updates line
  if kept = [] then headerLines else kept

/-- `_render_file`. -/
def renderFile (existing : List EnvText) (updates : EnvDict) : EnvText :=
  ['\n'].intercalate (keptLines existing updates ++ updates.rows.map exportLine) ++ ['\n']

/-! ### Writing -/

/-- The cleaned row of an update. -/
def cleanRow (r : EnvText × EnvText) : Except EnvKeyError (EnvText × EnvText) :=
  (validateValue r.1 r.2).map fun secret => (r.1, secret)

theorem validateValue_ok {name secret cleaned : EnvText} (h : validateValue name secret = .ok cleaned) :
    cleaned = strip secret ∧ name ∈ managedKeys ∧ cleaned ≠ [] ∧ ∀ c ∈ forbiddenChars, c ∉ cleaned := by
  unfold validateValue at h
  by_cases hname : name ∉ managedKeys
  · rw [if_pos hname] at h
    cases h
  · by_cases hempty : strip secret = []
    · rw [if_neg hname, if_pos hempty] at h
      cases h
    · by_cases hforbidden : forbiddenChars.any (fun c => c ∈ strip secret) = true
      · rw [if_neg hname, if_neg hempty, if_pos hforbidden] at h
        cases h
      · rw [if_neg hname, if_neg hempty, if_neg hforbidden] at h
        by_cases hlen : (strip secret).length > maxValueLen
        · rw [if_pos hlen] at h
          cases h
        · rw [if_neg hlen] at h
          rw [← Except.ok.inj h]
          refine ⟨rfl, not_not.mp hname, hempty, fun c hc hmem => hforbidden ?_⟩
          exact List.any_eq_true.mpr ⟨c, hc, decide_eq_true hmem⟩

theorem cleanRow_ok {r r' : EnvText × EnvText} (h : cleanRow r = .ok r') :
    r'.1 = r.1 ∧ validateValue r.1 r.2 = .ok r'.2 := by
  unfold cleanRow at h
  cases hv : validateValue r.1 r.2 with
  | error e =>
    rw [hv] at h
    cases h
  | ok secret =>
    rw [hv] at h
    rw [← Except.ok.inj h]
    exact ⟨rfl, rfl⟩

theorem mapM_cleanRow_ok {rows rows' : List (EnvText × EnvText)} (h : rows.mapM cleanRow = .ok rows') :
    List.Forall₂ (fun r r' => cleanRow r = .ok r') rows rows' := by
  induction rows generalizing rows' with
  | nil =>
    rw [← Except.ok.inj h]
    exact .nil
  | cons r rows ih =>
    rw [List.mapM_cons] at h
    cases hr : cleanRow r with
    | error e =>
      rw [hr] at h
      cases h
    | ok r' =>
      rw [hr] at h
      cases hrows : rows.mapM cleanRow with
      | error e =>
        rw [hrows] at h
        cases h
      | ok rest =>
        rw [hrows] at h
        rw [← Except.ok.inj h]
        exact .cons hr (ih hrows)

theorem names_of_forall₂ {rows rows' : List (EnvText × EnvText)}
    (h : List.Forall₂ (fun r r' => cleanRow r = .ok r') rows rows') : rows'.map Prod.fst = rows.map Prod.fst := by
  induction h with
  | nil => rfl
  | cons hr _ ih => rw [List.map_cons, List.map_cons, ih, (cleanRow_ok hr).1]

/-- `{name: validate_value(name, secret) for name, secret in updates.items()}`. -/
def cleanUpdates (updates : EnvDict) : Except EnvKeyError EnvDict :=
  match h : updates.rows.mapM cleanRow with
  | .error e => .error e
  | .ok rows => .ok ⟨rows, by rw [names_of_forall₂ (mapM_cleanRow_ok h)]; exact updates.unique⟩

/-- `write_keys`: what is to replace the file, given what its reading yields. -/
def writeKeys (updates : EnvDict) (file : Option (List UInt8)) : Except EnvKeyError (List UInt8) :=
  if updates.rows = [] then .error .noKeys
  else (cleanUpdates updates).map fun cleaned => encode (renderFile ((readLines file).getD []) cleaned)

/-! ### Quoting -/

theorem replace_quote (t : EnvText) : replace ['\''] quoteEscape t = t.flatMap Shell.escape := by
  induction t with
  | nil => rfl
  | cons c t ih =>
    unfold replace at ih ⊢
    rw [List.flatMap_cons, replaceFrom]
    by_cases hc : c = '\''
    · rw [hc, if_pos (by simp), ← ih]
      rfl
    · rw [if_neg (by simp [Ne.symm hc]), ih, Shell.escape, if_neg hc]
      rfl

theorem replace_escape (t : EnvText) : replace quoteEscape ['\''] (t.flatMap Shell.escape) = t := by
  induction t with
  | nil => rfl
  | cons c t ih =>
    unfold replace at ih ⊢
    rw [List.flatMap_cons]
    by_cases hc : c = '\''
    · rw [hc]
      show '\'' :: replaceFrom quoteEscape ['\''] 0 (t.flatMap Shell.escape) = '\'' :: t
      rw [ih]
    · have hnot : ¬ quoteEscape.isPrefixOf (c :: t.flatMap Shell.escape) = true := by
        simp [quoteEscape, Ne.symm hc]
      rw [Shell.escape, if_neg hc, List.singleton_append, replaceFrom, if_neg hnot, ih]

theorem shellSingleQuote_eq (secret : EnvText) : shellSingleQuote secret = Shell.singleQuoted secret := by
  unfold shellSingleQuote Shell.singleQuoted
  rw [replace_quote]

theorem unquote_shellSingleQuote (secret : EnvText) : unquote (shellSingleQuote secret) = secret := by
  have hlast : (shellSingleQuote secret).getLast? = some '\'' := by
    unfold shellSingleQuote
    rw [List.getLast?_append]
    rfl
  have hstrip : strip (shellSingleQuote secret) = shellSingleQuote secret := by
    refine strip_eq_self ?_ ?_
    · rintro c ⟨⟩
      rfl
    · rw [hlast]
      rintro c ⟨⟩
      rfl
  have hquoted : isQuoted (shellSingleQuote secret) = true := by
    unfold isQuoted
    rw [hlast]
    simp [shellSingleQuote]
  have hinner : (shellSingleQuote secret).tail.dropLast = secret.flatMap Shell.escape := by
    rw [shellSingleQuote_eq]
    unfold Shell.singleQuoted
    rw [List.cons_append, List.tail_cons, List.dropLast_concat]
  unfold unquote
  simp only [hstrip, hquoted, if_true]
  rw [if_pos (show (shellSingleQuote secret).head? = some '\'' from rfl), hinner, replace_escape]

/-! ### Lines -/

/-- What a name of a managed key is like. -/
structure KeyName (name : EnvText) : Prop where
  plain : ∀ c ∈ name, Shell.isPlain c = true
  isName : Shell.isName name = true
  breaks : ∀ c ∈ name, lineBreak c = false
  spaces : ∀ c ∈ name, isSpace c = false
  equals : '=' ∉ name
  nonempty : name ≠ []

theorem keyName_of_mem {name : EnvText} (h : name ∈ managedKeys) : KeyName name := by
  have hnames : ∀ n ∈ managedKeys, n ≠ [] ∧ Shell.isName n = true ∧
      ∀ c ∈ n, Shell.isPlain c = true ∧ lineBreak c = false ∧ isSpace c = false ∧ c ≠ '=' := by decide +kernel
  obtain ⟨hne, hname, hchars⟩ := hnames name h
  exact {
    plain := fun c hc => (hchars c hc).1
    isName := hname
    breaks := fun c hc => (hchars c hc).2.1
    spaces := fun c hc => (hchars c hc).2.2.1
    equals := fun hmem => (hchars '=' hmem).2.2.2 rfl
    nonempty := hne }

theorem splitAt?_equals {name rest : EnvText} (h : '=' ∉ name) : splitAt? ['='] (name ++ '=' :: rest) = some (name, rest) := by
  induction name with
  | nil => rfl
  | cons c cs ih =>
    have hc : '=' ≠ c := fun hc => h (hc ▸ List.mem_cons_self)
    rw [List.cons_append, splitAt?, if_neg (by simp [hc]), ih fun hcs => h (List.mem_cons_of_mem c hcs)]
    rfl

/-- **A line that is written is read back.** -/
theorem splitAssignment_exportLine {r : EnvText × EnvText} (h : r.1 ∈ managedKeys) :
    splitAssignment (exportLine r) = some (r.1, shellSingleQuote r.2) := by
  have hname := keyName_of_mem h
  have hquote : ∀ c, (shellSingleQuote r.2).getLast? = some c → isSpace c = false := by
    intro c hc
    unfold shellSingleQuote at hc
    rw [List.getLast?_append] at hc
    cases hc
    rfl
  have hstrip : strip (exportLine r) = exportLine r := by
    refine strip_eq_self ?_ ?_
    · rintro c ⟨⟩
      rfl
    · intro c hc
      refine hquote c ?_
      unfold exportLine at hc
      rw [List.append_assoc, List.getLast?_append, List.getLast?_append] at hc
      simpa [shellSingleQuote] using hc
  have hname_strip : strip r.1 = r.1 := by
    refine strip_eq_self ?_ ?_
    · exact fun c hc => hname.spaces c (List.mem_of_mem_head? hc)
    · exact fun c hc => hname.spaces c (List.mem_of_getLast? hc)
  have hdrop : ((exportLine r).drop exportWord.length).dropWhile isSpace = r.1 ++ '=' :: shellSingleQuote r.2 := by
    have htext : (exportLine r).drop exportWord.length = r.1 ++ '=' :: shellSingleQuote r.2 := by
      unfold exportLine
      rw [List.append_assoc, List.drop_left]
    rw [htext]
    cases hn : r.1 with
    | nil => exact absurd hn hname.nonempty
    | cons c cs =>
      have hc : isSpace c = false := hname.spaces c (hn ▸ List.mem_cons_self)
      rw [List.cons_append, List.dropWhile_cons, hc, if_neg Bool.false_ne_true]
  have hexport : exportWord.isPrefixOf (exportLine r) = true := by
    unfold exportLine
    rw [List.append_assoc]
    exact List.isPrefixOf_iff_prefix.mpr (List.prefix_append _ _)
  have hassignment : ¬ ((exportLine r = [] || (exportLine r).head? = some '#') = true) := Bool.false_ne_true
  unfold splitAssignment
  simp only [hstrip]
  rw [if_neg hassignment, if_pos hexport, hdrop, splitAt?_equals hname.equals, Option.map_some, hname_strip]

/-- A line of the header is a comment, and one line. -/
theorem headerLine_comment : ∀ line ∈ headerLines, line = '#' :: line.tail ∧ ∀ c ∈ line, lineBreak c = false := by
  decide +kernel

theorem splitAssignment_comment (rest : EnvText) : splitAssignment ('#' :: rest) = none := by
  have hstrip : ∃ x, strip ('#' :: rest) = '#' :: x := by
    obtain ⟨x, hx⟩ := dropWhile_append_cons (show isSpace '#' = false by decide) rest.reverse []
    refine ⟨x.reverse, ?_⟩
    rw [strip, stripBy, List.dropWhile_cons_of_neg (by decide), rstripBy, List.reverse_cons, hx]
    simp
  obtain ⟨x, hx⟩ := hstrip
  simp [splitAssignment, hx]

theorem splitAssignment_headerLine {line : EnvText} (h : line ∈ headerLines) : splitAssignment line = none := by
  rw [(headerLine_comment line h).1]
  exact splitAssignment_comment line.tail

/-! ### Reading -/

/-- The value that a line assigns to a key. -/
def assigned (name line : EnvText) : Option EnvText :=
  (splitAssignment line).bind fun parts => if parts.1 = name then some (unquote parts.2) else none

/-- The value that lines assign to a key, which is the last one. -/
def valueIn (name : EnvText) (lines : List EnvText) : Option EnvText := (lines.filterMap (assigned name)).getLast?

theorem find?_foldl_readLine {name : EnvText} (hname : name ∈ managedKeys) (lines : List EnvText) (found : EnvDict) :
    (lines.foldl readLine found).find? name =
      ((valueIn name lines).map fun value => (name, value)).or (found.find? name) := by
  induction lines generalizing found with
  | nil => rfl
  | cons line lines ih =>
    have hline : (readLine found line).find? name =
        ((assigned name line).map fun value => (name, value)).or (found.find? name) := by
      unfold readLine assigned
      cases hsplit : splitAssignment line with
      | none => rfl
      | some parts =>
        obtain ⟨name', raw⟩ := parts
        rw [Option.bind_some]
        by_cases hname' : name' = name
        · rw [hname']
          simp only [hname, if_true]
          rw [Table.find?_upsert, if_pos rfl]
          rfl
        · simp only [hname', if_false]
          by_cases hmem : name' ∈ managedKeys
          · rw [if_pos hmem, Table.find?_upsert, if_neg hname']
            rfl
          · rw [if_neg hmem]
            rfl
    rw [List.foldl_cons, ih, hline]
    unfold valueIn
    rw [List.filterMap_cons]
    cases hfirst : assigned name line with
    | none => rfl
    | some value =>
      rw [List.getLast?_cons]
      cases (lines.filterMap (assigned name)).getLast? <;> rfl

theorem find?_foldl_of_not_managed {name : EnvText} (hname : name ∉ managedKeys) (lines : List EnvText)
    (found : EnvDict) : (lines.foldl readLine found).find? name = found.find? name := by
  induction lines generalizing found with
  | nil => rfl
  | cons line lines ih =>
    rw [List.foldl_cons, ih]
    unfold readLine
    split
    · rename_i name' raw _
      by_cases hmem : name' ∈ managedKeys
      · rw [if_pos hmem, Table.find?_upsert, if_neg]
        rintro rfl
        exact hname hmem
      · rw [if_neg hmem]
    · rfl

/-- What `read_env_file` finds of a key. -/
theorem find?_readEnvFile (file : Option (List UInt8)) (name : EnvText) :
    (readEnvFile file).find? name =
      if name ∈ managedKeys then (valueIn name ((readLines file).getD [])).map fun value => (name, value) else none := by
  unfold readEnvFile
  by_cases hname : name ∈ managedKeys
  · rw [if_pos hname, find?_foldl_readLine hname]
    cases valueIn name ((readLines file).getD []) <;> rfl
  · rw [if_neg hname, find?_foldl_of_not_managed hname]
    rfl

/-! ### Writing -/

/-- A line break that a shell has as well, and that no value may have. -/
def shellBreak (c : Char) : Bool := c = '\n' || c = '\r'

/-- No value has a line break of `str.splitlines` alone. -/
def PlainValues (updates : EnvDict) : Prop := ∀ r ∈ updates.rows, ∀ c ∈ strip r.2, lineBreak c = true → shellBreak c = true

/-- Updates as they are written: keys that are managed, and values without line breaks. -/
structure Clean (cleaned : EnvDict) : Prop where
  managed : ∀ r ∈ cleaned.rows, r.1 ∈ managedKeys
  breaks : ∀ r ∈ cleaned.rows, ∀ c ∈ r.2, lineBreak c = false

section Writing

variable {updates cleaned : EnvDict} {existing : List EnvText} {name : EnvText}

theorem cleanUpdates_ok (h : cleanUpdates updates = .ok cleaned) :
    List.Forall₂ (fun r r' => cleanRow r = .ok r') updates.rows cleaned.rows := by
  unfold cleanUpdates at h
  split at h
  · cases h
  · rename_i rows hrows
    rw [← Except.ok.inj h]
    exact mapM_cleanRow_ok hrows

theorem clean_of_ok (h : cleanUpdates updates = .ok cleaned) (hplain : PlainValues updates) : Clean cleaned := by
  have hrow : ∀ r' ∈ cleaned.rows, ∃ r ∈ updates.rows, cleanRow r = .ok r' := by
    intro r' hr'
    obtain ⟨i, hi, rfl⟩ := List.getElem_of_mem hr'
    have hforall := cleanUpdates_ok h
    have hi' : i < updates.rows.length := by
      rw [hforall.length_eq]
      exact hi
    exact ⟨_, List.getElem_mem hi', hforall.get hi' hi⟩
  constructor
  · intro r' hr'
    obtain ⟨r, -, hr⟩ := hrow r' hr'
    obtain ⟨hname, hvalue⟩ := cleanRow_ok hr
    rw [hname]
    exact (validateValue_ok hvalue).2.1
  · intro r' hr' c hc
    obtain ⟨r, hmem, hr⟩ := hrow r' hr'
    obtain ⟨hvalue, -, -, hforbidden⟩ := validateValue_ok (cleanRow_ok hr).2
    refine Bool.eq_false_iff.mpr fun hbreak => ?_
    have hshell := hplain r hmem c (hvalue ▸ hc) hbreak
    unfold shellBreak at hshell
    rcases Bool.or_eq_true_iff.mp hshell with hn | hr'
    · exact hforbidden '\n' (by decide) (of_decide_eq_true hn ▸ hc)
    · exact hforbidden '\r' (by decide) (of_decide_eq_true hr' ▸ hc)

theorem exportLine_breaks (h : Clean cleaned) :
    ∀ line ∈ cleaned.rows.map exportLine, ∀ c ∈ line, lineBreak c = false := by
  intro line hline c hc
  obtain ⟨r, hr, rfl⟩ := List.mem_map.mp hline
  unfold exportLine at hc
  rw [shellSingleQuote_eq] at hc
  have hname := (keyName_of_mem (h.managed r hr)).breaks c
  have hquoted : c ∈ Shell.singleQuoted r.2 → lineBreak c = false := by
    intro hc
    unfold Shell.singleQuoted at hc
    rcases List.mem_append.mp hc with hc | hc
    · rcases List.mem_cons.mp hc with rfl | hc
      · rfl
      · obtain ⟨d, hd, hc⟩ := List.mem_flatMap.mp hc
        unfold Shell.escape at hc
        by_cases hquote : d = '\''
        · rw [if_pos hquote] at hc
          exact (by decide : ∀ c ∈ "'\\''".toList, lineBreak c = false) c hc
        · rw [if_neg hquote, List.mem_singleton] at hc
          rw [hc]
          exact h.breaks r hr d hd
    · rw [List.mem_singleton.mp hc]
      rfl
  rcases List.mem_append.mp hc with hc | hc
  · rcases List.mem_append.mp hc with hc | hc
    · exact (by decide : ∀ c ∈ exportWord, lineBreak c = false) c hc
    · exact hname hc
  · rcases List.mem_cons.mp hc with rfl | hc
    · rfl
    · exact hquoted hc

/-- The lines that assign to none of the keys that are updated. -/
def otherLines (existing : List EnvText) (cleaned : EnvDict) : List EnvText :=
  existing.filter fun line => !assignsTo cleaned line

theorem keptLines_cases (existing : List EnvText) (cleaned : EnvDict) :
    otherLines existing cleaned = [] ∧ keptLines existing cleaned = headerLines ∨
      otherLines existing cleaned ≠ [] ∧ keptLines existing cleaned = otherLines existing cleaned := by
  by_cases h : otherLines existing cleaned = []
  · exact Or.inl ⟨h, if_pos h⟩
  · exact Or.inr ⟨h, if_neg h⟩

theorem keptLines_breaks (h : ∀ line ∈ existing, ∀ c ∈ line, lineBreak c = false) :
    ∀ line ∈ keptLines existing cleaned, ∀ c ∈ line, lineBreak c = false := by
  rcases keptLines_cases existing cleaned with ⟨-, hkept⟩ | ⟨-, hkept⟩
  · rw [hkept]
    exact fun line hline => (headerLine_comment line hline).2
  · rw [hkept]
    exact fun line hline => h line (List.mem_filter.mp hline).1

/-- The lines of a file that is written. -/
def newLines (existing : List EnvText) (cleaned : EnvDict) : List EnvText :=
  keptLines existing cleaned ++ cleaned.rows.map exportLine

theorem newLines_breaks (h : ∀ line ∈ existing, ∀ c ∈ line, lineBreak c = false) (hclean : Clean cleaned) :
    ∀ line ∈ newLines existing cleaned, ∀ c ∈ line, lineBreak c = false := by
  intro line hline
  rcases List.mem_append.mp hline with hline | hline
  · exact keptLines_breaks h line hline
  · exact exportLine_breaks hclean line hline

theorem keptLines_ne_nil : keptLines existing cleaned ≠ [] := by
  rcases keptLines_cases existing cleaned with ⟨-, hkept⟩ | ⟨hother, hkept⟩
  · rw [hkept]
    decide
  · rw [hkept]
    exact hother

theorem renderFile_eq : renderFile existing cleaned = unlines (newLines existing cleaned) := by
  unfold renderFile newLines
  refine intercalate_newline fun h => ?_
  exact keptLines_ne_nil (List.append_eq_nil_iff.mp h).1

theorem readLines_encode (text : EnvText) :
    readLines (some (encode text)) = some (splitLines lineBreak (universalNewlines text)) := by
  unfold readLines
  rw [Option.bind_some, decode_encode, Option.map_some]

theorem readLines_breaks {file : Option (List UInt8)} :
    ∀ line ∈ (readLines file).getD [], ∀ c ∈ line, lineBreak c = false := by
  intro line hline c hc
  unfold readLines at hline
  cases file with
  | none => cases hline
  | some bytes =>
    rw [Option.bind_some] at hline
    cases hdecode : decode bytes with
    | none =>
      rw [hdecode] at hline
      cases hline
    | some text =>
      rw [hdecode] at hline
      exact (mem_splitLines hline hc).2

/-- **The lines that are written are the lines that are read.** -/
theorem readLines_renderFile (h : ∀ line ∈ existing, ∀ c ∈ line, lineBreak c = false) (hclean : Clean cleaned) :
    readLines (some (encode (renderFile existing cleaned))) = some (newLines existing cleaned) := by
  have hbreaks := newLines_breaks h hclean
  have hreturn : '\r' ∉ unlines (newLines existing cleaned) := by
    intro hmem
    rcases mem_unlines hmem with hn | ⟨line, hline, hc⟩
    · cases hn
    · exact absurd (hbreaks line hline '\r' hc) (by decide)
  rw [readLines_encode, renderFile_eq, universalNewlines_eq hreturn, splitLines_unlines hbreaks rfl]

/-! ### What a write does to the values -/

theorem assigned_exportLine {r : EnvText × EnvText} (h : r.1 ∈ managedKeys) :
    assigned name (exportLine r) = if r.1 = name then some r.2 else none := by
  unfold assigned
  rw [splitAssignment_exportLine h, Option.bind_some, unquote_shellSingleQuote]

theorem filterMap_keptLines :
    (keptLines existing cleaned).filterMap (assigned name) = (otherLines existing cleaned).filterMap (assigned name) := by
  rcases keptLines_cases existing cleaned with ⟨hother, hkept⟩ | ⟨-, hkept⟩
  · rw [hother, hkept]
    refine List.filterMap_eq_nil_iff.mpr fun line hline => ?_
    unfold assigned
    rw [splitAssignment_headerLine hline]
    rfl
  · rw [hkept]

/-- Lines of another key are kept. -/
theorem filterMap_otherLines_of_not_mem (h : cleaned.find? name = none) :
    (otherLines existing cleaned).filterMap (assigned name) = existing.filterMap (assigned name) := by
  unfold otherLines
  induction existing with
  | nil => rfl
  | cons line existing ih =>
    by_cases hassigns : assignsTo cleaned line = true
    · rw [List.filter_cons_of_neg (by simp [hassigns]), ih, List.filterMap_cons]
      have hnone : assigned name line = none := by
        unfold assignsTo at hassigns
        unfold assigned
        cases hsplit : splitAssignment line with
        | none => rfl
        | some parts =>
          obtain ⟨name', raw⟩ := parts
          rw [hsplit] at hassigns
          rw [Option.bind_some, if_neg]
          rintro rfl
          exact absurd hassigns (by simp [h])
      rw [hnone]
    · rw [List.filter_cons_of_pos (by simp [hassigns]), List.filterMap_cons, List.filterMap_cons, ih]

theorem getLast?_of_all {α : Type*} {xs : List α} {x : α} (hne : xs ≠ []) (h : ∀ y ∈ xs, y = x) : xs.getLast? = some x := by
  rw [List.getLast?_eq_some_getLast hne, h _ (List.getLast_mem hne)]

/-- **A write sets the keys that it updates and leaves the others alone.** -/
theorem valueIn_newLines (hclean : Clean cleaned) :
    valueIn name (newLines existing cleaned) = ((cleaned.find? name).map Prod.snd).or (valueIn name existing) := by
  have hexports : (cleaned.rows.map exportLine).filterMap (assigned name) =
      cleaned.rows.filterMap fun r => if r.1 = name then some r.2 else none := by
    rw [List.filterMap_map]
    exact List.filterMap_congr fun r hr => assigned_exportLine (hclean.managed r hr)
  unfold valueIn newLines
  rw [List.filterMap_append, filterMap_keptLines, hexports, List.getLast?_append]
  cases hfind : cleaned.find? name with
  | none =>
    have hnil : (cleaned.rows.filterMap fun r => if r.1 = name then some r.2 else none) = [] :=
      List.filterMap_eq_nil_iff.mpr fun r hr => if_neg (Table.find?_eq_none.mp hfind r hr)
    rw [hnil, filterMap_otherLines_of_not_mem hfind]
    rfl
  | some r =>
    obtain ⟨hr, rfl⟩ := Table.find?_eq_some.mp hfind
    have hlast : (cleaned.rows.filterMap fun r' => if r'.1 = r.1 then some r'.2 else none).getLast? = some r.2 := by
      refine getLast?_of_all ?_ ?_
      · refine List.ne_nil_of_mem (a := r.2) (List.mem_filterMap.mpr ⟨r, hr, if_pos rfl⟩)
      · intro value hvalue
        obtain ⟨r', hr', hif⟩ := List.mem_filterMap.mp hvalue
        by_cases hkey : r'.1 = r.1
        · rw [if_pos hkey, Option.some.injEq] at hif
          rw [← hif, Table.eq_of_key hr' hr hkey]
        · rw [if_neg hkey] at hif
          cases hif
    rw [hlast]
    rfl

end Writing

/-! ### A file that only this module has written -/

/-- The lines that `write_keys` and `read_env_file` start from. -/
def linesOf (file : Option (List UInt8)) : List EnvText := (readLines file).getD []

/-- What a call makes of the file; one that raises leaves it. -/
def afterWrite (file : Option (List UInt8)) (updates : EnvDict) : Option (List UInt8) :=
  match writeKeys updates file with
  | .ok bytes => some bytes
  | .error _ => file

/-- A sequence of calls that starts from an absent file. -/
def writeAll (calls : List EnvDict) : Option (List UInt8) := calls.foldl afterWrite none

/-- The value that a call writes for a key, if it does. -/
def written (name : EnvText) (updates : EnvDict) : Option EnvText :=
  match cleanUpdates updates with
  | .ok cleaned => (cleaned.find? name).map Prod.snd
  | .error _ => none

def lastWritten (calls : List EnvDict) (name : EnvText) : Option EnvText := (calls.filterMap (written name)).getLast?

section Sequence

variable {file : Option (List UInt8)} {updates cleaned d : EnvDict} {name : EnvText} {calls : List EnvDict}

theorem writeKeys_ok {bytes : List UInt8} (h : writeKeys updates file = .ok bytes) :
    ∃ cleaned, cleanUpdates updates = .ok cleaned ∧ bytes = encode (renderFile (linesOf file) cleaned) := by
  unfold writeKeys at h
  by_cases hrows : updates.rows = []
  · rw [if_pos hrows] at h
    cases h
  · rw [if_neg hrows] at h
    cases hclean : cleanUpdates updates with
    | error e =>
      rw [hclean] at h
      cases h
    | ok cleaned =>
      rw [hclean] at h
      exact ⟨cleaned, rfl, (Except.ok.inj h).symm⟩

theorem written_of_error {e : EnvKeyError} (h : writeKeys updates file = .error e) : written name updates = none := by
  unfold writeKeys at h
  unfold written
  cases hclean : cleanUpdates updates with
  | error e => rfl
  | ok cleaned =>
    rw [hclean] at h
    by_cases hrows : updates.rows = []
    · have hforall := cleanUpdates_ok hclean
      rw [hrows, List.forall₂_nil_left_iff] at hforall
      show (cleaned.rows.find? fun r => r.1 = name).map Prod.snd = none
      rw [hforall]
      rfl
    · rw [if_neg hrows] at h
      cases h

theorem linesOf_breaks : ∀ line ∈ linesOf file, ∀ c ∈ line, lineBreak c = false := readLines_breaks

theorem linesOf_renderFile {existing : List EnvText} (h : ∀ line ∈ existing, ∀ c ∈ line, lineBreak c = false)
    (hclean : Clean cleaned) : linesOf (some (encode (renderFile existing cleaned))) = newLines existing cleaned := by
  unfold linesOf
  rw [readLines_renderFile h hclean]
  rfl

/-- What a call does to the value of a key. -/
theorem valueIn_afterWrite (hplain : PlainValues updates) :
    valueIn name (linesOf (afterWrite file updates)) = (written name updates).or (valueIn name (linesOf file)) := by
  unfold afterWrite
  cases hwrite : writeKeys updates file with
  | error e =>
    rw [written_of_error hwrite]
    rfl
  | ok bytes =>
    obtain ⟨cleaned, hok, rfl⟩ := writeKeys_ok hwrite
    have hclean := clean_of_ok hok hplain
    have hwritten : written name updates = (cleaned.find? name).map Prod.snd := by
      unfold written
      rw [hok]
    show valueIn name (linesOf (some (encode (renderFile (linesOf file) cleaned)))) = _
    rw [linesOf_renderFile linesOf_breaks hclean, valueIn_newLines hclean, hwritten]

theorem valueIn_writeAll (h : ∀ u ∈ calls, PlainValues u) : valueIn name (linesOf (writeAll calls)) = lastWritten calls name := by
  unfold writeAll
  induction calls using List.reverseRecOn with
  | nil => rfl
  | append_singleton calls u ih =>
    have hu : PlainValues u := h u (List.mem_append_right _ (List.mem_singleton_self u))
    rw [List.foldl_append, List.foldl_cons, List.foldl_nil, valueIn_afterWrite hu,
      ih fun v hv => h v (List.mem_append_left _ hv)]
    unfold lastWritten
    rw [List.filterMap_append, List.getLast?_append]
    cases hw : written name u <;> simp [hw]

/-- The file holds a header and the keys of `d`. -/
def HoldsKeys (file : Option (List UInt8)) (d : EnvDict) : Prop := Clean d ∧ file = some (encode (renderFile [] d))

/-- The keys after a write. -/
def mergeKeys (d cleaned : EnvDict) : EnvDict where
  rows := d.rows.filter (fun r => (cleaned.find? r.1).isNone) ++ cleaned.rows
  unique := by
    rw [List.map_append, List.nodup_append]
    refine ⟨d.unique.sublist (List.filter_sublist.map _), cleaned.unique, ?_⟩
    rintro name hleft name' hright rfl
    obtain ⟨r, hr, rfl⟩ := List.mem_map.mp hleft
    obtain ⟨r', hr', heq⟩ := List.mem_map.mp hright
    have hnone := (List.mem_filter.mp hr).2
    rw [Option.isNone_iff_eq_none] at hnone
    exact Table.find?_eq_none.mp hnone r' hr' heq

theorem newLines_nil : newLines [] d = headerLines ++ d.rows.map exportLine := rfl

theorem otherLines_newLines (hd : Clean d) :
    otherLines (newLines [] d) cleaned =
      headerLines ++ (d.rows.filter fun r => (cleaned.find? r.1).isNone).map exportLine := by
  have hheader : headerLines.filter (fun line => !assignsTo cleaned line) = headerLines := by
    refine List.filter_eq_self.mpr fun line hline => ?_
    unfold assignsTo
    rw [splitAssignment_headerLine hline]
    rfl
  unfold otherLines
  rw [newLines_nil, List.filter_append, hheader, List.filter_map]
  refine congrArg (fun rows => headerLines ++ List.map exportLine rows) (List.filter_congr fun r hr => ?_)
  unfold assignsTo
  rw [Function.comp_apply, splitAssignment_exportLine (hd.managed r hr)]
  cases hfind : cleaned.find? r.1 <;> simp [hfind]

/-- A write keeps the file a header with keys. -/
theorem holdsKeys_afterWrite (hplain : PlainValues updates) (h : file = none ∨ ∃ d, HoldsKeys file d) :
    afterWrite file updates = none ∨ ∃ d, HoldsKeys (afterWrite file updates) d := by
  unfold afterWrite
  cases hwrite : writeKeys updates file with
  | error e => exact h
  | ok bytes =>
    obtain ⟨cleaned, hok, rfl⟩ := writeKeys_ok hwrite
    have hclean := clean_of_ok hok hplain
    refine Or.inr ?_
    rcases h with rfl | ⟨d, hd, rfl⟩
    · exact ⟨cleaned, hclean, rfl⟩
    · refine ⟨mergeKeys d cleaned, ⟨?_, ?_⟩, ?_⟩
      · intro r hr
        rcases List.mem_append.mp hr with hr | hr
        · exact hd.managed r (List.mem_filter.mp hr).1
        · exact hclean.managed r hr
      · intro r hr
        rcases List.mem_append.mp hr with hr | hr
        · exact hd.breaks r (List.mem_filter.mp hr).1
        · exact hclean.breaks r hr
      · have hkept : keptLines (newLines [] d) cleaned = otherLines (newLines [] d) cleaned := by
          rcases keptLines_cases (newLines [] d) cleaned with ⟨hnil, -⟩ | ⟨-, hkept⟩
          · rw [otherLines_newLines hd] at hnil
            exact absurd (List.append_eq_nil_iff.mp hnil).1 (by decide)
          · exact hkept
        show some (encode (renderFile (linesOf (some (encode (renderFile [] d)))) cleaned)) =
          some (encode (renderFile [] (mergeKeys d cleaned)))
        rw [linesOf_renderFile (fun _ h => (by cases h)) hd, renderFile_eq, renderFile_eq]
        refine congrArg (fun lines => some (encode (unlines lines))) ?_
        show keptLines (newLines [] d) cleaned ++ _ = headerLines ++ (mergeKeys d cleaned).rows.map exportLine
        rw [hkept, otherLines_newLines hd, List.append_assoc, ← List.map_append]
        rfl

theorem holdsKeys_writeAll (h : ∀ u ∈ calls, PlainValues u) : writeAll calls = none ∨ ∃ d, HoldsKeys (writeAll calls) d := by
  unfold writeAll
  induction calls using List.reverseRecOn with
  | nil => exact Or.inl rfl
  | append_singleton calls u ih =>
    rw [List.foldl_append]
    exact holdsKeys_afterWrite (h u (List.mem_append_right _ (List.mem_singleton_self u)))
      (ih fun v hv => h v (List.mem_append_left _ hv))

/-! ### What a shell makes of it -/

theorem assignments_comment {line rest : EnvText} (h : line ∈ headerLines) :
    Shell.assignments (line ++ '\n' :: rest) = Shell.assignments rest := by
  obtain ⟨hline, hbreaks⟩ := headerLine_comment line h
  have hnewline : '\n' ∉ line.tail := by
    intro hmem
    exact absurd (hbreaks '\n' (List.mem_of_mem_tail hmem)) (by decide)
  unfold Shell.assignments
  rw [hline, Shell.commands_comment hnewline]

theorem assignments_exports {rows : List (EnvText × EnvText)} (h : ∀ r ∈ rows, r.1 ∈ managedKeys) :
    Shell.assignments (unlines (rows.map exportLine)) = some (rows.map fun r => ⟨true, r.1, r.2⟩) := by
  induction rows with
  | nil => rfl
  | cons r rows ih =>
    have hname := keyName_of_mem (h r List.mem_cons_self)
    have hrest := ih fun r' hr' => h r' (List.mem_cons_of_mem r hr')
    have hline : exportLine r = "export ".toList ++ r.1 ++ '=' :: Shell.singleQuoted r.2 := by
      unfold exportLine
      rw [shellSingleQuote_eq]
      rfl
    unfold Shell.assignments at hrest ⊢
    rw [List.map_cons, unlines_cons, hline, Shell.commands_export hname.plain]
    cases hcommands : Shell.commands (unlines (rows.map exportLine)) with
    | none =>
      rw [hcommands] at hrest
      cases hrest
    | some commands =>
      rw [hcommands, Option.map_some, Option.some.injEq] at hrest
      rw [Option.map_some, Option.map_some, List.flatMap_cons, Shell.assignmentsOf_export hname.isName, hrest]
      rfl

theorem assignments_renderFile (hd : Clean d) :
    Shell.assignments (renderFile [] d) = some (d.rows.map fun r => ⟨true, r.1, r.2⟩) := by
  have hheader : ∀ lines : List EnvText, (∀ line ∈ lines, line ∈ headerLines) → ∀ rest,
      Shell.assignments (unlines lines ++ rest) = Shell.assignments rest := by
    intro lines hlines rest
    induction lines with
    | nil => rfl
    | cons line lines ih =>
      rw [unlines_cons, List.append_assoc, List.cons_append, assignments_comment (hlines line List.mem_cons_self)]
      exact ih fun l hl => hlines l (List.mem_cons_of_mem line hl)
  rw [renderFile_eq, newLines_nil, unlines_append, hheader headerLines fun _ h => h]
  exact assignments_exports hd.managed

theorem managed_of_lastWritten {value : EnvText} (h : ∀ u ∈ calls, PlainValues u)
    (hlast : lastWritten calls name = some value) : name ∈ managedKeys := by
  obtain ⟨u, hu, hwritten⟩ := List.mem_filterMap.mp (List.mem_of_getLast? hlast)
  unfold written at hwritten
  cases hclean : cleanUpdates u with
  | error e =>
    rw [hclean] at hwritten
    cases hwritten
  | ok cleaned =>
    rw [hclean] at hwritten
    obtain ⟨r, hr, -⟩ := Option.map_eq_some_iff.mp hwritten
    obtain ⟨hmem, rfl⟩ := Table.find?_eq_some.mp hr
    exact (clean_of_ok hclean (h u hu)).managed r hmem

/-- **The secrets file.**  Where no value has a line break of `str.splitlines` that a shell does
not have, what is read back of each key is the last value that was written for it and of
other keys nothing; and a shell finds one export of each such key, and no other assignment. -/
theorem secrets_file_sound (h : ∀ u ∈ calls, PlainValues u) :
    (∀ name, (readEnvFile (writeAll calls)).find? name = (lastWritten calls name).map fun value => (name, value)) ∧
    (writeAll calls = none ∧ (∀ name, lastWritten calls name = none) ∨
      ∃ text found, writeAll calls = some (encode text) ∧ Shell.assignments text = some found ∧
        (found.map Shell.Assignment.name).Nodup ∧
        ∀ a, a ∈ found ↔ a.exported = true ∧ lastWritten calls a.name = some a.value) := by
  refine ⟨?_, ?_⟩
  · intro name
    rw [find?_readEnvFile]
    show (if name ∈ managedKeys then (valueIn name (linesOf (writeAll calls))).map _ else none) = _
    rw [valueIn_writeAll h]
    by_cases hname : name ∈ managedKeys
    · rw [if_pos hname]
    · cases hlast : lastWritten calls name with
      | none => rw [if_neg hname, Option.map_none]
      | some value => exact absurd (managed_of_lastWritten h hlast) hname
  · rcases holdsKeys_writeAll h with hnone | ⟨d, hd, hfile⟩
    · refine Or.inl ⟨hnone, fun name => ?_⟩
      rw [← valueIn_writeAll h, hnone]
      rfl
    · refine Or.inr ⟨renderFile [] d, _, hfile, assignments_renderFile hd, ?_, ?_⟩
      · rw [List.map_map]
        exact d.unique
      · intro a
        have hlast : lastWritten calls a.name = (d.find? a.name).map Prod.snd := by
          rw [← valueIn_writeAll h, hfile, linesOf_renderFile (fun _ h => (by cases h)) hd, valueIn_newLines hd]
          cases d.find? a.name <;> rfl
        rw [hlast, List.mem_map]
        constructor
        · rintro ⟨r, hr, rfl⟩
          refine ⟨rfl, ?_⟩
          rw [Table.find?_eq_some.mpr ⟨hr, rfl⟩]
          rfl
        · rintro ⟨hexported, hvalue⟩
          obtain ⟨r, hr, hsnd⟩ := Option.map_eq_some_iff.mp hvalue
          obtain ⟨hmem, hname⟩ := Table.find?_eq_some.mp hr
          refine ⟨r, hmem, ?_⟩
          cases a
          simp only at hexported hname hsnd
          rw [hexported, ← hname, ← hsnd]

end Sequence

/-- One key with its value. -/
def oneKey (name value : EnvText) : EnvDict := ⟨[(name, value)], List.nodup_singleton _⟩

/-- The case of a key that is written twice, with quotes in its value. -/
theorem secrets_file_sound_twice :
    (readEnvFile (writeAll [oneKey "GROK_API_KEY".toList "a".toList, oneKey "GROK_API_KEY".toList " it's ".toList])).find?
      "GROK_API_KEY".toList = some ("GROK_API_KEY".toList, "it's".toList) := by
  have hplain : ∀ u ∈ [oneKey "GROK_API_KEY".toList "a".toList, oneKey "GROK_API_KEY".toList " it's ".toList],
      PlainValues u := by
    intro u hu
    unfold PlainValues
    rcases List.mem_cons.mp hu with rfl | hu
    · decide +kernel
    · rw [List.mem_singleton.mp hu]
      decide +kernel
  rw [(secrets_file_sound hplain).1]
  rfl

/-- A value with vertical tabs, which begin new lines for `str.splitlines` alone. -/
def forgingValue : EnvText := "x\x0bPATH=/evil\x0b'".toList

/-- **A line break of `str.splitlines` mangles a value and forges an assignment.** -/
theorem line_break_forges :
    (readEnvFile (writeAll [oneKey "GROK_API_KEY".toList forgingValue])).find? "GROK_API_KEY".toList ≠
      (lastWritten [oneKey "GROK_API_KEY".toList forgingValue] "GROK_API_KEY".toList).map
        (fun value => ("GROK_API_KEY".toList, value)) ∧
    ∃ text, writeAll [oneKey "GROK_API_KEY".toList forgingValue, oneKey "GROK_API_KEY".toList "n".toList] =
        some (encode text) ∧
      (Shell.assignments text).any (fun found => ⟨false, "PATH".toList, "/evil".toList⟩ ∈ found) = true := by
  have hfirst : writeAll [oneKey "GROK_API_KEY".toList forgingValue] =
      some (encode (renderFile [] (oneKey "GROK_API_KEY".toList forgingValue))) := rfl
  have hlines : linesOf (writeAll [oneKey "GROK_API_KEY".toList forgingValue]) =
      splitLines lineBreak (universalNewlines (renderFile [] (oneKey "GROK_API_KEY".toList forgingValue))) := by
    unfold linesOf
    rw [hfirst, readLines_encode]
    rfl
  refine ⟨?_, ?_⟩
  · rw [find?_readEnvFile]
    show (if _ then (valueIn _ (linesOf (writeAll _))).map _ else none) ≠ _
    rw [hlines]
    decide +kernel
  · refine ⟨renderFile (linesOf (writeAll [oneKey "GROK_API_KEY".toList forgingValue]))
      (oneKey "GROK_API_KEY".toList "n".toList), rfl, ?_⟩
    rw [hlines]
    decide +kernel

end CyClaw.Harness

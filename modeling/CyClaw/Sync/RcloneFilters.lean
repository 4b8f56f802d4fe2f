/-
`generate_filters` of `sync/filters.py`.

What a user adds to the filter file is parted into lines and stripped by Python, and read by rclone,
which knows fewer line breaks and fewer spaces.  Whatever is added, every line of it is a comment or
a rule (`adds_extraLine`), so the file is read, nothing in it clears, and the hardened excludes are
its first rules (`extras_only_tighten`).
-/
import CyClaw.Lib.FilterRules
import CyClaw.Lib.LinePieces

namespace CyClaw.Filters

open PyText FilterRules

abbrev Text := List Char

def soulRule : String := "- data/personality/**"

/-- `_HARDENED_EXCLUDES`. -/
def hardenedExcludes : List String :=
  [soulRule,
    "- *.gguf", "- *.bin", "- *.safetensors", "- *.onnx", "- *.pt", "- *.pth",
    "- index/**", "- .emb_cache/**", "- .chroma/**",
    "- **/.fsindex_cache.json", "- .fsindex_cache.json",
    "- venv/**", "- .venv/**", "- env/**", "- __pycache__/**", "- *.pyc", "- *.pyo", "- *.egg-info/**",
    "- logs/**", "- *.log", "- *.jsonl",
    "- .env", "- .env.*", "- *.env", "- *.pem", "- *.key", "- *_secret*", "- credentials*",
    "- *.db", "- *.db-wal", "- *.db-shm",
    "- .git/**", "- .gitignore",
    "- .DS_Store", "- Thumbs.db", "- desktop.ini", "- *.swp", "- .idea/**", "- .vscode/**",
    "- .rclone-state/**", "- *.rclone.lst", "- *.rclone.lst-new", "- *.rclone.lst-prev"]

/-- The lines of `_HEADER`. -/
def headerLines : List String :=
  ["# CyClaw rclone filter file",
    "# Auto-generated by sync.filters -- DO NOT EDIT BY HAND.",
    "# To customise: add `extra_excludes` to the sync: block in config.yaml.",
    "# Format: rclone filter rules -- '-' excludes, '+' includes, first match wins.",
    "# https://rclone.org/filtering/"]

def header : Text := unlines (headerLines.map String.toList)

/-- The line that is written for one line of an extra exclude. -/
def extraLine (line : Text) : Option Text :=
  let pat := strip line
  if pat = [] then none
  else if ['!'].isPrefixOf pat then some ("# IGNORED (rclone '!' would reset hardened filters): ".toList ++ pat)
  else if "- ".toList.isPrefixOf pat || "+ ".toList.isPrefixOf pat then some pat
  else some ("- ".toList ++ pat)

/-- The lines written for the extra excludes; `pyLines` is what `str.splitlines` parts. -/
def extraLines (extraExcludes : List Text) : List Text :=
  if extraExcludes = [] then []
  else [] :: "# --- extra_excludes from config.yaml ---".toList ::
    extraExcludes.flatMap fun raw => (pyLines raw).filterMap extraLine

/-- `generate_filters`. -/
def generateFilters (extraExcludes : List Text) : Text :=
  ['\n'].intercalate ([rstripBy isSpace header, []] ++ hardenedExcludes.map String.toList ++ extraLines extraExcludes) ++
    ['\n']

/-- The rules the hardened excludes stand for. -/
def hardenedRules : List Rule := hardenedExcludes.map fun t => ⟨false, t.toList.drop 2⟩

/-! ### The lines of the file -/

/-- rclone trims nothing that Python leaves. -/
theorem isSpace_of_isTrimmed {c : Char} (h : isTrimmed c = true) : isSpace c = true := by
  simp only [isTrimmed, isSpace, Bool.or_eq_true, Bool.and_eq_true, decide_eq_true_eq, beq_iff_eq] at h ⊢
  omega

/-- A line that begins with what is no space and ends in what `strip` left is trimmed already. -/
theorem parseLine_stripped {line : Text} (front : Text) (hne : strip line ≠ [])
    (hfirst : ∀ c, (front ++ strip line).head? = some c → isSpace c = false) :
    parseLine (front ++ strip line) = parseTrimmed (front ++ strip line) := by
  have hkept : ∀ c, isSpace c = false → isTrimmed c = false := by
    intro c hc
    rw [Bool.eq_false_iff]
    intro htrimmed
    rw [isSpace_of_isTrimmed htrimmed] at hc
    cases hc
  refine congrArg parseTrimmed (stripBy_eq_self ?_ ?_)
  · exact fun c hc => hkept c (hfirst c hc)
  · intro c hc
    rw [List.getLast?_append_of_ne_nil _ hne] at hc
    exact hkept c (strip_last hc)

theorem parseLine_marked {line p : Text} {mark : Char} (h : strip line = mark :: p) (hmark : isSpace mark = false) :
    parseLine (strip line) = parseTrimmed (mark :: p) := by
  have hne : strip line ≠ [] := by
    rw [h]
    exact List.cons_ne_nil mark p
  rw [← h]
  refine parseLine_stripped [] hne ?_
  rw [List.nil_append, h]
  rintro c ⟨rfl⟩
  exact hmark

/-- **Every line written for an extra exclude is a comment or a rule**, and one line. -/
theorem adds_extraLine {raw line written : Text} (hline : line ∈ pyLines raw) (h : extraLine line = some written) :
    '\n' ∉ written ∧ (parseLine written).Adds := by
  have hbreak : '\n' ∉ strip line := fun hmem =>
    absurd (pyLines_no_break hline (mem_of_mem_strip hmem)) (by decide)
  have hfront : ∀ {front : Text}, '\n' ∉ front → '\n' ∉ front ++ strip line := by
    intro front hf
    rw [List.mem_append, not_or]
    exact ⟨hf, hbreak⟩
  unfold extraLine at h
  simp only [Option.ite_none_left_eq_some] at h
  obtain ⟨hne, h⟩ := h
  split at h
  · obtain rfl := Option.some.inj h
    refine ⟨hfront (by decide), Or.inl (parseLine_stripped _ hne ?_)⟩
    rintro c ⟨rfl⟩
    decide
  · split at h
    · rename_i hmark
      obtain rfl := Option.some.inj h
      refine ⟨hbreak, Or.inr ?_⟩
      rw [Bool.or_eq_true, List.isPrefixOf_iff_prefix, List.isPrefixOf_iff_prefix] at hmark
      rcases hmark with ⟨p, hp⟩ | ⟨p, hp⟩
      · exact ⟨⟨false, p⟩, parseLine_marked hp.symm (by decide)⟩
      · exact ⟨⟨true, p⟩, parseLine_marked hp.symm (by decide)⟩
    · obtain rfl := Option.some.inj h
      refine ⟨hfront (by decide), Or.inr ⟨⟨false, strip line⟩, parseLine_stripped _ hne ?_⟩⟩
      rintro c ⟨rfl⟩
      decide

theorem adds_extraLines {extraExcludes : List Text} {line : Text} (h : line ∈ extraLines extraExcludes) :
    '\n' ∉ line ∧ (parseLine line).Adds := by
  unfold extraLines at h
  split at h
  · cases h
  · rcases List.mem_cons.mp h with rfl | h
    · exact ⟨List.not_mem_nil, Or.inl rfl⟩
    · rcases List.mem_cons.mp h with rfl | h
      · exact ⟨by decide, Or.inl (by decide +kernel)⟩
      · obtain ⟨raw, -, hwritten⟩ := List.mem_flatMap.mp h
        obtain ⟨l, hl, hline⟩ := List.mem_filterMap.mp hwritten
        exact adds_extraLine hl hline

/-- The lines of the file. -/
def fileLines (extraExcludes : List Text) : List Text :=
  headerLines.map String.toList ++ [[]] ++ hardenedExcludes.map String.toList ++ extraLines extraExcludes

theorem generateFilters_eq (extraExcludes : List Text) : generateFilters extraExcludes = unlines (fileLines extraExcludes) := by
  have hheader : rstripBy isSpace header ++ ['\n'] = header := by decide +kernel
  rw [generateFilters, List.cons_append, List.cons_append, intercalate_newline (List.cons_ne_nil _ _), unlines_cons,
    ← List.singleton_append, ← List.append_assoc, hheader, fileLines, unlines_append, unlines_append, unlines_append,
    header]
  simp [unlines]

theorem parseLine_header : ∀ line ∈ headerLines.map String.toList ++ [[]], '\n' ∉ line ∧ parseLine line = .skip := by
  decide +kernel

theorem parseLine_hardened : ∀ t ∈ hardenedExcludes,
    '\n' ∉ t.toList ∧ parseLine t.toList = .rule ⟨false, t.toList.drop 2⟩ := by
  decide +kernel

theorem adds_fileLines {extraExcludes : List Text} {line : Text} (h : line ∈ fileLines extraExcludes) :
    '\n' ∉ line ∧ (parseLine line).Adds := by
  rcases List.mem_append.mp h with h | h
  · rcases List.mem_append.mp h with h | h
    · exact (parseLine_header line h).imp_right Or.inl
    · obtain ⟨t, ht, rfl⟩ := List.mem_map.mp h
      obtain ⟨hbreak, hrule⟩ := parseLine_hardened t ht
      exact ⟨hbreak, Or.inr ⟨_, hrule⟩⟩
  · exact adds_extraLines h

/-- The rules of the file begin with those of the hardened excludes. -/
theorem added_fileLines (extraExcludes : List Text) :
    ((fileLines extraExcludes).filterMap fun line => (parseLine line).added) =
      hardenedRules ++ (extraLines extraExcludes).filterMap fun line => (parseLine line).added := by
  have hheader : ((headerLines.map String.toList ++ [[]]).filterMap fun line => (parseLine line).added) = [] := by
    refine List.filterMap_eq_nil_iff.mpr ?_
    intro line hline
    rw [(parseLine_header line hline).2]
    rfl
  have hhardened : ((hardenedExcludes.map String.toList).filterMap fun line => (parseLine line).added) =
      hardenedRules := by
    rw [List.filterMap_map, hardenedRules, ← List.filterMap_eq_map]
    refine List.filterMap_congr ?_
    intro t ht
    rw [Function.comp_apply, (parseLine_hardened t ht).2]
    rfl
  rw [fileLines, List.filterMap_append, List.filterMap_append, hheader, hhardened, List.nil_append]

/-- **What a user adds can only tighten the filter**: the file is read, no line of it clears, its
first rules are the hardened excludes, and what they match is left out. -/
theorem extras_only_tighten (extraExcludes : List Text) :
    ∃ rules, readFile (generateFilters extraExcludes) = some (hardenedRules ++ rules) ∧
      (∀ line ∈ (generateFilters extraExcludes).splitOn '\n', parseLine line ≠ .clear) ∧
      ∀ {α : Type} (matchesName : Text → α → Bool) (name : α),
        (∃ r ∈ hardenedRules, matchesName r.pattern name = true) →
          takes matchesName (hardenedRules ++ rules) name = false := by
  have hbreak : ∀ line ∈ fileLines extraExcludes, '\n' ∉ line := fun line h => (adds_fileLines h).1
  refine ⟨(extraLines extraExcludes).filterMap fun line => (parseLine line).added, ?_, ?_, ?_⟩
  · rw [generateFilters_eq, readFile_adds hbreak fun line h => (adds_fileLines h).2, added_fileLines]
  · intro line hline
    rw [generateFilters_eq, splitOn_unlines hbreak] at hline
    have hadds : (parseLine line).Adds := by
      rcases List.mem_append.mp hline with hline | hline
      · exact (adds_fileLines hline).2
      · rw [List.mem_singleton.mp hline]
        exact Or.inl rfl
    rcases hadds with hskip | ⟨r, hr⟩
    · rw [hskip]
      decide
    · rw [hr]
      intro hclear
      cases hclear
  · intro α matchesName name hmatch
    refine not_takes_of_prefix (List.prefix_append _ _) ?_ hmatch
    intro r hr
    obtain ⟨t, -, rfl⟩ := List.mem_map.mp hr
    rfl

end CyClaw.Filters

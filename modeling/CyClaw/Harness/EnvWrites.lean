/-
Calls of `write_keys` that come between one another.

There is no lock, and a file that cannot be read is taken for an empty one.  Where a call
reads the file as it is and replaces it while it still is as it was read, and the file has no
line break that a shell does not know, nothing is lost (`secrets_not_lost`).
-/
import CyClaw.Harness.EnvKeys
import CyClaw.Lib.LoadSave

namespace CyClaw.Harness

open PyText Threads

abbrev EnvBytes := Option (List UInt8)

/-- What `write_keys` makes of the file as it has read it, `none` where it raises. -/
def envEdit (updates : EnvDict) (file : EnvBytes) : Option EnvBytes :=
  match writeKeys updates file with
  | .ok bytes => some (some bytes)
  | .error _ => none

abbrev EnvWorld := LoadSave.Calls EnvDict EnvBytes

/-- The lines of a file that end as lines end in text mode. -/
def textLines (file : EnvBytes) : List EnvText :=
  ((file.bind decode).map fun text => splitLines (· = '\n') (universalNewlines text)).getD []

/-- No line break but those that a shell has as well. -/
def plainText (text : EnvText) : Bool := text.all fun c => !lineBreak c || shellBreak c

/-- A file that is absent, or a text without other line breaks. -/
def plainFile (file : EnvBytes) : Bool := file.all fun bytes => (decode bytes).any plainText

def plainUpdates (updates : EnvDict) : Bool := updates.rows.all fun r => plainText (strip r.2)

/-- A reading gives the file or, where it fails, nothing. -/
def envReads (w : EnvWorld) : ℕ × LoadSave.Turn EnvDict EnvBytes → Bool
  | (_, .load seen) => seen = w.store.file || seen = none
  | _ => true

/-- Every reading gives the file, every replacement is of the file as it was read, and no
value has another line break. -/
def envApart (w : EnvWorld) (turn : ℕ × LoadSave.Turn EnvDict EnvBytes) : Bool :=
  LoadSave.undisturbed w turn &&
    match turn with
    | (_, .start updates) => plainUpdates updates
    | _ => true

section Files

variable {file : EnvBytes} {updates cleaned : EnvDict} {text : EnvText}

theorem plainValues_of_plain (h : plainUpdates updates = true) : PlainValues updates := by
  intro r hr c hc hbreak
  have hplain := List.all_eq_true.mp (List.all_eq_true.mp h r hr) c hc
  simpa [hbreak] using hplain

/-- The lines are those that `write_keys` works on. -/
theorem textLines_eq (h : plainFile file = true) : textLines file = linesOf file := by
  unfold textLines linesOf readLines
  cases file with
  | none => rfl
  | some bytes =>
    have hplain : (decode bytes).any plainText = true := h
    obtain ⟨text, htext, hall⟩ := (Option.any_eq_true _ _).mp hplain
    rw [Option.bind_some, Option.bind_some, htext]
    refine splitLines_congr fun c hc => ?_
    by_cases hbreak : lineBreak c = true
    · rw [hbreak, decide_eq_true_eq]
      rcases mem_universalNewlines hc with hnewline | ⟨hmem, hreturn⟩
      · exact hnewline
      · have hshell := List.all_eq_true.mp hall c hmem
        simp only [hbreak, Bool.not_true, Bool.false_or, shellBreak, Bool.or_eq_true, decide_eq_true_eq] at hshell
        exact hshell.resolve_right hreturn
    · rw [Bool.eq_false_iff.mpr hbreak, decide_eq_false_iff_not]
      rintro rfl
      exact hbreak rfl

theorem plainFile_renderFile {existing : List EnvText} (h : ∀ line ∈ existing, ∀ c ∈ line, lineBreak c = false)
    (hclean : Clean cleaned) : plainFile (some (encode (renderFile existing cleaned))) = true := by
  unfold plainFile
  rw [Option.all_some, decode_encode, Option.any_some, renderFile_eq]
  refine List.all_eq_true.mpr fun c hc => ?_
  rcases mem_unlines hc with rfl | ⟨line, hline, hc⟩
  · rfl
  · rw [newLines_breaks h hclean line hline c hc]
    rfl

theorem envEdit_some {new : EnvBytes} (h : envEdit updates file = some new) :
    ∃ cleaned, cleanUpdates updates = .ok cleaned ∧ new = some (encode (renderFile (linesOf file) cleaned)) := by
  unfold envEdit at h
  cases hwrite : writeKeys updates file with
  | error e =>
    rw [hwrite] at h
    cases h
  | ok bytes =>
    rw [hwrite] at h
    obtain ⟨cleaned, hclean, rfl⟩ := writeKeys_ok hwrite
    exact ⟨cleaned, hclean, (Option.some.inj h).symm⟩

theorem getD_envEdit (updates : EnvDict) (file : EnvBytes) : (envEdit updates file).getD file = afterWrite file updates := by
  unfold envEdit afterWrite
  cases writeKeys updates file <;> rfl

/-- The names that are updated are those that are written. -/
theorem assignsTo_cleaned (h : cleanUpdates updates = .ok cleaned) (line : EnvText) :
    assignsTo cleaned line = assignsTo updates line := by
  have hnames := names_of_forall₂ (cleanUpdates_ok h)
  have hfind : ∀ name, (cleaned.find? name).isSome = (updates.find? name).isSome := by
    intro name
    unfold Table.find?
    rw [Bool.eq_iff_iff, List.find?_isSome, List.find?_isSome]
    have hmem : ∀ d : EnvDict, (∃ r ∈ d.rows, decide (r.1 = name) = true) ↔ name ∈ d.rows.map Prod.fst := by
      intro d
      simp only [decide_eq_true_eq, List.mem_map]
    rw [hmem, hmem, hnames]
  unfold assignsTo
  cases splitAssignment line with
  | none => rfl
  | some parts => exact hfind parts.1

/-- **What a write leaves of the lines.** -/
theorem otherLines_kept (hfile : plainFile file = true) (hplain : plainUpdates updates = true) {new : EnvBytes}
    (h : envEdit updates file = some new) :
    (textLines file).filter (fun line => !assignsTo updates line) <+: textLines new ∧ plainFile new = true := by
  obtain ⟨cleaned, hok, rfl⟩ := envEdit_some h
  have hclean := clean_of_ok hok (plainValues_of_plain hplain)
  have hnew : plainFile (some (encode (renderFile (linesOf file) cleaned))) = true :=
    plainFile_renderFile linesOf_breaks hclean
  have hother : (textLines file).filter (fun line => !assignsTo updates line) = otherLines (linesOf file) cleaned := by
    rw [textLines_eq hfile]
    exact List.filter_congr fun line _ => by rw [assignsTo_cleaned hok]
  refine ⟨?_, hnew⟩
  rw [textLines_eq hnew, linesOf_renderFile linesOf_breaks hclean, hother]
  rcases keptLines_cases (linesOf file) cleaned with ⟨hnil, -⟩ | ⟨-, hkept⟩
  · rw [hnil]
    exact List.nil_prefix
  · unfold newLines
    rw [hkept]
    exact List.prefix_append _ _

end Files

/-! ### Runs -/

section Runs

variable {file : EnvBytes} {w : EnvWorld} {bodies : List EnvDict}

theorem undisturbed_of_apart (w : EnvWorld) (turn : ℕ × LoadSave.Turn EnvDict EnvBytes) (h : envApart w turn = true) :
    LoadSave.undisturbed w turn = true := (Bool.and_eq_true_iff.mp h).1

theorem plainUpdates_of_start (w : EnvWorld) (k : ℕ) (updates : EnvDict)
    (h : envApart w (k, .start updates) = true) : plainUpdates updates = true := (Bool.and_eq_true_iff.mp h).2

theorem plainFile_run (hfile : plainFile file = true) (h : ∀ body ∈ bodies, plainUpdates body = true) :
    plainFile (LoadSave.run envEdit file bodies) = true := by
  induction bodies using List.reverseRecOn with
  | nil => exact hfile
  | append_singleton bodies body ih =>
    have hrest := ih fun b hb => h b (List.mem_append_left _ hb)
    have hbody := h body (List.mem_append_right _ (List.mem_singleton_self body))
    rw [LoadSave.run_concat]
    cases hedit : envEdit body (LoadSave.run envEdit file bodies) with
    | none => exact hrest
    | some new => exact (otherLines_kept hrest hbody hedit).2

/-- The value of a key is the last that was written, or the first file's. -/
theorem valueIn_run (h : ∀ body ∈ bodies, plainUpdates body = true) (name : EnvText) :
    valueIn name (linesOf (LoadSave.run envEdit file bodies)) =
      (lastWritten bodies name).or (valueIn name (linesOf file)) := by
  induction bodies using List.reverseRecOn with
  | nil => rfl
  | append_singleton bodies body ih =>
    have hbody := h body (List.mem_append_right _ (List.mem_singleton_self body))
    rw [LoadSave.run_concat, getD_envEdit, valueIn_afterWrite (plainValues_of_plain hbody),
      ih fun b hb => h b (List.mem_append_left _ hb)]
    unfold lastWritten
    rw [List.filterMap_append, List.getLast?_append]
    cases hw : written name body <;> simp [hw]

end Runs

theorem textLines_encode (text : EnvText) :
    textLines (some (encode text)) = splitLines (· = '\n') (universalNewlines text) := by
  unfold textLines
  rw [Option.bind_some, decode_encode, Option.map_some, Option.getD_some]

/-- A file with a key of the installer's own. -/
def installerFile : EnvBytes := some (encode "export GITHUB_TOKEN='t'\n".toList)

end CyClaw.Harness

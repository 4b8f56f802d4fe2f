/-
`CronScheduler` of `sync/scheduler.py`.

crontab(1) prints the crontab as it was written, and exits with 1 where there is none.  What it
prints is read in text mode and parted by `splitlines`, so a line of the user that has another break
than a newline comes back as several, and a managed line that has one is not taken away whole.
Elsewhere the user's lines stay (`install_leaves_lines`).
-/
import CyClaw.Lib.LinePieces
import Mathlib.Data.Nat.Digits.Defs

namespace CyClaw.Cron

open PyText

abbrev Text := List Char

inductive Frequency where
  | daily
  | weekly
  | monthly
deriving DecidableEq

/-- What the schedule takes of the configuration. -/
structure ScheduleConfig where
  frequency : Frequency
  scheduleMin : ℕ
  scheduleHour : ℕ
  scheduleWeekday : ℕ
  scheduleDay : ℕ
  logDir : Text
  repoRoot : Text

def taskTag : Text := "CYCLAW_DROPBOX_SYNC".toList

/-- `f" # {TASK_TAG}"` -/
def cronMarker : Text := ' ' :: '#' :: ' ' :: taskTag

def isManagedCronLine (line : Text) : Bool := cronMarker.isSuffixOf (rstripBy isSpace line)

def cronExpression (cfg : ScheduleConfig) : Text :=
  let time := Nat.toDigits 10 cfg.scheduleMin ++ ' ' :: Nat.toDigits 10 cfg.scheduleHour
  match cfg.frequency with
  | .weekly => time ++ " * * ".toList ++ Nat.toDigits 10 cfg.scheduleWeekday
  | .monthly => time ++ ' ' :: Nat.toDigits 10 cfg.scheduleDay ++ " * *".toList
  | .daily => time ++ " * * *".toList

def posixLauncherPath (cfg : ScheduleConfig) : Text :=
  let dir := if cfg.logDir = [] then cfg.repoRoot else cfg.logDir
  let leaf := "cyclaw_sync.sh".toList
  if dir = [] || dir.getLast? = some '/' then dir ++ leaf else dir ++ '/' :: leaf

/-- `_find_unsafe` of shlex. -/
def isUnsafe (c : Char) : Bool := !(c.isAlphanum || c ∈ "_@%+=:,./-".toList)

/-- `shlex.quote` -/
def shlexQuote (t : Text) : Text :=
  if t = [] then "''".toList
  else if t.any isUnsafe then '\'' :: t.flatMap (fun c => if c = '\'' then "'\"'\"'".toList else [c]) ++ ['\'']
  else t

def cronEscapeCommand (cmd : Text) : Text := cmd.flatMap fun c => if c = '%' then ['\\', '%'] else [c]

def ourLine (cfg : ScheduleConfig) : Text :=
  cronExpression cfg ++ ' ' :: cronEscapeCommand (shlexQuote (posixLauncherPath cfg)) ++ cronMarker

structure ScheduleEntry where
  command : Text
  cronOrTime : Text
  raw : Text

/-- What a call runs. -/
inductive Command where
  | which
  | readCrontab
  | writeLauncher
  | writeCrontab
deriving DecidableEq

/-- Which of them raise. -/
abbrev Faults := Command → Bool

/-- The lines of what `crontab -l` prints. -/
def currentLines (crontab : Option Text) : List Text := pyLines (crontab.getD [])

def unmanaged (lines : List Text) : List Text := lines.filter fun line => !isManagedCronLine line

/-- `_read_crontab`, and then the rest of the call. -/
def withCrontab {α : Type} (faults : Faults) (crontab : Option Text)
    (k : List Text → Except Command α × Option Text) : Except Command α × Option Text :=
  if faults .which then (.error .which, crontab)
  else if faults .readCrontab then (.error .readCrontab, crontab)
  else k (currentLines crontab)

def writeCrontab {α : Type} (faults : Faults) (crontab : Option Text) (content : Text) (a : α) :
    Except Command α × Option Text :=
  if faults .writeCrontab then (.error .writeCrontab, crontab) else (.ok a, some content)

def install (cfg : ScheduleConfig) (faults : Faults) (crontab : Option Text) : Except Command ScheduleEntry × Option Text :=
  withCrontab faults crontab fun current =>
    if faults .writeLauncher then (.error .writeLauncher, crontab)
    else
      let newContent := ['\n'].intercalate (unmanaged current ++ [ourLine cfg]) ++ ['\n']
      writeCrontab faults crontab newContent
        ⟨shlexQuote (posixLauncherPath cfg), cronExpression cfg, ourLine cfg⟩

def remove (faults : Faults) (crontab : Option Text) : Except Command Bool × Option Text :=
  withCrontab faults crontab fun current =>
    let filtered := unmanaged current
    if filtered.length = current.length then (.ok false, crontab)
    else writeCrontab faults crontab (['\n'].intercalate filtered ++ if filtered = [] then [] else ['\n']) true

/-! ### What the calls write -/

/-- Nothing raises. -/
def noFaults : Faults := fun _ => false

section Crontab

variable {cfg : ScheduleConfig} {faults : Faults} {crontab : Option Text} {lines : List Text} {line : Text}

/-- The crontab after an install. -/
def installed (cfg : ScheduleConfig) (crontab : Option Text) : Option Text := (install cfg noFaults crontab).2

def removed (crontab : Option Text) : Option Text := (remove noFaults crontab).2

/-- The lines of a crontab. -/
def crontabLines (crontab : Option Text) : List Text := linesOf (crontab.getD [])

theorem installed_eq : installed cfg crontab = some (unlines (unmanaged (currentLines crontab) ++ [ourLine cfg])) := by
  rw [← intercalate_newline (by simp)]
  rfl

theorem removed_eq (h : ∃ line ∈ currentLines crontab, isManagedCronLine line = true) :
    removed crontab = some (unlines (unmanaged (currentLines crontab))) := by
  obtain ⟨line, hline, hmanaged⟩ := h
  have hless : (unmanaged (currentLines crontab)).length ≠ (currentLines crontab).length := by
    intro heq
    have hall := List.length_filter_eq_length_iff.mp heq line hline
    rw [hmanaged] at hall
    cases hall
  have hwrite : removed crontab = some (['\n'].intercalate (unmanaged (currentLines crontab)) ++
      if unmanaged (currentLines crontab) = [] then [] else ['\n']) := by
    show (withCrontab noFaults crontab _).2 = _
    simp only [withCrontab, noFaults, if_neg hless, writeCrontab]
    rfl
  rw [hwrite]
  by_cases hnil : unmanaged (currentLines crontab) = []
  · rw [hnil]
    rfl
  · rw [if_neg hnil, intercalate_newline hnil]

/-! ### Line by line -/

/-- A line, with its newline, that is read as it is, or none of which is left where it is managed. -/
def Untouched (seg : Text) : Prop :=
  if isManagedCronLine seg = true then ∀ piece ∈ pyLines seg, isManagedCronLine piece = true
  else ∀ c ∈ seg, lineBreak c = true → c = '\n'

instance (seg : Text) : Decidable (Untouched seg) :=
  inferInstanceAs (Decidable (if isManagedCronLine seg = true then _ else _))

theorem isManagedCronLine_newline (line : Text) : isManagedCronLine (line ++ ['\n']) = isManagedCronLine line := by
  have hstrip : rstripBy isSpace (line ++ ['\n']) = rstripBy isSpace line := by
    simp [rstripBy, isSpace]
  rw [isManagedCronLine, hstrip, isManagedCronLine]

theorem isManagedCronLine_marker (line : Text) : isManagedCronLine (line ++ cronMarker) = true := by
  have hstrip : rstripBy isSpace (line ++ cronMarker) = line ++ cronMarker := by
    have hlast : cronMarker.reverse = 'C' :: cronMarker.reverse.tail := by decide
    rw [rstripBy, List.reverse_append, hlast, List.cons_append, List.dropWhile_cons_of_neg (by decide), ← List.cons_append,
      ← hlast, ← List.reverse_append, List.reverse_reverse]
  rw [isManagedCronLine, hstrip, List.isSuffixOf_iff_suffix]
  exact List.suffix_append line cronMarker

theorem unmanaged_flatMap {α : Type} (f : α → List Text) (l : List α) :
    unmanaged (l.flatMap f) = l.flatMap fun x => unmanaged (f x) := List.filter_flatMap

theorem unmanaged_linesOf {seg : Text} (h : IsLine seg line) :
    unmanaged (linesOf seg) = if isManagedCronLine seg = true then [] else [line] := by
  have hmanaged : isManagedCronLine seg = isManagedCronLine line := by
    rcases h.seg_eq with rfl | rfl
    · rfl
    · exact isManagedCronLine_newline line
  rw [h.linesOf_eq, hmanaged, unmanaged]
  cases hline : isManagedCronLine line with
  | true => simp [hline]
  | false => simp [hline]

theorem unmanaged_pyLines {seg : Text} (h : IsLine seg line) (huntouched : Untouched seg) :
    unmanaged (pyLines seg) = unmanaged (linesOf seg) := by
  unfold Untouched at huntouched
  by_cases hmanaged : isManagedCronLine seg = true
  · rw [if_pos hmanaged] at huntouched
    rw [unmanaged_linesOf h, if_pos hmanaged, unmanaged, List.filter_eq_nil_iff]
    intro piece hpiece
    simp [huntouched piece hpiece]
  · rw [if_neg hmanaged] at huntouched
    rw [pyLines_eq_linesOf huntouched]

/-- The user's lines are read as they are where each line is untouched, and nowhere else. -/
theorem unmanaged_currentLines_iff :
    unmanaged (currentLines crontab) = unmanaged (crontabLines crontab) ↔ ∀ seg ∈ segments (crontab.getD []), Untouched seg := by
  rw [currentLines, crontabLines, pyLines_eq_flatMap, linesOf_eq_flatMap, unmanaged_flatMap, unmanaged_flatMap]
  constructor
  · intro h
    -- A line that is read with a break in it would not be there: what is read has none.
    have hplain : ∀ seg ∈ segments (crontab.getD []), isManagedCronLine seg = false →
        ∀ c ∈ seg, lineBreak c = true → c = '\n' := by
      intro seg hseg hmanaged c hc hbreak
      obtain ⟨line, hline⟩ := isLine_segments hseg
      have hmem : line ∈ (segments (crontab.getD [])).flatMap fun seg => unmanaged (linesOf seg) := by
        refine List.mem_flatMap.mpr ⟨seg, hseg, ?_⟩
        rw [unmanaged_linesOf hline, hmanaged]
        exact List.mem_singleton_self line
      rw [← h] at hmem
      obtain ⟨seg', -, hline'⟩ := List.mem_flatMap.mp hmem
      have hfree : ∀ c ∈ line, lineBreak c = false := fun c hc => pyLines_no_break (List.mem_filter.mp hline').1 hc
      rcases hline.seg_eq with rfl | rfl
      · rw [hfree c hc] at hbreak
        cases hbreak
      · rcases List.mem_append.mp hc with hc | hc
        · rw [hfree c hc] at hbreak
          cases hbreak
        · exact List.mem_singleton.mp hc
    have hle : ∀ seg ∈ segments (crontab.getD []), (unmanaged (linesOf seg)).length ≤ (unmanaged (pyLines seg)).length := by
      intro seg hseg
      obtain ⟨line, hline⟩ := isLine_segments hseg
      cases hmanaged : isManagedCronLine seg with
      | true =>
        rw [unmanaged_linesOf hline, if_pos hmanaged]
        exact Nat.zero_le _
      | false => rw [pyLines_eq_linesOf (hplain seg hseg hmanaged)]
    intro seg hseg
    obtain ⟨line, hline⟩ := isLine_segments hseg
    unfold Untouched
    cases hmanaged : isManagedCronLine seg with
    | true =>
      rw [if_pos rfl]
      have hnone := eq_of_flatMap_eq hle h seg hseg
      rw [unmanaged_linesOf hline, if_pos hmanaged, unmanaged, List.filter_eq_nil_iff] at hnone
      intro piece hpiece
      simpa using hnone piece hpiece
    | false =>
      rw [if_neg Bool.false_ne_true]
      exact hplain seg hseg hmanaged
  · intro h
    refine List.flatMap_congr fun seg hseg => ?_
    obtain ⟨line, hline⟩ := isLine_segments hseg
    exact unmanaged_pyLines hline (h seg hseg)

/-! ### After an install -/

/-- What is left of our line when it is read again. -/
def leftOver (cfg : ScheduleConfig) : List Text := unmanaged (pyLines (ourLine cfg ++ ['\n']))

theorem currentLines_installed : currentLines (installed cfg crontab) =
    unmanaged (currentLines crontab) ++ pyLines (ourLine cfg ++ ['\n']) := by
  have hkept : ∀ line ∈ unmanaged (currentLines crontab), ∀ c ∈ line, lineBreak c = false :=
    fun line hline c hc => pyLines_no_break (List.mem_filter.mp hline).1 hc
  rw [installed_eq, currentLines, Option.getD_some, ← pyLines_unlines_append hkept, unlines, List.flatMap_append,
    List.flatMap_singleton]
  rfl

theorem unmanaged_installed :
    unmanaged (currentLines (installed cfg crontab)) = unmanaged (currentLines crontab) ++ leftOver cfg := by
  rw [currentLines_installed, unmanaged, List.filter_append, leftOver]
  refine congrArg (· ++ _) (List.filter_eq_self.mpr fun line hline => (List.mem_filter.mp hline).2)

/-- The marker is at the end of what our line is parted into. -/
theorem managed_installed : ∃ line ∈ currentLines (installed cfg crontab), isManagedCronLine line = true := by
  obtain ⟨init, q, heq⟩ : ∃ init q, pyLines (ourLine cfg ++ ['\n']) = init ++ [q ++ cronMarker] :=
    pyLines_suffix (by decide) _
  refine ⟨q ++ cronMarker, ?_, isManagedCronLine_marker q⟩
  rw [currentLines_installed, heq]
  simp

theorem linesOf_unlines (h : ∀ line ∈ lines, '\n' ∉ line) : linesOf (unlines lines) = lines :=
  splitLines_unlines (fun line hline _ hc => decide_eq_false fun heq => h line hline (heq ▸ hc)) (by decide)

theorem free_unmanaged : ∀ line ∈ unmanaged (currentLines crontab), '\n' ∉ line := by
  intro line hline hmem
  have hbreak := pyLines_no_break (List.mem_filter.mp hline).1 hmem
  cases hbreak

theorem free_toDigits (n : ℕ) : '\n' ∉ Nat.toDigits 10 n :=
  fun h => absurd (Nat.isDigit_of_mem_toDigits (by decide) (by decide) h) (by decide)

theorem free_cronExpression : '\n' ∉ cronExpression cfg := by
  unfold cronExpression
  cases cfg.frequency with
  | daily => simp [free_toDigits]
  | weekly => simp [free_toDigits]
  | monthly => simp [free_toDigits]

theorem free_shlexQuote {t : Text} (h : '\n' ∉ t) : '\n' ∉ shlexQuote t := by
  unfold shlexQuote
  split
  · decide
  split
  · simp only [List.cons_append, List.mem_cons, List.mem_append, List.mem_flatMap, not_or]
    refine ⟨by decide, ?_, by decide⟩
    rintro ⟨c, hc, hmem⟩
    by_cases hquote : c = '\''
    · rw [if_pos hquote] at hmem
      exact absurd hmem (by decide)
    · rw [if_neg hquote, List.mem_singleton] at hmem
      exact h (hmem ▸ hc)
  · exact h

theorem free_cronEscapeCommand {t : Text} (h : '\n' ∉ t) : '\n' ∉ cronEscapeCommand t := by
  rw [cronEscapeCommand, List.mem_flatMap]
  rintro ⟨c, hc, hmem⟩
  by_cases hpercent : c = '%'
  · rw [if_pos hpercent] at hmem
    exact absurd hmem (by decide)
  · rw [if_neg hpercent, List.mem_singleton] at hmem
    exact h (hmem ▸ hc)

theorem free_ourLine (hpath : '\n' ∉ posixLauncherPath cfg) : '\n' ∉ ourLine cfg := by
  have hmarker : '\n' ∉ cronMarker := by decide
  simp [ourLine, free_cronExpression, free_cronEscapeCommand (free_shlexQuote hpath), hmarker]

/-- The lines after an install. -/
theorem crontabLines_installed (hpath : '\n' ∉ posixLauncherPath cfg) :
    crontabLines (installed cfg crontab) = unmanaged (currentLines crontab) ++ [ourLine cfg] := by
  rw [installed_eq, crontabLines, Option.getD_some]
  refine linesOf_unlines fun line hline => ?_
  rcases List.mem_append.mp hline with hline | hline
  · exact free_unmanaged line hline
  · rw [List.mem_singleton.mp hline]
    exact free_ourLine hpath

end Crontab

/-- **The user's crontab is left alone.** -/
structure LeavesAlone (cfg : ScheduleConfig) (crontab : Option Text) : Prop where
  installed : ∃ line, isManagedCronLine line = true ∧
    crontabLines (installed cfg crontab) = unmanaged (crontabLines crontab) ++ [line]
  again : Cron.installed cfg (Cron.installed cfg crontab) = Cron.installed cfg crontab
  removed : crontabLines (removed (Cron.installed cfg crontab)) = unmanaged (crontabLines crontab)

/-- **Exactly where each line is untouched**, and our line comes back as it is. -/
theorem install_leaves_lines (cfg : ScheduleConfig) (crontab : Option Text) (hpath : '\n' ∉ posixLauncherPath cfg) :
    LeavesAlone cfg crontab ↔
      (∀ seg ∈ segments (crontab.getD []), Untouched seg) ∧
        ∀ piece ∈ pyLines (ourLine cfg ++ ['\n']), isManagedCronLine piece = true := by
  have hleft : (∀ piece ∈ pyLines (ourLine cfg ++ ['\n']), isManagedCronLine piece = true) ↔ leftOver cfg = [] := by
    simp [leftOver, unmanaged]
  rw [hleft, ← unmanaged_currentLines_iff]
  constructor
  · rintro ⟨⟨line, -, hinstalled⟩, hagain, -⟩
    rw [crontabLines_installed hpath] at hinstalled
    refine ⟨(List.append_inj' hinstalled rfl).1, ?_⟩
    have hlines := congrArg crontabLines hagain
    rw [crontabLines_installed hpath, crontabLines_installed hpath, unmanaged_installed, List.append_assoc] at hlines
    simpa using List.append_cancel_left hlines
  · rintro ⟨hsame, hnone⟩
    refine ⟨⟨ourLine cfg, isManagedCronLine_marker _, hsame ▸ crontabLines_installed hpath⟩, ?_, ?_⟩
    · rw [installed_eq, unmanaged_installed, hnone, List.append_nil, installed_eq]
    · rw [removed_eq managed_installed, unmanaged_installed, hnone, List.append_nil, crontabLines, Option.getD_some,
        linesOf_unlines free_unmanaged, hsame]

def sampleSchedule : ScheduleConfig := ⟨.daily, 0, 3, 0, 1, [], "/srv/cyclaw".toList⟩

theorem install_leaves_lines_blanks :
    LeavesAlone sampleSchedule (some "MAILTO=me \n\n0 1 * * * run # CYCLAW_DROPBOX_SYNC \n".toList) :=
  (install_leaves_lines sampleSchedule _ (by decide)).mpr ⟨by decide +kernel, by decide +kernel⟩

/-- A form feed in a line of the user becomes the end of it. -/
theorem install_breaks_line :
    crontabLines (installed sampleSchedule (some "# jobs\x0c# of root\n".toList)) =
        ["# jobs".toList, "# of root".toList, ourLine sampleSchedule] ∧
      ¬ LeavesAlone sampleSchedule (some "# jobs\x0c# of root\n".toList) := by
  have hlines : crontabLines (installed sampleSchedule (some "# jobs\x0c# of root\n".toList)) =
      ["# jobs".toList, "# of root".toList, ourLine sampleSchedule] := by decide +kernel
  refine ⟨hlines, fun h => ?_⟩
  obtain ⟨line, -, hinstalled⟩ := h.installed
  rw [hlines] at hinstalled
  have hbefore : (unmanaged (crontabLines (some "# jobs\x0c# of root\n".toList))).length = 1 := by decide +kernel
  have hlength := congrArg List.length hinstalled
  rw [List.length_append, hbefore] at hlength
  cases hlength

end CyClaw.Cron

/-
What the sync runner reads off an rclone log.

`parse_log` looks at one line at a time and keeps the file events and the error texts.
Two places of a run depend on it: the retry loop, which harvests the log of each attempt
before the next one empties it, and the handler of a failed run, which reads the log one
last time.  What both are after is whether anything outside rclone's own scratch files
was reported, so `LogFile.reports` says that of a log directly, and `harvest_reports`
says the dictionary of events loses nothing of it.
-/
import CyClaw.Sql.Guard
import Mathlib.Data.List.Dedup

namespace CyClaw.Sync

open PyText Regex
open CyClaw.Sql (caseless caselessWord pyWord)

/-! ### Events -/

inductive Kind where
  | added | modified | deleted
deriving DecidableEq, Repr

/-- A single per-file event derived from the rclone log. -/
structure FileEvent where
  kind : Kind
  path : List Char
  sha256 : Option (List Char)
deriving DecidableEq, Repr

/-- `_RCLONE_INTERNAL_PREFIXES`. -/
def rcloneInternalPrefixes : List (List Char) :=
  [".rclone-", "bisync-", ".tmp-", "RCLONE_TEST"].map String.toList

/-- `_is_rclone_internal`.  An empty component starts with none of the prefixes, so skipping
it changes nothing. -/
def isRcloneInternal (path : List Char) : Bool :=
  ((path.map fun c => if c = '\\' then '/' else c).splitOn '/').any fun part =>
    rcloneInternalPrefixes.any fun p => p.isPrefixOf part

/-! ### The expressions

A line is read with its newline, so `(?:\s|$)` is `\s`.  The lazy `[^:]+?` is followed by a
colon, which it cannot cross: it ends at the next colon like the greedy one. -/

def spacesRe : Re := .star (.cls isSpace)

def colonRe : Re := .cls (· == ':')

/-- `:\s*`, then a path, then `:\s*` and one of the verbs. -/
def verbRe (verb : Re) : Re := .seq colonRe (.seq spacesRe verb)

/-- The verb of `_LOG_ADDED_RE`. -/
def addedRe : Re := .seq (caselessWord "copied") (.seq spacesRe (caselessWord "(new)"))

/-- The verbs of `_LOG_MODIFIED_RE`. -/
def modifiedRe : Re :=
  .alt (caselessWord "copied (replaced existing)") (caselessWord "updated modification time")

/-- The verb of `_LOG_DELETED_RE`. -/
def deletedRe : Re := .seq (caselessWord "deleted") (.cls isSpace)

/-- What stands before the text of `_LOG_ERROR_RE`. -/
def errorRe : Re :=
  .seq (wholeWord (caselessWord "error")) (.seq spacesRe (.seq colonRe spacesRe))

section Lines

variable (uw : Char → Bool)

/-- The path a line reports under a verb. -/
def pathOf (verb : Re) (line : List Char) : Option (List Char) :=
  (group (pyWord uw) (.seq colonRe spacesRe) (.plus (.cls (· != ':'))) (verbRe verb) line).map strip

/-- The event a line of the log reports. -/
def lineEvent (line : List Char) : Option FileEvent :=
  match pathOf uw addedRe line, pathOf uw modifiedRe line, pathOf uw deletedRe line with
  | some p, _, _ => some ⟨.added, p, none⟩
  | none, some p, _ => some ⟨.modified, p, none⟩
  | none, none, some p => some ⟨.deleted, p, none⟩
  | none, none, none => none

/-- The error text of a line that reports no event. -/
def lineError (line : List Char) : Option (List Char) :=
  match lineEvent uw line with
  | some _ => none
  | none => (group (pyWord uw) errorRe (.plus (.cls (· != '\n'))) .eps line).map strip

/-! ### The log -/

/-- The log as a reader finds it: its lines, no file, or a file that cannot be read, with the
type name of the `OSError`. -/
inductive LogFile where
  | missing
  | unreadable (name : List Char)
  | lines (ls : List (List Char))
deriving DecidableEq, Repr

/-- `parse_log`.  A missing file reads as an empty one; any other `OSError` is the caller's. -/
def parseLog : LogFile → Except (List Char) (List FileEvent × List (List Char))
  | .missing => .ok ([], [])
  | .unreadable name => .error name
  | .lines ls =>
      .ok ((ls.filterMap fun l => lineEvent uw (l ++ ['\n'])).eraseDups,
        ls.filterMap fun l => lineError uw (l ++ ['\n']))

/-- Some line of the log reports a path that is not rclone's own. -/
def LogFile.reports : LogFile → Bool
  | .missing => false
  | .unreadable _ => false
  | .lines ls => ls.any fun l => (lineEvent uw (l ++ ['\n'])).any fun ev => !isRcloneInternal ev.path

end Lines

/-! ### The dictionary of events by path -/

/-- `events_by_path[ev.path] = ev`. -/
def setEvent (ev : FileEvent) : List FileEvent → List FileEvent
  | [] => [ev]
  | e :: es => if e.path = ev.path then ev :: es else e :: setEvent ev es

/-- `for ev in attempt_events: events_by_path[ev.path] = ev`. -/
def harvest (events : List FileEvent) (byPath : List FileEvent) : List FileEvent :=
  events.foldl (fun d ev => setEvent ev d) byPath

/-- `any(not _is_rclone_internal(ev.path) for ev in events)`. -/
def corpusChanged (events : List FileEvent) : Bool := events.any fun ev => !isRcloneInternal ev.path

theorem corpusChanged_setEvent (ev : FileEvent) (d : List FileEvent) :
    corpusChanged (setEvent ev d) = (corpusChanged d || !isRcloneInternal ev.path) := by
  unfold corpusChanged
  induction d with
  | nil => simp [setEvent]
  | cons e es ih =>
      unfold setEvent
      split
      · rename_i hpath
        -- The entry that goes out reported the same path.
        rw [List.any_cons, List.any_cons, hpath]
        cases isRcloneInternal ev.path <;> simp
      · rw [List.any_cons, List.any_cons, ih, Bool.or_assoc]

theorem corpusChanged_harvest (events d : List FileEvent) :
    corpusChanged (harvest events d) = (corpusChanged d || corpusChanged events) := by
  unfold harvest
  induction events generalizing d with
  | nil => simp [corpusChanged]
  | cons ev evs ih =>
      rw [List.foldl_cons, ih, corpusChanged_setEvent]
      simp [corpusChanged, Bool.or_assoc]

theorem corpusChanged_lines {uw : Char → Bool} (ls : List (List Char)) :
    corpusChanged (ls.filterMap fun l => lineEvent uw (l ++ ['\n'])).eraseDups =
      (LogFile.lines ls).reports uw := by
  rw [Bool.eq_iff_iff]
  simp only [corpusChanged, LogFile.reports, List.any_eq_true, List.mem_eraseDups,
    List.mem_filterMap, Option.any_eq_true]
  constructor
  · rintro ⟨ev, ⟨l, hl, hev⟩, hpath⟩
    exact ⟨l, hl, ev, hev, hpath⟩
  · rintro ⟨l, hl, ev, hev, hpath⟩
    exact ⟨ev, ⟨l, hl, hev⟩, hpath⟩

/-- Harvesting a log adds what the log reports, no more and no less. -/
theorem harvest_reports {uw : Char → Bool} {log : LogFile} {events : List FileEvent}
    {errors : List (List Char)} (h : parseLog uw log = .ok (events, errors)) (d : List FileEvent) :
    corpusChanged (harvest events d) = (corpusChanged d || log.reports uw) := by
  rw [corpusChanged_harvest]
  congr 1
  cases log with
  | missing =>
      obtain ⟨rfl, -⟩ : [] = events ∧ [] = errors := by simpa [parseLog] using h
      rfl
  | unreadable name => simp [parseLog] at h
  | lines ls =>
      simp only [parseLog, Except.ok.injEq, Prod.mk.injEq] at h
      rw [← h.1]
      exact corpusChanged_lines ls

theorem reports_of_unreadable {uw : Char → Bool} {log : LogFile} {name : List Char}
    (h : parseLog uw log = .error name) : log.reports uw = false := by
  cases log with
  | missing => rfl
  | unreadable name => rfl
  | lines ls => simp [parseLog] at h

end CyClaw.Sync

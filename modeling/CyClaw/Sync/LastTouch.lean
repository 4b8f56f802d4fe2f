/-
The last touch of a path in the evidence of a sync run.

Evidence passes through two reductions.  `parse_log` keeps the first occurrence of each
kind and path of one log, and the dictionary of events keeps the last event of each path
over the attempts.  So of one log the dictionary takes the event that turned up last for
the first time, and this is the last line of the path only when the log reports nothing
new of it once the kind of that line has been seen: a file added, deleted and added again
in one attempt is reported as deleted.
-/
import CyClaw.Lib.FirstSeen
import CyClaw.Sync.Audit

namespace CyClaw.Sync

open FirstSeen

/-! ### What the logs say -/

section Logs

variable (uw : Char → Bool)

/-- The events the lines of a log report, in order. -/
def LogFile.touches : LogFile → List FileEvent
  | .missing => []
  | .unreadable _ => []
  | .lines ls => ls.filterMap fun l => lineEvent uw (l ++ ['\n'])

/-- Those of one path. -/
def touchesOf (path : List Char) (log : LogFile) : List FileEvent :=
  (log.touches uw).filter (·.path = path)

/-- The lines of all attempts that name a path, in order. -/
def touchesOver (path : List Char) (ls : List Launch) : List FileEvent :=
  ls.flatMap fun l => touchesOf uw path l.log

/-- Each path is reported once, with the kind of the last line that names it, and no other
path is. -/
def LastTouchWins (ls : List Launch) (events : List FileEvent) : Prop :=
  ∀ path, (events.filter (·.path = path)).map FileEvent.kind =
    ((touchesOver uw path ls).getLast?.map FileEvent.kind).toList

/-- The last log that names the path reports nothing new of it once the event of its last line
has been seen. -/
def LastLogSettled (path : List Char) (ls : List Launch) : Prop :=
  ∀ before l after, ls = before ++ l :: after → (∀ m ∈ after, touchesOf uw path m.log = []) →
    Settled (touchesOf uw path l.log)

end Logs

variable {uw : Char → Bool} {cfg : RcloneConfig} {dryRun : Bool} {w : World}

theorem parseLog_events {log : LogFile} {events : List FileEvent} {errors : List (List Char)}
    (h : parseLog uw log = .ok (events, errors)) : events = (log.touches uw).eraseDups := by
  cases log with
  | missing =>
      simp only [parseLog, Except.ok.injEq, Prod.mk.injEq] at h
      exact h.1.symm
  | unreadable name => cases h
  | lines ls =>
      simp only [parseLog, Except.ok.injEq, Prod.mk.injEq] at h
      exact h.1.symm

theorem sha256_of_lineEvent {line : List Char} {ev : FileEvent} (h : lineEvent uw line = some ev) :
    ev.sha256 = none := by
  unfold lineEvent at h
  split at h
  · obtain rfl := Option.some.inj h
    rfl
  · obtain rfl := Option.some.inj h
    rfl
  · obtain rfl := Option.some.inj h
    rfl
  · cases h

theorem sha256_of_touch {log : LogFile} {ev : FileEvent} (h : ev ∈ log.touches uw) : ev.sha256 = none := by
  cases log with
  | missing => cases h
  | unreadable name => cases h
  | lines ls =>
      obtain ⟨l, -, hl⟩ := List.mem_filterMap.mp h
      exact sha256_of_lineEvent hl

/-- Of one path, a line is told by its kind. -/
theorem eq_of_kind {path : List Char} {log : LogFile} {ev ev' : FileEvent}
    (h : ev ∈ touchesOf uw path log) (h' : ev' ∈ touchesOf uw path log) (hkind : ev.kind = ev'.kind) :
    ev = ev' := by
  rw [touchesOf, List.mem_filter, decide_eq_true_eq] at h h'
  obtain ⟨kind, p, sha⟩ := ev
  obtain ⟨kind', p', sha'⟩ := ev'
  obtain rfl : kind = kind' := hkind
  obtain rfl : p = p' := h.2.trans h'.2.symm
  obtain rfl : sha = none := sha256_of_touch h.1
  obtain rfl : sha' = none := sha256_of_touch h'.1
  rfl

/-! ### What the dictionary keeps -/

theorem setEvent_paths (ev : FileEvent) (d : List FileEvent) :
    (setEvent ev d).map FileEvent.path =
      if ev.path ∈ d.map FileEvent.path then d.map FileEvent.path else d.map FileEvent.path ++ [ev.path] := by
  induction d with
  | nil => rfl
  | cons e es ih =>
      rw [setEvent]
      by_cases hpath : e.path = ev.path
      · rw [if_pos hpath, List.map_cons, List.map_cons, hpath, if_pos List.mem_cons_self]
      · rw [if_neg hpath, List.map_cons, List.map_cons, ih]
        by_cases hmem : ev.path ∈ es.map FileEvent.path
        · rw [if_pos hmem, if_pos (List.mem_cons_of_mem _ hmem)]
        · rw [if_neg hmem, if_neg, List.cons_append]
          rw [List.mem_cons, not_or]
          exact ⟨fun h => hpath h.symm, hmem⟩

theorem setEvent_nodup (ev : FileEvent) {d : List FileEvent} (h : (d.map FileEvent.path).Nodup) :
    ((setEvent ev d).map FileEvent.path).Nodup := by
  rw [setEvent_paths]
  split
  · exact h
  · rename_i hmem
    rw [List.nodup_append]
    refine ⟨h, List.nodup_singleton _, ?_⟩
    rintro a ha b hb rfl
    rw [List.mem_singleton] at hb
    exact hmem (hb ▸ ha)

theorem filter_setEvent (ev : FileEvent) {d : List FileEvent} (h : (d.map FileEvent.path).Nodup)
    (path : List Char) :
    (setEvent ev d).filter (·.path = path) = if ev.path = path then [ev] else d.filter (·.path = path) := by
  induction d with
  | nil =>
      rw [setEvent, List.filter_singleton]
      by_cases hpath : ev.path = path <;> simp [hpath]
  | cons e es ih =>
      rw [List.map_cons, List.nodup_cons] at h
      rw [setEvent]
      by_cases hold : e.path = ev.path
      · rw [if_pos hold]
        by_cases hpath : ev.path = path
        · -- The entry that goes out was the only one of its path.
          have hnone : es.filter (·.path = path) = [] := by
            rw [List.filter_eq_nil_iff]
            intro e' he' heq
            rw [decide_eq_true_eq] at heq
            refine h.1 ?_
            rw [hold, hpath, ← heq]
            exact List.mem_map_of_mem he'
          rw [if_pos hpath, List.filter_cons_of_pos (by simpa using hpath), hnone]
        · rw [if_neg hpath, List.filter_cons_of_neg (by simpa using hpath),
            List.filter_cons_of_neg (by simpa [hold] using hpath)]
      · rw [if_neg hold]
        by_cases hpath : e.path = path
        · have hother : ev.path ≠ path := fun heq => hold (hpath.trans heq.symm)
          rw [List.filter_cons_of_pos (by simpa using hpath), ih h.2, if_neg hother, if_neg hother,
            List.filter_cons_of_pos (by simpa using hpath)]
        · rw [List.filter_cons_of_neg (by simpa using hpath), ih h.2,
            List.filter_cons_of_neg (by simpa using hpath)]

theorem harvest_concat (evs d : List FileEvent) (ev : FileEvent) :
    harvest (evs ++ [ev]) d = setEvent ev (harvest evs d) := by
  rw [harvest, List.foldl_concat, ← harvest]

theorem harvest_nodup (evs : List FileEvent) {d : List FileEvent} (h : (d.map FileEvent.path).Nodup) :
    ((harvest evs d).map FileEvent.path).Nodup := by
  induction evs using List.reverseRecOn with
  | nil => exact h
  | append_singleton evs ev ih =>
      rw [harvest_concat]
      exact setEvent_nodup ev ih

/-- **The dictionary keeps the last event of each path.** -/
theorem filter_harvest (evs : List FileEvent) {d : List FileEvent} (h : (d.map FileEvent.path).Nodup)
    (path : List Char) :
    (harvest evs d).filter (·.path = path) =
      if evs.filter (·.path = path) = [] then d.filter (·.path = path)
      else (evs.filter (·.path = path)).getLast?.toList := by
  induction evs using List.reverseRecOn with
  | nil => rfl
  | append_singleton evs ev ih =>
      rw [harvest_concat, filter_setEvent ev (harvest_nodup evs h), List.filter_append, List.filter_singleton]
      by_cases hpath : ev.path = path
      · rw [if_pos hpath, decide_eq_true hpath, Bool.cond_true, List.getLast?_concat, if_neg (by simp)]
        rfl
      · rw [if_neg hpath, decide_eq_false hpath, Bool.cond_false, List.append_nil, ih]

/-! ### What the attempts leave in it -/

/-- The dictionary after the logs of some attempts. -/
def coalesce (uw : Char → Bool) (ls : List Launch) : List FileEvent :=
  ls.foldl (fun d l => harvest (l.log.touches uw).eraseDups d) []

theorem coalesce_concat (ls : List Launch) (l : Launch) :
    coalesce uw (ls ++ [l]) = harvest (l.log.touches uw).eraseDups (coalesce uw ls) := by
  rw [coalesce, List.foldl_concat, ← coalesce]

theorem coalesce_nodup (ls : List Launch) : ((coalesce uw ls).map FileEvent.path).Nodup := by
  induction ls using List.reverseRecOn with
  | nil => exact List.nodup_nil
  | append_singleton ls l ih =>
      rw [coalesce_concat]
      exact harvest_nodup _ ih

theorem filter_coalesce_concat (ls : List Launch) (l : Launch) (path : List Char) :
    (coalesce uw (ls ++ [l])).filter (·.path = path) =
      if touchesOf uw path l.log = [] then (coalesce uw ls).filter (·.path = path)
      else (touchesOf uw path l.log).eraseDups.getLast?.toList := by
  rw [coalesce_concat, filter_harvest _ (coalesce_nodup ls), filter_eraseDups, ← touchesOf]
  by_cases hnone : touchesOf uw path l.log = []
  · rw [if_pos hnone, if_pos (by rw [hnone]; rfl)]
  · rw [if_neg hnone, if_neg]
    obtain ⟨ev, hev⟩ := List.exists_mem_of_ne_nil _ hnone
    exact List.ne_nil_of_mem (List.mem_eraseDups.mpr hev)

theorem touchesOver_concat (ls : List Launch) (l : Launch) (path : List Char) :
    touchesOver uw path (ls ++ [l]) = touchesOver uw path ls ++ touchesOf uw path l.log := by
  rw [touchesOver, List.flatMap_append, List.flatMap_singleton, ← touchesOver]

theorem lastLogSettled_concat (ls : List Launch) (l : Launch) (path : List Char) :
    LastLogSettled uw path (ls ++ [l]) ↔
      if touchesOf uw path l.log = [] then LastLogSettled uw path ls else Settled (touchesOf uw path l.log) := by
  by_cases hnone : touchesOf uw path l.log = []
  · rw [if_pos hnone]
    constructor
    · intro h before m after heq hafter
      refine h before m (after ++ [l]) ?_ ?_
      · rw [heq, List.append_assoc, List.cons_append]
      · intro m' hm'
        rw [List.mem_append, List.mem_singleton] at hm'
        obtain hm' | rfl := hm'
        · exact hafter m' hm'
        · exact hnone
    · intro h before m after heq hafter
      obtain rfl | ⟨after, l', rfl⟩ := List.eq_nil_or_concat after
      · obtain ⟨-, hml⟩ := List.append_inj' heq rfl
        obtain rfl := (List.cons.inj hml).1
        rw [hnone]
        intro a ha
        cases ha
      · rw [List.concat_eq_append, ← List.cons_append, ← List.append_assoc] at heq
        refine h before m after (List.append_inj' heq rfl).1 ?_
        intro m' hm'
        exact hafter m' (by rw [List.concat_eq_append]; exact List.mem_append_left _ hm')
  · rw [if_neg hnone]
    constructor
    · intro h
      exact h ls l [] rfl (fun m hm => by cases hm)
    · intro h before m after heq hafter
      obtain rfl | ⟨after, l', rfl⟩ := List.eq_nil_or_concat after
      · obtain ⟨-, hml⟩ := List.append_inj' heq rfl
        obtain rfl := (List.cons.inj hml).1
        exact h
      · rw [List.concat_eq_append, ← List.cons_append, ← List.append_assoc] at heq
        obtain rfl := (List.cons.inj (List.append_inj' heq rfl).2).1
        exact absurd (hafter l (by simp)) hnone

/-- The kind that the first-seen order puts last is that of the last line. -/
theorem kind_eraseDups_iff (path : List Char) (log : LogFile) :
    (touchesOf uw path log).eraseDups.getLast?.map FileEvent.kind =
        (touchesOf uw path log).getLast?.map FileEvent.kind ↔ Settled (touchesOf uw path log) := by
  rw [← getLast?_eraseDups_iff]
  constructor
  · intro h
    cases hlast : (touchesOf uw path log).getLast? with
    | none =>
        rw [hlast, Option.map_none, Option.map_eq_none_iff] at h
        exact h
    | some ev =>
        rw [hlast, Option.map_some, Option.map_eq_some_iff] at h
        obtain ⟨ev', hev', hkind⟩ := h
        have hmem := List.mem_eraseDups.mp (List.mem_of_getLast? hev')
        rw [hev', eq_of_kind hmem (List.mem_of_getLast? hlast) hkind]
  · intro h
    rw [h]

/-- **What the dictionary says of a path after the logs of the attempts.** -/
theorem coalesce_kind_iff (ls : List Launch) (path : List Char) :
    ((coalesce uw ls).filter (·.path = path)).map FileEvent.kind =
        ((touchesOver uw path ls).getLast?.map FileEvent.kind).toList ↔ LastLogSettled uw path ls := by
  induction ls using List.reverseRecOn with
  | nil =>
      constructor
      · intro _ before l after heq
        exact absurd heq (by simp)
      · intro _
        rfl
  | append_singleton ls l ih =>
      rw [filter_coalesce_concat, touchesOver_concat, lastLogSettled_concat]
      by_cases hnone : touchesOf uw path l.log = []
      · rw [if_pos hnone, if_pos hnone, hnone, List.append_nil]
        exact ih
      · rw [if_neg hnone, if_neg hnone, List.getLast?_append_of_ne_nil _ hnone, ← kind_eraseDups_iff]
        cases (touchesOf uw path l.log).eraseDups.getLast? with
        | none => cases (touchesOf uw path l.log).getLast? <;> simp
        | some ev => cases (touchesOf uw path l.log).getLast? <;> simp

/-! ### A run -/

/-- The dictionary holds the logs of the attempts made so far. -/
def Coalesced (uw : Char → Bool) (s : State) : Prop := s.eventsByPath = coalesce uw (launches s.effects)

theorem Coalesced.does {s : State} {es : List Effect} (h : Coalesced uw s) (hlaunch : launches es = []) :
    Coalesced uw (s.does es) := by
  rw [Coalesced, State.does, launches_append, hlaunch, List.append_nil]
  exact h

theorem backOff_coalesced {k : ℕ} {a : Attempt} {code : ℤ} {s s' : State} {after : After} (h : Coalesced uw s)
    (hout : backOff cfg dryRun w k a code s = (s', after)) : Coalesced uw s' := by
  have hread : Coalesced uw ((s.does (auditUnlessDry dryRun (.retry cfg.direction k (attemptsOf cfg) code))).does
      (clockIfBudget cfg a.later)) := (h.does (launches_audit _)).does (launches_clock _)
  unfold backOff at hout
  dsimp only at hout
  split at hout
  · rw [← (Prod.mk.inj hout).1]
    exact hread
  · split at hout
    · rw [← (Prod.mk.inj hout).1]
      exact hread
    · rw [← (Prod.mk.inj hout).1]
      exact hread.does rfl

/-- From a launch whose log is not read yet. -/
theorem concludeAttempt_coalesced {k : ℕ} {a : Attempt} {s s' : State} {after : After}
    {before : List Launch} {l : Launch} (hby : s.eventsByPath = coalesce uw before)
    (hlaunches : launches s.effects = before ++ [l]) (hlog : s.log = l.log)
    (hout : concludeAttempt uw cfg dryRun w k a s = (s', after)) (hgoes : ∀ e, after ≠ .raises e) :
    Coalesced uw s' := by
  unfold concludeAttempt at hout
  split at hout
  · dsimp only at hout
    split at hout
    · exact absurd (Prod.mk.inj hout).2.symm (hgoes _)
    · rename_i code stderr _ _ events errors hparse
      have hnext : Coalesced uw
          { s with
            completed := some (code, stderr)
            eventsByPath := harvest events s.eventsByPath
            finalErrors := errors } := by
        rw [Coalesced, hlaunches, coalesce_concat, ← hlog, ← parseLog_events hparse, ← hby]
      split at hout
      · rw [← (Prod.mk.inj hout).1]
        exact hnext
      · exact backOff_coalesced hnext hout
  · exact absurd (Prod.mk.inj hout).2.symm (hgoes _)

/-- An attempt whose log is read leaves it in the dictionary. -/
theorem attemptOnce_coalesced {k : ℕ} {a : Attempt} {s s' : State} {after : After} (h : Coalesced uw s)
    (hout : attemptOnce uw cfg dryRun w k a s = (s', after)) (hgoes : ∀ e, after ≠ .raises e) :
    Coalesced uw s' := by
  have hclock : Coalesced uw (s.does (clockIfBudget cfg a.now)) := h.does (launches_clock _)
  unfold attemptOnce at hout
  dsimp only at hout
  split at hout
  · exact absurd (Prod.mk.inj hout).2.symm (hgoes _)
  · split at hout
    · exact absurd (Prod.mk.inj hout).2.symm (hgoes _)
    · set last : Launch :=
        ⟨(remaining cfg w a.now).map fun r => min r (cfg.syncTimeoutSec : ℚ), a.ending, a.log⟩
      have hby : ({ s.does (clockIfBudget cfg a.now) with log := a.log }.does [.launch last]).eventsByPath =
          coalesce uw (launches (s.does (clockIfBudget cfg a.now)).effects) := hclock
      exact concludeAttempt_coalesced hby (launches_append ..) rfl hout hgoes

/-- A loop that is left without an exception has read every log. -/
theorem attemptLoop_coalesced {left k : ℕ} {s s' : State} (h : Coalesced uw s)
    (hout : attemptLoop uw cfg dryRun w left k s = (s', none)) : Coalesced uw s' := by
  induction left generalizing k s with
  | zero =>
      obtain ⟨rfl, -⟩ := Prod.mk.inj hout
      exact h
  | succ left ih =>
      rw [attemptLoop] at hout
      cases hstep : attemptOnce uw cfg dryRun w k (w.attempts k) s with
      | mk s₁ after =>
          rw [hstep] at hout
          cases after with
          | again => exact ih (attemptOnce_coalesced h hstep (fun e => After.noConfusion)) hout
          | stop =>
              obtain ⟨rfl, -⟩ := Prod.mk.inj hout
              exact attemptOnce_coalesced h hstep (fun e => After.noConfusion)
          | raises e => cases (Prod.mk.inj hout).2

theorem begun_coalesced : Coalesced uw (begun cfg dryRun w) := by
  rw [Coalesced, begun, launches_append, launches_audit, launches_clock]
  rfl

theorem checked_events {s s' : State} {r r' : SyncResult} (hout : checked cfg dryRun w s r = (s', .ok r')) :
    r'.events = r.events ∧ launches s'.effects = launches s.effects := by
  unfold checked at hout
  dsimp only at hout
  split at hout
  · have hlaunches := launches_check (w := w)
      ((remaining cfg w w.checkNow).map fun r => min r (cfg.syncTimeoutSec : ℚ))
    generalize runPostSyncCheck w _ = out at hout hlaunches
    obtain ⟨es, c⟩ := out
    cases c with
    | error name => cases (Prod.mk.inj hout).2
    | ok c =>
        obtain ⟨rfl, hr⟩ := Prod.mk.inj hout
        obtain rfl := Except.ok.inj hr
        refine ⟨rfl, ?_⟩
        simp only [State.does, launches_append, launches_clock, hlaunches, List.append_nil]
  · obtain ⟨rfl, hr⟩ := Prod.mk.inj hout
    obtain rfl := Except.ok.inj hr
    exact ⟨rfl, rfl⟩

/-- Hashing keeps the kinds that are reported for a path. -/
theorem kinds_hashed {hash : List Char → Hashing} {evs hashed : List FileEvent}
    (h : hashChangedFiles hash evs = .ok hashed) (path : List Char) :
    (hashed.filter (·.path = path)).map FileEvent.kind = (evs.filter (·.path = path)).map FileEvent.kind := by
  induction evs generalizing hashed with
  | nil =>
      obtain rfl := Except.ok.inj h
      rfl
  | cons ev evs ih =>
      have hcons : ∀ ev' : FileEvent, ev'.path = ev.path → ev'.kind = ev.kind →
          (hashChangedFiles hash evs).map (ev' :: ·) = .ok hashed →
          (hashed.filter (·.path = path)).map FileEvent.kind =
            ((ev :: evs).filter (·.path = path)).map FileEvent.kind := by
        intro ev' hpath hkind h
        cases hrest : hashChangedFiles hash evs with
        | error name => rw [hrest] at h; cases h
        | ok rest =>
            rw [hrest] at h
            obtain rfl := Except.ok.inj h
            rw [List.filter_cons, List.filter_cons, hpath]
            split
            · rw [List.map_cons, List.map_cons, ih hrest, hkind]
            · exact ih hrest
      unfold hashChangedFiles at h
      split at h
      · exact hcons ev rfl rfl h
      · split at h
        · rename_i d _
          exact hcons { ev with sha256 := some d } rfl rfl h
        · exact hcons ev rfl rfl h
        · cases h

theorem launches_told (events : List FileEvent) (base : List Char) (t : Terminal) :
    launches (if dryRun then [] else
      (events.map fun ev => Effect.audit (.file ev base)) ++ [.audit (.terminal t)]) = [] := by
  cases dryRun <;> simp [launches]

/-- What a run that returns has launched, and what it reports. -/
theorem reports_of_run {es : List Effect} {result : SyncResult}
    (h : runSyncLocked uw cfg dryRun w = (es, .ok result)) (path : List Char) :
    (result.events.filter (·.path = path)).map FileEvent.kind =
      ((coalesce uw (launches es)).filter (·.path = path)).map FileEvent.kind := by
  unfold runSyncLocked body at h
  split at h
  · cases (Prod.mk.inj h).2
  · cases hloop : attemptLoop uw cfg dryRun w (attemptsOf cfg) 1 (begun cfg dryRun w) with
    | mk s e =>
        rw [hloop] at h
        cases e with
        | some e => cases (Prod.mk.inj h).2
        | none =>
            have hcoalesced := attemptLoop_coalesced begun_coalesced hloop
            unfold summarize at h
            dsimp only at h
            cases hcompleted : s.completed with
            | none => rw [hcompleted] at h; cases (Prod.mk.inj h).2
            | some c =>
                rw [hcompleted] at h
                dsimp only at h
                cases hhash : hashChangedFiles w.hash s.eventsByPath with
                | error name => rw [hhash] at h; cases (Prod.mk.inj h).2
                | ok events =>
                    rw [hhash] at h
                    dsimp only at h
                    generalize hresult : SyncResult.mk .. = r at h
                    cases hchecked : checked cfg dryRun w s r with
                    | mk s' c' =>
                        rw [hchecked] at h
                        cases c' with
                        | error e => cases (Prod.mk.inj h).2
                        | ok r' =>
                            obtain ⟨hes, hr⟩ := Prod.mk.inj h
                            obtain rfl := Except.ok.inj hr
                            obtain ⟨hevents, hlaunches⟩ := checked_events hchecked
                            have htold : launches es = launches s.effects := by
                              rw [← hes, State.does, launches_append, launches_told, List.append_nil, hlaunches]
                            rw [htold, ← hcoalesced, hevents, ← hresult]
                            exact kinds_hashed hhash path

/-- **The last touch of every path is what a run reports just when the last log that names the
path reports nothing new of it after the event of its last line.** -/
theorem last_touch_iff {es : List Effect} {result : SyncResult}
    (h : runSyncLocked uw cfg dryRun w = (es, .ok result)) :
    LastTouchWins uw (launches es) result.events ↔ ∀ path, LastLogSettled uw path (launches es) := by
  unfold LastTouchWins
  constructor
  · intro hwins path
    rw [← coalesce_kind_iff, ← reports_of_run h]
    exact hwins path
  · intro hsettled path
    rw [reports_of_run h, coalesce_kind_iff]
    exact hsettled path

/-- A line of a log about one file. -/
def noteLine (verb : String) : List Char := ["INFO  : ", "notes.md: ", verb].flatMap String.toList

/-- One attempt that leaves these lines. -/
def loggedWorld (verbs : List String) : World :=
  { staleWorld with
    attempts := fun _ =>
      { now := 0, clears := true, ending := .exited 0 [], log := .lines (verbs.map noteLine), later := 0
        sleepRaises := none } }

/-- A file that is copied and deleted. -/
theorem last_touch_iff_copied :
    ∃ result, (runSyncLocked (fun _ => false) sampleConfig false (loggedWorld ["Copied (new)", "Deleted"])).2 =
        .ok result ∧
      (LastTouchWins (fun _ => false) (launches (runSyncLocked (fun _ => false) sampleConfig false
          (loggedWorld ["Copied (new)", "Deleted"])).1) result.events ↔
        ∀ path, LastLogSettled (fun _ => false) path (launches (runSyncLocked (fun _ => false) sampleConfig false
          (loggedWorld ["Copied (new)", "Deleted"])).1)) := by
  have hok : (runSyncLocked (fun _ => false) sampleConfig false
      (loggedWorld ["Copied (new)", "Deleted"])).2.toBool = true := by decide +kernel
  cases hrun : (runSyncLocked (fun _ => false) sampleConfig false (loggedWorld ["Copied (new)", "Deleted"])).2 with
  | error e => rw [hrun] at hok; cases hok
  | ok result => exact ⟨result, rfl, last_touch_iff (Prod.ext rfl hrun)⟩

/-- A file that is copied, deleted and copied again is reported as deleted. -/
theorem readded_reported_deleted :
    ∃ es result, runSyncLocked (fun _ => false) sampleConfig false
        (loggedWorld ["Copied (new)", "Deleted", "Copied (new)"]) = (es, .ok result) ∧
      ¬ LastTouchWins (fun _ => false) (launches es) result.events := by
  have hreported : ((runSyncLocked (fun _ => false) sampleConfig false
      (loggedWorld ["Copied (new)", "Deleted", "Copied (new)"])).2.toOption.map fun r =>
        (r.events.filter (·.path = "notes.md".toList)).map FileEvent.kind) = some [.deleted] := by decide +kernel
  have hlast : ((touchesOver (fun _ => false) "notes.md".toList (launches (runSyncLocked (fun _ => false)
      sampleConfig false (loggedWorld ["Copied (new)", "Deleted", "Copied (new)"])).1)).getLast?.map
        FileEvent.kind).toList = [.added] := by decide +kernel
  cases hrun : (runSyncLocked (fun _ => false) sampleConfig false
      (loggedWorld ["Copied (new)", "Deleted", "Copied (new)"])).2 with
  | error e => rw [hrun] at hreported; cases hreported
  | ok result =>
      refine ⟨_, result, Prod.ext rfl hrun, ?_⟩
      intro hwins
      rw [hrun] at hreported
      have hkinds : (result.events.filter (·.path = "notes.md".toList)).map FileEvent.kind = [.deleted] :=
        Option.some.inj hreported
      rw [hwins, hlast] at hkinds
      cases hkinds

end CyClaw.Sync

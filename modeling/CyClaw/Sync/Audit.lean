/-
What the audit of a sync run says about it.

`Converges` is the promise of a run: its rows come in a pair, rclone is started again only
after a transient exit, nothing is started that could outlast the budget, and the summary
row reports a change of the corpus just when one of the attempts did.  The first three
always hold.  The last one holds of every run that gets to empty the log, and fails of a
run that never does and finds something in the log of an earlier one: the handler reads
that log as if it were its own.

`Running` is what holds between two attempts and `Left` what holds once the loop is left,
whichever way.  `attempt_keeps` is the step and `loop_left` the run.
-/
import CyClaw.Sync.Runner
import Mathlib.Tactic.Linarith

namespace CyClaw.Sync

/-! ### Reading a trace -/

def rows (es : List Effect) : List Row :=
  es.filterMap fun | .audit r => some r | _ => none

def starts (es : List Effect) : List Row :=
  (rows es).filter fun | .started .. => true | _ => false

def terminals (es : List Effect) : List Terminal :=
  (rows es).filterMap fun | .terminal t => some t | _ => none

def launches (es : List Effect) : List Launch :=
  es.filterMap fun | .launch l => some l | _ => none

def readings (es : List Effect) : List ℚ :=
  es.filterMap fun | .clock now => some now | _ => none

/-- The time an effect may take, where it takes any. -/
def Effect.span : Effect → Option (Option ℚ)
  | .launch l => some l.timeout
  | .sleep d => some (some d)
  | .check timeout => some timeout
  | .audit _ => none
  | .clock _ => none

def Ending.transient : Ending → Bool
  | .exited code _ => code = rcloneTransientExit
  | _ => false

/-! ### The promise -/

section Promise

variable (uw : Char → Bool) (cfg : RcloneConfig) (dryRun : Bool) (w : World)

/-- A run that started has one row for its start and one for its end, a dry run has none. -/
def Paired (es : List Effect) : Prop :=
  (dryRun = true → rows es = []) ∧
    (dryRun = false → w.filterRaises = none → (starts es).length = 1 ∧ (terminals es).length = 1)

def Disciplined (es : List Effect) : Prop :=
  (launches es).length ≤ cfg.syncRetries + 1 ∧ ∀ l ∈ (launches es).dropLast, l.ending.transient = true

/-- With a budget, nothing is started for longer than the last reading of the clock leaves. -/
def WithinBudget (es : List Effect) : Prop :=
  0 < cfg.syncTimeoutSec → ∀ before e later, es = before ++ e :: later → ∀ t, e.span = some t →
    ∃ now d, (readings before).getLast? = some now ∧ t = some d ∧
      d ≤ w.start + cfg.syncTimeoutSec - now

/-- A summary row reports a change just when a line of the log of an attempt does. -/
def Attributed (es : List Effect) : Prop :=
  ∀ t ∈ terminals es, (t.corpusChanged = true ↔ ∃ l ∈ launches es, l.log.reports uw = true)

def Converges (es : List Effect) : Prop :=
  Paired dryRun w es ∧ Disciplined cfg es ∧ WithinBudget cfg w es ∧ Attributed uw es

/-- An attempt has time left and can empty the log. -/
def Opens (a : Attempt) : Prop :=
  (hasBudget cfg = true → a.now < w.start + cfg.syncTimeoutSec) ∧ a.clears = true

end Promise

/-! ### Longer traces -/

section Traces

variable {es fs : List Effect}

@[simp] theorem rows_append : rows (es ++ fs) = rows es ++ rows fs := List.filterMap_append

@[simp] theorem starts_append : starts (es ++ fs) = starts es ++ starts fs := by
  simp [starts]

@[simp] theorem terminals_append : terminals (es ++ fs) = terminals es ++ terminals fs := by
  simp [terminals]

@[simp] theorem launches_append : launches (es ++ fs) = launches es ++ launches fs :=
  List.filterMap_append

@[simp] theorem launches_launch (l : Launch) : launches [.launch l] = [l] := rfl

variable {cfg : RcloneConfig} {w : World}

theorem withinBudget_nil : WithinBudget cfg w [] := by
  intro _ before e later h
  simp at h

theorem WithinBudget.concat {e : Effect} (h : WithinBudget cfg w es)
    (he : 0 < cfg.syncTimeoutSec → ∀ t, e.span = some t → ∃ now d,
      (readings es).getLast? = some now ∧ t = some d ∧ d ≤ w.start + cfg.syncTimeoutSec - now) :
    WithinBudget cfg w (es ++ [e]) := by
  intro hpos before x later heq t ht
  obtain rfl | ⟨later, z, rfl⟩ := List.eq_nil_or_concat later
  · obtain ⟨rfl, hx⟩ := List.append_inj' heq rfl
    obtain rfl : e = x := by simpa using hx
    exact he hpos t ht
  · rw [List.concat_eq_append, ← List.cons_append, ← List.append_assoc] at heq
    exact h hpos before x later (List.append_inj_left' heq rfl) t ht

/-- Effects that take no time need no reading. -/
theorem WithinBudget.append (h : WithinBudget cfg w es) (hfs : ∀ e ∈ fs, e.span = none) :
    WithinBudget cfg w (es ++ fs) := by
  induction fs using List.reverseRecOn with
  | nil => simpa using h
  | append_singleton fs e ih =>
      rw [← List.append_assoc]
      refine (ih fun x hx => hfs x (List.mem_append_left _ hx)).concat fun _ t ht => ?_
      rw [hfs e (List.mem_append_right _ (List.mem_singleton_self e))] at ht
      cases ht

end Traces

/-! ### The retry loop -/

section Loop

variable {uw : Char → Bool} {cfg : RcloneConfig} {dryRun : Bool} {w : World}

/-- The rows so far: the start of the run, and no end of it. -/
structure Books (dryRun : Bool) (es : List Effect) : Prop where
  silent : dryRun = true → rows es = []
  opened : dryRun = false → (starts es).length = 1
  unended : terminals es = []

/-- Effects that write no row of a start or an end. -/
structure Quiet (dryRun : Bool) (es : List Effect) : Prop where
  silent : dryRun = true → rows es = []
  starts : starts es = []
  terminals : terminals es = []

theorem Books.append {es fs : List Effect} (h : Books dryRun es) (hfs : Quiet dryRun fs) :
    Books dryRun (es ++ fs) where
  silent hdry := by rw [rows_append, h.silent hdry, hfs.silent hdry]; rfl
  opened hdry := by rw [starts_append, hfs.starts, List.append_nil, h.opened hdry]
  unended := by rw [terminals_append, h.unended, hfs.terminals]; rfl

theorem quiet_clock (now : ℚ) : Quiet dryRun (clockIfBudget cfg now) := by
  unfold clockIfBudget
  constructor <;> (split <;> simp [rows, starts, terminals])

theorem quiet_retry (d : Direction) (k n : ℕ) (code : ℤ) :
    Quiet dryRun (auditUnlessDry dryRun (.retry d k n code)) := by
  unfold auditUnlessDry
  constructor <;> (split <;> simp_all [rows, starts, terminals])

theorem launches_clock (now : ℚ) : launches (clockIfBudget cfg now) = [] := by
  unfold clockIfBudget
  split <;> rfl

theorem launches_audit (row : Row) : launches (auditUnlessDry dryRun row) = [] := by
  unfold auditUnlessDry
  split <;> rfl

theorem withinBudget_clock {es : List Effect} (h : WithinBudget cfg w es) (now : ℚ) :
    WithinBudget cfg w (es ++ clockIfBudget cfg now) := by
  refine h.append fun e he => ?_
  unfold clockIfBudget at he
  split at he
  · obtain rfl := List.mem_singleton.mp he
    rfl
  · cases he

theorem withinBudget_audit {es : List Effect} (h : WithinBudget cfg w es) (row : Row) :
    WithinBudget cfg w (es ++ auditUnlessDry dryRun row) := by
  refine h.append fun e he => ?_
  unfold auditUnlessDry at he
  split at he
  · cases he
  · obtain rfl := List.mem_singleton.mp he
    rfl

/-- A reading stands right before what is started after it. -/
theorem withinBudget_span {es : List Effect} {now : ℚ} {e : Effect}
    (h : WithinBudget cfg w (es ++ clockIfBudget cfg now))
    (he : hasBudget cfg = true → ∀ t, e.span = some t →
      ∃ d, t = some d ∧ d ≤ w.start + cfg.syncTimeoutSec - now) :
    WithinBudget cfg w (es ++ clockIfBudget cfg now ++ [e]) := by
  refine h.concat fun hpos t ht => ?_
  have hbudget : hasBudget cfg = true := by simpa [hasBudget] using hpos
  obtain ⟨d, hd, hle⟩ := he hbudget t ht
  refine ⟨now, d, ?_, hd, hle⟩
  simp [clockIfBudget, hbudget, readings]

/-- The log on disk, as far as the launches account for it. -/
def lastLog (w : World) (es : List Effect) : LogFile :=
  ((launches es).getLast?.map Launch.log).getD w.staleLog

/-- What holds in the loop after `k` launches. -/
structure Looping (cfg : RcloneConfig) (dryRun : Bool) (w : World) (k : ℕ) (s : State) : Prop where
  books : Books dryRun s.effects
  within : WithinBudget cfg w s.effects
  count : (launches s.effects).length = k
  prior : ∀ l ∈ (launches s.effects).dropLast, l.ending.transient = true
  log : s.log = lastLog w s.effects

/-- Some attempt left a log that reports a change. -/
def reported (uw : Char → Bool) (es : List Effect) : Bool :=
  (launches es).any fun l => l.log.reports uw

/-- The events by path hold what the attempts reported. -/
def Harvested (uw : Char → Bool) (s : State) : Prop :=
  corpusChanged s.eventsByPath = reported uw s.effects

/-- With the log on disk they do, except that a run that launched nothing has the log of an
earlier one in its place. -/
def Seen (uw : Char → Bool) (w : World) (s : State) : Prop :=
  (corpusChanged s.eventsByPath || s.log.reports uw) =
    if launches s.effects = [] then w.staleLog.reports uw else reported uw s.effects

/-- Between two attempts. -/
structure Running (uw : Char → Bool) (cfg : RcloneConfig) (dryRun : Bool) (w : World) (k : ℕ)
    (s : State) : Prop extends Looping cfg dryRun w k s where
  harvested : Harvested uw s
  retried : ∀ l ∈ launches s.effects, l.ending.transient = true

/-- Once the loop is left, after `k` launches or more. -/
structure Left (uw : Char → Bool) (cfg : RcloneConfig) (dryRun : Bool) (w : World) (k : ℕ)
    (s : State) : Prop where
  looping : ∃ n, k ≤ n ∧ n ≤ attemptsOf cfg ∧ Looping cfg dryRun w n s
  seen : Seen uw w s

theorem Left.mono {j k : ℕ} {s : State} (h : Left uw cfg dryRun w k s) (hjk : j ≤ k) :
    Left uw cfg dryRun w j s := by
  obtain ⟨n, hkn, hn⟩ := h.looping
  exact ⟨⟨n, hjk.trans hkn, hn⟩, h.seen⟩

/-- Effects of the loop other than a launch. -/
theorem Looping.does {k : ℕ} {s : State} {es : List Effect} (h : Looping cfg dryRun w k s)
    (hquiet : Quiet dryRun es) (hlaunch : launches es = [])
    (hwithin : WithinBudget cfg w (s.effects ++ es)) : Looping cfg dryRun w k (s.does es) where
  books := h.books.append hquiet
  within := hwithin
  count := by simp [State.does, hlaunch, h.count]
  prior := by simpa [State.does, hlaunch] using h.prior
  log := by simpa [State.does, lastLog, hlaunch] using h.log

theorem Harvested.does {s : State} {es : List Effect} (h : Harvested uw s)
    (hlaunch : launches es = []) : Harvested uw (s.does es) := by
  simpa [Harvested, State.does, reported, hlaunch] using h

theorem Looping.seen {k : ℕ} {s : State} (h : Looping cfg dryRun w k s) (hh : Harvested uw s) :
    Seen uw w s := by
  unfold Seen
  rw [hh, h.log, lastLog, reported]
  obtain hnil | ⟨before, l, hl⟩ := List.eq_nil_or_concat (launches s.effects)
  · simp [hnil]
  · -- The log on disk is the last one harvested.
    simp [hl]

/-- What an attempt passes on: a state to go on from, or one to leave the loop in. -/
def Passes (uw : Char → Bool) (cfg : RcloneConfig) (dryRun : Bool) (w : World) (k : ℕ) :
    State × After → Prop
  | (s, .again) => Running uw cfg dryRun w k s ∧ k < attemptsOf cfg
  | (s, .stop) => Left uw cfg dryRun w k s ∧ Harvested uw s
  | (s, .raises _) => Left uw cfg dryRun w k s

theorem Looping.clock {k : ℕ} {s : State} (h : Looping cfg dryRun w k s) (now : ℚ) :
    Looping cfg dryRun w k (s.does (clockIfBudget cfg now)) :=
  h.does (quiet_clock now) (launches_clock now) (withinBudget_clock h.within now)

/-- The back-off fits in what the budget leaves. -/
theorem backOff_keeps {k : ℕ} {a : Attempt} {code : ℤ} {s : State}
    (h : Looping cfg dryRun w k s) (hh : Harvested uw s) (hk : k < attemptsOf cfg)
    (hcode : ∀ l ∈ launches s.effects, l.ending.transient = true) :
    Passes uw cfg dryRun w k (backOff cfg dryRun w k a code s) := by
  unfold backOff
  set s₁ := s.does (auditUnlessDry dryRun (.retry cfg.direction k (attemptsOf cfg) code)) with hs₁
  have h₁ : Looping cfg dryRun w k s₁ :=
    h.does (quiet_retry _ _ _ _) (launches_audit _) (withinBudget_audit h.within _)
  set s₂ := s₁.does (clockIfBudget cfg a.later) with hs₂
  have h₂ : Looping cfg dryRun w k s₂ := h₁.clock a.later
  have hh₂ : Harvested uw s₂ := (hh.does (launches_audit _)).does (launches_clock _)
  have hlaunches : launches s₂.effects = launches s.effects := by
    simp [hs₂, hs₁, State.does, launches_audit, launches_clock]
  have hleft : Left uw cfg dryRun w k s₂ := ⟨⟨k, le_rfl, hk.le, h₂⟩, h₂.seen hh₂⟩
  dsimp only
  split
  · exact ⟨hleft, hh₂⟩
  · rename_i hfits
    split
    · exact hleft
    · refine ⟨⟨h₂.does ⟨fun _ => rfl, rfl, rfl⟩ rfl ?_, hh₂.does rfl, ?_⟩, hk⟩
      · refine withinBudget_span h₂.within fun hbudget t ht => ?_
        obtain rfl : some (backoff cfg k) = t := by simpa [Effect.span] using ht
        simp only [remaining, hbudget, if_true, Option.any_some, Bool.or_eq_true,
          decide_eq_true_eq, not_or, not_le] at hfits
        exact ⟨_, rfl, hfits.2.le⟩
      · intro l hl
        rw [State.does, launches_append, hlaunches, List.mem_append] at hl
        obtain hl | hl := hl
        · exact hcode l hl
        · cases hl

/-- One launch, seen before its log is harvested. -/
theorem launched {k : ℕ} {s : State} {timeout : Option ℚ} {a : Attempt}
    (h : Running uw cfg dryRun w k s)
    (hwithin : WithinBudget cfg w (s.effects ++ [.launch ⟨timeout, a.ending, a.log⟩])) :
    let s' := { s with log := a.log }.does [.launch ⟨timeout, a.ending, a.log⟩]
    Looping cfg dryRun w (k + 1) s' ∧ Seen uw w s' ∧
      reported uw s'.effects = (corpusChanged s.eventsByPath || a.log.reports uw) := by
  have hlaunches : launches (s.effects ++ [.launch ⟨timeout, a.ending, a.log⟩]) =
      launches s.effects ++ [⟨timeout, a.ending, a.log⟩] := by simp
  have hreported : reported uw (s.effects ++ [.launch ⟨timeout, a.ending, a.log⟩]) =
      (corpusChanged s.eventsByPath || a.log.reports uw) := by
    rw [h.harvested, reported, hlaunches, List.any_append, reported]
    simp
  refine ⟨⟨h.books.append ⟨fun _ => rfl, rfl, rfl⟩, hwithin, ?_, ?_, ?_⟩, ?_, hreported⟩
  · simp only [State.does, hlaunches, List.length_append, List.length_singleton, h.count]
  · simp only [State.does, hlaunches, List.dropLast_concat]
    exact h.retried
  · simp [State.does, lastLog, hlaunches]
  · simp only [Seen, State.does, hlaunches, List.append_eq_nil_iff, List.cons_ne_self, and_false,
      if_false, hreported]

theorem concludeAttempt_keeps {k : ℕ} {a : Attempt} {s : State}
    (h : Looping cfg dryRun w k s) (hseen : Seen uw w s) (hk : k ≤ attemptsOf cfg)
    (hlog : s.log = a.log)
    (hreported : reported uw s.effects = (corpusChanged s.eventsByPath || a.log.reports uw))
    {before : List Launch} {timeout : Option ℚ}
    (hlaunches : launches s.effects = before ++ [⟨timeout, a.ending, a.log⟩]) :
    Passes uw cfg dryRun w k (concludeAttempt uw cfg dryRun w k a s) := by
  have hleft : Left uw cfg dryRun w k s := ⟨⟨k, le_rfl, hk, h⟩, hseen⟩
  unfold concludeAttempt
  split
  · rename_i code stderr hending
    dsimp only
    have hdone : Looping cfg dryRun w k { s with completed := some (code, stderr) } :=
      ⟨h.books, h.within, h.count, h.prior, h.log⟩
    split
    · exact ⟨⟨k, le_rfl, hk, hdone⟩, hseen⟩
    · rename_i events errors hparse
      -- The log just harvested is the one the last launch left.
      have hh : corpusChanged (harvest events s.eventsByPath) = reported uw s.effects := by
        rw [harvest_reports hparse, hreported, hlog]
      have hnext : Looping cfg dryRun w k
          { s with
            completed := some (code, stderr)
            eventsByPath := harvest events s.eventsByPath
            finalErrors := errors } := ⟨h.books, h.within, h.count, h.prior, h.log⟩
      split
      · exact ⟨⟨⟨k, le_rfl, hk, hnext⟩, hnext.seen hh⟩, hh⟩
      · rename_i hcode
        push Not at hcode
        refine backOff_keeps hnext hh (lt_of_le_of_ne hk hcode.2) ?_
        intro l hl
        dsimp only at hl
        rw [hlaunches, List.mem_append, List.mem_singleton] at hl
        obtain hl | rfl := hl
        · exact h.prior l (by rw [hlaunches, List.dropLast_concat]; exact hl)
        · simp [hending, Ending.transient, hcode.1]
  · exact hleft

theorem opens_iff {a : Attempt} :
    Opens cfg w a ↔
      (remaining cfg w a.now).any (fun r => decide (r ≤ 0)) = false ∧ a.clears = true := by
  unfold Opens remaining
  split <;> simp_all

theorem attemptOnce_refused {k : ℕ} {a : Attempt} {s : State} (h : ¬ Opens cfg w a) :
    attemptOnce uw cfg dryRun w k a s =
      (s.does (clockIfBudget cfg a.now), .raises .syncRuntimeError) := by
  unfold attemptOnce
  rw [opens_iff] at h
  cases hr : (remaining cfg w a.now).any fun r => decide (r ≤ 0) <;> simp_all

theorem Running.clock {k : ℕ} {s : State} (h : Running uw cfg dryRun w k s) (now : ℚ) :
    Running uw cfg dryRun w k (s.does (clockIfBudget cfg now)) where
  toLooping := h.toLooping.clock now
  harvested := h.harvested.does (launches_clock _)
  retried := by simpa [State.does, launches_clock] using h.retried

/-- What one round of the loop keeps. -/
theorem attempt_keeps {k : ℕ} {a : Attempt} {s : State} (h : Running uw cfg dryRun w k s)
    (hk : k < attemptsOf cfg) (ha : Opens cfg w a) :
    Passes uw cfg dryRun w (k + 1) (attemptOnce uw cfg dryRun w (k + 1) a s) := by
  obtain ⟨hremaining, hclears⟩ := opens_iff.mp ha
  unfold attemptOnce
  dsimp only
  rw [hremaining, if_neg Bool.false_ne_true, if_neg (by simp [hclears])]
  have hwithin := withinBudget_span (e := .launch ⟨(remaining cfg w a.now).map
      fun r => min r (cfg.syncTimeoutSec : ℚ), a.ending, a.log⟩) (h.clock a.now).within fun hbudget t ht => by
      obtain rfl := Option.some.inj ht
      refine ⟨min (w.start + cfg.syncTimeoutSec - a.now) cfg.syncTimeoutSec, ?_, min_le_left _ _⟩
      simp [remaining, hbudget]
  obtain ⟨hlooping, hseen, hreported⟩ := launched (h.clock a.now) hwithin
  exact concludeAttempt_keeps hlooping hseen hk rfl hreported (launches_append ..)

/-- However the loop is left, its books are in order, and it is left without an exception only
after a harvest. -/
theorem loop_left {left k : ℕ} {s : State} (h : Running uw cfg dryRun w k s)
    (hk : k + left = attemptsOf cfg) (hlt : k < attemptsOf cfg) :
    let out := attemptLoop uw cfg dryRun w left (k + 1) s
    Left uw cfg dryRun w k out.1 ∧
      (Opens cfg w (w.attempts (k + 1)) → Left uw cfg dryRun w (k + 1) out.1) ∧
      (out.2 = none → Harvested uw out.1 ∧ Opens cfg w (w.attempts (k + 1))) := by
  induction left generalizing k s with
  | zero => omega
  | succ left ih =>
      unfold attemptLoop
      by_cases ha : Opens cfg w (w.attempts (k + 1))
      · have hpass := attempt_keeps h hlt ha
        generalize attemptOnce uw cfg dryRun w (k + 1) (w.attempts (k + 1)) s = r at hpass
        obtain ⟨s', after⟩ := r
        cases after with
        | again =>
            obtain ⟨hrunning, hlt'⟩ := hpass
            obtain ⟨hleft, -, hnone⟩ := ih hrunning (by omega) hlt'
            exact ⟨hleft.mono (Nat.le_succ k), fun _ => hleft, fun hout => ⟨(hnone hout).1, ha⟩⟩
        | stop => exact ⟨hpass.1.mono (Nat.le_succ k), fun _ => hpass.1, fun _ => ⟨hpass.2, ha⟩⟩
        | raises e =>
            exact ⟨hpass.mono (Nat.le_succ k), fun _ => hpass, fun hout => nomatch hout⟩
      · rw [attemptOnce_refused ha]
        have hclock := h.clock (w.attempts (k + 1)).now
        exact ⟨⟨⟨k, le_rfl, hlt.le, hclock.toLooping⟩, hclock.toLooping.seen hclock.harvested⟩,
          fun hopens => absurd hopens ha, fun hout => nomatch hout⟩

theorem running_begun (uw : Char → Bool) (cfg : RcloneConfig) (dryRun : Bool) (w : World) :
    Running uw cfg dryRun w 0 (begun cfg dryRun w) where
  books := by
    refine Books.append ?_ (quiet_clock _)
    unfold auditUnlessDry
    constructor <;> cases dryRun <;> simp [rows, starts, terminals]
  within := withinBudget_clock (by simpa using withinBudget_audit withinBudget_nil _) _
  count := by simp [begun, launches_audit, launches_clock]
  prior := by simp [begun, launches_audit, launches_clock]
  log := by simp [begun, lastLog, launches_audit, launches_clock]
  harvested := by simp [Harvested, begun, reported, corpusChanged, launches_audit, launches_clock]
  retried := by simp [begun, launches_audit, launches_clock]

theorem loop_refused {left k : ℕ} {s : State} (h : ¬ Opens cfg w (w.attempts k)) :
    attemptLoop uw cfg dryRun w (left + 1) k s =
      (s.does (clockIfBudget cfg (w.attempts k).now), some .syncRuntimeError) := by
  rw [attemptLoop, attemptOnce_refused h]

/-! ### The end of the run -/

/-- A trace with all its rows: what it launched, and what the row of its end says. -/
structure Ended (cfg : RcloneConfig) (dryRun : Bool) (w : World) (ls : List Launch)
    (changed : Bool) (es : List Effect) : Prop where
  silent : dryRun = true → rows es = []
  paired : dryRun = false → (starts es).length = 1 ∧ (terminals es).length = 1
  told : ∀ t ∈ terminals es, t.corpusChanged = changed
  within : WithinBudget cfg w es
  launches : launches es = ls

/-- The rows of the files say nothing of a start or an end. -/
theorem rows_files (files : List FileEvent) :
    rows (files.map fun ev => Effect.audit (.file ev cfg.localPath)) =
      files.map fun ev => .file ev cfg.localPath := by
  simp [rows, List.filterMap_map]

theorem Looping.ended {k : ℕ} {s : State} (h : Looping cfg dryRun w k s) (files : List FileEvent)
    (t : Terminal) :
    Ended cfg dryRun w (launches s.effects) t.corpusChanged (s.effects ++ if dryRun then [] else
      (files.map fun ev => Effect.audit (.file ev cfg.localPath)) ++ [.audit (.terminal t)]) := by
  cases dryRun with
  | true =>
      rw [if_pos rfl, List.append_nil]
      refine ⟨h.books.silent, fun hdry => absurd hdry Bool.noConfusion, ?_, h.within, rfl⟩
      rw [h.books.unended]
      exact fun t ht => absurd ht List.not_mem_nil
  | false =>
      rw [if_neg Bool.false_ne_true]
      set fs := files.map fun ev => Effect.audit (.file ev cfg.localPath) with hfs
      have hstarts : starts (fs ++ [.audit (.terminal t)]) = [] := by
        rw [starts, rows_append, hfs, rows_files]
        simp [rows, List.filter_map, Function.comp_def]
      have hterminals : terminals (fs ++ [.audit (.terminal t)]) = [t] := by
        rw [terminals, rows_append, hfs, rows_files]
        simp [rows, List.filterMap_map]
      have hlaunches : launches (fs ++ [.audit (.terminal t)]) = [] := by
        simp [hfs, launches]
      refine ⟨fun hdry => absurd hdry Bool.noConfusion, fun _ => ⟨?_, ?_⟩, ?_, h.within.append fun e he => ?_, ?_⟩
      · rw [starts_append, hstarts, List.append_nil]
        exact h.books.opened rfl
      · rw [terminals_append, hterminals, h.books.unended]
        rfl
      · rw [terminals_append, hterminals, h.books.unended]
        rintro x hx
        rw [List.mem_singleton.mp hx]
      · simp only [hfs, List.mem_append, List.mem_map, List.mem_singleton] at he
        obtain ⟨ev, -, rfl⟩ | rfl := he <;> rfl
      · rw [launches_append, hlaunches, List.append_nil]

theorem Looping.ended_failed {k : ℕ} {s : State} {t : Terminal} {changed : Bool}
    (h : Looping cfg dryRun w k s) (ht : t.corpusChanged = changed) :
    Ended cfg dryRun w (launches s.effects) changed
      (s.does (auditUnlessDry dryRun (.terminal t))).effects := by
  rw [← ht]
  exact h.ended [] t

/-- Hashing keeps the paths. -/
theorem corpusChanged_hashed {hash : List Char → Hashing} {evs hashed : List FileEvent}
    (h : hashChangedFiles hash evs = .ok hashed) : corpusChanged hashed = corpusChanged evs := by
  induction evs generalizing hashed with
  | nil =>
      obtain rfl : [] = hashed := by simpa [hashChangedFiles] using h
      rfl
  | cons ev evs ih =>
      -- The head goes on with its path, whatever becomes of its digest.
      have hcons : ∀ ev' : FileEvent, ev'.path = ev.path →
          (hashChangedFiles hash evs).map (ev' :: ·) = .ok hashed →
          corpusChanged hashed = corpusChanged (ev :: evs) := by
        intro ev' hpath h
        cases hrest : hashChangedFiles hash evs with
        | error name => rw [hrest] at h; cases h
        | ok rest =>
            rw [hrest] at h
            obtain rfl := Except.ok.inj h
            simp only [corpusChanged, List.any_cons, hpath]
            rw [← corpusChanged, ← corpusChanged, ih hrest]
      unfold hashChangedFiles at h
      split at h
      · exact hcons ev rfl h
      · split at h
        · exact hcons _ (by rfl) h
        · exact hcons ev rfl h
        · cases h

/-- What the integrity check adds to a run. -/
theorem runPostSyncCheck_effects (left : Option ℚ) :
    ∃ rs : List Row, (∀ r ∈ rs, ∃ event result, r = .check event result) ∧
      ((runPostSyncCheck w left).1 = rs.map .audit ∨
        (runPostSyncCheck w left).1 = .check left :: rs.map .audit) := by
  unfold runPostSyncCheck
  dsimp only
  split
  · exact ⟨[_], by simp, Or.inl rfl⟩
  · split
    · exact ⟨[_], by simp, Or.inr rfl⟩
    · exact ⟨[_], by simp, Or.inr rfl⟩
    · exact ⟨[], by simp, Or.inr rfl⟩
    · exact ⟨[_], by simp, Or.inr rfl⟩

/-- Rows of the check are no rows of a start or an end. -/
theorem quiet_checks {rs : List Row} (hrs : ∀ r ∈ rs, ∃ event result, r = .check event result) :
    Quiet false (rs.map .audit) := by
  have hrows : rows (rs.map .audit) = rs := by simp [rows, List.filterMap_map]
  refine ⟨nofun, ?_, ?_⟩
  · rw [starts, hrows, List.filter_eq_nil_iff]
    intro r hr
    obtain ⟨event, result, rfl⟩ := hrs r hr
    simp
  · rw [terminals, hrows, List.filterMap_eq_nil_iff]
    intro r hr
    obtain ⟨event, result, rfl⟩ := hrs r hr
    rfl

theorem launches_check (left : Option ℚ) : launches (runPostSyncCheck w left).1 = [] := by
  obtain ⟨rs, -, heq | heq⟩ := runPostSyncCheck_effects (w := w) left
  · rw [heq]
    simp [launches]
  · rw [heq]
    simp [launches]

theorem quiet_check (left : Option ℚ) : Quiet false (runPostSyncCheck w left).1 := by
  obtain ⟨rs, hrs, heq | heq⟩ := runPostSyncCheck_effects (w := w) left
  · rw [heq]
    exact quiet_checks hrs
  · rw [heq]
    exact ⟨nofun, (quiet_checks hrs).starts, (quiet_checks hrs).terminals⟩

/-- The check is started within the budget. -/
theorem withinBudget_check {es : List Effect} (h : WithinBudget cfg w es) :
    WithinBudget cfg w (es ++ clockIfBudget cfg w.checkNow ++ (runPostSyncCheck w
      ((remaining cfg w w.checkNow).map fun r => min r (cfg.syncTimeoutSec : ℚ))).1) := by
  have hclock := withinBudget_clock h w.checkNow
  obtain ⟨rs, -, heq⟩ := runPostSyncCheck_effects (w := w)
    ((remaining cfg w w.checkNow).map fun r => min r (cfg.syncTimeoutSec : ℚ))
  have hspan : ∀ e ∈ rs.map Effect.audit, e.span = none := by
    intro e he
    obtain ⟨r, -, rfl⟩ := List.mem_map.mp he
    rfl
  obtain heq | heq := heq
  · rw [heq]
    exact hclock.append hspan
  · rw [heq, ← List.singleton_append, ← List.append_assoc]
    refine WithinBudget.append (withinBudget_span hclock fun hbudget t ht => ?_) hspan
    obtain rfl := Option.some.inj ht
    refine ⟨min (w.start + cfg.syncTimeoutSec - w.checkNow) cfg.syncTimeoutSec, ?_, min_le_left _ _⟩
    simp [remaining, hbudget]

/-- The integrity check adds its own rows to a run and nothing else. -/
theorem checked_keeps {k : ℕ} {s : State} {r : SyncResult} (h : Looping cfg dryRun w k s) :
    let out := checked cfg dryRun w s r
    Looping cfg dryRun w k out.1 ∧ out.1.eventsByPath = s.eventsByPath ∧
      launches out.1.effects = launches s.effects ∧
      ∀ r', out.2 = .ok r' → r'.corpusChanged = r.corpusChanged := by
  unfold checked
  dsimp only
  split
  · rename_i hasked
    obtain rfl : dryRun = false := by
      simp only [Bool.and_eq_true, Bool.not_eq_true'] at hasked
      exact hasked.1.2
    have hwithin := withinBudget_check h.within
    have hquiet := quiet_check (w := w)
      ((remaining cfg w w.checkNow).map fun r => min r (cfg.syncTimeoutSec : ℚ))
    have hlaunches := launches_check (w := w)
      ((remaining cfg w w.checkNow).map fun r => min r (cfg.syncTimeoutSec : ℚ))
    generalize runPostSyncCheck w _ = out at hwithin hquiet hlaunches
    obtain ⟨es, c⟩ := out
    have hkept := (h.clock w.checkNow).does hquiet hlaunches hwithin
    have hsame : launches ((s.does (clockIfBudget cfg w.checkNow)).does es).effects =
        launches s.effects := by
      simp only [State.does, launches_append, launches_clock, hlaunches, List.append_nil]
    cases c with
    | ok c =>
        refine ⟨hkept, rfl, hsame, ?_⟩
        rintro r' hr'
        obtain rfl := Except.ok.inj hr'
        rfl
    | error name => exact ⟨hkept, rfl, hsame, fun r' hr' => by cases hr'⟩
  · refine ⟨h, rfl, rfl, ?_⟩
    rintro r' hr'
    obtain rfl := Except.ok.inj hr'
    rfl

/-- How the body of the run ends: with its summary row, or with an exception for the handler. -/
def Concludes (uw : Char → Bool) (cfg : RcloneConfig) (dryRun : Bool) (w : World)
    (ls : List Launch) (changed : Bool) : State × Except ErrorType SyncResult → Prop
  | (s, .ok _) => Ended cfg dryRun w ls changed s.effects
  | (s, .error _) => launches s.effects = ls ∧ Left uw cfg dryRun w 0 s

theorem Looping.concludes {k : ℕ} {s : State} (h : Looping cfg dryRun w k s) (hh : Harvested uw s)
    (hk : k ≤ attemptsOf cfg) (changed : Bool) (e : ErrorType) :
    Concludes uw cfg dryRun w (launches s.effects) changed (s, .error e) :=
  ⟨rfl, ⟨k, Nat.zero_le k, hk, h⟩, h.seen hh⟩

theorem summarize_concludes {k : ℕ} {s : State} (h : Looping cfg dryRun w k s)
    (hh : Harvested uw s) (hk : k ≤ attemptsOf cfg) :
    Concludes uw cfg dryRun w (launches s.effects) (reported uw s.effects)
      (summarize uw cfg dryRun w s) := by
  unfold summarize
  split
  · exact h.concludes hh hk _ _
  · split
    · exact h.concludes hh hk _ _
    · rename_i events hevents
      dsimp only
      generalize hresult : SyncResult.mk .. = result
      have hchanged : result.corpusChanged = reported uw s.effects := by
        rw [← hresult]
        exact (corpusChanged_hashed hevents).trans hh
      obtain ⟨hkept, hpath, hsame, htells⟩ := checked_keeps (r := result) h
      generalize checked cfg dryRun w s result = out at hkept hpath hsame htells
      obtain ⟨s', c⟩ := out
      have hh' : Harvested uw s' := by
        unfold Harvested reported
        rw [hpath, hsame]
        exact hh
      rw [← hsame]
      cases c with
      | error e => exact hkept.concludes hh' hk _ e
      | ok result' =>
          have hended := hkept.ended events (toAuditDict w result')
          have htold : (toAuditDict w result').corpusChanged = reported uw s.effects :=
            (htells result' rfl).trans hchanged
          rwa [htold] at hended

/-- The handler writes what the events and the log on disk say together. -/
theorem handleFailure_ended {k : ℕ} {s : State} (h : Looping cfg dryRun w k s) (hseen : Seen uw w s)
    (e : ErrorType) :
    Ended cfg dryRun w (launches s.effects)
      (if launches s.effects = [] then w.staleLog.reports uw else reported uw s.effects)
      (handleFailure uw cfg dryRun w e s).1.effects := by
  rw [← hseen]
  unfold handleFailure
  dsimp only
  split
  · rename_i hparse
    rw [← harvest_reports hparse]
    exact h.ended_failed rfl
  · rename_i hparse
    rw [reports_of_unreadable hparse, Bool.or_false]
    exact h.ended_failed rfl

/-- Where the loop leaves a run that has only begun. -/
theorem begun_left (uw : Char → Bool) (cfg : RcloneConfig) (dryRun : Bool) (w : World) :
    let out := attemptLoop uw cfg dryRun w (attemptsOf cfg) 1 (begun cfg dryRun w)
    Left uw cfg dryRun w 0 out.1 ∧
      (out.2 = none → Harvested uw out.1 ∧ Opens cfg w (w.attempts 1)) ∧
      (launches out.1.effects = [] ↔ ¬ Opens cfg w (w.attempts 1)) := by
  obtain ⟨hleft, hopens, hnone⟩ :=
    loop_left (running_begun uw cfg dryRun w) (Nat.zero_add _) (Nat.succ_pos _)
  refine ⟨hleft, hnone, fun hnil hopen => ?_, fun hrefused => ?_⟩
  · obtain ⟨n, hn, -, hlooping⟩ := (hopens hopen).looping
    have hcount := hlooping.count
    rw [hnil] at hcount
    exact absurd hn (by simp [← hcount])
  · rw [attemptsOf, loop_refused hrefused]
    simp [State.does, begun, launches_audit, launches_clock]

/-- The summary row of a run that started: what the attempts reported, or, where there was none,
what an earlier run left in the log. -/
theorem run_ended (uw : Char → Bool) (cfg : RcloneConfig) (dryRun : Bool) {w : World}
    (hfilter : w.filterRaises = none) :
    ∃ ls, Ended cfg dryRun w ls
        (if ls = [] then w.staleLog.reports uw else ls.any fun l => l.log.reports uw)
        (runSyncLocked uw cfg dryRun w).1 ∧
      ls.length ≤ attemptsOf cfg ∧ (∀ l ∈ ls.dropLast, l.ending.transient = true) ∧
      (ls = [] ↔ ¬ Opens cfg w (w.attempts 1)) := by
  obtain ⟨hleft, hharvest, hlaunched⟩ := begun_left uw cfg dryRun w
  unfold runSyncLocked body
  rw [hfilter]
  dsimp only
  generalize attemptLoop uw cfg dryRun w (attemptsOf cfg) 1 (begun cfg dryRun w) = out
    at hleft hharvest hlaunched
  obtain ⟨s, e⟩ := out
  obtain ⟨k, -, hk, hlooping⟩ := hleft.looping
  refine ⟨launches s.effects, ?_, hlooping.count.le.trans hk, hlooping.prior, hlaunched⟩
  cases e with
  | some e => exact handleFailure_ended hlooping hleft.seen e
  | none =>
      have hconcludes := summarize_concludes hlooping (hharvest rfl).1 hk
      dsimp only
      generalize summarize uw cfg dryRun w s = out at hconcludes
      obtain ⟨s', c⟩ := out
      cases c with
      | ok result =>
          rw [if_neg fun hnil => hlaunched.mp hnil (hharvest rfl).2]
          exact hconcludes
      | error e =>
          obtain ⟨hsame, hleft'⟩ := hconcludes
          obtain ⟨n, -, -, hlooping'⟩ := hleft'.looping
          rw [← hsame]
          exact handleFailure_ended hlooping' hleft'.seen e

/-- The row tells of the attempts unless it tells of an earlier run. -/
theorem Ended.attributed_iff {ls : List Launch} {es : List Effect}
    (h : Ended cfg dryRun w ls
      (if ls = [] then w.staleLog.reports uw else ls.any fun l => l.log.reports uw) es)
    (hopens : ls = [] ↔ ¬ Opens cfg w (w.attempts 1)) :
    Attributed uw es ↔
      dryRun = true ∨ Opens cfg w (w.attempts 1) ∨ w.staleLog.reports uw = false := by
  unfold Attributed
  rw [h.launches]
  constructor
  · intro hattributed
    by_contra hnot
    push Not at hnot
    obtain ⟨hdry, hrefused, hstale⟩ := hnot
    have hnil := hopens.mpr hrefused
    obtain ⟨t, ht⟩ := List.length_eq_one_iff.mp (h.paired (by simpa using hdry)).2
    have hmem : t ∈ terminals es := ht ▸ List.mem_singleton_self t
    have hchanged : t.corpusChanged = true := by
      rw [h.told t hmem, if_pos hnil]
      simpa using hstale
    obtain ⟨l, hl, -⟩ := (hattributed t hmem).mp hchanged
    rw [hnil] at hl
    cases hl
  · rintro (hdry | hopen | hstale) t ht
    · -- A dry run writes no row.
      rw [terminals, h.silent hdry] at ht
      cases ht
    · rw [h.told t ht, if_neg fun hnil => hopens.mp hnil hopen, List.any_eq_true]
    · rw [h.told t ht]
      split
      · rename_i hnil
        simp [hstale, hnil]
      · rw [List.any_eq_true]

end Loop

/-! ### The promise, kept and broken -/

section Convergence

variable (uw : Char → Bool) (cfg : RcloneConfig) (dryRun : Bool) (w : World)

/-- A run that started pairs its rows, repeats rclone only after a transient exit and starts
nothing beyond its budget.  Its summary row says what the attempts reported just when the run is
a dry one, or the first attempt gets to empty the log, or there is nothing in it. -/
theorem sync_converges_iff :
    (Paired dryRun w (runSyncLocked uw cfg dryRun w).1 ∧
      Disciplined cfg (runSyncLocked uw cfg dryRun w).1 ∧
      WithinBudget cfg w (runSyncLocked uw cfg dryRun w).1) ∧
    (Converges uw cfg dryRun w (runSyncLocked uw cfg dryRun w).1 ↔
      dryRun = true ∨ w.filterRaises ≠ none ∨ Opens cfg w (w.attempts 1) ∨
        w.staleLog.reports uw = false) := by
  cases hfilter : w.filterRaises with
  | some name =>
      have hnil : (runSyncLocked uw cfg dryRun w).1 = [] := by rw [runSyncLocked, hfilter]
      rw [hnil]
      have hpaired : Paired dryRun w [] := ⟨fun _ => rfl, fun _ h => by rw [hfilter] at h; cases h⟩
      have hdisciplined : Disciplined cfg [] :=
        ⟨Nat.zero_le _, fun l hl => absurd hl List.not_mem_nil⟩
      have hbudget : WithinBudget cfg w [] := withinBudget_nil
      have hattributed : Attributed uw [] := fun t ht => absurd ht List.not_mem_nil
      exact ⟨⟨hpaired, hdisciplined, hbudget⟩, fun _ => Or.inr (Or.inl (Option.some_ne_none name)),
        fun _ => ⟨hpaired, hdisciplined, hbudget, hattributed⟩⟩
  | none =>
      obtain ⟨ls, hended, hcount, hprior, hopens⟩ := run_ended uw cfg dryRun hfilter
      generalize (runSyncLocked uw cfg dryRun w).1 = es at hended
      have hpaired : Paired dryRun w es := ⟨hended.silent, fun hdry _ => hended.paired hdry⟩
      have hdisciplined : Disciplined cfg es := by
        unfold Disciplined
        rw [hended.launches]
        exact ⟨hcount, hprior⟩
      have hattributed := hended.attributed_iff hopens
      refine ⟨⟨hpaired, hdisciplined, hended.within⟩, fun h => ?_, fun h => ?_⟩
      · obtain hdry | hopen | hstale := hattributed.mp h.2.2.2
        · exact Or.inl hdry
        · exact Or.inr (Or.inr (Or.inl hopen))
        · exact Or.inr (Or.inr (Or.inr hstale))
      · refine ⟨hpaired, hdisciplined, hended.within, hattributed.mpr ?_⟩
        obtain hdry | hfails | hopen | hstale := h
        · exact Or.inl hdry
        · exact absurd rfl hfails
        · exact Or.inr (Or.inl hopen)
        · exact Or.inr (Or.inr hstale)

end Convergence

/-- A run whose log cannot be emptied and holds the line of an earlier copy. -/
def staleWorld : World where
  filterRaises := none
  startedAt := 0
  finishedAt := 1
  failedAt := 1
  start := 0
  staleLog := .lines [["INFO  : ", "notes.md: ", "Copied (new)"].flatMap String.toList]
  attempts _ :=
    { now := 0, clears := false, ending := .exited 0 [], log := .missing, later := 0
      sleepRaises := none }
  hash _ := .skipped
  checkNow := 1
  check := .timedOut

def sampleConfig : RcloneConfig where
  direction := .pull
  remote := "dropbox:corpus".toList
  localPath := "data/corpus".toList
  syncTimeoutSec := 3600
  syncRetries := 0
  retryBackoffSec := 1
  postSyncCheck := false
  backoff_nonneg := by decide

/-- The run copies nothing and its row reports a change of the corpus. -/
theorem stale_log_reported :
    ¬ Converges (fun _ => false) sampleConfig false staleWorld
      (runSyncLocked (fun _ => false) sampleConfig false staleWorld).1 := by
  intro h
  have hchanged : ((terminals (runSyncLocked (fun _ => false) sampleConfig false staleWorld).1).any
      fun t => t.corpusChanged) = true := by decide +kernel
  have hlaunches : (launches (runSyncLocked (fun _ => false) sampleConfig false staleWorld).1).any
      (fun l => l.log.reports fun _ => false) = false := by decide +kernel
  obtain ⟨t, ht, htrue⟩ := List.any_eq_true.mp hchanged
  obtain ⟨l, hl, hreports⟩ := (h.2.2.2 t ht).mp htrue
  rw [List.any_eq_false] at hlaunches
  exact hlaunches l hl hreports

end CyClaw.Sync

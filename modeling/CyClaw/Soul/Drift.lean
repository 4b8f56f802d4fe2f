/-
What was applied stays what it is.

The rows of `soul_versions` are the one of the first start and one for each text that was applied
(`Undrifted`), so a reload or a restart has added none.  What carries it: soul.md reads as the
newest row would, and that row has the hash of its content.  A reload compares with the content as
it reads back, so it finds a drift where the text that was applied has a carriage return; elsewhere
it finds none (`plain`).
-/
import CyClaw.Soul.Manager
import CyClaw.Lib.Runs

namespace CyClaw.Soul

open PyText

inductive Step where
  | call (c : Call)
  | restart (now : Text)

/-- A manager and its successors over the same files. -/
structure Life where
  soul : Personality
  /-- What was applied and why, the last one last. -/
  applied : List (Text × Text)

/-- What a call that returns has applied. -/
def Call.applies (cfg : Config) (c : Call) (σ : Personality) : Option (Text × Text) :=
  match c.request with
  | .applyEvolution newSoul reason scan =>
      match (Soul.applyEvolution cfg c.faults newSoul reason c.now scan σ).1 with
      | .ok _ => some (newSoul, reason)
      | .error _ => none
  | .restoreFromBackup =>
      match (Soul.restoreFromBackup cfg c.faults c.now σ).1 with
      | .ok _ => σ.backup.map fun raw => (readText raw, restoreReason)
      | .error _ => none
  | .reload => none

def Life.step (cfg : Config) : Step → Life → Option Life
  | .call c, l => some ⟨c.run cfg l.soul, l.applied ++ (c.applies cfg l.soul).toList⟩
  | .restart now, l => some { l with soul := (restart cfg (fun _ => false) now l.soul).2 }

/-- The first start, over these files. -/
def Life.initial (cfg : Config) (soul backup : Option Text) (now : Text) : Life where
  soul := (restart cfg (fun _ => false) now ⟨soul, backup, [], [], []⟩).2
  applied := []

/-- An apply that fails has put soul.md back, and rolled back. -/
def mended (_ : Life) : Step → Bool
  | .call c => !c.faults .rollback && !c.faults .putBackSoul
  | .restart _ => true

def Step.readsBack : Step → Bool
  | .call ⟨.reload, _, _⟩ => true
  | .call _ => false
  | .restart _ => true

/-- And soul.md is not read back while the newest text has a carriage return. -/
def plain (l : Life) (s : Step) : Bool :=
  mended l s && (!s.readsBack || l.soul.committed.getLast?.all fun row => decide ('\r' ∉ row.content))

def Version.entry (row : Version) : Text × Text × Text := (row.content, row.reason, row.sha256)

def entryOf (cfg : Config) (applied : Text × Text) : Text × Text × Text := (applied.1, applied.2, cfg.sha256 applied.1)

structure Undrifted (cfg : Config) (l : Life) : Prop where
  /-- There is a row of the first start, and one for each text that was applied. -/
  rows : ∃ first rest, l.soul.committed = first :: rest ∧
    (first.reason = "initial_default".toList ∨ first.reason = "initial_load".toList) ∧
      rest.map Version.entry = l.applied.map (entryOf cfg)
  /-- The newest row and `soul_core` are those of the last one. -/
  newest : ∀ content reason, l.applied.getLast? = some (content, reason) →
    (∃ row, l.soul.committed.getLast? = some row ∧ row.content = content ∧ row.sha256 = cfg.sha256 content) ∧
      l.soul.soulCore = boundedSoul cfg content

/-! ### What is kept -/

section Life

variable {cfg : Config} {l l' : Life} {σ : Personality} {raw : Text}

theorem readText_plain (t : Text) : '\r' ∉ readText t := by
  intro hmem
  rcases mem_universalNewlines hmem with h | h
  · cases h
  · exact h.2 rfl

theorem readText_eq {t : Text} (h : '\r' ∉ t) : readText t = t := universalNewlines_eq h

@[simp] theorem readText_readText (t : Text) : readText (readText t) = readText t := readText_eq (readText_plain t)

/-- soul.md reads as the newest row would. -/
structure Recorded (cfg : Config) (l : Life) (raw : Text) (row : Version) : Prop where
  soul : l.soul.soul = some raw
  newest : l.soul.committed.getLast? = some row
  reads : readText raw = readText row.content
  sha256 : row.sha256 = cfg.sha256 row.content
  soulCore : l.applied ≠ [] → l.soul.soulCore = boundedSoul cfg row.content

structure Kept (cfg : Config) (l : Life) : Prop where
  rows : ∃ first rest, l.soul.committed = first :: rest ∧
    (first.reason = "initial_default".toList ∨ first.reason = "initial_load".toList) ∧
      rest.map Version.entry = l.applied.map (entryOf cfg)
  uncommitted : l.soul.uncommitted = []
  recorded : ∃ raw row, Recorded cfg l raw row

theorem Kept.undrifted (h : Kept cfg l) : Undrifted cfg l where
  rows := h.rows
  newest := by
    intro content reason hlast
    obtain ⟨first, rest, hcommitted, -, hrest⟩ := h.rows
    obtain ⟨raw, row, hrecorded⟩ := h.recorded
    have happlied : l.applied ≠ [] := by
      rintro hnil
      simp [hnil] at hlast
    have hentry : rest.getLast?.map Version.entry = some (entryOf cfg (content, reason)) := by
      rw [← List.getLast?_map, hrest, List.getLast?_map, hlast]
      rfl
    obtain ⟨row', hrow', hentry⟩ := Option.map_eq_some_iff.mp hentry
    have hsame : row' = row := by
      have hnewest := hrecorded.newest
      rw [hcommitted, List.getLast?_cons, hrow'] at hnewest
      simpa using hnewest
    subst hsame
    simp only [Version.entry, entryOf, Prod.mk.injEq] at hentry
    refine ⟨⟨row', hrecorded.newest, hentry.1, hentry.2.2⟩, ?_⟩
    rw [hrecorded.soulCore happlied, hentry.1]

/-! ### What a step keeps -/

/-- A text was applied. -/
theorem Kept.applied (h : Kept cfg l) (raw newSoul reason now : Text) :
    Kept cfg ⟨l.soul.applied cfg raw newSoul reason now, l.applied ++ [(newSoul, reason)]⟩ := by
  obtain ⟨first, rest, hcommitted, hfirst, hrest⟩ := h.rows
  have hversions : l.soul.versions = first :: rest := by
    simp [Personality.versions, hcommitted, h.uncommitted]
  let row := l.soul.newVersion (cfg.sha256 newSoul) newSoul reason now
  refine ⟨⟨first, rest ++ [row], ?_, hfirst, ?_⟩, rfl, newSoul, row, rfl, List.getLast?_concat, rfl, rfl, fun _ => rfl⟩
  · show l.soul.versions ++ [row] = first :: (rest ++ [row])
    rw [hversions, List.cons_append]
  · simp [hrest, Version.entry, entryOf, row, Personality.newVersion]

/-- An apply has failed. -/
theorem Kept.failed {faults : Faults} (h : Kept cfg l) (hsoul : l.soul.soul = some raw) (hfailed : Failed faults l.soul raw σ)
    (hrollback : faults .rollback = false) (hput : faults .putBackSoul = false) : Kept cfg { l with soul := σ } := by
  obtain ⟨raw', row, hrecorded⟩ := h.recorded
  obtain rfl : raw = raw' := Option.some.inj (hsoul.symm.trans hrecorded.soul)
  refine ⟨?_, hfailed.uncommitted hrollback h.uncommitted, ?_⟩
  · rw [hfailed.committed]
    exact h.rows
  · have hnewest : σ.committed.getLast? = some row := by
      rw [hfailed.committed, hrecorded.newest]
    have hcore : l.applied ≠ [] → σ.soulCore = boundedSoul cfg row.content := by
      rw [hfailed.soulCore]
      exact hrecorded.soulCore
    rcases hfailed.soul hput with hraw | hread
    · exact ⟨raw, row, hraw, hnewest, hrecorded.reads, hrecorded.sha256, hcore⟩
    · exact ⟨readText raw, row, hread, hnewest, by rw [readText_readText, hrecorded.reads], hrecorded.sha256, hcore⟩

theorem Kept.applyEvolution {faults : Faults} (h : Kept cfg l) (hrollback : faults .rollback = false)
    (hput : faults .putBackSoul = false) (newSoul reason now : Text) (scan : Bool) :
    Kept cfg ⟨(applyEvolution cfg faults newSoul reason now scan l.soul).2,
      l.applied ++ (match (applyEvolution cfg faults newSoul reason now scan l.soul).1 with
        | .ok _ => some (newSoul, reason)
        | .error _ => none).toList⟩ := by
  obtain ⟨raw, row, hrecorded⟩ := h.recorded
  rcases applyEvolution_cases cfg faults newSoul reason now scan hrecorded.soul with ⟨a, hok⟩ | ⟨e, σ', herror, hfailed⟩
  · rw [hok]
    exact h.applied raw newSoul reason now
  · rw [herror]
    simpa using h.failed hrecorded.soul hfailed hrollback hput

/-- Where the newest row has the hash of what is read, a load adds no row. -/
theorem loadSoul_same (faults : Faults) (now : Text) {row : Version} (hsoul : σ.soul = some raw)
    (hnewest : σ.versions.getLast? = some row) (hsha : row.sha256 = cfg.sha256 (readText raw)) :
    (loadSoul cfg faults now σ).2 = { σ with soulCore := boundedSoul cfg (readText raw) } ∨
      (faults .readSoul = true ∨ faults .select = true) ∧ (loadSoul cfg faults now σ).2 = σ := by
  unfold loadSoul loadSection
  rw [hsoul]
  simp only [Option.isSome_some, if_true]
  by_cases hread : faults .readSoul = true
  · rw [if_pos hread]
    exact Or.inr ⟨Or.inl hread, rfl⟩
  rw [if_neg hread]
  by_cases hselect : faults .select = true
  · rw [if_pos hselect]
    exact Or.inr ⟨Or.inr hselect, rfl⟩
  rw [if_neg hselect, hnewest]
  simp only
  rw [if_pos hsha]
  exact Or.inl rfl

theorem Recorded.sha256_eq {row : Version} (h : Recorded cfg l raw row)
    (hplain : l.soul.committed.getLast?.all (fun row => decide ('\r' ∉ row.content)) = true) :
    readText raw = row.content ∧ row.sha256 = cfg.sha256 (readText raw) := by
  rw [h.newest, Option.all_some, decide_eq_true_eq] at hplain
  have hreads : readText raw = row.content := by rw [h.reads, readText_eq hplain]
  rw [hreads]
  exact ⟨rfl, h.sha256⟩

/-- Only `soul_core` may be another one. -/
theorem Kept.core (h : Kept cfg l) (core : Text)
    (hcore : ∀ raw row, Recorded cfg l raw row → l.applied ≠ [] → core = boundedSoul cfg row.content) :
    Kept cfg { l with soul := { l.soul with soulCore := core } } := by
  obtain ⟨raw, row, hrecorded⟩ := h.recorded
  exact ⟨h.rows, h.uncommitted, raw, row, hrecorded.soul, hrecorded.newest, hrecorded.reads, hrecorded.sha256,
    hcore raw row hrecorded⟩

theorem Kept.versions (h : Kept cfg l) : l.soul.versions = l.soul.committed := by
  rw [Personality.versions, h.uncommitted, List.append_nil]

theorem Kept.reload (h : Kept cfg l) (faults : Faults) (now : Text)
    (hplain : l.soul.committed.getLast?.all (fun row => decide ('\r' ∉ row.content)) = true) :
    Kept cfg { l with soul := (loadSoul cfg faults now l.soul).2 } := by
  obtain ⟨raw, row, hrecorded⟩ := h.recorded
  obtain ⟨hreads, hsha⟩ := hrecorded.sha256_eq hplain
  rcases loadSoul_same faults now hrecorded.soul (by rw [h.versions, hrecorded.newest]) hsha with
    heq | ⟨-, heq⟩
  · rw [heq]
    refine h.core _ fun raw' row' hrecorded' _ => ?_
    obtain rfl : row = row' := Option.some.inj (hrecorded.newest.symm.trans hrecorded'.newest)
    rw [hreads]
  · rw [heq]
    exact h

theorem Kept.restart {now : Text} (h : Kept cfg l)
    (hplain : l.soul.committed.getLast?.all (fun row => decide ('\r' ∉ row.content)) = true) :
    Kept cfg { l with soul := (restart cfg (fun _ => false) now l.soul).2 } := by
  obtain ⟨raw, row, hrecorded⟩ := h.recorded
  obtain ⟨hreads, hsha⟩ := hrecorded.sha256_eq hplain
  unfold Soul.restart
  have hnewest : ({ l.soul with uncommitted := [], soulCore := [] } : Personality).versions.getLast? = some row := by
    simpa [Personality.versions] using hrecorded.newest
  have hsoul : ({ l.soul with uncommitted := [], soulCore := [] } : Personality).soul = some raw := hrecorded.soul
  rcases loadSoul_same (fun _ => false) now hsoul hnewest hsha with heq | ⟨hfault, -⟩
  · rw [heq]
    have hcore := h.core (boundedSoul cfg (readText raw)) fun raw' row' hrecorded' _ => by
      obtain rfl : row = row' := Option.some.inj (hrecorded.newest.symm.trans hrecorded'.newest)
      rw [hreads]
    rw [← h.uncommitted]
    exact hcore
  · simp at hfault

theorem Kept.call {c : Call} (h : Kept cfg l) (hmended : mended l (.call c) = true)
    (hplain : c.request = .reload →
      l.soul.committed.getLast?.all (fun row => decide ('\r' ∉ row.content)) = true) :
    Kept cfg ⟨c.run cfg l.soul, l.applied ++ (c.applies cfg l.soul).toList⟩ := by
  obtain ⟨request, now, faults⟩ := c
  simp only [mended, Bool.and_eq_true, Bool.not_eq_true'] at hmended
  cases request with
  | applyEvolution newSoul reason scan => exact h.applyEvolution hmended.1 hmended.2 newSoul reason now scan
  | restoreFromBackup =>
    unfold Call.run Call.applies restoreFromBackup
    simp only
    cases hbackup : l.soul.backup with
    | none => simpa using h
    | some backup =>
      simp only
      by_cases hread : faults .readRestored = true
      · simpa [hread] using h
      · have hkept := h.applyEvolution hmended.1 hmended.2 (readText backup) restoreReason now false
        simpa [hread] using hkept
  | reload =>
    have hkept := h.reload faults now (hplain rfl)
    simpa [Call.run, Call.applies, Soul.reload] using hkept

theorem kept_step {s : Step} (h : Kept cfg l) (hplain : plain l s = true) (hstep : Life.step cfg s l = some l') :
    Kept cfg l' := by
  simp only [plain, Bool.and_eq_true, Bool.or_eq_true, Bool.not_eq_true'] at hplain
  cases s with
  | call c =>
    obtain rfl := Option.some.inj hstep
    refine h.call hplain.1 fun hrequest => hplain.2.resolve_left ?_
    obtain ⟨request, now, faults⟩ := c
    simp only at hrequest
    subst hrequest
    simp [Step.readsBack]
  | restart now =>
    obtain rfl := Option.some.inj hstep
    exact h.restart (hplain.2.resolve_left (by simp [Step.readsBack]))

theorem kept_initial (soul backup : Option Text) (now : Text) : Kept cfg (Life.initial cfg soul backup now) := by
  unfold Life.initial Soul.restart loadSoul
  cases soul with
  | none =>
    refine ⟨⟨_, [], rfl, Or.inl rfl, rfl⟩, rfl, defaultSoul, _, rfl, rfl, rfl, rfl, ?_⟩
    simp
  | some raw =>
    refine ⟨⟨_, [], rfl, Or.inr rfl, rfl⟩, rfl, raw, _, rfl, rfl, ?_, rfl, ?_⟩
    · exact (readText_readText raw).symm
    · simp

end Life

/-- **No spurious drift** in a life in which no text with a carriage return is read back. -/
theorem no_spurious_drift {cfg : Config} {soul backup : Option Text} {now : Text} {l : Life}
    (h : Runs.Later (Life.step cfg) plain (Life.initial cfg soul backup now) l) : Undrifted cfg l := by
  refine (h.invariant (I := Kept cfg) (kept_initial soul backup now) ?_).undrifted
  intro l l' s hl hplain hstep
  exact kept_step hl hplain hstep

/-! ### A carriage return -/

/-- This text is applied, and soul.md is loaded again. -/
def applyAndReload (newSoul : String) : List Step :=
  [.call ⟨.applyEvolution newSoul.toList "because".toList true, [], fun _ => false⟩, .call ⟨.reload, [], fun _ => false⟩]

def wideConfig : Config := ⟨id, fun _ => [], 8000⟩

theorem no_spurious_drift_newline :
    ∃ l : Life, Runs.Later (Life.step wideConfig) plain (Life.initial wideConfig (some "a".toList) none []) l ∧
      Undrifted wideConfig l ∧ l.soul.soulCore = "a\nb".toList := by
  obtain ⟨l, hrun, hl⟩ := (Option.any_eq_true _ _).mp (show (Runs.run (Life.step wideConfig) plain (applyAndReload "a\nb")
    (Life.initial wideConfig (some "a".toList) none [])).any (fun l =>
      decide (l.soul.soulCore = "a\nb".toList)) = true by decide +kernel)
  exact ⟨l, Runs.Later.of_run hrun, no_spurious_drift (Runs.Later.of_run hrun), of_decide_eq_true hl⟩

/-- The reload finds a drift, records the text that it has read and takes it for the soul. -/
theorem drift_recovered :
    ∃ l : Life, Runs.Later (Life.step wideConfig) mended (Life.initial wideConfig (some "a".toList) none []) l ∧
      l.soul.committed.map Version.reason = ["initial_load".toList, "because".toList, driftReason] ∧
      l.soul.soulCore = "a\nb".toList ∧ l.applied = [("a\rb".toList, "because".toList)] ∧ ¬ Undrifted wideConfig l := by
  obtain ⟨l, hrun, hl⟩ := (Option.any_eq_true _ _).mp (show (Runs.run (Life.step wideConfig) mended (applyAndReload "a\rb")
    (Life.initial wideConfig (some "a".toList) none [])).any (fun l =>
      decide (l.soul.committed.map Version.reason = ["initial_load".toList, "because".toList, driftReason] ∧
        l.soul.soulCore = "a\nb".toList ∧ l.applied = [("a\rb".toList, "because".toList)])) = true by decide +kernel)
  obtain ⟨hreasons, hcore, happlied⟩ := of_decide_eq_true hl
  refine ⟨l, Runs.Later.of_run hrun, hreasons, hcore, happlied, ?_⟩
  intro hundrifted
  have hnewest := (hundrifted.newest _ _ (by rw [happlied]; rfl)).2
  rw [hcore] at hnewest
  exact absurd hnewest (by decide)

end CyClaw.Soul

/-
The event stream of `utils/numbat_emitter.py` and its rollover.

Processes append to one path, and where the file has reached `max_bytes` one of them renames
it onto the `.1` generation.  A lock file is to keep the others out; it may be left behind by
a crash, and is taken away again by whoever finds it old.

Where nobody takes away the lock of a process that is inside, and nothing is appended to a file
that has been renamed since it was looked up, one process at most is inside
(`Stream.Wf.inside`), so what it renames is what it measured, and what was written is kept up
to `max_bytes` (`rollover_keeps_archive`).  Two processes that both find an old lock may both get
inside, and the second renames the file that the first has just begun
(`rollover_destroys_archive`).
-/
import CyClaw.Lib.Threads
import Mathlib.Algebra.BigOperators.Group.List.Basic
import Mathlib.Algebra.GroupWithZero.Nat
import Mathlib.Data.List.Infix

namespace CyClaw.Numbat

open Threads

/-- A line of the stream, in bytes. -/
abbrev Line := List UInt8

def size (lines : List Line) : ℕ := (lines.map List.length).sum

/-- The directory.  Files go by their inodes, and locks by the order in which they are made. -/
structure Stream where
  live : Option ℕ
  /-- The `.1` generation. -/
  archive : Option ℕ
  files : ℕ → List Line
  inodes : ℕ
  lock : Option ℕ
  locks : ℕ
  /-- The locks whose makers are inside. -/
  inside : List ℕ
  /-- All that was ever appended. -/
  written : List Line

def Stream.content (s : Stream) : Option ℕ → List Line
  | some i => s.files i
  | none => []

/-- A directory with what it may hold. -/
def Stream.initial (archive live : Option (List Line)) (locked : Bool) : Stream where
  live := live.map fun _ => 1
  archive := archive.map fun _ => 0
  files := fun i => if i = 0 then archive.getD [] else if i = 1 then live.getD [] else []
  inodes := 2
  lock := if locked then some 0 else none
  locks := 1
  inside := []
  written := archive.getD [] ++ live.getD []

/-- `os.open(lock_path, O_CREAT | O_EXCL)`. -/
def Stream.makeLock (s : Stream) : Stream :=
  { s with lock := some s.locks, locks := s.locks + 1, inside := s.locks :: s.inside }

/-- `handle.write(line)`, in append mode. -/
def Stream.append (s : Stream) (i : ℕ) (line : Line) : Stream :=
  { s with files := Function.update s.files i (s.files i ++ [line]), written := s.written ++ [line] }

/-- `write_ndjson` with the handle that the process has cached. -/
structure Writing where
  handle : Option ℕ
  line : Line
deriving DecidableEq

/-- Where a process is: at the system call that is named. -/
inductive RollJob where
  | idle (handle : Option ℕ)
  | measuring (c : Writing)
  | locking (c : Writing) (measured : ℕ)
  /-- At `lock_path.stat()`. -/
  | aging (c : Writing) (measured : ℕ)
  | reclaiming (c : Writing) (measured : ℕ)
  | relocking (c : Writing) (measured : ℕ)
  /-- At the second `path.stat()`, under the lock. -/
  | locked (c : Writing) (measured id : ℕ)
  /-- At `os.replace`, with the handle closed. -/
  | renaming (line : Line) (measured id : ℕ)
  | releasing (c : Writing) (id : ℕ)
  /-- In `_handle_still_points_at`, if there is a handle. -/
  | checking (c : Writing)
  | opening (line : Line)
  | appending (inode : ℕ) (line : Line)
  | crashed
deriving DecidableEq

inductive RollTurn where
  | write (line : Line)
  | goOn
  /-- Whether the lock is older than `_ROLLOVER_LOCK_STALE_SEC`. -/
  | age (stale : Bool)
  /-- The call raises an `OSError`. -/
  | fails
  | crash

/-- The lock that a process has made and not given up. -/
def RollJob.held : RollJob → Option ℕ
  | .locked _ _ id => some id
  | .renaming _ _ id => some id
  | .releasing _ id => some id
  | _ => none

def rollAct (maxBytes : ℕ) : RollTurn → RollJob → Stream → Option (RollJob × Stream)
  | .write line, .idle handle, s =>
      some (if maxBytes = 0 then .checking ⟨handle, line⟩ else .measuring ⟨handle, line⟩, s)
  | .goOn, .measuring c, s =>
      match s.live with
      | some i => some (if size (s.files i) < maxBytes then .checking c else .locking c i, s)
      | none => some (.checking c, s)
  | .fails, .measuring c, s => some (.checking c, s)
  | .goOn, .locking c measured, s =>
      match s.lock with
      | none => some (.locked c measured s.locks, s.makeLock)
      | some _ => some (.aging c measured, s)
  | .fails, .locking c _, s => some (.checking c, s)
  | .age stale, .aging c measured, s =>
      some (if s.lock.isSome && stale then .reclaiming c measured else .checking c, s)
  | .fails, .aging c _, s => some (.checking c, s)
  | .goOn, .reclaiming c measured, s =>
      match s.lock with
      | some _ => some (.relocking c measured, { s with lock := none })
      | none => some (.checking c, s)
  | .fails, .reclaiming c _, s => some (.checking c, s)
  | .goOn, .relocking c measured, s =>
      match s.lock with
      | none => some (.locked c measured s.locks, s.makeLock)
      | some _ => some (.checking c, s)
  | .fails, .relocking c _, s => some (.checking c, s)
  | .goOn, .locked c measured id, s =>
      some (if s.live = some measured ∧ maxBytes ≤ size (s.files measured) then .renaming c.line measured id
        else .releasing c id, s)
  | .fails, .locked c _ id, s => some (.releasing c id, s)
  | .goOn, .renaming line _ id, s =>
      match s.live with
      | some i => some (.releasing ⟨none, line⟩ id, { s with archive := some i, live := none })
      | none => some (.releasing ⟨none, line⟩ id, s)
  | .fails, .renaming line _ id, s => some (.releasing ⟨none, line⟩ id, s)
  | .goOn, .releasing c id, s => some (.checking c, { s with lock := none, inside := s.inside.erase id })
  -- The lock file stays, and grows old.
  | .fails, .releasing c id, s => some (.checking c, { s with inside := s.inside.erase id })
  | .goOn, .checking c, s =>
      some (match c.handle with
        | some i => if s.live = some i then .appending i c.line else .opening c.line
        | none => .opening c.line, s)
  | .fails, .checking c, s => some (.opening c.line, s)
  | .goOn, .opening line, s =>
      match s.live with
      | some i => some (.appending i line, s)
      | none => some (.appending s.inodes line, { s with live := some s.inodes, inodes := s.inodes + 1 })
  | .fails, .opening _, s => some (.idle none, s)
  | .goOn, .appending i line, s => some (.idle (some i), s.append i line)
  | .fails, .appending i _, s => some (.idle (some i), s)
  | .crash, b, s => some (.crashed, { s with inside := b.held.elim s.inside s.inside.erase })
  | _, _, _ => none

abbrev RollWorld := World ℕ RollJob Stream

def RollWorld.initial (s : Stream) : RollWorld := { job := fun _ => .idle none, store := s }

/-- No lock is taken away whose maker is inside. -/
def locksRespected (w : RollWorld) : ℕ × RollTurn → Bool
  | (k, .goOn) =>
      match w.job k with
      | .reclaiming _ _ => w.store.lock.all fun id => id ∉ w.store.inside
      | _ => true
  | _ => true

/-- Nothing is appended to a file that is not the live one any more. -/
def appendsLive (w : RollWorld) : ℕ × RollTurn → Bool
  | (k, .goOn) =>
      match w.job k with
      | .appending i _ => w.store.live = some i
      | _ => true
  | _ => true

/-- Both. -/
def orderly (w : RollWorld) (turn : ℕ × RollTurn) : Bool := locksRespected w turn && appendsLive w turn

/-! ### What a step does -/

/-- **What a step makes of the directory.** -/
inductive RollMoves (maxBytes : ℕ) (s : Stream) : RollJob → RollJob → Stream → Prop where
  | stays {b b' : RollJob} (hheld : b'.held = b.held) (hrename : ∀ line measured id, b' ≠ .renaming line measured id) :
      RollMoves maxBytes s b b' s
  | locks {b : RollJob} {call : Writing} {measured : ℕ} (hfree : s.lock = none) :
      RollMoves maxBytes s b (.locked call measured s.locks) s.makeLock
  | reclaims {call : Writing} {measured : ℕ} (hmaker : ∀ id, s.lock = some id → id ∉ s.inside) :
      RollMoves maxBytes s (.reclaiming call measured) (.relocking call measured) { s with lock := none }
  | confirms {call : Writing} {measured id : ℕ} (hlive : s.live = some measured)
      (hsize : maxBytes ≤ size (s.files measured)) :
      RollMoves maxBytes s (.locked call measured id) (.renaming call.line measured id) s
  | renames {line : Line} {measured id i : ℕ} (hlive : s.live = some i) :
      RollMoves maxBytes s (.renaming line measured id) (.releasing ⟨none, line⟩ id)
        { s with archive := some i, live := none }
  | drops {b b' : RollJob} {id : ℕ} {lock : Option ℕ} (hheld : b.held = some id) (hheld' : b'.held = none) :
      RollMoves maxBytes s b b' { s with lock := lock, inside := s.inside.erase id }
  | creates {line : Line} (hlive : s.live = none) :
      RollMoves maxBytes s (.opening line) (.appending s.inodes line)
        { s with live := some s.inodes, inodes := s.inodes + 1 }
  | appends {i : ℕ} {line : Line} (hlive : s.live = some i) :
      RollMoves maxBytes s (.appending i line) (.idle (some i)) (s.append i line)

section Step

variable {maxBytes : ℕ} {c : RollTurn} {b b' : RollJob} {s s' : Stream} {w : RollWorld} {k : ℕ}

theorem moves_of_rollAct (h : rollAct maxBytes c (w.job k) w.store = some (b', s'))
    (hallow : orderly w (k, c) = true) : RollMoves maxBytes w.store (w.job k) b' s' := by
  obtain ⟨hrespected, hlive⟩ := Bool.and_eq_true_iff.mp hallow
  have hlocks : c = .goOn → ∀ call measured id, w.job k = .reclaiming call measured → w.store.lock = some id →
      id ∉ w.store.inside := by
    rintro rfl call measured id hjob hlock
    simpa [locksRespected, hjob, hlock] using hrespected
  have happends : c = .goOn → ∀ i line, w.job k = .appending i line → w.store.live = some i := by
    rintro rfl i line hjob
    simpa [appendsLive, hjob] using hlive
  generalize w.job k = b at h hlocks happends
  generalize w.store = s at h hlocks happends
  unfold rollAct at h
  split at h
  · obtain ⟨rfl, rfl⟩ := Prod.mk.inj (Option.some.inj h)
    split <;> exact .stays rfl nofun
  · split at h
    all_goals
      obtain ⟨rfl, rfl⟩ := Prod.mk.inj (Option.some.inj h)
      try split
      all_goals exact .stays rfl nofun
  · obtain ⟨rfl, rfl⟩ := Prod.mk.inj (Option.some.inj h)
    exact .stays rfl nofun
  · split at h <;> rename_i hlock
    · obtain ⟨rfl, rfl⟩ := Prod.mk.inj (Option.some.inj h)
      exact .locks hlock
    · obtain ⟨rfl, rfl⟩ := Prod.mk.inj (Option.some.inj h)
      exact .stays rfl nofun
  · obtain ⟨rfl, rfl⟩ := Prod.mk.inj (Option.some.inj h)
    exact .stays rfl nofun
  · obtain ⟨rfl, rfl⟩ := Prod.mk.inj (Option.some.inj h)
    split <;> exact .stays rfl nofun
  · obtain ⟨rfl, rfl⟩ := Prod.mk.inj (Option.some.inj h)
    exact .stays rfl nofun
  · split at h <;> rename_i hlock
    · obtain ⟨rfl, rfl⟩ := Prod.mk.inj (Option.some.inj h)
      exact .reclaims fun id => hlocks rfl _ _ id rfl
    · obtain ⟨rfl, rfl⟩ := Prod.mk.inj (Option.some.inj h)
      exact .stays rfl nofun
  · obtain ⟨rfl, rfl⟩ := Prod.mk.inj (Option.some.inj h)
    exact .stays rfl nofun
  · split at h <;> rename_i hlock
    · obtain ⟨rfl, rfl⟩ := Prod.mk.inj (Option.some.inj h)
      exact .locks hlock
    · obtain ⟨rfl, rfl⟩ := Prod.mk.inj (Option.some.inj h)
      exact .stays rfl nofun
  · obtain ⟨rfl, rfl⟩ := Prod.mk.inj (Option.some.inj h)
    exact .stays rfl nofun
  · obtain ⟨rfl, rfl⟩ := Prod.mk.inj (Option.some.inj h)
    split <;> rename_i hcheck
    · exact .confirms hcheck.1 hcheck.2
    · exact .stays rfl nofun
  · obtain ⟨rfl, rfl⟩ := Prod.mk.inj (Option.some.inj h)
    exact .stays rfl nofun
  · split at h <;> rename_i hlive
    · obtain ⟨rfl, rfl⟩ := Prod.mk.inj (Option.some.inj h)
      exact .renames hlive
    · obtain ⟨rfl, rfl⟩ := Prod.mk.inj (Option.some.inj h)
      exact .stays rfl nofun
  · obtain ⟨rfl, rfl⟩ := Prod.mk.inj (Option.some.inj h)
    exact .stays rfl nofun
  · obtain ⟨rfl, rfl⟩ := Prod.mk.inj (Option.some.inj h)
    exact .drops rfl rfl
  · obtain ⟨rfl, rfl⟩ := Prod.mk.inj (Option.some.inj h)
    exact .drops rfl rfl
  · obtain ⟨rfl, rfl⟩ := Prod.mk.inj (Option.some.inj h)
    refine .stays ?_ ?_
    all_goals
      split
      · split <;> simp [RollJob.held]
      · simp [RollJob.held]
  · obtain ⟨rfl, rfl⟩ := Prod.mk.inj (Option.some.inj h)
    exact .stays rfl nofun
  · split at h <;> rename_i hlive
    · obtain ⟨rfl, rfl⟩ := Prod.mk.inj (Option.some.inj h)
      exact .stays rfl nofun
    · obtain ⟨rfl, rfl⟩ := Prod.mk.inj (Option.some.inj h)
      exact .creates hlive
  · obtain ⟨rfl, rfl⟩ := Prod.mk.inj (Option.some.inj h)
    exact .stays rfl nofun
  · obtain ⟨rfl, rfl⟩ := Prod.mk.inj (Option.some.inj h)
    exact .appends (happends rfl _ _ rfl)
  · obtain ⟨rfl, rfl⟩ := Prod.mk.inj (Option.some.inj h)
    exact .stays rfl nofun
  · obtain ⟨rfl, rfl⟩ := Prod.mk.inj (Option.some.inj h)
    cases hheld : b.held with
    | none => exact .stays hheld.symm nofun
    | some id => exact .drops hheld rfl
  · cases h

theorem size_append (l₁ l₂ : List Line) : size (l₁ ++ l₂) = size l₁ + size l₂ := by
  simp [size]

/-- The directory, where one process at most is inside: the files have names of their own, and
what is lost was written before at least `maxBytes` of what is kept. -/
structure Stream.Wf (maxBytes : ℕ) (s : Stream) : Prop where
  alone : s.inside = [] ∨ ∃ id, s.inside = [id] ∧ s.lock = some id
  fresh : ∀ i, s.inodes ≤ i → s.files i = []
  live : ∀ i, s.live = some i → i < s.inodes
  archive : ∀ i, s.archive = some i → i < s.inodes
  distinct : ∀ i, s.live = some i → s.archive ≠ some i
  kept : ∃ lost, s.written = lost ++ (s.content s.archive ++ s.content s.live) ∧
    (lost = [] ∨ maxBytes ≤ size (s.content s.archive ++ s.content s.live))

/-- A process that renames is inside, and what it renames is the live file, which is full. -/
structure RollJob.Sound (maxBytes : ℕ) (b : RollJob) (s : Stream) : Prop where
  inside : ∀ id, b.held = some id → id ∈ s.inside
  full : ∀ line measured id, b = .renaming line measured id →
    s.live = some measured ∧ maxBytes ≤ size (s.files measured)

def RollJob.Apart (b b' : RollJob) : Prop := ∀ id, b.held = some id → b'.held ≠ some id

theorem Stream.Wf.inside_of_unlocked (h : s.Wf maxBytes) (hlock : s.lock = none) : s.inside = [] := by
  rcases h.alone with hnil | ⟨id, -, hid⟩
  · exact hnil
  · rw [hlock] at hid
    cases hid

/-- Two that are inside are one. -/
theorem Stream.Wf.eq_of_inside (h : s.Wf maxBytes) {id id' : ℕ} (hid : id ∈ s.inside) (hid' : id' ∈ s.inside) : id = id' := by
  rcases h.alone with hnil | ⟨owner, hone, -⟩
  · rw [hnil] at hid
    cases hid
  · rw [hone, List.mem_singleton] at hid hid'
    exact hid.trans hid'.symm

theorem Stream.Wf.erase_inside (h : s.Wf maxBytes) {id : ℕ} (hid : id ∈ s.inside) : s.inside.erase id = [] := by
  rcases h.alone with hnil | ⟨owner, hone, -⟩
  · rw [hnil, List.erase_nil]
  · rw [hone, List.mem_singleton] at hid
    rw [hone, hid, List.erase_cons_head]

/-! ### The store -/

theorem Stream.Wf.locks (h : s.Wf maxBytes) (hlock : s.lock = none) : s.makeLock.Wf maxBytes where
  alone := by
    refine Or.inr ⟨s.locks, ?_, rfl⟩
    unfold Stream.makeLock
    rw [h.inside_of_unlocked hlock]
  fresh := h.fresh
  live := h.live
  archive := h.archive
  distinct := h.distinct
  kept := h.kept

theorem Stream.Wf.reclaims (h : s.Wf maxBytes) (hmaker : ∀ id, s.lock = some id → id ∉ s.inside) :
    Stream.Wf maxBytes { s with lock := none } where
  alone := by
    rcases h.alone with hnil | ⟨id, hone, hlock⟩
    · exact Or.inl hnil
    · exact absurd (by rw [hone]; exact List.mem_singleton_self id) (hmaker id hlock)
  fresh := h.fresh
  live := h.live
  archive := h.archive
  distinct := h.distinct
  kept := h.kept

theorem Stream.Wf.drops (h : s.Wf maxBytes) {id : ℕ} (hid : id ∈ s.inside) (lock : Option ℕ) :
    Stream.Wf maxBytes { s with lock := lock, inside := s.inside.erase id } where
  alone := Or.inl (h.erase_inside hid)
  fresh := h.fresh
  live := h.live
  archive := h.archive
  distinct := h.distinct
  kept := h.kept

/-- The archive that goes was written before all of the file that becomes the archive. -/
theorem Stream.Wf.renames (h : s.Wf maxBytes) {i : ℕ} (hlive : s.live = some i) (hsize : maxBytes ≤ size (s.files i)) :
    Stream.Wf maxBytes { s with archive := some i, live := none } where
  alone := h.alone
  fresh := h.fresh
  live := nofun
  archive j hj := by
    cases hj
    exact h.live i hlive
  distinct := nofun
  kept := by
    obtain ⟨lost, hwritten, -⟩ := h.kept
    rw [hlive] at hwritten
    refine ⟨lost ++ s.content s.archive, ?_, Or.inr ?_⟩
    · simpa [Stream.content] using hwritten
    · simpa [Stream.content] using hsize

theorem Stream.Wf.creates (h : s.Wf maxBytes) (hlive : s.live = none) :
    Stream.Wf maxBytes { s with live := some s.inodes, inodes := s.inodes + 1 } where
  alone := h.alone
  fresh i hi := h.fresh i (Nat.le_of_succ_le hi)
  live i hi := by
    cases hi
    exact Nat.lt_succ_self _
  archive i hi := Nat.lt_succ_of_lt (h.archive i hi)
  distinct i hi ha := by
    cases hi
    exact absurd (h.archive _ ha) (lt_irrefl _)
  kept := by
    have hempty : s.files s.inodes = [] := h.fresh _ le_rfl
    simpa [Stream.content, hlive, hempty] using h.kept

/-- The line stands at the end of the live file. -/
theorem Stream.Wf.content_append (h : s.Wf maxBytes) {i : ℕ} (hlive : s.live = some i) (line : Line) :
    (s.append i line).content s.archive = s.content s.archive ∧
      (s.append i line).content s.live = s.content s.live ++ [line] := by
  constructor
  · cases ha : s.archive with
    | none => rfl
    | some j => exact Function.update_of_ne (fun hji => h.distinct i hlive (by rw [ha, hji])) _ _
  · rw [hlive]
    exact Function.update_self _ _ _

theorem Stream.Wf.appends (h : s.Wf maxBytes) {i : ℕ} (hlive : s.live = some i) (line : Line) :
    (s.append i line).Wf maxBytes where
  alone := h.alone
  fresh j hj := by
    have hne : j ≠ i := by
      rintro rfl
      exact absurd (h.live j hlive) (not_lt.mpr hj)
    exact (Function.update_of_ne hne _ _).trans (h.fresh j hj)
  live := h.live
  archive := h.archive
  distinct := h.distinct
  kept := by
    obtain ⟨lost, hwritten, hlost⟩ := h.kept
    obtain ⟨harchive, hnew⟩ := h.content_append hlive line
    refine ⟨lost, ?_, hlost.imp id fun hsize => ?_⟩
    · calc s.written ++ [line] = lost ++ (s.content s.archive ++ (s.content s.live ++ [line])) := by
            rw [hwritten, List.append_assoc, List.append_assoc]
        _ = lost ++ ((s.append i line).content s.archive ++ (s.append i line).content s.live) := by rw [harchive, hnew]
    · calc maxBytes ≤ size (s.content s.archive ++ s.content s.live) := hsize
        _ ≤ size (s.content s.archive ++ (s.content s.live ++ [line])) := by
            rw [← List.append_assoc, size_append _ [line]]
            exact Nat.le_add_right _ _
        _ = size ((s.append i line).content s.archive ++ (s.append i line).content s.live) := by rw [harchive, hnew]

/-- **The store and the process itself.** -/
theorem RollMoves.own (h : RollMoves maxBytes s b b' s') (hs : s.Wf maxBytes) (hb : b.Sound maxBytes s) :
    s'.Wf maxBytes ∧ b'.Sound maxBytes s' := by
  cases h with
  | stays hheld hrename =>
    refine ⟨hs, fun id hid => hb.inside id (hheld ▸ hid), fun line measured id hjob => ?_⟩
    exact absurd hjob (hrename line measured id)
  | locks hfree =>
    refine ⟨hs.locks hfree, fun id hid => ?_, nofun⟩
    cases hid
    exact List.mem_cons_self
  | reclaims hmaker => exact ⟨hs.reclaims hmaker, nofun, nofun⟩
  | confirms hlive hsize =>
    refine ⟨hs, fun id hid => hb.inside id hid, fun line measured id hjob => ?_⟩
    cases hjob
    exact ⟨hlive, hsize⟩
  | @renames line measured id i hlive =>
    obtain ⟨hfull, hsize⟩ := hb.full line measured id rfl
    rw [hlive, Option.some.injEq] at hfull
    exact ⟨hs.renames hlive (hfull ▸ hsize), fun id hid => hb.inside id hid, nofun⟩
  | drops hheld hheld' =>
    refine ⟨hs.drops (hb.inside _ hheld) _, fun id hid => ?_, fun line measured id hjob => ?_⟩
    · rw [hheld'] at hid
      cases hid
    · rw [hjob] at hheld'
      cases hheld'
  | creates hlive => exact ⟨hs.creates hlive, nofun, nofun⟩
  | appends hlive => exact ⟨hs.appends hlive _, nofun, nofun⟩

/-- **Every other process.** -/
theorem RollMoves.other (h : RollMoves maxBytes s b b' s') (hs : s.Wf maxBytes) (hb : b.Sound maxBytes s)
    {j : RollJob} (hj : j.Sound maxBytes s) (hapart : b.Apart j) : j.Sound maxBytes s' ∧ b'.Apart j := by
  cases h with
  | stays hheld hrename => exact ⟨hj, fun id hid => hapart id (hheld ▸ hid)⟩
  | locks hfree =>
    refine ⟨⟨fun id hid => List.mem_cons_of_mem _ (hj.inside id hid), hj.full⟩, fun id _ hid' => ?_⟩
    have hmem := hj.inside id hid'
    rw [hs.inside_of_unlocked hfree] at hmem
    cases hmem
  | reclaims hmaker => exact ⟨⟨hj.inside, hj.full⟩, nofun⟩
  | confirms hlive hsize => exact ⟨hj, hapart⟩
  | @renames line measured id i hlive =>
    refine ⟨⟨hj.inside, fun line' measured' id' hjob => ?_⟩, hapart⟩
    have hinside : id' ∈ s.inside := hj.inside id' (by rw [hjob]; rfl)
    have hsame : id = id' := hs.eq_of_inside (hb.inside id rfl) hinside
    exact absurd (show j.held = some id by rw [hjob, hsame]; rfl) (hapart id rfl)
  | @drops _ _ id _ hheld hheld' =>
    refine ⟨⟨fun id' hid' => ?_, hj.full⟩, fun id' hid' => ?_⟩
    · have hne : id' ≠ id := by
        rintro rfl
        exact hapart id' hheld hid'
      exact (List.mem_erase_of_ne hne).mpr (hj.inside id' hid')
    · rw [hheld'] at hid'
      cases hid'
  | creates hlive =>
    refine ⟨⟨hj.inside, fun line measured id hjob => ?_⟩, nofun⟩
    obtain ⟨hmeasured, -⟩ := hj.full line measured id hjob
    rw [hlive] at hmeasured
    cases hmeasured
  | @appends i line hlive =>
    refine ⟨⟨hj.inside, fun line' measured id hjob => ?_⟩, nofun⟩
    obtain ⟨hmeasured, hsize⟩ := hj.full line' measured id hjob
    rw [hlive, Option.some.injEq] at hmeasured
    subst hmeasured
    refine ⟨hlive, ?_⟩
    have hnew : (s.append i line).files i = s.files i ++ [line] := Function.update_self _ _ _
    rw [hnew, size_append]
    exact Nat.le_add_right_of_le hsize

end Step

/-! ### Runs -/

section Runs

variable {maxBytes : ℕ} {archive live : Option (List Line)} {locked : Bool} {s : Stream} {w : RollWorld}

abbrev Rolling (maxBytes : ℕ) : RollWorld → Prop :=
  Holds (Stream.Wf maxBytes) (RollJob.Sound maxBytes) RollJob.Apart

theorem RollJob.Apart.symm {b b' : RollJob} (h : b.Apart b') : b'.Apart b :=
  fun id hid hid' => h id hid' hid

theorem rolling_keeps (maxBytes : ℕ) :
    Keeps (rollAct maxBytes) orderly (Stream.Wf maxBytes) (RollJob.Sound maxBytes) RollJob.Apart where
  own hw hallow hact := (moves_of_rollAct hact hallow).own hw.store (hw.each _)
  other hw hallow hact k' hne := by
    have hmoves := moves_of_rollAct hact hallow
    obtain ⟨hsound, hapart⟩ := hmoves.other hw.store (hw.each _) (hw.each k') (hw.pair _ k' (Ne.symm hne))
    exact ⟨hsound, hapart, hapart.symm⟩

theorem Stream.wf_initial : (Stream.initial archive live locked).Wf maxBytes where
  alone := Or.inl rfl
  fresh i hi := by
    have h₀ : i ≠ 0 := by rintro rfl; exact absurd hi (by simp [Stream.initial])
    have h₁ : i ≠ 1 := by rintro rfl; exact absurd hi (by simp [Stream.initial])
    simp [Stream.initial, h₀, h₁]
  live := by cases live <;> simp [Stream.initial]
  archive := by cases archive <;> simp [Stream.initial]
  distinct := by cases live <;> cases archive <;> simp [Stream.initial]
  kept := by
    refine ⟨[], ?_, Or.inl rfl⟩
    cases live <;> cases archive <;> simp [Stream.initial, Stream.content]

theorem RollJob.sound_idle {handle : Option ℕ} : (RollJob.idle handle).Sound maxBytes s := ⟨nofun, nofun⟩

theorem RollJob.apart_idle {handle : Option ℕ} {b : RollJob} : (RollJob.idle handle).Apart b := nofun

theorem rolling_of_later
    (h : Runs.Later (step (rollAct maxBytes)) orderly (RollWorld.initial (Stream.initial archive live locked)) w) :
    Rolling maxBytes w :=
  Holds.later ⟨Stream.wf_initial, fun _ => RollJob.sound_idle, fun _ _ _ => RollJob.apart_idle⟩ (rolling_keeps maxBytes) h

/-- What has been written lately is kept. -/
theorem Stream.Wf.recent (h : s.Wf maxBytes) {before after : List Line} {line : Line}
    (hwritten : s.written = before ++ line :: after) (hsize : size after < maxBytes) :
    line :: after <:+ s.content s.archive ++ s.content s.live := by
  obtain ⟨lost, heq, hlost⟩ := h.kept
  rw [hwritten, List.append_eq_append_iff] at heq
  rcases heq with ⟨rest, hbefore, hafter⟩ | ⟨rest, hbefore, hkept⟩
  · cases rest with
    | nil => exact ⟨[], hafter⟩
    | cons first rest =>
      -- The line would be lost, and all that is kept have come after it.
      obtain ⟨-, hrest⟩ := List.cons.inj (hafter.trans List.cons_append)
      have hfull := hlost.resolve_left (by simp [hbefore])
      rw [hrest, size_append rest] at hsize
      omega
  · exact ⟨rest, hkept.symm⟩

/-- **The archive is not destroyed early**, where the locks are respected and what is appended
goes to the live file: what is renamed is full, and a line is kept until `maxBytes` have come
after it. -/
theorem rollover_keeps_archive
    (h : Runs.Later (step (rollAct maxBytes)) orderly (RollWorld.initial (Stream.initial archive live locked)) w) :
    (∀ k line measured id i, w.job k = .renaming line measured id → w.store.live = some i →
      maxBytes ≤ size (w.store.files i)) ∧
    ∀ before line after, w.store.written = before ++ line :: after → size after < maxBytes →
      line :: after <:+ w.store.content w.store.archive ++ w.store.content w.store.live := by
  have hw := rolling_of_later h
  constructor
  · intro k line measured id i hjob hlive
    obtain ⟨hmeasured, hsize⟩ := (hw.each k).full line measured id hjob
    rw [hlive, Option.some.injEq] at hmeasured
    exact hmeasured ▸ hsize
  · exact fun before line after hwritten hsize => hw.store.recent hwritten hsize

/-- The case of one process whose second line rolls the file over. -/
theorem rollover_keeps_archive_once :
    ∃ w, Runs.Later (step (rollAct 2)) orderly (RollWorld.initial (Stream.initial none none false)) w ∧
      w.job 0 = .renaming [98] 2 1 ∧ w.store.live = some 2 ∧ 2 ≤ size (w.store.files 2) ∧
      [[97, 97]] <:+ w.store.content w.store.archive ++ w.store.content w.store.live := by
  obtain ⟨w, hrun, hw⟩ := (Option.any_eq_true _ _).mp (show (Runs.run (step (rollAct 2)) orderly
    [(0, .write [97, 97]), (0, .goOn), (0, .goOn), (0, .goOn), (0, .goOn),
      (0, .write [98]), (0, .goOn), (0, .goOn), (0, .goOn)]
      (RollWorld.initial (Stream.initial none none false))).any (fun w =>
        w.job 0 = .renaming [98] 2 1 ∧ w.store.live = some 2 ∧ w.store.written = [[97, 97]]) = true by decide +kernel)
  rw [decide_eq_true_eq] at hw
  obtain ⟨hjob, hlive, hwritten⟩ := hw
  have hlater := Runs.Later.of_run hrun
  obtain ⟨hfull, hkept⟩ := rollover_keeps_archive hlater
  exact ⟨w, hlater, hjob, hlive, hfull 0 [98] 2 1 2 hjob hlive, hkept [] [97, 97] [] hwritten (by decide)⟩

/-- A crash in a rollover, and two processes that find its lock old. -/
def rollTurns : List (ℕ × RollTurn) :=
  -- The first file is full, and its writer dies in its next call under the lock.
  [(0, .write [97, 97, 97]), (0, .goOn), (0, .goOn), (0, .goOn), (0, .goOn),
    (0, .write [98]), (0, .goOn), (0, .goOn), (0, .crash),
  -- Two more find the lock old.  The second takes away the lock that the first has just made.
    (1, .write [99]), (1, .goOn), (1, .goOn), (1, .age true), (2, .write [100]), (2, .goOn), (2, .goOn), (2, .age true),
    (1, .goOn), (1, .goOn), (2, .goOn), (2, .goOn), (1, .goOn), (2, .goOn),
  -- The first rolls the file over and begins a new one.
    (1, .goOn), (1, .goOn), (1, .goOn), (1, .goOn), (1, .goOn)]

/-- A writer looks its handle up, and the file is rolled over twice around its `write`. -/
def appendTurns : List (ℕ × RollTurn) :=
  [(1, .write [97]), (1, .goOn), (1, .goOn), (1, .goOn), (1, .goOn), (1, .write [120]), (1, .goOn), (1, .goOn),
    (2, .write [98, 98]), (2, .goOn), (2, .goOn), (2, .goOn), (2, .goOn),
    (2, .write [99]), (2, .goOn), (2, .goOn), (2, .goOn), (2, .goOn), (2, .goOn), (2, .goOn), (2, .goOn), (2, .goOn),
    (1, .goOn),
    (2, .write [100]), (2, .goOn), (2, .goOn), (2, .goOn),
    (2, .write [101]), (2, .goOn), (2, .goOn), (2, .goOn), (2, .goOn)]

/-- **The archive may be destroyed early.**  Of two processes that find an old lock the second may
rename the file that the first has just begun; and even where the locks are respected, a line that is
written into the archive may go before its time. -/
theorem rollover_destroys_archive :
    (∃ w w', Runs.Later (step (rollAct 2)) (fun _ _ => true) (RollWorld.initial (Stream.initial none none false)) w ∧
      step (rollAct 2) (2, .goOn) w = some w' ∧
      w.job 2 = .renaming [100] 2 3 ∧ w.store.live = some 3 ∧ size (w.store.files 3) < 2 ∧
      w'.store.written = [[97, 97, 97], [99]] ∧
      w'.store.content w'.store.archive ++ w'.store.content w'.store.live = [[99]]) ∧
    ∃ w, Runs.Later (step (rollAct 2)) locksRespected (RollWorld.initial (Stream.initial none none false)) w ∧
      w.store.written = [[97], [98, 98], [99], [120], [100]] ∧
      w.store.content w.store.archive ++ w.store.content w.store.live = [[99], [100]] := by
  constructor
  · obtain ⟨w, hrun, hw⟩ := (Option.any_eq_true _ _).mp
      (show (Runs.run (step (rollAct 2)) (fun _ _ => true) rollTurns (RollWorld.initial (Stream.initial none none false))).any
        (fun w => (step (rollAct 2) (2, .goOn) w).any fun w' =>
          w.job 2 = .renaming [100] 2 3 ∧ w.store.live = some 3 ∧ size (w.store.files 3) < 2 ∧
          w'.store.written = [[97, 97, 97], [99]] ∧
          w'.store.content w'.store.archive ++ w'.store.content w'.store.live = [[99]]) = true by decide +kernel)
    obtain ⟨w', hstep, hw'⟩ := (Option.any_eq_true _ _).mp hw
    exact ⟨w, w', Runs.Later.of_run hrun, hstep, of_decide_eq_true hw'⟩
  · obtain ⟨w, hrun, hw⟩ := (Option.any_eq_true _ _).mp
      (show (Runs.run (step (rollAct 2)) locksRespected appendTurns
        (RollWorld.initial (Stream.initial none none false))).any (fun w =>
          w.store.written = [[97], [98, 98], [99], [120], [100]] ∧
          w.store.content w.store.archive ++ w.store.content w.store.live = [[99], [100]]) = true by decide +kernel)
    exact ⟨w, Runs.Later.of_run hrun, of_decide_eq_true hw⟩

end Runs

end CyClaw.Numbat

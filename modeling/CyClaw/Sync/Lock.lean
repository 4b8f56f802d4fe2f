/-
The lock of a sync run, `_acquire_sync_lock` and `_release_sync_lock`.

All calls are on one log directory, which each process spells as it likes, so there is one
lock file and any number of keys for it.  What the calls share is the file with its open
descriptors and the lock of the operating system, and for every process its
`_PROCESS_LOCKS_GUARD` and `_PROCESS_LOCKS`.  A call is at a place in the two functions, takes
one step at a time, and any step that asks the system for something may raise `OSError`.

Of the operating system it is assumed that a descriptor locks the file only while no other
one has it locked, that unlocking and closing drop the lock, closing also where it reports an
error, and that a crash closes what the process has open.
-/
import CyClaw.Lib.PyText
import CyClaw.Lib.Threads
import Mathlib.Data.Nat.Notation

namespace CyClaw.Sync

open Threads

/-- Where a call is.  `fd` is the descriptor it has open. -/
inductive LockPlace where
  | idle
  /-- `with _PROCESS_LOCKS_GUARD`. -/
  | waiting
  /-- `key in _PROCESS_LOCKS`. -/
  | checking
  /-- `os.open`. -/
  | opening
  /-- `_try_os_lock`. -/
  | locking (fd : ℕ)
  /-- `_write_lock_meta`. -/
  | writing (fd : ℕ)
  /-- `_PROCESS_LOCKS.add`. -/
  | adding (fd : ℕ)
  | leaving (fd : ℕ)
  /-- `except Exception`, with the lock. -/
  | undoing (fd : ℕ)
  | closing (fd : ℕ)
  | raising
  | failed
  /-- `_run_sync_locked`. -/
  | inside (fd : ℕ)
  /-- `_release_sync_lock`, before the guard. -/
  | returning (fd : ℕ)
  /-- `os.ftruncate`; the handle has no descriptor any more. -/
  | truncating (fd : ℕ)
  /-- `_unlock_os_lock`. -/
  | unlocking (fd : ℕ)
  /-- `os.close`. -/
  | dropping (fd : ℕ)
  /-- `_PROCESS_LOCKS.discard`. -/
  | discarding
  | ending
  | ended
  /-- The handle is released once more. -/
  | rereleasing
  | again
deriving DecidableEq

/-- A call: its process, the key it has for the lock file, and the metadata it would write. -/
structure LockJob where
  proc : ℕ
  key : List Char
  content : List Char
  place : LockPlace

structure LockStore where
  /-- `_PROCESS_LOCKS_GUARD` of a process. -/
  guard : ℕ → Bool
  /-- `_PROCESS_LOCKS` of a process. -/
  processLocks : ℕ → List (List Char)
  /-- The process that has a descriptor open. -/
  owner : ℕ → Option ℕ
  /-- The descriptor the next `os.open` gives. -/
  next : ℕ
  /-- The descriptor that has the file locked. -/
  locked : Option ℕ
  /-- What the lock file holds. -/
  file : List Char
  dead : ℕ → Bool

/-- What the surroundings choose for a step. -/
inductive LockTurn where
  /-- A call of `run_sync` in a process gets to the lock. -/
  | call (proc : ℕ) (key content : List Char)
  | goOn
  /-- The step raises `OSError`; `applied` says whether it had an effect by then. -/
  | raises (applied : Bool)
  /-- `_run_sync_locked` returns or raises. -/
  | ends
  /-- `_release_sync_lock` with a handle that is released. -/
  | release
  /-- A process crashes. -/
  | crash (proc : ℕ)

/-- Close a descriptor. -/
def LockStore.close (s : LockStore) (fd : ℕ) : LockStore :=
  { s with
    owner := Function.update s.owner fd none
    locked := if s.locked = some fd then none else s.locked }

/-- The descriptors of a process are closed. -/
def LockStore.crash (s : LockStore) (p : ℕ) : LockStore :=
  { s with
    owner := fun fd => if s.owner fd = some p then none else s.owner fd
    locked := s.locked.filter fun fd => s.owner fd ≠ some p
    dead := Function.update s.dead p true }

def LockStore.enter (s : LockStore) (p : ℕ) : LockStore := { s with guard := Function.update s.guard p true }

def LockStore.leave (s : LockStore) (p : ℕ) : LockStore := { s with guard := Function.update s.guard p false }

/-- One step of a living process. -/
def lockMove (b : LockJob) (s : LockStore) : LockTurn → Option (LockPlace × LockStore)
  | .goOn =>
      match b.place with
      | .waiting => if s.guard b.proc then none else some (.checking, s.enter b.proc)
      | .checking => some (if b.key ∈ s.processLocks b.proc then .raising else .opening, s)
      | .opening =>
          some (.locking s.next, { s with owner := Function.update s.owner s.next (some b.proc), next := s.next + 1 })
      | .locking fd =>
          match s.locked with
          | none => some (.writing fd, { s with locked := some fd })
          -- EAGAIN: some descriptor has the file locked.
          | some _ => some (.closing fd, s)
      | .writing fd => some (.adding fd, { s with file := b.content })
      | .adding fd =>
          some (.leaving fd,
            { s with processLocks := Function.update s.processLocks b.proc (b.key :: s.processLocks b.proc) })
      | .leaving fd => some (.inside fd, s.leave b.proc)
      | .undoing fd => some (.closing fd, { s with locked := none })
      | .closing fd => some (.raising, s.close fd)
      | .raising => some (.failed, s.leave b.proc)
      | .returning fd => if s.guard b.proc then none else some (.truncating fd, s.enter b.proc)
      | .truncating fd => some (.unlocking fd, { s with file := [] })
      | .unlocking fd => some (.dropping fd, { s with locked := none })
      | .dropping fd => some (.discarding, s.close fd)
      | .discarding =>
          some (.ending,
            { s with
              processLocks :=
                Function.update s.processLocks b.proc ((s.processLocks b.proc).filter fun key => key ≠ b.key) })
      | .ending => some (.ended, s.leave b.proc)
      | .rereleasing => if s.guard b.proc then none else some (.again, s.enter b.proc)
      -- `fd is None`.
      | .again => some (.ended, s.leave b.proc)
      | _ => none
  | .raises applied =>
      match b.place with
      | .opening => some (.raising, s)
      | .locking fd => some (.closing fd, s)
      | .writing fd => some (.undoing fd, if applied then { s with file := [] } else s)
      | .undoing fd => some (.closing fd, if applied then { s with locked := none } else s)
      | .closing fd => some (.raising, s.close fd)
      | .truncating fd => some (.unlocking fd, if applied then { s with file := [] } else s)
      | .unlocking fd => some (.dropping fd, if applied then { s with locked := none } else s)
      | .dropping fd => some (.discarding, s.close fd)
      | _ => none
  | .ends =>
      match b.place with
      | .inside fd => some (.returning fd, s)
      | _ => none
  | .release =>
      match b.place with
      | .ended => some (.rereleasing, s)
      | _ => none
  | _ => none

def lockAct (turn : LockTurn) (b : LockJob) (s : LockStore) : Option (LockJob × LockStore) :=
  match turn with
  | .crash p => some (b, s.crash p)
  | .call p key content =>
      if b.place = .idle ∧ s.dead p = false then some (⟨p, key, content, .waiting⟩, s) else none
  | turn => if s.dead b.proc then none else (lockMove b s turn).map fun r => ({ b with place := r.1 }, r.2)

abbrev LockWorld := World ℕ LockJob LockStore

/-- Nobody has called yet; the lock file holds whatever is left of earlier days. -/
def LockWorld.initial (file : List Char) : LockWorld where
  job := fun _ => ⟨0, [], [], .idle⟩
  store := ⟨fun _ => false, fun _ => [], fun _ => none, 0, none, file, fun _ => false⟩

/-- Everything may happen. -/
def anyTurn (_ : LockWorld) (_ : ℕ × LockTurn) : Bool := true

def LockPlace.fd? : LockPlace → Option ℕ
  | .locking fd => some fd
  | .writing fd => some fd
  | .adding fd => some fd
  | .leaving fd => some fd
  | .undoing fd => some fd
  | .closing fd => some fd
  | .inside fd => some fd
  | .returning fd => some fd
  | .truncating fd => some fd
  | .unlocking fd => some fd
  | .dropping fd => some fd
  | _ => none

def LockPlace.isInside : LockPlace → Bool
  | .inside _ => true
  | _ => false

/-- A call that is executing `_run_sync_locked`. -/
def LockWorld.inside (w : LockWorld) (k : ℕ) : Prop :=
  w.store.dead (w.job k).proc = false ∧ (w.job k).place.isInside = true

/-- A call that holds the lock. -/
def LockWorld.holds (w : LockWorld) (k : ℕ) : Prop :=
  w.store.dead (w.job k).proc = false ∧ ∃ fd, (w.job k).place.fd? = some fd ∧ w.store.locked = some fd

/-- What the lock is for. -/
structure LockWorld.Promises (w : LockWorld) : Prop where
  one : ∀ k k', w.inside k → w.inside k' → k = k'
  inside_holds : ∀ k, w.inside k → w.holds k ∧ w.store.file = (w.job k).content
  /-- No step of another call takes the lock from the call that holds it, or changes what it has
  written, unless its process crashes. -/
  kept : ∀ k turn (w' : LockWorld) j, step lockAct (k, turn) w = some w' → j ≠ k → w.holds j → turn ≠ .crash (w.job j).proc →
    w'.holds j ∧ (w.inside j → w'.inside j ∧ w'.store.file = w.store.file)
  /-- A handle that is released again leaves everything but the guard alone. -/
  again : ∀ k turn (w' : LockWorld), step lockAct (k, turn) w = some w' →
    (w.job k).place = .ended ∨ (w.job k).place = .rereleasing ∨ (w.job k).place = .again →
    (∀ p, turn ≠ .crash p) →
    w'.store = { w.store with guard := w'.store.guard } ∧
      ((w'.job k).place = .ended ∨ (w'.job k).place = .rereleasing ∨ (w'.job k).place = .again)
  /-- Where no call holds the lock, a new one gets it, in any living process and under any name. -/
  free : (∀ j, ¬ w.holds j) → ∀ k p key content, (w.job k).place = .idle → w.store.dead p = false →
    w.store.guard p = false →
    ∃ turns, ∃ w' : LockWorld, (∀ turn ∈ turns, turn.1 = k) ∧
      Runs.run (step lockAct) anyTurn ((k, .call p key content) :: turns) w = some w' ∧ w'.inside k
  /-- And the guard of a living process is always given back: who has it gets through by itself. -/
  guarded : ∀ p, w.store.dead p = false → w.store.guard p = true →
    ∃ j turns, ∃ w' : LockWorld, (w.job j).proc = p ∧ (∀ turn ∈ turns, turn = (j, .goOn)) ∧
      Runs.run (step lockAct) anyTurn turns w = some w' ∧ w'.store.guard p = false

end CyClaw.Sync

/-
The two directory locks.

`agentic.registry` and `agentic.harness_optimizer.patching` each make a mutex out of a
directory: whoever creates it holds the lock, a token inside names the owner's process, and a
lock that is old and whose owner is dead may be reclaimed.  The helpers are shared, and so is
the release; the skills registry reclaims behind a second directory, the guard, and the
artifacts do not.

A caller goes through its file system steps one at a time (`go`), each of which may fail with
an `OSError` (`err`), and in between anything else may happen: time passes, other callers
move, a process crashes and takes its callers with it.  What `shutil.rmtree` does is two
steps, since it removes the token before the directory.

The threads of one process are serialised by a lock of their own as well.  That only takes
runs away, so it is not modelled.
-/
import CyClaw.Lib.Sections
import Mathlib.Algebra.Order.Ring.Rat

namespace CyClaw.Locks

/-- Which of the two locks. -/
inductive Scheme where
  | artifact
  | registry
deriving DecidableEq

/-- `_LOCK_STALE_SEC`. -/
def lockStaleSec : ℚ := 60

/-- A lock directory, with the process its token names.  Who made it is not written down
anywhere: it is here for the proofs. -/
structure LockDir (κ : Type) where
  maker : κ
  token : Option ℕ
  mtime : ℚ

/-- Where a caller is, by the step it takes next. -/
inductive Phase where
  | idle
  /-- `lock_dir.mkdir()`. -/
  | acquiring
  /-- `reclaim_guard.mkdir()`. -/
  | guarding
  /-- `lock_dir.stat()`. -/
  | statting
  /-- `_can_reclaim_lock`, with the age it saw. -/
  | judging (age : ℚ)
  /-- `shutil.rmtree(lock_dir)`, the token first; `found` says whether there was one to read. -/
  | emptying (found : Bool)
  | removing (found : Bool)
  /-- `lock_dir.mkdir()` once more. -/
  | remaking
  /-- `_write_lock_token`. -/
  | signing (reclaimed : Bool)
  /-- `reclaim_guard.rmdir()`. -/
  | unguarding (won : Bool)
  /-- The acquire has returned. -/
  | acquired
  | inside
  /-- `_is_lock_owner`. -/
  | checking
  /-- `_lock_token_path(lock_dir).unlink()`. -/
  | unlinking
  /-- `lock_dir.rmdir()`. -/
  | leaving
deriving DecidableEq

/-- The phases in which the directory a caller has made should stand. -/
def Phase.holding : Phase → Bool
  | .signing _ | .unguarding true | .acquired | .inside | .checking | .unlinking | .leaving => true
  | _ => false

/-- The phases between acquiring the lock and having released it. -/
def Phase.within : Phase → Bool
  | .acquired | .inside | .checking | .unlinking | .leaving => true
  | _ => false

/-- The phases in which a reclaimer of the registry's lock has the guard. -/
def Phase.guarded : Phase → Bool
  | .statting | .judging _ | .emptying _ | .removing _ | .remaking | .signing true | .unguarding _ => true
  | _ => false

/-- A reclaimer that has read the token of a dead process. -/
def Phase.sure : Phase → Bool
  | .emptying true | .removing true => true
  | _ => false

structure LockWorld (κ : Type) where
  now : ℚ
  alive : ℕ → Bool
  lock : Option (LockDir κ)
  /-- The guard directory, and who made it. -/
  guard : Option κ
  phase : κ → Phase

variable {κ : Type} [DecidableEq κ]

/-! ### The helpers -/

/-- `_read_lock_token`: the process it names, if it can be read. -/
def readLockToken (lock : Option (LockDir κ)) : Option ℕ := lock.bind (·.token)

/-- `_can_reclaim_lock`. -/
def canReclaimLock (alive : ℕ → Bool) (age : ℚ) (token : Option ℕ) : Bool :=
  if age ≤ lockStaleSec then false
  else
    match token with
    | none => true
    | some pid => !alive pid

/-- `_is_lock_owner`. -/
def isLockOwner (pid : ℕ) (token : Option ℕ) : Bool :=
  match token with
  | none => true
  | some p => p = pid

namespace LockWorld

def moved (w : LockWorld κ) (k : κ) (phase : Phase) : LockWorld κ :=
  { w with phase := Function.update w.phase k phase }

def mkdirLock (w : LockWorld κ) (k : κ) : LockWorld κ := { w with lock := some ⟨k, none, w.now⟩ }

/-- `_write_lock_token`, into whatever directory stands there. -/
def putToken (w : LockWorld κ) (pid : ℕ) : LockWorld κ :=
  { w with lock := w.lock.map fun d =>
      { d with token := some pid, mtime := if d.token.isNone then w.now else d.mtime } }

def dropToken (w : LockWorld κ) : LockWorld κ :=
  { w with lock := w.lock.map fun d =>
      { d with token := none, mtime := if d.token.isNone then d.mtime else w.now } }

/-- `lock_dir.rmdir()` removes an empty directory only. -/
def rmdirLock (w : LockWorld κ) : LockWorld κ := { w with lock := w.lock.filter fun d => d.token.isSome }

end LockWorld

/-! ### The steps of a caller -/

/-- `_reclaim_registry_lock` returns `False`, or `_acquire_artifact_lock` raises. -/
def refused : Scheme → Phase
  | .artifact => .idle
  | .registry => .unguarding false

/-- Where a `shutil.rmtree` that fails leads: only the artifacts' ignores errors. -/
def rmtreeFails : Scheme → Phase
  | .artifact => .remaking
  | .registry => refused .registry

/-- Where the lock leads once it has its token. -/
def signed (scheme : Scheme) (reclaimed : Bool) : Phase :=
  if scheme = .registry ∧ reclaimed = true then .unguarding true else .acquired

def unguarded (won : Bool) : Phase := if won then .acquired else .idle

/-- `_can_reclaim_lock` of a token that may not be readable. -/
def judged (scheme : Scheme) (w : LockWorld κ) (age : ℚ) (token : Option ℕ) : Phase :=
  if canReclaimLock w.alive age token then .emptying token.isSome else refused scheme

/-- The next file system step of a caller. -/
def go (scheme : Scheme) (pidOf : κ → ℕ) (k : κ) (w : LockWorld κ) : Option (LockWorld κ) :=
  match w.phase k, w.lock with
  | .acquiring, none => some ((w.mkdirLock k).moved k (.signing false))
  | .acquiring, some _ =>
      some (w.moved k (match scheme with | .artifact => .statting | .registry => .guarding))
  | .guarding, _ =>
      some (if w.guard.isNone then { w with guard := some k }.moved k .statting else w.moved k .idle)
  | .statting, none =>
      some (w.moved k (match scheme with | .artifact => .judging 0 | .registry => .remaking))
  | .statting, some d => some (w.moved k (.judging (w.now - d.mtime)))
  | .judging age, lock => some (w.moved k (judged scheme w age (readLockToken lock)))
  | .emptying _, none => some (w.moved k (rmtreeFails scheme))
  | .emptying found, some _ => some (w.dropToken.moved k (.removing found))
  | .removing _, none => some (w.moved k (rmtreeFails scheme))
  | .removing _, some d =>
      some (if d.token.isNone then { w with lock := none }.moved k .remaking else w.moved k (rmtreeFails scheme))
  | .remaking, none => some ((w.mkdirLock k).moved k (.signing true))
  | .remaking, some _ => some (w.moved k (refused scheme))
  | .signing reclaimed, _ => some ((w.putToken (pidOf k)).moved k (signed scheme reclaimed))
  | .unguarding won, _ => some ({ w with guard := none }.moved k (unguarded won))
  | .checking, lock =>
      some (w.moved k (if isLockOwner (pidOf k) (readLockToken lock) then .unlinking else .idle))
  | .unlinking, _ => some (w.dropToken.moved k .leaving)
  | .leaving, _ => some (w.rmdirLock.moved k .idle)
  | .idle, _ | .acquired, _ | .inside, _ => none

/-- The next step of a caller fails with an `OSError`.  A token that cannot be read or
written is taken for none, and what cannot be removed stays. -/
def err (scheme : Scheme) (k : κ) (w : LockWorld κ) : Option (LockWorld κ) :=
  match w.phase k with
  | .acquiring | .guarding => some (w.moved k .idle)
  | .statting => some (w.moved k (match scheme with | .artifact => .judging 0 | .registry => refused .registry))
  | .judging age => some (w.moved k (judged scheme w age none))
  | .emptying _ | .removing _ => some (w.moved k (rmtreeFails scheme))
  | .remaking => some (w.moved k (refused scheme))
  | .signing reclaimed => some (w.moved k (signed scheme reclaimed))
  | .unguarding won => some (w.moved k (unguarded won))
  | .checking => some (w.moved k .unlinking)
  | .unlinking | .leaving => some (w.moved k .idle)
  | .idle | .acquired | .inside => none

/-- What `json.loads` makes of a file. -/
inductive JsonFile (α : Type) where
  | missing
  | malformed
  | parsed (value : α)

/-! ### The mutex -/

inductive LockEvent (κ : Type) where
  | tick (d : ℚ)
  | crash (pid : ℕ)
  | spawn (pid : ℕ)
  | call (k : κ)
  | go (k : κ)
  | err (k : κ)

def lockStep (scheme : Scheme) (pidOf : κ → ℕ) : LockEvent κ → LockWorld κ → Option (LockWorld κ)
  | .tick d, w => if 0 ≤ d then some { w with now := w.now + d } else none
  | .crash pid, w =>
      some { w with
        alive := Function.update w.alive pid false
        phase := fun k => if pidOf k = pid then .idle else w.phase k }
  | .spawn pid, w => some { w with alive := Function.update w.alive pid true }
  | .call k, w => if w.alive (pidOf k) ∧ w.phase k = .idle then some (w.moved k .acquiring) else none
  | .go k, w => go scheme pidOf k w
  | .err k, w => err scheme k w

/-- The lock as a mutex: a caller enters when its acquire has returned, and leaves by
starting the release. -/
def dirLock (scheme : Scheme) (pidOf : κ → ℕ) : Sections.Mutex κ (LockWorld κ) (LockEvent κ) where
  step := lockStep scheme pidOf
  enter k w := if w.phase k = .acquired then some (w.moved k .inside) else none
  leave k w := if w.phase k = .inside then some (w.moved k .checking) else none
  inside w k := w.phase k = .inside

end CyClaw.Locks

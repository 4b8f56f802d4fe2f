/-
The ways through the operations of a manager.

`Shape` says what a call looks like at each point it comes to when no statement raises but
an `INSERT` whose key is taken: what it has written by the time it commits (`Txn`), and
what it has read and committed by the time it returns (`Ended`).  `shape` checks this on
the text of every operation, once; what follows for runs is read off `Txn` and `Ended`.
Where it is enough to know which statements a call may make, `makes_body` says so.

A call normally ends with nothing pending.  Two ends leave writes in the open transaction:
a session id that is taken, and a rehash that the password policy refuses.  `Left` lists
what such a call can leave.
-/
import CyClaw.Auth.Manager
import CyClaw.Lib.CallPaths

namespace CyClaw.Auth

open Transactions

/-! ### Assertions on statements -/

section Statements

variable {Q : Write → Prop}

theorem writes_query {q : Query} {k : q.Res → Body} (h : ∀ r, Writes Q (k r)) :
    Writes Q (query q k) := by
  intro x
  cases x with
  | ok r => exact h r
  | error e => trivial

theorem writes_execute {w : Write} {k : Nat → Body} (hw : Q w) (h : ∀ n, Writes Q (k n)) :
    Writes Q (execute w k) := by
  refine ⟨hw, ?_⟩
  intro x
  cases x with
  | ok n => exact h n
  | error e => trivial

theorem writes_commit {k : Body} (h : Writes Q k) : Writes Q (commit k) := by
  intro x
  cases x with
  | ok u => exact h
  | error e => trivial

theorem writes_rollbackFrom {taken : Body} (h : Writes Q taken) (e : DbError) :
    Writes Q (rollbackFrom taken e) := by
  show Writes Q (if e = .unique then taken else raise (.database e))
  by_cases he : e = .unique
  · rw [if_pos he]
    exact h
  · rw [if_neg he]
    trivial

theorem writes_commitOrRollback {w : Write} {taken k : Body} (hw : Q w) (htaken : Writes Q taken)
    (hk : Writes Q k) : Writes Q (commitOrRollback w taken k) := by
  refine ⟨hw, ?_⟩
  intro x
  cases x with
  | error e => exact writes_rollbackFrom htaken e
  | ok n =>
      intro y
      cases y with
      | error e => exact writes_rollbackFrom htaken e
      | ok u => exact hk

theorem writes_checked {α : Type} {x : Except PolicyError α} {k : α → Body}
    (h : ∀ a, x = .ok a → Writes Q (k a)) : Writes Q (checked x k) := by
  cases x with
  | ok a => exact h a rfl
  | error e => trivial

variable {raises : Write → DbError → Prop} {P : Assertion authDb Outcome}
  {rs : List (Read authDb)} {ws : List (Write × Nat)} {ks : List (List (Write × Nat))}

theorem always_query {q : Query} {k : q.Res → Body} (h : P rs ws ks (query q k))
    (hk : ∀ t T, Always raises P (k (q.ask T)) (rs ++ [⟨t, q, q.ask T⟩]) ws ks) :
    Always raises P (query q k) rs ws ks :=
  ⟨h, hk⟩

theorem always_execute {w : Write} {k : Nat → Body} (h : P rs ws ks (execute w k))
    (hk : ∀ T n T', w.apply T = .ok (n, T') → Always raises P (k n) rs (ws ++ [(w, n)]) ks)
    (he : ∀ e, raises w e → P rs ws ks (raise (.database e))) :
    Always raises P (execute w k) rs ws ks :=
  ⟨h, hk, he⟩

theorem always_commit {k : Body} (h : P rs ws ks (commit k))
    (hk : Always raises P k rs [] (ks ++ [ws])) : Always raises P (commit k) rs ws ks :=
  ⟨h, hk⟩

theorem always_checked {α : Type} {x : Except PolicyError α} {k : α → Body}
    (hk : ∀ a, x = .ok a → Always raises P (k a) rs ws ks)
    (he : ∀ e, P rs ws ks (raise (.policy e))) : Always raises P (checked x k) rs ws ks := by
  cases x with
  | ok a => exact hk a rfl
  | error e => exact he e

end Statements

/-! ### What calls write -/

/-- The statements a call may make, as far as they name an account or a label. -/
def Call.makes (env : Env) (c : Call) : Write → Prop
  | .users (.insert row) =>
      (∃ u p role, c.op = .createUser u p role ∧ validateUsername env u = .ok row.username) ∨
        c.op = .bootstrapIfEmpty ∧ row.username = bootstrapUsername
  | .users (.delete v) => ∃ u, c.op = .deleteUser u ∧ v = canonical env u
  | .users (.setDisabled d v) => d = false ∧ ∃ u, c.op = .enableUser u ∧ v = canonical env u
  | .tokens (.insert row) => ∃ u l, c.op = .createDeviceToken u l ∧
      row = tokenRow env c (canonical env u) (tokenLabel l)
  | .tokens (.revoke v l) => ∃ u, c.op = .revokeDeviceToken u l ∧ v = canonical env u
  | .tokens (.revokeForUser v) => ∃ u, (c.op = .deleteUser u ∨ c.op = .disableUser u) ∧ v = canonical env u
  | _ => True

section Makes

variable {env : Env} {c : Call} {u : Text}

/-- The two operations that take an account away. -/
theorem makes_remove {w : UserWrite} {action : String} (hw : c.makes env (.users w))
    (hop : c.op = .deleteUser u ∨ c.op = .disableUser u) :
    Writes (c.makes env) (execute (.users w) fun n =>
      if n = 0 then raiseGuardedWriteError (canonical env u) action
      else
        execute (.sessions (.revokeForUser (canonical env u))) fun _ =>
          execute (.tokens (.revokeForUser (canonical env u))) fun _ => commit (give .done)) := by
  refine writes_execute hw fun n => ?_
  split
  · exact writes_query fun row => writes_commit (by cases row <;> exact trivial)
  · refine writes_execute trivial fun _ => ?_
    exact writes_execute ⟨u, hop, rfl⟩ fun _ => writes_commit trivial

theorem makes_body (env : Env) (c : Call) : Writes (c.makes env) (c.body env) := by
  obtain ⟨op, cfg, now, draw⟩ := c
  cases op with
  | createUser u p role =>
      refine writes_checked fun name hname => writes_checked fun r _ => writes_checked fun record _ => ?_
      refine writes_query fun row => ?_
      cases row with
      | some row => exact writes_commit trivial
      | none => exact writes_commitOrRollback (Or.inl ⟨u, p, role, rfl, hname⟩) trivial trivial
  | bootstrapIfEmpty =>
      refine writes_query fun n => ?_
      split
      · exact writes_commit trivial
      · refine writes_checked fun record _ => ?_
        exact writes_commitOrRollback (Or.inr ⟨rfl, rfl⟩) trivial trivial
  | deleteUser u => exact makes_remove ⟨u, rfl, rfl⟩ (Or.inl rfl)
  | disableUser u => exact makes_remove trivial (Or.inr rfl)
  | enableUser u =>
      refine writes_execute ⟨rfl, u, rfl, rfl⟩ fun n => ?_
      split
      · exact writes_commit trivial
      · exact writes_execute trivial fun _ => writes_commit trivial
  | createDeviceToken u l =>
      refine writes_query fun row => ?_
      cases row with
      | none => exact writes_commit trivial
      | some row =>
          refine writes_query fun taken => ?_
          cases taken with
          | some row => exact writes_commit trivial
          | none => exact writes_commitOrRollback ⟨u, l, rfl, rfl⟩ trivial trivial
  | revokeDeviceToken u l => exact writes_execute ⟨u, rfl, rfl⟩ fun n => writes_commit trivial
  | _ =>
      simp only [Call.body, ensureSchema, close, getUser, listUsers, countEnabledAdmins, setRole,
        raiseGuardedWriteError, setPassword, needsPasswordSetup, bootstrapSetPassword, login, recordFailure,
        claimAndMint, createSession, validateSession, rotateCsrf, withLiveSession, logout, verifyDeviceToken,
        listDeviceTokens, endReadTxn]
      repeat' first
        | exact trivial
        | refine writes_query ?_
        | refine writes_execute ?_ ?_
        | refine writes_commit ?_
        | refine writes_commitOrRollback ?_ ?_ ?_
        | refine writes_checked ?_
        | intro x
        | split

end Makes

/-! ### Transactions -/

/-- Operations whose one write moves no account in or out of service and issues no session. -/
def Op.routine : Op → Bool
  | .bootstrapIfEmpty | .createUser .. | .deleteUser _ | .disableUser _ | .enableUser _
  | .setPassword .. | .bootstrapSetPassword _ | .login .. => false
  | _ => true

def Write.routine : Write → Bool
  | .users .promoteBootstrap | .users (.setRole _ _) => true
  | .users _ => false
  | .sessions w => w.updates
  | .tokens _ => true

/-- What a call can have written by the time it commits. -/
inductive Txn (env : Env) (c : Call) : List (Write × Nat) → Prop
  | reads : Txn env c []
  /-- A statement whose `WHERE` clause found no row. -/
  | missed (w : Write) : Txn env c [(w, 0)]
  | routine (w : Write) (n : Nat) (hop : c.op.routine = true) (hw : w.routine = true) :
      Txn env c [(w, n)]
  | bootstrap (record : Text) (hop : c.op = .bootstrapIfEmpty)
      (hrecord : isPendingPasswordRecord record = true) :
      Txn env c
        [(.users (.insert ⟨bootstrapUsername, record, c.now, false, none, 0, none, .admin⟩), 1)]
  | create (row : User) (u p role : Text) (hop : c.op = .createUser u p role) :
      Txn env c [(.users (.insert row), 1)]
  | remove (w : UserWrite) (u : Text) (n a b : Nat) (hop : c.op = .deleteUser u ∨ c.op = .disableUser u)
      (hw : w = .delete (canonical env u) ∨ w = .disable (canonical env u)) (hn : 0 < n) :
      Txn env c
        [(.users w, n), (.sessions (.revokeForUser (canonical env u)), a),
          (.tokens (.revokeForUser (canonical env u)), b)]
  | enable (u : Text) (n a : Nat) (hop : c.op = .enableUser u) (hn : 0 < n) :
      Txn env c
        [(.users (.setDisabled false (canonical env u)), n),
          (.users (.resetLockout (canonical env u)), a)]
  | password (u p record : Text) (n a b : Nat) (hop : c.op = .setPassword u p)
      (hrecord : hashPassword env c.draw.salt p = .ok record) (hn : 0 < n) :
      Txn env c
        [(.users (.setPassword record (canonical env u)), n),
          (.sessions (.revokeForUser (canonical env u)), a),
          (.users (.resetLockout (canonical env u)), b)]
  | firstPassword (p record pending : Text) (n a b : Nat) (hop : c.op = .bootstrapSetPassword p)
      (hrecord : hashPassword env c.draw.salt p = .ok record)
      (hpending : isPendingPasswordRecord pending = true) (hn : 0 < n) :
      Txn env c
        [(.users (.claimBootstrapPassword record bootstrapUsername pending), n),
          (.users (.resetLockout bootstrapUsername), a),
          (.sessions (.revokeForUser bootstrapUsername), b),
          (.sessions (.insert (sessionRow env c bootstrapUsername)), 1)]
  | failure (u p : Text) (row : User) (n : Nat) (hop : c.op = .login u p) :
      Txn env c
        [(.users (.loginFailure (row.failedCount + 1) (nextLockUntil (row.failedCount + 1) c.now)
          (canonical env u)), n)]
  | login (u p hash : Text) (rehash : List (Write × Nat)) (n : Nat) (hop : c.op = .login u p)
      (hrehash : rehash = [] ∨ ∃ record k, rehash = [(.users (.setPassword record (canonical env u)), k)])
      (hn : 0 < n) :
      Txn env c
        ((.users (.claimLogin c.now (canonical env u) hash), n) ::
          (rehash ++ [(.sessions (.insert (sessionRow env c (canonical env u))), 1)]))

/-! ### Returns -/

theorem read_inj {t t' : Nat} {q : Query} {res res' : q.Res}
    (h : (⟨t, q, res⟩ : Read authDb) = ⟨t', q, res'⟩) : res = res' := by
  injection h

/-- Every user row the call has read is that of `u`. -/
def OnlyUser (u : Text) (rs : List (Read authDb)) : Prop :=
  ∀ rd ∈ rs, ∀ v, rd.query = .getUser v → v = u

/-- The call found the session live. -/
def SawLive (env : Env) (sid : Text) (rs : List (Read authDb)) : Prop :=
  sid ≠ [] ∧ ∃ (t : Nat) (s : Session), s.revoked = false ∧
    (⟨t, .getSession (env.hashToken sid), (some s : Option Session)⟩ : Read authDb) ∈ rs

/-- The call found the session gone or revoked, or revoked it. -/
def SawDead (env : Env) (sid : Text) (rs : List (Read authDb)) (ks : List (List (Write × Nat))) :
    Prop :=
  sid = [] ∨
  (ks ≠ [] ∧ ∃ (t : Nat) (res : Option Session), (∀ s, res = some s → s.revoked = true) ∧
    (⟨t, .getSession (env.hashToken sid), res⟩ : Read authDb) ∈ rs) ∨
  ∃ n, (.sessions (.revoke (env.hashToken sid)), n) ∈ ks.flatten

/-- Login rejects the password, or the account is disabled. -/
def rejects (env : Env) (row : User) (p : Text) : Bool :=
  row.disabled || !(verifyPassword env p row.passwordHash).1

/-- The failure that a rejected login records. -/
def failureWrite (env : Env) (c : Call) (u : Text) (row : User) : Write :=
  .users (.loginFailure (row.failedCount + 1) (nextLockUntil (row.failedCount + 1) c.now)
    (canonical env u))

/-- Values that neither hand out nor judge a credential. -/
def plain : Outcome → Bool
  | .ok (.login _) | .ok (.session _) | .ok (.csrf _) | .ok (.token _) | .ok (.owner (some _)) => false
  | .error .loginFailed => false
  | _ => true

/-- What a call has read and committed by the time it returns. -/
inductive Ended (raises : Write → DbError → Prop) (env : Env) (c : Call) (rs : List (Read authDb))
    (ks : List (List (Write × Nat))) : Outcome → Prop
  | plain (a : Outcome) (ha : plain a = true) (hop : ∀ p, c.op ≠ .bootstrapSetPassword p) :
      Ended raises env c rs ks a
  | login (u p : Text) (hop : c.op = .login u p)
      (hks : (.sessions (.insert (sessionRow env c (canonical env u))), 1) ∈ ks.flatten)
      (hrs : OnlyUser (canonical env u) rs) :
      Ended raises env c rs ks (.ok (.login (loginResult c (canonical env u))))
  | loginFailed (u p : Text) (hop : c.op = .login u p)
      (hks : ∀ (t : Nat) (row : User), rejects env row p = true →
        (⟨t, .getUser (canonical env u), (some row : Option User)⟩ : Read authDb) ∈ rs →
        ∃ n, ks = [[(failureWrite env c u row, n)]]) :
      Ended raises env c rs ks (.error .loginFailed)
  | firstPassword (p : Text) (hop : c.op = .bootstrapSetPassword p)
      (hks : ∃ record pending n, 0 < n ∧ hashPassword env c.draw.salt p = .ok record ∧
        (.users (.claimBootstrapPassword record bootstrapUsername pending), n) ∈ ks.flatten ∧
        (.sessions (.insert (sessionRow env c bootstrapUsername)), 1) ∈ ks.flatten)
      (hrs : OnlyUser bootstrapUsername rs) :
      Ended raises env c rs ks (.ok (.login (loginResult c bootstrapUsername)))
  | firstTaken (p : Text) (hop : c.op = .bootstrapSetPassword p) (hks : ∀ x ∈ ks.flatten, x.2 = 0) :
      Ended raises env c rs ks (.error (.bootstrapComplete bootstrapUsername))
  | firstPolicy (p : Text) (e : PolicyError) (hop : c.op = .bootstrapSetPassword p)
      (hp : validatePassword p = .error e) (hrs : rs = []) (hks : ks = []) :
      Ended raises env c rs ks (.error (.policy e))
  | firstRaised (p : Text) (row : Session) (e : DbError) (hop : c.op = .bootstrapSetPassword p)
      (hraises : raises (.sessions (.insert row)) e) :
      Ended raises env c rs ks (.error (.database e))
  | sessionLive (sid : Text) (info : SessionInfo) (hop : c.op = .validateSession sid)
      (hrs : SawLive env sid rs) : Ended raises env c rs ks (.ok (.session (some info)))
  | sessionDead (sid : Text) (hop : c.op = .validateSession sid) (hrs : SawDead env sid rs ks) :
      Ended raises env c rs ks (.ok (.session none))
  | csrfLive (sid t : Text) (hop : c.op = .rotateCsrf sid) (hrs : SawLive env sid rs) :
      Ended raises env c rs ks (.ok (.csrf (some t)))
  | csrfDead (sid : Text) (hop : c.op = .rotateCsrf sid) (hrs : SawDead env sid rs ks) :
      Ended raises env c rs ks (.ok (.csrf none))
  | token (u l : Text) (hop : c.op = .createDeviceToken u l)
      (hks : (.tokens (.insert (tokenRow env c (canonical env u) (tokenLabel l))), 1) ∈ ks.flatten)
      (hrs : OnlyUser (canonical env u) rs) : Ended raises env c rs ks (.ok (.token c.draw.deviceToken))
  | owner (token u : Text) (hop : c.op = .verifyDeviceToken token)
      (hrs : ∃ (t : Nat) (row : DeviceToken), row.revoked = false ∧
        (⟨t, .getToken (env.hashToken token), (some row : Option DeviceToken)⟩ : Read authDb) ∈ rs) :
      Ended raises env c rs ks (.ok (.owner (some u)))

/-- What a call may leave pending when it returns. -/
def Left : Write → Prop
  | .users (.claimLogin ..) | .users (.setPassword ..) | .users (.claimBootstrapPassword ..)
  | .users (.resetLockout _) | .sessions (.revokeForUser _) => True
  | _ => False

/-- Which call leaves it: a login, or a first password whose session is refused. -/
def LeftBy (raises : Write → DbError → Prop) (c : Call) : Write → Prop
  | .users (.claimLogin ..) | .users (.setPassword ..) => ∃ u p, c.op = .login u p
  | .users (.claimBootstrapPassword ..) | .users (.resetLockout _) | .sessions (.revokeForUser _) =>
      (∃ p, c.op = .bootstrapSetPassword p) ∧ ∃ row e, raises (.sessions (.insert row)) e
  | _ => False

theorem LeftBy.left {raises : Write → DbError → Prop} {c : Call} {w : Write}
    (h : LeftBy raises c w) : Left w := by
  match w, h with
  | .users (.claimLogin ..), _ => trivial
  | .users (.setPassword ..), _ => trivial
  | .users (.claimBootstrapPassword ..), _ => trivial
  | .users (.resetLockout _), _ => trivial
  | .sessions (.revokeForUser _), _ => trivial

theorem LeftBy.op {raises : Write → DbError → Prop} {c : Call} {w : Write}
    (h : LeftBy raises c w) : (∃ u p, c.op = .login u p) ∨
      (∃ p, c.op = .bootstrapSetPassword p) ∧ ∃ row e, raises (.sessions (.insert row)) e := by
  match w, h with
  | .users (.claimLogin ..), h => exact Or.inl h
  | .users (.setPassword ..), h => exact Or.inl h
  | .users (.claimBootstrapPassword ..), h => exact Or.inr h
  | .users (.resetLockout _), h => exact Or.inr h
  | .sessions (.revokeForUser _), h => exact Or.inr h

/-- A failed login about to be recorded: it has read the row and done nothing else. -/
def AtFailure (env : Env) (c : Call) (rs : List (Read authDb)) (ws : List (Write × Nat))
    (ks : List (List (Write × Nat))) (w : Write) : Prop :=
  ∃ (u p : Text) (t : Nat) (row : User), c.op = .login u p ∧ ws = [] ∧ ks = [] ∧
    rs = [⟨t, .getUser (canonical env u), (some row : Option User)⟩] ∧
    isLocked row.lockedUntilTs c.now = false ∧ rejects env row p = true ∧ w = failureWrite env c u row

/-- A session about to be inserted: the call has claimed the account and inserted nothing. -/
def AtMint (env : Env) (c : Call) (ws : List (Write × Nat)) (ks : List (List (Write × Nat)))
    (row : Session) : Prop :=
  row.sessionId = env.hashToken c.draw.sessionId ∧ ks = [] ∧ (∀ x ∈ ws, x.1.inserts = false) ∧
    ((∃ u p, c.op = .login u p) ∨ (∃ p, c.op = .bootstrapSetPassword p) ∧ ∃ record pending n, 0 < n ∧
      (.users (.claimBootstrapPassword record bootstrapUsername pending), n) ∈ ws)

/-- What a call has done when it makes a write that depends on it. -/
def AtWrite (env : Env) (c : Call) (rs : List (Read authDb)) (ws : List (Write × Nat))
    (ks : List (List (Write × Nat))) : Write → Prop
  | .users (.loginFailure n until_ u) => AtFailure env c rs ws ks (.users (.loginFailure n until_ u))
  | .sessions (.insert row) => AtMint env c ws ks row
  | _ => True

theorem atWrite_routine {env : Env} {c : Call} {rs : List (Read authDb)} {ws : List (Write × Nat)}
    {ks : List (List (Write × Nat))} {w : Write} (h : w.routine = true) : AtWrite env c rs ws ks w := by
  unfold AtWrite
  split
  · cases h
  · cases h
  · trivial

/-- The operations that roll back what they have open. -/
def Op.rollsBack : Op → Bool
  | .ensureSchema | .close | .bootstrapIfEmpty | .createUser .. | .createDeviceToken .. => true
  | _ => false

/-- **What a call looks like at each point of its way.** -/
def Shape (raises : Write → DbError → Prop) (env : Env) (c : Call) : Assertion authDb Outcome :=
  fun rs ws ks p =>
    match p with
    | .ret a => Ended raises env c rs ks a ∧ ∀ x ∈ ws, LeftBy raises c x.1
    | .ask q _ => ∀ k, q = .getSession k → ws = []
    | .write w _ => AtWrite env c rs ws ks w
    | .commit _ => Txn env c ws
    | .rollback _ => c.op.rollsBack = true

/-! ### Every operation has its shape -/

section Shapes

variable {raises : Write → DbError → Prop} {env : Env} {c : Call} {rs : List (Read authDb)}
  {ws : List (Write × Nat)} {ks : List (List (Write × Nat))}

/-- Only an `INSERT` raises, and then because its key is taken. -/
def Refuses (raises : Write → DbError → Prop) : Prop :=
  ∀ w e, raises w e → w.inserts = true ∧ e = .unique

theorem ended {a : Outcome} (h : Ended raises env c rs ks a) :
    Always raises (Shape raises env c) (.ret a) rs [] ks :=
  ⟨h, by simp⟩

theorem ended_plain {a : Outcome} (ha : plain a = true) (hop : ∀ p, c.op ≠ .bootstrapSetPassword p) :
    Always raises (Shape raises env c) (.ret a) rs [] ks :=
  ended (.plain a ha hop)

theorem shape_query {q : Query} {k : q.Res → Body} (hq : (∀ s, q ≠ .getSession s) ∨ ws = [])
    (hk : ∀ t T, Always raises (Shape raises env c) (k (q.ask T)) (rs ++ [⟨t, q, q.ask T⟩]) ws ks) :
    Always raises (Shape raises env c) (query q k) rs ws ks := by
  refine always_query ?_ hk
  intro s hs
  obtain hq | hq := hq
  · exact absurd hs (hq s)
  · exact hq

/-- A statement that cannot raise. -/
theorem shape_execute (hr : Refuses raises) {w : Write} {k : Nat → Body} (hw : w.inserts = false)
    (hat : AtWrite env c rs ws ks w)
    (hk : ∀ n, Always raises (Shape raises env c) (k n) rs (ws ++ [(w, n)]) ks) :
    Always raises (Shape raises env c) (execute w k) rs ws ks := by
  refine always_execute hat (fun _ n _ _ => hk n) ?_
  intro e he
  rw [(hr w e he).1] at hw
  cases hw

theorem shape_commit {k : Body} (h : Txn env c ws)
    (hk : Always raises (Shape raises env c) k rs [] (ks ++ [ws])) :
    Always raises (Shape raises env c) (commit k) rs ws ks :=
  always_commit h hk

theorem shape_commitOrRollback (hr : Refuses raises) {w : Write} {taken k : Body}
    (hback : c.op.rollsBack = true)
    (hat : AtWrite env c rs [] ks w)
    (htxn : ∀ T n T', w.apply T = .ok (n, T') → Txn env c [(w, n)])
    (hk : ∀ T n T', w.apply T = .ok (n, T') →
      Always raises (Shape raises env c) k rs [] (ks ++ [[(w, n)]]))
    (htaken : Always raises (Shape raises env c) taken rs [] ks) :
    Always raises (Shape raises env c) (commitOrRollback w taken k) rs [] ks := by
  refine ⟨hat, ?_, ?_⟩
  · intro T n T' hT
    exact ⟨htxn T n T' hT, hk T n T' hT⟩
  · intro e he
    refine ⟨hback, ?_⟩
    rw [(hr w e he).2, if_pos rfl]
    exact htaken

theorem shape_raiseGuardedWriteError {u : Text} {action : String} {w : Write}
    (hop : ∀ p, c.op ≠ .bootstrapSetPassword p) :
    Always raises (Shape raises env c) (raiseGuardedWriteError u action) [] [(w, 0)] [] := by
  refine shape_query (Or.inl nofun) ?_
  intro t T
  refine shape_commit (.missed w) ?_
  cases hrow : (Query.getUser u).ask T with
  | none => exact ended_plain rfl hop
  | some r => exact ended_plain rfl hop

theorem shape_bootstrapIfEmpty (hr : Refuses raises) (hop : c.op = .bootstrapIfEmpty) :
    Always raises (Shape raises env c) (bootstrapIfEmpty env c.now c.draw) [] [] [] := by
  have hne : ∀ p, c.op ≠ .bootstrapSetPassword p := by simp [hop]
  refine shape_query (Or.inl nofun) ?_
  intro t T
  dsimp only
  split
  · exact shape_commit .reads (ended_plain rfl hne)
  · refine always_checked ?_ (fun e => ended_plain rfl hne)
    intro record hrecord
    refine shape_commitOrRollback hr (by rw [hop]; rfl) trivial ?_ ?_ (ended_plain rfl hne)
    · intro T n T' hT
      rw [Write.rows_of_insert rfl hT]
      exact .bootstrap record hop (hashPendingPlaceholder_pending hrecord)
    · intro T n T' hT
      exact ended_plain rfl hne

theorem shape_createUser (hr : Refuses raises) {u p role : Text} (hop : c.op = .createUser u p role) :
    Always raises (Shape raises env c) (createUser env c.now c.draw u p role) [] [] [] := by
  have hne : ∀ p, c.op ≠ .bootstrapSetPassword p := by simp [hop]
  refine always_checked ?_ (fun e => ended_plain rfl hne)
  intro canonical _
  refine always_checked ?_ (fun e => ended_plain rfl hne)
  intro r _
  refine always_checked ?_ (fun e => ended_plain rfl hne)
  intro record _
  refine shape_query (Or.inl nofun) ?_
  intro t T
  cases hrow : (Query.getUser canonical).ask T with
  | some row => exact shape_commit .reads (ended_plain rfl hne)
  | none =>
      refine shape_commitOrRollback hr (by rw [hop]; rfl) trivial ?_ ?_ (ended_plain rfl hne)
      · intro T n T' hT
        rw [Write.rows_of_insert rfl hT]
        exact .create _ u p role hop
      · intro T n T' hT
        exact ended_plain rfl hne

/-- A query, the end of its transaction, and a value. -/
theorem shape_read {q : Query} {f : q.Res → Outcome} (hq : ∀ s, q ≠ .getSession s)
    (hf : ∀ r, plain (f r) = true) (hop : ∀ p, c.op ≠ .bootstrapSetPassword p) :
    Always raises (Shape raises env c) (query q fun r => endReadTxn (.ret (f r))) [] [] [] := by
  refine shape_query (Or.inl hq) ?_
  intro t T
  exact shape_commit .reads (ended_plain (hf _) hop)

/-- One statement, a commit, and a value. -/
theorem shape_single (hr : Refuses raises) {w : Write} {f : Nat → Outcome} (hw : w.inserts = false)
    (hroutine : w.routine = true) (hf : ∀ n, plain (f n) = true) (hop : c.op.routine = true) :
    Always raises (Shape raises env c) (execute w fun n => commit (.ret (f n))) [] [] [] := by
  have hne : ∀ p, c.op ≠ .bootstrapSetPassword p := by
    intro p hp
    rw [hp] at hop
    cases hop
  refine shape_execute hr hw (atWrite_routine hroutine) ?_
  intro n
  exact shape_commit (.routine w n hop hroutine) (ended_plain (hf n) hne)

theorem shape_setRole (hr : Refuses raises) {u role : Text} (hop : c.op = .setRole u role) :
    Always raises (Shape raises env c) (setRole env u role) [] [] [] := by
  have hne : ∀ p, c.op ≠ .bootstrapSetPassword p := by simp [hop]
  refine always_checked ?_ (fun e => ended_plain rfl hne)
  intro r _
  refine shape_execute hr rfl trivial ?_
  intro n
  dsimp only
  split
  · rename_i hn
    rw [hn]
    exact shape_raiseGuardedWriteError hne
  · exact shape_commit (.routine _ n (by rw [hop]; rfl) rfl) (ended_plain rfl hne)

/-- The guarded statement and the revocations behind it, in `delete_user` and `disable_user`. -/
theorem shape_remove (hr : Refuses raises) {w : UserWrite} {u : Text} {action : String}
    (hop : c.op = .deleteUser u ∨ c.op = .disableUser u)
    (hw : w = .delete (canonical env u) ∨ w = .disable (canonical env u)) :
    Always raises (Shape raises env c)
      (execute (.users w) fun n =>
        if n = 0 then raiseGuardedWriteError (canonical env u) action
        else
          execute (.sessions (.revokeForUser (canonical env u))) fun _ =>
            execute (.tokens (.revokeForUser (canonical env u))) fun _ => commit (give .done))
      [] [] [] := by
  have hne : ∀ p, c.op ≠ .bootstrapSetPassword p := by
    intro p hp
    rw [hp] at hop
    simp at hop
  refine shape_execute hr ?_ ?_ ?_
  · obtain rfl | rfl := hw <;> rfl
  · obtain rfl | rfl := hw <;> trivial
  · intro n
    dsimp only
    split
    · rename_i hn
      rw [hn]
      exact shape_raiseGuardedWriteError hne
    · rename_i hn
      refine shape_execute hr rfl trivial (fun a => ?_)
      refine shape_execute hr rfl trivial (fun b => ?_)
      exact shape_commit (.remove w u n a b hop hw (Nat.pos_of_ne_zero hn)) (ended_plain rfl hne)

theorem shape_enableUser (hr : Refuses raises) {u : Text} (hop : c.op = .enableUser u) :
    Always raises (Shape raises env c) (enableUser env u) [] [] [] := by
  have hne : ∀ p, c.op ≠ .bootstrapSetPassword p := by simp [hop]
  refine shape_execute hr rfl trivial ?_
  intro n
  dsimp only
  split
  · rename_i hn
    rw [hn]
    exact shape_commit (.missed _) (ended_plain rfl hne)
  · rename_i hn
    refine shape_execute hr rfl trivial (fun a => ?_)
    exact shape_commit (.enable u n a hop (Nat.pos_of_ne_zero hn)) (ended_plain rfl hne)

theorem shape_setPassword (hr : Refuses raises) {u p : Text} (hop : c.op = .setPassword u p) :
    Always raises (Shape raises env c) (setPassword env c.draw u p) [] [] [] := by
  have hne : ∀ p, c.op ≠ .bootstrapSetPassword p := by simp [hop]
  refine always_checked ?_ (fun e => ended_plain rfl hne)
  intro record hrecord
  refine shape_execute hr rfl trivial ?_
  intro n
  dsimp only
  split
  · rename_i hn
    rw [hn]
    exact shape_commit (.missed _) (ended_plain rfl hne)
  · rename_i hn
    refine shape_execute hr rfl trivial (fun a => ?_)
    refine shape_execute hr rfl trivial (fun b => ?_)
    exact shape_commit (.password u p record n a b hop hrecord (Nat.pos_of_ne_zero hn))
      (ended_plain rfl hne)

/-- Minting the session: the one statement that can raise with writes pending. -/
theorem shape_createSession {u : Text} (hat : AtMint env c ws ks (sessionRow env c u))
    (htxn : Txn env c (ws ++ [(.sessions (.insert (sessionRow env c u)), 1)]))
    (hok : Ended raises env c rs (ks ++ [ws ++ [(.sessions (.insert (sessionRow env c u)), 1)]])
      (.ok (.login (loginResult c u))))
    (herr : ∀ e, raises (.sessions (.insert (sessionRow env c u))) e →
      Ended raises env c rs ks (.error (.database e)) ∧ ∀ x ∈ ws, LeftBy raises c x.1) :
    Always raises (Shape raises env c) (createSession env c u) rs ws ks := by
  refine always_execute hat ?_ ?_
  · intro T n T' hT
    rw [Write.rows_of_insert rfl hT]
    exact shape_commit htxn (ended hok)
  · intro e he
    exact herr e he

theorem shape_bootstrapSetPassword (hr : Refuses raises) {p : Text}
    (hop : c.op = .bootstrapSetPassword p) :
    Always raises (Shape raises env c) (bootstrapSetPassword env c p) [] [] [] := by
  have htaken : ∀ {rs : List (Read authDb)} {ks : List (List (Write × Nat))},
      (∀ x ∈ ks.flatten, x.2 = 0) →
      Always raises (Shape raises env c) (raise (.bootstrapComplete bootstrapUsername)) rs [] ks :=
    fun hks => ended (.firstTaken p hop hks)
  rw [bootstrapSetPassword]
  cases hrecord : hashPassword env c.draw.salt p with
  | error e =>
      refine ended (.firstPolicy p e hop ?_ rfl rfl)
      rw [hashPassword] at hrecord
      cases hvalid : validatePassword p with
      | error e' =>
          rw [hvalid] at hrecord
          rw [Except.error.inj hrecord]
      | ok x =>
          rw [hvalid] at hrecord
          cases hrecord
  | ok record =>
      refine shape_query (Or.inl fun s hs => by cases hs) ?_
      intro t T
      cases hrow : (Query.getUser bootstrapUsername).ask T with
      | none => exact shape_commit .reads (htaken (by simp))
      | some r =>
          dsimp only
          split
          · exact shape_commit .reads (htaken (by simp))
          · rename_i hpending
            rw [Bool.not_eq_false] at hpending
            refine shape_execute hr rfl trivial (fun n => ?_)
            split
            · rename_i hn
              rw [hn]
              exact shape_commit (.missed _) (htaken (by simp))
            · rename_i hn
              refine shape_execute hr rfl trivial (fun a => ?_)
              refine shape_execute hr rfl trivial (fun b => ?_)
              refine shape_createSession ?_ ?_ ?_ ?_
              · refine ⟨rfl, rfl, by simp [Write.inserts, UserWrite.updates, SessionWrite.updates],
                  Or.inr ⟨⟨p, hop⟩, record, r.passwordHash, n, Nat.pos_of_ne_zero hn, by simp⟩⟩
              · exact .firstPassword p record r.passwordHash n a b hop hrecord hpending
                  (Nat.pos_of_ne_zero hn)
              · refine .firstPassword p hop ⟨record, r.passwordHash, n, Nat.pos_of_ne_zero hn, hrecord,
                  by simp, by simp⟩ ?_
                intro rd hrd v hv
                simp only [List.nil_append, List.mem_singleton] at hrd
                rw [hrd] at hv
                simpa [eq_comm] using hv
              · intro e he
                have hby : (∃ p, c.op = .bootstrapSetPassword p) ∧
                    ∃ row e, raises (.sessions (.insert row)) e := ⟨⟨p, hop⟩, _, e, he⟩
                exact ⟨.firstRaised p _ e hop he, by simp [LeftBy, hby]⟩

theorem shape_claimAndMint (hr : Refuses raises) {u p : Text} {row : User} {needsRehash : Bool}
    {t : Nat} (hop : c.op = .login u p) (haccepts : rejects env row p = false) :
    Always raises (Shape raises env c)
      (claimAndMint env c (canonical env u) p row needsRehash)
      [⟨t, .getUser (canonical env u), (some row : Option User)⟩] [] [] := by
  have hne : ∀ p, c.op ≠ .bootstrapSetPassword p := by simp [hop]
  have hrs : OnlyUser (canonical env u)
      [⟨t, .getUser (canonical env u), (some row : Option User)⟩] := by
    intro rd hrd v hv
    rw [List.mem_singleton] at hrd
    rw [hrd] at hv
    simpa [eq_comm] using hv
  have hat : ∀ ws : List (Write × Nat), (∀ x ∈ ws, x.1.inserts = false) →
      AtMint env c ws [] (sessionRow env c (canonical env u)) :=
    fun ws hws => ⟨rfl, rfl, hws, Or.inl ⟨u, p, hop⟩⟩
  refine shape_execute hr rfl trivial (fun n => ?_)
  dsimp only
  split
  · rename_i hn
    rw [hn]
    refine shape_commit (.missed _) (ended (.loginFailed u p hop ?_))
    -- The password was right, so there is no failure to record.
    intro t' row' hrejects hmem
    rw [List.mem_singleton] at hmem
    rw [Option.some.inj (read_inj hmem), haccepts] at hrejects
    cases hrejects
  · rename_i hn
    split
    · rename_i hrehash
      refine always_checked ?_ ?_
      · intro record hrecord
        refine shape_execute hr rfl trivial (fun k => ?_)
        refine shape_createSession (hat _ (by simp [Write.inserts, UserWrite.updates])) ?_ ?_ (fun e he => ⟨.plain _ rfl hne, by simp [LeftBy, hop]⟩)
        · exact .login u p row.passwordHash _ n hop (Or.inr ⟨record, k, rfl⟩) (Nat.pos_of_ne_zero hn)
        · exact .login u p hop (by simp) hrs
      · intro e
        exact ⟨.plain _ rfl hne, by simp [LeftBy, hop]⟩
    · refine shape_createSession (hat _ (by simp [Write.inserts, UserWrite.updates])) ?_ ?_ (fun e he => ⟨.plain _ rfl hne, by simp [LeftBy, hop]⟩)
      · exact .login u p row.passwordHash [] n hop (Or.inl rfl) (Nat.pos_of_ne_zero hn)
      · exact .login u p hop (by simp) hrs

theorem shape_login (hr : Refuses raises) {u p : Text} (hop : c.op = .login u p) :
    Always raises (Shape raises env c) (login env c u p) [] [] [] := by
  have hne : ∀ p, c.op ≠ .bootstrapSetPassword p := by simp [hop]
  refine shape_query (Or.inl nofun) ?_
  intro t T
  cases hrow : (Query.getUser (canonical env u)).ask T with
  | none =>
      refine shape_commit .reads (ended (.loginFailed u p hop ?_))
      intro t' row _ hmem
      rw [List.nil_append, List.mem_singleton] at hmem
      cases read_inj hmem
  | some row =>
      dsimp only
      split
      · exact shape_commit .reads (ended_plain rfl hne)
      · rename_i hlocked
        rw [Bool.not_eq_true] at hlocked
        split
        · rename_i hrejects
          refine shape_execute hr rfl ?_ ?_
          · exact ⟨u, p, t, row, hop, rfl, rfl, rfl, hlocked, hrejects, rfl⟩
          · intro n
            refine shape_commit (.failure u p row n hop) (ended (.loginFailed u p hop ?_))
            intro t' row' _ hmem
            rw [List.nil_append, List.mem_singleton] at hmem
            exact ⟨n, by rw [Option.some.inj (read_inj hmem)]; rfl⟩
        · rename_i haccepts
          rw [Bool.not_eq_true] at haccepts
          exact shape_claimAndMint hr hop haccepts

/-- The two operations on a live session. -/
theorem shape_withLiveSession (hr : Refuses raises) {sid : Text} {dead : Value}
    {live : Session → Write × Value} (hop : c.op.routine = true)
    (hw : ∀ s, (live s).1.inserts = false ∧ (live s).1.routine = true)
    (hlive : ∀ s rs ks, SawLive env sid rs → Ended raises env c rs ks (.ok (live s).2))
    (hdead : ∀ rs ks, SawDead env sid rs ks → Ended raises env c rs ks (.ok dead)) :
    Always raises (Shape raises env c) (withLiveSession env c sid dead live) [] [] [] := by
  rw [withLiveSession]
  split
  · rename_i hnil
    exact ended (hdead _ _ (Or.inl hnil))
  · rename_i hnil
    refine shape_query (Or.inr rfl) ?_
    intro t T
    cases hrow : (Query.getSession (env.hashToken sid)).ask T with
    | none => exact shape_commit .reads (ended (hdead _ _ (Or.inr (Or.inl ⟨by simp, t, none, by simp, by simp⟩))))
    | some s =>
        dsimp only
        split
        · rename_i hrevoked
          refine shape_commit .reads (ended (hdead _ _ (Or.inr (Or.inl ⟨by simp, t, some s, ?_, by simp⟩))))
          intro s' hs'
          rw [← Option.some.inj hs']
          exact hrevoked
        · rename_i hrevoked
          rw [Bool.not_eq_true] at hrevoked
          split
          · refine shape_execute hr rfl trivial (fun n => ?_)
            refine shape_commit (.routine _ n hop rfl) (ended (hdead _ _ (Or.inr (Or.inr ⟨n, by simp⟩))))
          · refine shape_execute hr (hw s).1 (atWrite_routine (hw s).2) (fun n => ?_)
            refine shape_commit (.routine _ n hop (hw s).2) (ended (hlive s _ _ ?_))
            exact ⟨hnil, t, s, hrevoked, by simp⟩

theorem shape_createDeviceToken (hr : Refuses raises) {u l : Text}
    (hop : c.op = .createDeviceToken u l) :
    Always raises (Shape raises env c) (createDeviceToken env c u l) [] [] [] := by
  have hne : ∀ p, c.op ≠ .bootstrapSetPassword p := by simp [hop]
  refine shape_query (Or.inl nofun) ?_
  intro t T
  cases hrow : (Query.getUser (canonical env u)).ask T with
  | none => exact shape_commit .reads (ended_plain rfl hne)
  | some row =>
      refine shape_query (Or.inl nofun) ?_
      intro t' T'
      cases htaken : (Query.getLiveTokenByLabel (canonical env u) (tokenLabel l)).ask T' with
      | some row' => exact shape_commit .reads (ended_plain rfl hne)
      | none =>
          refine shape_commitOrRollback hr (by rw [hop]; rfl) trivial ?_ ?_ (ended_plain rfl hne)
          · intro T₁ n T₂ hT
            exact .routine _ n (by rw [hop]; rfl) rfl
          · intro T₁ n T₂ hT
            rw [Write.rows_of_insert rfl hT]
            refine ended (.token u l hop (by simp) ?_)
            intro rd hrd v hv
            simp only [List.nil_append, List.cons_append, List.mem_cons, List.not_mem_nil,
              or_false] at hrd
            obtain rfl | rfl := hrd
            · simpa [eq_comm] using hv
            · simp at hv

theorem shape_verifyDeviceToken (hr : Refuses raises) {token : Text}
    (hop : c.op = .verifyDeviceToken token) :
    Always raises (Shape raises env c) (verifyDeviceToken env c token) [] [] [] := by
  have hne : ∀ p, c.op ≠ .bootstrapSetPassword p := by simp [hop]
  rw [verifyDeviceToken]
  split
  · exact ended_plain rfl hne
  · refine shape_query (Or.inl nofun) ?_
    intro t T
    cases hrow : (Query.getToken (env.hashToken token)).ask T with
    | none => exact shape_commit .reads (ended_plain rfl hne)
    | some row =>
        dsimp only
        split
        · exact shape_commit .reads (ended_plain rfl hne)
        · rename_i hrevoked
          rw [Bool.not_eq_true] at hrevoked
          refine shape_execute hr rfl trivial (fun n => ?_)
          refine shape_commit (.routine _ n (by rw [hop]; rfl) rfl) (ended ?_)
          exact .owner token row.username hop ⟨t, row, hrevoked, by simp⟩

/-- **Every operation, at every point of its way.** -/
theorem shape (hr : Refuses raises) (env : Env) (c : Call) :
    Always raises (Shape raises env c) (c.body env) [] [] [] := by
  obtain ⟨op, cfg, now, draw⟩ := c
  cases op with
  | ensureSchema =>
      refine shape_commitOrRollback hr rfl trivial ?_ ?_ (ended_plain rfl nofun)
      · intro T n T' hT
        exact .routine _ n rfl rfl
      · intro T n T' hT
        exact ended_plain rfl nofun
  | close => exact ⟨rfl, ended_plain rfl nofun⟩
  | bootstrapIfEmpty => exact shape_bootstrapIfEmpty hr rfl
  | createUser u p role => exact shape_createUser hr rfl
  | getUser u => exact shape_read nofun (fun _ => rfl) nofun
  | listUsers => exact shape_read nofun (fun _ => rfl) nofun
  | countEnabledAdmins => exact shape_read nofun (fun _ => rfl) nofun
  | setRole u role => exact shape_setRole hr rfl
  | deleteUser u => exact shape_remove hr (Or.inl rfl) (Or.inl rfl)
  | disableUser u => exact shape_remove hr (Or.inr rfl) (Or.inr rfl)
  | enableUser u => exact shape_enableUser hr rfl
  | setPassword u p => exact shape_setPassword hr rfl
  | needsPasswordSetup => exact shape_read nofun (fun _ => rfl) nofun
  | bootstrapSetPassword p => exact shape_bootstrapSetPassword hr rfl
  | login u p => exact shape_login hr rfl
  | validateSession sid =>
      refine shape_withLiveSession hr rfl (fun _ => ⟨rfl, rfl⟩) ?_ ?_
      · intro s rs ks hrs
        exact .sessionLive sid _ rfl hrs
      · intro rs ks hrs
        exact .sessionDead sid rfl hrs
  | rotateCsrf sid =>
      refine shape_withLiveSession hr rfl (fun _ => ⟨rfl, rfl⟩) ?_ ?_
      · intro s rs ks hrs
        exact .csrfLive sid _ rfl hrs
      · intro rs ks hrs
        exact .csrfDead sid rfl hrs
  | logout sid =>
      show Always raises _ (logout env sid) [] [] []
      rw [logout]
      split
      · exact ended_plain rfl nofun
      · exact shape_single hr rfl rfl (fun _ => rfl) rfl
  | createDeviceToken u l => exact shape_createDeviceToken hr rfl
  | verifyDeviceToken t => exact shape_verifyDeviceToken hr rfl
  | listDeviceTokens u => exact shape_read nofun (fun _ => rfl) nofun
  | revokeDeviceToken u l => exact shape_single hr rfl rfl (fun _ => rfl) rfl

end Shapes

/-! ### Runs in which nothing raises but a taken key -/

section Runs

variable {env : Env} {M : Type} [DecidableEq M]
  {allow : Sys (authService env M) → Action (authService env M) → Prop} {T₀ : Tables}
  {σ : Sys (authService env M)} {m : M} {r : Running (authService env M)}

/-- Nothing raises from outside. -/
def quiet (_ : Sys (authService env M)) : Action (authService env M) → Bool
  | .fault _ _ => false
  | _ => true

/-- What a statement raises by itself. -/
def refused (w : Write) (e : DbError) : Prop := w.inserts = true ∧ e = .unique

theorem shape_refused (env : Env) (c : Call) :
    Always refused (Shape refused env c) (c.body env) [] [] [] :=
  @shape refused (fun _ _ h => h) env c

theorem clean_refused (hquiet : ∀ σ m e, ¬ allow σ (.fault m e)) : Clean refused allow T₀ where
  no_fault := hquiet
  refusals _ _ _ _ _ _ _ _ _ herr := Write.inserts_of_error herr

theorem running_shape (hquiet : ∀ σ m e, ¬ allow σ (.fault m e))
    (h : Later allow (Sys.idle T₀) σ) (hm : σ.running m = some r) :
    Shape refused env r.call r.reads r.pending r.kept r.prog :=
  (obeys (P := Shape refused env) (clean_refused hquiet)
    (fun _ _ c _ => shape_refused env c) h hm).here

theorem settled_left (hquiet : ∀ σ m e, ¬ allow σ (.fault m e)) (h : Later allow (Sys.idle T₀) σ) :
    Settled (fun x => Left x.1) σ := by
  refine settled (clean_refused hquiet) ?_ h
  intro _ _ c _
  refine (shape_refused env c).mono ?_
  rintro rs ws ks p hp ⟨a, rfl⟩
  intro x hx
  exact (hp.2 x hx).left

end Runs

end CyClaw.Auth

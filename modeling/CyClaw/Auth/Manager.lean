/-
The operations of `AuthManager` (`utils/authn_manager.py`), as calls on the auth database.

A manager is a client of the database: its connection holds at most one open transaction
and its lock lets one call run at a time.  Gateway, harness and command line each hold
their own manager over the one database.  What a call draws at random, what it reads from
the clock and the configuration of its manager are parameters of the call, so a run may
change them from call to call, as restarts do.

An exception leaves a call where it is raised.  Only the three operations that wrap their
`INSERT` in a handler roll back first.
-/
import CyClaw.Auth.Store

namespace CyClaw.Auth

open PyText

/-! ### What calls return and raise -/

structure LoginResult where
  username : Text
  sessionId : Text
  csrfToken : Text
  expiresTs : ℚ
deriving DecidableEq

/-- The session id is the caller's own, the CSRF field is the digest the row holds. -/
structure SessionInfo where
  sessionId : Text
  username : Text
  csrfToken : Text
deriving DecidableEq

structure UserSummary where
  username : Text
  createdTs : ℚ
  disabled : Bool
  lastLoginTs : Option ℚ
  failedCount : Nat
  lockedUntilTs : Option ℚ
  role : Role
deriving DecidableEq

structure DeviceTokenSummary where
  label : Text
  createdTs : ℚ
  lastUsedTs : Option ℚ
  revoked : Bool
deriving DecidableEq

inductive Value where
  | done
  | flag (b : Bool)
  | username (u : Text)
  | count (n : Nat)
  | user (u : Option UserSummary)
  | users (us : List UserSummary)
  | login (result : LoginResult)
  | session (info : Option SessionInfo)
  | csrf (token : Option Text)
  | token (t : Text)
  | owner (u : Option Text)
  | tokens (ts : List DeviceTokenSummary)
deriving DecidableEq

inductive AuthError where
  | policy (e : PolicyError)
  | loginFailed
  | accountLocked (username : Text) (retryAfterSec : ℚ)
  | userExists (username : Text)
  | userNotFound (username : Text)
  | lastAdmin (username : Text) (action : String)
  | bootstrapComplete (username : Text)
  | tokenLabelExists (username label : Text)
  /-- What the database raised and no handler took. -/
  | database (e : DbError)
deriving DecidableEq

def AuthError.code : AuthError → Option String
  | .policy _ => none
  | .loginFailed => some "AUTH_LOGIN_FAILED"
  | .accountLocked _ _ => some "AUTH_ACCOUNT_LOCKED"
  | .userExists _ => some "AUTH_USER_EXISTS"
  | .userNotFound _ => some "AUTH_USER_NOT_FOUND"
  | .lastAdmin _ _ => some "AUTH_LAST_ADMIN"
  | .bootstrapComplete _ => some "AUTH_BOOTSTRAP_COMPLETE"
  | .tokenLabelExists _ _ => some "AUTH_TOKEN_LABEL_EXISTS"
  | .database _ => none

def AuthError.message (env : Env) : AuthError → Option Text
  | .policy e => some e.message.toList
  | .loginFailed => some "invalid username or password".toList
  | .accountLocked _ retry =>
      some ("account temporarily locked, retry in ".toList ++ (toString (retry.floor + 1)).toList ++
        "s".toList)
  | .userExists u => some ("user already exists: ".toList ++ u)
  | .userNotFound u => some ("unknown user: ".toList ++ u)
  | .lastAdmin _ _ => some "cannot modify the last enabled admin".toList
  | .bootstrapComplete _ => some "admin password is already set".toList
  | .tokenLabelExists u l =>
      some ("a live token labelled ".toList ++ env.repr l ++ " already exists for ".toList ++ u)
  | .database _ => none

abbrev Outcome := Except AuthError Value

abbrev Body := Transactions.Prog authDb Outcome

/-! ### Calls -/

structure Config where
  idleTimeoutSec : ℚ := 43200
  absoluteTimeoutSec : ℚ := 604800
deriving DecidableEq

/-- What a call draws from `secrets`. -/
structure Draw where
  salt : Bytes
  secret : Text
  sessionId : Text
  csrfToken : Text
  deviceToken : Text
deriving DecidableEq

inductive Op where
  | ensureSchema
  | close
  | bootstrapIfEmpty
  | createUser (username password role : Text)
  | getUser (username : Text)
  | listUsers
  | countEnabledAdmins
  | setRole (username role : Text)
  | deleteUser (username : Text)
  | disableUser (username : Text)
  | enableUser (username : Text)
  | setPassword (username password : Text)
  | needsPasswordSetup
  | bootstrapSetPassword (password : Text)
  | login (username password : Text)
  | validateSession (sessionId : Text)
  | rotateCsrf (sessionId : Text)
  | logout (sessionId : Text)
  | createDeviceToken (username label : Text)
  | verifyDeviceToken (token : Text)
  | listDeviceTokens (username : Text)
  | revokeDeviceToken (username label : Text)
deriving DecidableEq

structure Call where
  op : Op
  cfg : Config
  now : ℚ
  draw : Draw
deriving DecidableEq

/-! ### Statements -/

def raise (e : AuthError) : Body := .ret (.error e)

def give (v : Value) : Body := .ret (.ok v)

def query (q : Query) (k : q.Res → Body) : Body :=
  .ask q fun
    | .ok res => k res
    | .error e => raise (.database e)

def execute (w : Write) (k : Nat → Body) : Body :=
  .write w fun
    | .ok n => k n
    | .error e => raise (.database e)

def commit (k : Body) : Body :=
  .commit fun
    | .ok () => k
    | .error e => raise (.database e)

/-- `_end_read_txn` -/
def endReadTxn (k : Body) : Body := commit k

/-- The handler of the operations that make one write and commit it: roll back, then tell
a taken key from everything else. -/
def rollbackFrom (taken : Body) (e : DbError) : Body :=
  .rollback (if e = .unique then taken else raise (.database e))

def commitOrRollback (w : Write) (taken k : Body) : Body :=
  .write w fun
    | .error e => rollbackFrom taken e
    | .ok _ =>
        .commit fun
          | .error e => rollbackFrom taken e
          | .ok () => k

def checked {α : Type} (x : Except PolicyError α) (k : α → Body) : Body :=
  match x with
  | .ok a => k a
  | .error e => raise (.policy e)

/-! ### Accounts -/

/-- `_ensure_schema`; a manager that cannot be built drops its connection. -/
def ensureSchema : Body :=
  commitOrRollback (.users .promoteBootstrap) (raise (.database .unique)) (give .done)

/-- Closing a connection drops what it has open. -/
def close : Body := .rollback (give .done)

def bootstrapIfEmpty (env : Env) (now : ℚ) (draw : Draw) : Body :=
  query .countUsers fun (n : Nat) =>
    if 0 < n then endReadTxn (give (.flag false))
    else
      checked (hashPendingPlaceholder env draw.salt draw.secret) fun record =>
        commitOrRollback
          (.users (.insert ⟨bootstrapUsername, record, now, false, none, 0, none, .admin⟩))
          (give (.flag false)) (give (.flag true))

def createUser (env : Env) (now : ℚ) (draw : Draw) (username password role : Text) : Body :=
  checked (validateUsername env username) fun canonical =>
    checked (validateRole env role) fun role =>
      checked (hashPassword env draw.salt password) fun record =>
        query (.getUser canonical) fun existing =>
          match existing with
          | some _ => endReadTxn (raise (.userExists canonical))
          | none =>
              commitOrRollback
                (.users (.insert ⟨canonical, record, now, false, none, 0, none, role⟩))
                (raise (.userExists canonical)) (give (.username canonical))

/-- `_summary_from_row` -/
def summaryFromRow (r : User) : UserSummary :=
  ⟨r.username, r.createdTs, r.disabled, r.lastLoginTs, r.failedCount, r.lockedUntilTs, r.role⟩

def getUser (env : Env) (username : Text) : Body :=
  query (.getUser (canonical env username)) fun row =>
    endReadTxn (give (.user (Option.map summaryFromRow row)))

def listUsers : Body :=
  query .listUsers fun rows => endReadTxn (give (.users (List.map summaryFromRow rows)))

def countEnabledAdmins : Body :=
  query .countEnabledAdmins fun n => endReadTxn (give (.count n))

/-- `_raise_guarded_write_error_locked` -/
def raiseGuardedWriteError (canonical : Text) (action : String) : Body :=
  query (.getUser canonical) fun row =>
    endReadTxn <|
      match row with
      | none => raise (.userNotFound canonical)
      | some _ => raise (.lastAdmin canonical action)

def setRole (env : Env) (username role : Text) : Body :=
  checked (validateRole env role) fun role =>
    execute (.users (.setRole role (canonical env username))) fun n =>
      if n = 0 then raiseGuardedWriteError (canonical env username) "set_role"
      else commit (give .done)

def deleteUser (env : Env) (username : Text) : Body :=
  execute (.users (.delete (canonical env username))) fun n =>
    if n = 0 then raiseGuardedWriteError (canonical env username) "delete_user"
    else
      execute (.sessions (.revokeForUser (canonical env username))) fun _ =>
        execute (.tokens (.revokeForUser (canonical env username))) fun _ => commit (give .done)

/-- `_set_disabled`, with `disabled` true. -/
def disableUser (env : Env) (username : Text) : Body :=
  execute (.users (.disable (canonical env username))) fun n =>
    if n = 0 then raiseGuardedWriteError (canonical env username) "disable_user"
    else
      execute (.sessions (.revokeForUser (canonical env username))) fun _ =>
        execute (.tokens (.revokeForUser (canonical env username))) fun _ => commit (give .done)

/-- `_set_disabled`, with `disabled` false. -/
def enableUser (env : Env) (username : Text) : Body :=
  execute (.users (.setDisabled false (canonical env username))) fun n =>
    if n = 0 then commit (raise (.userNotFound (canonical env username)))
    else
      execute (.users (.resetLockout (canonical env username))) fun _ => commit (give .done)

def setPassword (env : Env) (draw : Draw) (username password : Text) : Body :=
  checked (hashPassword env draw.salt password) fun record =>
    execute (.users (.setPassword record (canonical env username))) fun n =>
      if n = 0 then commit (raise (.userNotFound (canonical env username)))
      else
        execute (.sessions (.revokeForUser (canonical env username))) fun _ =>
          execute (.users (.resetLockout (canonical env username))) fun _ => commit (give .done)

def needsPasswordSetup : Body :=
  query (.getUser bootstrapUsername) fun (row : Option User) =>
    endReadTxn (give (.flag (row.any fun r => isPendingPasswordRecord r.passwordHash)))

/-! ### Login and sessions -/

/-- The row that `_create_session_locked` inserts; both secrets are stored as digests. -/
def sessionRow (env : Env) (c : Call) (username : Text) : Session :=
  ⟨env.hashToken c.draw.sessionId, username, env.hashToken c.draw.csrfToken, c.now, c.now,
    c.now + c.cfg.absoluteTimeoutSec, false⟩

def loginResult (c : Call) (username : Text) : LoginResult :=
  ⟨username, c.draw.sessionId, c.draw.csrfToken, c.now + c.cfg.absoluteTimeoutSec⟩

/-- `_create_session_locked`, and the commit that follows it in both callers. -/
def createSession (env : Env) (c : Call) (username : Text) : Body :=
  execute (.sessions (.insert (sessionRow env c username))) fun _ =>
    commit (give (.login (loginResult c username)))

def bootstrapSetPassword (env : Env) (c : Call) (password : Text) : Body :=
  checked (hashPassword env c.draw.salt password) fun record =>
    query (.getUser bootstrapUsername) fun row =>
      match row with
      | none => endReadTxn (raise (.bootstrapComplete bootstrapUsername))
      | some (r : User) =>
          if isPendingPasswordRecord r.passwordHash = false then
            endReadTxn (raise (.bootstrapComplete bootstrapUsername))
          else
            execute (.users (.claimBootstrapPassword record bootstrapUsername r.passwordHash)) fun n =>
              if n = 0 then endReadTxn (raise (.bootstrapComplete bootstrapUsername))
              else
                execute (.users (.resetLockout bootstrapUsername)) fun _ =>
                  execute (.sessions (.revokeForUser bootstrapUsername)) fun _ =>
                    createSession env c bootstrapUsername

/-- `_record_failure_locked` -/
def recordFailure (username : Text) (failedCount : Nat) (now : ℚ) (k : Body) : Body :=
  execute (.users (.loginFailure (failedCount + 1) (nextLockUntil (failedCount + 1) now) username))
    fun _ => commit k

/-- `login` once the password is known to be right: claim the row, then mint the session. -/
def claimAndMint (env : Env) (c : Call) (canonical password : Text) (row : User)
    (needsRehash : Bool) : Body :=
  execute (.users (.claimLogin c.now canonical row.passwordHash)) fun n =>
    if n = 0 then endReadTxn (raise .loginFailed)
    else if needsRehash then
      checked (hashPassword env c.draw.salt password) fun record =>
        execute (.users (.setPassword record canonical)) fun _ => createSession env c canonical
    else createSession env c canonical

def login (env : Env) (c : Call) (username password : Text) : Body :=
  query (.getUser (canonical env username)) fun row =>
    match row with
    | none => endReadTxn (raise .loginFailed)
    | some (r : User) =>
        if isLocked r.lockedUntilTs c.now then
          endReadTxn (raise (.accountLocked (canonical env username)
            (max (r.lockedUntilTs.getD 0 - c.now) 0)))
        else
          let (ok, needsRehash) := verifyPassword env password r.passwordHash
          if r.disabled || !ok then
            recordFailure (canonical env username) r.failedCount c.now (raise .loginFailed)
          else claimAndMint env c (canonical env username) password r needsRehash

/-- The two limits of a session. -/
def expired (c : Call) (s : Session) : Bool :=
  decide (s.expiresTs ≤ c.now) || decide (s.lastSeenTs + c.cfg.idleTimeoutSec ≤ c.now)

/-- `validate_session` and `rotate_csrf` share everything up to the row's last write. -/
def withLiveSession (env : Env) (c : Call) (sessionId : Text) (dead : Value)
    (live : Session → Write × Value) : Body :=
  if sessionId = [] then give dead
  else
    query (.getSession (env.hashToken sessionId)) fun row =>
      match row with
      | none => endReadTxn (give dead)
      | some (s : Session) =>
          if s.revoked then endReadTxn (give dead)
          else if expired c s then
            execute (.sessions (.revoke (env.hashToken sessionId))) fun _ => commit (give dead)
          else execute (live s).1 fun _ => commit (give (live s).2)

def validateSession (env : Env) (c : Call) (sessionId : Text) : Body :=
  withLiveSession env c sessionId (.session none) fun s =>
    (.sessions (.touch c.now (env.hashToken sessionId)),
      .session (some ⟨sessionId, s.username, s.csrfToken⟩))

def rotateCsrf (env : Env) (c : Call) (sessionId : Text) : Body :=
  withLiveSession env c sessionId (.csrf none) fun _ =>
    (.sessions (.rotateCsrf (env.hashToken c.draw.csrfToken) c.now (env.hashToken sessionId)),
      .csrf (some c.draw.csrfToken))

def logout (env : Env) (sessionId : Text) : Body :=
  if sessionId = [] then give (.flag false)
  else
    execute (.sessions (.revoke (env.hashToken sessionId))) fun n =>
      commit (give (.flag (decide (n ≠ 0))))

/-! ### Device tokens -/

/-- `(label or "").strip() or "unlabeled"` -/
def tokenLabel (label : Text) : Text :=
  if strip label = [] then "unlabeled".toList else strip label

/-- The row that `create_device_token` inserts. -/
def tokenRow (env : Env) (c : Call) (username label : Text) : DeviceToken :=
  ⟨env.hashToken c.draw.deviceToken, username, label, c.now, none, false⟩

def createDeviceToken (env : Env) (c : Call) (username label : Text) : Body :=
  query (.getUser (canonical env username)) fun row =>
    match row with
    | none => endReadTxn (raise (.userNotFound (canonical env username)))
    | some (_ : User) =>
        query (.getLiveTokenByLabel (canonical env username) (tokenLabel label)) fun taken =>
          match taken with
          | some (_ : DeviceToken) =>
              endReadTxn (raise (.tokenLabelExists (canonical env username) (tokenLabel label)))
          | none =>
              commitOrRollback
                (.tokens (.insert (tokenRow env c (canonical env username) (tokenLabel label))))
                (raise (.tokenLabelExists (canonical env username) (tokenLabel label)))
                (give (.token c.draw.deviceToken))

def verifyDeviceToken (env : Env) (c : Call) (token : Text) : Body :=
  if token = [] then give (.owner none)
  else
    query (.getToken (env.hashToken token)) fun row =>
      match row with
      | none => endReadTxn (give (.owner none))
      | some (t : DeviceToken) =>
          if t.revoked then endReadTxn (give (.owner none))
          else
            execute (.tokens (.touch c.now (env.hashToken token))) fun _ =>
              commit (give (.owner (some t.username)))

def tokenSummary (t : DeviceToken) : DeviceTokenSummary :=
  ⟨t.label, t.createdTs, t.lastUsedTs, t.revoked⟩

def listDeviceTokens (env : Env) (username : Text) : Body :=
  query (.listTokens (canonical env username)) fun rows =>
    endReadTxn (give (.tokens (List.map tokenSummary rows)))

def revokeDeviceToken (env : Env) (username label : Text) : Body :=
  execute (.tokens (.revoke (canonical env username) label)) fun n =>
    commit (give (.flag (decide (n ≠ 0))))

/-! ### The service -/

def Call.body (env : Env) (c : Call) : Body :=
  match c.op with
  | .ensureSchema => ensureSchema
  | .close => close
  | .bootstrapIfEmpty => bootstrapIfEmpty env c.now c.draw
  | .createUser u p role => createUser env c.now c.draw u p role
  | .getUser u => getUser env u
  | .listUsers => listUsers
  | .countEnabledAdmins => countEnabledAdmins
  | .setRole u role => setRole env u role
  | .deleteUser u => deleteUser env u
  | .disableUser u => disableUser env u
  | .enableUser u => enableUser env u
  | .setPassword u p => setPassword env c.draw u p
  | .needsPasswordSetup => needsPasswordSetup
  | .bootstrapSetPassword p => bootstrapSetPassword env c p
  | .login u p => login env c u p
  | .validateSession s => validateSession env c s
  | .rotateCsrf s => rotateCsrf env c s
  | .logout s => logout env s
  | .createDeviceToken u l => createDeviceToken env c u l
  | .verifyDeviceToken t => verifyDeviceToken env c t
  | .listDeviceTokens u => listDeviceTokens env u
  | .revokeDeviceToken u l => revokeDeviceToken env u l

/-- Managers `M` over one auth database. -/
abbrev authService (env : Env) (M : Type) : Transactions.Service where
  db := authDb
  Client := M
  Call := Call
  Value := Outcome
  body := Call.body env

/-! ### Concrete runs

The library functions by their values on a few inputs, with a salt of zeros, so that runs
can be followed by evaluation.
-/

def demoSalt : Bytes := List.replicate 16 0

/-- `hashlib.scrypt` at current policy and the salt of zeros. -/
def demoKey (password : Text) : Bytes :=
  if password = "placeholder-secret".toList then
    [222, 134, 190, 109, 184, 161, 177, 224, 211, 108, 112, 67, 225, 196, 231, 19,
      228, 62, 218, 219, 238, 221, 7, 70, 109, 133, 150, 222, 145, 65, 101, 159]
  else if password = "first-admin-secret".toList then
    [153, 221, 86, 189, 214, 12, 204, 229, 205, 118, 16, 67, 245, 221, 206, 14,
      21, 63, 8, 62, 222, 165, 92, 188, 232, 221, 32, 66, 186, 171, 215, 151]
  else if password = "second-password".toList then
    [206, 79, 91, 158, 251, 85, 1, 222, 236, 159, 196, 189, 14, 96, 141, 167,
      241, 70, 36, 79, 105, 225, 93, 133, 70, 215, 232, 105, 115, 56, 82, 80]
  else
    -- "wrong-password-1"
    [34, 35, 94, 41, 133, 55, 88, 7, 61, 6, 3, 227, 60, 7, 1, 226,
      137, 169, 230, 22, 139, 97, 128, 173, 234, 230, 35, 108, 160, 22, 167, 200]

/-- `hashlib.sha256(...).hexdigest()` -/
def demoDigest (token : Text) : Text :=
  if token = "sid-1".toList then
    "500350f230ef17d0de44182d1a0889f590ca4a69e345199b40c3c88fb0828890".toList
  else if token = "csrf-1".toList then
    "3f6f36ef4d060436a9ebe8029c2ae4566c983c31afadb2ca5f6a25d0b56d43a1".toList
  else
    -- "tok-1"
    "65dcf16ea3dfa49069628089eb4a75483070f5584b2a21ee64912b5f621f12da".toList

def demoEnv : Env where
  lower := List.map Char.toLower
  scrypt password _ _ _ _ := some (demoKey password)
  scrypt_policy _ _ := rfl
  hashToken := demoDigest
  repr label := '\'' :: label ++ ['\'']

def demoDraw : Draw :=
  ⟨demoSalt, "placeholder-secret".toList, "sid-1".toList, "csrf-1".toList, "tok-1".toList⟩

/-- A call at time `now` with the default configuration. -/
def demoCall (op : Op) (now : ℚ) : Call := ⟨op, {}, now, demoDraw⟩

/-- A call of manager `m` and its first `n` statements, the last of which returns. -/
def demoSteps (m : Bool) (op : Op) (now : ℚ) (n : Nat) :
    List (Transactions.Action (authService demoEnv Bool)) :=
  .start m (demoCall op now) :: List.replicate n (.next m)

end CyClaw.Auth

/-
Who may change which account: the `/auth/users` routes of `gate_auth.py`.

A request finds out its actor and then does what its route says, one call of the manager
after the other.  Each call is atomic (`alone`), and between two calls of a request anyone
else may have theirs.

What a request has read last, and when, is kept beside it, and so is when an account last
became an admin's; the code knows neither.
-/
import CyClaw.Lib.AloneCalls
import CyClaw.Lib.Threads
import CyClaw.Auth.Manager

namespace CyClaw.Auth

open PyText Transactions

/-! ### Requests -/

/-- Calls of the manager, one after the other. -/
inductive Calls (α : Type) where
  | ret (a : α)
  | call (op : Op) (k : Outcome → Calls α)

/-- The answer to a request: the status, code and message of an `HTTPException`, an exception
that is no `HTTPException`, or the result of the route. -/
inductive Reply where
  | refused (status : Nat) (code : String) (message : Text)
  | raised (e : AuthError)
  | ok
  | record (u : UserSummary)
deriving DecidableEq

/-- What `get_user` returns or raises. -/
def userOf : Outcome → Except AuthError (Option UserSummary)
  | .ok (.user u) => .ok u
  | .ok _ => .ok none
  | .error e => .error e

/-- What `create_user` returns or raises. -/
def usernameOf : Outcome → Except AuthError Text
  | .ok (.username u) => .ok u
  | .ok _ => .ok []
  | .error e => .error e

/-- What `validate_session` returns or raises. -/
def sessionOf : Outcome → Except AuthError (Option SessionInfo)
  | .ok (.session info) => .ok info
  | .ok _ => .ok none
  | .error e => .error e

/-- What `verify_device_token` returns or raises. -/
def ownerOf : Outcome → Except AuthError (Option Text)
  | .ok (.owner u) => .ok u
  | .ok _ => .ok none
  | .error e => .error e

/-- `_raise_auth_error` -/
def raiseAuthError (env : Env) (e : AuthError) : Reply :=
  match e with
  | .lastAdmin _ _ => .refused 403 "AUTH_LAST_ADMIN" ((e.message env).getD [])
  | .userExists _ => .refused 409 "AUTH_USER_EXISTS" ((e.message env).getD [])
  | .userNotFound _ => .refused 404 "AUTH_USER_NOT_FOUND" ((e.message env).getD [])
  | .policy p => .refused 422 "AUTH_POLICY" p.message.toList
  | e => .raised e

def authRequired : Reply := .refused 401 "AUTH_REQUIRED" "authentication required".toList

def permissionDenied (message : String) : Reply := .refused 403 "AUTH_PERMISSION_DENIED" message.toList

/-! ### The actor -/

structure AuthRequest (ρ : Type) where
  /-- `cyclaw_session`, empty where there is none. -/
  cookie : Text
  /-- `headers.get(_CSRF_HEADER, "")` -/
  csrf : Text
  /-- `authorization`, empty where there is none. -/
  authorization : Text
  route : ρ

def bearerPrefix : Text := "bearer ".toList

/-- `_user_from_identity` -/
def userFromIdentity (username : Text) (k : UserSummary → Except Reply UserSummary) :
    Calls (Except Reply UserSummary) :=
  .call (.getUser username) fun out =>
    match userOf out with
    | .error e => .ret (.error (.raised e))
    | .ok none => .ret (.error authRequired)
    | .ok (some user) => .ret (k user)

/-- `_require_write_actor` where no session counts: a bearer token, and of an admin only. -/
def bearerActor {ρ : Type} (env : Env) (r : AuthRequest ρ) : Calls (Except Reply UserSummary) :=
  if r.authorization ≠ [] ∧ bearerPrefix.isPrefixOf (env.lower r.authorization) = true then
    .call (.verifyDeviceToken (strip (r.authorization.drop bearerPrefix.length))) fun out =>
      match ownerOf out with
      | .error e => .ret (.error (.raised e))
      | .ok none => .ret (.error authRequired)
      | .ok (some username) =>
          userFromIdentity username fun user =>
            if user.role ≠ .admin then .error (permissionDenied "bearer admin writes require an admin token")
            else .ok user
  else .ret (.error authRequired)

/-- `_require_write_actor` -/
def requireWriteActor {ρ : Type} (env : Env) (r : AuthRequest ρ) : Calls (Except Reply UserSummary) :=
  if r.cookie = [] then bearerActor env r
  else
    .call (.validateSession r.cookie) fun out =>
      match sessionOf out with
      | .error e => .ret (.error (.raised e))
      | .ok none => bearerActor env r
      | .ok (some info) =>
          if env.hashToken r.csrf = info.csrfToken then userFromIdentity info.username .ok
          else .ret (.error (.refused 403 "CSRF_TOKEN_INVALID" "missing or invalid CSRF token".toList))

/-! ### The routes -/

/-- `_assert_can_create` -/
def assertCanCreate (actor : UserSummary) (newRole : Role) : Except Reply Unit :=
  match actor.role, newRole with
  | .admin, _ => .ok ()
  | .operator, .operator => .ok ()
  | .operator, .audit => .ok ()
  | _, _ => .error (permissionDenied "create user denied")

/-- `_assert_can_touch` -/
def assertCanTouch (actor target : UserSummary) (delete setRole : Bool) : Except Reply Unit :=
  match actor.role with
  | .admin => .ok ()
  | .operator =>
      if delete = true ∨ setRole = true ∨ target.role = .admin then
        .error (permissionDenied "operator cannot perform this action")
      else .ok ()
  | .audit => .error (permissionDenied "admin write denied")

/-- `except Exception as exc: _raise_auth_error(exc)`, or `{"ok": True}`. -/
def okOrRaise (env : Env) : Outcome → Reply
  | .ok _ => .ok
  | .error e => raiseAuthError env e

def authCreateUser (env : Env) (username password role : Text) (actor : UserSummary) : Calls Reply :=
  match validateRole env role with
  | .error e => .ret (raiseAuthError env (.policy e))
  | .ok role =>
      match assertCanCreate actor role with
      | .error reply => .ret reply
      | .ok () =>
          .call (.createUser username password role.name.toList) fun out =>
            match usernameOf out with
            | .error e => .ret (raiseAuthError env e)
            | .ok created =>
                .call (.getUser created) fun out =>
                  match userOf out with
                  | .error e => .ret (.raised e)
                  | .ok none => .ret (.refused 500 "AUTH_ERROR" "created user missing".toList)
                  | .ok (some user) => .ret (.record user)

/-- The routes that read their target, check it and act. -/
def touchUser (env : Env) (username : Text) (act : Op) (actor : UserSummary) : Calls Reply :=
  .call (.getUser username) fun out =>
    match userOf out with
    | .error e => .ret (.raised e)
    | .ok none => .ret (raiseAuthError env (.userNotFound username))
    | .ok (some target) =>
        match assertCanTouch actor target false false with
        | .error reply => .ret reply
        | .ok () => .call act fun out => .ret (okOrRaise env out)

def authSetPassword (env : Env) (username password : Text) : UserSummary → Calls Reply :=
  touchUser env username (.setPassword username password)

def authDisableUser (env : Env) (username : Text) : UserSummary → Calls Reply :=
  touchUser env username (.disableUser username)

def authEnableUser (env : Env) (username : Text) : UserSummary → Calls Reply :=
  touchUser env username (.enableUser username)

def authSetOwnPassword (env : Env) (password : Text) (actor : UserSummary) : Calls Reply :=
  .call (.setPassword actor.username password) fun out => .ret (okOrRaise env out)

def authSetRole (env : Env) (username role : Text) (actor : UserSummary) : Calls Reply :=
  if actor.role ≠ .admin then .ret (permissionDenied "only admin can set roles")
  else
    match validateRole env role with
    | .error e => .ret (raiseAuthError env (.policy e))
    | .ok role => .call (.setRole username role.name.toList) fun out => .ret (okOrRaise env out)

def authDeleteUser (env : Env) (username : Text) (actor : UserSummary) : Calls Reply :=
  if actor.role ≠ .admin then .ret (permissionDenied "only admin can delete users")
  else .call (.deleteUser username) fun out => .ret (okOrRaise env out)

inductive UserRoute where
  | createUser (username password role : Text)
  | setPassword (username password : Text)
  | setOwnPassword (password : Text)
  | setRole (username role : Text)
  | disableUser (username : Text)
  | enableUser (username : Text)
  | deleteUser (username : Text)

def UserRoute.handler (env : Env) : UserRoute → UserSummary → Calls Reply
  | .createUser u p role => authCreateUser env u p role
  | .setPassword u p => authSetPassword env u p
  | .setOwnPassword p => authSetOwnPassword env p
  | .setRole u role => authSetRole env u role
  | .disableUser u => authDisableUser env u
  | .enableUser u => authEnableUser env u
  | .deleteUser u => authDeleteUser env u

/-! ### Requests beside each other -/

/-- The account a request has read last, and when. -/
structure Seen where
  name : Text
  user : UserSummary
  time : ℕ

/-- What a request has read last, once a call has returned. -/
def seenAfter (env : Env) (op : Op) (out : Outcome) (time : ℕ) (seen : Option Seen) : Option Seen :=
  match op, out with
  | .getUser u, .ok (.user (some user)) => some ⟨canonical env u, user, time⟩
  | _, _ => seen

inductive UserJob where
  | idle
  /-- In `_require_write_actor`. -/
  | authenticating (r : AuthRequest UserRoute) (seen : Option Seen) (p : Calls (Except Reply UserSummary))
  | handling (actor : UserSummary) (seen : Option Seen) (p : Calls Reply)
  | answered (reply : Reply)

/-- The manager's connection.  `promoted` is when an account last became an admin's; nothing
reads it. -/
structure AuthState where
  conn : Conn authDb
  clock : ℕ
  promoted : Text → ℕ

def isAdmin (T : Tables) (u : Text) : Bool := (T.users.find? u).any fun r => r.role = .admin

def AuthState.serve (env : Env) (c : Call) (s : AuthState) : Outcome × AuthState :=
  let r := (c.body env).alone s.conn
  (r.1,
    { conn := r.2
      clock := s.clock + 1
      promoted := fun u => if isAdmin r.2.view u && !isAdmin s.conn.view u then s.clock else s.promoted u })

inductive UserTurn where
  | receive (r : AuthRequest UserRoute)
  /-- The next call of the request, or its answer. -/
  | next (cfg : Config) (now : ℚ) (draw : Draw)
  /-- A call that serves no such request: a login, the command line. -/
  | other (c : Call)

def userAct (env : Env) : UserTurn → UserJob → AuthState → Option (UserJob × AuthState)
  | .receive r, .idle, s => some (.authenticating r none (requireWriteActor env r), s)
  | .other c, .idle, s => some (.idle, (s.serve env c).2)
  | .next cfg now draw, .authenticating r seen (.call op k), s =>
      let x := s.serve env ⟨op, cfg, now, draw⟩
      some (.authenticating r (seenAfter env op x.1 s.clock seen) (k x.1), x.2)
  | .next .., .authenticating r seen (.ret (.ok actor)), s =>
      some (.handling actor seen (r.route.handler env actor), s)
  | .next .., .authenticating _ _ (.ret (.error reply)), s => some (.answered reply, s)
  | .next cfg now draw, .handling actor seen (.call op k), s =>
      let x := s.serve env ⟨op, cfg, now, draw⟩
      some (.handling actor (seenAfter env op x.1 s.clock seen) (k x.1), x.2)
  | .next .., .handling _ _ (.ret reply), s => some (.answered reply, s)
  | _, _, _ => none

abbrev UserWorld (κ : Type) := Threads.World κ UserJob AuthState

/-- No request is in progress, and nothing is left open. -/
def UserWorld.initial (κ : Type) (T : Tables) : UserWorld κ where
  job := fun _ => .idle
  store := ⟨⟨T, T⟩, 0, fun _ => 0⟩

/-- What the manager sees. -/
def UserWorld.users {κ : Type} (w : UserWorld κ) : Users := w.store.conn.view.users

/-- **One call of a request is that call of the manager**, with all its statements in a row. -/
theorem run_serve {env : Env} {M : Type} [DecidableEq M] {σ : Sys (authService env M)} {m : M} {s : AuthState}
    (hidle : σ.running m = none) (hfree : σ.blocked m = false) (hconn : σ.conn m = s.conn) (c : Call) :
    ∃ n σ', Sys.run (fun _ _ => true) (.start m c :: List.replicate n (.next m)) σ = some σ' ∧
      (∃ r, σ'.running m = some r ∧ r.prog = .ret (s.serve env c).1) ∧ σ'.conn m = (s.serve env c).2.conn := by
  obtain ⟨n, σ', hrun, ⟨r, hr, -, hp⟩, hend, -⟩ := run_call ⟨hidle, hconn, hfree⟩ c
  exact ⟨n, σ', hrun, ⟨r, hr, hp⟩, hend⟩

end CyClaw.Auth

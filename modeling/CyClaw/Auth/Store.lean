/-
The auth database: the tables of `utils/authn_store.py` and the statements that
`AuthManager._prepare_sql` prepares.

One constructor for each statement, with its parameters.  A write touches one table only,
so writes come in three kinds, and an update of a table is given by its `WHERE` clause and
its `SET` clause.  Inserts raise when the primary key is taken, and an insert into
`device_tokens` also when the account already has a live token with that label.
-/
import CyClaw.Lib.Fallible
import CyClaw.Lib.Table
import CyClaw.Lib.Transactions
import CyClaw.Auth.Primitives

namespace CyClaw.Auth

/-! ### Tables -/

structure User where
  username : Text
  passwordHash : Text
  createdTs : ℚ
  disabled : Bool
  lastLoginTs : Option ℚ
  failedCount : Nat
  lockedUntilTs : Option ℚ
  role : Role
deriving DecidableEq

structure Session where
  sessionId : Text
  username : Text
  csrfToken : Text
  createdTs : ℚ
  lastSeenTs : ℚ
  expiresTs : ℚ
  revoked : Bool
deriving DecidableEq

structure DeviceToken where
  tokenHash : Text
  username : Text
  label : Text
  createdTs : ℚ
  lastUsedTs : Option ℚ
  revoked : Bool
deriving DecidableEq

abbrev Users := Table User Text User.username
abbrev Sessions := Table Session Text Session.sessionId
abbrev DeviceTokens := Table DeviceToken Text DeviceToken.tokenHash

structure Tables where
  users : Users
  sessions : Sessions
  deviceTokens : DeviceTokens

def Tables.empty : Tables := ⟨Table.empty, Table.empty, Table.empty⟩

/-- `role = 'admin' AND disabled = 0` -/
def User.isEnabledAdmin (r : User) : Bool := r.role = .admin && !r.disabled

/-- The fixed name of the first account. -/
def bootstrapUsername : Text := "admin".toList

/-! ### Queries -/

inductive Query where
  | countUsers
  | getUser (username : Text)
  | countEnabledAdmins
  | listUsers
  | getSession (sessionId : Text)
  | getToken (tokenHash : Text)
  | listTokens (username : Text)
  | getLiveTokenByLabel (username label : Text)

def Query.Res : Query → Type
  | .countUsers => Nat
  | .getUser _ => Option User
  | .countEnabledAdmins => Nat
  | .listUsers => List User
  | .getSession _ => Option Session
  | .getToken _ => Option DeviceToken
  | .listTokens _ => List DeviceToken
  | .getLiveTokenByLabel _ _ => Option DeviceToken

/-- The user joined on a username is there and enabled. -/
def Tables.enabled (T : Tables) (username : Text) : Bool :=
  (T.users.find? username).any fun u => !u.disabled

def Query.ask : (q : Query) → Tables → q.Res
  | .countUsers, T => T.users.rows.length
  | .getUser u, T => T.users.find? u
  | .countEnabledAdmins, T => T.users.count User.isEnabledAdmin
  | .listUsers, T => T.users.rows.mergeSort fun a b => decide (¬ b.username < a.username)
  | .getSession k, T => (T.sessions.find? k).filter fun s => T.enabled s.username
  | .getToken k, T => (T.deviceTokens.find? k).filter fun t => T.enabled t.username
  | .listTokens u, T =>
      (T.deviceTokens.rows.filter fun t => t.username = u).mergeSort fun a b =>
        decide (a.createdTs ≤ b.createdTs)
  | .getLiveTokenByLabel u l, T =>
      T.deviceTokens.rows.find? fun t => t.username = u && t.label = l && !t.revoked

/-! ### Writes -/

inductive UserWrite where
  | insert (row : User)
  | setRole (role : Role) (username : Text)
  | delete (username : Text)
  | disable (username : Text)
  | setDisabled (disabled : Bool) (username : Text)
  | setPassword (record username : Text)
  | claimBootstrapPassword (record username pendingHash : Text)
  | claimLogin (now : ℚ) (username passwordHash : Text)
  | loginFailure (failedCount : Nat) (lockedUntilTs : ℚ) (username : Text)
  | resetLockout (username : Text)
  /-- The repair `_ensure_schema` makes on every start. -/
  | promoteBootstrap
deriving DecidableEq

inductive SessionWrite where
  | insert (row : Session)
  | touch (now : ℚ) (sessionId : Text)
  | rotateCsrf (csrfToken : Text) (now : ℚ) (sessionId : Text)
  | revoke (sessionId : Text)
  | revokeForUser (username : Text)
deriving DecidableEq

inductive TokenWrite where
  | insert (row : DeviceToken)
  | touch (now : ℚ) (tokenHash : Text)
  | revoke (username label : Text)
  | revokeForUser (username : Text)
deriving DecidableEq

inductive Write where
  | users (w : UserWrite)
  | sessions (w : SessionWrite)
  | tokens (w : TokenWrite)
deriving DecidableEq

/-- What a statement may raise. -/
inductive DbError where
  | unique
  | operational
deriving DecidableEq, Repr

/-- The last-admin guard, of a row. -/
def lastAdminGuard (t : Users) (r : User) : Bool :=
  !(r.isEnabledAdmin && t.count User.isEnabledAdmin ≤ 1)

/-- The `WHERE` clause of an update or delete of users. -/
def UserWrite.selects (t : Users) : UserWrite → User → Bool
  | .insert _, _ => false
  | .setRole role u, r => r.username = u && (role = .admin || lastAdminGuard t r)
  | .delete u, r => r.username = u && lastAdminGuard t r
  | .disable u, r => r.username = u && lastAdminGuard t r
  | .setDisabled _ u, r => r.username = u
  | .setPassword _ u, r => r.username = u
  | .claimBootstrapPassword _ u pending, r => r.username = u && r.passwordHash = pending
  | .claimLogin now u hash, r =>
      r.username = u && r.passwordHash = hash && !r.disabled &&
        (match r.lockedUntilTs with
        | none => true
        | some t => decide (t ≤ now))
  | .loginFailure _ _ u, r => r.username = u
  | .resetLockout u, r => r.username = u
  | .promoteBootstrap, r => r.username = bootstrapUsername && r.role = .operator

/-- The `SET` clause of an update of users. -/
def UserWrite.set : UserWrite → User → User
  | .insert _, r => r
  | .setRole role _, r => { r with role := role }
  | .delete _, r => r
  | .disable _, r => { r with disabled := true }
  | .setDisabled d _, r => { r with disabled := d }
  | .setPassword record _, r => { r with passwordHash := record }
  | .claimBootstrapPassword record _ _, r => { r with passwordHash := record }
  | .claimLogin now _ _, r =>
      { r with lastLoginTs := some now, failedCount := 0, lockedUntilTs := none }
  | .loginFailure n until_ _, r => { r with failedCount := n, lockedUntilTs := some until_ }
  | .resetLockout _, r => { r with failedCount := 0, lockedUntilTs := none }
  | .promoteBootstrap, r => { r with role := .admin }

theorem UserWrite.set_username (w : UserWrite) (r : User) : (w.set r).username = r.username := by
  cases w <;> rfl

def UserWrite.apply (w : UserWrite) (t : Users) : Except DbError (Nat × Users) :=
  match w with
  | .insert row =>
      match t.insert? row with
      | some t' => .ok (1, t')
      | none => .error .unique
  | .delete u => .ok (t.count ((UserWrite.delete u).selects t), t.delete ((UserWrite.delete u).selects t))
  | w => .ok (t.count (w.selects t), t.update (w.selects t) w.set w.set_username)

def SessionWrite.selects : SessionWrite → Session → Bool
  | .insert _, _ => false
  | .touch _ k, s => s.sessionId = k
  | .rotateCsrf _ _ k, s => s.sessionId = k && !s.revoked
  | .revoke k, s => s.sessionId = k && !s.revoked
  | .revokeForUser u, s => s.username = u && !s.revoked

def SessionWrite.set : SessionWrite → Session → Session
  | .insert _, s => s
  | .touch now _, s => { s with lastSeenTs := now }
  | .rotateCsrf csrf now _, s => { s with csrfToken := csrf, lastSeenTs := now }
  | .revoke _, s => { s with revoked := true }
  | .revokeForUser _, s => { s with revoked := true }

theorem SessionWrite.set_sessionId (w : SessionWrite) (s : Session) :
    (w.set s).sessionId = s.sessionId := by
  cases w <;> rfl

def SessionWrite.apply (w : SessionWrite) (t : Sessions) : Except DbError (Nat × Sessions) :=
  match w with
  | .insert row =>
      match t.insert? row with
      | some t' => .ok (1, t')
      | none => .error .unique
  | w => .ok (t.count w.selects, t.update w.selects w.set w.set_sessionId)

def TokenWrite.selects : TokenWrite → DeviceToken → Bool
  | .insert _, _ => false
  | .touch _ k, t => t.tokenHash = k
  | .revoke u l, t => t.username = u && t.label = l && !t.revoked
  | .revokeForUser u, t => t.username = u && !t.revoked

def TokenWrite.set : TokenWrite → DeviceToken → DeviceToken
  | .insert _, t => t
  | .touch now _, t => { t with lastUsedTs := some now }
  | .revoke _ _, t => { t with revoked := true }
  | .revokeForUser _, t => { t with revoked := true }

theorem TokenWrite.set_tokenHash (w : TokenWrite) (t : DeviceToken) :
    (w.set t).tokenHash = t.tokenHash := by
  cases w <;> rfl

/-- `idx_device_tokens_live_label` refuses the row. -/
def labelTaken (t : DeviceTokens) (row : DeviceToken) : Bool :=
  !row.revoked && t.rows.any fun x => x.username = row.username && x.label = row.label && !x.revoked

def TokenWrite.apply (w : TokenWrite) (t : DeviceTokens) : Except DbError (Nat × DeviceTokens) :=
  match w with
  | .insert row =>
      if labelTaken t row then .error .unique
      else
        match t.insert? row with
        | some t' => .ok (1, t')
        | none => .error .unique
  | w => .ok (t.count w.selects, t.update w.selects w.set w.set_tokenHash)

def Write.apply (w : Write) (T : Tables) : Except DbError (Nat × Tables) :=
  match w with
  | .users w => (w.apply T.users).map fun (n, t) => (n, { T with users := t })
  | .sessions w => (w.apply T.sessions).map fun (n, t) => (n, { T with sessions := t })
  | .tokens w => (w.apply T.deviceTokens).map fun (n, t) => (n, { T with deviceTokens := t })

/-! ### What a write does

One lemma for each kind of write; proofs about the tables use these and never unfold `apply`.
-/

def UserWrite.updates : UserWrite → Bool
  | .insert _ => false
  | .delete _ => false
  | _ => true

def SessionWrite.updates : SessionWrite → Bool
  | .insert _ => false
  | _ => true

def TokenWrite.updates : TokenWrite → Bool
  | .insert _ => false
  | _ => true

theorem UserWrite.apply_insert {row : User} {t t' : Users} {n : Nat} :
    (UserWrite.insert row).apply t = .ok (n, t') ↔ n = 1 ∧ t.insert? row = some t' := by
  rw [apply]
  cases t.insert? row with
  | none => simp
  | some t₁ => simp [eq_comm]

theorem UserWrite.apply_update {w : UserWrite} (hw : w.updates = true) (t : Users) :
    w.apply t = .ok (t.count (w.selects t), t.update (w.selects t) w.set w.set_username) := by
  cases w <;> first | rfl | cases hw

theorem SessionWrite.apply_insert {row : Session} {t t' : Sessions} {n : Nat} :
    (SessionWrite.insert row).apply t = .ok (n, t') ↔ n = 1 ∧ t.insert? row = some t' := by
  rw [apply]
  cases t.insert? row with
  | none => simp
  | some t₁ => simp [eq_comm]

theorem SessionWrite.apply_update {w : SessionWrite} (hw : w.updates = true) (t : Sessions) :
    w.apply t = .ok (t.count w.selects, t.update w.selects w.set w.set_sessionId) := by
  cases w <;> first | rfl | cases hw

theorem TokenWrite.apply_insert {row : DeviceToken} {t t' : DeviceTokens} {n : Nat}
    (h : (TokenWrite.insert row).apply t = .ok (n, t')) : n = 1 ∧ t.insert? row = some t' := by
  rw [apply] at h
  split at h
  · cases h
  · split at h
    · rename_i t₁ hins
      simp only [Except.ok.injEq, Prod.mk.injEq] at h
      rw [hins, h.2]
      exact ⟨h.1.symm, rfl⟩
    · cases h

theorem TokenWrite.apply_update {w : TokenWrite} (hw : w.updates = true) (t : DeviceTokens) :
    w.apply t = .ok (t.count w.selects, t.update w.selects w.set w.set_tokenHash) := by
  cases w <;> first | rfl | cases hw

theorem map_rows {β : Type} {x : Except DbError (Nat × β)} {n : Nat} {T' : Tables} (f : β → Tables) :
    (x.map fun r => (r.1, f r.2)) = .ok (n, T') ↔ ∃ t, x = .ok (n, t) ∧ T' = f t := by
  rw [Fallible.map_eq_ok]
  constructor
  · rintro ⟨⟨n', t⟩, h, heq⟩
    simp only [Prod.mk.injEq] at heq
    exact ⟨t, heq.1 ▸ h, heq.2.symm⟩
  · rintro ⟨t, h, rfl⟩
    exact ⟨(n, t), h, rfl⟩

theorem Write.apply_users {w : UserWrite} {T T' : Tables} {n : Nat} :
    (Write.users w).apply T = .ok (n, T') ↔
      ∃ t, w.apply T.users = .ok (n, t) ∧ T' = { T with users := t } :=
  map_rows fun t => { T with users := t }

theorem Write.apply_sessions {w : SessionWrite} {T T' : Tables} {n : Nat} :
    (Write.sessions w).apply T = .ok (n, T') ↔
      ∃ t, w.apply T.sessions = .ok (n, t) ∧ T' = { T with sessions := t } :=
  map_rows fun t => { T with sessions := t }

theorem Write.apply_tokens {w : TokenWrite} {T T' : Tables} {n : Nat} :
    (Write.tokens w).apply T = .ok (n, T') ↔
      ∃ t, w.apply T.deviceTokens = .ok (n, t) ∧ T' = { T with deviceTokens := t } :=
  map_rows fun t => { T with deviceTokens := t }

/-- A row of `users` after an update. -/
theorem UserWrite.find?_update {w : UserWrite} (hw : w.updates = true) {t t' : Users} {n : Nat}
    (h : w.apply t = .ok (n, t')) (u : Text) :
    t'.find? u = (t.find? u).map fun r => if w.selects t r then w.set r else r := by
  rw [apply_update hw] at h
  simp only [Except.ok.injEq, Prod.mk.injEq] at h
  rw [← h.2, Table.find?_update]

/-- A session that is there, after a write. -/
theorem SessionWrite.find?_apply {w : SessionWrite} {t t' : Sessions} {n : Nat} {k : Text} {s : Session}
    (h : w.apply t = .ok (n, t')) (hs : t.find? k = some s) :
    t'.find? k = some (if w.selects s then w.set s else s) := by
  by_cases hup : w.updates = true
  · rw [apply_update hup, Except.ok.injEq, Prod.mk.injEq] at h
    rw [← h.2, Table.find?_update, hs, Option.map_some]
  · obtain ⟨row, rfl⟩ : ∃ row, w = .insert row := by
      cases w <;> first | exact ⟨_, rfl⟩ | exact absurd rfl hup
    exact Table.find?_insert_of_some (apply_insert.mp h).2 hs

/-- A token that is there, after a write. -/
theorem TokenWrite.find?_apply {w : TokenWrite} {t t' : DeviceTokens} {n : Nat} {k : Text} {d : DeviceToken}
    (h : w.apply t = .ok (n, t')) (hd : t.find? k = some d) :
    t'.find? k = some (if w.selects d then w.set d else d) := by
  by_cases hup : w.updates = true
  · rw [apply_update hup, Except.ok.injEq, Prod.mk.injEq] at h
    rw [← h.2, Table.find?_update, hd, Option.map_some]
  · obtain ⟨row, rfl⟩ : ∃ row, w = .insert row := by
      cases w <;> first | exact ⟨_, rfl⟩ | exact absurd rfl hup
    exact Table.find?_insert_of_some (apply_insert h).2 hd

/-- Only inserts raise, and then because a key is taken. -/
def Write.inserts : Write → Bool
  | .users w => !w.updates && !(match w with | .delete _ => true | _ => false)
  | .sessions w => !w.updates
  | .tokens w => !w.updates

theorem Write.inserts_of_error {w : Write} {T : Tables} {e : DbError} (h : w.apply T = .error e) :
    w.inserts = true ∧ e = .unique := by
  cases w with
  | users w =>
      cases w with
      | insert row =>
          cases hins : T.users.insert? row <;> simp_all [apply, UserWrite.apply, Except.map, inserts,
            UserWrite.updates]
      | _ => cases h
  | sessions w =>
      cases w with
      | insert row =>
          cases hins : T.sessions.insert? row <;> simp_all [apply, SessionWrite.apply, Except.map,
            inserts, SessionWrite.updates]
      | _ => cases h
  | tokens w =>
      cases w with
      | insert row =>
          refine ⟨rfl, ?_⟩
          simp only [apply, TokenWrite.apply] at h
          split at h
          · simpa [Except.map, eq_comm] using h
          · split at h
            · cases h
            · simpa [Except.map, eq_comm] using h
      | _ => cases h

theorem Write.rows_of_insert {w : Write} {T T' : Tables} {n : Nat} (hw : w.inserts = true)
    (h : w.apply T = .ok (n, T')) : n = 1 := by
  cases w with
  | users w =>
      obtain ⟨t, ht, -⟩ := apply_users.mp h
      cases w with
      | insert row => exact (UserWrite.apply_insert.mp ht).1
      | _ => cases hw
  | sessions w =>
      obtain ⟨t, ht, -⟩ := apply_sessions.mp h
      cases w with
      | insert row => exact (SessionWrite.apply_insert.mp ht).1
      | _ => cases hw
  | tokens w =>
      obtain ⟨t, ht, -⟩ := apply_tokens.mp h
      cases w with
      | insert row => exact (TokenWrite.apply_insert ht).1
      | _ => cases hw

/-- A write that touched no row left the tables as they were. -/
theorem Write.apply_zero {w : Write} {T T' : Tables} (h : w.apply T = .ok (0, T')) : T' = T := by
  cases w with
  | users w =>
      obtain ⟨t, ht, rfl⟩ := apply_users.mp h
      cases w with
      | insert row => exact absurd (UserWrite.apply_insert.mp ht).1 (by simp)
      | delete u =>
          simp only [UserWrite.apply, Except.ok.injEq, Prod.mk.injEq] at ht
          rw [← ht.2, Table.delete_of_count ht.1]
      | _ =>
          rw [UserWrite.apply_update rfl] at ht
          simp only [Except.ok.injEq, Prod.mk.injEq] at ht
          rw [← ht.2, Table.update_of_count ht.1]
  | sessions w =>
      obtain ⟨t, ht, rfl⟩ := apply_sessions.mp h
      cases w with
      | insert row => exact absurd (SessionWrite.apply_insert.mp ht).1 (by simp)
      | _ =>
          rw [SessionWrite.apply_update rfl] at ht
          simp only [Except.ok.injEq, Prod.mk.injEq] at ht
          rw [← ht.2, Table.update_of_count ht.1]
  | tokens w =>
      obtain ⟨t, ht, rfl⟩ := apply_tokens.mp h
      cases w with
      | insert row => exact absurd (TokenWrite.apply_insert ht).1 (by simp)
      | _ =>
          rw [TokenWrite.apply_update rfl] at ht
          simp only [Except.ok.injEq, Prod.mk.injEq] at ht
          rw [← ht.2, Table.update_of_count ht.1]

/-- The auth database. -/
abbrev authDb : Transactions.Database where
  Tables := Tables
  Query := Query
  Res := Query.Res
  Write := Write
  Err := DbError
  ask := Query.ask
  apply := Write.apply

theorem replay_cons {T T' : Tables} {w : Write} {n : Nat} {ws : List (Write × Nat)} :
    Transactions.Replay (D := authDb) T ((w, n) :: ws) T' ↔
      ∃ U, w.apply T = .ok (n, U) ∧ Transactions.Replay (D := authDb) U ws T' :=
  Iff.rfl

end CyClaw.Auth

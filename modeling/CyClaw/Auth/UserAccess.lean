/-
Operators and admins.

`Cautious` says, of the text of a handler, that an operator's request changes an account
only where the last account it has read was that one, and no admin's; it is checked of
every route once (`handler_cautious`).  What a request has read may have changed by the
time it acts: `operator_resets_admin_password` is such a run.  Where no step in between
makes the account an admin's, operators affect no admin (`operators_spare_admins`).
-/
import CyClaw.Auth.Paths
import CyClaw.Auth.UserRoutes

namespace CyClaw.Auth

open PyText Transactions

/-! ### What a call does to accounts -/

/-- No account but `u` changes, and `u` only in what `f` does not see. -/
def ChangesOnly {β : Type} (u : Text) (f : User → β) (t t' : Users) : Prop :=
  (∀ v, v ≠ u → t'.find? v = t.find? v) ∧ (t'.find? u).map f = (t.find? u).map f

section ChangesOnly

variable {β γ : Type} {u : Text} {f : User → β} {t t' t'' : Users}

theorem ChangesOnly.refl : ChangesOnly u f t t := ⟨fun _ _ => rfl, rfl⟩

theorem ChangesOnly.trans (h : ChangesOnly u f t t') (h' : ChangesOnly u f t' t'') : ChangesOnly u f t t'' :=
  ⟨fun v hv => (h'.1 v hv).trans (h.1 v hv), h'.2.trans h.2⟩

theorem ChangesOnly.comp (h : ChangesOnly u f t t') (g : β → γ) : ChangesOnly u (fun r => g (f r)) t t' := by
  refine ⟨h.1, ?_⟩
  have hu := congrArg (Option.map g) h.2
  rw [Option.map_map, Option.map_map] at hu
  exact hu

end ChangesOnly

/-- An update of the account `u`, and only of what `f` does not see. -/
def Write.within {β : Type} (u : Text) (f : User → β) : Write → Prop
  | .users w =>
      w.updates = true ∧ (∀ t r, w.selects t r = true → r.username = u) ∧ ∀ r, f (w.set r) = f r
  | _ => True

theorem changesOnly_apply {β : Type} {u : Text} {f : User → β} {w : Write} {T T' : Tables} {n : Nat}
    (hw : w.within u f) (h : w.apply T = .ok (n, T')) : ChangesOnly u f T.users T'.users := by
  cases w with
  | users w =>
    obtain ⟨hup, hsel, hset⟩ := hw
    obtain ⟨t, ht, rfl⟩ := Write.apply_users.mp h
    refine ⟨?_, ?_⟩
    · intro v hv
      rw [UserWrite.find?_update hup ht]
      cases hr : T.users.find? v with
      | none => rfl
      | some r =>
        have hname := (Table.find?_eq_some.mp hr).2
        rw [Option.map_some, if_neg fun hs => hv (hname.symm.trans (hsel T.users r hs))]
    · rw [UserWrite.find?_update hup ht, Option.map_map]
      refine congrArg (fun g => (T.users.find? u).map g) (funext fun r => ?_)
      show f (if _ then _ else _) = f r
      split
      · exact hset r
      · rfl
  | sessions w =>
    obtain ⟨t, -, rfl⟩ := Write.apply_sessions.mp h
    exact .refl
  | tokens w =>
    obtain ⟨t, -, rfl⟩ := Write.apply_tokens.mp h
    exact .refl

theorem alone_within {β : Type} {u : Text} {f : User → β} {p : Body} (h : Forward (Write.within u f) p)
    (c : Conn authDb) : ChangesOnly u f c.view.users (p.alone c).2.view.users :=
  alone_forward (I := fun T : Tables => ChangesOnly u f c.view.users T.users) h
    (fun _ _ _ _ hw hT happly => hT.trans (changesOnly_apply hw happly)) .refl

/-- A write of sessions or device tokens. -/
def Write.aside : Write → Prop
  | .users _ => False
  | _ => True

theorem alone_aside {p : Body} (h : Forward Write.aside p) (c : Conn authDb) :
    (p.alone c).2.view.users = c.view.users := by
  refine alone_forward (I := fun T : Tables => T.users = c.view.users) h ?_ rfl
  intro w T n T' hw hT happly
  cases w with
  | users w => exact hw.elim
  | sessions w =>
    obtain ⟨t, -, rfl⟩ := Write.apply_sessions.mp happly
    exact hT
  | tokens w =>
    obtain ⟨t, -, rfl⟩ := Write.apply_tokens.mp happly
    exact hT

section Statements

variable {Q : Write → Prop}

theorem forward_query {q : Query} {k : q.Res → Body} (h : ∀ r, Forward Q (k r)) : Forward Q (query q k) := by
  intro x
  cases x with
  | ok r => exact h r
  | error e => trivial

theorem forward_execute {w : Write} {k : Nat → Body} (hw : Q w) (h : ∀ n, Forward Q (k n)) :
    Forward Q (execute w k) := by
  refine ⟨hw, ?_⟩
  intro x
  cases x with
  | ok n => exact h n
  | error e => trivial

theorem forward_commit {k : Body} (h : Forward Q k) : Forward Q (commit k) := by
  intro x
  cases x with
  | ok u => exact h
  | error e => trivial

theorem forward_checked {α : Type} {x : Except PolicyError α} {k : α → Body} (h : ∀ a, Forward Q (k a)) :
    Forward Q (checked x k) := by
  cases x with
  | ok a => exact h a
  | error e => trivial

end Statements

/-- The calls that look up who is there. -/
def Op.looksUp : Op → Bool
  | .getUser _ | .validateSession _ | .verifyDeviceToken _ => true
  | _ => false

theorem forward_looksUp {env : Env} {c : Call} (h : c.op.looksUp = true) : Forward Write.aside (c.body env) := by
  obtain ⟨op, cfg, now, draw⟩ := c
  cases op with
  | getUser u => exact forward_query fun _ => forward_commit trivial
  | validateSession sid =>
    show Forward _ (validateSession env _ sid)
    unfold validateSession withLiveSession
    split
    · trivial
    · refine forward_query fun row => ?_
      cases row with
      | none => exact forward_commit trivial
      | some s =>
        dsimp only
        split
        · exact forward_commit trivial
        · split
          · exact forward_execute trivial fun _ => forward_commit trivial
          · exact forward_execute trivial fun _ => forward_commit trivial
  | verifyDeviceToken token =>
    show Forward _ (verifyDeviceToken env _ token)
    unfold verifyDeviceToken
    split
    · trivial
    · refine forward_query fun row => ?_
      cases row with
      | none => exact forward_commit trivial
      | some t =>
        dsimp only
        split
        · exact forward_commit trivial
        · exact forward_execute trivial fun _ => forward_commit trivial
  | _ => cases h

/-- An account but for its password and what a new password resets. -/
def User.besidesPassword (r : User) : User :=
  { r with passwordHash := [], failedCount := 0, lockedUntilTs := none }

theorem within_password {u record : Text} : Write.within u User.besidesPassword (.users (.setPassword record u)) :=
  ⟨rfl, fun _ _ h => of_decide_eq_true h, fun _ => rfl⟩

theorem within_resetLockout {u : Text} : Write.within u User.besidesPassword (.users (.resetLockout u)) :=
  ⟨rfl, fun _ _ h => of_decide_eq_true h, fun _ => rfl⟩

theorem forward_setPassword (env : Env) (draw : Draw) (u p : Text) :
    Forward (Write.within (canonical env u) User.besidesPassword) (setPassword env draw u p) := by
  refine forward_checked fun record => forward_execute within_password fun n => ?_
  split
  · exact forward_commit trivial
  · refine forward_execute trivial fun _ => forward_execute within_resetLockout fun _ => ?_
    exact forward_commit trivial

theorem forward_disableUser (env : Env) (u : Text) :
    Forward (Write.within (canonical env u) User.role) (disableUser env u) := by
  refine forward_execute ⟨rfl, ?_, fun _ => rfl⟩ fun n => ?_
  · intro t r h
    exact of_decide_eq_true (Bool.and_eq_true_iff.mp h).1
  · split
    · refine forward_query fun row => forward_commit ?_
      cases row <;> trivial
    · exact forward_execute trivial fun _ => forward_execute trivial fun _ => forward_commit trivial

theorem forward_enableUser (env : Env) (u : Text) :
    Forward (Write.within (canonical env u) User.role) (enableUser env u) := by
  refine forward_execute ⟨rfl, fun _ _ h => of_decide_eq_true h, fun _ => rfl⟩ fun n => ?_
  split
  · exact forward_commit trivial
  · refine forward_execute ⟨rfl, fun _ _ h => of_decide_eq_true h, fun _ => rfl⟩ fun _ => ?_
    exact forward_commit trivial

/-- The account that `set_password`, `disable_user` and `enable_user` are about. -/
def Op.touches (env : Env) : Op → Option Text
  | .setPassword u _ => some (canonical env u)
  | .disableUser u => some (canonical env u)
  | .enableUser u => some (canonical env u)
  | _ => none

theorem changesOnly_touches {env : Env} {c : Call} {u : Text} (h : c.op.touches env = some u)
    (conn : Conn authDb) : ChangesOnly u User.role conn.view.users ((c.body env).alone conn).2.view.users := by
  obtain ⟨op, cfg, now, draw⟩ := c
  cases op with
  | setPassword v p =>
    obtain rfl := Option.some.inj h
    exact (alone_within (forward_setPassword env draw v p) conn).comp User.role
  | disableUser v =>
    obtain rfl := Option.some.inj h
    exact alone_within (forward_disableUser env v) conn
  | enableUser v =>
    obtain rfl := Option.some.inj h
    exact alone_within (forward_enableUser env v) conn
  | _ => cases h

/-- A call of `create_user` adds one account, of the role it is given, or none. -/
theorem alone_createUser (env : Env) (now : ℚ) (draw : Draw) (u p role : Text) (c : Conn authDb) :
    ((createUser env now draw u p role).alone c).2.view.users = c.view.users ∨
      ∃ row r, validateUsername env u = .ok row.username ∧ validateRole env role = .ok r ∧ row.role = r ∧
        c.view.users.insert? row = some ((createUser env now draw u p role).alone c).2.view.users := by
  unfold createUser
  cases hname : validateUsername env u with
  | error e => exact Or.inl rfl
  | ok name =>
    cases hrole : validateRole env role with
    | error e => exact Or.inl rfl
    | ok r =>
      cases hashPassword env draw.salt p with
      | error e => exact Or.inl rfl
      | ok record =>
        cases hold : c.view.users.find? name with
        | some row =>
          have hask : Query.ask (.getUser name) c.view = some row := hold
          simp only [checked, query, alone_ask, hask]
          exact Or.inl rfl
        | none =>
          have hask : Query.ask (.getUser name) c.view = none := hold
          obtain ⟨t, ht⟩ := Table.exists_insert (r := (⟨name, record, now, false, none, 0, none, r⟩ : User)) hold
          have happly : authDb.apply (.users (.insert ⟨name, record, now, false, none, 0, none, r⟩)) c.view =
              .ok (1, { c.view with users := t }) :=
            Write.apply_users.mpr ⟨t, UserWrite.apply_insert.mpr ⟨rfl, ht⟩, rfl⟩
          refine Or.inr ⟨⟨name, record, now, false, none, 0, none, r⟩, r, rfl, rfl, rfl, ?_⟩
          simp only [checked, query, alone_ask, hask, commitOrRollback, alone_wrote happly]
          exact ht

/-! ### What operators may do -/

/-- No admin's account changes and none is new. -/
def SparesAdmins (t t' : Users) : Prop :=
  ∀ u r, r.role = .admin → (t.find? u = some r ↔ t'.find? u = some r)

theorem SparesAdmins.of_eq {t t' : Users} (h : t' = t) : SparesAdmins t t' := by
  rw [h]
  exact fun _ _ _ => Iff.rfl

/-- An account is added that is no admin's. -/
theorem SparesAdmins.of_insert {t t' : Users} {row : User} (h : t.insert? row = some t')
    (hrow : row.role ≠ .admin) : SparesAdmins t t' := by
  intro u r hr
  rw [Table.find?_insert h]
  by_cases hu : row.username = u
  · rw [if_pos hu, ← hu, (Table.insert?_eq_some h).2]
    constructor
    · intro hnone
      cases hnone
    · intro hsome
      rw [Option.some.inj hsome] at hrow
      exact absurd hr hrow
  · rw [if_neg hu]

/-- An account changes that is no admin's, and keeps its role. -/
theorem SparesAdmins.of_changesOnly {T : Tables} {t' : Users} {u : Text} (h : ChangesOnly u User.role T.users t')
    (hu : isAdmin T u = false) : SparesAdmins T.users t' := by
  intro v r hr
  by_cases hv : v = u
  · subst hv
    -- Neither before nor after is there an admin.
    have hnot : ∀ x : Option User, x.map User.role = (T.users.find? v).map User.role → x ≠ some r := by
      rintro x hx rfl
      rw [isAdmin] at hu
      cases hold : T.users.find? v with
      | none =>
        rw [hold] at hx
        cases hx
      | some r₀ =>
        rw [hold] at hx hu
        have hrole := Option.some.inj hx
        rw [Option.any_some, ← hrole, hr] at hu
        cases hu
    exact iff_of_false (hnot _ rfl) (hnot _ h.2)
  · rw [h.1 v hv]

/-! ### Names -/

theorem slugChar_bounds {c : Char} (h : isSlugChar c = true) :
    45 ≤ c.toNat ∧ c.toNat ≤ 122 ∧ (c.toNat < 65 ∨ 90 < c.toNat) := by
  simp only [isSlugChar, Bool.or_eq_true, beq_iff_eq] at h
  rcases h with (((hlower | hdigit) | rfl) | rfl) | rfl
  · rw [isLower_iff] at hlower
    omega
  · rw [isDigit_iff] at hdigit
    omega
  · decide
  · decide
  · decide

theorem slugChar_not_space {c : Char} (h : isSlugChar c = true) : isSpace c = false := by
  obtain ⟨hlo, hhi, -⟩ := slugChar_bounds h
  unfold isSpace
  simp only [Bool.or_eq_false_iff, Bool.and_eq_false_iff, decide_eq_false_iff_not, beq_eq_false_iff_ne]
  omega
/-- `str.lower` leaves alone what consists of lower-case ASCII letters, digits and `_.-`. -/
def LowerKeepsSlugs (env : Env) : Prop := ∀ t : Text, t.all isSlugChar = true → env.lower t = t

theorem lowerKeepsSlugs_demoEnv : LowerKeepsSlugs demoEnv := by
  intro t ht
  show t.map Char.toLower = t
  refine (List.map_congr_left fun c hc => ?_).trans (List.map_id t)
  obtain ⟨-, -, hcase⟩ := slugChar_bounds (List.all_eq_true.mp ht c hc)
  show c.toLower = c
  rw [← Char.toNat_inj, toNat_toLower, if_neg (by omega)]

theorem canonical_of_slug {env : Env} (hlower : LowerKeepsSlugs env) {u : Text} (hu : u.all isSlugChar = true) :
    canonical env u = u := by
  have hspace : ∀ c ∈ u, isSpace c = false := fun c hc => slugChar_not_space (List.all_eq_true.mp hu c hc)
  unfold canonical
  rw [strip_eq_self (fun c hc => hspace c (List.mem_of_head? hc)) fun c hc => hspace c (List.mem_of_getLast? hc)]
  exact hlower u hu

theorem canonical_of_validateUsername {env : Env} (hlower : LowerKeepsSlugs env) {x u : Text}
    (h : validateUsername env x = .ok u) : canonical env u = u := by
  refine canonical_of_slug hlower ?_
  unfold validateUsername at h
  split at h
  · cases h
  · rename_i c t hname
    split at h
    · rename_i hslug
      obtain rfl := Except.ok.inj h
      simp only [Bool.and_eq_true, decide_eq_true_eq] at hslug
      have hfirst : isSlugChar c = true := by
        have hstart := hslug.1.1
        unfold isSlugStart at hstart
        simp [isSlugChar, hstart]
      rw [List.all_cons, hfirst, hslug.1.2]
      rfl
    · cases h

/-- Accounts are found under the names they have. -/
def NamesCanonical (env : Env) (T : Tables) : Prop := ∀ r ∈ T.users.rows, canonical env r.username = r.username

instance (env : Env) (T : Tables) : Decidable (NamesCanonical env T) :=
  inferInstanceAs (Decidable (∀ r ∈ T.users.rows, canonical env r.username = r.username))

def Write.named (env : Env) : Write → Prop
  | .users (.insert row) => canonical env row.username = row.username
  | _ => True

theorem namesCanonical_apply {env : Env} {w : Write} {T T' : Tables} {n : Nat} (hw : w.named env)
    (hT : NamesCanonical env T) (h : w.apply T = .ok (n, T')) : NamesCanonical env T' := by
  have updated : ∀ {w : UserWrite} {t : Users}, w.updates = true → w.apply T.users = .ok (n, t) →
      ∀ r ∈ t.rows, canonical env r.username = r.username := by
    intro w t hup happly r hr
    rw [UserWrite.apply_update hup, Except.ok.injEq, Prod.mk.injEq] at happly
    rw [← happly.2] at hr
    obtain ⟨r₀, hr₀, rfl⟩ := Table.mem_update.mp hr
    split
    · rw [UserWrite.set_username]
      exact hT r₀ hr₀
    · exact hT r₀ hr₀
  cases w with
  | users w =>
    obtain ⟨t, ht, rfl⟩ := Write.apply_users.mp h
    cases w with
    | insert row =>
      intro r hr
      rw [(Table.insert?_eq_some (UserWrite.apply_insert.mp ht).2).1, List.mem_append, List.mem_singleton] at hr
      rcases hr with hr | rfl
      · exact hT r hr
      · exact hw
    | delete u =>
      simp only [UserWrite.apply, Except.ok.injEq, Prod.mk.injEq] at ht
      rw [← ht.2]
      exact fun r hr => hT r (Table.mem_delete.mp hr).1
    | _ => exact updated rfl ht
  | sessions w =>
    obtain ⟨t, -, rfl⟩ := Write.apply_sessions.mp h
    exact hT
  | tokens w =>
    obtain ⟨t, -, rfl⟩ := Write.apply_tokens.mp h
    exact hT

theorem named_body {env : Env} (hlower : LowerKeepsSlugs env) (c : Call) : Writes (Write.named env) (c.body env) := by
  refine (makes_body env c).mono fun w hw => ?_
  unfold Write.named
  split
  · rcases hw with ⟨u, p, role, -, hname⟩ | ⟨-, hname⟩
    · exact canonical_of_validateUsername hlower hname
    · rw [hname]
      exact canonical_of_slug hlower (by decide)
  · trivial

/-! ### What the handlers call -/

/-- What a handler may call for its actor, given what the request has read last. -/
inductive Permitted (env : Env) (actor : UserSummary) (seen : Option Seen) : Op → Prop
  | admin (op : Op) (h : actor.role = .admin) : Permitted env actor seen op
  | looksUp (op : Op) (h : op.looksUp = true) : Permitted env actor seen op
  | creates (u p : Text) (role : Role) (h : actor.role = .operator) (hrole : role ≠ .admin) :
      Permitted env actor seen (.createUser u p role.name.toList)
  | touches (op : Op) (x : Seen) (h : actor.role = .operator) (hseen : seen = some x)
      (hop : op.touches env = some x.name) (hx : x.user.role ≠ .admin) : Permitted env actor seen op
  | ownPassword (p : Text) (h : actor.role = .audit) : Permitted env actor seen (.setPassword actor.username p)

/-- Every call of a handler is permitted when it comes to it, whatever the calls return. -/
def Cautious (env : Env) (actor : UserSummary) : Calls Reply → Option Seen → Prop
  | .ret _, _ => True
  | .call op k, seen =>
      Permitted env actor seen op ∧ ∀ out time, Cautious env actor (k out) (seenAfter env op out time seen)

/-- Whoever asks only looks users up, and returns the one it has read last. -/
def Identifies (env : Env) : Calls (Except Reply UserSummary) → Option Seen → Prop
  | .ret (.ok actor), seen => ∃ x, seen = some x ∧ x.user = actor
  | .ret (.error _), _ => True
  | .call op k, seen => op.looksUp = true ∧ ∀ out time, Identifies env (k out) (seenAfter env op out time seen)

theorem eq_of_userOf {out : Outcome} {u : UserSummary} (h : userOf out = .ok (some u)) : out = .ok (.user (some u)) := by
  match out, h with
  | .ok (.user v), h => rw [show v = some u from Except.ok.inj h]

section Handlers

variable {env : Env} {actor : UserSummary} {seen : Option Seen}

theorem identifies_userFromIdentity {u : Text} {k : UserSummary → Except Reply UserSummary}
    (hk : ∀ user actor, k user = .ok actor → user = actor) : Identifies env (userFromIdentity u k) seen := by
  refine ⟨rfl, fun out time => ?_⟩
  dsimp only
  cases hout : userOf out with
  | error e => trivial
  | ok found =>
    cases found with
    | none => trivial
    | some user =>
      rw [eq_of_userOf hout]
      dsimp only
      cases hactor : k user with
      | error reply => trivial
      | ok actor => exact ⟨_, rfl, hk user actor hactor⟩

theorem identifies_bearerActor (r : AuthRequest UserRoute) : Identifies env (bearerActor env r) seen := by
  unfold bearerActor
  split
  · refine ⟨rfl, fun out time => ?_⟩
    dsimp only
    cases ownerOf out with
    | error e => trivial
    | ok owner =>
      cases owner with
      | none => trivial
      | some username =>
        refine identifies_userFromIdentity fun user actor h => ?_
        split at h
        · cases h
        · exact Except.ok.inj h
  · trivial

theorem identifies_requireWriteActor (r : AuthRequest UserRoute) :
    Identifies env (requireWriteActor env r) seen := by
  unfold requireWriteActor
  split
  · exact identifies_bearerActor r
  · refine ⟨rfl, fun out time => ?_⟩
    dsimp only
    cases sessionOf out with
    | error e => trivial
    | ok session =>
      cases session with
      | none => exact identifies_bearerActor r
      | some info =>
        dsimp only
        split
        · exact identifies_userFromIdentity fun user actor h => Except.ok.inj h
        · trivial

theorem cautious_authCreateUser (u p role : Text) : Cautious env actor (authCreateUser env u p role actor) seen := by
  unfold authCreateUser
  cases validateRole env role with
  | error e => trivial
  | ok r =>
    dsimp only
    cases hcan : assertCanCreate actor r with
    | error reply => trivial
    | ok _ =>
      refine ⟨?_, fun out time => ?_⟩
      · unfold assertCanCreate at hcan
        split at hcan
        · rename_i hadmin
          exact .admin _ hadmin
        · rename_i hoperator
          exact .creates u p .operator hoperator (by decide)
        · rename_i hoperator
          exact .creates u p .audit hoperator (by decide)
        · cases hcan
      · dsimp only
        cases usernameOf out with
        | error e => trivial
        | ok created =>
          refine ⟨.looksUp _ rfl, fun out time => ?_⟩
          dsimp only
          cases userOf out with
          | error e => trivial
          | ok found => cases found <;> trivial

theorem cautious_touchUser {u : Text} {act : Op} (hact : act.touches env = some (canonical env u)) :
    Cautious env actor (touchUser env u act actor) seen := by
  refine ⟨.looksUp _ rfl, fun out time => ?_⟩
  dsimp only
  cases hout : userOf out with
  | error e => trivial
  | ok found =>
    cases found with
    | none => trivial
    | some target =>
      rw [eq_of_userOf hout]
      dsimp only
      cases htouch : assertCanTouch actor target false false with
      | error reply => trivial
      | ok _ =>
        refine ⟨?_, fun _ _ => trivial⟩
        unfold assertCanTouch at htouch
        split at htouch
        · rename_i hadmin
          exact .admin _ hadmin
        · rename_i hoperator
          split at htouch
          · cases htouch
          · rename_i hallowed
            exact .touches _ _ hoperator rfl hact fun htarget => hallowed (Or.inr (Or.inr htarget))
        · cases htouch

/-- **The handlers.**  The actor has been read last, under the name it has. -/
theorem handler_cautious {x : Seen} (hx : x.user = actor) (hname : x.name = canonical env actor.username)
    (route : UserRoute) : Cautious env actor (route.handler env actor) (some x) := by
  cases route with
  | createUser u p role => exact cautious_authCreateUser u p role
  | setPassword u p => exact cautious_touchUser rfl
  | disableUser u => exact cautious_touchUser rfl
  | enableUser u => exact cautious_touchUser rfl
  | setOwnPassword p =>
    refine ⟨?_, fun _ _ => trivial⟩
    cases hrole : actor.role with
    | admin => exact .admin _ hrole
    | operator =>
      refine .touches _ x hrole rfl (congrArg some hname.symm) ?_
      rw [hx, hrole]
      decide
    | audit => exact .ownPassword p hrole
  | setRole u role =>
    show Cautious env actor (authSetRole env u role actor) (some x)
    unfold authSetRole
    split
    · trivial
    · rename_i hadmin
      cases validateRole env role with
      | error e => trivial
      | ok r => exact ⟨.admin _ (not_not.mp hadmin), fun _ _ => trivial⟩
  | deleteUser u =>
    show Cautious env actor (authDeleteUser env u actor) (some x)
    unfold authDeleteUser
    split
    · trivial
    · rename_i hadmin
      exact ⟨.admin _ (not_not.mp hadmin), fun _ _ => trivial⟩

end Handlers

/-! ### What is left of a reading -/

/-- What a request has read was so at the time.  Where the account was no admin's it still is
not, or it has been made one since. -/
structure Seen.Sound (env : Env) (s : AuthState) (x : Seen) : Prop where
  earlier : x.time < s.clock
  username : x.user.username = x.name
  named : canonical env x.name = x.name
  since : x.user.role ≠ .admin → isAdmin s.conn.view x.name = false ∨ x.time < s.promoted x.name

section Serve

variable {env : Env} {c : Call} {s : AuthState} {x : Seen}

theorem Seen.Sound.serve (h : x.Sound env s) : x.Sound env (s.serve env c).2 := by
  refine ⟨Nat.lt_succ_of_lt h.earlier, h.username, h.named, fun hrole => ?_⟩
  by_cases hnew : (isAdmin (s.serve env c).2.conn.view x.name && !isAdmin s.conn.view x.name) = true
  · have hpromoted : (s.serve env c).2.promoted x.name = s.clock := if_pos hnew
    rw [hpromoted]
    exact Or.inr h.earlier
  · have hpromoted : (s.serve env c).2.promoted x.name = s.promoted x.name := if_neg hnew
    rw [hpromoted]
    rcases h.since hrole with hold | htime
    · refine Or.inl ?_
      rw [hold, Bool.not_false, Bool.and_true] at hnew
      exact Bool.eq_false_iff.mpr hnew
    · exact Or.inr htime

/-- What a call reads is so. -/
theorem sound_seenAfter (hT : NamesCanonical env s.conn.view) {seen : Option Seen}
    (hseen : ∀ x ∈ seen, x.Sound env s) :
    ∀ x ∈ seenAfter env c.op (s.serve env c).1 s.clock seen, x.Sound env (s.serve env c).2 := by
  obtain ⟨op, cfg, now, draw⟩ := c
  intro x hx
  unfold seenAfter at hx
  split at hx
  · rename_i u user hop hout
    obtain rfl : op = .getUser u := hop
    obtain rfl := Option.some.inj hx
    -- The row that was found, and the tables as they were.
    have hfound : (s.conn.view.users.find? (canonical env u)).map summaryFromRow = some user :=
      Value.user.inj (Except.ok.inj hout)
    obtain ⟨row, hrow, rfl⟩ := Option.map_eq_some_iff.mp hfound
    obtain ⟨hmem, hname⟩ := Table.find?_eq_some.mp hrow
    have hcanonical := hT row hmem
    rw [hname] at hcanonical
    refine ⟨Nat.lt_succ_self _, hname, hcanonical, fun hrole => Or.inl ?_⟩
    show (s.conn.view.users.find? (canonical env u)).any (fun r => decide (r.role = .admin)) = false
    rw [hrow, Option.any_some]
    exact decide_eq_false hrole
  · exact (hseen x hx).serve

end Serve

def AuthState.Sound (env : Env) (s : AuthState) : Prop :=
  NamesCanonical env s.conn.view ∧ NamesCanonical env s.conn.saved

def UserJob.Sound (env : Env) (b : UserJob) (s : AuthState) : Prop :=
  match b with
  | .idle => True
  | .authenticating _ seen p => Identifies env p seen ∧ ∀ x ∈ seen, x.Sound env s
  | .handling actor seen p =>
      canonical env actor.username = actor.username ∧ Cautious env actor p seen ∧ ∀ x ∈ seen, x.Sound env s
  | .answered _ => True

theorem AuthState.Sound.serve {env : Env} (hlower : LowerKeepsSlugs env) {s : AuthState} (h : s.Sound env) (c : Call) :
    (s.serve env c).2.Sound env :=
  alone_inv (named_body hlower c) (fun _ _ _ _ hw hT happly => namesCanonical_apply hw hT happly) h.1 h.2

theorem UserJob.Sound.serve {env : Env} {b : UserJob} {s : AuthState} (h : b.Sound env s) (c : Call) :
    b.Sound env (s.serve env c).2 := by
  cases b with
  | idle => trivial
  | authenticating r seen p => exact ⟨h.1, fun x hx => (h.2 x hx).serve⟩
  | handling actor seen p => exact ⟨h.1, h.2.1, fun x hx => (h.2.2 x hx).serve⟩
  | answered reply => trivial

/-- The call that a request makes next. -/
def UserJob.nextOp : UserJob → Option Op
  | .authenticating _ _ (.call op _) => some op
  | .handling _ _ (.call op _) => some op
  | _ => none

/-- A step leaves the manager alone, or is one call of it. -/
theorem userAct_store {env : Env} {turn : UserTurn} {b b' : UserJob} {s s' : AuthState}
    (h : userAct env turn b s = some (b', s')) :
    s' = s ∨ ∃ c, s' = (s.serve env c).2 ∧ (b = .idle ∨ b.nextOp = some c.op) := by
  unfold userAct at h
  split at h
  · obtain ⟨-, rfl⟩ := Prod.mk.inj (Option.some.inj h)
    exact Or.inl rfl
  · obtain ⟨-, rfl⟩ := Prod.mk.inj (Option.some.inj h)
    exact Or.inr ⟨_, rfl, Or.inl rfl⟩
  · obtain ⟨-, rfl⟩ := Prod.mk.inj (Option.some.inj h)
    exact Or.inr ⟨_, rfl, Or.inr rfl⟩
  · obtain ⟨-, rfl⟩ := Prod.mk.inj (Option.some.inj h)
    exact Or.inl rfl
  · obtain ⟨-, rfl⟩ := Prod.mk.inj (Option.some.inj h)
    exact Or.inl rfl
  · obtain ⟨-, rfl⟩ := Prod.mk.inj (Option.some.inj h)
    exact Or.inr ⟨_, rfl, Or.inr rfl⟩
  · obtain ⟨-, rfl⟩ := Prod.mk.inj (Option.some.inj h)
    exact Or.inl rfl
  · cases h

theorem userAct_sound {env : Env} {turn : UserTurn} {b b' : UserJob} {s s' : AuthState} (hs : s.Sound env)
    (hb : b.Sound env s) (h : userAct env turn b s = some (b', s')) : b'.Sound env s' := by
  unfold userAct at h
  split at h
  · obtain ⟨rfl, rfl⟩ := Prod.mk.inj (Option.some.inj h)
    exact ⟨identifies_requireWriteActor _, fun x hx => (by cases hx)⟩
  · obtain ⟨rfl, rfl⟩ := Prod.mk.inj (Option.some.inj h)
    trivial
  · rename_i cfg now draw r seen op k
    obtain ⟨rfl, rfl⟩ := Prod.mk.inj (Option.some.inj h)
    exact ⟨hb.1.2 _ _, sound_seenAfter (c := ⟨op, cfg, now, draw⟩) hs.1 hb.2⟩
  · obtain ⟨rfl, rfl⟩ := Prod.mk.inj (Option.some.inj h)
    obtain ⟨⟨x, rfl, rfl⟩, hseen⟩ := hb
    have hx := hseen x rfl
    have hname : canonical env x.user.username = x.user.username := by
      rw [hx.username]
      exact hx.named
    refine ⟨hname, handler_cautious rfl ?_ _, hseen⟩
    rw [hname, hx.username]
  · obtain ⟨rfl, rfl⟩ := Prod.mk.inj (Option.some.inj h)
    trivial
  · rename_i cfg now draw actor seen op k
    obtain ⟨rfl, rfl⟩ := Prod.mk.inj (Option.some.inj h)
    exact ⟨hb.1, hb.2.1.2 _ _, sound_seenAfter (c := ⟨op, cfg, now, draw⟩) hs.1 hb.2.2⟩
  · obtain ⟨rfl, rfl⟩ := Prod.mk.inj (Option.some.inj h)
    trivial
  · cases h

/-! ### Runs -/

/-- The actor on whose behalf a step of the request is. -/
def UserJob.actor : UserJob → Option UserSummary
  | .handling actor _ _ => some actor
  | _ => none

def UserJob.authenticates : UserJob → Bool
  | .authenticating .. => true
  | _ => false

/-- A request of an operator that acts on an account acts while no step has made the account
an admin's since the request read it. -/
def nonePromoted (env : Env) {κ : Type} (w : UserWorld κ) (turn : κ × UserTurn) : Bool :=
  match w.job turn.1 with
  | .handling actor (some x) (.call op _) =>
      actor.role ≠ .operator || (op.touches env).isNone || w.store.promoted x.name ≤ x.time
  | _ => true

section Runs

variable {env : Env} {κ : Type} [DecidableEq κ] {allow : UserWorld κ → κ × UserTurn → Bool} {T : Tables}
  {w : UserWorld κ}

omit [DecidableEq κ] in
theorem user_keeps (hlower : LowerKeepsSlugs env) :
    Threads.Keeps (κ := κ) (userAct env) allow (AuthState.Sound env) (UserJob.Sound env) (fun _ _ => True) where
  own := by
    intro w k turn b s hw _ h
    refine ⟨?_, userAct_sound hw.store (hw.each k) h⟩
    rcases userAct_store h with rfl | ⟨c, rfl, -⟩
    · exact hw.store
    · exact hw.store.serve hlower c
  other := by
    intro w k turn b s hw _ h k' _
    refine ⟨?_, trivial, trivial⟩
    rcases userAct_store h with rfl | ⟨c, rfl, -⟩
    · exact hw.each k'
    · exact (hw.each k').serve c

theorem user_holds (hlower : LowerKeepsSlugs env) (hT : NamesCanonical env T)
    (h : Runs.Later (Threads.step (userAct env)) allow (UserWorld.initial κ T) w) :
    Threads.Holds (AuthState.Sound env) (UserJob.Sound env) (fun _ _ => True) w := by
  have hstart : Threads.Holds (AuthState.Sound env) (UserJob.Sound env) (fun _ _ => True)
      (UserWorld.initial κ T) := ⟨⟨hT, hT⟩, fun _ => trivial, fun _ _ _ => trivial⟩
  exact hstart.later (user_keeps hlower) h

end Runs

section Step

variable {env : Env} {s : AuthState} {c : Call} {actor : UserSummary} {seen : Option Seen}

theorem users_of_looksUp (h : c.op.looksUp = true) :
    (s.serve env c).2.conn.view.users = s.conn.view.users :=
  alone_aside (forward_looksUp h) s.conn

/-- One call for an operator, that of an account no step has promoted since it was read. -/
theorem spares_of_permitted (hlower : LowerKeepsSlugs env) (hseen : ∀ x ∈ seen, x.Sound env s)
    (hrole : actor.role = .operator) (hop : Permitted env actor seen c.op)
    (hnone : ∀ x ∈ seen, c.op.touches env = none ∨ s.promoted x.name ≤ x.time) :
    SparesAdmins s.conn.view.users (s.serve env c).2.conn.view.users := by
  obtain ⟨op, cfg, now, draw⟩ := c
  cases hop with
  | admin _ h => rw [hrole] at h; cases h
  | looksUp _ h => exact .of_eq (users_of_looksUp h)
  | creates u p role _ hne =>
    have hname : validateRole env role.name.toList = .ok role := by
      have hkeeps : env.lower (strip role.name.toList) = role.name.toList :=
        canonical_of_slug hlower (by cases role <;> decide)
      unfold validateRole
      rw [hkeeps]
      cases role <;> rfl
    rcases alone_createUser env now draw u p role.name.toList s.conn with heq | ⟨row, r, -, hr, hrow, hins⟩
    · exact .of_eq heq
    · refine .of_insert hins ?_
      rw [hname] at hr
      rw [hrow, ← Except.ok.inj hr]
      exact hne
  | touches _ x _ hx htouches hne =>
    refine .of_changesOnly (changesOnly_touches htouches s.conn) ?_
    have hpromoted : s.promoted x.name ≤ x.time := by
      rcases hnone x hx with h | h
      · rw [h] at htouches
        cases htouches
      · exact h
    rcases (hseen x hx).since hne with hnot | htime
    · exact hnot
    · exact absurd htime (Nat.not_lt.mpr hpromoted)
  | ownPassword p h => rw [hrole] at h; cases h

/-- One call for an auditor. -/
theorem own_of_permitted (hname : canonical env actor.username = actor.username)
    (hrole : actor.role = .audit) (hop : Permitted env actor seen c.op) :
    ChangesOnly actor.username User.besidesPassword s.conn.view.users (s.serve env c).2.conn.view.users := by
  obtain ⟨op, cfg, now, draw⟩ := c
  cases hop with
  | admin _ h => rw [hrole] at h; cases h
  | looksUp _ h =>
    rw [users_of_looksUp h]
    exact .refl
  | creates _ _ _ h => rw [hrole] at h; cases h
  | touches _ _ h => rw [hrole] at h; cases h
  | ownPassword p _ =>
    have h := alone_within (forward_setPassword env draw actor.username p) s.conn
    rw [hname] at h
    exact h

end Step

/-- **Operators affect no admin, and auditors nothing but their own password.**  In every run
in which no account is made an admin's between the moment an operator's request reads it and
the moment it acts: a step for an operator changes no admin's account and makes no admin, a
step for an auditor changes no account but its own, and of that the password and the lockout,
and a step that finds out the actor changes no account. -/
theorem operators_spare_admins {env : Env} (hlower : LowerKeepsSlugs env) {κ : Type} [DecidableEq κ] {T : Tables}
    (hT : NamesCanonical env T) {w w' : UserWorld κ}
    (h : Runs.Later (Threads.step (userAct env)) (nonePromoted env) (UserWorld.initial κ T) w) {k : κ}
    {turn : UserTurn} (hallow : nonePromoted env w (k, turn) = true)
    (hstep : Threads.step (userAct env) (k, turn) w = some w') :
    (∀ actor, (w.job k).actor = some actor →
      (actor.role = .operator → SparesAdmins w.users w'.users) ∧
      (actor.role = .audit → ChangesOnly actor.username User.besidesPassword w.users w'.users)) ∧
    ((w.job k).authenticates = true → w'.users = w.users) := by
  have hholds := user_holds hlower hT h
  have hjob := hholds.each k
  obtain ⟨b, s, hact, rfl⟩ := Threads.step_ok hstep
  show (∀ actor, (w.job k).actor = some actor →
      (actor.role = .operator → SparesAdmins w.store.conn.view.users s.conn.view.users) ∧
      (actor.role = .audit →
        ChangesOnly actor.username User.besidesPassword w.store.conn.view.users s.conn.view.users)) ∧
    ((w.job k).authenticates = true → s.conn.view.users = w.store.conn.view.users)
  cases hb : w.job k with
  | idle => exact ⟨fun _ h => (by cases h), fun h => (by cases h)⟩
  | answered reply => exact ⟨fun _ h => (by cases h), fun h => (by cases h)⟩
  | authenticating r seen p =>
    refine ⟨fun _ h => (by cases h), fun _ => ?_⟩
    rw [hb] at hact hjob
    rcases userAct_store hact with rfl | ⟨c, rfl, hidle | hnext⟩
    · rfl
    · cases hidle
    · cases p with
      | ret _ => cases hnext
      | call op k =>
        obtain rfl := Option.some.inj hnext
        exact users_of_looksUp hjob.1.1
  | handling actor seen p =>
    refine ⟨?_, fun h => (by cases h)⟩
    rintro _ ⟨rfl⟩
    rw [hb] at hact hjob
    obtain ⟨hname, hcautious, hseen⟩ := hjob
    rcases userAct_store hact with rfl | ⟨c, rfl, hidle | hnext⟩
    · exact ⟨fun _ => .of_eq rfl, fun _ => .refl⟩
    · cases hidle
    · cases p with
      | ret _ => cases hnext
      | call op k =>
        obtain rfl := Option.some.inj hnext
        refine ⟨fun hrole => spares_of_permitted hlower hseen hrole hcautious.1 ?_,
          fun hrole => own_of_permitted hname hrole hcautious.1⟩
        rintro x rfl
        rw [nonePromoted, hb] at hallow
        simp only [hrole, ne_eq, not_true_eq_false, decide_false, Bool.false_or, Bool.or_eq_true,
          Option.isNone_iff_eq_none, decide_eq_true_eq] at hallow
        exact hallow

/-! ### A run -/

def demoAccount (username : String) (role : Role) : User :=
  ⟨username.toList, "scrypt$old".toList, 0, false, none, 0, none, role⟩

/-- An admin with a device token, an operator with a session, and another operator. -/
def demoAccounts : Tables where
  users := ⟨[demoAccount "admin" .admin, demoAccount "olga" .operator, demoAccount "tom" .operator], by decide⟩
  sessions := ⟨[⟨demoDigest "sid-1".toList, "olga".toList, demoDigest "csrf-1".toList, 0, 0, 1000, false⟩], by decide⟩
  deviceTokens := ⟨[⟨demoDigest "tok-1".toList, "admin".toList, "cli".toList, 0, none, false⟩], by decide⟩

def demoReset : AuthRequest UserRoute :=
  ⟨"sid-1".toList, "csrf-1".toList, [], .setPassword "tom".toList "second-password".toList⟩

def demoPromote : AuthRequest UserRoute :=
  ⟨[], [], "Bearer tok-1".toList, .setRole "tom".toList "admin".toList⟩

def demoNext : UserTurn := .next {} 100 demoDraw

/-- The operator's request up to the moment it acts; in between, if at all, the admin's. -/
def demoTurns (promoted : Bool) : List (Bool × UserTurn) :=
  (false, .receive demoReset) :: List.replicate 4 (false, demoNext) ++
    if promoted then (true, .receive demoPromote) :: List.replicate 4 (true, demoNext) else []

/-- The state that those turns lead to. -/
def demoAt (allow : UserWorld Bool → Bool × UserTurn → Bool) (promoted : Bool) : Option (UserWorld Bool) :=
  Runs.run (Threads.step (userAct demoEnv)) allow (demoTurns promoted) (UserWorld.initial Bool demoAccounts)

/-- An operator reads the account of another operator, an admin makes that one an admin, and
the operator's request sets the admin's password. -/
theorem operator_resets_admin_password :
    ∃ w w' : UserWorld Bool,
      Runs.Later (Threads.step (userAct demoEnv)) (fun _ _ => true) (UserWorld.initial Bool demoAccounts) w ∧
      Threads.step (userAct demoEnv) (false, demoNext) w = some w' ∧
      (∃ actor, (w.job false).actor = some actor ∧ actor.role = .operator) ∧ ¬ SparesAdmins w.users w'.users := by
  have hrun : (demoAt (fun _ _ => true) true).any (fun w : UserWorld Bool =>
      (w.job false).actor.any (fun actor => actor.role = .operator) &&
      (Threads.step (userAct demoEnv) (false, demoNext) w).any fun w' : UserWorld Bool =>
        (w.users.find? "tom".toList).any fun r =>
          r.role = .admin && !decide (w'.users.find? "tom".toList = some r)) = true := by
    decide +kernel
  obtain ⟨w, hw, htest⟩ := (Option.any_eq_true _ _).mp hrun
  rw [Bool.and_eq_true] at htest
  obtain ⟨actor, hactor, hrole⟩ := (Option.any_eq_true _ _).mp htest.1
  obtain ⟨w', hstep, hrest⟩ := (Option.any_eq_true _ _).mp htest.2
  obtain ⟨r, hr, hadmin⟩ := (Option.any_eq_true _ _).mp hrest
  rw [Bool.and_eq_true, Bool.not_eq_true', decide_eq_false_iff_not, decide_eq_true_eq] at hadmin
  refine ⟨w, w', Runs.Later.of_run hw, hstep, ⟨actor, hactor, of_decide_eq_true hrole⟩, fun hspares => ?_⟩
  exact hadmin.2 ((hspares _ r hadmin.1).mp hr)

/-- The same request with nothing in between. -/
theorem operators_spare_admins_reset :
    ∃ w w' : UserWorld Bool,
      Runs.Later (Threads.step (userAct demoEnv)) (nonePromoted demoEnv) (UserWorld.initial Bool demoAccounts) w ∧
      Threads.step (userAct demoEnv) (false, demoNext) w = some w' ∧
      (∃ actor, (w.job false).actor = some actor ∧ actor.role = .operator) ∧
      w'.users.find? "tom".toList ≠ w.users.find? "tom".toList ∧ SparesAdmins w.users w'.users := by
  have hrun : (demoAt (nonePromoted demoEnv) false).any (fun w : UserWorld Bool =>
      nonePromoted demoEnv w (false, demoNext) &&
      (w.job false).actor.any (fun actor => actor.role = .operator) &&
      (Threads.step (userAct demoEnv) (false, demoNext) w).any fun w' : UserWorld Bool =>
        !decide (w'.users.find? "tom".toList = w.users.find? "tom".toList)) = true := by
    decide +kernel
  obtain ⟨w, hw, htest⟩ := (Option.any_eq_true _ _).mp hrun
  rw [Bool.and_eq_true, Bool.and_eq_true] at htest
  obtain ⟨actor, hactor, hrole⟩ := (Option.any_eq_true _ _).mp htest.1.2
  obtain ⟨w', hstep, hchanged⟩ := (Option.any_eq_true _ _).mp htest.2
  rw [Bool.not_eq_true', decide_eq_false_iff_not] at hchanged
  have hrole := of_decide_eq_true hrole
  have hlater := Runs.Later.of_run hw
  have hspares := operators_spare_admins lowerKeepsSlugs_demoEnv (T := demoAccounts) (by decide) hlater htest.1.1 hstep
  exact ⟨w, w', hlater, hstep, ⟨actor, hactor, hrole⟩, hchanged, (hspares.1 actor hactor).1 hrole⟩

end CyClaw.Auth

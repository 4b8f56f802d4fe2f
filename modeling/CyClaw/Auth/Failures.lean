/-
What an operation leaves when one of its statements raises.

Only the operations that insert and commit one row in a handler roll back.  Every other
operation lets the exception pass and leaves its earlier writes in the open transaction of
the manager's connection, where the next call that commits, a listing of the users say,
makes them permanent.  `leaves_no_trace_iff` says exactly when nothing is left: the
operation rolls back, or no write it has made so far touched a row.
-/
import CyClaw.Auth.Paths
import CyClaw.Lib.FailedCalls

namespace CyClaw.Auth

open Transactions

variable {env : Env} {M : Type}

/-! ### How an operation goes on when a statement raises -/

/-- What the call does next, if its next statement raises. -/
def Handled (env : Env) (M : Type) (c : Call) (ws : List (Write × Nat)) (p : Body) : Prop :=
  ∀ e p', Sys.onFault (S := authService env M) e p = some p' →
    if c.op.rollsBack then (∃ a, p' = .rollback (.ret a)) ∨ ws = [] ∧ ∃ a, p' = .ret a
    else ∃ a, p' = .ret a

section Statements

variable {c : Call} {ws : List (Write × Nat)}

theorem handled_ret (a : Outcome) : Everywhere (Handled env M c) (.ret a : Body) ws := by
  intro e p' hp
  cases hp

/-- The next statement lets what it raises pass. -/
private theorem handled_pass {p : Body} (hws : c.op.rollsBack = true → ws = [])
    (hp : ∀ e p', Sys.onFault (S := authService env M) e p = some p' → ∃ a, p' = .ret a) :
    Handled env M c ws p := by
  intro e p' hfault
  by_cases hroll : c.op.rollsBack = true
  · rw [if_pos hroll]
    exact Or.inr ⟨hws hroll, hp e p' hfault⟩
  · rw [if_neg hroll]
    exact hp e p' hfault

theorem handled_query {q : Query} {k : q.Res → Body} (hws : c.op.rollsBack = true → ws = [])
    (hk : ∀ r, Everywhere (Handled env M c) (k r) ws) :
    Everywhere (Handled env M c) (query q k) ws := by
  refine ⟨handled_pass hws ?_, ?_⟩
  · rintro e p' ⟨rfl⟩
    exact ⟨_, rfl⟩
  · intro x
    cases x with
    | ok r => exact hk r
    | error e => exact handled_ret _

theorem handled_execute {w : Write} {k : Nat → Body} (hws : c.op.rollsBack = true → ws = [])
    (hk : ∀ n, Everywhere (Handled env M c) (k n) (ws ++ [(w, n)])) :
    Everywhere (Handled env M c) (execute w k) ws := by
  refine ⟨handled_pass hws ?_, hk, fun e => handled_ret _⟩
  rintro e p' ⟨rfl⟩
  exact ⟨_, rfl⟩

theorem handled_commit {k : Body} (hws : c.op.rollsBack = true → ws = [])
    (hk : Everywhere (Handled env M c) k []) : Everywhere (Handled env M c) (commit k) ws := by
  refine ⟨handled_pass hws ?_, hk, fun e => handled_ret _⟩
  rintro e p' ⟨rfl⟩
  exact ⟨_, rfl⟩

theorem handled_checked {α : Type} {x : Except PolicyError α} {k : α → Body}
    (hk : ∀ a, Everywhere (Handled env M c) (k a) ws) :
    Everywhere (Handled env M c) (checked x k) ws := by
  cases x with
  | ok a => exact hk a
  | error e => exact handled_ret _

/-- One write and its commit, with the handler around both. -/
theorem handled_commitOrRollback {w : Write} {a b : Outcome} (hroll : c.op.rollsBack = true) :
    Everywhere (Handled env M c) (commitOrRollback w (.ret a) (.ret b)) [] := by
  have hback : ∀ e, ∃ a', rollbackFrom (.ret a) e = .rollback (.ret a') := by
    intro e
    rw [rollbackFrom]
    by_cases he : e = .unique
    · exact ⟨a, by rw [if_pos he]⟩
    · exact ⟨_, by rw [if_neg he]; rfl⟩
  have hreturns : ∀ (e : DbError) ws, Everywhere (Handled env M c) (rollbackFrom (.ret a) e) ws := by
    intro e ws
    obtain ⟨a', ha'⟩ := hback e
    rw [ha']
    refine ⟨?_, handled_ret _⟩
    rintro e p' ⟨⟩
  have hhandled : ∀ (p : Body) ws, (∀ e, Sys.onFault (S := authService env M) e p =
      some (rollbackFrom (.ret a) e)) → Handled env M c ws p := by
    intro p ws hp e p' hfault
    rw [hp e, Option.some.injEq] at hfault
    rw [if_pos hroll, ← hfault]
    exact Or.inl (hback e)
  refine ⟨hhandled _ _ (fun e => rfl), ?_, fun e => hreturns e _⟩
  intro n
  exact ⟨hhandled _ _ (fun e => rfl), handled_ret _, fun e => hreturns e _⟩

end Statements

theorem handled_body (env : Env) (M : Type) (c : Call) :
    Everywhere (Handled env M c) (c.body env) [] := by
  obtain ⟨op, cfg, now, draw⟩ := c
  cases op with
  | close =>
      refine ⟨?_, handled_ret _⟩
      rintro e p' ⟨⟩
  | _ =>
      simp only [Call.body, ensureSchema, bootstrapIfEmpty, createUser, getUser, listUsers,
        countEnabledAdmins, setRole, raiseGuardedWriteError, deleteUser, disableUser, enableUser,
        setPassword, needsPasswordSetup, bootstrapSetPassword, login, recordFailure, claimAndMint,
        createSession, validateSession, rotateCsrf, withLiveSession, logout, createDeviceToken,
        verifyDeviceToken, listDeviceTokens, revokeDeviceToken, endReadTxn]
      repeat' first
        | exact handled_ret _
        | exact handled_commitOrRollback rfl
        | refine handled_query (fun _ => rfl) ?_
        | refine handled_query (absurd · Bool.false_ne_true) ?_
        | refine handled_execute (absurd · Bool.false_ne_true) ?_
        | refine handled_commit (fun _ => rfl) ?_
        | refine handled_commit (absurd · Bool.false_ne_true) ?_
        | refine handled_checked ?_
        | intro x
        | split

/-! ### What is left after the failure -/

variable [DecidableEq M] {T₀ : Tables} {σ σ' : Sys (authService env M)}

/-- A statement of client `m` raises: the database refuses it, or it fails for any other
reason. -/
def Raises (m : M) (r : Running (authService env M)) (σ σ' : Sys (authService env M)) : Prop :=
  (∃ e, Sys.step (.fault m e) σ = some σ') ∨
    Sys.step (.next m) σ = some σ' ∧
      ∃ w k e, r.prog = .write w k ∧ authDb.apply w (σ.view m) = .error e

/-- No commit from now on makes a write of the call permanent that touched a row. -/
def LeavesNoTrace (id : Nat) (σ : Sys (authService env M)) : Prop :=
  ∀ (σ' : Sys (authService env M)) (i j : Nat) (log : List (Entry (authService env M))),
    Later (fun _ _ => True) σ σ' → σ.trace.length ≤ i → σ'.event i = some (.commit j log) →
      ∀ x ∈ log, x.call = id → x.rows = 0

/-- A statement that raises changes nothing but how its call goes on. -/
theorem raises_spec {m : M} {r : Running (authService env M)} (hm : σ.running m = some r)
    (h : Raises m r σ σ') :
    ∃ e p, Sys.onFault e r.prog = some p ∧
      σ'.running = Function.update σ.running m (some { r with prog := p }) ∧
      σ'.logOf = σ.logOf ∧ σ'.trace = σ.trace := by
  obtain ⟨e, hstep⟩ | ⟨hstep, w, k, e, hp, hw⟩ := h
  · cases stepped hstep with
    | @fault _ r' _ p hm' hp =>
        rw [hm, Option.some.injEq] at hm'
        rw [← hm'] at hp ⊢
        exact ⟨e, p, hp, rfl, rfl, rfl⟩
  · cases stepped hstep with
    | ret hm' hp' | ask hm' hp' | commit hm' hp' | rollback hm' hp' =>
        rw [hm, Option.some.injEq] at hm'
        rw [← hm', hp] at hp'
        cases hp'
    | wrote hm' hp' hb hw' =>
        rw [hm, Option.some.injEq] at hm'
        rw [← hm', hp] at hp'
        cases hp'
        rw [hw] at hw'
        cases hw'
    | refused hm' hp' hb hw' =>
        rw [hm, Option.some.injEq] at hm'
        rw [← hm'] at hp' ⊢
        refine ⟨_, _, by rw [hp']; rfl, rfl, ?_, rfl⟩
        funext m'
        rw [Sys.logOf, txnOf_of_txn rfl]
        by_cases hne : m = m'
        · rw [if_pos hne, ← hne]
          rfl
        · rw [if_neg hne, logOf_of_none (txnOf_unblocked hb (Ne.symm hne))]
          rfl

/-- How the call goes on. -/
theorem raises_handled (h : Later (fun _ _ => True) (Sys.idle T₀) σ) {m : M}
    {r : Running (authService env M)} (hm : σ.running m = some r) {e : DbError} {p : Body}
    (hp : Sys.onFault (S := authService env M) e r.prog = some p) :
    if r.call.op.rollsBack then (∃ a, p = .rollback (.ret a)) ∨ r.pending = [] ∧ ∃ a, p = .ret a
    else ∃ a, p = .ret a :=
  (everywhere (P := Handled env M) (handled_body env M) h hm).here e p hp

/-- The rows a call has touched so far, as its client's log has them. -/
theorem pending_untouched (h : Later (fun _ _ => True) (Sys.idle T₀) σ) {m : M}
    {r : Running (authService env M)} (hm : σ.running m = some r) :
    (∀ x ∈ r.pending, x.2 = 0) ↔ ∀ x ∈ σ.logOf m, x.call = r.id → x.rows = 0 := by
  rw [← ((books h).calls m r hm).own]
  constructor
  · intro hzero x hx hcall
    refine hzero x.effect (List.mem_map_of_mem (List.mem_filter.mpr ⟨hx, ?_⟩))
    exact decide_eq_true hcall
  · intro hzero y hy
    obtain ⟨x, hx, rfl⟩ := List.mem_map.mp hy
    rw [List.mem_filter, decide_eq_true_eq] at hx
    exact hzero x hx.1 hx.2

/-- A call that rolls back, or has touched no row, has nothing left to make permanent. -/
theorem spent_of_raises (h : Later (fun _ _ => True) (Sys.idle T₀) σ) {m : M}
    {r : Running (authService env M)} (hm : σ.running m = some r) (hraises : Raises m r σ σ')
    (hleft : r.call.op.rollsBack = true ∨ ∀ x ∈ r.pending, x.2 = 0) : Spent r.id σ' := by
  obtain ⟨e, p, hp, hrun, hlog, htrace⟩ := raises_spec hm hraises
  have hhandled := raises_handled h hm hp
  have hm' : σ'.running m = some { r with prog := p } := by rw [hrun, Function.update_self]
  have hending : Ending p := by
    split at hhandled
    · obtain hback | ⟨-, hret⟩ := hhandled
      · exact Or.inr hback
      · exact Or.inl hret
    · exact Or.inl hhandled
  refine ⟨?_, ?_, ?_⟩
  · rw [htrace]
    exact (List.getElem?_eq_some_iff.mp ((books h).calls m r hm).started).1
  · intro m₁ r₁ hm₁ hid
    by_cases hne : m₁ = m
    · rw [hne, hm', Option.some.injEq] at hm₁
      rw [← hm₁]
      exact hending
    · rw [hrun, Function.update_of_ne hne] at hm₁
      exact absurd hid.symm ((books h).id_ne hm hm₁ hne)
  · intro m₁
    rw [hlog]
    by_cases hne : m₁ = m
    · rw [hne]
      by_cases hback : ∃ a, p = .rollback (.ret a)
      · obtain ⟨a, ha⟩ := hback
        exact Or.inl ⟨_, a, hm', ha⟩
      · -- No rollback: nothing was pending, or what was touched no row.
        refine Or.inr ((pending_untouched h hm).mp ?_)
        obtain hroll | hzero := hleft
        · rw [if_pos hroll] at hhandled
          obtain hret | ⟨hnil, -⟩ := hhandled
          · exact absurd hret hback
          · rw [hnil]
            nofun
        · exact hzero
    · refine Or.inr ?_
      intro x hx hcall
      exact absurd ((books h).entry_owner hm hx hcall) hne

/-- The next listing of the users commits what a call left that does not roll back. -/
theorem trace_of_raises (h : Later (fun _ _ => True) (Sys.idle T₀) σ) {m : M}
    {r : Running (authService env M)} (hm : σ.running m = some r) (hraises : Raises m r σ σ')
    (hroll : r.call.op.rollsBack = false) (hno : LeavesNoTrace r.id σ') :
    ∀ x ∈ r.pending, x.2 = 0 := by
  obtain ⟨e, p, hp, hrun, hlog, htrace⟩ := raises_spec hm hraises
  have hhandled := raises_handled h hm hp
  rw [hroll] at hhandled
  obtain ⟨a, ha⟩ := hhandled
  have hm' : σ'.running m = some { r with prog := p } := by rw [hrun, Function.update_self]
  have hlist : (authService env M).body { r.call with op := .listUsers } = listUsers := rfl
  obtain ⟨σ₂, i, j, hlater, hlo, hi⟩ := commits_left hm' ha hlist (fun _ => ⟨_, rfl⟩)
  rw [pending_untouched h hm, ← hlog]
  exact hno σ₂ i j _ hlater hlo hi

/-- **A failed operation leaves no trace if and only if it rolls back or has touched no row.**
For every operation, at every statement of it, in every state of every run. -/
theorem leaves_no_trace_iff (h : Later (fun _ _ => True) (Sys.idle T₀) σ) {m : M}
    {r : Running (authService env M)} (hm : σ.running m = some r) (hraises : Raises m r σ σ') :
    LeavesNoTrace r.id σ' ↔ r.call.op.rollsBack = true ∨ ∀ x ∈ r.pending, x.2 = 0 := by
  constructor
  · intro hno
    by_cases hroll : r.call.op.rollsBack = true
    · exact Or.inl hroll
    · rw [Bool.not_eq_true] at hroll
      exact Or.inr (trace_of_raises h hm hraises hroll hno)
  · intro hleft σ₂ i j log hlater hlo hi
    exact spent_later (spent_of_raises h hm hraises hleft) hlater hlo hi

/-! ### Two failures -/

def anyStep (_ : Sys (authService env M)) (_ : Action (authService env M)) : Bool := true

theorem later_any {steps : List (Action (authService env M))} (h : Sys.run anyStep steps σ = some σ') :
    Later (fun _ _ => True) σ σ' :=
  later_mono (fun _ _ _ => trivial) (later_run h)

/-- Up to the commit of a device token. -/
def tokenSteps : List (Action (authService demoEnv Bool)) :=
  demoSteps true .bootstrapIfEmpty 100 4 ++
    demoSteps true (.createDeviceToken bootstrapUsername []) 110 3

/-- The commit of a device token raises: the token is rolled back. -/
theorem leaves_no_trace_createDeviceToken :
    ∃ (σ σ' : Sys (authService demoEnv Bool)) (r : Running (authService demoEnv Bool)),
      Sys.run anyStep tokenSteps (Sys.idle Tables.empty) = some σ ∧ σ.running true = some r ∧
      (∃ x ∈ r.pending, x.2 ≠ 0) ∧ Sys.step (.fault true DbError.operational) σ = some σ' ∧
      LeavesNoTrace r.id σ' := by
  have hrun : (Sys.run anyStep tokenSteps (Sys.idle Tables.empty)).any (fun σ =>
      (σ.running true).any (fun r => r.call.op.rollsBack && r.pending.any (·.2 ≠ 0)) &&
        (Sys.step (.fault true DbError.operational) σ).isSome) = true := by
    decide +kernel
  obtain ⟨σ, hσ, hcheck⟩ := (Option.any_eq_true _ _).mp hrun
  rw [Bool.and_eq_true] at hcheck
  obtain ⟨r, hm, hr⟩ := (Option.any_eq_true _ _).mp hcheck.1
  obtain ⟨σ', hσ'⟩ := Option.isSome_iff_exists.mp hcheck.2
  simp only [Bool.and_eq_true, List.any_eq_true, decide_eq_true_eq] at hr
  refine ⟨σ, σ', r, hσ, hm, hr.2, hσ', ?_⟩
  exact (leaves_no_trace_iff (later_any hσ) hm (Or.inl ⟨_, hσ'⟩)).mpr (Or.inl hr.1)

/-- A new password for the first account, up to the statement that revokes its sessions. -/
def passwordSteps : List (Action (authService demoEnv Bool)) :=
  demoSteps true .bootstrapIfEmpty 100 4 ++
    demoSteps true (.setPassword bootstrapUsername "second-password".toList) 110 1

/-- After that statement raises, the call returns and the same manager lists the users. -/
def listingSteps : List (Action (authService demoEnv Bool)) :=
  .next true :: demoSteps true .listUsers 120 3

/-- The password that the failed call was to set, as the database has it. -/
def secondPassword (T : Tables) : Bool :=
  (T.users.find? bootstrapUsername).any fun row =>
    hashPassword demoEnv demoSalt "second-password".toList = .ok row.passwordHash

/-- The listing has committed a row that the failed call touched. -/
def listingSeen (σ : Sys (authService demoEnv Bool)) : Bool :=
  match σ.event 8 with
  | some (.commit _ log) => log.any fun x => x.call = 4 && x.rows ≠ 0
  | _ => false

/-- The password of a `setPassword` that raised is in force after the next listing. -/
theorem setPassword_leaves_trace :
    ∃ (σ σ₁ σ₂ : Sys (authService demoEnv Bool)) (r : Running (authService demoEnv Bool)),
      Later (fun _ _ => True) (Sys.idle Tables.empty) σ ∧ σ.running true = some r ∧
      r.call.op = .setPassword bootstrapUsername "second-password".toList ∧
      Raises true r σ σ₁ ∧ ¬ LeavesNoTrace r.id σ₁ ∧
      Sys.run anyStep listingSteps σ₁ = some σ₂ ∧ secondPassword σ₁.committed = false ∧
      secondPassword σ₂.committed = true := by
  have hrun : (Sys.run anyStep passwordSteps (Sys.idle Tables.empty)).any (fun σ =>
      (σ.running true).any (fun r =>
        r.id = 4 && r.call.op = .setPassword bootstrapUsername "second-password".toList) &&
      (Sys.step (.fault true DbError.operational) σ).any (fun σ₁ =>
        !secondPassword σ₁.committed && decide (σ₁.trace.length ≤ 8) &&
        (Sys.run anyStep listingSteps σ₁).any fun σ₂ =>
          secondPassword σ₂.committed && listingSeen σ₂)) = true := by
    decide +kernel
  obtain ⟨σ, hσ, hcheck⟩ := (Option.any_eq_true _ _).mp hrun
  rw [Bool.and_eq_true] at hcheck
  obtain ⟨r, hm, hr⟩ := (Option.any_eq_true _ _).mp hcheck.1
  obtain ⟨σ₁, hσ₁, hcheck₁⟩ := (Option.any_eq_true _ _).mp hcheck.2
  simp only [Bool.and_eq_true, Bool.not_eq_true', decide_eq_true_eq] at hr hcheck₁
  obtain ⟨σ₂, hσ₂, hcheck₂⟩ := (Option.any_eq_true _ _).mp hcheck₁.2
  rw [Bool.and_eq_true] at hcheck₂
  refine ⟨σ, σ₁, σ₂, r, later_any hσ, hm, hr.2, Or.inl ⟨_, hσ₁⟩, ?_, hσ₂, hcheck₁.1.1, hcheck₂.1⟩
  intro hno
  have hseen := hcheck₂.2
  rw [listingSeen] at hseen
  split at hseen
  · rename_i j log hi
    rw [List.any_eq_true] at hseen
    obtain ⟨x, hx, hbad⟩ := hseen
    simp only [Bool.and_eq_true, decide_eq_true_eq] at hbad
    exact hbad.2 (hno σ₂ 8 j log (later_any hσ₂) hcheck₁.1.2 hi x hx (hbad.1.trans hr.1.symm))
  · cases hseen

end CyClaw.Auth

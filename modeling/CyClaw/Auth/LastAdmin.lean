/-
An enabled admin is never lost.

Three statements can take the last enabled admin away: a role change, a delete and a
disable.  Each carries the guard in its `WHERE` clause, so it is judged against the very
tables it changes, and that is all the argument needs: whatever rows the guarded statement
selects, some enabled admin is not among them.  Every other statement leaves enabled
admins as they are, so the property is kept write by write, however the calls of different
managers interleave and wherever they raise.
-/
import CyClaw.Auth.Paths

namespace CyClaw.Auth

open Transactions

/-- `users` has a row that is an admin and enabled. -/
def HasEnabledAdmin (T : Tables) : Prop := ∃ r ∈ T.users.rows, r.isEnabledAdmin = true

instance (T : Tables) : Decidable (HasEnabledAdmin T) :=
  inferInstanceAs (Decidable (∃ r ∈ T.users.rows, r.isEnabledAdmin = true))

/-! ### One write -/

/-- An enabled admin that a guarded statement about `u` does not select. -/
theorem exists_guarded {t : Users} (h : ∃ r ∈ t.rows, r.isEnabledAdmin = true) (u : Text) :
    ∃ r ∈ t.rows, r.isEnabledAdmin = true ∧ (r.username = u && lastAdminGuard t r) = false := by
  obtain ⟨a, ha, hadmin⟩ := h
  by_cases hcount : t.count User.isEnabledAdmin ≤ 1
  · -- The last one: the guard is false of it.
    refine ⟨a, ha, hadmin, ?_⟩
    simp [lastAdminGuard, hadmin, hcount]
  · by_cases hu : a.username = u
    · obtain ⟨b, hb, hbadmin, hne⟩ := Table.exists_other_of_count (Nat.lt_of_not_le hcount) a
      refine ⟨b, hb, hbadmin, ?_⟩
      have hbu : b.username ≠ u := by
        intro hbu
        exact hne (Table.eq_of_key hb ha (hbu.trans hu.symm))
      simp [hbu]
    · exact ⟨a, ha, hadmin, by simp [hu]⟩

/-- A row that an update does not select, or that stays an enabled admin, is still there. -/
theorem exists_update {t : Users} {p : User → Bool} {f : User → User}
    {hf : ∀ r, (f r).username = r.username}
    (h : ∃ r ∈ t.rows, r.isEnabledAdmin = true ∧ (p r = true → (f r).isEnabledAdmin = true)) :
    ∃ r ∈ (t.update p f hf).rows, r.isEnabledAdmin = true := by
  obtain ⟨r, hr, hadmin, hset⟩ := h
  refine ⟨if p r then f r else r, Table.mem_update.mpr ⟨r, hr, rfl⟩, ?_⟩
  by_cases hp : p r = true
  · rw [if_pos hp]
    exact hset hp
  · rw [if_neg hp]
    exact hadmin

/-- Accounts are disabled through the guarded statement only. -/
def Guarded : Write → Prop
  | .users (.setDisabled d _) => d = false
  | _ => True

theorem UserWrite.apply_keeps_admin {w : UserWrite} {t t' : Users} {n : Nat}
    (hw : Guarded (.users w)) (h : ∃ r ∈ t.rows, r.isEnabledAdmin = true)
    (happly : w.apply t = .ok (n, t')) : ∃ r ∈ t'.rows, r.isEnabledAdmin = true := by
  -- Updates whose `SET` clause keeps enabled admins enabled admins.
  have harmless : w.updates = true →
      (∀ r : User, r.isEnabledAdmin = true → (w.set r).isEnabledAdmin = true) →
      ∃ r ∈ t'.rows, r.isEnabledAdmin = true := by
    intro hup hset
    rw [apply_update hup, Except.ok.injEq, Prod.mk.injEq] at happly
    obtain ⟨r, hr, hadmin⟩ := h
    rw [← happly.2]
    exact exists_update ⟨r, hr, hadmin, fun _ => hset r hadmin⟩
  -- Updates with the guard.
  have guarded : ∀ u, w.updates = true →
      (∀ r : User, w.selects t r = (decide (r.username = u) && lastAdminGuard t r)) →
      ∃ r ∈ t'.rows, r.isEnabledAdmin = true := by
    intro u hup hsel
    rw [apply_update hup, Except.ok.injEq, Prod.mk.injEq] at happly
    obtain ⟨r, hr, hadmin, hnot⟩ := exists_guarded h u
    rw [← happly.2]
    refine exists_update ⟨r, hr, hadmin, ?_⟩
    intro hp
    rw [hsel, hnot] at hp
    cases hp
  cases w with
  | insert row =>
      obtain ⟨r, hr, hadmin⟩ := h
      refine ⟨r, ?_, hadmin⟩
      rw [(Table.insert?_eq_some (apply_insert.mp happly).2).1]
      exact List.mem_append_left _ hr
  | setRole role u =>
      by_cases hrole : role = .admin
      · refine harmless rfl ?_
        intro r hr
        simp only [User.isEnabledAdmin, Bool.and_eq_true] at hr
        simp [set, User.isEnabledAdmin, hrole, hr.2]
      · refine guarded u rfl ?_
        intro r
        simp [selects, hrole]
  | delete u =>
      simp only [apply, Except.ok.injEq, Prod.mk.injEq] at happly
      rw [← happly.2]
      obtain ⟨r, hr, hadmin, hnot⟩ := exists_guarded h u
      exact ⟨r, Table.mem_delete.mpr ⟨hr, hnot⟩, hadmin⟩
  | disable u => exact guarded u rfl (fun _ => rfl)
  | setDisabled d u =>
      refine harmless rfl ?_
      intro r hr
      simp only [User.isEnabledAdmin, Bool.and_eq_true] at hr
      simp only [Guarded] at hw
      simp [set, User.isEnabledAdmin, hw, hr.1]
  | promoteBootstrap =>
      refine harmless rfl ?_
      intro r hr
      simp only [User.isEnabledAdmin, Bool.and_eq_true] at hr
      simp [set, User.isEnabledAdmin, hr.2]
  | setPassword | claimBootstrapPassword | claimLogin | loginFailure | resetLockout =>
      -- Neither the role nor the flag is written.
      exact harmless rfl (fun r hr => hr)

theorem apply_keeps_admin {w : Write} {T T' : Tables} {n : Nat} (hw : Guarded w)
    (h : HasEnabledAdmin T) (happly : w.apply T = .ok (n, T')) : HasEnabledAdmin T' := by
  cases w with
  | users w =>
      obtain ⟨t, ht, rfl⟩ := Write.apply_users.mp happly
      exact UserWrite.apply_keeps_admin hw h ht
  | sessions w =>
      obtain ⟨t, ht, rfl⟩ := Write.apply_sessions.mp happly
      exact h
  | tokens w =>
      obtain ⟨t, ht, rfl⟩ := Write.apply_tokens.mp happly
      exact h

/-! ### Every call -/

/-- No operation clears or sets the flag of an account but through a guarded statement; the
branches of a body only choose between statements. -/
theorem guarded_body (env : Env) (c : Call) : Writes Guarded (c.body env) := by
  refine (makes_body env c).mono fun w hw => ?_
  unfold Guarded
  split
  · exact hw.1
  · trivial

/-! ### Every run -/

variable {env : Env} {M : Type} [DecidableEq M]

/-- **Once there is an enabled admin there is one from then on**, whatever managers do and
wherever their statements raise. -/
theorem enabled_admin_remains {T₀ : Tables} {σ σ' : Sys (authService env M)}
    (h : Later (fun _ _ => True) (Sys.idle T₀) σ) (h' : Later (fun _ _ => True) σ σ')
    (hadmin : HasEnabledAdmin σ.committed) : HasEnabledAdmin σ'.committed := by
  refine committed_inv (Q := Guarded) (fun c => guarded_body env c) ?_ h h' hadmin
  intro w T n T' hw hT happly
  exact apply_keeps_admin hw hT happly

/-- One manager bootstraps the admin, another tries to disable it. -/
theorem enabled_admin_remains_disableUser :
    ∃ σ σ' : Sys (authService demoEnv Bool),
      Sys.run (fun _ _ => true) (demoSteps true .bootstrapIfEmpty 100 4) (Sys.idle Tables.empty) =
        some σ ∧
      Sys.run (fun _ _ => true) (demoSteps false (.disableUser bootstrapUsername) 200 4) σ = some σ' ∧
      HasEnabledAdmin σ.committed ∧ HasEnabledAdmin σ'.committed := by
  have hfirst : ((Sys.run (fun _ _ => true) (demoSteps true .bootstrapIfEmpty 100 4)
      (Sys.idle Tables.empty)).map fun σ => decide (HasEnabledAdmin σ.committed)) = some true := by
    decide +kernel
  have hsecond : ((Sys.run (fun _ _ => true) (demoSteps true .bootstrapIfEmpty 100 4)
      (Sys.idle Tables.empty)).bind (Sys.run (fun _ _ => true)
        (demoSteps false (.disableUser bootstrapUsername) 200 4))).isSome = true := by
    decide +kernel
  obtain ⟨σ, hσ, hadmin⟩ := Option.map_eq_some_iff.mp hfirst
  rw [hσ, Option.bind_some, Option.isSome_iff_exists] at hsecond
  obtain ⟨σ', hσ'⟩ := hsecond
  rw [decide_eq_true_eq] at hadmin
  refine ⟨σ, σ', hσ, hσ', hadmin, ?_⟩
  exact enabled_admin_remains (later_mono (fun _ _ _ => trivial) (later_run hσ))
    (later_mono (fun _ _ _ => trivial) (later_run hσ')) hadmin

end CyClaw.Auth

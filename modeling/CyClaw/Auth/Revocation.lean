/-
Revocation and credentials that are still being issued.

`disable_user` and `delete_user` revoke the credentials they find.  A call that has read
the account before and inserts its credential after is not among them, and once the
account is enabled or created again the credential works.  `create_device_token` goes
straight into this window, and `login` does when the account is enabled again before its
claim; `token_survives_disable` is such a run.

Without that order nothing survives: `revocation_covers` shows it of every run in which no
call commits a credential for an account that was disabled or deleted since the call read
its row.  The credential is then in the tables when the removal runs, the removal revokes
it in the same transaction, and a revoked row stays revoked.
-/
import CyClaw.Auth.Credentials

namespace CyClaw.Auth

open Transactions

variable {env : Env} {M : Type}

/-! ### The property -/

/-- The account a write disables or deletes. -/
def Write.removes : Write → Option Text
  | .users (.delete u) => some u
  | .users (.disable u) => some u
  | _ => none

/-- The entry disabled or deleted `u`. -/
def removesUser (u : Text) (e : Entry (authService env M)) : Bool :=
  decide (0 < e.rows) && decide (e.write.removes = some u)

/-- **No credential outlives the removal of its account**, if the call that issued it read
the account before the removal was committed: no check that starts after it accepts it. -/
def RevocationCovers (σ : Sys (authService env M)) : Prop :=
  ∀ ⦃x : Credential⦄ ⦃i id : Nat⦄ ⦃a : Outcome⦄ ⦃t : Nat⦄ ⦃u : Text⦄ ⦃row : Option User⦄
    ⦃d j : Nat⦄ ⦃log : List (Entry (authService env M))⦄ ⦃v : Nat⦄ ⦃m : M⦄ ⦃c : Call⦄ ⦃k : Nat⦄
    ⦃b : Outcome⦄,
    σ.trace[i]? = some (.ret id a) → HandsOut x a →
    σ.trace[t]? = some (.ask id (.getUser u) row) →
    σ.trace[d]? = some (.commit j log) → log.any (removesUser u) = true → t < d →
    σ.trace[v]? = some (.start m c) → c.op.presents = some x → d < v →
    σ.trace[k]? = some (.ret v b) → accepted b = false

/-! ### The order that matters -/

def readsUser (u : Text) (rd : Read authDb) : Bool :=
  match rd.query with
  | .getUser v => v = u
  | _ => false

/-- A removal of `u` was committed at `t` or later. -/
def removedSince (τ : List (Event (authService env M))) (t : Nat) (u : Text) : Bool :=
  (τ.drop t).any fun
    | .commit _ log => log.any (removesUser u)
    | _ => false

/-- Nothing raises, and no call commits a credential for an account that was disabled or
deleted since the call read its row. -/
def prompt [DecidableEq M] (σ : Sys (authService env M)) : Action (authService env M) → Bool
  | .start _ _ => true
  | .fault _ _ => false
  | .next m =>
      match σ.running m with
      | none => true
      | some r =>
          match r.prog with
          | .commit _ =>
              r.pending.all fun p => p.1.issuedTo.all fun u =>
                r.reads.all fun rd => !(readsUser u rd && removedSince σ.trace rd.time u)
          | _ => true

theorem removedSince_of_commit {τ : List (Event (authService env M))} {t d j : Nat} {u : Text}
    {log : List (Entry (authService env M))} (hd : τ[d]? = some (.commit j log))
    (hlog : log.any (removesUser u) = true) (htd : t ≤ d) : removedSince τ t u = true := by
  rw [removedSince, List.any_eq_true]
  refine ⟨.commit j log, ?_, hlog⟩
  rw [List.mem_iff_getElem?]
  refine ⟨d - t, ?_⟩
  rw [List.getElem?_drop, Nat.add_sub_cancel' htd]
  exact hd

theorem Left.issuedTo {w : Write} (h : Left w) : w.issuedTo = none := by
  match w, h with
  | .users (.claimLogin ..), _ => rfl
  | .users (.setPassword ..), _ => rfl
  | .users (.claimBootstrapPassword ..), _ => rfl
  | .users (.resetLockout _), _ => rfl
  | .sessions (.revokeForUser _), _ => rfl

/-! ### Every prompt run -/

variable [DecidableEq M] {T₀ : Tables} {σ : Sys (authService env M)}

theorem prompt_quiet : ∀ (σ : Sys (authService env M)) (m : M) (e : DbError),
    ¬ prompt σ (.fault m e) = true :=
  fun _ _ _ h => Bool.false_ne_true h

/-- A transaction that removes an account revokes every credential of it and issues none. -/
theorem Txn.revokes {c : Call} {ws : List (Write × Nat)} (h : Txn env c ws) {p : Write × Nat}
    (hp : p ∈ ws) (hn : 0 < p.2) {u : Text} (hu : p.1.removes = some u) (x : Credential) :
    (∃ q ∈ ws, Revokes env u x q.1) ∧ ∀ q ∈ ws, q.1.issuedTo = none := by
  have absurd_of_none : (∀ q ∈ ws, q.1.removes = none) →
      (∃ q ∈ ws, Revokes env u x q.1) ∧ ∀ q ∈ ws, q.1.issuedTo = none := by
    intro hnone
    rw [hnone p hp] at hu
    cases hu
  cases h with
  | remove w v n a b hop hw _ =>
      have hv : canonical env v = u := by
        simp only [List.mem_cons, List.not_mem_nil, or_false] at hp
        obtain rfl | rfl | rfl := hp
        · obtain rfl | rfl := hw <;> exact Option.some.inj hu
        · cases hu
        · cases hu
      refine ⟨?_, ?_⟩
      · cases x with
        | session sid => exact ⟨(.sessions (.revokeForUser (canonical env v)), a), by simp, hv⟩
        | token tok => exact ⟨(.tokens (.revokeForUser (canonical env v)), b), by simp, hv⟩
      · obtain rfl | rfl := hw <;> simp [Write.issuedTo]
  | missed w =>
      rw [List.mem_singleton] at hp
      rw [hp] at hn
      cases hn
  | routine w n hop hw =>
      refine absurd_of_none ?_
      intro q hq
      rw [List.mem_singleton] at hq
      rw [hq]
      match w, hw with
      | .users .promoteBootstrap, _ => rfl
      | .users (.setRole _ _), _ => rfl
      | .sessions _, _ => rfl
      | .tokens _, _ => rfl
  | login v p hash rehash n hop hrehash _ =>
      refine absurd_of_none ?_
      obtain rfl | ⟨record, k, rfl⟩ := hrehash <;> simp [Write.removes]
  | reads | bootstrap | create | enable | password | firstPassword | failure =>
      exact absurd_of_none (by simp [Write.removes])

/-- So does the log of a committed removal. -/
theorem revokes_of_removes (h : Later (prompt · · = true) (Sys.idle T₀) σ) {d j : Nat}
    {log : List (Entry (authService env M))} (hd : σ.trace[d]? = some (.commit j log)) {u : Text}
    (hlog : log.any (removesUser u) = true) (x : Credential) :
    (∃ e ∈ log, Revokes env u x e.write) ∧ ∀ e ∈ log, e.write.issuedTo = none := by
  obtain ⟨σ₁, σ₂, m, r, h₁, -, -, -, rfl, hcommit⟩ := occurred_commit h hd
  obtain ⟨k, hp⟩ := hcommit.at_commit
  have hshape := running_shape prompt_quiet h₁ hcommit.running
  rw [hp] at hshape
  obtain ⟨old, hsplit⟩ := (settled_left prompt_quiet h₁).split hcommit.running
  rw [List.any_eq_true] at hlog
  obtain ⟨e, he, hremoves⟩ := hlog
  simp only [removesUser, Bool.and_eq_true, decide_eq_true_eq] at hremoves
  rw [hsplit.log] at he ⊢
  rw [List.mem_append, List.mem_map] at he
  obtain he | ⟨p, hmem, rfl⟩ := he
  · -- No call leaves a removal behind.
    have hleft := (hsplit.left e he).1
    match e, hremoves.2, hleft with
    | ⟨_, .users (.delete _), _⟩, _, hleft => cases hleft
    | ⟨_, .users (.disable _), _⟩, _, hleft => cases hleft
  · obtain ⟨⟨q, hq, hrevokes⟩, hnone⟩ := hshape.revokes hmem hremoves.1 hremoves.2 x
    refine ⟨⟨_, List.mem_append_right _ (List.mem_map_of_mem hq), hrevokes⟩, ?_⟩
    intro e he
    rw [List.mem_append, List.mem_map] at he
    obtain he | ⟨q, hq, rfl⟩ := he
    · exact (hsplit.left e he).1.issuedTo
    · exact hnone q hq

/-- **In every prompt run removals cover what was being issued.** -/
theorem revocation_covers (h : Later (prompt · · = true) (Sys.idle T₀) σ) : RevocationCovers σ := by
  intro x i id a t u row d j log v m c k b hi hx ht hd hlog htd hv hpresents hdv hk
  by_contra hb
  rw [Bool.not_eq_false] at hb
  obtain ⟨u', n, log', e, -, hn, he, hcall, hissues, huser⟩ := issued prompt_quiet h hi hx
  obtain rfl : u = u' := huser t u row ht
  obtain ⟨⟨r, hr, hrevokes⟩, hnone⟩ := revokes_of_removes h hd hlog x
  have hissued := hissues.issuedTo
  -- The credential was committed before the removal.
  have hnd : n < d := by
    by_contra hge
    obtain ⟨σ₁, σ₂, m₁, r₁, h₁, hlater, hlen, hid, rfl, hcommit⟩ := occurred_commit h hn
    obtain ⟨k₁, hp⟩ := hcommit.at_commit
    have hbooks := (books h₁).calls m₁ r₁ hcommit.running
    have hto := hcommit.later.trans hlater
    -- What the commit was allowed to do.
    have hprompt := hcommit.allowed
    simp only [prompt, hcommit.running, hp, List.all_eq_true] at hprompt
    have hmem : e.effect ∈ r₁.pending := by
      rw [← hbooks.own]
      refine List.mem_map_of_mem (List.mem_filter.mpr ⟨he, ?_⟩)
      rw [hid, decide_eq_true_eq]
      exact hcall
    have hread := hbooks.asked t (.getUser u) row (by
      rw [hid]
      exact trace_earlier hto ht (by omega))
    have hok := hprompt _ hmem
    rw [show e.effect.1.issuedTo = some u from hissued, Option.all_some, List.all_eq_true] at hok
    have hsince := hok _ hread
    by_cases heq : n = d
    · -- One commit cannot do both.
      rw [heq, hd] at hn
      simp only [Option.some.injEq, Event.commit.injEq] at hn
      rw [hnone e (hn.2 ▸ he)] at hissued
      cases hissued
    · rw [removedSince_of_commit (trace_earlier hto hd (by omega)) hlog (Nat.le_of_lt htd)] at hsince
      simp [readsUser] at hsince
  obtain ⟨-, σ₁, h₁, hlater, hlen, hnot⟩ := not_dead_of_accepted prompt_quiet h hv hpresents hk hb
  refine hnot (dead_of_commit h₁ (trace_earlier hlater hd (by omega)) hr hrevokes ?_)
  intro σ₂ h₂ hlater₂ hlen₂
  have hn₂ := trace_earlier (hlater₂.trans hlater) hn (by omega)
  exact owned_of_commit h₂ hn₂ he hissues

def bob : Text := "bob".toList

def createBob : List (Action (authService demoEnv Bool)) :=
  demoSteps true (.createUser bob "second-password".toList "operator".toList) 100 4

/-- A token issued, the account disabled and enabled, the token presented. -/
theorem revocation_covers_disable :
    ∃ σ : Sys (authService demoEnv Bool),
      Sys.run prompt (createBob ++ demoSteps true (.createDeviceToken bob []) 110 5 ++
        demoSteps false (.disableUser bob) 120 5 ++ demoSteps false (.enableUser bob) 130 4 ++
        demoSteps true (.verifyDeviceToken "tok-1".toList) 140 3) (Sys.idle Tables.empty) = some σ ∧
      RevocationCovers σ := by
  have hrun : (Sys.run prompt (createBob ++ demoSteps true (.createDeviceToken bob []) 110 5 ++
      demoSteps false (.disableUser bob) 120 5 ++ demoSteps false (.enableUser bob) 130 4 ++
      demoSteps true (.verifyDeviceToken "tok-1".toList) 140 3) (Sys.idle Tables.empty)).isSome =
        true := by decide +kernel
  obtain ⟨σ, hσ⟩ := Option.isSome_iff_exists.mp hrun
  exact ⟨σ, hσ, revocation_covers (later_run hσ)⟩

/-! ### The window -/

/-- The token call reads the account, another manager disables it, the token call goes on,
and the account is enabled again. -/
def windowSteps : List (Action (authService demoEnv Bool)) :=
  createBob ++ demoSteps true (.createDeviceToken bob []) 110 1 ++
    demoSteps false (.disableUser bob) 120 5 ++ List.replicate 4 (.next true) ++
    demoSteps false (.enableUser bob) 130 4 ++
    demoSteps true (.verifyDeviceToken "tok-1".toList) 140 4

/-- The events of that run: the return of the token, the read, the removal, and a check that
starts after it and accepts. -/
def windowSeen (σ : Sys (authService demoEnv Bool)) : Bool :=
  match σ.event 11, σ.event 5, σ.event 7, σ.event 15, σ.event 18 with
  | some (.ret 4 (.ok (.token tok))), some (.ask 4 (.getUser u) _), some (.commit _ log),
      some (.start _ c), some (.ret 15 b) =>
      log.any (removesUser u) && decide (c.op.presents = some (.token tok)) && accepted b
  | _, _, _, _, _ => false

/-- The token outlives the account's removal. -/
theorem token_survives_disable :
    ∃ σ : Sys (authService demoEnv Bool),
      Later (quiet · · = true) (Sys.idle Tables.empty) σ ∧ ¬ RevocationCovers σ := by
  have hrun : (Sys.run quiet windowSteps (Sys.idle Tables.empty)).any windowSeen = true := by
    decide +kernel
  obtain ⟨σ, hσ, hcheck⟩ := (Option.any_eq_true _ _).mp hrun
  refine ⟨σ, later_run hσ, ?_⟩
  intro hcovers
  rw [windowSeen] at hcheck
  split at hcheck
  · rename_i tok u row j log m c b hret hask hcommit hstart hend
    simp only [Bool.and_eq_true, decide_eq_true_eq] at hcheck
    have hno := hcovers hret (.token tok) hask hcommit hcheck.1.1 (by decide) hstart hcheck.1.2
      (by decide) hend
    rw [hcheck.2] at hno
    cases hno
  · cases hcheck

end CyClaw.Auth

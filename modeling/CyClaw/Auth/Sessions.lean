/-
Sessions that were found dead stay dead.

A check answers `None` when the session's row is revoked, when it has expired, or when its
account is gone or disabled.  The first is permanent, and the second is written down as a
revocation.  The third is permanent only because removing an account revokes its sessions:
while every unrevoked session belongs to an enabled account (`Live`), a session that is not
found is revoked.

`bootstrap_set_password` does not look at the account's flag.  When the admin is disabled
before its first password is set, the session it mints is unrevoked and not found, and it
comes to life when the admin is enabled (`session_revives`).  In every run in which that
does not happen, `dead_sessions_stay_dead`.
-/
import CyClaw.Auth.Credentials

namespace CyClaw.Auth

open Transactions

/-! ### Every unrevoked session belongs to an enabled account -/

def Live (T : Tables) : Prop :=
  ∀ s ∈ T.sessions.rows, s.revoked = false → T.enabled s.username = true

theorem enabled_iff {T : Tables} {u : Text} :
    T.enabled u = true ↔ ∃ r ∈ T.users.rows, r.username = u ∧ r.disabled = false := by
  rw [Tables.enabled, Option.any_eq_true]
  constructor
  · rintro ⟨r, hr, hd⟩
    obtain ⟨hmem, hu⟩ := Table.find?_eq_some.mp hr
    exact ⟨r, hmem, hu, by simpa using hd⟩
  · rintro ⟨r, hmem, hu, hd⟩
    exact ⟨r, Table.find?_eq_some.mpr ⟨hmem, hu⟩, by simpa using hd⟩

/-- Writes that remove no account and issue no session. -/
def Write.calm : Write → Bool
  | .users (.delete _) | .users (.disable _) => false
  | .users (.setDisabled d _) => !d
  | .sessions (.insert _) => false
  | _ => true

theorem Left.calm {w : Write} (h : Left w) : w.calm = true := by
  match w, h with
  | .users (.claimLogin ..), _ => rfl
  | .users (.setPassword ..), _ => rfl
  | .users (.claimBootstrapPassword ..), _ => rfl
  | .users (.resetLockout _), _ => rfl
  | .sessions (.revokeForUser _), _ => rfl

theorem Write.calm_of_routine {w : Write} (h : w.routine = true) : w.calm = true := by
  match w, h with
  | .users .promoteBootstrap, _ => rfl
  | .users (.setRole _ _), _ => rfl
  | .sessions (.touch _ _), _ => rfl
  | .sessions (.rotateCsrf _ _ _), _ => rfl
  | .sessions (.revoke _), _ => rfl
  | .sessions (.revokeForUser _), _ => rfl
  | .tokens _, _ => rfl

section Writes

variable {w : Write} {T T' : Tables} {n : Nat} {u : Text}

/-- A row that an update of users leaves enabled. -/
private theorem enabled_update {w : UserWrite} (hw : w.updates = true) {t : Users}
    (ht : w.apply T.users = .ok (n, t))
    (h : ∃ r ∈ T.users.rows, r.username = u ∧ r.disabled = false ∧
      (w.selects T.users r = true → (w.set r).disabled = false)) :
    Tables.enabled { T with users := t } u = true := by
  obtain ⟨r, hr, hu, hd, hset⟩ := h
  rw [UserWrite.apply_update hw, Except.ok.injEq, Prod.mk.injEq] at ht
  obtain ⟨-, rfl⟩ := ht
  refine enabled_iff.mpr ⟨if w.selects T.users r then w.set r else r, ?_, ?_⟩
  · show _ ∈ (T.users.update (w.selects T.users) w.set w.set_username).rows
    rw [Table.mem_update]
    exact ⟨r, hr, rfl⟩
  · by_cases hsel : w.selects T.users r = true
    · rw [if_pos hsel, w.set_username]
      exact ⟨hu, hset hsel⟩
    · rw [if_neg hsel]
      exact ⟨hu, hd⟩

/-- Accounts that are enabled stay so. -/
theorem enabled_apply (hw : w.calm = true) (happly : w.apply T = .ok (n, T'))
    (h : T.enabled u = true) : T'.enabled u = true := by
  cases w with
  | sessions w =>
      obtain ⟨t, -, rfl⟩ := Write.apply_sessions.mp happly
      exact h
  | tokens w =>
      obtain ⟨t, -, rfl⟩ := Write.apply_tokens.mp happly
      exact h
  | users w =>
      obtain ⟨t, ht, rfl⟩ := Write.apply_users.mp happly
      obtain ⟨r, hr, hu, hd⟩ := enabled_iff.mp h
      cases w with
      | insert row =>
          refine enabled_iff.mpr ⟨r, ?_, hu, hd⟩
          rw [(Table.insert?_eq_some (UserWrite.apply_insert.mp ht).2).1]
          exact List.mem_append_left _ hr
      | delete v => cases hw
      | disable v => cases hw
      | setDisabled d v =>
          refine enabled_update rfl ht ⟨r, hr, hu, hd, fun _ => ?_⟩
          rw [Write.calm, Bool.not_eq_true'] at hw
          exact hw
      | setRole | setPassword | claimBootstrapPassword | claimLogin | loginFailure | resetLockout
      | promoteBootstrap => exact enabled_update rfl ht ⟨r, hr, hu, hd, fun _ => hd⟩

/-- Unrevoked sessions after an update were unrevoked before, with the same owner. -/
private theorem session_update {w : SessionWrite} (hw : w.updates = true) {t t' : Sessions}
    (ht : w.apply t = .ok (n, t')) {s' : Session} (hs' : s' ∈ t'.rows) (hrevoked : s'.revoked = false) :
    ∃ s ∈ t.rows, s.revoked = false ∧ s.username = s'.username ∧
      s' = if w.selects s then w.set s else s := by
  rw [SessionWrite.apply_update hw, Except.ok.injEq, Prod.mk.injEq] at ht
  rw [← ht.2] at hs'
  obtain ⟨s, hs, heq⟩ := Table.mem_update.mp hs'
  refine ⟨s, hs, ?_, ?_, heq⟩
  · cases hr : s.revoked with
    | false => rfl
    | true =>
        rw [heq] at hrevoked
        by_cases hsel : w.selects s = true
        · rw [if_pos hsel, (set_session w s).2 hr] at hrevoked
          cases hrevoked
        · rw [if_neg hsel, hr] at hrevoked
          cases hrevoked
  · rw [heq]
    by_cases hsel : w.selects s = true
    · rw [if_pos hsel]
      exact (set_session w s).1.symm
    · rw [if_neg hsel]

theorem live_apply (hw : w.calm = true) (happly : w.apply T = .ok (n, T')) (h : Live T) : Live T' := by
  cases w with
  | users w =>
      intro s hs hrevoked
      refine enabled_apply hw happly (h s ?_ hrevoked)
      obtain ⟨t, -, rfl⟩ := Write.apply_users.mp happly
      exact hs
  | tokens w =>
      obtain ⟨t, -, rfl⟩ := Write.apply_tokens.mp happly
      exact h
  | sessions w =>
      have hup : w.updates = true := by
        cases w <;> first | rfl | cases hw
      obtain ⟨t, ht, rfl⟩ := Write.apply_sessions.mp happly
      intro s' hs' hrevoked
      obtain ⟨s, hs, hr, hu, -⟩ := session_update hup ht hs' hrevoked
      rw [← hu]
      exact h s hs hr

theorem live_insert {row : Session} (happly : (Write.sessions (.insert row)).apply T = .ok (n, T'))
    (h : Live T) (henabled : T.enabled row.username = true) : Live T' := by
  obtain ⟨t, ht, rfl⟩ := Write.apply_sessions.mp happly
  have hrows := (Table.insert?_eq_some (SessionWrite.apply_insert.mp ht).2).1
  intro s hs hrevoked
  rw [hrows, List.mem_append, List.mem_singleton] at hs
  obtain hs | rfl := hs
  · exact h s hs hrevoked
  · exact henabled

/-- Removing an account takes no other account out of service. -/
theorem enabled_remove {w : UserWrite} (hw : w = .delete u ∨ w = .disable u)
    (happly : (Write.users w).apply T = .ok (n, T')) {v : Text} (hv : v ≠ u)
    (h : T.enabled v = true) : T'.enabled v = true := by
  obtain ⟨t, ht, rfl⟩ := Write.apply_users.mp happly
  obtain ⟨r, hr, hru, hd⟩ := enabled_iff.mp h
  have hsel : w.selects T.users r = false := by
    obtain rfl | rfl := hw <;> simp [UserWrite.selects, hru, hv]
  obtain rfl | rfl := hw
  · simp only [UserWrite.apply, Except.ok.injEq, Prod.mk.injEq] at ht
    refine enabled_iff.mpr ⟨r, ?_, hru, hd⟩
    rw [← ht.2]
    exact Table.mem_delete.mpr ⟨hr, hsel⟩
  · refine enabled_update rfl ht ⟨r, hr, hru, hd, ?_⟩
    intro htrue
    rw [hsel] at htrue
    cases htrue

end Writes

/-! ### Transactions -/

variable {env : Env}

/-- The password of the bootstrap admin was claimed. -/
def claimsBootstrap (p : Write × Nat) : Bool :=
  match p.1 with
  | .users (.claimBootstrapPassword ..) => decide (0 < p.2)
  | _ => false

theorem live_calm {ws : List (Write × Nat)} (hcalm : ∀ p ∈ ws, p.1.calm = true) {T T' : Tables}
    (h : Replay (D := authDb) T ws T') (hT : Live T) : Live T' :=
  replay_inv (Q := fun w => Write.calm w = true) (I := Live)
    (fun _ _ _ _ hw hT happly => live_apply hw happly hT) hcalm h hT

theorem enabled_calm {ws : List (Write × Nat)} (hcalm : ∀ p ∈ ws, p.1.calm = true) {T T' : Tables}
    (h : Replay (D := authDb) T ws T') {u : Text} (hT : T.enabled u = true) : T'.enabled u = true :=
  replay_inv (Q := fun w => Write.calm w = true) (I := fun T => Tables.enabled T u = true)
    (fun _ _ _ _ hw hT happly => enabled_apply hw happly hT) hcalm h hT

/-- A login that claimed its row found the account enabled. -/
theorem enabled_of_claimLogin {now : ℚ} {u hash : Text} {T T' : Tables} {n : Nat} (hn : 0 < n)
    (happly : (Write.users (.claimLogin now u hash)).apply T = .ok (n, T')) : T.enabled u = true := by
  obtain ⟨t, ht, -⟩ := Write.apply_users.mp happly
  rw [UserWrite.apply_update rfl, Except.ok.injEq, Prod.mk.injEq] at ht
  rw [← ht.1, Table.count_pos] at hn
  obtain ⟨r, hr, hsel⟩ := hn
  simp only [UserWrite.selects, Bool.and_eq_true, decide_eq_true_eq, Bool.not_eq_true'] at hsel
  exact enabled_iff.mpr ⟨r, hr, hsel.1.1.1, hsel.1.2⟩

/-- Removing an account and revoking its sessions. -/
theorem live_remove {w : UserWrite} {u : Text} (hw : w = .delete u ∨ w = .disable u) {n a : Nat}
    {T T₁ T₂ : Tables} (h₁ : (Write.users w).apply T = .ok (n, T₁))
    (h₂ : (Write.sessions (.revokeForUser u)).apply T₁ = .ok (a, T₂)) (hT : Live T) : Live T₂ := by
  have hsessions : T₁.sessions = T.sessions := by
    obtain ⟨t, -, rfl⟩ := Write.apply_users.mp h₁
    rfl
  intro s' hs' hrevoked
  obtain ⟨t, ht, rfl⟩ := Write.apply_sessions.mp h₂
  obtain ⟨s, hs, hr, hu, heq⟩ := session_update rfl ht hs' hrevoked
  rw [hsessions] at hs
  by_cases hne : s.username = u
  · -- Its own sessions are revoked.
    have hsel : (SessionWrite.revokeForUser u).selects s = true := by
      simp [SessionWrite.selects, hne, hr]
    rw [if_pos hsel] at heq
    rw [heq] at hrevoked
    cases hrevoked
  · rw [← hu]
    exact enabled_remove hw h₁ hne (hT s hs hr)

/-- **Every transaction keeps sessions and accounts together**, if it does not set the first
password of a disabled admin. -/
theorem Txn.live {c : Call} {ws : List (Write × Nat)} (h : Txn env c ws) {T T' : Tables}
    (hreplay : Replay (D := authDb) T ws T') (hT : Live T)
    (hfirst : ws.any claimsBootstrap = true → T'.enabled bootstrapUsername = true) : Live T' := by
  cases h with
  | missed w =>
      obtain ⟨U, hU, rfl⟩ := replay_cons.mp hreplay
      rw [Write.apply_zero hU]
      exact hT
  | routine w n hop hw =>
      refine live_calm ?_ hreplay hT
      intro p hp
      rw [List.mem_singleton] at hp
      rw [hp]
      exact Write.calm_of_routine hw
  | remove w u n a b hop hw hn =>
      obtain ⟨T₁, h₁, hrest⟩ := replay_cons.mp hreplay
      obtain ⟨T₂, h₂, hrest⟩ := replay_cons.mp hrest
      obtain ⟨T₃, h₃, rfl⟩ := replay_cons.mp hrest
      exact live_apply rfl h₃ (live_remove hw h₁ h₂ hT)
  | firstPassword p record pending n a b hop hrecord hpending hn =>
      obtain ⟨T₁, h₁, hrest⟩ := replay_cons.mp hreplay
      obtain ⟨T₂, h₂, hrest⟩ := replay_cons.mp hrest
      obtain ⟨T₃, h₃, hrest⟩ := replay_cons.mp hrest
      obtain ⟨T₄, h₄, rfl⟩ := replay_cons.mp hrest
      have hlive : Live T₃ := live_apply rfl h₃ (live_apply rfl h₂ (live_apply rfl h₁ hT))
      refine live_insert h₄ hlive ?_
      have henabled := hfirst (by simp [claimsBootstrap, hn])
      obtain ⟨t, -, rfl⟩ := Write.apply_sessions.mp h₄
      exact henabled
  | login u p hash rehash n hop hrehash hn =>
      obtain ⟨T₁, h₁, hrest⟩ := replay_cons.mp hreplay
      obtain ⟨T₂, h₂, hrest⟩ := replay_append.mp hrest
      obtain ⟨T₃, h₃, rfl⟩ := replay_cons.mp hrest
      have hcalm : ∀ p ∈ rehash, p.1.calm = true := by
        obtain rfl | ⟨record, k, rfl⟩ := hrehash <;> simp [Write.calm]
      refine live_insert h₃ (live_calm hcalm h₂ (live_apply rfl h₁ hT)) ?_
      exact enabled_calm hcalm h₂ (enabled_apply rfl h₁ (enabled_of_claimLogin hn h₁))
  | reads | bootstrap | create | enable | password | failure =>
      exact live_calm (by simp [Write.calm]) hreplay hT

/-! ### The property -/

variable {M : Type}

/-- The call found no live session. -/
def refusedSession : Outcome → Bool
  | .ok (.session none) | .ok (.csrf none) => true
  | _ => false

/-- **Dead sessions stay dead**: once a check of an issued session has answered `None`, no
check that starts afterwards accepts it. -/
def DeadStaysDead (σ : Sys (authService env M)) : Prop :=
  ∀ ⦃i id : Nat⦄ ⦃result : LoginResult⦄ ⦃v : Nat⦄ ⦃m : M⦄ ⦃c : Call⦄ ⦃k : Nat⦄ ⦃b : Outcome⦄
    ⦃v' : Nat⦄ ⦃m' : M⦄ ⦃c' : Call⦄ ⦃k' : Nat⦄ ⦃b' : Outcome⦄,
    σ.trace[i]? = some (.ret id (.ok (.login result))) →
    σ.trace[v]? = some (.start m c) → c.op.presents = some (.session result.sessionId) → i < v →
    σ.trace[k]? = some (.ret v b) → refusedSession b = true →
    σ.trace[v']? = some (.start m' c') → c'.op.presents = some (.session result.sessionId) → k < v' →
    σ.trace[k']? = some (.ret v' b') → accepted b' = false

/-! ### Every run in which no disabled admin gets its first password -/

variable [DecidableEq M]

/-- Nothing raises, and no `bootstrap_set_password` commits while the admin is disabled. -/
def enabledClaims (σ : Sys (authService env M)) : Action (authService env M) → Bool
  | .start _ _ => true
  | .fault _ _ => false
  | .next m =>
      match σ.running m with
      | none => true
      | some r =>
          match r.prog with
          | .commit _ => !r.pending.any claimsBootstrap || (σ.view m).enabled bootstrapUsername
          | _ => true

variable {σ : Sys (authService env M)}

theorem enabledClaims_quiet : ∀ (σ : Sys (authService env M)) (m : M) (e : DbError),
    ¬ enabledClaims σ (.fault m e) = true :=
  fun _ _ _ h => Bool.false_ne_true h

/-- What earlier calls left keeps sessions and accounts together. -/
theorem live_left {m : M} {r : Running (authService env M)} {old : List (Entry (authService env M))}
    (hsplit : Split (fun x => Left x.1) σ m old r) {U : Tables}
    (hU : Replay (D := authDb) σ.committed (old.map Entry.effect) U) (h : Live σ.committed) : Live U := by
  refine live_calm ?_ hU h
  intro p hp
  obtain ⟨e, he, rfl⟩ := List.mem_map.mp hp
  exact (hsplit.left e he).1.calm

theorem live_committed (h : Later (enabledClaims · · = true) (Sys.idle Tables.empty) σ) :
    Live σ.committed := by
  induction h with
  | refl =>
      intro s hs
      cases hs
  | @tail σ₁ σ₂ hlater hnext ih =>
      obtain ⟨a, ha, hstep⟩ := hnext
      cases stepped hstep with
      | start hm => exact ih
      | ret hm hp => exact ih
      | ask hm hp => exact ih
      | wrote hm hp hb hw => exact ih
      | refused hm hp hb hw => exact ih
      | rollback hm hp => exact ih
      | fault hm hp => exact ih
      | @commit m r k hm hp =>
          have hshape := running_shape enabledClaims_quiet hlater hm
          rw [hp] at hshape
          obtain ⟨old, hsplit⟩ := (settled_left enabledClaims_quiet hlater).split hm
          obtain ⟨U, hU, hview⟩ := hsplit.replay (books hlater)
          refine hshape.live hview (live_left hsplit hU ih) ?_
          intro hclaims
          simp only [enabledClaims, hm, hp, hclaims, Bool.not_true, Bool.false_or] at ha
          exact ha

/-- A session that is there and is not found live is dead, to a call that has written
nothing. -/
theorem dead_of_unfound {sid : Text} {u : Text} {T : Tables} (hlive : Live T)
    (howned : Owned env (.session sid) u T)
    (hres : ∀ s, (Query.getSession (env.hashToken sid)).ask T = some s → s.revoked = true) :
    Dead env (.session sid) T := by
  obtain ⟨b, hb⟩ := howned
  cases b with
  | true => exact ⟨u, hb⟩
  | false =>
      obtain ⟨s, hs, heq⟩ := Option.map_eq_some_iff.mp hb
      simp only [Prod.mk.injEq] at heq
      have henabled := hlive s (Table.find?_eq_some.mp hs).1 heq.2
      have hask : (Query.getSession (env.hashToken sid)).ask T = some s := by
        rw [Query.ask, hs, Option.filter_some, if_pos henabled]
      rw [hres s hask] at heq
      cases heq.2

/-- A check that found no live session left it dead. -/
theorem dead_of_refused (h : Later (enabledClaims · · = true) (Sys.idle Tables.empty) σ)
    {sid u : Text} {v k : Nat} {m : M} {c : Call} {b : Outcome} (hsid : sid ≠ [])
    (howned : ∀ σ₁, Later (enabledClaims · · = true) (Sys.idle Tables.empty) σ₁ →
      Later (enabledClaims · · = true) σ₁ σ → v < σ₁.trace.length →
      Owned env (.session sid) u σ₁.committed)
    (hv : σ.trace[v]? = some (.start m c)) (hop : c.op.presents = some (.session sid))
    (hk : σ.trace[k]? = some (.ret v b)) (hb : refusedSession b = true) :
    Dead env (.session sid) σ.committed := by
  obtain ⟨σ₁, m₁, r, h₁, hlater, -, hm, rfl, hp⟩ := occurred_ret h hk
  have hbooks := books h₁
  have hcall := (call_of_start h₁ hlater hm hv).2
  have hshape := running_shape enabledClaims_quiet h₁ hm
  rw [hp, hcall] at hshape
  obtain ⟨hended, hleft⟩ := hshape
  -- Neither operation leaves anything or rolls back.
  obtain ⟨hsaw, hnot, hback⟩ : SawDead env sid r.reads r.kept ∧
      (∀ w, ¬ LeftBy refused c w) ∧ c.op.rollsBack = false := by
    cases hended with
    | sessionDead sid' hop' hrs =>
        rw [hop'] at hop
        obtain rfl := Credential.session.inj (Option.some.inj hop)
        refine ⟨hrs, ?_, by rw [hop']; rfl⟩
        intro w hw
        simpa [hop'] using hw.op
    | csrfDead sid' hop' hrs =>
        rw [hop'] at hop
        obtain rfl := Credential.session.inj (Option.some.inj hop)
        refine ⟨hrs, ?_, by rw [hop']; rfl⟩
        intro w hw
        simpa [hop'] using hw.op
    | plain _ hplain _ => match b, hb, hplain with
      | .ok (.session none), _, hplain => cases hplain
      | .ok (.csrf none), _, hplain => cases hplain
    | _ => cases hb
  have hdead : Dead env (.session sid) σ₁.committed := by
    obtain hnil | ⟨hkept, t, res, hres, hmem⟩ | ⟨n, hmem⟩ := hsaw
    · exact absurd hnil hsid
    · have hread := (hbooks.calls m₁ r hm).reads _ hmem
      obtain ⟨σ₂, m₂, r₂, k₂, h₂, hlater₂, hlen₂, hm₂, hid₂, hp₂, hask⟩ := occurred_ask h₁ hread
      have hv₂ : r.id < t := hbooks.event_lt t _ r.id hread rfl
      obtain ⟨rfl, hcall₂⟩ := call_of_start h₂ (hlater₂.trans hlater) hm₂ (hid₂ ▸ hv)
      obtain ⟨hm', -⟩ := call_of_start h₁ hlater hm hv
      rw [hm'] at hm
      -- The tables it read: the last commit and what earlier calls left.
      have hshape₂ := running_shape enabledClaims_quiet h₂ hm₂
      rw [hp₂] at hshape₂
      obtain ⟨old, hsplit⟩ := (settled_left enabledClaims_quiet h₂).split hm₂
      obtain ⟨U, hU, hview⟩ := hsplit.replay (books h₂)
      rw [hshape₂ _ rfl] at hview
      have hlive : Live (σ₂.view m₂) := by
        rw [show σ₂.view m₂ = U from hview]
        exact live_left hsplit hU (live_committed h₂)
      have howned₂ : Owned env (.session sid) u (σ₂.view m₂) :=
        view_stable (I := Owned env (.session sid) u) (fun _ _ _ _ hT hw => owned_apply hw hT) h₂
          (howned σ₂ h₂ (hlater₂.trans hlater) (hlen₂ ▸ hv₂)) m₂
      have hdead₂ : Dead env (.session sid) (σ₂.view m₂) := by
        refine dead_of_unfound hlive howned₂ ?_
        intro s hs
        exact hres s (hask.trans hs)
      -- The call saw this until it committed.
      have hdead₁ : Dead env (.session sid) (σ₁.view m₂) := by
        refine view_keeps (I := Dead env (.session sid)) (fun _ _ _ _ hT hw => dead_apply hw hT) h₂
          hlater₂ hm₂ hm hid₂.symm ?_ hdead₂
        intro σ₃ r₃ k₃ hlater₃ hm₃ hid₃ hroll
        have hshape₃ := running_shape enabledClaims_quiet (h₂.trans hlater₃) hm₃
        rw [hroll] at hshape₃
        have hstart := trace_later hlater₃ ((books h₂).calls m₂ r₂ hm₂).started
        rw [Shape, (call_of_start (h₂.trans hlater₃) .refl hm₃ (hid₃ ▸ hstart)).2, hcall₂, hback] at hshape₃
        cases hshape₃
      obtain ⟨old₁, hsplit₁⟩ := (settled_left enabledClaims_quiet h₁).split hm
      have hpending : r.pending = [] := by
        refine List.eq_nil_iff_forall_not_mem.mpr ?_
        intro x hx
        exact hnot x.1 (hleft x hx)
      rw [hsplit₁.view hbooks hkept hpending] at hdead₁
      exact hdead₁
    · obtain ⟨j, log, e, he, hj, -, heq⟩ := (hbooks.calls m₁ r hm).of_kept hmem
      have hrevokes : Revokes env u (.session sid) e.write := by
        rw [show e.write = .sessions (.revoke (env.hashToken sid)) from congrArg Prod.fst heq]
        rfl
      refine dead_of_commit h₁ hj he hrevokes ?_
      · intro σ₂ h₂ hlater₂ hlen
        have hlt : r.id < j := hbooks.event_lt j _ r.id hj rfl
        exact howned σ₂ h₂ (hlater₂.trans hlater) (by omega)
  exact committed_stable (I := Dead env (.session sid)) (fun _ _ _ _ hT hw => dead_apply hw hT) h₁
    hlater hdead

/-- **In every run in which no disabled admin gets its first password, dead sessions stay
dead.** -/
theorem dead_sessions_stay_dead (h : Later (enabledClaims · · = true) (Sys.idle Tables.empty) σ) :
    DeadStaysDead σ := by
  intro i id result v m c k b v' m' c' k' b' hi hv hop hiv hk hb hv' hop' hkv hk'
  by_contra hacc
  rw [Bool.not_eq_false] at hacc
  obtain ⟨u, j, log, e, hji, hj, he, -, hissues, -⟩ := issued enabledClaims_quiet h hi (.session result)
  obtain ⟨hne, σ₁, h₁, hlater, hlen, hnot⟩ := not_dead_of_accepted enabledClaims_quiet h hv' hop' hk' hacc
  have hvk : v < k := (books h).event_lt k _ v hk rfl
  have howned : ∀ σ₂, Later (enabledClaims · · = true) (Sys.idle Tables.empty) σ₂ →
      Later (enabledClaims · · = true) σ₂ σ₁ → v < σ₂.trace.length →
      Owned env (.session result.sessionId) u σ₂.committed := by
    intro σ₂ h₂ hlater₂ hlen₂
    exact owned_of_commit h₂ (trace_earlier (hlater₂.trans hlater) hj (by omega)) he hissues
  refine hnot (dead_of_refused h₁ ?_ howned (trace_earlier hlater hv (by omega)) hop
    (trace_earlier hlater hk (by omega)) hb)
  intro hnil
  exact hne (by rw [hnil])

/-- The admin sets its first password, logs out, and the session is checked twice. -/
def logoutSteps : List (Action (authService demoEnv Bool)) :=
  demoSteps true .bootstrapIfEmpty 100 4 ++
    demoSteps false (.bootstrapSetPassword "first-admin-secret".toList) 130 7 ++
    demoSteps false (.logout "sid-1".toList) 135 3 ++
    demoSteps false (.validateSession "sid-1".toList) 140 3 ++
    demoSteps true (.validateSession "sid-1".toList) 160 3

theorem dead_sessions_stay_dead_logout :
    ∃ σ : Sys (authService demoEnv Bool),
      Sys.run enabledClaims logoutSteps (Sys.idle Tables.empty) = some σ ∧ DeadStaysDead σ := by
  have hrun : (Sys.run enabledClaims logoutSteps (Sys.idle Tables.empty)).isSome = true := by
    decide +kernel
  obtain ⟨σ, hσ⟩ := Option.isSome_iff_exists.mp hrun
  exact ⟨σ, hσ, dead_sessions_stay_dead (later_run hσ)⟩

/-! ### The first password of a disabled admin -/

/-- The admin is disabled while another admin is enabled, gets its first password, and is
enabled again between two checks of the session that came with it. -/
def revivalSteps : List (Action (authService demoEnv Bool)) :=
  demoSteps true .bootstrapIfEmpty 100 4 ++
    demoSteps true (.createUser "bob".toList "second-password".toList "admin".toList) 110 4 ++
    demoSteps true (.disableUser bootstrapUsername) 120 5 ++
    demoSteps false (.bootstrapSetPassword "first-admin-secret".toList) 130 7 ++
    demoSteps false (.validateSession "sid-1".toList) 140 3 ++
    demoSteps true (.enableUser bootstrapUsername) 150 4 ++
    demoSteps false (.validateSession "sid-1".toList) 160 4

/-- The events of that run: the session, a check that finds it dead, and one that accepts it. -/
def revivalSeen (σ : Sys (authService demoEnv Bool)) : Bool :=
  match σ.event 14, σ.event 15, σ.event 18, σ.event 22, σ.event 25 with
  | some (.ret 11 (.ok (.login result))), some (.start _ c), some (.ret 15 b), some (.start _ c'),
      some (.ret 22 b') =>
      decide (c.op.presents = some (.session result.sessionId)) && refusedSession b &&
        decide (c'.op.presents = some (.session result.sessionId)) && accepted b'
  | _, _, _, _, _ => false

/-- The session comes to life. -/
theorem session_revives :
    ∃ σ : Sys (authService demoEnv Bool),
      Later (quiet · · = true) (Sys.idle Tables.empty) σ ∧ ¬ DeadStaysDead σ := by
  have hrun : (Sys.run quiet revivalSteps (Sys.idle Tables.empty)).any revivalSeen = true := by
    decide +kernel
  obtain ⟨σ, hσ, hcheck⟩ := (Option.any_eq_true _ _).mp hrun
  refine ⟨σ, later_run hσ, ?_⟩
  intro hdead
  rw [revivalSeen] at hcheck
  split at hcheck
  · rename_i result m c b m' c' b' hret hstart hrefused hstart' hend
    simp only [Bool.and_eq_true, decide_eq_true_eq] at hcheck
    obtain ⟨⟨⟨hop, hb⟩, hop'⟩, hb'⟩ := hcheck
    have hno := hdead hret hstart hop (by decide) hrefused hb hstart' hop' (by decide) hend
    rw [hb'] at hno
    cases hno
  · cases hcheck

end CyClaw.Auth

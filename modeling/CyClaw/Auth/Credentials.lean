/-
What the tables say about a credential.

To a caller a credential is a session id or a device token.  The tables hold one row for
its digest, and two fields of that row decide who it speaks for: the owner and the revoked
flag.  Every statement keeps the owner and none clears the flag, so a revoked credential
stays revoked, whatever the accounts do.
-/
import CyClaw.Auth.Paths

namespace CyClaw.Auth

open Transactions

inductive Credential where
  | session (sessionId : Text)
  | token (token : Text)
deriving DecidableEq

/-- The owner of a credential and whether it is revoked, if the tables have its row. -/
def Credential.row (env : Env) (T : Tables) : Credential → Option (Text × Bool)
  | .session sid => (T.sessions.find? (env.hashToken sid)).map fun s => (s.username, s.revoked)
  | .token t => (T.deviceTokens.find? (env.hashToken t)).map fun d => (d.username, d.revoked)

def Owned (env : Env) (x : Credential) (u : Text) (T : Tables) : Prop := ∃ b, x.row env T = some (u, b)

def Dead (env : Env) (x : Credential) (T : Tables) : Prop := ∃ u, x.row env T = some (u, true)

variable {env : Env} {x : Credential} {u : Text} {b : Bool} {T T' : Tables} {n : Nat} {w : Write}

/-! ### Writes -/

theorem set_session (w : SessionWrite) (s : Session) :
    (w.set s).username = s.username ∧ (s.revoked = true → (w.set s).revoked = true) := by
  cases w with
  | insert row => exact ⟨rfl, id⟩
  | touch now k => exact ⟨rfl, id⟩
  | rotateCsrf csrf now k => exact ⟨rfl, id⟩
  | revoke k => exact ⟨rfl, fun _ => rfl⟩
  | revokeForUser u => exact ⟨rfl, fun _ => rfl⟩

theorem set_token (w : TokenWrite) (t : DeviceToken) :
    (w.set t).username = t.username ∧ (t.revoked = true → (w.set t).revoked = true) := by
  cases w with
  | insert row => exact ⟨rfl, id⟩
  | touch now k => exact ⟨rfl, id⟩
  | revoke u l => exact ⟨rfl, fun _ => rfl⟩
  | revokeForUser u => exact ⟨rfl, fun _ => rfl⟩

/-- **Owners stay and flags only rise.** -/
theorem row_apply (hw : w.apply T = .ok (n, T')) (h : x.row env T = some (u, b)) :
    ∃ b', x.row env T' = some (u, b') ∧ (b = true → b' = true) := by
  cases w with
  | users w =>
      obtain ⟨t, -, rfl⟩ := Write.apply_users.mp hw
      cases x with
      | session sid => exact ⟨b, h, id⟩
      | token tok => exact ⟨b, h, id⟩
  | sessions w =>
      obtain ⟨t, ht, rfl⟩ := Write.apply_sessions.mp hw
      cases x with
      | token tok => exact ⟨b, h, id⟩
      | session sid =>
          obtain ⟨s, hs, heq⟩ := Option.map_eq_some_iff.mp h
          simp only [Prod.mk.injEq] at heq
          rw [Credential.row, SessionWrite.find?_apply ht hs, ← heq.1, ← heq.2]
          have hset := set_session w s
          by_cases hsel : w.selects s = true
          · exact ⟨(w.set s).revoked, by simp [hsel, hset.1], hset.2⟩
          · exact ⟨s.revoked, by simp [hsel], id⟩
  | tokens w =>
      obtain ⟨t, ht, rfl⟩ := Write.apply_tokens.mp hw
      cases x with
      | session sid => exact ⟨b, h, id⟩
      | token tok =>
          obtain ⟨d, hd, heq⟩ := Option.map_eq_some_iff.mp h
          simp only [Prod.mk.injEq] at heq
          rw [Credential.row, TokenWrite.find?_apply ht hd, ← heq.1, ← heq.2]
          have hset := set_token w d
          by_cases hsel : w.selects d = true
          · exact ⟨(w.set d).revoked, by simp [hsel, hset.1], hset.2⟩
          · exact ⟨d.revoked, by simp [hsel], id⟩

theorem owned_apply (hw : w.apply T = .ok (n, T')) (h : Owned env x u T) : Owned env x u T' := by
  obtain ⟨b, hb⟩ := h
  obtain ⟨b', hb', -⟩ := row_apply hw hb
  exact ⟨b', hb'⟩

theorem dead_apply (hw : w.apply T = .ok (n, T')) (h : Dead env x T) : Dead env x T' := by
  obtain ⟨u, hu⟩ := h
  obtain ⟨b', hb', htrue⟩ := row_apply hw hu
  exact ⟨u, by rw [hb', htrue rfl]⟩

/-- The write revokes what `u` holds under this credential. -/
def Revokes (env : Env) (u : Text) : Credential → Write → Prop
  | .session sid, .sessions (.revoke k) => k = env.hashToken sid
  | .session _, .sessions (.revokeForUser v) => v = u
  | .token _, .tokens (.revokeForUser v) => v = u
  | _, _ => False

theorem dead_of_revokes (hr : Revokes env u x w) (hw : w.apply T = .ok (n, T'))
    (h : Owned env x u T) : Dead env x T' := by
  obtain ⟨b, hb⟩ := h
  cases x with
  | session sid =>
      obtain ⟨s, hs, heq⟩ := Option.map_eq_some_iff.mp hb
      simp only [Prod.mk.injEq] at heq
      have hkey := (Table.find?_eq_some.mp hs).2
      -- Either statement selects the row unless it is revoked already.
      have hrevoked : ∀ v : SessionWrite, Write.sessions v = w →
          v.selects s = !s.revoked → (v.set s).revoked = true → Dead env (.session sid) T' := by
        rintro v rfl hsel hset
        obtain ⟨t, ht, rfl⟩ := Write.apply_sessions.mp hw
        refine ⟨u, ?_⟩
        rw [Credential.row, SessionWrite.find?_apply ht hs, ← heq.1]
        cases hsr : s.revoked with
        | true => simp [hsel, hsr]
        | false => simp [hsel, hsr, hset, (set_session v s).1]
      match w, hr with
      | .sessions (.revoke k), hr =>
          have hk : s.sessionId = k := hkey.trans hr.symm
          exact hrevoked _ rfl (by simp [SessionWrite.selects, hk]) rfl
      | .sessions (.revokeForUser v), hr =>
          have hv : s.username = v := heq.1.trans hr.symm
          exact hrevoked _ rfl (by simp [SessionWrite.selects, hv]) rfl
  | token tok =>
      obtain ⟨d, hd, heq⟩ := Option.map_eq_some_iff.mp hb
      simp only [Prod.mk.injEq] at heq
      match w, hr with
      | .tokens (.revokeForUser v), hr =>
          obtain ⟨t, ht, rfl⟩ := Write.apply_tokens.mp hw
          refine ⟨u, ?_⟩
          rw [Credential.row, TokenWrite.find?_apply ht hd, ← heq.1]
          have hv : d.username = v := heq.1.trans hr.symm
          cases hsr : d.revoked with
          | true => simp [TokenWrite.selects, hsr]
          | false => simp [TokenWrite.selects, TokenWrite.set, hsr, hv]

/-- Whom a write gives a credential to. -/
def Write.issuedTo : Write → Option Text
  | .sessions (.insert s) => some s.username
  | .tokens (.insert t) => some t.username
  | _ => none

/-- The write issues `x` to `u`. -/
def Issues (env : Env) (x : Credential) (u : Text) (w : Write) : Prop :=
  match x, w with
  | .session sid, .sessions (.insert s) => s.sessionId = env.hashToken sid ∧ s.username = u
  | .token tok, .tokens (.insert t) => t.tokenHash = env.hashToken tok ∧ t.username = u
  | _, _ => False

theorem Issues.issuedTo (h : Issues env x u w) : w.issuedTo = some u := by
  match x, w, h with
  | .session sid, .sessions (.insert s), h => exact congrArg some h.2
  | .token tok, .tokens (.insert t), h => exact congrArg some h.2

theorem owned_of_issues (hi : Issues env x u w) (hw : w.apply T = .ok (n, T')) : Owned env x u T' := by
  match x, w, hi with
  | .session sid, .sessions (.insert s), hi =>
      obtain ⟨t, ht, rfl⟩ := Write.apply_sessions.mp hw
      obtain ⟨-, hins⟩ := SessionWrite.apply_insert.mp ht
      exact ⟨s.revoked, by rw [Credential.row, Table.find?_insert hins, if_pos hi.1, ← hi.2]; rfl⟩
  | .token tok, .tokens (.insert d), hi =>
      obtain ⟨t, ht, rfl⟩ := Write.apply_tokens.mp hw
      obtain ⟨-, hins⟩ := TokenWrite.apply_insert ht
      exact ⟨d.revoked, by rw [Credential.row, Table.find?_insert hins, if_pos hi.1, ← hi.2]; rfl⟩

/-! ### Transactions -/

/-- A transaction that makes a write brings about what the write does, if every write keeps
it. -/
theorem replay_at {I J : Tables → Prop} (hI : ∀ w T n T', I T → Write.apply w T = .ok (n, T') → I T')
    (hJ : ∀ w T n T', J T → Write.apply w T = .ok (n, T') → J T')
    (hw : ∀ T n T', I T → w.apply T = .ok (n, T') → J T') {ws : List (Write × Nat)}
    (h : Replay (D := authDb) T ws T') (hmem : (w, n) ∈ ws) (hT : I T) : J T' := by
  obtain ⟨before, after, rfl⟩ := List.append_of_mem hmem
  obtain ⟨U, hU, V, hV, hrest⟩ := replay_append.mp h
  have hIU : I U := replay_inv (Q := fun _ => True) (fun w T n T' _ => hI w T n T') (by simp) hU hT
  exact replay_inv (Q := fun _ => True) (fun w T n T' _ => hJ w T n T') (by simp) hrest (hw U n V hIU hV)

theorem replay_revokes {ws : List (Write × Nat)} (h : Replay (D := authDb) T ws T')
    (hmem : (w, n) ∈ ws) (hr : Revokes env u x w) (hT : Owned env x u T) : Dead env x T' :=
  replay_at (fun _ _ _ _ hT hw => owned_apply hw hT) (fun _ _ _ _ hT hw => dead_apply hw hT)
    (fun _ _ _ hT hw => dead_of_revokes hr hw hT) h hmem hT

theorem replay_issues {ws : List (Write × Nat)} (h : Replay (D := authDb) T ws T')
    (hmem : (w, n) ∈ ws) (hi : Issues env x u w) : Owned env x u T' :=
  replay_at (I := fun _ => True) (fun _ _ _ _ _ _ => trivial) (fun _ _ _ _ hT hw => owned_apply hw hT)
    (fun _ _ _ _ hw => owned_of_issues hi hw) h hmem trivial

/-! ### Runs -/

/-- The outcome hands a credential to the caller. -/
inductive HandsOut : Credential → Outcome → Prop
  | session (result : LoginResult) : HandsOut (.session result.sessionId) (.ok (.login result))
  | token (t : Text) : HandsOut (.token t) (.ok (.token t))

/-- The credential an operation is asked to judge. -/
def Op.presents : Op → Option Credential
  | .validateSession sid => some (.session sid)
  | .rotateCsrf sid => some (.session sid)
  | .verifyDeviceToken t => some (.token t)
  | _ => none

/-- The outcome takes the credential for live. -/
def accepted : Outcome → Bool
  | .ok (.session (some _)) | .ok (.csrf (some _)) | .ok (.owner (some _)) => true
  | _ => false

section Runs

variable {M : Type} [DecidableEq M]
  {allow : Sys (authService env M) → Action (authService env M) → Prop} {T₀ : Tables}
  {σ : Sys (authService env M)}

/-- A credential that was handed out was committed by the call that returned it, for the
account whose row it had read. -/
theorem issued (hquiet : ∀ σ m e, ¬ allow σ (.fault m e)) (h : Later allow (Sys.idle T₀) σ)
    {i id : Nat} {a : Outcome} (hi : σ.trace[i]? = some (.ret id a)) (hx : HandsOut x a) :
    ∃ (u : Text) (j : Nat) (log : List (Entry (authService env M))) (e : Entry (authService env M)),
      j < i ∧ σ.trace[j]? = some (.commit id log) ∧ e ∈ log ∧ e.call = id ∧ Issues env x u e.write ∧
      ∀ (t : Nat) (v : Text) (row : Option User),
        σ.trace[t]? = some (.ask id (.getUser v) row) → v = u := by
  obtain ⟨σ₁, m, r, h₁, hlater, hlen, hm, hid, hp⟩ := occurred_ret h hi
  have hbooks := (books h₁).calls m r hm
  have hshape := running_shape hquiet h₁ hm
  rw [hp] at hshape
  -- What is left is to find the insert among what the call has committed.
  have found : ∀ (u : Text) (w : Write), (w, 1) ∈ r.kept.flatten → Issues env x u w → OnlyUser u r.reads →
      ∃ (u : Text) (j : Nat) (log : List (Entry (authService env M))) (e : Entry (authService env M)),
        j < i ∧ σ.trace[j]? = some (.commit id log) ∧ e ∈ log ∧ e.call = id ∧ Issues env x u e.write ∧
        ∀ (t : Nat) (v : Text) (row : Option User),
          σ.trace[t]? = some (.ask id (.getUser v) row) → v = u := by
    intro u w hw hissues honly
    obtain ⟨j, log, e, he, hj, hcall, heq⟩ := hbooks.of_kept hw
    have hlt := (List.getElem?_eq_some_iff.mp hj).1
    rw [hlen] at hlt
    rw [hid] at hj
    refine ⟨u, j, log, e, hlt, trace_later hlater hj, he, hcall.trans hid, ?_, ?_⟩
    · rw [show e.write = w from congrArg Prod.fst heq]
      exact hissues
    intro t v row hread
    have hread' := trace_earlier hlater hread (by rw [hlen]; exact ask_before_ret h hi hread)
    rw [← hid] at hread'
    exact honly _ (hbooks.asked t _ _ hread') v rfl
  cases hx with
  | session result =>
      cases hshape.1 with
      | plain _ ha _ => cases ha
      | login u p hop hks hrs => exact found _ _ hks ⟨rfl, rfl⟩ hrs
      | firstPassword p hop hks hrs =>
          obtain ⟨_, _, _, _, _, _, hks⟩ := hks
          exact found _ _ hks ⟨rfl, rfl⟩ hrs
  | token t =>
      cases hshape.1 with
      | plain _ ha _ => cases ha
      | token u l hop hks hrs => exact found _ _ hks ⟨rfl, rfl⟩ hrs

/-- From the commit on, the credential has its row. -/
theorem owned_of_commit (h : Later allow (Sys.idle T₀) σ) {j id : Nat}
    {log : List (Entry (authService env M))} {e : Entry (authService env M)}
    (hj : σ.trace[j]? = some (.commit id log)) (he : e ∈ log) (hi : Issues env x u e.write) :
    Owned env x u σ.committed := by
  obtain ⟨σ₁, σ₂, m, r, h₁, hlater, -, -, hlog, hcommit⟩ := occurred_commit h hj
  rw [hlog] at he
  have howned : Owned env x u σ₂.committed := by
    rw [hcommit.committed]
    exact replay_issues ((books h₁).replay m) (List.mem_map_of_mem he) hi
  exact committed_stable (I := Owned env x u) (fun _ _ _ _ hT hw => owned_apply hw hT)
    (h₁.trans hcommit.later) hlater howned

/-- From the commit of a revocation on, what it found is dead. -/
theorem dead_of_commit (h : Later allow (Sys.idle T₀) σ) {d id : Nat}
    {log : List (Entry (authService env M))} {e : Entry (authService env M)}
    (hd : σ.trace[d]? = some (.commit id log)) (he : e ∈ log) (hr : Revokes env u x e.write)
    (howned : ∀ σ₁, Later allow (Sys.idle T₀) σ₁ → Later allow σ₁ σ → σ₁.trace.length = d →
      Owned env x u σ₁.committed) : Dead env x σ.committed := by
  obtain ⟨σ₁, σ₂, m, r, h₁, hlater, hlen, -, hlog, hcommit⟩ := occurred_commit h hd
  rw [hlog] at he
  have hdead : Dead env x σ₂.committed := by
    rw [hcommit.committed]
    refine replay_revokes ((books h₁).replay m) (List.mem_map_of_mem he) hr ?_
    exact howned σ₁ h₁ (hcommit.later.trans hlater) hlen
  exact committed_stable (I := Dead env x) (fun _ _ _ _ hT hw => dead_apply hw hT)
    (h₁.trans hcommit.later) hlater hdead

/-- A call that takes a credential for live read it, after it started, in a state in which
it was not dead. -/
theorem not_dead_of_accepted (hquiet : ∀ σ m e, ¬ allow σ (.fault m e))
    (h : Later allow (Sys.idle T₀) σ) {v i : Nat} {m : M} {c : Call} {b : Outcome}
    (hv : σ.trace[v]? = some (.start m c)) (hx : c.op.presents = some x)
    (hi : σ.trace[i]? = some (.ret v b)) (hb : accepted b = true) :
    x ≠ .session [] ∧ ∃ σ₁, Later allow (Sys.idle T₀) σ₁ ∧ Later allow σ₁ σ ∧ v < σ₁.trace.length ∧
      ¬ Dead env x σ₁.committed := by
  obtain ⟨σ₂, m₂, r, h₂, hlater, -, hm, hid, hp⟩ := occurred_ret h hi
  have hbooks := (books h₂).calls m₂ r hm
  have hshape := running_shape hquiet h₂ hm
  rw [hp] at hshape
  rw [(call_of_start h₂ hlater hm (hid ▸ hv)).2] at hshape
  -- The read that found the row, and the state it was made in.
  have found : ∀ (t : Nat) (q : Query) (res : q.Res), (⟨t, q, res⟩ : Read authDb) ∈ r.reads →
      (∀ T, q.ask T = res → ¬ Dead env x T) →
      ∃ σ₁, Later allow (Sys.idle T₀) σ₁ ∧ Later allow σ₁ σ ∧ v < σ₁.trace.length ∧
        ¬ Dead env x σ₁.committed := by
    intro t q res hmem hres
    have hread := trace_later hlater (hbooks.reads _ hmem)
    obtain ⟨σ₁, m₁, r₁, k, h₁, hlater₁, hlen, -, -, -, hask⟩ := occurred_ask h hread
    refine ⟨σ₁, h₁, hlater₁, ?_, ?_⟩
    · rw [hlen, ← hid]
      exact (books h).event_lt t _ r.id hread rfl
    · intro hdead
      refine hres (σ₁.view m₁) hask.symm ?_
      exact view_stable (I := Dead env x) (fun _ _ _ _ hT hw => dead_apply hw hT) h₁ hdead m₁
  have live_session : ∀ (sid : Text), x = .session sid → SawLive env sid r.reads →
      x ≠ .session [] ∧ ∃ σ₁, Later allow (Sys.idle T₀) σ₁ ∧ Later allow σ₁ σ ∧ v < σ₁.trace.length ∧
        ¬ Dead env x σ₁.committed := by
    rintro sid rfl ⟨hne, t, s, hrevoked, hmem⟩
    refine ⟨fun heq => hne (Credential.session.inj heq), found t _ _ hmem ?_⟩
    rintro T hask ⟨u, hu⟩
    have hs := (Option.filter_eq_some_iff.mp hask).1
    rw [Credential.row, hs, Option.map_some, Option.some.injEq, Prod.mk.injEq, hrevoked] at hu
    cases hu.2
  cases hshape.1 with
  | plain _ ha _ => match b, hb, ha with
    | .ok (.session (some _)), _, ha => cases ha
    | .ok (.csrf (some _)), _, ha => cases ha
    | .ok (.owner (some _)), _, ha => cases ha
  | sessionLive sid info hop hrs =>
      rw [hop] at hx
      exact live_session sid (Option.some.inj hx).symm hrs
  | csrfLive sid t hop hrs =>
      rw [hop] at hx
      exact live_session sid (Option.some.inj hx).symm hrs
  | owner token u hop hrs =>
      rw [hop] at hx
      obtain rfl := (Option.some.inj hx).symm
      obtain ⟨t, row, hrevoked, hmem⟩ := hrs
      refine ⟨nofun, found t _ _ hmem ?_⟩
      rintro T hask ⟨u, hu⟩
      have hs := (Option.filter_eq_some_iff.mp hask).1
      rw [Credential.row, hs, Option.map_some, Option.some.injEq, Prod.mk.injEq, hrevoked] at hu
      cases hu.2
  | _ => cases hb

end Runs

end CyClaw.Auth

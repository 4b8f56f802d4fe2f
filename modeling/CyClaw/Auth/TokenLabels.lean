/-
Labels of device tokens.

An account holds tokens under labels, and a label is all that tells them apart when one is
to be revoked.  `create_device_token` strips the label it is given and stores "unlabeled"
for a blank one; `revoke_device_token` looks for the label as it is given.  So what a token
was created with finds it again exactly when that is the label that was stored.

Three facts are needed.

  * An account has no two live tokens under one label, and every label in the table is one
    that `create_device_token` leaves as it is.  That is what says a label with blanks
    around it finds no row at all.
  * The row of a token stays, and it stays live until a statement selects it.
  * A revoked row stays revoked.

Calls are those of one manager, one after the other, and what the database holds before
them may be the work of other managers too.
-/
import CyClaw.Lib.AloneCalls
import CyClaw.Auth.Credentials

namespace CyClaw.Auth

open PyText Transactions

/-! ### Labels -/

theorem tokenLabel_eq_self {l : Text} : tokenLabel l = l ↔ l ≠ [] ∧ strip l = l := by
  unfold tokenLabel
  by_cases hblank : strip l = []
  · rw [if_pos hblank]
    constructor
    · rintro rfl
      exact absurd hblank (by decide)
    · rintro ⟨hne, hl⟩
      exact absurd (hl.symm.trans hblank) hne
  · rw [if_neg hblank]
    refine ⟨fun hl => ⟨?_, hl⟩, And.right⟩
    rw [← hl]
    exact hblank

theorem tokenLabel_tokenLabel (l : Text) : tokenLabel (tokenLabel l) = tokenLabel l := by
  rw [tokenLabel_eq_self]
  unfold tokenLabel
  by_cases hblank : strip l = []
  · rw [if_pos hblank]
    decide
  · rw [if_neg hblank]
    exact ⟨hblank, strip_strip l⟩

/-! ### The table -/

/-- What `revoke_device_token` selects. -/
def isLive (u l : Text) (t : DeviceToken) : Bool := t.username = u && t.label = l && !t.revoked

theorem isLive_iff {u l : Text} {t : DeviceToken} :
    isLive u l t = true ↔ t.username = u ∧ t.label = l ∧ t.revoked = false := by
  simp [isLive, and_assoc]

/-- What the tables hold of tokens, whatever managers have done. -/
structure Labelled (T : Tables) : Prop where
  /-- One label, one live token. -/
  unique : ∀ u l, T.deviceTokens.count (isLive u l) ≤ 1
  /-- Labels are stored as `create_device_token` leaves them. -/
  stored : ∀ t ∈ T.deviceTokens.rows, tokenLabel t.label = t.label

theorem labelled_empty : Labelled Tables.empty where
  unique _ _ := Nat.zero_le 1
  stored := nofun

variable {env : Env} {c : Call} {u l token : Text} {w : Write} {T T' : Tables} {n : Nat}

theorem TokenWrite.set_label (w : TokenWrite) (t : DeviceToken) : (w.set t).label = t.label := by
  cases w <;> rfl

/-- No update makes a token live. -/
theorem isLive_of_set {w : TokenWrite} {t : DeviceToken} (h : isLive u l (w.set t) = true) : isLive u l t = true := by
  rw [isLive_iff, (set_token w t).1, w.set_label] at h
  refine isLive_iff.mpr ⟨h.1, h.2.1, ?_⟩
  cases hr : t.revoked with
  | false => rfl
  | true => exact ((set_token w t).2 hr).symm.trans h.2.2

/-- A row is inserted with a label that is stored as it is. -/
def Write.labelled : Write → Prop
  | .tokens (.insert row) => tokenLabel row.label = row.label
  | _ => True

theorem Labelled.insert {row : DeviceToken} {t : DeviceTokens} (hrow : tokenLabel row.label = row.label)
    (hT : Labelled T) (h : (TokenWrite.insert row).apply T.deviceTokens = .ok (n, t)) :
    Labelled { T with deviceTokens := t } := by
  have hins := (TokenWrite.apply_insert h).2
  refine ⟨fun v k => ?_, ?_⟩
  · rw [Table.count_insert hins]
    have hle := hT.unique v k
    by_cases hlive : isLive v k row = true
    · -- The index has found no live token under the row's label.
      have htaken : labelTaken T.deviceTokens row = false := by
        by_contra htaken
        rw [TokenWrite.apply, if_pos (by simpa using htaken)] at h
        cases h
      obtain ⟨rfl, rfl, hrevoked⟩ := isLive_iff.mp hlive
      have hzero : T.deviceTokens.count (isLive row.username row.label) = 0 := by
        rw [Table.count, List.countP_eq_zero]
        intro x hx hxl
        rw [labelTaken, hrevoked, Bool.not_false, Bool.true_and, List.any_eq_false] at htaken
        exact htaken x hx hxl
      rw [hzero, if_pos hlive]
    · rw [if_neg hlive]
      exact hle
  · intro t' ht'
    rw [(Table.insert?_eq_some hins).1, List.mem_append, List.mem_singleton] at ht'
    rcases ht' with ht' | rfl
    · exact hT.stored t' ht'
    · exact hrow

theorem Labelled.update {w : TokenWrite} {t : DeviceTokens} (hup : w.updates = true) (hT : Labelled T)
    (h : w.apply T.deviceTokens = .ok (n, t)) : Labelled { T with deviceTokens := t } := by
  rw [TokenWrite.apply_update hup, Except.ok.injEq, Prod.mk.injEq] at h
  refine ⟨fun v k => ?_, ?_⟩
  · refine Nat.le_trans ?_ (hT.unique v k)
    show t.count (isLive v k) ≤ _
    rw [← h.2]
    exact Table.count_update_le fun r _ _ => isLive_of_set
  · intro t' ht'
    have ht' : t' ∈ t.rows := ht'
    rw [← h.2] at ht'
    obtain ⟨t₀, ht₀, rfl⟩ := Table.mem_update.mp ht'
    split
    · rw [w.set_label]
      exact hT.stored t₀ ht₀
    · exact hT.stored t₀ ht₀

theorem labelled_apply (hw : w.labelled) (hT : Labelled T) (h : w.apply T = .ok (n, T')) : Labelled T' := by
  cases w with
  | users w =>
      obtain ⟨t, -, rfl⟩ := Write.apply_users.mp h
      exact ⟨hT.unique, hT.stored⟩
  | sessions w =>
      obtain ⟨t, -, rfl⟩ := Write.apply_sessions.mp h
      exact ⟨hT.unique, hT.stored⟩
  | tokens w =>
      obtain ⟨t, ht, rfl⟩ := Write.apply_tokens.mp h
      cases w with
      | insert row => exact hT.insert hw ht
      | touch now k => exact hT.update rfl ht
      | revoke v k => exact hT.update rfl ht
      | revokeForUser v => exact hT.update rfl ht

/-! ### What calls write -/

theorem labelled_of_makes (h : c.makes env w) : w.labelled := by
  match w, h with
  | .users _, _ => trivial
  | .sessions _, _ => trivial
  | .tokens (.insert row), ⟨u, l, _, hrow⟩ =>
      show tokenLabel row.label = row.label
      rw [hrow]
      exact tokenLabel_tokenLabel l
  | .tokens (.touch _ _), _ => trivial
  | .tokens (.revoke _ _), _ => trivial
  | .tokens (.revokeForUser _), _ => trivial

theorem labelled_body (env : Env) (c : Call) : Writes Write.labelled (c.body env) :=
  (makes_body env c).mono fun _ => labelled_of_makes

/-! ### The row of a token -/

/-- The tables hold the token, live, under an account and a label. -/
def Held (env : Env) (token u l : Text) (T : Tables) : Prop :=
  ∃ t, T.deviceTokens.find? (env.hashToken token) = some t ∧ isLive u l t = true

/-- The write revokes nothing that an account holds under a label. -/
def Write.sparesLabel (u l : Text) : Write → Prop
  | .tokens (.revoke v k) => ¬ (v = u ∧ k = l)
  | .tokens (.revokeForUser v) => v ≠ u
  | _ => True

/-- The call revokes what an account holds under a label. -/
def Op.revokesLabel (env : Env) (u l : Text) : Op → Bool
  | .revokeDeviceToken v k => canonical env v = u && k = l
  | .deleteUser v => canonical env v = u
  | .disableUser v => canonical env v = u
  | _ => false

theorem sparesLabel_of_makes (hc : c.op.revokesLabel env u l = false) (h : c.makes env w) : w.sparesLabel u l := by
  match w, h with
  | .users _, _ => trivial
  | .sessions _, _ => trivial
  | .tokens (.insert _), _ => trivial
  | .tokens (.touch _ _), _ => trivial
  | .tokens (.revoke v k), ⟨u', hop, hv⟩ =>
      rw [hop] at hc
      rintro ⟨rfl, rfl⟩
      simp [Op.revokesLabel, hv] at hc
  | .tokens (.revokeForUser v), ⟨u', hop, hv⟩ =>
      rintro rfl
      rcases hop with hop | hop <;> simp [hop, Op.revokesLabel, hv] at hc

theorem held_apply (hw : w.sparesLabel u l) (hT : Held env token u l T) (h : w.apply T = .ok (n, T')) :
    Held env token u l T' := by
  cases w with
  | users w =>
      obtain ⟨t, -, rfl⟩ := Write.apply_users.mp h
      exact hT
  | sessions w =>
      obtain ⟨t, -, rfl⟩ := Write.apply_sessions.mp h
      exact hT
  | tokens w =>
      obtain ⟨t, ht, rfl⟩ := Write.apply_tokens.mp h
      obtain ⟨d, hd, hlive⟩ := hT
      refine ⟨_, TokenWrite.find?_apply ht hd, ?_⟩
      by_cases hsel : w.selects d = true
      · obtain ⟨rfl, rfl, hrevoked⟩ := isLive_iff.mp hlive
        rw [if_pos hsel, isLive_iff, (set_token w d).1, w.set_label]
        refine ⟨rfl, rfl, ?_⟩
        cases w with
        | insert row => exact hrevoked
        | touch now k => exact hrevoked
        | revoke v k =>
            obtain ⟨hv, hk, -⟩ := isLive_iff.mp (show isLive v k d = true from hsel)
            exact absurd ⟨hv.symm, hk.symm⟩ hw
        | revokeForUser v =>
            simp only [TokenWrite.selects, Bool.and_eq_true, decide_eq_true_eq] at hsel
            exact absurd hsel.1.symm hw
      · rw [if_neg hsel]
        exact hlive

/-! ### The three calls -/

section Calls

variable {conn conn' : Conn authDb}

/-- A token that `create_device_token` returns is in the tables, and committed. -/
theorem alone_createDeviceToken (h : (createDeviceToken env c u l).alone conn = (.ok (.token token), conn')) :
    Held env token (canonical env u) (tokenLabel l) conn'.view ∧ conn'.saved = conn'.view := by
  unfold createDeviceToken at h
  cases hrow : Query.ask (.getUser (canonical env u)) conn.view with
  | none =>
      simp only [query, alone_ask, hrow] at h
      cases h
  | some row =>
      cases htaken : Query.ask (.getLiveTokenByLabel (canonical env u) (tokenLabel l)) conn.view with
      | some t =>
          simp only [query, alone_ask, hrow, htaken] at h
          cases h
      | none =>
          simp only [query, alone_ask, hrow, htaken, commitOrRollback] at h
          cases happly : authDb.apply
              (.tokens (.insert (tokenRow env c (canonical env u) (tokenLabel l)))) conn.view with
          | error e =>
              have herr : Write.apply (.tokens (.insert (tokenRow env c (canonical env u) (tokenLabel l))))
                  conn.view = .error e := happly
              obtain ⟨-, rfl⟩ := Write.inserts_of_error herr
              rw [alone_refused happly] at h
              cases h
          | ok r =>
              obtain ⟨k, T⟩ := r
              rw [alone_wrote happly] at h
              cases h
              obtain ⟨t, ht, rfl⟩ := Write.apply_tokens.mp happly
              refine ⟨⟨tokenRow env c (canonical env u) (tokenLabel l), ?_, isLive_iff.mpr ⟨rfl, rfl, rfl⟩⟩, rfl⟩
              exact (Table.find?_insert (TokenWrite.apply_insert ht).2 _).trans (if_pos rfl)

/-- `revoke_device_token` says whether it found a row, and commits what it did. -/
theorem alone_revokeDeviceToken (env : Env) (u l : Text) (conn : Conn authDb) :
    ∃ T, (Write.tokens (.revoke (canonical env u) l)).apply conn.view =
        .ok (conn.view.deviceTokens.count (isLive (canonical env u) l), T) ∧
      (revokeDeviceToken env u l).alone conn =
        (.ok (.flag (decide (conn.view.deviceTokens.count (isLive (canonical env u) l) ≠ 0))), ⟨T, T⟩) := by
  have happly : (Write.tokens (.revoke (canonical env u) l)).apply conn.view =
      .ok (conn.view.deviceTokens.count (isLive (canonical env u) l), _) :=
    Write.apply_tokens.mpr ⟨_, TokenWrite.apply_update rfl _, rfl⟩
  refine ⟨_, happly, ?_⟩
  rw [revokeDeviceToken, execute, alone_wrote happly]
  rfl

/-- A token that is revoked is nobody's. -/
theorem alone_verifyDeviceToken (h : Dead env (.token token) conn.view) :
    ((verifyDeviceToken env c token).alone conn).1 = .ok (.owner none) := by
  obtain ⟨v, hv⟩ := h
  obtain ⟨t, ht, heq⟩ := Option.map_eq_some_iff.mp hv
  unfold verifyDeviceToken
  by_cases hnil : token = []
  · rw [if_pos hnil]
    rfl
  · rw [if_neg hnil]
    cases hrow : Query.ask (.getToken (env.hashToken token)) conn.view with
    | none =>
        simp only [query, alone_ask, hrow]
        rfl
    | some t' =>
        obtain rfl : t = t' := Option.some.inj (ht.symm.trans (Option.filter_eq_some_iff.mp hrow).1)
        have hrevoked : t.revoked = true := (Prod.mk.inj heq).2
        simp only [query, alone_ask, hrow, hrevoked, if_true]
        rfl

/-- Revoking the label that a held token is stored under finds the token. -/
theorem dead_of_revoke (h : Held env token u l T) (hw : (Write.tokens (.revoke u l)).apply T = .ok (n, T')) :
    n ≠ 0 ∧ Dead env (.token token) T' := by
  obtain ⟨d, hd, hlive⟩ := h
  obtain ⟨t, ht, rfl⟩ := Write.apply_tokens.mp hw
  have hsel : (TokenWrite.revoke u l).selects d = true := hlive
  refine ⟨?_, d.username, ?_⟩
  · have hpos := Table.count_pos.mpr ⟨d, (Table.find?_eq_some.mp hd).1, hsel⟩
    rw [TokenWrite.apply_update rfl, Except.ok.injEq, Prod.mk.injEq] at ht
    rw [← ht.1]
    exact Nat.ne_of_gt hpos
  · rw [Credential.row, TokenWrite.find?_apply ht hd, if_pos hsel]
    rfl

/-- No token is stored under a label that `create_device_token` would not store. -/
theorem Labelled.count_of_ne (hT : Labelled T) (hl : tokenLabel l ≠ l) (u : Text) :
    T.deviceTokens.count (isLive u l) = 0 := by
  rw [Table.count, List.countP_eq_zero]
  intro t ht hlive
  refine hl ?_
  rw [← (isLive_iff.mp hlive).2.1]
  exact hT.stored t ht

end Calls

/-! ### Every run -/

section Runs

variable {M : Type} {conn : Conn authDb}

/-- **Revoking by the label the token was created with revokes it**: the call says so, and
no check from then on takes the token, whatever else the manager is asked in between. -/
def RoundTrips (env : Env) (M : Type) (u l token : Text) (conn : Conn authDb) : Prop :=
  ∀ r : Call, r.op = .revokeDeviceToken u l →
    ((r.body env).alone conn).1 = .ok (.flag true) ∧
    ∀ (after : List Call) (v : Call), v.op = .verifyDeviceToken token →
      ((v.body env).alone (serve (authService env M) after ((r.body env).alone conn).2).2).1 = .ok (.owner none)

theorem body_of_op {op : Op} (h : c.op = op) : c.body env = (⟨op, c.cfg, c.now, c.draw⟩ : Call).body env := by
  rw [← h]

theorem serve_labelled (calls : List Call) (hview : Labelled conn.view) (hsaved : Labelled conn.saved) :
    Labelled (serve (authService env M) calls conn).2.view ∧ Labelled (serve (authService env M) calls conn).2.saved :=
  serve_inv (S := authService env M) (I := Labelled) (fun d _ => labelled_body env d)
    (fun _ _ _ _ hw hT h => labelled_apply hw hT h) hview hsaved

/-- A token stays as it is through calls that do not revoke it. -/
theorem serve_held {calls : List Call} (hcalls : ∀ d ∈ calls, d.op.revokesLabel env u l = false)
    (hview : Held env token u l conn.view) (hsaved : Held env token u l conn.saved) :
    Held env token u l (serve (authService env M) calls conn).2.view :=
  (serve_inv (S := authService env M) (I := Held env token u l)
    (fun d hd => (makes_body env d).mono fun _ => sparesLabel_of_makes (hcalls d hd))
    (fun _ _ _ _ hw hT h => held_apply hw hT h) hview hsaved).1

theorem serve_dead (calls : List Call) (hview : Dead env (.token token) conn.view)
    (hsaved : Dead env (.token token) conn.saved) :
    Dead env (.token token) (serve (authService env M) calls conn).2.view :=
  (serve_inv (S := authService env M) (I := Dead env (.token token)) (fun d _ => writes_true (d.body env))
    (fun _ _ _ _ _ hT h => dead_apply h hT) hview hsaved).1

/-- The label that finds a held token is the one that is stored. -/
theorem roundTrips_of_held (h : Held env token (canonical env u) l conn.view) : RoundTrips env M u l token conn := by
  intro r hr
  obtain ⟨T, happly, halone⟩ := alone_revokeDeviceToken env u l conn
  obtain ⟨hfound, hdead⟩ := dead_of_revoke h happly
  have halone : (r.body env).alone conn = _ := (congrArg (fun p => Prog.alone p conn) (body_of_op hr)).trans halone
  rw [halone]
  refine ⟨by rw [decide_eq_true hfound], fun after v hv => ?_⟩
  rw [body_of_op hv]
  exact alone_verifyDeviceToken (serve_dead after hdead hdead)

theorem not_roundTrips (hT : Labelled conn.view) (hl : tokenLabel l ≠ l) (c : Call) :
    ¬ RoundTrips env M u l token conn := by
  intro h
  obtain ⟨hflag, -⟩ := h ⟨.revokeDeviceToken u l, c.cfg, c.now, c.draw⟩ rfl
  obtain ⟨T, -, halone⟩ := alone_revokeDeviceToken env u l conn
  have hrevoke : ((revokeDeviceToken env u l).alone conn).1 = .ok (.flag true) := hflag
  rw [halone, hT.count_of_ne hl] at hrevoke
  cases hrevoke

variable [DecidableEq M] {σ : Sys (authService env M)}

/-- **What managers do keeps labels**, wherever their statements raise and however they
interleave. -/
theorem labelled_reachable (h : Later (fun _ _ => True) (Sys.idle Tables.empty) σ) (m : M) :
    Labelled (σ.view m) ∧ Labelled σ.committed := by
  have hcommitted : Labelled σ.committed :=
    committed_inv (I := Labelled) (fun d => labelled_body env d)
      (fun _ _ _ _ hw hT happly => labelled_apply hw hT happly) Relation.ReflTransGen.refl h labelled_empty
  refine ⟨?_, hcommitted⟩
  refine replay_inv (D := authDb) (Q := Write.labelled) (I := Labelled) (fun _ _ _ _ hw hT happly => labelled_apply hw hT happly) ?_
    ((books h).replay m) hcommitted
  intro x hx
  obtain ⟨e, he, rfl⟩ := List.mem_map.mp hx
  exact log_writes (fun d => labelled_body env d) h m e he

/-- **One label, one live token, and the label given at creation revokes it exactly when it
is neither empty nor padded**: on a database that any managers have used, whatever one of
them is asked before the token is created, and between that and its revocation, so long as
nothing in between revokes it. -/
theorem revoke_iff_label_stored (h : Later (fun _ _ => True) (Sys.idle Tables.empty) σ) (m : M) :
    (∀ (calls : List Call) (u l : Text),
      (serve (authService env M) calls (σ.conn m)).2.view.deviceTokens.count (isLive u l) ≤ 1) ∧
    ∀ (before : List Call) (c : Call) (u l token : Text) (conn : Conn authDb) (mid : List Call),
      c.op = .createDeviceToken u l →
      (c.body env).alone (serve (authService env M) before (σ.conn m)).2 = (.ok (.token token), conn) →
      (∀ d ∈ mid, d.op.revokesLabel env (canonical env u) (tokenLabel l) = false) →
      (RoundTrips env M u l token (serve (authService env M) mid conn).2 ↔ l ≠ [] ∧ strip l = l) := by
  obtain ⟨hview, hsaved⟩ : Labelled (σ.conn m).view ∧ Labelled (σ.conn m).saved := labelled_reachable h m
  refine ⟨fun calls u l => (serve_labelled calls hview hsaved).1.unique u l, ?_⟩
  intro before c u l token conn mid hop hcreate hmid
  obtain ⟨hview, hsaved⟩ := serve_labelled (M := M) before hview hsaved
  have hlabelled := alone_inv (I := Labelled) (labelled_body env c)
    (fun _ _ _ _ hw hT happly => labelled_apply hw hT happly) hview hsaved
  rw [hcreate] at hlabelled
  rw [body_of_op hop] at hcreate
  obtain ⟨hheld, hcommitted⟩ := alone_createDeviceToken hcreate
  have hheld := serve_held (M := M) hmid hheld (hcommitted ▸ hheld)
  rw [← tokenLabel_eq_self]
  constructor
  · intro hround
    by_contra hl
    exact not_roundTrips (serve_labelled mid hlabelled.1 hlabelled.2).1 hl c hround
  · intro hl
    rw [hl] at hheld
    exact roundTrips_of_held hheld

end Runs

/-! ### Two labels -/

/-- The first account is given a token under a label, and the token is revoked by that label. -/
def labelCalls (label : String) : List Call :=
  [demoCall .bootstrapIfEmpty 100, demoCall (.createDeviceToken "Admin ".toList label.toList) 200,
    demoCall (.revokeDeviceToken "Admin ".toList label.toList) 300, demoCall (.verifyDeviceToken "tok-1".toList) 400]

/-- What the calls return on an empty database. -/
def labelOutcomes (label : String) : List Outcome :=
  (serve (authService demoEnv Bool) (labelCalls label) ⟨Tables.empty, Tables.empty⟩).1

/-- **The revocation finds nothing and the token is still good**, for a padded label and for
none. -/
theorem padded_label_not_revoked :
    labelOutcomes " cli " =
        [.ok (.flag true), .ok (.token "tok-1".toList), .ok (.flag false), .ok (.owner (some bootstrapUsername))] ∧
      labelOutcomes "" =
        [.ok (.flag true), .ok (.token "tok-1".toList), .ok (.flag false), .ok (.owner (some bootstrapUsername))] := by
  decide +kernel

/-- A token under `cli`, with another label revoked before its own. -/
theorem revoke_iff_label_stored_cli :
    ∃ conn, ((demoCall (.createDeviceToken "Admin ".toList "cli".toList) 200).body demoEnv).alone
          (serve (authService demoEnv Bool) [demoCall .bootstrapIfEmpty 100]
            ((Sys.idle Tables.empty : Sys (authService demoEnv Bool)).conn true)).2 =
        (.ok (.token "tok-1".toList), conn) ∧
      RoundTrips demoEnv Bool "Admin ".toList "cli".toList "tok-1".toList
        (serve (authService demoEnv Bool) [demoCall (.revokeDeviceToken "admin".toList "ci".toList) 250] conn).2 := by
  have hcreate : (((demoCall (.createDeviceToken "Admin ".toList "cli".toList) 200).body demoEnv).alone
      (serve (authService demoEnv Bool) [demoCall .bootstrapIfEmpty 100]
        ((Sys.idle Tables.empty : Sys (authService demoEnv Bool)).conn true)).2).1 =
      .ok (.token "tok-1".toList) := by
    decide +kernel
  refine ⟨_, Prod.ext hcreate rfl, ?_⟩
  refine ((revoke_iff_label_stored Relation.ReflTransGen.refl true).2 [demoCall .bootstrapIfEmpty 100]
    (demoCall (.createDeviceToken "Admin ".toList "cli".toList) 200) _ _ _ _ _ rfl (Prod.ext hcreate rfl) ?_).mpr ?_
  · decide +kernel
  · decide +kernel

end CyClaw.Auth

/-
The first account and its first password.

Several managers may find the table empty and insert the first account, and several may
read its placeholder and go for the first password.  The primary key lets one insert
through.  The claim of the password asks for the placeholder that was read, and no password
is a placeholder, so one claim goes through and none after a `set_password`.

What makes this work across interleavings is the order of the writes behind the tables
(`Bootstrapped`): the passwords the account was given start with a claim or with a
`set_password`, and no claim comes later.  From that a session is minted at most once, so
its id cannot be taken either, and a call that loses has written nothing.
-/
import CyClaw.Auth.Paths
import CyClaw.Lib.Ledger

namespace CyClaw.Auth

open Transactions

variable {env : Env} {M : Type}

/-! ### Entries that concern the first account -/

def insertsUser (e : Entry (authService env M)) : Bool :=
  match e.write with
  | .users (.insert _) => true
  | _ => false

/-- The password that a write gives to the first account. -/
def Write.adminPassword : Write → Option Text
  | .users (.setPassword record u) => if u = bootstrapUsername then some record else none
  | .users (.claimBootstrapPassword record u _) => if u = bootstrapUsername then some record else none
  | _ => none

def setsPassword (e : Entry (authService env M)) : Bool :=
  decide (0 < e.rows) && e.write.adminPassword.isSome

def claimsPassword (e : Entry (authService env M)) : Bool :=
  decide (0 < e.rows) &&
    match e.write with
    | .users (.claimBootstrapPassword ..) => true
    | _ => false

/-- The passwords the first account was given. -/
def passwords (l : List (Entry (authService env M))) : List (Entry (authService env M)) :=
  l.filter setsPassword

/-! ### The invariant -/

/-- The row of the first account: a placeholder, or the last password it was given. -/
structure AdminRow (row : User) (l : List (Entry (authService env M))) : Prop where
  username : row.username = bootstrapUsername
  inserted : (l.filter insertsUser).length = 1
  pending : passwords l = [] → isPendingPasswordRecord row.passwordHash = true
  given : ∀ e, (passwords l).getLast? = some e →
    e.write.adminPassword = some row.passwordHash ∧ isPendingPasswordRecord row.passwordHash = false

/-- **What the tables are, by the writes behind them.** -/
structure Bootstrapped (T₀ T : Tables) (l : List (Entry (authService env M))) : Prop where
  users : (T.users.rows = [] ∧ l.filter insertsUser = [] ∧ passwords l = []) ∨
    ∃ row, T.users.rows = [row] ∧ AdminRow row l
  /-- The placeholder is claimed before any password is set or never. -/
  first : ∀ e ∈ (passwords l).tail, claimsPassword e = false
  minted : ∀ e ∈ l, ∀ row, e.write = .sessions (.insert row) →
    ∃ x ∈ l, claimsPassword x = true ∧ x.call = e.call
  keys : ∀ k row, T.sessions.find? k = some row → (∃ row₀, T₀.sessions.find? k = some row₀) ∨
    ∃ e ∈ l, ∃ row, e.write = .sessions (.insert row) ∧ row.sessionId = k

/-- The writes of the three operations. -/
def BootstrapWrite : Write → Prop
  | .users (.insert row) =>
      row.username = bootstrapUsername ∧ isPendingPasswordRecord row.passwordHash = true
  | .users (.setPassword record _) => isPendingPasswordRecord record = false
  | .users (.claimBootstrapPassword record u pending) =>
      u = bootstrapUsername ∧ isPendingPasswordRecord record = false ∧
        isPendingPasswordRecord pending = true
  | .users (.resetLockout _) => True
  | .users _ => False
  | .sessions _ => True
  | .tokens _ => False

section Invariant

variable {T₀ T T' : Tables} {l : List (Entry (authService env M))} {e : Entry (authService env M)}

theorem claims_sets (hw : BootstrapWrite e.write) (h : claimsPassword e = true) :
    setsPassword e = true := by
  simp only [claimsPassword, setsPassword, Bool.and_eq_true] at h ⊢
  refine ⟨h.1, ?_⟩
  match e.write, h.2, hw with
  | .users (.claimBootstrapPassword record u pending), _, hw => simp [Write.adminPassword, hw.1]

theorem passwords_of_sets (h : setsPassword e = true) : passwords (l ++ [e]) = passwords l ++ [e] := by
  simp [passwords, h]

theorem passwords_of_other (h : setsPassword e = false) : passwords (l ++ [e]) = passwords l := by
  simp [passwords, h]

/-- Nobody claims a placeholder twice. -/
theorem Bootstrapped.claim_unique (h : Bootstrapped T₀ T l)
    (hl : ∀ x ∈ l, BootstrapWrite x.write) {x y : Entry (authService env M)} (hx : x ∈ l)
    (hxc : claimsPassword x = true) (hy : y ∈ l) (hyc : claimsPassword y = true) : x = y := by
  have head : ∀ z ∈ l, claimsPassword z = true → (passwords l).head? = some z := by
    intro z hz hzc
    have hmem : z ∈ passwords l := List.mem_filter.mpr ⟨hz, claims_sets (hl z hz) hzc⟩
    cases hp : passwords l with
    | nil =>
        rw [hp] at hmem
        cases hmem
    | cons a rest =>
        rw [hp, List.mem_cons] at hmem
        obtain rfl | hmem := hmem
        · rfl
        · have hno := h.first z (by rw [hp]; exact hmem)
          rw [hzc] at hno
          cases hno
  have hxy := (head x hx hxc).symm.trans (head y hy hyc)
  exact Option.some.inj hxy

/-- A row that is selected is that of the first account. -/
theorem Bootstrapped.selected (h : Bootstrapped T₀ T l) {w : UserWrite} (hw : w.updates = true)
    {n : Nat} (happly : (Write.users w).apply T = .ok (n, T')) (hn : 0 < n) :
    ∃ row, AdminRow row l ∧ w.selects T.users row = true ∧ T'.users.rows = [w.set row] := by
  obtain ⟨t, ht, rfl⟩ := Write.apply_users.mp happly
  rw [UserWrite.apply_update hw] at ht
  simp only [Except.ok.injEq, Prod.mk.injEq] at ht
  rw [← ht.1, Table.count_pos] at hn
  obtain ⟨r, hr, hsel⟩ := hn
  obtain ⟨hnil, -⟩ | ⟨row, hrow, hadmin⟩ := h.users
  · rw [hnil] at hr
    cases hr
  · rw [hrow, List.mem_singleton] at hr
    rw [hr] at hsel
    refine ⟨row, hadmin, hsel, ?_⟩
    rw [← ht.2]
    simp [Table.update, hrow, hsel]

/-- A write that neither inserts an account nor gives a password. -/
theorem AdminRow.other {row row' : User} (h : AdminRow row l) (hi : insertsUser e = false)
    (hs : setsPassword e = false) (hname : row'.username = row.username)
    (hhash : row'.passwordHash = row.passwordHash) : AdminRow row' (l ++ [e]) := by
  refine ⟨hname.trans h.username, ?_, ?_, ?_⟩
  · rw [List.filter_append, List.filter_singleton, hi]
    simpa using h.inserted
  · rw [passwords_of_other hs, hhash]
    exact h.pending
  · rw [passwords_of_other hs, hhash]
    exact h.given

/-- A write that gives a password. -/
theorem AdminRow.sets {row row' : User} (h : AdminRow row l) (hi : insertsUser e = false)
    (hs : setsPassword e = true) (hname : row'.username = row.username)
    (hhash : e.write.adminPassword = some row'.passwordHash)
    (hpending : isPendingPasswordRecord row'.passwordHash = false) : AdminRow row' (l ++ [e]) := by
  refine ⟨hname.trans h.username, ?_, ?_, ?_⟩
  · rw [List.filter_append, List.filter_singleton, hi]
    simpa using h.inserted
  · rw [passwords_of_sets hs]
    intro hnil
    simp at hnil
  · intro x hx
    rw [passwords_of_sets hs, List.getLast?_concat, Option.some.injEq] at hx
    rw [← hx]
    exact ⟨hhash, hpending⟩

/-- A claim that goes through finds the placeholder. -/
theorem Bootstrapped.claim_first (h : Bootstrapped T₀ T l)
    (happly : e.write.apply T = .ok (e.rows, T')) (hw : BootstrapWrite e.write)
    (hc : claimsPassword e = true) : passwords l = [] := by
  simp only [claimsPassword, Bool.and_eq_true, decide_eq_true_eq] at hc
  match hwrite : e.write, hc.2, hw with
  | .users (.claimBootstrapPassword record u pending), _, ⟨_, _, hpending⟩ =>
      rw [hwrite] at happly
      obtain ⟨row, hadmin, hsel, -⟩ := h.selected rfl happly hc.1
      simp only [UserWrite.selects, Bool.and_eq_true, decide_eq_true_eq] at hsel
      cases hlast : (passwords l).getLast? with
      | none => exact List.getLast?_eq_none_iff.mp hlast
      | some x =>
          have hgiven := (hadmin.given x hlast).2
          rw [hsel.2, hpending] at hgiven
          cases hgiven

/-- A write that touched no row of `users`. -/
private theorem users_kept (h : Bootstrapped T₀ T l) (husers : T'.users = T.users)
    (hi : insertsUser e = false) (hs : setsPassword e = false) :
    (T'.users.rows = [] ∧ (l ++ [e]).filter insertsUser = [] ∧ passwords (l ++ [e]) = []) ∨
      ∃ row, T'.users.rows = [row] ∧ AdminRow row (l ++ [e]) := by
  rw [husers]
  obtain ⟨hnil, hins, hpw⟩ | ⟨row, hrow, hadmin⟩ := h.users
  · refine Or.inl ⟨hnil, ?_, ?_⟩
    · rw [List.filter_append, hins, List.filter_singleton, hi]
      rfl
    · rw [passwords_of_other hs]
      exact hpw
  · exact Or.inr ⟨row, hrow, hadmin.other hi hs rfl rfl⟩

theorem Bootstrapped.users_write (h : Bootstrapped T₀ T l)
    (happly : e.write.apply T = .ok (e.rows, T')) (hw : BootstrapWrite e.write) :
    (T'.users.rows = [] ∧ (l ++ [e]).filter insertsUser = [] ∧ passwords (l ++ [e]) = []) ∨
      ∃ row, T'.users.rows = [row] ∧ AdminRow row (l ++ [e]) := by
  match hwrite : e.write, hw with
  | .sessions w, _ =>
      rw [hwrite] at happly
      obtain ⟨t, -, rfl⟩ := Write.apply_sessions.mp happly
      exact users_kept h rfl (by simp [insertsUser, hwrite]) (by simp [setsPassword, hwrite, Write.adminPassword])
  | .users (.insert row'), ⟨hname, hpending⟩ =>
      rw [hwrite] at happly
      obtain ⟨t, ht, rfl⟩ := Write.apply_users.mp happly
      obtain ⟨hrows, hnone⟩ := Table.insert?_eq_some (UserWrite.apply_insert.mp ht).2
      have hi : insertsUser e = true := by simp [insertsUser, hwrite]
      have hs : setsPassword e = false := by simp [setsPassword, hwrite, Write.adminPassword]
      obtain ⟨hnil, hins, hpw⟩ | ⟨row, hrow, hadmin⟩ := h.users
      · rw [hnil, List.nil_append] at hrows
        refine Or.inr ⟨row', hrows, hname, ?_, fun _ => hpending, ?_⟩
        · rw [List.filter_append, hins, List.filter_singleton, hi]
          rfl
        · rw [passwords_of_other hs, hpw]
          nofun
      · -- The key is taken.
        refine absurd hadmin.username ?_
        rw [← hname]
        exact Table.find?_eq_none.mp hnone row (by rw [hrow]; exact List.mem_singleton_self row)
  | .users (.setPassword record u), hpending =>
      have hi : insertsUser e = false := by simp [insertsUser, hwrite]
      rw [hwrite] at happly
      by_cases hn : e.rows = 0
      · rw [hn] at happly
        exact users_kept h (by rw [Write.apply_zero happly]) hi (by simp [setsPassword, hn])
      · have hpos := Nat.pos_of_ne_zero hn
        obtain ⟨row, hadmin, hsel, hrow⟩ := h.selected rfl happly hpos
        simp only [UserWrite.selects, decide_eq_true_eq] at hsel
        have hpw : e.write.adminPassword = some record := by
          simp [hwrite, Write.adminPassword, ← hsel, hadmin.username]
        exact Or.inr ⟨_, hrow, hadmin.sets hi (by simp [setsPassword, hpos, hpw]) rfl hpw hpending⟩
  | .users (.claimBootstrapPassword record u pending), ⟨hu, hpending, _⟩ =>
      have hi : insertsUser e = false := by simp [insertsUser, hwrite]
      rw [hwrite] at happly
      by_cases hn : e.rows = 0
      · rw [hn] at happly
        exact users_kept h (by rw [Write.apply_zero happly]) hi (by simp [setsPassword, hn])
      · have hpos := Nat.pos_of_ne_zero hn
        obtain ⟨row, hadmin, -, hrow⟩ := h.selected rfl happly hpos
        have hpw : e.write.adminPassword = some record := by simp [hwrite, Write.adminPassword, hu]
        exact Or.inr ⟨_, hrow, hadmin.sets hi (by simp [setsPassword, hpos, hpw]) rfl hpw hpending⟩
  | .users (.resetLockout u), _ =>
      have hi : insertsUser e = false := by simp [insertsUser, hwrite]
      have hs : setsPassword e = false := by simp [setsPassword, hwrite, Write.adminPassword]
      rw [hwrite] at happly
      by_cases hn : e.rows = 0
      · rw [hn] at happly
        exact users_kept h (by rw [Write.apply_zero happly]) hi hs
      · obtain ⟨row, hadmin, -, hrow⟩ := h.selected rfl happly (Nat.pos_of_ne_zero hn)
        exact Or.inr ⟨_, hrow, hadmin.other hi hs rfl rfl⟩

theorem Bootstrapped.first_write (h : Bootstrapped T₀ T l)
    (happly : e.write.apply T = .ok (e.rows, T')) (hw : BootstrapWrite e.write) :
    ∀ x ∈ (passwords (l ++ [e])).tail, claimsPassword x = false := by
  by_cases hs : setsPassword e = true
  · rw [passwords_of_sets hs]
    cases hc : claimsPassword e with
    | true =>
        rw [h.claim_first happly hw hc]
        nofun
    | false =>
        have hfirst := h.first
        cases hp : passwords l with
        | nil => nofun
        | cons a rest =>
            rw [hp] at hfirst
            intro x hx
            rw [List.cons_append, List.tail_cons, List.mem_append, List.mem_singleton] at hx
            obtain hx | rfl := hx
            · exact hfirst x hx
            · exact hc
  · rw [Bool.not_eq_true] at hs
    rw [passwords_of_other hs]
    exact h.first

/-- Sessions are only inserted and updated. -/
theorem Bootstrapped.keys_write (h : Bootstrapped T₀ T l)
    (happly : e.write.apply T = .ok (e.rows, T')) {k : Text} {row : Session}
    (hk : T'.sessions.find? k = some row) : (∃ row₀, T₀.sessions.find? k = some row₀) ∨
      ∃ x ∈ l ++ [e], ∃ row, x.write = .sessions (.insert row) ∧ row.sessionId = k := by
  have old : ∀ row', T.sessions.find? k = some row' → (∃ row₀, T₀.sessions.find? k = some row₀) ∨
      ∃ x ∈ l ++ [e], ∃ row, x.write = .sessions (.insert row) ∧ row.sessionId = k := by
    intro row' hrow'
    obtain hold | ⟨x, hx, hins⟩ := h.keys k row' hrow'
    · exact Or.inl hold
    · exact Or.inr ⟨x, List.mem_append_left _ hx, hins⟩
  cases hwrite : e.write with
  | users w =>
      rw [hwrite] at happly
      obtain ⟨t, -, rfl⟩ := Write.apply_users.mp happly
      exact old row hk
  | tokens w =>
      rw [hwrite] at happly
      obtain ⟨t, -, rfl⟩ := Write.apply_tokens.mp happly
      exact old row hk
  | sessions w =>
      rw [hwrite] at happly
      obtain ⟨t, ht, rfl⟩ := Write.apply_sessions.mp happly
      by_cases hup : w.updates = true
      · rw [SessionWrite.apply_update hup] at ht
        simp only [Except.ok.injEq, Prod.mk.injEq] at ht
        have hk' : t.find? k = some row := hk
        rw [← ht.2, Table.find?_update, Option.map_eq_some_iff] at hk'
        obtain ⟨row', hrow', -⟩ := hk'
        exact old row' hrow'
      · cases w with
        | insert row' =>
            have hins := (SessionWrite.apply_insert.mp ht).2
            rw [Table.find?_insert hins] at hk
            split at hk
            · rename_i hkey
              exact Or.inr ⟨e, by simp, row', hwrite, hkey⟩
            · exact old row hk
        | _ => exact absurd rfl hup

/-- **Every write of the three operations keeps the invariant**, if a session is minted only
by a call that has claimed the password. -/
theorem Bootstrapped.write (h : Bootstrapped T₀ T l) (happly : e.write.apply T = .ok (e.rows, T'))
    (hw : BootstrapWrite e.write)
    (hmint : ∀ row, e.write = .sessions (.insert row) →
      ∃ x ∈ l, claimsPassword x = true ∧ x.call = e.call) : Bootstrapped T₀ T' (l ++ [e]) := by
  refine ⟨h.users_write happly hw, h.first_write happly hw, ?_, fun k row hk => h.keys_write happly hk⟩
  intro x hx row hrow
  rw [List.mem_append, List.mem_singleton] at hx
  obtain ⟨y, hy, hyc⟩ : ∃ y ∈ l, claimsPassword y = true ∧ y.call = x.call := by
    obtain hx | rfl := hx
    · exact h.minted x hx row hrow
    · exact hmint row hrow
  exact ⟨y, List.mem_append_left _ hy, hyc⟩

/-- The passwords after a claim are later ones of `set_password`, and the last one is in force. -/
theorem Bootstrapped.claimed_or_later (h : Bootstrapped T₀ T l)
    (hl : ∀ x ∈ l, BootstrapWrite x.write) (he : e ∈ l) (hclaims : claimsPassword e = true) :
    ∃ row, T.users.find? bootstrapUsername = some row ∧ ∃ l₁ l₂, l = l₁ ++ e :: l₂ ∧
      (e.write.adminPassword = some row.passwordHash ∧ (∀ x ∈ l₂, setsPassword x = false) ∨
        ∃ x ∈ l₂, 0 < x.rows ∧ x.write = .users (.setPassword row.passwordHash bootstrapUsername)) := by
  have hsets : setsPassword e = true := claims_sets (hl e he) hclaims
  obtain ⟨l₁, l₂, rfl⟩ := List.append_of_mem he
  -- Nothing was given before the claim.
  have hpw : passwords (l₁ ++ e :: l₂) = passwords l₁ ++ e :: passwords l₂ := by
    simp [passwords, hsets]
  have hnil : passwords l₁ = [] := by
    cases hp : passwords l₁ with
    | nil => rfl
    | cons a rest =>
        have hno := h.first e (by rw [hpw, hp]; simp)
        rw [hclaims] at hno
        cases hno
  rw [hnil, List.nil_append] at hpw
  obtain ⟨-, -, hnone⟩ | ⟨row, hrow, hadmin⟩ := h.users
  · rw [hpw] at hnone
    cases hnone
  have hfind : T.users.find? bootstrapUsername = some row := by
    rw [Table.find?_eq_some, hrow]
    exact ⟨List.mem_singleton_self row, hadmin.username⟩
  refine ⟨row, hfind, l₁, l₂, rfl, ?_⟩
  cases hlast : (passwords l₂).getLast? with
  | none =>
      have hnil₂ := List.getLast?_eq_none_iff.mp hlast
      have hgiven := hadmin.given e (by rw [hpw, hnil₂]; rfl)
      refine Or.inl ⟨hgiven.1, ?_⟩
      intro x hx
      simpa using List.filter_eq_nil_iff.mp hnil₂ x hx
  | some x =>
      have hgiven := hadmin.given x (by rw [hpw, List.getLast?_cons, hlast]; rfl)
      have hmem := List.mem_of_getLast? hlast
      have hx := List.mem_filter.mp hmem
      have hnot := h.first x (by rw [hpw]; exact hmem)
      refine Or.inr ⟨x, hx.1, ?_⟩
      have hpos := hx.2
      simp only [setsPassword, Bool.and_eq_true, decide_eq_true_eq] at hpos
      refine ⟨hpos.1, ?_⟩
      match hw : x.write, hgiven.1 with
      | .users (.setPassword record u), hpass =>
          simp only [Write.adminPassword, Option.ite_none_right_eq_some, Option.some.injEq] at hpass
          rw [hpass.1, hpass.2]
      | .users (.claimBootstrapPassword record u pending), _ =>
          simp [claimsPassword, hw, hpos.1] at hnot

end Invariant

/-! ### Runs of the three operations -/

def Op.bootstraps : Op → Bool
  | .bootstrapIfEmpty | .bootstrapSetPassword _ | .setPassword .. => true
  | _ => false

/-- The three operations, with session ids that the database does not hold from before. -/
def bootstrapping (T₀ : Tables) (_ : Sys (authService env M)) : Action (authService env M) → Bool
  | .start _ c => c.op.bootstraps && (T₀.sessions.find? (env.hashToken c.draw.sessionId)).isNone
  | .next _ => true
  | .fault _ _ => false

theorem bootstrap_writes {c : Call} (hc : c.op.bootstraps = true) :
    Writes (D := authDb) BootstrapWrite (c.body env) := by
  obtain ⟨op, cfg, now, draw⟩ := c
  cases op with
  | bootstrapIfEmpty =>
      refine writes_query ?_
      intro n
      split
      · exact writes_commit trivial
      · refine writes_checked ?_
        intro record hrecord
        exact writes_commitOrRollback ⟨rfl, hashPendingPlaceholder_pending hrecord⟩ trivial trivial
  | setPassword u p =>
      refine writes_checked ?_
      intro record hrecord
      refine writes_execute (hashPassword_not_pending hrecord) ?_
      intro n
      split
      · exact writes_commit trivial
      · refine writes_execute trivial (fun _ => ?_)
        exact writes_execute trivial (fun _ => writes_commit trivial)
  | bootstrapSetPassword p =>
      refine writes_checked ?_
      intro record hrecord
      refine writes_query ?_
      intro row
      cases row with
      | none => exact writes_commit trivial
      | some r =>
          dsimp only
          split
          · exact writes_commit trivial
          · rename_i hpending
            rw [Bool.not_eq_false] at hpending
            refine writes_execute ⟨rfl, hashPassword_not_pending hrecord, hpending⟩ ?_
            intro n
            split
            · exact writes_commit trivial
            · refine writes_execute trivial (fun _ => ?_)
              refine writes_execute trivial (fun _ => ?_)
              exact writes_execute trivial (fun _ => writes_commit trivial)
  | _ => cases hc

theorem bootstrapping_quiet {T₀ : Tables} : ∀ (σ : Sys (authService env M)) (m : M) (e : DbError),
    ¬ bootstrapping T₀ σ (.fault m e) = true :=
  fun _ _ _ h => Bool.false_ne_true h

theorem bootstrapping_start {T₀ : Tables} {σ : Sys (authService env M)} {m : M} {c : Call}
    (h : bootstrapping T₀ σ (.start m c) = true) :
    c.op.bootstraps = true ∧ T₀.sessions.find? (env.hashToken c.draw.sessionId) = none := by
  simp only [bootstrapping, Bool.and_eq_true, Option.isNone_iff_eq_none] at h
  exact h

variable [DecidableEq M] {T₀ : Tables} {σ : Sys (authService env M)} {m : M}
  {r : Running (authService env M)}

/-- What a running call looks like, when writes raise only as `raises` says. -/
theorem running_bootstrap {raises : Write → DbError → Prop} (hr : Refuses raises)
    (hclean : Clean (S := authService env M) raises (bootstrapping T₀ · · = true) T₀)
    (h : Later (bootstrapping T₀ · · = true) (Sys.idle T₀) σ) (hm : σ.running m = some r) :
    Shape raises env r.call r.reads r.pending r.kept r.prog ∧ r.call.op.bootstraps = true ∧
      T₀.sessions.find? (env.hashToken r.call.draw.sessionId) = none := by
  refine (obeys (P := fun (c : Call) rs ws ks p => Shape raises env c rs ws ks p ∧
    c.op.bootstraps = true ∧ T₀.sessions.find? (env.hashToken c.draw.sessionId) = none)
    hclean ?_ h hm).here
  intro _ _ c ha
  refine (@shape raises hr env c).mono ?_
  intro rs ws ks p hshape
  exact ⟨hshape, bootstrapping_start ha⟩

theorem running_bootstrapWrite (h : Later (bootstrapping T₀ · · = true) (Sys.idle T₀) σ)
    (hm : σ.running m = some r) {w : Write} {k : Except DbError Nat → Body}
    (hp : r.prog = .write w k) : BootstrapWrite w := by
  have hwrites := (obeys (P := fun _ _ _ _ p => Writes (D := authDb) BootstrapWrite p)
    (clean_refused bootstrapping_quiet)
    (fun _ _ _ ha => (bootstrap_writes (bootstrapping_start ha).1).always) h hm).here
  rw [hp] at hwrites
  exact hwrites.1

/-- A call about to mint a session has claimed the password and inserted nothing. -/
theorem mint_claimed (h : Later (bootstrapping T₀ · · = true) (Sys.idle T₀) σ)
    (hm : σ.running m = some r) {row : Session} {k : Except DbError Nat → Body}
    (hp : r.prog = .write (.sessions (.insert row)) k) :
    row.sessionId = env.hashToken r.call.draw.sessionId ∧ r.kept = [] ∧
      (∀ x ∈ r.pending, x.1.inserts = false) ∧
      ∃ x ∈ σ.logOf m, claimsPassword x = true ∧ x.call = r.id := by
  obtain ⟨hshape, hop, -⟩ := running_bootstrap (fun _ _ hr => hr)
    (clean_refused bootstrapping_quiet) h hm
  rw [hp] at hshape
  obtain ⟨hid, hkept, hinserts, ⟨u, p, hlogin⟩ | ⟨-, record, pending, n, hn, hmem⟩⟩ := hshape
  · rw [hlogin] at hop
    cases hop
  · refine ⟨hid, hkept, hinserts, ?_⟩
    rw [← ((books h).calls m r hm).own] at hmem
    obtain ⟨x, hx, heq⟩ := List.mem_map.mp hmem
    rw [List.mem_filter, decide_eq_true_eq] at hx
    refine ⟨x, hx.1, ?_, hx.2⟩
    simp only [Entry.effect, Prod.mk.injEq] at heq
    simp [claimsPassword, heq.1, heq.2, hn]

/-- **The invariant holds of the last commit and of what each manager sees.** -/
theorem bootstrapped (hempty : T₀.users.rows = [])
    (h : Later (bootstrapping T₀ · · = true) (Sys.idle T₀) σ) :
    Balanced (fun _ T l => Bootstrapped T₀ T l ∧ ∀ x ∈ l, BootstrapWrite x.write) σ := by
  have hidle : Bootstrapped T₀ T₀ ([] : List (Entry (authService env M))) := by
    refine ⟨Or.inl ⟨hempty, rfl, rfl⟩, nofun, nofun, ?_⟩
    intro k row hk
    exact Or.inl ⟨row, hk⟩
  refine ledger ⟨hidle, nofun⟩ (fun _ _ _ _ _ hI => hI) ?_ (fun _ _ _ _ _ _ _ hI => hI) h
  intro σ m r w k n T hlater ha hm hp hw hI
  have hwrite := running_bootstrapWrite hlater hm hp
  refine ⟨hI.1.write hw hwrite ?_, ?_⟩
  · rintro row rfl
    obtain ⟨-, -, -, x, hx, hclaims, hcall⟩ := mint_claimed hlater hm hp
    exact ⟨x, List.mem_append_right _ hx, hclaims, hcall⟩
  · intro x hx
    rw [List.mem_append, List.mem_singleton] at hx
    obtain hx | rfl := hx
    · exact hI.2 x hx
    · exact hwrite

/-! ### Nothing is left behind -/

/-- What can raise in these runs: the insert of an account that is there already. -/
def refusedAccount (w : Write) (e : DbError) : Prop :=
  refused w e ∧ ∀ row, w ≠ .sessions (.insert row)

/-- The session id of the one call that mints a session is free. -/
theorem mint_free (hempty : T₀.users.rows = [])
    (h : Later (bootstrapping T₀ · · = true) (Sys.idle T₀) σ) (hm : σ.running m = some r)
    {row : Session} {k : Except DbError Nat → Body} (hp : r.prog = .write (.sessions (.insert row)) k) :
    (σ.view m).sessions.find? row.sessionId = none := by
  obtain ⟨hid, hkept, hinserts, x, hx, hclaims, hcall⟩ := mint_claimed h hm hp
  have hfresh := (running_bootstrap (fun _ _ hr => hr) (clean_refused bootstrapping_quiet) h hm).2.2
  obtain ⟨hview, hwrites⟩ := (bootstrapped hempty h).2 m
  rw [Option.eq_none_iff_forall_ne_some]
  intro row' hrow'
  obtain ⟨row₀, hrow₀⟩ | ⟨e, he, row₁, hwrite, -⟩ := hview.keys _ row' hrow'
  · rw [hid, hfresh] at hrow₀
    cases hrow₀
  · -- A session that is there was minted by the call that claimed, which is this one.
    obtain ⟨y, hy, hyc, hycall⟩ := hview.minted e he row₁ hwrite
    have hxy := hview.claim_unique hwrites (List.mem_append_right _ hx) hclaims hy hyc
    have hecall : e.call = r.id := by rw [← hycall, ← hxy, hcall]
    rw [List.mem_append] at he
    obtain he | he := he
    · have hmem := kept_of_history h hm he hecall
      rw [hkept] at hmem
      cases hmem
    · have hmem : e.effect ∈ ownWrites r.id (σ.logOf m) :=
        List.mem_map_of_mem (List.mem_filter.mpr ⟨he, decide_eq_true hecall⟩)
      rw [((books h).calls m r hm).own] at hmem
      have hno := hinserts _ hmem
      rw [show e.effect.1 = .sessions (.insert row₁) from hwrite] at hno
      cases hno

theorem insert_of_free {T : Tables} {row : Session} (h : T.sessions.find? row.sessionId = none)
    (e : DbError) : (Write.sessions (.insert row)).apply T ≠ .error e := by
  have hkey : row.sessionId ∉ T.sessions.rows.map Session.sessionId := by
    intro hmem
    obtain ⟨row', hrow', heq⟩ := List.mem_map.mp hmem
    exact Table.find?_eq_none.mp h row' hrow' heq
  simp [Write.apply, SessionWrite.apply, Table.insert?, hkey, Except.map]

theorem clean_bootstrap (hempty : T₀.users.rows = []) :
    Clean (S := authService env M) refusedAccount (bootstrapping T₀ · · = true) T₀ where
  no_fault := bootstrapping_quiet
  refusals σ m r w k e h hm hp herr := by
    refine ⟨Write.inserts_of_error herr, ?_⟩
    rintro row rfl
    exact insert_of_free (mint_free hempty h hm hp) e herr

/-- What a running call looks like. -/
theorem running_clean (hempty : T₀.users.rows = [])
    (h : Later (bootstrapping T₀ · · = true) (Sys.idle T₀) σ) (hm : σ.running m = some r) :
    Shape refusedAccount env r.call r.reads r.pending r.kept r.prog ∧ r.call.op.bootstraps = true := by
  have hshape := running_bootstrap (fun _ _ hr => hr.1) (clean_bootstrap hempty) h hm
  exact ⟨hshape.1, hshape.2.1⟩

/-- No call leaves anything pending. -/
theorem bootstrap_settled (hempty : T₀.users.rows = [])
    (h : Later (bootstrapping T₀ · · = true) (Sys.idle T₀) σ) : Settled (fun _ => False) σ := by
  refine settled (clean_bootstrap hempty) ?_ h
  intro _ _ c ha
  refine (@shape refusedAccount (fun _ _ hr => hr.1) env c).mono ?_
  rintro rs ws ks p hp ⟨a, rfl⟩ x hx
  obtain ⟨u, p, hop⟩ | ⟨-, row, e, hraises⟩ := (hp.2 x hx).op
  · have hc := (bootstrapping_start ha).1
    rw [hop] at hc
    cases hc
  · exact hraises.2 row rfl

/-- Every committed write belongs to the transaction of one call, which is all in the history. -/
theorem entry_txn (hempty : T₀.users.rows = [])
    (h : Later (bootstrapping T₀ · · = true) (Sys.idle T₀) σ) {e : Entry (authService env M)}
    (he : e ∈ σ.history) :
    ∃ (m : M) (c : Call) (ws : List (Write × Nat)), σ.event e.call = some (.start m c) ∧
      c.op.bootstraps = true ∧ Txn env c ws ∧ e.effect ∈ ws ∧
      ∀ x ∈ ws, ∃ e' ∈ σ.history, e'.call = e.call ∧ e'.effect = x := by
  obtain ⟨i, id, log, hi, he⟩ := mem_history.mp he
  obtain ⟨σ₁, σ₂, m, r, h₁, hlater, -, rfl, rfl, hcommit⟩ := occurred_commit h hi
  obtain ⟨k, hp⟩ := hcommit.at_commit
  obtain ⟨old, hsplit⟩ := (bootstrap_settled hempty h₁).split hcommit.running
  obtain ⟨htxn, hop⟩ := running_clean hempty h₁ hcommit.running
  rw [hp] at htxn
  -- The log is the call's own.
  have hmem : ∀ x, x ∈ σ₁.logOf m ↔ ∃ y ∈ r.pending, (⟨r.id, y.1, y.2⟩ : Entry (authService env M)) = x := by
    intro x
    rw [hsplit.log, List.mem_append, List.mem_map]
    constructor
    · rintro (hx | hx)
      · exact (hsplit.left x hx).1.elim
      · exact hx
    · exact Or.inr
  obtain ⟨y, hy, rfl⟩ := (hmem e).mp he
  have hstart := ((books h₁).calls m r hcommit.running).started
  refine ⟨m, r.call, r.pending, trace_later (hcommit.later.trans hlater) hstart, hop, htxn, hy, ?_⟩
  intro x hx
  exact ⟨⟨r.id, x.1, x.2⟩, mem_history.mpr ⟨i, r.id, _, hi, (hmem _).mpr ⟨x, hx, rfl⟩⟩, rfl, rfl⟩

/-! ### The property -/

/-- The password in force after the call `id` has claimed it with `record`: its own, or that of
a later `set_password`. -/
def ClaimedOrLater (σ : Sys (authService env M)) (id : Nat) (record hash : Text) : Prop :=
  ∃ e l₁ l₂, σ.history = l₁ ++ e :: l₂ ∧ e.call = id ∧ claimsPassword e = true ∧
    (hash = record ∧ (∀ x ∈ l₂, setsPassword x = false) ∨
      ∃ x ∈ l₂, ∃ m c u p, x.write = .users (.setPassword hash bootstrapUsername) ∧
        σ.event x.call = some (.start m c) ∧ c.op = .setPassword u p)

/-- **The first account is set up once.** -/
structure OneShot (σ : Sys (authService env M)) : Prop where
  inserted : (σ.history.filter insertsUser).length ≤ 1
  winner : ∀ i j id id' a b, σ.event i = some (.ret id (.ok (.login a))) →
    σ.event j = some (.ret id' (.ok (.login b))) → id = id'
  /-- Every other call raises, and before its first statement if the policy refuses its password. -/
  losers : ∀ m c p id i a, σ.event id = some (.start m c) → c.op = .bootstrapSetPassword p →
    σ.event i = some (.ret id a) →
    (∃ result, a = .ok (.login result)) ∨ a = .error (.bootstrapComplete bootstrapUsername) ∨
      ∃ e, a = .error (.policy e) ∧ validatePassword p = .error e ∧
        ∀ j q res, σ.event j ≠ some (.ask id q res)
  stored : ∀ m c p id i result, σ.event id = some (.start m c) → c.op = .bootstrapSetPassword p →
    σ.event i = some (.ret id (.ok (.login result))) →
    ∃ record row, hashPassword env c.draw.salt p = .ok record ∧
      σ.committed.users.find? bootstrapUsername = some row ∧
      ClaimedOrLater σ id record row.passwordHash
  /-- No other call to set the first password has touched a row. -/
  spared : ∀ i id result e m c p, σ.event i = some (.ret id (.ok (.login result))) →
    e ∈ σ.history → 0 < e.rows → σ.event e.call = some (.start m c) →
    c.op = .bootstrapSetPassword p → e.call = id

/-- A call that returned a session has claimed the password. -/
theorem won (hempty : T₀.users.rows = []) (h : Later (bootstrapping T₀ · · = true) (Sys.idle T₀) σ)
    {i id : Nat} {result : LoginResult} (hi : σ.event i = some (.ret id (.ok (.login result)))) :
    ∃ (m : M) (c : Call) (p record : Text), σ.event id = some (.start m c) ∧
      c.op = .bootstrapSetPassword p ∧ hashPassword env c.draw.salt p = .ok record ∧
      ∃ e ∈ σ.history, e.call = id ∧ claimsPassword e = true ∧
        ∃ pending, e.write = .users (.claimBootstrapPassword record bootstrapUsername pending) := by
  obtain ⟨σ₁, m, r, h₁, hlater, -, hm, rfl, hp⟩ := occurred_ret h hi
  obtain ⟨hshape, hop⟩ := running_clean hempty h₁ hm
  have hbooks := (books h₁).calls m r hm
  rw [hp] at hshape
  -- Only two operations return a session, and `login` is not among the three.
  have hended : ∃ p record pending n, r.call.op = .bootstrapSetPassword p ∧ 0 < n ∧
      hashPassword env r.call.draw.salt p = .ok record ∧
      (.users (.claimBootstrapPassword record bootstrapUsername pending), n) ∈ r.kept.flatten := by
    have hended := hshape.1
    generalize hout : (Except.ok (Value.login result) : Outcome) = out at hended
    cases hended with
    | plain _ hplain _ =>
        rw [← hout] at hplain
        cases hplain
    | login u p hlogin _ _ =>
        rw [hlogin] at hop
        cases hop
    | firstPassword p hop' hks _ =>
        obtain ⟨record, pending, n, hn, hrecord, hmem, -⟩ := hks
        exact ⟨p, record, pending, n, hop', hn, hrecord, hmem⟩
    | _ => cases hout
  obtain ⟨p, record, pending, n, hop', hn, hrecord, hmem⟩ := hended
  obtain ⟨j, log, e, he, hj, hcall, heq⟩ := hbooks.of_kept hmem
  simp only [Entry.effect, Prod.mk.injEq] at heq
  refine ⟨m, r.call, p, record, trace_later hlater hbooks.started, hop', hrecord, e, ?_, hcall, ?_,
    pending, heq.1⟩
  · exact mem_history.mpr ⟨j, r.id, log, trace_later hlater hj, he⟩
  · simp [claimsPassword, heq.1, heq.2, hn]

/-- A password that was set and not claimed was set by `set_password`. -/
theorem Txn.setPassword {c : Call} {ws : List (Write × Nat)} (h : Txn env c ws)
    (hc : c.op.bootstraps = true) {record u : Text} {n : Nat} (hn : 0 < n)
    (hmem : (.users (.setPassword record u), n) ∈ ws) : ∃ u p, c.op = .setPassword u p := by
  cases h with
  | password u p record n a b hop hrecord hn => exact ⟨u, p, hop⟩
  | missed w =>
      rw [List.mem_singleton, Prod.mk.injEq] at hmem
      rw [hmem.2] at hn
      cases hn
  | routine w n hop hw =>
      rw [List.mem_singleton, Prod.mk.injEq] at hmem
      rw [← hmem.1] at hw
      cases hw
  | remove w u n a b hop hw hn =>
      obtain rfl | rfl := hw <;> simp at hmem
  | login u p hash rehash n hop hrehash hn =>
      rw [hop] at hc
      cases hc
  | _ => simp at hmem

/-- A call to set the first password that touches a row claims it. -/
theorem Txn.claims {c : Call} {ws : List (Write × Nat)} (h : Txn env c ws) {p : Text}
    (hop : c.op = .bootstrapSetPassword p) {x : Write × Nat} (hx : x ∈ ws) (hn : 0 < x.2) :
    ∃ record pending n, 0 < n ∧
      (.users (.claimBootstrapPassword record bootstrapUsername pending), n) ∈ ws := by
  cases h with
  | firstPassword p record pending n a b hop hrecord hpending hn =>
      exact ⟨record, pending, n, hn, List.mem_cons_self⟩
  | reads => cases hx
  | missed w =>
      rw [List.mem_singleton] at hx
      rw [hx] at hn
      cases hn
  | routine w n hroutine hw =>
      rw [hop] at hroutine
      cases hroutine
  | remove w u n a b hop' hw hn => simp [hop] at hop'
  | bootstrap _ hop' _ | create _ _ _ _ hop' | enable _ _ _ hop' _ | password _ _ _ _ _ _ hop' _ _
  | failure _ _ _ _ hop' | login _ _ _ _ _ hop' _ _ =>
      rw [hop] at hop'
      cases hop'

/-- How a call to set the first password ends. -/
theorem first_ended (hempty : T₀.users.rows = [])
    (h : Later (bootstrapping T₀ · · = true) (Sys.idle T₀) σ) {c : Call} {p : Text} {id i : Nat}
    {a : Outcome} (hstart : σ.event id = some (.start m c)) (hop : c.op = .bootstrapSetPassword p)
    (hi : σ.event i = some (.ret id a)) :
    (∃ result, a = .ok (.login result)) ∨ a = .error (.bootstrapComplete bootstrapUsername) ∨
      ∃ e, a = .error (.policy e) ∧ validatePassword p = .error e ∧
        ∀ j q res, σ.event j ≠ some (.ask id q res) := by
  obtain ⟨σ₁, m₁, r, h₁, hlater, hlen, hm, rfl, hp⟩ := occurred_ret h hi
  have hcall := (call_of_start h₁ hlater hm hstart).2
  have hshape := (running_clean hempty h₁ hm).1
  rw [hp, hcall] at hshape
  cases hshape.1 with
  | firstPassword p' hop' hks hrs => exact Or.inl ⟨_, rfl⟩
  | login u p' hop' hks hrs => exact Or.inl ⟨_, rfl⟩
  | firstTaken p' hop' hks => exact Or.inr (Or.inl rfl)
  | firstPolicy p' e hop' hvalid hrs hks =>
      rw [hop, Op.bootstrapSetPassword.injEq] at hop'
      refine Or.inr (Or.inr ⟨e, rfl, hop' ▸ hvalid, ?_⟩)
      intro j q res hj
      have hji := ask_before_ret h hi hj
      have hmem := ((books h₁).calls m₁ r hm).asked j q res (trace_earlier hlater hj (by omega))
      rw [hrs] at hmem
      cases hmem
  | firstRaised p' row e hop' hraises => exact absurd rfl (hraises.2 row)
  | plain _ _ hne => exact absurd hop (hne p)
  | loginFailed _ _ hop' _ | sessionLive _ _ hop' _ | sessionDead _ hop' _ | csrfLive _ _ hop' _
  | csrfDead _ hop' _ | token _ _ hop' _ _ | owner _ _ hop' _ =>
      rw [hop] at hop'
      cases hop'

/-- **However the three operations of any number of managers interleave, the first account is
set up once.** -/
theorem bootstrap_one_shot (hempty : T₀.users.rows = [])
    (h : Later (bootstrapping T₀ · · = true) (Sys.idle T₀) σ) : OneShot σ := by
  obtain ⟨hinv, hwrites⟩ := (bootstrapped hempty h).1
  have unique : ∀ {x y : Entry (authService env M)}, x ∈ σ.history → claimsPassword x = true →
      y ∈ σ.history → claimsPassword y = true → x = y :=
    fun hx hxc hy hyc => hinv.claim_unique hwrites hx hxc hy hyc
  refine ⟨?_, ?_, ?_, ?_, ?_⟩
  · obtain ⟨-, hnil, -⟩ | ⟨row, -, hadmin⟩ := hinv.users
    · rw [hnil]
      exact Nat.zero_le 1
    · exact Nat.le_of_eq hadmin.inserted
  · intro i j id id' a b hi hj
    obtain ⟨-, -, -, -, -, -, -, x, hx, hxcall, hxc, -⟩ := won hempty h hi
    obtain ⟨-, -, -, -, -, -, -, y, hy, hycall, hyc, -⟩ := won hempty h hj
    rw [← hxcall, ← hycall, unique hx hxc hy hyc]
  · intro m c p id i a hstart hop hi
    exact first_ended hempty h hstart hop hi
  · intro m c p id i result hstart hop hi
    obtain ⟨m', c', p', record, hstart', hop', hrecord, e, he, hcall, hclaims, pending, hwrite⟩ :=
      won hempty h hi
    rw [hstart] at hstart'
    simp only [Option.some.injEq, Event.start.injEq] at hstart'
    obtain ⟨-, rfl⟩ := hstart'
    rw [hop, Op.bootstrapSetPassword.injEq] at hop'
    obtain ⟨row, hrow, l₁, l₂, hsplit, hlast⟩ := hinv.claimed_or_later hwrites he hclaims
    refine ⟨record, row, hop' ▸ hrecord, hrow, e, l₁, l₂, hsplit, hcall, hclaims, ?_⟩
    obtain ⟨hown, hnone⟩ | ⟨x, hx, hpos, hset⟩ := hlast
    · rw [hwrite] at hown
      exact Or.inl ⟨(Option.some.inj hown).symm, hnone⟩
    · have hmem : x ∈ σ.history := by
        rw [hsplit]
        exact List.mem_append_right _ (List.mem_cons_of_mem _ hx)
      obtain ⟨m₁, c₁, ws, hstart₁, hc₁, htxn, heff, -⟩ := entry_txn hempty h hmem
      rw [Entry.effect, hset] at heff
      obtain ⟨u, p₁, hop₁⟩ := htxn.setPassword hc₁ hpos heff
      exact Or.inr ⟨x, hx, m₁, c₁, u, p₁, hset, hstart₁, hop₁⟩
  · intro i id result e m c p hi he hpos hstart hop
    obtain ⟨-, -, -, -, -, -, -, x, hx, hxcall, hxc, -⟩ := won hempty h hi
    obtain ⟨m₁, c₁, ws, hstart₁, -, htxn, heff, hall⟩ := entry_txn hempty h he
    rw [hstart] at hstart₁
    simp only [Option.some.injEq, Event.start.injEq] at hstart₁
    obtain ⟨-, rfl⟩ := hstart₁
    obtain ⟨record, pending, n, hn, hmem⟩ := htxn.claims hop heff hpos
    obtain ⟨y, hy, hycall, hyeff⟩ := hall _ hmem
    simp only [Entry.effect, Prod.mk.injEq] at hyeff
    have hyc : claimsPassword y = true := by simp [claimsPassword, hyeff.1, hyeff.2, hn]
    rw [← hxcall, ← unique hy hyc hx hxc, hycall]

/-- Two managers insert the first account and set its first password at the same time, and the
one that loses changes the password after. -/
def racingBootstrap : List (Action (authService demoEnv Bool)) :=
  demoSteps true .bootstrapIfEmpty 100 1 ++ demoSteps false .bootstrapIfEmpty 100 1 ++
    List.replicate 3 (.next true) ++ List.replicate 3 (.next false) ++
    demoSteps true (.bootstrapSetPassword "first-admin-secret".toList) 110 1 ++
    demoSteps false (.bootstrapSetPassword "second-password".toList) 110 1 ++
    List.replicate 6 (.next true) ++ List.replicate 3 (.next false) ++
    demoSteps false (.setPassword bootstrapUsername "second-password".toList) 120 5

theorem bootstrap_one_shot_racing :
    ∃ σ : Sys (authService demoEnv Bool),
      Sys.run (bootstrapping Tables.empty) racingBootstrap (Sys.idle Tables.empty) = some σ ∧
      OneShot σ := by
  have hrun : (Sys.run (bootstrapping Tables.empty) racingBootstrap (Sys.idle Tables.empty)).isSome =
      true := by
    decide +kernel
  obtain ⟨σ, hσ⟩ := Option.isSome_iff_exists.mp hrun
  exact ⟨σ, hσ, bootstrap_one_shot rfl (later_run hσ)⟩

/-! ### Passwords that the policy refuses -/

/-- Every call that returns no session says that the first password is set. -/
def LosersComplete (σ : Sys (authService env M)) : Prop :=
  ∀ m c p id i a, σ.event id = some (.start m c) → c.op = .bootstrapSetPassword p →
    σ.event i = some (.ret id a) →
    (∃ result, a = .ok (.login result)) ∨ a = .error (.bootstrapComplete bootstrapUsername)

/-- The call raised because of its password. -/
def policySeen (σ : Sys (authService demoEnv Bool)) : Bool :=
  match σ.event 0, σ.event 1 with
  | some (.start _ c), some (.ret 0 (.error (.policy _))) =>
      decide (c.op = .bootstrapSetPassword "short".toList)
  | _, _ => false

theorem short_password_refused :
    ∃ σ : Sys (authService demoEnv Bool),
      Later (bootstrapping Tables.empty · · = true) (Sys.idle Tables.empty) σ ∧ ¬ LosersComplete σ := by
  have hrun : (Sys.run (bootstrapping Tables.empty)
      (demoSteps true (.bootstrapSetPassword "short".toList) 100 1) (Sys.idle Tables.empty)).any
        policySeen = true := by
    decide +kernel
  obtain ⟨σ, hσ, hcheck⟩ := (Option.any_eq_true _ _).mp hrun
  refine ⟨σ, later_run hσ, ?_⟩
  intro hlosers
  rw [policySeen] at hcheck
  split at hcheck
  · rename_i m c e hstart hret
    rw [decide_eq_true_eq] at hcheck
    obtain ⟨result, hresult⟩ | hcomplete := hlosers m c _ 0 1 _ hstart hcheck hret
    · cases hresult
    · cases hcomplete
  · cases hcheck

end CyClaw.Auth

/-
The failure counter of an account and the lock it sets.

A rejected login reads `failed_count` in one statement and writes it back, one higher, in
another.  The lock of the manager keeps the logins of one manager apart, but nothing keeps
two managers apart: both read 0 and both write 1 (`failures_lost`), and a login that read
the row before a `set_password` writes the old count back after it.

Apart from that the counter is exact: `lockout_accurate` shows it of every run in which a
rejected login finds the count it has read, and finds no reset since unless its failure
sets no lock.
-/
import CyClaw.Auth.Paths
import CyClaw.Lib.Ledger

namespace CyClaw.Auth

open Transactions

variable {env : Env} {M : Type}

/-! ### Entries that concern the counter -/

/-- The account whose counter a write sets back. -/
def Write.resets : Write → Option Text
  | .users (.resetLockout u) | .users (.claimLogin _ u _) => some u
  | _ => none

/-- The account a write counts a failure of. -/
def Write.fails : Write → Option Text
  | .users (.loginFailure _ _ u) => some u
  | _ => none

/-- The lock that a failure sets. -/
def Write.locks : Write → Option ℚ
  | .users (.loginFailure _ until_ _) => some until_
  | _ => none

def resets (u : Text) (e : Entry (authService env M)) : Bool :=
  decide (0 < e.rows) && decide (e.write.resets = some u)

def fails (u : Text) (e : Entry (authService env M)) : Bool :=
  decide (0 < e.rows) && decide (e.write.fails = some u)

/-- The reset that `set_password` and `enable_user` make. -/
def clears (u : Text) (e : Entry (authService env M)) : Bool :=
  decide (0 < e.rows) && decide (e.write = .users (.resetLockout u))

/-- The failures of `u` since the last reset. -/
def failures (u : Text) (l : List (Entry (authService env M))) : List (Entry (authService env M)) :=
  (l.rtakeWhile fun e => !resets u e).filter (fails u)

/-- What the counter was before the first of them. -/
def countBefore (row : User) (u : Text) (l : List (Entry (authService env M))) : Nat :=
  if l.any (resets u) then 0 else row.failedCount

/-- The lock that the last of them set, or that was there before. -/
def lockAfter (row : User) (u : Text) (l : List (Entry (authService env M))) : Option ℚ :=
  match (failures u l).getLast? with
  | some e => e.write.locks
  | none => if l.any (resets u) then none else row.lockedUntilTs

section Entries

variable {u : Text} {row : User} {l : List (Entry (authService env M))} {e : Entry (authService env M)}

theorem clears_resets (h : clears u e = true) : resets u e = true := by
  simp only [clears, resets, Bool.and_eq_true, decide_eq_true_eq] at h ⊢
  rw [h.2]
  exact ⟨h.1, rfl⟩

theorem fails_not_resets (h : fails u e = true) : resets u e = false := by
  simp only [fails, Bool.and_eq_true, decide_eq_true_eq] at h
  rw [resets, Bool.and_eq_false_iff, decide_eq_false_iff_not]
  refine Or.inr ?_
  match hw : e.write, h.2 with
  | .users (.loginFailure _ _ _), _ => simp [Write.resets]

theorem failures_of_resets (h : resets u e = true) : failures u (l ++ [e]) = [] := by
  rw [failures, List.rtakeWhile_concat_neg _ _ _ (by simp [h])]
  rfl

theorem failures_of_fails (h : fails u e = true) : failures u (l ++ [e]) = failures u l ++ [e] := by
  rw [failures, List.rtakeWhile_concat_pos _ _ _ (by simp [fails_not_resets h]), List.filter_append,
    List.filter_singleton, h]
  rfl

theorem failures_of_other (hr : resets u e = false) (hf : fails u e = false) :
    failures u (l ++ [e]) = failures u l := by
  rw [failures, List.rtakeWhile_concat_pos _ _ _ (by simp [hr]), List.filter_append,
    List.filter_singleton, hf]
  exact List.append_nil _

theorem mem_failures (h : e ∈ failures u l) : e ∈ l ∧ fails u e = true := by
  rw [failures, List.mem_filter] at h
  exact ⟨(List.rtakeWhile_suffix _ _).subset h.1, h.2⟩

/-- Everything since the last reset stands after every reset. -/
theorem failures_append {l' : List (Entry (authService env M))} (h : l'.any (resets u) = true) :
    failures u (l ++ l') = failures u l' := by
  induction l' using List.reverseRecOn with
  | nil => cases h
  | append_singleton l' x ih =>
      rw [← List.append_assoc]
      by_cases hr : resets u x = true
      · rw [failures_of_resets hr, failures_of_resets hr]
      · rw [Bool.not_eq_true] at hr
        have h' : l'.any (resets u) = true := by simpa [hr] using h
        by_cases hf : fails u x = true
        · rw [failures_of_fails hf, failures_of_fails hf, ih h']
        · rw [Bool.not_eq_true] at hf
          rw [failures_of_other hr hf, failures_of_other hr hf, ih h']

end Entries

/-! ### One write -/

/-- The row has the counter that the entries say. -/
def Counted (row₀ : User) (u : Text) (T : Tables) (l : List (Entry (authService env M))) : Prop :=
  ∃ row, T.users.find? u = some row ∧
    row.failedCount = countBefore row₀ u l + (failures u l).length ∧
    row.lockedUntilTs = lockAfter row₀ u l

/-- A write that concerns the counter of `u` in no way. -/
theorem counted_other {row₀ : User} {u : Text} {T T' : Tables} {l : List (Entry (authService env M))}
    {e : Entry (authService env M)} (hr : resets u e = false) (hf : fails u e = false)
    (h : Counted row₀ u T l)
    (hrow : ∀ row, T.users.find? u = some row → ∃ row', T'.users.find? u = some row' ∧
      row'.failedCount = row.failedCount ∧ row'.lockedUntilTs = row.lockedUntilTs) :
    Counted row₀ u T' (l ++ [e]) := by
  obtain ⟨row, hfind, hcount, hlock⟩ := h
  obtain ⟨row', hfind', hcount', hlock'⟩ := hrow row hfind
  refine ⟨row', hfind', ?_, ?_⟩
  · rw [hcount', hcount, failures_of_other hr hf, countBefore, countBefore]
    simp [hr]
  · rw [hlock', hlock, lockAfter, lockAfter, failures_of_other hr hf]
    simp [hr]

theorem counted_reset {row₀ : User} {u : Text} {T' : Tables} {l : List (Entry (authService env M))}
    {e : Entry (authService env M)} (hr : resets u e = true)
    (hrow : ∃ row', T'.users.find? u = some row' ∧ row'.failedCount = 0 ∧ row'.lockedUntilTs = none) :
    Counted row₀ u T' (l ++ [e]) := by
  obtain ⟨row', hfind', hcount', hlock'⟩ := hrow
  refine ⟨row', hfind', ?_, ?_⟩
  · rw [hcount', failures_of_resets hr, countBefore]
    simp [hr]
  · rw [hlock', lockAfter, failures_of_resets hr]
    simp [hr]

theorem counted_failure {row₀ : User} {u : Text} {T T' : Tables} {l : List (Entry (authService env M))}
    {e : Entry (authService env M)} (hf : fails u e = true) (h : Counted row₀ u T l)
    (hrow : ∀ row, T.users.find? u = some row → ∃ row', T'.users.find? u = some row' ∧
      row'.failedCount = row.failedCount + 1 ∧ row'.lockedUntilTs = e.write.locks) :
    Counted row₀ u T' (l ++ [e]) := by
  obtain ⟨row, hfind, hcount, hlock⟩ := h
  obtain ⟨row', hfind', hcount', hlock'⟩ := hrow row hfind
  have hr := fails_not_resets hf
  refine ⟨row', hfind', ?_, ?_⟩
  · rw [hcount', hcount, failures_of_fails hf, countBefore, countBefore]
    simp [hr, Nat.add_assoc]
  · rw [hlock', lockAfter, failures_of_fails hf]
    simp

section Rows

variable {u : Text} {T T' : Tables} {n : Nat} {row : User}

/-- A row of `users` after an update. -/
theorem row_after {w : UserWrite} (hw : w.updates = true)
    (happly : (Write.users w).apply T = .ok (n, T')) (hrow : T.users.find? u = some row) :
    T'.users.find? u = some (if w.selects T.users row then w.set row else row) := by
  obtain ⟨t, ht, rfl⟩ := Write.apply_users.mp happly
  rw [UserWrite.find?_update hw ht, hrow]
  rfl

theorem rows_after {w : UserWrite} (hw : w.updates = true)
    (happly : (Write.users w).apply T = .ok (n, T')) : n = T.users.count (w.selects T.users) := by
  obtain ⟨t, ht, -⟩ := Write.apply_users.mp happly
  rw [UserWrite.apply_update hw] at ht
  simp only [Except.ok.injEq, Prod.mk.injEq] at ht
  exact ht.1.symm

theorem counter_kept {w : Write} (happly : w.apply T = .ok (n, T'))
    (hrow : T.users.find? u = some row) (hdelete : ∀ v, w ≠ .users (.delete v))
    (hfails : w.fails ≠ some u) (hresets : w.resets = some u → n = 0) :
    ∃ row', T'.users.find? u = some row' ∧ row'.failedCount = row.failedCount ∧
      row'.lockedUntilTs = row.lockedUntilTs := by
  by_cases hzero : w.resets = some u
  · rw [hresets hzero] at happly
    rw [Write.apply_zero happly]
    exact ⟨row, hrow, rfl, rfl⟩
  have hname : row.username = u := (Table.find?_eq_some.mp hrow).2
  cases w with
  | sessions w =>
      obtain ⟨t, -, rfl⟩ := Write.apply_sessions.mp happly
      exact ⟨row, hrow, rfl, rfl⟩
  | tokens w =>
      obtain ⟨t, -, rfl⟩ := Write.apply_tokens.mp happly
      exact ⟨row, hrow, rfl, rfl⟩
  | users w =>
      -- Updates of other rows, and updates that leave both columns alone.
      have update : w.updates = true → (w.selects T.users row = true →
          (w.set row).failedCount = row.failedCount ∧ (w.set row).lockedUntilTs = row.lockedUntilTs) →
          ∃ row', T'.users.find? u = some row' ∧ row'.failedCount = row.failedCount ∧
            row'.lockedUntilTs = row.lockedUntilTs := by
        intro hup hset
        refine ⟨_, row_after hup happly hrow, ?_⟩
        by_cases hsel : w.selects T.users row = true
        · rw [if_pos hsel]
          exact hset hsel
        · rw [if_neg hsel]
          exact ⟨rfl, rfl⟩
      cases w with
      | insert row₁ =>
          obtain ⟨t, ht, rfl⟩ := Write.apply_users.mp happly
          exact ⟨row, Table.find?_insert_of_some (UserWrite.apply_insert.mp ht).2 hrow, rfl, rfl⟩
      | delete v => exact absurd rfl (hdelete v)
      | loginFailure k until_ v =>
          refine update rfl ?_
          simp only [UserWrite.selects, decide_eq_true_eq]
          intro hv
          exact absurd (congrArg some (hv.symm.trans hname)) hfails
      | resetLockout v =>
          refine update rfl ?_
          simp only [UserWrite.selects, decide_eq_true_eq]
          intro hv
          exact absurd (congrArg some (hv.symm.trans hname)) hzero
      | claimLogin now v hash =>
          refine update rfl ?_
          simp only [UserWrite.selects, Bool.and_eq_true, decide_eq_true_eq]
          intro hv
          exact absurd (congrArg some (hv.1.1.1.symm.trans hname)) hzero
      | setRole _ _ | disable _ | setDisabled _ _ | setPassword _ _ | promoteBootstrap =>
          exact update rfl (fun _ => ⟨rfl, rfl⟩)
      | claimBootstrapPassword _ _ _ => exact update rfl (fun _ => ⟨rfl, rfl⟩)

/-- The row with the name a clause asks for, when it selects any. -/
theorem selects_of_pos {w : UserWrite} (hw : w.updates = true)
    (happly : (Write.users w).apply T = .ok (n, T')) (hrow : T.users.find? u = some row) (hn : 0 < n)
    (hkey : ∀ r, w.selects T.users r = true → r.username = u) : w.selects T.users row = true := by
  rw [rows_after hw happly] at hn
  obtain ⟨r, hr, hsel⟩ := (Table.count_pos_of_key hkey).mp hn
  rw [hrow, Option.some.injEq] at hr
  rw [hr]
  exact hsel

theorem counter_reset {w : Write} (happly : w.apply T = .ok (n, T'))
    (hrow : T.users.find? u = some row) (hresets : w.resets = some u) (hn : 0 < n) :
    ∃ row', T'.users.find? u = some row' ∧ row'.failedCount = 0 ∧ row'.lockedUntilTs = none := by
  match w, hresets with
  | .users (.resetLockout v), hv =>
      obtain rfl := Option.some.inj hv
      have hsel := selects_of_pos rfl happly hrow hn (by simp [UserWrite.selects])
      refine ⟨_, row_after rfl happly hrow, ?_⟩
      rw [if_pos hsel]
      exact ⟨rfl, rfl⟩
  | .users (.claimLogin now v hash), hv =>
      obtain rfl := Option.some.inj hv
      have hsel := selects_of_pos rfl happly hrow hn (by simp +contextual [UserWrite.selects])
      refine ⟨_, row_after rfl happly hrow, ?_⟩
      rw [if_pos hsel]
      exact ⟨rfl, rfl⟩

/-- A failure is recorded as long as the account is there. -/
theorem counter_failure {k : Nat} {until_ : ℚ}
    (happly : (Write.users (.loginFailure k until_ u)).apply T = .ok (n, T'))
    (hrow : T.users.find? u = some row) :
    0 < n ∧ ∃ row', T'.users.find? u = some row' ∧ row'.failedCount = k ∧
      row'.lockedUntilTs = some until_ := by
  have hname : row.username = u := (Table.find?_eq_some.mp hrow).2
  have hsel : (UserWrite.loginFailure k until_ u).selects T.users row = true := by
    simp [UserWrite.selects, hname]
  refine ⟨?_, _, row_after rfl happly hrow, ?_⟩
  · rw [rows_after rfl happly, Table.count_pos]
    exact ⟨row, (Table.find?_eq_some.mp hrow).1, hsel⟩
  · rw [if_pos hsel]
    exact ⟨rfl, rfl⟩

end Rows

/-! ### The property -/

/-- The login `id` read the row of `u` at `t` and rejected what it was given: the password is
wrong, or the account is disabled. -/
def RejectsAt (τ : List (Event (authService env M))) (u : Text) (id t : Nat) : Prop :=
  ∃ (m : M) (c : Call) (v p : Text) (row : User), τ[id]? = some (.start m c) ∧ c.op = .login v p ∧
    canonical env v = u ∧ τ[t]? = some (.ask id (.getUser u) (some row : Option User)) ∧
    rejects env row p = true

/-- The failure comes from a password check after `i`, or it sets no lock. -/
def Harmless (τ : List (Event (authService env M))) (u : Text) (e : Entry (authService env M))
    (i : Nat) : Prop :=
  (∃ t, RejectsAt τ u e.call t ∧ i < t) ∨
    ∃ m c, τ[e.call]? = some (.start m c) ∧ ∀ until_, e.write.locks = some until_ → until_ ≤ c.now

/-- **The counter of `u` is exact**, for an account whose row was `row₀` at first. -/
structure LockoutAccurate (row₀ : User) (u : Text) (σ : Sys (authService env M)) : Prop where
  /-- It has risen by one for each failure since the last reset. -/
  count : ∃ row, σ.committed.users.find? u = some row ∧
    row.failedCount = countBefore row₀ u σ.history + (failures u σ.history).length
  /-- No login is counted twice. -/
  once : ((σ.history.filter (fails u)).map Entry.call).Nodup
  rejected : ∀ e ∈ σ.history, fails u e = true → ∃ t, RejectsAt σ.trace u e.call t
  /-- Every login that ended because of a wrong password is counted. -/
  recorded : ∀ id t i, RejectsAt σ.trace u id t → σ.event i = some (.ret id (.error .loginFailed)) →
    ∃ e ∈ σ.history, e.call = id ∧ fails u e = true
  /-- After `set_password` or `enable_user` no failure locks the account whose password check
  started before. -/
  unlocked : ∀ i x, σ.event i = some x → x.writes.any (clears u) = true →
    ∀ row until_, σ.committed.users.find? u = some row → row.lockedUntilTs = some until_ →
      ∃ e ∈ σ.history, fails u e = true ∧ e.write.locks = some until_ ∧ Harmless σ.trace u e i

/-! ### The order that matters -/

/-- The operations that count failures or reset the count. -/
def Op.attempts : Op → Bool
  | .login .. | .setPassword .. | .enableUser _ => true
  | _ => false

def attempts (_ : Sys (authService env M)) : Action (authService env M) → Bool
  | .start _ c => c.op.attempts
  | .next _ => true
  | .fault _ _ => false

/-- The counter of `u` was set back by `set_password` or `enable_user` at `t` or later. -/
def clearedSince (τ : List (Event (authService env M))) (t : Nat) (u : Text) : Bool :=
  (τ.drop t).any fun x => x.writes.any (clears u)

/-- The count of `u` that was read is the count there is, and it has not been set back since,
or one failure more sets no lock. -/
def current (u : Text) (τ : List (Event (authService env M))) (T : Tables) (rd : Read authDb) : Bool :=
  match rd with
  | ⟨t, .getUser v, (row : Option User)⟩ =>
      decide (v ≠ u) ||
        decide (row.map User.failedCount = (T.users.find? u).map User.failedCount) &&
          (!clearedSince τ t u || row.all fun r => decide (lockoutDelaySec (r.failedCount + 1) = 0))
  | _ => true

/-- Logins, password changes and enabling only, and a rejected login of `u` records its failure
on a row it has read in its current state. -/
def unraced [DecidableEq M] (u : Text) (σ : Sys (authService env M))
    (a : Action (authService env M)) : Bool :=
  attempts σ a &&
    match a with
    | .next m =>
        match σ.running m with
        | none => true
        | some r =>
            match r.prog with
            | .write w _ =>
                decide (w.fails ≠ some u) || r.reads.all (current u σ.trace (σ.view m))
            | _ => true
    | _ => true

theorem clearedSince_of_event {τ : List (Event (authService env M))} {t i : Nat} {u : Text}
    {x : Event (authService env M)} (hi : τ[i]? = some x) (hx : x.writes.any (clears u) = true)
    (hti : t ≤ i) : clearedSince τ t u = true := by
  rw [clearedSince, List.any_eq_true]
  refine ⟨x, ?_, hx⟩
  rw [List.mem_iff_getElem?]
  refine ⟨i - t, ?_⟩
  rw [List.getElem?_drop, Nat.add_sub_cancel' hti]
  exact hi

/-- A row read in its current state. -/
theorem current_getUser {u : Text} {τ : List (Event (authService env M))} {T : Tables} {t : Nat} {row : User}
    (h : current u τ T ⟨t, .getUser u, (some row : Option User)⟩ = true) :
    (T.users.find? u).map User.failedCount = some row.failedCount ∧
      (clearedSince τ t u = true → lockoutDelaySec (row.failedCount + 1) = 0) := by
  simp only [current, ne_eq, not_true_eq_false, decide_false, Bool.false_or, Bool.and_eq_true,
    decide_eq_true_eq, Option.map_some, Option.all_some, Bool.or_eq_true, Bool.not_eq_true'] at h
  refine ⟨h.1.symm, ?_⟩
  intro hcleared
  obtain hnot | hzero := h.2
  · rw [hcleared] at hnot
    cases hnot
  · exact hzero

/-! ### The invariant -/

/-- The write deletes no account. -/
def KeepsAccounts (w : Write) : Prop := ∀ v, w ≠ .users (.delete v)

/-- **The invariant**: tables and the writes behind them agree on the counter of `u`. -/
structure Tally (row₀ : User) (u : Text) (τ : List (Event (authService env M))) (T : Tables)
    (l : List (Entry (authService env M))) : Prop where
  counted : Counted row₀ u T l
  once : ((l.filter (fails u)).map Entry.call).Nodup
  touched : ∀ e ∈ l, e.write.fails = some u → fails u e = true
  rejected : ∀ e ∈ l, fails u e = true → ∃ t, RejectsAt τ u e.call t
  late : ∀ e ∈ failures u l, ∀ i x, τ[i]? = some x → x.writes.any (clears u) = true → Harmless τ u e i

section Invariant

variable {row₀ : User} {u : Text} {τ : List (Event (authService env M))} {T T' : Tables}
  {l : List (Entry (authService env M))} {e : Entry (authService env M)} {x : Event (authService env M)}

theorem RejectsAt.event {id t : Nat} (h : RejectsAt τ u id t) : RejectsAt (τ ++ [x]) u id t := by
  obtain ⟨m, c, v, p, row, hstart, hop, hv, hask, hrejects⟩ := h
  exact ⟨m, c, v, p, row, getElem?_concat_of hstart, hop, hv, getElem?_concat_of hask, hrejects⟩

theorem Harmless.event {i : Nat} (h : Harmless τ u e i) :
    Harmless (τ ++ [x]) u e i := by
  obtain ⟨t, ht, hi⟩ | ⟨m, c, hstart, hlock⟩ := h
  · exact Or.inl ⟨t, ht.event, hi⟩
  · exact Or.inr ⟨m, c, getElem?_concat_of hstart, hlock⟩

/-- An event that resets nothing, or comes when no failure counts. -/
theorem Tally.event (h : Tally row₀ u τ T l)
    (hx : x.writes.any (clears u) = true → failures u l = []) :
    Tally row₀ u (τ ++ [x]) T l := by
  refine ⟨h.counted, h.once, h.touched, ?_, ?_⟩
  · intro e he hf
    obtain ⟨t, ht⟩ := h.rejected e he hf
    exact ⟨t, ht.event⟩
  · intro e he i y hi hy
    obtain hi | ⟨-, rfl⟩ := getElem?_concat hi
    · exact (h.late e he i y hi hy).event
    · rw [hx hy] at he
      cases he

/-- A write that counts no failure of `u`. -/
theorem Tally.other (h : Tally row₀ u τ T l)
    (happly : e.write.apply T = .ok (e.rows, T')) (hkeeps : KeepsAccounts e.write)
    (hf : e.write.fails ≠ some u) : Tally row₀ u τ T' (l ++ [e]) := by
  have hfalse : fails u e = false := by simp [fails, hf]
  have hsub : ∀ x ∈ failures u (l ++ [e]), x ∈ failures u l := by
    intro x hx
    by_cases hr : resets u e = true
    · rw [failures_of_resets hr] at hx
      cases hx
    · rw [Bool.not_eq_true] at hr
      rw [failures_of_other hr hfalse] at hx
      exact hx
  refine ⟨?_, ?_, ?_, ?_, fun x hx => h.late x (hsub x hx)⟩
  · by_cases hr : resets u e = true
    · obtain ⟨row, hrow, -⟩ := h.counted
      have hparts := hr
      simp only [resets, Bool.and_eq_true, decide_eq_true_eq] at hparts
      exact counted_reset hr (counter_reset happly hrow hparts.2 hparts.1)
    · rw [Bool.not_eq_true] at hr
      refine counted_other hr hfalse h.counted ?_
      intro row hrow
      refine counter_kept happly hrow hkeeps hf ?_
      intro hresets
      simpa [resets, hresets] using hr
  · rw [List.filter_append, List.filter_singleton, hfalse]
    simpa using h.once
  · intro x hx hxf
    rw [List.mem_append, List.mem_singleton] at hx
    obtain hx | rfl := hx
    · exact h.touched x hx hxf
    · exact absurd hxf hf
  · intro x hx hxf
    rw [List.mem_append, List.mem_singleton] at hx
    obtain hx | rfl := hx
    · exact h.rejected x hx hxf
    · rw [hfalse] at hxf
      cases hxf

/-- A failure of `u` that finds the count it has read. -/
theorem Tally.failure (h : Tally row₀ u τ T l)
    {k : Nat} {until_ : ℚ} (hw : e.write = .users (.loginFailure k until_ u))
    (happly : e.write.apply T = .ok (e.rows, T'))
    (hk : ∀ row, T.users.find? u = some row → k = row.failedCount + 1)
    (hnew : ∀ x ∈ l, fails u x = true → x.call ≠ e.call) (hrejects : ∃ t, RejectsAt τ u e.call t)
    (hlate : ∀ i x, τ[i]? = some x → x.writes.any (clears u) = true → Harmless τ u e i) :
    Tally row₀ u τ T' (l ++ [e]) := by
  rw [hw] at happly
  have htrue : fails u e = true := by
    obtain ⟨row, hrow, -⟩ := h.counted
    have hpos := (counter_failure happly hrow).1
    simp [fails, hw, Write.fails, hpos]
  refine ⟨?_, ?_, ?_, ?_, ?_⟩
  · refine counted_failure htrue h.counted ?_
    intro row hrow
    obtain ⟨-, row', hrow', hcount, hlock⟩ := counter_failure happly hrow
    exact ⟨row', hrow', hcount.trans (hk row hrow), by rw [hlock, hw]; rfl⟩
  · rw [List.filter_append, List.filter_singleton, htrue, List.map_append, List.nodup_append]
    refine ⟨h.once, by simp, ?_⟩
    intro a ha b hb
    obtain ⟨x, hx, rfl⟩ := List.mem_map.mp ha
    rw [List.mem_filter] at hx
    simp only [cond_true, List.map_singleton, List.mem_singleton] at hb
    rw [hb]
    exact hnew x hx.1 hx.2
  · intro x hx hxf
    rw [List.mem_append, List.mem_singleton] at hx
    obtain hx | rfl := hx
    · exact h.touched x hx hxf
    · exact htrue
  · intro x hx hxf
    rw [List.mem_append, List.mem_singleton] at hx
    obtain hx | rfl := hx
    · exact h.rejected x hx hxf
    · exact hrejects
  · intro x hx
    rw [failures_of_fails htrue, List.mem_append, List.mem_singleton] at hx
    obtain hx | rfl := hx
    · exact h.late x hx
    · exact hlate

end Invariant

/-! ### Every unraced run -/

variable [DecidableEq M] {T₀ : Tables} {σ : Sys (authService env M)} {u : Text}

theorem unraced_start {m : M} {c : Call} (h : unraced u σ (.start m c) = true) :
    c.op.attempts = true := by
  simp only [unraced, Bool.and_eq_true] at h
  exact h.1

theorem unraced_quiet : ∀ (σ : Sys (authService env M)) (m : M) (e : DbError),
    ¬ unraced u σ (.fault m e) = true :=
  fun _ _ _ h => Bool.false_ne_true h

/-- A running call is one of the three, and what it looks like. -/
theorem running_attempt (h : Later (unraced u · · = true) (Sys.idle T₀) σ) {m : M}
    {r : Running (authService env M)} (hm : σ.running m = some r) :
    Shape refused env r.call r.reads r.pending r.kept r.prog ∧ r.call.op.attempts = true := by
  refine (obeys (P := fun (c : Call) rs ws ks p => Shape refused env c rs ws ks p ∧ c.op.attempts = true)
    (clean_refused unraced_quiet) ?_ h hm).here
  intro _ _ c ha
  refine (shape_refused env c).mono ?_
  intro rs ws ks p hshape
  exact ⟨hshape, unraced_start ha⟩

theorem attempt_writes {c : Call} (hc : c.op.attempts = true) :
    Writes (D := authDb) KeepsAccounts (c.body env) := by
  refine (makes_body env c).mono ?_
  rintro w hw v rfl
  obtain ⟨u, hop, -⟩ := hw
  rw [hop] at hc
  cases hc

theorem running_keeps (h : Later (unraced u · · = true) (Sys.idle T₀) σ) {m : M}
    {r : Running (authService env M)} (hm : σ.running m = some r) {w : Write}
    {k : Except DbError Nat → Body} (hp : r.prog = .write w k) : KeepsAccounts w := by
  have hwrites := (obeys (P := fun _ _ _ _ p => Writes (D := authDb) KeepsAccounts p)
    (clean_refused unraced_quiet)
    (fun _ _ _ ha => (attempt_writes (unraced_start ha)).always) h hm).here
  rw [hp] at hwrites
  exact hwrites.1

/-- What logins leave pending neither counts a failure nor is a reset of the other two. -/
def LeftByLogin (x : Write × Nat) : Prop := x.1.fails = none ∧ ∀ v, x.1 ≠ .users (.resetLockout v)

theorem attempts_left (h : Later (unraced u · · = true) (Sys.idle T₀) σ) : Settled LeftByLogin σ := by
  refine settled (clean_refused unraced_quiet) ?_ h
  intro _ _ c ha
  have hc := unraced_start ha
  refine (shape_refused env c).mono ?_
  rintro rs ws ks p hp ⟨a, rfl⟩ ⟨w, n⟩ hx
  match w, hp.2 _ hx with
  | .users (.claimLogin ..), _ => exact ⟨rfl, nofun⟩
  | .users (.setPassword ..), _ => exact ⟨rfl, nofun⟩
  | .users (.claimBootstrapPassword ..), _ => exact ⟨rfl, nofun⟩
  | .sessions (.revokeForUser _), _ => exact ⟨rfl, nofun⟩
  | .users (.resetLockout _), ⟨⟨p, hop⟩, _⟩ =>
      rw [hop] at hc
      cases hc

/-- A transaction that resets the counter of an account counts no failure. -/
theorem Txn.fails_none {c : Call} {ws : List (Write × Nat)} (h : Txn env c ws) {x : Write × Nat}
    (hx : x ∈ ws) (hn : 0 < x.2) (hu : x.1 = .users (.resetLockout u)) : ∀ y ∈ ws, y.1.fails = none := by
  cases h with
  | reads => cases hx
  | missed w =>
      rw [List.mem_singleton] at hx
      rw [hx] at hn
      cases hn
  | routine w n hop hw =>
      rw [List.mem_singleton] at hx
      rw [hx] at hu
      simp only at hu
      rw [hu] at hw
      cases hw
  | failure v p row n hop =>
      rw [List.mem_singleton] at hx
      rw [hx] at hu
      cases hu
  | bootstrap record hop hrecord => simp [Write.fails]
  | create row v p role hop => simp [Write.fails]
  | remove w v n a b hop hw hn =>
      obtain rfl | rfl := hw <;> simp [Write.fails]
  | enable v n a hop hn => simp [Write.fails]
  | password v p record n a b hop hrecord hn => simp [Write.fails]
  | firstPassword p record pending n a b hop hrecord hpending hn => simp [Write.fails]
  | login v p hash rehash n hop hrehash hn =>
      obtain rfl | ⟨record, k, rfl⟩ := hrehash <;> simp [Write.fails]

/-! ### What the steps of a run do to the tally -/

/-- The failures that a running login has not recorded yet. -/
theorem call_ne_of_fails (h : Later (unraced u · · = true) (Sys.idle T₀) σ) {m : M}
    {r : Running (authService env M)} (hm : σ.running m = some r) (hpending : r.pending = [])
    (hkept : r.kept = []) : ∀ x ∈ σ.history ++ σ.logOf m, x.call ≠ r.id := by
  intro x hx hcall
  rw [List.mem_append] at hx
  obtain hx | hx := hx
  · have hmem := kept_of_history h hm hx hcall
    rw [hkept] at hmem
    cases hmem
  · have hmem : x.effect ∈ ownWrites r.id (σ.logOf m) :=
      List.mem_map_of_mem (List.mem_filter.mpr ⟨hx, decide_eq_true hcall⟩)
    rw [((books h).calls m r hm).own, hpending] at hmem
    cases hmem

theorem unraced_fails {m : M} (h : unraced u σ (.next m) = true) {r : Running (authService env M)}
    (hm : σ.running m = some r) {w : Write} {k : Except DbError Nat → Body} (hp : r.prog = .write w k)
    (hf : w.fails = some u) : ∀ rd ∈ r.reads, current u σ.trace (σ.view m) rd = true := by
  simp only [unraced, hm, hp, hf, Bool.and_eq_true] at h
  simpa using h.2

theorem tally_write {row₀ : User} (h : Later (unraced u · · = true) (Sys.idle T₀) σ) {m : M}
    (ha : unraced u σ (.next m) = true) {r : Running (authService env M)} (hm : σ.running m = some r)
    {w : Write} {k : Except DbError Nat → Body} (hp : r.prog = .write w k) {n : Nat} {T : Tables}
    (hw : w.apply (σ.view m) = .ok (n, T))
    (htally : Tally row₀ u σ.trace (σ.view m) (σ.history ++ σ.logOf m)) :
    Tally row₀ u σ.trace T (σ.history ++ σ.logOf m ++ [⟨r.id, w, n⟩]) := by
  by_cases hf : w.fails = some u
  · -- The call is a login that has read the row and rejected what it was given.
    have hbooks := (books h).calls m r hm
    have hcurrent := unraced_fails ha hm hp hf
    have hshape := (running_attempt h hm).1
    rw [hp] at hshape
    obtain ⟨k', until_, rfl⟩ : ∃ k' until_, w = .users (.loginFailure k' until_ u) := by
      match w, hf with
      | .users (.loginFailure k' until_ v), hf =>
          obtain rfl := Option.some.inj hf
          exact ⟨k', until_, rfl⟩
    obtain ⟨v, p, t, row, hop, hpending, hkept, hreads, -, hrejects, heq⟩ := hshape
    simp only [failureWrite, Write.users.injEq, UserWrite.loginFailure.injEq] at heq
    obtain ⟨hk, hlock, hu⟩ := heq
    rw [← hu] at hreads
    have hmem : (⟨t, .getUser u, (some row : Option User)⟩ : Read authDb) ∈ r.reads := by
      rw [hreads]
      exact List.mem_singleton_self _
    obtain ⟨hcount, hcleared⟩ := current_getUser (hcurrent _ hmem)
    have hread := hbooks.reads _ hmem
    have hat : RejectsAt σ.trace u r.id t :=
      ⟨m, r.call, v, p, row, hbooks.started, hop, hu.symm, hread, hrejects⟩
    refine htally.failure rfl hw ?_ ?_ ⟨t, hat⟩ ?_
    · intro row' hrow'
      rw [hrow', Option.map_some, Option.some.injEq] at hcount
      rw [hk, hcount]
    · intro x hx _
      exact call_ne_of_fails h hm hpending hkept x hx
    · intro i x hi hx
      by_cases hit : i < t
      · exact Or.inl ⟨t, hat, hit⟩
      · refine Or.inr ⟨m, r.call, hbooks.started, ?_⟩
        rintro _ ⟨rfl⟩
        rw [hlock, nextLockUntil, hcleared (clearedSince_of_event hi hx (Nat.le_of_not_lt hit)), add_zero]
  · exact htally.other hw (running_keeps h hm hp) hf

theorem tally_commit {row₀ : User} (h : Later (unraced u · · = true) (Sys.idle T₀) σ) {m : M}
    {r : Running (authService env M)} (hm : σ.running m = some r) {k : Except DbError Unit → Body}
    (hp : r.prog = .commit k)
    (htally : Tally row₀ u σ.trace (σ.view m) (σ.history ++ σ.logOf m)) :
    Tally row₀ u (σ.trace ++ [.commit r.id (σ.logOf m)]) (σ.view m) (σ.history ++ σ.logOf m) := by
  refine htally.event ?_
  intro hclears
  obtain ⟨x, hx, hxc⟩ := List.any_eq_true.mp (show (σ.logOf m).any (clears u) = true from hclears)
  have hany : (σ.logOf m).any (resets u) = true := List.any_eq_true.mpr ⟨x, hx, clears_resets hxc⟩
  simp only [clears, Bool.and_eq_true, decide_eq_true_eq] at hxc
  rw [failures_append hany, List.eq_nil_iff_forall_not_mem]
  intro e he
  obtain ⟨he, hef⟩ := mem_failures he
  simp only [fails, Bool.and_eq_true, decide_eq_true_eq] at hef
  -- One log cannot hold both.
  obtain ⟨old, hsplit⟩ := (attempts_left h).split hm
  have htxn := (running_attempt h hm).1
  rw [hp] at htxn
  rw [hsplit.log, List.mem_append, List.mem_map] at hx he
  obtain hx | ⟨y, hy, rfl⟩ := hx
  · exact (hsplit.left x hx).1.2 u hxc.2
  · obtain he | ⟨z, hz, rfl⟩ := he
    · rw [show e.write.fails = none from (hsplit.left e he).1.1] at hef
      cases hef.2
    · have hnone := Txn.fails_none htxn hy hxc.1 hxc.2 z hz
      rw [hnone] at hef
      cases hef.2

theorem tally {row₀ : User} (hrow : T₀.users.find? u = some row₀)
    (h : Later (unraced u · · = true) (Sys.idle T₀) σ) :
    Tally row₀ u σ.trace σ.committed σ.history := by
  have hidle : Tally row₀ u ([] : List (Event (authService env M))) T₀ [] := by
    refine ⟨⟨row₀, hrow, rfl, rfl⟩, List.nodup_nil, nofun, nofun, nofun⟩
  refine (ledger (S := authService env M) (I := Tally row₀ u) hidle ?_ ?_ ?_ h).1
  · intro τ x T l hx htally
    refine htally.event ?_
    rw [hx]
    nofun
  · intro σ m r w k n T hlater ha hm hp hw htally
    exact tally_write hlater ha hm hp hw htally
  · intro σ m r k hlater hm hp htally
    exact tally_commit hlater hm hp htally

/-- A login that has ended because of a wrong password has recorded its failure. -/
theorem recorded {row₀ : User} (hrow : T₀.users.find? u = some row₀)
    (h : Later (unraced u · · = true) (Sys.idle T₀) σ) {id t i : Nat}
    (hat : RejectsAt σ.trace u id t) (hi : σ.event i = some (.ret id (.error .loginFailed))) :
    ∃ e ∈ σ.history, e.call = id ∧ fails u e = true := by
  obtain ⟨m, c, v, p, row, hstart, hop, hv, hask, hrejects⟩ := hat
  have hti := ask_before_ret h hi hask
  obtain ⟨σ₁, m₁, r, h₁, hlater, hlen, hm, rfl, hp⟩ := occurred_ret h hi
  have hbooks := (books h₁).calls m₁ r hm
  have hcall := (call_of_start h₁ hlater hm hstart).2
  have hread := hbooks.asked t _ _ (trace_earlier hlater hask (by omega))
  have hshape := (running_attempt h₁ hm).1
  rw [hp, hcall] at hshape
  cases hshape.1 with
  | plain _ hplain _ => cases hplain
  | loginFailed v' p' hop' hks =>
      rw [hop, Op.login.injEq] at hop'
      obtain ⟨rfl, rfl⟩ := hop'
      rw [hv] at hks
      obtain ⟨n, hkept⟩ := hks t row hrejects hread
      have hmem : (failureWrite env c v row, n) ∈ r.kept.flatten := by simp [hkept]
      obtain ⟨j, log, e, he, hj, hid, heq⟩ := hbooks.of_kept hmem
      have hhistory : e ∈ σ.history := mem_history.mpr ⟨j, r.id, log, trace_later hlater hj, he⟩
      refine ⟨e, hhistory, hid, (tally hrow h).touched e hhistory ?_⟩
      rw [show e.write = failureWrite env c v row from congrArg Prod.fst heq, failureWrite, hv]
      rfl

/-- **In every run in which rejected logins of `u` find the count they have read, the counter of
`u` is exact** and no failure locks the account that belongs before its last reset. -/
theorem lockout_accurate {row₀ : User} (hrow : T₀.users.find? u = some row₀)
    (h : Later (unraced u · · = true) (Sys.idle T₀) σ) : LockoutAccurate row₀ u σ := by
  have htally := tally hrow h
  obtain ⟨row, hfind, hcount, hlock⟩ := htally.counted
  refine ⟨⟨row, hfind, hcount⟩, htally.once, htally.rejected, fun id t i => recorded hrow h, ?_⟩
  intro i x hi hx row' until_ hrow' huntil
  rw [hfind, Option.some.injEq] at hrow'
  rw [← hrow', hlock, lockAfter] at huntil
  -- There has been a reset, so the lock is that of a failure since.
  have hreset : σ.history.any (resets u) = true := by
    obtain ⟨y, hy, hyc⟩ := List.any_eq_true.mp hx
    refine List.any_eq_true.mpr ⟨y, ?_, clears_resets hyc⟩
    exact List.mem_flatMap.mpr ⟨x, List.mem_iff_getElem?.mpr ⟨i, hi⟩, hy⟩
  cases hlast : (failures u σ.history).getLast? with
  | none =>
      rw [hlast, hreset] at huntil
      cases huntil
  | some e =>
      rw [hlast] at huntil
      have hmem := List.mem_of_getLast? hlast
      obtain ⟨he, hf⟩ := mem_failures hmem
      exact ⟨e, he, hf, huntil, htally.late e hmem i x hi hx⟩

/-- An account with a password and no failures. -/
def admin : User :=
  ⟨bootstrapUsername, (hashPassword demoEnv demoSalt "second-password".toList).toOption.getD [], 100,
    false, none, 0, none, .admin⟩

def adminOnly : Tables := ⟨⟨[admin], by simp⟩, Table.empty, Table.empty⟩

def wrongPassword : Op := .login bootstrapUsername "wrong-password-1".toList

/-- Failures through two managers one after the other, a new password, and another failure. -/
theorem lockout_accurate_setPassword :
    adminOnly.users.find? bootstrapUsername = some admin ∧
    ∃ σ : Sys (authService demoEnv Bool),
      Sys.run (unraced bootstrapUsername) (demoSteps true wrongPassword 110 4 ++
        demoSteps false wrongPassword 120 4 ++
        demoSteps true (.setPassword bootstrapUsername "first-admin-secret".toList) 130 5 ++
        demoSteps false wrongPassword 140 4) (Sys.idle adminOnly) = some σ ∧
      LockoutAccurate admin bootstrapUsername σ := by
  have hrow : adminOnly.users.find? bootstrapUsername = some admin := by rfl
  have hrun : (Sys.run (unraced bootstrapUsername) (demoSteps true wrongPassword 110 4 ++
      demoSteps false wrongPassword 120 4 ++
      demoSteps true (.setPassword bootstrapUsername "first-admin-secret".toList) 130 5 ++
      demoSteps false wrongPassword 140 4) (Sys.idle adminOnly)).isSome = true := by
    decide +kernel
  obtain ⟨σ, hσ⟩ := Option.isSome_iff_exists.mp hrun
  exact ⟨hrow, σ, hσ, lockout_accurate hrow (later_run hσ)⟩

/-! ### A lost failure -/

/-- Both managers read the row before either records its failure. -/
def racingSteps : List (Action (authService demoEnv Bool)) :=
  demoSteps true wrongPassword 110 1 ++ demoSteps false wrongPassword 110 1 ++
    List.replicate 3 (.next true) ++ List.replicate 3 (.next false)

/-- Two failures are in the history and the row counts one. -/
def failureLost (σ : Sys (authService demoEnv Bool)) : Bool :=
  (σ.committed.users.find? bootstrapUsername).any (·.failedCount = 1) &&
    (failures bootstrapUsername σ.history).length = 2

theorem failures_lost :
    ∃ σ : Sys (authService demoEnv Bool),
      Later (attempts · · = true) (Sys.idle adminOnly) σ ∧
      ¬ LockoutAccurate admin bootstrapUsername σ := by
  have hrun : (Sys.run attempts racingSteps (Sys.idle adminOnly)).any failureLost = true := by
    decide +kernel
  obtain ⟨σ, hσ, hcheck⟩ := (Option.any_eq_true _ _).mp hrun
  refine ⟨σ, later_run hσ, ?_⟩
  intro haccurate
  obtain ⟨row, hrow, hcount⟩ := haccurate.count
  simp only [failureLost, hrow, Option.any_some, Bool.and_eq_true, decide_eq_true_eq] at hcheck
  rw [hcheck.1, hcheck.2] at hcount
  omega

end CyClaw.Auth

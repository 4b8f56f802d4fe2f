/-
Calls that nobody interrupts.

`Prog.alone` follows a call on one connection to its end: no statement of anyone else comes
in between, and nothing raises but what a write raises by itself.  What a call leaves open,
the connection keeps.

`run_call` says that this is the call of a client that is given all its turns in a row.
-/
import CyClaw.Lib.CallPaths

namespace Transactions

/-- What the statements of a connection see, and the last commit. -/
structure Conn (D : Database) where
  view : D.Tables
  saved : D.Tables

section Alone

variable {D : Database} {α : Type}

def Prog.alone : Prog D α → Conn D → α × Conn D
  | .ret a, c => (a, c)
  | .ask q k, c => (k (.ok (D.ask q c.view))).alone c
  | .write w k, c =>
      match D.apply w c.view with
      | .ok (n, T) => (k (.ok n)).alone { c with view := T }
      | .error e => (k (.error e)).alone c
  | .commit k, c => (k (.ok ())).alone { c with saved := c.view }
  | .rollback k, c => k.alone { c with view := c.saved }

@[simp] theorem alone_ret (a : α) (c : Conn D) : (Prog.ret a).alone c = (a, c) := rfl

@[simp] theorem alone_ask (q : D.Query) (k : Except D.Err (D.Res q) → Prog D α) (c : Conn D) :
    (Prog.ask q k).alone c = (k (.ok (D.ask q c.view))).alone c := rfl

@[simp] theorem alone_commit (k : Except D.Err Unit → Prog D α) (c : Conn D) :
    (Prog.commit k).alone c = (k (.ok ())).alone { c with saved := c.view } := rfl

@[simp] theorem alone_rollback (k : Prog D α) (c : Conn D) :
    (Prog.rollback k).alone c = k.alone { c with view := c.saved } := rfl

theorem alone_wrote {w : D.Write} {k : Except D.Err Nat → Prog D α} {c : Conn D} {n : Nat} {T : D.Tables}
    (h : D.apply w c.view = .ok (n, T)) :
    (Prog.write w k).alone c = (k (.ok n)).alone { c with view := T } := by
  rw [Prog.alone, h]

theorem alone_refused {w : D.Write} {k : Except D.Err Nat → Prog D α} {c : Conn D} {e : D.Err}
    (h : D.apply w c.view = .error e) : (Prog.write w k).alone c = (k (.error e)).alone c := by
  rw [Prog.alone, h]

/-- What every write keeps holds of the tables all the way. -/
theorem alone_inv {Q : D.Write → Prop} {I : D.Tables → Prop} {p : Prog D α} (hQ : Writes Q p)
    (hI : ∀ w T n T', Q w → I T → D.apply w T = .ok (n, T') → I T') {c : Conn D} (hview : I c.view)
    (hsaved : I c.saved) : I (p.alone c).2.view ∧ I (p.alone c).2.saved := by
  induction p generalizing c with
  | ret a => exact ⟨hview, hsaved⟩
  | ask q k ih => exact ih _ (hQ _) hview hsaved
  | write w k ih =>
    obtain ⟨hw, hk⟩ := hQ
    cases happly : D.apply w c.view with
    | ok r =>
      obtain ⟨n, T⟩ := r
      rw [alone_wrote happly]
      exact ih _ (hk _) (hI w c.view n T hw hview happly) hsaved
    | error e =>
      rw [alone_refused happly]
      exact ih _ (hk _) hview hsaved
  | commit k ih => exact ih _ (hQ _) hview hview
  | rollback k ih => exact ih hQ hsaved hsaved

/-- The call takes nothing back, and every write of it satisfies `Q`. -/
def Forward (Q : D.Write → Prop) : Prog D α → Prop
  | .ret _ => True
  | .ask _ k => ∀ x, Forward Q (k x)
  | .write w k => Q w ∧ ∀ x, Forward Q (k x)
  | .commit k => ∀ x, Forward Q (k x)
  | .rollback _ => False

/-- Of such a call it is enough to know what the connection sees. -/
theorem alone_forward {Q : D.Write → Prop} {I : D.Tables → Prop} {p : Prog D α} (hQ : Forward Q p)
    (hI : ∀ w T n T', Q w → I T → D.apply w T = .ok (n, T') → I T') {c : Conn D} (hview : I c.view) :
    I (p.alone c).2.view := by
  induction p generalizing c with
  | ret a => exact hview
  | ask q k ih => exact ih _ (hQ _) hview
  | write w k ih =>
    obtain ⟨hw, hk⟩ := hQ
    cases happly : D.apply w c.view with
    | ok r =>
      obtain ⟨n, T⟩ := r
      rw [alone_wrote happly]
      exact ih _ (hk _) (hI w c.view n T hw hview happly)
    | error e =>
      rw [alone_refused happly]
      exact ih _ (hk _) hview
  | commit k ih => exact ih _ (hQ _) hview
  | rollback k => exact hQ.elim

end Alone

/-! ### Calls in a row -/

section Serve

variable {S : Service}

/-- What calls on one connection return, one after the other, and what they leave of it. -/
def serve (S : Service) : List S.Call → Conn S.db → List S.Value × Conn S.db
  | [], c => ([], c)
  | x :: xs, c =>
      let r := (S.body x).alone c
      let rest := serve S xs r.2
      (r.1 :: rest.1, rest.2)

@[simp] theorem serve_nil (c : Conn S.db) : serve S [] c = ([], c) := rfl

@[simp] theorem serve_cons (x : S.Call) (xs : List S.Call) (c : Conn S.db) :
    serve S (x :: xs) c =
      (((S.body x).alone c).1 :: (serve S xs ((S.body x).alone c).2).1, (serve S xs ((S.body x).alone c).2).2) :=
  rfl

/-- What every write of every one of the calls keeps. -/
theorem serve_inv {Q : S.db.Write → Prop} {I : S.db.Tables → Prop} {xs : List S.Call}
    (hQ : ∀ x ∈ xs, Writes Q (S.body x))
    (hI : ∀ w T n T', Q w → I T → S.db.apply w T = .ok (n, T') → I T') {c : Conn S.db} (hview : I c.view)
    (hsaved : I c.saved) : I (serve S xs c).2.view ∧ I (serve S xs c).2.saved := by
  induction xs generalizing c with
  | nil => exact ⟨hview, hsaved⟩
  | cons x xs ih =>
    obtain ⟨hv, hs⟩ := alone_inv (hQ x List.mem_cons_self) hI hview hsaved
    exact ih (fun y hy => hQ y (List.mem_cons_of_mem x hy)) hv hs

end Serve

/-! ### The same call among the others -/

section Run

open Sys

variable {S : Service} [DecidableEq S.Client] {σ : Sys S} {m : S.Client} {id : Nat} {c : Conn S.db}

def Sys.conn (σ : Sys S) (m : S.Client) : Conn S.db := ⟨σ.view m, σ.committed⟩

/-- The client has come to `p` in call `id`, and no other client has a transaction open. -/
structure At (σ : Sys S) (m : S.Client) (id : Nat) (p : Prog S.db S.Value) (c : Conn S.db) : Prop where
  running : ∃ r, σ.running m = some r ∧ r.id = id ∧ r.prog = p
  conn : σ.conn m = c
  free : σ.blocked m = false

/-- A client that is not blocked holds the open transaction, if there is one. -/
theorem released_of_free (h : σ.blocked m = false) : σ.released m = none := by
  unfold blocked at h
  unfold released
  cases htxn : σ.txn with
  | none => rfl
  | some t =>
    rw [htxn, Option.any_some] at h
    exact Option.filter_some_neg (by simp [h])

theorem step_next {r : Running S} (h : σ.running m = some r) : Sys.step (.next m) σ = σ.advance m r := by
  rw [Sys.step, h, Option.bind_some]

theorem At.ask {q : S.db.Query} {k : Except S.db.Err (S.db.Res q) → Prog S.db S.Value}
    (h : At σ m id (.ask q k) c) :
    ∃ σ₁, Sys.step (.next m) σ = some σ₁ ∧ At σ₁ m id (k (.ok (S.db.ask q c.view))) c := by
  obtain ⟨⟨r, hrun, hid, hp⟩, rfl, hfree⟩ := h
  have hstep := step_next hrun
  rw [advance, hp] at hstep
  refine ⟨_, hstep, ⟨_, Function.update_self .., hid, rfl⟩, rfl, hfree⟩

theorem At.wrote {w : S.db.Write} {k : Except S.db.Err Nat → Prog S.db S.Value} {n : Nat} {T : S.db.Tables}
    (h : At σ m id (.write w k) c) (hw : S.db.apply w c.view = .ok (n, T)) :
    ∃ σ₁, Sys.step (.next m) σ = some σ₁ ∧ At σ₁ m id (k (.ok n)) { c with view := T } := by
  obtain ⟨⟨r, hrun, hid, hp⟩, rfl, hfree⟩ := h
  have hw : S.db.apply w (σ.view m) = .ok (n, T) := hw
  refine ⟨{ σ.setRunning m (some { r with prog := k (.ok n), pending := r.pending ++ [(w, n)] }) with
    txn := some ⟨m, T, σ.logOf m ++ [⟨r.id, w, n⟩]⟩ }, ?_, ⟨_, Function.update_self .., hid, rfl⟩, ?_, ?_⟩
  · rw [step_next hrun, advance, hp]
    simp only [hfree, hw, Bool.false_eq_true, if_false]
  · simp [Sys.conn, view, txnOf, setRunning, Option.filter]
  · simp [blocked]

theorem At.refused {w : S.db.Write} {k : Except S.db.Err Nat → Prog S.db S.Value} {e : S.db.Err}
    (h : At σ m id (.write w k) c) (hw : S.db.apply w c.view = .error e) :
    ∃ σ₁, Sys.step (.next m) σ = some σ₁ ∧ At σ₁ m id (k (.error e)) c := by
  obtain ⟨⟨r, hrun, hid, hp⟩, rfl, hfree⟩ := h
  have hw : S.db.apply w (σ.view m) = .error e := hw
  refine ⟨{ σ.setRunning m (some { r with prog := k (.error e) }) with
    txn := some ⟨m, σ.view m, σ.logOf m⟩ }, ?_, ⟨_, Function.update_self .., hid, rfl⟩, ?_, ?_⟩
  · rw [step_next hrun, advance, hp]
    simp only [hfree, hw, Bool.false_eq_true, if_false]
  · simp [Sys.conn, view, txnOf, setRunning, Option.filter]
  · simp [blocked]

theorem At.commit {k : Except S.db.Err Unit → Prog S.db S.Value} (h : At σ m id (.commit k) c) :
    ∃ σ₁, Sys.step (.next m) σ = some σ₁ ∧ At σ₁ m id (k (.ok ())) { c with saved := c.view } := by
  obtain ⟨⟨r, hrun, hid, hp⟩, rfl, hfree⟩ := h
  have hstep := step_next hrun
  rw [advance, hp] at hstep
  refine ⟨_, hstep, ⟨_, Function.update_self .., hid, rfl⟩, ?_, ?_⟩
  · simp [Sys.conn, view, txnOf, Sys.log, released_of_free hfree]
  · simp [blocked, Sys.log, released_of_free hfree]

theorem At.rollback {k : Prog S.db S.Value} (h : At σ m id (.rollback k) c) :
    ∃ σ₁, Sys.step (.next m) σ = some σ₁ ∧ At σ₁ m id k { c with view := c.saved } := by
  obtain ⟨⟨r, hrun, hid, hp⟩, rfl, hfree⟩ := h
  have hstep := step_next hrun
  rw [advance, hp] at hstep
  refine ⟨_, hstep, ⟨_, Function.update_self .., hid, rfl⟩, ?_, ?_⟩
  · simp [Sys.conn, view, txnOf, setRunning, released_of_free hfree]
  · simp [blocked, released_of_free hfree]

/-- **A call that nobody interrupts.**  With enough turns in a row the client comes to the
return of its call, with the value and the tables that `alone` says. -/
theorem run_alone {p : Prog S.db S.Value} (h : At σ m id p c) :
    ∃ n σ', Sys.run (fun _ _ => true) (List.replicate n (.next m)) σ = some σ' ∧
      At σ' m id (.ret (p.alone c).1) (p.alone c).2 := by
  -- One statement, and then the rest.
  have rest : ∀ {σ σ₁ : Sys S} {Q : Sys S → Prop}, Sys.step (.next m) σ = some σ₁ →
      (∃ n σ', Sys.run (fun _ _ => true) (List.replicate n (.next m)) σ₁ = some σ' ∧ Q σ') →
      ∃ n σ', Sys.run (fun _ _ => true) (List.replicate n (.next m)) σ = some σ' ∧ Q σ' := by
    rintro σ σ₁ Q hstep ⟨n, σ', hrun, hQ⟩
    refine ⟨n + 1, σ', ?_, hQ⟩
    rw [List.replicate_succ, Sys.run, if_pos rfl, hstep]
    exact hrun
  induction p generalizing σ c with
  | ret a => exact ⟨0, σ, rfl, h⟩
  | ask q k ih =>
    obtain ⟨σ₁, hstep, h₁⟩ := h.ask
    exact rest hstep (ih _ h₁)
  | write w k ih =>
    cases hw : S.db.apply w c.view with
    | ok x =>
      obtain ⟨σ₁, hstep, h₁⟩ := h.wrote hw
      rw [alone_wrote hw]
      exact rest hstep (ih _ h₁)
    | error e =>
      obtain ⟨σ₁, hstep, h₁⟩ := h.refused hw
      rw [alone_refused hw]
      exact rest hstep (ih _ h₁)
  | commit k ih =>
    obtain ⟨σ₁, hstep, h₁⟩ := h.commit
    exact rest hstep (ih _ h₁)
  | rollback k ih =>
    obtain ⟨σ₁, hstep, h₁⟩ := h.rollback
    exact rest hstep (ih h₁)

/-- The client is between two calls, and no other client has a transaction open. -/
structure Ready (σ : Sys S) (m : S.Client) (c : Conn S.db) : Prop where
  idle : σ.running m = none
  conn : σ.conn m = c
  free : σ.blocked m = false

/-- A call up to its return. -/
theorem run_call (h : Ready σ m c) (x : S.Call) :
    ∃ n σ', Sys.run (fun _ _ => true) (.start m x :: List.replicate n (.next m)) σ = some σ' ∧
      At σ' m σ.trace.length (.ret ((S.body x).alone c).1) ((S.body x).alone c).2 := by
  obtain ⟨hidle, rfl, hfree⟩ := h
  have hstart : Sys.step (.start m x) σ =
      some ((σ.setRunning m (some ⟨σ.trace.length, x, S.body x, [], [], []⟩)).log (.start m x)) := by
    rw [Sys.step, hidle]
  have hat : At ((σ.setRunning m (some ⟨σ.trace.length, x, S.body x, [], [], []⟩)).log (.start m x)) m
      σ.trace.length (S.body x) (σ.conn m) :=
    ⟨⟨_, Function.update_self .., rfl, rfl⟩, rfl, hfree⟩
  obtain ⟨n, σ', hrun, hend⟩ := run_alone hat
  refine ⟨n, σ', ?_, hend⟩
  rw [Sys.run, if_pos rfl, hstart]
  exact hrun

end Run

end Transactions

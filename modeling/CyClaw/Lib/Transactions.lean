/-
Clients of one database that allows one writer at a time.

Each client holds a connection and runs one call at a time.  A call is a `Prog`: it
issues statements one after the other and goes on with their results, and any statement
may raise instead.  Statements of different clients interleave freely, with one rule of
the database: from its first write to its commit or rollback a client holds the write
lock, so another client's write waits.  Everyone else reads the last commit meanwhile,
and the client itself reads what it has written.

A call that ends without a commit or a rollback leaves its transaction open, and the next
commit on that connection makes it permanent.  Nothing here forbids that.

The state keeps a `trace` of what happened.  A call is named by the place of its start in
the trace, and every entry of a transaction's log carries the name of the call that wrote
it.  `occurred` goes from a place in the trace back to the step that wrote it, and `Books`
says how the running calls, the open transaction and the trace fit together.
-/
import Mathlib.Data.List.Basic
import Mathlib.Logic.Function.Basic
import Mathlib.Logic.Relation

namespace Transactions

/-- Tables, the statements that read them and the statements that change them.  A write
reports how many rows it touched, or raises and changes nothing. -/
structure Database where
  Tables : Type
  Query : Type
  Res : Query → Type
  Write : Type
  Err : Type
  ask : (q : Query) → Tables → Res q
  apply : Write → Tables → Except Err (Nat × Tables)

inductive Prog (D : Database) (α : Type) where
  | ret (a : α)
  | ask (q : D.Query) (k : Except D.Err (D.Res q) → Prog D α)
  | write (w : D.Write) (k : Except D.Err Nat → Prog D α)
  | commit (k : Except D.Err Unit → Prog D α)
  | rollback (k : Prog D α)

/-- A database, its clients and the calls they make. -/
structure Service where
  db : Database
  Client : Type
  Call : Type
  Value : Type
  body : Call → Prog db Value

/-- A result a call has read, and when. -/
structure Read (D : Database) where
  time : Nat
  query : D.Query
  result : D.Res query

/-- A write of a call, with the rows it touched. -/
structure Entry (S : Service) where
  call : Nat
  write : S.db.Write
  rows : Nat

structure OpenTxn (S : Service) where
  owner : S.Client
  tables : S.db.Tables
  log : List (Entry S)

/-- A call in progress: what is left of it, what it has read, what it has written since its
last commit or rollback, and what each of its commits has made permanent. -/
structure Running (S : Service) where
  id : Nat
  call : S.Call
  prog : Prog S.db S.Value
  reads : List (Read S.db)
  pending : List (S.db.Write × Nat)
  kept : List (List (S.db.Write × Nat))

inductive Event (S : Service) where
  | start (m : S.Client) (c : S.Call)
  | ask (id : Nat) (q : S.db.Query) (r : S.db.Res q)
  | commit (id : Nat) (log : List (Entry S))
  | ret (id : Nat) (a : S.Value)

structure Sys (S : Service) where
  committed : S.db.Tables
  txn : Option (OpenTxn S)
  running : S.Client → Option (Running S)
  trace : List (Event S)

inductive Action (S : Service) where
  | start (m : S.Client) (c : S.Call)
  | next (m : S.Client)
  | fault (m : S.Client) (e : S.db.Err)

variable {S : Service} [DecidableEq S.Client]

namespace Sys

/-- Nothing has happened yet. -/
def idle (T : S.db.Tables) : Sys S := ⟨T, none, fun _ => none, []⟩

/-- The transaction a client has open. -/
def txnOf (σ : Sys S) (m : S.Client) : Option (OpenTxn S) := σ.txn.filter (·.owner = m)

/-- What a client's statements see. -/
def view (σ : Sys S) (m : S.Client) : S.db.Tables := ((σ.txnOf m).map (·.tables)).getD σ.committed

def logOf (σ : Sys S) (m : S.Client) : List (Entry S) := ((σ.txnOf m).map (·.log)).getD []

/-- Another client holds the write lock. -/
def blocked (σ : Sys S) (m : S.Client) : Bool := σ.txn.any (·.owner ≠ m)

/-- The open transaction once a client has ended its own. -/
def released (σ : Sys S) (m : S.Client) : Option (OpenTxn S) := σ.txn.filter (·.owner ≠ m)

def setRunning (σ : Sys S) (m : S.Client) (x : Option (Running S)) : Sys S :=
  { σ with running := Function.update σ.running m x }

def log (σ : Sys S) (e : Event S) : Sys S := { σ with trace := σ.trace ++ [e] }

/-- The next statement of a running call. -/
def advance (σ : Sys S) (m : S.Client) (r : Running S) : Option (Sys S) :=
  match r.prog with
  | .ret a => some ((σ.setRunning m none).log (.ret r.id a))
  | .ask q k =>
      let res := S.db.ask q (σ.view m)
      let r' := { r with prog := k (.ok res), reads := r.reads ++ [⟨σ.trace.length, q, res⟩] }
      some ((σ.setRunning m (some r')).log (.ask r.id q res))
  | .write w k =>
      if σ.blocked m then none
      else
        match S.db.apply w (σ.view m) with
        | .ok (n, T) =>
            let r' := { r with prog := k (.ok n), pending := r.pending ++ [(w, n)] }
            some { σ.setRunning m (some r') with
              txn := some ⟨m, T, σ.logOf m ++ [⟨r.id, w, n⟩]⟩ }
        | .error e =>
            -- The statement is undone, the transaction it began stays.
            let r' := { r with prog := k (.error e) }
            some { σ.setRunning m (some r') with txn := some ⟨m, σ.view m, σ.logOf m⟩ }
  | .commit k =>
      let r' := { r with prog := k (.ok ()), pending := [], kept := r.kept ++ [r.pending] }
      some (Sys.log { σ.setRunning m (some r') with
        committed := σ.view m, txn := σ.released m } (.commit r.id (σ.logOf m)))
  | .rollback k =>
      let r' := { r with prog := k, pending := [] }
      some { σ.setRunning m (some r') with txn := σ.released m }

/-- How a call goes on when its next statement raises. -/
def onFault (e : S.db.Err) : Prog S.db S.Value → Option (Prog S.db S.Value)
  | .ask _ k => some (k (.error e))
  | .write _ k => some (k (.error e))
  | .commit k => some (k (.error e))
  | .ret _ => none
  | .rollback _ => none

def step : Action S → Sys S → Option (Sys S)
  | .start m c, σ =>
      match σ.running m with
      | some _ => none
      | none =>
          some ((σ.setRunning m (some ⟨σ.trace.length, c, S.body c, [], [], []⟩)).log (.start m c))
  | .next m, σ => (σ.running m).bind (σ.advance m)
  | .fault m e, σ =>
      (σ.running m).bind fun r =>
        (onFault e r.prog).map fun p => σ.setRunning m (some { r with prog := p })

/-- What happened at a place of the trace. -/
abbrev event (σ : Sys S) (i : Nat) : Option (Event S) := σ.trace[i]?

/-- A schedule, if it can be followed and every step of it is allowed. -/
def run (allow : Sys S → Action S → Bool) : List (Action S) → Sys S → Option (Sys S)
  | [], σ => some σ
  | a :: as, σ => if allow σ a then (step a σ).bind (run allow as) else none

end Sys

/-! ### What a step can do -/

open Sys

inductive Stepped (σ : Sys S) : Action S → Sys S → Prop
  | start {m c} (hm : σ.running m = none) :
      Stepped σ (.start m c)
        ((σ.setRunning m (some ⟨σ.trace.length, c, S.body c, [], [], []⟩)).log (.start m c))
  | ret {m r a} (hm : σ.running m = some r) (hp : r.prog = .ret a) :
      Stepped σ (.next m) ((σ.setRunning m none).log (.ret r.id a))
  | ask {m r q k} (hm : σ.running m = some r) (hp : r.prog = .ask q k) :
      Stepped σ (.next m) ((σ.setRunning m (some
        { r with
          prog := k (.ok (S.db.ask q (σ.view m)))
          reads := r.reads ++ [⟨σ.trace.length, q, S.db.ask q (σ.view m)⟩] })).log
        (.ask r.id q (S.db.ask q (σ.view m))))
  | wrote {m r w k n T} (hm : σ.running m = some r) (hp : r.prog = .write w k)
      (hb : σ.blocked m = false) (hw : S.db.apply w (σ.view m) = .ok (n, T)) :
      Stepped σ (.next m)
        { σ.setRunning m (some { r with prog := k (.ok n), pending := r.pending ++ [(w, n)] }) with
          txn := some ⟨m, T, σ.logOf m ++ [⟨r.id, w, n⟩]⟩ }
  | refused {m r w k e} (hm : σ.running m = some r) (hp : r.prog = .write w k)
      (hb : σ.blocked m = false) (hw : S.db.apply w (σ.view m) = .error e) :
      Stepped σ (.next m)
        { σ.setRunning m (some { r with prog := k (.error e) }) with
          txn := some ⟨m, σ.view m, σ.logOf m⟩ }
  | commit {m r k} (hm : σ.running m = some r) (hp : r.prog = .commit k) :
      Stepped σ (.next m) (Sys.log
        { σ.setRunning m (some
            { r with prog := k (.ok ()), pending := [], kept := r.kept ++ [r.pending] }) with
          committed := σ.view m, txn := σ.released m }
        (.commit r.id (σ.logOf m)))
  | rollback {m r k} (hm : σ.running m = some r) (hp : r.prog = .rollback k) :
      Stepped σ (.next m)
        { σ.setRunning m (some { r with prog := k, pending := [] }) with txn := σ.released m }
  | fault {m r e p} (hm : σ.running m = some r) (hp : onFault e r.prog = some p) :
      Stepped σ (.fault m e) (σ.setRunning m (some { r with prog := p }))

theorem stepped {σ σ' : Sys S} {a : Action S} (h : step a σ = some σ') : Stepped σ a σ' := by
  cases a with
  | start m c =>
      rw [step] at h
      split at h
      · simp at h
      · rename_i hm
        simp only [Option.some.injEq] at h
        subst h
        exact .start hm
  | next m =>
      rw [step, Option.bind_eq_some_iff] at h
      obtain ⟨r, hm, h⟩ := h
      rw [advance] at h
      split at h
      · rename_i a hp
        simp only [Option.some.injEq] at h
        subst h
        exact .ret hm hp
      · rename_i q k hp
        simp only [Option.some.injEq] at h
        subst h
        exact .ask hm hp
      · rename_i w k hp
        split at h
        · simp at h
        · rename_i hb
          rw [Bool.not_eq_true] at hb
          split at h
          · rename_i n T hw
            simp only [Option.some.injEq] at h
            subst h
            exact .wrote hm hp hb hw
          · rename_i e hw
            simp only [Option.some.injEq] at h
            subst h
            exact .refused hm hp hb hw
      · rename_i k hp
        simp only [Option.some.injEq] at h
        subst h
        exact .commit hm hp
      · rename_i k hp
        simp only [Option.some.injEq] at h
        subst h
        exact .rollback hm hp
  | fault m e =>
      rw [step, Option.bind_eq_some_iff] at h
      obtain ⟨r, hm, h⟩ := h
      rw [Option.map_eq_some_iff] at h
      obtain ⟨p, hp, rfl⟩ := h
      exact .fault hm hp

/-! ### Reachable states -/

/-- The steps a run may take. -/
def Next (allow : Sys S → Action S → Prop) (σ σ' : Sys S) : Prop :=
  ∃ a, allow σ a ∧ step a σ = some σ'

def Later (allow : Sys S → Action S → Prop) : Sys S → Sys S → Prop :=
  Relation.ReflTransGen (Next allow)

theorem later_run {allow : Sys S → Action S → Bool} {as : List (Action S)} {σ σ' : Sys S}
    (h : run allow as σ = some σ') : Later (allow · · = true) σ σ' := by
  induction as generalizing σ with
  | nil =>
      simp only [run, Option.some.injEq] at h
      rw [h]
      exact Relation.ReflTransGen.refl
  | cons a as ih =>
      rw [run] at h
      split at h
      · rename_i ha
        rw [Option.bind_eq_some_iff] at h
        obtain ⟨σ₁, hstep, h⟩ := h
        exact Relation.ReflTransGen.head ⟨a, ha, hstep⟩ (ih h)
      · cases h

variable {allow : Sys S → Action S → Prop}

theorem later_mono {allow' : Sys S → Action S → Prop} (hmono : ∀ σ a, allow σ a → allow' σ a)
    {σ σ' : Sys S} (h : Later allow σ σ') : Later allow' σ σ' := by
  induction h with
  | refl => exact Relation.ReflTransGen.refl
  | tail _ hnext ih =>
      obtain ⟨a, ha, hstep⟩ := hnext
      exact ih.tail ⟨a, hmono _ _ ha, hstep⟩

/-- A step writes at most one event. -/
theorem trace_step {σ σ' : Sys S} {a : Action S} (h : Stepped σ a σ') :
    σ'.trace = σ.trace ∨ ∃ e, σ'.trace = σ.trace ++ [e] := by
  cases h with
  | start hm => exact Or.inr ⟨_, rfl⟩
  | ret hm hp => exact Or.inr ⟨_, rfl⟩
  | ask hm hp => exact Or.inr ⟨_, rfl⟩
  | wrote hm hp hb hw => exact Or.inl rfl
  | refused hm hp hb hw => exact Or.inl rfl
  | commit hm hp => exact Or.inr ⟨_, rfl⟩
  | rollback hm hp => exact Or.inl rfl
  | fault hm hp => exact Or.inl rfl

theorem trace_le {σ σ' : Sys S} (h : Later allow σ σ') : σ.trace <+: σ'.trace := by
  induction h with
  | refl => exact List.prefix_refl _
  | tail _ hnext ih =>
      obtain ⟨a, -, hstep⟩ := hnext
      obtain heq | ⟨e, heq⟩ := trace_step (stepped hstep)
      · rw [heq]
        exact ih
      · rw [heq]
        exact ih.trans (List.prefix_append _ _)

/-- What the trace says at a place, it keeps saying. -/
theorem trace_later {σ σ' : Sys S} (h : Later allow σ σ') {i : Nat} {e : Event S}
    (hi : σ.trace[i]? = some e) : σ'.trace[i]? = some e := by
  obtain ⟨t, ht⟩ := trace_le h
  obtain ⟨hlt, -⟩ := List.getElem?_eq_some_iff.mp hi
  rw [← ht, List.getElem?_append_left hlt]
  exact hi

theorem trace_earlier {σ σ' : Sys S} (h : Later allow σ σ') {i : Nat} {e : Event S}
    (hi : σ'.trace[i]? = some e) (hlt : i < σ.trace.length) : σ.trace[i]? = some e := by
  obtain ⟨t, ht⟩ := trace_le h
  rw [← ht, List.getElem?_append_left hlt] at hi
  exact hi

/-- **Every event of a run was written by a step of it.** -/
theorem occurred {σ₀ σ : Sys S} (h : Later allow σ₀ σ) {i : Nat} {e : Event S}
    (hlo : σ₀.trace.length ≤ i) (hi : σ.trace[i]? = some e) :
    ∃ σ₁ a σ₂, Later allow σ₀ σ₁ ∧ allow σ₁ a ∧ step a σ₁ = some σ₂ ∧ Later allow σ₂ σ ∧
      σ₁.trace.length = i ∧ σ₂.trace = σ₁.trace ++ [e] := by
  induction h with
  | refl =>
      obtain ⟨hlt, -⟩ := List.getElem?_eq_some_iff.mp hi
      omega
  | @tail σ₁ σ₂ hlater hnext ih =>
      obtain ⟨a, ha, hstep⟩ := hnext
      have hs := stepped hstep
      -- Either the event was there before this step, or this step wrote it.
      by_cases hlt : i < σ₁.trace.length
      · have hi' := trace_earlier (Relation.ReflTransGen.single ⟨a, ha, hstep⟩) hi hlt
        obtain ⟨τ₁, b, τ₂, h₁, hb, h₂, h₃, h₄⟩ := ih hi'
        exact ⟨τ₁, b, τ₂, h₁, hb, h₂, h₃.tail ⟨a, ha, hstep⟩, h₄⟩
      · obtain ⟨hlt', -⟩ := List.getElem?_eq_some_iff.mp hi
        obtain heq | ⟨e', heq⟩ := trace_step hs
        · rw [heq] at hlt'
          exact absurd hlt' hlt
        · rw [heq, List.length_append, List.length_singleton] at hlt'
          obtain rfl : i = σ₁.trace.length := by omega
          rw [heq, List.getElem?_concat_length, Option.some.injEq] at hi
          subst hi
          exact ⟨σ₁, a, σ₂, hlater, ha, hstep, Relation.ReflTransGen.refl, rfl, heq⟩

/-! ### Who has a transaction open -/

theorem txnOf_eq_some {σ : Sys S} {m : S.Client} {t : OpenTxn S} :
    σ.txnOf m = some t ↔ σ.txn = some t ∧ t.owner = m := by
  simp [txnOf, Option.filter_eq_some_iff]

/-- Once a client has written, the transaction is its own. -/
theorem txnOf_unblocked {σ : Sys S} {m m' : S.Client} (hb : σ.blocked m = false) (hne : m' ≠ m) :
    σ.txnOf m' = none := by
  cases ht : σ.txnOf m' with
  | none => rfl
  | some t =>
      obtain ⟨htxn, rfl⟩ := txnOf_eq_some.mp ht
      simp [blocked, htxn, hne] at hb

theorem txnOf_of_txn {σ : Sys S} {t : OpenTxn S} (h : σ.txn = some t) (m : S.Client) :
    σ.txnOf m = if t.owner = m then some t else none := by
  by_cases ho : t.owner = m <;> simp [txnOf, h, ho]

theorem txnOf_of_released {σ σ' : Sys S} {m : S.Client} (h : σ'.txn = σ.released m)
    (m' : S.Client) : σ'.txnOf m' = if m' = m then none else σ.txnOf m' := by
  rw [txnOf, h]
  cases ht : σ.txn with
  | none => simp [txnOf, released, ht]
  | some t =>
      by_cases hm : m' = m
      · subst hm
        simp [released, ht]
      · by_cases ho : t.owner = m'
        · simp [txnOf, released, ht, ho, hm, Option.filter_some]
        · simp [txnOf, released, ht, ho, hm, Option.filter_some]

theorem view_of_none {σ : Sys S} {m : S.Client} (h : σ.txnOf m = none) : σ.view m = σ.committed := by
  simp [view, h]

theorem logOf_of_none {σ : Sys S} {m : S.Client} (h : σ.txnOf m = none) : σ.logOf m = [] := by
  simp [logOf, h]

/-- Only one client has a transaction open. -/
theorem txnOf_unique {σ : Sys S} {m m' : S.Client} {t : OpenTxn S} (h : σ.txnOf m = some t)
    (hne : m' ≠ m) : σ.txnOf m' = none := by
  cases ht : σ.txnOf m' with
  | none => rfl
  | some t' =>
      obtain ⟨htxn, rfl⟩ := txnOf_eq_some.mp h
      obtain ⟨htxn', rfl⟩ := txnOf_eq_some.mp ht
      rw [htxn] at htxn'
      simp only [Option.some.injEq] at htxn'
      exact absurd (by rw [htxn']) hne

/-! ### Replaying a log -/

/-- Carrying out writes one after the other, each touching as many rows as the log says. -/
def Replay {D : Database} : D.Tables → List (D.Write × Nat) → D.Tables → Prop
  | T, [], T' => T' = T
  | T, (w, n) :: ws, T' => ∃ U, D.apply w T = .ok (n, U) ∧ Replay U ws T'

theorem replay_append {D : Database} {T T' : D.Tables} {ws ws' : List (D.Write × Nat)} :
    Replay T (ws ++ ws') T' ↔ ∃ U, Replay T ws U ∧ Replay U ws' T' := by
  induction ws generalizing T with
  | nil =>
      constructor
      · intro h
        exact ⟨T, rfl, h⟩
      · rintro ⟨U, rfl, h⟩
        exact h
  | cons p ws ih =>
      obtain ⟨w, n⟩ := p
      constructor
      · rintro ⟨U, hw, h⟩
        obtain ⟨V, hV, hV'⟩ := ih.mp h
        exact ⟨V, ⟨U, hw, hV⟩, hV'⟩
      · rintro ⟨V, ⟨U, hw, hV⟩, hV'⟩
        exact ⟨U, hw, ih.mpr ⟨V, hV, hV'⟩⟩

/-- What every write keeps, a log of them keeps. -/
theorem replay_inv {D : Database} {Q : D.Write → Prop} {I : D.Tables → Prop}
    (hI : ∀ w T n T', Q w → I T → D.apply w T = .ok (n, T') → I T') {T T' : D.Tables}
    {ws : List (D.Write × Nat)} (hQ : ∀ p ∈ ws, Q p.1) (h : Replay T ws T') (hT : I T) : I T' := by
  induction ws generalizing T with
  | nil =>
      rw [h]
      exact hT
  | cons p ws ih =>
      obtain ⟨U, hw, h⟩ := h
      refine ih (fun p' hp' => hQ p' (List.mem_cons_of_mem p hp')) h ?_
      exact hI _ _ _ _ (hQ p (by simp)) hT hw

def Entry.effect (e : Entry S) : S.db.Write × Nat := (e.write, e.rows)

/-! ### The books -/

/-- The call an event belongs to. -/
def Event.call : Event S → Option Nat
  | .start _ _ => none
  | .ask id _ _ => some id
  | .commit id _ => some id
  | .ret id _ => some id

/-- The writes of one call in a log. -/
def ownWrites (id : Nat) (log : List (Entry S)) : List (S.db.Write × Nat) :=
  (log.filter (·.call = id)).map Entry.effect

/-- How a running call fits the trace and the log of its client. -/
structure CallBooks (τ : List (Event S)) (l : List (Entry S)) (m : S.Client) (r : Running S) :
    Prop where
  started : τ[r.id]? = some (.start m r.call)
  reads : ∀ rd ∈ r.reads, τ[rd.time]? = some (.ask r.id rd.query rd.result)
  asked : ∀ (i : Nat) q res, τ[i]? = some (.ask r.id q res) → ⟨i, q, res⟩ ∈ r.reads
  kept : ∀ ws, ws ∈ r.kept ↔ ∃ (i : Nat) (log : List (Entry S)),
    τ[i]? = some (.commit r.id log) ∧ ownWrites r.id log = ws
  own : ownWrites r.id l = r.pending
  unreturned : ∀ (i : Nat) a, τ[i]? ≠ some (.ret r.id a)

/-- How running calls, the open transaction and the trace fit together. -/
structure Books (σ : Sys S) : Prop where
  calls : ∀ m r, σ.running m = some r → CallBooks σ.trace (σ.logOf m) m r
  event_lt : ∀ (i : Nat) (e : Event S) (id : Nat), σ.trace[i]? = some e → e.call = some id → id < i
  entry_started : ∀ m, ∀ e ∈ σ.logOf m, ∃ c, σ.trace[e.call]? = some (.start m c)
  replay : ∀ m, Replay σ.committed ((σ.logOf m).map Entry.effect) (σ.view m)

theorem books_idle (T : S.db.Tables) : Books (Sys.idle (S := S) T) where
  calls m r h := by simp [idle] at h
  event_lt i e id h := by simp [idle] at h
  entry_started m e h := by simp [idle, logOf, txnOf] at h
  replay m := by simp [idle, logOf, view, txnOf, Replay]

theorem getElem?_concat {α : Type} {l : List α} {x e : α} {i : Nat} (h : (l ++ [x])[i]? = some e) :
    l[i]? = some e ∨ i = l.length ∧ x = e := by
  obtain ⟨hlt, -⟩ := List.getElem?_eq_some_iff.mp h
  rw [List.length_append, List.length_singleton] at hlt
  by_cases hi : i < l.length
  · rw [List.getElem?_append_left hi] at h
    exact Or.inl h
  · obtain rfl : i = l.length := by omega
    rw [List.getElem?_concat_length, Option.some.injEq] at h
    exact Or.inr ⟨rfl, h⟩

theorem getElem?_concat_of {α : Type} {l : List α} {x e : α} {i : Nat} (h : l[i]? = some e) :
    (l ++ [x])[i]? = some e := by
  obtain ⟨hlt, -⟩ := List.getElem?_eq_some_iff.mp h
  rw [List.getElem?_append_left hlt]
  exact h

omit [DecidableEq S.Client] in
/-- An event that is no commit of the call commits nothing of it. -/
theorem commit_concat {τ : List (Event S)} {x : Event S} {id : Nat}
    (hx : ∀ log, x ≠ .commit id log) (ws : List (S.db.Write × Nat)) :
    (∃ (i : Nat) (log : List (Entry S)),
      (τ ++ [x])[i]? = some (.commit id log) ∧ ownWrites id log = ws) ↔
    ∃ (i : Nat) (log : List (Entry S)), τ[i]? = some (.commit id log) ∧ ownWrites id log = ws := by
  constructor
  · rintro ⟨i, log, hi, hws⟩
    obtain hi | ⟨-, he⟩ := getElem?_concat hi
    · exact ⟨i, log, hi, hws⟩
    · exact absurd he (hx log)
  · rintro ⟨i, log, hi, hws⟩
    exact ⟨i, log, getElem?_concat_of hi, hws⟩

omit [DecidableEq S.Client] in
/-- An event of another call leaves a call's books as they are. -/
theorem CallBooks.event {τ : List (Event S)} {l : List (Entry S)} {m : S.Client} {r : Running S}
    (h : CallBooks τ l m r) {e : Event S} (he : e.call ≠ some r.id) :
    CallBooks (τ ++ [e]) l m r where
  started := getElem?_concat_of h.started
  reads rd hrd := getElem?_concat_of (h.reads rd hrd)
  asked i q res hi := by
    obtain hi | ⟨-, rfl⟩ := getElem?_concat hi
    · exact h.asked i q res hi
    · exact absurd rfl he
  kept ws := by
    rw [h.kept, commit_concat]
    rintro log rfl
    exact he rfl
  own := h.own
  unreturned i a hi := by
    obtain hi | ⟨-, rfl⟩ := getElem?_concat hi
    · exact h.unreturned i a hi
    · exact he rfl

theorem Books.entry_lt {σ : Sys S} (h : Books σ) (m : S.Client) :
    ∀ e ∈ σ.logOf m, e.call < σ.trace.length := by
  intro e he
  obtain ⟨c, hc⟩ := h.entry_started m e he
  exact (List.getElem?_eq_some_iff.mp hc).1

/-- The writes of a call stand in the log of its own client. -/
theorem Books.entry_owner {σ : Sys S} (h : Books σ) {m m' : S.Client} {r : Running S}
    (hm : σ.running m = some r) {e : Entry S} (he : e ∈ σ.logOf m') (hcall : e.call = r.id) :
    m' = m := by
  obtain ⟨c, hc⟩ := h.entry_started m' e he
  rw [hcall, (h.calls m r hm).started] at hc
  simp only [Option.some.injEq, Event.start.injEq] at hc
  exact hc.1.symm

omit [DecidableEq S.Client] in
/-- Every write a call has committed stands in a log of the trace. -/
theorem CallBooks.of_kept {τ : List (Event S)} {l : List (Entry S)} {m : S.Client} {r : Running S}
    (h : CallBooks τ l m r) {p : S.db.Write × Nat} (hp : p ∈ r.kept.flatten) :
    ∃ (i : Nat) (log : List (Entry S)), ∃ e ∈ log,
      τ[i]? = some (.commit r.id log) ∧ e.call = r.id ∧ e.effect = p := by
  obtain ⟨ws, hws, hp⟩ := List.mem_flatten.mp hp
  obtain ⟨i, log, hi, rfl⟩ := (h.kept ws).mp hws
  obtain ⟨e, he, heq⟩ := List.mem_map.mp hp
  rw [List.mem_filter, decide_eq_true_eq] at he
  exact ⟨i, log, e, he.1, hi, he.2, heq⟩

/-- Calls of different clients have different names. -/
theorem Books.id_ne {σ : Sys S} (h : Books σ) {m m' : S.Client} {r r' : Running S}
    (hm : σ.running m = some r) (hm' : σ.running m' = some r') (hne : m' ≠ m) : r.id ≠ r'.id := by
  intro hid
  have hs := (h.calls m r hm).started
  have hs' := (h.calls m' r' hm').started
  rw [← hid, hs] at hs'
  simp only [Option.some.injEq, Event.start.injEq] at hs'
  exact hne hs'.1.symm

omit [DecidableEq S.Client] in
theorem event_lt_concat {τ : List (Event S)} {x : Event S}
    (h : ∀ (i : Nat) (e : Event S) (id : Nat), τ[i]? = some e → e.call = some id → id < i)
    (hx : ∀ id, x.call = some id → id < τ.length) :
    ∀ (i : Nat) (e : Event S) (id : Nat), (τ ++ [x])[i]? = some e → e.call = some id → id < i := by
  intro i e id hi hid
  obtain hi | ⟨rfl, rfl⟩ := getElem?_concat hi
  · exact h i e id hi hid
  · exact hx id hid

/-- A step of client `m` after which its call is `x`, and which writes at most one event. -/
private theorem Books.move {σ σ' : Sys S} (h : Books σ) (m : S.Client) (x : Option (Running S))
    (hrun : σ'.running = Function.update σ.running m x)
    (hlog : ∀ m', m' ≠ m → σ'.logOf m' = σ.logOf m')
    (htrace : σ'.trace = σ.trace ∨ ∃ e, σ'.trace = σ.trace ++ [e] ∧
      (e.call = none ∨ ∃ r, σ.running m = some r ∧ e.call = some r.id))
    (hnew : ∀ r, x = some r → CallBooks σ'.trace (σ'.logOf m) m r)
    (hentry : ∀ e ∈ σ'.logOf m, ∃ c, σ.trace[e.call]? = some (.start m c))
    (hreplay : ∀ m', Replay σ'.committed ((σ'.logOf m').map Entry.effect) (σ'.view m')) :
    Books σ' := by
  have hid : ∀ r, σ.running m = some r → r.id < σ.trace.length := by
    intro r hr
    exact (List.getElem?_eq_some_iff.mp (h.calls m r hr).started).1
  refine ⟨?_, ?_, ?_, hreplay⟩
  · intro m' r' hr'
    by_cases hm : m' = m
    · rw [hm] at hr' ⊢
      rw [hrun, Function.update_self] at hr'
      exact hnew r' hr'
    · rw [hrun, Function.update_of_ne hm] at hr'
      rw [hlog m' hm]
      have hold := h.calls m' r' hr'
      obtain heq | ⟨e, heq, hcall⟩ := htrace
      · rw [heq]
        exact hold
      · rw [heq]
        refine hold.event ?_
        obtain hnone | ⟨r, hr, hcall⟩ := hcall
        · simp [hnone]
        · rw [hcall]
          intro hc
          exact h.id_ne hr hr' hm (Option.some.inj hc)
  · obtain heq | ⟨e, heq, hcall⟩ := htrace
    · rw [heq]
      exact h.event_lt
    · rw [heq]
      refine event_lt_concat h.event_lt ?_
      intro id he
      obtain hnone | ⟨r, hr, hcall⟩ := hcall
      · rw [hnone] at he
        cases he
      · rw [hcall] at he
        rw [← Option.some.inj he]
        exact hid r hr
  · have hold : ∀ {i : Nat} {x : Event S}, σ.trace[i]? = some x → σ'.trace[i]? = some x := by
      intro i x hi
      obtain heq | ⟨e, heq, -⟩ := htrace <;> rw [heq]
      · exact hi
      · exact getElem?_concat_of hi
    intro m' e he
    by_cases hm : m' = m
    · subst hm
      obtain ⟨c, hc⟩ := hentry e he
      exact ⟨c, hold hc⟩
    · rw [hlog m' hm] at he
      obtain ⟨c, hc⟩ := h.entry_started m' e he
      exact ⟨c, hold hc⟩

/-- A step after which client `m` holds the write lock with the log `l`. -/
private theorem Books.lock {σ σ' : Sys S} (h : Books σ) (m : S.Client) (x : Option (Running S))
    {T : S.db.Tables} {l : List (Entry S)} (hrun : σ'.running = Function.update σ.running m x)
    (htxn : σ'.txn = some ⟨m, T, l⟩) (hcommitted : σ'.committed = σ.committed)
    (htrace : σ'.trace = σ.trace) (hb : σ.blocked m = false)
    (hnew : ∀ r, x = some r → CallBooks σ.trace l m r)
    (hentry : ∀ e ∈ l, ∃ c, σ.trace[e.call]? = some (.start m c))
    (hreplay : Replay σ.committed (l.map Entry.effect) T) : Books σ' := by
  have hlogm : σ'.logOf m = l := by simp [logOf, txnOf_of_txn htxn]
  have hnone : ∀ m', m' ≠ m → σ'.txnOf m' = none := by
    intro m' hne
    rw [txnOf_of_txn htxn, if_neg (Ne.symm hne)]
  refine h.move m x hrun ?_ (Or.inl htrace) ?_ ?_ ?_
  · intro m' hne
    rw [logOf_of_none (hnone m' hne), logOf_of_none (txnOf_unblocked hb hne)]
  · rw [hlogm, htrace]
    exact hnew
  · rw [hlogm]
    exact hentry
  · intro m'
    rw [hcommitted]
    by_cases hm : m' = m
    · subst hm
      have hview : σ'.view m' = T := by simp [view, txnOf_of_txn htxn]
      rw [hlogm, hview]
      exact hreplay
    · rw [logOf_of_none (hnone m' hm), view_of_none (hnone m' hm), hcommitted]
      rfl

/-- A step that ends the transaction of client `m`. -/
private theorem Books.release {σ σ' : Sys S} (h : Books σ) (m : S.Client) (x : Option (Running S))
    (hrun : σ'.running = Function.update σ.running m x) (htxn : σ'.txn = σ.released m)
    (hcommitted : σ'.committed = σ.view m ∨ σ'.committed = σ.committed)
    (htrace : σ'.trace = σ.trace ∨ ∃ e, σ'.trace = σ.trace ++ [e] ∧
      (e.call = none ∨ ∃ r, σ.running m = some r ∧ e.call = some r.id))
    (hnew : ∀ r, x = some r → CallBooks σ'.trace [] m r) : Books σ' := by
  have hother : ∀ m', m' ≠ m → σ'.txnOf m' = σ.txnOf m' := by
    intro m' hne
    rw [txnOf_of_released htxn, if_neg hne]
  have hnone : σ'.txnOf m = none := by rw [txnOf_of_released htxn, if_pos rfl]
  refine h.move m x hrun ?_ htrace ?_ ?_ ?_
  · intro m' hne
    rw [logOf, logOf, hother m' hne]
  · rw [logOf_of_none hnone]
    exact hnew
  · rw [logOf_of_none hnone]
    simp
  · intro m'
    cases ht : σ'.txnOf m' with
    | none =>
        rw [logOf_of_none ht, view_of_none ht]
        rfl
    | some t =>
        have hne : m' ≠ m := by
          rintro rfl
          rw [hnone] at ht
          cases ht
        -- Someone else's transaction is open, so `m` committed nothing.
        have ht' : σ.txnOf m' = some t := by rw [← hother m' hne, ht]
        have hsame : σ'.committed = σ.committed := by
          obtain hc | hc := hcommitted
          · rw [hc, view_of_none (txnOf_unique ht' hne.symm)]
          · exact hc
        have hreplay := h.replay m'
        rw [logOf, view, ht'] at hreplay
        rw [logOf, view, ht, hsame]
        exact hreplay

omit [DecidableEq S.Client] in
private theorem filter_lt {l : List (Entry S)} {n : Nat} (h : ∀ e ∈ l, e.call < n) :
    l.filter (·.call = n) = [] := by
  rw [List.filter_eq_nil_iff]
  intro e he
  have := h e he
  simp
  omega

/-- **Every step keeps the books.** -/
theorem books_step {σ σ' : Sys S} {a : Action S} (h : Books σ) (hs : Stepped σ a σ') : Books σ' := by
  cases hs with
  | @start m c hm =>
      refine h.move m _ rfl (fun _ _ => rfl) (Or.inr ⟨_, rfl, Or.inl rfl⟩) ?_
        (h.entry_started m) h.replay
      rintro r ⟨rfl⟩
      -- No event yet can name a call that starts only now.
      have hnew : ∀ (i : Nat) (e : Event S), e.call = some σ.trace.length → e ≠ .start m c →
          (σ.trace ++ [Event.start m c])[i]? ≠ some e := by
        intro i e hcall hne hi
        obtain hi | ⟨-, he⟩ := getElem?_concat hi
        · have hlt : i < σ.trace.length := (List.getElem?_eq_some_iff.mp hi).1
          have hgt : σ.trace.length < i := h.event_lt i _ _ hi hcall
          omega
        · exact hne he.symm
      refine ⟨List.getElem?_concat_length .., by simp, ?_, ?_, ?_, ?_⟩
      · intro i q res hi
        exact absurd hi (hnew i _ rfl nofun)
      · intro ws
        constructor
        · rintro ⟨⟩
        · rintro ⟨i, log, hi, -⟩
          exact absurd hi (hnew i _ rfl nofun)
      · have hnil := filter_lt (h.entry_lt m)
        simp only [logOf, txnOf] at hnil
        simp [ownWrites, logOf, txnOf, setRunning, Sys.log, hnil]
      · intro i a
        exact hnew i _ rfl nofun
  | @ret m r a hm hp =>
      refine h.move m _ rfl (fun _ _ => rfl) (Or.inr ⟨_, rfl, Or.inr ⟨r, hm, rfl⟩⟩) ?_
        (h.entry_started m) h.replay
      rintro r' ⟨⟩
  | @ask m r q k hm hp =>
      refine h.move m _ rfl (fun _ _ => rfl) (Or.inr ⟨_, rfl, Or.inr ⟨r, hm, rfl⟩⟩) ?_
        (h.entry_started m) h.replay
      rintro r' ⟨rfl⟩
      have hold := h.calls m r hm
      refine ⟨getElem?_concat_of hold.started, ?_, ?_, ?_, hold.own, ?_⟩
      · intro rd hrd
        rw [List.mem_append, List.mem_singleton] at hrd
        obtain hrd | rfl := hrd
        · exact getElem?_concat_of (hold.reads rd hrd)
        · exact List.getElem?_concat_length ..
      · intro i q' res hi
        rw [List.mem_append, List.mem_singleton]
        obtain hi | ⟨rfl, he⟩ := getElem?_concat hi
        · exact Or.inl (hold.asked i q' res hi)
        · simp only [Event.ask.injEq, true_and] at he
          obtain ⟨rfl, hres⟩ := he
          rw [eq_of_heq hres]
          exact Or.inr rfl
      · intro ws
        rw [hold.kept]
        refine (commit_concat ?_ ws).symm
        exact nofun
      · intro i a hi
        obtain hi | ⟨-, he⟩ := getElem?_concat hi
        · exact hold.unreturned i a hi
        · cases he
  | @wrote m r w k n T hm hp hb hw =>
      have hold := h.calls m r hm
      refine h.lock m _ rfl rfl rfl rfl hb ?_ ?_ ?_
      · rintro r' ⟨rfl⟩
        refine ⟨hold.started, hold.reads, hold.asked, hold.kept, ?_, hold.unreturned⟩
        rw [ownWrites, List.filter_append, List.map_append, ← ownWrites, hold.own]
        simp [Entry.effect]
      · intro e he
        rw [List.mem_append, List.mem_singleton] at he
        obtain he | rfl := he
        · exact h.entry_started m e he
        · exact ⟨_, hold.started⟩
      · rw [List.map_append, replay_append]
        exact ⟨σ.view m, h.replay m, T, hw, rfl⟩
  | @refused m r w k e hm hp hb hw =>
      have hold := h.calls m r hm
      refine h.lock m _ rfl rfl rfl rfl hb ?_ (h.entry_started m) (h.replay m)
      rintro r' ⟨rfl⟩
      exact ⟨hold.started, hold.reads, hold.asked, hold.kept, hold.own, hold.unreturned⟩
  | @commit m r k hm hp =>
      have hold := h.calls m r hm
      refine h.release m _ rfl rfl (Or.inl rfl) (Or.inr ⟨_, rfl, Or.inr ⟨r, hm, rfl⟩⟩) ?_
      rintro r' ⟨rfl⟩
      refine ⟨getElem?_concat_of hold.started, ?_, ?_, ?_, rfl, ?_⟩
      · intro rd hrd
        exact getElem?_concat_of (hold.reads rd hrd)
      · intro i q res hi
        obtain hi | ⟨-, he⟩ := getElem?_concat hi
        · exact hold.asked i q res hi
        · cases he
      · intro ws
        rw [List.mem_append, List.mem_singleton, hold.kept]
        constructor
        · rintro (⟨i, log, hi, hws⟩ | rfl)
          · exact ⟨i, log, getElem?_concat_of hi, hws⟩
          · exact ⟨_, _, List.getElem?_concat_length .., hold.own⟩
        · rintro ⟨i, log, hi, rfl⟩
          obtain hi | ⟨-, he⟩ := getElem?_concat hi
          · exact Or.inl ⟨i, log, hi, rfl⟩
          · simp only [Event.commit.injEq, true_and] at he
            rw [← he]
            exact Or.inr hold.own
      · intro i a hi
        obtain hi | ⟨-, he⟩ := getElem?_concat hi
        · exact hold.unreturned i a hi
        · cases he
  | @rollback m r k hm hp =>
      have hold := h.calls m r hm
      refine h.release m _ rfl rfl (Or.inr rfl) (Or.inl rfl) ?_
      rintro r' ⟨rfl⟩
      exact ⟨hold.started, hold.reads, hold.asked, hold.kept, rfl, hold.unreturned⟩
  | @fault m r e p hm hp =>
      refine h.move m _ rfl (fun _ _ => rfl) (Or.inl rfl) ?_ (h.entry_started m) h.replay
      rintro r' ⟨rfl⟩
      have hold := h.calls m r hm
      exact ⟨hold.started, hold.reads, hold.asked, hold.kept, hold.own, hold.unreturned⟩

theorem books {T : S.db.Tables} {σ : Sys S} (h : Later allow (Sys.idle T) σ) : Books σ := by
  induction h with
  | refl => exact books_idle T
  | tail _ hnext ih =>
      obtain ⟨a, -, hstep⟩ := hnext
      exact books_step ih (stepped hstep)

end Transactions

/-
The committed writes of a run, in order.

The tables are always what the committed writes have made of the first ones, and a client
with a transaction open sees what its own writes have made of those on top.  `ledger` is
the rule for invariants that relate tables to the writes behind them: it is enough to look
at a write where it is made, and at a commit where it changes what the trace says.
-/
import CyClaw.Lib.CallPaths

namespace Transactions

open Sys

variable {S : Service} [DecidableEq S.Client] {allow : Sys S → Action S → Prop}
  {T₀ : S.db.Tables} {σ σ' : Sys S}

/-- What an event made permanent. -/
def Event.writes : Event S → List (Entry S)
  | .commit _ log => log
  | _ => []

/-- Every write that has been committed, in the order of their commits. -/
def Sys.history (σ : Sys S) : List (Entry S) := σ.trace.flatMap Event.writes

omit [DecidableEq S.Client] in
theorem history_of_trace {e : Event S} (h : σ'.trace = σ.trace ++ [e]) :
    σ'.history = σ.history ++ e.writes := by
  simp [history, h]

omit [DecidableEq S.Client] in
theorem mem_history {e : Entry S} :
    e ∈ σ.history ↔ ∃ (i id : Nat) (log : List (Entry S)),
      σ.trace[i]? = some (.commit id log) ∧ e ∈ log := by
  rw [history, List.mem_flatMap]
  constructor
  · rintro ⟨x, hx, he⟩
    obtain ⟨i, hi⟩ := List.mem_iff_getElem?.mp hx
    cases x with
    | commit id log => exact ⟨i, id, log, hi, he⟩
    | start m c => cases he
    | ask id q r => cases he
    | ret id a => cases he
  · rintro ⟨i, id, log, hi, he⟩
    exact ⟨_, List.mem_iff_getElem?.mpr ⟨i, hi⟩, he⟩

/-- A running call has made permanent what it has committed itself, and nothing else. -/
theorem kept_of_history (h : Later allow (Sys.idle T₀) σ) {m : S.Client} {r : Running S}
    (hm : σ.running m = some r) {e : Entry S} (he : e ∈ σ.history) (hcall : e.call = r.id) :
    e.effect ∈ r.kept.flatten := by
  obtain ⟨i, id, log, hi, he⟩ := mem_history.mp he
  obtain ⟨σ₁, σ₂, m₁, r₁, h₁, h₂, hlen, rfl, rfl, hcommit⟩ := occurred_commit h hi
  have hlater := hcommit.later.trans h₂
  -- The client of the commit is that of the entry, so the commit is the call's own.
  obtain ⟨c, hc⟩ := (books h₁).entry_started m₁ e he
  have hstart := ((books h).calls m r hm).started
  rw [← hcall, trace_later hlater hc] at hstart
  simp only [Option.some.injEq, Event.start.injEq] at hstart
  obtain ⟨r₀, hm₀, hr₀⟩ := running_since hlater hm (hcall ▸ (books h₁).entry_lt m₁ e he)
  rw [← hstart.1, hcommit.running, Option.some.injEq] at hm₀
  rw [hm₀, hr₀] at hi
  rw [List.mem_flatten]
  refine ⟨_, (((books h).calls m r hm).kept _).mpr ⟨i, _, hi, rfl⟩, ?_⟩
  exact List.mem_map_of_mem (List.mem_filter.mpr ⟨he, decide_eq_true hcall⟩)

/-! ### Invariants of tables and the writes behind them -/

section Ledger

variable {I : List (Event S) → S.db.Tables → List (Entry S) → Prop}

/-- The invariant holds of the last commit and of what each client sees. -/
def Balanced (I : List (Event S) → S.db.Tables → List (Entry S) → Prop) (σ : Sys S) : Prop :=
  I σ.trace σ.committed σ.history ∧ ∀ m, I σ.trace (σ.view m) (σ.history ++ σ.logOf m)

/-- A step that only writes an event which is no commit. -/
private theorem Balanced.event (h : Balanced I σ) {e : Event S} (he : e.writes = [])
    (hevent : ∀ τ x T l, x.writes = [] → I τ T l → I (τ ++ [x]) T l)
    (htrace : σ'.trace = σ.trace ++ [e]) (hcommitted : σ'.committed = σ.committed)
    (htxn : σ'.txn = σ.txn) : Balanced I σ' := by
  have hhistory : σ'.history = σ.history := by rw [history_of_trace htrace, he, List.append_nil]
  refine ⟨?_, ?_⟩
  · rw [htrace, hcommitted, hhistory]
    exact hevent _ _ _ _ he h.1
  · intro m
    rw [htrace, hhistory, view, logOf, txnOf, htxn, hcommitted]
    exact hevent _ _ _ _ he (h.2 m)

/-- A step after which client `m` holds the write lock. -/
private theorem Balanced.lock (h : Balanced I σ) {m : S.Client} {T : S.db.Tables}
    {l : List (Entry S)} (htxn : σ'.txn = some ⟨m, T, l⟩) (htrace : σ'.trace = σ.trace)
    (hcommitted : σ'.committed = σ.committed) (hnew : I σ.trace T (σ.history ++ l)) :
    Balanced I σ' := by
  have hhistory : σ'.history = σ.history := by rw [history, htrace, history]
  refine ⟨?_, ?_⟩
  · rw [htrace, hcommitted, hhistory]
    exact h.1
  · intro m'
    rw [htrace, hhistory, view, logOf, txnOf_of_txn htxn]
    by_cases hne : m = m'
    · rw [if_pos hne]
      exact hnew
    · rw [if_neg hne, hcommitted]
      simpa using h.1

/-- A step that commits the transaction of client `m`. -/
private theorem Balanced.commit (h : Balanced I σ) {m : S.Client} {id : Nat}
    (hevent : ∀ τ x T l, x.writes = [] → I τ T l → I (τ ++ [x]) T l)
    (htxn : σ'.txn = σ.released m) (htrace : σ'.trace = σ.trace ++ [.commit id (σ.logOf m)])
    (hcommitted : σ'.committed = σ.view m)
    (hnew : I σ'.trace (σ.view m) (σ.history ++ σ.logOf m)) : Balanced I σ' := by
  have hhistory : σ'.history = σ.history ++ σ.logOf m := history_of_trace htrace
  refine ⟨by rw [hcommitted, hhistory]; exact hnew, ?_⟩
  intro m'
  rw [hhistory]
  cases ht : σ'.txnOf m' with
  | none =>
      rw [logOf_of_none ht, view_of_none ht, hcommitted, List.append_nil]
      exact hnew
  | some t =>
      have hne : m' ≠ m := by
        rintro rfl
        rw [txnOf_of_released htxn, if_pos rfl] at ht
        cases ht
      -- Another client holds the lock, so this one has written nothing.
      have ht' : σ.txnOf m' = some t := by rw [← ht, txnOf_of_released htxn, if_neg hne]
      have hnil := logOf_of_none (txnOf_unique ht' (Ne.symm hne))
      have hview := h.2 m'
      rw [view, logOf, ht'] at hview
      rw [htrace, hnil, List.append_nil, view, logOf, ht]
      exact hevent _ _ _ _ rfl hview

/-- A step that drops the transaction of client `m`. -/
private theorem Balanced.rollback (h : Balanced I σ) {m : S.Client} (htxn : σ'.txn = σ.released m)
    (htrace : σ'.trace = σ.trace) (hcommitted : σ'.committed = σ.committed) : Balanced I σ' := by
  have hhistory : σ'.history = σ.history := by rw [history, htrace, history]
  refine ⟨by rw [htrace, hcommitted, hhistory]; exact h.1, ?_⟩
  intro m'
  rw [htrace, hhistory, view, logOf, txnOf_of_released htxn, hcommitted]
  by_cases hne : m' = m
  · rw [if_pos hne]
    simpa using h.1
  · rw [if_neg hne]
    exact h.2 m'

/-- **Tables and the writes behind them.**  An invariant that every write keeps where it is
made, and every commit, holds of the last commit and of what each client sees. -/
theorem ledger (hidle : I [] T₀ [])
    (hevent : ∀ τ x T l, x.writes = [] → I τ T l → I (τ ++ [x]) T l)
    (hwrite : ∀ (σ : Sys S) m r w k n T, Later allow (Sys.idle T₀) σ → allow σ (.next m) →
      σ.running m = some r → r.prog = .write w k → S.db.apply w (σ.view m) = .ok (n, T) →
      I σ.trace (σ.view m) (σ.history ++ σ.logOf m) →
      I σ.trace T (σ.history ++ σ.logOf m ++ [⟨r.id, w, n⟩]))
    (hcommit : ∀ (σ : Sys S) m r k, Later allow (Sys.idle T₀) σ → σ.running m = some r →
      r.prog = .commit k → I σ.trace (σ.view m) (σ.history ++ σ.logOf m) →
      I (σ.trace ++ [.commit r.id (σ.logOf m)]) (σ.view m) (σ.history ++ σ.logOf m))
    (h : Later allow (Sys.idle T₀) σ) : Balanced I σ := by
  induction h with
  | refl =>
      refine ⟨hidle, ?_⟩
      intro m
      simpa [idle, history, logOf, view, txnOf] using hidle
  | @tail σ₁ σ₂ hlater hnext ih =>
      obtain ⟨a, ha, hstep⟩ := hnext
      cases stepped hstep with
      | start hm => exact ih.event rfl hevent rfl rfl rfl
      | ret hm hp => exact ih.event rfl hevent rfl rfl rfl
      | ask hm hp => exact ih.event rfl hevent rfl rfl rfl
      | @wrote m r w k n T hm hp hb hw =>
          refine ih.lock rfl rfl rfl ?_
          rw [← List.append_assoc]
          exact hwrite σ₁ m r w k n T hlater ha hm hp hw (ih.2 m)
      | @refused m r w k e hm hp hb hw => exact ih.lock rfl rfl rfl (ih.2 m)
      | @commit m r k hm hp =>
          exact ih.commit hevent rfl rfl rfl (hcommit σ₁ m r k hlater hm hp (ih.2 m))
      | rollback hm hp => exact ih.rollback rfl rfl rfl
      | fault hm hp => exact ih

end Ledger

end Transactions

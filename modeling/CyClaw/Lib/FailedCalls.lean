/-
What a call leaves when one of its statements raises.

A call that has nothing left but to return is out of the way, but its writes may not be:
they stay in the open transaction of its client, and the next commit of that client makes
them permanent, whoever asks for it (`commits_left`).  They do not when the call rolls back
before it returns, or when none of them touched a row (`spent_later`).
-/
import CyClaw.Lib.CallPaths

namespace Transactions

open Sys

variable {S : Service} [DecidableEq S.Client] {allow : Sys S → Action S → Prop} {σ σ' : Sys S}

/-- Nothing is left but to return, after a rollback at most. -/
def Ending {D : Database} {α : Type} (p : Prog D α) : Prop :=
  (∃ a, p = .ret a) ∨ ∃ a, p = .rollback (.ret a)

/-- The call has nothing left to do, and its writes touched no row unless it is about to roll
them back. -/
structure Spent (id : Nat) (σ : Sys S) : Prop where
  started : id < σ.trace.length
  ending : ∀ m r, σ.running m = some r → r.id = id → Ending r.prog
  log : ∀ m, (∃ r a, σ.running m = some r ∧ r.prog = .rollback (.ret a)) ∨
    ∀ e ∈ σ.logOf m, e.call = id → e.rows = 0

omit [DecidableEq S.Client] in
private theorem ending_onFault {p p' : Prog S.db S.Value} {e : S.db.Err} (h : Ending p)
    (hp : onFault e p = some p') : False := by
  obtain ⟨a, rfl⟩ | ⟨a, rfl⟩ := h <;> cases hp

theorem spent_moved {id : Nat} {a : Action S} (h : Spent id σ) {m : S.Client} {r : Running S}
    (hmoved : Moved σ m a r) (hid : r.id = id) : Ending r.prog := by
  cases hmoved with
  | start =>
      have hlt := h.started
      simp only at hid
      omega
  | ask hm hp =>
      have hend := h.ending m _ hm hid
      rw [hp] at hend
      obtain ⟨a, ha⟩ | ⟨a, ha⟩ := hend <;> cases ha
  | wrote hm hp hw =>
      have hend := h.ending m _ hm hid
      rw [hp] at hend
      obtain ⟨a, ha⟩ | ⟨a, ha⟩ := hend <;> cases ha
  | refused hm hp hw =>
      have hend := h.ending m _ hm hid
      rw [hp] at hend
      obtain ⟨a, ha⟩ | ⟨a, ha⟩ := hend <;> cases ha
  | commit hm hp =>
      have hend := h.ending m _ hm hid
      rw [hp] at hend
      obtain ⟨a, ha⟩ | ⟨a, ha⟩ := hend <;> cases ha
  | rollback hm hp =>
      have hend := h.ending m _ hm hid
      rw [hp] at hend
      obtain ⟨a, ha⟩ | ⟨a, ha⟩ := hend
      · cases ha
      · cases ha
        exact Or.inl ⟨a, rfl⟩
  | fault hm hp => exact (ending_onFault (h.ending m _ hm hid) hp).elim

/-- The log of a client whose next statement is no rollback. -/
theorem Spent.log_of {id : Nat} (h : Spent id σ) {m : S.Client} {r : Running S}
    (hm : σ.running m = some r) (hp : ∀ k, r.prog ≠ .rollback k) :
    ∀ e ∈ σ.logOf m, e.call = id → e.rows = 0 := by
  obtain ⟨r', a, hm', hp'⟩ | hlog := h.log m
  · rw [hm, Option.some.injEq] at hm'
    rw [← hm'] at hp'
    exact absurd hp' (hp _)
  · exact hlog

theorem spent_step {id : Nat} {a : Action S} (h : Spent id σ) (hs : Stepped σ a σ') : Spent id σ' := by
  have hstarted : id < σ'.trace.length := by
    have hlt := h.started
    obtain heq | ⟨e, heq⟩ := trace_step hs <;> rw [heq]
    · exact hlt
    · rw [List.length_append]
      omega
  have hending : ∀ m r, σ'.running m = some r → r.id = id → Ending r.prog := by
    intro m r hm hid
    obtain hm | hmoved := moved hs hm
    · exact h.ending m r hm hid
    · exact spent_moved h hmoved hid
  refine ⟨hstarted, hending, ?_⟩
  -- A client that did not take the step is as it was.
  have other : ∀ {m₁ m : S.Client} {x : Option (Running S)},
      σ'.running = Function.update σ.running m₁ x → m ≠ m₁ → σ'.logOf m = σ.logOf m →
      (∃ r a, σ'.running m = some r ∧ r.prog = .rollback (.ret a)) ∨
        ∀ e ∈ σ'.logOf m, e.call = id → e.rows = 0 := by
    intro m₁ m x hrun hne hlog
    rw [hrun, Function.update_of_ne hne, hlog]
    exact h.log m
  intro m
  cases hs with
  | @start m₁ c hm =>
      by_cases hne : m = m₁
      · refine Or.inr ?_
        obtain ⟨r, a, hm', -⟩ | hlog := h.log m
        · rw [hne, hm] at hm'
          cases hm'
        · exact hlog
      · exact other rfl hne rfl
  | @ret m₁ r a hm hp =>
      by_cases hne : m = m₁
      · rw [hne]
        exact Or.inr (h.log_of hm (fun k hk => by rw [hp] at hk; cases hk))
      · exact other rfl hne rfl
  | @ask m₁ r q k hm hp =>
      by_cases hne : m = m₁
      · rw [hne]
        exact Or.inr (h.log_of hm (fun k hk => by rw [hp] at hk; cases hk))
      · exact other rfl hne rfl
  | @fault m₁ r e p hm hp =>
      by_cases hne : m = m₁
      · rw [hne]
        refine Or.inr (h.log_of hm ?_)
        intro k hk
        rw [hk] at hp
        cases hp
      · exact other rfl hne rfl
  | @wrote m₁ r w k n T hm hp hb hw =>
      refine Or.inr ?_
      intro e he hcall
      rw [logOf, txnOf_of_txn rfl] at he
      split at he
      · rw [Option.map_some, Option.getD_some, List.mem_append, List.mem_singleton] at he
        obtain he | rfl := he
        · exact h.log_of hm (fun k hk => by rw [hp] at hk; cases hk) e he hcall
        · have hend := h.ending m₁ r hm hcall
          rw [hp] at hend
          obtain ⟨a, ha⟩ | ⟨a, ha⟩ := hend <;> cases ha
      · cases he
  | @refused m₁ r w k e hm hp hb hw =>
      refine Or.inr ?_
      intro e he hcall
      rw [logOf, txnOf_of_txn rfl] at he
      split at he
      · exact h.log_of hm (fun k hk => by rw [hp] at hk; cases hk) e he hcall
      · cases he
  | @commit m₁ r k hm hp =>
      by_cases hne : m = m₁
      · refine Or.inr ?_
        rw [logOf, txnOf_of_released rfl, if_pos hne]
        rintro e ⟨⟩
      · refine other rfl hne ?_
        rw [logOf, txnOf_of_released rfl, if_neg hne]
        rfl
  | @rollback m₁ r k hm hp =>
      by_cases hne : m = m₁
      · refine Or.inr ?_
        rw [logOf, txnOf_of_released rfl, if_pos hne]
        rintro e ⟨⟩
      · refine other rfl hne ?_
        rw [logOf, txnOf_of_released rfl, if_neg hne]
        rfl

/-- **No later commit makes a write of a spent call permanent that touched a row.** -/
theorem spent_later {id : Nat} (h : Spent id σ) (h' : Later allow σ σ') {i j : Nat}
    {log : List (Entry S)} (hlo : σ.trace.length ≤ i) (hi : σ'.trace[i]? = some (.commit j log)) :
    ∀ e ∈ log, e.call = id → e.rows = 0 := by
  obtain ⟨σ₁, a, σ₂, h₁, -, hstep, -, -, htr⟩ := occurred h' hlo hi
  have hspent : Spent id σ₁ := by
    clear hstep htr
    induction h₁ with
    | refl => exact h
    | tail _ hnext ih =>
        obtain ⟨b, -, hstep⟩ := hnext
        exact spent_step ih (stepped hstep)
  cases stepped hstep with
  | @commit m r k hm hp =>
      have heq := concat_inj htr
      simp only [Event.commit.injEq] at heq
      rw [← heq.2]
      exact hspent.log_of hm (by rw [hp]; exact nofun)
  | start hm | ret hm hp | ask hm hp => simp [Sys.log, setRunning] at htr
  | wrote hm hp hb hw | refused hm hp hb hw | rollback hm hp | fault hm hp =>
      simp [setRunning] at htr

/-! ### Steps that nothing can stop -/

theorem can_start {m : S.Client} (hm : σ.running m = none) (c : S.Call) :
    ∃ σ', step (.start m c) σ = some σ' ∧ σ'.logOf m = σ.logOf m ∧
      σ'.trace.length = σ.trace.length + 1 ∧
      σ'.running m = some ⟨σ.trace.length, c, S.body c, [], [], []⟩ := by
  refine ⟨_, by simp only [step, hm]; rfl, ?_, ?_, ?_⟩
  · rfl
  · simp [Sys.log, setRunning]
  · exact Function.update_self ..

theorem can_ret {m : S.Client} {r : Running S} {a : S.Value} (hm : σ.running m = some r)
    (hp : r.prog = .ret a) :
    ∃ σ', step (.next m) σ = some σ' ∧ σ'.logOf m = σ.logOf m ∧
      σ'.trace.length = σ.trace.length + 1 ∧ σ'.running m = none := by
  refine ⟨_, by simp only [step, hm, Option.bind_some, advance, hp]; rfl, ?_, ?_, ?_⟩
  · rfl
  · simp [Sys.log, setRunning]
  · exact Function.update_self ..

theorem can_ask {m : S.Client} {r : Running S} {q : S.db.Query}
    {k : Except S.db.Err (S.db.Res q) → Prog S.db S.Value} (hm : σ.running m = some r)
    (hp : r.prog = .ask q k) :
    ∃ σ' r', step (.next m) σ = some σ' ∧ σ'.logOf m = σ.logOf m ∧
      σ'.trace.length = σ.trace.length + 1 ∧ σ'.running m = some r' ∧
      r'.prog = k (.ok (S.db.ask q (σ.view m))) := by
  refine ⟨_, { r with
    prog := k (.ok (S.db.ask q (σ.view m)))
    reads := r.reads ++ [⟨σ.trace.length, q, S.db.ask q (σ.view m)⟩] },
    by simp only [step, hm, Option.bind_some, advance, hp]; rfl, ?_, ?_, ?_, rfl⟩
  · rfl
  · simp [Sys.log, setRunning]
  · exact Function.update_self ..

theorem can_commit {m : S.Client} {r : Running S} {k : Except S.db.Err Unit → Prog S.db S.Value}
    (hm : σ.running m = some r) (hp : r.prog = .commit k) :
    ∃ σ', step (.next m) σ = some σ' ∧ σ'.trace = σ.trace ++ [.commit r.id (σ.logOf m)] := by
  refine ⟨_, by simp only [step, hm, Option.bind_some, advance, hp]; rfl, ?_⟩
  rfl

/-- **The next commit of a client takes along what a call left that has only to return.**
Any call of it will do that asks once and commits. -/
theorem commits_left {m : S.Client} {r : Running S} {a : S.Value} (hm : σ.running m = some r)
    (hp : r.prog = .ret a) {c : S.Call} {q : S.db.Query}
    {k : Except S.db.Err (S.db.Res q) → Prog S.db S.Value} (hc : S.body c = .ask q k)
    (hk : ∀ res, ∃ k', k (.ok res) = .commit k') :
    ∃ (σ' : Sys S) (i j : Nat), Later (fun _ _ => True) σ σ' ∧ σ.trace.length ≤ i ∧
      σ'.trace[i]? = some (.commit j (σ.logOf m)) := by
  obtain ⟨σ₁, h₁, hlog₁, hlen₁, hm₁⟩ := can_ret hm hp
  obtain ⟨σ₂, h₂, hlog₂, hlen₂, hm₂⟩ := can_start hm₁ c
  obtain ⟨σ₃, r₃, h₃, hlog₃, hlen₃, hm₃, hp₃⟩ := can_ask hm₂ hc
  obtain ⟨k', hk'⟩ := hk (S.db.ask q (σ₂.view m))
  obtain ⟨σ₄, h₄, htr₄⟩ := can_commit hm₃ (hp₃.trans hk')
  refine ⟨σ₄, σ₃.trace.length, r₃.id, ?_, by omega, ?_⟩
  · exact (((Relation.ReflTransGen.single ⟨_, trivial, h₁⟩).tail ⟨_, trivial, h₂⟩).tail
      ⟨_, trivial, h₃⟩).tail ⟨_, trivial, h₄⟩
  · rw [htr₄, List.getElem?_concat_length, hlog₃, hlog₂, hlog₁]

end Transactions

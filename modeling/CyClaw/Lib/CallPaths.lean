/-
What is known of a call at each point of its way.

`Always` says that an assertion holds at every point a call can come to, whatever its
statements return; it is checked on the text of the call, once.  `obeys` then gives the
assertion for every running call of every run in which no statement raises except where
`raises` says so.

The rest connects such assertions with the trace: what the call behind an event looked
like when it wrote it, and what a commit made of the tables.
-/
import CyClaw.Lib.Transactions

namespace Transactions

open Sys

variable {S : Service} [DecidableEq S.Client] {allow : Sys S → Action S → Prop}
  {T₀ : S.db.Tables} {σ : Sys S}

/-! ### The call behind an event -/

theorem concat_inj {α : Type} {l : List α} {x y : α} (h : l ++ [x] = l ++ [y]) : x = y := by
  simpa using h

theorem occurred_ret (h : Later allow (Sys.idle T₀) σ) {i id : Nat} {a : S.Value}
    (hi : σ.trace[i]? = some (.ret id a)) :
    ∃ σ₁ m r, Later allow (Sys.idle T₀) σ₁ ∧ Later allow σ₁ σ ∧ σ₁.trace.length = i ∧
      σ₁.running m = some r ∧ r.id = id ∧ r.prog = .ret a := by
  obtain ⟨σ₁, b, σ₂, h₁, hb, hstep, h₂, hlen, htr⟩ := occurred h (Nat.zero_le i) hi
  have hlater := Relation.ReflTransGen.head ⟨b, hb, hstep⟩ h₂
  cases stepped hstep with
  | start hm => cases concat_inj htr
  | @ret m r a' hm hp =>
      have he := concat_inj htr
      simp only [Event.ret.injEq] at he
      rw [he.2] at hp
      exact ⟨σ₁, m, r, h₁, hlater, hlen, hm, he.1, hp⟩
  | ask hm hp => cases concat_inj htr
  | wrote hm hp hbl hw => simp [setRunning] at htr
  | refused hm hp hbl hw => simp [setRunning] at htr
  | commit hm hp => cases concat_inj htr
  | rollback hm hp => simp [setRunning] at htr
  | fault hm hp => simp [setRunning] at htr

theorem occurred_ask (h : Later allow (Sys.idle T₀) σ) {i id : Nat} {q : S.db.Query}
    {res : S.db.Res q} (hi : σ.trace[i]? = some (.ask id q res)) :
    ∃ σ₁ m r k, Later allow (Sys.idle T₀) σ₁ ∧ Later allow σ₁ σ ∧ σ₁.trace.length = i ∧
      σ₁.running m = some r ∧ r.id = id ∧ r.prog = .ask q k ∧ res = S.db.ask q (σ₁.view m) := by
  obtain ⟨σ₁, b, σ₂, h₁, hb, hstep, h₂, hlen, htr⟩ := occurred h (Nat.zero_le i) hi
  have hlater := Relation.ReflTransGen.head ⟨b, hb, hstep⟩ h₂
  cases stepped hstep with
  | start hm => cases concat_inj htr
  | ret hm hp => cases concat_inj htr
  | @ask m r q' k hm hp =>
      have he := concat_inj htr
      simp only [Event.ask.injEq] at he
      obtain ⟨hid, rfl, hres⟩ := he
      exact ⟨σ₁, m, r, k, h₁, hlater, hlen, hm, hid, hp, (eq_of_heq hres).symm⟩
  | wrote hm hp hbl hw => simp [setRunning] at htr
  | refused hm hp hbl hw => simp [setRunning] at htr
  | commit hm hp => cases concat_inj htr
  | rollback hm hp => simp [setRunning] at htr
  | fault hm hp => simp [setRunning] at htr

/-- What a commit did. -/
structure Commits (allow : Sys S → Action S → Prop) (σ₁ σ₂ : Sys S) (m : S.Client) (r : Running S) :
    Prop where
  running : σ₁.running m = some r
  at_commit : ∃ k, r.prog = .commit k
  allowed : allow σ₁ (.next m)
  later : Later allow σ₁ σ₂
  committed : σ₂.committed = σ₁.view m
  trace : σ₂.trace = σ₁.trace ++ [.commit r.id (σ₁.logOf m)]

theorem occurred_commit (h : Later allow (Sys.idle T₀) σ) {i id : Nat} {log : List (Entry S)}
    (hi : σ.trace[i]? = some (.commit id log)) :
    ∃ σ₁ σ₂ m r, Later allow (Sys.idle T₀) σ₁ ∧ Later allow σ₂ σ ∧ σ₁.trace.length = i ∧
      r.id = id ∧ log = σ₁.logOf m ∧ Commits allow σ₁ σ₂ m r := by
  obtain ⟨σ₁, b, σ₂, h₁, hb, hstep, h₂, hlen, htr⟩ := occurred h (Nat.zero_le i) hi
  cases stepped hstep with
  | start hm => cases concat_inj htr
  | ret hm hp => cases concat_inj htr
  | ask hm hp => cases concat_inj htr
  | wrote hm hp hbl hw => simp [setRunning] at htr
  | refused hm hp hbl hw => simp [setRunning] at htr
  | @commit m r k hm hp =>
      have he := concat_inj htr
      simp only [Event.commit.injEq] at he
      refine ⟨σ₁, _, m, r, h₁, h₂, hlen, he.1, he.2.symm, hm, ⟨k, hp⟩, hb, ?_, rfl, rfl⟩
      exact Relation.ReflTransGen.single ⟨_, hb, hstep⟩
  | rollback hm hp => simp [setRunning] at htr
  | fault hm hp => simp [setRunning] at htr

/-- What a step can make of the call of the client that takes it. -/
inductive Moved (σ : Sys S) (m : S.Client) : Action S → Running S → Prop
  | start {c} : Moved σ m (.start m c) ⟨σ.trace.length, c, S.body c, [], [], []⟩
  | ask {r q k} (hm : σ.running m = some r) (hp : r.prog = .ask q k) :
      Moved σ m (.next m)
        { r with
          prog := k (.ok (S.db.ask q (σ.view m)))
          reads := r.reads ++ [⟨σ.trace.length, q, S.db.ask q (σ.view m)⟩] }
  | wrote {r w k n T} (hm : σ.running m = some r) (hp : r.prog = .write w k)
      (hw : S.db.apply w (σ.view m) = .ok (n, T)) :
      Moved σ m (.next m) { r with prog := k (.ok n), pending := r.pending ++ [(w, n)] }
  | refused {r w k e} (hm : σ.running m = some r) (hp : r.prog = .write w k)
      (hw : S.db.apply w (σ.view m) = .error e) : Moved σ m (.next m) { r with prog := k (.error e) }
  | commit {r k} (hm : σ.running m = some r) (hp : r.prog = .commit k) :
      Moved σ m (.next m)
        { r with prog := k (.ok ()), pending := [], kept := r.kept ++ [r.pending] }
  | rollback {r k} (hm : σ.running m = some r) (hp : r.prog = .rollback k) :
      Moved σ m (.next m) { r with prog := k, pending := [] }
  | fault {r e p} (hm : σ.running m = some r) (hp : onFault e r.prog = some p) :
      Moved σ m (.fault m e) { r with prog := p }

/-- A step moves the call of one client and no other. -/
theorem moved {σ' : Sys S} {a : Action S} (hs : Stepped σ a σ') {m : S.Client} {r : Running S}
    (hm : σ'.running m = some r) : σ.running m = some r ∨ Moved σ m a r := by
  have split : ∀ {m₁ : S.Client} {x : Option (Running S)},
      σ'.running = Function.update σ.running m₁ x → (∀ r', x = some r' → Moved σ m₁ a r') →
      σ.running m = some r ∨ Moved σ m a r := by
    intro m₁ x hrun hx
    rw [hrun] at hm
    by_cases hne : m = m₁
    · subst hne
      rw [Function.update_self] at hm
      exact Or.inr (hx r hm)
    · rw [Function.update_of_ne hne] at hm
      exact Or.inl hm
  cases hs with
  | start hm₁ =>
      refine split rfl ?_
      rintro r' ⟨rfl⟩
      exact .start
  | ret hm₁ hp =>
      refine split rfl ?_
      rintro r' ⟨⟩
  | ask hm₁ hp =>
      refine split rfl ?_
      rintro r' ⟨rfl⟩
      exact .ask hm₁ hp
  | wrote hm₁ hp hb hw =>
      refine split rfl ?_
      rintro r' ⟨rfl⟩
      exact .wrote hm₁ hp hw
  | refused hm₁ hp hb hw =>
      refine split rfl ?_
      rintro r' ⟨rfl⟩
      exact .refused hm₁ hp hw
  | commit hm₁ hp =>
      refine split rfl ?_
      rintro r' ⟨rfl⟩
      exact .commit hm₁ hp
  | rollback hm₁ hp =>
      refine split rfl ?_
      rintro r' ⟨rfl⟩
      exact .rollback hm₁ hp
  | fault hm₁ hp =>
      refine split rfl ?_
      rintro r' ⟨rfl⟩
      exact .fault hm₁ hp

theorem running_step {σ' : Sys S} {a : Action S} (hs : Stepped σ a σ') {m : S.Client}
    {r : Running S} (hm : σ'.running m = some r) :
    (∃ r₀, σ.running m = some r₀ ∧ r₀.id = r.id) ∨ r.id = σ.trace.length := by
  obtain hm | hmoved := moved hs hm
  · exact Or.inl ⟨r, hm, rfl⟩
  · cases hmoved with
    | start => exact Or.inr rfl
    | ask hm₁ hp | wrote hm₁ hp hw | refused hm₁ hp hw | commit hm₁ hp | rollback hm₁ hp
    | fault hm₁ hp => exact Or.inl ⟨_, hm₁, rfl⟩

/-- A call that started before some state and runs after it was running in it. -/
theorem running_since {σ' : Sys S} (h : Later allow σ σ') {m : S.Client} {r : Running S}
    (hm : σ'.running m = some r) (hid : r.id < σ.trace.length) :
    ∃ r₀, σ.running m = some r₀ ∧ r₀.id = r.id := by
  induction h generalizing r with
  | refl => exact ⟨r, hm, rfl⟩
  | @tail σ₁ σ₂ hlater hnext ih =>
      obtain ⟨a, -, hstep⟩ := hnext
      obtain ⟨r₁, hm₁, hr₁⟩ | hnew := running_step (stepped hstep) hm
      · obtain ⟨r₀, hm₀, hr₀⟩ := ih hm₁ (by omega)
        exact ⟨r₀, hm₀, hr₀.trans hr₁⟩
      · have hle := (trace_le hlater).length_le
        omega

/-- The trace says whose call it is and what it was asked to do. -/
theorem call_of_start {σ' : Sys S} (h : Later allow (Sys.idle T₀) σ) (h' : Later allow σ σ')
    {m m' : S.Client} {r : Running S} {c : S.Call} (hm : σ.running m = some r)
    (hstart : σ'.trace[r.id]? = some (.start m' c)) : m = m' ∧ r.call = c := by
  have hs := trace_later h' ((books h).calls m r hm).started
  rw [hstart] at hs
  simp only [Option.some.injEq, Event.start.injEq] at hs
  exact ⟨hs.1.symm, hs.2.symm⟩

/-- A call asks nothing once it has returned. -/
theorem ask_before_ret (h : Later allow (Sys.idle T₀) σ) {i t id : Nat} {a : S.Value}
    {q : S.db.Query} {res : S.db.Res q} (hi : σ.trace[i]? = some (.ret id a))
    (ht : σ.trace[t]? = some (.ask id q res)) : t < i := by
  by_contra hge
  obtain ⟨σ₁, m, r, k, h₁, hlater, hlen, hm, rfl, -, -⟩ := occurred_ask h ht
  have hne : i ≠ t := by
    rintro rfl
    rw [hi] at ht
    cases ht
  -- When it asked, the call had returned already.
  have hi₁ := trace_earlier hlater hi (by omega)
  exact ((books h₁).calls m r hm).unreturned i a hi₁

/-! ### Assertions along a call -/

/-- An assertion on what a call has read, has pending and has committed, and on what is left
of it. -/
abbrev Assertion (D : Database) (α : Type) :=
  List (Read D) → List (D.Write × Nat) → List (List (D.Write × Nat)) → Prog D α → Prop

/-- `P` holds at every point the call comes to, when writes raise only as `raises` says. -/
def Always {D : Database} {α : Type} (raises : D.Write → D.Err → Prop) (P : Assertion D α) :
    Prog D α → List (Read D) → List (D.Write × Nat) → List (List (D.Write × Nat)) → Prop
  | .ret a, rs, ws, ks => P rs ws ks (.ret a)
  | .ask q k, rs, ws, ks =>
      P rs ws ks (.ask q k) ∧
        ∀ t T, Always raises P (k (.ok (D.ask q T))) (rs ++ [⟨t, q, D.ask q T⟩]) ws ks
  | .write w k, rs, ws, ks =>
      P rs ws ks (.write w k) ∧
        (∀ T n T', D.apply w T = .ok (n, T') →
          Always raises P (k (.ok n)) rs (ws ++ [(w, n)]) ks) ∧
        ∀ e, raises w e → Always raises P (k (.error e)) rs ws ks
  | .commit k, rs, ws, ks => P rs ws ks (.commit k) ∧ Always raises P (k (.ok ())) rs [] (ks ++ [ws])
  | .rollback k, rs, ws, ks => P rs ws ks (.rollback k) ∧ Always raises P k rs [] ks

theorem Always.here {D : Database} {α : Type} {raises : D.Write → D.Err → Prop}
    {P : Assertion D α} {p : Prog D α} {rs : List (Read D)} {ws : List (D.Write × Nat)}
    {ks : List (List (D.Write × Nat))}
    (h : Always raises P p rs ws ks) : P rs ws ks p := by
  cases p with
  | ret a => exact h
  | ask q k => exact h.1
  | write w k => exact h.1
  | commit k => exact h.1
  | rollback k => exact h.1

theorem Always.mono {D : Database} {α : Type} {raises : D.Write → D.Err → Prop}
    {P P' : Assertion D α} (hP : ∀ rs ws ks p, P rs ws ks p → P' rs ws ks p) {p : Prog D α}
    {rs : List (Read D)} {ws : List (D.Write × Nat)}
    {ks : List (List (D.Write × Nat))} (h : Always raises P p rs ws ks) :
    Always raises P' p rs ws ks := by
  induction p generalizing rs ws ks with
  | ret a => exact hP _ _ _ _ h
  | ask q k ih => exact ⟨hP _ _ _ _ h.1, fun t T => ih _ (h.2 t T)⟩
  | write w k ih =>
      exact ⟨hP _ _ _ _ h.1, fun T n T' hw => ih _ (h.2.1 T n T' hw), fun e he => ih _ (h.2.2 e he)⟩
  | commit k ih => exact ⟨hP _ _ _ _ h.1, ih _ h.2⟩
  | rollback k ih => exact ⟨hP _ _ _ _ h.1, ih h.2⟩

/-- Runs in which nothing raises but what `raises` allows. -/
structure Clean (raises : S.db.Write → S.db.Err → Prop) (allow : Sys S → Action S → Prop)
    (T₀ : S.db.Tables) : Prop where
  no_fault : ∀ σ m e, ¬ allow σ (.fault m e)
  refusals : ∀ σ m r w k e, Later allow (Sys.idle T₀) σ → σ.running m = some r →
    r.prog = .write w k → S.db.apply w (σ.view m) = .error e → raises w e

theorem obeys {raises : S.db.Write → S.db.Err → Prop} {P : S.Call → Assertion S.db S.Value}
    (hclean : Clean raises allow T₀)
    (hP : ∀ σ m c, allow σ (.start m c) → Always raises (P c) (S.body c) [] [] [])
    (h : Later allow (Sys.idle T₀) σ) {m : S.Client} {r : Running S} (hm : σ.running m = some r) :
    Always raises (P r.call) r.prog r.reads r.pending r.kept := by
  induction h generalizing m r with
  | refl => simp [idle] at hm
  | @tail σ₁ σ₂ hlater hnext ih =>
      obtain ⟨a, ha, hstep⟩ := hnext
      obtain hm | hmoved := moved (stepped hstep) hm
      · exact ih hm
      · cases hmoved with
        | start => exact hP _ _ _ ha
        | ask hm₁ hp =>
            have hold := ih hm₁
            rw [hp] at hold
            exact hold.2 _ _
        | wrote hm₁ hp hw =>
            have hold := ih hm₁
            rw [hp] at hold
            exact hold.2.1 _ _ _ hw
        | refused hm₁ hp hw =>
            have hold := ih hm₁
            rw [hp] at hold
            exact hold.2.2 _ (hclean.refusals _ _ _ _ _ _ hlater hm₁ hp hw)
        | commit hm₁ hp =>
            have hold := ih hm₁
            rw [hp] at hold
            exact hold.2
        | rollback hm₁ hp =>
            have hold := ih hm₁
            rw [hp] at hold
            exact hold.2
        | fault hm₁ hp => exact absurd ha (hclean.no_fault _ _ _)

/-! ### What calls leave behind -/

/-- Whatever a call has pending when it returns satisfies `L`. -/
def Leaves {D : Database} {α : Type} (L : D.Write × Nat → Prop) : Assertion D α :=
  fun _ ws _ p => (∃ a, p = .ret a) → ∀ x ∈ ws, L x

/-- A client's log is what earlier calls left, and then what the running call has pending. -/
structure Split (L : S.db.Write × Nat → Prop) (σ : Sys S) (m : S.Client)
    (old : List (Entry S)) (r : Running S) : Prop where
  log : σ.logOf m = old ++ r.pending.map fun x => ⟨r.id, x.1, x.2⟩
  left : ∀ e ∈ old, L e.effect ∧ e.call ≠ r.id
  /-- A commit takes along what was left. -/
  fresh : r.kept ≠ [] → old = []

def Settled (L : S.db.Write × Nat → Prop) (σ : Sys S) : Prop :=
  ∀ m, match σ.running m with
    | none => ∀ e ∈ σ.logOf m, L e.effect
    | some r => ∃ old, Split L σ m old r

theorem Settled.split {L : S.db.Write × Nat → Prop} (h : Settled L σ) {m : S.Client}
    {r : Running S} (hm : σ.running m = some r) : ∃ old, Split L σ m old r := by
  have hs := h m
  rw [hm] at hs
  exact hs

theorem Settled.left {L : S.db.Write × Nat → Prop} (h : Settled L σ) {m : S.Client}
    (hm : σ.running m = none) : ∀ e ∈ σ.logOf m, L e.effect := by
  have hs := h m
  rw [hm] at hs
  exact hs

/-- The tables a running call sees: the last commit, what earlier calls left, and its own
writes. -/
theorem Split.replay {L : S.db.Write × Nat → Prop} {m : S.Client} {old : List (Entry S)}
    {r : Running S} (h : Split L σ m old r) (hbooks : Books σ) :
    ∃ U, Replay σ.committed (old.map Entry.effect) U ∧ Replay U r.pending (σ.view m) := by
  have hreplay := hbooks.replay m
  rw [h.log, List.map_append, replay_append] at hreplay
  obtain ⟨U, hU, hws⟩ := hreplay
  refine ⟨U, hU, ?_⟩
  have heff : (r.pending.map fun x => (⟨r.id, x.1, x.2⟩ : Entry S)).map Entry.effect = r.pending := by
    rw [List.map_map]
    exact List.map_id r.pending
  rw [heff] at hws
  exact hws

private theorem settled_step {L : S.db.Write × Nat → Prop} {σ' : Sys S} {a : Action S}
    (hbooks : Books σ) (ih : Settled L σ) (hs : Stepped σ a σ')
    (hret : ∀ m r, σ.running m = some r → (∃ a, r.prog = .ret a) → ∀ x ∈ r.pending, L x) :
    Settled L σ' := by
  -- Another client's call and log are as they were.
  have other : ∀ {m₁ : S.Client} {x : Option (Running S)} (m : S.Client),
      σ'.running = Function.update σ.running m₁ x → m ≠ m₁ → σ'.logOf m = σ.logOf m →
      match σ'.running m with
      | none => ∀ e ∈ σ'.logOf m, L e.effect
      | some r => ∃ old, Split L σ' m old r := by
    intro m₁ x m hrun hne hlog
    rw [hrun, Function.update_of_ne hne]
    cases hm : σ.running m with
    | none =>
        rw [hlog]
        exact ih.left hm
    | some r =>
        obtain ⟨old, hsplit⟩ := ih.split hm
        exact ⟨old, by rw [hlog]; exact hsplit.log, hsplit.left, hsplit.fresh⟩
  -- The client that took the step.
  have mine : ∀ {m₁ : S.Client} {x : Option (Running S)},
      σ'.running = Function.update σ.running m₁ x →
      (match x with
        | none => ∀ e ∈ σ'.logOf m₁, L e.effect
        | some r => ∃ old, Split L σ' m₁ old r) →
      match σ'.running m₁ with
      | none => ∀ e ∈ σ'.logOf m₁, L e.effect
      | some r => ∃ old, Split L σ' m₁ old r := by
    intro m₁ x hrun hx
    rw [hrun, Function.update_self]
    exact hx
  intro m
  cases hs with
  | @start m₁ c hm₁ =>
      by_cases hne : m = m₁
      · subst hne
        refine mine rfl ⟨σ.logOf m, by simp [logOf, txnOf, setRunning, Sys.log], ?_,
          fun hne => absurd rfl hne⟩
        intro e he
        have hlt := hbooks.entry_lt m e he
        exact ⟨ih.left hm₁ e he, Nat.ne_of_lt hlt⟩
      · exact other m rfl hne rfl
  | @ret m₁ r a hm₁ hp =>
      by_cases hne : m = m₁
      · subst hne
        refine mine rfl ?_
        obtain ⟨old, hsplit⟩ := ih.split hm₁
        intro e he
        have he' : e ∈ σ.logOf m := he
        rw [hsplit.log, List.mem_append, List.mem_map] at he'
        obtain he' | ⟨x, hx, rfl⟩ := he'
        · exact (hsplit.left e he').1
        · exact hret m r hm₁ ⟨a, hp⟩ x hx
      · exact other m rfl hne rfl
  | @ask m₁ r q k hm₁ hp =>
      by_cases hne : m = m₁
      · subst hne
        obtain ⟨old, hsplit⟩ := ih.split hm₁
        exact mine rfl ⟨old, hsplit.log, hsplit.left, hsplit.fresh⟩
      · exact other m rfl hne rfl
  | @wrote m₁ r w k n T hm₁ hp hb hw =>
      by_cases hne : m = m₁
      · subst hne
        obtain ⟨old, hsplit⟩ := ih.split hm₁
        refine mine rfl ⟨old, ?_, hsplit.left, hsplit.fresh⟩
        rw [logOf, txnOf_of_txn rfl, if_pos rfl]
        show σ.logOf m ++ [⟨r.id, w, n⟩] = _
        rw [hsplit.log, List.map_append, List.append_assoc]
        rfl
      · refine other m rfl hne ?_
        rw [logOf, txnOf_of_txn rfl, if_neg (Ne.symm hne), logOf_of_none (txnOf_unblocked hb hne)]
        rfl
  | @refused m₁ r w k e hm₁ hp hb hw =>
      by_cases hne : m = m₁
      · subst hne
        obtain ⟨old, hsplit⟩ := ih.split hm₁
        refine mine rfl ⟨old, ?_, hsplit.left, hsplit.fresh⟩
        rw [logOf, txnOf_of_txn rfl, if_pos rfl]
        exact hsplit.log
      · refine other m rfl hne ?_
        rw [logOf, txnOf_of_txn rfl, if_neg (Ne.symm hne), logOf_of_none (txnOf_unblocked hb hne)]
        rfl
  | @commit m₁ r k hm₁ hp =>
      by_cases hne : m = m₁
      · subst hne
        refine mine rfl ⟨[], ?_, by simp, fun _ => rfl⟩
        rw [logOf, txnOf_of_released rfl, if_pos rfl]
        rfl
      · refine other m rfl hne ?_
        rw [logOf, txnOf_of_released rfl, if_neg hne]
        rfl
  | @rollback m₁ r k hm₁ hp =>
      by_cases hne : m = m₁
      · subst hne
        refine mine rfl ⟨[], ?_, by simp, fun _ => rfl⟩
        rw [logOf, txnOf_of_released rfl, if_pos rfl]
        rfl
      · refine other m rfl hne ?_
        rw [logOf, txnOf_of_released rfl, if_neg hne]
        rfl
  | @fault m₁ r e p hm₁ hp =>
      by_cases hne : m = m₁
      · subst hne
        obtain ⟨old, hsplit⟩ := ih.split hm₁
        exact mine rfl ⟨old, hsplit.log, hsplit.left, hsplit.fresh⟩
      · exact other m rfl hne rfl

theorem settled {raises : S.db.Write → S.db.Err → Prop} {L : S.db.Write × Nat → Prop}
    (hclean : Clean raises allow T₀)
    (hL : ∀ σ m c, allow σ (.start m c) → Always raises (Leaves L) (S.body c) [] [] [])
    (h : Later allow (Sys.idle T₀) σ) : Settled L σ := by
  induction h with
  | refl =>
      intro m e he
      simp [idle, logOf, txnOf] at he
  | tail hlater hnext ih =>
      obtain ⟨a, -, hstep⟩ := hnext
      refine settled_step (books hlater) ih (stepped hstep) ?_
      intro m r hm hp
      exact (obeys (P := fun _ => Leaves L) hclean hL hlater hm).here hp

/-- A call that has committed and has nothing pending sees the last commit. -/
theorem Split.view {L : S.db.Write × Nat → Prop} {m : S.Client} {old : List (Entry S)}
    {r : Running S} (h : Split L σ m old r) (hbooks : Books σ) (hkept : r.kept ≠ [])
    (hpending : r.pending = []) : σ.view m = σ.committed := by
  have hreplay := hbooks.replay m
  rw [h.log, h.fresh hkept, hpending] at hreplay
  exact hreplay

/-! ### Calls whose statements may raise anywhere -/

/-- `P` holds, with what is pending, at every point the call comes to, whatever its
statements return and wherever they raise. -/
def Everywhere {D : Database} {α : Type} (P : List (D.Write × Nat) → Prog D α → Prop) :
    Prog D α → List (D.Write × Nat) → Prop
  | .ret a, ws => P ws (.ret a)
  | .ask q k, ws => P ws (.ask q k) ∧ ∀ x, Everywhere P (k x) ws
  | .write w k, ws =>
      P ws (.write w k) ∧ (∀ n, Everywhere P (k (.ok n)) (ws ++ [(w, n)])) ∧
        ∀ e, Everywhere P (k (.error e)) ws
  | .commit k, ws =>
      P ws (.commit k) ∧ Everywhere P (k (.ok ())) [] ∧ ∀ e, Everywhere P (k (.error e)) ws
  | .rollback k, ws => P ws (.rollback k) ∧ Everywhere P k []

theorem Everywhere.here {D : Database} {α : Type} {P : List (D.Write × Nat) → Prog D α → Prop}
    {p : Prog D α} {ws : List (D.Write × Nat)} (h : Everywhere P p ws) : P ws p := by
  cases p with
  | ret a => exact h
  | ask q k => exact h.1
  | write w k => exact h.1
  | commit k => exact h.1
  | rollback k => exact h.1

omit [DecidableEq S.Client] in
theorem everywhere_onFault {P : List (S.db.Write × Nat) → Prog S.db S.Value → Prop}
    {p p' : Prog S.db S.Value} {ws : List (S.db.Write × Nat)} {e : S.db.Err}
    (h : Everywhere P p ws) (hp : onFault e p = some p') : Everywhere P p' ws := by
  cases p with
  | ret a => cases hp
  | ask q k =>
      rw [← Option.some.inj hp]
      exact h.2 _
  | write w k =>
      rw [← Option.some.inj hp]
      exact h.2.2 _
  | commit k =>
      rw [← Option.some.inj hp]
      exact h.2.2 _
  | rollback k => cases hp

theorem everywhere {P : S.Call → List (S.db.Write × Nat) → Prog S.db S.Value → Prop}
    (hP : ∀ c, Everywhere (P c) (S.body c) []) (h : Later allow (Sys.idle T₀) σ) {m : S.Client}
    {r : Running S} (hm : σ.running m = some r) : Everywhere (P r.call) r.prog r.pending := by
  induction h generalizing m r with
  | refl => simp [idle] at hm
  | @tail σ₁ σ₂ _ hnext ih =>
      obtain ⟨a, -, hstep⟩ := hnext
      obtain hm | hmoved := moved (stepped hstep) hm
      · exact ih hm
      · cases hmoved with
        | start => exact hP _
        | ask hm₁ hp =>
            have hold := ih hm₁
            rw [hp] at hold
            exact hold.2 _
        | wrote hm₁ hp hw =>
            have hold := ih hm₁
            rw [hp] at hold
            exact hold.2.1 _
        | refused hm₁ hp hw =>
            have hold := ih hm₁
            rw [hp] at hold
            exact hold.2.2 _
        | commit hm₁ hp =>
            have hold := ih hm₁
            rw [hp] at hold
            exact hold.2.1
        | rollback hm₁ hp =>
            have hold := ih hm₁
            rw [hp] at hold
            exact hold.2
        | fault hm₁ hp =>
            have hold := ih hm₁
            exact everywhere_onFault hold hp

/-! ### What every write keeps -/

/-- Every write of a call, on every way through it, satisfies `Q`. -/
def Writes {D : Database} {α : Type} (Q : D.Write → Prop) : Prog D α → Prop
  | .ret _ => True
  | .ask _ k => ∀ x, Writes Q (k x)
  | .write w k => Q w ∧ ∀ x, Writes Q (k x)
  | .commit k => ∀ x, Writes Q (k x)
  | .rollback k => Writes Q k

theorem Writes.everywhere {D : Database} {α : Type} {Q : D.Write → Prop} {p : Prog D α}
    (h : Writes Q p) (ws : List (D.Write × Nat)) : Everywhere (fun _ p => Writes Q p) p ws := by
  induction p generalizing ws with
  | ret a => exact h
  | ask q k ih => exact ⟨h, fun x => ih x (h x) ws⟩
  | write w k ih => exact ⟨h, fun n => ih _ (h.2 _) _, fun e => ih _ (h.2 _) ws⟩
  | commit k ih => exact ⟨h, ih _ (h _) [], fun e => ih _ (h _) ws⟩
  | rollback k ih => exact ⟨h, ih h []⟩

theorem Writes.always {D : Database} {α : Type} {raises : D.Write → D.Err → Prop}
    {Q : D.Write → Prop} {p : Prog D α} (h : Writes Q p) {rs : List (Read D)}
    {ws : List (D.Write × Nat)} {ks : List (List (D.Write × Nat))} :
    Always raises (fun _ _ _ p => Writes Q p) p rs ws ks := by
  induction p generalizing rs ws ks with
  | ret a => exact h
  | ask q k ih => exact ⟨h, fun t T => ih _ (h _)⟩
  | write w k ih => exact ⟨h, fun T n T' _ => ih _ (h.2 _), fun e _ => ih _ (h.2 _)⟩
  | commit k ih => exact ⟨h, ih _ (h _)⟩
  | rollback k ih => exact ⟨h, ih h⟩

/-- The writes of open transactions satisfy `Q`. -/
theorem log_writes {Q : S.db.Write → Prop} (hQ : ∀ c, Writes Q (S.body c))
    (h : Later allow (Sys.idle T₀) σ) (m : S.Client) : ∀ e ∈ σ.logOf m, Q e.write := by
  induction h with
  | refl => simp [idle, logOf, txnOf]
  | @tail σ₁ σ₂ hlater hnext ih =>
      obtain ⟨a, -, hstep⟩ := hnext
      cases stepped hstep with
      | start hm | ret hm hp | ask hm hp | fault hm hp => exact ih
      | @wrote m₁ r w k n T hm hp hb hw =>
          have hwrites := (everywhere (fun c => (hQ c).everywhere []) hlater hm).here
          rw [hp] at hwrites
          intro e he
          rw [logOf, txnOf_of_txn rfl] at he
          split at he
          · rename_i hne
            rw [Option.map_some, Option.getD_some, List.mem_append, List.mem_singleton] at he
            obtain he | rfl := he
            · exact ih e (hne ▸ he)
            · exact hwrites.1
          · cases he
      | @refused m₁ r w k e hm hp hb hw =>
          intro e he
          rw [logOf, txnOf_of_txn rfl] at he
          split at he
          · rename_i hne
            exact ih e (hne ▸ he)
          · cases he
      | commit hm hp | rollback hm hp =>
          intro e he
          rw [logOf, txnOf_of_released rfl] at he
          split at he
          · cases he
          · exact ih e he

/-- **What every write of every call keeps holds of the committed tables from then on.** -/
theorem committed_inv {Q : S.db.Write → Prop} {I : S.db.Tables → Prop}
    (hQ : ∀ c, Writes Q (S.body c))
    (hI : ∀ w T n T', Q w → I T → S.db.apply w T = .ok (n, T') → I T') {σ' : Sys S}
    (h : Later allow (Sys.idle T₀) σ) (h' : Later allow σ σ') (hσ : I σ.committed) :
    I σ'.committed := by
  induction h' with
  | refl => exact hσ
  | @tail σ₁ σ₂ hlater hnext ih =>
      obtain ⟨a, -, hstep⟩ := hnext
      have hreach := h.trans hlater
      cases stepped hstep with
      | start hm => exact ih
      | ret hm hp => exact ih
      | ask hm hp => exact ih
      | wrote hm hp hb hw => exact ih
      | refused hm hp hb hw => exact ih
      | @commit m r k hm hp =>
          refine replay_inv hI ?_ ((books hreach).replay m) ih
          intro p hp'
          rw [List.mem_map] at hp'
          obtain ⟨e, he, rfl⟩ := hp'
          exact log_writes hQ hreach m e he
      | rollback hm hp => exact ih
      | fault hm hp => exact ih

theorem Writes.mono {D : Database} {α : Type} {Q Q' : D.Write → Prop} {p : Prog D α} (h : Writes Q p)
    (hmono : ∀ w, Q w → Q' w) : Writes Q' p := by
  induction p with
  | ret a => trivial
  | ask q k ih => exact fun x => ih x (h x)
  | write w k ih => exact ⟨hmono w h.1, fun x => ih x (h.2 x)⟩
  | commit k ih => exact fun x => ih x (h x)
  | rollback k ih => exact ih h

theorem writes_true {D : Database} {α : Type} (p : Prog D α) : Writes (fun _ => True) p := by
  induction p with
  | ret a => trivial
  | ask q k ih => exact ih
  | write w k ih => exact ⟨trivial, ih⟩
  | commit k ih => exact ih
  | rollback k ih => exact ih

/-- What every write keeps, stays. -/
theorem committed_stable {I : S.db.Tables → Prop}
    (hI : ∀ w T n T', I T → S.db.apply w T = .ok (n, T') → I T') {σ' : Sys S}
    (h : Later allow (Sys.idle T₀) σ) (h' : Later allow σ σ') (hσ : I σ.committed) :
    I σ'.committed :=
  committed_inv (fun c => writes_true (S.body c)) (fun w T n T' _ => hI w T n T') h h' hσ

/-- What every write keeps, a client sees too. -/
theorem view_stable {I : S.db.Tables → Prop}
    (hI : ∀ w T n T', I T → S.db.apply w T = .ok (n, T') → I T')
    (h : Later allow (Sys.idle T₀) σ) (hσ : I σ.committed) (m : S.Client) : I (σ.view m) :=
  replay_inv (Q := fun _ => True) (fun w T n T' _ => hI w T n T') (by simp) ((books h).replay m) hσ

/-- What every write keeps, a client goes on seeing until it rolls back. -/
theorem view_step {I : S.db.Tables → Prop} (hI : ∀ w T n T', I T → S.db.apply w T = .ok (n, T') → I T')
    {σ' : Sys S} {a : Action S} (hbooks : Books σ) (hs : Stepped σ a σ') {m : S.Client}
    (hroll : ∀ r k, σ.running m = some r → r.prog ≠ .rollback k) (hview : I (σ.view m)) :
    I (σ'.view m) := by
  cases hs with
  | start hm | ret hm hp | ask hm hp | fault hm hp => exact hview
  | @wrote m₁ r w k n T hm hp hb hw =>
      rw [view, txnOf_of_txn rfl]
      by_cases hne : m₁ = m
      · rw [if_pos hne]
        rw [← hne] at hview
        exact hI w _ n T hview hw
      · rw [if_neg hne]
        rw [view_of_none (txnOf_unblocked hb (Ne.symm hne))] at hview
        exact hview
  | @refused m₁ r w k e hm hp hb hw =>
      rw [view, txnOf_of_txn rfl]
      by_cases hne : m₁ = m
      · rw [if_pos hne]
        rw [← hne] at hview
        exact hview
      · rw [if_neg hne]
        rw [view_of_none (txnOf_unblocked hb (Ne.symm hne))] at hview
        exact hview
  | @commit m₁ r k hm hp =>
      rw [view, txnOf_of_released rfl]
      by_cases hne : m = m₁
      · rw [if_pos hne]
        rw [hne] at hview
        exact hview
      · rw [if_neg hne]
        cases ht : σ.txnOf m with
        | some t =>
            rw [view, ht] at hview
            exact hview
        | none =>
            rw [view_of_none ht] at hview
            exact replay_inv (Q := fun _ => True) (fun w T n T' _ => hI w T n T') (by simp)
              (hbooks.replay m₁) hview
  | @rollback m₁ r k hm hp =>
      rw [view, txnOf_of_released rfl]
      by_cases hne : m = m₁
      · rw [hne] at hroll
        exact absurd hp (hroll r k hm)
      · rw [if_neg hne]
        exact hview

theorem view_keeps {I : S.db.Tables → Prop} (hI : ∀ w T n T', I T → S.db.apply w T = .ok (n, T') → I T')
    (h : Later allow (Sys.idle T₀) σ) {σ' : Sys S} (h' : Later allow σ σ') {m : S.Client}
    {r r' : Running S} (hm : σ.running m = some r) (hm' : σ'.running m = some r')
    (hid : r'.id = r.id)
    (hroll : ∀ σ₁ r₁ k, Later allow σ σ₁ → σ₁.running m = some r₁ → r₁.id = r.id →
      r₁.prog ≠ .rollback k) (hview : I (σ.view m)) : I (σ'.view m) := by
  induction h' generalizing r' with
  | refl => exact hview
  | @tail σ₁ σ₂ hlater hnext ih =>
      obtain ⟨a, -, hstep⟩ := hnext
      have hold : r.id < σ₁.trace.length := by
        have hlt := (List.getElem?_eq_some_iff.mp ((books h).calls m r hm).started).1
        have hle := (trace_le hlater).length_le
        omega
      -- The call was running before the step.
      obtain ⟨r₁, hm₁, hr₁⟩ | hnew := running_step (stepped hstep) hm'
      · refine view_step hI (books (h.trans hlater)) (stepped hstep) ?_ (ih hm₁ (hr₁.trans hid))
        intro r₂ k hm₂
        rw [hm₁, Option.some.injEq] at hm₂
        rw [← hm₂]
        exact hroll σ₁ r₁ k hlater hm₁ (hr₁.trans hid)
      · omega

end Transactions

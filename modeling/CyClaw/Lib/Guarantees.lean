/-
What a call guarantees of its transactions.

A client that has a transaction open is alone with its tables: nobody else commits before it
has ended that transaction (`Stand.locked`).  A client that has none finds, at each statement,
whatever the commits of the others have made of the tables in the meantime (`rely`).

`Meets` follows a call through its statements, whatever they return or raise, and asks of each
commit and of what the call returns what its `Contract` says.  `Work` is for writing calls with
exceptions, and `Work.Ensures` the rule for putting them together.  `Meeting.later` is what the
whole service makes of it: calls that meet their contracts one by one meet them all at once.
-/
import CyClaw.Lib.CallPaths

namespace Transactions

variable {D : Database} {α β γ : Type}

/-- Where a client stands: the tables, or what is committed and what its open transaction has
made of that. -/
inductive Stand (D : Database) where
  | free (T : D.Tables)
  | locked (saved T : D.Tables)

/-- What the next statement sees. -/
def Stand.view : Stand D → D.Tables
  | .free T => T
  | .locked _ T => T

def Stand.saved : Stand D → D.Tables
  | .free T => T
  | .locked saved _ => saved

/-- A statement has changed the tables. -/
def Stand.write (s : Stand D) (T : D.Tables) : Stand D := .locked s.saved T

/-- What the other clients may do meanwhile. -/
inductive Stand.Moves (rely : D.Tables → D.Tables → Prop) : Stand D → Stand D → Prop
  | free {T T'} (h : Relation.ReflTransGen rely T T') : Moves rely (.free T) (.free T')
  | locked {T T'} : Moves rely (.locked T T') (.locked T T')

variable {rely : D.Tables → D.Tables → Prop} {s s' s'' : Stand D}

theorem Stand.Moves.refl (s : Stand D) : s.Moves rely s := by
  cases s with
  | free T => exact .free .refl
  | locked saved T => exact .locked

theorem Stand.Moves.trans (h : s.Moves rely s') (h' : s'.Moves rely s'') : s.Moves rely s'' := by
  cases h with
  | free h =>
    cases h' with
    | free h' => exact .free (h.trans h')
  | locked => exact h'

theorem Stand.Moves.of_locked {T T' : D.Tables} (h : (Stand.locked T T').Moves rely s) : s = .locked T T' := by
  cases h
  rfl

inductive Statement (D : Database) where
  | ask (q : D.Query)
  | write (w : D.Write)
  | commit
  | rollback

/-- The next statement of a call that goes on. -/
def Prog.next : Prog D β → Option (Statement D)
  | .ret _ => none
  | .ask q _ => some (.ask q)
  | .write w _ => some (.write w)
  | .commit _ => some .commit
  | .rollback _ => some .rollback

structure Contract (D : Database) (β : Type) where
  /-- What is taken for granted of the tables when a statement is carried out. -/
  needs : Statement D → D.Tables → Prop
  /-- What a transaction makes of the tables. -/
  commits : D.Tables → D.Tables → Prop
  /-- What is returned by a call that has committed or has not. -/
  returns : Bool → β → Prop

/-- **A call meets its contract** from where its client stands, having committed or not. -/
def Meets (rely : D.Tables → D.Tables → Prop) (C : Contract D β) : Prog D β → Stand D → Bool → Prop
  | .ret a, s, done => s = .free s.saved ∧ C.returns done a
  | .ask q k, s, done => ∀ s', s.Moves rely s' →
      (C.needs (.ask q) s'.view → Meets rely C (k (.ok (D.ask q s'.view))) s' done) ∧
        ∀ e, Meets rely C (k (.error e)) s' done
  | .write w k, s, done => ∀ s', s.Moves rely s' →
      (C.needs (.write w) s'.view →
        (∀ n T, D.apply w s'.view = .ok (n, T) → Meets rely C (k (.ok n)) (s'.write T) done) ∧
          ∀ e, D.apply w s'.view = .error e → Meets rely C (k (.error e)) (s'.write s'.view) done) ∧
        ∀ e, Meets rely C (k (.error e)) s' done
  | .commit k, s, done => ∀ s', s.Moves rely s' →
      (C.needs .commit s'.view →
        (∀ saved T, s' = .locked saved T → C.commits saved T) ∧ Meets rely C (k (.ok ())) (.free s'.view) true) ∧
        ∀ e, Meets rely C (k (.error e)) s' done
  | .rollback k, s, done => ∀ s', s.Moves rely s' → Meets rely C k (.free s'.saved) done

variable {C : Contract D β} {done : Bool}

theorem Meets.move {p : Prog D β} (h : Meets rely C p s done) (hs : s.Moves rely s') : Meets rely C p s' done := by
  cases p with
  | ret a =>
    refine ⟨?_, h.2⟩
    cases hs with
    | free _ => rfl
    | locked => exact h.1
  | ask q k => exact fun s'' hs' => h s'' (hs.trans hs')
  | write w k => exact fun s'' hs' => h s'' (hs.trans hs')
  | commit k => exact fun s'' hs' => h s'' (hs.trans hs')
  | rollback k => exact fun s'' hs' => h s'' (hs.trans hs')

/-! ### Calls with exceptions -/

/-- A piece of a call that gives a value or raises. -/
def Work (D : Database) (β α : Type) : Type := (Except D.Err α → Prog D β) → Prog D β

namespace Work

def throw (e : D.Err) : Work D β α := fun k => k (.error e)

instance : Monad (Work D β) where
  pure a := fun k => k (.ok a)
  bind x f := fun k => x fun
    | .ok a => f a k
    | .error e => k (.error e)

def lift : Except D.Err α → Work D β α
  | .ok a => pure a
  | .error e => throw e

def ask (q : D.Query) : Work D β (D.Res q) := fun k => Prog.ask q k

def write (w : D.Write) : Work D β Nat := fun k => Prog.write w k

def commit : Work D β Unit := fun k => Prog.commit k

/-- `except Exception: rollback; raise`. -/
def run (x : Work D (Except D.Err α) α) : Prog D (Except D.Err α) :=
  x fun
    | .ok a => .ret (.ok a)
    | .error e => .rollback (.ret (.error e))

/-- What a piece of a call leaves when it gives a value, and when it raises. -/
def Ensures (rely : D.Tables → D.Tables → Prop) (C : Contract D β) (x : Work D β α) (s : Stand D) (done : Bool)
    (Q : α → Stand D → Bool → Prop) (E : D.Err → Stand D → Bool → Prop) : Prop :=
  ∀ k, (∀ a s' d, Q a s' d → Meets rely C (k (.ok a)) s' d) →
    (∀ e s' d, E e s' d → Meets rely C (k (.error e)) s' d) → Meets rely C (x k) s done

variable {Q : α → Stand D → Bool → Prop} {R : γ → Stand D → Bool → Prop} {E : D.Err → Stand D → Bool → Prop}

theorem ensures_pure {a : α} (h : Q a s done) : Ensures rely C (pure a : Work D β α) s done Q E :=
  fun _ hQ _ => hQ a s done h

theorem ensures_throw {e : D.Err} (h : E e s done) : Ensures rely C (throw e : Work D β α) s done Q E :=
  fun _ _ hE => hE e s done h

theorem ensures_lift {x : Except D.Err α} (hok : ∀ a, x = .ok a → Q a s done) (herror : ∀ e, x = .error e → E e s done) :
    Ensures rely C (lift x : Work D β α) s done Q E := by
  cases x with
  | ok a => exact ensures_pure (hok a rfl)
  | error e => exact ensures_throw (herror e rfl)

theorem ensures_bind {x : Work D β α} {f : α → Work D β γ} (hx : Ensures rely C x s done Q E)
    (hf : ∀ a s' d, Q a s' d → Ensures rely C (f a) s' d R E) : Ensures rely C (x >>= f) s done R E := by
  intro k hR hE
  refine hx _ ?_ hE
  intro a s' d hQ
  exact hf a s' d hQ k hR hE

theorem Ensures.mono {x : Work D β α} {Q' : α → Stand D → Bool → Prop} {E' : D.Err → Stand D → Bool → Prop}
    (h : Ensures rely C x s done Q E) (hQ : ∀ a s' d, Q a s' d → Q' a s' d) (hE : ∀ e s' d, E e s' d → E' e s' d) :
    Ensures rely C x s done Q' E' :=
  fun k hk he => h k (fun a s' d hq => hk a s' d (hQ a s' d hq)) fun e s' d hq => he e s' d (hE e s' d hq)

theorem ensures_ask {q : D.Query} {Q : D.Res q → Stand D → Bool → Prop}
    (h : ∀ s', s.Moves rely s' → Q (D.ask q s'.view) s' done ∧ ∀ e, E e s' done) :
    Ensures rely C (ask q : Work D β (D.Res q)) s done Q E := by
  intro k hQ hE s' hs
  exact ⟨fun _ => hQ _ _ _ (h s' hs).1, fun e => hE e _ _ ((h s' hs).2 e)⟩

theorem ensures_write {w : D.Write} {Q : Nat → Stand D → Bool → Prop}
    (hok : ∀ s' n T, s.Moves rely s' → C.needs (.write w) s'.view → D.apply w s'.view = .ok (n, T) →
      Q n (s'.write T) done)
    (herror : ∀ e s', E e s' done) : Ensures rely C (write w : Work D β Nat) s done Q E := by
  intro k hQ hE s' hs
  refine ⟨fun hneeds => ⟨?_, fun e _ => hE e _ _ (herror e _)⟩, fun e => hE e _ _ (herror e _)⟩
  intro n T hw
  exact hQ _ _ _ (hok s' n T hs hneeds hw)

theorem ensures_commit {Q : Unit → Stand D → Bool → Prop}
    (hok : ∀ s', s.Moves rely s' → C.needs .commit s'.view →
      (∀ saved T, s' = .locked saved T → C.commits saved T) ∧ Q () (.free s'.view) true)
    (herror : ∀ e s', E e s' done) : Ensures rely C (commit : Work D β Unit) s done Q E := by
  intro k hQ hE s' hs
  refine ⟨fun hneeds => ?_, fun e => hE e _ _ (herror e _)⟩
  obtain ⟨hcommits, hq⟩ := hok s' hs hneeds
  exact ⟨hcommits, hQ _ _ _ hq⟩

/-- **A call that rolls back when it raises.** -/
theorem meets_run {C : Contract D (Except D.Err α)} {x : Work D (Except D.Err α) α}
    {Q : α → Stand D → Bool → Prop} {E : D.Err → Stand D → Bool → Prop} (hx : Ensures rely C x s done Q E)
    (hok : ∀ a s' d, Q a s' d → s' = .free s'.saved ∧ C.returns d (.ok a))
    (herror : ∀ e s' d, E e s' d → C.returns d (.error e)) : Meets rely C (run x) s done := by
  refine hx _ hok ?_
  intro e s' d hE s'' _
  exact ⟨rfl, herror e s' d hE⟩

/-! Inside a transaction a client reads what it has written. -/

theorem ensures_lift_eq {x : Except D.Err α} :
    Ensures rely C (lift x : Work D β α) s done (fun a s' d => x = .ok a ∧ s' = s ∧ d = done) fun _ _ d => d = done :=
  ensures_lift (fun _ h => ⟨h, rfl, rfl⟩) fun _ _ => rfl

theorem ensures_ask_locked {q : D.Query} {saved T : D.Tables} :
    Ensures rely C (ask q : Work D β (D.Res q)) (.locked saved T) done
      (fun a s' d => a = D.ask q T ∧ s' = .locked saved T ∧ d = done) fun _ _ d => d = done := by
  refine ensures_ask fun s' hmoves => ⟨?_, fun _ => rfl⟩
  rw [hmoves.of_locked]
  exact ⟨rfl, rfl, rfl⟩

theorem ensures_write_locked {w : D.Write} {saved T : D.Tables} :
    Ensures rely C (write w : Work D β Nat) (.locked saved T) done
      (fun n s' d => ∃ T', D.apply w T = .ok (n, T') ∧ s' = .locked saved T' ∧ d = done) fun _ _ d => d = done := by
  refine ensures_write ?_ fun _ _ => rfl
  intro s' n T' hmoves _ hw
  rw [hmoves.of_locked] at hw ⊢
  exact ⟨T', hw, rfl, rfl⟩

/-- A piece of a call that keeps what is known of where its client stands.  The flags say whether
no transaction is open before it, and after it. -/
structure Keeps (rely : D.Tables → D.Tables → Prop) (C : Contract D β) (J : Stand D → Prop) (shut shut' : Bool)
    (x : Work D β α) : Prop where
  ensures : ∀ s done, J s → (shut = true → s = .free s.saved) →
    Ensures rely C x s done (fun _ s' _ => J s' ∧ (shut' = true → s' = .free s'.saved)) fun _ _ _ => True

variable {J : Stand D → Prop} {shut shut' shut'' : Bool}

theorem keeps_bind {x : Work D β α} {f : α → Work D β γ} (hx : Keeps rely C J shut shut' x)
    (hf : ∀ a, Keeps rely C J shut' shut'' (f a)) : Keeps rely C J shut shut'' (x >>= f) :=
  ⟨fun s done hs hshut => ensures_bind (hx.ensures s done hs hshut) fun a s' d hs' => (hf a).ensures s' d hs'.1 hs'.2⟩

theorem keeps_pure (a : α) : Keeps rely C J shut shut (pure a : Work D β α) :=
  ⟨fun _ _ hs hshut => ensures_pure ⟨hs, hshut⟩⟩

theorem keeps_throw (e : D.Err) : Keeps rely C J shut shut' (throw e : Work D β α) :=
  ⟨fun _ _ _ _ => ensures_throw trivial⟩

theorem keeps_lift (x : Except D.Err α) : Keeps rely C J shut shut (lift x : Work D β α) :=
  ⟨fun _ _ hs hshut => ensures_lift (fun _ _ => ⟨hs, hshut⟩) fun _ _ => trivial⟩

/-- What is known, stays known whatever the others do. -/
def Stays (rely : D.Tables → D.Tables → Prop) (J : Stand D → Prop) : Prop := ∀ s s', J s → s.Moves rely s' → J s'

theorem keeps_ask (hJ : Stays rely J) (q : D.Query) : Keeps rely C J shut shut (ask q : Work D β (D.Res q)) := by
  refine ⟨fun s done hs hshut => ensures_ask fun s' hmoves => ⟨⟨hJ s s' hs hmoves, ?_⟩, fun _ => trivial⟩⟩
  intro hs'
  cases hmoves with
  | free _ => rfl
  | locked => exact hshut hs'

theorem keeps_write {w : D.Write} (hJ : Stays rely J)
    (hw : ∀ s n T, J s → C.needs (.write w) s.view → D.apply w s.view = .ok (n, T) → J (s.write T)) :
    Keeps rely C J shut false (write w : Work D β Nat) := by
  refine ⟨fun s done hs _ => ensures_write ?_ fun _ _ => trivial⟩
  intro s' n T hmoves hneeds happly
  exact ⟨hw s' n T (hJ s s' hs hmoves) hneeds happly, by simp⟩

theorem keeps_commit (hJ : Stays rely J)
    (hcommit : ∀ s, J s → C.needs .commit s.view → (∀ saved T, s = .locked saved T → C.commits saved T) ∧ J (.free s.view)) :
    Keeps rely C J shut true (commit : Work D β Unit) := by
  refine ⟨fun s done hs _ => ensures_commit ?_ fun _ _ => trivial⟩
  intro s' hmoves hneeds
  obtain ⟨hcommits, hfree⟩ := hcommit s' (hJ s s' hs hmoves) hneeds
  exact ⟨hcommits, hfree, fun _ => rfl⟩

/-- A call that ends with what it knows, and with no transaction open. -/
theorem meets_keeps {C : Contract D (Except D.Err α)} {x : Work D (Except D.Err α) α} (hx : Keeps rely C J shut true x)
    (hs : J s) (hshut : shut = true → s = .free s.saved) (hreturns : ∀ d b, C.returns d b) :
    Meets rely C (run x) s done := by
  refine meets_run (hx.ensures s done hs hshut) ?_ fun _ _ _ _ => hreturns _ _
  intro a s' d hs'
  exact ⟨hs'.2 rfl, hreturns _ _⟩

end Work

/-! ### Many calls -/

section Service

open Sys

variable {S : Service} [DecidableEq S.Client] {σ σ' : Sys S} {T₀ : S.db.Tables} {a : Action S}
  {allow : Sys S → Action S → Prop} {rely : S.db.Tables → S.db.Tables → Prop} {C : S.Call → Contract S.db S.Value}

def Sys.stand (σ : Sys S) (m : S.Client) : Stand S.db :=
  match σ.txnOf m with
  | none => .free σ.committed
  | some t => .locked σ.committed t.tables

theorem stand_view (σ : Sys S) (m : S.Client) : (σ.stand m).view = σ.view m := by
  unfold Sys.stand view
  cases σ.txnOf m <;> rfl

theorem stand_saved (σ : Sys S) (m : S.Client) : (σ.stand m).saved = σ.committed := by
  unfold Sys.stand
  cases σ.txnOf m <;> rfl

theorem stand_congr {m m' : S.Client} (hcommitted : σ'.committed = σ.committed) (htxn : σ'.txnOf m' = σ.txnOf m) :
    σ'.stand m' = σ.stand m := by
  unfold Sys.stand
  rw [htxn, hcommitted]

/-- A step is taken only where what the call needs for its next statement is so. -/
def Granted (C : S.Call → Contract S.db S.Value) (σ : Sys S) (a : Action S) : Prop :=
  ∀ m r t, a = .next m → σ.running m = some r → r.prog.next = some t → (C r.call).needs t (σ.view m)

/-- Every call that runs meets its contract from where it is. -/
structure Meeting (rely : S.db.Tables → S.db.Tables → Prop) (C : S.Call → Contract S.db S.Value) (σ : Sys S) : Prop where
  idle : ∀ m, σ.running m = none → σ.txnOf m = none
  calls : ∀ m r, σ.running m = some r → Meets rely (C r.call) r.prog (σ.stand m) (!r.kept.isEmpty)

/-- One client has moved on, and the others still stand where they stood or were overtaken. -/
theorem Meeting.moved (h : Meeting rely C σ) {m : S.Client} {x : Option (Running S)}
    (hrunning : σ'.running = Function.update σ.running m x) (hidle : x = none → σ'.txnOf m = none)
    (hcall : ∀ r, x = some r → Meets rely (C r.call) r.prog (σ'.stand m) (!r.kept.isEmpty))
    (hothers : ∀ m', m' ≠ m → (σ.txnOf m' = none → σ'.txnOf m' = none) ∧ (σ.stand m').Moves rely (σ'.stand m')) :
    Meeting rely C σ' := by
  refine ⟨?_, ?_⟩
  · intro m' hm'
    rw [hrunning] at hm'
    by_cases hne : m' = m
    · rw [hne, Function.update_self] at hm'
      rw [hne]
      exact hidle hm'
    · rw [Function.update_of_ne hne] at hm'
      exact (hothers m' hne).1 (h.idle m' hm')
  · intro m' r hm'
    rw [hrunning] at hm'
    by_cases hne : m' = m
    · rw [hne, Function.update_self] at hm'
      rw [hne]
      exact hcall r hm'
    · rw [Function.update_of_ne hne] at hm'
      exact (h.calls m' r hm').move (hothers m' hne).2

/-- After a statement that has kept a transaction open, or has opened one. -/
theorem Meeting.opened (h : Meeting rely C σ) {m : S.Client} {r : Running S} {T : S.db.Tables} {log : List (Entry S)}
    (hrunning : σ'.running = Function.update σ.running m (some r)) (htxn : σ'.txn = some ⟨m, T, log⟩)
    (hcommitted : σ'.committed = σ.committed) (hb : σ.blocked m = false)
    (hcall : Meets rely (C r.call) r.prog (.locked σ.committed T) (!r.kept.isEmpty)) : Meeting rely C σ' := by
  refine h.moved hrunning (by simp) ?_ ?_
  · rintro r' ⟨rfl⟩
    have hstand : σ'.stand m = .locked σ.committed T := by
      simp [Sys.stand, txnOf_of_txn htxn, hcommitted]
    rw [hstand]
    exact hcall
  · intro m' hne
    have hnone : σ'.txnOf m' = none := by
      rw [txnOf_of_txn htxn, if_neg (Ne.symm hne)]
    refine ⟨fun _ => hnone, ?_⟩
    rw [stand_congr hcommitted (hnone.trans (txnOf_unblocked hb hne).symm)]
    exact Stand.Moves.refl _

/-- After a statement that has ended the transaction of its client. -/
theorem Meeting.ended (h : Meeting rely C σ) {m : S.Client} {r : Running S}
    (hrunning : σ'.running = Function.update σ.running m (some r)) (htxn : σ'.txn = σ.released m)
    (hcommitted : σ'.committed = σ.committed ∨
      (∃ t, σ.txnOf m = some t) ∧ ∀ m', m' ≠ m → rely σ.committed σ'.committed)
    (hcall : Meets rely (C r.call) r.prog (.free σ'.committed) (!r.kept.isEmpty)) : Meeting rely C σ' := by
  refine h.moved hrunning (by simp) ?_ ?_
  · rintro r' ⟨rfl⟩
    have hstand : σ'.stand m = .free σ'.committed := by
      simp [Sys.stand, txnOf_of_released htxn]
    rw [hstand]
    exact hcall
  · intro m' hne
    have hsame : σ'.txnOf m' = σ.txnOf m' := by
      rw [txnOf_of_released htxn, if_neg hne]
    refine ⟨fun hnone => hsame.trans hnone, ?_⟩
    rcases hcommitted with hcommitted | ⟨⟨t, ht⟩, hrely⟩
    · rw [stand_congr hcommitted hsame]
      exact Stand.Moves.refl _
    · have hnone := txnOf_unique ht hne
      simp only [Sys.stand, hsame, hnone]
      exact .free (.single (hrely m' hne))

theorem Meeting.step (h : Meeting rely C σ) (hs : Stepped σ a σ') (hgranted : Granted C σ a)
    (hstart : ∀ m c, a = .start m c → Meets rely (C c) (S.body c) (.free σ.committed) false)
    (hrely : ∀ m m' c T T', (m : S.Client) ≠ m' → (C c).commits T T' → rely T T') : Meeting rely C σ' := by
  cases hs with
  | @start m c hm =>
    refine h.moved rfl (by simp) ?_ fun m' _ => ⟨id, Stand.Moves.refl _⟩
    rintro r ⟨rfl⟩
    have hstand : σ.stand m = .free σ.committed := by
      unfold Sys.stand
      rw [h.idle m hm]
    show Meets rely (C c) (S.body c) (σ.stand m) false
    rw [hstand]
    exact hstart m c rfl
  | @ret m r b hm hp =>
    refine h.moved rfl (fun _ => ?_) (by simp) fun m' _ => ⟨id, Stand.Moves.refl _⟩
    have hfree := h.calls m r hm
    rw [hp] at hfree
    have hstand := hfree.1
    cases ht : σ.txnOf m with
    | none => exact ht
    | some t => simp [Sys.stand, ht] at hstand
  | @ask m r q k hm hp =>
    have hmeets := h.calls m r hm
    rw [hp] at hmeets
    have hnext := (hmeets _ (Stand.Moves.refl _)).1
    rw [stand_view] at hnext
    refine h.moved rfl (by simp) ?_ fun m' _ => ⟨id, Stand.Moves.refl _⟩
    rintro r' ⟨rfl⟩
    exact hnext (hgranted m r (.ask q) rfl hm (by rw [hp]; rfl))
  | @wrote m r w k n T hm hp hb hw =>
    have hmeets := h.calls m r hm
    rw [hp] at hmeets
    have hnext := (hmeets _ (Stand.Moves.refl _)).1
    rw [stand_view] at hnext
    have hafter := (hnext (hgranted m r (.write w) rfl hm (by rw [hp]; rfl))).1 n T hw
    rw [Stand.write, stand_saved] at hafter
    exact h.opened rfl rfl rfl hb hafter
  | @refused m r w k e hm hp hb hw =>
    have hmeets := h.calls m r hm
    rw [hp] at hmeets
    have hnext := (hmeets _ (Stand.Moves.refl _)).1
    rw [stand_view] at hnext
    have hafter := (hnext (hgranted m r (.write w) rfl hm (by rw [hp]; rfl))).2 e hw
    rw [Stand.write, stand_saved] at hafter
    exact h.opened rfl rfl rfl hb hafter
  | @commit m r k hm hp =>
    have hmeets := h.calls m r hm
    rw [hp] at hmeets
    have hnext := (hmeets _ (Stand.Moves.refl _)).1
    rw [stand_view] at hnext
    obtain ⟨hcommits, hafter⟩ := hnext (hgranted m r .commit rfl hm (by rw [hp]; rfl))
    have hkept : (!(r.kept ++ [r.pending]).isEmpty) = true := by simp
    rw [← hkept] at hafter
    refine h.ended rfl rfl ?_ hafter
    cases ht : σ.txnOf m with
    | none => exact Or.inl (view_of_none ht)
    | some t =>
      refine Or.inr ⟨⟨t, rfl⟩, fun m' hne => ?_⟩
      have hview : σ.view m = t.tables := by simp [view, ht]
      show rely σ.committed (σ.view m)
      rw [hview]
      exact hrely m m' r.call _ _ (Ne.symm hne) (hcommits _ _ (by simp [Sys.stand, ht]))
  | @rollback m r k hm hp =>
    have hmeets := h.calls m r hm
    rw [hp] at hmeets
    have hnext := hmeets _ (Stand.Moves.refl _)
    rw [stand_saved] at hnext
    exact h.ended rfl rfl (Or.inl rfl) hnext
  | @fault m r e p hm hp =>
    have hmeets := h.calls m r hm
    refine h.moved rfl (by simp) ?_ fun m' _ => ⟨id, Stand.Moves.refl _⟩
    rintro r' ⟨rfl⟩
    show Meets rely (C r.call) p (σ.stand m) (!r.kept.isEmpty)
    cases hprog : r.prog with
    | ret b => simp [onFault, hprog] at hp
    | ask q k =>
      rw [hprog] at hp hmeets
      cases hp
      exact (hmeets _ (Stand.Moves.refl _)).2 e
    | write w k =>
      rw [hprog] at hp hmeets
      cases hp
      exact (hmeets _ (Stand.Moves.refl _)).2 e
    | commit k =>
      rw [hprog] at hp hmeets
      cases hp
      exact (hmeets _ (Stand.Moves.refl _)).2 e
    | rollback k => simp [onFault, hprog] at hp

/-- **What is committed changes as the contract of a call says.** -/
theorem Meeting.committed (h : Meeting rely C σ) (hs : Stepped σ a σ') (hgranted : Granted C σ a) :
    σ'.committed = σ.committed ∨
      ∃ m r, a = .next m ∧ σ.running m = some r ∧ σ'.trace = σ.trace ++ [.commit r.id (σ.logOf m)] ∧
        (C r.call).commits σ.committed σ'.committed := by
  cases hs with
  | start _ => exact Or.inl rfl
  | ret _ _ => exact Or.inl rfl
  | ask _ _ => exact Or.inl rfl
  | wrote _ _ _ _ => exact Or.inl rfl
  | refused _ _ _ _ => exact Or.inl rfl
  | @commit m r k hm hp =>
    cases ht : σ.txnOf m with
    | none => exact Or.inl (view_of_none ht)
    | some t =>
      have hmeets := h.calls m r hm
      rw [hp] at hmeets
      have hnext := (hmeets _ (Stand.Moves.refl _)).1
      rw [stand_view] at hnext
      have hcommits := (hnext (hgranted m r .commit rfl hm (by rw [hp]; rfl))).1
      have hview : σ.view m = t.tables := by simp [view, ht]
      refine Or.inr ⟨m, r, rfl, hm, rfl, ?_⟩
      show (C r.call).commits σ.committed (σ.view m)
      rw [hview]
      exact hcommits _ _ (by simp [Sys.stand, ht])
  | rollback _ _ => exact Or.inl rfl
  | fault _ _ => exact Or.inl rfl

theorem Meeting.idle_start (T : S.db.Tables) : Meeting rely C (Sys.idle T) where
  idle := fun _ _ => rfl
  calls := fun m r h => by simp [Sys.idle] at h

/-- What the calls of a service are to meet, where `I` holds of the tables. -/
structure Serves (rely : S.db.Tables → S.db.Tables → Prop) (C : S.Call → Contract S.db S.Value) (I : S.db.Tables → Prop)
    (allow : Sys S → Action S → Prop) : Prop where
  granted : ∀ {σ a}, allow σ a → Granted C σ a
  start : ∀ {σ m c}, allow σ (.start m c) → I σ.committed → Meets rely (C c) (S.body c) (.free σ.committed) false
  rely : ∀ m m' c T T', (m : S.Client) ≠ m' → (C c).commits T T' → rely T T'
  keeps : ∀ c T T', I T → (C c).commits T T' → I T'

variable {I : S.db.Tables → Prop}

/-- **The rule for a service.** -/
theorem Serves.later (hC : Serves rely C I allow) (hI : I T₀) (h : Later allow (Sys.idle T₀) σ) :
    I σ.committed ∧ Meeting rely C σ := by
  induction h with
  | refl => exact ⟨hI, Meeting.idle_start T₀⟩
  | @tail σ₁ σ₂ _ hnext ih =>
    obtain ⟨a, ha, hstep⟩ := hnext
    have hs := stepped hstep
    refine ⟨?_, ih.2.step hs (hC.granted ha) ?_ hC.rely⟩
    · rcases ih.2.committed hs (hC.granted ha) with heq | ⟨m, r, -, -, -, hcommits⟩
      · rw [heq]
        exact ih.1
      · exact hC.keeps _ _ _ ih.1 hcommits
    · rintro m c rfl
      exact hC.start ha ih.1

/-- What a call has returned is as its contract says, and it has committed or not. -/
theorem Serves.returned (hC : Serves rely C I allow) (hI : I T₀) (h : Later allow (Sys.idle T₀) σ) {i j : Nat}
    {m : S.Client} {c : S.Call} {b : S.Value} (hi : σ.event i = some (.start m c)) (hj : σ.event j = some (.ret i b)) :
    ∃ done, (C c).returns done b ∧ (done = false → ∀ t log, σ.event t ≠ some (.commit i log)) := by
  obtain ⟨σ₁, m₁, r, h₁, hlater, hlen, hm, rfl, hp⟩ := occurred_ret h hj
  obtain ⟨-, rfl⟩ := call_of_start h₁ hlater hm hi
  have hmeets := (hC.later hI h₁).2.calls m₁ r hm
  rw [hp] at hmeets
  refine ⟨_, hmeets.2, ?_⟩
  intro hdone t log ht
  have hbefore : t < j := by
    by_contra hge
    obtain ⟨σ₂, σ₃, m₂, r₂, h₂, hlater₂, hlen₂, hid, -, hcommits⟩ := occurred_commit h ht
    have hne : j ≠ t := by
      rintro rfl
      rw [hj] at ht
      cases ht
    have hj₂ := trace_earlier (hcommits.later.trans hlater₂) hj (by omega)
    refine ((books h₂).calls m₂ r₂ hcommits.running).unreturned j b ?_
    rw [hid]
    exact hj₂
  have hevent := trace_earlier hlater ht (by omega)
  have hkept := (((books h₁).calls m₁ r hm).kept _).mpr ⟨t, log, hevent, rfl⟩
  simp only [Bool.not_eq_false', List.isEmpty_iff] at hdone
  rw [hdone] at hkept
  cases hkept

end Service

end Transactions

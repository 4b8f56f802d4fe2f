/-
The cap on active facts.

Only `_insert_fact_conn` looks at the cap, and `_update_fact_conn` makes a fact active again
without looking: an `UPDATE` of a fact that was taken out raises the count.  With that ruled out
where the cap is reached (`underCap`), calls made one after the other stay under it.

The invariant is followed along a call by `Caps`: whatever the call has open, no more facts are
active in what it sees than may be.  An insert is the one statement that needs more, and
`checkActive` gives it.
-/
import CyClaw.Memory.Mirror

namespace CyClaw.Memory

open Transactions

/-- The statement makes a fact active that is not. -/
def Write.reactivates (T : Tables) : Write → Bool
  | .updateFact id _ _ _ _ _ _ _ => (T.facts.find? id).any fun f => !f.active
  | _ => false

/-- Every call has this cap. -/
def withCap (i : Interp) (limit : ℤ) : Action (memoryService i Unit) → Bool
  | .start _ c =>
      match maxActiveFacts i c.cfg with
      | .ok (some n) => n = limit
      | _ => false
  | _ => true

/-- And where the cap is reached, no `UPDATE` makes a fact active again. -/
def underCap (i : Interp) (limit : ℤ) (σ : MemorySys i Unit) (a : Action (memoryService i Unit)) : Bool :=
  withCap i limit a &&
    match a with
    | .next _ =>
        match ((σ.running ()).bind fun r => r.prog.next : Option (Statement memoryDb)) with
        | some (.write w) => !w.reactivates (σ.view ()) || (σ.view ()).active < limit
        | _ => true
    | _ => true

section Caps

variable {i : Interp} {limit : ℤ} {T T' : Tables} {n : ℕ} {s s' : Stand memoryDb} {done : Bool} {α β : Type}

/-- Nobody else is there. -/
abbrev alone (_ _ : Tables) : Prop := False

/-- What a call is to do about the cap. -/
def capContract (limit : ℤ) : Contract memoryDb Outcome where
  needs
    | .write w, T => w.reactivates T = true → T.active < limit
    | _, _ => True
  commits _ T' := T'.active ≤ limit
  returns _ _ := True

theorem moves_alone (h : s.Moves alone s') : s' = s := by
  cases h with
  | free h =>
    cases h with
    | refl => rfl
    | tail _ hfalse => exact hfalse.elim
  | locked => rfl

/-! ### Statements -/

theorem active_insertFact {new : Fact} (h : FactInserted T T' new) : T'.active ≤ T.active + 1 := by
  unfold Tables.active
  rw [Table.count_insert h.facts]
  split <;> omega

theorem active_updateFact {id : ℤ} {set : Fact → Fact} {old : Fact} (h : FactUpdated T T' id set old) :
    T'.active ≤ T.active + if old.active then 0 else 1 := by
  obtain ⟨hset, hfacts⟩ := h.facts
  unfold Tables.active
  rw [hfacts]
  cases hactive : old.active with
  | false => exact Table.count_update_key_le id
  | true =>
    refine Table.count_update_le fun f hf hid _ => ?_
    have hsame : f = old := by
      have hfind := Table.find?_eq_some.mpr ⟨hf, of_decide_eq_true hid⟩
      rw [h.found, Option.some.injEq] at hfind
      exact hfind.symm
    rw [hsame]
    exact hactive

/-- Statements but an insert leave the count where it may be. -/
theorem active_apply {w : Write} (h : w.apply T = .ok (n, T')) (hneeds : w.reactivates T = true → T.active < limit)
    (hT : T.active ≤ limit) (hinsert : ∀ content category tags confidence source now reason digest,
      w ≠ .insertFact content category tags confidence source now reason digest) : T'.active ≤ limit := by
  cases w with
  | begin =>
    simp only [Write.apply, Except.ok.injEq, Prod.mk.injEq] at h
    rw [← h.2]
    exact hT
  | insertFact => exact (hinsert _ _ _ _ _ _ _ _ rfl).elim
  | updateFact =>
    rcases updateFact_ok h with ⟨-, -, rfl⟩ | ⟨old, -, hupdated⟩
    · exact hT
    · have hle := active_updateFact hupdated
      cases hactive : old.active with
      | true =>
        rw [hactive] at hle
        simp only [if_true] at hle
        omega
      | false =>
        have hlt := hneeds (by simp [Write.reactivates, hupdated.found, hactive])
        rw [hactive] at hle
        simp only [Bool.false_eq_true, if_false] at hle
        omega
  | deactivateFact =>
    rcases updateFact_ok h with ⟨-, -, rfl⟩ | ⟨old, -, hupdated⟩
    · exact hT
    · obtain ⟨hset, hfacts⟩ := hupdated.facts
      have hle : T'.active ≤ T.active := by
        unfold Tables.active
        rw [hfacts]
        exact Table.count_update_le fun f _ _ hactive => by cases hactive
      omega
  | insertProposal =>
    simp only [Write.apply] at h
    split at h
    · simp only [Except.ok.injEq, Prod.mk.injEq] at h
      rw [← h.2]
      exact hT
    · cases h
  | resolve =>
    simp only [Write.apply, Except.ok.injEq, Prod.mk.injEq] at h
    rw [← h.2]
    exact hT

/-! ### Along a call -/

/-- A piece of a call that leaves no more facts active than may be. -/
abbrev Caps (limit : ℤ) (shut shut' : Bool) (x : Job α) : Prop :=
  Work.Keeps alone (capContract limit) (fun s : Stand memoryDb => s.view.active ≤ limit) shut shut' x

variable {shut shut' : Bool}

theorem stays_alone (J : Stand memoryDb → Prop) : Work.Stays alone J := by
  intro s s' hs hmoves
  rw [moves_alone hmoves]
  exact hs

theorem caps_ask (q : Query) : Caps limit shut shut (ask q) := Work.keeps_ask (stays_alone _) q

theorem caps_write {w : Write} (hinsert : ∀ content category tags confidence source now reason digest,
    w ≠ .insertFact content category tags confidence source now reason digest) : Caps limit shut false (write w) := by
  refine Work.keeps_write (stays_alone _) ?_
  intro s n T hs hneeds hw
  exact active_apply hw hneeds hs hinsert

theorem caps_commit : Caps limit shut true (Work.commit : Job Unit) := by
  refine Work.keeps_commit (stays_alone _) ?_
  intro s hs _
  refine ⟨?_, hs⟩
  rintro saved T rfl
  exact hs

/-- Past the check there is room for one more. -/
theorem checkActive_ensures {cfg : MemoryConfig} (hlimit : maxActiveFacts i cfg = .ok (some limit)) :
    Work.Ensures alone (capContract limit) (checkActive i cfg) s done
      (fun _ s' _ => s'.view.active < limit) fun _ _ _ => True := by
  unfold checkActive
  rw [hlimit]
  refine Work.ensures_bind (Q := fun n s' _ => n = some limit ∧ s' = s) (Work.ensures_pure ⟨rfl, rfl⟩) ?_
  rintro _ _ d ⟨rfl, rfl⟩
  refine Work.ensures_bind (Q := fun (n : ℕ) (s' : Stand memoryDb) _ => n = s'.view.active) ?_ ?_
  · exact Work.ensures_ask fun s' _ => ⟨rfl, fun _ => trivial⟩
  · rintro _ s' d' rfl
    by_cases hle : limit ≤ s'.view.active
    · rw [if_pos hle]
      exact Work.ensures_throw trivial
    · rw [if_neg hle]
      exact Work.ensures_pure (by omega)

variable {cfg : MemoryConfig}

theorem caps_insertFactConn (hlimit : maxActiveFacts i cfg = .ok (some limit)) (content category : Text)
    (tags : List PyValue) (confidence : PyValue) (source reason now : Text) :
    Caps limit false false (insertFactConn i cfg content category tags confidence source reason now) := by
  refine Work.keeps_bind (Work.keeps_lift _) fun _ => Work.keeps_bind (Work.keeps_lift _) fun cleaned => Work.keeps_bind (Work.keeps_lift _) fun conf => ?_
  refine ⟨fun s done hs _ => ?_⟩
  refine Work.ensures_bind (checkActive_ensures hlimit) ?_
  intro _ s' d hroom
  refine Work.ensures_bind (Q := fun _ (s' : Stand memoryDb) _ => s'.view.active ≤ limit) ?_
    fun id s'' d' hs' => (keeps_readBack (stays_alone _) _).ensures s'' d' hs' (by simp)
  refine Work.ensures_write ?_ fun _ _ => trivial
  intro s'' n T hmoves _ hw
  rw [moves_alone hmoves] at hw
  have hle := active_insertFact (insertFact_ok hw).2
  show (T.active : ℤ) ≤ limit
  omega

theorem caps_updateFactConn (id : ℤ) (content category : Option Text) (tags : Option (List PyValue))
    (confidence : Option PyValue) (reason now : Text) :
    Caps limit false false (updateFactConn i cfg id content category tags confidence reason now) :=
  keeps_updateFactConn i cfg (stays_alone _) (fun _ _ _ _ _ _ _ => caps_write (by simp)) ..

theorem caps_deactivateFactConn (id : ℤ) (reason now : Text) :
    Caps limit false false (deactivateFactConn id reason now) :=
  keeps_deactivateFactConn (stays_alone _) (fun _ _ => caps_write (by simp)) ..

theorem caps_carryOut (hlimit : maxActiveFacts i cfg = .ok (some limit)) (change : FactChange) (reason now : Text) :
    Caps limit false false (carryOut i cfg change reason now) := by
  cases change with
  | add => exact caps_insertFactConn hlimit ..
  | update => exact caps_updateFactConn ..
  | deactivate => exact caps_deactivateFactConn ..

theorem caps_applyProposal (hlimit : maxActiveFacts i cfg = .ok (some limit)) (id : ℤ) (reason now resolvedAt : Text)
    (room : ℕ) : Caps limit false true (applyProposal i cfg id reason now resolvedAt room) := by
  refine Work.keeps_bind (Work.keeps_lift _) fun _ => Work.keeps_bind (caps_write (by simp)) fun _ => Work.keeps_bind (caps_ask _) fun row => ?_
  cases row with
  | none => exact Work.keeps_throw _
  | some row =>
    show Caps limit _ _ (if row.status = .pending then _ else _)
    split
    · refine Work.keeps_bind (Work.keeps_lift _) fun prop => Work.keeps_bind (Work.keeps_lift _) fun change =>
        Work.keeps_bind (caps_carryOut hlimit change _ _) fun fact => Work.keeps_bind (caps_write (by simp)) fun touched => ?_
      show Caps limit _ _ (if touched = 1 then _ else _)
      split
      · exact Work.keeps_bind caps_commit fun _ => Work.keeps_pure _
      · exact Work.keeps_throw _
    · exact Work.keeps_throw _

theorem caps_rejectProposal (id : ℤ) (reason now : Text) (room : ℕ) :
    Caps limit false true (rejectProposal id reason now room) := by
  refine Work.keeps_bind (Work.keeps_lift _) fun _ => Work.keeps_bind (caps_write (by simp)) fun _ =>
    Work.keeps_bind (caps_write (by simp)) fun touched => Work.keeps_bind (caps_ask _) fun row => ?_
  cases row with
  | none => exact Work.keeps_throw _
  | some row =>
    show Caps limit _ _ (if touched = 1 then _ else _)
    split
    · exact Work.keeps_bind caps_commit fun _ => Work.keeps_bind (Work.keeps_lift _) fun _ => Work.keeps_pure _
    · exact Work.keeps_throw _

theorem caps_createProposal (action : Text) (payload : Payload) (reason now : Text) (room : ℕ) :
    Caps limit false true (createProposal i cfg action payload reason now room) := by
  refine Work.keeps_bind (Work.keeps_lift _) fun _ => ?_
  cases ProposalAction.ofText action with
  | none => exact Work.keeps_throw _
  | some action =>
    refine Work.keeps_bind (caps_write (by simp)) fun id => Work.keeps_bind caps_commit fun _ => Work.keeps_bind (caps_ask _) fun row => ?_
    cases row with
    | none => exact Work.keeps_throw _
    | some row => exact Work.keeps_bind (Work.keeps_lift _) fun _ => Work.keeps_pure _

/-- **No operation leaves more facts active than may be.** -/
theorem caps_job (hlimit : maxActiveFacts i cfg = .ok (some limit)) (op : Operation) : Caps limit false true (op.job i cfg) := by
  cases op with
  | insertFact => exact keeps_committed (caps_insertFactConn hlimit ..) caps_commit
  | updateFact => exact keeps_committed (caps_updateFactConn ..) caps_commit
  | deactivateFact => exact keeps_committed (caps_deactivateFactConn ..) caps_commit
  | createProposal => exact caps_createProposal ..
  | applyProposal => exact caps_applyProposal hlimit ..
  | rejectProposal => exact caps_rejectProposal ..

theorem meets_cap (hlimit : maxActiveFacts i cfg = .ok (some limit)) (op : Operation) (hT : T.active ≤ limit) :
    Meets alone (capContract limit) (Work.run (op.job i cfg)) (.free T) false := by
  exact Work.meets_keeps (caps_job hlimit op) hT (by simp) fun _ _ => trivial

end Caps

section Runs

variable {i : Interp} {limit : ℤ} {σ : MemorySys i Unit}

theorem serves_cap : Serves alone (fun _ => capContract limit) (fun T : Tables => T.active ≤ limit)
    (fun (σ : MemorySys i Unit) a => underCap i limit σ a = true) where
  granted := by
    rintro σ a hallow m r t rfl hr ht
    cases t with
    | write w =>
      intro hre
      have hallow' : (!w.reactivates (σ.view ()) || decide ((σ.view ()).active < limit)) = true := by
        simpa [underCap, withCap, hr, ht] using hallow
      simpa [hre] using hallow'
    | _ => trivial
  start := by
    intro σ m c hallow hT
    have hlimit : maxActiveFacts i c.cfg = .ok (some limit) := by
      simp only [underCap, withCap, Bool.and_true] at hallow
      split at hallow
      · rename_i n heq
        rw [heq, of_decide_eq_true hallow]
      · cases hallow
    exact meets_cap hlimit c.op hT
  rely := fun m m' _ _ _ hne _ => (hne rfl).elim
  keeps := fun _ _ _ _ h => h

/-- **Calls made one after the other stay under the cap.** -/
theorem active_le_limit (hpos : 0 < limit)
    (h : Later (fun σ a => underCap i limit σ a = true) (Sys.idle Tables.empty) σ) : σ.committed.active ≤ limit :=
  (serves_cap.later (by show ((0 : ℕ) : ℤ) ≤ limit; omega) h).1

end Runs

/-- With a cap of one: a fact, which is taken out, and another one. -/
def outAndIn : List (Call × ℕ) :=
  let cfg : MemoryConfig := ⟨[("max_active".toList, .int 1)], []⟩
  [(⟨cfg, .insertFact "a".toList [] [] (.int 1) [] [] []⟩, 5), (⟨cfg, .deactivateFact 1 [] []⟩, 5),
    (⟨cfg, .insertFact "b".toList [] [] (.int 1) [] [] []⟩, 5)]

theorem active_le_limit_full :
    ∃ σ : MemorySys .plain Unit,
      Later (fun σ a => underCap .plain 1 σ a = true) (Sys.idle Tables.empty) σ ∧ σ.committed.active ≤ (1 : ℤ) ∧
        σ.committed.facts.rows.length = 2 := by
  obtain ⟨σ, hrun, hσ⟩ := (Option.any_eq_true _ _).mp (show (Sys.run (underCap .plain 1) (oneByOne .plain outAndIn)
    (Sys.idle Tables.empty)).any (fun σ => decide (σ.committed.facts.rows.length = 2)) = true by decide +kernel)
  exact ⟨σ, later_run hrun, active_le_limit (by decide) (later_run hrun), of_decide_eq_true hσ⟩

/-- The first fact comes back by an update: two are active where one may be. -/
theorem cap_exceeded :
    ∃ σ : MemorySys .plain Unit,
      Later (fun _ a => withCap .plain 1 a = true) (Sys.idle Tables.empty) σ ∧ σ.committed.active = 2 := by
  obtain ⟨σ, hrun, hσ⟩ := (Option.any_eq_true _ _).mp (show (Sys.run (fun _ => withCap .plain 1)
    (oneByOne .plain (outAndIn ++
      [(⟨⟨[("max_active".toList, .int 1)], []⟩, .updateFact 1 none none none none [] []⟩, 5)]))
    (Sys.idle Tables.empty)).any (fun σ => decide (σ.committed.active = 2)) = true by decide +kernel)
  exact ⟨σ, later_run hrun, of_decide_eq_true hσ⟩

end CyClaw.Memory

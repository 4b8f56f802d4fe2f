/-
Proposals are resolved once.

`FactChange.Made` says what a change makes of the facts: one row, given by the change and by the
row that was there, and every other row as before.  `Commits` says of each operation what its
transaction makes of the tables.  An apply does all its work with the write lock, so its contract
is followed from the tables it finds (`carryOut_ensures`, `applyProposal_ensures`).

`reject_proposal` turns the row it has written into a proposal after its commit, and that raises
where `json.loads` runs out of recursion: it has then rejected the proposal and raised.  With room
for the payload at the commit (`withRoom`) it does not.
-/
import CyClaw.Memory.Mirror

namespace CyClaw.Memory

open PyText Transactions

/-! ### What is promised -/

/-- The row that a change gives, from the row that is there under its number. -/
def FactChange.Gives (i : Interp) (reason : Text) : FactChange → Option Fact → Fact → Prop
  | .add content category tags confidence source, old, new =>
      old = none ∧ new.active = true ∧ new.content = content ∧
        new.category = (orText category "general".toList).take 64 ∧ checkTags i tags = .ok new.tags ∧
        new.confidence = confidence.clamp 0 1 ∧ new.source = orText source "human".toList ∧
        new.appliedReason = reason ∧ new.contentSha256 = i.sha256 content
  | .update id content category tags confidence, old, new =>
      ∃ row, old = some row ∧ new.id = id ∧ new.active = true ∧ new.content = content.getD row.content ∧
        new.category = (category.getD (orText row.category "general".toList)).take 64 ∧
        (match tags with
          | some tags => checkTags i tags = .ok new.tags
          | none => new.tags = row.tags) ∧
        new.confidence = (confidence.map (PyFloat.clamp 0 1)).getD row.confidence ∧ new.source = row.source ∧
        new.createdAt = row.createdAt ∧ new.contentSha256 = i.sha256 new.content
  | .deactivate id, old, new =>
      ∃ row, old = some row ∧ new.id = id ∧
        new = { row with active := false, updatedAt := new.updatedAt, appliedReason := new.appliedReason }

/-- **One row is changed**, as the change says. -/
def FactChange.Made (i : Interp) (reason : Text) (change : FactChange) (t t' : Facts) : Prop :=
  ∃ new, change.Gives i reason (t.find? new.id) new ∧ t'.find? new.id = some new ∧
    ∀ k, k ≠ new.id → t'.find? k = t.find? k

/-- One proposal is resolved, which was pending. -/
def Resolved (id : ℤ) (status : ProposalStatus) (now reason : Text) (t t' : Proposals) : Prop :=
  ∃ p, t.find? id = some p ∧ p.status = .pending ∧ t'.find? id = some (p.resolved status now reason) ∧
    ∀ k, k ≠ id → t'.find? k = t.find? k

/-- What the transaction of an operation makes of the tables. -/
def Commits (i : Interp) (c : Call) (T T' : Tables) : Prop :=
  match c.op with
  | .insertFact .. => T'.proposals = T.proposals
  | .updateFact .. => T'.proposals = T.proposals
  | .deactivateFact .. => T'.proposals = T.proposals
  | .createProposal .. =>
      T'.facts = T.facts ∧ T'.factsFts = T.factsFts ∧
        ∃ p : MemoryProposal, p.status = .pending ∧ T.proposals.insert? p = some T'.proposals
  | .applyProposal id reason _ resolvedAt _ =>
      Resolved id .applied resolvedAt (strip reason) T.proposals T'.proposals ∧
        ∃ p change, T.proposals.find? id = some p ∧ readPayload i c.cfg p.action p.payload = .ok change ∧
          change.Made i (strip reason) T.facts T'.facts
  | .rejectProposal id reason now _ =>
      T'.facts = T.facts ∧ T'.factsFts = T.factsFts ∧
        Resolved id .rejected now (strip reason) T.proposals T'.proposals

def Operation.resolves : Operation → Bool
  | .applyProposal .. => true
  | .rejectProposal .. => true
  | _ => false

/-- What becomes of a proposal. -/
def MemoryProposal.Becomes (p p' : MemoryProposal) : Prop :=
  p' = p ∨ p.status = .pending ∧ ∃ status now reason, status ≠ .pending ∧ p' = p.resolved status now reason

structure ResolvedOnce {i : Interp} {Client : Type} [DecidableEq Client]
    (allow : MemorySys i Client → Action (memoryService i Client) → Prop) (σ : MemorySys i Client) : Prop where
  /-- From now on a proposal is what it is, or it is pending and is resolved once. -/
  status : ∀ σ' : MemorySys i Client, Later allow σ σ' → ∀ id p, σ.committed.proposals.find? id = some p →
    ∃ p', σ'.committed.proposals.find? id = some p' ∧ p.Becomes p'
  /-- The tables change with a commit, and then as the call that commits says. -/
  steps : ∀ a (σ' : MemorySys i Client), allow σ a → Sys.step a σ = some σ' →
    σ'.committed = σ.committed ∨
      ∃ m r log, a = .next m ∧ σ.running m = some r ∧ σ'.trace = σ.trace ++ [.commit r.id log] ∧
        Commits i r.call σ.committed σ'.committed
  /-- An apply or reject that raises has committed nothing. -/
  raised : ∀ j k m (c : Call) e, σ.event j = some (.start m c) → c.op.resolves = true →
    σ.event k = some (.ret j (.error e)) → ∀ t log, σ.event t ≠ some (.commit j log)

/-! ### The condition -/

/-- A reject that is about to commit has room for the payload of its proposal. -/
def Operation.hasRoom : Operation → Statement memoryDb → Tables → Bool
  | .rejectProposal id _ _ room, .commit, T =>
      (T.proposals.find? id).all fun p => decide ((PyValue.dict p.payload).nesting ≤ room)
  | _, _, _ => true

def withRoom {i : Interp} {Client : Type} [DecidableEq Client] (σ : MemorySys i Client) :
    Action (memoryService i Client) → Bool
  | .next m =>
      match σ.running m with
      | none => true
      | some r => r.prog.next.all fun t => r.call.op.hasRoom t (σ.view m)
  | _ => true

/-- Others do as they like. -/
abbrev anybody (_ _ : Tables) : Prop := True

def storeContract (i : Interp) (c : Call) : Contract memoryDb Outcome where
  needs t T := c.op.hasRoom t T = true
  commits := Commits i c
  returns done b := c.op.resolves = true → (∃ e, b = .error e) → done = false

/-! ### Changing a fact -/

section Facts

variable {i : Interp} {cfg : MemoryConfig} {C : Contract memoryDb Outcome} {saved T T' : Tables} {done : Bool}
  {rely : Tables → Tables → Prop} {reason now : Text}

/-- What a piece of an apply leaves when it is done with the facts. -/
abbrev Changed (i : Interp) (reason : Text) (change : FactChange) (saved T : Tables) (done : Bool) :
    Fact → Stand memoryDb → Bool → Prop :=
  fun _ s d => d = done ∧ ∃ T', s = .locked saved T' ∧ T'.proposals = T.proposals ∧
    change.Made i reason T.facts T'.facts

theorem readBack_ensures (id : ℤ) :
    Work.Ensures rely C (readBack id) (.locked saved T) done (fun _ s d => s = .locked saved T ∧ d = done)
      fun _ _ d => d = done := by
  refine Work.ensures_bind Work.ensures_ask_locked ?_
  rintro row s d ⟨-, rfl, rfl⟩
  cases row with
  | none => exact Work.ensures_throw rfl
  | some row => exact Work.ensures_pure ⟨rfl, rfl⟩

theorem checkActive_locked :
    Work.Ensures rely C (checkActive i cfg) (.locked saved T) done (fun _ s d => s = .locked saved T ∧ d = done)
      fun _ _ d => d = done := by
  refine Work.ensures_bind Work.ensures_lift_eq ?_
  rintro limit s d ⟨-, rfl, rfl⟩
  cases limit with
  | none => exact Work.ensures_pure ⟨rfl, rfl⟩
  | some limit =>
    refine Work.ensures_bind Work.ensures_ask_locked ?_
    rintro count s d ⟨-, rfl, rfl⟩
    split
    · exact Work.ensures_throw rfl
    · exact Work.ensures_pure ⟨rfl, rfl⟩

/-- After the statement the row is read back, and that changes nothing. -/
theorem changed_readBack {change : FactChange} {s : Stand memoryDb} {d : Bool} (id : ℤ)
    (h : ∃ T', s = .locked saved T' ∧ T'.proposals = T.proposals ∧ change.Made i reason T.facts T'.facts)
    (hd : d = done) :
    Work.Ensures rely C (readBack id) s d (Changed i reason change saved T done) fun _ _ d => d = done := by
  obtain ⟨T', rfl, hproposals, hmade⟩ := h
  subst hd
  refine (readBack_ensures id).mono ?_ fun _ _ _ h => h
  rintro _ _ _ ⟨rfl, rfl⟩
  exact ⟨rfl, T', rfl, hproposals, hmade⟩

theorem insertFactConn_ensures (content category : Text) (tags : List PyValue) (confidence : PyFloat) (source : Text) :
    Work.Ensures rely C (insertFactConn i cfg content category tags (.float confidence) source reason now)
      (.locked saved T) done (Changed i reason (.add content category tags confidence source) saved T done)
      fun _ _ d => d = done := by
  refine Work.ensures_bind Work.ensures_lift_eq ?_
  rintro _ s d ⟨-, rfl, rfl⟩
  refine Work.ensures_bind Work.ensures_lift_eq ?_
  rintro cleaned s d ⟨htags, rfl, rfl⟩
  refine Work.ensures_bind Work.ensures_lift_eq ?_
  rintro conf s d ⟨hconf, rfl, rfl⟩
  have hconf : conf = confidence.clamp 0 1 := by
    simpa [confidenceOf, converted, PyValue.toFloat, Except.map, eq_comm] using hconf
  refine Work.ensures_bind checkActive_locked ?_
  rintro _ s d ⟨rfl, rfl⟩
  refine Work.ensures_bind Work.ensures_write_locked ?_
  rintro n s d ⟨T', hw, rfl, rfl⟩
  obtain ⟨-, hinserted⟩ := insertFact_ok hw
  refine changed_readBack _ ⟨T', rfl, hinserted.proposals, ?_⟩ rfl
  refine ⟨_, ⟨(Table.insert?_eq_some hinserted.facts).2, rfl, rfl, rfl, htags, hconf, rfl, rfl, rfl⟩, ?_, ?_⟩
  · rw [Table.find?_insert hinserted.facts, if_pos rfl]
  · intro k hk
    rw [Table.find?_insert hinserted.facts, if_neg (Ne.symm hk)]

/-- An `UPDATE` of a fact that is there changes it alone. -/
theorem made_of_updated {change : FactChange} {id : ℤ} {set : Fact → Fact} {old : Fact} (h : FactUpdated T T' id set old)
    (hset : ∀ f, (set f).id = f.id) (hgives : change.Gives i reason (some old) (set old)) :
    change.Made i reason T.facts T'.facts := by
  have hid : (set old).id = id := (hset old).trans (Table.find?_eq_some.mp h.found).2
  refine ⟨set old, ?_, ?_, ?_⟩
  · rw [hid, h.found]
    exact hgives
  · rw [hid, h.find?, if_pos rfl]
  · intro k hk
    rw [hid] at hk
    rw [h.find?, if_neg hk]

theorem updateFactConn_ensures (id : ℤ) (content category : Option Text) (tags : Option (List PyValue))
    (confidence : Option PyFloat) :
    Work.Ensures rely C (updateFactConn i cfg id content category tags (confidence.map PyValue.float) reason now)
      (.locked saved T) done (Changed i reason (.update id content category tags confidence) saved T done)
      fun _ _ d => d = done := by
  refine Work.ensures_bind Work.ensures_ask_locked ?_
  rintro row s d ⟨hrow, rfl, rfl⟩
  cases row with
  | none => exact Work.ensures_throw rfl
  | some row =>
    have hrow : T.facts.find? id = some row := hrow.symm
    refine Work.ensures_bind Work.ensures_lift_eq ?_
    rintro _ s d ⟨-, rfl, rfl⟩
    refine Work.ensures_bind Work.ensures_lift_eq ?_
    rintro newTags s d ⟨htags, rfl, rfl⟩
    refine Work.ensures_bind Work.ensures_lift_eq ?_
    rintro newConf s d ⟨hconf, rfl, rfl⟩
    refine Work.ensures_bind Work.ensures_write_locked ?_
    rintro n s d ⟨T', hw, rfl, rfl⟩
    rcases updateFact_ok hw with ⟨hnone, -, -⟩ | ⟨old, -, hupdated⟩
    · rw [hrow] at hnone
      cases hnone
    · obtain rfl : row = old := Option.some.inj (hrow.symm.trans hupdated.found)
      refine changed_readBack _ ⟨T', rfl, hupdated.proposals, made_of_updated hupdated (fun _ => rfl) ?_⟩ rfl
      refine ⟨row, rfl, (Table.find?_eq_some.mp hrow).2, rfl, rfl, rfl, ?_, ?_, rfl, rfl, rfl⟩
      · cases tags with
        | none =>
          show newTags = row.tags
          simpa [rowToFact, eq_comm] using htags
        | some tags => exact htags
      · show newConf = _
        cases confidence with
        | none => simpa [rowToFact, eq_comm] using hconf
        | some x => simpa [confidenceOf, converted, PyValue.toFloat, Except.map, eq_comm] using hconf

theorem deactivateFactConn_ensures (id : ℤ) :
    Work.Ensures rely C (deactivateFactConn id reason now) (.locked saved T) done
      (Changed i reason (.deactivate id) saved T done) fun _ _ d => d = done := by
  refine Work.ensures_bind Work.ensures_ask_locked ?_
  rintro row s d ⟨hrow, rfl, rfl⟩
  cases row with
  | none => exact Work.ensures_throw rfl
  | some row =>
    have hrow : T.facts.find? id = some row := hrow.symm
    refine Work.ensures_bind Work.ensures_write_locked ?_
    rintro n s d ⟨T', hw, rfl, rfl⟩
    rcases updateFact_ok hw with ⟨hnone, -, -⟩ | ⟨old, -, hupdated⟩
    · rw [hrow] at hnone
      cases hnone
    · obtain rfl : row = old := Option.some.inj (hrow.symm.trans hupdated.found)
      refine changed_readBack _ ⟨T', rfl, hupdated.proposals, made_of_updated hupdated (fun _ => rfl) ?_⟩ rfl
      exact ⟨row, rfl, (Table.find?_eq_some.mp hrow).2, rfl⟩

/-- **What a payload asks for is done**, to one row. -/
theorem carryOut_ensures (change : FactChange) :
    Work.Ensures rely C (carryOut i cfg change reason now) (.locked saved T) done (Changed i reason change saved T done)
      fun _ _ d => d = done := by
  cases change with
  | add => exact insertFactConn_ensures _ _ _ _ _
  | update => exact updateFactConn_ensures _ _ _ _ _
  | deactivate => exact deactivateFactConn_ensures _

end Facts

/-! ### The operations -/

section Operations

variable {i : Interp} {cfg : MemoryConfig} {T : Tables}

/-- The statement that resolves a proposal. -/
theorem resolve_ok {T T' : Tables} {status : ProposalStatus} {now reason : Text} {id : ℤ}
    (h : (Write.resolve status now reason id).apply T = .ok (1, T')) :
    T'.facts = T.facts ∧ T'.factsFts = T.factsFts ∧ Resolved id status now reason T.proposals T'.proposals := by
  simp only [Write.apply, Except.ok.injEq, Prod.mk.injEq] at h
  obtain ⟨hcount, rfl⟩ := h
  refine ⟨rfl, rfl, ?_⟩
  have hkey : ∀ p : MemoryProposal, p.isPending id = true → p.id = id := by
    intro p hp
    simp only [MemoryProposal.isPending, Bool.and_eq_true, decide_eq_true_eq] at hp
    exact hp.1
  obtain ⟨p, hp, hpending⟩ := (Table.count_pos_of_key hkey).mp (by omega : 0 < T.proposals.count (MemoryProposal.isPending id))
  have hstatus : p.status = .pending := by
    simp only [MemoryProposal.isPending, Bool.and_eq_true, decide_eq_true_eq] at hpending
    exact hpending.2
  refine ⟨p, hp, hstatus, ?_, ?_⟩
  · rw [Table.find?_update, hp]
    simp [hpending]
  · intro k hk
    rw [Table.find?_update]
    cases hfind : T.proposals.find? k with
    | none => rfl
    | some q =>
      have hne : q.isPending id = false := by
        by_contra hq
        have hid := hkey q (by simpa using hq)
        exact hk ((Table.find?_eq_some.mp hfind).2.symm.trans hid)
      simp [hne]

/-- From `BEGIN IMMEDIATE` on, the tables are those it has found. -/
theorem beginImmediate_ensures {c : Call} {d : Bool} :
    Work.Ensures anybody (storeContract i c) (write .begin) (.free T) d
      (fun _ s d' => d' = d ∧ ∃ T : Tables, s = .locked T T) fun _ _ d' => d' = d := by
  refine Work.ensures_write ?_ fun _ _ => rfl
  intro s n T' hmoves _ hw
  cases hmoves with
  | free h =>
    simp only [Write.apply, Except.ok.injEq, Prod.mk.injEq] at hw
    refine ⟨rfl, T', ?_⟩
    rw [Stand.write, ← hw.2]
    rfl

/-- A call that has not committed may return what it likes. -/
theorem returns_uncommitted {c : Call} {b : Outcome} {d : Bool} (hd : d = false) : (storeContract i c).returns d b :=
  fun _ _ => hd

theorem meets_applyProposal {c : Call} {id : ℤ} {reason now resolvedAt : Text} {room : ℕ}
    (hc : c.op = .applyProposal id reason now resolvedAt room) :
    Meets anybody (storeContract i c) (Work.run (applyProposal i c.cfg id reason now resolvedAt room)) (.free T) false := by
  refine Work.meets_run (Q := fun b s _ => s = .free s.saved ∧ True) (E := fun _ _ d => d = false) ?_ ?_
    fun _ _ _ hd => returns_uncommitted hd
  · refine Work.ensures_bind Work.ensures_lift_eq ?_
    rintro _ s d ⟨-, rfl, rfl⟩
    refine Work.ensures_bind beginImmediate_ensures ?_
    rintro _ s d ⟨rfl, T, rfl⟩
    refine Work.ensures_bind Work.ensures_ask_locked ?_
    rintro row s d ⟨hrow, rfl, rfl⟩
    cases row with
    | none => exact Work.ensures_throw rfl
    | some row =>
      have hrow : T.proposals.find? id = some row := hrow.symm
      show Work.Ensures _ _ (if row.status = .pending then _ else _) _ _ _ _
      split
      · refine Work.ensures_bind Work.ensures_lift_eq ?_
        rintro prop s d ⟨hprop, rfl, rfl⟩
        obtain rfl : row = prop := by
          unfold rowToProposal at hprop
          split at hprop
          · cases hprop
          · exact Except.ok.inj hprop
        refine Work.ensures_bind Work.ensures_lift_eq ?_
        rintro change s d ⟨hchange, rfl, rfl⟩
        refine Work.ensures_bind (carryOut_ensures change) ?_
        rintro fact s d ⟨rfl, T₁, rfl, hproposals, hmade⟩
        refine Work.ensures_bind Work.ensures_write_locked ?_
        rintro touched s d ⟨T₂, hw, rfl, rfl⟩
        show Work.Ensures _ _ (if touched = 1 then _ else _) _ _ _ _
        split
        · rename_i htouched
          subst htouched
          obtain ⟨hfacts, -, hresolved⟩ := resolve_ok hw
          rw [hproposals] at hresolved
          rw [← hfacts] at hmade
          refine Work.ensures_bind (Q := fun _ s _ => s = .free s.saved) ?_ fun _ s d hs => Work.ensures_pure ⟨hs, trivial⟩
          refine Work.ensures_commit ?_ fun _ _ => rfl
          intro s hmoves _
          rw [hmoves.of_locked]
          refine ⟨?_, rfl⟩
          rintro _ _ ⟨rfl⟩
          show Commits i c T T₂
          unfold Commits
          rw [hc]
          exact ⟨hresolved, row, change, hrow, hchange, hmade⟩
        · exact Work.ensures_throw rfl
      · exact Work.ensures_throw rfl
  · intro b s d hs
    refine ⟨hs.1, ?_⟩
    rintro _ ⟨e, he⟩
    cases he

theorem meets_rejectProposal {c : Call} {id : ℤ} {reason now : Text} {room : ℕ}
    (hc : c.op = .rejectProposal id reason now room) :
    Meets anybody (storeContract i c) (Work.run (rejectProposal id reason now room)) (.free T) false := by
  refine Work.meets_run (Q := fun b s _ => s = .free s.saved ∧ True) (E := fun _ _ d => d = false) ?_ ?_
    fun _ _ _ hd => returns_uncommitted hd
  · refine Work.ensures_bind Work.ensures_lift_eq ?_
    rintro _ s d ⟨-, rfl, rfl⟩
    refine Work.ensures_bind beginImmediate_ensures ?_
    rintro _ s d ⟨rfl, T, rfl⟩
    refine Work.ensures_bind Work.ensures_write_locked ?_
    rintro touched s d ⟨T', hw, rfl, rfl⟩
    refine Work.ensures_bind Work.ensures_ask_locked ?_
    rintro row s d ⟨hrow, rfl, rfl⟩
    cases row with
    | none => exact Work.ensures_throw rfl
    | some row =>
      have hrow : T'.proposals.find? id = some row := hrow.symm
      show Work.Ensures _ _ (if touched = 1 then _ else _) _ _ _ _
      split
      · rename_i htouched
        subst htouched
        -- The commit leaves a proposal whose payload there is room for.
        refine Work.ensures_bind (Q := fun _ s _ => s = .free s.saved ∧ rowToProposal room row = .ok row) ?_ ?_
        · refine Work.ensures_commit ?_ fun _ _ => rfl
          intro s hmoves hneeds
          rw [hmoves.of_locked] at hneeds ⊢
          refine ⟨?_, rfl, ?_⟩
          · rintro _ _ ⟨rfl⟩
            show Commits i c T T'
            unfold Commits
            rw [hc]
            exact resolve_ok hw
          · have hroom : (PyValue.dict row.payload).nesting ≤ room := by
              have hneeds : c.op.hasRoom .commit T' = true := hneeds
              rw [hc] at hneeds
              simpa [Operation.hasRoom, hrow] using hneeds
            unfold rowToProposal
            rw [if_neg (by omega)]
        · rintro _ s d ⟨hs, hread⟩
          rw [hread]
          exact Work.ensures_pure ⟨hs, trivial⟩
      · exact Work.ensures_throw rfl
  · intro b s d hs
    refine ⟨hs.1, ?_⟩
    rintro _ ⟨e, he⟩
    cases he

/-! The other operations do not touch what is there of the proposals. -/

/-- The proposals are those that are committed. -/
def SameProposals (s : Stand memoryDb) : Prop := s.view.proposals = s.saved.proposals

/-- A piece of a call that is not about proposals. -/
abbrev Spares (c : Call) (i : Interp) (shut shut' : Bool) {α : Type} (x : Job α) : Prop :=
  Work.Keeps anybody (storeContract i c) SameProposals shut shut' x

variable {c : Call} {shut shut' : Bool}

theorem stays_sameProposals : Work.Stays anybody SameProposals := by
  intro s s' hs hmoves
  cases hmoves with
  | free _ => exact rfl
  | locked => exact hs

theorem spares_write {w : Write} (hw : ∀ T n T', w.apply T = .ok (n, T') → T'.proposals = T.proposals) :
    Spares c i shut false (write w) := by
  refine Work.keeps_write stays_sameProposals ?_
  intro s n T hs _ happly
  exact (hw _ _ _ happly).trans hs

theorem spares_commit (hc : ∀ T T', Commits i c T T' ↔ T'.proposals = T.proposals) :
    Spares c i shut true (Work.commit : Job Unit) := by
  refine Work.keeps_commit stays_sameProposals ?_
  intro s hs _
  refine ⟨?_, rfl⟩
  rintro saved T rfl
  exact (hc saved T).mpr hs

theorem proposals_updateFact {T T' : Tables} {n : ℕ} {id : ℤ} {set : Fact → Fact} {hset : ∀ f, (set f).id = f.id}
    (h : T.updateFact id set hset = .ok (n, T')) : T'.proposals = T.proposals := by
  rcases updateFact_ok h with ⟨-, -, rfl⟩ | ⟨old, -, hupdated⟩
  · rfl
  · exact hupdated.proposals

theorem spares_insertFactConn (content category : Text) (tags : List PyValue) (confidence : PyValue)
    (source reason now : Text) :
    Spares c i shut false (insertFactConn i cfg content category tags confidence source reason now) := by
  refine Work.keeps_bind (Work.keeps_lift _) fun _ => Work.keeps_bind (Work.keeps_lift _) fun cleaned =>
    Work.keeps_bind (Work.keeps_lift _) fun conf => ?_
  have hcheck : Spares c i shut shut (checkActive i cfg) := by
    refine Work.keeps_bind (Work.keeps_lift _) fun limit => ?_
    cases limit with
    | none => exact Work.keeps_pure _
    | some limit =>
      refine Work.keeps_bind (Work.keeps_ask stays_sameProposals _) fun count => ?_
      split
      · exact Work.keeps_throw _
      · exact Work.keeps_pure _
  refine Work.keeps_bind hcheck fun _ => Work.keeps_bind (spares_write ?_) fun id => keeps_readBack stays_sameProposals _
  intro T n T' hw
  exact (insertFact_ok hw).2.proposals

theorem meets_spares (hc : c.op.resolves = false) {x : Job Value} (hx : Spares c i false true x) :
    Meets anybody (storeContract i c) (Work.run x) (.free T) false := by
  refine Work.meets_keeps hx rfl (by simp) ?_
  intro d b hresolves
  rw [hc] at hresolves
  cases hresolves

theorem insertProposal_ok {T T' : Tables} {n : ℕ} {action : ProposalAction} {payload : Payload} {reason : Text}
    {flags : List Text} {now : Text} (h : (Write.insertProposal action payload reason flags now).apply T = .ok (n, T')) :
    T'.facts = T.facts ∧ T'.factsFts = T.factsFts ∧
      ∃ p : MemoryProposal, p.status = .pending ∧ T.proposals.insert? p = some T'.proposals := by
  simp only [Write.apply] at h
  split at h
  · rename_i proposals hinsert
    simp only [Except.ok.injEq, Prod.mk.injEq] at h
    obtain ⟨-, rfl⟩ := h
    exact ⟨rfl, rfl, _, rfl, hinsert⟩
  · cases h

/-- Once it has committed, a `create_proposal` may do what it likes. -/
theorem meets_createProposal {action : Text} {payload : Payload} {reason now : Text} {room : ℕ}
    (hc : c.op = .createProposal action payload reason now room) :
    Meets anybody (storeContract i c) (Work.run (createProposal i c.cfg action payload reason now room)) (.free T) false := by
  have hreturns : ∀ d b, (storeContract i c).returns d b := by
    intro d b hresolves
    rw [hc] at hresolves
    cases hresolves
  refine Work.meets_run (Q := fun _ s _ => s = .free s.saved) (E := fun _ _ _ => True) ?_
    (fun b s d hs => ⟨hs, hreturns d _⟩) fun _ _ d _ => hreturns d _
  refine Work.ensures_bind (Q := fun _ s _ => s = .free T) (Work.ensures_lift (fun _ _ => rfl) fun _ _ => trivial) ?_
  rintro _ _ d rfl
  cases ProposalAction.ofText action with
  | none => exact Work.ensures_throw trivial
  | some action =>
    refine Work.ensures_bind (Q := fun _ s _ => ∃ saved T', s = .locked saved T' ∧ Commits i c saved T') ?_ ?_
    · refine Work.ensures_write ?_ fun _ _ => trivial
      intro s n T' hmoves _ hw
      cases hmoves with
      | @free _ T₁ _ =>
        refine ⟨T₁, T', rfl, ?_⟩
        unfold Commits
        rw [hc]
        exact insertProposal_ok hw
    · rintro id _ d ⟨saved, T', rfl, hcommits⟩
      refine Work.ensures_bind (Q := fun _ s _ => s = .free s.saved) ?_ ?_
      · refine Work.ensures_commit ?_ fun _ _ => trivial
        intro s hmoves _
        rw [hmoves.of_locked]
        refine ⟨?_, rfl⟩
        rintro _ _ ⟨rfl⟩
        exact hcommits
      · intro _ s d hs
        refine Work.ensures_bind (Q := fun _ s _ => s = .free s.saved) ?_ ?_
        · refine Work.ensures_ask fun s' hmoves => ⟨?_, fun _ => trivial⟩
          cases hmoves with
          | free _ => rfl
          | locked => exact hs
        · intro row s d hs
          cases row with
          | none => exact Work.ensures_throw trivial
          | some row =>
            exact Work.ensures_bind (Q := fun _ s _ => s = .free s.saved)
              (Work.ensures_lift (fun _ _ => hs) fun _ _ => trivial) fun _ _ _ hs => Work.ensures_pure hs

/-- **Every operation meets its contract**, whatever the others commit meanwhile. -/
theorem meets_store (c : Call) (T : Tables) : Meets anybody (storeContract i c) (Work.run (c.op.job i c.cfg)) (.free T) false := by
  obtain ⟨cfg, op⟩ := c
  cases op with
  | insertFact =>
    exact meets_spares rfl (keeps_committed (spares_insertFactConn ..) (spares_commit fun _ _ => Iff.rfl))
  | updateFact id content category tags confidence reason now =>
    have hspares : Spares ⟨cfg, .updateFact id content category tags confidence reason now⟩ i false false
        (updateFactConn i cfg id content category tags confidence reason now) := by
      refine keeps_updateFactConn i cfg stays_sameProposals ?_ ..
      intros
      exact spares_write fun _ _ _ hw => proposals_updateFact hw
    exact meets_spares rfl (keeps_committed hspares (spares_commit fun _ _ => Iff.rfl))
  | deactivateFact id reason now =>
    have hspares : Spares ⟨cfg, .deactivateFact id reason now⟩ i false false (deactivateFactConn id reason now) := by
      refine keeps_deactivateFactConn stays_sameProposals ?_ ..
      intros
      exact spares_write fun _ _ _ hw => proposals_updateFact hw
    exact meets_spares rfl (keeps_committed hspares (spares_commit fun _ _ => Iff.rfl))
  | createProposal => exact meets_createProposal rfl
  | applyProposal => exact meets_applyProposal rfl
  | rejectProposal => exact meets_rejectProposal rfl

end Operations

/-! ### Runs -/

section Runs

variable {i : Interp} {Client : Type} [DecidableEq Client] {σ σ' : MemorySys i Client}

theorem serves_store : Serves anybody (storeContract i) (fun _ => True)
    (fun (σ : MemorySys i Client) a => withRoom σ a = true) where
  granted := by
    rintro σ a hallow m r t rfl hr ht
    show r.call.op.hasRoom t (σ.view m) = true
    simpa [withRoom, hr, ht] using hallow
  start := fun _ _ => meets_store _ _
  rely := fun _ _ _ _ _ _ _ => trivial
  keeps := fun _ _ _ _ _ => trivial

theorem MemoryProposal.Becomes.trans {p p' p'' : MemoryProposal} (h : p.Becomes p') (h' : p'.Becomes p'') : p.Becomes p'' := by
  rcases h with rfl | ⟨hpending, status, now, reason, hstatus, rfl⟩
  · exact h'
  · rcases h' with rfl | ⟨hpending', -⟩
    · exact Or.inr ⟨hpending, status, now, reason, hstatus, rfl⟩
    · exact (hstatus hpending').elim

theorem Resolved.becomes {id : ℤ} {status : ProposalStatus} {now reason : Text} {t t' : Proposals}
    (h : Resolved id status now reason t t') (hstatus : status ≠ .pending) (k : ℤ) (p : MemoryProposal)
    (hp : t.find? k = some p) : ∃ p', t'.find? k = some p' ∧ p.Becomes p' := by
  obtain ⟨q, hq, hpending, hresolved, hothers⟩ := h
  by_cases hk : k = id
  · subst hk
    obtain rfl : q = p := Option.some.inj (hq.symm.trans hp)
    exact ⟨_, hresolved, Or.inr ⟨hpending, status, now, reason, hstatus, rfl⟩⟩
  · exact ⟨p, (hothers k hk).trans hp, Or.inl rfl⟩

/-- **What one transaction makes of a proposal.** -/
theorem Commits.becomes {c : Call} {T T' : Tables} (h : Commits i c T T') (k : ℤ) (p : MemoryProposal)
    (hp : T.proposals.find? k = some p) : ∃ p', T'.proposals.find? k = some p' ∧ p.Becomes p' := by
  have hsame : T'.proposals = T.proposals → ∃ p', T'.proposals.find? k = some p' ∧ p.Becomes p' := by
    intro heq
    exact ⟨p, by rw [heq, hp], Or.inl rfl⟩
  unfold Commits at h
  split at h
  · exact hsame h
  · exact hsame h
  · exact hsame h
  · obtain ⟨-, -, new, -, hinsert⟩ := h
    exact ⟨p, Table.find?_insert_of_some hinsert hp, Or.inl rfl⟩
  · exact h.1.becomes (by simp) k p hp
  · exact h.2.2.becomes (by simp) k p hp

/-- **Proposals are resolved once**, in a run in which every reject has room where it commits. -/
theorem proposals_resolved_once (h : Later (fun σ a => withRoom σ a = true) (Sys.idle Tables.empty) σ) :
    ResolvedOnce (fun σ a => withRoom σ a = true) σ where
  status := by
    intro σ' hlater id p hp
    induction hlater with
    | refl => exact ⟨p, hp, Or.inl rfl⟩
    | @tail σ₁ σ₂ hbefore hnext ih =>
      obtain ⟨p₁, hp₁, hbecomes⟩ := ih
      obtain ⟨a, ha, hstep⟩ := hnext
      have hmeeting := (serves_store.later trivial (h.trans hbefore)).2
      rcases hmeeting.committed (stepped hstep) (serves_store.granted ha) with heq | ⟨m, r, -, -, -, hcommits⟩
      · exact ⟨p₁, by rw [heq]; exact hp₁, hbecomes⟩
      · obtain ⟨p₂, hp₂, hbecomes₂⟩ := Commits.becomes hcommits id p₁ hp₁
        exact ⟨p₂, hp₂, hbecomes.trans hbecomes₂⟩
  steps := by
    intro a σ' ha hstep
    have hmeeting := (serves_store.later trivial h).2
    rcases hmeeting.committed (stepped hstep) (serves_store.granted ha) with heq | ⟨m, r, ham, hr, htrace, hcommits⟩
    · exact Or.inl heq
    · exact Or.inr ⟨m, r, _, ham, hr, htrace, hcommits⟩
  raised := by
    intro j k m c e hstart hresolves hret
    obtain ⟨done, hreturns, hcommitted⟩ := serves_store.returned trivial h hstart hret
    exact hcommitted (hreturns hresolves ⟨e, rfl⟩)

end Runs

/-! ### A payload that is too deep -/

/-- A proposal is made, and rejected with this much room. -/
def madeAndRejected (room turns : ℕ) : List (Call × ℕ) :=
  let cfg : MemoryConfig := ⟨[], []⟩
  [(⟨cfg, .createProposal "add_fact".toList [("content".toList, .list [.list []])] "because".toList [] 9⟩, 4),
    (⟨cfg, .rejectProposal 1 "no".toList [] room⟩, turns)]

theorem proposals_resolved_once_rejected :
    ∃ σ : MemorySys .plain Unit, Later (fun σ a => withRoom σ a = true) (Sys.idle Tables.empty) σ ∧
      ResolvedOnce (fun σ a => withRoom σ a = true) σ ∧
      σ.committed.proposals.rows.map MemoryProposal.status = [.rejected] := by
  obtain ⟨σ, hrun, hσ⟩ := (Option.any_eq_true _ _).mp (show (Sys.run withRoom (oneByOne .plain (madeAndRejected 3 5))
    (Sys.idle Tables.empty)).any (fun σ =>
      decide (σ.committed.proposals.rows.map MemoryProposal.status = [.rejected])) = true by decide +kernel)
  exact ⟨σ, later_run hrun, proposals_resolved_once (later_run hrun), of_decide_eq_true hσ⟩

/-- The fifth event starts a reject, the seventh commits it and the eighth raises. -/
def rejectedAndRaised (σ : MemorySys .plain Unit) : Bool :=
  match σ.event 4, σ.event 6, σ.event 7 with
  | some (.start _ c), some (.commit 4 _), some (.ret 4 (.error e)) =>
      c.op.resolves && e = .conversion .recursionError &&
        decide (σ.committed.proposals.rows.map MemoryProposal.status = [.rejected])
  | _, _, _ => false

/-- With room for two levels of three, the proposal is rejected and the reject raises. -/
theorem rejected_and_raised :
    ∃ σ : MemorySys .plain Unit, Later (fun _ _ => True) (Sys.idle Tables.empty) σ ∧
      σ.committed.proposals.rows.map MemoryProposal.status = [.rejected] ∧ ¬ ResolvedOnce (fun _ _ => True) σ := by
  obtain ⟨σ, hrun, hσ⟩ := (Option.any_eq_true _ _).mp (show (Sys.run (fun _ _ => true)
    (oneByOne .plain (madeAndRejected 2 6)) (Sys.idle Tables.empty)).any rejectedAndRaised = true by decide +kernel)
  unfold rejectedAndRaised at hσ
  split at hσ
  · rename_i m c log e hstart hcommit hret
    simp only [Bool.and_eq_true, decide_eq_true_eq] at hσ
    refine ⟨σ, later_mono (fun _ _ _ => trivial) (later_run hrun), hσ.2, ?_⟩
    intro honce
    exact honce.raised 4 7 m c e hstart hσ.1.1 hret 6 log hcommit
  · cases hσ

end CyClaw.Memory

/-
The operations of `memory/store.py`, with the checks of `memory/policy.py`.

Every operation has a connection of its own and works inside `_write_lock`, which is left out:
the database alone says who has to wait.  Any statement may raise, and so may the making of its
arguments; what is raised leads through the `except Exception` of the operation, which rolls
back.  What is raised before the connection is there finds nothing to roll back.

`room` is how deep the recursion of `json.loads` may still go where an operation is called.
-/
import CyClaw.Memory.Tables

namespace CyClaw.Memory

open PyText Transactions

/-- `cfg["memory"]["facts"]`, and the patterns of the prompt filter. -/
structure MemoryConfig where
  facts : List (Text × PyValue)
  bannedPatterns : List Text

/-- What the store uses of other modules. -/
structure Interp where
  formats : PyValue.Formats
  sha256 : Text → Text
  /-- `scan_content`: the patterns that a content matches. -/
  scanContent : MemoryConfig → Bool → Text → List Text

inductive Value where
  | fact (f : Fact)
  | proposal (p : MemoryProposal)
  | applied (action : ProposalAction) (factId proposalId : ℤ)

abbrev Outcome := Except MemoryError Value

abbrev Job (α : Type) := Work memoryDb Outcome α

abbrev ask (q : Query) : Job q.Res := Work.ask (D := memoryDb) q

abbrev write (w : Write) : Job ℕ := Work.write (D := memoryDb) w

/-- `x or default`. -/
def orText (t default : Text) : Text := if t = [] then default else t

def decimal (n : ℤ) : Text := (toString n).toList

def converted {α : Type} : Except PyError α → Except MemoryError α
  | .ok a => .ok a
  | .error e => .error (.conversion e)

section Checks

variable (i : Interp) (cfg : MemoryConfig)

/-! ### `policy.py` -/

def requireReason (reason : Text) : Except MemoryError Unit :=
  if strip reason = [] then .error (.valueError "reason must not be empty".toList) else .ok ()

def enforceContent (content : Text) : Except MemoryError Unit :=
  match i.scanContent cfg true content with
  | [] => .ok ()
  | flags => .error (.promptInjection flags)

def checkContentSize (content : Text) : Except MemoryError Unit :=
  match PyValue.toInt i.formats ((PyValue.get cfg.facts "max_content_chars").getD (.int 8192)) with
  | .error e => .error (.conversion e)
  | .ok maxChars =>
      if strip content = [] then .error (.valueError "fact content must not be empty".toList)
      else if maxChars < content.length then
        .error (.valueError ("fact content exceeds max_content_chars=".toList ++ decimal maxChars))
      else .ok ()

/-- The loop of `check_tags`. -/
def cleanTags : List PyValue → Except MemoryError (List Text)
  | [] => .ok []
  | t :: ts =>
      let s := strip (t.text i.formats)
      if s = [] then cleanTags ts
      else if 64 < s.length then .error (.valueError "tag exceeds max length 64".toList)
      else (cleanTags ts).map (s :: ·)

def checkTags (tags : List PyValue) : Except MemoryError (List Text) :=
  (cleanTags i tags).bind fun cleaned =>
    if 32 < cleaned.length then .error (.valueError "too many tags (max 32)".toList) else .ok cleaned

/-! ### `store.py` -/

def maxActiveFacts : Except MemoryError (Option ℤ) :=
  match PyValue.get cfg.facts "max_active" with
  | none => .ok none
  | some .none => .ok none
  | some raw =>
      match raw.toInt i.formats with
      | .ok limit => .ok (if limit < 1 then none else some limit)
      | .error .typeError => .ok none
      | .error .valueError => .ok none
      | .error e => .error (.conversion e)

/-- `max(0.0, min(1.0, float(confidence)))`. -/
def confidenceOf (confidence : PyValue) : Except MemoryError ℚ :=
  (converted (confidence.toFloat i.formats)).map (PyFloat.clamp 0 1)

/-- `_row_to_fact`. -/
def rowToFact (row : Fact) : Fact :=
  { row with category := orText row.category "general".toList, source := orText row.source "human".toList }

/-- `_row_to_proposal`: of what `json.loads` may raise, only malformed text is caught. -/
def rowToProposal (room : ℕ) (row : MemoryProposal) : Except MemoryError MemoryProposal :=
  if room < (PyValue.dict row.payload).nesting then .error (.conversion .recursionError) else .ok row

end Checks

section Operations

variable (i : Interp) (cfg : MemoryConfig)

/-- `int(fact_id)`, read back after it was written. -/
def readBack (id : ℤ) : Job Fact := do
  match ← ask (.fact id) with
  | none => Work.throw .rowMissing
  | some row => pure (rowToFact row)

/-- The cap of `_insert_fact_conn`. -/
def checkActive : Job Unit := do
  match ← Work.lift (maxActiveFacts i cfg) with
  | none => pure ()
  | some limit =>
      let count : ℕ ← ask .countActive
      if limit ≤ count then
        Work.throw (.valueError ("active fact limit reached (".toList ++ decimal limit ++ ")".toList))
      else pure ()

def insertFactConn (content category : Text) (tags : List PyValue) (confidence : PyValue)
    (source reason now : Text) : Job Fact := do
  Work.lift (checkContentSize i cfg content)
  let cleaned ← Work.lift (checkTags i tags)
  let conf ← Work.lift (confidenceOf i confidence)
  checkActive i cfg
  let id ← write (.insertFact content ((orText category "general".toList).take 64) cleaned conf
    (orText source "human".toList) now reason (i.sha256 content))
  readBack id

def updateFactConn (id : ℤ) (content category : Option Text) (tags : Option (List PyValue))
    (confidence : Option PyValue) (reason now : Text) : Job Fact := do
  match ← ask (.fact id) with
  | none => Work.throw (.valueError ("fact ".toList ++ decimal id ++ " not found".toList))
  | some row =>
      let existing := rowToFact row
      let newContent := content.getD existing.content
      Work.lift (checkContentSize i cfg newContent)
      let newTags ← Work.lift (match tags with
        | some tags => checkTags i tags
        | none => .ok existing.tags)
      let newConf ← Work.lift (match confidence with
        | some confidence => confidenceOf i confidence
        | none => .ok existing.confidence)
      let _ ← write (.updateFact id newContent ((category.getD existing.category).take 64) newTags newConf now
        (orText reason existing.appliedReason) (i.sha256 newContent))
      readBack id

def deactivateFactConn (id : ℤ) (reason now : Text) : Job Fact := do
  match ← ask (.fact id) with
  | none => Work.throw (.valueError ("fact ".toList ++ decimal id ++ " not found".toList))
  | some existing =>
      let _ ← write (.deactivateFact id now (orText reason existing.appliedReason))
      readBack id

/-- The end of `insert_fact`, `update_fact` and `deactivate_fact`. -/
def committed (x : Job Fact) : Job Value := do
  let fact ← x
  Work.commit
  pure (.fact fact)

def ProposalAction.ofText (action : Text) : Option ProposalAction :=
  if action = "add_fact".toList then some .addFact
  else if action = "update_fact".toList then some .updateFact
  else if action = "deactivate_fact".toList then some .deactivateFact
  else none

def createProposal (action : Text) (payload : Payload) (reason now : Text) (room : ℕ) : Job Value := do
  Work.lift (requireReason reason)
  match ProposalAction.ofText action with
  | none => Work.throw (.valueError ("invalid action: ".toList ++ action))
  | some action =>
      let content := (PyValue.orElse (PyValue.get payload "content") (.str [])).text i.formats
      let flags := if content = [] then [] else i.scanContent cfg false content
      let id : ℕ ← write (.insertProposal action payload (strip reason) flags now)
      Work.commit
      match ← ask (.proposal id) with
      | none => Work.throw .rowMissing
      | some row => do
          let proposal ← Work.lift (rowToProposal room row)
          pure (.proposal proposal)

/-- What a payload asks for. -/
inductive FactChange where
  | add (content category : Text) (tags : List PyValue) (confidence : PyFloat) (source : Text)
  | update (id : ℤ) (content category : Option Text) (tags : Option (List PyValue)) (confidence : Option PyFloat)
  | deactivate (id : ℤ)

/-- `int(payload.get("fact_id") or 0)`. -/
def factIdOf (action : String) (payload : Payload) : Except MemoryError ℤ :=
  (converted ((PyValue.orElse (PyValue.get payload "fact_id") (.int 0)).toInt i.formats)).bind fun id =>
    if id < 1 then .error (.valueError (action ++ " requires fact_id").toList) else .ok id

/-- `payload.get("content")`, unless it is `None`. -/
def contentOf (payload : Payload) : Option Text :=
  match PyValue.get payload "content" with
  | none => none
  | some .none => none
  | some content => some (content.text i.formats)

/-- What `apply_proposal` makes of a payload before it turns to the facts. -/
def readPayload (action : ProposalAction) (payload : Payload) : Except MemoryError FactChange :=
  match action with
  | .addFact => do
      let content := (PyValue.orElse (PyValue.get payload "content") (.str [])).text i.formats
      checkContentSize i cfg content
      enforceContent i cfg content
      let category := (PyValue.orElse (PyValue.get payload "category") (.str "general".toList)).text i.formats
      let tags ← converted (PyValue.orElse (PyValue.get payload "tags") (.list [])).toList
      let confidence ← converted (((PyValue.get payload "confidence").getD (.float (.num 1))).toFloat i.formats)
      let source := (PyValue.orElse (PyValue.get payload "source") (.str "human".toList)).text i.formats
      pure (.add content category tags confidence source)
  | .updateFact => do
      let id ← factIdOf i "update_fact" payload
      let content := contentOf i payload
      match content with
      | none => pure ()
      | some content => do
          checkContentSize i cfg content
          enforceContent i cfg content
      let tags ← (PyValue.get payload "tags").mapM fun tags => converted tags.toList
      let confidence ← (PyValue.get payload "confidence").mapM fun c => converted (c.toFloat i.formats)
      pure (.update id content ((PyValue.get payload "category").map (PyValue.text i.formats)) tags confidence)
  | .deactivateFact => do
      let id ← factIdOf i "deactivate_fact" payload
      pure (.deactivate id)

def carryOut (change : FactChange) (reason now : Text) : Job Fact :=
  match change with
  | .add content category tags confidence source =>
      insertFactConn i cfg content category tags (.float confidence) source reason now
  | .update id content category tags confidence =>
      updateFactConn i cfg id content category tags (confidence.map PyValue.float) reason now
  | .deactivate id => deactivateFactConn id reason now

def notPending (id : ℤ) (status : ProposalStatus) : MemoryError :=
  .valueError ("proposal ".toList ++ decimal id ++ " is not pending (status=".toList ++
    (match status with
    | .pending => "pending"
    | .applied => "applied"
    | .rejected => "rejected").toList ++ ")".toList)

def notFound (id : ℤ) : MemoryError := .valueError ("proposal ".toList ++ decimal id ++ " not found".toList)

def applyProposal (id : ℤ) (reason now resolvedAt : Text) (room : ℕ) : Job Value := do
  Work.lift (requireReason reason)
  let _ ← write .begin
  match ← ask (.proposal id) with
  | none => Work.throw (notFound id)
  | some row =>
      if row.status = .pending then do
        let prop ← Work.lift (rowToProposal room row)
        let change ← Work.lift (readPayload i cfg prop.action prop.payload)
        let fact ← carryOut i cfg change (strip reason) now
        let touched ← write (.resolve .applied resolvedAt (strip reason) id)
        if touched = 1 then do
          Work.commit
          pure (.applied prop.action fact.id id)
        else Work.throw (.valueError ("proposal ".toList ++ decimal id ++ " is not pending (status changed)".toList))
      else Work.throw (notPending id row.status)

def rejectProposal (id : ℤ) (reason now : Text) (room : ℕ) : Job Value := do
  Work.lift (requireReason reason)
  let _ ← write .begin
  let touched ← write (.resolve .rejected now (strip reason) id)
  match ← ask (.proposal id) with
  | none => Work.throw (notFound id)
  | some row =>
      if touched = 1 then do
        Work.commit
        let proposal ← Work.lift (rowToProposal room row)
        pure (.proposal proposal)
      else Work.throw (notPending id row.status)

/-! ### What the pieces keep

A piece that writes to one fact, or to none, keeps what the statement keeps. -/

section Keeping

variable {rely : Tables → Tables → Prop} {C : Contract memoryDb Outcome} {J : Stand memoryDb → Prop} {shut shut' : Bool}

theorem keeps_readBack (hJ : Work.Stays rely J) (id : ℤ) : Work.Keeps rely C J shut shut (readBack id) := by
  refine Work.keeps_bind (Work.keeps_ask hJ _) fun row => ?_
  cases row with
  | none => exact Work.keeps_throw _
  | some row => exact Work.keeps_pure _

theorem keeps_updateFactConn (hJ : Work.Stays rely J) {id : ℤ}
    (hw : ∀ content category tags confidence now reason digest,
      Work.Keeps rely C J shut shut' (write (.updateFact id content category tags confidence now reason digest)))
    (content category : Option Text) (tags : Option (List PyValue)) (confidence : Option PyValue) (reason now : Text) :
    Work.Keeps rely C J shut shut' (updateFactConn i cfg id content category tags confidence reason now) := by
  refine Work.keeps_bind (Work.keeps_ask hJ _) fun row => ?_
  cases row with
  | none => exact Work.keeps_throw _
  | some row =>
    refine Work.keeps_bind (Work.keeps_lift _) fun _ => Work.keeps_bind (Work.keeps_lift _) fun newTags =>
      Work.keeps_bind (Work.keeps_lift _) fun newConf => ?_
    exact Work.keeps_bind (hw ..) fun _ => keeps_readBack hJ id

theorem keeps_deactivateFactConn (hJ : Work.Stays rely J) {id : ℤ}
    (hw : ∀ now reason, Work.Keeps rely C J shut shut' (write (.deactivateFact id now reason))) (reason now : Text) :
    Work.Keeps rely C J shut shut' (deactivateFactConn id reason now) := by
  refine Work.keeps_bind (Work.keeps_ask hJ _) fun row => ?_
  cases row with
  | none => exact Work.keeps_throw _
  | some row => exact Work.keeps_bind (hw ..) fun _ => keeps_readBack hJ id

theorem keeps_committed {x : Job Fact} (hx : Work.Keeps rely C J shut shut' x)
    (hcommit : Work.Keeps rely C J shut' true (Work.commit : Job Unit)) : Work.Keeps rely C J shut true (committed x) :=
  Work.keeps_bind hx fun _ => Work.keeps_bind hcommit fun _ => Work.keeps_pure _

end Keeping

/-! ### The service -/

inductive Operation where
  | insertFact (content category : Text) (tags : List PyValue) (confidence : PyValue) (source reason now : Text)
  | updateFact (id : ℤ) (content category : Option Text) (tags : Option (List PyValue))
      (confidence : Option PyValue) (reason now : Text)
  | deactivateFact (id : ℤ) (reason now : Text)
  | createProposal (action : Text) (payload : Payload) (reason now : Text) (room : ℕ)
  | applyProposal (id : ℤ) (reason now resolvedAt : Text) (room : ℕ)
  | rejectProposal (id : ℤ) (reason now : Text) (room : ℕ)

def Operation.job : Operation → Job Value
  | .insertFact content category tags confidence source reason now =>
      committed (insertFactConn i cfg content category tags confidence source reason now)
  | .updateFact id content category tags confidence reason now =>
      committed (updateFactConn i cfg id content category tags confidence reason now)
  | .deactivateFact id reason now => committed (deactivateFactConn id reason now)
  | .createProposal action payload reason now room => Memory.createProposal i cfg action payload reason now room
  | .applyProposal id reason now resolvedAt room => Memory.applyProposal i cfg id reason now resolvedAt room
  | .rejectProposal id reason now room => Memory.rejectProposal id reason now room

end Operations

structure Call where
  cfg : MemoryConfig
  op : Operation

/-- The store, and those who use it. -/
abbrev memoryService (i : Interp) (Client : Type) : Service where
  db := memoryDb
  Client := Client
  Call := Call
  Value := Outcome
  body := fun c => Work.run (c.op.job i c.cfg)

abbrev MemorySys (i : Interp) (Client : Type) := Sys (memoryService i Client)

/-- No text is a number, and no pattern matches. -/
def Interp.plain : Interp where
  formats := ⟨fun _ => none, fun _ => none, fun _ => []⟩
  sha256 := id
  scanContent := fun _ _ _ => []

/-- Calls one after the other, each given the turns it needs. -/
def oneByOne (i : Interp) (calls : List (Call × ℕ)) : List (Action (memoryService i Unit)) :=
  calls.flatMap fun c => .start () c.1 :: List.replicate c.2 (.next ())

end CyClaw.Memory

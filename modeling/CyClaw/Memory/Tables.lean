/-
The memory database of `memory/store.py`: facts, the full-text mirror and proposals.

A JSON column holds a document; its text matters only for what the triggers make of
`tags_json`.  No row is ever deleted, so SQLite numbers a new row after the greatest there is.
An `INSERT` reports the number of its row, every other statement how many rows it touched.

The triggers run in the statement that fires them, so where one fails, the statement does.
-/
import CyClaw.Lib.Guarantees
import CyClaw.Lib.JsonText
import CyClaw.Lib.PyValue
import CyClaw.Lib.Table

namespace CyClaw.Memory

open PyText

abbrev Text := List Char

/-! ### Rows -/

structure Fact where
  id : ℤ
  content : Text
  category : Text
  tags : List Text
  confidence : ℚ
  source : Text
  active : Bool
  createdAt : Text
  updatedAt : Text
  appliedReason : Text
  contentSha256 : Text
deriving DecidableEq

/-- A row of `facts_fts`. -/
structure Indexed where
  rowid : ℤ
  content : Text
  category : Text
  tags : Text
deriving DecidableEq

inductive ProposalAction where
  | addFact
  | updateFact
  | deactivateFact
deriving DecidableEq

inductive ProposalStatus where
  | pending
  | applied
  | rejected
deriving DecidableEq

abbrev Payload := List (Text × PyValue)

structure MemoryProposal where
  id : ℤ
  action : ProposalAction
  payload : Payload
  reason : Text
  status : ProposalStatus
  injectionFlags : List Text
  createdAt : Text
  resolvedAt : Option Text
  resolvedReason : Option Text

abbrev Facts := Table Fact ℤ Fact.id
abbrev FactsFts := Table Indexed ℤ Indexed.rowid
abbrev Proposals := Table MemoryProposal ℤ MemoryProposal.id

structure Tables where
  facts : Facts
  factsFts : FactsFts
  proposals : Proposals

def Tables.empty : Tables := ⟨Table.empty, Table.empty, Table.empty⟩

/-- `SELECT COUNT(*) FROM facts WHERE active = 1`. -/
def Tables.active (T : Tables) : ℕ := T.facts.count Fact.active

/-- `tags_json`. -/
def Fact.tagsJson (f : Fact) : Text := '[' :: (", ".toList).intercalate (f.tags.map JsonText.quoted) ++ [']']

/-- `replace(replace(replace(tags_json, '[', ''), ']', ''), '"', '')`. -/
def plainTags (t : Text) : Text := t.filter fun c => c ≠ '[' && c ≠ ']' && c ≠ '"'

/-- What the triggers put into the mirror. -/
def Fact.indexed (f : Fact) : Indexed := ⟨f.id, f.content, f.category, plainTags f.tagsJson⟩

/-- `length()` of SQLite stops at the first NUL. -/
def sqlLength (t : Text) : ℕ := (t.takeWhile fun c => c ≠ '\x00').length

/-- The `CHECK` constraints. -/
def Fact.checked (f : Fact) : Bool :=
  0 < sqlLength f.content && sqlLength f.content ≤ 8192 && 0 ≤ f.confidence && f.confidence ≤ 1

/-- The number SQLite gives to a new row. -/
def nextId {ρ : Type} {key : ρ → ℤ} (t : Table ρ ℤ key) : ℤ := (t.rows.map key).foldr max 0 + 1

/-! ### Statements -/

inductive MemoryError where
  | valueError (message : Text)
  | promptInjection (flags : List Text)
  | conversion (e : PyError)
  | rowMissing
  | integrity
  /-- Whatever else a statement raises. -/
  | database
deriving DecidableEq

inductive Query where
  | fact (id : ℤ)
  | countActive
  | proposal (id : ℤ)

def Query.Res : Query → Type
  | .fact _ => Option Fact
  | .countActive => ℕ
  | .proposal _ => Option MemoryProposal

def Query.ask : (q : Query) → Tables → q.Res
  | .fact id, T => T.facts.find? id
  | .countActive, T => T.active
  | .proposal id, T => T.proposals.find? id

inductive Write where
  /-- `BEGIN IMMEDIATE`. -/
  | begin
  | insertFact (content category : Text) (tags : List Text) (confidence : ℚ) (source now reason digest : Text)
  | updateFact (id : ℤ) (content category : Text) (tags : List Text) (confidence : ℚ) (now reason digest : Text)
  | deactivateFact (id : ℤ) (now reason : Text)
  | insertProposal (action : ProposalAction) (payload : Payload) (reason : Text) (flags : List Text) (now : Text)
  | resolve (status : ProposalStatus) (now reason : Text) (id : ℤ)

/-- The row of `_insert_fact_conn`. -/
def Facts.newFact (t : Facts) (content category : Text) (tags : List Text) (confidence : ℚ)
    (source now reason digest : Text) : Fact where
  id := nextId t
  content := content
  category := category
  tags := tags
  confidence := confidence
  source := source
  active := true
  createdAt := now
  updatedAt := now
  appliedReason := reason
  contentSha256 := digest

/-- The `SET` clause of `_update_fact_conn`. -/
def Fact.updated (content category : Text) (tags : List Text) (confidence : ℚ) (now reason digest : Text)
    (f : Fact) : Fact :=
  { f with
    content := content, category := category, tags := tags, confidence := confidence, updatedAt := now,
    appliedReason := reason, contentSha256 := digest, active := true }

/-- The `SET` clause of `_deactivate_fact_conn`. -/
def Fact.deactivated (now reason : Text) (f : Fact) : Fact :=
  { f with active := false, updatedAt := now, appliedReason := reason }

/-- The row of `create_proposal`. -/
def Proposals.newProposal (t : Proposals) (action : ProposalAction) (payload : Payload) (reason : Text)
    (flags : List Text) (now : Text) : MemoryProposal where
  id := nextId t
  action := action
  payload := payload
  reason := reason
  status := .pending
  injectionFlags := flags
  createdAt := now
  resolvedAt := none
  resolvedReason := none

/-- The `SET` clause of `apply_proposal` and `reject_proposal`. -/
def MemoryProposal.resolved (status : ProposalStatus) (now reason : Text) (p : MemoryProposal) : MemoryProposal :=
  { p with status := status, resolvedAt := some now, resolvedReason := some reason }

theorem MemoryProposal.resolved_id (status : ProposalStatus) (now reason : Text) (p : MemoryProposal) :
    (p.resolved status now reason).id = p.id := rfl

/-- `WHERE id=? AND status='pending'`. -/
def MemoryProposal.isPending (id : ℤ) (p : MemoryProposal) : Bool := p.id = id && p.status = .pending

/-- `facts_ai`, and the second half of `facts_au`. -/
def FactsFts.index (t : FactsFts) (new : Fact) : Except MemoryError FactsFts :=
  if new.active then
    match t.insert? new.indexed with
    | some t' => .ok t'
    | none => .error .integrity
  else .ok t

/-- The first half of `facts_au`. -/
def FactsFts.unindex (t : FactsFts) (old : Fact) : FactsFts := t.delete fun r => r.rowid = old.id

def Tables.insertFact (T : Tables) (new : Fact) : Except MemoryError (ℕ × Tables) :=
  if new.checked then
    match T.facts.insert? new with
    | some facts => (FactsFts.index T.factsFts new).map fun fts => (new.id.toNat, { T with facts := facts, factsFts := fts })
    | none => .error .integrity
  else .error .integrity

/-- `UPDATE facts SET set WHERE id=?`. -/
def Tables.updateFact (T : Tables) (id : ℤ) (set : Fact → Fact) (hset : ∀ f, (set f).id = f.id) :
    Except MemoryError (ℕ × Tables) :=
  match T.facts.find? id with
  | none => .ok (0, T)
  | some old =>
      if (set old).checked then
        (FactsFts.index (FactsFts.unindex T.factsFts old) (set old)).map fun fts =>
          (1, { T with facts := T.facts.update (fun f => f.id = id) set hset, factsFts := fts })
      else .error .integrity

def Write.apply : Write → Tables → Except MemoryError (ℕ × Tables)
  | .begin, T => .ok (0, T)
  | .insertFact content category tags confidence source now reason digest, T =>
      T.insertFact (Facts.newFact T.facts content category tags confidence source now reason digest)
  | .updateFact id content category tags confidence now reason digest, T =>
      T.updateFact id (Fact.updated content category tags confidence now reason digest) fun _ => rfl
  | .deactivateFact id now reason, T => T.updateFact id (Fact.deactivated now reason) fun _ => rfl
  | .insertProposal action payload reason flags now, T =>
      let new := Proposals.newProposal T.proposals action payload reason flags now
      match T.proposals.insert? new with
      | some proposals => .ok (new.id.toNat, { T with proposals := proposals })
      | none => .error .integrity
  | .resolve status now reason id, T =>
      .ok (T.proposals.count (MemoryProposal.isPending id),
        { T with
          proposals :=
            T.proposals.update (MemoryProposal.isPending id) (MemoryProposal.resolved status now reason)
              (MemoryProposal.resolved_id status now reason) })

/-- The memory database. -/
abbrev memoryDb : Transactions.Database where
  Tables := Tables
  Query := Query
  Res := Query.Res
  Write := Write
  Err := MemoryError
  ask := Query.ask
  apply := Write.apply

end CyClaw.Memory

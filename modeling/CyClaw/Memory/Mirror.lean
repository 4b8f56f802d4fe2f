/-
The full-text mirror of the facts.

`Mirror` says of every number what the mirror has under it: the indexed form of the fact with
that number if there is one and it is active, and nothing otherwise.  Both kinds of statements
that touch the facts keep it (`mirror_insertFact`, `mirror_updateFact`), so it holds at every
point of every run, inside a transaction as well as between them, whatever raises or is rolled
back; what a search finds is then what the facts say at that moment.
-/
import CyClaw.Lib.Fallible
import CyClaw.Memory.Store

namespace CyClaw.Memory

open Transactions

variable {T T' : Tables} {n : ℕ}

def Mirror (T : Tables) : Prop :=
  ∀ id, T.factsFts.find? id = ((T.facts.find? id).filter Fact.active).map Fact.indexed

/-! ### What the statements do -/

/-- The mirror of an insert: a row under the number of an active fact, nothing else. -/
theorem find?_index {fts fts' : FactsFts} {new : Fact} (h : FactsFts.index fts new = .ok fts') (id : ℤ) :
    fts'.find? id = if new.active = true ∧ new.id = id then some new.indexed else fts.find? id := by
  unfold FactsFts.index at h
  by_cases hactive : new.active = true
  · rw [if_pos hactive] at h
    cases hins : fts.insert? new.indexed with
    | none => simp [hins] at h
    | some t =>
      simp only [hins, Except.ok.injEq] at h
      rw [← h, Table.find?_insert hins]
      by_cases hid : new.id = id <;> simp [hactive, Fact.indexed, hid]
  · simp only [hactive, Bool.false_eq_true, if_false, Except.ok.injEq] at h
    rw [← h]
    simp [hactive]

theorem find?_unindex {fts : FactsFts} {old : Fact} (id : ℤ) :
    (FactsFts.unindex fts old).find? id = if old.id = id then none else fts.find? id := by
  unfold FactsFts.unindex
  rw [Table.find?_delete]
  cases hfind : fts.find? id with
  | none => simp
  | some r =>
    have hid := (Table.find?_eq_some.mp hfind).2
    by_cases heq : old.id = id
    · simp [hid, heq, Option.filter]
    · simp [hid, Ne.symm heq, heq, Option.filter]

/-- What an insert of a fact does. -/
structure FactInserted (T T' : Tables) (new : Fact) : Prop where
  checked : new.checked = true
  facts : T.facts.insert? new = some T'.facts
  factsFts : FactsFts.index T.factsFts new = .ok T'.factsFts
  proposals : T'.proposals = T.proposals

theorem insertFact_ok {new : Fact} (h : T.insertFact new = .ok (n, T')) : n = new.id.toNat ∧ FactInserted T T' new := by
  unfold Tables.insertFact at h
  by_cases hchecked : new.checked = true
  · rw [if_pos hchecked] at h
    cases hins : T.facts.insert? new with
    | none => simp [hins] at h
    | some facts =>
      simp only [hins] at h
      obtain ⟨fts, hindex, heq⟩ := Fallible.map_eq_ok.mp h
      simp only [Prod.mk.injEq] at heq
      obtain ⟨rfl, rfl⟩ := heq
      exact ⟨rfl, hchecked, hins, hindex, rfl⟩
  · rw [if_neg hchecked] at h
    cases h

/-- What an update of one fact does. -/
structure FactUpdated (T T' : Tables) (id : ℤ) (set : Fact → Fact) (old : Fact) : Prop where
  found : T.facts.find? id = some old
  checked : (set old).checked = true
  facts : ∃ hset, T'.facts = T.facts.update (fun f => f.id = id) set hset
  factsFts : FactsFts.index (FactsFts.unindex T.factsFts old) (set old) = .ok T'.factsFts
  proposals : T'.proposals = T.proposals

theorem updateFact_ok {id : ℤ} {set : Fact → Fact} {hset : ∀ f, (set f).id = f.id}
    (h : T.updateFact id set hset = .ok (n, T')) :
    (T.facts.find? id = none ∧ n = 0 ∧ T' = T) ∨ ∃ old, n = 1 ∧ FactUpdated T T' id set old := by
  unfold Tables.updateFact at h
  cases hfind : T.facts.find? id with
  | none =>
    simp only [hfind, Except.ok.injEq, Prod.mk.injEq] at h
    exact Or.inl ⟨rfl, h.1.symm, h.2.symm⟩
  | some old =>
    simp only [hfind] at h
    by_cases hchecked : (set old).checked = true
    · rw [if_pos hchecked] at h
      obtain ⟨fts, hindex, heq⟩ := Fallible.map_eq_ok.mp h
      simp only [Prod.mk.injEq] at heq
      obtain ⟨rfl, rfl⟩ := heq
      exact Or.inr ⟨old, rfl, hfind, hchecked, ⟨hset, rfl⟩, hindex, rfl⟩
    · rw [if_neg hchecked] at h
      cases h

theorem FactUpdated.find? {id : ℤ} {set : Fact → Fact} {old : Fact} (h : FactUpdated T T' id set old) (k : ℤ) :
    T'.facts.find? k = if k = id then some (set old) else T.facts.find? k := by
  obtain ⟨hset, hfacts⟩ := h.facts
  rw [hfacts, Table.find?_update]
  by_cases hk : k = id
  · have hid := (Table.find?_eq_some.mp h.found).2
    rw [if_pos hk, hk, h.found]
    simp [hid]
  · rw [if_neg hk]
    cases hfind : T.facts.find? k with
    | none => rfl
    | some f =>
      have hid := (Table.find?_eq_some.mp hfind).2
      simp [hid, hk]

/-! ### The mirror is kept -/

theorem mirror_insertFact {new : Fact} (h : FactInserted T T' new) (hT : Mirror T) : Mirror T' := by
  intro id
  obtain ⟨-, hnone⟩ := Table.insert?_eq_some h.facts
  rw [find?_index h.factsFts, Table.find?_insert h.facts, hT id]
  by_cases hid : new.id = id
  · subst hid
    rw [hnone]
    cases hactive : new.active <;> simp [Option.filter, hactive]
  · simp [hid]

theorem mirror_updateFact {id : ℤ} {set : Fact → Fact} {old : Fact} (h : FactUpdated T T' id set old)
    (hset : ∀ f, (set f).id = f.id) (hT : Mirror T) : Mirror T' := by
  intro k
  have hold := (Table.find?_eq_some.mp h.found).2
  rw [find?_index h.factsFts, find?_unindex, h.find? k, hT k, hset old, hold]
  by_cases hk : k = id
  · subst hk
    cases hactive : (set old).active <;> simp [Option.filter, hactive]
  · simp [hk, Ne.symm hk]

/-- **Every statement keeps the mirror.** -/
theorem mirror_apply (w : Write) (hT : Mirror T) (h : w.apply T = .ok (n, T')) : Mirror T' := by
  cases w with
  | begin =>
    simp only [Write.apply, Except.ok.injEq, Prod.mk.injEq] at h
    rw [← h.2]
    exact hT
  | insertFact => exact mirror_insertFact (insertFact_ok h).2 hT
  | updateFact =>
    rcases updateFact_ok h with ⟨-, -, rfl⟩ | ⟨old, -, hupdated⟩
    · exact hT
    · exact mirror_updateFact hupdated (fun _ => rfl) hT
  | deactivateFact =>
    rcases updateFact_ok h with ⟨-, -, rfl⟩ | ⟨old, -, hupdated⟩
    · exact hT
    · exact mirror_updateFact hupdated (fun _ => rfl) hT
  | insertProposal =>
    simp only [Write.apply] at h
    split at h
    · simp only [Except.ok.injEq, Prod.mk.injEq] at h
      rw [← h.2]
      exact hT
    · cases h
  | resolve =>
    simp only [Write.apply, Except.ok.injEq, Prod.mk.injEq] at h
    rw [← h.2]
    exact hT

/-! ### Searching -/

/-- FTS5 and the tokens of `_FTS_TOKEN_RE`. -/
structure Engine where
  tokens : Text → List Text
  matching : Text → Indexed → Bool
  bm25 : Text → List Indexed → Indexed → ℚ
  /-- The query raises `sqlite3.OperationalError`. -/
  fails : Text → Bool

def Engine.matchExpr (e : Engine) (q : Text) : Text :=
  (" OR ".toList).intercalate ((e.tokens q).map fun t => '"' :: PyText.replace ['"'] ['"', '"'] t ++ ['"'])

/-- `facts_fts MATCH ?`, joined with the active facts. -/
def Engine.rows (e : Engine) (T : Tables) (expr : Text) : List (ℤ × Text × ℚ) :=
  (T.factsFts.rows.filter (e.matching expr)).filterMap fun r =>
    ((T.facts.find? r.rowid).filter Fact.active).map fun f => (f.id, f.content, e.bm25 expr T.factsFts.rows r)

def searchFactsFts (e : Engine) (T : Tables) (query : Text) (limit : ℤ) : List (ℤ × Text × ℚ) :=
  let q := PyText.strip query
  let expr := e.matchExpr q
  if q = [] then []
  else if expr = [] then []
  else if e.fails expr then []
  else
    let rows := (e.rows T expr).mergeSort fun a b => decide (a.2.2 ≤ b.2.2)
    -- A negative LIMIT is none.
    if limit < 0 then rows else rows.take limit.toNat

theorem mem_search {e : Engine} {query : Text} {limit : ℤ} {x : ℤ × Text × ℚ}
    (h : x ∈ searchFactsFts e T query limit) :
    x ∈ e.rows T (e.matchExpr (PyText.strip query)) := by
  unfold searchFactsFts at h
  simp only at h
  split at h
  · cases h
  split at h
  · cases h
  split at h
  · cases h
  split at h
  · exact List.mem_mergeSort.mp h
  · exact List.mem_mergeSort.mp (List.mem_of_mem_take h)

/-- What the mirror is for. -/
structure Tables.Exact (T : Tables) : Prop where
  /-- One row for each active fact, none for any other. -/
  one : ∀ f ∈ T.facts.rows, T.factsFts.count (fun r => r.rowid = f.id) = if f.active then 1 else 0
  /-- Every row is that of an active fact, as it is now. -/
  only : ∀ r ∈ T.factsFts.rows, ∃ f ∈ T.facts.rows, f.active = true ∧ r = f.indexed
  /-- What a search returns is an active fact, found by what its content, category and tags are. -/
  found : ∀ (e : Engine) (query : Text) (limit : ℤ) (x : ℤ × Text × ℚ), x ∈ searchFactsFts e T query limit →
    ∃ f ∈ T.facts.rows, f.active = true ∧ f.id = x.1 ∧ f.content = x.2.1 ∧
      e.matching (e.matchExpr (PyText.strip query)) f.indexed = true

theorem Mirror.row (h : Mirror T) {r : Indexed} (hr : r ∈ T.factsFts.rows) :
    ∃ f, T.facts.find? r.rowid = some f ∧ f.active = true ∧ r = f.indexed := by
  have hfind := h r.rowid
  rw [Table.find?_eq_some.mpr ⟨hr, rfl⟩] at hfind
  obtain ⟨f, hf, heq⟩ := Option.map_eq_some_iff.mp hfind.symm
  obtain ⟨hfound, hactive⟩ := Option.filter_eq_some_iff.mp hf
  exact ⟨f, hfound, hactive, heq.symm⟩

theorem Mirror.exact (h : Mirror T) : T.Exact where
  one := by
    intro f hf
    have hfind := h f.id
    rw [Table.find?_eq_some.mpr ⟨hf, rfl⟩] at hfind
    rw [Table.count_key]
    cases hactive : f.active <;> simp [hfind, Option.filter, hactive]
  only := by
    intro r hr
    obtain ⟨f, hfound, hactive, heq⟩ := h.row hr
    exact ⟨f, (Table.find?_eq_some.mp hfound).1, hactive, heq⟩
  found := by
    intro e query limit x hx
    obtain ⟨r, hr, hmap⟩ := List.mem_filterMap.mp (mem_search hx)
    obtain ⟨hmem, hmatching⟩ := List.mem_filter.mp hr
    obtain ⟨f, hfound, hactive, rfl⟩ := h.row hmem
    rw [hfound] at hmap
    simp only [Option.filter, hactive, if_true, Option.map_some, Option.some.injEq] at hmap
    rw [← hmap]
    exact ⟨f, (Table.find?_eq_some.mp hfound).1, hactive, rfl, rfl, hmatching⟩

section Runs

variable {i : Interp} {Client : Type} [DecidableEq Client] {allow : MemorySys i Client → Action (memoryService i Client) → Prop}
  {σ : MemorySys i Client}

/-- **The mirror is exact** at every point of every run, for everyone who looks. -/
theorem mirror_exact (h : Later allow (Sys.idle Tables.empty) σ) :
    σ.committed.Exact ∧ ∀ m, (σ.view m).Exact := by
  have hkeeps : ∀ (w : Write) (T : Tables) (n : ℕ) (T' : Tables), Mirror T → w.apply T = .ok (n, T') → Mirror T' :=
    fun w T n T' => mirror_apply w
  have hcommitted : Mirror σ.committed := committed_stable (S := memoryService i Client) hkeeps .refl h fun _ => rfl
  exact ⟨hcommitted.exact, fun m => (view_stable (S := memoryService i Client) hkeeps h hcommitted m).exact⟩

end Runs

/-- A fact is written, taken out and written anew. -/
theorem mirror_exact_reactivated :
    ∃ σ : MemorySys .plain Unit, Later (fun _ _ => true = true) (Sys.idle Tables.empty) σ ∧ σ.committed.Exact ∧
      σ.committed.factsFts.rows = [⟨1, "new".toList, "general".toList, []⟩] := by
  let cfg : MemoryConfig := ⟨[], []⟩
  obtain ⟨σ, hrun, hσ⟩ := (Option.any_eq_true _ _).mp (show (Sys.run (fun _ _ => true)
    (oneByOne .plain
      [(⟨cfg, .insertFact "old".toList [] [] (.int 1) [] [] []⟩, 4), (⟨cfg, .deactivateFact 1 [] []⟩, 5),
        (⟨cfg, .updateFact 1 (some "new".toList) none none none [] []⟩, 5)])
    (Sys.idle Tables.empty)).any (fun σ =>
      decide (σ.committed.factsFts.rows = [⟨1, "new".toList, "general".toList, []⟩])) = true by decide +kernel)
  have hlater := later_run hrun
  exact ⟨σ, hlater, (mirror_exact hlater).1, of_decide_eq_true hσ⟩

end CyClaw.Memory

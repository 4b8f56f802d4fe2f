/-
Tables with a primary key.

A table is a list of rows no two of which have the same key, so an invalid table cannot
be built: inserting a row whose key is taken gives no table, and an update has to say why
it leaves keys alone.
-/
import Mathlib.Data.List.Basic
import Mathlib.Data.List.Nodup

structure Table (ρ κ : Type) (key : ρ → κ) where
  rows : List ρ
  unique : (rows.map key).Nodup

namespace Table

variable {ρ κ : Type} {key : ρ → κ} [DecidableEq κ]

def empty : Table ρ κ key := ⟨[], List.nodup_nil⟩

/-- The row with a key. -/
def find? (t : Table ρ κ key) (k : κ) : Option ρ := t.rows.find? (key · = k)

/-- `INSERT`, unless the key is taken. -/
def insert? (t : Table ρ κ key) (r : ρ) : Option (Table ρ κ key) :=
  if h : key r ∈ t.rows.map key then none
  else some ⟨t.rows ++ [r], by
    rw [List.map_append, List.map_singleton, List.nodup_append]
    refine ⟨t.unique, List.nodup_singleton _, ?_⟩
    rintro a ha b hb rfl
    rw [List.mem_singleton] at hb
    rw [hb] at ha
    exact h ha⟩

/-- `UPDATE ... SET f WHERE p`. -/
def update (t : Table ρ κ key) (p : ρ → Bool) (f : ρ → ρ) (hf : ∀ r, key (f r) = key r) :
    Table ρ κ key :=
  ⟨t.rows.map fun r => if p r then f r else r, by
    rw [List.map_map]
    have hkey : (key ∘ fun r => if p r then f r else r) = key := by
      funext r
      by_cases hp : p r <;> simp [hp, hf]
    rw [hkey]
    exact t.unique⟩

/-- `DELETE ... WHERE p`. -/
def delete (t : Table ρ κ key) (p : ρ → Bool) : Table ρ κ key :=
  ⟨t.rows.filter fun r => !p r, t.unique.sublist (List.filter_sublist.map key)⟩

/-- The table with a row, in the place of the row with its key if there is one. -/
def upsert (t : Table ρ κ key) (r : ρ) : Table ρ κ key :=
  match t.insert? r with
  | some t' => t'
  | none =>
      ⟨t.rows.map fun r' => if key r' = key r then r else r', by
        rw [List.map_map]
        have hkey : (key ∘ fun r' => if key r' = key r then r else r') = key := by
          funext r'
          by_cases h : key r' = key r
          · simp [h]
          · simp [h]
        rw [hkey]
        exact t.unique⟩

/-- How many rows a `WHERE` clause selects. -/
def count (t : Table ρ κ key) (p : ρ → Bool) : Nat := t.rows.countP p

omit [DecidableEq κ] in
theorem eq_of_key {t : Table ρ κ key} {r r' : ρ} (hr : r ∈ t.rows) (hr' : r' ∈ t.rows)
    (h : key r = key r') : r = r' :=
  List.inj_on_of_nodup_map t.unique hr hr' h

theorem find?_eq_some {t : Table ρ κ key} {k : κ} {r : ρ} :
    t.find? k = some r ↔ r ∈ t.rows ∧ key r = k := by
  constructor
  · intro h
    have hk := List.find?_some h
    rw [decide_eq_true_eq] at hk
    exact ⟨List.mem_of_find?_eq_some h, hk⟩
  · rintro ⟨hr, rfl⟩
    cases hf : t.find? (key r) with
    | none =>
        rw [find?, List.find?_eq_none] at hf
        exact absurd (decide_eq_true rfl) (hf r hr)
    | some r' =>
        have hk := List.find?_some hf
        rw [decide_eq_true_eq] at hk
        rw [eq_of_key (List.mem_of_find?_eq_some hf) hr hk]

theorem find?_eq_none {t : Table ρ κ key} {k : κ} :
    t.find? k = none ↔ ∀ r ∈ t.rows, key r ≠ k := by
  simp [find?, List.find?_eq_none]

theorem insert?_eq_some {t t' : Table ρ κ key} {r : ρ} (h : t.insert? r = some t') :
    t'.rows = t.rows ++ [r] ∧ t.find? (key r) = none := by
  rw [insert?] at h
  split at h
  · cases h
  · rename_i hk
    simp only [Option.some.injEq] at h
    rw [← h, find?_eq_none]
    refine ⟨rfl, ?_⟩
    intro r' hr' hkey
    exact hk (hkey ▸ List.mem_map_of_mem hr')

/-- A key that is not there is free. -/
theorem exists_insert {t : Table ρ κ key} {r : ρ} (h : t.find? (key r) = none) : ∃ t', t.insert? r = some t' := by
  rw [find?_eq_none] at h
  have hfree : key r ∉ t.rows.map key := by
    intro hmem
    obtain ⟨r', hr', hkey⟩ := List.mem_map.mp hmem
    exact h r' hr' hkey
  exact ⟨_, dif_neg hfree⟩

omit [DecidableEq κ] in
theorem mem_update {t : Table ρ κ key} {p : ρ → Bool} {f : ρ → ρ} {hf : ∀ r, key (f r) = key r}
    {r : ρ} : r ∈ (t.update p f hf).rows ↔ ∃ r₀ ∈ t.rows, r = if p r₀ then f r₀ else r₀ := by
  rw [update, List.mem_map]
  constructor
  · rintro ⟨r₀, hr₀, rfl⟩
    exact ⟨r₀, hr₀, rfl⟩
  · rintro ⟨r₀, hr₀, rfl⟩
    exact ⟨r₀, hr₀, rfl⟩

omit [DecidableEq κ] in
theorem mem_delete {t : Table ρ κ key} {p : ρ → Bool} {r : ρ} :
    r ∈ (t.delete p).rows ↔ r ∈ t.rows ∧ p r = false := by
  simp [delete]

theorem find?_update {t : Table ρ κ key} {p : ρ → Bool} {f : ρ → ρ} {hf : ∀ r, key (f r) = key r}
    {k : κ} : (t.update p f hf).find? k = (t.find? k).map fun r => if p r then f r else r := by
  cases h : t.find? k with
  | none =>
      rw [find?_eq_none] at h
      rw [Option.map_none, find?_eq_none]
      intro r hr
      obtain ⟨r₀, hr₀, rfl⟩ := mem_update.mp hr
      have := h r₀ hr₀
      split <;> simp_all
  | some r =>
      obtain ⟨hr, rfl⟩ := find?_eq_some.mp h
      rw [Option.map_some, find?_eq_some]
      refine ⟨mem_update.mpr ⟨r, hr, rfl⟩, ?_⟩
      split <;> simp [hf]

theorem find?_insert {t t' : Table ρ κ key} {r : ρ} (h : t.insert? r = some t') (k : κ) :
    t'.find? k = if key r = k then some r else t.find? k := by
  obtain ⟨hrows, hnone⟩ := insert?_eq_some h
  by_cases hk : key r = k
  · rw [if_pos hk, find?_eq_some, hrows]
    exact ⟨by simp, hk⟩
  · rw [if_neg hk, find?, hrows, List.find?_append]
    simp [hk, find?]

/-- A row that is there before an insert is the same after it. -/
theorem find?_insert_of_some {t t' : Table ρ κ key} {r r' : ρ} {k : κ} (hins : t.insert? r = some t')
    (h : t.find? k = some r') : t'.find? k = some r' := by
  rw [find?_insert hins]
  by_cases hk : key r = k
  · have hnone := (insert?_eq_some hins).2
    rw [hk, h] at hnone
    cases hnone
  · rw [if_neg hk]
    exact h

theorem upsert_fresh {t : Table ρ κ key} {r : ρ} (hr : key r ∉ t.rows.map key) :
    (t.upsert r).rows = t.rows ++ [r] := by
  have hins : t.insert? r = some ⟨t.rows ++ [r], _⟩ := dif_neg hr
  rw [upsert, hins]

theorem upsert_taken {t : Table ρ κ key} {r : ρ} (hr : key r ∈ t.rows.map key) :
    (t.upsert r).rows = t.rows.map fun r' => if key r' = key r then r else r' := by
  have hins : t.insert? r = none := dif_pos hr
  rw [upsert, hins]

theorem mem_upsert {t : Table ρ κ key} {r r' : ρ} (h : r' ∈ (t.upsert r).rows) : r' = r ∨ r' ∈ t.rows := by
  by_cases hr : key r ∈ t.rows.map key
  · rw [upsert_taken hr] at h
    obtain ⟨r₀, hr₀, rfl⟩ := List.mem_map.mp h
    by_cases hkey : key r₀ = key r
    · exact Or.inl (if_pos hkey)
    · rw [if_neg hkey]
      exact Or.inr hr₀
  · rw [upsert_fresh hr, List.mem_append, List.mem_singleton] at h
    exact h.symm

theorem find?_upsert {t : Table ρ κ key} (r : ρ) (k : κ) :
    (t.upsert r).find? k = if key r = k then some r else t.find? k := by
  rw [upsert]
  split
  · rename_i t' hins
    exact find?_insert hins k
  · rename_i hnone
    have hmem : key r ∈ t.rows.map key := by
      by_contra hfree
      rw [insert?, dif_neg hfree] at hnone
      cases hnone
    by_cases hk : key r = k
    · rw [if_pos hk, find?_eq_some]
      obtain ⟨r', hr', hkey⟩ := List.mem_map.mp hmem
      exact ⟨List.mem_map.mpr ⟨r', hr', if_pos hkey⟩, hk⟩
    · rw [if_neg hk]
      cases h : t.find? k with
      | none =>
          rw [find?_eq_none] at h ⊢
          intro r₁ hr₁
          obtain ⟨r', hr', rfl⟩ := List.mem_map.mp hr₁
          by_cases hr : key r' = key r
          · rw [if_pos hr]
            exact hk
          · rw [if_neg hr]
            exact h r' hr'
      | some r' =>
          rw [find?_eq_some] at h ⊢
          refine ⟨List.mem_map.mpr ⟨r', h.1, if_neg ?_⟩, h.2⟩
          rw [h.2]
          exact fun heq => hk heq.symm

theorem find?_delete {t : Table ρ κ key} {p : ρ → Bool} (k : κ) :
    (t.delete p).find? k = (t.find? k).filter fun r => !p r := by
  cases h : t.find? k with
  | none =>
      rw [find?_eq_none] at h
      rw [Option.filter_none, find?_eq_none]
      intro r hr
      exact h r (mem_delete.mp hr).1
  | some r =>
      have hr := find?_eq_some.mp h
      by_cases hp : p r = true
      · rw [Option.filter_some_neg (by simp [hp]), find?_eq_none]
        intro r' hr' hk
        rw [mem_delete] at hr'
        rw [eq_of_key hr'.1 hr.1 (hk.trans hr.2.symm), hp] at hr'
        cases hr'.2
      · rw [Bool.not_eq_true] at hp
        rw [Option.filter_some_pos (by simp [hp]), find?_eq_some, mem_delete]
        exact ⟨⟨hr.1, hp⟩, hr.2⟩

omit [DecidableEq κ] in
private theorem ext_rows {t t' : Table ρ κ key} (h : t.rows = t'.rows) : t = t' := by
  cases t
  cases t'
  simp only at h
  subst h
  rfl

omit [DecidableEq κ] in
/-- An update that selects nothing changes nothing. -/
theorem update_of_count {t : Table ρ κ key} {p : ρ → Bool} {f : ρ → ρ}
    {hf : ∀ r, key (f r) = key r} (h : t.count p = 0) : t.update p f hf = t := by
  rw [count, List.countP_eq_zero] at h
  refine ext_rows ?_
  calc (t.update p f hf).rows = t.rows.map id := List.map_congr_left fun r hr => if_neg (h r hr)
    _ = t.rows := List.map_id _

omit [DecidableEq κ] in
theorem delete_of_count {t : Table ρ κ key} {p : ρ → Bool} (h : t.count p = 0) : t.delete p = t := by
  rw [count, List.countP_eq_zero] at h
  refine ext_rows ?_
  rw [delete, List.filter_eq_self]
  intro r hr
  simp [h r hr]

/-- A key counts once, if it is there. -/
theorem count_key {t : Table ρ κ key} (k : κ) : t.count (fun r => key r = k) = if (t.find? k).isSome then 1 else 0 := by
  have hle : t.count (fun r => key r = k) ≤ 1 := by
    have hmap : (t.rows.map key).count k = t.count (fun r => key r = k) := by
      simp only [count, List.count, List.countP_map]
      rfl
    rw [← hmap]
    exact List.nodup_iff_count_le_one.mp t.unique k
  cases h : t.find? k with
  | none =>
    rw [find?_eq_none] at h
    rw [count, List.countP_eq_zero.mpr (by simpa using h)]
    rfl
  | some r =>
    obtain ⟨hr, hk⟩ := find?_eq_some.mp h
    have hpos : 0 < t.count (fun r => key r = k) := List.countP_pos_iff.mpr ⟨r, hr, by simpa using hk⟩
    simp only [Option.isSome_some, if_true]
    omega

theorem count_insert {t t' : Table ρ κ key} {r : ρ} (h : t.insert? r = some t') (q : ρ → Bool) :
    t'.count q = t.count q + if q r then 1 else 0 := by
  rw [count, (insert?_eq_some h).1, List.countP_append, List.countP_singleton, count]

omit [DecidableEq κ] in
/-- An update that gives no row what is counted does not raise the count. -/
theorem count_update_le {t : Table ρ κ key} {p q : ρ → Bool} {f : ρ → ρ} {hf : ∀ r, key (f r) = key r}
    (h : ∀ r ∈ t.rows, p r = true → q (f r) = true → q r = true) : (t.update p f hf).count q ≤ t.count q := by
  rw [count, update, List.countP_map]
  refine List.countP_mono_left fun r hr hq => ?_
  by_cases hp : p r = true
  · exact h r hr hp (by simpa [hp] using hq)
  · simpa [hp] using hq

/-- An update of one row raises a count by one at most. -/
theorem count_update_key_le {t : Table ρ κ key} (k : κ) {q : ρ → Bool} {f : ρ → ρ} {hf : ∀ r, key (f r) = key r} :
    (t.update (fun r => key r = k) f hf).count q ≤ t.count q + 1 := by
  have hsum : ∀ rows : List ρ, rows.countP (fun r => q r || decide (key r = k)) ≤
      rows.countP q + rows.countP fun r => decide (key r = k) := by
    intro rows
    induction rows with
    | nil => simp
    | cons r rows ih =>
      simp only [List.countP_cons]
      cases q r <;> cases decide (key r = k) <;> simp <;> omega
  have hone : t.rows.countP (fun r => decide (key r = k)) ≤ 1 := by
    have hcount := t.count_key k
    rw [count] at hcount
    rw [hcount]
    split <;> omega
  have hmono : (t.update (fun r => key r = k) f hf).count q ≤ t.rows.countP fun r => q r || decide (key r = k) := by
    rw [count, update, List.countP_map]
    refine List.countP_mono_left fun r _ hq => ?_
    by_cases hk : key r = k
    · simp [hk]
    · simpa [hk] using hq
  have hle := Nat.le_trans hmono (hsum t.rows)
  unfold count at hle ⊢
  omega

omit [DecidableEq κ] in
theorem count_pos {t : Table ρ κ key} {p : ρ → Bool} : 0 < t.count p ↔ ∃ r ∈ t.rows, p r = true := by
  simp [count, List.countP_pos_iff]

/-- A clause that asks for a key selects the row with that key or none. -/
theorem count_pos_of_key {t : Table ρ κ key} {p : ρ → Bool} {k : κ} (hp : ∀ r, p r = true → key r = k) :
    0 < t.count p ↔ ∃ r, t.find? k = some r ∧ p r = true := by
  rw [count_pos]
  constructor
  · rintro ⟨r, hr, hpr⟩
    exact ⟨r, find?_eq_some.mpr ⟨hr, hp r hpr⟩, hpr⟩
  · rintro ⟨r, hr, hpr⟩
    exact ⟨r, (find?_eq_some.mp hr).1, hpr⟩

omit [DecidableEq κ] in
/-- Two rows or more: besides any one of them there is another. -/
theorem exists_other_of_count {t : Table ρ κ key} {p : ρ → Bool} (h : 1 < t.count p) (r : ρ) :
    ∃ r' ∈ t.rows, p r' = true ∧ r' ≠ r := by
  rw [count, List.countP_eq_length_filter] at h
  obtain ⟨r', hr', hne⟩ : ∃ r' ∈ t.rows.filter p, r' ≠ r := by
    by_contra hall
    push Not at hall
    have hrep := List.eq_replicate_iff.mpr ⟨rfl, hall⟩
    have hnodup : (t.rows.filter p).Nodup := t.unique.of_map.filter p
    rw [hrep, List.nodup_replicate] at hnodup
    omega
  rw [List.mem_filter] at hr'
  exact ⟨r', hr'.1, hr'.2, hne⟩

end Table

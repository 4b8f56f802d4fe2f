/-
Objects that are reached by reference.

A heap is a list of objects, and a reference is a place in it: what is allocated comes to stand at
its end, so a heap that has only been allocated in begins with the old one.  What a value comes to
is a tree, as far as it can be read within a number of steps down (`read`).
-/
import CyClaw.Lib.Fallible
import CyClaw.Lib.PyValue
import CyClaw.Lib.Table

namespace PyHeap

/-- A value without parts, and what a key can be. -/
inductive Scalar where
  | none
  | bool (b : Bool)
  | int (n : ℤ)
  | float (x : PyFloat)
  | str (t : List Char)
  /-- Any other object. -/
  | other (id : ℕ)
deriving DecidableEq

inductive Val where
  | scalar (s : Scalar)
  | ref (r : ℕ)
deriving DecidableEq

/-- Entries with distinct keys, in their order. -/
abbrev Entries (α : Type) := Table (Scalar × α) Scalar Prod.fst

/-- What a `dict` holds. -/
abbrev Dict := Entries Val

inductive Obj where
  | dict (fields : Dict)
  | list (items : List Val)
  | tuple (items : List Val)

abbrev Heap := List Obj

/-- A value with everything below it. -/
inductive Tree where
  | scalar (s : Scalar)
  | dict (fields : List (Scalar × Tree))
  | list (items : List Tree)
  | tuple (items : List Tree)

/-- What is raised. -/
inductive Fault where
  /-- The calls are nested too deeply. -/
  | recursionError
  /-- TypeError, ValueError, AttributeError or UnicodeError. -/
  | refused
deriving DecidableEq

/-! ### Reading -/

/-- A value as far as `n` steps down, `none` where it goes on. -/
def read : ℕ → Heap → Val → Option Tree
  | 0, _, _ => none
  | _ + 1, _, .scalar s => some (.scalar s)
  | n + 1, h, .ref r =>
      match h[r]? with
      | some (.dict fields) => (fields.rows.mapM fun p => (read n h p.2).map (p.1, ·)).map .dict
      | some (.list items) => (items.mapM (read n h)).map .list
      | some (.tuple items) => (items.mapM (read n h)).map .tuple
      | none => none

/-! ### Steps on a heap -/

/-- Go through a list, one step after the other, up to the first that raises. -/
def collect {α β : Type} (f : α → Heap → Heap × Except Fault β) : List α → Heap → Heap × Except Fault (List β)
  | [], h => (h, .ok [])
  | a :: as, h =>
      match f a h with
      | (h, .error e) => (h, .error e)
      | (h, .ok b) =>
          match collect f as h with
          | (h, .error e) => (h, .error e)
          | (h, .ok bs) => (h, .ok (b :: bs))

/-- A new object at the end. -/
def alloc (o : Obj) (h : Heap) : Heap × Except Fault Val := (h ++ [o], .ok (.ref h.length))

/-- A dictionary of these entries, a later one in the place of an earlier one with its key. -/
def dictOf (rows : List (Scalar × Val)) : Dict := rows.foldl Table.upsert Table.empty

/-! ### Trees -/

mutual

/-- Every string that is a value is replaced, and a tuple becomes a list. -/
def Tree.mapStrings (f : List Char → List Char) : Tree → Tree
  | .scalar (.str t) => .scalar (.str (f t))
  | .scalar s => .scalar s
  | .dict fields => .dict (mapFields f fields)
  | .list items => .list (mapItems f items)
  | .tuple items => .list (mapItems f items)

def mapFields (f : List Char → List Char) : List (Scalar × Tree) → List (Scalar × Tree)
  | [] => []
  | (key, t) :: fields => (key, t.mapStrings f) :: mapFields f fields

def mapItems (f : List Char → List Char) : List Tree → List Tree
  | [] => []
  | t :: items => t.mapStrings f :: mapItems f items

end

mutual

/-- The strings among the values. -/
def Tree.strings : Tree → List (List Char)
  | .scalar (.str t) => [t]
  | .scalar _ => []
  | .dict fields => fieldStrings fields
  | .list items => itemStrings items
  | .tuple items => itemStrings items

def fieldStrings : List (Scalar × Tree) → List (List Char)
  | [] => []
  | (_, t) :: fields => t.strings ++ fieldStrings fields

def itemStrings : List Tree → List (List Char)
  | [] => []
  | t :: items => t.strings ++ itemStrings items

end

def Scalar.writable : Scalar → Bool
  | .other _ => false
  | _ => true

mutual

/-- JSON can say it: no other objects among the keys and the values. -/
def Tree.writable : Tree → Bool
  | .scalar s => s.writable
  | .dict fields => writableFields fields
  | .list items => writableItems items
  | .tuple items => writableItems items

def writableFields : List (Scalar × Tree) → Bool
  | [] => true
  | (key, t) :: fields => key.writable && t.writable && writableFields fields

def writableItems : List Tree → Bool
  | [] => true
  | t :: items => t.writable && writableItems items

end

/-- `json.dumps`, as what it writes: it writes a tuple as it does a list. -/
def dumps (n : ℕ) (h : Heap) (v : Val) : Except Fault Tree :=
  match read n h v with
  | none => .error .recursionError
  | some t => if t.writable then .ok t else .error .refused

variable {α β : Type} {h h' g : Heap} {n m : ℕ} {v : Val} {t t' : Tree}

/-! ### Reading on -/

theorem read_dict {r : ℕ} {fields : Dict} (hr : h[r]? = some (.dict fields)) : read (n + 1) h (.ref r) = some t ↔
    ∃ ts, List.Forall₂ (fun p q => q.1 = p.1 ∧ read n h p.2 = some q.2) fields.rows ts ∧ .dict ts = t := by
  have hstep : ∀ (p : Scalar × Val) (q : Scalar × Tree),
      (read n h p.2).map (p.1, ·) = some q ↔ q.1 = p.1 ∧ read n h p.2 = some q.2 := by
    rintro p ⟨key, t⟩
    simp only [Option.map_eq_some_iff, Prod.mk.injEq]
    constructor
    · rintro ⟨t, ht, rfl, rfl⟩
      exact ⟨rfl, ht⟩
    · rintro ⟨rfl, ht⟩
      exact ⟨t, ht, rfl, rfl⟩
  rw [read, hr]
  simp only [Option.map_eq_some_iff, Fallible.mapM_eq_some, hstep]

theorem read_list {r : ℕ} {items : List Val} (hr : h[r]? = some (.list items)) : read (n + 1) h (.ref r) = some t ↔
    ∃ ts, List.Forall₂ (fun v t => read n h v = some t) items ts ∧ .list ts = t := by
  rw [read, hr]
  simp only [Option.map_eq_some_iff, Fallible.mapM_eq_some]

theorem read_tuple {r : ℕ} {items : List Val} (hr : h[r]? = some (.tuple items)) : read (n + 1) h (.ref r) = some t ↔
    ∃ ts, List.Forall₂ (fun v t => read n h v = some t) items ts ∧ .tuple ts = t := by
  rw [read, hr]
  simp only [Option.map_eq_some_iff, Fallible.mapM_eq_some]

theorem eq_of_read_scalar {s : Scalar} (hread : read n h v = some (.scalar s)) : v = .scalar s := by
  cases n with
  | zero => cases hread
  | succ n =>
    cases v with
    | scalar s' => rw [Tree.scalar.inj (Option.some.inj hread)]
    | ref r =>
      exfalso
      cases hr : h[r]? with
      | none =>
        rw [read, hr] at hread
        cases hread
      | some o =>
        cases o with
        | dict fields =>
          obtain ⟨ts, -, heq⟩ := (read_dict hr).mp hread
          cases heq
        | list items =>
          obtain ⟨ts, -, heq⟩ := (read_list hr).mp hread
          cases heq
        | tuple items =>
          obtain ⟨ts, -, heq⟩ := (read_tuple hr).mp hread
          cases heq

/-- What has been read is read the same in a heap that goes on. -/
theorem read_extend (hpre : h <+: h') (hread : read n h v = some t) : read n h' v = some t := by
  have hlookup : ∀ {r : ℕ} {o : Obj}, h[r]? = some o → h'[r]? = some o := by
    obtain ⟨more, rfl⟩ := hpre
    intro r o hr
    rw [List.getElem?_append_left (List.getElem?_eq_some_iff.mp hr).1]
    exact hr
  induction n generalizing v t with
  | zero => cases hread
  | succ n ih =>
    cases v with
    | scalar s => exact hread
    | ref r =>
      cases hr : h[r]? with
      | none =>
        rw [read, hr] at hread
        cases hread
      | some o =>
        cases o with
        | dict fields =>
          obtain ⟨ts, hts, heq⟩ := (read_dict hr).mp hread
          exact (read_dict (hlookup hr)).mpr ⟨ts, hts.imp fun p q hpq => ⟨hpq.1, ih hpq.2⟩, heq⟩
        | list items =>
          obtain ⟨ts, hts, heq⟩ := (read_list hr).mp hread
          exact (read_list (hlookup hr)).mpr ⟨ts, hts.imp fun p q hpq => ih hpq, heq⟩
        | tuple items =>
          obtain ⟨ts, hts, heq⟩ := (read_tuple hr).mp hread
          exact (read_tuple (hlookup hr)).mpr ⟨ts, hts.imp fun p q hpq => ih hpq, heq⟩

theorem read_succ (hread : read n h v = some t) : read (n + 1) h v = some t := by
  induction n generalizing v t with
  | zero => cases hread
  | succ n ih =>
    cases v with
    | scalar s => exact hread
    | ref r =>
      cases hr : h[r]? with
      | none =>
        rw [read, hr] at hread
        cases hread
      | some o =>
        cases o with
        | dict fields =>
          obtain ⟨ts, hts, heq⟩ := (read_dict hr).mp hread
          exact (read_dict hr).mpr ⟨ts, hts.imp fun p q hpq => ⟨hpq.1, ih hpq.2⟩, heq⟩
        | list items =>
          obtain ⟨ts, hts, heq⟩ := (read_list hr).mp hread
          exact (read_list hr).mpr ⟨ts, hts.imp fun p q hpq => ih hpq, heq⟩
        | tuple items =>
          obtain ⟨ts, hts, heq⟩ := (read_tuple hr).mp hread
          exact (read_tuple hr).mpr ⟨ts, hts.imp fun p q hpq => ih hpq, heq⟩

/-- Reading further down finds the same. -/
theorem read_le (hle : n ≤ m) (hread : read n h v = some t) : read m h v = some t := by
  induction hle with
  | refl => exact hread
  | step _ ih => exact read_succ ih

theorem read_unique (hn : read n h v = some t) (hm : read m h v = some t') : t = t' := by
  have hmax := (read_le (Nat.le_max_left n m) hn).symm.trans (read_le (Nat.le_max_right n m) hm)
  exact Option.some.inj hmax

/-! ### What a step makes -/

/-- Between these two heaps something was made that reads so, whatever becomes of the rest of the heap. -/
def Made {γ : Type} (look : Heap → β → Option γ) (h h' : Heap) (b : β) (c : γ) : Prop :=
  ∀ g : Heap, (∀ i, h.length ≤ i → i < h'.length → g[i]? = h'[i]?) → look g b = some c

theorem getElem?_of_le (hpre : h <+: h') {i : ℕ} (hi : i < h.length) : h'[i]? = h[i]? := by
  obtain ⟨more, rfl⟩ := hpre
  exact List.getElem?_append_left hi

theorem Made.widen {γ : Type} {look : Heap → β → Option γ} {h₀ h₁ : Heap} {b : β} {c : γ} (hmade : Made look h h' b c)
    (hstart : h₀ <+: h) (hend : h' <+: h₁) : Made look h₀ h₁ b c := by
  intro g hg
  refine hmade g fun i hlo hhi => ?_
  rw [hg i (hstart.length_le.trans hlo) (hhi.trans_le hend.length_le), getElem?_of_le hend hhi]

theorem collect_prefix {f : α → Heap → Heap × Except Fault β} (hf : ∀ a h, h <+: (f a h).1) (as : List α) (h : Heap) :
    h <+: (collect f as h).1 := by
  induction as generalizing h with
  | nil => exact List.prefix_refl h
  | cons a as ih =>
    have hfirst := hf a h
    rcases hfa : f a h with ⟨h₁, result⟩
    rw [hfa] at hfirst
    rw [collect, hfa]
    cases result with
    | error e => exact hfirst
    | ok b =>
      have hrest := ih h₁
      rcases hfas : collect f as h₁ with ⟨h₂, results⟩
      rw [hfas] at hrest
      dsimp only
      rw [hfas]
      cases results with
      | error e => exact hfirst.trans hrest
      | ok bs => exact hfirst.trans hrest

/-- Going through a list makes its parts one by one, or raises what a part raises. -/
theorem collect_cases {γ δ : Type} (source : Heap → α → Option γ) {f : α → Heap → Heap × Except Fault β}
    {look : Heap → β → Option δ} {image : γ → δ} {Raises : Fault → Prop}
    (hsource : ∀ {h h' a c}, h <+: h' → source h a = some c → source h' a = some c)
    (hstep : ∀ {h a c}, source h a = some c → (∃ e, (f a h).2 = .error e ∧ Raises e) ∨
      ∃ h' b, f a h = (h', .ok b) ∧ h <+: h' ∧ Made look h h' b (image c))
    {as : List α} {cs : List γ} (has : List.Forall₂ (fun a c => source h a = some c) as cs) :
    (∃ e, (collect f as h).2 = .error e ∧ Raises e) ∨ ∃ h' bs, collect f as h = (h', .ok bs) ∧ h <+: h' ∧
      List.Forall₂ (fun b c => Made look h h' b (image c)) bs cs := by
  induction as generalizing cs h with
  | nil =>
    rw [List.forall₂_nil_left_iff] at has
    subst has
    exact Or.inr ⟨h, [], rfl, List.prefix_refl h, .nil⟩
  | cons a as ih =>
    obtain ⟨c, cs, ha, hrest, rfl⟩ := List.forall₂_cons_left_iff.mp has
    rcases hstep ha with ⟨e, herror, hraises⟩ | ⟨h₁, b, hok, hpre, hmade⟩
    · refine Or.inl ⟨e, ?_, hraises⟩
      rcases hfa : f a h with ⟨h₁, result⟩
      rw [hfa] at herror
      obtain rfl : result = .error e := herror
      rw [collect, hfa]
    · rw [collect, hok]
      dsimp only
      rcases ih (hrest.imp fun a c hac => hsource hpre hac) with
        ⟨e, herror, hraises⟩ | ⟨h₂, bs, hoks, hpre', hmades⟩
      · refine Or.inl ⟨e, ?_, hraises⟩
        rcases hfas : collect f as h₁ with ⟨h₂, results⟩
        rw [hfas] at herror
        obtain rfl : results = .error e := herror
        rfl
      · refine Or.inr ⟨h₂, b :: bs, ?_, hpre.trans hpre', .cons (hmade.widen (List.prefix_refl h) hpre') ?_⟩
        · rw [hoks]
        · exact hmades.imp fun b c hbc => hbc.widen hpre (List.prefix_refl h₂)

/-! ### What is allocated -/

theorem getElem?_alloc (h : Heap) (o : Obj) : (h ++ [o])[h.length]? = some o := by simp

/-- A key keeps its place. -/
theorem upsert_present {γ : Type} {fields : Entries γ} {before after : List (Scalar × γ)} {key : Scalar} {v v' : γ}
    (hrows : fields.rows = before ++ (key, v) :: after) :
    (fields.upsert (key, v')).rows = before ++ (key, v') :: after := by
  have hunique := fields.unique
  rw [hrows, List.map_append, List.map_cons, List.nodup_middle, List.nodup_cons, List.mem_append] at hunique
  have hother : ∀ rows : List (Scalar × γ), key ∉ rows.map Prod.fst →
      rows.map (fun p => if p.1 = key then (key, v') else p) = rows := by
    intro rows hkey
    have hsame : ∀ p ∈ rows, (if p.1 = key then (key, v') else p) = p := by
      intro p hp
      refine if_neg ?_
      rintro rfl
      exact hkey (List.mem_map_of_mem hp)
    rw [List.map_congr_left hsame, List.map_id']
  rw [Table.upsert_taken (by rw [hrows]; simp), hrows, List.map_append, List.map_cons,
    hother before (fun h => hunique.1 (Or.inl h)), hother after (fun h => hunique.1 (Or.inr h)), if_pos rfl]

section Pairs

variable {γ δ : Type} {R : Scalar × γ → Scalar × δ → Prop} {fields : Entries γ} {fields' : Entries δ}

theorem map_fst_of_forall₂ (hkey : ∀ p q, R p q → q.1 = p.1) {rows : List (Scalar × γ)} {rows' : List (Scalar × δ)}
    (h : List.Forall₂ R rows rows') : rows'.map Prod.fst = rows.map Prod.fst := by
  induction h with
  | nil => rfl
  | cons hpq _ ih => rw [List.map_cons, List.map_cons, ih, hkey _ _ hpq]

/-- Entries that go in pairs still do with another pair, -/
theorem forall₂_upsert (hkey : ∀ p q, R p q → q.1 = p.1) (h : List.Forall₂ R fields.rows fields'.rows)
    {p : Scalar × γ} {q : Scalar × δ} (hpq : R p q) :
    List.Forall₂ R (fields.upsert p).rows (fields'.upsert q).rows := by
  have hkeys := map_fst_of_forall₂ hkey h
  have hp := hkey p q hpq
  by_cases hmem : p.1 ∈ fields.rows.map Prod.fst
  · rw [Table.upsert_taken hmem, Table.upsert_taken (by rw [hp, hkeys]; exact hmem), List.forall₂_map_left_iff,
      List.forall₂_map_right_iff]
    refine h.imp fun p' q' hpq' => ?_
    rw [hkey p' q' hpq', hp]
    by_cases hsame : p'.1 = p.1
    · rw [if_pos hsame, if_pos hsame]
      exact hpq
    · rw [if_neg hsame, if_neg hsame]
      exact hpq'
  · rw [Table.upsert_fresh hmem, Table.upsert_fresh (by rw [hp, hkeys]; exact hmem)]
    exact List.rel_append h (.cons hpq .nil)

/-- and without the pairs of some keys. -/
theorem forall₂_delete (hkey : ∀ p q, R p q → q.1 = p.1) (h : List.Forall₂ R fields.rows fields'.rows)
    (drop : Scalar → Bool) :
    List.Forall₂ R (fields.delete fun p => drop p.1).rows (fields'.delete fun q => drop q.1).rows := by
  rw [Table.delete, Table.delete]
  refine List.rel_filter (fun p q hpq => ?_) h
  dsimp only
  rw [hkey p q hpq]

end Pairs

theorem foldl_upsert (rows : List (Scalar × Val)) (fields : Dict) (hkeys : ((fields.rows ++ rows).map Prod.fst).Nodup) :
    (rows.foldl Table.upsert fields).rows = fields.rows ++ rows := by
  induction rows generalizing fields with
  | nil => simp
  | cons p rows ih =>
    have hfresh : p.1 ∉ fields.rows.map Prod.fst := by
      intro hmem
      rw [List.map_append, List.nodup_append] at hkeys
      exact hkeys.2.2 p.1 hmem p.1 (by simp) rfl
    have hrows := Table.upsert_fresh hfresh
    rw [List.foldl_cons, ih, hrows, List.append_assoc, List.singleton_append]
    rw [hrows, List.append_assoc, List.singleton_append]
    exact hkeys

theorem dictOf_rows {rows : List (Scalar × Val)} (hkeys : (rows.map Prod.fst).Nodup) : (dictOf rows).rows = rows :=
  foldl_upsert rows Table.empty hkeys

/-- An entry as it is read. -/
def readRow (n : ℕ) (h : Heap) (p : Scalar × Val) : Option (Scalar × Tree) := (read n h p.2).map (p.1, ·)

theorem readRow_eq {p : Scalar × Val} {q : Scalar × Tree} :
    readRow n h p = some q ↔ q.1 = p.1 ∧ read n h p.2 = some q.2 := by
  obtain ⟨key, t⟩ := q
  simp only [readRow, Option.map_eq_some_iff, Prod.mk.injEq]
  constructor
  · rintro ⟨t, ht, rfl, rfl⟩
    exact ⟨rfl, ht⟩
  · rintro ⟨rfl, ht⟩
    exact ⟨t, ht, rfl, rfl⟩

theorem read_alloc {o : Obj} (hpre : h <+: h')
    (hg : ∀ i, h.length ≤ i → i < (h' ++ [o]).length → g[i]? = (h' ++ [o])[i]?) :
    g[h'.length]? = some o ∧ ∀ i, h.length ≤ i → i < h'.length → g[i]? = h'[i]? := by
  refine ⟨?_, fun i hlo hhi => ?_⟩
  · rw [hg h'.length hpre.length_le (by simp), getElem?_alloc]
  · rw [hg i hlo (by rw [List.length_append]; omega), List.getElem?_append_left hhi]

theorem made_dict {rows : List (Scalar × Val)} {ts : List (Scalar × Tree)} (hkeys : (rows.map Prod.fst).Nodup)
    (hpre : h <+: h') (hrows : List.Forall₂ (fun p q => Made (readRow n) h h' p q) rows ts) :
    Made (read (n + 1)) h (h' ++ [.dict (dictOf rows)]) (.ref h'.length) (.dict ts) := by
  intro g hg
  obtain ⟨hobj, hbelow⟩ := read_alloc hpre hg
  refine (read_dict hobj).mpr ⟨ts, ?_, rfl⟩
  rw [dictOf_rows hkeys]
  exact hrows.imp fun p q hpq => readRow_eq.mp (hpq g hbelow)

theorem made_list {items : List Val} {ts : List Tree} (hpre : h <+: h')
    (hitems : List.Forall₂ (fun v t => Made (read n) h h' v t) items ts) :
    Made (read (n + 1)) h (h' ++ [.list items]) (.ref h'.length) (.list ts) := by
  intro g hg
  obtain ⟨hobj, hbelow⟩ := read_alloc hpre hg
  exact (read_list hobj).mpr ⟨ts, hitems.imp fun v t hvt => hvt g hbelow, rfl⟩

/-! ### What changes one object -/

/-- A heap goes on, with all it had but for the object at `r`. -/
structure Frame (r : ℕ) (h h' : Heap) : Prop where
  length_le : h.length ≤ h'.length
  same : ∀ i < h.length, i ≠ r → h'[i]? = h[i]?

variable {r : ℕ} {h₀ : Heap}

theorem Frame.of_le (hpre : h <+: h') : Frame r h h' := ⟨hpre.length_le, fun _ hi _ => getElem?_of_le hpre hi⟩

theorem Frame.set (r : ℕ) (h : Heap) (o : Obj) : Frame r h (h.set r o) :=
  ⟨by simp, fun _ _ hne => List.getElem?_set_ne (Ne.symm hne)⟩

theorem Frame.trans (hfirst : Frame r h h') (hnext : Frame r h' g) : Frame r h g :=
  ⟨hfirst.length_le.trans hnext.length_le, fun i hi hne =>
    (hnext.same i (hi.trans_le hfirst.length_le) hne).trans (hfirst.same i hi hne)⟩

/-- What lies below the object is still there. -/
theorem Frame.keeps (hframe : Frame r h h') (hpre : h₀ <+: h) (hr : h₀.length ≤ r) : h₀ <+: h' := by
  rw [List.prefix_iff_getElem?]
  intro i hi
  rw [hframe.same i (hi.trans_le hpre.length_le) (by omega), getElem?_of_le hpre hi, List.getElem?_eq_getElem hi]

theorem Made.framed {γ : Type} {look : Heap → β → Option γ} {b : β} {c : γ} (hmade : Made look h h' b c)
    (hr : r < h.length) (hframe : Frame r h' g) : look g b = some c :=
  hmade g fun i hlo hhi => hframe.same i hhi (by omega)

/-- Entries that go in pairs are found in pairs. -/
theorem forall₂_find? {γ δ : Type} {R : Scalar × γ → Scalar × δ → Prop} {fields : Entries γ} {fields' : Entries δ}
    (hkey : ∀ p q, R p q → q.1 = p.1) (hpairs : List.Forall₂ R fields.rows fields'.rows) (key : Scalar) :
    (fields.find? key = none ∧ fields'.find? key = none) ∨
      ∃ p q, fields.find? key = some p ∧ fields'.find? key = some q ∧ R p q := by
  rw [Table.find?, Table.find?]
  generalize fields.rows = rows at hpairs
  generalize fields'.rows = rows' at hpairs
  induction hpairs with
  | nil => exact Or.inl ⟨rfl, rfl⟩
  | @cons p q _ _ hpq _ ih =>
    have hq := hkey p q hpq
    by_cases hp : p.1 = key
    · exact Or.inr ⟨p, q, by simp [hp], by simp [hq, hp], hpq⟩
    · rw [List.find?_cons_of_neg (by simpa using hp), List.find?_cons_of_neg (by simpa [hq] using hp)]
      exact ih

/-! ### Strings of trees -/

theorem mapFields_eq (f : List Char → List Char) (fields : List (Scalar × Tree)) :
    mapFields f fields = fields.map fun q => (q.1, q.2.mapStrings f) := by
  induction fields with
  | nil => rfl
  | cons q fields ih => rw [mapFields, ih, List.map_cons]

theorem mapItems_eq (f : List Char → List Char) (items : List Tree) :
    mapItems f items = items.map (Tree.mapStrings f) := by
  induction items with
  | nil => rfl
  | cons t items ih => rw [mapItems, ih, List.map_cons]

mutual

theorem Tree.strings_mapStrings (f : List Char → List Char) : ∀ t : Tree, (t.mapStrings f).strings = t.strings.map f
  | .scalar s => by cases s <;> rfl
  | .dict fields => fieldStrings_mapFields f fields
  | .list items => itemStrings_mapItems f items
  | .tuple items => itemStrings_mapItems f items

theorem fieldStrings_mapFields (f : List Char → List Char) :
    ∀ fields, fieldStrings (mapFields f fields) = (fieldStrings fields).map f
  | [] => rfl
  | (key, t) :: fields => by
    rw [mapFields, fieldStrings, fieldStrings, List.map_append, t.strings_mapStrings f, fieldStrings_mapFields f fields]

theorem itemStrings_mapItems (f : List Char → List Char) :
    ∀ items, itemStrings (mapItems f items) = (itemStrings items).map f
  | [] => rfl
  | t :: items => by
    rw [mapItems, itemStrings, itemStrings, List.map_append, t.strings_mapStrings f, itemStrings_mapItems f items]

end

mutual

theorem Tree.mapStrings_mapStrings {f : List Char → List Char} (hf : ∀ t, f (f t) = f t) :
    ∀ t : Tree, (t.mapStrings f).mapStrings f = t.mapStrings f
  | .scalar s => by
    cases s with
    | str t => rw [Tree.mapStrings, Tree.mapStrings, hf]
    | none => rfl
    | bool b => rfl
    | int n => rfl
    | float x => rfl
    | other id => rfl
  | .dict fields => congrArg Tree.dict (mapFields_mapFields hf fields)
  | .list items => congrArg Tree.list (mapItems_mapItems hf items)
  | .tuple items => congrArg Tree.list (mapItems_mapItems hf items)

theorem mapFields_mapFields {f : List Char → List Char} (hf : ∀ t, f (f t) = f t) :
    ∀ fields, mapFields f (mapFields f fields) = mapFields f fields
  | [] => rfl
  | (key, t) :: fields => by
    rw [mapFields, mapFields, t.mapStrings_mapStrings hf, mapFields_mapFields hf fields]

theorem mapItems_mapItems {f : List Char → List Char} (hf : ∀ t, f (f t) = f t) :
    ∀ items, mapItems f (mapItems f items) = mapItems f items
  | [] => rfl
  | t :: items => by rw [mapItems, mapItems, t.mapStrings_mapStrings hf, mapItems_mapItems hf items]

end

end PyHeap

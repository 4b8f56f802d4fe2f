/-
How a file system looks up a path, and the single changes it makes.

`lookup` takes every name from a directory and follows every link, so it fails where a name
is looked up in something that is missing or no directory; the last name itself may be
missing, which is how a file is created.  `realpath` asks for nothing to exist.  The two
agree where `lookup` succeeds (`realpath_of_lookup`), and `realpath` depends on nothing but
the links (`realpath_congr`), which is what lets a result about a later tree be stated of an
earlier one.

`edit` changes one entry: it sets what stands at a path that is no directory, or takes it
away.
-/
import CyClaw.Lib.FileTree

namespace FileTree

variable {ν γ : Type}

/-- Why a lookup fails. -/
inductive Lost where
  | notFound
  | notDirectory
  | loop
deriving DecidableEq

/-- What keeps a name from being looked up at a place. -/
def obstacle (t : FileTree ν γ) (here : List ν) : Option Lost :=
  match t.entry here with
  | some .dir => none
  | none => some .notFound
  | some _ => some .notDirectory

/-- Walk from a place, handing every link over to `chase`.  Above the root is the root. -/
def hike (t : FileTree ν γ) (bar : List ν → Option Lost)
    (chase : List ν → List (Hop ν) → Except Lost (List ν)) : List ν → List (Hop ν) → Except Lost (List ν)
  | here, [] => .ok here
  | here, hop :: rest =>
      match bar here with
      | some e => .error e
      | none =>
          match hop with
          | .up => hike t bar chase here.dropLast rest
          | .down name =>
              match t.linkAt (here ++ [name]) with
              | some target => chase here (target ++ rest)
              | none => hike t bar chase (here ++ [name]) rest

/-- Walk through at most so many links. -/
def hikeLinks (t : FileTree ν γ) (bar : List ν → Option Lost) :
    ℕ → List ν → List (Hop ν) → Except Lost (List ν)
  | 0 => hike t bar fun _ _ => .error .loop
  | limit + 1 => hike t bar (hikeLinks t bar limit)

/-- Where a path leads.  Its last name need not be there. -/
def lookup (t : FileTree ν γ) (limit : ℕ) (p : List ν) : Except Lost (List ν) :=
  hikeLinks t t.obstacle limit [] (p.map .down)

/-- Where a path leads, whatever of it exists. -/
def realpath (t : FileTree ν γ) (limit : ℕ) (p : List ν) : Except Lost (List ν) :=
  hikeLinks t (fun _ => none) limit [] (p.map .down)

/-- Where a path leads, if all of it exists. -/
def realpathStrict (t : FileTree ν γ) (limit : ℕ) (p : List ν) : Except Lost (List ν) :=
  match t.lookup limit p with
  | .ok q => if (t.entry q).isSome then .ok q else .error .notFound
  | .error e => .error e

section Walks

variable {t t' : FileTree ν γ} {bar bar' : List ν → Option Lost}
  {chase chase' : List ν → List (Hop ν) → Except Lost (List ν)}

/-- What one step of a walk that ends somewhere was. -/
theorem hike_cons_iff {here q : List ν} {hop : Hop ν} {rest : List (Hop ν)} :
    hike t bar chase here (hop :: rest) = .ok q ↔
      bar here = none ∧
        match hop with
        | .up => hike t bar chase here.dropLast rest = .ok q
        | .down name =>
            match t.linkAt (here ++ [name]) with
            | some target => chase here (target ++ rest) = .ok q
            | none => hike t bar chase (here ++ [name]) rest = .ok q := by
  rw [hike.eq_def]
  dsimp only
  cases hbar : bar here with
  | some e => simp
  | none =>
      cases hop with
      | up => simp
      | down name => cases hlink : t.linkAt (here ++ [name]) <;> simp [hlink]

/-- **The walk rule.** -/
theorem hike_inv {I : List ν → Prop} (hup : ∀ here, I here → I here.dropLast)
    (hdown : ∀ here name, I here → bar here = none → t.linkAt (here ++ [name]) = none → I (here ++ [name]))
    (hchase : ∀ here hops q, I here → chase here hops = .ok q → I q)
    {here q : List ν} {hops : List (Hop ν)} (hhere : I here) (h : hike t bar chase here hops = .ok q) :
    I q := by
  induction hops generalizing here with
  | nil =>
      obtain rfl : here = q := by simpa [hike] using h
      exact hhere
  | cons hop rest ih =>
      obtain ⟨hbar, h⟩ := hike_cons_iff.mp h
      cases hop with
      | up => exact ih (hup here hhere) h
      | down name =>
          dsimp only at h
          split at h
          · exact hchase _ _ _ hhere h
          · rename_i hlink
            exact ih (hdown here name hhere hbar hlink) h

theorem hikeLinks_inv {I : List ν → Prop} (hup : ∀ here, I here → I here.dropLast)
    (hdown : ∀ here name, I here → bar here = none → t.linkAt (here ++ [name]) = none → I (here ++ [name]))
    {limit : ℕ} {here q : List ν} {hops : List (Hop ν)} (hhere : I here)
    (h : hikeLinks t bar limit here hops = .ok q) : I q := by
  induction limit generalizing here hops q with
  | zero => exact hike_inv hup hdown (fun _ _ _ _ h => by cases h) hhere h
  | succ limit ih => exact hike_inv hup hdown (fun _ _ _ hhere h => ih hhere h) hhere h

/-- A walk that ends somewhere ends there too in a tree with the same links and no more bars. -/
theorem hike_mono (hlinks : ∀ p, t'.linkAt p = t.linkAt p) (hbar : ∀ p, bar p = none → bar' p = none)
    (hchase : ∀ here hops q, chase here hops = .ok q → chase' here hops = .ok q)
    {here q : List ν} {hops : List (Hop ν)} (h : hike t bar chase here hops = .ok q) :
    hike t' bar' chase' here hops = .ok q := by
  induction hops generalizing here with
  | nil => exact h
  | cons hop rest ih =>
      obtain ⟨hnone, h⟩ := hike_cons_iff.mp h
      refine hike_cons_iff.mpr ⟨hbar _ hnone, ?_⟩
      cases hop with
      | up => exact ih h
      | down name =>
          dsimp only at h ⊢
          rw [hlinks]
          cases hlink : t.linkAt (here ++ [name]) with
          | some target =>
              rw [hlink] at h
              exact hchase _ _ _ h
          | none =>
              rw [hlink] at h
              exact ih h

theorem hikeLinks_mono (hlinks : ∀ p, t'.linkAt p = t.linkAt p)
    (hbar : ∀ p, bar p = none → bar' p = none) {limit : ℕ} {here q : List ν} {hops : List (Hop ν)}
    (h : hikeLinks t bar limit here hops = .ok q) : hikeLinks t' bar' limit here hops = .ok q := by
  induction limit generalizing here hops q with
  | zero => exact hike_mono hlinks hbar (fun _ _ _ h => h) h
  | succ limit ih => exact hike_mono hlinks hbar (fun _ _ _ h => ih h) h

theorem hike_append {rest : List (Hop ν)} {T : List ν → Prop} {q : List ν}
    (hchase : ∀ here hops, chase here (hops ++ rest) = .ok q → ∃ mid, chase here hops = .ok mid ∧ T mid)
    (hrest : ∀ mid, hike t bar chase mid rest = .ok q → T mid) {here : List ν} {hops : List (Hop ν)}
    (h : hike t bar chase here (hops ++ rest) = .ok q) :
    ∃ mid, hike t bar chase here hops = .ok mid ∧ T mid := by
  induction hops generalizing here with
  | nil => exact ⟨here, rfl, hrest here h⟩
  | cons hop hops ih =>
      rw [List.cons_append] at h
      obtain ⟨hnone, h⟩ := hike_cons_iff.mp h
      simp only [hike_cons_iff, hnone, true_and]
      cases hop with
      | up => exact ih h
      | down name =>
          dsimp only at h ⊢
          cases hlink : t.linkAt (here ++ [name]) with
          | some target =>
              rw [hlink] at h
              dsimp only at h
              rw [← List.append_assoc] at h
              exact hchase _ _ h
          | none =>
              rw [hlink] at h
              exact ih h

/-- A walk is one to a place on the way and one from there on. -/
theorem hikeLinks_append {limit : ℕ} {here q : List ν} {hops rest : List (Hop ν)}
    (h : hikeLinks t bar limit here (hops ++ rest) = .ok q) :
    ∃ mid, hikeLinks t bar limit here hops = .ok mid ∧ ∃ left, hikeLinks t bar left mid rest = .ok q := by
  induction limit generalizing here hops q with
  | zero =>
      exact hike_append (T := fun mid => ∃ left, hikeLinks t bar left mid rest = .ok q)
        (fun _ _ h => by cases h) (fun mid h => ⟨0, h⟩) h
  | succ limit ih =>
      have hchase : ∀ here hops, hikeLinks t bar limit here (hops ++ rest) = .ok q →
          ∃ mid, hikeLinks t bar limit here hops = .ok mid ∧
            ∃ left, hikeLinks t bar left mid rest = .ok q := fun _ _ h => ih h
      exact hike_append hchase (fun mid h => ⟨limit + 1, h⟩) h

theorem hike_snoc {d : List ν} {name : ν} (hbar : bar d = none) (hlink : t.linkAt (d ++ [name]) = none)
    (hchase : ∀ here hops, chase here hops = .ok d → chase here (hops ++ [.down name]) = .ok (d ++ [name]))
    {here : List ν} {hops : List (Hop ν)} (h : hike t bar chase here hops = .ok d) :
    hike t bar chase here (hops ++ [.down name]) = .ok (d ++ [name]) := by
  induction hops generalizing here with
  | nil =>
      obtain rfl : here = d := by simpa [hike] using h
      refine hike_cons_iff.mpr ⟨hbar, ?_⟩
      dsimp only
      rw [hlink]
      rfl
  | cons hop hops ih =>
      obtain ⟨hnone, h⟩ := hike_cons_iff.mp h
      rw [List.cons_append]
      refine hike_cons_iff.mpr ⟨hnone, ?_⟩
      cases hop with
      | up => exact ih h
      | down name' =>
          dsimp only at h ⊢
          cases hlink' : t.linkAt (here ++ [name']) with
          | some target =>
              rw [hlink'] at h
              dsimp only at h ⊢
              rw [← List.append_assoc]
              exact hchase _ _ h
          | none =>
              rw [hlink'] at h
              exact ih h

/-- One name more, where no link stands. -/
theorem hikeLinks_snoc {limit : ℕ} {here d : List ν} {hops : List (Hop ν)} {name : ν}
    (hbar : bar d = none) (hlink : t.linkAt (d ++ [name]) = none)
    (h : hikeLinks t bar limit here hops = .ok d) :
    hikeLinks t bar limit here (hops ++ [.down name]) = .ok (d ++ [name]) := by
  induction limit generalizing here hops with
  | zero => exact hike_snoc hbar hlink (fun _ _ h => by cases h) h
  | succ limit ih => exact hike_snoc hbar hlink (fun _ _ h => ih h) h

/-- A walk along a path no link and no bar stands on. -/
theorem hike_of_clear {here p : List ν} (hclear : t.Clear (here ++ p))
    (hbar : ∀ q, q <+: p → q ≠ p → bar (here ++ q) = none) :
    hike t bar chase here (p.map .down) = .ok (here ++ p) := by
  induction p generalizing here with
  | nil => simp [hike]
  | cons name rest ih =>
      have hhere : bar here = none := by
        simpa using hbar [] List.nil_prefix (List.cons_ne_nil _ _).symm
      have hlink : t.linkAt (here ++ [name]) = none := hclear _ ⟨rest, by simp⟩
      refine hike_cons_iff.mpr ⟨hhere, ?_⟩
      dsimp only
      rw [hlink]
      have hrest := @ih (here ++ [name]) (by simpa using hclear) fun q hq hne => by
        have hlonger := hbar (name :: q) (List.cons_prefix_cons.mpr ⟨rfl, hq⟩) (by simpa using hne)
        simpa using hlonger
      simpa using hrest

end Walks

/-! ### Lookups -/

section Lookups

variable {t t' : FileTree ν γ} {limit : ℕ} {p q : List ν}

theorem obstacle_eq_none : t.obstacle p = none ↔ t.isDir p = true := by
  unfold obstacle isDir
  split <;> simp_all

theorem lookup_of_clear (hclear : t.Clear p) (hdirs : ∀ q, q <+: p → q ≠ p → t.isDir q = true) :
    t.lookup limit p = .ok p := by
  have hbar : ∀ q, q <+: p → q ≠ p → t.obstacle q = none := fun q hq hne =>
    obstacle_eq_none.mpr (hdirs q hq hne)
  cases limit with
  | zero => exact hike_of_clear hclear hbar
  | succ limit => exact hike_of_clear hclear hbar

/-- What exists with no link on the way is where its path leads. -/
theorem lookup_of_entry (hclear : t.Clear p) (hentry : t.entry p ≠ none) : t.lookup limit p = .ok p :=
  lookup_of_clear hclear fun _ hq hne => isDir_of_entry hentry hq hne

theorem realpath_of_clear (hclear : t.Clear p) : t.realpath limit p = .ok p := by
  cases limit with
  | zero => exact hike_of_clear hclear fun _ _ _ => rfl
  | succ limit => exact hike_of_clear hclear fun _ _ _ => rfl

theorem clear_of_lookup (h : t.lookup limit p = .ok q) : t.Clear q :=
  hikeLinks_inv (fun _ hhere => hhere.of_le (List.dropLast_prefix _))
    (fun _ _ hhere _ hlink => hhere.concat hlink) t.clear_root h

theorem clear_of_realpath (h : t.realpath limit p = .ok q) : t.Clear q :=
  hikeLinks_inv (fun _ hhere => hhere.of_le (List.dropLast_prefix _))
    (fun _ _ hhere _ hlink => hhere.concat hlink) t.clear_root h

theorem realpath_of_lookup (h : t.lookup limit p = .ok q) : t.realpath limit p = .ok q :=
  hikeLinks_mono (fun _ => rfl) (fun _ _ => rfl) h

/-- Where a path leads depends on nothing but the links. -/
theorem realpath_congr (hlinks : ∀ p, t'.linkAt p = t.linkAt p) (h : t'.realpath limit p = .ok q) :
    t.realpath limit p = .ok q :=
  hikeLinks_mono (fun p => (hlinks p).symm) (fun _ h => h) h

/-- A lookup goes on where every directory stays one and every link stays as it is. -/
theorem lookup_mono (hlinks : ∀ p, t'.linkAt p = t.linkAt p)
    (hdirs : ∀ p, t.isDir p = true → t'.isDir p = true) (h : t.lookup limit p = .ok q) :
    t'.lookup limit p = .ok q :=
  hikeLinks_mono hlinks (fun p hp => obstacle_eq_none.mpr (hdirs p (obstacle_eq_none.mp hp))) h

/-- The last name of a path is looked up in the directory the rest leads to. -/
theorem lookup_concat {name : ν} (h : t.lookup limit (p ++ [name]) = .ok q) :
    ∃ d, t.lookup limit p = .ok d ∧ t.isDir d = true ∧ (t.linkAt (d ++ [name]) = none → q = d ++ [name]) := by
  rw [lookup, List.map_append] at h
  obtain ⟨d, hd, left, hlast⟩ := hikeLinks_append h
  refine ⟨d, hd, ?_⟩
  have hstep : ∀ chase, hike t t.obstacle chase d [.down name] = .ok q →
      t.isDir d = true ∧ (t.linkAt (d ++ [name]) = none → q = d ++ [name]) := by
    intro chase h
    obtain ⟨hbar, h⟩ := hike_cons_iff.mp h
    refine ⟨obstacle_eq_none.mp hbar, fun hlink => ?_⟩
    dsimp only at h
    rw [hlink] at h
    exact (Except.ok.inj h).symm
  cases left with
  | zero => exact hstep _ hlast
  | succ left => exact hstep _ hlast

theorem lookup_root : t.lookup limit [] = .ok [] := by
  cases limit <;> rfl

/-- A name in a directory is looked up there. -/
theorem lookup_snoc {d : List ν} {name : ν} (h : t.lookup limit p = .ok d) (hdir : t.isDir d = true)
    (hlink : t.linkAt (d ++ [name]) = none) : t.lookup limit (p ++ [name]) = .ok (d ++ [name]) := by
  rw [lookup, List.map_append]
  exact hikeLinks_snoc (obstacle_eq_none.mpr hdir) hlink h

/-- What is found stands in a directory. -/
theorem parent_of_lookup (h : t.lookup limit p = .ok q) : q = [] ∨ t.isDir q.dropLast = true := by
  refine hikeLinks_inv (I := fun q => q = [] ∨ t.isDir q.dropLast = true) ?_ ?_ (Or.inl rfl) h
  · intro here hhere
    by_cases hnil : here.dropLast = []
    · exact Or.inl hnil
    · obtain rfl | hdir := hhere
      · exact absurd rfl hnil
      · right
        refine isDir_of_entry (p := here.dropLast) ?_ (List.dropLast_prefix _) ?_
        · intro hnone
          rw [isDir, hnone] at hdir
          cases hdir
        · intro heq
          have hlen := congrArg List.length heq
          rw [List.length_dropLast] at hlen
          have hpos := List.length_pos_iff.mpr hnil
          omega
  · intro here name _ hbar _
    right
    rw [List.dropLast_concat]
    exact obstacle_eq_none.mp hbar

end Lookups

/-! ### Changing one entry -/

section Edits

/-- A path where an entry can be set: it stands in a directory and is none itself. -/
def settable (t : FileTree ν γ) (p : List ν) : Bool := p ≠ [] && t.isDir p.dropLast && !t.isDir p

theorem settable_iff {t : FileTree ν γ} {p : List ν} :
    t.settable p = true ↔ p ≠ [] ∧ t.isDir p.dropLast = true ∧ t.isDir p = false := by
  simp [settable, and_assoc]

theorem entry_of_isDir {t : FileTree ν γ} {p : List ν} (h : t.isDir p = true) : t.entry p = some .dir := by
  unfold isDir at h
  split at h
  · assumption
  · cases h

/-- Nothing stands below what is no directory. -/
theorem entry_below {t : FileTree ν γ} {p : List ν} (h : t.isDir p = false) (name : ν) :
    t.entry (p ++ [name]) = none := by
  by_contra hne
  rw [isDir, t.parents p name hne] at h
  cases h

variable [DecidableEq ν]

theorem parents_update {t : FileTree ν γ} {p : List ν} {node : Option (Node ν γ)}
    (hset : t.settable p = true) (q : List ν) (name : ν)
    (h : Function.update t.entry p node (q ++ [name]) ≠ none) :
    Function.update t.entry p node q = some .dir := by
  obtain ⟨hne, hparent, hdir⟩ := settable_iff.mp hset
  by_cases hq : q = p
  · -- What is set is no directory, so there is nothing below it.
    rw [hq, Function.update_of_ne (by simp)] at h
    exact absurd (entry_below hdir name) h
  · rw [Function.update_of_ne hq]
    by_cases hqp : q ++ [name] = p
    · rw [← hqp, List.dropLast_concat] at hparent
      exact entry_of_isDir hparent
    · rw [Function.update_of_ne hqp] at h
      exact t.parents q name h

/-- Set or take away what stands at a path. -/
def edit (t : FileTree ν γ) (p : List ν) (node : Option (Node ν γ)) : Option (FileTree ν γ) :=
  if h : t.settable p = true then
    some
      { entry := Function.update t.entry p node
        root := by rw [Function.update_of_ne (settable_iff.mp h).1.symm, t.root]
        parents := parents_update h }
  else none

variable {t t' : FileTree ν γ} {p : List ν} {node : Option (Node ν γ)}

theorem entry_edit (h : t.edit p node = some t') : t'.entry = Function.update t.entry p node := by
  rw [edit] at h
  split at h
  · rw [← Option.some.inj h]
  · cases h

theorem settable_of_edit (h : t.edit p node = some t') : t.settable p = true := by
  rw [edit] at h
  split at h
  · assumption
  · cases h

theorem isDir_edit (h : t.edit p node = some t') {q : List ν} (hq : t.isDir q = true) :
    t'.isDir q = true := by
  have hne : q ≠ p := by
    rintro rfl
    rw [(settable_iff.mp (settable_of_edit h)).2.2] at hq
    cases hq
  rw [isDir, entry_edit h, Function.update_of_ne hne]
  exact hq

/-- Where no link stood and none is set, the links stay as they are. -/
theorem linkAt_edit (h : t.edit p node = some t') (hp : t.linkAt p = none)
    (hnode : ∀ target, node ≠ some (.link target)) (q : List ν) : t'.linkAt q = t.linkAt q := by
  by_cases hq : q = p
  · rw [hq, hp, linkAt, entry_edit h, Function.update_self]
    split
    · rename_i target
      exact absurd rfl (hnode target)
    · rfl
  · rw [linkAt, entry_edit h, Function.update_of_ne hq, linkAt]

end Edits

end FileTree

/-
File trees with symbolic links.

A tree is what stands under one directory, by its path from there.  A link leads to a path
from the directory it stands in, and following one may run through others, so a walk has a
limit on how many it follows: a walk that would need more is a loop and ends nowhere, as
does one that leaves the tree.

Two ways to look at a path differ in what they do with links.  `resolve` follows them and
says where the path lands, which depends on nothing but the links (`resolve_congr`);
`nofollow` stops at a directory on the way that is a link, and so sees exactly what has an
entry of its own (`nofollow_eq_entry`).
-/
import Mathlib.Data.List.Infix

/-- One step of a path. -/
inductive Hop (ν : Type) where
  | up
  | down (name : ν)
deriving DecidableEq

inductive Node (ν γ : Type) where
  | dir
  | file (content : γ)
  | link (target : List (Hop ν))
deriving DecidableEq

/-- What stands under a directory.  Only a directory holds anything. -/
structure FileTree (ν γ : Type) where
  entry : List ν → Option (Node ν γ)
  root : entry [] = some .dir
  parents : ∀ p name, entry (p ++ [name]) ≠ none → entry p = some .dir

namespace FileTree

variable {ν γ : Type}

def linkAt (t : FileTree ν γ) (p : List ν) : Option (List (Hop ν)) :=
  match t.entry p with
  | some (.link target) => some target
  | _ => none

def fileAt (t : FileTree ν γ) (p : List ν) : Option γ :=
  match t.entry p with
  | some (.file content) => some content
  | _ => none

def isDir (t : FileTree ν γ) (p : List ν) : Bool :=
  match t.entry p with
  | some .dir => true
  | _ => false

theorem isDir_iff {t : FileTree ν γ} {r : List ν} : t.isDir r = true ↔ t.entry r = some .dir := by
  unfold isDir
  split <;> simp_all

theorem isSome_fileAt {t : FileTree ν γ} {r : List ν} : (t.fileAt r).isSome = true ↔ ∃ c, t.entry r = some (.file c) := by
  unfold fileAt
  split <;> simp_all

theorem linkAt_root (t : FileTree ν γ) : t.linkAt [] = none := by
  rw [linkAt, t.root]

theorem ext_entry {t t' : FileTree ν γ} (h : t.entry = t'.entry) : t = t' := by
  cases t
  cases t'
  cases h
  rfl

/-! ### Where a path lands -/

/-- How a walk can end nowhere. -/
inductive Stray where
  /-- It climbs out of the tree. -/
  | left
  /-- It runs through more links than the limit. -/
  | loop
  /-- It asks that everything on the way exists, and something does not. -/
  | missing
deriving DecidableEq

variable {pass : List ν → Bool} {chase : List ν → List (Hop ν) → Except Stray (List ν)}

/-- Walk from a directory, handing every link over to `chase`.  What `pass` refuses is
taken to be missing. -/
def walk (t : FileTree ν γ) (pass : List ν → Bool) (chase : List ν → List (Hop ν) → Except Stray (List ν)) :
    List ν → List (Hop ν) → Except Stray (List ν)
  | here, [] => .ok here
  | here, .up :: rest => if here.isEmpty then .error .left else walk t pass chase here.dropLast rest
  | here, .down name :: rest =>
      if pass (here ++ [name]) then
        match t.linkAt (here ++ [name]) with
        | some target => chase here (target ++ rest)
        | none => walk t pass chase (here ++ [name]) rest
      else .error .missing

/-- Walk through at most so many links. -/
def walkLinks (t : FileTree ν γ) (pass : List ν → Bool) : ℕ → List ν → List (Hop ν) → Except Stray (List ν)
  | 0 => walk t pass fun _ _ => .error .loop
  | limit + 1 => walk t pass (walkLinks t pass limit)

/-- Where a path lands, whether or not anything stands there. -/
def resolve (t : FileTree ν γ) (limit : ℕ) (p : List ν) : Except Stray (List ν) :=
  walkLinks t (fun _ => true) limit [] (p.map .down)

/-- Where a path lands, if everything on the way exists. -/
def resolveStrict (t : FileTree ν γ) (limit : ℕ) (p : List ν) : Except Stray (List ν) :=
  walkLinks t (fun q => (t.entry q).isSome) limit [] (p.map .down)

/-- **The walk rule.**  What a hand-over keeps, and a step past what is no link, a whole
walk keeps. -/
theorem walk_inv {t : FileTree ν γ} {I : List ν → Prop} (hup : ∀ here, I here → I here.dropLast)
    (hdown : ∀ here name, I here → pass (here ++ [name]) = true → t.linkAt (here ++ [name]) = none →
      I (here ++ [name]))
    (hchase : ∀ here hops landed, I here → chase here hops = .ok landed → I landed)
    {here : List ν} {hops : List (Hop ν)} {landed : List ν} (hhere : I here)
    (h : walk t pass chase here hops = .ok landed) : I landed := by
  induction hops generalizing here with
  | nil =>
      simp only [walk, Except.ok.injEq] at h
      rw [← h]
      exact hhere
  | cons hop rest ih =>
      cases hop with
      | up =>
          rw [walk] at h
          split at h
          · cases h
          · exact ih (hup here hhere) h
      | down name =>
          rw [walk] at h
          split at h
          · rename_i hpass
            cases hlink : t.linkAt (here ++ [name]) with
            | some target =>
                rw [hlink] at h
                exact hchase _ _ _ hhere h
            | none =>
                rw [hlink] at h
                exact ih (hdown here name hhere hpass hlink) h
          · cases h

theorem walkLinks_inv {t : FileTree ν γ} {I : List ν → Prop} (hup : ∀ here, I here → I here.dropLast)
    (hdown : ∀ here name, I here → pass (here ++ [name]) = true → t.linkAt (here ++ [name]) = none →
      I (here ++ [name]))
    {limit : ℕ} {here : List ν} {hops : List (Hop ν)} {landed : List ν} (hhere : I here)
    (h : walkLinks t pass limit here hops = .ok landed) : I landed := by
  induction limit generalizing here hops landed with
  | zero => exact walk_inv hup hdown (by nofun) hhere h
  | succ limit ih => exact walk_inv hup hdown (fun _ _ _ hhere h => ih hhere h) hhere h

theorem walk_congr {t t' : FileTree ν γ} (h : ∀ p, t.linkAt p = t'.linkAt p)
    {chase' : List ν → List (Hop ν) → Except Stray (List ν)} (hchase : ∀ p hops, chase p hops = chase' p hops)
    (here : List ν) (hops : List (Hop ν)) : walk t pass chase here hops = walk t' pass chase' here hops := by
  induction hops generalizing here with
  | nil => rfl
  | cons hop rest ih =>
      cases hop with
      | up =>
          rw [walk, walk, ih]
      | down name =>
          rw [walk, walk, h]
          cases t'.linkAt (here ++ [name]) with
          | none => simp only [ih]
          | some target => simp only [hchase]

/-- Where a path lands depends on nothing but the links. -/
theorem resolve_congr {t t' : FileTree ν γ} (h : ∀ p, t.linkAt p = t'.linkAt p) (limit : ℕ) (p : List ν) :
    t.resolve limit p = t'.resolve limit p := by
  have hwalk : ∀ here hops, walkLinks t (fun _ => true) limit here hops =
      walkLinks t' (fun _ => true) limit here hops := by
    induction limit with
    | zero => exact walk_congr h (fun _ _ => rfl)
    | succ limit ih => exact walk_congr h ih
  exact hwalk [] _

/-- No link stands at a path or on the way to it. -/
def Clear (t : FileTree ν γ) (p : List ν) : Prop := ∀ q, q <+: p → t.linkAt q = none

theorem Clear.of_le {t : FileTree ν γ} {p q : List ν} (h : t.Clear p) (hq : q <+: p) : t.Clear q :=
  fun r hr => h r (hr.trans hq)

theorem Clear.concat {t : FileTree ν γ} {p : List ν} {name : ν} (h : t.Clear p)
    (hname : t.linkAt (p ++ [name]) = none) : t.Clear (p ++ [name]) := by
  intro q hq
  obtain hq | rfl := (List.prefix_concat_iff.mp hq).symm
  · exact h q hq
  · exact hname

theorem clear_root (t : FileTree ν γ) : t.Clear [] := by
  intro q hq
  rw [List.prefix_nil.mp hq]
  exact t.linkAt_root

/-- **No link stands on the way to where a path lands.** -/
theorem clear_of_resolve {t : FileTree ν γ} {limit : ℕ} {p landed : List ν}
    (h : t.resolve limit p = .ok landed) : t.Clear landed :=
  walkLinks_inv (fun _ hhere => hhere.of_le (List.dropLast_prefix _))
    (fun _ _ hhere _ hlink => hhere.concat hlink) t.clear_root h

theorem walk_of_clear {t : FileTree ν γ} {here p : List ν} (h : t.Clear (here ++ p)) :
    walk t (fun _ => true) chase here (p.map .down) = .ok (here ++ p) := by
  induction p generalizing here with
  | nil => simp [walk]
  | cons name rest ih =>
      have hlink : t.linkAt (here ++ [name]) = none := h _ ⟨rest, by simp⟩
      rw [List.map_cons, walk, if_pos rfl, hlink]
      have hrest := @ih (here ++ [name]) (by simpa using h)
      simpa using hrest

theorem resolve_of_clear {t : FileTree ν γ} {p : List ν} (h : t.Clear p) (limit : ℕ) :
    t.resolve limit p = .ok p := by
  cases limit with
  | zero => exact walk_of_clear h
  | succ limit => exact walk_of_clear h

theorem walk_of_strict {t : FileTree ν γ} {chase' : List ν → List (Hop ν) → Except Stray (List ν)}
    (hchase : ∀ p hops landed, chase p hops = .ok landed → chase' p hops = .ok landed)
    {here landed : List ν} {hops : List (Hop ν)} (h : walk t pass chase here hops = .ok landed) :
    walk t (fun _ => true) chase' here hops = .ok landed := by
  induction hops generalizing here with
  | nil => exact h
  | cons hop rest ih =>
      cases hop with
      | up =>
          rw [walk] at h ⊢
          split at h
          · cases h
          · rename_i hne
            rw [if_neg hne]
            exact ih h
      | down name =>
          rw [walk] at h ⊢
          split at h
          · rw [if_pos rfl]
            cases hlink : t.linkAt (here ++ [name]) with
            | some target =>
                rw [hlink] at h
                exact hchase _ _ _ h
            | none =>
                rw [hlink] at h
                exact ih h
          · cases h

/-- **A strict look lands where a plain one does.** -/
theorem resolve_of_strict {t : FileTree ν γ} {limit : ℕ} {p landed : List ν}
    (h : t.resolveStrict limit p = .ok landed) : t.resolve limit p = .ok landed := by
  have hwalk : ∀ limit here hops landed, walkLinks t (fun q => (t.entry q).isSome) limit here hops =
      .ok landed → walkLinks t (fun _ => true) limit here hops = .ok landed := by
    intro limit
    induction limit with
    | zero =>
        intro here hops landed h
        exact walk_of_strict (by nofun) h
    | succ limit ih =>
        intro here hops landed h
        exact walk_of_strict ih h
  exact hwalk _ _ _ _ h

/-! ### Looking without following -/

/-- What stands at a path, with no link followed on the way. -/
def nofollow (t : FileTree ν γ) (p : List ν) : Option (Node ν γ) :=
  if p.dropLast.inits.all t.isDir then t.entry p else none

theorem isDir_of_entry {t : FileTree ν γ} {p q : List ν} (hp : t.entry p ≠ none) (hq : q <+: p)
    (hne : q ≠ p) : t.isDir q = true := by
  induction p using List.reverseRecOn with
  | nil => exact absurd (List.prefix_nil.mp hq) hne
  | append_singleton p name ih =>
      have hq : q <+: p := (List.prefix_concat_iff.mp hq).resolve_left hne
      have hdir := t.parents p name hp
      by_cases heq : q = p
      · rw [heq, isDir, hdir]
      · exact ih (by rw [hdir]; nofun) hq heq

/-- A look that follows no links sees exactly what has an entry of its own. -/
theorem nofollow_eq_entry (t : FileTree ν γ) (p : List ν) : t.nofollow p = t.entry p := by
  by_cases hp : t.entry p = none
  · rw [nofollow, hp, ite_self]
  · refine if_pos ?_
    rw [List.all_eq_true]
    intro q hq
    have hinit : q <+: p.dropLast := (List.mem_inits _ _).mp hq
    by_cases heq : q = p
    · -- Only the root is a prefix of what stands above it.
      have hlen := hinit.length_le
      rw [heq, List.length_dropLast] at hlen
      have hnil : p = [] := List.eq_nil_of_length_eq_zero (by omega)
      rw [heq, hnil, isDir, t.root]
    · exact isDir_of_entry hp (hinit.trans (List.dropLast_prefix p)) heq

theorem linkAt_of_fileAt {t : FileTree ν γ} {p : List ν} {content : γ} (h : t.fileAt p = some content) :
    t.linkAt p = none := by
  rw [fileAt] at h
  rw [linkAt]
  split at h
  · rename_i hentry
    rw [hentry]
  · cases h

/-- A file stands where its own path leads. -/
theorem resolve_of_fileAt {t : FileTree ν γ} {p : List ν} {content : γ} (h : t.fileAt p = some content)
    (limit : ℕ) : t.resolve limit p = .ok p := by
  refine resolve_of_clear ?_ limit
  intro q hq
  by_cases heq : q = p
  · rw [heq]
    exact linkAt_of_fileAt h
  · have hentry : t.entry p ≠ none := by
      intro hnone
      rw [fileAt, hnone] at h
      cases h
    have hdir := isDir_of_entry hentry hq heq
    unfold isDir at hdir
    unfold linkAt
    split at hdir <;> simp_all

/-! ### A tree from a list -/

section OfEntries

variable [DecidableEq ν]

/-- What a list of entries says of a path; the root needs no entry. -/
def lookupIn (entries : List (List ν × Node ν γ)) (p : List ν) : Option (Node ν γ) :=
  if p = [] then some .dir else entries.lookup p

/-- Every entry stands in a directory of the list. -/
def rooted (entries : List (List ν × Node ν γ)) : Bool :=
  entries.all fun e =>
    match lookupIn entries e.1.dropLast with
    | some .dir => true
    | _ => false

theorem mem_of_lookup {entries : List (List ν × Node ν γ)} {p : List ν} (h : entries.lookup p ≠ none) :
    ∃ node, (p, node) ∈ entries := by
  induction entries with
  | nil => exact absurd rfl h
  | cons e es ih =>
      obtain ⟨q, node⟩ := e
      rw [List.lookup_cons] at h
      split at h
      · rename_i heq
        rw [beq_iff_eq] at heq
        exact ⟨node, heq ▸ List.mem_cons_self⟩
      · obtain ⟨node', hmem⟩ := ih h
        exact ⟨node', List.mem_cons_of_mem _ hmem⟩

/-- The tree a list of entries describes. -/
def ofEntries (entries : List (List ν × Node ν γ)) (h : rooted entries = true) : FileTree ν γ where
  entry := lookupIn entries
  root := if_pos rfl
  parents := by
    intro p name hne
    have hnil : p ++ [name] ≠ [] := by simp
    rw [lookupIn, if_neg hnil] at hne
    obtain ⟨node, hmem⟩ := mem_of_lookup hne
    have hdir := List.all_eq_true.mp h _ hmem
    rw [List.dropLast_concat] at hdir
    split at hdir
    · assumption
    · cases hdir

end OfEntries

/-! ### Writing a file -/

/-- A directory stands there or can be made. -/
def passable (t : FileTree ν γ) (p : List ν) : Bool :=
  match t.entry p with
  | none => true
  | some .dir => true
  | _ => false

/-- A file stands there or can be made. -/
def writable (t : FileTree ν γ) (p : List ν) : Bool :=
  match t.entry p with
  | none => true
  | some (.file _) => true
  | _ => false

theorem isDir_of_writable {t : FileTree ν γ} {p : List ν} (h : t.writable p = true) : t.isDir p = false := by
  unfold writable at h
  unfold isDir
  split at h <;> simp_all

theorem linkAt_of_writable {t : FileTree ν γ} {p : List ν} (h : t.writable p = true) : t.linkAt p = none := by
  unfold writable at h
  unfold linkAt
  split at h <;> simp_all

/-- Where a file can be written: no directory or link stands there, and nothing but directories
above. -/
def Fits (t : FileTree ν γ) (p : List ν) : Prop := t.writable p = true ∧ ∀ q, q <+: p → q ≠ p → t.passable q = true

/-! ### A tree that files have been written to -/

/-- What differs is a file that `P` tells of, or a directory made above one. -/
def Grown (P : List ν → γ → Prop) (t t' : FileTree ν γ) : Prop :=
  ∀ r, t'.entry r = t.entry r ∨
    (∃ c, P r c ∧ t'.entry r = some (.file c) ∧ t.isDir r = false) ∨
    (t.entry r = none ∧ t'.entry r = some .dir ∧ ∃ q c, P q c ∧ r <+: q ∧ r ≠ q)

section Grown

variable {P : List ν → γ → Prop} {t t' : FileTree ν γ} {q r : List ν}

theorem Grown.refl (P : List ν → γ → Prop) (t : FileTree ν γ) : t.Grown P t := fun _ => .inl rfl

/-- Directories stay directories, and files stay files. -/
theorem Grown.isDir (h : t.Grown P t') (hr : t.isDir r = true) : t'.isDir r = true := by
  rcases h r with hsame | ⟨c, -, -, hnot⟩ | ⟨hnone, -⟩
  · rwa [isDir_iff, hsame, ← isDir_iff]
  · rw [hr] at hnot
    cases hnot
  · rw [isDir_iff, hnone] at hr
    cases hr

theorem Grown.isSome_fileAt (h : t.Grown P t') (hr : (t.fileAt r).isSome = true) : (t'.fileAt r).isSome = true := by
  rw [FileTree.isSome_fileAt] at hr ⊢
  rcases h r with hsame | ⟨c, -, hfile, -⟩ | ⟨hnone, -⟩
  · rwa [hsame]
  · exact ⟨c, hfile⟩
  · obtain ⟨c, hc⟩ := hr
    rw [hnone] at hc
    cases hc

theorem Grown.entry_ne_none (h : t.Grown P t') (hr : t.entry r ≠ none) : t'.entry r ≠ none := by
  rcases h r with hsame | ⟨c, -, hfile, -⟩ | ⟨hnone, -⟩
  · rwa [hsame]
  · rw [hfile]
    exact Option.some_ne_none _
  · exact absurd hnone hr

/-- What fits, still fits next to files that are neither above nor below. -/
theorem Grown.fits (h : t.Grown P t') (hfits : t.Fits q) (habove : ∀ r c, P r c → r <+: q → r = q)
    (hbelow : ∀ r c, P r c → q <+: r → q = r) : t'.Fits q := by
  obtain ⟨hwritable, hpass⟩ := hfits
  constructor
  · rcases h q with hsame | ⟨c, -, hfile, -⟩ | ⟨-, -, r, c, hr, hinit, hne⟩
    · rwa [writable, hsame]
    · rw [writable, hfile]
    · exact absurd (hbelow r c hr hinit) hne
  · intro r hinit hne
    rcases h r with hsame | ⟨c, hr, -⟩ | ⟨-, hdir, -⟩
    · have hpassable := hpass r hinit hne
      rwa [passable, hsame]
    · exact absurd (habove r c hr hinit) hne
    · rw [passable, hdir]

/-- What has come to stand there did fit. -/
theorem Grown.fits_before (h : t.Grown P t') (hlinks : ∀ r, t.linkAt r = none)
    (hq : (t'.fileAt q).isSome = true ∨ t.entry q = none ∧ t'.entry q ≠ none) : t.Fits q := by
  have hthere : t'.entry q ≠ none := by
    rcases hq with hfile | ⟨-, hthere⟩
    · obtain ⟨c, hc⟩ := FileTree.isSome_fileAt.mp hfile
      rw [hc]
      exact Option.some_ne_none _
    · exact hthere
  constructor
  · cases hentry : t.entry q with
    | none => rw [writable, hentry]
    | some node =>
        cases node with
        | file c => rw [writable, hentry]
        | dir =>
            exfalso
            have hdir := isDir_iff.mp (h.isDir (isDir_iff.mpr hentry))
            rcases hq with hfile | ⟨hnone, -⟩
            · obtain ⟨c, hc⟩ := FileTree.isSome_fileAt.mp hfile
              rw [hdir] at hc
              cases hc
            · rw [hentry] at hnone
              cases hnone
        | link target =>
            have hlink := hlinks q
            rw [linkAt, hentry] at hlink
            cases hlink
  · intro r hinit hne
    have hdir := isDir_iff.mp (isDir_of_entry hthere hinit hne)
    cases hentry : t.entry r with
    | none => rw [passable, hentry]
    | some node =>
        cases node with
        | dir => rw [passable, hentry]
        | file c =>
            exfalso
            obtain ⟨c', hc'⟩ := FileTree.isSome_fileAt.mp (h.isSome_fileAt (FileTree.isSome_fileAt.mpr ⟨c, hentry⟩))
            rw [hdir] at hc'
            cases hc'
        | link target =>
            have hlink := hlinks r
            rw [linkAt, hentry] at hlink
            cases hlink

end Grown

/-! ### The write -/

variable [DecidableEq ν]

/-- The entries after a file has been written, with the directories above it. -/
def written (t : FileTree ν γ) (p : List ν) (content : γ) (q : List ν) : Option (Node ν γ) :=
  if q = p then some (.file content) else if q <+: p then some .dir else t.entry q

theorem written_of_lt {t : FileTree ν γ} {p q : List ν} {content : γ} (hq : q <+: p) (hne : q ≠ p) :
    t.written p content q = some .dir := by
  rw [written, if_neg hne, if_pos hq]

theorem written_root {t : FileTree ν γ} {p : List ν} {content : γ} (hp : t.isDir p = false) :
    t.written p content [] = some .dir := by
  refine written_of_lt List.nil_prefix ?_
  intro heq
  rw [← heq, isDir, t.root] at hp
  cases hp

theorem written_parents {t : FileTree ν γ} {p : List ν} {content : γ} (hp : t.isDir p = false) (q : List ν)
    (name : ν) (h : t.written p content (q ++ [name]) ≠ none) : t.written p content q = some .dir := by
  have hlt : q ++ [name] <+: p → t.written p content q = some .dir := by
    intro hinit
    refine written_of_lt ((List.prefix_append q [name]).trans hinit) ?_
    intro heq
    have hlen := hinit.length_le
    rw [← heq, List.length_append, List.length_singleton] at hlen
    omega
  by_cases hinit : q ++ [name] <+: p
  · exact hlt hinit
  · have hne : q ++ [name] ≠ p := fun heq => hinit (heq ▸ List.prefix_refl _)
    rw [written, if_neg hne, if_neg hinit] at h
    have hdir := t.parents q name h
    have hqp : q ≠ p := by
      intro heq
      rw [← heq, isDir, hdir] at hp
      cases hp
    rw [written, if_neg hqp, hdir, ite_self]

/-- Make the directories above a path and write a file there.  It fails if something else
stands where one of them would, or a directory or a link at the path. -/
def write (t : FileTree ν γ) (p : List ν) (content : γ) : Option (FileTree ν γ) :=
  if h : p.dropLast.inits.all t.passable = true ∧ t.writable p = true then
    some ⟨t.written p content, written_root (isDir_of_writable h.2), written_parents (isDir_of_writable h.2)⟩
  else none

variable {t t' : FileTree ν γ} {p : List ν} {content : γ}

theorem entry_of_write (h : t.write p content = some t') :
    t'.entry = t.written p content ∧ t.writable p = true ∧ ∀ q, q <+: p → q ≠ p → t.passable q = true := by
  rw [write] at h
  split at h
  · rename_i hcond
    rw [Option.some.injEq] at h
    rw [← h]
    refine ⟨rfl, hcond.2, ?_⟩
    intro q hq hne
    refine List.all_eq_true.mp hcond.1 q ((List.mem_inits _ _).mpr ?_)
    obtain ⟨rest, hrest⟩ := hq
    have hne' : rest ≠ [] := by
      rintro rfl
      exact hne (by simpa using hrest)
    rw [← hrest, List.dropLast_append_of_ne_nil hne']
    exact List.prefix_append _ _
  · cases h

/-- A write is at a path no link stands on. -/
theorem clear_of_write (h : t.write p content = some t') : t.Clear p := by
  obtain ⟨-, hwritable, hpass⟩ := entry_of_write h
  intro q hq
  by_cases heq : q = p
  · rw [heq]
    exact linkAt_of_writable hwritable
  · have hpassable := hpass q hq heq
    unfold passable at hpassable
    unfold linkAt
    split at hpassable <;> simp_all

/-- **A write puts one file in place.** -/
theorem fileAt_write (h : t.write p content = some t') (q : List ν) :
    t'.fileAt q = if q = p then some content else t.fileAt q := by
  obtain ⟨hentry, -, hpass⟩ := entry_of_write h
  rw [fileAt, hentry, written]
  by_cases hq : q = p
  · rw [if_pos hq, if_pos hq]
  · rw [if_neg hq, if_neg hq]
    by_cases hinit : q <+: p
    · rw [if_pos hinit, fileAt]
      have hpassable := hpass q hinit hq
      rw [passable] at hpassable
      split at hpassable <;> simp_all
    · rw [if_neg hinit]
      rfl

/-- Nothing goes away by a write. -/
theorem entry_write_ne_none (h : t.write p content = some t') {q : List ν} (hq : t.entry q ≠ none) :
    t'.entry q ≠ none := by
  obtain ⟨hentry, -⟩ := entry_of_write h
  rw [hentry, written]
  split
  · nofun
  · split
    · nofun
    · exact hq

/-- A write leaves the links alone. -/
theorem linkAt_write (h : t.write p content = some t') (q : List ν) : t'.linkAt q = t.linkAt q := by
  obtain ⟨hentry, hwritable, hpass⟩ := entry_of_write h
  rw [linkAt, hentry, written]
  by_cases hq : q = p
  · rw [if_pos hq, hq, linkAt_of_writable hwritable]
  · rw [if_neg hq]
    by_cases hinit : q <+: p
    · rw [if_pos hinit, linkAt]
      have hpassable := hpass q hinit hq
      rw [passable] at hpassable
      split at hpassable <;> simp_all
    · rw [if_neg hinit]
      rfl

theorem exists_write (c : γ) : (∃ t', t.write p c = some t') ↔ t.Fits p := by
  constructor
  · rintro ⟨t', h⟩
    exact (entry_of_write h).2
  · rintro ⟨hwritable, hpass⟩
    have hne : p ≠ [] := by
      rintro rfl
      have hnot := isDir_of_writable hwritable
      rw [isDir, t.root] at hnot
      cases hnot
    have hcond : p.dropLast.inits.all t.passable = true ∧ t.writable p = true := by
      refine ⟨List.all_eq_true.mpr ?_, hwritable⟩
      intro q hq
      have hinit := (List.mem_inits _ _).mp hq
      refine hpass q (hinit.trans (List.dropLast_prefix p)) ?_
      rintro rfl
      have hlength := hinit.length_le
      rw [List.length_dropLast] at hlength
      have hpos := List.length_pos_of_ne_nil hne
      omega
    exact ⟨_, dif_pos hcond⟩

/-- Writing what is there already changes nothing. -/
theorem write_of_fileAt (h : t.fileAt p = some content) : t.write p content = some t := by
  have hentry : t.entry p = some (.file content) := by
    unfold fileAt at h
    split at h
    · rename_i hfile
      rw [Option.some.injEq] at h
      rw [hfile, h]
    · cases h
  have hdir : ∀ q, q <+: p → q ≠ p → t.entry q = some .dir := by
    intro q hq hne
    have hthere : t.entry p ≠ none := by
      rw [hentry]
      exact Option.some_ne_none _
    have habove := isDir_of_entry hthere hq hne
    unfold isDir at habove
    split at habove
    · assumption
    · cases habove
  have hfits : t.Fits p := by
    refine ⟨by rw [writable, hentry], ?_⟩
    intro q hq hne
    rw [passable, hdir q hq hne]
  obtain ⟨t', ht'⟩ := (exists_write content).mpr hfits
  have hsame : t = t' := by
    refine ext_entry ?_
    rw [(entry_of_write ht').1]
    funext q
    unfold written
    by_cases hq : q = p
    · rw [if_pos hq, hq, hentry]
    · rw [if_neg hq]
      by_cases hinit : q <+: p
      · rw [if_pos hinit, hdir q hinit hq]
      · rw [if_neg hinit]
  rw [ht', hsame]

/-- One more file. -/
theorem Grown.write {P : List ν → γ → Prop} {t₁ t₂ : FileTree ν γ} {q : List ν} {c : γ} (h : t.Grown P t₁) (hq : P q c) (hwrite : t₁.write q c = some t₂) : t.Grown P t₂ := by
  obtain ⟨hentry, hwritable, hpass⟩ := entry_of_write hwrite
  intro r
  rw [hentry, written]
  by_cases hr : r = q
  · right; left
    rw [if_pos hr, hr]
    refine ⟨c, hq, rfl, ?_⟩
    cases hdir : t.isDir q with
    | false => rfl
    | true =>
        have hnot := isDir_of_writable hwritable
        rw [h.isDir hdir] at hnot
        cases hnot
  · rw [if_neg hr]
    by_cases hinit : r <+: q
    · rw [if_pos hinit]
      have hpassable := hpass r hinit hr
      rcases h r with hsame | ⟨c', -, hfile, -⟩ | ⟨hnone, -, habove⟩
      · rw [passable] at hpassable
        split at hpassable
        · rename_i hnone
          right; right
          exact ⟨by rw [← hsame, hnone], rfl, q, c, hq, hinit, hr⟩
        · rename_i hdir
          left
          rw [← hsame, hdir]
        · cases hpassable
      · rw [passable, hfile] at hpassable
        cases hpassable
      · exact .inr (.inr ⟨hnone, rfl, habove⟩)
    · rw [if_neg hinit]
      exact h r

/-! ### Removing a file -/

/-- Remove what stands at a path, unless it is a directory. -/
def erase (t : FileTree ν γ) (p : List ν) : FileTree ν γ :=
  if h : t.isDir p = true then t
  else
    { entry := fun q => if q = p then none else t.entry q
      root := by
        rw [if_neg, t.root]
        rintro rfl
        exact h (by rw [isDir, t.root])
      parents := by
        intro q name hne
        have hthere : t.entry (q ++ [name]) ≠ none := by
          intro hnone
          rw [hnone, ite_self] at hne
          exact hne rfl
        have hq := t.parents q name hthere
        rw [if_neg, hq]
        rintro rfl
        exact h (by rw [isDir, hq]) }

theorem entry_erase (t : FileTree ν γ) (p q : List ν) :
    (t.erase p).entry q = if q = p ∧ t.isDir p = false then none else t.entry q := by
  unfold erase
  split
  · rename_i hdir
    rw [if_neg]
    rintro ⟨-, hnot⟩
    rw [hdir] at hnot
    cases hnot
  · rename_i hdir
    have hnot : t.isDir p = false := by simpa using hdir
    simp [hnot]

theorem isDir_erase (t : FileTree ν γ) (p q : List ν) : (t.erase p).isDir q = t.isDir q := by
  rw [Bool.eq_iff_iff, isDir_iff, isDir_iff, entry_erase]
  by_cases h : q = p ∧ t.isDir p = false
  · obtain ⟨rfl, hdir⟩ := h
    rw [if_pos ⟨rfl, hdir⟩, ← isDir_iff, hdir]
    simp
  · rw [if_neg h]

end FileTree

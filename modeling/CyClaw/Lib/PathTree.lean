/-
Trees of files by their paths.

A tree is a table of nodes whose key is the path.  That every entry but the root lies in a
directory is part of being a tree, and so is that its name can be looked up, so no change has
to say it keeps these.  `Tree.step` is what a change makes of a tree, or why it is refused.
-/
import CyClaw.Lib.Descriptors
import CyClaw.Lib.Table
import Mathlib.Data.List.Infix

namespace PathTree

open Posix

abbrev Path := List (List Char)

structure Node where
  kind : Kind
  /-- Of a regular file. -/
  content : Bytes
  /-- The size told of what is no regular file. -/
  extent : ℕ
  mode : ℕ
  mtime : ℕ
  dataless : Bool
deriving DecidableEq

def Node.size (n : Node) : ℕ := if n.kind = .regular then n.content.length else n.extent

def Node.stat (n : Node) : Stat where
  kind := n.kind
  size := n.size
  mode := n.mode
  mtime := n.mtime
  dataless := n.dataless

def newFile (mtime : ℕ) : Node :=
  { kind := .regular, content := [], extent := 0, mode := 0o600, mtime, dataless := false }

def newDir (mtime : ℕ) : Node :=
  { kind := .dir, content := [], extent := 0, mode := 0o755, mtime, dataless := false }

structure Tree where
  table : Table (Path × Node) Path Prod.fst
  root : ∃ n, ([], n) ∈ table.rows ∧ n.kind = .dir
  parents : ∀ d name n, (d ++ [name], n) ∈ table.rows → ∃ m, (d, m) ∈ table.rows ∧ m.kind = .dir
  names : ∀ p n, (p, n) ∈ table.rows → ∀ c ∈ p, IsName c

namespace Tree

/-- What stands at a path. -/
def node (t : Tree) (p : Path) : Option Node := (t.table.find? p).map Prod.snd

theorem node_eq_some {t : Tree} {p : Path} {n : Node} : t.node p = some n ↔ (p, n) ∈ t.table.rows := by
  unfold node
  rw [Option.map_eq_some_iff]
  constructor
  · rintro ⟨⟨q, m⟩, hfind, rfl⟩
    obtain ⟨hmem, hkey⟩ := Table.find?_eq_some.mp hfind
    subst hkey
    exact hmem
  · intro h
    exact ⟨(p, n), Table.find?_eq_some.mpr ⟨h, rfl⟩, rfl⟩

theorem node_eq_none {t : Tree} {p : Path} : t.node p = none ↔ ∀ n, (p, n) ∉ t.table.rows := by
  constructor
  · intro h n hmem
    rw [node_eq_some.mpr hmem] at h
    cases h
  · intro h
    cases hn : t.node p with
    | none => rfl
    | some n => exact absurd (node_eq_some.mp hn) (h n)

def isDir (t : Tree) (p : Path) : Bool := (t.node p).any fun n => n.kind = .dir

theorem isDir_iff {t : Tree} {p : Path} : t.isDir p = true ↔ ∃ n, t.node p = some n ∧ n.kind = .dir := by
  unfold isDir
  rw [Option.any_eq_true]
  simp only [decide_eq_true_eq]

theorem isDir_parent {t : Tree} {d : Path} {name : List Char} {n : Node} (h : t.node (d ++ [name]) = some n) :
    t.isDir d = true := by
  obtain ⟨m, hmem, hdir⟩ := t.parents d name n (node_eq_some.mp h)
  exact isDir_iff.mpr ⟨m, node_eq_some.mpr hmem, hdir⟩

/-- What lies above an entry is a directory. -/
theorem isDir_above {t : Tree} {d : Path} {n : Node} :
    ∀ {r : Path}, t.node (d ++ r) = some n → r ≠ [] → t.isDir d = true := by
  intro r
  induction r using List.reverseRecOn generalizing n with
  | nil => exact fun _ hne => absurd rfl hne
  | append_singleton r name ih =>
    intro h _
    rw [← List.append_assoc] at h
    have hparent := isDir_parent h
    by_cases hr : r = []
    · rw [hr, List.append_nil] at hparent
      exact hparent
    · obtain ⟨m, hm, -⟩ := isDir_iff.mp hparent
      exact ih hm hr

theorem isName_of_node {t : Tree} {p : Path} {n : Node} (h : t.node p = some n) : ∀ c ∈ p, IsName c :=
  t.names p n (node_eq_some.mp h)

/-- The entries below a path. -/
def below (t : Tree) (d : Path) : List (Path × Node) := t.table.rows.filter fun e => d <+: e.1 ∧ e.1 ≠ d

theorem below_eq_nil {t : Tree} {d : Path} : t.below d = [] ↔ ∀ r n, r ≠ [] → t.node (d ++ r) ≠ some n := by
  unfold below
  rw [List.filter_eq_nil_iff]
  constructor
  · intro h r n hr hn
    refine h (d ++ r, n) (node_eq_some.mp hn) (decide_eq_true ⟨List.prefix_append d r, ?_⟩)
    intro heq
    exact hr (List.append_right_eq_self.mp heq)
  · rintro h ⟨p, n⟩ hmem hp
    obtain ⟨⟨r, rfl⟩, hne⟩ := of_decide_eq_true hp
    refine h r n ?_ (node_eq_some.mpr hmem)
    rintro rfl
    exact hne (List.append_nil d)

/-- The names in a directory. -/
def childName (d : Path) (e : Path × Node) : Option (List Char) :=
  if e.1.dropLast = d then e.1.getLast? else none

def listing (t : Tree) (d : Path) : List (List Char) := t.table.rows.filterMap (childName d)

theorem mem_listing {t : Tree} {d : Path} {name : List Char} :
    name ∈ t.listing d ↔ ∃ n, t.node (d ++ [name]) = some n := by
  unfold listing childName
  rw [List.mem_filterMap]
  constructor
  · rintro ⟨⟨p, n⟩, hmem, hchild⟩
    rw [Option.ite_none_right_eq_some] at hchild
    obtain ⟨hdrop, hlast⟩ := hchild
    refine ⟨n, node_eq_some.mpr ?_⟩
    rw [← hdrop, List.dropLast_append_getLast? _ hlast]
    exact hmem
  · rintro ⟨n, hn⟩
    refine ⟨(d ++ [name], n), node_eq_some.mp hn, ?_⟩
    simp

/-! ### Changes -/

end Tree

/-- What a call does to a tree.  All but writing goes by a directory and a name in it. -/
inductive Mutation where
  | create (dir : Path) (name : List Char) (mtime : ℕ)
  /-- Data is added at the end of a file. -/
  | write (file : Path) (data : Bytes) (mtime : ℕ)
  | rename (srcDir : Path) (src : List Char) (dstDir : Path) (dst : List Char)
  | unlink (dir : Path) (name : List Char)
  | rmdir (dir : Path) (name : List Char)
  | mkdir (dir : Path) (name : List Char) (mtime : ℕ)
deriving DecidableEq

/-- Where an entry is after a rename. -/
def relocate (src dst p : Path) : Path := if src <+: p then dst ++ p.drop src.length else p

theorem relocate_append (src dst r : Path) : relocate src dst (src ++ r) = dst ++ r := by
  rw [relocate, if_pos (List.prefix_append src r), List.drop_left]

theorem relocate_of_not {src dst p : Path} (h : ¬ src <+: p) : relocate src dst p = p := if_neg h

namespace Tree

/-- A new entry, in a directory that is there. -/
def add (t : Tree) (d : Path) (name : List Char) (n : Node) (hfree : t.node (d ++ [name]) = none)
    (hname : IsName name) (hdir : t.isDir d = true) : Tree where
  table := ⟨t.table.rows ++ [(d ++ [name], n)], by
    rw [List.map_append, List.map_singleton, List.nodup_append]
    refine ⟨t.table.unique, List.nodup_singleton _, ?_⟩
    rintro q hq q' hq' rfl
    rw [List.mem_singleton] at hq'
    obtain ⟨⟨q, m⟩, hmem, rfl⟩ := List.mem_map.mp hq
    dsimp only at hq'
    subst hq'
    exact node_eq_none.mp hfree m hmem⟩
  root := by
    obtain ⟨m, hmem, hm⟩ := t.root
    exact ⟨m, List.mem_append_left _ hmem, hm⟩
  parents := by
    intro d' name' n' hmem
    rcases List.mem_append.mp hmem with hold | hnew
    · obtain ⟨m, hm, hkind⟩ := t.parents d' name' n' hold
      exact ⟨m, List.mem_append_left _ hm, hkind⟩
    · rw [List.mem_singleton, Prod.mk.injEq] at hnew
      obtain ⟨hd, -⟩ := List.append_inj' hnew.1 rfl
      obtain ⟨m, hm, hkind⟩ := isDir_iff.mp hdir
      rw [hd]
      exact ⟨m, List.mem_append_left _ (node_eq_some.mp hm), hkind⟩
  names := by
    intro p n' hmem c hc
    rcases List.mem_append.mp hmem with hold | hnew
    · exact t.names p n' hold c hc
    · rw [List.mem_singleton, Prod.mk.injEq] at hnew
      rw [hnew.1, List.mem_append, List.mem_singleton] at hc
      rcases hc with hc | rfl
      · obtain ⟨m, hm, -⟩ := isDir_iff.mp hdir
        exact isName_of_node hm c hc
      · exact hname

def make (t : Tree) (d : Path) (name : List Char) (n : Node) : Except Errno Tree :=
  if hfree : t.node (d ++ [name]) = none then
    if h : IsName name ∧ t.isDir d = true then .ok (t.add d name n hfree h.1 h.2) else .error .inval
  else .error .exist

/-- Another content of a file. -/
def alter (t : Tree) (p : Path) (f : Node → Node) (hf : ∀ n, (f n).kind = n.kind) : Tree where
  table := t.table.update (fun e => e.1 = p) (fun e => (e.1, f e.2)) fun _ => rfl
  root := by
    obtain ⟨m, hmem, hm⟩ := t.root
    refine ⟨if [] = p then f m else m, Table.mem_update.mpr ⟨([], m), hmem, ?_⟩, ?_⟩
    · by_cases h : [] = p
      · simp [← h]
      · simp [h]
    · split
      · rw [hf, hm]
      · exact hm
  parents := by
    intro d name n hmem
    obtain ⟨⟨q, m⟩, hq, heq⟩ := Table.mem_update.mp hmem
    have hpath : d ++ [name] = q := by
      have hfst := congrArg Prod.fst heq
      split at hfst <;> exact hfst
    rw [← hpath] at hq
    obtain ⟨m', hm', hkind⟩ := t.parents d name m hq
    refine ⟨if d = p then f m' else m', Table.mem_update.mpr ⟨(d, m'), hm', ?_⟩, ?_⟩
    · by_cases h : d = p
      · simp [h]
      · simp [h]
    · split
      · rw [hf, hkind]
      · exact hkind
  names := by
    intro q n hmem
    obtain ⟨⟨q', m⟩, hq, heq⟩ := Table.mem_update.mp hmem
    have hpath : q = q' := by
      have hfst := congrArg Prod.fst heq
      split at hfst <;> exact hfst
    rw [hpath]
    exact t.names q' m hq

/-- An entry taken away that has nothing below it. -/
def drop (t : Tree) (d : Path) (name : List Char) (hbelow : t.below (d ++ [name]) = []) : Tree where
  table := t.table.delete fun e => e.1 = d ++ [name]
  root := by
    obtain ⟨m, hmem, hm⟩ := t.root
    exact ⟨m, Table.mem_delete.mpr ⟨hmem, decide_eq_false (by simp)⟩, hm⟩
  parents := by
    intro d' name' n hmem
    obtain ⟨hold, -⟩ := Table.mem_delete.mp hmem
    obtain ⟨m, hm, hkind⟩ := t.parents d' name' n hold
    refine ⟨m, Table.mem_delete.mpr ⟨hm, decide_eq_false ?_⟩, hkind⟩
    rintro rfl
    exact below_eq_nil.mp hbelow [name'] n (by simp) (node_eq_some.mpr hold)
  names := fun q n hmem => t.names q n (Table.mem_delete.mp hmem).1

/-- What a rename leaves in place: everything but what it replaces. -/
def kept (t : Tree) (dst : Path) : List (Path × Node) := (t.table.delete fun e => e.1 = dst).rows

theorem mem_kept {t : Tree} {dst p : Path} {n : Node} : (p, n) ∈ t.kept dst ↔ t.node p = some n ∧ p ≠ dst := by
  unfold kept
  rw [Table.mem_delete, node_eq_some, decide_eq_false_iff_not]

/-- Nothing is at or below the place a rename moves to. -/
theorem not_below_of_kept {t : Tree} {dst p : Path} {n : Node} (hbelow : t.below dst = [])
    (h : (p, n) ∈ t.kept dst) : ¬ dst <+: p := by
  obtain ⟨hnode, hne⟩ := mem_kept.mp h
  rintro ⟨r, rfl⟩
  refine below_eq_nil.mp hbelow r n ?_ hnode
  rintro rfl
  exact hne (List.append_nil dst)

theorem relocate_injective {src dst p q : Path} (hp : ¬ dst <+: p) (hq : ¬ dst <+: q)
    (h : relocate src dst p = relocate src dst q) : p = q := by
  by_cases hsp : src <+: p
  · obtain ⟨r, rfl⟩ := hsp
    by_cases hsq : src <+: q
    · obtain ⟨r', rfl⟩ := hsq
      rw [relocate_append, relocate_append] at h
      rw [List.append_cancel_left h]
    · rw [relocate_append, relocate_of_not hsq] at h
      exact absurd ⟨r, h⟩ hq
  · by_cases hsq : src <+: q
    · obtain ⟨r', rfl⟩ := hsq
      rw [relocate_append, relocate_of_not hsp] at h
      exact absurd ⟨r', h.symm⟩ hp
    · rw [relocate_of_not hsp, relocate_of_not hsq] at h
      exact h

/-- An entry moved with all that is below it, in the place of what stands there. -/
def moved (t : Tree) (src d : Path) (name : List Char) (hsrc : src ≠ []) (hname : IsName name)
    (hdir : t.isDir d = true) (hout : ¬ src <+: d ++ [name]) (hbelow : t.below (d ++ [name]) = []) : Tree where
  table := ⟨(t.kept (d ++ [name])).map fun e => (relocate src (d ++ [name]) e.1, e.2), by
    rw [List.map_map]
    refine List.Nodup.map_on ?_ ?_
    · rintro ⟨p, n⟩ hp ⟨q, m⟩ hq heq
      have hpq := relocate_injective (not_below_of_kept hbelow hp) (not_below_of_kept hbelow hq) heq
      subst hpq
      have hsame := Table.eq_of_key (List.mem_of_mem_filter hp) (List.mem_of_mem_filter hq) rfl
      exact hsame
    · exact (t.table.unique.of_map).filter _⟩
  root := by
    obtain ⟨m, hmem, hm⟩ := t.root
    refine ⟨m, List.mem_map.mpr ⟨([], m), mem_kept.mpr ⟨node_eq_some.mpr hmem, by simp⟩, ?_⟩, hm⟩
    rw [relocate_of_not]
    exact fun h => hsrc (List.prefix_nil.mp h)
  parents := by
    intro d' name' n hmem
    obtain ⟨⟨p, m⟩, hp, heq⟩ := List.mem_map.mp hmem
    rw [Prod.mk.injEq] at heq
    obtain ⟨hpath, -⟩ := heq
    obtain ⟨hnode, -⟩ := mem_kept.mp hp
    by_cases hsp : src <+: p
    · obtain ⟨r, rfl⟩ := hsp
      rw [relocate_append] at hpath
      induction r using List.reverseRecOn with
      | nil =>
        -- The entry itself: its new directory stays where it is.
        rw [List.append_nil] at hpath
        obtain ⟨hd, -⟩ := List.append_inj' hpath rfl
        obtain ⟨k, hk, hkind⟩ := isDir_iff.mp hdir
        refine ⟨k, List.mem_map.mpr ⟨(d, k), mem_kept.mpr ⟨hk, by simp⟩, ?_⟩, hkind⟩
        rw [relocate_of_not, hd]
        exact fun h => hout (h.trans (List.prefix_append d [name]))
      | append_singleton r x _ =>
        rw [← List.append_assoc] at hpath hnode
        obtain ⟨hd, -⟩ := List.append_inj' hpath rfl
        obtain ⟨k, hk, hkind⟩ := isDir_iff.mp (isDir_parent hnode)
        refine ⟨k, List.mem_map.mpr ⟨(src ++ r, k), mem_kept.mpr ⟨hk, ?_⟩, ?_⟩, hkind⟩
        · exact fun h => hout ⟨r, h⟩
        · rw [relocate_append, hd]
    · rw [relocate_of_not hsp] at hpath
      subst hpath
      obtain ⟨k, hk, hkind⟩ := isDir_iff.mp (isDir_parent hnode)
      refine ⟨k, List.mem_map.mpr ⟨(d', k), mem_kept.mpr ⟨hk, ?_⟩, ?_⟩, hkind⟩
      · rintro rfl
        exact not_below_of_kept hbelow hp (List.prefix_append _ _)
      · rw [relocate_of_not]
        exact fun h => hsp (h.trans (List.prefix_append _ _))
  names := by
    intro q n hmem c hc
    obtain ⟨⟨p, m⟩, hp, heq⟩ := List.mem_map.mp hmem
    rw [Prod.mk.injEq] at heq
    obtain ⟨rfl, -⟩ := heq
    have hnames := isName_of_node (mem_kept.mp hp).1
    by_cases hsp : src <+: p
    · obtain ⟨r, rfl⟩ := hsp
      dsimp only at hc
      rw [relocate_append, List.mem_append, List.mem_append, List.mem_singleton] at hc
      rcases hc with (hc | rfl) | hc
      · obtain ⟨k, hk, -⟩ := isDir_iff.mp hdir
        exact isName_of_node hk c hc
      · exact hname
      · exact hnames c (List.mem_append_right _ hc)
    · dsimp only at hc
      rw [relocate_of_not hsp] at hc
      exact hnames c hc

/-- What a change makes of a tree, or why it is refused. -/
def step (t : Tree) : Mutation → Except Errno Tree
  | .create dir name mtime => t.make dir name (newFile mtime)
  | .mkdir dir name mtime => t.make dir name (newDir mtime)
  | .write file data mtime =>
      match t.node file with
      | none => .error .noent
      | some n =>
          match n.kind with
          | .regular =>
              .ok (t.alter file (fun n => { n with content := n.content ++ data, mtime }) fun _ => rfl)
          | .other => .ok t
          | _ => .error .isdir
  | .unlink dir name =>
      match t.node (dir ++ [name]) with
      | none => .error .noent
      | some n =>
          if n.kind = .dir then .error .isdir
          else if h : t.below (dir ++ [name]) = [] then .ok (t.drop dir name h)
          else .error .notempty
  | .rmdir dir name =>
      match t.node (dir ++ [name]) with
      | none => .error .noent
      | some n =>
          if n.kind ≠ .dir then .error .notdir
          else if h : t.below (dir ++ [name]) = [] then .ok (t.drop dir name h)
          else .error .notempty
  | .rename srcDir src dstDir dst =>
      match t.node (srcDir ++ [src]) with
      | none => .error .noent
      | some n =>
          if srcDir ++ [src] = dstDir ++ [dst] then .ok t
          else if t.isDir (dstDir ++ [dst]) ∧ n.kind ≠ .dir then .error .isdir
          else if n.kind = .dir ∧ t.node (dstDir ++ [dst]) ≠ none ∧ ¬ t.isDir (dstDir ++ [dst]) then .error .notdir
          else if h : IsName dst ∧ t.isDir dstDir ∧ ¬ srcDir ++ [src] <+: dstDir ++ [dst] then
            if hbelow : t.below (dstDir ++ [dst]) = [] then
              .ok (t.moved (srcDir ++ [src]) dstDir dst (by simp) h.1 h.2.1 h.2.2 hbelow)
            else .error .notempty
          else .error .inval

end Tree

end PathTree

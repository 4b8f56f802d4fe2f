/-
Programs that work through held descriptors.

A program makes system calls.  Each call finds the file system as it is at that moment, and
nothing says how one moment follows from another: between two calls entries may have been
renamed, removed or replaced, and the program's own changes are in the next moment too.  A
run is therefore given one `Moment` for each call.

A call that takes a directory descriptor and a string looks up one entry if the string is a
single name.  What another string leads to is left open (`Files.stray`), so nothing can be
said of a program that passes one.

`Descends` reads a trace from its start: a program goes from a held directory to a child of
it, which is a directory and no link at the moment it is opened, and from there on, until it
stays.  `Within` is what staying means.
-/
import Mathlib.Data.List.Basic

namespace Posix

abbrev Bytes := List UInt8

inductive Kind where
  | dir | regular | symlink | other
deriving DecidableEq, Repr

structure Stat where
  kind : Kind
  size : ℕ
  mode : ℕ
  mtime : ℕ
  /-- The flag of a file whose content is not on this machine. -/
  dataless : Bool

/-- A string that is looked up as one entry of a directory. -/
def IsName (n : List Char) : Prop := n ≠ [] ∧ n ≠ ['.'] ∧ n ≠ ['.', '.'] ∧ '/' ∉ n

instance (n : List Char) : Decidable (IsName n) := by
  unfold IsName
  infer_instance

inductive Errno where
  | noent | exist | loop | notdir | isdir | notempty | inval | acces | perm | io
deriving DecidableEq, Repr

/-- A file system at one moment, by its inodes. -/
structure Files (I : Type) where
  entry : I → List Char → Option I
  /-- Where a string leads that is no single name. -/
  stray : I → List Char → Option I
  stat : I → Stat
  content : I → Bytes
  listing : I → List (List Char)
  listed : ∀ d n, n ∈ listing d → IsName n

/-- What a call finds.  It may fail for reasons of its own, and what it makes is `fresh`. -/
structure Moment (I : Type) where
  files : Files I
  fails : Option Errno
  fresh : I

/-- How an entry is opened.  None of these follows a link. -/
inductive Mode where
  | directory | read | create | append
deriving DecidableEq, Repr

/-- A call that changes something. -/
inductive Change (I : Type) where
  | replace (srcDir : I) (src : List Char) (dstDir : I) (dst : List Char)
  | unlink (dir : I) (name : List Char)
  | rmdir (dir : I) (name : List Char)
  | mkdir (dir : I) (name : List Char)
  | write (file : I) (data : Bytes)
  | fsync (i : I)

inductive Prog (I α : Type) where
  | ret (a : α)
  | openAt (dir : I) (name : List Char) (mode : Mode) (k : Except Errno I → Prog I α)
  | statAt (dir : I) (name : List Char) (k : Except Errno Stat → Prog I α)
  | fstat (i : I) (k : Except Errno Stat → Prog I α)
  | listdir (dir : I) (k : Except Errno (List (List Char)) → Prog I α)
  | read (file : I) (n : ℕ) (k : Except Errno Bytes → Prog I α)
  | change (c : Change I) (k : Except Errno Unit → Prog I α)

/-! ### The calls -/

namespace Moment

variable {I : Type} (m : Moment I)

/-- What a string leads to from a directory. -/
def leads (dir : I) (name : List Char) : Option I :=
  if IsName name then m.files.entry dir name else m.files.stray dir name

/-- The reply, unless the call fails for a reason of its own. -/
def unlessFails {α : Type} (r : Except Errno α) : Except Errno α :=
  match m.fails with
  | some e => .error e
  | none => r

/-- Opening what is there. -/
def openOld (i : I) (mode : Mode) : Except Errno I :=
  match mode, (m.files.stat i).kind with
  | .create, _ => .error .exist
  | _, .symlink => .error .loop
  | .directory, .dir => .ok i
  | .directory, _ => .error .notdir
  | .append, .dir => .error .isdir
  | _, _ => .ok i

/-- Opening where nothing is. -/
def openNew : Mode → Except Errno I
  | .create => .ok m.fresh
  | .append => .ok m.fresh
  | _ => .error .noent

def openAt (dir : I) (name : List Char) (mode : Mode) : Except Errno I :=
  m.unlessFails <|
    match m.leads dir name with
    | some i => m.openOld i mode
    | none => m.openNew mode

def statAt (dir : I) (name : List Char) : Except Errno Stat :=
  m.unlessFails <|
    match m.leads dir name with
    | none => .error .noent
    | some i => .ok (m.files.stat i)

def fstat (i : I) : Except Errno Stat := m.unlessFails (.ok (m.files.stat i))

def listdir (dir : I) : Except Errno (List (List Char)) := m.unlessFails (.ok (m.files.listing dir))

def read (file : I) (n : ℕ) : Except Errno Bytes := m.unlessFails (.ok ((m.files.content file).take n))

/-- Whether a change goes through.  What it makes of the file system is in the next moment. -/
def change (_ : Change I) : Except Errno Unit := m.unlessFails (.ok ())

end Moment

/-! ### Runs -/

/-- A call, the file system it found and its reply. -/
inductive Event (I : Type) where
  | openAt (dir : I) (name : List Char) (mode : Mode) (files : Files I) (reply : Except Errno I)
  | statAt (dir : I) (name : List Char) (reply : Except Errno Stat)
  | fstat (i : I) (reply : Except Errno Stat)
  | listdir (dir : I) (reply : Except Errno (List (List Char)))
  | read (file : I) (n : ℕ) (reply : Except Errno Bytes)
  | change (c : Change I) (reply : Except Errno Unit)

variable {I α : Type}

/-- The moments left after the first. -/
def later (w : ℕ → Moment I) : ℕ → Moment I := fun n => w (n + 1)

/-- A run through the moments of its calls: its trace and its value. -/
def Prog.run (w : ℕ → Moment I) : Prog I α → List (Event I) × α
  | .ret a => ([], a)
  | .openAt dir name mode k =>
      let reply := (w 0).openAt dir name mode
      let rest := (k reply).run (later w)
      (.openAt dir name mode (w 0).files reply :: rest.1, rest.2)
  | .statAt dir name k =>
      let reply := (w 0).statAt dir name
      let rest := (k reply).run (later w)
      (.statAt dir name reply :: rest.1, rest.2)
  | .fstat i k =>
      let reply := (w 0).fstat i
      let rest := (k reply).run (later w)
      (.fstat i reply :: rest.1, rest.2)
  | .listdir dir k =>
      let reply := (w 0).listdir dir
      let rest := (k reply).run (later w)
      (.listdir dir reply :: rest.1, rest.2)
  | .read file n k =>
      let reply := (w 0).read file n
      let rest := (k reply).run (later w)
      (.read file n reply :: rest.1, rest.2)
  | .change c k =>
      let reply := (w 0).change c
      let rest := (k reply).run (later w)
      (.change c reply :: rest.1, rest.2)

/-! ### What a trace keeps to -/

/-- A change stays with the entries of two directories: it moves from the one to the other, or
works in one of them, or on a file that is open. -/
def Change.At (d₁ d₂ : I) (opened : List I) : Change I → Prop
  | .replace srcDir src dstDir dst => srcDir = d₁ ∧ IsName src ∧ dstDir = d₂ ∧ IsName dst
  | .unlink dir name => (dir = d₁ ∨ dir = d₂) ∧ IsName name
  | .rmdir dir name => (dir = d₁ ∨ dir = d₂) ∧ IsName name
  | .mkdir dir name => (dir = d₁ ∨ dir = d₂) ∧ IsName name
  | .write file _ => file ∈ opened
  | .fsync i => i = d₁ ∨ i = d₂ ∨ i ∈ opened

/-- A call stays with two directories and the files opened there.  What it opens is no
directory, and is the entry of that name, unless it has just been made. -/
def Event.At (d₁ d₂ : I) (opened : List I) : Event I → Prop
  | .openAt dir name mode files reply =>
      (dir = d₁ ∨ dir = d₂) ∧ IsName name ∧ ∀ i, reply = .ok i → mode ≠ .directory ∧
        (files.entry dir name = some i ∧ (files.stat i).kind ≠ .symlink ∨ files.entry dir name = none)
  | .statAt dir name _ => (dir = d₁ ∨ dir = d₂) ∧ IsName name
  | .fstat i _ => i = d₁ ∨ i ∈ opened
  | .listdir dir _ => dir = d₁
  | .read file _ _ => file ∈ opened
  | .change c _ => c.At d₁ d₂ opened

/-- The file a call has opened. -/
def Event.opens : Event I → List I
  | .openAt _ _ _ _ (.ok i) => [i]
  | _ => []

/-- A trace stays with two directories. -/
def Within (d₁ d₂ : I) : List I → List (Event I) → Prop
  | _, [] => True
  | opened, e :: es => e.At d₁ d₂ opened ∧ Within d₁ d₂ (e.opens ++ opened) es

/-- A call opens a child of a directory: the entry of a single name, a directory and no link
at that moment. -/
def Event.Down (d d' : I) (e : Event I) : Prop :=
  ∃ name files, e = .openAt d name .directory files (.ok d') ∧ IsName name ∧
    files.entry d name = some d' ∧ (files.stat d').kind = .dir

/-- A trace goes down from directory to child, and goes on as `R` says of the last one. -/
inductive Descends (R : I → List (Event I) → Prop) : I → List (Event I) → Prop where
  | stay {d es} (h : R d es) : Descends R d es
  | down {d d' e es} (he : e.Down d d') (h : Descends R d' es) : Descends R d (e :: es)

/-! ### What the calls reply -/

theorem unlessFails_ok {m : Moment I} {β : Type} {r : Except Errno β} {b : β}
    (h : m.unlessFails r = .ok b) : r = .ok b := by
  unfold Moment.unlessFails at h
  split at h
  · cases h
  · exact h

theorem openOld_ok {m : Moment I} {i j : I} {mode : Mode} (h : m.openOld i mode = .ok j) :
    i = j ∧ (m.files.stat i).kind ≠ .symlink ∧ (mode = .directory → (m.files.stat i).kind = .dir) := by
  unfold Moment.openOld at h
  cases mode <;> cases hkind : (m.files.stat i).kind <;> simp_all

theorem openNew_ok {m : Moment I} {i : I} {mode : Mode} (h : m.openNew mode = .ok i) : mode ≠ .directory := by
  intro hmode
  rw [hmode] at h
  cases h

/-- What a single name opens is the entry of that name, and no link. -/
theorem openAt_ok {m : Moment I} {dir i : I} {name : List Char} {mode : Mode} (hname : IsName name)
    (h : m.openAt dir name mode = .ok i) :
    (m.files.entry dir name = some i ∧ (m.files.stat i).kind ≠ .symlink ∧
        (mode = .directory → (m.files.stat i).kind = .dir)) ∨
      (m.files.entry dir name = none ∧ mode ≠ .directory) := by
  have hreply := unlessFails_ok h
  unfold Moment.leads at hreply
  rw [if_pos hname] at hreply
  split at hreply
  · rename_i j hentry
    obtain ⟨hij, hlink, hdir⟩ := openOld_ok hreply
    subst hij
    exact Or.inl ⟨hentry, hlink, hdir⟩
  · rename_i hentry
    exact Or.inr ⟨hentry, openNew_ok hreply⟩

theorem openAt_down {m : Moment I} {dir i : I} {name : List Char} (hname : IsName name)
    (h : m.openAt dir name .directory = .ok i) :
    Event.Down dir i (.openAt dir name .directory m.files (m.openAt dir name .directory)) := by
  rcases openAt_ok hname h with ⟨hentry, -, hdir⟩ | ⟨-, hmode⟩
  · exact ⟨name, m.files, by rw [h], hname, hentry, hdir rfl⟩
  · exact absurd rfl hmode

theorem listdir_ok {m : Moment I} {dir : I} {names : List (List Char)} (h : m.listdir dir = .ok names) :
    ∀ n ∈ names, IsName n := by
  intro n hn
  have hnames := unlessFails_ok h
  cases hnames
  exact m.files.listed dir n hn

/-! ### Rules -/

/-- Every trace of the program satisfies `P`. -/
def Every (P : List (Event I) → Prop) (p : Prog I α) : Prop := ∀ w, P (p.run w).1

theorem Every.mono {P P' : List (Event I) → Prop} {p : Prog I α} (h : Every P p) (hP : ∀ es, P es → P' es) :
    Every P' p :=
  fun w => hP _ (h w)

/-- Every trace of the program stays with two directories. -/
abbrev Stays (d₁ d₂ : I) (opened : List I) (p : Prog I α) : Prop := Every (Within d₁ d₂ opened) p

section Stays

variable {d₁ d₂ : I} {opened : List I}

theorem stays_ret {a : α} : Stays d₁ d₂ opened (.ret a : Prog I α) := fun _ => trivial

theorem stays_openAt {dir : I} {name : List Char} {mode : Mode} {k : Except Errno I → Prog I α}
    (hdir : dir = d₁ ∨ dir = d₂) (hname : IsName name) (hmode : mode ≠ .directory)
    (herror : ∀ e, Stays d₁ d₂ opened (k (.error e))) (hok : ∀ i, Stays d₁ d₂ (i :: opened) (k (.ok i))) :
    Stays d₁ d₂ opened (.openAt dir name mode k) := by
  intro w
  show Within d₁ d₂ opened (.openAt dir name mode (w 0).files ((w 0).openAt dir name mode) ::
    ((k ((w 0).openAt dir name mode)).run (later w)).1)
  refine ⟨⟨hdir, hname, ?_⟩, ?_⟩
  · intro i hi
    refine ⟨hmode, ?_⟩
    rcases openAt_ok hname hi with ⟨hentry, hlink, -⟩ | ⟨hnone, -⟩
    · exact Or.inl ⟨hentry, hlink⟩
    · exact Or.inr hnone
  · cases hreply : (w 0).openAt dir name mode with
    | error e => exact herror e (later w)
    | ok i => exact hok i (later w)

theorem stays_statAt {dir : I} {name : List Char} {k : Except Errno Stat → Prog I α}
    (hdir : dir = d₁ ∨ dir = d₂) (hname : IsName name) (hk : ∀ r, Stays d₁ d₂ opened (k r)) :
    Stays d₁ d₂ opened (.statAt dir name k) :=
  fun w => ⟨⟨hdir, hname⟩, hk _ (later w)⟩

theorem stays_fstat {i : I} {k : Except Errno Stat → Prog I α} (hi : i = d₁ ∨ i ∈ opened)
    (hk : ∀ r, Stays d₁ d₂ opened (k r)) : Stays d₁ d₂ opened (.fstat i k) :=
  fun w => ⟨hi, hk _ (later w)⟩

theorem stays_listdir {k : Except Errno (List (List Char)) → Prog I α}
    (herror : ∀ e, Stays d₁ d₂ opened (k (.error e)))
    (hok : ∀ names, (∀ n ∈ names, IsName n) → Stays d₁ d₂ opened (k (.ok names))) :
    Stays d₁ d₂ opened (.listdir d₁ k) := by
  intro w
  refine ⟨rfl, ?_⟩
  show Within d₁ d₂ opened ((k ((w 0).listdir d₁)).run (later w)).1
  cases hreply : (w 0).listdir d₁ with
  | error e => exact herror e (later w)
  | ok names => exact hok names (listdir_ok hreply) (later w)

theorem stays_read {file : I} {n : ℕ} {k : Except Errno Bytes → Prog I α} (hfile : file ∈ opened)
    (hk : ∀ r, Stays d₁ d₂ opened (k r)) : Stays d₁ d₂ opened (.read file n k) :=
  fun w => ⟨hfile, hk _ (later w)⟩

theorem stays_change {c : Change I} {k : Except Errno Unit → Prog I α} (hc : c.At d₁ d₂ opened)
    (hk : ∀ r, Stays d₁ d₂ opened (k r)) : Stays d₁ d₂ opened (.change c k) :=
  fun w => ⟨hc, hk _ (later w)⟩

end Stays

/-- Opening a child as a directory goes down, or fails where it stands. -/
theorem descends_openAt {R : I → List (Event I) → Prop} {dir : I} {name : List Char}
    {k : Except Errno I → Prog I α} (hname : IsName name)
    (herror : ∀ e files, Every (fun es => R dir (.openAt dir name .directory files (.error e) :: es)) (k (.error e)))
    (hok : ∀ i, Every (Descends R i) (k (.ok i))) :
    Every (Descends R dir) (.openAt dir name .directory k) := by
  intro w
  show Descends R dir (.openAt dir name .directory (w 0).files ((w 0).openAt dir name .directory) ::
    ((k ((w 0).openAt dir name .directory)).run (later w)).1)
  cases hreply : (w 0).openAt dir name .directory with
  | error e => exact .stay (herror e _ (later w))
  | ok i =>
    have hdown := openAt_down hname hreply
    rw [hreply] at hdown
    exact .down hdown (hok i (later w))

theorem descends_join {R : I → List (Event I) → Prop} {d : I} {es : List (Event I)}
    (h : Descends (fun d es => Descends R d es) d es) : Descends R d es := by
  induction h with
  | stay h => exact h
  | down he _ ih => exact .down he ih

end Posix

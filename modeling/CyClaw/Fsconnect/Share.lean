/-
A share as the jail finds it.

The tree stands still while it is looked through, and of each entry it is settled whether it
can be opened, listed, asked about and read (`Share`).  The programs of the jail that only look
are answered from it: `listDir_of_entered` and `listDir_of_not_entered` say when a target is
listed and as what, `readBytes_of_open` when a file is read.

A target is a string.  That of an entry is its directory's with its name behind it, and leads
to the entry as long as the splitter takes the name (`splitComponents_child`); it refuses some
names that a directory may hold (`splitComponents_refused`), and one with a backslash it takes
for a way.
-/
import CyClaw.Fsconnect.Confinement
import CyClaw.Fsconnect.Largest
import CyClaw.Lib.TreeCalls

namespace CyClaw.Fsconnect

open Posix PathTree
open Repo (Text splitComponents parts trails)

/-- A root held by its path. -/
def heldRoot (path : Text) : SafeRoot Path := { path, dirFd := [] }

theorem size_of_regular {n : Node} (h : n.kind = .regular) : n.stat.size = n.content.length := if_pos h

/-- With `skip`, whether a listing leaves an entry out. -/
def hidden (p : Platform) (skip : Bool) (name : Text) (n : Node) : Bool :=
  skip && (isMacosArtifactName p name || isMacosDataless p n.stat)

/-! ### The share -/

/-- What is asked of an entry. -/
inductive Access where
  | opening | listing | stating | reading
deriving DecidableEq

/-- A tree with the reason why an access fails.  What macOS denies for privacy is left aside. -/
structure Share (p : Platform) where
  tree : Tree
  fault : Access → Path → Option Errno
  spared : p.darwin = true → ∀ a q e, fault a q = some e → e ≠ .acces ∧ e ≠ .perm

variable {p : Platform} {α : Type}

namespace Share

/-- What a program comes to that only looks. -/
def answer (s : Share p) : Prog Path α → α
  | .ret a => a
  | .openAt dir name mode k =>
      s.answer (k ((moment s.tree (s.fault .opening (dir ++ [name])) (dir ++ [name])).openAt dir name mode))
  | .statAt dir name k => s.answer (k ((moment s.tree (s.fault .stating (dir ++ [name])) []).statAt dir name))
  | .fstat i k => s.answer (k ((moment s.tree none []).fstat i))
  | .listdir dir k => s.answer (k ((moment s.tree (s.fault .listing dir) []).listdir dir))
  | .read file n k => s.answer (k ((moment s.tree (s.fault .reading file) []).read file n))
  | .change _ k => s.answer (k (.error .io))

def opens (s : Share p) (q : Path) : Bool := s.tree.isDir q && (s.fault .opening q).isNone

/-- Every directory on the way to a path, and the path itself, can be opened. -/
def Entered (s : Share p) (q : Path) : Prop := ∀ r, r ≠ [] → r <+: q → s.opens r = true

/-- What a listing tells of a name of a directory. -/
def entry (s : Share p) (d : Path) (name : Text) : Option StatDict :=
  match s.tree.node (d ++ [name]) with
  | none => none
  | some n =>
      if (s.fault .stating (d ++ [name])).isSome || hidden p true name n then none
      else some (statToDict p name n.stat)

def entries (s : Share p) (d : Path) : List StatDict :=
  ((s.tree.listing d).insertionSort (· ≤ ·)).filterMap (s.entry d)

/-- `ScopedRoots.list_dir`, with what macOS keeps for itself left out. -/
def listDir (s : Share p) (target : Text) : Except FsError (List StatDict) :=
  s.answer (Fsconnect.listDir p (heldRoot []) target true)

/-- `ScopedRoots.read_bytes`. -/
def readBytes (s : Share p) (target : Text) (maxBytes : ℕ) : Except FsError Bytes :=
  s.answer (Fsconnect.readBytes p (heldRoot []) target maxBytes true)

end Share

section Answers

variable {s : Share p} {d q : Path} {name target : Text}

/-- The errors that one file's failure is taken for. -/
def FsError.isolated : FsError → Bool
  | .permission _ _ => false
  | _ => true

theorem macosOr_spared {action : Text} {e : Errno} {error : FsError}
    (h : p.darwin = true → e ≠ .acces ∧ e ≠ .perm) : macosOr p action e error = error := by
  unfold macosOr
  rw [if_neg]
  rintro ⟨hdarwin, he⟩
  rcases he with rfl | rfl
  · exact (h hdarwin).1 rfl
  · exact (h hdarwin).2 rfl

/-! ### Opening -/

theorem open_directory (h : s.opens (d ++ [name]) = true) :
    (moment s.tree (s.fault .opening (d ++ [name])) (d ++ [name])).openAt d name .directory = .ok (d ++ [name]) := by
  unfold Share.opens at h
  rw [Bool.and_eq_true, Option.isNone_iff_eq_none] at h
  obtain ⟨n, hn, hdir⟩ := Tree.isDir_iff.mp h.1
  rw [h.2]
  exact opened_directory hn hdir

theorem open_no_directory (h : s.opens (d ++ [name]) = false) :
    ∃ e, (moment s.tree (s.fault .opening (d ++ [name])) (d ++ [name])).openAt d name .directory = .error e := by
  cases hreply : (moment s.tree (s.fault .opening (d ++ [name])) (d ++ [name])).openAt d name .directory with
  | error e => exact ⟨e, rfl⟩
  | ok i =>
      exfalso
      cases hfault : s.fault .opening (d ++ [name]) with
      | some e =>
          rw [hfault] at hreply
          cases hreply
      | none =>
          rw [hfault] at hreply
          obtain ⟨-, hold, hnew⟩ := opened_eq hreply
          cases hn : s.tree.node (d ++ [name]) with
          | none => rcases hnew hn with hmode | hmode <;> cases hmode
          | some n =>
              have hdir := Tree.isDir_iff.mpr ⟨n, hn, (hold n hn).2.2.1 rfl⟩
              rw [Share.opens, hdir, hfault] at h
              cases h

theorem Share.Entered.concat (h : s.Entered d) (hlast : s.opens (d ++ [name]) = true) : s.Entered (d ++ [name]) := by
  intro r hne hr
  rcases List.prefix_concat_iff.mp hr with rfl | hr
  · exact hlast
  · exact h r hne hr

theorem answer_descend {k : Path → Op Path α} :
    ∀ (comps : List Text) (d : Path), (∀ r, r ≠ [] → r <+: comps → s.opens (d ++ r) = true) →
      s.answer (descend p d comps k) = s.answer (k (d ++ comps)) := by
  intro comps
  induction comps with
  | nil =>
      intro d _
      rw [List.append_nil]
      rfl
  | cons comp comps ih =>
      intro d h
      have hfirst : s.opens (d ++ [comp]) = true := h [comp] (by simp) (by simp)
      rw [descend, Share.answer, open_directory hfirst]
      dsimp only
      rw [ih (d ++ [comp])]
      · simp
      · intro r hne hr
        have hmore := h (comp :: r) (by simp) (List.cons_prefix_cons.mpr ⟨rfl, hr⟩)
        simpa using hmore

theorem answer_descend_fails {k : Path → Op Path α} :
    ∀ (comps : List Text) (d : Path), ¬ (∀ r, r ≠ [] → r <+: comps → s.opens (d ++ r) = true) →
      ∃ e, s.answer (descend p d comps k) = .error e := by
  intro comps
  induction comps with
  | nil =>
      intro d h
      refine absurd ?_ h
      intro r hne hr
      exact absurd (List.prefix_nil.mp hr) hne
  | cons comp comps ih =>
      intro d h
      rw [descend, Share.answer]
      cases hfirst : s.opens (d ++ [comp]) with
      | false =>
          obtain ⟨e, he⟩ := open_no_directory hfirst
          rw [he]
          exact ⟨_, rfl⟩
      | true =>
          rw [open_directory hfirst]
          refine ih (d ++ [comp]) ?_
          intro hrest
          refine h ?_
          intro r hne hr
          cases r with
          | nil => exact absurd rfl hne
          | cons c r =>
              obtain ⟨rfl, htail⟩ := List.cons_prefix_cons.mp hr
              by_cases hnil : r = []
              · rw [hnil]
                exact hfirst
              · have hmore := hrest r hnil htail
                simpa using hmore

/-! ### Listing -/

theorem answer_statEntries :
    ∀ (names : List Text) (acc : List StatDict),
      s.answer (statEntries p d true names acc) = .ok (acc ++ names.filterMap (s.entry d)) := by
  intro names
  induction names with
  | nil =>
      intro acc
      rw [List.filterMap_nil, List.append_nil]
      rfl
  | cons name names ih =>
      intro acc
      have hskip : s.entry d name = none → .ok (acc ++ names.filterMap (s.entry d)) =
          (.ok (acc ++ (name :: names).filterMap (s.entry d)) : Except FsError (List StatDict)) := by
        intro hentry
        rw [List.filterMap_cons_none hentry]
      unfold statEntries
      split
      · rename_i hartifact
        rw [ih]
        refine hskip ?_
        unfold Share.entry
        split
        · rfl
        · rw [if_pos (by simp [hidden, hartifact.2])]
      · rename_i hartifact
        rw [Share.answer]
        cases hfault : s.fault .stating (d ++ [name]) with
        | some e =>
            have hspared : ¬ (p.darwin = true ∧ (e = .acces ∨ e = .perm)) := by
              rintro ⟨hdarwin, he⟩
              obtain ⟨hacces, hperm⟩ := s.spared hdarwin _ _ e hfault
              exact he.elim hacces hperm
            have hreply : (moment s.tree (some e) []).statAt d name = .error e := rfl
            rw [hreply]
            dsimp only
            rw [if_neg hspared, ih]
            refine hskip ?_
            unfold Share.entry
            split
            · rfl
            · rw [if_pos (by simp [hfault])]
        | none =>
            cases hn : s.tree.node (d ++ [name]) with
            | none =>
                rw [statAt_moment_none hn]
                dsimp only
                rw [if_neg (by simp), ih]
                refine hskip ?_
                rw [Share.entry, hn]
            | some n =>
                rw [statAt_moment hn]
                dsimp only
                have hentry : s.entry d name =
                    if isMacosDataless p n.stat = true then none else some (statToDict p name n.stat) := by
                  have hname : isMacosArtifactName p name = false := by simpa using hartifact
                  simp [Share.entry, hn, hfault, hidden, hname]
                by_cases hdataless : isMacosDataless p n.stat = true
                · rw [if_pos ⟨rfl, hdataless⟩, ih]
                  refine hskip ?_
                  rw [hentry, if_pos hdataless]
                · rw [if_neg fun h => hdataless h.2, ih, List.filterMap_cons, hentry, if_neg hdataless]
                  simp

theorem answer_listdirFd :
    s.answer (listdirFd p d true) =
      match s.fault .listing d with
      | some e => .error (.path "cannot list a configured directory".toList (.os e))
      | none => .ok (s.entries d) := by
  rw [listdirFd, Share.answer]
  cases hfault : s.fault .listing d with
  | some e =>
      have hreply : (moment s.tree (some e) []).listdir d = .error e := rfl
      rw [hreply]
      dsimp only
      rw [macosOr_spared fun hdarwin => s.spared hdarwin _ _ e hfault]
      rfl
  | none =>
      rw [listdir_moment]
      dsimp only
      rw [answer_statEntries, List.nil_append]
      rfl

/-- A directory that can be entered and listed. -/
def Share.Lists (s : Share p) (q : Path) : Prop := s.Entered q ∧ s.fault .listing q = none

theorem Share.Entered.dropLast (h : s.Entered q) : s.Entered q.dropLast :=
  fun r hne hr => h r hne (hr.trans (List.dropLast_prefix q))

theorem entered_iff (hne : q ≠ []) :
    s.Entered q ↔ s.Entered q.dropLast ∧ s.opens q = true := by
  constructor
  · intro h
    exact ⟨h.dropLast, h q hne (List.prefix_refl q)⟩
  · rintro ⟨hdrop, hlast⟩
    rw [← List.dropLast_append_getLast hne] at hlast ⊢
    exact hdrop.concat hlast

/-- **A directory that can be entered and listed is listed as it is.** -/
theorem listDir_of_lists (hsplit : splitComponents target = some q) (h : s.Lists q) :
    s.listDir target = .ok (s.entries q) := by
  obtain ⟨hentered, hlisting⟩ := h
  unfold Share.listDir Fsconnect.listDir withComponents
  rw [hsplit]
  dsimp only
  by_cases hq : q = []
  · rw [if_pos hq, answer_listdirFd]
    subst hq
    rw [show (heldRoot []).dirFd = [] from rfl, hlisting]
  · rw [if_neg hq, descendPosix, List.getLast?_eq_some_getLast hq]
    dsimp only
    have hway : ∀ r, r ≠ [] → r <+: q.dropLast → s.opens ([] ++ r) = true := fun r hne hr => hentered.dropLast r hne hr
    rw [show (heldRoot []).dirFd = [] from rfl, answer_descend _ _ hway, List.nil_append, Share.answer]
    have hlast : s.opens (q.dropLast ++ [q.getLast hq]) = true := by
      rw [List.dropLast_append_getLast]
      exact hentered q hq (List.prefix_refl q)
    rw [open_directory hlast]
    dsimp only
    rw [answer_listdirFd, List.dropLast_append_getLast, hlisting]

/-- **Everything else raises.** -/
theorem listDir_of_not_lists (h : ∀ q, splitComponents target = some q → ¬ s.Lists q) :
    ∃ e, s.listDir target = .error e := by
  unfold Share.listDir Fsconnect.listDir withComponents
  cases hsplit : splitComponents target with
  | none => exact ⟨_, rfl⟩
  | some q =>
      dsimp only
      have hfails := h q hsplit
      by_cases hq : q = []
      · rw [if_pos hq, answer_listdirFd]
        subst hq
        have hroot : s.Entered [] := fun r hne hr => absurd (List.prefix_nil.mp hr) hne
        cases hlisting : s.fault .listing [] with
        | none => exact absurd ⟨hroot, hlisting⟩ hfails
        | some e =>
            rw [show (heldRoot []).dirFd = [] from rfl, hlisting]
            exact ⟨_, rfl⟩
      · rw [if_neg hq, descendPosix, List.getLast?_eq_some_getLast hq]
        dsimp only
        rw [show (heldRoot []).dirFd = [] from rfl]
        by_cases hway : ∀ r, r ≠ [] → r <+: q.dropLast → s.opens ([] ++ r) = true
        · rw [answer_descend _ _ hway, List.nil_append, Share.answer]
          cases hlast : s.opens (q.dropLast ++ [q.getLast hq]) with
          | false =>
              obtain ⟨e, he⟩ := open_no_directory hlast
              rw [he]
              exact ⟨_, rfl⟩
          | true =>
              rw [open_directory hlast]
              dsimp only
              rw [List.dropLast_append_getLast] at hlast ⊢
              rw [answer_listdirFd]
              cases hlisting : s.fault .listing q with
              | none => exact absurd ⟨(entered_iff hq).mpr ⟨hway, hlast⟩, hlisting⟩ hfails
              | some e => exact ⟨_, rfl⟩
        · exact answer_descend_fails _ _ hway

/-! ### Reading -/

/-- A file that the jail reads: there is a way to it, every access goes through, and it is a
file of at most so many bytes that macOS does not keep to itself. -/
structure Share.Reads (s : Share p) (maxBytes : ℕ) (d : Path) (name : Text) (n : Node) : Prop where
  entered : s.Entered d
  node : s.tree.node (d ++ [name]) = some n
  regular : n.kind = .regular
  short : n.content.length ≤ maxBytes
  shown : hidden p true name n = false
  told : s.fault .stating (d ++ [name]) = none
  opened : s.fault .opening (d ++ [name]) = none
  read : s.fault .reading (d ++ [name]) = none

theorem readBytes_of_reads {maxBytes : ℕ} {n : Node} (hsplit : splitComponents target = some (d ++ [name]))
    (h : s.Reads maxBytes d name n) : s.readBytes target maxBytes = .ok n.content := by
  obtain ⟨hentered, hn, hregular, hshort, hshown, htold, hopened, hread⟩ := h
  simp only [hidden, Bool.true_and, Bool.or_eq_false_iff] at hshown
  obtain ⟨hartifact, hdataless⟩ := hshown
  have hlink : n.kind ≠ .symlink := by
    rw [hregular]
    decide
  have hway : ∀ r, r ≠ [] → r <+: d → s.opens ([] ++ r) = true := fun r hne hr => hentered r hne hr
  have hkind : n.stat.kind = .regular := hregular
  have hsize : ¬ n.stat.size > maxBytes := by
    rw [size_of_regular hregular]
    omega
  have htake : n.content.take (maxBytes + 1) = n.content := List.take_of_length_le (by omega)
  unfold Share.readBytes Fsconnect.readBytes withComponents
  rw [hsplit]
  dsimp only
  rw [if_neg (by simp [hartifact]), descendPosix, List.getLast?_concat, List.dropLast_concat]
  dsimp only
  rw [show (heldRoot []).dirFd = [] from rfl, answer_descend _ _ hway, List.nil_append, if_pos rfl, Share.answer, htold,
    statAt_moment hn]
  dsimp only
  rw [if_neg (by simp [hdataless]), openForReading, Share.answer, hopened, opened_read hn hlink]
  dsimp only
  rw [readFd, Share.answer, fstat_moment hn]
  dsimp only
  rw [if_neg (fun hne => hne hkind), if_neg (by simp [hdataless]), if_neg hsize, Share.answer, hread, read_moment hn, htake]
  dsimp only
  rw [if_neg (by omega)]
  rfl

theorem answer_descend_ok {k : Path → Op Path α} {comps : List Text} {a : α}
    (h : s.answer (descend p d comps k) = .ok a) :
    (∀ r, r ≠ [] → r <+: comps → s.opens (d ++ r) = true) ∧ s.answer (k (d ++ comps)) = .ok a := by
  by_cases hway : ∀ r, r ≠ [] → r <+: comps → s.opens (d ++ r) = true
  · rw [answer_descend comps d hway] at h
    exact ⟨hway, h⟩
  · obtain ⟨e, he⟩ := answer_descend_fails (k := k) comps d hway
    rw [he] at h
    cases h

theorem readFd_ok {maxBytes : ℕ} {n : Node} {data : Bytes} (hn : s.tree.node q = some n)
    (h : s.answer (readFd p q maxBytes true) = .ok data) :
    n.kind = .regular ∧ isMacosDataless p n.stat = false ∧ n.content.length ≤ maxBytes ∧ s.fault .reading q = none ∧
      data = n.content := by
  rw [readFd, Share.answer, fstat_moment hn] at h
  dsimp only at h
  split at h
  · cases h
  · rename_i hkind
    split at h
    · cases h
    · rename_i hdataless
      split at h
      · cases h
      · rename_i hsize
        have hregular : n.kind = .regular := by
          by_contra hnot
          exact hkind hnot
        rw [size_of_regular hregular] at hsize
        have htake : n.content.take (maxBytes + 1) = n.content := List.take_of_length_le (by omega)
        rw [Share.answer] at h
        cases hfault : s.fault .reading q with
        | some e =>
            rw [hfault] at h
            cases h
        | none =>
            rw [hfault, read_moment hn, htake] at h
            dsimp only at h
            rw [if_neg (by omega)] at h
            exact ⟨hregular, by simpa using hdataless, by omega, rfl, (Except.ok.inj h).symm⟩

/-- **What is read is the content of the file** that the target leads to. -/
theorem reads_of_readBytes {maxBytes : ℕ} {data : Bytes} (h : s.readBytes target maxBytes = .ok data) :
    ∃ d name n, splitComponents target = some (d ++ [name]) ∧ s.Reads maxBytes d name n ∧ data = n.content := by
  unfold Share.readBytes Fsconnect.readBytes withComponents at h
  split at h
  · cases h
  · rename_i comps hsplit
    dsimp only at h
    split at h
    · cases h
    · rename_i hartifact
      unfold descendPosix at h
      split at h
      · cases h
      · rename_i name hlast
        rw [show (heldRoot []).dirFd = [] from rfl] at h
        obtain ⟨hentered, h⟩ := answer_descend_ok h
        rw [List.nil_append] at h
        dsimp only at h
        rw [if_pos rfl, Share.answer] at h
        have hcomps : comps = comps.dropLast ++ [name] := (List.dropLast_append_getLast? name hlast).symm
        generalize comps.dropLast = d at *
        cases hstating : s.fault .stating (d ++ [name]) with
        | some e =>
            rw [hstating] at h
            cases h
        | none =>
            cases hn : s.tree.node (d ++ [name]) with
            | none =>
                rw [hstating, statAt_moment_none hn] at h
                cases h
            | some n =>
                rw [hstating, statAt_moment hn] at h
                dsimp only at h
                split at h
                · cases h
                · rw [openForReading, Share.answer] at h
                  cases hopening : s.fault .opening (d ++ [name]) with
                  | some e =>
                      rw [hopening] at h
                      cases h
                  | none =>
                      rw [hopening] at h
                      split at h
                      · cases h
                      · rename_i hreply
                        obtain ⟨rfl, -⟩ := opened_eq hreply
                        obtain ⟨hregular, hdataless, hshort, hreading, rfl⟩ := readFd_ok hn h
                        refine ⟨d, name, n, by rw [hsplit, hcomps], ⟨hentered, hn, hregular, hshort, ?_, hstating, hopening,
                          hreading⟩, rfl⟩
                        simpa [hidden, hdataless, hlast] using hartifact

theorem open_spared {mode : Mode} {e : Errno}
    (h : (moment s.tree (s.fault .opening (d ++ [name])) (d ++ [name])).openAt d name mode = .error e) :
    p.darwin = true → e ≠ .acces ∧ e ≠ .perm := by
  cases hfault : s.fault .opening (d ++ [name]) with
  | some f =>
      rw [hfault] at h
      obtain rfl : f = e := Except.error.inj h
      exact fun hdarwin => s.spared hdarwin _ _ f hfault
  | none =>
      rw [hfault] at h
      intro _
      cases hn : s.tree.node (d ++ [name]) with
      | none =>
          rw [openAt_moment_new hn] at h
          cases mode <;> cases h <;> decide
      | some n =>
          rw [openAt_moment hn] at h
          unfold Moment.openOld at h
          split at h <;> cases h <;> decide

theorem isolated_macosOr {action : Text} {e : Errno} {error : FsError} (h : p.darwin = true → e ≠ .acces ∧ e ≠ .perm)
    (herror : error.isolated = true) : (macosOr p action e error).isolated = true := by
  rw [macosOr_spared h]
  exact herror

/-- What a program raises that only looks is no denial of macOS. -/
def Isolated (r : Except FsError α) : Prop := ∀ e, r = .error e → e.isolated = true

theorem isolated_error {e : FsError} (h : e.isolated = true) : Isolated (.error e : Except FsError α) := by
  intro e' he'
  rw [← Except.error.inj he']
  exact h

theorem isolated_descend {k : Path → Op Path α} (hk : ∀ q, Isolated (s.answer (k q))) :
    ∀ (comps : List Text) (d : Path), Isolated (s.answer (descend p d comps k)) := by
  intro comps
  induction comps with
  | nil => exact fun d => hk d
  | cons comp comps ih =>
      intro d
      rw [descend, Share.answer]
      cases hreply : (moment s.tree (s.fault .opening (d ++ [comp])) (d ++ [comp])).openAt d comp .directory with
      | error e => exact isolated_error (isolated_macosOr (open_spared hreply) rfl)
      | ok i => exact ih i

theorem isolated_readFd {maxBytes : ℕ} : Isolated (s.answer (readFd p q maxBytes true)) := by
  rw [readFd, Share.answer]
  have hstat : (moment s.tree none []).fstat q = .ok ((seen s.tree).stat q) := rfl
  rw [hstat]
  dsimp only
  split
  · exact isolated_error rfl
  · split
    · exact isolated_error rfl
    · split
      · exact isolated_error rfl
      · rw [Share.answer]
        cases hfault : s.fault .reading q with
        | some e => exact isolated_error (isolated_macosOr (fun hdarwin => s.spared hdarwin _ _ e hfault) rfl)
        | none =>
            have hread : (moment s.tree none []).read q (maxBytes + 1) =
                .ok (((seen s.tree).content q).take (maxBytes + 1)) := rfl
            rw [hread]
            dsimp only
            split
            · exact isolated_error rfl
            · intro e he
              cases he

/-- **What keeps a file from being read is never a denial of macOS**: the walk takes it for a
failure of this file. -/
theorem isolated_readBytes {maxBytes : ℕ} : Isolated (s.readBytes target maxBytes) := by
  unfold Share.readBytes Fsconnect.readBytes withComponents
  split
  · exact isolated_error rfl
  · dsimp only
    split
    · exact isolated_error rfl
    · unfold descendPosix
      split
      · exact isolated_error rfl
      · rename_i leaf _
        refine isolated_descend ?_ _ _
        intro q
        dsimp only
        rw [if_pos rfl, Share.answer]
        cases hfault : s.fault .stating (q ++ [leaf]) with
        | some e => exact isolated_error (isolated_macosOr (fun hdarwin => s.spared hdarwin _ _ e hfault) rfl)
        | none =>
            cases hn : s.tree.node (q ++ [leaf]) with
            | none =>
                rw [statAt_moment_none hn]
                exact isolated_error (isolated_macosOr (fun _ => by decide) rfl)
            | some n =>
                rw [statAt_moment hn]
                dsimp only
                split
                · exact isolated_error rfl
                · rw [openForReading, Share.answer]
                  cases hreply : (moment s.tree (s.fault .opening (q ++ [leaf])) (q ++ [leaf])).openAt q leaf .read with
                  | error e => exact isolated_error (isolated_macosOr (open_spared hreply) rfl)
                  | ok i => exact isolated_readFd

end Answers

/-- A way is open if nothing fails. -/
theorem lists_of_faultless {s : Share p} (h : ∀ a q, s.fault a q = none) {q : Path} (hdir : s.tree.isDir q = true) :
    s.Lists q := by
  refine ⟨?_, h _ _⟩
  intro r _ hr
  obtain ⟨rest, rfl⟩ := hr
  have hup : s.tree.isDir r = true := by
    by_cases hrest : rest = []
    · rwa [hrest, List.append_nil] at hdir
    · obtain ⟨n, hn, -⟩ := Tree.isDir_iff.mp hdir
      exact Tree.isDir_above hn hrest
  simp [Share.opens, hup, h]

/-- Rows that make up a tree. -/
def IsTree (rows : List (Path × Node)) : Prop :=
  (rows.map Prod.fst).Nodup ∧ (∃ e ∈ rows, e.1 = [] ∧ e.2.kind = .dir) ∧
    (∀ e ∈ rows, e.1 ≠ [] → ∃ m ∈ rows, m.1 = e.1.dropLast ∧ m.2.kind = .dir) ∧ ∀ e ∈ rows, ∀ c ∈ e.1, IsName c

instance (rows : List (Path × Node)) : Decidable (IsTree rows) := by
  unfold IsTree
  infer_instance

/-- A tree written down. -/
def treeOf (rows : List (Path × Node)) (h : IsTree rows) : Tree where
  table := ⟨rows, h.1⟩
  root := by
    obtain ⟨⟨q, n⟩, hmem, rfl, hdir⟩ := h.2.1
    exact ⟨n, hmem, hdir⟩
  parents := by
    intro d name n hmem
    obtain ⟨⟨q, m⟩, hm, hq, hdir⟩ := h.2.2.1 _ hmem (by simp)
    rw [List.dropLast_concat] at hq
    exact ⟨m, hq ▸ hm, hdir⟩
  names := fun q n hmem c hc => h.2.2.2 (q, n) hmem c hc

/-- A share where nothing fails. -/
def faultless (p : Platform) (t : Tree) : Share p := ⟨t, fun _ _ => none, fun _ _ _ _ h => by cases h⟩

def linux : Platform where
  darwin := false
  repr name := '\'' :: name ++ ['\'']
  sha256 b := b.map fun x => Char.ofNat x.toNat
  filemode _ := "-rw-r--r--".toList
  getpid := 1
  chunks := 1

def fileOf (content : Bytes) : Node := { newFile 0 with content }

/-- A note in a directory, and one beside it. -/
def notes (dir : Text) : List (Path × Node) :=
  [([], newDir 0), ([dir], newDir 0), ([dir, "a.md".toList], fileOf []), (["b.md".toList], fileOf [])]

theorem isTree_docs : IsTree (notes "docs".toList) := by decide +kernel

theorem isTree_agenda : IsTree (notes "b:c".toList) := by decide +kernel

def docs : Tree := treeOf (notes "docs".toList) isTree_docs

def agenda : Tree := treeOf (notes "b:c".toList) isTree_agenda

/-! ### Names and targets -/

/-- A name that the splitter takes as it is. -/
def Taken (name : Text) : Prop := '\x00' ∉ name ∧ '\\' ∉ name ∧ ':' ∉ name ∧ trails name = false

instance (name : Text) : Decidable (Taken name) := by
  unfold Taken
  infer_instance

theorem parts_childPath (rel name : Text) : parts (childPath rel name) = parts rel ++ parts name := by
  unfold childPath
  split
  · rename_i hrel
    rw [hrel]
    rfl
  · exact Repo.parts_under rel name

/-- A name without a backslash is one component. -/
theorem parts_name {name : Text} (hname : IsName name) (hback : '\\' ∉ name) : parts name = [name] := by
  obtain ⟨hnil, hdot, -, hslash⟩ := hname
  have hsplit : name.splitOn '/' = [name] := by
    have hone : (['/'].intercalate [name]).splitOn '/' = [name] :=
      List.splitOn_intercalate '/' (by simpa using hslash) (by simp)
    simpa using hone
  rw [parts, Repo.slashes_of_notMem hback, hsplit]
  simp [hnil, hdot]

/-- What a target has to be besides its components being taken. -/
def Relative (target : Text) : Prop :=
  '\x00' ∉ target ∧ ¬ ("\\\\".toList.isPrefixOf target = true ∨ "//".toList.isPrefixOf target = true) ∧
    ¬ ['/'].isPrefixOf target = true ∧
    ¬ (PyText.contains "\\\\?\\".toList target = true ∨ PyText.contains "\\\\.\\".toList target = true)

theorem splitComponents_eq_some {target : Text} {comps : List Text} :
    splitComponents target = some comps ↔
      comps = parts target ∧ Relative target ∧ ∀ c ∈ parts target, c ≠ ['.', '.'] ∧ ':' ∉ c ∧ trails c = false := by
  have hany : (parts target).any (fun c => c = ['.', '.'] ∨ ':' ∈ c ∨ trails c) = true ↔
      ¬ ∀ c ∈ parts target, c ≠ ['.', '.'] ∧ ':' ∉ c ∧ trails c = false := by
    simp only [List.any_eq_true, decide_eq_true_eq, not_forall, exists_prop, not_and_or, not_not, ne_eq,
      Bool.not_eq_false]
  by_cases hroot : target = [] ∨ target = ['.']
  · have hparts : parts target = [] := by rcases hroot with rfl | rfl <;> decide
    have hrelative : Relative target := by
      unfold Relative
      rcases hroot with rfl | rfl <;> decide
    have hnul : '\x00' ∉ target := hrelative.1
    rw [splitComponents, if_neg hnul, if_pos hroot, hparts]
    constructor
    · intro h
      exact ⟨(Option.some.inj h).symm, hrelative, fun c hc => absurd hc List.not_mem_nil⟩
    · rintro ⟨rfl, -⟩
      rfl
  · unfold splitComponents Relative
    rw [if_neg hroot]
    simp only [Option.ite_none_left_eq_some, Option.some.injEq, hany, not_not]
    tauto

theorem infix_append_cons {pat a b : List Char} {c : Char} (hc : c ∉ pat) (h : pat <:+: a ++ c :: b) :
    pat <:+: a ∨ pat <:+: b := by
  obtain ⟨before, after, heq⟩ := h
  rw [List.append_assoc] at heq
  rcases List.append_eq_append_iff.mp heq with ⟨rest, ha, hrest⟩ | ⟨rest, hbefore, hrest⟩
  · rcases List.append_eq_append_iff.mp hrest with ⟨rest', hrest', hcb⟩ | ⟨rest', hpat, hafter⟩
    · left
      rw [ha, hrest']
      exact ⟨before, rest', by simp⟩
    · cases rest' with
      | nil =>
          left
          rw [ha, hpat]
          exact ⟨before, [], by simp⟩
      | cons d rest' =>
          obtain ⟨rfl, -⟩ := List.cons.inj hafter
          exact absurd (hpat ▸ by simp) hc
  · cases rest with
    | nil =>
        cases pat with
        | nil => exact .inl (List.nil_infix)
        | cons d pat =>
            obtain ⟨rfl, -⟩ := List.cons.inj hrest
            exact absurd List.mem_cons_self hc
    | cons d rest =>
        right
        obtain ⟨-, hb⟩ := List.cons.inj hrest
        exact ⟨rest, after, by rw [hb]; simp⟩

theorem relative_childPath {rel name : Text} (hrel : Relative rel) (hname : IsName name) (hnul : '\x00' ∉ name)
    (hback : '\\' ∉ name) : Relative (childPath rel name) := by
  obtain ⟨hrelnul, hunc, habs, hdevice⟩ := hrel
  have hnopat : ∀ pat : List Char, '\\' ∈ pat → ¬ pat <:+: name := fun pat hpat h => hback (h.subset hpat)
  by_cases hnil : rel = []
  · rw [childPath, if_pos hnil]
    refine ⟨hnul, ?_, ?_, ?_⟩
    · rintro (h | h)
      · exact hnopat _ (by decide) (List.isPrefixOf_iff_prefix.mp h).isInfix
      · exact hname.2.2.2 ((List.isPrefixOf_iff_prefix.mp h).subset (by decide))
    · intro h
      exact hname.2.2.2 ((List.isPrefixOf_iff_prefix.mp h).subset (by decide))
    · rintro (h | h)
      · exact hnopat _ (by decide) (PyText.contains_iff.mp h)
      · exact hnopat _ (by decide) (PyText.contains_iff.mp h)
  · obtain ⟨c, cs, rfl⟩ := List.exists_cons_of_ne_nil hnil
    rw [childPath, if_neg hnil]
    have hwithin : ∀ pat : List Char, '/' ∉ pat → '\\' ∈ pat → pat <:+: (c :: cs) ++ '/' :: name →
        PyText.contains pat (c :: cs) = true := by
      intro pat hslash hpat h
      rcases infix_append_cons hslash h with h | h
      · exact PyText.contains_iff.mpr h
      · exact absurd h (hnopat pat hpat)
    refine ⟨?_, ?_, ?_, ?_⟩
    · simp only [List.mem_append, List.mem_cons]
      rintro (h | h | h)
      · exact hrelnul (by simpa using h)
      · exact absurd h (by decide)
      · exact hnul h
    · rintro (h | h)
      · cases cs with
        | nil => simp [List.isPrefixOf] at h
        | cons c' cs => exact hunc (.inl (by simpa [List.isPrefixOf] using h))
      · exact habs (by simpa [List.isPrefixOf] using And.left (by simpa [List.isPrefixOf] using h))
    · intro h
      exact habs (by simpa [List.isPrefixOf] using h)
    · rintro (h | h)
      · exact hdevice (.inl (hwithin _ (by decide) (by decide) (PyText.contains_iff.mp h)))
      · exact hdevice (.inr (hwithin _ (by decide) (by decide) (PyText.contains_iff.mp h)))

section Children

variable {rel name : Text} {comps : List Text}

/-- **The target of an entry leads to it** where the splitter takes its name. -/
theorem splitComponents_child (hrel : splitComponents rel = some comps) (hname : IsName name) (htaken : Taken name) :
    splitComponents (childPath rel name) = some (comps ++ [name]) := by
  obtain ⟨rfl, hrelative, hcomps⟩ := splitComponents_eq_some.mp hrel
  obtain ⟨hnul, hback, hcolon, htrails⟩ := htaken
  rw [splitComponents_eq_some, parts_childPath, parts_name hname hback]
  refine ⟨rfl, relative_childPath hrelative hname hnul hback, ?_⟩
  intro c hc
  rcases List.mem_append.mp hc with hc | hc
  · exact hcomps c hc
  · rw [List.mem_singleton.mp hc]
    exact ⟨hname.2.2.1, hcolon, htrails⟩

/-- **It leads nowhere** where the name is refused. -/
theorem splitComponents_refused (hname : IsName name) (hback : '\\' ∉ name) (htaken : ¬ Taken name) :
    splitComponents (childPath rel name) = none := by
  cases hsplit : splitComponents (childPath rel name) with
  | none => rfl
  | some comps' =>
      exfalso
      obtain ⟨-, hrelative, hcomps⟩ := splitComponents_eq_some.mp hsplit
      rw [parts_childPath, parts_name hname hback] at hcomps
      obtain ⟨-, hcolon, htrails⟩ := hcomps name (List.mem_append_right _ (List.mem_singleton_self name))
      refine htaken ⟨?_, hback, hcolon, htrails⟩
      intro hnul
      refine hrelative.1 ?_
      unfold childPath
      split
      · exact hnul
      · simp [hnul]

/-- What is below a target that is refused is refused too. -/
theorem splitComponents_above (h : splitComponents (childPath rel name) = some comps) :
    ∃ comps', splitComponents rel = some comps' := by
  by_cases hnil : rel = []
  · rw [hnil]
    exact ⟨[], rfl⟩
  · have hchild : childPath rel name = rel ++ '/' :: name := if_neg hnil
    obtain ⟨-, ⟨hnul, hunc, habs, hdevice⟩, hcomps⟩ := splitComponents_eq_some.mp h
    rw [parts_childPath] at hcomps
    rw [hchild] at hnul hunc habs hdevice
    have hpart : ∀ pat : List Char, pat.isPrefixOf rel = true → pat.isPrefixOf (rel ++ '/' :: name) = true := by
      intro pat hpat
      rw [List.isPrefixOf_iff_prefix] at *
      exact hpat.trans (List.prefix_append _ _)
    have hwithin : ∀ pat : List Char, PyText.contains pat rel = true → PyText.contains pat (rel ++ '/' :: name) = true := by
      intro pat hpat
      rw [PyText.contains_iff] at *
      exact hpat.trans (List.prefix_append _ _).isInfix
    refine ⟨_, splitComponents_eq_some.mpr ⟨rfl, ⟨?_, ?_, ?_, ?_⟩, ?_⟩⟩
    · exact fun hmem => hnul (List.mem_append_left _ hmem)
    · exact fun hor => hunc (hor.imp (hpart _) (hpart _))
    · exact fun hslash => habs (hpart _ hslash)
    · exact fun hor => hdevice (hor.imp (hwithin _) (hwithin _))
    · exact fun c hc => hcomps c (List.mem_append_left _ hc)

end Children

end CyClaw.Fsconnect

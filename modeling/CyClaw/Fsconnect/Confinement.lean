/-
Operations stay in the root they are given.

Nothing is assumed of the tree: at every call it may be another one.  What confines an
operation is that it names things only by single components (`isName_of_components`) and only
from a descriptor it holds, so that a call reaches an entry of that directory or nothing
(`Posix.openAt_ok`).  `confined_descend` carries this down the components of a target; from
the directory it ends in, each operation is followed call by call.
-/
import CyClaw.Fsconnect.ScopedRoots

namespace CyClaw.Fsconnect

open Posix
open Repo (Text splitComponents parts trails splitComponents_parts mem_parts)

variable {I α : Type}

/-! ### Names -/

theorem isName_of_components {target : Text} {comps : List Text} (h : splitComponents target = some comps) :
    ∀ c ∈ comps, IsName c := by
  intro c hc
  have hparts := splitComponents_parts h
  rw [hparts] at hc
  obtain ⟨hnil, hdot, hslash, -⟩ := mem_parts hc
  refine ⟨hnil, hdot, ?_, hslash⟩
  intro hdots
  unfold splitComponents at h
  split at h
  · cases h
  · split at h
    · rename_i hroot
      rcases hroot with rfl | rfl
      · cases hc
      · have hempty : parts ['.'] = [] := by decide
        rw [hempty] at hc
        cases hc
    · simp only [Option.ite_none_left_eq_some] at h
      have hfine := h.2.2.2.1
      exact hfine (List.any_eq_true.mpr ⟨c, hc, decide_eq_true (Or.inl hdots)⟩)

/-- The name of the temporary file is one component where the target's is. -/
theorem isName_tmpName (p : Platform) {leaf : Text} (h : IsName leaf) : IsName (tmpName p leaf) := by
  obtain ⟨hnil, -, -, hslash⟩ := h
  have hlength : (tmpName p leaf).length > 2 := by
    simp only [tmpName, List.length_cons, List.length_append]
    have hsuffix : (".cyclaw-tmp".toList).length = 11 := by decide
    omega
  refine ⟨?_, ?_, ?_, ?_⟩
  · intro hempty
    rw [hempty] at hlength
    cases hlength
  · intro hdot
    rw [hdot] at hlength
    simp at hlength
  · intro hdots
    rw [hdots] at hlength
    simp at hlength
  · intro hmem
    simp only [tmpName, List.mem_cons, List.mem_append] at hmem
    rcases hmem with ((hc | hc) | hc | hc) | hc
    · cases hc
    · exact hslash hc
    · cases hc
    · have hdigit := Nat.isDigit_of_mem_toDigits (by decide) (by decide) hc
      exact absurd hdigit (by decide)
    · exact absurd hc (by decide)

/-! ### Going down -/

section Descend

variable {p : Platform} {R : I → List (Event I) → Prop}

theorem descends_descend {k : I → Op I α} (hk : ∀ d, Every (R d) (k d))
    (herror : ∀ d name files e, IsName name → R d [.openAt d name .directory files (.error e)]) :
    ∀ (comps : List Text) (d : I), (∀ c ∈ comps, IsName c) → Every (Descends R d) (descend p d comps k) := by
  intro comps
  induction comps with
  | nil =>
    intro d _
    exact (hk d).mono fun _ => .stay
  | cons comp comps ih =>
    intro d hnames
    refine descends_openAt (hnames comp List.mem_cons_self) ?_ ?_
    · intro e files w
      exact herror d comp files e (hnames comp List.mem_cons_self)
    · intro i
      exact ih i fun c hc => hnames c (List.mem_cons_of_mem comp hc)

/-- A block that is run with a directory and a name, wherever the descent has led. -/
theorem confined_descend {sr : SafeRoot I} {comps : List Text} {block : I → Text → Op I α}
    (hnames : ∀ c ∈ comps, IsName c) (hblock : ∀ d leaf, IsName leaf → Every (R d) (block d leaf))
    (herror : ∀ d name files e, IsName name → R d [.openAt d name .directory files (.error e)])
    (hnil : ∀ d, R d []) : Every (Descends R sr.dirFd) (descendPosix p sr comps block) := by
  unfold descendPosix
  cases hlast : comps.getLast? with
  | none => exact fun _ => .stay (hnil _)
  | some leaf =>
    have hleaf := hnames leaf (List.mem_of_getLast? hlast)
    refine descends_descend (fun d => hblock d leaf hleaf) herror _ _ ?_
    exact fun c hc => hnames c (List.mem_of_mem_dropLast hc)

end Descend

theorem within_refused {d₁ d₂ d : I} (hd : d = d₁ ∨ d = d₂) {name : Text} {files : Files I} {e : Errno}
    (hname : IsName name) : Within d₁ d₂ [] [.openAt d name .directory files (.error e)] := by
  refine ⟨⟨hd, hname, ?_⟩, trivial⟩
  intro i hi
  cases hi

theorem every_withComponents {P : List (Event I) → Prop} {target : Text} {k : List Text → Op I α} (hnil : P [])
    (hk : ∀ comps, (∀ c ∈ comps, IsName c) → Every P (k comps)) : Every P (withComponents target k) := by
  unfold withComponents
  split
  · exact fun _ => hnil
  · rename_i comps hcomps
    exact hk comps (isName_of_components hcomps)

/-- What one descent is for: the calls after it stay with the directory it ends in. -/
def Confined (root : I) (es : List (Event I)) : Prop := Descends (fun d es => Within d d [] es) root es

/-- The same of two descents from one root, the second after the first. -/
def ConfinedTwice (root : I) (es : List (Event I)) : Prop :=
  Descends (fun d₁ es => Descends (fun d₂ es => Within d₁ d₂ [] es) root es) root es

theorem confined_ret {root : I} {a : α} : Every (Confined root) (.ret a : Prog I α) := fun _ => .stay trivial

theorem confined_of_stays {d : I} {q : Prog I α} (h : Stays d d [] q) : Every (Confined d) q :=
  h.mono fun _ hes => .stay hes

theorem confined_block {p : Platform} {sr : SafeRoot I} {comps : List Text} {block : I → Text → Op I α}
    (hnames : ∀ c ∈ comps, IsName c) (hblock : ∀ d leaf, IsName leaf → Stays d d [] (block d leaf)) :
    Every (Confined sr.dirFd) (descendPosix p sr comps block) :=
  confined_descend hnames hblock (fun _ _ _ _ hname => within_refused (Or.inl rfl) hname) fun _ => trivial

/-! ### The operations -/

section Stays

variable {p : Platform} {d d' : I} {opened : List I}

theorem stays_readFd {fd : I} {maxBytes : ℕ} {skip : Bool} (hfd : fd ∈ opened) :
    Stays d d' opened (readFd p fd maxBytes skip) := by
  refine stays_fstat (Or.inr hfd) ?_
  intro r
  cases r with
  | error e => exact stays_ret
  | ok st =>
    dsimp only
    split
    · exact stays_ret
    split
    · exact stays_ret
    split
    · exact stays_ret
    refine stays_read hfd ?_
    intro r
    cases r with
    | error e => exact stays_ret
    | ok data =>
      dsimp only
      split
      · exact stays_ret
      · exact stays_ret

theorem stays_openForReading {leaf : Text} {maxBytes : ℕ} {skip : Bool} (hleaf : IsName leaf) :
    Stays d d [] (openForReading p d leaf maxBytes skip) := by
  refine stays_openAt (Or.inl rfl) hleaf (by decide) ?_ ?_
  · exact fun _ => stays_ret
  · exact fun fd => stays_readFd List.mem_cons_self

theorem stays_statEntries {skip : Bool} :
    ∀ (names : List Text) (acc : List StatDict), (∀ n ∈ names, IsName n) →
      Stays d d opened (statEntries p d skip names acc) := by
  intro names
  induction names with
  | nil => exact fun _ _ => stays_ret
  | cons name names ih =>
    intro acc hnames
    have hrest : ∀ n ∈ names, IsName n := fun n hn => hnames n (List.mem_cons_of_mem name hn)
    unfold statEntries
    split
    · exact ih acc hrest
    refine stays_statAt (Or.inl rfl) (hnames name List.mem_cons_self) ?_
    intro r
    cases r with
    | error e =>
      dsimp only
      split
      · exact stays_ret
      · exact ih acc hrest
    | ok st =>
      dsimp only
      split
      · exact ih acc hrest
      · exact ih _ hrest

theorem stays_listdirFd {skip : Bool} : Stays d d [] (listdirFd p d skip) := by
  refine stays_listdir (fun _ => stays_ret) ?_
  intro names hnames
  refine stays_statEntries _ _ ?_
  exact fun n hn => hnames n ((List.mem_insertionSort _).mp hn)

theorem stays_fsyncDir {k : Op I α} (hk : Stays d d' opened k) : Stays d d' opened (fsyncDir d' k) :=
  stays_change (Or.inr (Or.inl rfl)) fun _ => hk

theorem stays_guardClobber {leaf message : Text} {overwrite : Bool} {k : Op I α} (hleaf : IsName leaf)
    (hk : Stays d d' opened k) : Stays d d' opened (guardClobber d' leaf overwrite message k) := by
  unfold guardClobber
  split
  · exact hk
  refine stays_statAt (Or.inr rfl) hleaf ?_
  intro r
  split
  · exact hk
  · exact stays_ret
  · exact stays_ret

theorem stays_abandonWrite {tmp : Text} {e : Errno} (htmp : IsName tmp) :
    Stays d d opened (abandonWrite d tmp e : Op I α) :=
  stays_change ⟨Or.inl rfl, htmp⟩ fun _ => stays_ret

theorem stays_atomicWritePosix {leaf : Text} {data : Bytes} {k : Op I α} (hleaf : IsName leaf)
    (hk : ∀ opened, Stays d d opened k) : Stays d d opened (atomicWritePosix p d leaf data k) := by
  have htmp := isName_tmpName p hleaf
  refine stays_openAt (Or.inl rfl) htmp (by decide) (fun _ => stays_ret) ?_
  intro fd
  refine stays_change List.mem_cons_self ?_
  intro r
  cases r with
  | error e => exact stays_abandonWrite htmp
  | ok _ =>
    refine stays_change (Or.inr (Or.inr List.mem_cons_self)) ?_
    intro r
    cases r with
    | error e => exact stays_abandonWrite htmp
    | ok _ =>
      refine stays_change ⟨rfl, htmp, rfl, hleaf⟩ ?_
      intro r
      cases r with
      | error e => exact stays_abandonWrite htmp
      | ok _ => exact stays_fsyncDir (hk _)

theorem stays_readChunks {fd : I} {k : Bytes → Op I α} (hfd : fd ∈ opened) (hk : ∀ data, Stays d d' opened (k data)) :
    ∀ (n : ℕ) (acc : Bytes), Stays d d' opened (readChunks fd n acc k) := by
  intro n
  induction n with
  | zero => exact fun acc => hk acc
  | succ n ih =>
    intro acc
    refine stays_read hfd ?_
    intro r
    cases r with
    | error e => exact stays_ret
    | ok chunk =>
      dsimp only
      split
      · exact hk acc
      · exact ih _

theorem stays_shaLeafPosix {leaf : Text} {st : Stat} {shaMaxBytes : Option ℕ} {k : Option Text → Op I α}
    (hleaf : IsName leaf) (hk : ∀ opened sha, Stays d d opened (k sha)) :
    Stays d d opened (shaLeafPosix p d leaf st shaMaxBytes k) := by
  unfold shaLeafPosix
  split
  · exact hk _ _
  split
  · exact hk _ _
  refine stays_openAt (Or.inl rfl) hleaf (by decide) (fun _ => hk _ _) ?_
  intro fd
  exact stays_readChunks List.mem_cons_self (fun _ => hk _ _) _ _

end Stays

section Operations

variable (p : Platform) (sr : SafeRoot I)

theorem confined_readBytes (target : Text) (maxBytes : ℕ) (skip : Bool) :
    Every (Confined sr.dirFd) (readBytes p sr target maxBytes skip) := by
  refine every_withComponents (.stay trivial) ?_
  intro comps hnames
  split
  · exact confined_ret
  refine confined_block hnames ?_
  intro d leaf hleaf
  split
  · refine stays_statAt (Or.inl rfl) hleaf ?_
    intro r
    cases r with
    | error e => exact stays_ret
    | ok st =>
      dsimp only
      split
      · exact stays_ret
      · exact stays_openForReading hleaf
  · exact stays_openForReading hleaf

theorem confined_stat (target : Text) : Every (Confined sr.dirFd) (stat p sr target) := by
  refine every_withComponents (.stay trivial) ?_
  intro comps hnames
  split
  · refine confined_of_stays (stays_fstat (Or.inl rfl) ?_)
    intro r
    cases r <;> exact stays_ret
  · refine confined_block hnames ?_
    intro d leaf hleaf
    refine stays_statAt (Or.inl rfl) hleaf ?_
    intro r
    cases r <;> exact stays_ret

/-- The directory that is listed is one more step down. -/
theorem confined_listDir (target : Text) (skip : Bool) :
    Every (Confined sr.dirFd) (listDir p sr target skip) := by
  refine every_withComponents (.stay trivial) ?_
  intro comps hnames
  split
  · exact confined_of_stays stays_listdirFd
  refine Every.mono (confined_descend (R := fun d es => Confined d es) hnames ?_ ?_ ?_) fun _ => descends_join
  · intro d leaf hleaf
    refine descends_openAt hleaf ?_ ?_
    · intro e files w
      exact within_refused (Or.inl rfl) hleaf
    · intro lfd
      exact confined_of_stays stays_listdirFd
  · exact fun d name files e hname => .stay (within_refused (Or.inl rfl) hname)
  · exact fun d => .stay trivial

theorem confined_writeBytes (target : Text) (data : Bytes) (overwrite : Bool) :
    Every (Confined sr.dirFd) (writeBytes p sr target data overwrite) := by
  refine every_withComponents (.stay trivial) ?_
  intro comps hnames
  split
  · exact confined_ret
  refine confined_block hnames ?_
  intro d leaf hleaf
  exact stays_guardClobber hleaf (stays_atomicWritePosix hleaf fun _ => stays_ret)

theorem confined_appendBytes (target : Text) (data : Bytes) :
    Every (Confined sr.dirFd) (appendBytes p sr target data) := by
  refine every_withComponents (.stay trivial) ?_
  intro comps hnames
  split
  · exact confined_ret
  refine confined_block hnames ?_
  intro d leaf hleaf
  refine stays_openAt (Or.inl rfl) hleaf (by decide) (fun _ => stays_ret) ?_
  intro fd
  refine stays_change List.mem_cons_self ?_
  intro r
  cases r <;> exact stays_ret

theorem confined_mkdir (target : Text) : Every (Confined sr.dirFd) (mkdir p sr target) := by
  refine every_withComponents (.stay trivial) ?_
  intro comps hnames
  split
  · exact confined_ret
  refine confined_block hnames ?_
  intro d leaf hleaf
  refine stays_change ⟨Or.inl rfl, hleaf⟩ ?_
  intro r
  split <;> exact stays_ret

theorem confined_unlink (target : Text) (shaMaxBytes : Option ℕ) :
    Every (Confined sr.dirFd) (unlink p sr target shaMaxBytes) := by
  refine every_withComponents (.stay trivial) ?_
  intro comps hnames
  split
  · exact confined_ret
  refine confined_block hnames ?_
  intro d leaf hleaf
  refine stays_statAt (Or.inl rfl) hleaf ?_
  intro r
  cases r with
  | error e => exact stays_ret
  | ok st =>
    dsimp only
    split
    · exact stays_ret
    refine stays_shaLeafPosix hleaf ?_
    intro opened sha
    refine stays_change ⟨Or.inl rfl, hleaf⟩ ?_
    intro r
    cases r with
    | error e => exact stays_ret
    | ok _ => exact stays_fsyncDir stays_ret

theorem confined_rmdir (target : Text) : Every (Confined sr.dirFd) (rmdir p sr target) := by
  refine every_withComponents (.stay trivial) ?_
  intro comps hnames
  split
  · exact confined_ret
  refine confined_block hnames ?_
  intro d leaf hleaf
  refine stays_statAt (Or.inl rfl) hleaf ?_
  intro r
  cases r with
  | error e => exact stays_ret
  | ok st =>
    dsimp only
    split
    · exact stays_ret
    refine stays_change ⟨Or.inl rfl, hleaf⟩ ?_
    intro r
    split
    · exact stays_ret
    · exact stays_ret
    · exact stays_fsyncDir stays_ret

theorem confinedTwice_move (src dst : Text) (overwrite : Bool) :
    Every (ConfinedTwice sr.dirFd) (move p sr src dst overwrite) := by
  have hstop : ConfinedTwice sr.dirFd [] := .stay (.stay trivial)
  refine every_withComponents hstop ?_
  intro scomps hsnames
  refine every_withComponents hstop ?_
  intro dcomps hdnames
  split
  · exact fun _ => hstop
  refine confined_descend hsnames ?_ ?_ ?_
  · intro spfd sleaf hsleaf
    refine confined_descend hdnames ?_ ?_ ?_
    · intro dpfd dleaf hdleaf
      refine stays_guardClobber hdleaf (stays_change ⟨rfl, hsleaf, rfl, hdleaf⟩ ?_)
      intro r
      cases r with
      | error e => exact stays_ret
      | ok _ => exact stays_fsyncDir stays_ret
    · exact fun d name files e hname => within_refused (Or.inr rfl) hname
    · exact fun _ => trivial
  · exact fun d name files e hname => .stay (within_refused (Or.inl rfl) hname)
  · exact fun _ => .stay trivial

end Operations

/-! ### All of them -/

/-- The operations of `ScopedRoots`, with their arguments. -/
inductive Operation where
  | readBytes (target : Text) (maxBytes : ℕ) (skip : Bool)
  | stat (target : Text)
  | listDir (target : Text) (skip : Bool)
  | writeBytes (target : Text) (data : Bytes) (overwrite : Bool)
  | appendBytes (target : Text) (data : Bytes)
  | mkdir (target : Text)
  | move (src dst : Text) (overwrite : Bool)
  | unlink (target : Text) (shaMaxBytes : Option ℕ)
  | rmdir (target : Text)

/-- The calls an operation makes, where the calls find the tree as `w` has it. -/
def Operation.trace (p : Platform) (sr : SafeRoot I) (w : ℕ → Moment I) : Operation → List (Event I)
  | .readBytes target maxBytes skip => ((Fsconnect.readBytes p sr target maxBytes skip).run w).1
  | .stat target => ((Fsconnect.stat p sr target).run w).1
  | .listDir target skip => ((Fsconnect.listDir p sr target skip).run w).1
  | .writeBytes target data overwrite => ((Fsconnect.writeBytes p sr target data overwrite).run w).1
  | .appendBytes target data => ((Fsconnect.appendBytes p sr target data).run w).1
  | .mkdir target => ((Fsconnect.mkdir p sr target).run w).1
  | .move src dst overwrite => ((Fsconnect.move p sr src dst overwrite).run w).1
  | .unlink target shaMaxBytes => ((Fsconnect.unlink p sr target shaMaxBytes).run w).1
  | .rmdir target => ((Fsconnect.rmdir p sr target).run w).1

/-- What an operation keeps to.  Only a move goes down twice. -/
def Operation.Keeps (root : I) (es : List (Event I)) : Operation → Prop
  | .move _ _ _ => ConfinedTwice root es
  | _ => Confined root es

/-- Whatever the tree is at each call, what an operation opens on its way is the child of what
it holds, and from the directory it ends in it works on entries of that directory. -/
theorem operation_confined (p : Platform) (sr : SafeRoot I) (w : ℕ → Moment I) (op : Operation) :
    op.Keeps sr.dirFd (op.trace p sr w) := by
  cases op with
  | readBytes target maxBytes skip => exact confined_readBytes p sr target maxBytes skip w
  | stat target => exact confined_stat p sr target w
  | listDir target skip => exact confined_listDir p sr target skip w
  | writeBytes target data overwrite => exact confined_writeBytes p sr target data overwrite w
  | appendBytes target data => exact confined_appendBytes p sr target data w
  | mkdir target => exact confined_mkdir p sr target w
  | move src dst overwrite => exact confinedTwice_move p sr src dst overwrite w
  | unlink target shaMaxBytes => exact confined_unlink p sr target shaMaxBytes w
  | rmdir target => exact confined_rmdir p sr target w

end CyClaw.Fsconnect

/-
Which entries an operation of the jail may change.

Looking changes nothing.  What writes changes the entry its target names, and a write beside it
its temporary file; a move changes the entries of both its targets.
-/
import CyClaw.Fsconnect.Share
import CyClaw.Lib.TreeChanges

namespace CyClaw.Fsconnect

open Posix PathTree
open Repo (Text splitComponents parts)

/-- The entries a change is of. -/
def places : Mutation → List Path
  | .create dir name _ => [dir ++ [name]]
  | .write file _ _ => [file]
  | .rename srcDir src dstDir dst => [srcDir ++ [src], dstDir ++ [dst]]
  | .unlink dir name => [dir ++ [name]]
  | .rmdir dir name => [dir ++ [name]]
  | .mkdir dir name _ => [dir ++ [name]]

/-- Every entry a change is of is an `S`. -/
def Among (S : Path → Prop) (m : Mutation) : Prop := ∀ q ∈ places m, S q

/-- The entry a target names, and the temporary file beside it. -/
def Rewritten (p : Platform) (target : Text) (q : Path) : Prop :=
  ∃ d leaf, parts target = d ++ [leaf] ∧ (q = d ++ [leaf] ∨ q = d ++ [tmpName p leaf])

/-- The entries a call asks to change. -/
def asked : Change Path → List Path
  | .replace srcDir src dstDir dst => [srcDir ++ [src], dstDir ++ [dst]]
  | .unlink dir name => [dir ++ [name]]
  | .rmdir dir name => [dir ++ [name]]
  | .mkdir dir name => [dir ++ [name]]
  | .write file _ => [file]
  | .fsync _ => []

variable {p : Platform} {P : Mutation → Prop} {S : Path → Prop} {α : Type} {root target : Text}

theorem among_of_gives {c : Change Path} (h : ∀ q ∈ asked c, S q) : ∀ m, c.Gives m → Among S m := by
  rintro m ⟨mc, tick, hm | hm⟩
  · cases c <;> cases hm <;> exact h
  · cases c with
    | write file data =>
      simp only [Change.remnant, Option.ite_none_left_eq_some, Option.some.injEq] at hm
      obtain ⟨-, rfl⟩ := hm
      exact h
    | _ => cases hm

/-- Opening for anything but writing makes nothing. -/
theorem makes_openAt {d : Path} {name : Text} {mode : Mode} {k : Except Errno Path → Op Path α}
    (hmode : mode = .directory ∨ mode = .read) (herror : ∀ e, (k (.error e)).Makes P)
    (hok : (k (.ok (d ++ [name]))).Makes P) : (Prog.openAt d name mode k : Op Path α).Makes P :=
  ⟨by rcases hmode with rfl | rfl <;> simp, herror, hok⟩

theorem makes_ite {c : Prop} [Decidable c] {q q' : Prog Path α} (hq : q.Makes P) (hq' : q'.Makes P) :
    (if c then q else q').Makes P := by
  split
  · exact hq
  · exact hq'

theorem makes_change {c : Change Path} {k : Except Errno Unit → Op Path α} (h : ∀ q ∈ asked c, S q)
    (hk : ∀ r, (k r).Makes (Among S)) : (Prog.change c k : Op Path α).Makes (Among S) :=
  ⟨among_of_gives h, hk⟩

/-! ### Going down -/

theorem makes_withComponents {k : List Text → Op Path α}
    (h : ∀ comps, splitComponents target = some comps → (k comps).Makes P) : (withComponents target k).Makes P := by
  unfold withComponents
  split
  · trivial
  · exact h _ ‹_›

theorem makes_descend {k : Path → Op Path α} :
    ∀ (comps : List Text) (d : Path), (k (d ++ comps)).Makes P → (descend p d comps k).Makes P
  | [], d, h => by rwa [List.append_nil] at h
  | comp :: comps, d, h => by
      refine makes_openAt (.inl rfl) (fun _ => trivial) (makes_descend comps (d ++ [comp]) ?_)
      rwa [List.append_assoc, List.singleton_append]

theorem makes_descendPosix {comps : List Text} {block : Path → Text → Op Path α}
    (h : ∀ d leaf, comps = d ++ [leaf] → (block d leaf).Makes P) :
    (descendPosix p (heldRoot root) comps block).Makes P := by
  unfold descendPosix
  split
  · trivial
  · rename_i leaf hleaf
    exact makes_descend _ [] (h _ leaf (List.dropLast_append_getLast? leaf hleaf).symm)

/-- An operation in the directory its target lies in. -/
theorem makes_block {block : List Text → Path → Text → Op Path α} {first : List Text → Op Path α}
    (hfirst : ∀ comps, (first comps).Makes P)
    (h : ∀ d leaf, parts target = d ++ [leaf] → (block (d ++ [leaf]) d leaf).Makes P) :
    (withComponents target fun comps =>
      if comps = [] then first comps else descendPosix p (heldRoot root) comps (block comps)).Makes P := by
  refine makes_withComponents fun comps hcomps => makes_ite (hfirst comps) (makes_descendPosix ?_)
  rintro d leaf rfl
  exact h d leaf (Repo.splitComponents_parts hcomps).symm

/-! ### Looking -/

theorem makes_openForReading {d : Path} {leaf : Text} {maxBytes : ℕ} {skip : Bool} :
    (openForReading p d leaf maxBytes skip).Makes P := by
  refine makes_openAt (.inr rfl) (fun _ => trivial) fun r => ?_
  rcases r with e | st
  · trivial
  · refine makes_ite trivial (makes_ite trivial (makes_ite trivial fun r => ?_))
    rcases r with e | data
    · trivial
    · exact makes_ite trivial trivial

theorem makes_readBytes {maxBytes : ℕ} {skip : Bool} : (readBytes p (heldRoot root) target maxBytes skip).Makes P := by
  refine makes_withComponents fun comps _ => makes_ite trivial (makes_descendPosix fun d leaf _ => ?_)
  refine makes_ite (fun r => ?_) makes_openForReading
  cases r
  · trivial
  · exact makes_ite trivial makes_openForReading

theorem makes_stat : (stat p (heldRoot root) target).Makes P := by
  refine makes_block (fun comps r => ?_) (fun d leaf _ r => ?_) <;> cases r <;> trivial

theorem makes_statEntries {d : Path} {skip : Bool} :
    ∀ (names : List Text) (acc : List StatDict), (statEntries p d skip names acc).Makes P
  | [], _ => trivial
  | name :: names, acc => by
      refine makes_ite (makes_statEntries names acc) fun r => ?_
      cases r
      · exact makes_ite trivial (makes_statEntries names acc)
      · exact makes_ite (makes_statEntries names acc) (makes_statEntries names _)

theorem makes_listdirFd {d : Path} {skip : Bool} : (listdirFd p d skip).Makes P := by
  intro r
  cases r with
  | error e => trivial
  | ok names => exact makes_statEntries _ []

theorem makes_listDir {skip : Bool} : (listDir p (heldRoot root) target skip).Makes P :=
  makes_block (fun _ => makes_listdirFd) fun _ _ _ => makes_openAt (.inl rfl) (fun _ => trivial) makes_listdirFd

/-! ### Writing -/

theorem makes_guardClobber {d : Path} {leaf message : Text} {overwrite : Bool} {k : Op Path α} (hk : k.Makes P) :
    (guardClobber d leaf overwrite message k).Makes P := by
  refine makes_ite hk fun r => ?_
  rcases r with e | st
  · cases e with
    | noent => exact hk
    | _ => trivial
  · trivial

theorem makes_writeBytes {data : Bytes} {overwrite : Bool}
    (h : ∀ q, Rewritten p target q → S q) : (writeBytes p (heldRoot root) target data overwrite).Makes (Among S) := by
  refine makes_block (fun _ => trivial) fun d leaf hcomps => ?_
  have hleaf := h _ ⟨d, leaf, hcomps, .inl rfl⟩
  have htmp := h _ ⟨d, leaf, hcomps, .inr rfl⟩
  have habandon : ∀ e, (abandonWrite d (tmpName p leaf) e : Op Path Written).Makes (Among S) :=
    fun _ => makes_change (by simpa [asked] using htmp) fun _ => trivial
  refine makes_guardClobber ⟨fun _ _ => by simpa [Among, places] using htmp, fun _ => trivial, ?_⟩
  refine makes_change (by simpa [asked] using htmp) fun r => ?_
  rcases r with e | -
  · exact habandon e
  · refine makes_change (by simp [asked]) fun r => ?_
    rcases r with e | -
    · exact habandon e
    · refine makes_change (by simpa [asked] using ⟨htmp, hleaf⟩) fun r => ?_
      rcases r with e | -
      · exact habandon e
      · exact makes_change (by simp [asked]) fun _ => trivial

theorem makes_appendBytes {data : Bytes} (h : S (parts target)) : (appendBytes p (heldRoot root) target data).Makes (Among S) := by
  refine makes_block (fun _ => trivial) fun d leaf hcomps => ?_
  refine ⟨fun _ _ => by simpa [Among, places] using hcomps ▸ h, fun _ => trivial, ?_⟩
  refine makes_change (by simpa [asked] using hcomps ▸ h) fun r => ?_
  cases r <;> trivial

theorem makes_mkdir (h : S (parts target)) : (mkdir p (heldRoot root) target).Makes (Among S) := by
  refine makes_block (fun _ => trivial) fun d leaf hcomps => ?_
  refine makes_change (by simpa [asked] using hcomps ▸ h) fun r => ?_
  rcases r with e | -
  · cases e <;> trivial
  · trivial

theorem makes_move {src dst : Text} {overwrite : Bool} (hsrc : S (parts src)) (hdst : S (parts dst)) :
    (move p (heldRoot root) src dst overwrite).Makes (Among S) := by
  refine makes_withComponents fun scomps hscomps => makes_withComponents fun dcomps hdcomps => ?_
  rw [← Repo.splitComponents_parts hscomps] at hsrc
  rw [← Repo.splitComponents_parts hdcomps] at hdst
  refine makes_ite trivial (makes_descendPosix ?_)
  rintro sd sleaf rfl
  refine makes_descendPosix ?_
  rintro dd dleaf rfl
  refine makes_guardClobber (makes_change (by simpa [asked] using ⟨hsrc, hdst⟩) fun r => ?_)
  cases r
  · trivial
  · exact makes_change (by simp [asked]) fun _ => trivial

theorem makes_shaLeafPosix {d : Path} {leaf : Text} {st : Stat} {shaMaxBytes : Option ℕ} {k : Option Text → Op Path α}
    (hk : ∀ sha, (k sha).Makes P) : (shaLeafPosix p d leaf st shaMaxBytes k).Makes P := by
  have hread : ∀ (fd : Path) (n : ℕ) (acc : Bytes) (k' : Bytes → Op Path α), (∀ data, (k' data).Makes P) →
      (readChunks fd n acc k').Makes P := by
    intro fd n
    induction n with
    | zero => exact fun acc k' hk' => hk' acc
    | succ n ih =>
      intro acc k' hk' r
      rcases r with e | chunk
      · trivial
      · exact makes_ite (hk' acc) (ih _ k' hk')
  exact makes_ite (hk none) (makes_ite (hk none) (makes_openAt (.inr rfl) (fun _ => hk none) (hread _ _ _ _ fun _ => hk _)))

theorem makes_unlink {shaMaxBytes : Option ℕ} (h : S (parts target)) :
    (unlink p (heldRoot root) target shaMaxBytes).Makes (Among S) := by
  refine makes_block (fun _ => trivial) fun d leaf hcomps r => ?_
  rcases r with e | st
  · trivial
  · refine makes_ite trivial (makes_shaLeafPosix fun sha => makes_change (by simpa [asked] using hcomps ▸ h) fun r => ?_)
    cases r
    · trivial
    · exact makes_change (by simp [asked]) fun _ => trivial

theorem makes_rmdir (h : S (parts target)) : (rmdir p (heldRoot root) target).Makes (Among S) := by
  refine makes_block (fun _ => trivial) fun d leaf hcomps r => ?_
  rcases r with e | st
  · trivial
  · refine makes_ite trivial (makes_change (by simpa [asked] using hcomps ▸ h) fun r => ?_)
    rcases r with e | -
    · cases e <;> trivial
    · exact makes_change (by simp [asked]) fun _ => trivial

end CyClaw.Fsconnect

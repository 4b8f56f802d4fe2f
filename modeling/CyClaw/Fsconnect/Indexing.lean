/-
What `scan` and `apply` make of a share with bad entries.

A file that cannot be read is put down as skipped and the walk goes on.  Everything else that
goes wrong ends the run: a directory that cannot be listed or has a name the splitter refuses,
one too deep for the stack, a file or directory in the staging directory where the other is to
be made.  `Admits` says that none of this is so, and `survives_iff` that this is exactly when
both return and every eligible file is in the manifest, as long as no name has a backslash
that leads the walk astray.
-/
import CyClaw.Fsconnect.Indexer

namespace CyClaw.Fsconnect.Index

open Posix DepthFirst
open PathTree (Path)
open Repo (Text splitComponents join)

variable {p : Platform} {T : Type} {ix : FsIndexer} {s : Share p} {hooks : Hooks T}

/-! ### What is done with an entry -/

section Look

variable {child : Text} {entry : StatDict} {w w' : Work T}

/-- How looking at an entry ends. -/
inductive Looked (ix : FsIndexer) (s : Share p) (hooks : Hooks T) (child : Text) (entry : StatDict) (w : Work T) :
    Work T → Prop where
  | passed {rows : List Row} (hnot : ix.considers child entry = false) (hrows : ∀ row ∈ rows, row.cached = none) :
      Looked ix s hooks child entry w ⟨w.manifest ++ rows, w.state⟩
  | hit {row : Row} (hconsiders : ix.considers child entry = true)
      (hcached : hooks.cachedEntryFor child entry w.state = .ok (some row)) : Looked ix s hooks child entry w (w.add row)
  | failed {e : FsError} (hconsiders : ix.considers child entry = true)
      (hcached : hooks.cachedEntryFor child entry w.state = .ok none)
      (hread : s.readBytes child ix.indexMaxFileBytes = .error e) :
      Looked ix s hooks child entry w (w.add (.skipped child entry.size (.readError (errorName e))))
  | read {data : Bytes} {state : T} (hconsiders : ix.considers child entry = true)
      (hcached : hooks.cachedEntryFor child entry w.state = .ok none)
      (hread : s.readBytes child ix.indexMaxFileBytes = .ok data) (hfile : hooks.onFile child data w.state = .ok state) :
      Looked ix s hooks child entry w
        ⟨w.manifest ++ [.kept child ⟨entry.size, entry.mtime, p.sha256 data, ix.scanContent data⟩ false], state⟩

theorem look_of_considers {rel : Text} (h : ix.considers (childPath rel entry.name) entry = true) :
    look ix s hooks rel entry w = takeFile ix s hooks (childPath rel entry.name) entry w := by
  simp only [FsIndexer.considers, decide_eq_true_eq] at h
  obtain ⟨htype, hext, hname, hsize⟩ := h
  simp only [look, htype, hext, hname, not_lt.mpr hsize, ne_eq, not_true_eq_false, Bool.true_eq_false, if_false]

theorem look_of_not_considers (s : Share p) (hooks : Hooks T) (w : Work T) {rel : Text}
    (h : ix.considers (childPath rel entry.name) entry = false) :
    ∃ rows, (∀ row ∈ rows, row.cached = none) ∧ look ix s hooks rel entry w = .ok ⟨w.manifest ++ rows, w.state⟩ := by
  have hnone : ∃ rows : List Row, (∀ row ∈ rows, row.cached = none) ∧
      (.ok w : Except Halt (Work T)) = .ok ⟨w.manifest ++ rows, w.state⟩ :=
    ⟨[], fun row hrow => absurd hrow List.not_mem_nil, by rw [List.append_nil]⟩
  have hskip : ∀ why, ∃ rows : List Row, (∀ row ∈ rows, row.cached = none) ∧
      (.ok (w.add (.skipped (childPath rel entry.name) entry.size why)) : Except Halt (Work T)) =
        .ok ⟨w.manifest ++ rows, w.state⟩ := by
    intro why
    refine ⟨[.skipped (childPath rel entry.name) entry.size why], ?_, rfl⟩
    intro row hrow
    rw [List.mem_singleton.mp hrow]
    rfl
  simp only [FsIndexer.considers, decide_eq_false_iff_not] at h
  unfold look
  dsimp only
  split
  · exact hnone
  · rename_i htype
    split
    · exact hnone
    · rename_i hext
      split
      · exact hskip _
      · rename_i hname
        split
        · exact hskip _
        · rename_i hsize
          exact absurd ⟨not_not.mp htype, by simpa using hext, hname, not_lt.mp hsize⟩ h

theorem looked_of_look (rel : Text) (h : look ix s hooks rel entry w = .ok w') :
    Looked ix s hooks (childPath rel entry.name) entry w w' := by
  cases hconsiders : ix.considers (childPath rel entry.name) entry with
  | false =>
      obtain ⟨rows, hrows, hlook⟩ := look_of_not_considers s hooks w hconsiders
      rw [hlook, Except.ok.injEq] at h
      rw [← h]
      exact .passed hconsiders hrows
  | true =>
      rw [look_of_considers hconsiders] at h
      unfold takeFile at h
      split at h
      · cases h
      · rename_i hcached
        obtain rfl := Except.ok.inj h
        exact .hit hconsiders hcached
      · rename_i hcached
        unfold readFile at h
        split at h
        · rename_i hread
          split at h
          · obtain rfl := Except.ok.inj h
            exact .failed hconsiders hcached hread
          · cases h
        · rename_i hread
          split at h
          · cases h
          · rename_i hfile
            obtain rfl := Except.ok.inj h
            exact .read hconsiders hcached hread hfile

/-- Looking fails only where a callback does. -/
theorem exists_look (rel : Text)
    (h : ix.considers (childPath rel entry.name) entry = true →
      ∃ o, hooks.cachedEntryFor (childPath rel entry.name) entry w.state = .ok o ∧
        (o = none → ∀ data, s.readBytes (childPath rel entry.name) ix.indexMaxFileBytes = .ok data →
          ∃ state, hooks.onFile (childPath rel entry.name) data w.state = .ok state)) :
    ∃ w', look ix s hooks rel entry w = .ok w' := by
  cases hconsiders : ix.considers (childPath rel entry.name) entry with
  | false =>
      obtain ⟨rows, -, hlook⟩ := look_of_not_considers s hooks w hconsiders
      exact ⟨_, hlook⟩
  | true =>
      obtain ⟨o, hcached, hfile⟩ := h hconsiders
      rw [look_of_considers hconsiders, takeFile, hcached]
      cases o with
      | some row => exact ⟨_, rfl⟩
      | none =>
          dsimp only
          unfold readFile
          cases hread : s.readBytes (childPath rel entry.name) ix.indexMaxFileBytes with
          | error e =>
              dsimp only
              rw [if_pos (isolated_readBytes e hread)]
              exact ⟨_, rfl⟩
          | ok data =>
              obtain ⟨state, hstate⟩ := hfile rfl data hread
              dsimp only
              rw [hstate]
              exact ⟨_, rfl⟩

end Look

/-! ### The walk by places -/

section Places

def enterPlace (g : Place) (entry : StatDict) : Option Place :=
  if entry.type = "dir".toList then some (g.child entry.name) else none

/-- The walk of a share, with the path of every directory known. -/
def placed (ix : FsIndexer) (s : Share p) (hooks : Hooks T) : Walker Place StatDict (Work T) Halt :=
  (walker ix s hooks).along Place.rel enterPlace

def top : Place := ⟨[], []⟩

theorem goes : Goes s (placed ix s hooks) .raised where
  list _ := rfl
  enter g e d h := by
    simp only [placed, Walker.along, enterPlace, Option.ite_none_right_eq_some, Option.some.injEq] at h
    exact ⟨h.2.symm, h.1⟩

theorem run_eq (state : T) : run ix s hooks state = (placed ix s hooks).walk ix.frames top ⟨[], state⟩ := by
  have halong : ∀ g e, True → (walker ix s hooks).enter (Place.rel g) e = (enterPlace g e).map Place.rel := ?_
  · exact (Walker.walk_along (g := top) halong (fun _ _ _ _ _ => trivial) ix.frames trivial _).symm
  intro g e _
  simp only [walker, enterPlace, apply_ite (Option.map _), Option.map_some, Option.map_none, Place.child]

/-- The walk comes to all that is shown, as far down as its levels go. -/
theorem course_of_shown {d : Path} {r : List Text} {e : StatDict} (h : Shown s d r e) :
    ∀ {n : ℕ} {g : Place}, g.path = d → r.length ≤ n →
      ∃ x ∈ course s (placed ix s hooks) n g, x.entry = e ∧ x.path = d ++ r ∧ x.target = spelled g.rel r ∧
        x.levels + r.length = n := by
  induction h with
  | @here d e he =>
      rintro n g rfl hn
      obtain ⟨m, rfl⟩ := Nat.exists_eq_add_of_le' hn
      exact ⟨⟨m, g, e⟩, Walker.mem_preorder.mpr ⟨e, he, .inl rfl⟩, rfl, rfl, rfl, rfl⟩
  | @under d e e' r he hdir hrest ih =>
      rintro n g rfl hn
      rw [List.length_cons] at hn
      obtain ⟨m, rfl⟩ := Nat.exists_eq_add_of_le' (le_trans (Nat.le_add_left 1 r.length) hn)
      have henter : (placed ix s hooks).enter g e = some (g.child e.name) := if_pos hdir
      obtain ⟨x, hx, hentry, hpath, htarget, hlevels⟩ := ih (n := m) (g := g.child e.name) rfl (by omega)
      refine ⟨x, Walker.mem_preorder.mpr ⟨e, he, .inr ⟨_, henter, hx⟩⟩, hentry, ?_, htarget, ?_⟩
      · rw [hpath, List.append_assoc, List.singleton_append]
      · rw [List.length_cons]
        omega

theorem spelled_top {r : List Text} {d : Path} {e : StatDict} (h : Shown s d r e) : spelled top.rel r = join r := by
  obtain ⟨hne, hnames⟩ := path_of_shown h
  rw [spelled_eq hne hnames]
  rfl

end Places

/-! ### The loop over the entries -/

section Loop

variable {l : List At} {w w' : Work T} {x : At}

theorem looked_of_looks (h : (placed ix s hooks).look x.dir x.entry w = .ok w') :
    Looked ix s hooks x.target x.entry w w' := looked_of_look x.dir.rel h

/-- What looking at an entry keeps, the loop keeps. -/
theorem looks_invariant {J : Work T → Prop}
    (hstep : ∀ x ∈ l, ∀ w w', J w → Looked ix s hooks x.target x.entry w w' → J w') (hw : J w)
    (h : (placed ix s hooks).looks l w = .ok w') : J w' := by
  induction l generalizing w with
  | nil =>
      obtain rfl : w = w' := Except.ok.inj h
      exact hw
  | cons x l ih =>
      rw [Walker.looks_cons] at h
      cases hlook : (placed ix s hooks).look x.dir x.entry w with
      | error e =>
          rw [hlook] at h
          cases h
      | ok w₁ =>
          rw [hlook] at h
          have hfirst := hstep x List.mem_cons_self w w₁ hw (looked_of_looks hlook)
          exact ih (fun y hy => hstep y (List.mem_cons_of_mem x hy)) hfirst h

/-- The loop goes to its end if the callbacks do not fail. -/
theorem looks_ok {I : T → Prop}
    (hstep : ∀ x ∈ l, ∀ state, I state → ix.considers x.target x.entry = true →
      ∃ o, hooks.cachedEntryFor x.target x.entry state = .ok o ∧
        (o = none → ∀ data, s.readBytes x.target ix.indexMaxFileBytes = .ok data →
          ∃ state', hooks.onFile x.target data state = .ok state' ∧ I state')) (hw : I w.state) :
    ∃ w', (placed ix s hooks).looks l w = .ok w' ∧ I w'.state := by
  induction l generalizing w with
  | nil => exact ⟨w, rfl, hw⟩
  | cons x l ih =>
      have hx := hstep x List.mem_cons_self w.state hw
      obtain ⟨w₁, hlook⟩ : ∃ w₁, (placed ix s hooks).look x.dir x.entry w = .ok w₁ := by
        refine exists_look x.dir.rel fun hconsiders => ?_
        obtain ⟨o, hcached, hfile⟩ := hx hconsiders
        refine ⟨o, hcached, fun ho data hread => ?_⟩
        obtain ⟨state', hstate', -⟩ := hfile ho data hread
        exact ⟨state', hstate'⟩
      have hkept : I w₁.state := by
        cases looked_of_looks hlook with
        | passed _ _ => exact hw
        | hit _ _ => exact hw
        | failed _ _ _ => exact hw
        | read hconsiders hcached hread hfile =>
            obtain ⟨o, hcached', hnone⟩ := hx hconsiders
            rw [hcached] at hcached'
            obtain ⟨state', hstate', hI⟩ := hnone (Except.ok.inj hcached').symm _ hread
            rw [hfile] at hstate'
            rw [Except.ok.inj hstate']
            exact hI
      obtain ⟨w', hlooks, hI⟩ := ih (fun y hy => hstep y (List.mem_cons_of_mem x hy)) hkept
      refine ⟨w', ?_, hI⟩
      rw [Walker.looks_cons, hlook]
      exact hlooks

/-- An entry of the loop, with what is done before and behind it. -/
theorem looks_at (hx : x ∈ l) (h : (placed ix s hooks).looks l w = .ok w') :
    ∃ l₁ l₂ w₁ w₂, (placed ix s hooks).looks l₁ w = .ok w₁ ∧ Looked ix s hooks x.target x.entry w₁ w₂ ∧
      (placed ix s hooks).looks l₂ w₂ = .ok w' ∧ l₁ ⊆ l ∧ l₂ ⊆ l := by
  obtain ⟨l₁, l₂, rfl⟩ := List.append_of_mem hx
  rw [Walker.looks_append] at h
  cases hfirst : (placed ix s hooks).looks l₁ w with
  | error e =>
      rw [hfirst] at h
      cases h
  | ok w₁ =>
      rw [hfirst, Except.bind, Walker.looks_cons] at h
      cases hlook : (placed ix s hooks).look x.dir x.entry w₁ with
      | error e =>
          rw [hlook] at h
          cases h
      | ok w₂ =>
          rw [hlook] at h
          exact ⟨l₁, l₂, w₁, w₂, hfirst, looked_of_looks hlook, h, by simp, by simp⟩

theorem mem_of_looked {row : Row} {child : Text} {entry : StatDict} (h : Looked ix s hooks child entry w w')
    (hrow : row ∈ w.manifest) : row ∈ w'.manifest := by
  cases h with
  | passed _ _ => exact List.mem_append_left _ hrow
  | hit _ _ => exact List.mem_append_left _ hrow
  | failed _ _ _ => exact List.mem_append_left _ hrow
  | read _ _ _ _ => exact List.mem_append_left _ hrow

/-- What the skip-cache gives are rows of files whose target leads somewhere. -/
def Hooks.Sound (hooks : Hooks T) : Prop :=
  ∀ child entry state row, hooks.cachedEntryFor child entry state = .ok (some row) →
    ∃ file q, row = .kept child file true ∧ splitComponents child = some q

/-- A file that can be read has its row. -/
theorem kept_of_looks {data : Bytes} (hsound : hooks.Sound) (hx : x ∈ l) (h : (placed ix s hooks).looks l w = .ok w')
    (hconsiders : ix.considers x.target x.entry = true) (hread : s.readBytes x.target ix.indexMaxFileBytes = .ok data) :
    ∃ file unchanged, Row.kept x.target file unchanged ∈ w'.manifest ∧ (unchanged = false →
      file = ⟨x.entry.size, x.entry.mtime, p.sha256 data, ix.scanContent data⟩) := by
  obtain ⟨l₁, l₂, w₁, w₂, -, hlooked, hrest, -, -⟩ := looks_at hx h
  have hkeep : ∀ row ∈ w₂.manifest, row ∈ w'.manifest := by
    intro row hrow
    exact looks_invariant (J := fun w => row ∈ w.manifest) (fun _ _ _ _ hmem hlooked => mem_of_looked hlooked hmem)
      hrow hrest
  cases hlooked with
  | passed hnot _ =>
      rw [hconsiders] at hnot
      cases hnot
  | hit _ hcached =>
      obtain ⟨file, q, rfl, -⟩ := hsound _ _ _ _ hcached
      exact ⟨file, true, hkeep _ (by simp [Work.add]), fun h => by cases h⟩
  | failed _ _ hfail =>
      rw [hread] at hfail
      cases hfail
  | read _ _ hread' _ =>
      rw [hread] at hread'
      obtain rfl := Except.ok.inj hread'
      exact ⟨_, false, hkeep _ (by simp), fun _ => rfl⟩

/-- The targets of the rows that are kept lead somewhere. -/
def Split (w : Work T) : Prop := ∀ row ∈ w.manifest, ∀ path file, row.cached = some (path, file) →
  ∃ q, splitComponents path = some q

theorem split_looked {child : Text} {entry : StatDict} (hsound : hooks.Sound) (hw : Split w)
    (h : Looked ix s hooks child entry w w') : Split w' := by
  have hadd : ∀ rows : List Row, (∀ row ∈ rows, ∀ path file, row.cached = some (path, file) →
      ∃ q, splitComponents path = some q) → ∀ row ∈ w.manifest ++ rows, ∀ path file, row.cached = some (path, file) →
        ∃ q, splitComponents path = some q := by
    intro rows hrows row hrow
    rcases List.mem_append.mp hrow with hrow | hrow
    · exact hw row hrow
    · exact hrows row hrow
  cases h with
  | passed _ hrows =>
      refine hadd _ ?_
      intro row hrow path file hcached
      rw [hrows row hrow] at hcached
      cases hcached
  | hit _ hcached =>
      obtain ⟨file, q, rfl, hq⟩ := hsound _ _ _ _ hcached
      refine hadd _ ?_
      intro row hrow path file' hpath
      rw [List.mem_singleton.mp hrow] at hpath
      cases hpath
      exact ⟨q, hq⟩
  | failed _ _ _ =>
      refine hadd _ ?_
      intro row hrow path file' hpath
      rw [List.mem_singleton.mp hrow] at hpath
      cases hpath
  | read _ _ hread _ =>
      obtain ⟨d, name, n, hsplit, -⟩ := reads_of_readBytes hread
      refine hadd _ ?_
      intro row hrow path file' hpath
      rw [List.mem_singleton.mp hrow] at hpath
      cases hpath
      exact ⟨_, hsplit⟩

end Loop

/-! ### What is asked of a run -/

/-- The file has a row in the skip-cache that is reused. -/
def Reused (ix : FsIndexer) (t : Staging) (rel : Text) (entry : StatDict) : Prop :=
  ix.indexIncremental = true ∧ ∃ prior, Hit (loadCache ix t) t rel entry prior

/-- What is copied to a path of the staging directory. -/
def Copied (ix : FsIndexer) (s : Share p) (t : Staging) (q : Path) (content : Content) : Prop :=
  ∃ r e data, Shown s [] r e ∧ ix.considers (join r) e = true ∧ splitComponents (join r) = some q ∧
    s.readBytes (join r) ix.indexMaxFileBytes = .ok data ∧ ¬ Reused ix t (join r) e ∧ content = .bytes data

/-- A file that is to be in the manifest: the directories above it can be listed, it is of an
indexed extension and not too large, and it can be read. -/
structure Eligible (ix : FsIndexer) (s : Share p) (r : List Text) (e : StatDict) (n : PathTree.Node) : Prop where
  shown : Shown s [] r e
  entered : ∀ q, q <+: r → q ≠ r → s.Lists q
  considered : ix.considers (join r) e = true
  readable : s.Reads ix.indexMaxFileBytes r.dropLast e.name n

/-- Every such file has its row, and if it was read with its own hash. -/
def Contains (ix : FsIndexer) (s : Share p) (manifest : List Row) : Prop :=
  ∀ r e n, Eligible ix s r e n → ∃ file unchanged, Row.kept (join r) file unchanged ∈ manifest ∧
    (unchanged = false → file.sha256 = p.sha256 n.content)

/-- Both `scan` and `apply` return, with all that is eligible. -/
structure Survives (ix : FsIndexer) (s : Share p) (t : Staging) : Prop where
  scans : ∃ report, scan ix s = .ok report ∧ Contains ix s report.files
  applies : ∃ applied, apply ix s t = .ok applied ∧ Contains ix s applied.manifest

/-- A share and a staging directory without any bad entry but files that cannot be read. -/
structure Admits (ix : FsIndexer) (s : Share p) (t : Staging) : Prop where
  root : 0 < ix.frames ∧ s.Lists []
  dirs : ∀ r e, Shown s [] r e → e.type = "dir".toList → Taken e.name ∧ s.Lists r ∧ r.length < ix.frames
  names : ∀ r e n, Eligible ix s r e n → Taken e.name
  keys : ∀ rel ∈ (loadCache ix t).map Prod.fst, ∃ q, splitComponents rel = some q
  room : ∀ q content, Copied ix s t q content → t.tree.Fits q ∧
    ¬ ([cacheName] <+: q ∧ [cacheName] ≠ q) ∧ ¬ ([tmpName] <+: q ∧ [tmpName] ≠ q)
  free : t.tree.isDir [tmpName] = false ∧ t.tree.isDir [cacheName] = false

/-! ### Where nothing is bad -/

section Admitted

variable {t : Staging} {w : Work T} {x : At}

/-- What the walk comes to, by the names that lead there. -/
theorem shown_of_order (hx : x ∈ course s (placed ix s hooks) ix.frames top) :
    ∃ r, Shown s [] r x.entry ∧ x.path = r ∧ x.target = join r ∧ x.levels + r.length = ix.frames := by
  obtain ⟨r, hshown, hpath, htarget, hlevels⟩ := shown_of_course goes hx
  exact ⟨r, hshown, hpath, htarget.trans (spelled_top hshown), hlevels⟩

theorem order_of_shown (hooks : Hooks T) {r : List Text} {e : StatDict} (h : Shown s [] r e) (hdepth : r.length ≤ ix.frames) :
    ∃ x ∈ course s (placed ix s hooks) ix.frames top, x.entry = e ∧ x.path = r ∧ x.target = join r ∧
      x.levels + r.length = ix.frames := by
  obtain ⟨x, hx, hentry, hpath, htarget, hlevels⟩ := course_of_shown h (g := top) rfl hdepth
  exact ⟨x, hx, hentry, hpath, htarget.trans (spelled_top h), hlevels⟩

/-- Nothing is shown deeper than one level below what can be entered. -/
theorem length_of_shown {r : List Text} {e : StatDict} {n : ℕ} (hn : 0 < n)
    (hdirs : ∀ r e, Shown s [] r e → e.type = "dir".toList → r.length < n) (h : Shown s [] r e) : r.length ≤ n := by
  have hpos := List.length_pos_of_ne_nil (path_of_shown h).1
  by_cases hroot : r.dropLast = []
  · have hone := congrArg List.length hroot
    rw [List.length_dropLast, List.length_nil] at hone
    omega
  · have hproper : r.dropLast ≠ r := by
      intro heq
      have hlength := congrArg List.length heq
      rw [List.length_dropLast] at hlength
      omega
    obtain ⟨e', hshown, hdir⟩ := shown_above h (List.dropLast_prefix r) hroot hproper
    have hlt := hdirs _ _ hshown hdir
    rw [List.length_dropLast] at hlt
    omega

theorem isSome_enter : ((placed ix s hooks).enter x.dir x.entry).isSome = true ↔ x.entry.type = "dir".toList := by
  simp only [placed, Walker.along, enterPlace, Option.isSome_ite]

variable (hadmits : Admits ix s t)
include hadmits

theorem goodName_of_admits (hx : x ∈ course s (placed ix s hooks) ix.frames top) : GoodName (placed ix s hooks) x := by
  intro henter
  obtain ⟨r, hshown, -⟩ := shown_of_order hx
  exact (hadmits.dirs r _ hshown (isSome_enter.mp henter)).1

theorem leads_of_admits (hx : x ∈ course s (placed ix s hooks) ix.frames top) : x.dir.Leads := by
  obtain ⟨before, after, horder⟩ := List.append_of_mem hx
  have htop : top.Leads := rfl
  refine leads_each goes htop before x after horder ?_
  intro y hy
  refine goodName_of_admits hadmits ?_
  rw [horder]
  exact List.mem_append_left _ hy

theorem opens_of_admits (hx : x ∈ course s (placed ix s hooks) ix.frames top) :
    (placed ix s hooks).Opens (fun g => s.entries g.path) x := by
  obtain ⟨r, hshown, hpath, -, hlevels⟩ := shown_of_order hx
  refine opens_of_leads goes (mem_entries_of_course hx) (leads_of_admits hadmits hx) (goodName_of_admits hadmits hx) ?_ ?_
  · intro henter
    have hdepth := (hadmits.dirs r _ hshown (isSome_enter.mp henter)).2.2
    omega
  · intro henter
    rw [hpath]
    exact (hadmits.dirs r _ hshown (isSome_enter.mp henter)).2.1

/-- The walk goes through all that is shown. -/
theorem run_of_looks {state : T}
    (h : (placed ix s hooks).looks (course s (placed ix s hooks) ix.frames top) ⟨[], state⟩ = .ok w) :
    run ix s hooks state = .ok w := by
  obtain ⟨m, hm⟩ := Nat.exists_eq_add_one.mpr hadmits.root.1
  have hlist : (placed ix s hooks).list top = .ok (s.entries top.path) := by
    rw [goes.list, listDir_of_lists (q := []) rfl hadmits.root.2]
    rfl
  have hopens : ∀ x ∈ course s (placed ix s hooks) ix.frames top,
      (placed ix s hooks).Opens (fun g => s.entries g.path) x := fun x hx => opens_of_admits hadmits hx
  rw [hm] at h hopens
  rw [run_eq, hm]
  exact Walker.walk_of_course hlist (.ends hopens h)

/-- The manifest of a run that goes to its end is complete. -/
theorem contains_of_looks {state : T} (hsound : hooks.Sound)
    (h : (placed ix s hooks).looks (course s (placed ix s hooks) ix.frames top) ⟨[], state⟩ = .ok w) :
    Contains ix s w.manifest := by
  intro r e n heligible
  have htaken := hadmits.names r e n heligible
  obtain ⟨hshown, -, hconsiders, hreads⟩ := heligible
  have hdepth := length_of_shown hadmits.root.1 (fun _ _ hshown hdir => (hadmits.dirs _ _ hshown hdir).2.2) hshown
  obtain ⟨x, hx, rfl, hpath, htarget, -⟩ := order_of_shown hooks hshown hdepth
  have hsplit : splitComponents x.target = some (r.dropLast ++ [x.entry.name]) := by
    have hchild : splitComponents x.target = some x.path :=
      splitComponents_child (leads_of_admits hadmits hx) (isName_of_entry (mem_entries_of_course hx)) htaken
    rw [hchild, Option.some.injEq, ← hpath, At.path, List.dropLast_concat]
  rw [← htarget] at hconsiders ⊢
  obtain ⟨file, unchanged, hmem, hfile⟩ := kept_of_looks hsound hx h hconsiders (readBytes_of_reads hsplit hreads)
  exact ⟨file, unchanged, hmem, fun hread => by rw [hfile hread]⟩

end Admitted

section Callbacks

variable {t t' : Staging} {q : Path} {content : Content}

theorem sound_scanHooks : scanHooks.Sound := by
  intro child entry state row h
  cases h

theorem sound_applyHooks {incremental : Bool} {cache : Cache} : (applyHooks incremental cache).Sound := by
  intro child entry state row h
  unfold applyHooks at h
  dsimp only at h
  split at h
  · obtain ⟨prior, ⟨-, -, -, q, hq, -⟩, rfl⟩ := cacheProbe_some h
    exact ⟨prior, q, rfl, hq⟩
  · cases h

theorem regular_of_copied (h : Copied ix s t q content) : ∃ n, s.tree.node q = some n ∧ n.kind = .regular := by
  obtain ⟨r, e, data, -, -, hsplit, hread, -⟩ := h
  obtain ⟨d, name, n, hq, hreads, -⟩ := reads_of_readBytes hread
  rw [hsplit, Option.some.injEq] at hq
  exact ⟨n, hq ▸ hreads.node, hreads.regular⟩

/-- No file of the share stands above another. -/
theorem copied_apart {r : Path} {content' : Content} (h : Copied ix s t q content) (h' : Copied ix s t r content')
    (hr : r <+: q) : r = q := by
  obtain ⟨n, hn, -⟩ := regular_of_copied h
  obtain ⟨m, hm, hregular⟩ := regular_of_copied h'
  obtain ⟨rest, rfl⟩ := hr
  by_contra hne
  have hdir := PathTree.Tree.isDir_above hn fun hnil => hne (by rw [hnil, List.append_nil])
  obtain ⟨m', hm', hkind⟩ := PathTree.Tree.isDir_iff.mp hdir
  rw [hm, Option.some.injEq] at hm'
  rw [← hm', hregular] at hkind
  cases hkind

/-- A row that can be reused can be later in the run too. -/
theorem Hit.grown {cache : Cache} {rel : Text} {entry : StatDict} {prior : Cached} {P : Path → Content → Prop}
    (h : Hit cache t rel entry prior) (hgrown : t.tree.Grown P t'.tree) : Hit cache t' rel entry prior := by
  obtain ⟨hprior, hsize, hmtime, q, hq, hholds⟩ := h
  refine ⟨hprior, hsize, hmtime, q, hq, ?_⟩
  unfold Staging.holds at *
  rw [Option.isSome_iff_ne_none] at *
  exact hgrown.entry_ne_none hholds

end Callbacks

section Returns

variable {t : Staging}

theorem scans_of_admits (hadmits : Admits ix s t) : ∃ report, scan ix s = .ok report ∧ Contains ix s report.files := by
  have hloop : ∃ w, (placed ix s scanHooks).looks (course s (placed ix s scanHooks) ix.frames top) ⟨[], ()⟩ = .ok w ∧
      True := looks_ok (I := fun _ => True) (fun _ _ _ _ _ => ⟨none, rfl, fun _ _ _ => ⟨(), rfl, trivial⟩⟩) trivial
  obtain ⟨w, hlooks, -⟩ := hloop
  refine ⟨⟨(current w.manifest).length, w.manifest⟩, ?_, contains_of_looks hadmits sound_scanHooks hlooks⟩
  rw [scan, run_of_looks hadmits hlooks]
  rfl

/-- Copying goes through where there is room. -/
theorem copies_of_admits (hadmits : Admits ix s t) {x : At}
    (hx : x ∈ course s (placed ix s (applyHooks ix.indexIncremental (loadCache ix t))) ix.frames top) {c : Copies}
    (hc : t.tree.Grown (Copied ix s t) c.staging.tree) (hconsiders : ix.considers x.target x.entry = true) :
    ∃ o, (applyHooks ix.indexIncremental (loadCache ix t)).cachedEntryFor x.target x.entry c = .ok o ∧
      (o = none → ∀ data, s.readBytes x.target ix.indexMaxFileBytes = .ok data →
        ∃ c', stage x.target data c = .ok c' ∧ t.tree.Grown (Copied ix s t) c'.staging.tree) := by
  obtain ⟨r, hshown, -, htarget, -⟩ := shown_of_order hx
  have hcached : ∃ o, (applyHooks ix.indexIncremental (loadCache ix t)).cachedEntryFor x.target x.entry c = .ok o := by
    unfold applyHooks
    dsimp only
    split
    · refine exists_cacheProbe ?_
      intro prior hprior
      exact hadmits.keys _ (List.mem_map.mpr ⟨(x.target, prior), mem_of_lookup hprior, rfl⟩)
    · exact ⟨none, rfl⟩
  obtain ⟨o, ho⟩ := hcached
  refine ⟨o, ho, ?_⟩
  rintro rfl data hread
  obtain ⟨d, name, n, hsplit, hreads, hdata⟩ := reads_of_readBytes hread
  have hfresh : ¬ Reused ix t x.target x.entry := by
    rintro ⟨hincremental, prior, hhit⟩
    rw [applyHooks, hincremental] at ho
    exact cacheProbe_none ho (hhit.grown hc)
  have hcopied : Copied ix s t (d ++ [name]) (.bytes data) := by
    rw [htarget] at hconsiders hsplit hread hfresh
    exact ⟨r, x.entry, data, hshown, hconsiders, hsplit, hread, hfresh, rfl⟩
  have hfits : c.staging.tree.Fits (d ++ [name]) :=
    hc.fits (hadmits.room _ _ hcopied).1 (fun _ _ h hr => copied_apart hcopied h hr)
      fun _ _ h hr => copied_apart h hcopied hr
  obtain ⟨t', ht'⟩ := (exists_write (.bytes data)).mpr hfits
  refine ⟨⟨t', c.copied ++ [x.target]⟩, ?_, hc.write hcopied (write_eq ht')⟩
  rw [stage, hsplit]
  dsimp only
  rw [ht']

/-- No copy makes a directory where the skip-cache goes. -/
theorem free_of_grown (hadmits : Admits ix s t) {t' : Staging} (h : t.tree.Grown (Copied ix s t) t'.tree) :
    t'.tree.isDir [tmpName] = false ∧ t'.tree.isDir [cacheName] = false := by
  have hfree : ∀ name, t.tree.isDir [name] = false →
      (∀ q content, Copied ix s t q content → ¬ ([name] <+: q ∧ [name] ≠ q)) → t'.tree.isDir [name] = false := by
    intro name hname hbelow
    rw [Bool.eq_false_iff, ne_eq, FileTree.isDir_iff] at hname ⊢
    rcases h [name] with hsame | ⟨content, -, hfile, -⟩ | ⟨-, -, q, content, hcopied, hinit, hne⟩
    · rwa [hsame]
    · rw [hfile]
      simp
    · exact absurd ⟨hinit, hne⟩ (hbelow q content hcopied)
  exact ⟨hfree _ hadmits.free.1 fun q content hcopied => (hadmits.room q content hcopied).2.2,
    hfree _ hadmits.free.2 fun q content hcopied => (hadmits.room q content hcopied).2.1⟩

theorem applies_of_admits (hadmits : Admits ix s t) :
    ∃ applied, apply ix s t = .ok applied ∧ Contains ix s applied.manifest := by
  have hstart : t.tree.Grown (Copied ix s t) t.tree := FileTree.Grown.refl _ _
  have hloop : ∃ w, (placed ix s (applyHooks ix.indexIncremental (loadCache ix t))).looks
      (course s (placed ix s (applyHooks ix.indexIncremental (loadCache ix t))) ix.frames top) ⟨[], ⟨t, []⟩⟩ = .ok w ∧
      t.tree.Grown (Copied ix s t) w.state.staging.tree :=
    looks_ok (I := fun c : Copies => t.tree.Grown (Copied ix s t) c.staging.tree)
      (fun x hx c hc hconsiders => copies_of_admits hadmits hx hc hconsiders) hstart
  obtain ⟨w, hlooks, hgrown⟩ := hloop
  have hsorted : ∀ rel ∈ sortedPaths (loadCache ix t), ∃ q, splitComponents rel = some q :=
    fun rel hrel => hadmits.keys rel ((List.mem_insertionSort _).mp hrel)
  obtain ⟨t', pruned, hpruned⟩ := pruneStaging_ok hsorted (current w.manifest) w.state.staging
  have hdirs : ∀ r, t'.tree.isDir r = w.state.staging.tree.isDir r := by
    refine (pruneStaging_invariant (I := fun t' => ∀ r, t'.tree.isDir r = w.state.staging.tree.isDir r) ?_
      (fun _ => rfl) hpruned).1
    intro rel _ _ q t₁ _ ht₁ r
    exact (FileTree.isDir_erase t₁.tree q r).trans (ht₁ r)
  obtain ⟨htmp, hcache⟩ := free_of_grown hadmits hgrown
  obtain ⟨t'', hsaved⟩ := (exists_saveCache w.manifest).mpr
    ⟨(hdirs [tmpName]).trans htmp, (hdirs [cacheName]).trans hcache⟩
  refine ⟨⟨t'', w.manifest, w.state.copied, pruned⟩, ?_, contains_of_looks hadmits sound_applyHooks hlooks⟩
  rw [apply, run_of_looks hadmits hlooks]
  dsimp only
  rw [finish, hpruned]
  dsimp only
  rw [hsaved]

end Returns

/-! ### Where a run goes to its end -/

section Converse

variable {t : Staging}

/-- A walk that goes to its end has listed every directory. -/
theorem looks_of_run (hplain : Plain s []) {state : T} {w : Work T} (h : run ix s hooks state = .ok w) :
    0 < ix.frames ∧ s.Lists [] ∧
      (∀ r e, Shown s [] r e → e.type = "dir".toList → Taken e.name ∧ s.Lists r ∧ r.length < ix.frames) ∧
      (placed ix s hooks).looks (course s (placed ix s hooks) ix.frames top) ⟨[], state⟩ = .ok w := by
  rw [run_eq] at h
  have hframes : 0 < ix.frames := by
    rcases Nat.eq_zero_or_pos ix.frames with hzero | hpos
    · rw [hzero] at h
      cases h
    · exact hpos
  obtain ⟨m, hm⟩ := Nat.exists_eq_add_one.mpr hframes
  have hroot : s.Lists [] := by
    cases hlist : s.listDir [] with
    | ok es =>
        obtain ⟨q, hq, hlists, -⟩ := lists_of_listed hlist
        rw [← Option.some.inj (hq : some [] = some q)] at hlists
        exact hlists
    | error e =>
        have hfails : (placed ix s hooks).list top = .error (.raised e) := by
          rw [goes.list, show top.rel = [] from rfl, hlist]
          rfl
        rw [hm, Walker.walk, hfails] at h
        cases h
  have hlist : (placed ix s hooks).list top = .ok (s.entries top.path) := by
    rw [goes.list, listDir_of_lists (q := []) rfl hroot]
    rfl
  have htop : top.Leads ∨ top.Strays := .inl rfl
  have htells : ∀ x ∈ course s (placed ix s hooks) ix.frames top,
      (placed ix s hooks).Tells (fun g => s.entries g.path) x := fun x hx => tells_of_plain goes hplain htop hx
  have hends : (∀ x ∈ course s (placed ix s hooks) ix.frames top,
      (placed ix s hooks).Opens (fun g => s.entries g.path) x) ∧
      (placed ix s hooks).looks (course s (placed ix s hooks) ix.frames top) ⟨[], state⟩ = .ok w := by
    rw [hm] at h htells ⊢
    exact (Walker.walk_ok_iff hlist htells).mp h
  obtain ⟨hopens, hlooks⟩ := hends
  have hdir : ∀ r e, Shown s [] r e → e.type = "dir".toList → r.length ≤ ix.frames →
      Taken e.name ∧ s.Lists r ∧ r.length < ix.frames := by
    intro r e hshown hdir hdepth
    obtain ⟨x, hx, rfl, rfl, -, hlevels⟩ := order_of_shown hooks hshown hdepth
    obtain ⟨d, henter⟩ := Option.isSome_iff_exists.mp (isSome_enter.mpr hdir)
    obtain ⟨htaken, hlists, hpos⟩ := lists_of_opens goes hplain htop hx (hopens x hx) henter
    exact ⟨htaken, hlists, by omega⟩
  refine ⟨hframes, hroot, ?_, hlooks⟩
  intro r e hshown htype
  by_cases hdepth : r.length ≤ ix.frames
  · exact hdir r e hshown htype hdepth
  · -- the directory above it at the last level cannot be entered
    exfalso
    have hlength : (r.take ix.frames).length = ix.frames := by
      rw [List.length_take]
      omega
    have hne : r.take ix.frames ≠ r := by
      intro heq
      rw [heq] at hlength
      omega
    have hnil : r.take ix.frames ≠ [] := by
      intro heq
      rw [heq, List.length_nil] at hlength
      omega
    obtain ⟨e', hshown', htype'⟩ := shown_above hshown (List.take_prefix _ r) hnil hne
    have hlt := (hdir _ _ hshown' htype' hlength.le).2.2
    omega

/-- Every kept row has a target that leads somewhere. -/
theorem split_of_run {state : T} {w : Work T} (hsound : hooks.Sound) (h : run ix s hooks state = .ok w) : Split w := by
  refine Walker.walk_invariant (I := Split) ?_ ?_ h
  · intro rel es e w w' _ _ hw hlook
    exact split_looked hsound hw (looked_of_look rel hlook)
  · intro row hrow
    cases hrow

/-- What `apply` does once the walk has gone to its end. -/
theorem apply_inv {applied : Applied} (h : apply ix s t = .ok applied) :
    ∃ w t₁, run ix s (applyHooks ix.indexIncremental (loadCache ix t)) ⟨t, []⟩ = .ok w ∧
      pruneStaging (current w.manifest) (sortedPaths (loadCache ix t)) w.state.staging = .ok (t₁, applied.pruned) ∧
      saveCache w.manifest t₁ = .ok applied.staging ∧ applied.manifest = w.manifest := by
  unfold apply at h
  dsimp only at h
  split at h
  · cases h
  · rename_i w hrun
    unfold finish at h
    split at h
    · cases h
    · rename_i t₁ pruned hpruned
      split at h
      · cases h
      · rename_i t₂ hsaved
        obtain rfl := Except.ok.inj h
        exact ⟨w, t₁, hrun, hpruned, hsaved, rfl⟩

theorem grown_of_looked {P : Path → Content → Prop} {x : At} {incremental : Bool} {cache : Cache} {w w' : Work Copies}
    (hP : ∀ q data, splitComponents x.target = some q → s.readBytes x.target ix.indexMaxFileBytes = .ok data →
      P q (.bytes data)) (hw : t.tree.Grown P w.state.staging.tree)
    (h : Looked ix s (applyHooks incremental cache) x.target x.entry w w') : t.tree.Grown P w'.state.staging.tree := by
  cases h with
  | passed _ _ => exact hw
  | hit _ _ => exact hw
  | failed _ _ _ => exact hw
  | read _ _ hread hfile =>
      obtain ⟨q, t', hq, hwrite, rfl⟩ := stage_ok hfile
      exact hw.write (hP q _ hq hread) (write_eq hwrite)

/-- A copy that is made stands in the staging directory at the end of the walk, and did fit. -/
theorem fits_of_looks {w : Work Copies} {q : Path} {content : Content} (hcopied : Copied ix s t q content)
    (hdepth : ∀ {r e}, Shown s [] r e → r.length ≤ ix.frames)
    (h : (placed ix s (applyHooks ix.indexIncremental (loadCache ix t))).looks
      (course s (placed ix s (applyHooks ix.indexIncremental (loadCache ix t))) ix.frames top) ⟨[], ⟨t, []⟩⟩ = .ok w) :
    t.tree.Fits q ∧ w.state.staging.tree.entry q ≠ none := by
  obtain ⟨r, e, data, hshown, hconsiders, hsplit, hread, hfresh, rfl⟩ := hcopied
  obtain ⟨x, hx, rfl, -, htarget, -⟩ :=
    order_of_shown (applyHooks ix.indexIncremental (loadCache ix t)) hshown (hdepth hshown)
  rw [← htarget] at hconsiders hsplit hread hfresh
  obtain ⟨l₁, l₂, w₁, w₂, hbefore, hlooked, hafter, -, -⟩ := looks_at hx h
  have hgrown : ∀ {l : List At} {w w' : Work Copies} {t' : Staging},
      t'.tree.Grown (fun _ _ => True) w.state.staging.tree →
      (placed ix s (applyHooks ix.indexIncremental (loadCache ix t))).looks l w = .ok w' →
        t'.tree.Grown (fun _ _ => True) w'.state.staging.tree := by
    intro l w w' t' hw hlooks
    exact looks_invariant (J := fun w => t'.tree.Grown (fun _ _ => True) w.state.staging.tree)
      (fun _ _ _ _ hJ hlooked => grown_of_looked (fun _ _ _ _ => trivial) hJ hlooked) hw hlooks
  have hwhole : t.tree.Grown (fun _ _ => True) w.state.staging.tree := hgrown (FileTree.Grown.refl _ _) h
  have hrest : w₂.state.staging.tree.Grown (fun _ _ => True) w.state.staging.tree :=
    hgrown (FileTree.Grown.refl _ _) hafter
  have hthere : (w.state.staging.tree.fileAt q).isSome = true ∨
      t.tree.entry q = none ∧ w.state.staging.tree.entry q ≠ none := by
    cases hlooked with
    | passed hnot _ =>
        rw [hconsiders] at hnot
        cases hnot
    | hit _ hcached =>
        right
        unfold applyHooks at hcached
        dsimp only at hcached
        split at hcached
        · rename_i hincremental
          obtain ⟨prior, ⟨hprior, hsize, hmtime, q', hq', hholds⟩, -⟩ := cacheProbe_some hcached
          rw [hsplit, Option.some.injEq] at hq'
          rw [← hq', Staging.holds, Option.isSome_iff_ne_none] at hholds
          refine ⟨?_, hrest.entry_ne_none hholds⟩
          by_contra hold
          refine hfresh ⟨hincremental, prior, hprior, hsize, hmtime, q, hsplit, ?_⟩
          rw [Staging.holds, Option.isSome_iff_ne_none]
          exact hold
        · cases hcached
    | failed _ _ hfail =>
        rw [hread] at hfail
        cases hfail
    | read _ _ _ hfile =>
        left
        obtain ⟨q', t', hq', hwrite, rfl⟩ := stage_ok hfile
        rw [hsplit, Option.some.injEq] at hq'
        refine hrest.isSome_fileAt ?_
        rw [FileTree.fileAt_write (write_eq hwrite), if_pos hq']
        rfl
  refine ⟨hwhole.fits_before t.plain hthere, ?_⟩
  rcases hthere with hfile | ⟨-, hthere⟩
  · obtain ⟨c, hc⟩ := FileTree.isSome_fileAt.mp hfile
    rw [hc]
    exact Option.some_ne_none _
  · exact hthere

/-- **A run that goes to its end found nothing bad**, where no name has a backslash. -/
theorem admits_of_survives (hplain : ∀ r e, Shown s [] r e → '\\' ∉ e.name) (h : Survives ix s t) :
    Admits ix s t := by
  have hdirplain : Plain s [] := fun r e hshown _ => hplain r e hshown
  obtain ⟨⟨report, hscan, hcontains⟩, applied, happly, -⟩ := h
  obtain ⟨w, hrun, hreport⟩ : ∃ w, run ix s scanHooks () = .ok w ∧ report.files = w.manifest := by
    unfold scan at hscan
    cases hrun : run ix s scanHooks () with
    | error x =>
        rw [hrun] at hscan
        cases hscan
    | ok w =>
        rw [hrun] at hscan
        exact ⟨w, rfl, (congrArg ScanReport.files (Except.ok.inj hscan)).symm⟩
  obtain ⟨hframes, hroot, hdirs, -⟩ := looks_of_run hdirplain hrun
  have hdepth : ∀ {r e}, Shown s [] r e → r.length ≤ ix.frames :=
    fun hshown => length_of_shown hframes (fun _ _ hshown hdir => (hdirs _ _ hshown hdir).2.2) hshown
  obtain ⟨w', t₁, hrun', hpruned, hsaved, -⟩ := apply_inv happly
  obtain ⟨-, -, -, hlooks⟩ := looks_of_run hdirplain hrun'
  have hgrown : t.tree.Grown (fun _ _ => True) w'.state.staging.tree :=
    looks_invariant (J := fun w => t.tree.Grown (fun _ _ => True) w.state.staging.tree)
      (fun _ _ _ _ hJ hlooked => grown_of_looked (fun _ _ _ _ => trivial) hJ hlooked) (FileTree.Grown.refl _ _) hlooks
  obtain ⟨hsame, hgone⟩ := pruneStaging_invariant
    (I := fun t' => ∀ r, t'.tree.isDir r = w'.state.staging.tree.isDir r)
    (fun rel _ _ q t₁ _ ht₁ r => (FileTree.isDir_erase t₁.tree q r).trans (ht₁ r)) (fun _ => rfl) hpruned
  obtain ⟨htmp, hcache⟩ := (exists_saveCache _).mp ⟨_, hsaved⟩
  rw [hsame] at htmp hcache
  refine ⟨⟨hframes, hroot⟩, hdirs, ?_, ?_, ?_, ?_⟩
  · -- an eligible file has a kept row, so its target leads somewhere
    intro r e n heligible
    have hshown := heligible.shown
    obtain ⟨file, unchanged, hmem, -⟩ := hcontains r e n heligible
    rw [hreport] at hmem
    obtain ⟨q, hq⟩ := split_of_run sound_scanHooks hrun _ hmem _ _ rfl
    obtain ⟨x, hx, rfl, -, htarget, -⟩ := order_of_shown scanHooks hshown (hdepth hshown)
    rw [← htarget] at hq
    by_contra hnot
    have hrefused : splitComponents x.target = none :=
      splitComponents_refused (isName_of_entry (mem_entries_of_course hx)) (hplain _ _ hshown) hnot
    rw [hrefused] at hq
    cases hq
  · -- a path of the skip-cache is pruned, or is that of a kept row
    intro rel hrel
    by_cases hcurrent : rel ∈ current w'.manifest
    · obtain ⟨⟨_, file⟩, hmem, rfl⟩ := List.mem_map.mp hcurrent
      obtain ⟨row, hrow, hcached⟩ := List.mem_filterMap.mp hmem
      exact split_of_run sound_applyHooks hrun' row hrow _ file hcached
    · exact hgone rel ((List.mem_insertionSort _).mpr hrel) hcurrent
  · intro q content hcopied
    obtain ⟨hfits, hthere⟩ := fits_of_looks hcopied hdepth hlooks
    have hnot : ∀ name, w'.state.staging.tree.isDir [name] = false → ¬ ([name] <+: q ∧ [name] ≠ q) := by
      rintro name hname ⟨hinit, hne⟩
      rw [FileTree.isDir_of_entry hthere hinit hne] at hname
      cases hname
    exact ⟨hfits, hnot _ hcache, hnot _ htmp⟩
  · have hbefore : ∀ name, w'.state.staging.tree.isDir [name] = false → t.tree.isDir [name] = false := by
      intro name hname
      by_contra hdir
      rw [hgrown.isDir (by simpa using hdir)] at hname
      cases hname
    exact ⟨hbefore _ htmp, hbefore _ hcache⟩

end Converse

/-- **Both return with all that is eligible as long as nothing is bad but files that cannot be
read**, and only then, unless the walk is led astray by a name with a backslash. -/
theorem survives_iff (ix : FsIndexer) (s : Share p) (t : Staging) :
    (Admits ix s t → Survives ix s t) ∧
      (Survives ix s t → Admits ix s t ∨ ∃ r e, Shown s [] r e ∧ '\\' ∈ e.name) := by
  refine ⟨fun hadmits => ⟨scans_of_admits hadmits, applies_of_admits hadmits⟩, ?_⟩
  intro h
  by_cases hback : ∃ r e, Shown s [] r e ∧ '\\' ∈ e.name
  · exact .inr hback
  · left
    push Not at hback
    exact admits_of_survives hback h

/-! ### A directory with a colon in its name -/

/-- Notes are indexed. -/
def notesIndexer : FsIndexer where
  indexExtensions := [".md".toList]
  indexMaxFileBytes := 50
  indexIncremental := false
  lower := id
  scanContent _ := 0
  frames := 10
  loads _ := []

theorem linkAt_ofEntries_nil (q : Path) :
    (FileTree.ofEntries ([] : List (List Text × Node Text Content)) rfl).linkAt q = none := by
  by_cases h : q = []
  · rw [h, FileTree.linkAt_root]
  · simp [FileTree.linkAt, FileTree.ofEntries, FileTree.lookupIn, h]

def emptyStaging : Staging := ⟨FileTree.ofEntries [] rfl, linkAt_ofEntries_nil⟩

/-- **One directory named `b:c` ends both**, and the note beside it is not indexed. -/
theorem colon_ends_run :
    (∃ e, scan notesIndexer (faultless linux agenda) = .error (.raised e)) ∧
      (∃ e, apply notesIndexer (faultless linux agenda) emptyStaging = .error (.raised e)) ∧
      Eligible notesIndexer (faultless linux agenda) ["b.md".toList]
        (statToDict linux "b.md".toList (fileOf []).stat) (fileOf []) ∧
      ¬ Survives notesIndexer (faultless linux agenda) emptyStaging := by
  have hscan : ∃ e, scan notesIndexer (faultless linux agenda) = .error (.raised e) := ⟨_, by rfl⟩
  refine ⟨hscan, ⟨_, by rfl⟩, ?_, ?_⟩
  · have hnote : statToDict linux "b.md".toList (fileOf []).stat ∈ (faultless linux agenda).entries [] :=
      mem_entries.mpr (entry_of_node rfl rfl rfl)
    have hroot : (faultless linux agenda).Lists [] := lists_of_faultless (fun _ _ => rfl) (by decide +kernel)
    refine ⟨.here hnote, ?_, by decide +kernel, ?_⟩
    · intro q hq hne
      rcases List.prefix_cons_iff.mp hq with rfl | ⟨rest, rfl, hrest⟩
      · exact hroot
      · rw [List.prefix_nil.mp hrest] at hne
        exact absurd rfl hne
    · exact ⟨hroot.1, rfl, rfl, by decide, rfl, rfl, rfl, rfl⟩
  · rintro ⟨⟨report, hreport, -⟩, -⟩
    obtain ⟨e, he⟩ := hscan
    rw [he] at hreport
    cases hreport

end CyClaw.Fsconnect.Index

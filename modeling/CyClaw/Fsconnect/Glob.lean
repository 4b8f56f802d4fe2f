/-
`FsClient.fs_glob`: the entries under a directory whose path matches a pattern.

A recursive walk with two caps.  The cap of matches ends it, the cap of depth leaves out what
is below, and both are told as `truncated`.

The walk comes to the entries in a fixed order (`order`).  Its answer is right as long as the
splitter takes the name of every directory that is entered before the cap of matches is
reached (`glob_right_iff`); a name it refuses makes `fs_glob` raise, and nothing is found.
-/
import CyClaw.Fsconnect.Walks

namespace CyClaw.Fsconnect.Glob

open Posix PathTree DepthFirst
open Repo (Text splitComponents join)

def maxGlobMatches : ℕ := 1000

def maxGlobDepth : ℕ := 64

structure Query where
  target : Text
  pattern : Text
  recursive : Bool

structure Match where
  path : Text
  type : Text
  size : ℕ
deriving DecidableEq

structure State where
  matched : List Match
  depthCapped : Bool
deriving DecidableEq

/-- Why the walk ends before its end: it has all the matches it may have, or something raised. -/
inductive Halt where
  | full (s : State)
  | raised (e : FsError)
  | recursion

/-- The path of an entry relative to the target. -/
def relpath (target child : Text) : Text :=
  let front := if target = [] then [] else target ++ ['/']
  if front ≠ [] ∧ front.isPrefixOf child then child.drop front.length else child

section Walk

variable (fnmatch : Text → Text → Bool) (q : Query)

/-- What `_walk` does with an entry of `rel` at a depth, before it goes down. -/
def look (at' : Text × ℕ) (entry : StatDict) (s : State) : Except Halt State :=
  let child := childPath at'.1 entry.name
  let capped := decide (q.recursive = true ∧ entry.type = "dir".toList ∧ maxGlobDepth ≤ at'.2)
  if fnmatch (relpath q.target child) q.pattern = true then
    if maxGlobMatches ≤ s.matched.length then .error (.full s)
    else .ok ⟨s.matched ++ [⟨child, entry.type, entry.size⟩], s.depthCapped || capped⟩
  else .ok ⟨s.matched, s.depthCapped || capped⟩

/-- `_walk`, as its directory and its depth. -/
def walker (listDir : Text → Except FsError (List StatDict)) : Walker (Text × ℕ) StatDict State Halt where
  list at' := (listDir at'.1).mapError .raised
  look := look fnmatch q
  enter at' entry :=
    if q.recursive = true ∧ entry.type = "dir".toList ∧ at'.2 < maxGlobDepth then
      some (childPath at'.1 entry.name, at'.2 + 1)
    else none
  deep := .recursion

end Walk

inductive GlobError where
  | opNotAllowed (op : Text) (allowed : List Text)
  | badArg (message : Text)
  | jail (e : FsError)
  | recursion

structure Answer where
  path : Text
  pattern : Text
  recursive : Bool
  matchCount : ℕ
  truncated : Bool
  matchList : List Match
deriving DecidableEq

def State.answer (s : State) (q : Query) (truncated : Bool) : Answer where
  path := if q.target = [] then ['.'] else q.target
  pattern := q.pattern
  recursive := q.recursive
  matchCount := s.matched.length
  truncated
  matchList := s.matched

/-- What is returned of a walk: it is truncated if it was ended, or a depth was cut off. -/
def ending (q : Query) : Except Halt State → Except GlobError Answer
  | .ok s => .ok (s.answer q s.depthCapped)
  | .error (.full s) => .ok (s.answer q true)
  | .error (.raised e) => .error (.jail e)
  | .error .recursion => .error .recursion

/-- `fs_glob`.  What `fnmatch` matches is left open. -/
def fsGlob (fnmatch : Text → Text → Bool) (c : FsClient) (root : Option Text) (q : Query) :
    Except GlobError Answer :=
  if "fs_glob".toList ∉ c.allowedFsOps then .error (.opNotAllowed "fs_glob".toList c.allowedFsOps)
  else if q.pattern = [] then .error (.badArg "fs_glob requires a non-empty pattern".toList)
  else
    ending q ((walker fnmatch q (c.listDir root)).walk (maxGlobDepth + 1) (q.target, 0) ⟨[], false⟩)

/-! ### What is asked of an answer -/

variable {p : Platform}

/-- An entry that `fs_glob` is asked for. -/
def Wanted (s : Share p) (fnmatch : Text → Text → Bool) (q : Query) (base : Path) (r : List Text) (e : StatDict) :
    Prop :=
  Shown s base r e ∧ (q.recursive = false → r.length = 1) ∧ fnmatch (join r) q.pattern = true

def toMatch (q : Query) (r : List Text) (e : StatDict) : Match := ⟨spelled q.target r, e.type, e.size⟩

/-- At most so many matches, each wanted, none twice, and all of them unless the answer says
that it is truncated. -/
structure Right (s : Share p) (fnmatch : Text → Text → Bool) (q : Query) (base : Path) (a : Answer) : Prop where
  few : a.matchList.length ≤ maxGlobMatches
  sound : ∀ m ∈ a.matchList, ∃ r e, Wanted s fnmatch q base r e ∧ m = toMatch q r e
  nodup : (a.matchList.map Match.path).Nodup
  complete : a.truncated = false → ∀ r e, Wanted s fnmatch q base r e → toMatch q r e ∈ a.matchList

/-- Every directory can be listed. -/
def Readable (s : Share p) : Prop := ∀ d, s.tree.isDir d = true → s.Lists d

/-! ### The walk by places -/

section Places

variable (s : Share p) (fnmatch : Text → Text → Bool) (q : Query) (base : Path)

def enterPlace (g : Place) (entry : StatDict) : Option Place :=
  if q.recursive = true ∧ entry.type = "dir".toList ∧ g.path.length - base.length < maxGlobDepth then
    some (g.child entry.name)
  else none

/-- The walk of a share, with the path of every directory known. -/
def placed : Walker Place StatDict State Halt :=
  (walker fnmatch q s.listDir).along (fun g => (g.rel, g.path.length - base.length)) (enterPlace q base)

/-- The entries in the order of the walk. -/
def order : List At := course s (placed s fnmatch q base) (maxGlobDepth + 1) ⟨q.target, base⟩

def matching (x : At) : Bool := fnmatch (relpath q.target x.target) q.pattern

def cappedAt (x : At) : Bool :=
  decide (q.recursive = true ∧ x.entry.type = "dir".toList ∧ maxGlobDepth ≤ x.dir.path.length - base.length)

/-- The splitter takes the name of every directory that is entered before the cap of matches
is reached. -/
def NamesTaken : Prop :=
  ∀ before x after, order s fnmatch q base = before ++ x :: after →
    ((before ++ [x]).filter (matching fnmatch q)).length ≤ maxGlobMatches →
    GoodName (placed s fnmatch q base) x

end Places

section Proofs

variable {s : Share p} {fnmatch : Text → Text → Bool} {q : Query} {base : Path} {x : At} {st : State}

theorem goes : Goes s (placed s fnmatch q base) .raised where
  list _ := rfl
  enter g e d h := by
    simp only [placed, Walker.along, enterPlace, Option.ite_none_right_eq_some, Option.some.injEq] at h
    exact ⟨h.2.symm, h.1.2.1⟩

theorem walk_placed (n : ℕ) :
    (placed s fnmatch q base).walk n ⟨q.target, base⟩ st = (walker fnmatch q s.listDir).walk n (q.target, 0) st := by
  have hroot : (q.target, 0) = (fun g : Place => (g.rel, g.path.length - base.length)) ⟨q.target, base⟩ := by simp
  rw [hroot]
  refine Walker.walk_along (I := fun g : Place => base.length ≤ g.path.length) ?_ ?_ n le_rfl st
  · intro g e hg
    have hdepth : (g.path ++ [e.name]).length - base.length = g.path.length - base.length + 1 := by
      rw [List.length_append, List.length_singleton]
      omega
    simp only [walker, enterPlace, apply_ite (Option.map _), Option.map_some, Option.map_none, Place.child, hdepth]
  · intro g e g' hg henter
    simp only [enterPlace, Option.ite_none_right_eq_some, Option.some.injEq] at henter
    rw [← henter.2, Place.child, List.length_append]
    omega

theorem isSome_enter :
    ((placed s fnmatch q base).enter x.dir x.entry).isSome = true ↔
      q.recursive = true ∧ x.entry.type = "dir".toList ∧ x.dir.path.length - base.length < maxGlobDepth := by
  simp only [placed, Walker.along, enterPlace, Option.isSome_ite]

/-! ### What is found on the way -/

theorem relpath_spelled {r : List Text} (hr : r ≠ []) (hnames : ∀ c ∈ r, IsName c) :
    relpath q.target (spelled q.target r) = join r := by
  rw [spelled_eq hr hnames, relpath]
  by_cases hnil : q.target = []
  · simp [hnil]
  · have hfront : (q.target ++ ['/']).isPrefixOf (q.target ++ '/' :: join r) = true := by
      rw [List.isPrefixOf_iff_prefix]
      exact ⟨join r, by simp⟩
    simp [hnil, hfront]

/-- What the walk comes to, by the names under the base. -/
theorem shown_of_order (h : x ∈ order s fnmatch q base) :
    ∃ r, Shown s base r x.entry ∧ x.path = base ++ r ∧ x.target = spelled q.target r ∧
      x.levels + r.length = maxGlobDepth + 1 ∧ (q.recursive = false → r.length = 1) := by
  obtain ⟨r, hshown, hpath, htarget, hlevels⟩ := shown_of_course goes h
  refine ⟨r, hshown, hpath, htarget, hlevels, ?_⟩
  intro hrecursive
  obtain ⟨e, -, rfl | ⟨d, henter, -⟩⟩ := Walker.mem_preorder.mp h
  · have hone : maxGlobDepth + r.length = maxGlobDepth + 1 := hlevels
    omega
  · exfalso
    simp [placed, Walker.along, enterPlace, hrecursive] at henter

theorem wanted_of_matching (h : x ∈ order s fnmatch q base) (hmatch : matching fnmatch q x = true) :
    ∃ r, Wanted s fnmatch q base r x.entry ∧ x.path = base ++ r ∧ x.target = spelled q.target r := by
  obtain ⟨r, hshown, hpath, htarget, -, hrecursive⟩ := shown_of_order h
  obtain ⟨hr, hnames⟩ := path_of_shown hshown
  refine ⟨r, ⟨hshown, hrecursive, ?_⟩, hpath, htarget⟩
  rwa [matching, htarget, relpath_spelled hr hnames] at hmatch

/-- Where no depth is cut off the walk comes to all that is shown. -/
theorem course_of_shown {d : Path} {r : List Text} {e : StatDict} (h : Shown s d r e) :
    ∀ {n : ℕ} {g : Place}, g.path = d → base.length ≤ d.length → n + (d.length - base.length) = maxGlobDepth + 1 →
      0 < n → (q.recursive = false → r.length = 1) →
      (∀ x ∈ course s (placed s fnmatch q base) n g, cappedAt q base x = false) →
      ∃ x ∈ course s (placed s fnmatch q base) n g, x.entry = e ∧ x.target = spelled g.rel r := by
  induction h with
  | @here d e he =>
      rintro n g rfl - - hn - -
      obtain ⟨m, rfl⟩ := Nat.exists_eq_add_one.mpr hn
      exact ⟨⟨m, g, e⟩, Walker.mem_preorder.mpr ⟨e, he, .inl rfl⟩, rfl, rfl⟩
  | @under d e e' r he hdir hrest ih =>
      rintro n g rfl hbase hlevels hn hrecursive hcapped
      obtain ⟨m, rfl⟩ := Nat.exists_eq_add_one.mpr hn
      have hdeep : q.recursive = true := by
        by_contra hnot
        have hone := hrecursive (by simpa using hnot)
        have hne := (path_of_shown hrest).1
        rw [List.length_cons] at hone
        exact hne (List.length_eq_zero_iff.mp (by omega))
      have hself : (⟨m, g, e⟩ : At) ∈ course s (placed s fnmatch q base) (m + 1) g :=
        Walker.mem_preorder.mpr ⟨e, he, .inl rfl⟩
      have hdepth : g.path.length - base.length < maxGlobDepth := by
        have hnot := hcapped _ hself
        rw [cappedAt, decide_eq_false_iff_not] at hnot
        by_contra hge
        exact hnot ⟨hdeep, hdir, not_lt.mp hge⟩
      have henter : (placed s fnmatch q base).enter g e = some (g.child e.name) := if_pos ⟨hdeep, hdir, hdepth⟩
      have hbelow : ∀ y ∈ course s (placed s fnmatch q base) m (g.child e.name),
          y ∈ course s (placed s fnmatch q base) (m + 1) g := by
        intro y hy
        exact Walker.mem_preorder.mpr ⟨e, he, .inr ⟨_, henter, hy⟩⟩
      have hchild : (g.path ++ [e.name]).length = g.path.length + 1 := by simp
      obtain ⟨x, hx, hentry, htarget⟩ := ih (g := g.child e.name) rfl (by omega) (by omega)
        (by omega) (fun hnot => by simp [hdeep] at hnot) fun y hy => hcapped y (hbelow y hy)
      exact ⟨x, hbelow x hx, hentry, htarget⟩

/-! ### The loop -/

def found (x : At) : Match := ⟨x.target, x.entry.type, x.entry.size⟩

/-- Below the cap of matches every match is kept. -/
theorem looks_few :
    ∀ {l : List At} {st : State}, st.matched.length + (l.filter (matching fnmatch q)).length ≤ maxGlobMatches →
      (placed s fnmatch q base).looks l st =
        .ok ⟨st.matched ++ (l.filter (matching fnmatch q)).map found, st.depthCapped || l.any (cappedAt q base)⟩ := by
  intro l
  induction l with
  | nil =>
      intro st _
      simp [Walker.looks, pure, Except.pure]
  | cons x l ih =>
      intro st hroom
      have hlook : (placed s fnmatch q base).look x.dir x.entry st =
          look fnmatch q (x.dir.rel, x.dir.path.length - base.length) x.entry st := rfl
      rw [Walker.looks_cons, hlook, look]
      dsimp only
      by_cases hmatch : matching fnmatch q x = true
      · have hmatch' : fnmatch (relpath q.target (childPath x.dir.rel x.entry.name)) q.pattern = true := hmatch
        rw [List.filter_cons_of_pos hmatch, List.length_cons] at hroom
        rw [if_pos hmatch', if_neg (by omega), Except.bind, ih]
        · simp [hmatch, found, At.target, cappedAt, Bool.or_assoc]
        · rw [List.length_append, List.length_singleton]
          omega
      · have hmatch' : ¬ fnmatch (relpath q.target (childPath x.dir.rel x.entry.name)) q.pattern = true := hmatch
        rw [List.filter_cons_of_neg hmatch] at hroom
        rw [if_neg hmatch', Except.bind, ih]
        · simp [hmatch, cappedAt, Bool.or_assoc]
        · exact hroom

theorem looks_start {l : List At} (hfew : (l.filter (matching fnmatch q)).length ≤ maxGlobMatches) :
    (placed s fnmatch q base).looks l ⟨[], false⟩ =
      .ok ⟨(l.filter (matching fnmatch q)).map found, l.any (cappedAt q base)⟩ := by
  rw [looks_few (by simpa using hfew), List.nil_append, Bool.false_or]

/-- The match at which the cap is passed. -/
theorem exists_last_match {α : Type*} {P : α → Bool} {l : List α} {k : ℕ} (h : k < (l.filter P).length) :
    ∃ before x after, l = before ++ x :: after ∧ (before.filter P).length = k ∧ P x = true := by
  induction l generalizing k with
  | nil => simp at h
  | cons a l ih =>
      by_cases ha : P a = true
      · rw [List.filter_cons_of_pos ha, List.length_cons] at h
        cases k with
        | zero => exact ⟨[], a, l, rfl, rfl, ha⟩
        | succ k =>
            obtain ⟨before, x, after, rfl, hcount, hx⟩ := ih (Nat.lt_of_succ_lt_succ h)
            exact ⟨a :: before, x, after, rfl, by rw [List.filter_cons_of_pos ha, List.length_cons, hcount], hx⟩
      · rw [List.filter_cons_of_neg ha] at h
        obtain ⟨before, x, after, rfl, hcount, hx⟩ := ih h
        exact ⟨a :: before, x, after, rfl, by rw [List.filter_cons_of_neg ha, hcount], hx⟩

theorem levels_of_enter (hx : x ∈ order s fnmatch q base)
    (henter : ((placed s fnmatch q base).enter x.dir x.entry).isSome = true) : 0 < x.levels := by
  obtain ⟨r, -, hpath, -, hlevels, -⟩ := shown_of_order hx
  obtain ⟨-, -, hdepth⟩ := isSome_enter.mp henter
  have hlength := congrArg List.length hpath
  rw [At.path, List.length_append, List.length_append, List.length_singleton] at hlength
  omega

/-- Behind names that are taken every directory is listed as it is. -/
theorem opens_each (hreadable : Readable s) (htarget : splitComponents q.target = some base) :
    Runs.Each (fun before x => (∀ y ∈ before, GoodName (placed s fnmatch q base) y) →
        GoodName (placed s fnmatch q base) x → (placed s fnmatch q base).Opens (fun g => s.entries g.path) x)
      (order s fnmatch q base) := by
  intro before x after heq hbefore hself
  have hx : x ∈ order s fnmatch q base := by
    rw [heq]
    simp
  have hbase : Place.Leads ⟨q.target, base⟩ := htarget
  have hleads := leads_each goes hbase before x after heq hbefore
  refine opens_of_leads goes (mem_entries_of_course hx) hleads hself (levels_of_enter hx) ?_
  intro henter
  exact hreadable _ (isDir_of_entry (mem_entries_of_course hx) (isSome_enter.mp henter).2.1)

/-- How `fs_glob` ends when its walk goes as the loop over the order goes. -/
theorem fsGlob_of_course {allowed : List Text} {cap : ℕ} {root : Option Text} {r : Except Halt State}
    (hop : "fs_glob".toList ∈ allowed) (hpattern : q.pattern ≠ []) (hreadable : Readable s)
    (htarget : splitComponents q.target = some base) (hdir : s.tree.isDir base = true)
    (h : (placed s fnmatch q base).Course (fun g => s.entries g.path) (order s fnmatch q base) ⟨[], false⟩ r) :
    fsGlob fnmatch ⟨allowed, cap, fun _ => s.listDir⟩ root q = ending q r := by
  have hlist : (placed s fnmatch q base).list ⟨q.target, base⟩ = .ok (s.entries base) := by
    rw [goes.list, listDir_of_lists htarget (hreadable base hdir)]
    rfl
  have hwalk : (placed s fnmatch q base).walk (maxGlobDepth + 1) ⟨q.target, base⟩ ⟨[], false⟩ = r :=
    Walker.walk_of_course hlist h
  rw [walk_placed] at hwalk
  rw [fsGlob, if_neg (not_not.mpr hop), if_neg hpattern, hwalk]

/-- The matches of a part of the order are wanted, and stand at different paths. -/
theorem matches_of_part {l after : List At} (horder : order s fnmatch q base = l ++ after) :
    (∀ m ∈ (l.filter (matching fnmatch q)).map found, ∃ r e, Wanted s fnmatch q base r e ∧ m = toMatch q r e) ∧
      (((l.filter (matching fnmatch q)).map found).map Match.path).Nodup := by
  have hwanted : ∀ x ∈ l.filter (matching fnmatch q), ∃ r, Wanted s fnmatch q base r x.entry ∧
      x.path = base ++ r ∧ x.target = spelled q.target r := by
    intro x hx
    obtain ⟨hl, hmatch⟩ := List.mem_filter.mp hx
    exact wanted_of_matching (horder ▸ List.mem_append_left _ hl) hmatch
  constructor
  · intro m hm
    obtain ⟨x, hx, rfl⟩ := List.mem_map.mp hm
    obtain ⟨r, hr, -, htarget⟩ := hwanted x hx
    exact ⟨r, x.entry, hr, by rw [found, toMatch, htarget]⟩
  · rw [List.map_map]
    have hpaths : ((order s fnmatch q base).map At.path).Nodup := nodup_course goes
    rw [horder, List.map_append] at hpaths
    have hpart : ((l.filter (matching fnmatch q)).map At.path).Nodup :=
      (List.nodup_append.mp hpaths).1.sublist (List.filter_sublist.map At.path)
    refine List.Nodup.map_on ?_ hpart.of_map
    intro x hx y hy heq
    refine List.inj_on_of_nodup_map hpart hx hy ?_
    obtain ⟨r, hr, hpath, htarget⟩ := hwanted x hx
    obtain ⟨r', hr', hpath', htarget'⟩ := hwanted y hy
    obtain ⟨hne, hnames⟩ := path_of_shown hr.1
    obtain ⟨hne', hnames'⟩ := path_of_shown hr'.1
    have hspelled : spelled q.target r = spelled q.target r' := by
      rw [← htarget, ← htarget']
      exact heq
    rw [hpath, hpath', spelled_injective hne hne' hnames hnames' hspelled]

/-- Up to the cap of matches every directory opens. -/
theorem opens_of_few {l after : List At} (hreadable : Readable s) (htarget : splitComponents q.target = some base)
    (htaken : NamesTaken s fnmatch q base) (horder : order s fnmatch q base = l ++ after)
    (hfew : (l.filter (matching fnmatch q)).length ≤ maxGlobMatches) :
    ∀ x ∈ l, (placed s fnmatch q base).Opens (fun g => s.entries g.path) x := by
  have hgood : ∀ x ∈ l, GoodName (placed s fnmatch q base) x := by
    intro x hx
    obtain ⟨b, c, rfl⟩ := List.append_of_mem hx
    refine htaken b x (c ++ after) (by rw [horder]; simp) (le_trans ?_ hfew)
    have hsub : (b ++ [x]).Sublist (b ++ x :: c) := by simp
    exact (hsub.filter _).length_le
  intro x hx
  obtain ⟨b, c, rfl⟩ := List.append_of_mem hx
  refine opens_each hreadable htarget b x (c ++ after) (by rw [horder]; simp) ?_ (hgood x hx)
  exact fun y hy => hgood y (List.mem_append_left _ hy)

/-- With all names taken the answer is right. -/
theorem right_of_taken {allowed : List Text} {cap : ℕ} {root : Option Text} (hop : "fs_glob".toList ∈ allowed)
    (hpattern : q.pattern ≠ []) (hreadable : Readable s) (htarget : splitComponents q.target = some base)
    (hdir : s.tree.isDir base = true) (htaken : NamesTaken s fnmatch q base) :
    ∃ a, fsGlob fnmatch ⟨allowed, cap, fun _ => s.listDir⟩ root q = .ok a ∧ Right s fnmatch q base a := by
  by_cases hfew : ((order s fnmatch q base).filter (matching fnmatch q)).length ≤ maxGlobMatches
  · -- the walk goes to its end
    have hwhole : order s fnmatch q base = order s fnmatch q base ++ [] := (List.append_nil _).symm
    have hopens := opens_of_few hreadable htarget htaken hwhole hfew
    refine ⟨_, fsGlob_of_course hop hpattern hreadable htarget hdir (.ends hopens (looks_start hfew)), ?_⟩
    obtain ⟨hsound, hnodup⟩ := matches_of_part hwhole
    refine ⟨by simpa [State.answer] using hfew, hsound, hnodup, ?_⟩
    intro hall r e hwanted
    obtain ⟨hshown, hrecursive, hmatch⟩ := hwanted
    have hcapped : ∀ x ∈ order s fnmatch q base, cappedAt q base x = false := by
      intro x hx
      have hnone := List.any_eq_false.mp hall x hx
      simpa using hnone
    obtain ⟨x, hx, rfl, hspelled⟩ := course_of_shown (g := ⟨q.target, base⟩) hshown rfl le_rfl
      (by simp [maxGlobDepth]) (Nat.succ_pos _) hrecursive hcapped
    obtain ⟨hne, hnames⟩ := path_of_shown hshown
    refine List.mem_map.mpr ⟨x, List.mem_filter.mpr ⟨hx, ?_⟩, ?_⟩
    · rw [matching, hspelled, relpath_spelled hne hnames]
      exact hmatch
    · rw [found, toMatch, hspelled]
  · -- the cap of matches is passed
    obtain ⟨before, x, after, horder, hcount, hmatch⟩ := exists_last_match (not_le.mp hfew)
    have hopens := opens_of_few hreadable htarget htaken horder hcount.le
    have hfull : (placed s fnmatch q base).look x.dir x.entry
        ⟨(before.filter (matching fnmatch q)).map found, before.any (cappedAt q base)⟩ =
          .error (.full ⟨(before.filter (matching fnmatch q)).map found, before.any (cappedAt q base)⟩) := by
      have hlook : fnmatch (relpath q.target (childPath x.dir.rel x.entry.name)) q.pattern = true := hmatch
      show look fnmatch q _ _ _ = _
      rw [look]
      dsimp only
      rw [if_pos hlook, if_pos (by rw [List.length_map, hcount])]
    refine ⟨_, fsGlob_of_course hop hpattern hreadable htarget hdir
      (.stops horder hopens (looks_start hcount.le) (.look hfull)), ?_⟩
    obtain ⟨hsound, hnodup⟩ := matches_of_part horder
    refine ⟨by simp [State.answer, hcount], hsound, hnodup, ?_⟩
    intro hall
    cases hall

/-- A name that is refused before the cap of matches makes the search raise. -/
theorem raises_of_refused {allowed : List Text} {cap : ℕ} {root : Option Text} (hop : "fs_glob".toList ∈ allowed)
    (hpattern : q.pattern ≠ []) (hreadable : Readable s) (htarget : splitComponents q.target = some base)
    (hdir : s.tree.isDir base = true) (htaken : ¬ NamesTaken s fnmatch q base) :
    (∃ e, fsGlob fnmatch ⟨allowed, cap, fun _ => s.listDir⟩ root q = .error (.jail e)) ∨
      ∃ r e, Shown s base r e ∧ e.type = "dir".toList ∧ '\\' ∈ e.name := by
  unfold NamesTaken at htaken
  push Not at htaken
  obtain ⟨before, x, after, horder, hfew, hbad⟩ := htaken
  have hnotall : ¬ ∀ y ∈ before ++ [x], GoodName (placed s fnmatch q base) y := fun hall => hbad (hall x (by simp))
  obtain ⟨b, y, c, heq, hgood, hrefused⟩ := exists_first hnotall
  have hsplit : order s fnmatch q base = b ++ y :: (c ++ after) := by
    have happ : before ++ x :: after = (before ++ [x]) ++ after := by simp
    rw [horder, happ, heq]
    simp
  have hy : y ∈ order s fnmatch q base := by
    rw [hsplit]
    simp
  obtain ⟨hsome, hnot⟩ := Classical.not_imp.mp hrefused
  by_cases hback : '\\' ∈ y.entry.name
  · obtain ⟨r, hshown, -⟩ := shown_of_order hy
    exact .inr ⟨r, y.entry, hshown, (isSome_enter.mp hsome).2.1, hback⟩
  · left
    have hfew' : ((b ++ [y]).filter (matching fnmatch q)).length ≤ maxGlobMatches := by
      refine le_trans ?_ hfew
      rw [heq]
      have hsub : (b ++ [y]).Sublist (b ++ y :: c) := by simp
      exact (hsub.filter _).length_le
    have hbefore : (b.filter (matching fnmatch q)).length ≤ maxGlobMatches :=
      le_trans ((List.sublist_append_left b [y]).filter _).length_le hfew'
    have hboth : (placed s fnmatch q base).looks (b ++ [y]) ⟨[], false⟩ = .ok _ := looks_start hfew'
    rw [Walker.looks_append, looks_start hbefore, Except.bind, Walker.looks_cons] at hboth
    generalize hst : State.mk _ _ = st at hboth
    cases hlook : (placed s fnmatch q base).look y.dir y.entry st with
    | error x =>
        rw [hlook] at hboth
        cases hboth
    | ok st' =>
        obtain ⟨d, henter⟩ := Option.isSome_iff_exists.mp hsome
        have hbase : Place.Leads ⟨q.target, base⟩ := htarget
        have hleads := leads_each goes hbase b y (c ++ after) hsplit hgood
        obtain ⟨e, hfails⟩ := fails_of_refused goes (mem_entries_of_course hy) hleads hback hlook henter
          (levels_of_enter hy hsome) (fun h => hnot h.1)
        have hopens : ∀ z ∈ b, (placed s fnmatch q base).Opens (fun g => s.entries g.path) z := by
          intro z hz
          obtain ⟨b₁, b₂, rfl⟩ := List.append_of_mem hz
          refine opens_each hreadable htarget b₁ z (b₂ ++ y :: (c ++ after)) (by rw [hsplit]; simp) ?_ (hgood z hz)
          exact fun v hv => hgood v (List.mem_append_left _ hv)
        rw [← hst] at hfails
        have hend : fsGlob fnmatch ⟨allowed, cap, fun _ => s.listDir⟩ root q = ending q (.error (.raised e)) :=
          fsGlob_of_course hop hpattern hreadable htarget hdir (.stops hsplit hopens (looks_start hbefore) hfails)
        exact ⟨e, hend⟩

/-- **The answer is right as long as no name is refused** before the cap of matches, and only
then, unless the walk is led astray by a directory with a backslash in its name. -/
theorem glob_right_iff {allowed : List Text} {cap : ℕ} {root : Option Text} (hop : "fs_glob".toList ∈ allowed)
    (hpattern : q.pattern ≠ []) (hreadable : Readable s) (htarget : splitComponents q.target = some base)
    (hdir : s.tree.isDir base = true) :
    (NamesTaken s fnmatch q base →
      ∃ a, fsGlob fnmatch ⟨allowed, cap, fun _ => s.listDir⟩ root q = .ok a ∧ Right s fnmatch q base a) ∧
    ((∃ a, fsGlob fnmatch ⟨allowed, cap, fun _ => s.listDir⟩ root q = .ok a ∧ Right s fnmatch q base a) →
      NamesTaken s fnmatch q base ∨ ∃ r e, Shown s base r e ∧ e.type = "dir".toList ∧ '\\' ∈ e.name) := by
  refine ⟨right_of_taken hop hpattern hreadable htarget hdir, ?_⟩
  rintro ⟨a, ha, -⟩
  by_cases htaken : NamesTaken s fnmatch q base
  · exact .inl htaken
  · have hraises : (∃ e, fsGlob fnmatch ⟨allowed, cap, fun _ => s.listDir⟩ root q = .error (.jail e)) ∨ _ :=
      raises_of_refused hop hpattern hreadable htarget hdir htaken
    rcases hraises with ⟨e, he⟩ | hback
    · rw [he] at ha
      cases ha
    · exact .inr hback

end Proofs

/-! ### A directory with a colon in its name -/

def client (t : Tree) : FsClient := ⟨["fs_glob".toList], 0, fun _ => (faultless linux t).listDir⟩

/-- `*` matches everything. -/
def star : Query := ⟨[], "*".toList, true⟩

def starMatch (_ pattern : Text) : Bool := decide (pattern = ['*'])

theorem readable_faultless (t : Tree) : Readable (faultless linux t) :=
  fun _ hdir => lists_of_faultless (fun _ _ => rfl) hdir

/-- Names are taken if all are that the walk comes to. -/
theorem namesTaken_of_all {s : Share p} {fnmatch : Text → Text → Bool} {q : Query} {base : Path}
    (h : ∀ x ∈ order s fnmatch q base, Taken x.entry.name) : NamesTaken s fnmatch q base := by
  intro before x after horder _ _
  refine h x ?_
  rw [horder]
  simp

/-- Everything is found where the directory is `docs`. -/
theorem glob_right_docs :
    ∃ a, fsGlob starMatch (client docs) none star = .ok a ∧ Right (faultless linux docs) starMatch star [] a := by
  refine (glob_right_iff (s := faultless linux docs) (List.mem_singleton_self _) (by decide) (readable_faultless docs)
    (by decide) (by decide +kernel)).1 (namesTaken_of_all ?_)
  decide +kernel

/-- **Nothing is found where it is `b:c`**, not even the note beside it. -/
theorem colon_stops_glob :
    Readable (faultless linux agenda) ∧ (∃ e, fsGlob starMatch (client agenda) none star = .error (.jail e)) ∧
      Wanted (faultless linux agenda) starMatch star [] ["b.md".toList]
        (statToDict linux "b.md".toList (fileOf []).stat) ∧
      ¬ ∃ a, fsGlob starMatch (client agenda) none star = .ok a ∧
        Right (faultless linux agenda) starMatch star [] a := by
  have hraises : ∃ e, fsGlob starMatch (client agenda) none star = .error (.jail e) := ⟨_, by rfl⟩
  refine ⟨readable_faultless agenda, hraises, ?_, ?_⟩
  · have hnote : statToDict linux "b.md".toList (fileOf []).stat ∈ (faultless linux agenda).entries [] :=
      mem_entries.mpr (entry_of_node rfl rfl rfl)
    exact ⟨Shown.here hnote, fun _ => rfl, by decide +kernel⟩
  · rintro ⟨a, ha, -⟩
    obtain ⟨e, he⟩ := hraises
    rw [he] at ha
    cases ha

end CyClaw.Fsconnect.Glob

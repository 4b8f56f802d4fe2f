/-
Walking a share by targets.

A walk names the directories it lists by targets, each its parent's with a name behind it.  A
`Place` is such a target together with the path it is meant for.  As long as the splitter
takes every name on the way the target leads to the path (`leads_each`), so what the walk
lists there is what stands in that directory (`opens_of_leads`).  A name that is refused ends
the walk (`fails_of_refused`).

`Shown` is what there is to be found under a directory, whatever a walk makes of it.
-/
import CyClaw.Fsconnect.Share
import CyClaw.Lib.DepthFirst
import CyClaw.Lib.Runs

namespace CyClaw.Fsconnect

open Posix PathTree DepthFirst
open Repo (Text splitComponents)

variable {p : Platform} {s : Share p}

/-! ### The entries of a directory -/

section Entries

variable {d : Path} {name : Text} {e : StatDict}

theorem entry_eq_some (h : s.entry d name = some e) :
    ∃ n, s.tree.node (d ++ [name]) = some n ∧ e = statToDict p name n.stat ∧ hidden p true name n = false ∧
      s.fault .stating (d ++ [name]) = none := by
  unfold Share.entry at h
  split at h
  · cases h
  · rename_i n hn
    rw [Option.ite_none_left_eq_some, Option.some.injEq, Bool.or_eq_true, not_or, Bool.not_eq_true, Bool.not_eq_true,
      Option.isSome_eq_false_iff, Option.isNone_iff_eq_none] at h
    exact ⟨n, hn, h.2.symm, h.1.2, h.1.1⟩

theorem entry_of_node {n : Node} (hn : s.tree.node (d ++ [name]) = some n) (hshown : hidden p true name n = false)
    (htold : s.fault .stating (d ++ [name]) = none) : s.entry d name = some (statToDict p name n.stat) := by
  unfold Share.entry
  rw [hn, htold]
  simp [hshown]

theorem mem_entries : e ∈ s.entries d ↔ s.entry d e.name = some e := by
  unfold Share.entries
  rw [List.mem_filterMap]
  constructor
  · rintro ⟨name, -, hname⟩
    obtain ⟨n, -, he, -⟩ := entry_eq_some hname
    have : e.name = name := congrArg StatDict.name he
    rw [this]
    exact hname
  · intro h
    obtain ⟨n, hn, -⟩ := entry_eq_some h
    exact ⟨e.name, (List.mem_insertionSort _).mpr (Tree.mem_listing.mpr ⟨n, hn⟩), h⟩

theorem isName_of_entry (h : e ∈ s.entries d) : IsName e.name := by
  obtain ⟨n, hn, -⟩ := entry_eq_some (mem_entries.mp h)
  exact Tree.isName_of_node hn e.name (by simp)

theorem nodup_listing (t : Tree) (d : Path) : (t.listing d).Nodup := by
  have hlisting : t.listing d =
      (t.table.rows.map Prod.fst).filterMap fun q => if q.dropLast = d then q.getLast? else none := by
    rw [List.filterMap_map]
    rfl
  rw [hlisting]
  refine List.Nodup.filterMap ?_ t.table.unique
  intro q q' name hq hq'
  rw [Option.mem_def, Option.ite_none_right_eq_some] at hq hq'
  rw [← List.dropLast_append_getLast? _ hq.2, ← List.dropLast_append_getLast? _ hq'.2, hq.1, hq'.1]

theorem nodup_entries (s : Share p) (d : Path) : ((s.entries d).map StatDict.name).Nodup := by
  have hsorted : ((s.tree.listing d).insertionSort (· ≤ ·)).Nodup :=
    (List.perm_insertionSort _ _).nodup_iff.mpr (nodup_listing s.tree d)
  have hsub : (s.entries d).map StatDict.name = ((s.tree.listing d).insertionSort (· ≤ ·)).filter
      fun name => (s.entry d name).isSome := by
    unfold Share.entries
    generalize (s.tree.listing d).insertionSort (· ≤ ·) = names
    induction names with
    | nil => rfl
    | cons name names ih =>
        cases h : s.entry d name with
        | none => simpa [h] using ih
        | some e =>
            obtain ⟨n, -, rfl, -⟩ := entry_eq_some h
            simpa [h, statToDict] using ih
  rw [hsub]
  exact hsorted.filter _

end Entries

/-! ### Places -/

/-- A target, and the path it is meant for. -/
structure Place where
  rel : Text
  path : Path

def Place.child (g : Place) (name : Text) : Place := ⟨childPath g.rel name, g.path ++ [name]⟩

/-- The target leads to the path. -/
def Place.Leads (g : Place) : Prop := splitComponents g.rel = some g.path

/-- Entries where they stand. -/
abbrev At := Stop Place StatDict

def At.path (x : At) : Path := x.dir.path ++ [x.entry.name]

/-- A walk of a share that goes by targets. -/
structure Goes (s : Share p) {S X : Type} (w : Walker Place StatDict S X) (raise : FsError → X) : Prop where
  list : ∀ g, w.list g = (s.listDir g.rel).mapError raise
  enter : ∀ g e d, w.enter g e = some d → d = g.child e.name ∧ e.type = "dir".toList

/-- The name of what is entered is taken by the splitter. -/
def GoodName {S X : Type} (w : Walker Place StatDict S X) (x : At) : Prop :=
  (w.enter x.dir x.entry).isSome = true → Taken x.entry.name

section Goes

variable {S X : Type} {w : Walker Place StatDict S X} {raise : FsError → X} {g : Place} {n : ℕ} {x : At}

/-- What a walk comes to in a share. -/
abbrev course (s : Share p) (w : Walker Place StatDict S X) : ℕ → Place → List At :=
  w.preorder fun g => s.entries g.path

theorem mem_entries_of_course (h : x ∈ course s w n g) : x.entry ∈ s.entries x.dir.path := by
  induction n generalizing g with
  | zero => cases h
  | succ n ih =>
      obtain ⟨e, he, rfl | ⟨d, -, hx⟩⟩ := Walker.mem_preorder.mp h
      · exact he
      · exact ih hx

/-- Behind names that are taken a target leads to its path. -/
theorem leads_each (hgoes : Goes s w raise) (hg : g.Leads) :
    Runs.Each (fun before x => (∀ y ∈ before, GoodName w y) → x.dir.Leads) (course s w n g) := by
  induction n generalizing g with
  | zero => exact .nil
  | succ n ih =>
      have hloop : ∀ es : List StatDict, (∀ e ∈ es, e ∈ s.entries g.path) →
          Runs.Each (fun before x => (∀ y ∈ before, GoodName w y) → x.dir.Leads)
            (es.flatMap fun e => (⟨n, g, e⟩ : At) :: ((w.enter g e).map (course s w n)).getD []) := by
        intro es
        induction es with
        | nil => exact fun _ => .nil
        | cons e es ihes =>
            intro hes
            rw [List.flatMap_cons]
            have hrest := ihes fun e' he' => hes e' (List.mem_cons_of_mem e he')
            refine Runs.Each.append (.cons (fun _ => hg) ?_) (hrest.mono ?_)
            · cases henter : w.enter g e with
              | none => exact .nil
              | some d =>
                  obtain ⟨rfl, -⟩ := hgoes.enter g e d henter
                  by_cases htaken : Taken e.name
                  · have hlead : (g.child e.name).Leads :=
                      splitComponents_child hg (isName_of_entry (hes e List.mem_cons_self)) htaken
                    refine (ih hlead).mono ?_
                    intro before x hx hgood
                    exact hx fun y hy => hgood y (List.mem_cons_of_mem _ hy)
                  · intro before x after _ hgood
                    have hself := hgood ⟨n, g, e⟩ List.mem_cons_self
                    exact absurd (hself (by rw [henter]; rfl)) htaken
            · intro before x hx hgood
              exact hx fun y hy => hgood y (List.mem_append_right _ hy)
      exact hloop _ fun e he => he

/-- A directory that the target leads to is listed as it is. -/
theorem opens_of_leads (hgoes : Goes s w raise) (hx : x.entry ∈ s.entries x.dir.path) (hleads : x.dir.Leads)
    (hgood : GoodName w x) (hlevels : (w.enter x.dir x.entry).isSome = true → 0 < x.levels)
    (hlists : (w.enter x.dir x.entry).isSome = true → s.Lists x.path) :
    w.Opens (fun g => s.entries g.path) x := by
  intro d henter
  have hsome : (w.enter x.dir x.entry).isSome = true := by rw [henter]; rfl
  obtain ⟨rfl, -⟩ := hgoes.enter _ _ _ henter
  refine ⟨hlevels hsome, ?_⟩
  have hchild : splitComponents (x.dir.child x.entry.name).rel = some x.path :=
    splitComponents_child hleads (isName_of_entry hx) (hgood hsome)
  rw [hgoes.list, listDir_of_lists hchild (hlists hsome)]
  rfl

/-- A directory that is refused, or cannot be listed, ends the walk. -/
theorem fails_of_refused {st st' : S} {d : Place} (hgoes : Goes s w raise) (hx : x.entry ∈ s.entries x.dir.path)
    (hleads : x.dir.Leads) (hback : '\\' ∉ x.entry.name) (hlook : w.look x.dir x.entry st = .ok st')
    (henter : w.enter x.dir x.entry = some d) (hlevels : 0 < x.levels)
    (hnot : ¬ (Taken x.entry.name ∧ s.Lists x.path)) : ∃ e, w.Fails x st (raise e) := by
  have hlist : ∃ e, s.listDir d.rel = .error e := by
    obtain ⟨rfl, -⟩ := hgoes.enter _ _ _ henter
    refine listDir_of_not_lists ?_
    intro q hq hlists
    have hname := isName_of_entry hx
    by_cases htaken : Taken x.entry.name
    · have hchild : splitComponents (x.dir.child x.entry.name).rel = some x.path :=
        splitComponents_child hleads hname htaken
      rw [hchild, Option.some.injEq] at hq
      rw [← hq] at hlists
      exact hnot ⟨htaken, hlists⟩
    · have hrefused : splitComponents (x.dir.child x.entry.name).rel = none :=
        splitComponents_refused hname hback htaken
      rw [hrefused] at hq
      cases hq
  obtain ⟨e, he⟩ := hlist
  refine ⟨e, .list hlook henter hlevels ?_⟩
  rw [hgoes.list, he]
  rfl

end Goes

/-- The first of a list where something does not hold. -/
theorem exists_first {α : Type*} {P : α → Prop} {l : List α} (h : ¬ ∀ x ∈ l, P x) :
    ∃ before x after, l = before ++ x :: after ∧ (∀ y ∈ before, P y) ∧ ¬ P x := by
  induction l with
  | nil => exact absurd (fun x hx => absurd hx List.not_mem_nil) h
  | cons a l ih =>
      by_cases ha : P a
      · obtain ⟨before, x, after, rfl, hbefore, hx⟩ := ih fun hall => h fun x hx =>
          (List.mem_cons.mp hx).elim (fun heq => heq ▸ ha) (hall x)
        refine ⟨a :: before, x, after, rfl, ?_, hx⟩
        intro y hy
        rcases List.mem_cons.mp hy with rfl | hy
        · exact ha
        · exact hbefore y hy
      · exact ⟨[], a, l, rfl, fun y hy => absurd hy List.not_mem_nil, ha⟩

/-! ### What there is to be found -/

/-- What is shown under a directory, by the names that lead to it. -/
inductive Shown (s : Share p) : Path → List Text → StatDict → Prop where
  | here {d : Path} {e : StatDict} (he : e ∈ s.entries d) : Shown s d [e.name] e
  | under {d : Path} {e e' : StatDict} {r : List Text} (he : e ∈ s.entries d) (hdir : e.type = "dir".toList)
      (h : Shown s (d ++ [e.name]) r e') : Shown s d (e.name :: r) e'

theorem kind_of_dir {name : Text} {st : Stat} (h : (statToDict p name st).type = "dir".toList) : st.kind = .dir := by
  unfold statToDict at h
  cases hkind : st.kind with
  | dir => rfl
  | regular => simp [hkind] at h
  | symlink => simp [hkind] at h
  | other => simp [hkind] at h

theorem isDir_of_entry {d : Path} {e : StatDict} (he : e ∈ s.entries d) (hdir : e.type = "dir".toList) :
    s.tree.isDir (d ++ [e.name]) = true := by
  obtain ⟨n, hn, heq, -⟩ := entry_eq_some (mem_entries.mp he)
  rw [heq] at hdir
  exact Tree.isDir_iff.mpr ⟨n, hn, kind_of_dir hdir⟩

/-- The target of what stands under a target by these names. -/
def spelled (rel : Text) (r : List Text) : Text := r.foldl childPath rel

def At.target (x : At) : Text := childPath x.dir.rel x.entry.name

theorem spelled_eq {rel : Text} {r : List Text} (hr : r ≠ []) (hnames : ∀ c ∈ r, IsName c) :
    spelled rel r = if rel = [] then Repo.join r else rel ++ '/' :: Repo.join r := by
  induction r generalizing rel with
  | nil => exact absurd rfl hr
  | cons c r ih =>
      cases r with
      | nil =>
          rw [Repo.join, List.intercalate_singleton]
          rfl
      | cons c' r =>
          have hc : c ≠ [] := (hnames c List.mem_cons_self).1
          have hchild : childPath rel c ≠ [] := by
            unfold childPath
            split
            · exact hc
            · simp
          have hstep : spelled rel (c :: c' :: r) = spelled (childPath rel c) (c' :: r) := rfl
          have hjoin : Repo.join (c :: c' :: r) = c ++ '/' :: Repo.join (c' :: r) := by
            rw [Repo.join, List.intercalate_cons_cons, List.append_assoc]
            rfl
          rw [hstep, ih (by simp) fun x hx => hnames x (List.mem_cons_of_mem _ hx), if_neg hchild, hjoin, childPath]
          split <;> simp

theorem join_injective {r r' : List Text} (hr : r ≠ []) (hr' : r' ≠ []) (hnames : ∀ c ∈ r, IsName c)
    (hnames' : ∀ c ∈ r', IsName c) (h : Repo.join r = Repo.join r') : r = r' := by
  rw [← List.splitOn_intercalate '/' (fun c hc => (hnames c hc).2.2.2) hr,
    ← List.splitOn_intercalate '/' (fun c hc => (hnames' c hc).2.2.2) hr']
  exact congrArg (List.splitOn '/') h

theorem spelled_injective {rel : Text} {r r' : List Text} (hr : r ≠ []) (hr' : r' ≠ []) (hnames : ∀ c ∈ r, IsName c)
    (hnames' : ∀ c ∈ r', IsName c) (h : spelled rel r = spelled rel r') : r = r' := by
  rw [spelled_eq hr hnames, spelled_eq hr' hnames'] at h
  refine join_injective hr hr' hnames hnames' ?_
  split at h
  · exact h
  · exact (List.cons.inj (List.append_cancel_left h)).2

section Found

variable {S X : Type} {w : Walker Place StatDict S X} {raise : FsError → X} {g : Place} {n : ℕ} {x : At}

/-- What a walk comes to is shown under where it starts. -/
theorem shown_of_course (hgoes : Goes s w raise) (h : x ∈ course s w n g) :
    ∃ r, Shown s g.path r x.entry ∧ x.path = g.path ++ r ∧ x.target = spelled g.rel r ∧ x.levels + r.length = n := by
  induction n generalizing g with
  | zero => cases h
  | succ n ih =>
      obtain ⟨e, he, rfl | ⟨d, henter, hx⟩⟩ := Walker.mem_preorder.mp h
      · exact ⟨[e.name], .here he, rfl, rfl, rfl⟩
      · obtain ⟨rfl, hdir⟩ := hgoes.enter g e d henter
        obtain ⟨r, hshown, hpath, htarget, hlevels⟩ := ih hx
        refine ⟨e.name :: r, .under he hdir hshown, ?_, ?_, ?_⟩
        · rw [hpath, Place.child, List.append_assoc, List.singleton_append]
        · exact htarget
        · rw [List.length_cons]
          omega

theorem path_of_shown {d : Path} {r : List Text} {e : StatDict} (h : Shown s d r e) :
    r ≠ [] ∧ ∀ c ∈ r, IsName c := by
  induction h with
  | here he =>
      refine ⟨by simp, ?_⟩
      intro c hc
      rw [List.mem_singleton.mp hc]
      exact isName_of_entry he
  | under he _ _ ih =>
      refine ⟨by simp, ?_⟩
      intro c hc
      rcases List.mem_cons.mp hc with rfl | hc
      · exact isName_of_entry he
      · exact ih.2 c hc

/-- What is above something shown is shown as a directory. -/
theorem shown_above {d : Path} {r r' : List Text} {e : StatDict} (h : Shown s d r e) (hr : r' <+: r) (hnil : r' ≠ [])
    (hne : r' ≠ r) : ∃ e', Shown s d r' e' ∧ e'.type = "dir".toList := by
  induction h generalizing r' with
  | here _ =>
      rcases List.prefix_cons_iff.mp hr with rfl | ⟨rest, rfl, hrest⟩
      · exact absurd rfl hnil
      · rw [List.prefix_nil.mp hrest] at hne
        exact absurd rfl hne
  | @under d e e' r he hdir _ ih =>
      rcases List.prefix_cons_iff.mp hr with rfl | ⟨rest, rfl, hrest⟩
      · exact absurd rfl hnil
      · by_cases hnone : rest = []
        · rw [hnone]
          exact ⟨e, .here he, hdir⟩
        · obtain ⟨e'', hshown, hdir'⟩ := ih hrest hnone fun heq => hne (heq ▸ rfl)
          exact ⟨e'', .under he hdir hshown, hdir'⟩

/-- No two entries of a walk stand at one path. -/
theorem nodup_course (hgoes : Goes s w raise) : ((course s w n g).map At.path).Nodup := by
  induction n generalizing g with
  | zero => exact List.nodup_nil
  | succ n ih =>
      have hbelow : ∀ e ∈ s.entries g.path, ∀ y ∈ ((w.enter g e).map (course s w n)).getD [],
          ∃ r, r ≠ [] ∧ y.path = g.path ++ [e.name] ++ r := by
        intro e _ y hy
        cases henter : w.enter g e with
        | none =>
            rw [henter] at hy
            cases hy
        | some d =>
            rw [henter] at hy
            obtain ⟨rfl, -⟩ := hgoes.enter g e d henter
            obtain ⟨r, hshown, hpath, -⟩ := shown_of_course hgoes hy
            exact ⟨r, (path_of_shown hshown).1, hpath⟩
      have hloop : ∀ es : List StatDict, (∀ e ∈ es, e ∈ s.entries g.path) → (es.map StatDict.name).Nodup →
          ((es.flatMap fun e => (⟨n, g, e⟩ : At) :: ((w.enter g e).map (course s w n)).getD []).map At.path).Nodup := by
        intro es
        induction es with
        | nil => exact fun _ _ => List.nodup_nil
        | cons e es ihes =>
            intro hes hnames
            obtain ⟨hfresh, hrest⟩ := List.nodup_cons.mp hnames
            rw [List.flatMap_cons, List.map_append, List.nodup_append, List.map_cons, List.nodup_cons]
            refine ⟨⟨?_, ?_⟩, ihes (fun e' he' => hes e' (List.mem_cons_of_mem e he')) hrest, ?_⟩
            · intro hmem
              obtain ⟨y, hy, heq⟩ := List.mem_map.mp hmem
              obtain ⟨r, hne, hpath⟩ := hbelow e (hes e List.mem_cons_self) y hy
              exact hne (List.append_right_eq_self.mp (hpath.symm.trans heq))
            · cases henter : w.enter g e with
              | none => exact List.nodup_nil
              | some d => exact ih
            · -- the two lie below different names of one directory
              have hunder : ∀ {e'}, e' ∈ s.entries g.path → ∀ y ∈ (⟨n, g, e'⟩ : At) ::
                  ((w.enter g e').map (course s w n)).getD [], ∃ r, At.path y = g.path ++ e'.name :: r := by
                intro e' he' y hy
                rcases List.mem_cons.mp hy with rfl | hy
                · exact ⟨[], rfl⟩
                · obtain ⟨r, -, hpath⟩ := hbelow e' he' y hy
                  exact ⟨r, by rw [hpath, List.append_assoc, List.singleton_append]⟩
              intro q hq q' hq' heq
              obtain ⟨y, hy, rfl⟩ := List.mem_map.mp (List.map_cons ▸ hq)
              obtain ⟨y', hy', rfl⟩ := List.mem_map.mp hq'
              obtain ⟨e', he', hy'⟩ := List.mem_flatMap.mp hy'
              obtain ⟨r, hr⟩ := hunder (hes e List.mem_cons_self) y hy
              obtain ⟨r', hr'⟩ := hunder (hes e' (List.mem_cons_of_mem e he')) y' hy'
              rw [hr, hr'] at heq
              obtain ⟨hname, -⟩ := List.cons.inj (List.append_cancel_left heq)
              exact hfresh (hname ▸ List.mem_map_of_mem he')
      exact hloop _ (fun e he => he) (nodup_entries s g.path)

end Found

/-! ### Where no name has a backslash -/

/-- The target leads nowhere. -/
def Place.Strays (g : Place) : Prop := splitComponents g.rel = none

/-- No directory that is shown has a name with a backslash. -/
def Plain (s : Share p) (d : Path) : Prop := ∀ r e, Shown s d r e → e.type = "dir".toList → '\\' ∉ e.name

section Plain

variable {S X : Type} {w : Walker Place StatDict S X} {raise : FsError → X} {g d : Place} {n : ℕ} {x : At}

theorem Plain.below {e : StatDict} {q : Path} (h : Plain s q) (he : e ∈ s.entries q) (hdir : e.type = "dir".toList) :
    Plain s (q ++ [e.name]) := fun r e' hshown => h (e.name :: r) e' (.under he hdir hshown)

theorem child_leads_or_strays {name : Text} (hname : IsName name) (hback : '\\' ∉ name) (hg : g.Leads ∨ g.Strays) :
    (g.child name).Leads ∧ Taken name ∧ g.Leads ∨ (g.child name).Strays := by
  rcases hg with hg | hg
  · by_cases htaken : Taken name
    · exact .inl ⟨splitComponents_child hg hname htaken, htaken, hg⟩
    · exact .inr (splitComponents_refused hname hback htaken)
  · right
    cases h : splitComponents (childPath g.rel name) with
    | none => exact h
    | some comps =>
        obtain ⟨comps', hcomps'⟩ := splitComponents_above h
        rw [Place.Strays, hcomps'] at hg
        cases hg

/-- A target leads to the directory it is meant for, or nowhere. -/
theorem leads_or_strays (hgoes : Goes s w raise) (hplain : Plain s g.path) (hg : g.Leads ∨ g.Strays)
    (hx : x ∈ course s w n g) : x.dir.Leads ∨ x.dir.Strays := by
  induction n generalizing g with
  | zero => cases hx
  | succ n ih =>
      obtain ⟨e, he, rfl | ⟨d, henter, hx⟩⟩ := Walker.mem_preorder.mp hx
      · exact hg
      · obtain ⟨rfl, hdir⟩ := hgoes.enter g e d henter
        have hback := hplain _ e (.here he) hdir
        refine ih (hplain.below he hdir) ?_ hx
        exact (child_leads_or_strays (isName_of_entry he) hback hg).imp And.left id

/-- What cannot be listed raises. -/
theorem lists_of_listed {target : Text} {es : List StatDict} (h : s.listDir target = .ok es) :
    ∃ q, splitComponents target = some q ∧ s.Lists q ∧ es = s.entries q := by
  by_contra hnot
  push Not at hnot
  have hraises : ∃ e, s.listDir target = .error e := by
    refine listDir_of_not_lists ?_
    intro q hq hlists
    refine hnot q hq hlists ?_
    rw [listDir_of_lists hq hlists] at h
    exact (Except.ok.inj h).symm
  obtain ⟨e, he⟩ := hraises
  rw [he] at h
  cases h

/-- A directory is listed as it is, or not at all. -/
theorem tells_of_plain (hgoes : Goes s w raise) (hplain : Plain s g.path) (hg : g.Leads ∨ g.Strays)
    (hx : x ∈ course s w n g) : w.Tells (fun g => s.entries g.path) x := by
  intro d henter
  obtain ⟨rfl, hdir⟩ := hgoes.enter _ _ _ henter
  obtain ⟨r, hshown, -, -, -⟩ := shown_of_course hgoes hx
  have hentry := mem_entries_of_course hx
  have hback := hplain r x.entry hshown hdir
  have hchild := child_leads_or_strays (isName_of_entry hentry) hback (leads_or_strays hgoes hplain hg hx)
  rw [hgoes.list]
  cases hlist : s.listDir (x.dir.child x.entry.name).rel with
  | error e => exact .inr ⟨raise e, rfl⟩
  | ok es =>
      left
      obtain ⟨q, hq, -, rfl⟩ := lists_of_listed hlist
      rcases hchild with ⟨hleads, -, -⟩ | hstrays
      · rw [Place.Leads, hq, Option.some.injEq] at hleads
        rw [hleads]
        rfl
      · rw [Place.Strays, hq] at hstrays
        cases hstrays

/-- A directory that is listed has a name the splitter takes. -/
theorem lists_of_opens (hgoes : Goes s w raise) (hplain : Plain s g.path) (hg : g.Leads ∨ g.Strays)
    (hx : x ∈ course s w n g) (hopens : w.Opens (fun g => s.entries g.path) x) (henter : w.enter x.dir x.entry = some d) :
    Taken x.entry.name ∧ s.Lists x.path ∧ 0 < x.levels := by
  obtain ⟨hlevels, hlist⟩ := hopens d henter
  obtain ⟨rfl, hdir⟩ := hgoes.enter _ _ _ henter
  obtain ⟨r, hshown, -, -, -⟩ := shown_of_course hgoes hx
  have hentry := mem_entries_of_course hx
  have hback := hplain r x.entry hshown hdir
  have hchild := child_leads_or_strays (isName_of_entry hentry) hback (leads_or_strays hgoes hplain hg hx)
  rw [hgoes.list] at hlist
  cases hlisted : s.listDir (x.dir.child x.entry.name).rel with
  | error e =>
      rw [hlisted] at hlist
      cases hlist
  | ok es =>
      obtain ⟨q, hq, hlists, -⟩ := lists_of_listed hlisted
      rcases hchild with ⟨hleads, htaken, -⟩ | hstrays
      · rw [Place.Leads, hq, Option.some.injEq] at hleads
        rw [hleads] at hlists
        exact ⟨htaken, hlists, hlevels⟩
      · rw [Place.Strays, hq] at hstrays
        cases hstrays

end Plain

end CyClaw.Fsconnect

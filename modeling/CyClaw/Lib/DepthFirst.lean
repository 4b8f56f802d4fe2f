/-
Depth-first walks that may fail.

A walk lists a directory and takes its entries one after the other: it looks at an entry, and
where the entry can be entered it walks what is below before it goes on.  Listing and looking
may fail, and then the whole walk does.

`preorder` is what such a walk comes to when every directory lists as it is told beforehand.
A walk is the loop over that list, up to the first entry where something fails
(`walk_of_course`): nothing is asked of the directories behind it.  So where directories list
as told or not at all, a walk comes to its end only if all of them list (`walk_ok_iff`).

Two walks of the same directories that treat each entry alike come to the same
(`walk_alike`), and what looking at an entry keeps a whole walk keeps (`walk_invariant`).
-/
import Mathlib.Data.List.Basic

namespace DepthFirst

variable {D E S X : Type*}

structure Walker (D E S X : Type*) where
  list : D → Except X (List E)
  look : D → E → S → Except X S
  enter : D → E → Option D
  /-- What is raised when there is no level left to walk. -/
  deep : X

/-- An entry a walk comes to: how many levels are left below it, where it stands, and it. -/
structure Stop (D E : Type*) where
  levels : ℕ
  dir : D
  entry : E

namespace Walker

variable (w : Walker D E S X)

/-- What is done with an entry, given the walk of what is below. -/
def visit (below : D → S → Except X S) (d : D) (s : S) (e : E) : Except X S :=
  match w.look d e s with
  | .error x => .error x
  | .ok s =>
      match w.enter d e with
      | none => .ok s
      | some d' => below d' s

def walk : ℕ → D → S → Except X S
  | 0, _, _ => .error w.deep
  | n + 1, d, s =>
      match w.list d with
      | .error x => .error x
      | .ok es => es.foldlM (w.visit (walk n) d) s

/-- The entries in the order of the walk, when the directories list as `entries` tells. -/
def preorder (entries : D → List E) : ℕ → D → List (Stop D E)
  | 0, _ => []
  | n + 1, d =>
      (entries d).flatMap fun e =>
        ⟨n, d, e⟩ :: ((w.enter d e).map (preorder entries n)).getD []

/-- The loop that looks at each entry. -/
def looks (l : List (Stop D E)) (s : S) : Except X S := l.foldlM (fun s e => w.look e.dir e.entry s) s

/-- Whether what is below an entry is listed as told. -/
def Opens (entries : D → List E) (e : Stop D E) : Prop :=
  ∀ d, w.enter e.dir e.entry = some d → 0 < e.levels ∧ w.list d = .ok (entries d)

/-- Why a walk fails at an entry: looking at it does, or there is no level left below it, or
what is below cannot be listed. -/
inductive Fails (e : Stop D E) (s : S) : X → Prop where
  | look {x : X} (h : w.look e.dir e.entry s = .error x) : Fails e s x
  | deep {s' : S} {d : D} (h : w.look e.dir e.entry s = .ok s') (henter : w.enter e.dir e.entry = some d)
      (hlevels : e.levels = 0) : Fails e s w.deep
  | list {s' : S} {d : D} {x : X} (h : w.look e.dir e.entry s = .ok s') (henter : w.enter e.dir e.entry = some d)
      (hlevels : 0 < e.levels) (hlist : w.list d = .error x) : Fails e s x

/-- How the loop over a list of entries goes: to its end, or to an entry where it fails. -/
inductive Course (entries : D → List E) (l : List (Stop D E)) (s : S) : Except X S → Prop where
  | ends {s' : S} (hopens : ∀ e ∈ l, w.Opens entries e) (hlooks : w.looks l s = .ok s') : Course entries l s (.ok s')
  | stops {before after : List (Stop D E)} {e : Stop D E} {s' : S} {x : X} (hl : l = before ++ e :: after)
      (hopens : ∀ e ∈ before, w.Opens entries e) (hlooks : w.looks before s = .ok s') (hfails : w.Fails e s' x) :
      Course entries l s (.error x)

/-! ### A walk is the loop over its preorder -/

variable {w} {entries : D → List E} {l l' : List (Stop D E)} {s : S} {r : Except X S} {e : Stop D E}

theorem looks_cons : w.looks (e :: l) s = (w.look e.dir e.entry s).bind (w.looks l) := rfl

theorem looks_append : w.looks (l ++ l') s = (w.looks l s).bind (w.looks l') := List.foldlM_append

theorem Course.nil_inv (h : w.Course entries [] s r) : r = .ok s := by
  cases h with
  | ends _ hlooks => exact hlooks.symm
  | stops hl _ _ _ => simp at hl

/-- A course fails at its first entry, or looks at it and goes on. -/
theorem Course.cons_inv (h : w.Course entries (e :: l) s r) :
    (∃ x, r = .error x ∧ w.Fails e s x) ∨
    w.Opens entries e ∧ ∃ s', w.look e.dir e.entry s = .ok s' ∧ w.Course entries l s' r := by
  cases h with
  | ends hopens hlooks =>
      right
      rw [looks_cons] at hlooks
      refine ⟨hopens e List.mem_cons_self, ?_⟩
      cases hlook : w.look e.dir e.entry s with
      | error x =>
          rw [hlook] at hlooks
          cases hlooks
      | ok s' =>
          rw [hlook] at hlooks
          exact ⟨s', rfl, .ends (fun e' he' => hopens e' (List.mem_cons_of_mem e he')) hlooks⟩
  | @stops before after e' s' x hl hopens hlooks hfails =>
      cases before with
      | nil =>
          obtain ⟨rfl, rfl⟩ := List.cons.inj hl
          obtain rfl : s = s' := Except.ok.inj hlooks
          exact .inl ⟨x, rfl, hfails⟩
      | cons e'' before =>
          obtain ⟨rfl, rfl⟩ := List.cons.inj hl
          right
          rw [looks_cons] at hlooks
          refine ⟨hopens e List.mem_cons_self, ?_⟩
          cases hlook : w.look e.dir e.entry s with
          | error y =>
              rw [hlook] at hlooks
              cases hlooks
          | ok s'' =>
              rw [hlook] at hlooks
              exact ⟨s'', rfl, .stops rfl (fun e' he' => hopens e' (List.mem_cons_of_mem e he')) hlooks hfails⟩

theorem Course.of_fails {x : X} (h : w.Fails e s x) : w.Course entries (e :: l) s (.error x) :=
  .stops (List.nil_append _).symm (fun _ he => absurd he List.not_mem_nil) rfl h

theorem Course.cons {s' : S} (h : w.Course entries l s' r) (hopens : w.Opens entries e)
    (hlook : w.look e.dir e.entry s = .ok s') : w.Course entries (e :: l) s r := by
  have hboth : ∀ {l' : List (Stop D E)}, (∀ e' ∈ l', w.Opens entries e') → ∀ e' ∈ e :: l', w.Opens entries e' := by
    intro l' hall e' he'
    rcases List.mem_cons.mp he' with rfl | he'
    · exact hopens
    · exact hall e' he'
  cases h with
  | ends hall hlooks =>
      refine .ends (hboth hall) ?_
      rw [looks_cons, hlook]
      exact hlooks
  | @stops before after e' s'' x hl hall hlooks hfails =>
      rw [hl]
      refine .stops (List.cons_append).symm (hboth hall) ?_ hfails
      rw [looks_cons, hlook]
      exact hlooks

/-- A course over two lists fails in the first, or goes through both. -/
theorem Course.append_inv (h : w.Course entries (l ++ l') s r) :
    (∃ x, r = .error x ∧ w.Course entries l s (.error x)) ∨
    ∃ s', w.Course entries l s (.ok s') ∧ w.Course entries l' s' r := by
  induction l generalizing s with
  | nil => exact .inr ⟨s, .ends (fun e he => absurd he List.not_mem_nil) rfl, h⟩
  | cons e l ih =>
      rcases h.cons_inv with ⟨x, rfl, hfails⟩ | ⟨hopens, s', hlook, hrest⟩
      · exact .inl ⟨x, rfl, .of_fails hfails⟩
      · rcases ih hrest with ⟨x, hr, hcourse⟩ | ⟨s'', hcourse, hcourse'⟩
        · exact .inl ⟨x, hr, hcourse.cons hopens hlook⟩
        · exact .inr ⟨s'', hcourse.cons hopens hlook, hcourse'⟩

/-- **A walk goes as the loop over its preorder goes.** -/
theorem walk_of_course {n : ℕ} {d : D} (hlist : w.list d = .ok (entries d))
    (h : w.Course entries (w.preorder entries (n + 1) d) s r) : w.walk (n + 1) d s = r := by
  induction n using Nat.strongRecOn generalizing d s r with
  | ind n ih =>
    have hvisit : ∀ {e : E} {s : S} {r : Except X S},
        w.Course entries (⟨n, d, e⟩ :: ((w.enter d e).map (w.preorder entries n)).getD []) s r →
          w.visit (w.walk n) d s e = r := by
      intro e s r h
      unfold visit
      rcases h.cons_inv with ⟨x, rfl, hfails⟩ | ⟨hopens, s', hlook, hbelow⟩
      · cases hfails with
        | look hlook => rw [hlook]
        | deep hlook henter hlevels =>
            dsimp only at hlook henter hlevels
            rw [hlook, hlevels]
            dsimp only
            rw [henter]
            rfl
        | list hlook henter hlevels hlist' =>
            obtain ⟨m, rfl⟩ := Nat.exists_eq_add_one.mpr hlevels
            dsimp only at hlook henter
            rw [hlook]
            dsimp only
            rw [henter]
            simp only [walk, hlist']
      · dsimp only at hlook
        rw [hlook]
        dsimp only
        cases henter : w.enter d e with
        | none =>
            rw [henter] at hbelow
            exact hbelow.nil_inv.symm
        | some d' =>
            rw [henter] at hbelow
            obtain ⟨hlevels, hlist'⟩ := hopens d' henter
            obtain ⟨m, rfl⟩ := Nat.exists_eq_add_one.mpr hlevels
            exact ih m (Nat.lt_succ_self m) hlist' hbelow
    have hloop : ∀ (es : List E) {s : S} {r : Except X S},
        w.Course entries (es.flatMap fun e => ⟨n, d, e⟩ :: ((w.enter d e).map (w.preorder entries n)).getD []) s r →
          es.foldlM (w.visit (w.walk n) d) s = r := by
      intro es
      induction es with
      | nil =>
          intro s r h
          exact h.nil_inv.symm
      | cons e es ihes =>
          intro s r h
          rw [List.flatMap_cons] at h
          rw [List.foldlM_cons]
          rcases h.append_inv with ⟨x, rfl, hfirst⟩ | ⟨s', hfirst, hrest⟩
          · rw [hvisit hfirst]
            rfl
          · rw [hvisit hfirst]
            exact ihes hrest
    rw [walk, hlist]
    exact hloop (entries d) h

/-- What is below an entry is listed as told, or not at all. -/
def Tells (w : Walker D E S X) (entries : D → List E) (e : Stop D E) : Prop :=
  ∀ d, w.enter e.dir e.entry = some d → w.list d = .ok (entries d) ∨ ∃ x, w.list d = .error x

theorem exists_course : ∀ {l : List (Stop D E)} (s : S), (∀ e ∈ l, w.Tells entries e) → ∃ r, w.Course entries l s r := by
  intro l
  induction l with
  | nil => exact fun s _ => ⟨.ok s, .ends (fun e he => absurd he List.not_mem_nil) rfl⟩
  | cons e l ih =>
      intro s htells
      cases hlook : w.look e.dir e.entry s with
      | error x => exact ⟨.error x, .of_fails (.look hlook)⟩
      | ok s' =>
          obtain ⟨r, hr⟩ := ih s' fun e' he' => htells e' (List.mem_cons_of_mem e he')
          cases henter : w.enter e.dir e.entry with
          | none =>
              refine ⟨r, hr.cons ?_ hlook⟩
              intro d hd
              rw [henter] at hd
              cases hd
          | some d =>
              rcases Nat.eq_zero_or_pos e.levels with hlevels | hlevels
              · exact ⟨.error w.deep, .of_fails (.deep hlook henter hlevels)⟩
              · rcases htells e List.mem_cons_self d henter with hlist | ⟨x, hlist⟩
                · refine ⟨r, hr.cons ?_ hlook⟩
                  intro d' hd'
                  rw [henter, Option.some.injEq] at hd'
                  rw [← hd']
                  exact ⟨hlevels, hlist⟩
                · exact ⟨.error x, .of_fails (.list hlook henter hlevels hlist)⟩

/-- **A walk comes to its end** only if every directory is listed and every entry can be
looked at. -/
theorem walk_ok_iff {n : ℕ} {d : D} {s' : S} (hlist : w.list d = .ok (entries d))
    (htells : ∀ e ∈ w.preorder entries (n + 1) d, w.Tells entries e) :
    w.walk (n + 1) d s = .ok s' ↔
      (∀ e ∈ w.preorder entries (n + 1) d, w.Opens entries e) ∧ w.looks (w.preorder entries (n + 1) d) s = .ok s' := by
  constructor
  · intro h
    obtain ⟨r, hr⟩ := exists_course s htells
    rw [walk_of_course hlist hr] at h
    rw [h] at hr
    cases hr with
    | ends hopens hlooks => exact ⟨hopens, hlooks⟩
  · rintro ⟨hopens, hlooks⟩
    exact walk_of_course hlist (.ends hopens hlooks)

/-! ### Two walks -/

/-- Two outcomes are alike: the same error, or states that are related. -/
inductive Alike {S' : Type*} (R : S → S' → Prop) : Except X S → Except X S' → Prop where
  | ok {s : S} {s' : S'} (h : R s s') : Alike R (.ok s) (.ok s')
  | error (x : X) : Alike R (.error x) (.error x)

theorem walk_alike {S' : Type*} {R : S → S' → Prop} {w : Walker D E S X} {w' : Walker D E S' X}
    (hlist : ∀ d, w'.list d = w.list d) (henter : ∀ d e, w'.enter d e = w.enter d e) (hdeep : w'.deep = w.deep)
    (hlook : ∀ d es e s s', w.list d = .ok es → e ∈ es → R s s' → Alike R (w.look d e s) (w'.look d e s')) (n : ℕ) :
    ∀ d s s', R s s' → Alike R (w.walk n d s) (w'.walk n d s') := by
  induction n with
  | zero =>
      intro d s s' _
      rw [walk, walk, hdeep]
      exact .error _
  | succ n ih =>
      intro d s s' hR
      rw [walk, walk, hlist]
      cases hd : w.list d with
      | error x => exact .error x
      | ok es =>
          have hvisit : ∀ e ∈ es, ∀ s s', R s s' →
              Alike R (w.visit (w.walk n) d s e) (w'.visit (w'.walk n) d s' e) := by
            intro e he s s' hR
            have hstep := hlook d es e s s' hd he hR
            unfold visit
            rw [henter]
            generalize w.look d e s = r at hstep
            generalize w'.look d e s' = r' at hstep
            cases hstep with
            | error x => exact .error x
            | ok hR' =>
                dsimp only
                cases w.enter d e with
                | none => exact .ok hR'
                | some d' => exact ih d' _ _ hR'
          dsimp only
          clear hd
          induction es generalizing s s' with
          | nil => exact .ok hR
          | cons e es ihes =>
              rw [List.foldlM_cons, List.foldlM_cons]
              have hfirst := hvisit e List.mem_cons_self s s' hR
              have hrest := fun s s' hR => ihes s s' hR fun e' he' => hvisit e' (List.mem_cons_of_mem e he')
              generalize w.visit (w.walk n) d s e = r at hfirst
              generalize w'.visit (w'.walk n) d s' e = r' at hfirst
              cases hfirst with
              | error x => exact .error x
              | ok hR' => exact hrest _ _ hR'

/-- **The invariant rule.** -/
theorem walk_invariant {I : S → Prop} {w : Walker D E S X} {n : ℕ} {d : D} {s s' : S}
    (hlook : ∀ d es e s s', w.list d = .ok es → e ∈ es → I s → w.look d e s = .ok s' → I s') (hs : I s)
    (h : w.walk n d s = .ok s') : I s' := by
  have hstep : ∀ d es e s t, w.list d = .ok es → e ∈ es → s = t ∧ I s →
      Alike (fun s t => s = t ∧ I s) (w.look d e s) (w.look d e t) := by
    rintro d es e s t hd he ⟨rfl, hI⟩
    cases hlooked : w.look d e s with
    | error x => exact .error x
    | ok s' => exact .ok ⟨rfl, hlook d es e s s' hd he hI hlooked⟩
  have halike : Alike (fun s t => s = t ∧ I s) (w.walk n d s) (w.walk n d s) :=
    walk_alike (fun _ => rfl) (fun _ _ => rfl) rfl hstep n d s s ⟨rfl, hs⟩
  rw [h] at halike
  cases halike with
  | ok hR => exact hR.2

/-! ### Where the entries stand -/

theorem mem_preorder {n : ℕ} {d : D} :
    e ∈ w.preorder entries (n + 1) d ↔
      ∃ x ∈ entries d, e = ⟨n, d, x⟩ ∨ ∃ d', w.enter d x = some d' ∧ e ∈ w.preorder entries n d' := by
  simp only [preorder, List.mem_flatMap, List.mem_cons]
  refine exists_congr fun x => and_congr_right fun _ => or_congr_right ?_
  cases w.enter d x <;> simp

/-- The same walk with more known of where it is. -/
def along {G : Type*} (w : Walker D E S X) (f : G → D) (enter : G → E → Option G) : Walker G E S X where
  list g := w.list (f g)
  look g := w.look (f g)
  enter
  deep := w.deep

theorem walk_along {G : Type*} {f : G → D} {enter : G → E → Option G} {I : G → Prop}
    (henter : ∀ g e, I g → w.enter (f g) e = (enter g e).map f)
    (hkeeps : ∀ g e g', I g → enter g e = some g' → I g') (n : ℕ) {g : G} (hg : I g) (s : S) :
    (w.along f enter).walk n g s = w.walk n (f g) s := by
  induction n generalizing g s with
  | zero => rfl
  | succ n ih =>
      have hvisit : (w.along f enter).visit ((w.along f enter).walk n) g = w.visit (w.walk n) (f g) := by
        funext s e
        have hlook : (w.along f enter).look g e s = w.look (f g) e s := rfl
        have hbelow : (w.along f enter).enter g e = enter g e := rfl
        unfold visit
        rw [hlook, hbelow, henter g e hg]
        cases w.look (f g) e s with
        | error x => rfl
        | ok s' =>
            cases hstep : enter g e with
            | none => rfl
            | some g' => exact ih (hkeeps g e g' hg hstep) s'
      simp only [walk, hvisit]
      rfl

end Walker

end DepthFirst

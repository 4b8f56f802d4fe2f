/-
Substitution, `re.sub`.

A text is cut at its matches, leftmost first, and every match gives way to one text.  `Cut`
keeps what the cuts were, and that there was no match before any of them.  What is left has
no match again when the text put in stands between two marks that no match reads: a match
in the result would lie between two cuts, and so have been there before.  With `\b` around
it the neighbours count as well, and a mark is no word character while a match begins and
ends in one.
-/
import CyClaw.Lib.RegexLanguage

namespace Regex

/-- `re.sub` from a place on, for an expression that never reads the empty text.  What is still to
skip belongs to the match just replaced. -/
def subFrom (w : Char → Bool) (r : Re) (rep : List Char) : ℕ → List Char → List Char → List Char
  | _, _, [] => []
  | skip + 1, b, c :: a => subFrom w r rep skip (c :: b) a
  | 0, b, c :: a =>
      match ends w r ⟨b, c :: a⟩ with
      | m :: _ => rep ++ subFrom w r rep (a.length - m.after.length) (c :: b) a
      | [] => c :: subFrom w r rep 0 (c :: b) a

/-- `re.sub(r, rep, t)`. -/
def sub (w : Char → Bool) (r : Re) (rep t : List Char) : List Char := subFrom w r rep 0 [] t

/-- The expression reads `y` between `b`, nearest first, and `a`. -/
def Occurs (w : Char → Bool) (r : Re) (b y a : List Char) : Prop := (⟨y.reverse ++ b, a⟩ : Pos) ∈ ends w r ⟨b, y ++ a⟩

/-- The cuts of a text that stands after `b`, and what they make of it. -/
inductive Cut (w : Char → Bool) (r : Re) (rep : List Char) : List Char → List Char → List Char → Prop
  | rest {b a : List Char} (hnone : ∀ x y, a = x ++ y → ends w r ⟨x.reverse ++ b, y⟩ = []) : Cut w r rep b a a
  | here {b s y a out : List Char} (hnone : ∀ x z, s = x ++ z → z ≠ [] → ends w r ⟨x.reverse ++ b, z ++ (y ++ a)⟩ = [])
      (hmatch : Occurs w r (s.reverse ++ b) y a) (hrest : Cut w r rep (y.reverse ++ (s.reverse ++ b)) a out) :
      Cut w r rep b (s ++ (y ++ a)) (s ++ (rep ++ out))

variable {w : Char → Bool} {r : Re} {rep : List Char}

theorem exists_occurs {b a : List Char} {m : Pos} (h : m ∈ ends w r ⟨b, a⟩) :
    ∃ y, a = y ++ m.after ∧ Occurs w r b y m.after := by
  obtain ⟨y, hafter, hbefore⟩ := ends_advances h
  obtain ⟨before, after⟩ := m
  dsimp only at hafter hbefore ⊢
  refine ⟨y, hafter, ?_⟩
  rw [Occurs, ← hafter, ← hbefore]
  exact h

theorem hits_iff_occurs {t : List Char} :
    hits w r t = true ↔ ∃ x y z, t = x ++ (y ++ z) ∧ Occurs w r x.reverse y z := by
  rw [hits_iff]
  constructor
  · rintro ⟨x, a, rfl, hne⟩
    obtain ⟨m, hm⟩ := List.exists_mem_of_ne_nil _ hne
    obtain ⟨y, rfl, hoccurs⟩ := exists_occurs hm
    exact ⟨x, y, m.after, rfl, hoccurs⟩
  · rintro ⟨x, y, z, rfl, hoccurs⟩
    exact ⟨x, y ++ z, rfl, List.ne_nil_of_mem hoccurs⟩

/-! ### What substitution cuts -/

theorem subFrom_skip (x b a : List Char) :
    subFrom w r rep x.length b (x ++ a) = subFrom w r rep 0 (x.reverse ++ b) a := by
  induction x generalizing b with
  | nil => rfl
  | cons c x ih =>
    rw [List.length_cons, List.cons_append, subFrom, ih, List.reverse_cons, List.append_assoc]
    rfl

theorem Cut.cons {c : Char} {b a out : List Char} (hnone : ends w r ⟨b, c :: a⟩ = [])
    (h : Cut w r rep (c :: b) a out) : Cut w r rep b (c :: a) (c :: out) := by
  cases h with
  | rest hrest =>
    refine .rest fun x y hxy => ?_
    cases x with
    | nil =>
      rw [List.nil_append] at hxy
      rw [← hxy]
      exact hnone
    | cons d x =>
      obtain ⟨rfl, rfl⟩ := List.cons_eq_cons.mp hxy
      simpa using hrest x y rfl
  | @here _ s y a out hbefore hmatch hrest =>
    rw [← List.cons_append, ← List.cons_append]
    refine .here (fun x z hxz hz => ?_) (by simpa using hmatch) (by simpa using hrest)
    cases x with
    | nil =>
      rw [List.nil_append] at hxz
      rw [← hxz]
      exact hnone
    | cons d x =>
      obtain ⟨rfl, rfl⟩ := List.cons_eq_cons.mp hxz
      simpa using hbefore x z rfl hz

/-- **What substitution does is to cut**: at the leftmost match, and then in what is left. -/
theorem subFrom_cut (hr : ∀ b a, ¬ Occurs w r b [] a) (b a : List Char) : Cut w r rep b a (subFrom w r rep 0 b a) := by
  induction hn : a.length using Nat.strong_induction_on generalizing b a with
  | _ n ih =>
    cases a with
    | nil =>
      refine .rest fun x y hxy => ?_
      obtain ⟨rfl, rfl⟩ := List.append_eq_nil_iff.mp hxy.symm
      by_contra hne
      obtain ⟨m, hm⟩ := List.exists_mem_of_ne_nil _ hne
      obtain ⟨y, hy, hoccurs⟩ := exists_occurs hm
      obtain ⟨rfl, -⟩ := List.append_eq_nil_iff.mp hy.symm
      exact hr _ _ hoccurs
    | cons c a =>
      rw [subFrom]
      cases hends : ends w r ⟨b, c :: a⟩ with
      | nil => exact .cons hends (ih a.length (by rw [← hn]; simp) (c :: b) a rfl)
      | cons m ms =>
        obtain ⟨y, hy, hoccurs⟩ := exists_occurs (hends ▸ List.mem_cons_self : m ∈ ends w r ⟨b, c :: a⟩)
        obtain - | ⟨d, y⟩ := y
        · exact absurd hoccurs (hr _ _)
        · obtain ⟨rfl, rfl⟩ : c = d ∧ a = y ++ m.after := by simpa using hy
          have hskip : (y ++ m.after).length - m.after.length = y.length := by simp
          dsimp only
          rw [hskip, subFrom_skip]
          have hshorter : m.after.length < n := by
            rw [← hn, List.length_cons, List.length_append]
            omega
          have hcut := ih m.after.length hshorter (y.reverse ++ c :: b) m.after rfl
          have hhere : Cut w r rep b ([] ++ (c :: y ++ m.after))
              ([] ++ (rep ++ subFrom w r rep 0 (y.reverse ++ c :: b) m.after)) := by
            refine .here (fun x z hxz hz => ?_) hoccurs (by simpa using hcut)
            exact absurd (List.append_eq_nil_iff.mp hxz.symm).2 hz
          exact hhere

/-- A text without a match is left as it is. -/
theorem subFrom_of_none {b a : List Char} (h : ∀ x y, a = x ++ y → ends w r ⟨x.reverse ++ b, y⟩ = []) :
    subFrom w r rep 0 b a = a := by
  induction a generalizing b with
  | nil => rfl
  | cons c a ih =>
    have hhead := h [] (c :: a) rfl
    rw [List.reverse_nil, List.nil_append] at hhead
    rw [subFrom, hhead]
    dsimp only
    rw [ih]
    intro x y hxy
    simpa using h (c :: x) y (by rw [hxy, List.cons_append])

theorem sub_of_not_hits {t : List Char} (h : hits w r t = false) : sub w r rep t = t := by
  refine subFrom_of_none fun x y hxy => ?_
  by_contra hne
  rw [List.append_nil] at hne
  have hhits := hits_iff.mpr ⟨x, y, hxy, hne⟩
  rw [h] at hhits
  cases hhits

/-! ### Marks -/

/-- A text that avoids `c` lies on one side of it. -/
theorem split_at_mark {c : Char} {s t x y z : List Char} (h : s ++ c :: t = x ++ (y ++ z)) (hc : c ∉ y) :
    (∃ s', s = x ++ (y ++ s') ∧ z = s' ++ c :: t) ∨ ∃ x', x = s ++ c :: x' ∧ t = x' ++ (y ++ z) := by
  rcases List.append_eq_append_iff.mp h with ⟨x', rfl, hx⟩ | ⟨s', rfl, hs⟩
  · cases x' with
    | cons d x' =>
      obtain ⟨rfl, rfl⟩ := List.cons_eq_cons.mp hx
      exact Or.inr ⟨x', rfl, rfl⟩
    | nil =>
      cases y with
      | nil => exact Or.inl ⟨[], by simp, hx.symm⟩
      | cons d y =>
        obtain ⟨rfl, -⟩ := List.cons_eq_cons.mp hx
        exact absurd List.mem_cons_self hc
  · rcases List.append_eq_append_iff.mp hs with ⟨s'', rfl, hz⟩ | ⟨y', rfl, hy⟩
    · exact Or.inl ⟨s'', rfl, hz⟩
    · cases y' with
      | nil => exact Or.inl ⟨[], by simp, hy.symm⟩
      | cons d y' =>
        obtain ⟨rfl, -⟩ := List.cons_eq_cons.mp hy
        exact absurd (List.mem_append_right _ List.mem_cons_self) hc

/-- What is put in: `mid` between the marks. -/
def marked (o c : Char) (mid : List Char) : List Char := o :: (mid ++ [c])

/-- What avoids the marks is put in or was there before. -/
theorem Cut.within {o c : Char} {mid b a out x y z : List Char} (h : Cut w r (marked o c mid) b a out)
    (ho : o ∉ y) (hc : c ∉ y) (hout : out = x ++ (y ++ z)) : y <:+: a ∨ y <:+: mid := by
  induction h generalizing x with
  | rest =>
    rw [hout]
    exact Or.inl ⟨x, z, by simp⟩
  | @here b s v a out _ _ _ ih =>
    have hopen : s ++ o :: (mid ++ c :: out) = x ++ (y ++ z) := by rw [← hout, marked]; simp
    rcases split_at_mark hopen ho with ⟨s', rfl, -⟩ | ⟨x', -, hrest⟩
    · exact Or.inl ⟨x, s' ++ (v ++ a), by simp⟩
    · rcases split_at_mark hrest hc with ⟨mid', rfl, -⟩ | ⟨x'', -, hrest⟩
      · exact Or.inr ⟨x', mid', by simp⟩
      · rcases ih hrest with ⟨p, q, rfl⟩ | hmid
        · exact Or.inl ⟨s ++ (v ++ p), q, by simp⟩
        · exact Or.inr hmid

/-- The expression reads the texts of `l`, and with `bounded` only between neighbours that are no word
characters. -/
structure ReadsBetween (w : Char → Bool) (r : Re) (l : Language Char) (bounded : Prop) : Prop where
  occurs : ∀ {b y a : List Char}, Occurs w r b y a ↔
    y ∈ l ∧ (bounded → b.head?.any w = false ∧ a.head?.any w = false)
  nonempty : ∀ y ∈ l, y ≠ []
  word : bounded → ∀ y ∈ l, y.head?.any w = true ∧ y.getLast?.any w = true

/-- No text of `l` reads a mark or is found between them. -/
structure Fenced (l : Language Char) (o c : Char) (mid : List Char) : Prop where
  opening : ∀ y ∈ l, o ∉ y
  closing : ∀ y ∈ l, c ∉ y
  between : ∀ y ∈ l, ¬ y <:+: mid

variable {l : Language Char} {bounded : Prop} {o c : Char} {mid : List Char}

theorem head?_append_of_ne_nil {x : List Char} (hx : x ≠ []) (y : List Char) : (x ++ y).head? = x.head? := by
  cases x with
  | nil => exact absurd rfl hx
  | cons d x => rfl

/-- What comes before a match in the result came before it in the text, as far as words go. -/
theorem ReadsBetween.before (hread : ReadsBetween w r l bounded) {b B x y z : List Char}
    (hedge : bounded → b.head?.any w = false ∨ (x ++ (y ++ z)).head?.any w = false) (hy : y ∈ l)
    (hbefore : bounded → (x.reverse ++ B).head?.any w = false) (hbounded : bounded) :
    (x.reverse ++ b).head?.any w = false := by
  by_cases hx : x = []
  · subst hx
    rcases hedge hbounded with hb | ha
    · exact hb
    · rw [List.nil_append, head?_append_of_ne_nil (hread.nonempty y hy), (hread.word hbounded y hy).1] at ha
      cases ha
  · have hrev : x.reverse ≠ [] := by simpa using hx
    have hword := hbefore hbounded
    rw [head?_append_of_ne_nil hrev] at hword ⊢
    exact hword

/-- **No match is left**: one in the result would have been there before. -/
theorem Cut.clean (hread : ReadsBetween w r l bounded) (hfenced : Fenced l o c mid) {b a out : List Char}
    (h : Cut w r (marked o c mid) b a out) (hedge : bounded → b.head?.any w = false ∨ a.head?.any w = false)
    {B x y z : List Char} (hout : out = x ++ (y ++ z)) : ¬ Occurs w r (x.reverse ++ B) y z := by
  intro hoccurs
  obtain ⟨hy, hwords⟩ := hread.occurs.mp hoccurs
  induction h generalizing x B with
  | @rest b a hnone =>
    subst hout
    have hwas : Occurs w r (x.reverse ++ b) y z := hread.occurs.mpr ⟨hy, fun hbounded =>
      ⟨hread.before hedge hy (fun hbounded => (hwords hbounded).1) hbounded, (hwords hbounded).2⟩⟩
    exact List.ne_nil_of_mem hwas (hnone x (y ++ z) rfl)
  | @here b s v a out hnone hmatch _ ih =>
    have hopen : s ++ o :: (mid ++ c :: out) = x ++ (y ++ z) := by rw [← hout, marked]; simp
    rcases split_at_mark hopen (hfenced.opening y hy) with ⟨s', rfl, rfl⟩ | ⟨x', rfl, hrest⟩
    · -- It lies before the next cut; right before it, the two would share a word.
      have hafter : bounded → (s' ++ (v ++ a)).head?.any w = false := by
        intro hbounded
        by_cases hs : s' = []
        · subst hs
          have hv := (hread.occurs.mp hmatch).2 hbounded
          have hlast := (hread.word hbounded y hy).2
          rw [List.append_nil, List.reverse_append, List.append_assoc,
            head?_append_of_ne_nil (by simpa using hread.nonempty y hy), List.head?_reverse, hlast] at hv
          cases hv.1
        · have hword := (hwords hbounded).2
          rw [head?_append_of_ne_nil hs] at hword ⊢
          exact hword
      have hedge' : bounded → b.head?.any w = false ∨ (x ++ (y ++ (s' ++ (v ++ a)))).head?.any w = false := by
        simpa using hedge
      have hwas : Occurs w r (x.reverse ++ b) y (s' ++ (v ++ a)) := hread.occurs.mpr ⟨hy, fun hbounded =>
        ⟨hread.before hedge' hy (fun hbounded => (hwords hbounded).1) hbounded, hafter hbounded⟩⟩
      refine List.ne_nil_of_mem hwas ?_
      have hnone' := hnone x (y ++ s') rfl (by simp [hread.nonempty y hy])
      rwa [List.append_assoc] at hnone'
    · rcases split_at_mark hrest (hfenced.closing y hy) with ⟨mid', rfl, -⟩ | ⟨x'', rfl, hlater⟩
      · exact hfenced.between y hy ⟨x', mid', by simp⟩
      · have hedge' : bounded → (v.reverse ++ (s.reverse ++ b)).head?.any w = false ∨ a.head?.any w = false :=
          fun hbounded => Or.inr ((hread.occurs.mp hmatch).2 hbounded).2
        have hcontext : (s ++ o :: (mid ++ c :: x'')).reverse ++ B =
            x''.reverse ++ ((s ++ o :: (mid ++ [c])).reverse ++ B) := by
          simp
        rw [hcontext] at hoccurs hwords
        exact ih hedge' hlater hoccurs hwords

theorem not_hits_sub (hread : ReadsBetween w r l bounded) (hfenced : Fenced l o c mid) (t : List Char) :
    hits w r (sub w r (marked o c mid) t) = false := by
  have hnonempty : ∀ b a, ¬ Occurs w r b [] a := fun b a h => hread.nonempty [] (hread.occurs.mp h).1 rfl
  have hcut : Cut w r (marked o c mid) [] t _ := subFrom_cut hnonempty [] t
  rw [Bool.eq_false_iff]
  intro hhits
  obtain ⟨x, y, z, hout, hoccurs⟩ := hits_iff_occurs.mp hhits
  rw [← List.append_nil x.reverse] at hoccurs
  exact hcut.clean hread hfenced (fun _ => Or.inl rfl) hout hoccurs

/-- What one substitution has cleared stays clear of it after another. -/
theorem not_hits_sub_of_not_hits {r' : Re} (hr' : ∀ b a, ¬ Occurs w r' b [] a)
    (hread : ReadsBetween w r l False) (hfenced : Fenced l o c mid) {t : List Char} (h : hits w r t = false) :
    hits w r (sub w r' (marked o c mid) t) = false := by
  rw [Bool.eq_false_iff] at h ⊢
  intro hhits
  obtain ⟨x, y, z, hout, hoccurs⟩ := hits_iff_occurs.mp hhits
  obtain ⟨hy, -⟩ := hread.occurs.mp hoccurs
  rcases (subFrom_cut hr' [] t).within (hfenced.opening y hy) (hfenced.closing y hy) hout with ⟨p, q, rfl⟩ | hmid
  · exact h (hits_iff_occurs.mpr ⟨p, y, q, by simp, hread.occurs.mpr ⟨hy, False.elim⟩⟩)
  · exact hfenced.between y hy hmid

/-! ### Which expressions read so -/

theorem readsBetween_lang (hr : r.asksNoBoundary = true) (hnonempty : ∀ y ∈ r.lang, y ≠ []) :
    ReadsBetween w r r.lang False := by
  refine ⟨fun {b y a} => ?_, hnonempty, False.elim⟩
  rw [Occurs, mem_ends_iff hr]
  constructor
  · rintro ⟨y', hy', hafter, -⟩
    obtain rfl := List.append_cancel_right hafter
    exact ⟨hy', False.elim⟩
  · rintro ⟨hy, -⟩
    exact ⟨y, hy, rfl, rfl⟩

/-- `\b( ... )\b` around an expression whose texts begin and end in word characters. -/
theorem readsBetween_wholeWord (hr : r.asksNoBoundary = true)
    (hword : ∀ y ∈ r.lang, y.head?.any w = true ∧ y.getLast?.any w = true) :
    ReadsBetween w (wholeWord r) r.lang True := by
  have hnonempty : ∀ y ∈ r.lang, y ≠ [] := by
    rintro y hy rfl
    cases (hword [] hy).1
  refine ⟨fun {b y a} => ?_, hnonempty, fun _ => hword⟩
  have hbounds : ∀ y ∈ r.lang, (atBoundary w ⟨b, y ++ a⟩ = true ↔ b.head?.any w = false) ∧
      (atBoundary w ⟨y.reverse ++ b, a⟩ = true ↔ a.head?.any w = false) := by
    intro y hy
    obtain ⟨hfirst, hlast⟩ := hword y hy
    have hrev : y.reverse ≠ [] := by simpa using hnonempty y hy
    simp only [atBoundary]
    rw [head?_append_of_ne_nil (hnonempty y hy), head?_append_of_ne_nil hrev, List.head?_reverse, hfirst, hlast]
    simp
  simp only [Occurs, wholeWord, ends, List.mem_flatMap, forall_const]
  constructor
  · rintro ⟨m, hm, n, hn, hend⟩
    split at hm
    · rename_i hstart
      obtain rfl := List.mem_singleton.mp hm
      split at hend
      · rename_i hstop
        obtain rfl := List.mem_singleton.mp hend
        obtain ⟨y', hy', hafter, -⟩ := (mem_ends_iff hr).mp hn
        obtain rfl := List.append_cancel_right hafter
        exact ⟨hy', ((hbounds y hy').1.mp hstart), (hbounds y hy').2.mp hstop⟩
      · cases hend
    · cases hm
  · rintro ⟨hy, hb, ha⟩
    refine ⟨⟨b, y ++ a⟩, ?_, ⟨y.reverse ++ b, a⟩, (mem_ends_iff hr).mpr ⟨y, hy, rfl, rfl⟩, ?_⟩
    · rw [if_pos ((hbounds y hy).1.mpr hb)]
      exact List.mem_singleton_self _
    · rw [if_pos ((hbounds y hy).2.mpr ha)]
      exact List.mem_singleton_self _

end Regex

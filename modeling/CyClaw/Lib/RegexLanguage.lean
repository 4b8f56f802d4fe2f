/-
The language of a regular expression.

An expression that asks for no `\b` does not look past the text it reads, so where it may
stop is a matter of which texts it reads, and a text is a hit when it has one of them as a
part.
-/
import CyClaw.Lib.Regex
import Mathlib.Computability.Language

namespace Regex

open Computability

namespace Re

/-- The texts an expression reads, as far as it asks for no boundary. -/
def lang : Re → Language Char
  | .eps => 1
  | .cls p => {t | ∃ c, p c = true ∧ t = [c]}
  | .boundary => 0
  | .seq r s => r.lang * s.lang
  | .alt r s => r.lang + s.lang
  | .star r => r.lang∗

def asksNoBoundary : Re → Bool
  | .eps => true
  | .cls _ => true
  | .boundary => false
  | .seq r s => r.asksNoBoundary && s.asksNoBoundary
  | .alt r s => r.asksNoBoundary && s.asksNoBoundary
  | .star r => r.asksNoBoundary

end Re

/-- The place after the text `y`. -/
def Reads (y : List Char) (z m : Pos) : Prop := z.after = y ++ m.after ∧ m.before = y.reverse ++ z.before

theorem Reads.append {x y : List Char} {z m n : Pos} (h : Reads x z m) (h' : Reads y m n) : Reads (x ++ y) z n := by
  refine ⟨?_, ?_⟩
  · rw [h.1, h'.1, List.append_assoc]
  · rw [h'.2, h.2, List.reverse_append, List.append_assoc]

theorem Reads.split {x y : List Char} {z n : Pos} (h : Reads (x ++ y) z n) :
    Reads x z ⟨x.reverse ++ z.before, y ++ n.after⟩ ∧ Reads y ⟨x.reverse ++ z.before, y ++ n.after⟩ n := by
  refine ⟨⟨?_, rfl⟩, rfl, ?_⟩
  · rw [h.1, List.append_assoc]
  · rw [h.2, List.reverse_append, List.append_assoc]

theorem Reads.length_lt {y : List Char} {z m : Pos} (h : Reads y z m) (hy : y ≠ []) :
    m.after.length < z.after.length := by
  have hpos := List.length_pos_of_ne_nil hy
  rw [h.1, List.length_append]
  omega

variable {w : Char → Bool}

theorem mem_ends_iff {r : Re} (hr : r.asksNoBoundary = true) {z m : Pos} :
    m ∈ ends w r z ↔ ∃ y ∈ r.lang, Reads y z m := by
  induction r generalizing z m with
  | eps =>
      obtain ⟨b, a⟩ := m
      obtain ⟨b', a'⟩ := z
      simp only [ends, List.mem_singleton, Pos.mk.injEq, Re.lang, Language.mem_one, exists_eq_left, Reads,
        List.nil_append, List.reverse_nil]
      exact and_comm.trans (and_congr_left fun _ => eq_comm)
  | cls p =>
      obtain ⟨b, a⟩ := z
      constructor
      · intro h
        cases a with
        | nil => simp [ends] at h
        | cons c a =>
            by_cases hp : p c = true
            · simp only [ends, if_pos hp, List.mem_singleton] at h
              subst h
              exact ⟨[c], ⟨c, hp, rfl⟩, rfl, rfl⟩
            · simp [ends, hp] at h
      · rintro ⟨_, ⟨c, hp, rfl⟩, hafter, hbefore⟩
        obtain ⟨b', a'⟩ := m
        simp only [List.singleton_append, List.reverse_singleton] at hafter hbefore
        simp [ends, hafter, hbefore, hp]
  | boundary => simp [Re.asksNoBoundary] at hr
  | seq r s ihr ihs =>
      rw [Re.asksNoBoundary, Bool.and_eq_true] at hr
      simp only [ends, List.mem_flatMap, ihr hr.1, ihs hr.2, Re.lang, Language.mem_mul]
      constructor
      · rintro ⟨k, ⟨x, hx, hzk⟩, y, hy, hkm⟩
        exact ⟨x ++ y, ⟨x, hx, y, hy, rfl⟩, hzk.append hkm⟩
      · rintro ⟨_, ⟨x, hx, y, hy, rfl⟩, hzm⟩
        exact ⟨_, ⟨x, hx, hzm.split.1⟩, y, hy, hzm.split.2⟩
  | alt r s ihr ihs =>
      rw [Re.asksNoBoundary, Bool.and_eq_true] at hr
      simp only [ends, List.mem_append, ihr hr.1, ihs hr.2, Re.lang, Language.mem_add, or_and_right, exists_or]
  | star r ih =>
      rw [Re.asksNoBoundary] at hr
      rw [mem_ends_star, Re.lang]
      constructor
      · intro h
        induction h using Relation.ReflTransGen.head_induction_on with
        | refl => exact ⟨[], Language.nil_mem_kstar _, rfl, rfl⟩
        | head hround _ ih' =>
            obtain ⟨x, hx, hzk⟩ := (ih hr).mp hround.1
            obtain ⟨y, hy, hkm⟩ := ih'
            obtain ⟨L, rfl, hL⟩ := Language.mem_kstar.mp hy
            refine ⟨x ++ L.flatten, Language.mem_kstar.mpr ⟨x :: L, rfl, ?_⟩, hzk.append hkm⟩
            exact List.forall_mem_cons.mpr ⟨hx, hL⟩
      · rintro ⟨y, hy, hzm⟩
        obtain ⟨L, rfl, hL⟩ := Language.mem_kstar_iff_exists_nonempty.mp hy
        clear hy
        -- Every word is a round, for none of them is empty.
        induction L generalizing z with
        | nil =>
            have hzm' : z = m := by
              obtain ⟨hafter, hbefore⟩ := hzm
              obtain ⟨b, a⟩ := z
              simp only [List.flatten_nil, List.nil_append, List.reverse_nil] at hafter hbefore
              rw [hafter, ← hbefore]
            rw [hzm']
        | cons x L ihL =>
            obtain ⟨⟨hx, hne⟩, hL'⟩ := List.forall_mem_cons.mp hL
            rw [List.flatten_cons] at hzm
            refine Relation.ReflTransGen.head ⟨(ih hr).mpr ⟨x, hx, hzm.split.1⟩, hzm.split.1.length_lt hne⟩ ?_
            exact ihL hL' hzm.split.2

theorem hits_iff_lang {r : Re} (hr : r.asksNoBoundary = true) {t : List Char} :
    hits w r t = true ↔ ∃ x y z, t = x ++ (y ++ z) ∧ y ∈ r.lang := by
  rw [hits_iff]
  constructor
  · rintro ⟨x, a, rfl, hne⟩
    obtain ⟨m, hm⟩ := List.exists_mem_of_ne_nil _ hne
    obtain ⟨y, hy, hafter, -⟩ := (mem_ends_iff hr).mp hm
    exact ⟨x, y, m.after, by rw [← hafter], hy⟩
  · rintro ⟨x, y, z, rfl, hy⟩
    refine ⟨x, y ++ z, rfl, List.ne_nil_of_mem (a := ⟨y.reverse ++ x.reverse, z⟩) ?_⟩
    exact (mem_ends_iff hr).mpr ⟨y, hy, rfl, rfl⟩

/-! ### How the texts of a language begin and end -/

/-- Every text of the language has a first and a last character, apart from each other, with
these properties. -/
def Spans (p q : Char → Prop) (l : Language Char) : Prop :=
  ∀ t ∈ l, ∃ a y c, t = a :: (y ++ [c]) ∧ p a ∧ q c

def StartsIn (p : Char → Prop) (l : Language Char) : Prop := ∀ t ∈ l, ∃ a y, t = a :: y ∧ p a

def EndsIn (q : Char → Prop) (l : Language Char) : Prop := ∀ t ∈ l, ∃ y c, t = y ++ [c] ∧ q c

theorem StartsIn.mul {p : Char → Prop} {l m : Language Char} (h : StartsIn p l) : StartsIn p (l * m) := by
  rintro _ ⟨x, hx, z, _, rfl⟩
  obtain ⟨a, y, rfl, ha⟩ := h x hx
  exact ⟨a, y ++ z, rfl, ha⟩

theorem EndsIn.mul {q : Char → Prop} {l m : Language Char} (h : EndsIn q m) : EndsIn q (l * m) := by
  rintro _ ⟨x, _, z, hz, rfl⟩
  obtain ⟨y, c, rfl, hc⟩ := h z hz
  exact ⟨x ++ y, c, by simp, hc⟩

theorem EndsIn.add {q : Char → Prop} {l m : Language Char} (h : EndsIn q l) (h' : EndsIn q m) : EndsIn q (l + m) := by
  rintro t (ht | ht)
  · exact h t ht
  · exact h' t ht

theorem StartsIn.spans {p q : Char → Prop} {l m : Language Char} (h : StartsIn p l) (h' : EndsIn q m) :
    Spans p q (l * m) := by
  rintro _ ⟨x, hx, z, hz, rfl⟩
  obtain ⟨a, y, rfl, ha⟩ := h x hx
  obtain ⟨y', c, rfl, hc⟩ := h' z hz
  exact ⟨a, y ++ y', c, by simp, ha, hc⟩

/-! ### The characters of the texts of a language -/

theorem exists_class_of_mem_lang {r : Re} {t : List Char} (ht : t ∈ r.lang) {c : Char} (hc : c ∈ t) :
    ∃ p ∈ r.classes, p c = true := by
  induction r generalizing t with
  | eps => rw [Re.lang, Language.mem_one] at ht; simp [ht] at hc
  | cls p =>
      obtain ⟨d, hd, rfl⟩ := ht
      rw [List.mem_singleton] at hc
      exact ⟨p, by simp [Re.classes], by rw [hc]; exact hd⟩
  | boundary => exact absurd ht (Language.notMem_zero t)
  | seq r s ihr ihs =>
      obtain ⟨x, hx, y, hy, rfl⟩ := ht
      obtain hc | hc := List.mem_append.mp hc
      · obtain ⟨p, hp, hpc⟩ := ihr hx hc
        exact ⟨p, List.mem_append_left _ hp, hpc⟩
      · obtain ⟨p, hp, hpc⟩ := ihs hy hc
        exact ⟨p, List.mem_append_right _ hp, hpc⟩
  | alt r s ihr ihs =>
      obtain ht | ht := ht
      · obtain ⟨p, hp, hpc⟩ := ihr ht hc
        exact ⟨p, List.mem_append_left _ hp, hpc⟩
      · obtain ⟨p, hp, hpc⟩ := ihs ht hc
        exact ⟨p, List.mem_append_right _ hp, hpc⟩
  | star r ih =>
      obtain ⟨L, rfl, hL⟩ := Language.mem_kstar.mp ht
      obtain ⟨y, hy, hcy⟩ := List.mem_flatten.mp hc
      exact ih (hL y hy) hcy

/-- A change of characters that no class of the expression notices. -/
theorem map_mem_lang {r : Re} {f : Char → Char} (hf : ∀ p ∈ r.classes, ∀ c, p c = true → p (f c) = true)
    {t : List Char} (ht : t ∈ r.lang) : t.map f ∈ r.lang := by
  induction r generalizing t with
  | eps => rw [Re.lang, Language.mem_one] at ht ⊢; rw [ht]; rfl
  | cls p =>
      obtain ⟨d, hd, rfl⟩ := ht
      exact ⟨f d, hf p (by simp [Re.classes]) d hd, rfl⟩
  | boundary => exact absurd ht (Language.notMem_zero t)
  | seq r s ihr ihs =>
      obtain ⟨x, hx, y, hy, rfl⟩ := ht
      rw [List.map_append]
      exact Language.append_mem_mul (ihr (fun p hp => hf p (List.mem_append_left _ hp)) hx)
        (ihs (fun p hp => hf p (List.mem_append_right _ hp)) hy)
  | alt r s ihr ihs =>
      obtain ht | ht := ht
      · exact Or.inl (ihr (fun p hp => hf p (List.mem_append_left _ hp)) ht)
      · exact Or.inr (ihs (fun p hp => hf p (List.mem_append_right _ hp)) ht)
  | star r ih =>
      obtain ⟨L, rfl, hL⟩ := Language.mem_kstar.mp ht
      rw [List.map_flatten]
      refine Language.join_mem_kstar ?_
      intro y hy
      obtain ⟨x, hx, rfl⟩ := List.mem_map.mp hy
      exact ih hf (hL x hx)

theorem mem_lang_literal {same : Char → Char → Bool} {k t : List Char} :
    t ∈ (literal same k).lang ↔ List.Forall₂ (fun c d => same c d = true) k t := by
  induction k generalizing t with
  | nil => rw [literal, Re.lang, Language.mem_one, List.forall₂_nil_left_iff]
  | cons c k ih =>
      rw [literal, Re.lang, Language.mem_mul, List.forall₂_cons_left_iff]
      constructor
      · rintro ⟨_, ⟨d, hd, rfl⟩, y, hy, rfl⟩
        exact ⟨d, y, hd, ih.mp hy, rfl⟩
      · rintro ⟨d, y, hd, hy, rfl⟩
        exact ⟨[d], ⟨d, hd, rfl⟩, y, ih.mpr hy, rfl⟩

theorem startsIn_literal {same : Char → Char → Bool} {p : Char → Prop} {c : Char} {k : List Char}
    (hk : k.head? = some c) (h : ∀ d, same c d = true → p d) : StartsIn p (literal same k).lang := by
  intro t ht
  obtain ⟨k', rfl⟩ := List.head?_eq_some_iff.mp hk
  obtain ⟨d, y, hd, -, rfl⟩ := List.forall₂_cons_left_iff.mp (mem_lang_literal.mp ht)
  exact ⟨d, y, rfl, h d hd⟩

theorem endsIn_literal {same : Char → Char → Bool} {q : Char → Prop} {c : Char} {k : List Char}
    (hk : k.getLast? = some c) (h : ∀ d, same c d = true → q d) : EndsIn q (literal same k).lang := by
  intro t ht
  obtain ⟨k', rfl⟩ := List.getLast?_eq_some_iff.mp hk
  have hspelled := mem_lang_literal.mp ht
  clear hk ht
  induction k' generalizing t with
  | nil =>
      obtain ⟨d, y, hd, hy, rfl⟩ := List.forall₂_cons_left_iff.mp hspelled
      rw [List.forall₂_nil_left_iff] at hy
      exact ⟨[], d, by rw [hy]; rfl, h d hd⟩
  | cons b k' ih =>
      obtain ⟨d, y, -, hy, rfl⟩ := List.forall₂_cons_left_iff.mp hspelled
      obtain ⟨z, e, rfl, he⟩ := ih y hy
      exact ⟨d :: z, e, rfl, he⟩

/-! ### One class over and over -/

theorem mem_lang_star {p : Char → Bool} {t : List Char} : t ∈ (Re.star (.cls p)).lang ↔ ∀ c ∈ t, p c = true := by
  constructor
  · intro ht c hc
    obtain ⟨q, hq, hqc⟩ := exists_class_of_mem_lang ht hc
    rwa [List.mem_singleton.mp hq] at hqc
  · intro h
    refine Language.mem_kstar.mpr ⟨t.map fun c => [c], ?_, ?_⟩
    · rw [← List.flatMap_def, List.flatMap_singleton']
    · intro y hy
      obtain ⟨c, hc, rfl⟩ := List.mem_map.mp hy
      exact ⟨c, h c hc, rfl⟩

theorem mem_lang_plus {p : Char → Bool} {t : List Char} : t ∈ (Re.cls p).plus.lang ↔ t ≠ [] ∧ ∀ c ∈ t, p c = true := by
  rw [Re.plus, Re.lang, Language.mem_mul]
  constructor
  · rintro ⟨_, ⟨c, hc, rfl⟩, y, hy, rfl⟩
    exact ⟨List.cons_ne_nil c y, List.forall_mem_cons.mpr ⟨hc, mem_lang_star.mp hy⟩⟩
  · rintro ⟨hne, h⟩
    obtain ⟨c, y, rfl⟩ := List.exists_cons_of_ne_nil hne
    obtain ⟨hc, hy⟩ := List.forall_mem_cons.mp h
    exact ⟨[c], ⟨c, hc, rfl⟩, y, mem_lang_star.mpr hy, rfl⟩

/-! ### Groups -/

section Groups

variable {pre grp post : Re} {z : Pos} {g b a : List Char}

/-- What the group of `pre(grp)post` holds in the match that starts at a place. -/
def groupHere (w : Char → Bool) (pre grp post : Re) (z : Pos) : Option (List Char) :=
  (ends w pre z).findSome? fun m =>
    ((ends w grp m).find? fun n => !(ends w post n).isEmpty).map fun n => m.after.take (m.after.length - n.after.length)

theorem groupFrom_of_some (h : groupHere w pre grp post ⟨b, a⟩ = some g) : groupFrom w pre grp post b a = some g := by
  unfold groupHere at h
  unfold groupFrom
  rw [h]

theorem groupFrom_nil (h : groupHere w pre grp post ⟨b, []⟩ = none) : groupFrom w pre grp post b [] = none := by
  unfold groupHere at h
  unfold groupFrom
  rw [h]

theorem groupFrom_cons {c : Char} (h : groupHere w pre grp post ⟨b, c :: a⟩ = none) :
    groupFrom w pre grp post b (c :: a) = groupFrom w pre grp post (c :: b) a := by
  unfold groupHere at h
  conv_lhs => unfold groupFrom
  rw [h]

/-- A text begins with a match, `g` in its group. -/
def Groups (pre grp post : Re) (g t : List Char) : Prop :=
  ∃ x y rest, t = x ++ (g ++ (y ++ rest)) ∧ x ∈ pre.lang ∧ g ∈ grp.lang ∧ y ∈ post.lang

theorem groupHere_sound (hpre : pre.asksNoBoundary = true) (hgrp : grp.asksNoBoundary = true)
    (hpost : post.asksNoBoundary = true) (h : groupHere w pre grp post z = some g) : Groups pre grp post g z.after := by
  obtain ⟨m, hm, hfound⟩ := List.exists_of_findSome?_eq_some h
  obtain ⟨n, hfind, htake⟩ := Option.map_eq_some_iff.mp hfound
  obtain ⟨x, hx, hzm⟩ := (mem_ends_iff hpre).mp hm
  obtain ⟨g', hg, hmn⟩ := (mem_ends_iff hgrp).mp (List.mem_of_find?_eq_some hfind)
  have hgroup : g' = g := by
    rw [← htake, hmn.1, List.length_append, Nat.add_sub_cancel, List.take_left]
  have hends : ends w post n ≠ [] := by simpa using List.find?_some hfind
  obtain ⟨k, hk⟩ := List.exists_mem_of_ne_nil _ hends
  obtain ⟨y, hy, hnk⟩ := (mem_ends_iff hpost).mp hk
  refine ⟨x, y, k.after, ?_, hx, hgroup ▸ hg, hy⟩
  rw [hzm.1, hmn.1, hnk.1, hgroup]

theorem groupHere_complete (hpre : pre.asksNoBoundary = true) (hgrp : grp.asksNoBoundary = true)
    (hpost : post.asksNoBoundary = true) (h : Groups pre grp post g z.after) :
    ∃ g', groupHere w pre grp post z = some g' := by
  obtain ⟨x, y, rest, hafter, hx, hg, hy⟩ := h
  have hm : (⟨x.reverse ++ z.before, g ++ (y ++ rest)⟩ : Pos) ∈ ends w pre z := (mem_ends_iff hpre).mpr ⟨x, hx, hafter, rfl⟩
  have hn : (⟨g.reverse ++ (x.reverse ++ z.before), y ++ rest⟩ : Pos) ∈ ends w grp ⟨x.reverse ++ z.before, g ++ (y ++ rest)⟩ :=
    (mem_ends_iff hgrp).mpr ⟨g, hg, rfl, rfl⟩
  have hk : (⟨y.reverse ++ (g.reverse ++ (x.reverse ++ z.before)), rest⟩ : Pos) ∈
      ends w post ⟨g.reverse ++ (x.reverse ++ z.before), y ++ rest⟩ :=
    (mem_ends_iff hpost).mpr ⟨y, hy, rfl, rfl⟩
  cases hhere : groupHere w pre grp post z with
  | some g' => exact ⟨g', rfl⟩
  | none =>
      exfalso
      have hnone := List.findSome?_eq_none_iff.mp hhere _ hm
      rw [Option.map_eq_none_iff, List.find?_eq_none] at hnone
      exact hnone _ hn (by simpa using List.ne_nil_of_mem hk)

end Groups

end Regex

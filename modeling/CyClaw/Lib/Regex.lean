/-
Backtracking regular expressions.

`ends` lists the places where a match that starts here may stop, in the order a
backtracking matcher tries them, so its head is the match such a matcher reports.  A
place in the text is a `Pos`: the characters before it, nearest first, and the
characters after it.  Carrying both sides is what `\b` needs, because a boundary is a
property of the two neighbours.

The results are about moving a match from one text to another.  `ends_map` says when a
map of places carries matches to matches; `ends_extend` is the case where a text is put
between two neighbours that are not word characters, and `ends_double` the case where
every occurrence of one character is doubled.
-/
import Mathlib.Data.List.Basic
import Mathlib.Data.List.Infix
import Mathlib.Logic.Relation

namespace Regex

/-- A place in a text. -/
structure Pos where
  before : List Char
  after : List Char
deriving DecidableEq, Repr

inductive Re where
  | eps
  | cls (p : Char → Bool)
  | boundary
  | seq (r s : Re)
  | alt (r s : Re)
  | star (r : Re)

/-- `\b`: exactly one of the two neighbours is a word character. -/
def atBoundary (w : Char → Bool) (z : Pos) : Bool :=
  z.before.head?.any w != z.after.head?.any w

/-- Greedy repetition.  A round that consumes nothing is not tried again. -/
def starEnds (step : Pos → List Pos) : Nat → Pos → List Pos
  | 0, z => [z]
  | n + 1, z =>
      ((step z).filter fun m => m.after.length < z.after.length).flatMap (starEnds step n) ++ [z]

/-- Where a match starting at a place may stop, preferred ends first. -/
def ends (w : Char → Bool) : Re → Pos → List Pos
  | .eps, z => [z]
  | .cls p, z =>
      match z.after with
      | [] => []
      | c :: a => if p c then [⟨c :: z.before, a⟩] else []
  | .boundary, z => if atBoundary w z then [z] else []
  | .seq r s, z => (ends w r z).flatMap (ends w s)
  | .alt r s, z => ends w r z ++ ends w s z
  | .star r, z => starEnds (ends w r) z.after.length z

/-- The character classes of an expression. -/
def Re.classes : Re → List (Char → Bool)
  | .eps => []
  | .cls p => [p]
  | .boundary => []
  | .seq r s => r.classes ++ s.classes
  | .alt r s => r.classes ++ s.classes
  | .star r => r.classes

/-- One or more. -/
def Re.plus (r : Re) : Re := .seq r (.star r)

/-- A choice among several, earlier ones first. -/
def alts : List Re → Re
  | [] => .cls fun _ => false
  | r :: rs => .alt r (alts rs)

/-- A fixed text, each of its characters read through `same`. -/
def literal (same : Char → Char → Bool) : List Char → Re
  | [] => .eps
  | c :: cs => .seq (.cls (same c)) (literal same cs)

/-- `\b( ... )\b`. -/
def wholeWord (r : Re) : Re := .seq .boundary (.seq r .boundary)

/-- The leftmost match from a place on, as text. -/
def searchFrom (w : Char → Bool) (r : Re) : List Char → List Char → Option (List Char)
  | b, [] => if (ends w r ⟨b, []⟩).isEmpty then none else some []
  | b, c :: a =>
      match ends w r ⟨b, c :: a⟩ with
      | m :: _ => some ((c :: a).take ((c :: a).length - m.after.length))
      | [] => searchFrom w r (c :: b) a

/-- The leftmost match in a text. -/
def search (w : Char → Bool) (r : Re) (t : List Char) : Option (List Char) := searchFrom w r [] t

/-- The text a group holds in the leftmost match of `pre(grp)post` from a place on. -/
def groupFrom (w : Char → Bool) (pre grp post : Re) : List Char → List Char → Option (List Char)
  | b, a =>
      let here := (ends w pre ⟨b, a⟩).findSome? fun m =>
        ((ends w grp m).find? fun n => !(ends w post n).isEmpty).map fun n =>
          m.after.take (m.after.length - n.after.length)
      match here, a with
      | some g, _ => some g
      | none, [] => none
      | none, c :: a => groupFrom w pre grp post (c :: b) a

/-- The text of the group in the leftmost match of `pre(grp)post`. -/
def group (w : Char → Bool) (pre grp post : Re) (t : List Char) : Option (List Char) :=
  groupFrom w pre grp post [] t

/-- Some part of the text matches. -/
def hits (w : Char → Bool) (r : Re) (t : List Char) : Bool := (search w r t).isSome

variable {w : Char → Bool}

/-! ### What a match does to a place -/

/-- A place further right in the same text. -/
def Advances (z m : Pos) : Prop :=
  ∃ x, z.after = x ++ m.after ∧ m.before = x.reverse ++ z.before

theorem Advances.refl (z : Pos) : Advances z z := ⟨[], rfl, rfl⟩

theorem Advances.trans {z m n : Pos} (h : Advances z m) (h' : Advances m n) : Advances z n := by
  obtain ⟨x, hx, hx'⟩ := h
  obtain ⟨y, hy, hy'⟩ := h'
  refine ⟨x ++ y, ?_, ?_⟩
  · rw [hx, hy, List.append_assoc]
  · rw [hy', hx', List.reverse_append, List.append_assoc]

/-- One round of a repetition. -/
def Round (step : Pos → List Pos) (z m : Pos) : Prop :=
  m ∈ step z ∧ m.after.length < z.after.length

theorem starEnds_sound {step : Pos → List Pos} {n : Nat} {z m : Pos} (h : m ∈ starEnds step n z) :
    Relation.ReflTransGen (Round step) z m := by
  induction n generalizing z with
  | zero =>
      rw [starEnds, List.mem_singleton] at h
      rw [h]
  | succ n ih =>
      rw [starEnds, List.mem_append, List.mem_singleton, List.mem_flatMap] at h
      obtain ⟨k, hk, hm⟩ | rfl := h
      · rw [List.mem_filter, decide_eq_true_eq] at hk
        exact Relation.ReflTransGen.head hk (ih hm)
      · exact Relation.ReflTransGen.refl

theorem starEnds_complete {step : Pos → List Pos} {n : Nat} {z m : Pos}
    (h : Relation.ReflTransGen (Round step) z m) (hn : z.after.length ≤ n) :
    m ∈ starEnds step n z := by
  induction h using Relation.ReflTransGen.head_induction_on generalizing n with
  | refl => cases n <;> simp [starEnds]
  | @head z k hround _ ih =>
      -- A round consumes, so there was fuel for it.
      obtain ⟨hk, hlt⟩ := hround
      obtain ⟨n, rfl⟩ : ∃ n', n = n' + 1 := ⟨n - 1, by omega⟩
      rw [starEnds, List.mem_append, List.mem_flatMap]
      refine Or.inl ⟨k, ?_, ih (by omega)⟩
      rw [List.mem_filter, decide_eq_true_eq]
      exact ⟨hk, hlt⟩

theorem mem_ends_star {r : Re} {z m : Pos} :
    m ∈ ends w (.star r) z ↔ Relation.ReflTransGen (Round (ends w r)) z m :=
  ⟨starEnds_sound, fun h => starEnds_complete h (Nat.le_refl _)⟩

theorem ends_advances {r : Re} {z m : Pos} (h : m ∈ ends w r z) : Advances z m := by
  induction r generalizing z m with
  | eps =>
      rw [ends, List.mem_singleton] at h
      rw [h]
      exact Advances.refl z
  | cls p =>
      obtain ⟨b, a⟩ := z
      cases a with
      | nil => simp [ends] at h
      | cons c a =>
          by_cases hp : p c = true
          · simp only [ends, hp, if_true, List.mem_singleton] at h
            subst h
            exact ⟨[c], rfl, rfl⟩
          · simp [ends, hp] at h
  | boundary =>
      rw [ends] at h
      split at h
      · rw [List.mem_singleton] at h
        rw [h]
        exact Advances.refl z
      · simp at h
  | seq r s ihr ihs =>
      rw [ends, List.mem_flatMap] at h
      obtain ⟨k, hk, hm⟩ := h
      exact (ihr hk).trans (ihs hm)
  | alt r s ihr ihs =>
      rw [ends, List.mem_append] at h
      obtain h | h := h
      · exact ihr h
      · exact ihs h
  | star r ih =>
      rw [mem_ends_star] at h
      induction h with
      | refl => exact Advances.refl z
      | tail _ hround ih' => exact ih'.trans (ih hround.1)

/-! ### Moving a match to another text -/

/-- What a map of places has to respect for matches to follow it. -/
structure Carries (w : Char → Bool) (r : Re) (f : Pos → Pos) : Prop where
  step : ∀ p ∈ r.classes, ∀ b c a, p c = true →
    f ⟨c :: b, a⟩ ∈ ends w (.cls p) (f ⟨b, c :: a⟩)
  boundary : ∀ z, atBoundary w (f z) = atBoundary w z
  shrinks : ∀ z m, Advances z m → m.after.length < z.after.length →
    (f m).after.length < (f z).after.length

theorem ends_map {r : Re} {f : Pos → Pos} (hf : Carries w r f) {z m : Pos}
    (h : m ∈ ends w r z) : f m ∈ ends w r (f z) := by
  induction r generalizing z m with
  | eps =>
      rw [ends, List.mem_singleton] at h
      rw [h, ends, List.mem_singleton]
  | cls p =>
      obtain ⟨b, a⟩ := z
      cases a with
      | nil => simp [ends] at h
      | cons c a =>
          by_cases hp : p c = true
          · simp only [ends, hp, if_true, List.mem_singleton] at h
            rw [h]
            exact hf.step p (by simp [Re.classes]) b c a hp
          · simp [ends, hp] at h
  | boundary =>
      rw [ends] at h ⊢
      rw [hf.boundary]
      split at h
      · rename_i hb
        rw [List.mem_singleton] at h
        simp [hb, h]
      · simp at h
  | seq r s ihr ihs =>
      have hr : Carries w r f :=
        ⟨fun p hp => hf.step p (by simp [Re.classes, hp]), hf.boundary, hf.shrinks⟩
      have hs : Carries w s f :=
        ⟨fun p hp => hf.step p (by simp [Re.classes, hp]), hf.boundary, hf.shrinks⟩
      rw [ends, List.mem_flatMap] at h ⊢
      obtain ⟨k, hk, hm⟩ := h
      exact ⟨f k, ihr hr hk, ihs hs hm⟩
  | alt r s ihr ihs =>
      have hr : Carries w r f :=
        ⟨fun p hp => hf.step p (by simp [Re.classes, hp]), hf.boundary, hf.shrinks⟩
      have hs : Carries w s f :=
        ⟨fun p hp => hf.step p (by simp [Re.classes, hp]), hf.boundary, hf.shrinks⟩
      rw [ends, List.mem_append] at h ⊢
      exact h.imp (ihr hr) (ihs hs)
  | star r ih =>
      have hr : Carries w r f := ⟨hf.step, hf.boundary, hf.shrinks⟩
      rw [mem_ends_star] at h ⊢
      induction h with
      | refl => exact Relation.ReflTransGen.refl
      | tail _ hround ih' =>
          refine ih'.tail ⟨ih hr hround.1, ?_⟩
          exact hf.shrinks _ _ (ends_advances hround.1) hround.2

/-- A text put between two neighbours. -/
def Pos.extend (B A : List Char) (z : Pos) : Pos := ⟨z.before ++ B, z.after ++ A⟩

/-- A match survives putting its text between neighbours that are not word characters. -/
theorem ends_extend {r : Re} {B A : List Char} (hB : B.head?.any w = false)
    (hA : A.head?.any w = false) {z m : Pos} (h : m ∈ ends w r z) :
    m.extend B A ∈ ends w r (z.extend B A) := by
  refine ends_map ⟨?_, ?_, ?_⟩ h
  · intro p _ b c a hp
    simp [Pos.extend, ends, hp]
  · intro z
    -- Where the old text ends, a missing neighbour and a non-word one count the same.
    have hb : (z.before ++ B).head?.any w = z.before.head?.any w := by
      cases hz : z.before with
      | nil => simpa using hB
      | cons c b => rfl
    have ha : (z.after ++ A).head?.any w = z.after.head?.any w := by
      cases hz : z.after with
      | nil => simpa using hA
      | cons c a => rfl
    simp only [atBoundary, Pos.extend, hb, ha]
  · intro z m _ hlt
    simp only [Pos.extend, List.length_append]
    omega

/-- Every occurrence of `q` written twice. -/
def double (q : Char) : List Char → List Char
  | [] => []
  | c :: t => if c = q then c :: c :: double q t else c :: double q t

theorem double_append (q : Char) (s t : List Char) :
    double q (s ++ t) = double q s ++ double q t := by
  induction s with
  | nil => rfl
  | cons c s ih =>
      rw [List.cons_append, double, double, ih]
      split <;> simp

theorem head?_double (q : Char) (t : List Char) : (double q t).head? = t.head? := by
  cases t with
  | nil => rfl
  | cons c t =>
      rw [double]
      split <;> rfl

theorem length_le_double (q : Char) (t : List Char) : t.length ≤ (double q t).length := by
  induction t with
  | nil => exact Nat.le_refl _
  | cons c t ih =>
      rw [double]
      split <;> simp only [List.length_cons] <;> omega

/-- A match of an expression that never reads `q` survives doubling the `q`s. -/
theorem ends_double {r : Re} {q : Char} (hq : ∀ p ∈ r.classes, p q = false) {z m : Pos}
    (h : m ∈ ends w r z) :
    (⟨double q m.before, double q m.after⟩ : Pos) ∈
      ends w r ⟨double q z.before, double q z.after⟩ := by
  refine ends_map (f := fun z => ⟨double q z.before, double q z.after⟩) ⟨?_, ?_, ?_⟩ h
  · intro p hp b c a hpc
    have hne : c ≠ q := by
      rintro rfl
      rw [hq p hp] at hpc
      cases hpc
    simp [double, hne, ends, hpc]
  · intro z
    simp only [atBoundary, head?_double]
  · intro z m hzm hlt
    obtain ⟨x, hx, -⟩ := hzm
    have hpos : 0 < x.length := by
      rw [hx, List.length_append] at hlt
      omega
    have hdouble := length_le_double q x
    simp only [hx, double_append, List.length_append]
    omega

/-! ### Searching -/

theorem searchFrom_isSome {r : Re} {b t : List Char} :
    (searchFrom w r b t).isSome = true ↔
      ∃ x a, t = x ++ a ∧ ends w r ⟨x.reverse ++ b, a⟩ ≠ [] := by
  induction t generalizing b with
  | nil =>
      rw [searchFrom]
      by_cases h : ends w r ⟨b, []⟩ = [] <;> simp [h]
  | cons c t ih =>
      rw [searchFrom]
      split
      · rename_i m ms hm
        refine iff_of_true rfl ⟨[], c :: t, rfl, ?_⟩
        simp [hm]
      · rename_i hm
        rw [ih]
        constructor
        · rintro ⟨x, a, rfl, hne⟩
          exact ⟨c :: x, a, rfl, by simpa using hne⟩
        · rintro ⟨x, a, ht, hne⟩
          obtain - | ⟨d, x⟩ := x
          · rw [List.nil_append] at ht
            rw [← ht] at hne
            exact absurd hm hne
          · obtain ⟨rfl, rfl⟩ : c = d ∧ t = x ++ a := by simpa using ht
            exact ⟨x, a, rfl, by simpa using hne⟩

theorem hits_iff {r : Re} {t : List Char} :
    hits w r t = true ↔ ∃ x a, t = x ++ a ∧ ends w r ⟨x.reverse, a⟩ ≠ [] := by
  rw [hits, search, searchFrom_isSome]
  simp only [List.append_nil]

/-- A hit survives putting its text between neighbours that are not word characters. -/
theorem hits_between {r : Re} {s t u : List Char} (h : hits w r t = true)
    (hs : s.getLast?.any w = false) (hu : u.head?.any w = false) :
    hits w r (s ++ t ++ u) = true := by
  rw [hits_iff] at h ⊢
  obtain ⟨x, a, rfl, hne⟩ := h
  obtain ⟨m, hm⟩ := List.exists_mem_of_ne_nil _ hne
  have hs' : s.reverse.head?.any w = false := by rwa [List.head?_reverse]
  refine ⟨s ++ x, a ++ u, by simp, List.ne_nil_of_mem ?_ (a := m.extend s.reverse u)⟩
  have hext := ends_extend hs' hu hm
  simpa [Pos.extend] using hext

/-- A hit of an expression that never reads `q` survives doubling the `q`s. -/
theorem hits_double {r : Re} {q : Char} (hq : ∀ p ∈ r.classes, p q = false) {t : List Char}
    (h : hits w r t = true) : hits w r (double q t) = true := by
  have hrev : ∀ x : List Char, double q x.reverse = (double q x).reverse := by
    intro x
    induction x with
    | nil => rfl
    | cons c x ih =>
        rw [List.reverse_cons, double_append, ih]
        by_cases hc : c = q <;> simp [double, hc]
  rw [hits_iff] at h ⊢
  obtain ⟨x, a, rfl, hne⟩ := h
  obtain ⟨m, hm⟩ := List.exists_mem_of_ne_nil _ hne
  refine ⟨double q x, double q a, double_append q x a, ?_⟩
  rw [← hrev]
  exact List.ne_nil_of_mem (ends_double hq hm)

/-! ### Fixed words -/

theorem mem_ends_literal {same : Char → Char → Bool} {k t : List Char} (b a : List Char)
    (h : List.Forall₂ (fun c d => same c d = true) k t) :
    (⟨t.reverse ++ b, a⟩ : Pos) ∈ ends w (literal same k) ⟨b, t ++ a⟩ := by
  induction h generalizing b with
  | nil => simp [literal, ends]
  | @cons c d k t hcd _ ih =>
      rw [literal, ends, List.mem_flatMap]
      refine ⟨⟨d :: b, t ++ a⟩, ?_, ?_⟩
      · simp [ends, hcd]
      · simpa using ih (d :: b)

theorem mem_ends_alts {rs : List Re} {r : Re} (hr : r ∈ rs) {z m : Pos} (h : m ∈ ends w r z) :
    m ∈ ends w (alts rs) z := by
  induction rs with
  | nil => simp at hr
  | cons r' rs ih =>
      rw [alts, ends, List.mem_append]
      obtain rfl | hr := List.mem_cons.mp hr
      · exact Or.inl h
      · exact Or.inr (ih hr)

/-- A text that spells one of the words, and starts and ends in word characters, is a hit. -/
theorem hits_wholeWord {same : Char → Char → Bool} {ks : List (List Char)} {k t : List Char}
    (hk : k ∈ ks) (h : List.Forall₂ (fun c d => same c d = true) k t)
    (hfirst : t.head?.any w = true) (hlast : t.getLast?.any w = true) :
    hits w (wholeWord (alts (ks.map (literal same)))) t = true := by
  rw [hits_iff]
  refine ⟨[], t, rfl, List.ne_nil_of_mem (a := ⟨t.reverse, []⟩) ?_⟩
  have hword : (⟨t.reverse, []⟩ : Pos) ∈ ends w (alts (ks.map (literal same))) ⟨[], t⟩ := by
    refine mem_ends_alts (List.mem_map_of_mem hk) ?_
    simpa using mem_ends_literal (w := w) [] [] h
  rw [wholeWord, ends, List.mem_flatMap]
  refine ⟨⟨[], t⟩, ?_, ?_⟩
  · simp [ends, atBoundary, hfirst]
  · rw [ends, List.mem_flatMap]
    refine ⟨⟨t.reverse, []⟩, hword, ?_⟩
    have hlast' : t.reverse.head?.any w = true := by rwa [List.head?_reverse]
    simp only [ends, atBoundary, hlast']
    simp

end Regex

/-
What the patterns are matched against, `utils/sanitizer.py`.

`normalizeForMatch` puts a text in the form NFKC and then drops the characters that render as
nothing.  A pattern that matches a text matches what is left of it unless every place that
spells the pattern ends in a letter that a mark after it composes with: the letter is then
another one.  Dropping characters comes last, so what it brings together is composed only
when the text is normalized again.
-/
import CyClaw.Lib.Normalization
import CyClaw.Lib.RegexLanguage
import CyClaw.Sql.Guard

namespace CyClaw.Sanitizer

open PyText Regex Normalization
open CyClaw.Sql (caseless caselessWord)

/-! ### The patterns -/

/-- An expression with the text it is written in. -/
structure Pattern where
  source : List Char
  re : Re

/-- `\s+` -/
def gap : Re := .plus (.cls isSpace)

/-- `\s*:` -/
def colon : Re := .seq (.star (.cls isSpace)) (.cls (· == ':'))

/-- `(previous|all|prior)` -/
def earlier : Re := .alt (caselessWord "previous") (.alt (caselessWord "all") (caselessWord "prior"))

/-- `_CORE_INJECTION_PATTERNS`, compiled with `IGNORECASE`.  None of them has a dot, so `DOTALL`
makes no difference to them. -/
def coreInjectionPatterns : List Pattern :=
  [⟨"ignore\\s+(previous|all|prior)\\s+instructions".toList,
      .seq (caselessWord "ignore") (.seq gap (.seq earlier (.seq gap (caselessWord "instructions"))))⟩,
    ⟨"disregard\\s+(previous|all|prior)".toList, .seq (caselessWord "disregard") (.seq gap earlier)⟩,
    ⟨"forget\\s+(previous|all|prior)\\s+instructions".toList,
      .seq (caselessWord "forget") (.seq gap (.seq earlier (.seq gap (caselessWord "instructions"))))⟩,
    ⟨"new\\s+instructions\\s*:".toList,
      .seq (caselessWord "new") (.seq gap (.seq (caselessWord "instructions") colon))⟩,
    ⟨"system\\s+prompt\\s*:".toList,
      .seq (caselessWord "system") (.seq gap (.seq (caselessWord "prompt") colon))⟩,
    ⟨"override\\s+instructions".toList, .seq (caselessWord "override") (.seq gap (caselessWord "instructions"))⟩,
    ⟨"jailbreak".toList, caselessWord "jailbreak"⟩,
    ⟨"DAN\\s+mode".toList, .seq (caselessWord "dan") (.seq gap (caselessWord "mode"))⟩,
    ⟨"developer\\s+mode".toList, .seq (caselessWord "developer") (.seq gap (caselessWord "mode"))⟩]

/-- `pattern.search(t)`.  No pattern here asks for `\b`, so it is left open what a word is. -/
def search (r : Re) (t : List Char) : Bool := hits (fun _ => false) r t

/-! ### The text they are matched against -/

/-- `_INVISIBLE_CHARS`. -/
def isInvisible (c : Char) : Bool :=
  let n := c.toNat
  (0x200B ≤ n && n ≤ 0x200F) || n == 0x2060 || n == 0xFEFF || n == 0xAD

/-- `_INVISIBLE_CHARS.sub("", t)`. -/
def visible (t : List Char) : List Char := t.filter fun c => !isInvisible c

/-- The letters beyond ASCII that some ASCII letter stands for under `IGNORECASE`. -/
def foldedLetters : List Char := ['ſ', '\u212A', 'İ', 'ı']

/-- A character that a pattern may read. -/
def Readable (c : Char) : Prop := c.toNat < 128 ∨ isSpace c = true ∨ c ∈ foldedLetters

/-- The character data of `unicodedata`, with what it says of the characters that the patterns
read and of the invisible ones. -/
structure Unicode extends CharData Char where
  ascii_decomp : ∀ c, c.toNat < 128 → decomp c = [c]
  space_decomp : ∀ c, isSpace c = true → ∃ d, isSpace d = true ∧ decomp c = [d]
  longS_decomp : decomp 'ſ' = ['s']
  kelvin_decomp : decomp '\u212A' = ['K']
  dotless_decomp : decomp 'ı' = ['ı']
  dotted_decomp : decomp 'İ' = ['I', '\u0307']
  dotted_composite : composite 'I' '\u0307' = some 'İ'
  readable_boundary : ∀ c, Readable c → toCharData.Boundary c
  invisible_decomp : ∀ c d, isInvisible d = true → (d ∈ decomp c ↔ c = d)
  invisible_boundary : ∀ c, isInvisible c = true → toCharData.Boundary c
  invisible_inert : ∀ c d, isInvisible c = true → composite c d = none

/-- `_normalize_for_match`. -/
def normalizeForMatch (u : Unicode) (t : List Char) : List Char := visible (u.nfkc t)

/-! ### Spelling a pattern -/

/-- Somewhere the decomposed text spells the expression: the stretch composes by itself to a
text of the expression and invisible characters, and its last character takes no mark of what
follows. -/
def Spells (u : Unicode) (r : Re) (t : List Char) : Prop :=
  ∃ x a y c z, u.nfkd t = x ++ a :: (y ++ c :: z) ∧ u.Boundary a ∧ u.Boundary c ∧
    visible (u.compose (a :: (y ++ [c]))) ∈ r.lang ∧ ¬u.Absorbs c z

/-- A class of the patterns. -/
def Classed (p : Char → Bool) : Prop := (∃ k, k.toNat < 128 ∧ p = caseless k) ∨ p = isSpace ∨ p = (· == ':')

/-- A character that decomposes to one. -/
def Lone (c : Char) : Prop := Readable c ∧ c ≠ 'İ'

/-- An expression over these classes. -/
structure Built (r : Re) : Prop where
  noBoundary : r.asksNoBoundary = true
  classes : ∀ p ∈ r.classes, Classed p

/-- What the patterns have in common. -/
structure Plain (r : Re) : Prop extends Built r where
  spans : Spans (isSpace · = false) (fun c => Lone c ∧ isSpace c = false) r.lang

/-! ### The characters the patterns read -/

theorem caseless_cases {k c : Char} (hk : k.toNat < 128) (h : caseless k c = true) :
    c.toNat < 128 ∨ (k = 'i' ∧ (c = 'İ' ∨ c = 'ı')) ∨ (k = 's' ∧ c = 'ſ') ∨ (k = 'k' ∧ c = '\u212A') := by
  have hchar : ∀ {d : Char}, c.toNat = d.toNat → c = d := Char.toNat_inj.mp
  simp only [caseless, Bool.or_eq_true, Bool.and_eq_true, beq_iff_eq] at h
  obtain ((hlower | ⟨hi, hc | hc⟩) | ⟨hs, hc⟩) | ⟨hk', hc⟩ := h
  · left
    have hnat := toNat_toLower c
    rw [hlower] at hnat
    split at hnat <;> omega
  · exact Or.inr (Or.inl ⟨hi, Or.inl (hchar hc)⟩)
  · exact Or.inr (Or.inl ⟨hi, Or.inr (hchar hc)⟩)
  · exact Or.inr (Or.inr (Or.inl ⟨hs, hchar hc⟩))
  · exact Or.inr (Or.inr (Or.inr ⟨hk', hchar hc⟩))

theorem Classed.readable {p : Char → Bool} (hp : Classed p) {c : Char} (hc : p c = true) : Readable c := by
  obtain ⟨k, hk, rfl⟩ | rfl | rfl := hp
  · obtain hascii | ⟨-, rfl | rfl⟩ | ⟨-, rfl⟩ | ⟨-, rfl⟩ := caseless_cases hk hc
    · exact Or.inl hascii
    all_goals exact Or.inr (Or.inr (by decide))
  · exact Or.inr (Or.inl hc)
  · rw [beq_iff_eq] at hc
    exact Or.inl (by rw [hc]; decide)

theorem not_isInvisible {c : Char} (h : Readable c) : isInvisible c = false := by
  obtain hascii | hspace | hfolded := h
  · simp only [isInvisible, Bool.or_eq_false_iff, Bool.and_eq_false_iff, decide_eq_false_iff_not, beq_eq_false_iff_ne]
    omega
  · simp only [isSpace, Bool.or_eq_true, Bool.and_eq_true, decide_eq_true_eq, beq_iff_eq] at hspace
    simp only [isInvisible, Bool.or_eq_false_iff, Bool.and_eq_false_iff, decide_eq_false_iff_not, beq_eq_false_iff_ne]
    omega
  · have hall : ∀ d ∈ foldedLetters, isInvisible d = false := by decide
    exact hall c hfolded

variable {u : Unicode}

/-- What normalization makes of a character by itself. -/
def folded (u : Unicode) (c : Char) : Char := (u.nfkc [c]).headD c

theorem folded_of_decomp {c d : Char} (h : u.decomp c = [d]) : folded u c = d := by
  rw [folded, CharData.nfkc_singleton h]
  rfl

theorem folded_ascii {c : Char} (h : c.toNat < 128) : folded u c = c := folded_of_decomp (u.ascii_decomp c h)

theorem folded_space {c : Char} (h : isSpace c = true) : isSpace (folded u c) = true := by
  obtain ⟨d, hd, hdecomp⟩ := u.space_decomp c h
  rwa [folded_of_decomp hdecomp]

/-- The mark of the dotted capital is taken at once. -/
theorem nfkc_dotted : u.nfkc ['İ'] = ['İ'] := by
  have hI : u.ccc 'I' = 0 := (u.readable_boundary 'I' (Or.inl (by decide))).starter
  rw [CharData.nfkc, CharData.nfkd, List.flatMap_singleton, u.dotted_decomp, order, insertMark_starter hI, order,
    order, insertMark, CharData.compose, if_pos hI, CharData.composeFrom]
  simp [CharData.taken, CharData.blocked, u.dotted_composite, CharData.composeFrom]

theorem folded_dotted : folded u 'İ' = 'İ' := by
  rw [folded, nfkc_dotted]
  rfl

/-- No class notices what normalization makes of a character. -/
theorem Classed.folded {p : Char → Bool} (hp : Classed p) (c : Char) (hc : p c = true) : p (folded u c) = true := by
  obtain ⟨k, hk, rfl⟩ | rfl | rfl := hp
  · obtain hascii | ⟨rfl, rfl | rfl⟩ | ⟨rfl, rfl⟩ | ⟨rfl, rfl⟩ := caseless_cases hk hc
    · rwa [folded_ascii hascii]
    · rwa [folded_dotted]
    · rwa [folded_of_decomp u.dotless_decomp]
    · rw [folded_of_decomp u.longS_decomp]
      decide
    · rw [folded_of_decomp u.kelvin_decomp]
      decide
  · exact folded_space hc
  · rw [beq_iff_eq] at hc
    rw [hc, folded_ascii (by decide)]
    rfl

theorem Readable.decomp {c : Char} (h : Readable c) :
    ∃ d ms, u.decomp c = d :: ms ∧ u.Boundary d ∧ (c ≠ 'İ' → ms = []) := by
  obtain hascii | hspace | hletter := h
  · exact ⟨c, [], u.ascii_decomp c hascii, u.readable_boundary c (Or.inl hascii), fun _ => rfl⟩
  · obtain ⟨d, hd, hdecomp⟩ := u.space_decomp c hspace
    exact ⟨d, [], hdecomp, u.readable_boundary d (Or.inr (Or.inl hd)), fun _ => rfl⟩
  · have hascii : ∀ d : Char, d.toNat < 128 → u.Boundary d := fun d hd => u.readable_boundary d (Or.inl hd)
    simp only [foldedLetters, List.mem_cons, List.not_mem_nil, or_false] at hletter
    obtain rfl | rfl | rfl | rfl := hletter
    · exact ⟨'s', [], u.longS_decomp, hascii _ (by decide), fun _ => rfl⟩
    · exact ⟨'K', [], u.kelvin_decomp, hascii _ (by decide), fun _ => rfl⟩
    · exact ⟨'I', ['\u0307'], u.dotted_decomp, hascii _ (by decide), fun h => absurd rfl h⟩
    · exact ⟨'ı', [], u.dotless_decomp, u.readable_boundary _ (Or.inr (Or.inr (by decide))), fun _ => rfl⟩

theorem Plain.readable {r : Re} (hr : Plain r) {t : List Char} (ht : t ∈ r.lang) : ∀ c ∈ t, Readable c := by
  intro c hc
  obtain ⟨p, hp, hpc⟩ := exists_class_of_mem_lang ht hc
  exact (hr.classes p hp).readable hpc

theorem nfkc_singleton {c : Char} (h : Readable c) : u.nfkc [c] = [folded u c] := by
  obtain ⟨d, ms, hd, -, hms⟩ := h.decomp (u := u)
  by_cases hdotted : c = 'İ'
  · rw [hdotted, nfkc_dotted, folded_dotted]
  · have hone : u.decomp c = [d] := by rw [hd, hms hdotted]
    rw [CharData.nfkc_singleton hone, folded_of_decomp hone]

/-- The characters of a pattern are normalized one by one. -/
theorem nfkc_readable {t : List Char} (h : ∀ c ∈ t, Readable c) : u.nfkc t = t.map (folded u) := by
  induction t with
  | nil => rfl
  | cons c t ih =>
      obtain ⟨hc, ht⟩ := List.forall_mem_cons.mp h
      rw [List.map_cons, ← ih ht]
      cases t with
      | nil => rw [nfkc_singleton hc]; rfl
      | cons d t =>
          obtain ⟨e, ms, he, hboundary, -⟩ := (ht d List.mem_cons_self).decomp (u := u)
          have hsplit := CharData.nfkc_boundary he hboundary [c] t
          rw [List.singleton_append, nfkc_singleton hc] at hsplit
          exact hsplit

theorem visible_readable {t : List Char} (h : ∀ c ∈ t, Readable c) : visible t = t := by
  rw [visible, List.filter_eq_self]
  intro c hc
  rw [not_isInvisible (h c hc)]
  rfl

/-! ### What matches -/

theorem search_iff {r : Re} (hr : Plain r) {t : List Char} :
    search r t = true ↔ ∃ x y z, t = x ++ (y ++ z) ∧ y ∈ r.lang :=
  hits_iff_lang hr.noBoundary

/-- A pattern matches the normalized text just when the text spells it. -/
theorem search_normalizeForMatch {r : Re} (hr : Plain r) (t : List Char) :
    search r (normalizeForMatch u t) = true ↔ Spells u r t := by
  rw [search_iff hr]
  constructor
  · rintro ⟨X, M, Z, hsplit, hM⟩
    obtain ⟨c₁, y, c₂, rfl, -, ⟨hlone, hnotİ⟩, -⟩ := hr.spans M hM
    have hc₁ : Readable c₁ := hr.readable hM c₁ (by simp)
    -- What was dropped between the two ends is back in the stretch.
    have hfilter : (u.nfkc t).filter (fun c => !isInvisible c) = X ++ (c₁ :: (y ++ (c₂ :: Z))) := by
      simpa [normalizeForMatch, visible] using hsplit
    obtain ⟨A, R, hAR, -, hR⟩ := List.filter_eq_append_iff.mp hfilter
    obtain ⟨A', R', rfl, -, -, hR'⟩ := List.filter_eq_cons_iff.mp hR
    obtain ⟨N, S, rfl, hN, hS⟩ := List.filter_eq_append_iff.mp hR'
    obtain ⟨N', B, rfl, hN', -, -⟩ := List.filter_eq_cons_iff.mp hS
    have hcompose : u.compose (u.nfkd t) = (A ++ A') ++ c₁ :: ((N ++ N') ++ c₂ :: B) := by
      rw [← CharData.nfkc, hAR]
      simp
    obtain ⟨d₁, ms₁, hd₁, hboundary₁, -⟩ := hc₁.decomp (u := u)
    obtain ⟨d₂, ms₂, hd₂, -, hms₂⟩ := hlone.decomp (u := u)
    have hone : (u.decomp c₂).length = 1 := by rw [hd₂, hms₂ hnotİ]; rfl
    obtain ⟨x, a, y', z, hnfkd, ⟨ms, hms⟩, hstretch, hkeeps⟩ := CharData.compose_stretch (u.nfkd_decomposed t)
      (u.readable_boundary c₁ hc₁).starter (u.readable_boundary c₂ hlone) hone hcompose
    obtain ⟨rfl, -⟩ := List.cons_eq_cons.mp (hms.symm.trans hd₁)
    refine ⟨x, a, y', c₂, z, hnfkd, hboundary₁, u.readable_boundary c₂ hlone, ?_, hkeeps⟩
    have hnone : N'.filter (fun c => !isInvisible c) = [] := List.filter_eq_nil_iff.mpr hN'
    have hvisible : visible (u.compose (a :: (y' ++ [c₂]))) = c₁ :: (y ++ [c₂]) := by
      rw [hstretch, visible, List.filter_cons, List.filter_append, List.filter_append, hN, hnone, List.append_nil,
        not_isInvisible hc₁, ← visible, visible_readable (by simpa using hlone)]
      rfl
    rw [hvisible]
    exact hM
  · rintro ⟨x, a, y, c, z, hnfkd, ha, hc, hM, hkeeps⟩
    obtain ⟨B, hB⟩ := CharData.compose_of_stretch ha hc x y hkeeps
    refine ⟨visible (u.compose x), _, visible B, ?_, hM⟩
    rw [normalizeForMatch, CharData.nfkc, hnfkd, hB, visible, List.filter_append, List.filter_append,
      List.append_assoc]
    rfl

/-- A match is a place that spells the pattern, if its last character takes no mark of what
follows. -/
theorem Spells.of_match {r : Re} (hr : Plain r) {x y z : List Char} {c d : Char} (hmatch : y ++ [c] ∈ r.lang)
    (hd : u.decomp c = [d]) (hkeeps : ¬u.Absorbs d (u.nfkd z)) : Spells u r (x ++ (y ++ c :: z)) := by
  have hreadable := hr.readable hmatch
  obtain ⟨c₁, y', c₂, heq, -, -⟩ := hr.spans _ hmatch
  obtain rfl : y = c₁ :: y' := List.append_inj_left' (show y ++ [c] = (c₁ :: y') ++ [c₂] from heq) rfl
  rw [List.cons_append] at hmatch hreadable
  obtain ⟨a, ms, ha, hboundary, -⟩ := (hreadable c₁ (by simp)).decomp (u := u)
  obtain ⟨d', ms', hd', hboundary', -⟩ := (hreadable c (by simp)).decomp (u := u)
  obtain ⟨rfl, -⟩ := List.cons_eq_cons.mp (hd.symm.trans hd')
  have hstretch : u.nfkd (c₁ :: (y' ++ [c])) = a :: (order u.ccc (ms ++ y'.flatMap u.decomp) ++ [d]) := by
    rw [CharData.nfkd, List.flatMap_cons, ha, List.flatMap_append, List.flatMap_singleton, hd, List.cons_append, order,
      insertMark_starter hboundary.starter, ← List.append_assoc, order_append_starter hboundary'.starter]
    rfl
  refine ⟨u.nfkd x, a, order u.ccc (ms ++ y'.flatMap u.decomp), d, u.nfkd z, ?_, hboundary, hboundary', ?_, hkeeps⟩
  · rw [CharData.nfkd, List.flatMap_append, List.flatMap_append, List.flatMap_cons, ha, List.flatMap_cons, hd]
    simp only [List.cons_append, List.append_assoc]
    rw [order_append_starter hboundary.starter, ← List.append_assoc ms, order_append_starter hboundary'.starter]
    rfl
  · rw [← hstretch, ← CharData.nfkc, nfkc_readable hreadable]
    have hmap := map_mem_lang (fun p hp => (hr.classes p hp).folded (u := u)) hmatch
    rw [visible_readable (hr.readable hmap)]
    exact hmap

/-! ### The patterns are plain -/

theorem built_class {p : Char → Bool} (h : Classed p) : Built (.cls p) :=
  ⟨rfl, fun q hq => by rw [Re.classes, List.mem_singleton] at hq; rwa [hq]⟩

theorem Built.both {r s : Re} (hr : Built r) (hs : Built s) :
    (r.asksNoBoundary && s.asksNoBoundary) = true ∧ ∀ p ∈ r.classes ++ s.classes, Classed p := by
  rw [hr.noBoundary, hs.noBoundary]
  exact ⟨rfl, List.forall_mem_append.mpr ⟨hr.classes, hs.classes⟩⟩

theorem Built.seq {r s : Re} (hr : Built r) (hs : Built s) : Built (.seq r s) := ⟨(hr.both hs).1, (hr.both hs).2⟩

theorem Built.alt {r s : Re} (hr : Built r) (hs : Built s) : Built (.alt r s) := ⟨(hr.both hs).1, (hr.both hs).2⟩

theorem Built.star {r : Re} (hr : Built r) : Built (.star r) := ⟨hr.noBoundary, hr.classes⟩

theorem built_literal {k : List Char} (hk : ∀ c ∈ k, c.toNat < 128) : Built (literal caseless k) := by
  induction k with
  | nil => exact ⟨rfl, by simp [literal, Re.classes]⟩
  | cons c k ih =>
      obtain ⟨hc, hk'⟩ := List.forall_mem_cons.mp hk
      exact (built_class (Or.inl ⟨c, hc, rfl⟩)).seq (ih hk')

theorem built_word {k : String} (hk : ∀ c ∈ k.toList, c.toNat < 128) : Built (caselessWord k) := built_literal hk

theorem built_gap : Built gap :=
  (built_class (Or.inr (Or.inl rfl))).seq (built_class (Or.inr (Or.inl rfl))).star

theorem built_colon : Built colon :=
  (built_class (Or.inr (Or.inl rfl))).star.seq (built_class (Or.inr (Or.inr rfl)))

theorem built_earlier : Built earlier :=
  (built_word (by decide)).alt ((built_word (by decide)).alt (built_word (by decide)))

/-- What a letter of a word stands for is no space. -/
theorem not_isSpace_of_caseless {b c : Char} (hb : b.isLower = true) (h : caseless b c = true) : isSpace c = false := by
  rw [Bool.eq_false_iff]
  intro hspace
  rw [isLower_iff] at hb
  simp only [isSpace, Bool.or_eq_true, Bool.and_eq_true, decide_eq_true_eq, beq_iff_eq] at hspace
  simp only [caseless, Bool.or_eq_true, Bool.and_eq_true, beq_iff_eq] at h
  obtain ((hlower | ⟨-, hc | hc⟩) | ⟨-, hc⟩) | ⟨-, hc⟩ := h
  · have hnat := toNat_toLower c
    rw [hlower] at hnat
    split at hnat <;> omega
  all_goals omega

theorem startsIn_word {k : String} {b : Char} (hk : k.toList.head? = some b) (hb : b.isLower = true) :
    StartsIn (isSpace · = false) (caselessWord k).lang :=
  startsIn_literal hk fun _ h => not_isSpace_of_caseless hb h

theorem endsIn_word {k : String} {b : Char} (hk : k.toList.getLast? = some b) (hb : b.isLower = true) (hi : b ≠ 'i') :
    EndsIn (fun c => Lone c ∧ isSpace c = false) (caselessWord k).lang := by
  have hascii : b.toNat < 128 := by
    have hlast := (isLower_iff.mp hb).2
    omega
  refine endsIn_literal hk ?_
  intro c h
  have hreadable : Readable c := Classed.readable (Or.inl ⟨b, hascii, rfl⟩) h
  refine ⟨⟨hreadable, ?_⟩, not_isSpace_of_caseless hb h⟩
  rintro rfl
  obtain hc | ⟨rfl, -⟩ | ⟨-, hc⟩ | ⟨-, hc⟩ := caseless_cases hascii h
  · exact absurd hc (by decide)
  · exact hi rfl
  · exact absurd hc (by decide)
  · exact absurd hc (by decide)

theorem endsIn_colon : EndsIn (fun c => Lone c ∧ isSpace c = false) colon.lang := by
  refine EndsIn.mul ?_
  rintro _ ⟨c, hc, rfl⟩
  rw [beq_iff_eq] at hc
  refine ⟨[], c, rfl, ?_⟩
  rw [hc]
  exact ⟨⟨Or.inl (by decide), by decide⟩, by decide⟩

theorem endsIn_earlier : EndsIn (fun c => Lone c ∧ isSpace c = false) earlier.lang :=
  (endsIn_word (b := 's') (by decide) (by decide) (by decide)).add
    ((endsIn_word (b := 'l') (by decide) (by decide) (by decide)).add
      (endsIn_word (b := 'r') (by decide) (by decide) (by decide)))

theorem Built.plain {r s : Re} (hr : Built r) (hstarts : StartsIn (isSpace · = false) r.lang) (hs : Built s)
    (hends : EndsIn (fun c => Lone c ∧ isSpace c = false) s.lang) : Plain (.seq r s) :=
  ⟨hr.seq hs, hstarts.spans hends⟩

theorem plain_core : ∀ P ∈ coreInjectionPatterns, Plain P.re := by
  have hinstructions : EndsIn (fun c => Lone c ∧ isSpace c = false) (caselessWord "instructions").lang :=
    endsIn_word (b := 's') (by decide) (by decide) (by decide)
  have hmode : EndsIn (fun c => Lone c ∧ isSpace c = false) (caselessWord "mode").lang :=
    endsIn_word (b := 'e') (by decide) (by decide) (by decide)
  have hafter : Built (.seq gap (.seq earlier (.seq gap (caselessWord "instructions")))) :=
    built_gap.seq (built_earlier.seq (built_gap.seq (built_word (by decide))))
  intro P hP
  simp only [coreInjectionPatterns, List.mem_cons, List.not_mem_nil, or_false] at hP
  obtain rfl | rfl | rfl | rfl | rfl | rfl | rfl | rfl | rfl := hP
  · exact (built_word (by decide)).plain (startsIn_word (b := 'i') (by decide) (by decide)) hafter
      hinstructions.mul.mul.mul
  · exact (built_word (by decide)).plain (startsIn_word (b := 'd') (by decide) (by decide))
      (built_gap.seq built_earlier) endsIn_earlier.mul
  · exact (built_word (by decide)).plain (startsIn_word (b := 'f') (by decide) (by decide)) hafter
      hinstructions.mul.mul.mul
  · exact (built_word (by decide)).plain (startsIn_word (b := 'n') (by decide) (by decide))
      (built_gap.seq ((built_word (by decide)).seq built_colon)) endsIn_colon.mul.mul
  · exact (built_word (by decide)).plain (startsIn_word (b := 's') (by decide) (by decide))
      (built_gap.seq ((built_word (by decide)).seq built_colon)) endsIn_colon.mul.mul
  · exact (built_word (by decide)).plain (startsIn_word (b := 'o') (by decide) (by decide))
      (built_gap.seq (built_word (by decide))) hinstructions.mul
  · -- A single word is its first letter and the rest.
    have hfirst : StartsIn (isSpace · = false) (Re.cls (caseless 'j')).lang := by
      rintro _ ⟨c, hc, rfl⟩
      exact ⟨c, [], rfl, not_isSpace_of_caseless (by decide) hc⟩
    exact (built_class (Or.inl ⟨'j', by decide, rfl⟩)).plain hfirst
      (built_literal (k := "ailbreak".toList) (by decide))
      (endsIn_word (k := "ailbreak") (b := 'k') (by decide) (by decide) (by decide))
  · exact (built_word (by decide)).plain (startsIn_word (b := 'd') (by decide) (by decide))
      (built_gap.seq (built_word (by decide))) hmode.mul
  · exact (built_word (by decide)).plain (startsIn_word (b := 'd') (by decide) (by decide))
      (built_gap.seq (built_word (by decide))) hmode.mul

/-! ### Normalizing twice -/

theorem nfkc_invisible {i : Char} (hi : isInvisible i = true) (x y : List Char) :
    u.nfkc (x ++ i :: y) = u.nfkc x ++ i :: u.nfkc y := by
  have hself : u.decomp i = [i] := u.decomp_full i i ((u.invisible_decomp i i hi).mpr rfl)
  exact CharData.nfkc_inert (u.invisible_boundary i hi) hself (fun d => u.invisible_inert i d hi) x y

/-- Normalization brings in no invisible character. -/
theorem visible_nfkc_of_visible {t : List Char} (ht : ∀ c ∈ t, isInvisible c = false) : visible (u.nfkc t) = u.nfkc t := by
  rw [visible, List.filter_eq_self]
  intro c hc
  rw [Bool.not_eq_true', Bool.eq_false_iff]
  intro hi
  have hself : u.decomp c = [c] := u.decomp_full c c ((u.invisible_decomp c c hi).mpr rfl)
  obtain hmem | hlong := CharData.mem_compose hc
  · rw [CharData.nfkd, mem_order, List.mem_flatMap] at hmem
    obtain ⟨b, hb, hcb⟩ := hmem
    obtain rfl := (u.invisible_decomp b c hi).mp hcb
    rw [ht b hb] at hi
    cases hi
  · rw [hself] at hlong
    simp at hlong

/-- The pieces between the invisible characters are normalized each by itself. -/
theorem normalizeForMatch_eq (t : List Char) : normalizeForMatch u t = (t.splitOnP isInvisible).flatMap u.nfkc := by
  suffices h : ∀ p : List Char, (∀ c ∈ p, isInvisible c = false) →
      normalizeForMatch u (p ++ t) = ((p ++ t).splitOnP isInvisible).flatMap u.nfkc from h [] (by simp)
  induction t with
  | nil =>
      intro p hp
      rw [List.append_nil, List.splitOnP_eq_singleton hp, List.flatMap_singleton]
      exact visible_nfkc_of_visible hp
  | cons c t ih =>
      intro p hp
      by_cases hc : isInvisible c = true
      · have hrest := ih [] (by simp)
        rw [List.nil_append] at hrest
        rw [List.splitOnP_append_cons_of_forall_mem hp c hc, List.flatMap_cons, ← hrest, normalizeForMatch,
          nfkc_invisible hc, visible, List.filter_append, List.filter_cons, hc, ← visible, visible_nfkc_of_visible hp]
        rfl
      · have hp' : ∀ d ∈ p ++ [c], isInvisible d = false := List.forall_mem_append.mpr ⟨hp, by simpa using hc⟩
        have hrest := ih (p ++ [c]) hp'
        rwa [List.append_assoc, List.singleton_append] at hrest

/-- Normalizing twice is normalizing what is visible. -/
theorem normalizeForMatch_twice (t : List Char) :
    normalizeForMatch u (normalizeForMatch u t) = u.nfkc (visible t) := by
  have hvisible : ∀ c ∈ visible t, isInvisible c = false := by
    intro c hc
    simpa using (List.mem_filter.mp hc).2
  rw [normalizeForMatch_eq t, normalizeForMatch, CharData.nfkc_flatMap_nfkc, flatten_splitOnP, ← visible,
    visible_nfkc_of_visible hvisible]

/-- Every pattern that matches a text matches it normalized just when the text also spells each
of them, and normalizing again changes nothing just when NFKC joins nothing over an invisible
character. -/
theorem normalization_keeps_matches (u : Unicode) (t : List Char) :
    ((∀ P ∈ coreInjectionPatterns, search P.re t = true → search P.re (normalizeForMatch u t) = true) ∧
      normalizeForMatch u (normalizeForMatch u t) = normalizeForMatch u t) ↔
    ((∀ P ∈ coreInjectionPatterns, search P.re t = true → Spells u P.re t) ∧
      u.nfkc (visible t) = (t.splitOnP isInvisible).flatMap u.nfkc) := by
  refine and_congr (forall₂_congr fun P hP => imp_congr_right fun _ => ?_) ?_
  · exact search_normalizeForMatch (plain_core P hP) t
  · rw [normalizeForMatch_twice, normalizeForMatch_eq]

/-! ### Texts that show it -/

/-- The decompositions used here. -/
def sampleDecompositions : List (Char × List Char) :=
  [('ſ', ['s']), ('\u212A', ['K']), ('İ', ['I', '\u0307']), ('ḱ', ['k', '\u0301']), ('\u00A0', [' ']),
    ('\u2000', [' ']), ('\u2001', [' ']), ('\u2002', [' ']), ('\u2003', [' ']), ('\u2004', [' ']), ('\u2005', [' ']),
    ('\u2006', [' ']), ('\u2007', [' ']), ('\u2008', [' ']), ('\u2009', [' ']), ('\u200A', [' ']), ('\u202F', [' ']),
    ('\u205F', [' ']), ('\u3000', [' '])]

def sampleDecomp (c : Char) : List Char := (sampleDecompositions.lookup c).getD [c]

def sampleComposite (a b : Char) : Option Char :=
  if a = 'I' ∧ b = '\u0307' then some 'İ' else if a = 'k' ∧ b = '\u0301' then some 'ḱ' else none

/-- Two marks that stand above. -/
def sampleClass (c : Char) : ℕ := if c = '\u0301' ∨ c = '\u0307' then 230 else 0

theorem sampleDecomp_cases (c : Char) : sampleDecomp c = [c] ∨ (c, sampleDecomp c) ∈ sampleDecompositions := by
  rw [sampleDecomp]
  cases h : sampleDecompositions.lookup c with
  | none => exact Or.inl rfl
  | some ds =>
      obtain ⟨before, rest, heq, -⟩ := List.lookup_eq_some_iff.mp h
      right
      rw [heq]
      simp

def sample : Unicode where
  decomp := sampleDecomp
  ccc := sampleClass
  composite := sampleComposite
  decomp_ne_nil := by
    intro c
    obtain h | h := sampleDecomp_cases c
    · rw [h]; simp
    · have hall : ∀ e ∈ sampleDecompositions, e.2 ≠ [] := by decide
      exact hall _ h
  decomp_full := by
    intro c d hd
    obtain h | h := sampleDecomp_cases c
    · rw [h, List.mem_singleton] at hd
      rw [hd, h]
    · have hall : ∀ e ∈ sampleDecompositions, ∀ d ∈ e.2, sampleDecomp d = [d] := by decide
      exact hall _ h d hd
  composite_decomp := by
    intro a b c h
    unfold sampleComposite at h
    split at h
    · rename_i hab
      obtain ⟨rfl, rfl⟩ := hab
      obtain rfl := Option.some.inj h
      decide
    · split at h
      · rename_i hab
        obtain ⟨rfl, rfl⟩ := hab
        obtain rfl := Option.some.inj h
        decide
      · cases h
  ascii_decomp := by
    intro c hc
    obtain h | h := sampleDecomp_cases c
    · exact h
    · have hall : ∀ e ∈ sampleDecompositions, 128 ≤ e.1.toNat := by decide
      have hbeyond := hall _ h
      exact absurd hc (Nat.not_lt.mpr hbeyond)
  space_decomp := by
    intro c hc
    obtain h | h := sampleDecomp_cases c
    · exact ⟨c, hc, h⟩
    · have hall : ∀ e ∈ sampleDecompositions, isSpace e.1 = true → e.2 = [' '] := by decide
      exact ⟨' ', by decide, hall _ h hc⟩
  longS_decomp := by decide
  kelvin_decomp := by decide
  dotless_decomp := by decide
  dotted_decomp := by decide
  dotted_composite := by decide
  readable_boundary := by
    intro c hc
    have hmarks : ∀ m ∈ ['\u0301', '\u0307'], ¬Readable m := by
      unfold Readable
      decide
    have hne : c ≠ '\u0301' ∧ c ≠ '\u0307' :=
      ⟨fun h => hmarks _ (by simp) (h ▸ hc), fun h => hmarks _ (by simp) (h ▸ hc)⟩
    exact ⟨by simp [sampleClass, hne.1, hne.2], fun a => by simp [sampleComposite, hne.1, hne.2]⟩
  invisible_decomp := by
    intro c d hd
    obtain h | h := sampleDecomp_cases c
    · rw [h, List.mem_singleton]
      exact eq_comm
    · have hall : ∀ e ∈ sampleDecompositions, isInvisible e.1 = false ∧ ∀ d ∈ e.2, isInvisible d = false := by decide
      obtain ⟨hc, hds⟩ := hall _ h
      refine iff_of_false (fun hmem => ?_) ?_
      · rw [hds d hmem] at hd
        cases hd
      · rintro rfl
        rw [hc] at hd
        cases hd
  invisible_boundary := by
    intro c hc
    have hmarks : ∀ m ∈ ['\u0301', '\u0307'], isInvisible m = false := by decide
    have hne : c ≠ '\u0301' ∧ c ≠ '\u0307' := by
      refine ⟨?_, ?_⟩ <;> rintro rfl <;> exact absurd hc (by decide)
    exact ⟨by simp [sampleClass, hne.1, hne.2], fun a => by simp [sampleComposite, hne.1, hne.2]⟩
  invisible_inert := by
    intro c d hc
    have hne : c ≠ 'I' ∧ c ≠ 'k' := by
      refine ⟨?_, ?_⟩ <;> rintro rfl <;> exact absurd hc (by decide)
    simp [sampleComposite, hne.1, hne.2]

/-- An accent after the last letter hides the word, and one after an invisible character is
composed the second time only. -/
theorem accent_hides_jailbreak :
    (⟨"jailbreak".toList, caselessWord "jailbreak"⟩ : Pattern) ∈ coreInjectionPatterns ∧
      search (caselessWord "jailbreak") "jailbreak\u0301".toList = true ∧
      search (caselessWord "jailbreak") (normalizeForMatch sample "jailbreak\u0301".toList) = false ∧
      normalizeForMatch sample (normalizeForMatch sample "k\u200D\u0301".toList) ≠
        normalizeForMatch sample "k\u200D\u0301".toList := by
  refine ⟨by simp [coreInjectionPatterns], ?_, ?_, ?_⟩
  all_goals decide +kernel

end CyClaw.Sanitizer

/-
The documents that are cited, and the text the model saw.

The rendering loop keeps documents whole for as long as they fit the budget, cuts the first
that does not, and stops (`formatLoop_run`).  A document that the budget cuts is cited with
the text that was shown.  One that only the cap for each document shortened is cited with its
full text: `cites_iff` says that this is the one way in which the citations differ from what
the model saw.
-/
import CyClaw.Graph.Gating
import Mathlib.Data.List.Forall2

namespace CyClaw.Graph

variable {R : Type}

/-! ### Texts -/

theorem list_intercalate_snoc {α : Type} (sep p : List α) (l : List (List α)) (hl : l ≠ []) :
    sep.intercalate (l ++ [p]) = sep.intercalate l ++ sep ++ p := by
  induction l with
  | nil => exact absurd rfl hl
  | cons a l ih =>
      cases l with
      | nil => simp [List.intercalate_cons_cons]
      | cons b l =>
          have htail : b :: l ≠ [] := List.cons_ne_nil b l
          rw [List.cons_append, List.intercalate_cons_of_ne_nil (by simp), ih htail,
            List.intercalate_cons_of_ne_nil (l := a) htail]
          simp only [List.append_assoc]

theorem intercalate_snoc (sep p : String) (l : List String) :
    sep.intercalate (l ++ [p]) = if l = [] then p else sep.intercalate l ++ sep ++ p := by
  apply String.toList_injective
  rw [String.toList_intercalate, List.map_append, List.map_singleton]
  split
  · rename_i h
    subst h
    simp
  · rename_i h
    rw [list_intercalate_snoc _ _ _ (by simpa using h), String.toList_append, String.toList_append,
      String.toList_intercalate]

theorem length_intercalate_snoc (p : String) (l : List String) :
    ((sectionSep.intercalate (l ++ [p])).length : Int) =
      (sectionSep.intercalate l).length + (if l = [] then 0 else (sectionSep.length : Int)) + p.length := by
  rw [intercalate_snoc]
  split
  · rename_i h
    subst h
    simp
  · simp only [String.length_append]
    omega

theorem length_intercalate_le (l l' : List String) :
    (sectionSep.intercalate l).length ≤ (sectionSep.intercalate (l ++ l')).length := by
  induction l' using List.reverseRecOn with
  | nil => rw [List.append_nil]
  | append_singleton l' p ih =>
      have h := length_intercalate_snoc p (l ++ l')
      rw [← List.append_assoc]
      split_ifs at h <;> omega

theorem clip_length (text : String) {n : Int} (hn : 0 ≤ n) : ((clip text n).length : Int) = min n text.length := by
  rw [clip, if_neg (by omega), String.length_ofList, List.length_take, String.length_toList]
  omega

theorem clip_start (text : String) (n : Int) : (clip text n).toList <+: text.toList := by
  rw [clip]
  split <;> exact String.toList_ofList ▸ List.take_prefix _ _

/-! ### The rendering loop -/

/-- What the cap for each document leaves of a text. -/
def capped (charCap : Option Int) (d : RetrievedDoc R) : String :=
  match charCap with
  | none => d.text
  | some cap => clip d.text cap

/-- The documents that have something to show. -/
def visible (charCap : Option Int) (docs : List (RetrievedDoc R)) : List (RetrievedDoc R) :=
  docs.filter fun d => capped charCap d ≠ ""

/-- The chunk of a document that is kept whole. -/
def part (env : Env R) (charCap : Option Int) (d : RetrievedDoc R) : String := header env d ++ capped charCap d

def Fits (budget : Option Int) (parts : List String) : Prop :=
  ∀ total, budget = some total → ((sectionSep.intercalate parts).length : Int) ≤ total

/-- The document the budget cuts, with the text that is shown. -/
structure Cut (env : Env R) (charCap : Option Int) (d d' : RetrievedDoc R) : Prop where
  same : d' = { d with text := d'.text }
  shown : d'.text.toList <+: (capped charCap d).toList
  inked : d'.text ≠ ""

theorem capped_start (charCap : Option Int) (d : RetrievedDoc R) : (capped charCap d).toList <+: d.text.toList := by
  cases charCap with
  | none => exact List.prefix_rfl
  | some cap => exact clip_start d.text cap

theorem formatStep_blank {env : Env R} {charCap budget : Option Int} {acc : Chunks R} {d : RetrievedDoc R}
    (h : capped charCap d = "") : formatStep env charCap budget acc d = (acc, true) := by
  cases charCap with
  | none => exact if_pos h
  | some cap => exact if_pos h

theorem formatStep_unbounded {env : Env R} {charCap : Option Int} {acc : Chunks R} {d : RetrievedDoc R}
    (h : capped charCap d ≠ "") :
    formatStep env charCap none acc d =
      ({ acc with parts := acc.parts ++ [part env charCap d], included := acc.included ++ [d] }, true) := by
  cases charCap with
  | none => exact if_neg h
  | some cap => exact if_neg h

theorem formatStep_bounded {env : Env R} {charCap : Option Int} {total : Int} {acc : Chunks R} {d : RetrievedDoc R}
    (h : capped charCap d ≠ "") :
    formatStep env charCap (some total) acc d =
      let sepLen : Int := if acc.parts = [] then 0 else sectionSep.length
      let remaining := total - acc.used - sepLen
      if remaining ≤ 0 then (acc, false)
      else if remaining < (part env charCap d).length then
        let bodyChars := remaining - (header env d).length
        if bodyChars ≤ 0 then (acc, false)
        else
          ({ acc with
              parts := acc.parts ++ [header env d ++ clip (capped charCap d) bodyChars]
              included := acc.included ++ [{ d with text := clip (capped charCap d) bodyChars }] }, false)
      else
        ({ parts := acc.parts ++ [part env charCap d], included := acc.included ++ [d],
           used := acc.used + sepLen + (part env charCap d).length }, true) := by
  cases charCap with
  | none => exact if_neg h
  | some cap => exact if_neg h

/-- A chunk of the loop that is in step with what it has used. -/
structure Chunks.Counts (budget : Option Int) (acc : Chunks R) : Prop where
  used : ∀ total, budget = some total → acc.used = (sectionSep.intercalate acc.parts).length

/-- **All that a step does with a document that has something to show**: it keeps it whole where
that fits, or else it stops, with a part of it or with nothing. -/
theorem formatStep_cases {env : Env R} {charCap budget : Option Int} {acc : Chunks R} {d : RetrievedDoc R}
    (h : capped charCap d ≠ "") (hacc : acc.Counts budget) :
    (∃ acc', formatStep env charCap budget acc d = (acc', true) ∧ acc'.parts = acc.parts ++ [part env charCap d] ∧
        acc'.included = acc.included ++ [d] ∧ Fits budget acc'.parts ∧ acc'.Counts budget) ∨
      ¬ Fits budget (acc.parts ++ [part env charCap d]) ∧
        (formatStep env charCap budget acc d = (acc, false) ∨
          ∃ acc' d', formatStep env charCap budget acc d = (acc', false) ∧ Cut env charCap d d' ∧
            acc'.parts = acc.parts ++ [header env d' ++ d'.text] ∧ acc'.included = acc.included ++ [d'] ∧
            Fits budget acc'.parts) := by
  cases budget with
  | none =>
      refine Or.inl ⟨_, formatStep_unbounded h, rfl, rfl, ?_, ⟨?_⟩⟩
      · intro total htotal
        cases htotal
      · intro total htotal
        cases htotal
  | some total =>
      have hused := hacc.used total rfl
      have hlength := length_intercalate_snoc (part env charCap d) acc.parts
      rw [formatStep_bounded h]
      generalize hsep : (if acc.parts = [] then (0 : Int) else sectionSep.length) = sepLen at hlength ⊢
      dsimp only
      have hfits : Fits (some total) (acc.parts ++ [part env charCap d]) ↔
          acc.used + sepLen + (part env charCap d).length ≤ total := by
        rw [Fits]
        simp only [Option.some.injEq, forall_eq', hlength, hused]
      have hhead : (part env charCap d).length = (header env d).length + (capped charCap d).length := by
        rw [part, String.length_append]
      have hink : 0 < (capped charCap d).length := by
        rw [Nat.pos_iff_ne_zero]
        intro hzero
        exact h (String.length_eq_zero_iff.mp hzero)
      split_ifs with hfull hlong hbody
      · exact Or.inr ⟨fun hfit => by rw [hfits] at hfit; omega, Or.inl rfl⟩
      · exact Or.inr ⟨fun hfit => by rw [hfits] at hfit; omega, Or.inl rfl⟩
      · refine Or.inr ⟨fun hfit => by rw [hfits] at hfit; omega, Or.inr ⟨_, _, rfl, ⟨rfl, ?_, ?_⟩, rfl, rfl, ?_⟩⟩
        · exact clip_start _ _
        · intro hnil
          have hlen := clip_length (capped charCap d) (n := total - acc.used - sepLen - (header env d).length)
            (by omega)
          dsimp only at hnil
          rw [hnil, String.length_empty] at hlen
          omega
        · -- What is cut fills the budget.
          have hcut := length_intercalate_snoc (header env d ++ clip (capped charCap d)
            (total - acc.used - sepLen - (header env d).length)) acc.parts
          have hlen := clip_length (capped charCap d) (n := total - acc.used - sepLen - (header env d).length)
            (by omega)
          rw [hsep, String.length_append, Int.natCast_add, hlen] at hcut
          intro total' htotal
          rw [Option.some.injEq] at htotal
          show ((sectionSep.intercalate (acc.parts ++ [header env d ++ _])).length : Int) ≤ total'
          omega
      · refine Or.inl ⟨_, rfl, rfl, rfl, hfits.mpr (by omega), ⟨?_⟩⟩
        intro total' htotal
        dsimp only
        omega

/-- The rendered chunks of a run over `docs`, started with the documents `kept` shown whole. -/
structure Run (env : Env R) (charCap budget : Option Int) (kept docs : List (RetrievedDoc R)) (acc : Chunks R) :
    Prop where
  /-- Some documents are whole, one more may be cut, and the first that is not whole did not fit. -/
  ends : ∃ whole rest cut, visible charCap docs = whole ++ rest ∧
    acc.parts = (kept ++ whole).map (part env charCap) ++ cut.map (fun d => header env d ++ d.text) ∧
    acc.included = kept ++ whole ++ cut ∧
    (whole ≠ [] → Fits budget ((kept ++ whole).map (part env charCap))) ∧
    (cut ≠ [] → Fits budget acc.parts) ∧
    (∀ d ∈ rest.head?, ¬ Fits budget ((kept ++ whole ++ [d]).map (part env charCap))) ∧
    (cut = [] ∨ ∃ d d', rest.head? = some d ∧ cut = [d'] ∧ Cut env charCap d d')

theorem formatLoop_run (env : Env R) (charCap budget : Option Int) (kept docs : List (RetrievedDoc R)) {acc : Chunks R} (hparts : acc.parts = kept.map (part env charCap))
    (hincluded : acc.included = kept) (hacc : acc.Counts budget) :
    Run env charCap budget kept docs (formatLoop env charCap budget docs acc) := by
  induction docs generalizing kept acc with
  | nil => exact ⟨⟨[], [], [], rfl, by simp [formatLoop, hparts], by simp [formatLoop, hincluded], by simp, by simp,
      by simp, Or.inl rfl⟩⟩
  | cons d docs ih =>
      by_cases hblank : capped charCap d = ""
      · have hvisible : visible charCap (d :: docs) = visible charCap docs := by
          rw [visible, List.filter_cons_of_neg (by simpa using hblank), visible]
        rw [formatLoop, formatStep_blank hblank]
        obtain ⟨⟨whole, rest, cut, h⟩⟩ := ih kept hparts hincluded hacc
        exact ⟨⟨whole, rest, cut, by rw [hvisible]; exact h⟩⟩
      · have hvisible : visible charCap (d :: docs) = d :: visible charCap docs := by
          rw [visible, List.filter_cons_of_pos (by simpa using hblank), visible]
        rw [formatLoop]
        obtain ⟨acc', hstep, hparts', hincluded', hfits, hacc'⟩ | ⟨hfull, hstop⟩ :=
          formatStep_cases hblank hacc
        · rw [hstep]
          have hkept : acc'.parts = (kept ++ [d]).map (part env charCap) := by
            rw [hparts', hparts, List.map_append, List.map_singleton]
          obtain ⟨⟨whole, rest, cut, hsplit, hparts, hincluded, hwhole, hcut, hrest, hend⟩⟩ :=
            ih (kept ++ [d]) hkept (by rw [hincluded', hincluded]) hacc'
          refine ⟨⟨d :: whole, rest, cut, by rw [hvisible, hsplit]; rfl, by simpa using hparts,
            by simpa using hincluded, ?_, hcut, by simpa using hrest, hend⟩⟩
          intro _
          by_cases hnil : whole = []
          · subst hnil
            rw [← hkept]
            exact hfits
          · simpa using hwhole hnil
        · have hfull' : ¬ Fits budget ((kept ++ [] ++ [d]).map (part env charCap)) := by
            rw [List.append_nil, List.map_append, ← hparts]
            exact hfull
          obtain hstep | ⟨acc', d', hstep, hcut, hparts', hincluded', hfits⟩ := hstop
          · rw [hstep]
            exact ⟨⟨[], d :: visible charCap docs, [], hvisible, by simp [hparts], by simp [hincluded], by simp, by simp,
              by simpa using hfull', Or.inl rfl⟩⟩
          · rw [hstep]
            refine ⟨⟨[], d :: visible charCap docs, [d'], hvisible, by simp [hparts', hparts],
              by simp [hincluded', hincluded], by simp, fun _ => hfits, by simpa using hfull',
              Or.inr ⟨d, d', rfl, rfl, hcut⟩⟩⟩

/-! ### What is cited -/

/-- How far `docs[:limit]` goes. -/
def upTo (length : Nat) (limit : Int) : Nat := if limit < 0 then length - limit.natAbs else limit.toNat

/-- A document, its text clipped. -/
structure Clipped (d' d : RetrievedDoc R) : Prop where
  same : d' = { d with text := d'.text }
  text : d'.text.toList <+: d.text.toList

/-- The citations are what the model saw. -/
structure Cites (env : Env R) (budget : Option Int) (docs : List (RetrievedDoc R)) (context : String)
    (included : List (RetrievedDoc R)) : Prop where
  context_eq : context = sectionSep.intercalate (included.map fun d => header env d ++ d.text)
  clipped : ∃ kept, kept.Sublist docs ∧ List.Forall₂ Clipped included kept
  inked : ∀ d ∈ included, d.text ≠ ""
  bounded : ∀ total, budget = some total → 0 ≤ total → (context.length : Int) ≤ total

/-- **Every document that is shown whole is within the cap for each document.** -/
def ShownInFull (env : Env R) (charCap budget : Option Int) (docs : List (RetrievedDoc R)) : Prop :=
  ∀ before d after, visible charCap docs = before ++ d :: after →
    Fits budget ((before ++ [d]).map (part env charCap)) → capped charCap d = d.text

theorem formatContextChunks_run (env : Env R) (docs : List (RetrievedDoc R)) (limit : Nat)
    (charCap budget : Option Int) :
    Run env charCap budget [] (docs.take limit) (formatLoop env charCap budget (docs.take limit) {}) :=
  formatLoop_run env charCap budget [] (docs.take limit) rfl rfl ⟨fun _ _ => by simp⟩

theorem Fits.of_append {budget : Option Int} {l l' : List String} (h : Fits budget (l ++ l')) : Fits budget l := by
  intro total htotal
  have := h total htotal
  have := length_intercalate_le l l'
  omega

/-- Whatever is cited, the context is within the budget, and only shown documents are cited. -/
theorem Run.bounded {env : Env R} {charCap : Option Int} {total : Int} {docs : List (RetrievedDoc R)} {acc : Chunks R}
    (h : Run env charCap (some total) [] docs acc) (htotal : 0 ≤ total) :
    ((sectionSep.intercalate acc.parts).length : Int) ≤ total := by
  obtain ⟨⟨whole, rest, cut, hsplit, hparts, hincluded, hwhole, hcut, hrest, hend⟩⟩ := h
  by_cases hnil : cut = []
  · by_cases hnone : whole = []
    · subst hnil hnone
      rw [hparts]
      simpa using htotal
    · have := hwhole hnone total rfl
      rw [hparts, hnil]
      simpa using this
  · exact hcut hnil total rfl

theorem capped_length_le (charCap : Option Int) (d : RetrievedDoc R) : (capped charCap d).length ≤ d.text.length := by
  rw [← String.length_toList, ← String.length_toList]
  exact (capped_start charCap d).length_le

/-- Cited in full, the documents render to at least what was shown, and to no more only if every
one of them was shown in full. -/
theorem length_parts (env : Env R) (charCap : Option Int) (docs : List (RetrievedDoc R)) :
    (sectionSep.intercalate (docs.map (part env charCap))).length ≤
        (sectionSep.intercalate (docs.map fun d => header env d ++ d.text)).length ∧
      ((sectionSep.intercalate (docs.map (part env charCap))).length =
          (sectionSep.intercalate (docs.map fun d => header env d ++ d.text)).length →
        ∀ d ∈ docs, capped charCap d = d.text) := by
  induction docs using List.reverseRecOn with
  | nil => simp
  | append_singleton docs d ih =>
      obtain ⟨hle, heq⟩ := ih
      have hshown := length_intercalate_snoc (part env charCap d) (docs.map (part env charCap))
      have hfull := length_intercalate_snoc (header env d ++ d.text) (docs.map fun d => header env d ++ d.text)
      have hcap := capped_length_le charCap d
      simp only [List.map_eq_nil_iff, part, String.length_append] at hshown hfull
      rw [List.map_append, List.map_append, List.map_singleton, List.map_singleton]
      simp only [part] at hle heq ⊢
      refine ⟨by omega, fun h e he => ?_⟩
      rw [List.mem_append, List.mem_singleton] at he
      obtain he | rfl := he
      · exact heq (by omega) e he
      · refine String.toList_injective ((capped_start charCap e).eq_of_length ?_)
        rw [String.length_toList, String.length_toList]
        omega

theorem visible_sublist (charCap : Option Int) (docs : List (RetrievedDoc R)) :
    (visible charCap docs).Sublist docs := List.filter_sublist

theorem Run.cites {env : Env R} {charCap budget : Option Int} {docs : List (RetrievedDoc R)} {acc : Chunks R}
    (h : Run env charCap budget [] docs acc) (hshown : ShownInFull env charCap budget docs) :
    Cites env budget docs (sectionSep.intercalate acc.parts) acc.included := by
  obtain ⟨whole, rest, cut, hsplit, hparts, hincluded, hwhole, hcut, hrest, hend⟩ := h.ends
  rw [List.nil_append] at hparts hincluded hwhole
  have hfull : ∀ d ∈ whole, capped charCap d = d.text := by
    intro d hd
    obtain ⟨before, after, rfl⟩ := List.append_of_mem hd
    refine hshown before d (after ++ rest) (by simp [hsplit]) ?_
    have hfits := hwhole (by simp)
    rw [List.append_cons, List.map_append] at hfits
    exact hfits.of_append
  have hvisible : ∀ d ∈ whole, capped charCap d ≠ "" := by
    intro d hd
    have hmem : d ∈ visible charCap docs := hsplit ▸ List.mem_append_left rest hd
    simpa [visible] using (List.mem_filter.mp hmem).2
  refine ⟨?_, ?_, ?_, ?_⟩
  · rw [hparts, hincluded, List.map_append]
    congr 2
    refine List.map_congr_left fun d hd => ?_
    rw [part, hfull d hd]
  · have hself : ∀ l : List (RetrievedDoc R), List.Forall₂ Clipped l l :=
      fun l => List.forall₂_same.mpr fun d _ => ⟨rfl, List.prefix_rfl⟩
    obtain rfl | ⟨d₀, d', hhead, rfl, hcut'⟩ := hend
    · refine ⟨whole, (hsplit ▸ List.sublist_append_left whole rest).trans (visible_sublist charCap docs), ?_⟩
      rw [hincluded, List.append_nil]
      exact hself whole
    · obtain ⟨rest, rfl⟩ : ∃ rest', rest = d₀ :: rest' := by
        cases rest with
        | nil => cases hhead
        | cons e rest =>
            rw [List.head?_cons, Option.some.injEq] at hhead
            exact ⟨rest, by rw [hhead]⟩
      refine ⟨whole ++ [d₀], ?_, ?_⟩
      · rw [List.append_cons] at hsplit
        exact (hsplit ▸ List.sublist_append_left (whole ++ [d₀]) rest).trans (visible_sublist charCap docs)
      · rw [hincluded]
        exact List.rel_append (hself whole)
          (List.forall₂_cons.mpr ⟨⟨hcut'.same, hcut'.shown.trans (capped_start charCap d₀)⟩, .nil⟩)
  · intro d hd
    rw [hincluded, List.mem_append] at hd
    obtain hd | hd := hd
    · rw [← hfull d hd]
      exact hvisible d hd
    · obtain rfl | ⟨d₀, d', -, rfl, hcut'⟩ := hend
      · cases hd
      · rw [List.mem_singleton.mp hd]
        exact hcut'.inked
  · intro total htotal hnonneg
    subst htotal
    exact h.bounded hnonneg

/-- What fits is shown whole, so where the context is the rendering of the cited texts, the
documents that fit were shown in full. -/
theorem Run.shownInFull {env : Env R} {charCap budget : Option Int} {docs : List (RetrievedDoc R)} {acc : Chunks R}
    (h : Run env charCap budget [] docs acc)
    (hcontext : sectionSep.intercalate acc.parts =
      sectionSep.intercalate (acc.included.map fun d => header env d ++ d.text)) :
    ShownInFull env charCap budget docs := by
  obtain ⟨whole, rest, cut, hsplit, hparts, hincluded, -, -, hrest, hend⟩ := h.ends
  rw [List.nil_append] at hparts hincluded hrest
  rw [hparts, hincluded, List.map_append] at hcontext
  have hall : ∀ d ∈ whole, capped charCap d = d.text := by
    refine (length_parts env charCap whole).2 ?_
    have hlength := congrArg String.length hcontext
    obtain rfl | ⟨d₀, d', -, rfl, -⟩ := hend
    · simpa using hlength
    · have hshown := length_intercalate_snoc (header env d' ++ d'.text) (whole.map (part env charCap))
      have hfull := length_intercalate_snoc (header env d' ++ d'.text)
        (whole.map fun d => header env d ++ d.text)
      simp only [List.map_eq_nil_iff] at hshown hfull
      rw [List.map_singleton] at hlength
      omega
  intro before d after hvisible hfits
  refine hall d ?_
  -- `before ++ [d]` goes no further than `whole`: the next document does not fit.
  have hstop : ∀ e after', rest = e :: after' → ∀ l, before ++ [d] ≠ whole ++ e :: l := by
    intro e after' hcons l heq
    rw [heq, List.append_cons, List.map_append] at hfits
    exact hrest e (by rw [hcons]; rfl) hfits.of_append
  rw [hsplit] at hvisible
  obtain ⟨more, hbefore, hcons⟩ | ⟨more, hwhole, hcons⟩ := List.append_eq_append_iff.mp hvisible
  · cases more with
    | nil => exact absurd (by simp [hbefore]) (hstop d after hcons [])
    | cons e more => exact absurd (by simp [hbefore]) (hstop e (more ++ d :: after) hcons (more ++ [d]))
  · cases more with
    | nil =>
        rw [List.append_nil] at hwhole
        exact absurd (by simp [hwhole]) (hstop d after hcons.symm [])
    | cons e more =>
        rw [List.cons_append, List.cons.injEq] at hcons
        simp [hwhole, hcons.1]

/-- **The citations are what the model saw exactly when every document shown whole is within the
cap for each document.** -/
theorem cites_iff (env : Env R) (docs : List (RetrievedDoc R)) (limit : Int) (charCap budget : Option Int) :
    Cites env budget (docs.take (upTo docs.length limit))
        (formatContextChunks env docs (upTo docs.length limit) charCap budget).1
        (formatContextChunks env docs (upTo docs.length limit) charCap budget).2 ↔
      ShownInFull env charCap budget (docs.take (upTo docs.length limit)) := by
  have hrun := formatContextChunks_run env docs (upTo docs.length limit) charCap budget
  constructor
  · exact fun h => hrun.shownInFull h.context_eq
  · exact hrun.cites

/-- A document of six characters. -/
def sampleDoc : RetrievedDoc ℚ where
  text := "abcdef"
  score := 0
  source := "a.md"
  chunkId := 0
  sourceSha256 := ""
  stemTags := []
  mode := ""
  semanticScore := none
  semanticRank := none
  keywordScore := none
  keywordRank := none
  rrfScore := none
  rrfSemanticContrib := none
  rrfKeywordContrib := none

/-- **Three characters are shown, six are cited.** -/
theorem capped_citation :
    (formatContextChunks sampleEnv [sampleDoc] 1 (some 3) none).1 = "[Source: a.md, Score: ]\nabc" ∧
      (formatContextChunks sampleEnv [sampleDoc] 1 (some 3) none).2 = [sampleDoc] ∧
      ¬ Cites sampleEnv none ([sampleDoc].take (upTo [sampleDoc].length 1))
        (formatContextChunks sampleEnv [sampleDoc] (upTo [sampleDoc].length 1) (some 3) none).1
        (formatContextChunks sampleEnv [sampleDoc] (upTo [sampleDoc].length 1) (some 3) none).2 := by
  have hcontext : (formatContextChunks sampleEnv [sampleDoc] 1 (some 3) none).1 =
      "[Source: a.md, Score: ]\nabc" := by
    decide
  refine ⟨hcontext, rfl, fun h => ?_⟩
  have hcited := h.context_eq
  revert hcited
  decide

end CyClaw.Graph

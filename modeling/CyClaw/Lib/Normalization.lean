/-
Normalization forms of a text.

A text is decomposed character by character, the marks that follow a character are put in
the order of their classes, and what is left is composed: a character takes a mark after it
unless something between them blocks the mark.  `nfkd` is the text before composition and
`nfkc` the text after it.

Two facts carry the rest.  A character that nothing composes with from the left is a
boundary: ordering and composition do not reach across it.  And composition does not change
what a text decomposes to, so a text may be normalized in pieces as long as the pieces are
normalized once more together.
-/
import Mathlib.Data.List.Basic

namespace Normalization

variable {α : Type}

/-! ### Canonical order -/

/-- Let a character pass the marks of smaller class before it. -/
def insertMark (ccc : α → ℕ) (c : α) : List α → List α
  | [] => [c]
  | d :: l => if 0 < ccc d ∧ ccc d < ccc c then d :: insertMark ccc c l else c :: d :: l

def order (ccc : α → ℕ) : List α → List α
  | [] => []
  | c :: t => insertMark ccc c (order ccc t)

/-- What is known of characters: their decompositions, the classes of marks, and which two
characters compose. -/
structure CharData (α : Type) where
  decomp : α → List α
  ccc : α → ℕ
  composite : α → α → Option α
  decomp_ne_nil : ∀ c, decomp c ≠ []
  decomp_full : ∀ c, ∀ d ∈ decomp c, decomp d = [d]
  composite_decomp : ∀ a b c, composite a b = some c → decomp c = order ccc (decomp a ++ decomp b)

section Order

variable {ccc : α → ℕ}

theorem insertMark_starter {c : α} (h : ccc c = 0) (l : List α) : insertMark ccc c l = c :: l := by
  cases l <;> simp [insertMark, h]

/-- A starter keeps what is before it from passing. -/
theorem insertMark_append_starter {c : α} (h : ccc c = 0) (b : α) (x l : List α) :
    insertMark ccc b (x ++ c :: l) = insertMark ccc b x ++ c :: l := by
  induction x with
  | nil => simp [insertMark, h]
  | cons d x ih =>
      rw [List.cons_append, insertMark, insertMark, ih]
      split <;> simp

theorem mem_insertMark {c d : α} {l : List α} : d ∈ insertMark ccc c l ↔ d = c ∨ d ∈ l := by
  induction l with
  | nil => simp [insertMark]
  | cons e l ih =>
      rw [insertMark]
      split
      · simp only [List.mem_cons, ih]
        exact or_left_comm
      · simp

@[simp] theorem mem_order {c : α} {t : List α} : c ∈ order ccc t ↔ c ∈ t := by
  induction t with
  | nil => simp [order]
  | cons d t ih => rw [order, mem_insertMark, ih, List.mem_cons]

theorem length_insertMark (c : α) (l : List α) : (insertMark ccc c l).length = l.length + 1 := by
  induction l with
  | nil => rfl
  | cons d l ih =>
      rw [insertMark]
      split <;> simp [ih]

@[simp] theorem length_order (t : List α) : (order ccc t).length = t.length := by
  induction t with
  | nil => rfl
  | cons c t ih => rw [order, length_insertMark, ih, List.length_cons]

/-- A mark of smaller class and one of larger class may be put in either first. -/
theorem insertMark_comm {c d : α} (hd : 0 < ccc d) (hlt : ccc d < ccc c) (l : List α) :
    insertMark ccc c (insertMark ccc d l) = insertMark ccc d (insertMark ccc c l) := by
  have hnot : ¬(0 < ccc c ∧ ccc c < ccc d) := by omega
  induction l with
  | nil => simp [insertMark, hd, hlt, hnot]
  | cons e l ih =>
      by_cases hed : 0 < ccc e ∧ ccc e < ccc d
      · have hec : 0 < ccc e ∧ ccc e < ccc c := by omega
        simp only [insertMark, if_pos hed, if_pos hec, ih]
      · by_cases hec : 0 < ccc e ∧ ccc e < ccc c
        · simp only [insertMark, if_neg hed, if_pos hec, if_pos (And.intro hd hlt)]
        · simp only [insertMark, if_neg hed, if_neg hec, if_neg hnot, if_pos (And.intro hd hlt)]

/-- The marks of `x` put one after the other, the last one first, into `l`. -/
def insertAll (ccc : α → ℕ) (x l : List α) : List α := x.foldr (insertMark ccc) l

theorem order_append (x y : List α) : order ccc (x ++ y) = insertAll ccc x (order ccc y) := by
  induction x with
  | nil => rfl
  | cons c x ih => rw [List.cons_append, order, ih, insertAll, insertAll, List.foldr_cons]

theorem insertAll_insertMark (c : α) (x l : List α) :
    insertAll ccc (insertMark ccc c x) l = insertMark ccc c (insertAll ccc x l) := by
  induction x with
  | nil => rfl
  | cons d x ih =>
      rw [insertMark]
      split
      · rename_i h
        simp only [insertAll, List.foldr_cons] at ih ⊢
        rw [ih, insertMark_comm h.1 h.2]
      · rfl

theorem insertAll_order (x l : List α) : insertAll ccc (order ccc x) l = insertAll ccc x l := by
  induction x with
  | nil => rfl
  | cons c x ih => rw [order, insertAll_insertMark, ih, insertAll, insertAll, List.foldr_cons]

@[simp] theorem order_order_append (x y : List α) : order ccc (order ccc x ++ y) = order ccc (x ++ y) := by
  rw [order_append, order_append, insertAll_order]

@[simp] theorem order_order (x : List α) : order ccc (order ccc x) = order ccc x := by
  have h := @order_order_append α ccc x []
  rwa [List.append_nil, List.append_nil] at h

@[simp] theorem order_append_order (x y : List α) : order ccc (x ++ order ccc y) = order ccc (x ++ y) := by
  rw [order_append, order_append, order_order]

/-- Ordering does not reach across a starter. -/
theorem order_append_starter {c : α} (h : ccc c = 0) (x y : List α) :
    order ccc (x ++ c :: y) = order ccc x ++ c :: order ccc y := by
  induction x with
  | nil => exact insertMark_starter h (order ccc y)
  | cons b x ih => rw [List.cons_append, order, ih, insertMark_append_starter h, order]

/-- A mark may be moved to before marks of smaller class. -/
theorem order_swap {c : α} {k : List α} (h : ∀ d ∈ k, 0 < ccc d ∧ ccc d < ccc c) (y : List α) :
    order ccc (c :: k ++ y) = order ccc (k ++ c :: y) := by
  induction k with
  | nil => rfl
  | cons d k ih =>
      obtain ⟨hd, hk⟩ := List.forall_mem_cons.mp h
      have hrec := ih hk
      rw [List.cons_append, order] at hrec
      rw [List.cons_append, List.cons_append, order, order, insertMark_comm hd.1 hd.2, hrec]
      rfl

end Order

namespace CharData

variable (u : CharData α)

/-! ### Decomposition -/

/-- The text before composition. -/
def nfkd (t : List α) : List α := order u.ccc (t.flatMap u.decomp)

/-- Every character decomposes to itself. -/
def Decomposed (t : List α) : Prop := ∀ c ∈ t, u.decomp c = [c]

theorem nfkd_decomposed (t : List α) : u.Decomposed (u.nfkd t) := by
  intro d hd
  rw [nfkd, mem_order, List.mem_flatMap] at hd
  obtain ⟨c, -, hdc⟩ := hd
  exact u.decomp_full c d hdc

variable {u}

theorem Decomposed.flatMap {t : List α} (h : u.Decomposed t) : t.flatMap u.decomp = t := by
  induction t with
  | nil => rfl
  | cons c t ih =>
      obtain ⟨hc, ht⟩ := List.forall_mem_cons.mp h
      rw [List.flatMap_cons, hc, ih ht, List.singleton_append]

theorem Decomposed.of_append_right {s t : List α} (h : u.Decomposed (s ++ t)) : u.Decomposed t :=
  fun c hc => h c (List.mem_append_right s hc)

theorem nfkd_append (s t : List α) : u.nfkd (s ++ t) = order u.ccc (u.nfkd s ++ u.nfkd t) := by
  simp only [nfkd, List.flatMap_append, order_order_append, order_append_order]

/-! ### Composition -/

variable (u)

/-- Something between the starter and the mark keeps them from composing. -/
def blocked (kept : List α) (c : α) : Bool := kept.any fun d => u.ccc d == 0 || u.ccc c ≤ u.ccc d

/-- The character that takes the next one, if the last starter does. -/
def taken (s : α) (kept : List α) (c : α) : Option α :=
  if u.blocked kept c then none else u.composite s c

/-- Compose from a starter on; `kept` are the marks after it that it did not take. -/
def composeFrom (s : α) (kept : List α) : List α → List α
  | [] => s :: kept
  | c :: t =>
      match u.taken s kept c with
      | some s' => composeFrom s' kept t
      | none => if u.ccc c = 0 then s :: kept ++ composeFrom c [] t else composeFrom s (kept ++ [c]) t

def compose : List α → List α
  | [] => []
  | c :: t => if u.ccc c = 0 then u.composeFrom c [] t else c :: compose t

/-- The text after composition. -/
def nfkc (t : List α) : List α := u.compose (u.nfkd t)

/-- Nothing before the character takes it, and no mark passes it. -/
structure Boundary (c : α) : Prop where
  starter : u.ccc c = 0
  untaken : ∀ a, u.composite a c = none

/-- The character takes a mark of the text after it. -/
def Absorbs (c : α) (t : List α) : Prop :=
  ∃ x d y, t = x ++ d :: y ∧ (∀ e ∈ x, 0 < u.ccc e ∧ u.ccc e < u.ccc d) ∧ (u.composite c d).isSome

variable {u}

theorem taken_eq_some {s c s' : α} {kept : List α} (h : u.taken s kept c = some s') :
    u.blocked kept c = false ∧ u.composite s c = some s' := by
  rw [taken] at h
  by_cases hb : u.blocked kept c = true
  · simp [hb] at h
  · simpa [hb] using h

theorem not_blocked {kept : List α} {c : α} (h : u.blocked kept c = false) :
    ∀ d ∈ kept, 0 < u.ccc d ∧ u.ccc d < u.ccc c := by
  intro d hd
  have hany := List.any_eq_false.mp h d hd
  simp only [Bool.or_eq_true, beq_iff_eq, decide_eq_true_eq, not_or, Nat.not_le] at hany
  omega

theorem Boundary.taken {c : α} (h : u.Boundary c) (s : α) (kept : List α) : u.taken s kept c = none := by
  rw [CharData.taken, h.untaken]
  split <;> rfl

/-- Composition does not reach across a boundary. -/
theorem composeFrom_boundary {c : α} (h : u.Boundary c) (s : α) (kept x y : List α) :
    u.composeFrom s kept (x ++ c :: y) = u.composeFrom s kept x ++ u.composeFrom c [] y := by
  induction x generalizing s kept with
  | nil => simp [composeFrom, h.taken, h.starter]
  | cons d x ih =>
      rw [List.cons_append, composeFrom, composeFrom]
      cases u.taken s kept d with
      | some s' => exact ih s' kept
      | none =>
          by_cases hd : u.ccc d = 0
          · simp only [if_pos hd, ih, List.append_assoc]
          · simp only [if_neg hd, ih]

theorem compose_boundary {c : α} (h : u.Boundary c) (x y : List α) :
    u.compose (x ++ c :: y) = u.compose x ++ u.composeFrom c [] y := by
  induction x with
  | nil => simp [compose, h.starter]
  | cons d x ih =>
      rw [List.cons_append, compose, compose]
      by_cases hd : u.ccc d = 0
      · rw [if_pos hd, if_pos hd, composeFrom_boundary h]
      · rw [if_neg hd, if_neg hd, ih, List.cons_append]

/-- A text that begins with a character whose decomposition begins at a boundary may be
normalized apart from what is before it. -/
theorem nfkc_boundary {c d : α} {ms : List α} (hdecomp : u.decomp c = d :: ms) (h : u.Boundary d) (x y : List α) :
    u.nfkc (x ++ c :: y) = u.nfkc x ++ u.nfkc (c :: y) := by
  have hd (z : List α) : u.nfkd (z ++ c :: y) = u.nfkd z ++ d :: order u.ccc (ms ++ y.flatMap u.decomp) := by
    rw [nfkd, List.flatMap_append, List.flatMap_cons, hdecomp, List.cons_append, order_append_starter h.starter, nfkd]
  have hc := hd []
  rw [List.nil_append] at hc
  rw [nfkc, nfkc, nfkc, hd, hc, compose_boundary h, compose_boundary h]
  rfl

theorem nfkc_singleton {c d : α} (h : u.decomp c = [d]) : u.nfkc [c] = [d] := by
  rw [nfkc, nfkd, List.flatMap_singleton, h, order, order, insertMark, compose]
  split <;> rfl

/-- After a starter that takes nothing composition starts anew. -/
theorem composeFrom_inert {c : α} (h : ∀ d, u.composite c d = none) (kept t : List α) :
    u.composeFrom c kept t = c :: (kept ++ u.compose t) := by
  induction t generalizing kept with
  | nil => rw [composeFrom, compose, List.append_nil]
  | cons d t ih =>
      have hnone : u.taken c kept d = none := by
        rw [taken, h]
        split <;> rfl
      rw [composeFrom, hnone, compose]
      by_cases hd : u.ccc d = 0
      · simp only [if_pos hd, List.cons_append]
      · simp only [if_neg hd, ih, List.append_assoc, List.singleton_append]

/-- Normalization does not look across a boundary that takes nothing. -/
theorem nfkc_inert {c : α} (hc : u.Boundary c) (hself : u.decomp c = [c]) (h : ∀ d, u.composite c d = none)
    (x y : List α) : u.nfkc (x ++ c :: y) = u.nfkc x ++ c :: u.nfkc y := by
  have hy : u.nfkd (c :: y) = c :: u.nfkd y := by
    rw [nfkd, List.flatMap_cons, hself, List.singleton_append, order, insertMark_starter hc.starter, nfkd]
  rw [nfkc_boundary hself hc, nfkc, nfkc, hy, compose, if_pos hc.starter, composeFrom_inert h, List.nil_append, nfkc]

/-! ### What composition leaves -/

/-- Composing does not change what a text decomposes to. -/
theorem nfkd_composeFrom (s : α) (kept : List α) {t : List α} (hkept : u.Decomposed kept) (ht : u.Decomposed t) :
    u.nfkd (u.composeFrom s kept t) = order u.ccc (u.decomp s ++ (kept ++ t)) := by
  induction t generalizing s kept with
  | nil => rw [composeFrom, nfkd, List.flatMap_cons, hkept.flatMap, List.append_nil]
  | cons c t ih =>
      obtain ⟨hc, ht'⟩ := List.forall_mem_cons.mp ht
      rw [composeFrom]
      cases htaken : u.taken s kept c with
      | some s' =>
          -- The mark comes to stand before the kept ones, all of which it could pass.
          obtain ⟨hfree, hcomp⟩ := taken_eq_some htaken
          have hswap := order_swap (not_blocked hfree) t
          calc u.nfkd (u.composeFrom s' kept t)
              = order u.ccc (u.decomp s' ++ (kept ++ t)) := ih s' kept hkept ht'
            _ = order u.ccc (u.decomp s ++ (c :: kept ++ t)) := by
                rw [u.composite_decomp s c s' hcomp, order_order_append, hc]
                simp
            _ = order u.ccc (u.decomp s ++ (kept ++ c :: t)) := by
                rw [← order_append_order, hswap, order_append_order]
      | none =>
          by_cases hstarter : u.ccc c = 0
          · simp only [if_pos hstarter]
            rw [nfkd_append, ih c [] (by simp [Decomposed]) ht', hc, nfkd, List.flatMap_cons, hkept.flatMap]
            simp
          · have hsnoc : u.Decomposed (kept ++ [c]) := List.forall_mem_append.mpr ⟨hkept, by simpa using hc⟩
            simp only [if_neg hstarter]
            rw [ih s (kept ++ [c]) hsnoc ht', List.append_assoc, List.singleton_append]

theorem nfkd_compose {t : List α} (ht : u.Decomposed t) : u.nfkd (u.compose t) = order u.ccc t := by
  induction t with
  | nil => rfl
  | cons c t ih =>
      obtain ⟨hc, ht'⟩ := List.forall_mem_cons.mp ht
      rw [compose]
      split
      · rw [nfkd_composeFrom c [] (by simp [Decomposed]) ht', hc]
        simp
      · rw [← List.singleton_append, nfkd_append, ih ht', order_append_order, nfkd, List.flatMap_singleton, hc,
          order_order_append, List.singleton_append]

@[simp] theorem nfkd_nfkc (t : List α) : u.nfkd (u.nfkc t) = u.nfkd t := by
  rw [nfkc, nfkd_compose (u.nfkd_decomposed t), nfkd, order_order]

theorem nfkd_flatMap_nfkc (ps : List (List α)) : u.nfkd (ps.flatMap u.nfkc) = u.nfkd ps.flatten := by
  induction ps with
  | nil => rfl
  | cons p ps ih => rw [List.flatMap_cons, List.flatten_cons, nfkd_append, nfkd_append, nfkd_nfkc, ih]

/-- Pieces that were normalized each come together as the whole text does. -/
theorem nfkc_flatMap_nfkc (ps : List (List α)) : u.nfkc (ps.flatMap u.nfkc) = u.nfkc ps.flatten := by
  rw [nfkc, nfkd_flatMap_nfkc, nfkc]

/-! ### A stretch of the composed text -/

theorem two_le_of_composite {a b c : α} (h : u.composite a b = some c) : 2 ≤ (u.decomp c).length := by
  rw [u.composite_decomp a b c h, length_order, List.length_append]
  have ha := List.length_pos_of_ne_nil (u.decomp_ne_nil a)
  have hb := List.length_pos_of_ne_nil (u.decomp_ne_nil b)
  omega

theorem mem_composeFrom {s c : α} {kept t : List α} (h : c ∈ u.composeFrom s kept t) :
    c ∈ s :: (kept ++ t) ∨ 2 ≤ (u.decomp c).length := by
  induction t generalizing s kept with
  | nil => left; simpa [composeFrom] using h
  | cons d t ih =>
      rw [composeFrom] at h
      cases htaken : u.taken s kept d with
      | some s' =>
          rw [htaken] at h
          obtain hmem | hlong := ih h
          · obtain rfl | hmem := List.mem_cons.mp hmem
            · exact Or.inr (two_le_of_composite (taken_eq_some htaken).2)
            · left
              simp only [List.mem_append, List.mem_cons] at hmem ⊢
              tauto
          · exact Or.inr hlong
      | none =>
          rw [htaken] at h
          by_cases hd : u.ccc d = 0
          · simp only [if_pos hd] at h
            obtain h | h := List.mem_append.mp h
            · left
              simp only [List.mem_append, List.mem_cons] at h ⊢
              tauto
            · refine (ih h).imp_left fun hmem => ?_
              simp only [List.nil_append, List.mem_append, List.mem_cons] at hmem ⊢
              tauto
          · simp only [if_neg hd] at h
            refine (ih h).imp_left fun hmem => ?_
            simpa using hmem

/-- A character of the composed text was in the text or decomposes to several. -/
theorem mem_compose {c : α} {t : List α} (h : c ∈ u.compose t) : c ∈ t ∨ 2 ≤ (u.decomp c).length := by
  induction t with
  | nil => simp [compose] at h
  | cons d t ih =>
      rw [compose] at h
      split at h
      · simpa using mem_composeFrom h
      · obtain rfl | h := List.mem_cons.mp h
        · exact Or.inl List.mem_cons_self
        · exact (ih h).imp_left (List.mem_cons_of_mem d)

/-- What a starter becomes begins, decomposed, as the starter does. -/
theorem decomp_taken {s d c s' : α} {ms kept : List α} (hd : u.ccc d = 0) (hs : u.decomp s = d :: ms)
    (h : u.taken s kept c = some s') : u.decomp s' = d :: order u.ccc (ms ++ u.decomp c) := by
  rw [u.composite_decomp s c s' (taken_eq_some h).2, hs, List.cons_append, order, insertMark_starter hd]

/-- The first character is the starter, or one composed from it. -/
theorem composeFrom_head {s d : α} {ms : List α} (hd : u.ccc d = 0) (hs : u.decomp s = d :: ms) (kept t : List α) :
    ∃ h rest ms', u.composeFrom s kept t = h :: rest ∧ u.decomp h = d :: ms' ∧
      (h = s ∨ 2 ≤ (u.decomp h).length) := by
  induction t generalizing s kept ms with
  | nil => exact ⟨s, kept, ms, rfl, hs, Or.inl rfl⟩
  | cons c t ih =>
      rw [composeFrom]
      cases htaken : u.taken s kept c with
      | some s' =>
          obtain ⟨h, rest, ms', hrest, hh, hlong⟩ := ih (decomp_taken hd hs htaken) kept
          refine ⟨h, rest, ms', hrest, hh, Or.inr ?_⟩
          obtain rfl | hlong := hlong
          · exact two_le_of_composite (taken_eq_some htaken).2
          · exact hlong
      | none =>
          by_cases hstarter : u.ccc c = 0
          · exact ⟨s, _, ms, by rw [if_pos hstarter]; rfl, hs, Or.inl rfl⟩
          · simp only [if_neg hstarter]
            exact ih hs (kept ++ [c])

theorem composeFrom_of_not_absorbs {s : α} {t : List α} (h : ¬u.Absorbs s t) :
    ∃ rest, u.composeFrom s [] t = s :: rest := by
  suffices hkept : ∀ kept, (∀ x d y, t = x ++ d :: y → (∀ e ∈ x, 0 < u.ccc e ∧ u.ccc e < u.ccc d) →
      u.taken s kept d = none) → ∃ rest, u.composeFrom s kept t = s :: rest by
    refine hkept [] ?_
    intro x d y ht hx
    by_contra hsome
    exact h ⟨x, d, y, ht, hx, by simpa [taken, blocked] using Option.ne_none_iff_isSome.mp hsome⟩
  clear h
  intro kept hfree
  induction t generalizing kept with
  | nil => exact ⟨kept, rfl⟩
  | cons c t ih =>
      rw [composeFrom, hfree [] c t rfl (by simp)]
      by_cases hc : u.ccc c = 0
      · exact ⟨_, by simp only [if_pos hc]; rfl⟩
      · simp only [if_neg hc]
        refine ih (kept ++ [c]) ?_
        intro x d y ht hx
        by_cases hlt : u.ccc c < u.ccc d
        · -- What the passed mark does not block was to be taken before it was passed.
          have hnone := hfree (c :: x) d y (by rw [ht]; rfl) (by simpa [hlt, Nat.pos_of_ne_zero hc] using hx)
          have hblocked : u.blocked (kept ++ [c]) d = u.blocked kept d := by
            simp [blocked, hc, Nat.not_le.mpr hlt]
          rw [taken, hblocked]
          exact hnone
        · simp [taken, blocked, Nat.le_of_not_lt hlt]

theorem composeFrom_of_absorbs {s d : α} {ms t : List α} (hd : u.ccc d = 0) (hs : u.decomp s = d :: ms)
    (h : u.Absorbs s t) : ∃ c rest, u.composeFrom s [] t = c :: rest ∧ 2 ≤ (u.decomp c).length := by
  obtain ⟨x, c, y, rfl, hx, hcomp⟩ := h
  have hgrown : ∀ {kept b s' t}, u.taken s kept b = some s' →
      ∃ c rest, u.composeFrom s' kept t = c :: rest ∧ 2 ≤ (u.decomp c).length := by
    intro kept b s' t htaken
    obtain ⟨h, rest, -, hrest, -, hlong⟩ := composeFrom_head hd (decomp_taken hd hs htaken) kept t
    obtain rfl | hlong := hlong
    · exact ⟨h, rest, hrest, two_le_of_composite (taken_eq_some htaken).2⟩
    · exact ⟨h, rest, hrest, hlong⟩
  suffices hkept : ∀ kept, u.blocked kept c = false →
      ∃ c' rest, u.composeFrom s kept (x ++ c :: y) = c' :: rest ∧ 2 ≤ (u.decomp c').length from
    hkept [] rfl
  induction x with
  | nil =>
      intro kept hfree
      obtain ⟨s', hs'⟩ := Option.isSome_iff_exists.mp hcomp
      have htaken : u.taken s kept c = some s' := by simp [taken, hfree, hs']
      rw [List.nil_append, composeFrom, htaken]
      exact hgrown htaken
  | cons e x ih =>
      intro kept hfree
      obtain ⟨he, hx'⟩ := List.forall_mem_cons.mp hx
      rw [List.cons_append, composeFrom]
      cases htaken : u.taken s kept e with
      | some s' => exact hgrown htaken
      | none =>
          have hstarter : u.ccc e ≠ 0 := by omega
          simp only [if_neg hstarter]
          refine ih hx' (kept ++ [e]) ?_
          simpa [blocked, hstarter, he.2] using hfree

/-- A starter of the composed text comes from a starter of the text. -/
theorem composeFrom_split {s c : α} {kept t A B : List α} (hkept : ∀ d ∈ kept, u.ccc d ≠ 0) (hc : u.ccc c = 0)
    (hA : A ≠ []) (h : u.composeFrom s kept t = A ++ c :: B) :
    ∃ x d y, t = x ++ d :: y ∧ u.ccc d = 0 ∧ u.composeFrom s kept x = A ∧ u.composeFrom d [] y = c :: B := by
  -- It is none of the marks that were kept.
  have hpast : ∀ {s : α} {kept r A : List α}, (∀ d ∈ kept, u.ccc d ≠ 0) → A ≠ [] → s :: kept ++ r = A ++ c :: B →
      ∃ A', A = s :: kept ++ A' ∧ r = A' ++ c :: B := by
    intro s kept r A hkept hA heq
    obtain ⟨A', hA', hr⟩ | ⟨C, hC, hr⟩ := List.append_eq_append_iff.mp heq
    · exact ⟨A', hA', hr⟩
    · cases C with
      | nil => exact ⟨[], by simpa using hC.symm, by simpa using hr.symm⟩
      | cons c' C =>
          obtain ⟨rfl, rfl⟩ := List.cons_eq_cons.mp hr
          cases A with
          | nil => exact absurd rfl hA
          | cons a A =>
              have hmem : c ∈ kept := by
                rw [List.cons_append, List.cons_eq_cons] at hC
                rw [hC.2]
                simp
              exact absurd hc (hkept c hmem)
  induction t generalizing s kept A with
  | nil =>
      rw [composeFrom, ← List.append_nil (s :: kept)] at h
      obtain ⟨A', -, hr⟩ := hpast hkept hA h
      simp at hr
  | cons b t ih =>
      rw [composeFrom] at h
      cases htaken : u.taken s kept b with
      | some s' =>
          rw [htaken] at h
          obtain ⟨x, d, y, rfl, hd, hx, hy⟩ := ih hkept hA h
          exact ⟨b :: x, d, y, rfl, hd, by rw [composeFrom, htaken]; exact hx, hy⟩
      | none =>
          rw [htaken] at h
          by_cases hb : u.ccc b = 0
          · simp only [if_pos hb] at h
            obtain ⟨A', rfl, hr⟩ := hpast hkept hA h
            by_cases hA' : A' = []
            · rw [hA', List.nil_append] at hr
              exact ⟨[], b, t, rfl, hb, by simp [composeFrom, hA'], hr⟩
            · obtain ⟨x, d, y, rfl, hd, hx, hy⟩ := ih (by simp) hA' hr
              refine ⟨b :: x, d, y, rfl, hd, ?_, hy⟩
              rw [composeFrom, htaken]
              simp only [if_pos hb, hx]
          · simp only [if_neg hb] at h
            have hsnoc : ∀ d ∈ kept ++ [b], u.ccc d ≠ 0 := List.forall_mem_append.mpr ⟨hkept, by simpa using hb⟩
            obtain ⟨x, d, y, rfl, hd, hx, hy⟩ := ih hsnoc hA h
            refine ⟨b :: x, d, y, rfl, hd, ?_, hy⟩
            rw [composeFrom, htaken]
            simp only [if_neg hb, hx]

theorem compose_split {c : α} {t A B : List α} (hc : u.ccc c = 0) (h : u.compose t = A ++ c :: B) :
    ∃ x d y, t = x ++ d :: y ∧ u.ccc d = 0 ∧ u.compose x = A ∧ u.composeFrom d [] y = c :: B := by
  induction t generalizing A with
  | nil => simp [compose] at h
  | cons b t ih =>
      rw [compose] at h
      by_cases hb : u.ccc b = 0
      · rw [if_pos hb] at h
        by_cases hA : A = []
        · exact ⟨[], b, t, rfl, hb, by rw [hA]; rfl, by simpa [hA] using h⟩
        · obtain ⟨x, d, y, rfl, hd, hx, hy⟩ := composeFrom_split (by simp) hc hA h
          exact ⟨b :: x, d, y, rfl, hd, by rw [compose, if_pos hb, hx], hy⟩
      · rw [if_neg hb] at h
        cases A with
        | nil =>
            obtain ⟨rfl, -⟩ := List.cons_eq_cons.mp h
            exact absurd hc hb
        | cons a A =>
            obtain ⟨rfl, htail⟩ := List.cons_eq_cons.mp h
            obtain ⟨x, d, y, rfl, hd, hx, hy⟩ := ih htail
            exact ⟨b :: x, d, y, rfl, hd, by rw [compose, if_neg hb, hx], hy⟩

/-- A stretch of the composed text that ends in a character of its own is what a stretch of
the text composes to, and its end takes no mark of what follows. -/
theorem compose_stretch {t A N B : List α} {c₁ c₂ : α} (ht : u.Decomposed t) (h₁ : u.ccc c₁ = 0)
    (h₂ : u.Boundary c₂) (hone : (u.decomp c₂).length = 1) (h : u.compose t = A ++ c₁ :: (N ++ c₂ :: B)) :
    ∃ x a y z, t = x ++ a :: (y ++ c₂ :: z) ∧ (∃ ms, u.decomp c₁ = a :: ms) ∧
      u.compose (a :: (y ++ [c₂])) = c₁ :: (N ++ [c₂]) ∧ ¬u.Absorbs c₂ z := by
  obtain ⟨x, a, r, rfl, ha, -, hr⟩ := compose_split h₁ h
  obtain ⟨y, d, z, rfl, hd, hy, hz⟩ :=
    composeFrom_split (A := c₁ :: N) (by simp) h₂.starter (by simp) hr
  have hself : ∀ b ∈ a :: (y ++ d :: z), u.decomp b = [b] := ht.of_append_right
  have hda : u.decomp a = [a] := hself a (by simp)
  have hdd : u.decomp d = [d] := hself d (by simp)
  obtain ⟨_, _, ms, heq, hms, -⟩ := composeFrom_head ha hda [] (y ++ d :: z)
  obtain ⟨rfl, -⟩ := List.cons_eq_cons.mp (hr.symm.trans heq)
  obtain ⟨_, _, -, heq, -, hlong⟩ := composeFrom_head hd hdd [] z
  obtain ⟨rfl, -⟩ := List.cons_eq_cons.mp (hz.symm.trans heq)
  obtain rfl : c₂ = d := hlong.resolve_right (by omega)
  refine ⟨x, a, y, z, rfl, ⟨ms, hms⟩, ?_, ?_⟩
  · rw [compose, if_pos ha, composeFrom_boundary h₂, hy]
    rfl
  · intro habsorbs
    obtain ⟨_, _, heq, hlong⟩ := composeFrom_of_absorbs hd hdd habsorbs
    obtain ⟨rfl, -⟩ := List.cons_eq_cons.mp (hz.symm.trans heq)
    omega

/-- A stretch between two boundaries composes by itself when its end takes no mark of what
follows. -/
theorem compose_of_stretch {a c : α} (ha : u.Boundary a) (hc : u.Boundary c) (x y : List α) {z : List α}
    (h : ¬u.Absorbs c z) :
    ∃ B, u.compose (x ++ a :: (y ++ c :: z)) = u.compose x ++ u.compose (a :: (y ++ [c])) ++ B := by
  obtain ⟨B, hB⟩ := composeFrom_of_not_absorbs h
  refine ⟨B, ?_⟩
  rw [compose_boundary ha, composeFrom_boundary hc, hB, compose, if_pos ha.starter, composeFrom_boundary hc]
  simp [composeFrom]

end CharData

end Normalization

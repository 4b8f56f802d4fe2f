/-
The best `k` elements of a list.

A choice keeps `k` elements, or all of them, and none that is dropped is better than one that is kept
(`Chosen`).  Filling a heap of bounded size chooses (`chosen_foldl_offer`), and so does cutting a
sorted list (`chosen_take`).  Two orders that agree on `f`, and are opposite where `f` does not part two
elements, choose the same just when `f` has no tie at the cut (`perm_iff_not_tied`).  In terms of the keys of a
sort the choice is by rank (`exists_mem_take_iff`).
-/
import Mathlib.Data.List.Sort
import Mathlib.Order.Lattice

namespace CyClaw.TopK

variable {α : Type}

/-- So many elements are kept, and nothing that is dropped is better by `r` than one of them. -/
structure Chosen (r : α → α → Prop) (k : ℕ) (all kept dropped : List α) : Prop where
  perm : (kept ++ dropped).Perm all
  better : ∀ a ∈ kept, ∀ b ∈ dropped, r a b
  atMost : kept.length ≤ k
  full : dropped ≠ [] → kept.length = k

theorem chosen_take {r : α → α → Prop} {l : List α} (h : l.Pairwise r) (k : ℕ) :
    Chosen r k l (l.take k) (l.drop k) where
  perm := by rw [List.take_append_drop]
  better := (List.pairwise_append.mp ((List.take_append_drop k l).symm ▸ h)).2.2
  atMost := List.length_take_le k l
  full := by
    intro hdropped
    rw [List.length_take, Nat.min_eq_left]
    by_contra hshort
    exact hdropped (List.drop_eq_nil_of_le (Nat.le_of_not_le hshort))

theorem Chosen.of_perm {r : α → α → Prop} {k : ℕ} {all all' kept dropped : List α} (h : Chosen r k all kept dropped)
    (hperm : all.Perm all') : Chosen r k all' kept dropped :=
  { h with perm := h.perm.trans hperm }

theorem Chosen.length_kept {r : α → α → Prop} {k : ℕ} {all kept dropped : List α} (h : Chosen r k all kept dropped) :
    kept.length = min k all.length := by
  have hlength := h.perm.length_eq
  rw [List.length_append] at hlength
  have hatMost := h.atMost
  cases dropped with
  | nil =>
    rw [List.length_nil] at hlength
    omega
  | cons b dropped =>
    have hfull := h.full (List.cons_ne_nil b dropped)
    omega

theorem Chosen.mem_all {r : α → α → Prop} {k : ℕ} {all kept dropped : List α} (h : Chosen r k all kept dropped)
    {a : α} : a ∈ all ↔ a ∈ kept ∨ a ∈ dropped := by
  rw [← h.perm.mem_iff, List.mem_append]

theorem Chosen.nodup {r : α → α → Prop} {k : ℕ} {all kept dropped : List α} (h : Chosen r k all kept dropped)
    (hnodup : all.Nodup) : kept.Nodup ∧ ∀ a ∈ kept, a ∉ dropped := by
  obtain ⟨hkept, -, hdisjoint⟩ := List.nodup_append.mp (h.perm.nodup_iff.mpr hnodup)
  exact ⟨hkept, fun a ha hb => hdisjoint a ha a hb rfl⟩

/-! ### A heap of bounded size -/

section Heap

variable (le : α → α → Prop) [DecidableRel le] (k : ℕ)

/-- An element is offered to a heap.  A heap is a list in order here, its least element first: no
other place of it is looked at. -/
def offer (heap : List α) (x : α) : List α :=
  if heap.length < k then heap.orderedInsert le x
  else
    match heap with
    | [] => []
    | least :: rest => if le x least then heap else rest.orderedInsert le x

variable {le k} [Std.Total le] [IsTrans α le] {heap dropped all : List α}

theorem sorted_offer (h : heap.Pairwise le) (x : α) : (offer le k heap x).Pairwise le := by
  unfold offer
  split
  · exact h.orderedInsert x heap
  · cases heap with
    | nil => exact List.Pairwise.nil
    | cons least rest =>
      dsimp only
      split
      · exact h
      · exact (List.pairwise_cons.mp h).2.orderedInsert x rest

/-- What is offered is kept, or something no better is dropped. -/
theorem chosen_offer (hsorted : heap.Pairwise le) (h : Chosen (fun a b => le b a) k all heap dropped) (x : α) :
    ∃ dropped', Chosen (fun a b => le b a) k (x :: all) (offer le k heap x) dropped' := by
  unfold offer
  split
  · rename_i hroom
    have hnone : dropped = [] := by
      by_contra hdropped
      exact absurd (h.full hdropped) (Nat.ne_of_lt hroom)
    subst hnone
    refine ⟨[], ?_, fun a _ b hb => absurd hb List.not_mem_nil, ?_, fun hne => absurd rfl hne⟩
    · rw [List.append_nil]
      have hperm := h.perm
      rw [List.append_nil] at hperm
      exact (List.perm_orderedInsert le x heap).trans (hperm.cons x)
    · rw [List.orderedInsert_length]
      exact hroom
  · rename_i hroom
    have hfull : heap.length = k := Nat.le_antisymm h.atMost (Nat.le_of_not_lt hroom)
    cases heap with
    | nil =>
      refine ⟨x :: dropped, h.perm.cons x, fun a ha => absurd ha List.not_mem_nil, h.atMost, fun _ => hfull⟩
    | cons least rest =>
      obtain ⟨hleast, hrest⟩ := List.pairwise_cons.mp hsorted
      dsimp only
      split
      · rename_i hle
        refine ⟨x :: dropped, List.perm_middle.trans (h.perm.cons x), ?_, h.atMost, fun _ => hfull⟩
        intro a ha b hb
        rcases List.mem_cons.mp hb with rfl | hb
        · rcases List.mem_cons.mp ha with rfl | ha
          · exact hle
          · exact IsTrans.trans _ _ _ hle (hleast a ha)
        · exact h.better a ha b hb
      · rename_i hle
        have hlt : le least x := (Std.Total.total least x).resolve_right hle
        refine ⟨least :: dropped, ?_, ?_, ?_, fun _ => ?_⟩
        · have hinsert : (rest.orderedInsert le x ++ least :: dropped).Perm (x :: (rest ++ least :: dropped)) :=
            (List.perm_orderedInsert le x rest).append_right _
          have hback : (rest ++ least :: dropped).Perm all := List.perm_middle.trans h.perm
          exact hinsert.trans (hback.cons x)
        · intro a ha b hb
          have hab : le least a := by
            rcases (List.mem_orderedInsert le).mp ha with rfl | ha
            · exact hlt
            · exact hleast a ha
          rcases List.mem_cons.mp hb with rfl | hb
          · exact hab
          · exact IsTrans.trans _ _ _ (h.better least List.mem_cons_self b hb) hab
        · rw [List.orderedInsert_length]
          exact h.atMost
        · rw [List.orderedInsert_length]
          exact hfull

theorem chosen_foldl_offer_append (xs : List α) (hsorted : heap.Pairwise le)
    (h : Chosen (fun a b => le b a) k all heap dropped) :
    ∃ dropped', Chosen (fun a b => le b a) k (xs ++ all) (xs.foldl (offer le k) heap) dropped' := by
  induction xs generalizing heap all dropped with
  | nil => exact ⟨dropped, h⟩
  | cons x xs ih =>
    obtain ⟨dropped₁, h₁⟩ := chosen_offer hsorted h x
    obtain ⟨dropped₂, h₂⟩ := ih (sorted_offer hsorted x) h₁
    exact ⟨dropped₂, h₂.of_perm List.perm_middle⟩

/-- **Whatever is offered, the heap keeps the greatest of it.** -/
theorem chosen_foldl_offer (xs : List α) :
    ∃ dropped, Chosen (fun a b => le b a) k xs (xs.foldl (offer le k) []) dropped := by
  have hnil : Chosen (fun a b => le b a) k ([] : List α) [] [] :=
    ⟨List.Perm.nil, fun _ ha => absurd ha List.not_mem_nil, Nat.zero_le k, fun hne => absurd rfl hne⟩
  obtain ⟨dropped, h⟩ := chosen_foldl_offer_append xs List.Pairwise.nil hnil
  rw [List.append_nil] at h
  exact ⟨dropped, h⟩

end Heap

/-! ### Two orders -/

section Ties

variable {β : Type} [LinearOrder β] {f : α → β} {k : ℕ} {all : List α}

/-- There is less than `k` of more than some size, and more than `k` of it and more. -/
def Tied (f : α → β) (k : ℕ) (all : List α) : Prop :=
  ∃ s, all.countP (fun a => decide (s < f a)) < k ∧ k < all.countP fun a => decide (s ≤ f a)

variable {r₁ r₂ : α → α → Prop} {kept dropped kept₁ dropped₁ kept₂ dropped₂ : List α}

/-- A tie is one between something kept and something dropped. -/
theorem tied_iff (h : Chosen r₁ k all kept dropped) (hr : ∀ a b, r₁ a b → f b ≤ f a) :
    Tied f k all ↔ ∃ a ∈ kept, ∃ b ∈ dropped, f a = f b := by
  have hcount (p : α → Bool) : all.countP p = kept.countP p + dropped.countP p := by
    rw [← h.perm.countP_eq p, List.countP_append]
  constructor
  · rintro ⟨s, hfew, hmany⟩
    rw [hcount] at hfew hmany
    -- Something of size `s` or more is dropped, so everything is kept that is more.
    have hdropped : ∃ b ∈ dropped, s ≤ f b := by
      by_contra hnone
      have hzero : dropped.countP (fun a => decide (s ≤ f a)) = 0 := by
        rw [List.countP_eq_zero]
        intro b hb hle
        exact hnone ⟨b, hb, of_decide_eq_true hle⟩
      have hall := List.countP_le_length (p := fun a => decide (s ≤ f a)) (l := kept)
      have hatMost := h.atMost
      omega
    obtain ⟨b, hb, hsb⟩ := hdropped
    have hfull : kept.length = k := h.full (List.ne_nil_of_mem hb)
    have hkept : ∃ a ∈ kept, f a ≤ s := by
      by_contra hnone
      have hevery : kept.countP (fun a => decide (s < f a)) = kept.length := by
        rw [List.countP_eq_length]
        intro a ha
        refine decide_eq_true (lt_of_not_ge fun hle => hnone ⟨a, ha, hle⟩)
      omega
    obtain ⟨a, ha, has⟩ := hkept
    exact ⟨a, ha, b, hb, le_antisymm (has.trans hsb) (hr a b (h.better a ha b hb))⟩
  · rintro ⟨a, ha, b, hb, hab⟩
    have hfull : kept.length = k := h.full (List.ne_nil_of_mem hb)
    refine ⟨f a, ?_, ?_⟩
    · have hnone : dropped.countP (fun c => decide (f a < f c)) = 0 := by
        rw [List.countP_eq_zero]
        intro c hc hlt
        exact absurd (of_decide_eq_true hlt) (not_lt_of_ge (hr a c (h.better a ha c hc)))
      have hless : kept.countP (fun c => decide (f a < f c)) < kept.length := by
        refine lt_of_le_of_ne List.countP_le_length fun hall => ?_
        exact absurd (of_decide_eq_true (List.countP_eq_length.mp hall a ha)) (lt_irrefl _)
      rw [hcount]
      omega
    · have hevery : kept.countP (fun c => decide (f a ≤ f c)) = kept.length := by
        rw [List.countP_eq_length]
        intro c hc
        rw [hab]
        exact decide_eq_true (hr c b (h.better c hc b hb))
      have hone : 0 < dropped.countP fun c => decide (f a ≤ f c) :=
        List.countP_pos_iff.mpr ⟨b, hb, decide_eq_true hab.le⟩
      rw [hcount]
      omega

/-- **Two orders choose the same** just when there is no tie, if they agree on sizes and are opposite
on what is of one size. -/
theorem perm_iff_not_tied (hnodup : all.Nodup) (h₁ : Chosen r₁ k all kept₁ dropped₁)
    (h₂ : Chosen r₂ k all kept₂ dropped₂) (hr₁ : ∀ a b, r₁ a b → f b ≤ f a) (hr₂ : ∀ a b, r₂ a b → f b ≤ f a)
    (hopposite : ∀ a ∈ all, ∀ b ∈ all, f a = f b → r₁ a b → r₂ a b → a = b) :
    kept₁.Perm kept₂ ↔ ¬ Tied f k all := by
  obtain ⟨hnodup₁, happart₁⟩ := h₁.nodup hnodup
  obtain ⟨hnodup₂, happart₂⟩ := h₂.nodup hnodup
  constructor
  · intro hperm htied
    obtain ⟨a, ha, b, hb, hab⟩ := (tied_iff h₁ hr₁).mp htied
    have hbkept : b ∉ kept₂ := fun hmem => happart₁ b (hperm.mem_iff.mpr hmem) hb
    have hball : b ∈ all := h₁.mem_all.mpr (Or.inr hb)
    have hbdropped : b ∈ dropped₂ := (h₂.mem_all.mp hball).resolve_left hbkept
    have heq : a = b := hopposite a (h₁.mem_all.mpr (Or.inl ha)) b hball hab (h₁.better a ha b hb)
      (h₂.better a (hperm.mem_iff.mp ha) b hbdropped)
    exact happart₁ b (heq ▸ ha) hb
  · intro hnot
    have hlength : kept₂.length = kept₁.length := by rw [h₁.length_kept, h₂.length_kept]
    refine (List.subperm_of_subset hnodup₁ fun a ha => ?_).perm_of_length_le hlength.le
    by_contra hout
    have hadropped : a ∈ dropped₂ := (h₂.mem_all.mp (h₁.mem_all.mpr (Or.inl ha))).resolve_left hout
    -- Both keep as many, so what the second keeps is not all kept by the first.
    have hother : ∃ b ∈ kept₂, b ∉ kept₁ := by
      by_contra hnone
      have hsubset : kept₂ ⊆ kept₁ := fun b hb => by_contra fun hbout => hnone ⟨b, hb, hbout⟩
      have hperm := (List.subperm_of_subset hnodup₂ hsubset).perm_of_length_le hlength.ge
      exact hout (hperm.mem_iff.mpr ha)
    obtain ⟨b, hb, hbout⟩ := hother
    have hbdropped : b ∈ dropped₁ := (h₁.mem_all.mp (h₂.mem_all.mpr (Or.inl hb))).resolve_left hbout
    have hle : f b ≤ f a := hr₁ a b (h₁.better a ha b hbdropped)
    have hge : f a ≤ f b := hr₂ b a (h₂.better b hb a hadropped)
    exact hnot ((tied_iff h₁ hr₁).mpr ⟨a, ha, b, hbdropped, le_antisymm hge hle⟩)

end Ties

/-! ### By rank -/

/-- Which keys are kept of a list sorted by them: those that fewer than `k` elements come before. -/
theorem exists_mem_take_iff {β : Type} [LinearOrder β] {key : α → β} {l : List α}
    (h : l.Pairwise fun a b => key a ≤ key b) (k : ℕ) (p : β → Prop) :
    (∃ a ∈ l.take k, p (key a)) ↔ ∃ a ∈ l, l.countP (fun b => key b < key a) < k ∧ p (key a) := by
  constructor
  · rintro ⟨a, ha, hp⟩
    refine ⟨a, List.mem_of_mem_take ha, ?_, hp⟩
    obtain ⟨before, after, hsplit⟩ := List.append_of_mem ha
    have hlength : before.length < k := by
      have hle := List.length_take_le k l
      rw [hsplit, List.length_append, List.length_cons] at hle
      omega
    have hl : l = before ++ a :: (after ++ l.drop k) := by
      rw [← List.cons_append, ← List.append_assoc, ← hsplit, List.take_append_drop]
    have hlater : (a :: (after ++ l.drop k)).countP (fun b => key b < key a) = 0 := by
      rw [hl] at h
      rw [List.countP_eq_zero, List.forall_mem_cons]
      refine ⟨fun hlt => lt_irrefl _ (of_decide_eq_true hlt), fun b hb hlt => ?_⟩
      exact absurd ((List.pairwise_cons.mp (List.pairwise_append.mp h).2.1).1 b hb) (not_le.mpr (of_decide_eq_true hlt))
    rw [hl, List.countP_append, hlater, Nat.add_zero]
    exact Nat.lt_of_le_of_lt List.countP_le_length hlength
  · rintro ⟨a, ha, hcount, hp⟩
    -- The first element with the key of `a` is kept.
    have hsome : (l.find? fun b => key b = key a).isSome = true := List.find?_isSome.mpr ⟨a, ha, decide_eq_true rfl⟩
    obtain ⟨b, hb⟩ := Option.isSome_iff_exists.mp hsome
    obtain ⟨hkey, before, after, rfl, hbefore⟩ := List.find?_eq_some_iff_append.mp hb
    rw [decide_eq_true_eq] at hkey
    have hless : ∀ c ∈ before, key c < key a := by
      intro c hc
      have hle : key c ≤ key b := (List.pairwise_append.mp h).2.2 c hc b List.mem_cons_self
      have hne : key c ≠ key a := by simpa using hbefore c hc
      exact lt_of_le_of_ne (hkey ▸ hle) hne
    have hall : before.countP (fun c => key c < key a) = before.length :=
      List.countP_eq_length.mpr fun c hc => decide_eq_true (hless c hc)
    rw [List.countP_append, hall] at hcount
    refine ⟨b, ?_, hkey ▸ hp⟩
    rw [List.take_append, List.take_of_length_le (by omega), List.mem_append]
    refine Or.inr (List.mem_of_mem_head? ?_)
    rw [List.head?_take, if_neg (by omega), List.head?_cons, Option.mem_some]

end CyClaw.TopK

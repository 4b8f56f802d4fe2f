/-
Lists without their repetitions.

`eraseDups` keeps the first occurrence of each element, so what stands last in it is the
element that turned up last for the first time.  That need not be the last element of the
list: it is exactly when nothing new turns up once the last element has been seen
(`getLast?_eraseDups_iff`).
-/
import Mathlib.Data.List.Basic
import Mathlib.Data.List.Induction

namespace FirstSeen

variable {α : Type*} [BEq α] [LawfulBEq α] {l : List α} {a b : α}

theorem eraseDups_concat_of_mem (h : b ∈ l) : (l ++ [b]).eraseDups = l.eraseDups := by
  rw [List.eraseDups_append]
  have hnone : List.removeAll [b] l = [] := by simp [List.removeAll, h]
  rw [hnone, List.eraseDups_nil, List.append_nil]

theorem eraseDups_concat_of_not_mem (h : b ∉ l) : (l ++ [b]).eraseDups = l.eraseDups ++ [b] := by
  rw [List.eraseDups_append]
  have hkept : List.removeAll [b] l = [b] := by simp [List.removeAll, h]
  rw [hkept, List.eraseDups_cons, List.filter_nil, List.eraseDups_nil]

theorem filter_eraseDups (p : α → Bool) (l : List α) : l.eraseDups.filter p = (l.filter p).eraseDups := by
  induction l using List.reverseRecOn with
  | nil => rfl
  | append_singleton l b ih =>
      rw [List.filter_append, List.filter_singleton]
      by_cases hmem : b ∈ l
      · rw [eraseDups_concat_of_mem hmem, ih]
        cases hb : p b with
        | false => rw [Bool.cond_false, List.append_nil]
        | true =>
            rw [Bool.cond_true, eraseDups_concat_of_mem (List.mem_filter.mpr ⟨hmem, hb⟩)]
      · rw [eraseDups_concat_of_not_mem hmem, List.filter_append, List.filter_singleton, ih]
        cases hb : p b with
        | false => rw [Bool.cond_false, List.append_nil, List.append_nil]
        | true =>
            rw [Bool.cond_true, eraseDups_concat_of_not_mem fun h => hmem (List.mem_filter.mp h).1]

/-- Once `a` has been seen, nothing turns up for the first time. -/
def Closes (a : α) (l : List α) : Prop :=
  ∀ before b after, l = before ++ b :: after → a ∈ before → b ∈ before

omit [BEq α] [LawfulBEq α] in
theorem closes_concat_of_mem (h : b ∈ l) : Closes a (l ++ [b]) ↔ Closes a l := by
  constructor
  · intro hcloses before c after heq ha
    refine hcloses before c (after ++ [b]) ?_ ha
    rw [heq, List.append_assoc, List.cons_append]
  · intro hcloses before c after heq ha
    obtain rfl | ⟨after, d, rfl⟩ := List.eq_nil_or_concat after
    · obtain ⟨rfl, hbc⟩ := List.append_inj' heq rfl
      obtain rfl := (List.cons.inj hbc).1
      exact h
    · rw [List.concat_eq_append, ← List.cons_append, ← List.append_assoc] at heq
      exact hcloses before c after (List.append_inj' heq rfl).1 ha

/-- **What stands last without the repetitions** is the element that closes the list. -/
theorem getLast?_eraseDups_eq_some : l.eraseDups.getLast? = some a ↔ a ∈ l ∧ Closes a l := by
  induction l using List.reverseRecOn with
  | nil => simp
  | append_singleton l b ih =>
      by_cases hmem : b ∈ l
      · rw [eraseDups_concat_of_mem hmem, ih, closes_concat_of_mem hmem, List.mem_append, List.mem_singleton]
        constructor
        · rintro ⟨ha, hcloses⟩
          exact ⟨Or.inl ha, hcloses⟩
        · rintro ⟨ha | rfl, hcloses⟩
          · exact ⟨ha, hcloses⟩
          · exact ⟨hmem, hcloses⟩
      · rw [eraseDups_concat_of_not_mem hmem, List.getLast?_concat, Option.some.injEq]
        constructor
        · rintro rfl
          refine ⟨List.mem_append_right l List.mem_cons_self, ?_⟩
          intro before c after heq hb
          -- What stands before an element of the list stands before the last one.
          obtain rfl | ⟨after, d, rfl⟩ := List.eq_nil_or_concat after
          · obtain ⟨rfl, -⟩ := List.append_inj' heq rfl
            exact absurd hb hmem
          · rw [List.concat_eq_append, ← List.cons_append, ← List.append_assoc] at heq
            rw [(List.append_inj' heq rfl).1] at hmem
            exact absurd (List.mem_append_left _ hb) hmem
        · rintro ⟨ha, hcloses⟩
          rw [List.mem_append, List.mem_singleton] at ha
          obtain ha | rfl := ha
          · exact absurd (hcloses l b [] rfl ha) hmem
          · rfl

/-- The last element stands last without the repetitions. -/
def Settled (l : List α) : Prop := ∀ a ∈ l.getLast?, Closes a l

theorem getLast?_eraseDups_iff (l : List α) : l.eraseDups.getLast? = l.getLast? ↔ Settled l := by
  cases hlast : l.getLast? with
  | none =>
      rw [List.getLast?_eq_none_iff] at hlast
      simp [Settled, hlast]
  | some a =>
      rw [getLast?_eraseDups_eq_some, Settled, hlast]
      have hmem : a ∈ l := List.mem_of_getLast? hlast
      simp [hmem]

end FirstSeen
